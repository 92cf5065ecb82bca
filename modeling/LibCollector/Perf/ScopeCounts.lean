import LibCollector.Perf.EventContext

/-!
# Accounting of scope calls

Whether a sequence of `update_data_scope` calls leaves the sum of the increments and the
number of calls of every function (`AccountsScopes`). The last two function ids are out
of range for every vector, and a call in which no counter increases is not counted, so it
does if every call has a smaller id and increases a counter (`ScopesFit`).
-/

namespace LibCollector.Perf

open LibCollector.Misc

/-- The counters with their accumulated values, and the counts, are those of the calls. -/
structure ScopesCounted (fresh : EventContext) (calls : List ScopeCall) (ctx : EventContext) :
    Prop where
  scopeValues : ∀ i c, fresh.mCounters[i]? = some c → ∃ c', ctx.mCounters[i]? = some c' ∧
    c'.name = c.name ∧ ∀ f : UInt16, c'.scopeValues.getD f.toNat 0 = scopeSum i f calls
  scopeNumCalls : ∀ f : UInt16, (ctx.scopeNumCalls.getD f.toNat 0).toInt = numCalls f calls
  scopeNumWithPerf : ∀ f : UInt16, (ctx.scopeNumWithPerf.getD f.toNat 0).toInt =
    numWithPerf fresh.mCounters.length f calls

namespace EventContext

/-- A context that no scope call has been made on. -/
structure Unused (ctx : EventContext) : Prop where
  scopeValues : ∀ c ∈ ctx.mCounters, c.scopeValues = List.replicate 512 0
  scopeNumCalls : ctx.scopeNumCalls = []
  scopeNumWithPerf : ctx.scopeNumWithPerf = []

/-- After each of the calls, no access was out of range and the accumulators are right. -/
def AccountsScopes (ctx : EventContext) (calls : List ScopeCall) : Prop :=
  ∀ pre, pre <+: calls → ∃ ctx', run updateDataScope ctx pre = some ctx' ∧
    ScopesCounted ctx pre ctx'

/-- The function ids are in range for `n` counters that fit into a snapshot, every call increases
    them, and the calls of each function can be counted. -/
structure ScopesFit (n : Nat) (calls : List ScopeCall) : Prop where
  range : ∀ call ∈ calls, call.funcId.toNat < 65534 ∧ n ≤ 8
  increase : ∀ call ∈ calls, call.total n > 0
  count : ∀ f, numCalls f calls < 2 ^ 31

/-- A context that has just been initialised is unused. -/
theorem unused_init {events : List (Str × Int)} {ctx : EventContext}
    (h : init events {} = some ctx) : ctx.Unused := by
  cases events with
  | nil => cases h
  | cons leader events =>
    cases h
    refine ⟨fun c hc => ?_, rfl, rfl⟩
    rw [List.nil_append] at hc
    rcases List.mem_map.mp hc with ⟨e, -, rfl⟩
    rfl

theorem Unused.sized {ctx : EventContext} (h : ctx.Unused) : ctx.Sized := by
  refine ⟨fun c hc => ?_, ?_, ?_⟩
  · rw [h.scopeValues c hc, List.length_replicate]
    omega
  · rw [h.scopeNumCalls]
    exact Nat.zero_le _
  · rw [h.scopeNumWithPerf]
    exact Nat.zero_le _

theorem Unused.getD_scopeValues {ctx : EventContext} (h : ctx.Unused) {c : Counter}
    (hc : c ∈ ctx.mCounters) (f : Nat) : c.scopeValues.getD f 0 = 0 := by
  rw [h.scopeValues c hc]
  by_cases hf : f < 512
  · exact List.getD_replicate 0 hf
  · apply List.getD_eq_default
    rw [List.length_replicate]
    omega

/-! ## In range -/

/-- The calls stay in range exactly if each of them does. -/
theorem run_updateDataScope_isSome {ctx : EventContext} (hctx : ctx.Sized)
    {calls : List ScopeCall} :
    (run updateDataScope ctx calls).isSome ↔ ∀ call ∈ calls,
      ctx.mCounters = [] ∨ call.funcId.toNat < 65534 ∧ ctx.mCounters.length ≤ 8 := by
  induction calls generalizing ctx with
  | nil => simp
  | cons call calls ih =>
    rw [List.forall_mem_cons, ← updateDataScope_isSome hctx, run_cons]
    cases hnext : ctx.updateDataScope call with
    | none => simp
    | some next =>
      have hlength := (grew_updateDataScope hnext).length
      have hnil : next.mCounters = [] ↔ ctx.mCounters = [] := by
        rw [← List.length_eq_zero_iff, hlength, List.length_eq_zero_iff]
      rw [Option.bind_some, ih (sized_updateDataScope hctx hnext), hlength, hnil]
      simp

/-! ## Counts -/

theorem toInt_ofNat_eq_iff {k : Nat} : (Int32.ofNat k).toInt = k ↔ k < 2 ^ 31 := by
  constructor
  · intro h
    have hlt := (Int32.ofNat k).toInt_lt
    omega
  · exact Int32.toInt_ofNat_of_lt

/-- The increasing calls of a function are all of its calls exactly if every one increases. -/
theorem numWithPerf_eq_iff {n : Nat} {calls : List ScopeCall} :
    (∀ f, numWithPerf n f calls = numCalls f calls) ↔ ∀ call ∈ calls, call.total n > 0 := by
  constructor
  · intro h call hcall
    have heq := h call.funcId
    rw [numWithPerf, numCalls, List.countP_eq_length_filter, List.countP_eq_length_filter] at heq
    have hsub : List.Sublist
        (calls.filter fun c => c.funcId = call.funcId ∧ c.total n > 0)
        (calls.filter fun c => c.funcId = call.funcId) := by
      apply List.monotone_filter_right
      intro c hc
      have hboth := of_decide_eq_true hc
      exact decide_eq_true hboth.1
    have hmem : call ∈ calls.filter fun c => c.funcId = call.funcId :=
      List.mem_filter.mpr ⟨hcall, decide_eq_true rfl⟩
    rw [← hsub.eq_of_length heq] at hmem
    exact (of_decide_eq_true (List.mem_filter.mp hmem).2).2
  · intro h f
    apply List.countP_congr
    intro call hcall
    simp only [decide_eq_true_eq]
    exact and_iff_left (h call hcall)

/-- The accumulators of an unused context after some calls that are in range. -/
theorem Unused.accumulated {ctx ctx' : EventContext} (h : ctx.Unused) {calls : List ScopeCall}
    (hrun : run updateDataScope ctx calls = some ctx') :
    (∀ i c, ctx.mCounters[i]? = some c → ∃ c', ctx'.mCounters[i]? = some c' ∧ c'.name = c.name ∧
      ∀ f : UInt16, c'.scopeValues.getD f.toNat 0 = scopeSum i f calls) ∧
    (∀ f : UInt16, ctx'.scopeNumCalls.getD f.toNat 0 =
      Int32.ofNat (numWithPerf ctx.mCounters.length f calls)) ∧
    ∀ f : UInt16, ctx'.scopeNumWithPerf.getD f.toNat 0 =
      Int32.ofNat (numWithPerf ctx.mCounters.length f calls) := by
  have hgrew := grew_run hrun
  refine ⟨fun i c hc => ?_, fun f => ?_, fun f => ?_⟩
  · rcases hgrew.counters i c hc with ⟨c', hc', hname, -, -, hvalues⟩
    refine ⟨c', hc', hname, fun f => ?_⟩
    rw [hvalues, h.getD_scopeValues (List.mem_of_getElem? hc), UInt64.zero_add]
  · rw [hgrew.scopeNumCalls, h.scopeNumCalls, List.getD_nil, Int32.zero_add]
  · rw [hgrew.scopeNumWithPerf, h.scopeNumWithPerf, List.getD_nil, Int32.zero_add]

/-- Calls that fit are accounted for. -/
theorem scopesCounted_of_fit {ctx : EventContext} (h : ctx.Unused) {calls : List ScopeCall}
    (hfit : ScopesFit ctx.mCounters.length calls) :
    ∃ ctx', run updateDataScope ctx calls = some ctx' ∧ ScopesCounted ctx calls ctx' := by
  have hsome := (run_updateDataScope_isSome h.sized).mpr fun call hcall =>
    Or.inr (hfit.range call hcall)
  rcases Option.isSome_iff_exists.mp hsome with ⟨ctx', hrun⟩
  rcases h.accumulated hrun with ⟨hvalues, hcalls, hwithPerf⟩
  have hall := numWithPerf_eq_iff.mpr hfit.increase
  refine ⟨ctx', hrun, hvalues, fun f => ?_, fun f => ?_⟩
  · rw [hcalls, hall]
    exact toInt_ofNat_eq_iff.mpr (hfit.count f)
  · rw [hwithPerf, hall]
    exact toInt_ofNat_eq_iff.mpr (hfit.count f)

/-- Calls that are accounted for fit. -/
theorem fit_of_scopesCounted {ctx ctx' : EventContext} (h : ctx.Unused) {calls : List ScopeCall}
    (hrun : run updateDataScope ctx calls = some ctx') (hcounted : ScopesCounted ctx calls ctx') :
    ScopesFit ctx.mCounters.length calls := by
  rcases h.accumulated hrun with ⟨-, hcalls, hwithPerf⟩
  have hsmall : ∀ f, numWithPerf ctx.mCounters.length f calls < 2 ^ 31 := by
    intro f
    have hint := hcounted.scopeNumWithPerf f
    rw [hwithPerf] at hint
    exact toInt_ofNat_eq_iff.mp hint
  have heq : ∀ f, numWithPerf ctx.mCounters.length f calls = numCalls f calls := by
    intro f
    have hint := hcounted.scopeNumCalls f
    rw [hcalls, Int32.toInt_ofNat_of_lt (hsmall f)] at hint
    exact Int.ofNat.inj hint
  have hincrease := numWithPerf_eq_iff.mp heq
  refine ⟨fun call hcall => ?_, hincrease, fun f => heq f ▸ hsmall f⟩
  have hsome : (run updateDataScope ctx calls).isSome := by rw [hrun]; rfl
  rcases (run_updateDataScope_isSome h.sized).mp hsome call hcall with hnil | hfits
  · have hpos := hincrease call hcall
    rw [hnil] at hpos
    exact absurd hpos (UInt64.lt_irrefl 0)
  · exact hfits

theorem ScopesFit.of_prefix {n : Nat} {pre calls : List ScopeCall} (h : ScopesFit n calls)
    (hpre : pre <+: calls) : ScopesFit n pre := by
  refine ⟨fun call hcall => h.range call (hpre.subset hcall),
    fun call hcall => h.increase call (hpre.subset hcall), fun f => ?_⟩
  exact Nat.lt_of_le_of_lt (hpre.sublist.countP_le) (h.count f)

/-- The calls are accounted for exactly if every function id is in range for all counters, every
    call increases a counter, and no function is called too often. -/
theorem accountsScopes_iff {ctx : EventContext} (h : ctx.Unused) (calls : List ScopeCall) :
    ctx.AccountsScopes calls ↔ ScopesFit ctx.mCounters.length calls := by
  constructor
  · intro haccounts
    rcases haccounts calls (List.prefix_refl calls) with ⟨ctx', hrun, hcounted⟩
    exact fit_of_scopesCounted h hrun hcounted
  · intro hfit pre hpre
    exact scopesCounted_of_fit h (hfit.of_prefix hpre)

/-- A context with one counter. -/
def cycles : EventContext where
  group := 3
  mCounters := [{ name := "cycles".toList, fd := 3 }]

/-- A snapshot of the counter. -/
def cyclesSnapshot (value : UInt64) : Snapshot where
  values := (Vector.replicate 8 0).set 0 value

/-- A call during which the counter has increased from `a` to `b`. -/
def cyclesCall (funcId : UInt16) (a b : UInt64) : ScopeCall where
  funcId := funcId
  snapStart := cyclesSnapshot a
  snapEnd := cyclesSnapshot b

theorem unused_cycles : cycles.Unused := by
  refine ⟨fun c hc => ?_, rfl, rfl⟩
  rw [List.mem_singleton.mp hc]

/-- Calls of two functions that increase the counter. -/
theorem accountsScopes_two_calls :
    cycles.AccountsScopes [cyclesCall 600 10 15, cyclesCall 5 20 22] := by
  apply (accountsScopes_iff unused_cycles _).mpr
  refine ⟨by decide, by decide, fun f => ?_⟩
  exact Nat.lt_of_le_of_lt List.countP_le_length (by decide)

/-- A call that does not increase the counter is not counted. -/
theorem not_accountsScopes_idle_call : ¬ cycles.AccountsScopes [cyclesCall 5 10 10] := by
  intro haccounts
  rcases haccounts _ (List.prefix_refl _) with ⟨ctx', hrun, hcounted⟩
  have hcalls := hcounted.scopeNumCalls 5
  rw [(grew_run hrun).scopeNumCalls] at hcalls
  exact absurd hcalls (by decide)

end EventContext

end LibCollector.Perf
