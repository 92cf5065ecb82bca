import LibCollector.Interface.Collector
import LibCollector.Misc.Grow
import LibCollector.Misc.Run
import LibCollector.Misc.Table
import Mathlib.Data.UInt

/-!
# Perf event contexts

`event_context` of `src/collectors/perf.hpp`: the counters of a group, and the
accumulators of scope calls, vectors indexed by the `func_id` of a call. What the kernel
answers is an input. An access out of range and a failed assertion are `none`;
`unsigned long` has 64 bits, and the `int32_t` counts wrap.
-/

namespace LibCollector.Perf

open LibCollector.Misc LibCollector.Interface

/-- `struct snapshot`. -/
structure Snapshot where
  size : UInt64 := 0
  values : Vector UInt64 8 := Vector.replicate 8 0
  deriving DecidableEq

/-- `event_context::counter`. -/
structure Counter where
  name : Str
  fd : Int
  scopeValues : List UInt64 := List.replicate 512 0
  deriving DecidableEq

/-- The members of `event_context`. `mValueResults` tells whether the pointer is set; it points to
    the results of the thread that has the context. -/
structure EventContext where
  lastSnapFuncId : UInt16 := 65535
  lastSnap : Snapshot := {}
  group : Int := -1
  mCounters : List Counter := []
  scopeNumWithPerf : List Int32 := []
  scopeNumCalls : List Int32 := []
  mValueResults : Bool := false
  mEnablePerapiPerf : Bool := false
  deriving DecidableEq

/-- A call of `update_data_scope`. -/
structure ScopeCall where
  funcId : UInt16
  snapStart : Snapshot
  snapEnd : Snapshot

/-- The size that a vector grows to for an index. -/
def scopeSize (funcId : Nat) : Nat := min (funcId * 2 + 1) (65535 - 1)

namespace Counter

/-- The accumulated value of a counter grows. -/
def addScope (funcId : UInt16) (diff : UInt64) (c : Counter) : Option Counter :=
  (modifyGrown scopeSize 0 funcId.toNat (· + diff) c.scopeValues).map fun values =>
    { c with scopeValues := values }

end Counter

namespace ScopeCall

/-- The difference of the values of a counter between the snapshots. -/
def diff? (call : ScopeCall) (i : Nat) : Option UInt64 :=
  call.snapEnd.values[i]?.bind fun e => call.snapStart.values[i]?.map fun s => e - s

/-- The loop of `update_data_scope` over the counters, each with the difference that is added. -/
def updateCounters (call : ScopeCall) (counters : List Counter) :
    Option (List (Counter × UInt64)) :=
  counters.zipIdx.mapM fun e =>
    (call.diff? e.2).bind fun diff => (e.1.addScope call.funcId diff).map fun c => (c, diff)

end ScopeCall

/-- One more call of a function in a vector of counts. -/
def countCall (funcId : UInt16) (counts : List Int32) : Option (List Int32) :=
  modifyGrown scopeSize 0 funcId.toNat (· + 1) counts

namespace EventContext

/-- `event_context::init`, for the names of the events and the descriptors that they are opened
    with. -/
def init (events : List (Str × Int)) (ctx : EventContext) : Option EventContext :=
  match events with
  | [] => none
  | leader :: _ =>
    some { ctx with
      group := leader.2
      mCounters := ctx.mCounters ++ events.map fun e => { name := e.1, fd := e.2 } }

/-- `event_context::update_data_scope`. -/
def updateDataScope (ctx : EventContext) (call : ScopeCall) : Option EventContext :=
  (call.updateCounters ctx.mCounters).bind fun r =>
    let ctx := { ctx with mCounters := r.map Prod.fst, mValueResults := true }
    if (r.map Prod.snd).sum > 0 then
      (countCall call.funcId ctx.scopeNumCalls).bind fun calls =>
        (countCall call.funcId ctx.scopeNumWithPerf).map fun withPerf =>
          { ctx with scopeNumCalls := calls, scopeNumWithPerf := withPerf }
    else some ctx

/-- `event_context::collect_scope`, for what the counters read; `exit` is `none`. -/
def collectScope (funcId : UInt16) (stopping : Bool) (snap : Snapshot) (ctx : EventContext) :
    Option (Snapshot × EventContext) :=
  if stopping ∧ ctx.lastSnapFuncId ≠ funcId then none
  else if stopping then some (snap, { ctx with lastSnapFuncId := 65535 })
  else some (snap, { ctx with lastSnapFuncId := funcId, lastSnap := snap })

end EventContext

/-! ## The counters of one call -/

namespace ScopeCall

/-- The difference of the values of a counter between the snapshots. -/
def diff (call : ScopeCall) (i : Nat) : UInt64 := (call.diff? i).getD 0

/-- The sum of the differences of the first `n` counters. -/
def total (call : ScopeCall) (n : Nat) : UInt64 := ((List.range n).map call.diff).sum

theorem diff?_isSome {call : ScopeCall} {i : Nat} : (call.diff? i).isSome ↔ i < 8 := by
  by_cases hi : i < 8
  · simp [diff?, hi]
  · simp [diff?, hi]

theorem getElem?_updateCounters {call : ScopeCall} {counters : List Counter}
    {r : List (Counter × UInt64)} (h : call.updateCounters counters = some r) {i : Nat}
    {c : Counter} (hc : counters[i]? = some c) :
    ∃ c', r[i]? = some (c', call.diff i) ∧ c.addScope call.funcId (call.diff i) = some c' := by
  rcases getElem?_mapM_zipIdx h hc with ⟨e, hr, he⟩
  rcases Option.bind_eq_some_iff.mp he with ⟨diff, hdiff, hadd⟩
  rcases Option.map_eq_some_iff.mp hadd with ⟨c', hc', rfl⟩
  have hvalue : call.diff i = diff := by rw [ScopeCall.diff, hdiff, Option.getD_some]
  rw [hvalue]
  exact ⟨c', hr, hc'⟩

theorem length_updateCounters {call : ScopeCall} {counters : List Counter}
    {r : List (Counter × UInt64)} (h : call.updateCounters counters = some r) :
    r.length = counters.length := by
  rw [length_of_mapM h, List.length_zipIdx]

theorem sum_updateCounters {call : ScopeCall} {counters : List Counter}
    {r : List (Counter × UInt64)} (h : call.updateCounters counters = some r) :
    (r.map Prod.snd).sum = call.total counters.length := by
  rw [total]
  congr 1
  apply List.ext_getElem?
  intro i
  rw [List.getElem?_map, List.getElem?_map]
  by_cases hi : i < counters.length
  · rcases getElem?_updateCounters h (List.getElem?_eq_getElem hi) with ⟨c', hr, -⟩
    rw [hr, List.getElem?_range hi]
    rfl
  · rw [List.getElem?_eq_none (by rw [length_updateCounters h]; omega),
      List.getElem?_eq_none (by rw [List.length_range]; omega)]
    rfl

end ScopeCall

/-! ## What the calls add up to -/

/-- The increments of a counter over the calls of a function. -/
def scopeSum (i : Nat) (funcId : UInt16) (calls : List ScopeCall) : UInt64 :=
  ((calls.filter fun call => call.funcId = funcId).map fun call => call.diff i).sum

/-- The number of calls of a function. -/
def numCalls (funcId : UInt16) (calls : List ScopeCall) : Nat :=
  calls.countP fun call => call.funcId = funcId

/-- The number of calls of a function in which the first `n` counters have increased. -/
def numWithPerf (n : Nat) (funcId : UInt16) (calls : List ScopeCall) : Nat :=
  calls.countP fun call => call.funcId = funcId ∧ call.total n > 0

theorem scopeSum_append (i : Nat) (funcId : UInt16) (calls calls' : List ScopeCall) :
    scopeSum i funcId (calls ++ calls') = scopeSum i funcId calls + scopeSum i funcId calls' := by
  rw [scopeSum, List.filter_append, List.map_append, List.sum_append]
  rfl

theorem scopeSum_singleton (i : Nat) (funcId : UInt16) (call : ScopeCall) :
    scopeSum i funcId [call] = if call.funcId = funcId then call.diff i else 0 := by
  by_cases h : call.funcId = funcId <;> simp [scopeSum, h]

theorem numWithPerf_append (n : Nat) (funcId : UInt16) (calls calls' : List ScopeCall) :
    numWithPerf n funcId (calls ++ calls') =
      numWithPerf n funcId calls + numWithPerf n funcId calls' :=
  List.countP_append

namespace EventContext

/-- The accumulators of `ctx'` are those of `ctx` after some more calls. -/
structure Grew (calls : List ScopeCall) (ctx ctx' : EventContext) : Prop where
  length : ctx'.mCounters.length = ctx.mCounters.length
  counters : ∀ i c, ctx.mCounters[i]? = some c → ∃ c', ctx'.mCounters[i]? = some c' ∧
    c'.name = c.name ∧ c'.fd = c.fd ∧ c.scopeValues.length ≤ c'.scopeValues.length ∧
      ∀ f : UInt16, c'.scopeValues.getD f.toNat 0 =
        c.scopeValues.getD f.toNat 0 + scopeSum i f calls
  scopeNumCalls : ∀ f : UInt16, ctx'.scopeNumCalls.getD f.toNat 0 =
    ctx.scopeNumCalls.getD f.toNat 0 + Int32.ofNat (numWithPerf ctx.mCounters.length f calls)
  scopeNumWithPerf : ∀ f : UInt16, ctx'.scopeNumWithPerf.getD f.toNat 0 =
    ctx.scopeNumWithPerf.getD f.toNat 0 + Int32.ofNat (numWithPerf ctx.mCounters.length f calls)

theorem Grew.refl (ctx : EventContext) : Grew [] ctx ctx := by
  refine ⟨rfl, fun i c hc => ⟨c, hc, rfl, rfl, Nat.le_refl _, fun f => ?_⟩, fun f => ?_,
    fun f => ?_⟩
  · exact (UInt64.add_zero _).symm
  · exact (Int32.add_zero _).symm
  · exact (Int32.add_zero _).symm

theorem Grew.trans {calls calls' : List ScopeCall} {a b c : EventContext} (h : Grew calls a b)
    (h' : Grew calls' b c) : Grew (calls ++ calls') a c := by
  refine ⟨h'.length.trans h.length, fun i x hx => ?_, fun f => ?_, fun f => ?_⟩
  · rcases h.counters i x hx with ⟨y, hy, hyname, hyfd, hylength, hyvalues⟩
    rcases h'.counters i y hy with ⟨z, hz, hzname, hzfd, hzlength, hzvalues⟩
    refine ⟨z, hz, hzname.trans hyname, hzfd.trans hyfd, Nat.le_trans hylength hzlength,
      fun f => ?_⟩
    rw [hzvalues, hyvalues, scopeSum_append, UInt64.add_assoc]
  · rw [h'.scopeNumCalls, h.scopeNumCalls, h.length, numWithPerf_append, Int32.ofNat_add,
      Int32.add_assoc]
  · rw [h'.scopeNumWithPerf, h.scopeNumWithPerf, h.length, numWithPerf_append, Int32.ofNat_add,
      Int32.add_assoc]

/-- The element of a vector of counts after one more call. -/
theorem getD_countCall {g : UInt16} {counts counts' : List Int32}
    (h : countCall g counts = some counts') (f : UInt16) :
    counts'.getD f.toNat 0 = counts.getD f.toNat 0 + if g = f then 1 else 0 := by
  rw [getD_modifyGrown h]
  by_cases hf : g = f
  · rw [if_pos (by rw [hf]), if_pos hf, hf]
  · rw [if_neg fun heq => hf (UInt16.toNat_inj.mp heq.symm), if_neg hf, Int32.add_zero]

/-- `update_data_scope` adds one call to the accumulators. -/
theorem grew_updateDataScope {ctx ctx' : EventContext} {call : ScopeCall}
    (h : ctx.updateDataScope call = some ctx') : Grew [call] ctx ctx' := by
  rcases Option.bind_eq_some_iff.mp h with ⟨r, hr, h⟩
  have hcounters : ∀ i c, ctx.mCounters[i]? = some c → ∃ c', (r.map Prod.fst)[i]? = some c' ∧
      c'.name = c.name ∧ c'.fd = c.fd ∧ c.scopeValues.length ≤ c'.scopeValues.length ∧
        ∀ f : UInt16, c'.scopeValues.getD f.toNat 0 =
          c.scopeValues.getD f.toNat 0 + scopeSum i f [call] := by
    intro i c hc
    rcases ScopeCall.getElem?_updateCounters hr hc with ⟨c', hc', hadd⟩
    rcases Option.map_eq_some_iff.mp hadd with ⟨values, hvalues, rfl⟩
    refine ⟨{ c with scopeValues := values }, ?_, rfl, rfl, le_length_modifyGrown hvalues,
      fun f => ?_⟩
    · rw [List.getElem?_map, hc', Option.map_some]
    rw [getD_modifyGrown hvalues, scopeSum_singleton]
    by_cases hf : call.funcId = f
    · rw [if_pos (by rw [hf]), if_pos hf, hf]
    · rw [if_neg fun heq => hf (UInt16.toNat_inj.mp heq.symm), if_neg hf, UInt64.add_zero]
  have hlength : (r.map Prod.fst).length = ctx.mCounters.length := by
    rw [List.length_map, ScopeCall.length_updateCounters hr]
  have hsum := ScopeCall.sum_updateCounters hr
  have hcount : ∀ f : UInt16, numWithPerf ctx.mCounters.length f [call] =
      if call.funcId = f ∧ call.total ctx.mCounters.length > 0 then 1 else 0 := by
    intro f
    rw [numWithPerf, List.countP_singleton]
    simp only [decide_eq_true_eq]
  rw [hsum] at h
  dsimp only at h
  by_cases hpos : call.total ctx.mCounters.length > 0
  · rw [if_pos hpos] at h
    rcases Option.bind_eq_some_iff.mp h with ⟨calls, hcalls, h⟩
    rcases Option.map_eq_some_iff.mp h with ⟨withPerf, hwithPerf, rfl⟩
    have hone : ∀ f : UInt16, (if call.funcId = f then (1 : Int32) else 0) =
        Int32.ofNat (numWithPerf ctx.mCounters.length f [call]) := by
      intro f
      rw [hcount]
      by_cases hf : call.funcId = f
      · rw [if_pos hf, if_pos ⟨hf, hpos⟩]
        rfl
      · rw [if_neg hf, if_neg fun hc => hf hc.1]
        rfl
    refine ⟨hlength, hcounters, fun f => ?_, fun f => ?_⟩
    · rw [getD_countCall hcalls, hone]
    · rw [getD_countCall hwithPerf, hone]
  · rw [if_neg hpos] at h
    cases h
    have hzero : ∀ f : UInt16, numWithPerf ctx.mCounters.length f [call] = 0 := by
      intro f
      rw [hcount, if_neg fun hc => hpos hc.2]
    refine ⟨hlength, hcounters, fun f => ?_, fun f => ?_⟩
    · rw [hzero]
      exact (Int32.add_zero _).symm
    · rw [hzero]
      exact (Int32.add_zero _).symm

/-- `update_data_scope` sets the pointer to the results and keeps the last snapshot. -/
theorem frame_updateDataScope {ctx ctx' : EventContext} {call : ScopeCall}
    (h : ctx.updateDataScope call = some ctx') :
    ctx'.mValueResults = true ∧ ctx'.lastSnap = ctx.lastSnap := by
  rcases Option.bind_eq_some_iff.mp h with ⟨r, -, h⟩
  dsimp only at h
  split at h
  · rcases Option.bind_eq_some_iff.mp h with ⟨calls, -, h⟩
    rcases Option.map_eq_some_iff.mp h with ⟨withPerf, -, rfl⟩
    exact ⟨rfl, rfl⟩
  · cases h
    exact ⟨rfl, rfl⟩

/-- Any number of calls. -/
theorem grew_run {ctx ctx' : EventContext} {calls : List ScopeCall}
    (h : run updateDataScope ctx calls = some ctx') : Grew calls ctx ctx' := by
  induction calls generalizing ctx with
  | nil =>
    cases h
    exact Grew.refl _
  | cons call calls ih =>
    rcases run_cons_eq_some.mp h with ⟨next, hnext, hrest⟩
    exact (grew_updateDataScope hnext).trans (ih hrest)

/-! ## Accesses in range -/

/-- No vector is longer than it can grow. -/
structure Sized (ctx : EventContext) : Prop where
  counters : ∀ c ∈ ctx.mCounters, c.scopeValues.length ≤ 65534
  scopeNumCalls : ctx.scopeNumCalls.length ≤ 65534
  scopeNumWithPerf : ctx.scopeNumWithPerf.length ≤ 65534

theorem scopeSize_le (i : Nat) : scopeSize i ≤ 65534 := Nat.min_le_right _ _

/-- The index of a call is in range after the vector has grown, unless it is one of the last two. -/
theorem modifyGrown_scopeSize_isSome {α : Type} {a : α} {f : α → α} {l : List α} {i : Nat}
    (hl : l.length ≤ 65534) : (modifyGrown scopeSize a i f l).isSome ↔ i < 65534 := by
  rw [modifyGrown_isSome, scopeSize]
  omega

/-- When the loop over the counters stays in range. -/
theorem updateCounters_isSome {call : ScopeCall} {counters : List Counter}
    (hsized : ∀ c ∈ counters, c.scopeValues.length ≤ 65534) :
    (call.updateCounters counters).isSome ↔
      counters = [] ∨ call.funcId.toNat < 65534 ∧ counters.length ≤ 8 := by
  constructor
  · intro h
    rcases Option.isSome_iff_exists.mp h with ⟨r, hr⟩
    cases counters with
    | nil => exact Or.inl rfl
    | cons c cs =>
      right
      rcases ScopeCall.getElem?_updateCounters hr List.getElem?_cons_zero with ⟨c', -, hadd⟩
      have hsome : (c.addScope call.funcId (call.diff 0)).isSome := by rw [hadd]; rfl
      rw [Counter.addScope, Option.isSome_map,
        modifyGrown_scopeSize_isSome (hsized c List.mem_cons_self)] at hsome
      have hlast : (c :: cs)[cs.length]? = some (c :: cs)[cs.length] :=
        List.getElem?_eq_getElem _
      have hindex := mapM_zipIdx_isSome.mp h cs.length _ hlast
      rcases Option.isSome_iff_exists.mp hindex with ⟨e, he⟩
      rcases Option.bind_eq_some_iff.mp he with ⟨diff, hdiff, -⟩
      have hindex : (call.diff? cs.length).isSome := by rw [hdiff]; rfl
      rw [ScopeCall.diff?_isSome] at hindex
      exact ⟨hsome, hindex⟩
  · intro h
    apply mapM_zipIdx_isSome.mpr
    intro i c hc
    have hmem : c ∈ counters := List.mem_of_getElem? hc
    have hfits := h.resolve_left (List.ne_nil_of_mem hmem)
    have hindex : i < 8 := Nat.lt_of_lt_of_le (List.getElem?_eq_some_iff.mp hc).1 hfits.2
    rcases Option.isSome_iff_exists.mp ((@ScopeCall.diff?_isSome call i).mpr hindex)
      with ⟨diff, hdiff⟩
    rw [hdiff, Option.bind_some, Option.isSome_map, Counter.addScope, Option.isSome_map,
      modifyGrown_scopeSize_isSome (hsized c hmem)]
    exact hfits.1

/-- When `update_data_scope` stays in range. -/
theorem updateDataScope_isSome {ctx : EventContext} (hctx : ctx.Sized) {call : ScopeCall} :
    (ctx.updateDataScope call).isSome ↔
      ctx.mCounters = [] ∨ call.funcId.toNat < 65534 ∧ ctx.mCounters.length ≤ 8 := by
  rw [← updateCounters_isSome hctx.counters]
  cases hr : call.updateCounters ctx.mCounters with
  | none => simp [updateDataScope, hr]
  | some r =>
    rw [updateDataScope, hr, Option.bind_some]
    dsimp only
    refine iff_of_true ?_ rfl
    split
    · rename_i hpos
      rw [ScopeCall.sum_updateCounters hr] at hpos
      have hne : ctx.mCounters ≠ [] := by
        intro hnil
        rw [hnil] at hpos
        exact UInt64.lt_irrefl 0 hpos
      have hfits := ((updateCounters_isSome hctx.counters).mp (by rw [hr]; rfl)).resolve_left hne
      rcases Option.isSome_iff_exists.mp ((modifyGrown_scopeSize_isSome (a := (0 : Int32))
        (f := (· + 1)) hctx.scopeNumCalls).mpr hfits.1) with ⟨calls, hcalls⟩
      rcases Option.isSome_iff_exists.mp ((modifyGrown_scopeSize_isSome (a := (0 : Int32))
        (f := (· + 1)) hctx.scopeNumWithPerf).mpr hfits.1) with ⟨withPerf, hwithPerf⟩
      rw [countCall, hcalls, Option.bind_some, countCall, hwithPerf]
      rfl
    · rfl

/-- `update_data_scope` keeps the vectors below that length. -/
theorem sized_updateDataScope {ctx ctx' : EventContext} (hctx : ctx.Sized) {call : ScopeCall}
    (h : ctx.updateDataScope call = some ctx') : ctx'.Sized := by
  rcases Option.bind_eq_some_iff.mp h with ⟨r, hr, h⟩
  have hcounters : ∀ c' ∈ r.map Prod.fst, c'.scopeValues.length ≤ 65534 := by
    intro c' hc'
    rcases List.mem_iff_getElem?.mp hc' with ⟨i, hi⟩
    have hlt : i < ctx.mCounters.length := by
      rw [← ScopeCall.length_updateCounters hr, ← List.length_map (f := Prod.fst)]
      exact (List.getElem?_eq_some_iff.mp hi).1
    rcases ScopeCall.getElem?_updateCounters hr (List.getElem?_eq_getElem hlt) with ⟨d, hd, hadd⟩
    rw [List.getElem?_map, hd, Option.map_some] at hi
    cases hi
    rcases Option.map_eq_some_iff.mp hadd with ⟨values, hvalues, rfl⟩
    exact length_modifyGrown_le scopeSize_le (hctx.counters _ (List.getElem_mem hlt)) hvalues
  dsimp only at h
  split at h
  · rcases Option.bind_eq_some_iff.mp h with ⟨calls, hcalls, h⟩
    rcases Option.map_eq_some_iff.mp h with ⟨withPerf, hwithPerf, rfl⟩
    exact ⟨hcounters, length_modifyGrown_le scopeSize_le hctx.scopeNumCalls hcalls,
      length_modifyGrown_le scopeSize_le hctx.scopeNumWithPerf hwithPerf⟩
  · cases h
    exact ⟨hcounters, hctx.scopeNumCalls, hctx.scopeNumWithPerf⟩

end EventContext

end LibCollector.Perf
