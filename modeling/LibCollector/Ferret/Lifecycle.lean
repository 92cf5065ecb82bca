import LibCollector.Ferret.Calls

/-!
# Runs of one ferret collector

The calls that a `Collection` makes on a `FerretCollector`, in any order, as a
machine over the collector and the static `lastStatus`, and what holds of the
collector in every state that the machine reaches from the constructor.
-/

namespace LibCollector.Ferret

open LibCollector.Misc

/-- A call on the collector, with the answers of the kernel during it. -/
inductive Op where
  | init (env : Proc)
  | deinit
  | start (traceOk : Bool)
  | collect (env : Proc)
  | stop

/-- One call on the collector; `none` is a failed assertion. -/
def step (s : FerretCollector × Int) : Op → Option (FerretCollector × Int)
  | .init env => (s.1.init env).map fun c => (c, s.2)
  | .deinit => some (s.1.deinit, s.2)
  | .start traceOk => some (s.1.start traceOk, s.2)
  | .collect env => (s.1.collect env s.2).map fun out => (out.collector, out.lastStatus)
  | .stop => some (s.1.stop, s.2)

/-- Where a `collect()` has a property if and only if it meets a condition, all of a run have it if
    and only if every step of the run meets the condition. -/
theorem collects_iff_stepsMeet {P : Proc → FerretCollector → Outcome → Prop}
    {C : FerretCollector × Int → Op → Prop}
    (hcollect : ∀ env s out, s.1.collect env s.2 = some out → (P env s.1 out ↔ C s (.collect env)))
    (hother : ∀ s op, (∀ env, op ≠ .collect env) → C s op) {s : FerretCollector × Int}
    {ops : List Op} (h : (run step s ops).isSome) :
    (∀ before env after, ops = before ++ .collect env :: after →
      ∀ t out, run step s before = some t → t.1.collect env t.2 = some out → P env t.1 out) ↔
    StepsMeet step C s ops := by
  rw [stepsMeet_iff]
  constructor
  · intro hall before op after hsplit t ht
    by_cases hop : ∃ env, op = .collect env
    · obtain ⟨env, rfl⟩ := hop
      obtain ⟨u, hu⟩ := Option.isSome_iff_exists.mp h
      rw [hsplit, run_append_eq_some] at hu
      obtain ⟨t', ht', hrest⟩ := hu
      obtain rfl := Option.some.inj (ht.symm.trans ht')
      obtain ⟨v, hv, -⟩ := run_cons_eq_some.mp hrest
      obtain ⟨out, hout, -⟩ := Option.map_eq_some_iff.mp hv
      exact (hcollect env t out hout).mp (hall before env after hsplit t out ht hout)
    · exact hother t op fun env heq => hop ⟨env, heq⟩
  · intro hmeet before env after hsplit t out ht hout
    exact (hcollect env t out hout).mpr (hmeet before (.collect env) after hsplit t ht)

/-- The collector `c` is reached by calls on a newly constructed one. -/
def Reachable (config : FerretConfig) (s : FerretCollector × Int) : Prop :=
  ∃ last ops, run step (FerretCollector.construct config, last) ops = some s

/-- Processes are only looked for by name, and then there is a status descriptor. -/
structure Watches (c : FerretCollector) : Prop where
  named : c.mPids ≠ [] ∨ c.mWatchList ≠ [] → c.mProcessNames ≠ []
  statusFd : c.mInitSuccess = true → c.mProcessNames ≠ [] → 0 ≤ c.mStatusFd

namespace FerretCollector

theorem watches_construct (config : FerretConfig) : Watches (construct config) := by
  refine ⟨?_, ?_⟩
  · rintro (h | h) <;> exact absurd rfl h
  · intro h
    cases h

theorem watches_init {env : Proc} {c c' : FerretCollector} (inv : Watches c)
    (h : c.init env = some c') : Watches c' := by
  unfold init at h
  split at h
  · cases h
    exact inv
  · rename_i hinit
    obtain ⟨freqs, -, h⟩ := Option.bind_eq_some_iff.mp h
    obtain ⟨fds, -, rfl⟩ := Option.map_eq_some_iff.mp h
    split
    · rename_i hok
      exact ⟨inv.named, fun _ => hok.2⟩
    · exact ⟨inv.named, fun h => absurd h hinit⟩

theorem watches_start {c : FerretCollector} (inv : Watches c) (traceOk : Bool) :
    Watches (c.start traceOk) := by
  unfold start
  split
  · exact inv
  · refine ⟨?_, inv.statusFd⟩
    rintro (h | h)
    · exact inv.named (Or.inl h)
    · exact h

theorem watches_collect {env : Proc} {last : Int} {c : FerretCollector} {out : Outcome}
    (inv : Watches c) (h : c.collect env last = some out) : Watches out.collector := by
  have hsame := collect_sameConfig h
  refine ⟨?_, ?_⟩
  · rw [hsame.mProcessNames]
    obtain ⟨-, -, left, found, hpoll, hout⟩ := collect_cases h
    have hgrow : (out.collector.mPids = c.mPids ++ found) ∧ out.collector.mWatchList = left := by
      rcases hout with ⟨-, rfl⟩ | ⟨rfl, opened, -, rfl⟩
      · unfold await
        split <;> exact ⟨rfl, rfl⟩
      · exact ⟨rfl, rfl⟩
    -- a call that has no names to look for finds nothing
    have hnone : c.mWatchList = [] → found = [] ∧ left = [] := by
      intro hnil
      rw [hnil, pollWatchList_nil] at hpoll
      obtain ⟨rfl, rfl⟩ := Prod.mk.inj (Option.some.inj hpoll)
      exact ⟨rfl, rfl⟩
    intro hsome
    apply inv.named
    by_cases hnil : c.mWatchList = []
    · obtain ⟨rfl, rfl⟩ := hnone hnil
      rw [hgrow.1, hgrow.2, List.append_nil] at hsome
      exact Or.inl (hsome.resolve_right fun h => h rfl)
    · exact Or.inr hnil
  · rw [hsame.mInitSuccess, hsame.mProcessNames, hsame.mStatusFd]
    exact inv.statusFd

end FerretCollector

theorem watches_step {s t : FerretCollector × Int} {op : Op} (inv : Watches s.1)
    (h : step s op = some t) : Watches t.1 := by
  cases op with
  | init env =>
    obtain ⟨c, hc, rfl⟩ := Option.map_eq_some_iff.mp h
    exact FerretCollector.watches_init inv hc
  | deinit =>
    cases h
    exact ⟨inv.named, fun h => absurd h Bool.false_ne_true⟩
  | start traceOk =>
    cases h
    exact FerretCollector.watches_start inv traceOk
  | collect env =>
    obtain ⟨out, hout, rfl⟩ := Option.map_eq_some_iff.mp h
    exact FerretCollector.watches_collect inv hout
  | stop =>
    cases h
    exact ⟨inv.named, inv.statusFd⟩

theorem watches_of_reachable {config : FerretConfig} {s : FerretCollector × Int}
    (h : Reachable config s) : Watches s.1 := by
  obtain ⟨last, ops, hrun⟩ := h
  have hstep : ∀ (s : FerretCollector × Int) (op : Op) (t : FerretCollector × Int),
      Watches s.1 → step s op = some t → Watches t.1 := fun _ _ _ => watches_step
  exact run_invariant hstep (FerretCollector.watches_construct config) hrun

end LibCollector.Ferret
