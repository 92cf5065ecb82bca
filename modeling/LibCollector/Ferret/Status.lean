import LibCollector.Ferret.Calls
import Mathlib.Logic.Function.Basic
import Mathlib.Tactic.Common

/-!
# The statuses that a run reports to its watcher

`notify` writes a status to the descriptor of a run when it differs from the last
one that any run of the process has reported, since `lastStatus` is a static of
the function. Two questions follow: what one run writes when nothing else of the
process notifies (`protocol_iff_stepsMeet`), and what several runs of one
process write (`Runs.ownStatuses_iff_stepsMeet`).
-/

namespace LibCollector.Ferret

open LibCollector.Misc

/-- A run of a collector: the statuses it has handed to `notify`, and what its status descriptor
    has received. -/
structure StatusRun where
  collector : FerretCollector
  reported : List Int
  written : List Int
  deriving DecidableEq

namespace StatusRun

/-- The run that `start()` begins. -/
def new (c : FerretCollector) : StatusRun := ⟨c, [], []⟩

/-- A `collect()` call of the run. -/
def collect (env : Proc) (last : Int) (r : StatusRun) : Option (Int × StatusRun) :=
  (r.collector.collect env last).map fun out =>
    (out.lastStatus, ⟨out.collector, r.reported ++ out.statuses, r.written ++ out.written⟩)

/-- What a call adds to the run. -/
theorem collect_eq_some {env : Proc} {last : Int} {r : StatusRun} {s : Int × StatusRun}
    (h : r.collect env last = some s) :
    ∃ statuses, statuses.head? = r.collector.firstStatus env ∧
      s.1 = (notifyAll r.collector.mStatusFd statuses last).1 ∧
      s.2.written = r.written ++ (notifyAll r.collector.mStatusFd statuses last).2 ∧
      s.2.reported = r.reported ++ statuses ∧
      s.2.collector.mStatusFd = r.collector.mStatusFd ∧
      ((s.2.collector.mWatchList ≠ [] ∧ r.collector.mWatchList ≠ [] ∧
          (statuses = [] ∨ statuses = [-1])) ∨
        (s.2.collector.mWatchList = [] ∧ (statuses = [1] ∨ statuses = [1, 0]))) := by
  obtain ⟨out, hout, rfl⟩ := Option.map_eq_some_iff.mp h
  obtain ⟨hnotify, hfirst, hkind⟩ := FerretCollector.collect_statuses hout
  have hfd := (FerretCollector.collect_sameConfig hout).mStatusFd
  rw [Prod.ext_iff] at hnotify
  exact ⟨out.statuses, hfirst, hnotify.1, congrArg (r.written ++ ·) hnotify.2, rfl, hfd, hkind⟩

end StatusRun

/-! ## One run -/

/-- A `collect()` call of the only run that notifies; the state is `lastStatus` and the run. -/
def watch (s : Int × StatusRun) (env : Proc) : Option (Int × StatusRun) := s.2.collect env s.1

/-- What a watcher expects to read from its end of the status descriptor. -/
def WatcherProtocol (written : List Int) : Prop := written <+: [1, 0] ∨ written <+: [-1, 1, 0]

instance (written : List Int) : Decidable (WatcherProtocol written) :=
  inferInstanceAs (Decidable (_ ∨ _))

theorem WatcherProtocol.of_prefix {w w' : List Int} (h : WatcherProtocol w') (hw : w <+: w') :
    WatcherProtocol w :=
  h.imp hw.trans hw.trans

/-- Nothing can follow a 0. -/
theorem not_watcherProtocol_append {w : List Int} (hlast : w.getLast? = some 0) (a : Int) :
    ¬WatcherProtocol (w ++ [a]) := by
  obtain ⟨v, rfl⟩ := List.getLast?_eq_some_iff.mp hlast
  have hshort : ∀ (v : List Int) (x : Int), x ≠ 0 → ¬(v ++ [0]) ++ [a] <+: [x, 0] := by
    rintro v x hx ⟨t, ht⟩
    cases v with
    | nil => simp [Ne.symm hx] at ht
    | cons b v => cases v <;> simp at ht
  have hlong : ¬(v ++ [0]) ++ [a] <+: [-1, 1, 0] := by
    rintro ⟨t, ht⟩
    cases v with
    | nil => simp at ht
    | cons b v =>
      simp only [List.cons_append, List.cons.injEq] at ht
      have htail : (v ++ [0]) ++ [a] <+: [1, 0] := ⟨t, ht.2⟩
      exact hshort v 1 (by decide) htail
  rintro (h | h)
  · exact hshort v 1 (by decide) h
  · exact hlong h

/-- Before a call: a status 0 that is remembered was not written by this run, and a status 1 that
    is remembered was. -/
def MemoryFits (s : Int × StatusRun) (_ : Proc) : Prop :=
  (s.1 = 0 → s.2.written = []) ∧ (s.1 = 1 → s.2.written ≠ [])

/-- What `lastStatus` and the written statuses are in a run whose calls all meet `MemoryFits`. -/
structure InProtocol (s : Int × StatusRun) : Prop where
  written : s.2.written ∈ [[], [-1], [1], [-1, 1], [1, 0], [-1, 1, 0]]
  memory : ∀ status ∈ s.2.written.getLast?, s.1 = status
  watching : s.2.collector.mWatchList ≠ [] → s.2.written = [] ∨ s.2.written = [-1]

theorem inProtocol_new (last : Int) (c : FerretCollector) :
    InProtocol (last, StatusRun.new c) :=
  ⟨List.mem_cons_self, by simp [StatusRun.new], fun _ => Or.inl rfl⟩

theorem inProtocol_step {s t : Int × StatusRun} {env : Proc} (inv : InProtocol s)
    (hmem : MemoryFits s env) (h : watch s env = some t) : InProtocol t := by
  obtain ⟨last, r⟩ := s
  obtain ⟨last', r'⟩ := t
  obtain ⟨statuses, -, hlast, hwritten, -, -, hkind⟩ := StatusRun.collect_eq_some h
  obtain ⟨hw, hmemory, hwatching⟩ := inv
  obtain ⟨hzero, hone⟩ := hmem
  dsimp only at *
  by_cases hfd : r.collector.mStatusFd < 0
  · rw [notifyAll_of_neg hfd] at hlast hwritten
    rw [List.append_nil] at hwritten
    refine ⟨by rwa [hwritten], by rwa [hwritten, hlast], fun hwatch => ?_⟩
    rcases hkind with ⟨-, hwatch', -⟩ | ⟨hnil, -⟩
    · rw [hwritten]
      exact hwatching hwatch'
    · exact absurd hnil hwatch
  · rw [notifyAll_of_nonneg (not_lt.mp hfd)] at hlast hwritten
    rcases hkind with ⟨-, hwatch, rfl | rfl⟩ | ⟨hnil, hkind⟩
    · -- nothing is reported
      simp only [List.getLast?_nil, Option.getD_none, withoutRepeats_nil, List.append_nil]
        at hlast hwritten
      exact ⟨by rwa [hwritten], by rwa [hwritten, hlast], fun _ => hwritten ▸ hwatching hwatch⟩
    · -- the timeout
      simp only [List.getLast?_singleton, Option.getD_some] at hlast
      rcases hwatching hwatch with hold | hold
      · by_cases hlast0 : last = -1 <;>
          simp [hold, withoutRepeats, hlast0] at hwritten <;>
          exact ⟨by simp [hwritten], by simp [hwritten, hlast], fun _ => by simp [hwritten]⟩
      · have hlast0 : last = -1 := hmemory (-1) (by simp [hold])
        simp [hold, withoutRepeats, hlast0] at hwritten
        exact ⟨by simp [hwritten], by simp [hwritten, hlast], fun _ => by simp [hwritten]⟩
    · -- a sample, with or without an exit
      have hno0 : ∀ v, v.getLast? = some 0 → r.written ≠ v := by
        intro v hv heq
        have hlast0 : last = 0 := hmemory 0 (by rw [heq, hv]; exact rfl)
        rw [hzero hlast0] at heq
        rw [← heq] at hv
        cases hv
      simp only [List.mem_cons, List.not_mem_nil, or_false] at hw
      have hbefore : (r.written = [] ∧ last ≠ 1) ∨ (r.written = [-1] ∧ last = -1) ∨
          (r.written = [1] ∧ last = 1) ∨ (r.written = [-1, 1] ∧ last = 1) := by
        rcases hw with hw | hw | hw | hw | hw | hw
        · exact Or.inl ⟨hw, fun h1 => hone h1 hw⟩
        · exact Or.inr (Or.inl ⟨hw, hmemory _ (by simp [hw])⟩)
        · exact Or.inr (Or.inr (Or.inl ⟨hw, hmemory _ (by simp [hw])⟩))
        · exact Or.inr (Or.inr (Or.inr ⟨hw, hmemory _ (by simp [hw])⟩))
        · exact absurd hw (hno0 _ rfl)
        · exact absurd hw (hno0 _ rfl)
      have hafter : r'.written ∈ [[1], [-1, 1], [1, 0], [-1, 1, 0]] ∧
          ∀ status ∈ r'.written.getLast?, last' = status := by
        rcases hkind with rfl | rfl <;>
          rcases hbefore with ⟨hold, hl⟩ | ⟨hold, hl⟩ | ⟨hold, hl⟩ | ⟨hold, hl⟩ <;>
          simp [hold, hl, withoutRepeats] at hwritten hlast <;>
          simp [hwritten, hlast]
      refine ⟨?_, hafter.2, fun hwatch => absurd hnil hwatch⟩
      simp only [List.mem_cons, List.not_mem_nil, or_false] at hafter ⊢
      exact Or.inr (Or.inr (hafter.1.imp_right (Or.imp_right (Or.imp_right id))))

/-- A run whose calls all meet `MemoryFits` keeps the protocol of its watcher, whatever an earlier
    run has left in `lastStatus`. -/
theorem protocol_of_stepsMeet {s t : Int × StatusRun} {envs : List Proc} (inv : InProtocol s)
    (hmeet : StepsMeet watch MemoryFits s envs) (h : run watch s envs = some t) :
    WatcherProtocol t.2.written := by
  have inv' : InProtocol t := by
    induction envs generalizing s with
    | nil =>
      cases h
      exact inv
    | cons env envs ih =>
      obtain ⟨s', hs', hrest⟩ := run_cons_eq_some.mp h
      exact ih (inProtocol_step inv hmeet.1 hs') (hmeet.2 s' hs') hrest
  have hmem := inv'.written
  simp only [List.mem_cons, List.not_mem_nil, or_false] at hmem
  rcases hmem with hw | hw | hw | hw | hw | hw <;> rw [hw] <;> decide

/-- What holds at every call, with `start` the value of `lastStatus` when the run began. -/
structure Remembers (start : Int) (s : Int × StatusRun) : Prop where
  unwritten : s.2.written = [] → s.1 = start
  memory : ∀ status ∈ s.2.written.getLast?, s.1 = status
  valid : s.2.written ≠ [] → 0 ≤ s.2.collector.mStatusFd
  watching : s.2.collector.mWatchList ≠ [] → 0 ∉ s.2.written

theorem remembers_step {start : Int} {s t : Int × StatusRun} {env : Proc}
    (inv : Remembers start s) (h : watch s env = some t) : Remembers start t := by
  obtain ⟨statuses, -, hlast, hwritten, -, hstatusFd, hkind⟩ := StatusRun.collect_eq_some h
  obtain ⟨hunwritten, hmemory, hvalid, hwatching⟩ := inv
  by_cases hfd : s.2.collector.mStatusFd < 0
  · rw [notifyAll_of_neg hfd] at hlast hwritten
    rw [List.append_nil] at hwritten
    refine ⟨by rwa [hwritten, hlast], by rwa [hwritten, hlast], by rwa [hwritten, hstatusFd], ?_⟩
    intro hwatch
    rcases hkind with ⟨-, hwatch', -⟩ | ⟨hnil, -⟩
    · rw [hwritten]
      exact hwatching hwatch'
    · exact absurd hnil hwatch
  · rw [notifyAll_of_nonneg (not_lt.mp hfd)] at hlast hwritten
    dsimp only at hlast hwritten
    have hlast' : (withoutRepeats (some s.1) statuses).getLast?.or (some s.1) = some t.1 := by
      rw [getLast?_withoutRepeats, hlast]
      cases statuses.getLast? <;> rfl
    refine ⟨?_, ?_, fun _ => hstatusFd ▸ not_lt.mp hfd, ?_⟩
    · intro hnil
      rw [hwritten, List.append_eq_nil_iff] at hnil
      rw [hnil.2] at hlast'
      rw [← hunwritten hnil.1]
      exact (Option.some.inj hlast').symm
    · intro status hstatus
      rw [hwritten, List.getLast?_append] at hstatus
      cases hnew : (withoutRepeats (some s.1) statuses).getLast? with
      | none =>
        rw [hnew] at hlast' hstatus
        rw [← hmemory status hstatus]
        exact (Option.some.inj hlast').symm
      | some new =>
        rw [hnew] at hlast' hstatus
        exact (Option.some.inj hlast').symm.trans (Option.some.inj hstatus)
    · intro hwatch
      rcases hkind with ⟨-, hwatch', hstatuses⟩ | ⟨hnil, -⟩
      · rw [hwritten, List.mem_append, not_or]
        refine ⟨hwatching hwatch', fun hmem => ?_⟩
        have hmem' := (withoutRepeats_sublist _ _).subset hmem
        rcases hstatuses with rfl | rfl <;> simp at hmem'
      · exact absurd hnil hwatch

theorem watch_written_le {s t : Int × StatusRun} {env : Proc} (h : watch s env = some t) :
    s.2.written <+: t.2.written := by
  obtain ⟨statuses, -, -, hwritten, -⟩ := StatusRun.collect_eq_some h
  exact ⟨_, hwritten.symm⟩

theorem run_watch_written_le {s t : Int × StatusRun} {envs : List Proc}
    (h : run watch s envs = some t) : s.2.written <+: t.2.written := by
  have hle : ∀ (a : Int × StatusRun) (env : Proc) (b : Int × StatusRun),
      s.2.written <+: a.2.written → watch a env = some b → s.2.written <+: b.2.written :=
    fun _ _ _ hs h => hs.trans (watch_written_le h)
  exact run_invariant hle List.prefix_rfl h

/-- A call after the 0 of the run writes a 1. -/
theorem written_after_zero {start : Int} {s t : Int × StatusRun} {env : Proc}
    (inv : Remembers start s) (hzero : s.2.written.getLast? = some 0)
    (h : watch s env = some t) : s.2.written ++ [1] <+: t.2.written := by
  obtain ⟨statuses, -, -, hwritten, -, -, hkind⟩ := StatusRun.collect_eq_some h
  have hne : s.2.written ≠ [] := by
    intro hnil
    rw [hnil] at hzero
    cases hzero
  have hwatch : s.2.collector.mWatchList = [] := by
    by_contra hwatch
    exact inv.watching hwatch (List.mem_of_getLast? hzero)
  rw [notifyAll_of_nonneg (inv.valid hne), inv.memory 0 hzero] at hwritten
  rcases hkind with ⟨-, hwatch', -⟩ | ⟨-, rfl | rfl⟩
  · exact absurd hwatch hwatch'
  · rw [hwritten]
    exact List.prefix_rfl
  · rw [hwritten]
    exact ⟨[0], by simp [withoutRepeats]⟩

/-- The statuses that a run writes follow the protocol of its watcher when no call begins with a
    0 of this run as the last status; and, unless the run starts with `lastStatus` at 1, only
    then. The converse leaves out the 1 of an earlier run: with it no 1 is written until a timeout
    has been, and a run that starts so keeps to the protocol as long as no call finds the process
    gone, which is not decided by the state before its calls. -/
theorem protocol_iff_stepsMeet (c : FerretCollector) (start : Int) (envs : List Proc)
    (t : Int × StatusRun) (h : run watch (start, StatusRun.new c) envs = some t) :
    (StepsMeet watch MemoryFits (start, StatusRun.new c) envs → WatcherProtocol t.2.written) ∧
    (start ≠ 1 → WatcherProtocol t.2.written →
      StepsMeet watch MemoryFits (start, StatusRun.new c) envs) := by
  refine ⟨fun hmeet => protocol_of_stepsMeet (inProtocol_new start c) hmeet h, ?_⟩
  intro hstart hprotocol
  rw [stepsMeet_iff]
  intro pre env post hsplit s hs
  rw [hsplit, run_append_eq_some] at h
  obtain ⟨s', hs', hpost⟩ := h
  obtain rfl := Option.some.inj (hs.symm.trans hs')
  obtain ⟨t', ht', hrest⟩ := run_cons_eq_some.mp hpost
  have inv : Remembers start s :=
    run_invariant (fun _ _ _ => remembers_step) ⟨fun _ => rfl, by simp [StatusRun.new],
      by simp [StatusRun.new], by simp [StatusRun.new]⟩ hs
  refine ⟨fun hzero => ?_, fun hone hnil => hstart (inv.unwritten hnil ▸ hone)⟩
  by_contra hne
  -- the last status is one that this run has written
  have hlast : s.2.written.getLast? = some 0 := by
    have hstatus := List.getLast?_eq_some_getLast hne
    rw [hstatus, ← inv.memory _ hstatus, hzero]
  have hle := (written_after_zero inv hlast ht').trans (run_watch_written_le hrest)
  exact not_watcherProtocol_append hlast 1 (hprotocol.of_prefix hle)

/-- The configuration of a collector that looks for the process `app`. -/
def appConfig : FerretConfig where
  clockTicks := 100
  pid := "10".toList
  cpus := [0]
  cpusInt := cpusInt_zero
  processNames := ["app".toList]
  statusFd := 3

/-- The collector of `appConfig` after `start()`. -/
def appCollector : FerretCollector :=
  { FerretCollector.construct appConfig with
    mInitSuccess := true
    mCollecting := true
    mWatchList := ["app".toList] }

/-- `app` runs as process 42 with one thread. -/
def appRuns (now : Int) : Proc :=
  { Proc.bare now with
    scan := fun _ => some [⟨"42".toList, ⟨5, false⟩, "app".toList⟩]
    tasks := fun _ dir => if dir = taskDir "42".toList then some ["42".toList] else none
    openStat := fun _ _ _ => ⟨6, false⟩
    read := fun fd => if fd = 6 then "42 (app) R".toList else [] }

/-- `app` is found and exits before the second call, the last one. -/
theorem protocol_app_exits :
    ∃ t, run watch (-99, StatusRun.new appCollector) [appRuns 1, Proc.bare 2] = some t ∧
      (StepsMeet watch MemoryFits (-99, StatusRun.new appCollector) [appRuns 1, Proc.bare 2] →
        WatcherProtocol t.2.written) ∧
      ((-99 : Int) ≠ 1 → WatcherProtocol t.2.written →
        StepsMeet watch MemoryFits (-99, StatusRun.new appCollector) [appRuns 1, Proc.bare 2]) := by
  have hrun : (run watch (-99, StatusRun.new appCollector) [appRuns 1, Proc.bare 2]).isSome := by
    decide
  obtain ⟨t, ht⟩ := Option.isSome_iff_exists.mp hrun
  exact ⟨t, ht, protocol_iff_stepsMeet appCollector (-99) [appRuns 1, Proc.bare 2] t ht⟩

/-- When a third call follows, a 1 is written after the 0. -/
theorem not_protocol_app_exits :
    ¬∀ t, run watch (-99, StatusRun.new appCollector) [appRuns 1, Proc.bare 2, Proc.bare 3] =
        some t →
      WatcherProtocol t.2.written := by
  have hrun : (run watch (-99, StatusRun.new appCollector)
      [appRuns 1, Proc.bare 2, Proc.bare 3]).map (fun t => t.2.written) = some [1, 0, 1, 0] := by
    decide
  intro h
  obtain ⟨t, ht, hwritten⟩ := Option.map_eq_some_iff.mp hrun
  have hprotocol := h t ht
  rw [hwritten] at hprotocol
  exact absurd hprotocol (by decide)

/-! ## Several runs of one process -/

/-- The runs of a process, which share `lastStatus`. Runs of one collector that follow one another
    are different runs; so are those of different collectors, whose calls may alternate. -/
structure Runs (ι : Type) where
  last : Int
  runs : ι → StatusRun

namespace Runs

variable {ι : Type} [DecidableEq ι]

/-- A `collect()` call of one of the runs. -/
def step (s : Runs ι) (call : ι × Proc) : Option (Runs ι) :=
  ((s.runs call.1).collect call.2 s.last).map fun r =>
    ⟨r.1, Function.update s.runs call.1 r.2⟩

/-- Runs before their first call, in a process whose last status is `last`. -/
def new (last : Int) (collectors : ι → FerretCollector) : Runs ι :=
  ⟨last, fun i => StatusRun.new (collectors i)⟩

/-- Each run has written its own statuses without the consecutive repetitions. -/
def OwnStatuses (s : Runs ι) : Prop :=
  ∀ i, (s.runs i).written = (s.runs i).reported.destutter (· ≠ ·)

/-- Before a call: `lastStatus` is the status that the call reports first exactly when the last
    status of the same run is. -/
def Undisturbed (s : Runs ι) (call : ι × Proc) : Prop :=
  ∀ status, (s.runs call.1).collector.firstStatus call.2 = some status →
    (s.last = status ↔ (s.runs call.1).reported.getLast? = some status)

/-- The statuses of one call, in terms of the run that makes it. -/
theorem step_eq_some {s t : Runs ι} {call : ι × Proc} (h : s.step call = some t)
    (hfd : 0 ≤ (s.runs call.1).collector.mStatusFd) :
    ∃ statuses, statuses.head? = (s.runs call.1).collector.firstStatus call.2 ∧
      (t.runs call.1).reported = (s.runs call.1).reported ++ statuses ∧
      (t.runs call.1).written =
        (s.runs call.1).written ++ withoutRepeats (some s.last) statuses ∧
      (t.runs call.1).collector.mStatusFd = (s.runs call.1).collector.mStatusFd ∧
      ∀ i, i ≠ call.1 → t.runs i = s.runs i := by
  obtain ⟨r, hr, rfl⟩ := Option.map_eq_some_iff.mp h
  obtain ⟨statuses, hfirst, -, hwritten, hreported, hstatusFd, -⟩ := StatusRun.collect_eq_some hr
  rw [notifyAll_of_nonneg hfd] at hwritten
  refine ⟨statuses, hfirst, ?_, ?_, ?_, ?_⟩
  · simpa using hreported
  · simpa using hwritten
  · simpa using hstatusFd
  · intro i hi
    exact Function.update_of_ne hi _ _

theorem step_valid {s t : Runs ι} {call : ι × Proc}
    (hfd : ∀ i, 0 ≤ (s.runs i).collector.mStatusFd) (h : s.step call = some t) :
    ∀ i, 0 ≤ (t.runs i).collector.mStatusFd := by
  obtain ⟨statuses, -, -, -, hstatusFd, hother⟩ := step_eq_some h (hfd call.1)
  intro i
  by_cases hi : i = call.1
  · rw [hi, hstatusFd]
    exact hfd call.1
  · rw [hother i hi]
    exact hfd i

/-- A call keeps `OwnStatuses` exactly when nothing has disturbed the memory of its run. -/
theorem ownStatuses_step {s t : Runs ι} {call : ι × Proc} (hown : s.OwnStatuses)
    (hfd : 0 ≤ (s.runs call.1).collector.mStatusFd) (h : s.step call = some t) :
    t.OwnStatuses ↔ s.Undisturbed call := by
  obtain ⟨statuses, hfirst, hreported, hwritten, -, hother⟩ := step_eq_some h hfd
  have hsame : t.OwnStatuses ↔
      withoutRepeats (some s.last) statuses =
        withoutRepeats (s.runs call.1).reported.getLast? statuses := by
    have hcall : (t.runs call.1).written = (t.runs call.1).reported.destutter (· ≠ ·) ↔
        withoutRepeats (some s.last) statuses =
          withoutRepeats (s.runs call.1).reported.getLast? statuses := by
      rw [hwritten, hreported, hown call.1, destutter_eq_withoutRepeats,
        destutter_eq_withoutRepeats, withoutRepeats_append, Option.or_none,
        List.append_cancel_left_eq]
    rw [← hcall]
    refine ⟨fun h' => h' call.1, fun h' i => ?_⟩
    by_cases hi : i = call.1
    · rw [hi]
      exact h'
    · rw [hother i hi]
      exact hown i
  rw [hsame]
  cases statuses with
  | nil =>
    have hnone : (s.runs call.1).collector.firstStatus call.2 = none := hfirst.symm
    simp [Undisturbed, hnone]
  | cons status statuses =>
    have hsome : (s.runs call.1).collector.firstStatus call.2 = some status := hfirst.symm
    rw [withoutRepeats_eq_iff]
    simp [Undisturbed, hsome]

omit [DecidableEq ι] in
theorem ownStatuses_new (last : Int) (collectors : ι → FerretCollector) :
    (new last collectors).OwnStatuses := fun _ => rfl

/-- However the calls of several runs alternate, each run has at every moment written its own
    statuses without repetitions, if and only if `lastStatus` is, at each call, the status that
    the call reports exactly when the run itself has reported it last. -/
theorem ownStatuses_iff_stepsMeet (last : Int) (collectors : ι → FerretCollector)
    (hfd : ∀ i, 0 ≤ (collectors i).mStatusFd) (calls : List (ι × Proc))
    (h : (run step (new last collectors) calls).isSome) :
    (∀ before t, before <+: calls → run step (new last collectors) before = some t →
      t.OwnStatuses) ↔
    StepsMeet step Undisturbed (new last collectors) calls := by
  have hvalid : ∀ before t, run step (new last collectors) before = some t →
      ∀ i, 0 ≤ (t.runs i).collector.mStatusFd := fun before t ht =>
    run_invariant (fun s call t hs => step_valid hs) hfd ht
  obtain ⟨u, hu⟩ := Option.isSome_iff_exists.mp h
  rw [stepsMeet_iff]
  constructor
  · intro hall before call after hsplit s hs
    subst hsplit
    obtain ⟨s', hs', hrest⟩ := run_append_eq_some.mp hu
    obtain rfl := Option.some.inj (hs.symm.trans hs')
    obtain ⟨t, ht, -⟩ := run_cons_eq_some.mp hrest
    have hown := hall before s (List.prefix_append _ _) hs
    have hown' := hall (before ++ [call]) t ⟨after, by simp⟩
      (run_concat_eq_some.mpr ⟨s, hs, ht⟩)
    exact (ownStatuses_step hown (hvalid before s hs call.1) ht).mp hown'
  · intro hmeet before
    induction before using List.reverseRecOn with
    | nil =>
      intro t _ ht
      cases ht
      exact ownStatuses_new last collectors
    | append_singleton before call ih =>
      rintro t ⟨after, rfl⟩ ht
      obtain ⟨s, hs, hstep⟩ := run_concat_eq_some.mp ht
      have hown := ih s ⟨[call] ++ after, by simp⟩ hs
      have hmeet' := hmeet before call after (by simp) s hs
      exact (ownStatuses_step hown (hvalid before s hs call.1) hstep).mpr hmeet'

/-- Only one of two collectors for `app` is called, while `app` starts and exits. -/
theorem ownStatuses_two_collectors :
    0 ≤ appCollector.mStatusFd ∧
    ((∀ before t, before <+: [(false, appRuns 1), (false, Proc.bare 2)] →
        run step (new (-99) fun _ : Bool => appCollector) before = some t → t.OwnStatuses) ↔
      StepsMeet step Undisturbed (new (-99) fun _ : Bool => appCollector)
        [(false, appRuns 1), (false, Proc.bare 2)]) :=
  have hfd : 0 ≤ appCollector.mStatusFd := by decide
  ⟨hfd, ownStatuses_iff_stepsMeet (-99) (fun _ => appCollector) (fun _ => hfd)
    [(false, appRuns 1), (false, Proc.bare 2)] (by decide)⟩

/-- Two collectors find `app` one after the other: the second does not write its 1. -/
theorem not_ownStatuses_two_collectors :
    ¬∀ t, run step (new (-99) fun _ : Bool => appCollector)
        [(false, appRuns 1), (true, appRuns 2)] = some t → t.OwnStatuses := by
  have hrun : (run step (new (-99) fun _ : Bool => appCollector)
      [(false, appRuns 1), (true, appRuns 2)]).map
        (fun t => ((t.runs true).reported, (t.runs true).written)) = some ([1], []) := by
    decide
  intro h
  obtain ⟨t, ht, hstatuses⟩ := Option.map_eq_some_iff.mp hrun
  obtain ⟨hreported, hwritten⟩ := Prod.mk.inj hstatuses
  have htrue := h t ht true
  rw [hreported, hwritten] at htrue
  exact absurd htrue (by decide)

end Runs

end LibCollector.Ferret
