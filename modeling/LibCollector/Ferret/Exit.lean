import LibCollector.Ferret.Threads
import LibCollector.Ferret.Status

/-!
# Noticing that the monitored processes have exited

`collect()` counts a process of `mPids` as gone when `mPidFdMap` maps it to a
negative descriptor. A process that was found by name but exited before its own
`stat` file was opened has no entry there, and is counted as running for ever:
`exitReported_iff` says that this is the only way to miss an exit.
-/

namespace LibCollector.Ferret

open LibCollector.Misc

/-- None of the processes that the collector monitors exists: their task directories and their
    `stat` files cannot be opened, and what is open of them does not read. -/
structure AllGone (env : Proc) (c : FerretCollector) : Prop where
  tasks : ∀ pid ∈ c.mPids, ∀ i, env.tasks i (taskDir pid) = none
  openStat : ∀ pid ∈ c.mPids, ∀ i dir, (env.openStat i dir pid).fd < 0
  read : ∀ pid ∈ c.mPids, ∀ fd, c.mPidFdMap.find? pid = some fd → 0 ≤ fd → env.read fd = []

/-- The call ends with no process left to monitor, and 0 is the last status. -/
def ExitReported (out : Outcome) : Prop := out.active = some 0 ∧ out.lastStatus = 0

instance (out : Outcome) : Decidable (ExitReported out) := inferInstanceAs (Decidable (_ ∧ _))

/-- Subtracting the processes counted as gone leaves nothing exactly when all of them are. -/
theorem activeCount_eq_zero_iff {pids : List Str} {m : OrdMap Str Int} :
    activeCount pids m = 0 ↔ ∀ pid ∈ pids, ∃ fd, m.find? pid = some fd ∧ fd < 0 := by
  have hle := List.countP_le_length (p := fun pid => (m.find? pid).any (· < 0)) (l := pids)
  have hall : pids.countP (fun pid => (m.find? pid).any (· < 0)) = pids.length ↔
      ∀ pid ∈ pids, (m.find? pid).any (· < 0) = true := List.countP_eq_length
  have hany : ∀ pid, (m.find? pid).any (· < 0) = true ↔ ∃ fd, m.find? pid = some fd ∧ fd < 0 := by
    intro pid
    cases m.find? pid <;> simp
  simp only [← hany, ← hall, activeCount]
  omega

/-- What the map holds of a process that is gone: an entry if it had one, marked as gone. -/
theorem find?_collectPerproc_of_gone {env : Proc} {c : FerretCollector} (hgone : AllGone env c)
    {opened : OrdMap Str Int × List OpenCall} {pids : List Str}
    (h : openThreads env (threadsOf env 0 pids) c.mPidFdMap = some opened) {pid : Str}
    (hpid : pid ∈ c.mPids) :
    (∃ fd, (collectPerproc env opened.1).1.find? pid = some fd ∧ fd < 0) ↔
      pid ∈ c.mPidFdMap.keys := by
  have hfirst : firstFd env (threadsOf env 0 pids) pid = none := by
    rw [Option.eq_none_iff_forall_ne_some]
    intro fd hfd
    obtain ⟨t, -, rfl, hstat⟩ := firstFd_eq_some hfd
    have hneg := hgone.openStat t.tid hpid t.enumeration t.dir
    simp only [statFd] at hstat
    rw [if_neg (fun hok => absurd hok.1 (not_le.mpr hneg))] at hstat
    cases hstat
  rw [collectPerproc, OrdMap.find?_mapVal, openThreads_find? h, hfirst, Option.or_none,
    OrdMap.mem_keys_iff]
  cases hm : c.mPidFdMap.find? pid with
  | none => simp
  | some fd =>
    refine ⟨fun _ => rfl, fun _ => ⟨perprocFd env fd, rfl, ?_⟩⟩
    unfold perprocFd
    by_cases hfd : fd < 0
    · rwa [if_pos hfd]
    · rw [if_neg hfd, if_pos (hgone.read pid hpid fd hm (not_lt.mp hfd))]
      decide

/-- A call that finds all monitored processes gone reports it if and only if each of them had been
    opened before. -/
theorem exitReported_iff {config : FerretConfig} {s : FerretCollector × Int}
    (hreach : Reachable config s) (hready : s.1.mInitSuccess = true ∧ s.1.mCollecting = true)
    (hwatch : s.1.mWatchList = []) (hpids : s.1.mPids ≠ []) {env : Proc}
    (henv : EnoughHandles env) (hgone : AllGone env s.1) :
    ∃ out, s.1.collect env s.2 = some out ∧
      (ExitReported out ↔ ∀ pid ∈ s.1.mPids, pid ∈ s.1.mPidFdMap.keys) := by
  obtain ⟨c, last⟩ := s
  dsimp only at hready hwatch hpids hgone ⊢
  have hinv := watches_of_reachable hreach
  have hfd : 0 ≤ c.mStatusFd := hinv.statusFd hready.1 (hinv.named (Or.inl hpids))
  obtain ⟨opened, hopened⟩ := Option.isSome_iff_exists.mp
    (openThreads_isSome henv (threadsOf env 0 (c.mPid :: c.mPids)) c.mPidFdMap)
  have hcollect : c.collect env last = some ((c.polled env [] []).sampled env last opened) := by
    simp only [FerretCollector.collect, hready.1, hready.2, Bool.true_eq_false, or_self, if_false,
      hwatch, pollWatchList_nil, Option.bind_some, ne_eq, not_true_eq_false,
      FerretCollector.sample, FerretCollector.polled_mPid, FerretCollector.polled_mPids,
      FerretCollector.polled_mPidFdMap, List.append_nil, enumerateAll_eq, hopened, Option.map_some]
  refine ⟨_, hcollect, ?_⟩
  have hactive : activeCount c.mPids (collectPerproc env opened.1).1 = 0 ↔
      ∀ pid ∈ c.mPids, pid ∈ c.mPidFdMap.keys := by
    rw [activeCount_eq_zero_iff]
    refine forall₂_congr fun pid hpid => ?_
    exact find?_collectPerproc_of_gone hgone hopened hpid
  rw [← hactive]
  simp only [ExitReported, FerretCollector.sampled, FerretCollector.polled_mPids, List.append_nil,
    FerretCollector.polled_mStatusFd, Option.some.injEq]
  constructor
  · exact And.left
  · intro hzero
    refine ⟨hzero, ?_⟩
    rw [if_pos hzero, notify_of_nonneg hfd]

/-- A `/proc` without processes has none of those that a collector monitors. -/
theorem allGone_bare (now : Int) (c : FerretCollector) : AllGone (Proc.bare now) c :=
  ⟨fun _ _ _ => rfl, fun _ _ _ _ => Int.negSucc_lt_zero 0, fun _ _ _ _ _ => rfl⟩

/-- The frequency files of all CPUs can be opened. -/
def cpusOnline : Proc := { Proc.bare 0 with openFreq := fun cpu => ⟨cpu + 10, false⟩ }

/-- `app` is found and its thread opened; then it exits. -/
theorem exitReported_app_exits :
    ∃ s, run step (FerretCollector.construct appConfig, -99)
        [.init cpusOnline, .start true, .collect (appRuns 1)] = some s ∧
      ∃ out, s.1.collect (Proc.bare 2) s.2 = some out ∧
        (ExitReported out ↔ ∀ pid ∈ s.1.mPids, pid ∈ s.1.mPidFdMap.keys) := by
  have hrun : (run step (FerretCollector.construct appConfig, -99)
      [.init cpusOnline, .start true, .collect (appRuns 1)]).map (fun s =>
        (s.1.mInitSuccess, s.1.mCollecting, s.1.mWatchList, s.1.mPids)) =
      some (true, true, [], ["42".toList]) := by decide
  obtain ⟨s, hs, hstate⟩ := Option.map_eq_some_iff.mp hrun
  simp only [Prod.mk.injEq] at hstate
  obtain ⟨hinit, hcollecting, hwatch, hpids⟩ := hstate
  exact ⟨s, hs, exitReported_iff ⟨-99, _, hs⟩ ⟨hinit, hcollecting⟩ hwatch
    (by rw [hpids]; exact List.cons_ne_nil _ _) (fun _ _ _ => rfl) (allGone_bare 2 s.1)⟩

/-- `app` is found by name and exits before its threads are listed. -/
def appDies (now : Int) : Proc :=
  { Proc.bare now with scan := fun _ => some [⟨"42".toList, ⟨5, false⟩, "app".toList⟩] }

/-- The exit of a process that was found but never opened is not reported. -/
theorem not_exitReported_app_dies :
    ¬∀ s, run step (FerretCollector.construct appConfig, -99)
        [.init cpusOnline, .start true, .collect (appDies 1)] = some s →
      s.1.mWatchList = [] → s.1.mPids ≠ [] → AllGone (Proc.bare 2) s.1 →
      ∀ out, s.1.collect (Proc.bare 2) s.2 = some out → ExitReported out := by
  have hrun : ((run step (FerretCollector.construct appConfig, -99)
      [.init cpusOnline, .start true, .collect (appDies 1)]).bind fun s =>
        (s.1.collect (Proc.bare 2) s.2).map fun out =>
          (s.1.mWatchList, s.1.mPids, out.active, out.lastStatus)) =
      some ([], ["42".toList], some 1, 1) := by decide
  intro h
  obtain ⟨s, hs, hout⟩ := Option.bind_eq_some_iff.mp hrun
  obtain ⟨out, hout, hstate⟩ := Option.map_eq_some_iff.mp hout
  simp only [Prod.mk.injEq] at hstate
  obtain ⟨hwatch, hpids, hactive, -⟩ := hstate
  have hpids' : s.1.mPids ≠ [] := by
    rw [hpids]
    exact List.cons_ne_nil _ _
  obtain ⟨hzero, -⟩ := h s hs hwatch hpids' (allGone_bare 2 s.1) out hout
  rw [hactive] at hzero
  cases hzero

end LibCollector.Ferret
