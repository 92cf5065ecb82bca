import LibCollector.Misc.Repeats
import LibCollector.Ferret.Collector

/-!
# What one call of the ferret collector does

The specification of `FerretCollector::collect` that the later modules use: the
two ways a call can go (`collect_cases`), which members it leaves alone
(`SameConfig`), which statuses it hands to `notify` (`firstStatus`), and that
`notify` lets through what differs from `lastStatus`.
-/

namespace LibCollector.Ferret

open LibCollector.Misc

/-! ## Polling -/

@[simp] theorem pollWatchList_nil (env : Proc) (i : Nat) : pollWatchList env i [] = some ([], []) :=
  rfl

/-- The names that are still awaited are among those that were. -/
theorem left_sublist {env : Proc} {i : Nat} {ws : List Str} {r : List Str × List Str}
    (h : pollWatchList env i ws = some r) : r.1.Sublist ws := by
  induction ws generalizing i r with
  | nil =>
    cases h
    exact List.Sublist.slnil
  | cons w ws ih =>
    obtain ⟨pid, -, h⟩ := Option.bind_eq_some_iff.mp h
    split at h
    · cases h
    · obtain ⟨rest, hrest, rfl⟩ := Option.map_eq_some_iff.mp h
      split
      · exact (ih hrest).cons w
      · exact (ih hrest).cons_cons w

/-! ## Notifying -/

/-- A valid descriptor gets the status if it differs from `lastStatus`. -/
theorem notify_of_nonneg {fd : Int} (hfd : 0 ≤ fd) (status last : Int) :
    notify fd status last = (status, withoutRepeats (some last) [status]) := by
  by_cases h : last = status <;> simp [notify, not_lt.mpr hfd, withoutRepeats, h]

theorem notify_of_neg {fd : Int} (hfd : fd < 0) (status last : Int) :
    notify fd status last = (last, []) := if_pos hfd

/-- The calls of `notify` for several statuses, one after the other. -/
def notifyAll (fd : Int) : List Int → Int → Int × List Int
  | [], last => (last, [])
  | status :: statuses, last =>
    let n := notify fd status last
    let rest := notifyAll fd statuses n.1
    (rest.1, n.2 ++ rest.2)

theorem notifyAll_of_neg {fd : Int} (hfd : fd < 0) (statuses : List Int) (last : Int) :
    notifyAll fd statuses last = (last, []) := by
  induction statuses with
  | nil => rfl
  | cons status statuses ih => simp [notifyAll, notify_of_neg hfd, ih]

/-- A valid descriptor gets the statuses without repetitions, from `lastStatus` on. -/
theorem notifyAll_of_nonneg {fd : Int} (hfd : 0 ≤ fd) (statuses : List Int) (last : Int) :
    notifyAll fd statuses last =
      (statuses.getLast?.getD last, withoutRepeats (some last) statuses) := by
  induction statuses generalizing last with
  | nil => rfl
  | cons status statuses ih =>
    have hsplit := withoutRepeats_append (some last) [status] statuses
    simp only [List.singleton_append, List.getLast?_singleton, Option.some_or] at hsplit
    rw [notifyAll, notify_of_nonneg hfd, ih, hsplit]
    simp [List.getLast?_cons]

/-! ## A call -/

/-- The members that `collect()` does not write. -/
structure SameConfig (c c' : FerretCollector) : Prop where
  mInitSuccess : c'.mInitSuccess = c.mInitSuccess
  mCollecting : c'.mCollecting = c.mCollecting
  mClockTicks : c'.mClockTicks = c.mClockTicks
  mCpus : c'.mCpus = c.mCpus
  mStatusFd : c'.mStatusFd = c.mStatusFd
  mPid : c'.mPid = c.mPid
  mProcessNames : c'.mProcessNames = c.mProcessNames
  mPollTimeout : c'.mPollTimeout = c.mPollTimeout
  mCpufreqFdMap : c'.mCpufreqFdMap = c.mCpufreqFdMap

theorem SameConfig.trans {a b c : FerretCollector} (h : SameConfig a b) (h' : SameConfig b c) :
    SameConfig a c :=
  ⟨h'.1.trans h.1, h'.2.trans h.2, h'.3.trans h.3, h'.4.trans h.4, h'.5.trans h.5, h'.6.trans h.6,
    h'.7.trans h.7, h'.8.trans h.8, h'.9.trans h.9⟩

namespace FerretCollector

@[simp] theorem polled_mWatchList (env : Proc) (c : FerretCollector) (left found : List Str) :
    (c.polled env left found).mWatchList = left := rfl

@[simp] theorem polled_mPids (env : Proc) (c : FerretCollector) (left found : List Str) :
    (c.polled env left found).mPids = c.mPids ++ found := rfl

theorem sameConfig_polled (env : Proc) (c : FerretCollector) (left found : List Str) :
    SameConfig c (c.polled env left found) := by
  unfold polled firstCall
  split <;> exact ⟨rfl, rfl, rfl, rfl, rfl, rfl, rfl, rfl, rfl⟩

@[simp] theorem polled_mStatusFd (env : Proc) (c : FerretCollector) (left found : List Str) :
    (c.polled env left found).mStatusFd = c.mStatusFd := (sameConfig_polled env c left found).5

@[simp] theorem polled_mPid (env : Proc) (c : FerretCollector) (left found : List Str) :
    (c.polled env left found).mPid = c.mPid := (sameConfig_polled env c left found).6

@[simp] theorem polled_mPidFdMap (env : Proc) (c : FerretCollector) (left found : List Str) :
    (c.polled env left found).mPidFdMap = c.mPidFdMap := by
  unfold polled firstCall
  split <;> rfl

/-- A call either still awaits names or takes a sample. -/
theorem collect_cases {env : Proc} {last : Int} {c : FerretCollector} {out : Outcome}
    (h : c.collect env last = some out) :
    c.mInitSuccess = true ∧ c.mCollecting = true ∧ ∃ left found,
      pollWatchList env 0 c.mWatchList = some (left, found) ∧
      ((left ≠ [] ∧ out = (c.polled env left found).await env last) ∨
        (left = [] ∧ ∃ opened,
          enumerateAll env 0 (c.mPid :: (c.mPids ++ found)) c.mPidFdMap = some opened ∧
          out = (c.polled env [] found).sampled env last opened)) := by
  unfold collect at h
  split at h
  · cases h
  · rename_i hready
    simp only [not_or, Bool.not_eq_false] at hready
    obtain ⟨⟨left, found⟩, hpoll, h⟩ := Option.bind_eq_some_iff.mp h
    refine ⟨hready.1, hready.2, left, found, hpoll, ?_⟩
    dsimp only at h
    split at h
    · rename_i hleft
      exact Or.inl ⟨hleft, (Option.some.inj h).symm⟩
    · rename_i hleft
      have hleft : left = [] := not_not.mp hleft
      subst hleft
      obtain ⟨opened, hopened, rfl⟩ := Option.map_eq_some_iff.mp h
      exact Or.inr ⟨rfl, opened, by simpa using hopened, rfl⟩

theorem collect_sameConfig {env : Proc} {last : Int} {c : FerretCollector} {out : Outcome}
    (h : c.collect env last = some out) : SameConfig c out.collector := by
  obtain ⟨-, -, left, found, -, ⟨-, rfl⟩ | ⟨rfl, opened, -, rfl⟩⟩ := collect_cases h
  · refine (sameConfig_polled env c left found).trans ?_
    unfold await
    split <;> exact ⟨rfl, rfl, rfl, rfl, rfl, rfl, rfl, rfl, rfl⟩
  · exact (sameConfig_polled env c [] found).trans ⟨rfl, rfl, rfl, rfl, rfl, rfl, rfl, rfl, rfl⟩

/-- The first status that a call reports: -1 when names are awaited and the timeout is over, 1
    when no name is awaited any more. -/
def firstStatus (env : Proc) (c : FerretCollector) : Option Int :=
  match pollWatchList env 0 c.mWatchList with
  | none => none
  | some ([], _) => some 1
  | some (_ :: _, _) =>
    if c.mPollTimeout * 1000000 < env.now - (c.firstCall env).mFirstCollect then some (-1) else none

/-- The statuses of a call, and what becomes of `lastStatus` and of the status descriptor. -/
theorem collect_statuses {env : Proc} {last : Int} {c : FerretCollector} {out : Outcome}
    (h : c.collect env last = some out) :
    (out.lastStatus, out.written) = notifyAll c.mStatusFd out.statuses last ∧
    out.statuses.head? = c.firstStatus env ∧
    ((out.collector.mWatchList ≠ [] ∧ c.mWatchList ≠ [] ∧
        (out.statuses = [] ∨ out.statuses = [-1])) ∨
      (out.collector.mWatchList = [] ∧ (out.statuses = [1] ∨ out.statuses = [1, 0]))) := by
  obtain ⟨-, -, left, found, hpoll, ⟨hleft, rfl⟩ | ⟨rfl, opened, -, rfl⟩⟩ := collect_cases h
  · have hwatch : c.mWatchList ≠ [] := by
      intro hnil
      rw [hnil] at hpoll
      exact hleft (List.eq_nil_of_sublist_nil (left_sublist hpoll))
    obtain ⟨w, ws, rfl⟩ := List.exists_cons_of_ne_nil hleft
    have htime : (c.polled env (w :: ws) found).mFirstCollect = (c.firstCall env).mFirstCollect :=
      rfl
    have hfirst : c.firstStatus env =
        if c.mPollTimeout * 1000000 < env.now - (c.firstCall env).mFirstCollect then some (-1)
        else none := by
      rw [firstStatus, hpoll]
    have htimeout := (sameConfig_polled env c (w :: ws) found).mPollTimeout
    by_cases hexpired : c.mPollTimeout * 1000000 < env.now - (c.firstCall env).mFirstCollect
    · simp [await, htimeout, htime, hexpired, hfirst, notifyAll, hwatch]
    · simp [await, htimeout, htime, hexpired, hfirst, notifyAll, hwatch]
  · have hfirst : c.firstStatus env = some 1 := by rw [firstStatus, hpoll]
    rw [hfirst]
    by_cases hactive : activeCount (c.mPids ++ found) (collectPerproc env opened.1).1 = 0
    · simp [sampled, hactive, notifyAll]
    · simp [sampled, hactive, notifyAll]

end FerretCollector

end LibCollector.Ferret
