import LibCollector.Interface.Recording

/-!
# The threads of threaded collectors

What `Collection::start` and `Collection::stop` do with `Collector::thread`. A collector
may override `start()` and `postprocess()`, so their outcomes are inputs. A `std::thread`
that can be joined is the number of its launch; to assign to one, and to join one that
cannot be joined, ends the process. The members that are not about threads are left out:
a collection of generic collectors treats its threads like that (`Collection.start_threads`,
`Collection.stop_threads`), so its runs pair them (`Collection.threadsPaired_runs`).
-/

namespace LibCollector.Interface

open LibCollector.Misc

/-- What happens to threads: a call of `Collection::start()` begins, or the thread with a number is
    launched or joined. -/
inductive ThreadEvent where
  | start
  | launch (name : Str) (id : Nat)
  | join (name : Str) (id : Nat)
  deriving DecidableEq

/-- The members of a collection that are about threads, the number of threads that have been
    launched, and what has happened to them. -/
structure ThreadState where
  mRunning : List Str
  isThreaded : Str → Bool
  thread : Str → Option Nat := fun _ => none
  launched : Nat := 0
  events : List ThreadEvent := []

/-- `start()`, with the outcomes of the collectors' `start()`, or `stop()`, with those of their
    `postprocess()`. -/
inductive ThreadCall where
  | start (ok : Str → Bool)
  | stop (valid : Str → Bool)

/-- `start()` and the `stop()` after it. -/
structure Cycle where
  ok : Str → Bool
  valid : Str → Bool

/-- The calls of a sequence that alternates, with or without a `stop()` at its end. -/
def alternating (cycles : List Cycle) (last : Option (Str → Bool)) : List ThreadCall :=
  cycles.flatMap (fun c => [.start c.ok, .stop c.valid]) ++ last.toList.map .start

namespace ThreadState

/-- The body of the loop of `start()`. -/
def startOne (ok : Str → Bool) (s : ThreadState) (name : Str) : Option ThreadState :=
  if ok name then
    if s.isThreaded name then
      match s.thread name with
      | some _ => none
      | none =>
        some { s with
          thread := Function.update s.thread name (some s.launched)
          launched := s.launched + 1
          events := s.events ++ [.launch name s.launched] }
    else some s
  else some s

/-- `Collection::start`. -/
def start (ok : Str → Bool) (s : ThreadState) : Option ThreadState :=
  run (startOne ok) { s with events := s.events ++ [.start] } s.mRunning

/-- The body of the second loop of `stop()`. -/
def stopOne (s : ThreadState) (name : Str) : Option ThreadState :=
  if s.isThreaded name then
    (s.thread name).map fun id =>
      { s with
        thread := Function.update s.thread name none
        events := s.events ++ [.join name id] }
  else some s

/-- `Collection::stop`. -/
def stop (valid : Str → Bool) (s : ThreadState) : Option ThreadState :=
  (run stopOne s s.mRunning).map fun t => { t with mRunning := s.mRunning.filter valid }

/-- A call; `none` is the end of the process. -/
def step (s : ThreadState) : ThreadCall → Option ThreadState
  | .start ok => s.start ok
  | .stop valid => s.stop valid

/-- `start()` and the `stop()` after it. -/
def cycle (s : ThreadState) (c : Cycle) : Option ThreadState :=
  (s.start c.ok).bind fun t => t.stop c.valid

/-! ## The discipline -/

/-- The thread has been launched by the last call of `start()`. -/
def LaunchedLast (events : List ThreadEvent) (name : Str) (id : Nat) : Prop :=
  ∃ before after, events = before ++ .start :: after ∧ .start ∉ after ∧ .launch name id ∈ after

/-- What has to have happened before an event: a thread that is joined was launched by the last
    `start()` and was not joined yet, a collector that gets a thread has none that was not joined.
    -/
def Allowed (before : List ThreadEvent) : ThreadEvent → Prop
  | .start => True
  | .launch name _ => ∀ id, .launch name id ∈ before → .join name id ∈ before
  | .join name id => LaunchedLast before name id ∧ .join name id ∉ before

/-- The process survives the calls, and every launch and every join was allowed. -/
def ThreadsPaired (s : ThreadState) (calls : List ThreadCall) : Prop :=
  ∃ t, run step s calls = some t ∧ EachSplit Allowed t.events

/-- No thread has been launched yet, and no collector runs twice. -/
structure Idle (s : ThreadState) : Prop where
  nodup : s.mRunning.Nodup
  thread : ∀ name, s.thread name = none
  events : s.events = []

/-- The `start()` of every threaded collector that is running succeeds in the cycle. -/
def Launches (s : ThreadState) (c : Cycle) : Prop :=
  ∀ name ∈ s.mRunning, s.isThreaded name = true → c.ok name = true

/-! ## The invariant -/

/-- What holds between any two launches and joins. -/
structure Tracked (s : ThreadState) : Prop where
  allowed : EachSplit Allowed s.events
  launchId : ∀ name id, .launch name id ∈ s.events → id < s.launched
  joinId : ∀ name id, .join name id ∈ s.events → id < s.launched
  pending : ∀ name id, .launch name id ∈ s.events →
    s.thread name = some id ∨ .join name id ∈ s.events
  joinable : ∀ name id, s.thread name = some id →
    LaunchedLast s.events name id ∧ .join name id ∉ s.events

theorem LaunchedLast.concat {events : List ThreadEvent} {name : Str} {id : Nat}
    (h : LaunchedLast events name id) {e : ThreadEvent} (he : e ≠ .start) :
    LaunchedLast (events ++ [e]) name id := by
  obtain ⟨before, after, rfl, hstart, hlaunch⟩ := h
  refine ⟨before, after ++ [e], by simp, ?_, List.mem_append_left _ hlaunch⟩
  intro hmem
  rcases List.mem_append.mp hmem with hmem | hmem
  · exact hstart hmem
  · exact he (List.mem_singleton.mp hmem).symm

/-- Some call of `start()` has begun. -/
def Begun (events : List ThreadEvent) : Prop :=
  ∃ before after, events = before ++ .start :: after ∧ .start ∉ after

theorem Begun.concat {events : List ThreadEvent} (h : Begun events) {e : ThreadEvent}
    (he : e ≠ .start) : Begun (events ++ [e]) := by
  obtain ⟨before, after, rfl, hstart⟩ := h
  refine ⟨before, after ++ [e], by simp, ?_⟩
  rw [List.mem_append, List.mem_singleton, not_or]
  exact ⟨hstart, Ne.symm he⟩

/-- A call of `start()` begins when no thread can be joined. -/
theorem Tracked.begin {s : ThreadState} (h : s.Tracked) (hfree : ∀ name, s.thread name = none) :
    Tracked { s with events := s.events ++ [.start] } := by
  refine ⟨eachSplit_concat.mpr ⟨h.allowed, trivial⟩, fun name id hid => ?_, fun name id hid => ?_,
    fun name id hid => ?_, fun name id hid => ?_⟩
  · exact h.launchId name id (by simpa using hid)
  · exact h.joinId name id (by simpa using hid)
  · simpa using h.pending name id (by simpa using hid)
  · have hthread : s.thread name = some id := hid
    rw [hfree] at hthread
    cases hthread

/-! ## The loops -/

/-- The members that a loop does not write. -/
structure SameThreaded (s t : ThreadState) : Prop where
  mRunning : t.mRunning = s.mRunning
  isThreaded : t.isThreaded = s.isThreaded

/-- A collector gets a thread. -/
theorem tracked_launch {s : ThreadState} (h : s.Tracked) (hbegun : Begun s.events) {name : Str}
    (hfree : s.thread name = none) :
    Tracked { s with
      thread := Function.update s.thread name (some s.launched)
      launched := s.launched + 1
      events := s.events ++ [.launch name s.launched] } := by
  have hnew : LaunchedLast (s.events ++ [.launch name s.launched]) name s.launched := by
    obtain ⟨before, after, hevents, hstart⟩ := hbegun
    refine ⟨before, after ++ [.launch name s.launched], by simp [hevents], ?_, by simp⟩
    simpa using hstart
  refine ⟨eachSplit_concat.mpr ⟨h.allowed, fun id hid => ?_⟩, fun other id hid => ?_,
    fun other id hid => ?_, fun other id hid => ?_, fun other id hid => ?_⟩
  · rcases h.pending name id hid with hthread | hjoin
    · rw [hfree] at hthread
      cases hthread
    · exact hjoin
  · rcases List.mem_append.mp hid with hid | hid
    · exact Nat.lt_succ_of_lt (h.launchId other id hid)
    · cases List.mem_singleton.mp hid
      exact Nat.lt_succ_self _
  · rcases List.mem_append.mp hid with hid | hid
    · exact Nat.lt_succ_of_lt (h.joinId other id hid)
    · cases List.mem_singleton.mp hid
  · dsimp only
    rcases List.mem_append.mp hid with hid | hid
    · rcases h.pending other id hid with hthread | hjoin
      · have hne : other ≠ name := by
          rintro rfl
          rw [hfree] at hthread
          cases hthread
        exact Or.inl ((Function.update_of_ne hne _ _).trans hthread)
      · exact Or.inr (List.mem_append_left _ hjoin)
    · cases List.mem_singleton.mp hid
      exact Or.inl (Function.update_self _ _ _)
  · dsimp only at hid ⊢
    have hjoin : .join other id ∈ s.events ++ [.launch name s.launched] →
        .join other id ∈ s.events := by
      intro hmem
      simpa using hmem
    by_cases hother : other = name
    · subst hother
      rw [Function.update_self, Option.some.injEq] at hid
      subst hid
      exact ⟨hnew, fun hmem => absurd (h.joinId _ _ (hjoin hmem)) (lt_irrefl _)⟩
    · rw [Function.update_of_ne hother] at hid
      obtain ⟨hlast, hnot⟩ := h.joinable other id hid
      exact ⟨hlast.concat nofun, hnot ∘ hjoin⟩

/-- A thread is joined. -/
theorem tracked_join {s : ThreadState} (h : s.Tracked) {name : Str} {id : Nat}
    (hthread : s.thread name = some id) :
    Tracked { s with
      thread := Function.update s.thread name none
      events := s.events ++ [.join name id] } := by
  obtain ⟨hlast, hnot⟩ := h.joinable name id hthread
  have hlaunched : .launch name id ∈ s.events := by
    obtain ⟨before, after, hevents, -, hmem⟩ := hlast
    rw [hevents]
    exact List.mem_append_right _ (List.mem_cons_of_mem _ hmem)
  refine ⟨eachSplit_concat.mpr ⟨h.allowed, hlast, hnot⟩, fun other i hi => ?_, fun other i hi => ?_,
    fun other i hi => ?_, fun other i hi => ?_⟩
  · exact h.launchId other i (by simpa using hi)
  · rcases List.mem_append.mp hi with hi | hi
    · exact h.joinId other i hi
    · cases List.mem_singleton.mp hi
      exact h.launchId name id hlaunched
  · dsimp only
    rcases h.pending other i (by simpa using hi) with hopen | hjoin
    · by_cases hother : other = name
      · subst hother
        rw [hthread, Option.some.injEq] at hopen
        subst hopen
        exact Or.inr (List.mem_append_right _ (List.mem_singleton_self _))
      · exact Or.inl ((Function.update_of_ne hother _ _).trans hopen)
    · exact Or.inr (List.mem_append_left _ hjoin)
  · dsimp only at hi ⊢
    have hother : other ≠ name := by
      rintro rfl
      rw [Function.update_self] at hi
      cases hi
    rw [Function.update_of_ne hother] at hi
    obtain ⟨hlast', hnot'⟩ := h.joinable other i hi
    refine ⟨hlast'.concat nofun, fun hmem => ?_⟩
    rcases List.mem_append.mp hmem with hmem | hmem
    · exact hnot' hmem
    · cases List.mem_singleton.mp hmem
      exact hother rfl

theorem tracked_startOne {ok : Str → Bool} {s t : ThreadState} {name : Str}
    (h : s.Tracked ∧ Begun s.events) (ht : s.startOne ok name = some t) :
    t.Tracked ∧ Begun t.events := by
  unfold startOne at ht
  split at ht
  · split at ht
    · split at ht
      · cases ht
      · rename_i hfree
        cases ht
        exact ⟨tracked_launch h.1 h.2 hfree, h.2.concat nofun⟩
    · cases ht
      exact h
  · cases ht
    exact h

theorem tracked_stopOne {s t : ThreadState} {name : Str} (h : s.Tracked)
    (ht : s.stopOne name = some t) : t.Tracked := by
  unfold stopOne at ht
  split at ht
  · obtain ⟨id, hid, rfl⟩ := Option.map_eq_some_iff.mp ht
    exact tracked_join h hid
  · cases ht
    exact h

/-- What one turn of the loop of `start()` does, unless it overwrites a thread. -/
theorem startOne_spec {ok : Str → Bool} {s : ThreadState} {name : Str}
    (hfree : ok name = true → s.isThreaded name = true → s.thread name = none) :
    ∃ t, s.startOne ok name = some t ∧ SameThreaded s t ∧
      ∀ other, (t.thread other).isSome ↔
        (s.thread other).isSome ∨ other = name ∧ ok other = true ∧ s.isThreaded other = true := by
  unfold startOne
  by_cases hok : ok name = true
  · by_cases hthreaded : s.isThreaded name = true
    · refine ⟨{ s with
        thread := Function.update s.thread name (some s.launched)
        launched := s.launched + 1
        events := s.events ++ [.launch name s.launched] }, ?_, ⟨rfl, rfl⟩, fun other => ?_⟩
      · rw [if_pos hok, if_pos hthreaded, hfree hok hthreaded]
      · dsimp only
        by_cases hother : other = name
        · subst hother
          simp [hok, hthreaded]
        · simp [hother]
    · refine ⟨s, by rw [if_pos hok, if_neg hthreaded], ⟨rfl, rfl⟩, fun other => ?_⟩
      refine ⟨Or.inl, fun hcases => hcases.resolve_right ?_⟩
      rintro ⟨rfl, -, hother⟩
      exact hthreaded hother
  · refine ⟨s, by rw [if_neg hok], ⟨rfl, rfl⟩, fun other => ?_⟩
    refine ⟨Or.inl, fun hcases => hcases.resolve_right ?_⟩
    rintro ⟨rfl, hother, -⟩
    exact hok hother

theorem run_startOne {ok : Str → Bool} {names : List Str} (hnodup : names.Nodup) {s : ThreadState}
    (hfree : ∀ name ∈ names, ok name = true → s.isThreaded name = true → s.thread name = none) :
    ∃ t, run (startOne ok) s names = some t ∧ SameThreaded s t ∧
      ∀ other, (t.thread other).isSome ↔
        (s.thread other).isSome ∨ other ∈ names ∧ ok other = true ∧ s.isThreaded other = true := by
  induction names generalizing s with
  | nil => exact ⟨s, rfl, ⟨rfl, rfl⟩, by simp⟩
  | cons name names ih =>
    obtain ⟨hname, hnodup⟩ := List.nodup_cons.mp hnodup
    obtain ⟨s₁, hs₁, hsame, hthread⟩ := startOne_spec (hfree name List.mem_cons_self)
    have hfree₁ : ∀ other ∈ names, ok other = true → s₁.isThreaded other = true →
        s₁.thread other = none := by
      intro other hother hok hthreaded
      rw [hsame.isThreaded] at hthreaded
      rw [← Option.not_isSome_iff_eq_none, hthread]
      rintro (hsome | ⟨rfl, -⟩)
      · rw [hfree other (List.mem_cons_of_mem _ hother) hok hthreaded] at hsome
        cases hsome
      · exact hname hother
    obtain ⟨t, ht, hsame', hthread'⟩ := ih hnodup hfree₁
    refine ⟨t, run_cons_eq_some.mpr ⟨s₁, hs₁, ht⟩, ⟨hsame'.1.trans hsame.1, hsame'.2.trans hsame.2⟩,
      fun other => ?_⟩
    rw [hthread', hthread, hsame.isThreaded, or_assoc, ← or_and_right, List.mem_cons]

/-- What one turn of the loop of `stop()` does, unless it joins a thread that is not there. -/
theorem stopOne_spec {s : ThreadState} {name : Str}
    (hthread : s.isThreaded name = true → (s.thread name).isSome) :
    ∃ t, s.stopOne name = some t ∧ SameThreaded s t ∧
      ∀ other, (t.thread other).isSome ↔
        (s.thread other).isSome ∧ ¬ (other = name ∧ s.isThreaded other = true) := by
  unfold stopOne
  by_cases hthreaded : s.isThreaded name = true
  · obtain ⟨id, hid⟩ := Option.isSome_iff_exists.mp (hthread hthreaded)
    refine ⟨{ s with
      thread := Function.update s.thread name none
      events := s.events ++ [.join name id] }, ?_, ⟨rfl, rfl⟩, fun other => ?_⟩
    · rw [if_pos hthreaded, hid, Option.map_some]
    · dsimp only
      by_cases hother : other = name
      · subst hother
        simp [hthreaded]
      · simp [hother]
  · refine ⟨s, if_neg hthreaded, ⟨rfl, rfl⟩, fun other => ?_⟩
    refine ⟨fun hsome => ⟨hsome, ?_⟩, And.left⟩
    rintro ⟨rfl, hother⟩
    exact hthreaded hother

theorem run_stopOne {names : List Str} (hnodup : names.Nodup) {s : ThreadState}
    (hthread : ∀ name ∈ names, s.isThreaded name = true → (s.thread name).isSome) :
    ∃ t, run stopOne s names = some t ∧ SameThreaded s t ∧
      ∀ other, (t.thread other).isSome ↔
        (s.thread other).isSome ∧ ¬ (other ∈ names ∧ s.isThreaded other = true) := by
  induction names generalizing s with
  | nil => exact ⟨s, rfl, ⟨rfl, rfl⟩, by simp⟩
  | cons name names ih =>
    obtain ⟨hname, hnodup⟩ := List.nodup_cons.mp hnodup
    obtain ⟨s₁, hs₁, hsame, hafter⟩ := stopOne_spec (hthread name List.mem_cons_self)
    have hthread₁ : ∀ other ∈ names, s₁.isThreaded other = true → (s₁.thread other).isSome := by
      intro other hother hthreaded
      rw [hsame.isThreaded] at hthreaded
      refine (hafter other).mpr ⟨hthread other (List.mem_cons_of_mem _ hother) hthreaded, ?_⟩
      rintro ⟨rfl, -⟩
      exact hname hother
    obtain ⟨t, ht, hsame', hafter'⟩ := ih hnodup hthread₁
    refine ⟨t, run_cons_eq_some.mpr ⟨s₁, hs₁, ht⟩, ⟨hsame'.1.trans hsame.1, hsame'.2.trans hsame.2⟩,
      fun other => ?_⟩
    rw [hafter', hafter, hsame.isThreaded, and_assoc, ← not_or, ← or_and_right, List.mem_cons]

/-- The loop of `stop()` does not get past a threaded collector without a thread. -/
theorem run_stopOne_eq_none {names : List Str} {s : ThreadState} {name : Str} (hname : name ∈ names)
    (hthreaded : s.isThreaded name = true) (hthread : s.thread name = none) :
    run stopOne s names = none := by
  induction names generalizing s with
  | nil => cases hname
  | cons other names ih =>
    rw [run_cons]
    cases hs₁ : s.stopOne other with
    | none => rfl
    | some s₁ =>
      rw [Option.bind_some]
      unfold stopOne at hs₁
      have hne : name ≠ other := by
        rintro rfl
        rw [if_pos hthreaded, hthread] at hs₁
        cases hs₁
      have hmem := (List.mem_cons.mp hname).resolve_left hne
      split at hs₁
      · obtain ⟨id, -, rfl⟩ := Option.map_eq_some_iff.mp hs₁
        refine ih hmem hthreaded ?_
        exact (Function.update_of_ne hne _ _).trans hthread
      · cases hs₁
        exact ih hmem hthreaded hthread

/-! ## Cycles -/

/-- Between two cycles no thread can be joined. -/
structure Settled (s : ThreadState) : Prop where
  nodup : s.mRunning.Nodup
  tracked : s.Tracked
  thread : ∀ name, s.thread name = none

theorem Idle.settled {s : ThreadState} (h : s.Idle) : s.Settled := by
  refine ⟨h.nodup, ?_, h.thread⟩
  constructor
  · rw [h.events]
    exact eachSplit_nil _
  · intro name id hid
    rw [h.events] at hid
    cases hid
  · intro name id hid
    rw [h.events] at hid
    cases hid
  · intro name id hid
    rw [h.events] at hid
    cases hid
  · intro name id hid
    rw [h.thread] at hid
    cases hid

/-- `start()` of a settled collection gives a thread to each threaded collector that starts. -/
theorem start_spec {ok : Str → Bool} {s : ThreadState} (h : s.Settled) :
    ∃ t, s.start ok = some t ∧ SameThreaded s t ∧ t.Tracked ∧
      ∀ name, (t.thread name).isSome ↔
        name ∈ s.mRunning ∧ ok name = true ∧ s.isThreaded name = true := by
  obtain ⟨t, ht, hsame, hthread⟩ := @run_startOne ok _ h.nodup
    { s with events := s.events ++ [.start] } fun name _ _ _ => h.thread name
  have htracked := run_invariant (fun _ _ _ => tracked_startOne)
    ⟨h.tracked.begin h.thread, s.events, [], rfl, List.not_mem_nil⟩ ht
  refine ⟨t, ht, ⟨hsame.1, hsame.2⟩, htracked.1, fun name => ?_⟩
  rw [hthread]
  simp only [h.thread, Option.isSome_none, Bool.false_eq_true, false_or]

/-- A cycle in which every threaded collector starts. -/
theorem cycle_spec {c : Cycle} {s : ThreadState} (h : s.Settled) (hc : s.Launches c) :
    ∃ t, s.cycle c = some t ∧ t.Settled ∧ t.isThreaded = s.isThreaded ∧
      t.mRunning = s.mRunning.filter c.valid := by
  obtain ⟨t, ht, hsame, htracked, hthread⟩ := @start_spec c.ok s h
  have hall : ∀ name ∈ t.mRunning, t.isThreaded name = true → (t.thread name).isSome := by
    intro name hname hthreaded
    rw [hsame.mRunning] at hname
    rw [hsame.isThreaded] at hthreaded
    exact (hthread name).mpr ⟨hname, hc name hname hthreaded, hthreaded⟩
  obtain ⟨u, hu, hsame', hthread'⟩ := run_stopOne (hsame.mRunning ▸ h.nodup) hall
  have htracked' := run_invariant (fun _ _ _ => tracked_stopOne) htracked hu
  refine ⟨{ u with mRunning := t.mRunning.filter c.valid }, ?_, ⟨?_, ?_, fun name => ?_⟩, ?_, ?_⟩
  · rw [cycle, ht, Option.bind_some, stop, hu, Option.map_some]
  · exact (hsame.mRunning ▸ h.nodup).filter _
  · exact ⟨htracked'.1, htracked'.2, htracked'.3, htracked'.4, htracked'.5⟩
  · rw [← Option.not_isSome_iff_eq_none]
    intro hsome
    obtain ⟨hopen, hnot⟩ := (hthread' name).mp hsome
    obtain ⟨hname, -, hthreaded⟩ := (hthread name).mp hopen
    exact hnot ⟨hsame.mRunning ▸ hname, hsame.isThreaded ▸ hthreaded⟩
  · exact hsame'.isThreaded.trans hsame.isThreaded
  · exact congrArg _ hsame.mRunning

/-- A cycle in which a threaded collector does not start ends the process. -/
theorem cycle_eq_none {c : Cycle} {s : ThreadState} (h : s.Settled) (hc : ¬ s.Launches c) :
    s.cycle c = none := by
  obtain ⟨name, hname, hthreaded, hok⟩ : ∃ name ∈ s.mRunning, s.isThreaded name = true ∧
      c.ok name ≠ true := by
    simpa [Launches] using hc
  obtain ⟨t, ht, hsame, -, hthread⟩ := @start_spec c.ok s h
  have hnone : t.thread name = none := by
    rw [← Option.not_isSome_iff_eq_none, hthread]
    exact fun hstarted => hok hstarted.2.1
  rw [cycle, ht, Option.bind_some, stop, run_stopOne_eq_none (hsame.mRunning ▸ hname)
    (hsame.isThreaded ▸ hthreaded) hnone]
  rfl

theorem run_alternating_cons {s : ThreadState} {c : Cycle} {cycles : List Cycle}
    {last : Option (Str → Bool)} :
    run step s (alternating (c :: cycles) last) =
      (s.cycle c).bind fun t => run step t (alternating cycles last) := by
  rw [alternating, List.flatMap_cons, List.append_assoc, run_append, cycle]
  simp only [run_cons, run_nil, step, Option.bind_assoc, Option.bind_some]
  rfl

theorem threadsPaired_settled {s : ThreadState} (h : s.Settled) (cycles : List Cycle)
    (last : Option (Str → Bool)) :
    s.ThreadsPaired (alternating cycles last) ↔ StepsMeet cycle Launches s cycles := by
  induction cycles generalizing s with
  | nil =>
    refine iff_of_true ?_ trivial
    cases last with
    | none => exact ⟨s, rfl, h.tracked.allowed⟩
    | some ok =>
      obtain ⟨t, ht, -, htracked, -⟩ := @start_spec ok s h
      exact ⟨t, by simpa [alternating, step] using ht, htracked.allowed⟩
  | cons c cycles ih =>
    unfold ThreadsPaired
    rw [run_alternating_cons]
    by_cases hc : s.Launches c
    · obtain ⟨t, ht, hsettled, -⟩ := cycle_spec h hc
      rw [ht, Option.bind_some]
      refine (ih hsettled).trans ⟨fun hrest => ⟨hc, fun u hu => ?_⟩, fun hmeet => hmeet.2 t ht⟩
      rw [ht] at hu
      cases hu
      exact hrest
    · rw [cycle_eq_none h hc]
      exact iff_of_false (by rintro ⟨t, ht, -⟩; cases ht) fun hmeet => hc hmeet.1

/-- `stop()` joins only threads that the `start()` before it has launched, and no thread is
    overwritten, exactly when the `start()` of every threaded collector that is running succeeds in
    every cycle. -/
theorem threadsPaired_iff {s : ThreadState} (h : s.Idle) (cycles : List Cycle)
    (last : Option (Str → Bool)) :
    s.ThreadsPaired (alternating cycles last) ↔ StepsMeet cycle Launches s cycles := by
  exact threadsPaired_settled h.settled cycles last

/-- Two collectors, one of them threaded, over two cycles. -/
theorem threadsPaired_two_cycles :
    ThreadsPaired ⟨["rusage".toList, "ferret".toList], fun name => name = "ferret".toList,
        fun _ => none, 0, []⟩
      (alternating [⟨fun _ => true, fun _ => true⟩, ⟨fun _ => true, fun _ => true⟩] none) := by
  refine (threadsPaired_iff ⟨by decide, fun _ => rfl, rfl⟩ _ _).mpr ?_
  exact ⟨fun _ _ _ => rfl, fun _ _ => ⟨fun _ _ _ => rfl, fun _ _ => trivial⟩⟩

/-- A threaded collector whose `start()` fails: `stop()` joins a thread that was not launched. -/
theorem not_threadsPaired_failed_start :
    ¬ ThreadsPaired ⟨["ferret".toList], fun _ => true, fun _ => none, 0, []⟩
      (alternating [⟨fun _ => false, fun _ => true⟩] none) := by
  rintro ⟨t, ht, -⟩
  cases ht

end ThreadState

/-! ## Generic collectors -/

namespace Collection

variable {J : Type}

/-- The threads of a collection. -/
structure HasThreads (s : Collection J) (t : ThreadState) : Prop where
  mRunning : t.mRunning = s.mRunning
  collectors : ∀ name c, s.mCollectors.find? name = some c →
    t.isThreaded name = c.mIsThreaded ∧ ((t.thread name).isSome ↔ c.thread = true)

theorem launch_thread {ok : Bool} {c c' : Collector J} (h : c.launch ok = some c') :
    (ok = true → c.mIsThreaded = true → c.thread = false) ∧ c'.mIsThreaded = c.mIsThreaded ∧
      (c'.thread = true ↔ c.thread = true ∨ ok = true ∧ c.mIsThreaded = true) := by
  unfold Collector.launch at h
  split at h
  · rename_i hok
    split at h
    · rename_i hthreaded
      split at h
      · cases h
      · rename_i hthread
        cases h
        exact ⟨fun _ _ => eq_false_of_ne_true hthread, rfl, by simp [hok, hthreaded]⟩
    · rename_i hthreaded
      cases h
      exact ⟨fun _ hc => absurd hc hthreaded, rfl, by simp [hthreaded, Collector.clear]⟩
  · rename_i hok
    cases h
    exact ⟨fun ho => absurd ho hok, rfl, by simp [hok, Collector.clear]⟩

/-- `start()` treats the threads of generic collectors as `ThreadState.start` does. -/
theorem start_threads {headers : List Str} {now : Int} {ok : Str → Bool} {s s' : Collection J}
    {t : ThreadState} (hnodup : s.mRunning.Nodup) (h : s.HasThreads t)
    (hs : s.start headers now ok = some s') : ∃ t', t.start ok = some t' ∧ s'.HasThreads t' := by
  obtain ⟨collectors, hcollectors, rfl⟩ := Option.map_eq_some_iff.mp hs
  have hfree : ∀ name ∈ t.mRunning, ok name = true → t.isThreaded name = true →
      t.thread name = none := by
    intro name hname hok hthreaded
    rw [h.mRunning] at hname
    obtain ⟨c, c', hc, hlaunch, -⟩ := OrdMap.exists_of_updateAll hnodup hcollectors hname
    obtain ⟨hisThreaded, hthread⟩ := h.collectors name c hc
    rw [← Option.not_isSome_iff_eq_none, hthread,
      (launch_thread hlaunch).1 hok (hisThreaded ▸ hthreaded)]
    exact Bool.false_ne_true
  obtain ⟨t', ht', hsame, hthread'⟩ := @ThreadState.run_startOne ok _ (h.mRunning ▸ hnodup)
    { t with events := t.events ++ [.start] } hfree
  refine ⟨t', ht', hsame.mRunning.trans h.mRunning, fun name c' hc' => ?_⟩
  rw [hthread', hsame.isThreaded]
  dsimp only at hc' ⊢
  rw [OrdMap.find?_updateAll hnodup hcollectors] at hc'
  split at hc'
  · rename_i hname
    obtain ⟨c, hc, hlaunch⟩ := Option.bind_eq_some_iff.mp hc'
    obtain ⟨hisThreaded, hthread⟩ := h.collectors name c hc
    obtain ⟨-, hsame', hafter⟩ := launch_thread hlaunch
    refine ⟨hisThreaded.trans hsame'.symm, ?_⟩
    rw [hafter, hthread, hisThreaded, h.mRunning, and_iff_right hname]
  · rename_i hname
    obtain ⟨hisThreaded, hthread⟩ := h.collectors name c' hc'
    refine ⟨hisThreaded, ?_⟩
    rw [hthread, h.mRunning]
    exact or_iff_left fun hrunning => hname hrunning.1

theorem halt_thread {timing : List Int} {valid : Bool} {c c' : Collector J}
    (h : c.halt timing = some (valid, c')) :
    (c.mIsThreaded = true → c.thread = true) ∧ c'.thread = false := by
  unfold Collector.halt at h
  split at h
  · cases h
  · rename_i hjoin
    refine ⟨fun hthreaded => ?_, ?_⟩
    · exact eq_true_of_ne_false fun hthread => hjoin ⟨hthreaded, hthread⟩
    · rcases Collector.postprocess_cases h with ⟨-, rfl⟩ | ⟨-, -, -, results, -, rfl⟩ |
        ⟨-, -, rfl⟩ <;> rfl

/-- `stop()` treats the threads of generic collectors as `ThreadState.stop` does, if the threads of
    the others cannot be joined. -/
theorem stop_threads {s s' : Collection J} {t : ThreadState} (hnodup : s.mRunning.Nodup)
    (h : s.HasThreads t) (hs : s.stop = some s') (hidle : ∀ name c,
      s.mCollectors.find? name = some c → c.mIsThreaded = false → c.thread = false) :
    ∃ valid t', t.stop valid = some t' ∧ s'.HasThreads t' := by
  obtain ⟨collectors, hcollectors, rfl⟩ := Option.map_eq_some_iff.mp hs
  have hjoinable : ∀ name ∈ t.mRunning, t.isThreaded name = true → (t.thread name).isSome := by
    intro name hname hthreaded
    rw [h.mRunning] at hname
    obtain ⟨c, c', hc, hhalt, -⟩ := OrdMap.exists_of_updateAll hnodup hcollectors hname
    obtain ⟨⟨valid, c₁⟩, hhalt, -⟩ := Option.map_eq_some_iff.mp hhalt
    obtain ⟨hisThreaded, hthread⟩ := h.collectors name c hc
    exact hthread.mpr ((halt_thread hhalt).1 (hisThreaded ▸ hthreaded))
  obtain ⟨t', ht', hsame, hafter⟩ := ThreadState.run_stopOne (h.mRunning ▸ hnodup) hjoinable
  let valid : Str → Bool := fun name =>
    ((s.mCollectors.find? name).bind fun c => (c.halt s.mTiming).map Prod.fst) = some true
  refine ⟨valid, { t' with mRunning := t.mRunning.filter valid }, ?_, ?_, fun name c' hc' => ?_⟩
  · rw [ThreadState.stop, ht', Option.map_some]
  · dsimp only
    rw [h.mRunning]
  · dsimp only at hc' ⊢
    rw [hafter, hsame.isThreaded]
    rw [OrdMap.find?_updateAll hnodup hcollectors] at hc'
    split at hc'
    · rename_i hname
      obtain ⟨c, hc, hhalt⟩ := Option.bind_eq_some_iff.mp hc'
      obtain ⟨⟨valid, c₁⟩, hhalted, rfl⟩ := Option.map_eq_some_iff.mp hhalt
      obtain ⟨hisThreaded, hthread⟩ := h.collectors name c hc
      refine ⟨hisThreaded.trans (Collector.setup_halt hhalted).mIsThreaded.symm, ?_⟩
      rw [(halt_thread hhalted).2, hthread, h.mRunning, hisThreaded]
      refine iff_of_false ?_ Bool.false_ne_true
      rintro ⟨hjoin, hnot⟩
      refine hnot ⟨hname, eq_true_of_ne_false fun hplain => ?_⟩
      rw [hidle name c hc hplain] at hjoin
      cases hjoin
    · rename_i hname
      obtain ⟨hisThreaded, hthread⟩ := h.collectors name c' hc'
      refine ⟨hisThreaded, ?_⟩
      rw [hthread, h.mRunning]
      exact and_iff_left fun hrunning => hname hrunning.1

/-! ### Runs -/

/-- What a sampling step leaves of a collector. -/
def SameThread (c c' : Collector J) : Prop :=
  c'.mIsThreaded = c.mIsThreaded ∧ c'.thread = c.thread

/-- No collector without threading has a thread that can be joined. -/
def PlainIdle (s : Collection J) : Prop :=
  ∀ name c, s.mCollectors.find? name = some c → c.mIsThreaded = false → c.thread = false

theorem exists_of_rel {R : Collector J → Collector J → Prop} {s s' : Collection J}
    (h : RelCollectors R s s') {name : Str} {c' : Collector J}
    (hc' : s'.mCollectors.find? name = some c') :
    ∃ c, s.mCollectors.find? name = some c ∧ R c c' := by
  have hrel := h name
  rw [hc'] at hrel
  cases hc : s.mCollectors.find? name with
  | none =>
    rw [hc] at hrel
    cases hrel
  | some c =>
    rw [hc] at hrel
    cases hrel with
    | some hR => exact ⟨c, rfl, hR⟩

theorem sample_sameThread {x : Sampling} {s s' : Collection J} (hnodup : s.mRunning.Nodup)
    (h : s.sample x = some s') :
    RelCollectors SameThread s s' ∧ s'.mRunning = s.mRunning := by
  have hrefl : ∀ c : Collector J, SameThread c c := fun _ => ⟨rfl, rfl⟩
  have hadd : ∀ {adds : List Added} {c c' : Collector J}, c.addAll adds = some c' →
      SameThread c c' := fun hc =>
    ⟨(Collector.grown_addAll hc).mIsThreaded, (Collector.grown_addAll hc).thread⟩
  cases x with
  | collect now custom adds =>
    obtain ⟨collectors, hcollectors, h⟩ := Option.bind_eq_some_iff.mp h
    split at h
    · cases h
      refine ⟨fun name => ?_, rfl⟩
      refine OrdMap.rel_updateAll hrefl (fun name c c' hc => ?_) hnodup hcollectors name
      split at hc
      · cases hc
        exact hrefl c
      · exact hadd hc
    · cases h
  | loop name adds =>
    obtain ⟨c, hc, h⟩ := Option.bind_eq_some_iff.mp h
    split at h
    · obtain ⟨c', hc', rfl⟩ := Option.map_eq_some_iff.mp h
      refine ⟨fun other => ?_, rfl⟩
      dsimp only
      rw [OrdMap.find?_insert]
      by_cases hname : other = name
      · rw [hname, hc, if_pos rfl]
        exact Option.Rel.some (hadd hc')
      · rw [if_neg hname]
        cases s.mCollectors.find? other with
        | none => exact Option.Rel.none
        | some c => exact Option.Rel.some (hrefl c)
    · cases h

/-- How the collection stands to the model of its threads between two calls. -/
structure ThreadsOf (s : Collection J) (t : ThreadState) : Prop where
  threads : s.HasThreads t
  idle : s.PlainIdle
  nodup : s.mRunning.Nodup

theorem ThreadsOf.start {headers : List Str} {now : Int} {ok : Str → Bool} {s s' : Collection J}
    {t : ThreadState} (h : s.ThreadsOf t) (hs : s.start headers now ok = some s') :
    ∃ t', t.start ok = some t' ∧ s'.ThreadsOf t' := by
  obtain ⟨t', ht', hthreads⟩ := start_threads h.nodup h.threads hs
  obtain ⟨collectors, hcollectors, rfl⟩ := Option.map_eq_some_iff.mp hs
  refine ⟨t', ht', hthreads, fun name c' hc' hplain => ?_, h.nodup⟩
  dsimp only at hc'
  rw [OrdMap.find?_updateAll h.nodup hcollectors] at hc'
  split at hc'
  · obtain ⟨c, hc, hlaunch⟩ := Option.bind_eq_some_iff.mp hc'
    obtain ⟨-, hsame, hafter⟩ := launch_thread hlaunch
    rw [hsame] at hplain
    refine eq_false_of_ne_true fun hthread => ?_
    rcases hafter.mp hthread with hold | ⟨-, hthreaded⟩
    · rw [h.idle name c hc hplain] at hold
      cases hold
    · rw [hplain] at hthreaded
      cases hthreaded
  · exact h.idle name c' hc' hplain

theorem ThreadsOf.sample {x : Sampling} {s s' : Collection J} {t : ThreadState}
    (h : s.ThreadsOf t) (hs : s.sample x = some s') : s'.ThreadsOf t := by
  obtain ⟨hrel, hrunning⟩ := sample_sameThread h.nodup hs
  refine ⟨⟨h.threads.mRunning.trans hrunning.symm, fun name c' hc' => ?_⟩,
    fun name c' hc' hplain => ?_, hrunning ▸ h.nodup⟩
  · obtain ⟨c, hc, hthreaded, hthread⟩ := exists_of_rel hrel hc'
    rw [hthreaded, hthread]
    exact h.threads.collectors name c hc
  · obtain ⟨c, hc, hthreaded, hthread⟩ := exists_of_rel hrel hc'
    rw [hthread]
    exact h.idle name c hc (hthreaded ▸ hplain)

theorem ThreadsOf.stop {s s' : Collection J} {t : ThreadState} (h : s.ThreadsOf t)
    (hs : s.stop = some s') : ∃ valid t', t.stop valid = some t' ∧ s'.ThreadsOf t' := by
  obtain ⟨valid, t', ht', hthreads⟩ := stop_threads h.nodup h.threads hs h.idle
  obtain ⟨collectors, hcollectors, rfl⟩ := Option.map_eq_some_iff.mp hs
  refine ⟨valid, t', ht', hthreads, fun name c' hc' hplain => ?_, h.nodup.filter _⟩
  dsimp only at hc'
  rw [OrdMap.find?_updateAll h.nodup hcollectors] at hc'
  split at hc'
  · obtain ⟨c, -, hhalt⟩ := Option.bind_eq_some_iff.mp hc'
    obtain ⟨⟨valid, c₁⟩, hhalted, rfl⟩ := Option.map_eq_some_iff.mp hhalt
    exact (halt_thread hhalted).2
  · exact h.idle name c' hc' hplain

/-- A run of the collection is a cycle of its threads. -/
theorem ThreadsOf.run {s s' : Collection J} {t : ThreadState} {r : Run} (h : s.ThreadsOf t)
    (hs : Misc.run step s r.ops = some s') :
    ∃ valid t', t.cycle ⟨r.ok, valid⟩ = some t' ∧ s'.ThreadsOf t' := by
  obtain ⟨s₁, s₂, hs₁, hs₂, hstop⟩ := run_ops_eq_some.mp hs
  obtain ⟨t₁, ht₁, h₁⟩ := h.start hs₁
  have h₂ : s₂.ThreadsOf t₁ := by
    have hsample : ∀ (a : Collection J) (x : Sampling) (b : Collection J),
        a.ThreadsOf t₁ → Collection.sample a x = some b → b.ThreadsOf t₁ :=
      fun _ _ _ ha hb => ha.sample hb
    exact run_invariant hsample h₁ hs₂
  obtain ⟨valid, t', ht', h'⟩ := h₂.stop hstop
  exact ⟨valid, t', by rw [ThreadState.cycle, ht₁, Option.bind_some, ht'], h'⟩

/-- A process that survives some runs of a collection of generic collectors has paired the threads:
    in every run each threaded collector that was running has started, and `stop()` has joined its
    thread. -/
theorem threadsPaired_runs {s u : Collection J} (hfresh : s.Fresh) {t : ThreadState}
    (hidle : t.Idle) (hthreads : s.HasThreads t) {runs : List Run}
    (hrun : run step s (runs.flatMap Run.ops) = some u) :
    ∃ cycles : List Cycle, cycles.map Cycle.ok = runs.map Run.ok ∧
      StepsMeet ThreadState.cycle ThreadState.Launches t cycles ∧
      t.ThreadsPaired (alternating cycles none) := by
  have hcycles : ∀ (runs : List Run) (s : Collection J) (t : ThreadState), t.Settled →
      s.ThreadsOf t → run step s (runs.flatMap Run.ops) = some u →
        ∃ cycles : List Cycle, cycles.map Cycle.ok = runs.map Run.ok ∧
          StepsMeet ThreadState.cycle ThreadState.Launches t cycles := by
    intro runs
    induction runs with
    | nil => exact fun s t _ _ _ => ⟨[], rfl, trivial⟩
    | cons r runs ih =>
      intro s t hsettled h hrun
      rw [List.flatMap_cons] at hrun
      obtain ⟨s₁, hs₁, hrest⟩ := run_append_eq_some.mp hrun
      obtain ⟨valid, t₁, ht₁, h₁⟩ := h.run hs₁
      have hlaunches : t.Launches ⟨r.ok, valid⟩ := by
        by_contra hnot
        rw [ThreadState.cycle_eq_none hsettled hnot] at ht₁
        cases ht₁
      obtain ⟨t₂, ht₂, hsettled₂, -⟩ := ThreadState.cycle_spec hsettled hlaunches
      obtain rfl := Option.some.inj (ht₁.symm.trans ht₂)
      obtain ⟨cycles, hok, hmeet⟩ := ih s₁ t₁ hsettled₂ h₁ hrest
      refine ⟨⟨r.ok, valid⟩ :: cycles, by rw [List.map_cons, hok]; rfl, hlaunches, ?_⟩
      intro t' ht'
      obtain rfl := Option.some.inj (ht₁.symm.trans ht')
      exact hmeet
  have hplain : s.PlainIdle := fun name c hc _ => (hfresh.collectors name c hc).2.2
  obtain ⟨cycles, hok, hmeet⟩ :=
    hcycles runs s t hidle.settled ⟨hthreads, hplain, hfresh.nodup⟩ hrun
  exact ⟨cycles, hok, hmeet,
    (ThreadState.threadsPaired_settled hidle.settled cycles none).mpr hmeet⟩

end Collection

end LibCollector.Interface
