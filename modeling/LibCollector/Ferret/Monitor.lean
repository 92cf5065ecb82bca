import LibCollector.Ferret.Status

/-!
# The watcher of a run

`monitor` of `src/burrow.cpp` reads the statuses that the collector writes to a pipe, while the
thread of the collector makes its calls. In every order of calls and reads, what burrow prints and
returns is decided by the statuses that the collector reports first (`MonitorRun.monitor_outcome`).
-/

namespace LibCollector.Ferret

open LibCollector.Misc

/-- What `monitor` prints about the process. -/
inductive MonitorLine where
  | timedOut
  | finished
  | inProgress
  deriving DecidableEq

/-- The variables of `monitor` after a successful `initialize()`. -/
structure Monitor where
  lastStatus : Int := -99
  finished : Bool := false
  success : Bool := true
  lines : List MonitorLine := []
  deriving DecidableEq

/-- What `monitor` does with a status that it has read. -/
def Monitor.receive (m : Monitor) (status : Int) : Monitor :=
  if status ≠ m.lastStatus then
    if status = -1 then
      { lastStatus := status, finished := true, success := false, lines := m.lines ++ [.timedOut] }
    else if status = 0 then
      { m with lastStatus := status, finished := true, lines := m.lines ++ [.finished] }
    else { m with lastStatus := status, lines := m.lines ++ [.inProgress] }
  else m

/-- The collector with the static `lastStatus` of `notify`, the watcher, and how many of the
    written statuses it has read. -/
structure MonitorRun where
  last : Int
  run : StatusRun
  monitor : Monitor
  reads : Nat

/-- A call of the thread of the collector, or a `read` of the watcher. -/
inductive MonitorAction where
  | collect (env : Proc)
  | read

def MonitorAction.isRead : MonitorAction → Bool
  | .collect _ => false
  | .read => true

namespace MonitorRun

/-- A collector that has started, in a process that has not notified before. -/
def new (c : FerretCollector) : MonitorRun where
  last := -99
  run := .new c
  monitor := {}
  reads := 0

/-- A read of an empty pipe blocks, and there is none after the loop of the watcher. -/
def step (s : MonitorRun) : MonitorAction → Option MonitorRun
  | .collect env =>
    (s.run.collect env s.last).map fun r => { s with last := r.1, run := r.2 }
  | .read =>
    if s.monitor.finished then some s
    else
      match s.run.written[s.reads]? with
      | none => some s
      | some status =>
        some { s with monitor := s.monitor.receive status, reads := s.reads + 1 }

/-- The pipe, by what the collector has reported: nothing, a timeout first, only the presence of
    the process, or its presence and its exit. -/
inductive Reports (s : MonitorRun) : Prop where
  | nothing (written : s.run.written = []) (reported : s.run.reported = []) (last : s.last = -99)
  | timedOut (written : s.run.written.head? = some (-1)) (reported : -1 ∈ s.run.reported)
  | present (written : s.run.written = [1]) (reported : ∀ status ∈ s.run.reported, status = 1)
      (last : s.last = 1) (found : s.run.collector.mWatchList = [])
  | exited (written : [1, 0] <+: s.run.written) (reported : 0 ∈ s.run.reported)
      (noTimeout : -1 ∉ s.run.reported) (found : s.run.collector.mWatchList = [])

/-- The watcher, by the statuses that it has read. -/
inductive Watches (s : MonitorRun) : Prop where
  | nothing (reads : s.reads = 0) (monitor : s.monitor = {})
  | present (reads : s.reads = 1) (head : s.run.written.head? = some 1)
      (monitor : s.monitor = { lastStatus := 1, lines := [.inProgress] })
  | timedOut (head : s.run.written.head? = some (-1))
      (monitor : s.monitor =
        { lastStatus := -1, finished := true, success := false, lines := [.timedOut] })
  | exited (head : [1, 0] <+: s.run.written)
      (monitor : s.monitor =
        { lastStatus := 0, finished := true, lines := [.inProgress, .finished] })

/-- The watcher can write to the pipe, and both have kept to the protocol. -/
structure Inv (s : MonitorRun) : Prop where
  fd : 0 ≤ s.run.collector.mStatusFd
  reports : s.Reports
  watches : s.Watches

variable {s t : MonitorRun}

theorem Watches.written (h : s.Watches) {r : StatusRun} {last : Int}
    (hwritten : s.run.written <+: r.written) :
    Watches { s with last := last, run := r } := by
  have hhead : ∀ status, s.run.written.head? = some status → r.written.head? = some status := by
    intro status hs
    obtain ⟨rest, hrest⟩ := hwritten
    rw [← hrest, List.head?_append, hs]
    rfl
  cases h with
  | nothing reads monitor => exact .nothing reads monitor
  | present reads head monitor => exact .present reads (hhead 1 head) monitor
  | timedOut head monitor => exact .timedOut (hhead (-1) head) monitor
  | exited head monitor => exact .exited (head.trans hwritten) monitor

/-- A call of the collector. -/
theorem Inv.collect (h : s.Inv) {env : Proc} {r : Int × StatusRun}
    (hcollect : s.run.collect env s.last = some r) : Inv { s with last := r.1, run := r.2 } := by
  obtain ⟨statuses, -, hlast, hwritten, hreported, hfd, hkind⟩ :=
    StatusRun.collect_eq_some hcollect
  rw [notifyAll_of_nonneg h.fd] at hlast hwritten
  refine ⟨?_, ?_, h.watches.written ⟨_, hwritten.symm⟩⟩
  · show 0 ≤ r.2.collector.mStatusFd
    rw [hfd]
    exact h.fd
  · cases h.reports with
    | nothing written reported last =>
      rw [written, last, List.nil_append] at hwritten
      rw [reported, List.nil_append] at hreported
      rw [last] at hlast
      rcases hkind with ⟨-, -, rfl | rfl⟩ | ⟨hfound, rfl | rfl⟩
      · exact .nothing hwritten hreported hlast
      · exact .timedOut (by rw [hwritten]; rfl) (by simp [hreported])
      · exact .present hwritten (by simp [hreported]) hlast hfound
      · exact .exited (by rw [hwritten]; exact List.prefix_refl _) (by simp [hreported])
          (by simp [hreported]) hfound
    | timedOut written reported =>
      refine .timedOut ?_ ?_
      · rw [hwritten, List.head?_append, written]
        rfl
      · rw [hreported]
        exact List.mem_append_left _ reported
    | present written reported last found =>
      rcases hkind with ⟨-, hwatch, -⟩ | ⟨hfound, rfl | rfl⟩
      · exact absurd found hwatch
      · rw [written, last] at hwritten
        refine .present hwritten (fun status hstatus => ?_) hlast hfound
        rw [hreported] at hstatus
        rcases List.mem_append.mp hstatus with hstatus | hstatus
        · exact reported status hstatus
        · exact List.mem_singleton.mp hstatus
      · rw [written, last] at hwritten
        refine .exited (by rw [hwritten]; exact List.prefix_refl _) (by simp [hreported])
          (fun hmem => ?_) hfound
        rw [hreported] at hmem
        rcases List.mem_append.mp hmem with hmem | hmem
        · exact absurd (reported _ hmem) (by decide)
        · simp at hmem
    | exited written reported noTimeout found =>
      rcases hkind with ⟨-, hwatch, -⟩ | ⟨hfound, hkind⟩
      · exact absurd found hwatch
      · refine .exited (written.trans ⟨_, hwritten.symm⟩) ?_ (fun hmem => ?_) hfound
        · rw [hreported]
          exact List.mem_append_left _ reported
        · rw [hreported] at hmem
          rcases List.mem_append.mp hmem with hmem | hmem
          · exact noTimeout hmem
          · rcases hkind with rfl | rfl <;> simp at hmem

/-- A read of the watcher. -/
theorem Inv.read (h : s.Inv) :
    ∃ t, s.step .read = some t ∧ t.Inv ∧ t.run = s.run ∧
      (s.monitor.finished = true → t.monitor.finished = true) ∧
      (s.monitor.finished = false → s.run.written[s.reads]? ≠ none → t.reads = s.reads + 1) := by
  rw [step]
  by_cases hfinished : s.monitor.finished = true
  · exact ⟨s, if_pos hfinished, h, rfl, id, fun hnot => by simp [hfinished] at hnot⟩
  · rw [if_neg hfinished]
    cases hnext : s.run.written[s.reads]? with
    | none => exact ⟨s, rfl, h, rfl, id, fun _ hne => absurd rfl hne⟩
    | some status =>
      refine ⟨_, rfl, ⟨h.fd, ?_, ?_⟩, rfl, fun h => absurd h hfinished, fun _ _ => rfl⟩
      · cases h.reports with
        | nothing written reported last => exact .nothing written reported last
        | timedOut written reported => exact .timedOut written reported
        | present written reported last found => exact .present written reported last found
        | exited written reported noTimeout found =>
          exact .exited written reported noTimeout found
      · cases h.watches with
        | nothing reads monitor =>
          rw [reads, ← List.head?_eq_getElem?] at hnext
          have hfirst : status = -1 ∨ status = 1 := by
            cases h.reports with
            | nothing written =>
              rw [written] at hnext
              cases hnext
            | timedOut written =>
              rw [written] at hnext
              exact Or.inl (Option.some.inj hnext).symm
            | present written =>
              rw [written] at hnext
              exact Or.inr (Option.some.inj hnext).symm
            | exited written =>
              obtain ⟨rest, hrest⟩ := written
              rw [← hrest] at hnext
              exact Or.inr (Option.some.inj hnext).symm
          rcases hfirst with rfl | rfl
          · exact .timedOut hnext (by rw [monitor]; rfl)
          · exact .present (congrArg (· + 1) reads) hnext (by rw [monitor]; rfl)
        | present reads head monitor =>
          rw [reads] at hnext
          cases h.reports with
          | nothing written =>
            rw [written] at hnext
            cases hnext
          | timedOut written =>
            rw [written] at head
            cases head
          | present written =>
            rw [written] at hnext
            cases hnext
          | exited written =>
            have hzero : status = 0 := by
              obtain ⟨rest, hrest⟩ := written
              rw [← hrest] at hnext
              exact (Option.some.inj hnext).symm
            subst hzero
            exact .exited written (by rw [monitor]; rfl)
        | timedOut head monitor =>
          rw [monitor] at hfinished
          exact absurd rfl hfinished
        | exited head monitor =>
          rw [monitor] at hfinished
          exact absurd rfl hfinished

theorem Inv.step (h : s.Inv) {action : MonitorAction} (hstep : s.step action = some t) : t.Inv := by
  cases action with
  | collect env =>
    obtain ⟨r, hr, rfl⟩ := Option.map_eq_some_iff.mp hstep
    exact h.collect hr
  | read =>
    obtain ⟨t', ht', hinv, -, -⟩ := h.read
    obtain rfl := Option.some.inj (ht'.symm.trans hstep)
    exact hinv

theorem inv_new {c : FerretCollector} (hfd : 0 ≤ c.mStatusFd) : (new c).Inv where
  fd := hfd
  reports := .nothing rfl rfl rfl
  watches := .nothing rfl rfl

theorem inv_run {c : FerretCollector} (hfd : 0 ≤ c.mStatusFd) {actions : List MonitorAction}
    (hrun : Misc.run MonitorRun.step (new c) actions = some s) : s.Inv :=
  run_invariant (fun _ _ _ h hstep => h.step hstep) (inv_new hfd) hrun

/-- The collector has reported a timeout or an exit. -/
def Decided (s : MonitorRun) : Prop := -1 ∈ s.run.reported ∨ 0 ∈ s.run.reported

/-- While the watcher reads, it has read one status at most, and when it is decided there is
    another one. -/
theorem Inv.unfinished (h : s.Inv) (hfinished : s.monitor.finished = false) :
    s.reads ≤ 1 ∧ (s.Decided → s.run.written[s.reads]? ≠ none) := by
  cases h.watches with
  | nothing reads monitor =>
    rw [reads]
    refine ⟨Nat.zero_le _, fun hdecided => ?_⟩
    rw [← List.head?_eq_getElem?]
    cases h.reports with
    | nothing written reported =>
      rw [Decided, reported] at hdecided
      simp at hdecided
    | timedOut written => simp [written]
    | present written => simp [written]
    | exited written =>
      obtain ⟨rest, hrest⟩ := written
      simp [← hrest]
  | present reads head monitor =>
    rw [reads]
    refine ⟨Nat.le_refl _, fun hdecided => ?_⟩
    cases h.reports with
    | nothing written reported =>
      rw [Decided, reported] at hdecided
      simp at hdecided
    | timedOut written =>
      rw [written] at head
      cases head
    | present written reported =>
      rcases hdecided with hmem | hmem
      · exact absurd (reported _ hmem) (by decide)
      · exact absurd (reported _ hmem) (by decide)
    | exited written =>
      obtain ⟨rest, hrest⟩ := written
      simp [← hrest]
  | timedOut head monitor =>
    rw [monitor] at hfinished
    cases hfinished
  | exited head monitor =>
    rw [monitor] at hfinished
    cases hfinished

/-- What is decided stays so. -/
theorem Decided.step (h : s.Decided) {action : MonitorAction} (hstep : s.step action = some t) :
    t.Decided := by
  cases action with
  | collect env =>
    obtain ⟨r, hr, rfl⟩ := Option.map_eq_some_iff.mp hstep
    obtain ⟨statuses, -, -, -, hreported, -⟩ := StatusRun.collect_eq_some hr
    show -1 ∈ r.2.reported ∨ 0 ∈ r.2.reported
    rw [hreported]
    exact h.imp (List.mem_append_left _) (List.mem_append_left _)
  | read =>
    rw [MonitorRun.step] at hstep
    by_cases hfinished : s.monitor.finished = true
    · rw [if_pos hfinished] at hstep
      exact Option.some.inj hstep ▸ h
    · rw [if_neg hfinished] at hstep
      cases hnext : s.run.written[s.reads]? with
      | none =>
        rw [hnext] at hstep
        exact Option.some.inj hstep ▸ h
      | some status =>
        rw [hnext] at hstep
        obtain rfl := Option.some.inj hstep
        exact h

/-- Two reads bring the watcher to the end of the statuses that count, with any calls of the
    collector before, between and after them. -/
theorem Inv.finished_of_reads (h : s.Inv) (hdecided : s.Decided) {actions : List MonitorAction}
    (hrun : Misc.run MonitorRun.step s actions = some t)
    (hreads : s.monitor.finished = true ∨ 2 ≤ s.reads + actions.countP MonitorAction.isRead) :
    t.monitor.finished = true := by
  induction actions generalizing s with
  | nil =>
    obtain rfl := Option.some.inj hrun
    by_contra hnot
    have hle := (h.unfinished (by simpa using hnot)).1
    rcases hreads with hfinished | hreads
    · exact hnot hfinished
    · rw [List.countP_nil] at hreads
      omega
  | cons action actions ih =>
    obtain ⟨mid, hmid, hrest⟩ := run_cons_eq_some.mp hrun
    refine ih (h.step hmid) (hdecided.step hmid) hrest ?_
    cases action with
    | collect env =>
      obtain ⟨r, -, rfl⟩ := Option.map_eq_some_iff.mp hmid
      rwa [List.countP_cons_of_neg (by simp [MonitorAction.isRead])] at hreads
    | read =>
      obtain ⟨mid', hmid', -, -, hkeeps, hnext⟩ := h.read
      obtain rfl := Option.some.inj (hmid'.symm.trans hmid)
      by_cases hfinished : s.monitor.finished = true
      · exact Or.inl (hkeeps hfinished)
      · have hunfinished : s.monitor.finished = false := by simpa using hfinished
        rw [hnext hunfinished ((h.unfinished hunfinished).2 hdecided)]
        rw [List.countP_cons_of_pos (by rfl)] at hreads
        have hcount := hreads.resolve_left hfinished
        exact Or.inr (by omega)

/-- The watcher can always read twice. -/
theorem Inv.two_reads (h : s.Inv) :
    ∃ t, Misc.run MonitorRun.step s [.read, .read] = some t ∧ t.Inv ∧ t.run = s.run := by
  obtain ⟨mid, hmid, hinv, hrun, -, -⟩ := h.read
  obtain ⟨t, ht, hinv', hrun', -, -⟩ := hinv.read
  exact ⟨t, run_cons_eq_some.mpr ⟨mid, hmid, run_cons_eq_some.mpr ⟨t, ht, rfl⟩⟩, hinv',
    hrun'.trans hrun⟩

/-- When the watcher has finished, what it has read is what has been reported. -/
theorem Inv.finished (h : s.Inv) (hfinished : s.monitor.finished = true) :
    (s.monitor.success = false ∧ s.monitor.lines = [.timedOut] ∧ -1 ∈ s.run.reported) ∨
    (s.monitor.success = true ∧ s.monitor.lines = [.inProgress, .finished] ∧
      0 ∈ s.run.reported ∧ -1 ∉ s.run.reported) := by
  cases h.watches with
  | nothing reads monitor =>
    rw [monitor] at hfinished
    cases hfinished
  | present reads head monitor =>
    rw [monitor] at hfinished
    cases hfinished
  | timedOut head monitor =>
    refine Or.inl ⟨by rw [monitor], by rw [monitor], ?_⟩
    cases h.reports with
    | nothing written =>
      rw [written] at head
      cases head
    | timedOut written reported => exact reported
    | present written =>
      rw [written] at head
      cases head
    | exited written =>
      obtain ⟨rest, hrest⟩ := written
      rw [← hrest] at head
      cases head
  | exited head monitor =>
    obtain ⟨rest, hrest⟩ := head
    refine Or.inr ⟨by rw [monitor], by rw [monitor], ?_⟩
    cases h.reports with
    | nothing written =>
      rw [written] at hrest
      cases hrest
    | timedOut written =>
      rw [← hrest] at written
      cases written
    | present written =>
      rw [written] at hrest
      cases hrest
    | exited written reported noTimeout => exact ⟨reported, noTimeout⟩

/-- In every order of the calls of the collector and the reads of burrow: burrow ends its loop only
    after the collector has reported a timeout or an exit, and it has done so when it has read
    twice from then on, whatever calls are made meanwhile. It then returns false exactly when a
    timeout has been reported, and has printed that alone, or that the process was there and has
    finished. -/
theorem monitor_outcome {c : FerretCollector} (hfd : 0 ≤ c.mStatusFd) {actions : List MonitorAction}
    (hrun : Misc.run MonitorRun.step (new c) actions = some s) :
    (s.monitor.finished = true →
      (s.monitor.success = false ∧ s.monitor.lines = [.timedOut] ∧ -1 ∈ s.run.reported) ∨
      (s.monitor.success = true ∧ s.monitor.lines = [.inProgress, .finished] ∧
        0 ∈ s.run.reported ∧ -1 ∉ s.run.reported)) ∧
    (∀ later t, Misc.run MonitorRun.step s later = some t →
      2 ≤ later.countP MonitorAction.isRead → -1 ∈ s.run.reported ∨ 0 ∈ s.run.reported →
        t.monitor.finished = true) ∧
    ∃ t, Misc.run MonitorRun.step s [.read, .read] = some t ∧
      (t.monitor.finished = true ↔ -1 ∈ s.run.reported ∨ 0 ∈ s.run.reported) := by
  have h := inv_run hfd hrun
  obtain ⟨t, ht, hinv, hsame⟩ := h.two_reads
  refine ⟨h.finished, fun later t' ht' hreads hdecided => ?_, t, ht, fun hfinished => ?_,
    fun hdecided => h.finished_of_reads hdecided ht (Or.inr (Nat.le_add_left _ _))⟩
  · exact h.finished_of_reads hdecided ht' (Or.inr (by omega))
  · rcases hinv.finished hfinished with ⟨-, -, hmem⟩ | ⟨-, -, hmem, -⟩
    · exact Or.inl (hsame ▸ hmem)
    · exact Or.inr (hsame ▸ hmem)

/-- Burrow reads while `app` is found and exits, once before and once after a later call. -/
theorem monitor_outcome_app_exits :
    ∃ s t, Misc.run MonitorRun.step (new appCollector)
        [.read, .collect (appRuns 1), .collect (Proc.bare 2)] = some s ∧
      Misc.run MonitorRun.step s [.read, .collect (Proc.bare 3), .read] = some t ∧
      t.monitor.finished = true ∧ s.monitor.finished = false ∧
      ((s.monitor.finished = true →
        (s.monitor.success = false ∧ s.monitor.lines = [.timedOut] ∧ -1 ∈ s.run.reported) ∨
        (s.monitor.success = true ∧ s.monitor.lines = [.inProgress, .finished] ∧
          0 ∈ s.run.reported ∧ -1 ∉ s.run.reported)) ∧
      ∃ u, Misc.run MonitorRun.step s [.read, .read] = some u ∧
        (u.monitor.finished = true ↔ -1 ∈ s.run.reported ∨ 0 ∈ s.run.reported)) := by
  have hrun : ((Misc.run MonitorRun.step (new appCollector)
      [.read, .collect (appRuns 1), .collect (Proc.bare 2)]).bind fun s =>
        (Misc.run MonitorRun.step s [.read, .collect (Proc.bare 3), .read]).map fun t =>
          (decide (0 ∈ s.run.reported), s.monitor.finished)) = some (true, false) := by decide
  obtain ⟨s, hs, hlater⟩ := Option.bind_eq_some_iff.mp hrun
  obtain ⟨t, ht, hboth⟩ := Option.map_eq_some_iff.mp hlater
  have hreported : 0 ∈ s.run.reported := by simpa using congrArg Prod.fst hboth
  obtain ⟨hfinished, hlast, hreads⟩ := monitor_outcome (by decide) hs
  exact ⟨s, t, hs, ht, hlast _ t ht (by decide) (Or.inr hreported), congrArg Prod.snd hboth,
    hfinished, hreads⟩

end MonitorRun

end LibCollector.Ferret
