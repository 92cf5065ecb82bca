import LibCollector.Ferret.Lifecycle

/-!
# Which threads a call samples

`enumerate_tasks` and `open_pid_fd` look up each listed thread in `mPidFdMap`, and
open its `stat` file when it is not there; `collect_perproc` then writes a row for
each descriptor that reads. An entry of the map is never removed, so a thread that
takes the id of one that has exited is found under the descriptor of the old one.
`samplesThreads_iff` says which entries of the map that spoils,
`samplesThreads_iff_stepsMeet` for whole runs of a collector.
-/

namespace LibCollector.Ferret

open LibCollector.Misc

/-! ## The threads that are listed -/

/-- An entry of a task directory: the number of the enumeration, the directory, the thread. -/
structure Thread where
  enumeration : Nat
  dir : Str
  tid : Str
  deriving DecidableEq

/-- The numeric entries of the task directory of a process. -/
def tasksOf (env : Proc) (i : Nat) (pid : Str) : List Thread :=
  (((env.tasks i (taskDir pid)).getD []).filter fun d => d.head?.any Char.isDigit).map
    fun d => ⟨i, taskDir pid, d⟩

/-- The numeric entries of the task directories of `pids`, enumerated with the numbers from `i`
    on. -/
def threadsOf (env : Proc) : Nat → List Str → List Thread
  | _, [] => []
  | i, pid :: pids => tasksOf env i pid ++ threadsOf env (i + 1) pids

/-- The descriptor that opening the `stat` file of a thread gives, if it can be opened. -/
def statFd (env : Proc) (t : Thread) : Option Int :=
  let r := env.openStat t.enumeration t.dir t.tid
  if 0 ≤ r.fd ∧ env.seekOk r.fd = true then some r.fd else none

/-- The descriptor of the first successful opening of a `stat` file of thread `tid`. -/
def firstFd (env : Proc) (ts : List Thread) (tid : Str) : Option Int :=
  ts.findSome? fun t => if t.tid = tid then statFd env t else none

/-- `open_pid_fd` for each of `ts`. -/
def openThreads (env : Proc) : List Thread → OrdMap Str Int →
    Option (OrdMap Str Int × List OpenCall)
  | [], m => some (m, [])
  | t :: ts, m =>
    (openPidFd env t.enumeration t.dir t.tid m).bind fun r =>
      (openThreads env ts r.2).map fun rest =>
        (rest.1, ⟨t.tid, r.1, r.2.find? t.tid⟩ :: rest.2)

theorem openThreads_append (env : Proc) (ts us : List Thread) (m : OrdMap Str Int) :
    openThreads env (ts ++ us) m =
      (openThreads env ts m).bind fun r =>
        (openThreads env us r.1).map fun rest => (rest.1, r.2 ++ rest.2) := by
  induction ts generalizing m with
  | nil => simp [openThreads]
  | cons t ts ih =>
    simp only [List.cons_append, openThreads, ih]
    cases openPidFd env t.enumeration t.dir t.tid m with
    | none => rfl
    | some r =>
      simp only [Option.bind_some]
      cases openThreads env ts r.2 with
      | none => rfl
      | some r' =>
        simp only [Option.bind_some, Option.map_some]
        cases openThreads env us r'.1 <;> rfl

theorem openTasks_eq (env : Proc) (i : Nat) (dir : Str) (ds : List Str) (m : OrdMap Str Int) :
    openTasks env i dir ds m =
      openThreads env ((ds.filter fun d => d.head?.any Char.isDigit).map fun d => ⟨i, dir, d⟩) m
    := by
  induction ds generalizing m with
  | nil => rfl
  | cons d ds ih =>
    by_cases hd : d.head?.any Char.isDigit = true
    · simp only [openTasks, hd, if_true, List.filter_cons, List.map_cons, openThreads, ih]
    · simp only [openTasks, hd, List.filter_cons, ih]
      rfl

theorem enumerateTasks_eq (env : Proc) (i : Nat) (pid : Str) (m : OrdMap Str Int) :
    enumerateTasks env i pid m = openThreads env (tasksOf env i pid) m := by
  rw [enumerateTasks, tasksOf]
  cases env.tasks i (taskDir pid) with
  | none => rfl
  | some ds => exact openTasks_eq env i (taskDir pid) ds m

/-- All the enumerations of a call are one walk over the threads they list. -/
theorem enumerateAll_eq (env : Proc) (i : Nat) (pids : List Str) (m : OrdMap Str Int) :
    enumerateAll env i pids m = openThreads env (threadsOf env i pids) m := by
  induction pids generalizing i m with
  | nil => rfl
  | cons pid pids ih =>
    simp only [enumerateAll, threadsOf, openThreads_append, enumerateTasks_eq, ih]

/-! ## What the walk does to the map -/

/-- `open_pid_fd` adds the thread if it is missing and can be opened, and returns whether it is in
    the map then. -/
theorem openPidFd_spec {env : Proc} {t : Thread} {m : OrdMap Str Int}
    {r : Bool × OrdMap Str Int}
    (h : openPidFd env t.enumeration t.dir t.tid m = some r) :
    r.1 = (r.2.find? t.tid).isSome ∧
    ∀ k, r.2.find? k = (m.find? k).or (if t.tid = k then statFd env t else none) := by
  unfold openPidFd at h
  dsimp only at h
  by_cases hm : m.find? t.tid = none
  · rw [if_pos hm] at h
    have hnone : statFd env t = none → ∀ k,
        m.find? k = (m.find? k).or (if t.tid = k then statFd env t else none) := by
      intro hstat k
      rw [hstat, ite_self, Option.or_none]
    by_cases hfd : (env.openStat t.enumeration t.dir t.tid).fd < 0
    · rw [if_pos hfd] at h
      split at h
      · cases h
      · cases h
        refine ⟨by rw [hm]; rfl, hnone ?_⟩
        simp [statFd, not_le.mpr hfd]
    · rw [if_neg hfd] at h
      by_cases hseek : env.seekOk (env.openStat t.enumeration t.dir t.tid).fd = true
      · rw [if_pos hseek] at h
        cases h
        refine ⟨by simp, fun k => ?_⟩
        have hstat : statFd env t = some (env.openStat t.enumeration t.dir t.tid).fd :=
          if_pos ⟨not_lt.mp hfd, hseek⟩
        rw [OrdMap.find?_insert, hstat]
        by_cases hk : k = t.tid
        · rw [hk, hm, if_pos rfl, if_pos rfl]
          rfl
        · rw [if_neg hk, if_neg (Ne.symm hk), Option.or_none]
      · rw [if_neg hseek] at h
        cases h
        refine ⟨by rw [hm]; rfl, hnone ?_⟩
        simp [statFd, hseek]
  · rw [if_neg hm] at h
    cases h
    refine ⟨by simp [Option.isSome_iff_ne_none, hm], fun k => ?_⟩
    by_cases hk : t.tid = k
    · rw [if_pos hk, ← hk]
      obtain ⟨fd, hfd⟩ := Option.ne_none_iff_exists'.mp hm
      rw [hfd]
      rfl
    · rw [if_neg hk, Option.or_none]

/-- After the walk, a thread is mapped to the descriptor it had, or else to the first one that
    could be opened. -/
theorem openThreads_find? {env : Proc} {ts : List Thread} {m : OrdMap Str Int}
    {r : OrdMap Str Int × List OpenCall} (h : openThreads env ts m = some r) (k : Str) :
    r.1.find? k = (m.find? k).or (firstFd env ts k) := by
  induction ts generalizing m r with
  | nil =>
    cases h
    exact (Option.or_none).symm
  | cons t ts ih =>
    obtain ⟨s, hs, h⟩ := Option.bind_eq_some_iff.mp h
    obtain ⟨rest, hrest, rfl⟩ := Option.map_eq_some_iff.mp h
    have hhead := (openPidFd_spec hs).2 k
    have hfirst : firstFd env (t :: ts) k =
        (if t.tid = k then statFd env t else none).or (firstFd env ts k) := by
      simp only [firstFd, List.findSome?_cons]
      cases (if t.tid = k then statFd env t else none) <;> rfl
    rw [ih hrest, hhead, Option.or_assoc, hfirst]

/-- The calls of `open_pid_fd` during the walk. -/
theorem openThreads_calls {env : Proc} {ts : List Thread} {m : OrdMap Str Int}
    {r : OrdMap Str Int × List OpenCall} (h : openThreads env ts m = some r) :
    r.2.map OpenCall.pid = ts.map Thread.tid ∧
    ∀ call ∈ r.2, call.returned = call.mapped.isSome ∧
      (∀ fd, call.mapped = some fd → r.1.find? call.pid = some fd) ∧
      (∀ fd, m.find? call.pid = some fd → call.mapped = some fd) := by
  induction ts generalizing m r with
  | nil =>
    cases h
    exact ⟨rfl, by simp⟩
  | cons t ts ih =>
    obtain ⟨s, hs, h⟩ := Option.bind_eq_some_iff.mp h
    obtain ⟨rest, hrest, rfl⟩ := Option.map_eq_some_iff.mp h
    obtain ⟨hreturned, hfind⟩ := openPidFd_spec hs
    obtain ⟨hpids, hcalls⟩ := ih hrest
    refine ⟨by simp [hpids], fun call hcall => ?_⟩
    rcases List.mem_cons.mp hcall with rfl | hcall
    · refine ⟨hreturned, fun fd hfd => ?_, fun fd hfd => ?_⟩
      · dsimp only at hfd
        rw [openThreads_find? hrest, hfd]
        rfl
      · dsimp only at hfd ⊢
        rw [hfind, hfd]
        rfl
    · obtain ⟨hret, hafter, hbefore⟩ := hcalls call hcall
      refine ⟨hret, hafter, fun fd hfd => hbefore fd ?_⟩
      rw [hfind, hfd]
      rfl

/-- No opening fails for want of file handles. -/
def EnoughHandles (env : Proc) : Prop := ∀ i dir tid, (env.openStat i dir tid).enfile = false

/-- With enough file handles, no assertion of the walk fails. -/
theorem openThreads_isSome {env : Proc} (henv : EnoughHandles env) (ts : List Thread)
    (m : OrdMap Str Int) : (openThreads env ts m).isSome := by
  induction ts generalizing m with
  | nil => rfl
  | cons t ts ih =>
    have hopen : (openPidFd env t.enumeration t.dir t.tid m).isSome := by
      unfold openPidFd
      simp only [henv t.enumeration t.dir t.tid, Bool.false_eq_true, if_false]
      split
      · split
        · rfl
        · split <;> rfl
      · rfl
    obtain ⟨r, hr⟩ := Option.isSome_iff_exists.mp hopen
    rw [openThreads, hr, Option.bind_some, Option.isSome_map]
    exact ih r.2

theorem statFd_nonneg {env : Proc} {t : Thread} {fd : Int} (h : statFd env t = some fd) :
    0 ≤ fd := by
  simp only [statFd] at h
  split at h
  · rename_i hok
    exact Option.some.inj h ▸ hok.1
  · cases h

theorem firstFd_eq_some {env : Proc} {ts : List Thread} {tid : Str} {fd : Int}
    (h : firstFd env ts tid = some fd) : ∃ t ∈ ts, t.tid = tid ∧ statFd env t = some fd := by
  obtain ⟨t, ht, hfd⟩ := List.exists_of_findSome?_eq_some h
  split at hfd
  · rename_i htid
    exact ⟨t, ht, htid, hfd⟩
  · cases hfd

theorem firstFd_isSome {env : Proc} {ts : List Thread} {t : Thread} (ht : t ∈ ts) {fd : Int}
    (h : statFd env t = some fd) : (firstFd env ts t.tid).isSome := by
  rw [firstFd, List.findSome?_isSome_iff]
  exact ⟨t, ht, by simp [h]⟩

/-! ## The rows of a sample -/

/-- A row that holds the fields of thread `tid`. -/
def Row.isStatOf (tid : Str) : Row → Bool
  | .stat pid _ => pid = tid
  | _ => false

/-- `collect_perproc` writes one row for a descriptor that reads, and none otherwise. -/
theorem countP_collectPerproc (env : Proc) (m : OrdMap Str Int) (tid : Str) :
    (collectPerproc env m).2.countP (Row.isStatOf tid) =
      if ∃ fd, m.find? tid = some fd ∧ 0 ≤ fd ∧ env.read fd ≠ [] then 1 else 0 := by
  have hother : ∀ (k : Str) (fd : Int), k ≠ tid → ∀ row ∈ perprocRow env k fd,
      Row.isStatOf tid row = false := by
    intro k fd hk row hrow
    simp only [perprocRow] at hrow
    split at hrow
    · cases hrow
    · split at hrow
      · cases List.mem_singleton.mp hrow
        rfl
      · cases List.mem_singleton.mp hrow
        exact decide_eq_false hk
  rw [collectPerproc, OrdMap.countP_flatMap hother]
  cases hfind : m.find? tid with
  | none => simp
  | some fd =>
    by_cases hfd : fd < 0
    · simp [perprocRow, hfd, not_le.mpr hfd]
    · by_cases hread : env.read fd = []
      · simp [perprocRow, hfd, hread, Row.isStatOf]
      · simp [perprocRow, hfd, hread, not_lt.mp hfd, Row.isStatOf]

/-- The frequency rows are no thread's. -/
theorem countP_collectFreqs (env : Proc) (m : OrdMap Int Int) (tid : Str) :
    (collectFreqs env m).countP (Row.isStatOf tid) = 0 := by
  simp only [collectFreqs]
  split <;> split <;> rfl

theorem countP_sampled {env : Proc} {last : Int} {c : FerretCollector}
    (opened : OrdMap Str Int × List OpenCall) (tid : Str) :
    (c.sampled env last opened).rows.countP (Row.isStatOf tid) =
      if ∃ fd, opened.1.find? tid = some fd ∧ 0 ≤ fd ∧ env.read fd ≠ [] then 1 else 0 := by
  have htime : Row.isStatOf tid (.time env.now) = false := rfl
  simp only [FerretCollector.sampled, List.countP_cons, List.cons_append, List.countP_append,
    countP_collectFreqs, countP_collectPerproc, htime, Bool.false_eq_true, if_false, Nat.zero_add,
    Nat.add_zero]

/-! ## Every live thread -/

/-- The `stat` file of a thread can be opened and read: some of the openings during the call
    succeed, and those that do give a descriptor that reads. -/
def Readable (env : Proc) (ts : List Thread) (tid : Str) : Prop :=
  (∃ t ∈ ts, t.tid = tid ∧ (statFd env t).isSome) ∧
  ∀ t ∈ ts, t.tid = tid → ∀ fd, statFd env t = some fd → env.read fd ≠ []

/-- A call that samples writes one row for each listed thread that can be read, and
    `open_pid_fd` returned true only for threads with a valid descriptor. -/
def SamplesThreads (env : Proc) (out : Outcome) : Prop :=
  out.collector.mWatchList = [] →
    (∀ t ∈ threadsOf env 0 (out.collector.mPid :: out.collector.mPids),
      Readable env (threadsOf env 0 (out.collector.mPid :: out.collector.mPids)) t.tid →
      out.rows.countP (Row.isStatOf t.tid) = 1) ∧
    ∀ call ∈ out.opened, call.returned = true → ∃ fd, call.mapped = some fd ∧ 0 ≤ fd

/-- The processes whose threads a call lists: its own, those found before, those found now. -/
def monitored (env : Proc) (c : FerretCollector) : List Str :=
  c.mPid :: (c.mPids ++ ((pollWatchList env 0 c.mWatchList).map Prod.snd).getD [])

/-- Before a call that samples: no listed thread is marked as gone, and the descriptor that a
    readable thread is mapped to still reads. -/
def FreshFds (env : Proc) (c : FerretCollector) : Prop :=
  (pollWatchList env 0 c.mWatchList).map Prod.fst = some [] →
  ∀ t ∈ threadsOf env 0 (monitored env c), ∀ fd, c.mPidFdMap.find? t.tid = some fd →
    0 ≤ fd ∧ (Readable env (threadsOf env 0 (monitored env c)) t.tid → env.read fd ≠ [])

theorem firstFd_of_readable {env : Proc} {ts : List Thread} {tid : Str}
    (h : Readable env ts tid) : ∃ fd, firstFd env ts tid = some fd ∧ 0 ≤ fd ∧ env.read fd ≠ [] := by
  obtain ⟨⟨t, ht, rfl, hopen⟩, hread⟩ := h
  obtain ⟨fd, hfd⟩ := Option.isSome_iff_exists.mp hopen
  obtain ⟨first, hfirst⟩ := Option.isSome_iff_exists.mp (firstFd_isSome ht hfd)
  obtain ⟨t', ht', htid, hstat⟩ := firstFd_eq_some hfirst
  exact ⟨first, hfirst, statFd_nonneg hstat, hread t' ht' htid first hstat⟩

/-- What a call samples, by what the map holds before it. -/
theorem samplesThreads_iff {env : Proc} {last : Int} {c : FerretCollector} {out : Outcome}
    (h : c.collect env last = some out) : SamplesThreads env out ↔ FreshFds env c := by
  obtain ⟨-, -, left, found, hpoll, ⟨hleft, rfl⟩ | ⟨rfl, opened, hopened, rfl⟩⟩ :=
    FerretCollector.collect_cases h
  · -- names are still awaited
    have hwatch : ((c.polled env left found).await env last).collector.mWatchList ≠ [] := by
      simp only [FerretCollector.await]
      split <;> exact hleft
    refine ⟨fun _ hnil => ?_, fun _ hnil => absurd hnil hwatch⟩
    rw [hpoll] at hnil
    exact absurd (Option.some.inj hnil) hleft
  · rw [enumerateAll_eq] at hopened
    have hfind := openThreads_find? hopened
    obtain ⟨hpids, hcalls⟩ := openThreads_calls hopened
    have hmon : monitored env c = c.mPid :: (c.mPids ++ found) := by rw [monitored, hpoll]; rfl
    have hafter : ((c.polled env [] found).sampled env last opened).collector.mPid ::
        ((c.polled env [] found).sampled env last opened).collector.mPids =
        c.mPid :: (c.mPids ++ found) := by
      simp [FerretCollector.sampled]
    have hlog : ((c.polled env [] found).sampled env last opened).opened = opened.2 := rfl
    rw [SamplesThreads, FreshFds, hmon, hafter, hlog, hpoll]
    set ts := threadsOf env 0 (c.mPid :: (c.mPids ++ found))
    simp only [countP_sampled, Option.map_some, true_implies]
    constructor
    · intro hsamples t ht fd hfd
      obtain ⟨hrows, hopens⟩ := hsamples rfl
      have hmem : t.tid ∈ opened.2.map OpenCall.pid := hpids ▸ List.mem_map_of_mem ht
      obtain ⟨call, hcall, htid⟩ := List.mem_map.mp hmem
      obtain ⟨hreturned, -, hbefore⟩ := hcalls call hcall
      have hmapped := hbefore fd (by rw [htid, hfd])
      refine ⟨?_, fun hreadable => ?_⟩
      · obtain ⟨fd', hfd', hnonneg⟩ := hopens call hcall (by rw [hreturned, hmapped]; rfl)
        rw [hmapped] at hfd'
        exact Option.some.inj hfd' ▸ hnonneg
      · have hcount := hrows t ht hreadable
        split at hcount
        · rename_i hrow
          obtain ⟨fd', hfd', -, hread⟩ := hrow
          rw [hfind, hfd] at hfd'
          exact Option.some.inj hfd' ▸ hread
        · cases hcount
    · rintro hfresh -
      refine ⟨fun t ht hreadable => ?_, fun call hcall hret => ?_⟩
      · rw [if_pos]
        cases hm : c.mPidFdMap.find? t.tid with
        | none =>
          obtain ⟨fd, hfirst, hok⟩ := firstFd_of_readable hreadable
          exact ⟨fd, by rw [hfind, hm, hfirst]; rfl, hok⟩
        | some fd =>
          obtain ⟨hnonneg, hread⟩ := hfresh t ht fd hm
          exact ⟨fd, by rw [hfind, hm]; rfl, hnonneg, hread hreadable⟩
      · obtain ⟨hreturned, hfinal, hbefore⟩ := hcalls call hcall
        rw [hreturned] at hret
        obtain ⟨fd, hfd⟩ := Option.isSome_iff_exists.mp hret
        refine ⟨fd, hfd, ?_⟩
        have hmem : call.pid ∈ ts.map Thread.tid := hpids ▸ List.mem_map_of_mem hcall
        obtain ⟨t, ht, htid⟩ := List.mem_map.mp hmem
        cases hm : c.mPidFdMap.find? call.pid with
        | none =>
          have hlookup := hfinal fd hfd
          rw [hfind, hm, Option.none_or] at hlookup
          obtain ⟨t', -, -, hstat⟩ := firstFd_eq_some hlookup
          exact statFd_nonneg hstat
        | some fd' =>
          have hsame := Option.some.inj ((hbefore fd' hm).symm.trans hfd)
          exact hsame ▸ (hfresh t ht fd' (by rw [htid, hm])).1

/-! ## Whole runs -/

/-- `FreshFds` for the calls that sample. -/
def FreshFdsAt (s : FerretCollector × Int) : Op → Prop
  | .collect env => FreshFds env s.1
  | _ => True

/-- Every `collect()` call of a run samples the threads that can be read, if and only if none of
    them finds a thread under a descriptor that is closed or no longer reads. -/
theorem samplesThreads_iff_stepsMeet (s : FerretCollector × Int) (ops : List Op)
    (h : (run step s ops).isSome) :
    (∀ before env after, ops = before ++ .collect env :: after →
      ∀ t out, run step s before = some t → t.1.collect env t.2 = some out →
      SamplesThreads env out) ↔
    StepsMeet step FreshFdsAt s ops := by
  refine @collects_iff_stepsMeet (fun env _ out => SamplesThreads env out) FreshFdsAt
    (fun env s out hout => samplesThreads_iff hout) (fun s op hop => ?_) s ops h
  cases op with
  | collect env => exact absurd rfl (hop env)
  | _ => trivial

/-- A started collector of process 10 that has found process 42. -/
def samplingCollector : FerretCollector where
  mInitSuccess := true
  mCollecting := true
  mClockTicks := 100
  mCpus := [0]
  mStatusFd := 3
  mPid := "10".toList
  mProcessNames := ["app".toList]
  mPids := ["42".toList]
  mWatchList := []
  mFirstCollect := 1
  mPollTimeout := 30
  mPidFdMap := ∅
  mCpufreqFdMap := ∅

/-- Process 42 has a thread 43 whose `stat` file reads under the descriptor `fd`. -/
def threadRuns (now fd : Int) : Proc :=
  { Proc.bare now with
    tasks := fun _ dir => if dir = taskDir "42".toList then some ["43".toList] else none
    openStat := fun _ _ _ => ⟨fd, false⟩
    read := fun fd' => if fd' = fd then "43 (app) R".toList else [] }

/-- Thread 43 is sampled twice. -/
theorem samplesThreads_one_thread :
    (run step (samplingCollector, 1)
      [.collect (threadRuns 1 6), .collect (threadRuns 2 6)]).isSome ∧
    ((∀ before env after, [Op.collect (threadRuns 1 6), .collect (threadRuns 2 6)] =
        before ++ .collect env :: after →
      ∀ t out, run step (samplingCollector, 1) before = some t → t.1.collect env t.2 = some out →
      SamplesThreads env out) ↔
    StepsMeet step FreshFdsAt (samplingCollector, 1)
      [.collect (threadRuns 1 6), .collect (threadRuns 2 6)]) := by
  have hrun : (run step (samplingCollector, 1)
      [.collect (threadRuns 1 6), .collect (threadRuns 2 6)]).isSome := by decide
  exact ⟨hrun, samplesThreads_iff_stepsMeet (samplingCollector, 1)
    [.collect (threadRuns 1 6), .collect (threadRuns 2 6)] hrun⟩

/-- Thread 43 exits, and its id is taken by a new thread: `open_pid_fd` returns true for the
    closed descriptor of the old one. -/
theorem not_samplesThreads_reused_id :
    ¬∀ t out, run step (samplingCollector, 1)
        [.collect (threadRuns 1 6), .collect (Proc.bare 2)] = some t →
      t.1.collect (threadRuns 3 7) t.2 = some out → SamplesThreads (threadRuns 3 7) out := by
  have hrun : ((run step (samplingCollector, 1)
      [.collect (threadRuns 1 6), .collect (Proc.bare 2)]).bind fun t =>
        (t.1.collect (threadRuns 3 7) t.2).map fun out => (out.collector.mWatchList, out.opened)) =
      some ([], [⟨"43".toList, true, some (-1)⟩]) := by
    decide
  intro h
  obtain ⟨t, ht, hout⟩ := Option.bind_eq_some_iff.mp hrun
  obtain ⟨out, hout, hopened⟩ := Option.map_eq_some_iff.mp hout
  obtain ⟨hwatch, hopened⟩ := Prod.mk.inj hopened
  obtain ⟨-, hvalid⟩ := h t out ht hout hwatch
  rw [hopened] at hvalid
  obtain ⟨fd, hfd, hnonneg⟩ := hvalid _ List.mem_cons_self rfl
  cases hfd
  exact absurd hnonneg (by decide)

end LibCollector.Ferret
