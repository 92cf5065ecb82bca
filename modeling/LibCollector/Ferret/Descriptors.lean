import LibCollector.Misc.FdTable
import LibCollector.Ferret.Collector

/-!
# The descriptors of the ferret collector

What `FerretCollector` of `src/collectors/ferret.cpp` opens and closes. Every system call takes the
next of the answers that a call on the collector is given, so a descriptor that was closed can be
given out again at once; an answer that the kernel cannot give, a descriptor that is still open, is
a failure. Left out are the rows, the notifications and the times, which no descriptor depends on,
and the directory streams. As before, a failed assertion is `none`.

`Released` is that every descriptor is closed or recorded in one place, and `Clean` says which calls
keep it: a `start()` must not fail after the trace file has been opened, no `cmdline` file may be
opened as descriptor 0, and the collector must not be destroyed between `start()` and `stop()`.
-/

namespace LibCollector.Ferret.Descriptors

open LibCollector.Misc

/-! ## System calls -/

/-- The result of a system call: the descriptor of `open` and whether `errno` is `ENFILE` then,
    whether `lseek` goes to the start or `write` takes everything, what `read` reads (nothing if it
    fails), and the names in a directory. -/
structure Answer where
  fd : Int := -1
  enfile : Bool := false
  ok : Bool := false
  data : Str := []
  entries : Option (List Str) := none

/-- The answers to come and the open descriptors. -/
structure Kernel where
  answers : List Answer
  table : FdTable

namespace Kernel

def answer (k : Kernel) : Answer := k.answers.headD {}

/-- The kernel after a system call that leaves the descriptors as they are. -/
def next (k : Kernel) : Kernel := { k with answers := k.answers.tail }

/-- `open`. -/
def openFile (k : Kernel) : OpenResult × Kernel :=
  if k.table.Free k.answer.fd then
    (⟨k.answer.fd, k.answer.enfile⟩, { k.next with table := k.table.give k.answer.fd })
  else (⟨-1, k.answer.enfile⟩, k.next)

def close (fd : Int) (k : Kernel) : Kernel := { k with table := k.table.close fd }

def closeAll (fds : List Int) (k : Kernel) : Kernel := { k with table := k.table.closeAll fds }

/-- A file is opened, and closed again if `lseek` fails. -/
def openKept (k : Kernel) : Option (Option Int × Kernel) :=
  let r := k.openFile
  if r.1.fd < 0 then if r.1.enfile then none else some (none, r.2)
  else if r.2.answer.ok then some (some r.1.fd, r.2.next)
  else some (none, r.2.next.close r.1.fd)

end Kernel

/-! ## The collector -/

/-- The members of `FerretCollector` that decide what is opened and closed. -/
structure Collector where
  mInitSuccess : Bool := false
  mCollecting : Bool := false
  mCpus : List Int
  mStatusFd : Int
  mPid : Str
  mProcessNames : List Str
  mPids : List Str := []
  mWatchList : List Str := []
  mPidFdMap : OrdMap Str Int := ∅
  mCpufreqFdMap : OrdMap Int Int := ∅
  mTraceFd : Int := -1

/-- `open_cpufreq_fds`. -/
def openCpufreqFds : List Int → OrdMap Int Int → Kernel → Option (OrdMap Int Int × Kernel)
  | [], m, k => some (m, k)
  | cpu :: cpus, m, k =>
    if m.find? cpu = none then
      k.openKept.bind fun r =>
        match r.1 with
        | some fd => openCpufreqFds cpus (m.insert cpu fd) r.2
        | none => openCpufreqFds cpus m r.2
    else openCpufreqFds cpus m k

/-- `open_pid_fd`, without the result. -/
def openPidFd (pid : Str) (m : OrdMap Str Int) (k : Kernel) : Option (OrdMap Str Int × Kernel) :=
  if m.find? pid = none then
    k.openKept.map fun r =>
      match r.1 with
      | some fd => (m.insert pid fd, r.2)
      | none => (m, r.2)
  else some (m, k)

/-- The loop of `enumerate_tasks`. -/
def openTasks : List Str → OrdMap Str Int → Kernel → Option (OrdMap Str Int × Kernel)
  | [], m, k => some (m, k)
  | d :: ds, m, k =>
    if d.head?.any Char.isDigit then (openPidFd d m k).bind fun r => openTasks ds r.1 r.2
    else openTasks ds m k

/-- `enumerate_tasks`. -/
def enumerateTasks (m : OrdMap Str Int) (k : Kernel) : Option (OrdMap Str Int × Kernel) :=
  match k.answer.entries with
  | none => some (m, k.next)
  | some entries => openTasks entries m k.next

/-- `enumerate_tasks` for each of `pids`. -/
def enumerateAll : List Str → OrdMap Str Int → Kernel → Option (OrdMap Str Int × Kernel)
  | [], m, k => some (m, k)
  | _ :: pids, m, k => (enumerateTasks m k).bind fun r => enumerateAll pids r.1 r.2

/-- `open_pid_fds` for each of `pids`. -/
def openPidFds : List Str → OrdMap Str Int → Kernel → Option (OrdMap Str Int × Kernel)
  | [], m, k => some (m, k)
  | pid :: pids, m, k =>
    (openPidFd pid m k).bind fun r =>
      (enumerateTasks r.1 r.2).bind fun r => openPidFds pids r.1 r.2

/-- The test of `poll_for_named_process` on what is read of a `cmdline` file. -/
def Named (name data : Str) : Prop := data ≠ [] ∧ cstr name = cstr (data.take 100)

instance (name data : Str) : Decidable (Named name data) := inferInstanceAs (Decidable (_ ∧ _))

/-- The walk of `poll_for_named_process` over `/proc`. -/
def findNamed (name : Str) : List Str → Kernel → Option (Int × Kernel)
  | [], k => some (0, k)
  | d :: ds, k =>
    if d.head?.any Char.isDigit then
      let r := k.openFile
      if 0 < r.1.fd then
        if Named name r.2.answer.data then some (atoi d, r.2.next.close r.1.fd)
        else findNamed name ds (r.2.next.close r.1.fd)
      else if r.1.enfile then none
      else findNamed name ds r.2
    else findNamed name ds k

/-- `poll_for_named_process`. -/
def pollForNamedProcess (name : Str) (k : Kernel) : Option (Int × Kernel) :=
  match k.answer.entries with
  | none => some (-1, k.next)
  | some entries => findNamed name entries k.next

/-- The polling loop of `collect()`: the names still not found and the pids of the others. -/
def pollWatchList : List Str → Kernel → Option ((List Str × List Str) × Kernel)
  | [], k => some (([], []), k)
  | w :: ws, k =>
    (pollForNamedProcess w k).bind fun r =>
      if r.1 < 0 then none
      else (pollWatchList ws r.2).map fun rest =>
        if 0 < r.1 then ((rest.1.1, toChars r.1 :: rest.1.2), rest.2)
        else ((w :: rest.1.1, rest.1.2), rest.2)

/-- The threads that `collect_perproc` finds to be gone, whose descriptors it closes. -/
def goneThreads : List (Str × Int) → Kernel → List Str × Kernel
  | [], k => ([], k)
  | (pid, fd) :: es, k =>
    if fd < 0 then goneThreads es k
    else if k.answer.data = [] then
      let rest := goneThreads es (k.next.close fd)
      (pid :: rest.1, rest.2)
    else goneThreads es k.next

/-- `collect_perproc`. -/
def collectPerproc (m : OrdMap Str Int) (k : Kernel) : OrdMap Str Int × Kernel :=
  let r := goneThreads m.entries k
  (m.mapVal fun pid fd => if pid ∈ r.1 then -1 else fd, r.2)

/-- The descriptors that `close_pid_fds` closes. -/
def openOnes (m : OrdMap Str Int) : List Int := m.values.filter (0 ≤ ·)

namespace Collector

/-- `close_cpufreq_fds` and `close_pid_fds`. -/
def closeFds (c : Collector) (k : Kernel) : Collector × Kernel :=
  ({ c with mCpufreqFdMap := ∅, mPidFdMap := ∅ },
    (k.closeAll c.mCpufreqFdMap.values).closeAll (openOnes c.mPidFdMap))

/-- `init`. -/
def init (c : Collector) (k : Kernel) : Option (Collector × Kernel) :=
  if c.mInitSuccess then some (c, k)
  else
    (openCpufreqFds c.mCpus c.mCpufreqFdMap k).bind fun freqs =>
      let cpusOk := c.mCpus ≠ [] ∧ freqs.1.keys.length = c.mCpus.length
      (if cpusOk then openPidFds c.mPids c.mPidFdMap freqs.2 else some (c.mPidFdMap, freqs.2)).map
        fun fds =>
          let c := { c with mCpufreqFdMap := freqs.1, mPidFdMap := fds.1 }
          if cpusOk ∧ (c.mProcessNames ≠ [] → 0 ≤ c.mStatusFd) then
            ({ c with mInitSuccess := true }, fds.2)
          else c.closeFds fds.2

/-- `deinit`. -/
def deinit (c : Collector) (k : Kernel) : Collector × Kernel :=
  ({ (c.closeFds k).1 with mInitSuccess := false }, (c.closeFds k).2)

/-- `available`. -/
def available (c : Collector) (k : Kernel) : Option (Collector × Kernel) :=
  if c.mInitSuccess then some (c, k) else c.init k

/-- `start`. -/
def start (c : Collector) (k : Kernel) : Collector × Kernel :=
  if c.mInitSuccess = false ∨ c.mCollecting = true then (c, k)
  else
    let r := k.openFile
    let c := { c with mWatchList := c.mProcessNames, mTraceFd := r.1.fd }
    if r.1.fd < 0 then (c, r.2)
    else ({ c with mCollecting := r.2.answer.ok }, r.2.next)

/-- `stop`. -/
def stop (c : Collector) (k : Kernel) : Collector × Kernel :=
  if c.mCollecting = false then (c, k)
  else ({ c with mCollecting := false }, k.close c.mTraceFd)

/-- `collect`. -/
def collect (c : Collector) (k : Kernel) : Option (Collector × Kernel) :=
  if c.mInitSuccess = false ∨ c.mCollecting = false then none
  else
    (pollWatchList c.mWatchList k).bind fun r =>
      let c := { c with mWatchList := r.1.1, mPids := c.mPids ++ r.1.2 }
      if r.1.1 ≠ [] then some (c, r.2)
      else
        (enumerateAll (c.mPid :: c.mPids) c.mPidFdMap r.2).map fun opened =>
          let perproc := collectPerproc opened.1 opened.2
          ({ c with mPidFdMap := perproc.1 }, perproc.2)

end Collector

/-! ## Runs -/

/-- A call on the collector, with the answers of the kernel during it. -/
inductive Call where
  | available (answers : List Answer)
  | init (answers : List Answer)
  | start (answers : List Answer)
  | collect (answers : List Answer)
  | stop
  | deinit
  | destroy

/-- A collector in its process. -/
structure State where
  collector : Collector
  table : FdTable
  destroyed : Bool := false

namespace State

/-- The kernel of the process when it is going to give these answers. -/
def kernel (s : State) (answers : List Answer) : Kernel := ⟨answers, s.table⟩

/-- The state after a call. -/
def after (s : State) (r : Collector × Kernel) : State :=
  { s with collector := r.1, table := r.2.table }

end State

/-- One call; `none` is a failed assertion, or a call on a collector that has been destroyed. -/
def step (s : State) (call : Call) : Option State :=
  if s.destroyed then none
  else
    match call with
    | .available answers => (s.collector.available (s.kernel answers)).map s.after
    | .init answers => (s.collector.init (s.kernel answers)).map s.after
    | .start answers => some (s.after (s.collector.start (s.kernel answers)))
    | .collect answers => (s.collector.collect (s.kernel answers)).map s.after
    | .stop => some (s.after (s.collector.stop (s.kernel [])))
    | .deinit => some (s.after (s.collector.deinit (s.kernel [])))
    | .destroy => some { s.after (s.collector.deinit (s.kernel [])) with destroyed := true }

/-- The state after the constructor. -/
def construct (config : FerretConfig) : State where
  collector := {
    mCpus := config.cpus
    mStatusFd := config.statusFd
    mPid := config.pid
    mProcessNames := config.processNames }
  table := {}

/-! ## What has to be closed -/

/-- The descriptors that a later `stop()` or `deinit()` closes. -/
def recorded (c : Collector) : List Int :=
  c.mCpufreqFdMap.values ++ openOnes c.mPidFdMap ++ if c.mCollecting then [c.mTraceFd] else []

/-- Every descriptor is closed or recorded in one place, none has been closed twice, and after the
    destruction none is left. -/
structure Released (s : State) : Prop where
  held : s.table.Holds (recorded s.collector)
  destroyed : s.destroyed = true → s.table.fds = []

/-- The descriptors of the `cmdline` files that a walk over `/proc` opens. -/
def cmdlineFds (name : Str) : List Str → Kernel → List Int
  | [], _ => []
  | d :: ds, k =>
    if d.head?.any Char.isDigit then
      let r := k.openFile
      r.1.fd ::
        if 0 < r.1.fd then
          if Named name r.2.answer.data then [] else cmdlineFds name ds (r.2.next.close r.1.fd)
        else cmdlineFds name ds r.2
    else cmdlineFds name ds k

/-- The descriptors of the `cmdline` files that `collect()` opens. -/
def polledFds : List Str → Kernel → List Int
  | [], _ => []
  | w :: ws, k =>
    cmdlineFds w (k.answer.entries.getD []) k.next ++
      match pollForNamedProcess w k with
      | none => []
      | some r => polledFds ws r.2

/-- The call leaves no descriptor behind: a `start()` that opens the trace file writes its header,
    no `cmdline` file is opened as descriptor 0, and what is destroyed is not collecting. -/
def Clean (s : State) : Call → Prop
  | .start answers => s.collector.mInitSuccess = true → s.collector.mCollecting = false →
      let r := (s.kernel answers).openFile
      0 ≤ r.1.fd → r.2.answer.ok = true
  | .collect answers => 0 ∉ polledFds s.collector.mWatchList (s.kernel answers)
  | .destroy => s.collector.mCollecting = false
  | _ => True

/-! ## System calls and descriptors -/

namespace Kernel

variable {k : Kernel} {held : List Int}

/-- What `open` can do: it fails, or it adds a descriptor to those that are open. -/
theorem openFile_cases (h : k.table.Holds held) :
    (k.openFile.1.fd < 0 ∧ k.openFile.2.table.Holds held) ∨
      (0 ≤ k.openFile.1.fd ∧ k.openFile.2.table.Holds (k.openFile.1.fd :: held)) := by
  by_cases hfree : k.table.Free k.answer.fd
  · right
    rw [openFile, if_pos hfree]
    exact ⟨hfree.1, h.give hfree⟩
  · left
    rw [openFile, if_neg hfree]
    exact ⟨Int.negSucc_lt_zero 0, h⟩

/-- What `openKept` leaves open. -/
theorem holds_openKept {r : Option Int × Kernel} (h : k.table.Holds held)
    (hr : k.openKept = some r) :
    (∀ fd ∈ r.1, 0 ≤ fd) ∧ r.2.table.Holds (r.1.toList ++ held) := by
  rw [openKept] at hr
  rcases openFile_cases h with ⟨hneg, hheld⟩ | ⟨hnonneg, hheld⟩
  · rw [if_pos hneg] at hr
    split_ifs at hr
    obtain rfl := Option.some.inj hr
    exact ⟨nofun, hheld⟩
  · rw [if_neg (not_lt.mpr hnonneg)] at hr
    split_ifs at hr
    · obtain rfl := Option.some.inj hr
      refine ⟨fun fd hfd => ?_, hheld⟩
      obtain rfl := Option.some.inj hfd
      exact hnonneg
    · obtain rfl := Option.some.inj hr
      exact ⟨nofun, hheld.close⟩

end Kernel

/-! ## Opening -/

theorem holds_openCpufreqFds {cpus : List Int} {m : OrdMap Int Int} {k : Kernel} {held : List Int}
    {r : OrdMap Int Int × Kernel} (h : k.table.Holds (m.values ++ held))
    (hr : openCpufreqFds cpus m k = some r) : r.2.table.Holds (r.1.values ++ held) := by
  induction cpus generalizing m k with
  | nil =>
    cases hr
    exact h
  | cons cpu cpus ih =>
    rw [openCpufreqFds] at hr
    split_ifs at hr with hnew
    · obtain ⟨⟨fd, k'⟩, hkept, hr⟩ := Option.bind_eq_some_iff.mp hr
      obtain ⟨-, hheld⟩ := Kernel.holds_openKept h hkept
      cases fd with
      | none => exact ih hheld hr
      | some fd =>
        refine ih (hheld.of_perm ?_) hr
        exact ((OrdMap.perm_values_insert hnew fd).symm.append_right held)
    · exact ih h hr

theorem openOnes_insert {m : OrdMap Str Int} {pid : Str} (hnew : m.find? pid = none) {fd : Int}
    (hfd : 0 ≤ fd) : (openOnes (m.insert pid fd)).Perm (fd :: openOnes m) := by
  have hperm := (OrdMap.perm_values_insert hnew fd).filter (0 ≤ ·)
  rw [List.filter_cons_of_pos (by simpa using hfd)] at hperm
  exact hperm

theorem holds_openPidFd {pid : Str} {m : OrdMap Str Int} {k : Kernel} {held : List Int}
    {r : OrdMap Str Int × Kernel} (h : k.table.Holds (openOnes m ++ held))
    (hr : openPidFd pid m k = some r) : r.2.table.Holds (openOnes r.1 ++ held) := by
  rw [openPidFd] at hr
  split_ifs at hr with hnew
  · obtain ⟨⟨fd, k'⟩, hkept, rfl⟩ := Option.map_eq_some_iff.mp hr
    obtain ⟨hnonneg, hheld⟩ := Kernel.holds_openKept h hkept
    cases fd with
    | none => exact hheld
    | some fd =>
      exact hheld.of_perm ((openOnes_insert hnew (hnonneg fd rfl)).symm.append_right held)
  · cases hr
    exact h

theorem holds_openTasks {ds : List Str} {m : OrdMap Str Int} {k : Kernel} {held : List Int}
    {r : OrdMap Str Int × Kernel} (h : k.table.Holds (openOnes m ++ held))
    (hr : openTasks ds m k = some r) : r.2.table.Holds (openOnes r.1 ++ held) := by
  induction ds generalizing m k with
  | nil =>
    cases hr
    exact h
  | cons d ds ih =>
    rw [openTasks] at hr
    split_ifs at hr
    · obtain ⟨opened, hopened, hr⟩ := Option.bind_eq_some_iff.mp hr
      exact ih (holds_openPidFd h hopened) hr
    · exact ih h hr

theorem holds_enumerateTasks {m : OrdMap Str Int} {k : Kernel} {held : List Int}
    {r : OrdMap Str Int × Kernel} (h : k.table.Holds (openOnes m ++ held))
    (hr : enumerateTasks m k = some r) : r.2.table.Holds (openOnes r.1 ++ held) := by
  rw [enumerateTasks] at hr
  cases hentries : k.answer.entries with
  | none =>
    rw [hentries] at hr
    cases hr
    exact h
  | some entries =>
    rw [hentries] at hr
    exact @holds_openTasks entries m k.next held r h hr

theorem holds_enumerateAll {pids : List Str} {m : OrdMap Str Int} {k : Kernel} {held : List Int}
    {r : OrdMap Str Int × Kernel} (h : k.table.Holds (openOnes m ++ held))
    (hr : enumerateAll pids m k = some r) : r.2.table.Holds (openOnes r.1 ++ held) := by
  induction pids generalizing m k with
  | nil =>
    cases hr
    exact h
  | cons pid pids ih =>
    obtain ⟨opened, hopened, hr⟩ := Option.bind_eq_some_iff.mp hr
    exact ih (holds_enumerateTasks h hopened) hr

theorem holds_openPidFds {pids : List Str} {m : OrdMap Str Int} {k : Kernel} {held : List Int}
    {r : OrdMap Str Int × Kernel} (h : k.table.Holds (openOnes m ++ held))
    (hr : openPidFds pids m k = some r) : r.2.table.Holds (openOnes r.1 ++ held) := by
  induction pids generalizing m k with
  | nil =>
    cases hr
    exact h
  | cons pid pids ih =>
    obtain ⟨opened, hopened, hr⟩ := Option.bind_eq_some_iff.mp hr
    obtain ⟨tasks, htasks, hr⟩ := Option.bind_eq_some_iff.mp hr
    exact ih (holds_enumerateTasks (holds_openPidFd h hopened) htasks) hr

/-! ## Polling -/

/-- The descriptors that a walk over `/proc` leaves open are those of the `cmdline` files that were
    opened as 0. -/
theorem holds_findNamed {name : Str} {ds : List Str} {k : Kernel} {held : List Int}
    {r : Int × Kernel} (h : k.table.Holds held) (hr : findNamed name ds k = some r) :
    r.2.table.Holds ((cmdlineFds name ds k).filter (· = 0) ++ held) := by
  induction ds generalizing k held with
  | nil =>
    cases hr
    exact h
  | cons d ds ih =>
    rw [findNamed] at hr
    rw [cmdlineFds]
    by_cases hnumeric : d.head?.any Char.isDigit = true
    · rw [if_pos hnumeric] at hr ⊢
      dsimp only at hr ⊢
      rcases Kernel.openFile_cases h with ⟨hneg, hheld⟩ | ⟨hnonneg, hheld⟩
      · -- not opened
        rw [if_neg hneg.le.not_gt] at hr ⊢
        rw [List.filter_cons_of_neg (by simpa using hneg.ne)]
        split_ifs at hr
        exact ih hheld hr
      · by_cases hfd : 0 < k.openFile.1.fd
        · have hclosed : (k.openFile.2.next.close k.openFile.1.fd).table.Holds held := hheld.close
          rw [if_pos hfd] at hr ⊢
          rw [List.filter_cons_of_neg (by simpa using hfd.ne')]
          split_ifs at hr ⊢
          · cases hr
            exact hclosed
          · exact ih hclosed hr
        · -- descriptor 0 stays open
          have hzero : k.openFile.1.fd = 0 := by omega
          rw [if_neg hfd] at hr ⊢
          rw [List.filter_cons_of_pos (by simpa using hzero)]
          split_ifs at hr
          exact (ih hheld hr).of_perm List.perm_middle
    · rw [if_neg hnumeric] at hr ⊢
      exact ih h hr

theorem holds_pollForNamedProcess {name : Str} {k : Kernel} {held : List Int} {r : Int × Kernel}
    (h : k.table.Holds held) (hr : pollForNamedProcess name k = some r) :
    r.2.table.Holds
      ((cmdlineFds name (k.answer.entries.getD []) k.next).filter (· = 0) ++ held) := by
  rw [pollForNamedProcess] at hr
  cases hentries : k.answer.entries with
  | none =>
    rw [hentries] at hr
    cases hr
    exact h
  | some entries =>
    rw [hentries] at hr
    exact @holds_findNamed name entries k.next held r h hr

theorem holds_pollWatchList {ws : List Str} {k : Kernel} {held : List Int}
    {r : (List Str × List Str) × Kernel} (h : k.table.Holds held)
    (hr : pollWatchList ws k = some r) :
    r.2.table.Holds ((polledFds ws k).filter (· = 0) ++ held) := by
  induction ws generalizing k held r with
  | nil =>
    cases hr
    exact h
  | cons w ws ih =>
    obtain ⟨polled, hpolled, hr⟩ := Option.bind_eq_some_iff.mp hr
    have hrest : ∃ rest, pollWatchList ws polled.2 = some rest ∧ r.2 = rest.2 := by
      split_ifs at hr
      all_goals
        obtain ⟨rest, hrest, rfl⟩ := Option.map_eq_some_iff.mp hr
        exact ⟨rest, hrest, rfl⟩
    obtain ⟨rest, hrest, hsame⟩ := hrest
    have hheld := ih (holds_pollForNamedProcess h hpolled) hrest
    have hsplit : polledFds (w :: ws) k =
        cmdlineFds w (k.answer.entries.getD []) k.next ++ polledFds ws polled.2 := by
      rw [polledFds, hpolled]
    rw [hsame, hsplit, List.filter_append]
    refine hheld.of_perm ?_
    rw [← List.append_assoc]
    exact List.perm_append_comm.append_right held

/-! ## Sampling -/

/-- The descriptors of the threads that `collect_perproc` leaves open. -/
theorem holds_goneThreads {es : List (Str × Int)} {k : Kernel} {held : List Int}
    (hkeys : (es.map Prod.fst).Nodup)
    (h : k.table.Holds ((es.map Prod.snd).filter (0 ≤ ·) ++ held)) :
    (∀ pid ∈ (goneThreads es k).1, pid ∈ es.map Prod.fst) ∧
    (goneThreads es k).2.table.Holds
      ((es.map fun e => if e.1 ∈ (goneThreads es k).1 then -1 else e.2).filter (0 ≤ ·) ++
        held) := by
  induction es generalizing k held with
  | nil => exact ⟨nofun, h⟩
  | cons e es ih =>
    obtain ⟨pid, fd⟩ := e
    obtain ⟨hnew, hkeys⟩ := List.nodup_cons.mp hkeys
    rw [List.map_cons] at h
    rw [goneThreads]
    by_cases hneg : fd < 0
    · -- the thread is gone already
      rw [List.filter_cons_of_neg (by simpa using hneg)] at h
      obtain ⟨hgone, hheld⟩ := ih hkeys h
      rw [if_pos hneg]
      refine ⟨fun pid' hpid' => List.mem_cons_of_mem _ (hgone pid' hpid'), ?_⟩
      rw [List.map_cons, List.filter_cons_of_neg]
      · exact hheld
      · dsimp only
        split_ifs
        · simp
        · simpa using hneg
    · rw [List.filter_cons_of_pos (by simpa using hneg)] at h
      rw [if_neg hneg]
      by_cases hdata : k.answer.data = []
      · -- its descriptor is closed now
        have hclosed : (k.next.close fd).table.Holds ((es.map Prod.snd).filter (0 ≤ ·) ++ held) :=
          FdTable.Holds.close h
        obtain ⟨hgone, hheld⟩ := ih hkeys hclosed
        rw [if_pos hdata]
        refine ⟨fun pid' hpid' => ?_, ?_⟩
        · rcases List.mem_cons.mp hpid' with rfl | hpid'
          · exact List.mem_cons_self
          · exact List.mem_cons_of_mem _ (hgone pid' hpid')
        · rw [List.map_cons, List.filter_cons_of_neg (by simp)]
          have hrest : es.map (fun e =>
                if e.1 ∈ pid :: (goneThreads es (k.next.close fd)).1 then -1 else e.2) =
              es.map fun e => if e.1 ∈ (goneThreads es (k.next.close fd)).1 then -1 else e.2 := by
            refine List.map_congr_left fun e he => ?_
            have hne : e.1 ≠ pid := by
              intro heq
              have hmem : e.1 ∈ es.map Prod.fst := List.mem_map_of_mem he
              exact hnew (heq ▸ hmem)
            simp only [List.mem_cons, hne, false_or]
          dsimp only
          rw [hrest]
          exact hheld
      · -- it stays open
        have hkept : k.next.table.Holds
            ((es.map Prod.snd).filter (0 ≤ ·) ++ fd :: held) :=
          FdTable.Holds.of_perm h List.perm_middle.symm
        obtain ⟨hgone, hheld⟩ := ih hkeys hkept
        rw [if_neg hdata]
        refine ⟨fun pid' hpid' => List.mem_cons_of_mem _ (hgone pid' hpid'), ?_⟩
        have hhead : pid ∉ (goneThreads es k.next).1 := fun hpid => hnew (hgone pid hpid)
        rw [List.map_cons, List.filter_cons_of_pos]
        · dsimp only
          rw [if_neg hhead]
          exact hheld.of_perm List.perm_middle
        · dsimp only
          rw [if_neg hhead]
          simpa using hneg

theorem holds_collectPerproc {m : OrdMap Str Int} {k : Kernel} {held : List Int}
    (h : k.table.Holds (openOnes m ++ held)) :
    (collectPerproc m k).2.table.Holds (openOnes (collectPerproc m k).1 ++ held) := by
  have hheld := (holds_goneThreads m.keys_nodup h).2
  have hvalues : (collectPerproc m k).1.values =
      m.entries.map fun e => if e.1 ∈ (goneThreads m.entries k).1 then -1 else e.2 :=
    List.map_map
  rw [openOnes, hvalues]
  exact hheld

/-! ## The calls -/

namespace Collector

variable {c : Collector} {k : Kernel}

/-- A collector that is not collecting: the descriptors of its maps are those that are open. -/
theorem recorded_of_not_collecting (h : c.mCollecting = false) :
    recorded c = c.mCpufreqFdMap.values ++ openOnes c.mPidFdMap := by
  rw [recorded, h]
  exact List.append_nil _

/-- The threads come first. -/
theorem perm_recorded (c : Collector) : (recorded c).Perm (openOnes c.mPidFdMap ++
    (c.mCpufreqFdMap.values ++ if c.mCollecting then [c.mTraceFd] else [])) := by
  rw [recorded, List.append_assoc]
  exact List.perm_append_comm_assoc _ _ _

theorem holds_init {r : Collector × Kernel} (h : k.table.Holds (recorded c))
    (hr : c.init k = some r) : r.2.table.Holds (recorded r.1) := by
  rw [init] at hr
  split_ifs at hr with hinit
  · cases hr
    exact h
  · obtain ⟨freqs, hfreqs, hr⟩ := Option.bind_eq_some_iff.mp hr
    obtain ⟨fds, hfds, rfl⟩ := Option.map_eq_some_iff.mp hr
    rw [recorded, List.append_assoc] at h
    have hheld : fds.2.table.Holds (freqs.1.values ++ (openOnes fds.1 ++
        if c.mCollecting then [c.mTraceFd] else [])) := by
      have hfreqsHeld := holds_openCpufreqFds h hfreqs
      split_ifs at hfds
      · have hswapped := hfreqsHeld.of_perm (List.perm_append_comm_assoc _ _ _)
        exact (holds_openPidFds hswapped hfds).of_perm (List.perm_append_comm_assoc _ _ _)
      · cases hfds
        exact hfreqsHeld
    dsimp only
    split_ifs
    · rw [recorded, List.append_assoc]
      exact hheld
    · exact hheld.closeAll.closeAll

theorem holds_available {r : Collector × Kernel} (h : k.table.Holds (recorded c))
    (hr : c.available k = some r) : r.2.table.Holds (recorded r.1) := by
  rw [available] at hr
  split_ifs at hr
  · cases hr
    exact h
  · exact holds_init h hr

theorem holds_deinit (h : k.table.Holds (recorded c)) :
    (c.deinit k).2.table.Holds (recorded (c.deinit k).1) := by
  rw [recorded, List.append_assoc] at h
  exact h.closeAll.closeAll

theorem holds_stop (h : k.table.Holds (recorded c)) :
    (c.stop k).2.table.Holds (recorded (c.stop k).1) := by
  rw [stop]
  split_ifs with hcollecting
  · exact h
  · rw [recorded, if_pos (Bool.eq_true_of_not_eq_false hcollecting)] at h
    have hlast := h.of_perm List.perm_append_comm
    rw [recorded_of_not_collecting rfl]
    exact FdTable.Holds.close hlast

/-- A `start()` leaves the trace file open in vain if and only if its header is not written. -/
theorem holds_start_iff (h : k.table.Holds (recorded c)) :
    (c.start k).2.table.Holds (recorded (c.start k).1) ↔
      (c.mInitSuccess = true → c.mCollecting = false → 0 ≤ k.openFile.1.fd →
        k.openFile.2.answer.ok = true) := by
  rw [start]
  split_ifs with hready
  · refine iff_of_true h fun hinit hcollecting => ?_
    rw [hinit, hcollecting] at hready
    cases hready <;> contradiction
  · rw [not_or, Bool.not_eq_false, Bool.not_eq_true] at hready
    obtain ⟨hinit, hcollecting⟩ := hready
    rw [recorded_of_not_collecting hcollecting] at h
    dsimp only
    rcases Kernel.openFile_cases h with ⟨hneg, hheld⟩ | ⟨hnonneg, hheld⟩
    · rw [if_pos hneg, recorded]
      dsimp only
      rw [hcollecting, if_neg Bool.false_ne_true, List.append_nil]
      exact iff_of_true hheld fun _ _ hnonneg => absurd hneg (not_lt.mpr hnonneg)
    · rw [if_neg (not_lt.mpr hnonneg)]
      cases hok : k.openFile.2.answer.ok with
      | true =>
        rw [recorded, if_pos rfl]
        exact iff_of_true (hheld.of_perm (List.perm_append_singleton _ _).symm) fun _ _ _ => rfl
      | false =>
        rw [recorded_of_not_collecting rfl]
        refine iff_of_false (fun hnot => ?_) fun hall => ?_
        · have hnil := @FdTable.Holds.eq_nil_of_append _ _ [k.openFile.1.fd] hheld hnot
          cases hnil
        · cases hall hinit hcollecting hnonneg

/-- A `collect()` leaves descriptors open in vain if and only if a `cmdline` file is opened as 0. -/
theorem holds_collect_iff {r : Collector × Kernel} (h : k.table.Holds (recorded c))
    (hr : c.collect k = some r) :
    r.2.table.Holds (recorded r.1) ↔ 0 ∉ polledFds c.mWatchList k := by
  rw [collect] at hr
  split_ifs at hr with hready
  obtain ⟨polled, hpolled, hr⟩ := Option.bind_eq_some_iff.mp hr
  have hheld := holds_pollWatchList h hpolled
  set zeros := (polledFds c.mWatchList k).filter (· = 0) with hzeros
  have hnone : 0 ∉ polledFds c.mWatchList k ↔ zeros = [] := by
    rw [hzeros, List.filter_eq_nil_iff]
    simp only [decide_eq_true_eq]
    exact ⟨fun hnot fd hfd heq => hnot (heq ▸ hfd), fun hall hmem => hall 0 hmem rfl⟩
  have hmore : r.2.table.Holds (zeros ++ recorded r.1) := by
    dsimp only at hr
    split_ifs at hr with hleft
    · cases hr
      exact hheld
    · obtain ⟨opened, hopened, rfl⟩ := Option.map_eq_some_iff.mp hr
      have hmaps := hheld.of_perm ((perm_recorded c).append_left zeros)
      have hthreads := hmaps.of_perm (List.perm_append_comm_assoc _ _ _)
      have hsampled := holds_collectPerproc (holds_enumerateAll hthreads hopened)
      refine FdTable.Holds.of_perm ?_ ((perm_recorded _).symm.append_left zeros)
      exact hsampled.of_perm (List.perm_append_comm_assoc _ _ _)
  rw [hnone]
  constructor
  · exact fun hnot => hmore.eq_nil_of_append hnot
  · intro hnil
    rw [hnil] at hmore
    exact hmore

end Collector

/-! ## Whole runs -/

/-- After a call that is no destruction, the recorded descriptors have to be those that are open. -/
theorem released_after_iff {s : State} (h : s.destroyed = false) (r : Collector × Kernel) :
    Released (s.after r) ↔ r.2.table.Holds (recorded r.1) := by
  constructor
  · exact fun hs => hs.held
  · intro hheld
    refine ⟨hheld, fun hdestroyed => ?_⟩
    have hlive : (s.after r).destroyed = false := h
    rw [hlive] at hdestroyed
    cases hdestroyed

/-- A call keeps every descriptor closed or recorded if and only if it leaves none behind. -/
theorem released_step_iff {s t : State} {call : Call} (hs : Released s) (h : step s call = some t) :
    Released t ↔ Clean s call := by
  unfold step at h
  split_ifs at h with hdestroyed
  have hlive : s.destroyed = false := Bool.eq_false_of_not_eq_true hdestroyed
  cases call with
  | available answers =>
    obtain ⟨r, hr, rfl⟩ := Option.map_eq_some_iff.mp h
    rw [released_after_iff hlive]
    exact iff_of_true (Collector.holds_available hs.held hr) trivial
  | init answers =>
    obtain ⟨r, hr, rfl⟩ := Option.map_eq_some_iff.mp h
    rw [released_after_iff hlive]
    exact iff_of_true (Collector.holds_init hs.held hr) trivial
  | start answers =>
    obtain rfl := Option.some.inj h
    rw [released_after_iff hlive]
    exact Collector.holds_start_iff hs.held
  | collect answers =>
    obtain ⟨r, hr, rfl⟩ := Option.map_eq_some_iff.mp h
    rw [released_after_iff hlive]
    exact Collector.holds_collect_iff hs.held hr
  | stop =>
    obtain rfl := Option.some.inj h
    rw [released_after_iff hlive]
    exact iff_of_true (Collector.holds_stop hs.held) trivial
  | deinit =>
    obtain rfl := Option.some.inj h
    rw [released_after_iff hlive]
    exact iff_of_true (Collector.holds_deinit hs.held) trivial
  | destroy =>
    obtain rfl := Option.some.inj h
    have hheld : (s.collector.deinit (s.kernel [])).2.table.Holds
        (recorded (s.collector.deinit (s.kernel [])).1) := Collector.holds_deinit hs.held
    have hleft : recorded (s.collector.deinit (s.kernel [])).1 =
        if s.collector.mCollecting then [s.collector.mTraceFd] else [] := rfl
    have hclosed := hheld.fds_eq_nil_iff
    rw [hleft] at hclosed
    constructor
    · intro hreleased
      have hnil := hclosed.mp (hreleased.destroyed rfl)
      by_contra hcollecting
      rw [if_pos (Bool.eq_true_of_not_eq_false hcollecting)] at hnil
      cases hnil
    · intro hcollecting
      have hnot : s.collector.mCollecting = false := hcollecting
      exact ⟨hheld, fun _ => hclosed.mpr (by rw [hnot]; rfl)⟩

/-- Nothing has been opened. -/
theorem released_construct (config : FerretConfig) : Released (construct config) :=
  ⟨FdTable.holds_empty, nofun⟩

/-- In every state of a run each descriptor is closed or recorded in one place, none is closed twice
    and none is left after the destruction, if and only if every call leaves none behind. -/
theorem released_iff_stepsMeet (config : FerretConfig) (calls : List Call)
    (h : (run step (construct config) calls).isSome) :
    (∀ before after, calls = before ++ after →
      ∀ s, run step (construct config) before = some s → Released s) ↔
    StepsMeet step Clean (construct config) calls :=
  invariant_iff_stepsMeet (fun _ _ _ => released_step_iff) (released_construct config) h

/-- A collector of one CPU. -/
def oneCpu : FerretConfig where
  clockTicks := 100
  pid := "10".toList
  cpus := [0]
  cpusInt := cpusInt_zero

/-- A collector that is started, samples once and is stopped, and then destroyed. -/
def oneSample : List Call :=
  [.init [{ fd := 3 }, { ok := true }], .start [{ fd := 4 }, { ok := true }], .collect [], .stop,
    .destroy]

theorem released_oneSample :
    (run step (construct oneCpu) oneSample).isSome ∧
    ((∀ before after, oneSample = before ++ after →
      ∀ s, run step (construct oneCpu) before = some s → Released s) ↔
    StepsMeet step Clean (construct oneCpu) oneSample) := by
  have hrun : (run step (construct oneCpu) oneSample).isSome := by decide
  exact ⟨hrun, released_iff_stepsMeet oneCpu oneSample hrun⟩

/-- The trace file is opened as descriptor 4, and writing its header fails. -/
def fullDisk : List Call := [.init [{ fd := 3 }, { ok := true }], .start [{ fd := 4 }]]

/-- The collector is not collecting then, and the trace file stays open. -/
theorem not_released_fullDisk :
    ¬ ∀ before after, fullDisk = before ++ after →
      ∀ s, run step (construct oneCpu) before = some s → Released s := by
  intro hall
  have hrun : (run step (construct oneCpu) fullDisk).map
      (fun s => (s.collector.mCollecting, s.table.fds, recorded s.collector)) =
      some (false, [4, 3], [3]) := by decide
  obtain ⟨s, hs, hstate⟩ := Option.map_eq_some_iff.mp hrun
  have hreleased := hall fullDisk [] (List.append_nil _).symm s hs
  have hfds : s.table.fds = [4, 3] := congrArg (·.2.1) hstate
  have hrecorded : recorded s.collector = [3] := congrArg (·.2.2) hstate
  have hlen := hreleased.held.perm.length_eq
  rw [hfds, hrecorded] at hlen
  exact absurd hlen (by decide)

end LibCollector.Ferret.Descriptors
