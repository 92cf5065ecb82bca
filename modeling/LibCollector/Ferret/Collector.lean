import LibCollector.Misc.OrdMap
import LibCollector.Misc.Run
import LibCollector.Ferret.ParseStat
import Mathlib.Data.List.Lex
import Mathlib.Data.Char

/-!
# The ferret collector

`FerretCollector` of `src/collectors/ferret.cpp`: the life cycle of the collector
(`init`, `start`, `collect`, `stop`) and everything a `collect()` call does with
`/proc`, the trace file and the status descriptor. What the kernel answers during
one call is a `Proc`; a failed assertion ends the process and is `none`. File
names, debug output and the duration of the calls are left out.
-/

namespace LibCollector.Ferret

open LibCollector.Misc

/-! ## What the kernel answers -/

/-- The result of `open`, and whether `errno` is `ENFILE` after it. -/
structure OpenResult where
  fd : Int
  enfile : Bool := false
  deriving DecidableEq

/-- An entry of `/proc`: its name, what opening its `cmdline` gives, and the bytes read from
    there (none when `read` fails or finds the end of the file). -/
structure ProcEntry where
  dName : Str
  cmdline : OpenResult
  data : Str
  deriving DecidableEq

/-- The answers of the kernel during one call. A directory may be read several times during a
    call, with another result each time, so the answers are numbered. -/
structure Proc where
  /-- The argument of `collect()`. -/
  now : Int
  /-- The entries of `/proc` when the process name number `i` is looked for. -/
  scan : Nat → Option (List ProcEntry)
  /-- The entries of a task directory during the enumeration number `i`. -/
  tasks : Nat → Str → Option (List Str)
  /-- Opening the `stat` file of a thread in a directory during the enumeration number `i`. -/
  openStat : Nat → Str → Str → OpenResult
  /-- Opening the `scaling_cur_freq` file of a CPU. -/
  openFreq : Int → OpenResult
  /-- Whether `lseek` to the start of a new descriptor succeeds. -/
  seekOk : Int → Bool
  /-- The bytes a descriptor reads; none when `read` fails or finds the end of the file. -/
  read : Int → Str

/-- A `/proc` without processes, in which nothing can be opened or read. -/
def Proc.bare (now : Int) : Proc where
  now := now
  scan := fun _ => some []
  tasks := fun _ _ => none
  openStat := fun _ _ _ => ⟨-1, false⟩
  openFreq := fun _ => ⟨-1, false⟩
  seekOk := fun _ => true
  read := fun _ => []

/-! ## The state -/

/-- The members of `FerretCollector`. Times are in microseconds, `mPollTimeout` is in seconds. -/
structure FerretCollector where
  mInitSuccess : Bool
  mCollecting : Bool
  mClockTicks : Int
  mCpus : List Int
  mStatusFd : Int
  mPid : Str
  mProcessNames : List Str
  mPids : List Str
  mWatchList : List Str
  mFirstCollect : Int
  mPollTimeout : Int
  mPidFdMap : OrdMap Str Int
  mCpufreqFdMap : OrdMap Int Int
  deriving DecidableEq

/-- What the constructor takes from the system and from the JSON configuration. -/
structure FerretConfig where
  clockTicks : Int
  pid : Str
  cpus : List Int
  /-- The CPU numbers are the values of `asInt()`. -/
  cpusInt : ∀ cpu ∈ cpus, IsInt32 cpu := by decide
  processNames : List Str := []
  pollTimeout : Int := 30
  statusFd : Int := -1

/-- The only CPU is the first one. -/
theorem cpusInt_zero : ∀ cpu ∈ [(0 : Int)], IsInt32 cpu := by decide

/-- A row of the trace file. A `stat` row remembers whose buffer it was made of. -/
inductive Row where
  | time (now : Int)
  | freqError (cpus : List Int)
  | freq (entries : List (Int × Str))
  | stat (pid : Str) (buf : Str)
  | gone (pid : Str)
  deriving DecidableEq

/-- The bytes of a row. -/
def Row.text : Row → Str
  | .time now => "T ".toList ++ toChars now ++ ['\n']
  | .freqError cpus =>
    'E' :: cpus.flatMap (fun cpu => " (CPU ".toList ++ toChars cpu ++
      " freq read() failed)".toList) ++ ['\n']
  | .freq entries => 'F' :: entries.flatMap (fun e => ' ' :: toChars e.1 ++ ' ' :: e.2) ++ ['\n']
  | .stat _ buf => 'S' :: parseStat buf ++ ['\n']
  | .gone pid => "E ".toList ++ pid ++ " has gone\n".toList

/-- A call of `open_pid_fd`: what it returned, and the descriptor its thread is mapped to then. -/
structure OpenCall where
  pid : Str
  returned : Bool
  mapped : Option Int
  deriving DecidableEq

/-! ## Finding processes by name -/

/-- `atoi` of a name that starts with a digit. -/
def atoi (s : Str) : Int := Nat.ofDigitChars 10 (s.takeWhile Char.isDigit) 0

/-- The walk of `poll_for_named_process` over `/proc`. -/
def findNamed (name : Str) : List ProcEntry → Option Int
  | [] => some 0
  | e :: es =>
    if e.dName.head?.any Char.isDigit then
      if 0 < e.cmdline.fd then
        if e.data ≠ [] ∧ cstr name = cstr (e.data.take 100) then some (atoi e.dName)
        else findNamed name es
      else if e.cmdline.enfile then none
      else findNamed name es
    else findNamed name es

/-- `FerretCollector::poll_for_named_process`. -/
def pollForNamedProcess (env : Proc) (i : Nat) (name : Str) : Option Int :=
  match env.scan i with
  | none => some (-1)
  | some entries => findNamed name entries

/-- The polling loop of `collect()`: the names still not found, and the pids of the others. -/
def pollWatchList (env : Proc) : Nat → List Str → Option (List Str × List Str)
  | _, [] => some ([], [])
  | i, w :: ws =>
    (pollForNamedProcess env i w).bind fun pid =>
      if pid < 0 then none
      else (pollWatchList env (i + 1) ws).map fun rest =>
        if 0 < pid then (rest.1, toChars pid :: rest.2) else (w :: rest.1, rest.2)

/-! ## Opening the threads -/

/-- `FerretCollector::open_pid_fd`. -/
def openPidFd (env : Proc) (i : Nat) (dir pid : Str) (m : OrdMap Str Int) :
    Option (Bool × OrdMap Str Int) :=
  if m.find? pid = none then
    let r := env.openStat i dir pid
    if r.fd < 0 then if r.enfile then none else some (false, m)
    else if env.seekOk r.fd then some (true, m.insert pid r.fd)
    else some (false, m)
  else some (true, m)

/-- The directory of the threads of a process. -/
def taskDir (pid : Str) : Str := "/proc/".toList ++ pid ++ "/task".toList

/-- The loop of `enumerate_tasks` over the entries of the task directory. -/
def openTasks (env : Proc) (i : Nat) (dir : Str) :
    List Str → OrdMap Str Int → Option (OrdMap Str Int × List OpenCall)
  | [], m => some (m, [])
  | d :: ds, m =>
    if d.head?.any Char.isDigit then
      (openPidFd env i dir d m).bind fun r =>
        (openTasks env i dir ds r.2).map fun rest =>
          (rest.1, ⟨d, r.1, r.2.find? d⟩ :: rest.2)
    else openTasks env i dir ds m

/-- `FerretCollector::enumerate_tasks`. -/
def enumerateTasks (env : Proc) (i : Nat) (pid : Str) (m : OrdMap Str Int) :
    Option (OrdMap Str Int × List OpenCall) :=
  match env.tasks i (taskDir pid) with
  | none => some (m, [])
  | some entries => openTasks env i (taskDir pid) entries m

/-- `enumerate_tasks` for each of `pids`, with the numbers from `i` on. -/
def enumerateAll (env : Proc) : Nat → List Str → OrdMap Str Int →
    Option (OrdMap Str Int × List OpenCall)
  | _, [], m => some (m, [])
  | i, pid :: pids, m =>
    (enumerateTasks env i pid m).bind fun r =>
      (enumerateAll env (i + 1) pids r.1).map fun rest => (rest.1, r.2 ++ rest.2)

/-! ## Writing the rows -/

/-- `FerretCollector::collect_freqs`. The last byte of what is read is dropped. -/
def collectFreqs (env : Proc) (m : OrdMap Int Int) : List Row :=
  let failed := (m.entries.filter fun e => env.read e.2 = []).map Prod.fst
  let freqs := (m.entries.filter fun e => env.read e.2 ≠ []).map fun e =>
    (e.1, cstr ((env.read e.2).take 100).dropLast)
  (if failed = [] then [] else [Row.freqError failed]) ++
    if freqs = [] then [] else [Row.freq freqs]

/-- The row of `collect_perproc` for one entry of the map. -/
def perprocRow (env : Proc) (pid : Str) (fd : Int) : List Row :=
  if fd < 0 then []
  else if env.read fd = [] then [.gone pid]
  else [.stat pid ((env.read fd).take 4096)]

/-- What `collect_perproc` leaves of one entry of the map. -/
def perprocFd (env : Proc) (fd : Int) : Int :=
  if fd < 0 then fd else if env.read fd = [] then -1 else fd

/-- `FerretCollector::collect_perproc`. -/
def collectPerproc (env : Proc) (m : OrdMap Str Int) : OrdMap Str Int × List Row :=
  (m.mapVal fun _ => perprocFd env, m.entries.flatMap fun e => perprocRow env e.1 e.2)

/-- `notify`, with `lastStatus` handed through: its new value, and what is written to `fd`. -/
def notify (fd status last : Int) : Int × List Int :=
  if fd < 0 then (last, [])
  else if last ≠ status then (status, [status])
  else (last, [])

/-- The number of processes that `collect()` still counts as running. The counter starts at the
    length of `mPids` and loses one for each process that is mapped to a negative descriptor, so
    the assertion on it holds. -/
def activeCount (pids : List Str) (m : OrdMap Str Int) : Nat :=
  pids.length - pids.countP fun pid => (m.find? pid).any (· < 0)

/-! ## `collect()` -/

/-- What a `collect()` call leaves behind: the collector, the static `lastStatus`, the statuses it
    handed to `notify` and those that were written, its trace rows, its calls of `open_pid_fd`,
    and its local variable `active` if it got there. -/
structure Outcome where
  collector : FerretCollector
  lastStatus : Int
  statuses : List Int
  written : List Int
  rows : List Row
  opened : List OpenCall
  active : Option Nat

namespace FerretCollector

/-- `collect()` while names are still looked for. -/
def await (env : Proc) (last : Int) (c : FerretCollector) : Outcome :=
  if c.mPollTimeout * 1000000 < env.now - c.mFirstCollect then
    let n := notify c.mStatusFd (-1) last
    ⟨c, n.1, [-1], n.2, [], [], none⟩
  else ⟨c, last, [], [], [], [], none⟩

/-- `collect()` once every name is found and the threads are opened. -/
def sampled (env : Proc) (last : Int) (c : FerretCollector)
    (opened : OrdMap Str Int × List OpenCall) : Outcome :=
  let n := notify c.mStatusFd 1 last
  let perproc := collectPerproc env opened.1
  let active := activeCount c.mPids perproc.1
  let e := if active = 0 then notify c.mStatusFd 0 n.1 else (n.1, [])
  { collector := { c with mPidFdMap := perproc.1 }
    lastStatus := e.1
    statuses := if active = 0 then [1, 0] else [1]
    written := n.2 ++ e.2
    rows := .time env.now :: collectFreqs env c.mCpufreqFdMap ++ perproc.2
    opened := opened.2
    active := some active }

/-- `collect()` once every name is found. -/
def sample (env : Proc) (last : Int) (c : FerretCollector) : Option Outcome :=
  (enumerateAll env 0 (c.mPid :: c.mPids) c.mPidFdMap).map (c.sampled env last)

/-- The collector with the time of the first call. -/
def firstCall (env : Proc) (c : FerretCollector) : FerretCollector :=
  if c.mFirstCollect = 0 then { c with mFirstCollect := env.now } else c

/-- The collector once the names `found` have become pids and the names `left` are awaited. -/
def polled (env : Proc) (c : FerretCollector) (left found : List Str) : FerretCollector :=
  { c.firstCall env with mWatchList := left, mPids := c.mPids ++ found }

/-- `FerretCollector::collect`. -/
def collect (env : Proc) (last : Int) (c : FerretCollector) : Option Outcome :=
  if c.mInitSuccess = false ∨ c.mCollecting = false then none
  else
    (pollWatchList env 0 c.mWatchList).bind fun r =>
      if r.1 ≠ [] then some ((c.polled env r.1 r.2).await env last)
      else (c.polled env r.1 r.2).sample env last

/-! ## Life cycle -/

/-- The constructor. -/
def construct (config : FerretConfig) : FerretCollector where
  mInitSuccess := false
  mCollecting := false
  mClockTicks := config.clockTicks
  mCpus := config.cpus
  mStatusFd := config.statusFd
  mPid := config.pid
  mProcessNames := config.processNames
  mPids := []
  mWatchList := []
  mFirstCollect := 0
  mPollTimeout := config.pollTimeout
  mPidFdMap := ∅
  mCpufreqFdMap := ∅

/-- `FerretCollector::open_cpufreq_fds`. -/
def openCpufreqFds (env : Proc) : List Int → OrdMap Int Int → Option (OrdMap Int Int)
  | [], m => some m
  | cpu :: cpus, m =>
    if m.find? cpu = none then
      let r := env.openFreq cpu
      if r.fd < 0 then if r.enfile then none else openCpufreqFds env cpus m
      else if env.seekOk r.fd then openCpufreqFds env cpus (m.insert cpu r.fd)
      else openCpufreqFds env cpus m
    else openCpufreqFds env cpus m

/-- `open_pid_fds` for each of the pids that an earlier run has found. -/
def openPidFds (env : Proc) : Nat → List Str → OrdMap Str Int → Option (OrdMap Str Int)
  | _, [], m => some m
  | i, pid :: pids, m =>
    (openPidFd env i "/proc".toList pid m).bind fun r =>
      (enumerateTasks env i pid r.2).bind fun opened => openPidFds env (i + 1) pids opened.1

/-- `FerretCollector::init`. -/
def init (env : Proc) (c : FerretCollector) : Option FerretCollector :=
  if c.mInitSuccess then some c
  else
    (openCpufreqFds env c.mCpus c.mCpufreqFdMap).bind fun freqs =>
      let cpusOk := c.mCpus ≠ [] ∧ freqs.keys.length = c.mCpus.length
      (if cpusOk then openPidFds env 0 c.mPids c.mPidFdMap else some c.mPidFdMap).map fun fds =>
        if cpusOk ∧ (c.mProcessNames ≠ [] → 0 ≤ c.mStatusFd) then
          { c with mInitSuccess := true, mCpufreqFdMap := freqs, mPidFdMap := fds }
        else { c with mCpufreqFdMap := ∅, mPidFdMap := ∅ }

/-- `FerretCollector::deinit`. -/
def deinit (c : FerretCollector) : FerretCollector :=
  { c with mInitSuccess := false, mCpufreqFdMap := ∅, mPidFdMap := ∅ }

/-- `FerretCollector::start`, where `traceOk` tells whether the trace file could be opened and
    its header written. -/
def start (traceOk : Bool) (c : FerretCollector) : FerretCollector :=
  if c.mInitSuccess = false ∨ c.mCollecting = true then c
  else { c with mFirstCollect := 0, mWatchList := c.mProcessNames, mCollecting := traceOk }

/-- `FerretCollector::stop`. -/
def stop (c : FerretCollector) : FerretCollector := { c with mCollecting := false }

/-- The header that `start()` writes. -/
def header (c : FerretCollector) : Str :=
  "I _SC_CLK_TCK ".toList ++ toChars c.mClockTicks ++ ['\n'] ++
  "I CPUList".toList ++ c.mCpus.flatMap (fun cpu => ' ' :: toChars cpu) ++ ['\n'] ++
  "I WatchList".toList ++ c.mProcessNames.flatMap (' ' :: ·) ++ ['\n'] ++
  "I Status".toList ++ pidStatSpec.flatMap (fun spec => ' ' :: spec.1) ++ ['\n']

end FerretCollector

end LibCollector.Ferret
