import LibCollector.Misc.Scanf
import Mathlib.Data.Rat.Lemmas
import Mathlib.Data.UInt

/-!
# The procfs collector

`ProcFSStatCollector` of `src/collectors/procfs_stat.cpp`, which reads the CPU time of the
process from its stat line. What the kernel answers is an input; `double` is ℚ, without
rounding.
-/

namespace LibCollector.Collectors

open LibCollector.Misc

/-- The directives of the format of `parse` behind the state. -/
def statNumbers : List Directive :=
  [.int 32, .int 32, .int 32, .int 32, .int 32, .uint 32, .uint 64, .uint 64, .uint 64, .uint 64,
    .uint 64, .uint 64, .uint 32, .uint 32, .int 32, .int 32, .int 32]

/-- The format of `parse`. -/
def statFormat : List Directive :=
  .int 32 :: .space :: .word :: .space :: .char :: spaced statNumbers

/-- The variables that `parse` uses behind `sscanf`. -/
structure ProcStat where
  utime : Int
  stime : Int
  cutime : Int
  cstime : Int
  numThreads : Int
  deriving DecidableEq

/-- The number that a conversion has stored. -/
def storedInt (vals : List Scanned) (i : Nat) : Int :=
  match vals[i]? with
  | some (.int n) => n
  | _ => 0

/-- What `parse` reads from the buffer, `none` when it returns false; `comm` is taken to fit its
    array. -/
def scanProcStat (buffer : Str) : Option ProcStat :=
  let vals := sscanf statFormat buffer
  if vals.length = 20 then
    some {
      utime := storedInt vals 13
      stime := storedInt vals 14
      cutime := storedInt vals 15
      cstime := storedInt vals 16
      numThreads := storedInt vals 19 }
  else none

/-- `tot_time`. -/
def ProcStat.totTime (v : ProcStat) : UInt64 :=
  .ofInt v.utime + .ofInt v.stime + .ofInt v.cutime + .ofInt v.cstime

/-- What one successful `collect()` adds. -/
@[ext]
structure ProcSample where
  cpuTime : ℚ
  threads : Int
  deriving DecidableEq

/-- The members of `ProcFSStatCollector`. -/
structure ProcFsStatCollector where
  mTicks : Int
  mLastSampleTime : UInt64 := 0
  ticks_ne : mTicks ≠ 0
  deriving DecidableEq

namespace ProcFsStatCollector

/-- The constructor avoids a division by zero. -/
theorem ticks_ne_zero (ticks : Int) : (if ticks = 0 then 1 else ticks) ≠ 0 := by
  split_ifs with h
  · decide
  · exact h

/-- The constructor, for what `sysconf` returns. -/
def construct (ticks : Int) : ProcFsStatCollector where
  mTicks := if ticks = 0 then 1 else ticks
  ticks_ne := ticks_ne_zero ticks

/-- `ProcFSStatCollector::parse` behind `sscanf`. -/
def parse (v : ProcStat) (c : ProcFsStatCollector) : ProcFsStatCollector × ProcSample :=
  let totTime := v.totTime
  if c.mLastSampleTime = 0 then
    ({ c with mLastSampleTime := totTime }, ⟨0, v.numThreads⟩)
  else
    ({ c with mLastSampleTime := totTime },
      ⟨((totTime - c.mLastSampleTime).toNat : ℚ) / c.mTicks, v.numThreads⟩)

/-- `SysfsCollector::collect` with this `parse`, for what is read. A sample that fails adds
    nothing. -/
def collect (read : Option Str) (c : ProcFsStatCollector) :
    ProcFsStatCollector × Option ProcSample :=
  match read.bind scanProcStat with
  | none => (c, none)
  | some v =>
    let r := c.parse v
    (r.1, some r.2)

end ProcFsStatCollector

end LibCollector.Collectors
