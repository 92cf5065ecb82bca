import LibCollector.Ferret.PythonNumber
import LibCollector.Ferret.Reader

/-!
# `ferret.py`

`process_trace`, `Process` and the loops of `src/ferret.py` over the samples and the threads
of a trace file. The generator and its consumer are one fold over the rows: a sample is
consumed when it is yielded. `float` is a parameter `F`: `Float` for the script, ℚ for its results
without rounding. An exception is `none`. In place of the geometric mean of some frequencies
(`MHz`) a summary has the frequencies, and dictionaries are ordered by key.
-/

namespace LibCollector.Ferret.Python

open LibCollector.Misc

/-! ## Text -/

/-- `str.split()`: the words between white space. -/
def split (s : Str) : List Str :=
  (pieces ' ' (s.map fun c => if isSpace c then ' ' else c)).filter (· ≠ [])

/-- What a file that is opened as text makes of the ends of lines. -/
def universalNewlines : Str → Str
  | '\r' :: '\n' :: cs => '\n' :: universalNewlines cs
  | '\r' :: cs => '\n' :: universalNewlines cs
  | c :: cs => c :: universalNewlines cs
  | [] => []

variable {F : Type} [OfNat F 0] [Add F] [Sub F] [Mul F] [Div F] [LT F] [LE F] [BEq F]
  [OfScientific F] [DecidableLT F] [DecidableLE F] [Floating F]

/-- `freqScale`. -/
def freqScale (kHz : Str) : Option F :=
  (int kHz).bind fun n => (Floating.ofInt n).map fun kHz => kHz / 1000.0

/-! ## `process_trace` -/

/-- The dictionary `state` that is rebuilt between two `T` rows. -/
structure Sample (F : Type) where
  time : Option F := none
  pid : Option (OrdMap Int (OrdMap Str StatValue)) := none
  cpu : Option (OrdMap Int (Option F)) := none
  deriving DecidableEq

/-- `len(ret)` is zero. -/
instance (state : Sample F) : Decidable (state = {}) :=
  decidable_of_iff (state.time.isNone ∧ state.pid.isNone ∧ state.cpu.isNone) <| by
    cases state
    simp

/-- `process_info`. -/
def processInfo (properties : TraceProperties) (infoRow : List Str) : Option TraceProperties :=
  infoRow.head?.bind fun infoType =>
    let infoData := infoRow.tail
    if infoType = "_SC_CLK_TCK".toList then
      (infoData.head?.bind int).map fun tick => { properties with tick := some tick }
    else if infoType = "CPUList".toList then
      (infoData.mapM int).bind fun v =>
        if v.Nodup then some { properties with cpus := some (v.mergeSort (· ≤ ·)) } else none
    else if infoType = "WatchList".toList then some { properties with watch := infoData }
    else if infoType = "Status".toList then some { properties with statFields := infoData }
    else none

/-- The state that `process_time` begins. -/
def processTime (timeRow : List Str) : Option (Sample F) :=
  (timeRow.head?.bind float).map fun now => { time := some (now * 1.0e-6) }

/-- The keys of `convert` whose values are integers. -/
def intFields : List Str :=
  ["pid".toList, "ppid".toList, "utime".toList, "stime".toList, "cutime".toList, "cstime".toList,
    "num_threads".toList, "starttime".toList, "processor".toList]

/-- `convert[f](v)`. -/
def convert (f v : Str) : Option StatValue :=
  if f = "comm".toList then some (.text v.tail.dropLast)
  else if f ∈ intFields then (int v).map .int
  else none

/-- `d[f]` for an integer. -/
def intField (d : OrdMap Str StatValue) (f : Str) : Option Int :=
  (d.find? f).bind fun
    | .int n => some n
    | .text _ => none

/-- `d[f]` for a text. -/
def textField (d : OrdMap Str StatValue) (f : Str) : Option Str :=
  (d.find? f).bind fun
    | .int _ => none
    | .text s => some s

/-- `process_status`. -/
def processStatus (statFields : List Str) (statusRow : List Str) (state : Sample F) :
    Option (Sample F) :=
  if intFields.length + 1 = statFields.length ∧ statusRow.length = statFields.length then
    ((statFields.zip statusRow).mapM fun p => (convert p.1 p.2).map (p.1, ·)).bind fun data =>
      let dataDict := data.foldl (fun d p => d.insert p.1 p.2) ∅
      (intField dataDict "pid".toList).map fun pid =>
        { state with pid := some ((state.pid.getD ∅).insert pid dataDict) }
  else none

/-- The pairs of `interleave`. -/
def interleave : List Str → List (Str × Str)
  | cpu :: freq :: rest => (cpu, freq) :: interleave rest
  | _ => []

/-- `clamp`. -/
def clamp (freq : F) : Option F := if 0 ≤ freq then some freq else none

/-- `process_cpu`. -/
def processCpu (cpuRow : List Str) (state : Sample F) : Option (Sample F) :=
  ((interleave cpuRow).mapM fun p =>
      (int p.1).bind fun cpu => (freqScale p.2).map fun freq => (cpu, clamp freq)).map fun data =>
    { state with cpu := some (data.foldl (fun d p => d.insert p.1 p.2) ∅) }

/-! ## `Process` -/

/-- `Process`. -/
structure Process (F : Type) where
  label : Option Str := none
  first : Option F := none
  last : Option F := none
  jiffies : Option Int := none
  jiffyPeriod : F
  mcyc : OrdMap Int F
  totJiffies : OrdMap Int Int
  freqList : OrdMap Int (List F)
  deriving DecidableEq

/-- What `Process.summary` returns. -/
structure Summary (F : Type) where
  pid : Int
  name : Option Str
  duration : F
  active : OrdMap Int F
  mcyc : OrdMap Int F
  mhz : OrdMap Int (List F)
  deriving DecidableEq

namespace Process

/-- `Process.__init__`. -/
def new (schedTickHz : Int) (cpuNrs : List Int) : Option (Process F) :=
  if schedTickHz = 0 then none
  else (Floating.ofInt schedTickHz).map fun hz => {
    jiffyPeriod := 1.0 / hz
    mcyc := cpuNrs.foldl (fun m k => m.insert k 0) ∅
    totJiffies := cpuNrs.foldl (fun m k => m.insert k 0) ∅
    freqList := cpuNrs.foldl (fun m k => m.insert k []) ∅ }

/-- The cycles of a CPU after some jiffies at a frequency. -/
def addCycles (p : Process F) (cycles : F) (diffJiffy : Int) (freq : Option F) : Option F :=
  if falsy freq then some cycles
  else (Floating.ofInt diffJiffy).map fun n => cycles + n * p.jiffyPeriod * freq.getD 0

/-- `Process.add`, with `None` for a negative frequency. -/
def add (label : Str) (ts : F) (jiffies : Int) (freq : Option F) (cpuNr : Int) (p : Process F) :
    Option (Process F) :=
  (p.mcyc.find? cpuNr).bind fun cycles =>
    let p := if falsy p.first then { p with first := some ts, jiffies := some jiffies } else p
    p.jiffies.bind fun before =>
      let diffJiffy := jiffies - before
      if diffJiffy ≠ 0 ∧ freq.isNone then none
      else (p.totJiffies.find? cpuNr).bind fun tot =>
        (p.addCycles cycles diffJiffy freq).map fun cycles =>
          { p with
            label := some label
            last := some ts
            jiffies := some jiffies
            totJiffies := p.totJiffies.insert cpuNr (tot + diffJiffy)
            mcyc := if falsy freq then p.mcyc else p.mcyc.insert cpuNr cycles
            freqList := if falsy freq then p.freqList
              else p.freqList.insert cpuNr ((p.freqList.find? cpuNr).getD [] ++ [freq.getD 0]) }

/-- `Process.duration`. -/
def duration (p : Process F) : Option F :=
  p.last.bind fun last => p.first.map fun first => last - first

/-- `Process.active_jiffies`. -/
def activeJiffies (p : Process F) : Option Int :=
  match p.totJiffies.entries.map Prod.snd with
  | [] => none
  | n :: ns => some (ns.foldl (· + ·) n)

/-- The time of some jiffies. -/
def seconds (p : Process F) (jiffies : Int) : Option F :=
  (Floating.ofInt jiffies).map fun n => p.jiffyPeriod * n

/-- `Process.summary`, which may return `None`. -/
def summary (pid : Int) (p : Process F) : Option (Option (Summary F)) :=
  p.activeJiffies.bind fun jiffies => (p.seconds jiffies).bind fun active =>
    if falsy (some active) then some none
    else if ∀ e ∈ p.totJiffies.entries, (p.seconds e.2).isSome then
      p.duration.map fun duration => some {
        pid := pid
        name := p.label
        duration := duration
        active := p.totJiffies.mapVal fun _ n => (p.seconds n).getD 0
        mcyc := p.mcyc
        mhz := p.freqList }
    else none

end Process

/-! ## The samples of a file -/

/-- The variables of `process_trace`. -/
structure Generator (F : Type) where
  properties : TraceProperties := {}
  state : Sample F := {}

/-- The variables of the loop over the samples. -/
structure Consumer (F : Type) where
  initData : Bool := false
  traceStart : Option F := none
  traceEnd : Option F := none
  pidHistory : OrdMap Int (Process F) := ∅
  cpuNrs : List Int := []
  tick : Int := 0

/-- The loop over the threads of a sample. -/
def addThread (sample : Sample F) (tick : Int) (cpuNrs : List Int)
    (pidHistory : OrdMap Int (Process F)) (e : Int × OrdMap Str StatValue) :
    Option (OrdMap Int (Process F)) := do
  let processor ← intField e.2 "processor".toList
  guard (processor ∈ cpuNrs)
  let freq ← sample.cpu.bind fun cpu => cpu.find? processor
  let process ← (pidHistory.find? e.1).or (Process.new tick cpuNrs)
  let comm ← textField e.2 "comm".toList
  let utime ← intField e.2 "utime".toList
  let stime ← intField e.2 "stime".toList
  let ts ← sample.time
  let process ← process.add comm ts (utime + stime) freq processor
  pure (pidHistory.insert e.1 process)

/-- The loop over the samples, for `--start` and `--end`. -/
def consume (start stop : F) (properties : TraceProperties) (c : Consumer F) (sample : Sample F) :
    Option (Consumer F) := do
  let c ← if c.initData then some c else do
    let tick ← properties.tick
    let cpus ← properties.cpus
    guard (∀ p ∈ c.cpuNrs.zip cpus, p.1 = p.2)
    pure { c with tick := tick, cpuNrs := cpus, initData := true }
  let time ← sample.time
  if 0 < start ∧ time < start then pure c
  else if 0 < stop ∧ stop ≤ time then pure c
  else do
    let threads ← sample.pid
    let pidHistory ← threads.entries.foldlM (addThread sample c.tick c.cpuNrs) c.pidHistory
    pure { c with
      traceStart := if falsy c.traceStart then some time else c.traceStart
      traceEnd := some time
      pidHistory := pidHistory }

/-- One row of the file. A `T` row yields the state, unless it is empty. -/
def processRow (start stop : F) (r : Generator F × Consumer F) (row : Str) :
    Option (Generator F × Consumer F) :=
  match split row with
  | [] => none
  | recordType :: rowData =>
    if recordType = ['I'] then
      (processInfo r.1.properties rowData).map fun properties =>
        ({ r.1 with properties := properties }, r.2)
    else if recordType = ['T'] then
      (processTime rowData).bind fun state =>
        (if r.1.state = {} then some r.2
          else consume start stop r.1.properties r.2 r.1.state).map fun c =>
            ({ r.1 with state := state }, c)
    else if recordType = ['S'] then
      (processStatus r.1.properties.statFields rowData r.1.state).map fun state =>
        ({ r.1 with state := state }, r.2)
    else if recordType = ['F'] then
      (processCpu rowData r.1.state).map fun state => ({ r.1 with state := state }, r.2)
    else if recordType = ['#'] ∨ recordType = ['E'] then some r
    else none

/-- The rows of a file, and the sample that is yielded after the last of them. -/
def processTrace (start stop : F) (cpuNrs : List Int) (text : Str) : Option (Consumer F) :=
  ((pieces '\n' (universalNewlines text)).foldlM (processRow start stop)
      ({}, { cpuNrs := cpuNrs })).bind fun r => consume start stop r.1.properties r.2 r.1.state

/-- What is appended to the results for a thread: nothing if it is insignificant. -/
def result (traceStart traceEnd : Option F) (e : Int × Process F) :
    Option (List (Option (Summary F))) := do
  let active ← e.2.activeJiffies
  if 0 < active then do
    let duration ← e.2.duration
    let traceEnd ← traceEnd
    let traceStart ← traceStart
    if 0.01 * (traceEnd - traceStart) < duration then do
      let summary ← e.2.summary e.1
      pure [summary]
    else pure []
  else pure []

/-- The results for a file, and the CPU numbers for the next one. -/
def results (start stop : F) (cpuNrs : List Int) (text : Str) :
    Option (List Int × List (Option (Summary F))) := do
  let c ← processTrace start stop cpuNrs text
  let summaries ← c.pidHistory.entries.mapM (result c.traceStart c.traceEnd)
  pure (c.cpuNrs, summaries.flatten)

/-! ## Without rounding -/

theorem freqScale_rat (kHz : Str) :
    freqScale kHz = (int kHz).map fun n : Int => (n : ℚ) / 1000 := by
  have hscale : (1000.0 : ℚ) = 1000 := by norm_num
  rw [freqScale, hscale]
  cases int kHz <;> rfl

theorem processTime_rat (n : Int) :
    processTime [toChars n] = some { time := some ((n : ℚ) / 1000000) } := by
  have hscale : (1.0e-6 : ℚ) = 1 / 1000000 := by norm_num
  rw [processTime, List.head?_cons, Option.bind_some, float_toChars, Option.map_some, hscale,
    mul_one_div]

namespace Process

theorem new_rat (schedTickHz : Int) (cpuNrs : List Int) : new schedTickHz cpuNrs =
    if schedTickHz = 0 then none
    else some {
      jiffyPeriod := (1 : ℚ) / schedTickHz
      mcyc := cpuNrs.foldl (fun m k => m.insert k 0) ∅
      totJiffies := cpuNrs.foldl (fun m k => m.insert k 0) ∅
      freqList := cpuNrs.foldl (fun m k => m.insert k []) ∅ } := by
  have hone : (1.0 : ℚ) = 1 := by norm_num
  rw [new, hone]
  rfl

/-- `Process.add` on rational numbers, where no addition is out of range. -/
theorem add_rat (label : Str) (ts : ℚ) (jiffies : Int) (freq : Option ℚ) (cpuNr : Int)
    (p : Process ℚ) : p.add label ts jiffies freq cpuNr =
  (p.mcyc.find? cpuNr).bind fun cycles =>
    let p := if p.first.getD 0 = 0 then { p with first := some ts, jiffies := some jiffies } else p
    p.jiffies.bind fun before =>
      let diffJiffy := jiffies - before
      if diffJiffy ≠ 0 ∧ freq = none then none
      else (p.totJiffies.find? cpuNr).map fun tot =>
        { p with
          label := some label
          last := some ts
          jiffies := some jiffies
          totJiffies := p.totJiffies.insert cpuNr (tot + diffJiffy)
          mcyc := if freq.getD 0 ≠ 0 then
              p.mcyc.insert cpuNr (cycles + diffJiffy * p.jiffyPeriod * freq.getD 0)
            else p.mcyc
          freqList := if freq.getD 0 ≠ 0 then
              p.freqList.insert cpuNr ((p.freqList.find? cpuNr).getD [] ++ [freq.getD 0])
            else p.freqList } := by
  simp only [add, addCycles, falsy_rat, Option.isNone_iff_eq_none, ofInt_rat, Option.map_some]
  refine congrArg _ (funext fun cycles => congrArg _ (funext fun before => ?_))
  by_cases hplugged : jiffies - before ≠ 0 ∧ freq = none
  · rw [if_pos hplugged, if_pos hplugged]
  · rw [if_neg hplugged, if_neg hplugged, Option.map_eq_bind]
    refine congrArg _ (funext fun tot => ?_)
    by_cases hzero : freq.getD 0 = 0
    · simp only [hzero, if_true, Option.map_some, ne_eq, not_true_eq_false, if_false,
        Function.comp_apply]
    · simp only [hzero, if_false, Option.map_some, ne_eq, not_false_eq_true, if_true,
        Function.comp_apply]

theorem summary_rat (pid : Int) (p : Process ℚ) : p.summary pid = p.activeJiffies.bind fun active =>
    if p.jiffyPeriod * active = 0 then some none
    else p.duration.map fun duration => some {
      pid := pid
      name := p.label
      duration := duration
      active := p.totJiffies.mapVal fun _ (n : Int) => p.jiffyPeriod * n
      mcyc := p.mcyc
      mhz := p.freqList } := by
  simp only [summary, seconds, ofInt_rat, Option.map_some, Option.bind_some, falsy_rat,
    Option.getD_some, Option.isSome_some, implies_true, if_true]

end Process

theorem result_rat (traceStart traceEnd : Option ℚ) (e : Int × Process ℚ) :
    result traceStart traceEnd e = (do
      let active ← e.2.activeJiffies
      if 0 < active then
        let duration ← e.2.duration
        let traceEnd ← traceEnd
        let traceStart ← traceStart
        if 1 / 100 * (traceEnd - traceStart) < duration then
          let summary ← e.2.summary e.1
          pure [summary]
        else pure []
      else pure []) := by
  have hpart : (0.01 : ℚ) = 1 / 100 := by norm_num
  rw [result, hpart]

end LibCollector.Ferret.Python
