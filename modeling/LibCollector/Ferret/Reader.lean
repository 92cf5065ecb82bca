import LibCollector.Misc.OrdMap
import LibCollector.Misc.Text
import Mathlib.Data.List.Lex
import Mathlib.Data.Char
import Mathlib.Algebra.Order.Ring.Rat
import Mathlib.Data.Rat.Lemmas

/-!
# Post-processing a ferret trace

`postprocess_ferret_data` of `src/collectors/ferret.cpp`, the C++ port of `ferret.py`:
it reads the rows of a trace file, and each `T` row hands the state that the rows
before it have built to the accounts of the threads (`FerretProcess`). `double` is
ℚ, without rounding; `int` arithmetic wraps; a failed assertion or conversion is
`none`. The geometric mean of the frequencies (`MHz`) is left out.
-/

namespace LibCollector.Ferret

open LibCollector.Misc

/-! ## The account of a thread -/

/-- `FerretProcess`. The maps are indexed by the text of a CPU number. -/
structure FerretProcess where
  label : Str
  first : ℚ
  last : ℚ
  jiffyPeriod : ℚ
  jiffies : Int
  totJiffiesAllCpus : Int
  mcyc : OrdMap Str ℚ
  totJiffies : OrdMap Str Int
  deriving DecidableEq

/-- What `FerretProcess::summary` reports. -/
structure Summary where
  pid : Str
  name : Str
  duration : ℚ
  activeSum : ℚ
  active : OrdMap Str ℚ
  mcycSum : ℚ
  mcyc : OrdMap Str ℚ
  deriving DecidableEq

namespace FerretProcess

/-- `FerretProcess::FerretProcess( schedTickHz, cpuNrs )`. -/
def new (schedTickHz : Int) (cpuNrs : List Int) : FerretProcess where
  label := []
  first := 0
  last := 0
  jiffyPeriod := 1 / schedTickHz
  jiffies := 0
  totJiffiesAllCpus := 0
  mcyc := cpuNrs.foldl (fun m i => m.insert (toChars i) 0) ∅
  totJiffies := cpuNrs.foldl (fun m i => m.insert (toChars i) 0) ∅

/-- `FerretProcess::add`. -/
def add (nlabel : Str) (ts : ℚ) (njiffies : Int) (freq : ℚ) (cpuNr : Int) (p : FerretProcess) :
    FerretProcess :=
  let cpuIndex := toChars cpuNr
  let p := if p.first = 0 then { p with first := ts, jiffies := njiffies } else p
  let diffJiffy := int32 (njiffies - p.jiffies)
  { p with
    label := nlabel
    last := ts
    jiffies := njiffies
    totJiffiesAllCpus := int32 (p.totJiffiesAllCpus + diffJiffy)
    totJiffies := p.totJiffies.insert cpuIndex
      (int32 ((p.totJiffies.find? cpuIndex).getD 0 + diffJiffy))
    mcyc := if freq ≠ 0 then
        p.mcyc.insert cpuIndex
          ((p.mcyc.find? cpuIndex).getD 0 + diffJiffy * p.jiffyPeriod * freq)
      else p.mcyc }

/-- `FerretProcess::duration`. -/
def duration (p : FerretProcess) : ℚ := p.last - p.first

/-- `FerretProcess::summary`; `none` is the null it returns for a thread that was not active. -/
def summary (pid : Str) (p : FerretProcess) : Option Summary :=
  if p.jiffyPeriod * p.totJiffiesAllCpus = 0 then none
  else some {
    pid := pid
    name := p.label
    duration := p.duration
    activeSum := (p.totJiffies.entries.map fun e => (e.2 : ℚ) * p.jiffyPeriod).sum
    active := p.totJiffies.mapVal fun _ (n : Int) => (n : ℚ) * p.jiffyPeriod
    mcycSum := (p.totJiffies.keys.map fun k => (p.mcyc.find? k).getD 0).sum
    mcyc := p.mcyc }

end FerretProcess

/-! ## The state -/

/-- A field of a `S` row. -/
inductive StatValue where
  | int (n : Int)
  | text (s : Str)
  deriving DecidableEq

/-- `asInt()`, with 0 for a missing member. -/
def StatValue.asInt : Option StatValue → Int
  | some (.int n) => n
  | _ => 0

/-- `asString()`, with the empty string for a missing member. -/
def StatValue.asString : Option StatValue → Str
  | some (.text s) => s
  | _ => []

/-- The JSON object `state` that is rebuilt between two `T` rows. -/
structure Sample where
  time : Option ℚ := none
  pid : Option (OrdMap Str (OrdMap Str StatValue)) := none
  cpu : Option (OrdMap Str ℚ) := none
  deriving DecidableEq

/-- The JSON object `traceProperties`. -/
structure TraceProperties where
  tick : Option Int := none
  cpus : Option (List Int) := none
  watch : List Str := []
  statFields : List Str := []
  deriving DecidableEq

/-- The local variables of `postprocess_ferret_data`, and the samples that the `T` rows have
    delivered. -/
structure Postprocess where
  traceProperties : TraceProperties
  state : Sample
  pidHistory : OrdMap Str FerretProcess
  hasData : Bool
  initData : Bool
  started : Bool
  traceStart : ℚ
  traceEnd : ℚ
  cpuNrs : List Int
  tick : Int
  delivered : List Sample
  deriving DecidableEq

/-- The JSON object that is returned. -/
structure Results where
  processResults : List Summary
  mainThreadIndex : Nat
  mainThreadMegacycles : ℚ
  megacyclesSum : ℚ

/-! ## One row -/

/-- `infoTypeMap[ infoType ]`, which is 0 for a type that is not in the map. -/
def infoTypeMap (infoType : Str) : Nat :=
  if infoType = "CPUList".toList then 1
  else if infoType = "WatchList".toList then 2
  else if infoType = "Status".toList then 3
  else 0

/-- `ferret_process_info`. -/
def ferretProcessInfo (rowData : List Str) (props : TraceProperties) : Option TraceProperties :=
  rowData[1]?.bind fun infoType =>
    match infoTypeMap infoType with
    | 0 => (rowData[2]?.bind stoi).map fun tick => { props with tick := some tick }
    | 1 => ((rowData.drop 2).mapM stoi).bind fun cpus =>
      if cpus.Nodup then some { props with cpus := some (cpus.mergeSort (· ≤ ·)) } else none
    | 2 => some { props with watch := rowData.drop 2 }
    | _ => some { props with statFields := rowData.drop 2 }

/-- `ferret_process_time`. -/
def ferretProcessTime (rowData : List Str) : Option Sample :=
  (rowData[1]?.bind stol).map fun (now : Nat) => { time := some ((now : ℚ) / 1000000) }

/-- The loop of `ferret_process_status` over the fields of a row: the text of the `pid` field, and
    the dictionary. -/
def readStatus : List Str → List Str → Str × OrdMap Str StatValue →
    Option (Str × OrdMap Str StatValue)
  | _, [], acc => some acc
  | labels, w :: ws, (pid, dict) =>
    let label := labels.headD []
    if label = "comm".toList then
      if w.length < 2 then none
      else readStatus labels.tail ws (pid, dict.insert label (.text w.tail.dropLast))
    else (stoi w).bind fun n =>
      readStatus labels.tail ws
        (if label = "pid".toList then w else pid, dict.insert label (.int n))

/-- `ferret_process_status`. -/
def ferretProcessStatus (statFields : List Str) (rowData : List Str) (state : Sample) :
    Option Sample :=
  (readStatus statFields rowData.tail ([], ∅)).map fun r =>
    { state with pid := some ((state.pid.getD ∅).insert r.1 r.2) }

/-- The loops of `ferret_process_cpu`; a CPU number without a frequency is read out of bounds. -/
def readCpu : List Str → OrdMap Str ℚ → Option (OrdMap Str ℚ)
  | cpu :: freq :: rest, m =>
    (stoi freq).bind fun (f : Int) => readCpu rest (m.insert cpu ((f : ℚ) / 1000))
  | [], m => some m
  | [_], _ => none

/-- `ferret_process_cpu`. -/
def ferretProcessCpu (rowData : List Str) (state : Sample) : Option Sample :=
  (readCpu rowData.tail ∅).map fun m => { state with cpu := some m }

/-! ## A delivered sample -/

/-- What a delivered sample adds to the account of one thread. -/
def addThread (banned : List Str) (sample : Sample) (tick : Int) (cpuNrs : List Int)
    (history : OrdMap Str FerretProcess) (e : Str × OrdMap Str StatValue) :
    Option (OrdMap Str FerretProcess) :=
  let comm := StatValue.asString (e.2.find? "comm".toList)
  if comm ∈ banned then some history
  else
    let processor := StatValue.asInt (e.2.find? "processor".toList)
    if processor ∉ cpuNrs then none
    else
      let process := (history.find? e.1).getD (FerretProcess.new tick cpuNrs)
      let ustime := int32 (StatValue.asInt (e.2.find? "utime".toList) +
        StatValue.asInt (e.2.find? "stime".toList))
      let freq := ((sample.cpu.getD ∅).find? (toChars processor)).getD 0
      some (history.insert e.1 (process.add comm (sample.time.getD 0) ustime freq processor))

namespace Postprocess

/-- The state before the first row. -/
def init : Postprocess where
  traceProperties := {}
  state := {}
  pidHistory := ∅
  hasData := false
  initData := false
  started := false
  traceStart := 0
  traceEnd := 0
  cpuNrs := []
  tick := 100
  delivered := []

/-- What happens to the sample that stands in `state` at a `T` row. -/
def deliver (banned : List Str) (st : Postprocess) : Option Postprocess :=
  if st.state = {} then some st
  else
    (if st.initData then some st
      else st.traceProperties.cpus.map fun cpus =>
        { st with
          tick := st.traceProperties.tick.getD 0
          cpuNrs := st.cpuNrs ++ cpus
          initData := true }).bind fun st =>
      let time := st.state.time.getD 0
      ((st.state.pid.getD ∅).entries.foldlM
          (addThread banned st.state st.tick st.cpuNrs) st.pidHistory).map fun history =>
        { st with
          traceStart := if st.started then st.traceStart else time
          started := true
          traceEnd := time
          pidHistory := history
          delivered := st.delivered ++ [st.state] }

/-- The handler of `record_map` for a row. -/
def handle (recordType : Char) (tokens : List Str) (st : Postprocess) : Option Postprocess :=
  if recordType = 'I' then
    (ferretProcessInfo tokens st.traceProperties).map fun props =>
      { st with traceProperties := props }
  else if recordType = 'T' then
    (ferretProcessTime tokens).map fun state => { st with state := state }
  else if recordType = 'S' then
    (ferretProcessStatus st.traceProperties.statFields tokens st.state).map fun state =>
      { st with state := state }
  else if recordType = 'F' then
    (ferretProcessCpu tokens st.state).map fun state => { st with state := state }
  else if recordType = '#' ∨ recordType = 'E' then some st
  else none

/-- One row of the file. -/
def readRow (banned : List Str) (st : Postprocess) (row : Str) : Option Postprocess :=
  let tokens := pieces ' ' (cstr row)
  (tokens.head?.bind List.head?).bind fun recordType =>
    (if recordType = 'T' then deliver banned { st with hasData := true }
      else some { st with hasData := true }).bind (handle recordType tokens)

/-- The rows of a file. -/
def readRows (banned : List Str) (text : Str) : Option Postprocess :=
  (pieces '\n' text).foldlM (readRow banned) init

/-- Whether a thread is significant. -/
def keeps (st : Postprocess) (p : FerretProcess) : Prop :=
  0 < p.totJiffiesAllCpus ∧ 1 / 100 * (st.traceEnd - st.traceStart) < p.duration

instance (st : Postprocess) (p : FerretProcess) : Decidable (keeps st p) :=
  inferInstanceAs (Decidable (_ ∧ _))

/-- The summaries of the significant threads. -/
def summaries (st : Postprocess) : List Summary :=
  st.pidHistory.entries.filterMap fun e => if st.keeps e.2 then e.2.summary e.1 else none

/-- The loop that looks for the main thread: the index and the megacycles of the thread with the
    most of them so far. -/
def mainThread (summaries : List Summary) : Nat × ℚ :=
  summaries.zipIdx.foldl (fun best s => if best.2 < s.1.mcycSum then (s.2, s.1.mcycSum) else best)
    (0, 0)

end Postprocess

/-- `postprocess_ferret_data`, given what is in the file. -/
def postprocessFerretData (banned : List Str) (text : Str) : Option Results :=
  (Postprocess.readRows banned text).bind fun st =>
    if st.hasData then
      let best := Postprocess.mainThread st.summaries
      some ⟨st.summaries, best.1, best.2, (st.summaries.map Summary.mcycSum).sum⟩
    else none

end LibCollector.Ferret
