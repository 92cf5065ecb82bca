import LibCollector.Ferret.PythonTrace
import LibCollector.Misc.Run
import LibCollector.Misc.Table
import Mathlib.Algebra.BigOperators.Group.List.Basic

/-!
# The table that `ferret.py` prints

The loop of `src/ferret.py` over the trace files, the legend and the rows. The legend is made of
the CPU numbers of the last file, a row of the dictionaries of its thread, which have the CPU
numbers of the thread's own file (`Reported`). The check that these are the same looks only at the
numbers that both lists have, so the rows fit the legend if and only if the lists agree and no name
has a comma (`rectangular_iff`). How a number is written is a parameter.
-/

namespace LibCollector.Ferret.Python

open LibCollector.Misc

variable {F : Type}

/-! ## The loop over the files -/

/-- `results[ traceName ]`, with the CPU numbers of the file. -/
structure Report (F : Type) where
  traceName : Str
  cpuNrs : List Int
  summaries : List (Option (Summary F))

section files

variable [OfNat F 0] [Add F] [Sub F] [Mul F] [Div F] [LT F] [LE F] [BEq F]
  [OfScientific F] [DecidableLT F] [DecidableLE F] [Floating F]

/-- The loop over the files, for `--start` and `--end`. -/
def processTraces (start stop : F) : List Int → List (Report F) → List (Str × Str) →
    Option (List (Report F))
  | _, done, [] => some done
  | cpuNrs, done, (traceName, text) :: traces =>
    if traceName ∈ done.map Report.traceName then none
    else (results start stop cpuNrs text).bind fun r =>
      processTraces start stop r.1 (done ++ [⟨traceName, r.1, r.2⟩]) traces

end files

/-- `cpuNrs` after the loop. -/
def lastCpuNrs (reports : List (Report F)) : List Int :=
  (reports.getLast?.map Report.cpuNrs).getD []

/-! ## The table -/

/-- The keys of a summary under which there is a value for each CPU. -/
inductive Key where
  | mcyc
  | active
  | mhz
  deriving DecidableEq

/-- The text of a key. -/
def Key.name : Key → Str
  | .mcyc => "MCyc".toList
  | .active => "active".toList
  | .mhz => "MHz".toList

/-- `'%s %d' % (d, c)`. -/
def heading (d : Key) (c : Int) : Str := d.name ++ ' ' :: toChars c

/-- `legend`. -/
def legend (cpuNrs : List Int) : List Str :=
  ["file".toList, "name".toList, "pid".toList, "duration".toList] ++
    (cpuNrs.map (heading .mcyc) ++ (cpuNrs.map (heading .active) ++ cpuNrs.map (heading .mhz)))

/-- A value of a row, before it is written. -/
inductive Cell (F : Type) where
  | file (traceName : Str)
  | name (label : Option Str)
  | pid (n : Int)
  | duration (d : F)
  | mcyc (cpu : Int) (megacycles : F)
  | active (cpu : Int) (seconds : F)
  | mhz (cpu : Int) (freqs : List F)

/-- The key and the CPU of a value that belongs to a CPU. -/
def Cell.column? : Cell F → Option (Key × Int)
  | .mcyc cpu _ => some (.mcyc, cpu)
  | .active cpu _ => some (.active, cpu)
  | .mhz cpu _ => some (.mhz, cpu)
  | _ => none

/-- A row: the file and a summary of it. -/
structure Row (F : Type) where
  traceName : Str
  summary : Summary F

namespace Row

/-- The values of a row, in order. -/
def cells (r : Row F) : List (Cell F) :=
  [.file r.traceName, .name r.summary.name, .pid r.summary.pid, .duration r.summary.duration] ++
    (r.summary.mcyc.entries.map (fun e => .mcyc e.1 e.2) ++
      (r.summary.active.entries.map (fun e => .active e.1 e.2) ++
        r.summary.mhz.entries.map fun e => .mhz e.1 e.2))

/-- `str()` of a value. What it makes of a number depends on the type that the number has in a
    row. -/
def str (number : Row F → Cell F → Str) (r : Row F) : Cell F → Str
  | .file traceName => traceName
  | .name none => "None".toList
  | .name (some label) => label
  | .pid n => toChars n
  | c => number r c

/-- `out`. -/
def out (number : Row F → Cell F → Str) (r : Row F) : List Str := r.cells.map (r.str number)

end Row

/-- `", ".join(ws)`. -/
def csvLine (ws : List Str) : Str := List.intercalate ", ".toList ws

/-- What is printed: the legend, and the rows. -/
structure Table (F : Type) where
  legend : List Str
  rows : List (Row F)

/-- The rows of a file; a thread without a summary cannot be printed. -/
def Report.rows (r : Report F) : Option (List (Row F)) :=
  r.summaries.mapM fun s => s.map fun s => ⟨r.traceName, s⟩

/-- The output, without `--json`. -/
def printTable (reports : List (Report F)) : Option (Table F) :=
  (reports.mapM Report.rows).map fun rows => ⟨legend (lastCpuNrs reports), rows.flatten⟩

/-! ## Rectangular tables -/

/-- The commas of a text. A line has one more comma-separated value than it has commas. -/
def commas (s : Str) : Nat := s.count ','

/-- The number of comma-separated values that stand before the value number `i` of a line. -/
def columnOf (ws : List Str) (i : Nat) : Nat := commas ((ws.take i).flatMap (· ++ ", ".toList))

/-- A row has as many comma-separated values as the legend, and the values for a CPU stand under the
    legends of that CPU. -/
structure Row.Fits (number : Row F → Cell F → Str) (legend : List Str) (r : Row F) : Prop where
  count : commas (csvLine (r.out number)) = commas (csvLine legend)
  columns : ∀ i c d cpu, r.cells[i]? = some c → c.column? = some (d, cpu) →
    legend[columnOf (r.out number) i]? = some (heading d cpu)

/-- All rows fit the legend. -/
def Table.Rectangular (number : Row F → Cell F → Str) (t : Table F) : Prop :=
  ∀ r ∈ t.rows, r.Fits number t.legend

/-- A file without summaries has no row; the CPU numbers of the others are those of the last file,
    and there is no comma in the names of their rows. -/
def Uniform (reports : List (Report F)) : Prop :=
  ∀ r ∈ reports, ∀ s, some s ∈ r.summaries → r.cpuNrs = lastCpuNrs reports ∧
    ',' ∉ r.traceName ∧ ∀ label, s.name = some label → ',' ∉ label

/-! ## The CPU numbers of a row -/

/-- The dictionaries of a process have the CPU numbers as keys. -/
structure Process.Keyed (p : Process F) (cpuNrs : List Int) : Prop where
  mcyc : p.mcyc.keys = cpuNrs
  totJiffies : p.totJiffies.keys = cpuNrs
  freqList : p.freqList.keys = cpuNrs

/-- The processes of the history have the CPU numbers of the file as keys. -/
def KeyedHistory (cpuNrs : List Int) (history : OrdMap Int (Process F)) : Prop :=
  ∀ pid p, history.find? pid = some p → p.Keyed cpuNrs

theorem keyedHistory_empty (cpuNrs : List Int) :
    KeyedHistory cpuNrs (∅ : OrdMap Int (Process F)) := by
  intro pid p hp
  rw [OrdMap.find?_empty] at hp
  cases hp

/-- How the loop over the samples of a file stands. -/
structure Consumer.Keyed (c : Consumer F) : Prop where
  idle : c.initData = false → c.pidHistory = ∅
  sorted : c.initData = true → c.cpuNrs.Pairwise (· < ·)
  history : KeyedHistory c.cpuNrs c.pidHistory

theorem keyed_begin (cpuNrs : List Int) : Consumer.Keyed ({ cpuNrs := cpuNrs } : Consumer F) :=
  ⟨fun _ => rfl, nofun, keyedHistory_empty cpuNrs⟩

section numbers

-- The numbers come with all of their operations, whichever of them a step uses.
set_option linter.unusedSectionVars false

variable [OfNat F 0] [Add F] [Sub F] [Mul F] [Div F] [LT F] [LE F] [BEq F]
  [OfScientific F] [DecidableLT F] [DecidableLE F] [Floating F]

theorem Process.keyed_new {tick : Int} {cpuNrs : List Int} (hcpus : cpuNrs.Pairwise (· < ·))
    {p : Process F} (h : Process.new tick cpuNrs = some p) : p.Keyed cpuNrs := by
  rw [Process.new] at h
  split_ifs at h
  obtain ⟨hz, -, rfl⟩ := Option.map_eq_some_iff.mp h
  exact ⟨OrdMap.keys_foldl_insert hcpus 0, OrdMap.keys_foldl_insert hcpus 0,
    OrdMap.keys_foldl_insert hcpus []⟩

/-- `add` only replaces values. -/
theorem Process.Keyed.add {p q : Process F} {cpuNrs : List Int} (h : p.Keyed cpuNrs) {label : Str}
    {ts : F} {jiffies : Int} {freq : Option F} {cpuNr : Int}
    (hq : p.add label ts jiffies freq cpuNr = some q) : q.Keyed cpuNrs := by
  obtain ⟨cycles, hcycles, hq⟩ := Option.bind_eq_some_iff.mp hq
  have hmem : cpuNr ∈ p.mcyc.keys := OrdMap.mem_keys_iff.mpr (by rw [hcycles]; rfl)
  have hcpu : cpuNr ∈ cpuNrs := h.mcyc ▸ hmem
  have hfirst : (if falsy p.first then
      { p with first := some ts, jiffies := some jiffies } else p).Keyed cpuNrs := by
    split_ifs
    · exact ⟨h.mcyc, h.totJiffies, h.freqList⟩
    · exact h
  generalize (if falsy p.first then
      { p with first := some ts, jiffies := some jiffies } else p) = p₁ at hfirst hq
  obtain ⟨before, -, hq⟩ := Option.bind_eq_some_iff.mp hq
  dsimp only at hq
  split at hq
  · cases hq
  · obtain ⟨tot, -, hq⟩ := Option.bind_eq_some_iff.mp hq
    obtain ⟨cycles', -, rfl⟩ := Option.map_eq_some_iff.mp hq
    have htot : (p₁.totJiffies.insert cpuNr (tot + (jiffies - before))).keys = cpuNrs :=
      (OrdMap.keys_insert_of_mem (hfirst.totJiffies ▸ hcpu) _).trans hfirst.totJiffies
    cases falsy freq with
    | true => exact ⟨hfirst.mcyc, htot, hfirst.freqList⟩
    | false =>
      exact ⟨(OrdMap.keys_insert_of_mem (hfirst.mcyc ▸ hcpu) _).trans hfirst.mcyc, htot,
        (OrdMap.keys_insert_of_mem (hfirst.freqList ▸ hcpu) _).trans hfirst.freqList⟩

/-- The CPU numbers of the file are in increasing order. -/
def SortedCpus (properties : TraceProperties) : Prop :=
  ∀ cpus, properties.cpus = some cpus → cpus.Pairwise (· < ·)

theorem sortedCpus_processInfo {properties properties' : TraceProperties} {infoRow : List Str}
    (inv : SortedCpus properties) (h : processInfo properties infoRow = some properties') :
    SortedCpus properties' := by
  obtain ⟨infoType, -, h⟩ := Option.bind_eq_some_iff.mp h
  dsimp only at h
  split_ifs at h
  · obtain ⟨tick, -, rfl⟩ := Option.map_eq_some_iff.mp h
    exact inv
  · obtain ⟨v, -, h⟩ := Option.bind_eq_some_iff.mp h
    split_ifs at h with hnodup
    cases h
    intro cpus hcpus
    cases hcpus
    have hsorted : (v.mergeSort (· ≤ ·)).Pairwise (· ≤ ·) := by
      have hle := @List.pairwise_mergeSort _ (fun a b : Int => decide (a ≤ b))
        (fun a b c => by simpa using le_trans) (fun a b => by simpa using le_total a b) v
      exact hle.imp of_decide_eq_true
    have hne : (v.mergeSort (· ≤ ·)).Nodup := (List.mergeSort_perm v _).nodup_iff.mpr hnodup
    exact (hsorted.and hne).imp fun hab => lt_of_le_of_ne hab.1 hab.2
  · cases h
    exact inv
  · cases h
    exact inv

theorem keyedHistory_addThread {sample : Sample F} {tick : Int} {cpuNrs : List Int}
    (hcpus : cpuNrs.Pairwise (· < ·)) {history history' : OrdMap Int (Process F)}
    (inv : KeyedHistory cpuNrs history) {e : Int × OrdMap Str StatValue}
    (h : addThread sample tick cpuNrs history e = some history') :
    KeyedHistory cpuNrs history' := by
  rw [addThread] at h
  obtain ⟨processor, -, h⟩ := Option.bind_eq_some_iff.mp h
  obtain ⟨-, -, h⟩ := Option.bind_eq_some_iff.mp h
  obtain ⟨freq, -, h⟩ := Option.bind_eq_some_iff.mp h
  obtain ⟨process, hprocess, h⟩ := Option.bind_eq_some_iff.mp h
  obtain ⟨comm, -, h⟩ := Option.bind_eq_some_iff.mp h
  obtain ⟨utime, -, h⟩ := Option.bind_eq_some_iff.mp h
  obtain ⟨stime, -, h⟩ := Option.bind_eq_some_iff.mp h
  obtain ⟨ts, -, h⟩ := Option.bind_eq_some_iff.mp h
  obtain ⟨process', hadd, h⟩ := Option.bind_eq_some_iff.mp h
  cases h
  have hkeyed : process.Keyed cpuNrs := by
    rcases Option.or_eq_some_iff.mp hprocess with hold | ⟨-, hnew⟩
    · exact inv e.1 process hold
    · exact Process.keyed_new hcpus hnew
  intro pid p hp
  rw [OrdMap.find?_insert] at hp
  split_ifs at hp
  · cases hp
    exact hkeyed.add hadd
  · exact inv pid p hp

/-- The sample is consumed, once the CPU numbers of the file are known. -/
theorem Consumer.Keyed.take {start stop : F} {c c' : Consumer F} {sample : Sample F} (inv : c.Keyed)
    (hinit : c.initData = true)
    (h : (do
      let time ← sample.time
      if 0 < start ∧ time < start then pure c
      else if 0 < stop ∧ stop ≤ time then pure c
      else do
        let threads ← sample.pid
        let pidHistory ← threads.entries.foldlM (addThread sample c.tick c.cpuNrs) c.pidHistory
        pure { c with
          traceStart := if falsy c.traceStart then some time else c.traceStart
          traceEnd := some time
          pidHistory := pidHistory }) = some c') : c'.Keyed ∧ c'.initData = true := by
  obtain ⟨time, -, h⟩ := Option.bind_eq_some_iff.mp h
  split at h
  · cases h
    exact ⟨inv, hinit⟩
  · split at h
    · cases h
      exact ⟨inv, hinit⟩
    · obtain ⟨threads, -, h⟩ := Option.bind_eq_some_iff.mp h
      obtain ⟨history, hhistory, h⟩ := Option.bind_eq_some_iff.mp h
      cases h
      have hsorted := inv.sorted hinit
      have hkeyed : KeyedHistory c.cpuNrs history :=
        run_invariant (fun _ _ _ hm => keyedHistory_addThread hsorted hm) inv.history hhistory
      refine ⟨⟨fun hidle => ?_, fun _ => hsorted, hkeyed⟩, hinit⟩
      dsimp only at hidle
      rw [hinit] at hidle
      cases hidle

theorem Consumer.Keyed.consume {start stop : F} {properties : TraceProperties} {c c' : Consumer F}
    {sample : Sample F} (inv : c.Keyed) (hcpus : SortedCpus properties)
    (h : consume start stop properties c sample = some c') : c'.Keyed ∧ c'.initData = true := by
  rw [Python.consume] at h
  split_ifs at h with hinit
  · exact inv.take hinit h
  · obtain ⟨tick, -, h⟩ := Option.bind_eq_some_iff.mp h
    obtain ⟨cpus, hcpus', h⟩ := Option.bind_eq_some_iff.mp h
    obtain ⟨-, -, h⟩ := Option.bind_eq_some_iff.mp h
    have hnone := inv.idle (Bool.eq_false_iff.mpr hinit)
    refine Consumer.Keyed.take ⟨fun hidle => absurd hidle Bool.noConfusion,
      fun _ => hcpus cpus hcpus', ?_⟩ rfl h
    dsimp only
    rw [hnone]
    exact keyedHistory_empty cpus

theorem keyed_processRow {start stop : F} {r r' : Generator F × Consumer F} {row : Str}
    (inv : SortedCpus r.1.properties ∧ r.2.Keyed)
    (h : processRow start stop r row = some r') : SortedCpus r'.1.properties ∧ r'.2.Keyed := by
  rw [processRow] at h
  split at h
  · cases h
  · split at h
    · obtain ⟨properties, hproperties, rfl⟩ := Option.map_eq_some_iff.mp h
      exact ⟨sortedCpus_processInfo inv.1 hproperties, inv.2⟩
    · split at h
      · obtain ⟨state, -, h⟩ := Option.bind_eq_some_iff.mp h
        obtain ⟨c, hc, rfl⟩ := Option.map_eq_some_iff.mp h
        refine ⟨inv.1, ?_⟩
        split at hc
        · cases hc
          exact inv.2
        · exact (inv.2.consume inv.1 hc).1
      · split at h
        · obtain ⟨state, -, rfl⟩ := Option.map_eq_some_iff.mp h
          exact inv
        · split at h
          · obtain ⟨state, -, rfl⟩ := Option.map_eq_some_iff.mp h
            exact inv
          · split at h
            · cases h
              exact inv
            · cases h

theorem keyed_processTrace {start stop : F} {cpuNrs : List Int} {text : Str} {c : Consumer F}
    (h : processTrace start stop cpuNrs text = some c) :
    c.cpuNrs.Pairwise (· < ·) ∧ KeyedHistory c.cpuNrs c.pidHistory := by
  obtain ⟨r, hr, hlast⟩ := Option.bind_eq_some_iff.mp h
  have hempty : SortedCpus {} := nofun
  have inv : SortedCpus r.1.properties ∧ r.2.Keyed :=
    run_invariant (fun _ _ _ => keyed_processRow) ⟨hempty, keyed_begin cpuNrs⟩ hr
  obtain ⟨hkeyed, hinit⟩ := inv.2.consume inv.1 hlast
  exact ⟨hkeyed.sorted hinit, hkeyed.history⟩

/-- The CPU numbers of a file are in increasing order, and the dictionaries of its summaries have
    them as keys. There is a summary only where there are CPU numbers. -/
structure Reported (cpuNrs : List Int) (summaries : List (Option (Summary F))) : Prop where
  sorted : cpuNrs.Pairwise (· < ·)
  keys : ∀ s, some s ∈ summaries → cpuNrs ≠ [] ∧ s.mcyc.keys = cpuNrs ∧ s.active.keys = cpuNrs ∧
    s.mhz.keys = cpuNrs

theorem Process.Keyed.summary {p : Process F} {cpuNrs : List Int} (h : p.Keyed cpuNrs) {pid : Int}
    {s : Summary F} (hs : p.summary pid = some (some s)) :
    cpuNrs ≠ [] ∧ s.mcyc.keys = cpuNrs ∧ s.active.keys = cpuNrs ∧ s.mhz.keys = cpuNrs := by
  obtain ⟨jiffies, hactive, hs⟩ := Option.bind_eq_some_iff.mp hs
  obtain ⟨active, -, hs⟩ := Option.bind_eq_some_iff.mp hs
  have hne : cpuNrs ≠ [] := by
    intro hnil
    have hentries : p.totJiffies.entries = [] := List.map_eq_nil_iff.mp (h.totJiffies.trans hnil)
    rw [Process.activeJiffies, hentries] at hactive
    cases hactive
  split_ifs at hs
  · cases hs
  · obtain ⟨duration, -, hs⟩ := Option.map_eq_some_iff.mp hs
    cases hs
    exact ⟨hne, h.mcyc, (OrdMap.keys_mapVal _ _).trans h.totJiffies, h.freqList⟩

/-- What is appended for a thread is its summary, or nothing. -/
theorem mem_result {traceStart traceEnd : Option F} {e : Int × Process F}
    {l : List (Option (Summary F))} (h : result traceStart traceEnd e = some l)
    {s : Option (Summary F)} (hs : s ∈ l) : e.2.summary e.1 = some s := by
  rw [result] at h
  obtain ⟨active, -, h⟩ := Option.bind_eq_some_iff.mp h
  split at h
  · obtain ⟨duration, -, h⟩ := Option.bind_eq_some_iff.mp h
    obtain ⟨traceEnd, -, h⟩ := Option.bind_eq_some_iff.mp h
    obtain ⟨traceStart, -, h⟩ := Option.bind_eq_some_iff.mp h
    split at h
    · obtain ⟨summary, hsummary, h⟩ := Option.bind_eq_some_iff.mp h
      cases h
      obtain rfl := List.mem_singleton.mp hs
      exact hsummary
    · cases h
      cases hs
  · cases h
    cases hs

theorem reported_results {start stop : F} {cpuNrs : List Int} {text : Str}
    {r : List Int × List (Option (Summary F))} (h : results start stop cpuNrs text = some r) :
    Reported r.1 r.2 := by
  rw [results] at h
  obtain ⟨c, hc, h⟩ := Option.bind_eq_some_iff.mp h
  obtain ⟨summaries, hsummaries, h⟩ := Option.bind_eq_some_iff.mp h
  cases h
  obtain ⟨hsorted, hhistory⟩ := keyed_processTrace hc
  refine ⟨hsorted, fun s hs => ?_⟩
  obtain ⟨l, hl, hs⟩ := List.mem_flatten.mp hs
  have hmem : some l ∈ summaries.map some := List.mem_map_of_mem hl
  rw [← mapM_eq_some_iff.mp hsummaries] at hmem
  obtain ⟨e, he, hresult⟩ := List.mem_map.mp hmem
  exact (hhistory e.1 e.2 (OrdMap.find?_eq_some_iff.mpr he)).summary (mem_result hresult hs)

theorem reported_processTraces {start stop : F} {cpuNrs : List Int} {done reports : List (Report F)}
    {traces : List (Str × Str)} (hdone : ∀ r ∈ done, Reported r.cpuNrs r.summaries)
    (h : processTraces start stop cpuNrs done traces = some reports) :
    ∀ r ∈ reports, Reported r.cpuNrs r.summaries := by
  induction traces generalizing cpuNrs done with
  | nil =>
    cases h
    exact hdone
  | cons trace traces ih =>
    obtain ⟨traceName, text⟩ := trace
    rw [processTraces] at h
    split_ifs at h
    obtain ⟨r, hr, hrest⟩ := Option.bind_eq_some_iff.mp h
    refine ih (fun r' hr' => ?_) hrest
    rcases List.mem_append.mp hr' with hr' | hr'
    · exact hdone r' hr'
    · obtain rfl := List.mem_singleton.mp hr'
      exact reported_results hr

end numbers

/-! ## Commas -/

@[simp] theorem commas_append (s t : Str) : commas (s ++ t) = commas s + commas t :=
  List.count_append

theorem commas_eq_zero {s : Str} : commas s = 0 ↔ ',' ∉ s := List.count_eq_zero

theorem commas_separator : commas ", ".toList = 1 := by decide

/-- Between two words there is one comma. -/
theorem commas_csvLine {w : Str} {ws : List Str} :
    commas (csvLine (w :: ws)) = ((w :: ws).map commas).sum + ws.length := by
  induction ws generalizing w with
  | nil => simp [csvLine, List.intercalate]
  | cons v ws ih =>
    have hline : csvLine (w :: v :: ws) = w ++ (", ".toList ++ csvLine (v :: ws)) := by
      simp [csvLine, List.intercalate]
    rw [hline, commas_append, commas_append, ih, commas_separator, List.map_cons (a := w),
      List.sum_cons, List.length_cons]
    omega

theorem columnOf_eq (ws : List Str) (i : Nat) :
    columnOf ws i = ((ws.take i).map commas).sum + (ws.take i).length := by
  rw [columnOf]
  induction ws.take i with
  | nil => rfl
  | cons w ws ih =>
    rw [List.flatMap_cons, commas_append, commas_append, ih, commas_separator, List.map_cons,
      List.sum_cons, List.length_cons]
    omega

/-! ## Columns -/

/-- The columns of the legend for some CPU numbers, without their texts. -/
def columns (cpuNrs : List Int) : List (Option (Key × Int)) :=
  List.replicate 4 none ++ (cpuNrs.map (fun c => some (.mcyc, c)) ++
    (cpuNrs.map (fun c => some (.active, c)) ++ cpuNrs.map fun c => some (.mhz, c)))

/-- Where the values of a key stand among those of all keys. -/
def Key.block : Key → Nat
  | .mcyc => 0
  | .active => 1
  | .mhz => 2

/-- The keys differ in what they begin with. -/
theorem Key.take_name_inj {d d' : Key} (h : d.name.take 2 = d'.name.take 2) : d = d' := by
  revert h
  cases d <;> cases d' <;> decide

theorem heading_inj {d d' : Key} {c c' : Int} : heading d c = heading d' c' ↔ d = d' ∧ c = c' := by
  constructor
  · intro h
    have hlen : ∀ d : Key, 2 ≤ d.name.length := by
      intro d
      cases d <;> decide
    have hkey : d = d' := by
      have hbegin := congrArg (List.take 2) h
      rw [heading, heading, List.take_append_of_le_length (hlen d),
        List.take_append_of_le_length (hlen d')] at hbegin
      exact Key.take_name_inj hbegin
    subst hkey
    have htext := List.append_cancel_left h
    exact ⟨rfl, toChars_injective (List.cons.inj htext).2⟩
  · rintro ⟨rfl, rfl⟩
    rfl

theorem length_columns (cpuNrs : List Int) : (columns cpuNrs).length = 4 + 3 * cpuNrs.length := by
  simp only [columns, List.length_append, List.length_replicate, List.length_map]
  omega

theorem getElem?_columns {cpuNrs : List Int} {i : Nat} {d : Key} {c : Int} :
    (columns cpuNrs)[i]? = some (some (d, c)) ↔
      ∃ j, cpuNrs[j]? = some c ∧ i = 4 + d.block * cpuNrs.length + j := by
  have hget : ∀ (d' : Key) (k : Nat), (cpuNrs.map fun c => some (d', c))[k]? = some (some (d, c)) ↔
      d' = d ∧ cpuNrs[k]? = some c := by
    intro d' k
    rw [List.getElem?_map]
    cases cpuNrs[k]? <;> simp
  have hskip : ∀ (l : List (Option (Key × Int))) (k : Nat),
      (cpuNrs.map (fun c => some (Key.mcyc, c)) ++ l)[cpuNrs.length + k]? = l[k]? := by
    intro l k
    rw [List.getElem?_append_right (by simp), List.length_map, Nat.add_sub_cancel_left]
  rw [columns]
  constructor
  · intro h
    rw [List.getElem?_append, List.length_replicate] at h
    split_ifs at h with hfour
    · rw [List.getElem?_replicate, if_pos hfour] at h
      cases h
    · rw [List.getElem?_append, List.length_map] at h
      split_ifs at h with hmcyc
      · obtain ⟨rfl, hj⟩ := (hget _ _).mp h
        exact ⟨_, hj, by rw [Key.block]; omega⟩
      · rw [List.getElem?_append, List.length_map] at h
        split_ifs at h with hactive
        · obtain ⟨rfl, hj⟩ := (hget _ _).mp h
          exact ⟨_, hj, by rw [Key.block]; omega⟩
        · obtain ⟨rfl, hj⟩ := (hget _ _).mp h
          exact ⟨_, hj, by rw [Key.block]; omega⟩
  · rintro ⟨j, hj, rfl⟩
    have hlt := (List.getElem?_eq_some_iff.mp hj).1
    rw [List.getElem?_append_right (by rw [List.length_replicate]; omega), List.length_replicate,
      show 4 + d.block * cpuNrs.length + j - 4 = d.block * cpuNrs.length + j by omega]
    cases d with
    | mcyc =>
      rw [Key.block, Nat.zero_mul, Nat.zero_add, List.getElem?_append_left (by simpa using hlt)]
      exact (hget _ _).mpr ⟨rfl, hj⟩
    | active =>
      rw [Key.block, Nat.one_mul, hskip, List.getElem?_append_left (by simpa using hlt)]
      exact (hget _ _).mpr ⟨rfl, hj⟩
    | mhz =>
      rw [Key.block, Nat.two_mul, Nat.add_assoc, hskip,
        List.getElem?_append_right (by rw [List.length_map]; omega), List.length_map,
        Nat.add_sub_cancel_left]
      exact (hget _ _).mpr ⟨rfl, hj⟩

/-- The legends of the columns. -/
theorem getElem?_legend {cpuNrs : List Int} {i : Nat} {d : Key} {c : Int} :
    (legend cpuNrs)[i]? = some (heading d c) ↔ (columns cpuNrs)[i]? = some (some (d, c)) := by
  have hget : ∀ (d' : Key) (k : Nat), (cpuNrs.map (heading d'))[k]? = some (heading d c) ↔
      (cpuNrs.map fun c => some (d', c))[k]? = some (some (d, c)) := by
    intro d' k
    rw [List.getElem?_map, List.getElem?_map]
    cases cpuNrs[k]? <;> simp [heading_inj]
  have hfixed : ∀ w ∈ ["file".toList, "name".toList, "pid".toList, "duration".toList],
      w ≠ heading d c := by
    have hblank : ∀ w ∈ ["file".toList, "name".toList, "pid".toList, "duration".toList],
        ' ' ∉ w := by
      decide
    intro w hw heq
    apply hblank w hw
    rw [heq, heading]
    simp
  rw [legend, columns, List.getElem?_append, List.getElem?_append (i := i)]
  have hlength : ["file".toList, "name".toList, "pid".toList, "duration".toList].length = 4 := rfl
  rw [hlength, List.length_replicate]
  split_ifs with hfour
  · rw [List.getElem?_replicate, if_pos hfour]
    refine iff_of_false (fun h => ?_) nofun
    exact hfixed _ (List.mem_of_getElem? h) rfl
  · rw [List.getElem?_append, List.getElem?_append (i := i - 4), List.length_map, List.length_map]
    split_ifs
    · exact hget _ _
    · rw [List.getElem?_append, List.getElem?_append (i := i - 4 - cpuNrs.length),
        List.length_map, List.length_map]
      split_ifs
      · exact hget _ _
      · exact hget _ _

theorem commas_legend (cpuNrs : List Int) : ((legend cpuNrs).map commas).sum = 0 ∧
    (legend cpuNrs).length = 4 + 3 * cpuNrs.length := by
  have hheading : ∀ d c, commas (heading d c) = 0 := by
    intro d c
    have hkey : commas d.name = 0 := by cases d <;> decide
    rw [heading, commas_append, hkey, Nat.zero_add, commas_eq_zero, List.mem_cons, not_or]
    exact ⟨by decide, notMem_toChars rfl (by decide) c⟩
  have hblock : ∀ d : Key, ((cpuNrs.map (heading d)).map commas).sum = 0 := by
    intro d
    rw [List.map_map]
    exact List.sum_eq_zero fun n hn => by
      obtain ⟨c, -, rfl⟩ := List.mem_map.mp hn
      exact hheading d c
  constructor
  · rw [legend, List.map_append, List.map_append, List.map_append, List.sum_append,
      List.sum_append, List.sum_append, hblock, hblock, hblock]
    decide
  · simp only [legend, List.length_append, List.length_map, List.length_cons, List.length_nil]
    omega

/-! ## Rows under the legend -/

/-- The dictionaries of a row have the CPU numbers as keys. -/
structure Row.Keyed (r : Row F) (cpuNrs : List Int) : Prop where
  mcyc : r.summary.mcyc.keys = cpuNrs
  active : r.summary.active.keys = cpuNrs
  mhz : r.summary.mhz.keys = cpuNrs

/-- The text of the name of a row. -/
def Row.nameText (r : Row F) : Str := r.summary.name.getD "None".toList

section row

variable {number : Row F → Cell F → Str} {r : Row F} {cpuNrs last : List Int}

/-- The values of a row have the columns of its own CPU numbers. -/
theorem Row.Keyed.cells (h : r.Keyed cpuNrs) : r.cells.map Cell.column? = columns cpuNrs := by
  have hblock : ∀ (V : Type) (m : OrdMap Int V) (cell : Int → V → Cell F) (d : Key),
      m.keys = cpuNrs → (∀ c v, (cell c v).column? = some (d, c)) →
      (m.entries.map fun e => cell e.1 e.2).map Cell.column? =
        cpuNrs.map fun c => some (d, c) := by
    intro V m cell d hkeys hcell
    rw [← hkeys, OrdMap.keys, List.map_map, List.map_map]
    exact List.map_congr_left fun e _ => hcell e.1 e.2
  rw [Row.cells, List.map_append, List.map_append, List.map_append,
    hblock _ _ Cell.mcyc .mcyc h.mcyc fun _ _ => rfl,
    hblock _ _ Cell.active .active h.active fun _ _ => rfl,
    hblock _ _ Cell.mhz .mhz h.mhz fun _ _ => rfl]
  rfl

/-- Only the name of the file and that of the thread can have commas. -/
theorem Row.commas_out (hnumber : ∀ r c, ',' ∉ number r c) (i : Nat) :
    (((r.out number).take (2 + i)).map commas).sum = commas r.traceName + commas r.nameText := by
  have hrest : ∀ l : List Str, (∀ w ∈ l, ',' ∉ w) → (l.map commas).sum = 0 := by
    intro l hl
    refine List.sum_eq_zero fun n hn => ?_
    obtain ⟨w, hw, rfl⟩ := List.mem_map.mp hn
    exact commas_eq_zero.mpr (hl w hw)
  have hname : r.str number (.name r.summary.name) = r.nameText := by
    rw [Row.nameText]
    cases r.summary.name <;> rfl
  have htexts : ∀ c ∈ r.cells.drop 2, ',' ∉ r.str number c := by
    intro c hc
    cases c with
    | file traceName => simp [Row.cells] at hc
    | name label => simp [Row.cells] at hc
    | pid n => exact notMem_toChars rfl (by decide) n
    | duration d => exact hnumber r _
    | mcyc cpu n => exact hnumber r _
    | active cpu n => exact hnumber r _
    | mhz cpu freqs => exact hnumber r _
  have hout : r.out number =
      r.traceName :: r.nameText :: (r.cells.drop 2).map (r.str number) := by
    rw [← hname]
    rfl
  rw [hout, Nat.add_comm, List.take_succ_cons, List.take_succ_cons, List.map_cons, List.map_cons,
    List.sum_cons, List.sum_cons, hrest, Nat.add_zero]
  intro w hw
  obtain ⟨c, hc, rfl⟩ := List.mem_map.mp (List.mem_of_mem_take hw)
  exact htexts c hc

/-- The columns of the values for a CPU are shifted by the commas in the names. -/
theorem Row.fits_iff_columns (h : r.Keyed cpuNrs) (hnumber : ∀ r c, ',' ∉ number r c) :
    r.Fits number (legend last) ↔
      commas r.traceName + commas r.nameText + 3 * cpuNrs.length = 3 * last.length ∧
        ∀ i d c, (columns cpuNrs)[i]? = some (some (d, c)) →
          (columns last)[i + (commas r.traceName + commas r.nameText)]? = some (some (d, c)) := by
  have hlength : (r.out number).length = 4 + 3 * cpuNrs.length := by
    rw [Row.out, List.length_map, ← length_columns, ← h.cells, List.length_map]
  have hcount : commas (csvLine (r.out number)) =
      commas r.traceName + commas r.nameText + 3 + 3 * cpuNrs.length := by
    have hcons : ∃ w ws, r.out number = w :: ws := List.exists_cons_of_ne_nil (by
      intro hnil
      rw [hnil] at hlength
      simp at hlength
      omega)
    obtain ⟨w, ws, hout⟩ := hcons
    have hall := Row.commas_out (r := r) hnumber (r.out number).length
    rw [List.take_of_length_le (by omega)] at hall
    rw [hout, commas_csvLine, ← hout, hall]
    rw [hout, List.length_cons] at hlength
    omega
  have hlegend : commas (csvLine (legend last)) = 3 + 3 * last.length := by
    obtain ⟨hzero, hlegendLength⟩ := commas_legend last
    have hcons : legend last = "file".toList :: (legend last).tail := rfl
    rw [hcons, commas_csvLine, ← hcons, hzero, List.length_tail, hlegendLength]
    omega
  have hcolumn : ∀ i d c, (columns cpuNrs)[i]? = some (some (d, c)) →
      columnOf (r.out number) i = i + (commas r.traceName + commas r.nameText) := by
    intro i d c hi
    have hlt := (List.getElem?_eq_some_iff.mp hi).1
    rw [length_columns] at hlt
    obtain ⟨j, -, rfl⟩ := getElem?_columns.mp hi
    have hsum := Row.commas_out (r := r) hnumber (2 + (d.block * cpuNrs.length + j))
    rw [show 2 + (2 + (d.block * cpuNrs.length + j)) = 4 + d.block * cpuNrs.length + j by omega]
      at hsum
    rw [columnOf_eq, hsum, List.length_take, hlength, Nat.min_eq_left (Nat.le_of_lt hlt),
      Nat.add_comm]
  constructor
  · rintro ⟨hsame, hunder⟩
    rw [hcount, hlegend] at hsame
    refine ⟨by omega, fun i d c hi => ?_⟩
    have hcell := hi
    rw [← h.cells, List.getElem?_map] at hcell
    obtain ⟨cell, hcell, hcolumn?⟩ := Option.map_eq_some_iff.mp hcell
    rw [← hcolumn i d c hi, ← getElem?_legend]
    exact hunder i cell d c hcell hcolumn?
  · rintro ⟨hsame, hunder⟩
    refine ⟨by omega, fun i cell d c hcell hcolumn? => ?_⟩
    have hi : (columns cpuNrs)[i]? = some (some (d, c)) := by
      rw [← h.cells, List.getElem?_map, hcell, Option.map_some, hcolumn?]
    rw [hcolumn i d c hi, getElem?_legend]
    exact hunder i d c hi

/-- A row fits the legend if and only if its CPU numbers are those of the legend and its names have
    no commas. -/
theorem Row.fits_iff (h : r.Keyed cpuNrs) (hne : cpuNrs ≠ []) (hlast : last.Nodup)
    (hnumber : ∀ r c, ',' ∉ number r c) :
    r.Fits number (legend last) ↔ cpuNrs = last ∧ ',' ∉ r.traceName ∧ ',' ∉ r.nameText := by
  rw [Row.fits_iff_columns h hnumber, ← commas_eq_zero, ← commas_eq_zero]
  constructor
  · rintro ⟨hcount, hunder⟩
    have hpos : 0 < cpuNrs.length := List.length_pos_of_ne_nil hne
    have hunder' : ∀ (d : Key) (j : Nat) (c : Int), cpuNrs[j]? = some c → ∃ k, last[k]? = some c ∧
        d.block * cpuNrs.length + j + (commas r.traceName + commas r.nameText) =
          d.block * last.length + k := by
      intro d j c hj
      obtain ⟨k, hk, hkj⟩ := getElem?_columns.mp
        (hunder _ d c (getElem?_columns.mpr ⟨j, hj, rfl⟩))
      exact ⟨k, hk, by omega⟩
    -- the first CPU stands in two blocks, so both lists are equally long
    obtain ⟨k, hk, hmcyc⟩ := hunder' .mcyc 0 _ (List.getElem?_eq_getElem hpos)
    obtain ⟨k', hk', hactive⟩ := hunder' .active 0 _ (List.getElem?_eq_getElem hpos)
    have hkk : k = k' :=
      (List.getElem?_inj (List.getElem?_eq_some_iff.mp hk).1 hlast).mp (hk.trans hk'.symm)
    simp only [Key.block] at hmcyc hactive
    have hlength : cpuNrs.length = last.length := by omega
    have hzero : commas r.traceName + commas r.nameText = 0 := by omega
    refine ⟨List.ext_getElem? fun j => ?_, by omega, by omega⟩
    by_cases hj : j < cpuNrs.length
    · obtain ⟨k, hk, hkj⟩ := hunder' .mcyc j _ (List.getElem?_eq_getElem hj)
      simp only [Key.block] at hkj
      rw [List.getElem?_eq_getElem hj, ← hk, show k = j by omega]
    · rw [List.getElem?_eq_none (by omega), List.getElem?_eq_none (by omega)]
  · rintro ⟨rfl, hfile, hname⟩
    rw [hfile, hname]
    exact ⟨by omega, fun i d c hi => hi⟩

end row

/-- There is a row for each summary. -/
theorem mem_rows {reports : List (Report F)} {rows : List (List (Row F))}
    (h : reports.mapM Report.rows = some rows) {row : Row F} :
    row ∈ rows.flatten ↔ ∃ r ∈ reports, ∃ s, some s ∈ r.summaries ∧ row = ⟨r.traceName, s⟩ := by
  have hreport : ∀ l, l ∈ rows ↔ ∃ r ∈ reports, r.rows = some l := by
    intro l
    have hmap := mapM_eq_some_iff.mp h
    have hmem : some l ∈ reports.map Report.rows ↔ some l ∈ rows.map some := by rw [hmap]
    simpa using hmem.symm
  have hrow : ∀ (r : Report F) l, r.rows = some l →
      (row ∈ l ↔ ∃ s, some s ∈ r.summaries ∧ row = ⟨r.traceName, s⟩) := by
    intro r l hl
    have hmem : some row ∈ (r.summaries.map fun s => s.map fun s => (⟨r.traceName, s⟩ : Row F)) ↔
        some row ∈ l.map some := by
      rw [mapM_eq_some_iff.mp hl]
    have hl' : row ∈ l ↔ some row ∈ l.map some := by simp
    rw [hl', ← hmem, List.mem_map]
    constructor
    · rintro ⟨s, hs, heq⟩
      obtain ⟨s, rfl, hrow⟩ := Option.map_eq_some_iff.mp heq
      exact ⟨s, hs, hrow.symm⟩
    · rintro ⟨s, hs, rfl⟩
      exact ⟨some s, hs, rfl⟩
  rw [List.mem_flatten]
  constructor
  · rintro ⟨l, hl, hmem⟩
    obtain ⟨r, hr, hrows⟩ := (hreport l).mp hl
    exact ⟨r, hr, (hrow r l hrows).mp hmem⟩
  · rintro ⟨r, hr, hs⟩
    have hsome := isSome_of_mapM h hr
    obtain ⟨l, hl⟩ := Option.isSome_iff_exists.mp hsome
    exact ⟨l, (hreport l).mpr ⟨r, hr, hl⟩, (hrow r l hl).mpr hs⟩

/-- Every row fits the legend if and only if the files with a row have the CPU numbers of the last
    file and no name of a row has a comma. -/
theorem rectangular_iff {number : Row Float → Cell Float → Str} (hnumber : ∀ r c, ',' ∉ number r c)
    {start stop : Float} {traces : List (Str × Str)} {reports : List (Report Float)}
    {t : Table Float}
    (h : processTraces start stop [] [] traces = some reports)
    (ht : printTable reports = some t) : t.Rectangular number ↔ Uniform reports := by
  have hreported := reported_processTraces (fun r hr => absurd hr List.not_mem_nil) h
  have hlast : (lastCpuNrs reports).Nodup := by
    rw [lastCpuNrs]
    cases hget : reports.getLast? with
    | none => exact List.nodup_nil
    | some r =>
      exact (hreported r (List.mem_of_getLast? hget)).sorted.imp fun hlt => ne_of_lt hlt
  obtain ⟨rows, hrows, rfl⟩ := Option.map_eq_some_iff.mp ht
  have hrow : ∀ row, row ∈ rows.flatten ↔
      ∃ r ∈ reports, ∃ s, some s ∈ r.summaries ∧ row = ⟨r.traceName, s⟩ := fun row =>
    mem_rows hrows
  have hnone : ',' ∉ "None".toList := by decide
  constructor
  · intro hrect r hr s hs
    obtain ⟨hne, hmcyc, hactive, hmhz⟩ := (hreported r hr).keys s hs
    obtain ⟨hcpus, hfile, hname⟩ := (Row.fits_iff (r := ⟨r.traceName, s⟩) ⟨hmcyc, hactive, hmhz⟩
      hne hlast hnumber).mp (hrect _ ((hrow _).mpr ⟨r, hr, s, hs, rfl⟩))
    refine ⟨hcpus, hfile, fun label hlabel => ?_⟩
    rw [Row.nameText, hlabel] at hname
    exact hname
  · intro huniform row hmem
    obtain ⟨r, hr, s, hs, rfl⟩ := (hrow row).mp hmem
    obtain ⟨hne, hmcyc, hactive, hmhz⟩ := (hreported r hr).keys s hs
    obtain ⟨hcpus, hfile, hname⟩ := huniform r hr s hs
    refine (Row.fits_iff ⟨hmcyc, hactive, hmhz⟩ hne hlast hnumber).mpr ⟨hcpus, hfile, ?_⟩
    rw [Row.nameText]
    cases hlabel : s.name with
    | none => exact hnone
    | some label => exact hname label hlabel

/-! ## Two files -/

/-- The rows after the CPU list of a file whose only thread uses ten jiffies on CPU 0. -/
def tenJiffiesRows : List Str :=
  ["I Status pid comm ppid utime stime cutime cstime num_threads starttime processor".toList,
    "T 1000000".toList, "F 0 1000".toList, "S 5 (a) 1 0 0 0 0 1 0 0".toList,
    "T 2000000".toList, "F 0 1000".toList, "S 5 (a) 1 7 3 0 0 1 0 0".toList]

/-- The file, for the text of its CPU list. -/
def tenJiffiesText (cpus : Str) : Str :=
  ("I _SC_CLK_TCK 100".toList :: ("I CPUList ".toList ++ cpus) :: tenJiffiesRows).flatMap
    (· ++ ['\n'])

/-- The summary of its thread. -/
def tenJiffies (cpus : List Int) : Summary Float where
  pid := 5
  name := some ['a']
  duration := 1.0
  active := cpus.foldl (fun m c => m.insert c (if c = 0 then 0.1 else 0.0)) ∅
  mcyc := cpus.foldl (fun m c => m.insert c (if c = 0 then 0.1 else 0)) ∅
  mhz := cpus.foldl (fun m c => m.insert c (if c = 0 then [1.0, 1.0] else [])) ∅

/-- `str(x)` of the doubles in it. -/
def tenJiffiesDouble (x : Float) : Str :=
  if x = 1.0 then "1.0".toList else if x = 0.1 then "0.1".toList else "0.0".toList

/-- `str(x)` of the numbers in it. The cycles of a CPU without frequencies are still the integer of
    `__init__`, and its frequency is an integer, too. -/
def tenJiffiesNumber (r : Row Float) : Cell Float → Str
  | .mcyc cpu megacycles =>
    if r.summary.mhz.find? cpu = some [] then ['0'] else tenJiffiesDouble megacycles
  | .mhz _ freqs => (freqs.head?.map tenJiffiesDouble).getD ['0']
  | .active _ seconds => tenJiffiesDouble seconds
  | .duration d => tenJiffiesDouble d
  | _ => []

theorem comma_notMem_tenJiffiesNumber (r : Row Float) (c : Cell Float) :
    ',' ∉ tenJiffiesNumber r c := by
  have hdouble : ∀ x, ',' ∉ tenJiffiesDouble x := by
    intro x
    unfold tenJiffiesDouble
    split_ifs <;> decide
  cases c with
  | file traceName => exact List.not_mem_nil
  | name label => exact List.not_mem_nil
  | pid n => exact List.not_mem_nil
  | duration d => exact hdouble d
  | mcyc cpu megacycles =>
    rw [tenJiffiesNumber]
    split_ifs
    · decide
    · exact hdouble megacycles
  | active cpu seconds => exact hdouble seconds
  | mhz cpu freqs =>
    cases freqs with
    | nil => exact show ',' ∉ ['0'] by decide
    | cons freq freqs => exact hdouble freq

theorem pieces_tenJiffiesText : ∀ w ∈ ["0 1".toList, "0".toList],
    pieces '\n' (universalNewlines (tenJiffiesText w)) =
      "I _SC_CLK_TCK 100".toList :: ("I CPUList ".toList ++ w) :: tenJiffiesRows := by
  intro w hw
  have hlines : ∀ p ∈ "I _SC_CLK_TCK 100".toList :: ("I CPUList ".toList ++ w) :: tenJiffiesRows,
      '\n' ∉ p ∧ '\r' ∉ p := by
    intro p hp
    rw [List.mem_cons, List.mem_cons] at hp
    rcases hp with rfl | rfl | hp
    · decide
    · revert w
      decide
    · revert p
      decide
  have hreturn : '\r' ∉ tenJiffiesText w := by
    intro hmem
    obtain ⟨p, hp, hmem⟩ := List.mem_flatMap.mp hmem
    rcases List.mem_append.mp hmem with hmem | hmem
    · exact (hlines p hp).2 hmem
    · exact absurd hmem (by decide)
  have hpieces := pieces_flatMap _ (fun p hp => (hlines p hp).1) []
  rw [List.append_nil, pieces_nil, List.append_nil] at hpieces
  rw [universalNewlines_of_notMem hreturn]
  exact hpieces

/-- The rows after the CPU list, for the CPU numbers before the file and in it. -/
theorem run_tenJiffiesRows : ∀ e ∈ [(([] : List Int), ([0, 1] : List Int)), ([0, 1], [0, 1]),
    ([0, 1], [0])],
    ((tenJiffiesRows.foldlM (processRow (-1) (-1))
      (({ properties := { tick := some 100, cpus := some e.2 } } : Generator Float),
        ({ cpuNrs := e.1 } : Consumer Float))).bind fun r =>
      (consume (-1) (-1) r.1.properties r.2 r.1.state).bind fun c =>
        (c.pidHistory.entries.mapM (result c.traceStart c.traceEnd)).bind fun summaries =>
          some (c.cpuNrs, summaries.flatten)) = some (e.2, [some (tenJiffies e.2)]) := by
  decide +kernel

/-- The row with the CPU list, for CPU numbers in increasing order. -/
theorem processRow_cpuList {start stop : Float} {w : Str} {cpus : List Int}
    (hsplit : split ("I CPUList ".toList ++ w) = ['I'] :: "CPUList".toList :: cpus.map toChars)
    (hcpus : cpus.Pairwise (· < ·)) (g : Generator Float) (c : Consumer Float) :
    processRow start stop (g, c) ("I CPUList ".toList ++ w) =
      some ({ g with properties := { g.properties with cpus := some cpus } }, c) := by
  have hnodup : cpus.Nodup := hcpus.imp fun hlt => ne_of_lt hlt
  have hsort : cpus.mergeSort (· ≤ ·) = cpus :=
    List.mergeSort_of_pairwise (hcpus.imp fun hlt => decide_eq_true (le_of_lt hlt))
  have hinfo : processInfo g.properties ("CPUList".toList :: cpus.map toChars) =
      some { g.properties with cpus := some cpus } := by
    have hcpuList : "CPUList".toList ≠ "_SC_CLK_TCK".toList := by decide
    rw [processInfo, List.head?_cons, Option.bind_some, List.tail_cons]
    dsimp only
    rw [if_neg hcpuList, if_pos rfl, mapM_int, Option.bind_some, if_pos hnodup, hsort]
  rw [processRow, hsplit]
  dsimp only
  rw [if_pos rfl, hinfo, Option.map_some]

/-- The results for a file whose first rows have been read. -/
theorem results_of_run {start stop : Float} {before : List Int} {text : Str} {rows : List Str}
    {r : Generator Float × Consumer Float}
    (h : (pieces '\n' (universalNewlines text)).foldlM (processRow start stop)
      ({}, { cpuNrs := before }) = rows.foldlM (processRow start stop) r) :
    results start stop before text =
      ((rows.foldlM (processRow start stop) r).bind fun r =>
        (consume start stop r.1.properties r.2 r.1.state).bind fun c =>
          (c.pidHistory.entries.mapM (result c.traceStart c.traceEnd)).bind fun summaries =>
            some (c.cpuNrs, summaries.flatten)) := by
  rw [results, processTrace, h, Option.bind_eq_bind, Option.bind_assoc]
  rfl

theorem results_tenJiffiesText {before cpus : List Int} {w : Str}
    (h : (before, cpus, w) ∈ [([], [0, 1], "0 1".toList), ([0, 1], [0, 1], "0 1".toList),
      ([0, 1], [0], "0".toList)]) :
    results (-1 : Float) (-1) before (tenJiffiesText w) =
      some (cpus, [some (tenJiffies cpus)]) := by
  have hsplit : ∀ e ∈ [(([0, 1] : List Int), "0 1".toList), ([0], "0".toList)],
      split ("I CPUList ".toList ++ e.2) = ['I'] :: "CPUList".toList :: e.1.map toChars ∧
        e.1.Pairwise (· < ·) := by
    decide
  have htick : processRow (-1 : Float) (-1) ({}, { cpuNrs := before }) "I _SC_CLK_TCK 100".toList =
      some ({ properties := { tick := some 100 } }, { cpuNrs := before }) := by
    rfl
  have hmem : w ∈ ["0 1".toList, "0".toList] ∧
      (cpus, w) ∈ [(([0, 1] : List Int), "0 1".toList), ([0], "0".toList)] ∧
      (before, cpus) ∈
        [(([] : List Int), ([0, 1] : List Int)), ([0, 1], [0, 1]), ([0, 1], [0])] := by
    simp only [List.mem_cons, Prod.mk.injEq, List.not_mem_nil, or_false] at h ⊢
    rcases h with ⟨rfl, rfl, rfl⟩ | ⟨rfl, rfl, rfl⟩ | ⟨rfl, rfl, rfl⟩ <;> simp
  obtain ⟨hwords, hcpus⟩ := hsplit _ hmem.2.1
  have hrun : (pieces '\n' (universalNewlines (tenJiffiesText w))).foldlM (processRow (-1) (-1))
      (({}, { cpuNrs := before }) : Generator Float × Consumer Float) =
        tenJiffiesRows.foldlM (processRow (-1) (-1))
          (({ properties := { tick := some 100, cpus := some cpus } } : Generator Float),
            ({ cpuNrs := before } : Consumer Float)) := by
    rw [pieces_tenJiffiesText w hmem.1, List.foldlM_cons, htick, Option.bind_eq_bind,
      Option.bind_some, List.foldlM_cons, processRow_cpuList hwords hcpus, Option.bind_eq_bind,
      Option.bind_some]
  have hrest := run_tenJiffiesRows (before, cpus) hmem.2.2
  rw [results_of_run hrun]
  exact hrest

/-- What is reported for the file. -/
def tenJiffiesReport (traceName : Str) (cpus : List Int) : Report Float :=
  ⟨traceName, cpus, [some (tenJiffies cpus)]⟩

theorem processTraces_tenJiffiesText {cpus : List Int} {w : Str}
    (h : (cpus, w) ∈ [([0, 1], "0 1".toList), ([0], "0".toList)]) :
    processTraces (-1 : Float) (-1) [] []
        [(['a'], tenJiffiesText "0 1".toList), (['b'], tenJiffiesText w)] =
      some [tenJiffiesReport ['a'] [0, 1], tenJiffiesReport ['b'] cpus] := by
  have hfirst : results (-1 : Float) (-1) [] (tenJiffiesText "0 1".toList) =
      some ([0, 1], [some (tenJiffies [0, 1])]) := results_tenJiffiesText (by simp)
  have hsecond : results (-1 : Float) (-1) [0, 1] (tenJiffiesText w) =
      some (cpus, [some (tenJiffies cpus)]) := by
    refine results_tenJiffiesText ?_
    simp only [List.mem_cons, Prod.mk.injEq, List.not_mem_nil, or_false] at h ⊢
    rcases h with ⟨rfl, rfl⟩ | ⟨rfl, rfl⟩ <;> simp
  rw [processTraces, if_neg (by decide), hfirst, Option.bind_some, processTraces,
    if_neg (by decide), hsecond, Option.bind_some, processTraces]
  rfl

/-- Two files with the same CPU list. -/
theorem rectangular_two_files : ∃ reports t,
    processTraces (-1 : Float) (-1) [] []
      [(['a'], tenJiffiesText "0 1".toList), (['b'], tenJiffiesText "0 1".toList)] = some reports ∧
    printTable reports = some t ∧
    (t.Rectangular tenJiffiesNumber ↔ Uniform reports) := by
  have hrun := @processTraces_tenJiffiesText [0, 1] "0 1".toList (by simp)
  exact ⟨_, _, hrun, rfl, rectangular_iff comma_notMem_tenJiffiesNumber hrun rfl⟩

/-- The check does not see that the second file has fewer CPUs: there are more values in the row of
    the first file than in the legend. -/
theorem not_rectangular_fewer_cpus : ¬ ∀ number : Row Float → Cell Float → Str,
    (∀ r c, ',' ∉ number r c) → ∀ start stop traces reports t,
      processTraces start stop [] [] traces = some reports →
        printTable reports = some t → t.Rectangular number := by
  intro h
  have hrun := @processTraces_tenJiffiesText [0] "0".toList (by simp)
  have hfits := h tenJiffiesNumber comma_notMem_tenJiffiesNumber _ _ _ _ _ hrun rfl
    ⟨['a'], tenJiffies [0, 1]⟩ List.mem_cons_self
  exact absurd hfits.count (by decide +kernel)

end LibCollector.Ferret.Python
