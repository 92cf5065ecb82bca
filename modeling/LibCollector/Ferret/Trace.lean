import LibCollector.Ferret.ParseStat
import LibCollector.Ferret.Reader

/-!
# Trace files by their contents

A trace file as its header and its samples, each a `T` row and the rows up to the
next one, with the text that stands in the file and the state that the rows of a
sample describe (`TraceSample.state`).
-/

namespace LibCollector.Ferret

open LibCollector.Misc

/-- The ten fields of a `S` row. -/
structure StatFields where
  pid : Int
  comm : Str
  ppid : Int
  utime : Int
  stime : Int
  cutime : Int
  cstime : Int
  numThreads : Int
  starttime : Int
  processor : Int
  deriving DecidableEq

/-- The fields under the labels of `pid_stat_spec`. -/
def StatFields.fields (s : StatFields) : List (Str × StatValue) :=
  [("pid".toList, .int s.pid), ("comm".toList, .text s.comm), ("ppid".toList, .int s.ppid),
    ("utime".toList, .int s.utime), ("stime".toList, .int s.stime),
    ("cutime".toList, .int s.cutime), ("cstime".toList, .int s.cstime),
    ("num_threads".toList, .int s.numThreads), ("starttime".toList, .int s.starttime),
    ("processor".toList, .int s.processor)]

/-- How a field is written: `comm` in parentheses. -/
def StatValue.word : StatValue → Str
  | .int n => toChars n
  | .text s => '(' :: s ++ [')']

/-- The fields as a dictionary. -/
def StatFields.dict (s : StatFields) : OrdMap Str StatValue :=
  s.fields.foldl (fun m f => m.insert f.1 f.2) ∅

namespace StatFields

variable (s : StatFields)

theorem nodup_fields : (s.fields.map Prod.fst).Nodup := by
  have hlabels : s.fields.map Prod.fst = ["pid".toList, "comm".toList, "ppid".toList,
      "utime".toList, "stime".toList, "cutime".toList, "cstime".toList, "num_threads".toList,
      "starttime".toList, "processor".toList] := rfl
  rw [hlabels]
  decide

/-- The dictionary has each field under its label. -/
theorem find?_dict {label : Str} {value : StatValue} (h : (label, value) ∈ s.fields) :
    s.dict.find? label = some value := by
  rw [OrdMap.find?_eq_some_iff, dict]
  exact (OrdMap.mem_entries_foldl_insert s.nodup_fields).mpr ⟨(label, value), h, rfl⟩

@[simp] theorem find?_dict_comm : s.dict.find? "comm".toList = some (.text s.comm) :=
  s.find?_dict (by simp [fields])

@[simp] theorem find?_dict_processor :
    s.dict.find? "processor".toList = some (.int s.processor) :=
  s.find?_dict (by simp [fields])

@[simp] theorem find?_dict_utime : s.dict.find? "utime".toList = some (.int s.utime) :=
  s.find?_dict (by simp [fields])

@[simp] theorem find?_dict_stime : s.dict.find? "stime".toList = some (.int s.stime) :=
  s.find?_dict (by simp [fields])

end StatFields

/-- A row between two `T` rows: an `E` or `#` row, whose text is not read, an `F` row with a
    frequency for each CPU, or a `S` row. -/
inductive BodyRow where
  | skip (mark : Char) (text : Str)
  | freq (entries : List (Int × Int))
  | stat (s : StatFields)
  deriving DecidableEq

/-- A sample: its time in microseconds and the rows that follow the `T` row. -/
structure TraceSample where
  now : Nat
  body : List BodyRow
  deriving DecidableEq

/-- A trace file. -/
structure Trace where
  tick : Int
  cpus : List Int
  watch : List Str
  samples : List TraceSample

/-! ## The text -/

/-- The words of a row, without the first one. -/
def BodyRow.words : BodyRow → List Str
  | .skip _ _ => []
  | .freq entries => entries.flatMap fun e => [toChars e.1, toChars e.2]
  | .stat s => s.fields.map fun f => f.2.word

/-- A row of the file. -/
def BodyRow.line : BodyRow → Str
  | .skip mark text => mark :: text
  | .freq entries => 'F' :: (BodyRow.freq entries).words.flatMap (' ' :: ·)
  | .stat s => 'S' :: (BodyRow.stat s).words.flatMap (' ' :: ·)

/-- The `T` row of a sample. -/
def timeLine (now : Int) : Str := 'T' :: ' ' :: toChars now

/-- The rows of a sample. -/
def TraceSample.lines (s : TraceSample) : List Str := timeLine s.now :: s.body.map BodyRow.line

/-- The rows of a file before its first sample. -/
def headerLines (tick : Int) (cpus : List Int) (watch : List Str) : List Str :=
  ["I _SC_CLK_TCK ".toList ++ toChars tick,
    "I CPUList".toList ++ (cpus.map toChars).flatMap (' ' :: ·),
    "I WatchList".toList ++ watch.flatMap (' ' :: ·),
    "I Status".toList ++ (pidStatSpec.map Prod.fst).flatMap (' ' :: ·)]

/-- The rows of a trace file. -/
def Trace.lines (t : Trace) : List Str :=
  headerLines t.tick t.cpus t.watch ++ t.samples.flatMap TraceSample.lines

/-- The file. -/
def Trace.text (t : Trace) : Str := t.lines.flatMap (· ++ ['\n'])

/-! ## The meaning -/

/-- What a row adds to the state of its sample. -/
def BodyRow.apply (state : Sample) : BodyRow → Sample
  | .skip _ _ => state
  | .freq entries =>
    { state with
      cpu := some (entries.foldl (fun m e => m.insert (toChars e.1) ((e.2 : ℚ) / 1000)) ∅) }
  | .stat s =>
    { state with pid := some ((state.pid.getD ∅).insert (toChars s.pid) s.dict) }

/-- The state that the rows of a sample describe: its time in seconds, the frequencies in MHz, the
    fields of each thread. -/
def TraceSample.state (s : TraceSample) : Sample :=
  s.body.foldl BodyRow.apply { time := some ((s.now : ℚ) / 1000000) }

/-- A field that the reader can convert. -/
def StatValue.Fits : StatValue → Prop
  | .int n => IsInt32 n
  | .text _ => True

@[simp] theorem StatValue.fits_int (n : Int) : (StatValue.int n).Fits ↔ IsInt32 n := Iff.rfl

@[simp] theorem StatValue.fits_text (s : Str) : (StatValue.text s).Fits := trivial

instance : DecidablePred StatValue.Fits := fun v => by
  cases v <;> unfold StatValue.Fits <;> infer_instance

/-- Every integer that the reader converts to an `int` fits. -/
def BodyRow.Fits : BodyRow → Prop
  | .skip _ _ => True
  | .freq entries => ∀ e ∈ entries, IsInt32 e.2
  | .stat s => ∀ f ∈ s.fields, f.2.Fits

instance : DecidablePred BodyRow.Fits := fun row => by
  cases row <;> unfold BodyRow.Fits <;> infer_instance

/-- A row that is one line of words separated by single spaces. -/
def BodyRow.Clean : BodyRow → Prop
  | .skip mark text => (mark = 'E' ∨ mark = '#') ∧ '\n' ∉ text
  | .freq _ => True
  | .stat s => ∀ c ∈ s.comm, c ≠ ' ' ∧ c ≠ '\n' ∧ c ≠ '\x00'

/-- A sample all of whose rows are clean, at a time that is an `int64_t`. -/
structure TraceSample.Clean (s : TraceSample) : Prop where
  now : s.now < 9223372036854775808
  body : ∀ row ∈ s.body, row.Clean

/-- Every thread of the state is banned, or ran on a CPU of the list. -/
def Placed (banned : List Str) (cpus : List Int) (state : Sample) : Prop :=
  ∀ e ∈ (state.pid.getD ∅).entries,
    StatValue.asString (e.2.find? "comm".toList) ∈ banned ∨
      StatValue.asInt (e.2.find? "processor".toList) ∈ cpus

instance (banned : List Str) (cpus : List Int) (state : Sample) :
    Decidable (Placed banned cpus state) := by
  unfold Placed
  infer_instance

theorem apply_time (state : Sample) (row : BodyRow) : (row.apply state).time = state.time := by
  cases row <;> rfl

theorem TraceSample.state_time (s : TraceSample) : s.state.time = some ((s.now : ℚ) / 1000000) := by
  have hfold : ∀ (body : List BodyRow) (state : Sample),
      (body.foldl BodyRow.apply state).time = state.time := by
    intro body
    induction body with
    | nil => exact fun _ => rfl
    | cons row body ih =>
      intro state
      rw [List.foldl_cons, ih, apply_time]
  exact hfold s.body _

/-- The state of a sample is not empty. -/
theorem TraceSample.state_ne (s : TraceSample) : s.state ≠ {} := by
  intro h
  have htime := s.state_time
  rw [h] at htime
  cases htime

end LibCollector.Ferret
