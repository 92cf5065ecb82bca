import LibCollector.Ferret.PythonTrace

/-!
# `ferret1to2.py`

The script on the text of a v1 trace. A row of v1 is a sample: its time in seconds, a record for
each thread and one for the frequencies, separated by commas. The script gives the new file, which
it leaves behind when it fails, and its failure. `ferret.py` makes of the new file what it makes of
a trace with the same samples (`results_convert`).
-/

namespace LibCollector.Ferret.Convert

open LibCollector.Misc Python

/-! ## The script -/

/-- `" ".join(words)`. -/
def joined (words : List Str) : Str := [' '].intercalate words

/-- `statFields`. -/
def statFields : Str :=
  "pid comm ppid utime stime cutime cstime num_threads starttime processor".toList

/-- `header`. -/
def header : Str :=
  ['\n'].intercalate ["# Converted by ferret1to2.py".toList, "I _SC_CLK_TCK 100".toList,
    "I Status ".toList ++ statFields, []]

/-- The new file, and `cpuList`: `None` is the empty list, which `not cpuList` does not tell
    apart. -/
structure Output where
  cpuList : List Str := []
  text : Str := header
  deriving DecidableEq

/-- `newTraceFile.write`. -/
def Output.write (out : Output) (s : Str) : Output := { out with text := out.text ++ s }

/-- What ends the script early. -/
inductive Failure where
  | assertionError
  | indexError
  | valueError
  | overflowError
  deriving DecidableEq

/-- The variables of the loop over the records of a row. -/
structure Records where
  out : Output
  status : List Str := []
  cpuFreq : List Str := []

/-- One record, with the failure and what has been written before it. `r[0]` and `del state[2]` can
    be out of range. -/
def convertRecord (s : Records) (r : Str) : Except (Failure × Output) Records :=
  if r = [] then .error (.indexError, s.out)
  else if r.head? = some 's' then
    let state := (split r).tail
    if 2 < state.length then
      .ok { s with status := s.status ++ [joined (state.eraseIdx 2)] }
    else .error (.indexError, s.out)
  else if r.head? = some 'f' then
    let pairs := (interleave (split r).tail).map fun p => (p.1.drop 3, p.2)
    let cpus := pairs.map Prod.fst
    let out := if s.out.cpuList = [] then
        { s.out with cpuList := cpus }.write ("I CPUList ".toList ++ joined cpus ++ ['\n'])
      else s.out
    .ok { s with
      out := out
      cpuFreq := s.cpuFreq ++ [joined (pairs.flatMap fun p => [p.1, p.2])] }
  else .error (.assertionError, s.out)

/-- `int(float(x) * 1.0e6)`. -/
def micros (x : Str) : Except Failure Int :=
  match (float x : Option Float) with
  | none => .error .valueError
  | some seconds =>
    let now := seconds * 1.0e6
    if now.isNaN then .error .valueError
    else if now.isInf then .error .overflowError
    else .ok (truncate now)

/-- One row, with the newline at its end. -/
def convertRow (out : Output) (row : Str) : Except (Failure × Output) Output :=
  let records := row.splitOn ','
  if records.length < 3 then .ok out
  else match micros (records.headD []) with
    | .error failure => .error (failure, out)
    | .ok now => do
      let s ← records.tail.foldlM convertRecord { out := out }
      match s.cpuFreq with
      | [freq] => .ok (s.out.write ("T ".toList ++ toChars now ++ ['\n'] ++
          "F ".toList ++ freq ++ ['\n'] ++
          s.status.flatMap fun state => "S ".toList ++ state ++ ['\n']))
      | _ => .error (.assertionError, s.out)

/-- The rows of a file that is read row by row: each has its newline, the last one if there is
    one. -/
def rowsOf : Str → List Str
  | [] => []
  | c :: cs =>
    if c = '\n' then [c] :: rowsOf cs
    else match rowsOf cs with
      | [] => [[c]]
      | row :: rows => (c :: row) :: rows

/-- What the script leaves behind: the new file, and its failure if it has not come to its end. -/
structure Outcome where
  file : Str
  failure : Option Failure
  deriving DecidableEq

/-- The script, on the text of a file. -/
def convert (text : Str) : Outcome :=
  match (rowsOf (universalNewlines text)).foldlM convertRow {} with
  | .ok out => ⟨out.text, none⟩
  | .error e => ⟨e.2.text, some e.1⟩

/-! ## v1 traces by their contents -/

/-- A thread of a v1 sample: the fields of an `S` row, and its state between `comm` and `ppid`. -/
structure OldThread where
  stat : StatFields
  state : Str
  deriving DecidableEq

/-- The words of a thread. -/
def OldThread.words (t : OldThread) : List Str := (BodyRow.stat t.stat).words.insertIdx 2 t.state

/-- The record of a thread. -/
def OldThread.record (t : OldThread) : Str := 's' :: t.words.flatMap (' ' :: ·)

/-- The words of the record of the frequencies: a label for each CPU before its frequency. -/
def freqWords (freqs : List (Int × Int)) : List Str :=
  freqs.flatMap fun e => ["cpu".toList ++ toChars e.1, toChars e.2]

/-- The record of the frequencies. -/
def freqRecord (freqs : List (Int × Int)) : Str := 'f' :: (freqWords freqs).flatMap (' ' :: ·)

/-- A sample: the text of its time, what the script makes of it in microseconds (`now`), the threads
    before and after the frequencies, and the frequencies. -/
structure OldSample where
  seconds : Str
  now : Nat
  before : List OldThread
  freqs : List (Int × Int)
  after : List OldThread
  deriving DecidableEq

/-- The records of a sample behind its time. -/
def OldSample.records (s : OldSample) : List Str :=
  s.before.map OldThread.record ++ freqRecord s.freqs :: s.after.map OldThread.record

/-- A row: a sample, or what has been written of one. -/
inductive OldRow where
  | sample (s : OldSample)
  | part (text : Str)
  deriving DecidableEq

/-- A row of the file, without its newline. -/
def OldRow.line : OldRow → Str
  | .sample s => [','].intercalate (s.seconds :: s.records)
  | .part text => text

/-- A v1 file. -/
def oldText (rows : List OldRow) : Str := rows.flatMap fun row => row.line ++ ['\n']

/-- The sample of a new file that has the times, frequencies and threads of the old one. -/
def OldSample.sample (s : OldSample) : TraceSample where
  now := s.now
  body := .freq s.freqs :: (s.before ++ s.after).map fun t => .stat t.stat

/-- The samples of a v1 file. -/
def samples (rows : List OldRow) : List OldSample :=
  rows.filterMap fun
    | .sample s => some s
    | .part _ => none

/-- The new trace: 100 ticks in a second, and the CPUs of the first sample. -/
def newTrace (rows : List OldRow) : Trace where
  tick := 100
  cpus := ((samples rows).head?.map fun s => s.freqs.map Prod.fst).getD []
  watch := []
  samples := (samples rows).map OldSample.sample

/-- A name and a state that are one word of one record. -/
structure OldThread.Clean (t : OldThread) : Prop where
  comm : ∀ c ∈ t.stat.comm, Python.isSpace c = false ∧ c ≠ ',' ∧ c ≠ '\x00'
  state : IsWord t.state
  comma : ',' ∉ t.state

/-- A sample whose time is in range, with a frequency and a thread. -/
structure OldSample.Clean (s : OldSample) : Prop where
  seconds : ∀ c ∈ s.seconds, c ≠ ',' ∧ c ≠ '\n' ∧ c ≠ '\r'
  micros : micros s.seconds = .ok (s.now : Int)
  now : s.now < 9223372036854775808
  threads : ∀ t ∈ s.before ++ s.after, t.Clean
  some_thread : s.before ++ s.after ≠ []
  cpus : ∀ e ∈ s.freqs, IsInt32 e.1
  nodup : (s.freqs.map Prod.fst).Nodup
  some_freq : s.freqs ≠ []

/-- A row that is a clean sample, or has less than two commas. -/
def OldRow.Clean : OldRow → Prop
  | .sample s => s.Clean
  | .part text => text.count ',' < 2 ∧ ∀ c ∈ text, c ≠ '\n' ∧ c ≠ '\r'

/-! ## Words and records -/

theorem cons_joined {words : List Str} (h : words ≠ []) :
    ' ' :: joined words = words.flatMap (' ' :: ·) := by
  induction words with
  | nil => exact absurd rfl h
  | cons w words ih =>
    cases words with
    | nil => simp [joined]
    | cons v words =>
      have hrest := ih (by simp)
      rw [joined, List.intercalate_cons_cons, List.flatMap_cons, ← hrest, joined]
      simp

/-- A prefix of a text is split into some of the words that the text is joined of, and a prefix of
    the next one. -/
theorem splitOn_prefix {c : Char} {ws : List Str} (hne : ws ≠ []) (hws : ∀ w ∈ ws, c ∉ w)
    {p : Str} (hp : p <+: [c].intercalate ws) :
    ∃ k w q, ws[k]? = some w ∧ q <+: w ∧ p.splitOn c = ws.take k ++ [q] := by
  induction ws generalizing p with
  | nil => exact absurd rfl hne
  | cons w ws ih =>
    have hw : c ∉ w := hws w List.mem_cons_self
    have hshort : p <+: w → ∃ k v q, (w :: ws)[k]? = some v ∧ q <+: v ∧
        p.splitOn c = (w :: ws).take k ++ [q] := fun hpw =>
      ⟨0, w, p, rfl, hpw, List.splitOn_eq_singleton fun hc => hw (hpw.mem hc)⟩
    cases ws with
    | nil =>
      rw [List.intercalate_singleton] at hp
      exact hshort hp
    | cons v ws =>
      rw [List.intercalate_cons_cons, List.append_assoc] at hp
      rcases List.prefix_or_prefix_of_prefix hp (List.prefix_append w _) with hpw | ⟨p, rfl⟩
      · exact hshort hpw
      · rw [List.prefix_append_right_inj, List.singleton_append, List.prefix_cons_iff] at hp
        rcases hp with rfl | ⟨p, rfl, hp⟩
        · exact hshort (by simp)
        · obtain ⟨k, u, q, hu, hq, hsplit⟩ :=
            ih (by simp) (fun u hu => hws u (List.mem_cons_of_mem _ hu)) hp
          refine ⟨k + 1, u, q, hu, hq, ?_⟩
          rw [List.splitOn_append_cons_self_of_not_mem hw, hsplit]
          rfl

theorem splitOn_length (c : Char) (s : Str) : (s.splitOn c).length = s.count c + 1 := by
  induction s with
  | nil => rfl
  | cons d s ih =>
    rw [List.splitOn_cons_eq_if_modifyHead]
    by_cases h : d = c
    · simp [h, ih]
    · simp [h, ih]

/-! ### The newline of a row -/

theorem split_newline (r : Str) : split (r ++ ['\n']) = split r := by
  have hblank : (if Python.isSpace '\n' then ' ' else '\n') = ' ' := by decide
  rw [split, split, List.map_append, List.map_singleton, hblank]
  rcases pieces_concat_delim ' ' (r.map fun c => if Python.isSpace c then ' ' else c) with h | h
  · rw [h]
  · rw [h, List.filter_append]
    simp

/-- A record may end with the newline of its row. -/
theorem convertRecord_newline {r : Str} (h : r ≠ []) (s : Records) :
    convertRecord s (r ++ ['\n']) = convertRecord s r := by
  have hhead : (r ++ ['\n']).head? = r.head? := List.head?_append_of_ne_nil _ h
  have happend : r ++ ['\n'] ≠ [] := List.append_ne_nil_of_left_ne_nil h _
  rw [convertRecord, convertRecord, if_neg h, if_neg happend, hhead, split_newline]

/-- The newline belongs to the last record of a row. -/
theorem splitOn_newline (row : Str) : ∃ init last, row.splitOn ',' = init ++ [last] ∧
    (row ++ ['\n']).splitOn ',' = init ++ [last ++ ['\n']] := by
  induction row with
  | nil => exact ⟨[], [], rfl, rfl⟩
  | cons c row ih =>
    obtain ⟨init, last, hrow, hnewline⟩ := ih
    rw [List.cons_append, List.splitOn_cons_eq_if_modifyHead,
      List.splitOn_cons_eq_if_modifyHead, hrow, hnewline]
    split_ifs
    · exact ⟨[] :: init, last, rfl, rfl⟩
    · cases init with
      | nil => exact ⟨[], c :: last, rfl, rfl⟩
      | cons word init => exact ⟨(c :: word) :: init, last, rfl, rfl⟩

/-- Unless its last record is empty, the newline of a row makes no difference. -/
theorem convertRow_newline {row : Str} (h : ∀ r ∈ (row.splitOn ',').getLast?, r ≠ [])
    (out : Output) : convertRow out (row ++ ['\n']) = convertRow out row := by
  obtain ⟨init, last, hrow, hnewline⟩ := splitOn_newline row
  have hlast : last ≠ [] := h last (by rw [hrow, List.getLast?_concat]; rfl)
  cases init with
  | nil => simp [convertRow, hrow, hnewline]
  | cons time init =>
    rw [convertRow, convertRow, hrow, hnewline]
    simp only [List.cons_append, List.length_cons, List.length_append, List.length_nil,
      List.headD_cons, List.tail_cons, List.foldlM_append, List.foldlM_cons,
      convertRecord_newline hlast]

/-! ### Threads -/

namespace OldThread

variable {t : OldThread}

theorem Clean.rowClean (h : t.Clean) : RowClean (.stat t.stat) := fun c hc => (h.comm c hc).1

theorem Clean.bodyClean (h : t.Clean) : (BodyRow.stat t.stat).Clean := by
  intro c hc
  obtain ⟨hspace, -, hnul⟩ := h.comm c hc
  refine ⟨?_, ?_, hnul⟩
  · rintro rfl
    exact absurd hspace (by decide)
  · rintro rfl
    exact absurd hspace (by decide)

theorem mem_words {w : Str} (hw : w ∈ t.words) : w = t.state ∨ w ∈ (BodyRow.stat t.stat).words :=
  (List.mem_insertIdx (by simp [BodyRow.words, StatFields.fields])).mp hw

theorem Clean.isWord (h : t.Clean) : ∀ w ∈ t.words, IsWord w := by
  intro w hw
  rcases mem_words hw with rfl | hw
  · exact h.state
  · exact isWord_words h.rowClean w hw

theorem Clean.comma_words (h : t.Clean) : ∀ w ∈ t.words, ',' ∉ w := by
  have hnumber : ∀ n : Int, ',' ∉ toChars n := notMem_toChars (by decide) (by decide)
  intro w hw
  rcases mem_words hw with rfl | hw
  · exact h.comma
  · simp only [BodyRow.words, StatFields.fields, List.map_cons, List.map_nil, List.mem_cons,
      List.not_mem_nil, or_false] at hw
    rcases hw with rfl | rfl | rfl | rfl | rfl | rfl | rfl | rfl | rfl | rfl <;>
      first
        | exact hnumber _
        | exact notMem_parens (by decide) (by decide) fun hc => (h.comm _ hc).2.1 rfl

/-- The state is taken out. -/
theorem eraseIdx_words : t.words.eraseIdx 2 = (BodyRow.stat t.stat).words :=
  List.eraseIdx_insertIdx_self _

theorem length_words : t.words.length = 11 := rfl

/-- The record of a thread becomes the words of its `S` row. -/
theorem Clean.convertRecord (h : t.Clean) (s : Records) :
    convertRecord s t.record =
      .ok { s with status := s.status ++ [joined (BodyRow.stat t.stat).words] } := by
  have hsplit : split t.record = ['s'] :: t.words :=
    split_words (show IsWord ['s'] by decide) h.isWord
  have hne : t.record ≠ [] := List.cons_ne_nil _ _
  have hhead : t.record.head? = some 's' := rfl
  rw [Convert.convertRecord, if_neg hne, if_pos hhead, hsplit, List.tail_cons]
  dsimp only
  rw [length_words, eraseIdx_words]
  rfl

end OldThread

/-! ### Frequencies -/

theorem isWord_freqWords (freqs : List (Int × Int)) : ∀ w ∈ freqWords freqs, IsWord w := by
  intro w hw
  obtain ⟨e, -, hw⟩ := List.mem_flatMap.mp hw
  simp only [List.mem_cons, List.not_mem_nil, or_false] at hw
  rcases hw with rfl | rfl
  · refine ⟨by simp, fun c hc => ?_⟩
    rcases List.mem_append.mp hc with hc | hc
    · exact (show IsWord "cpu".toList by decide).2 c hc
    · exact isSpace_toChars hc
  · exact isWord_toChars _

theorem interleave_freqWords (freqs : List (Int × Int)) :
    ((interleave (freqWords freqs)).map fun p => (p.1.drop 3, p.2)) =
      freqs.map fun e => (toChars e.1, toChars e.2) := by
  induction freqs with
  | nil => rfl
  | cons e freqs ih =>
    rw [List.map_cons, ← ih]
    rfl

/-- The new file after a row with these frequencies, in front of its `T` row. -/
def Output.declare (out : Output) (freqs : List (Int × Int)) : Output :=
  let cpus := freqs.map fun e => toChars e.1
  if out.cpuList = [] then
    { out with cpuList := cpus }.write ("I CPUList ".toList ++ joined cpus ++ ['\n'])
  else out

/-- The record of the frequencies becomes the words of its `F` row. -/
theorem convertRecord_freqRecord (freqs : List (Int × Int)) (s : Records) :
    convertRecord s (freqRecord freqs) = .ok { s with
      out := s.out.declare freqs
      cpuFreq := s.cpuFreq ++ [joined (BodyRow.freq freqs).words] } := by
  have hsplit : split (freqRecord freqs) = ['f'] :: freqWords freqs :=
    split_words (show IsWord ['f'] by decide) (isWord_freqWords freqs)
  have hne : freqRecord freqs ≠ [] := List.cons_ne_nil _ _
  have hs : (freqRecord freqs).head? ≠ some 's' := by simp [freqRecord]
  have hf : (freqRecord freqs).head? = some 'f' := rfl
  rw [convertRecord, if_neg hne, if_neg hs, if_pos hf, hsplit, List.tail_cons, interleave_freqWords]
  simp only [List.map_map, List.flatMap_map]
  rfl

/-! ### Rows -/

/-- A loop that may fail, after a step that has not. -/
theorem foldlM_cons_ok {ε σ ι : Type} {step : σ → ι → Except ε σ} {s t : σ} {i : ι}
    (h : step s i = .ok t) (is : List ι) : (i :: is).foldlM step s = is.foldlM step t := by
  rw [List.foldlM_cons, h]
  rfl

theorem foldlM_append_ok {ε σ ι : Type} {step : σ → ι → Except ε σ} {s t : σ} {is : List ι}
    (h : is.foldlM step s = .ok t) (js : List ι) :
    (is ++ js).foldlM step s = js.foldlM step t := by
  rw [List.foldlM_append, h]
  rfl

theorem foldlM_threads {threads : List OldThread} (h : ∀ t ∈ threads, t.Clean) (s : Records) :
    (threads.map OldThread.record).foldlM convertRecord s = .ok { s with
      status := s.status ++ threads.map fun t => joined (BodyRow.stat t.stat).words } := by
  induction threads generalizing s with
  | nil => simp; rfl
  | cons t threads ih =>
    rw [List.map_cons, foldlM_cons_ok ((h t List.mem_cons_self).convertRecord s),
      ih fun u hu => h u (List.mem_cons_of_mem _ hu)]
    simp

theorem comma_notMem_words {c : Char} (hc : c ≠ ',') {ws : List Str} (h : ∀ w ∈ ws, ',' ∉ w) :
    ',' ∉ c :: ws.flatMap (' ' :: ·) := by
  intro hmem
  rcases List.mem_cons.mp hmem with heq | hmem
  · exact hc heq.symm
  · obtain ⟨w, hw, hmem⟩ := List.mem_flatMap.mp hmem
    rcases List.mem_cons.mp hmem with heq | hmem
    · exact absurd heq (by decide)
    · exact h w hw hmem

theorem comma_notMem_freqRecord (freqs : List (Int × Int)) : ',' ∉ freqRecord freqs := by
  have hnumber : ∀ n : Int, ',' ∉ toChars n := notMem_toChars (by decide) (by decide)
  refine comma_notMem_words (by decide) fun w hw => ?_
  obtain ⟨e, -, hw⟩ := List.mem_flatMap.mp hw
  simp only [List.mem_cons, List.not_mem_nil, or_false] at hw
  rcases hw with rfl | rfl
  · simp [hnumber]
  · exact hnumber e.2

namespace OldSample

variable {s : OldSample}

theorem Clean.comma_records (h : s.Clean) : ∀ r ∈ s.seconds :: s.records, ',' ∉ r := by
  have hthread : ∀ t ∈ s.before ++ s.after, ',' ∉ t.record := fun t ht =>
    comma_notMem_words (by decide) (h.threads t ht).comma_words
  intro r hr
  simp only [records, List.mem_cons, List.mem_append, List.mem_map] at hr
  rcases hr with rfl | ⟨t, ht, rfl⟩ | rfl | ⟨t, ht, rfl⟩
  · exact fun hc => (h.seconds _ hc).1 rfl
  · exact hthread t (List.mem_append_left _ ht)
  · exact comma_notMem_freqRecord s.freqs
  · exact hthread t (List.mem_append_right _ ht)

theorem mem_records_of_before {r : Str} (hr : r ∈ s.seconds :: s.before.map OldThread.record) :
    r ∈ s.seconds :: s.records := by
  rw [records, ← List.cons_append]
  exact List.mem_append_left _ hr

theorem Clean.splitOn_line (h : s.Clean) :
    (OldRow.sample s).line.splitOn ',' = s.seconds :: s.records :=
  List.splitOn_intercalate ',' h.comma_records (by simp)

/-- A time, the frequencies and at least one thread. -/
theorem Clean.three_records (h : s.Clean) : 3 ≤ (s.seconds :: s.records).length := by
  have hthreads := List.length_pos_iff.mpr h.some_thread
  rw [List.length_append] at hthreads
  simp only [records, List.length_cons, List.length_append, List.length_map]
  omega

/-- The rows of a sample. -/
theorem text_lines (s : OldSample) (hne : s.freqs ≠ []) :
    s.sample.lines.flatMap (· ++ ['\n']) =
      "T ".toList ++ toChars s.now ++ ['\n'] ++ "F ".toList ++
        joined (BodyRow.freq s.freqs).words ++ ['\n'] ++
        (s.before ++ s.after).flatMap fun t =>
          "S ".toList ++ joined (BodyRow.stat t.stat).words ++ ['\n'] := by
  have hfreq : (BodyRow.freq s.freqs).line =
      "F ".toList ++ joined (BodyRow.freq s.freqs).words := by
    have hwords : (BodyRow.freq s.freqs).words ≠ [] := by
      obtain ⟨e, freqs, heq⟩ := List.exists_cons_of_ne_nil hne
      simp [BodyRow.words, heq]
    exact congrArg (List.cons 'F') (cons_joined hwords).symm
  have hstat : ∀ t : OldThread,
      (BodyRow.stat t.stat).line = "S ".toList ++ joined (BodyRow.stat t.stat).words := fun t =>
    congrArg (List.cons 'S') (cons_joined (by simp [BodyRow.words, StatFields.fields])).symm
  simp only [TraceSample.lines, sample, List.map_cons, List.map_map, List.flatMap_cons,
    List.flatMap_map, hfreq, Function.comp_apply, hstat, timeLine]
  simp

/-- A whole sample is written down. -/
theorem Clean.convertRow (h : s.Clean) (out : Output) :
    convertRow out (OldRow.sample s).line =
      .ok ((out.declare s.freqs).write (s.sample.lines.flatMap (· ++ ['\n']))) := by
  have hlong := Nat.not_lt.mpr h.three_records
  have hrun : s.records.foldlM convertRecord { out := out } = .ok {
      out := out.declare s.freqs
      status := (s.before ++ s.after).map fun t => joined (BodyRow.stat t.stat).words
      cpuFreq := [joined (BodyRow.freq s.freqs).words] } := by
    rw [records,
      foldlM_append_ok (foldlM_threads (fun t ht => h.threads t (List.mem_append_left _ ht)) _),
      foldlM_cons_ok (convertRecord_freqRecord _ _),
      foldlM_threads fun t ht => h.threads t (List.mem_append_right _ ht)]
    simp
  rw [Convert.convertRow, h.splitOn_line, if_neg hlong, List.headD_cons, h.micros,
    List.tail_cons, hrun, text_lines s h.some_freq]
  simp [List.flatMap_map, bind, Except.bind]

/-- No record of a sample is empty. -/
theorem Clean.convertRow_newline (h : s.Clean) (out : Output) :
    Convert.convertRow out ((OldRow.sample s).line ++ ['\n']) =
      Convert.convertRow out (OldRow.sample s).line := by
  refine Convert.convertRow_newline (fun r hr => ?_) out
  rw [h.splitOn_line] at hr
  have hmem : r ∈ s.records := by
    rw [List.getLast?_cons_of_ne_nil (by simp [records])] at hr
    exact List.mem_of_getLast? hr
  simp only [records, List.mem_append, List.mem_map, List.mem_cons] at hmem
  rcases hmem with ⟨t, -, rfl⟩ | rfl | ⟨t, -, rfl⟩
  · exact List.cons_ne_nil _ _
  · exact List.cons_ne_nil _ _
  · exact List.cons_ne_nil _ _

end OldSample

/-! ## The whole file -/

/-- A row with less than two commas is left out. -/
theorem convertRow_part {row : Str} (h : row.count ',' < 2) (out : Output) :
    convertRow out row = .ok out := by
  have hshort : (row.splitOn ',').length < 3 := by
    rw [splitOn_length]
    omega
  rw [convertRow, if_pos hshort]

/-- The rows of the samples in the new file. -/
def newRows (rows : List OldRow) : Str :=
  (samples rows).flatMap fun s => s.sample.lines.flatMap (· ++ ['\n'])

theorem declare_of_ne {out : Output} (h : out.cpuList ≠ []) (freqs : List (Int × Int)) :
    out.declare freqs = out := by
  rw [Output.declare, if_neg h]

/-- The new file after a clean row. -/
def OldRow.written (out : Output) : OldRow → Output
  | .sample s => (out.declare s.freqs).write (s.sample.lines.flatMap (· ++ ['\n']))
  | .part _ => out

/-- A clean row, with its newline. -/
theorem OldRow.Clean.convertRow {row : OldRow} (h : row.Clean) (out : Output) :
    Convert.convertRow out (row.line ++ ['\n']) = .ok (row.written out) := by
  cases row with
  | sample s =>
    exact (OldSample.Clean.convertRow_newline h out).trans (OldSample.Clean.convertRow h out)
  | part text => exact convertRow_part (by simpa [OldRow.line] using h.1) out

/-- Clean rows. -/
theorem foldlM_rows {rows : List OldRow} (h : ∀ row ∈ rows, row.Clean) (out : Output) :
    (rows.map fun row => row.line ++ ['\n']).foldlM convertRow out =
      .ok (rows.foldl OldRow.written out) := by
  induction rows generalizing out with
  | nil => rfl
  | cons row rows ih =>
    rw [List.map_cons, foldlM_cons_ok ((h row List.mem_cons_self).convertRow out),
      ih fun r hr => h r (List.mem_cons_of_mem _ hr)]
    rfl

/-- The rows after the first sample. -/
theorem foldl_written {rows : List OldRow} {out : Output} (hcpus : out.cpuList ≠ []) :
    rows.foldl OldRow.written out = out.write (newRows rows) := by
  induction rows generalizing out with
  | nil => simp [newRows, samples, Output.write]
  | cons row rows ih =>
    rw [List.foldl_cons]
    cases row with
    | sample s =>
      rw [OldRow.written, declare_of_ne hcpus]
      refine (@ih (out.write _) hcpus).trans ?_
      simp [newRows, samples, Output.write]
    | part text =>
      refine (@ih out hcpus).trans ?_
      simp [newRows, samples]

/-- The rows of the new file before its first sample. -/
def newHeader (cpus : List Int) : List Str :=
  ["# Converted by ferret1to2.py".toList, "I _SC_CLK_TCK 100".toList,
    "I Status ".toList ++ statFields, "I CPUList".toList ++ (cpus.map toChars).flatMap (' ' :: ·)]

/-- The new file: the CPUs are declared in front of the first sample. -/
theorem text_written {rows : List OldRow} (h : ∀ row ∈ rows, row.Clean)
    (hne : samples rows ≠ []) : (rows.foldl OldRow.written {}).text =
      (newHeader (newTrace rows).cpus).flatMap (· ++ ['\n']) ++ newRows rows := by
  induction rows with
  | nil => exact absurd rfl hne
  | cons row rows ih =>
    rw [List.foldl_cons]
    cases row with
    | sample s =>
      have hcpus : s.freqs.map (fun e => toChars e.1) ≠ [] := by
        simpa using OldSample.Clean.some_freq (h (.sample s) List.mem_cons_self)
      have hdeclare : Output.declare {} s.freqs = {
          cpuList := s.freqs.map fun e => toChars e.1
          text := (newHeader (s.freqs.map Prod.fst)).flatMap (· ++ ['\n']) } := by
        have hline : "I CPUList ".toList ++ joined (s.freqs.map fun e => toChars e.1) =
            "I CPUList".toList ++ ((s.freqs.map Prod.fst).map toChars).flatMap (' ' :: ·) := by
          rw [List.map_map]
          show _ = _ ++ (s.freqs.map fun e => toChars e.1).flatMap (' ' :: ·)
          rw [← cons_joined hcpus]
          rfl
        rw [Output.declare]
        dsimp only
        rw [if_pos rfl, Output.write, hline]
        simp [newHeader, header, List.intercalate_cons_cons]
      rw [OldRow.written, hdeclare, @foldl_written rows (Output.write ⟨_, _⟩ _) hcpus]
      simp [newRows, samples, newTrace, Output.write]
    | part text =>
      exact ih (fun r hr => h r (List.mem_cons_of_mem _ hr)) (by simpa [samples] using hne)

theorem mem_intercalate {c d : Char} {ws : List Str} (h : c ∈ [d].intercalate ws) :
    c = d ∨ ∃ w ∈ ws, c ∈ w := by
  induction ws with
  | nil => simp at h
  | cons w ws ih =>
    cases ws with
    | nil =>
      rw [List.intercalate_singleton] at h
      exact Or.inr ⟨w, List.mem_cons_self, h⟩
    | cons v ws =>
      rw [List.intercalate_cons_cons] at h
      simp only [List.mem_append, List.mem_singleton] at h
      rcases h with (hw | rfl) | hrest
      · exact Or.inr ⟨w, List.mem_cons_self, hw⟩
      · exact Or.inl rfl
      · rcases ih hrest with rfl | ⟨u, hu, hc⟩
        · exact Or.inl rfl
        · exact Or.inr ⟨u, List.mem_cons_of_mem _ hu, hc⟩

/-- White space in a line of words is a blank. -/
theorem notMem_words {c mark : Char} (hc : Python.isSpace c = true) (hblank : c ≠ ' ')
    (hmark : c ≠ mark) {ws : List Str} (h : ∀ w ∈ ws, IsWord w) :
    c ∉ mark :: ws.flatMap (' ' :: ·) := by
  intro hmem
  rcases List.mem_cons.mp hmem with heq | hmem
  · exact hmark heq
  · obtain ⟨w, hw, hmem⟩ := List.mem_flatMap.mp hmem
    rcases List.mem_cons.mp hmem with heq | hmem
    · exact hblank heq
    · rw [(h w hw).2 c hmem] at hc
      cases hc

/-- A sample stands in one line. -/
theorem OldSample.Clean.notMem_records {s : OldSample} (h : s.Clean) {c : Char}
    (hc : c = '\n' ∨ c = '\r') : ∀ r ∈ s.seconds :: s.records, c ∉ r := by
  have hchar : Python.isSpace c = true ∧ c ≠ ' ' ∧ c ≠ 's' ∧ c ≠ 'f' := by
    rcases hc with rfl | rfl
    · decide
    · decide
  obtain ⟨hspace, hblank, hs, hf⟩ := hchar
  have hthread : ∀ t ∈ s.before ++ s.after, c ∉ t.record := fun t ht =>
    notMem_words hspace hblank hs (h.threads t ht).isWord
  intro r hr
  simp only [OldSample.records, List.mem_cons, List.mem_append, List.mem_map] at hr
  rcases hr with rfl | ⟨t, ht, rfl⟩ | rfl | ⟨t, ht, rfl⟩
  · intro hmem
    obtain ⟨-, hnewline, hreturn⟩ := h.seconds c hmem
    exact hc.elim hnewline hreturn
  · exact hthread t (List.mem_append_left _ ht)
  · exact notMem_words hspace hblank hf (isWord_freqWords s.freqs)
  · exact hthread t (List.mem_append_right _ ht)

/-- So does what is joined of its records. -/
theorem notMem_joined {ws : List Str} {c : Char} (hc : c = '\n' ∨ c = '\r')
    (h : ∀ w ∈ ws, c ∉ w) : c ∉ [','].intercalate ws := by
  intro hmem
  rcases mem_intercalate hmem with rfl | ⟨w, hw, hmem⟩
  · exact absurd hc (by decide)
  · exact h w hw hmem

theorem OldRow.Clean.notMem_line {row : OldRow} (h : row.Clean) {c : Char}
    (hc : c = '\n' ∨ c = '\r') : c ∉ row.line := by
  cases row with
  | sample s => exact notMem_joined hc (OldSample.Clean.notMem_records h hc)
  | part text =>
    intro hmem
    obtain ⟨hnewline, hreturn⟩ := h.2 c hmem
    exact hc.elim hnewline hreturn

theorem return_notMem_oldText {rows : List OldRow} (h : ∀ row ∈ rows, row.Clean) :
    '\r' ∉ oldText rows := by
  intro hmem
  obtain ⟨row, hrow, hmem⟩ := List.mem_flatMap.mp hmem
  rcases List.mem_append.mp hmem with hmem | hmem
  · exact (h row hrow).notMem_line (Or.inr rfl) hmem
  · exact absurd (List.mem_singleton.mp hmem) (by decide)

/-- A row ends with the first newline. -/
theorem rowsOf_append {l : Str} (h : '\n' ∉ l) (s : Str) :
    rowsOf (l ++ '\n' :: s) = (l ++ ['\n']) :: rowsOf s := by
  induction l with
  | nil => rfl
  | cons c l ih =>
    obtain ⟨hc, hl⟩ := not_or.mp (List.mem_cons.not.mp h)
    rw [List.cons_append, rowsOf, if_neg (Ne.symm hc), ih hl]
    rfl

theorem rowsOf_of_notMem {l : Str} (h : '\n' ∉ l) (hne : l ≠ []) : rowsOf l = [l] := by
  induction l with
  | nil => exact absurd rfl hne
  | cons c l ih =>
    obtain ⟨hc, hl⟩ := not_or.mp (List.mem_cons.not.mp h)
    rw [rowsOf, if_neg (Ne.symm hc)]
    cases l with
    | nil => rfl
    | cons d l => rw [ih hl (List.cons_ne_nil d l)]

/-- The rows that the script reads, and what stands behind the last newline. -/
theorem rowsOf_oldText {rows : List OldRow} (h : ∀ row ∈ rows, row.Clean) {last : Str}
    (hlast : '\r' ∉ last) :
    rowsOf (universalNewlines (oldText rows ++ last)) =
      (rows.map fun row => row.line ++ ['\n']) ++ rowsOf last := by
  have hreturn : '\r' ∉ oldText rows ++ last := by
    simp [return_notMem_oldText h, hlast]
  rw [universalNewlines_of_notMem hreturn, oldText]
  clear hreturn
  induction rows with
  | nil => rfl
  | cons row rows ih =>
    have hline := (h row List.mem_cons_self).notMem_line (Or.inl rfl)
    rw [List.flatMap_cons, List.append_assoc, List.append_assoc, List.singleton_append,
      rowsOf_append hline, ih fun r hr => h r (List.mem_cons_of_mem _ hr)]
    rfl

/-- The rows of the new file. -/
def newLines (rows : List OldRow) : List Str :=
  newHeader (newTrace rows).cpus ++ (newTrace rows).samples.flatMap TraceSample.lines

/-- The new file. -/
theorem convert_oldText {rows : List OldRow} (h : ∀ row ∈ rows, row.Clean)
    (hne : samples rows ≠ []) :
    convert (oldText rows) = ⟨(newLines rows).flatMap (· ++ ['\n']), none⟩ := by
  have hread := @rowsOf_oldText rows h [] (by simp)
  rw [List.append_nil, rowsOf, List.append_nil] at hread
  have hrows : newRows rows =
      ((newTrace rows).samples.flatMap TraceSample.lines).flatMap (· ++ ['\n']) := by
    rw [newRows, newTrace, List.flatMap_map, List.flatMap_assoc]
  rw [convert, hread, foldlM_rows h, newLines, List.flatMap_append, ← hrows, ← text_written h hne]

/-! ## What `ferret.py` reads -/

set_option maxRecDepth 4096 in
theorem statFields_eq : statFields = joined (pidStatSpec.map Prod.fst) := rfl

/-- The rows of the new file before its first sample declare what those of a trace declare. -/
theorem run_newHeader {start stop : Float} (c : Consumer Float) {cpus : List Int}
    (hnodup : cpus.Nodup) : run (processRow start stop) ({}, c) (newHeader cpus) =
      some ({ properties := {
        tick := some 100
        cpus := some (cpus.mergeSort (· ≤ ·))
        watch := []
        statFields := pidStatSpec.map Prod.fst } }, c) := by
  have hI : IsWord ['I'] := by decide
  have hcomment : split "# Converted by ferret1to2.py".toList =
      ['#'] :: split "Converted by ferret1to2.py".toList := by
    have hline : "# Converted by ferret1to2.py".toList =
        ['#'] ++ ' ' :: "Converted by ferret1to2.py".toList := by simp
    rw [hline, split_word_append (by decide) (by decide)]
  have htick : split "I _SC_CLK_TCK 100".toList = [['I'], "_SC_CLK_TCK".toList, toChars 100] := by
    have hline : "I _SC_CLK_TCK 100".toList =
        ['I'] ++ ["_SC_CLK_TCK".toList, "100".toList].flatMap (' ' :: ·) := by simp
    have hnumber : toChars 100 = "100".toList := by decide
    rw [hline, hnumber]
    apply split_words hI
    intro w hw
    simp only [List.mem_cons, List.not_mem_nil, or_false] at hw
    rcases hw with rfl | rfl
    · exact show IsWord "_SC_CLK_TCK".toList by decide
    · exact show IsWord "100".toList by decide
  have hstatus : split ("I Status ".toList ++ statFields) =
      ['I'] :: "Status".toList :: pidStatSpec.map Prod.fst := by
    have hline : "I Status ".toList ++ statFields =
        ['I'] ++ ("Status".toList :: pidStatSpec.map Prod.fst).flatMap (' ' :: ·) := by
      rw [statFields_eq, List.flatMap_cons, ← cons_joined (by simp [pidStatSpec])]
      simp
    rw [hline]
    apply split_words hI
    exact show ∀ w ∈ "Status".toList :: pidStatSpec.map Prod.fst, IsWord w by decide
  have hcpus : split ("I CPUList".toList ++ (cpus.map toChars).flatMap (' ' :: ·)) =
      ['I'] :: "CPUList".toList :: cpus.map toChars := by
    have hline : "I CPUList".toList ++ (cpus.map toChars).flatMap (' ' :: ·) =
        ['I'] ++ ("CPUList".toList :: cpus.map toChars).flatMap (' ' :: ·) := by simp
    rw [hline]
    apply split_words hI
    intro w hw
    rcases List.mem_cons.mp hw with rfl | hw
    · exact show IsWord "CPUList".toList by decide
    · obtain ⟨cpu, -, rfl⟩ := List.mem_map.mp hw
      exact isWord_toChars cpu
  rw [newHeader, run_cons, processRow, hcomment]
  simp only [List.cons.injEq, Char.reduceEq, if_false, true_or, if_true,
    Option.bind_some, and_true]
  rw [run_cons, processRow, htick]
  simp only [if_true, processInfo, List.head?_cons, Option.bind_some, List.tail_cons, int_toChars,
    Option.map_some]
  rw [run_cons, processRow, hstatus]
  simp only [if_true, processInfo, List.head?_cons, Option.bind_some, List.tail_cons,
    show ("Status".toList : Str) ≠ "_SC_CLK_TCK".toList by decide,
    show ("Status".toList : Str) ≠ "CPUList".toList by decide,
    show ("Status".toList : Str) ≠ "WatchList".toList by decide, if_false, Option.map_some]
  rw [run_cons, processRow, hcpus]
  simp only [if_true, processInfo, List.head?_cons, Option.bind_some, List.tail_cons, mapM_int,
    show ("CPUList".toList : Str) ≠ "_SC_CLK_TCK".toList by decide, if_false, hnodup,
    Option.map_some, run_nil]

theorem mem_samples {rows : List OldRow} {s : OldSample} (h : s ∈ samples rows) :
    .sample s ∈ rows := by
  obtain ⟨row, hrow, heq⟩ := List.mem_filterMap.mp h
  cases row with
  | sample t =>
    obtain rfl := Option.some.inj heq
    exact hrow
  | part text => cases heq

theorem clean_samples {rows : List OldRow} (h : ∀ row ∈ rows, row.Clean) :
    ∀ s ∈ (newTrace rows).samples, s.Clean ∧ ∀ row ∈ s.body, RowClean row := by
  intro s hs
  obtain ⟨old, hold, rfl⟩ := List.mem_map.mp hs
  have hclean : old.Clean := h _ (mem_samples hold)
  have hrows : ∀ row ∈ old.sample.body, row.Clean ∧ RowClean row := by
    intro row hrow
    rcases List.mem_cons.mp hrow with rfl | hrow
    · exact ⟨trivial, trivial⟩
    · obtain ⟨t, ht, rfl⟩ := List.mem_map.mp hrow
      exact ⟨(hclean.threads t ht).bodyClean, (hclean.threads t ht).rowClean⟩
  exact ⟨⟨hclean.now, fun row hrow => (hrows row hrow).1⟩, fun row hrow => (hrows row hrow).2⟩

/-- The trace of clean rows is one that the readers split into its rows. -/
theorem clean_newTrace {rows : List OldRow} (h : ∀ row ∈ rows, row.Clean) :
    (newTrace rows).Clean ∧ TraceClean (newTrace rows) := by
  have hcpus : (∀ cpu ∈ (newTrace rows).cpus, IsInt32 cpu) ∧ (newTrace rows).cpus.Nodup := by
    rw [newTrace]
    cases hfirst : (samples rows).head? with
    | none => simp
    | some s =>
      have hclean : s.Clean := h _ (mem_samples (List.mem_of_mem_head? hfirst))
      refine ⟨fun cpu hcpu => ?_, hclean.nodup⟩
      obtain ⟨e, he, rfl⟩ := List.mem_map.mp hcpu
      exact hclean.cpus e he
  exact ⟨⟨hcpus.1, hcpus.2, by simp [newTrace], fun s hs => (clean_samples h s hs).1⟩,
    ⟨by simp [newTrace], fun s hs => (clean_samples h s hs).2⟩⟩

theorem newline_notMem_newLines {rows : List OldRow} (h : ∀ row ∈ rows, row.Clean) :
    ∀ l ∈ newLines rows, '\n' ∉ l ∧ '\r' ∉ l := by
  have hreturn : ∀ n : Int, '\r' ∉ toChars n := fun n => return_notMem_isWord (isWord_toChars n)
  intro l hl
  rcases List.mem_append.mp hl with hl | hl
  · simp only [newHeader, List.mem_cons, List.not_mem_nil, or_false] at hl
    rcases hl with rfl | rfl | rfl | rfl
    · decide
    · decide
    · decide
    · have hwords : ∀ w ∈ "CPUList".toList :: (newTrace rows).cpus.map toChars, IsWord w := by
        intro w hw
        rcases List.mem_cons.mp hw with rfl | hw
        · exact show IsWord "CPUList".toList by decide
        · obtain ⟨cpu, -, rfl⟩ := List.mem_map.mp hw
          exact isWord_toChars cpu
      have hline : ∀ c, Python.isSpace c = true → c ≠ ' ' → c ≠ 'I' → c ∉
          'I' :: ("CPUList".toList :: (newTrace rows).cpus.map toChars).flatMap (' ' :: ·) :=
        fun c hspace hblank hI => notMem_words hspace hblank hI hwords
      exact ⟨hline '\n' (by decide) (by decide) (by decide),
        hline '\r' (by decide) (by decide) (by decide)⟩
  · obtain ⟨s, hs, hl⟩ := List.mem_flatMap.mp hl
    obtain ⟨hclean, hrows⟩ := clean_samples h s hs
    refine ⟨newline_notMem_sample hclean l hl, ?_⟩
    rcases List.mem_cons.mp hl with rfl | hl
    · have hline : timeLine s.now = ['T', ' '] ++ toChars (s.now : Int) := rfl
      rw [hline]
      simp [hreturn]
    · obtain ⟨row, hrow, rfl⟩ := List.mem_map.mp hl
      exact return_notMem_line (hclean.body row hrow) (hrows row hrow)

theorem pieces_newLines {rows : List OldRow} (h : ∀ row ∈ rows, row.Clean) :
    pieces '\n' (universalNewlines ((newLines rows).flatMap (· ++ ['\n']))) = newLines rows := by
  have hreturn : '\r' ∉ (newLines rows).flatMap (· ++ ['\n']) := by
    intro hmem
    obtain ⟨l, hl, hmem⟩ := List.mem_flatMap.mp hmem
    rcases List.mem_append.mp hmem with hmem | hmem
    · exact (newline_notMem_newLines h l hl).2 hmem
    · exact absurd (List.mem_singleton.mp hmem) (by decide)
  have hsplit := pieces_flatMap (newLines rows) (fun l hl => (newline_notMem_newLines h l hl).1) []
  rw [universalNewlines_of_notMem hreturn]
  rwa [List.append_nil, pieces_nil, List.append_nil] at hsplit

/-- The program reads the new file like that of a trace with the same samples: the rows before the
    first sample say the same. -/
theorem processTrace_newLines {rows : List OldRow} (h : ∀ row ∈ rows, row.Clean)
    (start stop : Float) (cpuNrs : List Int) :
    processTrace start stop cpuNrs ((newLines rows).flatMap (· ++ ['\n'])) =
      processTrace start stop cpuNrs (newTrace rows).text := by
  obtain ⟨hclean, htrace⟩ := clean_newTrace h
  obtain ⟨watch, hnil, hheader⟩ :=
    run_header (t := newTrace rows) start stop { cpuNrs := cpuNrs } hclean.nodup
  have hnewHeader : run (processRow start stop) ({}, { cpuNrs := cpuNrs })
      (newHeader (newTrace rows).cpus) =
        some ({ properties := Python.header (newTrace rows) watch }, { cpuNrs := cpuNrs }) := by
    rw [hnil rfl]
    exact run_newHeader { cpuNrs := cpuNrs } hclean.nodup
  have hlines : (pieces '\n' (universalNewlines (newTrace rows).text)) =
      headerLines (newTrace rows).tick (newTrace rows).cpus (newTrace rows).watch ++
        (newTrace rows).samples.flatMap TraceSample.lines := by
    rw [universalNewlines_text hclean htrace, pieces_text hclean]
    rfl
  rw [processTrace, processTrace, pieces_newLines h, newLines, hlines]
  show (run (processRow start stop) _ _).bind _ = (run (processRow start stop) _ _).bind _
  rw [run_append, hnewHeader, run_append, hheader]

/-- `ferret.py` reports of the new file what it reports of a trace with the same samples. -/
theorem results_convert {rows : List OldRow} (h : ∀ row ∈ rows, row.Clean)
    (hne : samples rows ≠ []) :
    ∃ text, convert (oldText rows) = ⟨text, none⟩ ∧ ∀ (start stop : Float) cpuNrs,
      results start stop cpuNrs text = results start stop cpuNrs (newTrace rows).text := by
  refine ⟨_, convert_oldText h hne, fun start stop cpuNrs => ?_⟩
  rw [results, results, processTrace_newLines h]

/-- A time need not be the one that is written: decimal fractions are rounded to doubles. -/
example : micros "1.005000".toList = .ok 1004999 := by decide +kernel

/-- A thread of the process `sh`. -/
def shThread (pid utime : Int) : OldThread where
  stat := {
    pid := pid, comm := "sh".toList, ppid := 1, utime := utime, stime := 0, cutime := 0, cstime := 0
    numThreads := 2, starttime := 7, processor := 0 }
  state := ['R']

/-- A sample after 1.5 seconds, with threads before and after the frequencies. -/
def shSample : OldSample where
  seconds := "1.5".toList
  now := 1500000
  before := [shThread 5 3, shThread 6 0]
  freqs := [(0, 1000000), (1, -1)]
  after := [shThread 8 2]

theorem clean_shThread (pid utime : Int) : (shThread pid utime).Clean where
  comm c hc := by
    simp only [shThread, String.reduceToList, List.mem_cons, List.not_mem_nil, or_false] at hc
    rcases hc with rfl | rfl
    · decide
    · decide
  state := show IsWord ['R'] by decide
  comma := by simp [shThread]

theorem clean_shSample : shSample.Clean where
  seconds c hc := by
    simp only [shSample, String.reduceToList, List.mem_cons, List.not_mem_nil, or_false] at hc
    rcases hc with rfl | rfl | rfl
    · decide
    · decide
    · decide
  micros := by decide +kernel
  now := by simp [shSample]
  threads t ht := by
    simp only [shSample, List.cons_append, List.nil_append, List.mem_cons, List.not_mem_nil,
      or_false] at ht
    rcases ht with rfl | rfl | rfl
    · exact clean_shThread 5 3
    · exact clean_shThread 6 0
    · exact clean_shThread 8 2
  some_thread := by simp [shSample]
  cpus := by simp [shSample, IsInt32]
  nodup := by simp [shSample]
  some_freq := by simp [shSample]

theorem clean_shRows : ∀ row ∈ [OldRow.sample shSample, .part "2.0,s 5 (s".toList],
    row.Clean := by
  intro row hrow
  simp only [List.mem_cons, List.not_mem_nil, or_false] at hrow
  rcases hrow with rfl | rfl
  · exact clean_shSample
  · exact ⟨by decide, by simp⟩

theorem results_convert_shSample :
    ∃ text, convert (oldText [.sample shSample, .part "2.0,s 5 (s".toList]) = ⟨text, none⟩ ∧
      ∀ (start stop : Float) cpuNrs, results start stop cpuNrs text =
        results start stop cpuNrs (newTrace [.sample shSample, .part "2.0,s 5 (s".toList]).text :=
  results_convert clean_shRows (by simp [samples])

/-! ## Interrupted rows -/

/-- What is written of a sample before its frequencies. -/
def OldSample.beforeFreqs (s : OldSample) : Str :=
  [','].intercalate (s.seconds :: (s.before.map OldThread.record ++ [[]]))

theorem OldSample.mem_beforeFreqs {s : OldSample} {w : Str}
    (hw : w ∈ s.seconds :: (s.before.map OldThread.record ++ [[]])) :
    w ∈ s.seconds :: s.records ∨ w = [] := by
  rw [← List.cons_append] at hw
  exact (List.mem_append.mp hw).imp OldSample.mem_records_of_before List.mem_singleton.mp

/-- How the script ends on a row that was interrupted there, behind two commas: its last record has
    too few words, or the row has no frequencies. -/
def interruption (row : Str) : Failure :=
  if (split ((row.splitOn ',').getLastD [])).length < 4 then .indexError else .assertionError

/-- The beginning of the record of a thread. -/
theorem convertRecord_prefix {t : OldThread} {q : Str} (hq : q <+: t.record) (s : Records) :
    (∃ status, convertRecord s q = .ok { s with status := status }) ∧ 4 ≤ (split q).length ∨
      convertRecord s q = .error (.indexError, s.out) ∧ (split q).length < 4 := by
  by_cases hnil : q = []
  · subst hnil
    exact Or.inr ⟨rfl, by decide⟩
  · obtain ⟨c, q, rfl⟩ := List.exists_cons_of_ne_nil hnil
    obtain ⟨rest, heq⟩ := hq
    have hc : (c :: q).head? = some 's' := congrArg some (List.cons.inj heq).1
    rw [convertRecord, if_neg hnil, if_pos hc]
    dsimp only
    rw [List.length_tail]
    split_ifs with hlong
    · exact Or.inl ⟨⟨_, rfl⟩, by omega⟩
    · exact Or.inr ⟨rfl, by omega⟩

/-- A row that ends before the frequencies ends the script, with nothing written for it. -/
theorem convertRow_interrupted {s : OldSample} (hs : s.Clean) {last : Str}
    (hlast : last <+: s.beforeFreqs) (hcommas : ¬ last.count ',' < 2) (out : Output) :
    convertRow out last = .error (interruption last, out) := by
  have hcomma : ∀ w ∈ s.seconds :: (s.before.map OldThread.record ++ [[]]), ',' ∉ w := fun w hw =>
    (OldSample.mem_beforeFreqs hw).elim (hs.comma_records w) fun hnil => hnil ▸ List.not_mem_nil
  obtain ⟨k, w, q, hw, hq, hsplit⟩ := splitOn_prefix (by simp) hcomma hlast
  have hlong := splitOn_length ',' last
  rw [hsplit, List.length_append, List.length_singleton, List.length_take,
    Nat.min_eq_left (List.getElem?_eq_some_iff.mp hw).1.le] at hlong
  -- The time and `j` threads are complete, and `q` is what has been written behind them.
  obtain ⟨j, rfl⟩ : ∃ j, k = j + 1 := ⟨k - 1, by omega⟩
  rw [List.getElem?_cons_succ] at hw
  have hj : j ≤ s.before.length := by
    have hlt := (List.getElem?_eq_some_iff.mp hw).1
    rw [List.length_append, List.length_map, List.length_singleton] at hlt
    omega
  have htake : (s.seconds :: (s.before.map OldThread.record ++ [[]])).take (j + 1) =
      s.seconds :: (s.before.take j).map OldThread.record := by
    rw [List.take_succ_cons, List.take_append_of_le_length (by simpa using hj), List.map_take]
  have hlastRecord : ∀ s', (∃ status, convertRecord s' q = .ok { s' with status := status }) ∧
      4 ≤ (split q).length ∨
        convertRecord s' q = .error (.indexError, s'.out) ∧ (split q).length < 4 := by
    intro s'
    rcases List.mem_append.mp (List.mem_of_getElem? hw) with hmem | hmem
    · obtain ⟨t, -, rfl⟩ := List.mem_map.mp hmem
      exact convertRecord_prefix hq s'
    · rw [List.mem_singleton.mp hmem, List.prefix_nil] at hq
      subst hq
      exact Or.inr ⟨rfl, by decide⟩
  have hthreads := @foldlM_threads (s.before.take j)
    (fun t ht => hs.threads t (List.mem_append_left _ (List.mem_of_mem_take ht))) { out := out }
  have hthree : ¬ (last.splitOn ',').length < 3 := by
    rw [splitOn_length]
    omega
  rw [convertRow, if_neg hthree, interruption, hsplit, htake, List.getLastD_concat,
    List.cons_append, List.headD_cons, hs.micros, List.tail_cons]
  dsimp only
  rw [foldlM_append_ok hthreads, List.foldlM_cons]
  generalize ([] ++ (s.before.take j).map fun t =>
    joined (BodyRow.stat t.stat).words : List Str) = done
  rcases hlastRecord { out := out, status := done } with ⟨⟨status, hok⟩, hwords⟩ | ⟨hfail, hwords⟩
  · rw [hok, if_neg (Nat.not_lt.mpr hwords)]
    rfl
  · rw [hfail, if_pos hwords]
    rfl

/-- A sample that was interrupted before its frequencies, at the end of a file, is left out. When
    more than its first thread had been begun, the script fails, and leaves behind the file with
    everything before it. -/
theorem convert_interrupted {rows : List OldRow} (h : ∀ row ∈ rows, row.Clean)
    {s : OldSample} (hs : s.Clean) {last : Str} (hlast : last <+: s.beforeFreqs) :
    ∃ file, convert (oldText rows) = ⟨file, none⟩ ∧ convert (oldText rows ++ last) =
      ⟨file, if last.count ',' < 2 then none else some (interruption last)⟩ := by
  have hline : ∀ c, c = '\n' ∨ c = '\r' → c ∉ last := by
    intro c hc hmem
    refine notMem_joined hc (fun w hw => ?_) (hlast.mem hmem)
    exact (OldSample.mem_beforeFreqs hw).elim (hs.notMem_records hc w) fun hnil =>
      hnil ▸ List.not_mem_nil
  have hwhole := @rowsOf_oldText rows h [] (by simp)
  rw [List.append_nil, rowsOf, List.append_nil] at hwhole
  refine ⟨(rows.foldl OldRow.written {}).text, ?_, ?_⟩
  · rw [convert, hwhole, foldlM_rows h]
  · rw [convert, rowsOf_oldText h (hline '\r' (Or.inr rfl)), foldlM_append_ok (foldlM_rows h {})]
    by_cases hempty : last = []
    · subst hempty
      rfl
    · rw [rowsOf_of_notMem (hline '\n' (Or.inl rfl)) hempty, List.foldlM_cons]
      by_cases hcommas : last.count ',' < 2
      · rw [if_pos hcommas, convertRow_part hcommas]
        rfl
      · rw [if_neg hcommas, convertRow_interrupted hs hlast hcommas]
        rfl

theorem convert_interrupted_shSample :
    ∃ file, convert (oldText [.sample shSample, .part "2.0,s 5 (s".toList]) = ⟨file, none⟩ ∧
      convert (oldText [.sample shSample, .part "2.0,s 5 (s".toList] ++ shSample.beforeFreqs) =
        ⟨file, if shSample.beforeFreqs.count ',' < 2 then none
          else some (interruption shSample.beforeFreqs)⟩ :=
  convert_interrupted clean_shRows clean_shSample (List.prefix_refl _)

end LibCollector.Ferret.Convert
