import LibCollector.Ferret.Threads
import LibCollector.Ferret.ReadTrace

/-!
# The samples that the ferret collector writes

What the kernel supplies to a `collect()` call, as data: a stat line for each
thread, a frequency for each CPU (`CallData`). The rows that the call writes are
the rows of a `TraceSample` (`rows_text`), so a run writes the text of a `Trace`
(`Tracing.text_eq`).
-/

namespace LibCollector.Ferret

open LibCollector.Misc

/-! ## Stat lines -/

/-- A line of `/proc/<pid>/task/<tid>/stat` behind the thread id: `comm`, the state, and the
    fields from number 3 on, of which the last one stands apart. A field is in the range of a
    signed or unsigned 64 bit integer. -/
structure StatLine where
  comm : Str
  state : Char
  fields : List Int
  lastField : Int
  comm_ok : ∀ c ∈ comm, c ≠ ')' ∧ c ≠ '\n' ∧ c ≠ '\x00'
  comm_length : comm.length ≤ 64
  state_ok : state ≠ ' ' ∧ state ≠ '\n' ∧ state ≠ '\x00'
  fields_length : 36 ≤ fields.length ∧ fields.length ≤ 60
  fields_range : ∀ n ∈ lastField :: fields, -9223372036854775808 ≤ n ∧ n < 18446744073709551616

namespace StatLine

/-- The words between `comm` and the last one. -/
def words (l : StatLine) : List Str := [l.state] :: l.fields.map toChars

/-- The line of thread `tid`. -/
def text (l : StatLine) (tid : Nat) : Str :=
  lineHead (toChars tid) l.comm l.words ++ toChars l.lastField ++ ['\n']

/-- The fields of `pid_stat_spec`, `comm` with underscores for spaces. -/
def stat (l : StatLine) (tid : Nat) : StatFields where
  pid := tid
  comm := underscores l.comm
  ppid := l.fields.getD 0 0
  utime := l.fields.getD 10 0
  stime := l.fields.getD 11 0
  cutime := l.fields.getD 12 0
  cstime := l.fields.getD 13 0
  numThreads := l.fields.getD 16 0
  starttime := l.fields.getD 18 0
  processor := l.fields.getD 35 0

theorem word_of_toChars (n : Int) : Word (toChars n) :=
  ⟨toChars_ne_nil n, fun _ hc => ⟨fun h => (word_toChars n).2.1 (h ▸ hc),
    fun h => (word_toChars n).2.2 (h ▸ hc), fun h => newline_notMem_toChars n (h ▸ hc)⟩⟩

theorem word_of_mem_words {l : StatLine} : ∀ w ∈ l.words, Word w := by
  intro w hw
  rcases List.mem_cons.mp hw with rfl | hw
  · refine ⟨List.cons_ne_nil _ _, fun c hc => ?_⟩
    rw [List.mem_singleton.mp hc]
    exact ⟨l.state_ok.1, l.state_ok.2.2, l.state_ok.2.1⟩
  · obtain ⟨n, -, rfl⟩ := List.mem_map.mp hw
    exact word_of_toChars n

/-- The word of field `f`, for a field behind the state. -/
theorem getD_words (l : StatLine) {f : Nat} (h : f < l.fields.length) :
    l.words.getD (f + 1) [] = toChars (l.fields.getD f 0) := by
  simp [words, List.getD_eq_getElem?_getD, h]

/-- `parse_stat` takes the fields of the line. -/
theorem parseStatFields_text (l : StatLine) (tid : Nat) :
    parseStatFields (l.text tid) = (BodyRow.stat (l.stat tid)).words := by
  have hcomm : ∀ c ∈ l.comm, c ≠ '\x00' ∧ c ≠ '\n' := fun c hc =>
    ⟨(l.comm_ok c hc).2.2, (l.comm_ok c hc).2.1⟩
  have hlen : 37 ≤ l.words.length := by
    have hfields := l.fields_length.1
    simp only [words, List.length_cons, List.length_map]
    omega
  have hline := parseStatFields_line (word_of_toChars tid) hcomm
    (fun h => (l.comm_ok _ h).1 rfl) word_of_mem_words hlen
    (fun c hc => ((word_of_toChars l.lastField).2 c hc).2) (Or.inr rfl) []
  have hget : ∀ f, f < 36 → l.words.getD (f + 1) [] = toChars (l.fields.getD f 0) := fun f hf =>
    l.getD_words (Nat.lt_of_lt_of_le hf l.fields_length.1)
  have htail : (wantedTail.map fun f => l.words.getD (f - 2) []) =
      [toChars (l.fields.getD 0 0), toChars (l.fields.getD 10 0), toChars (l.fields.getD 11 0),
        toChars (l.fields.getD 12 0), toChars (l.fields.getD 13 0), toChars (l.fields.getD 16 0),
        toChars (l.fields.getD 18 0), toChars (l.fields.getD 35 0)] := by
    rw [← hget 0 (by decide), ← hget 10 (by decide), ← hget 11 (by decide), ← hget 12 (by decide),
      ← hget 13 (by decide), ← hget 16 (by decide), ← hget 18 (by decide), ← hget 35 (by decide)]
    rfl
  rw [text, hline, htail]
  rfl

/-- `parse_stat` appends the fields of the line. -/
theorem parseStat_text (l : StatLine) (tid : Nat) :
    parseStat (l.text tid) = (BodyRow.stat (l.stat tid)).words.flatMap (' ' :: ·) := by
  rw [parseStat, parseStatFields_text]

theorem length_flatMap_le {ws : List Str} {k : Nat} (h : ∀ w ∈ ws, w.length ≤ k) :
    (ws.flatMap (· ++ [' '])).length ≤ ws.length * (k + 1) := by
  induction ws with
  | nil => simp
  | cons w ws ih =>
    have hw := h w List.mem_cons_self
    have hws := ih fun v hv => h v (List.mem_cons_of_mem _ hv)
    simp only [List.flatMap_cons, List.length_append, List.length_cons, List.length_nil,
      Nat.succ_mul]
    omega

/-- The line fits the buffer that `collect_perproc` reads it into. -/
theorem length_text_le (l : StatLine) {tid : Nat} (htid : tid < 2147483648) :
    (l.text tid).length ≤ 4096 := by
  have hnumber : ∀ n : Int, -9223372036854775808 ≤ n → n < 18446744073709551616 →
      (toChars n).length ≤ 21 := fun n hlo hhi =>
    length_toChars_le (by decide : 0 < 20) (by omega) (by omega)
  have hpid := hnumber tid (by omega) (by omega)
  have hlast := hnumber l.lastField (l.fields_range _ List.mem_cons_self).1
    (l.fields_range _ List.mem_cons_self).2
  have hwords : ∀ w ∈ l.words, w.length ≤ 21 := by
    intro w hw
    rcases List.mem_cons.mp hw with rfl | hw
    · simp
    · obtain ⟨n, hn, rfl⟩ := List.mem_map.mp hw
      exact hnumber n (l.fields_range _ (List.mem_cons_of_mem _ hn)).1
        (l.fields_range _ (List.mem_cons_of_mem _ hn)).2
  have hflat := length_flatMap_le hwords
  have hcount : l.words.length = l.fields.length + 1 := by simp [words]
  have hfields := l.fields_length.2
  have hcomm := l.comm_length
  simp only [text, lineHead, List.length_append, List.length_cons, List.length_nil]
  rw [hcount] at hflat
  have hbound : (l.fields.length + 1) * 22 ≤ 61 * 22 := Nat.mul_le_mul_right 22 (by omega)
  simp only [Nat.reduceAdd] at hflat
  omega

theorem text_ne_nil (l : StatLine) (tid : Nat) : l.text tid ≠ [] := by
  rw [text]
  exact List.append_ne_nil_of_right_ne_nil _ (List.cons_ne_nil _ _)

end StatLine

/-! ## The data of one call -/

/-- What the kernel supplies to a call that samples: a frequency in kHz for each CPU and a stat
    line for each thread, `none` when the read fails. -/
structure CallData where
  now : Nat
  freqs : List (Int × Option UInt32)
  threads : List (Nat × Option StatLine)
  now_lt : now < 9223372036854775808
  tid_lt : ∀ t ∈ threads, t.1 < 2147483648
  freqs_nodup : (freqs.map Prod.fst).Nodup
  threads_nodup : (threads.map Prod.fst).Nodup

/-- What is read from the frequency file of a CPU. -/
def freqText : Option UInt32 → Str
  | none => []
  | some n => toChars n.toNat ++ ['\n']

/-- What is read from the stat file of a thread. -/
def threadText (t : Nat × Option StatLine) : Str :=
  match t.2 with
  | none => []
  | some line => line.text t.1

/-- The kernel supplies the data `d` to a call of `c`: `now`, what each descriptor of
    `mCpufreqFdMap` reads, and what each valid descriptor of `mPidFdMap` reads once the threads are
    opened. -/
structure Supplies (env : Proc) (c : FerretCollector) (d : CallData) : Prop where
  now : env.now = d.now
  freqs : (c.mCpufreqFdMap.entries.map fun e => (e.1, env.read e.2)) =
    d.freqs.map fun f => (f.1, freqText f.2)
  threads : ∀ opened, enumerateAll env 0 (monitored env c) c.mPidFdMap = some opened →
    ((opened.1.entries.filter fun e => 0 ≤ e.2).map fun e => (e.1, env.read e.2)) =
      d.threads.map fun t => (toChars t.1, threadText t)

namespace CallData

/-- The CPUs whose frequency could not be read. -/
def failedCpus (d : CallData) : List Int :=
  (d.freqs.filter fun f => f.2 = none).map Prod.fst

/-- The CPUs whose frequency could be read, with the frequency. -/
def readCpus (d : CallData) : List (Int × Int) :=
  d.freqs.filterMap fun f => f.2.map fun n => (f.1, (n.toNat : Int))

/-- The rows of the frequencies. -/
def freqRows (d : CallData) : List BodyRow :=
  (if d.failedCpus = [] then [] else
    [.skip 'E' (d.failedCpus.flatMap fun cpu => " (CPU ".toList ++ toChars cpu ++
      " freq read() failed)".toList)]) ++
  if d.readCpus = [] then [] else [.freq d.readCpus]

/-- The row of a thread. -/
def threadRow (t : Nat × Option StatLine) : BodyRow :=
  match t.2 with
  | none => .skip 'E' (' ' :: toChars t.1 ++ " has gone".toList)
  | some line => .stat (line.stat t.1)

/-- The sample that the call writes. -/
def sample (d : CallData) : TraceSample := ⟨d.now, d.freqRows ++ d.threads.map threadRow⟩

theorem clean_sample (d : CallData) : d.sample.Clean := by
  refine ⟨d.now_lt, fun row hrow => ?_⟩
  have hE : ('E' : Char) = 'E' ∨ ('E' : Char) = '#' := Or.inl rfl
  rcases List.mem_append.mp hrow with hrow | hrow
  · rcases List.mem_append.mp hrow with hrow | hrow
    · split at hrow
      · cases hrow
      · rw [List.mem_singleton.mp hrow]
        refine ⟨hE, fun hmem => ?_⟩
        obtain ⟨cpu, -, hmem⟩ := List.mem_flatMap.mp hmem
        simp only [List.mem_append] at hmem
        rcases hmem with (hmem | hmem) | hmem
        · exact absurd hmem (by decide)
        · exact newline_notMem_toChars cpu hmem
        · exact absurd hmem (by decide)
    · split at hrow
      · cases hrow
      · rw [List.mem_singleton.mp hrow]
        trivial
  · obtain ⟨⟨tid, line⟩, -, rfl⟩ := List.mem_map.mp hrow
    cases line with
    | none =>
      refine ⟨hE, fun hmem => ?_⟩
      simp only [List.mem_append, List.mem_cons] at hmem
      rcases hmem with (hmem | hmem) | hmem
      · exact absurd hmem (by decide)
      · exact newline_notMem_toChars tid hmem
      · exact absurd hmem (by decide)
    | some line =>
      intro c hc
      obtain ⟨b, hb, rfl⟩ := List.mem_map.mp (show c ∈ underscores line.comm from hc)
      obtain ⟨-, hnl, hnul⟩ := line.comm_ok b hb
      split
      · decide
      · rename_i hspace
        exact ⟨hspace, hnl, hnul⟩

end CallData

/-! ## The rows of one call -/

theorem freqText_eq_nil {f : Option UInt32} : freqText f = [] ↔ f = none := by
  cases f with
  | none => simp [freqText]
  | some n => simp [freqText]

/-- The last byte of what is read, the newline, is dropped. -/
theorem cstr_freqText (n : UInt32) :
    cstr ((freqText (some n)).take 100).dropLast = toChars n.toNat := by
  have hlen : (toChars n.toNat).length ≤ 11 := by
    have hlt : n.toNat < 4294967296 := n.toNat_lt
    exact length_toChars_le (by decide : 0 < 10) (by omega) (by omega)
  have htake : (freqText (some n)).take 100 = freqText (some n) := by
    rw [List.take_of_length_le]
    simp only [freqText, List.length_append, List.length_singleton]
    omega
  rw [htake, freqText, List.dropLast_concat]
  exact cstr_of_notMem (word_toChars _).2.2

/-- `collect_freqs` in terms of what each CPU reads. -/
theorem collectFreqs_text {env : Proc} {m : OrdMap Int Int} {d : CallData}
    (h : (m.entries.map fun e => (e.1, env.read e.2)) = d.freqs.map fun f => (f.1, freqText f.2)) :
    (collectFreqs env m).map Row.text = d.freqRows.map fun row => row.line ++ ['\n'] := by
  have hsplit : ∀ (es : List (Int × Int)) (fs : List (Int × Option UInt32)),
      (es.map fun e => (e.1, env.read e.2)) = fs.map (fun f => (f.1, freqText f.2)) →
      (es.filter fun e => env.read e.2 = []).map Prod.fst =
        (fs.filter fun f => f.2 = none).map Prod.fst ∧
      ((es.filter fun e => env.read e.2 ≠ []).map fun e =>
        (e.1, cstr ((env.read e.2).take 100).dropLast)) =
        (fs.filterMap fun f => f.2.map fun n => (f.1, (n.toNat : Int))).map
          fun f => (f.1, toChars f.2) := by
    intro es
    induction es with
    | nil =>
      intro fs hfs
      cases fs with
      | nil => exact ⟨rfl, rfl⟩
      | cons f fs => cases hfs
    | cons e es ih =>
      intro fs hfs
      cases fs with
      | nil => cases hfs
      | cons f fs =>
        obtain ⟨hhead, htail⟩ := List.cons.inj hfs
        obtain ⟨hcpu, hread⟩ := Prod.mk.inj hhead
        obtain ⟨ih1, ih2⟩ := ih fs htail
        obtain ⟨cpu, freq⟩ := f
        dsimp only at hcpu hread
        cases freq with
        | none =>
          have hnil : env.read e.2 = [] := hread
          have hfailed : decide (env.read e.2 = []) = true := decide_eq_true hnil
          have hread : decide (env.read e.2 ≠ []) = false := by simp [hnil]
          simp only [List.filter_cons, hfailed, decide_true, if_true, List.map_cons, ih1, hcpu,
            hread, Bool.false_eq_true, if_false, ih2, List.filterMap_cons, Option.map_none]
          exact ⟨trivial, trivial⟩
        | some n =>
          have hne : env.read e.2 ≠ [] := by
            rw [hread]
            exact fun h => by cases freqText_eq_nil.mp h
          have htext : cstr ((env.read e.2).take 100).dropLast = toChars n.toNat := by
            rw [hread, cstr_freqText]
          simp only [List.filter_cons, hne, decide_false, Bool.false_eq_true, if_false, ih1,
            decide_true, ne_eq, not_false_eq_true, if_true, List.map_cons, htext, ih2, hcpu,
            List.filterMap_cons, Option.map_some, reduceCtorEq]
          exact ⟨trivial, trivial⟩
  obtain ⟨hfailed, hread⟩ := hsplit _ _ h
  have hfailed' : ((m.entries.filter fun e => env.read e.2 = []).map Prod.fst) = d.failedCpus :=
    hfailed
  have hread' : ((m.entries.filter fun e => env.read e.2 ≠ []).map fun e =>
      (e.1, cstr ((env.read e.2).take 100).dropLast)) =
      d.readCpus.map fun f => (f.1, toChars f.2) := hread
  simp only [collectFreqs, hfailed', hread', CallData.freqRows, List.map_append,
    List.map_eq_nil_iff]
  refine congr (congrArg _ ?_) ?_
  · split
    · rfl
    · simp [Row.text, BodyRow.line]
  · split
    · rfl
    · simp [Row.text, BodyRow.line, BodyRow.words, List.flatMap_map, List.flatMap_assoc]

/-- `collect_perproc` in terms of what each valid descriptor reads. -/
theorem collectPerproc_text {env : Proc} {es : List (Str × Int)}
    {threads : List (Nat × Option StatLine)} (htid : ∀ t ∈ threads, t.1 < 2147483648)
    (h : ((es.filter fun e => 0 ≤ e.2).map fun e => (e.1, env.read e.2)) =
      threads.map fun t => (toChars t.1, threadText t)) :
    ((es.flatMap fun e => perprocRow env e.1 e.2).map Row.text) =
      threads.map fun t => (CallData.threadRow t).line ++ ['\n'] := by
  induction es generalizing threads with
  | nil =>
    cases threads with
    | nil => rfl
    | cons t threads => cases h
  | cons e es ih =>
    by_cases hfd : e.2 < 0
    · have hskip : decide (0 ≤ e.2) = false := decide_eq_false (not_le.mpr hfd)
      rw [List.filter_cons, if_neg (by rw [hskip]; exact Bool.false_ne_true)] at h
      rw [List.flatMap_cons, perprocRow, if_pos hfd, List.nil_append]
      exact ih htid h
    · have hkeep : decide (0 ≤ e.2) = true := decide_eq_true (not_lt.mp hfd)
      rw [List.filter_cons, if_pos hkeep, List.map_cons] at h
      cases threads with
      | nil => cases h
      | cons t threads =>
        obtain ⟨hhead, htail⟩ := List.cons.inj h
        obtain ⟨hpid, hread⟩ := Prod.mk.inj hhead
        have hrest := ih (fun u hu => htid u (List.mem_cons_of_mem _ hu)) htail
        have hrow : (perprocRow env e.1 e.2).map Row.text =
            [(CallData.threadRow t).line ++ ['\n']] := by
          obtain ⟨tid, line⟩ := t
          rw [perprocRow, if_neg hfd]
          cases line with
          | none =>
            have hnil : env.read e.2 = [] := hread
            rw [if_pos hnil, hpid]
            simp [Row.text, CallData.threadRow, BodyRow.line]
          | some line =>
            have hline : env.read e.2 = line.text tid := hread
            have hne := line.text_ne_nil tid
            rw [hline, if_neg hne, List.take_of_length_le
              (line.length_text_le (htid _ List.mem_cons_self))]
            rw [List.map_singleton, Row.text, line.parseStat_text]
            rfl
        rw [List.flatMap_cons, List.map_append, hrow, hrest]
        rfl

/-- What a call that samples appends to the trace file. -/
theorem rows_text {env : Proc} {last : Int} {c : FerretCollector} {found : List Str} {d : CallData}
    {opened : OrdMap Str Int × List OpenCall} (h : Supplies env c d)
    (hpoll : pollWatchList env 0 c.mWatchList = some ([], found))
    (hopened : enumerateAll env 0 (c.mPid :: (c.mPids ++ found)) c.mPidFdMap = some opened) :
    ((c.polled env [] found).sampled env last opened).rows.flatMap Row.text =
      d.sample.lines.flatMap (· ++ ['\n']) := by
  have hmon : monitored env c = c.mPid :: (c.mPids ++ found) := by rw [monitored, hpoll]; rfl
  have hthreads := collectPerproc_text d.tid_lt (h.threads opened (by rw [hmon, hopened]))
  have hfreqs := collectFreqs_text h.freqs
  have hmap : (c.polled env [] found).mCpufreqFdMap = c.mCpufreqFdMap :=
    (FerretCollector.sameConfig_polled env c [] found).mCpufreqFdMap
  have htime : Row.text (.time env.now) = timeLine d.now ++ ['\n'] := by
    rw [h.now]
    rfl
  have hfreqs' : (collectFreqs env c.mCpufreqFdMap).flatMap Row.text =
      (d.freqRows.map BodyRow.line).flatMap (· ++ ['\n']) := by
    rw [List.flatMap_def, hfreqs, List.flatMap_def, List.map_map]
    rfl
  have hthreads' : (opened.1.entries.flatMap fun e => perprocRow env e.1 e.2).flatMap Row.text =
      ((d.threads.map CallData.threadRow).map BodyRow.line).flatMap (· ++ ['\n']) := by
    rw [List.flatMap_def (l := opened.1.entries.flatMap _), hthreads, List.flatMap_def,
      List.map_map, List.map_map]
    rfl
  simp only [FerretCollector.sampled, hmap, collectPerproc, TraceSample.lines, CallData.sample,
    List.flatMap_cons, List.cons_append, List.flatMap_append, List.map_append, htime, hfreqs',
    hthreads']

/-! ## The trace of a run -/

/-- A run of a collector with its trace file so far, and the data of the calls that sampled. -/
structure Tracing where
  collector : FerretCollector
  last : Int
  text : Str
  samples : List CallData

namespace Tracing

/-- The run that `start()` begins; `none` when it refuses to. -/
def start (c : FerretCollector) (last : Int) : Option Tracing :=
  if c.mInitSuccess = false ∨ c.mCollecting = true then none
  else some ⟨c.start true, last, c.header, []⟩

/-- A `collect()` call, with the data that the kernel supplies to it. -/
def step (s : Tracing) (call : Proc × CallData) : Option Tracing :=
  (s.collector.collect call.1 s.last).map fun out =>
    { collector := out.collector
      last := out.lastStatus
      text := s.text ++ out.rows.flatMap Row.text
      samples := if out.collector.mWatchList = [] then s.samples ++ [call.2] else s.samples }

/-- Before a call that samples: the data is what the kernel supplies. -/
def Supplied (s : Tracing) (call : Proc × CallData) : Prop :=
  (pollWatchList call.1 0 s.collector.mWatchList).map Prod.fst = some [] →
    Supplies call.1 s.collector call.2

/-- The trace of the samples `samples` of a collector. -/
def traceOf (c : FerretCollector) (samples : List CallData) : Trace where
  tick := c.mClockTicks
  cpus := c.mCpus
  watch := c.mProcessNames
  samples := samples.map CallData.sample

/-- The rows of a header, for any words in front of them. -/
theorem headerRows_eq (clock cpuList watchList status tick : Str) (cpus : List Int)
    (watch : List Str) (spec : List (Str × ℕ)) :
    clock ++ tick ++ ['\n'] ++ cpuList ++ cpus.flatMap (fun cpu => ' ' :: toChars cpu) ++ ['\n'] ++
      watchList ++ watch.flatMap (' ' :: ·) ++ ['\n'] ++ status ++
      spec.flatMap (fun spec => ' ' :: spec.1) ++ ['\n'] =
    [clock ++ tick, cpuList ++ (cpus.map toChars).flatMap (' ' :: ·),
      watchList ++ watch.flatMap (' ' :: ·),
      status ++ (spec.map Prod.fst).flatMap (' ' :: ·)].flatMap (· ++ ['\n']) := by
  simp only [List.flatMap_cons, List.flatMap_nil, List.append_nil, List.append_assoc,
    List.flatMap_map]

theorem header_eq (c : FerretCollector) :
    c.header = (headerLines c.mClockTicks c.mCpus c.mProcessNames).flatMap (· ++ ['\n']) :=
  headerRows_eq _ _ _ _ _ _ _ _

theorem text_append (t : Trace) (s : TraceSample) :
    ({ t with samples := t.samples ++ [s] } : Trace).text =
      t.text ++ s.lines.flatMap (· ++ ['\n']) := by
  simp [Trace.text, Trace.lines, List.flatMap_append]

/-- What the run of `c` has written, and what has not changed since its start. -/
structure Wrote (c : FerretCollector) (s : Tracing) : Prop where
  config : SameConfig (c.start true) s.collector
  text : s.text = (traceOf c s.samples).text

theorem wrote_step {c : FerretCollector} {s t : Tracing} {call : Proc × CallData}
    (inv : Wrote c s) (hsup : Supplied s call) (h : s.step call = some t) : Wrote c t := by
  obtain ⟨out, hout, rfl⟩ := Option.map_eq_some_iff.mp h
  refine ⟨inv.config.trans (FerretCollector.collect_sameConfig hout), ?_⟩
  obtain ⟨-, -, left, found, hpoll, ⟨hleft, rfl⟩ | ⟨rfl, opened, hopened, rfl⟩⟩ :=
    FerretCollector.collect_cases hout
  · have hwait : ((s.collector.polled call.1 left found).await call.1 s.last).rows = [] ∧
        ((s.collector.polled call.1 left found).await call.1 s.last).collector.mWatchList ≠ [] := by
      unfold FerretCollector.await
      split <;> exact ⟨rfl, hleft⟩
    simp only [hwait.1, hwait.2, if_false, List.flatMap_nil, List.append_nil]
    exact inv.text
  · have hdata := hsup (by rw [hpoll]; rfl)
    have hwatch : ((s.collector.polled call.1 [] found).sampled call.1 s.last
        opened).collector.mWatchList = [] := rfl
    have hsample : traceOf c (s.samples ++ [call.2]) =
        { traceOf c s.samples with
          samples := (traceOf c s.samples).samples ++ [call.2.sample] } := by
      simp [traceOf]
    simp only [hwatch, if_true, rows_text hdata hpoll hopened, inv.text, hsample, text_append]

theorem wrote_start {c : FerretCollector} {last : Int} {s : Tracing} (h : start c last = some s) :
    Wrote c s := by
  rw [start] at h
  split at h
  · cases h
  · cases h
    refine ⟨⟨rfl, rfl, rfl, rfl, rfl, rfl, rfl, rfl, rfl⟩, ?_⟩
    simp only [header_eq, Trace.text, Trace.lines, traceOf, List.map_nil, List.flatMap_nil,
      List.append_nil]

/-- A run writes the trace of the data that the kernel has supplied to it. -/
theorem wrote_run {c : FerretCollector} {s t : Tracing} {calls : List (Proc × CallData)}
    (hsup : StepsMeet step Supplied s calls) (h : run step s calls = some t) (hs : Wrote c s) :
    Wrote c t := by
  induction calls generalizing s with
  | nil =>
    cases h
    exact hs
  | cons call calls ih =>
    obtain ⟨s₁, hs₁, hrest⟩ := run_cons_eq_some.mp h
    exact ih (hsup.2 s₁ hs₁) hrest (wrote_step hs hsup.1 hs₁)

end Tracing

end LibCollector.Ferret
