import LibCollector.Ferret.Python
import LibCollector.Ferret.ReadTrace

/-!
# What `ferret.py` makes of a trace file

`processTrace` on the text of a `Trace`: the consumer gets the record of every sample of the
file, in order (`processTrace_text`).
-/

namespace LibCollector.Ferret.Python

open LibCollector.Misc

/-! ## Words -/

/-- A word of the file. -/
def IsWord (w : Str) : Prop := w ≠ [] ∧ ∀ c ∈ w, isSpace c = false

instance (w : Str) : Decidable (IsWord w) :=
  decidable_of_iff ((w.isEmpty || w.any isSpace) = false) (by simp [IsWord])

theorem isWord_toChars (n : Int) : IsWord (toChars n) :=
  ⟨toChars_ne_nil n, fun _ => isSpace_toChars⟩

/-- White space is replaced by blanks. -/
def blanks (s : Str) : Str := s.map fun c => if isSpace c then ' ' else c

theorem blanks_of_isWord {w : Str} (h : IsWord w) : blanks w = w := by
  have hmap : ∀ c ∈ w, (if isSpace c then ' ' else c) = c := by
    intro c hc
    rw [h.2 c hc, if_neg Bool.false_ne_true]
  rw [blanks, List.map_congr_left hmap]
  exact List.map_id w

theorem blank_notMem {w : Str} (h : IsWord w) : ' ' ∉ w := by
  intro hmem
  exact absurd (h.2 _ hmem) (by decide)

theorem split_word {w : Str} (h : IsWord w) : split w = [w] := by
  have hblanks := blanks_of_isWord h
  rw [blanks] at hblanks
  rw [split, hblanks, pieces_of_notMem (blank_notMem h) h.1]
  simp [h.1]

/-- A word ends at white space. -/
theorem split_word_append {w : Str} (h : IsWord w) {c : Char} (hc : isSpace c = true) (s : Str) :
    split (w ++ c :: s) = w :: split s := by
  have hblanks := blanks_of_isWord h
  rw [blanks] at hblanks
  rw [split, List.map_append, List.map_cons, hblanks, if_pos hc,
    pieces_append_delim (blank_notMem h), List.filter_cons_of_pos (by simp [h.1])]
  rfl

theorem split_words {w : Str} (h : IsWord w) {ws : List Str} (hws : ∀ v ∈ ws, IsWord v) :
    split (w ++ ws.flatMap (' ' :: ·)) = w :: ws := by
  induction ws generalizing w with
  | nil =>
    rw [List.flatMap_nil, List.append_nil]
    exact split_word h
  | cons v ws ih =>
    rw [List.flatMap_cons, List.cons_append, split_word_append h (by decide),
      ih (hws v List.mem_cons_self) fun u hu => hws u (List.mem_cons_of_mem _ hu)]

theorem universalNewlines_of_notMem {s : Str} (h : '\r' ∉ s) : universalNewlines s = s := by
  induction s with
  | nil => rfl
  | cons c s ih =>
    rcases not_or.mp (List.mem_cons.not.mp h) with ⟨hc, hs⟩
    rw [universalNewlines.eq_3 c s (fun _ heq _ => hc heq.symm) (fun heq => hc heq.symm), ih hs]

theorem mapM_int (ns : List Int) : (ns.map toChars).mapM int = some ns := by
  induction ns with
  | nil => rfl
  | cons n ns ih =>
    rw [List.map_cons, List.mapM_cons, int_toChars, ih]
    rfl

/-! ## Rows -/

/-- What a row adds to the state of its sample. -/
def applyRow (state : Sample ℚ) : BodyRow → Sample ℚ
  | .skip _ _ => state
  | .freq entries =>
    { state with
      cpu := some (entries.foldl (fun m e => m.insert e.1 (clamp ((e.2 : ℚ) / 1000))) ∅) }
  | .stat s => { state with pid := some ((state.pid.getD ∅).insert s.pid s.dict) }

/-- What is yielded for a sample. -/
def record (s : TraceSample) : Sample ℚ :=
  s.body.foldl applyRow { time := some ((s.now : ℚ) / 1000000) }

theorem record_time (s : TraceSample) : (record s).time = some ((s.now : ℚ) / 1000000) := by
  have hfold : ∀ (body : List BodyRow) (state : Sample ℚ),
      (body.foldl applyRow state).time = state.time := by
    intro body
    induction body with
    | nil => exact fun _ => rfl
    | cons row body ih =>
      intro state
      rw [List.foldl_cons, ih]
      cases row <;> rfl
  exact hfold s.body _

/-- The record of a sample is not empty. -/
theorem record_ne (s : TraceSample) : record s ≠ {} := by
  intro h
  have htime := record_time s
  rw [h] at htime
  cases htime

/-- A row whose words are separated by white space for Python, too. -/
def RowClean : BodyRow → Prop
  | .skip _ text => (∀ c ∈ text.head?, isSpace c = true) ∧ '\r' ∉ text
  | .freq _ => True
  | .stat s => ∀ c ∈ s.comm, isSpace c = false

/-- A trace that Python splits into the same rows and words. -/
structure TraceClean (t : Trace) : Prop where
  watch : ∀ name ∈ t.watch, '\r' ∉ name
  rows : ∀ s ∈ t.samples, ∀ row ∈ s.body, RowClean row

theorem isWord_comm {comm : Str} (h : ∀ c ∈ comm, isSpace c = false) :
    IsWord (StatValue.word (.text comm)) := by
  refine ⟨by simp [StatValue.word], fun c hc => ?_⟩
  simp only [StatValue.word, List.mem_append, List.mem_cons, List.not_mem_nil, or_false] at hc
  rcases hc with (rfl | hc) | rfl
  · decide
  · exact h c hc
  · decide

theorem isWord_words {row : BodyRow} (h : RowClean row) : ∀ w ∈ row.words, IsWord w := by
  intro w hw
  cases row with
  | skip mark text => cases hw
  | freq entries =>
    rcases List.mem_flatMap.mp hw with ⟨e, -, hw⟩
    simp only [List.mem_cons, List.not_mem_nil, or_false] at hw
    rcases hw with rfl | rfl
    · exact isWord_toChars _
    · exact isWord_toChars _
  | stat s =>
    simp only [BodyRow.words, StatFields.fields, List.map_cons, List.map_nil, List.mem_cons,
      List.not_mem_nil, or_false] at hw
    rcases hw with rfl | rfl | rfl | rfl | rfl | rfl | rfl | rfl | rfl | rfl <;>
      first
        | exact isWord_toChars _
        | exact isWord_comm h

/-- The fields of a `S` row are converted back. -/
theorem mapM_convert {fields : List (Str × StatValue)}
    (h : ∀ f ∈ fields, convert f.1 f.2.word = some f.2) :
    ((fields.map Prod.fst).zip (fields.map fun f => f.2.word)).mapM
      (fun p => (convert p.1 p.2).map (p.1, ·)) = some fields := by
  induction fields with
  | nil => rfl
  | cons f fields ih =>
    rw [List.map_cons, List.map_cons, List.zip_cons_cons, List.mapM_cons,
      ih fun g hg => h g (List.mem_cons_of_mem _ hg), h f List.mem_cons_self]
    rfl

theorem convert_int {label : Str} (h : label ≠ "comm".toList ∧ label ∈ intFields) (n : Int) :
    convert label (StatValue.word (.int n)) = some (.int n) := by
  rw [convert, if_neg h.1, if_pos h.2, StatValue.word, int_toChars]
  rfl

theorem convert_fields (s : StatFields) : ∀ f ∈ s.fields, convert f.1 f.2.word = some f.2 := by
  have hints : ∀ label ∈ pidStatSpec.map Prod.fst, label ≠ "comm".toList → label ∈ intFields := by
    decide
  rintro ⟨label, value⟩ hf
  have hlabel := labelled_fields s _ hf
  have hmem : label ∈ pidStatSpec.map Prod.fst := List.mem_map_of_mem (f := Prod.fst) hf
  cases value with
  | int n => exact convert_int ⟨hlabel, hints label hmem hlabel⟩ n
  | text comm =>
    have hcomm : label = "comm".toList := hlabel
    rw [convert, if_pos hcomm]
    simp [StatValue.word]

theorem processStatus_words (s : StatFields) (state : Sample ℚ) :
    processStatus (pidStatSpec.map Prod.fst) (BodyRow.stat s).words state =
      some (applyRow state (.stat s)) := by
  have hlabels : pidStatSpec.map Prod.fst = s.fields.map Prod.fst := rfl
  have hlength : intFields.length + 1 = (s.fields.map Prod.fst).length ∧
      (BodyRow.stat s).words.length = (s.fields.map Prod.fst).length := ⟨rfl, rfl⟩
  rw [processStatus, hlabels, if_pos hlength, BodyRow.words, mapM_convert (convert_fields s)]
  rfl

theorem interleave_entries (entries : List (Int × Int)) :
    interleave (entries.flatMap fun e => [toChars e.1, toChars e.2]) =
      entries.map fun e => (toChars e.1, toChars e.2) := by
  induction entries with
  | nil => rfl
  | cons e entries ih =>
    rw [List.flatMap_cons, List.map_cons, ← ih]
    rfl

theorem processCpu_words (entries : List (Int × Int)) (state : Sample ℚ) :
    processCpu (BodyRow.freq entries).words state = some (applyRow state (.freq entries)) := by
  have hpairs : ((entries.map fun e => (toChars e.1, toChars e.2)).mapM fun p =>
      (int p.1).bind fun cpu => (freqScale p.2).map fun freq => (cpu, clamp freq)) =
      some (entries.map fun e => (e.1, clamp ((e.2 : ℚ) / 1000))) := by
    induction entries with
    | nil => rfl
    | cons e entries ih =>
      rw [List.map_cons, List.mapM_cons, ih, int_toChars, freqScale_rat, int_toChars]
      rfl
  rw [processCpu, BodyRow.words, interleave_entries, hpairs, Option.map_some, List.foldl_map]
  rfl

section rows

variable {start stop : ℚ}

/-- A row between two `T` rows. -/
theorem processRow_body {g : Generator ℚ} {c : Consumer ℚ}
    (hlabels : g.properties.statFields = pidStatSpec.map Prod.fst) {row : BodyRow}
    (hclean : row.Clean) (hrow : RowClean row) :
    processRow start stop (g, c) row.line =
      some ({ g with state := applyRow g.state row }, c) := by
  cases row with
  | skip mark text =>
    have hmark : IsWord [mark] ∧ [mark] ≠ ['I'] ∧ [mark] ≠ ['T'] ∧ [mark] ≠ ['S'] ∧
        [mark] ≠ ['F'] ∧ ([mark] = ['#'] ∨ [mark] = ['E']) := by
      rcases hclean.1 with rfl | rfl
      · exact ⟨show IsWord ['E'] by decide, by decide⟩
      · exact ⟨show IsWord ['#'] by decide, by decide⟩
    rcases hmark with ⟨hword, hI, hT, hS, hF, hskip⟩
    have hsplit : ∃ rest, split (BodyRow.skip mark text).line = [mark] :: rest := by
      cases text with
      | nil => exact ⟨[], split_word hword⟩
      | cons c text => exact ⟨_, split_word_append hword (hrow.1 c rfl) text⟩
    rcases hsplit with ⟨rest, hsplit⟩
    rw [processRow, hsplit]
    simp only [hI, hT, hS, hF, hskip, if_true, if_false]
    rfl
  | freq entries =>
    have hsplit : split (BodyRow.freq entries).line = ['F'] :: (BodyRow.freq entries).words :=
      split_words (show IsWord ['F'] by decide) (isWord_words hrow)
    rw [processRow, hsplit]
    simp only [processCpu_words, Option.map_some]
    rfl
  | stat s =>
    have hsplit : split (BodyRow.stat s).line = ['S'] :: (BodyRow.stat s).words :=
      split_words (show IsWord ['S'] by decide) (isWord_words hrow)
    rw [processRow, hsplit]
    simp only [hlabels, processStatus_words, Option.map_some]
    rfl

/-- A `T` row. -/
theorem processRow_time (g : Generator ℚ) (c : Consumer ℚ) (now : Nat) :
    processRow start stop (g, c) (timeLine now) =
      (if g.state = {} then some c else consume start stop g.properties c g.state).map fun c =>
        ({ g with state := { time := some ((now : ℚ) / 1000000) } }, c) := by
  have hline : timeLine now = ['T'] ++ [toChars (now : Int)].flatMap (' ' :: ·) := by
    simp [timeLine]
  have hsplit : split (timeLine now) = [['T'], toChars (now : Int)] := by
    rw [hline]
    apply split_words (show IsWord ['T'] by decide)
    intro w hw
    rw [List.mem_singleton.mp hw]
    exact isWord_toChars now
  rw [processRow, hsplit]
  simp only [processTime_rat, Option.bind_some]
  rfl

/-- The rows between two `T` rows. -/
theorem run_body {g : Generator ℚ} {c : Consumer ℚ}
    (hlabels : g.properties.statFields = pidStatSpec.map Prod.fst) {body : List BodyRow}
    (hclean : ∀ row ∈ body, row.Clean) (hrows : ∀ row ∈ body, RowClean row) :
    run (processRow start stop) (g, c) (body.map BodyRow.line) =
      some ({ g with state := body.foldl applyRow g.state }, c) := by
  induction body generalizing g with
  | nil => rfl
  | cons row body ih =>
    have hrow := @processRow_body start stop g c hlabels row (hclean row List.mem_cons_self)
      (hrows row List.mem_cons_self)
    have hrest := @ih { g with state := applyRow g.state row } hlabels
      (fun r hr => hclean r (List.mem_cons_of_mem _ hr))
      fun r hr => hrows r (List.mem_cons_of_mem _ hr)
    rw [List.map_cons, run_cons, hrow, Option.bind_some, hrest]
    rfl

/-- The samples that are yielded from a `T` row on, if one has been begun before it. -/
theorem run_samples {g : Generator ℚ} {c : Consumer ℚ}
    (hlabels : g.properties.statFields = pidStatSpec.map Prod.fst) (hstate : g.state ≠ {})
    {samples : List TraceSample} (hclean : ∀ s ∈ samples, s.Clean)
    (hrows : ∀ s ∈ samples, ∀ row ∈ s.body, RowClean row) :
    (run (processRow start stop) (g, c) (samples.flatMap TraceSample.lines)).bind
        (fun r => consume start stop r.1.properties r.2 r.1.state) =
      (g.state :: samples.map record).foldlM (consume start stop g.properties) c := by
  induction samples generalizing g c with
  | nil =>
    rw [List.flatMap_nil, run_nil, Option.bind_some, List.map_nil, List.foldlM_cons]
    cases consume start stop g.properties c g.state <;> rfl
  | cons s samples ih =>
    rw [List.flatMap_cons, run_append, TraceSample.lines, run_cons, processRow_time, if_neg hstate,
      List.map_cons, List.foldlM_cons]
    cases hconsume : consume start stop g.properties c g.state with
    | none => rfl
    | some next =>
      have hbody := @run_body start stop
        { g with state := { time := some ((s.now : ℚ) / 1000000) } } next hlabels s.body
        (hclean s List.mem_cons_self).body (hrows s List.mem_cons_self)
      have hrest := @ih { g with state := record s } next hlabels (record_ne s)
        (fun r hr => hclean r (List.mem_cons_of_mem _ hr))
        fun r hr => hrows r (List.mem_cons_of_mem _ hr)
      rw [Option.map_some, Option.bind_some, hbody, Option.bind_some]
      exact hrest

end rows

/-! ## The whole file -/

/-- What the rows before the first sample declare, with the words of the watch list. -/
def header (t : Trace) (watch : List Str) : TraceProperties where
  tick := some t.tick
  cpus := some t.cpuList
  watch := watch
  statFields := pidStatSpec.map Prod.fst

/-- The rows before the first sample. -/
theorem run_header {F : Type} [OfNat F 0] [Add F] [Sub F] [Mul F] [Div F] [LT F] [LE F] [BEq F]
    [OfScientific F] [DecidableLT F] [DecidableLE F] [Floating F] (start stop : F)
    (c : Consumer F) {t : Trace} (hnodup : t.cpus.Nodup) : ∃ watch, (t.watch = [] → watch = []) ∧
      run (processRow start stop) ({}, c) (headerLines t.tick t.cpus t.watch) =
        some ({ properties := header t watch }, c) := by
  have hI : IsWord ['I'] := by decide
  have hfirst : split ("I _SC_CLK_TCK ".toList ++ toChars t.tick) =
      [['I'], "_SC_CLK_TCK".toList, toChars t.tick] := by
    have hline : "I _SC_CLK_TCK ".toList ++ toChars t.tick =
        ['I'] ++ ["_SC_CLK_TCK".toList, toChars t.tick].flatMap (' ' :: ·) := by simp
    rw [hline]
    apply split_words hI
    intro w hw
    simp only [List.mem_cons, List.not_mem_nil, or_false] at hw
    rcases hw with rfl | rfl
    · exact show IsWord "_SC_CLK_TCK".toList by decide
    · exact isWord_toChars _
  have hsecond : split ("I CPUList".toList ++ (t.cpus.map toChars).flatMap (' ' :: ·)) =
      ['I'] :: "CPUList".toList :: t.cpus.map toChars := by
    have hline : "I CPUList".toList ++ (t.cpus.map toChars).flatMap (' ' :: ·) =
        ['I'] ++ ("CPUList".toList :: t.cpus.map toChars).flatMap (' ' :: ·) := by simp
    rw [hline]
    apply split_words hI
    intro w hw
    rcases List.mem_cons.mp hw with rfl | hw
    · exact show IsWord "CPUList".toList by decide
    · rcases List.mem_map.mp hw with ⟨cpu, -, rfl⟩
      exact isWord_toChars cpu
  have hthird : ∃ watch, (t.watch = [] → watch = []) ∧
      split ("I WatchList".toList ++ t.watch.flatMap (' ' :: ·)) =
        ['I'] :: "WatchList".toList :: watch := by
    have hline : "I WatchList".toList ++ t.watch.flatMap (' ' :: ·) =
        ['I'] ++ ' ' :: ("WatchList".toList ++ t.watch.flatMap (' ' :: ·)) := by simp
    have hword : IsWord "WatchList".toList := by decide
    rw [hline, split_word_append hI (by decide)]
    cases t.watch with
    | nil =>
      rw [List.flatMap_nil, List.append_nil, split_word hword]
      exact ⟨[], fun _ => rfl, rfl⟩
    | cons name watch =>
      rw [List.flatMap_cons, List.cons_append, split_word_append hword (by decide)]
      exact ⟨_, fun hnil => absurd hnil (List.cons_ne_nil name watch), rfl⟩
  have hfourth : split ("I Status".toList ++ (pidStatSpec.map Prod.fst).flatMap (' ' :: ·)) =
      ['I'] :: "Status".toList :: pidStatSpec.map Prod.fst := by
    have hline : "I Status".toList ++ (pidStatSpec.map Prod.fst).flatMap (' ' :: ·) =
        ['I'] ++ ("Status".toList :: pidStatSpec.map Prod.fst).flatMap (' ' :: ·) := by simp
    rw [hline]
    apply split_words hI
    exact show ∀ w ∈ "Status".toList :: pidStatSpec.map Prod.fst, IsWord w by decide
  rcases hthird with ⟨watch, hnil, hthird⟩
  refine ⟨watch, hnil, ?_⟩
  rw [headerLines, run_cons, processRow, hfirst]
  simp only [if_true, processInfo, List.head?_cons, Option.bind_some, List.tail_cons, int_toChars,
    Option.map_some]
  rw [run_cons, processRow, hsecond]
  simp only [if_true, processInfo, List.head?_cons, Option.bind_some, List.tail_cons, mapM_int,
    show ("CPUList".toList : Str) ≠ "_SC_CLK_TCK".toList by decide, if_false, hnodup,
    Option.map_some]
  rw [run_cons, processRow, hthird]
  simp only [if_true, processInfo, List.head?_cons, Option.bind_some, List.tail_cons,
    show ("WatchList".toList : Str) ≠ "_SC_CLK_TCK".toList by decide,
    show ("WatchList".toList : Str) ≠ "CPUList".toList by decide, if_false, Option.map_some]
  rw [run_cons, processRow, hfourth]
  simp only [if_true, processInfo, List.head?_cons, Option.bind_some, List.tail_cons,
    show ("Status".toList : Str) ≠ "_SC_CLK_TCK".toList by decide,
    show ("Status".toList : Str) ≠ "CPUList".toList by decide,
    show ("Status".toList : Str) ≠ "WatchList".toList by decide, if_false, Option.map_some, run_nil]
  rfl

theorem return_notMem_words {w : Str} (hw : '\r' ∉ w) {ws : List Str}
    (hws : ∀ v ∈ ws, '\r' ∉ v) : '\r' ∉ w ++ ws.flatMap (' ' :: ·) := by
  intro hmem
  rcases List.mem_append.mp hmem with hmem | hmem
  · exact hw hmem
  · rcases List.mem_flatMap.mp hmem with ⟨v, hv, hmem⟩
    rcases List.mem_cons.mp hmem with hmem | hmem
    · exact absurd hmem (by decide)
    · exact hws v hv hmem

theorem return_notMem_isWord {w : Str} (h : IsWord w) : '\r' ∉ w := by
  intro hmem
  exact absurd (h.2 _ hmem) (by decide)

theorem return_notMem_line {row : BodyRow} (hclean : row.Clean) (h : RowClean row) :
    '\r' ∉ row.line := by
  have hwords : ∀ w ∈ row.words, '\r' ∉ w := fun w hw => return_notMem_isWord (isWord_words h w hw)
  cases row with
  | skip mark text =>
    refine List.mem_cons.not.mpr (not_or.mpr ⟨?_, h.2⟩)
    rcases hclean.1 with rfl | rfl <;> decide
  | freq entries => exact return_notMem_words (w := ['F']) (by decide) hwords
  | stat s => exact return_notMem_words (w := ['S']) (by decide) hwords

/-- The file has the same lines for Python. -/
theorem universalNewlines_text {t : Trace} (hclean : t.Clean) (h : TraceClean t) :
    universalNewlines t.text = t.text := by
  apply universalNewlines_of_notMem
  intro hmem
  rcases List.mem_flatMap.mp hmem with ⟨l, hl, hmem⟩
  rcases List.mem_append.mp hmem with hmem | hmem
  · revert hmem
    have hnumber : ∀ n : Int, '\r' ∉ toChars n := fun n => return_notMem_isWord (isWord_toChars n)
    rcases List.mem_append.mp hl with hl | hl
    · simp only [headerLines, List.mem_cons, List.not_mem_nil, or_false] at hl
      rcases hl with rfl | rfl | rfl | rfl
      · exact List.mem_append.not.mpr (not_or.mpr ⟨by decide, hnumber t.tick⟩)
      · apply return_notMem_words (by decide)
        intro w hw
        rcases List.mem_map.mp hw with ⟨cpu, -, rfl⟩
        exact hnumber cpu
      · exact return_notMem_words (by decide) h.watch
      · decide
    · rcases List.mem_flatMap.mp hl with ⟨s, hs, hl⟩
      rcases List.mem_cons.mp hl with rfl | hl
      · have hline : timeLine s.now = ['T', ' '] ++ toChars (s.now : Int) := rfl
        rw [hline]
        exact List.mem_append.not.mpr (not_or.mpr ⟨by decide, hnumber _⟩)
      · rcases List.mem_map.mp hl with ⟨row, hrow, rfl⟩
        exact return_notMem_line ((hclean.samples s hs).body row hrow) (h.rows s hs row hrow)
  · exact absurd (List.mem_singleton.mp hmem) (by decide)

/-- Every sample of a file is consumed. -/
theorem processTrace_text {t : Trace} (hclean : t.Clean) (h : TraceClean t)
    (hne : t.samples ≠ []) (start stop : ℚ) (cpuNrs : List Int) :
    ∃ watch, processTrace start stop cpuNrs t.text =
      (t.samples.map record).foldlM (consume start stop (header t watch))
        { cpuNrs := cpuNrs } := by
  rcases run_header start stop { cpuNrs := cpuNrs } hclean.nodup with ⟨watch, -, hheader⟩
  refine ⟨watch, ?_⟩
  have hrun : processTrace start stop cpuNrs t.text =
      ((run (processRow start stop) ({}, { cpuNrs := cpuNrs })
        (headerLines t.tick t.cpus t.watch)).bind fun r =>
          run (processRow start stop) r (t.samples.flatMap TraceSample.lines)).bind fun r =>
            consume start stop r.1.properties r.2 r.1.state := by
    rw [← run_append, processTrace, universalNewlines_text hclean h, pieces_text hclean]
    rfl
  rw [hrun, hheader, Option.bind_some]
  cases hsamples : t.samples with
  | nil => exact absurd hsamples hne
  | cons s samples =>
    have hmem : ∀ r ∈ s :: samples, r ∈ t.samples := fun r hr => hsamples ▸ hr
    have hbody := @run_body start stop
      { properties := header t watch, state := { time := some ((s.now : ℚ) / 1000000) } }
      { cpuNrs := cpuNrs } rfl s.body (hclean.samples s (hmem s List.mem_cons_self)).body
      (h.rows s (hmem s List.mem_cons_self))
    have hrest := @run_samples start stop { properties := header t watch, state := record s }
      { cpuNrs := cpuNrs } rfl (record_ne s) samples
      (fun r hr => hclean.samples r (hmem r (List.mem_cons_of_mem _ hr)))
      fun r hr => h.rows r (hmem r (List.mem_cons_of_mem _ hr))
    rw [List.flatMap_cons, run_append, TraceSample.lines, run_cons, processRow_time, if_pos rfl,
      Option.map_some, Option.bind_some, hbody, Option.bind_some]
    exact hrest

end LibCollector.Ferret.Python
