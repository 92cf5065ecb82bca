import LibCollector.Misc.Run
import LibCollector.Ferret.Trace

/-!
# What the C++ reader makes of a trace file

`Postprocess.readRows` on the text of a `Trace`: row by row, sample by sample
(`readRow_body`, `run_sample`), and the whole file (`readRows_text`). Each of these
is an equation, so it also says when the reader fails.
-/

namespace LibCollector.Ferret

open LibCollector.Misc

/-! ## The words of a row -/

/-- A row of words is split into its words. -/
theorem tokens_of_words {mark : Char} (hmark : mark ≠ ' ' ∧ mark ≠ '\x00') {ws : List Str}
    (hws : ∀ w ∈ ws, w ≠ [] ∧ ' ' ∉ w ∧ '\x00' ∉ w) :
    pieces ' ' (cstr (mark :: ws.flatMap (' ' :: ·))) = [mark] :: ws := by
  have hnul : '\x00' ∉ mark :: ws.flatMap (' ' :: ·) := by
    simp only [List.mem_cons, List.mem_flatMap, not_or, not_exists, not_and]
    refine ⟨Ne.symm hmark.2, fun w hw => ⟨by decide, (hws w hw).2.2⟩⟩
  rw [cstr_of_notMem hnul]
  refine pieces_separated [mark] ws ?_ (fun w hw => (hws w hw).2.1) ?_
  · simpa using Ne.symm hmark.1
  · intro q hq
    rcases List.mem_cons.mp (List.mem_of_getLast? hq) with rfl | hq
    · exact List.cons_ne_nil _ _
    · exact (hws q hq).1

theorem word_toChars (n : Int) : toChars n ≠ [] ∧ ' ' ∉ toChars n ∧ '\x00' ∉ toChars n :=
  ⟨toChars_ne_nil n, notMem_toChars (by decide) (by decide) n,
    notMem_toChars (by decide) (by decide) n⟩

theorem notMem_parens {c : Char} (hopen : c ≠ '(') (hclose : c ≠ ')') {comm : Str}
    (h : c ∉ comm) : c ∉ StatValue.word (.text comm) := by
  simp only [StatValue.word, List.mem_append, List.mem_cons, List.not_mem_nil, or_false]
  rintro ((hc | hc) | hc)
  · exact hopen hc
  · exact h hc
  · exact hclose hc

theorem words_clean {row : BodyRow} (h : row.Clean) :
    ∀ w ∈ row.words, w ≠ [] ∧ ' ' ∉ w ∧ '\x00' ∉ w := by
  intro w hw
  cases row with
  | skip mark text => cases hw
  | freq entries =>
    obtain ⟨e, -, hw⟩ := List.mem_flatMap.mp hw
    simp only [List.mem_cons, List.not_mem_nil, or_false] at hw
    rcases hw with rfl | rfl <;> exact word_toChars _
  | stat s =>
    obtain ⟨f, hf, rfl⟩ := List.mem_map.mp hw
    cases hv : f.2 with
    | int n => exact word_toChars n
    | text comm =>
      have hcomm : comm = s.comm := by
        simp only [StatFields.fields, List.mem_cons, List.not_mem_nil, or_false] at hf
        rcases hf with rfl | rfl | rfl | rfl | rfl | rfl | rfl | rfl | rfl | rfl <;> cases hv
        rfl
      subst hcomm
      exact ⟨by simp [StatValue.word],
        notMem_parens (by decide) (by decide) fun hc => (h _ hc).1 rfl,
        notMem_parens (by decide) (by decide) fun hc => (h _ hc).2.2 rfl⟩

/-! ## The handlers -/

/-- One step of `readStatus` over a field that can be converted. -/
def statusStep (acc : Str × OrdMap Str StatValue) (f : Str × StatValue) :
    Str × OrdMap Str StatValue :=
  (if f.1 = "pid".toList then f.2.word else acc.1, acc.2.insert f.1 f.2)

/-- Only `comm` is a text. -/
def Labelled (f : Str × StatValue) : Prop :=
  match f.2 with
  | .int _ => f.1 ≠ "comm".toList
  | .text _ => f.1 = "comm".toList

theorem readStatus_words {fields : List (Str × StatValue)} (h : ∀ f ∈ fields, Labelled f)
    (acc : Str × OrdMap Str StatValue) :
    readStatus (fields.map Prod.fst) (fields.map fun f => f.2.word) acc =
      if ∀ f ∈ fields, f.2.Fits then some (fields.foldl statusStep acc) else none := by
  induction fields generalizing acc with
  | nil => simp [readStatus]
  | cons f fields ih =>
    have ih' := ih (fun g hg => h g (List.mem_cons_of_mem _ hg))
    have hf := h f List.mem_cons_self
    obtain ⟨label, value⟩ := f
    obtain ⟨pid, dict⟩ := acc
    cases value with
    | int n =>
      have hlabel : label ≠ "comm".toList := hf
      have hstoi : stoi (StatValue.word (.int n)) = if IsInt32 n then some n else none :=
        stoi_toChars n
      simp only [List.map_cons, readStatus, List.headD_cons, List.tail_cons, if_neg hlabel, hstoi]
      by_cases hn : IsInt32 n
      · simp only [hn, if_true, Option.bind_some, ih', List.forall_mem_cons, StatValue.fits_int,
          true_and, List.foldl_cons, statusStep]
        congr
      · simp only [hn, if_false, Option.bind_none, List.forall_mem_cons, StatValue.fits_int,
          false_and]
    | text comm =>
      have hlabel : label = "comm".toList := hf
      subst hlabel
      have hlen : ¬(StatValue.word (.text comm)).length < 2 := by simp [StatValue.word]
      have hstrip : (StatValue.word (.text comm)).tail.dropLast = comm := by
        simp [StatValue.word]
      have hpid : ("comm".toList : Str) ≠ "pid".toList := by decide
      simp only [List.map_cons, readStatus, List.headD_cons, List.tail_cons, if_true, if_neg hlen,
        hstrip]
      simp only [ih', List.forall_mem_cons, StatValue.fits_text, true_and, List.foldl_cons,
        statusStep, if_neg hpid]

theorem labelled_fields (s : StatFields) : ∀ f ∈ s.fields, Labelled f := by
  intro f hf
  simp only [StatFields.fields, List.mem_cons, List.not_mem_nil, or_false] at hf
  rcases hf with rfl | rfl | rfl | rfl | rfl | rfl | rfl | rfl | rfl | rfl <;>
    simp only [Labelled] <;> decide

/-- `ferret_process_status` on the words of a `S` row. -/
theorem ferretProcessStatus_words (s : StatFields) (state : Sample) :
    ferretProcessStatus (pidStatSpec.map Prod.fst) (['S'] :: (BodyRow.stat s).words) state =
      if (BodyRow.stat s).Fits then some ((BodyRow.stat s).apply state) else none := by
  have hlabels : pidStatSpec.map Prod.fst = s.fields.map Prod.fst := rfl
  have hfold : s.fields.foldl statusStep ([], ∅) = (toChars s.pid, s.dict) := by
    have hdict : ∀ (fs : List (Str × StatValue)) (acc : Str × OrdMap Str StatValue),
        (fs.foldl statusStep acc).2 = fs.foldl (fun m f => m.insert f.1 f.2) acc.2 := by
      intro fs
      induction fs with
      | nil => exact fun _ => rfl
      | cons f fs ih =>
        intro acc
        rw [List.foldl_cons, ih]
        rfl
    exact Prod.ext rfl (hdict s.fields ([], ∅))
  rw [ferretProcessStatus, hlabels, List.tail_cons, BodyRow.words,
    readStatus_words (labelled_fields s), hfold]
  by_cases hfits : ∀ f ∈ s.fields, f.2.Fits
  · have hfits' : (BodyRow.stat s).Fits := hfits
    rw [if_pos hfits, if_pos hfits']
    rfl
  · have hfits' : ¬(BodyRow.stat s).Fits := hfits
    rw [if_neg hfits, if_neg hfits']
    rfl

/-- `ferret_process_cpu` on the words of an `F` row. -/
theorem ferretProcessCpu_words (entries : List (Int × Int)) (state : Sample) :
    ferretProcessCpu (['F'] :: (BodyRow.freq entries).words) state =
      if (BodyRow.freq entries).Fits then some ((BodyRow.freq entries).apply state) else none := by
  have hread : ∀ m : OrdMap Str ℚ, readCpu (entries.flatMap fun e => [toChars e.1, toChars e.2]) m =
      if ∀ e ∈ entries, IsInt32 e.2 then
        some (entries.foldl (fun m e => m.insert (toChars e.1) ((e.2 : ℚ) / 1000)) m)
      else none := by
    induction entries with
    | nil => intro m; simp [readCpu]
    | cons e entries ih =>
      intro m
      simp only [List.flatMap_cons, List.cons_append, List.nil_append, readCpu, stoi_toChars,
        toInt32]
      by_cases he : IsInt32 e.2
      · simp only [he, if_true, Option.bind_some, ih, List.forall_mem_cons, true_and,
          List.foldl_cons]
      · simp only [he, if_false, Option.bind_none, List.forall_mem_cons, false_and]
  rw [ferretProcessCpu, List.tail_cons, BodyRow.words, hread]
  by_cases hfits : ∀ e ∈ entries, IsInt32 e.2
  · have hfits' : (BodyRow.freq entries).Fits := hfits
    rw [if_pos hfits, if_pos hfits']
    rfl
  · have hfits' : ¬(BodyRow.freq entries).Fits := hfits
    rw [if_neg hfits, if_neg hfits']
    rfl

namespace Postprocess

/-! ## One row -/

/-- A row between two `T` rows. -/
theorem readRow_body {banned : List Str} {st : Postprocess}
    (hlabels : st.traceProperties.statFields = pidStatSpec.map Prod.fst) {row : BodyRow}
    (hclean : row.Clean) :
    readRow banned st row.line =
      if row.Fits then some { st with hasData := true, state := row.apply st.state } else none := by
  cases row with
  | skip mark text =>
    obtain ⟨hmark, -⟩ := hclean
    have hchar : mark ≠ ' ' ∧ mark ≠ '\x00' ∧ mark ≠ 'T' ∧ mark ≠ 'I' ∧ mark ≠ 'S' ∧
        mark ≠ 'F' := by
      rcases hmark with rfl | rfl <;> decide
    have hskip : mark = '#' ∨ mark = 'E' := hmark.symm
    obtain ⟨hspace, hnul, hT, hI, hS, hF⟩ := hchar
    have hfits : (BodyRow.skip mark text).Fits := trivial
    rw [BodyRow.line, readRow, cstr_cons hnul, head?_pieces hspace, if_pos hfits]
    simp only [Option.bind_some, hT, if_false, handle, hI, hS, hF, hskip, if_true]
    rfl
  | freq entries =>
    have htokens : pieces ' ' (cstr (BodyRow.freq entries).line) =
        ['F'] :: (BodyRow.freq entries).words := tokens_of_words (by decide) (words_clean hclean)
    have hF : ('F' : Char) ≠ 'T' ∧ ('F' : Char) ≠ 'I' ∧ ('F' : Char) ≠ 'S' := by decide
    rw [readRow, htokens]
    simp only [List.head?_cons, Option.bind_some, hF, if_false, handle, if_true,
      ferretProcessCpu_words]
    split <;> rfl
  | stat s =>
    have htokens : pieces ' ' (cstr (BodyRow.stat s).line) =
        ['S'] :: (BodyRow.stat s).words := tokens_of_words (by decide) (words_clean hclean)
    have hS : ('S' : Char) ≠ 'T' ∧ ('S' : Char) ≠ 'I' := by decide
    rw [readRow, htokens]
    simp only [List.head?_cons, Option.bind_some, hS, if_false, handle, if_true, hlabels,
      ferretProcessStatus_words]
    split <;> rfl

/-- A `T` row delivers the state and begins a new one. -/
theorem readRow_time {banned : List Str} {st : Postprocess} {now : Nat}
    (hnow : now < 9223372036854775808) :
    readRow banned st (timeLine now) = (deliver banned { st with hasData := true }).map fun st =>
      { st with state := { time := some ((now : ℚ) / 1000000) } } := by
  have hline : timeLine now = 'T' :: [toChars now].flatMap (' ' :: ·) := by simp [timeLine]
  have htokens : pieces ' ' (cstr (timeLine now)) = [['T'], toChars now] := by
    rw [hline]
    refine tokens_of_words (by decide) fun w hw => ?_
    rw [List.mem_singleton.mp hw]
    exact word_toChars now
  have hstol : stol (toChars now) = some now := stol_toChars (by omega)
  have hT : ('T' : Char) ≠ 'I' := by decide
  rw [readRow, htokens]
  simp only [List.head?_cons, Option.bind_some, if_true]
  cases deliver banned { st with hasData := true } with
  | none => rfl
  | some st =>
    simp only [Option.bind_some, handle, hT, if_false, if_true, ferretProcessTime,
      List.getElem?_cons_succ, List.getElem?_cons_zero, hstol, Option.map_some]

/-- The rows between two `T` rows. -/
theorem run_body {banned : List Str} {st : Postprocess}
    (hlabels : st.traceProperties.statFields = pidStatSpec.map Prod.fst)
    (hdata : st.hasData = true) {body : List BodyRow} (hclean : ∀ row ∈ body, row.Clean) :
    run (readRow banned) st (body.map BodyRow.line) =
      if ∀ row ∈ body, row.Fits then some { st with state := body.foldl BodyRow.apply st.state }
      else none := by
  induction body generalizing st with
  | nil => simp
  | cons row body ih =>
    rw [List.map_cons, run_cons, readRow_body hlabels (hclean row List.mem_cons_self)]
    by_cases hfits : row.Fits
    · have hnext : ({ st with hasData := true, state := row.apply st.state } : Postprocess) =
          { st with state := row.apply st.state } := by rw [← hdata]
      rw [if_pos hfits, Option.bind_some, hnext, @ih { st with state := row.apply st.state }
        hlabels hdata fun r hr => hclean r (List.mem_cons_of_mem _ hr)]
      simp only [List.forall_mem_cons, hfits, true_and, List.foldl_cons]
    · rw [if_neg hfits, Option.bind_none, if_neg]
      exact fun hall => hfits (hall row List.mem_cons_self)

/-! ## A sample -/

end Postprocess

/-- What a delivered sample does to the account of a thread that is banned or ran on a CPU of the
    list. -/
def account (banned : List Str) (sample : Sample) (tick : Int) (cpuNrs : List Int)
    (history : OrdMap Str FerretProcess) (e : Str × OrdMap Str StatValue) :
    OrdMap Str FerretProcess :=
  if StatValue.asString (e.2.find? "comm".toList) ∈ banned then history
  else history.insert e.1
    (((history.find? e.1).getD (FerretProcess.new tick cpuNrs)).add
      (StatValue.asString (e.2.find? "comm".toList)) (sample.time.getD 0)
      (int32 (StatValue.asInt (e.2.find? "utime".toList) +
        StatValue.asInt (e.2.find? "stime".toList)))
      (((sample.cpu.getD ∅).find?
        (toChars (StatValue.asInt (e.2.find? "processor".toList)))).getD 0)
      (StatValue.asInt (e.2.find? "processor".toList)))

theorem addThread_eq (banned : List Str) (sample : Sample) (tick : Int) (cpuNrs : List Int)
    (history : OrdMap Str FerretProcess) (e : Str × OrdMap Str StatValue) :
    addThread banned sample tick cpuNrs history e =
      if StatValue.asString (e.2.find? "comm".toList) ∈ banned ∨
          StatValue.asInt (e.2.find? "processor".toList) ∈ cpuNrs then
        some (account banned sample tick cpuNrs history e)
      else none := by
  unfold addThread account
  by_cases hbanned : StatValue.asString (e.2.find? "comm".toList) ∈ banned
  · simp only [hbanned, if_true, true_or]
  · by_cases hcpu : StatValue.asInt (e.2.find? "processor".toList) ∈ cpuNrs
    · simp only [hbanned, hcpu, if_false, not_true_eq_false, or_true, if_true]
    · simp only [hbanned, hcpu, if_false, not_false_eq_true, or_false, if_true]

/-- The CPU numbers of the trace, in order. -/
def Trace.cpuList (t : Trace) : List Int := t.cpus.mergeSort (· ≤ ·)

/-- The reader once it has read the header of the trace. -/
structure Trace.Ready (t : Trace) (st : Postprocess) : Prop where
  tick : st.traceProperties.tick = some t.tick
  cpus : st.traceProperties.cpus = some t.cpuList
  labels : st.traceProperties.statFields = pidStatSpec.map Prod.fst
  hasData : st.hasData = true
  init : (st.initData = false ∧ st.cpuNrs = []) ∨
    (st.initData = true ∧ st.tick = t.tick ∧ st.cpuNrs = t.cpuList)

/-- The reader after a `T` row has delivered its state. -/
def Trace.deliver (t : Trace) (banned : List Str) (st : Postprocess) : Postprocess :=
  if st.state = {} then st
  else
    { st with
      tick := t.tick
      cpuNrs := t.cpuList
      initData := true
      traceStart := if st.started then st.traceStart else st.state.time.getD 0
      started := true
      traceEnd := st.state.time.getD 0
      pidHistory := (st.state.pid.getD ∅).entries.foldl
        (account banned st.state t.tick t.cpuList) st.pidHistory
      delivered := st.delivered ++ [st.state] }

/-- The reader after the rows of a sample. -/
def Trace.next (t : Trace) (banned : List Str) (st : Postprocess) (s : TraceSample) :
    Postprocess :=
  { t.deliver banned st with state := s.state }

namespace Postprocess

theorem deliver_eq {t : Trace} {st : Postprocess} (h : t.Ready st) (banned : List Str) :
    deliver banned st =
      if Placed banned t.cpus st.state then some (t.deliver banned st) else none := by
  by_cases hstate : st.state = {}
  · have hplaced : Placed banned t.cpus st.state := by
      intro e he
      rw [hstate] at he
      cases he
    rw [deliver, if_pos hstate, if_pos hplaced, Trace.deliver, if_pos hstate]
  · have hplaced : (∀ e ∈ (st.state.pid.getD ∅).entries,
        StatValue.asString (e.2.find? "comm".toList) ∈ banned ∨
          StatValue.asInt (e.2.find? "processor".toList) ∈ t.cpuList) ↔
        Placed banned t.cpus st.state := by
      simp only [Placed, Trace.cpuList, List.mem_mergeSort]
    have hthreads : (st.state.pid.getD ∅).entries.foldlM
          (addThread banned st.state t.tick t.cpuList) st.pidHistory =
        if Placed banned t.cpus st.state then
          some ((st.state.pid.getD ∅).entries.foldl (account banned st.state t.tick t.cpuList)
            st.pidHistory)
        else none :=
      (run_of_guard (addThread_eq banned st.state t.tick t.cpuList) st.pidHistory _).trans
        (if_congr hplaced rfl rfl)
    rw [deliver, if_neg hstate, Trace.deliver, if_neg hstate]
    rcases h.init with ⟨hinit, hnil⟩ | ⟨hinit, htick, hcpus⟩
    · simp only [hinit, Bool.false_eq_true, if_false, h.cpus, Option.map_some, Option.bind_some,
        hnil, List.nil_append, h.tick, Option.getD_some]
      rw [hthreads]
      split_ifs <;> rfl
    · simp only [hinit, if_true, Option.bind_some, htick, hcpus]
      rw [hthreads]
      split_ifs <;> rfl

theorem ready_deliver {t : Trace} {st : Postprocess} (h : t.Ready st) (banned : List Str) :
    t.Ready (t.deliver banned st) := by
  unfold Trace.deliver
  split
  · exact h
  · exact ⟨h.tick, h.cpus, h.labels, h.hasData, Or.inr ⟨rfl, rfl, rfl⟩⟩

theorem ready_next {t : Trace} {st : Postprocess} (h : t.Ready st) (banned : List Str)
    (s : TraceSample) : t.Ready (t.next banned st s) := by
  obtain ⟨htick, hcpus, hlabels, hdata, hinit⟩ := ready_deliver h banned
  exact ⟨htick, hcpus, hlabels, hdata, hinit⟩

/-- The rows of a sample, from its `T` row to the next. -/
theorem run_sample {t : Trace} {st : Postprocess} (h : t.Ready st) (banned : List Str)
    {s : TraceSample} (hclean : s.Clean) :
    run (readRow banned) st s.lines =
      if Placed banned t.cpus st.state ∧ ∀ row ∈ s.body, row.Fits then
        some (t.next banned st s)
      else none := by
  have hdata : ({ st with hasData := true } : Postprocess) = st := by rw [← h.hasData]
  rw [TraceSample.lines, run_cons, readRow_time hclean.now, hdata, deliver_eq h]
  by_cases hplaced : Placed banned t.cpus st.state
  · have h' := ready_deliver h banned
    rw [if_pos hplaced, Option.map_some, Option.bind_some,
      @run_body banned { t.deliver banned st with
        state := { time := some ((s.now : ℚ) / 1000000) } } h'.labels h'.hasData s.body
        hclean.body]
    simp only [hplaced, true_and]
    rfl
  · rw [if_neg hplaced, if_neg fun hall => hplaced hall.1]
    rfl

/-- The samples of a trace: the reader fails at an integer that does not fit, and at the `T` row
    after a sample with a thread on an unknown CPU. -/
theorem run_samples {t : Trace} {st : Postprocess} (h : t.Ready st) (banned : List Str)
    {samples : List TraceSample} (hclean : ∀ s ∈ samples, s.Clean) :
    run (readRow banned) st (samples.flatMap TraceSample.lines) =
      if (∀ s ∈ samples, ∀ row ∈ s.body, row.Fits) ∧
          ∀ state ∈ (st.state :: samples.map TraceSample.state).dropLast,
            Placed banned t.cpus state then
        some (samples.foldl (t.next banned) st)
      else none := by
  induction samples generalizing st with
  | nil => simp
  | cons s samples ih =>
    rw [List.flatMap_cons, run_append, run_sample h banned (hclean s List.mem_cons_self)]
    have hdrop : (st.state :: (s :: samples).map TraceSample.state).dropLast =
        st.state :: (s.state :: samples.map TraceSample.state).dropLast := rfl
    rw [hdrop]
    by_cases hs : Placed banned t.cpus st.state ∧ ∀ row ∈ s.body, row.Fits
    · have hstate : (t.next banned st s).state = s.state := rfl
      rw [if_pos hs, Option.bind_some,
        ih (ready_next h banned s) fun r hr => hclean r (List.mem_cons_of_mem _ hr), hstate]
      by_cases hrest : (∀ s ∈ samples, ∀ row ∈ s.body, row.Fits) ∧
          ∀ state ∈ (s.state :: samples.map TraceSample.state).dropLast,
            Placed banned t.cpus state
      · rw [if_pos hrest, if_pos ⟨List.forall_mem_cons.mpr ⟨hs.2, hrest.1⟩,
          List.forall_mem_cons.mpr ⟨hs.1, hrest.2⟩⟩, List.foldl_cons]
      · rw [if_neg hrest, if_neg]
        rintro ⟨hfits, hplaced⟩
        exact hrest ⟨(List.forall_mem_cons.mp hfits).2, (List.forall_mem_cons.mp hplaced).2⟩
    · rw [if_neg hs, Option.bind_none, if_neg]
      rintro ⟨hfits, hplaced⟩
      exact hs ⟨hplaced _ List.mem_cons_self, hfits s List.mem_cons_self⟩

/-! ## The header -/

/-- `_stoi` of each of a list of written integers. -/
theorem mapM_stoi {ns : List Int} (h : ∀ n ∈ ns, IsInt32 n) :
    (ns.map toChars).mapM stoi = some ns := by
  induction ns with
  | nil => rfl
  | cons n ns ih =>
    have hn : stoi (toChars n) = some n := by
      rw [stoi_toChars, toInt32, if_pos (h n List.mem_cons_self)]
    rw [List.map_cons, List.mapM_cons, hn, ih fun m hm => h m (List.mem_cons_of_mem _ hm)]
    rfl

/-- An `I` row whose words are clean. -/
theorem readRow_info {banned : List Str} {st : Postprocess} {ws : List Str}
    (hws : ∀ w ∈ ws, w ≠ [] ∧ ' ' ∉ w ∧ '\x00' ∉ w) :
    readRow banned st ('I' :: ws.flatMap (' ' :: ·)) =
      (ferretProcessInfo (['I'] :: ws) st.traceProperties).map fun props =>
        { st with hasData := true, traceProperties := props } := by
  have hI : ('I' : Char) ≠ 'T' := by decide
  rw [readRow, tokens_of_words (by decide) hws]
  simp only [List.head?_cons, Option.bind_some, hI, if_false, handle, if_true]

/-- The `WatchList` row, whatever the names contain. -/
theorem readRow_watch {banned : List Str} (st : Postprocess) (watch : List Str) :
    ∃ watch', readRow banned st ("I WatchList".toList ++ watch.flatMap (' ' :: ·)) =
      some { st with
        hasData := true
        traceProperties := { st.traceProperties with watch := watch' } } := by
  have hI : ('I' : Char) ≠ 'T' := by decide
  have htokens : ∃ watch', pieces ' ' (cstr ("I WatchList".toList ++ watch.flatMap (' ' :: ·))) =
      ['I'] :: "WatchList".toList :: watch' := by
    have hcstr : cstr ("I WatchList".toList ++ watch.flatMap (' ' :: ·)) =
        ['I'] ++ ' ' :: ("WatchList".toList ++ cstr (watch.flatMap (' ' :: ·))) := by
      simp [cstr]
    rw [hcstr, pieces_append_delim (by decide)]
    cases watch with
    | nil =>
      refine ⟨[], ?_⟩
      rw [List.flatMap_nil, show cstr [] = [] from rfl, List.append_nil,
        pieces_of_notMem (by decide) (by decide)]
    | cons w watch =>
      rw [List.flatMap_cons, List.cons_append, cstr_cons (by decide),
        pieces_append_delim (by decide)]
      exact ⟨_, rfl⟩
  obtain ⟨watch', htokens⟩ := htokens
  refine ⟨watch', ?_⟩
  have htype : infoTypeMap "WatchList".toList = 2 := by decide
  rw [readRow, htokens]
  simp only [List.head?_cons, Option.bind_some, hI, if_false, handle, if_true, ferretProcessInfo,
    List.getElem?_cons_succ, List.getElem?_cons_zero, htype, Option.map_some, List.drop_succ_cons,
    List.drop_zero]

end Postprocess

/-- The reader after the header of a trace. -/
def headerState (tick : Int) (cpus : List Int) (watch : List Str) : Postprocess :=
  { Postprocess.init with
    hasData := true
    traceProperties := {
      tick := some tick
      cpus := some (cpus.mergeSort (· ≤ ·))
      watch := watch
      statFields := pidStatSpec.map Prod.fst } }

namespace Postprocess

/-- The header of a trace with different CPUs. -/
theorem run_header {banned : List Str} {tick : Int} {cpus : List Int} (watch : List Str)
    (hint : ∀ cpu ∈ cpus, IsInt32 cpu) (hnodup : cpus.Nodup) :
    ∃ watch', run (readRow banned) init (headerLines tick cpus watch) =
      if IsInt32 tick then some (headerState tick cpus watch') else none := by
  have hfirst : "I _SC_CLK_TCK ".toList ++ toChars tick =
      'I' :: ["_SC_CLK_TCK".toList, toChars tick].flatMap (' ' :: ·) := by simp
  have hsecond : "I CPUList".toList ++ (cpus.map toChars).flatMap (' ' :: ·) =
      'I' :: ("CPUList".toList :: cpus.map toChars).flatMap (' ' :: ·) := by simp
  have hfourth : "I Status".toList ++ (pidStatSpec.map Prod.fst).flatMap (' ' :: ·) =
      'I' :: ("Status".toList :: pidStatSpec.map Prod.fst).flatMap (' ' :: ·) := by simp
  have hclean1 : ∀ w ∈ ["_SC_CLK_TCK".toList, toChars tick],
      w ≠ [] ∧ ' ' ∉ w ∧ '\x00' ∉ w := by
    intro w hw
    simp only [List.mem_cons, List.not_mem_nil, or_false] at hw
    rcases hw with rfl | rfl
    · decide
    · exact word_toChars tick
  have hclean2 : ∀ w ∈ "CPUList".toList :: cpus.map toChars,
      w ≠ [] ∧ ' ' ∉ w ∧ '\x00' ∉ w := by
    intro w hw
    rcases List.mem_cons.mp hw with rfl | hw
    · decide
    · obtain ⟨cpu, -, rfl⟩ := List.mem_map.mp hw
      exact word_toChars cpu
  have hclean4 : ∀ w ∈ "Status".toList :: pidStatSpec.map Prod.fst,
      w ≠ [] ∧ ' ' ∉ w ∧ '\x00' ∉ w := by decide
  have htype : infoTypeMap "_SC_CLK_TCK".toList = 0 ∧ infoTypeMap "CPUList".toList = 1 ∧
      infoTypeMap "Status".toList = 3 := by decide
  rw [headerLines, hfirst, hsecond, hfourth]
  by_cases htick : IsInt32 tick
  · obtain ⟨watch', hwatch⟩ := @readRow_watch banned
      { init with
        hasData := true
        traceProperties := { tick := some tick, cpus := some (cpus.mergeSort (· ≤ ·)) } } watch
    refine ⟨watch', ?_⟩
    have hrow1 : readRow banned init
        ('I' :: ["_SC_CLK_TCK".toList, toChars tick].flatMap (' ' :: ·)) =
        some { init with hasData := true, traceProperties := { tick := some tick } } := by
      rw [readRow_info hclean1]
      simp only [ferretProcessInfo, List.getElem?_cons_succ, List.getElem?_cons_zero,
        Option.bind_some, htype, stoi_toChars, toInt32, htick, if_true, Option.map_some]
      rfl
    have hrow2 : readRow banned
        { init with hasData := true, traceProperties := { tick := some tick } }
        ('I' :: ("CPUList".toList :: cpus.map toChars).flatMap (' ' :: ·)) =
        some { init with
          hasData := true
          traceProperties := { tick := some tick, cpus := some (cpus.mergeSort (· ≤ ·)) } } := by
      rw [readRow_info hclean2]
      simp only [ferretProcessInfo, List.getElem?_cons_succ, List.getElem?_cons_zero,
        Option.bind_some, htype, List.drop_succ_cons, List.drop_zero, mapM_stoi hint, hnodup,
        if_true, Option.map_some]
    rw [if_pos htick, run_cons, hrow1, Option.bind_some, run_cons, hrow2, Option.bind_some,
      run_cons, hwatch, Option.bind_some, run_cons, readRow_info hclean4]
    simp only [ferretProcessInfo, List.getElem?_cons_succ, List.getElem?_cons_zero,
      Option.bind_some, htype, List.drop_succ_cons, List.drop_zero, Option.map_some, run_nil]
    rfl
  · refine ⟨[], ?_⟩
    rw [if_neg htick, run_cons, readRow_info hclean1]
    simp only [ferretProcessInfo, List.getElem?_cons_succ, List.getElem?_cons_zero,
      Option.bind_some, htype, stoi_toChars, toInt32, htick, if_false, Option.map_none,
      Option.bind_none]

end Postprocess

/-! ## The whole file -/

/-- A trace that stands in a file row by row: the CPU numbers are different `int`s, no name of the
    watch list contains a newline, and the rows are clean. -/
structure Trace.Clean (t : Trace) : Prop where
  cpus : ∀ cpu ∈ t.cpus, IsInt32 cpu
  nodup : t.cpus.Nodup
  watch : ∀ name ∈ t.watch, '\n' ∉ name
  samples : ∀ s ∈ t.samples, s.Clean

theorem newline_notMem_words {ws : List Str} (h : ∀ w ∈ ws, '\n' ∉ w) :
    '\n' ∉ ws.flatMap (' ' :: ·) := by
  intro hmem
  obtain ⟨w, hw, hc⟩ := List.mem_flatMap.mp hmem
  rcases List.mem_cons.mp hc with hc | hc
  · exact absurd hc (by decide)
  · exact h w hw hc

theorem newline_notMem_toChars (n : Int) : '\n' ∉ toChars n :=
  notMem_toChars (by decide) (by decide) n

theorem newline_notMem_header {tick : Int} {cpus : List Int} {watch : List Str}
    (h : ∀ name ∈ watch, '\n' ∉ name) : ∀ l ∈ headerLines tick cpus watch, '\n' ∉ l := by
  intro l hl
  simp only [headerLines, List.mem_cons, List.not_mem_nil, or_false] at hl
  rcases hl with rfl | rfl | rfl | rfl
  · exact List.mem_append.not.mpr (not_or.mpr ⟨by decide, newline_notMem_toChars tick⟩)
  · refine List.mem_append.not.mpr (not_or.mpr ⟨by decide, newline_notMem_words ?_⟩)
    intro w hw
    obtain ⟨cpu, -, rfl⟩ := List.mem_map.mp hw
    exact newline_notMem_toChars cpu
  · exact List.mem_append.not.mpr (not_or.mpr ⟨by decide, newline_notMem_words h⟩)
  · decide

theorem newline_notMem_line {row : BodyRow} (h : row.Clean) : '\n' ∉ row.line := by
  cases row with
  | skip mark text =>
    refine List.mem_cons.not.mpr (not_or.mpr ⟨?_, h.2⟩)
    rcases h.1 with rfl | rfl <;> decide
  | freq entries =>
    refine List.mem_cons.not.mpr (not_or.mpr ⟨by decide, newline_notMem_words ?_⟩)
    intro w hw
    obtain ⟨e, -, hw⟩ := List.mem_flatMap.mp hw
    simp only [List.mem_cons, List.not_mem_nil, or_false] at hw
    rcases hw with rfl | rfl <;> exact newline_notMem_toChars _
  | stat s =>
    refine List.mem_cons.not.mpr (not_or.mpr ⟨by decide, newline_notMem_words ?_⟩)
    intro w hw
    obtain ⟨f, hf, rfl⟩ := List.mem_map.mp hw
    simp only [StatFields.fields, List.mem_cons, List.not_mem_nil, or_false] at hf
    rcases hf with rfl | rfl | rfl | rfl | rfl | rfl | rfl | rfl | rfl | rfl <;>
      first
        | exact newline_notMem_toChars _
        | exact notMem_parens (by decide) (by decide) fun hc => (h _ hc).2.1 rfl

theorem newline_notMem_sample {s : TraceSample} (h : s.Clean) : ∀ l ∈ s.lines, '\n' ∉ l := by
  intro l hl
  rcases List.mem_cons.mp hl with rfl | hl
  · refine List.mem_cons.not.mpr (not_or.mpr ⟨by decide, ?_⟩)
    exact List.mem_cons.not.mpr (not_or.mpr ⟨by decide, newline_notMem_toChars _⟩)
  · obtain ⟨row, hrow, rfl⟩ := List.mem_map.mp hl
    exact newline_notMem_line (h.body row hrow)

/-- The file is split into the rows it was made of. -/
theorem pieces_text {t : Trace} (h : t.Clean) : pieces '\n' t.text = t.lines := by
  have hlines : ∀ l ∈ t.lines, '\n' ∉ l := by
    intro l hl
    rcases List.mem_append.mp hl with hl | hl
    · exact newline_notMem_header h.watch l hl
    · obtain ⟨s, hs, hl⟩ := List.mem_flatMap.mp hl
      exact newline_notMem_sample (h.samples s hs) l hl
  have hsplit := pieces_flatMap t.lines hlines []
  simpa [Trace.text] using hsplit

theorem placed_empty (banned : List Str) (cpus : List Int) : Placed banned cpus {} := by
  intro e he
  cases he

theorem placed_dropLast_iff {banned : List Str} {cpus : List Int} {samples : List TraceSample} :
    (∀ state ∈ (({} : Sample) :: samples.map TraceSample.state).dropLast,
      Placed banned cpus state) ↔
    ∀ s ∈ samples.dropLast, Placed banned cpus s.state := by
  cases samples with
  | nil => simp
  | cons s samples =>
    have hdrop : (({} : Sample) :: (s :: samples).map TraceSample.state).dropLast =
        {} :: (s :: samples).dropLast.map TraceSample.state := by
      rw [List.map_cons, List.dropLast_cons_cons, ← List.map_cons, List.map_dropLast]
    rw [hdrop, List.forall_mem_cons, List.forall_mem_map]
    exact ⟨And.right, fun h => ⟨placed_empty banned cpus, h⟩⟩

/-- Reading a trace file: what the reader requires of the trace, and the reader it leaves. -/
theorem readRows_text {t : Trace} (h : t.Clean) (banned : List Str) :
    ∃ watch', Postprocess.readRows banned t.text =
      if IsInt32 t.tick ∧ (∀ s ∈ t.samples, ∀ row ∈ s.body, row.Fits) ∧
          ∀ s ∈ t.samples.dropLast, Placed banned t.cpus s.state then
        some (t.samples.foldl (t.next banned) (headerState t.tick t.cpus watch'))
      else none := by
  obtain ⟨watch', hheader⟩ := @Postprocess.run_header banned t.tick t.cpus t.watch h.cpus h.nodup
  refine ⟨watch', ?_⟩
  have hready : t.Ready (headerState t.tick t.cpus watch') :=
    ⟨rfl, rfl, rfl, rfl, Or.inl ⟨rfl, rfl⟩⟩
  have hrun : Postprocess.readRows banned t.text =
      (run (Postprocess.readRow banned) Postprocess.init
        (headerLines t.tick t.cpus t.watch)).bind fun st =>
        run (Postprocess.readRow banned) st (t.samples.flatMap TraceSample.lines) := by
    rw [← run_append, Postprocess.readRows, pieces_text h]
    rfl
  rw [hrun, hheader]
  by_cases htick : IsInt32 t.tick
  · rw [if_pos htick, Option.bind_some, Postprocess.run_samples hready banned h.samples]
    have hstate : (headerState t.tick t.cpus watch').state = {} := rfl
    simp only [hstate, placed_dropLast_iff, htick, true_and]
  · rw [if_neg htick, Option.bind_none, if_neg fun hall => htick hall.1]

/-- The states that the reader has rebuilt between `T` rows, with the one after the last of
    them. -/
def Postprocess.samples (st : Postprocess) : List Sample :=
  st.delivered ++ if st.state = {} then [] else [st.state]

theorem samples_foldl_next (t : Trace) (banned : List Str) (st : Postprocess)
    (samples : List TraceSample) :
    (samples.foldl (t.next banned) st).samples =
      st.samples ++ samples.map TraceSample.state := by
  induction samples generalizing st with
  | nil => simp
  | cons s samples ih =>
    have hnext : (t.next banned st s).samples = st.samples ++ [s.state] := by
      have hdelivered : (t.next banned st s).delivered = st.samples := by
        rw [Trace.next, Trace.deliver, Postprocess.samples]
        by_cases hstate : st.state = {}
        · rw [if_pos hstate, if_pos hstate, List.append_nil]
        · rw [if_neg hstate, if_neg hstate]
      have hstate : (t.next banned st s).state = s.state := rfl
      rw [Postprocess.samples, hdelivered, hstate, if_neg s.state_ne]
    rw [List.foldl_cons, ih, hnext, List.map_cons, List.append_assoc, List.singleton_append]

end LibCollector.Ferret
