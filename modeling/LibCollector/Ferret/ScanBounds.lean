import LibCollector.Ferret.ParseStat

/-!
# The accesses of `parse_stat` to its table

`pid_stat_spec[match_count]` is evaluated when a field of the line begins. By then every
wanted field before it has matched (`matchCount_run`), so the index is the count of wanted
fields that are smaller than the number of the field, and it leaves the table at the field
behind the last wanted one.
-/

namespace LibCollector.Ferret

open LibCollector.Misc ScanState

/-! ## The fields of a line -/

/-- The words that begin in a text, which may itself begin inside a word. -/
def countWords : Bool → Str → Nat
  | _, [] => 0
  | inside, c :: cs =>
    if c = ' ' then countWords false cs
    else (if inside then 0 else 1) + countWords true cs

/-- What is left of a line behind the word that it begins in. -/
def afterWord (s : Str) : Str := s.dropWhile (· ≠ ' ')

/-- The fields of a line: its words, but the second one goes on to the first parenthesis that
    closes it. -/
def countFields (line : Str) : Nat :=
  match line.dropWhile (· = ' ') with
  | [] => 0
  | _ :: pid =>
    match (afterWord pid).dropWhile (· = ' ') with
    | [] => 1
    | _ :: comm => 2 + countWords false (afterWord (comm.dropWhile (· ≠ ')')))

/-- The line that a buffer begins with. -/
def firstLine (buf : Str) : Str := buf.takeWhile fun c => c ≠ '\x00' ∧ c ≠ '\n'

namespace ScanState

/-- The indices at which the scan loop evaluates `pid_stat_spec[match_count]`. -/
def lookups : ScanState → Str → List Nat
  | _, [] => []
  | st, c :: cs =>
    if st.matchCount ≤ pidStatSpec.length ∧ c ≠ '\x00' ∧ c ≠ '\n' then
      (if c ≠ ' ' ∧ st.inField = false then [st.matchCount] else []) ++ lookups (st.step c) cs
    else []

end ScanState

/-- `parse_stat` of a buffer stays in its table, and collects at most as many fields as the table
    has. -/
def TableInBounds (buf : Str) : Prop :=
  (∀ index ∈ lookups init buf, index < pidStatSpec.length) ∧
    (scan init buf).1.fields.length ≤ pidStatSpec.length

/-! ## The fields that have begun -/

section count

variable {st : ScanState}

/-- Behind `comm`, each word is a field. -/
theorem fieldCount_words (hcurr : st.currField ≠ fieldComm) (hcount : 2 ≤ st.fieldCount)
    (t : Str) :
    (t.foldl ScanState.step st).fieldCount = st.fieldCount + countWords st.inField t := by
  induction t generalizing st with
  | nil => rfl
  | cons c t ih =>
    rw [List.foldl_cons, countWords]
    by_cases hc : c = ' '
    · rw [if_pos hc, hc, step_space hcurr]
      exact ih hcurr hcount
    · rw [if_neg hc]
      cases hin : st.inField with
      | true =>
        rw [step_inside hin hc, if_neg fun hclose => hcurr hclose.1]
        have hrest := @ih { st with buf := st.buf ++ [c] } hcurr hcount
        rw [hrest]
        simp [hin]
      | false =>
        have hone : st.fieldCount ≠ 1 := by omega
        rw [step_opens hin hc, if_neg hone]
        have hrest := @ih (insideField st [c] st.currField) hcurr (Nat.le_succ_of_le hcount)
        rw [hrest]
        simp [insideField, Nat.add_assoc]

theorem countWords_true (t : Str) : countWords true t = countWords false (afterWord t) := by
  induction t with
  | nil => rfl
  | cons c t ih =>
    by_cases hc : c = ' '
    · simp [countWords, afterWord, hc]
    · rw [countWords, if_neg hc, if_pos rfl, Nat.zero_add, ih, afterWord, afterWord,
        List.dropWhile_cons_of_pos (by simpa using hc)]

/-- In `comm`, up to its parenthesis. -/
theorem fieldCount_comm (hin : st.inField = true) (hcurr : st.currField = fieldComm)
    (hcount : st.fieldCount = 2) (t : Str) : (t.foldl ScanState.step st).fieldCount =
      2 + countWords false (afterWord (t.dropWhile (· ≠ ')'))) := by
  induction t generalizing st with
  | nil => exact hcount
  | cons c t ih =>
    rw [List.foldl_cons]
    by_cases hc : c = ' '
    · rw [hc, step_underscore hcurr, List.dropWhile_cons_of_pos (by decide)]
      exact ih hin hcurr hcount
    · rw [step_inside hin hc]
      by_cases hclose : c = ')'
      · rw [if_pos ⟨hcurr, hclose⟩, List.dropWhile_cons_of_neg (by simp [hclose]),
          fieldCount_words]
        · simp [hcount, hin, countWords_true, afterWord, hc]
        · simp [hcount, fieldComm]
        · simp [hcount]
      · rw [if_neg fun hboth => hclose hboth.2, List.dropWhile_cons_of_pos (by simpa using hclose)]
        exact ih hin hcurr hcount

/-- Between the first field and `comm`. -/
theorem fieldCount_second (hin : st.inField = false) (hcurr : st.currField = 0)
    (hcount : st.fieldCount = 1) (t : Str) : (t.foldl ScanState.step st).fieldCount =
      match t.dropWhile (· = ' ') with
      | [] => 1
      | _ :: comm => 2 + countWords false (afterWord (comm.dropWhile (· ≠ ')'))) := by
  have hne : st.currField ≠ fieldComm := by simp [hcurr, fieldComm]
  induction t generalizing st with
  | nil => exact hcount
  | cons c t ih =>
    rw [List.foldl_cons]
    by_cases hc : c = ' '
    · rw [hc, step_space hne, List.dropWhile_cons_of_pos (by decide)]
      exact ih rfl hcurr hcount hne
    · rw [List.dropWhile_cons_of_neg (by simpa using hc), step_opens hin hc, if_pos hcount]
      apply fieldCount_comm rfl rfl
      simp [insideField, hcount]

/-- In the first field. -/
theorem fieldCount_first (hin : st.inField = true) (hcurr : st.currField = 0)
    (hcount : st.fieldCount = 1) (t : Str) : (t.foldl ScanState.step st).fieldCount =
      match (afterWord t).dropWhile (· = ' ') with
      | [] => 1
      | _ :: comm => 2 + countWords false (afterWord (comm.dropWhile (· ≠ ')'))) := by
  have hne : st.currField ≠ fieldComm := by simp [hcurr, fieldComm]
  induction t generalizing st with
  | nil => exact hcount
  | cons c t ih =>
    rw [List.foldl_cons, afterWord]
    by_cases hc : c = ' '
    · rw [List.dropWhile_cons_of_neg (by simp [hc]), hc, step_space hne,
        List.dropWhile_cons_of_pos (by decide)]
      exact @fieldCount_second { st with buf := st.buf ++ ['\x00'], inField := false } rfl hcurr
        hcount t
    · rw [List.dropWhile_cons_of_pos (by simpa using hc), step_inside hin hc,
        if_neg fun hboth => hne hboth.1]
      exact ih hin hcurr hcount hne

/-- The scan counts the fields of the line. -/
theorem fieldCount_init (line : Str) :
    (line.foldl ScanState.step init).fieldCount = countFields line := by
  have hblank : ∀ (t : Str) (st : ScanState), st.inField = false → st.currField = 0 →
      st.fieldCount = 0 → (t.foldl ScanState.step st).fieldCount = countFields t := by
    intro t
    induction t with
    | nil => exact fun st _ _ hcount => hcount
    | cons c t ih =>
      intro st hin hcurr hcount
      have hne : st.currField ≠ fieldComm := by simp [hcurr, fieldComm]
      rw [List.foldl_cons, countFields]
      by_cases hc : c = ' '
      · rw [hc, step_space hne, List.dropWhile_cons_of_pos (by decide)]
        exact ih _ rfl hcurr hcount
      · rw [List.dropWhile_cons_of_neg (by simpa using hc), step_opens hin hc,
          if_neg (by simp [hcount]), hcurr]
        apply fieldCount_first rfl rfl
        simp [insideField, hcount]
  exact hblank line init rfl rfl rfl

end count

/-! ## The fields that have matched -/

/-- In an ascending list, the elements below `k` come before `k`. -/
theorem getElem?_countP {l : List Nat} (h : l.Pairwise (· < ·)) (k : Nat) :
    (l[l.countP (· < k)]? = some k ↔ k ∈ l) ∧
      l.countP (· < k + 1) = l.countP (· < k) + if k ∈ l then 1 else 0 := by
  induction l with
  | nil => simp
  | cons a l ih =>
    obtain ⟨ha, hl⟩ := List.pairwise_cons.mp h
    obtain ⟨hget, hcount⟩ := ih hl
    rw [List.countP_cons, List.countP_cons, hcount]
    by_cases hlt : a < k
    · have hne : k ≠ a := by omega
      have hsucc : a < k + 1 := by omega
      simp only [hlt, hsucc, decide_true, if_true, List.getElem?_cons_succ, hget, List.mem_cons,
        hne, false_or, true_and]
      omega
    · have hnone : k ∉ l := fun hk => hlt (by have := ha k hk; omega)
      have hzero : l.countP (· < k) = 0 := by
        rw [List.countP_eq_zero]
        intro b hb
        have hab := ha b hb
        simp only [decide_eq_true_eq]
        omega
      by_cases heq : a = k
      · subst heq
        simp [hzero, hnone]
      · have hle : ¬ a < k + 1 := by omega
        simp [hzero, hnone, hlt, hle, heq, Ne.symm heq]

namespace ScanState

/-- The wanted fields among those that have begun have matched, and have been collected. -/
structure Counted (st : ScanState) : Prop where
  matched : st.matchCount = wantedFields.countP (· < st.fieldCount)
  collected : st.fields.length = st.matchCount

theorem counted_init : Counted init := ⟨by decide, rfl⟩

theorem Counted.le {st : ScanState} (h : st.Counted) : st.matchCount ≤ pidStatSpec.length := by
  rw [h.matched]
  exact List.countP_le_length

theorem Counted.step {st : ScanState} (h : st.Counted) (c : Char) : (st.step c).Counted := by
  by_cases hc : c = ' '
  · rw [hc]
    by_cases hcurr : st.currField = fieldComm
    · rw [step_underscore hcurr]
      exact ⟨h.matched, h.collected⟩
    · rw [step_space hcurr]
      exact ⟨h.matched, h.collected⟩
  · cases hin : st.inField with
    | true =>
      rw [step_inside hin hc]
      exact ⟨h.matched, h.collected⟩
    | false =>
      obtain ⟨hget, hcount⟩ := @getElem?_countP wantedFields (by decide) st.fieldCount
      rw [← h.matched] at hget hcount
      rw [step_opens hin hc]
      refine ⟨?_, ?_⟩
      · rw [insideField, hcount]
        simp only [hget]
      · rw [insideField, List.length_append, h.collected]
        split_ifs <;> rfl

/-- The scan goes through the first line. -/
theorem Counted.scan {st : ScanState} (h : st.Counted) (buf : Str) :
    (scan st buf).1 = (firstLine buf).foldl ScanState.step st ∧
      lookups st buf = lookups st (firstLine buf) := by
  induction buf generalizing st with
  | nil => exact ⟨rfl, rfl⟩
  | cons c buf ih =>
    by_cases hc : c ≠ '\x00' ∧ c ≠ '\n'
    · obtain ⟨hscan, hlookups⟩ := ih (h.step c)
      have hline : firstLine (c :: buf) = c :: firstLine buf :=
        List.takeWhile_cons_of_pos (by simpa using hc)
      have hcond : st.matchCount ≤ pidStatSpec.length ∧ c ≠ '\x00' ∧ c ≠ '\n' := ⟨h.le, hc⟩
      rw [hline, ScanState.scan, if_pos hcond, lookups, if_pos hcond, lookups, if_pos hcond,
        hlookups]
      exact ⟨hscan, rfl⟩
    · have hline : firstLine (c :: buf) = [] := List.takeWhile_cons_of_neg (by simpa using hc)
      have hcond : ¬ (st.matchCount ≤ pidStatSpec.length ∧ c ≠ '\x00' ∧ c ≠ '\n') :=
        fun hboth => hc hboth.2
      rw [hline, ScanState.scan, if_neg hcond, lookups, lookups, if_neg hcond]
      exact ⟨rfl, rfl⟩

/-- A character begins a field if it is no space and stands outside of a field. -/
theorem fieldCount_step (st : ScanState) (c : Char) : (st.step c).fieldCount =
    if c ≠ ' ' ∧ st.inField = false then st.fieldCount + 1 else st.fieldCount := by
  by_cases hc : c = ' '
  · rw [hc, if_neg (fun h => h.1 rfl)]
    by_cases hcurr : st.currField = fieldComm
    · rw [step_underscore hcurr]
    · rw [step_space hcurr]
  · cases hin : st.inField with
    | true =>
      rw [step_inside hin hc]
      exact (if_neg (by simp)).symm
    | false =>
      rw [step_opens hin hc]
      exact (if_pos ⟨hc, rfl⟩).symm

theorem fieldCount_le_foldl (st : ScanState) (t : Str) :
    st.fieldCount ≤ (t.foldl ScanState.step st).fieldCount := by
  induction t generalizing st with
  | nil => exact Nat.le_refl _
  | cons c t ih =>
    have hstep : st.fieldCount ≤ (st.step c).fieldCount := by
      rw [fieldCount_step]
      split_ifs <;> omega
    exact hstep.trans (ih _)

/-- The lookups stay in the table as long as no field begins behind the last wanted one. -/
theorem Counted.lookups_lt_iff {st : ScanState} (h : st.Counted) (hcount : st.fieldCount ≤ 39)
    {t : Str} (ht : ∀ c ∈ t, c ≠ '\x00' ∧ c ≠ '\n') :
    (∀ index ∈ lookups st t, index < pidStatSpec.length) ↔
      (t.foldl ScanState.step st).fieldCount ≤ 39 := by
  induction t generalizing st with
  | nil => exact iff_of_true (fun index hmem => absurd hmem List.not_mem_nil) hcount
  | cons c t ih =>
    have hrest : ∀ d ∈ t, d ≠ '\x00' ∧ d ≠ '\n' := fun d hd => ht d (List.mem_cons_of_mem _ hd)
    rw [lookups, if_pos ⟨h.le, ht c List.mem_cons_self⟩, List.foldl_cons]
    by_cases hopens : c ≠ ' ' ∧ st.inField = false
    · have hnext : (st.step c).fieldCount = st.fieldCount + 1 := by
        rw [fieldCount_step, if_pos hopens]
      rw [if_pos hopens, List.singleton_append, List.forall_mem_cons, h.matched]
      by_cases hlast : st.fieldCount = 39
      · refine iff_of_false (fun hall => absurd hall.1 ?_) ?_
        · rw [hlast]
          decide
        · have hle := fieldCount_le_foldl (st.step c) t
          omega
      · have hbelow : ∀ k < 39, wantedFields.countP (· < k) < pidStatSpec.length := by decide
        rw [and_iff_right (hbelow _ (by omega))]
        exact ih (h.step c) (by omega) hrest
    · have hsame : (st.step c).fieldCount = st.fieldCount := by
        rw [fieldCount_step, if_neg hopens]
      rw [if_neg hopens, List.nil_append]
      exact ih (h.step c) (by omega) hrest

end ScanState

/-- `parse_stat` stays in its table if and only if the first line has at most 39 fields: if no field
    begins behind `processor`. -/
theorem tableInBounds_iff (buf : Str) : TableInBounds buf ↔ countFields (firstLine buf) ≤ 39 := by
  obtain ⟨hscan, hlookups⟩ := counted_init.scan buf
  have hcollected : (scan init buf).1.fields.length ≤ pidStatSpec.length := by
    have hcounted : ∀ (t : Str) (st : ScanState),
        st.Counted → (t.foldl ScanState.step st).Counted := by
      intro t
      induction t with
      | nil => exact fun _ h => h
      | cons c t ih => exact fun st h => ih _ (h.step c)
    have hend := hcounted (firstLine buf) init counted_init
    rw [hscan, hend.collected]
    exact hend.le
  have hline : ∀ c ∈ firstLine buf, c ≠ '\x00' ∧ c ≠ '\n' := by
    intro c hc
    simpa using List.mem_takeWhile_imp hc
  rw [TableInBounds, and_iff_left hcollected, hlookups,
    counted_init.lookups_lt_iff (Nat.zero_le _) hline, fieldCount_init]

/-- A line of the kernel that goes on behind `processor`. -/
def longLine : Str := "7 (sh) S 1".toList ++ (List.replicate 48 " 0".toList).flatten ++ ['\n']

/-- The first field behind `processor` is looked up behind the end of the table. -/
theorem not_tableInBounds_longLine : ¬ TableInBounds longLine := by
  intro h
  have hmem : 10 ∈ lookups init longLine := by decide +kernel
  exact absurd (h.1 10 hmem) (by decide)

end LibCollector.Ferret
