import LibCollector.Collectors.CpuTemp

/-!
# Buffers of temperature lines

A line is blank or has a number, with a prefix that ends in a colon or without one, and text without
digits behind it. `parse` looks for the next colon in the whole rest of the buffer, skips one
character behind each number, and takes what is no number for a zero, so it reads the numbers of the
lines, and nothing else, only from buffers that are `Readable`.
-/

namespace LibCollector.Collectors

open LibCollector.Misc LibCollector.Interface

/-- A line with a number. -/
structure TempEntry where
  label : Option Str := none
  number : IntText
  trail : Str := []
  label_ok : ∀ p ∈ label, '\n' ∉ p ∧ '\x00' ∉ p
  lead_ok : '\n' ∉ number.lead
  trail_ok : ∀ c ∈ trail, c.isDigit = false ∧ c ≠ ':' ∧ c ≠ '\n' ∧ c ≠ '\x00'

/-- A line. -/
inductive TempLine where
  | blank (white : Str) (white_ok : ∀ c ∈ white, isSpace c = true ∧ c ≠ '\n')
  | entry (e : TempEntry)

/-- What follows the number of a line. -/
def TempEntry.rest (e : TempEntry) : Str := e.trail ++ ['\n']

/-- The text of a line with a number. -/
def TempEntry.text (e : TempEntry) : Str :=
  e.label.elim [] (· ++ [':']) ++ (e.number.text ++ e.rest)

/-- The text of a line. -/
def TempLine.text : TempLine → Str
  | .blank white _ => white ++ ['\n']
  | .entry e => e.text

/-- The text of lines. -/
def linesText (lines : List TempLine) : Str := lines.flatMap TempLine.text

/-- The length of what follows the number of each line that has one, and the number. -/
def numbersOf : List TempLine → List (Nat × Int)
  | [] => []
  | .blank _ _ :: lines => numbersOf lines
  | .entry e :: lines => ((e.rest ++ linesText lines).length, e.number.value) :: numbersOf lines

/-- One value is added for each line with a number, in order, and nothing else: the reads are those
    of the numbers of the lines, at their places in the buffer. It returns true if there is one. -/
def ReadsNumbers (c : CpuTemperatureCollector) (lines : List TempLine) : Prop :=
  ∃ r, Returns (tempTurn (linesText lines)) {} r ∧
    r.reads.map (fun read => (read.tmp, read.temp.toInt)) =
      (numbersOf lines).map (fun n => ((linesText lines).length - n.1, n.2)) ∧
    c.adds (r.reads.map TempRead.temp) = c.adds ((numbersOf lines).map fun n => Int64.ofInt n.2) ∧
    (r.ok = true ↔ numbersOf lines ≠ [])

/-- The lines can be read behind the text that stands before them since the last number. A line
    without a prefix has no line with a prefix behind it, and only white space between the character
    that is skipped and its number; a prefix has no colon in it; and nothing follows the character
    behind the last number. -/
def Readable : Str → List TempLine → Prop
  | before, [] => before = []
  | before, .blank white _ :: lines => Readable (before ++ (white ++ ['\n'])) lines
  | before, .entry e :: lines =>
    (match e.label with
      | some label => ':' ∉ label
      | none => (∀ c ∈ before, isSpace c = true) ∧ ':' ∉ linesText lines) ∧
    InLong e.number.value ∧ Readable e.rest.tail lines

/-! ## The text since the last number -/

/-- Text without digits and colons that ends a line. -/
structure Between (s : Str) : Prop where
  digits : ∀ c ∈ s, c.isDigit = false
  colon : ':' ∉ s
  line : s = [] ∨ ∃ u, s = u ++ ['\n']

theorem between_nil : Between [] where
  digits _ h := absurd h List.not_mem_nil
  colon := List.not_mem_nil
  line := Or.inl rfl

theorem Between.append {s t : Str} (hs : Between s) (ht : Between t) (hne : t ≠ []) :
    Between (s ++ t) where
  digits c hc := (List.mem_append.mp hc).elim (hs.digits c) (ht.digits c)
  colon hc := (List.mem_append.mp hc).elim hs.colon ht.colon
  line := by
    obtain ⟨u, hu⟩ := ht.line.resolve_left hne
    exact Or.inr ⟨s ++ u, by rw [hu, List.append_assoc]⟩

theorem between_blank {white : Str} (h : ∀ c ∈ white, isSpace c = true ∧ c ≠ '\n') :
    Between (white ++ ['\n']) where
  digits c hc := by
    rw [← Bool.not_eq_true]
    intro hdigit
    have hspace := isSpace_of_isDigit hdigit
    rcases List.mem_append.mp hc with hc | hc
    · rw [(h c hc).1] at hspace
      cases hspace
    · rw [List.mem_singleton.mp hc] at hspace
      exact absurd hspace (by decide)
  colon hc := by
    rcases List.mem_append.mp hc with hc | hc
    · exact absurd (h ':' hc).1 (by decide)
    · exact absurd hc (by decide)
  line := Or.inr ⟨white, rfl⟩

theorem TempEntry.between_rest (e : TempEntry) : Between e.rest.tail := by
  have hrest : ∀ c ∈ e.rest, c.isDigit = false ∧ c ≠ ':' := by
    intro c hc
    rcases List.mem_append.mp hc with hc | hc
    · exact ⟨(e.trail_ok c hc).1, (e.trail_ok c hc).2.1⟩
    · rw [List.mem_singleton.mp hc]
      decide
  refine ⟨fun c hc => (hrest c (List.mem_of_mem_tail hc)).1,
    fun hc => (hrest ':' (List.mem_of_mem_tail hc)).2 rfl, ?_⟩
  rw [TempEntry.rest]
  cases e.trail with
  | nil => exact Or.inl rfl
  | cons c trail => exact Or.inr ⟨trail, rfl⟩

theorem TempEntry.noDigit_rest (e : TempEntry) (s : Str) : NoDigit (e.rest ++ s) := by
  rw [TempEntry.rest]
  cases htrail : e.trail with
  | nil => exact noDigit_cons (by decide) _
  | cons c trail =>
    exact noDigit_cons (e.trail_ok c (htrail ▸ List.mem_cons_self)).1 _

/-- Text between lines that is not white space cannot be read. -/
theorem scanInt_between {s t : Str} (hs : Between s) (hspace : ∃ c ∈ s, isSpace c = false) :
    scanInt (s ++ t) = none := by
  have hmem := List.dropWhile_suffix (p := isSpace) (l := s) |>.subset
  have hne : s.dropWhile isSpace ≠ [] := by
    obtain ⟨c, hc, hnot⟩ := hspace
    intro hnil
    rw [List.dropWhile_eq_nil_iff] at hnil
    rw [hnil c hc] at hnot
    cases hnot
  have hfirst := List.head_dropWhile_not isSpace hne
  obtain ⟨c, w, hw⟩ := List.exists_cons_of_ne_nil hne
  have hdrop : (s ++ t).dropWhile isSpace = c :: (w ++ t) := by
    rw [List.dropWhile_append, hw]
    rfl
  have hc : c.isDigit = false := hs.digits c (hmem (hw ▸ List.mem_cons_self))
  -- The newline at the end of the line is still behind `c`.
  obtain ⟨d, w', rfl⟩ : ∃ d w', w = d :: w' := by
    refine List.exists_cons_of_ne_nil fun hnil => ?_
    rcases hs.line with rfl | ⟨u, rfl⟩
    · exact hne rfl
    · have hlast := congrArg List.getLast?
        (List.takeWhile_append_dropWhile (p := isSpace) (l := u ++ ['\n']))
      rw [hw, hnil, List.getLast?_concat, List.getLast?_concat, Option.some.injEq] at hlast
      simp only [hw, hlast, List.head_cons] at hfirst
      exact absurd hfirst (by decide)
  have hd : d.isDigit = false :=
    hs.digits d (hmem (hw ▸ List.mem_cons_of_mem _ List.mem_cons_self))
  rw [scanInt_eq hdrop rfl, scanDigits]
  split_ifs with hsign hdigits hdigits
  · rfl
  · exact absurd (List.takeWhile_cons_of_neg (by simp [hd])) hdigits
  · rfl
  · exact absurd (List.takeWhile_cons_of_neg (by simp [hc])) hdigits

/-! ## What is read from the lines -/

/-- What is read from a text, with the numbers as integers. -/
def scanned (s : Str) : List (Nat × Int) := (scan s).map fun r => (r.1, r.2.toInt)

theorem scanned_of_ne {s : Str} (h : s ≠ []) : scanned s =
    ((strtol (afterColon s)).2.length, (strtol (afterColon s)).1.toInt) ::
      scanned (strtol (afterColon s)).2.tail := by
  rw [scanned, scan_of_ne h, List.map_cons, ← scanned]

/-- The number of a line is read where the search for a prefix stops before it. -/
theorem scanned_entry {e : TempEntry} {s t : Str} {n : IntText} (hs : s ≠ [])
    (hn : n.value = e.number.value) (h : afterColon s = n.text ++ (e.rest ++ t)) :
    scanned s = ((e.rest ++ t).length, (saturate e.number.value).toInt) ::
      scanned (e.rest.tail ++ t) := by
  have htail : (e.rest ++ t).tail = e.rest.tail ++ t := by
    rw [TempEntry.rest]
    cases e.trail <;> rfl
  rw [scanned_of_ne hs, h, strtol_text n (e.noDigit_rest t), hn, htail]

/-- The first number that is read ends in the text behind the first colon. -/
theorem scanned_ne_of_afterColon {s : Str} {k : Nat} {v : Int} {ns : List (Nat × Int)} (hs : s ≠ [])
    (h : (strtol (afterColon s)).2.length ≠ k) : scanned s ≠ (k, v) :: ns := by
  intro heq
  rw [scanned_of_ne hs] at heq
  exact h (congrArg Prod.fst (List.cons.inj heq).1)

theorem linesText_entry (e : TempEntry) (lines : List TempLine) :
    linesText (.entry e :: lines) =
      e.label.elim [] (· ++ [':']) ++ (e.number.text ++ (e.rest ++ linesText lines)) := by
  rw [linesText, List.flatMap_cons, ← linesText, TempLine.text, TempEntry.text]
  simp only [List.append_assoc]

theorem colon_notMem_text (n : IntText) : ':' ∉ n.text := by
  intro hc
  rcases List.mem_append.mp hc with hc | hc
  · exact absurd (n.lead_space _ hc) (by decide)
  rcases List.mem_append.mp hc with hc | hc
  · rcases n.sign_ok with hsign | hsign | hsign <;> rw [hsign] at hc <;> exact absurd hc (by decide)
  · exact absurd (n.digits_ok _ hc) (by decide)

theorem TempEntry.colon_notMem_rest (e : TempEntry) : ':' ∉ e.rest := by
  intro hc
  rcases List.mem_append.mp hc with hc | hc
  · exact (e.trail_ok _ hc).2.1 rfl
  · exact absurd hc (by decide)

/-- `strtol` does not read over a colon. -/
theorem length_strtol_colon (u v : Str) : v.length < (strtol (u ++ ':' :: v)).2.length := by
  have hcolon : NoInt ':' := by refine ⟨?_, ?_, ?_, ?_⟩ <;> decide
  rw [strtol_eq]
  cases hscan : scanInt (u ++ ':' :: v) with
  | none =>
    rw [List.length_append, List.length_cons]
    omega
  | some r =>
    obtain ⟨u', hu', -⟩ := scanInt_length hcolon hscan
    dsimp only
    rw [hu', List.length_append, List.length_cons]
    omega

/-! ## A line with a number -/

section entry

variable {before : Str} {e : TempEntry} {lines : List TempLine}

/-- Behind a prefix the number is read, whatever stands before the line. -/
theorem scanned_label (hb : Between before) {label : Str} (hlabel : e.label = some label)
    (hcolon : ':' ∉ label) : scanned (before ++ linesText (.entry e :: lines)) =
      ((e.rest ++ linesText lines).length, (saturate e.number.value).toInt) ::
        scanned (e.rest.tail ++ linesText lines) := by
  have hsplit : before ++ linesText (.entry e :: lines) =
      (before ++ label) ++ ':' :: (e.number.text ++ (e.rest ++ linesText lines)) := by
    rw [linesText_entry, hlabel]
    simp only [Option.elim, List.append_assoc, List.cons_append, List.nil_append]
  have hbefore : ':' ∉ before ++ label := fun hc => (List.mem_append.mp hc).elim hb.colon hcolon
  rw [hsplit, scanned_entry (by simp) rfl (afterColon_append hbefore _)]

/-- Something is read before a second colon. -/
theorem scanned_label_colon (hb : Between before) {label : Str} (hlabel : e.label = some label)
    (hcolon : ':' ∈ label) :
    scanned (before ++ linesText (.entry e :: lines)) ≠ numbersOf (.entry e :: lines) := by
  obtain ⟨p, q, rfl, hp⟩ := List.eq_append_cons_of_mem hcolon
  have hsplit : before ++ linesText (.entry e :: lines) =
      (before ++ p) ++ ':' :: (q ++ ':' :: (e.number.text ++ (e.rest ++ linesText lines))) := by
    rw [linesText_entry, hlabel]
    simp only [Option.elim, List.append_assoc, List.cons_append, List.nil_append]
  have hbefore : ':' ∉ before ++ p := fun hc => (List.mem_append.mp hc).elim hb.colon hp
  have hlong := length_strtol_colon q (e.number.text ++ (e.rest ++ linesText lines))
  rw [hsplit]
  refine scanned_ne_of_afterColon (by simp) ?_
  rw [afterColon_append hbefore]
  rw [List.length_append] at hlong
  omega

theorem plain_ne_nil (hlabel : e.label = none) :
    before ++ linesText (.entry e :: lines) ≠ [] := by
  have hnumber : e.number.text ++ (e.rest ++ linesText lines) ≠ [] :=
    List.append_ne_nil_of_left_ne_nil e.number.text_ne_nil _
  rw [linesText_entry, hlabel]
  exact List.append_ne_nil_of_right_ne_nil _ (List.append_ne_nil_of_right_ne_nil _ hnumber)

/-- A line without a prefix has no colon. -/
theorem colon_notMem_plain (hb : Between before) :
    ':' ∉ before ++ (e.number.text ++ e.rest) := by
  simp only [List.mem_append, not_or]
  exact ⟨hb.colon, colon_notMem_text _, e.colon_notMem_rest⟩

/-- The search for a prefix leaves a line without one. -/
theorem scanned_colon_behind (hb : Between before) (hlabel : e.label = none)
    (hcolon : ':' ∈ linesText lines) :
    scanned (before ++ linesText (.entry e :: lines)) ≠ numbersOf (.entry e :: lines) := by
  obtain ⟨p, q, hpq, hp⟩ := List.eq_append_cons_of_mem hcolon
  have hsplit : before ++ linesText (.entry e :: lines) =
      (before ++ (e.number.text ++ e.rest) ++ p) ++ ':' :: q := by
    rw [linesText_entry, hlabel, hpq]
    simp only [Option.elim, List.nil_append, List.append_assoc]
  have hbefore : ':' ∉ before ++ (e.number.text ++ e.rest) ++ p :=
    fun hc => (List.mem_append.mp hc).elim (colon_notMem_plain hb) hp
  have hle := (strtol_suffix q).length_le
  refine scanned_ne_of_afterColon (plain_ne_nil hlabel) ?_
  rw [hsplit, afterColon_append hbefore, hpq]
  simp only [List.length_append, List.length_cons]
  omega

theorem afterColon_plain (hb : Between before) (hlabel : e.label = none)
    (hcolon : ':' ∉ linesText lines) : afterColon (before ++ linesText (.entry e :: lines)) =
      before ++ (e.number.text ++ (e.rest ++ linesText lines)) := by
  have hline := @colon_notMem_plain _ e hb
  have hall : ':' ∉ before ++ (e.number.text ++ (e.rest ++ linesText lines)) := by
    simp only [List.mem_append, not_or] at hline ⊢
    exact ⟨hline.1, hline.2.1, hline.2.2, hcolon⟩
  rw [linesText_entry, hlabel, Option.elim, List.nil_append, afterColon_of_notMem hall]

/-- Without a colon in the rest, the number is read behind white space. -/
theorem scanned_space (hb : Between before) (hlabel : e.label = none)
    (hcolon : ':' ∉ linesText lines) (hspace : ∀ c ∈ before, isSpace c = true) :
    scanned (before ++ linesText (.entry e :: lines)) =
      ((e.rest ++ linesText lines).length, (saturate e.number.value).toInt) ::
        scanned (e.rest.tail ++ linesText lines) := by
  obtain ⟨n, hn, htext⟩ := e.number.exists_lead hspace
  have hsplit : afterColon (before ++ linesText (.entry e :: lines)) =
      n.text ++ (e.rest ++ linesText lines) := by
    rw [afterColon_plain hb hlabel hcolon, ← htext, List.append_assoc]
  exact scanned_entry (plain_ne_nil hlabel) hn hsplit

/-- What is no number is taken for a zero, and one character is skipped. -/
theorem scanned_text (hb : Between before) (hlabel : e.label = none)
    (hcolon : ':' ∉ linesText lines) (htext : ∃ c ∈ before, isSpace c = false) :
    scanned (before ++ linesText (.entry e :: lines)) ≠ numbersOf (.entry e :: lines) := by
  have hpos := List.length_pos_iff.mpr e.number.text_ne_nil
  refine scanned_ne_of_afterColon (plain_ne_nil hlabel) ?_
  rw [afterColon_plain hb hlabel hcolon, strtol_eq, scanInt_between hb htext]
  simp only [List.length_append]
  omega

end entry

/-- Behind text without digits and colons, the numbers of lines are read exactly if the lines are
    readable there. -/
theorem scanned_eq_iff {before : Str} (hb : Between before) (lines : List TempLine) :
    scanned (before ++ linesText lines) = numbersOf lines ↔ Readable before lines := by
  induction lines generalizing before with
  | nil =>
    rw [linesText, List.flatMap_nil, List.append_nil, numbersOf, Readable]
    constructor
    · intro hnil
      by_contra hne
      rw [scanned_of_ne hne] at hnil
      cases hnil
    · rintro rfl
      rw [scanned, scan_nil, List.map_nil]
  | cons line lines ih =>
    cases line with
    | blank white hwhite =>
      have hnext := ih (hb.append (between_blank hwhite) (by simp))
      rw [List.append_assoc] at hnext
      exact hnext
    | entry e =>
      have hread : ((e.rest ++ linesText lines).length, (saturate e.number.value).toInt) ::
            scanned (e.rest.tail ++ linesText lines) = numbersOf (.entry e :: lines) ↔
          InLong e.number.value ∧ Readable e.rest.tail lines := by
        rw [numbersOf, List.cons.injEq, Prod.mk.injEq, and_iff_right rfl, toInt_saturate_iff,
          ih e.between_rest]
      rw [Readable]
      cases hlabel : e.label with
      | some label =>
        by_cases hcolon : ':' ∈ label
        · exact iff_of_false (scanned_label_colon hb hlabel hcolon) fun h => h.1 hcolon
        · rw [scanned_label hb hlabel hcolon, hread, and_iff_right hcolon]
      | none =>
        by_cases hcolon : ':' ∈ linesText lines
        · exact iff_of_false (scanned_colon_behind hb hlabel hcolon) fun h => h.1.2 hcolon
        by_cases hspace : ∀ c ∈ before, isSpace c = true
        · rw [scanned_space hb hlabel hcolon hspace, hread,
            and_iff_right (show _ ∧ _ from ⟨hspace, hcolon⟩)]
        · have htext : ∃ c ∈ before, isSpace c = false := by simpa using hspace
          exact iff_of_false (scanned_text hb hlabel hcolon htext) fun h => hspace h.1.1

/-! ## The whole buffer -/

theorem length_afterColon_lt {s : Str} (h : ':' ∈ s) : (afterColon s).length < s.length := by
  obtain ⟨u, v, rfl, hu⟩ := List.eq_append_cons_of_mem h
  rw [afterColon_append hu, List.length_append, List.length_cons]
  omega

/-- From a line with a number on, something is read. -/
theorem length_rest_entry_lt {before : Str} (hspace : ∀ c ∈ before, isSpace c = true)
    (e : TempEntry) (lines : List TempLine) :
    (strtol (afterColon (before ++ linesText (.entry e :: lines)))).2.length <
      (before ++ linesText (.entry e :: lines)).length := by
  by_cases hcolon : ':' ∈ before ++ linesText (.entry e :: lines)
  · have hlt := length_afterColon_lt hcolon
    have hle := (strtol_suffix (afterColon (before ++ linesText (.entry e :: lines)))).length_le
    omega
  · have hlabel : e.label = none := by
      cases hlabel : e.label with
      | none => rfl
      | some label =>
        rw [linesText_entry, hlabel] at hcolon
        simp at hcolon
    obtain ⟨n, -, htext⟩ := e.number.exists_lead hspace
    have hpos := List.length_pos_iff.mpr n.text_ne_nil
    rw [afterColon_of_notMem hcolon, linesText_entry, hlabel, Option.elim, List.nil_append,
      ← List.append_assoc, htext, strtol_text n (e.noDigit_rest _)]
    simp only [List.length_append]
    omega

/-- At the beginning of the buffer, `strtol` reads nothing exactly if no line has a number. -/
theorem strtol_eq_self_iff {before : Str} (hspace : ∀ c ∈ before, isSpace c = true)
    (lines : List TempLine) :
    (strtol (afterColon (before ++ linesText lines))).2 = before ++ linesText lines ↔
      numbersOf lines = [] := by
  induction lines generalizing before with
  | nil =>
    have hcolon : ':' ∉ before := fun hc => absurd (hspace ':' hc) (by decide)
    refine iff_of_true ?_ rfl
    rw [linesText, List.flatMap_nil, List.append_nil, afterColon_of_notMem hcolon, strtol_eq,
      scanInt_space hspace]
  | cons line lines ih =>
    cases line with
    | blank white hwhite =>
      have hnext := @ih (before ++ (white ++ ['\n'])) fun c hc => by
        rcases List.mem_append.mp hc with hc | hc
        · exact hspace c hc
        rcases List.mem_append.mp hc with hc | hc
        · exact (hwhite c hc).1
        · rw [List.mem_singleton.mp hc]
          decide
      rw [List.append_assoc] at hnext
      exact hnext
    | entry e =>
      refine iff_of_false (fun heq => ?_) (List.cons_ne_nil _ _)
      have hlt := length_rest_entry_lt hspace e lines
      rw [heq] at hlt
      exact Nat.lt_irrefl _ hlt

theorem le_length_of_mem_scan {s : Str} {r : Nat × Int64} (h : r ∈ scan s) : r.1 ≤ s.length := by
  induction hn : s.length using Nat.strongRecOn generalizing s with
  | _ n ih =>
    by_cases hs : s = []
    · rw [hs, scan_nil] at h
      cases h
    · rw [scan_of_ne hs] at h
      have hle := (rest_suffix s).length_le
      have hlt := length_tail_rest_lt hs
      rcases List.mem_cons.mp h with rfl | h
      · exact hn ▸ hle
      · have hrec := ih _ (hn ▸ hlt) h rfl
        omega

theorem le_length_of_mem_numbersOf {lines : List TempLine} {n : Nat × Int}
    (h : n ∈ numbersOf lines) : n.1 ≤ (linesText lines).length := by
  induction lines with
  | nil => cases h
  | cons line lines ih =>
    have hle : (linesText lines).length ≤ (linesText (line :: lines)).length := by
      rw [linesText, linesText, List.flatMap_cons, List.length_append]
      omega
    cases line with
    | blank white hwhite => exact (ih h).trans hle
    | entry e =>
      rcases List.mem_cons.mp h with rfl | h
      · rw [linesText_entry]
        simp only [List.length_append]
        omega
      · exact (ih h).trans hle

/-- Places that are counted from the end of the buffer, counted from its beginning. -/
theorem map_sub_inj {len : Nat} {ms ns : List (Nat × Int)} (hm : ∀ m ∈ ms, m.1 ≤ len)
    (hn : ∀ n ∈ ns, n.1 ≤ len) :
    ms.map (fun m => (len - m.1, m.2)) = ns.map (fun n => (len - n.1, n.2)) ↔ ms = ns := by
  have hback : ∀ ks : List (Nat × Int), (∀ k ∈ ks, k.1 ≤ len) →
      (ks.map fun k => (len - k.1, k.2)).map (fun k => (len - k.1, k.2)) = ks := by
    intro ks hks
    rw [List.map_map]
    conv_rhs => rw [← List.map_id ks]
    refine List.map_congr_left fun k hk => Prod.ext ?_ rfl
    have hle := hks k hk
    simp only [Function.comp_apply, id_eq]
    omega
  constructor
  · intro h
    rw [← hback ms hm, h, hback ns hn]
  · rintro rfl
    rfl

/-- The values are those of the numbers that are read. -/
theorem map_temp_eq {reads : List TempRead} {ns : List (Nat × Int)} {len : Nat}
    (h : reads.map (fun read => (read.tmp, read.temp.toInt)) = ns.map fun n => (len - n.1, n.2)) :
    reads.map TempRead.temp = ns.map fun n => Int64.ofInt n.2 := by
  have hints := congrArg (List.map fun p : Nat × Int => Int64.ofInt p.2) h
  rw [List.map_map, List.map_map] at hints
  calc reads.map TempRead.temp
      = reads.map (fun read => Int64.ofInt read.temp.toInt) :=
        List.map_congr_left fun read _ => (Int64.ofInt_toInt read.temp).symm
    _ = ns.map fun n => Int64.ofInt n.2 := hints

/-- The numbers are read exactly if `parse` finds them where they are. -/
theorem readsNumbers_iff {c : CpuTemperatureCollector} {lines : List TempLine} :
    ReadsNumbers c lines ↔
      (tempParsed (linesText lines)).reads.map (fun read => (read.tmp, read.temp.toInt)) =
          (numbersOf lines).map (fun n => ((linesText lines).length - n.1, n.2)) ∧
        ((tempParsed (linesText lines)).ok = true ↔ numbersOf lines ≠ []) := by
  simp only [ReadsNumbers, returns_iff (returns_tempParsed (linesText lines)), exists_eq_left]
  exact and_congr_right fun hreads => and_iff_right (congrArg c.adds (map_temp_eq hreads))

/-- `parse` returns for every buffer, with true if it has read a number, and no pointer goes beyond
    the terminator; of a buffer of lines it reads the numbers, and nothing else, exactly if the
    buffer is readable or has no number. -/
theorem parse_temperatures (buffer : Str) (c : CpuTemperatureCollector) (lines : List TempLine) :
    (∃ r, Returns (tempTurn buffer) {} r ∧ (r.ok = true ↔ r.reads ≠ []) ∧
      ∀ s, Visits (tempTurn buffer) {} s → ∀ pos ∈ tempCursors buffer s, pos ≤ buffer.length) ∧
    (ReadsNumbers c lines ↔ numbersOf lines = [] ∨ Readable [] lines) := by
  refine ⟨⟨tempParsed buffer, returns_tempParsed buffer, tempParsed_ok_iff buffer,
    fun s => tempCursors_le⟩, ?_⟩
  have hfirst := @strtol_eq_self_iff [] (fun c hc => absurd hc List.not_mem_nil) lines
  rw [List.nil_append] at hfirst
  rw [readsNumbers_iff, tempParsed]
  by_cases hnone : numbersOf lines = []
  · rw [if_pos (hfirst.mpr hnone), hnone]
    simp
  · have hscanned := scanned_eq_iff between_nil lines
    have hmap : ((scan (linesText lines)).map (readAt (linesText lines))).map
          (fun read => (read.tmp, read.temp.toInt)) =
        (scanned (linesText lines)).map (fun n => ((linesText lines).length - n.1, n.2)) := by
      rw [scanned, List.map_map, List.map_map]
      rfl
    have hle : ∀ n ∈ scanned (linesText lines), n.1 ≤ (linesText lines).length := by
      intro n hn
      obtain ⟨r, hr, rfl⟩ := List.mem_map.mp hn
      exact le_length_of_mem_scan hr
    rw [List.nil_append] at hscanned
    rw [if_neg (fun h => hnone (hfirst.mp h)), or_iff_right hnone, ← hscanned, hmap,
      map_sub_inj hle fun n => le_length_of_mem_numbersOf, iff_true_left rfl]
    exact and_iff_left hnone

/-- A number without white space and sign. -/
def degrees (digits : Str) (h : ∀ c ∈ digits, c.isDigit = true) (hne : digits ≠ []) : IntText where
  digits := digits
  lead_space _ hc := absurd hc List.not_mem_nil
  sign_ok := Or.inl rfl
  digits_ok := h
  digits_ne := hne

/-- The line `41`, with some text behind the number. -/
def plainLine (trail : Str) (h : ∀ c ∈ trail, c.isDigit = false ∧ c ≠ ':' ∧ c ≠ '\n' ∧ c ≠ '\x00') :
    TempLine := .entry {
  number := degrees "41".toList (by simp) (by decide)
  trail := trail
  label_ok := fun p hp => by cases hp
  lead_ok := List.not_mem_nil
  trail_ok := h }

/-- The line `soc:43`. -/
def labelledLine : TempLine := .entry {
  label := some "soc".toList
  number := degrees "43".toList (by simp) (by decide)
  label_ok := fun p hp => by
    cases hp
    decide
  lead_ok := List.not_mem_nil
  trail_ok := fun c hc => absurd hc List.not_mem_nil }

/-- A collector that reads the first file of `option_map`. -/
def thermalZone1 : CpuTemperatureCollector where
  mSysfsFile := "/sys/class/thermal/thermal_zone1/temp".toList
  divisor := 10.0
  known := List.lookup_cons_self

/-- The number before a line with a prefix is passed over, and a unit gives two zeros more. -/
theorem not_readsNumbers :
    ¬ ReadsNumbers thermalZone1 [plainLine [] (by simp), labelledLine] ∧
      ¬ ReadsNumbers thermalZone1 [plainLine " C".toList (by simp)] := by
  refine ⟨?_, ?_⟩
  · rintro ⟨r, hr, hreads, -⟩
    have hone : Returns (tempTurn "41\nsoc:43\n".toList) {} ⟨[⟨9, 43⟩], true⟩ := ⟨1, by decide⟩
    rw [hr.unique hone] at hreads
    exact absurd hreads (by decide)
  · rintro ⟨r, hr, hreads, -⟩
    have hthree : Returns (tempTurn "41 C\n".toList) {} ⟨[⟨2, 41⟩, ⟨3, 0⟩, ⟨4, 0⟩], true⟩ :=
      ⟨3, by decide⟩
    rw [hr.unique hthree] at hreads
    exact absurd hreads (by decide)

end LibCollector.Collectors
