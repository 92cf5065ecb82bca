import LibCollector.Interface.Sysfs
import LibCollector.Misc.IntText

/-!
# The contents that a sysfs collector accepts

One call of `collect` with the default `parse`, for every content of the file. A number is an
integer of `long` with white space around it. `parse` refuses what `strtol` reads to the end, a
number without anything behind it included, and accepts the rest (`collect_eq`).
-/

namespace LibCollector.Interface

open LibCollector.Misc

/-- An integer that `long` can represent. -/
def InLong (n : Int) : Prop := Int64.minValue.toInt ≤ n ∧ n ≤ Int64.maxValue.toInt

instance (n : Int) : Decidable (InLong n) := inferInstanceAs (Decidable (_ ∧ _))

/-- The `long` nearest to an integer. -/
def saturate (n : Int) : Int64 :=
  if n < Int64.minValue.toInt then Int64.minValue
  else if Int64.maxValue.toInt < n then Int64.maxValue
  else Int64.ofInt n

theorem saturate_of_inLong {n : Int} (h : InLong n) : saturate n = Int64.ofInt n := by
  rw [saturate, if_neg (Int.not_lt.mpr h.1), if_neg (Int.not_lt.mpr h.2)]

/-- Only the integers of `long` are kept. -/
theorem toInt_saturate_iff (n : Int) : (saturate n).toInt = n ↔ InLong n := by
  constructor
  · intro h
    rw [← h]
    exact ⟨Int64.minValue_le_toInt _, Int64.toInt_le _⟩
  · intro h
    rw [saturate_of_inLong h]
    exact Int64.toInt_ofInt_of_le h.1 (Int.lt_of_le_sub_one h.2)

/-- `strtol` reads the integer that a text begins with, and otherwise nothing. -/
theorem strtol_eq (s : Str) :
    strtol s = match scanInt s with
      | none => (0, s)
      | some (n, rest) => (saturate n, rest) := by
  rw [strtol, scanInt, scanDigits, ← saturate]
  split_ifs <;> rfl

theorem strtol_text (t : IntText) {rest : Str} (hrest : NoDigit rest) :
    strtol (t.text ++ rest) = (saturate t.value, rest) := by
  rw [strtol_eq, scanInt_text t hrest]

/-- `strtol` leaves the end of the text. -/
theorem strtol_suffix (s : Str) : (strtol s).2 <:+ s := by
  rcases scanInt_cases s with ⟨t, rest, hrest, rfl⟩ | hnone
  · rw [strtol_text t hrest]
    exact List.suffix_append _ _
  · have hwhole : (strtol s).2 = s := by rw [strtol_eq, hnone]
    exact ⟨[], hwhole⟩

/-- The content is the number `n`. -/
def IsNumber (content : Str) (n : Int) : Prop :=
  InLong n ∧ ∃ (t : IntText) (trail : Str),
    (∀ c ∈ trail, isSpace c = true) ∧ content = t.text ++ trail ∧ t.value = n

/-- Behind the integer that a content begins with, only white space may follow. -/
theorem isNumber_text_iff (t : IntText) {rest : Str} (hrest : NoDigit rest) (n : Int) :
    IsNumber (t.text ++ rest) n ↔
      InLong t.value ∧ (∀ c ∈ rest, isSpace c = true) ∧ t.value = n := by
  constructor
  · rintro ⟨hlong, t', trail, hspace, htext, hvalue⟩
    obtain ⟨hvalues, hrests⟩ := IntText.eq_of_append_eq hrest (noDigit_of_space hspace) htext
    rw [hvalues, hrests, hvalue]
    exact ⟨hlong, hspace, rfl⟩
  · rintro ⟨hlong, hspace, rfl⟩
    exact ⟨hlong, t, rest, hspace, rfl, rfl⟩

/-- The content of the file is read, and the file can be read again. -/
structure SysfsReply.Reads (reply : SysfsReply) (content : Str) : Prop where
  read : reply.read = some content
  length : content.length ≤ 1023
  noNul : '\x00' ∉ content
  kept : reply.seekOk = true ∨ 0 ≤ reply.reopened

namespace SysfsCollector

/-- What is added for an integer. -/
def sample (n : Int64) (c : SysfsCollector) : Added :=
  match c.mFactor with
  | none => (c.mName, .i64, .ofI64 n)
  | some factor => (c.mName, .fp64, .ofFp64 (n.toFloat * factor))

/-- The collector after a call that has read the file. -/
def reread (reply : SysfsReply) (c : SysfsCollector) : SysfsCollector :=
  if reply.seekOk then c else { c with mFD := reply.reopened }

/-- A call adds one sample, the number, and returns true if the content is a number; it adds
    nothing and returns false if it is none. -/
def AcceptsNumbers (reply : SysfsReply) (content : Str) (c : SysfsCollector) : Prop :=
  (∀ n, IsNumber content n →
    c.collect reply = some (true, c.reread reply, [c.sample (Int64.ofInt n)])) ∧
  ((∀ n, ¬ IsNumber content n) → c.collect reply = some (false, c.reread reply, []))

/-- The contents for which `collect` does: the empty one, an integer in the range of `long` with
    white space behind it, and an integer out of this range with nothing behind it. -/
def ToldApart (content : Str) : Prop :=
  content = [] ∨ ∃ (t : IntText) (trail : Str), (∀ c ∈ trail, isSpace c = true) ∧
    content = t.text ++ trail ∧ (InLong t.value ↔ trail ≠ [])

theorem collect_eq {reply : SysfsReply} {content : Str} {c : SysfsCollector} (hfd : c.mFD ≠ -1)
    (h : reply.Reads content) : c.collect reply =
      if (strtol content).2 = [] then some (false, c.reread reply, [])
      else some (true, c.reread reply, [c.sample (strtol content).1]) := by
  have hlost : ¬ (reply.seekOk = false ∧ reply.reopened < 0) := by
    rintro ⟨hseek, hopen⟩
    rcases h.kept with hkept | hkept
    · rw [hkept] at hseek
      cases hseek
    · omega
  have hbuffer : cstr (content.take 1023) = content := by
    rw [List.take_of_length_le h.length, cstr_of_notMem h.noNul]
  have hfactor : (c.reread reply).mFactor = c.mFactor ∧ (c.reread reply).mName = c.mName := by
    rw [reread]
    split_ifs <;> exact ⟨rfl, rfl⟩
  rw [collect, if_neg hfd, h.read]
  dsimp only
  rw [if_neg hlost, hbuffer, ← reread, parse, hfactor.1, hfactor.2, sample]
  split_ifs with hend
  · rfl
  · cases c.mFactor <;> rfl

/-- It is expected to accept what has a number in it, and accepts what `strtol` does not read to
    the end. -/
theorem acceptsNumbers_iff_strtol {reply : SysfsReply} {content : Str} {c : SysfsCollector}
    (hfd : c.mFD ≠ -1) (h : reply.Reads content) :
    c.AcceptsNumbers reply content ↔
      ((∃ n, IsNumber content n) ↔ (strtol content).2 ≠ []) := by
  rw [AcceptsNumbers, collect_eq hfd h]
  by_cases hend : (strtol content).2 = []
  · rw [if_pos hend, iff_false_right (not_not.mpr hend), not_exists]
    constructor
    · rintro ⟨haccept, -⟩ n hn
      cases haccept n hn
    · exact fun hnone => ⟨fun n hn => absurd hn (hnone n), fun _ => rfl⟩
  · rw [if_neg hend, iff_true_right hend]
    constructor
    · rintro ⟨-, hrefuse⟩
      by_contra hnone
      cases hrefuse (not_exists.mp hnone)
    · rintro ⟨n, hn⟩
      refine ⟨fun m hm => ?_, fun hnone => absurd hn (hnone n)⟩
      obtain ⟨hlong, t, trail, hspace, rfl, rfl⟩ := hm
      rw [strtol_text t (noDigit_of_space hspace), saturate_of_inLong hlong]

/-- `collect` does what is expected exactly on the contents that are listed. -/
theorem acceptsNumbers_iff {reply : SysfsReply} {content : Str} {c : SysfsCollector}
    (hfd : c.mFD ≠ -1) (h : reply.Reads content) :
    c.AcceptsNumbers reply content ↔ ToldApart content := by
  rw [acceptsNumbers_iff_strtol hfd h, ToldApart]
  rcases scanInt_cases content with ⟨t, rest, hrest, rfl⟩ | hnone
  · have hne : t.text ++ rest ≠ [] := List.append_ne_nil_of_left_ne_nil t.text_ne_nil rest
    have htold : (∃ (t' : IntText) (trail : Str), (∀ c ∈ trail, isSpace c = true) ∧
        t.text ++ rest = t'.text ++ trail ∧ (InLong t'.value ↔ trail ≠ [])) ↔
        (∀ c ∈ rest, isSpace c = true) ∧ (InLong t.value ↔ rest ≠ []) := by
      constructor
      · rintro ⟨t', trail, hspace, htext, hlong⟩
        obtain ⟨hvalue, rfl⟩ := IntText.eq_of_append_eq hrest (noDigit_of_space hspace) htext
        rw [hvalue]
        exact ⟨hspace, hlong⟩
      · rintro ⟨hspace, hlong⟩
        exact ⟨t, rest, hspace, rfl, hlong⟩
    have hnumber : (∃ n, IsNumber (t.text ++ rest) n) ↔
        InLong t.value ∧ ∀ c ∈ rest, isSpace c = true := by
      simp only [isNumber_text_iff t hrest]
      exact ⟨fun ⟨_, hlong, hspace, _⟩ => ⟨hlong, hspace⟩,
        fun ⟨hlong, hspace⟩ => ⟨_, hlong, hspace, rfl⟩⟩
    rw [strtol_text t hrest, or_iff_right hne, htold, hnumber]
    by_cases hend : rest = []
    · simp [hend]
    · simp only [ne_eq, hend, not_false_eq_true, iff_true]
      exact and_comm
  · have hstrtol : strtol content = (0, content) := by rw [strtol_eq, hnone]
    have hno : ∀ (t : IntText) (trail : Str), (∀ c ∈ trail, isSpace c = true) →
        content ≠ t.text ++ trail := by
      rintro t trail hspace rfl
      rw [scanInt_text t (noDigit_of_space hspace)] at hnone
      cases hnone
    have hnumber : ¬ ∃ n, IsNumber content n := by
      rintro ⟨n, -, t, trail, hspace, htext, -⟩
      exact hno t trail hspace htext
    rw [hstrtol, iff_false_left hnumber, not_not, or_iff_left]
    rintro ⟨t, trail, hspace, htext, -⟩
    exact hno t trail hspace htext

/-- The collector of the battery temperature, and a read of a text that can seek back. -/
def temperature : SysfsCollector := ⟨"battery_temperature".toList, 3, none⟩

/-- A read of a text, and a seek. -/
def replyOf (content : Str) : SysfsReply := ⟨some content, true, -1⟩

theorem temperature_acceptsNumbers_iff :
    (temperature.mFD ≠ -1 ∧ (replyOf "312\n".toList).Reads "312\n".toList) ∧
      (temperature.AcceptsNumbers (replyOf "312\n".toList) "312\n".toList ↔
        ToldApart "312\n".toList) := by
  have hreads : (replyOf "312\n".toList).Reads "312\n".toList :=
    ⟨rfl, by decide, by decide, Or.inl rfl⟩
  exact ⟨⟨by decide, hreads⟩, acceptsNumbers_iff (by decide) hreads⟩

/-- Without a newline the number is refused, and a word is accepted as zero. -/
theorem not_acceptsNumbers :
    ¬ temperature.AcceptsNumbers (replyOf "312".toList) "312".toList ∧
      ¬ temperature.AcceptsNumbers (replyOf "none\n".toList) "none\n".toList := by
  refine ⟨fun h => ?_, fun h => ?_⟩
  · have hnumber : IsNumber "312".toList 312 := by
      refine ⟨by decide, ⟨[], [], "312".toList, ?_, Or.inl rfl, ?_, ?_⟩, [], ?_, rfl, rfl⟩ <;>
        simp
    have haccept := h.1 312 hnumber
    rw [collect_eq (by decide) ⟨rfl, by decide, by decide, Or.inl rfl⟩,
      if_pos (by decide)] at haccept
    cases haccept
  · have hnone : ∀ n, ¬ IsNumber "none\n".toList n := by
      rintro n ⟨-, t, trail, hspace, htext, -⟩
      have hscan := scanInt_text t (noDigit_of_space hspace)
      rw [← htext] at hscan
      cases hscan
    have hrefuse := h.2 hnone
    rw [collect_eq (by decide) ⟨rfl, by decide, by decide, Or.inl rfl⟩,
      if_neg (by decide)] at hrefuse
    cases hrefuse

end SysfsCollector

end LibCollector.Interface
