import LibCollector.Misc.Scanf

/-!
# Integers at the beginning of a text

An `IntText` is a decimal integer with the white space and the sign that formatted input accepts
before its digits. Every text either begins with one, which `scanInt` reads whole (`scanInt_text`),
or does not, and then `scanInt` fails (`scanInt_cases`).
-/

namespace LibCollector.Misc

/-- White space, a sign and digits. -/
structure IntText where
  lead : Str := []
  sign : Str := []
  digits : Str
  lead_space : ∀ c ∈ lead, isSpace c = true
  sign_ok : sign = [] ∨ sign = ['-'] ∨ sign = ['+']
  digits_ok : ∀ c ∈ digits, c.isDigit = true
  digits_ne : digits ≠ []

namespace IntText

/-- The text. -/
def text (t : IntText) : Str := t.lead ++ (t.sign ++ t.digits)

/-- The integer. -/
def value (t : IntText) : Int := signed (t.sign = ['-'], Nat.ofDigitChars 10 t.digits 0)

theorem text_ne_nil (t : IntText) : t.text ≠ [] := by
  intro h
  exact t.digits_ne (List.append_eq_nil_iff.mp (List.append_eq_nil_iff.mp h).2).2

/-- White space before an integer belongs to it. -/
theorem exists_lead (t : IntText) {s : Str} (h : ∀ c ∈ s, isSpace c = true) :
    ∃ t' : IntText, t'.value = t.value ∧ s ++ t.text = t'.text := by
  have hlead : ∀ c ∈ s ++ t.lead, isSpace c = true :=
    fun c hc => (List.mem_append.mp hc).elim (h c) (t.lead_space c)
  refine ⟨{ t with lead := s ++ t.lead, lead_space := hlead }, rfl, ?_⟩
  rw [text, text, List.append_assoc]

/-- The sign and the digits do not begin with white space. -/
theorem dropWhile_text (t : IntText) (rest : Str) :
    (t.text ++ rest).dropWhile isSpace = t.sign ++ (t.digits ++ rest) := by
  have hfirst : ∀ c ∈ (t.sign ++ (t.digits ++ rest)).head?, isSpace c = false := by
    obtain ⟨c, ds, hds⟩ := List.exists_cons_of_ne_nil t.digits_ne
    have hc : isSpace c = false := isSpace_of_isDigit (t.digits_ok c (hds ▸ List.mem_cons_self))
    rintro d hd
    rcases t.sign_ok with hsign | hsign | hsign <;> rw [hsign, hds] at hd <;> cases hd
    · exact hc
    · decide
    · decide
  rw [text, List.append_assoc, List.append_assoc, List.dropWhile_append_of_pos t.lead_space]
  cases hs : t.sign ++ (t.digits ++ rest) with
  | nil => rfl
  | cons c s =>
    rw [hs] at hfirst
    exact List.dropWhile_cons_of_neg (by simp [hfirst c rfl])

end IntText

/-- `scanInt`, for the text behind the white space and that behind the sign. -/
theorem scanInt_eq {s t unsigned : Str} (ht : s.dropWhile isSpace = t)
    (hu : (if t.head? = some '-' ∨ t.head? = some '+' then t.tail else t) = unsigned) :
    scanInt s = scanDigits (t.head? = some '-') unsigned := by
  subst ht hu
  rfl

/-- An integer is read whole. -/
theorem scanInt_text (t : IntText) {rest : Str} (hrest : NoDigit rest) :
    scanInt (t.text ++ rest) = some (t.value, rest) := by
  obtain ⟨c, ds, hds⟩ := List.exists_cons_of_ne_nil t.digits_ne
  have hc : c.isDigit = true := t.digits_ok c (hds ▸ List.mem_cons_self)
  have hminus : c ≠ '-' := by
    rintro rfl
    exact absurd hc (by decide)
  have hplus : c ≠ '+' := by
    rintro rfl
    exact absurd hc (by decide)
  obtain ⟨htake, hdrop⟩ := takeWhile_digits t.digits_ok hrest
  have hunsigned : (if (t.sign ++ (t.digits ++ rest)).head? = some '-' ∨
        (t.sign ++ (t.digits ++ rest)).head? = some '+' then (t.sign ++ (t.digits ++ rest)).tail
      else t.sign ++ (t.digits ++ rest)) = t.digits ++ rest := by
    rcases t.sign_ok with hsign | hsign | hsign
    · simp [hsign, hds, hminus, hplus]
    · simp [hsign]
    · simp [hsign]
  have hnegative : ((t.sign ++ (t.digits ++ rest)).head? = some '-') = (t.sign = ['-']) := by
    rcases t.sign_ok with hsign | hsign | hsign
    · simp [hsign, hds, hminus]
    · simp [hsign]
    · simp [hsign]
  rw [scanInt_eq (t.dropWhile_text rest) hunsigned, scanDigits, htake, hdrop, if_neg t.digits_ne,
    IntText.value]
  simp only [hnegative]

/-- A text begins with an integer, or there is none to read. -/
theorem scanInt_cases (s : Str) :
    (∃ (t : IntText) (rest : Str), NoDigit rest ∧ s = t.text ++ rest) ∨ scanInt s = none := by
  obtain ⟨sign, unsigned, hsign, hsplit, hunsigned⟩ : ∃ sign unsigned : Str,
      (sign = [] ∨ sign = ['-'] ∨ sign = ['+']) ∧ s.dropWhile isSpace = sign ++ unsigned ∧
      (if (s.dropWhile isSpace).head? = some '-' ∨ (s.dropWhile isSpace).head? = some '+' then
        (s.dropWhile isSpace).tail else s.dropWhile isSpace) = unsigned := by
    cases ht : s.dropWhile isSpace with
    | nil => exact ⟨[], [], Or.inl rfl, rfl, rfl⟩
    | cons c t =>
      by_cases hminus : c = '-'
      · exact ⟨['-'], t, Or.inr (Or.inl rfl), by rw [hminus]; rfl, by simp [hminus]⟩
      · by_cases hplus : c = '+'
        · exact ⟨['+'], t, Or.inr (Or.inr rfl), by rw [hplus]; rfl, by simp [hplus]⟩
        · exact ⟨[], c :: t, Or.inl rfl, rfl, by simp [hminus, hplus]⟩
  by_cases hdigits : unsigned.takeWhile Char.isDigit = []
  · right
    rw [scanInt_eq rfl hunsigned, scanDigits, if_pos hdigits]
  · left
    refine ⟨{
      lead := s.takeWhile isSpace
      sign := sign
      digits := unsigned.takeWhile Char.isDigit
      lead_space := fun c => List.mem_takeWhile_imp
      sign_ok := hsign
      digits_ok := fun c => List.mem_takeWhile_imp
      digits_ne := hdigits }, unsigned.dropWhile Char.isDigit, noDigit_dropWhile unsigned, ?_⟩
    rw [IntText.text, List.append_assoc, List.append_assoc, List.takeWhile_append_dropWhile,
      ← hsplit, List.takeWhile_append_dropWhile]

/-- There is no integer in white space. -/
theorem scanInt_space {s : Str} (h : ∀ c ∈ s, isSpace c = true) : scanInt s = none := by
  rw [scanInt_eq (List.dropWhile_eq_nil_iff.mpr h) rfl]
  rfl

/-- White space has no digit. -/
theorem noDigit_of_space {s : Str} (h : ∀ c ∈ s, isSpace c = true) : NoDigit s := by
  intro c hc
  rw [← Bool.not_eq_true]
  intro hdigit
  have hspace := h c (List.mem_of_head? hc)
  rw [isSpace_of_isDigit hdigit] at hspace
  cases hspace

/-- There is one way to read a text that begins with an integer. -/
theorem IntText.eq_of_append_eq {t t' : IntText} {rest rest' : Str} (hrest : NoDigit rest)
    (hrest' : NoDigit rest') (h : t.text ++ rest = t'.text ++ rest') :
    t.value = t'.value ∧ rest = rest' := by
  have hscan := scanInt_text t hrest
  rw [h, scanInt_text t' hrest'] at hscan
  obtain ⟨hvalue, hrests⟩ := Prod.mk.inj (Option.some.inj hscan)
  exact ⟨hvalue.symm, hrests.symm⟩

end LibCollector.Misc
