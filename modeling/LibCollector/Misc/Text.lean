import Mathlib.Algebra.Ring.Int.Defs
import Mathlib.Data.List.TakeWhile
import Mathlib.Tactic.Common

/-!
# Text as the C and C++ libraries read and write it

Lists of characters for C strings, files and `std::string`s: splitting with
`std::getline`, decimal output of integers, and their formatted input from a
string stream.
-/

namespace LibCollector.Misc

/-- The bytes of a C string, a `std::string` or a file. -/
abbrev Str := List Char

/-- Named, so that every search in a list of texts has the same instance. -/
instance lawfulBEqStr : LawfulBEq Str := inferInstance

/-- The C string that starts a buffer: everything before the first NUL. -/
def cstr (buf : Str) : Str := buf.takeWhile (· ≠ '\x00')

/-- A text without NUL is a C string as it is. -/
theorem cstr_of_notMem {s : Str} (h : '\x00' ∉ s) : cstr s = s := by
  rw [cstr, List.takeWhile_eq_self_iff]
  intro c hc
  simpa using fun heq : c = '\x00' => h (heq ▸ hc)

theorem cstr_cons {c : Char} (h : c ≠ '\x00') (s : Str) : cstr (c :: s) = c :: cstr s := by
  simp [cstr, h]

/-- What follows a NUL does not count. -/
theorem cstr_append_of_mem {s : Str} (h : '\x00' ∈ s) (t : Str) : cstr (s ++ t) = cstr s := by
  induction s with
  | nil => cases h
  | cons c s ih =>
    by_cases hc : c = '\x00'
    · simp [cstr, hc]
    · have hmem : '\x00' ∈ s := (List.mem_cons.mp h).resolve_left (Ne.symm hc)
      rw [List.cons_append, cstr_cons hc, cstr_cons hc, ih hmem]

/-! ## Splitting -/

/-- The pieces that repeated `std::getline(stream, piece, delim)` yields. A delimiter ends a
    piece, so a text that ends in one has no empty last piece. -/
def pieces (delim : Char) : Str → List Str
  | [] => []
  | c :: cs =>
    if c = delim then [] :: pieces delim cs
    else match pieces delim cs with
      | [] => [[c]]
      | p :: ps => (c :: p) :: ps

@[simp] theorem pieces_nil (delim : Char) : pieces delim [] = [] := rfl

/-- The first piece is what stands before the first delimiter. -/
theorem pieces_append_delim {delim : Char} {p : Str} (h : delim ∉ p) (rest : Str) :
    pieces delim (p ++ delim :: rest) = p :: pieces delim rest := by
  induction p with
  | nil => simp [pieces]
  | cons c p ih =>
    obtain ⟨hc, hp⟩ := not_or.mp (List.mem_cons.not.mp h)
    simp only [List.cons_append, pieces, if_neg (Ne.symm hc), ih hp]

/-- The first piece of a text that does not begin with the delimiter begins with the same
    character. -/
theorem head?_pieces {delim c : Char} (h : c ≠ delim) (s : Str) :
    (pieces delim (c :: s)).head?.bind List.head? = some c := by
  rw [pieces, if_neg h]
  cases pieces delim s <;> rfl

/-- A text without delimiter is one piece. -/
theorem pieces_of_notMem {delim : Char} {p : Str} (h : delim ∉ p) (hne : p ≠ []) :
    pieces delim p = [p] := by
  induction p with
  | nil => exact absurd rfl hne
  | cons c p ih =>
    obtain ⟨hc, hp⟩ := not_or.mp (List.mem_cons.not.mp h)
    simp only [pieces, if_neg (Ne.symm hc)]
    cases p with
    | nil => rfl
    | cons d p => rw [ih hp (List.cons_ne_nil d p)]

/-- A delimiter at the end of a text ends its last piece, or an empty one. -/
theorem pieces_concat_delim (delim : Char) (s : Str) :
    pieces delim (s ++ [delim]) = pieces delim s ∨
      pieces delim (s ++ [delim]) = pieces delim s ++ [[]] := by
  induction s with
  | nil => simp [pieces]
  | cons c s ih =>
    rw [List.cons_append, pieces, pieces]
    by_cases hc : c = delim
    · rw [if_pos hc, if_pos hc]
      rcases ih with ih | ih
      · exact Or.inl (by rw [ih])
      · exact Or.inr (by rw [ih]; rfl)
    · rw [if_neg hc, if_neg hc]
      rcases ih with ih | ih
      · exact Or.inl (by rw [ih])
      · rw [ih]
        cases pieces delim s with
        | nil => exact Or.inl rfl
        | cons p ps => exact Or.inr rfl

/-- Reading back a text whose lines are all terminated. -/
theorem pieces_flatMap {delim : Char} (ps : List Str) (h : ∀ p ∈ ps, delim ∉ p) (rest : Str) :
    pieces delim (ps.flatMap (· ++ [delim]) ++ rest) = ps ++ pieces delim rest := by
  induction ps with
  | nil => rfl
  | cons p ps ih =>
    rw [List.flatMap_cons, List.append_assoc, List.append_assoc, List.singleton_append,
      pieces_append_delim (h p List.mem_cons_self), ih fun q hq => h q (List.mem_cons_of_mem _ hq)]
    rfl

/-- Reading back words that are separated, not terminated, by the delimiter. -/
theorem pieces_separated {delim : Char} (p : Str) (ps : List Str) (hp : delim ∉ p)
    (hps : ∀ q ∈ ps, delim ∉ q) (hne : ∀ q ∈ (p :: ps).getLast?, q ≠ []) :
    pieces delim (p ++ ps.flatMap (delim :: ·)) = p :: ps := by
  induction ps generalizing p with
  | nil =>
    rw [List.flatMap_nil, List.append_nil]
    exact pieces_of_notMem hp (hne p (by simp))
  | cons q ps ih =>
    rw [List.flatMap_cons, List.cons_append, pieces_append_delim hp,
      ih q (hps q List.mem_cons_self) (fun r hr => hps r (List.mem_cons_of_mem _ hr))]
    intro r hr
    exact hne r (by simpa [List.getLast?_cons_cons] using hr)

/-! ## Decimal numbers -/

/-- `std::to_string` of an integer. -/
def toChars : Int → Str
  | .ofNat n => Nat.toDigits 10 n
  | .negSucc n => '-' :: Nat.toDigits 10 (n + 1)

/-- `isspace` in the C locale. -/
def isSpace (c : Char) : Bool := c ∈ [' ', '\t', '\n', '\x0b', '\x0c', '\r']

/-- The sign and the magnitude that formatted input of an integer extracts: leading white
    space is skipped, what follows the digits is left in the stream, and no digits fail. -/
def scanMagnitude (s : Str) : Option (Bool × Nat) :=
  let s := s.dropWhile isSpace
  let negative := s.head? = some '-'
  let digits := (if s.head? = some '-' ∨ s.head? = some '+' then s.tail else s).takeWhile
    Char.isDigit
  if digits = [] then none else some (negative, Nat.ofDigitChars 10 digits 0)

theorem isDigit_of_mem_toDigits {n : Nat} {c : Char} (h : c ∈ Nat.toDigits 10 n) :
    c.isDigit = true :=
  Nat.isDigit_of_mem_toDigits (by decide) (by decide) h

theorem mem_toChars {n : Int} {c : Char} (h : c ∈ toChars n) : c.isDigit = true ∨ c = '-' := by
  cases n with
  | ofNat n => exact Or.inl (isDigit_of_mem_toDigits h)
  | negSucc n =>
    rcases List.mem_cons.mp h with rfl | h
    · exact Or.inr rfl
    · exact Or.inl (isDigit_of_mem_toDigits h)

theorem toChars_ne_nil (n : Int) : toChars n ≠ [] := by
  cases n with
  | ofNat n => exact Nat.toDigits_ne_nil
  | negSucc n => exact List.cons_ne_nil _ _

/-- A character that is neither a digit nor a sign is in no number. -/
theorem notMem_toChars {c : Char} (h : c.isDigit = false) (hc : c ≠ '-') (n : Int) :
    c ∉ toChars n := by
  intro hmem
  rcases mem_toChars hmem with hd | hd
  · rw [h] at hd
    exact Bool.false_ne_true hd
  · exact hc hd

theorem isSpace_of_isDigit {c : Char} (h : c.isDigit = true) : isSpace c = false := by
  rw [← Bool.not_eq_true]
  intro hs
  simp only [isSpace, List.mem_cons, List.not_mem_nil, or_false, decide_eq_true_eq] at hs
  rcases hs with rfl | rfl | rfl | rfl | rfl | rfl <;> exact absurd h (by decide)

/-- Formatted input of a decimal natural number reads the number back. -/
theorem scanMagnitude_digits (n : Nat) :
    scanMagnitude (Nat.toDigits 10 n) = some (false, n) := by
  have hall : ∀ c ∈ Nat.toDigits 10 n, c.isDigit = true := fun c => isDigit_of_mem_toDigits
  obtain ⟨c, cs, hcs⟩ := List.exists_cons_of_ne_nil (Nat.toDigits_ne_nil (n := n) (b := 10))
  have hc : c.isDigit = true := hall c (hcs ▸ List.mem_cons_self)
  have hdrop : (Nat.toDigits 10 n).dropWhile isSpace = Nat.toDigits 10 n := by
    rw [hcs, List.dropWhile_cons, isSpace_of_isDigit hc, if_neg Bool.false_ne_true]
  have hsign : ∀ d : Char, d.isDigit = false → (Nat.toDigits 10 n).head? ≠ some d := by
    intro d hd heq
    rw [hcs, List.head?_cons, Option.some.injEq] at heq
    rw [heq, hd] at hc
    exact Bool.false_ne_true hc
  simp only [scanMagnitude, hdrop, hsign '-' (by decide), hsign '+' (by decide), or_self, if_false,
    List.takeWhile_eq_self_iff.mpr hall, Nat.toDigits_ne_nil, decide_false,
    Nat.ofDigitChars_toDigits (by decide : 1 < 10) (by decide : 10 ≤ 10)]

theorem scanMagnitude_neg_digits (n : Nat) :
    scanMagnitude ('-' :: Nat.toDigits 10 n) = some (true, n) := by
  have hall : ∀ c ∈ Nat.toDigits 10 n, c.isDigit = true := fun c => isDigit_of_mem_toDigits
  have hdrop : ('-' :: Nat.toDigits 10 n).dropWhile isSpace = '-' :: Nat.toDigits 10 n := by
    rw [List.dropWhile_cons, if_neg (by decide)]
  simp only [scanMagnitude, hdrop, List.head?_cons, true_or, if_true, List.tail_cons,
    List.takeWhile_eq_self_iff.mpr hall, Nat.toDigits_ne_nil, if_false, decide_true,
    Nat.ofDigitChars_toDigits (by decide : 1 < 10) (by decide : 10 ≤ 10)]

/-- The values of a 32 bit `int`. -/
def IsInt32 (n : Int) : Prop := -2147483648 ≤ n ∧ n ≤ 2147483647

instance (n : Int) : Decidable (IsInt32 n) := inferInstanceAs (Decidable (_ ∧ _))

/-- What is kept of a number in a 32 bit `int`. -/
def int32 (n : Int) : Int := Int.bmod n 4294967296

theorem int32_eq_iff (n : Int) : int32 n = n ↔ IsInt32 n := by
  rw [int32, IsInt32]
  constructor
  · intro h
    have hlow := Int.le_bmod (x := n) (m := 4294967296) (by decide)
    have hhigh := Int.bmod_lt (x := n) (m := 4294967296) (by decide)
    omega
  · rintro ⟨hlow, hhigh⟩
    exact Int.bmod_eq_of_le (by omega) (by omega)

/-- The integer of a sign and a magnitude. -/
def signed (r : Bool × Nat) : Int := if r.1 then -(r.2 : Int) else r.2

/-- `atoi`, which gives zero where there is no number. -/
def atoi (s : Str) : Int := ((scanMagnitude s).map signed).getD 0

/-- The conversion to `int32_t`, which fails out of range. -/
def toInt32 (n : Int) : Option Int := if IsInt32 n then some n else none

/-- The conversion to `uint64_t`, which negates modulo 2^64 and fails out of range. -/
def toUInt64 (r : Bool × Nat) : Option Nat :=
  if r.2 < 18446744073709551616 then
    some (if r.1 then (18446744073709551616 - r.2) % 18446744073709551616 else r.2)
  else none

/-- `_stoi`: input of an `int32_t` from a string stream; `none` is its failed assertion. -/
def stoi (s : Str) : Option Int := (scanMagnitude s).bind fun r => toInt32 (signed r)

/-- `_stol`: input of a `uint64_t` from a string stream; `none` is its failed assertion. -/
def stol (s : Str) : Option Nat := (scanMagnitude s).bind toUInt64

/-- `_stoi` reads back the integers that it can represent, and refuses the others. -/
theorem stoi_toChars (n : Int) : stoi (toChars n) = toInt32 n := by
  cases n with
  | ofNat n =>
    have hsigned : signed (false, n) = Int.ofNat n := rfl
    rw [stoi, toChars, scanMagnitude_digits, Option.bind_some, hsigned]
  | negSucc n =>
    have hsigned : signed (true, n + 1) = Int.negSucc n := rfl
    rw [stoi, toChars, scanMagnitude_neg_digits, Option.bind_some, hsigned]

/-- `_stol` reads back the natural numbers below 2^64. -/
theorem stol_toChars {n : Nat} (h : n < 18446744073709551616) : stol (toChars n) = some n := by
  have hdigits : toChars n = Nat.toDigits 10 n := rfl
  rw [stol, hdigits, scanMagnitude_digits, Option.bind_some, toUInt64, if_pos h,
    if_neg Bool.false_ne_true]

/-- A number below `10 ^ k` has at most `k` digits, and a sign. -/
theorem length_toChars_le {n : Int} {k : Nat} (hk : 0 < k) (hlo : -10 ^ k < n) (hhi : n < 10 ^ k) :
    (toChars n).length ≤ k + 1 := by
  cases n with
  | ofNat n =>
    have hn : n < 10 ^ k := by
      rw [Int.ofNat_eq_natCast] at hhi
      exact_mod_cast hhi
    exact Nat.le_succ_of_le ((Nat.length_toDigits_le_iff (by decide) hk).mpr hn)
  | negSucc n =>
    have hn : n + 1 < 10 ^ k := by
      rw [Int.negSucc_eq, Int.neg_lt_neg_iff] at hlo
      exact_mod_cast hlo
    exact Nat.succ_le_succ ((Nat.length_toDigits_le_iff (by decide) hk).mpr hn)

/-- Different integers are written differently. -/
theorem toChars_injective : Function.Injective toChars := by
  have hdigits : ∀ m n : Nat, Nat.toDigits 10 m = Nat.toDigits 10 n → m = n := by
    intro m n h
    have hscan := congrArg scanMagnitude h
    rw [scanMagnitude_digits, scanMagnitude_digits] at hscan
    simpa using hscan
  have hsign : ∀ m n : Nat, Nat.toDigits 10 m ≠ '-' :: Nat.toDigits 10 n := by
    intro m n h
    have hmem : '-' ∈ Nat.toDigits 10 m := by
      rw [h]
      exact List.mem_cons_self
    exact absurd (isDigit_of_mem_toDigits hmem) (by decide)
  intro m n h
  cases m with
  | ofNat m =>
    cases n with
    | ofNat n => rw [hdigits m n h]
    | negSucc n => exact absurd h (hsign m (n + 1))
  | negSucc m =>
    cases n with
    | ofNat n => exact absurd h.symm (hsign n (m + 1))
    | negSucc n =>
      have hsucc := hdigits _ _ (List.cons.inj h).2
      rw [Nat.succ.inj hsucc]

end LibCollector.Misc
