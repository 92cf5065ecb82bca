import LibCollector.Misc.Text
import Mathlib.Algebra.Order.Field.Rat
import Mathlib.Tactic.NormNum

/-!
# Numbers of the scripts

`int(x)` and `float(x)` of a text, and the arithmetic of `src/ferret.py` and
`src/ferret1to2.py` over a type of numbers. `float` is an IEEE double, of which Lean's own
`Float` is an exact model; what holds without rounding is stated over ℚ.
-/

namespace LibCollector.Ferret.Python

open LibCollector.Misc

/-! ## Text -/

/-- `str.isspace` of a character. -/
def isSpace (c : Char) : Bool :=
  let n := c.toNat
  (9 ≤ n && n ≤ 13) || (28 ≤ n && n ≤ 32) || n = 133 || n = 160 || n = 5760 ||
    (8192 ≤ n && n ≤ 8202) || n = 8232 || n = 8233 || n = 8239 || n = 8287 || n = 12288

/-- The zeros of Unicode's decimal digits that are not ASCII. The nine others follow each. -/
def zeros : List Nat :=
  [1632, 1776, 1984, 2406, 2534, 2662, 2790, 2918, 3046, 3174, 3302, 3430, 3558, 3664, 3792,
    3872, 4160, 4240, 6112, 6160, 6470, 6608, 6784, 6800, 6992, 7088, 7232, 7248, 42528, 43216,
    43264, 43472, 43504, 43600, 44016, 65296, 66720, 68912, 69734, 69872, 69942, 70096, 70384,
    70736, 70864, 71248, 71360, 71472, 71904, 72016, 72784, 73040, 73120, 92768, 92864, 93008,
    120782, 120792, 120802, 120812, 120822, 123200, 123632, 125264, 130032]

/-- A character of a number in ASCII. One that is no digit and no blank fits nowhere. -/
def toAscii (c : Char) : Char :=
  if c.toNat < 128 then c
  else if isSpace c then ' '
  else match zeros.find? fun z => z ≤ c.toNat && c.toNat ≤ z + 9 with
    | some z => Nat.digitChar (c.toNat - z)
    | none => '?'

/-- The text of a number without the blanks around it. The blanks are those of ASCII only. -/
def strip (s : Str) : Str :=
  (((s.map toAscii).dropWhile Misc.isSpace).reverse.dropWhile Misc.isSpace).reverse

/-- A sign, and what is behind it. -/
def sign (s : Str) : Bool × Str :=
  if s.head? = some '-' then (true, s.tail)
  else if s.head? = some '+' then (false, s.tail)
  else (false, s)

/-- Digits, which may be grouped by single underscores. -/
def digits (s : Str) : Option Str :=
  let groups := s.splitOn '_'
  if ∀ g ∈ groups, g ≠ [] ∧ g.all Char.isDigit then some groups.flatten else none

/-- A sign and digits. -/
def integer (s : Str) : Option Int :=
  (digits (sign s).2).map fun ds =>
    if (sign s).1 then -(Nat.ofDigitChars 10 ds 0 : Int) else Nat.ofDigitChars 10 ds 0

/-- `int(x)` of a text. -/
def int (s : Str) : Option Int := integer (strip s)

theorem isSpace_of_isDigit {c : Char} (h : c.isDigit = true) : isSpace c = false := by
  rw [Char.isDigit, Bool.and_eq_true, decide_eq_true_eq, decide_eq_true_eq] at h
  have hlow : 48 ≤ c.toNat := h.1
  have hhigh : c.toNat ≤ 57 := h.2
  simp only [isSpace, Bool.or_eq_false_iff, Bool.and_eq_false_iff, decide_eq_false_iff_not]
  omega

theorem isSpace_toChars {n : Int} {c : Char} (h : c ∈ toChars n) : isSpace c = false := by
  rcases mem_toChars h with hdigit | rfl
  · exact isSpace_of_isDigit hdigit
  · decide

/-- There is nothing to strip of a word in ASCII. -/
theorem strip_of_isSpace {s : Str} (hascii : ∀ c ∈ s, c.toNat < 128)
    (h : ∀ c ∈ s, Misc.isSpace c = false) : strip s = s := by
  have hdrop : ∀ t : Str, (∀ c ∈ t, Misc.isSpace c = false) → t.dropWhile Misc.isSpace = t := by
    intro t ht
    cases t with
    | nil => rfl
    | cons c t => rw [List.dropWhile_cons_of_neg (by simp [ht c List.mem_cons_self])]
  have hmap : s.map toAscii = s := by
    have hself : ∀ c ∈ s, toAscii c = c := fun c hc => if_pos (hascii c hc)
    rw [List.map_congr_left hself]
    exact List.map_id _
  rw [strip, hmap, hdrop s h, hdrop _ fun c hc => h c (List.mem_reverse.mp hc),
    List.reverse_reverse]

theorem strip_toChars (n : Int) : strip (toChars n) = toChars n := by
  refine strip_of_isSpace ?_ ?_ <;> intro c hc
  · rcases mem_toChars hc with hdigit | rfl
    · rw [Char.isDigit, Bool.and_eq_true, decide_eq_true_eq, decide_eq_true_eq] at hdigit
      have hhigh : c.toNat ≤ 57 := hdigit.2
      omega
    · decide
  · rcases mem_toChars hc with hdigit | rfl
    · exact Misc.isSpace_of_isDigit hdigit
    · decide

/-- Digits without underscores are one group. -/
theorem digits_of_isDigit {s : Str} (hne : s ≠ []) (h : ∀ c ∈ s, c.isDigit = true) :
    digits s = some s := by
  have hgroups : s.splitOn '_' = [s] :=
    List.splitOn_eq_singleton fun hmem => absurd (h _ hmem) (by decide)
  rw [digits, hgroups, if_pos]
  · simp
  · intro g hg
    rw [List.mem_singleton.mp hg]
    exact ⟨hne, List.all_eq_true.mpr h⟩

theorem digits_toDigits (n : Nat) : digits (Nat.toDigits 10 n) = some (Nat.toDigits 10 n) :=
  digits_of_isDigit Nat.toDigits_ne_nil fun _ => isDigit_of_mem_toDigits

theorem ofDigitChars_toDigits (n : Nat) : Nat.ofDigitChars 10 (Nat.toDigits 10 n) 0 = n :=
  Nat.ofDigitChars_toDigits (by decide) (by decide)

/-- The sign of a number that is written out. -/
theorem sign_toChars (n : Int) : sign (toChars n) = (decide (n < 0), Nat.toDigits 10 n.natAbs) := by
  cases n with
  | ofNat n =>
    have hhead : ∀ c, c.isDigit = false → (Nat.toDigits 10 n).head? ≠ some c := by
      intro c hc heq
      rw [isDigit_of_mem_toDigits (List.mem_of_mem_head? heq)] at hc
      cases hc
    rw [sign, toChars, if_neg (hhead '-' (by decide)), if_neg (hhead '+' (by decide))]
    simp
  | negSucc n =>
    rw [sign, toChars, List.head?_cons, if_pos rfl, List.tail_cons]
    simp [Int.negSucc_lt_zero]

/-- `int(x)` reads back every integer. -/
theorem int_toChars (n : Int) : int (toChars n) = some n := by
  rw [int, strip_toChars, integer, sign_toChars]
  dsimp only
  rw [digits_toDigits, Option.map_some, ofDigitChars_toDigits]
  congr 1
  split_ifs with hneg
  · have := of_decide_eq_true hneg
    omega
  · have := of_decide_eq_false (Bool.eq_false_iff.mpr hneg)
    omega

/-! ## Literals -/

/-- What `float(x)` reads: digits times a power of ten, or a special value. -/
inductive Literal where
  | decimal (negative : Bool) (digits : Nat) (exponent : Int)
  | infinity (negative : Bool)
  | nan
  deriving DecidableEq

/-- The digits and the exponent of a number without a sign. -/
def decimal (s : Str) : Option (Nat × Int) :=
  let mantissa := s.takeWhile fun c => c ≠ 'e' ∧ c ≠ 'E'
  let whole := mantissa.takeWhile (· ≠ '.')
  let fraction := (mantissa.drop whole.length).tail
  let optional := fun ds => if ds = [] then some [] else digits ds
  if whole = [] ∧ fraction = [] then none
  else
    (optional whole).bind fun w => (optional fraction).bind fun f =>
      let exponent := s.drop mantissa.length
      (if exponent = [] then some 0 else integer exponent.tail).map fun e =>
        (Nat.ofDigitChars 10 (w ++ f) 0, e - f.length)

/-- The text of a number for `float(x)`. -/
def literal (s : Str) : Option Literal :=
  let negative := (sign (strip s)).1
  let unsigned := (sign (strip s)).2
  let name := unsigned.map Char.toLower
  if name = "inf".toList ∨ name = "infinity".toList then some (.infinity negative)
  else if name = "nan".toList then some .nan
  else (decimal unsigned).map fun d => .decimal negative d.1 d.2

/-- A whole number is a literal. -/
theorem literal_toChars (n : Int) :
    literal (toChars n) = some (.decimal (decide (n < 0)) n.natAbs 0) := by
  have hdigit : ∀ c ∈ Nat.toDigits 10 n.natAbs, c.isDigit = true := fun _ =>
    isDigit_of_mem_toDigits
  have hne := Nat.toDigits_ne_nil (b := 10) (n := n.natAbs)
  have hmantissa : (Nat.toDigits 10 n.natAbs).takeWhile (fun c => c ≠ 'e' ∧ c ≠ 'E') =
      Nat.toDigits 10 n.natAbs := by
    rw [List.takeWhile_eq_self_iff]
    intro c hc
    rw [decide_eq_true_eq]
    constructor <;>
    · rintro rfl
      exact absurd (hdigit _ hc) (by decide)
  have hwhole : (Nat.toDigits 10 n.natAbs).takeWhile (· ≠ '.') = Nat.toDigits 10 n.natAbs := by
    rw [List.takeWhile_eq_self_iff]
    intro c hc
    rw [decide_eq_true_eq]
    rintro rfl
    exact absurd (hdigit _ hc) (by decide)
  have hdecimal : decimal (Nat.toDigits 10 n.natAbs) = some (n.natAbs, 0) := by
    simp only [decimal, hmantissa, hwhole, hne, false_and, if_false, List.drop_length,
      List.tail_nil, if_true, digits_toDigits, Option.bind_some, Option.map_some, List.append_nil,
      ofDigitChars_toDigits, List.length_nil]
    rfl
  have hlower : (Nat.toDigits 10 n.natAbs).map Char.toLower = Nat.toDigits 10 n.natAbs := by
    have hself : ∀ c ∈ Nat.toDigits 10 n.natAbs, c.toLower = c := by
      intro c hc
      have hrange := hdigit c hc
      rw [Char.isDigit, Bool.and_eq_true, decide_eq_true_eq, decide_eq_true_eq] at hrange
      refine dif_neg ?_
      rintro ⟨hletter, -⟩
      exact absurd (UInt32.le_trans hletter hrange.2) (by decide)
    rw [List.map_congr_left hself]
    exact List.map_id _
  -- a name has a letter
  have hname : ∀ w : Str, ¬ w.all Char.isDigit → Nat.toDigits 10 n.natAbs ≠ w := by
    rintro w hw rfl
    exact hw (List.all_eq_true.mpr hdigit)
  rw [literal, strip_toChars, sign_toChars]
  dsimp only
  rw [hlower, if_neg (not_or.mpr ⟨hname _ (by decide), hname _ (by decide)⟩),
    if_neg (hname _ (by decide)), hdecimal]
  rfl

/-! ## Numbers -/

/-- How texts and integers become numbers of the type that a script's `float` is. -/
class Floating (F : Type) where
  /-- `float(x)` of a text. -/
  ofLiteral : Literal → Option F
  /-- An `int` in an expression with a `float`. One that is out of range is an `OverflowError`. -/
  ofInt : Int → Option F

/-- `float(x)` of a text. -/
def float {F : Type} [Floating F] (s : Str) : Option F := (literal s).bind Floating.ofLiteral

/-- `not x` for a number or `None`. -/
def falsy {F : Type} [OfNat F 0] [BEq F] (x : Option F) : Bool := x.getD 0 == 0

/-- Numbers without rounding. -/
instance : Floating ℚ where
  ofLiteral
    | .decimal negative digits exponent =>
      some ((if negative then -1 else 1) * digits * 10 ^ exponent)
    | _ => none
  ofInt n := some n

/-- Doubles. -/
instance : Floating Float where
  ofLiteral
    | .decimal negative digits exponent =>
      let x := Float.ofScientific digits (exponent < 0) exponent.natAbs
      some (if negative then -x else x)
    | .infinity negative => some (if negative then -1.0 / 0.0 else 1.0 / 0.0)
    | .nan => some (0.0 / 0.0)
  ofInt n :=
    let x := Float.ofInt n
    if x.isFinite then some x else none

/-- `int(x)` of a finite double: what is before the point. -/
def truncate (x : Float) : Int := x.toModel.unpack.toInt 0 0

theorem ofInt_rat (n : Int) : Floating.ofInt n = some (n : ℚ) := rfl

/-- A whole number is read without rounding. -/
theorem float_toChars (n : Int) : float (toChars n) = some (n : ℚ) := by
  rw [float, literal_toChars, Option.bind_some]
  have hvalue : (if n < 0 then -1 else 1) * (n.natAbs : ℚ) = n := by
    rw [← Int.cast_natCast, Int.natCast_natAbs]
    split_ifs with hneg
    · rw [abs_of_neg hneg, Int.cast_neg, neg_one_mul, neg_neg]
    · rw [abs_of_nonneg (not_lt.mp hneg), one_mul]
  simp only [Floating.ofLiteral, zpow_zero, mul_one, decide_eq_true_eq, hvalue]

theorem falsy_rat (x : Option ℚ) : falsy x = true ↔ x.getD 0 = 0 := beq_iff_eq

end LibCollector.Ferret.Python
