import LibCollector.Misc.Text
import Mathlib.Algebra.Ring.Nat
import Mathlib.Data.List.DropRight

/-!
# Formatted input from a string

`sscanf` for the directives `%d`, `%u`, `%lu`, `%s`, `%c` and white space, as glibc converts
numbers that are out of range. A format that prints back with spaces between its fields is
read back field by field (`sscanf_ints`), and a text without enough room for its integers
cannot satisfy a format (`length_of_sscanf`).
-/

namespace LibCollector.Misc

/-- A directive of a format: white space, an integer of some width, a word or a character. -/
inductive Directive where
  | space
  | int (bits : Nat)
  | uint (bits : Nat)
  | word
  | char

/-- What a conversion stores. -/
inductive Scanned where
  | int (n : Int)
  | word (s : Str)
  | char (c : Char)
  deriving DecidableEq

/-- `strtol`, and the conversion to a signed type. -/
def toSigned (bits : Nat) (n : Int) : Int :=
  Int.bmod (max (-9223372036854775808) (min 9223372036854775807 n)) (2 ^ bits)

/-- `strtoul`, and the conversion to an unsigned type. -/
def toUnsigned (bits : Nat) (n : Int) : Int :=
  (if 18446744073709551616 ≤ n.natAbs then 18446744073709551615 else n % 18446744073709551616) %
    2 ^ bits

/-- The integer of a sign and the digits that a text begins with, and what follows them. -/
def scanDigits (negative : Bool) (s : Str) : Option (Int × Str) :=
  if s.takeWhile Char.isDigit = [] then none
  else some (signed (negative, Nat.ofDigitChars 10 (s.takeWhile Char.isDigit) 0),
    s.dropWhile Char.isDigit)

/-- The integer that a text begins with, behind white space, and what follows it. -/
def scanInt (s : Str) : Option (Int × Str) :=
  let s := s.dropWhile isSpace
  scanDigits (s.head? = some '-') (if s.head? = some '-' ∨ s.head? = some '+' then s.tail else s)

/-- The values that `sscanf` stores until a directive fails. -/
def sscanf : List Directive → Str → List Scanned
  | [], _ => []
  | .space :: ds, s => sscanf ds (s.dropWhile isSpace)
  | .int bits :: ds, s =>
    match scanInt s with
    | none => []
    | some (n, rest) => .int (toSigned bits n) :: sscanf ds rest
  | .uint bits :: ds, s =>
    match scanInt s with
    | none => []
    | some (n, rest) => .int (toUnsigned bits n) :: sscanf ds rest
  | .word :: ds, s =>
    let s := s.dropWhile isSpace
    if s = [] then []
    else .word (s.takeWhile (!isSpace ·)) :: sscanf ds (s.dropWhile (!isSpace ·))
  | .char :: ds, s =>
    match s with
    | [] => []
    | c :: rest => .char c :: sscanf ds rest

/-! ## Numbers -/

/-- A text that does not go on with a digit. -/
def NoDigit (s : Str) : Prop := ∀ c ∈ s.head?, c.isDigit = false

theorem noDigit_cons {c : Char} (h : c.isDigit = false) (s : Str) : NoDigit (c :: s) := by
  intro d hd
  cases hd
  exact h

theorem noDigit_dropWhile (s : Str) : NoDigit (s.dropWhile Char.isDigit) := by
  intro c hc
  have hnot := List.head?_dropWhile_not Char.isDigit s
  rw [Option.mem_def.mp hc] at hnot
  simpa using hnot

theorem takeWhile_digits {ds rest : Str} (hds : ∀ c ∈ ds, c.isDigit = true) (hrest : NoDigit rest) :
    (ds ++ rest).takeWhile Char.isDigit = ds ∧ (ds ++ rest).dropWhile Char.isDigit = rest := by
  have hstop : rest.takeWhile Char.isDigit = [] ∧ rest.dropWhile Char.isDigit = rest := by
    cases rest with
    | nil => exact ⟨rfl, rfl⟩
    | cons c rest => simp [hrest c rfl]
  rw [List.takeWhile_append_of_pos hds, List.dropWhile_append_of_pos hds, hstop.1, hstop.2,
    List.append_nil]
  exact ⟨rfl, rfl⟩

/-- Reading back an integer. -/
theorem scanInt_toChars (n : Int) {rest : Str} (hrest : NoDigit rest) :
    scanInt (toChars n ++ rest) = some (n, rest) := by
  have hdigits : ∀ n : Nat, ∀ c ∈ Nat.toDigits 10 n, c.isDigit = true := fun n c =>
    isDigit_of_mem_toDigits
  cases n with
  | ofNat n =>
    obtain ⟨htake, hdrop⟩ := takeWhile_digits (hdigits n) hrest
    obtain ⟨c, cs, hcs⟩ := List.exists_cons_of_ne_nil (Nat.toDigits_ne_nil (n := n) (b := 10))
    have hc : c.isDigit = true := hdigits n c (hcs ▸ List.mem_cons_self)
    have hsign : ∀ d : Char, d.isDigit = false → (Nat.toDigits 10 n ++ rest).head? ≠ some d := by
      intro d hd heq
      rw [hcs, List.cons_append, List.head?_cons, Option.some.injEq] at heq
      rw [heq, hd] at hc
      exact Bool.false_ne_true hc
    have hskip : (Nat.toDigits 10 n ++ rest).dropWhile isSpace = Nat.toDigits 10 n ++ rest := by
      rw [hcs, List.cons_append, List.dropWhile_cons, isSpace_of_isDigit hc,
        if_neg Bool.false_ne_true]
    simp only [scanInt, scanDigits, toChars, hskip, hsign '-' (by decide), hsign '+' (by decide),
      or_self, if_false, htake, hdrop, Nat.toDigits_ne_nil, decide_false,
      Nat.ofDigitChars_toDigits (by decide : 1 < 10) (by decide : 10 ≤ 10)]
    rfl
  | negSucc n =>
    obtain ⟨htake, hdrop⟩ := takeWhile_digits (hdigits (n + 1)) hrest
    have hskip : ('-' :: (Nat.toDigits 10 (n + 1) ++ rest)).dropWhile isSpace =
        '-' :: (Nat.toDigits 10 (n + 1) ++ rest) := by
      rw [List.dropWhile_cons, if_neg (by decide)]
    simp only [scanInt, scanDigits, toChars, List.cons_append, hskip, List.head?_cons, true_or,
      if_true, List.tail_cons, htake, hdrop, Nat.toDigits_ne_nil, if_false, decide_true,
      Nat.ofDigitChars_toDigits (by decide : 1 < 10) (by decide : 10 ≤ 10)]
    rfl

/-- White space before an integer is skipped. -/
theorem scanInt_dropWhile (s : Str) : scanInt (s.dropWhile isSpace) = scanInt s := by
  rw [scanInt, scanInt, List.dropWhile_idempotent]

/-- A character that does not begin an integer. -/
structure NoInt (c : Char) : Prop where
  space : isSpace c = false
  digit : c.isDigit = false
  sign : c ≠ '-' ∧ c ≠ '+'

theorem NoInt.of_isAlpha {c : Char} (h : c.isAlpha = true) : NoInt c := by
  refine ⟨?_, ?_, ?_, ?_⟩
  · rw [← Bool.not_eq_true]
    intro hs
    simp only [isSpace, List.mem_cons, List.not_mem_nil, or_false, decide_eq_true_eq] at hs
    rcases hs with rfl | rfl | rfl | rfl | rfl | rfl <;> exact absurd h (by decide)
  · rw [← Bool.not_eq_true]
    intro hd
    simp only [Char.isDigit, Bool.and_eq_true, decide_eq_true_eq] at hd
    have hhigh : c.toNat ≤ 57 := hd.2
    have hcase : (c.isUpper || c.isLower) = true := h
    rcases Bool.or_eq_true_iff.mp hcase with hupper | hlower
    · have hlow : 65 ≤ c.toNat := (of_decide_eq_true hupper).1
      omega
    · have hboth : (decide (97 ≤ c.val) && decide (c.val ≤ 122)) = true := hlower
      have hlow : 97 ≤ c.toNat := of_decide_eq_true (Bool.and_eq_true_iff.mp hboth).1
      omega
  · rintro rfl
    exact absurd h (by decide)
  · rintro rfl
    exact absurd h (by decide)

/-- An integer before a character `c` takes at least one character, and two if it does not begin
    with a digit. -/
theorem scanInt_length {u v rest : Str} {c : Char} {n : Int} (hc : NoInt c)
    (h : scanInt (u ++ c :: v) = some (n, rest)) : ∃ u', rest = u' ++ c :: v ∧ NoDigit u' ∧
      u'.length < u.length ∧ (NoDigit u → u'.length + 2 ≤ u.length) := by
  have hskip : (u ++ c :: v).dropWhile isSpace = u.dropWhile isSpace ++ c :: v := by
    rw [List.dropWhile_append]
    split_ifs with hall
    · rw [List.isEmpty_iff.mp hall, List.dropWhile_cons, hc.space, if_neg Bool.false_ne_true]
      rfl
    · rfl
  have htake : ∀ w : Str, (w ++ c :: v).takeWhile Char.isDigit = w.takeWhile Char.isDigit ∧
      (w ++ c :: v).dropWhile Char.isDigit = w.dropWhile Char.isDigit ++ c :: v := by
    intro w
    induction w with
    | nil => simp [hc.digit]
    | cons d w ih => by_cases hd : d.isDigit = true <;> simp [hd, ih]
  have hlength : ∀ w : Str, w.takeWhile Char.isDigit ≠ [] →
      (w.dropWhile Char.isDigit).length + 1 ≤ w.length := by
    intro w hne
    have hsplit := congrArg List.length
      (List.takeWhile_append_dropWhile (p := Char.isDigit) (l := w))
    have hpos := List.length_pos_iff.mpr hne
    rw [List.length_append] at hsplit
    omega
  have hblank : (u.dropWhile isSpace).length ≤ u.length := List.length_dropWhile_le _ _
  rw [scanInt, hskip] at h
  cases hw : u.dropWhile isSpace with
  | nil =>
    have hsign : ¬ (some c = some '-' ∨ some c = some '+') := by simp [hc.sign]
    rw [hw, List.nil_append, List.head?_cons, if_neg hsign, scanDigits,
      List.takeWhile_cons_of_neg (by simp [hc.digit]), if_pos rfl] at h
    cases h
  | cons d w =>
    rw [hw, List.length_cons] at hblank
    rw [hw, List.cons_append, List.head?_cons, List.tail_cons] at h
    by_cases hsign : some d = some '-' ∨ some d = some '+'
    · rw [if_pos hsign, scanDigits, (htake w).1, (htake w).2] at h
      split_ifs at h with hdigits
      cases h
      have hle := hlength w hdigits
      exact ⟨_, rfl, noDigit_dropWhile w, by omega, fun _ => by omega⟩
    · rw [if_neg hsign, ← List.cons_append, scanDigits, (htake (d :: w)).1, (htake (d :: w)).2] at h
      split_ifs at h with hdigits
      cases h
      have hle := hlength (d :: w) hdigits
      rw [List.length_cons] at hle
      refine ⟨_, rfl, noDigit_dropWhile (d :: w), by omega, fun hu => ?_⟩
      -- The digit does not stand at the beginning.
      have hd : d.isDigit = true := by
        by_contra hd
        rw [List.takeWhile_cons_of_neg hd] at hdigits
        exact hdigits rfl
      have hlt : (u.dropWhile isSpace).length < u.length := by
        cases u with
        | nil => cases hw
        | cons e u =>
          by_cases he : isSpace e = true
          · rw [List.dropWhile_cons_of_pos he]
            exact Nat.lt_succ_of_le (List.length_dropWhile_le _ _)
          · rw [List.dropWhile_cons_of_neg he] at hw
            cases hw
            have hnot := hu d rfl
            rw [hd] at hnot
            cases hnot
      rw [hw, List.length_cons] at hlt
      omega

/-! ## Unsigned conversions -/

/-- Everything but white space stores a value. -/
def Directive.stores : Directive → Bool
  | .space => false
  | _ => true

/-- What an unsigned conversion stores is not negative. -/
theorem toUnsigned_nonneg (bits : Nat) (n : Int) : 0 ≤ toUnsigned bits n := by
  rw [toUnsigned]
  exact Int.emod_nonneg _ (Int.ne_of_gt (Int.pow_pos (by decide)))

/-- What `%u` and `%lu` store is not negative. -/
theorem sscanf_uint_nonneg {ds : List Directive} {s : Str} {i bits : Nat} {n : Int}
    (hd : (ds.filter Directive.stores)[i]? = some (.uint bits))
    (hv : (sscanf ds s)[i]? = some (.int n)) : 0 ≤ n := by
  fun_induction sscanf ds s generalizing i with
  | case1 => cases hd
  | case2 s ds ih => exact ih hd hv
  | case3 => cases hv
  | case4 s b ds m rest hscan ih =>
    cases i with
    | zero => cases hd
    | succ i => exact ih hd hv
  | case5 => cases hv
  | case6 s b ds m rest hscan ih =>
    cases i with
    | zero =>
      cases hv
      exact toUnsigned_nonneg _ m
    | succ i => exact ih hd hv
  | case7 => cases hv
  | case8 =>
    rename_i ih
    cases i with
    | zero => cases hd
    | succ i => exact ih hd hv
  | case9 => cases hv
  | case10 ds c rest ih =>
    cases i with
    | zero => cases hd
    | succ i => exact ih hd hv

/-! ## Formats of integers -/

/-- The conversion of an integer. -/
def Directive.convert : Directive → Int → Int
  | .int bits => toSigned bits
  | .uint bits => toUnsigned bits
  | _ => id

/-- A directive for an integer. -/
def Directive.IsNumber : Directive → Prop
  | .int _ => True
  | .uint _ => True
  | _ => False

/-- A format with white space before each directive. -/
def spaced (ds : List Directive) : List Directive := ds.flatMap fun d => [.space, d]

theorem sscanf_number {d : Directive} (hd : d.IsNumber) (ds : List Directive) (s : Str) :
    sscanf (.space :: d :: ds) s =
      match scanInt s with
      | none => []
      | some (n, rest) => .int (d.convert n) :: sscanf ds rest := by
  rw [sscanf]
  cases d with
  | int bits => rw [sscanf, scanInt_dropWhile]; rfl
  | uint bits => rw [sscanf, scanInt_dropWhile]; rfl
  | _ => exact absurd hd id

/-- Integers with a space before each are read back. -/
theorem sscanf_ints {ds : List Directive} (hds : ∀ d ∈ ds, d.IsNumber) {ns : List Int}
    (hlen : ds.length ≤ ns.length) {rest : Str} (hrest : NoDigit rest) :
    sscanf (spaced ds) (ns.flatMap (fun n => ' ' :: toChars n) ++ rest) =
      List.zipWith (fun d n => .int (d.convert n)) ds ns := by
  induction ds generalizing ns with
  | nil => rfl
  | cons d ds ih =>
    cases ns with
    | nil => cases hlen
    | cons n ns =>
      have htail : NoDigit (ns.flatMap (fun n => ' ' :: toChars n) ++ rest) := by
        cases ns with
        | nil => exact hrest
        | cons m ns => exact noDigit_cons (by decide) _
      have hscan : scanInt ((n :: ns).flatMap (fun n => ' ' :: toChars n) ++ rest) =
          some (n, ns.flatMap (fun n => ' ' :: toChars n) ++ rest) := by
        rw [List.flatMap_cons, List.append_assoc, List.cons_append, ← scanInt_dropWhile,
          List.dropWhile_cons_of_pos (by decide), scanInt_dropWhile]
        exact scanInt_toChars n htail
      have hformat : spaced (d :: ds) = .space :: d :: spaced ds := rfl
      rw [hformat, sscanf_number (hds d List.mem_cons_self), hscan, List.zipWith_cons_cons]
      dsimp only
      rw [ih (fun e he => hds e (List.mem_cons_of_mem _ he)) (Nat.le_of_succ_le_succ hlen)]

/-- Integers that stand before a character `c` take two characters each, except the first one. -/
theorem length_of_sscanf {c : Char} (hc : NoInt c) {ds : List Directive}
    (hds : ∀ d ∈ ds, d.IsNumber) {u v : Str}
    (h : (sscanf (spaced ds) (u ++ c :: v)).length = ds.length) :
    2 * ds.length ≤ u.length + 1 ∧ (NoDigit u → 2 * ds.length ≤ u.length) := by
  induction ds generalizing u with
  | nil => exact ⟨Nat.zero_le _, fun _ => Nat.zero_le _⟩
  | cons d ds ih =>
    have hformat : spaced (d :: ds) = .space :: d :: spaced ds := rfl
    rw [hformat, sscanf_number (hds d List.mem_cons_self)] at h
    cases hscan : scanInt (u ++ c :: v) with
    | none =>
      rw [hscan] at h
      cases h
    | some r =>
      obtain ⟨n, rest⟩ := r
      obtain ⟨u', rfl, hdigit, hlt, htwo⟩ := scanInt_length hc hscan
      rw [hscan] at h
      have hrest := (ih (fun e he => hds e (List.mem_cons_of_mem _ he)) (Nat.succ.inj h)).2 hdigit
      rw [List.length_cons]
      exact ⟨by omega, fun hu => by have := htwo hu; omega⟩

end LibCollector.Misc
