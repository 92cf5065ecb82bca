import Mathlib.Algebra.Order.Ring.Int
import Mathlib.Tactic.Common
import Mathlib.Tactic.Ring

/-!
# Signed LEB128

An integer as bytes of seven bits each, lowest first; every byte but the last has its high
bit set, and the sign is that of the last byte. An integer of `7 * n` bits takes at most
`n` bytes, and is read back from them whatever follows.
-/

namespace LibCollector.Misc.Leb128

/-- The low seven bits. -/
def low (x : Int) : Nat := (x % 128).toNat

/-- Whether nothing but the sign is left above the low seven bits. -/
def Last (x : Int) : Prop := (x / 128 = 0 ∧ low x < 64) ∨ (x / 128 = -1 ∧ 64 ≤ low x)

instance (x : Int) : Decidable (Last x) := inferInstanceAs (Decidable (_ ∨ _))

/-- The bytes of an integer, at most `n` of them. -/
def encode : Nat → Int → List UInt8
  | 0, _ => []
  | n + 1, x => if Last x then [.ofNat (low x)] else .ofNat (low x + 128) :: encode n (x / 128)

/-- The integer that some bytes start with, and the bytes after it. -/
def decode : List UInt8 → Option (Int × List UInt8)
  | [] => none
  | b :: bs =>
    if b.toNat < 64 then some (b.toNat, bs)
    else if b.toNat < 128 then some ((b.toNat : Int) - 128, bs)
    else (decode bs).map fun r => ((b.toNat : Int) - 128 + 128 * r.1, r.2)

/-- The integers that fit into `n + 1` bytes. -/
def Fits (n : Nat) (x : Int) : Prop := -(64 * 128 ^ n) ≤ x ∧ x < 64 * 128 ^ n

instance (n : Nat) (x : Int) : Decidable (Fits n x) := inferInstanceAs (Decidable (_ ∧ _))

theorem low_lt (x : Int) : low x < 128 := by
  rw [low]
  omega

theorem low_add (x : Int) : (low x : Int) + 128 * (x / 128) = x := by
  rw [low]
  omega

/-- The integers that fit into one byte end there. -/
theorem last_iff {x : Int} : Last x ↔ Fits 0 x := by
  rw [Last, Fits, low, pow_zero]
  omega

/-- One byte less is needed above the low seven bits. -/
theorem fits_div {n : Nat} {x : Int} : Fits n (x / 128) ↔ Fits (n + 1) x := by
  rw [Fits, Fits, pow_succ]
  omega

theorem Fits.succ {n : Nat} {x : Int} (h : Fits n x) : Fits (n + 1) x := by
  have hpos : (0 : Int) ≤ 128 ^ n := pow_nonneg (by decide) n
  rcases h with ⟨hlow, hhigh⟩
  rw [Fits, pow_succ]
  constructor <;> omega

theorem length_encode_le (n : Nat) (x : Int) : (encode n x).length ≤ n := by
  induction n generalizing x with
  | zero => exact Nat.le_refl 0
  | succ n ih =>
    rw [encode]
    split_ifs
    · simp
    · simpa using ih (x / 128)

/-- The last byte. -/
theorem decode_last {x : Int} (h : Last x) (rest : List UInt8) :
    decode (.ofNat (low x) :: rest) = some (x, rest) := by
  have hlt := low_lt x
  have hadd := low_add x
  have hbyte : (UInt8.ofNat (low x)).toNat = low x :=
    UInt8.toNat_ofNat_of_lt' (Nat.lt_trans hlt (by decide))
  rw [decode, hbyte]
  rcases h with ⟨hdiv, hsmall⟩ | ⟨hdiv, hlarge⟩
  · rw [if_pos hsmall]
    rw [hdiv] at hadd
    rw [show (low x : Int) = x by omega]
  · rw [if_neg (by omega), if_pos hlt]
    rw [hdiv] at hadd
    rw [show (low x : Int) - 128 = x by omega]

/-- A byte before the last one. -/
theorem decode_more {x : Int} {bytes rest : List UInt8}
    (h : decode bytes = some (x / 128, rest)) :
    decode (.ofNat (low x + 128) :: bytes) = some (x, rest) := by
  have hlt := low_lt x
  have hadd := low_add x
  have hbyte : (UInt8.ofNat (low x + 128)).toNat = low x + 128 :=
    UInt8.toNat_ofNat_of_lt' (Nat.add_lt_add_right hlt 128)
  rw [decode, hbyte, if_neg (by omega), if_neg (by omega), h, Option.map_some]
  dsimp only
  rw [show ((low x + 128 : Nat) : Int) - 128 + 128 * (x / 128) = x by omega]

/-- What was encoded is read back. -/
theorem decode_encode {n : Nat} {x : Int} (h : Fits n x) (rest : List UInt8) :
    decode (encode (n + 1) x ++ rest) = some (x, rest) := by
  induction n generalizing x with
  | zero =>
    have hlast := last_iff.mpr h
    rw [encode, if_pos hlast]
    exact decode_last hlast rest
  | succ n ih =>
    rw [encode]
    split_ifs with hlast
    · exact decode_last hlast rest
    · exact decode_more (ih (fits_div.mpr h))

/-- The encoding is as short as possible. -/
theorem length_encode_le_iff {n m : Nat} (hm : m ≤ n) (x : Int) :
    (encode (n + 1) x).length ≤ m + 1 ↔ m = n ∨ Fits m x := by
  induction n generalizing m x with
  | zero =>
    rw [Nat.le_zero.mp hm]
    exact iff_of_true (length_encode_le 1 x) (Or.inl rfl)
  | succ n ih =>
    rw [encode]
    split_ifs with hlast
    · have hfits : Fits m x := by
        clear ih hm
        induction m with
        | zero => exact last_iff.mp hlast
        | succ m ih => exact ih.succ
      exact iff_of_true (by simp) (Or.inr hfits)
    · cases m with
      | zero =>
        have hne : encode (n + 1) (x / 128) ≠ [] := by
          rw [encode]
          split_ifs <;> simp
        have hlength := List.length_pos_iff.mpr hne
        rw [List.length_cons]
        constructor
        · omega
        · intro h
          rcases h with heq | hfits
          · cases heq
          · exact absurd (last_iff.mpr hfits) hlast
      | succ m =>
        rw [List.length_cons, Nat.add_le_add_iff_right, ih (by omega), fits_div,
          Nat.add_right_cancel_iff]

/-- The least number of bytes that an integer fits into, but at most `n + 1`. -/
def size (n : Nat) (x : Int) : Nat :=
  ((List.range n).find? fun m => Fits m x).getD n + 1

theorem size_le (n : Nat) (x : Int) : size n x ≤ n + 1 := by
  rw [size, Nat.add_le_add_iff_right]
  cases hfind : (List.range n).find? fun m => Fits m x with
  | none => exact Nat.le_refl n
  | some m => exact Nat.le_of_lt (List.mem_range.mp (List.mem_of_find?_eq_some hfind))

/-- The encoding has this size. -/
theorem length_encode (n : Nat) (x : Int) : (encode (n + 1) x).length = size n x := by
  have hpos : 0 < (encode (n + 1) x).length := by
    rw [encode]
    split_ifs <;> simp
  rw [size]
  cases hfind : (List.range n).find? fun m => Fits m x with
  | none =>
    have hle := length_encode_le (n + 1) x
    rw [Option.getD_none]
    cases n with
    | zero => omega
    | succ n =>
      have hmore := length_encode_le_iff (Nat.le_add_right n 1) x
      have hnot : ¬ Fits n x := by
        have hnone := List.find?_eq_none.mp hfind n List.self_mem_range_succ
        simpa using hnone
      have hlt := mt hmore.mp (not_or.mpr ⟨by omega, hnot⟩)
      omega
  | some m =>
    rcases List.find?_range_eq_some.mp hfind with ⟨hfits, hm, hless⟩
    have hm := List.mem_range.mp hm
    have hle := (length_encode_le_iff (Nat.le_of_lt hm) x).mpr (Or.inr (of_decide_eq_true hfits))
    rw [Option.getD_some]
    cases m with
    | zero => omega
    | succ m =>
      have hmore := length_encode_le_iff (show m ≤ n by omega) x
      have hnot : ¬ Fits m x := by
        have hnone := hless m (Nat.lt_succ_self m)
        simpa using hnone
      have hlt := mt hmore.mp (not_or.mpr ⟨by omega, hnot⟩)
      omega

end LibCollector.Misc.Leb128
