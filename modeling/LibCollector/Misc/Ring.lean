import Mathlib.Data.List.Basic
import Mathlib.Tactic.Common

/-!
# Ring buffers

A ring of `n` cells, in a memory `Nat → α` whose cells from `n` on are not part of it. A
list is written from a position on, and wraps at the end (`put`); it is read in the same
way (`get`).
-/

namespace LibCollector.Misc.Ring

variable {α : Type*} {n : Nat}

/-- The position `k` cells after a position. -/
def advance (n pos k : Nat) : Nat := (pos + k) % n

/-- How many cells a cell is after a position. -/
def offset (n pos i : Nat) : Nat := if pos ≤ i then i - pos else i + n - pos

/-- The memory with a list written from a position on. -/
def put (n : Nat) (buf : Nat → α) (pos : Nat) (xs : List α) : Nat → α := fun i =>
  if i < n then (xs[offset n pos i]?).getD (buf i) else buf i

/-- What stands in the cells from a position on. -/
def get (n : Nat) (buf : Nat → α) (pos len : Nat) : List α :=
  (List.range len).map fun k => buf (advance n pos k)

/-- A list written into consecutive cells of the memory. -/
def copy (buf : Nat → α) (pos : Nat) (xs : List α) : Nat → α := fun i =>
  if pos ≤ i then (xs[i - pos]?).getD (buf i) else buf i

/-! ## Positions -/

theorem advance_lt {pos k : Nat} (h : pos < n) : advance n pos k < n :=
  Nat.mod_lt _ (Nat.zero_lt_of_lt h)

@[simp] theorem advance_zero {pos : Nat} (h : pos < n) : advance n pos 0 = pos :=
  Nat.mod_eq_of_lt h

theorem advance_advance (pos k l : Nat) :
    advance n (advance n pos k) l = advance n pos (k + l) := by
  rw [advance, advance, advance, Nat.mod_add_mod, Nat.add_assoc]

/-- A position wraps at most once on the way around the ring. -/
theorem advance_eq {pos k : Nat} (h : pos < n) (hk : k ≤ n) :
    advance n pos k = if pos + k < n then pos + k else pos + k - n := by
  rw [advance]
  split_ifs with hlt
  · exact Nat.mod_eq_of_lt hlt
  · rw [Nat.mod_eq_sub_mod (by omega)]
    exact Nat.mod_eq_of_lt (by omega)

theorem offset_lt {pos i : Nat} (h : pos < n) (hi : i < n) : offset n pos i < n := by
  rw [offset]
  split_ifs <;> omega

theorem offset_advance {pos k : Nat} (h : pos < n) (hk : k < n) :
    offset n pos (advance n pos k) = k := by
  rw [advance_eq h (Nat.le_of_lt hk), offset]
  split_ifs <;> omega

theorem advance_offset {pos i : Nat} (h : pos < n) (hi : i < n) :
    advance n pos (offset n pos i) = i := by
  rw [advance_eq h (Nat.le_of_lt (offset_lt h hi)), offset]
  split_ifs <;> omega

/-- The offset from a later position. -/
theorem offset_advance_left {pos k i : Nat} (h : pos < n) (hk : k ≤ n) (hi : i < n) :
    offset n (advance n pos k) i =
      if k ≤ offset n pos i then offset n pos i - k else offset n pos i + n - k := by
  rw [advance_eq h hk, offset, offset]
  split_ifs <;> omega

/-! ## Writing -/

theorem put_of_lt {buf : Nat → α} {pos : Nat} {xs : List α} {i : Nat} (hi : i < n) :
    put n buf pos xs i = (xs[offset n pos i]?).getD (buf i) := if_pos hi

theorem put_of_le {buf : Nat → α} {pos : Nat} {xs : List α} {i : Nat} (hi : n ≤ i) :
    put n buf pos xs i = buf i := if_neg (Nat.not_lt.mpr hi)

@[simp] theorem put_nil (buf : Nat → α) (pos : Nat) : put n buf pos [] = buf := by
  funext i
  simp [put]

/-- No other cell changes. -/
theorem put_other {buf : Nat → α} {pos : Nat} {xs : List α} {i : Nat}
    (h : ∀ k < xs.length, advance n pos k ≠ i) (hpos : pos < n) : put n buf pos xs i = buf i := by
  by_cases hi : i < n
  · rw [put_of_lt hi]
    have hle : xs.length ≤ offset n pos i := by
      by_contra hlt
      exact h _ (Nat.not_le.mp hlt) (advance_offset hpos hi)
    rw [List.getElem?_eq_none hle, Option.getD_none]
  · exact put_of_le (Nat.not_lt.mp hi)

/-- A list that is written in two parts. -/
theorem put_append (buf : Nat → α) {pos : Nat} (h : pos < n) (xs ys : List α)
    (hlen : xs.length + ys.length ≤ n) :
    put n (put n buf pos xs) (advance n pos xs.length) ys = put n buf pos (xs ++ ys) := by
  funext i
  by_cases hi : i < n
  · rw [put_of_lt hi, put_of_lt hi, put_of_lt hi, offset_advance_left h (by omega) hi]
    have hoffset := offset_lt h hi
    by_cases hle : xs.length ≤ offset n pos i
    · rw [if_pos hle, List.getElem?_append_right hle, List.getElem?_eq_none hle, Option.getD_none]
    · rw [if_neg hle, List.getElem?_append_left (Nat.not_le.mp hle),
        List.getElem?_eq_none (l := ys) (by omega), Option.getD_none]
  · rw [put_of_le (Nat.not_lt.mp hi), put_of_le (Nat.not_lt.mp hi), put_of_le (Nat.not_lt.mp hi)]

/-- A list of which the second part is written first. -/
theorem put_append_swap (buf : Nat → α) {pos : Nat} (h : pos < n) (xs ys : List α)
    (hlen : xs.length + ys.length ≤ n) :
    put n (put n buf (advance n pos xs.length) ys) pos xs = put n buf pos (xs ++ ys) := by
  funext i
  by_cases hi : i < n
  · rw [put_of_lt hi, put_of_lt hi, put_of_lt hi, offset_advance_left h (by omega) hi]
    have hoffset := offset_lt h hi
    by_cases hle : xs.length ≤ offset n pos i
    · rw [if_pos hle, List.getElem?_append_right hle, List.getElem?_eq_none hle, Option.getD_none]
    · rw [List.getElem?_append_left (Nat.not_le.mp hle),
        List.getElem?_eq_getElem (Nat.not_le.mp hle), Option.getD_some, Option.getD_some]
  · rw [put_of_le (Nat.not_lt.mp hi), put_of_le (Nat.not_lt.mp hi), put_of_le (Nat.not_lt.mp hi)]

/-- A write to one cell. -/
theorem update_eq_put {buf : Nat → α} {pos : Nat} (h : pos < n) (x : α) :
    Function.update buf pos x = put n buf pos [x] := by
  funext i
  by_cases heq : i = pos
  · subst heq
    rw [Function.update_self, put_of_lt h, offset, if_pos (Nat.le_refl i), Nat.sub_self]
    rfl
  · rw [Function.update_of_ne heq, put_other _ h]
    intro k hk
    rw [List.length_singleton, Nat.lt_one_iff] at hk
    rw [hk, advance_zero h]
    exact Ne.symm heq

/-- Consecutive cells before the end. -/
theorem copy_eq_put {buf : Nat → α} {pos : Nat} {xs : List α} (h : pos + xs.length ≤ n) :
    copy buf pos xs = put n buf pos xs := by
  funext i
  rw [copy]
  by_cases hi : i < n
  · rw [put_of_lt hi, offset]
    split_ifs with hle
    · rfl
    · rw [List.getElem?_eq_none (by omega), Option.getD_none]
  · rw [put_of_le (Nat.not_lt.mp hi)]
    split_ifs with hle
    · rw [List.getElem?_eq_none (by omega), Option.getD_none]
    · rfl

/-- Two copies, the second one at the start of the ring. -/
theorem copy_copy_eq_put {buf : Nat → α} {pos : Nat} (h : pos < n) {xs : List α}
    (hend : n < pos + xs.length) (hlen : xs.length ≤ n) :
    copy (copy buf pos (xs.take (n - pos))) 0 (xs.drop (n - pos)) = put n buf pos xs := by
  have htake : (xs.take (n - pos)).length = n - pos := by
    rw [List.length_take]
    omega
  have hdrop : (xs.drop (n - pos)).length = xs.length - (n - pos) := List.length_drop
  have hzero : advance n pos (n - pos) = 0 := by
    rw [advance_eq h (by omega)]
    split_ifs <;> omega
  have happend := put_append buf h (xs.take (n - pos)) (xs.drop (n - pos)) (by omega)
  rw [htake, hzero, List.take_append_drop] at happend
  rw [copy_eq_put (n := n) (by omega), copy_eq_put (n := n) (by omega), happend]

/-! ## Reading -/

@[simp] theorem length_get (buf : Nat → α) (pos len : Nat) : (get n buf pos len).length = len := by
  simp [get]

theorem getElem?_get {buf : Nat → α} {pos len k : Nat} (h : k < len) :
    (get n buf pos len)[k]? = some (buf (advance n pos k)) := by
  simp [get, h]

theorem get_add (buf : Nat → α) (pos k l : Nat) :
    get n buf pos (k + l) = get n buf pos k ++ get n buf (advance n pos k) l := by
  simp only [get, List.range_add, List.map_append, List.map_map, advance_advance]
  rfl

theorem take_get {buf : Nat → α} {pos k len : Nat} (h : k ≤ len) :
    (get n buf pos len).take k = get n buf pos k := by
  rw [get, ← List.map_take, List.take_range, Nat.min_eq_left h, get]

/-- What is read before the end of the ring. -/
theorem get_of_le {buf : Nat → α} {pos len : Nat} (h : pos + len ≤ n) :
    get n buf pos len = (List.range len).map fun i => buf (pos + i) := by
  apply List.map_congr_left
  intro i hi
  have hlt : i < len := List.mem_range.mp hi
  rw [advance, Nat.mod_eq_of_lt (by omega)]

/-- What was written is read. -/
theorem get_put {buf : Nat → α} {pos : Nat} (h : pos < n) {xs : List α} (hlen : xs.length ≤ n) :
    get n (put n buf pos xs) pos xs.length = xs := by
  apply List.ext_getElem?
  intro k
  by_cases hk : k < xs.length
  · rw [getElem?_get hk, put_of_lt (advance_lt h), offset_advance h (by omega),
      List.getElem?_eq_getElem hk, Option.getD_some]
  · rw [List.getElem?_eq_none (by rw [length_get]; omega), List.getElem?_eq_none (by omega)]

/-- What stands before the cells that are written is read as before. -/
theorem get_put_of_le {buf : Nat → α} {pos len k : Nat} (h : pos < n) {xs : List α} (hlen : len ≤ k)
    (hend : k + xs.length ≤ n) :
    get n (put n buf (advance n pos k) xs) pos len = get n buf pos len := by
  apply List.map_congr_left
  intro i hi
  have hlt : i < len := List.mem_range.mp hi
  apply put_other _ (advance_lt h)
  intro j hj heq
  rw [advance_advance, advance_eq h (by omega), advance_eq h (by omega)] at heq
  split_ifs at heq <;> omega

end LibCollector.Misc.Ring
