import Mathlib.Data.List.GetD
import Mathlib.Tactic.Common

/-!
# Vectors that grow on demand

A vector that is indexed by numbers of unknown size: an index past the end first grows
it to a length that depends on the index, and fails where that length is too small.
-/

namespace LibCollector.Misc

variable {α : Type*}

/-- The first `n` elements of a list, filled up with `a` if it has fewer. -/
def resizeWith (a : α) (n : Nat) (l : List α) : List α :=
  l.take n ++ List.replicate (n - l.length) a

/-- The list, grown to length `size i` if it has no element at `i`. -/
def growTo (size : Nat → Nat) (a : α) (i : Nat) (l : List α) : List α :=
  if l.length ≤ i then resizeWith a (size i) l else l

/-- The element at `i` is replaced, in the list that is grown to have it. -/
def modifyGrown (size : Nat → Nat) (a : α) (i : Nat) (f : α → α) (l : List α) : Option (List α) :=
  (growTo size a i l)[i]?.map fun v => (growTo size a i l).set i (f v)

theorem length_resizeWith (a : α) (n : Nat) (l : List α) : (resizeWith a n l).length = n := by
  rw [resizeWith, List.length_append, List.length_take, List.length_replicate]
  omega

/-- To grow a list changes no element, if `a` is what is read past the end. -/
theorem getD_resizeWith {a : α} {n : Nat} {l : List α} (h : l.length ≤ n) (j : Nat) :
    (resizeWith a n l).getD j a = l.getD j a := by
  rw [resizeWith, List.take_of_length_le h]
  by_cases hj : j < l.length
  · rw [List.getD_append _ _ _ _ hj]
  · rw [List.getD_append_right _ _ _ _ (by omega), List.getD_eq_default l a (by omega)]
    by_cases hrest : j - l.length < n - l.length
    · rw [List.getD_replicate _ hrest]
    · apply List.getD_eq_default
      rw [List.length_replicate]
      omega

theorem length_growTo (size : Nat → Nat) (a : α) (i : Nat) (l : List α) :
    (growTo size a i l).length = if l.length ≤ i then size i else l.length := by
  unfold growTo
  split
  · exact length_resizeWith a _ l
  · rfl

/-- There is an element to replace unless the list is too short and grows too little. -/
theorem modifyGrown_isSome {size : Nat → Nat} {a : α} {i : Nat} {f : α → α} {l : List α} :
    (modifyGrown size a i f l).isSome ↔ i < l.length ∨ i < size i := by
  rw [modifyGrown, Option.isSome_map, isSome_getElem?, length_growTo]
  split <;> omega

/-- Only the element at `i` changes. -/
theorem getD_modifyGrown {size : Nat → Nat} {a : α} {i : Nat} {f : α → α} {l l' : List α}
    (h : modifyGrown size a i f l = some l') (j : Nat) :
    l'.getD j a = if j = i then f (l.getD i a) else l.getD j a := by
  rcases Option.map_eq_some_iff.mp h with ⟨v, hv, rfl⟩
  have hlt : i < (growTo size a i l).length := (List.getElem?_eq_some_iff.mp hv).1
  have hgrown : ∀ k, (growTo size a i l).getD k a = l.getD k a := by
    intro k
    unfold growTo at hlt ⊢
    split
    · rename_i hshort
      rw [if_pos hshort, length_resizeWith] at hlt
      apply getD_resizeWith
      omega
    · rfl
  have hvalue : v = l.getD i a := by
    rw [← hgrown, List.getD_eq_getElem?_getD, hv, Option.getD_some]
  rw [List.getD_eq_getElem?_getD, List.getElem?_set]
  by_cases hj : j = i
  · rw [if_pos hj.symm, if_pos (hj ▸ hlt), if_pos hj, Option.getD_some, hvalue]
  · rw [if_neg (Ne.symm hj), if_neg hj, ← List.getD_eq_getElem?_getD, hgrown]

/-- A list does not get shorter. -/
theorem le_length_modifyGrown {size : Nat → Nat} {a : α} {i : Nat} {f : α → α} {l l' : List α}
    (h : modifyGrown size a i f l = some l') : l.length ≤ l'.length := by
  rcases Option.map_eq_some_iff.mp h with ⟨v, hv, rfl⟩
  have hlt := (List.getElem?_eq_some_iff.mp hv).1
  rw [length_growTo] at hlt
  rw [List.length_set, length_growTo]
  split at hlt <;> split <;> omega

/-- A list that can be indexed everywhere below a bound stays within it. -/
theorem length_modifyGrown_le {size : Nat → Nat} {bound : Nat} (hsize : ∀ i, size i ≤ bound) {a : α}
    {i : Nat} {f : α → α} {l l' : List α} (hl : l.length ≤ bound)
    (h : modifyGrown size a i f l = some l') : l'.length ≤ bound := by
  rcases Option.map_eq_some_iff.mp h with ⟨v, -, rfl⟩
  rw [List.length_set, length_growTo]
  split
  · exact hsize i
  · exact hl

end LibCollector.Misc
