import Mathlib.Data.List.Infix
import Mathlib.Tactic.Common

/-!
# Occurrences of a list in another one

Where a pattern stands in a text, and the shifts with which a search may go on after it has looked
at the last element of a window: a `SafeShift` is positive and never larger than the distance from
the end of the pattern to an earlier place of the element, so no occurrence is passed over
(`SafeShift.add_le`).
-/

namespace LibCollector.Misc

variable {α : Type*} {p t : List α} {j k : Nat}

/-- The pattern stands in the text at a position. -/
def OccursAt (p t : List α) (k : Nat) : Prop := p <+: t.drop k

instance [DecidableEq α] (p t : List α) (k : Nat) : Decidable (OccursAt p t k) :=
  inferInstanceAs (Decidable (_ <+: _))

theorem infix_iff_exists_occursAt : p <:+: t ↔ ∃ k, OccursAt p t k := by
  rw [List.infix_iff_prefix_suffix]
  constructor
  · rintro ⟨s, hstem, hsuffix⟩
    rw [List.suffix_iff_eq_drop.mp hsuffix] at hstem
    exact ⟨_, hstem⟩
  · rintro ⟨k, hk⟩
    exact ⟨t.drop k, hk, List.drop_suffix k t⟩

theorem OccursAt.add_length_le (h : OccursAt p t k) (hp : p ≠ []) : k + p.length ≤ t.length := by
  have hle := h.length_le
  have hpos := List.length_pos_iff.mpr hp
  rw [List.length_drop] at hle
  omega

theorem OccursAt.getElem? (h : OccursAt p t k) {i : Nat} (hi : i < p.length) :
    t[k + i]? = p[i]? := by
  obtain ⟨s, hs⟩ := h
  rw [← List.getElem?_drop, ← hs, List.getElem?_append_left hi]

/-- The last element is compared, then the ones before it. -/
theorem occursAt_iff (hp : p ≠ []) (hk : k + p.length ≤ t.length) :
    OccursAt p t k ↔ p[p.length - 1]? = t[k + p.length - 1]? ∧
      (t.drop k).take (p.length - 1) = p.take (p.length - 1) := by
  obtain ⟨m, hm⟩ : ∃ m, p.length = m + 1 :=
    ⟨p.length - 1, by have := List.length_pos_iff.mpr hp; omega⟩
  have hsplit : ∀ l : List α, l.take (m + 1) = l.take m ++ l[m]?.toList :=
    fun l => List.take_add_one
  have hlen : (p.take m).length = ((t.drop k).take m).length := by
    rw [List.length_take, List.length_take, List.length_drop]
    omega
  have hwhole : p.take m ++ p[m]?.toList = p := by
    rw [← hsplit, ← hm, List.take_length]
  rw [OccursAt, List.prefix_iff_eq_take, hm, hsplit]
  show p = _ ↔ p[m]? = t[k + m]? ∧ (t.drop k).take m = p.take m
  rw [← List.getElem?_drop]
  constructor
  · intro heq
    obtain ⟨htake, hlast⟩ := List.append_inj (hwhole.trans heq) hlen
    have hheads := congrArg List.head? hlast
    rw [Option.head?_toList, Option.head?_toList] at hheads
    exact ⟨hheads, htake.symm⟩
  · rintro ⟨hlast, htake⟩
    rw [htake, ← hlast, hwhole]

/-- Where the pattern stands first. -/
def firstOccurrence [DecidableEq α] (p t : List α) : Option Nat :=
  (List.range (t.length + 1)).find? fun k => OccursAt p t k

theorem firstOccurrence_eq_some_iff [DecidableEq α] (hp : p ≠ []) :
    firstOccurrence p t = some k ↔ OccursAt p t k ∧ ∀ i < k, ¬ OccursAt p t i := by
  rw [firstOccurrence, List.find?_range_eq_some, List.mem_range, decide_eq_true_eq]
  simp only [Bool.not_eq_true', decide_eq_false_iff_not]
  refine and_congr_right fun hocc => and_iff_right ?_
  have hle := hocc.add_length_le hp
  omega

theorem exists_firstOccurrence [DecidableEq α] (hp : p ≠ []) (h : OccursAt p t k) :
    ∃ i, firstOccurrence p t = some i := by
  rw [← Option.isSome_iff_exists, firstOccurrence, List.find?_isSome]
  have hle := h.add_length_le hp
  exact ⟨k, List.mem_range.mpr (by omega), decide_eq_true h⟩

/-- A pattern at the end of the text. -/
theorem suffix_iff_occursAt :
    p <:+ t ↔ OccursAt p t (t.length - p.length) ∧ p.length ≤ t.length := by
  constructor
  · rintro ⟨s, rfl⟩
    refine ⟨?_, ?_⟩
    · rw [OccursAt, List.length_append, Nat.add_sub_cancel, List.drop_left]
    · rw [List.length_append]
      exact Nat.le_add_left _ _
  · rintro ⟨hocc, hle⟩
    have heq := hocc.eq_of_length (by rw [List.length_drop]; omega)
    exact ⟨_, (congrArg (t.take (t.length - p.length) ++ ·) heq).trans (List.take_append_drop ..)⟩

/-- Shifts that depend on the last element of the window in the text. -/
structure SafeShift (p : List α) (shift : α → Int) : Prop where
  pos : ∀ a, 0 < shift a
  le_length : ∀ a, shift a ≤ p.length
  le_dist : ∀ i a, i + 1 < p.length → p[i]? = some a → shift a ≤ p.length - 1 - i

/-- The next occurrence is at the shifted position at the earliest. -/
theorem SafeShift.add_le {shift : α → Int} (h : SafeShift p shift) (hp : p ≠ [])
    (hocc : OccursAt p t k) (hjk : j < k) {a : α} (ha : t[j + p.length - 1]? = some a) :
    j + shift a ≤ k := by
  have hpos := List.length_pos_iff.mpr hp
  by_cases hfar : j + p.length ≤ k
  · have hle := h.le_length a
    omega
  · -- The element stands in the occurrence, before its last place.
    have hplace := @OccursAt.getElem? _ _ _ _ hocc (j + p.length - 1 - k) (by omega)
    have hindex : k + (j + p.length - 1 - k) = j + p.length - 1 := by omega
    rw [hindex, ha] at hplace
    have hdist := h.le_dist _ a (by omega) hplace.symm
    omega

end LibCollector.Misc
