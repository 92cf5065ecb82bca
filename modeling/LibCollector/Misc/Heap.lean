import Mathlib.Logic.Function.Basic
import Mathlib.Tactic.Common

/-!
# Objects behind pointers

A `Heap` holds the objects that have been allocated and not deleted yet. A pointer is the number
of an allocation, so a pointer to a deleted object never equals one to a later object. A map from
keys to pointers `Owns` its objects when every pointer in it is to an object that is still there,
and no two keys share one.
-/

namespace LibCollector.Misc

variable {α κ : Type*}

/-- The objects of the heap, by the number of their allocation. -/
structure Heap (α : Type*) where
  next : Nat
  cell : Nat → Option α
  unused : ∀ ptr, next ≤ ptr → cell ptr = none

namespace Heap

theorem unused_new (heap : Heap α) (a : α) (ptr : Nat) (h : heap.next + 1 ≤ ptr) :
    Function.update heap.cell heap.next (some a) ptr = none := by
  rw [Function.update_of_ne (by omega)]
  exact heap.unused ptr (by omega)

theorem unused_delete (heap : Heap α) (old ptr : Nat) (h : heap.next ≤ ptr) :
    Function.update heap.cell old none ptr = none := by
  rw [Function.update_apply]
  split_ifs
  · rfl
  · exact heap.unused ptr h

/-- Nothing has been allocated. -/
def empty : Heap α := ⟨0, fun _ => none, fun _ _ => rfl⟩

/-- `new`; the pointer it returns is `next`. -/
def new (heap : Heap α) (a : α) : Heap α :=
  ⟨heap.next + 1, Function.update heap.cell heap.next (some a), unused_new heap a⟩

/-- `delete`. -/
def delete (heap : Heap α) (ptr : Nat) : Heap α :=
  ⟨heap.next, Function.update heap.cell ptr none, unused_delete heap ptr⟩

theorem lt_next {heap : Heap α} {ptr : Nat} {a : α} (h : heap.cell ptr = some a) :
    ptr < heap.next := by
  by_contra hge
  rw [heap.unused ptr (by omega)] at h
  cases h

@[simp] theorem cell_new_next (heap : Heap α) (a : α) : (heap.new a).cell heap.next = some a :=
  Function.update_self _ _ _

/-- An object stays where it is when another one is allocated. -/
theorem cell_new {heap : Heap α} {ptr : Nat} {b : α} (h : heap.cell ptr = some b) (a : α) :
    (heap.new a).cell ptr = some b := by
  have hne : ptr ≠ heap.next := Nat.ne_of_lt (lt_next h)
  exact (Function.update_of_ne hne _ _).trans h

theorem cell_delete_of_ne (heap : Heap α) {old ptr : Nat} (h : ptr ≠ old) :
    (heap.delete old).cell ptr = heap.cell ptr :=
  Function.update_of_ne h _ _

end Heap

/-! ## Maps of pointers -/

section maps

variable [DecidableEq κ] {map : κ → Option Nat} {k : κ} {ptr : Nat}

theorem update_some_eq_some_iff {new : Nat} {k' : κ} :
    Function.update map k (some new) k' = some ptr ↔
      (k' = k ∧ new = ptr) ∨ (k' ≠ k ∧ map k' = some ptr) := by
  rw [Function.update_apply]
  split_ifs with heq <;> simp [heq]

theorem update_none_eq_some_iff {k' : κ} :
    Function.update map k none k' = some ptr ↔ k' ≠ k ∧ map k' = some ptr := by
  rw [Function.update_apply]
  split_ifs with heq <;> simp [heq]

theorem isSome_update_some {new : Nat} {k' : κ} :
    (Function.update map k (some new) k').isSome ↔ k' = k ∨ (map k').isSome := by
  rw [Function.update_apply]
  split_ifs with heq <;> simp [heq]

theorem isSome_update_none {k' : κ} :
    (Function.update map k none k').isSome ↔ k' ≠ k ∧ (map k').isSome := by
  rw [Function.update_apply]
  split_ifs with heq <;> simp [heq]

end maps

/-- The values of the map are pointers to objects that satisfy `P`, a different one for each key. -/
structure Owns (map : κ → Option Nat) (heap : Heap α) (P : α → Prop) : Prop where
  object : ∀ k ptr, map k = some ptr → ∃ a, heap.cell ptr = some a ∧ P a
  inj : ∀ k k' ptr, map k = some ptr → map k' = some ptr → k = k'

namespace Owns

variable {map : κ → Option Nat} {heap : Heap α} {P : α → Prop}

theorem empty : Owns (fun _ : κ => none) (Heap.empty : Heap α) P where
  object _ _ h := absurd h.symm (Option.some_ne_none _)
  inj _ _ _ h _ := absurd h.symm (Option.some_ne_none _)

theorem lt_next (h : Owns map heap P) {k : κ} {ptr : Nat} (hk : map k = some ptr) :
    ptr < heap.next := by
  obtain ⟨a, ha, -⟩ := h.object k ptr hk
  exact Heap.lt_next ha

variable [DecidableEq κ]

/-- A new object is stored under a key. -/
theorem insert (h : Owns map heap P) (k : κ) {a : α} (ha : P a) :
    Owns (Function.update map k (some heap.next)) (heap.new a) P := by
  refine ⟨fun k₁ ptr h₁ => ?_, fun k₁ k₂ ptr h₁ h₂ => ?_⟩
  · rcases update_some_eq_some_iff.mp h₁ with ⟨-, rfl⟩ | ⟨-, hold⟩
    · exact ⟨a, Heap.cell_new_next heap a, ha⟩
    · obtain ⟨b, hb, hP⟩ := h.object k₁ ptr hold
      exact ⟨b, Heap.cell_new hb a, hP⟩
  · rcases update_some_eq_some_iff.mp h₁ with ⟨rfl, rfl⟩ | ⟨-, hold₁⟩ <;>
      rcases update_some_eq_some_iff.mp h₂ with ⟨rfl, hnew⟩ | ⟨-, hold₂⟩
    · rfl
    · exact absurd (h.lt_next hold₂) (Nat.lt_irrefl _)
    · subst hnew
      exact absurd (h.lt_next hold₁) (Nat.lt_irrefl _)
    · exact h.inj k₁ k₂ ptr hold₁ hold₂

/-- A key is erased and its object deleted. -/
theorem erase (h : Owns map heap P) {k : κ} {old : Nat} (hk : map k = some old) :
    Owns (Function.update map k none) (heap.delete old) P := by
  refine ⟨fun k₁ ptr h₁ => ?_, fun k₁ k₂ ptr h₁ h₂ => ?_⟩
  · obtain ⟨hne, hold⟩ := update_none_eq_some_iff.mp h₁
    obtain ⟨a, ha, hP⟩ := h.object k₁ ptr hold
    have hptr : ptr ≠ old := by
      rintro rfl
      exact hne (h.inj k₁ k ptr hold hk)
    exact ⟨a, (Heap.cell_delete_of_ne heap hptr).trans ha, hP⟩
  · exact h.inj k₁ k₂ ptr (update_none_eq_some_iff.mp h₁).2 (update_none_eq_some_iff.mp h₂).2

/-- To store a new object changes the map. -/
theorem update_ne (h : Owns map heap P) (k : κ) :
    Function.update map k (some heap.next) ≠ map := by
  intro heq
  have hk := congrFun heq k
  rw [Function.update_self] at hk
  exact absurd (h.lt_next hk.symm) (Nat.lt_irrefl _)

end Owns

end LibCollector.Misc
