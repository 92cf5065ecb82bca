import Mathlib.Data.List.Destutter

/-!
# Consecutive repetitions

The subsequence that a filter with a memory of one value lets through: a value
passes when it differs from the last one. From an empty memory this is
`List.destutter (· ≠ ·)`.
-/

namespace LibCollector.Misc

variable {α : Type*}

theorem getLast?_cons_or (prev : Option α) (a : α) (as : List α) :
    (a :: as).getLast?.or prev = as.getLast?.or (some a) := by
  cases as with
  | nil => rfl
  | cons b as => simp [List.getLast?_cons]

variable [DecidableEq α]

/-- The values of a list that differ from the value before them, when `prev` is the value before
    the first. -/
def withoutRepeats : Option α → List α → List α
  | _, [] => []
  | prev, a :: as =>
    if prev = some a then withoutRepeats prev as else a :: withoutRepeats (some a) as

@[simp] theorem withoutRepeats_nil (prev : Option α) : withoutRepeats prev [] = [] := rfl

/-- What passes of a second list depends on the last value of the first. -/
theorem withoutRepeats_append (prev : Option α) (as bs : List α) :
    withoutRepeats prev (as ++ bs) =
      withoutRepeats prev as ++ withoutRepeats (as.getLast?.or prev) bs := by
  induction as generalizing prev with
  | nil => rfl
  | cons a as ih =>
    rw [List.cons_append, withoutRepeats, withoutRepeats, getLast?_cons_or]
    split
    · rename_i hprev
      rw [ih, hprev]
    · rw [ih, List.cons_append]

/-- After the list, the memory is its last value. -/
theorem getLast?_withoutRepeats (prev : Option α) (as : List α) :
    (withoutRepeats prev as).getLast?.or prev = as.getLast?.or prev := by
  induction as generalizing prev with
  | nil => rfl
  | cons a as ih =>
    rw [withoutRepeats, getLast?_cons_or]
    split
    · rename_i hprev
      rw [ih, hprev]
    · rw [getLast?_cons_or, ih]

theorem withoutRepeats_sublist (prev : Option α) (as : List α) :
    (withoutRepeats prev as).Sublist as := by
  induction as generalizing prev with
  | nil => exact List.Sublist.slnil
  | cons a as ih =>
    rw [withoutRepeats]
    split
    · exact (ih prev).cons a
    · exact (ih (some a)).cons_cons a

/-- Two memories let the same values through exactly when they agree on the first one. -/
theorem withoutRepeats_eq_iff {prev prev' : Option α} {a : α} {as : List α} :
    withoutRepeats prev (a :: as) = withoutRepeats prev' (a :: as) ↔
      (prev = some a ↔ prev' = some a) := by
  -- the rest of the list cannot make up for a value that only one of them has let through
  have hne : withoutRepeats (some a) as ≠ a :: withoutRepeats (some a) as := by
    intro h
    exact absurd (congrArg List.length h) (by simp)
  by_cases h : prev = some a <;> by_cases h' : prev' = some a <;>
    simp [withoutRepeats, h, h', hne, hne.symm]

theorem destutter'_eq_withoutRepeats (a : α) (as : List α) :
    as.destutter' (· ≠ ·) a = a :: withoutRepeats (some a) as := by
  induction as generalizing a with
  | nil => rfl
  | cons b as ih =>
    rw [List.destutter'_cons]
    by_cases h : a = b
    · subst h
      simp [withoutRepeats, ih]
    · simp [withoutRepeats, ih, h]

/-- From an empty memory, the values that pass are those of `List.destutter`. -/
theorem destutter_eq_withoutRepeats (as : List α) :
    as.destutter (· ≠ ·) = withoutRepeats none as := by
  cases as with
  | nil => rfl
  | cons a as => rw [List.destutter_cons', destutter'_eq_withoutRepeats]; simp [withoutRepeats]

end LibCollector.Misc
