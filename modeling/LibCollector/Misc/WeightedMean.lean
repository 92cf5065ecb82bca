import Mathlib.Algebra.Order.BigOperators.Group.List
import Mathlib.Algebra.Order.Ring.Int
import Mathlib.Tactic.Linarith

/-!
# Weighted means of integers

The truncated mean of a list of values under weights that are not negative: it lies between the
values, and the weighted sum of positive values tells whether there is a weight at all.
-/

namespace LibCollector.Misc

/-- The sum of the values `fs`, each times its weight. -/
def weightedSum (ws fs : List Int) : Int := (List.zipWith (· * ·) ws fs).sum

@[simp] theorem weightedSum_nil (fs : List Int) : weightedSum [] fs = 0 := rfl

@[simp] theorem weightedSum_cons (w f : Int) (ws fs : List Int) :
    weightedSum (w :: ws) (f :: fs) = w * f + weightedSum ws fs := by
  simp [weightedSum]

theorem sum_mul_le_weightedSum {ws fs : List Int} {lo : Int} (hlen : ws.length = fs.length)
    (hws : ∀ w ∈ ws, 0 ≤ w) (hlo : ∀ f ∈ fs, lo ≤ f) : ws.sum * lo ≤ weightedSum ws fs := by
  induction ws generalizing fs with
  | nil => simp
  | cons w ws ih =>
    cases fs with
    | nil => cases hlen
    | cons f fs =>
      rw [List.forall_mem_cons] at hws hlo
      have hhead := mul_le_mul_of_nonneg_left hlo.1 hws.1
      have htail := ih (Nat.succ.inj hlen) hws.2 hlo.2
      rw [List.sum_cons, weightedSum_cons, add_mul]
      exact add_le_add hhead htail

theorem weightedSum_le_sum_mul {ws fs : List Int} {hi : Int} (hlen : ws.length = fs.length)
    (hws : ∀ w ∈ ws, 0 ≤ w) (hhi : ∀ f ∈ fs, f ≤ hi) : weightedSum ws fs ≤ ws.sum * hi := by
  induction ws generalizing fs with
  | nil => simp
  | cons w ws ih =>
    cases fs with
    | nil => cases hlen
    | cons f fs =>
      rw [List.forall_mem_cons] at hws hhi
      have hhead := mul_le_mul_of_nonneg_left hhi.1 hws.1
      have htail := ih (Nat.succ.inj hlen) hws.2 hhi.2
      rw [List.sum_cons, weightedSum_cons, add_mul]
      exact add_le_add hhead htail

/-- Without a weight the sum is zero. -/
theorem weightedSum_eq_zero {ws : List Int} (h : ∀ w ∈ ws, w = 0) (fs : List Int) :
    weightedSum ws fs = 0 := by
  induction ws generalizing fs with
  | nil => rfl
  | cons w ws ih =>
    rw [List.forall_mem_cons] at h
    cases fs with
    | nil => rfl
    | cons f fs => rw [weightedSum_cons, h.1, ih h.2, zero_mul, zero_add]

/-- There is some weight. -/
theorem sum_pos_of_weight {ws : List Int} (hws : ∀ w ∈ ws, 0 ≤ w) (h : ∃ w ∈ ws, w ≠ 0) :
    0 < ws.sum := by
  obtain ⟨w, hw, hne⟩ := h
  have hle := List.single_le_sum hws w hw
  have hnonneg := hws w hw
  omega

/-- With some weight the sum of positive values is positive. -/
theorem weightedSum_pos {ws fs : List Int} (hlen : ws.length = fs.length)
    (hws : ∀ w ∈ ws, 0 ≤ w) (hfs : ∀ f ∈ fs, 0 < f) (h : ∃ w ∈ ws, w ≠ 0) :
    0 < weightedSum ws fs := by
  have hsum := sum_pos_of_weight hws h
  have hle := sum_mul_le_weightedSum hlen hws hfs
  linarith

/-- The truncated mean of positive values is between two of them. -/
theorem tdiv_weightedSum_mem_Icc {ws fs : List Int} (hlen : ws.length = fs.length)
    (hws : ∀ w ∈ ws, 0 ≤ w) (hfs : ∀ f ∈ fs, 0 < f) (h : ∃ w ∈ ws, w ≠ 0) :
    (∃ f ∈ fs, f ≤ (weightedSum ws fs).tdiv ws.sum) ∧
      ∃ f ∈ fs, (weightedSum ws fs).tdiv ws.sum ≤ f := by
  have hsum := sum_pos_of_weight hws h
  have hpos := weightedSum_pos hlen hws hfs h
  have hne : fs ≠ [] := by
    rintro rfl
    obtain rfl := List.eq_nil_of_length_eq_zero hlen
    exact absurd hpos (lt_irrefl 0)
  rw [Int.tdiv_eq_ediv_of_nonneg hpos.le]
  constructor
  · refine ⟨fs.min hne, List.min_mem hne, (Int.le_ediv_iff_mul_le hsum).mpr ?_⟩
    rw [mul_comm]
    exact sum_mul_le_weightedSum hlen hws fun f hf => List.min_le_of_mem hf
  · refine ⟨fs.max hne, List.max_mem hne, Int.ediv_le_of_le_mul hsum ?_⟩
    rw [mul_comm]
    exact weightedSum_le_sum_mul hlen hws fun f hf => List.le_max_of_mem hf

end LibCollector.Misc
