import LibCollector.Misc.Grow
import Mathlib.Algebra.Group.Basic
import Mathlib.Algebra.BigOperators.Group.List.Basic
import Mathlib.Data.List.Induction

/-!
# Sums of lists of different lengths

Lists are added up entry by entry in two ways: to the length of the longest one (`Summed`),
and by a pass that lays each list over the sum so far and forgets the entries past its
end (`overlayAll`). The two agree exactly if no list but the last ends where the entries
before it do not cancel (`Lossless`).
-/

namespace LibCollector.Misc

variable {α : Type*} [AddCommGroup α]

/-- The entries of a list, each added to the one at its position in `acc`. -/
def overlay (acc l : List α) : List α := l.zipIdx.map fun e => e.1 + acc.getD e.2 0

/-- Lists laid over each other, from the first on. -/
def overlayAll (lists : List (List α)) : List α := lists.foldl overlay []

/-- The sum of the entries at a position. -/
def column (i : Nat) (lists : List (List α)) : α := (lists.map fun l => l.getD i 0).sum

/-- The list is as long as the longest of the lists, with the sums of their entries. -/
structure Summed (lists : List (List α)) (r : List α) : Prop where
  length : (∀ l ∈ lists, l.length ≤ r.length) ∧ ∃ l ∈ lists, l.length = r.length
  entries : ∀ i, r.getD i 0 = column i lists

/-- At every position, the entries before the last list that has none there cancel. -/
def Cancels (lists : List (List α)) : Prop :=
  ∀ i pre l post, lists = pre ++ l :: post → l.length ≤ i → (∀ l' ∈ post, i < l'.length) →
    column i pre = 0

/-- The last list is a longest one, and the entries that are forgotten on the way cancel. -/
structure Lossless (lists : List (List α)) : Prop where
  longest : ∀ last, lists.getLast? = some last → ∀ l ∈ lists, l.length ≤ last.length
  cancels : Cancels lists

theorem column_concat (i : Nat) (lists : List (List α)) (l : List α) :
    column i (lists ++ [l]) = column i lists + l.getD i 0 := by
  rw [column, List.map_append, List.sum_append, List.map_singleton, List.sum_singleton]
  rfl

theorem column_eq_zero {i : Nat} {lists : List (List α)} (h : ∀ l ∈ lists, l.length ≤ i) :
    column i lists = 0 := by
  apply List.sum_eq_zero
  intro v hv
  rcases List.mem_map.mp hv with ⟨l, hl, rfl⟩
  exact List.getD_eq_default _ _ (h l hl)

theorem length_overlay (acc l : List α) : (overlay acc l).length = l.length := by
  rw [overlay, List.length_map, List.length_zipIdx]

theorem getD_overlay (acc l : List α) (i : Nat) :
    (overlay acc l).getD i 0 = if i < l.length then l.getD i 0 + acc.getD i 0 else 0 := by
  by_cases hi : i < l.length
  · rw [if_pos hi, List.getD_eq_getElem _ _ (by rw [length_overlay]; exact hi),
      List.getD_eq_getElem _ _ hi]
    simp [overlay]
  · rw [if_neg hi]
    apply List.getD_eq_default
    rw [length_overlay]
    omega

theorem overlay_nil (l : List α) : overlay [] l = l := by
  apply List.ext_getElem
  · exact length_overlay [] l
  · intro i hi hi'
    simp [overlay]

theorem overlayAll_concat (lists : List (List α)) (l : List α) :
    overlayAll (lists ++ [l]) = overlay (overlayAll lists) l := by
  rw [overlayAll, List.foldl_append]
  rfl

/-- What is laid over each other has the sum at a position exactly if what was forgotten there
    cancels. -/
theorem getD_overlayAll_eq_iff (lists : List (List α)) (i : Nat) :
    (overlayAll lists).getD i 0 = column i lists ↔
      ∀ pre l post, lists = pre ++ l :: post → l.length ≤ i → (∀ l' ∈ post, i < l'.length) →
        column i pre = 0 := by
  induction lists using List.reverseRecOn with
  | nil => exact iff_of_true rfl fun pre l post h => absurd h (by simp)
  | append_singleton lists last ih =>
    rw [overlayAll_concat, getD_overlay, column_concat]
    by_cases hi : i < last.length
    · rw [if_pos hi, add_comm, add_left_inj, ih]
      constructor
      · intro h pre l post hsplit hl hpost
        rcases List.eq_nil_or_concat post with rfl | ⟨post, l', rfl⟩
        · rcases List.append_inj' hsplit rfl with ⟨-, hlast⟩
          rw [List.singleton_inj.mp hlast] at hi
          omega
        · rw [List.concat_eq_append, ← List.cons_append, ← List.append_assoc] at hsplit
          apply h pre l post (List.append_inj' hsplit rfl).1 hl
          intro l'' hl''
          exact hpost l'' (by simp [hl''])
      · intro h pre l post hsplit hl hpost
        apply h pre l (post ++ [last]) (by rw [hsplit]; simp) hl
        intro l' hl'
        rcases List.mem_append.mp hl' with hl' | hl'
        · exact hpost l' hl'
        · rw [List.mem_singleton.mp hl']
          exact hi
    · rw [if_neg hi, List.getD_eq_default last 0 (by omega), add_zero, eq_comm]
      constructor
      · intro h pre l post hsplit hl hpost
        rcases List.eq_nil_or_concat post with rfl | ⟨post, l', rfl⟩
        · rw [← (List.append_inj' hsplit rfl).1]
          exact h
        · rw [List.concat_eq_append, ← List.cons_append, ← List.append_assoc] at hsplit
          have hlast := List.singleton_inj.mp (List.append_inj' hsplit rfl).2
          have hlt := hpost l' (by simp)
          rw [← hlast] at hlt
          omega
      · intro h
        exact h lists last [] rfl (by omega) fun l' hl' => absurd hl' List.not_mem_nil

/-- Lists are summed by laying them over each other exactly if nothing is lost. -/
theorem summed_overlayAll_iff {lists : List (List α)} (hne : lists ≠ []) :
    Summed lists (overlayAll lists) ↔ Lossless lists := by
  rcases (List.eq_nil_or_concat lists).resolve_left hne with ⟨front, last, rfl⟩
  rw [List.concat_eq_append]
  have hlength : (overlayAll (front ++ [last])).length = last.length := by
    rw [overlayAll_concat, length_overlay]
  have hlast : ∀ l, (front ++ [last]).getLast? = some l ↔ l = last := by
    intro l
    rw [List.getLast?_concat, Option.some_inj, eq_comm]
  constructor
  · intro h
    refine ⟨fun l hl l' hl' => ?_, fun i => (getD_overlayAll_eq_iff _ i).mp (h.entries i)⟩
    rw [(hlast l).mp hl, ← hlength]
    exact h.length.1 l' hl'
  · intro h
    refine ⟨⟨fun l hl => ?_, last, ?_, hlength.symm⟩,
      fun i => (getD_overlayAll_eq_iff _ i).mpr (h.cancels i)⟩
    · rw [hlength]
      exact h.longest last ((hlast last).mpr rfl) l hl
    · exact List.mem_append_right _ (List.mem_singleton_self last)

/-- Nothing is lost if no list is shorter than one before it. -/
theorem lossless_of_growing {lists : List (List α)}
    (h : lists.Pairwise fun l l' => l.length ≤ l'.length) : Lossless lists := by
  constructor
  · intro last hlast l hl
    rcases (List.eq_nil_or_concat lists).resolve_left (List.ne_nil_of_mem hl) with ⟨front, x, rfl⟩
    rw [List.concat_eq_append] at h hl hlast
    rw [List.getLast?_concat, Option.some_inj] at hlast
    subst hlast
    rcases List.mem_append.mp hl with hl | hl
    · exact (List.pairwise_append.mp h).2.2 l hl x (List.mem_singleton_self x)
    · exact Nat.le_of_eq (congrArg List.length (List.mem_singleton.mp hl))
  · intro i pre l post hsplit hl _
    apply column_eq_zero
    intro l' hl'
    rw [hsplit] at h
    exact Nat.le_trans ((List.pairwise_append.mp h).2.2 l' hl' l List.mem_cons_self) hl

end LibCollector.Misc
