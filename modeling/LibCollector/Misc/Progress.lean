import LibCollector.Misc.Run
import Mathlib.Algebra.GroupWithZero.Nat

/-!
# Progress in a run

A run reaches a goal although others act in it: the inputs that count bring the goal nearer, and
each of the others puts it off by a bounded number of steps. There is no other assumption of
fairness than that enough of the inputs count.
-/

namespace LibCollector.Misc

variable {σ ι : Type*} {step : σ → ι → Option σ}

/-- A goal that a run reaches. Each step that counts lowers a rank, and the others raise it by no
more than their delay; the rank may depend on a value that goes with the state. -/
theorem run_reaches {γ : Type*} {I : σ → γ → Prop} {G : σ → Prop} {R : σ → γ → Nat}
    {counts : ι → Bool} {delay : ι → Nat}
    (hstep : ∀ s g i, I s g → ∃ t g', step s i = some t ∧ I t g' ∧ (G s → G t) ∧
      (G s ∨ R t g' + (if counts i then 1 else 0) ≤ R s g + delay i))
    (hzero : ∀ s g, I s g → R s g = 0 → G s) {s : σ} {g : γ} (hs : I s g) (is : List ι) :
    ∃ t, run step s is = some t ∧
      (G s ∨ R s g + (is.map delay).sum ≤ is.countP counts → G t) := by
  induction is generalizing s g with
  | nil =>
    refine ⟨s, rfl, fun hgoal => hgoal.elim id fun hle => ?_⟩
    exact hzero s g hs (Nat.le_zero.mp hle)
  | cons i is ih =>
    obtain ⟨t, g', ht, hinv, hkept, hle⟩ := hstep s g i hs
    obtain ⟨u, hu, hgoal⟩ := ih hinv
    refine ⟨u, run_cons_eq_some.mpr ⟨t, ht, hu⟩, fun henough => hgoal ?_⟩
    by_cases hnow : G s
    · exact Or.inl (hkept hnow)
    · have hleft := henough.resolve_left hnow
      have hnext := hle.resolve_left hnow
      rw [List.map_cons, List.sum_cons, List.countP_cons] at hleft
      right
      omega

end LibCollector.Misc
