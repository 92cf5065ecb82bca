import Mathlib.Tactic.Common

/-!
# Loops

A loop is given by its body, which goes on with another state or leaves the loop with a result
(`Turn`). `loop` runs it for a number of turns, `Returns` says that it is left after some number of
them, and `Visits` which states it comes through. With an invariant and a variant it returns
(`exists_returns`).
-/

namespace LibCollector.Misc

variable {σ ρ : Type*}

/-- What the body of a loop does in one turn. -/
inductive Turn (σ ρ : Type*) where
  | again (s : σ)
  | done (r : ρ)
  deriving DecidableEq

/-- The result of a loop that is left within a number of turns. -/
def loop (body : σ → Turn σ ρ) : Nat → σ → Option ρ
  | 0, _ => none
  | fuel + 1, s =>
    match body s with
    | .again t => loop body fuel t
    | .done r => some r

/-- The loop is left with a result. -/
def Returns (body : σ → Turn σ ρ) (s : σ) (r : ρ) : Prop := ∃ fuel, loop body fuel s = some r

/-- The states at the beginning of the turns. -/
inductive Visits (body : σ → Turn σ ρ) (s : σ) : σ → Prop
  | start : Visits body s s
  | turn {t u : σ} : Visits body s t → body t = .again u → Visits body s u

variable {body : σ → Turn σ ρ} {s t : σ} {r r' : ρ}

theorem loop_again (h : body s = .again t) (fuel : Nat) :
    loop body (fuel + 1) s = loop body fuel t := by
  rw [loop, h]

theorem loop_done (h : body s = .done r) (fuel : Nat) : loop body (fuel + 1) s = some r := by
  rw [loop, h]

theorem returns_of_done (h : body s = .done r) : Returns body s r := ⟨1, loop_done h 0⟩

theorem Returns.again (ht : Returns body t r) (h : body s = .again t) : Returns body s r := by
  obtain ⟨fuel, hfuel⟩ := ht
  exact ⟨fuel + 1, (loop_again h fuel).trans hfuel⟩

/-- More turns do not change the result. -/
theorem loop_eq_of_le {fuel more : Nat} (h : loop body fuel s = some r) (hle : fuel ≤ more) :
    loop body more s = some r := by
  induction fuel generalizing s more with
  | zero => cases h
  | succ fuel ih =>
    obtain ⟨more, rfl⟩ : ∃ m, more = m + 1 := ⟨more - 1, by omega⟩
    cases hb : body s with
    | again t =>
      rw [loop_again hb] at h ⊢
      exact ih h (Nat.le_of_succ_le_succ hle)
    | done r =>
      rw [loop_done hb] at h ⊢
      exact h

theorem Returns.unique (h : Returns body s r) (h' : Returns body s r') : r = r' := by
  obtain ⟨fuel, hfuel⟩ := h
  obtain ⟨fuel', hfuel'⟩ := h'
  have hmax := loop_eq_of_le hfuel (Nat.le_max_left fuel fuel')
  rw [loop_eq_of_le hfuel' (Nat.le_max_right fuel fuel')] at hmax
  exact (Option.some.inj hmax).symm

theorem returns_iff (h : Returns body s r) : Returns body s r' ↔ r' = r := by
  constructor
  · exact fun h' => h'.unique h
  · rintro rfl
    exact h

/-- What the body keeps holds in every state of the loop. -/
theorem Visits.invariant {I : σ → Prop} (hbody : ∀ s t, I s → body s = .again t → I t)
    (hs : I s) (h : Visits body s t) : I t := by
  induction h with
  | start => exact hs
  | turn _ hagain ih => exact hbody _ _ ih hagain

/-- A loop whose body keeps an invariant and lowers a variant is left, with a result that has what
    the body ensures when it leaves. -/
theorem exists_returns {I : σ → Prop} {Q : ρ → Prop} (variant : σ → Nat)
    (hagain : ∀ s t, I s → body s = .again t → I t ∧ variant t < variant s)
    (hdone : ∀ s r, I s → body s = .done r → Q r) (hs : I s) : ∃ r, Returns body s r ∧ Q r := by
  induction hv : variant s using Nat.strongRecOn generalizing s with
  | _ v ih =>
    cases hb : body s with
    | again t =>
      obtain ⟨ht, hlt⟩ := hagain s t hs hb
      obtain ⟨r, hr, hQ⟩ := ih (variant t) (by omega) ht rfl
      exact ⟨r, hr.again hb, hQ⟩
    | done r => exact ⟨r, returns_of_done hb, hdone s r hs hb⟩

end LibCollector.Misc
