import LibCollector.Misc.Run

/-!
# Machines that are driven in cycles

A machine that makes a record in each step (`recordAll`), and is driven in cycles. The cycles of
a machine are independent of each other when each of them records what a fresh machine records
on the same readings (`OwnCycles`).
-/

namespace LibCollector.Misc

variable {σ τ ρ α : Type*}

/-- The state after a step for each reading, and what the steps have recorded. -/
def recordAll (collect : σ → ρ → Option (σ × α)) : σ → List ρ → Option (σ × List α)
  | s, [] => some (s, [])
  | s, r :: rs =>
    (collect s r).bind fun t => (recordAll collect t.1 rs).map fun u => (u.1, t.2 :: u.2)

/-- What every step keeps holds after all of them. -/
theorem recordAll_invariant {I : σ → Prop} {collect : σ → ρ → Option (σ × α)}
    (hstep : ∀ s r t, I s → collect s r = some t → I t.1) {s : σ} {rs : List ρ}
    {u : σ × List α} (hs : I s) (h : recordAll collect s rs = some u) : I u.1 := by
  induction rs generalizing s u with
  | nil =>
    cases h
    exact hs
  | cons r rs ih =>
    obtain ⟨t, ht, hrest⟩ := Option.bind_eq_some_iff.mp h
    obtain ⟨v, hv, rfl⟩ := Option.map_eq_some_iff.mp hrest
    have hlast : I v.1 := ih (hstep s r t hs ht) hv
    exact hlast

/-- Two outcomes that record the same and leave related states. -/
def SameRecord (R : σ → τ → Prop) : Option (σ × α) → Option (τ × α) → Prop :=
  Option.Rel fun s t => R s.1 t.1 ∧ s.2 = t.2

theorem SameRecord.map_snd {R : σ → τ → Prop} {s : Option (σ × α)} {t : Option (τ × α)}
    (h : SameRecord R s t) : s.map Prod.snd = t.map Prod.snd := by
  cases h with
  | none => rfl
  | some h => exact congrArg some h.2

/-- Machines whose related states record the same in a step record the same in a cycle. -/
theorem SameRecord.recordAll {R : σ → τ → Prop} {collect : σ → ρ → Option (σ × α)}
    {collect' : τ → ρ → Option (τ × α)}
    (hstep : ∀ s t r, R s t → SameRecord R (collect s r) (collect' t r)) {s : σ} {t : τ}
    (h : R s t) (rs : List ρ) :
    SameRecord R (recordAll collect s rs) (Misc.recordAll collect' t rs) := by
  induction rs generalizing s t with
  | nil => exact .some ⟨h, rfl⟩
  | cons r rs ih =>
    have hrel := hstep s t r h
    rw [Misc.recordAll, Misc.recordAll]
    cases hs : collect s r with
    | none =>
      rw [hs] at hrel
      cases ht : collect' t r with
      | none => exact .none
      | some t' =>
        rw [ht] at hrel
        cases hrel
    | some s' =>
      rw [hs] at hrel
      cases ht : collect' t r with
      | none =>
        rw [ht] at hrel
        cases hrel
      | some t' =>
        rw [ht] at hrel
        obtain ⟨hR, hrecord⟩ := Option.rel_some_some.mp hrel
        have hrest := ih hR
        rw [Option.bind_some, Option.bind_some, hrecord]
        generalize Misc.recordAll collect s'.1 rs = u at hrest
        generalize Misc.recordAll collect' t'.1 rs = v at hrest
        cases hrest with
        | none => exact .none
        | some h => exact .some ⟨h.1, congrArg (_ :: ·) h.2⟩

/-! ## Independent cycles -/

/-- The state after a cycle. -/
def afterCycle (cycle : σ → ρ → Option (σ × α)) (s : σ) (r : ρ) : Option σ :=
  (cycle s r).map Prod.fst

/-- What a cycle records. -/
def recorded (cycle : σ → ρ → Option (σ × α)) (s : σ) (r : ρ) : Option α :=
  (cycle s r).map Prod.snd

/-- Each cycle records what the fresh machine would have recorded on the readings of this cycle. -/
def OwnCycles (cycle : σ → ρ → Option (σ × α)) (fresh : σ) (rs : List ρ) : Prop :=
  StepsMeet (afterCycle cycle) (fun s r => recorded cycle s r = recorded cycle fresh r) fresh rs

instance decidableOwnCycles [DecidableEq α] (cycle : σ → ρ → Option (σ × α)) (fresh : σ)
    (rs : List ρ) : Decidable (OwnCycles cycle fresh rs) :=
  decidableStepsMeet fresh rs

/-- Cycles are independent if each meets a condition that makes it so. -/
theorem ownCycles_of_stepsMeet {cycle : σ → ρ → Option (σ × α)} {fresh : σ} {rs : List ρ}
    {I : σ → Prop} {C : σ → ρ → Prop} (hfresh : I fresh)
    (hinv : ∀ s r t, I s → afterCycle cycle s r = some t → I t)
    (hcond : ∀ s r, I s → C s r → recorded cycle s r = recorded cycle fresh r)
    (h : StepsMeet (afterCycle cycle) C fresh rs) : OwnCycles cycle fresh rs :=
  StepsMeet.imp hinv hcond hfresh h

theorem ownCycles_iff {cycle : σ → ρ → Option (σ × α)} {fresh : σ} {rs : List ρ}
    {I : σ → Prop} {C : σ → ρ → Prop} (hfresh : I fresh)
    (hinv : ∀ s r t, I s → afterCycle cycle s r = some t → I t)
    (hcond : ∀ s r, I s → (recorded cycle s r = recorded cycle fresh r ↔ C s r)) :
    OwnCycles cycle fresh rs ↔ StepsMeet (afterCycle cycle) C fresh rs :=
  ⟨StepsMeet.imp hinv (fun s r hs => (hcond s r hs).mp) hfresh,
    StepsMeet.imp hinv (fun s r hs => (hcond s r hs).mpr) hfresh⟩

end LibCollector.Misc
