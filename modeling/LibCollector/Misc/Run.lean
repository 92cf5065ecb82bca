import Mathlib.Data.List.Infix

/-!
# Runs of a partial step function

A machine is a step function `σ → ι → Option σ` over inputs `ι`; a step that is
`none` ends the process (a failed assertion, an uncaught exception) and the rest
of the run does not happen. `run` iterates it. Two things are said about a run:
what holds in its last state (`run_invariant`), and which steps it makes
(`StepsMeet`, a condition on the state before each step and on the step's input).
-/

namespace LibCollector.Misc

variable {σ ι : Type*} {step : σ → ι → Option σ}

/-- The state after the inputs `is`, or `none` when one of the steps ends the process. -/
def run (step : σ → ι → Option σ) (s : σ) (is : List ι) : Option σ :=
  is.foldlM step s

@[simp] theorem run_nil (s : σ) : run step s [] = some s := rfl

@[simp] theorem run_cons (s : σ) (i : ι) (is : List ι) :
    run step s (i :: is) = (step s i).bind fun t => run step t is := rfl

theorem run_cons_eq_some {s u : σ} {i : ι} {is : List ι} :
    run step s (i :: is) = some u ↔ ∃ t, step s i = some t ∧ run step t is = some u := by
  rw [run_cons, Option.bind_eq_some_iff]

theorem run_append (s : σ) (is js : List ι) :
    run step s (is ++ js) = (run step s is).bind fun t => run step t js := by
  simp only [run, List.foldlM_append]
  rfl

theorem run_append_eq_some {s u : σ} {is js : List ι} :
    run step s (is ++ js) = some u ↔
      ∃ t, run step s is = some t ∧ run step t js = some u := by
  rw [run_append, Option.bind_eq_some_iff]

theorem run_concat_eq_some {s u : σ} {is : List ι} {i : ι} :
    run step s (is ++ [i]) = some u ↔ ∃ t, run step s is = some t ∧ step t i = some u := by
  simp [run_append_eq_some]

/-- A run whose steps only fail on inputs outside `P`. -/
theorem run_of_guard {P : ι → Prop} [DecidablePred P] {next : σ → ι → σ}
    (hstep : ∀ s i, step s i = if P i then some (next s i) else none) (s : σ) (is : List ι) :
    run step s is = if ∀ i ∈ is, P i then some (is.foldl next s) else none := by
  induction is generalizing s with
  | nil => simp
  | cons i is ih =>
    rw [run_cons, hstep]
    by_cases hi : P i
    · simp [hi, ih]
    · simp [hi]

/-- A property that every step keeps holds at the end of a run from a state where it holds. -/
theorem run_invariant {I : σ → Prop} (hstep : ∀ s i t, I s → step s i = some t → I t)
    {s u : σ} {is : List ι} (hs : I s) (h : run step s is = some u) : I u := by
  induction is generalizing s with
  | nil =>
    cases h
    exact hs
  | cons i is ih =>
    obtain ⟨t, ht, hu⟩ := run_cons_eq_some.mp h
    exact ih (hstep s i t hs ht) hu

/-- `run_invariant` for a property that only the inputs of this run need to keep. -/
theorem run_invariant_of_mem {I : σ → Prop} {s u : σ} {is : List ι}
    (hstep : ∀ i ∈ is, ∀ s t, I s → step s i = some t → I t)
    (hs : I s) (h : run step s is = some u) : I u := by
  induction is generalizing s with
  | nil =>
    cases h
    exact hs
  | cons i is ih =>
    obtain ⟨t, ht, hu⟩ := run_cons_eq_some.mp h
    exact ih (fun j hj => hstep j (List.mem_cons_of_mem _ hj))
      (hstep i List.mem_cons_self s t hs ht) hu

/-- Every step of the run from `s` over `is` meets `C`, a condition on the state before the
step and on the step's input. -/
def StepsMeet (step : σ → ι → Option σ) (C : σ → ι → Prop) : σ → List ι → Prop
  | _, [] => True
  | s, i :: is => C s i ∧ ∀ t, step s i = some t → StepsMeet step C t is

instance decidableStepsMeet {C : σ → ι → Prop} [∀ s i, Decidable (C s i)] :
    ∀ (s : σ) (is : List ι), Decidable (StepsMeet step C s is)
  | _, [] => isTrue trivial
  | s, i :: is =>
    match h : step s i with
    | none => decidable_of_iff (C s i) (by simp [StepsMeet, h])
    | some t =>
      let _ := decidableStepsMeet (C := C) t is
      decidable_of_iff (C s i ∧ StepsMeet step C t is) (by simp [StepsMeet, h])

theorem stepsMeet_iff {C : σ → ι → Prop} {s : σ} {is : List ι} :
    StepsMeet step C s is ↔
      ∀ pre i post, is = pre ++ i :: post → ∀ t, run step s pre = some t → C t i := by
  induction is generalizing s with
  | nil => simp [StepsMeet]
  | cons j js ih =>
    constructor
    · rintro ⟨hj, hrest⟩ pre i post hsplit t ht
      cases pre with
      | nil =>
        cases ht
        obtain ⟨rfl, -⟩ := List.cons.inj hsplit
        exact hj
      | cons p pre =>
        obtain ⟨rfl, htail⟩ := List.cons.inj hsplit
        obtain ⟨t', ht', hrun⟩ := run_cons_eq_some.mp ht
        exact ih.mp (hrest t' ht') pre i post htail t hrun
    · intro h
      refine ⟨h [] j js rfl s rfl, fun t ht => ih.mpr ?_⟩
      intro pre i post hsplit u hu
      exact h (j :: pre) i post (by rw [hsplit]; rfl) u (run_cons_eq_some.mpr ⟨t, ht, hu⟩)

/-- The steps of a run's beginning. -/
theorem StepsMeet.of_append {C : σ → ι → Prop} {s : σ} {is js : List ι}
    (h : StepsMeet step C s (is ++ js)) : StepsMeet step C s is := by
  induction is generalizing s with
  | nil => trivial
  | cons i is ih => exact ⟨h.1, fun t ht => ih (h.2 t ht)⟩

theorem stepsMeet_of_mem {C : σ → ι → Prop} {is : List ι} (h : ∀ i ∈ is, ∀ s, C s i) (s : σ) :
    StepsMeet step C s is := by
  induction is generalizing s with
  | nil => trivial
  | cons i is ih =>
    exact ⟨h i List.mem_cons_self s,
      fun t _ => ih (fun j hj => h j (List.mem_cons_of_mem _ hj)) t⟩

theorem stepsMeet_and {C D : σ → ι → Prop} {s : σ} {is : List ι} :
    StepsMeet step (fun s i => C s i ∧ D s i) s is ↔
      StepsMeet step C s is ∧ StepsMeet step D s is := by
  simp only [stepsMeet_iff]
  constructor
  · intro h
    exact ⟨fun pre i post hsplit t ht => (h pre i post hsplit t ht).1,
      fun pre i post hsplit t ht => (h pre i post hsplit t ht).2⟩
  · rintro ⟨hC, hD⟩ pre i post hsplit t ht
    exact ⟨hC pre i post hsplit t ht, hD pre i post hsplit t ht⟩

/-- A property that every step that meets a condition keeps holds at the end of a run of them. -/
theorem StepsMeet.run_invariant {I : σ → Prop} {C : σ → ι → Prop}
    (hstep : ∀ s i t, I s → C s i → step s i = some t → I t) {s u : σ} {is : List ι}
    (hmeet : StepsMeet step C s is) (hs : I s) (h : run step s is = some u) : I u := by
  induction is generalizing s with
  | nil =>
    cases h
    exact hs
  | cons i is ih =>
    obtain ⟨t, ht, hu⟩ := run_cons_eq_some.mp h
    exact ih (hmeet.2 t ht) (hstep s i t hs hmeet.1 ht) hu

/-- Where a step keeps an invariant if and only if it meets a condition, the invariant holds in
every state of a run if and only if every step meets the condition. -/
theorem invariant_iff_stepsMeet {I : σ → Prop} {C : σ → ι → Prop}
    (hstep : ∀ s i t, I s → step s i = some t → (I t ↔ C s i)) {s : σ} {is : List ι} (hs : I s)
    (h : (run step s is).isSome) :
    (∀ pre post, is = pre ++ post → ∀ t, run step s pre = some t → I t) ↔
      StepsMeet step C s is := by
  induction is generalizing s with
  | nil =>
    refine iff_of_true (fun pre post hsplit t ht => ?_) trivial
    obtain ⟨rfl, -⟩ := List.append_eq_nil_iff.mp hsplit.symm
    cases ht
    exact hs
  | cons i is ih =>
    obtain ⟨u, hu⟩ := Option.isSome_iff_exists.mp h
    obtain ⟨t, ht, hrest⟩ := run_cons_eq_some.mp hu
    have hsome : (run step t is).isSome := Option.isSome_iff_exists.mpr ⟨u, hrest⟩
    constructor
    · intro hall
      have hone : I t := hall [i] is rfl t (run_cons_eq_some.mpr ⟨t, ht, rfl⟩)
      refine ⟨(hstep s i t hs ht).mp hone, fun t' ht' => ?_⟩
      obtain rfl := Option.some.inj (ht.symm.trans ht')
      refine (ih hone hsome).mp fun pre post hsplit v hv => ?_
      exact hall (i :: pre) post (by rw [hsplit]; rfl) v (run_cons_eq_some.mpr ⟨t, ht, hv⟩)
    · rintro ⟨hmeet, hmeets⟩ pre post hsplit v hv
      cases pre with
      | nil =>
        cases hv
        exact hs
      | cons j pre =>
        obtain ⟨rfl, htail⟩ := List.cons.inj hsplit
        obtain ⟨t', ht', hv⟩ := run_cons_eq_some.mp hv
        obtain rfl := Option.some.inj (ht.symm.trans ht')
        have hone : I t := (hstep s i t hs ht).mpr hmeet
        exact (ih hone hsome).mpr (hmeets t ht) pre post htail v hv

/-- A condition that implies another one in the states of an invariant. -/
theorem StepsMeet.imp {I : σ → Prop} {C D : σ → ι → Prop}
    (hinv : ∀ s i t, I s → step s i = some t → I t) (himp : ∀ s i, I s → C s i → D s i) {s : σ}
    {is : List ι} (hs : I s) (h : StepsMeet step C s is) : StepsMeet step D s is := by
  induction is generalizing s with
  | nil => trivial
  | cons i is ih => exact ⟨himp s i hs h.1, fun t ht => ih (hinv s i t hs ht) (h.2 t ht)⟩

/-- A run is completed, and keeps a property, if every step that meets a condition does. -/
theorem exists_run_of_stepsMeet {I : σ → Prop} {C : σ → ι → Prop}
    (hstep : ∀ s i, I s → C s i → ∃ t, step s i = some t ∧ I t) {s : σ} {is : List ι} (hs : I s)
    (hmeet : StepsMeet step C s is) : ∃ u, run step s is = some u ∧ I u := by
  induction is generalizing s with
  | nil => exact ⟨s, rfl, hs⟩
  | cons i is ih =>
    obtain ⟨hi, hrest⟩ := hmeet
    obtain ⟨t, ht, hinv⟩ := hstep s i hs hi
    obtain ⟨u, hu, hinv'⟩ := ih hinv (hrest t ht)
    exact ⟨u, run_cons_eq_some.mpr ⟨t, ht, hu⟩, hinv'⟩

/-- Two conditions that agree in the states of an invariant, where one of them keeps it, agree on
the runs of a machine whose steps meet `L`. -/
theorem stepsMeet_congr_of_invariant {I : σ → Prop} {L C D : σ → ι → Prop}
    (hiff : ∀ s i, I s → L s i → (C s i ↔ D s i))
    (hinv : ∀ s i t, I s → L s i → D s i → step s i = some t → I t) {s : σ} {is : List ι}
    (hs : I s) (hmeet : StepsMeet step L s is) :
    StepsMeet step C s is ↔ StepsMeet step D s is := by
  induction is generalizing s with
  | nil => exact Iff.rfl
  | cons i is ih =>
    obtain ⟨hi, hrest⟩ := hmeet
    rw [StepsMeet, StepsMeet, hiff s i hs hi]
    refine and_congr_right fun hD => forall₂_congr fun t ht => ?_
    exact ih (hinv s i t hs hi hD ht) (hrest t ht)

/-! ## Positions of a list -/

/-- `Q` holds at every position of the list, for what stands before it and what stands there. -/
def EachSplit (Q : List ι → ι → Prop) (is : List ι) : Prop :=
  ∀ pre i post, is = pre ++ i :: post → Q pre i

/-- `Q` holds at some position of the list. -/
def SomeSplit (Q : List ι → ι → Prop) (is : List ι) : Prop :=
  ∃ pre i post, is = pre ++ i :: post ∧ Q pre i

@[simp] theorem eachSplit_nil (Q : List ι → ι → Prop) : EachSplit Q [] := by
  intro pre i post h
  exact absurd h (by simp)

@[simp] theorem not_someSplit_nil (Q : List ι → ι → Prop) : ¬ SomeSplit Q [] := by
  rintro ⟨pre, i, post, h, -⟩
  exact absurd h (by simp)

theorem eachSplit_cons {Q : List ι → ι → Prop} {i : ι} {is : List ι} :
    EachSplit Q (i :: is) ↔ Q [] i ∧ EachSplit (fun pre j => Q (i :: pre) j) is := by
  constructor
  · intro h
    exact ⟨h [] i is rfl, fun pre j post heq => h (i :: pre) j post (by rw [heq]; rfl)⟩
  · rintro ⟨hi, his⟩ pre j post heq
    cases pre with
    | nil =>
      obtain ⟨rfl, -⟩ := List.cons.inj heq
      exact hi
    | cons p pre =>
      obtain ⟨rfl, htail⟩ := List.cons.inj heq
      exact his pre j post htail

theorem eachSplit_concat {Q : List ι → ι → Prop} {is : List ι} {i : ι} :
    EachSplit Q (is ++ [i]) ↔ EachSplit Q is ∧ Q is i := by
  constructor
  · intro h
    refine ⟨fun pre j post heq => h pre j (post ++ [i]) ?_, h is i [] rfl⟩
    rw [heq, List.append_assoc, List.cons_append]
  · rintro ⟨his, hi⟩ pre j post heq
    rcases List.eq_nil_or_concat post with rfl | ⟨post, k, rfl⟩
    · obtain ⟨rfl, hlast⟩ := List.append_inj' heq rfl
      rw [← List.singleton_inj.mp hlast]
      exact hi
    · rw [List.concat_eq_append, ← List.cons_append, ← List.append_assoc] at heq
      exact his pre j post (List.append_inj' heq rfl).1

theorem not_eachSplit {Q : List ι → ι → Prop} {is : List ι} :
    ¬ EachSplit Q is ↔ SomeSplit (fun pre i => ¬ Q pre i) is := by
  simp only [EachSplit, SomeSplit, not_forall, exists_prop]

theorem someSplit_cons {Q : List ι → ι → Prop} {i : ι} {is : List ι} :
    SomeSplit Q (i :: is) ↔ Q [] i ∨ SomeSplit (fun pre j => Q (i :: pre) j) is := by
  have h : ¬ EachSplit (fun pre j => ¬ Q pre j) (i :: is) ↔
      ¬ (¬ Q [] i ∧ EachSplit (fun pre j => ¬ Q (i :: pre) j) is) := not_congr eachSplit_cons
  simp only [not_and_or, not_eachSplit, not_not] at h
  exact h

end LibCollector.Misc
