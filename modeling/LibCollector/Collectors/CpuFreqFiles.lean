import LibCollector.Collectors.CpuFreq
import LibCollector.Misc.Run

/-!
# The files of the cpufreq collector

The handles in the cores of `CPUFreqCollector`, from `init()` to the destructors. A `FILE *` is the
number of the `fopen` call that has returned it; which files there are is an input. What a call of
`fclose` with a null pointer does is not modelled, only that it is made.
-/

namespace LibCollector.Collectors

open LibCollector.Misc

/-- A `FILE *`; `none` is the null pointer. -/
abbrev FilePtr := Option Nat

/-- The handles of a `Core`. -/
structure CoreFiles where
  timeInState : FilePtr
  freqFile : FilePtr
  deriving DecidableEq

/-- The cores, the number of files that have been opened, the arguments of `fclose`, and the
    handles that the destructors of the cores have found. -/
structure FreqFiles where
  mCores : List CoreFiles := []
  opened : Nat := 0
  closed : List FilePtr := []
  destroyed : List CoreFiles := []
  deriving DecidableEq

/-- The calls of `fclose` that `deinit` makes for a core. -/
def CoreFiles.closing (c : CoreFiles) : List FilePtr :=
  if c.timeInState.isSome then [c.timeInState, c.freqFile] else [c.freqFile]

/-- The handles that `deinit` leaves in a core: only one that is not null already is assigned to. -/
def CoreFiles.closedDown (c : CoreFiles) : CoreFiles where
  timeInState := if c.timeInState.isSome then none else c.timeInState
  freqFile := none

namespace FreqFiles

/-- The calls of `fclose` that `deinit` makes. -/
def closing (s : FreqFiles) : List FilePtr := s.mCores.flatMap CoreFiles.closing

/-- `CPUFreqCollector::deinit`. -/
def deinit (s : FreqFiles) : FreqFiles :=
  { s with mCores := s.mCores.map CoreFiles.closedDown, closed := s.closed ++ s.closing }

/-- The cores are destroyed. -/
def clear (s : FreqFiles) : FreqFiles :=
  { s with mCores := [], destroyed := s.destroyed ++ s.mCores }

/-- An iteration of the loop of `init`, for a core with or without a `time_in_state` file. -/
def openCore (s : FreqFiles) (hasTis : Bool) : FreqFiles :=
  let cf := s.opened
  let tis := if hasTis then some (s.opened + 1) else none
  { s with
    mCores := s.mCores ++ [⟨tis, some cf⟩]
    opened := s.opened + if hasTis then 2 else 1 }

/-- `CPUFreqCollector::init`, for the cores that have a `scaling_cur_freq` file. -/
def init (cores : List Bool) (s : FreqFiles) : FreqFiles := cores.foldl openCore s.deinit.clear

/-- The end of the collector: `Collection::~Collection` calls `deinit`, then the cores go. -/
def destruct (s : FreqFiles) : FreqFiles := s.deinit.clear

/-- The calls that may come in any order. -/
inductive Call
  | init (cores : List Bool)
  | deinit
  deriving DecidableEq

/-- What a call does. -/
def call (s : FreqFiles) : Call → FreqFiles
  | .init cores => s.init cores
  | .deinit => s.deinit

/-- The life of a collector. -/
def life (calls : List Call) : FreqFiles := (calls.foldl call {}).destruct

/-- `fclose` has been called once for each opened file and never with a null pointer, and the
    destructors have found null pointers. -/
structure ClosedOnce (s : FreqFiles) : Prop where
  once : ∀ file < s.opened, s.closed.count (some file) = 1
  nonNull : none ∉ s.closed
  destroyed : ∀ c ∈ s.destroyed, c.timeInState = none ∧ c.freqFile = none

/-- The number of cores after a call, for the number before it. -/
def coresAfter (found : Nat) : Call → Nat
  | .init cores => cores.length
  | .deinit => found

/-- No `deinit()` is called on its own after an `init()` that has found a core. -/
def NoOwnDeinit (found : Nat) (calls : List Call) : Prop :=
  EachSplit (fun before c => c = .deinit → before.foldl coresAfter found = 0) calls

/-! ## The files that are still open -/

/-- Every opened file is closed or waits in a core, once. -/
structure Inv (s : FreqFiles) : Prop where
  once : ∀ file, (s.closed ++ s.closing).count (some file) = if file < s.opened then 1 else 0
  nonNull : none ∉ s.closed ++ s.closing
  destroyed : ∀ c ∈ s.destroyed, c.timeInState = none ∧ c.freqFile = none

theorem inv_empty : Inv {} where
  once _ := rfl
  nonNull := List.not_mem_nil
  destroyed _ h := absurd h List.not_mem_nil

/-- The destructors of the cores find null pointers, whatever has been called before. -/
theorem closedDown_eq (c : CoreFiles) : c.closedDown = ⟨none, none⟩ := by
  rw [CoreFiles.closedDown]
  cases c.timeInState <;> rfl

theorem Inv.destruct {s : FreqFiles} (h : s.Inv) : s.destruct.Inv where
  once file := by
    have hclosing : s.destruct.closing = [] := rfl
    rw [hclosing, List.append_nil]
    exact h.once file
  nonNull := by
    have hclosing : s.destruct.closing = [] := rfl
    rw [hclosing, List.append_nil]
    exact h.nonNull
  destroyed c hc := by
    rcases List.mem_append.mp hc with hc | hc
    · exact h.destroyed c hc
    · obtain ⟨c', -, rfl⟩ := List.mem_map.mp hc
      rw [closedDown_eq]
      exact ⟨rfl, rfl⟩

theorem closing_openCore (s : FreqFiles) (hasTis : Bool) :
    (s.openCore hasTis).closing =
      s.closing ++ if hasTis then [some (s.opened + 1), some s.opened] else [some s.opened] := by
  rw [closing, openCore, List.flatMap_append, ← closing]
  cases hasTis <;> rfl

theorem Inv.openCore {s : FreqFiles} (h : s.Inv) (hasTis : Bool) : (s.openCore hasTis).Inv where
  once file := by
    have hold := h.once file
    rw [closing_openCore, ← List.append_assoc, List.count_append]
    show (s.closed ++ s.closing).count (some file) + _ =
      if file < s.opened + (if hasTis then 2 else 1) then 1 else 0
    rw [hold]
    cases hasTis
    · simp only [Bool.false_eq_true, if_false, List.count_singleton, beq_iff_eq,
        Option.some.injEq]
      split_ifs <;> omega
    · simp only [if_true, List.count_cons, List.count_nil, beq_iff_eq, Option.some.injEq]
      split_ifs <;> omega
  nonNull := by
    rw [closing_openCore, ← List.append_assoc]
    show none ∉ s.closed ++ s.closing ++ _
    cases hasTis <;> simpa using h.nonNull
  destroyed := h.destroyed

theorem Inv.init {s : FreqFiles} (h : s.Inv) (cores : List Bool) : (s.init cores).Inv :=
  List.foldlRecOn cores FreqFiles.openCore h.destruct fun _ ht hasTis _ => ht.openCore hasTis

theorem mCores_init (s : FreqFiles) (cores : List Bool) :
    (s.init cores).mCores.map (fun c => c.timeInState.isSome) = cores := by
  have hfold : ∀ (cores : List Bool) (t : FreqFiles),
      (cores.foldl openCore t).mCores.map (fun c => c.timeInState.isSome) =
        t.mCores.map (fun c => c.timeInState.isSome) ++ cores := by
    intro cores
    induction cores with
    | nil => exact fun t => (List.append_nil _).symm
    | cons hasTis cores ih =>
      intro t
      rw [List.foldl_cons, ih, openCore, List.map_append, List.append_assoc]
      cases hasTis <;> rfl
  exact hfold cores s.deinit.clear

/-- The cores have the files that `CPUFreqCollector.init` says. -/
theorem mCores_init_files (s : FreqFiles) (files : List (Option (List (Int × Int)))) :
    (s.init (files.map Option.isSome)).mCores.map (fun c => c.timeInState.isSome) =
      (CPUFreqCollector.init files).mCores.map (·.timeInState) := by
  rw [mCores_init, CPUFreqCollector.init, List.map_map]
  conv_lhs => rw [← List.zipIdx_map_fst 0 files, List.map_map]
  rfl

theorem length_mCores_init (s : FreqFiles) (cores : List Bool) :
    (s.init cores).mCores.length = cores.length := by
  rw [← List.length_map, mCores_init]

/-! ## A second `deinit` -/

/-- A file that `deinit` has closed is null for the next `deinit`. -/
theorem none_mem_closing_deinit {s : FreqFiles} (h : s.mCores ≠ []) :
    none ∈ s.deinit.closing := by
  obtain ⟨c, hc⟩ := List.exists_mem_of_ne_nil _ h
  refine List.mem_flatMap.mpr ⟨c.closedDown, List.mem_map_of_mem hc, ?_⟩
  rw [closedDown_eq]
  exact List.mem_cons_self

/-- A null pointer stays among the arguments of `fclose`, or among those of the next `deinit`. -/
theorem none_mem_call {s : FreqFiles} (h : none ∈ s.closed ++ s.closing) (c : Call) :
    none ∈ (s.call c).closed := by
  cases c with
  | init cores =>
    -- Opening the files of the cores closes nothing.
    have hclosed : (s.init cores).closed = s.closed ++ s.closing :=
      List.foldlRecOn (motive := fun t : FreqFiles => t.closed = s.closed ++ s.closing) cores
        openCore rfl fun _ ht _ _ => ht
    exact hclosed ▸ h
  | deinit => exact h

theorem none_mem_destruct {s : FreqFiles} (h : none ∈ s.closed ++ s.closing) (calls : List Call) :
    none ∈ (calls.foldl call s).destruct.closed := by
  induction calls generalizing s with
  | nil => exact h
  | cons c calls ih => exact ih (List.mem_append_left _ (none_mem_call h c))

theorem closedOnce_foldl_iff {s : FreqFiles} (h : s.Inv) (calls : List Call) :
    (calls.foldl call s).destruct.ClosedOnce ↔ NoOwnDeinit s.mCores.length calls := by
  induction calls generalizing s with
  | nil =>
    refine iff_of_true ⟨fun file hfile => ?_, h.nonNull, h.destruct.destroyed⟩ (eachSplit_nil _)
    exact (h.once file).trans (if_pos hfile)
  | cons c calls ih =>
    rw [NoOwnDeinit, eachSplit_cons, List.foldl_cons]
    cases c with
    | init cores =>
      have hlen := length_mCores_init s cores
      have hrest := ih (h.init cores)
      rw [hlen] at hrest
      exact hrest.trans ⟨fun hr => ⟨fun hbad => (by cases hbad), hr⟩, fun hr => hr.2⟩
    | deinit =>
      by_cases hcores : s.mCores = []
      · have hsame : s.call .deinit = s := by
          cases s
          cases hcores
          simp [call, deinit, closing]
        rw [hsame]
        refine (ih h).trans ⟨fun hr => ⟨fun _ => ?_, hr⟩, fun hr => hr.2⟩
        exact List.length_eq_zero_iff.mpr hcores
      · refine iff_of_false (fun hclosed => hclosed.nonNull ?_) (fun hr => ?_)
        · refine none_mem_destruct (List.mem_append_right _ ?_) calls
          exact none_mem_closing_deinit hcores
        · exact hcores (List.length_eq_zero_iff.mp (hr.1 rfl))

/-- Over a whole life each opened file is closed once, and no null pointer is passed to `fclose`,
    exactly if no `deinit()` is called on its own while there are cores: the next one, that of
    `init()` or of the destructor included, closes their files again. -/
theorem closedOnce_life_iff (calls : List Call) :
    (life calls).ClosedOnce ↔ NoOwnDeinit 0 calls := closedOnce_foldl_iff inv_empty calls

/-- A core with both files, and `deinit()` before the destructor. -/
theorem not_closedOnce_life : ¬ (life [.init [true], .deinit]).ClosedOnce := by
  intro h
  exact h.nonNull (by decide)

end FreqFiles

end LibCollector.Collectors
