import LibCollector.Misc.Path
import Mathlib.Data.List.Induction

/-!
# The output directory

What `FerretCollector` of `src/collectors/ferret.cpp` makes of `output_dir`, outside Android: the
constructor erases the slashes at the end, `init()` puts `.` for an empty directory, and `start()`
opens a file in it. An index that is not that of a character of the string is `none`. The loop does
not look whether there is a character left, so it needs one that is not a slash
(`normalises_iff`).
-/

namespace LibCollector.Ferret

open LibCollector.Misc

/-! ## From the configuration to the path -/

/-- The member `output_dir` of the configuration. -/
inductive OutputDirMember where
  | absent
  | notString
  | string (s : Str)

/-- `s.size() - 1` for a `std::string`, as a 64 bit `size_t`. -/
def sizeMinusOne (s : Str) : Nat := if s = [] then 18446744073709551615 else s.length - 1

/-- The loop of the constructor over the end of `mOutputDir`. -/
def eraseSlashes (s : Str) : Option Str :=
  match _hget : s[sizeMinusOne s]? with
  | none => none
  | some c => if c = '/' then eraseSlashes (s.eraseIdx (sizeMinusOne s)) else some s
termination_by s.length
decreasing_by
  have hlt : sizeMinusOne s < s.length := (List.getElem?_eq_some_iff.mp _hget).1
  rw [List.length_eraseIdx_of_lt hlt]
  omega

/-- `mOutputDir` after the constructor. -/
def constructOutputDir : OutputDirMember → Option Str
  | .string s => eraseSlashes s
  | .absent => some []
  | .notString => some []

/-- `mOutputDir` after `init()`. -/
def initOutputDir (mOutputDir : Str) : Str := if mOutputDir = [] then ['.'] else mOutputDir

/-- The name of the file that `start()` makes. -/
def traceName (increment : Int) : Str := "ferret_run_".toList ++ toChars increment ++ ".data".toList

/-- `output` of `start()`. -/
def output (mOutputDir : Str) (increment : Int) : Str :=
  mOutputDir ++ "/ferret_run_".toList ++ toChars increment ++ ".data".toList

/-- The constructor only looks at characters of the string, and what `start()` opens is a file in
    the directory that the string denotes. -/
def Normalises (s : Str) : Prop :=
  ∃ mOutputDir, constructOutputDir (.string s) = some mOutputDir ∧ ∀ increment,
    FileIn (location (cstr s)) (cstr (output (initOutputDir mOutputDir) increment))

/-! ## The loop -/

theorem sizeMinusOne_concat (s : Str) (c : Char) : sizeMinusOne (s ++ [c]) = s.length := by
  rw [sizeMinusOne, if_neg (by simp)]
  simp

theorem getElem?_sizeMinusOne (s : Str) (c : Char) :
    (s ++ [c])[sizeMinusOne (s ++ [c])]? = some c := by
  rw [sizeMinusOne_concat, List.getElem?_concat_length]

@[simp] theorem eraseSlashes_nil : eraseSlashes [] = none := by
  rw [eraseSlashes]
  rfl

@[simp] theorem eraseSlashes_slash (s : Str) : eraseSlashes (s ++ ['/']) = eraseSlashes s := by
  have herase : (s ++ ['/']).eraseIdx s.length = s := by
    rw [List.eraseIdx_append_of_length_le (Nat.le_refl _)]
    simp
  rw [eraseSlashes]
  split
  · next h => rw [getElem?_sizeMinusOne] at h; cases h
  · next c h =>
    rw [getElem?_sizeMinusOne] at h
    cases h
    rw [if_pos rfl, sizeMinusOne_concat, herase]

theorem eraseSlashes_of_ne {c : Char} (hc : c ≠ '/') (s : Str) :
    eraseSlashes (s ++ [c]) = some (s ++ [c]) := by
  rw [eraseSlashes]
  split
  · next h => rw [getElem?_sizeMinusOne] at h; cases h
  · next d h =>
    rw [getElem?_sizeMinusOne] at h
    cases h
    rw [if_neg hc]

/-- What is left of a string with a character that is not a slash. -/
theorem eraseSlashes_eq_some {s : Str} (h : ∃ c ∈ s, c ≠ '/') :
    ∃ dir n, eraseSlashes s = some dir ∧ dir ≠ [] ∧ s = dir ++ List.replicate n '/' := by
  induction s using List.reverseRecOn with
  | nil =>
    obtain ⟨c, hc, -⟩ := h
    cases hc
  | append_singleton s c ih =>
    by_cases hc : c = '/'
    · subst hc
      obtain ⟨d, hd, hne⟩ := h
      have hmem : d ∈ s := by simpa [hne] using hd
      obtain ⟨dir, n, herase, hdir, hs⟩ := ih ⟨d, hmem, hne⟩
      refine ⟨dir, n + 1, ?_, hdir, ?_⟩
      · rw [eraseSlashes_slash, herase]
      · rw [List.replicate_succ', ← List.append_assoc, ← hs]
    · exact ⟨s ++ [c], 0, eraseSlashes_of_ne hc s, by simp, by simp⟩

/-- The loop runs off the beginning of a string of slashes. -/
theorem eraseSlashes_eq_none {s : Str} (h : ∀ c ∈ s, c = '/') : eraseSlashes s = none := by
  rw [List.eq_replicate_of_mem h]
  induction s.length with
  | zero => exact eraseSlashes_nil
  | succ n ih => rw [List.replicate_succ', eraseSlashes_slash, ih]

/-! ## The path -/

theorem output_eq (mOutputDir : Str) (increment : Int) :
    output mOutputDir increment = mOutputDir ++ '/' :: traceName increment := by
  have hstem : "/ferret_run_".toList = '/' :: "ferret_run_".toList := by decide
  unfold output traceName
  simp only [hstem, List.append_assoc, List.cons_append]

/-- Neither a slash nor NUL is in the name of the file. -/
theorem notMem_traceName {c : Char} (hc : c ∈ ['/', '\x00']) (increment : Int) :
    c ∉ traceName increment := by
  have htexts : ∀ c ∈ ['/', '\x00'], c ∉ "ferret_run_".toList ∧ c ∉ ".data".toList ∧
      c.isDigit = false ∧ c ≠ '-' := by
    simp
  obtain ⟨hstem, hextension, hdigit, hsign⟩ := htexts c hc
  unfold traceName
  simp only [List.mem_append, not_or]
  exact ⟨⟨hstem, notMem_toChars hdigit hsign increment⟩, hextension⟩

theorem traceName_notMem (increment : Int) :
    traceName increment ∉ [[], ['.'], ['.', '.']] := by
  have hhead : (traceName increment).head? = some 'f' := rfl
  intro hmem
  have hdots : ∀ w ∈ [[], ['.'], ['.', '.']], w.head? ≠ some 'f' := by decide
  exact hdots _ hmem hhead

/-- The file is in the directory that the path of `start()` begins with. -/
theorem fileIn_output {mOutputDir : Str} (hne : mOutputDir ≠ []) (hnul : '\x00' ∉ mOutputDir)
    (increment : Int) : FileIn (location mOutputDir) (cstr (output mOutputDir increment)) := by
  have hslash : '/' ∉ traceName increment := notMem_traceName (by simp) increment
  have hnulName : '\x00' ∉ traceName increment := notMem_traceName (by simp) increment
  have hnulOutput : '\x00' ∉ output mOutputDir increment := by
    rw [output_eq, List.mem_append, List.mem_cons]
    rintro (h | h | h)
    · exact hnul h
    · cases h
    · exact hnulName h
  rw [cstr_of_notMem hnulOutput, output_eq]
  exact fileIn_append hne (traceName_notMem increment) hslash

/-- Without `output_dir` the file is in the working directory. -/
theorem fileIn_default {member : OutputDirMember} (h : constructOutputDir member = some [])
    (increment : Int) :
    ∃ mOutputDir, constructOutputDir member = some mOutputDir ∧
      FileIn (location ['.']) (cstr (output (initOutputDir mOutputDir) increment)) :=
  ⟨[], h, fileIn_output (by decide) (by decide) increment⟩

/-- The directory is normalised if and only if it has a character that is not a slash, and no
    NUL. -/
theorem normalises_iff (s : Str) : Normalises s ↔ (∃ c ∈ s, c ≠ '/') ∧ '\x00' ∉ s := by
  constructor
  · rintro ⟨mOutputDir, hdir, hfile⟩
    have hchar : ∃ c ∈ s, c ≠ '/' := by
      by_contra hall
      push Not at hall
      rw [constructOutputDir, eraseSlashes_eq_none hall] at hdir
      cases hdir
    refine ⟨hchar, fun hnul => ?_⟩
    obtain ⟨dir, n, herase, hne, rfl⟩ := eraseSlashes_eq_some hchar
    obtain rfl : dir = mOutputDir := Option.some.inj (herase.symm.trans hdir)
    have hnul' : '\x00' ∈ dir := by simpa using hnul
    have hpath := hfile 0
    rw [initOutputDir, if_neg hne, output_eq, cstr_append_of_mem hnul',
      cstr_append_of_mem hnul'] at hpath
    exact not_fileIn_self _ hpath
  · rintro ⟨hchar, hnul⟩
    obtain ⟨dir, n, herase, hne, rfl⟩ := eraseSlashes_eq_some hchar
    have hnul' : '\x00' ∉ dir := fun h => hnul (List.mem_append_left _ h)
    refine ⟨dir, herase, fun increment => ?_⟩
    rw [cstr_of_notMem hnul, location_append_slashes hne, initOutputDir, if_neg hne]
    exact fileIn_output hne hnul' increment

/-- The empty string has no last character. -/
theorem not_normalises_empty : ¬ ∀ s, Normalises s := by
  intro h
  obtain ⟨mOutputDir, hdir, -⟩ := h []
  rw [constructOutputDir, eraseSlashes_nil] at hdir
  cases hdir

end LibCollector.Ferret
