import LibCollector.Misc.Substring
import LibCollector.Misc.Text

/-!
# The result files of the Vulkan layer

The path that `vkCollectorContext::postprocess_results` of `src/layer/vulkan_layer.cpp` makes of the
basename in the configuration and the number of the context. A read before the beginning of the
basename is undefined, and `none`.
-/

namespace LibCollector.Layer

open LibCollector.Misc

/-- `std::equal(first1, last1, first2)`. -/
def stdEqual : Str → Str → Option Bool
  | [], _ => some true
  | _ :: _, [] => none
  | a :: as, b :: bs => if a = b then stdEqual as bs else some false

/-- `json_token`. -/
def jsonToken : Str := ['.', 'j', 's', 'o', 'n']

/-- `"_device_" + _to_string(id) + json_token`. -/
def deviceToken (id : UInt32) : Str :=
  ['_', 'd', 'e', 'v', 'i', 'c', 'e', '_'] ++ toChars id.toNat ++ jsonToken

/-- `std::string::replace(pos, len, str)`. -/
def replace (s : Str) (pos len : Nat) (str : Str) : Str := s.take pos ++ str ++ s.drop (pos + len)

/-- `outputfile`. -/
def outputfile (basename : Str) (id : UInt32) : Option Str := do
  let isJson ← stdEqual jsonToken.reverse basename.reverse
  if isJson then
    let pos ← firstOccurrence jsonToken basename
    some (replace basename pos basename.length (deviceToken id))
  else some (basename ++ deviceToken id)

/-- The file that `fopen(outputfile.c_str(), "w")` opens. -/
def openedFile (basename : Str) (id : UInt32) : Option Str := (outputfile basename id).map cstr

/-! ## What is read -/

theorem stdEqual_eq_true_iff {as bs : Str} : stdEqual as bs = some true ↔ as <+: bs := by
  induction as generalizing bs with
  | nil => exact iff_of_true rfl List.nil_prefix
  | cons a as ih =>
    cases bs with
    | nil => exact iff_of_false (by rw [stdEqual]; simp) (by simp)
    | cons b bs =>
      rw [stdEqual, List.cons_prefix_cons]
      split_ifs with hab
      · rw [ih, and_iff_right hab]
      · exact iff_of_false (by simp) fun h => hab h.1

/-- The second range ends within the first one. -/
theorem stdEqual_eq_none_iff {as bs : Str} :
    stdEqual as bs = none ↔ bs <+: as ∧ bs ≠ as := by
  induction as generalizing bs with
  | nil =>
    refine iff_of_false (by rw [stdEqual]; simp) fun h => h.2 (List.prefix_nil.mp h.1)
  | cons a as ih =>
    cases bs with
    | nil => exact iff_of_true rfl ⟨List.nil_prefix, by simp⟩
    | cons b bs =>
      rw [stdEqual, List.cons_prefix_cons]
      split_ifs with hab
      · subst hab
        rw [ih, and_iff_right rfl, Ne, Ne, List.cons.injEq, and_iff_right rfl]
      · exact iff_of_false (by simp) fun h => hab h.1.1.symm

/-- The name is shorter than the token it is compared with, and equal to the end of it. -/
def PartOfToken (basename : Str) : Prop := basename <:+ jsonToken ∧ basename ≠ jsonToken

theorem jsonToken_ne_nil : jsonToken ≠ [] := by decide

theorem outputfile_eq_none {basename : Str} (h : PartOfToken basename) (id : UInt32) :
    outputfile basename id = none := by
  have hequal : stdEqual jsonToken.reverse basename.reverse = none := by
    rw [stdEqual_eq_none_iff, List.reverse_prefix, Ne, List.reverse_inj]
    exact h
  rw [outputfile, hequal]
  rfl

/-- The first token in the name and what follows it are replaced. -/
theorem outputfile_of_suffix {basename : Str} (h : jsonToken <:+ basename) :
    ∃ pos, (OccursAt jsonToken basename pos ∧ ∀ i < pos, ¬ OccursAt jsonToken basename i) ∧
      ∀ id, outputfile basename id = some (basename.take pos ++ deviceToken id) := by
  have hequal : stdEqual jsonToken.reverse basename.reverse = some true := by
    rw [stdEqual_eq_true_iff, List.reverse_prefix]
    exact h
  obtain ⟨pos, hpos⟩ :=
    exists_firstOccurrence jsonToken_ne_nil (suffix_iff_occursAt.mp h).1
  refine ⟨pos, (firstOccurrence_eq_some_iff jsonToken_ne_nil).mp hpos, fun id => ?_⟩
  have hend : basename.drop (pos + basename.length) = [] := List.drop_eq_nil_of_le (by omega)
  rw [outputfile, hequal, Option.bind_eq_bind, Option.bind_some, if_pos rfl, hpos,
    Option.bind_eq_bind, Option.bind_some, replace, hend, List.append_nil]

theorem outputfile_of_not_suffix {basename : Str} (hpart : ¬ PartOfToken basename)
    (h : ¬ jsonToken <:+ basename) (id : UInt32) :
    outputfile basename id = some (basename ++ deviceToken id) := by
  have hequal : stdEqual jsonToken.reverse basename.reverse = some false := by
    cases hcompare : stdEqual jsonToken.reverse basename.reverse with
    | none =>
      rw [stdEqual_eq_none_iff, List.reverse_prefix, Ne, List.reverse_inj] at hcompare
      exact absurd hcompare hpart
    | some isJson =>
      cases isJson with
      | false => rfl
      | true =>
        rw [stdEqual_eq_true_iff, List.reverse_prefix] at hcompare
        exact absurd hcompare h
  rw [outputfile, hequal]
  rfl

/-! ## The file that is meant -/

/-- The name without one token at its end. -/
def stem (basename : Str) : Str :=
  if jsonToken <:+ basename then basename.take (basename.length - jsonToken.length) else basename

/-- The stem with the token of the context. -/
def resultPath (basename : Str) (id : UInt32) : Str := stem basename ++ deviceToken id

/-- The results of a context are written to the file that is meant, in the directory of the
    basename, and the results of contexts with different numbers to different files. -/
structure WritesResultFile (basename : Str) : Prop where
  path : ∀ id, openedFile basename id = some (resultPath basename id)
  directory : ∀ dir name, basename = dir ++ '/' :: name → '/' ∉ name →
    ∀ id, ∃ file, openedFile basename id = some (dir ++ '/' :: file) ∧ '/' ∉ file
  distinct : ∀ id id', id ≠ id' → openedFile basename id ≠ openedFile basename id'

/-- Neither slash nor NUL is in the token of a context. -/
theorem notMem_deviceToken {c : Char} (hc : c = '/' ∨ c = '\x00') (id : UInt32) :
    c ∉ deviceToken id := by
  have hid : c ∉ toChars id.toNat := by
    rcases hc with rfl | rfl
    · exact notMem_toChars (by decide) (by decide) _
    · exact notMem_toChars (by decide) (by decide) _
  have htoken : c ∉ jsonToken := by
    rcases hc with rfl | rfl <;> decide
  have hdevice : c ∉ ['_', 'd', 'e', 'v', 'i', 'c', 'e', '_'] := by
    rcases hc with rfl | rfl <;> decide
  rw [deviceToken, List.mem_append, List.mem_append, not_or, not_or]
  exact ⟨⟨hdevice, hid⟩, htoken⟩

theorem deviceToken_injective : Function.Injective deviceToken := by
  intro id id' h
  have hchars := List.append_cancel_left (List.append_cancel_right h)
  exact UInt32.toNat_inj.mp (Int.ofNat.inj (toChars_injective hchars))

theorem stem_append (basename : Str) : ∃ tail, basename = stem basename ++ tail ∧
    (tail = [] ∨ tail = jsonToken) := by
  by_cases h : jsonToken <:+ basename
  · refine ⟨jsonToken, ?_, .inr rfl⟩
    rw [stem, if_pos h]
    exact (List.suffix_iff_eq_append.mp h).symm
  · exact ⟨[], by rw [stem, if_neg h, List.append_nil], .inl rfl⟩

/-- The stem is in the directory of the name. -/
theorem stem_directory {dir name : Str} (h : '/' ∉ name) :
    ∃ file, stem (dir ++ '/' :: name) = dir ++ '/' :: file ∧ '/' ∉ file := by
  obtain ⟨tail, htail, hkind⟩ := stem_append (dir ++ '/' :: name)
  have hslash : '/' ∉ tail := by
    rcases hkind with rfl | rfl <;> decide
  have hjoin : stem (dir ++ '/' :: name) ++ tail = (dir ++ ['/']) ++ name := by
    rw [← htail, List.append_assoc, List.singleton_append]
  rcases List.append_eq_append_iff.mp hjoin with ⟨l, hdir, hl⟩ | ⟨l, hstem, hl⟩
  · -- The tail has no slash, so it does not reach into the directory.
    rcases List.eq_nil_or_concat l with rfl | ⟨l, c, rfl⟩
    · rw [List.append_nil] at hdir
      exact ⟨[], hdir.symm, List.not_mem_nil⟩
    · rw [List.concat_eq_append, ← List.append_assoc] at hdir
      obtain rfl := (List.singleton_inj.mp (List.append_inj' hdir rfl).2).symm
      refine absurd ?_ hslash
      rw [hl, List.concat_eq_append]
      simp
  · rw [List.append_assoc, List.singleton_append] at hstem
    refine ⟨l, hstem, fun hmem => h ?_⟩
    rw [hl]
    exact List.mem_append_left _ hmem

theorem writesResultFile_of_path {basename : Str}
    (h : ∀ id, openedFile basename id = some (resultPath basename id)) :
    WritesResultFile basename := by
  refine ⟨h, ?_, ?_⟩
  · rintro dir name rfl hname id
    obtain ⟨file, hstem, hfile⟩ := @stem_directory dir name hname
    refine ⟨file ++ deviceToken id, ?_, ?_⟩
    · rw [h, resultPath, hstem, List.append_assoc, List.cons_append]
    · rw [List.mem_append, not_or]
      exact ⟨hfile, notMem_deviceToken (.inl rfl) id⟩
  · intro id id' hne heq
    rw [h, h, Option.some.injEq] at heq
    exact hne (deviceToken_injective (List.append_cancel_left heq))

theorem nul_notMem_stem {basename : Str} : '\x00' ∉ stem basename ↔ '\x00' ∉ basename := by
  obtain ⟨tail, htail, hkind⟩ := stem_append basename
  have hnul : '\x00' ∉ tail := by
    rcases hkind with rfl | rfl <;> decide
  have hsplit : '\x00' ∈ basename ↔ '\x00' ∈ stem basename ∨ '\x00' ∈ tail := by
    rw [← List.mem_append, ← htail]
  rw [hsplit, or_iff_left hnul]

/-- `fopen` gets all of a name without NUL. -/
theorem cstr_deviceToken {s : Str} (h : '\x00' ∉ s) (id : UInt32) :
    cstr (s ++ deviceToken id) = s ++ deviceToken id := by
  refine cstr_of_notMem fun hmem => ?_
  exact (List.mem_append.mp hmem).elim h (notMem_deviceToken (.inr rfl) id)

/-- What `fopen` gets has no NUL. -/
theorem nul_notMem_of_path {basename : Str} {id : UInt32}
    (h : openedFile basename id = some (resultPath basename id)) : '\x00' ∉ basename := by
  obtain ⟨file, _, hcstr⟩ := Option.map_eq_some_iff.mp h
  rw [← nul_notMem_stem]
  intro hmem
  have hresult : '\x00' ∈ cstr file := hcstr ▸ List.mem_append_left _ hmem
  simpa using List.mem_takeWhile_imp hresult

/-- If the name ends with the token and the path is the one that is meant, no other token stands in
    the name. -/
theorem last_of_path {basename : Str} {id : UInt32}
    (h : openedFile basename id = some (resultPath basename id)) (hsuffix : jsonToken <:+ basename)
    {k : Nat} (hocc : OccursAt jsonToken basename k) :
    k + jsonToken.length = basename.length := by
  have hnul := nul_notMem_of_path h
  obtain ⟨pos, ⟨hpos, hfirst⟩, hfile⟩ := outputfile_of_suffix hsuffix
  rw [openedFile, hfile, Option.map_some,
    cstr_deviceToken (fun hmem => hnul (List.mem_of_mem_take hmem)), resultPath, stem,
    if_pos hsuffix, Option.some.injEq] at h
  have hlength := congrArg List.length (List.append_cancel_right h)
  rw [List.length_take, List.length_take] at hlength
  have hle := hpos.add_length_le jsonToken_ne_nil
  have hle' := hocc.add_length_le jsonToken_ne_nil
  have hnext : ¬ k < pos := fun hlt => hfirst k hlt hocc
  omega

/-- The basename is a C string, is not a part of the token, and if it ends with the token, the token
    stands nowhere before. -/
theorem writesResultFile_iff (basename : Str) :
    WritesResultFile basename ↔
      '\x00' ∉ basename ∧ ¬ (basename <:+ jsonToken ∧ basename ≠ jsonToken) ∧
        (jsonToken <:+ basename →
          ∀ k, OccursAt jsonToken basename k → k + jsonToken.length = basename.length) := by
  constructor
  · intro h
    refine ⟨nul_notMem_of_path (h.path 0), fun hpart => ?_,
      fun hsuffix k hocc => last_of_path (h.path 0) hsuffix hocc⟩
    have hpath := h.path 0
    rw [openedFile, outputfile_eq_none hpart] at hpath
    cases hpath
  · rintro ⟨hnul, hpart, hlast⟩
    refine writesResultFile_of_path fun id => ?_
    have hfile : outputfile basename id = some (resultPath basename id) := by
      by_cases hsuffix : jsonToken <:+ basename
      · obtain ⟨pos, ⟨hocc, _⟩, hfile⟩ := outputfile_of_suffix hsuffix
        have hpos := hlast hsuffix pos hocc
        have hstem : basename.length - jsonToken.length = pos := by omega
        rw [hfile, resultPath, stem, if_pos hsuffix, hstem]
      · rw [outputfile_of_not_suffix hpart hsuffix, resultPath, stem, if_neg hsuffix]
    rw [openedFile, hfile, Option.map_some, resultPath, cstr_deviceToken (nul_notMem_stem.mpr hnul)]

/-- The directory is lost in which the token stands in a name, and a read is before the beginning
    of a name that is too short. -/
theorem not_writesResultFile :
    ¬ WritesResultFile "run.json.d/results.json".toList ∧
      openedFile "run.json.d/results.json".toList 0 = some "run_device_0.json".toList ∧
      ¬ WritesResultFile "on".toList ∧ openedFile "on".toList 0 = none := by
  have hlost : openedFile "run.json.d/results.json".toList 0 = some "run_device_0.json".toList := by
    decide
  have hshort : openedFile "on".toList 0 = none := by decide
  refine ⟨fun h => ?_, hlost, fun h => ?_, hshort⟩
  · obtain ⟨file, hfile, _⟩ :=
      h.directory "run.json.d".toList "results.json".toList rfl (by decide) 0
    rw [hlost, Option.some.injEq] at hfile
    have hslash : '/' ∈ "run_device_0.json".toList := by
      rw [hfile]
      simp
    exact absurd hslash (by decide)
  · have hpath := h.path 0
    rw [hshort] at hpath
    cases hpath

end LibCollector.Layer
