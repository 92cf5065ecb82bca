import LibCollector.Misc.Text
import Mathlib.Data.List.Basic

/-!
# Path names

What a path name denotes, up to symbolic links and `..`: where the walk begins, and the names that
it goes through. A path of a file in a directory is the path of the directory, a slash and the name
of the file (`fileIn_append`).
-/

namespace LibCollector.Misc

/-- Where a path name leads to: the names are walked from the root or from the working
    directory. -/
structure Location where
  absolute : Bool
  names : List Str
  deriving DecidableEq

/-- The names of a path. Empty ones, and `.`, lead nowhere. -/
def pathNames (s : Str) : List Str := (pieces '/' s).filter fun w => w ≠ [] ∧ w ≠ ['.']

/-- The location of a path name. -/
def location (s : Str) : Location := ⟨s.head? = some '/', pathNames s⟩

/-- The path names a file in the directory. -/
def FileIn (dir : Location) (path : Str) : Prop :=
  ∃ file, file ∉ [[], ['.'], ['.', '.']] ∧ '/' ∉ file ∧ file <:+ path ∧
    location path = ⟨dir.absolute, dir.names ++ [file]⟩

/-! ## Splitting at the slashes -/

theorem pieces_append_slash (s t : Str) :
    pieces '/' (s ++ '/' :: t) = pieces '/' (s ++ ['/']) ++ pieces '/' t := by
  induction s with
  | nil => simp [pieces]
  | cons c s ih =>
    rw [List.cons_append, List.cons_append, pieces, pieces, ih]
    split_ifs
    · rfl
    · cases hs : pieces '/' (s ++ ['/']) with
      | nil => cases s with
        | nil => simp [pieces] at hs
        | cons d s =>
          rw [List.cons_append, pieces] at hs
          split_ifs at hs
          split at hs <;> cases hs
      | cons p ps => rfl

/-- A slash at the end adds an empty piece, or ends the last piece. -/
theorem pieces_slash (s : Str) :
    pieces '/' (s ++ ['/']) = pieces '/' s ∨ pieces '/' (s ++ ['/']) = pieces '/' s ++ [[]] := by
  induction s with
  | nil => simp [pieces]
  | cons c s ih =>
    rw [List.cons_append, pieces, pieces]
    split_ifs
    · rcases ih with ih | ih
      · exact Or.inl (by rw [ih])
      · exact Or.inr (by rw [ih, List.cons_append])
    · rcases ih with ih | ih
      · exact Or.inl (by rw [ih])
      · rw [ih]
        cases pieces '/' s with
        | nil => exact Or.inl rfl
        | cons p ps => exact Or.inr rfl

/-- A slash at the end does not add a name. -/
@[simp] theorem pathNames_slash (s : Str) : pathNames (s ++ ['/']) = pathNames s := by
  rw [pathNames, pathNames]
  rcases pieces_slash s with h | h
  · rw [h]
  · rw [h, List.filter_append]
    simp

/-- The names of two paths that are joined by a slash. -/
theorem pathNames_append_slash (s t : Str) :
    pathNames (s ++ '/' :: t) = pathNames s ++ pathNames t := by
  rw [← pathNames_slash s, pathNames, pieces_append_slash, List.filter_append]
  rfl

theorem pathNames_file {file : Str} (h : file ∉ [[], ['.'], ['.', '.']]) (hslash : '/' ∉ file) :
    pathNames file = [file] := by
  simp only [List.mem_cons, List.not_mem_nil, or_false, not_or] at h
  rw [pathNames, pieces_of_notMem hslash h.1]
  simp [h.1, h.2.1]

/-! ## Locations -/

/-- Slashes at the end do not change the location of a path that does not consist of them. -/
theorem location_append_slashes {s : Str} (hne : s ≠ []) (n : Nat) :
    location (s ++ List.replicate n '/') = location s := by
  have hnames : pathNames (s ++ List.replicate n '/') = pathNames s := by
    induction n with
    | zero => rw [List.replicate_zero, List.append_nil]
    | succ n ih => rw [List.replicate_succ', ← List.append_assoc, pathNames_slash, ih]
  rw [location, location, hnames, List.head?_append_of_ne_nil _ hne]

/-- The path of a file in the directory `dir`. -/
theorem fileIn_append {dir file : Str} (hdir : dir ≠ []) (h : file ∉ [[], ['.'], ['.', '.']])
    (hslash : '/' ∉ file) : FileIn (location dir) (dir ++ '/' :: file) := by
  refine ⟨file, h, hslash, ⟨dir ++ ['/'], by simp⟩, ?_⟩
  rw [location, location, pathNames_append_slash, pathNames_file h hslash,
    List.head?_append_of_ne_nil _ hdir]

/-- The path of a directory names no file in it. -/
theorem not_fileIn_self (path : Str) : ¬ FileIn (location path) path := by
  rintro ⟨file, -, -, -, hlocation⟩
  have hlength := congrArg (fun l : Location => l.names.length) hlocation
  simp at hlength

end LibCollector.Misc
