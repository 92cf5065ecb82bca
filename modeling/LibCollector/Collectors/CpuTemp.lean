import LibCollector.Interface.SysfsDescriptor
import LibCollector.Interface.SysfsNumbers
import LibCollector.Misc.Loop

/-!
# The temperature collector

`CPUTemperatureCollector` of `src/collectors/cputemp.cpp`. A pointer into the buffer is an offset,
and the buffer is what stands before its terminator, so that the length is the offset of that. With
each number the offset behind it is recorded, to tell which line it was read from.
-/

namespace LibCollector.Collectors

open LibCollector.Misc LibCollector.Interface

/-- `option_map`, in the order of its keys. -/
def optionMap : List (Str × Float) :=
  [("/sys/class/thermal/thermal_zone1/temp".toList, 10.0),
    ("/sys/devices/platform/exynos5-tmu/curr_temp".toList, 10.0),
    ("/sys/devices/platform/exynos5-tmu/temp".toList, 10.0),
    ("/sys/devices/virtual/thermal/thermal_zone0/temp".toList, 100.0),
    ("class/thermal/thermal_zone0/temp".toList, 100.0)]

/-- `options`. -/
def tempOptions : List Str := optionMap.map Prod.fst

/-- The members of `CPUTemperatureCollector` that `parse` uses; `divisor` is what `option_map` has
    for the file. -/
structure CpuTemperatureCollector where
  mSysfsFile : Str
  divisor : Float
  known : optionMap.lookup mSysfsFile = some divisor

/-- A number that has been read: `temp`, and `tmp` behind it. -/
structure TempRead where
  tmp : Nat
  temp : Int64
  deriving DecidableEq

/-- The variables of `parse` at the beginning of a turn; `count` is the number of reads. -/
structure TempState where
  pos : Nat := 0
  reads : List TempRead := []
  deriving DecidableEq

/-- What `parse` has read and returned. -/
structure TempParsed where
  reads : List TempRead
  ok : Bool
  deriving DecidableEq

/-- `strchr`, from an offset. -/
def strchr (buffer : Str) (pos : Nat) (c : Char) : Option Nat :=
  if c ∈ buffer.drop pos then some (pos + (buffer.drop pos).idxOf c) else none

/-- `strtol`, from an offset: the number, and the offset behind it. -/
def strtolAt (buffer : Str) (pos : Nat) : Int64 × Nat :=
  let r := strtol (buffer.drop pos)
  (r.1, pos + ((buffer.drop pos).length - r.2.length))

/-- `end` behind a prefix. -/
def skipPrefix (buffer : Str) (pos : Nat) : Nat :=
  match strchr buffer pos ':' with
  | some colon => colon + 1
  | none => pos

/-- A turn of the loop of `parse`. The terminator is at the end of the buffer. -/
def tempTurn (buffer : Str) (s : TempState) : Turn TempState TempParsed :=
  let r := strtolAt buffer (skipPrefix buffer s.pos)
  if r.2 = 0 then .done ⟨s.reads, 0 < s.reads.length⟩
  else
    let pos := if r.2 ≠ buffer.length then r.2 + 1 else r.2
    let reads := s.reads ++ [⟨r.2, r.1⟩]
    if pos ≠ buffer.length then .again ⟨pos, reads⟩ else .done ⟨reads, true⟩

/-- The values that `end` and `tmp` have in a turn. -/
def tempCursors (buffer : Str) (s : TempState) : List Nat :=
  let start := skipPrefix buffer s.pos
  let tmp := (strtolAt buffer start).2
  [s.pos, start, tmp, if tmp ≠ buffer.length then tmp + 1 else tmp]

namespace CpuTemperatureCollector

/-- What is added for the `i`th number. -/
def added (c : CpuTemperatureCollector) (temp : Int64) (i : Nat) : Added :=
  ("cpu_temperature_".toList ++ toChars i, .fp64, .ofFp64 (temp.toFloat / c.divisor))

/-- What is added for numbers. -/
def adds (c : CpuTemperatureCollector) (temps : List Int64) : List Added :=
  temps.mapIdx fun i temp => c.added temp i

/-- A collector whose `init()` has returned true reads a file of `option_map`. -/
theorem exists_divisor {opened : Str → Int} {name : Str} {factor : Option Float}
    (h : ((SysfsFile.construct name tempOptions factor).init opened).1 = true) :
    ∃ c : CpuTemperatureCollector, c.mSysfsFile =
      ((SysfsFile.construct name tempOptions factor).init opened).2.mSysfsFile := by
  have hmem := (SysfsFile.opened_init h).2
  obtain ⟨divisor, hdivisor⟩ : ∃ divisor, optionMap.lookup
      ((SysfsFile.construct name tempOptions factor).init opened).2.mSysfsFile = some divisor := by
    rw [← Option.isSome_iff_exists, List.lookup_isSome_iff]
    have hoption : ((SysfsFile.construct name tempOptions factor).init opened).2.mSysfsFile ∈
        optionMap.map Prod.fst := hmem
    obtain ⟨o, ho, heq⟩ := List.mem_map.mp hoption
    exact ⟨o, ho, beq_iff_eq.mpr heq.symm⟩
  exact ⟨⟨_, divisor, hdivisor⟩, rfl⟩

end CpuTemperatureCollector

/-! ## The rest of the buffer -/

/-- The text behind the first colon, or all of it. -/
def afterColon (s : Str) : Str :=
  if ':' ∈ s then (s.dropWhile (· ≠ ':')).tail else s

theorem afterColon_append {u : Str} (h : ':' ∉ u) (v : Str) : afterColon (u ++ ':' :: v) = v := by
  have hall : ∀ c ∈ u, decide (c ≠ ':') = true := by
    intro c hc
    rw [decide_eq_true_eq]
    rintro rfl
    exact h hc
  rw [afterColon, if_pos (by simp), List.dropWhile_append_of_pos hall,
    List.dropWhile_cons_of_neg (by decide), List.tail_cons]

theorem afterColon_of_notMem {s : Str} (h : ':' ∉ s) : afterColon s = s := by
  rw [afterColon, if_neg h]

theorem afterColon_suffix (s : Str) : afterColon s <:+ s := by
  rw [afterColon]
  split_ifs
  · exact (List.tail_suffix _).trans (List.dropWhile_suffix _)
  · exact List.suffix_refl s

theorem rest_suffix (s : Str) : (strtol (afterColon s)).2 <:+ s :=
  (strtol_suffix _).trans (afterColon_suffix s)

theorem length_tail_rest_lt {s : Str} (h : s ≠ []) :
    (strtol (afterColon s)).2.tail.length < s.length := by
  have hle := (rest_suffix s).length_le
  have hpos := List.length_pos_iff.mpr h
  rw [List.length_tail]
  omega

/-- The numbers that are read from a text on, and the length of what follows each. -/
def scan (s : Str) : List (Nat × Int64) :=
  if s = [] then []
  else
    let r := strtol (afterColon s)
    (r.2.length, r.1) :: scan r.2.tail
termination_by s.length
decreasing_by exact length_tail_rest_lt ‹_›

theorem scan_nil : scan [] = [] := by rw [scan, if_pos rfl]

theorem scan_of_ne {s : Str} (h : s ≠ []) : scan s =
    ((strtol (afterColon s)).2.length, (strtol (afterColon s)).1) ::
      scan (strtol (afterColon s)).2.tail := by
  rw [scan, if_neg h]

/-- Where a suffix of the buffer begins. -/
theorem drop_of_suffix {s buffer : Str} (h : s <:+ buffer) :
    buffer.drop (buffer.length - s.length) = s := by
  exact (List.suffix_iff_eq_drop.mp h).symm

theorem skipPrefix_eq {s buffer : Str} (h : s <:+ buffer) :
    skipPrefix buffer (buffer.length - s.length) = buffer.length - (afterColon s).length := by
  have hle := h.length_le
  rw [skipPrefix, strchr, drop_of_suffix h]
  by_cases hcolon : ':' ∈ s
  · obtain ⟨u, v, rfl, hu⟩ := List.eq_append_cons_of_mem hcolon
    rw [if_pos hcolon, afterColon_append hu, List.idxOf_append_of_notMem hu, List.idxOf_cons_self]
    rw [List.length_append, List.length_cons] at hle ⊢
    dsimp only
    omega
  · rw [if_neg hcolon, afterColon_of_notMem hcolon]

theorem strtolAt_eq {s buffer : Str} (h : s <:+ buffer) :
    strtolAt buffer (buffer.length - s.length) =
      ((strtol s).1, buffer.length - (strtol s).2.length) := by
  have hle := h.length_le
  have hrest := (strtol_suffix s).length_le
  rw [strtolAt, drop_of_suffix h]
  exact Prod.ext rfl (by dsimp only; omega)

/-- A turn at the beginning of a suffix of the buffer. -/
theorem tempTurn_eq {s buffer : Str} (h : s <:+ buffer) (reads : List TempRead) :
    tempTurn buffer ⟨buffer.length - s.length, reads⟩ =
      let r := strtol (afterColon s)
      let reads' := reads ++ [⟨buffer.length - r.2.length, r.1⟩]
      if r.2 = buffer then .done ⟨reads, 0 < reads.length⟩
      else if r.2.tail = [] then .done ⟨reads', true⟩
      else .again ⟨buffer.length - r.2.tail.length, reads'⟩ := by
  have hsuffix : (strtol (afterColon s)).2 <:+ buffer := (rest_suffix s).trans h
  have hle := hsuffix.length_le
  have hzero : buffer.length - (strtol (afterColon s)).2.length = 0 ↔
      (strtol (afterColon s)).2 = buffer := by
    constructor
    · intro hlen
      exact hsuffix.eq_of_length_le (by omega)
    · intro heq
      rw [heq]
      omega
  have htail : buffer.length - (strtol (afterColon s)).2.tail.length ≠ buffer.length ↔
      (strtol (afterColon s)).2.tail ≠ [] := by
    rw [Ne, Ne, ← List.length_eq_zero_iff, List.length_tail]
    omega
  have hpos : (if buffer.length - (strtol (afterColon s)).2.length ≠ buffer.length then
        buffer.length - (strtol (afterColon s)).2.length + 1
      else buffer.length - (strtol (afterColon s)).2.length) =
      buffer.length - (strtol (afterColon s)).2.tail.length := by
    rw [List.length_tail]
    split_ifs with hne
    · omega
    · omega
  rw [tempTurn, skipPrefix_eq h, strtolAt_eq ((afterColon_suffix s).trans h)]
  dsimp only
  rw [hpos]
  simp only [hzero, htail, ne_eq, ite_not]

/-- The offset in the buffer of what a number is followed by. -/
def readAt (buffer : Str) (r : Nat × Int64) : TempRead := ⟨buffer.length - r.1, r.2⟩

/-- From a later suffix of the buffer, everything that `scan` finds is read. -/
theorem returns_scan {s buffer : Str} (h : s <:+ buffer) (hne : s ≠ [])
    (hlt : s.length < buffer.length) (reads : List TempRead) :
    Returns (tempTurn buffer) ⟨buffer.length - s.length, reads⟩
      ⟨reads ++ (scan s).map (readAt buffer), true⟩ := by
  induction hn : s.length using Nat.strongRecOn generalizing s reads with
  | _ n ih =>
    have hrest : (strtol (afterColon s)).2 ≠ buffer := by
      intro heq
      have hle := (rest_suffix s).length_le
      rw [heq] at hle
      omega
    have hturn := tempTurn_eq h reads
    dsimp only at hturn
    rw [if_neg hrest] at hturn
    rw [scan_of_ne hne, List.map_cons]
    by_cases hlast : (strtol (afterColon s)).2.tail = []
    · rw [if_pos hlast] at hturn
      rw [hlast, scan_nil, List.map_nil, ← hn]
      exact returns_of_done hturn
    · rw [if_neg hlast] at hturn
      have hless := length_tail_rest_lt hne
      have hnext := ih _ (hn ▸ hless) (((List.tail_suffix _).trans (rest_suffix s)).trans h) hlast
        (by omega) (reads ++ [readAt buffer ((strtol (afterColon s)).2.length,
          (strtol (afterColon s)).1)]) rfl
      rw [List.append_assoc, List.singleton_append] at hnext
      rw [← hn]
      exact hnext.again hturn

/-- What `parse` reads and returns. -/
def tempParsed (buffer : Str) : TempParsed :=
  if (strtol (afterColon buffer)).2 = buffer then ⟨[], false⟩
  else ⟨(scan buffer).map (readAt buffer), true⟩

theorem returns_tempParsed (buffer : Str) :
    Returns (tempTurn buffer) {} (tempParsed buffer) := by
  have hturn := tempTurn_eq (List.suffix_refl buffer) []
  rw [Nat.sub_self] at hturn
  dsimp only at hturn
  rw [tempParsed]
  split_ifs with hnone
  · rw [if_pos hnone] at hturn
    exact returns_of_done hturn
  · rw [if_neg hnone] at hturn
    have hne : buffer ≠ [] := by
      rintro rfl
      exact hnone (List.suffix_nil.mp (rest_suffix []))
    rw [scan_of_ne hne, List.map_cons]
    by_cases hlast : (strtol (afterColon buffer)).2.tail = []
    · rw [if_pos hlast] at hturn
      rw [hlast, scan_nil]
      exact returns_of_done hturn
    · rw [if_neg hlast] at hturn
      exact (returns_scan ((List.tail_suffix _).trans (rest_suffix buffer)) hlast
        (length_tail_rest_lt hne) _).again hturn

/-- It returns true exactly if it has read a number. -/
theorem tempParsed_ok_iff (buffer : Str) :
    (tempParsed buffer).ok = true ↔ (tempParsed buffer).reads ≠ [] := by
  rw [tempParsed]
  split_ifs with hnone
  · simp
  · have hne : buffer ≠ [] := by
      rintro rfl
      exact hnone (List.suffix_nil.mp (rest_suffix []))
    simp [scan_of_ne hne]

/-- No pointer into the buffer goes beyond the terminator. -/
theorem tempCursors_le {buffer : Str} {s : TempState} (h : Visits (tempTurn buffer) {} s) :
    ∀ pos ∈ tempCursors buffer s, pos ≤ buffer.length := by
  have hstate : ∀ s : TempState, s.pos ≤ buffer.length →
      s = ⟨buffer.length - (buffer.drop s.pos).length, s.reads⟩ := by
    intro s hs
    have hpos : buffer.length - (buffer.drop s.pos).length = s.pos := by
      rw [List.length_drop]
      omega
    rw [hpos]
  have hinv : s.pos ≤ buffer.length := by
    refine h.invariant (I := fun s => s.pos ≤ buffer.length) (fun s t hs ht => ?_) (Nat.zero_le _)
    rw [hstate s hs, tempTurn_eq (List.drop_suffix _ _)] at ht
    dsimp only at ht
    split_ifs at ht
    cases ht
    exact Nat.sub_le _ _
  have hpos : s.pos = buffer.length - (buffer.drop s.pos).length := by
    rw [List.length_drop]
    omega
  have hsuffix := List.drop_suffix s.pos buffer
  generalize buffer.drop s.pos = rest at hpos hsuffix
  have htmp := strtolAt_eq ((afterColon_suffix rest).trans hsuffix)
  rw [tempCursors, hpos, skipPrefix_eq hsuffix, htmp]
  intro pos hmem
  simp only [List.mem_cons, List.not_mem_nil, or_false] at hmem
  rcases hmem with rfl | rfl | rfl | rfl
  · exact Nat.sub_le _ _
  · exact Nat.sub_le _ _
  · exact Nat.sub_le _ _
  · split_ifs with hend
    · omega
    · exact Nat.sub_le _ _

end LibCollector.Collectors
