import LibCollector.Misc.Cycles
import LibCollector.Misc.OrdMap
import LibCollector.Misc.Text
import Mathlib.Data.List.Lex
import Mathlib.Data.Char

/-!
# The cpufreq collector

`CPUFreqCollector` of `src/collectors/cpufreq.cpp`, which averages the frequency of each core
over the time it has spent in each state. What the files of the kernel read is an input. The sums
do not overflow; an index out of range and a division by zero are `none`.

In each cycle the first sample is relative to the vector `times` that `start()` has appended to,
so a cycle measures what a fresh collector measures if the vector begins with the counters that
`start()` has read (`CPUFreqCollector.recorded_eq`).
-/

namespace LibCollector.Collectors

open LibCollector.Misc

/-- What the files of a core read during a call: the lines of `time_in_state`, the integers of
    `scaling_cur_freq`, and the one that is read when that file is read again. -/
structure CoreReading where
  timeInState : List (Int × Int)
  freqs : List Int
  curFreq : Option Int

/-- `Core`. `timeInState` says if that file is open; the other file always is. The frequencies are
    of type `int`. -/
structure Core where
  timeInState : Bool
  corename : Str
  frequencies : List Int
  times : List Int := []
  deriving DecidableEq

/-- The local variables `sum`, `values` and `freq` of `collect`, once the files are read. -/
structure Measured where
  sum : Int
  values : Int
  freq : Int
  deriving DecidableEq

namespace Core

/-- The loop of `start`. -/
def start (r : CoreReading) (c : Core) : Core :=
  if c.timeInState then { c with times := c.times ++ r.timeInState.map Prod.snd } else c

/-- The loop of `collect` over the lines, the frequencies and the times of a core: `sum`, `values`
    and the times that it leaves. -/
def measure : List (Int × Int) → List Int → List Int → Option (Int × Int × List Int)
  | [], _, times => some (0, 0, times)
  | line :: lines, frequency :: frequencies, last :: times =>
    (measure lines frequencies times).map fun m =>
      let relative := line.2 - last
      (relative * frequency + m.1, relative + m.2.1, line.2 :: m.2.2)
  | _ :: _, _, _ => none

/-- What `collect` reads for a core. -/
def read (r : CoreReading) (c : Core) : Option (Core × Measured) :=
  if c.timeInState then
    (measure r.timeInState c.frequencies c.times).map fun m =>
      ({ c with times := m.2.2 }, ⟨m.1, m.2.1, (r.timeInState.map Prod.fst).getLastD 0⟩)
  else
    some (c, ⟨r.freqs.getLastD 0, if r.freqs = [] then 0 else 1, r.freqs.getLastD 0⟩)

/-- The members of a core that no call changes. -/
def fixed (c : Core) : Bool × Str × List Int := (c.timeInState, c.corename, c.frequencies)

theorem fixed_start (r : CoreReading) (c : Core) : (c.start r).fixed = c.fixed := by
  rw [start]
  split_ifs <;> rfl

theorem fixed_read {r : CoreReading} {c : Core} {m : Core × Measured} (h : c.read r = some m) :
    m.1.fixed = c.fixed := by
  rw [read] at h
  split_ifs at h
  · obtain ⟨m', -, rfl⟩ := Option.map_eq_some_iff.mp h
    rfl
  · cases h
    rfl
  · cases h
    rfl

/-- Entries behind those of the frequencies are not used. -/
theorem measure_append (lines : List (Int × Int)) {frequencies times : List Int}
    (hlen : frequencies.length ≤ times.length) (more : List Int) :
    measure lines frequencies (times ++ more) =
      (measure lines frequencies times).map fun m => (m.1, m.2.1, m.2.2 ++ more) := by
  induction lines generalizing frequencies times with
  | nil => rfl
  | cons line lines ih =>
    cases frequencies with
    | nil => rfl
    | cons frequency frequencies =>
      cases times with
      | nil => cases hlen
      | cons last times =>
        rw [List.cons_append, measure, measure, ih (Nat.le_of_succ_le_succ hlen),
          Option.map_map, Option.map_map]
        rfl

theorem length_measure {lines : List (Int × Int)} {frequencies times : List Int}
    {m : Int × Int × List Int} (h : measure lines frequencies times = some m) :
    m.2.2.length = times.length := by
  induction lines generalizing frequencies times m with
  | nil =>
    cases h
    rfl
  | cons line lines ih =>
    cases frequencies with
    | nil => cases h
    | cons frequency frequencies =>
      cases times with
      | nil => cases h
      | cons last times =>
        obtain ⟨m', hm', rfl⟩ := Option.map_eq_some_iff.mp h
        simp [ih hm']

end Core

/-- `avg`, for the results that the core already has. -/
def Measured.avg (r : CoreReading) (results : List Int) (m : Measured) : Option Int :=
  if m.sum = 0 then
    match results.getLast? with
    | none => some (r.curFreq.getD m.freq)
    | some last => some last
  else if m.values = 0 then none
  else some (m.sum.tdiv m.values)

/-- The members of `CPUFreqCollector`. Nothing is summarised, so a series is its raw list. -/
structure CPUFreqCollector where
  mCores : List Core
  mResults : OrdMap Str (List Int) := ∅
  deriving DecidableEq

/-- `mResults[key]`. -/
def resultsUnder (results : OrdMap Str (List Int)) (key : Str) : List Int :=
  (results.find? key).getD []

/-- `add`. -/
def addResult (results : OrdMap Str (List Int)) (key : Str) (value : Int) :
    OrdMap Str (List Int) :=
  results.insert key (resultsUnder results key ++ [value])

namespace CPUFreqCollector

/-- `init`, for the lines of the `time_in_state` file of each core that has one. What does not fit
    into an `int` is cut off from a frequency. -/
def init (files : List (Option (List (Int × Int)))) : CPUFreqCollector where
  mCores := files.zipIdx.map fun file => {
    timeInState := file.1.isSome
    corename := "cpu_".toList ++ toChars file.2
    frequencies := (file.1.getD []).map fun line => int32 line.1 }

/-- `clear()` and `start()`, for what the files of the core of each name read. -/
def start (r : Str → CoreReading) (s : CPUFreqCollector) : CPUFreqCollector where
  mCores := s.mCores.map fun c => c.start (r c.corename)
  mResults := s.mResults.mapVal fun _ _ => []

/-- The loop of `collect` over the cores, with the values that it adds. -/
def collectCores (r : Str → CoreReading) :
    List Core → OrdMap Str (List Int) →
      Option (List Core × OrdMap Str (List Int) × List (Str × Int))
  | [], results => some ([], results, [])
  | c :: cores, results =>
    (c.read (r c.corename)).bind fun m =>
      (m.2.avg (r c.corename) (resultsUnder results c.corename)).bind fun avg =>
        (collectCores r cores (addResult results c.corename avg)).map fun rest =>
          (m.1 :: rest.1, rest.2.1, (c.corename, avg) :: rest.2.2)

/-- `highest_avg`. -/
def highestAvg (adds : List (Str × Int)) : Int :=
  adds.foldl (fun highest a => if highest < a.2 then a.2 else highest) 0

/-- `collect`, with the values that it adds. -/
def collect (s : CPUFreqCollector) (r : Str → CoreReading) :
    Option (CPUFreqCollector × List (Str × Int)) :=
  (collectCores r s.mCores s.mResults).map fun m =>
    let highest := highestAvg m.2.2
    (⟨m.1, addResult m.2.1 "highest_avg".toList highest⟩,
      m.2.2 ++ [("highest_avg".toList, highest)])

/-- A cycle of `start()`, some `collect()` and `stop()`: what is read by each, and the results that
    `postprocess` leaves. -/
structure Cycle where
  started : Str → CoreReading
  collected : List (Str → CoreReading)
  results : OrdMap Str (List Int)

/-- A cycle, with the values that each `collect()` adds. -/
def cycle (s : CPUFreqCollector) (r : Cycle) :
    Option (CPUFreqCollector × List (List (Str × Int))) :=
  (recordAll collect (s.start r.started) r.collected).map fun m =>
    ({ m.1 with mResults := r.results }, m.2)

/-! ## Cycles from the same baseline -/

/-- The core of a fresh collector and the same core later: the times of the former are the first
    ones of the latter. -/
structure SameBaseline (c fresh : Core) : Prop where
  timeInState : c.timeInState = fresh.timeInState
  corename : c.corename = fresh.corename
  frequencies : c.frequencies = fresh.frequencies
  times : fresh.timeInState = true → fresh.times <+: c.times ∧
    fresh.frequencies.length ≤ fresh.times.length

/-- Collectors that measure the same: the same baseline and results under the same keys. -/
structure Alike (s fresh : CPUFreqCollector) : Prop where
  cores : List.Forall₂ SameBaseline s.mCores fresh.mCores
  results : ∀ key, resultsUnder s.mResults key = resultsUnder fresh.mResults key

theorem resultsUnder_addResult (results : OrdMap Str (List Int)) (key key' : Str) (value : Int) :
    resultsUnder (addResult results key value) key' =
      resultsUnder results key' ++ if key' = key then [value] else [] := by
  rw [resultsUnder, addResult, OrdMap.find?_insert]
  split_ifs with h
  · rw [h, Option.getD_some]
  · rw [List.append_nil, resultsUnder]

theorem SameBaseline.read {c fresh : Core} (h : SameBaseline c fresh) (r : CoreReading) :
    SameRecord SameBaseline (c.read r) (fresh.read r) := by
  rw [Core.read, Core.read]
  by_cases hopen : fresh.timeInState = true
  · obtain ⟨⟨more, hmore⟩, hlen⟩ := h.times hopen
    have hmeasure := Core.measure_append r.timeInState hlen more
    rw [hmore, ← h.frequencies] at hmeasure
    rw [if_pos (h.timeInState.trans hopen), if_pos hopen, hmeasure, ← h.frequencies,
      Option.map_map]
    cases hm : Core.measure r.timeInState c.frequencies fresh.times with
    | none => exact .none
    | some m =>
      refine .some ⟨⟨h.timeInState, h.corename, rfl, fun _ => ?_⟩, rfl⟩
      rw [h.frequencies]
      exact ⟨List.prefix_append _ _, hlen.trans_eq (Core.length_measure hm).symm⟩
  · rw [if_neg (h.timeInState ▸ hopen), if_neg hopen]
    exact .some ⟨h, rfl⟩

theorem Alike.collectCores {cores cores' : List Core} {results results' : OrdMap Str (List Int)}
    (hcores : List.Forall₂ SameBaseline cores cores')
    (hresults : ∀ key, resultsUnder results key = resultsUnder results' key)
    (r : Str → CoreReading) :
    Option.Rel (fun m m' => List.Forall₂ SameBaseline m.1 m'.1 ∧
        (∀ key, resultsUnder m.2.1 key = resultsUnder m'.2.1 key) ∧ m.2.2 = m'.2.2)
      (collectCores r cores results) (CPUFreqCollector.collectCores r cores' results') := by
  induction hcores generalizing results results' with
  | nil => exact .some ⟨.nil, hresults, rfl⟩
  | @cons c c' cores cores' hc _ ih =>
    have hread := hc.read (r c.corename)
    rw [CPUFreqCollector.collectCores, CPUFreqCollector.collectCores, ← hc.corename]
    generalize c.read (r c.corename) = m at hread
    generalize c'.read (r c.corename) = m' at hread
    cases hread with
    | none => exact .none
    | @some m m' h =>
      rw [Option.bind_some, Option.bind_some, ← h.2, ← hresults]
      cases m.2.avg (r c.corename) (resultsUnder results c.corename) with
      | none => exact .none
      | some avg =>
        have hadd : ∀ key, resultsUnder (addResult results c.corename avg) key =
            resultsUnder (addResult results' c.corename avg) key := by
          intro key
          rw [resultsUnder_addResult, resultsUnder_addResult, hresults]
        have hrest := ih hadd
        rw [Option.bind_some, Option.bind_some]
        generalize CPUFreqCollector.collectCores r cores _ = u at hrest
        generalize CPUFreqCollector.collectCores r cores' _ = u' at hrest
        cases hrest with
        | none => exact .none
        | some hrest =>
          exact .some ⟨.cons h.1 hrest.1, hrest.2.1, congrArg (_ :: ·) hrest.2.2⟩

theorem Alike.collect {s fresh : CPUFreqCollector} (h : Alike s fresh) (r : Str → CoreReading) :
    SameRecord Alike (s.collect r) (fresh.collect r) := by
  have hcores := Alike.collectCores h.cores h.results r
  rw [CPUFreqCollector.collect, CPUFreqCollector.collect]
  generalize CPUFreqCollector.collectCores r s.mCores s.mResults = m at hcores
  generalize CPUFreqCollector.collectCores r fresh.mCores fresh.mResults = m' at hcores
  cases hcores with
  | none => exact .none
  | some hm =>
    obtain ⟨hbase, hresults, hadds⟩ := hm
    refine .some ⟨⟨hbase, fun key => ?_⟩, ?_⟩
    · simp only [resultsUnder_addResult, hresults, hadds]
    · simp only [hadds]

/-- In a cycle with a sample, the counters that `start()` reads for a core are the first ones of its
    `times` then, one for each of its frequencies. -/
def BaselineRead (s : CPUFreqCollector) (r : Cycle) : Prop :=
  r.collected ≠ [] → ∀ c ∈ s.mCores, c.timeInState = true →
    (r.started c.corename).timeInState.map Prod.snd <+: (c.start (r.started c.corename)).times ∧
    c.frequencies.length ≤ (r.started c.corename).timeInState.length

/-- The cores of `s` are those that `init` has found. -/
def Known (files : List (Option (List (Int × Int)))) (s : CPUFreqCollector) : Prop :=
  s.mCores.map Core.fixed = (init files).mCores.map Core.fixed

theorem times_init {files : List (Option (List (Int × Int)))} {c : Core}
    (h : c ∈ (init files).mCores) : c.times = [] := by
  obtain ⟨file, -, rfl⟩ := List.mem_map.mp h
  rfl

/-- From the baseline that `start()` reads, a cycle records what a fresh collector does. -/
theorem recorded_eq {files : List (Option (List (Int × Int)))} {s : CPUFreqCollector} {r : Cycle}
    (hs : Known files s) (hr : BaselineRead s r) :
    recorded cycle s r = recorded cycle (init files) r := by
  rcases eq_or_ne r.collected [] with hnone | hsome
  · rw [recorded, recorded, cycle, cycle, hnone]
    rfl
  have hempty : ∀ (results : OrdMap Str (List Int)) (key : Str),
      resultsUnder (results.mapVal fun _ _ => []) key = [] := by
    intro results key
    rw [resultsUnder, OrdMap.find?_mapVal]
    cases results.find? key <;> rfl
  have hstart : Alike (s.start r.started) ((init files).start r.started) := by
    refine ⟨?_, fun key => ?_⟩
    · rw [Known, ← List.forall₂_eq_eq_eq, List.forall₂_map_left_iff, List.forall₂_map_right_iff,
        List.forall₂_iff_zip] at hs
      rw [start, start, List.forall₂_map_left_iff, List.forall₂_map_right_iff,
        List.forall₂_iff_zip]
      refine ⟨hs.1, fun {c fresh} hmem => ?_⟩
      have hfixed := hs.2 hmem
      obtain ⟨hc, hfresh⟩ := List.of_mem_zip hmem
      have hopen : c.timeInState = fresh.timeInState := congrArg (·.1) hfixed
      have hname : c.corename = fresh.corename := congrArg (·.2.1) hfixed
      have hfreqs : c.frequencies = fresh.frequencies := congrArg (·.2.2) hfixed
      have hstarted : (c.start (r.started c.corename)).fixed =
          (fresh.start (r.started fresh.corename)).fixed := by
        rw [Core.fixed_start, Core.fixed_start, hfixed]
      refine ⟨congrArg (·.1) hstarted, congrArg (·.2.1) hstarted, congrArg (·.2.2) hstarted, ?_⟩
      intro htis
      have htis' : fresh.timeInState = true := by
        rw [← htis]
        exact (congrArg (·.1) (Core.fixed_start (r.started fresh.corename) fresh)).symm
      obtain ⟨hfirst, hlen⟩ := hr hsome c hc (hopen.trans htis')
      have htimes : (fresh.start (r.started fresh.corename)).times =
          (r.started c.corename).timeInState.map Prod.snd := by
        rw [Core.start, if_pos htis', times_init hfresh, hname]
        rfl
      have hkeep : (fresh.start (r.started fresh.corename)).frequencies = fresh.frequencies :=
        congrArg (·.2.2) (Core.fixed_start (r.started fresh.corename) fresh)
      rw [htimes, hkeep, ← hfreqs, List.length_map]
      exact ⟨hfirst, hlen⟩
    · rw [start, start, hempty, hempty]
  have hall := SameRecord.recordAll (fun s t r h => Alike.collect h r) hstart r.collected
  rw [recorded, recorded, cycle, cycle, Option.map_map, Option.map_map]
  exact hall.map_snd

theorem fixed_collectCores {r : Str → CoreReading} {cores : List Core}
    {results : OrdMap Str (List Int)} {m : List Core × OrdMap Str (List Int) × List (Str × Int)}
    (h : collectCores r cores results = some m) :
    m.1.map Core.fixed = cores.map Core.fixed := by
  induction cores generalizing results m with
  | nil =>
    cases h
    rfl
  | cons c cores ih =>
    obtain ⟨m', hread, h⟩ := Option.bind_eq_some_iff.mp h
    obtain ⟨avg, -, h⟩ := Option.bind_eq_some_iff.mp h
    obtain ⟨rest, hrest, rfl⟩ := Option.map_eq_some_iff.mp h
    rw [List.map_cons, List.map_cons, ih hrest, Core.fixed_read hread]

/-- The cores stay those that `init` has found. -/
theorem known_afterCycle {files : List (Option (List (Int × Int)))} {s t : CPUFreqCollector}
    {r : Cycle} (hs : Known files s) (h : afterCycle cycle s r = some t) : Known files t := by
  obtain ⟨m, hm, rfl⟩ := Option.map_eq_some_iff.mp h
  obtain ⟨u, hu, rfl⟩ := Option.map_eq_some_iff.mp hm
  have hcollect : ∀ (s : CPUFreqCollector) (r : Str → CoreReading)
      (t : CPUFreqCollector × List (Str × Int)), Known files s → s.collect r = some t →
      Known files t.1 := by
    intro s r t hs ht
    obtain ⟨m, hm, rfl⟩ := Option.map_eq_some_iff.mp ht
    exact (fixed_collectCores hm).trans hs
  have hstart : Known files (s.start r.started) := by
    rw [Known, start, List.map_map, ← hs]
    exact List.map_congr_left fun c _ => Core.fixed_start _ c
  have hlast : Known files u.1 := recordAll_invariant hcollect hstart hu
  exact hlast

end CPUFreqCollector

end LibCollector.Collectors
