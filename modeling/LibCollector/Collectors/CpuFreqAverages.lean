import LibCollector.Collectors.CpuFreq
import LibCollector.Misc.Run
import LibCollector.Misc.WeightedMean

/-!
# The averages of the cpufreq collector

`CPUFreqCollector` together with `summarize()`, which empties the series that `collect` looks into
for the previous result. `Sampled` is what a sample has to be, relative to the call before;
`Averaging` is what a `collect` needs for it: the times of `start()` where the collector looks for
them, and a previous result that has not been summarised. As before, the sums do not overflow; a
listed frequency that does not fit into an `int` is another one in the collector.
-/

namespace LibCollector.Collectors

open LibCollector.Misc

/-! ## The collector -/

/-- `CollectorValueList` of type `TYPE_I64`. -/
structure Series where
  list : List Int := []
  summaries : List Int := []
  deriving DecidableEq

namespace Series

/-- `push_back`. -/
def pushBack (value : Int) (l : Series) : Series := { l with list := l.list ++ [value] }

/-- `summarize`; the average of no values is a division by zero. -/
def summarize (l : Series) : Option Series :=
  if l.list = [] then none
  else some ⟨[], l.summaries ++ [l.list.sum.tdiv l.list.length]⟩

/-- `data`. -/
def data (l : Series) : List Int := if l.summaries ≠ [] then l.summaries else l.list

/-- What `collect` takes the last value of: `data()`, if `size()` is not zero. -/
def previous (l : Series) : List Int := if l.list = [] then [] else l.data

end Series

/-- The members of `CPUFreqCollector` that the calls use. -/
structure SummarizedCPUFreq where
  mCores : List Core
  mResults : OrdMap Str Series := ∅
  deriving DecidableEq

/-- `mResults[key]`. -/
def seriesUnder (results : OrdMap Str Series) (key : Str) : Series := (results.find? key).getD {}

/-- `add`. -/
def addValue (results : OrdMap Str Series) (key : Str) (value : Int) : OrdMap Str Series :=
  results.insert key ((seriesUnder results key).pushBack value)

theorem seriesUnder_addValue (results : OrdMap Str Series) (key key' : Str) (value : Int) :
    seriesUnder (addValue results key value) key' =
      if key' = key then (seriesUnder results key).pushBack value
      else seriesUnder results key' := by
  rw [seriesUnder, addValue, OrdMap.find?_insert]
  split_ifs <;> rfl

/-- The readings that one call takes of the cores, by their names. -/
abbrev Readings := Str → CoreReading

namespace SummarizedCPUFreq

/-- `init`, for the lines of the `time_in_state` file of each core. -/
def init (files : List (List (Int × Int))) : SummarizedCPUFreq where
  mCores := (CPUFreqCollector.init (files.map some)).mCores

/-- `start`. -/
def start (r : Readings) (s : SummarizedCPUFreq) : SummarizedCPUFreq :=
  { s with mCores := s.mCores.map fun c => c.start (r c.corename) }

/-- The loop of `collect` over the cores, with the values that it adds. -/
def collectCores (r : Readings) :
    List Core → OrdMap Str Series → Option (List Core × OrdMap Str Series × List (Str × Int))
  | [], results => some ([], results, [])
  | c :: cores, results =>
    (c.read (r c.corename)).bind fun m =>
      (m.2.avg (r c.corename) (seriesUnder results c.corename).previous).bind fun avg =>
        (collectCores r cores (addValue results c.corename avg)).map fun rest =>
          (m.1 :: rest.1, rest.2.1, (c.corename, avg) :: rest.2.2)

/-- `collect`, with the values that it adds. -/
def collect (r : Readings) (s : SummarizedCPUFreq) :
    Option (SummarizedCPUFreq × List (Str × Int)) :=
  (collectCores r s.mCores s.mResults).map fun m =>
    let highest := CPUFreqCollector.highestAvg m.2.2
    (⟨m.1, addValue m.2.1 "highest_avg".toList highest⟩,
      m.2.2 ++ [("highest_avg".toList, highest)])

/-- `summarize`. -/
def summarize (s : SummarizedCPUFreq) : Option SummarizedCPUFreq :=
  (s.mResults.mapM Series.summarize).map fun results => { s with mResults := results }

end SummarizedCPUFreq

/-! ## Without averages -/

/-- Without averages the previous values are the raw list. -/
theorem Series.previous_eq_list {l : Series} (h : l.summaries = []) : l.previous = l.list := by
  rw [previous, data, if_neg (not_not.mpr h)]
  split_ifs with hnil
  · exact hnil.symm
  · rfl

namespace SummarizedCPUFreq

theorem collectCores_unsummarized {r : Readings} {cores : List Core}
    {results : OrdMap Str Series} {results' : OrdMap Str (List Int)}
    (h : ∀ key, (seriesUnder results key).summaries = [] ∧
      resultsUnder results' key = (seriesUnder results key).list) :
    (collectCores r cores results).map (fun m => (m.1, m.2.2)) =
      (CPUFreqCollector.collectCores r cores results').map fun m => (m.1, m.2.2) := by
  induction cores generalizing results results' with
  | nil => rfl
  | cons c cores ih =>
    obtain ⟨hsums, hlist⟩ := h c.corename
    rw [collectCores, CPUFreqCollector.collectCores, Series.previous_eq_list hsums, ← hlist]
    cases c.read (r c.corename) with
    | none => rfl
    | some m =>
      rw [Option.bind_some, Option.bind_some]
      cases m.2.avg (r c.corename) (resultsUnder results' c.corename) with
      | none => rfl
      | some avg =>
        have hadd : ∀ key, (seriesUnder (addValue results c.corename avg) key).summaries = [] ∧
            resultsUnder (addResult results' c.corename avg) key =
              (seriesUnder (addValue results c.corename avg) key).list := by
          intro key
          rw [seriesUnder_addValue, CPUFreqCollector.resultsUnder_addResult]
          split_ifs with hkey
          · rw [hkey, hlist]
            exact ⟨hsums, rfl⟩
          · rw [List.append_nil]
            exact h key
        have hrest := congrArg (Option.map fun u => (m.1 :: u.1, (c.corename, avg) :: u.2))
          (ih hadd)
        rw [Option.map_map, Option.map_map] at hrest
        rw [Option.bind_some, Option.bind_some, Option.map_map, Option.map_map]
        exact hrest

/-- As long as nothing has been summarised, `collect` is the one that `CPUFreqCollector` models. -/
theorem collect_unsummarized {r : Readings} {s : SummarizedCPUFreq}
    (h : ∀ key, (seriesUnder s.mResults key).summaries = []) :
    (s.collect r).map Prod.snd =
      (CPUFreqCollector.collect ⟨s.mCores, s.mResults.mapVal fun _ l => l.list⟩ r).map
        Prod.snd := by
  have hlist : ∀ key, resultsUnder (s.mResults.mapVal fun _ l => l.list) key =
      (seriesUnder s.mResults key).list := by
    intro key
    rw [resultsUnder, seriesUnder, OrdMap.find?_mapVal]
    cases s.mResults.find? key <;> rfl
  have hcores := congrArg (Option.map fun u =>
      u.2 ++ [("highest_avg".toList, CPUFreqCollector.highestAvg u.2)])
    (@collectCores_unsummarized r s.mCores _ _ fun key => ⟨h key, hlist key⟩)
  rw [Option.map_map, Option.map_map] at hcores
  rw [collect, CPUFreqCollector.collect, Option.map_map, Option.map_map]
  exact hcores

end SummarizedCPUFreq

/-! ## Runs -/

/-- A call on the collector. -/
inductive FreqCall where
  | start (r : Readings)
  | collect (r : Readings)
  | summarize

/-- What a run has seen: the readings of the last `start()` or `collect()`, and what the last
    `collect()` has added. -/
structure FreqHistory where
  baseline : Option Readings := none
  previous : List (Str × Int) := []

/-- One call; `none` is a division by zero or an index out of range. -/
def freqStep (s : SummarizedCPUFreq × FreqHistory) :
    FreqCall → Option (SummarizedCPUFreq × FreqHistory)
  | .start r => some (s.1.start r, { s.2 with baseline := some r })
  | .collect r => (s.1.collect r).map fun out => (out.1, ⟨some r, out.2⟩)
  | .summarize => s.1.summarize.map fun c => (c, s.2)

/-! ## What a sample has to be -/

/-- The time that has passed in each state from one reading to another. -/
def increments (b r : CoreReading) : List Int :=
  List.zipWith (· - ·) (r.timeInState.map Prod.snd) (b.timeInState.map Prod.snd)

/-- Some time has advanced. -/
def Advanced (b r : CoreReading) : Prop := ∃ i ∈ increments b r, i ≠ 0

instance (b r : CoreReading) : Decidable (Advanced b r) :=
  inferInstanceAs (Decidable (∃ i ∈ increments b r, i ≠ 0))

/-- The sample of a core, for its readings of the call before and of this one and what the
    preceding `collect()` has added. -/
structure Sampled (c : Core) (b r : CoreReading) (previous : List (Str × Int)) (avg : Int) :
    Prop where
  mean : Advanced b r →
    avg = (weightedSum (increments b r) c.frequencies).tdiv (increments b r).sum ∧
    (∃ f ∈ c.frequencies, f ≤ avg) ∧ ∃ f ∈ c.frequencies, avg ≤ f
  reused : ¬ Advanced b r → ∀ value, (c.corename, value) ∈ previous → avg = value
  current : ¬ Advanced b r → previous = [] → ∀ f, r.curFreq = some f → avg = f

/-- What a `collect()` has to add. -/
structure Averages (s : SummarizedCPUFreq × FreqHistory) (r : Readings) (adds : List (Str × Int)) :
    Prop where
  samples : ∃ b samples highest, s.2.baseline = some b ∧
    adds = samples ++ [("highest_avg".toList, highest)] ∧
    List.Forall₂ (fun c a => a.1 = c.corename ∧
      Sampled c (b c.corename) (r c.corename) s.2.previous a.2) s.1.mCores samples ∧
    (∀ a ∈ samples, a.2 ≤ highest) ∧ (samples ≠ [] → ∃ a ∈ samples, a.2 = highest)

/-- A reading of a core has one line for each frequency, its frequencies are not negative, and no
    time is less than in the reading before. -/
structure KeepsRows (baseline : Option Readings) (c : Core) (r : CoreReading) : Prop where
  rows : r.timeInState.length = c.frequencies.length
  listed : ∀ line ∈ r.timeInState, 0 < line.1
  current : ∀ f ∈ r.curFreq, 0 ≤ f
  increasing : ∀ b ∈ baseline, ∀ i ∈ increments (b c.corename) r, 0 ≤ i

/-- The readings of a call are those of such cores. -/
def Keeps (s : SummarizedCPUFreq × FreqHistory) : FreqCall → Prop
  | .start r => ∀ c ∈ s.1.mCores, KeepsRows s.2.baseline c (r c.corename)
  | .collect r => ∀ c ∈ s.1.mCores, KeepsRows s.2.baseline c (r c.corename)
  | .summarize => True

/-- The times that the call before has read are the first ones of each core, and where no time has
    advanced, the previous result has not been summarised. -/
def Fresh (s : SummarizedCPUFreq × FreqHistory) (b r : Readings) : Prop :=
  ∀ c ∈ s.1.mCores, (b c.corename).timeInState.map Prod.snd <+: c.times ∧
    (¬ Advanced (b c.corename) (r c.corename) → s.2.previous ≠ [] →
      (seriesUnder s.1.mResults c.corename).summaries = [])

/-- What a `collect()` needs. -/
def Averaging (s : SummarizedCPUFreq × FreqHistory) : FreqCall → Prop
  | .collect r => ∃ b ∈ s.2.baseline, Fresh s b r
  | _ => True

instance (baseline : Option Readings) (c : Core) (r : CoreReading) :
    Decidable (KeepsRows baseline c r) :=
  decidable_of_iff (r.timeInState.length = c.frequencies.length ∧
      (∀ line ∈ r.timeInState, 0 < line.1) ∧ (∀ f ∈ r.curFreq, 0 ≤ f) ∧
      ∀ b ∈ baseline, ∀ i ∈ increments (b c.corename) r, 0 ≤ i)
    ⟨fun h => ⟨h.1, h.2.1, h.2.2.1, h.2.2.2⟩, fun h => ⟨h.1, h.2, h.3, h.4⟩⟩

instance (s : SummarizedCPUFreq × FreqHistory) : ∀ call, Decidable (Keeps s call)
  | .start r =>
    inferInstanceAs (Decidable (∀ c ∈ s.1.mCores, KeepsRows s.2.baseline c (r c.corename)))
  | .collect r =>
    inferInstanceAs (Decidable (∀ c ∈ s.1.mCores, KeepsRows s.2.baseline c (r c.corename)))
  | .summarize => isTrue trivial

instance (s : SummarizedCPUFreq × FreqHistory) (b r : Readings) : Decidable (Fresh s b r) :=
  inferInstanceAs (Decidable (∀ c ∈ s.1.mCores, _ ∧ (_ → _ → _)))

instance (s : SummarizedCPUFreq × FreqHistory) : ∀ call, Decidable (Averaging s call)
  | .collect r => inferInstanceAs (Decidable (∃ b ∈ s.2.baseline, Fresh s b r))
  | .start _ => isTrue trivial
  | .summarize => isTrue trivial

/-! ## One core -/

/-- `measure` gives the weighted sum of the frequencies, and the sum of the weights. -/
theorem Core.measure_eq {lines : List (Int × Int)} {frequencies times : List Int}
    (hlines : lines.length = frequencies.length) (htimes : times.length = frequencies.length) :
    Core.measure lines frequencies times =
      some (weightedSum (List.zipWith (· - ·) (lines.map Prod.snd) times) frequencies,
        (List.zipWith (· - ·) (lines.map Prod.snd) times).sum, lines.map Prod.snd) := by
  induction lines generalizing frequencies times with
  | nil =>
    obtain rfl := List.eq_nil_of_length_eq_zero (htimes.trans hlines.symm)
    rfl
  | cons line lines ih =>
    cases frequencies with
    | nil => cases hlines
    | cons frequency frequencies =>
      cases times with
      | nil => cases htimes
      | cons last times =>
        rw [Core.measure, ih (Nat.succ.inj hlines) (Nat.succ.inj htimes)]
        simp

/-- What `collect` reads for a core whose first times are those of the reading `b`. -/
theorem Core.read_eq {c : Core} {b r : CoreReading} (hopen : c.timeInState = true)
    (hrows : r.timeInState.length = c.frequencies.length)
    (hkept : b.timeInState.length = c.frequencies.length)
    (hbase : b.timeInState.map Prod.snd <+: c.times) :
    ∃ times, c.read r = some ({ c with times := times },
      ⟨weightedSum (increments b r) c.frequencies, (increments b r).sum,
        (r.timeInState.map Prod.fst).getLastD 0⟩) := by
  obtain ⟨more, hmore⟩ := hbase
  have hlen : (b.timeInState.map Prod.snd).length = c.frequencies.length := by
    rw [List.length_map, hkept]
  have hmeasure := Core.measure_append r.timeInState hlen.ge more
  rw [hmore, Core.measure_eq hrows hlen] at hmeasure
  exact ⟨_, by rw [Core.read, if_pos hopen, hmeasure]; rfl⟩

/-- What the sample of a core is made of: the readings of the call before and of this one, and the
    series of the core. -/
structure Ready (c : Core) (b r : CoreReading) (previous : List (Str × Int)) (l : Series) :
    Prop where
  timeInState : c.timeInState = true
  positive : ∀ f ∈ c.frequencies, 0 < f
  rows : r.timeInState.length = c.frequencies.length
  listed : ∀ line ∈ r.timeInState, 0 < line.1
  current : ∀ f ∈ r.curFreq, 0 ≤ f
  kept : b.timeInState.length = c.frequencies.length
  increasing : ∀ i ∈ increments b r, 0 ≤ i
  baseline : b.timeInState.map Prod.snd <+: c.times
  first : previous = [] → l = {}
  added : previous ≠ [] → ∃ value, (c.corename, value) ∈ previous
  last : ∀ value, (c.corename, value) ∈ previous →
    0 ≤ value ∧ (l.summaries = [] → l.list.getLast? = some value)
  unsummarized : ¬ Advanced b r → previous ≠ [] → l.summaries = []

/-- A series that has not been summarised gives its last value. -/
theorem Series.getLast?_previous {l : Series} {value : Int} (hsums : l.summaries = [])
    (hlast : l.list.getLast? = some value) : l.previous.getLast? = some value := by
  have hne : l.list ≠ [] := by
    intro hnil
    rw [hnil] at hlast
    cases hlast
  rw [Series.previous, if_neg hne, Series.data, if_neg (not_not.mpr hsums), hlast]

/-- The frequency that is taken where there is no previous result. -/
theorem Ready.current_nonneg {c : Core} {b r : CoreReading} {previous : List (Str × Int)}
    {l : Series} (h : Ready c b r previous l) :
    0 ≤ r.curFreq.getD ((r.timeInState.map Prod.fst).getLastD 0) := by
  cases hcurrent : r.curFreq with
  | some f => exact h.current f hcurrent
  | none =>
    rw [Option.getD_none, List.getLastD_eq_getLast?]
    cases hlast : (r.timeInState.map Prod.fst).getLast? with
    | none => exact le_refl 0
    | some f =>
      obtain ⟨line, hline, rfl⟩ := List.mem_map.mp (List.mem_of_getLast? hlast)
      exact (h.listed line hline).le

/-- The sample of a core is what it has to be. -/
theorem Ready.sampled {c : Core} {b r : CoreReading} {previous : List (Str × Int)} {l : Series}
    (h : Ready c b r previous l) :
    ∃ times m avg, c.read r = some ({ c with times := times }, m) ∧
      m.avg r l.previous = some avg ∧ Sampled c b r previous avg ∧ 0 ≤ avg := by
  have hlen : (increments b r).length = c.frequencies.length := by
    rw [increments, List.length_zipWith, List.length_map, List.length_map, h.rows, h.kept,
      Nat.min_self]
  obtain ⟨times, hread⟩ := Core.read_eq h.timeInState h.rows h.kept h.baseline
  by_cases hadvanced : Advanced b r
  · have hsum := weightedSum_pos hlen h.increasing h.positive hadvanced
    have htotal := sum_pos_of_weight h.increasing hadvanced
    obtain ⟨⟨lo, hlo, hle⟩, hhi⟩ := tdiv_weightedSum_mem_Icc hlen h.increasing h.positive hadvanced
    refine ⟨times, _, _, hread, ?_, ⟨fun _ => ⟨rfl, ⟨lo, hlo, hle⟩, hhi⟩,
      fun hnot => absurd hadvanced hnot, fun hnot => absurd hadvanced hnot⟩,
      (h.positive lo hlo).le.trans hle⟩
    rw [Measured.avg, if_neg hsum.ne', if_neg htotal.ne']
  · have hsum : weightedSum (increments b r) c.frequencies = 0 := by
      refine weightedSum_eq_zero (fun i hi => ?_) _
      by_contra hne
      exact hadvanced ⟨i, hi, hne⟩
    by_cases hprevious : previous = []
    · -- nothing has been added before
      have hlast : l.previous.getLast? = none := by
        rw [h.first hprevious]
        rfl
      refine ⟨times, _, r.curFreq.getD ((r.timeInState.map Prod.fst).getLastD 0), hread, ?_,
        ⟨fun hnot => absurd hnot hadvanced, ?_, ?_⟩, h.current_nonneg⟩
      · rw [Measured.avg, if_pos hsum, hlast]
      · intro _ value hvalue
        rw [hprevious] at hvalue
        cases hvalue
      · intro _ _ f hf
        rw [hf, Option.getD_some]
    · obtain ⟨value, hvalue⟩ := h.added hprevious
      obtain ⟨hnonneg, hlast⟩ := h.last value hvalue
      have hsums := h.unsummarized hadvanced hprevious
      refine ⟨times, _, value, hread, ?_, ⟨fun hnot => absurd hnot hadvanced, ?_, ?_⟩, hnonneg⟩
      · rw [Measured.avg, if_pos hsum, Series.getLast?_previous hsums (hlast hsums)]
      · intro _ value' hvalue'
        have hlast' := (h.last value' hvalue').2 hsums
        exact Option.some.inj ((hlast hsums).symm.trans hlast')
      · intro _ hnil
        exact absurd hnil hprevious

/-! ## One call -/

/-- The members of the cores that no call changes, what has been added for them and what a run has
    seen. -/
structure FreqInv (cores : List (Bool × Str × List Int)) (results : OrdMap Str Series)
    (h : FreqHistory) : Prop where
  measured : ∀ k ∈ cores, k.1 = true ∧ k.2.1 ≠ "highest_avg".toList ∧ ∀ f ∈ k.2.2, 0 < f
  names : (cores.map (·.2.1)).Nodup
  kept : ∀ b ∈ h.baseline, ∀ k ∈ cores, (b k.2.1).timeInState.length = k.2.2.length
  first : h.previous = [] → ∀ key, seriesUnder results key = {}
  added : h.previous ≠ [] → ∀ k ∈ cores, ∃ value, (k.2.1, value) ∈ h.previous
  last : ∀ k ∈ cores, ∀ value, (k.2.1, value) ∈ h.previous → 0 ≤ value ∧
    ((seriesUnder results k.2.1).summaries = [] →
      (seriesUnder results k.2.1).list.getLast? = some value)

/-- The invariant of the runs. -/
def FreqReached (s : SummarizedCPUFreq × FreqHistory) : Prop :=
  FreqInv (s.1.mCores.map Core.fixed) s.1.mResults s.2

/-- Every core is ready for a `collect()` that meets the condition. -/
theorem FreqReached.ready {s : SummarizedCPUFreq × FreqHistory} {r b : Readings}
    (hs : FreqReached s) (hkeeps : Keeps s (.collect r)) (hb : s.2.baseline = some b)
    (hmet : Fresh s b r) :
    ∀ c ∈ s.1.mCores, Ready c (b c.corename) (r c.corename) s.2.previous
      (seriesUnder s.1.mResults c.corename) := by
  intro c hc
  have hfixed : c.fixed ∈ s.1.mCores.map Core.fixed := List.mem_map_of_mem hc
  obtain ⟨hopen, -, hpositive⟩ := hs.measured c.fixed hfixed
  obtain ⟨hrows, hlisted, hcurrent, hincreasing⟩ := hkeeps c hc
  exact {
    timeInState := hopen
    positive := hpositive
    rows := hrows
    listed := hlisted
    current := hcurrent
    kept := hs.kept b hb c.fixed hfixed
    increasing := hincreasing b hb
    baseline := (hmet c hc).1
    first := fun hnil => hs.first hnil c.corename
    added := fun hne => hs.added hne c.fixed hfixed
    last := hs.last c.fixed hfixed
    unsummarized := (hmet c hc).2 }

theorem exists_of_forall₂ {α β : Type} {R : α → β → Prop} {xs : List α} {ys : List β}
    (h : List.Forall₂ R xs ys) : ∀ x ∈ xs, ∃ y ∈ ys, R x y := by
  induction h with
  | nil =>
    intro x hx
    cases hx
  | @cons x y xs ys hxy _ ih =>
    rw [List.forall_mem_cons]
    refine ⟨⟨y, List.mem_cons_self, hxy⟩, fun x' hx' => ?_⟩
    obtain ⟨y', hy', hxy'⟩ := ih x' hx'
    exact ⟨y', List.mem_cons_of_mem _ hy', hxy'⟩

/-- The loop over the cores adds what the samples have to be. -/
theorem exists_collectCores {b r : Readings} {previous : List (Str × Int)} {cores : List Core}
    {results : OrdMap Str Series} (hnames : (cores.map Core.corename).Nodup)
    (hready : ∀ c ∈ cores, Ready c (b c.corename) (r c.corename) previous
      (seriesUnder results c.corename)) :
    ∃ m, SummarizedCPUFreq.collectCores r cores results = some m ∧
      m.1.map Core.fixed = cores.map Core.fixed ∧
      List.Forall₂ (fun c a => a.1 = c.corename ∧
        Sampled c (b c.corename) (r c.corename) previous a.2) cores m.2.2 ∧
      (∀ a ∈ m.2.2, 0 ≤ a.2 ∧ seriesUnder m.2.1 a.1 = (seriesUnder results a.1).pushBack a.2) ∧
      ∀ key ∉ cores.map Core.corename, seriesUnder m.2.1 key = seriesUnder results key := by
  induction cores generalizing results with
  | nil =>
    refine ⟨_, rfl, rfl, .nil, ?_, fun key _ => rfl⟩
    intro a ha
    cases ha
  | cons c cores ih =>
    obtain ⟨hnew, hnames⟩ := List.nodup_cons.mp hnames
    obtain ⟨times, m, avg, hread, havg, hsampled, hnonneg⟩ :=
      (hready c List.mem_cons_self).sampled
    have hother (key : Str) (hkey : key ≠ c.corename) :
        seriesUnder (addValue results c.corename avg) key = seriesUnder results key := by
      rw [seriesUnder_addValue, if_neg hkey]
    have hrest : ∀ c' ∈ cores, Ready c' (b c'.corename) (r c'.corename) previous
        (seriesUnder (addValue results c.corename avg) c'.corename) := by
      intro c' hc'
      have hne : c'.corename ≠ c.corename := by
        intro heq
        exact hnew (heq ▸ List.mem_map_of_mem hc')
      rw [hother _ hne]
      exact hready c' (List.mem_cons_of_mem _ hc')
    obtain ⟨m', hm', hfixed, hsamples, hadded, hsame⟩ := ih hnames hrest
    refine ⟨({ c with times := times } :: m'.1, m'.2.1, (c.corename, avg) :: m'.2.2), ?_, ?_,
      .cons ⟨rfl, hsampled⟩ hsamples, ?_, ?_⟩
    · rw [SummarizedCPUFreq.collectCores, hread, Option.bind_some, havg, Option.bind_some, hm',
        Option.map_some]
    · rw [List.map_cons, List.map_cons, hfixed]
      rfl
    · intro a ha
      rcases List.mem_cons.mp ha with rfl | ha
      · refine ⟨hnonneg, ?_⟩
        dsimp only
        rw [hsame _ hnew, seriesUnder_addValue, if_pos rfl]
      · obtain ⟨c', hc', hname, -⟩ := exists_of_forall₂ hsamples.flip a ha
        have hne : a.1 ≠ c.corename := by
          intro heq
          exact hnew (heq ▸ hname ▸ List.mem_map_of_mem hc')
        refine ⟨(hadded a ha).1, ?_⟩
        dsimp only
        rw [(hadded a ha).2, hother _ hne]
    · intro key hkey
      rw [List.map_cons, List.mem_cons, not_or] at hkey
      dsimp only
      rw [hsame key hkey.2, hother key hkey.1]

/-- The loop of `highest_avg`. -/
theorem foldl_highest (adds : List (Str × Int)) (highest : Int) :
    let last := adds.foldl (fun highest a => if highest < a.2 then a.2 else highest) highest
    highest ≤ last ∧ (∀ a ∈ adds, a.2 ≤ last) ∧ (last = highest ∨ ∃ a ∈ adds, a.2 = last) := by
  induction adds generalizing highest with
  | nil => exact ⟨le_refl _, fun a ha => absurd ha List.not_mem_nil, Or.inl rfl⟩
  | cons a adds ih =>
    obtain ⟨hle, hall, hlast⟩ := ih (if highest < a.2 then a.2 else highest)
    have hstep : highest ≤ (if highest < a.2 then a.2 else highest) ∧
        a.2 ≤ (if highest < a.2 then a.2 else highest) := by
      split_ifs <;> omega
    refine ⟨hstep.1.trans hle, List.forall_mem_cons.mpr ⟨hstep.2.trans hle, hall⟩, ?_⟩
    rcases hlast with hlast | ⟨a', ha', heq⟩
    · rw [List.foldl_cons, hlast]
      split_ifs
      · exact Or.inr ⟨a, List.mem_cons_self, rfl⟩
      · exact Or.inl rfl
    · exact Or.inr ⟨a', List.mem_cons_of_mem _ ha', heq⟩

/-- `highest_avg` is the maximum of samples that are not negative. -/
theorem highestAvg_max {adds : List (Str × Int)} (hnonneg : ∀ a ∈ adds, 0 ≤ a.2) :
    (∀ a ∈ adds, a.2 ≤ CPUFreqCollector.highestAvg adds) ∧
      (adds ≠ [] → ∃ a ∈ adds, a.2 = CPUFreqCollector.highestAvg adds) := by
  obtain ⟨-, hall, hlast⟩ := foldl_highest adds 0
  refine ⟨hall, fun hne => ?_⟩
  rcases hlast with hzero | hlast
  · obtain ⟨a, ha⟩ := List.exists_mem_of_ne_nil adds hne
    exact ⟨a, ha, le_antisymm (hall a ha) (hzero.trans_le (hnonneg a ha))⟩
  · exact hlast

/-- A `collect()` that meets the condition adds what it has to. -/
theorem FreqReached.exists_collect {s : SummarizedCPUFreq × FreqHistory} {r : Readings}
    (hs : FreqReached s) (hkeeps : Keeps s (.collect r)) (hmet : Averaging s (.collect r)) :
    ∃ out, s.1.collect r = some out ∧ Averages s r out.2 ∧
      FreqReached (out.1, ⟨some r, out.2⟩) := by
  obtain ⟨b, hb, hmet⟩ := hmet
  have hnames : (s.1.mCores.map Core.corename).Nodup := by
    have hfixed := hs.names
    rw [List.map_map] at hfixed
    exact hfixed
  obtain ⟨m, hm, hfixed, hsamples, hadded, -⟩ :=
    exists_collectCores hnames (hs.ready hkeeps hb hmet)
  have hhighest := highestAvg_max fun a ha => (hadded a ha).1
  refine ⟨_, by rw [SummarizedCPUFreq.collect, hm]; rfl,
    ⟨⟨b, m.2.2, _, hb, rfl, hsamples, hhighest⟩⟩, ?_⟩
  have hne : m.2.2 ++ [("highest_avg".toList, CPUFreqCollector.highestAvg m.2.2)] ≠ [] := by simp
  unfold FreqReached
  dsimp only
  rw [hfixed]
  refine ⟨hs.measured, hs.names, ?_, fun hnil => absurd hnil hne, fun _ => ?_, ?_⟩
  · intro b' hb' k hk
    obtain rfl := Option.some.inj hb'
    obtain ⟨c, hc, rfl⟩ := List.mem_map.mp hk
    exact (hkeeps c hc).rows
  · intro k hk
    obtain ⟨c, hc, rfl⟩ := List.mem_map.mp hk
    obtain ⟨a, ha, hname, -⟩ := exists_of_forall₂ hsamples c hc
    refine ⟨a.2, List.mem_append_left _ ?_⟩
    rw [Core.fixed, ← hname]
    exact ha
  · intro k hk value hvalue
    obtain ⟨-, hhigh, -⟩ := hs.measured k hk
    rcases List.mem_append.mp hvalue with hvalue | hvalue
    · obtain ⟨hnonneg, hseries⟩ := hadded _ hvalue
      refine ⟨hnonneg, fun _ => ?_⟩
      rw [seriesUnder_addValue, if_neg hhigh, hseries]
      exact List.getLast?_concat
    · exact absurd (Prod.mk.inj (List.mem_singleton.mp hvalue)).1 hhigh

theorem FreqReached.start {s : SummarizedCPUFreq × FreqHistory} {r : Readings}
    (hs : FreqReached s) (hkeeps : Keeps s (.start r)) :
    FreqReached (s.1.start r, { s.2 with baseline := some r }) := by
  have hfixed : (s.1.start r).mCores.map Core.fixed = s.1.mCores.map Core.fixed := by
    rw [SummarizedCPUFreq.start, List.map_map]
    exact List.map_congr_left fun c _ => Core.fixed_start _ c
  unfold FreqReached
  dsimp only
  rw [hfixed]
  refine ⟨hs.measured, hs.names, ?_, hs.first, hs.added, hs.last⟩
  intro b hb k hk
  obtain rfl := Option.some.inj hb
  obtain ⟨c, hc, rfl⟩ := List.mem_map.mp hk
  exact (hkeeps c hc).rows

/-- A series after `summarize()`: none that is empty is summarised. -/
theorem seriesUnder_summarize {results results' : OrdMap Str Series}
    (h : results.mapM Series.summarize = some results') (key : Str) :
    (seriesUnder results key = {} ∧ seriesUnder results' key = {}) ∨
      (seriesUnder results key ≠ {} ∧ (seriesUnder results' key).summaries ≠ []) := by
  have hkeys := OrdMap.keys_mapM h
  have hfind := OrdMap.find?_mapM h key
  cases hseries : results.find? key with
  | none =>
    rw [hseries, Option.bind_none] at hfind
    left
    rw [seriesUnder, seriesUnder, hseries, hfind]
    exact ⟨rfl, rfl⟩
  | some l =>
    have hsome : (results'.find? key).isSome := by
      rw [← OrdMap.mem_keys_iff, hkeys, OrdMap.mem_keys_iff, hseries]
      rfl
    obtain ⟨l', hl'⟩ := Option.isSome_iff_exists.mp hsome
    rw [hseries, Option.bind_some, hl', Series.summarize] at hfind
    right
    rw [seriesUnder, seriesUnder, hseries, hl', Option.getD_some, Option.getD_some]
    split_ifs at hfind with hlist
    obtain rfl := Option.some.inj hfind
    exact ⟨fun hempty => hlist (by rw [hempty]), List.append_ne_nil_of_right_ne_nil _ (by simp)⟩

theorem FreqReached.summarize {s : SummarizedCPUFreq × FreqHistory} {c : SummarizedCPUFreq}
    (hs : FreqReached s) (h : s.1.summarize = some c) : FreqReached (c, s.2) := by
  obtain ⟨results, hresults, rfl⟩ := Option.map_eq_some_iff.mp h
  refine ⟨hs.measured, hs.names, hs.kept, fun hnil key => ?_, hs.added, fun k hk value hvalue => ?_⟩
  · rcases seriesUnder_summarize hresults key with ⟨-, hempty⟩ | ⟨hsome, -⟩
    · exact hempty
    · exact absurd (hs.first hnil key) hsome
  · obtain ⟨hnonneg, hlast⟩ := hs.last k hk value hvalue
    refine ⟨hnonneg, fun hsums => ?_⟩
    rcases seriesUnder_summarize hresults k.2.1 with ⟨hempty, hempty'⟩ | ⟨-, hsome⟩
    · dsimp only
      rw [hempty']
      rw [hempty] at hlast
      exact hlast rfl
    · exact absurd hsums hsome

/-! ## Whole runs -/

/-- A step that keeps the rows and meets the condition keeps the invariant. -/
theorem FreqReached.step {s t : SummarizedCPUFreq × FreqHistory} {call : FreqCall}
    (hs : FreqReached s) (hkeeps : Keeps s call) (hmet : Averaging s call)
    (h : freqStep s call = some t) : FreqReached t := by
  cases call with
  | start r =>
    cases h
    exact hs.start hkeeps
  | collect r =>
    obtain ⟨out, hout, -, hreached⟩ := hs.exists_collect hkeeps hmet
    rw [freqStep, hout] at h
    cases h
    exact hreached
  | summarize =>
    obtain ⟨c, hc, rfl⟩ := Option.map_eq_some_iff.mp h
    exact hs.summarize hc

/-- A collector that has not been called. -/
def unstarted (files : List (List (Int × Int))) : SummarizedCPUFreq × FreqHistory :=
  (SummarizedCPUFreq.init files, {})

/-- Every core that `init` finds has its own name. -/
theorem freqReached_unstarted {files : List (List (Int × Int))}
    (hpositive : ∀ file ∈ files, ∀ line ∈ file, 0 < line.1)
    (hfit : ∀ file ∈ files, ∀ line ∈ file, IsInt32 line.1) : FreqReached (unstarted files) := by
  have hcores : (unstarted files).1.mCores.map Core.fixed =
      (files.map some).zipIdx.map fun file => (file.1.isSome, "cpu_".toList ++ toChars file.2,
        (file.1.getD []).map fun line => int32 line.1) := List.map_map
  unfold FreqReached
  rw [hcores]
  refine ⟨?_, ?_, fun b hb => absurd hb (by simp [unstarted]), fun _ key => rfl,
    fun hne => absurd rfl hne, fun k _ value hvalue => absurd hvalue List.not_mem_nil⟩
  · intro k hk
    obtain ⟨⟨file, i⟩, hfile, rfl⟩ := List.mem_map.mp hk
    obtain ⟨file, hmem, rfl⟩ := List.mem_map.mp (List.fst_mem_of_mem_zipIdx hfile)
    refine ⟨rfl, ?_, fun f hf => ?_⟩
    · intro heq
      cases heq
    · obtain ⟨line, hline, rfl⟩ := List.mem_map.mp hf
      rw [(int32_eq_iff line.1).mpr (hfit file hmem line hline)]
      exact hpositive file hmem line hline
  · have hinjective : Function.Injective fun i : Nat => "cpu_".toList ++ toChars i := by
      intro i j hij
      exact Int.ofNat.inj (toChars_injective (List.append_cancel_left hij))
    rw [List.map_map, show (fun k : Bool × Str × List Int => k.2.1) ∘ (fun file :
        Option (List (Int × Int)) × Nat => (file.1.isSome, "cpu_".toList ++ toChars file.2,
          (file.1.getD []).map fun line => int32 line.1)) =
        (fun i : Nat => "cpu_".toList ++ toChars i) ∘ Prod.snd
      from rfl, ← List.map_map, List.zipIdx_map_snd]
    exact List.Nodup.map hinjective List.nodup_range'

theorem SummarizedCPUFreq.fixed_collectCores {r : Readings} {cores : List Core}
    {results : OrdMap Str Series} {m : List Core × OrdMap Str Series × List (Str × Int)}
    (h : collectCores r cores results = some m) : m.1.map Core.fixed = cores.map Core.fixed := by
  induction cores generalizing results m with
  | nil =>
    cases h
    rfl
  | cons c cores ih =>
    obtain ⟨m', hread, h⟩ := Option.bind_eq_some_iff.mp h
    obtain ⟨avg, -, h⟩ := Option.bind_eq_some_iff.mp h
    obtain ⟨rest, hrest, rfl⟩ := Option.map_eq_some_iff.mp h
    rw [List.map_cons, List.map_cons, ih hrest, Core.fixed_read hread]

/-- The cores stay those that `init` has found. -/
theorem fixed_freqStep {s t : SummarizedCPUFreq × FreqHistory} {call : FreqCall}
    (h : freqStep s call = some t) : t.1.mCores.map Core.fixed = s.1.mCores.map Core.fixed := by
  cases call with
  | start r =>
    cases h
    rw [SummarizedCPUFreq.start, List.map_map]
    exact List.map_congr_left fun c _ => Core.fixed_start _ c
  | collect r =>
    obtain ⟨out, hout, rfl⟩ := Option.map_eq_some_iff.mp h
    obtain ⟨m, hm, rfl⟩ := Option.map_eq_some_iff.mp hout
    exact SummarizedCPUFreq.fixed_collectCores hm
  | summarize =>
    obtain ⟨c, hc, rfl⟩ := Option.map_eq_some_iff.mp h
    obtain ⟨results, -, rfl⟩ := Option.map_eq_some_iff.mp hc
    rfl

/-- The frequencies of the cores are the listed ones, if these fit into an `int`. -/
theorem frequencies_run {files : List (List (Int × Int))}
    (hfit : ∀ file ∈ files, ∀ line ∈ file, IsInt32 line.1) {calls : List FreqCall}
    {s : SummarizedCPUFreq × FreqHistory} (hs : run freqStep (unstarted files) calls = some s) :
    s.1.mCores.map Core.frequencies = files.map fun file => file.map Prod.fst := by
  have hfixed : s.1.mCores.map Core.fixed = (unstarted files).1.mCores.map Core.fixed :=
    run_invariant (fun _ _ _ hsame hstep => (fixed_freqStep hstep).trans hsame) rfl hs
  have hfrequencies := congrArg (List.map fun k : Bool × Str × List Int => k.2.2) hfixed
  rw [List.map_map, List.map_map] at hfrequencies
  have hfile : ∀ file ∈ files, (file.map fun line => int32 line.1) = file.map Prod.fst :=
    fun file hfile => List.map_congr_left fun line hline =>
      (int32_eq_iff line.1).mpr (hfit file hfile line hline)
  rw [← List.map_congr_left hfile]
  refine hfrequencies.trans ?_
  rw [unstarted, SummarizedCPUFreq.init, CPUFreqCollector.init, List.map_map]
  conv_rhs => rw [← List.zipIdx_map_fst 0 (files.map fun file => file.map fun line => int32 line.1)]
  simp [List.zipIdx_map, Core.fixed, Function.comp_def]

/-- Every `collect()` of a run whose steps meet the condition adds the averages of the listed
    frequencies, if these fit into an `int`. -/
theorem averages_of_stepsMeet {files : List (List (Int × Int))} {calls : List FreqCall}
    (hpositive : ∀ file ∈ files, ∀ line ∈ file, 0 < line.1)
    (hfit : ∀ file ∈ files, ∀ line ∈ file, IsInt32 line.1)
    (hkeeps : StepsMeet freqStep Keeps (unstarted files) calls)
    (hmeet : StepsMeet freqStep Averaging (unstarted files) calls) :
    ∀ before r after, calls = before ++ .collect r :: after →
      ∀ s, run freqStep (unstarted files) before = some s →
      s.1.mCores.map Core.frequencies = files.map (fun file => file.map Prod.fst) ∧
      ∃ out, s.1.collect r = some out ∧ Averages s r out.2 := by
  intro before r after hsplit s hs
  have hboth := stepsMeet_and.mpr ⟨hkeeps, hmeet⟩
  have hnow := stepsMeet_iff.mp hboth before (.collect r) after hsplit s hs
  rw [hsplit] at hboth
  have hreached : FreqReached s :=
    hboth.of_append.run_invariant (fun s call t hs hmet h => hs.step hmet.1 hmet.2 h)
      (freqReached_unstarted hpositive hfit) hs
  obtain ⟨out, hout, haverages, -⟩ := hreached.exists_collect hnow.1 hnow.2
  exact ⟨frequencies_run hfit hs, out, hout, haverages⟩

/-- A core with two frequencies. -/
def twoFrequencies : List (List (Int × Int)) := [[(100, 0), (200, 0)]]

/-- What the core reads after these times at its frequencies. -/
def spent (low high : Int) : Readings := fun _ => ⟨[(100, low), (200, high)], [], some 100⟩

/-- Half of the time is spent at each frequency. -/
theorem averages_half :
    (∀ file ∈ twoFrequencies, ∀ line ∈ file, 0 < line.1) ∧
    (∀ file ∈ twoFrequencies, ∀ line ∈ file, IsInt32 line.1) ∧
    StepsMeet freqStep Keeps (unstarted twoFrequencies)
      [.start (spent 0 0), .collect (spent 10 10)] ∧
    StepsMeet freqStep Averaging (unstarted twoFrequencies)
      [.start (spent 0 0), .collect (spent 10 10)] ∧
    ∀ before r after, [.start (spent 0 0), .collect (spent 10 10)] =
        before ++ FreqCall.collect r :: after →
      ∀ s, run freqStep (unstarted twoFrequencies) before = some s →
      s.1.mCores.map Core.frequencies = twoFrequencies.map (fun file => file.map Prod.fst) ∧
      ∃ out, s.1.collect r = some out ∧ Averages s r out.2 := by
  have hpositive : ∀ file ∈ twoFrequencies, ∀ line ∈ file, 0 < line.1 := by decide
  have hfit : ∀ file ∈ twoFrequencies, ∀ line ∈ file, IsInt32 line.1 := by decide
  have hkeeps : StepsMeet freqStep Keeps (unstarted twoFrequencies)
      [.start (spent 0 0), .collect (spent 10 10)] := by decide
  have hmeet : StepsMeet freqStep Averaging (unstarted twoFrequencies)
      [.start (spent 0 0), .collect (spent 10 10)] := by decide
  exact ⟨hpositive, hfit, hkeeps, hmeet, averages_of_stepsMeet hpositive hfit hkeeps hmeet⟩

/-- After a second `start()`, the sample is still relative to what the first one has read. -/
theorem not_averages_two_starts :
    StepsMeet freqStep Keeps (unstarted twoFrequencies)
      [.start (spent 0 0), .start (spent 10 0), .collect (spent 10 10)] ∧
    ¬ ∀ before r after, [.start (spent 0 0), .start (spent 10 0), .collect (spent 10 10)] =
        before ++ FreqCall.collect r :: after →
      ∀ s, run freqStep (unstarted twoFrequencies) before = some s →
      ∃ out, s.1.collect r = some out ∧ Averages s r out.2 := by
  refine ⟨by decide, fun hall => ?_⟩
  obtain ⟨out, hout, ⟨b, samples, highest, hb, hadds, hsamples, -, -⟩⟩ :=
    hall [.start (spent 0 0), .start (spent 10 0)] (spent 10 10) [] rfl _ rfl
  have hvalues : out.2 = [("cpu_0".toList, 150), ("highest_avg".toList, 150)] := by
    rw [← Option.some.inj hout]
    decide
  obtain rfl := Option.some.inj hb
  rw [hvalues] at hadds
  cases hsamples with
  | cons hsample hnone =>
    cases hnone
    obtain ⟨-, hsampled⟩ := hsample
    have hmean := (hsampled.mean (by decide)).1
    rw [← (List.cons.inj hadds).1] at hmean
    exact absurd hmean (by decide)

end LibCollector.Collectors
