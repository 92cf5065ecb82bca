import LibCollector.Collectors.CpuFreq
import LibCollector.Collectors.ProcfsStat

/-!
# Samples of a cycle

Both collectors of this module record changes of kernel counters since a baseline in a member
that `start()` does not reset. The samples of a cycle depend on this cycle alone when the
baseline is the one that the cycle would have set (`ownCycles_of_baselines`).
-/

namespace LibCollector.Collectors

open LibCollector.Misc

namespace ProcFsStatCollector

/-- A cycle of `start()`, a `collect()` for each text that is read, and `stop()`; the first and the
    last do nothing here. -/
def cycle (c : ProcFsStatCollector) (reads : List (Option Str)) :
    Option (ProcFsStatCollector × List (Option ProcSample)) :=
  recordAll (fun c read => some (c.collect read)) c reads

/-- What the successful samples of a cycle read. -/
def parsed (reads : List (Option Str)) : List ProcStat := reads.filterMap (·.bind scanProcStat)

/-- There is no last sample, or no CPU time has been spent between it and the first one of the
    cycle. -/
def BaselineKept (c : ProcFsStatCollector) (reads : List (Option Str)) : Prop :=
  c.mLastSampleTime = 0 ∨ ∀ v ∈ (parsed reads).head?, v.totTime = c.mLastSampleTime

@[simp] theorem mTicks_collect (read : Option Str) (c : ProcFsStatCollector) :
    (c.collect read).1.mTicks = c.mTicks := by
  rw [collect]
  cases read.bind scanProcStat with
  | none => rfl
  | some v =>
    show (c.parse v).1.mTicks = c.mTicks
    rw [parse]
    split_ifs <;> rfl

/-- A collector that has not sampled is as the constructor left it. -/
theorem eq_of_mLastSampleTime {c d : ProcFsStatCollector} (hticks : c.mTicks = d.mTicks)
    (hlast : c.mLastSampleTime = d.mLastSampleTime) : c = d := by
  cases c
  cases d
  cases hticks
  cases hlast
  rfl

/-- A sample that is read has no CPU time in it exactly when nothing has been spent since the last
    one. -/
theorem cpuTime_eq_zero_iff {c : ProcFsStatCollector} (hlast : c.mLastSampleTime ≠ 0)
    (v : ProcStat) : (c.parse v).2.cpuTime = 0 ↔ v.totTime = c.mLastSampleTime := by
  have hticks : (c.mTicks : ℚ) ≠ 0 := Int.cast_ne_zero.mpr c.ticks_ne
  rw [parse, if_neg hlast, div_eq_zero_iff, or_iff_left hticks, Nat.cast_eq_zero,
    ← UInt64.toNat_zero, UInt64.toNat_inj, sub_eq_zero]

/-- A cycle is always completed. -/
theorem exists_recorded (c : ProcFsStatCollector) (reads : List (Option Str)) :
    ∃ samples, recorded cycle c reads = some samples := by
  have hrun : ∃ u, cycle c reads = some u := by
    induction reads generalizing c with
    | nil => exact ⟨_, rfl⟩
    | cons read reads ih =>
      obtain ⟨u, hu⟩ := ih (c.collect read).1
      rw [cycle] at hu
      exact ⟨_, by rw [cycle, recordAll, Option.bind_some, hu, Option.map_some]⟩
  obtain ⟨u, hu⟩ := hrun
  exact ⟨u.2, by rw [recorded, hu, Option.map_some]⟩

/-- A cycle records what a fresh collector does exactly when it meets the condition. -/
theorem recorded_eq_iff {c fresh : ProcFsStatCollector} (hticks : c.mTicks = fresh.mTicks)
    (hfresh : fresh.mLastSampleTime = 0) (reads : List (Option Str)) :
    recorded cycle c reads = recorded cycle fresh reads ↔ BaselineKept c reads := by
  by_cases hlast : c.mLastSampleTime = 0
  · rw [eq_of_mLastSampleTime hticks (hlast.trans hfresh.symm)]
    exact iff_of_true rfl (Or.inl hfresh)
  induction reads with
  | nil => exact iff_of_true rfl (Or.inr fun v hv => by cases hv)
  | cons read reads ih =>
    have hcons : ∀ c : ProcFsStatCollector, recorded cycle c (read :: reads) =
        (recorded cycle (c.collect read).1 reads).map ((c.collect read).2 :: ·) := by
      intro c
      rw [recorded, recorded, cycle, cycle, recordAll, Option.bind_some, Option.map_map,
        Option.map_map]
      rfl
    rw [hcons, hcons]
    cases hv : read.bind scanProcStat with
    | none =>
      have hsame : ∀ c : ProcFsStatCollector, c.collect read = (c, none) := by
        intro c
        rw [collect, hv]
      have hparsed : parsed (read :: reads) = parsed reads := List.filterMap_cons_none hv
      rw [hsame, hsame, BaselineKept, hparsed, ← BaselineKept, ← ih]
      exact (Option.map_injective (List.cons_injective)).eq_iff
    | some v =>
      have hread : ∀ c : ProcFsStatCollector,
          c.collect read = ((c.parse v).1, some (c.parse v).2) := by
        intro c
        rw [collect, hv]
      have hparsed : parsed (read :: reads) = v :: parsed reads := List.filterMap_cons_some hv
      have hnext : (c.parse v).1 = (fresh.parse v).1 := by
        rw [parse, parse, if_neg hlast, if_pos hfresh]
        exact eq_of_mLastSampleTime hticks rfl
      have hfirst : (c.parse v).2 = (fresh.parse v).2 ↔ (c.parse v).2.cpuTime = 0 := by
        have hzero : (fresh.parse v).2 = ⟨0, v.numThreads⟩ := by rw [parse, if_pos hfresh]
        have hthreads : (c.parse v).2.threads = v.numThreads := by rw [parse, if_neg hlast]
        rw [hzero, ProcSample.ext_iff, hthreads]
        exact and_iff_left rfl
      obtain ⟨samples, hsamples⟩ := exists_recorded (fresh.parse v).1 reads
      rw [hread, hread, hnext, hsamples, Option.map_some, Option.map_some, Option.some.injEq,
        List.cons.injEq, and_iff_left rfl, Option.some.injEq, hfirst, cpuTime_eq_zero_iff hlast,
        BaselineKept, hparsed, or_iff_right hlast, List.head?_cons]
      simp

theorem mTicks_afterCycle {c d : ProcFsStatCollector} {reads : List (Option Str)}
    (h : afterCycle cycle c reads = some d) : d.mTicks = c.mTicks := by
  obtain ⟨u, hu, rfl⟩ := Option.map_eq_some_iff.mp h
  refine @recordAll_invariant _ _ _ (fun d => d.mTicks = c.mTicks) _ ?_ c reads u rfl hu
  rintro s read t hs ht
  cases ht
  exact (mTicks_collect read s).trans hs

end ProcFsStatCollector

/-- In every sequence of cycles from the initialised collectors, each cycle records what it would
    record as the first one: for cpufreq if the cycles measure from the counters that their
    `start()` has read, for procfs exactly if no CPU time has been spent before the first sample of
    a cycle that is not counted already. -/
theorem ownCycles_of_baselines (files : List (Option (List (Int × Int))))
    (cycles : List CPUFreqCollector.Cycle) (ticks : Int) (reads : List (List (Option Str))) :
    (StepsMeet (afterCycle CPUFreqCollector.cycle) CPUFreqCollector.BaselineRead
        (CPUFreqCollector.init files) cycles →
      OwnCycles CPUFreqCollector.cycle (CPUFreqCollector.init files) cycles) ∧
    (OwnCycles ProcFsStatCollector.cycle (ProcFsStatCollector.construct ticks) reads ↔
      StepsMeet (afterCycle ProcFsStatCollector.cycle) ProcFsStatCollector.BaselineKept
        (ProcFsStatCollector.construct ticks) reads) := by
  refine ⟨?_, ?_⟩
  · exact ownCycles_of_stepsMeet (I := CPUFreqCollector.Known files) rfl
      (fun s r t => CPUFreqCollector.known_afterCycle) fun s r => CPUFreqCollector.recorded_eq
  · apply @ownCycles_iff _ _ _ _ _ _
      (fun c => c.mTicks = (ProcFsStatCollector.construct ticks).mTicks)
    · rfl
    · exact fun s r t hs ht => (ProcFsStatCollector.mTicks_afterCycle ht).trans hs
    · exact fun s r hs => ProcFsStatCollector.recorded_eq_iff hs rfl r

/-- The readings of a core with two frequencies that has spent these times in them. -/
def twoStates (low high : Int) : Str → CoreReading :=
  fun _ => ⟨[(100, low), (200, high)], [], none⟩

/-- Two cycles of one sample for each collector. The core spends all the time between the cycles in
    its low state, and all the time of the second cycle in the high one, but the sample is not 200.
    The process spends 110 ticks between the samples, which are not those of the second cycle. -/
theorem not_ownCycles : ¬ OwnCycles CPUFreqCollector.cycle
      (CPUFreqCollector.init [some [(100, 0), (200, 0)]])
      [⟨twoStates 10 0, [twoStates 20 0], ∅⟩, ⟨twoStates 120 0, [twoStates 120 10], ∅⟩] ∧
    ¬ OwnCycles ProcFsStatCollector.cycle (ProcFsStatCollector.construct 100)
      [[some "7 (sh) S 1 1 1 0 -1 0 0 0 0 0 30 10 0 0 20 0 1\n".toList],
        [some "7 (sh) S 1 1 1 0 -1 0 0 0 0 0 120 30 0 0 20 0 1\n".toList]] := by
  refine ⟨?_, ?_⟩ <;> decide +kernel

end LibCollector.Collectors
