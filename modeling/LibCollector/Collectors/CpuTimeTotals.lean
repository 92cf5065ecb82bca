import LibCollector.Collectors.ProcfsStat
import Mathlib.Data.List.Pairwise
import Mathlib.Data.Rat.Cast.Order
import Mathlib.Tactic.Ring
import Mathlib.Tactic.LinearCombination

/-!
# The sum of the CPU times

The `cpu_time` samples of `ProcFSStatCollector` are differences of the total CPU time, and
`mLastSampleTime` is zero both before the first sample and after a sample of a process that has not
used any CPU time yet. So they sum up to the last total minus the first one that is not zero
(`sum_of_noSample`).
-/

namespace LibCollector.Collectors

open LibCollector.Misc

/-- `tot_time` as a sum of integers. -/
def ProcStat.total (v : ProcStat) : Int := v.utime + v.stime + v.cutime + v.cstime

/-- A stat line that `parse` reads, where `tot_time` does not wrap. -/
structure ParsedLine where
  text : Str
  stat : ProcStat
  parsed : scanProcStat text = some stat
  noWrap : stat.total < 18446744073709551616

namespace ParsedLine

/-- The total CPU time of the line. -/
def total (l : ParsedLine) : Int := l.stat.total

theorem storedInt_nonneg {buffer : Str} {i : Nat} (bits : Nat)
    (hi : (statFormat.filter Directive.stores)[i]? = some (.uint bits)) :
    0 ≤ storedInt (sscanf statFormat buffer) i := by
  rw [storedInt]
  cases hv : (sscanf statFormat buffer)[i]? with
  | none => exact Int.le_refl 0
  | some v =>
    cases v with
    | int n => exact sscanf_uint_nonneg hi hv
    | word s => exact Int.le_refl 0
    | char c => exact Int.le_refl 0

theorem total_nonneg (l : ParsedLine) : 0 ≤ l.total := by
  have hparsed := l.parsed
  unfold scanProcStat at hparsed
  dsimp only at hparsed
  split_ifs at hparsed
  have hstat := Option.some.inj hparsed
  have hutime : 0 ≤ storedInt (sscanf statFormat l.text) 13 := storedInt_nonneg 64 rfl
  have hstime : 0 ≤ storedInt (sscanf statFormat l.text) 14 := storedInt_nonneg 64 rfl
  have hcutime : 0 ≤ storedInt (sscanf statFormat l.text) 15 := storedInt_nonneg 32 rfl
  have hcstime : 0 ≤ storedInt (sscanf statFormat l.text) 16 := storedInt_nonneg 32 rfl
  rw [total, ProcStat.total, ← hstat]
  dsimp only
  omega

/-- Without a wrap, `tot_time` is the total. -/
theorem toNat_totTime (l : ParsedLine) : (l.stat.totTime.toNat : Int) = l.total := by
  have hsum : l.stat.totTime = UInt64.ofInt l.total := by
    simp only [ProcStat.totTime, total, ProcStat.total, UInt64.ofInt_add]
  have hlo := l.total_nonneg
  have hhi : l.total < 2 ^ 64 := l.noWrap
  have hofNat : UInt64.ofInt l.total = UInt64.ofNat (l.total % 2 ^ 64).toNat := rfl
  rw [hsum, hofNat, UInt64.toNat_ofNat', Int.emod_eq_of_lt hlo hhi, Nat.mod_eq_of_lt (by omega),
    Int.toNat_of_nonneg hlo]

end ParsedLine

/-- Lines of a process, one after the other; its CPU time does not decrease. -/
structure StatRun where
  first : ParsedLine
  rest : List ParsedLine
  mono : (first :: rest).Pairwise fun l l' => l.total ≤ l'.total

namespace StatRun

/-- The last line. -/
def last (r : StatRun) : ParsedLine := r.rest.getLastD r.first

theorem last_mem (r : StatRun) : r.last ∈ r.first :: r.rest := List.getLastD_mem_cons

theorem total_le_last (r : StatRun) {l : ParsedLine} (hl : l ∈ r.first :: r.rest) :
    l.total ≤ r.last.total := by
  have hlast := r.mono.rel_getLast_of_rel_getLast_getLast hl (Int.le_refl _)
  rwa [List.getLast_eq_getLastD] at hlast

end StatRun

namespace ProcFsStatCollector

/-- The samples of a `collect()` call for each text. -/
def samples : ProcFsStatCollector → List Str → List ProcSample
  | _, [] => []
  | c, text :: texts =>
    let r := c.collect (some text)
    r.2.toList ++ samples r.1 texts

/-- The sum of the `cpu_time` samples. -/
def cpuTimeSum (c : ProcFsStatCollector) (lines : List ParsedLine) : ℚ :=
  ((c.samples (lines.map ParsedLine.text)).map ProcSample.cpuTime).sum

theorem cpuTimeSum_cons (c : ProcFsStatCollector) (l : ParsedLine) (ls : List ParsedLine) :
    c.cpuTimeSum (l :: ls) =
      (c.parse l.stat).2.cpuTime + (c.parse l.stat).1.cpuTimeSum ls := by
  have hcollect : c.collect (some l.text) = ((c.parse l.stat).1, some (c.parse l.stat).2) := by
    rw [collect, Option.bind_some, l.parsed]
  simp [cpuTimeSum, samples, hcollect]

/-- A difference of totals, with a last sample. -/
theorem cpuTime_parse {c : ProcFsStatCollector} (hlast : c.mLastSampleTime ≠ 0) {l : ParsedLine}
    (hle : (c.mLastSampleTime.toNat : Int) ≤ l.total) :
    (c.parse l.stat).2.cpuTime * c.mTicks = l.total - c.mLastSampleTime.toNat := by
  have hticks : (c.mTicks : ℚ) ≠ 0 := Int.cast_ne_zero.mpr c.ticks_ne
  have htotal := l.toNat_totTime
  have hsub : (l.stat.totTime - c.mLastSampleTime).toNat =
      l.stat.totTime.toNat - c.mLastSampleTime.toNat :=
    UInt64.toNat_sub_of_le _ _ (UInt64.le_iff_toNat_le.mpr (by omega))
  rw [parse, if_neg hlast, div_mul_cancel₀ _ hticks, hsub, Nat.cast_sub (by omega), ← htotal]
  rfl

theorem sum_of_lastSample {c : ProcFsStatCollector} (hlast : c.mLastSampleTime ≠ 0)
    {ls : List ParsedLine} (hle : ∀ l ∈ ls, (c.mLastSampleTime.toNat : Int) ≤ l.total)
    (hmono : ls.Pairwise fun l l' => l.total ≤ l'.total) :
    c.cpuTimeSum ls * c.mTicks =
      ((ls.map ParsedLine.total).getLastD c.mLastSampleTime.toNat : Int) -
        c.mLastSampleTime.toNat := by
  induction ls generalizing c with
  | nil => simp [cpuTimeSum, samples]
  | cons l ls ih =>
    have hl := hle l List.mem_cons_self
    have hnext : (c.parse l.stat).1.mLastSampleTime.toNat = l.total := by
      rw [parse, if_neg hlast]
      exact l.toNat_totTime
    have hpos : (c.parse l.stat).1.mLastSampleTime ≠ 0 := by
      intro hzero
      rw [hzero] at hnext
      refine hlast (UInt64.toNat_inj.mp ?_)
      have hz : (0 : UInt64).toNat = 0 := rfl
      omega
    have hticks : (c.parse l.stat).1.mTicks = c.mTicks := by
      rw [parse, if_neg hlast]
    have hrest := ih hpos (fun l' hl' => hnext.trans_le (List.rel_of_pairwise_cons hmono hl'))
      hmono.of_cons
    have hcast : ((c.parse l.stat).1.mLastSampleTime.toNat : ℚ) = l.total := by
      exact_mod_cast hnext
    rw [hticks, hnext, hcast] at hrest
    rw [cpuTimeSum_cons, add_mul, cpuTime_parse hlast hl, hrest, List.map_cons,
      List.getLastD_cons]
    ring

/-- The first total that is not zero. -/
def firstSpent (ls : List ParsedLine) : Int :=
  ((ls.map ParsedLine.total).find? (· ≠ 0)).getD 0

/-- Without a last sample, totals of zero are passed over: the sum counts from the first total that
    is not zero. -/
theorem sum_of_noSample {c : ProcFsStatCollector} (hlast : c.mLastSampleTime = 0)
    {ls : List ParsedLine} (hmono : ls.Pairwise fun l l' => l.total ≤ l'.total) :
    c.cpuTimeSum ls * c.mTicks =
      ((ls.map ParsedLine.total).getLastD 0 : Int) - firstSpent ls := by
  induction ls generalizing c with
  | nil => simp [cpuTimeSum, samples, firstSpent]
  | cons l ls ih =>
    have htotal := l.toNat_totTime
    have hparse : c.parse l.stat =
        ({ c with mLastSampleTime := l.stat.totTime }, ⟨0, l.stat.numThreads⟩) := by
      rw [parse, if_pos hlast]
    rw [cpuTimeSum_cons, hparse, zero_add, firstSpent, List.map_cons, List.getLastD_cons]
    by_cases hzero : l.total = 0
    · have htot : l.stat.totTime = 0 := UInt64.toNat_inj.mp (by
        have hz : (0 : UInt64).toNat = 0 := rfl
        omega)
      rw [List.find?_cons_of_neg (by simpa using hzero), ← firstSpent, hzero]
      exact ih htot hmono.of_cons
    · have htot : l.stat.totTime ≠ 0 := by
        intro heq
        rw [heq] at htotal
        exact hzero htotal.symm
      have hle : ∀ l' ∈ ls, (l.stat.totTime.toNat : Int) ≤ l'.total :=
        fun l' hl' => htotal.trans_le (List.rel_of_pairwise_cons hmono hl')
      have hrest := @sum_of_lastSample { c with mLastSampleTime := l.stat.totTime } htot ls hle
        hmono.of_cons
      have hcast : (l.stat.totTime.toNat : ℚ) = l.total := by exact_mod_cast htotal
      dsimp only at hrest
      rw [htotal, hcast] at hrest
      rw [List.find?_cons_of_pos (by simpa using hzero), Option.getD_some]
      exact hrest

theorem firstSpent_rest_eq_zero_iff (r : StatRun) (hfirst : r.first.total = 0) :
    firstSpent r.rest = 0 ↔ r.last.total = 0 := by
  rw [firstSpent]
  cases hfind : (r.rest.map ParsedLine.total).find? (· ≠ 0) with
  | none =>
    refine iff_of_true rfl ?_
    rcases List.mem_cons.mp r.last_mem with heq | hmem
    · rw [heq, hfirst]
    · simpa using List.find?_eq_none.mp hfind _ (List.mem_map_of_mem hmem)
  | some total =>
    have hne : total ≠ 0 := by simpa using List.find?_some hfind
    obtain ⟨l, hl, rfl⟩ := List.mem_map.mp (List.mem_of_find?_eq_some hfind)
    have hle := r.total_le_last (List.mem_cons_of_mem _ hl)
    have hnonneg := l.total_nonneg
    rw [Option.getD_some]
    exact iff_of_false hne (by omega)

/-- The samples of a run of lines sum up to the last total minus the first one exactly if the first
    one is not zero, or no CPU time is used in the whole run: a total of zero is taken for no
    sample, so that the next sample has nothing to be compared with either. -/
theorem cpuTimeSum_construct_iff (ticks : Int) (r : StatRun) :
    (construct ticks).cpuTimeSum (r.first :: r.rest) * (construct ticks).mTicks =
        r.last.total - r.first.total ↔ r.first.total ≠ 0 ∨ r.last.total = 0 := by
  have hsum := @sum_of_noSample (construct ticks) rfl _ r.mono
  rw [List.map_cons, List.getLastD_cons, List.getLastD_map, ← StatRun.last] at hsum
  rw [hsum, sub_right_inj, Int.cast_inj, firstSpent, List.map_cons]
  by_cases hfirst : r.first.total = 0
  · rw [List.find?_cons_of_neg (by simpa using hfirst), ← firstSpent, hfirst,
      or_iff_right (by simp)]
    exact firstSpent_rest_eq_zero_iff r hfirst
  · rw [List.find?_cons_of_pos (by simpa using hfirst), Option.getD_some]
    exact iff_of_true rfl (Or.inl hfirst)

/-- A process that has used no CPU time, and five ticks of it later. -/
def fresh : StatRun where
  first := ⟨"7 (sh) R 1 1 1 0 -1 0 0 0 0 0 0 0 0 0 20 0 1\n".toList, ⟨0, 0, 0, 0, 1⟩,
    by decide +kernel, by decide⟩
  rest := [⟨"7 (sh) R 1 1 1 0 -1 0 0 0 0 0 3 2 0 0 20 0 1\n".toList, ⟨3, 2, 0, 0, 1⟩,
    by decide +kernel, by decide⟩]
  mono := by decide

/-- The five ticks are in no sample. -/
theorem not_telescopes_fresh :
    (construct 100).cpuTimeSum (fresh.first :: fresh.rest) * (construct 100).mTicks ≠
      fresh.last.total - fresh.first.total := by
  decide +kernel

end ProcFsStatCollector

end LibCollector.Collectors
