import LibCollector.Ferret.Accounts
import Mathlib.Algebra.Order.BigOperators.Group.List
import Mathlib.Data.List.Chain

/-!
# Conservation of jiffies

What a sequence of calls of `FerretProcess::add` leaves in a `FerretProcess`: the total of the
thread and the totals of its CPUs are updated side by side, and both are sums of the same
increments (`Conserves`), as long as no `int` overflows (`NoOverflow`).
-/

namespace LibCollector.Ferret

open LibCollector.Misc

/-- The arguments of a call of `FerretProcess::add`. -/
structure AddCall where
  label : Str
  ts : ℚ
  jiffies : Int
  freq : ℚ
  cpuNr : Int

namespace AddCall

/-- The calls with what the jiffies have increased by since the call before. -/
def increments (before : Int) : List AddCall → List (AddCall × Int)
  | [] => []
  | c :: calls => (c, c.jiffies - before) :: increments c.jiffies calls

/-- The jiffies of the last call. -/
def lastJiffies (before : Int) (calls : List AddCall) : Int :=
  calls.foldl (fun _ c => c.jiffies) before

/-- All increments. -/
def total (before : Int) (calls : List AddCall) : Int :=
  ((increments before calls).map Prod.snd).sum

/-- The increments of the calls with a CPU. -/
def totalOn (cpu : Int) (before : Int) (calls : List AddCall) : Int :=
  (((increments before calls).filter fun e => e.1.cpuNr = cpu).map Prod.snd).sum

/-- The cycles of the calls with a CPU and a frequency other than zero. -/
def cyclesOn (cpu : Int) (period : ℚ) (before : Int) (calls : List AddCall) : ℚ :=
  (((increments before calls).filter fun e => e.1.cpuNr = cpu ∧ e.1.freq ≠ 0).map fun e =>
    (e.2 : ℚ) * period * e.1.freq).sum

/-- At no call an increment or a sum of increments leaves the range of an `int`. -/
def NoOverflow (before : Int) (calls : List AddCall) : Prop :=
  ∀ pre, pre <+: calls → (∀ e ∈ increments before pre, IsInt32 e.2) ∧
    IsInt32 (total before pre) ∧ ∀ cpu, IsInt32 (totalOn cpu before pre)

section concat

variable {before : Int} {calls : List AddCall} {c : AddCall}

theorem increments_concat : increments before (calls ++ [c]) =
    increments before calls ++ [(c, c.jiffies - lastJiffies before calls)] := by
  induction calls generalizing before with
  | nil => rfl
  | cons d calls ih =>
    rw [List.cons_append, increments, ih, increments]
    rfl

theorem total_concat : total before (calls ++ [c]) =
    total before calls + (c.jiffies - lastJiffies before calls) := by
  simp [total, increments_concat]

theorem totalOn_concat (cpu : Int) : totalOn cpu before (calls ++ [c]) =
    totalOn cpu before calls +
      if c.cpuNr = cpu then c.jiffies - lastJiffies before calls else 0 := by
  rw [totalOn, increments_concat, List.filter_append, totalOn]
  split_ifs with h <;> simp [h]

theorem cyclesOn_concat (cpu : Int) (period : ℚ) : cyclesOn cpu period before (calls ++ [c]) =
    cyclesOn cpu period before calls +
      if c.cpuNr = cpu ∧ c.freq ≠ 0 then
        ((c.jiffies - lastJiffies before calls : Int) : ℚ) * period * c.freq
      else 0 := by
  rw [cyclesOn, increments_concat, List.filter_append, cyclesOn]
  split_ifs with h <;> simp [h]

end concat

/-- The increments add up to the difference between the last call and the first. -/
theorem total_eq (before : Int) (calls : List AddCall) :
    total before calls = lastJiffies before calls - before := by
  induction calls using List.reverseRecOn with
  | nil => simp [total, increments, lastJiffies]
  | append_singleton calls c ih =>
    rw [total_concat, ih, lastJiffies, lastJiffies, List.foldl_concat]
    ring

section start

variable (start : AddCall) (calls : List AddCall)

theorem increments_start : increments start.jiffies (start :: calls) =
    (start, 0) :: increments start.jiffies calls := by
  rw [increments, sub_self]

theorem total_start : total start.jiffies (start :: calls) = total start.jiffies calls := by
  rw [total, increments_start, List.map_cons, List.sum_cons, zero_add, total]

theorem totalOn_start (cpu : Int) :
    totalOn cpu start.jiffies (start :: calls) = totalOn cpu start.jiffies calls := by
  rw [totalOn, increments_start, List.filter_cons, totalOn]
  split_ifs <;> simp

theorem cyclesOn_start (cpu : Int) (period : ℚ) :
    cyclesOn cpu period start.jiffies (start :: calls) =
      cyclesOn cpu period start.jiffies calls := by
  rw [cyclesOn, increments_start, List.filter_cons, cyclesOn]
  split_ifs <;> simp

/-- The first call adds nothing. -/
theorem noOverflow_start {start : AddCall} {calls : List AddCall}
    (h : NoOverflow start.jiffies calls) : NoOverflow start.jiffies (start :: calls) := by
  have hzero : IsInt32 0 := by decide
  intro pre hpre
  cases pre with
  | nil => exact ⟨fun e he => absurd he List.not_mem_nil, hzero, fun _ => hzero⟩
  | cons c pre =>
    obtain ⟨rfl, hrest⟩ := List.cons_prefix_cons.mp hpre
    obtain ⟨hdiff, hall, hon⟩ := h pre hrest
    rw [increments_start, total_start]
    refine ⟨fun e he => ?_, hall, fun cpu => ?_⟩
    · rcases List.mem_cons.mp he with rfl | he
      · exact hzero
      · exact hdiff e he
    · rw [totalOn_start]
      exact hon cpu

end start

theorem increments_append (before : Int) (pre post : List AddCall) :
    increments before (pre ++ post) =
      increments before pre ++ increments (lastJiffies before pre) post := by
  induction pre generalizing before with
  | nil => rfl
  | cons c pre ih =>
    rw [List.cons_append, increments, ih, increments]
    rfl

/-- Jiffies that only grow have increments that are not negative. -/
theorem increments_nonneg {before : Int} {calls : List AddCall}
    (hchain : List.IsChain (· ≤ ·) (before :: calls.map jiffies)) :
    ∀ n ∈ (increments before calls).map Prod.snd, 0 ≤ n := by
  induction calls generalizing before with
  | nil => simp [increments]
  | cons c calls ih =>
    obtain ⟨hle, hrest⟩ := List.isChain_cons_cons.mp hchain
    rw [increments, List.map_cons, List.forall_mem_cons]
    exact ⟨sub_nonneg.mpr hle, ih hrest⟩

/-- Jiffies that only grow, by no more than an `int` holds, do not overflow. -/
theorem noOverflow_of_isChain {before : Int} {calls : List AddCall}
    (hchain : List.IsChain (· ≤ ·) (before :: calls.map jiffies))
    (hle : lastJiffies before calls - before ≤ 2147483647) : NoOverflow before calls := by
  have hsteps := increments_nonneg hchain
  have hpart : ∀ l : List Int, l.Sublist ((increments before calls).map Prod.snd) →
      IsInt32 l.sum := by
    intro l hl
    have hlow : 0 ≤ l.sum := List.sum_nonneg fun n hn => hsteps n (hl.subset hn)
    have hhigh : l.sum ≤ total before calls := hl.sum_le_sum hsteps
    rw [total_eq] at hhigh
    rw [IsInt32]
    omega
  rintro pre ⟨post, rfl⟩
  rw [increments_append, List.map_append] at hpart
  have hpre : ((increments before pre).map Prod.snd).Sublist
      ((increments before pre).map Prod.snd ++
        (increments (lastJiffies before pre) post).map Prod.snd) := List.sublist_append_left _ _
  refine ⟨fun e he => ?_, hpart _ hpre, fun cpu => ?_⟩
  · have hmem : e.2 ∈ (increments before pre).map Prod.snd := List.mem_map_of_mem he
    have hone := hpart [e.2] ((List.singleton_sublist.mpr hmem).trans hpre)
    rwa [List.sum_singleton] at hone
  · exact hpart _ ((List.filter_sublist.map Prod.snd).trans hpre)

end AddCall

namespace FerretProcess

open AddCall

/-- `FerretProcess::active_jiffies`. -/
def activeJiffies (p : FerretProcess) : Int := p.totJiffiesAllCpus

/-- A sequence of calls of `add`. -/
def addCalls (p : FerretProcess) (calls : List AddCall) : FerretProcess :=
  calls.foldl (fun p c => p.add c.label c.ts c.jiffies c.freq c.cpuNr) p

/-- The sums that `p` holds are those of the calls after the first one. -/
structure Conserves (p : FerretProcess) (tick : Int) (cpus : List Int) (first : AddCall)
    (calls : List AddCall) : Prop where
  active : p.activeJiffies = lastJiffies first.jiffies calls - first.jiffies
  sum : (p.totJiffies.entries.map Prod.snd).sum = p.activeJiffies
  totJiffies : ∀ cpu ∈ cpus, p.totJiffies.find? (toChars cpu) =
    some (totalOn cpu first.jiffies calls)
  mcyc : ∀ cpu ∈ cpus, p.mcyc.find? (toChars cpu) =
    some (cyclesOn cpu (1 / tick) first.jiffies calls)
  duration : p.duration = (calls.getLastD first).ts - first.ts
  label : p.label = (calls.getLastD first).label

/-! ## One call -/

/-- What a call that is not the first one does, if no `int` overflows. -/
theorem add_spec {p : FerretProcess} (hfirst : p.first ≠ 0) {nlabel : Str} {ts freq : ℚ}
    {njiffies cpu tot : Int} {cyc : ℚ} (htot : p.totJiffies.find? (toChars cpu) = some tot)
    (hcyc : p.mcyc.find? (toChars cpu) = some cyc) (hdiff : IsInt32 (njiffies - p.jiffies))
    (hall : IsInt32 (p.totJiffiesAllCpus + (njiffies - p.jiffies)))
    (hon : IsInt32 (tot + (njiffies - p.jiffies))) :
    p.add nlabel ts njiffies freq cpu =
      { p with
        label := nlabel
        last := ts
        jiffies := njiffies
        totJiffiesAllCpus := p.totJiffiesAllCpus + (njiffies - p.jiffies)
        totJiffies := p.totJiffies.insert (toChars cpu) (tot + (njiffies - p.jiffies))
        mcyc := if freq ≠ 0 then
            p.mcyc.insert (toChars cpu)
              (cyc + ((njiffies - p.jiffies : Int) : ℚ) * p.jiffyPeriod * freq)
          else p.mcyc } := by
  rw [add, if_neg hfirst, (int32_eq_iff _).mpr hdiff, htot, hcyc, Option.getD_some,
    Option.getD_some, (int32_eq_iff _).mpr hall, (int32_eq_iff _).mpr hon]

/-- The first call. -/
theorem add_first {p : FerretProcess} (hfirst : p.first = 0) (nlabel : Str) {ts : ℚ} (hts : ts ≠ 0)
    (njiffies : Int) (freq : ℚ) (cpu : Int) :
    p.add nlabel ts njiffies freq cpu =
      ({ p with first := ts, jiffies := njiffies } : FerretProcess).add nlabel ts njiffies freq
        cpu := by
  rw [add, add, if_pos hfirst, if_neg hts]

/-! ## The calls -/

/-- The sums that `p` holds are those of some calls. -/
structure Summed (p : FerretProcess) (tick : Int) (cpus : List Int) (before : Int)
    (calls : List AddCall) : Prop where
  period : p.jiffyPeriod = 1 / tick
  jiffies : p.jiffies = lastJiffies before calls
  all : p.totJiffiesAllCpus = total before calls
  sum : (p.totJiffies.entries.map Prod.snd).sum = total before calls
  totJiffies : ∀ cpu ∈ cpus, p.totJiffies.find? (toChars cpu) = some (totalOn cpu before calls)
  mcyc : ∀ cpu ∈ cpus, p.mcyc.find? (toChars cpu) = some (cyclesOn cpu (1 / tick) before calls)

variable {p : FerretProcess} {tick : Int} {cpus : List Int} {before : Int}
  {calls : List AddCall}

theorem summed_new (tick : Int) (cpus : List Int) (ts : ℚ) (njiffies : Int) :
    ({ new tick cpus with first := ts, jiffies := njiffies } : FerretProcess).Summed tick cpus
      njiffies [] := by
  refine ⟨rfl, rfl, rfl, sum_zeros toChars cpus, fun cpu hcpu => ?_, fun cpu hcpu => ?_⟩
  · exact (find?_zeros toChars_injective cpus cpu).trans (if_pos hcpu)
  · exact (find?_zeros toChars_injective cpus cpu).trans (if_pos hcpu)

/-- A further call. -/
theorem Summed.add (h : p.Summed tick cpus before calls) (hfirst : p.first ≠ 0) {c : AddCall}
    (hcpu : c.cpuNr ∈ cpus) (hfits : NoOverflow before (calls ++ [c])) :
    (p.add c.label c.ts c.jiffies c.freq c.cpuNr).Summed tick cpus before (calls ++ [c]) ∧
      (p.add c.label c.ts c.jiffies c.freq c.cpuNr).first = p.first ∧
      (p.add c.label c.ts c.jiffies c.freq c.cpuNr).last = c.ts ∧
      (p.add c.label c.ts c.jiffies c.freq c.cpuNr).label = c.label := by
  have hkey : ∀ cpu, toChars cpu = toChars c.cpuNr ↔ c.cpuNr = cpu := fun cpu =>
    toChars_injective.eq_iff.trans eq_comm
  obtain ⟨hdiff, hall, hon⟩ := hfits _ List.prefix_rfl
  have hstep : IsInt32 (c.jiffies - p.jiffies) := by
    rw [h.jiffies]
    exact hdiff (c, _) (by simp [increments_concat])
  have htotal : IsInt32 (p.totJiffiesAllCpus + (c.jiffies - p.jiffies)) := by
    rw [h.all, h.jiffies, ← total_concat]
    exact hall
  have htotalOn : IsInt32 (totalOn c.cpuNr before calls + (c.jiffies - p.jiffies)) := by
    have htot := hon c.cpuNr
    rw [totalOn_concat, if_pos rfl] at htot
    rw [h.jiffies]
    exact htot
  have hspec := @add_spec p hfirst c.label c.ts c.freq c.jiffies c.cpuNr _ _
    (h.totJiffies _ hcpu) (h.mcyc _ hcpu) hstep htotal htotalOn
  rw [hspec]
  refine ⟨⟨h.period, ?_, ?_, ?_, fun cpu hmem => ?_, fun cpu hmem => ?_⟩, rfl, rfl, rfl⟩
  · rw [lastJiffies, List.foldl_concat]
  · dsimp only
    rw [h.all, h.jiffies, total_concat]
  · dsimp only
    rw [OrdMap.sum_insert (h.totJiffies _ hcpu), h.sum, h.jiffies, total_concat]
    ring
  · dsimp only
    rw [OrdMap.find?_insert, totalOn_concat, h.jiffies]
    by_cases heq : c.cpuNr = cpu
    · subst heq
      rw [if_pos rfl, if_pos rfl]
    · rw [if_neg (mt (hkey cpu).mp heq), if_neg heq, add_zero, h.totJiffies _ hmem]
  · dsimp only
    rw [cyclesOn_concat, h.jiffies, h.period]
    by_cases hfreq : c.freq = 0
    · rw [if_neg (not_not.mpr hfreq), if_neg fun hboth => hboth.2 hfreq, add_zero, h.mcyc _ hmem]
    · rw [if_pos hfreq, OrdMap.find?_insert]
      by_cases heq : c.cpuNr = cpu
      · subst heq
        rw [if_pos rfl, if_pos ⟨rfl, hfreq⟩]
      · rw [if_neg (mt (hkey cpu).mp heq), if_neg fun hboth => heq hboth.1, add_zero,
          h.mcyc _ hmem]

/-- A sequence of calls. -/
theorem Summed.addCalls (h : p.Summed tick cpus before []) (hfirst : p.first ≠ 0)
    {calls : List AddCall} (hcpus : ∀ c ∈ calls, c.cpuNr ∈ cpus)
    (hfits : NoOverflow before calls) :
    (p.addCalls calls).Summed tick cpus before calls ∧ (p.addCalls calls).first = p.first ∧
      ∀ c ∈ calls.getLast?,
        (p.addCalls calls).last = c.ts ∧ (p.addCalls calls).label = c.label := by
  induction calls using List.reverseRecOn with
  | nil => exact ⟨h, rfl, fun c hc => absurd hc (by simp)⟩
  | append_singleton calls c ih =>
    obtain ⟨hsum, hsame, -⟩ := ih (fun d hd => hcpus d (List.mem_append_left _ hd))
      fun pre hpre => hfits pre (hpre.trans (List.prefix_append _ _))
    have hconcat : p.addCalls (calls ++ [c]) =
        (p.addCalls calls).add c.label c.ts c.jiffies c.freq c.cpuNr := List.foldl_concat ..
    obtain ⟨hsum', hsame', hlast⟩ := hsum.add (hsame ▸ hfirst)
      (hcpus c (List.mem_append_right _ (List.mem_singleton_self c))) hfits
    rw [hconcat, List.getLast?_concat]
    refine ⟨hsum', hsame'.trans hsame, fun d hd => ?_⟩
    cases hd
    exact hlast

/-- The calls on a new process; the first of them adds nothing. -/
theorem summed_calls {tick : Int} {cpus : List Int} {start : AddCall} {calls : List AddCall}
    (hts : start.ts ≠ 0) (hcpus : ∀ c ∈ start :: calls, c.cpuNr ∈ cpus)
    (hfits : NoOverflow start.jiffies calls) :
    ((new tick cpus).addCalls (start :: calls)).Summed tick cpus start.jiffies (start :: calls) ∧
      ((new tick cpus).addCalls (start :: calls)).duration =
        (calls.getLastD start).ts - start.ts ∧
      ((new tick cpus).addCalls (start :: calls)).label = (calls.getLastD start).label := by
  have hready : (new tick cpus).addCalls (start :: calls) =
      ({ new tick cpus with first := start.ts, jiffies := start.jiffies } :
        FerretProcess).addCalls (start :: calls) := by
    rw [addCalls, addCalls, List.foldl_cons, List.foldl_cons, add_first rfl _ hts]
  have hnew := summed_new tick cpus start.ts start.jiffies
  obtain ⟨hsum, hfirst, hlast⟩ := hnew.addCalls hts hcpus (noOverflow_start hfits)
  rw [← hready] at hsum hfirst hlast
  obtain ⟨htime, hlabel⟩ := hlast _ (List.getLast?_cons ..)
  rw [← List.getLastD_eq_getLast?] at htime hlabel
  exact ⟨hsum, by rw [duration, htime, hfirst], hlabel⟩

/-- The total of the thread is the jiffies of the last call less those of the first, and it is the
    sum of the totals of the CPUs; these and the cycles are sums over the calls. -/
theorem conserves_addCalls {tick : Int} {cpus : List Int} {start : AddCall} {calls : List AddCall}
    (hts : start.ts ≠ 0) (hcpus : ∀ c ∈ start :: calls, c.cpuNr ∈ cpus)
    (hfits : NoOverflow start.jiffies calls) :
    ((new tick cpus).addCalls (start :: calls)).Conserves tick cpus start calls := by
  obtain ⟨hsum, hduration, hlabel⟩ :=
    @summed_calls tick cpus start calls hts hcpus hfits
  refine ⟨?_, ?_, fun cpu hcpu => ?_, fun cpu hcpu => ?_, hduration, hlabel⟩
  · rw [activeJiffies, hsum.all, total_start, total_eq]
  · rw [activeJiffies, hsum.sum, hsum.all]
  · rw [hsum.totJiffies cpu hcpu, totalOn_start]
  · rw [hsum.mcyc cpu hcpu, cyclesOn_start]

/-- A thread that moves to another CPU, whose frequency is not known at first. -/
theorem conserves_migration :
    ((new 100 [0, 4]).addCalls [⟨['a'], 1, 7, 1000, 0⟩, ⟨['a'], 2, 9, 1000, 0⟩,
      ⟨['b'], 3, 14, 0, 4⟩, ⟨['b'], 4, 15, 2000, 4⟩]).Conserves 100 [0, 4] ⟨['a'], 1, 7, 1000, 0⟩
        [⟨['a'], 2, 9, 1000, 0⟩, ⟨['b'], 3, 14, 0, 4⟩, ⟨['b'], 4, 15, 2000, 4⟩] := by
  apply conserves_addCalls
  · exact one_ne_zero
  · simp
  · apply noOverflow_of_isChain
    · simp
    · decide

end FerretProcess

end LibCollector.Ferret
