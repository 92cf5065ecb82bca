import LibCollector.Ferret.Histories
import LibCollector.Misc.Table
import Mathlib.Data.Set.Basic

/-!
# The C++ program and `ferret.py`

Whether `postprocess_ferret_data` reports the same threads as `ferret.py`, with the same
names, durations, activities and megacycles (`Agree`). The C++ program does not deliver the
last sample of a file, and its sums wrap, so they agree exactly on the traces for which neither
makes a difference (`Trace.agree_iff`). A sum of jiffies that overflows `int` is undefined in C++;
here it is taken to wrap, as it does on the machines the collector is built for.
-/

namespace LibCollector.Ferret

open LibCollector.Misc

/-! ## Reports -/

/-- What both programs report for a thread, by CPU number. -/
structure ThreadReport where
  pid : Str
  name : Option Str
  duration : ℚ
  active : Int → Option ℚ
  mcyc : Int → Option ℚ

def Summary.report (s : Summary) : ThreadReport where
  pid := s.pid
  name := some s.name
  duration := s.duration
  active := fun cpu => s.active.find? (toChars cpu)
  mcyc := fun cpu => s.mcyc.find? (toChars cpu)

def Python.Summary.report (s : Python.Summary ℚ) : ThreadReport where
  pid := toChars s.pid
  name := s.name
  duration := s.duration
  active := fun cpu => s.active.find? cpu
  mcyc := fun cpu => s.mcyc.find? cpu

/-- Both programs accept a file, and report the same for the same threads. -/
def Agree (text : Str) : Prop :=
  ∃ r results, postprocessFerretData [] text = some r ∧
    Python.results (-1 : ℚ) (-1) [] text = some results ∧
    {x | ∃ s ∈ r.processResults, x = s.report} =
      {x | ∃ s, some s ∈ results.2 ∧ x = Python.Summary.report s}

/-- The time between the first and the last of some samples. -/
def spanOf (samples : List TraceSample) : ℚ :=
  (samples.getLast?.map TraceSample.seconds).getD 0 -
    (samples.head?.map TraceSample.seconds).getD 0

namespace Account

/-- A thread has used some jiffies, and was there for more than a hundredth of the time. -/
def Significant (a : Account) (span : ℚ) (used : Int) : Prop :=
  0 < used ∧ 1 / 100 * span < a.last - a.first

/-- The report of an account, if its sums are converted. -/
def report (a : Account) (t : Trace) (convert : Int → Int) (pid : Int) : ThreadReport where
  pid := toChars pid
  name := some a.label
  duration := a.last - a.first
  active := fun cpu =>
    if cpu ∈ t.cpuList then some (1 / t.tick * convert (usedOn cpu a.charges)) else none
  mcyc := fun cpu =>
    if cpu ∈ t.cpuList then some (1 / t.tick * megacyclesOn convert cpu a.charges) else none

/-- On each CPU the jiffies fit into an `int`, and what is lost where a single charge does not fit
    adds up to no cycles. -/
structure Fits (a : Account) (cpus : List Int) : Prop where
  used : ∀ cpu ∈ cpus, IsInt32 (usedOn cpu a.charges)
  megacycles : ∀ cpu ∈ cpus, megacyclesOn int32 cpu a.charges = megacyclesOn id cpu a.charges

end Account

namespace Trace

/-- The reports of the significant threads of some samples. -/
def reports (t : Trace) (convert : Int → Int) (samples : List TraceSample) : Set ThreadReport :=
  {x | ∃ pid a, accountsOf samples pid = some a ∧
    a.Significant (spanOf samples) (convert (usedInAll a.charges)) ∧ x = a.report t convert pid}

/-- A thread is in the last sample. -/
def InLast (t : Trace) (pid : Int) : Prop :=
  ∃ s ∈ t.samples.getLast?, (s.observe pid).isSome

/-- There is a tick rate, no thread used a CPU with a negative frequency, a thread that is in the
    last sample is insignificant with this sample and without it, and the others are as significant
    for the shorter span and fit if they are. -/
structure Agreeable (t : Trace) : Prop where
  tick : t.tick ≠ 0
  plugged : ∀ pid a, accountsOf t.samples pid = some a → Plugged a.charges
  last : ∀ pid a, t.InLast pid → accountsOf t.samples pid = some a →
    ¬ a.Significant (spanOf t.samples) (usedInAll a.charges)
  before : ∀ pid a, t.InLast pid → accountsOf t.samples.dropLast pid = some a →
    ¬ a.Significant (spanOf t.samples.dropLast) (int32 (usedInAll a.charges))
  others : ∀ pid a, ¬ t.InLast pid → accountsOf t.samples pid = some a →
    (a.Significant (spanOf t.samples) (usedInAll a.charges) ↔
      a.Significant (spanOf t.samples.dropLast) (int32 (usedInAll a.charges))) ∧
    (a.Significant (spanOf t.samples) (usedInAll a.charges) → a.Fits t.cpus)

variable {t : Trace}

/-! ## The reports of the C++ program -/

theorem report_summary {p : FerretProcess} {a : Account} {pid : Int} {s : Summary}
    (h : p.Holds t.tick t.cpuList a) (hs : p.summary (toChars pid) = some s) :
    s.report = a.report t int32 pid := by
  rw [FerretProcess.summary] at hs
  split_ifs at hs
  cases hs
  rw [Summary.report, Account.report]
  congr 1
  · rw [h.label]
  · rw [FerretProcess.duration, h.last, h.first]
  · funext cpu
    rw [OrdMap.find?_mapVal, h.charged.tot, h.charged.period]
    split_ifs
    · rw [Option.map_some, mul_comm]
    · rfl
  · funext cpu
    exact h.charged.mcyc cpu

/-- The C++ program reports the significant threads without the last sample. -/
theorem reports_cpp (h : t.Complete) (htick : t.tick ≠ 0) :
    ∃ r, postprocessFerretData [] t.text = some r ∧
      {x | ∃ s ∈ r.processResults, x = s.report} = t.reports int32 t.samples.dropLast := by
  rcases delivered_readRows h with ⟨st, hread, hdata, hdelivered⟩
  rw [postprocessFerretData, hread, Option.bind_some, if_pos hdata]
  refine ⟨_, rfl, ?_⟩
  have hspan : st.traceEnd - st.traceStart = spanOf t.samples.dropLast := by
    rw [hdelivered.traceEnd, hdelivered.traceStart, spanOf]
  have hkeeps : ∀ p a, FerretProcess.Holds p t.tick t.cpuList a → (st.keeps p ↔
      a.Significant (spanOf t.samples.dropLast) (int32 (usedInAll a.charges))) := by
    intro p a hp
    rw [Postprocess.keeps, hspan, Account.Significant, hp.charged.all, FerretProcess.duration,
      hp.last, hp.first]
  ext x
  constructor
  · rintro ⟨s, hs, rfl⟩
    rcases List.mem_filterMap.mp hs with ⟨⟨key, p⟩, he, hsummary⟩
    split_ifs at hsummary with hkeep
    rcases hdelivered.history.keys key (List.mem_map_of_mem (f := Prod.fst) he) with ⟨pid, rfl⟩
    have hrel := hdelivered.history.find pid
    rw [OrdMap.find?_eq_some_iff.mpr he] at hrel
    cases hacc : accountsOf t.samples.dropLast pid with
    | none =>
      rw [hacc] at hrel
      cases hrel
    | some a =>
      rw [hacc] at hrel
      cases hrel with
      | some hp => exact ⟨pid, a, hacc, (hkeeps p a hp).mp hkeep, report_summary hp hsummary⟩
  · rintro ⟨pid, a, hacc, hsignificant, rfl⟩
    have hrel := hdelivered.history.find pid
    rw [hacc] at hrel
    cases hfind : st.pidHistory.find? (toChars pid) with
    | none =>
      rw [hfind] at hrel
      cases hrel
    | some p =>
      rw [hfind] at hrel
      cases hrel with
      | some hp =>
        have hne : ¬ p.jiffyPeriod * p.totJiffiesAllCpus = 0 := by
          rw [hp.charged.period, hp.charged.all]
          apply mul_ne_zero
          · exact one_div_ne_zero (Int.cast_ne_zero.mpr htick)
          · exact Int.cast_ne_zero.mpr hsignificant.1.ne'
        have hsummary : ∃ s, p.summary (toChars pid) = some s := by
          rw [FerretProcess.summary, if_neg hne]
          exact ⟨_, rfl⟩
        rcases hsummary with ⟨s, hs⟩
        refine ⟨s, List.mem_filterMap.mpr ⟨(toChars pid, p), ?_, ?_⟩, (report_summary hp hs).symm⟩
        · exact OrdMap.find?_eq_some_iff.mp hfind
        · rw [if_pos ((hkeeps p a hp).mpr hsignificant)]
          exact hs

/-- The sample after the last `T` row reaches none of the accounts of the C++ program: with any
    other sample in its place the same is reported. -/
theorem reports_cpp_last {u : Trace} (ht : t.Complete) (hu : u.Complete) (htick : t.tick ≠ 0)
    (hheader : u.tick = t.tick ∧ u.cpus = t.cpus)
    (hsamples : u.samples.dropLast = t.samples.dropLast) :
    ∃ r r', postprocessFerretData [] t.text = some r ∧ postprocessFerretData [] u.text = some r' ∧
      {x | ∃ s ∈ r.processResults, x = s.report} =
        {x | ∃ s ∈ r'.processResults, x = s.report} := by
  have htick' : u.tick ≠ 0 := by
    rw [hheader.1]
    exact htick
  have hreport : ∀ (a : Account) (pid : Int), a.report u int32 pid = a.report t int32 pid := by
    intro a pid
    rw [Account.report, Account.report, cpuList, cpuList, hheader.1, hheader.2]
  rcases reports_cpp ht htick with ⟨r, hr, hreports⟩
  rcases reports_cpp hu htick' with ⟨r', hr', hreports'⟩
  refine ⟨r, r', hr, hr', ?_⟩
  rw [hreports, hreports', reports, reports, hsamples]
  simp only [hreport]

/-! ## The reports of the Python program -/

theorem report_pythonSummary {p : Python.Process ℚ} {a : Account} {pid : Int}
    {s : Python.Summary ℚ} (h : p.Holds t.tick t.cpuList a)
    (hs : p.summary pid = some (some s)) : s.report = a.report t id pid := by
  rw [Python.Process.summary_rat] at hs
  rcases Option.bind_eq_some_iff.mp hs with ⟨active, -, hs⟩
  split_ifs at hs
  · cases hs
  · rcases Option.map_eq_some_iff.mp hs with ⟨duration, hduration, hs⟩
    cases hs
    rw [Python.Process.duration, h.last, h.first] at hduration
    cases hduration
    rw [Python.Summary.report, Account.report]
    congr 1
    · exact h.label
    · funext cpu
      rw [OrdMap.find?_mapVal, h.charged.tot, h.charged.period]
      split_ifs <;> rfl
    · funext cpu
      exact h.charged.mcyc cpu

theorem activeJiffies_holds {p : Python.Process ℚ} {a : Account} (hcpus : t.cpus ≠ [])
    (h : p.Holds t.tick t.cpuList a) : p.activeJiffies = some (usedInAll a.charges) := by
  rcases List.exists_mem_of_ne_nil t.cpus hcpus with ⟨cpu, hcpu⟩
  have hfind := h.charged.tot cpu
  have hlist : cpu ∈ t.cpuList := List.mem_mergeSort.mpr hcpu
  rw [if_pos hlist] at hfind
  have hmem := OrdMap.find?_eq_some_iff.mp hfind
  rw [Python.Process.activeJiffies, ← h.charged.all]
  cases hvalues : p.totJiffies.entries.map Prod.snd with
  | nil =>
    rw [List.map_eq_nil_iff.mp hvalues] at hmem
    cases hmem
  | cons n ns =>
    dsimp only
    rw [List.sum_eq_foldl, List.foldl_cons, zero_add]

/-- What is appended to the results for a thread. -/
theorem result_holds {p : Python.Process ℚ} {a : Account} (hcpus : t.cpus ≠ [])
    (htick : t.tick ≠ 0) (h : p.Holds t.tick t.cpuList a) (pid : Int) (start stop : ℚ) :
    ∃ l, Python.result (some start) (some stop) (pid, p) = some l ∧ ∀ x,
      (∃ s, some s ∈ l ∧ x = Python.Summary.report s) ↔
        a.Significant (stop - start) (usedInAll a.charges) ∧ x = a.report t id pid := by
  have hactive := activeJiffies_holds hcpus h
  have hduration : p.duration = some (a.last - a.first) := by
    rw [Python.Process.duration, h.last, h.first]
    rfl
  by_cases hsignificant : a.Significant (stop - start) (usedInAll a.charges)
  · have hne : ¬ p.jiffyPeriod * usedInAll a.charges = 0 := by
      rw [h.charged.period]
      apply mul_ne_zero
      · exact one_div_ne_zero (Int.cast_ne_zero.mpr htick)
      · exact Int.cast_ne_zero.mpr hsignificant.1.ne'
    have hsummary : ∃ s, p.summary pid = some (some s) := by
      rw [Python.Process.summary_rat, hactive, Option.bind_some, if_neg hne, hduration]
      exact ⟨_, rfl⟩
    rcases hsummary with ⟨s, hs⟩
    refine ⟨[some s], ?_, fun x => ?_⟩
    · rw [Python.result_rat]
      simp only [hactive, Option.bind_eq_bind, Option.bind_some, if_pos hsignificant.1, hduration,
        if_pos hsignificant.2, hs, Option.pure_def]
    · rw [← report_pythonSummary h hs]
      constructor
      · rintro ⟨r, hr, rfl⟩
        rw [Option.some.inj (List.mem_singleton.mp hr)]
        exact ⟨hsignificant, rfl⟩
      · rintro ⟨-, rfl⟩
        exact ⟨s, List.mem_singleton_self _, rfl⟩
  · refine ⟨[], ?_, fun x => ?_⟩
    · rw [Python.result_rat]
      simp only [hactive, Option.bind_eq_bind, Option.bind_some, hduration, Option.pure_def]
      by_cases hused : 0 < usedInAll a.charges
      · rw [if_pos hused, if_neg fun hlong => hsignificant ⟨hused, hlong⟩]
      · rw [if_neg hused]
    · constructor
      · rintro ⟨r, hr, -⟩
        cases hr
      · rintro ⟨hcontra, -⟩
        exact absurd hcontra hsignificant

/-- The Python program reports the significant threads. -/
theorem reports_python (h : t.Complete) (htick : t.tick ≠ 0)
    (hplugged : ∀ pid a, accountsOf t.samples pid = some a → Plugged a.charges) :
    ∃ results, Python.results (-1 : ℚ) (-1) [] t.text = some results ∧
      {x | ∃ s, some s ∈ results.2 ∧ x = Python.Summary.report s} = t.reports id t.samples := by
  rcases (Python.consumed_processTrace h).1 ⟨htick, hplugged⟩ with ⟨c, hc, hconsumed⟩
  have hcpus : t.cpus ≠ [] := by
    intro hnil
    rcases List.exists_mem_of_ne_nil _ h.nonempty with ⟨s, hs⟩
    rcases (h.samples s hs).stats with ⟨f, hf⟩
    have hplaced := (h.samples s hs).placed f hf
    rw [hnil] at hplaced
    cases hplaced
  have htimes : ∃ start stop, c.traceStart = some start ∧ c.traceEnd = some stop ∧
      stop - start = spanOf t.samples := by
    rw [hconsumed.traceStart, hconsumed.traceEnd, spanOf]
    cases hsamples : t.samples with
    | nil => exact absurd hsamples h.nonempty
    | cons s samples =>
      rw [List.head?_cons, List.getLast?_cons]
      exact ⟨_, _, rfl, rfl, rfl⟩
  rcases htimes with ⟨start, stop, hstart, hstop, hspan⟩
  -- The entry of a thread gives what its account says.
  have hresult : ∀ e ∈ c.pidHistory.entries, ∃ a l, accountsOf t.samples e.1 = some a ∧
      Python.result c.traceStart c.traceEnd e = some l ∧ ∀ x,
        (∃ s, some s ∈ l ∧ x = Python.Summary.report s) ↔
          a.Significant (spanOf t.samples) (usedInAll a.charges) ∧ x = a.report t id e.1 := by
    rintro ⟨pid, p⟩ he
    have hrel := hconsumed.history pid
    rw [OrdMap.find?_eq_some_iff.mpr he] at hrel
    dsimp only
    cases hacc : accountsOf t.samples pid with
    | none =>
      rw [hacc] at hrel
      cases hrel
    | some a =>
      rw [hacc] at hrel
      cases hrel with
      | some hp =>
        rcases result_holds hcpus htick hp pid start stop with ⟨l, hl, hx⟩
        rw [hspan] at hx
        rw [hstart, hstop]
        exact ⟨a, l, rfl, hl, hx⟩
  have hmapM : ∃ ls,
      c.pidHistory.entries.mapM (Python.result c.traceStart c.traceEnd) = some ls := by
    apply exists_mapM_eq_some
    intro e he
    rcases hresult e he with ⟨a, l, -, hl, -⟩
    rw [hl]
    rfl
  rcases hmapM with ⟨ls, hls⟩
  refine ⟨(c.cpuNrs, ls.flatten), ?_, ?_⟩
  · simp only [Python.results, Option.bind_eq_bind, hc, Option.bind_some, hls, Option.pure_def]
  ext x
  constructor
  · rintro ⟨s, hs, rfl⟩
    rcases List.mem_flatten.mp hs with ⟨l, hl, hmem⟩
    have hsome : some l ∈ ls.map some := List.mem_map_of_mem hl
    rw [← mapM_eq_some_iff.mp hls] at hsome
    rcases List.mem_map.mp hsome with ⟨e, he, hle⟩
    rcases hresult e he with ⟨a, l', hacc, hl', hx⟩
    rw [hle] at hl'
    cases hl'
    rcases (hx _).mp ⟨s, hmem, rfl⟩ with ⟨hsignificant, hreport⟩
    exact ⟨e.1, a, hacc, hsignificant, hreport⟩
  · rintro ⟨pid, a, hacc, hsignificant, rfl⟩
    have hrel := hconsumed.history pid
    rw [hacc] at hrel
    cases hfind : c.pidHistory.find? pid with
    | none =>
      rw [hfind] at hrel
      cases hrel
    | some p =>
      have he : (pid, p) ∈ c.pidHistory.entries := OrdMap.find?_eq_some_iff.mp hfind
      rcases hresult _ he with ⟨b, l, hb, hl, hx⟩
      rw [hacc] at hb
      cases hb
      rcases (hx _).mpr ⟨hsignificant, rfl⟩ with ⟨s, hs, hreport⟩
      have hsome : some l ∈ ls.map some := by
        rw [← mapM_eq_some_iff.mp hls]
        exact List.mem_map.mpr ⟨_, he, hl⟩
      rcases List.mem_map.mp hsome with ⟨l', hl', heq⟩
      rw [Option.some.inj heq] at hl'
      exact ⟨s, List.mem_flatten.mpr ⟨l, hl', hs⟩, hreport⟩

/-! ## Agreement -/

/-- The reports of an account are the same exactly if it fits. -/
theorem report_eq_iff (htick : t.tick ≠ 0) (a : Account) (pid : Int) :
    a.report t int32 pid = a.report t id pid ↔ a.Fits t.cpus := by
  have hperiod : (1 : ℚ) / t.tick ≠ 0 := one_div_ne_zero (Int.cast_ne_zero.mpr htick)
  constructor
  · intro h
    have hactive := congrArg ThreadReport.active h
    have hmcyc := congrArg ThreadReport.mcyc h
    constructor
    · intro cpu hcpu
      have hlist : cpu ∈ t.cpuList := List.mem_mergeSort.mpr hcpu
      have hat := congrFun hactive cpu
      simp only [Account.report, if_pos hlist, Option.some.injEq, mul_right_inj' hperiod, id,
        Int.cast_inj] at hat
      exact (int32_eq_iff _).mp hat
    · intro cpu hcpu
      have hlist : cpu ∈ t.cpuList := List.mem_mergeSort.mpr hcpu
      have hat := congrFun hmcyc cpu
      simp only [Account.report, if_pos hlist, Option.some.injEq, mul_right_inj' hperiod] at hat
      exact hat
  · intro h
    rw [Account.report, Account.report]
    congr 1
    · funext cpu
      split_ifs with hcpu
      · rw [(int32_eq_iff _).mpr (h.used cpu (List.mem_mergeSort.mp hcpu)), id]
      · rfl
    · funext cpu
      split_ifs with hcpu
      · rw [h.megacycles cpu (List.mem_mergeSort.mp hcpu)]
      · rfl

/-- A thread that is not in the last sample has the same account without it. -/
theorem accountsOf_dropLast {pid : Int} (h : ¬ t.InLast pid) :
    accountsOf t.samples.dropLast pid = accountsOf t.samples pid := by
  rcases List.eq_nil_or_concat t.samples with hnil | ⟨samples, s, hsamples⟩
  · rw [hnil]
    rfl
  · rw [List.concat_eq_append] at hsamples
    have ho : s.observe pid = none := by
      rw [← Option.not_isSome_iff_eq_none]
      intro hsome
      refine h ⟨s, ?_, hsome⟩
      rw [hsamples, List.getLast?_concat]
      rfl
    rw [hsamples, List.dropLast_concat, accountsOf_concat, nextAccounts_of_none ho]

/-- An account ends with one of its samples. -/
theorem exists_last {cpus : List Int} {samples : List TraceSample}
    (hs : ∀ s ∈ samples, s.Complete cpus) {pid : Int} {a : Account}
    (h : accountsOf samples pid = some a) : ∃ s ∈ samples, a.last = s.seconds := by
  induction samples using List.reverseRecOn generalizing a with
  | nil => cases h
  | append_singleton samples s ih =>
    have hmem : s ∈ samples ++ [s] := List.mem_append_right _ (List.mem_singleton_self s)
    rw [accountsOf_concat] at h
    cases ho : s.observe pid with
    | none =>
      rw [nextAccounts_of_none ho] at h
      rcases ih (fun r hr => hs r (List.mem_append_left _ hr)) h with ⟨r, hr, hlast⟩
      exact ⟨r, List.mem_append_left _ hr, hlast⟩
    | some o =>
      have htime := (TraceSample.observe_complete (hs s hmem) ho).1
      rw [nextAccounts_of_some ho] at h
      cases h
      refine ⟨s, hmem, ?_⟩
      cases accountsOf samples pid <;> exact htime

/-- The last sample makes the account of a thread longer. -/
theorem duration_lt (h : t.Complete) {pid : Int} (hlast : t.InLast pid) {a b : Account}
    (ha : accountsOf t.samples pid = some a) (hb : accountsOf t.samples.dropLast pid = some b) :
    b.last - b.first < a.last - a.first := by
  rcases hlast with ⟨s, hs, hsome⟩
  rcases List.eq_nil_or_concat t.samples with hnil | ⟨samples, s', hsamples⟩
  · exact absurd hnil h.nonempty
  rw [List.concat_eq_append] at hsamples
  have heq : s' = s := by
    rw [hsamples, List.getLast?_concat] at hs
    exact Option.some.inj hs
  subst heq
  rw [hsamples, List.dropLast_concat] at hb
  have hcomplete : ∀ r ∈ samples, r.Complete t.cpus := fun r hr =>
    h.samples r (hsamples ▸ List.mem_append_left _ hr)
  have hlast := h.samples s' (hsamples ▸ List.mem_append_right _ (List.mem_singleton_self s'))
  rcases exists_last hcomplete hb with ⟨r, hr, hblast⟩
  rcases Option.isSome_iff_exists.mp hsome with ⟨o, ho⟩
  have htime := (TraceSample.observe_complete hlast ho).1
  rw [hsamples, accountsOf_concat, nextAccounts_of_some ho, hb] at ha
  cases ha
  have hincreasing := h.increasing
  rw [hsamples, List.pairwise_append] at hincreasing
  have hnow : r.now < s'.now := hincreasing.2.2 r hr s' (List.mem_singleton_self s')
  have hseconds : r.seconds < s'.seconds := by
    rw [TraceSample.seconds, TraceSample.seconds]
    apply div_lt_div_of_pos_right _ (by norm_num)
    exact_mod_cast hnow
  rw [Option.elim_some, Account.add, hblast, htime]
  exact sub_lt_sub_right hseconds _

/-- The reports are the same exactly if they do not depend on the last sample, and fit. -/
theorem reports_eq_iff (h : t.Complete) (htick : t.tick ≠ 0)
    (hplugged : ∀ pid a, accountsOf t.samples pid = some a → Plugged a.charges) :
    t.reports int32 t.samples.dropLast = t.reports id t.samples ↔ t.Agreeable := by
  -- A report names its thread.
  have hpid : ∀ (a b : Account) (f g : Int → Int) (pid pid' : Int),
      a.report t f pid = b.report t g pid' → pid = pid' := by
    intro a b f g pid pid' heq
    exact toChars_injective (congrArg ThreadReport.pid heq)
  have hduration : ∀ (a b : Account) (f g : Int → Int) (pid pid' : Int),
      a.report t f pid = b.report t g pid' → a.last - a.first = b.last - b.first := by
    intro a b f g pid pid' heq
    exact congrArg ThreadReport.duration heq
  constructor
  · intro hsets
    refine ⟨htick, hplugged, fun pid a hlast ha hsignificant => ?_,
      fun pid b hlast hb hsignificant => ?_, fun pid a hlast ha => ?_⟩
    · have hmem : a.report t id pid ∈ t.reports int32 t.samples.dropLast := by
        rw [hsets]
        exact ⟨pid, a, ha, hsignificant, rfl⟩
      rcases hmem with ⟨pid', b, hb, -, heq⟩
      cases hpid _ _ _ _ _ _ heq
      have hlt := duration_lt h hlast ha hb
      rw [hduration _ _ _ _ _ _ heq] at hlt
      exact lt_irrefl _ hlt
    · have hmem : b.report t int32 pid ∈ t.reports id t.samples := by
        rw [← hsets]
        exact ⟨pid, b, hb, hsignificant, rfl⟩
      rcases hmem with ⟨pid', a, ha, -, heq⟩
      cases hpid _ _ _ _ _ _ heq
      have hlt := duration_lt h hlast ha hb
      rw [hduration _ _ _ _ _ _ heq] at hlt
      exact lt_irrefl _ hlt
    · have hbefore := accountsOf_dropLast hlast
      rw [ha] at hbefore
      have hforward : a.Significant (spanOf t.samples) (usedInAll a.charges) →
          a.Significant (spanOf t.samples.dropLast) (int32 (usedInAll a.charges)) ∧
            a.Fits t.cpus := by
        intro hsignificant
        have hmem : a.report t id pid ∈ t.reports int32 t.samples.dropLast := by
          rw [hsets]
          exact ⟨pid, a, ha, hsignificant, rfl⟩
        rcases hmem with ⟨pid', b, hb, hsignificant', heq⟩
        cases hpid _ _ _ _ _ _ heq
        rw [hbefore] at hb
        cases hb
        exact ⟨hsignificant', (report_eq_iff htick a pid).mp heq.symm⟩
      refine ⟨⟨fun hsignificant => (hforward hsignificant).1, fun hsignificant => ?_⟩,
        fun hsignificant => (hforward hsignificant).2⟩
      have hmem : a.report t int32 pid ∈ t.reports id t.samples := by
        rw [← hsets]
        exact ⟨pid, a, hbefore, hsignificant, rfl⟩
      rcases hmem with ⟨pid', b, hb, hsignificant', heq⟩
      cases hpid _ _ _ _ _ _ heq
      rw [ha] at hb
      cases hb
      exact hsignificant'
  · intro hagree
    ext x
    constructor
    · rintro ⟨pid, b, hb, hsignificant, rfl⟩
      have hlast : ¬ t.InLast pid := fun hlast => hagree.before pid b hlast hb hsignificant
      rw [accountsOf_dropLast hlast] at hb
      rcases hagree.others pid b hlast hb with ⟨hiff, hfits⟩
      have hsignificant' := hiff.mpr hsignificant
      exact ⟨pid, b, hb, hsignificant', (report_eq_iff htick b pid).mpr (hfits hsignificant')⟩
    · rintro ⟨pid, a, ha, hsignificant, rfl⟩
      have hlast : ¬ t.InLast pid := fun hlast => hagree.last pid a hlast ha hsignificant
      rcases hagree.others pid a hlast ha with ⟨hiff, hfits⟩
      refine ⟨pid, a, ?_, hiff.mp hsignificant,
        ((report_eq_iff htick a pid).mpr (hfits hsignificant)).symm⟩
      rw [accountsOf_dropLast hlast]
      exact ha

/-- Where both programs accept the trace, they agree exactly if their reports are the same. -/
theorem agree_iff_reports (h : t.Complete) (htick : t.tick ≠ 0)
    (hplugged : ∀ pid a, accountsOf t.samples pid = some a → Plugged a.charges) :
    Agree t.text ↔ t.reports int32 t.samples.dropLast = t.reports id t.samples := by
  rcases reports_cpp h htick with ⟨r, hr, hcpp⟩
  rcases reports_python h htick hplugged with ⟨results, hresults, hpython⟩
  rw [← hcpp, ← hpython]
  constructor
  · rintro ⟨r', results', hr', hresults', hsets⟩
    rw [hr] at hr'
    rw [hresults] at hresults'
    cases hr'
    cases hresults'
    exact hsets
  · exact fun hsets => ⟨r, results, hr, hresults, hsets⟩

/-- The two programs agree on a complete trace exactly if it is agreeable. -/
theorem agree_iff (h : t.Complete) : Agree t.text ↔ t.Agreeable := by
  constructor
  · intro hagree
    have hsome : (Python.processTrace (-1 : ℚ) (-1) [] t.text).isSome := by
      rcases hagree with ⟨-, results, -, hresults, -⟩
      cases htrace : Python.processTrace (-1 : ℚ) (-1) [] t.text with
      | some c => rfl
      | none =>
        rw [Python.results, htrace] at hresults
        cases hresults
    rcases (Python.consumed_processTrace h).2 hsome with ⟨htick, hplugged⟩
    rw [agree_iff_reports h htick hplugged] at hagree
    exact (reports_eq_iff h htick hplugged).mp hagree
  · intro hagree
    rw [agree_iff_reports h hagree.tick hagree.plugged]
    exact (reports_eq_iff h hagree.tick hagree.plugged).mpr hagree

/-! ## Two traces -/

/-- A sample of a thread that has used some jiffies on CPU 0. -/
def oneThread (now : Nat) (pid utime : Int) : TraceSample where
  now := now
  body := [.freq [(0, 1000000)], .stat {
    pid := pid
    comm := "a".toList
    ppid := 1
    utime := utime
    stime := 0
    cutime := 0
    cstime := 0
    numThreads := 1
    starttime := 0
    processor := 0 }]

/-- A trace of a process with one CPU. -/
def oneCpu (samples : List TraceSample) : Trace where
  tick := 100
  cpus := [0]
  watch := []
  samples := samples

theorem observe_oneThread (now : Nat) (pid utime p : Int) :
    (oneThread now pid utime).observe p =
      if pid = p then some ⟨(now : ℚ) / 1000000, "a".toList, utime, 1000000, 0⟩ else none := by
  by_cases hpid : pid = p
  · simp [TraceSample.observe, TraceSample.thread?, TraceSample.kHz?, TraceSample.frequencies?,
      oneThread, hpid]
  · simp [TraceSample.observe, TraceSample.thread?, oneThread, hpid]

theorem complete_oneCpu {samples : List TraceSample} (hne : samples ≠ [])
    (hincreasing : samples.Pairwise fun r s => r.now < s.now)
    (hs : ∀ s ∈ samples, ∃ now pid utime, 0 < now ∧ now < 9223372036854775808 ∧ IsInt32 pid ∧
      IsInt32 utime ∧ s = oneThread now pid utime) : (oneCpu samples).Complete := by
  have hcpus : (∀ cpu ∈ [(0 : Int)], IsInt32 cpu) ∧ [(0 : Int)].Nodup ∧ IsInt32 100 := by decide
  refine ⟨⟨hcpus.1, hcpus.2.1, nofun, fun s hmem => ?_⟩, ⟨nofun, fun s hmem row hrow => ?_⟩,
    hcpus.2.2, fun s hmem row hrow => ?_, hne, fun s hmem => ?_, hincreasing⟩
  all_goals rcases hs s hmem with ⟨now, pid, utime, hpos, hnow, hpid, hutime, rfl⟩
  · refine ⟨hnow, fun row hrow => ?_⟩
    simp only [oneThread, List.mem_cons, List.not_mem_nil, or_false] at hrow
    rcases hrow with rfl | rfl
    · trivial
    · simp [BodyRow.Clean]
  · simp only [oneThread, List.mem_cons, List.not_mem_nil, or_false] at hrow
    rcases hrow with rfl | rfl
    · trivial
    · simp [Python.RowClean, Python.isSpace]
  · simp only [oneThread, List.mem_cons, List.not_mem_nil, or_false] at hrow
    rcases hrow with rfl | rfl
    · simp [BodyRow.Fits, IsInt32]
    · simp [BodyRow.Fits, StatFields.fields, hpid, hutime]
      decide
  · refine ⟨hpos, ⟨_, List.mem_cons_of_mem _ (List.mem_singleton_self _)⟩, fun cpu hcpu => ?_,
      fun f hf => ?_⟩
    · rw [List.mem_singleton.mp hcpu]
      rfl
    · simp only [oneThread, List.mem_cons, List.not_mem_nil, or_false, reduceCtorEq, false_or,
        BodyRow.stat.injEq] at hf
      rw [hf]
      exact List.mem_singleton_self _

/-- A thread that has ended before the last sample. -/
def endedThread : Trace :=
  oneCpu [oneThread 1000000 5 0, oneThread 2000000 5 10, oneThread 3000000 6 0]

/-- A thread that runs in the last sample. -/
def runningThread : Trace := oneCpu [oneThread 1000000 5 0, oneThread 2000000 5 10]

/-- The account of a thread that uses ten jiffies in a second. -/
def tenJiffies : Account where
  label := "a".toList
  first := 1
  last := 2
  jiffies := 10
  charges := [⟨0, 1000000, 0⟩, ⟨0, 1000000, 10⟩]

theorem accountsOf_two (pid : Int) :
    accountsOf [oneThread 1000000 5 0, oneThread 2000000 5 10] pid =
      if pid = 5 then some tenJiffies else none := by
  by_cases hpid : pid = 5
  · subst hpid
    simp [accountsOf, nextAccounts, observe_oneThread, Account.begin, Account.add, tenJiffies]
    norm_num
  · simp [accountsOf, nextAccounts, observe_oneThread, hpid, Ne.symm hpid]

theorem complete_endedThread : endedThread.Complete := by
  apply complete_oneCpu (List.cons_ne_nil _ _)
  · simp [oneThread]
  · intro s hs
    simp only [List.mem_cons, List.not_mem_nil, or_false] at hs
    rcases hs with rfl | rfl | rfl
    · exact ⟨_, _, _, by decide, by decide, by decide, by decide, rfl⟩
    · exact ⟨_, _, _, by decide, by decide, by decide, by decide, rfl⟩
    · exact ⟨_, _, _, by decide, by decide, by decide, by decide, rfl⟩

theorem complete_runningThread : runningThread.Complete := by
  apply complete_oneCpu (List.cons_ne_nil _ _)
  · simp [oneThread]
  · intro s hs
    simp only [List.mem_cons, List.not_mem_nil, or_false] at hs
    rcases hs with rfl | rfl
    · exact ⟨_, _, _, by decide, by decide, by decide, by decide, rfl⟩
    · exact ⟨_, _, _, by decide, by decide, by decide, by decide, rfl⟩

theorem agreeable_endedThread : endedThread.Agreeable := by
  have hdrop : endedThread.samples.dropLast = [oneThread 1000000 5 0, oneThread 2000000 5 10] := rfl
  have hspans : spanOf endedThread.samples = 2 ∧ spanOf endedThread.samples.dropLast = 1 := by
    constructor
    · norm_num [spanOf, endedThread, oneCpu, oneThread, TraceSample.seconds]
    · norm_num [spanOf, hdrop, oneThread, TraceSample.seconds]
  have hlast : ∀ pid, endedThread.InLast pid ↔ pid = 6 := by
    intro pid
    have hobserve : endedThread.InLast pid ↔ ((oneThread 3000000 6 0).observe pid).isSome := by
      simp [InLast, endedThread, oneCpu]
    rw [hobserve, observe_oneThread]
    by_cases hpid : (6 : Int) = pid
    · simp [hpid]
    · simp [hpid, Ne.symm hpid]
  have haccounts : ∀ pid, accountsOf endedThread.samples pid =
      if pid = 6 then some (.begin ⟨3, "a".toList, 0, 1000000, 0⟩)
      else if pid = 5 then some tenJiffies else none := by
    intro pid
    have hconcat : endedThread.samples =
        [oneThread 1000000 5 0, oneThread 2000000 5 10] ++ [oneThread 3000000 6 0] := rfl
    rw [hconcat, accountsOf_concat, nextAccounts, accountsOf_two, observe_oneThread]
    by_cases hpid : pid = 6
    · subst hpid
      norm_num
    · rw [if_neg (Ne.symm hpid), if_neg hpid]
  have hused : usedInAll tenJiffies.charges = 10 := rfl
  refine ⟨by decide, fun pid a ha => ?_, fun pid a hpid ha => ?_, fun pid a hpid ha => ?_,
    fun pid a hpid ha => ?_⟩
  · rw [haccounts] at ha
    split_ifs at ha
    · cases ha
      decide
    · cases ha
      decide
  · rw [haccounts, if_pos ((hlast pid).mp hpid)] at ha
    cases ha
    exact fun hsignificant => absurd hsignificant.1 (by decide)
  · rw [hdrop, accountsOf_two, (hlast pid).mp hpid] at ha
    cases ha
  · rw [hlast] at hpid
    rw [haccounts, if_neg hpid] at ha
    split_ifs at ha
    cases ha
    rw [hspans.1, hspans.2, hused]
    have hlong : tenJiffies.Significant 2 10 ∧ tenJiffies.Significant 1 (int32 10) := by
      constructor
      · exact ⟨by decide, by norm_num [tenJiffies]⟩
      · exact ⟨by decide, by norm_num [tenJiffies]⟩
    refine ⟨iff_of_true hlong.1 hlong.2, fun _ => ⟨fun cpu hcpu => ?_, fun cpu hcpu => ?_⟩⟩
    · rw [List.mem_singleton.mp hcpu]
      decide
    · rw [List.mem_singleton.mp hcpu]
      have hint : int32 0 = 0 ∧ int32 10 = 10 := by decide
      simp [megacyclesOn, chargesOn, tenJiffies, hint]

/-- Both programs report a thread that has ended. -/
theorem agree_endedThread : Agree endedThread.text :=
  (agree_iff complete_endedThread).mpr agreeable_endedThread

/-- The C++ program does not report a thread that has only run up to the last sample. -/
theorem not_agree_runningThread : runningThread.Complete ∧ ¬ Agree runningThread.text := by
  refine ⟨complete_runningThread, ?_⟩
  have haccounts : ∀ pid, accountsOf runningThread.samples pid =
      if pid = 5 then some tenJiffies else none := accountsOf_two
  have hplugged : ∀ pid a, accountsOf runningThread.samples pid = some a →
      Plugged a.charges := by
    intro pid a ha
    rw [haccounts] at ha
    split_ifs at ha
    cases ha
    decide
  have htick : runningThread.tick ≠ 0 := by decide
  rw [agree_iff_reports complete_runningThread htick hplugged,
    reports_eq_iff complete_runningThread htick hplugged]
  intro hagree
  have hlast : runningThread.InLast 5 := by
    refine ⟨oneThread 2000000 5 10, rfl, ?_⟩
    rw [observe_oneThread]
    rfl
  apply hagree.last 5 tenJiffies hlast (haccounts 5)
  have hspan : spanOf runningThread.samples = 1 := by
    norm_num [spanOf, runningThread, oneCpu, oneThread, TraceSample.seconds]
  rw [hspan]
  exact ⟨by decide, by norm_num [tenJiffies]⟩

end Trace

end LibCollector.Ferret
