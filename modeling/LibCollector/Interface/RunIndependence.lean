import LibCollector.Interface.Recording

/-!
# Independence of runs

What `results()` reports after a run, compared with what the run has recorded and with
what the same calls make an unused collection report (`Independent`). `start()` leaves
the averages of every earlier `summarize()` and the keys of every earlier run in place.
The collectors are left as they are too, and some sample differently after a history
(the differences of `procfs` and `cpufreq` go back to the earlier run). So a run is
independent exactly if there are no averages, it records every key again, and its
samples are those of the run without the history.
-/

namespace LibCollector.Interface

open LibCollector.Misc

variable {J : Type}

/-! ## What a run would report on its own -/

namespace Run

/-- The series under a key: what was recorded, with one value for each interval if the collector is
    threaded. -/
def series (r : Run) (threaded : Bool) (name key : Str) : Option (List Number) :=
  let values := r.recorded threaded name key
  if values = [] then none
  else if threaded then CollectorValueList.remix r.intervals values
  else some values

/-- The custom arrays. -/
def arrays (r : Run) : OrdMap Str (List Int) :=
  (r.headers.zip r.columns).foldl (fun m e => m.insert e.1 e.2) ∅

/-- The results hold what the run has recorded and nothing else. -/
structure Only (r : Run) (threaded : Str → Bool) (results : Results J) : Prop where
  series : ∀ name summarized values,
    results.collectors.find? name = some (.series summarized values) →
      summarized = false ∧ ∀ key, values.find? key = r.series (threaded name) name key
  time : results.time = r.intervals
  custom : results.custom = r.arrays
  customSummarized : results.customSummarized = false

end Run

/-- The calls of `r₀` are those of `r`: the same headers, times between the calls and custom
    values. What the collectors sample may differ. -/
structure Run.SameCalls (r r₀ : Run) : Prop where
  headers : r.headers = r₀.headers
  intervals : r.intervals = r₀.intervals
  columns : r.columns = r₀.columns

/-- Whatever `a` reports, other than a custom result, `b` reports too. -/
structure Results.Agree (a b : Results J) : Prop where
  series : ∀ name summarized values,
    a.collectors.find? name = some (.series summarized values) →
      b.collectors.find? name = some (.series summarized values)
  time : a.time = b.time
  custom : a.custom = b.custom
  customSummarized : a.customSummarized = b.customSummarized

/-- Two results that hold the same series for a collector report the same of it. -/
theorem Run.Only.series_eq {r r₀ : Run} {threaded : Str → Bool} {a b : Results J}
    (ha : r.Only threaded a) (hb : r₀.Only threaded b) {name : Str} {x y : Bool}
    {xs ys : OrdMap Str (List Number)} (hx : a.collectors.find? name = some (.series x xs))
    (hy : b.collectors.find? name = some (.series y ys))
    (hseries : ∀ key, r.series (threaded name) name key = r₀.series (threaded name) name key) :
    b.collectors.find? name = some (.series x xs) := by
  obtain ⟨hxfalse, hxs⟩ := ha.series name x xs hx
  obtain ⟨hyfalse, hys⟩ := hb.series name y ys hy
  have heq : ys = xs :=
    OrdMap.ext_find? fun key => (hys key).trans ((hseries key).symm.trans (hxs key).symm)
  rw [hy, hyfalse, hxfalse, heq]

namespace Collection

/-! ## Results -/

/-- The entry of a collector in the results. -/
theorem find?_results {s : Collection J} {name : Str} :
    s.results.collectors.find? name =
      if name ∈ s.mRunning then (s.mCollectors.find? name).map report else none := by
  have hfold : ∀ (names : List Str) (m : OrdMap Str (Report J)),
      (names.foldl (fun m name =>
        ((s.mCollectors.find? name).map fun c => m.insert name (report c)).getD m) m).find? name =
      if name ∈ names then ((s.mCollectors.find? name).map report).or (m.find? name)
      else m.find? name := by
    intro names
    induction names with
    | nil => exact fun m => by rw [if_neg List.not_mem_nil]; rfl
    | cons other names ih =>
      intro m
      rw [List.foldl_cons, ih]
      by_cases heq : name = other
      · subst heq
        cases hc : s.mCollectors.find? name with
        | none => simp
        | some c => simp
      · have hother : (((s.mCollectors.find? other).map fun c =>
            m.insert other (report c)).getD m).find? name = m.find? name := by
          cases s.mCollectors.find? other with
          | none => rfl
          | some c => exact OrdMap.find?_insert_of_ne m _ heq
        simp only [List.mem_cons, heq, false_or, hother]
  have hresults := hfold s.mRunning ∅
  rw [OrdMap.find?_empty, Option.or_none] at hresults
  exact hresults

/-- A collector is reported with its series if it is running and has no custom result. -/
theorem find?_results_series {s : Collection J} {name : Str} {summarized : Bool}
    {values : OrdMap Str (List Number)} :
    s.results.collectors.find? name = some (.series summarized values) ↔
      ∃ c, name ∈ s.mRunning ∧ s.mCollectors.find? name = some c ∧ c.mCustomResult = none ∧
        summarized = decide (c.mIsSummarized ∧ c.mResults.entries ≠ []) ∧ values = c.reported := by
  rw [find?_results]
  constructor
  · intro h
    split at h
    · rename_i hname
      obtain ⟨c, hc, hreport⟩ := Option.map_eq_some_iff.mp h
      unfold report at hreport
      split at hreport
      · cases hreport
      · rename_i hcustom
        cases hreport
        exact ⟨c, hname, hc, hcustom, rfl, rfl⟩
    · cases h
  · rintro ⟨c, hname, hc, hcustom, rfl, rfl⟩
    rw [if_pos hname, hc, Option.map_some, report, hcustom]

/-- Without averages, the custom arrays are reported. -/
theorem customArrays_eq {s : Collection J} (h : ∀ l ∈ s.mCustomSummarized, l = [])
    (hlength : s.mCustom.length ≤ s.mCustomSummarized.length) : s.customArrays = s.mCustom := by
  apply List.ext_getElem
  · rw [customArrays, List.length_zipWith, Nat.min_eq_left hlength]
  · intro i hi hi'
    have hnil := h _ (List.getElem_mem (Nat.lt_of_lt_of_le hi' hlength))
    simp [customArrays, hnil]

/-! ## Threads -/

/-- Whether a collector is threaded. -/
def threaded (s : Collection J) (name : Str) : Bool :=
  ((s.mCollectors.find? name).map Collector.mIsThreaded).getD false

theorem After.threaded_eq {s₀ s : Collection J} (h : After s₀ s) (name : Str) :
    s.threaded name = s₀.threaded name := by
  have hrel := h.collectors name
  revert hrel
  rw [threaded, threaded]
  generalize s₀.mCollectors.find? name = a
  generalize s.mCollectors.find? name = b
  intro hrel
  cases hrel with
  | none => rfl
  | some hsetup => exact hsetup.mIsThreaded

/-! ## Independence -/

/-- The run records every key that a collector without a thread has from an earlier run. -/
def Covers (s : Collection J) (r : Run) : Prop :=
  ∀ name ∈ s.mRunning, ∀ c, s.mCollectors.find? name = some c → c.mCustomResult = none →
    c.mIsThreaded = false → ∀ key ∈ c.mResults.keys, r.recorded false name key ≠ []

/-- The collectors whose results are valid after the run `r` sample in it what they sample in
    `r₀`; for a collector with a thread, once the samples are matched to the intervals. -/
def SameSamples (s : Collection J) (r r₀ : Run) : Prop :=
  ∀ name ∈ s.mRunning, ∀ c, s.mCollectors.find? name = some c → c.mCustomResult = none →
    (c.mIsThreaded = true → ∀ key ∈ c.mResults.keys, r.recorded true name key ≠ []) →
      ∀ key, r.series c.mIsThreaded name key = r₀.series c.mIsThreaded name key

/-- The results of `t`, after the run `r`, are what the run has recorded, and the same as those of
    `t₀`, which the calls of `r` have made of the unused collection `s₀`. -/
def Independent (s₀ : Collection J) (r : Run) (t t₀ : Collection J) : Prop :=
  r.Only s₀.threaded t.results ∧ t.results.Agree t₀.results

/-- A run of a collection without averages: the series that a collector reports. -/
theorem find?_reported_run {s t : Collection J} {r : Run} (hnodup : s.mRunning.Nodup)
    (hplain : s.Unsummarized) (h : run step s r.ops = some t) {name : Str} {c c'' : Collector J}
    (hname : name ∈ t.mRunning) (hc : s.mCollectors.find? name = some c)
    (hc'' : t.mCollectors.find? name = some c'') (key : Str) :
    c''.mIsSummarized = false ∧ c''.mCustomResult = c.mCustomResult ∧
      (key ∈ c''.mResults.keys ↔
        key ∈ c.mResults.keys ∨ r.recorded c.mIsThreaded name key ≠ []) ∧
      c''.reported.find? key = (if key ∈ c''.mResults.keys then some (c''.numbersUnder key)
        else none) ∧
      (c.mIsThreaded = false → c''.numbersUnder key = r.recorded false name key) ∧
      (c.mIsThreaded = true → key ∈ c''.mResults.keys → r.recorded true name key ≠ [] ∧
        CollectorValueList.remix r.intervals (r.recorded true name key) =
          some (c''.numbersUnder key)) := by
  have hfin := finished_run hnodup h
  obtain ⟨d, c', d'', hd, ⟨c₁, hlaunched, hgrown⟩, hd'', valid, hhalt, hvalid⟩ :=
    hfin.collectors name (hfin.mRunning.subset hname)
  rw [hc] at hd
  rw [hc''] at hd''
  cases hd
  cases hd''
  rw [hvalid.mp hname] at hhalt
  have hplain_c := hplain.collectors name c hc
  have hhalted := Collector.halted_halt
    (by rw [hgrown.mIsSummarized, hlaunched.mIsSummarized, hplain_c.mIsSummarized]) hhalt
  have hnumbers : ∀ key, c'.numbersUnder key = r.recorded c.mIsThreaded name key := by
    intro key
    rw [hgrown.numbers, hlaunched.numbers, List.nil_append]
    rfl
  have hsummaries : c''.summariesUnder key = [] := by
    refine hhalted.summaries (fun key => ?_) key
    rw [hgrown.summaries, hlaunched.summaries, hplain_c.summaries]
  have hkeys : key ∈ c''.mResults.keys ↔
      key ∈ c.mResults.keys ∨ r.recorded c.mIsThreaded name key ≠ [] := by
    rw [hhalted.keys, hgrown.keys, hlaunched.keys]
    rfl
  have hthreaded : c'.mIsThreaded = c.mIsThreaded := by
    rw [hgrown.mIsThreaded, hlaunched.mIsThreaded]
  refine ⟨hhalted.mIsSummarized, ?_, hkeys, Collector.find?_reported hsummaries, fun hno => ?_,
    fun hyes hkey => ?_⟩
  · rw [hhalted.mCustomResult, hgrown.mCustomResult, hlaunched.mCustomResult]
  · rw [hhalted.plain (hthreaded.trans hno), hnumbers, hno]
  · obtain ⟨hne, hremix⟩ := hhalted.threaded (hthreaded.trans hyes) key (hhalted.keys ▸ hkey)
    rw [hnumbers, hyes] at hne hremix
    exact ⟨hne, hremix⟩

/-- The times and custom arrays after a run of a collection without averages. -/
theorem arrays_run {s t : Collection J} {r : Run} (hnodup : s.mRunning.Nodup)
    (hplain : s.Unsummarized) (h : run step s r.ops = some t) :
    t.results.time = r.intervals ∧ t.results.custom = r.arrays ∧
      t.results.customSummarized = false := by
  have hfin := finished_run hnodup h
  have hcustoms : ∀ l ∈ t.mCustomSummarized, l = [] := by
    rw [hfin.mCustomSummarized]
    intro l hl
    rcases List.mem_append.mp hl with hl | hl
    · exact hplain.customs l (List.mem_of_mem_take hl)
    · exact List.eq_of_mem_replicate hl
  have hlength : t.mCustom.length ≤ t.mCustomSummarized.length := by
    rw [hfin.mCustom, hfin.mCustomSummarized]
    simp only [Run.columns, columns, List.length_map, List.length_range, resize,
      List.length_append, List.length_take, List.length_replicate]
    omega
  refine ⟨?_, ?_, ?_⟩
  · have htimes : t.mTimingSummarized = [] := hfin.mTimingSummarized.trans hplain.times
    rw [results, times, if_neg (not_not.mpr htimes)]
    exact hfin.mTiming
  · have harrays := customArrays_eq hcustoms hlength
    simp only [results, harrays, hfin.mCustomHeaders, hfin.mCustom]
    rfl
  · rw [results, List.any_eq_false]
    intro l hl
    simp [hcustoms l (List.mem_of_mem_take hl)]

/-- A run of a collection without averages that records every key again. -/
theorem only_of_covers {s t : Collection J} {r : Run} (hnodup : s.mRunning.Nodup)
    (hplain : s.Unsummarized) (hcovers : s.Covers r) (h : run step s r.ops = some t) :
    r.Only s.threaded t.results := by
  obtain ⟨htime, hcustom, hsummarized⟩ := arrays_run hnodup hplain h
  refine ⟨fun name summarized values hseries => ?_, htime, hcustom, hsummarized⟩
  obtain ⟨c'', hname, hc'', hgeneric, rfl, rfl⟩ := find?_results_series.mp hseries
  have hname₀ := (finished_run hnodup h).mRunning.subset hname
  obtain ⟨c, -, -, hc, -⟩ := (finished_run hnodup h).collectors name hname₀
  have hthreaded : s.threaded name = c.mIsThreaded := by rw [threaded, hc]; rfl
  have hrun := find?_reported_run hnodup hplain h hname hc hc''
  refine ⟨by rw [(hrun []).1]; simp, fun key => ?_⟩
  obtain ⟨-, hcustom, hkeys, hreported, hno, hyes⟩ := hrun key
  rw [hreported, hthreaded, Run.series]
  cases hflag : c.mIsThreaded with
  | false =>
    rw [hflag] at hkeys
    by_cases hrecorded : r.recorded false name key = []
    · have hkey : key ∉ c''.mResults.keys := fun hkey =>
        (hkeys.mp hkey).elim
          (fun hold => hcovers name hname₀ c hc (hcustom ▸ hgeneric) hflag key hold hrecorded)
          fun hnew => hnew hrecorded
      rw [if_neg hkey, if_pos hrecorded]
    · rw [if_pos (hkeys.mpr (Or.inr hrecorded)), if_neg hrecorded, hno hflag,
        if_neg Bool.false_ne_true]
  | true =>
    rw [hflag] at hkeys
    by_cases hkey : key ∈ c''.mResults.keys
    · obtain ⟨hrecorded, hremix⟩ := hyes hflag hkey
      rw [if_pos hkey, if_neg hrecorded, if_pos rfl, hremix]
    · have hrecorded : r.recorded true name key = [] :=
        not_not.mp fun hne => hkey (hkeys.mpr (Or.inr hne))
      rw [if_neg hkey, if_pos hrecorded]

/-- The results of a collector are valid if no series of it is empty. -/
theorem valid_postprocess {timing : List Int} {c c' : Collector J} {valid : Bool}
    (hfull : c.mIsThreaded = true → ∀ key ∈ c.mResults.keys, c.numbersUnder key ≠ [])
    (h : c.postprocess timing = some (valid, c')) : valid = true := by
  unfold Collector.postprocess Collector.postprocessBy at h
  split at h
  · rename_i hthreaded
    split at h
    · rename_i hempty
      obtain ⟨⟨key, l⟩, he, hnil⟩ := hempty
      have hl := OrdMap.find?_eq_some_iff.mpr he
      refine absurd ?_ (hfull hthreaded.1 key (OrdMap.mem_keys_iff.mpr (by rw [hl]; rfl)))
      rw [Collector.numbersUnder, hl]
      exact (CollectorValueList.numbers_eq_nil_iff l).mpr hnil
    · obtain ⟨_, -, heq⟩ := Option.map_eq_some_iff.mp h
      cases heq
      rfl
  · cases h
    rfl

/-- A collector is still running after the run if it has no thread, or if the run records every key
    that it has again. -/
theorem mem_running_of_recorded {s t : Collection J} {r : Run} (hnodup : s.mRunning.Nodup)
    (h : run step s r.ops = some t) {name : Str} {c : Collector J} (hname : name ∈ s.mRunning)
    (hc : s.mCollectors.find? name = some c)
    (hrecorded : c.mIsThreaded = true → ∀ key ∈ c.mResults.keys, r.recorded true name key ≠ []) :
    name ∈ t.mRunning ∧ ∃ c'', t.mCollectors.find? name = some c'' := by
  obtain ⟨d, c', c'', hd, ⟨c₁, hlaunched, hgrown⟩, hc'', valid, hhalt, hvalid⟩ :=
    (finished_run hnodup h).collectors name hname
  rw [hc] at hd
  cases hd
  have hthreaded : c'.mIsThreaded = c.mIsThreaded := by
    rw [hgrown.mIsThreaded, hlaunched.mIsThreaded]
  refine ⟨hvalid.mpr ?_, c'', hc''⟩
  unfold Collector.halt at hhalt
  split at hhalt
  · cases hhalt
  · refine valid_postprocess (fun hflag key hkey => ?_) hhalt
    have hflag : c.mIsThreaded = true := hthreaded ▸ hflag
    have hnumbers : c'.numbersUnder key = r.recorded true name key := by
      rw [hgrown.numbers, hlaunched.numbers, List.nil_append, hflag]
      rfl
    have hkeys : key ∈ c.mResults.keys ∨ r.recorded true name key ≠ [] := by
      have hold := (hgrown.keys key).mp hkey
      rwa [hlaunched.keys, hflag] at hold
    exact fun hnil => hkeys.elim (hrecorded hflag key) id (hnumbers.symm.trans hnil)

/-- A collector without a thread is still running after the run. -/
theorem mem_running_run {s t : Collection J} {r : Run} (hnodup : s.mRunning.Nodup)
    (h : run step s r.ops = some t) {name : Str} {c : Collector J} (hname : name ∈ s.mRunning)
    (hc : s.mCollectors.find? name = some c) (hflag : c.mIsThreaded = false) :
    name ∈ t.mRunning ∧ ∃ c'', t.mCollectors.find? name = some c'' := by
  refine mem_running_of_recorded hnodup h hname hc fun hthreaded => ?_
  rw [hflag] at hthreaded
  cases hthreaded

/-- Conversely, a key that is not recorded again is reported without numbers. -/
theorem covers_of_only {s t : Collection J} {r : Run} (hnodup : s.mRunning.Nodup)
    (hplain : s.Unsummarized) (h : run step s r.ops = some t)
    (honly : r.Only s.threaded t.results) : s.Covers r := by
  intro name hname c hc hgeneric hflag key hkey hrecorded
  obtain ⟨hstays, c'', hc''⟩ := mem_running_run hnodup h hname hc hflag
  obtain ⟨-, hcustom, hkeys, hreported, -, -⟩ :=
    find?_reported_run hnodup hplain h hstays hc hc'' key
  have hseries := (honly.series name _ _
    (find?_results_series.mpr ⟨c'', hstays, hc'', hcustom.trans hgeneric, rfl, rfl⟩)).2 key
  have hthreaded : s.threaded name = false := by rw [threaded, hc]; exact hflag
  rw [hreported, if_pos (hkeys.mpr (Or.inl hkey)), Run.series, hthreaded,
    if_pos hrecorded] at hseries
  cases hseries

/-- A fresh collection has no keys that would have to be recorded again. -/
theorem Fresh.covers {s₀ : Collection J} (h : s₀.Fresh) (r : Run) : s₀.Covers r := by
  intro name _ c hc _ _ key hkey
  rw [(h.collectors name c hc).2.1] at hkey
  exact absurd hkey List.not_mem_nil

/-- A running collector of a used collection is running after a run of the unused one. -/
theorem After.mem_running_run {s₀ s t₀ : Collection J} (hfresh : s₀.Fresh) (hafter : After s₀ s)
    {r₀ : Run} (h₀ : run step s₀ r₀.ops = some t₀) {name : Str} {c : Collector J}
    (hname : name ∈ s.mRunning) (hc : s.mCollectors.find? name = some c)
    (hgeneric : c.mCustomResult = none) :
    ∃ c₀, name ∈ t₀.mRunning ∧ t₀.mCollectors.find? name = some c₀ ∧ c₀.mCustomResult = none := by
  have hrel := hafter.collectors name
  rw [hc] at hrel
  cases hfirst : s₀.mCollectors.find? name with
  | none =>
    rw [hfirst] at hrel
    cases hrel
  | some d =>
    rw [hfirst] at hrel
    cases hrel with
    | some hsetup =>
      obtain ⟨hstays, c₀, hc₀⟩ := mem_running_of_recorded hfresh.nodup h₀
        (hafter.mRunning.subset hname) hfirst fun _ key hkey => by
          rw [(hfresh.collectors name d hfirst).2.1] at hkey
          exact absurd hkey List.not_mem_nil
      have hrun := find?_reported_run hfresh.nodup hfresh.unsummarized h₀ hstays hfirst hc₀ []
      exact ⟨c₀, hstays, hc₀, hrun.2.1.trans (hsetup.mCustomResult.symm.trans hgeneric)⟩

/-- The same calls and samples give the same results. -/
theorem agree_of_sameSamples {s₀ s t t₀ : Collection J} (hfresh : s₀.Fresh) (hafter : After s₀ s)
    (hplain : s.Unsummarized) {r r₀ : Run} (hcalls : r.SameCalls r₀)
    (h : run step s r.ops = some t) (h₀ : run step s₀ r₀.ops = some t₀)
    (honly : r.Only s₀.threaded t.results) (hsamples : s.SameSamples r r₀) :
    t.results.Agree t₀.results := by
  have honly₀ := only_of_covers hfresh.nodup hfresh.unsummarized (hfresh.covers r₀) h₀
  have hnodup := hfresh.nodup.sublist hafter.mRunning
  refine ⟨fun name summarized values hseries => ?_, ?_, ?_, ?_⟩
  · obtain ⟨c'', hname, hc'', hgeneric, -, -⟩ := find?_results_series.mp hseries
    have hname₀ := (finished_run hnodup h).mRunning.subset hname
    obtain ⟨c, -, -, hc, -⟩ := (finished_run hnodup h).collectors name hname₀
    have hrun := find?_reported_run hnodup hplain h hname hc hc''
    have hgeneric : c.mCustomResult = none := (hrun []).2.1 ▸ hgeneric
    obtain ⟨c₀, hstays, hc₀, hgeneric₀⟩ :=
      hafter.mem_running_run hfresh h₀ hname₀ hc hgeneric
    have hthreaded : s₀.threaded name = c.mIsThreaded := by
      rw [← hafter.threaded_eq, threaded, hc]
      rfl
    refine honly.series_eq honly₀ hseries
      (find?_results_series.mpr ⟨c₀, hstays, hc₀, hgeneric₀, rfl, rfl⟩) fun key => ?_
    rw [hthreaded]
    refine hsamples name hname₀ c hc hgeneric (fun hflag key hkey => ?_) key
    obtain ⟨-, -, hkeys, -, -, hyes⟩ := hrun key
    exact (hyes hflag (hkeys.mpr (Or.inl hkey))).1
  · rw [honly.time, honly₀.time, hcalls.intervals]
  · rw [honly.custom, honly₀.custom, Run.arrays, Run.arrays, hcalls.headers, hcalls.columns]
  · rw [honly.customSummarized, honly₀.customSummarized]

/-- Conversely, results that are the same come from the same samples. -/
theorem sameSamples_of_agree {s₀ s t t₀ : Collection J} (hfresh : s₀.Fresh) (hafter : After s₀ s)
    (hplain : s.Unsummarized) {r r₀ : Run} (h : run step s r.ops = some t)
    (h₀ : run step s₀ r₀.ops = some t₀) (honly : r.Only s₀.threaded t.results)
    (hagree : t.results.Agree t₀.results) : s.SameSamples r r₀ := by
  have honly₀ := only_of_covers hfresh.nodup hfresh.unsummarized (hfresh.covers r₀) h₀
  have hnodup := hfresh.nodup.sublist hafter.mRunning
  intro name hname c hc hgeneric hrecorded key
  obtain ⟨hstays, c'', hc''⟩ := mem_running_of_recorded hnodup h hname hc hrecorded
  have hcustom := (find?_reported_run hnodup hplain h hstays hc hc'' key).2.1
  have hseries := find?_results_series.mpr
    ⟨c'', hstays, hc'', hcustom.trans hgeneric, rfl, rfl⟩
  have hthreaded : s₀.threaded name = c.mIsThreaded := by
    rw [← hafter.threaded_eq, threaded, hc]
    rfl
  have hleft := (honly.series name _ _ hseries).2 key
  have hright := (honly₀.series name _ _ (hagree.series name _ _ hseries)).2 key
  rw [hthreaded] at hleft hright
  exact hleft.symm.trans hright

/-- A run of a used collection is independent of its history if nothing was summarized, the run
    records every earlier key again, and it samples the same as the run `r₀` of the unused
    collection with the same calls. Conversely, an independent run is of that kind, unless it takes
    exactly the times that are left as averages. -/
theorem independent_iff {s₀ s t t₀ : Collection J} (hfresh : s₀.Fresh) {history : List Op}
    (hhistory : run step s₀ history = some s) {r r₀ : Run} (hcalls : r.SameCalls r₀)
    (h : run step s r.ops = some t) (h₀ : run step s₀ r₀.ops = some t₀) :
    (NoSummarize history ∧ s.Covers r ∧ s.SameSamples r r₀ → Independent s₀ r t t₀) ∧
      (Independent s₀ r t t₀ → (NoSummarize history ∧ s.Covers r ∧ s.SameSamples r r₀) ∨
        s.mTimingSummarized ≠ [] ∧ r.intervals = s.mTimingSummarized) := by
  have hafter := after_run hfresh.nodup hhistory
  have hnodup := hfresh.nodup.sublist hafter.mRunning
  have hthreaded : s.threaded = s₀.threaded := funext hafter.threaded_eq
  constructor
  · rintro ⟨hquiet, hcovers, hsamples⟩
    have hplain := unsummarized_run hfresh.nodup hfresh.unsummarized hquiet hhistory
    have honly := only_of_covers hnodup hplain hcovers h
    rw [hthreaded] at honly
    exact ⟨honly, agree_of_sameSamples hfresh hafter hplain hcalls h h₀ honly hsamples⟩
  · rintro ⟨honly, hagree⟩
    by_cases hquiet : NoSummarize history
    · have hplain := unsummarized_run hfresh.nodup hfresh.unsummarized hquiet hhistory
      have hcovers := covers_of_only hnodup hplain h (hthreaded ▸ honly)
      exact Or.inl ⟨hquiet, hcovers,
        sameSamples_of_agree hfresh hafter hplain h h₀ honly hagree⟩
    · have hleft := times_of_summarize hfresh.nodup hquiet hhistory
      have hsame : t.mTimingSummarized = s.mTimingSummarized :=
        (finished_run hnodup h).mTimingSummarized
      have htime := honly.time
      rw [results, times, hsame, if_pos hleft] at htime
      exact Or.inr ⟨hleft, htime.symm⟩

/-! ## Two runs of one collection -/

/-- A collection with a collector of the memory frequency. -/
def memfreqCollection : Collection Unit where
  mCollectors := OrdMap.insert ∅ "memfreq".toList {}
  mRunning := ["memfreq".toList]

/-- What a sample of the memory frequency adds. -/
def memfreqAdds (freq : Int64) (_ : Str) : List Added :=
  [("memfreq".toList, .i64, .ofI64 freq)]

/-- A run of one call, `interval` microseconds after its start. -/
def memfreqRun (now interval : Int) (freq : Int64) : Run where
  headers := []
  now := now
  ok := fun _ => true
  samplings := [.collect (now + interval) [] (memfreqAdds freq)]

theorem fresh_memfreq : memfreqCollection.Fresh := by
  refine ⟨by decide, ⟨rfl, rfl⟩, ⟨rfl, rfl, rfl⟩, fun name c hc => ?_⟩
  rw [memfreqCollection, OrdMap.find?_insert] at hc
  split at hc
  · cases hc
    exact ⟨rfl, rfl, rfl⟩
  · cases hc

/-- The second of two runs is independent of the first. -/
theorem independent_second_run : ∃ s t t₀,
    run step memfreqCollection (memfreqRun 0 5 800000).ops = some s ∧
    run step s (memfreqRun 100 7 933000).ops = some t ∧
    run step memfreqCollection (memfreqRun 0 7 933000).ops = some t₀ ∧
    Independent memfreqCollection (memfreqRun 100 7 933000) t t₀ := by
  have hfirst : ∃ s, run step memfreqCollection (memfreqRun 0 5 800000).ops = some s ∧
      s.mRunning = ["memfreq".toList] ∧
      (s.mCollectors.find? "memfreq".toList).map (fun c => c.mResults.keys) =
        some ["memfreq".toList] ∧
      ∃ t, run step s (memfreqRun 100 7 933000).ops = some t := ⟨_, rfl, rfl, rfl, _, rfl⟩
  obtain ⟨s, hs, hrunning, hkeys, t, ht⟩ := hfirst
  obtain ⟨t₀, ht₀⟩ : ∃ t₀, run step memfreqCollection (memfreqRun 0 7 933000).ops = some t₀ :=
    ⟨_, rfl⟩
  have hcalls : (memfreqRun 100 7 933000).SameCalls (memfreqRun 0 7 933000) := ⟨rfl, rfl, rfl⟩
  have hcovers : s.Covers (memfreqRun 100 7 933000) := by
    intro name hname c hc _ _ key hkey
    rw [hrunning, List.mem_singleton] at hname
    subst hname
    rw [hc, Option.map_some, Option.some_inj] at hkeys
    rw [hkeys, List.mem_singleton] at hkey
    subst hkey
    decide
  exact ⟨s, t, t₀, hs, ht, ht₀, (independent_iff fresh_memfreq hs hcalls ht ht₀).1
    ⟨noSummarize_ops _, hcovers, fun _ _ _ _ _ _ _ => rfl⟩⟩

/-- What a `summarize()` in the first run has left is reported after the second one. -/
theorem not_independent_after_summarize : ∃ s t t₀, memfreqCollection.Fresh ∧
    run step memfreqCollection
      [.start [] 0 fun _ => true, .sample (.collect 5 [] (memfreqAdds 800000)), .summarize,
        .stop] = some s ∧
    run step s (memfreqRun 100 7 933000).ops = some t ∧
    run step memfreqCollection (memfreqRun 0 7 933000).ops = some t₀ ∧
    ¬ Independent memfreqCollection (memfreqRun 100 7 933000) t t₀ := by
  have hruns : ∃ s t t₀, run step memfreqCollection
      [.start [] 0 fun _ => true, .sample (.collect 5 [] (memfreqAdds 800000)), .summarize,
        .stop] = some s ∧
      run step s (memfreqRun 100 7 933000).ops = some t ∧
      run step memfreqCollection (memfreqRun 0 7 933000).ops = some t₀ ∧
      t.results.time = [5] := ⟨_, _, _, rfl, rfl, rfl, rfl⟩
  obtain ⟨s, t, t₀, hs, ht, ht₀, htime⟩ := hruns
  refine ⟨s, t, t₀, fresh_memfreq, hs, ht, ht₀, fun hindependent => ?_⟩
  have hrecorded := hindependent.1.time
  rw [htime] at hrecorded
  exact absurd hrecorded (by decide)

end Collection

end LibCollector.Interface
