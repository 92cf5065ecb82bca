import LibCollector.Interface.Writers
import Mathlib.Algebra.Ring.Nat

/-!
# Averages of windows

`summarize()` closes a window: what has been recorded since `start()` or the last `summarize()`
becomes one element of each array of averages. Every element is the mean of its window, and the
arrays stay equally long, if there is a call in each window and every series has a value in each
window from the first one on (`summarizes_iff`).
-/

namespace LibCollector.Interface

open LibCollector.Misc

variable {J : Type}

/-! ## The average of a list -/

namespace CollectorValueList

/-- The sum of the values of an `int64_t` list, without overflow. -/
def sumI64 (list : List CollectorValue) : Int := (list.map fun v => v.i64.toInt).sum

/-- The sum of the values of a `uint64_t` list, without overflow. -/
def sumU64 (list : List CollectorValue) : Nat := (list.map fun v => v.u64.toNat).sum

/-- The mean of values of a type: in the arithmetic of `double`, or truncated, if the type holds the
    sum and the count. -/
def IsMean (t : Vtype) (list : List CollectorValue) (mean : CollectorValue) : Prop :=
  match t with
  | .fp64 => mean = .ofFp64 ((list.map CollectorValue.fp64).foldl (· + ·) 0 /
      Float.ofNat list.length)
  | .i64 => list.length < 9223372036854775808 → -9223372036854775808 ≤ sumI64 list →
      sumI64 list < 9223372036854775808 → mean.i64.toInt = (sumI64 list).tdiv list.length
  | .u64 => list.length < 18446744073709551616 → sumU64 list < 18446744073709551616 →
      mean.u64.toNat = sumU64 list / list.length

theorem toInt_foldl (list : List CollectorValue) (s : Int64) :
    (list.foldl (fun s v => s + v.i64) s).toInt =
      (s.toInt + sumI64 list).bmod 18446744073709551616 := by
  induction list generalizing s with
  | nil => simp [sumI64]
  | cons v list ih =>
    rw [List.foldl_cons, ih, Int64.toInt_add, Int.bmod_add_bmod, Int.add_assoc]
    rfl

theorem toNat_foldl (list : List CollectorValue) (s : UInt64) :
    (list.foldl (fun s v => s + v.u64) s).toNat =
      (s.toNat + sumU64 list) % 18446744073709551616 := by
  induction list generalizing s with
  | nil => simp [sumU64, Nat.mod_eq_of_lt s.toNat_lt]
  | cons v list ih =>
    rw [List.foldl_cons, ih, UInt64.toNat_add, Nat.mod_add_mod, Nat.add_assoc]
    rfl

theorem isMean_average {t : Vtype} {list : List CollectorValue} {mean : CollectorValue}
    (h : average t list = some mean) : IsMean t list mean := by
  cases t with
  | fp64 =>
    cases h
    rw [IsMean, List.foldl_map]
  | i64 =>
    rw [average] at h
    split_ifs at h
    cases h
    intro hlen hlo hhi
    have hsum : (list.foldl (fun (s : Int64) v => s + v.i64) 0).toInt = sumI64 list := by
      rw [toInt_foldl, Int64.toInt_zero, Int.zero_add]
      exact Int.bmod_eq_of_le (by omega) (by omega)
    have hcount : (Int64.ofNat list.length).toInt = list.length := Int64.toInt_ofNat_of_lt hlen
    have hdivisor : Int64.ofNat list.length ≠ -1 := by
      intro h
      have hneg : (-1 : Int64).toInt = -1 := by decide
      rw [h, hneg] at hcount
      omega
    rw [CollectorValue.i64, CollectorValue.ofI64, Int64.toInt64_toUInt64,
      Int64.toInt_div_of_ne_right _ _ hdivisor, hsum, hcount]
  | u64 =>
    rw [average] at h
    split_ifs at h
    cases h
    intro hlen hsum
    rw [CollectorValue.u64, CollectorValue.ofU64, UInt64.toNat_div, toNat_foldl, UInt64.toNat_zero,
      Nat.zero_add, Nat.mod_eq_of_lt hsum, UInt64.toNat_ofNat', Nat.mod_eq_of_lt hlen]

theorem exists_average (t : Vtype) {list : List CollectorValue} (h : list ≠ []) :
    ∃ mean, average t list = some mean := by
  cases t with
  | fp64 => exact ⟨_, rfl⟩
  | i64 => exact ⟨_, if_neg h⟩
  | u64 => exact ⟨_, if_neg h⟩

/-- A list with a value can be averaged. -/
theorem summarize_of_ne_nil {l : CollectorValueList} (h : l.list ≠ []) :
    ∃ l', l.summarize = some l' := by
  obtain ⟨t, ht⟩ := Option.ne_none_iff_exists'.mp (type_ne_none h)
  obtain ⟨mean, hmean⟩ := exists_average t h
  exact ⟨_, by rw [summarize, ht, Option.bind_some, hmean, Option.map_some]⟩

/-- The list that is left, with one more average. -/
theorem of_summarize {l l' : CollectorValueList} (h : l.summarize = some l') :
    l'.list = [] ∧ ∃ t mean, l.type = some t ∧ IsMean t l.list mean ∧
      l'.summaries = l.summaries ++ [mean] := by
  obtain ⟨t, ht, h⟩ := Option.bind_eq_some_iff.mp h
  obtain ⟨mean, hmean, rfl⟩ := Option.map_eq_some_iff.mp h
  exact ⟨rfl, t, mean, ht, isMean_average hmean, rfl⟩

end CollectorValueList

/-! ## Windows -/

/-- A call between `start()` and `stop()`. -/
inductive WindowCall where
  | sample (x : Sampling)
  | summarize

/-- What has been sampled since `start()` or the last `summarize()`, and the time of the last call
    before. -/
structure Window where
  since : Int
  samplings : List Sampling

/-- The window after a call. -/
def Window.call (w : Window) : WindowCall → Window
  | .sample x => { w with samplings := w.samplings ++ [x] }
  | .summarize => ⟨lastTime w.since w.samplings, []⟩

/-- The window after a list of calls, from `start()` at the time `now` on. -/
def windowAfter (now : Int) (calls : List WindowCall) : Window := calls.foldl Window.call ⟨now, []⟩

/-- The count of `summarize()` calls. -/
def countSummaries (calls : List WindowCall) : Nat :=
  calls.foldl (fun m c => match c with | .sample _ => m | .summarize => m + 1) 0

/-- The truncated mean. -/
def truncatedMean (values : List Int) : Int := values.sum.tdiv values.length

namespace Collection

/-- A call as a step of the collection. -/
def callStep (s : Collection J) : WindowCall → Option (Collection J)
  | .sample x => s.sample x
  | .summarize => s.summarize

/-- After the call of `summarize()` that closes the window `w` and follows `m` others, every array
    of averages has one more element, the mean of the window, and `m + 1` in all; the raw lists are
    empty. -/
structure Summarized (w : Window) (m : Nat) (s s' : Collection J) : Prop where
  counted : intervals w.since w.samplings ≠ []
  mTiming : s'.mTiming = []
  mTimingSummarized : s'.mTimingSummarized =
    s.mTimingSummarized ++ [truncatedMean (intervals w.since w.samplings)]
  mCustom : ∀ values ∈ s'.mCustom, values = []
  mCustomSummarized : s'.mCustomSummarized =
    List.zipWith (fun averages values => averages ++ [truncatedMean values]) s.mCustomSummarized
      (columns s.mCustomHeaders.length w.samplings)
  collectors : ∀ name c, s.mCollectors.find? name = some c →
    ∃ c', s'.mCollectors.find? name = some c' ∧ c'.mResults.keys = c.mResults.keys ∧
      ∀ key l, c.mResults.find? key = some l →
        l.numbers = valuesUnder key (w.samplings.flatMap (·.added c.mIsThreaded name)) ∧
        l.list ≠ [] ∧ ∃ l', c'.mResults.find? key = some l' ∧ l'.list = [] ∧
          ∃ t mean, l.type = some t ∧ CollectorValueList.IsMean t l.list mean ∧
            l'.summaries = l.summaries ++ [mean]
  lengths : s'.mTimingSummarized.length = m + 1 ∧
    (∀ averages ∈ s'.mCustomSummarized, averages.length = m + 1) ∧
    ∀ name c, s'.mCollectors.find? name = some c → ∀ e ∈ c.mResults.entries,
      e.2.summaries.length = m + 1

/-- Every call of `summarize()` among the calls after `start()` completes and summarises its
    window. -/
def SummarizesWindows (now : Int) (s : Collection J) (calls : List WindowCall) : Prop :=
  EachSplit (fun pre c => c = .summarize → ∀ t, run callStep s pre = some t →
    ∃ t', t.summarize = some t' ∧ Summarized (windowAfter now pre) (countSummaries pre) t t') calls

/-- `summarize()` is called after a `collect()` in its window, and each series has a value in its
    window and an average for each earlier one. -/
def EachRecorded (s : Collection J) : WindowCall → Prop
  | .sample _ => True
  | .summarize => s.mTiming ≠ [] ∧ ∀ c ∈ s.mCollectors.entries, ∀ e ∈ c.2.mResults.entries,
      e.2.list ≠ [] ∧ e.2.summaries.length = s.mTimingSummarized.length

instance (s : Collection J) : DecidablePred s.EachRecorded
  | .sample _ => isTrue trivial
  | .summarize => inferInstanceAs (Decidable (_ ∧ ∀ c ∈ s.mCollectors.entries, _))

/-! ## The state between the calls -/

/-- During the window `w`, after `m` calls of `summarize()`. Collectors that are not running have no
    thread and no series. -/
structure InWindow (w : Window) (m : Nat) (s : Collection J) : Prop where
  base : ∃ b r, r.now = w.since ∧ Sampled b r w.samplings s
  nodup : s.mRunning.Nodup
  shaped : s.Shaped
  times : s.mTimingSummarized.length = m
  averages : ∀ averages ∈ s.mCustomSummarized, averages.length = m
  idle : ∀ name c, s.mCollectors.find? name = some c → name ∉ s.mRunning →
    c.thread = false ∧ c.mResults.keys = []

theorem inWindow_start {s s' : Collection J} {headers : List Str} {now : Int} {ok : Str → Bool}
    (hs : s.Fresh) (h : s.start headers now ok = some s') : InWindow ⟨now, []⟩ 0 s' := by
  have hsampled : Sampled s ⟨headers, now, ok, []⟩ [] s' :=
    sampled_start (r := ⟨headers, now, ok, []⟩) hs.nodup h
  have hshaped : s'.Shaped := @shaped_step J (.start headers now ok) s s' hs.shaped h
  refine ⟨⟨s, _, rfl, hsampled⟩, ?_, hshaped, ?_, ?_, fun name c hc hname => ?_⟩
  · rw [hsampled.mRunning]
    exact hs.nodup
  · rw [hsampled.mTimingSummarized, hs.mTiming.2]
    rfl
  · rw [hsampled.mCustomSummarized, hs.mCustom.2.1]
    intro averages haverages
    rw [resize, List.take_nil, List.nil_append] at haverages
    rw [List.eq_of_mem_replicate haverages]
    rfl
  · obtain ⟨collectors, hcollectors, rfl⟩ := Option.map_eq_some_iff.mp h
    rw [OrdMap.find?_updateAll hs.nodup hcollectors, if_neg hname] at hc
    obtain ⟨-, hresults, hthread⟩ := hs.collectors name c hc
    rw [hresults]
    exact ⟨hthread, rfl⟩

theorem inWindow_sample {w : Window} {m : Nat} {s s' : Collection J} {x : Sampling}
    (inv : InWindow w m s) (h : s.sample x = some s') : InWindow (w.call (.sample x)) m s' := by
  obtain ⟨b, r, hnow, hsampled⟩ := inv.base
  have hbase := sampled_sample (hsampled.mRunning ▸ inv.nodup) hsampled h
  have hshaped : s'.Shaped := @shaped_step J (.sample x) s s' inv.shaped h
  have hrunning : s'.mRunning = s.mRunning := hbase.mRunning.trans hsampled.mRunning.symm
  refine ⟨⟨b, r, hnow, hbase⟩, hrunning ▸ inv.nodup, hshaped, ?_, ?_, fun name c hc hname => ?_⟩
  · rw [hbase.mTimingSummarized, ← hsampled.mTimingSummarized, inv.times]
  · rw [hbase.mCustomSummarized, ← hsampled.mCustomSummarized]
    exact inv.averages
  · rw [hrunning] at hname
    cases x with
    | collect now custom adds =>
      obtain ⟨collectors, hcollectors, h⟩ := Option.bind_eq_some_iff.mp h
      split_ifs at h
      cases h
      rw [OrdMap.find?_updateAll inv.nodup hcollectors, if_neg hname] at hc
      exact inv.idle name c hc hname
    | loop other adds =>
      obtain ⟨d, hd, h⟩ := Option.bind_eq_some_iff.mp h
      split_ifs at h with hthread
      obtain ⟨d', -, rfl⟩ := Option.map_eq_some_iff.mp h
      have hother : name ≠ other := by
        rintro rfl
        have hidle := (inv.idle name d hd hname).1
        rw [hthread.2] at hidle
        cases hidle
      rw [OrdMap.find?_insert_of_ne _ _ hother] at hc
      exact inv.idle name c hc hname

/-- The average of values is their truncated mean. -/
theorem average_eq_some {values : List Int} {mean : Int} (h : average values = some mean) :
    values ≠ [] ∧ mean = truncatedMean values := by
  rw [average] at h
  split_ifs at h with hnil
  cases h
  exact ⟨hnil, rfl⟩

/-- What `summarize()` leaves. -/
structure Averaged (s s' : Collection J) : Prop where
  counted : s.mTiming ≠ []
  mTiming : s'.mTiming = []
  mTimingSummarized : s'.mTimingSummarized = s.mTimingSummarized ++ [truncatedMean s.mTiming]
  mCustom : s'.mCustom = s.mCustom.map fun _ => []
  mCustomSummarized : s'.mCustomSummarized =
    List.zipWith (fun averages values => averages ++ [truncatedMean values]) s.mCustomSummarized
      s.mCustom
  mRunning : s'.mRunning = s.mRunning
  mCustomHeaders : s'.mCustomHeaders = s.mCustomHeaders
  mPreviousTime : s'.mPreviousTime = s.mPreviousTime
  collectors : ∀ name, s'.mCollectors.find? name =
    (s.mCollectors.find? name).bind Collector.summarize

theorem averaged_summarize {s s' : Collection J} (h : s.summarize = some s') : Averaged s s' := by
  obtain ⟨collectors, hcollectors, h⟩ := Option.bind_eq_some_iff.mp h
  obtain ⟨time, htime, h⟩ := Option.bind_eq_some_iff.mp h
  obtain ⟨custom, hcustom, rfl⟩ := Option.map_eq_some_iff.mp h
  obtain ⟨hne, rfl⟩ := average_eq_some htime
  refine ⟨hne, rfl, rfl, rfl, ?_, rfl, rfl, rfl, OrdMap.find?_mapM hcollectors⟩
  have hmeans : custom = s.mCustom.map truncatedMean := by
    have hall := mapM_eq_some_iff.mp hcustom
    apply List.map_injective_iff.mpr fun _ _ => Option.some.inj
    rw [← hall, List.map_map]
    refine List.map_congr_left fun values hvalues => ?_
    obtain ⟨mean, hmean⟩ := Option.isSome_iff_exists.mp (isSome_of_mapM hcustom hvalues)
    rw [hmean, (average_eq_some hmean).2]
    rfl
  rw [hmeans, List.zipWith_map_right]

/-- Each collector has been summarised. -/
theorem exists_collector_summarize {s s' : Collection J} (h : s.summarize = some s') {name : Str}
    {c : Collector J} (hc : s.mCollectors.find? name = some c) : ∃ results,
      c.mResults.mapM CollectorValueList.summarize = some results ∧
      s'.mCollectors.find? name =
        some { c with mResults := results, mIsSummarized := true } := by
  obtain ⟨collectors, hcollectors, -⟩ := Option.bind_eq_some_iff.mp h
  have hsome := OrdMap.exists_mapM_iff.mp ⟨collectors, hcollectors⟩ _
    (OrdMap.find?_eq_some_iff.mp hc)
  obtain ⟨c', hc'⟩ := Option.isSome_iff_exists.mp hsome
  obtain ⟨results, hresults, rfl⟩ := Option.map_eq_some_iff.mp hc'
  refine ⟨results, hresults, ?_⟩
  rw [(averaged_summarize h).collectors, hc, Option.bind_some, hc']

/-- A collector without values is as at the beginning of a window. -/
theorem launched_of_mapM {c : Collector J} {results : OrdMap Str CollectorValueList}
    (h : c.mResults.mapM CollectorValueList.summarize = some results) :
    Collector.Launched { c with mResults := results, mIsSummarized := true }
      { c with mResults := results, mIsSummarized := true } := by
  refine ⟨rfl, rfl, rfl, fun key => ?_, fun _ => rfl, rfl⟩
  rw [Collector.numbersUnder]
  dsimp only
  cases hl : results.find? key with
  | none => rfl
  | some l =>
    rw [OrdMap.find?_mapM h] at hl
    obtain ⟨l₀, -, hsum⟩ := Option.bind_eq_some_iff.mp hl
    exact (CollectorValueList.numbers_eq_nil_iff l).mpr (CollectorValueList.of_summarize hsum).1

theorem inWindow_summarize {w : Window} {m : Nat} {s s' : Collection J} (inv : InWindow w m s)
    (h : s.summarize = some s') : InWindow (w.call .summarize) (m + 1) s' := by
  obtain ⟨b, r, hnow, hsampled⟩ := inv.base
  have haveraged := averaged_summarize h
  have hshaped : s'.Shaped := @shaped_step J .summarize s s' inv.shaped h
  refine ⟨⟨s', ⟨s'.mCustomHeaders, lastTime w.since w.samplings, r.ok, []⟩, rfl, ?_⟩, ?_, hshaped,
    ?_, fun averages haverages => ?_, fun name c hc hname => ?_⟩
  · refine ⟨rfl, rfl, haveraged.mTiming, ?_, ?_, rfl, ?_, fun name hname => ?_⟩
    · rw [haveraged.mPreviousTime, hsampled.mPreviousTime, hnow]
      rfl
    · rw [haveraged.mCustom, haveraged.mCustomHeaders, ← inv.shaped.mCustom]
      simp [columns, Window.call, List.map_const']
    · have hlength : s'.mCustomHeaders.length = s'.mCustomSummarized.length :=
        hshaped.mCustomSummarized.symm
      rw [resize, hlength, List.take_length, Nat.sub_self, List.replicate_zero, List.append_nil]
    · rw [haveraged.mRunning, hsampled.mRunning] at hname
      obtain ⟨-, c, -, hc, -⟩ := hsampled.collectors name hname
      obtain ⟨results, hresults, hc'⟩ := exists_collector_summarize h hc
      exact ⟨_, _, hc', hc', _, launched_of_mapM hresults, Collector.Grown.refl _⟩
  · exact haveraged.mRunning ▸ inv.nodup
  · rw [haveraged.mTimingSummarized, List.length_append, inv.times]
    rfl
  · rw [haveraged.mCustomSummarized] at haverages
    obtain ⟨i, hi, rfl⟩ := List.getElem_of_mem haverages
    rw [List.length_zipWith, Nat.lt_min] at hi
    rw [List.getElem_zipWith, List.length_append, inv.averages _ (List.getElem_mem hi.1)]
    rfl
  · rw [haveraged.collectors] at hc
    rw [haveraged.mRunning] at hname
    obtain ⟨d, hd, hsum⟩ := Option.bind_eq_some_iff.mp hc
    obtain ⟨results, hresults, rfl⟩ := Option.map_eq_some_iff.mp hsum
    obtain ⟨hthread, hkeys⟩ := inv.idle name d hd hname
    exact ⟨hthread, (OrdMap.keys_mapM hresults).trans hkeys⟩

theorem inWindow_run {now : Int} {s : Collection J} (inv : InWindow ⟨now, []⟩ 0 s)
    {calls : List WindowCall} {t : Collection J} (h : run callStep s calls = some t) :
    InWindow (windowAfter now calls) (countSummaries calls) t := by
  induction calls using List.reverseRecOn generalizing t with
  | nil =>
    cases h
    exact inv
  | append_singleton calls c ih =>
    obtain ⟨u, hu, hstep⟩ := run_concat_eq_some.mp h
    have hbefore := ih hu
    have hwindow : windowAfter now (calls ++ [c]) = (windowAfter now calls).call c := by
      rw [windowAfter, List.foldl_concat]
      rfl
    rw [hwindow, countSummaries, List.foldl_concat, ← countSummaries]
    cases c with
    | sample x => exact inWindow_sample hbefore hstep
    | summarize => exact inWindow_summarize hbefore hstep

/-! ## One window -/

/-- With a call and a value of each series in its window, `summarize()` completes. -/
theorem exists_summarize {w : Window} {m : Nat} {s : Collection J} (inv : InWindow w m s)
    (hrec : s.EachRecorded .summarize) : ∃ s', s.summarize = some s' := by
  obtain ⟨htiming, hseries⟩ := hrec
  have haverage : ∀ {values : List Int}, values ≠ [] → (average values).isSome := by
    intro values hne
    rw [average, if_neg hne]
    rfl
  have hcollector : ∀ e ∈ s.mCollectors.entries, (e.2.summarize).isSome := by
    intro e he
    have hlist : ∀ l ∈ e.2.mResults.entries, (l.2.summarize).isSome := fun l hl =>
      Option.isSome_iff_exists.mpr (CollectorValueList.summarize_of_ne_nil
        (hseries e he l hl).1)
    obtain ⟨results, hresults⟩ := OrdMap.exists_mapM_iff.mpr hlist
    rw [Collector.summarize, hresults]
    rfl
  obtain ⟨collectors, hcollectors⟩ := OrdMap.exists_mapM_iff.mpr hcollector
  obtain ⟨time, htime⟩ := Option.isSome_iff_exists.mp (haverage htiming)
  have hcustom : ∀ values ∈ s.mCustom, (average values).isSome := by
    intro values hvalues
    refine haverage fun hnil => htiming (List.length_eq_zero_iff.mp ?_)
    rw [← inv.shaped.lengths values hvalues, hnil]
    rfl
  obtain ⟨custom, hcustom⟩ := exists_mapM_eq_some hcustom
  exact ⟨_, by rw [summarize, hcollectors, Option.bind_some, htime, Option.bind_some, hcustom,
    Option.map_some]⟩

/-- The values of a series are those of the window. -/
theorem numbers_inWindow {w : Window} {m : Nat} {s : Collection J} (inv : InWindow w m s)
    {name : Str} {c : Collector J} (hc : s.mCollectors.find? name = some c) {key : Str}
    {l : CollectorValueList} (hl : c.mResults.find? key = some l) :
    l.numbers = valuesUnder key (w.samplings.flatMap (·.added c.mIsThreaded name)) := by
  obtain ⟨b, r, -, hsampled⟩ := inv.base
  have hkey : key ∈ c.mResults.keys := OrdMap.mem_keys_iff.mpr (by rw [hl]; rfl)
  have hname : name ∈ s.mRunning := by
    by_contra hname
    rw [(inv.idle name c hc hname).2] at hkey
    cases hkey
  rw [hsampled.mRunning] at hname
  obtain ⟨d, c', -, hc', hrec⟩ := hsampled.collectors name hname
  rw [hc] at hc'
  cases hc'
  have hthreaded := recording_threaded hrec
  obtain ⟨c₁, hlaunched, hgrown⟩ := hrec
  have hnumbers := hgrown.numbers key
  rw [hlaunched.numbers, List.nil_append, Collector.numbersUnder, hl] at hnumbers
  rw [hthreaded]
  exact hnumbers

/-- `summarize()` averages the window exactly if there is something to average everywhere. -/
theorem summarized_iff {w : Window} {m : Nat} {s : Collection J} (inv : InWindow w m s) :
    (∃ s', s.summarize = some s' ∧ Summarized w m s s') ↔ s.EachRecorded .summarize := by
  obtain ⟨b, r, hnow, hsampled⟩ := inv.base
  have htiming : s.mTiming = intervals w.since w.samplings := hnow ▸ hsampled.mTiming
  have hcolumns : s.mCustom = columns s.mCustomHeaders.length w.samplings :=
    hsampled.mCustomHeaders ▸ hsampled.mCustom
  constructor
  · rintro ⟨s', h, hsum⟩
    refine ⟨htiming ▸ hsum.counted, fun c hc e he => ?_⟩
    obtain ⟨c', hc', -, hseries⟩ := hsum.collectors c.1 c.2 (OrdMap.find?_eq_some_iff.mpr hc)
    obtain ⟨-, hne, l', hl', -, t, mean, -, -, hmean⟩ :=
      hseries e.1 e.2 (OrdMap.find?_eq_some_iff.mpr he)
    have hlength := hsum.lengths.2.2 c.1 c' hc' _ (OrdMap.find?_eq_some_iff.mp hl')
    rw [hmean, List.length_append] at hlength
    exact ⟨hne, (Nat.succ.inj hlength).trans inv.times.symm⟩
  · intro hrec
    obtain ⟨s', h⟩ := exists_summarize inv hrec
    have haveraged := averaged_summarize h
    have hafter := inWindow_summarize inv h
    refine ⟨s', h, ⟨htiming ▸ haveraged.counted, haveraged.mTiming,
      htiming ▸ haveraged.mTimingSummarized, ?_, hcolumns ▸ haveraged.mCustomSummarized, ?_,
      hafter.times, hafter.averages, ?_⟩⟩
    · rw [haveraged.mCustom]
      intro values hvalues
      obtain ⟨_, -, rfl⟩ := List.mem_map.mp hvalues
      rfl
    · intro name c hc
      obtain ⟨results, hresults, hc'⟩ := exists_collector_summarize h hc
      refine ⟨_, hc', OrdMap.keys_mapM hresults, fun key l hl => ?_⟩
      have hmem := OrdMap.find?_eq_some_iff.mp hl
      have hne := (hrec.2 _ (OrdMap.find?_eq_some_iff.mp hc) _ hmem).1
      obtain ⟨l', hl'⟩ := CollectorValueList.summarize_of_ne_nil hne
      refine ⟨numbers_inWindow inv hc hl, hne, l', ?_, CollectorValueList.of_summarize hl'⟩
      rw [OrdMap.find?_mapM hresults, hl, Option.bind_some, hl']
    · intro name c' hc' e he
      rw [haveraged.collectors] at hc'
      obtain ⟨c, hc, hsum⟩ := Option.bind_eq_some_iff.mp hc'
      obtain ⟨results, hresults, rfl⟩ := Option.map_eq_some_iff.mp hsum
      have hl' : results.find? e.1 = some e.2 := OrdMap.find?_eq_some_iff.mpr he
      rw [OrdMap.find?_mapM hresults] at hl'
      obtain ⟨l, hl, hsum⟩ := Option.bind_eq_some_iff.mp hl'
      obtain ⟨-, t, mean, -, -, hmean⟩ := CollectorValueList.of_summarize hsum
      rw [hmean, List.length_append,
        (hrec.2 _ (OrdMap.find?_eq_some_iff.mp hc) _ (OrdMap.find?_eq_some_iff.mp hl)).2,
        inv.times]
      rfl

/-! ## All windows -/

/-- After `start()` of a fresh collection, the calls of `summarize()` average their windows exactly
    if each of them finds a call and a value of each series in its window, and no series that
    earlier windows did not have. -/
theorem summarizes_iff {s₀ s : Collection J} (hfresh : s₀.Fresh) {headers : List Str} {now : Int}
    {ok : Str → Bool} (h : s₀.start headers now ok = some s) (calls : List WindowCall) :
    s.SummarizesWindows now calls ↔ StepsMeet callStep EachRecorded s calls := by
  have hall : ∀ {pre : List WindowCall} {t : Collection J}, run callStep s pre = some t →
      InWindow (windowAfter now pre) (countSummaries pre) t :=
    fun hrun => inWindow_run (inWindow_start hfresh h) hrun
  rw [stepsMeet_iff]
  constructor
  · intro hsum pre c post hsplit t ht
    cases c with
    | sample x => trivial
    | summarize => exact (summarized_iff (hall ht)).mp (hsum pre _ post hsplit rfl t ht)
  · intro hmeet pre c post hsplit hc t ht
    subst hc
    exact (summarized_iff (hall ht)).mpr (hmeet pre _ post hsplit t ht)

/-- A call that reads the memory frequency, or fails to. -/
def memfreqCall (now : Int) (freq : Option Int64) : WindowCall :=
  .sample (.collect now [] fun name => freq.toList.flatMap fun f => memfreqAdds f name)

/-- Two windows of two calls and one call. -/
theorem summarizes_memfreq : ∃ s, memfreqCollection.start [] 0 (fun _ => true) = some s ∧
    s.SummarizesWindows 0 [memfreqCall 5 (some 800000), memfreqCall 9 (some 933000), .summarize,
      memfreqCall 14 (some 800000), .summarize] := by
  obtain ⟨s, hs, hmeet⟩ : ∃ s, memfreqCollection.start [] 0 (fun _ => true) = some s ∧
      StepsMeet callStep EachRecorded s [memfreqCall 5 (some 800000),
        memfreqCall 9 (some 933000), .summarize, memfreqCall 14 (some 800000), .summarize] :=
    ⟨_, rfl, by decide +kernel⟩
  exact ⟨s, hs, (summarizes_iff fresh_memfreq hs _).mpr hmeet⟩

/-- When the only read of a window fails, the average of the frequency is a division by zero. -/
theorem not_summarizes_memfreq : ∃ s, memfreqCollection.start [] 0 (fun _ => true) = some s ∧
    ¬ s.SummarizesWindows 0 [memfreqCall 5 (some 800000), .summarize, memfreqCall 9 none,
      .summarize] := by
  refine ⟨_, rfl, fun h => ?_⟩
  obtain ⟨t', ht', -⟩ := h [memfreqCall 5 (some 800000), .summarize, memfreqCall 9 none] .summarize
    [] rfl rfl _ rfl
  cases ht'

end Collection

end LibCollector.Interface
