import LibCollector.Perf.Aggregate
import LibCollector.Perf.ScopeCounts

/-!
# The run of one perf thread

During a run, a perf thread is sampled and its scopes start and stop (`ThreadStep`). What
its results hold at the end, and what `postprocess` makes of them, is a function of the
steps if the thread held nothing before (`ofRun`).
-/

namespace LibCollector.Perf

open LibCollector.Misc LibCollector.Interface

/-! ## Lists of additions -/

/-- Nothing is added under a key that does not occur. -/
theorem valuesUnder_of_notMem {key : Str} {adds : List Added} (h : key ∉ adds.map Prod.fst) :
    valuesUnder key adds = [] := by
  rw [valuesUnder, List.filterMap_eq_nil_iff]
  intro a ha
  apply if_neg
  rintro rfl
  exact h (List.mem_map_of_mem ha)

/-- What is added under different keys. -/
theorem valuesUnder_of_nodup {adds : List Added} (h : (adds.map Prod.fst).Nodup) {key : Str}
    {val : Number} (hmem : (key, val) ∈ adds) : valuesUnder key adds = [val] := by
  induction adds with
  | nil => cases hmem
  | cons a adds ih =>
    rcases List.nodup_cons.mp h with ⟨ha, hadds⟩
    have hcons : valuesUnder key (a :: adds) = valuesUnder key [a] ++ valuesUnder key adds :=
      valuesUnder_append key [a] adds
    rw [hcons]
    rcases List.mem_cons.mp hmem with rfl | hmem
    · rw [valuesUnder_of_notMem ha]
      simp [valuesUnder]
    · have hne : a.1 ≠ key := fun heq => ha (heq ▸ List.mem_map_of_mem (f := Prod.fst) hmem)
      rw [ih hadds hmem]
      simp [valuesUnder, hne]

/-- What is added in groups under different keys. -/
theorem valuesUnder_flatMap {ι : Type} {key : ι → Str} {vals : ι → List Number} {is : List ι}
    (h : (is.map key).Nodup) {i : ι} (hi : i ∈ is) :
    valuesUnder (key i) (is.flatMap fun j => (vals j).map fun v => (key j, v)) = vals i := by
  have hgroup : ∀ (k : Str) (vs : List Number),
      valuesUnder k (vs.map fun v => (k, v)) = vs := by
    intro k vs
    induction vs with
    | nil => rfl
    | cons v vs ih =>
      have hcons : valuesUnder k ((k, v) :: vs.map fun v => (k, v)) =
          valuesUnder k [(k, v)] ++ valuesUnder k (vs.map fun v => (k, v)) :=
        valuesUnder_append k [(k, v)] _
      rw [List.map_cons, hcons, ih]
      simp [valuesUnder]
  induction is with
  | nil => cases hi
  | cons j is ih =>
    rcases List.nodup_cons.mp h with ⟨hj, his⟩
    rw [List.flatMap_cons, valuesUnder_append]
    rcases List.mem_cons.mp hi with rfl | hi
    · rw [hgroup, valuesUnder_of_notMem, List.append_nil]
      intro hmem
      rcases List.mem_map.mp hmem with ⟨a, ha, heq⟩
      rcases List.mem_flatMap.mp ha with ⟨l, hl, ha⟩
      rcases List.mem_map.mp ha with ⟨v, -, rfl⟩
      exact hj (heq ▸ List.mem_map_of_mem hl)
    · rw [ih his hi, valuesUnder_of_notMem, List.nil_append]
      intro hmem
      rcases List.mem_map.mp hmem with ⟨a, ha, heq⟩
      rcases List.mem_map.mp ha with ⟨v, -, rfl⟩
      have hkey : key j = key i := heq
      exact hj (hkey ▸ List.mem_map_of_mem hi)

theorem pushAll_append (adds adds' : List Added) (results : OrdMap Str CollectorValueList) :
    pushAll (adds ++ adds') results = (pushAll adds results).bind (pushAll adds') := by
  rw [pushAll, List.foldlM_append]
  rfl

/-- The additions to a map of results are those to a collector that has it. -/
theorem pushAll_eq (adds : List Added) (c : Collector Unit) :
    pushAll adds c.mResults = (c.addAll adds).map Collector.mResults := by
  induction adds generalizing c with
  | nil => rfl
  | cons a adds ih =>
    rw [pushAll, List.foldlM_cons, Collector.addAll, List.foldlM_cons]
    cases hl : ((c.mResults.find? a.1).getD {}).pushBack a.2 with
    | none => simp [Collector.add, hl]
    | some l =>
      have hadd : c.add a = some { c with mResults := c.mResults.insert a.1 l } := by
        rw [Collector.add, hl, Option.map_some]
      rw [hadd]
      exact ih { c with mResults := c.mResults.insert a.1 l }

/-- The results of additions to an empty map. -/
theorem find?_pushAll {adds : List Added} {results : OrdMap Str CollectorValueList}
    (h : pushAll adds ∅ = some results) (key : Str) :
    if valuesUnder key adds = [] then results.find? key = none
    else ∃ l, results.find? key = some l ∧ l.numbers = valuesUnder key adds ∧ l.summaries = [] := by
  rw [show (∅ : OrdMap Str CollectorValueList) = ({} : Collector Unit).mResults from rfl,
    pushAll_eq] at h
  rcases Option.map_eq_some_iff.mp h with ⟨c, hc, rfl⟩
  have hgrown := Collector.grown_addAll hc
  have hkeys := hgrown.keys key
  have hnumbers := hgrown.numbers key
  have hsummaries := hgrown.summaries key
  have hempty : ({} : Collector Unit).mResults.find? key = none := rfl
  rw [Collector.numbersUnder, Collector.numbersUnder, hempty] at hnumbers
  rw [Collector.summariesUnder, Collector.summariesUnder, hempty] at hsummaries
  rw [OrdMap.mem_keys_iff, OrdMap.mem_keys_iff, hempty] at hkeys
  by_cases hnil : valuesUnder key adds = []
  · rw [if_pos hnil]
    rw [hnil] at hkeys
    simpa using hkeys
  · rw [if_neg hnil]
    rcases Option.isSome_iff_exists.mp (hkeys.mpr (Or.inr hnil)) with ⟨l, hl⟩
    rw [hl] at hnumbers hsummaries
    exact ⟨l, hl, hnumbers, hsummaries⟩

/-! ## Steps -/

/-- What happens to a perf thread during a run. -/
inductive ThreadStep where
  | sample (snap : Snapshot)
  | start (funcId : UInt16) (snap : Snapshot)
  | stop (funcId : UInt16) (snap : Snapshot)

/-- The snapshots that are sampled. -/
def samplesOf : List ThreadStep → List Snapshot
  | [] => []
  | .sample snap :: steps => snap :: samplesOf steps
  | .start _ _ :: steps => samplesOf steps
  | .stop _ _ :: steps => samplesOf steps

/-- The scopes that are stopped, for the snapshot of the last start. -/
def scopesOf : Snapshot → List ThreadStep → List ScopeCall
  | _, [] => []
  | last, .sample _ :: steps => scopesOf last steps
  | _, .start _ snap :: steps => scopesOf snap steps
  | last, .stop funcId snap :: steps => ⟨funcId, last, snap⟩ :: scopesOf last steps

namespace PerfThread

/-- A step of a thread. -/
def step (t : PerfThread) : ThreadStep → Option PerfThread
  | .sample snap => t.updateData snap
  | .start funcId snap => t.startScope funcId snap
  | .stop funcId snap => t.stopScope funcId snap

/-- The thread `t'` is `t` after the samples and scopes, with what the samples have added. -/
structure Ran (t : PerfThread) (samples : List Snapshot) (scopes : List ScopeCall)
    (t' : PerfThread) : Prop where
  same : t'.tid = t.tid ∧ t'.name = t.name ∧ t'.deviceName = t.deviceName
  grew : EventContext.Grew scopes t.eventCtx t'.eventCtx
  mValueResults : t'.eventCtx.mValueResults = (t.eventCtx.mValueResults || !scopes.isEmpty)
  results : ∃ adds, samples.mapM t.eventCtx.snapshotAdds = some adds ∧
    pushAll adds.flatten t.mResultsPerThread = some t'.mResultsPerThread

end PerfThread

/-- The names of the counters do not change. -/
theorem EventContext.Grew.names {calls : List ScopeCall} {ctx ctx' : EventContext}
    (h : Grew calls ctx ctx') :
    ctx'.mCounters.map Counter.name = ctx.mCounters.map Counter.name := by
  apply List.ext_getElem?
  intro i
  rw [List.getElem?_map, List.getElem?_map]
  cases hc : ctx.mCounters[i]? with
  | none =>
    rw [List.getElem?_eq_none_iff] at hc
    rw [List.getElem?_eq_none (by rw [h.length]; exact hc)]
  | some c =>
    rcases h.counters i c hc with ⟨c', hc', hname, -⟩
    rw [hc', Option.map_some, Option.map_some, hname]

theorem EventContext.Grew.snapshotAdds {calls : List ScopeCall} {ctx ctx' : EventContext}
    (h : Grew calls ctx ctx') : ctx'.snapshotAdds = ctx.snapshotAdds := by
  funext snap
  rw [EventContext.snapshotAdds, EventContext.snapshotAdds, h.names]

namespace PerfThread

theorem Ran.refl (t : PerfThread) : t.Ran [] [] t := by
  refine ⟨⟨rfl, rfl, rfl⟩, EventContext.Grew.refl _, ?_, [], rfl, rfl⟩
  exact (Bool.or_false _).symm

theorem Ran.trans {a b c : PerfThread} {samples samples' : List Snapshot}
    {scopes scopes' : List ScopeCall} (h : a.Ran samples scopes b)
    (h' : b.Ran samples' scopes' c) : a.Ran (samples ++ samples') (scopes ++ scopes') c := by
  rcases h.results with ⟨adds, hadds, hpush⟩
  rcases h'.results with ⟨adds', hadds', hpush'⟩
  refine ⟨⟨h'.same.1.trans h.same.1, h'.same.2.1.trans h.same.2.1,
    h'.same.2.2.trans h.same.2.2⟩, h.grew.trans h'.grew, ?_, adds ++ adds', ?_, ?_⟩
  · rw [h'.mValueResults, h.mValueResults, Bool.or_assoc]
    cases scopes <;> cases scopes' <;> simp
  · rw [h.grew.snapshotAdds] at hadds'
    rw [mapM_eq_some_iff, List.map_append, List.map_append, mapM_eq_some_iff.mp hadds,
      mapM_eq_some_iff.mp hadds']
  · rw [List.flatten_append, pushAll_append, hpush, Option.bind_some, hpush']

/-- A step of a thread. -/
theorem ran_step {t t' : PerfThread} {x : ThreadStep} (h : t.step x = some t') :
    t.Ran (samplesOf [x]) (scopesOf t.eventCtx.lastSnap [x]) t' ∧
      ∀ steps, scopesOf t.eventCtx.lastSnap (x :: steps) =
        scopesOf t.eventCtx.lastSnap [x] ++ scopesOf t'.eventCtx.lastSnap steps := by
  cases x with
  | sample snap =>
    rcases Option.bind_eq_some_iff.mp h with ⟨adds, hadds, h⟩
    rcases Option.map_eq_some_iff.mp h with ⟨results, hresults, rfl⟩
    refine ⟨⟨⟨rfl, rfl, rfl⟩, EventContext.Grew.refl _, (Bool.or_false _).symm, [adds], ?_, ?_⟩,
      fun _ => rfl⟩
    · rw [samplesOf, samplesOf, mapM_eq_some_iff, List.map_singleton, hadds]
      rfl
    · rw [List.flatten_singleton]
      exact hresults
  | start funcId snap =>
    rw [step, startScope_eq] at h
    cases h
    refine ⟨⟨⟨rfl, rfl, rfl⟩, ?_, (Bool.or_false _).symm, [], rfl, rfl⟩, fun _ => rfl⟩
    have hrefl := EventContext.Grew.refl t.eventCtx
    exact ⟨hrefl.length, hrefl.counters, hrefl.scopeNumCalls, hrefl.scopeNumWithPerf⟩
  | stop funcId snap =>
    rw [step, stopScope_eq (lastSnapFuncId_of_stopScope h)] at h
    rcases Option.map_eq_some_iff.mp h with ⟨ctx, hctx, rfl⟩
    have hgrew := EventContext.grew_updateDataScope hctx
    rcases EventContext.frame_updateDataScope hctx with ⟨hresults, hsnap⟩
    refine ⟨⟨⟨rfl, rfl, rfl⟩, ?_, ?_, [], rfl, rfl⟩, fun steps => ?_⟩
    · exact ⟨hgrew.length, hgrew.counters, hgrew.scopeNumCalls, hgrew.scopeNumWithPerf⟩
    · rw [hresults]
      exact (Bool.or_true _).symm
    · rw [hsnap]
      rfl

theorem samplesOf_cons (x : ThreadStep) (steps : List ThreadStep) :
    samplesOf (x :: steps) = samplesOf [x] ++ samplesOf steps := by
  cases x <;> rfl

/-- Any number of steps. -/
theorem ran_run {t t' : PerfThread} {steps : List ThreadStep} (h : run step t steps = some t') :
    t.Ran (samplesOf steps) (scopesOf t.eventCtx.lastSnap steps) t' := by
  induction steps generalizing t with
  | nil =>
    cases h
    exact Ran.refl _
  | cons x steps ih =>
    rcases run_cons_eq_some.mp h with ⟨next, hnext, hrest⟩
    rcases ran_step hnext with ⟨hran, hscopes⟩
    rw [samplesOf_cons, hscopes]
    exact hran.trans (ih hrest)

end PerfThread

/-! ## The results of a run -/

/-- The name of the sums of a counter. -/
def sumName (name : Str) : Str := name ++ ":ScopeSum".toList

/-- All names that the results of a context can have. -/
def EventContext.metricNames (ctx : EventContext) : List Str :=
  ctx.mCounters.map Counter.name ++ ctx.mCounters.map (fun c => sumName c.name) ++
    ["CCthread:ScopeNumCalls".toList, "CCthread:ScopeNumWithPerf".toList]

namespace PerfThread

/-- A thread that holds nothing, and whose metrics have different names that are not those of other
    members of its object. -/
structure Clean (t : PerfThread) : Prop where
  unused : t.eventCtx.Unused
  mValueResults : t.eventCtx.mValueResults = false
  results : t.mResultsPerThread = ∅
  nodup : t.eventCtx.metricNames.Nodup
  free : ∀ m ∈ t.eventCtx.metricNames,
    m ∉ ["SUM".toList, "CCthread".toList, "device".toList]

/-- The object of a thread has, for every counter, one value for each sample, and the sums of its
    increments over the scopes, of each function. -/
def OfRun (t : PerfThread) (samples : List Snapshot) (scopes : List ScopeCall) (stopped : Bool)
    (value : Object) : Prop :=
  ∀ j c, t.eventCtx.mCounters[j]? = some c →
    (if samples = [] then value.find? c.name = none
      else value.find? c.name = some (.array (samples.map fun snap => snap.values[j]?.getD 0))) ∧
    if stopped = false ∨ scopes = [] then value.find? (sumName c.name) = none
    else ∃ sums, value.find? (sumName c.name) = some (.array sums) ∧
      ∀ f : UInt16, sums.getD f.toNat 0 = scopeSum j f scopes

/-- The additions of a sample, in the order of the counters. -/
theorem snapshotAdds_keys {ctx : EventContext} {snap : Snapshot} {adds : List Added}
    (h : ctx.snapshotAdds snap = some adds) :
    adds.map Prod.fst = ctx.mCounters.map Counter.name := by
  have hlength : adds.length = (ctx.mCounters.map Counter.name).length := by
    rw [length_of_mapM h, List.length_zipIdx]
  apply List.ext_getElem?
  intro i
  rw [List.getElem?_map]
  cases hname : (ctx.mCounters.map Counter.name)[i]? with
  | none =>
    rw [List.getElem?_eq_none_iff] at hname
    rw [List.getElem?_eq_none (by rw [hlength]; exact hname)]
    rfl
  | some name =>
    rcases getElem?_mapM_zipIdx h hname with ⟨a, ha, hval⟩
    rcases Option.map_eq_some_iff.mp hval with ⟨v, -, rfl⟩
    rw [ha]
    rfl

/-- The value that a sample adds under the name of a counter. -/
theorem valuesUnder_snapshotAdds {ctx : EventContext} {snap : Snapshot} {adds : List Added}
    (h : ctx.snapshotAdds snap = some adds) (hnodup : (ctx.mCounters.map Counter.name).Nodup)
    {j : Nat} {c : Counter} (hc : ctx.mCounters[j]? = some c) :
    valuesUnder c.name adds = [(.u64, .ofU64 (snap.values[j]?.getD 0))] := by
  have hname : (ctx.mCounters.map Counter.name)[j]? = some c.name := by
    rw [List.getElem?_map, hc, Option.map_some]
  rcases getElem?_mapM_zipIdx h hname with ⟨a, ha, hval⟩
  rcases Option.map_eq_some_iff.mp hval with ⟨v, hv, rfl⟩
  apply valuesUnder_of_nodup
  · rw [snapshotAdds_keys h]
    exact hnodup
  · rw [hv, Option.getD_some]
    exact List.mem_of_getElem? ha

/-- The values that the samples add under the name of a counter. -/
theorem valuesUnder_samples {ctx : EventContext} {samples : List Snapshot}
    {adds : List (List Added)}
    (hadds : samples.mapM ctx.snapshotAdds = some adds)
    (hnodup : (ctx.mCounters.map Counter.name).Nodup) {j : Nat} {c : Counter}
    (hc : ctx.mCounters[j]? = some c) :
    valuesUnder c.name adds.flatten =
      samples.map fun snap => (.u64, .ofU64 (snap.values[j]?.getD 0)) := by
  rw [mapM_eq_some_iff] at hadds
  induction samples generalizing adds with
  | nil =>
    rw [List.map_nil, eq_comm, List.map_eq_nil_iff] at hadds
    rw [hadds]
    rfl
  | cons snap samples ih =>
    cases adds with
    | nil => cases hadds
    | cons a adds =>
      rcases List.cons_eq_cons.mp hadds with ⟨ha, hrest⟩
      rw [List.flatten_cons, valuesUnder_append, ih hrest, valuesUnder_snapshotAdds ha hnodup hc]
      rfl

/-- The samples add nothing under other names than those of the counters. -/
theorem keys_samples {ctx : EventContext} {samples : List Snapshot} {adds : List (List Added)}
    (hadds : samples.mapM ctx.snapshotAdds = some adds) {m : Str}
    (hm : m ∈ adds.flatten.map Prod.fst) : m ∈ ctx.mCounters.map Counter.name := by
  rcases List.mem_map.mp hm with ⟨a, ha, rfl⟩
  rcases List.mem_flatten.mp ha with ⟨l, hl, ha⟩
  have hsome : some l ∈ samples.map ctx.snapshotAdds := by
    rw [mapM_eq_some_iff.mp hadds]
    exact List.mem_map_of_mem hl
  rcases List.mem_map.mp hsome with ⟨snap, -, hsnap⟩
  rw [← snapshotAdds_keys hsnap]
  exact List.mem_map_of_mem ha

/-! ## What is added at the end -/

theorem keys_countAdds {ctx : EventContext} {m : Str} (hm : m ∈ ctx.countAdds.map Prod.fst) :
    m ∈ ["CCthread:ScopeNumCalls".toList, "CCthread:ScopeNumWithPerf".toList] := by
  rcases List.mem_map.mp hm with ⟨a, ha, rfl⟩
  rcases List.mem_append.mp ha with ha | ha
  · rcases List.mem_map.mp ha with ⟨n, -, rfl⟩
    exact List.mem_cons_self
  · rcases List.mem_map.mp ha with ⟨n, -, rfl⟩
    exact List.mem_cons_of_mem _ List.mem_cons_self

theorem keys_sumAdds {ctx : EventContext} {m : Str} (hm : m ∈ ctx.sumAdds.map Prod.fst) :
    ∃ c ∈ ctx.mCounters, sumName c.name = m := by
  unfold EventContext.sumAdds at hm
  split at hm
  · rcases List.mem_map.mp hm with ⟨a, ha, rfl⟩
    rcases List.mem_flatMap.mp ha with ⟨c, hc, ha⟩
    rcases List.mem_map.mp ha with ⟨v, -, rfl⟩
    exact ⟨c, hc, rfl⟩
  · cases hm

/-- The names of a context, apart from each other. -/
theorem nodup_metricNames {ctx : EventContext} (h : ctx.metricNames.Nodup) :
    (ctx.mCounters.map Counter.name).Nodup ∧ (ctx.mCounters.map fun c => sumName c.name).Nodup ∧
      (∀ c ∈ ctx.mCounters, ∀ d ∈ ctx.mCounters, c.name ≠ sumName d.name) ∧
      ∀ m ∈ ["CCthread:ScopeNumCalls".toList, "CCthread:ScopeNumWithPerf".toList],
        ∀ c ∈ ctx.mCounters, c.name ≠ m ∧ sumName c.name ≠ m := by
  rcases List.nodup_append.mp h with ⟨hboth, -, hcounts⟩
  rcases List.nodup_append.mp hboth with ⟨hnames, hsums, hapart⟩
  refine ⟨hnames, hsums, fun c hc d hd => ?_, fun m hm c hc => ⟨?_, ?_⟩⟩
  · exact hapart _ (List.mem_map_of_mem hc) _
      (List.mem_map_of_mem (f := fun d : Counter => sumName d.name) hd)
  · exact hcounts _ (List.mem_append_left _ (List.mem_map_of_mem hc)) _ hm
  · exact hcounts _ (List.mem_append_right _
      (List.mem_map_of_mem (f := fun d : Counter => sumName d.name) hc)) _ hm

/-- What the end of a run adds under the name of the sums of a counter, and under no name of a
    counter. -/
theorem valuesUnder_stopAdds {ctx : EventContext} (hnodup : ctx.metricNames.Nodup) {c : Counter}
    (hc : c ∈ ctx.mCounters) :
    valuesUnder c.name (ctx.sumAdds ++ ctx.countAdds) = [] ∧
      valuesUnder (sumName c.name) (ctx.sumAdds ++ ctx.countAdds) =
        if ctx.mValueResults then c.scopeValues.map fun v => (.u64, .ofU64 v) else [] := by
  rcases nodup_metricNames hnodup with ⟨-, hsums, hapart, hconstants⟩
  have hname : c.name ∉ ctx.countAdds.map Prod.fst := fun hm =>
    (hconstants _ (keys_countAdds hm) c hc).1 rfl
  have hsumName : sumName c.name ∉ ctx.countAdds.map Prod.fst := fun hm =>
    (hconstants _ (keys_countAdds hm) c hc).2 rfl
  rw [valuesUnder_append, valuesUnder_append, valuesUnder_of_notMem hname,
    valuesUnder_of_notMem hsumName, List.append_nil, List.append_nil]
  constructor
  · apply valuesUnder_of_notMem
    intro hm
    rcases keys_sumAdds hm with ⟨d, hd, heq⟩
    exact hapart c hc d hd heq.symm
  · unfold EventContext.sumAdds
    split
    · have hgroups := @valuesUnder_flatMap _ (fun d : Counter => sumName d.name)
        (fun d => d.scopeValues.map fun v => (.u64, .ofU64 v)) _ hsums _ hc
      simp only [List.map_map] at hgroups
      exact hgroups
    · rfl

/-- The end of a run adds nothing under other names. -/
theorem keys_stopAdds {ctx : EventContext} {m : Str}
    (hm : m ∈ (ctx.sumAdds ++ ctx.countAdds).map Prod.fst) : m ∈ ctx.metricNames := by
  rw [List.map_append] at hm
  rcases List.mem_append.mp hm with hm | hm
  · rcases keys_sumAdds hm with ⟨c, hc, rfl⟩
    apply List.mem_append_left
    apply List.mem_append_right
    exact List.mem_map_of_mem (f := fun d : Counter => sumName d.name) hc
  · exact List.mem_append_right _ (keys_countAdds hm)

/-! ## The object of a run -/

/-- The values of a list without averages. -/
theorem values_eq {l : CollectorValueList} (h : l.summaries = []) :
    values l = l.numbers.map fun n => n.2.u64 := by
  rw [values, CollectorValueList.data, if_neg (not_not.mpr h), CollectorValueList.numbers]
  cases htype : l.type with
  | none =>
    rw [(l.unassigned htype).1, CollectorValueList.typed, htype]
    rfl
  | some t =>
    simp only [CollectorValueList.typed, htype, List.map_map]
    rfl

/-- The member of a metric in the object of a thread. -/
theorem find?_postprocess {labels : List (Str × Str)} (hlabels : Labels labels) {t : PerfThread}
    {adds : List Added} (hresults : pushAll adds ∅ = some t.mResultsPerThread)
    (hfree : ∀ m ∈ adds.map Prod.fst, m ≠ "SUM".toList ∧ m ∉ labels.map Prod.fst)
    {value : Object} (hvalue : t.postprocess (labelled labels) = some value) {m : Str}
    (hm : m ≠ "SUM".toList ∧ m ∉ labels.map Prod.fst) :
    value.find? m = if valuesUnder m adds = [] then none
      else some (.array ((valuesUnder m adds).map fun n => n.2.u64)) := by
  have hfreeThread : Free labels [t] := by
    intro u hu k hk
    rw [List.mem_singleton] at hu
    subst hu
    apply hfree
    by_contra hnot
    have hfind := find?_pushAll hresults k
    rw [if_pos (valuesUnder_of_notMem hnot)] at hfind
    rw [OrdMap.mem_keys_iff, hfind] at hk
    cases hk
  rcases aggregate_of_free hlabels (holds_labelled hlabels) hfreeThread with ⟨other, hother, hholds⟩
  rw [aggregate_singleton, hvalue] at hother
  cases hother
  have hfind := find?_pushAll hresults m
  by_cases hnil : valuesUnder m adds = []
  · rw [if_pos hnil] at hfind ⊢
    have hnone : contributions m [t] = [] := by simp [contributions, hfind]
    rw [hholds.metrics m hm.1 hm.2, List.nil_append, listsUnder_metrics, if_pos hnone]
  · rw [if_neg hnil] at hfind ⊢
    rcases hfind with ⟨l, hl, hnumbers, hsummaries⟩
    have hone : contributions m [t] = [values l] := by simp [contributions, hl]
    have hne : contributions m [t] ≠ [] := by
      rw [hone]
      exact List.cons_ne_nil _ _
    rw [(hholds.find?_metric hfreeThread hne).1, hone, ← hnumbers, ← values_eq hsummaries]
    exact congrArg (fun r => some (Member.array r)) (overlay_nil (values l))

/-- The object of a thread that held nothing before the run. -/
theorem ofRun {t t' t'' : PerfThread} (hclean : t.Clean) {samples : List Snapshot}
    {scopes : List ScopeCall} (hran : t.Ran samples scopes t') {stopped : Bool}
    (hstop : t'.stop stopped = some t'') {labels : List (Str × Str)} (hlabels : Labels labels)
    (hkeys : ∀ k ∈ labels.map Prod.fst, k ∈ ["CCthread".toList, "device".toList])
    {value : Object} (hvalue : t''.postprocess (labelled labels) = some value) :
    t.OfRun samples scopes stopped value := by
  rcases hran.results with ⟨adds, hadds, hpush⟩
  rw [hclean.results] at hpush
  have hnames := hran.grew.names
  have hmetricNames : t'.eventCtx.metricNames = t.eventCtx.metricNames := by
    have hsums : ∀ ctx : EventContext, ctx.mCounters.map (fun c => sumName c.name) =
        (ctx.mCounters.map Counter.name).map sumName := by
      intro ctx
      rw [List.map_map]
      rfl
    rw [EventContext.metricNames, EventContext.metricNames, hsums, hsums, hnames]
  have hfree : ∀ m ∈ t.eventCtx.metricNames, m ≠ "SUM".toList ∧ m ∉ labels.map Prod.fst := by
    intro m hm
    have hreserved := hclean.free m hm
    refine ⟨fun heq => hreserved (heq ▸ List.mem_cons_self), fun hlabel => hreserved ?_⟩
    exact List.mem_cons_of_mem _ (hkeys m hlabel)
  rcases nodup_metricNames hclean.nodup with ⟨hnodup, -, hapart, -⟩
  -- What the run and its end have added.
  have htotal : ∃ last, pushAll (adds.flatten ++ last) ∅ = some t''.mResultsPerThread ∧
      last = if stopped then t'.eventCtx.sumAdds ++ t'.eventCtx.countAdds else [] := by
    cases stopped with
    | false =>
      cases hstop
      refine ⟨[], ?_, rfl⟩
      rw [List.append_nil]
      exact hpush
    | true =>
      rcases Option.bind_eq_some_iff.mp hstop with ⟨last, hlast, hstop⟩
      rcases Option.map_eq_some_iff.mp hstop with ⟨results, hresults, rfl⟩
      refine ⟨last, ?_, ?_⟩
      · rw [pushAll_append, hpush, Option.bind_some, hresults]
      · rw [EventContext.stopAdds] at hlast
        split at hlast
        · cases hlast
        · exact (Option.some.inj hlast).symm
  rcases htotal with ⟨last, hresults, hlast⟩
  have hall : ∀ m ∈ (adds.flatten ++ last).map Prod.fst, m ∈ t.eventCtx.metricNames := by
    intro m hm
    rw [List.map_append] at hm
    rcases List.mem_append.mp hm with hm | hm
    · apply List.mem_append_left
      exact List.mem_append_left _ (keys_samples hadds hm)
    · rw [hlast] at hm
      split at hm
      · rw [← hmetricNames]
        exact keys_stopAdds hm
      · cases hm
  have hfind := fun m (hm : m ∈ t.eventCtx.metricNames) => find?_postprocess hlabels hresults
    (fun k hk => hfree k (hall k hk)) hvalue (hfree m hm)
  intro j c hc
  rcases hran.grew.counters j c hc with ⟨c', hc', hname, -, hlength, hvalues⟩
  have hmem' : c' ∈ t'.eventCtx.mCounters := List.mem_of_getElem? hc'
  have hmem : c ∈ t.eventCtx.mCounters := List.mem_of_getElem? hc
  have hnameMem : c.name ∈ t.eventCtx.metricNames := by
    apply List.mem_append_left
    exact List.mem_append_left _ (List.mem_map_of_mem hmem)
  have hsumMem : sumName c.name ∈ t.eventCtx.metricNames := by
    apply List.mem_append_left
    exact List.mem_append_right _
      (List.mem_map_of_mem (f := fun d : Counter => sumName d.name) hmem)
  have hlastValues : valuesUnder c.name last = [] ∧ valuesUnder (sumName c.name) last =
      if stopped = false ∨ scopes = [] then []
      else c'.scopeValues.map fun v => (.u64, .ofU64 v) := by
    cases stopped with
    | false =>
      rw [hlast, if_pos (Or.inl rfl)]
      exact ⟨rfl, rfl⟩
    | true =>
      rcases valuesUnder_stopAdds (hmetricNames ▸ hclean.nodup) hmem' with ⟨hnone, hsums⟩
      rw [hname, hran.mValueResults, hclean.mValueResults] at hsums
      rw [hname] at hnone
      rw [hlast, if_pos rfl, hnone, hsums]
      refine ⟨rfl, ?_⟩
      cases scopes with
      | nil =>
        rw [if_pos (Or.inr rfl)]
        rfl
      | cons call calls =>
        have hopen : ¬ (true = false ∨ call :: calls = []) := by simp
        rw [if_neg hopen]
        rfl
  have hsamples : valuesUnder c.name (adds.flatten ++ last) =
      samples.map fun snap => (.u64, .ofU64 (snap.values[j]?.getD 0)) := by
    rw [valuesUnder_append, valuesUnder_samples hadds hnodup hc, hlastValues.1, List.append_nil]
  have hsums : valuesUnder (sumName c.name) (adds.flatten ++ last) =
      if stopped = false ∨ scopes = [] then []
      else c'.scopeValues.map fun v => (.u64, .ofU64 v) := by
    have hnone : sumName c.name ∉ adds.flatten.map Prod.fst := by
      intro hm
      rcases List.mem_map.mp (keys_samples hadds hm) with ⟨d, hd, heq⟩
      exact hapart d hd c hmem heq
    rw [valuesUnder_append, valuesUnder_of_notMem hnone, List.nil_append, hlastValues.2]
  constructor
  · rw [hfind c.name hnameMem, hsamples]
    by_cases hnil : samples = []
    · rw [if_pos hnil, hnil]
      exact if_pos rfl
    · rw [if_neg hnil, if_neg (mt List.map_eq_nil_iff.mp hnil), List.map_map]
      rfl
  · rw [hfind (sumName c.name) hsumMem, hsums]
    by_cases hnil : stopped = false ∨ scopes = []
    · rw [if_pos hnil, if_pos hnil, if_pos rfl]
    · have hne : c'.scopeValues.map (fun v => ((.u64, .ofU64 v) : Number)) ≠ [] := by
        rw [hclean.unused.scopeValues c hmem, List.length_replicate] at hlength
        intro heq
        rw [List.map_eq_nil_iff.mp heq] at hlength
        exact absurd hlength (by decide)
      rw [if_neg hnil, if_neg hnil, if_neg hne, List.map_map]
      refine ⟨_, rfl, fun f => ?_⟩
      have hid : c'.scopeValues.map ((fun n : Number => n.2.u64) ∘
          fun v => ((.u64, .ofU64 v) : Number)) = c'.scopeValues := List.map_id _
      rw [hid, hvalues, hclean.unused.getD_scopeValues hmem, UInt64.zero_add]

end PerfThread

end LibCollector.Perf
