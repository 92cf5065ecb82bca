import LibCollector.Perf.Aggregate

/-!
# The results of the perf collector

`PerfCollector::postprocess`: the objects of the threads, and the objects
`replayMainThreads`, `backgroundThreads` and `allThreads` that add up what the threads
have. They are the sums of all threads (`AggregatesAll`) exactly if nothing is lost on the
way (`Aggregable`). The flag `summarized` of the custom result is left out.
-/

namespace LibCollector.Perf

open LibCollector.Misc LibCollector.Interface

/-- `mCustomResult[ "thread_data" ]`: the objects of the replay threads, those of the CSPMU threads
    with their clocks and of the booker thread, the sums, and those of the background threads with
    their sums and the sums of all threads. -/
structure ThreadData where
  replay : List Object
  cspmu : List (Object × Str × List (Int × Int))
  booker : List Object
  replayMainThreads : Object
  background : Option (List Object × Object × Object)
  deriving DecidableEq

/-- The label of a thread. -/
def PerfThread.labels (t : PerfThread) : List (Str × Str) := [("CCthread".toList, t.name)]

/-- The label of a thread with its device. -/
def PerfThread.deviceLabels (t : PerfThread) : List (Str × Str) :=
  t.labels ++ [("device".toList, t.deviceName)]

/-- The labels of a replay thread or a background thread. -/
def PerfThread.threadLabels (t : PerfThread) : List (Str × Str) :=
  if t.deviceName ≠ "single".toList then t.deviceLabels else t.labels

namespace PerfCollector

/-- The threads that are summed under `replayMainThreads`. -/
def mainThreads (s : PerfCollector) : List PerfThread :=
  s.mReplayThreads ++ s.mCSPMUThreads ++ s.mBookerThread

/-- The object of a thread. -/
def threadObject (labels : PerfThread → List (Str × Str)) (t : PerfThread) : Option Object :=
  t.postprocess (labelled (labels t))

/-- The objects of the background threads and the sums with them, for the sum of the other
    threads. -/
def background (replayValue : Object) (s : PerfCollector) :
    Option (List Object × Object × Object) :=
  let allValue := replayValue.insert "CCthread".toList (.text "allThreads".toList)
  (s.mBgThreads.mapM (threadObject PerfThread.threadLabels)).bind fun objects =>
    (aggregate s.mBgThreads
        (labelled [("CCthread".toList, "backgroundThreads".toList)])).bind fun bgValue =>
      (aggregate s.mBgThreads allValue).map fun allValue => (objects, bgValue, allValue)

/-- `PerfCollector::postprocess`. -/
def postprocess (s : PerfCollector) : Option ThreadData :=
  (s.mReplayThreads.mapM (threadObject PerfThread.threadLabels)).bind fun replay =>
    (s.mCSPMUThreads.mapM fun t => (threadObject PerfThread.deviceLabels t).map fun value =>
        (value, t.deviceName, (s.mClocks.find? t.deviceName).getD [])).bind fun cspmu =>
      (s.mBookerThread.mapM (threadObject PerfThread.labels)).bind fun booker =>
        (aggregate s.mainThreads
            (labelled [("CCthread".toList, "replayMainThreads".toList)])).bind fun replayValue =>
          (if s.mAllThread then (s.background replayValue).map some else some none).map
            fun background => ⟨replay, cspmu, booker, replayValue, background⟩

end PerfCollector

/-! ## The sum of all threads -/

/-- The labels of an object that adds threads up. -/
def sumLabels (name : String) : List (Str × Str) := [("CCthread".toList, name.toList)]

/-- The value of a metric at an index, in an object that has it. -/
def entry (value : Object) (m : Str) (i : Nat) : UInt64 :=
  match value.find? m with
  | some (.array r) => r.getD i 0
  | _ => 0

namespace PerfCollector

/-- The objects of the threads have their metrics, the others their sums, and the sum of all threads
    is that of the replay threads and the background threads. -/
structure AggregatesAll (s : PerfCollector) (data : ThreadData) : Prop where
  replay : List.Forall₂ (fun t value => Aggregates t.threadLabels [t] value) s.mReplayThreads
    data.replay
  cspmu : List.Forall₂ (fun t e => Aggregates t.deviceLabels [t] e.1) s.mCSPMUThreads data.cspmu
  booker : List.Forall₂ (fun t value => Aggregates t.labels [t] value) s.mBookerThread data.booker
  main : Aggregates (sumLabels "replayMainThreads") s.mainThreads data.replayMainThreads
  background : s.mAllThread = true → ∃ objects bgValue allValue,
    data.background = some (objects, bgValue, allValue) ∧
    List.Forall₂ (fun t value => Aggregates t.threadLabels [t] value) s.mBgThreads objects ∧
    Aggregates (sumLabels "backgroundThreads") s.mBgThreads bgValue ∧
    Aggregates (sumLabels "allThreads") (s.mainThreads ++ s.mBgThreads) allValue ∧
    ∀ m i, entry allValue m i = entry data.replayMainThreads m i + entry bgValue m i

/-- No metric is called `SUM` or like a label of its thread, and for every metric, nothing is lost
    when the lists of the threads are added up in their order. -/
structure Aggregable (s : PerfCollector) : Prop where
  replay : ∀ t ∈ s.mReplayThreads, Free t.threadLabels [t]
  cspmu : ∀ t ∈ s.mCSPMUThreads, Free t.deviceLabels [t]
  booker : ∀ t ∈ s.mBookerThread, Free t.labels [t]
  main : ∀ m, Lossless (contributions m s.mainThreads)
  background : s.mAllThread = true → (∀ t ∈ s.mBgThreads, Free t.threadLabels [t]) ∧
    (∀ m, Lossless (contributions m s.mBgThreads)) ∧
    ∀ m, Lossless (contributions m (s.mainThreads ++ s.mBgThreads))

/-! ## Labels -/

theorem labels_of_keys {labels : List (Str × Str)} (keys : List Str)
    (hkeys : labels.map Prod.fst = keys) (hnodup : keys.Nodup) (hsum : "SUM".toList ∉ keys) :
    Labels labels := by
  subst hkeys
  exact ⟨hnodup, hsum⟩

theorem labels_labels (t : PerfThread) : Labels t.labels :=
  labels_of_keys ["CCthread".toList] rfl (by decide) (by decide)

theorem labels_deviceLabels (t : PerfThread) : Labels t.deviceLabels :=
  labels_of_keys ["CCthread".toList, "device".toList] rfl (by decide) (by decide)

theorem labels_threadLabels (t : PerfThread) : Labels t.threadLabels := by
  unfold PerfThread.threadLabels
  split
  · exact labels_deviceLabels t
  · exact labels_labels t

theorem labels_sumLabels (name : String) : Labels (sumLabels name) :=
  labels_of_keys ["CCthread".toList] rfl (by decide) (by decide)

theorem threadLabels_ne_nil (t : PerfThread) : t.threadLabels ≠ [] := by
  unfold PerfThread.threadLabels
  split <;> exact List.cons_ne_nil _ _

/-- The label of a thread is a label of its object. -/
theorem mem_threadLabels (t : PerfThread) : "CCthread".toList ∈ t.threadLabels.map Prod.fst := by
  unfold PerfThread.threadLabels
  split <;> exact List.mem_cons_self

/-! ## The objects -/

/-- The object of a thread has its metrics exactly if none of them is called like a label. -/
theorem threadObject_iff {labels : PerfThread → List (Str × Str)} {t : PerfThread}
    (hlabels : Labels (labels t)) (hne : labels t ≠ []) :
    (∃ value, threadObject labels t = some value ∧ Aggregates (labels t) [t] value) ↔
      Free (labels t) [t] := by
  simp only [threadObject, ← aggregate_singleton]
  rw [aggregates_iff hlabels hne]
  apply and_iff_left
  intro m
  apply lossless_of_growing
  rw [contributions, List.filterMap_cons]
  split
  · exact List.Pairwise.nil
  · exact List.pairwise_singleton _ _

/-- The object with another text for its label. -/
theorem holds_relabel {a b : String} {es : List (Str × List UInt64)} {value : Object}
    (h : Holds (sumLabels a) es value) :
    Holds (sumLabels b) es (value.insert "CCthread".toList (.text b.toList)) := by
  have hsum : "SUM".toList ≠ "CCthread".toList := by decide
  refine ⟨fun l hl => ?_, fun m hm hlabel => ?_, ?_⟩
  · rw [sumLabels, List.mem_singleton] at hl
    rw [hl, OrdMap.find?_insert_self]
  · have hne : m ≠ "CCthread".toList := fun heq => hlabel (heq ▸ List.mem_cons_self)
    rw [OrdMap.find?_insert_of_ne _ _ hne]
    exact h.metrics m hm hlabel
  · rw [OrdMap.find?_insert_of_ne _ _ hsum]
    exact h.sums

/-- The value of a metric at an index is the sum of the values of the threads. -/
theorem entry_eq {name : String} {threads : List PerfThread} {value : Object}
    (h : Holds (sumLabels name) (threads.flatMap PerfThread.metrics) value)
    (hfree : Free (sumLabels name) threads) (hlossless : ∀ m, Lossless (contributions m threads))
    (m : Str) (i : Nat) : entry value m i = column i (contributions m threads) := by
  by_cases hm : contributions m threads = []
  · have hnone : ∀ r, value.find? m ≠ some (.array r) := by
      intro r hr
      by_cases hlabel : m ∈ (sumLabels name).map Prod.fst
      · rcases List.mem_map.mp hlabel with ⟨l, hl, rfl⟩
        rw [h.text l hl] at hr
        cases hr
      · by_cases hsum : m = "SUM".toList
        · have hsums := h.sums
          rw [← hsum, hr] at hsums
          split at hsums
          · cases hsums
          · rcases hsums with ⟨sums, hsums, -⟩
            cases hsums
        · rw [h.metrics m hsum hlabel, listsUnder_metrics, if_pos hm] at hr
          cases hr
    rw [hm, entry]
    split
    · rename_i r hr
      exact absurd hr (hnone r)
    · rfl
  · rw [entry, (h.find?_metric hfree hm).1]
    exact ((summed_overlayAll_iff hm).mpr (hlossless m)).entries i

/-! ## All objects -/

/-- The labels of the objects of threads are more than those of the sums. -/
theorem free_main {s : PerfCollector} (hreplay : ∀ t ∈ s.mReplayThreads, Free t.threadLabels [t])
    (hcspmu : ∀ t ∈ s.mCSPMUThreads, Free t.deviceLabels [t])
    (hbooker : ∀ t ∈ s.mBookerThread, Free t.labels [t]) (name : String) :
    Free (sumLabels name) s.mainThreads := by
  intro t ht m hm
  have hlabel : m ≠ "SUM".toList ∧ m ≠ "CCthread".toList := by
    rcases List.mem_append.mp ht with ht | ht
    · rcases List.mem_append.mp ht with ht | ht
      · rcases hreplay t ht t (List.mem_singleton_self t) m hm with ⟨hsum, hfree⟩
        exact ⟨hsum, fun heq => hfree (heq ▸ mem_threadLabels t)⟩
      · rcases hcspmu t ht t (List.mem_singleton_self t) m hm with ⟨hsum, hfree⟩
        exact ⟨hsum, fun heq => hfree (heq ▸ List.mem_cons_self)⟩
    · rcases hbooker t ht t (List.mem_singleton_self t) m hm with ⟨hsum, hfree⟩
      exact ⟨hsum, fun heq => hfree (heq ▸ List.mem_cons_self)⟩
  exact ⟨hlabel.1, fun hmem => hlabel.2 (List.mem_singleton.mp hmem)⟩

theorem free_background {s : PerfCollector} (h : ∀ t ∈ s.mBgThreads, Free t.threadLabels [t])
    (name : String) : Free (sumLabels name) s.mBgThreads := by
  intro t ht m hm
  rcases h t ht t (List.mem_singleton_self t) m hm with ⟨hsum, hfree⟩
  refine ⟨hsum, fun hmem => hfree ?_⟩
  rw [List.mem_singleton.mp hmem]
  exact mem_threadLabels t

theorem free_append {labels : List (Str × Str)} {threads threads' : List PerfThread}
    (h : Free labels threads) (h' : Free labels threads') : Free labels (threads ++ threads') := by
  intro t ht
  rcases List.mem_append.mp ht with ht | ht
  · exact h t ht
  · exact h' t ht

/-- The objects of a list of threads. -/
theorem objects_iff {labels : PerfThread → List (Str × Str)} (hlabels : ∀ t, Labels (labels t))
    (hne : ∀ t, labels t ≠ []) (threads : List PerfThread) :
    (∃ objects, threads.mapM (threadObject labels) = some objects ∧
        List.Forall₂ (fun t value => Aggregates (labels t) [t] value) threads objects) ↔
      ∀ t ∈ threads, Free (labels t) [t] := by
  rw [exists_mapM_forall₂_iff]
  exact forall₂_congr fun t _ => threadObject_iff (hlabels t) (hne t)

/-- The object for the sums of a list of threads. -/
theorem exists_sums (name : String) {threads : List PerfThread}
    (hfree : Free (sumLabels name) threads) :
    ∃ value, aggregate threads (labelled (sumLabels name)) = some value ∧
      Holds (sumLabels name) (threads.flatMap PerfThread.metrics) value :=
  aggregate_of_free (labels_sumLabels name) (holds_labelled (labels_sumLabels name)) hfree

/-- The objects of the background threads, after the other threads were added up. -/
theorem background_iff {s : PerfCollector} {value : Object}
    (hvalue : Holds (sumLabels "replayMainThreads") (s.mainThreads.flatMap PerfThread.metrics)
      value)
    (hmain : ∀ name, Free (sumLabels name) s.mainThreads)
    (hlossless : ∀ m, Lossless (contributions m s.mainThreads)) :
    (∃ objects bgValue allValue, s.background value = some (objects, bgValue, allValue) ∧
        List.Forall₂ (fun t value => Aggregates t.threadLabels [t] value) s.mBgThreads objects ∧
        Aggregates (sumLabels "backgroundThreads") s.mBgThreads bgValue ∧
        Aggregates (sumLabels "allThreads") (s.mainThreads ++ s.mBgThreads) allValue ∧
        ∀ m i, entry allValue m i = entry value m i + entry bgValue m i) ↔
      (∀ t ∈ s.mBgThreads, Free t.threadLabels [t]) ∧
        (∀ m, Lossless (contributions m s.mBgThreads)) ∧
        ∀ m, Lossless (contributions m (s.mainThreads ++ s.mBgThreads)) := by
  have hobjects := objects_iff labels_threadLabels threadLabels_ne_nil s.mBgThreads
  have hbg := aggregates_iff (labels_sumLabels "backgroundThreads") (List.cons_ne_nil _ _)
    s.mBgThreads
  have hrelabelled : Holds (sumLabels "allThreads") (s.mainThreads.flatMap PerfThread.metrics)
      (value.insert "CCthread".toList (.text "allThreads".toList)) := holds_relabel hvalue
  have hall : (∀ t ∈ s.mBgThreads, Free t.threadLabels [t]) → ∃ allValue,
      aggregate s.mBgThreads (value.insert "CCthread".toList (.text "allThreads".toList)) =
        some allValue ∧
      Holds (sumLabels "allThreads") ((s.mainThreads ++ s.mBgThreads).flatMap PerfThread.metrics)
        allValue := by
    intro hfree
    rw [List.flatMap_append]
    exact aggregate_of_free (labels_sumLabels _) hrelabelled (free_background hfree _)
  have hfreeAll : (∀ t ∈ s.mBgThreads, Free t.threadLabels [t]) →
      Free (sumLabels "allThreads") (s.mainThreads ++ s.mBgThreads) :=
    fun hfree => free_append (hmain _) (free_background hfree _)
  constructor
  · rintro ⟨objects, bgValue, allValue, hbackground, hrel, hbgValue, hallValue, -⟩
    rcases Option.bind_eq_some_iff.mp hbackground with ⟨objects', hobjects', hrest⟩
    rcases Option.bind_eq_some_iff.mp hrest with ⟨bgValue', hbgValue', hrest⟩
    rcases Option.map_eq_some_iff.mp hrest with ⟨allValue', hallValue', heq⟩
    cases heq
    have hfree := hobjects.mp ⟨objects, hobjects', hrel⟩
    refine ⟨hfree, (hbg.mp ⟨bgValue, hbgValue', hbgValue⟩).2, ?_⟩
    rcases hall hfree with ⟨other, hother, hholds⟩
    rw [hallValue'] at hother
    cases hother
    exact (hholds.aggregates_iff (hfreeAll hfree)).mp hallValue
  · rintro ⟨hfree, hlosslessBg, hlosslessAll⟩
    rcases hobjects.mpr hfree with ⟨objects, hobjects', hrel⟩
    have hfreeBg := free_background hfree "backgroundThreads"
    rcases exists_sums "backgroundThreads" hfreeBg with ⟨bgValue, hbgValue, hholdsBg⟩
    rcases hall hfree with ⟨allValue, hallValue, hholdsAll⟩
    refine ⟨objects, bgValue, allValue, ?_, hrel, (hholdsBg.aggregates_iff hfreeBg).mpr hlosslessBg,
      (hholdsAll.aggregates_iff (hfreeAll hfree)).mpr hlosslessAll, fun m i => ?_⟩
    · rw [background, hobjects', Option.bind_some]
      change (aggregate s.mBgThreads (labelled (sumLabels "backgroundThreads"))).bind _ = _
      rw [hbgValue, Option.bind_some, hallValue, Option.map_some]
    · rw [entry_eq hholdsAll (hfreeAll hfree) hlosslessAll, entry_eq hvalue (hmain _) hlossless,
        entry_eq hholdsBg hfreeBg hlosslessBg]
      unfold contributions column
      rw [List.filterMap_append, List.map_append, List.sum_append]

/-- The objects of a list of threads, each with something else. -/
theorem threadObjects_iff {β : Type} {labels : PerfThread → List (Str × Str)}
    (hlabels : ∀ t, Labels (labels t)) (hne : ∀ t, labels t ≠ []) (f : PerfThread → Object → β)
    (object : β → Object) (hobject : ∀ t value, object (f t value) = value)
    (threads : List PerfThread) :
    (∃ r, threads.mapM (fun t => (threadObject labels t).map (f t)) = some r ∧
        List.Forall₂ (fun t e => Aggregates (labels t) [t] (object e)) threads r) ↔
      ∀ t ∈ threads, Free (labels t) [t] := by
  rw [exists_mapM_forall₂_iff]
  refine forall₂_congr fun t _ => ?_
  rw [← threadObject_iff (hlabels t) (hne t)]
  constructor
  · rintro ⟨e, he, haggregates⟩
    rcases Option.map_eq_some_iff.mp he with ⟨value, hvalue, rfl⟩
    rw [hobject] at haggregates
    exact ⟨value, hvalue, haggregates⟩
  · rintro ⟨value, hvalue, haggregates⟩
    refine ⟨f t value, ?_, ?_⟩
    · rw [hvalue, Option.map_some]
    · rw [hobject]
      exact haggregates

/-- `postprocess` adds the threads up exactly if no metric is called like a label or `SUM`, and no
    value is lost. -/
theorem aggregatesAll_iff (s : PerfCollector) :
    (∃ data, s.postprocess = some data ∧ s.AggregatesAll data) ↔ s.Aggregable := by
  have hreplay := objects_iff labels_threadLabels threadLabels_ne_nil s.mReplayThreads
  have hbooker := objects_iff labels_labels (fun _ => List.cons_ne_nil _ _) s.mBookerThread
  have hcspmu := threadObjects_iff labels_deviceLabels
    (fun t => List.append_ne_nil_of_right_ne_nil t.labels (List.cons_ne_nil _ _))
    (fun t value => (value, t.deviceName, (s.mClocks.find? t.deviceName).getD [])) Prod.fst
    (fun _ _ => rfl) s.mCSPMUThreads
  have hmain := aggregates_iff (labels_sumLabels "replayMainThreads") (List.cons_ne_nil _ _)
    s.mainThreads
  constructor
  · rintro ⟨data, hdata, h⟩
    rcases Option.bind_eq_some_iff.mp hdata with ⟨replay, hreplayObjects, hdata⟩
    rcases Option.bind_eq_some_iff.mp hdata with ⟨cspmu, hcspmuObjects, hdata⟩
    rcases Option.bind_eq_some_iff.mp hdata with ⟨booker, hbookerObjects, hdata⟩
    rcases Option.bind_eq_some_iff.mp hdata with ⟨value, hvalue, hdata⟩
    rcases Option.map_eq_some_iff.mp hdata with ⟨background, hbackground, rfl⟩
    have hfreeReplay := hreplay.mp ⟨replay, hreplayObjects, h.replay⟩
    have hfreeCspmu := hcspmu.mp ⟨cspmu, hcspmuObjects, h.cspmu⟩
    have hfreeBooker := hbooker.mp ⟨booker, hbookerObjects, h.booker⟩
    have hlossless := (hmain.mp ⟨value, hvalue, h.main⟩).2
    have hfree := free_main hfreeReplay hfreeCspmu hfreeBooker
    refine ⟨hfreeReplay, hfreeCspmu, hfreeBooker, hlossless, fun hallThread => ?_⟩
    rcases exists_sums "replayMainThreads" (hfree _) with ⟨other, hother, hholds⟩
    rw [show aggregate s.mainThreads (labelled (sumLabels "replayMainThreads")) = some value
      from hvalue] at hother
    cases hother
    apply (background_iff hholds hfree hlossless).mp
    rcases h.background hallThread with ⟨objects, bgValue, allValue, heq, hrest⟩
    rw [if_pos hallThread] at hbackground
    rcases Option.map_eq_some_iff.mp hbackground with ⟨objects', hobjects', rfl⟩
    cases heq
    exact ⟨objects, bgValue, allValue, hobjects', hrest⟩
  · intro h
    rcases hreplay.mpr h.replay with ⟨replay, hreplayObjects, hreplayRel⟩
    rcases hcspmu.mpr h.cspmu with ⟨cspmu, hcspmuObjects, hcspmuRel⟩
    rcases hbooker.mpr h.booker with ⟨booker, hbookerObjects, hbookerRel⟩
    have hfree := free_main h.replay h.cspmu h.booker
    rcases exists_sums "replayMainThreads" (hfree _) with ⟨value, hvalue, hholds⟩
    have hvalueRel := (hholds.aggregates_iff (hfree _)).mpr h.main
    have hbackground : ∃ background, (if s.mAllThread then (s.background value).map some
        else some none) = some background ∧ (s.mAllThread = true →
          ∃ objects bgValue allValue, background = some (objects, bgValue, allValue) ∧
          List.Forall₂ (fun t value => Aggregates t.threadLabels [t] value) s.mBgThreads objects ∧
          Aggregates (sumLabels "backgroundThreads") s.mBgThreads bgValue ∧
          Aggregates (sumLabels "allThreads") (s.mainThreads ++ s.mBgThreads) allValue ∧
          ∀ m i, entry allValue m i = entry value m i + entry bgValue m i) := by
      by_cases hallThread : s.mAllThread = true
      · rcases (background_iff hholds hfree h.main).mpr (h.background hallThread) with
          ⟨objects, bgValue, allValue, hobjects, hrest⟩
        refine ⟨some (objects, bgValue, allValue), ?_, fun _ => ⟨_, _, _, rfl, hrest⟩⟩
        rw [if_pos hallThread, hobjects, Option.map_some]
      · exact ⟨none, if_neg hallThread, fun h => absurd h hallThread⟩
    rcases hbackground with ⟨background, hbackground, hrel⟩
    refine ⟨⟨replay, cspmu, booker, value, background⟩, ?_,
      hreplayRel, hcspmuRel, hbookerRel, hvalueRel, hrel⟩
    rw [postprocess, hreplayObjects, Option.bind_some, hcspmuObjects, Option.bind_some,
      hbookerObjects, Option.bind_some]
    change (aggregate s.mainThreads (labelled (sumLabels "replayMainThreads"))).bind _ = _
    rw [hvalue, Option.bind_some, hbackground, Option.map_some]

/-- A thread with one metric. -/
def scopeThread (tid : Int) (sums : List UInt64) : PerfThread where
  tid := tid
  name := "patrace-1".toList
  deviceName := "single".toList
  mResultsPerThread := OrdMap.insert ∅ "cycles:ScopeSum".toList
    { type := some .u64, list := sums.map .ofU64, unassigned := nofun }

/-- A collector whose second replay thread has a shorter list than the first one. -/
def shorterList : PerfCollector where
  mAllThread := false
  mReplayThreads := [scopeThread 1 [1, 2], scopeThread 2 [5]]

/-- The last value of the first thread is lost. -/
theorem not_aggregatesAll_shorterList :
    ¬ ∃ data, shorterList.postprocess = some data ∧ shorterList.AggregatesAll data := by
  rintro ⟨data, hdata, h⟩
  have hmember : (shorterList.postprocess.map fun data =>
      data.replayMainThreads.find? "cycles:ScopeSum".toList) = some (some (.array [6])) := by decide
  rw [hdata, Option.map_some, Option.some_inj] at hmember
  rcases h.main.metrics "cycles:ScopeSum".toList (by decide) with ⟨r, hr, hsummed, -⟩
  rw [hmember] at hr
  cases hr
  exact absurd (hsummed.length.1 [1, 2] (by decide)) (by decide)

end PerfCollector

end LibCollector.Perf
