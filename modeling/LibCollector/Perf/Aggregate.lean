import LibCollector.Perf.Collector
import LibCollector.Misc.Overlay
import Mathlib.Data.UInt

/-!
# Aggregation over threads

`perf_thread::postprocess`, which adds what a thread has to a JSON object. The member of a
metric is replaced for each thread by the list of that thread, with the values before it
added, so the entries past the end of a shorter list are lost. A failed assertion of
jsoncpp is `none`.
-/

namespace LibCollector.Perf

open LibCollector.Misc LibCollector.Interface

/-- A member of an object of `thread_data`. -/
inductive Member where
  | text (s : Str)
  | array (values : List UInt64)
  | object (members : OrdMap Str UInt64)
  deriving DecidableEq

/-- An object of `thread_data`. -/
abbrev Object := OrdMap Str Member

/-- The object with its labels. -/
def labelled (labels : List (Str × Str)) : Object :=
  labels.foldl (fun value e => value.insert e.1 (.text e.2)) ∅

/-- The values of a metric of a thread, read as `u64`. -/
def values (l : CollectorValueList) : List UInt64 := l.data.map CollectorValue.u64

/-- The body of the loop of `perf_thread::postprocess`. -/
def addMetric (value : Object) (e : Str × List UInt64) : Option Object :=
  let summed := match value.find? e.1 with
    | none => some e.2
    | some (.array acc) => some (overlay acc e.2)
    | some _ => if e.2 = [] then some [] else none
  summed.bind fun v =>
    let value := value.insert e.1 (.array v)
    match value.find? "SUM".toList with
    | none => some (value.insert "SUM".toList (.object (OrdMap.insert ∅ e.1 v.sum)))
    | some (.object sums) => some (value.insert "SUM".toList (.object (sums.insert e.1 v.sum)))
    | some _ => none

/-- The metrics of a thread with their values, in the order of the map. -/
def PerfThread.metrics (t : PerfThread) : List (Str × List UInt64) :=
  t.mResultsPerThread.entries.map fun e => (e.1, values e.2)

/-- `perf_thread::postprocess`. -/
def PerfThread.postprocess (value : Object) (t : PerfThread) : Option Object :=
  t.metrics.foldlM addMetric value

/-- An object to which all threads add what they have. -/
def aggregate (threads : List PerfThread) (value : Object) : Option Object :=
  threads.foldlM PerfThread.postprocess value

/-! ## The metrics of several threads -/

/-- The lists that the threads have for a metric. -/
def contributions (m : Str) (threads : List PerfThread) : List (List UInt64) :=
  threads.filterMap fun t => (t.mResultsPerThread.find? m).map values

/-- The lists that are written for a metric. -/
def listsUnder (m : Str) (es : List (Str × List UInt64)) : List (List UInt64) :=
  es.filterMap fun e => if e.1 = m then some e.2 else none

theorem listsUnder_append (m : Str) (es es' : List (Str × List UInt64)) :
    listsUnder m (es ++ es') = listsUnder m es ++ listsUnder m es' :=
  List.filterMap_append

theorem listsUnder_metrics (m : Str) (threads : List PerfThread) :
    listsUnder m (threads.flatMap PerfThread.metrics) = contributions m threads := by
  induction threads with
  | nil => rfl
  | cons t threads ih =>
    have hone : listsUnder m t.metrics = ((t.mResultsPerThread.find? m).map values).toList := by
      rw [← OrdMap.filterMap_entries, listsUnder, PerfThread.metrics, List.filterMap_map]
      rfl
    rw [List.flatMap_cons, listsUnder_append, ih, hone]
    simp only [contributions, List.filterMap_cons]
    cases (t.mResultsPerThread.find? m).map values <;> rfl

theorem aggregate_eq (threads : List PerfThread) (value : Object) :
    aggregate threads value = (threads.flatMap PerfThread.metrics).foldlM addMetric value := by
  induction threads generalizing value with
  | nil => rfl
  | cons t threads ih =>
    rw [List.flatMap_cons, List.foldlM_append]
    change (t.postprocess value).bind (aggregate threads) = (t.postprocess value).bind _
    congr 1
    funext next
    exact ih next

theorem aggregate_singleton (t : PerfThread) (value : Object) :
    aggregate [t] value = t.postprocess value := by
  rw [aggregate, List.foldlM_cons]
  cases t.postprocess value <;> rfl

/-- The metrics of the threads. -/
theorem mem_metrics {e : Str × List UInt64} {threads : List PerfThread}
    (h : e ∈ threads.flatMap PerfThread.metrics) :
    ∃ t ∈ threads, e.1 ∈ t.mResultsPerThread.keys := by
  rcases List.mem_flatMap.mp h with ⟨t, ht, he⟩
  rcases List.mem_map.mp he with ⟨d, hd, rfl⟩
  exact ⟨t, ht, List.mem_map_of_mem hd⟩

/-! ## What an object holds -/

/-- No metric of the threads is called like a label, or `SUM`. -/
def Free (labels : List (Str × Str)) (threads : List PerfThread) : Prop :=
  ∀ t ∈ threads, ∀ m ∈ t.mResultsPerThread.keys, m ≠ "SUM".toList ∧ m ∉ labels.map Prod.fst

/-- The object after the lists `es` were added. -/
structure Holds (labels : List (Str × Str)) (es : List (Str × List UInt64)) (value : Object) :
    Prop where
  text : ∀ e ∈ labels, value.find? e.1 = some (.text e.2)
  metrics : ∀ m, m ≠ "SUM".toList → m ∉ labels.map Prod.fst → value.find? m =
    if listsUnder m es = [] then none else some (.array (overlayAll (listsUnder m es)))
  sums : if es = [] then value.find? "SUM".toList = none else ∃ sums,
    value.find? "SUM".toList = some (.object sums) ∧ ∀ m, listsUnder m es ≠ [] →
      sums.find? m = some (overlayAll (listsUnder m es)).sum

/-- Labels that can be told apart from each other and from the member `SUM`. -/
structure Labels (labels : List (Str × Str)) : Prop where
  nodup : (labels.map Prod.fst).Nodup
  sum : "SUM".toList ∉ labels.map Prod.fst

theorem find?_labelled {labels : List (Str × Str)} (h : (labels.map Prod.fst).Nodup) (k : Str) :
    (labelled labels).find? k =
      labels.findSome? fun e => if e.1 = k then some (.text e.2) else none := by
  rw [labelled, OrdMap.find?_foldl_insert (fun e : Str × Str => Member.text e.2) h,
    OrdMap.find?_empty, Option.or_none]

theorem holds_labelled {labels : List (Str × Str)} (h : Labels labels) :
    Holds labels [] (labelled labels) := by
  have hnone : ∀ k, k ∉ labels.map Prod.fst → (labelled labels).find? k = none := by
    intro k hk
    rw [find?_labelled h.nodup, List.findSome?_eq_none_iff]
    intro e he
    apply if_neg
    rintro rfl
    exact hk (List.mem_map_of_mem he)
  refine ⟨fun e he => ?_, fun m _ hm => ?_, hnone _ h.sum⟩
  · have hentries := @OrdMap.mem_entries_foldl_insert _ _ _ _ Prod.fst
      (fun e : Str × Str => Member.text e.2) _ h.nodup (e.1, .text e.2)
    exact OrdMap.find?_eq_some_iff.mpr (hentries.mpr ⟨e, he, rfl⟩)
  · rw [hnone m hm]
    rfl

theorem listsUnder_concat (m : Str) (es : List (Str × List UInt64)) (e : Str × List UInt64) :
    listsUnder m (es ++ [e]) = if e.1 = m then listsUnder m es ++ [e.2] else listsUnder m es := by
  rw [listsUnder_append]
  by_cases h : e.1 = m <;> simp [listsUnder, h]

/-- `addMetric`, for the sum of the lists so far and the members of `SUM`. -/
theorem addMetric_eq {value : Object} {e : Str × List UInt64} (hsum : e.1 ≠ "SUM".toList)
    {acc : List UInt64} {sums : OrdMap Str UInt64}
    (hacc : value.find? e.1 = none ∧ acc = [] ∨ value.find? e.1 = some (.array acc))
    (hsums : value.find? "SUM".toList = none ∧ sums = ∅ ∨
      value.find? "SUM".toList = some (.object sums)) :
    addMetric value e = some ((value.insert e.1 (.array (overlay acc e.2))).insert "SUM".toList
      (.object (sums.insert e.1 (overlay acc e.2).sum))) := by
  have hkept : ∀ v : Member,
      (value.insert e.1 v).find? "SUM".toList = value.find? "SUM".toList :=
    fun v => OrdMap.find?_insert_of_ne _ _ (Ne.symm hsum)
  rw [addMetric]
  rcases hacc with ⟨hnone, rfl⟩ | hsome
  · rw [hnone, overlay_nil]
    simp only [Option.bind_some]
    rw [hkept]
    rcases hsums with ⟨hnone, rfl⟩ | hsome
    · rw [hnone]
    · rw [hsome]
  · rw [hsome]
    simp only [Option.bind_some]
    rw [hkept]
    rcases hsums with ⟨hnone, rfl⟩ | hsome
    · rw [hnone]
    · rw [hsome]

/-- A list that is added under another name than those of the labels and `SUM`. -/
theorem addMetric_holds {labels : List (Str × Str)} (hlabels : Labels labels)
    {es : List (Str × List UInt64)} {value : Object} (h : Holds labels es value)
    {e : Str × List UInt64} (hsum : e.1 ≠ "SUM".toList) (hfree : e.1 ∉ labels.map Prod.fst) :
    ∃ value', addMetric value e = some value' ∧ Holds labels (es ++ [e]) value' := by
  have hacc : value.find? e.1 = none ∧ overlayAll (listsUnder e.1 es) = [] ∨
      value.find? e.1 = some (.array (overlayAll (listsUnder e.1 es))) := by
    rw [h.metrics e.1 hsum hfree]
    by_cases hnil : listsUnder e.1 es = []
    · left
      rw [if_pos hnil, hnil]
      exact ⟨rfl, rfl⟩
    · right
      rw [if_neg hnil]
  have hsums : ∃ sums : OrdMap Str UInt64, (value.find? "SUM".toList = none ∧ sums = ∅ ∨
      value.find? "SUM".toList = some (.object sums)) ∧ ∀ m, listsUnder m es ≠ [] →
        sums.find? m = some (overlayAll (listsUnder m es)).sum := by
    have hheld := h.sums
    by_cases hnil : es = []
    · rw [if_pos hnil] at hheld
      refine ⟨∅, Or.inl ⟨hheld, rfl⟩, fun m hm => absurd ?_ hm⟩
      rw [hnil]
      rfl
    · rw [if_neg hnil] at hheld
      rcases hheld with ⟨sums, hfind, hsums⟩
      exact ⟨sums, Or.inr hfind, hsums⟩
  rcases hsums with ⟨sums, hfind, hsums⟩
  refine ⟨_, addMetric_eq hsum hacc hfind, fun l hl => ?_, fun m hm hlabel => ?_, ?_⟩
  · have hmem : l.1 ∈ labels.map Prod.fst := List.mem_map_of_mem hl
    have hsum' : l.1 ≠ "SUM".toList := fun heq => hlabels.sum (heq ▸ hmem)
    have hne : l.1 ≠ e.1 := fun heq => hfree (heq ▸ hmem)
    rw [OrdMap.find?_insert_of_ne _ _ hsum', OrdMap.find?_insert_of_ne _ _ hne]
    exact h.text l hl
  · rw [OrdMap.find?_insert_of_ne _ _ hm, listsUnder_concat]
    by_cases heq : e.1 = m
    · rw [if_pos heq, ← heq, OrdMap.find?_insert_self, overlayAll_concat, if_neg]
      exact List.append_ne_nil_of_right_ne_nil _ (List.cons_ne_nil _ _)
    · rw [if_neg heq, OrdMap.find?_insert_of_ne _ _ (Ne.symm heq)]
      exact h.metrics m hm hlabel
  · rw [if_neg (List.append_ne_nil_of_right_ne_nil _ (List.cons_ne_nil _ _))]
    refine ⟨_, OrdMap.find?_insert_self _ _ _, fun m hm => ?_⟩
    rw [listsUnder_concat] at hm ⊢
    by_cases heq : e.1 = m
    · rw [if_pos heq, ← heq, OrdMap.find?_insert_self, overlayAll_concat]
    · rw [if_neg heq] at hm ⊢
      rw [OrdMap.find?_insert_of_ne _ _ (Ne.symm heq)]
      exact hsums m hm

/-- Lists that are all added under other names. -/
theorem foldlM_addMetric_holds {labels : List (Str × Str)} (hlabels : Labels labels)
    {es es' : List (Str × List UInt64)} {value : Object} (h : Holds labels es value)
    (hfree : ∀ e ∈ es', e.1 ≠ "SUM".toList ∧ e.1 ∉ labels.map Prod.fst) :
    ∃ value', es'.foldlM addMetric value = some value' ∧ Holds labels (es ++ es') value' := by
  induction es' generalizing es value with
  | nil => exact ⟨value, rfl, by rwa [List.append_nil]⟩
  | cons e es' ih =>
    rcases hfree e List.mem_cons_self with ⟨hsum, hlabel⟩
    rcases addMetric_holds hlabels h hsum hlabel with ⟨next, hnext, hholds⟩
    rcases ih hholds fun d hd => hfree d (List.mem_cons_of_mem e hd) with ⟨value', hvalue', hholds'⟩
    refine ⟨value', ?_, ?_⟩
    · rw [List.foldlM_cons, hnext]
      exact hvalue'
    · rwa [List.append_assoc, List.singleton_append] at hholds'

/-! ## Names that clash -/

/-- A list can not be added under the name `SUM`. -/
theorem addMetric_sum (value : Object) {e : Str × List UInt64} (h : e.1 = "SUM".toList) :
    addMetric value e = none := by
  rw [addMetric, Option.bind_eq_none_iff]
  intro v _
  rw [← h]
  dsimp only
  rw [OrdMap.find?_insert_self]

/-- The member that a list is added under is no text. -/
theorem not_text_of_addMetric {value value' : Object} {e : Str × List UInt64} {k : Str}
    (hk : k ≠ "SUM".toList) (h : addMetric value e = some value') {s : Str}
    (htext : value'.find? k = some (.text s)) : e.1 ≠ k ∧ value.find? k = some (.text s) := by
  rcases Option.bind_eq_some_iff.mp h with ⟨v, -, h⟩
  have hkept : (value.insert e.1 (.array v)).find? k = some (.text s) := by
    dsimp only at h
    split at h
    · cases h
      rwa [OrdMap.find?_insert_of_ne _ _ hk] at htext
    · cases h
      rwa [OrdMap.find?_insert_of_ne _ _ hk] at htext
    · cases h
  rw [OrdMap.find?_insert] at hkept
  split at hkept
  · cases hkept
  · rename_i hne
    exact ⟨Ne.symm hne, hkept⟩

/-- A text that is left after lists were added was there before, and no list was added under its
    name. -/
theorem foldlM_addMetric_text {es : List (Str × List UInt64)} {value value' : Object} {k s : Str}
    (hk : k ≠ "SUM".toList) (h : es.foldlM addMetric value = some value')
    (htext : value'.find? k = some (.text s)) :
    value.find? k = some (.text s) ∧ ∀ e ∈ es, e.1 ≠ k ∧ e.1 ≠ "SUM".toList := by
  induction es generalizing value with
  | nil =>
    cases h
    exact ⟨htext, fun e he => absurd he List.not_mem_nil⟩
  | cons e es ih =>
    rw [List.foldlM_cons] at h
    rcases Option.bind_eq_some_iff.mp h with ⟨next, hnext, hrest⟩
    rcases ih hrest with ⟨hfind, hes⟩
    rcases not_text_of_addMetric hk hnext hfind with ⟨hne, hvalue⟩
    refine ⟨hvalue, fun d hd => ?_⟩
    rcases List.mem_cons.mp hd with rfl | hd
    · refine ⟨hne, fun hsum => ?_⟩
      rw [addMetric_sum _ hsum] at hnext
      cases hnext
    · exact hes d hd

/-! ## Aggregation of a list of threads -/

/-- The object has its labels, and for every metric of the threads the array of the sums of the
    values at each index, as long as the longest list, with the sum of the array under `SUM`. -/
structure Aggregates (labels : List (Str × Str)) (threads : List PerfThread) (value : Object) :
    Prop where
  text : ∀ e ∈ labels, value.find? e.1 = some (.text e.2)
  metrics : ∀ m, contributions m threads ≠ [] → ∃ r, value.find? m = some (.array r) ∧
    Summed (contributions m threads) r ∧ ∃ sums, value.find? "SUM".toList = some (.object sums) ∧
      sums.find? m = some r.sum

theorem contributions_ne_nil {m : Str} {threads : List PerfThread} :
    contributions m threads ≠ [] ↔ ∃ t ∈ threads, m ∈ t.mResultsPerThread.keys := by
  rw [Ne, contributions, List.filterMap_eq_nil_iff]
  simp only [not_forall, exists_prop, OrdMap.mem_keys_iff, Option.map_eq_none_iff,
    Option.isSome_iff_ne_none]

/-- Threads without a metric that is called like a label are added up. -/
theorem aggregate_of_free {labels : List (Str × Str)} (hlabels : Labels labels)
    {es : List (Str × List UInt64)} {value : Object} (h : Holds labels es value)
    {threads : List PerfThread} (hfree : Free labels threads) :
    ∃ value', aggregate threads value = some value' ∧
      Holds labels (es ++ threads.flatMap PerfThread.metrics) value' := by
  rw [aggregate_eq]
  apply foldlM_addMetric_holds hlabels h
  intro e he
  rcases mem_metrics he with ⟨t, ht, hm⟩
  exact hfree t ht e.1 hm

/-- The array of a metric. -/
theorem Holds.find?_metric {labels : List (Str × Str)} {threads : List PerfThread} {value : Object}
    (h : Holds labels (threads.flatMap PerfThread.metrics) value) (hfree : Free labels threads)
    {m : Str} (hm : contributions m threads ≠ []) :
    value.find? m = some (.array (overlayAll (contributions m threads))) ∧
      ∃ sums, value.find? "SUM".toList = some (.object sums) ∧
        sums.find? m = some (overlayAll (contributions m threads)).sum := by
  rcases contributions_ne_nil.mp hm with ⟨t, ht, hkey⟩
  rcases hfree t ht m hkey with ⟨hsum, hlabel⟩
  have hes : threads.flatMap PerfThread.metrics ≠ [] := by
    intro hnil
    rw [← listsUnder_metrics, hnil] at hm
    exact hm rfl
  have hsums := h.sums
  rw [if_neg hes] at hsums
  rcases hsums with ⟨sums, hfind, hsums⟩
  rw [h.metrics m hsum hlabel, listsUnder_metrics, if_neg hm]
  refine ⟨rfl, sums, hfind, ?_⟩
  rw [← listsUnder_metrics] at hm ⊢
  exact hsums m hm

/-- What an object holds is the sum of the threads exactly if no value is lost. -/
theorem Holds.aggregates_iff {labels : List (Str × Str)} {threads : List PerfThread}
    {value : Object}
    (h : Holds labels (threads.flatMap PerfThread.metrics) value) (hfree : Free labels threads) :
    Aggregates labels threads value ↔ ∀ m, Lossless (contributions m threads) := by
  constructor
  · intro haggregates m
    by_cases hnil : contributions m threads = []
    · rw [hnil]
      exact lossless_of_growing List.Pairwise.nil
    · rcases haggregates.metrics m hnil with ⟨r, hr, hsummed, -⟩
      rw [(h.find?_metric hfree hnil).1] at hr
      cases hr
      exact (summed_overlayAll_iff hnil).mp hsummed
  · intro hlossless
    refine ⟨h.text, fun m hm => ?_⟩
    rcases h.find?_metric hfree hm with ⟨hfind, hsums⟩
    exact ⟨_, hfind, (summed_overlayAll_iff hm).mpr (hlossless m), hsums⟩

/-- An object that has its labels after threads were added has no metric that is called like one. -/
theorem free_of_text {labels : List (Str × Str)} (hlabels : Labels labels) (hne : labels ≠ [])
    {threads : List PerfThread} {value value' : Object}
    (hvalue : aggregate threads value = some value')
    (htext : ∀ l ∈ labels, value'.find? l.1 = some (.text l.2)) : Free labels threads := by
  have hnames : ∀ l ∈ labels, ∀ e ∈ threads.flatMap PerfThread.metrics,
      e.1 ≠ l.1 ∧ e.1 ≠ "SUM".toList := by
    intro l hl
    have hsum : l.1 ≠ "SUM".toList := fun heq =>
      hlabels.sum (heq ▸ List.mem_map_of_mem (f := Prod.fst) hl)
    rw [aggregate_eq] at hvalue
    exact (foldlM_addMetric_text hsum hvalue (htext l hl)).2
  intro t ht m hm
  rcases List.mem_map.mp hm with ⟨d, hd, rfl⟩
  have hmem : (d.1, values d.2) ∈ threads.flatMap PerfThread.metrics :=
    List.mem_flatMap.mpr ⟨t, ht, List.mem_map_of_mem hd⟩
  constructor
  · rcases List.exists_mem_of_ne_nil labels hne with ⟨l, hl⟩
    exact (hnames l hl _ hmem).2
  · intro hlabel
    rcases List.mem_map.mp hlabel with ⟨l, hl, heq⟩
    exact (hnames l hl _ hmem).1 heq.symm

/-- The threads are added up exactly if no metric is called like a label or `SUM`, and no value is
    lost. -/
theorem aggregates_iff {labels : List (Str × Str)} (hlabels : Labels labels) (hne : labels ≠ [])
    (threads : List PerfThread) :
    (∃ value, aggregate threads (labelled labels) = some value ∧
        Aggregates labels threads value) ↔
      Free labels threads ∧ ∀ m, Lossless (contributions m threads) := by
  constructor
  · rintro ⟨value, hvalue, haggregates⟩
    have hfree := free_of_text hlabels hne hvalue haggregates.text
    rcases aggregate_of_free hlabels (holds_labelled hlabels) hfree with ⟨other, hother, hholds⟩
    rw [hvalue] at hother
    cases hother
    exact ⟨hfree, (hholds.aggregates_iff hfree).mp haggregates⟩
  · rintro ⟨hfree, hlossless⟩
    rcases aggregate_of_free hlabels (holds_labelled hlabels) hfree with ⟨value, hvalue, hholds⟩
    exact ⟨value, hvalue, (hholds.aggregates_iff hfree).mpr hlossless⟩

end LibCollector.Perf
