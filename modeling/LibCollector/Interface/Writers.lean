import LibCollector.Misc.Table
import LibCollector.Interface.RunIndependence
import LibCollector.Interface.Walk

/-!
# The output paths

`Collection::writeCSV_MTV` and `Collection::writeCSV` of `src/interface.cpp`, next to
`results()`. A file is what is in its rows and columns; how a number is printed is left
out, and sizes are taken to fit in an `int`. An index out of range, an exception for `at`
and undefined for `operator[]`, is `none`. The JSON objects of `results()` hold the member
`summarized` next to the arrays, and a later write of the same member replaces an
earlier one.
-/

namespace LibCollector.Interface

open LibCollector.Misc

variable {J : Type}

/-- What `writeCSV_MTV` writes: a row for each series, with the collector and the metric, one for
    the frame times, and one for each custom header. -/
structure MtvFile where
  series : List (Str × Str × List Number)
  frametime : List Int
  custom : List (Str × List Int)

/-- A row of the file that `writeCSV` writes. -/
structure CsvRow where
  frametime : Int
  custom : List Int
  series : List Number

/-- What `writeCSV` writes. -/
structure CsvFile where
  custom : List Str
  series : List (Str × Str)
  rows : List CsvRow

namespace CsvFile

/-- The column of the frame times. -/
def frametimes (f : CsvFile) : List Int := f.rows.map CsvRow.frametime

/-- The column of a custom header. -/
def customColumn (f : CsvFile) (i : Nat) : List Int := f.rows.filterMap fun r => r.custom[i]?

/-- The column of a series. -/
def seriesColumn (f : CsvFile) (i : Nat) : List Number := f.rows.filterMap fun r => r.series[i]?

end CsvFile

/-- A member of the JSON object `results[ "custom" ]`. -/
inductive CustomMember where
  | array (values : List Int)
  | summarized

/-- The count of rows: the size of the last series that is not empty. -/
def countRows (series : List CollectorValueList) : Nat :=
  series.foldl (fun rows l => if l.list ≠ [] then l.list.length else rows) 0

namespace Collection

/-! ## The writers -/

/-- The series of the running collectors, with their collectors and metrics. -/
def runningSeries (s : Collection J) : List (Str × Str × CollectorValueList) :=
  s.mRunning.flatMap fun name =>
    ((s.mCollectors.find? name).map fun c =>
      c.mResults.entries.map fun e => (name, e.1, e.2)).getD []

/-- `Collection::writeCSV_MTV`. -/
def writeCsvMtv (s : Collection J) : MtvFile where
  series := s.runningSeries.map fun e => (e.1, e.2.1, e.2.2.reported)
  frametime := s.mTiming
  custom := s.mCustomHeaders.zip s.mCustom

/-- A row of `writeCSV`. -/
def csvRow (s : Collection J) (i : Nat) : Option CsvRow :=
  s.mTiming[i]?.bind fun frametime =>
    ((List.range s.mCustomHeaders.length).mapM fun field =>
        s.mCustom[field]?.bind fun values => values[i]?).bind fun custom =>
      (s.runningSeries.mapM fun e => e.2.2.numbers[i]?).map fun series =>
        ⟨frametime, custom, series⟩

/-- `Collection::writeCSV`. -/
def writeCsv (s : Collection J) : Option CsvFile :=
  ((List.range (countRows (s.runningSeries.map fun e => e.2.2))).mapM s.csvRow).map fun rows =>
    ⟨s.mCustomHeaders, s.runningSeries.map fun e => (e.1, e.2.1), rows⟩

/-! ## What `results()` reports -/

/-- The custom headers with their values and averages. -/
def customColumns (s : Collection J) : List (Str × List Int × List Int) :=
  s.mCustomHeaders.zip (s.mCustom.zip s.mCustomSummarized)

/-- The array that is reported for the values and the averages of a custom header. -/
def shown (e : Str × List Int × List Int) : List Int := if e.2.2 ≠ [] then e.2.2 else e.2.1

/-- The body of the loop of `results()` over the custom headers. -/
def addMember (m : OrdMap Str CustomMember) (e : Str × List Int × List Int) :
    OrdMap Str CustomMember :=
  if e.2.2 ≠ [] then (m.insert e.1 (.array (shown e))).insert "summarized".toList .summarized
  else m.insert e.1 (.array (shown e))

/-- The JSON object `results[ "custom" ]`. -/
def customObject (s : Collection J) : OrdMap Str CustomMember := s.customColumns.foldl addMember ∅

/-- The array of a metric in the JSON object of a collector without custom results. The loop writes
    the member `summarized` before each series. -/
def reportedSeries (s : Collection J) (name key : Str) : Option (List Number) :=
  if name ∈ ["timing".toList, "custom".toList, "provenance".toList] then none
  else
    match s.results.collectors.find? name with
    | some (.series summarized values) =>
      if summarized = true ∧ key = "summarized".toList ∧ ∃ other ∈ values.keys, key < other then
        none
      else values.find? key
    | _ => none

/-- The writers and `results()` report the same sequences. -/
def OutputsAgree (s : Collection J) : Prop :=
  ∃ csv, s.writeCsv = some csv ∧
    (csv.frametimes = s.results.time ∧ s.writeCsvMtv.frametime = s.results.time) ∧
    (∀ i header, s.mCustomHeaders[i]? = some header → ∃ values,
      s.customObject.find? header = some (.array values) ∧ csv.customColumn i = values ∧
        s.writeCsvMtv.custom[i]? = some (header, values)) ∧
    ∀ i name key l c, s.runningSeries[i]? = some (name, key, l) →
      s.mCollectors.find? name = some c → c.mCustomResult = none → ∃ values,
        s.reportedSeries name key = some values ∧ csv.seriesColumn i = values ∧
          s.writeCsvMtv.series[i]? = some (name, key, values)

/-- The raw data is what is reported, and every series has a value for each frame time: the averages
    are missing or the same as the raw values, a series that is reported raw and the last series
    have exactly as many values as there are frame times, and no array is replaced by the member
    `summarized` or by another array. -/
structure Uniform (s : Collection J) : Prop where
  times : s.mTimingSummarized = [] ∨ s.mTimingSummarized = s.mTiming
  custom : ∀ pre header values averages post,
    s.customColumns = pre ++ (header, values, averages) :: post → header ∉ post.map Prod.fst →
    (averages = [] ∨ averages = values) ∧ (∀ e ∈ pre, e.1 = header → e.2.1 = values) ∧
      (header = "summarized".toList → averages = [] ∧ ∀ e ∈ post, e.2.2 = [])
  long : ∀ e ∈ s.runningSeries, s.mTiming.length ≤ e.2.2.list.length
  rows : if s.mTiming = [] then ∀ e ∈ s.runningSeries, e.2.2.list = []
    else s.runningSeries.getLast?.map (fun e => e.2.2.list.length) = some s.mTiming.length
  series : ∀ name key l c, (name, key, l) ∈ s.runningSeries → s.mCollectors.find? name = some c →
    c.mCustomResult = none →
      (if l.summaries = [] then l.list.length ≤ s.mTiming.length
        else l.summaries = l.list.take s.mTiming.length) ∧
      (c.mIsSummarized = true → key = "summarized".toList → ∀ other ∈ c.mResults.keys, other ≤ key)

/-! ## The columns of a file -/

/-- Between two calls, there is a column of values and one of averages for each custom header, and a
    value in it for each frame time. -/
structure Shaped (s : Collection J) : Prop where
  mCustom : s.mCustom.length = s.mCustomHeaders.length
  mCustomSummarized : s.mCustomSummarized.length = s.mCustomHeaders.length
  lengths : ∀ values ∈ s.mCustom, values.length = s.mTiming.length

/-- The elements of a row. -/
theorem csvRow_eq_some {s : Collection J} (h : s.Shaped) {i : Nat} {r : CsvRow} :
    s.csvRow i = some r ↔ s.mTiming[i]? = some r.frametime ∧
      tableRow s.mCustom i = some r.custom ∧
      tableRow (s.runningSeries.map fun e => e.2.2.numbers) i = some r.series := by
  have hcustom : ((List.range s.mCustomHeaders.length).mapM fun field =>
      s.mCustom[field]?.bind fun values => values[i]?) = tableRow s.mCustom i := by
    rw [← h.mCustom]
    exact mapM_range_bind _
  have hseries : (s.runningSeries.mapM fun e => e.2.2.numbers[i]?) =
      tableRow (s.runningSeries.map fun e => e.2.2.numbers) i := by
    apply Option.ext
    intro r
    rw [mapM_eq_some_iff, tableRow, mapM_eq_some_iff, List.map_map]
    rfl
  rw [csvRow, hcustom, hseries]
  obtain ⟨time, custom, series⟩ := r
  simp only [Option.bind_eq_some_iff, Option.map_eq_some_iff, CsvRow.mk.injEq]
  constructor
  · rintro ⟨_, htime, _, hc, _, hs, rfl, rfl, rfl⟩
    exact ⟨htime, hc, hs⟩
  · rintro ⟨htime, hc, hs⟩
    exact ⟨_, htime, _, hc, _, hs, rfl, rfl, rfl⟩

/-- A file that is written has the first elements of every column. -/
theorem columns_of_writeCsv {s : Collection J} (h : s.Shaped) {csv : CsvFile}
    (hcsv : s.writeCsv = some csv) {k : Nat}
    (hk : countRows (s.runningSeries.map fun e => e.2.2) = k) :
    csv.frametimes = s.mTiming.take k ∧ k ≤ s.mTiming.length ∧
      (∀ (i : Nat) values, s.mCustom[i]? = some values → csv.customColumn i = values.take k) ∧
      (∀ (i : Nat) e, s.runningSeries[i]? = some e → csv.seriesColumn i = e.2.2.numbers.take k) ∧
      ∀ e ∈ s.runningSeries, k ≤ e.2.2.numbers.length := by
  obtain ⟨rows, hrows, rfl⟩ := Option.map_eq_some_iff.mp hcsv
  rw [hk] at hrows
  have hall := mapM_eq_some_iff.mp hrows
  have hpart : ∀ {γ : Type} (part : CsvRow → γ) (get : Nat → Option γ),
      (∀ i r, s.csvRow i = some r → get i = some (part r)) →
      (List.range k).map get = (rows.map part).map some := by
    intro γ part get hget
    have hmap := congrArg (List.map fun o : Option CsvRow => o.map part) hall
    rw [List.map_map, List.map_map] at hmap
    rw [List.map_map, show some ∘ part = (fun o : Option CsvRow => o.map part) ∘ some from rfl,
      ← hmap]
    refine List.map_congr_left fun i hi => ?_
    obtain ⟨r, hr⟩ := Option.isSome_iff_exists.mp (isSome_of_mapM hrows hi)
    rw [Function.comp_apply, hr, Option.map_some, hget i r hr]
  have htimes := hpart CsvRow.frametime (fun i => s.mTiming[i]?) fun i r hr =>
    ((csvRow_eq_some h).mp hr).1
  have hcustom := hpart CsvRow.custom (tableRow s.mCustom) fun i r hr =>
    ((csvRow_eq_some h).mp hr).2.1
  have hseries := hpart CsvRow.series (tableRow (s.runningSeries.map fun e => e.2.2.numbers))
    fun i r hr => ((csvRow_eq_some h).mp hr).2.2
  have hle : k ≤ s.mTiming.length := by
    cases k with
    | zero => exact Nat.zero_le _
    | succ k =>
      have hsome := isSome_of_mapM (mapM_eq_some_iff.mpr htimes) List.self_mem_range_succ
      have hlt : k < s.mTiming.length := by simpa using hsome
      exact hlt
  refine ⟨?_, hle, fun i values hi => ?_, fun i e hi => ?_, fun e he => ?_⟩
  · rw [map_range_getElem? hle] at htimes
    exact ((List.map_inj_right fun _ _ => Option.some.inj).mp htimes).symm
  · have hcolumn := column_of_rows hcustom hi
    rwa [List.filterMap_map] at hcolumn
  · have hget : (s.runningSeries.map fun e => e.2.2.numbers)[i]? = some e.2.2.numbers := by
      rw [List.getElem?_map, hi, Option.map_some]
    have hcolumn := column_of_rows hseries hget
    rwa [List.filterMap_map] at hcolumn
  · exact le_length_of_rows hseries (List.mem_map_of_mem he)

/-- A file can be written if no column is too short. -/
theorem exists_writeCsv {s : Collection J} (h : s.Shaped) {k : Nat}
    (hk : countRows (s.runningSeries.map fun e => e.2.2) = k) (htimes : k ≤ s.mTiming.length)
    (hseries : ∀ e ∈ s.runningSeries, k ≤ e.2.2.numbers.length) :
    ∃ csv, s.writeCsv = some csv := by
  have hrow : ∀ i ∈ List.range k, (s.csvRow i).isSome := by
    intro i hi
    have hi := List.mem_range.mp hi
    have hcustom : (tableRow s.mCustom i).isSome := by
      rw [tableRow_isSome]
      intro values hvalues
      rw [h.lengths values hvalues]
      omega
    have hnumbers : (tableRow (s.runningSeries.map fun e => e.2.2.numbers) i).isSome := by
      rw [tableRow_isSome]
      intro column hcolumn
      obtain ⟨e, he, rfl⟩ := List.mem_map.mp hcolumn
      exact Nat.lt_of_lt_of_le hi (hseries e he)
    obtain ⟨custom, hcustom⟩ := Option.isSome_iff_exists.mp hcustom
    obtain ⟨series, hnumbers⟩ := Option.isSome_iff_exists.mp hnumbers
    have hrow := (@csvRow_eq_some _ _ h i ⟨s.mTiming[i], custom, series⟩).mpr
      ⟨List.getElem?_eq_getElem _, hcustom, hnumbers⟩
    rw [hrow]
    rfl
  obtain ⟨rows, hrows⟩ := exists_mapM_eq_some hrow
  exact ⟨_, by rw [writeCsv, hk, hrows, Option.map_some]⟩

/-! ## The count of rows -/

theorem countRows_concat (series : List CollectorValueList) (l : CollectorValueList) :
    countRows (series ++ [l]) = if l.list ≠ [] then l.list.length else countRows series := by
  rw [countRows, List.foldl_append]
  rfl

theorem countRows_eq_zero {series : List CollectorValueList} :
    countRows series = 0 ↔ ∀ l ∈ series, l.list = [] := by
  induction series using List.reverseRecOn with
  | nil => simp [countRows]
  | append_singleton series l ih =>
    rw [countRows_concat]
    by_cases hl : l.list = []
    · rw [if_neg (not_not.mpr hl), ih]
      refine ⟨fun h m hm => ?_, fun h m hm => h m (List.mem_append_left _ hm)⟩
      rcases List.mem_append.mp hm with hm | hm
      · exact h m hm
      · rw [List.mem_singleton.mp hm]
        exact hl
    · rw [if_pos hl]
      refine iff_of_false (fun h => hl (List.length_eq_zero_iff.mp h)) fun h => hl (h l ?_)
      exact List.mem_append_right _ (List.mem_singleton_self l)

/-- If no series is too short, there is a row for each frame time exactly when the last series is
    not too long. -/
theorem countRows_eq_iff {s : Collection J}
    (hlong : ∀ e ∈ s.runningSeries, s.mTiming.length ≤ e.2.2.list.length) :
    countRows (s.runningSeries.map fun e => e.2.2) = s.mTiming.length ↔
      if s.mTiming = [] then ∀ e ∈ s.runningSeries, e.2.2.list = []
      else s.runningSeries.getLast?.map (fun e => e.2.2.list.length) = some s.mTiming.length := by
  by_cases htiming : s.mTiming = []
  · rw [if_pos htiming, htiming, List.length_nil, countRows_eq_zero, List.forall_mem_map]
  · rw [if_neg htiming]
    rcases List.eq_nil_or_concat s.runningSeries with hnil | ⟨series, e, hconcat⟩
    · rw [hnil]
      refine iff_of_false (fun h => htiming ?_) nofun
      exact List.length_eq_zero_iff.mp h.symm
    · rw [List.concat_eq_append] at hconcat
      have he := hlong e (by simp [hconcat])
      have hne : e.2.2.list ≠ [] := by
        intro hnil
        rw [hnil, List.length_nil, Nat.le_zero] at he
        exact htiming (List.length_eq_zero_iff.mp he)
      rw [hconcat, List.map_append, List.map_singleton, countRows_concat, if_pos hne]
      simp

/-! ## The custom arrays -/

theorem find?_foldl_addMember (columns : List (Str × List Int × List Int))
    (m : OrdMap Str CustomMember) {header : Str} (h : header ∉ columns.map Prod.fst) :
    (columns.foldl addMember m).find? header =
      if header = "summarized".toList ∧ ∃ e ∈ columns, e.2.2 ≠ [] then some .summarized
      else m.find? header := by
  induction columns generalizing m with
  | nil => simp
  | cons e columns ih =>
    rw [List.map_cons, List.mem_cons, not_or] at h
    rw [List.foldl_cons, ih _ h.2]
    by_cases hheader : header = "summarized".toList
    · by_cases hrest : ∃ f ∈ columns, f.2.2 ≠ []
      · have hboth : ∃ f ∈ e :: columns, f.2.2 ≠ [] :=
          hrest.imp fun f hf => ⟨List.mem_cons_of_mem e hf.1, hf.2⟩
        rw [if_pos ⟨hheader, hrest⟩, if_pos ⟨hheader, hboth⟩]
      · rw [if_neg fun hc => hrest hc.2, addMember]
        by_cases he : e.2.2 ≠ []
        · rw [if_pos he, if_pos ⟨hheader, e, List.mem_cons_self, he⟩, hheader,
            OrdMap.find?_insert_self]
        · have hnone : ¬ ∃ f ∈ e :: columns, f.2.2 ≠ [] := by
            rintro ⟨f, hf, hne⟩
            rcases List.mem_cons.mp hf with rfl | hf
            · exact he hne
            · exact hrest ⟨f, hf, hne⟩
          rw [if_neg he, if_neg fun hc => hnone hc.2, OrdMap.find?_insert_of_ne _ _ h.1]
    · rw [if_neg fun hc => hheader hc.1, if_neg fun hc => hheader hc.1, addMember]
      split
      · rw [OrdMap.find?_insert_of_ne _ _ hheader, OrdMap.find?_insert_of_ne _ _ h.1]
      · rw [OrdMap.find?_insert_of_ne _ _ h.1]

/-- The member of a header is that of its last column. -/
theorem find?_customObject {s : Collection J} {pre post : List (Str × List Int × List Int)}
    {e : Str × List Int × List Int} (hsplit : s.customColumns = pre ++ e :: post)
    (hlast : e.1 ∉ post.map Prod.fst) :
    s.customObject.find? e.1 =
      if e.1 = "summarized".toList ∧ ∃ f ∈ e :: post, f.2.2 ≠ [] then some .summarized
      else some (.array (shown e)) := by
  rw [customObject, hsplit, List.foldl_append, List.foldl_cons, find?_foldl_addMember _ _ hlast,
    addMember]
  by_cases hheader : e.1 = "summarized".toList
  · by_cases he : e.2.2 ≠ []
    · rw [if_pos he, ← hheader, OrdMap.find?_insert_self, ite_self,
        if_pos ⟨rfl, e, List.mem_cons_self, he⟩]
    · have hmem : (∃ f ∈ e :: post, f.2.2 ≠ []) ↔ ∃ f ∈ post, f.2.2 ≠ [] := by
        rw [List.exists_mem_cons_iff]
        exact or_iff_right he
      rw [if_neg he, OrdMap.find?_insert_self]
      by_cases hpost : ∃ f ∈ post, f.2.2 ≠ []
      · rw [if_pos ⟨hheader, hpost⟩, if_pos ⟨hheader, hmem.mpr hpost⟩]
      · rw [if_neg fun hc => hpost hc.2, if_neg fun hc => hpost (hmem.mp hc.2)]
  · have hflag : ∀ p : Prop, ¬ (e.1 = "summarized".toList ∧ p) := fun p hc => hheader hc.1
    rw [if_neg (hflag _), if_neg (hflag (∃ f ∈ e :: post, f.2.2 ≠ []))]
    split
    · rw [OrdMap.find?_insert_of_ne _ _ hheader, OrdMap.find?_insert_self]
    · rw [OrdMap.find?_insert_self]

/-- Every header has a last column. -/
theorem exists_last_column {columns : List (Str × List Int × List Int)} {header : Str}
    (h : header ∈ columns.map Prod.fst) :
    ∃ pre e post, columns = pre ++ e :: post ∧ e.1 = header ∧ header ∉ post.map Prod.fst := by
  induction columns with
  | nil => cases h
  | cons d columns ih =>
    by_cases hrest : header ∈ columns.map Prod.fst
    · obtain ⟨pre, e, post, rfl, he, hpost⟩ := ih hrest
      exact ⟨d :: pre, e, post, rfl, he, hpost⟩
    · have hd := (List.mem_cons.mp h).resolve_right hrest
      exact ⟨[], d, columns, rfl, hd.symm, hrest⟩

/-- Every custom array is reported as it is in its column exactly when no later array and no flag
    replaces it. -/
theorem customObject_eq_iff {s : Collection J} :
    (∀ e ∈ s.customColumns, s.customObject.find? e.1 = some (.array e.2.1)) ↔
      ∀ pre header values averages post,
        s.customColumns = pre ++ (header, values, averages) :: post → header ∉ post.map Prod.fst →
        (averages = [] ∨ averages = values) ∧ (∀ e ∈ pre, e.1 = header → e.2.1 = values) ∧
          (header = "summarized".toList → averages = [] ∧ ∀ e ∈ post, e.2.2 = []) := by
  constructor
  · intro h pre header values averages post hsplit hlast
    have hfind := find?_customObject hsplit hlast
    have hmem : (header, values, averages) ∈ s.customColumns := by
      rw [hsplit]
      exact List.mem_append_right _ List.mem_cons_self
    have hown := h _ hmem
    rw [hown] at hfind
    split at hfind
    · cases hfind
    · rename_i hflag
      have hshown : values = shown (header, values, averages) :=
        CustomMember.array.inj (Option.some.inj hfind)
      refine ⟨?_, fun e he hheader => ?_, fun hheader => ?_⟩
      · unfold shown at hshown
        split at hshown
        · exact Or.inr hshown.symm
        · rename_i hnil
          exact Or.inl (not_not.mp hnil)
      · have hother := h e (by rw [hsplit]; exact List.mem_append_left _ he)
        rw [hheader, hown] at hother
        cases hother
        rfl
      · have hnone : ∀ f ∈ (header, values, averages) :: post, f.2.2 = [] := by
          intro f hf
          by_contra hne
          exact hflag ⟨hheader, f, hf, hne⟩
        exact ⟨hnone _ List.mem_cons_self, fun f hf => hnone f (List.mem_cons_of_mem _ hf)⟩
  · intro h e he
    obtain ⟨pre, ⟨header, values, averages⟩, post, hsplit, hheader, hlast⟩ :=
      exists_last_column (List.mem_map_of_mem (f := Prod.fst) he)
    dsimp only at hheader
    subst hheader
    obtain ⟨haverages, hpre, hflag⟩ := h pre _ values averages post hsplit hlast
    have hfind := find?_customObject hsplit hlast
    have hunflagged : ¬ (e.1 = "summarized".toList ∧
        ∃ f ∈ (e.1, values, averages) :: post, f.2.2 ≠ []) := by
      rintro ⟨hname, f, hf, hne⟩
      obtain ⟨hown, hpost⟩ := hflag hname
      rcases List.mem_cons.mp hf with rfl | hf
      · exact hne hown
      · exact hne (hpost f hf)
    have hshown : shown (e.1, values, averages) = values := by
      unfold shown
      rcases haverages with rfl | rfl
      · exact if_neg (not_not.mpr rfl)
      · exact ite_self _
    have hvalues : e.2.1 = values := by
      rw [hsplit] at he
      rcases List.mem_append.mp he with he | he
      · exact hpre e he rfl
      · rcases List.mem_cons.mp he with he | he
        · rw [he]
        · exact absurd (List.mem_map_of_mem he) hlast
    rw [hfind, if_neg hunflagged, hshown, hvalues]

/-! ## The series -/

theorem mem_runningSeries {s : Collection J} {name key : Str} {l : CollectorValueList}
    (h : (name, key, l) ∈ s.runningSeries) :
    ∃ c, name ∈ s.mRunning ∧ s.mCollectors.find? name = some c ∧ c.mResults.find? key = some l := by
  obtain ⟨other, hother, hmem⟩ := List.mem_flatMap.mp h
  cases hc : s.mCollectors.find? other with
  | none =>
    rw [hc] at hmem
    cases hmem
  | some c =>
    rw [hc, Option.map_some, Option.getD_some] at hmem
    obtain ⟨e, he, heq⟩ := List.mem_map.mp hmem
    cases heq
    exact ⟨c, hother, hc, OrdMap.find?_eq_some_iff.mpr he⟩

/-- The array of a series, unless the member `summarized` replaces it. -/
theorem reportedSeries_eq {s : Collection J}
    (hnames : ∀ name ∈ s.mRunning, name ∈ builtinCollectors)
    {name key : Str} {l : CollectorValueList} (h : (name, key, l) ∈ s.runningSeries)
    {c : Collector J} (hc : s.mCollectors.find? name = some c) (hcustom : c.mCustomResult = none) :
    s.reportedSeries name key =
      if c.mIsSummarized = true ∧ key = "summarized".toList ∧ ∃ other ∈ c.mResults.keys, key < other
      then none else some l.reported := by
  obtain ⟨c', hname, hc', hl⟩ := mem_runningSeries h
  rw [hc] at hc'
  cases hc'
  have hmember : name ∉ ["timing".toList, "custom".toList, "provenance".toList] := by
    have hbuiltin : ∀ n ∈ builtinCollectors,
        n ∉ ["timing".toList, "custom".toList, "provenance".toList] := by decide
    exact hbuiltin name (hnames name hname)
  have hresults : s.results.collectors.find? name =
      some (.series (decide (c.mIsSummarized ∧ c.mResults.entries ≠ [])) c.reported) :=
    find?_results_series.mpr ⟨c, hname, hc, hcustom, rfl, rfl⟩
  have hentries : c.mResults.entries ≠ [] := by
    intro hnil
    have hmem := OrdMap.find?_eq_some_iff.mp hl
    rw [hnil] at hmem
    cases hmem
  have hfind : c.reported.find? key = some l.reported := by
    rw [Collector.reported, OrdMap.find?_mapVal, hl, Option.map_some]
  have hkeys : c.reported.keys = c.mResults.keys := OrdMap.keys_mapVal _ _
  rw [reportedSeries, if_neg hmember, hresults]
  simp only [hkeys, hfind, decide_eq_true_eq, and_iff_left hentries]

/-- When the reported numbers are the first ones that have been added. -/
theorem reported_eq_take_iff (l : CollectorValueList) (n : Nat) :
    l.reported = l.numbers.take n ↔
      if l.summaries = [] then l.list.length ≤ n else l.summaries = l.list.take n := by
  by_cases hnil : l.summaries = []
  · rw [if_pos hnil, CollectorValueList.reported_eq_numbers hnil, ← l.length_numbers, eq_comm]
    exact List.take_eq_self_iff _
  · rw [if_neg hnil, CollectorValueList.reported, CollectorValueList.data, if_pos hnil,
      CollectorValueList.numbers]
    cases htype : l.type with
    | none => exact absurd (l.unassigned htype).2 hnil
    | some t =>
      simp only [CollectorValueList.typed, htype]
      rw [← List.map_take]
      exact List.map_inj_right fun _ _ => congrArg Prod.snd

/-! ## Agreement -/

/-- The outputs agree exactly when what is reported is the raw data, with one value for each frame
    time. -/
theorem outputsAgree_shaped {s : Collection J} (h : s.Shaped)
    (hnames : ∀ name ∈ s.mRunning, name ∈ builtinCollectors) : s.OutputsAgree ↔ s.Uniform := by
  have htimes : s.mTiming = s.results.time ↔
      s.mTimingSummarized = [] ∨ s.mTimingSummarized = s.mTiming := by
    have hunfold : s.results.time = s.times := rfl
    rw [hunfold, times]
    by_cases hnil : s.mTimingSummarized = []
    · rw [if_neg (not_not.mpr hnil)]
      exact iff_of_true rfl (Or.inl hnil)
    · rw [if_pos hnil, or_iff_right hnil]
      exact eq_comm
  have hcolumns : ∀ (i : Nat) header, s.mCustomHeaders[i]? = some header → ∃ values averages,
      s.mCustom[i]? = some values ∧ s.customColumns[i]? = some (header, values, averages) := by
    intro i header hheader
    have hlt : i < s.mCustomHeaders.length := (List.getElem?_eq_some_iff.mp hheader).1
    have hvalues : i < s.mCustom.length := h.mCustom.symm ▸ hlt
    have haverages : i < s.mCustomSummarized.length := h.mCustomSummarized.symm ▸ hlt
    refine ⟨s.mCustom[i], s.mCustomSummarized[i], List.getElem?_eq_getElem hvalues, ?_⟩
    rw [customColumns, List.getElem?_zip_eq_some, List.getElem?_zip_eq_some]
    exact ⟨hheader, List.getElem?_eq_getElem hvalues, List.getElem?_eq_getElem haverages⟩
  have hreplaced : ∀ (c : Collector J) (key : Str),
      (c.mIsSummarized = true ∧ key = "summarized".toList ∧
        ∃ other ∈ c.mResults.keys, key < other) ↔
        ¬ (c.mIsSummarized = true → key = "summarized".toList →
          ∀ other ∈ c.mResults.keys, other ≤ key) := by
    intro c key
    simp only [Classical.not_imp, not_forall, not_le]
  constructor
  · rintro ⟨csv, hcsv, ⟨hcsvTimes, hmtvTimes⟩, hcustom, hseries⟩
    obtain ⟨hframes, hle, -, hcolumn, hlong⟩ := columns_of_writeCsv h hcsv rfl
    have hmtv : s.mTiming = s.results.time := hmtvTimes
    have hrows : countRows (s.runningSeries.map fun e => e.2.2) = s.mTiming.length := by
      have hlength := congrArg List.length (hframes.symm.trans (hcsvTimes.trans hmtv.symm))
      rw [List.length_take] at hlength
      omega
    rw [hrows] at hcolumn hlong
    have hlists : ∀ e ∈ s.runningSeries, s.mTiming.length ≤ e.2.2.list.length := fun e he =>
      e.2.2.length_numbers ▸ hlong e he
    refine ⟨htimes.mp hmtv, customObject_eq_iff.mp fun e he => ?_, hlists,
      (countRows_eq_iff hlists).mp hrows, fun name key l c hl hc hgeneric => ?_⟩
    · obtain ⟨i, hi⟩ := List.mem_iff_getElem?.mp he
      rw [customColumns, List.getElem?_zip_eq_some, List.getElem?_zip_eq_some] at hi
      obtain ⟨values, hfind, -, hvalues⟩ := hcustom i e.1 hi.1
      have hzip : (s.mCustomHeaders.zip s.mCustom)[i]? = some (e.1, e.2.1) :=
        List.getElem?_zip_eq_some.mpr ⟨hi.1, hi.2.1⟩
      have hsame := hzip.symm.trans hvalues
      rw [hfind, (Prod.mk.inj (Option.some.inj hsame)).2]
    · obtain ⟨i, hi⟩ := List.mem_iff_getElem?.mp hl
      obtain ⟨values, hreported, hvalues, hmtvValues⟩ := hseries i name key l c hi hc hgeneric
      have hraw := (hcolumn i _ hi).symm.trans hvalues
      rw [reportedSeries_eq hnames hl hc hgeneric] at hreported
      split at hreported
      · cases hreported
      · rename_i hflag
        rw [hreplaced, not_not] at hflag
        have htake := (Option.some.inj hreported).trans hraw.symm
        exact ⟨(reported_eq_take_iff l _).mp htake, hflag⟩
  · intro hu
    have hrows := (countRows_eq_iff hu.long).mpr hu.rows
    have hlong : ∀ e ∈ s.runningSeries, s.mTiming.length ≤ e.2.2.numbers.length := fun e he =>
      e.2.2.length_numbers.symm ▸ hu.long e he
    obtain ⟨csv, hcsv⟩ := exists_writeCsv h hrows (le_refl _) hlong
    obtain ⟨hframes, -, hcustom, hcolumn, -⟩ := columns_of_writeCsv h hcsv hrows
    rw [List.take_length] at hframes
    have hmtv := htimes.mpr hu.times
    refine ⟨csv, hcsv, ⟨hframes.trans hmtv, hmtv⟩, fun i header hheader => ?_,
      fun i name key l c hi hc hgeneric => ?_⟩
    · obtain ⟨values, averages, hvalues, hcolumns⟩ := hcolumns i header hheader
      refine ⟨values, customObject_eq_iff.mpr hu.custom _ (List.mem_of_getElem? hcolumns), ?_,
        List.getElem?_zip_eq_some.mpr ⟨hheader, hvalues⟩⟩
      rw [hcustom i values hvalues, List.take_of_length_le]
      exact (h.lengths values (List.mem_of_getElem? hvalues)).le
    · have hl := List.mem_of_getElem? hi
      obtain ⟨hsame, hflag⟩ := hu.series name key l c hl hc hgeneric
      rw [← reported_eq_take_iff] at hsame
      refine ⟨l.reported, ?_, (hcolumn i _ hi).trans hsame.symm, ?_⟩
      · rw [reportedSeries_eq hnames hl hc hgeneric, if_neg]
        rw [hreplaced, not_not]
        exact hflag
      · have hmap : s.writeCsvMtv.series[i]? =
            s.runningSeries[i]?.map fun e => (e.1, e.2.1, e.2.2.reported) := List.getElem?_map
        rw [hmap, hi, Option.map_some]

/-! ## Reachable collections -/

theorem Fresh.shaped {s : Collection J} (h : s.Fresh) : s.Shaped := by
  obtain ⟨hcustom, haverages, hheaders⟩ := h.mCustom
  refine ⟨?_, ?_, ?_⟩
  · rw [hcustom, hheaders]
    rfl
  · rw [haverages, hheaders]
    rfl
  · rw [hcustom]
    exact fun _ hvalues => absurd hvalues List.not_mem_nil

theorem length_resize (l : List (List Int)) (n : Nat) : (resize l n).length = n := by
  rw [resize, List.length_append, List.length_take, List.length_replicate]
  omega

/-- A call on the collection keeps its columns in shape. -/
theorem shaped_step {op : Op} {s t : Collection J} (hs : s.Shaped) (h : s.step op = some t) :
    t.Shaped := by
  cases op with
  | start headers now ok =>
    obtain ⟨collectors, -, rfl⟩ := Option.map_eq_some_iff.mp h
    refine ⟨List.length_replicate, length_resize _ _, fun values hvalues => ?_⟩
    rw [List.eq_of_mem_replicate hvalues]
  | sample x =>
    cases x with
    | collect now custom adds =>
      obtain ⟨collectors, -, h⟩ := Option.bind_eq_some_iff.mp h
      split at h
      · rename_i hlength
        cases h
        refine ⟨?_, hs.mCustomSummarized, fun values hvalues => ?_⟩
        · have hcustom := hs.mCustom
          rw [List.length_zipWith]
          dsimp only
          omega
        · obtain ⟨i, hi, rfl⟩ := List.getElem_of_mem hvalues
          rw [List.length_zipWith] at hi
          have hlt : i < s.mCustom.length := by omega
          rw [List.getElem_zipWith, List.length_append, List.length_append,
            hs.lengths _ (List.getElem_mem hlt)]
          rfl
      · cases h
    | loop name adds =>
      obtain ⟨c, -, h⟩ := Option.bind_eq_some_iff.mp h
      split at h
      · obtain ⟨c', -, rfl⟩ := Option.map_eq_some_iff.mp h
        exact ⟨hs.mCustom, hs.mCustomSummarized, hs.lengths⟩
      · cases h
  | summarize =>
    obtain ⟨collectors, -, h⟩ := Option.bind_eq_some_iff.mp h
    obtain ⟨time, -, h⟩ := Option.bind_eq_some_iff.mp h
    obtain ⟨custom, hcustom, rfl⟩ := Option.map_eq_some_iff.mp h
    have hlength := congrArg List.length (mapM_eq_some_iff.mp hcustom)
    rw [List.length_map, List.length_map] at hlength
    refine ⟨?_, ?_, fun values hvalues => ?_⟩
    · dsimp only
      rw [List.length_map]
      exact hs.mCustom
    · have hvalues := hs.mCustom
      have haverages := hs.mCustomSummarized
      rw [List.length_zipWith]
      dsimp only
      omega
    · obtain ⟨_, -, hnil⟩ := List.mem_map.mp hvalues
      rw [← hnil]
  | stop =>
    obtain ⟨collectors, -, rfl⟩ := Option.map_eq_some_iff.mp h
    exact ⟨hs.mCustom, hs.mCustomSummarized, hs.lengths⟩

/-- Only built-in collectors are running after `initialize()`. -/
theorem running_initializeList {lib : Jsoncpp J} {config : OrdMap Str J} {names list : List Str}
    {answer : Nat → Bool × Bool} {out : Outcome J}
    (h : (construct config names).initializeList lib answer list = some out) :
    ∀ name ∈ out.collection.mRunning, name ∈ names := by
  have hwalked := ((initializeAll_spec _ _).some out h).2
  intro name hname
  cases hok : out.ok with
  | false =>
    rw [hwalked.cleared hok] at hname
    cases hname
  | true =>
    rw [hwalked.running hok] at hname
    rcases List.mem_append.mp hname with hname | hname
    · cases hname
    · rw [newNames, List.mem_eraseDups, List.mem_filter] at hname
      obtain ⟨a, ha, rfl⟩ := List.mem_map.mp hname.1
      have hknown := (of_decide_eq_true (List.mem_filter.mp ha).2).known
      have hfold : ∀ (names : List Str) (m : OrdMap Str (Collector J)),
          a.name ∈ (names.foldl (fun m name => m.insert name {}) m).keys →
            a.name ∈ names ∨ a.name ∈ m.keys := by
        intro names
        induction names with
        | nil => exact fun m hm => Or.inr hm
        | cons first names ih =>
          intro m hm
          rcases ih _ hm with hmem | hmem
          · exact Or.inl (List.mem_cons_of_mem _ hmem)
          · rcases OrdMap.mem_keys_insert.mp hmem with rfl | hmem
            · exact Or.inl List.mem_cons_self
            · exact Or.inr hmem
      exact (hfold names ∅ hknown).resolve_right List.not_mem_nil

/-- After any calls on an initialised collection, the outputs agree exactly when what is reported is
    the raw data, with one value for each frame time. -/
theorem outputsAgree_iff {lib : Jsoncpp J} {config : OrdMap Str J} {list : List Str}
    {answer : Nat → Bool × Bool} {out : Outcome J}
    (hout : (construct config builtinCollectors).initializeList lib answer list = some out)
    {ops : List Op} {s : Collection J} (h : run step out.collection ops = some s) :
    s.OutputsAgree ↔ s.Uniform := by
  have hfresh := fresh_initializeList hout
  have hshaped : s.Shaped := run_invariant (fun _ _ _ hs => shaped_step hs) hfresh.shaped h
  refine outputsAgree_shaped hshaped fun name hname => ?_
  exact running_initializeList hout name ((after_run hfresh.nodup h).mRunning.subset hname)

/-- The calls on a collection with the `memfreq` collector and no custom headers: `start()`, a
    `collect()` at each time, with what it adds, and the last calls. -/
def memfreqOps (samples : List (Int × Int64)) (last : List Op) : List Op :=
  .start [] 0 (fun _ => true) ::
    (samples.map fun e => Op.sample (.collect e.1 [] (memfreqAdds e.2))) ++ last

/-- Without averages, and with one collector that adds one number in each call, the outputs agree.
    -/
theorem outputsAgree_memfreq : ∃ out s,
    (construct ∅ builtinCollectors).initializeList jsoncpp (fun _ => (true, true))
      ["memfreq".toList] = some out ∧
    run step out.collection (memfreqOps [(5, 800000), (9, 933000)] [.stop]) = some s ∧
    s.OutputsAgree := by
  obtain ⟨out, s, hout, hs, htimes, haverages, hcolumns, hseries⟩ :
      ∃ out s, (construct ∅ builtinCollectors).initializeList jsoncpp (fun _ => (true, true))
        ["memfreq".toList] = some out ∧
      run step out.collection (memfreqOps [(5, 800000), (9, 933000)] [.stop]) = some s ∧
      s.mTiming = [5, 4] ∧ s.mTimingSummarized = [] ∧ s.customColumns = [] ∧
      s.runningSeries = [("memfreq".toList, "memfreq".toList,
        ⟨some .i64, [.ofI64 800000, .ofI64 933000], [], nofun⟩)] :=
    ⟨_, _, rfl, rfl, rfl, rfl, rfl, rfl⟩
  refine ⟨out, s, hout, hs, (outputsAgree_iff hout hs).mpr ?_⟩
  refine ⟨Or.inl haverages, ?_, ?_, ?_, ?_⟩
  · intro pre header values averages post hsplit
    rw [hcolumns] at hsplit
    exact absurd hsplit.symm (List.append_ne_nil_of_right_ne_nil _ (List.cons_ne_nil _ _))
  · rw [hseries, htimes]
    decide
  · rw [hseries, htimes]
    decide
  · intro name key l c hl
    rw [hseries, List.mem_singleton] at hl
    cases hl
    intro _ _
    rw [htimes]
    exact ⟨by decide, fun _ hkey => absurd hkey (by decide)⟩

/-- After `summarize()`, the average of the frame times is reported, and neither file has it. -/
theorem not_outputsAgree_summarize : ∃ out s,
    (construct ∅ builtinCollectors).initializeList jsoncpp (fun _ => (true, true))
      ["memfreq".toList] = some out ∧
    run step out.collection (memfreqOps [(5, 800000), (9, 933000)] [.summarize, .stop]) = some s ∧
    ¬ s.OutputsAgree := by
  obtain ⟨out, s, hout, hs, htimes, hmtv⟩ :
      ∃ out s, (construct ∅ builtinCollectors).initializeList jsoncpp (fun _ => (true, true))
        ["memfreq".toList] = some out ∧
      run step out.collection (memfreqOps [(5, 800000), (9, 933000)] [.summarize, .stop]) = some s ∧
      s.results.time = [4] ∧ s.writeCsvMtv.frametime = [] := ⟨_, _, rfl, rfl, rfl, rfl⟩
  refine ⟨out, s, hout, hs, ?_⟩
  rintro ⟨csv, -, ⟨-, hframes⟩, -⟩
  rw [htimes, hmtv] at hframes
  cases hframes

end Collection

end LibCollector.Interface
