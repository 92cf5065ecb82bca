import LibCollector.Interface.RunIndependence
import LibCollector.Interface.Sysfs

/-!
# Alignment of samples

Whether every array that `results()` reports after a run has one entry for each call,
the one of that call (`Aligned`). A collector whose sample fails adds nothing, and the
later entries of its series move up, so the arrays are aligned exactly if every call
adds one number under every reported key (`OnePerCall`).
-/

namespace LibCollector.Interface

open LibCollector.Misc

variable {J : Type}

/-! ## Lists filled by calls -/

/-- A list that each call has added one entry to, in the order of the calls. -/
theorem forall₂_flatMap_iff {ι α : Type} (f : ι → List α) (calls : List ι) :
    List.Forall₂ (fun call a => a ∈ f call) calls (calls.flatMap f) ↔
      ∀ call ∈ calls, (f call).length = 1 := by
  constructor
  · intro h
    have hnonempty : ∀ call ∈ calls, 1 ≤ (f call).length := by
      intro call hcall
      obtain ⟨i, hi, rfl⟩ := List.getElem_of_mem hcall
      have hmem := h.get hi (h.length_eq ▸ hi)
      exact List.length_pos_of_mem hmem
    have hlength : calls.length = (calls.flatMap f).length := h.length_eq
    clear h
    induction calls with
    | nil => exact fun call hcall => absurd hcall List.not_mem_nil
    | cons call calls ih =>
      have hcall := hnonempty call List.mem_cons_self
      have hcalls := fun other hother => hnonempty other (List.mem_cons_of_mem _ hother)
      have hmin : calls.length ≤ (calls.flatMap f).length := by
        clear ih hlength hnonempty
        induction calls with
        | nil => exact Nat.le_refl 0
        | cons other calls ih =>
          have hother := hcalls other List.mem_cons_self
          have hrest := ih fun o ho => hcalls o (List.mem_cons_of_mem _ ho)
          simp only [List.flatMap_cons, List.length_append, List.length_cons]
          omega
      simp only [List.flatMap_cons, List.length_append, List.length_cons] at hlength
      intro other hother
      rcases List.mem_cons.mp hother with rfl | hother
      · omega
      · exact ih hcalls (by omega) other hother
  · intro h
    induction calls with
    | nil => exact List.Forall₂.nil
    | cons call calls ih =>
      obtain ⟨a, ha⟩ := List.length_eq_one_iff.mp (h call List.mem_cons_self)
      rw [List.flatMap_cons, ha]
      refine List.Forall₂.cons ?_ (ih fun other hother => h other (List.mem_cons_of_mem _ hother))
      rw [ha]
      exact List.mem_singleton_self a

/-! ## Calls -/

/-- A `collect()` call: its time, its custom values, and what each collector adds. -/
structure Call where
  now : Int
  custom : List Int
  adds : Str → List Added

/-- The run that makes the calls. -/
def runOf (headers : List Str) (now : Int) (ok : Str → Bool) (calls : List Call) : Run where
  headers := headers
  now := now
  ok := ok
  samplings := calls.map fun call => .collect call.now call.custom call.adds

/-- Every array of the results has one entry for each call, in their order: a number that the call
    has added, the time since the call before, the custom value that the call was given. -/
structure Aligned (headers : List Str) (now : Int) (calls : List Call) (results : Results J) :
    Prop where
  series : ∀ name summarized values,
    results.collectors.find? name = some (.series summarized values) →
      ∀ key numbers, values.find? key = some numbers →
        List.Forall₂ (fun call n => n ∈ valuesUnder key (call.adds name)) calls numbers
  time : results.time =
    List.zipWith (fun call before => call.now - before) calls (now :: calls.map Call.now)
  custom : ∀ header values, results.custom.find? header = some values →
    ∃ i, headers[i]? = some header ∧ values = calls.map fun call => call.custom.getD i 0

/-- The reported keys of a collector get one number from each call. -/
def OnePerCall (s : Collection J) (calls : List Call) : Prop :=
  ∀ name ∈ s.mRunning, ∀ c, s.mCollectors.find? name = some c → c.mCustomResult = none →
    ∀ key, (key ∈ c.mResults.keys ∨ ∃ call ∈ calls, valuesUnder key (call.adds name) ≠ []) →
      ∀ call ∈ calls, (valuesUnder key (call.adds name)).length = 1

/-! ## What the calls record -/

theorem recorded_runOf (headers : List Str) (now : Int) (ok : Str → Bool) (calls : List Call)
    (name key : Str) : (runOf headers now ok calls).recorded false name key =
      calls.flatMap fun call => valuesUnder key (call.adds name) := by
  rw [Run.recorded, runOf]
  induction calls with
  | nil => rfl
  | cons call calls ih =>
    simp only [List.map_cons, List.flatMap_cons, valuesUnder_append]
    rw [← ih]
    rfl

theorem intervals_runOf (headers : List Str) (now : Int) (ok : Str → Bool) (calls : List Call) :
    (runOf headers now ok calls).intervals =
      List.zipWith (fun call before => call.now - before) calls (now :: calls.map Call.now) := by
  rw [Run.intervals, runOf]
  dsimp only
  induction calls generalizing now with
  | nil => rfl
  | cons call calls ih =>
    rw [List.map_cons, intervals, List.map_cons, List.zipWith_cons_cons, ← ih call.now]
    rfl

theorem columns_runOf (headers : List Str) (now : Int) (ok : Str → Bool) (calls : List Call) :
    (runOf headers now ok calls).columns =
      (List.range headers.length).map fun i => calls.map fun call => call.custom.getD i 0 := by
  have hrows : ((runOf headers now ok calls).samplings).flatMap Sampling.row =
      calls.map Call.custom := by
    rw [runOf]
    induction calls with
    | nil => rfl
    | cons call calls ih =>
      simp only [List.map_cons, List.flatMap_cons] at ih ⊢
      rw [ih]
      rfl
  rw [Run.columns, columns, hrows]
  simp only [List.map_map]
  rfl

/-- An entry of the map of custom arrays is the array of one of its headers. -/
theorem arrays_runOf {headers : List Str} {now : Int} {ok : Str → Bool} {calls : List Call}
    {header : Str} {values : List Int}
    (h : (runOf headers now ok calls).arrays.find? header = some values) :
    ∃ i, headers[i]? = some header ∧ values = calls.map fun call => call.custom.getD i 0 := by
  have hfold : ∀ (es : List (Str × List Int)) (m : OrdMap Str (List Int)),
      (es.foldl (fun m e => m.insert e.1 e.2) m).find? header = some values →
      (header, values) ∈ es ∨ m.find? header = some values := by
    intro es
    induction es with
    | nil => exact fun m hm => Or.inr hm
    | cons e es ih =>
      intro m hm
      rcases ih _ hm with hmem | hfind
      · exact Or.inl (List.mem_cons_of_mem _ hmem)
      · rw [OrdMap.find?_insert] at hfind
        split at hfind
        · rename_i heq
          cases hfind
          rw [heq]
          exact Or.inl List.mem_cons_self
        · exact Or.inr hfind
  have hmem := (hfold _ _ h).resolve_right (by rw [OrdMap.find?_empty]; exact nofun)
  obtain ⟨i, hi, heq⟩ := List.getElem_of_mem hmem
  have hheaders : i < headers.length := by
    rw [List.length_zip, Nat.lt_min] at hi
    exact hi.1
  rw [List.getElem_zip] at heq
  obtain ⟨hheader, hvalues⟩ := Prod.mk.inj heq
  refine ⟨i, ?_, ?_⟩
  · rw [List.getElem?_eq_getElem hheaders]
    exact congrArg some hheader
  · rw [← hvalues]
    simp only [columns_runOf, List.getElem_map, List.getElem_range]

namespace Collection

/-! ## Alignment -/

/-- A run of a collection without averages whose running collectors have no threads. -/
theorem aligned_run_iff {s t : Collection J} (hnodup : s.mRunning.Nodup)
    (hplain : s.Unsummarized) (hthreads : ∀ name ∈ s.mRunning, s.threaded name = false)
    {headers : List Str} {now : Int} {ok : Str → Bool} {calls : List Call}
    (h : run step s (runOf headers now ok calls).ops = some t) :
    Aligned headers now calls t.results ↔ OnePerCall s calls := by
  have hflag : ∀ name ∈ s.mRunning, ∀ c, s.mCollectors.find? name = some c →
      c.mIsThreaded = false := by
    intro name hname c hc
    have hthread := hthreads name hname
    rw [threaded, hc] at hthread
    exact hthread
  have hrecorded : ∀ name key, (runOf headers now ok calls).recorded false name key ≠ [] ↔
      ∃ call ∈ calls, valuesUnder key (call.adds name) ≠ [] := by
    intro name key
    rw [recorded_runOf, Ne, List.flatMap_eq_nil_iff]
    simp only [not_forall, exists_prop]
  constructor
  · intro haligned name hname c hc hgeneric key hkey
    obtain ⟨hstays, c'', hc''⟩ := mem_running_run hnodup h hname hc (hflag name hname c hc)
    obtain ⟨-, hcustom, hkeys, hreported, hnumbers, -⟩ :=
      find?_reported_run hnodup hplain h hstays hc hc'' key
    rw [hflag name hname c hc, hrecorded] at hkeys
    rw [if_pos (hkeys.mpr hkey), hnumbers (hflag name hname c hc), recorded_runOf] at hreported
    have hseries := haligned.series name _ _
      (find?_results_series.mpr ⟨c'', hstays, hc'', hcustom.trans hgeneric, rfl, rfl⟩) key _
      hreported
    exact (forall₂_flatMap_iff _ calls).mp hseries
  · intro hone
    obtain ⟨htime, hcustom, -⟩ := arrays_run hnodup hplain h
    refine ⟨fun name summarized values hseries key numbers hfind => ?_, ?_,
      fun header values hfind => ?_⟩
    · obtain ⟨c'', hname, hc'', hgeneric, rfl, rfl⟩ := find?_results_series.mp hseries
      have hname₀ := (finished_run hnodup h).mRunning.subset hname
      obtain ⟨c, -, -, hc, -⟩ := (finished_run hnodup h).collectors name hname₀
      obtain ⟨-, hcustom, hkeys, hreported, hnumbers, -⟩ :=
        find?_reported_run hnodup hplain h hname hc hc'' key
      rw [hflag name hname₀ c hc, hrecorded] at hkeys
      rw [hreported, hnumbers (hflag name hname₀ c hc), recorded_runOf] at hfind
      by_cases hkey : key ∈ c''.mResults.keys
      · rw [if_pos hkey] at hfind
        cases hfind
        exact (forall₂_flatMap_iff _ calls).mpr
          (hone name hname₀ c hc (hcustom ▸ hgeneric) key (hkeys.mp hkey))
      · rw [if_neg hkey] at hfind
        cases hfind
    · rw [htime, intervals_runOf]
    · rw [hcustom] at hfind
      exact arrays_runOf hfind

/-- The arrays of a run without `summarize()`, of a used collection that was not summarized
    either, are aligned exactly if each call adds one number under every reported key. -/
theorem aligned_iff {s₀ s t : Collection J} (hfresh : s₀.Fresh) {history : List Op}
    (hhistory : run step s₀ history = some s)
    (hthreads : ∀ name ∈ s.mRunning, s.threaded name = false)
    {headers : List Str} {now : Int} {ok : Str → Bool} {calls : List Call}
    (h : run step s (runOf headers now ok calls).ops = some t) :
    (NoSummarize history ∧ OnePerCall s calls → Aligned headers now calls t.results) ∧
      (NoSummarize history → Aligned headers now calls t.results → OnePerCall s calls) := by
  have hnodup := hfresh.nodup.sublist (after_run hfresh.nodup hhistory).mRunning
  have hiff : NoSummarize history →
      (Aligned headers now calls t.results ↔ OnePerCall s calls) := fun hquiet =>
    aligned_run_iff hnodup (unsummarized_run hfresh.nodup hfresh.unsummarized hquiet hhistory)
      hthreads h
  exact ⟨fun hone => (hiff hone.1).mpr hone.2, fun hquiet => (hiff hquiet).mp⟩

/-! ## Sysfs collectors -/

/-- If every sample of every running collector adds one number under its name, as a sysfs collector
    does that succeeds, then there is one number for each call. -/
theorem onePerCall_of_names {s : Collection J} {calls : List Call}
    (hkeys : ∀ name ∈ s.mRunning, ∀ c, s.mCollectors.find? name = some c →
      ∀ key ∈ c.mResults.keys, key = name)
    (hadds : ∀ name ∈ s.mRunning, ∀ call ∈ calls, ∃ val, call.adds name = [(name, val)]) :
    OnePerCall s calls := by
  have hvalues : ∀ (key name : Str) (val : Number),
      valuesUnder key [(name, val)] = if name = key then [val] else [] := by
    intro key name val
    by_cases hname : name = key <;> simp [valuesUnder, hname]
  intro name hname c hc _ key hkey call hcall
  have hkeyname : name = key := by
    rcases hkey with hkey | ⟨other, hother, hne⟩
    · exact (hkeys name hname c hc key hkey).symm
    · obtain ⟨val, hval⟩ := hadds name hname other hother
      rw [hval, hvalues] at hne
      by_contra hdiff
      exact hne (if_neg hdiff)
  obtain ⟨val, hval⟩ := hadds name hname call hcall
  rw [hval, hvalues, if_pos hkeyname]
  rfl

/-- A call during which the file of each collector is read through descriptor 3. -/
def sysfsCall (now : Int) (reply : SysfsReply) : Call where
  now := now
  custom := []
  adds := fun name => ((SysfsCollector.collect reply ⟨name, 3, none⟩).map (·.2.2)).getD []

/-- Two calls whose reads succeed. -/
theorem aligned_two_reads : ∃ t,
    run step memfreqCollection (runOf [] 0 (fun _ => true)
      [sysfsCall 5 ⟨some "800000\n".toList, true, -1⟩,
        sysfsCall 9 ⟨some "933000\n".toList, true, -1⟩]).ops = some t ∧
    Aligned [] 0 [sysfsCall 5 ⟨some "800000\n".toList, true, -1⟩,
      sysfsCall 9 ⟨some "933000\n".toList, true, -1⟩] t.results := by
  obtain ⟨t, ht⟩ : ∃ t, run step memfreqCollection (runOf [] 0 (fun _ => true)
      [sysfsCall 5 ⟨some "800000\n".toList, true, -1⟩,
        sysfsCall 9 ⟨some "933000\n".toList, true, -1⟩]).ops = some t := ⟨_, rfl⟩
  refine ⟨t, ht, ?_⟩
  have hnil : NoSummarize [] := fun op hop => absurd hop List.not_mem_nil
  refine (aligned_iff fresh_memfreq rfl (by decide) ht).1 ⟨hnil, onePerCall_of_names ?_ ?_⟩
  · intro name _ c hc key hkey
    rw [(fresh_memfreq.collectors name c hc).2.1] at hkey
    exact absurd hkey List.not_mem_nil
  · intro name _ call hcall
    simp only [List.mem_cons, List.not_mem_nil, or_false] at hcall
    rcases hcall with rfl | rfl <;> exact ⟨_, rfl⟩

/-- The second of three reads fails, and the third number is reported for the second call. -/
theorem not_aligned_failed_read : ∃ t, memfreqCollection.Fresh ∧
    (∀ name ∈ memfreqCollection.mRunning, memfreqCollection.threaded name = false) ∧
    run step memfreqCollection (runOf [] 0 (fun _ => true)
      [sysfsCall 5 ⟨some "800000\n".toList, true, -1⟩, sysfsCall 9 ⟨none, true, -1⟩,
        sysfsCall 14 ⟨some "933000\n".toList, true, -1⟩]).ops = some t ∧
    ¬ Aligned [] 0 [sysfsCall 5 ⟨some "800000\n".toList, true, -1⟩, sysfsCall 9 ⟨none, true, -1⟩,
      sysfsCall 14 ⟨some "933000\n".toList, true, -1⟩] t.results := by
  obtain ⟨t, ht⟩ : ∃ t, run step memfreqCollection (runOf [] 0 (fun _ => true)
      [sysfsCall 5 ⟨some "800000\n".toList, true, -1⟩, sysfsCall 9 ⟨none, true, -1⟩,
        sysfsCall 14 ⟨some "933000\n".toList, true, -1⟩]).ops = some t := ⟨_, rfl⟩
  have hthreads : ∀ name ∈ memfreqCollection.mRunning, memfreqCollection.threaded name = false := by
    decide
  refine ⟨t, fresh_memfreq, hthreads, ht, fun haligned => ?_⟩
  have hone := (aligned_run_iff fresh_memfreq.nodup fresh_memfreq.unsummarized hthreads ht).mp
    haligned
  have hlength := hone "memfreq".toList (by decide) {} rfl rfl "memfreq".toList
    (Or.inr ⟨sysfsCall 5 ⟨some "800000\n".toList, true, -1⟩, List.mem_cons_self, by decide⟩)
    (sysfsCall 9 ⟨none, true, -1⟩) (List.mem_cons_of_mem _ List.mem_cons_self)
  exact absurd hlength (by decide)

end Collection

end LibCollector.Interface
