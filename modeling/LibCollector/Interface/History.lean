import LibCollector.Interface.Collection

/-!
# Histories of calls on a collection

What any sequence of `start`, `collect`, `summarize` and `stop` leaves alone, and what
holds as long as `summarize()` was not called: no list of averages has an entry
(`Unsummarized`).
-/

namespace LibCollector.Interface

open LibCollector.Misc

variable {J : Type}

/-! ## Collectors -/

namespace Collector

/-- The members that no call of a run writes. -/
structure SameSetup (c c' : Collector J) : Prop where
  mIsThreaded : c'.mIsThreaded = c.mIsThreaded
  mCustomResult : c'.mCustomResult = c.mCustomResult

theorem SameSetup.refl (c : Collector J) : SameSetup c c := ⟨rfl, rfl⟩

theorem SameSetup.trans {a b c : Collector J} (h : SameSetup a b) (h' : SameSetup b c) :
    SameSetup a c := ⟨h'.1.trans h.1, h'.2.trans h.2⟩

/-- A collector that was never summarized. -/
structure Plain (c : Collector J) : Prop where
  mIsSummarized : c.mIsSummarized = false
  summaries : ∀ key, c.summariesUnder key = []

/-- What a call other than `summarize()` does to a collector. -/
structure Kept (c c' : Collector J) : Prop where
  setup : SameSetup c c'
  plain : c.Plain → c'.Plain

theorem Kept.refl (c : Collector J) : Kept c c := ⟨SameSetup.refl c, id⟩

theorem kept_launch {ok : Bool} {c c' : Collector J} (h : c.launch ok = some c') : Kept c c' := by
  have hl := launched_launch h
  refine ⟨⟨hl.mIsThreaded, hl.mCustomResult⟩, fun hplain => ⟨?_, fun key => ?_⟩⟩
  · rw [hl.mIsSummarized, hplain.mIsSummarized]
  · rw [hl.summaries, hplain.summaries]

theorem kept_addAll {adds : List Added} {c c' : Collector J} (h : c.addAll adds = some c') :
    Kept c c' := by
  have hg := grown_addAll h
  refine ⟨⟨hg.mIsThreaded, hg.mCustomResult⟩, fun hplain => ⟨?_, fun key => ?_⟩⟩
  · rw [hg.mIsSummarized, hplain.mIsSummarized]
  · rw [hg.summaries, hplain.summaries]

theorem setup_halt {timing : List Int} {c c' : Collector J} {valid : Bool}
    (h : c.halt timing = some (valid, c')) : SameSetup c c' := by
  unfold halt at h
  split at h
  · cases h
  · rcases postprocess_cases h with ⟨-, rfl⟩ | ⟨-, -, -, results, -, rfl⟩ | ⟨-, -, rfl⟩ <;>
      exact ⟨rfl, rfl⟩

/-- A collector whose results are not valid keeps its series. -/
theorem plain_halt_invalid {timing : List Int} {c c' : Collector J} (hplain : c.Plain)
    (h : c.halt timing = some (false, c')) : c'.Plain := by
  unfold halt at h
  split at h
  · cases h
  · rcases postprocess_cases h with ⟨-, rfl⟩ | ⟨hvalid, -⟩ | ⟨hvalid, -⟩
    · exact ⟨hplain.mIsSummarized, hplain.summaries⟩
    · cases hvalid
    · cases hvalid

theorem kept_halt {timing : List Int} {c c' : Collector J} {valid : Bool}
    (h : c.halt timing = some (valid, c')) : Kept c c' := by
  refine ⟨setup_halt h, fun hplain => ?_⟩
  cases valid with
  | false => exact plain_halt_invalid hplain h
  | true =>
    have hhalted := halted_halt hplain.mIsSummarized h
    exact ⟨hhalted.mIsSummarized, hhalted.summaries hplain.summaries⟩

theorem setup_summarize {c c' : Collector J} (h : c.summarize = some c') : SameSetup c c' := by
  obtain ⟨results, -, rfl⟩ := Option.map_eq_some_iff.mp h
  exact ⟨rfl, rfl⟩

end Collector

/-! ## Collections -/

namespace Collection

/-- The collectors of two collections are related one by one. -/
def RelCollectors (R : Collector J → Collector J → Prop) (s t : Collection J) : Prop :=
  ∀ name, Option.Rel R (s.mCollectors.find? name) (t.mCollectors.find? name)

theorem RelCollectors.trans {R : Collector J → Collector J → Prop}
    (htrans : ∀ {a b c : Collector J}, R a b → R b c → R a c) {s t u : Collection J}
    (h : RelCollectors R s t) (h' : RelCollectors R t u) : RelCollectors R s u := by
  have hoption : ∀ x y z : Option (Collector J),
      Option.Rel R x y → Option.Rel R y z → Option.Rel R x z := by
    intro x y z hxy hyz
    cases hxy with
    | none => exact hyz
    | some hab =>
      cases hyz with
      | some hbc => exact Option.Rel.some (htrans hab hbc)
  exact fun name => hoption _ _ _ (h name) (h' name)

/-- A call other than `summarize()` treats the collectors one by one, leaves the averages alone,
    and starts no further collector. -/
structure QuietStep (s t : Collection J) : Prop where
  collectors : RelCollectors Collector.Kept s t
  mRunning : t.mRunning.Sublist s.mRunning
  mTimingSummarized : t.mTimingSummarized = s.mTimingSummarized
  mCustomSummarized : (∀ l ∈ s.mCustomSummarized, l = []) → ∀ l ∈ t.mCustomSummarized, l = []

theorem rel_updateAll {f : Str → Collector J → Option (Collector J)}
    (hf : ∀ name c c', f name c = some c' → Collector.Kept c c') {s t : Collection J}
    (hnodup : s.mRunning.Nodup) (h : s.mCollectors.updateAll f s.mRunning = some t.mCollectors) :
    RelCollectors Collector.Kept s t :=
  OrdMap.rel_updateAll Collector.Kept.refl hf hnodup h

theorem quietStep_start {headers : List Str} {now : Int} {ok : Str → Bool} {s t : Collection J}
    (hnodup : s.mRunning.Nodup) (h : s.start headers now ok = some t) : QuietStep s t := by
  obtain ⟨collectors, hcollectors, rfl⟩ := Option.map_eq_some_iff.mp h
  refine ⟨?_, List.Sublist.refl _, rfl, fun hs l hl => ?_⟩
  · exact rel_updateAll (fun name c c' => Collector.kept_launch) hnodup hcollectors
  · rcases List.mem_append.mp hl with hl | hl
    · exact hs l (List.mem_of_mem_take hl)
    · exact List.eq_of_mem_replicate hl

theorem quietStep_sample {x : Sampling} {s t : Collection J} (hnodup : s.mRunning.Nodup)
    (h : s.sample x = some t) : QuietStep s t := by
  cases x with
  | collect now custom adds =>
    obtain ⟨collectors, hcollectors, h⟩ := Option.bind_eq_some_iff.mp h
    split at h
    · cases h
      refine ⟨?_, List.Sublist.refl _, rfl, id⟩
      refine rel_updateAll (fun name c c' hc => ?_) hnodup hcollectors
      split at hc
      · cases hc
        exact Collector.Kept.refl c
      · exact Collector.kept_addAll hc
    · cases h
  | loop name adds =>
    obtain ⟨c, hc, h⟩ := Option.bind_eq_some_iff.mp h
    split at h
    · obtain ⟨c', hc', rfl⟩ := Option.map_eq_some_iff.mp h
      refine ⟨fun other => ?_, List.Sublist.refl _, rfl, id⟩
      dsimp only
      rw [OrdMap.find?_insert]
      by_cases hname : other = name
      · rw [hname, hc, if_pos rfl]
        exact Option.Rel.some (Collector.kept_addAll hc')
      · rw [if_neg hname]
        cases s.mCollectors.find? other with
        | none => exact Option.Rel.none
        | some c => exact Option.Rel.some (Collector.Kept.refl c)
    · cases h

theorem quietStep_stop {s t : Collection J} (hnodup : s.mRunning.Nodup) (h : s.stop = some t) :
    QuietStep s t := by
  obtain ⟨collectors, hcollectors, rfl⟩ := Option.map_eq_some_iff.mp h
  refine ⟨?_, List.filter_sublist, rfl, id⟩
  refine rel_updateAll (fun name c c' hc => ?_) hnodup hcollectors
  obtain ⟨⟨valid, c''⟩, hhalt, rfl⟩ := Option.map_eq_some_iff.mp hc
  exact Collector.kept_halt hhalt

/-- `summarize()` leaves an average of the times. -/
theorem summarize_spec {s t : Collection J} (h : s.summarize = some t) :
    RelCollectors Collector.SameSetup s t ∧ t.mRunning = s.mRunning ∧
      ∃ time, t.mTimingSummarized = s.mTimingSummarized ++ [time] := by
  obtain ⟨collectors, hcollectors, h⟩ := Option.bind_eq_some_iff.mp h
  obtain ⟨time, -, h⟩ := Option.bind_eq_some_iff.mp h
  obtain ⟨custom, -, rfl⟩ := Option.map_eq_some_iff.mp h
  refine ⟨fun name => ?_, rfl, time, rfl⟩
  dsimp only
  have hfind := OrdMap.find?_mapM hcollectors name
  cases hs : s.mCollectors.find? name with
  | none =>
    rw [hfind, hs]
    exact Option.Rel.none
  | some c =>
    have hkey : name ∈ collectors.keys := by
      rw [OrdMap.keys_mapM hcollectors, OrdMap.mem_keys_iff, hs]
      rfl
    obtain ⟨c', hc'⟩ := Option.isSome_iff_exists.mp (OrdMap.mem_keys_iff.mp hkey)
    rw [hc']
    rw [hfind, hs, Option.bind_some] at hc'
    exact Option.Rel.some (Collector.setup_summarize hc')

/-! ## Histories -/

/-- No call of the history is `summarize()`. -/
def NoSummarize (history : List Op) : Prop := ∀ op ∈ history, op ≠ .summarize

/-- What a history leaves of the collection `s₀` it began with. -/
structure After (s₀ s : Collection J) : Prop where
  collectors : RelCollectors Collector.SameSetup s₀ s
  mRunning : s.mRunning.Sublist s₀.mRunning

/-- A collection that has no averages. -/
structure Unsummarized (s : Collection J) : Prop where
  times : s.mTimingSummarized = []
  customs : ∀ l ∈ s.mCustomSummarized, l = []
  collectors : ∀ name c, s.mCollectors.find? name = some c → c.Plain

theorem QuietStep.unsummarized {s t : Collection J} (h : QuietStep s t) (hs : s.Unsummarized) :
    t.Unsummarized := by
  refine ⟨h.mTimingSummarized.trans hs.times, h.mCustomSummarized hs.customs, fun name c' hc' => ?_⟩
  have hrel := h.collectors name
  rw [hc'] at hrel
  cases hc : s.mCollectors.find? name with
  | none =>
    rw [hc] at hrel
    cases hrel
  | some c =>
    rw [hc] at hrel
    cases hrel with
    | some hkept => exact hkept.plain (hs.collectors name c hc)

theorem quietStep_step {op : Op} {s t : Collection J} (hop : op ≠ .summarize)
    (hnodup : s.mRunning.Nodup) (h : s.step op = some t) : QuietStep s t := by
  cases op with
  | start headers now ok => exact quietStep_start hnodup h
  | sample x => exact quietStep_sample hnodup h
  | summarize => exact absurd rfl hop
  | stop => exact quietStep_stop hnodup h

theorem after_step {op : Op} {s t : Collection J} (hnodup : s.mRunning.Nodup)
    (h : s.step op = some t) : After s t := by
  by_cases hop : op = .summarize
  · subst hop
    obtain ⟨hrel, hrunning, -⟩ := summarize_spec h
    exact ⟨hrel, by rw [hrunning]⟩
  · have hquiet := quietStep_step hop hnodup h
    refine ⟨fun name => ?_, hquiet.mRunning⟩
    have hrel := hquiet.collectors name
    revert hrel
    generalize s.mCollectors.find? name = a
    generalize t.mCollectors.find? name = b
    intro hrel
    cases hrel with
    | none => exact Option.Rel.none
    | some hkept => exact Option.Rel.some hkept.setup

theorem After.trans {s t u : Collection J} (h : After s t) (h' : After t u) : After s u :=
  ⟨RelCollectors.trans (R := Collector.SameSetup) Collector.SameSetup.trans h.collectors
      h'.collectors,
    h'.mRunning.trans h.mRunning⟩

theorem after_run {history : List Op} {s t : Collection J} (hnodup : s.mRunning.Nodup)
    (h : run step s history = some t) : After s t := by
  have hrefl : After s s := by
    refine ⟨fun name => ?_, List.Sublist.refl _⟩
    cases s.mCollectors.find? name with
    | none => exact Option.Rel.none
    | some c => exact Option.Rel.some (Collector.SameSetup.refl c)
  have hstep : ∀ (a : Collection J) (op : Op) (b : Collection J),
      After s a → a.step op = some b → After s b := by
    intro a op b hafter hb
    exact hafter.trans (after_step (hnodup.sublist hafter.mRunning) hb)
  exact run_invariant hstep hrefl h

/-- Without `summarize()`, no averages appear. -/
theorem unsummarized_run {history : List Op} {s t : Collection J} (hnodup : s.mRunning.Nodup)
    (hs : s.Unsummarized) (hquiet : NoSummarize history) (h : run step s history = some t) :
    t.Unsummarized := by
  have hstep : ∀ op ∈ history, ∀ (a b : Collection J),
      a.mRunning.Nodup ∧ a.Unsummarized → a.step op = some b →
        b.mRunning.Nodup ∧ b.Unsummarized := by
    rintro op hop a b ⟨hnodup, ha⟩ hb
    have hq := quietStep_step (hquiet op hop) hnodup hb
    exact ⟨hnodup.sublist hq.mRunning, hq.unsummarized ha⟩
  exact (run_invariant_of_mem hstep ⟨hnodup, hs⟩ h).2

/-- The average of the times that a `summarize()` has left stays. -/
theorem times_of_summarize {history : List Op} {s t : Collection J} (hnodup : s.mRunning.Nodup)
    (hsum : ¬ NoSummarize history) (h : run step s history = some t) :
    t.mTimingSummarized ≠ [] := by
  have hstays : ∀ (a : Collection J) (op : Op) (b : Collection J),
      a.mRunning.Nodup ∧ a.mTimingSummarized ≠ [] → a.step op = some b →
        b.mRunning.Nodup ∧ b.mTimingSummarized ≠ [] := by
    rintro a op b ⟨hnodup, ha⟩ hb
    refine ⟨hnodup.sublist (after_step hnodup hb).mRunning, ?_⟩
    by_cases hop : op = .summarize
    · subst hop
      obtain ⟨-, -, time, htime⟩ := summarize_spec hb
      rw [htime]
      exact List.append_ne_nil_of_left_ne_nil ha _
    · rw [(quietStep_step hop hnodup hb).mTimingSummarized]
      exact ha
  induction history generalizing s with
  | nil => exact absurd (fun _ hop => absurd hop List.not_mem_nil) hsum
  | cons op history ih =>
    obtain ⟨s₁, hs₁, hrest⟩ := run_cons_eq_some.mp h
    have hnodup₁ := hnodup.sublist (after_step hnodup hs₁).mRunning
    by_cases hop : op = .summarize
    · subst hop
      obtain ⟨-, -, time, htime⟩ := summarize_spec hs₁
      have hne : s₁.mTimingSummarized ≠ [] := by
        rw [htime]
        exact List.append_ne_nil_of_right_ne_nil _ (List.cons_ne_nil _ _)
      exact (run_invariant hstays ⟨hnodup₁, hne⟩ hrest).2
    · refine ih hnodup₁ (fun hquiet => hsum fun op' hop' => ?_) hrest
      rcases List.mem_cons.mp hop' with rfl | hop'
      · exact hop
      · exact hquiet op' hop'

/-! ## Fresh collections -/

/-- A collection that has not been used since its collectors were initialised. -/
structure Fresh (s : Collection J) : Prop where
  nodup : s.mRunning.Nodup
  mTiming : s.mTiming = [] ∧ s.mTimingSummarized = []
  mCustom : s.mCustom = [] ∧ s.mCustomSummarized = [] ∧ s.mCustomHeaders = []
  collectors : ∀ name c, s.mCollectors.find? name = some c →
    c.mIsSummarized = false ∧ c.mResults = ∅ ∧ c.thread = false

theorem Fresh.unsummarized {s : Collection J} (h : s.Fresh) : s.Unsummarized := by
  refine ⟨h.mTiming.2, ?_, fun name c hc => ⟨(h.collectors name c hc).1, fun key => ?_⟩⟩
  · rw [h.mCustom.2.1]
    exact fun _ hl => absurd hl List.not_mem_nil
  · rw [Collector.summariesUnder, (h.collectors name c hc).2.1]
    rfl

end Collection

end LibCollector.Interface
