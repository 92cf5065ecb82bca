import LibCollector.Interface.History
import Mathlib.Data.List.Range

/-!
# What one run records

A run is `start()`, a number of sampling steps and `stop()`. What it records is a
function of its inputs (`Run.intervals`, `Run.columns`, `Run.recorded`), and the
collection at its end holds that (`finished_run`), whatever came before.
-/

namespace LibCollector.Interface

open LibCollector.Misc

variable {J : Type}

/-! ## The record of a run -/

/-- What a sampling step adds to a collector. -/
def Sampling.added (threaded : Bool) (name : Str) : Sampling → List Added
  | .collect _ _ adds => if threaded then [] else adds name
  | .loop other adds => if other = name then adds else []

/-- The time after a sampling step. -/
def Sampling.after (now : Int) : Sampling → Int
  | .collect later _ _ => later
  | .loop _ _ => now

/-- The time between two calls, if the step is a call. -/
def Sampling.interval (now : Int) : Sampling → List Int
  | .collect later _ _ => [later - now]
  | .loop _ _ => []

/-- The custom values of a call. -/
def Sampling.row : Sampling → List (List Int)
  | .collect _ custom _ => [custom]
  | .loop _ _ => []

/-- The intervals between the calls, from `now` on. -/
def intervals (now : Int) : List Sampling → List Int
  | [] => []
  | x :: xs => x.interval now ++ intervals (x.after now) xs

/-- The time of the last call. -/
def lastTime (now : Int) (xs : List Sampling) : Int := xs.foldl Sampling.after now

/-- The custom values by header. -/
def columns (n : Nat) (xs : List Sampling) : List (List Int) :=
  (List.range n).map fun i => (xs.flatMap Sampling.row).map fun row => row.getD i 0

theorem intervals_concat (now : Int) (xs : List Sampling) (x : Sampling) :
    intervals now (xs ++ [x]) = intervals now xs ++ x.interval (lastTime now xs) := by
  induction xs generalizing now with
  | nil => simp [intervals, lastTime]
  | cons y xs ih =>
    rw [List.cons_append, intervals, ih, intervals, List.append_assoc]
    rfl

theorem columns_concat_row {n : Nat} {xs : List Sampling} {x : Sampling} {row : List Int}
    (hx : x.row = [row]) (hrow : row.length = n) :
    columns n (xs ++ [x]) = List.zipWith (fun values v => values ++ [v]) (columns n xs) row := by
  apply List.ext_getElem
  · simp [columns, hrow]
  · intro i hi hi'
    have hlt : i < row.length := by
      rw [List.length_zipWith, Nat.lt_min] at hi'
      exact hi'.2
    simp [columns, hx, List.getElem?_eq_getElem hlt]

theorem columns_concat_of_nil {n : Nat} {xs : List Sampling} {x : Sampling} (hx : x.row = []) :
    columns n (xs ++ [x]) = columns n xs := by
  simp [columns, hx]

/-- `start()`, sampling steps and `stop()`. -/
structure Run where
  headers : List Str
  now : Int
  ok : Str → Bool
  samplings : List Sampling

namespace Run

/-- The calls of the run. -/
def ops (r : Run) : List Op := .start r.headers r.now r.ok :: (r.samplings.map .sample ++ [.stop])

/-- The numbers that are added to a collector under a key. -/
def recorded (r : Run) (threaded : Bool) (name key : Str) : List Number :=
  valuesUnder key (r.samplings.flatMap (·.added threaded name))

/-- The time between the calls. -/
def intervals (r : Run) : List Int := Interface.intervals r.now r.samplings

/-- The custom values by header. -/
def columns (r : Run) : List (List Int) := Interface.columns r.headers.length r.samplings

end Run

/-! ## During the run -/

namespace Collection

/-- A collector during a run: launched, and grown by what the steps have added. -/
def Recording (xs : List Sampling) (name : Str) (c c' : Collector J) : Prop :=
  ∃ c₁, Collector.Launched c c₁ ∧
    Collector.Grown c₁ (xs.flatMap (·.added c.mIsThreaded name)) c'

/-- The collection `t` after `start()` and the steps `xs` of the run `r` of `s`. -/
structure Sampled (s : Collection J) (r : Run) (xs : List Sampling) (t : Collection J) : Prop where
  mRunning : t.mRunning = s.mRunning
  mCustomHeaders : t.mCustomHeaders = r.headers
  mTiming : t.mTiming = intervals r.now xs
  mPreviousTime : t.mPreviousTime = lastTime r.now xs
  mCustom : t.mCustom = columns r.headers.length xs
  mTimingSummarized : t.mTimingSummarized = s.mTimingSummarized
  mCustomSummarized : t.mCustomSummarized = resize s.mCustomSummarized r.headers.length
  collectors : ∀ name ∈ s.mRunning, ∃ c c', s.mCollectors.find? name = some c ∧
    t.mCollectors.find? name = some c' ∧ Recording xs name c c'

theorem sampled_start {s t : Collection J} {r : Run} (hnodup : s.mRunning.Nodup)
    (h : s.start r.headers r.now r.ok = some t) : Sampled s r [] t := by
  obtain ⟨collectors, hcollectors, rfl⟩ := Option.map_eq_some_iff.mp h
  refine ⟨rfl, rfl, rfl, rfl, ?_, rfl, rfl, fun name hname => ?_⟩
  · simp [columns, List.map_const']
  · obtain ⟨c, c', hc, hlaunch, hc'⟩ := OrdMap.exists_of_updateAll hnodup hcollectors hname
    exact ⟨c, c', hc, hc', c', Collector.launched_launch hlaunch, Collector.Grown.refl c'⟩

theorem recording_concat {xs : List Sampling} {x : Sampling} {name : Str} {c c' c'' : Collector J}
    (h : Recording xs name c c') (hx : Collector.Grown c' (x.added c.mIsThreaded name) c'') :
    Recording (xs ++ [x]) name c c'' := by
  obtain ⟨c₁, hlaunched, hgrown⟩ := h
  refine ⟨c₁, hlaunched, ?_⟩
  rw [List.flatMap_append, List.flatMap_singleton]
  exact hgrown.trans hx

theorem recording_threaded {xs : List Sampling} {name : Str} {c c' : Collector J}
    (h : Recording xs name c c') : c'.mIsThreaded = c.mIsThreaded := by
  obtain ⟨c₁, hlaunched, hgrown⟩ := h
  rw [hgrown.mIsThreaded, hlaunched.mIsThreaded]

theorem sampled_sample {s t u : Collection J} {r : Run} {xs : List Sampling} {x : Sampling}
    (hnodup : s.mRunning.Nodup) (inv : Sampled s r xs t) (h : t.sample x = some u) :
    Sampled s r (xs ++ [x]) u := by
  cases x with
  | collect now custom adds =>
    obtain ⟨collectors, hcollectors, h⟩ := Option.bind_eq_some_iff.mp h
    split at h
    · rename_i hlength
      cases h
      rw [inv.mCustomHeaders] at hlength
      refine ⟨inv.mRunning, inv.mCustomHeaders, ?_, ?_, ?_, inv.mTimingSummarized,
        inv.mCustomSummarized, fun name hname => ?_⟩
      · rw [intervals_concat, ← inv.mTiming, ← inv.mPreviousTime]
        rfl
      · simp [lastTime, Sampling.after]
      · rw [columns_concat_row rfl hlength, ← inv.mCustom]
      · obtain ⟨c, c', hc, hc', hrec⟩ := inv.collectors name hname
        rw [← inv.mRunning] at hnodup hname
        obtain ⟨d, d', hd, hcollect, hd'⟩ :=
          OrdMap.exists_of_updateAll hnodup hcollectors hname
        rw [hc'] at hd
        cases hd
        refine ⟨c, d', hc, hd', recording_concat hrec ?_⟩
        rw [recording_threaded hrec] at hcollect
        by_cases hthreaded : c.mIsThreaded = true
        · rw [if_pos hthreaded] at hcollect
          cases hcollect
          rw [Sampling.added, if_pos hthreaded]
          exact Collector.Grown.refl c'
        · rw [if_neg hthreaded] at hcollect
          rw [Sampling.added, if_neg hthreaded]
          exact Collector.grown_addAll hcollect
    · cases h
  | loop other adds =>
    obtain ⟨d, hd, h⟩ := Option.bind_eq_some_iff.mp h
    split at h
    · obtain ⟨d', hd', rfl⟩ := Option.map_eq_some_iff.mp h
      refine ⟨inv.mRunning, inv.mCustomHeaders, ?_, ?_, ?_, inv.mTimingSummarized,
        inv.mCustomSummarized, fun name hname => ?_⟩
      · rw [intervals_concat, Sampling.interval, List.append_nil]
        exact inv.mTiming
      · rw [lastTime, List.foldl_concat]
        exact inv.mPreviousTime
      · rw [columns_concat_of_nil rfl]
        exact inv.mCustom
      · obtain ⟨c, c', hc, hc', hrec⟩ := inv.collectors name hname
        dsimp only
        by_cases heq : name = other
        · subst heq
          rw [hc'] at hd
          cases hd
          refine ⟨c, d', hc, OrdMap.find?_insert_self _ _ _, recording_concat hrec ?_⟩
          rw [Sampling.added, if_pos rfl]
          exact Collector.grown_addAll hd'
        · refine ⟨c, c', hc, ?_, recording_concat hrec ?_⟩
          · rw [OrdMap.find?_insert_of_ne _ _ heq]
            exact hc'
          · rw [Sampling.added, if_neg (Ne.symm heq)]
            exact Collector.Grown.refl c'
    · cases h

theorem sampled_run {s t u : Collection J} {r : Run} {xs ys : List Sampling}
    (hnodup : s.mRunning.Nodup) (inv : Sampled s r xs t) (h : run sample t ys = some u) :
    Sampled s r (xs ++ ys) u := by
  induction ys generalizing xs t with
  | nil =>
    cases h
    rw [List.append_nil]
    exact inv
  | cons y ys ih =>
    obtain ⟨t₁, ht₁, hrest⟩ := run_cons_eq_some.mp h
    have hfinal := ih (sampled_sample hnodup inv ht₁) hrest
    rwa [List.append_assoc] at hfinal

/-! ## After the run -/

/-- A run does not summarize. -/
theorem noSummarize_ops (r : Run) : NoSummarize r.ops := by
  intro op hop
  rcases List.mem_cons.mp hop with rfl | hop
  · nofun
  · rcases List.mem_append.mp hop with hop | hop
    · obtain ⟨x, -, rfl⟩ := List.mem_map.mp hop
      nofun
    · rw [List.mem_singleton.mp hop]
      nofun

/-- The calls of a run, one part after the other. -/
theorem run_ops_eq_some {s t : Collection J} {r : Run} : run step s r.ops = some t ↔
    ∃ s₁ s₂, s.start r.headers r.now r.ok = some s₁ ∧ run sample s₁ r.samplings = some s₂ ∧
      s₂.stop = some t := by
  have hsamples : ∀ (xs : List Sampling) (a : Collection J),
      run step a (xs.map .sample) = run sample a xs := by
    intro xs
    induction xs with
    | nil => exact fun _ => rfl
    | cons x xs ih =>
      intro a
      rw [List.map_cons, run_cons, run_cons]
      exact congrArg _ (funext ih)
  constructor
  · intro h
    obtain ⟨s₁, hs₁, h⟩ := run_cons_eq_some.mp h
    obtain ⟨s₂, hs₂, hstop⟩ := run_concat_eq_some.mp h
    exact ⟨s₁, s₂, hs₁, hsamples r.samplings s₁ ▸ hs₂, hstop⟩
  · rintro ⟨s₁, s₂, hs₁, hs₂, hstop⟩
    exact run_cons_eq_some.mpr ⟨s₁, hs₁, run_concat_eq_some.mpr
      ⟨s₂, (hsamples r.samplings s₁).trans hs₂, hstop⟩⟩

/-- The collection `t` after the run `r` of `s`. -/
structure Finished (s : Collection J) (r : Run) (t : Collection J) : Prop where
  mCustomHeaders : t.mCustomHeaders = r.headers
  mTiming : t.mTiming = r.intervals
  mCustom : t.mCustom = r.columns
  mTimingSummarized : t.mTimingSummarized = s.mTimingSummarized
  mCustomSummarized : t.mCustomSummarized = resize s.mCustomSummarized r.headers.length
  mRunning : t.mRunning.Sublist s.mRunning
  collectors : ∀ name ∈ s.mRunning, ∃ c c' c'', s.mCollectors.find? name = some c ∧
    Recording r.samplings name c c' ∧ t.mCollectors.find? name = some c'' ∧
    ∃ valid, c'.halt r.intervals = some (valid, c'') ∧ (name ∈ t.mRunning ↔ valid = true)

theorem finished_run {s t : Collection J} {r : Run} (hnodup : s.mRunning.Nodup)
    (h : run step s r.ops = some t) : Finished s r t := by
  obtain ⟨s₁, s₂, hs₁, hs₂, hstop⟩ := run_ops_eq_some.mp h
  have hsampled := sampled_run hnodup (sampled_start hnodup hs₁) hs₂
  rw [List.nil_append] at hsampled
  obtain ⟨collectors, hcollectors, rfl⟩ := Option.map_eq_some_iff.mp hstop
  refine ⟨hsampled.mCustomHeaders, hsampled.mTiming, hsampled.mCustom, hsampled.mTimingSummarized,
    hsampled.mCustomSummarized, ?_, fun name hname => ?_⟩
  · rw [← hsampled.mRunning]
    exact List.filter_sublist
  · obtain ⟨c, c', hc, hc', hrec⟩ := hsampled.collectors name hname
    rw [← hsampled.mRunning] at hnodup hname
    obtain ⟨d, c'', hd, hd'', hc''⟩ := OrdMap.exists_of_updateAll hnodup hcollectors hname
    rw [hc'] at hd
    cases hd
    obtain ⟨⟨valid, c₂⟩, hhalt, rfl⟩ := Option.map_eq_some_iff.mp hd''
    have htiming : s₂.mTiming = r.intervals := hsampled.mTiming
    refine ⟨c, c', c₂, hc, hrec, hc'', valid, htiming ▸ hhalt, ?_⟩
    rw [List.mem_filter, decide_eq_true_iff, hc', Option.bind_some, hhalt, Option.map_some,
      Option.some_inj]
    exact ⟨And.right, fun hvalid => ⟨hname, hvalid⟩⟩

end Collection

end LibCollector.Interface
