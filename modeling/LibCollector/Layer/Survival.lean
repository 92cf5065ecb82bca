import LibCollector.Interface.Threading
import LibCollector.Layer.FrameCalls

/-!
# When the process survives the layer

The calls of the layer on the threads of its collection, for collectors with any `start()` and
`postprocess()`, each of which may return or end the process by an exception or a failed assertion.
`process_frame` calls `stop()` for every frame past the last one, and the second `stop()` joins the
thread of each threaded collector whose results the first one has found valid, which is gone. So the
process gets to the end of a device with a threaded collector only if there are few frames, or if
the sampling never begins, or if its results are of no use (`survives_iff`). The `collect()` calls
are taken to return.
-/

namespace LibCollector.Layer

open LibCollector.Interface LibCollector.Misc VkCollectorContext

/-! ## The calls -/

/-- What the `start()` of each collector gives, and its `stop()` and `postprocess()` in the `k`-th
    `stop()` of the collection. It is `none` where the process ends in it. -/
structure Outcomes where
  start : Str → Option Bool
  postprocess : Nat → Str → Option Bool

/-- A call on the collection, with what its collectors give. -/
inductive OutcomeCall where
  | start (ok : Str → Option Bool)
  | stop (valid : Str → Option Bool)

/-- The collectors that give `true`. -/
def succeeds (outcome : Str → Option Bool) (name : Str) : Bool := outcome name = some true

/-- None of the running collectors ends the process. -/
def Returns (outcome : Str → Option Bool) (s : ThreadState) : Prop :=
  ∀ name ∈ s.mRunning, (outcome name).isSome

instance (outcome : Str → Option Bool) (s : ThreadState) : Decidable (Returns outcome s) :=
  inferInstanceAs (Decidable (∀ name ∈ s.mRunning, (outcome name).isSome))

/-- A call; `none` is the end of the process. -/
def performCall (s : ThreadState) : OutcomeCall → Option ThreadState
  | .start ok => if Returns ok s then s.start (succeeds ok) else none
  | .stop valid => if Returns valid s then s.stop (succeeds valid) else none

/-- What the calls of the layer do to the threads. The next `stop()` has the number `k`. -/
def threadCalls (outcomes : Outcomes) : Nat → List CollectionCall → List OutcomeCall
  | _, [] => []
  | k, .start :: calls => .start outcomes.start :: threadCalls outcomes k calls
  | k, .collect :: calls => threadCalls outcomes k calls
  | k, .stop :: calls => .stop (outcomes.postprocess k) :: threadCalls outcomes (k + 1) calls
  | k, .results :: calls => threadCalls outcomes k calls

/-- All of the `start()` return, and those of the threaded collectors succeed. -/
structure Outcomes.Starts (outcomes : Outcomes) (s : ThreadState) : Prop where
  returns : Returns outcomes.start s
  launches : s.Launches ⟨succeeds outcomes.start, succeeds (outcomes.postprocess 0)⟩

/-- The collectors return in `m` calls of `stop()` from the `k`-th one on. A collector whose results
    are not valid is no longer running in the calls after that. -/
def StopsReturn (valid : Nat → Str → Option Bool) (names : List Str) (k m : Nat) : Prop :=
  ∀ i < m, ∀ name ∈ names, (∀ j < i, valid (k + j) name = some true) → (valid (k + i) name).isSome

section ThreadCalls

variable {outcomes : Outcomes}

/-- To read the results does nothing to the threads. -/
theorem threadCalls_filter (k : Nat) (calls : List CollectionCall) :
    threadCalls outcomes k (calls.filter (· ≠ .results)) = threadCalls outcomes k calls := by
  induction calls generalizing k with
  | nil => rfl
  | cons call calls ih =>
    cases call with
    | results => rw [List.filter_cons_of_neg (by decide), threadCalls, ih]
    | start => rw [List.filter_cons_of_pos (by decide), threadCalls, threadCalls, ih]
    | collect => rw [List.filter_cons_of_pos (by decide), threadCalls, threadCalls, ih]
    | stop => rw [List.filter_cons_of_pos (by decide), threadCalls, threadCalls, ih]

theorem threadCalls_collects (k m : Nat) (calls : List CollectionCall) :
    threadCalls outcomes k (List.replicate m .collect ++ calls) = threadCalls outcomes k calls := by
  induction m with
  | zero => rfl
  | succ m ih => rw [List.replicate_succ, List.cons_append, threadCalls, ih]

theorem threadCalls_stops (k m : Nat) :
    threadCalls outcomes k (List.replicate m .stop) =
      ((List.range' k m).map outcomes.postprocess).map .stop := by
  induction m generalizing k with
  | zero => rfl
  | succ m ih =>
    rw [List.replicate_succ, threadCalls, ih, List.range'_succ]
    rfl

end ThreadCalls

/-- The first of the calls, and those after it. -/
theorem stopsReturn_succ {valid : Nat → Str → Option Bool} {names : List Str} {k m : Nat} :
    StopsReturn valid names k (m + 1) ↔ (∀ name ∈ names, (valid k name).isSome) ∧
      StopsReturn valid (names.filter (succeeds (valid k))) (k + 1) m := by
  have hmem : ∀ name, name ∈ names.filter (succeeds (valid k)) ↔
      name ∈ names ∧ valid k name = some true := by simp [succeeds]
  have hshift : ∀ j, k + 1 + j = k + (j + 1) := fun j => by omega
  constructor
  · intro h
    refine ⟨fun name hname => h 0 (Nat.zero_lt_succ m) name hname fun j hj => absurd hj
      (Nat.not_lt_zero j), fun i hi name hname hbefore => ?_⟩
    obtain ⟨hold, hvalid⟩ := (hmem name).mp hname
    rw [hshift]
    refine h (i + 1) (Nat.succ_lt_succ hi) name hold fun j hj => ?_
    cases j with
    | zero => exact hvalid
    | succ j =>
      rw [← hshift]
      exact hbefore j (Nat.lt_of_succ_lt_succ hj)
  · rintro ⟨hfirst, hrest⟩ i hi name hname hbefore
    cases i with
    | zero => exact hfirst name hname
    | succ i =>
      rw [← hshift]
      refine hrest i (Nat.lt_of_succ_lt_succ hi) name
        ((hmem name).mpr ⟨hname, hbefore 0 (Nat.zero_lt_succ i)⟩) fun j hj => ?_
      rw [hshift]
      exact hbefore (j + 1) (Nat.succ_lt_succ hj)

/-! ## The number of stops -/

/-- The frames past the last one stop the collection, the first two of them for certain. -/
theorem calls_of_last_lt {config : LayerConfig} (hvalid : config.Valid) {n : Nat}
    (hF : config.last < config.frames n) :
    ∃ m k, (processFrame^[n] (new config)).calls =
        .start :: (List.replicate m .collect ++ List.replicate (k + 1) .stop) ∧
      (1 ≤ k ↔ config.last + 1 < config.frames n) := by
  induction n with
  | zero => simp [LayerConfig.frames] at hF
  | succ n ih =>
    have hstart := start_lt_last config
    by_cases hle : config.frames (n + 1) ≤ config.last + 2
    · have hinv := hvalid.frameInv hle
      refine ⟨sampledFrames config.start.toNatClampNeg config.stop.toNatClampNeg
        (config.frames (n + 1)), config.frames (n + 1) - config.last - 1, ?_, by omega⟩
      rw [hinv.calls, callsAfter, if_neg (Nat.not_le.mpr (Nat.lt_trans hstart hF))]
      have hcount : config.frames (n + 1) - config.last - 1 + 1 =
          config.frames (n + 1) - config.last := by
        omega
      rw [hcount]
    · have hnext := frames_succ config n
      obtain ⟨m, k, hcalls, hk⟩ := ih (by omega)
      have hone := hk.mpr (by omega)
      rw [Function.iterate_succ_apply']
      rcases (over_iterate hvalid (n := n) (by omega)).processFrame.2 with hsame | hstop
      · exact ⟨m, k, hsame.trans hcalls, by omega⟩
      · refine ⟨m, k + 1, ?_, by omega⟩
        rw [hstop, hcalls, List.replicate_succ' (n := k + 1)]
        simp

/-- The lifecycle of a device that is destroyed: once begun, the sampling is stopped. -/
theorem lifecycle_of_start_lt {config : LayerConfig} (hvalid : config.Valid) {n : Nat}
    (hF : config.start.toNatClampNeg < config.frames n) (fopens : Bool × Bool) :
    ∃ m k, (runFrames config n [fopens.1, fopens.2]).lifecycle =
        .start :: (List.replicate m .collect ++ List.replicate (k + 1) .stop) ∧
      (1 ≤ k ↔ config.last + 1 < config.frames n) := by
  have hlt := last_lt config
  by_cases hlast : config.last < config.frames n
  · obtain ⟨m, k, hcalls, hk⟩ := calls_of_last_lt hvalid hlast
    refine ⟨m, k, ?_, hk⟩
    have hover := over_iterate hvalid hlast
    rw [runFrames, (foldl_postprocessResults_finished hover.finished _).2, lifecycle, hcalls,
      List.filter_eq_self]
    intro call hcall
    simp only [List.mem_cons, List.mem_append, List.mem_replicate] at hcall
    rcases hcall with rfl | ⟨-, rfl⟩ | ⟨-, rfl⟩ <;> rfl
  · obtain ⟨-, hlife⟩ := runFrames_eq hvalid.subframes hvalid.start hvalid.stop n
      [fopens.1, fopens.2] (show config.frames n < 2 ^ 32 by omega)
    have hnone : config.frames n - config.last = 0 := by omega
    refine ⟨sampledFrames config.start.toNatClampNeg config.stop.toNatClampNeg
      (config.frames n), 0, ?_, by omega⟩
    rw [hlife, callsAfter, if_neg (Nat.not_le.mpr hF), if_pos ⟨hF, Nat.not_lt.mp hlast, by simp⟩]
    simp only [LayerConfig.frames, LayerConfig.last] at hnone
    rw [hnone]
    simp

/-! ## To stop settled threads -/

/-- A settled collection without a running threaded collector is stopped. -/
theorem stop_settled {s : ThreadState} (hs : s.Settled)
    (hplain : ∀ name ∈ s.mRunning, s.isThreaded name = false) (valid : Str → Bool) :
    ∃ t, s.stop valid = some t ∧ t.Settled ∧ t.isThreaded = s.isThreaded ∧
      t.mRunning = s.mRunning.filter valid := by
  have hthread : ∀ name ∈ s.mRunning, s.isThreaded name = true → (s.thread name).isSome := by
    intro name hname hthreaded
    rw [hplain name hname] at hthreaded
    cases hthreaded
  obtain ⟨u, hu, hsame, hjoined⟩ := ThreadState.run_stopOne hs.nodup hthread
  have htracked := run_invariant (fun _ _ _ => ThreadState.tracked_stopOne) hs.tracked hu
  refine ⟨{ u with mRunning := s.mRunning.filter valid }, ?_, ?_, hsame.isThreaded, rfl⟩
  · rw [ThreadState.stop, hu, Option.map_some]
  · refine ⟨hs.nodup.filter _, ⟨htracked.1, htracked.2, htracked.3, htracked.4, htracked.5⟩,
      fun name => ?_⟩
    rw [← Option.not_isSome_iff_eq_none, hjoined, hs.thread]
    simp

/-- Such a collection can be stopped as long as the collectors that are still running return. -/
theorem run_stops {s : ThreadState} (hs : s.Settled)
    (hplain : ∀ name ∈ s.mRunning, s.isThreaded name = false) (valid : Nat → Str → Option Bool)
    (k m : Nat) :
    (∃ t, run performCall s (((List.range' k m).map valid).map .stop) = some t) ↔
      StopsReturn valid s.mRunning k m := by
  induction m generalizing s k with
  | zero => exact iff_of_true ⟨s, rfl⟩ fun i hi => absurd hi (Nat.not_lt_zero i)
  | succ m ih =>
    rw [List.range'_succ, List.map_cons, List.map_cons, run_cons, performCall, stopsReturn_succ]
    by_cases hreturns : Returns (valid k) s
    · obtain ⟨t, ht, hsettled, hthreaded, hrunning⟩ := stop_settled hs hplain (succeeds (valid k))
      have hrest : ∀ name ∈ t.mRunning, t.isThreaded name = false := by
        intro name hname
        rw [hrunning] at hname
        rw [hthreaded]
        exact hplain name (List.mem_of_mem_filter hname)
      rw [if_pos hreturns, ht, Option.bind_some, ih hsettled hrest (k + 1), hrunning]
      exact (and_iff_right hreturns).symm
    · rw [if_neg hreturns, Option.bind_none]
      exact iff_of_false (by simp) fun h => hreturns h.1

/-- A settled collection with a running threaded collector cannot be stopped. -/
theorem performCall_stop_eq_none {s : ThreadState} (hs : s.Settled) {name : Str}
    (hname : name ∈ s.mRunning) (hthreaded : s.isThreaded name = true)
    (valid : Str → Option Bool) : performCall s (.stop valid) = none := by
  rw [performCall]
  split
  · rw [ThreadState.stop, ThreadState.run_stopOne_eq_none hname hthreaded (hs.thread name)]
    rfl
  · rfl

/-- `start()` and the first `stop()` after it. -/
theorem run_cycle {s : ThreadState} (hs : s.Settled) (ok valid : Str → Option Bool)
    (calls : List OutcomeCall) :
    run performCall s (.start ok :: .stop valid :: calls) =
      if Returns ok s ∧ Returns valid s then
        (s.cycle ⟨succeeds ok, succeeds valid⟩).bind fun t => run performCall t calls
      else none := by
  obtain ⟨t, ht, hsame, -⟩ := @ThreadState.start_spec (succeeds ok) s hs
  have hreturns : Returns valid t ↔ Returns valid s := by
    rw [Returns, Returns, hsame.mRunning]
  rw [run_cons, performCall]
  by_cases hok : Returns ok s
  · rw [if_pos hok, ht, Option.bind_some, run_cons, performCall, ThreadState.cycle, ht,
      Option.bind_some]
    by_cases hvalid : Returns valid s
    · rw [if_pos (hreturns.mpr hvalid), if_pos ⟨hok, hvalid⟩]
    · rw [if_neg (mt hreturns.mp hvalid), if_neg fun h => hvalid h.2, Option.bind_none]
  · rw [if_neg hok, if_neg fun h => hok h.1, Option.bind_none]

/-! ## Survival -/

/-- The process gets to the end of the device if the sampling does not begin. Else it does if every
    `start()` returns and every threaded collector starts, if at most one frame comes after the last
    one or the first `stop()` finds no valid results of a threaded collector, and if no `stop()`
    meets a collector that ends the process: one whose results have been valid in all the calls of
    `stop()` before. -/
theorem survives_iff {config : LayerConfig} (hvalid : config.Valid) {s : ThreadState}
    (hs : s.Idle) (n : Nat) (fopens : Bool × Bool) (outcomes : Outcomes) :
    (∃ t, run performCall s
        (threadCalls outcomes 0 (runFrames config n [fopens.1, fopens.2]).calls) = some t) ↔
      config.frames n ≤ config.start.toNatClampNeg ∨
        outcomes.Starts s ∧
        (config.frames n ≤ config.last + 1 ∨ ∀ name ∈ s.mRunning, s.isThreaded name = true →
          outcomes.postprocess 0 name ≠ some true) ∧
        StopsReturn outcomes.postprocess s.mRunning 0
          ((runFrames config n [fopens.1, fopens.2]).calls.count .stop) := by
  have hcount : (runFrames config n [fopens.1, fopens.2]).calls.count .stop =
      (runFrames config n [fopens.1, fopens.2]).lifecycle.count .stop :=
    (List.count_filter (by decide)).symm
  rw [← threadCalls_filter, hcount]
  by_cases hF : config.frames n ≤ config.start.toNatClampNeg
  · have hlt := last_lt config
    have hstart := start_lt_last config
    obtain ⟨-, hlife⟩ := runFrames_eq hvalid.subframes hvalid.start hvalid.stop n
      [fopens.1, fopens.2] (show config.frames n < 2 ^ 32 by omega)
    have hnone : (runFrames config n [fopens.1, fopens.2]).lifecycle = [] := by
      rw [hlife, callsAfter, if_pos hF, if_neg (fun h => absurd h.1 (Nat.not_lt.mpr hF))]
      rfl
    rw [lifecycle] at hnone
    rw [hnone]
    exact iff_of_true ⟨s, rfl⟩ (Or.inl hF)
  · obtain ⟨m, k, hlife, hk⟩ := lifecycle_of_start_lt hvalid (Nat.not_le.mp hF) fopens
    have hstops : (CollectionCall.start ::
        (List.replicate m .collect ++ List.replicate (k + 1) .stop)).count .stop = k + 1 := by
      simp [List.count_replicate]
    rw [hlife, hstops, stopsReturn_succ]
    rw [lifecycle] at hlife
    rw [hlife, threadCalls, threadCalls_collects, threadCalls_stops, List.range'_succ,
      List.map_cons, List.map_cons, run_cycle hs.settled, or_iff_right hF]
    by_cases hreturns : Returns outcomes.start s ∧ Returns (outcomes.postprocess 0) s
    · rw [if_pos hreturns]
      by_cases hlaunch : s.Launches ⟨succeeds outcomes.start, succeeds (outcomes.postprocess 0)⟩
      · obtain ⟨t, ht, hsettled, hthreaded, hrunning⟩ :=
          ThreadState.cycle_spec hs.settled hlaunch
        have hmem : ∀ name, name ∈ t.mRunning ↔
            name ∈ s.mRunning ∧ outcomes.postprocess 0 name = some true := by
          simp [hrunning, succeeds]
        rw [ht, Option.bind_some, and_iff_right (⟨hreturns.1, hlaunch⟩ : outcomes.Starts s),
          and_iff_right (show ∀ name ∈ s.mRunning, _ from hreturns.2), ← hrunning]
        by_cases hplain : ∀ name ∈ s.mRunning, s.isThreaded name = true →
            outcomes.postprocess 0 name ≠ some true
        · rw [and_iff_right (Or.inr hplain)]
          refine run_stops hsettled (fun name hname => ?_) outcomes.postprocess 1 k
          obtain ⟨hold, hfirst⟩ := (hmem name).mp hname
          rw [hthreaded]
          exact eq_false_of_ne_true fun hyes => hplain name hold hyes hfirst
        · rw [or_iff_left hplain]
          obtain ⟨name, hname, hyes, hres⟩ : ∃ name ∈ s.mRunning, s.isThreaded name = true ∧
              outcomes.postprocess 0 name = some true := by
            simpa using hplain
          cases k with
          | zero =>
            exact iff_of_true ⟨t, rfl⟩ ⟨by omega, fun i hi => absurd hi (Nat.not_lt_zero i)⟩
          | succ k =>
            refine iff_of_false ?_ (by omega)
            rintro ⟨u, hu⟩
            rw [List.range'_succ, List.map_cons, List.map_cons] at hu
            obtain ⟨v, hv, -⟩ := run_cons_eq_some.mp hu
            rw [performCall_stop_eq_none hsettled ((hmem name).mpr ⟨hname, hres⟩)
              (hthreaded ▸ hyes)] at hv
            cases hv
      · rw [ThreadState.cycle_eq_none hs.settled hlaunch]
        exact iff_of_false (by simp) fun h => hlaunch h.1.launches
    · rw [if_neg hreturns]
      exact iff_of_false (by simp) fun h => hreturns ⟨h.1.returns, h.2.2.1⟩

/-- A fourth frame with a threaded collector, when the third one is the last. -/
theorem not_survives_four_frames :
    let config : LayerConfig := ⟨some 1, some 0, some 2⟩
    let s : ThreadState := { mRunning := ["ferret".toList], isThreaded := fun _ => true }
    let outcomes : Outcomes := ⟨fun _ => some true, fun _ _ => some true⟩
    config.Valid ∧ s.Idle ∧ outcomes.Starts s ∧
    ¬ ∃ t, run performCall s (threadCalls outcomes 0 (runFrames config 4 [true, true]).calls) =
      some t := by
  have hvalid : LayerConfig.Valid ⟨some 1, some 0, some 2⟩ := ⟨by decide, by decide, by decide⟩
  have hidle : ThreadState.Idle
      { mRunning := ["ferret".toList], isThreaded := fun _ => true } :=
    ⟨List.nodup_singleton _, fun _ => rfl, rfl⟩
  refine ⟨hvalid, hidle, ⟨fun _ _ => rfl, fun _ _ _ => rfl⟩, fun h => ?_⟩
  rcases (survives_iff hvalid hidle 4 (true, true)
    ⟨fun _ => some true, fun _ _ => some true⟩).mp h with hF | ⟨-, hF | hplain, -⟩
  · exact absurd hF (by decide)
  · exact absurd hF (by decide)
  · exact hplain _ (List.mem_singleton_self _) rfl rfl

end LibCollector.Layer
