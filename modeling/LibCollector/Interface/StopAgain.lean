import LibCollector.Interface.RunIndependence
import LibCollector.Interface.Threading

/-!
# A collection that is stopped again

`Collection::stop` of `src/interface.cpp` joins the thread of every threaded collector that is
running, also if the collection has been stopped before. A collector whose results were not valid is
no longer running then. So a second `stop()` ends the process if a threaded collector had valid
results, and else it changes nothing (`stop_again`).
-/

namespace LibCollector.Interface

open LibCollector.Misc

variable {J : Type}

/-! ## Collectors -/

theorem Collector.mCollecting_halt {timing : List Int} {valid : Bool} {c c' : Collector J}
    (h : c.halt timing = some (valid, c')) : c'.mCollecting = false := by
  unfold Collector.halt at h
  split at h
  · cases h
  · rcases Collector.postprocess_cases h with ⟨-, rfl⟩ | ⟨-, -, -, results, -, rfl⟩ |
      ⟨-, -, rfl⟩ <;> rfl

/-- A collector that has been stopped and is not threaded is stopped again without effect. -/
theorem Collector.halt_again {timing : List Int} {c : Collector J}
    (hcollecting : c.mCollecting = false) (hthread : c.thread = false) :
    c.halt timing = if c.mIsThreaded then none else some (true, c) := by
  obtain ⟨threaded, sampleRate, summarized, collecting, thread, results, custom⟩ := c
  subst hcollecting hthread
  cases threaded <;>
    simp [Collector.halt, Collector.postprocess, Collector.postprocessBy]

/-! ## Collections -/

namespace Collection

/-- Only collectors that are running have threads that can be joined. -/
def ThreadsRun (s : Collection J) : Prop :=
  ∀ name c, s.mCollectors.find? name = some c → c.thread = true → name ∈ s.mRunning

/-- No thread can be joined. -/
def NoThreads (s : Collection J) : Prop :=
  ∀ name c, s.mCollectors.find? name = some c → c.thread = false

theorem threadsRun_start {headers : List Str} {now : Int} {ok : Str → Bool} {s t : Collection J}
    (hnodup : s.mRunning.Nodup) (hs : s.NoThreads) (h : s.start headers now ok = some t) :
    t.ThreadsRun := by
  obtain ⟨collectors, hcollectors, rfl⟩ := Option.map_eq_some_iff.mp h
  intro name c hc hthread
  dsimp only at hc ⊢
  by_contra hname
  rw [OrdMap.find?_updateAll hnodup hcollectors, if_neg hname] at hc
  rw [hs name c hc] at hthread
  cases hthread

theorem threadsRun_sample {x : Sampling} {s t : Collection J} (hnodup : s.mRunning.Nodup)
    (hs : s.ThreadsRun) (h : s.sample x = some t) : t.ThreadsRun := by
  cases x with
  | collect now custom adds =>
    obtain ⟨collectors, hcollectors, h⟩ := Option.bind_eq_some_iff.mp h
    split at h
    · cases h
      intro name c hc hthread
      dsimp only at hc ⊢
      by_contra hname
      rw [OrdMap.find?_updateAll hnodup hcollectors, if_neg hname] at hc
      exact hname (hs name c hc hthread)
    · cases h
  | loop other adds =>
    obtain ⟨d, hd, h⟩ := Option.bind_eq_some_iff.mp h
    split at h
    · obtain ⟨d', hd', rfl⟩ := Option.map_eq_some_iff.mp h
      intro name c hc hthread
      dsimp only at hc ⊢
      rw [OrdMap.find?_insert] at hc
      split at hc
      · rename_i hname
        cases hc
        rw [(Collector.grown_addAll hd').thread] at hthread
        exact hs name d (hname ▸ hd) hthread
      · exact hs name c hc hthread
    · cases h

theorem threadsRun_run {s t : Collection J} {xs : List Sampling} (hnodup : s.mRunning.Nodup)
    (hs : s.ThreadsRun) (h : run sample s xs = some t) : t.ThreadsRun := by
  have hstep : ∀ (a : Collection J) (x : Sampling) (b : Collection J),
      a.mRunning.Nodup ∧ a.ThreadsRun → a.sample x = some b → b.mRunning.Nodup ∧ b.ThreadsRun := by
    intro a x b ha hb
    exact ⟨ha.1.sublist (quietStep_sample ha.1 hb).mRunning, threadsRun_sample ha.1 ha.2 hb⟩
  exact (run_invariant hstep ⟨hnodup, hs⟩ h).2

/-- What a collector is after `stop()`. -/
structure Still (s : Collection J) : Prop where
  running : s.running = false
  nodup : s.mRunning.Nodup
  noThreads : s.NoThreads
  collectors : ∀ name ∈ s.mRunning, ∃ c, s.mCollectors.find? name = some c ∧
    c.mCollecting = false

theorem still_stop {s t : Collection J} (hnodup : s.mRunning.Nodup) (hs : s.ThreadsRun)
    (h : s.stop = some t) : t.Still := by
  obtain ⟨collectors, hcollectors, rfl⟩ := Option.map_eq_some_iff.mp h
  have hhalted : ∀ name ∈ s.mRunning, ∃ c, collectors.find? name = some c ∧
      c.mCollecting = false ∧ c.thread = false := by
    intro name hname
    obtain ⟨c, c', -, hc', hfind⟩ := OrdMap.exists_of_updateAll hnodup hcollectors hname
    obtain ⟨⟨valid, d⟩, hhalt, rfl⟩ := Option.map_eq_some_iff.mp hc'
    exact ⟨d, hfind, Collector.mCollecting_halt hhalt, (halt_thread hhalt).2⟩
  refine ⟨rfl, hnodup.filter _, fun name c hc => ?_, fun name hname => ?_⟩
  · dsimp only at hc
    by_cases hname : name ∈ s.mRunning
    · obtain ⟨c', hc', -, hthread⟩ := hhalted name hname
      rw [hc'] at hc
      cases hc
      exact hthread
    · rw [OrdMap.find?_updateAll hnodup hcollectors, if_neg hname] at hc
      exact eq_false_of_ne_true fun hthread => hname (hs name c hc hthread)
  · obtain ⟨c, hc, hcollecting, -⟩ := hhalted name (List.mem_of_mem_filter hname)
    exact ⟨c, hc, hcollecting⟩

theorem still_run {s t : Collection J} (hs : s.Fresh) {r : Run} (h : run step s r.ops = some t) :
    t.Still := by
  obtain ⟨s₁, s₂, hs₁, hs₂, hstop⟩ := run_ops_eq_some.mp h
  have hnodup₁ := hs.nodup.sublist (quietStep_start hs.nodup hs₁).mRunning
  have hnodup₂ := (sampled_run hs.nodup (sampled_start hs.nodup hs₁) hs₂).mRunning ▸ hs.nodup
  have hthreads := threadsRun_start hs.nodup (fun name c hc => (hs.collectors name c hc).2.2) hs₁
  exact still_stop hnodup₂ (threadsRun_run hnodup₁ hthreads hs₂) hstop

/-- To stop a collection a second time. -/
theorem stop_again {s : Collection J} (hs : s.Still) :
    s.stop = if ∃ name ∈ s.mRunning, s.threaded name = true then none else some s := by
  have hhalt : ∀ name ∈ s.mRunning, ∃ c, s.mCollectors.find? name = some c ∧
      c.halt s.mTiming = if s.threaded name then none else some (true, c) := by
    intro name hname
    obtain ⟨c, hc, hcollecting⟩ := hs.collectors name hname
    refine ⟨c, hc, ?_⟩
    rw [Collector.halt_again hcollecting (hs.noThreads name c hc), threaded, hc]
    rfl
  split
  · rename_i hthreaded
    obtain ⟨name, hname, hthreaded⟩ := hthreaded
    cases hstop : s.stop with
    | none => rfl
    | some t =>
      obtain ⟨collectors, hcollectors, -⟩ := Option.map_eq_some_iff.mp hstop
      obtain ⟨c, c', hc, hc', -⟩ := OrdMap.exists_of_updateAll hs.nodup hcollectors hname
      obtain ⟨d, hd, hnone⟩ := hhalt name hname
      rw [hc] at hd
      cases hd
      rw [hnone, if_pos hthreaded] at hc'
      cases hc'
  · rename_i hplain
    have hsame : ∀ name ∈ s.mRunning, ∃ c, s.mCollectors.find? name = some c ∧
        c.halt s.mTiming = some (true, c) := by
      intro name hname
      obtain ⟨c, hc, heq⟩ := hhalt name hname
      exact ⟨c, hc, by rw [heq, if_neg fun hthreaded => hplain ⟨name, hname, hthreaded⟩]⟩
    have hcollectors : s.mCollectors.updateAll
        (fun _ c => (c.halt s.mTiming).map Prod.snd) s.mRunning = some s.mCollectors := by
      apply OrdMap.updateAll_eq_self
      intro name hname
      obtain ⟨c, hc, heq⟩ := hsame name hname
      exact ⟨c, hc, by rw [heq]; rfl⟩
    have hrunning : (s.mRunning.filter fun name =>
        ((s.mCollectors.find? name).bind fun c => (c.halt s.mTiming).map Prod.fst) = some true) =
        s.mRunning := by
      rw [List.filter_eq_self]
      intro name hname
      obtain ⟨c, hc, heq⟩ := hsame name hname
      rw [hc, Option.bind_some, heq]
      rfl
    rw [stop, hcollectors, Option.map_some, hrunning]
    obtain ⟨⟩ := s
    have hflag := hs.running
    dsimp only at hflag
    subst hflag
    rfl

end Collection

end LibCollector.Interface
