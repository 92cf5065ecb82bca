import LibCollector.Perf.Postprocess
import LibCollector.Perf.Scopes
import LibCollector.Perf.ThreadRun

/-!
# Runs of the perf collector

Complete runs, one after another, on a collector that is not initialised again (`runOnce`).
`clear` leaves the threads as they are, so the results are those of the run that has just
been made (`OfThisRun`) only if no earlier run has left anything in them (`Untouched`).
-/

namespace LibCollector.Perf

open LibCollector.Misc LibCollector.Interface

/-! ## Complete runs -/

/-- A call between `start` and `stop`. -/
inductive PerfCall where
  | collect (snaps : PerThread Snapshot) (clock : Nat → Int × Int)
  | scope (op : ScopeOp)

/-- The calls of a run, and the outcome of the `ioctl` of each thread at its end. -/
structure PerfRun where
  calls : List PerfCall
  stopped : PerThread Bool

namespace PerfCollector

/-- The collector after a call. -/
def callStep (s : PerfCollector) : PerfCall → Option PerfCollector
  | .collect snaps clock => (s.collect snaps clock).map Prod.snd
  | .scope op => s.scopeStep op

/-- `clear()`, a `start()` that succeeds, the calls, `stop()` and `postprocess()`. -/
def runOnce (s : PerfCollector) (r : PerfRun) : Option (PerfCollector × ThreadData) :=
  (run callStep (s.clear.start none).2 r.calls).bind fun s =>
    (s.stop r.stopped).bind fun s => s.postprocess.map fun data => (s, data)

/-- The collector after a complete run. -/
def runStep (s : PerfCollector) (r : PerfRun) : Option PerfCollector :=
  (s.runOnce r).map Prod.fst

end PerfCollector

/-! ## What happens to a thread -/

/-- What the counters of the threads read at the calls of `collect`. -/
def collects : List PerfCall → List (PerThread Snapshot)
  | [] => []
  | .collect snaps _ :: calls => snaps :: collects calls
  | .scope _ :: calls => collects calls

/-- The step of a replay thread at position `i` in a scope call, for the flags of the last start. -/
def scopeSteps (tid : Int) (i : Nat) (last : Int32) (op : ScopeOp) : List ThreadStep :=
  if ReachesReplay op.flags ∧ tid = op.tid then
    if op.stopping = false then [.start op.funcId (op.readings i)]
    else if last = op.flags then [.stop op.funcId (op.readings i)]
    else []
  else []

/-- The flags of the last start after a call. -/
def flagsAfter (last : Int32) : PerfCall → Int32
  | .collect _ _ => last
  | .scope op => if op.stopping then last else op.flags

/-- The steps of a replay thread at position `i` in a call, for the flags of the last start. -/
def callSteps (tid : Int) (i : Nat) (last : Int32) : PerfCall → List ThreadStep
  | .collect snaps _ => [.sample (snaps.replay i)]
  | .scope op => scopeSteps tid i last op

/-- Its steps in some calls, for the flags of the last start before them. -/
def replaySteps (tid : Int) (i : Nat) : Int32 → List PerfCall → List ThreadStep
  | _, [] => []
  | last, call :: calls =>
    callSteps tid i last call ++ replaySteps tid i (flagsAfter last call) calls

/-- The steps of another thread. -/
def sampleSteps (snap : PerThread Snapshot → Snapshot) (calls : List PerfCall) : List ThreadStep :=
  (collects calls).map fun snaps => .sample (snap snaps)

/-- The threads that are in a list after a call or some calls, each after its own steps. -/
def Stepped (steps : Nat → PerfThread → List ThreadStep) :
    List PerfThread → List PerfThread → Prop :=
  EachIdx fun i t t' => run PerfThread.step t (steps i t) = some t'

namespace PerfCollector

/-- The collector `s'` after the calls on `s`. -/
structure Ran (s : PerfCollector) (calls : List PerfCall) (s' : PerfCollector) : Prop where
  mCollecting : s'.mCollecting = true
  mAllThread : s'.mAllThread = s.mAllThread
  replay : Stepped (fun i t => replaySteps t.tid i s.lastCollectScopeFlags calls) s.mReplayThreads
    s'.mReplayThreads
  bg : Stepped (fun i _ => sampleSteps (fun snaps => snaps.bg i) calls) s.mBgThreads s'.mBgThreads
  booker : Stepped (fun i _ => sampleSteps (fun snaps => snaps.booker i) calls) s.mBookerThread
    s'.mBookerThread
  cspmu : Stepped (fun i _ => sampleSteps (fun snaps => snaps.cspmu i) calls) s.mCSPMUThreads
    s'.mCSPMUThreads

end PerfCollector

/-! ## What a run should report -/

namespace PerfCollector

/-- A collector whose threads have just been initialised. -/
structure Initialised (s : PerfCollector) : Prop where
  mCollecting : s.mCollecting = false
  mClocks : s.mClocks = ∅
  threads : ∀ t ∈ s.mReplayThreads ++ s.mBgThreads ++ s.mBookerThread ++ s.mCSPMUThreads, t.Clean

/-- The results are those of the run on the initialised collector `s`. The object of each thread has
    one value for each `collect` of the run, and the sums over the scopes of the run. -/
structure OfThisRun (s : PerfCollector) (r : PerfRun) (data : ThreadData) : Prop where
  alone : (s.runOnce r).map Prod.snd = some data
  replay : EachIdx (fun i t value => t.OfRun ((collects r.calls).map fun snaps => snaps.replay i)
      (scopesOf t.eventCtx.lastSnap (replaySteps t.tid i s.lastCollectScopeFlags r.calls))
      (r.stopped.replay i) value) s.mReplayThreads data.replay
  bg : ∀ objects bgValue allValue, data.background = some (objects, bgValue, allValue) →
    EachIdx (fun i t value => t.OfRun ((collects r.calls).map fun snaps => snaps.bg i) []
      (r.stopped.bg i) value) s.mBgThreads objects
  booker : EachIdx (fun i t value => t.OfRun ((collects r.calls).map fun snaps => snaps.booker i) []
      (r.stopped.booker i) value) s.mBookerThread data.booker
  cspmu : EachIdx (fun i t e => t.OfRun ((collects r.calls).map fun snaps => snaps.cspmu i) []
      (r.stopped.cspmu i) e.1) s.mCSPMUThreads data.cspmu

end PerfCollector

/-- Whether a scope is stopped before one is started. -/
def StopsFirst : List ThreadStep → Prop
  | [] => False
  | .sample _ :: steps => StopsFirst steps
  | .start _ _ :: _ => False
  | .stop _ _ :: _ => True

namespace PerfThread

/-- The thread after the start of a scope. -/
def reopen (funcId : UInt16) (snap : Snapshot) (t : PerfThread) : PerfThread :=
  { t with eventCtx := { t.eventCtx with lastSnapFuncId := funcId, lastSnap := snap } }

/-- Two threads that differ at most in a scope that was left open. -/
def SameButOpen (t t' : PerfThread) : Prop := ∃ funcId snap, t' = t.reopen funcId snap

/-- Two threads that make the same of some steps: a scope that was left open in one of them is of no
    account unless the steps stop one before they start one. -/
def AlikeFor (steps : List ThreadStep) (t t' : PerfThread) : Prop :=
  t.SameButOpen t' ∧ (StopsFirst steps → t' = t)

end PerfThread

namespace PerfCollector

/-- What two collectors have in common if no run has left anything in the threads of one that is not
    in those of the other, but for the difference `R` between two replay threads. -/
structure Untouched (R : Nat → PerfThread → PerfThread → Prop) (s s' : PerfCollector) : Prop where
  mCollecting : s'.mCollecting = s.mCollecting
  mAllThread : s'.mAllThread = s.mAllThread
  mClocks : ∀ device, (s'.mClocks.find? device).getD [] = (s.mClocks.find? device).getD []
  mReplayThreads : EachIdx R s.mReplayThreads s'.mReplayThreads
  mBgThreads : s'.mBgThreads = s.mBgThreads
  mBookerThread : s'.mBookerThread = s.mBookerThread
  mCSPMUThreads : s'.mCSPMUThreads = s.mCSPMUThreads

/-- The difference between two replay threads that does not matter to some calls. -/
def AlikeFor (last : Int32) (calls : List PerfCall) (i : Nat) (t t' : PerfThread) : Prop :=
  t.AlikeFor (replaySteps t.tid i last calls) t'

/-- The scopes that are stopped before any is started. -/
def earlyStops : List PerfCall → List ScopeOp
  | [] => []
  | .collect _ _ :: calls => earlyStops calls
  | .scope op :: calls => if op.stopping then op :: earlyStops calls else []

/-- Whether a scope call is one of a replay thread. -/
def Hits (s : PerfCollector) (op : ScopeOp) : Prop :=
  ReachesReplay op.flags ∧ ∃ t ∈ s.mReplayThreads, t.tid = op.tid

instance (s : PerfCollector) (op : ScopeOp) : Decidable (s.Hits op) :=
  inferInstanceAs (Decidable (_ ∧ _))

/-- A run on `s'` that finds the threads as they were initialised in `s`, and stops no scope that an
    earlier run has left open. -/
structure Begins (s s' : PerfCollector) (r : PerfRun) : Prop where
  untouched : s.Untouched (AlikeFor s.lastCollectScopeFlags r.calls) s'
  stops : ∀ op ∈ earlyStops r.calls, s.Hits op →
    (s'.lastCollectScopeFlags = op.flags ↔ s.lastCollectScopeFlags = op.flags)

/-! ## Steps of the threads -/

/-- A loop over the threads of all lists changes each of them on its own, and nothing else. -/
theorem each_updateThreads {α : Type} {f : α → PerfThread → Option PerfThread}
    {inputs : PerThread α} {s s' : PerfCollector} (h : s.updateThreads f inputs = some s') :
    s' = { s with
      mReplayThreads := s'.mReplayThreads
      mBgThreads := s'.mBgThreads
      mBookerThread := s'.mBookerThread
      mCSPMUThreads := s'.mCSPMUThreads } ∧
    EachIdx (fun i t t' => f (inputs.replay i) t = some t') s.mReplayThreads s'.mReplayThreads ∧
    EachIdx (fun i t t' => f (inputs.bg i) t = some t') s.mBgThreads s'.mBgThreads ∧
    EachIdx (fun i t t' => f (inputs.booker i) t = some t') s.mBookerThread s'.mBookerThread ∧
    EachIdx (fun i t t' => f (inputs.cspmu i) t = some t') s.mCSPMUThreads s'.mCSPMUThreads := by
  rcases Option.bind_eq_some_iff.mp h with ⟨replay, hreplay, h⟩
  rcases Option.bind_eq_some_iff.mp h with ⟨bg, hbg, h⟩
  rcases Option.bind_eq_some_iff.mp h with ⟨booker, hbooker, h⟩
  rcases Option.map_eq_some_iff.mp h with ⟨cspmu, hcspmu, rfl⟩
  exact ⟨rfl, EachIdx.of_mapM_zipIdx hreplay, EachIdx.of_mapM_zipIdx hbg,
    EachIdx.of_mapM_zipIdx hbooker, EachIdx.of_mapM_zipIdx hcspmu⟩

end PerfCollector

theorem run_step_singleton (t : PerfThread) (x : ThreadStep) :
    run PerfThread.step t [x] = t.step x := by
  simp

/-- A thread keeps its tid. -/
theorem tid_of_run {t t' : PerfThread} {steps : List ThreadStep}
    (h : run PerfThread.step t steps = some t') : t'.tid = t.tid :=
  (PerfThread.ran_run h).same.1

theorem Stepped.refl {steps : Nat → PerfThread → List ThreadStep} {threads : List PerfThread}
    (h : ∀ i t, steps i t = []) : Stepped steps threads threads := by
  apply EachIdx.refl
  intro i t _
  rw [h, run_nil]

theorem Stepped.trans {steps steps' steps'' : Nat → PerfThread → List ThreadStep}
    {a b c : List PerfThread} (hab : Stepped steps a b) (hbc : Stepped steps' b c)
    (h : ∀ i t t', t'.tid = t.tid → steps'' i t = steps i t ++ steps' i t') :
    Stepped steps'' a c := by
  apply EachIdx.trans hab hbc
  intro i t t' t'' _ hrun hrun'
  rw [h i t t' (tid_of_run hrun), run_append_eq_some]
  exact ⟨t', hrun, hrun'⟩

namespace PerfCollector

/-- The loop of a scope call over the replay threads. -/
theorem updateReplay_eq (flags : Int32) (tid : Int) (f : Nat → PerfThread → Option PerfThread)
    (threads : List PerfThread) :
    (if ReachesReplay flags then updateReplay tid f threads else some threads) =
      threads.zipIdx.mapM fun e =>
        if ReachesReplay flags ∧ e.1.tid = tid then f e.2 e.1 else some e.1 := by
  by_cases hreach : ReachesReplay flags
  · simp only [hreach, if_true, true_and]
    rfl
  · simp only [hreach, if_false, false_and]
    symm
    rw [mapM_eq_some_iff]
    apply List.ext_getElem?
    intro i
    simp only [List.getElem?_map, List.getElem?_zipIdx]
    cases threads[i]? <;> rfl

/-- A scope call changes the replay threads with its tid, and the flags of the last start. -/
theorem scopeStep_eq {s : PerfCollector} (op : ScopeOp) (hcollecting : s.mCollecting = true) :
    s.scopeStep op = (s.mReplayThreads.zipIdx.mapM fun e =>
        run PerfThread.step e.1 (scopeSteps e.1.tid e.2 s.lastCollectScopeFlags op)).map
      fun threads => { s with
        mReplayThreads := threads
        lastCollectScopeFlags := flagsAfter s.lastCollectScopeFlags (.scope op) } := by
  have hon : ¬ s.mCollecting = false := ne_false_of_eq_true hcollecting
  -- A thread that the loop changes makes the step of the call.
  have hloop : ∀ {x : Nat → ThreadStep},
      (∀ tid i, scopeSteps tid i s.lastCollectScopeFlags op =
        if ReachesReplay op.flags ∧ tid = op.tid then [x i] else []) →
      (if ReachesReplay op.flags then updateReplay op.tid (fun i t => t.step (x i)) s.mReplayThreads
        else some s.mReplayThreads) = s.mReplayThreads.zipIdx.mapM fun e =>
          run PerfThread.step e.1 (scopeSteps e.1.tid e.2 s.lastCollectScopeFlags op) := by
    intro x hx
    rw [updateReplay_eq]
    congr 1
    funext e
    rw [hx]
    split_ifs
    · rw [run_step_singleton]
    · rw [run_nil]
  rw [scopeStep, collectScope]
  cases hstop : op.stopping with
  | false =>
    have hsteps := hloop (x := fun i => .start op.funcId (op.readings i)) fun tid i => by
      rw [scopeSteps, if_pos hstop]
    rw [if_neg Bool.false_ne_true, collectScopeStart, if_neg hon, ← hsteps, flagsAfter, hstop,
      if_neg Bool.false_ne_true, Option.map_map]
    rfl
  | true =>
    have hnot : ¬ op.stopping = false := by simp [hstop]
    rw [if_pos rfl, collectScopeStop, if_neg hon, flagsAfter, if_pos hstop]
    by_cases hflags : s.lastCollectScopeFlags = op.flags
    · have hsteps := hloop (x := fun i => .stop op.funcId (op.readings i)) fun tid i => by
        rw [scopeSteps, if_neg hnot, if_pos hflags]
      rw [if_neg (not_not.mpr hflags), ← hsteps, Option.map_map]
      rfl
    · have hnone : (s.mReplayThreads.zipIdx.mapM fun e => run PerfThread.step e.1
          (scopeSteps e.1.tid e.2 s.lastCollectScopeFlags op)) = some s.mReplayThreads := by
        rw [mapM_eq_some_iff]
        apply List.ext_getElem?
        intro i
        simp only [List.getElem?_map, List.getElem?_zipIdx, scopeSteps, if_neg hnot,
          if_neg hflags, ite_self, run_nil]
        cases s.mReplayThreads[i]? <;> rfl
      rw [if_pos hflags, hnone]
      rfl

theorem scope_cases {s s' : PerfCollector} {op : ScopeOp} (hcollecting : s.mCollecting = true)
    (h : s.scopeStep op = some s') :
    s' = { s with
      mReplayThreads := s'.mReplayThreads
      lastCollectScopeFlags := flagsAfter s.lastCollectScopeFlags (.scope op) } ∧
    Stepped (fun i t => scopeSteps t.tid i s.lastCollectScopeFlags op) s.mReplayThreads
      s'.mReplayThreads := by
  rw [scopeStep_eq op hcollecting] at h
  rcases Option.map_eq_some_iff.mp h with ⟨threads, hthreads, rfl⟩
  exact ⟨rfl, EachIdx.of_mapM_zipIdx hthreads⟩

theorem sampleSteps_cons (snap : PerThread Snapshot → Snapshot) (call : PerfCall)
    (calls : List PerfCall) :
    sampleSteps snap (call :: calls) = sampleSteps snap [call] ++ sampleSteps snap calls := by
  cases call <;> rfl

/-- A call on a collector that collects. -/
theorem ran_call {s s' : PerfCollector} {call : PerfCall} (hcollecting : s.mCollecting = true)
    (h : s.callStep call = some s') :
    Ran s [call] s' ∧ s'.lastCollectScopeFlags = flagsAfter s.lastCollectScopeFlags call := by
  cases call with
  | collect snaps clock =>
    rcases Option.map_eq_some_iff.mp h with ⟨⟨ok, u⟩, hu, rfl⟩
    rw [collect, if_neg (ne_false_of_eq_true hcollecting)] at hu
    rcases Option.map_eq_some_iff.mp hu with ⟨t, ht, heq⟩
    cases heq
    rcases each_updateThreads ht with ⟨hframe, hreplay, hbg, hbooker, hcspmu⟩
    have hsample : ∀ {snap : Nat → Snapshot} {threads threads' : List PerfThread},
        EachIdx (fun i t t' => PerfThread.updateData (snap i) t = some t') threads threads' →
        Stepped (fun i _ => [.sample (snap i)]) threads threads' := by
      intro snap threads threads' heach
      apply heach.mono
      intro i t t' _ ht
      rw [run_step_singleton]
      exact ht
    refine ⟨⟨?_, ?_, hsample hreplay, hsample hbg, hsample hbooker, hsample hcspmu⟩, ?_⟩
    · rw [hframe]
      exact hcollecting
    · rw [hframe]
    · rw [hframe]
      rfl
  | scope op =>
    rcases scope_cases hcollecting h with ⟨hframe, hreplay⟩
    refine ⟨⟨?_, ?_, ?_, ?_, ?_, ?_⟩, ?_⟩
    · rw [hframe]
      exact hcollecting
    · rw [hframe]
    · simpa only [replaySteps, callSteps, List.append_nil] using hreplay
    · rw [hframe]
      exact Stepped.refl fun _ _ => rfl
    · rw [hframe]
      exact Stepped.refl fun _ _ => rfl
    · rw [hframe]
      exact Stepped.refl fun _ _ => rfl
    · rw [hframe]

/-- Any number of calls. -/
theorem ran_run {s s' : PerfCollector} {calls : List PerfCall} (hcollecting : s.mCollecting = true)
    (h : run callStep s calls = some s') : Ran s calls s' := by
  induction calls generalizing s with
  | nil =>
    cases h
    exact ⟨hcollecting, rfl, Stepped.refl fun _ _ => rfl, Stepped.refl fun _ _ => rfl,
      Stepped.refl fun _ _ => rfl, Stepped.refl fun _ _ => rfl⟩
  | cons call calls ih =>
    rcases run_cons_eq_some.mp h with ⟨next, hnext, hrest⟩
    rcases ran_call hcollecting hnext with ⟨hran, hflags⟩
    have hran' := ih hran.mCollecting hrest
    refine ⟨hran'.mCollecting, hran'.mAllThread.trans hran.mAllThread, ?_, ?_, ?_, ?_⟩
    · apply hran.replay.trans hran'.replay
      intro i t t' htid
      rw [htid, hflags, replaySteps, replaySteps, replaySteps, List.append_nil]
    · exact hran.bg.trans hran'.bg fun _ _ _ _ => sampleSteps_cons _ call calls
    · exact hran.booker.trans hran'.booker fun _ _ _ _ => sampleSteps_cons _ call calls
    · exact hran.cspmu.trans hran'.cspmu fun _ _ _ _ => sampleSteps_cons _ call calls

/-! ## The results of a run -/

theorem samplesOf_sampleSteps (snap : PerThread Snapshot → Snapshot) (calls : List PerfCall) :
    samplesOf (sampleSteps snap calls) = (collects calls).map snap := by
  rw [sampleSteps]
  induction collects calls with
  | nil => rfl
  | cons snaps rest ih => rw [List.map_cons, samplesOf, ih, List.map_cons]

theorem scopesOf_sampleSteps (last : Snapshot) (snap : PerThread Snapshot → Snapshot)
    (calls : List PerfCall) : scopesOf last (sampleSteps snap calls) = [] := by
  rw [sampleSteps]
  induction collects calls with
  | nil => rfl
  | cons snaps rest ih => rw [List.map_cons, scopesOf, ih]

theorem samplesOf_append (xs ys : List ThreadStep) :
    samplesOf (xs ++ ys) = samplesOf xs ++ samplesOf ys := by
  induction xs with
  | nil => rfl
  | cons x xs ih =>
    rw [List.cons_append, PerfThread.samplesOf_cons, ih, PerfThread.samplesOf_cons x xs,
      List.append_assoc]

/-- A replay thread is sampled once by every `collect`. -/
theorem samplesOf_replaySteps (tid : Int) (i : Nat) (last : Int32) (calls : List PerfCall) :
    samplesOf (replaySteps tid i last calls) =
      (collects calls).map fun snaps => snaps.replay i := by
  induction calls generalizing last with
  | nil => rfl
  | cons call calls ih =>
    rw [replaySteps, samplesOf_append, ih]
    cases call with
    | collect snaps clock => rfl
    | scope op =>
      have hnone : samplesOf (callSteps tid i last (.scope op)) = [] := by
        rw [callSteps, scopeSteps]
        split_ifs <;> rfl
      rw [hnone, collects]
      rfl

/-- The objects of threads that have made their steps and were stopped. -/
theorem each_ofRun {labels : PerfThread → List (Str × Str)} (hlabels : ∀ t, Labels (labels t))
    (hkeys : ∀ t, ∀ k ∈ (labels t).map Prod.fst, k ∈ ["CCthread".toList, "device".toList])
    {a b c : List PerfThread} (hclean : ∀ t ∈ a, t.Clean)
    {steps : Nat → PerfThread → List ThreadStep} (hsteps : Stepped steps a b)
    {stopped : Nat → Bool} (hstop : EachIdx (fun i t t' => t.stop (stopped i) = some t') b c)
    {β : Type} (value : β → Object) {objects : List β}
    (hobjects : EachIdx (fun _ t e => threadObject labels t = some (value e)) c objects) :
    EachIdx (fun i t e => t.OfRun (samplesOf (steps i t))
      (scopesOf t.eventCtx.lastSnap (steps i t)) (stopped i) (value e)) a objects := by
  have hstopped : EachIdx (fun i t t'' => ∃ t', run PerfThread.step t (steps i t) = some t' ∧
      t'.stop (stopped i) = some t'') a c :=
    EachIdx.trans hsteps hstop fun _ _ t' _ _ hrun ht => ⟨t', hrun, ht⟩
  apply hstopped.trans hobjects
  intro i t t'' e ht hex hvalue
  rcases hex with ⟨t', hrun, hend⟩
  apply PerfThread.ofRun (hclean t (List.mem_of_getElem? ht)) (PerfThread.ran_run hrun) hend
    (hlabels t'') (hkeys t'') hvalue

theorem keys_threadLabels (t : PerfThread) : ∀ k ∈ t.threadLabels.map Prod.fst,
    k ∈ ["CCthread".toList, "device".toList] := by
  intro k hk
  rw [PerfThread.threadLabels] at hk
  split_ifs at hk
  · exact hk
  · exact List.mem_cons.mpr (Or.inl (List.mem_singleton.mp hk))

/-- The collector after `clear` and `start`. -/
theorem started {s : PerfCollector} (h : s.mCollecting = false) :
    (s.clear.start none).2 = { s with
      mResults := s.mResults.mapVal fun _ l => l.clear
      mClocks := emplaceClocks s.mCSPMUThreads s.mClocks
      mCollecting := true } := by
  simp [clear, start, h]

/-- The results of a run on a collector that has just been initialised. -/
theorem ofThisRun_alone {s s' : PerfCollector} (h : s.Initialised) {r : PerfRun} {data : ThreadData}
    (hrun : s.runOnce r = some (s', data)) : s.OfThisRun r data := by
  have halone : (s.runOnce r).map Prod.snd = some data := by rw [hrun, Option.map_some]
  rcases Option.bind_eq_some_iff.mp hrun with ⟨u, hu, hrun⟩
  rcases Option.bind_eq_some_iff.mp hrun with ⟨v, hv, hrun⟩
  rcases Option.map_eq_some_iff.mp hrun with ⟨_, hdata, heq⟩
  cases heq
  rw [started h.mCollecting] at hu
  have hran := ran_run rfl hu
  rw [stop, if_neg (ne_false_of_eq_true hran.mCollecting)] at hv
  rcases Option.map_eq_some_iff.mp hv with ⟨w, hw, rfl⟩
  rcases each_updateThreads hw with ⟨-, hreplay, hbg, hbooker, hcspmu⟩
  rcases Option.bind_eq_some_iff.mp hdata with ⟨replay, hreplayObjects, hdata⟩
  rcases Option.bind_eq_some_iff.mp hdata with ⟨cspmu, hcspmuObjects, hdata⟩
  rcases Option.bind_eq_some_iff.mp hdata with ⟨booker, hbookerObjects, hdata⟩
  rcases Option.bind_eq_some_iff.mp hdata with ⟨value, -, hdata⟩
  rcases Option.map_eq_some_iff.mp hdata with ⟨background, hbackground, rfl⟩
  have hclean : ∀ t, t ∈ s.mReplayThreads ∨ t ∈ s.mBgThreads ∨ t ∈ s.mBookerThread ∨
      t ∈ s.mCSPMUThreads → t.Clean := by
    intro t ht
    apply h.threads
    simpa only [List.mem_append, or_assoc] using ht
  refine ⟨halone, ?_, fun objects bgValue allValue hobjects => ?_, ?_, ?_⟩
  · have heach := each_ofRun labels_threadLabels keys_threadLabels
      (fun t ht => hclean t (Or.inl ht)) hran.replay hreplay id (EachIdx.of_mapM hreplayObjects)
    simpa only [samplesOf_replaySteps, id_eq] using heach
  · have hsome : w.mAllThread = true := by
      by_contra hnot
      rw [if_neg hnot] at hbackground
      cases hbackground
      cases hobjects
    rw [if_pos hsome] at hbackground
    rcases Option.map_eq_some_iff.mp hbackground with ⟨bg, hbgObjects, heq⟩
    cases hobjects
    cases heq
    rcases Option.bind_eq_some_iff.mp hbgObjects with ⟨_, hmap, hrest⟩
    rcases Option.bind_eq_some_iff.mp hrest with ⟨_, -, hrest⟩
    rcases Option.map_eq_some_iff.mp hrest with ⟨_, -, heq⟩
    cases heq
    have heach := each_ofRun labels_threadLabels keys_threadLabels
      (fun t ht => hclean t (Or.inr (Or.inl ht))) hran.bg hbg id (EachIdx.of_mapM hmap)
    simpa only [samplesOf_sampleSteps, scopesOf_sampleSteps, id_eq] using heach
  · have heach := each_ofRun labels_labels (fun t k hk => List.mem_cons.mpr
      (Or.inl (List.mem_singleton.mp hk))) (fun t ht => hclean t (Or.inr (Or.inr (Or.inl ht))))
      hran.booker hbooker id (EachIdx.of_mapM hbookerObjects)
    simpa only [samplesOf_sampleSteps, scopesOf_sampleSteps, id_eq] using heach
  · have hobjects : EachIdx (fun _ t e => threadObject PerfThread.deviceLabels t = some e.1)
        w.mCSPMUThreads cspmu := by
      apply (EachIdx.of_mapM hcspmuObjects).mono
      intro i t e _ he
      rcases Option.map_eq_some_iff.mp he with ⟨value, hvalue, rfl⟩
      exact hvalue
    have heach := each_ofRun labels_deviceLabels (fun _ _ hk => hk)
      (fun t ht => hclean t (Or.inr (Or.inr (Or.inr ht)))) hran.cspmu hcspmu Prod.fst hobjects
    simpa only [samplesOf_sampleSteps, scopesOf_sampleSteps, id_eq] using heach

/-! ## Runs that begin alike -/

end PerfCollector

namespace PerfThread

theorem SameButOpen.refl (t : PerfThread) : t.SameButOpen t :=
  ⟨t.eventCtx.lastSnapFuncId, t.eventCtx.lastSnap, rfl⟩

theorem AlikeFor.refl (steps : List ThreadStep) (t : PerfThread) : t.AlikeFor steps t :=
  ⟨SameButOpen.refl t, fun _ => rfl⟩

theorem updateData_reopen (funcId : UInt16) (last snap : Snapshot) (t : PerfThread) :
    (t.reopen funcId last).updateData snap = (t.updateData snap).map (reopen funcId last) := by
  rw [updateData, updateData, Option.map_bind]
  simp only [Function.comp_def, Option.map_map]
  rfl

theorem stop_reopen (funcId : UInt16) (last : Snapshot) (stopped : Bool) (t : PerfThread) :
    (t.reopen funcId last).stop stopped = (t.stop stopped).map (reopen funcId last) := by
  cases stopped with
  | false => rfl
  | true =>
    rw [stop, stop, if_pos rfl, if_pos rfl, Option.map_bind]
    simp only [Function.comp_def, Option.map_map]
    rfl

theorem AlikeFor.step {t t' u' : PerfThread} {x : ThreadStep} {steps : List ThreadStep}
    (h : t.AlikeFor (x :: steps) t') (hu : t'.step x = some u') :
    ∃ u, t.step x = some u ∧ u.AlikeFor steps u' := by
  rcases h with ⟨⟨funcId, last, rfl⟩, hclosed⟩
  cases x with
  | sample snap =>
    by_cases hstops : StopsFirst steps
    · rw [hclosed hstops] at hu
      exact ⟨u', hu, AlikeFor.refl steps u'⟩
    · rw [PerfThread.step, updateData_reopen] at hu
      rcases Option.map_eq_some_iff.mp hu with ⟨u, hsampled, rfl⟩
      exact ⟨u, hsampled, ⟨funcId, last, rfl⟩, fun h => absurd h hstops⟩
  | start funcId' snap => exact ⟨u', hu, AlikeFor.refl steps u'⟩
  | stop funcId' snap =>
    rw [hclosed trivial] at hu
    exact ⟨u', hu, AlikeFor.refl steps u'⟩

theorem AlikeFor.run {t t' u' : PerfThread} {xs steps : List ThreadStep}
    (h : t.AlikeFor (xs ++ steps) t') (hu : Misc.run PerfThread.step t' xs = some u') :
    ∃ u, Misc.run PerfThread.step t xs = some u ∧ u.AlikeFor steps u' := by
  induction xs generalizing t t' with
  | nil =>
    cases hu
    exact ⟨t, rfl, h⟩
  | cons x xs ih =>
    rcases run_cons_eq_some.mp hu with ⟨next', hnext', hrest⟩
    rcases AlikeFor.step h hnext' with ⟨next, hnext, halike⟩
    rcases ih halike hrest with ⟨u, hu, hlast⟩
    exact ⟨u, run_cons_eq_some.mpr ⟨next, hnext, hu⟩, hlast⟩

theorem SameButOpen.tid {t t' : PerfThread} (h : t.SameButOpen t') : t'.tid = t.tid := by
  rcases h with ⟨funcId, snap, rfl⟩
  rfl

end PerfThread

namespace PerfCollector

variable {R S : Nat → PerfThread → PerfThread → Prop}

theorem Untouched.refl (hR : ∀ i t, R i t t) (s : PerfCollector) : s.Untouched R s :=
  ⟨rfl, rfl, fun _ => rfl, EachIdx.refl fun i t _ => hR i t, rfl, rfl, rfl⟩

theorem Untouched.mono {s s' : PerfCollector} (h : s.Untouched R s')
    (hRS : ∀ i t t', s.mReplayThreads[i]? = some t → R i t t' → S i t t') : s.Untouched S s' :=
  { h with mReplayThreads := h.mReplayThreads.mono hRS }

/-- A loop over the threads of all lists does the same in both collectors. -/
theorem Untouched.updateThreads {α : Type} {f : α → PerfThread → Option PerfThread}
    {inputs : PerThread α} {s s' t' : PerfCollector} (h : s.Untouched R s')
    (hf : ∀ i t t' u', R i t t' → f (inputs.replay i) t' = some u' →
      ∃ u, f (inputs.replay i) t = some u ∧ S i u u')
    (ht : s'.updateThreads f inputs = some t') :
    ∃ t, s.updateThreads f inputs = some t ∧ t.Untouched S t' ∧
      t.lastCollectScopeFlags = s.lastCollectScopeFlags ∧
      t'.lastCollectScopeFlags = s'.lastCollectScopeFlags := by
  rcases Option.bind_eq_some_iff.mp ht with ⟨replay', hreplay', ht⟩
  rcases Option.bind_eq_some_iff.mp ht with ⟨bg, hbg, ht⟩
  rcases Option.bind_eq_some_iff.mp ht with ⟨booker, hbooker, ht⟩
  rcases Option.map_eq_some_iff.mp ht with ⟨cspmu, hcspmu, rfl⟩
  rcases h.mReplayThreads.exists_mapM_zipIdx (f := fun e => f (inputs.replay e.2) e.1)
    (fun i t t' u' _ => hf i t t' u') hreplay' with ⟨replay, hreplay, heach⟩
  rw [h.mBgThreads] at hbg
  rw [h.mBookerThread] at hbooker
  rw [h.mCSPMUThreads] at hcspmu
  have hpass : updateEach f inputs.replay s.mReplayThreads = some replay := hreplay
  rw [PerfCollector.updateThreads, hpass, Option.bind_some, hbg, Option.bind_some, hbooker,
    Option.bind_some, hcspmu, Option.map_some]
  exact ⟨_, rfl, ⟨h.mCollecting, h.mAllThread, h.mClocks, heach, rfl, rfl, rfl⟩, rfl, rfl⟩

/-- New devices have no times. -/
theorem find?_emplaceClocks (threads : List PerfThread) (clocks : OrdMap Str (List (Int × Int)))
    (device : Str) : ((emplaceClocks threads clocks).find? device).getD [] =
      (clocks.find? device).getD [] := by
  rw [emplaceClocks]
  induction threads generalizing clocks with
  | nil => rfl
  | cons t threads ih =>
    rw [List.foldl_cons, ih]
    split_ifs with hsome
    · rfl
    · rw [OrdMap.find?_insert]
      split_ifs with heq
      · rw [heq, Option.not_isSome_iff_eq_none.mp hsome]
        rfl
      · rfl

/-- The same times are added to the same times. -/
theorem find?_pushClocks {clock : Nat → Int × Int} {threads : List PerfThread}
    {clocks clocks' : OrdMap Str (List (Int × Int))}
    (h : ∀ device, (clocks'.find? device).getD [] = (clocks.find? device).getD [])
    (device : Str) : ((pushClocks clock threads clocks').find? device).getD [] =
      ((pushClocks clock threads clocks).find? device).getD [] := by
  rw [pushClocks, pushClocks]
  induction threads.zipIdx generalizing clocks clocks' with
  | nil => exact h device
  | cons e es ih =>
    rw [List.foldl_cons, List.foldl_cons]
    apply ih
    intro other
    rw [h, OrdMap.find?_insert, OrdMap.find?_insert]
    split_ifs
    · rfl
    · exact h other

/-- The collectors that a run starts on. -/
theorem Untouched.started {s s' : PerfCollector} (h : s.Untouched R s')
    (hcollecting : s.mCollecting = false) :
    (s.clear.start none).2.Untouched R (s'.clear.start none).2 ∧
      (s.clear.start none).2.lastCollectScopeFlags = s.lastCollectScopeFlags ∧
      (s'.clear.start none).2.lastCollectScopeFlags = s'.lastCollectScopeFlags := by
  rw [PerfCollector.started hcollecting, PerfCollector.started (h.mCollecting.trans hcollecting)]
  refine ⟨⟨rfl, h.mAllThread, fun device => ?_, h.mReplayThreads, h.mBgThreads, h.mBookerThread,
    h.mCSPMUThreads⟩, rfl, rfl⟩
  rw [find?_emplaceClocks, find?_emplaceClocks, h.mClocks]

/-- The results depend only on the threads and their times, and not on a scope that was left
    open. -/
theorem Untouched.postprocess {s s' : PerfCollector}
    (h : s.Untouched (fun _ => PerfThread.SameButOpen) s') : s'.postprocess = s.postprocess := by
  have hclosed : s'.mReplayThreads.map (PerfThread.reopen 0 {}) =
      s.mReplayThreads.map (PerfThread.reopen 0 {}) := by
    apply EachIdx.map_eq
    apply h.mReplayThreads.mono
    rintro i t t' - ⟨funcId, snap, rfl⟩
    rfl
  have hreplay : s'.mReplayThreads.mapM (threadObject PerfThread.threadLabels) =
      s.mReplayThreads.mapM (threadObject PerfThread.threadLabels) := by
    have hmap : ∀ threads : List PerfThread,
        (threads.map (PerfThread.reopen 0 {})).mapM (threadObject PerfThread.threadLabels) =
          threads.mapM (threadObject PerfThread.threadLabels) := fun threads => List.mapM_map
    rw [← hmap, hclosed, hmap]
  have haggregate : ∀ value, aggregate s'.mainThreads value = aggregate s.mainThreads value := by
    have hmap : ∀ (threads : List PerfThread) (value : Object),
        (threads.map (PerfThread.reopen 0 {})).foldlM PerfThread.postprocess value =
          threads.foldlM PerfThread.postprocess value := fun threads value => List.foldlM_map
    intro value
    simp only [aggregate, mainThreads, List.foldlM_append, h.mCSPMUThreads, h.mBookerThread]
    rw [← hmap, hclosed, hmap]
  simp only [PerfCollector.postprocess, PerfCollector.background, hreplay, haggregate,
    h.mCSPMUThreads, h.mBookerThread, h.mBgThreads, h.mAllThread, h.mClocks]

/-- Where the flags agree, a scope call is the same steps. -/
theorem scopeSteps_congr {s s' : PerfCollector} {op : ScopeOp} {i : Nat} {t : PerfThread}
    (ht : t ∈ s.mReplayThreads)
    (hflags : op.stopping = true → s.Hits op →
      (s'.lastCollectScopeFlags = op.flags ↔ s.lastCollectScopeFlags = op.flags)) :
    scopeSteps t.tid i s'.lastCollectScopeFlags op =
      scopeSteps t.tid i s.lastCollectScopeFlags op := by
  rw [scopeSteps, scopeSteps]
  by_cases hown : ReachesReplay op.flags ∧ t.tid = op.tid
  · rw [if_pos hown, if_pos hown]
    cases hstop : op.stopping with
    | false => rfl
    | true => simp only [hflags hstop ⟨hown.1, t, ht, hown.2⟩]
  · rw [if_neg hown, if_neg hown]

/-- A call does the same in both collectors, if the flags agree where they matter. -/
theorem Untouched.callStep {s s' t' : PerfCollector} {call : PerfCall} {calls : List PerfCall}
    (h : s.Untouched (AlikeFor s.lastCollectScopeFlags (call :: calls)) s')
    (hcollecting : s.mCollecting = true)
    (hflags : ∀ op ∈ earlyStops [call], s.Hits op →
      (s'.lastCollectScopeFlags = op.flags ↔ s.lastCollectScopeFlags = op.flags))
    (ht : s'.callStep call = some t') :
    ∃ t, s.callStep call = some t ∧ t.Untouched (AlikeFor t.lastCollectScopeFlags calls) t' := by
  cases call with
  | collect snaps clock =>
    rcases Option.map_eq_some_iff.mp ht with ⟨⟨ok, u⟩, hu, rfl⟩
    rw [collect, if_neg (ne_false_of_eq_true (h.mCollecting.trans hcollecting))] at hu
    rcases Option.map_eq_some_iff.mp hu with ⟨w, hw, heq⟩
    cases heq
    have hsample : ∀ i t t' u', AlikeFor s.lastCollectScopeFlags (.collect snaps clock :: calls) i
        t t' → PerfThread.updateData (snaps.replay i) t' = some u' →
        ∃ u, PerfThread.updateData (snaps.replay i) t = some u ∧
          AlikeFor s.lastCollectScopeFlags calls i u u' := by
      intro i t t' u' halike hu'
      rcases PerfThread.AlikeFor.step (x := .sample (snaps.replay i)) halike hu' with
        ⟨u, hu, hafter⟩
      have htid := (PerfThread.ran_step (x := .sample (snaps.replay i)) hu).1.same.1
      refine ⟨u, hu, ?_⟩
      rw [AlikeFor, htid]
      exact hafter
    rcases h.updateThreads hsample hw with ⟨v, hv, hvw, hflagsAfter, -⟩
    rw [PerfCollector.callStep, collect, if_neg (ne_false_of_eq_true hcollecting), hv]
    refine ⟨_, rfl, hvw.mCollecting, hvw.mAllThread, ?_, ?_, hvw.mBgThreads, hvw.mBookerThread,
      hvw.mCSPMUThreads⟩
    · intro device
      dsimp only
      rw [hvw.mCSPMUThreads]
      exact find?_pushClocks hvw.mClocks device
    · dsimp only
      rw [hflagsAfter]
      exact hvw.mReplayThreads
  | scope op =>
    have hstops : op.stopping = true → s.Hits op →
        (s'.lastCollectScopeFlags = op.flags ↔ s.lastCollectScopeFlags = op.flags) := by
      intro hstop
      apply hflags op
      rw [earlyStops, if_pos hstop]
      exact List.mem_cons_self
    rw [PerfCollector.callStep, scopeStep_eq op (h.mCollecting.trans hcollecting)] at ht
    rcases Option.map_eq_some_iff.mp ht with ⟨threads', hthreads', rfl⟩
    rw [PerfCollector.callStep, scopeStep_eq op hcollecting]
    have hsteps : ∀ i t t' u', s.mReplayThreads[i]? = some t →
        AlikeFor s.lastCollectScopeFlags (.scope op :: calls) i t t' →
        run PerfThread.step t' (scopeSteps t'.tid i s'.lastCollectScopeFlags op) = some u' →
        ∃ u, run PerfThread.step t (scopeSteps t.tid i s.lastCollectScopeFlags op) = some u ∧
          AlikeFor (flagsAfter s.lastCollectScopeFlags (.scope op)) calls i u u' := by
      intro i t t' u' hmem halike hu'
      rw [halike.1.tid, scopeSteps_congr (List.mem_of_getElem? hmem) hstops] at hu'
      rcases PerfThread.AlikeFor.run halike hu' with ⟨u, hu, hafter⟩
      refine ⟨u, hu, ?_⟩
      rw [AlikeFor, tid_of_run hu]
      exact hafter
    rcases h.mReplayThreads.exists_mapM_zipIdx (f := fun e => run PerfThread.step e.1
      (scopeSteps e.1.tid e.2 s.lastCollectScopeFlags op)) hsteps hthreads' with
      ⟨threads, hthreads, heach⟩
    rw [hthreads, Option.map_some]
    exact ⟨_, rfl, h.mCollecting, h.mAllThread, h.mClocks, heach, h.mBgThreads, h.mBookerThread,
      h.mCSPMUThreads⟩

/-- The calls of a thread's list that are not hits stay so. -/
theorem hits_of_stepped {s t : PerfCollector} {steps : Nat → PerfThread → List ThreadStep}
    (h : Stepped steps s.mReplayThreads t.mReplayThreads) {op : ScopeOp} (hhits : t.Hits op) :
    s.Hits op := by
  rcases hhits with ⟨hreach, u, hu, htid⟩
  rcases List.getElem?_of_mem hu with ⟨i, hi⟩
  have hlt : i < s.mReplayThreads.length := by
    rw [← h.1]
    exact (List.getElem?_eq_some_iff.mp hi).1
  rcases h.2 i _ (List.getElem?_eq_getElem hlt) with ⟨u', hu', hrun⟩
  rw [hi] at hu'
  cases hu'
  exact ⟨hreach, _, List.getElem_mem hlt, (tid_of_run hrun).symm.trans htid⟩

/-- Any number of calls. -/
theorem Untouched.runCalls {s s' t' : PerfCollector} {calls : List PerfCall}
    (h : s.Untouched (AlikeFor s.lastCollectScopeFlags calls) s')
    (hcollecting : s.mCollecting = true)
    (hflags : ∀ op ∈ earlyStops calls, s.Hits op →
      (s'.lastCollectScopeFlags = op.flags ↔ s.lastCollectScopeFlags = op.flags))
    (ht : run PerfCollector.callStep s' calls = some t') :
    ∃ t, run PerfCollector.callStep s calls = some t ∧
      t.Untouched (fun _ => PerfThread.SameButOpen) t' := by
  induction calls generalizing s s' with
  | nil =>
    cases ht
    exact ⟨s, rfl, h.mono fun _ _ _ _ halike => halike.1⟩
  | cons call calls ih =>
    rcases run_cons_eq_some.mp ht with ⟨u', hu', hrest⟩
    have hfirst : ∀ op ∈ earlyStops [call], s.Hits op →
        (s'.lastCollectScopeFlags = op.flags ↔ s.lastCollectScopeFlags = op.flags) := by
      intro op hop
      apply hflags op
      cases call with
      | collect snaps clock => cases hop
      | scope other =>
        rw [earlyStops] at hop ⊢
        split_ifs at hop ⊢
        · rw [List.mem_singleton.mp hop]
          exact List.mem_cons_self
        · cases hop
    rcases h.callStep hcollecting hfirst hu' with ⟨u, hu, huntouched⟩
    rcases ran_call hcollecting hu with ⟨hran, hflagsAfter⟩
    rcases ran_call (h.mCollecting.trans hcollecting) hu' with ⟨-, hflagsAfter'⟩
    -- After a start, the flags are the same; before one, the stops are those of all calls.
    have hlater : ∀ op ∈ earlyStops calls, u.Hits op →
        (u'.lastCollectScopeFlags = op.flags ↔ u.lastCollectScopeFlags = op.flags) := by
      intro op hop hhits
      rw [hflagsAfter, hflagsAfter']
      have hhits' := hits_of_stepped hran.replay hhits
      cases call with
      | collect snaps clock => exact hflags op hop hhits'
      | scope other =>
        rw [flagsAfter, flagsAfter]
        split_ifs with hstop
        · apply hflags op _ hhits'
          rw [earlyStops, if_pos hstop]
          exact List.mem_cons_of_mem _ hop
        · rfl
    rcases ih huntouched hran.mCollecting hlater hrest with ⟨t, ht, htt'⟩
    exact ⟨t, run_cons_eq_some.mpr ⟨u, hu, ht⟩, htt'⟩

/-- A run that begins like one on an initialised collector has the same results. -/
theorem alone_of_begins {s s' t' : PerfCollector} {r : PerfRun} {data : ThreadData}
    (hcollecting : s.mCollecting = false) (h : s.Begins s' r)
    (hrun : s'.runOnce r = some (t', data)) : ∃ t, s.runOnce r = some (t, data) := by
  rcases Option.bind_eq_some_iff.mp hrun with ⟨u', hu', hrun⟩
  rcases Option.bind_eq_some_iff.mp hrun with ⟨v', hv', hrun⟩
  rcases Option.map_eq_some_iff.mp hrun with ⟨_, hdata, heq⟩
  cases heq
  rcases h.untouched.started hcollecting with ⟨hstarted, hflags, hflags'⟩
  rw [← hflags] at hstarted
  have hon : (s.clear.start none).2.mCollecting = true := by rw [started hcollecting]
  have hthreads : (s.clear.start none).2.mReplayThreads = s.mReplayThreads := by
    rw [started hcollecting]
  have hstops : ∀ op ∈ earlyStops r.calls, (s.clear.start none).2.Hits op →
      ((s'.clear.start none).2.lastCollectScopeFlags = op.flags ↔
        (s.clear.start none).2.lastCollectScopeFlags = op.flags) := by
    rw [hflags, hflags']
    intro op hop hhits
    rw [Hits, hthreads] at hhits
    exact h.stops op hop hhits
  rcases hstarted.runCalls hon hstops hu' with ⟨u, hu, huu'⟩
  have hcollecting' := (ran_run hon hu).mCollecting
  rw [stop, if_neg (ne_false_of_eq_true (huu'.mCollecting.trans hcollecting'))] at hv'
  rcases Option.map_eq_some_iff.mp hv' with ⟨w', hw', rfl⟩
  have hends : ∀ i t t' u', t.SameButOpen t' → PerfThread.stop (r.stopped.replay i) t' = some u' →
      ∃ u, PerfThread.stop (r.stopped.replay i) t = some u ∧ u.SameButOpen u' := by
    rintro i t t' u' ⟨funcId, snap, rfl⟩ hu'
    rw [PerfThread.stop_reopen] at hu'
    rcases Option.map_eq_some_iff.mp hu' with ⟨u, hu, rfl⟩
    exact ⟨u, hu, funcId, snap, rfl⟩
  rcases huu'.updateThreads hends hw' with ⟨w, hw, hww', -⟩
  have hend : PerfCollector.Untouched (fun _ => PerfThread.SameButOpen)
      { w with mCollecting := false } { w' with mCollecting := false } :=
    ⟨rfl, hww'.mAllThread, hww'.mClocks, hww'.mReplayThreads, hww'.mBgThreads, hww'.mBookerThread,
      hww'.mCSPMUThreads⟩
  rw [hend.postprocess] at hdata
  rw [runOnce, hu, Option.bind_some, stop, if_neg (ne_false_of_eq_true hcollecting'), hw,
    Option.map_some, Option.bind_some, hdata, Option.map_some]
  exact ⟨_, rfl⟩

/-! ## Idle runs -/

/-- A run without `collect` that stops no scope of a replay thread. -/
def Idle (s : PerfCollector) (r : PerfRun) : Prop :=
  ∀ call ∈ r.calls, ∃ op, call = .scope op ∧ (op.stopping = true → ¬ s.Hits op)

/-- A scope call that does not stop one of a replay thread leaves at most a scope open. -/
theorem Untouched.scope_idle {s s' t' : PerfCollector} {op : ScopeOp}
    (h : s.Untouched (fun _ => PerfThread.SameButOpen) s') (hcollecting : s.mCollecting = true)
    (hop : op.stopping = true → ¬ s.Hits op) (ht : s'.scopeStep op = some t') :
    s.Untouched (fun _ => PerfThread.SameButOpen) t' := by
  rcases scope_cases (h.mCollecting.trans hcollecting) ht with ⟨hframe, hreplay⟩
  rw [hframe]
  refine ⟨h.mCollecting, h.mAllThread, h.mClocks, ?_, h.mBgThreads, h.mBookerThread,
    h.mCSPMUThreads⟩
  apply h.mReplayThreads.trans hreplay
  rintro i t - u' hmem ⟨funcId, snap, rfl⟩ hrun
  change run PerfThread.step (t.reopen funcId snap)
    (scopeSteps t.tid i s'.lastCollectScopeFlags op) = some u' at hrun
  by_cases hown : ReachesReplay op.flags ∧ t.tid = op.tid
  · have hstart : op.stopping = false := by
      by_contra hstop
      exact hop (by simpa using hstop) ⟨hown.1, t, List.mem_of_getElem? hmem, hown.2⟩
    rw [scopeSteps, if_pos hown, if_pos hstart, run_step_singleton, PerfThread.step,
      PerfThread.startScope_eq] at hrun
    exact ⟨op.funcId, op.readings i, (Option.some_inj.mp hrun).symm⟩
  · rw [scopeSteps, if_neg hown, run_nil] at hrun
    exact ⟨funcId, snap, (Option.some_inj.mp hrun).symm⟩

/-- A thread that holds nothing has nothing to add at the end of a run. -/
theorem stop_of_clean {t t' : PerfThread} (h : t.Clean) {stopped : Bool}
    (hstop : t.stop stopped = some t') : t = t' := by
  have hcounts : t.eventCtx.countAdds = [] := by
    simp [EventContext.countAdds, h.unused.scopeNumCalls, h.unused.scopeNumWithPerf]
  have hadds : t.eventCtx.stopAdds = some [] := by
    simp [EventContext.stopAdds, EventContext.sumAdds, hcounts, h.mValueResults]
  cases stopped with
  | false => exact Option.some_inj.mp hstop
  | true =>
    rw [PerfThread.stop, if_pos rfl, hadds] at hstop
    exact Option.some_inj.mp hstop

/-- An idle run leaves nothing in the threads but a scope that is open. -/
theorem Untouched.runStep_idle {s s' t' : PerfCollector} {r : PerfRun} (hs : s.Initialised)
    (h : s.Untouched (fun _ => PerfThread.SameButOpen) s') (hidle : s.Idle r)
    (hrun : s'.runStep r = some t') : s.Untouched (fun _ => PerfThread.SameButOpen) t' := by
  rcases Option.map_eq_some_iff.mp hrun with ⟨⟨v', data⟩, honce, rfl⟩
  rcases Option.bind_eq_some_iff.mp honce with ⟨u', hu', honce⟩
  rcases Option.bind_eq_some_iff.mp honce with ⟨w', hw', honce⟩
  rcases Option.map_eq_some_iff.mp honce with ⟨_, -, heq⟩
  cases heq
  have hstarted := PerfCollector.started hs.mCollecting
  have hkept : (s.clear.start none).2.Untouched (fun _ => PerfThread.SameButOpen) u' := by
    apply run_invariant_of_mem
      (I := (s.clear.start none).2.Untouched fun _ => PerfThread.SameButOpen) _
      (h.started hs.mCollecting).1 hu'
    intro call hcall a b ha hb
    rcases hidle call hcall with ⟨op, rfl, hop⟩
    apply ha.scope_idle _ _ hb
    · rw [hstarted]
    · rw [Hits, hstarted]
      exact hop
  have hon : ¬ u'.mCollecting = false := by
    rw [hkept.mCollecting, hstarted]
    exact nofun
  rw [stop, if_neg hon] at hw'
  rcases Option.map_eq_some_iff.mp hw' with ⟨w, hw, rfl⟩
  rcases each_updateThreads hw with ⟨hframe, hreplay, hbg, hbooker, hcspmu⟩
  have hsame : ∀ {threads threads' : List PerfThread} {stopped : Nat → Bool},
      (∀ t ∈ threads, t.Clean) →
      EachIdx (fun i t t' => PerfThread.stop (stopped i) t = some t') threads threads' →
      threads' = threads := by
    intro threads threads' stopped hclean heach
    have heq : EachIdx (fun _ t t' => t = t') threads threads' :=
      heach.mono fun i t t' ht => stop_of_clean (hclean t (List.mem_of_getElem? ht))
    exact heq.eq
  have hthreads := hs.threads
  simp only [List.mem_append] at hthreads
  rw [hstarted] at hkept
  refine ⟨hs.mCollecting.symm, ?_, fun device => ?_, ?_, ?_, ?_, ?_⟩
  · rw [hframe]
    exact hkept.mAllThread
  · rw [hframe]
    exact (hkept.mClocks device).trans (find?_emplaceClocks _ _ device)
  · apply hkept.mReplayThreads.trans hreplay
    rintro i t - v' hmem ⟨funcId, snap, rfl⟩ hv'
    rw [PerfThread.stop_reopen] at hv'
    rcases Option.map_eq_some_iff.mp hv' with ⟨v, hv, rfl⟩
    have hclean := hthreads t (Or.inl (Or.inl (Or.inl (List.mem_of_getElem? hmem))))
    rw [← stop_of_clean hclean hv]
    exact ⟨funcId, snap, rfl⟩
  · rw [hkept.mBgThreads] at hbg
    exact hsame (fun t ht => hthreads t (Or.inl (Or.inl (Or.inr ht)))) hbg
  · rw [hkept.mBookerThread] at hbooker
    exact hsame (fun t ht => hthreads t (Or.inl (Or.inr ht))) hbooker
  · rw [hkept.mCSPMUThreads] at hcspmu
    exact hsame (fun t ht => hthreads t (Or.inr ht)) hcspmu

/-! ## Any number of runs -/

/-- In every sequence of runs that each find the threads as they were initialised, the results after
    each run are those of that run. -/
theorem ofThisRun_of_stepsMeet {s : PerfCollector} (h : s.Initialised) {runs : List PerfRun}
    (hmeet : StepsMeet runStep s.Begins s runs) :
    EachSplit (fun pre r => ∀ t t' data, run runStep s pre = some t →
      t.runOnce r = some (t', data) →
      s.OfThisRun r data) runs := by
  intro pre r post heq t t' data ht hrun
  have hbegins := stepsMeet_iff.mp hmeet pre r post heq t ht
  rcases alone_of_begins h.mCollecting hbegins hrun with ⟨u, hu⟩
  exact ofThisRun_alone h hu

/-- A collector with one replay thread that has one counter. -/
def oneThread : PerfCollector where
  mReplayThreads := [{ tid := 1, name := "patrace-1".toList, deviceName := "single".toList
                       eventCtx := .cycles }]
  mAllThread := false

/-- A run in which the counter reads 5 at one `collect`. -/
def sampleRun : PerfRun where
  calls :=
    let snap := EventContext.cyclesSnapshot 5
    [.collect ⟨fun _ => snap, fun _ => snap, fun _ => snap, fun _ => snap⟩ fun _ => (0, 0)]
  stopped := ⟨fun _ => true, fun _ => true, fun _ => true, fun _ => true⟩

/-- A run that starts a scope and does not stop it. -/
def openRun : PerfRun where
  calls := [.scope (scopeOp false 1 1)]
  stopped := sampleRun.stopped

theorem initialised_oneThread : oneThread.Initialised := by
  refine ⟨rfl, rfl, fun t ht => ?_⟩
  rw [List.mem_singleton.mp ht]
  exact ⟨EventContext.unused_cycles, rfl, rfl, by decide, by decide⟩

/-- A scope is open when the second run begins, and nothing has been sampled. -/
theorem ofThisRun_open_run :
    EachSplit (fun pre r => ∀ t t' data, run runStep oneThread pre = some t →
      t.runOnce r = some (t', data) → oneThread.OfThisRun r data) [openRun, sampleRun] := by
  apply ofThisRun_of_stepsMeet initialised_oneThread
  have halike : ∀ (last : Int32) (calls : List PerfCall) (i : Nat) (t : PerfThread),
      AlikeFor last calls i t t := fun _ _ _ t => PerfThread.AlikeFor.refl _ t
  have hopen := Untouched.refl (R := fun _ => PerfThread.SameButOpen)
    (fun _ t => PerfThread.SameButOpen.refl t) oneThread
  refine ⟨⟨Untouched.refl (halike _ _) _, nofun⟩, fun t ht => ⟨⟨?_, nofun⟩, fun _ _ => trivial⟩⟩
  have hidle : oneThread.Idle openRun := by
    intro call hcall
    rw [List.mem_singleton.mp hcall]
    exact ⟨_, rfl, nofun⟩
  exact (hopen.runStep_idle initialised_oneThread hidle ht).mono fun i t t' _ hsame =>
    ⟨hsame, False.elim⟩

/-- The sample of the first run is still there after the second. -/
theorem not_ofThisRun_second_run :
    ¬ EachSplit (fun pre r => ∀ t t' data, run runStep oneThread pre = some t →
      t.runOnce r = some (t', data) → oneThread.OfThisRun r data) [sampleRun, sampleRun] := by
  intro h
  have hvalues : (run runStep oneThread [sampleRun]).bind (fun t => (t.runOnce sampleRun).map
      fun r => r.2.replay.map fun value => value.find? "cycles".toList) =
        some [some (.array [5, 5])] := by decide
  rcases Option.bind_eq_some_iff.mp hvalues with ⟨t, ht, honce⟩
  rcases Option.map_eq_some_iff.mp honce with ⟨⟨t', data⟩, hrun, hreplay⟩
  have hthis := h [sampleRun] sampleRun [] rfl t t' data ht hrun
  rcases hthis.replay.2 0 _ rfl with ⟨value, hvalue, hofRun⟩
  have hcycles : value.find? "cycles".toList = some (.array [5]) := (hofRun 0 _ rfl).1
  rcases List.map_eq_singleton_iff.mp hreplay with ⟨value', hdata, hfind⟩
  dsimp only at hdata
  rw [hdata] at hvalue
  cases hvalue
  rw [hcycles] at hfind
  cases hfind

end PerfCollector

end LibCollector.Perf
