import LibCollector.Perf.EventContext

/-!
# The perf collector

`perf_thread` and `PerfCollector` of `src/collectors/perf.hpp` and `perf.cpp`. What the
counters read, whether an `ioctl` succeeds and the clock are inputs; a snapshot is given
for each thread by its position in the collector's list. Reading the configuration and
opening the counters are left out.
-/

namespace LibCollector.Perf

open LibCollector.Misc LibCollector.Interface

/-- The `push_back` calls on a map of results. -/
def pushAll (adds : List Added) (results : OrdMap Str CollectorValueList) :
    Option (OrdMap Str CollectorValueList) :=
  adds.foldlM (fun r a =>
    (((r.find? a.1).getD {}).pushBack a.2).map fun l => r.insert a.1 l) results

namespace EventContext

/-- What `event_context::update_data` adds to the results. -/
def snapshotAdds (ctx : EventContext) (snap : Snapshot) : Option (List Added) :=
  (ctx.mCounters.map Counter.name).zipIdx.mapM fun e =>
    snap.values[e.2]?.map fun v => (e.1, .u64, .ofU64 v)

/-- The accumulated values that `event_context::stop` adds to the results, if the pointer is set. -/
def sumAdds (ctx : EventContext) : List Added :=
  if ctx.mValueResults then ctx.mCounters.flatMap fun c =>
    c.scopeValues.map fun v => (c.name ++ ":ScopeSum".toList, .u64, .ofU64 v)
  else []

/-- The counts that it adds. -/
def countAdds (ctx : EventContext) : List Added :=
  (ctx.scopeNumCalls.map fun n => ("CCthread:ScopeNumCalls".toList, .i64, .ofI64 n.toInt64)) ++
    ctx.scopeNumWithPerf.map fun n => ("CCthread:ScopeNumWithPerf".toList, .i64, .ofI64 n.toInt64)

/-- What `event_context::stop` adds to the results; the counts need the pointer to be set. -/
def stopAdds (ctx : EventContext) : Option (List Added) :=
  if ctx.countAdds ≠ [] ∧ ctx.mValueResults = false then none
  else some (ctx.sumAdds ++ ctx.countAdds)

end EventContext

/-- `PerfCollector::perf_thread`. -/
structure PerfThread where
  tid : Int
  name : Str
  deviceName : Str := []
  eventCtx : EventContext := {}
  mResultsPerThread : OrdMap Str CollectorValueList := ∅
  deriving DecidableEq

namespace PerfThread

/-- `perf_thread::update_data`. -/
def updateData (snap : Snapshot) (t : PerfThread) : Option PerfThread :=
  (t.eventCtx.snapshotAdds snap).bind fun adds =>
    (pushAll adds t.mResultsPerThread).map fun results => { t with mResultsPerThread := results }

/-- `perf_thread::update_data_scope`. -/
def updateDataScope (call : ScopeCall) (t : PerfThread) : Option PerfThread :=
  (t.eventCtx.updateDataScope call).map fun ctx => { t with eventCtx := ctx }

/-- `event_context::stop`, for the outcome of its `ioctl`. -/
def stop (ok : Bool) (t : PerfThread) : Option PerfThread :=
  if ok then
    t.eventCtx.stopAdds.bind fun adds =>
      (pushAll adds t.mResultsPerThread).map fun results => { t with mResultsPerThread := results }
  else some t

/-- The body of the loop of `collect_scope_start`. -/
def startScope (funcId : UInt16) (snap : Snapshot) (t : PerfThread) : Option PerfThread :=
  (t.eventCtx.collectScope funcId false snap).map fun r => { t with eventCtx := r.2 }

/-- The body of the loop of `collect_scope_stop`. -/
def stopScope (funcId : UInt16) (snap : Snapshot) (t : PerfThread) : Option PerfThread :=
  let snapStart := t.eventCtx.lastSnap
  (t.eventCtx.collectScope funcId true snap).bind fun r =>
    { t with eventCtx := r.2 }.updateDataScope ⟨funcId, snapStart, r.1⟩

/-- A start of a scope leaves its function and snapshot in the context. -/
theorem startScope_eq (funcId : UInt16) (snap : Snapshot) (t : PerfThread) :
    t.startScope funcId snap =
      some { t with eventCtx := { t.eventCtx with lastSnapFuncId := funcId, lastSnap := snap } } :=
  rfl

/-- A stop of a scope, when the last start in the context had the same function. -/
theorem stopScope_eq {funcId : UInt16} {snap : Snapshot} {t : PerfThread}
    (h : t.eventCtx.lastSnapFuncId = funcId) :
    t.stopScope funcId snap =
      ({ t.eventCtx with lastSnapFuncId := 65535 }.updateDataScope
        ⟨funcId, t.eventCtx.lastSnap, snap⟩).map fun ctx => { t with eventCtx := ctx } := by
  have hopen : ¬ (true = true ∧ t.eventCtx.lastSnapFuncId ≠ funcId) := fun hc => hc.2 h
  rw [stopScope, EventContext.collectScope, if_neg hopen, if_pos rfl]
  rfl

/-- A stop does not end the process only if the last start had the same function. -/
theorem lastSnapFuncId_of_stopScope {funcId : UInt16} {snap : Snapshot} {t t' : PerfThread}
    (h : t.stopScope funcId snap = some t') : t.eventCtx.lastSnapFuncId = funcId := by
  by_contra hne
  rw [stopScope, EventContext.collectScope, if_pos ⟨rfl, hne⟩] at h
  cases h

end PerfThread

/-- The members of `PerfCollector`. -/
structure PerfCollector where
  mResults : OrdMap Str CollectorValueList := ∅
  mAllThread : Bool := true
  mCollecting : Bool := false
  mClocks : OrdMap Str (List (Int × Int)) := ∅
  lastCollectScopeFlags : Int32 := 0
  mReplayThreads : List PerfThread := []
  mBgThreads : List PerfThread := []
  mBookerThread : List PerfThread := []
  mCSPMUThreads : List PerfThread := []
  deriving DecidableEq

/-- The flags with which a scope call reaches the replay threads. -/
def ReachesReplay (flags : Int32) : Prop := flags &&& 2 ≠ 0 ∨ flags &&& 1 ≠ 0

instance (flags : Int32) : Decidable (ReachesReplay flags) := inferInstanceAs (Decidable (_ ∨ _))

/-- A call of `collect_scope_start`, or of `collect_scope_stop`, with what the counters of each
    replay thread read. -/
structure ScopeOp where
  stopping : Bool
  funcId : UInt16
  flags : Int32
  tid : Int
  readings : Nat → Snapshot

namespace PerfCollector

/-- The loop over the replay threads with a given tid. -/
def updateReplay (tid : Int) (f : Nat → PerfThread → Option PerfThread)
    (threads : List PerfThread) :
    Option (List PerfThread) :=
  threads.zipIdx.mapM fun e => if e.1.tid = tid then f e.2 e.1 else some e.1

/-- `PerfCollector::collect_scope_start`. -/
def collectScopeStart (op : ScopeOp) (s : PerfCollector) : Option (Bool × PerfCollector) :=
  if s.mCollecting = false then some (false, s)
  else
    let threads := if ReachesReplay op.flags then
        updateReplay op.tid (fun i => PerfThread.startScope op.funcId (op.readings i))
          s.mReplayThreads
      else some s.mReplayThreads
    threads.map fun threads =>
      (true, { s with mReplayThreads := threads, lastCollectScopeFlags := op.flags })

/-- `PerfCollector::collect_scope_stop`. -/
def collectScopeStop (op : ScopeOp) (s : PerfCollector) : Option (Bool × PerfCollector) :=
  if s.mCollecting = false then some (false, s)
  else if s.lastCollectScopeFlags ≠ op.flags then some (false, s)
  else
    let threads := if ReachesReplay op.flags then
        updateReplay op.tid (fun i => PerfThread.stopScope op.funcId (op.readings i))
          s.mReplayThreads
      else some s.mReplayThreads
    threads.map fun threads => (true, { s with mReplayThreads := threads })

/-- A scope call. -/
def collectScope (s : PerfCollector) (op : ScopeOp) : Option (Bool × PerfCollector) :=
  if op.stopping then s.collectScopeStop op else s.collectScopeStart op

/-- The collector after a scope call. -/
def scopeStep (s : PerfCollector) (op : ScopeOp) : Option PerfCollector :=
  (s.collectScope op).map Prod.snd

end PerfCollector

/-- Something for each thread, by its position in its list. -/
structure PerThread (α : Type) where
  replay : Nat → α
  bg : Nat → α
  booker : Nat → α
  cspmu : Nat → α

namespace PerfCollector

/-- A loop over threads that is given something for each of them. -/
def updateEach {α : Type} (f : α → PerfThread → Option PerfThread) (inputs : Nat → α)
    (threads : List PerfThread) : Option (List PerfThread) :=
  threads.zipIdx.mapM fun e => f (inputs e.2) e.1

/-- A loop over the threads of all lists. -/
def updateThreads {α : Type} (f : α → PerfThread → Option PerfThread) (inputs : PerThread α)
    (s : PerfCollector) : Option PerfCollector :=
  (updateEach f inputs.replay s.mReplayThreads).bind fun replay =>
    (updateEach f inputs.bg s.mBgThreads).bind fun bg =>
      (updateEach f inputs.booker s.mBookerThread).bind fun booker =>
        (updateEach f inputs.cspmu s.mCSPMUThreads).map fun cspmu =>
          { s with
            mReplayThreads := replay
            mBgThreads := bg
            mBookerThread := booker
            mCSPMUThreads := cspmu }

/-- `mClocks.emplace` for the devices of some threads. -/
def emplaceClocks (threads : List PerfThread) (clocks : OrdMap Str (List (Int × Int))) :
    OrdMap Str (List (Int × Int)) :=
  threads.foldl (fun m t =>
    if (m.find? t.deviceName).isSome then m else m.insert t.deviceName []) clocks

/-- The time that is saved for the device of each CSPMU thread. -/
def pushClocks (clock : Nat → Int × Int) (threads : List PerfThread)
    (clocks : OrdMap Str (List (Int × Int))) : OrdMap Str (List (Int × Int)) :=
  threads.zipIdx.foldl (fun m e =>
    m.insert e.1.deviceName ((m.find? e.1.deviceName).getD [] ++ [clock e.2])) clocks

/-- `PerfCollector::clear`. -/
def clear (s : PerfCollector) : PerfCollector :=
  if s.mCollecting then s else { s with mResults := s.mResults.mapVal fun _ l => l.clear }

/-- `PerfCollector::start`, when an `ioctl` fails after some CSPMU threads were started, or none
    fails. -/
def start (failure : Option Nat) (s : PerfCollector) : Bool × PerfCollector :=
  if s.mCollecting then (true, s)
  else match failure with
    | some n => (false, { s with mClocks := emplaceClocks (s.mCSPMUThreads.take n) s.mClocks })
    | none => (true, { s with
        mClocks := emplaceClocks s.mCSPMUThreads s.mClocks
        mCollecting := true })

/-- `PerfCollector::stop`, for the outcome of the `ioctl` of each thread. -/
def stop (stopped : PerThread Bool) (s : PerfCollector) : Option PerfCollector :=
  if s.mCollecting = false then some s
  else (s.updateThreads PerfThread.stop stopped).map fun s => { s with mCollecting := false }

/-- `PerfCollector::collect`, for what the counters of each thread read, and the clock for each
    CSPMU thread. -/
def collect (snaps : PerThread Snapshot) (clock : Nat → Int × Int) (s : PerfCollector) :
    Option (Bool × PerfCollector) :=
  if s.mCollecting = false then some (false, s)
  else (s.updateThreads PerfThread.updateData snaps).map fun s =>
    (true, { s with mClocks := pushClocks clock s.mCSPMUThreads s.mClocks })

end PerfCollector

end LibCollector.Perf
