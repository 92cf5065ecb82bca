import LibCollector.Perf.Collector
import LibCollector.Perf.ScopeCounts

/-!
# Scopes of several threads

Scope calls of any number of threads, in any order, on a collector that collects. Each
thread pairs its own calls (`Paired`). A thread's last snapshot is its own, but the flags
of the last start are shared by all of them, so no scope is disturbed (`Undisturbed`)
exactly if the flags are still those of the scope whenever one ends (`FlagsStand`).
-/

namespace LibCollector.Perf

open LibCollector.Misc

/-- The last call of a thread. -/
def lastOf (tid : Int) (pre : List ScopeOp) : Option ScopeOp :=
  pre.reverse.find? fun op => op.tid = tid

/-- The last start of any thread. -/
def lastStart (pre : List ScopeOp) : Option ScopeOp :=
  pre.reverse.find? fun op => op.stopping = false

/-- A thread stops the scope that it has started last, with the same function and flags, and does
    not start one inside another. -/
def Paired (pre : List ScopeOp) (op : ScopeOp) : Prop :=
  if op.stopping then ∃ start, lastOf op.tid pre = some start ∧ start.stopping = false ∧
    start.funcId = op.funcId ∧ start.flags = op.flags
  else ∀ last, lastOf op.tid pre = some last → last.stopping = true

/-- The accumulated values have grown by the difference of the snapshots of a call. -/
def AddsDifference (call : ScopeCall) (ctx ctx' : EventContext) : Prop :=
  ctx'.mCounters.length = ctx.mCounters.length ∧ ∀ j c, ctx.mCounters[j]? = some c →
    ∃ c', ctx'.mCounters[j]? = some c' ∧ c'.name = c.name ∧ ∀ f : UInt16,
      c'.scopeValues.getD f.toNat 0 =
        c.scopeValues.getD f.toNat 0 + if f = call.funcId then call.diff j else 0

namespace PerfCollector

/-- A stop adds the difference between the start and the stop of its own thread, and changes no
    other thread. -/
def OwnScope (pre : List ScopeOp) (op : ScopeOp) (s s' : PerfCollector) : Prop :=
  ∀ i t, s.mReplayThreads[i]? = some t → ∃ t', s'.mReplayThreads[i]? = some t' ∧
    if t.tid = op.tid then ∃ start, lastOf op.tid pre = some start ∧
      AddsDifference ⟨op.funcId, start.readings i, op.readings i⟩ t.eventCtx t'.eventCtx
    else t' = t

/-- No call ends the process, and every stop returns true and adds what its own thread has
    counted. -/
def Undisturbed (s : PerfCollector) (ops : List ScopeOp) : Prop :=
  EachSplit (fun pre op => ∃ t, run scopeStep s pre = some t ∧ ∃ ok t',
    t.collectScope op = some (ok, t') ∧ (op.stopping = true → ok = true ∧ OwnScope pre op t t')) ops

/-- When a scope stops, the last start of any thread had its flags, and its function is in range for
    the counters of the thread. -/
def FlagsStand (s : PerfCollector) (pre : List ScopeOp) (op : ScopeOp) : Prop :=
  op.stopping = true → (∃ start, lastStart pre = some start ∧ start.flags = op.flags) ∧
    ∀ t ∈ s.mReplayThreads, t.tid = op.tid →
      t.eventCtx.mCounters = [] ∨ op.funcId.toNat < 65534 ∧ t.eventCtx.mCounters.length ≤ 8

/-! ## One call -/

theorem lastOf_concat (tid : Int) (pre : List ScopeOp) (op : ScopeOp) :
    lastOf tid (pre ++ [op]) = if op.tid = tid then some op else lastOf tid pre := by
  by_cases h : op.tid = tid <;> simp [lastOf, h]

theorem lastStart_concat (pre : List ScopeOp) (op : ScopeOp) :
    lastStart (pre ++ [op]) = if op.stopping = false then some op else lastStart pre := by
  by_cases h : op.stopping = false <;> simp [lastStart, h]

/-- The loop over the threads changes those with the tid, each on its own. -/
theorem getElem?_updateReplay {tid : Int} {f : Nat → PerfThread → Option PerfThread}
    {threads threads' : List PerfThread} (h : updateReplay tid f threads = some threads') {i : Nat}
    {t : PerfThread} (ht : threads[i]? = some t) :
    ∃ t', threads'[i]? = some t' ∧ (if t.tid = tid then f i t else some t) = some t' :=
  getElem?_mapM_zipIdx h ht

/-- The loop over the threads fails only at a thread with the tid. -/
theorem updateReplay_isSome {tid : Int} {f : Nat → PerfThread → Option PerfThread}
    {threads : List PerfThread} : (updateReplay tid f threads).isSome ↔
      ∀ i t, threads[i]? = some t → t.tid = tid → (f i t).isSome := by
  rw [updateReplay, mapM_zipIdx_isSome]
  refine forall₃_congr fun i t ht => ?_
  dsimp only
  by_cases htid : t.tid = tid
  · rw [if_pos htid]
    exact ⟨fun h _ => h, fun h => h htid⟩
  · rw [if_neg htid]
    exact iff_of_true rfl fun h => absurd h htid

/-- What a stop does with a thread whose last start had the same function. -/
theorem stopScope_spec {funcId : UInt16} {snap : Snapshot} {t t' : PerfThread}
    (h : t.stopScope funcId snap = some t') (hsized : t.eventCtx.Sized) :
    t'.tid = t.tid ∧ t'.eventCtx.Sized ∧
      AddsDifference ⟨funcId, t.eventCtx.lastSnap, snap⟩ t.eventCtx t'.eventCtx := by
  rw [PerfThread.stopScope_eq (PerfThread.lastSnapFuncId_of_stopScope h)] at h
  rcases Option.map_eq_some_iff.mp h with ⟨ctx, hctx, rfl⟩
  have hgrew := EventContext.grew_updateDataScope hctx
  have hsized' : EventContext.Sized { t.eventCtx with lastSnapFuncId := 65535 } :=
    ⟨hsized.counters, hsized.scopeNumCalls, hsized.scopeNumWithPerf⟩
  refine ⟨rfl, EventContext.sized_updateDataScope hsized' hctx, hgrew.length, fun j c hc => ?_⟩
  rcases hgrew.counters j c hc with ⟨c', hc', hname, -, -, hvalues⟩
  refine ⟨c', hc', hname, fun f => ?_⟩
  rw [hvalues, scopeSum_singleton]
  by_cases hf : f = funcId
  · rw [if_pos hf.symm, if_pos hf]
  · rw [if_neg (Ne.symm hf), if_neg hf]

/-- When a stop does not end the process. -/
theorem stopScope_isSome {funcId : UInt16} {snap : Snapshot} {t : PerfThread}
    (hsized : t.eventCtx.Sized) (h : t.eventCtx.lastSnapFuncId = funcId) :
    (t.stopScope funcId snap).isSome ↔
      t.eventCtx.mCounters = [] ∨ funcId.toNat < 65534 ∧ t.eventCtx.mCounters.length ≤ 8 := by
  have hsized' : EventContext.Sized { t.eventCtx with lastSnapFuncId := 65535 } :=
    ⟨hsized.counters, hsized.scopeNumCalls, hsized.scopeNumWithPerf⟩
  rw [PerfThread.stopScope_eq h, Option.isSome_map, EventContext.updateDataScope_isSome hsized']

/-! ## What holds between the calls -/

/-- The collector `s'` after the calls `pre` on `s`: a thread that is in a scope has the function
    and the snapshot of its start, and the shared flags are those of the last start. -/
structure Tracked (s : PerfCollector) (pre : List ScopeOp) (s' : PerfCollector) : Prop where
  mCollecting : s'.mCollecting = true
  threads : ∀ i t, s.mReplayThreads[i]? = some t → ∃ t', s'.mReplayThreads[i]? = some t' ∧
    t'.tid = t.tid ∧ t'.eventCtx.Sized ∧
      t'.eventCtx.mCounters.length = t.eventCtx.mCounters.length ∧
      ∀ start, lastOf t.tid pre = some start → start.stopping = false →
        t'.eventCtx.lastSnapFuncId = start.funcId ∧ t'.eventCtx.lastSnap = start.readings i
  length : s'.mReplayThreads.length = s.mReplayThreads.length
  flags : ∀ start, lastStart pre = some start → s'.lastCollectScopeFlags = start.flags

theorem tracked_nil {s : PerfCollector} (hcollecting : s.mCollecting = true)
    (hsized : ∀ t ∈ s.mReplayThreads, t.eventCtx.Sized) : Tracked s [] s := by
  refine ⟨hcollecting, fun i t ht => ⟨t, ht, rfl, hsized t (List.mem_of_getElem? ht), rfl, ?_⟩,
    rfl, ?_⟩
  · exact fun _ h => absurd h (by simp [lastOf])
  · exact fun _ h => absurd h (by simp [lastStart])

/-- A call on a collector that collects: a start, a stop that does not match, or a stop. -/
theorem collectScope_cases {s s' : PerfCollector} {op : ScopeOp} {ok : Bool}
    (hcollecting : s.mCollecting = true) (hreach : ReachesReplay op.flags)
    (h : s.collectScope op = some (ok, s')) :
    (op.stopping = false ∧ ok = true ∧ ∃ threads,
      updateReplay op.tid (fun i => PerfThread.startScope op.funcId (op.readings i))
        s.mReplayThreads = some threads ∧
      s' = { s with mReplayThreads := threads, lastCollectScopeFlags := op.flags }) ∨
    (op.stopping = true ∧ s.lastCollectScopeFlags ≠ op.flags ∧ ok = false ∧ s' = s) ∨
    (op.stopping = true ∧ s.lastCollectScopeFlags = op.flags ∧ ok = true ∧ ∃ threads,
      updateReplay op.tid (fun i => PerfThread.stopScope op.funcId (op.readings i))
        s.mReplayThreads = some threads ∧ s' = { s with mReplayThreads := threads }) := by
  have hon : ¬ s.mCollecting = false := ne_false_of_eq_true hcollecting
  cases hstop : op.stopping with
  | false =>
    left
    rw [collectScope, hstop, if_neg Bool.false_ne_true, collectScopeStart, if_neg hon] at h
    dsimp only at h
    rw [if_pos hreach] at h
    rcases Option.map_eq_some_iff.mp h with ⟨threads, hthreads, heq⟩
    cases heq
    exact ⟨rfl, rfl, threads, hthreads, rfl⟩
  | true =>
    right
    rw [collectScope, hstop, if_pos rfl, collectScopeStop, if_neg hon] at h
    by_cases hflags : s.lastCollectScopeFlags ≠ op.flags
    · left
      rw [if_pos hflags] at h
      cases h
      exact ⟨rfl, hflags, rfl, rfl⟩
    · right
      rw [if_neg hflags] at h
      dsimp only at h
      rw [if_pos hreach] at h
      rcases Option.map_eq_some_iff.mp h with ⟨threads, hthreads, heq⟩
      cases heq
      exact ⟨rfl, not_not.mp hflags, rfl, threads, hthreads, rfl⟩

/-- A call keeps what is tracked. -/
theorem tracked_step {s t t' : PerfCollector} {pre : List ScopeOp} {op : ScopeOp}
    (hreach : ReachesReplay op.flags) (ht : Tracked s pre t) (h : t.scopeStep op = some t') :
    Tracked s (pre ++ [op]) t' := by
  rcases Option.map_eq_some_iff.mp h with ⟨⟨ok, u⟩, hu, rfl⟩
  -- A thread that the call does not reach keeps its last call; a stop leaves no scope open.
  have hkept : ∀ {tid : Int} {start : ScopeOp}, op.stopping = true →
      lastOf tid (pre ++ [op]) = some start → start.stopping = false →
        lastOf tid pre = some start := by
    intro tid start hstop hlast hopen
    rw [lastOf_concat] at hlast
    split at hlast
    · cases hlast
      rw [hstop] at hopen
      cases hopen
    · exact hlast
  have hflags : ∀ start, op.stopping = true → lastStart (pre ++ [op]) = some start →
      t.lastCollectScopeFlags = start.flags := by
    intro start hstop hlast
    rw [lastStart_concat, hstop, if_neg nofun] at hlast
    exact ht.flags start hlast
  rcases collectScope_cases ht.mCollecting hreach hu with
    ⟨hstart, rfl, threads, hthreads, rfl⟩ | ⟨hstop, -, rfl, rfl⟩ |
      ⟨hstop, -, rfl, threads, hthreads, rfl⟩
  · refine ⟨ht.mCollecting, fun i a ha => ?_, ?_, fun start hlast => ?_⟩
    · rcases ht.threads i a ha with ⟨b, hb, hbtid, hbsized, hblength, hblast⟩
      rcases getElem?_updateReplay hthreads hb with ⟨c, hc, hbc⟩
      rw [PerfThread.startScope_eq] at hbc
      rw [lastOf_concat]
      by_cases htid : a.tid = op.tid
      · rw [if_pos (hbtid.trans htid)] at hbc
        cases hbc
        refine ⟨_, hc, hbtid, ?_, hblength, fun start hlast _ => ?_⟩
        · exact ⟨hbsized.counters, hbsized.scopeNumCalls, hbsized.scopeNumWithPerf⟩
        · rw [if_pos htid.symm] at hlast
          cases hlast
          exact ⟨rfl, rfl⟩
      · rw [if_neg fun h => htid (hbtid.symm.trans h)] at hbc
        cases hbc
        rw [if_neg (Ne.symm htid)]
        exact ⟨b, hc, hbtid, hbsized, hblength, hblast⟩
    · exact (length_of_mapM hthreads).trans (List.length_zipIdx.trans ht.length)
    · rw [lastStart_concat, if_pos hstart] at hlast
      cases hlast
      rfl
  · refine ⟨ht.mCollecting, fun i a ha => ?_, ht.length, fun start => hflags start hstop⟩
    rcases ht.threads i a ha with ⟨b, hb, hbtid, hbsized, hblength, hblast⟩
    exact ⟨b, hb, hbtid, hbsized, hblength, fun start hlast hopen =>
      hblast start (hkept hstop hlast hopen) hopen⟩
  · refine ⟨ht.mCollecting, fun i a ha => ?_, ?_, fun start => hflags start hstop⟩
    · rcases ht.threads i a ha with ⟨b, hb, hbtid, hbsized, hblength, hblast⟩
      rcases getElem?_updateReplay hthreads hb with ⟨c, hc, hbc⟩
      by_cases htid : a.tid = op.tid
      · rw [if_pos (hbtid.trans htid)] at hbc
        rcases stopScope_spec hbc hbsized with ⟨hctid, hcsized, hadds⟩
        refine ⟨c, hc, hctid.trans hbtid, hcsized, hadds.1.trans hblength,
          fun start hlast hopen => ?_⟩
        rw [lastOf_concat, if_pos htid.symm] at hlast
        cases hlast
        rw [hstop] at hopen
        cases hopen
      · rw [if_neg fun h => htid (hbtid.symm.trans h)] at hbc
        cases hbc
        exact ⟨b, hc, hbtid, hbsized, hblength, fun start hlast hopen =>
          hblast start (hkept hstop hlast hopen) hopen⟩
    · exact (length_of_mapM hthreads).trans (List.length_zipIdx.trans ht.length)

/-- Any number of calls. -/
theorem tracked_run {s t : PerfCollector} (hcollecting : s.mCollecting = true)
    (hsized : ∀ t ∈ s.mReplayThreads, t.eventCtx.Sized) {ops : List ScopeOp}
    (hreach : ∀ op ∈ ops, ReachesReplay op.flags) (h : run scopeStep s ops = some t) :
    Tracked s ops t := by
  induction ops using List.reverseRecOn generalizing t with
  | nil =>
    cases h
    exact tracked_nil hcollecting hsized
  | append_singleton ops op ih =>
    rcases run_concat_eq_some.mp h with ⟨u, hu, ht⟩
    have htracked := ih (fun o ho => hreach o (List.mem_append_left _ ho)) hu
    apply tracked_step _ htracked ht
    exact hreach op (List.mem_append_right _ (List.mem_singleton_self op))

/-! ## Undisturbed scopes -/

theorem exists_lastStart {pre : List ScopeOp} {op : ScopeOp} (hop : op ∈ pre)
    (hstart : op.stopping = false) : ∃ start, lastStart pre = some start := by
  apply Option.isSome_iff_exists.mp
  rw [lastStart, List.find?_isSome]
  exact ⟨op, List.mem_reverse.mpr hop, decide_eq_true hstart⟩

/-- A stop after the calls `pre`, of a thread that has started the scope. -/
theorem stop_spec {s t : PerfCollector} {pre : List ScopeOp} {op start : ScopeOp}
    (ht : Tracked s pre t) (hreach : ReachesReplay op.flags) (hstop : op.stopping = true)
    (hlast : lastOf op.tid pre = some start) (hopen : start.stopping = false)
    (hfunc : start.funcId = op.funcId) :
    (∃ ok t', t.collectScope op = some (ok, t') ∧ ok = true ∧ OwnScope pre op t t') ↔
      t.lastCollectScopeFlags = op.flags ∧ ∀ u ∈ s.mReplayThreads, u.tid = op.tid →
        u.eventCtx.mCounters = [] ∨
          op.funcId.toNat < 65534 ∧ u.eventCtx.mCounters.length ≤ 8 := by
  -- The counters of the threads are those of the collector before all calls.
  have hthreads : ∀ i b, t.mReplayThreads[i]? = some b → ∃ a, s.mReplayThreads[i]? = some a ∧
      a.tid = b.tid ∧ b.eventCtx.Sized ∧
      b.eventCtx.mCounters.length = a.eventCtx.mCounters.length ∧
      (a.tid = op.tid → b.eventCtx.lastSnapFuncId = op.funcId ∧
        b.eventCtx.lastSnap = start.readings i) := by
    intro i b hb
    have hi : i < s.mReplayThreads.length := by
      rw [← ht.length]
      exact (List.getElem?_eq_some_iff.mp hb).1
    rcases ht.threads i _ (List.getElem?_eq_getElem hi) with ⟨b', hb', htid, hsized, hlength, hown⟩
    rw [hb] at hb'
    cases hb'
    refine ⟨_, List.getElem?_eq_getElem hi, htid.symm, hsized, hlength, fun htid' => ?_⟩
    rcases hown start (htid' ▸ hlast) hopen with ⟨hfunc', hsnap⟩
    exact ⟨hfunc'.trans hfunc, hsnap⟩
  have hnil : ∀ {a b : PerfThread}, b.eventCtx.mCounters.length = a.eventCtx.mCounters.length →
      (b.eventCtx.mCounters = [] ↔ a.eventCtx.mCounters = []) := by
    intro a b hlength
    rw [← List.length_eq_zero_iff, hlength, List.length_eq_zero_iff]
  constructor
  · rintro ⟨ok, t', hstep, rfl, -⟩
    rcases collectScope_cases ht.mCollecting hreach hstep with
      ⟨hstart, -⟩ | ⟨-, -, hfalse, -⟩ | ⟨-, hflags, -, threads, hloop, -⟩
    · rw [hstop] at hstart
      cases hstart
    · cases hfalse
    · refine ⟨hflags, fun a ha htid => ?_⟩
      rcases List.mem_iff_getElem?.mp ha with ⟨i, hi⟩
      rcases ht.threads i a hi with ⟨b, hb, hbtid, hsized, hlength, hown⟩
      have hready := (hown start (htid ▸ hlast) hopen).1.trans hfunc
      have hloopSome := updateReplay_isSome.mp (by rw [hloop]; rfl) i b hb (hbtid.trans htid)
      rw [stopScope_isSome hsized hready, hlength, hnil hlength] at hloopSome
      exact hloopSome
  · rintro ⟨hflags, hrange⟩
    have hloop : (updateReplay op.tid (fun i => PerfThread.stopScope op.funcId (op.readings i))
        t.mReplayThreads).isSome := by
      apply updateReplay_isSome.mpr
      intro i b hb htid
      rcases hthreads i b hb with ⟨a, ha, hatid, hsized, hlength, hready⟩
      rw [stopScope_isSome hsized (hready (hatid.trans htid)).1, hlength, hnil hlength]
      exact hrange a (List.mem_of_getElem? ha) (hatid.trans htid)
    rcases Option.isSome_iff_exists.mp hloop with ⟨threads, hloop⟩
    refine ⟨true, { t with mReplayThreads := threads }, ?_, rfl, fun i b hb => ?_⟩
    · rw [collectScope, if_pos hstop, collectScopeStop,
        if_neg (ne_false_of_eq_true ht.mCollecting), if_neg (not_not.mpr hflags)]
      dsimp only
      rw [if_pos hreach, hloop]
      rfl
    · rcases getElem?_updateReplay hloop hb with ⟨c, hc, hbc⟩
      refine ⟨c, hc, ?_⟩
      by_cases htid : b.tid = op.tid
      · rcases hthreads i b hb with ⟨a, ha, hatid, hsized, hlength, hready⟩
        rw [if_pos htid] at hbc ⊢
        have hadds := (stopScope_spec hbc hsized).2.2
        rw [(hready (hatid.trans htid)).2] at hadds
        exact ⟨start, hlast, hadds⟩
      · rw [if_neg htid] at hbc ⊢
        exact (Option.some.inj hbc).symm

/-- A start after the calls `pre` succeeds. -/
theorem start_spec {s t : PerfCollector} {pre : List ScopeOp} {op : ScopeOp}
    (ht : Tracked s pre t) (hreach : ReachesReplay op.flags) (hstart : op.stopping = false) :
    ∃ t', t.collectScope op = some (true, t') := by
  have hloop : (updateReplay op.tid (fun i => PerfThread.startScope op.funcId (op.readings i))
      t.mReplayThreads).isSome := updateReplay_isSome.mpr fun i b hb htid => rfl
  rcases Option.isSome_iff_exists.mp hloop with ⟨threads, hloop⟩
  refine ⟨{ t with mReplayThreads := threads, lastCollectScopeFlags := op.flags }, ?_⟩
  rw [collectScope, hstart, if_neg Bool.false_ne_true, collectScopeStart,
    if_neg (ne_false_of_eq_true ht.mCollecting)]
  dsimp only
  rw [if_pos hreach, hloop]
  rfl

/-- A call after the calls `pre` is not disturbed exactly if the flags stand. -/
theorem collectScope_spec {s t : PerfCollector} {pre : List ScopeOp} {op : ScopeOp}
    (ht : Tracked s pre t) (hreach : ReachesReplay op.flags) (hpaired : Paired pre op) :
    (∃ ok t', t.collectScope op = some (ok, t') ∧
        (op.stopping = true → ok = true ∧ OwnScope pre op t t')) ↔ FlagsStand s pre op := by
  cases hstop : op.stopping with
  | false =>
    rcases start_spec ht hreach hstop with ⟨t', ht'⟩
    refine iff_of_true ⟨true, t', ht', nofun⟩ fun hc => ?_
    rw [hstop] at hc
    cases hc
  | true =>
    rw [Paired, if_pos hstop] at hpaired
    rcases hpaired with ⟨start, hlast, hopen, hfunc, -⟩
    have hmem : start ∈ pre := List.mem_reverse.mp (List.mem_of_find?_eq_some hlast)
    rcases exists_lastStart hmem hopen with ⟨latest, hlatest⟩
    have hflags : t.lastCollectScopeFlags = op.flags ↔
        ∃ start, lastStart pre = some start ∧ start.flags = op.flags := by
      rw [ht.flags latest hlatest]
      refine ⟨fun h => ⟨latest, hlatest, h⟩, fun ⟨other, hother, h⟩ => ?_⟩
      rw [hlatest] at hother
      cases hother
      exact h
    have hspec := stop_spec ht hreach hstop hlast hopen hfunc
    rw [hflags] at hspec
    rw [FlagsStand, forall_prop_of_true hstop, ← hspec]
    simp only [true_imp_iff]

/-- No scope is disturbed exactly if, whenever a scope stops, the last start of any thread had its
    flags, and its function is in range for the counters of its thread. -/
theorem undisturbed_iff {s : PerfCollector} (hcollecting : s.mCollecting = true)
    (hsized : ∀ t ∈ s.mReplayThreads, t.eventCtx.Sized) {ops : List ScopeOp}
    (hreach : ∀ op ∈ ops, ReachesReplay op.flags) (hpaired : EachSplit Paired ops) :
    s.Undisturbed ops ↔ EachSplit s.FlagsStand ops := by
  constructor
  · intro h pre op post hsplit
    rcases h pre op post hsplit with ⟨t, hrun, hcall⟩
    have hmem : ∀ o ∈ pre ++ op :: post, ReachesReplay o.flags := hsplit ▸ hreach
    have ht := tracked_run hcollecting hsized
      (fun o ho => hmem o (List.mem_append_left _ ho)) hrun
    exact (collectScope_spec ht (hmem op (List.mem_append_right _ List.mem_cons_self))
      (hpaired pre op post hsplit)).mp hcall
  · intro h
    have hruns : (∃ t, run scopeStep s ops = some t) ∧ s.Undisturbed ops := by
      induction ops using List.reverseRecOn with
      | nil => exact ⟨⟨s, rfl⟩, eachSplit_nil _⟩
      | append_singleton ops op ih =>
        rw [eachSplit_concat] at h hpaired
        rcases ih (fun o ho => hreach o (List.mem_append_left _ ho)) hpaired.1 h.1 with
          ⟨⟨t, hrun⟩, hundisturbed⟩
        have ht := tracked_run hcollecting hsized
          (fun o ho => hreach o (List.mem_append_left _ ho)) hrun
        have hcall := (collectScope_spec ht
          (hreach op (List.mem_append_right _ (List.mem_singleton_self op))) hpaired.2).mpr h.2
        rcases id hcall with ⟨ok, t', ht', -⟩
        refine ⟨⟨t', run_concat_eq_some.mpr ⟨t, hrun, ?_⟩⟩, ?_⟩
        · rw [scopeStep, ht']
          rfl
        · exact eachSplit_concat.mpr ⟨hundisturbed, t, hrun, hcall⟩
    exact hruns.2

/-- A collector that collects, with two replay threads that have one counter each. -/
def twoThreads : PerfCollector where
  mCollecting := true
  mReplayThreads := [
    { tid := 1, name := "patrace-1".toList,
      eventCtx := { mCounters := [{ name := "cycles".toList, fd := 3 }] } },
    { tid := 2, name := "patrace-2".toList,
      eventCtx := { mCounters := [{ name := "cycles".toList, fd := 4 }] } }]

/-- A start or a stop of a thread that runs its own function. -/
def scopeOp (stopping : Bool) (tid : Nat) (flags : Int32) : ScopeOp where
  stopping := stopping
  funcId := .ofNat tid
  flags := flags
  tid := tid
  readings := fun _ => {}

theorem sized_twoThreads : ∀ t ∈ twoThreads.mReplayThreads, t.eventCtx.Sized := by
  intro t ht
  have hunused : t.eventCtx.Unused := by
    rcases List.mem_cons.mp ht with rfl | ht
    · exact ⟨fun c hc => by rw [List.mem_singleton.mp hc], rfl, rfl⟩
    · rw [List.mem_singleton.mp ht]
      exact ⟨fun c hc => by rw [List.mem_singleton.mp hc], rfl, rfl⟩
  exact hunused.sized

/-- Two threads with the same flags, whose scopes overlap. -/
theorem undisturbed_same_flags : twoThreads.Undisturbed
    [scopeOp false 1 2, scopeOp false 2 2, scopeOp true 1 2, scopeOp true 2 2] := by
  have hstart : ¬ false = true := Bool.false_ne_true
  apply (undisturbed_iff rfl sized_twoThreads _ _).mpr
  · rw [eachSplit_cons, eachSplit_cons, eachSplit_cons, eachSplit_cons]
    exact ⟨fun h => absurd h hstart, fun h => absurd h hstart, fun _ => ⟨⟨_, rfl, rfl⟩, by decide⟩,
      fun _ => ⟨⟨_, rfl, rfl⟩, by decide⟩, eachSplit_nil _⟩
  · intro op hop
    simp only [List.mem_cons, List.not_mem_nil, or_false] at hop
    rcases hop with rfl | rfl | rfl | rfl <;> decide
  · rw [eachSplit_cons, eachSplit_cons, eachSplit_cons, eachSplit_cons]
    have hnone : ∀ last : ScopeOp, none = some last → last.stopping = true := by
      intro last h
      cases h
    exact ⟨hnone, hnone, ⟨_, rfl, rfl, rfl, rfl⟩,
      ⟨_, rfl, rfl, rfl, rfl⟩, eachSplit_nil _⟩

/-- Two threads with different flags: the stop of the first one returns false. -/
theorem not_undisturbed_other_flags :
    EachSplit Paired [scopeOp false 1 2, scopeOp false 2 1, scopeOp true 1 2] ∧
    ¬ twoThreads.Undisturbed [scopeOp false 1 2, scopeOp false 2 1, scopeOp true 1 2] := by
  constructor
  · rw [eachSplit_cons, eachSplit_cons, eachSplit_cons]
    exact ⟨nofun, nofun, ⟨_, rfl, rfl, rfl, rfl⟩, eachSplit_nil _⟩
  · intro h
    rcases h [scopeOp false 1 2, scopeOp false 2 1] (scopeOp true 1 2) [] rfl with
      ⟨t, hrun, ok, t', hcall, hstop⟩
    have hok := (hstop rfl).1
    have hresult : (run scopeStep twoThreads [scopeOp false 1 2, scopeOp false 2 1]).bind
        (fun t => (t.collectScope (scopeOp true 1 2)).map Prod.fst) = some false := rfl
    rw [hrun, Option.bind_some, hcall, hok] at hresult
    cases hresult

end PerfCollector

end LibCollector.Perf
