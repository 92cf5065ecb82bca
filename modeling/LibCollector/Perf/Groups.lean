import LibCollector.Perf.Events
import Mathlib.Algebra.BigOperators.Group.List.Basic
import Mathlib.Tactic.IntervalCases

/-!
# Groups of events and snapshots

A `snapshot` has eight values, and the counters of an event context are not counted when they are
read. What the constructor of `PerfCollector` makes of the configuration is counted here from the
elements of `event`, group by group (`groupSize`); the contexts fit into a snapshot if and only if
the groups that have a thread are not larger than that (`countersFit_iff`). The leader of the CPU
counters is one of the eight.
-/

namespace LibCollector.Perf

open LibCollector.Misc LibCollector.Interface

/-! ## Contexts and snapshots -/

/-- The bytes that the kernel has to report for a group of counters: their number, and a value for
    each of them. -/
def readSize (counters : Nat) : Nat := 8 * (1 + counters)

/-- `sizeof(struct snapshot)`. -/
def sizeofSnapshot : Nat := 72

/-- A context with at most as many counters as a snapshot has values: its counters are in range in
    `update_data` and in `update_data_scope`, and `read()` has room for the group. -/
structure EventContext.FitsSnapshot (ctx : EventContext) : Prop where
  count : ctx.mCounters.length ≤ 8
  updateData : ∀ snap, (ctx.snapshotAdds snap).isSome
  updateDataScope : ∀ call : ScopeCall, ∀ i < ctx.mCounters.length, (call.diff? i).isSome
  room : readSize ctx.mCounters.length ≤ sizeofSnapshot

theorem EventContext.fitsSnapshot_iff {ctx : EventContext} :
    ctx.FitsSnapshot ↔ ctx.mCounters.length ≤ 8 := by
  refine ⟨fun h => h.count, fun h => ⟨h, fun snap => ?_, fun call i hi => ?_, ?_⟩⟩
  · have hadds : ∃ r, ctx.snapshotAdds snap = some r := by
      refine exists_mapM_eq_some fun e he => ?_
      have hlt := List.snd_lt_of_mem_zipIdx he
      rw [List.length_map] at hlt
      simp [show e.2 < 8 by omega]
    exact Option.isSome_iff_exists.mpr hadds
  · exact ScopeCall.diff?_isSome.mpr (by omega)
  · rw [readSize, sizeofSnapshot]
    omega

/-- All contexts of the collector fit into a snapshot. -/
def PerfCollector.CountersFit (c : PerfCollector) : Prop :=
  ∀ t ∈ c.mReplayThreads ++ c.mBgThreads ++ c.mCSPMUThreads ++ c.mBookerThread,
    t.eventCtx.FitsSnapshot

/-! ## Counting the events of a configuration -/

/-- The groups of counters: one for each device, one for each of the devices that are marked
    `CSPMU`, and one for the interconnect. -/
inductive Group where
  | pmu (device : Str)
  | cspmu (device : Str)
  | booker
  deriving DecidableEq

/-- The number of events that an element of `event` adds to a group. -/
def Placement.count (g : Group) : Placement → Nat
  | .skipped => 0
  | .cspmu e => if g = .cspmu e.device then 1 else 0
  | .device e => if g = .pmu e.device then 1 else 0
  | .booker es => if g = .booker then es.length else 0
  | .cpu _ => if g = .pmu single then 1 else 0

/-- The leader is added before the first event of its group, if that is a CPU event. -/
def leaders : List Placement → Nat
  | [] => 0
  | .cpu _ :: _ => 1
  | p :: ps => if p.count (.pmu single) = 0 then leaders ps else 0

/-- The number of events in a group. -/
def groupSize (g : Group) (ps : List Placement) : Nat :=
  (ps.map (Placement.count g)).sum + if g = .pmu single then leaders ps else 0

/-- The groups of a collector. -/
def EventGroups.events (s : EventGroups) : Group → List PerfEvent
  | .pmu device => PerfSetup.eventsOf s.mEvents device
  | .cspmu device => PerfSetup.eventsOf s.mCSPMUEvents device
  | .booker => s.mBookerEvents

/-- The element is an event of the CPU. -/
def Placement.isCpu : Placement → Bool
  | .cpu _ => true
  | _ => false

/-! ### Sizes -/

theorem leaders_of_not_isCpu {p : Placement} (h : p.isCpu = false) (ps : List Placement) :
    leaders (p :: ps) = if p.count (.pmu single) = 0 then leaders ps else 0 := by
  cases p with
  | cpu e => cases h
  | skipped | cspmu e | device e | booker es => rw [leaders]; exact nofun

/-- Without an event in the group there is no leader. -/
theorem leaders_eq_zero {ps : List Placement}
    (h : (ps.map (Placement.count (.pmu single))).sum = 0) : leaders ps = 0 := by
  induction ps with
  | nil => rfl
  | cons p ps ih =>
    rw [List.map_cons, List.sum_cons] at h
    cases hcpu : p.isCpu with
    | false =>
      rw [leaders_of_not_isCpu hcpu, ih (by omega)]
      split_ifs <;> rfl
    | true =>
      cases p with
      | cpu e =>
        rw [Placement.count, if_pos rfl] at h
        omega
      | skipped | cspmu e | device e | booker es => cases hcpu

theorem leaders_concat (ps : List Placement) (p : Placement) :
    leaders (ps ++ [p]) =
      if (ps.map (Placement.count (.pmu single))).sum = 0 then leaders [p] else leaders ps := by
  induction ps with
  | nil => rfl
  | cons q ps ih =>
    rw [List.cons_append, List.map_cons, List.sum_cons]
    cases hcpu : q.isCpu with
    | false =>
      rw [leaders_of_not_isCpu hcpu, leaders_of_not_isCpu hcpu, ih]
      by_cases hq : q.count (.pmu single) = 0
      · rw [if_pos hq, if_pos hq, hq, Nat.zero_add]
      · rw [if_neg hq, if_neg hq, if_neg (by omega)]
    | true =>
      cases q with
      | cpu e =>
        rw [Placement.count, if_pos rfl, if_neg (by omega)]
        rfl
      | skipped | cspmu e | device e | booker es => cases hcpu

theorem leaders_singleton {p : Placement} (h : p.isCpu = false) : leaders [p] = 0 := by
  rw [leaders_of_not_isCpu h]
  split_ifs <;> rfl

/-- An element that is not an event of the CPU only adds its own events. -/
theorem groupSize_concat {p : Placement} (h : p.isCpu = false) (g : Group) (ps : List Placement) :
    groupSize g (ps ++ [p]) = groupSize g ps + p.count g := by
  have hleaders : leaders (ps ++ [p]) = leaders ps := by
    rw [leaders_concat, leaders_singleton h]
    split_ifs with hzero
    · exact (leaders_eq_zero hzero).symm
    · rfl
  rw [groupSize, groupSize, hleaders, List.map_append, List.sum_append]
  simp only [List.map_cons, List.map_nil, List.sum_singleton]
  omega

/-- An event of the CPU that is the first event of its group brings the leader. -/
theorem groupSize_cpu (e : PerfEvent) (g : Group) (ps : List Placement) :
    groupSize g (ps ++ [.cpu e]) = groupSize g ps +
      if g = .pmu single then if groupSize g ps = 0 then 2 else 1 else 0 := by
  have hzero : groupSize (.pmu single) ps = 0 ↔
      (ps.map (Placement.count (.pmu single))).sum = 0 := by
    rw [groupSize, if_pos rfl]
    constructor
    · intro h
      omega
    · intro h
      rw [h, leaders_eq_zero h]
  rw [groupSize, groupSize, leaders_concat, List.map_append, List.sum_append]
  simp only [List.map_cons, List.map_nil, List.sum_singleton, Placement.count]
  by_cases hg : g = .pmu single
  · subst hg
    rw [if_pos rfl, if_pos rfl, if_pos rfl, if_pos rfl]
    by_cases hsum : (ps.map (Placement.count (.pmu single))).sum = 0
    · rw [if_pos hsum, leaders_eq_zero hsum, hsum]
      rfl
    · rw [if_neg hsum, if_neg (by omega)]
      omega
  · rw [if_neg hg, if_neg hg, if_neg hg, if_neg hg]

/-! ### The loop over the elements -/

theorem eventsOf_pushEvent (device device' : Str) (e : PerfEvent)
    (m : OrdMap Str (List PerfEvent)) :
    PerfSetup.eventsOf (pushEvent device e m) device' =
      PerfSetup.eventsOf m device' ++ if device' = device then [e] else [] := by
  rw [PerfSetup.eventsOf, pushEvent, OrdMap.find?_insert, PerfSetup.eventsOf]
  split_ifs with h
  · rw [h, Option.getD_some]
  · rw [List.append_nil]

theorem pushEvent_ne_nil {device : Str} {e : PerfEvent} {m : OrdMap Str (List PerfEvent)}
    (h : ∀ d, m.find? d ≠ some []) (d : Str) : (pushEvent device e m).find? d ≠ some [] := by
  rw [pushEvent, OrdMap.find?_insert]
  split_ifs
  · simp
  · exact h d

/-- The groups have the sizes that are counted. -/
structure Counted (ps : List Placement) (s : EventGroups) : Prop where
  length : ∀ g, (s.events g).length = groupSize g ps
  pmu : ∀ device, s.mEvents.find? device ≠ some []
  cspmu : ∀ device, s.mCSPMUEvents.find? device ≠ some []
  leaderOnce : s.leaderOnce = true → ∀ p ∈ ps, p.isCpu = false
  leader : s.leaderOnce = false → groupSize (.pmu single) ps ≠ 0

theorem counted_begin : Counted [] {} where
  length g := by
    rw [groupSize]
    cases g <;> split_ifs <;> rfl
  pmu _ := nofun
  cspmu _ := nofun
  leaderOnce _ := nofun
  leader := nofun

/-- An element that is not an event of the CPU adds its own events. -/
theorem length_events_place {p : Placement} (hp : p.isCpu = false) (mInherit : Int)
    (s : EventGroups) (g : Group) :
    ((s.place mInherit p).events g).length = (s.events g).length + p.count g := by
  cases p with
  | cpu e => cases hp
  | skipped => rfl
  | cspmu e =>
    cases g with
    | cspmu device =>
      simp only [EventGroups.place, EventGroups.events, eventsOf_pushEvent, Placement.count,
        List.length_append, Group.cspmu.injEq]
      split_ifs <;> rfl
    | pmu device => rfl
    | booker => rfl
  | device e =>
    cases g with
    | pmu device =>
      simp only [EventGroups.place, EventGroups.events, eventsOf_pushEvent, Placement.count,
        List.length_append, Group.pmu.injEq]
      split_ifs <;> rfl
    | cspmu device => rfl
    | booker => rfl
  | booker es =>
    cases g with
    | booker =>
      simp only [EventGroups.place, EventGroups.events, Placement.count, List.length_append,
        if_true]
    | pmu device => rfl
    | cspmu device => rfl

theorem Counted.place {ps : List Placement} {s : EventGroups} (h : Counted ps s) {p : Placement}
    (hp : p.isCpu = false) (mInherit : Int) : Counted (ps ++ [p]) (s.place mInherit p) := by
  have honce : (s.place mInherit p).leaderOnce = s.leaderOnce := by
    cases p with
    | cpu e => cases hp
    | skipped | cspmu e | device e | booker es => rfl
  refine ⟨fun g => ?_, fun device => ?_, fun device => ?_, fun hleader => ?_, fun hleader => ?_⟩
  · rw [length_events_place hp, h.length, groupSize_concat hp]
  · cases p with
    | cpu e => cases hp
    | device e => exact pushEvent_ne_nil h.pmu device
    | skipped | cspmu e | booker es => exact h.pmu device
  · cases p with
    | cpu e => cases hp
    | cspmu e => exact pushEvent_ne_nil h.cspmu device
    | skipped | device e | booker es => exact h.cspmu device
  · rw [honce] at hleader
    intro q hq
    rcases List.mem_append.mp hq with hq | hq
    · exact h.leaderOnce hleader q hq
    · obtain rfl := List.mem_singleton.mp hq
      exact hp
  · rw [honce] at hleader
    rw [groupSize_concat hp]
    have hpos := h.leader hleader
    omega

/-- The leader is added if there is no event in its group. -/
theorem Counted.length_addLeader {ps : List Placement} {s : EventGroups} (h : Counted ps s)
    (mInherit : Int) (len : HwCntLength) (g : Group) :
    ((s.addLeader mInherit len).events g).length =
      groupSize g ps + if g = .pmu single ∧ groupSize g ps = 0 then 1 else 0 := by
  rw [EventGroups.addLeader]
  split_ifs with honce hg hg
  · obtain ⟨rfl, hzero⟩ := hg
    have hnone : s.mEvents.find? single = none := by
      cases hfind : s.mEvents.find? single with
      | none => rfl
      | some es =>
        have hlength := h.length (.pmu single)
        rw [EventGroups.events, PerfSetup.eventsOf, hfind, Option.getD_some, hzero,
          List.length_eq_zero_iff] at hlength
        exact absurd (hlength ▸ hfind) (h.pmu single)
    rw [EventGroups.events, PerfSetup.eventsOf, emplace, if_pos hnone, OrdMap.find?_insert_self,
      hzero]
    rfl
  · cases g with
    | cspmu device => exact h.length (.cspmu device)
    | booker => exact h.length .booker
    | pmu device =>
      have hlength := h.length (.pmu device)
      rw [EventGroups.events, PerfSetup.eventsOf] at hlength ⊢
      rw [emplace, Nat.add_zero, ← hlength]
      split_ifs with hnone
      · rw [OrdMap.find?_insert]
        split_ifs with hdevice
        · subst hdevice
          rw [hnone, Option.getD_none] at hlength
          exact absurd ⟨rfl, hlength.symm⟩ hg
        · rfl
      · rfl
  · obtain ⟨rfl, hzero⟩ := hg
    exact absurd hzero (h.leader ((Bool.not_eq_true _).mp honce))
  · exact h.length g

/-- An event of the CPU adds itself and, if it is the first event of its group, the leader. -/
theorem Counted.addCpu {ps : List Placement} {s : EventGroups} (h : Counted ps s) (e : PerfEvent)
    (mInherit : Int) : Counted (ps ++ [.cpu e]) (s.addCpu mInherit e) := by
  have hleader := h.length_addLeader mInherit e.len
  have honce : (s.addLeader mInherit e.len).leaderOnce = false := by
    rw [EventGroups.addLeader]
    split_ifs with hs
    · rfl
    · exact (Bool.not_eq_true _).mp hs
  have hcspmu : (s.addLeader mInherit e.len).mCSPMUEvents = s.mCSPMUEvents := by
    rw [EventGroups.addLeader]
    split_ifs <;> rfl
  have hne : ∀ device, (s.addLeader mInherit e.len).mEvents.find? device ≠ some [] := by
    intro device
    rw [EventGroups.addLeader]
    split_ifs
    · rw [emplace]
      split_ifs
      · rw [OrdMap.find?_insert]
        split_ifs
        · simp
        · exact h.pmu device
      · exact h.pmu device
    · exact h.pmu device
  refine ⟨fun g => ?_, pushEvent_ne_nil hne, fun device => ?_, fun hs => ?_, fun _ => ?_⟩
  · rw [groupSize_cpu]
    have hsize := hleader g
    cases g with
    | cspmu device =>
      simp only [reduceCtorEq, false_and, if_false] at hsize ⊢
      exact hsize
    | booker =>
      simp only [reduceCtorEq, false_and, if_false] at hsize ⊢
      exact hsize
    | pmu device =>
      rw [EventGroups.events] at hsize
      rw [EventGroups.events, EventGroups.addCpu]
      dsimp only
      rw [eventsOf_pushEvent, List.length_append, hsize]
      simp only [Group.pmu.injEq]
      split_ifs with hzero hdevice hdevice <;> simp_all
  · rw [EventGroups.addCpu]
    dsimp only
    rw [hcspmu]
    exact h.cspmu device
  · rw [EventGroups.addCpu] at hs
    dsimp only at hs
    rw [honce] at hs
    cases hs
  · rw [groupSize_cpu, if_pos rfl]
    split_ifs <;> omega

theorem counted_foldl (mInherit : Int) (ps : List Placement) :
    Counted ps (ps.foldl (EventGroups.place mInherit) {}) := by
  induction ps using List.reverseRecOn with
  | nil => exact counted_begin
  | append_singleton ps p ih =>
    rw [List.foldl_append, List.foldl_cons, List.foldl_nil]
    cases hp : p.isCpu with
    | false => exact ih.place hp mInherit
    | true =>
      cases p with
      | cpu e => exact ih.addCpu e mInherit
      | skipped | cspmu e | device e | booker es => cases hp

/-! ## From the groups to the contexts -/

/-- The groups that have a thread are not larger than a snapshot. Where there are devices that are
    marked `CSPMU`, only these have threads. -/
structure GroupsFit (size : Group → Nat) (mAllThread : Bool) (env : PerfEnv) : Prop where
  cspmu : ∀ device, size (.cspmu device) ≤ 8
  pmu : (∀ device, size (.cspmu device) = 0) →
    (∃ tasks, env.tasks = some tasks ∧
      ∃ t ∈ tasks, IsReplay t.2 ∨ mAllThread = true ∧ IsBackground t.2) →
    ∀ device, size (.pmu device) ≤ 8
  booker : (∀ device, size (.cspmu device) = 0) → env.tasks ≠ none → size .booker ≤ 8

/-- The counters of a thread are those of its group. -/
theorem length_initThread {env : PerfEnv} {tid : Int} {events : List PerfEvent} {t t' : PerfThread}
    (hnew : t.eventCtx.mCounters = []) (h : PerfSetup.initThread env tid events t = some t') :
    t'.eventCtx.mCounters.length = events.length := by
  obtain ⟨ctx, hctx, rfl⟩ := Option.map_eq_some_iff.mp h
  cases events with
  | nil => cases hctx
  | cons leader events =>
    simp only [List.zipIdx_cons, List.map_cons, EventContext.init, Option.some.injEq] at hctx
    subst hctx
    dsimp only
    rw [hnew, List.nil_append, List.length_cons, List.length_map, List.length_map,
      List.length_zipIdx, List.length_cons]

/-- The contexts of threads that were initialised one after the other. -/
theorem forall_fitsSnapshot {env : PerfEnv} {tid : PerfThread → Int}
    {events : PerfThread → List PerfEvent} {enable : PerfThread → PerfThread}
    {ts r : List PerfThread} (hnew : ∀ t ∈ ts, (enable t).eventCtx.mCounters = [])
    (h : ts.mapM (fun t => PerfSetup.initThread env (tid t) (events t) (enable t)) = some r) :
    (∀ t ∈ r, t.eventCtx.FitsSnapshot) ↔ ∀ t ∈ ts, (events t).length ≤ 8 := by
  induction ts generalizing r with
  | nil =>
    cases h
    simp
  | cons t ts ih =>
    rw [List.mapM_cons] at h
    obtain ⟨t', ht', h⟩ := Option.bind_eq_some_iff.mp h
    obtain ⟨rest, hrest, h⟩ := Option.bind_eq_some_iff.mp h
    cases h
    rw [List.forall_mem_cons, List.forall_mem_cons, EventContext.fitsSnapshot_iff,
      length_initThread (hnew t List.mem_cons_self) ht',
      ih (fun u hu => hnew u (List.mem_cons_of_mem t hu)) hrest]

theorem eventsOf_of_notMem {m : OrdMap Str (List PerfEvent)} {device : Str}
    (h : device ∉ m.keys) : PerfSetup.eventsOf m device = [] := by
  rw [PerfSetup.eventsOf, OrdMap.find?_eq_none_iff.mpr h, Option.getD_none]

/-- No device has an event. -/
theorem eq_empty_iff {m : OrdMap Str (List PerfEvent)} (h : ∀ device, m.find? device ≠ some []) :
    m = ∅ ↔ ∀ device, (PerfSetup.eventsOf m device).length = 0 := by
  constructor
  · rintro rfl device
    rfl
  · intro hzero
    refine OrdMap.ext_find? fun device => ?_
    have hlength := hzero device
    rw [PerfSetup.eventsOf, List.length_eq_zero_iff] at hlength
    cases hfind : m.find? device with
    | none => rfl
    | some es =>
      rw [hfind, Option.getD_some] at hlength
      exact absurd (hlength ▸ hfind) (h device)

section threads

variable {s : PerfSetup} {env : PerfEnv}

/-- The threads of all groups of `mEvents`, for the tasks that are chosen. -/
theorem forall_groupThreads {tasks : List (Int × Str)} :
    (∀ t ∈ tasks.flatMap s.groupThreads,
      (PerfSetup.eventsOf s.groups.mEvents t.deviceName).length ≤ 8) ↔
    (tasks ≠ [] → ∀ device, (s.groups.events (.pmu device)).length ≤ 8) := by
  constructor
  · intro h hne device
    by_cases hdevice : device ∈ s.groups.mEvents.keys
    · obtain ⟨task, htask⟩ := List.exists_mem_of_ne_nil tasks hne
      exact h { tid := task.1, name := task.2, deviceName := device } (List.mem_flatMap.mpr
        ⟨task, htask, List.mem_map_of_mem (f := fun device =>
          ({ tid := task.1, name := task.2, deviceName := device } : PerfThread)) hdevice⟩)
    · rw [EventGroups.events, eventsOf_of_notMem hdevice]
      exact Nat.zero_le _
  · intro h t ht
    obtain ⟨task, htask, ht⟩ := List.mem_flatMap.mp ht
    exact h (List.ne_nil_of_mem htask) t.deviceName

theorem new_groupThreads {tasks : List (Int × Str)} :
    ∀ t ∈ tasks.flatMap s.groupThreads, t.eventCtx = {} := by
  intro t ht
  obtain ⟨task, -, ht⟩ := List.mem_flatMap.mp ht
  obtain ⟨device, -, rfl⟩ := List.mem_map.mp ht
  rfl

/-- The threads whose counters are opened, and their groups. -/
structure FreshThreads (s : PerfSetup) (c : PerfCollector) : Prop where
  replay : ∀ t ∈ c.mReplayThreads, t.eventCtx = {}
  bg : ∀ t ∈ c.mBgThreads, t.eventCtx = {}
  cspmu : ∀ t ∈ c.mCSPMUThreads, t.eventCtx = {}
  booker : ∀ t ∈ c.mBookerThread, t.eventCtx = {}

theorem freshThreads_createPerfThread : FreshThreads s (s.createPerfThread env) := by
  rw [PerfSetup.createPerfThread]
  by_cases hdevices : s.groups.mCSPMUEvents ≠ ∅
  · rw [if_pos hdevices]
    refine ⟨nofun, nofun, fun t ht => ?_, nofun⟩
    obtain ⟨device, -, rfl⟩ := List.mem_map.mp ht
    rfl
  · rw [if_neg hdevices]
    cases env.tasks with
    | none => exact ⟨nofun, nofun, nofun, nofun⟩
    | some tasks =>
      refine ⟨new_groupThreads, new_groupThreads, nofun, fun t ht => ?_⟩
      dsimp only at ht
      split_ifs at ht
      · obtain rfl := List.mem_singleton.mp ht
        rfl
      · cases ht

/-- The contexts fit if and only if the groups of the threads fit. -/
theorem countersFit_iff_threads {c : PerfCollector} (h : s.init env = some c) :
    c.CountersFit ↔
      (∀ t ∈ (s.createPerfThread env).mReplayThreads,
        (PerfSetup.eventsOf s.groups.mEvents t.deviceName).length ≤ 8) ∧
      (∀ t ∈ (s.createPerfThread env).mBgThreads,
        (PerfSetup.eventsOf s.groups.mEvents t.deviceName).length ≤ 8) ∧
      (∀ t ∈ (s.createPerfThread env).mCSPMUThreads,
        (PerfSetup.eventsOf s.groups.mCSPMUEvents t.deviceName).length ≤ 8) ∧
      ∀ t ∈ (s.createPerfThread env).mBookerThread, s.groups.mBookerEvents.length ≤ 8 := by
  have hfresh : FreshThreads s (s.createPerfThread env) := freshThreads_createPerfThread
  rw [PerfSetup.init] at h
  obtain ⟨replay, hreplay, h⟩ := Option.bind_eq_some_iff.mp h
  obtain ⟨bg, hbg, h⟩ := Option.bind_eq_some_iff.mp h
  obtain ⟨cspmu, hcspmu, h⟩ := Option.bind_eq_some_iff.mp h
  obtain ⟨booker, hbooker, h⟩ := Option.bind_eq_some_iff.mp h
  cases h
  rw [PerfCollector.CountersFit]
  simp only [List.forall_mem_append, and_assoc]
  refine and_congr ?_ (and_congr ?_ (and_congr ?_ ?_))
  · refine forall_fitsSnapshot (fun t ht => ?_) hreplay
    rw [PerfSetup.enablePerApi]
    split_ifs <;> rw [hfresh.replay t ht]
  · exact @forall_fitsSnapshot _ _ _ id _ _ (fun t ht => by rw [id, hfresh.bg t ht]) hbg
  · exact @forall_fitsSnapshot _ _ _ id _ _ (fun t ht => by rw [id, hfresh.cspmu t ht]) hcspmu
  · exact @forall_fitsSnapshot _ _ _ id _ _ (fun t ht => by rw [id, hfresh.booker t ht]) hbooker

/-- The contexts fit if and only if the groups with a thread fit. -/
theorem countersFit_iff_groupsFit (hcspmu : ∀ device, s.groups.mCSPMUEvents.find? device ≠ some [])
    {c : PerfCollector} (h : s.init env = some c) : c.CountersFit ↔
      GroupsFit (fun g => (s.groups.events g).length) s.mAllThread env := by
  have hempty := eq_empty_iff hcspmu
  rw [countersFit_iff_threads h, PerfSetup.createPerfThread]
  by_cases hdevices : s.groups.mCSPMUEvents ≠ ∅
  · rw [if_pos hdevices]
    constructor
    · rintro ⟨-, -, hthreads, -⟩
      refine ⟨fun device => ?_, fun hzero => absurd (hempty.mpr hzero) hdevices,
        fun hzero => absurd (hempty.mpr hzero) hdevices⟩
      by_cases hdevice : device ∈ s.groups.mCSPMUEvents.keys
      · exact hthreads { tid := env.pid, name := env.processName, deviceName := device }
          (List.mem_map_of_mem (f := fun device =>
            ({ tid := env.pid, name := env.processName, deviceName := device } : PerfThread))
            hdevice)
      · rw [EventGroups.events, eventsOf_of_notMem hdevice]
        exact Nat.zero_le _
    · intro hfit
      exact ⟨nofun, nofun, fun t _ => hfit.cspmu t.deviceName, nofun⟩
  · rw [if_neg hdevices]
    have hzero := hempty.mp (not_not.mp hdevices)
    have hfits : ∀ device, (s.groups.events (.cspmu device)).length ≤ 8 := fun device =>
      (hzero device).le.trans (Nat.zero_le _)
    cases htasks : env.tasks with
    | none =>
      refine iff_of_true ⟨nofun, nofun, nofun, nofun⟩ ⟨hfits, ?_, ?_⟩
      · rintro - ⟨tasks, hsome, -⟩
        rw [htasks] at hsome
        cases hsome
      · intro _ hne
        exact absurd htasks hne
    | some tasks =>
      dsimp only
      rw [forall_groupThreads, forall_groupThreads]
      constructor
      · rintro ⟨hreplay, hbg, -, hbooker⟩
        refine ⟨hfits, ?_, fun _ _ => ?_⟩
        · rintro - ⟨tasks', hsome, t, ht, hname⟩
          obtain rfl : tasks = tasks' := Option.some.inj (htasks.symm.trans hsome)
          rcases hname with hname | hname
          · exact hreplay (List.ne_nil_of_mem (List.mem_filter.mpr ⟨ht, decide_eq_true hname⟩))
          · exact hbg (List.ne_nil_of_mem (List.mem_filter.mpr ⟨ht, decide_eq_true hname⟩))
        · by_cases hpos : 0 < s.groups.mBookerEvents.length
          · rw [if_pos hpos] at hbooker
            exact hbooker _ (List.mem_singleton.mpr rfl)
          · rw [EventGroups.events]
            omega
      · intro hfit
        refine ⟨fun hne => ?_, fun hne => ?_, nofun, fun _ _ => ?_⟩
        · obtain ⟨t, ht⟩ := List.exists_mem_of_ne_nil _ hne
          obtain ⟨ht, hname⟩ := List.mem_filter.mp ht
          exact hfit.pmu hzero ⟨tasks, htasks, t, ht, Or.inl (of_decide_eq_true hname)⟩
        · obtain ⟨t, ht⟩ := List.exists_mem_of_ne_nil _ hne
          obtain ⟨ht, hname⟩ := List.mem_filter.mp ht
          exact hfit.pmu hzero ⟨tasks, htasks, t, ht, Or.inr (of_decide_eq_true hname)⟩
        · exact hfit.booker hzero (by rw [htasks]; exact Option.some_ne_none tasks)

end threads

/-! ## Reserved sets -/

theorem eventsOf_foldl_pushEvent (f : PerfEvent → PerfEvent) (es : List PerfEvent)
    (m : OrdMap Str (List PerfEvent)) (device : Str) :
    (PerfSetup.eventsOf (es.foldl (fun m e => pushEvent single (f e) m) m) device).length =
      (PerfSetup.eventsOf m device).length + if device = single then es.length else 0 := by
  induction es generalizing m with
  | nil => simp
  | cons e es ih =>
    rw [List.foldl_cons, ih, eventsOf_pushEvent, List.length_append]
    split_ifs
    · rw [List.length_singleton, List.length_cons]
      omega
    · rfl

/-- The leader and a reserved set fit. -/
theorem length_ofSet_le {mSet : Int} (hset : 0 ≤ mSet ∧ mSet ≤ 3) (mInherit : Int) (g : Group) :
    ((EventGroups.ofSet mSet mInherit).events g).length ≤ 8 := by
  have hsize : (eventSet mSet).length ≤ 7 := by
    obtain ⟨hlo, hhi⟩ := hset
    interval_cases mSet <;> decide
  cases g with
  | cspmu device => exact Nat.zero_le _
  | booker => exact Nat.zero_le _
  | pmu device =>
    have hleader : (PerfSetup.eventsOf
        (emplace single [leaderEvent (UInt32.ofInt mInherit) .b32] ∅) device).length ≤ 1 := by
      rw [PerfSetup.eventsOf, emplace, if_pos (OrdMap.find?_empty single), OrdMap.find?_insert]
      split_ifs
      · exact Nat.le_refl _
      · exact Nat.zero_le _
    rw [EventGroups.events, EventGroups.ofSet, eventsOf_foldl_pushEvent (fun e =>
      { e with device := single, inherited := UInt32.ofInt mInherit })]
    split_ifs <;> omega

/-! ## Configurations -/

/-- A reserved set is configured, or the groups of the configured events that have a thread are,
    with the leader, not larger than a snapshot. -/
def WithinSnapshot {J : Type} (lib : JsonValue J) (input : PerfInput J) (env : PerfEnv) : Prop :=
  ∀ mSet mInherit ps mAllThread,
    lib.getAs lib.asInt input.config "set".toList (-1) = some mSet → ¬ (0 ≤ mSet ∧ mSet ≤ 3) →
    lib.getAs lib.asInt input.config "inherit".toList 1 = some mInherit →
    placements lib input mInherit = some ps →
    lib.getAs lib.asBool input.config "allthread".toList (!input.perapi) = some mAllThread →
      GroupsFit (fun g => groupSize g ps) mAllThread env

/-- No group is empty. -/
structure EventGroups.NonemptyGroups (s : EventGroups) : Prop where
  pmu : ∀ device, s.mEvents.find? device ≠ some []
  cspmu : ∀ device, s.mCSPMUEvents.find? device ≠ some []

theorem nonemptyGroups_ofSet (mSet mInherit : Int) :
    (EventGroups.ofSet mSet mInherit).NonemptyGroups := by
  have hfold : ∀ (es : List PerfEvent) (m : OrdMap Str (List PerfEvent)),
      (∀ d, m.find? d ≠ some []) → ∀ d,
        (es.foldl (fun m e => pushEvent single
          { e with device := single, inherited := UInt32.ofInt mInherit } m) m).find? d ≠
            some [] := by
    intro es
    induction es with
    | nil => exact fun m hm => hm
    | cons e es ih => exact fun m hm => ih _ (pushEvent_ne_nil hm)
  refine ⟨hfold _ _ fun d => ?_, fun d hd => by cases hd⟩
  rw [emplace, if_pos (OrdMap.find?_empty single), OrdMap.find?_insert]
  split_ifs
  · simp
  · exact nofun

theorem isSome_initThread {env : PerfEnv} {tid : Int} {events : List PerfEvent} {t : PerfThread}
    (h : events ≠ []) : (PerfSetup.initThread env tid events t).isSome := by
  obtain ⟨leader, events, rfl⟩ := List.exists_cons_of_ne_nil h
  rfl

theorem eventsOf_ne_nil {m : OrdMap Str (List PerfEvent)} (h : ∀ d, m.find? d ≠ some [])
    {device : Str} (hdevice : device ∈ m.keys) : PerfSetup.eventsOf m device ≠ [] := by
  obtain ⟨es, hes⟩ := Option.isSome_iff_exists.mp (OrdMap.mem_keys_iff.mp hdevice)
  rw [PerfSetup.eventsOf, hes, Option.getD_some]
  exact fun hnil => h device (hnil ▸ hes)

/-- `init()` finds a leader for each thread. -/
theorem exists_init {s : PerfSetup} (h : s.groups.NonemptyGroups) (env : PerfEnv) :
    ∃ c, s.init env = some c := by
  have hpmu : ∀ (tasks : List (Int × Str)), ∀ t ∈ tasks.flatMap s.groupThreads,
      PerfSetup.eventsOf s.groups.mEvents t.deviceName ≠ [] := by
    intro tasks t ht
    obtain ⟨task, -, ht⟩ := List.mem_flatMap.mp ht
    obtain ⟨device, hdevice, rfl⟩ := List.mem_map.mp ht
    exact eventsOf_ne_nil h.pmu hdevice
  have hthreads : (∀ t ∈ (s.createPerfThread env).mReplayThreads,
        PerfSetup.eventsOf s.groups.mEvents t.deviceName ≠ []) ∧
      (∀ t ∈ (s.createPerfThread env).mBgThreads,
        PerfSetup.eventsOf s.groups.mEvents t.deviceName ≠ []) ∧
      (∀ t ∈ (s.createPerfThread env).mCSPMUThreads,
        PerfSetup.eventsOf s.groups.mCSPMUEvents t.deviceName ≠ []) ∧
      ∀ t ∈ (s.createPerfThread env).mBookerThread, s.groups.mBookerEvents ≠ [] := by
    rw [PerfSetup.createPerfThread]
    by_cases hdevices : s.groups.mCSPMUEvents ≠ ∅
    · rw [if_pos hdevices]
      refine ⟨nofun, nofun, fun t ht => ?_, nofun⟩
      obtain ⟨device, hdevice, rfl⟩ := List.mem_map.mp ht
      exact eventsOf_ne_nil h.cspmu hdevice
    · rw [if_neg hdevices]
      cases env.tasks with
      | none => exact ⟨nofun, nofun, nofun, nofun⟩
      | some tasks =>
        refine ⟨hpmu _, hpmu _, nofun, fun t ht hnil => ?_⟩
        dsimp only at ht
        rw [hnil, List.length_nil, if_neg (Nat.lt_irrefl 0)] at ht
        cases ht
  obtain ⟨hreplay, hbg, hcspmu, hbooker⟩ := hthreads
  have hinit : ∀ (tid : PerfThread → Int) (events : PerfThread → List PerfEvent)
      (enable : PerfThread → PerfThread) (ts : List PerfThread), (∀ t ∈ ts, events t ≠ []) →
      ∃ r, ts.mapM (fun t => PerfSetup.initThread env (tid t) (events t) (enable t)) = some r :=
    fun tid events enable ts hts => exists_mapM_eq_some fun t ht => isSome_initThread (hts t ht)
  obtain ⟨r₁, h₁⟩ := hinit PerfThread.tid
    (fun t => PerfSetup.eventsOf s.groups.mEvents t.deviceName) s.enablePerApi _ hreplay
  obtain ⟨r₂, h₂⟩ := hinit PerfThread.tid
    (fun t => PerfSetup.eventsOf s.groups.mEvents t.deviceName) id _ hbg
  obtain ⟨r₃, h₃⟩ := hinit (fun _ => -1)
    (fun t => PerfSetup.eventsOf s.groups.mCSPMUEvents t.deviceName) id _ hcspmu
  obtain ⟨r₄, h₄⟩ := hinit (fun _ => -1) (fun _ => s.groups.mBookerEvents) id _ hbooker
  exact ⟨_, Option.bind_eq_some_iff.mpr ⟨r₁, h₁, Option.bind_eq_some_iff.mpr ⟨r₂, h₂,
    Option.bind_eq_some_iff.mpr ⟨r₃, h₃, Option.bind_eq_some_iff.mpr ⟨r₄, h₄, rfl⟩⟩⟩⟩⟩

/-- For every configuration that the constructor accepts, the contexts fit into a snapshot after
    `init()` if and only if the configured groups do. -/
theorem countersFit_iff {J : Type} {lib : JsonValue J} {input : PerfInput J} {s : PerfSetup}
    (h : construct lib input = some s) (env : PerfEnv) :
    ∃ c, s.init env = some c ∧ (c.CountersFit ↔ WithinSnapshot lib input env) := by
  obtain ⟨mSet, hmSet, h⟩ := Option.bind_eq_some_iff.mp h
  obtain ⟨mInherit, hmInherit, h⟩ := Option.bind_eq_some_iff.mp h
  obtain ⟨groups, hgroups, h⟩ := Option.bind_eq_some_iff.mp h
  obtain ⟨mAllThread, hall, h⟩ := Option.bind_eq_some_iff.mp h
  cases h
  rw [configuredGroups] at hgroups
  by_cases hset : 0 ≤ mSet ∧ mSet ≤ 3
  · rw [if_pos hset] at hgroups
    cases hgroups
    have hfits := length_ofSet_le hset mInherit
    have hgroups := nonemptyGroups_ofSet mSet mInherit
    obtain ⟨c, hinit⟩ := exists_init (s := ⟨_, mAllThread, input.perapi⟩) hgroups env
    refine ⟨c, hinit, iff_of_true ((countersFit_iff_groupsFit hgroups.cspmu hinit).mpr
      ⟨fun _ => hfits _, fun _ _ _ => hfits _, fun _ _ => hfits _⟩) ?_⟩
    intro mSet' _ _ _ hmSet' hnot
    obtain rfl : mSet = mSet' := Option.some.inj (hmSet.symm.trans hmSet')
    exact absurd hset hnot
  · rw [if_neg hset] at hgroups
    obtain ⟨ps, hps, rfl⟩ := Option.map_eq_some_iff.mp hgroups
    have hcounted := counted_foldl mInherit ps
    obtain ⟨c, hinit⟩ := exists_init (s := ⟨_, mAllThread, input.perapi⟩)
      ⟨hcounted.pmu, hcounted.cspmu⟩ env
    have hsize : (fun g => ((ps.foldl (EventGroups.place mInherit) {}).events g).length) =
        fun g => groupSize g ps := funext hcounted.length
    refine ⟨c, hinit, ?_⟩
    rw [countersFit_iff_groupsFit hcounted.cspmu hinit]
    dsimp only
    rw [hsize]
    constructor
    · intro hfit mSet' mInherit' ps' all' _ _ hmInherit' hps' hall'
      obtain rfl : mInherit = mInherit' := Option.some.inj (hmInherit.symm.trans hmInherit')
      obtain rfl : ps = ps' := Option.some.inj (hps.symm.trans hps')
      obtain rfl : mAllThread = all' := Option.some.inj (hall.symm.trans hall')
      exact hfit
    · intro hwithin
      exact hwithin mSet mInherit ps mAllThread hmSet hset hmInherit hps hall

/-! ## Events of the CPU -/

/-- A configured event of the CPU. -/
def cpuEvent : Json :=
  .object [("name".toList, .string "CPUBusAccesses".toList), ("type".toList, .int 4),
    ("config".toList, .int 25)]

/-- A configuration with `n` events of the CPU. -/
def cpuEvents (n : Nat) : PerfInput Json where
  config := .object [("event".toList, .array (List.replicate n cpuEvent))]
  perapi := false
  pmuCounterBits := 32
  deviceType := fun _ => none

/-- A process with one replay thread. -/
def replayEnv : PerfEnv where
  pid := 100
  processName := "eglretrace".toList
  tasks := some [(101, "patrace-1".toList)]
  openCounter := fun _ _ i => i + 10

/-- Two events. -/
theorem countersFit_two_events : ∃ s, construct Json.value (cpuEvents 2) = some s ∧
    ∃ c, s.init replayEnv = some c ∧
      (c.CountersFit ↔ WithinSnapshot Json.value (cpuEvents 2) replayEnv) :=
  ⟨_, rfl, countersFit_iff rfl replayEnv⟩

/-- With the leader, eight events are nine counters. -/
theorem not_countersFit_eight_events : ¬ ∀ (lib : JsonValue Json) (input : PerfInput Json)
    (env : PerfEnv) (s : PerfSetup) (c : PerfCollector), construct lib input = some s →
      s.init env = some c → c.CountersFit := by
  intro h
  have hfit := h Json.value (cpuEvents 8) replayEnv _ _ rfl rfl
  have hcount := (hfit _ List.mem_cons_self).count
  exact absurd hcount (by decide)

end LibCollector.Perf
