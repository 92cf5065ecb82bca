import LibCollector.Misc.Json
import LibCollector.Perf.Collector

/-!
# The events of the perf collector

The constructor of `PerfCollector` in `src/collectors/perf.cpp`, `create_perf_thread()` and
`init()`: from the configuration to the groups of events, to the threads, and to the counters of
their contexts. The files of the device types, the threads of the process and the descriptors of
the counters are inputs; an exception is `none`. Messages are left out.
-/

namespace LibCollector.Perf

open LibCollector.Misc

/-- `hw_cnt_length`. -/
inductive HwCntLength where
  | b32
  | b64
  deriving DecidableEq

/-- `struct event`. -/
structure PerfEvent where
  name : Str
  type : UInt32
  config : UInt64
  excUser : Bool := false
  excKernel : Bool := false
  len : HwCntLength := .b32
  bookerCi : Bool := false
  cspmu : Bool := false
  device : Str := []
  inherited : UInt32 := 0
  deriving DecidableEq

/-! ## Tables -/

/-- An event of type `PERF_TYPE_HARDWARE`. -/
def hardware (name : Str) (config : UInt64) : PerfEvent where
  name := name
  type := 0
  config := config

/-- An event of type `PERF_TYPE_RAW`. -/
def raw (name : Str) (config : UInt64) : PerfEvent where
  name := name
  type := 4
  config := config

/-- `EVENTS`. -/
def eventSet : Int → List PerfEvent
  | 0 => [hardware "CPUInstructionRetired".toList 1, hardware "CPUCacheReferences".toList 2,
      hardware "CPUCacheMisses".toList 3, hardware "CPUBranchMispredictions".toList 5]
  | 1 => [raw "CPUInstructionRetired".toList 0x8, raw "CPUL1CacheAccesses".toList 0x4,
      raw "CPUL2CacheAccesses".toList 0x16, raw "CPULASESpec".toList 0x74,
      raw "CPUVFPSpec".toList 0x75, raw "CPUCryptoSpec".toList 0x77]
  | 2 => [raw "CPUL3CacheAccesses".toList 0x2b, raw "CPUBusAccessRead".toList 0x60,
      raw "CPUBusAccessWrite".toList 0x61, raw "CPUMemoryAccessRead".toList 0x66,
      raw "CPUMemoryAccessWrite".toList 0x67]
  | 3 => [raw "CPUBusAccesses".toList 0x19, raw "CPUL2CacheRead".toList 0x50,
      raw "CPUL2CacheWrite".toList 0x51, raw "CPUMemoryAccessRead".toList 0x66,
      raw "CPUMemoryAccessWrite".toList 0x67]
  | _ => []

/-- The entries of `NodeTypes`. -/
def nodeTypes : List (Str × UInt64) :=
  [("DVM".toList, 1), ("CFG".toList, 2), ("DTC".toList, 3), ("HNI".toList, 4), ("HNF".toList, 5),
    ("XP".toList, 6), ("SBSX".toList, 7), ("MPAM_S".toList, 8), ("MPAM_NS".toList, 9),
    ("RNI".toList, 0xa), ("RND".toList, 0xd), ("RNSAM".toList, 0xf), ("MTSX".toList, 0x10),
    ("CXRA".toList, 0x100), ("CXHA".toList, 0x101), ("CXLA".toList, 0x102), (" ".toList, 0)]

/-- `NodeTypes[ type ]`, zero for a type that is not listed. -/
def nodeType (type : Str) : UInt64 := ((nodeTypes.find? fun e => e.1 = type).map Prod.snd).getD 0

/-- `makeup_booker_ci_config`. -/
def makeupBookerCiConfig (nodetype eventid : UInt64) (bynodeid : Bool) (nodeid : UInt64) : UInt64 :=
  (nodeid <<< (32 : UInt64) &&& 0x0000FFFF00000000) ||| (if bynodeid then 0x80000000 else 0) |||
    (eventid <<< (16 : UInt64) &&& 0x00FF0000) ||| (nodetype &&& 0x0000FFFF)

/-! ## The constructor -/

/-- What the constructor sees: `mConfig`, whether counters are read for each API call, the width of
    the counters then, and the first line of `/sys/devices/<device>/type`. -/
structure PerfInput (J : Type) where
  config : J
  perapi : Bool
  pmuCounterBits : Nat
  deviceType : Str → Option Str

/-- The device of the CPU counters. -/
def single : Str := "single".toList

/-- `leader`. -/
def leaderEvent (inherited : UInt32) (len : HwCntLength) : PerfEvent where
  name := "CPUCycleCount".toList
  type := 0
  config := 0
  len := len
  device := single
  inherited := inherited

/-- The members that the constructor fills in, and its variable `leaderOnce`. -/
structure EventGroups where
  mEvents : OrdMap Str (List PerfEvent) := ∅
  mCSPMUEvents : OrdMap Str (List PerfEvent) := ∅
  mBookerEvents : List PerfEvent := []
  leaderOnce : Bool := true
  deriving DecidableEq

/-- `m[ device ].push_back( e )`. -/
def pushEvent (device : Str) (e : PerfEvent) (m : OrdMap Str (List PerfEvent)) :
    OrdMap Str (List PerfEvent) :=
  m.insert device ((m.find? device).getD [] ++ [e])

/-- `m.emplace( device, es )`, which keeps what is there. -/
def emplace (device : Str) (es : List PerfEvent) (m : OrdMap Str (List PerfEvent)) :
    OrdMap Str (List PerfEvent) :=
  if m.find? device = none then m.insert device es else m

/-- Where the constructor puts an element of the array `event`. -/
inductive Placement where
  | skipped
  | cspmu (e : PerfEvent)
  | device (e : PerfEvent)
  | booker (es : List PerfEvent)
  | cpu (e : PerfEvent)

section constructor

variable {J : Type} (lib : JsonValue J) (input : PerfInput J) (mInherit : Int)

/-- The element has a name, a type or a device, and a configuration. -/
def specified (item : J) : Option Bool := do
  if ← lib.isMember item "name".toList then
    let hasType ← lib.isMember item "type".toList
    if ← if hasType then pure true else lib.isMember item "device".toList then
      lib.isMember item "config".toList
    else pure false
  else pure false

/-- The length of the counter is not that of the registers, where these are read. -/
def wrongLength (len : HwCntLength) : Prop :=
  input.perapi = true ∧ (len = .b32 ∧ input.pmuCounterBits ≠ 32 ∨
    len = .b64 ∧ input.pmuCounterBits ≠ 64)

instance (len : HwCntLength) : Decidable (wrongLength input len) :=
  inferInstanceAs (Decidable (_ ∧ _))

/-- The event of an element, but for its configuration. -/
def readEvent (item : J) : Option (Option PerfEvent) := do
  let name ← lib.getAs lib.asString item "name".toList []
  let type ← lib.getAs lib.asInt item "type".toList 0
  let excUser ← lib.getAs lib.asBool item "excludeUser".toList false
  let excKernel ← lib.getAs lib.asBool item "excludeKernel".toList false
  let bits ← lib.getAs lib.asInt item "counterLen64bit".toList 0
  let len : HwCntLength := if bits = 0 then .b32 else .b64
  if wrongLength input len then pure none
  else
    let bookerCi ← lib.getAs lib.asInt item "booker-ci".toList 0
    let cspmu ← lib.getAs lib.asInt item "CSPMU".toList 0
    let device ← lib.getAs lib.asString item "device".toList []
    pure (some {
      name := name, type := UInt32.ofInt type, config := 0, excUser := excUser
      excKernel := excKernel, len := len, bookerCi := bookerCi ≠ 0, cspmu := cspmu ≠ 0
      device := device, inherited := UInt32.ofInt mInherit })

/-- The event of an element with a device, if the type of the device is known. -/
def placeDevice (item : J) (e : PerfEvent) : Option Placement := do
  let config ← lib.getAs lib.asUInt64 item "config".toList 0
  match input.deviceType e.device with
  | none => pure .skipped
  | some line =>
    let e := { e with config := UInt64.ofNat config, type := UInt32.ofInt (atoi line) }
    if e.cspmu then pure (.cspmu { e with name := e.device ++ '_' :: e.name })
    else pure (.device e)

/-- The events of an element for the interconnect, one for each node if nodes are listed. -/
def placeBooker (item : J) (e : PerfEvent) : Option Placement := do
  let eventid ← lib.getAs lib.asInt item "config".toList 0
  let type ← lib.getAs lib.asString item "nodetype".toList " ".toList
  let bynodeid ← lib.getAs lib.asInt item "bynodeid".toList 0
  if bynodeid ≠ 0 then
    let ids ← lib.member item "nodeid".toList
    let es ← (List.range (lib.size ids)).mapM fun i =>
      ((lib.element ids i).bind lib.asUInt64).map fun nodeid =>
        { e with
          config := makeupBookerCiConfig (nodeType type) (UInt64.ofInt eventid) true
            (UInt64.ofNat nodeid)
          name := e.name ++ "_node".toList ++ toChars nodeid }
    pure (.booker es)
  else
    pure (.booker [{ e with
      config := makeupBookerCiConfig (nodeType type) (UInt64.ofInt eventid) false 0 }])

/-- What the constructor reads of an element of `event`. -/
def placement (item : J) : Option Placement := do
  if ← specified lib item then
    match ← readEvent lib input mInherit item with
    | none => pure .skipped
    | some e =>
      if e.device ≠ [] then placeDevice lib input item e
      else if e.bookerCi then placeBooker lib item e
      else
        let config ← lib.getAs lib.asUInt64 item "config".toList 0
        pure (.cpu { e with config := UInt64.ofNat config })
  else pure .skipped

/-- The elements of `event`, one after the other. -/
def placements : Option (List Placement) := do
  if ← lib.isMember input.config "event".toList then
    let eventArray ← lib.member input.config "event".toList
    (List.range (lib.size eventArray)).mapM fun i =>
      (lib.element eventArray i).bind (placement lib input mInherit)
  else pure []

end constructor

namespace EventGroups

/-- The leader is added once. -/
def addLeader (mInherit : Int) (len : HwCntLength) (s : EventGroups) : EventGroups :=
  if s.leaderOnce then
    { s with
      mEvents := emplace single [leaderEvent (UInt32.ofInt mInherit) len] s.mEvents
      leaderOnce := false }
  else s

/-- An event of the CPU, after the leader if it is the first one. -/
def addCpu (mInherit : Int) (e : PerfEvent) (s : EventGroups) : EventGroups :=
  let s := s.addLeader mInherit e.len
  { s with mEvents := pushEvent single { e with device := single } s.mEvents }

/-- The end of the loop over `event`. -/
def place (mInherit : Int) (s : EventGroups) : Placement → EventGroups
  | .skipped => s
  | .cspmu e => { s with mCSPMUEvents := pushEvent e.device e s.mCSPMUEvents }
  | .device e => { s with mEvents := pushEvent e.device e s.mEvents }
  | .booker es => { s with mBookerEvents := s.mBookerEvents ++ es }
  | .cpu e => s.addCpu mInherit e

/-- The leader and the events of a reserved set. -/
def ofSet (mSet mInherit : Int) : EventGroups where
  mEvents := (eventSet mSet).foldl
    (fun m e => pushEvent single { e with device := single, inherited := UInt32.ofInt mInherit } m)
    (emplace single [leaderEvent (UInt32.ofInt mInherit) .b32] ∅)

end EventGroups

/-- The groups of a reserved set, or of the configured events. -/
def configuredGroups {J : Type} (lib : JsonValue J) (input : PerfInput J) (mSet mInherit : Int) :
    Option EventGroups :=
  if 0 ≤ mSet ∧ mSet ≤ 3 then some (EventGroups.ofSet mSet mInherit)
  else (placements lib input mInherit).map fun ps => ps.foldl (EventGroups.place mInherit) {}

/-- What the constructor leaves. -/
structure PerfSetup where
  groups : EventGroups
  mAllThread : Bool
  mEnablePerapiPerf : Bool

/-- `PerfCollector::PerfCollector`. -/
def construct {J : Type} (lib : JsonValue J) (input : PerfInput J) : Option PerfSetup := do
  let mSet ← lib.getAs lib.asInt input.config "set".toList (-1)
  let mInherit ← lib.getAs lib.asInt input.config "inherit".toList 1
  let groups ← configuredGroups lib input mSet mInherit
  let mAllThread ← lib.getAs lib.asBool input.config "allthread".toList (!input.perapi)
  pure ⟨groups, mAllThread, input.perapi⟩

/-! ## Threads and counters -/

/-- The process: its number and name, its threads if `/proc/self/task` can be read, and the
    descriptor of a counter, for the thread, the device and the place in the group. -/
structure PerfEnv where
  pid : Int
  processName : Str
  tasks : Option (List (Int × Str))
  openCounter : Int → Str → Nat → Int

/-- The threads whose counters are reported as replay threads. -/
def IsReplay (name : Str) : Prop := "patrace-".toList <+: name

/-- The background threads. -/
def IsBackground (name : Str) : Prop := "mali-".toList <+: name ∨ "ANGLE-".toList <+: name

instance (name : Str) : Decidable (IsReplay name) := inferInstanceAs (Decidable (_ <+: _))

instance (name : Str) : Decidable (IsBackground name) := inferInstanceAs (Decidable (_ ∨ _))

namespace PerfSetup

/-- A thread for each group of `mEvents`. -/
def groupThreads (s : PerfSetup) (task : Int × Str) : List PerfThread :=
  s.groups.mEvents.keys.map fun device => { tid := task.1, name := task.2, deviceName := device }

/-- `PerfCollector::create_perf_thread`. -/
def createPerfThread (s : PerfSetup) (env : PerfEnv) : PerfCollector :=
  if s.groups.mCSPMUEvents ≠ ∅ then
    { mAllThread := s.mAllThread
      mCSPMUThreads := s.groups.mCSPMUEvents.keys.map fun device =>
        { tid := env.pid, name := env.processName, deviceName := device } }
  else
    match env.tasks with
    | none => { mAllThread := s.mAllThread }
    | some tasks =>
      { mAllThread := s.mAllThread
        mReplayThreads := (tasks.filter fun t => IsReplay t.2).flatMap s.groupThreads
        mBgThreads := (tasks.filter fun t => s.mAllThread ∧ IsBackground t.2).flatMap s.groupThreads
        mBookerThread := if 0 < s.groups.mBookerEvents.length then
            [{ tid := env.pid, name := env.processName }] else [] }

/-- `t.eventCtx.init( events, … )`, for the number that is passed as `tid`. -/
def initThread (env : PerfEnv) (tid : Int) (events : List PerfEvent) (t : PerfThread) :
    Option PerfThread :=
  (t.eventCtx.init (events.zipIdx.map fun e =>
    (e.1.name, env.openCounter tid t.deviceName e.2))).map fun ctx => { t with eventCtx := ctx }

/-- A replay thread, before its counters are opened. -/
def enablePerApi (s : PerfSetup) (t : PerfThread) : PerfThread :=
  if s.mEnablePerapiPerf then { t with eventCtx := { t.eventCtx with mEnablePerapiPerf := true } }
  else t

/-- The events of a device. -/
def eventsOf (m : OrdMap Str (List PerfEvent)) (device : Str) : List PerfEvent :=
  (m.find? device).getD []

/-- `PerfCollector::init`. -/
def init (s : PerfSetup) (env : PerfEnv) : Option PerfCollector := do
  let c := s.createPerfThread env
  let replay ← c.mReplayThreads.mapM fun t =>
    initThread env t.tid (eventsOf s.groups.mEvents t.deviceName) (s.enablePerApi t)
  let bg ← c.mBgThreads.mapM fun t =>
    initThread env t.tid (eventsOf s.groups.mEvents t.deviceName) t
  let cspmu ← c.mCSPMUThreads.mapM fun t =>
    initThread env (-1) (eventsOf s.groups.mCSPMUEvents t.deviceName) t
  let booker ← c.mBookerThread.mapM fun t => initThread env (-1) s.groups.mBookerEvents t
  pure { c with
    mReplayThreads := replay, mBgThreads := bg, mCSPMUThreads := cspmu, mBookerThread := booker }

end PerfSetup

end LibCollector.Perf
