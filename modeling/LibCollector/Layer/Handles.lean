import LibCollector.Misc.Heap
import LibCollector.Misc.Run
import Mathlib.Data.Set.Function

/-!
# The handle maps of the Vulkan layer

`src/layer/vulkan_layer.cpp` keeps a dispatch table for each instance and a context for each
device, and remembers for each queue the context of the device it was asked from. The create
functions do not look at the result of the next layer, and `lc_vkDestroyDevice` leaves the queues
alone, so the maps track the live objects in exactly the runs that avoid both
(`tracks_iff`).

Of the dispatch tables the model has the pointers that these calls go through, as whether they are
null or not; what the frames of a context are for is in `LibCollector.Layer.Frames`. A call that
goes through a null pointer or one that dangles does not return.
-/

namespace LibCollector.Layer

open LibCollector.Misc

/-- `VkResult`. -/
abbrev VkResult := Int32

/-- `VK_SUCCESS`. -/
def vkSuccess : VkResult := 0

/-- `VK_ERROR_INITIALIZATION_FAILED`. -/
def vkErrorInitializationFailed : VkResult := -3

/-- The values of `sType` that the layer looks for. -/
inductive VkStructureType where
  | loaderInstanceCreateInfo
  | loaderDeviceCreateInfo
  | other
  deriving DecidableEq

/-- The values of `function` that the layer looks for. -/
inductive VkLayerFunction where
  | layerLinkInfo
  | other
  deriving DecidableEq

/-- An entry of the `pNext` chain of the create info. -/
structure LayerCreateInfo where
  sType : VkStructureType
  function : VkLayerFunction
  deriving DecidableEq

/-- The `while` loop over the `pNext` chain. -/
def findLink (sType : VkStructureType) (pNext : List LayerCreateInfo) : Option LayerCreateInfo :=
  pNext.find? fun info => info.sType = sType ∧ info.function = .layerLinkInfo

/-- `struct InstanceDispatchTable`. -/
structure InstanceDispatchTable where
  nextDestroyInstance : Bool
  deriving DecidableEq

/-- The dispatch table in `struct vkCollectorContext`. -/
structure ContextDispatchTable where
  nextDestroyDevice : Bool
  nextGetDeviceQueue : Bool
  deriving DecidableEq

/-- What the create function of the next layer did. After an error there is no valid handle behind
    the output pointer: the key is what is read in its place (`none` where the access faults), and
    the table is what the next layer's `gipa` or `gdpa` gives for it (`none` where it does not
    return). -/
inductive Created (Handle Key Table : Type) where
  | success (handle : Handle) (table : Table)
  | error (code : VkResult) (key : Option Key) (table : Option Table)

namespace Created

variable {Handle Key Table : Type}

/-- The result, `ret` in the source. -/
def ret : Created Handle Key Table → VkResult
  | success _ _ => vkSuccess
  | error code _ _ => code

/-- The key under which the layer stores what is created. -/
def key (getKey : Handle → Key) : Created Handle Key Table → Option Key
  | success handle _ => some (getKey handle)
  | error _ key _ => key

/-- The functions of the next layer. -/
def table : Created Handle Key Table → Option Table
  | success _ table => some table
  | error _ _ table => table

/-- The handle that has been created. -/
def handle : Created Handle Key Table → Option Handle
  | success handle _ => some handle
  | error _ _ _ => none

/-- The error. -/
def failure : Created Handle Key Table → Option VkResult
  | success _ _ => none
  | error code _ _ => some code

end Created

variable {Instance Key Device Queue : Type}

/-- The static maps of the layer. Their values are pointers. -/
structure HandleMaps (Key Device Queue : Type) where
  instanceDispatchMap : Key → Option Nat
  deviceToContextMap : Device → Option Nat
  queueToContextMap : Queue → Option Nat

/-- The maps, and what the pointers point to. -/
structure LayerState (Key Device Queue : Type) extends HandleMaps Key Device Queue where
  tables : Heap InstanceDispatchTable
  contexts : Heap ContextDispatchTable

/-! ## The calls -/

section calls

variable [DecidableEq Key] [DecidableEq Device] [DecidableEq Queue]

/-- `lc_vkCreateInstance`. -/
def lcVkCreateInstance (getKey : Instance → Key) (pNext : List LayerCreateInfo)
    (next : Created Instance Key InstanceDispatchTable) (s : LayerState Key Device Queue) :
    Option (VkResult × LayerState Key Device Queue) :=
  match findLink .loaderInstanceCreateInfo pNext with
  | none => some (vkErrorInitializationFailed, s)
  | some _ => do
    let newTable ← next.table
    let key ← next.key getKey
    return (next.ret, { s with
      instanceDispatchMap := Function.update s.instanceDispatchMap key (some s.tables.next)
      tables := s.tables.new newTable })

/-- `lc_vkDestroyInstance`. -/
def lcVkDestroyInstance (getKey : Instance → Key) (inst : Instance)
    (s : LayerState Key Device Queue) : Option (LayerState Key Device Queue) := do
  let table ← s.instanceDispatchMap (getKey inst)
  let dispatch ← s.tables.cell table
  guard dispatch.nextDestroyInstance
  return { s with
    instanceDispatchMap := Function.update s.instanceDispatchMap (getKey inst) none
    tables := s.tables.delete table }

/-- `lc_vkCreateDevice`; here the handle itself is the key. -/
def lcVkCreateDevice (pNext : List LayerCreateInfo)
    (next : Created Device Device ContextDispatchTable) (s : LayerState Key Device Queue) :
    Option (VkResult × LayerState Key Device Queue) :=
  match findLink .loaderDeviceCreateInfo pNext with
  | none => some (vkErrorInitializationFailed, s)
  | some _ => do
    let newContext ← next.table
    let device ← next.key id
    return (next.ret, { s with
      deviceToContextMap := Function.update s.deviceToContextMap device (some s.contexts.next)
      contexts := s.contexts.new newContext })

/-- `lc_vkDestroyDevice`; `postprocess_results` does not touch the maps. -/
def lcVkDestroyDevice (device : Device) (s : LayerState Key Device Queue) :
    Option (LayerState Key Device Queue) := do
  let context ← s.deviceToContextMap device
  let dispatch ← s.contexts.cell context
  guard dispatch.nextDestroyDevice
  return { s with
    deviceToContextMap := Function.update s.deviceToContextMap device none
    contexts := s.contexts.delete context }

/-- `lc_vkGetDeviceQueue`, where `queue` is what the next layer writes to `pQueue`. -/
def lcVkGetDeviceQueue (device : Device) (queue : Queue) (s : LayerState Key Device Queue) :
    Option (LayerState Key Device Queue) := do
  let context ← s.deviceToContextMap device
  let dispatch ← s.contexts.cell context
  guard dispatch.nextGetDeviceQueue
  return { s with
    queueToContextMap := Function.update s.queueToContextMap queue (some context) }

/-! ## The application's side -/

/-- The layer's state, and the objects that have been created and not destroyed yet. -/
structure HandleSystem (Instance Key Device Queue : Type) where
  layer : LayerState Key Device Queue
  instances : Set Instance
  devices : Set Device

/-- A call, with what the next layer does in it. -/
inductive HandleCall (Instance Key Device Queue : Type) where
  | createInstance (pNext : List LayerCreateInfo)
      (next : Created Instance Key InstanceDispatchTable)
  | destroyInstance (inst : Instance)
  | createDevice (pNext : List LayerCreateInfo)
      (next : Created Device Device ContextDispatchTable)
  | destroyDevice (device : Device)
  | getDeviceQueue (device : Device) (queue : Queue)

/-- The error of a create, that of the layer itself or that of the next layer. -/
def HandleCall.failure : HandleCall Instance Key Device Queue → Option VkResult
  | createInstance pNext next =>
    match findLink .loaderInstanceCreateInfo pNext with
    | none => some vkErrorInitializationFailed
    | some _ => next.failure
  | createDevice pNext next =>
    match findLink .loaderDeviceCreateInfo pNext with
    | none => some vkErrorInitializationFailed
    | some _ => next.failure
  | destroyInstance _ | destroyDevice _ | getDeviceQueue _ _ => none

namespace HandleSystem

/-- Before the first call. -/
def init : HandleSystem Instance Key Device Queue where
  layer := {
    instanceDispatchMap := fun _ => none
    deviceToContextMap := fun _ => none
    queueToContextMap := fun _ => none
    tables := Heap.empty
    contexts := Heap.empty }
  instances := ∅
  devices := ∅

/-- A call and what it returns, if it has a result. -/
def call (getKey : Instance → Key) (s : HandleSystem Instance Key Device Queue) :
    HandleCall Instance Key Device Queue →
      Option (Option VkResult × HandleSystem Instance Key Device Queue)
  | .createInstance pNext next =>
    (lcVkCreateInstance getKey pNext next s.layer).map fun r => (some r.1, { s with
      layer := r.2
      instances := s.instances ∪ { inst | r.1 = vkSuccess ∧ next.handle = some inst } })
  | .destroyInstance inst =>
    (lcVkDestroyInstance getKey inst s.layer).map fun layer => (none, { s with
      layer := layer
      instances := s.instances \ {inst} })
  | .createDevice pNext next =>
    (lcVkCreateDevice pNext next s.layer).map fun r => (some r.1, { s with
      layer := r.2
      devices := s.devices ∪ { device | r.1 = vkSuccess ∧ next.handle = some device } })
  | .destroyDevice device =>
    (lcVkDestroyDevice device s.layer).map fun layer => (none, { s with
      layer := layer
      devices := s.devices \ {device} })
  | .getDeviceQueue device queue =>
    (lcVkGetDeviceQueue device queue s.layer).map fun layer => (none, { s with layer := layer })

/-- The state after a call. -/
def step (getKey : Instance → Key) (s : HandleSystem Instance Key Device Queue)
    (c : HandleCall Instance Key Device Queue) : Option (HandleSystem Instance Key Device Queue) :=
  (s.call getKey c).map Prod.snd

/-- What the application and the next layer may do: handles are used while their objects live, a
    new object is distinct from the live ones and comes with its functions, and a failure is an
    error code. -/
def Legal (getKey : Instance → Key) (s : HandleSystem Instance Key Device Queue) :
    HandleCall Instance Key Device Queue → Prop
  | .createInstance _ (.success inst table) =>
    (∀ live ∈ s.instances, getKey live ≠ getKey inst) ∧ table.nextDestroyInstance = true
  | .createInstance _ (.error code _ _) => code < 0
  | .destroyInstance inst => inst ∈ s.instances
  | .createDevice _ (.success device table) =>
    device ∉ s.devices ∧ table.nextDestroyDevice = true ∧ table.nextGetDeviceQueue = true
  | .createDevice _ (.error code _ _) => code < 0
  | .destroyDevice device => device ∈ s.devices
  | .getDeviceQueue device _ => device ∈ s.devices

/-- The keys of the maps are those of the live objects, and the contexts of the queues are those of
    live devices. -/
structure Tracks (getKey : Instance → Key) (s : HandleSystem Instance Key Device Queue) :
    Prop where
  instances : ∀ key,
    (s.layer.instanceDispatchMap key).isSome ↔ ∃ inst ∈ s.instances, getKey inst = key
  devices : ∀ device, (s.layer.deviceToContextMap device).isSome ↔ device ∈ s.devices
  queues : ∀ queue context, s.layer.queueToContextMap queue = some context →
    ∃ device, s.layer.deviceToContextMap device = some context

/-- The call returns in a state that satisfies `P`, and if it is a create that fails it returns the
    error and leaves the maps as they are. -/
def LeadsTo (getKey : Instance → Key) (P : HandleSystem Instance Key Device Queue → Prop)
    (s : HandleSystem Instance Key Device Queue) (c : HandleCall Instance Key Device Queue) :
    Prop :=
  ∃ ret t, s.call getKey c = some (ret, t) ∧ P t ∧
    ∀ code, c.failure = some code →
      ret = some code ∧ t.layer.toHandleMaps = s.layer.toHandleMaps

/-- The maps track the live objects after the call, too. -/
def TracksAt (getKey : Instance → Key) (s : HandleSystem Instance Key Device Queue)
    (c : HandleCall Instance Key Device Queue) : Prop :=
  s.LeadsTo getKey (Tracks getKey) c

/-- The next layer creates what it is asked for, and a device that is destroyed has no queue in the
    maps. -/
def AvoidsStale (s : HandleSystem Instance Key Device Queue) :
    HandleCall Instance Key Device Queue → Prop
  | .createInstance pNext next =>
    (findLink .loaderInstanceCreateInfo pNext).isSome → next.handle.isSome
  | .createDevice pNext next =>
    (findLink .loaderDeviceCreateInfo pNext).isSome → next.handle.isSome
  | .destroyDevice device =>
    ∀ queue context, s.layer.queueToContextMap queue = some context →
      s.layer.deviceToContextMap device ≠ some context
  | .destroyInstance _ | .getDeviceQueue _ _ => True

/-- The maps track the live objects, and each of their keys owns what is stored under it. -/
structure Inv (getKey : Instance → Key) (s : HandleSystem Instance Key Device Queue) :
    Prop where
  tracks : s.Tracks getKey
  keys : Set.InjOn getKey s.instances
  tables : Owns s.layer.instanceDispatchMap s.layer.tables fun table =>
    table.nextDestroyInstance = true
  contexts : Owns s.layer.deviceToContextMap s.layer.contexts fun table =>
    table.nextDestroyDevice = true ∧ table.nextGetDeviceQueue = true

/-! ## What a call does -/

section spec

variable {getKey : Instance → Key} {s : HandleSystem Instance Key Device Queue}

/-- Without the loader's link info the next layer is not called. -/
theorem call_createInstance_none {pNext : List LayerCreateInfo}
    (hlink : findLink .loaderInstanceCreateInfo pNext = none)
    (next : Created Instance Key InstanceDispatchTable) :
    s.call getKey (.createInstance pNext next) = some (some vkErrorInitializationFailed, s) := by
  have hfail : vkErrorInitializationFailed ≠ vkSuccess := by decide
  simp [call, lcVkCreateInstance, hlink, hfail]

theorem call_createDevice_none {pNext : List LayerCreateInfo}
    (hlink : findLink .loaderDeviceCreateInfo pNext = none)
    (next : Created Device Device ContextDispatchTable) :
    s.call getKey (.createDevice pNext next) = some (some vkErrorInitializationFailed, s) := by
  have hfail : vkErrorInitializationFailed ≠ vkSuccess := by decide
  simp [call, lcVkCreateDevice, hlink, hfail]

theorem call_createInstance_success {pNext : List LayerCreateInfo} {info : LayerCreateInfo}
    (hlink : findLink .loaderInstanceCreateInfo pNext = some info) (inst : Instance)
    (table : InstanceDispatchTable) :
    s.call getKey (.createInstance pNext (.success inst table)) =
      some (some vkSuccess, { s with
        layer := { s.layer with
          instanceDispatchMap :=
            Function.update s.layer.instanceDispatchMap (getKey inst) (some s.layer.tables.next)
          tables := s.layer.tables.new table }
        instances := insert inst s.instances }) := by
  simp [call, lcVkCreateInstance, hlink, Created.table, Created.key, Created.ret, Created.handle]

theorem call_createDevice_success {pNext : List LayerCreateInfo} {info : LayerCreateInfo}
    (hlink : findLink .loaderDeviceCreateInfo pNext = some info) (device : Device)
    (table : ContextDispatchTable) :
    s.call getKey (.createDevice pNext (.success device table)) =
      some (some vkSuccess, { s with
        layer := { s.layer with
          deviceToContextMap :=
            Function.update s.layer.deviceToContextMap device (some s.layer.contexts.next)
          contexts := s.layer.contexts.new table }
        devices := insert device s.devices }) := by
  simp [call, lcVkCreateDevice, hlink, Created.table, Created.key, Created.ret, Created.handle]

/-- A failing create stores something in the map all the same, if it returns. -/
theorem call_createInstance_error {pNext : List LayerCreateInfo} {info : LayerCreateInfo}
    (hlink : findLink .loaderInstanceCreateInfo pNext = some info) {code : VkResult}
    {key : Option Key} {table : Option InstanceDispatchTable} {ret : Option VkResult}
    {t : HandleSystem Instance Key Device Queue}
    (h : s.call getKey (.createInstance pNext (.error code key table)) = some (ret, t)) :
    ∃ k, t.layer.instanceDispatchMap =
      Function.update s.layer.instanceDispatchMap k (some s.layer.tables.next) := by
  obtain ⟨r, hr, heq⟩ := Option.map_eq_some_iff.mp h
  rw [lcVkCreateInstance, hlink] at hr
  obtain ⟨newTable, -, hr⟩ := Option.bind_eq_some_iff.mp hr
  obtain ⟨k, -, hr⟩ := Option.bind_eq_some_iff.mp hr
  cases hr
  cases heq
  exact ⟨k, rfl⟩

theorem call_createDevice_error {pNext : List LayerCreateInfo} {info : LayerCreateInfo}
    (hlink : findLink .loaderDeviceCreateInfo pNext = some info) {code : VkResult}
    {key : Option Device} {table : Option ContextDispatchTable} {ret : Option VkResult}
    {t : HandleSystem Instance Key Device Queue}
    (h : s.call getKey (.createDevice pNext (.error code key table)) = some (ret, t)) :
    ∃ k, t.layer.deviceToContextMap =
      Function.update s.layer.deviceToContextMap k (some s.layer.contexts.next) := by
  obtain ⟨r, hr, heq⟩ := Option.map_eq_some_iff.mp h
  rw [lcVkCreateDevice, hlink] at hr
  obtain ⟨newContext, -, hr⟩ := Option.bind_eq_some_iff.mp hr
  obtain ⟨k, -, hr⟩ := Option.bind_eq_some_iff.mp hr
  cases hr
  cases heq
  exact ⟨k, rfl⟩

theorem call_destroyInstance {inst : Instance} {ptr : Nat} {table : InstanceDispatchTable}
    (hmap : s.layer.instanceDispatchMap (getKey inst) = some ptr)
    (hcell : s.layer.tables.cell ptr = some table) (hfn : table.nextDestroyInstance = true) :
    s.call getKey (.destroyInstance inst) = some (none, { s with
      layer := { s.layer with
        instanceDispatchMap := Function.update s.layer.instanceDispatchMap (getKey inst) none
        tables := s.layer.tables.delete ptr }
      instances := s.instances \ {inst} }) := by
  simp [call, lcVkDestroyInstance, hmap, hcell, hfn]

theorem call_destroyDevice {device : Device} {context : Nat} {table : ContextDispatchTable}
    (hmap : s.layer.deviceToContextMap device = some context)
    (hcell : s.layer.contexts.cell context = some table) (hfn : table.nextDestroyDevice = true) :
    s.call getKey (.destroyDevice device) = some (none, { s with
      layer := { s.layer with
        deviceToContextMap := Function.update s.layer.deviceToContextMap device none
        contexts := s.layer.contexts.delete context }
      devices := s.devices \ {device} }) := by
  simp [call, lcVkDestroyDevice, hmap, hcell, hfn]

theorem call_getDeviceQueue {device : Device} {context : Nat} {table : ContextDispatchTable}
    (hmap : s.layer.deviceToContextMap device = some context)
    (hcell : s.layer.contexts.cell context = some table) (hfn : table.nextGetDeviceQueue = true)
    (queue : Queue) :
    s.call getKey (.getDeviceQueue device queue) = some (none, { s with
      layer := { s.layer with
        queueToContextMap :=
          Function.update s.layer.queueToContextMap queue (some context) } }) := by
  simp [call, lcVkGetDeviceQueue, hmap, hcell, hfn]

end spec

/-! ## Calls that keep the invariant -/

section inv

variable {getKey : Instance → Key} {s : HandleSystem Instance Key Device Queue}

omit [DecidableEq Key] [DecidableEq Device] [DecidableEq Queue] in
theorem inv_init : (init : HandleSystem Instance Key Device Queue).Inv getKey where
  tracks := {
    instances := by simp [init]
    devices := by simp [init]
    queues := by simp [init] }
  keys := by simp [init]
  tables := Owns.empty
  contexts := Owns.empty

omit [DecidableEq Key] [DecidableEq Device] [DecidableEq Queue] in
/-- A live device has a context that is still there. -/
theorem Inv.context_of_mem (inv : s.Inv getKey) {device : Device} (h : device ∈ s.devices) :
    ∃ context table, s.layer.deviceToContextMap device = some context ∧
      s.layer.contexts.cell context = some table ∧
      table.nextDestroyDevice = true ∧ table.nextGetDeviceQueue = true := by
  obtain ⟨context, hmap⟩ := Option.isSome_iff_exists.mp ((inv.tracks.devices device).mpr h)
  obtain ⟨table, hcell, hfns⟩ := inv.contexts.object device context hmap
  exact ⟨context, table, hmap, hcell, hfns⟩

/-- A new instance. -/
theorem Inv.createInstance (inv : s.Inv getKey) {pNext : List LayerCreateInfo}
    {next : Created Instance Key InstanceDispatchTable}
    (hlegal : s.Legal getKey (.createInstance pNext next))
    (havoid : s.AvoidsStale (.createInstance pNext next)) :
    s.LeadsTo getKey (Inv getKey) (.createInstance pNext next) := by
  cases hlink : findLink .loaderInstanceCreateInfo pNext with
  | none =>
    refine ⟨_, s, call_createInstance_none hlink next, inv, fun code hcode => ⟨?_, rfl⟩⟩
    rw [HandleCall.failure, hlink] at hcode
    exact hcode
  | some info =>
    cases next with
    | error code key table =>
      have hnone := havoid (by rw [hlink]; rfl)
      cases hnone
    | success inst table =>
      obtain ⟨hnew, htable⟩ := hlegal
      refine ⟨_, _, call_createInstance_success hlink inst table,
        ⟨⟨fun key => ?_, inv.tracks.devices, inv.tracks.queues⟩, ?_,
          inv.tables.insert (getKey inst) htable, inv.contexts⟩, fun code hcode => ?_⟩
      · rw [isSome_update_some, inv.tracks.instances]
        simp [eq_comm]
      · intro i hi j hj heq
        rcases hi with rfl | hi <;> rcases hj with rfl | hj
        · rfl
        · exact absurd heq.symm (hnew j hj)
        · exact absurd heq (hnew i hi)
        · exact inv.keys hi hj heq
      · rw [HandleCall.failure, hlink] at hcode
        cases hcode

/-- A new device. -/
theorem Inv.createDevice (inv : s.Inv getKey) {pNext : List LayerCreateInfo}
    {next : Created Device Device ContextDispatchTable}
    (hlegal : s.Legal getKey (.createDevice pNext next))
    (havoid : s.AvoidsStale (.createDevice pNext next)) :
    s.LeadsTo getKey (Inv getKey) (.createDevice pNext next) := by
  cases hlink : findLink .loaderDeviceCreateInfo pNext with
  | none =>
    refine ⟨_, s, call_createDevice_none hlink next, inv, fun code hcode => ⟨?_, rfl⟩⟩
    rw [HandleCall.failure, hlink] at hcode
    exact hcode
  | some info =>
    cases next with
    | error code key table =>
      have hnone := havoid (by rw [hlink]; rfl)
      cases hnone
    | success device table =>
      obtain ⟨hnew, htable⟩ := hlegal
      refine ⟨_, _, call_createDevice_success hlink device table,
        ⟨⟨inv.tracks.instances, fun d => ?_, fun queue context hqueue => ?_⟩, inv.keys,
          inv.tables, inv.contexts.insert device htable⟩, fun code hcode => ?_⟩
      · rw [isSome_update_some, inv.tracks.devices]
        exact Iff.rfl
      · -- the new device is not the one that owns the context
        obtain ⟨owner, howner⟩ := inv.tracks.queues queue context hqueue
        have hlive : owner ∈ s.devices := (inv.tracks.devices owner).mp (by rw [howner]; rfl)
        have hne : owner ≠ device := by
          rintro rfl
          exact hnew hlive
        exact ⟨owner, update_some_eq_some_iff.mpr (Or.inr ⟨hne, howner⟩)⟩
      · rw [HandleCall.failure, hlink] at hcode
        cases hcode

/-- An instance is destroyed. -/
theorem Inv.destroyInstance (inv : s.Inv getKey) {inst : Instance} (h : inst ∈ s.instances) :
    s.LeadsTo getKey (Inv getKey) (.destroyInstance inst) := by
  obtain ⟨ptr, hmap⟩ := Option.isSome_iff_exists.mp
    ((inv.tracks.instances (getKey inst)).mpr ⟨inst, h, rfl⟩)
  obtain ⟨table, hcell, hfn⟩ := inv.tables.object (getKey inst) ptr hmap
  refine ⟨_, _, call_destroyInstance hmap hcell hfn,
    ⟨⟨fun key => ?_, inv.tracks.devices, inv.tracks.queues⟩,
      Set.InjOn.mono Set.sdiff_subset inv.keys, inv.tables.erase hmap, inv.contexts⟩,
    fun code hcode => ?_⟩
  · rw [isSome_update_none, inv.tracks.instances]
    constructor
    · rintro ⟨hne, i, hi, rfl⟩
      refine ⟨i, ⟨hi, fun heq => hne ?_⟩, rfl⟩
      rw [heq]
    · rintro ⟨i, ⟨hi, hne⟩, rfl⟩
      exact ⟨fun heq => hne (inv.keys hi h heq), i, hi, rfl⟩
  · cases hcode

/-- A device is destroyed of which no queue is known. -/
theorem Inv.destroyDevice (inv : s.Inv getKey) {device : Device} (h : device ∈ s.devices)
    (havoid : s.AvoidsStale (.destroyDevice device)) :
    s.LeadsTo getKey (Inv getKey) (.destroyDevice device) := by
  obtain ⟨context, table, hmap, hcell, hfn, -⟩ := inv.context_of_mem h
  refine ⟨_, _, call_destroyDevice hmap hcell hfn,
    ⟨⟨inv.tracks.instances, fun d => ?_, fun queue c hqueue => ?_⟩, inv.keys, inv.tables,
      inv.contexts.erase hmap⟩, fun code hcode => ?_⟩
  · rw [isSome_update_none, inv.tracks.devices]
    exact and_comm
  · obtain ⟨owner, howner⟩ := inv.tracks.queues queue c hqueue
    have hne : owner ≠ device := by
      rintro rfl
      exact havoid queue c hqueue howner
    exact ⟨owner, update_none_eq_some_iff.mpr ⟨hne, howner⟩⟩
  · cases hcode

/-- A queue is got from a device. -/
theorem Inv.getDeviceQueue (inv : s.Inv getKey) {device : Device} (h : device ∈ s.devices)
    (queue : Queue) : s.LeadsTo getKey (Inv getKey) (.getDeviceQueue device queue) := by
  obtain ⟨context, table, hmap, hcell, -, hfn⟩ := inv.context_of_mem h
  refine ⟨_, _, call_getDeviceQueue hmap hcell hfn queue,
    ⟨⟨inv.tracks.instances, inv.tracks.devices, fun q c hqueue => ?_⟩, inv.keys, inv.tables,
      inv.contexts⟩, fun code hcode => ?_⟩
  · rcases update_some_eq_some_iff.mp hqueue with ⟨-, rfl⟩ | ⟨-, hold⟩
    · exact ⟨device, hmap⟩
    · exact inv.tracks.queues q c hold
  · cases hcode

/-- A call that meets the condition keeps the invariant. -/
theorem Inv.leadsTo (inv : s.Inv getKey) {c : HandleCall Instance Key Device Queue}
    (hlegal : s.Legal getKey c) (havoid : s.AvoidsStale c) : s.LeadsTo getKey (Inv getKey) c := by
  cases c with
  | createInstance pNext next => exact inv.createInstance hlegal havoid
  | destroyInstance inst => exact inv.destroyInstance hlegal
  | createDevice pNext next => exact inv.createDevice hlegal havoid
  | destroyDevice device => exact inv.destroyDevice hlegal havoid
  | getDeviceQueue device queue => exact inv.getDeviceQueue hlegal queue

/-! ## Calls that do not track -/

theorem Inv.not_tracksAt_createInstance (inv : s.Inv getKey) {pNext : List LayerCreateInfo}
    {next : Created Instance Key InstanceDispatchTable}
    (h : ¬ s.AvoidsStale (.createInstance pNext next)) :
    ¬ s.TracksAt getKey (.createInstance pNext next) := by
  obtain ⟨hlink, hnone⟩ := Classical.not_imp.mp h
  obtain ⟨info, hlink⟩ := Option.isSome_iff_exists.mp hlink
  cases next with
  | success inst table => exact absurd rfl hnone
  | error code key table =>
    rintro ⟨ret, t, hcall, -, hfail⟩
    obtain ⟨k, hmap⟩ := call_createInstance_error hlink hcall
    obtain ⟨-, hmaps⟩ := hfail code (by rw [HandleCall.failure, hlink]; rfl)
    apply inv.tables.update_ne k
    rw [← hmap, hmaps]

theorem Inv.not_tracksAt_createDevice (inv : s.Inv getKey) {pNext : List LayerCreateInfo}
    {next : Created Device Device ContextDispatchTable}
    (h : ¬ s.AvoidsStale (.createDevice pNext next)) :
    ¬ s.TracksAt getKey (.createDevice pNext next) := by
  obtain ⟨hlink, hnone⟩ := Classical.not_imp.mp h
  obtain ⟨info, hlink⟩ := Option.isSome_iff_exists.mp hlink
  cases next with
  | success device table => exact absurd rfl hnone
  | error code key table =>
    rintro ⟨ret, t, hcall, -, hfail⟩
    obtain ⟨k, hmap⟩ := call_createDevice_error hlink hcall
    obtain ⟨-, hmaps⟩ := hfail code (by rw [HandleCall.failure, hlink]; rfl)
    apply inv.contexts.update_ne k
    rw [← hmap, hmaps]

/-- The context of a queue that is left behind belongs to no other device. -/
theorem Inv.not_tracksAt_destroyDevice (inv : s.Inv getKey) {device : Device}
    (hlegal : device ∈ s.devices) (h : ¬ s.AvoidsStale (.destroyDevice device)) :
    ¬ s.TracksAt getKey (.destroyDevice device) := by
  simp only [AvoidsStale, not_forall, not_not] at h
  obtain ⟨queue, c, hqueue, hc⟩ := h
  obtain ⟨context, table, hmap, hcell, hfn, -⟩ := inv.context_of_mem hlegal
  rintro ⟨ret, t, hcall, htracks, -⟩
  rw [call_destroyDevice hmap hcell hfn] at hcall
  cases hcall
  obtain ⟨owner, howner⟩ := htracks.queues queue c hqueue
  obtain ⟨hne, hold⟩ := update_none_eq_some_iff.mp howner
  exact hne (inv.contexts.inj owner device c hold hc)

/-- The maps track the live objects after a call exactly if it meets the condition. -/
theorem Inv.tracksAt_iff (inv : s.Inv getKey) {c : HandleCall Instance Key Device Queue}
    (hlegal : s.Legal getKey c) : s.TracksAt getKey c ↔ s.AvoidsStale c := by
  constructor
  · intro h
    by_contra hstale
    cases c with
    | createInstance pNext next => exact inv.not_tracksAt_createInstance hstale h
    | destroyInstance inst => exact hstale trivial
    | createDevice pNext next => exact inv.not_tracksAt_createDevice hstale h
    | destroyDevice device => exact inv.not_tracksAt_destroyDevice hlegal hstale h
    | getDeviceQueue device queue => exact hstale trivial
  · intro h
    obtain ⟨ret, t, hcall, ht, hfail⟩ := inv.leadsTo hlegal h
    exact ⟨ret, t, hcall, ht.tracks, hfail⟩

/-- The invariant, one call further. -/
theorem Inv.step (inv : s.Inv getKey) {c : HandleCall Instance Key Device Queue}
    {t : HandleSystem Instance Key Device Queue} (hlegal : s.Legal getKey c)
    (havoid : s.AvoidsStale c) (h : s.step getKey c = some t) : t.Inv getKey := by
  obtain ⟨ret, t', hcall, ht, -⟩ := inv.leadsTo hlegal havoid
  rw [HandleSystem.step, hcall] at h
  cases h
  exact ht

end inv

/-! ## Runs -/

/-- In a run of legal calls the maps track the live objects after each of them exactly if each meets
    the condition. -/
theorem tracks_iff {getKey : Instance → Key} {calls : List (HandleCall Instance Key Device Queue)}
    (hlegal : StepsMeet (step getKey) (Legal getKey) init calls) :
    StepsMeet (step getKey) (TracksAt getKey) init calls ↔
      StepsMeet (step getKey) AvoidsStale init calls :=
  stepsMeet_congr_of_invariant (I := Inv getKey) (fun _ _ inv hc => inv.tracksAt_iff hc)
    (fun _ _ _ inv hc havoid h => inv.step hc havoid h) inv_init hlegal

/-- The loader's link info for an instance and for a device. -/
def linked : List LayerCreateInfo :=
  [⟨.loaderInstanceCreateInfo, .layerLinkInfo⟩, ⟨.loaderDeviceCreateInfo, .layerLinkInfo⟩]

/-- An instance and a device of it are created and destroyed, the next layer fails no call, and no
    queue is asked for. -/
def withoutQueue : List (HandleCall Nat Nat Nat Nat) :=
  [.createInstance linked (.success 1 ⟨true⟩), .createDevice linked (.success 2 ⟨true, true⟩),
    .destroyDevice 2, .destroyInstance 1]

theorem tracks_withoutQueue :
    StepsMeet (step id) (TracksAt id) init withoutQueue := by
  have hlegal : StepsMeet (step id) (Legal id) init withoutQueue := by
    refine ⟨⟨by simp [init], rfl⟩, fun t ht => ?_⟩
    cases ht
    refine ⟨⟨by simp [init], rfl, rfl⟩, fun t ht => ?_⟩
    cases ht
    refine ⟨Or.inr ⟨rfl, rfl⟩, fun t ht => ?_⟩
    cases ht
    exact ⟨Or.inr ⟨rfl, rfl⟩, fun t ht => trivial⟩
  refine (tracks_iff hlegal).mpr ⟨fun _ => rfl, fun t ht => ?_⟩
  cases ht
  refine ⟨fun _ => rfl, fun t ht => ?_⟩
  cases ht
  refine ⟨fun queue context h => ?_, fun t ht => ?_⟩
  · cases h
  · cases ht
    exact ⟨trivial, fun t ht => trivial⟩

/-- A device is destroyed after one of its queues has been used. -/
def withQueue : List (HandleCall Nat Nat Nat Nat) :=
  [.createInstance linked (.success 1 ⟨true⟩), .createDevice linked (.success 2 ⟨true, true⟩),
    .getDeviceQueue 2 3, .destroyDevice 2]

/-- The next layer cannot create an instance. -/
def failingCreate : List (HandleCall Nat Nat Nat Nat) :=
  [.createInstance linked (.error (-9) (some 1) (some ⟨false⟩))]

theorem not_tracks :
    (StepsMeet (step id) (Legal id) init withQueue ∧
      ¬ StepsMeet (step id) (TracksAt id) init withQueue) ∧
    (StepsMeet (step id) (Legal id) init failingCreate ∧
      ¬ StepsMeet (step id) (TracksAt id) init failingCreate) := by
  refine ⟨⟨?_, fun h => ?_⟩, ?_, fun h => ?_⟩
  · refine ⟨⟨by simp [init], rfl⟩, fun t ht => ?_⟩
    cases ht
    refine ⟨⟨by simp [init], rfl, rfl⟩, fun t ht => ?_⟩
    cases ht
    refine ⟨Or.inr ⟨rfl, rfl⟩, fun t ht => ?_⟩
    cases ht
    exact ⟨Or.inr ⟨rfl, rfl⟩, fun t ht => trivial⟩
  · obtain ⟨ret, t, hcall, htracks, -⟩ := (((h.2 _ rfl).2 _ rfl).2 _ rfl).1
    cases hcall
    obtain ⟨device, hdevice⟩ := htracks.queues 3 0 rfl
    obtain ⟨hne, hold⟩ := update_none_eq_some_iff.mp hdevice
    obtain ⟨heq, -⟩ | ⟨-, hinit⟩ := update_some_eq_some_iff.mp hold
    · exact hne heq
    · cases hinit
  · refine ⟨?_, fun _ _ => trivial⟩
    show (-9 : VkResult) < 0
    decide
  · obtain ⟨ret, t, hcall, -, hfail⟩ := h.1
    cases hcall
    obtain ⟨-, hmaps⟩ := hfail (-9) rfl
    have hkey := congrFun (congrArg HandleMaps.instanceDispatchMap hmaps) 1
    cases hkey

end HandleSystem

end calls

end LibCollector.Layer
