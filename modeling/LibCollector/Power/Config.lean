import LibCollector.Misc.Json
import LibCollector.Misc.Table

/-!
# The configuration of the power collector

`available()`, `init()` and `start()` of `PowerDataCollector`, and what `PowerDaemon::start` of
`src/collectors/power.cpp` makes of the configuration. Each of the three looks for a member `power`
of `mConfig`, and `init()` puts that member in the place of `mConfig`. What the daemon answers, and
whether the connection takes what is written, are inputs; sockets are left out, and an exception or
a failed assertion is `none`. The rails that `init()` has checked are used only if the
configuration has them once more, in a member `power` of the member `power`
(`usesValidated_iff`).
-/

namespace LibCollector.Power

open LibCollector.Misc

variable {J : Type}

/-! ## Rails -/

/-- The texts and the resistance of `struct Rail`. -/
structure Rail where
  name : Str
  voltageChannel : Str
  currentChannel : Str
  resistance : Int
  deriving DecidableEq

/-- `snprintf` into `size` bytes with `"%s"`. -/
def snprintf (size : Nat) (s : Str) : Str := s.take (size - 1)

/-- A text of a rail. -/
def railText (lib : JsonValue J) (rail : J) (key : Str) : Option Str :=
  ((lib.member rail key).bind lib.asCString).map (snprintf 15)

/-- A `struct Rail` as `PowerDaemon::start` fills it in. -/
def railOf (lib : JsonValue J) (rail : J) : Option Rail := do
  let name ← railText lib rail "name".toList
  let voltageChannel ← railText lib rail "voltage_channel".toList
  let currentChannel ← railText lib rail "current_channel".toList
  let resistance ← (lib.member rail "resistance".toList).bind lib.asInt
  pure ⟨name, voltageChannel, currentChannel, resistance⟩

/-- The rails of a configuration. -/
def railsOf (lib : JsonValue J) (root : J) : Option (List Rail) :=
  (lib.member root "rails".toList).bind fun config =>
    (List.range (lib.size config)).mapM fun i => (lib.element config i).bind (railOf lib)

/-- The checks of `init()` on a rail. -/
def railValid (lib : JsonValue J) (rail : J) : Option Bool := do
  if lib.isString (← lib.member rail "name".toList) then
    if lib.isString (← lib.member rail "voltage_channel".toList) then
      if lib.isString (← lib.member rail "current_channel".toList) then
        pure (lib.isInt (← lib.member rail "resistance".toList))
      else pure false
    else pure false
  else pure false

/-- The loop of `init()` over the rails. -/
def railsValid (lib : JsonValue J) (rails : J) : List Nat → Option Bool
  | [] => some true
  | i :: is => ((lib.element rails i).bind (railValid lib)).bind fun ok =>
      if ok then railsValid lib rails is else some false

/-! ## The daemon -/

/-- What is written to the daemon. -/
inductive Message where
  | command (text : Str)
  | railCount (n : Nat)
  | rail (r : Rail) (daqSerial : Str)
  deriving DecidableEq

/-- Whether a write takes the whole message, and whether an answer of the daemon is the awaited
    one, by their numbers. -/
structure Link where
  write : Nat → Bool
  synced : Nat → Bool

/-- The members of `PowerDaemon`. -/
structure PowerDaemon (J : Type) where
  mConfig : J
  mCollectRawData : Bool := false
  mBufferSize : Int := 120

/-- What a call returns, what it has written, and the object after it. -/
structure Started (A : Type) where
  ok : Bool
  sent : List Message
  after : A

namespace PowerDaemon

/-- `serial`. -/
def daqSerial (lib : JsonValue J) (root : J) : Option Str :=
  (lib.isMember root "daq_serial".toList).bind fun found =>
    if found then (lib.member root "daq_serial".toList).bind lib.asString else some []

/-- The loop of `start()` over the rails. -/
def sendRails (lib : JsonValue J) (link : Link) (config : J) (serial : Str) :
    List Nat → Option (Bool × List Message)
  | [] => some (true, [])
  | i :: is => ((lib.element config i).bind (railOf lib)).bind fun r =>
      if link.write (2 + i) then
        (sendRails lib link config serial is).map fun out =>
          (out.1, .rail r (snprintf 255 serial) :: out.2)
      else some (false, [])

/-- `PowerDaemon::start`. -/
def start (lib : JsonValue J) (link : Link) (root : J) (d : PowerDaemon J) :
    Option (Started (PowerDaemon J)) :=
  let command : Str → Message := .command
  if link.write 0 = false then some ⟨false, [], d⟩
  else (lib.member root "rails".toList).bind fun config =>
    if link.write 1 = false then some ⟨false, [command "RC".toList], d⟩
    else (daqSerial lib root).bind fun serial =>
      (sendRails lib link config serial (List.range (lib.size config))).map fun out =>
        let sent := command "RC".toList :: .railCount (lib.size config) :: out.2
        if out.1 = false then ⟨false, sent, d⟩
        else
          let d := { d with mConfig := config }
          if link.synced 0 = false ∨ link.write (2 + lib.size config) = false then ⟨false, sent, d⟩
          else ⟨link.synced 1, sent ++ [command "RT".toList], d⟩

/-- `numRails` of `PowerDaemon::stop`. -/
def numRails (lib : JsonValue J) (d : PowerDaemon J) : Nat := lib.size d.mConfig

end PowerDaemon

/-! ## The collector -/

/-- The members of `PowerDataCollector`. -/
structure PowerDataCollector (J : Type) where
  mConfig : J
  mCollecting : Bool := false
  mPD : PowerDaemon J

/-- Whether the daemon at an address can be reached within a time, and whether it answers the
    handshake within a time. -/
structure Daemon where
  connects : Str → Int → Int → Bool
  handshakes : Int → Bool

namespace PowerDataCollector

/-- `PowerDataCollector::available`. -/
def available (lib : JsonValue J) (c : PowerDataCollector J) : Option Bool :=
  if lib.isNull c.mConfig then some false
  else (lib.member c.mConfig "power".toList).map fun power => !lib.isNull power

/-- `pdip` and `pdport`. -/
def address (lib : JsonValue J) (config : J) : Option (Str × Int) := do
  let ip ← lib.member config "power_daemon_ip".toList
  if lib.isString ip then
    let pdip ← lib.asString ip
    let port ← lib.member config "power_daemon_port".toList
    if lib.isString port then
      let digits ← lib.asCString port
      pure (pdip, atoi digits)
    else pure (pdip, 0)
  else pure ([], 0)

/-- `connectTimeoutSec`. -/
def connectTimeout (lib : JsonValue J) (config : J) : Option Int := do
  let timeout ← lib.member config "connect_timeout".toList
  if lib.isInt timeout then lib.asInt timeout else pure 5

/-- What `init()` sets in the daemon. -/
def configure (lib : JsonValue J) (config : J) (d : PowerDaemon J) : Option (PowerDaemon J) := do
  let raw ← lib.member config "collect_raw_data".toList
  let collect ← if lib.isBool raw then lib.asBool raw else pure false
  let size ← lib.member config "buffer_size".toList
  let bufferSize ← if lib.isInt size then lib.asInt size else pure d.mBufferSize
  pure { d with mCollectRawData := d.mCollectRawData || collect, mBufferSize := bufferSize }

/-- `PowerDataCollector::init`. -/
def init (lib : JsonValue J) (daemon : Daemon) (c : PowerDataCollector J) :
    Option (Bool × PowerDataCollector J) := do
  guard (lib.isNull c.mConfig = false)
  let config ← lib.member c.mConfig "power".toList
  guard (lib.isNull config = false)
  let (pdip, pdport) ← address lib config
  let rails ← lib.member config "rails".toList
  if lib.isArray rails = false ∨ lib.size rails = 0 then pure (false, c)
  else
    let valid ← railsValid lib rails (List.range (lib.size rails))
    if valid = false then pure (false, c)
    else
      let timeout ← connectTimeout lib config
      if pdip = [] ∨ pdport = 0 then pure (false, c)
      else if daemon.connects pdip pdport timeout = false then pure (false, c)
      else if daemon.handshakes timeout = false then pure (false, c)
      else
        let mPD ← configure lib config c.mPD
        pure (true, { c with mConfig := config, mPD := mPD })

/-- `PowerDataCollector::start`. -/
def start (lib : JsonValue J) (link : Link) (c : PowerDataCollector J) :
    Option (Started (PowerDataCollector J)) :=
  (lib.member c.mConfig "power".toList).bind fun power =>
    (c.mPD.start lib link power).map fun out =>
      ⟨out.ok, out.sent, { c with mCollecting := c.mCollecting || out.ok, mPD := out.after }⟩

end PowerDataCollector

/-! ## The validated rails -/

/-- The messages of a start with these rails. -/
def messages (rails : List Rail) (serial : Str) : List Message :=
  .command "RC".toList :: .railCount rails.length ::
    rails.map (fun r => .rail r serial) ++ [.command "RT".toList]

/-- After `init()` has checked the rails of `power`, the collector is still available, `start()`
    sends these rails, and `stop()` counts them. -/
structure UsesValidated (lib : JsonValue J) (power : J) (c : PowerDataCollector J) : Prop where
  available : c.available lib = some true
  starts : ∃ rails, railsOf lib power = some rails ∧ rails ≠ [] ∧ ∀ link,
    ∃ out, c.start lib link = some out ∧ (out.ok = true →
      (∃ serial, out.sent = messages rails serial) ∧ out.after.mPD.numRails lib = rails.length)

/-- In the configuration there is a member `power` with the same rails, and with a serial number
    that is a text, if there is one. -/
def Nested (lib : JsonValue J) (power : J) : Prop :=
  ∃ inner, lib.member power "power".toList = some inner ∧ lib.isNull inner = false ∧
    (PowerDaemon.daqSerial lib inner).isSome ∧
    ∃ rails, railsOf lib inner = some rails ∧ railsOf lib power = some rails

section start

variable {lib : JsonValue J} {link : Link} {config : J} {serial : Str}

/-- The rails are sent until a write fails. -/
theorem exists_sendRails {is : List Nat} {rails : List Rail}
    (h : is.mapM (fun i => (lib.element config i).bind (railOf lib)) = some rails) :
    ∃ out, PowerDaemon.sendRails lib link config serial is = some out ∧
      (out.1 = true → out.2 = rails.map fun r => .rail r (snprintf 255 serial)) := by
  induction is generalizing rails with
  | nil =>
    cases h
    exact ⟨_, rfl, fun _ => rfl⟩
  | cons i is ih =>
    rw [List.mapM_cons] at h
    obtain ⟨r, hr, h⟩ := Option.bind_eq_some_iff.mp h
    obtain ⟨rs, hrs, h⟩ := Option.bind_eq_some_iff.mp h
    cases h
    obtain ⟨out, hout, hsent⟩ := ih hrs
    rw [PowerDaemon.sendRails, hr, Option.bind_some]
    split_ifs
    · rw [hout]
      refine ⟨_, rfl, fun hok => ?_⟩
      dsimp only
      rw [hsent hok, List.map_cons]
    · exact ⟨_, rfl, fun hok => absurd hok Bool.false_ne_true⟩

/-- If no write fails, all of them are sent. -/
theorem sendRails_eq_some (hlink : ∀ n, link.write n = true) {is : List Nat}
    {out : Bool × List Message} (h : PowerDaemon.sendRails lib link config serial is = some out) :
    ∃ rails, is.mapM (fun i => (lib.element config i).bind (railOf lib)) = some rails ∧
      out = (true, rails.map fun r => .rail r (snprintf 255 serial)) := by
  induction is generalizing out with
  | nil =>
    cases h
    exact ⟨[], rfl, rfl⟩
  | cons i is ih =>
    rw [PowerDaemon.sendRails] at h
    obtain ⟨r, hr, h⟩ := Option.bind_eq_some_iff.mp h
    rw [if_pos (hlink _)] at h
    obtain ⟨rest, hrest, rfl⟩ := Option.map_eq_some_iff.mp h
    obtain ⟨rails, hrails, rfl⟩ := ih hrest
    refine ⟨r :: rails, ?_, rfl⟩
    rw [List.mapM_cons, hr, hrails]
    rfl

/-- A configuration with rails can be sent. -/
theorem exists_start {root : J} {rails : List Rail}
    (hserial : (PowerDaemon.daqSerial lib root).isSome) (hrails : railsOf lib root = some rails)
    (link : Link) (d : PowerDaemon J) :
    ∃ out, d.start lib link root = some out ∧ (out.ok = true →
      (∃ serial, out.sent = messages rails serial) ∧ out.after.numRails lib = rails.length) := by
  obtain ⟨config, hconfig, hrails⟩ := Option.bind_eq_some_iff.mp hrails
  obtain ⟨serial, hserial⟩ := Option.isSome_iff_exists.mp hserial
  have hlength : rails.length = lib.size config := by
    rw [length_of_mapM hrails, List.length_range]
  obtain ⟨out, hout, hsent⟩ := @exists_sendRails _ lib link config serial _ _ hrails
  rw [PowerDaemon.start, hconfig, Option.bind_some, hserial, Option.bind_some, hout,
    Option.map_some]
  split_ifs with hcommand hcount hsend hsync
  · exact ⟨_, rfl, fun hok => absurd hok Bool.false_ne_true⟩
  · exact ⟨_, rfl, fun hok => absurd hok Bool.false_ne_true⟩
  · exact ⟨_, rfl, fun hok => absurd hok Bool.false_ne_true⟩
  · exact ⟨_, rfl, fun hok => absurd hok Bool.false_ne_true⟩
  · refine ⟨_, rfl, fun _ => ⟨⟨snprintf 255 serial, ?_⟩, hlength.symm⟩⟩
    rw [hsent ((Bool.not_eq_false _).mp hsend), messages, hlength]

/-- A connection that takes everything, and a daemon that answers everything. -/
def Link.good : Link := ⟨fun _ => true, fun _ => true⟩

/-- What can be sent over a good connection has rails. -/
theorem start_good {root : J} {d : PowerDaemon J} {out : Started (PowerDaemon J)}
    (h : d.start lib .good root = some out) :
    out.ok = true ∧ ∃ rails serial, railsOf lib root = some rails ∧
      PowerDaemon.daqSerial lib root = some serial ∧
        out.sent = messages rails (snprintf 255 serial) := by
  have hwrite : ∀ n, Link.good.write n = true := fun _ => rfl
  have hsynced : ∀ n, Link.good.synced n = true := fun _ => rfl
  rw [PowerDaemon.start] at h
  simp only [hwrite, hsynced, Bool.true_eq_false, if_false, or_self] at h
  obtain ⟨config, hconfig, h⟩ := Option.bind_eq_some_iff.mp h
  obtain ⟨serial, hserial, h⟩ := Option.bind_eq_some_iff.mp h
  obtain ⟨sent, hsent, hout⟩ := Option.map_eq_some_iff.mp h
  obtain ⟨rails, hrails, rfl⟩ := sendRails_eq_some hwrite hsent
  have hlength : rails.length = lib.size config := by
    rw [length_of_mapM hrails, List.length_range]
  subst hout
  refine ⟨rfl, rails, serial, ?_, hserial, ?_⟩
  · rw [railsOf, hconfig]
    exact hrails
  · rw [messages, hlength]
    rfl

end start

/-- The rail of a message. -/
def Message.rail? : Message → Option Rail
  | .rail r _ => some r
  | _ => none

@[simp] theorem filterMap_messages (rails : List Rail) (serial : Str) :
    (messages rails serial).filterMap Message.rail? = rails := by
  have hrails : (rails.map fun r => Message.rail r serial).filterMap Message.rail? = rails := by
    rw [List.filterMap_map]
    exact List.filterMap_some
  rw [messages, List.filterMap_append, List.filterMap_cons_none rfl, List.filterMap_cons_none rfl,
    hrails]
  exact List.append_nil _

/-! ## The collector -/

section collector

variable {lib : JsonValue J} {daemon : Daemon} {c c' : PowerDataCollector J} {power : J}

/-- `init()` has found rails in the member `power`, which is the configuration from then on. -/
theorem init_eq_some (hpower : lib.member c.mConfig "power".toList = some power)
    (h : c.init lib daemon = some (true, c')) : c'.mConfig = power ∧ lib.isNull power = false ∧
      ∃ rails, lib.member power "rails".toList = some rails ∧ lib.size rails ≠ 0 := by
  rw [PowerDataCollector.init] at h
  obtain ⟨-, -, h⟩ := Option.bind_eq_some_iff.mp h
  obtain ⟨config, hconfig, h⟩ := Option.bind_eq_some_iff.mp h
  obtain rfl : power = config := Option.some.inj (hpower.symm.trans hconfig)
  obtain ⟨u, hnull, h⟩ := Option.bind_eq_some_iff.mp h
  obtain ⟨address, -, h⟩ := Option.bind_eq_some_iff.mp h
  obtain ⟨rails, hrails, h⟩ := Option.bind_eq_some_iff.mp h
  have hnull' : lib.isNull power = false := by
    by_contra hne
    rw [guard, if_neg hne] at hnull
    cases hnull
  split at h
  · cases h
  · next hsize =>
    obtain ⟨valid, -, h⟩ := Option.bind_eq_some_iff.mp h
    split at h
    · cases h
    · obtain ⟨timeout, -, h⟩ := Option.bind_eq_some_iff.mp h
      split at h
      · cases h
      · split at h
        · cases h
        · split at h
          · cases h
          · obtain ⟨mPD, -, h⟩ := Option.bind_eq_some_iff.mp h
            cases h
            exact ⟨rfl, hnull', rails, hrails, fun hzero => hsize (Or.inr hzero)⟩

/-- The collector uses the validated rails if and only if the configuration has them twice. -/
theorem usesValidated_iff (hpower : lib.member c.mConfig "power".toList = some power)
    (h : c.init lib daemon = some (true, c')) : UsesValidated lib power c' ↔ Nested lib power := by
  obtain ⟨rfl, hnull, config, hconfig, hsize⟩ := init_eq_some hpower h
  have havailable : c'.available lib = some true ↔ ∃ inner,
      lib.member c'.mConfig "power".toList = some inner ∧ lib.isNull inner = false := by
    rw [PowerDataCollector.available, hnull, if_neg Bool.false_ne_true, Option.map_eq_some_iff]
    simp
  have hne : ∀ rails, railsOf lib c'.mConfig = some rails → rails ≠ [] := by
    intro rails hrails hnil
    rw [railsOf, hconfig, Option.bind_some] at hrails
    have hlength := length_of_mapM hrails
    rw [hnil, List.length_range, List.length_nil] at hlength
    exact hsize hlength.symm
  constructor
  · rintro ⟨hinner, rails, hrails, -, hstarts⟩
    obtain ⟨inner, hinner, hnull⟩ := havailable.mp hinner
    obtain ⟨out, hout, hsent⟩ := hstarts .good
    rw [PowerDataCollector.start, hinner, Option.bind_some] at hout
    obtain ⟨started, hstarted, rfl⟩ := Option.map_eq_some_iff.mp hout
    obtain ⟨hok, rails', serial, hrails', hserial, hsent'⟩ := start_good hstarted
    obtain ⟨⟨serial', hmessages⟩, -⟩ := hsent hok
    have hsame : rails' = rails := by
      have hfilter := congrArg (List.filterMap Message.rail?) (hsent'.symm.trans hmessages)
      rwa [filterMap_messages, filterMap_messages] at hfilter
    refine ⟨inner, hinner, hnull, ?_, rails, hsame ▸ hrails', hrails⟩
    rw [hserial]
    rfl
  · rintro ⟨inner, hinner, hnull, hserial, rails, hrails', hrails⟩
    refine ⟨havailable.mpr ⟨inner, hinner, hnull⟩, rails, hrails, hne rails hrails, fun link => ?_⟩
    obtain ⟨out, hout, hsent⟩ := exists_start hserial hrails' link c'.mPD
    refine ⟨⟨out.ok, out.sent, { c' with
      mCollecting := c'.mCollecting || out.ok, mPD := out.after }⟩, ?_, hsent⟩
    rw [PowerDataCollector.start, hinner, Option.bind_some, hout, Option.map_some]

end collector

/-! ## A configuration with one rail -/

/-- The members of a configuration with one rail. -/
def oneRail : List (Str × Json) :=
  [("power_daemon_ip".toList, .string "10.0.0.1".toList),
    ("power_daemon_port".toList, .string "6000".toList),
    ("rails".toList, .array [.object [("name".toList, .string "VDD".toList),
      ("voltage_channel".toList, .string "ai0".toList),
      ("current_channel".toList, .string "ai1".toList), ("resistance".toList, .int 20)]])]

/-- The collector for the member `power` of a configuration. -/
def collectorOf (power : List (Str × Json)) : PowerDataCollector Json where
  mConfig := .object [("power".toList, .object power)]
  mPD := { mConfig := .null }

/-- A daemon that is there. -/
def goodDaemon : Daemon := ⟨fun _ _ _ => true, fun _ => true⟩

/-- The rails stand in the configuration twice. -/
theorem usesValidated_nested : ∃ c',
    (collectorOf (oneRail ++ [("power".toList, .object oneRail)])).init Json.value goodDaemon =
      some (true, c') ∧
    (UsesValidated Json.value (.object (oneRail ++ [("power".toList, .object oneRail)])) c' ↔
      Nested Json.value (.object (oneRail ++ [("power".toList, .object oneRail)]))) :=
  ⟨_, rfl, @usesValidated_iff _ _ goodDaemon
    (collectorOf (oneRail ++ [("power".toList, .object oneRail)])) _ _ rfl rfl⟩

/-- After `init()` of an ordinary configuration the collector finds no configuration. -/
theorem not_usesValidated_oneRail : ¬ ∀ (lib : JsonValue Json) (daemon : Daemon)
    (c c' : PowerDataCollector Json) (power : Json), c.available lib = some true →
      lib.member c.mConfig "power".toList = some power → c.init lib daemon = some (true, c') →
        UsesValidated lib power c' := by
  intro h
  have hused := h Json.value goodDaemon (collectorOf oneRail) _ _ rfl rfl rfl
  have havailable := hused.available
  cases havailable

end LibCollector.Power
