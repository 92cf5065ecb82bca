import LibCollector.Interface.Collection

/-!
# Initialising a collection

`Collection::initialize` and `Collection::initialize_collector`. The answers of the
collectors' `available()` and `init()` are inputs, one for each position of the list that
is walked. What is used of jsoncpp, which is not part of the repository, is a parameter
(`Jsoncpp`); a conversion that throws ends the call and is `none`.
-/

namespace LibCollector.Interface

open LibCollector.Misc

variable {J : Type}

/-- The members of `Json::Value` that are used here. -/
structure Jsoncpp (J : Type) where
  null : J
  ofBool : Bool → J
  ofInt : Int → J
  isObject : J → Bool
  /-- `get(key, defaultValue)`. -/
  get : J → Str → J → Option J
  asBool : J → Option Bool
  asInt : J → Option Int

/-- A name of the list that is walked, and what the collector of that name answers there. -/
structure Attempt where
  name : Str
  available : Bool
  initOk : Bool

/-- A call on a collector. -/
inductive Event where
  | init (name : Str) (ok : Bool)
  | deinit (name : Str)
  deriving DecidableEq

/-- What a call returns, the collection after it, and the calls it made. -/
structure Outcome (J : Type) where
  ok : Bool
  collection : Collection J
  events : List Event

/-- The names of the built-in collectors of `init_from_json`, but for those of Android. -/
def builtinCollectors : List Str :=
  ["perf".toList, "battery_temperature".toList, "cpufreq".toList, "memfreq".toList,
    "memfreqdisplay".toList, "memfreqint".toList, "gpu_active_time".toList,
    "gpu_suspended_time".toList, "cpufreqtrans".toList, "memory".toList, "cputemp".toList,
    "gpufreq".toList, "power".toList, "ferret".toList, "procfs".toList, "malicounters".toList,
    "rusage".toList]

/-- The names that `initialize()` skips. -/
def Special (name : Str) : Prop := name = "debug".toList ∨ name = "provenance".toList

instance (name : Str) : Decidable (Special name) := inferInstanceAs (Decidable (_ ∨ _))

/-- The sample rate of a collector that the configuration makes threaded. The `operator[]` of the
    source inserts a null member for a name without one. -/
def threadSetting (lib : Jsoncpp J) (config : OrdMap Str J) (name : Str) : Option (Option Int) :=
  let v := (config.find? name).getD lib.null
  ((lib.get v "threaded".toList (lib.ofBool false)).bind lib.asBool).bind fun threaded =>
    if threaded then
      ((lib.get v "sample_rate".toList (lib.ofInt 100)).bind lib.asInt).map some
    else some none

/-- Whether the configuration marks a collector as required. -/
def required (lib : Jsoncpp J) (config : OrdMap Str J) (name : Str) : Option Bool :=
  match config.find? name with
  | none => some false
  | some v =>
    if lib.isObject v then (lib.get v "required".toList (lib.ofBool false)).bind lib.asBool
    else some false

namespace Collection

/-- The constructor, with the names of the built-in collectors. -/
def construct (config : OrdMap Str J) (names : List Str) : Collection J where
  mConfig := config
  mCollectors := names.foldl (fun m name => m.insert name {}) ∅

/-- The end of `Collection::initialize_collector`: the collector is running, threaded if the
    configuration says so. -/
def enable (lib : Jsoncpp J) (name : Str) (s : Collection J) : Option (Collection J) :=
  (threadSetting lib s.mConfig name).bind fun setting =>
    let s := { s with mRunning := s.mRunning ++ [name] }
    match setting with
    | none => some s
    | some sampleRate =>
      (s.mCollectors.find? name).bind fun c => (c.useThreading sampleRate).map fun c' =>
        { s with mCollectors := s.mCollectors.insert name c' }

/-- `Collection::initialize_collector`. -/
def initializeCollector (lib : Jsoncpp J) (initOk : Bool) (name : Str) (s : Collection J) :
    Option (Outcome J) :=
  if name ∈ s.mRunning then some ⟨true, s, []⟩
  else if initOk = false then some ⟨false, s, [.init name false]⟩
  else (s.enable lib name).map fun s' => ⟨true, s', [.init name true]⟩

/-- The part of the loop of `initialize()` before the check for required collectors. -/
def attempt (lib : Jsoncpp J) (a : Attempt) (s : Collection J) : Option (Outcome J) :=
  if a.name ∉ s.mCollectors.keys then some ⟨false, s, []⟩
  else if a.available = false then some ⟨false, s, []⟩
  else s.initializeCollector lib a.initOk a.name

/-- The loop of `initialize()`. -/
def initializeAll (lib : Jsoncpp J) : List Attempt → Collection J → Option (Outcome J)
  | [], s => some ⟨true, s, []⟩
  | a :: attempts, s =>
    if Special a.name then initializeAll lib attempts s
    else (s.attempt lib a).bind fun out =>
      let continued := (initializeAll lib attempts out.collection).map fun rest =>
        { rest with events := out.events ++ rest.events }
      if out.ok then continued
      else (required lib out.collection.mConfig a.name).bind fun isRequired =>
        if isRequired then some ⟨false, { out.collection with mRunning := [] }, out.events⟩
        else continued

/-- The names that `initialize()` walks: its argument, and the object-valued members of the
    configuration. -/
def namesToInitialize (lib : Jsoncpp J) (list : List Str) (s : Collection J) : List Str :=
  list ++ (s.mConfig.entries.filter fun e => lib.isObject e.2).map Prod.fst

/-- The names with the answers of their collectors. -/
def attempts (lib : Jsoncpp J) (answer : Nat → Bool × Bool) (list : List Str) (s : Collection J) :
    List Attempt :=
  (s.namesToInitialize lib list).zipIdx.map fun e => ⟨e.1, (answer e.2).1, (answer e.2).2⟩

/-- `Collection::initialize`. `answer` gives what `available()` and `init()` return for the
    collector at a position of the list. -/
def initializeList (lib : Jsoncpp J) (answer : Nat → Bool × Bool) (list : List Str)
    (s : Collection J) : Option (Outcome J) :=
  initializeAll lib (s.attempts lib answer list) s

/-! ## What happens at a position -/

/-- The collector exists, is available and can be initialised. -/
structure Initialisable (s : Collection J) (a : Attempt) : Prop where
  normal : ¬ Special a.name
  known : a.name ∈ s.mCollectors.keys
  available : a.available = true
  initOk : a.initOk = true

/-- A collector is running before a position if it was before, or was initialised on the way. -/
def RunningBefore (s : Collection J) (pre : List Attempt) (name : Str) : Prop :=
  name ∈ s.mRunning ∨ ∃ b ∈ pre, b.name = name ∧ s.Initialisable b

/-- The name is unknown, or its collector is unavailable or fails its `init()`. -/
def FailsAt (s : Collection J) (pre : List Attempt) (a : Attempt) : Prop :=
  ¬ Special a.name ∧ (a.name ∉ s.mCollectors.keys ∨ a.available = false ∨
    ¬ s.RunningBefore pre a.name ∧ a.initOk = false)

/-- A collector that the configuration requires fails. -/
def RequiredFailure (lib : Jsoncpp J) (s : Collection J) (pre : List Attempt) (a : Attempt) :
    Prop :=
  s.FailsAt pre a ∧ required lib s.mConfig a.name = some true

/-- The `init()` of the collector succeeds. -/
def InitialisesAt (s : Collection J) (pre : List Attempt) (a : Attempt) : Prop :=
  s.Initialisable a ∧ ¬ s.RunningBefore pre a.name

/-- No required collector has failed on the way. -/
def Reached (lib : Jsoncpp J) (s : Collection J) (pre : List Attempt) : Prop :=
  EachSplit (fun pre' b => ¬ s.RequiredFailure lib pre' b) pre

/-- The settings of a collector can be converted, and it is not made threaded while it
    collects. -/
def Enables (lib : Jsoncpp J) (s : Collection J) (name : Str) : Prop :=
  ∃ setting, threadSetting lib s.mConfig name = some setting ∧
    (setting ≠ none → (s.mCollectors.find? name).map Collector.mCollecting = some false)

/-- Every setting that is read at a position can be converted. -/
structure ConvertsAt (lib : Jsoncpp J) (s : Collection J) (pre : List Attempt) (a : Attempt) :
    Prop where
  required : s.FailsAt pre a → (required lib s.mConfig a.name).isSome
  enables : s.InitialisesAt pre a → s.Enables lib a.name

/-! ## One position -/

/-- The members that the walk reads and does not write. -/
structure SameNames (s s' : Collection J) : Prop where
  mConfig : s'.mConfig = s.mConfig
  collecting : ∀ name, (s'.mCollectors.find? name).map Collector.mCollecting =
    (s.mCollectors.find? name).map Collector.mCollecting

theorem SameNames.mem_keys {s s' : Collection J} (h : SameNames s s') (name : Str) :
    name ∈ s'.mCollectors.keys ↔ name ∈ s.mCollectors.keys := by
  rw [OrdMap.mem_keys_iff, OrdMap.mem_keys_iff, ← Option.isSome_map (f := Collector.mCollecting),
    h.collecting, Option.isSome_map]

theorem enable_spec {lib : Jsoncpp J} {s : Collection J} {name : Str}
    (hname : name ∈ s.mCollectors.keys) (h : s.Enables lib name) :
    ∃ s', s.enable lib name = some s' ∧ s'.mRunning = s.mRunning ++ [name] ∧ SameNames s s' := by
  obtain ⟨setting, hsetting, hidle⟩ := h
  obtain ⟨c, hc⟩ := Option.isSome_iff_exists.mp (OrdMap.mem_keys_iff.mp hname)
  cases setting with
  | none =>
    refine ⟨{ s with mRunning := s.mRunning ++ [name] }, ?_, rfl, rfl, fun _ => rfl⟩
    rw [enable, hsetting]
    rfl
  | some sampleRate =>
    have hcollecting : c.mCollecting = false := by
      have h := hidle (by simp)
      rw [hc] at h
      exact Option.some.inj h
    refine ⟨{ s with
      mRunning := s.mRunning ++ [name]
      mCollectors := s.mCollectors.insert name
        { c with mIsThreaded := true, mSampleRate := sampleRate } }, ?_, rfl, rfl, ?_⟩
    · rw [enable, hsetting]
      simp [hc, Collector.useThreading, hcollecting]
    · intro other
      dsimp only
      rw [OrdMap.find?_insert]
      by_cases hother : other = name
      · rw [if_pos hother, hother, hc]
        rfl
      · rw [if_neg hother]

theorem enable_eq_none {lib : Jsoncpp J} {s : Collection J} {name : Str}
    (hname : name ∈ s.mCollectors.keys) (h : ¬ s.Enables lib name) : s.enable lib name = none := by
  obtain ⟨c, hc⟩ := Option.isSome_iff_exists.mp (OrdMap.mem_keys_iff.mp hname)
  rw [enable]
  cases hsetting : threadSetting lib s.mConfig name with
  | none => rfl
  | some setting =>
    cases setting with
    | none => exact absurd ⟨none, hsetting, fun hne => absurd rfl hne⟩ h
    | some sampleRate =>
      have hcollecting : c.mCollecting = true := by
        by_contra hidle
        refine h ⟨some sampleRate, hsetting, fun _ => ?_⟩
        rw [hc, Option.map_some, eq_false_of_ne_true hidle]
      simp [hc, Collector.useThreading, hcollecting]

theorem runningBefore_nil {s : Collection J} {name : Str} :
    s.RunningBefore [] name ↔ name ∈ s.mRunning := by
  simp [RunningBefore]

/-- A position where the name fails. -/
theorem attempt_fails {lib : Jsoncpp J} {s : Collection J} {a : Attempt} (h : s.FailsAt [] a) :
    ∃ events, s.attempt lib a = some ⟨false, s, events⟩ ∧ (∀ name, .init name true ∉ events) ∧
      ∀ name, .deinit name ∉ events := by
  obtain ⟨-, hcause⟩ := h
  rw [runningBefore_nil] at hcause
  unfold attempt initializeCollector
  by_cases hknown : a.name ∉ s.mCollectors.keys
  · exact ⟨[], if_pos hknown, by simp, by simp⟩
  · rw [if_neg hknown]
    by_cases havailable : a.available = false
    · exact ⟨[], if_pos havailable, by simp, by simp⟩
    · obtain ⟨hrunning, hinit⟩ := (hcause.resolve_left hknown).resolve_left havailable
      rw [if_neg havailable, if_neg hrunning, if_pos hinit]
      exact ⟨_, rfl, by simp, by simp⟩

/-- A position where the collector is not running and is initialised. -/
theorem attempt_initialises {lib : Jsoncpp J} {s : Collection J} {a : Attempt}
    (h : s.InitialisesAt [] a) :
    s.attempt lib a = (s.enable lib a.name).map fun s' => ⟨true, s', [.init a.name true]⟩ := by
  obtain ⟨⟨-, hknown, havailable, hinit⟩, hrunning⟩ := h
  rw [runningBefore_nil] at hrunning
  simp [attempt, initializeCollector, hknown, havailable, hinit, hrunning]

/-- A position where the collector is running already. -/
theorem attempt_running {lib : Jsoncpp J} {s : Collection J} {a : Attempt}
    (hnormal : ¬ Special a.name) (hfails : ¬ s.FailsAt [] a) (hinit : ¬ s.InitialisesAt [] a) :
    s.attempt lib a = some ⟨true, s, []⟩ ∧ a.name ∈ s.mRunning := by
  obtain ⟨hknown, hcause⟩ := not_or.mp (not_and.mp hfails hnormal)
  obtain ⟨hunavailable, hstate⟩ := not_or.mp hcause
  have hmem : a.name ∈ s.mCollectors.keys := not_not.mp hknown
  have havailable : a.available = true := eq_true_of_ne_false hunavailable
  have hrunning : a.name ∈ s.mRunning := by
    by_contra hnot
    rw [← runningBefore_nil] at hnot
    cases hok : a.initOk with
    | false => exact hstate ⟨hnot, hok⟩
    | true => exact hinit ⟨⟨hnormal, hmem, havailable, hok⟩, hnot⟩
  refine ⟨?_, hrunning⟩
  simp [attempt, initializeCollector, hmem, havailable, hrunning]

end Collection

end LibCollector.Interface
