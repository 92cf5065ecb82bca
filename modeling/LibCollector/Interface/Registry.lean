import LibCollector.Interface.Initialize

/-!
# The registry of collectors

`Collection` keeps its collectors twice: in `mCollectors`, and by name in
`mCollectorMap`. This file is about the two containers and the operations on them, with
`operator[]` of the map as it is: it inserts a null pointer under a key that is not
there. To call a member function through a null pointer ends the process and is `none`.
What the collectors answer to `available()` and `init()` is an input. Of the settings of threaded
collectors it only matters whether the configuration has them as a `bool` and an `int`; a
conversion of jsoncpp that throws leaves the call, and the collection as it is then
(`initializeList_represents` connects this to the collections that are stored by name).
-/

namespace LibCollector.Interface

open LibCollector.Misc

/-- A pointer to a collector, with the name of the collector: one that the constructor creates, one
    that `addSysfsCollector` creates, numbered, or one that the caller owns. -/
inductive CollectorRef where
  | builtin (name : Str)
  | sysfs (id : Nat) (name : Str)
  | custom (id : Nat) (name : Str)
  deriving DecidableEq

/-- `Collector::name`. -/
def CollectorRef.name : CollectorRef → Str
  | .builtin name => name
  | .sysfs _ name => name
  | .custom _ name => name

/-- What `initialize()` reads of the configuration: the names of its objects, their `required`,
    which may not be a `bool`, and if the settings of a thread can be converted. -/
structure RegistryConfig where
  objects : List Str := []
  required : Str → Option Bool := fun _ => some false
  settings : Str → Bool := fun _ => true

/-- The members of `Collection` that hold collectors, its configuration, and the number of
    collectors that `addSysfsCollector` has created. A null pointer of the map is `none`. -/
structure Registry where
  config : RegistryConfig
  mCollectors : List CollectorRef
  mCollectorMap : OrdMap Str (Option CollectorRef) := ∅
  mRunning : List CollectorRef := []
  created : Nat := 0

/-- A public operation on a collection. -/
inductive RegistryOp where
  | addCollector (c : CollectorRef)
  | addSysfsCollector (name : Str)
  | collector (name : Str)
  | available
  | unavailable
  | initializeList (answer : Nat → Bool × Bool) (list : List Str)
  | initializeCollector (initOk : Bool) (name : Str)

namespace Registry

/-- `mCollectorMap[ name ]`: the pointer, and the registry after it. -/
def lookup (name : Str) (r : Registry) : Option CollectorRef × Registry :=
  match r.mCollectorMap.find? name with
  | some p => (p, r)
  | none => (none, { r with mCollectorMap := r.mCollectorMap.insert name none })

/-- The constructor, with the names of the built-in collectors. -/
def construct (names : List Str) (config : RegistryConfig) : Registry where
  config := config
  mCollectors := names.map .builtin
  mCollectorMap := (names.map CollectorRef.builtin).foldl (fun m c => m.insert c.name (some c)) ∅

/-- `Collection::addCollector`. -/
def addCollector (c : CollectorRef) (r : Registry) : Registry :=
  { r with mCollectors := r.mCollectors ++ [c] }

/-- `Collection::addSysfsCollector`. -/
def addSysfsCollector (name : Str) (r : Registry) : Registry :=
  { r with mCollectors := r.mCollectors ++ [.sysfs r.created name], created := r.created + 1 }

/-- `Collection::initialize_collector`. What it returns is `none` when a setting of the thread
    cannot be converted; the collector is running then. -/
def initializeCollector (initOk : Bool) (name : Str) (r : Registry) :
    Option (Option Bool × Registry) :=
  if name ∈ r.mRunning.map CollectorRef.name then some (some true, r)
  else
    let found := r.lookup name
    found.1.map fun c =>
      if initOk then
        (if r.config.settings name then some true else none,
          { found.2 with mRunning := found.2.mRunning ++ [c] })
      else (some false, found.2)

/-- The part of the loop of `initialize()` before the check for required collectors. -/
def attempt (a : Attempt) (r : Registry) : Option (Option Bool × Registry) :=
  match r.mCollectorMap.find? a.name with
  | none => some (some false, r)
  | some none => none
  | some (some _) =>
    if a.available then r.initializeCollector a.initOk a.name else some (some false, r)

/-- The loop of `initialize()`. -/
def initializeAll : List Attempt → Registry → Option (Option Bool × Registry)
  | [], r => some (some true, r)
  | a :: attempts, r =>
    if Special a.name then initializeAll attempts r
    else (r.attempt a).bind fun out =>
      match out.1 with
      | none => some out
      | some true => initializeAll attempts out.2
      | some false =>
        if a.name ∈ out.2.config.objects then
          match out.2.config.required a.name with
          | none => some (none, out.2)
          | some true => some (some false, { out.2 with mRunning := [] })
          | some false => initializeAll attempts out.2
        else initializeAll attempts out.2

/-- The names that `initialize()` walks, with the answers of their collectors. -/
def attempts (answer : Nat → Bool × Bool) (list : List Str) (r : Registry) : List Attempt :=
  (list ++ r.config.objects).zipIdx.map fun e => ⟨e.1, (answer e.2).1, (answer e.2).2⟩

/-- `Collection::initialize`. `answer` gives what `available()` and `init()` return for the
    collector at a position of the list. -/
def initializeList (answer : Nat → Bool × Bool) (list : List Str) (r : Registry) :
    Option (Option Bool × Registry) :=
  initializeAll (r.attempts answer list) r

/-- An operation; `available()` and `unavailable()` only read `mCollectors`. -/
def step (r : Registry) : RegistryOp → Option Registry
  | .addCollector c => some (r.addCollector c)
  | .addSysfsCollector name => some (r.addSysfsCollector name)
  | .collector name => some (r.lookup name).2
  | .available => some r
  | .unavailable => some r
  | .initializeList answer list => (r.initializeList answer list).map Prod.snd
  | .initializeCollector initOk name => (r.initializeCollector initOk name).map Prod.snd

/-- `Collection::available`, given which collectors are. -/
def availableNames (available : CollectorRef → Bool) (r : Registry) : List Str :=
  (r.mCollectors.filter available).map CollectorRef.name

/-! ## The correspondence -/

/-- The names of the map are those of the collectors, and each leads to its collector. -/
structure Consistent (r : Registry) : Prop where
  keys : ∀ name, name ∈ r.mCollectorMap.keys ↔ ∃ c ∈ r.mCollectors, c.name = name
  pointer : ∀ c ∈ r.mCollectors, r.mCollectorMap.find? c.name = some (some c)

/-- The answers, by position, of collectors that give the same ones throughout a call. -/
def answersAt (answers : Str → Bool × Bool) (names : List Str) (i : Nat) : Bool × Bool :=
  answers (names.getD i [])

/-- For collectors with these answers: no call of `initialize()` dereferences a null pointer, and
    each name that `available()` returns can be initialised, if the `init()` of its collector
    succeeds. -/
structure Usable (answers : Str → Bool × Bool) (r : Registry) : Prop where
  safe : ∀ answer list, (r.initializeList answer list).isSome
  available : ∀ name ∈ r.availableNames fun c => (answers c.name).1, (answers name).2 = true →
    ∃ r', r.initializeList (answersAt answers (name :: r.config.objects)) [name] =
      some (some true, r') ∧ name ∈ r'.mRunning.map CollectorRef.name

/-- The process survives the operations, and whenever it is between two of them the containers
    correspond and the collectors, with their answers at that time, can be used. -/
def StaysConsistent (answers : Nat → Str → Bool × Bool) (r : Registry) (ops : List RegistryOp) :
    Prop :=
  ∀ pre, pre <+: ops → ∃ t, run step r pre = some t ∧ t.Consistent ∧ t.Usable (answers pre.length)

/-- The operation adds no collector that the map does not lead to, and looks up no name that no
    collector has. -/
def Registered (r : Registry) : RegistryOp → Prop
  | .addCollector c => c ∈ r.mCollectors
  | .addSysfsCollector _ => False
  | .collector name => ∃ c ∈ r.mCollectors, c.name = name
  | .initializeCollector _ name => ∃ c ∈ r.mCollectors, c.name = name
  | _ => True

/-- The collector of the name runs, or `initialize()` makes it run. -/
def Comes (answers : Str → Bool × Bool) (r : Registry) (name : Str) : Prop :=
  name ∈ r.mCollectorMap.keys ∧ (answers name).1 = true ∧
    (name ∈ r.mRunning.map CollectorRef.name ∨ (answers name).2 = true)

/-- `initialize()` goes on behind the name: the settings of its thread can be converted, or its
    collector fails and is not required. -/
def Passes (answers : Str → Bool × Bool) (r : Registry) (name : Str) : Prop :=
  (r.Comes answers name →
    name ∈ r.mRunning.map CollectorRef.name ∨ r.config.settings name = true) ∧
  (¬ r.Comes answers name → name ∈ r.config.objects → r.config.required name = some false)

/-- Where an available collector can be initialised at all, `initialize()` goes on behind it and
    behind every object of the configuration. -/
def Permits (answers : Str → Bool × Bool) (r : Registry) : Prop :=
  ∀ c ∈ r.mCollectors, answers c.name = (true, true) →
    ∀ name ∈ c.name :: r.config.objects, ¬ Special name → r.Passes answers name

/-! ## One operation -/

/-- A consistent registry of built-in collectors, in which only collectors of its own run. -/
structure Good (r : Registry) : Prop where
  consistent : r.Consistent
  builtin : ∀ c ∈ r.mCollectors, ∃ name, c = .builtin name
  normal : ∀ c ∈ r.mCollectors, ¬ Special c.name
  running : ∀ c ∈ r.mRunning, c ∈ r.mCollectors

/-- An operation that has changed no more than which collectors run. -/
structure SameRegistry (r r' : Registry) : Prop where
  mCollectors : r'.mCollectors = r.mCollectors
  mCollectorMap : r'.mCollectorMap = r.mCollectorMap
  config : r'.config = r.config

theorem SameRegistry.refl (r : Registry) : SameRegistry r r := ⟨rfl, rfl, rfl⟩

theorem SameRegistry.good {r r' : Registry} (h : SameRegistry r r') (hr : r.Good)
    (hrunning : ∀ c ∈ r'.mRunning, c ∈ r.mCollectors) : r'.Good := by
  obtain ⟨⟨hkeys, hpointer⟩, hbuiltin, hnormal, -⟩ := hr
  constructor
  · constructor
    · rw [h.mCollectorMap, h.mCollectors]
      exact hkeys
    · rw [h.mCollectorMap, h.mCollectors]
      exact hpointer
  · rw [h.mCollectors]
    exact hbuiltin
  · rw [h.mCollectors]
    exact hnormal
  · rw [h.mCollectors]
    exact hrunning

/-- A key of a consistent map leads to a collector of that name. -/
theorem Consistent.find {r : Registry} (h : r.Consistent) {name : Str}
    (hname : name ∈ r.mCollectorMap.keys) :
    ∃ c ∈ r.mCollectors, c.name = name ∧ r.mCollectorMap.find? name = some (some c) := by
  obtain ⟨c, hc, rfl⟩ := (h.keys name).mp hname
  exact ⟨c, hc, rfl, h.pointer c hc⟩

theorem lookup_listed {r : Registry} (h : r.Consistent) {c : CollectorRef}
    (hc : c ∈ r.mCollectors) : r.lookup c.name = (some c, r) := by
  rw [lookup, h.pointer c hc]

theorem lookup_unlisted {r : Registry} (h : r.Consistent) {name : Str}
    (hname : ¬ ∃ c ∈ r.mCollectors, c.name = name) :
    r.lookup name = (none, { r with mCollectorMap := r.mCollectorMap.insert name none }) := by
  rw [lookup, OrdMap.find?_eq_none_iff.mpr (mt (h.keys name).mp hname)]

/-- `initialize_collector` of a listed name. -/
theorem initializeCollector_spec {r : Registry} (h : r.Good) {c : CollectorRef}
    (hc : c ∈ r.mCollectors) (initOk : Bool) :
    ∃ ok r', r.initializeCollector initOk c.name = some (ok, r') ∧ SameRegistry r r' ∧ r'.Good ∧
      (∀ name, name ∈ r'.mRunning.map CollectorRef.name ↔
        name ∈ r.mRunning.map CollectorRef.name ∨ name = c.name ∧ initOk = true) ∧
      (ok = some false ↔ c.name ∉ r.mRunning.map CollectorRef.name ∧ initOk = false) ∧
      (ok = none ↔ c.name ∉ r.mRunning.map CollectorRef.name ∧ initOk = true ∧
        r.config.settings c.name = false) := by
  unfold initializeCollector
  by_cases hrunning : c.name ∈ r.mRunning.map CollectorRef.name
  · refine ⟨some true, r, if_pos hrunning, SameRegistry.refl r, h, fun name => ?_, ?_, ?_⟩
    · refine (or_iff_left_of_imp ?_).symm
      rintro ⟨rfl, -⟩
      exact hrunning
    · simp [hrunning]
    · simp [hrunning]
  · rw [if_neg hrunning, lookup_listed h.consistent hc]
    cases initOk with
    | false =>
      refine ⟨some false, r, rfl, SameRegistry.refl r, h, ?_, ?_, ?_⟩ <;> simp [hrunning]
    | true =>
      have hsame : SameRegistry r { r with mRunning := r.mRunning ++ [c] } := ⟨rfl, rfl, rfl⟩
      refine ⟨_, _, rfl, hsame, hsame.good h fun d hd => ?_, ?_, ?_, ?_⟩
      · rcases List.mem_append.mp hd with hd | hd
        · exact h.running d hd
        · rw [List.mem_singleton.mp hd]
          exact hc
      · simp
      · simp
      · simp [hrunning]

/-- A position of the list that `initialize()` walks. -/
theorem attempt_spec {r : Registry} (h : r.Good) (a : Attempt) :
    ∃ ok r', r.attempt a = some (ok, r') ∧ SameRegistry r r' ∧ r'.Good ∧
      ∀ name ∈ r.mRunning.map CollectorRef.name, name ∈ r'.mRunning.map CollectorRef.name := by
  unfold attempt
  by_cases hname : a.name ∈ r.mCollectorMap.keys
  · obtain ⟨c, hc, hcname, hfind⟩ := h.consistent.find hname
    rw [hfind]
    cases ha : a.available with
    | false => exact ⟨some false, r, rfl, SameRegistry.refl r, h, fun _ => id⟩
    | true =>
      obtain ⟨ok, r', hr', hsame, hgood, hrunning, -⟩ := initializeCollector_spec h hc a.initOk
      rw [← hcname]
      exact ⟨ok, r', hr', hsame, hgood, fun name hold => (hrunning name).mpr (Or.inl hold)⟩
  · rw [OrdMap.find?_eq_none_iff.mpr hname]
    exact ⟨some false, r, rfl, SameRegistry.refl r, h, fun _ => id⟩

theorem initializeAll_spec {r : Registry} (h : r.Good) (attempts : List Attempt) :
    ∃ ok r', r.initializeAll attempts = some (ok, r') ∧ r'.Good := by
  induction attempts generalizing r with
  | nil => exact ⟨some true, r, rfl, h⟩
  | cons a attempts ih =>
    unfold initializeAll
    by_cases hspecial : Special a.name
    · rw [if_pos hspecial]
      exact ih h
    · obtain ⟨ok, r₁, hr₁, -, hgood, -⟩ := attempt_spec h a
      rw [if_neg hspecial, hr₁, Option.bind_some]
      rcases ok with _ | (_ | _)
      · exact ⟨none, r₁, rfl, hgood⟩
      · dsimp only
        split_ifs
        · cases r₁.config.required a.name with
          | none => exact ⟨none, r₁, rfl, hgood⟩
          | some isRequired =>
            cases isRequired with
            | false => exact ih hgood
            | true =>
              have hsame : SameRegistry r₁ { r₁ with mRunning := [] } := ⟨rfl, rfl, rfl⟩
              exact ⟨some false, _, rfl, hsame.good hgood fun c hc => absurd hc List.not_mem_nil⟩
        · exact ih hgood
      · exact ih hgood

/-- What runs goes on running if the walk comes to its end. -/
theorem running_initializeAll {r r' : Registry} (h : r.Good) {attempts : List Attempt}
    (hr' : r.initializeAll attempts = some (some true, r')) :
    ∀ name ∈ r.mRunning.map CollectorRef.name, name ∈ r'.mRunning.map CollectorRef.name := by
  induction attempts generalizing r with
  | nil =>
    cases hr'
    exact fun _ => id
  | cons a attempts ih =>
    unfold initializeAll at hr'
    by_cases hspecial : Special a.name
    · rw [if_pos hspecial] at hr'
      exact ih h hr'
    · obtain ⟨ok, r₁, hr₁, -, hgood, hmore⟩ := attempt_spec h a
      rw [if_neg hspecial, hr₁, Option.bind_some] at hr'
      refine fun name hname => ?_
      have hrest : r₁.initializeAll attempts = some (some true, r') := by
        rcases ok with _ | (_ | _)
        · simp at hr'
        · dsimp only at hr'
          split_ifs at hr'
          · rcases hrequired : r₁.config.required a.name with _ | (_ | _)
            · simp [hrequired] at hr'
            · simpa [hrequired] using hr'
            · simp [hrequired] at hr'
          · exact hr'
        · exact hr'
      exact ih hgood hrest name (hmore name hname)

/-! ## The walk of `initialize()` -/

section walk

variable {answers : Str → Bool × Bool} {r : Registry}

/-- A position where the collector does not come. -/
theorem attempt_fails {name : Str} (h : r.Good) (hname : ¬ r.Comes answers name) :
    r.attempt ⟨name, (answers name).1, (answers name).2⟩ = some (some false, r) := by
  unfold attempt
  by_cases hkey : name ∈ r.mCollectorMap.keys
  · obtain ⟨c, hc, rfl, hfind⟩ := h.consistent.find hkey
    dsimp only
    rw [hfind]
    cases havailable : (answers c.name).1 with
    | false => rfl
    | true =>
      obtain ⟨hrunning, hinit⟩ := not_or.mp fun hcause => hname ⟨hkey, havailable, hcause⟩
      simp only [if_true]
      rw [initializeCollector, if_neg hrunning, lookup_listed h.consistent hc]
      simp [hinit]
  · dsimp only
    rw [OrdMap.find?_eq_none_iff.mpr hkey]

/-- A position where the collector comes. -/
theorem attempt_comes {name : Str} (h : r.Good) (hname : r.Comes answers name) :
    ∃ ok r', r.attempt ⟨name, (answers name).1, (answers name).2⟩ = some (ok, r') ∧
      SameRegistry r r' ∧ r'.Good ∧ name ∈ r'.mRunning.map CollectorRef.name ∧
      (∀ other, other ∈ r'.mRunning.map CollectorRef.name ↔
        other ∈ r.mRunning.map CollectorRef.name ∨ other = name ∧ (answers name).2 = true) ∧
      (ok = some true ↔ r.Passes answers name) ∧ ok ≠ some false := by
  obtain ⟨hkey, havailable, hcause⟩ := hname
  obtain ⟨c, hc, rfl, hfind⟩ := h.consistent.find hkey
  obtain ⟨ok, r', hr', hsame, hgood, hrunning, hfalse, hnone⟩ :=
    initializeCollector_spec h hc (answers c.name).2
  have hattempt : r.attempt ⟨c.name, (answers c.name).1, (answers c.name).2⟩ = some (ok, r') := by
    rw [attempt, hfind]
    dsimp only
    rw [if_pos havailable, hr']
  have hpasses : r.Passes answers c.name ↔
      (c.name ∈ r.mRunning.map CollectorRef.name ∨ r.config.settings c.name = true) := by
    rw [Passes]
    simp only [show r.Comes answers c.name from ⟨hkey, havailable, hcause⟩, true_imp_iff,
      not_true_eq_false, false_imp_iff, and_true]
  have hnot : ok ≠ some false := fun heq => by
    obtain ⟨hidle, hfails⟩ := hfalse.mp heq
    rw [hfails] at hcause
    exact hcause.elim hidle Bool.noConfusion
  refine ⟨ok, r', hattempt, hsame, hgood, ?_, hrunning, ?_, hnot⟩
  · rw [hrunning]
    exact hcause.imp_right fun hinit => ⟨rfl, hinit⟩
  · rw [hpasses]
    constructor
    · intro heq
      by_contra hboth
      obtain ⟨hidle, hsettings⟩ := not_or.mp hboth
      have hthrown := hnone.mpr ⟨hidle, hcause.resolve_left hidle, eq_false_of_ne_true hsettings⟩
      rw [heq] at hthrown
      cases hthrown
    · intro hgoes
      rcases ok with _ | (_ | _)
      · obtain ⟨hidle, -, hsettings⟩ := hnone.mp rfl
        rw [hsettings] at hgoes
        exact absurd hgoes (by simpa using hidle)
      · exact absurd rfl hnot
      · rfl

/-- What is passed stays so when more collectors run whose settings can be converted. -/
theorem passes_of_same {r' : Registry} (hsame : SameRegistry r r') {name : Str}
    (hrunning : ∀ other, other ∈ r'.mRunning.map CollectorRef.name ↔
      other ∈ r.mRunning.map CollectorRef.name ∨ other = name ∧ (answers name).2 = true)
    (hcomes : r.Comes answers name) (hpasses : r.Passes answers name) (other : Str) :
    (r'.Comes answers other ↔ r.Comes answers other) ∧
      (r'.Passes answers other ↔ r.Passes answers other) := by
  have hcome : r'.Comes answers other ↔ r.Comes answers other := by
    rw [Comes, Comes, hsame.mCollectorMap, hrunning]
    refine and_congr_right fun _ => and_congr_right fun _ => ?_
    constructor
    · rintro ((hold | ⟨rfl, hinit⟩) | hinit)
      · exact Or.inl hold
      · exact Or.inr hinit
      · exact Or.inr hinit
    · exact fun h => h.imp_left Or.inl
  refine ⟨hcome, ?_⟩
  rw [Passes, Passes, hcome, hsame.config, hrunning]
  refine and_congr_left fun _ => forall_congr' fun _ => ?_
  constructor
  · rintro ((hold | ⟨rfl, -⟩) | hsettings)
    · exact Or.inl hold
    · exact hpasses.1 hcomes
    · exact Or.inr hsettings
  · exact fun h => h.imp_left Or.inl

/-- The walk comes to its end exactly if every name of the list is passed. -/
theorem initializeAll_iff (h : r.Good) (names : List Str)
    (hobjects : ∀ name ∈ names, ¬ Special name → ¬ r.Comes answers name →
      name ∈ r.config.objects) :
    (∃ r', r.initializeAll (names.map fun name => ⟨name, (answers name).1, (answers name).2⟩) =
        some (some true, r')) ↔
      ∀ name ∈ names, ¬ Special name → r.Passes answers name := by
  induction names generalizing r with
  | nil => exact iff_of_true ⟨r, rfl⟩ (by simp)
  | cons name names ih =>
    rw [List.map_cons, initializeAll, List.forall_mem_cons]
    have hrest := fun other hother => hobjects other (List.mem_cons_of_mem _ hother)
    by_cases hspecial : Special name
    · rw [if_pos hspecial, and_iff_right (fun hnormal => absurd hspecial hnormal), ih h hrest]
    · rw [if_neg hspecial, imp_iff_right hspecial]
      by_cases hcomes : r.Comes answers name
      · obtain ⟨ok, r₁, hr₁, hsame, hgood, -, hrunning, hok, hnot⟩ := attempt_comes h hcomes
        rw [hr₁, Option.bind_some]
        rcases ok with _ | (_ | _)
        · refine iff_of_false (by simp) fun hall => ?_
          exact absurd (hok.mpr hall.1) (by simp)
        · exact absurd rfl hnot
        · have hpasses := hok.mp rfl
          have hcongr := passes_of_same hsame hrunning hcomes hpasses
          have hobjects₁ : ∀ other ∈ names, ¬ Special other → ¬ r₁.Comes answers other →
              other ∈ r₁.config.objects := by
            intro other hother hnormal hfails
            rw [hsame.config]
            exact hrest other hother hnormal (mt (hcongr other).1.mpr hfails)
          have hnext := ih hgood hobjects₁
          simp only [(hcongr _).2] at hnext
          rw [and_iff_right hpasses, ← hnext]
      · have hobject := hobjects name List.mem_cons_self hspecial hcomes
        have hpasses : r.Passes answers name ↔ r.config.required name = some false := by
          simp [Passes, hcomes, hobject]
        rw [attempt_fails h hcomes, Option.bind_some, hpasses]
        dsimp only
        rw [if_pos hobject]
        rcases hrequired : r.config.required name with _ | (_ | _)
        · exact iff_of_false (by simp) (by simp)
        · rw [and_iff_right rfl, ← ih h hrest]
        · exact iff_of_false (by simp) (by simp)

/-- The list of `initialize()` with the answers of each collector. -/
theorem attempts_answersAt (list : List Str) :
    r.attempts (answersAt answers (list ++ r.config.objects)) list =
      (list ++ r.config.objects).map fun name => ⟨name, (answers name).1, (answers name).2⟩ := by
  rw [attempts]
  generalize list ++ r.config.objects = names
  refine List.ext_getElem (by simp) fun i hi hi' => ?_
  have hlt : i < names.length := by simpa using hi'
  simp [answersAt, List.getD_eq_getElem?_getD, List.getElem?_eq_getElem hlt]

/-- What a good registry can be used for. -/
theorem Good.usable_iff (h : r.Good) : r.Usable answers ↔ r.Permits answers := by
  have hsafe : ∀ answer list, (r.initializeList answer list).isSome := by
    intro answer list
    obtain ⟨ok, r', hr', -⟩ := initializeAll_spec h (r.attempts answer list)
    rw [initializeList, hr']
    rfl
  have hcomes : ∀ c ∈ r.mCollectors, answers c.name = (true, true) → r.Comes answers c.name := by
    intro c hc hanswers
    rw [Comes, hanswers]
    exact ⟨(h.consistent.keys c.name).mpr ⟨c, hc, rfl⟩, rfl, Or.inr rfl⟩
  have hwalk : ∀ c ∈ r.mCollectors, answers c.name = (true, true) →
      ((∃ r', r.initializeList (answersAt answers (c.name :: r.config.objects)) [c.name] =
        some (some true, r') ∧ c.name ∈ r'.mRunning.map CollectorRef.name) ↔
      ∀ name ∈ c.name :: r.config.objects, ¬ Special name → r.Passes answers name) := by
    intro c hc hanswers
    have hcome := hcomes c hc hanswers
    have hobjects : ∀ name ∈ c.name :: r.config.objects, ¬ Special name →
        ¬ r.Comes answers name → name ∈ r.config.objects := by
      intro name hname _ hfails
      refine (List.mem_cons.mp hname).resolve_left ?_
      rintro rfl
      exact hfails hcome
    have hlist := @attempts_answersAt answers r [c.name]
    rw [List.singleton_append] at hlist
    rw [← initializeAll_iff h _ hobjects, initializeList, hlist]
    refine ⟨fun ⟨r', hr', _⟩ => ⟨r', hr'⟩, fun ⟨r', hr'⟩ => ⟨r', hr', ?_⟩⟩
    obtain ⟨ok, r₁, hr₁, -, hgood, hnow, -, -, hnot⟩ := attempt_comes h hcome
    rw [List.map_cons, initializeAll, if_neg (h.normal c hc), hr₁, Option.bind_some] at hr'
    rcases ok with _ | (_ | _)
    · simp at hr'
    · exact absurd rfl hnot
    · exact running_initializeAll hgood hr' c.name hnow
  constructor
  · rintro ⟨-, havailable⟩ c hc hanswers
    refine (hwalk c hc hanswers).mp (havailable c.name ?_ (congrArg Prod.snd hanswers))
    exact List.mem_map_of_mem (List.mem_filter.mpr ⟨hc, congrArg Prod.fst hanswers⟩)
  · intro hpermits
    refine ⟨hsafe, fun name hname hinit => ?_⟩
    obtain ⟨c, hc, rfl⟩ := List.mem_map.mp hname
    obtain ⟨hmem, havailable⟩ := List.mem_filter.mp hc
    have hanswers : answers c.name = (true, true) := Prod.ext havailable hinit
    exact (hwalk c hmem hanswers).mpr (hpermits c hmem hanswers)

end walk

/-- An operation that registers nothing new keeps a registry good. -/
theorem step_registered {r : Registry} (h : r.Good) {op : RegistryOp} (hop : r.Registered op) :
    ∃ t, r.step op = some t ∧ t.Good := by
  cases op with
  | addCollector c =>
    have hmem : ∀ d, d ∈ r.mCollectors ++ [c] ↔ d ∈ r.mCollectors := by
      intro d
      rw [List.mem_append, List.mem_singleton]
      exact or_iff_left_of_imp fun hd => hd ▸ hop
    refine ⟨_, rfl, ⟨fun name => ?_, fun d hd => ?_⟩, fun d hd => ?_, fun d hd => ?_,
      fun d hd => ?_⟩
    · rw [addCollector, h.consistent.keys]
      simp only [hmem]
    · exact h.consistent.pointer d ((hmem d).mp hd)
    · exact h.builtin d ((hmem d).mp hd)
    · exact h.normal d ((hmem d).mp hd)
    · exact (hmem d).mpr (h.running d hd)
  | addSysfsCollector name => exact absurd hop id
  | collector name =>
    obtain ⟨c, hc, rfl⟩ := hop
    refine ⟨r, ?_, h⟩
    rw [step, lookup_listed h.consistent hc]
  | available => exact ⟨r, rfl, h⟩
  | unavailable => exact ⟨r, rfl, h⟩
  | initializeList answer list =>
    obtain ⟨ok, r', hr', hgood⟩ := initializeAll_spec h (r.attempts answer list)
    refine ⟨r', ?_, hgood⟩
    rw [step, initializeList, hr', Option.map_some]
  | initializeCollector initOk name =>
    obtain ⟨c, hc, rfl⟩ := hop
    obtain ⟨ok, r', hr', -, hgood, -⟩ := initializeCollector_spec h hc initOk
    refine ⟨r', ?_, hgood⟩
    rw [step, hr', Option.map_some]

/-- Any other operation ends the process or leaves a registry whose containers do not correspond. -/
theorem step_unregistered {r t : Registry} (h : r.Good) {op : RegistryOp}
    (hop : ¬ r.Registered op) (ht : r.step op = some t) : ¬ t.Consistent := by
  have hadded : ∀ c : CollectorRef, c ∉ r.mCollectors →
      r.mCollectorMap.find? c.name ≠ some (some c) := by
    intro c hc hfind
    have hkey : c.name ∈ r.mCollectorMap.keys := by
      rw [OrdMap.mem_keys_iff, hfind]
      rfl
    obtain ⟨d, hd, -, hd'⟩ := h.consistent.find hkey
    rw [hfind] at hd'
    cases hd'
    exact hc hd
  intro hconsistent
  cases op with
  | addCollector c =>
    cases ht
    exact hadded c hop (hconsistent.pointer c (by simp [addCollector]))
  | addSysfsCollector name =>
    cases ht
    have hnew : CollectorRef.sysfs r.created name ∉ r.mCollectors := by
      intro hmem
      obtain ⟨name', hname'⟩ := h.builtin _ hmem
      cases hname'
    exact hadded _ hnew (hconsistent.pointer _ (by simp [addSysfsCollector]))
  | collector name =>
    rw [step, lookup_unlisted h.consistent hop] at ht
    cases ht
    refine hop ((hconsistent.keys name).mp ?_)
    exact OrdMap.mem_keys_insert.mpr (Or.inl rfl)
  | available => exact hop trivial
  | unavailable => exact hop trivial
  | initializeList answer list => exact hop trivial
  | initializeCollector initOk name =>
    have hidle : name ∉ r.mRunning.map CollectorRef.name := by
      intro hmem
      obtain ⟨c, hc, rfl⟩ := List.mem_map.mp hmem
      exact hop ⟨c, h.running c hc, rfl⟩
    rw [step, initializeCollector, if_neg hidle, lookup_unlisted h.consistent hop] at ht
    cases ht

/-! ## Sequences of operations -/

theorem staysConsistent_cons {answers : Nat → Str → Bool × Bool} {r : Registry} {op : RegistryOp}
    {ops : List RegistryOp} : r.StaysConsistent answers (op :: ops) ↔
      (r.Consistent ∧ r.Usable (answers 0)) ∧
        ∃ t, r.step op = some t ∧ t.StaysConsistent (fun n => answers (n + 1)) ops := by
  constructor
  · intro h
    obtain ⟨r', hr', hnow⟩ := h [] (List.nil_prefix)
    cases hr'
    obtain ⟨t, ht, -⟩ := h [op] ⟨ops, rfl⟩
    obtain ⟨t, ht, -⟩ := run_cons_eq_some.mp ht
    refine ⟨hnow, t, ht, fun pre hpre => ?_⟩
    obtain ⟨u, hu, hthen⟩ := h (op :: pre) (List.cons_prefix_cons.mpr ⟨rfl, hpre⟩)
    obtain ⟨t', ht', hu⟩ := run_cons_eq_some.mp hu
    rw [ht] at ht'
    cases ht'
    exact ⟨u, hu, hthen⟩
  · rintro ⟨hnow, t, ht, hrest⟩ pre hpre
    cases pre with
    | nil => exact ⟨r, rfl, hnow⟩
    | cons op' pre =>
      obtain ⟨rfl, hpre'⟩ := List.cons_prefix_cons.mp hpre
      obtain ⟨u, hu, hthen⟩ := hrest pre hpre'
      exact ⟨u, run_cons_eq_some.mpr ⟨t, ht, hu⟩, hthen⟩

/-- Between any two of the operations, what is asked of the configuration holds. -/
def StaysPermitted (answers : Nat → Str → Bool × Bool) (r : Registry) (ops : List RegistryOp) :
    Prop :=
  ∀ pre, pre <+: ops → ∀ t, run step r pre = some t → t.Permits (answers pre.length)

theorem staysPermitted_cons {answers : Nat → Str → Bool × Bool} {r t : Registry} {op : RegistryOp}
    (ht : r.step op = some t) {ops : List RegistryOp} :
    r.StaysPermitted answers (op :: ops) ↔
      r.Permits (answers 0) ∧ t.StaysPermitted (fun n => answers (n + 1)) ops := by
  constructor
  · intro h
    refine ⟨h [] List.nil_prefix r rfl, fun pre hpre u hu => ?_⟩
    exact h (op :: pre) (List.cons_prefix_cons.mpr ⟨rfl, hpre⟩) u
      (run_cons_eq_some.mpr ⟨t, ht, hu⟩)
  · rintro ⟨hnow, hrest⟩ pre hpre u hu
    cases pre with
    | nil =>
      cases hu
      exact hnow
    | cons op' pre =>
      obtain ⟨rfl, hpre'⟩ := List.cons_prefix_cons.mp hpre
      obtain ⟨t', ht', hu⟩ := run_cons_eq_some.mp hu
      rw [ht] at ht'
      cases ht'
      exact hrest pre hpre' u hu

theorem staysConsistent_good {answers : Nat → Str → Bool × Bool} {r : Registry} (h : r.Good)
    (ops : List RegistryOp) : r.StaysConsistent answers ops ↔
      StepsMeet step Registered r ops ∧ r.StaysPermitted answers ops := by
  induction ops generalizing r answers with
  | nil =>
    have hnil : ∀ {P : List RegistryOp → Prop}, (∀ pre, pre <+: [] → P pre) ↔ P [] := by
      simp [List.prefix_nil]
    rw [StaysConsistent, StaysPermitted, hnil, hnil]
    simp [StepsMeet, h.consistent, h.usable_iff]
  | cons op ops ih =>
    rw [staysConsistent_cons]
    by_cases hop : r.Registered op
    · obtain ⟨t, ht, hgood⟩ := step_registered h hop
      rw [staysPermitted_cons ht, h.usable_iff, and_iff_right h.consistent, StepsMeet,
        and_iff_right hop]
      simp only [ht, Option.some.injEq, exists_eq_left', forall_eq', ih hgood]
      exact and_left_comm
    · refine iff_of_false ?_ fun hmeet => hop hmeet.1.1
      rintro ⟨-, t, ht, hrest⟩
      obtain ⟨t', ht', hconsistent, -⟩ := hrest [] List.nil_prefix
      cases ht'
      exact step_unregistered h hop ht hconsistent

/-- The constructor leaves a good registry, if the names of the built-in collectors are different
    and none of them is skipped by `initialize()`. -/
theorem good_construct {names : List Str} (hnodup : names.Nodup)
    (hnormal : ∀ name ∈ names, ¬ Special name) (config : RegistryConfig) :
    (construct names config).Good := by
  have hkeys : ((names.map CollectorRef.builtin).map CollectorRef.name).Nodup := by
    rw [List.map_map, show CollectorRef.name ∘ CollectorRef.builtin = id from rfl, List.map_id]
    exact hnodup
  have hfind : ∀ (name : Str) (p : Option CollectorRef),
      (construct names config).mCollectorMap.find? name = some p ↔
        ∃ c ∈ names.map CollectorRef.builtin, c.name = name ∧ p = some c := by
    intro name p
    rw [OrdMap.find?_eq_some_iff, construct, OrdMap.mem_entries_foldl_insert hkeys]
    simp only [Prod.mk.injEq, eq_comm (a := name)]
  refine ⟨⟨fun name => ?_, fun c hc => ?_⟩, fun c hc => ?_, fun c hc => ?_,
    fun c hc => absurd hc List.not_mem_nil⟩
  · rw [OrdMap.mem_keys_iff, Option.isSome_iff_exists]
    simp only [hfind]
    constructor
    · rintro ⟨p, c, hc, hname, -⟩
      exact ⟨c, hc, hname⟩
    · rintro ⟨c, hc, hname⟩
      exact ⟨some c, c, hc, hname, rfl⟩
  · exact (hfind c.name (some c)).mpr ⟨c, hc, rfl, rfl⟩
  · obtain ⟨name, -, rfl⟩ := List.mem_map.mp hc
    exact ⟨name, rfl⟩
  · obtain ⟨name, hname, rfl⟩ := List.mem_map.mp hc
    exact hnormal name hname

/-- The names of the built-in collectors; with the per-API mode of the perf collector it is the only
    one. -/
def builtinNames (enablePerapiPerf : Bool) : List Str :=
  if enablePerapiPerf then ["perf".toList] else builtinCollectors

theorem good_builtinNames (enablePerapiPerf : Bool) (config : RegistryConfig) :
    (construct (builtinNames enablePerapiPerf) config).Good := by
  have hnames : (builtinNames enablePerapiPerf).Nodup ∧
      ∀ name ∈ builtinNames enablePerapiPerf, ¬ Special name := by
    cases enablePerapiPerf <;> decide
  exact good_construct hnames.1 hnames.2 config

/-- The two containers correspond, and the collectors can be used, exactly when no collector is
    added that the map does not lead to, no name is looked up that no collector has, and the
    configuration permits it at any time at which a collector is available and can be initialised:
    its settings can be converted, and nothing that it requires fails. -/
theorem staysConsistent_iff (enablePerapiPerf : Bool) (config : RegistryConfig)
    (answers : Nat → Str → Bool × Bool) (ops : List RegistryOp) :
    (construct (builtinNames enablePerapiPerf) config).StaysConsistent answers ops ↔
      StepsMeet step Registered (construct (builtinNames enablePerapiPerf) config) ops ∧
        (construct (builtinNames enablePerapiPerf) config).StaysPermitted answers ops :=
  staysConsistent_good (good_builtinNames enablePerapiPerf config) ops

/-- A collector that is added before `initialize()` is not found. -/
theorem not_staysConsistent_addCollector :
    ¬ (construct (builtinNames false) {}).StaysConsistent (fun _ _ => (true, true))
      [.addCollector (.custom 0 "fps".toList)] := by
  rw [staysConsistent_good (good_builtinNames false {})]
  rintro ⟨⟨hop, -⟩, -⟩
  obtain ⟨name, -, hname⟩ := List.mem_map.mp hop
  cases hname

/-! ## Collections stored by name -/

variable {J : Type} {lib : Jsoncpp J}

/-- What `initialize()` reads of a configuration. -/
def configOf (lib : Jsoncpp J) (config : OrdMap Str J) : RegistryConfig where
  objects := (config.entries.filter fun e => lib.isObject e.2).map Prod.fst
  required := required lib config
  settings name := (threadSetting lib config name).isSome

/-- The collection that stores each collector once, under its name, has the same configuration and
    names and runs the same collectors. -/
structure Represents (lib : Jsoncpp J) (r : Registry) (s : Collection J) : Prop where
  config : r.config = configOf lib s.mConfig
  keys : ∀ name, name ∈ s.mCollectors.keys ↔ name ∈ r.mCollectorMap.keys
  mRunning : s.mRunning = r.mRunning.map CollectorRef.name

theorem enable_keys {name : Str} {s s' : Collection J} (h : s.enable lib name = some s') :
    (threadSetting lib s.mConfig name).isSome ∧ s'.mConfig = s.mConfig ∧
      (∀ other, other ∈ s'.mCollectors.keys ↔ other ∈ s.mCollectors.keys) ∧
      s'.mRunning = s.mRunning ++ [name] := by
  obtain ⟨setting, hsetting, h⟩ := Option.bind_eq_some_iff.mp h
  rw [hsetting]
  cases setting with
  | none =>
    cases h
    exact ⟨rfl, rfl, fun _ => Iff.rfl, rfl⟩
  | some sampleRate =>
    obtain ⟨c, hc, h⟩ := Option.bind_eq_some_iff.mp h
    obtain ⟨c', -, rfl⟩ := Option.map_eq_some_iff.mp h
    refine ⟨rfl, rfl, fun other => ?_, rfl⟩
    rw [OrdMap.mem_keys_insert]
    refine or_iff_right_of_imp ?_
    rintro rfl
    rw [OrdMap.mem_keys_iff]
    exact Option.isSome_iff_exists.mpr ⟨c, hc⟩

/-- A position of the list that `initialize()` walks, in both models. -/
theorem attempt_represents {r : Registry} {s : Collection J} {a : Attempt} {out : Outcome J}
    (h : r.Good) (hrep : r.Represents lib s) (hout : s.attempt lib a = some out) :
    ∃ r', r.attempt a = some (some out.ok, r') ∧ r'.Represents lib out.collection := by
  unfold Collection.attempt at hout
  by_cases hname : a.name ∈ s.mCollectors.keys
  · obtain ⟨c, hc, hcname, hfind⟩ := h.consistent.find ((hrep.keys a.name).mp hname)
    rw [if_neg (not_not.mpr hname)] at hout
    cases ha : a.available with
    | false =>
      rw [ha, if_pos rfl] at hout
      cases hout
      exact ⟨r, by rw [attempt, hfind, ha]; rfl, hrep⟩
    | true =>
      have hattempt : r.attempt a = r.initializeCollector a.initOk a.name := by
        rw [attempt, hfind, ha]
        rfl
      rw [ha, if_neg Bool.noConfusion, Collection.initializeCollector, hrep.mRunning] at hout
      rw [hattempt, initializeCollector, ← hcname, lookup_listed h.consistent hc, hcname]
      by_cases hrunning : a.name ∈ r.mRunning.map CollectorRef.name
      · rw [if_pos hrunning] at hout
        cases hout
        exact ⟨r, if_pos hrunning, hrep⟩
      · rw [if_neg hrunning] at hout
        rw [if_neg hrunning]
        cases hinit : a.initOk with
        | false =>
          rw [hinit, if_pos rfl] at hout
          cases hout
          exact ⟨r, rfl, hrep⟩
        | true =>
          rw [hinit, if_neg Bool.noConfusion] at hout
          obtain ⟨s', hs', rfl⟩ := Option.map_eq_some_iff.mp hout
          obtain ⟨hsettings, hconfig, hkeys, hmRunning⟩ := enable_keys hs'
          have hconverts : r.config.settings a.name = true := by
            rw [hrep.config]
            exact hsettings
          refine ⟨{ r with mRunning := r.mRunning ++ [c] }, by simp [hconverts], ?_,
            fun name => (hkeys name).trans (hrep.keys name), ?_⟩
          · rw [hconfig]
            exact hrep.config
          · rw [hmRunning, hrep.mRunning, List.map_append, List.map_singleton, hcname]
  · rw [if_pos hname] at hout
    cases hout
    have hfind := OrdMap.find?_eq_none_iff.mpr (mt (hrep.keys a.name).mpr hname)
    exact ⟨r, by rw [attempt, hfind], hrep⟩

/-- A member that is no object is not required. -/
theorem required_of_notMem {config : OrdMap Str J} {name : Str}
    (h : name ∉ (configOf lib config).objects) : required lib config name = some false := by
  unfold required
  cases hfind : config.find? name with
  | none => rfl
  | some v =>
    have hplain : lib.isObject v = false := by
      refine eq_false_of_ne_true fun hobject => h (List.mem_map.mpr ⟨(name, v), ?_, rfl⟩)
      exact List.mem_filter.mpr ⟨OrdMap.find?_eq_some_iff.mp hfind, hobject⟩
    simp [hplain]

theorem initializeAll_represents {attempts : List Attempt} {r : Registry} {s : Collection J}
    {out : Outcome J} (h : r.Good) (hrep : r.Represents lib s)
    (hout : s.initializeAll lib attempts = some out) :
    ∃ r', r.initializeAll attempts = some (some out.ok, r') ∧
      r'.Represents lib out.collection := by
  induction attempts generalizing r s out with
  | nil =>
    cases hout
    exact ⟨r, rfl, hrep⟩
  | cons a attempts ih =>
    rw [Collection.initializeAll] at hout
    rw [initializeAll]
    by_cases hspecial : Special a.name
    · rw [if_pos hspecial] at hout ⊢
      exact ih h hrep hout
    · rw [if_neg hspecial] at hout ⊢
      obtain ⟨first, hfirst, hout⟩ := Option.bind_eq_some_iff.mp hout
      obtain ⟨r₁, hr₁, hrep₁⟩ := attempt_represents h hrep hfirst
      have hgood : r₁.Good := by
        obtain ⟨ok, r', hr', -, hgood, -⟩ := attempt_spec h a
        rw [hr₁] at hr'
        cases hr'
        exact hgood
      have hcontinue : ∀ {next : Outcome J},
          ((first.collection.initializeAll lib attempts).map fun rest =>
            { rest with events := first.events ++ rest.events }) = some next →
          ∃ r', r₁.initializeAll attempts = some (some next.ok, r') ∧
            r'.Represents lib next.collection := by
        intro next hnext
        obtain ⟨rest, hrest, rfl⟩ := Option.map_eq_some_iff.mp hnext
        obtain ⟨r', hr', hrep'⟩ := ih hgood hrep₁ hrest
        exact ⟨r', hr', hrep'⟩
      rw [hr₁, Option.bind_some]
      cases hok : first.ok with
      | true =>
        rw [hok, if_pos rfl] at hout
        exact hcontinue hout
      | false =>
        rw [hok, if_neg Bool.noConfusion] at hout
        obtain ⟨isRequired, hrequired, hout⟩ := Option.bind_eq_some_iff.mp hout
        have hconfig : r₁.config.required a.name = some isRequired := by
          rw [hrep₁.config]
          exact hrequired
        dsimp only
        by_cases hobject : a.name ∈ r₁.config.objects
        · rw [if_pos hobject, hconfig]
          cases isRequired with
          | false =>
            rw [if_neg Bool.noConfusion] at hout
            exact hcontinue hout
          | true =>
            rw [if_pos rfl] at hout
            cases hout
            exact ⟨_, rfl, hrep₁.config, hrep₁.keys, rfl⟩
        · rw [hrep₁.config] at hobject
          rw [required_of_notMem hobject] at hrequired
          cases hrequired
          rw [if_neg Bool.noConfusion] at hout
          rw [if_neg (hrep₁.config ▸ hobject)]
          exact hcontinue hout

/-- `initialize()` of a collection that is stored by name gives what it gives in the registry. -/
theorem initializeList_represents {r : Registry} {s : Collection J} {answer : Nat → Bool × Bool}
    {list : List Str} {out : Outcome J} (h : r.Good) (hrep : r.Represents lib s)
    (hout : s.initializeList lib answer list = some out) :
    ∃ r', r.initializeList answer list = some (some out.ok, r') ∧
      r'.Represents lib out.collection := by
  have hattempts : r.attempts answer list = s.attempts lib answer list := by
    rw [attempts, hrep.config]
    rfl
  rw [initializeList, hattempts]
  exact initializeAll_represents h hrep hout

/-- The constructors. -/
theorem construct_represents (names : List Str) (config : OrdMap Str J) :
    (construct names (configOf lib config)).Represents lib (Collection.construct config names) := by
  have hkeys : ∀ (refs : List CollectorRef) (m : OrdMap Str (Collector J))
      (m' : OrdMap Str (Option CollectorRef)), (∀ name, name ∈ m.keys ↔ name ∈ m'.keys) →
      ∀ name, name ∈ ((refs.map CollectorRef.name).foldl (fun m name => m.insert name {}) m).keys ↔
        name ∈ (refs.foldl (fun m c => m.insert c.name (some c)) m').keys := by
    intro refs
    induction refs with
    | nil => exact fun m m' h => h
    | cons c refs ih =>
      intro m m' h
      rw [List.map_cons, List.foldl_cons, List.foldl_cons]
      refine ih _ _ fun name => ?_
      rw [OrdMap.mem_keys_insert, OrdMap.mem_keys_insert, h]
  refine ⟨rfl, fun name => ?_, rfl⟩
  have hnames : (names.map CollectorRef.builtin).map CollectorRef.name = names := by
    rw [List.map_map, show CollectorRef.name ∘ CollectorRef.builtin = id from rfl, List.map_id]
  have hmap := hkeys (names.map .builtin) ∅ ∅ (fun _ => Iff.rfl) name
  rw [hnames] at hmap
  exact hmap

end Registry

end LibCollector.Interface
