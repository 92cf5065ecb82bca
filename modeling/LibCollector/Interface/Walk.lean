import LibCollector.Interface.Initialize
import LibCollector.Interface.History

/-!
# The walk of `initialize()`

What `initialize()` does with a whole list of names, by induction on the list: each
position leaves a collection from which the rest of the walk goes on as if it had
started there (`Shift`).
-/

namespace LibCollector.Interface

open LibCollector.Misc

variable {J : Type} {lib : Jsoncpp J}

namespace Collection

instance (s : Collection J) (a : Attempt) : Decidable (s.Initialisable a) :=
  decidable_of_iff (¬ Special a.name ∧ a.name ∈ s.mCollectors.keys ∧ a.available = true ∧
      a.initOk = true)
    ⟨fun ⟨h₁, h₂, h₃, h₄⟩ => ⟨h₁, h₂, h₃, h₄⟩, fun h => ⟨h.1, h.2, h.3, h.4⟩⟩

/-- The names that are available and can be initialised and were not running, in order and without
    repetitions. -/
def newNames (s : Collection J) (attempts : List Attempt) : List Str :=
  (((attempts.filter fun a => s.Initialisable a).map Attempt.name).filter
    fun name => name ∉ s.mRunning).eraseDups

/-- The result of the walk. -/
structure Walked (lib : Jsoncpp J) (s : Collection J) (attempts : List Attempt)
    (out : Outcome J) : Prop where
  ok : out.ok = false ↔ SomeSplit (s.RequiredFailure lib) attempts
  running : out.ok = true → out.collection.mRunning = s.mRunning ++ s.newNames attempts
  cleared : out.ok = false → out.collection.mRunning = []
  deinit : ∀ name, .deinit name ∉ out.events
  init : (∃ name, .init name true ∈ out.events) ↔
    SomeSplit (fun pre a => s.Reached lib pre ∧ s.InitialisesAt pre a) attempts

/-- The collection after a position at which the walk goes on. -/
structure Shift (s : Collection J) (a : Attempt) (s' : Collection J) : Prop where
  same : SameNames s s'
  extended : s.InitialisesAt [] a → s'.mRunning = s.mRunning ++ [a.name]
  kept : ¬ s.InitialisesAt [] a → s'.mRunning = s.mRunning

theorem SameNames.refl (s : Collection J) : SameNames s s := ⟨rfl, fun _ => rfl⟩

theorem SameNames.initialisable {s s' : Collection J} (h : SameNames s s') (a : Attempt) :
    s'.Initialisable a ↔ s.Initialisable a := by
  constructor
  · rintro ⟨hnormal, hknown, havailable, hinit⟩
    exact ⟨hnormal, (h.mem_keys a.name).mp hknown, havailable, hinit⟩
  · rintro ⟨hnormal, hknown, havailable, hinit⟩
    exact ⟨hnormal, (h.mem_keys a.name).mpr hknown, havailable, hinit⟩

namespace Shift

variable {s s' : Collection J} {a : Attempt}

theorem mem_running (h : Shift s a s') (name : Str) :
    name ∈ s'.mRunning ↔ name ∈ s.mRunning ∨ a.name = name ∧ s.Initialisable a := by
  by_cases hinit : s.InitialisesAt [] a
  · rw [h.extended hinit, List.mem_append, List.mem_singleton]
    exact or_congr_right ⟨fun heq => ⟨heq.symm, hinit.1⟩, fun heq => heq.1.symm⟩
  · rw [h.kept hinit]
    refine ⟨Or.inl, fun hname => hname.elim id ?_⟩
    rintro ⟨rfl, hable⟩
    by_contra hnot
    exact hinit ⟨hable, fun hrunning => hnot (runningBefore_nil.mp hrunning)⟩

theorem runningBefore (h : Shift s a s') (pre : List Attempt) (name : Str) :
    s.RunningBefore (a :: pre) name ↔ s'.RunningBefore pre name := by
  simp only [RunningBefore, h.mem_running, h.same.initialisable, List.exists_mem_cons_iff,
    or_assoc]

theorem failsAt (h : Shift s a s') (pre : List Attempt) (b : Attempt) :
    s.FailsAt (a :: pre) b ↔ s'.FailsAt pre b := by
  simp only [FailsAt, h.runningBefore, h.same.mem_keys]

theorem requiredFailure (h : Shift s a s') (pre : List Attempt) (b : Attempt) :
    s.RequiredFailure lib (a :: pre) b ↔ s'.RequiredFailure lib pre b := by
  simp only [RequiredFailure, h.failsAt, h.same.mConfig]

theorem initialisesAt (h : Shift s a s') (pre : List Attempt) (b : Attempt) :
    s.InitialisesAt (a :: pre) b ↔ s'.InitialisesAt pre b := by
  simp only [InitialisesAt, h.runningBefore, h.same.initialisable]

theorem convertsAt (h : Shift s a s') (pre : List Attempt) (b : Attempt) :
    s.ConvertsAt lib (a :: pre) b ↔ s'.ConvertsAt lib pre b := by
  have hfails := h.failsAt pre b
  have hinit := h.initialisesAt pre b
  have henables : s'.Enables lib b.name ↔ s.Enables lib b.name := by
    simp only [Enables, h.same.mConfig, h.same.collecting]
  constructor
  · rintro ⟨hrequired, hen⟩
    exact ⟨fun hf => h.same.mConfig ▸ hrequired (hfails.mpr hf),
      fun hi => henables.mpr (hen (hinit.mpr hi))⟩
  · rintro ⟨hrequired, hen⟩
    exact ⟨fun hf => h.same.mConfig ▸ hrequired (hfails.mp hf),
      fun hi => henables.mp (hen (hinit.mp hi))⟩

theorem reached (h : Shift s a s') (hgoes : ¬ s.RequiredFailure lib [] a) (pre : List Attempt) :
    s.Reached lib (a :: pre) ↔ s'.Reached lib pre := by
  simp only [Reached, eachSplit_cons, h.requiredFailure]
  exact and_iff_right hgoes

theorem newNames (h : Shift s a s') (attempts : List Attempt) :
    s.mRunning ++ s.newNames (a :: attempts) = s'.mRunning ++ s'.newNames attempts := by
  have hable : ∀ b, decide (s'.Initialisable b) = decide (s.Initialisable b) := fun b =>
    decide_eq_decide.mpr (h.same.initialisable b)
  by_cases hinit : s.InitialisesAt [] a
  · have hnot : a.name ∉ s.mRunning := fun hmem => hinit.2 (runningBefore_nil.mpr hmem)
    rw [h.extended hinit, Collection.newNames, Collection.newNames, List.filter_cons_of_pos
      (by simpa using hinit.1), List.map_cons, List.filter_cons_of_pos (by simpa using hnot),
      List.eraseDups_cons, List.append_assoc, List.singleton_append, List.filter_filter]
    simp only [hable, h.extended hinit, List.mem_append, List.mem_singleton, not_or]
    congr 4
    funext name
    rw [Bool.and_comm]
    by_cases hname : name = a.name <;> simp [hname]
  · rw [h.kept hinit, Collection.newNames, Collection.newNames, h.kept hinit]
    simp only [hable]
    by_cases habled : s.Initialisable a
    · have hmem : a.name ∈ s.mRunning := by
        by_contra hnot
        exact hinit ⟨habled, fun hrunning => hnot (runningBefore_nil.mp hrunning)⟩
      rw [List.filter_cons_of_pos (by simpa using habled), List.map_cons,
        List.filter_cons_of_neg (by simpa using hmem)]
    · rw [List.filter_cons_of_neg (by simpa using habled)]

/-- The walk goes on. -/
theorem walked (h : Shift s a s') (hgoes : ¬ s.RequiredFailure lib [] a) {attempts : List Attempt}
    {out : Outcome J} (hout : Walked lib s' attempts out) {events : List Event}
    (hinit : (∃ name, .init name true ∈ events) ↔ s.InitialisesAt [] a)
    (hdeinit : ∀ name, .deinit name ∉ events) :
    Walked lib s (a :: attempts) { out with events := events ++ out.events } := by
  have hreached : s.Reached lib [] := eachSplit_nil _
  refine ⟨?_, fun hok => ?_, hout.cleared, fun name => ?_, ?_⟩
  · rw [someSplit_cons, or_iff_right hgoes, hout.ok]
    simp only [h.requiredFailure]
  · rw [h.newNames]
    exact hout.running hok
  · exact List.mem_append.not.mpr (not_or.mpr ⟨hdeinit name, hout.deinit name⟩)
  · simp only [List.mem_append, exists_or]
    rw [hinit, hout.init, someSplit_cons, and_iff_right hreached]
    simp only [h.reached hgoes, h.initialisesAt]

end Shift

/-! ## The whole walk -/

/-- Every setting that the walk reads can be converted. -/
def Converts (lib : Jsoncpp J) (s : Collection J) (attempts : List Attempt) : Prop :=
  EachSplit (fun pre a => s.Reached lib pre → s.ConvertsAt lib pre a) attempts

theorem Shift.converts {s s' : Collection J} {a : Attempt} (h : Shift s a s')
    (hgoes : ¬ s.RequiredFailure lib [] a) {attempts : List Attempt} :
    s.Converts lib (a :: attempts) ↔ s.ConvertsAt lib [] a ∧ s'.Converts lib attempts := by
  have hreached : s.Reached lib [] := eachSplit_nil _
  simp only [Converts, eachSplit_cons, h.reached hgoes, h.convertsAt]
  exact and_congr_left' ⟨fun hhere => hhere hreached, fun hhere _ => hhere⟩

theorem not_initialisesAt_of_failsAt {s : Collection J} {a : Attempt} (h : s.FailsAt [] a) :
    ¬ s.InitialisesAt [] a := by
  rintro ⟨hable, hrunning⟩
  rcases h.2 with hunknown | hunavailable | ⟨-, hinit⟩
  · exact hunknown hable.known
  · exact absurd hable.available (by rw [hunavailable]; exact Bool.false_ne_true)
  · exact absurd hable.initOk (by rw [hinit]; exact Bool.false_ne_true)

/-- Behind a required collector that fails nothing is read. -/
theorem converts_of_requiredFailure {s : Collection J} {a : Attempt} {attempts : List Attempt}
    (hfail : s.RequiredFailure lib [] a) :
    s.Converts lib (a :: attempts) ∧
      ¬ SomeSplit (fun pre b => s.Reached lib pre ∧ s.InitialisesAt pre b) (a :: attempts) := by
  have hstop : ∀ pre, ¬ s.Reached lib (a :: pre) := fun pre hreached =>
    (eachSplit_cons.mp hreached).1 hfail
  have hnot := not_initialisesAt_of_failsAt hfail.1
  constructor
  · rw [Converts, eachSplit_cons]
    refine ⟨fun _ => ⟨fun _ => ?_, fun hinit => absurd hinit hnot⟩,
      fun pre b post _ hreached => absurd hreached (hstop pre)⟩
    rw [hfail.2]
    rfl
  · rw [someSplit_cons]
    rintro (⟨-, hinit⟩ | ⟨pre, b, post, -, hreached, -⟩)
    · exact hnot hinit
    · exact hstop pre hreached

/-- What is shown of the walk: it ends exactly if every setting can be converted. -/
structure WalkSpec (lib : Jsoncpp J) (s : Collection J) (attempts : List Attempt) : Prop where
  some : ∀ out, initializeAll lib attempts s = some out →
    s.Converts lib attempts ∧ Walked lib s attempts out
  none : initializeAll lib attempts s = none → ¬ s.Converts lib attempts

theorem Shift.walkSpec {s s' : Collection J} {a : Attempt} (h : Shift s a s')
    (hgoes : ¬ s.RequiredFailure lib [] a) (hconverts : s.ConvertsAt lib [] a)
    {events : List Event} (hinit : (∃ name, .init name true ∈ events) ↔ s.InitialisesAt [] a)
    (hdeinit : ∀ name, .deinit name ∉ events) {attempts : List Attempt}
    (heq : initializeAll lib (a :: attempts) s = (initializeAll lib attempts s').map fun rest =>
      { rest with events := events ++ rest.events })
    (ih : WalkSpec lib s' attempts) : WalkSpec lib s (a :: attempts) := by
  constructor
  · intro out hout
    rw [heq] at hout
    obtain ⟨rest, hrest, rfl⟩ := Option.map_eq_some_iff.mp hout
    obtain ⟨hconv, hwalked⟩ := ih.some rest hrest
    exact ⟨(h.converts hgoes).mpr ⟨hconverts, hconv⟩, h.walked hgoes hwalked hinit hdeinit⟩
  · intro hnone
    rw [heq, Option.map_eq_none_iff] at hnone
    exact fun hconv => ih.none hnone ((h.converts hgoes).mp hconv).2

theorem initializeAll_spec (attempts : List Attempt) (s : Collection J) :
    WalkSpec lib s attempts := by
  induction attempts generalizing s with
  | nil =>
    refine ⟨fun out hout => ?_, nofun⟩
    cases hout
    refine ⟨eachSplit_nil _, by simp, fun _ => ?_, nofun, by simp, by simp⟩
    simp [newNames]
  | cons a attempts ih =>
    have hstay : ¬ s.InitialisesAt [] a → Shift s a s := fun hnot =>
      ⟨SameNames.refl s, fun hinit => absurd hinit hnot, fun _ => rfl⟩
    by_cases hspecial : Special a.name
    · have hnot : ¬ s.InitialisesAt [] a := fun hinit => hinit.1.normal hspecial
      have hfails : ¬ s.FailsAt [] a := fun hfail => hfail.1 hspecial
      refine (hstay hnot).walkSpec (fun hfail => hfails hfail.1)
        ⟨fun hfail => absurd hfail hfails, fun hinit => absurd hinit hnot⟩
        (show (∃ name, Event.init name true ∈ []) ↔ _ by simp [hnot]) (by simp) ?_ (ih s)
      rw [initializeAll, if_pos hspecial]
      cases initializeAll lib attempts s <;> rfl
    have hwalk : initializeAll lib (a :: attempts) s = (s.attempt lib a).bind fun out =>
        let continued := (initializeAll lib attempts out.collection).map fun rest =>
          { rest with events := out.events ++ rest.events }
        if out.ok then continued
        else (required lib out.collection.mConfig a.name).bind fun isRequired =>
          if isRequired then some ⟨false, { out.collection with mRunning := [] }, out.events⟩
          else continued := by
      rw [initializeAll, if_neg hspecial]
    by_cases hfails : s.FailsAt [] a
    · have hnot := not_initialisesAt_of_failsAt hfails
      obtain ⟨events, hattempt, hnoinit, hnodeinit⟩ := @attempt_fails _ lib s a hfails
      have hinit : (∃ name, .init name true ∈ events) ↔ s.InitialisesAt [] a :=
        ⟨fun ⟨name, hname⟩ => absurd hname (hnoinit name), fun hinit => absurd hinit hnot⟩
      rw [hattempt, Option.bind_some] at hwalk
      cases hrequired : required lib s.mConfig a.name with
      | none =>
        have hends : initializeAll lib (a :: attempts) s = none := by
          rw [hwalk]
          simp [hrequired]
        refine ⟨fun out hout => ?_, fun _ hconv => ?_⟩
        · rw [hends] at hout
          cases hout
        · have hsome := ((eachSplit_cons.mp hconv).1 (eachSplit_nil _)).required hfails
          rw [hrequired] at hsome
          cases hsome
      | some isRequired =>
        cases isRequired with
        | true =>
          have hfail : s.RequiredFailure lib [] a := ⟨hfails, hrequired⟩
          have hends : initializeAll lib (a :: attempts) s =
              some ⟨false, { s with mRunning := [] }, events⟩ := by
            rw [hwalk]
            simp [hrequired]
          obtain ⟨hconv, hnothing⟩ := @converts_of_requiredFailure _ lib s a attempts hfail
          refine ⟨fun out hout => ?_, fun hnone => ?_⟩
          · rw [hends] at hout
            cases hout
            refine ⟨hconv, ?_, nofun, fun _ => rfl, hnodeinit, ?_⟩
            · exact ⟨fun _ => someSplit_cons.mpr (Or.inl hfail), fun _ => rfl⟩
            · exact ⟨fun ⟨name, hname⟩ => absurd hname (hnoinit name),
                fun hsome => absurd hsome hnothing⟩
          · rw [hends] at hnone
            cases hnone
        | false =>
          have hgoes : ¬ s.RequiredFailure lib [] a := fun hfail => by
            rw [RequiredFailure, hrequired] at hfail
            cases hfail.2
          refine (hstay hnot).walkSpec hgoes
            ⟨fun _ => by rw [hrequired]; rfl, fun hinit => absurd hinit hnot⟩ hinit hnodeinit ?_
            (ih s)
          rw [hwalk]
          simp [hrequired]
    by_cases hinit : s.InitialisesAt [] a
    · have hgoes : ¬ s.RequiredFailure lib [] a := fun hfail => hfails hfail.1
      have hattempt := @attempt_initialises _ lib s a hinit
      by_cases henables : s.Enables lib a.name
      · obtain ⟨s', henable, hrunning, hsame⟩ := enable_spec hinit.1.known henables
        rw [hattempt, henable, Option.map_some, Option.bind_some] at hwalk
        refine Shift.walkSpec ⟨hsame, fun _ => hrunning, fun hnot => absurd hinit hnot⟩ hgoes
          ⟨fun hfail => absurd hfail hfails, fun _ => henables⟩
          (show (∃ name, Event.init name true ∈ [Event.init a.name true]) ↔ _ by simp [hinit])
          (by simp) hwalk (ih s')
      · rw [hattempt, enable_eq_none hinit.1.known henables] at hwalk
        refine ⟨fun out hout => ?_, fun _ hconv => ?_⟩
        · rw [hwalk] at hout
          cases hout
        · exact henables (((eachSplit_cons.mp hconv).1 (eachSplit_nil _)).enables hinit)
    · obtain ⟨hattempt, -⟩ := @attempt_running _ lib s a hspecial hfails hinit
      rw [hattempt, Option.bind_some] at hwalk
      exact (hstay hinit).walkSpec (fun hfail => hfails hfail.1)
        ⟨fun hfail => absurd hfail hfails, fun hi => absurd hi hinit⟩
        (show (∃ name, Event.init name true ∈ []) ↔ _ by simp [hinit]) (by simp) hwalk (ih s)

/-! ## The outcome of `initialize()` -/

/-- A call that returns false exactly if a required collector fails, that leaves the collectors
    running that could be initialised, or else none of them, with each `init()` taken back. -/
def AllOrNothing (lib : Jsoncpp J) (answer : Nat → Bool × Bool) (list : List Str)
    (s : Collection J) : Prop :=
  ∃ out, s.initializeList lib answer list = some out ∧
    (out.ok = false ↔ SomeSplit (s.RequiredFailure lib) (s.attempts lib answer list)) ∧
    (out.ok = true → out.collection.mRunning =
      s.mRunning ++ s.newNames (s.attempts lib answer list)) ∧
    (out.ok = false → out.collection.mRunning = [] ∧
      ∀ name, .init name true ∈ out.events → .deinit name ∈ out.events)

/-- `initialize()` never takes an `init()` back, so it does what it should exactly if every setting
    that it reads can be converted, and no collector is initialised before a required one fails. -/
theorem allOrNothing_iff (lib : Jsoncpp J) (answer : Nat → Bool × Bool) (list : List Str)
    (s : Collection J) : s.AllOrNothing lib answer list ↔
      s.Converts lib (s.attempts lib answer list) ∧
        (SomeSplit (s.RequiredFailure lib) (s.attempts lib answer list) →
          ¬ SomeSplit (fun pre a => s.Reached lib pre ∧ s.InitialisesAt pre a)
            (s.attempts lib answer list)) := by
  have hspec := @initializeAll_spec _ lib (s.attempts lib answer list) s
  constructor
  · rintro ⟨out, hout, -, -, hnothing⟩
    obtain ⟨hconv, hwalked⟩ := hspec.some out hout
    refine ⟨hconv, fun hfail hinit => ?_⟩
    obtain ⟨name, hname⟩ := hwalked.init.mpr hinit
    exact hwalked.deinit name ((hnothing (hwalked.ok.mpr hfail)).2 name hname)
  · rintro ⟨hconv, hnone⟩
    cases hout : initializeAll lib (s.attempts lib answer list) s with
    | none => exact absurd hconv (hspec.none hout)
    | some out =>
      obtain ⟨-, hwalked⟩ := hspec.some out hout
      refine ⟨out, hout, hwalked.ok, hwalked.running, fun hok => ⟨hwalked.cleared hok, ?_⟩⟩
      intro name hname
      exact absurd (hwalked.init.mp ⟨name, hname⟩) (hnone (hwalked.ok.mp hok))

/-! ## Fresh collections -/

theorem fresh_construct (config : OrdMap Str J) (names : List Str) :
    (construct config names).Fresh := by
  refine ⟨List.nodup_nil, ⟨rfl, rfl⟩, ⟨rfl, rfl, rfl⟩, fun name c hc => ?_⟩
  have hfold : ∀ (names : List Str) (m : OrdMap Str (Collector J)),
      (∀ name c, m.find? name = some c → c = {}) → ∀ name c,
        (names.foldl (fun m name => m.insert name {}) m).find? name = some c → c = {} := by
    intro names
    induction names with
    | nil => exact fun m hm => hm
    | cons first names ih =>
      intro m hm
      refine ih _ fun name c hfind => ?_
      rw [OrdMap.find?_insert] at hfind
      split at hfind
      · exact (Option.some.inj hfind).symm
      · exact hm name c hfind
  rw [hfold names ∅ (fun _ _ h => by cases h) name c hc]
  exact ⟨rfl, rfl, rfl⟩

/-- To initialise collectors leaves the collection fresh. -/
theorem fresh_initializeAll {attempts : List Attempt} {s : Collection J} {out : Outcome J}
    (hs : s.Fresh) (h : initializeAll lib attempts s = some out) : out.collection.Fresh := by
  have henable : ∀ {name : Str} {s s' : Collection J}, s.Fresh → name ∉ s.mRunning →
      s.enable lib name = some s' → s'.Fresh := by
    intro name s s' hs hname hs'
    have hnodup : (s.mRunning ++ [name]).Nodup := by
      rw [List.nodup_append]
      refine ⟨hs.nodup, List.nodup_singleton _, fun x hx y hy hxy => ?_⟩
      rw [List.mem_singleton.mp hy] at hxy
      exact hname (hxy ▸ hx)
    obtain ⟨setting, -, hs'⟩ := Option.bind_eq_some_iff.mp hs'
    cases setting with
    | none =>
      cases hs'
      exact ⟨hnodup, hs.mTiming, hs.mCustom, hs.collectors⟩
    | some sampleRate =>
      obtain ⟨c, hc, hs'⟩ := Option.bind_eq_some_iff.mp hs'
      obtain ⟨c', hc', rfl⟩ := Option.map_eq_some_iff.mp hs'
      refine ⟨hnodup, hs.mTiming, hs.mCustom, fun other d hd => ?_⟩
      rw [OrdMap.find?_insert] at hd
      split at hd
      · cases hd
        unfold Collector.useThreading at hc'
        split at hc'
        · cases hc'
        · cases hc'
          exact hs.collectors name c hc
      · exact hs.collectors other d hd
  have hattempt : ∀ {a : Attempt} {s : Collection J} {out : Outcome J}, s.Fresh →
      s.attempt lib a = some out → out.collection.Fresh := by
    intro a s out hs hout
    unfold attempt at hout
    split at hout
    · cases hout
      exact hs
    · split at hout
      · cases hout
        exact hs
      · unfold initializeCollector at hout
        split at hout
        · cases hout
          exact hs
        · rename_i hname
          split at hout
          · cases hout
            exact hs
          · obtain ⟨s', hs', rfl⟩ := Option.map_eq_some_iff.mp hout
            exact henable hs hname hs'
  induction attempts generalizing s out with
  | nil =>
    cases h
    exact hs
  | cons a attempts ih =>
    rw [initializeAll] at h
    split at h
    · exact ih hs h
    · obtain ⟨first, hfirst, h⟩ := Option.bind_eq_some_iff.mp h
      have hfresh := hattempt hs hfirst
      have hrest : ((initializeAll lib attempts first.collection).map fun rest =>
          { rest with events := first.events ++ rest.events }) = some out →
          out.collection.Fresh := by
        intro hmap
        obtain ⟨rest, hall, rfl⟩ := Option.map_eq_some_iff.mp hmap
        exact (ih hfresh hall : rest.collection.Fresh)
      dsimp only at h
      split at h
      · exact hrest h
      · obtain ⟨isRequired, -, h⟩ := Option.bind_eq_some_iff.mp h
        split at h
        · cases h
          exact ⟨List.nodup_nil, hfresh.mTiming, hfresh.mCustom, hfresh.collectors⟩
        · exact hrest h

/-- A newly constructed collection whose collectors have been initialised is fresh. -/
theorem fresh_initializeList {config : OrdMap Str J} {names list : List Str}
    {answer : Nat → Bool × Bool} {out : Outcome J}
    (h : (construct config names).initializeList lib answer list = some out) :
    out.collection.Fresh :=
  fresh_initializeAll (fresh_construct config names) h

/-! ## A required collector that is not available -/

end Collection

/-- Values of a configuration. -/
inductive Value where
  | null
  | bool (b : Bool)
  | int (n : Int)
  | string (s : Str)
  | object (members : List (Str × Value))

/-- The conversions of jsoncpp on these values. -/
def jsoncpp : Jsoncpp Value where
  null := .null
  ofBool := .bool
  ofInt := .int
  isObject := fun
    | .object _ => true
    | _ => false
  get := fun
    | .null, _, default => some default
    | .object members, key, default => some ((findEntry key members).getD default)
    | _, _, _ => none
  asBool := fun
    | .null => some false
    | .bool b => some b
    | .int n => some (n ≠ 0)
    | _ => none
  asInt := fun
    | .null => some 0
    | .bool b => some (if b then 1 else 0)
    | .int n => toInt32 n
    | _ => none

/-- A configuration that requires the `procfs` collector. -/
def procfsCollection : Collection Value :=
  .construct (OrdMap.insert ∅ "procfs".toList (.object [("required".toList, .bool true)]))
    builtinCollectors

/-- The `cpufreq` collector stays initialised when the `procfs` collector is not available. -/
theorem not_allOrNothing_procfs :
    ¬ procfsCollection.AllOrNothing jsoncpp (fun i => (i == 0, true)) ["cpufreq".toList] := by
  rintro ⟨out, hout, -, -, hnothing⟩
  have hresult : ((procfsCollection.initializeList jsoncpp (fun i => (i == 0, true))
      ["cpufreq".toList]).map fun out => (out.ok, out.events)) =
        some (false, [.init "cpufreq".toList true]) := by decide
  rw [hout, Option.map_some, Option.some_inj] at hresult
  obtain ⟨hok, hevents⟩ := Prod.mk.inj hresult
  have htaken := (hnothing hok).2 "cpufreq".toList (by rw [hevents]; exact List.mem_cons_self)
  rw [hevents] at htaken
  exact absurd htaken (by decide)

end LibCollector.Interface
