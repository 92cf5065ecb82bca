import LibCollector.Ferret.Lifecycle
import Mathlib.Data.List.Basic

/-!
# Finding processes by name

`poll_for_named_process` compares a name with what it reads of a `cmdline` file, which are 100 bytes
at most. So a name of 100 characters is also found where it is only the beginning of `argv[0]`, and
a longer one is never found. `Recognised` is what the scan of a name needs to find in `/proc`, and
`recognised_of_short` says that the shorter names need only files that can be opened.
-/

namespace LibCollector.Ferret

open LibCollector.Misc

/-! ## What a scan finds -/

namespace ProcEntry

/-- The entry belongs to a process. -/
def numeric (e : ProcEntry) : Bool := e.dName.head?.any Char.isDigit

/-- The process of the entry. -/
def pid (e : ProcEntry) : Int := atoi e.dName

/-- The entry belongs to a process whose `argv[0]` is `name`. -/
def Runs (name : Str) (e : ProcEntry) : Prop :=
  e.numeric = true ∧ e.data ≠ [] ∧ cstr e.data = name

/-- The `cmdline` file is opened, and the name agrees with what is read there. -/
def Shows (name : Str) (e : ProcEntry) : Prop :=
  e.numeric = true ∧ 0 < e.cmdline.fd ∧ e.data ≠ [] ∧ cstr name = cstr (e.data.take 100)

instance (name : Str) (e : ProcEntry) : Decidable (e.Runs name) :=
  inferInstanceAs (Decidable (_ ∧ _))

instance (name : Str) (e : ProcEntry) : Decidable (e.Shows name) :=
  inferInstanceAs (Decidable (_ ∧ _))

end ProcEntry

/-- The entry that the walk over `/proc` stops at. -/
def firstShown (name : Str) (es : List ProcEntry) : Option ProcEntry :=
  es.find? fun e => e.Shows name

theorem firstShown_eq_some {name : Str} {es : List ProcEntry} {e : ProcEntry}
    (h : firstShown name es = some e) : e ∈ es ∧ e.Shows name := by
  have hshows := List.find?_some h
  exact ⟨List.mem_of_find?_eq_some h, of_decide_eq_true hshows⟩

/-- The walk returns the process of that entry, or zero. -/
theorem findNamed_eq {name : Str} {es : List ProcEntry} {pid : Int}
    (h : findNamed name es = some pid) :
    pid = ((firstShown name es).map ProcEntry.pid).getD 0 := by
  induction es with
  | nil => exact (Option.some.inj h).symm
  | cons e es ih =>
    rw [findNamed] at h
    rw [firstShown, List.find?_cons]
    by_cases hshows : e.Shows name
    · obtain ⟨hnumeric, hfd, hdata⟩ := id hshows
      rw [if_pos (by exact hnumeric), if_pos hfd, if_pos hdata] at h
      rw [decide_eq_true hshows]
      exact (Option.some.inj h).symm
    · have hrest : findNamed name es = some pid := by
        split_ifs at h with hnumeric hfd hdata
        · exact absurd ⟨hnumeric, hfd, hdata⟩ hshows
        · exact h
        · exact h
        · exact h
      rw [decide_eq_false hshows]
      exact ih hrest

/-! ## What a call does with the names -/

/-- What becomes of the names `ws`, which are looked for with the scans from number `i` on: those
    that stay, and the pids of those that leave. A name leaves for a process that runs under the
    whole name, and it stays if there is none. -/
inductive Discovered (env : Proc) : Nat → List Str → List Str → List Str → Prop where
  | nil (i : Nat) : Discovered env i [] [] []
  | stays {i : Nat} {w : Str} {ws left found : List Str} {es : List ProcEntry}
      (hpoll : pollForNamedProcess env i w = some 0) (hscan : env.scan i = some es)
      (hnone : ∀ e ∈ es, ¬ e.Runs w) (hrest : Discovered env (i + 1) ws left found) :
      Discovered env i (w :: ws) (w :: left) found
  | leaves {i : Nat} {w : Str} {ws left found : List Str} {es : List ProcEntry} {e : ProcEntry}
      (hpoll : pollForNamedProcess env i w = some e.pid) (hpos : 0 < e.pid)
      (hscan : env.scan i = some es) (he : e ∈ es) (hruns : e.Runs w)
      (hrest : Discovered env (i + 1) ws left found) :
      Discovered env i (w :: ws) left (toChars e.pid :: found)

/-- A call discovers the processes by name, and writes no row while names are awaited. -/
structure Discovers (env : Proc) (c : FerretCollector) (out : Outcome) : Prop where
  names : ∃ found, out.collector.mPids = c.mPids ++ found ∧
    Discovered env 0 c.mWatchList out.collector.mWatchList found
  rows : out.collector.mWatchList ≠ [] → out.rows = []

/-- What the scan of a name needs: if a process runs under the name, the scan stops at an entry of
    a process; and the process of the entry that it stops at runs under the name. -/
structure Recognised (name : Str) (es : List ProcEntry) : Prop where
  found : (∃ e ∈ es, e.Runs name) → ∃ e, firstShown name es = some e ∧ 0 < e.pid
  right : ∀ e, firstShown name es = some e → 0 < e.pid →
    ∃ e' ∈ es, e'.Runs name ∧ e'.pid = e.pid

/-- What the scans of the names need, from number `i` on. -/
def AllRecognised (env : Proc) : Nat → List Str → Prop
  | _, [] => True
  | i, w :: ws => (∀ es, env.scan i = some es → Recognised w es) ∧ AllRecognised env (i + 1) ws

/-- A scan that can be made returns the process of the entry that it stops at. -/
theorem pollForNamedProcess_eq_some {env : Proc} {i : Nat} {w : Str} {pid : Int}
    (h : pollForNamedProcess env i w = some pid) (hpid : ¬ pid < 0) :
    ∃ es, env.scan i = some es ∧ pid = ((firstShown w es).map ProcEntry.pid).getD 0 := by
  rw [pollForNamedProcess] at h
  cases hscan : env.scan i with
  | none =>
    rw [hscan] at h
    cases h
    exact absurd (by decide) hpid
  | some es =>
    rw [hscan] at h
    exact ⟨es, rfl, findNamed_eq h⟩

/-- A name that leaves is recognised if and only if the process that it leaves for runs under it. -/
theorem recognised_of_pos {name : Str} {es : List ProcEntry} {e : ProcEntry}
    (hshown : firstShown name es = some e) (hpos : 0 < e.pid) :
    Recognised name es ↔ ∃ e' ∈ es, e'.Runs name ∧ e'.pid = e.pid := by
  constructor
  · intro hname
    exact hname.right e hshown hpos
  · intro hright
    refine ⟨fun _ => ⟨e, hshown, hpos⟩, fun e' he' _ => ?_⟩
    obtain rfl := Option.some.inj (hshown.symm.trans he')
    exact hright

/-- A name that stays is recognised if and only if no process runs under it. -/
theorem recognised_of_not_pos {name : Str} {es : List ProcEntry}
    (hshown : ∀ e, firstShown name es = some e → ¬ 0 < e.pid) :
    Recognised name es ↔ ∀ e ∈ es, ¬ e.Runs name := by
  constructor
  · intro hname e he hruns
    obtain ⟨e', he', hpos⟩ := hname.found ⟨e, he, hruns⟩
    exact hshown e' he' hpos
  · intro hnone
    refine ⟨?_, fun e he hpos => absurd hpos (hshown e he)⟩
    rintro ⟨e, he, hruns⟩
    exact absurd hruns (hnone e he)

/-- A name that leaves: the process that it leaves for runs under it. -/
theorem discovered_cons_of_pos {env : Proc} {i : Nat} {w : Str} {ws left found : List Str}
    {es : List ProcEntry} {e : ProcEntry} (hpoll : pollForNamedProcess env i w = some e.pid)
    (hpos : 0 < e.pid) (hscan : env.scan i = some es) :
    Discovered env i (w :: ws) left (toChars e.pid :: found) ↔
      (∃ e' ∈ es, e'.Runs w ∧ e'.pid = e.pid) ∧ Discovered env (i + 1) ws left found := by
  constructor
  · generalize hfound : toChars e.pid :: found = all
    intro hdiscovered
    cases hdiscovered with
    | stays hpoll' =>
      rw [hpoll] at hpoll'
      exact absurd (Option.some.inj hpoll' ▸ hpos) (by decide)
    | leaves hpoll' hpos' hscan' he hruns hrest =>
      rw [hscan] at hscan'
      rw [hpoll] at hpoll'
      obtain ⟨-, rfl⟩ := List.cons.inj hfound
      obtain rfl := Option.some.inj hscan'
      exact ⟨⟨_, he, hruns, (Option.some.inj hpoll').symm⟩, hrest⟩
  · rintro ⟨⟨e', he', hruns, hsame⟩, hrest⟩
    rw [← hsame] at hpoll hpos ⊢
    exact .leaves hpoll hpos hscan he' hruns hrest

/-- A name that stays: no process runs under it. -/
theorem discovered_cons_of_zero {env : Proc} {i : Nat} {w : Str} {ws left found : List Str}
    {es : List ProcEntry} (hpoll : pollForNamedProcess env i w = some 0)
    (hscan : env.scan i = some es) :
    Discovered env i (w :: ws) (w :: left) found ↔
      (∀ e ∈ es, ¬ e.Runs w) ∧ Discovered env (i + 1) ws left found := by
  constructor
  · generalize hleft : w :: left = all
    intro hdiscovered
    cases hdiscovered with
    | stays hpoll' hscan' hnone hrest =>
      rw [hscan] at hscan'
      obtain rfl := Option.some.inj hscan'
      obtain ⟨-, rfl⟩ := List.cons.inj hleft
      exact ⟨hnone, hrest⟩
    | leaves hpoll' hpos' =>
      rw [hpoll] at hpoll'
      rw [← Option.some.inj hpoll'] at hpos'
      exact absurd hpos' (by decide)
  · rintro ⟨hnone, hrest⟩
    exact .stays hpoll hscan hnone hrest

/-- The names are discovered if and only if their scans have what they need. -/
theorem discovered_iff {env : Proc} {i : Nat} {ws : List Str} {r : List Str × List Str}
    (h : pollWatchList env i ws = some r) :
    Discovered env i ws r.1 r.2 ↔ AllRecognised env i ws := by
  induction ws generalizing i r with
  | nil =>
    cases h
    exact iff_of_true (.nil i) trivial
  | cons w ws ih =>
    obtain ⟨pid, hpoll, h⟩ := Option.bind_eq_some_iff.mp h
    split at h
    · cases h
    · next hpid =>
      obtain ⟨⟨left, found⟩, hrest, rfl⟩ := Option.map_eq_some_iff.mp h
      obtain ⟨es, hscan, hfirst⟩ := pollForNamedProcess_eq_some hpoll hpid
      have hname : (∀ es', env.scan i = some es' → Recognised w es') ↔ Recognised w es := by
        simp [hscan]
      rw [AllRecognised, ← ih hrest, hname]
      cases hshown : firstShown w es with
      | none =>
        rw [hshown] at hfirst
        obtain rfl : pid = 0 := hfirst
        rw [if_neg (lt_irrefl 0), recognised_of_not_pos (by simp [hshown])]
        exact discovered_cons_of_zero hpoll hscan
      | some e =>
        rw [hshown] at hfirst
        obtain rfl : pid = e.pid := hfirst
        split_ifs with hpos
        · rw [recognised_of_pos hshown hpos]
          exact discovered_cons_of_pos hpoll hpos hscan
        · have hzero : e.pid = 0 := by omega
          rw [recognised_of_not_pos (by simp [hshown, hzero])]
          rw [hzero] at hpoll
          exact discovered_cons_of_zero hpoll hscan

/-- A call writes no row while names are awaited. -/
theorem collect_rows {env : Proc} {last : Int} {c : FerretCollector} {out : Outcome}
    (h : c.collect env last = some out) (hawaited : out.collector.mWatchList ≠ []) :
    out.rows = [] := by
  obtain ⟨-, -, left, found, -, ⟨-, rfl⟩ | ⟨rfl, opened, -, rfl⟩⟩ := FerretCollector.collect_cases h
  · unfold FerretCollector.await
    split <;> rfl
  · exact absurd rfl hawaited

/-- A call discovers the processes if and only if its scans have what they need. -/
theorem discovers_iff {env : Proc} {last : Int} {c : FerretCollector} {out : Outcome}
    (h : c.collect env last = some out) :
    Discovers env c out ↔ AllRecognised env 0 c.mWatchList := by
  obtain ⟨-, -, left, found, hpoll, hout⟩ := FerretCollector.collect_cases h
  have hgrow : out.collector.mWatchList = left ∧ out.collector.mPids = c.mPids ++ found := by
    rcases hout with ⟨-, rfl⟩ | ⟨rfl, opened, -, rfl⟩
    · unfold FerretCollector.await
      split <;> exact ⟨rfl, rfl⟩
    · exact ⟨rfl, rfl⟩
  rw [← discovered_iff hpoll]
  constructor
  · rintro ⟨⟨found', hfound, hnames⟩, -⟩
    rw [hgrow.2] at hfound
    rw [hgrow.1, ← List.append_cancel_left hfound] at hnames
    exact hnames
  · intro hnames
    refine ⟨⟨found, hgrow.2, ?_⟩, collect_rows h⟩
    rw [hgrow.1]
    exact hnames

/-! ## Which names are recognised -/

/-- The names that fit into the buffer are recognised where the files can be read. -/
theorem recognised_of_short {name : Str} {es : List ProcEntry} (hname : '\x00' ∉ name)
    (hshort : name.length < 100) (hopen : ∀ e ∈ es, e.numeric → 0 < e.pid ∧ 0 < e.cmdline.fd) :
    Recognised name es := by
  have hcut (data : Str) : cstr name = cstr (data.take 100) ↔ cstr data = name := by
    have hread : cstr (data.take 100) = (cstr data).take 100 := List.take_takeWhile.symm
    rw [cstr_of_notMem hname, hread]
    constructor
    · intro hsame
      have hlen := congrArg List.length hsame
      rw [List.length_take] at hlen
      rw [hsame, List.take_of_length_le (by omega)]
    · intro hsame
      rw [hsame, List.take_of_length_le hshort.le]
  have hshows (e : ProcEntry) (he : e ∈ es) : e.Shows name ↔ e.Runs name := by
    constructor
    · rintro ⟨hnumeric, -, hdata, hsame⟩
      exact ⟨hnumeric, hdata, (hcut e.data).mp hsame⟩
    · rintro ⟨hnumeric, hdata, hsame⟩
      exact ⟨hnumeric, (hopen e he hnumeric).2, hdata, (hcut e.data).mpr hsame⟩
  constructor
  · rintro ⟨e, he, hruns⟩
    have hsome : (firstShown name es).isSome :=
      List.find?_isSome.mpr ⟨e, he, decide_eq_true ((hshows e he).mpr hruns)⟩
    obtain ⟨e', he'⟩ := Option.isSome_iff_exists.mp hsome
    obtain ⟨hmem, hshown⟩ := firstShown_eq_some he'
    exact ⟨e', he', (hopen e' hmem hshown.1).1⟩
  · intro e he _
    obtain ⟨hmem, hshown⟩ := firstShown_eq_some he
    exact ⟨e, hmem, (hshows e hmem).mp hshown, rfl⟩

/-- A process whose name is longer than what is read of it is not found. -/
theorem not_recognised_of_long {name : Str} {es : List ProcEntry} (hname : '\x00' ∉ name)
    (hlong : 100 < name.length) (hruns : ∃ e ∈ es, e.Runs name) : ¬ Recognised name es := by
  intro hrecognised
  obtain ⟨e, he, -⟩ := hrecognised.found hruns
  obtain ⟨-, -, -, -, hsame⟩ := firstShown_eq_some he
  have hlen := congrArg List.length hsame
  rw [cstr_of_notMem hname] at hlen
  have hread : (cstr (e.data.take 100)).length ≤ 100 :=
    (List.takeWhile_sublist _).length_le.trans (List.length_take_le _ _)
  omega

/-! ## Whole runs -/

/-- What a `collect()` call needs to find in `/proc`. -/
def RecognisesAt (s : FerretCollector × Int) : Op → Prop
  | .collect env => AllRecognised env 0 s.1.mWatchList
  | _ => True

/-- Every `collect()` call of a run discovers the processes, if and only if the scans of each of
    them have what they need. -/
theorem discovers_iff_stepsMeet (s : FerretCollector × Int) (ops : List Op)
    (h : (run step s ops).isSome) :
    (∀ before env after, ops = before ++ .collect env :: after →
      ∀ t out, run step s before = some t → t.1.collect env t.2 = some out →
      Discovers env t.1 out) ↔
    StepsMeet step RecognisesAt s ops := by
  refine collects_iff_stepsMeet (fun env s out hout => discovers_iff hout) (fun s op hop => ?_) h
  cases op with
  | collect env => exact absurd rfl (hop env)
  | _ => trivial

/-- A collector that waits for one name. -/
def waiting (name : Str) : FerretCollector × Int :=
  (FerretCollector.construct
    { clockTicks := 100, pid := "10".toList, cpus := [0], cpusInt := cpusInt_zero,
      processNames := [name], statusFd := 3 },
    -99)

/-- Process 42 runs under the name. -/
def runsAs (name : Str) : Proc :=
  { Proc.bare 1 with
    scan := fun _ => some [⟨"42".toList, ⟨5, false⟩, name ++ ['\x00']⟩]
    openFreq := fun _ => ⟨4, false⟩ }

/-- Process 42 is found by its name. -/
theorem discovers_app :
    (run step (waiting "app".toList)
      [.init (runsAs "app".toList), .start true, .collect (runsAs "app".toList)]).isSome ∧
    ((∀ before env after,
      [.init (runsAs "app".toList), .start true, .collect (runsAs "app".toList)] =
        before ++ Op.collect env :: after →
      ∀ t out, run step (waiting "app".toList) before = some t → t.1.collect env t.2 = some out →
      Discovers env t.1 out) ↔
    StepsMeet step RecognisesAt (waiting "app".toList)
      [.init (runsAs "app".toList), .start true, .collect (runsAs "app".toList)]) := by
  have hrun : (run step (waiting "app".toList)
      [.init (runsAs "app".toList), .start true, .collect (runsAs "app".toList)]).isSome := by
    decide
  exact ⟨hrun, discovers_iff_stepsMeet (waiting "app".toList)
    [.init (runsAs "app".toList), .start true, .collect (runsAs "app".toList)] hrun⟩

/-- A name that does not fit into the buffer. -/
def longName : Str := List.replicate 101 'a'

/-- Process 42 runs under a name of 101 characters and is not found by it. -/
theorem not_discovers_longName :
    ¬ ∀ before env after,
      [.init (runsAs longName), .start true, .collect (runsAs longName)] =
        before ++ Op.collect env :: after →
      ∀ t out, run step (waiting longName) before = some t → t.1.collect env t.2 = some out →
      Discovers env t.1 out := by
  intro hall
  have hrun : ((run step (waiting longName) [.init (runsAs longName), .start true]).map
      fun t => (t.1.mWatchList, (t.1.collect (runsAs longName) t.2).isSome)) =
      some ([longName], true) := by
    decide +kernel
  obtain ⟨t, ht, hstate⟩ := Option.map_eq_some_iff.mp hrun
  obtain ⟨hwatch, hsome⟩ := Prod.mk.inj hstate
  obtain ⟨out, hout⟩ := Option.isSome_iff_exists.mp hsome
  have hmet := (discovers_iff hout).mp
    (hall [.init (runsAs longName), .start true] (runsAs longName) [] rfl t out ht hout)
  rw [hwatch] at hmet
  refine not_recognised_of_long (by decide) (by decide) ?_ (hmet.1 _ rfl)
  exact ⟨_, List.mem_singleton.mpr rfl, by decide +kernel⟩

end LibCollector.Ferret
