import LibCollector.Interface.Sysfs
import LibCollector.Misc.FdTable
import LibCollector.Misc.Run

/-!
# The descriptor of a sysfs collector

`SysfsCollector` from its constructor to its destructor, with the descriptors that it has obtained
and not closed yet. The answers of `read`, `lseek` and `open` are inputs; `close` frees the
descriptor whatever it returns.
-/

namespace LibCollector.Interface

open LibCollector.Misc

/-- A collector with its options, the file that it reads, and its open descriptors. -/
structure SysfsFile where
  collector : SysfsCollector
  mOptions : List Str
  mSysfsFile : Str := []
  fds : FdTable := {}

/-- What goes wrong in a call of `collect`: the assertion fails, or a descriptor is used that is not
    open. -/
inductive SysfsFault
  | assertion
  | notOpen (fd : Int)
  deriving DecidableEq

namespace SysfsFile

/-- The constructor. -/
def construct (name : Str) (sysfsfiles : List Str) (factor : Option Float) : SysfsFile where
  collector := { mName := name, mFD := -2, mFactor := factor }
  mOptions := sysfsfiles

/-- `mFD` is assigned to. -/
def setFD (fd : Int) (s : SysfsFile) : SysfsFile :=
  { s with collector := { s.collector with mFD := fd } }

/-- The loop of `init` over the options, for what `open` returns for each. -/
def openOption (opened : Str → Int) : List Str → SysfsFile → SysfsFile
  | [], s => s
  | option :: options, s =>
    if opened option < 0 then openOption opened options (s.setFD (-1))
    else { s.setFD (opened option) with
      mSysfsFile := option
      fds := s.fds.give (opened option) }

/-- `SysfsCollector::init`. -/
def init (opened : Str → Int) (s : SysfsFile) : Bool × SysfsFile :=
  let s := if s.collector.mFD = -2 then openOption opened s.mOptions s else s
  (s.collector.mFD ≠ -1, s)

/-- The descriptors after a call of `collect`: one that `lseek` fails on is closed, and the file is
    opened again. -/
def fdsAfter (reply : SysfsReply) (s : SysfsFile) : FdTable :=
  if reply.read = none ∨ reply.seekOk = true then s.fds
  else if reply.reopened < 0 then s.fds.close s.collector.mFD
  else (s.fds.close s.collector.mFD).give reply.reopened

/-- `SysfsCollector::collect`. The calls of `read`, `lseek` and `close` are all made with the
    descriptor that `mFD` is at the beginning. -/
def collect (reply : SysfsReply) (s : SysfsFile) :
    Except SysfsFault (Bool × SysfsFile × List Added) :=
  match s.collector.collect reply with
  | none => .error .assertion
  | some (ok, c, adds) =>
    if s.collector.mFD ∈ s.fds.fds then
      .ok (ok, { s with collector := c, fds := s.fdsAfter reply }, adds)
    else .error (.notOpen s.collector.mFD)

/-- The destructor; `deinit()` does nothing here. -/
def destruct (s : SysfsFile) : SysfsFile :=
  { s.setFD (-1) with
    fds := if s.collector.mFD ≠ -1 then s.fds.close s.collector.mFD else s.fds }

/-- `collect()` can be called: whatever the answers are, nothing goes wrong in it. -/
def Callable (s : SysfsFile) : Prop := ∀ reply, ∃ r, s.collect reply = .ok r

/-- A call of `collect`, as a step. -/
def step (s : SysfsFile) (reply : SysfsReply) : Option SysfsFile :=
  (s.collect reply).toOption.map fun r => r.2.1

/-- Nothing goes wrong in a run of `collect()` calls, and one that returns false leaves a collector
    that can be called again. -/
def NeverAborts : SysfsFile → List SysfsReply → Prop :=
  StepsMeet step fun s reply =>
    ∃ r, s.collect reply = .ok r ∧ (r.1 = false → r.2.1.Callable)

/-- The answers do not take the file away: `lseek` has not failed together with the `open` behind
    it. -/
def KeepsFile (reply : SysfsReply) : Prop :=
  reply.read = none ∨ reply.seekOk = true ∨ 0 ≤ reply.reopened

instance (reply : SysfsReply) : Decidable (KeepsFile reply) := inferInstanceAs (Decidable (_ ∨ _))

/-! ## The open file -/

/-- `mFD` is the only descriptor of the collector, and it is open. -/
structure Opened (s : SysfsFile) : Prop where
  nonneg : 0 ≤ s.collector.mFD
  fds : s.fds = { fds := [s.collector.mFD] }

/-- The file has been lost: there is no descriptor. -/
structure Lost (s : SysfsFile) : Prop where
  mFD : s.collector.mFD = -1
  fds : s.fds = {}

theorem mFD_collect {reply : SysfsReply} {c : SysfsCollector} (hfd : c.mFD ≠ -1) :
    ∃ r, c.collect reply = some r ∧ r.2.1.mFD =
      (if reply.read = none ∨ reply.seekOk = true then c.mFD
        else if reply.reopened < 0 then -1 else reply.reopened) ∧
      (¬ KeepsFile reply → r.1 = false) := by
  rw [SysfsCollector.collect, if_neg hfd]
  cases hread : reply.read with
  | none => exact ⟨_, rfl, by simp, fun h => absurd (Or.inl hread) h⟩
  | some data =>
    dsimp only
    cases hseek : reply.seekOk with
    | true =>
      simp only [Bool.true_eq_false, false_and, if_false, if_true, or_true]
      cases c.parse (cstr (data.take 1023)) with
      | none => exact ⟨_, rfl, rfl, fun _ => rfl⟩
      | some adds => exact ⟨_, rfl, rfl, fun h => absurd (Or.inr (Or.inl hseek)) h⟩
    | false =>
      by_cases hopen : reply.reopened < 0
      · simp [hopen]
      · have hkeeps : KeepsFile reply := Or.inr (Or.inr (Int.not_lt.mp hopen))
        simp only [hopen, and_false, if_false, Bool.false_eq_true, or_self, reduceCtorEq]
        cases SysfsCollector.parse _ _ with
        | none => exact ⟨_, rfl, rfl, fun _ => rfl⟩
        | some adds => exact ⟨_, rfl, rfl, fun h => absurd hkeeps h⟩

/-- A call goes well. The file stays open if the answers do not take it away; if they do, the call
    returns false and the next one fails its assertion. -/
theorem Opened.collect {s : SysfsFile} (h : s.Opened) (reply : SysfsReply) :
    ∃ r, s.collect reply = .ok r ∧ (KeepsFile reply → r.2.1.Opened) ∧
      (¬ KeepsFile reply → r.1 = false ∧ r.2.1.Lost) := by
  have hfd : s.collector.mFD ≠ -1 := by
    have hnonneg := h.nonneg
    omega
  obtain ⟨r, hr, hmFD, hfalse⟩ := @mFD_collect reply s.collector hfd
  have hmem : s.collector.mFD ∈ s.fds.fds := by
    rw [h.fds]
    exact List.mem_cons_self
  have hclose : s.fds.close s.collector.mFD = {} := by
    rw [h.fds, FdTable.close, if_pos List.mem_cons_self, List.erase_cons_head]
  refine ⟨(r.1, { s with collector := r.2.1, fds := s.fdsAfter reply }, r.2.2), ?_, ?_, ?_⟩
  · rw [SysfsFile.collect, hr]
    exact if_pos hmem
  · intro hkeeps
    by_cases hold : reply.read = none ∨ reply.seekOk = true
    · rw [if_pos hold] at hmFD
      refine ⟨hmFD ▸ h.nonneg, ?_⟩
      show s.fdsAfter reply = { fds := [r.2.1.mFD] }
      rw [fdsAfter, if_pos hold, hmFD, h.fds]
    · have hopen : ¬ reply.reopened < 0 := by
        rcases hkeeps with hread | hseek | hopen
        · exact absurd (Or.inl hread) hold
        · exact absurd (Or.inr hseek) hold
        · exact Int.not_lt.mpr hopen
      rw [if_neg hold, if_neg hopen] at hmFD
      refine ⟨hmFD ▸ Int.not_lt.mp hopen, ?_⟩
      show s.fdsAfter reply = { fds := [r.2.1.mFD] }
      rw [fdsAfter, if_neg hold, if_neg hopen, hclose, hmFD]
      rfl
  · intro hgone
    obtain ⟨hread, hseek, hopen⟩ := not_or.mp hgone |>.imp_right not_or.mp
    have hlost : ¬ (reply.read = none ∨ reply.seekOk = true) := not_or.mpr ⟨hread, hseek⟩
    rw [if_neg hlost, if_pos (Int.not_le.mp hopen)] at hmFD
    refine ⟨hfalse hgone, hmFD, ?_⟩
    show s.fdsAfter reply = {}
    rw [fdsAfter, if_neg hlost, if_pos (Int.not_le.mp hopen), hclose]

theorem Opened.callable {s : SysfsFile} (h : s.Opened) : s.Callable := by
  intro reply
  obtain ⟨r, hr, -⟩ := h.collect reply
  exact ⟨r, hr⟩

/-- Without a descriptor the assertion fails. -/
theorem Lost.collect {s : SysfsFile} (h : s.Lost) (reply : SysfsReply) :
    s.collect reply = .error .assertion := by
  rw [SysfsFile.collect, SysfsCollector.collect, if_pos h.mFD]

theorem Lost.not_callable {s : SysfsFile} (h : s.Lost) : ¬ s.Callable := by
  intro hcall
  obtain ⟨r, hr⟩ := hcall ⟨none, true, -1⟩
  rw [h.collect] at hr
  cases hr

/-- From an open file, nothing goes wrong exactly if the file is never taken away. -/
theorem Opened.neverAborts_iff {s : SysfsFile} (h : s.Opened) (replies : List SysfsReply) :
    s.NeverAborts replies ↔ ∀ reply ∈ replies, KeepsFile reply := by
  induction replies generalizing s with
  | nil => exact iff_of_true trivial fun reply hreply => absurd hreply List.not_mem_nil
  | cons reply replies ih =>
    obtain ⟨r, hr, hkeeps, hgone⟩ := h.collect reply
    have hstep : s.step reply = some r.2.1 := by
      rw [step, hr]
      rfl
    rw [List.forall_mem_cons]
    by_cases hkept : KeepsFile reply
    · refine ⟨fun hrun => ⟨hkept, (ih (hkeeps hkept)).mp (hrun.2 _ hstep)⟩, fun hall => ?_⟩
      refine ⟨⟨r, hr, fun _ => (hkeeps hkept).callable⟩, fun t ht => ?_⟩
      obtain rfl := Option.some.inj (hstep.symm.trans ht)
      exact (ih (hkeeps hkept)).mpr hall.2
    · obtain ⟨hfalse, hlost⟩ := hgone hkept
      refine iff_of_false (fun hrun => ?_) fun hall => hkept hall.1
      obtain ⟨r', hr', hcall⟩ := hrun.1
      obtain rfl := Except.ok.inj (hr.symm.trans hr')
      exact hlost.not_callable (hcall hfalse)

/-- The file is open when `init()` returns true, or there was no option to open. -/
theorem opened_openOption {opened : Str → Int} {options : List Str} {s : SysfsFile}
    (hfds : s.fds = {}) (h : (openOption opened options s).collector.mFD ≠ -1) :
    openOption opened options s = s ∨
      (openOption opened options s).Opened ∧
        (openOption opened options s).mSysfsFile ∈ options := by
  induction options generalizing s with
  | nil => exact Or.inl rfl
  | cons option options ih =>
    rw [openOption] at h ⊢
    split_ifs at h ⊢ with hopen
    · obtain ⟨hopened, hmem⟩ := (@ih (s.setFD (-1)) hfds h).resolve_left fun hsame => by
        rw [hsame] at h
        exact h rfl
      exact Or.inr ⟨hopened, List.mem_cons_of_mem _ hmem⟩
    · refine Or.inr ⟨⟨Int.not_lt.mp hopen, ?_⟩, List.mem_cons_self⟩
      show s.fds.give (opened option) = { fds := [opened option] }
      rw [hfds]
      rfl

/-- The loop assigns to `mFD` if there is an option. -/
theorem mFD_openOption_ne {opened : Str → Int} {options : List Str} {s : SysfsFile}
    (h : options = [] → s.collector.mFD ≠ -2) :
    (openOption opened options s).collector.mFD ≠ -2 := by
  induction options generalizing s with
  | nil => exact h rfl
  | cons option options ih =>
    rw [openOption]
    split_ifs with hopen
    · refine ih fun _ => ?_
      show (-1 : Int) ≠ -2
      decide
    · show opened option ≠ -2
      omega

theorem opened_init {opened : Str → Int} {name : Str} {option : Str} {options : List Str}
    {factor : Option Float}
    (h : ((construct name (option :: options) factor).init opened).1 = true) :
    ((construct name (option :: options) factor).init opened).2.Opened ∧
      ((construct name (option :: options) factor).init opened).2.mSysfsFile ∈
        option :: options := by
  have hmFD : (openOption opened (option :: options)
      (construct name (option :: options) factor)).collector.mFD ≠ -1 := of_decide_eq_true h
  refine (opened_openOption rfl hmFD).resolve_left fun hsame => ?_
  have hassigned := @mFD_openOption_ne opened (option :: options)
    (construct name (option :: options) factor) fun hnil => absurd hnil (List.cons_ne_nil _ _)
  rw [hsame] at hassigned
  exact hassigned rfl

/-- A later `init()`, such as that of `available()`, changes nothing. -/
theorem init_init (opened opened' : Str → Int) (name : Str) (options : List Str)
    (factor : Option Float) :
    ((construct name options factor).init opened).2.init opened' =
      (construct name options factor).init opened := by
  cases options with
  | nil => rfl
  | cons option options =>
    have hassigned := @mFD_openOption_ne opened (option :: options)
      (construct name (option :: options) factor) fun hnil => absurd hnil (List.cons_ne_nil _ _)
    have hinit : ((construct name (option :: options) factor).init opened).2 =
        openOption opened (option :: options) (construct name (option :: options) factor) := rfl
    rw [hinit, init, if_neg hassigned]
    rfl

/-- Without an option, `init()` returns true and leaves `mFD` as the constructor has set it. -/
theorem not_collect_of_noOption {opened : Str → Int} {name : Str} {factor : Option Float}
    {reply : SysfsReply} {r : Bool × SysfsFile × List Added} :
    ((construct name [] factor).init opened).2.collect reply ≠ .ok r := by
  intro hr
  have hinit : ((construct name [] factor).init opened).2 = construct name [] factor := rfl
  rw [hinit, collect] at hr
  cases hc : (construct name [] factor).collector.collect reply with
  | none =>
    rw [hc] at hr
    cases hr
  | some t =>
    rw [hc] at hr
    have hclosed : (construct name [] factor).collector.mFD ∉ (construct name [] factor).fds.fds :=
      List.not_mem_nil
    dsimp only at hr
    rw [if_neg hclosed] at hr
    cases hr

/-- In a run of `collect()` calls after an `init()` that has returned true, the assertion never
    fails, only open descriptors are used and a call that returns false can be followed by another
    one, exactly if there is an option to open and no call loses the file. -/
theorem neverAborts_init_iff {opened : Str → Int} {name : Str} {options : List Str}
    {factor : Option Float} (h : ((construct name options factor).init opened).1 = true)
    (replies : List SysfsReply) :
    ((construct name options factor).init opened).2.NeverAborts replies ↔
      replies = [] ∨ options ≠ [] ∧ ∀ reply ∈ replies, KeepsFile reply := by
  cases replies with
  | nil => exact iff_of_true trivial (Or.inl rfl)
  | cons reply replies =>
    rw [or_iff_right (List.cons_ne_nil _ _)]
    cases options with
    | nil =>
      refine iff_of_false (fun hrun => ?_) fun hne => hne.1 rfl
      obtain ⟨r, hr, -⟩ := hrun.1
      exact not_collect_of_noOption hr
    | cons option options =>
      rw [(opened_init h).1.neverAborts_iff, and_iff_right (List.cons_ne_nil _ _)]

/-- A collector of one file, which `open` has given the descriptor 3. -/
def battery : SysfsFile :=
  ((construct "battery_temperature".toList ["/sys/class/power_supply/battery/temp".toList]
    none).init fun _ => 3).2

/-- A call that can neither seek nor open the file again does not leave a collector that can be
    called, and a collector without options cannot be called after an `init()` that returns true. -/
theorem not_neverAborts : ¬ battery.NeverAborts [⟨some "312\n".toList, false, -1⟩] ∧
    ¬ ((construct [] [] none).init fun _ => -1).2.NeverAborts [⟨none, true, -1⟩] := by
  refine ⟨fun hrun => ?_, fun hrun => ?_⟩
  · have hopened : battery.Opened := (opened_init rfl).1
    have hkeeps := (hopened.neverAborts_iff _).mp hrun _ List.mem_cons_self
    exact absurd hkeeps (by decide)
  · obtain ⟨r, hr, -⟩ := hrun.1
    exact not_collect_of_noOption hr

theorem battery_neverAborts_iff : battery.NeverAborts [⟨some "312\n".toList, true, -1⟩] ↔
    [(⟨some "312\n".toList, true, -1⟩ : SysfsReply)] = [] ∨
      ["/sys/class/power_supply/battery/temp".toList] ≠ [] ∧
        ∀ reply ∈ [(⟨some "312\n".toList, true, -1⟩ : SysfsReply)], KeepsFile reply :=
  neverAborts_init_iff rfl _

/-! ## The end -/

/-- The destructor leaves no descriptor open and closes none that is not, after any run of calls in
    which nothing has gone wrong. -/
theorem fds_destruct {s u : SysfsFile} (h : s.Opened) {replies : List SysfsReply}
    (hrun : run step s replies = some u) : u.destruct.fds = {} := by
  have hstep : ∀ (s : SysfsFile) (reply : SysfsReply) (t : SysfsFile), s.Opened ∨ s.Lost →
      s.step reply = some t → t.Opened ∨ t.Lost := by
    intro s reply t hs ht
    rcases hs with hs | hs
    · obtain ⟨r, hr, hkeeps, hgone⟩ := hs.collect reply
      have htr : r.2.1 = t := by
        rw [step, hr] at ht
        exact Option.some.inj ht
      subst htr
      by_cases hkept : KeepsFile reply
      · exact Or.inl (hkeeps hkept)
      · exact Or.inr (hgone hkept).2
    · rw [step, hs.collect] at ht
      cases ht
  rcases run_invariant hstep (Or.inl h) hrun with hu | hu
  · rw [destruct, if_pos (by have := hu.nonneg; omega), hu.fds]
    simp [FdTable.close]
  · rw [destruct, if_neg (not_not.mpr hu.mFD), hu.fds]

end SysfsFile

end LibCollector.Interface
