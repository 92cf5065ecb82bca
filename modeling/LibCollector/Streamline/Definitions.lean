import Mathlib.Data.List.Basic
import Mathlib.Logic.Function.Basic
import Mathlib.Tactic.Common

/-!
# The definitions that are sent again

Counters, CAM tracks and CAM views are kept in three lists, and `resend_state` asks the next thread
in `gator_get_thread` to write all of them to its buffer: the sender stores it when it begins to
capture. The steps of the threads and of the sender may come in any order. In each period of
capturing that the process has begun itself, every definition of the lists is written, by the
thread that has put it there or by one that has taken `resend_state` (`DefState.announced_run`).
The child of a fork inherits a period, in which they are not (`DefState.inherited_run`).
-/

namespace LibCollector.Streamline

/-! ## The lists, the threads and the sender -/

/-- The lists of `gator_state`, in the order in which they are sent again. -/
inductive DefKind where
  | counters
  | camTracks
  | camNames
  deriving DecidableEq

/-- The list behind one. -/
def DefKind.next : DefKind → Option DefKind
  | .counters => some .camTracks
  | .camTracks => some .camNames
  | .camNames => none

/-- Where a thread is. `own` is the definition that the call is about: there is none in a call such
    as `gator_annotate_str`. -/
inductive CallState (δ : Type*) where
  /-- Not in a call. -/
  | idle
  /-- In front of the load of the loop that puts a new definition into its list. -/
  | load (kind : DefKind) (d : δ)
  /-- In front of the compare-and-swap of that loop. -/
  | swap (kind : DefKind) (d : δ) (next : Option δ)
  /-- At the beginning of `gator_get_thread`. -/
  | enter (own : Option δ)
  /-- At the label `success`. -/
  | success (own : Option δ)
  /-- In front of a loop over a list. -/
  | head (kind : DefKind) (own : Option δ)
  /-- In such a loop, with the rest of the list. -/
  | walk (kind : DefKind) (rest : List δ) (own : Option δ)
  /-- `gator_get_thread` has returned. -/
  | write (own : Option δ)
  deriving DecidableEq

/-- The shared state, and a history: the number of the period of capturing, whether it was
    inherited in a fork, and which definitions have been written to a buffer, or got no thread in
    their own call, in which period. -/
structure DefState (τ δ : Type*) where
  lists : DefKind → List δ
  capturing : Bool
  resendState : Bool
  /-- The stores to `resend_state` that the sender has yet to make. -/
  stores : Nat
  call : τ → CallState δ
  period : Nat
  inherited : Bool
  written : List (δ × Nat)
  failed : List (δ × Nat)

/-- A step of a thread or of the sender. -/
inductive DefAction (τ δ : Type*) where
  /-- A call with a new definition. -/
  | register (t : τ) (kind : DefKind) (d : δ)
  /-- Another annotation. -/
  | annotate (t : τ)
  /-- A step of a thread in its call. `ok` is whether the calls of `gator_get_thread` succeed. -/
  | thread (t : τ) (ok : Bool)
  /-- The sender has connected and calls `gator_start_capturing`. -/
  | connect
  /-- The sender has read a byte and does so. -/
  | command
  /-- A store to `resend_state`. -/
  | store
  /-- `gator_stop_capturing`. -/
  | stop
  /-- A thread forks, and what follows is the child. -/
  | fork (t : τ)
  deriving DecidableEq

namespace DefState

variable {τ δ : Type*}

/-- The state after `gator_annotate_setup`. Definitions that are put into the lists before that
    call, while no thread can get a buffer yet, are left out. -/
def setup : DefState τ δ where
  lists _ := []
  capturing := true
  resendState := false
  stores := 0
  call _ := .idle
  period := 0
  inherited := false
  written := []
  failed := []

/-- `gator_annotate_write_counter` and the like: a definition that is too large is not written. -/
def writeDef (large : δ → Bool) (s : DefState τ δ) (d : δ) : DefState τ δ :=
  if large d then s else { s with written := s.written ++ [(d, s.period)] }

section step

variable [DecidableEq τ] [DecidableEq δ]

def goTo (s : DefState τ δ) (t : τ) (call : CallState δ) : DefState τ δ :=
  { s with call := Function.update s.call t call }

/-- A step of a thread. -/
def threadStep (large : δ → Bool) (t : τ) (ok : Bool) (s : DefState τ δ) : DefState τ δ :=
  match s.call t with
  | .idle => s
  | .load kind d => s.goTo t (.swap kind d (s.lists kind).head?)
  | .swap kind d next =>
    if (s.lists kind).head? = next then
      { s with lists := Function.update s.lists kind (d :: s.lists kind) }.goTo t (.enter (some d))
    else s.goTo t (.load kind d)
  | .enter own =>
    if s.capturing then
      if ok then s.goTo t (.success own)
      else { s with failed := s.failed ++ own.toList.map (·, s.period) }.goTo t .idle
    else s.goTo t .idle
  | .success own =>
    if s.resendState then { s with resendState := false }.goTo t (.head .counters own)
    else s.goTo t (.write own)
  | .head kind own => s.goTo t (.walk kind (s.lists kind) own)
  | .walk kind [] own =>
    match kind.next with
    | some next => s.goTo t (.head next own)
    | none => s.goTo t (.write own)
  | .walk kind (d :: rest) own => (s.writeDef large d).goTo t (.walk kind rest own)
  | .write none => s.goTo t .idle
  | .write (some d) => (s.writeDef large d).goTo t .idle

/-- One step. A thread that is in a call begins no other, and the sender does nothing else before
    its stores. -/
def step (large : δ → Bool) (s : DefState τ δ) : DefAction τ δ → DefState τ δ
  | .register t kind d => if s.call t = .idle then s.goTo t (.load kind d) else s
  | .annotate t => if s.call t = .idle then s.goTo t (.enter none) else s
  | .thread t ok => s.threadStep large t ok
  | .connect =>
    if s.stores = 0 ∧ s.capturing = false then
      { s with capturing := true, stores := 1, period := s.period + 1, inherited := false }
    else s
  | .command =>
    if s.stores = 0 ∧ s.capturing = false then
      { s with capturing := true, stores := 2, period := s.period + 1, inherited := false }
    else s
  | .store => if s.stores = 0 then s else { s with resendState := true, stores := s.stores - 1 }
  | .stop => if s.stores = 0 then { s with capturing := false } else s
  | .fork t =>
    if s.call t = .idle then
      { s with call := fun _ => .idle, stores := 0, period := s.period + 1, inherited := true }
    else s

end step

/-! ## What the threads have yet to write -/

/-- The lists that follow one in the order of `gator_get_thread`. -/
def laterKinds : DefKind → List DefKind
  | .counters => [.camTracks, .camNames]
  | .camTracks => [.camNames]
  | .camNames => []

/-- The thread will write a definition of the list: as the one of its call, or as one of those that
    it sends again. -/
def Covers (kind : DefKind) (d : δ) : CallState δ → Prop
  | .enter own => own = some d
  | .success own => own = some d
  | .head kind' own => own = some d ∨ kind = kind' ∨ kind ∈ laterKinds kind'
  | .walk kind' rest own => own = some d ∨ kind = kind' ∧ d ∈ rest ∨ kind ∈ laterKinds kind'
  | .write own => own = some d
  | _ => False

/-- A definition of the lists has been written in this period, or a thread has yet to write it. -/
def Announced (large : δ → Bool) (s : DefState τ δ) (kind : DefKind) (d : δ) : Prop :=
  (d, s.period) ∈ s.written ∨ large d = true ∨ (d, s.period) ∈ s.failed ∨
    ∃ t, Covers kind d (s.call t)

/-- Nobody has to send the definitions again. -/
structure Settled (s : DefState τ δ) : Prop where
  capturing : s.capturing = true
  stores : s.stores = 0
  resendState : s.resendState = false
  inherited : s.inherited = false

/-- In a period that the process has begun, each definition is announced or will be sent again. -/
def Inv (large : δ → Bool) (s : DefState τ δ) : Prop :=
  s.Settled → ∀ kind, ∀ d ∈ s.lists kind, s.Announced large kind d

/-! ## A step -/

section step

variable {s s' : DefState τ δ} {large : δ → Bool} {t : τ} {kind : DefKind} {d : δ}

theorem mem_writeDef (h : large d = false) : (d, s.period) ∈ (s.writeDef large d).written := by
  simp [writeDef, h]

theorem written_writeDef : s.written ⊆ (s.writeDef large d).written := by
  intro e he
  rw [writeDef]
  split_ifs
  · exact he
  · exact List.mem_append_left _ he

@[simp] theorem writeDef_lists : (s.writeDef large d).lists = s.lists := by
  rw [writeDef]
  split_ifs <;> rfl

@[simp] theorem writeDef_call : (s.writeDef large d).call = s.call := by
  rw [writeDef]
  split_ifs <;> rfl

@[simp] theorem writeDef_period : (s.writeDef large d).period = s.period := by
  rw [writeDef]
  split_ifs <;> rfl

@[simp] theorem writeDef_failed : (s.writeDef large d).failed = s.failed := by
  rw [writeDef]
  split_ifs <;> rfl

@[simp] theorem settled_writeDef : (s.writeDef large d).Settled ↔ s.Settled := by
  rw [writeDef]
  split_ifs
  · exact Iff.rfl
  · exact ⟨fun h => ⟨h.1, h.2, h.3, h.4⟩, fun h => ⟨h.1, h.2, h.3, h.4⟩⟩

/-- What one thread has to do for the definitions that it had in its hands. -/
structure HandsOver (large : δ → Bool) (t : τ) (s s' : DefState τ δ) : Prop where
  settled : s'.Settled → s.Settled
  period : s'.period = s.period
  lists : s'.lists = s.lists
  written : s.written ⊆ s'.written
  failed : s.failed ⊆ s'.failed
  others : ∀ u, u ≠ t → s'.call u = s.call u
  covered : ∀ kind, ∀ d ∈ s.lists kind, Covers kind d (s.call t) →
    (d, s.period) ∈ s'.written ∨ large d = true ∨ (d, s.period) ∈ s'.failed ∨
      Covers kind d (s'.call t)

theorem Inv.handsOver (h : s.Inv large) (hstep : HandsOver large t s s') : s'.Inv large := by
  intro hsettled kind d hd
  rw [hstep.lists] at hd
  rw [Announced, hstep.period]
  rcases h (hstep.settled hsettled) kind d hd with hwritten | hlarge | hfailed | ⟨u, hu⟩
  · exact Or.inl (hstep.written hwritten)
  · exact Or.inr (Or.inl hlarge)
  · exact Or.inr (Or.inr (Or.inl (hstep.failed hfailed)))
  · by_cases hut : u = t
    · subst hut
      rcases hstep.covered kind d hd hu with hwritten | hlarge | hfailed | hcovers
      · exact Or.inl hwritten
      · exact Or.inr (Or.inl hlarge)
      · exact Or.inr (Or.inr (Or.inl hfailed))
      · exact Or.inr (Or.inr (Or.inr ⟨u, hcovers⟩))
    · rw [← hstep.others u hut] at hu
      exact Or.inr (Or.inr (Or.inr ⟨u, hu⟩))

variable [DecidableEq τ]

@[simp] theorem goTo_call (s : DefState τ δ) (t : τ) (call : CallState δ) :
    (s.goTo t call).call t = call := Function.update_self ..

theorem goTo_call_of_ne {u : τ} (h : u ≠ t) (s : DefState τ δ) (call : CallState δ) :
    (s.goTo t call).call u = s.call u := Function.update_of_ne h ..

/-- A thread goes on, and keeps what it has in its hands. -/
theorem HandsOver.goTo {call : CallState δ}
    (h : ∀ kind, ∀ d ∈ s.lists kind, Covers kind d (s.call t) → Covers kind d call) :
    HandsOver large t s (s.goTo t call) where
  settled hs := ⟨hs.1, hs.2, hs.3, hs.4⟩
  period := rfl
  lists := rfl
  written := List.Subset.refl _
  failed := List.Subset.refl _
  others _ hu := goTo_call_of_ne hu _ _
  covered kind d hd hcovers := by
    rw [goTo_call]
    exact Or.inr (Or.inr (Or.inr (h kind d hd hcovers)))

/-- A thread writes a definition and goes on. -/
theorem HandsOver.writeDef {call : CallState δ} {d : δ}
    (h : ∀ kind e, Covers kind e (s.call t) → e = d ∨ Covers kind e call) :
    HandsOver large t s ((s.writeDef large d).goTo t call) where
  settled hs := settled_writeDef.mp ⟨hs.1, hs.2, hs.3, hs.4⟩
  period := writeDef_period
  lists := writeDef_lists
  written := written_writeDef
  failed := by
    rw [DefState.goTo, writeDef_failed]
    exact List.Subset.refl _
  others u hu := by rw [goTo_call_of_ne hu, writeDef_call]
  covered kind e he hcovers := by
    rcases h kind e hcovers with rfl | hcovers
    · cases hlarge : large e with
      | true => exact Or.inr (Or.inl rfl)
      | false => exact Or.inl (mem_writeDef hlarge)
    · rw [goTo_call]
      exact Or.inr (Or.inr (Or.inr hcovers))

/-- A definition is put into its list by a thread that goes on to write it. -/
theorem Inv.push (h : s.Inv large) (hcall : ∀ kind e, ¬ Covers kind e (s.call t)) :
    ({ s with lists := Function.update s.lists kind (d :: s.lists kind) }.goTo t
      (.enter (some d))).Inv large := by
  intro hsettled kind' e he
  have hold : e ∈ s.lists kind' → Announced large ({ s with
      lists := Function.update s.lists kind (d :: s.lists kind) }.goTo t (.enter (some d)))
      kind' e := by
    intro he
    have hsettled' : s.Settled := ⟨hsettled.1, hsettled.2, hsettled.3, hsettled.4⟩
    rcases h hsettled' kind' e he with hwritten | hlarge | hfailed | ⟨u, hu⟩
    · exact Or.inl hwritten
    · exact Or.inr (Or.inl hlarge)
    · exact Or.inr (Or.inr (Or.inl hfailed))
    · have hut : u ≠ t := by
        rintro rfl
        exact hcall kind' e hu
      refine Or.inr (Or.inr (Or.inr ⟨u, ?_⟩))
      rw [goTo_call_of_ne hut]
      exact hu
  by_cases hkind : kind' = kind
  · subst hkind
    have hlist : (Function.update s.lists kind' (d :: s.lists kind')) kind' =
        d :: s.lists kind' := Function.update_self ..
    have hmem : e ∈ d :: s.lists kind' := hlist ▸ he
    rcases List.mem_cons.mp hmem with rfl | hmem
    · refine Or.inr (Or.inr (Or.inr ⟨t, ?_⟩))
      rw [goTo_call]
      rfl
    · exact hold hmem
  · have hlist : (Function.update s.lists kind (d :: s.lists kind)) kind' = s.lists kind' :=
      Function.update_of_ne hkind ..
    exact hold (hlist ▸ he)

/-- A thread that has taken `resend_state` will write every definition. -/
theorem Inv.take (s : DefState τ δ) (t : τ) (own : Option δ) :
    ({ s with resendState := false }.goTo t (.head .counters own)).Inv large := by
  intro _ kind e _
  refine Or.inr (Or.inr (Or.inr ⟨t, ?_⟩))
  rw [goTo_call]
  cases kind with
  | counters => exact Or.inr (Or.inl rfl)
  | camTracks => exact Or.inr (Or.inr (by simp [laterKinds]))
  | camNames => exact Or.inr (Or.inr (by simp [laterKinds]))

theorem laterKinds_next {next : DefKind} (h : kind.next = some next) :
    laterKinds kind = next :: laterKinds next := by
  cases kind with
  | counters => cases h; rfl
  | camTracks => cases h; rfl
  | camNames => cases h

theorem laterKinds_last (h : kind.next = none) : laterKinds kind = [] := by
  cases kind with
  | counters => cases h
  | camTracks => cases h
  | camNames => rfl

/-- A thread comes to the end of a list. -/
theorem Inv.leave (h : s.Inv large) {own : Option δ} (hcall : s.call t = .walk kind [] own) :
    (match kind.next with
      | some next => s.goTo t (.head next own)
      | none => s.goTo t (.write own)).Inv large := by
  cases hnext : kind.next with
  | some next =>
    refine h.handsOver (.goTo fun kind' e _ hcovers => ?_)
    rw [hcall] at hcovers
    rcases hcovers with hown | ⟨-, hrest⟩ | hlater
    · exact Or.inl hown
    · cases hrest
    · rw [laterKinds_next hnext] at hlater
      exact Or.inr (List.mem_cons.mp hlater)
  | none =>
    refine h.handsOver (.goTo fun kind' e _ hcovers => ?_)
    rw [hcall] at hcovers
    rcases hcovers with hown | ⟨-, hrest⟩ | hlater
    · exact hown
    · cases hrest
    · rw [laterKinds_last hnext] at hlater
      cases hlater

/-- A thread begins a call. -/
theorem Inv.begin (h : s.Inv large) {call : CallState δ} (hidle : s.call t = .idle) :
    (s.goTo t call).Inv large := by
  refine h.handsOver (.goTo fun kind' e _ hcovers => ?_)
  rw [hidle] at hcovers
  exact absurd hcovers id

variable [DecidableEq δ]

theorem Inv.threadStep (h : s.Inv large) (t : τ) (ok : Bool) :
    (s.threadStep large t ok).Inv large := by
  rw [DefState.threadStep]
  cases hcall : s.call t with
  | idle => exact h
  | load kind d =>
    refine h.handsOver (.goTo fun kind' e _ hcovers => ?_)
    rw [hcall] at hcovers
    exact absurd hcovers id
  | swap kind d next =>
    have hnone : ∀ kind' e, ¬ Covers kind' e (s.call t) := by
      intro kind' e hcovers
      rw [hcall] at hcovers
      exact hcovers
    dsimp only
    split_ifs
    · exact h.push hnone
    · exact h.handsOver (.goTo fun kind' e _ hcovers => absurd hcovers (hnone kind' e))
  | enter own =>
    dsimp only
    split_ifs with hcapturing
    · refine h.handsOver (.goTo fun kind' e _ hcovers => ?_)
      rw [hcall] at hcovers
      exact hcovers
    · -- The call gets no thread, and its own definition is not written.
      refine @Inv.handsOver _ _ s _ large t h ⟨fun hs => ⟨hs.1, hs.2, hs.3, hs.4⟩, rfl, rfl,
        List.Subset.refl _, List.subset_append_left _ _, fun u hu => goTo_call_of_ne hu _ _, ?_⟩
      intro kind' e _ hcovers
      rw [hcall] at hcovers
      refine Or.inr (Or.inr (Or.inl (List.mem_append_right _ ?_)))
      rw [show own = some e from hcovers]
      simp
    · exact fun hsettled => absurd hsettled.capturing hcapturing
  | success own =>
    dsimp only
    split_ifs
    · exact .take s t own
    · refine h.handsOver (.goTo fun kind' e _ hcovers => ?_)
      rw [hcall] at hcovers
      exact hcovers
  | head kind own =>
    refine h.handsOver (.goTo fun kind' e he hcovers => ?_)
    rw [hcall] at hcovers
    rcases hcovers with hown | rfl | hlater
    · exact Or.inl hown
    · exact Or.inr (Or.inl ⟨rfl, he⟩)
    · exact Or.inr (Or.inr hlater)
  | walk kind rest own =>
    cases rest with
    | nil => exact h.leave hcall
    | cons d rest =>
      refine h.handsOver (.writeDef fun kind' e hcovers => ?_)
      rw [hcall] at hcovers
      rcases hcovers with hown | ⟨rfl, he⟩ | hlater
      · exact Or.inr (Or.inl hown)
      · rcases List.mem_cons.mp he with rfl | he
        · exact Or.inl rfl
        · exact Or.inr (Or.inr (Or.inl ⟨rfl, he⟩))
      · exact Or.inr (Or.inr (Or.inr hlater))
  | write own =>
    cases own with
    | none =>
      refine h.handsOver (.goTo fun kind' e _ hcovers => ?_)
      rw [hcall] at hcovers
      cases hcovers
    | some d =>
      refine h.handsOver (.writeDef fun kind' e hcovers => ?_)
      rw [hcall] at hcovers
      exact Or.inl (Option.some.inj hcovers).symm

theorem Inv.step (h : s.Inv large) (action : DefAction τ δ) : (s.step large action).Inv large := by
  cases action with
  | register t kind d =>
    rw [DefState.step]
    split_ifs with hidle
    · exact h.begin hidle
    · exact h
  | annotate t =>
    rw [DefState.step]
    split_ifs with hidle
    · exact h.begin hidle
    · exact h
  | thread t ok => exact h.threadStep t ok
  | connect =>
    rw [DefState.step]
    split_ifs
    · exact fun hsettled => absurd hsettled.stores (by simp)
    · exact h
  | command =>
    rw [DefState.step]
    split_ifs
    · exact fun hsettled => absurd hsettled.stores (by simp)
    · exact h
  | store =>
    rw [DefState.step]
    split_ifs
    · exact h
    · exact fun hsettled => absurd hsettled.resendState (by simp)
  | stop =>
    rw [DefState.step]
    split_ifs
    · exact fun hsettled => absurd hsettled.capturing (by simp)
    · exact h
  | fork t =>
    rw [DefState.step]
    split_ifs
    · exact fun hsettled => absurd hsettled.inherited (by simp)
    · exact h

end step

/-! ## Runs -/

section runs

variable [DecidableEq τ] [DecidableEq δ] {s : DefState τ δ} {large : δ → Bool}

theorem Inv.run (h : s.Inv large) (actions : List (DefAction τ δ)) :
    (actions.foldl (DefState.step large) s).Inv large := by
  induction actions generalizing s with
  | nil => exact h
  | cons action actions ih => exact ih (h.step action)

/-- Whatever the threads and the sender do, in any order: while the process captures, in a period
    that it has begun itself, and `resend_state` is not to be taken, every definition of the three
    lists has been written to a buffer in this period, or a thread in a call has yet to do so; but
    for those that are too large, and those whose own call got no thread in this period. -/
theorem announced_run (large : δ → Bool) (actions : List (DefAction τ δ))
    (hsettled : (actions.foldl (step large) (setup : DefState τ δ)).Settled) (kind : DefKind) :
    ∀ d ∈ (actions.foldl (step large) (setup : DefState τ δ)).lists kind,
      (actions.foldl (step large) (setup : DefState τ δ)).Announced large kind d := by
  have hsetup : (setup : DefState τ δ).Inv large := fun _ _ _ hd => absurd hd List.not_mem_nil
  exact hsetup.run actions hsettled kind

/-- A counter that is registered while the sender stops and connects again, and sent again by
    another thread. -/
def stopAndConnect : List (DefAction Bool Nat) :=
  [.register true .counters 7, .thread true true, .thread true true, .stop, .thread true true,
    .connect, .store, .annotate false, .thread false true, .thread false true]

theorem announced_run_stopAndConnect :
    (stopAndConnect.foldl (step fun _ => false) setup).Announced (fun _ => false) .counters 7 :=
  announced_run (fun _ => false) stopAndConnect ⟨rfl, rfl, rfl, rfl⟩ .counters 7
    (List.mem_singleton_self 7)

end runs

/-! ## The child of a fork -/

/-- The thread does not write the definition, nor all definitions of a list. -/
def Silent (d : δ) : CallState δ → Prop
  | .idle => True
  | .load _ e => e ≠ d
  | .swap _ e _ => e ≠ d
  | .enter own => own ≠ some d
  | .success own => own ≠ some d
  | .write own => own ≠ some d
  | .head _ _ => False
  | .walk _ _ _ => False

/-- In the period that was inherited in a fork, and in no later one, the definition is not
    written. -/
structure Unwritten (d : δ) (n : Nat) (s : DefState τ δ) : Prop where
  capturing : s.capturing = true
  stores : s.stores = 0
  resendState : s.resendState = false
  silent : ∀ t, Silent d (s.call t)
  written : ∀ m, n < m → (d, m) ∉ s.written

section child

variable {s : DefState τ δ} {large : δ → Bool} {t : τ} {d : δ}

theorem Unwritten.withLists {n : Nat} (h : s.Unwritten d n) (lists : DefKind → List δ) :
    Unwritten d n { s with lists := lists } :=
  ⟨h.capturing, h.stores, h.resendState, h.silent, h.written⟩

theorem Unwritten.withFailed {n : Nat} (h : s.Unwritten d n) (failed : List (δ × Nat)) :
    Unwritten d n { s with failed := failed } :=
  ⟨h.capturing, h.stores, h.resendState, h.silent, h.written⟩

theorem Unwritten.writeDef {n : Nat} (h : s.Unwritten d n) {e : δ} (he : e ≠ d) :
    (s.writeDef large e).Unwritten d n := by
  rw [DefState.writeDef]
  split_ifs
  · exact h
  · refine ⟨h.capturing, h.stores, h.resendState, h.silent, fun m hm hmem => ?_⟩
    rcases List.mem_append.mp hmem with hmem | hmem
    · exact h.written m hm hmem
    · have heq := List.mem_singleton.mp hmem
      exact he (Prod.mk.inj heq).1.symm

variable [DecidableEq τ]

theorem Unwritten.goTo {n : Nat} (h : s.Unwritten d n) {call : CallState δ}
    (hcall : Silent d call) : (s.goTo t call).Unwritten d n where
  capturing := h.capturing
  stores := h.stores
  resendState := h.resendState
  silent u := by
    by_cases hut : u = t
    · subst hut
      rw [goTo_call]
      exact hcall
    · rw [goTo_call_of_ne hut]
      exact h.silent u
  written := h.written

variable [DecidableEq δ]

theorem Unwritten.threadStep {n : Nat} (h : s.Unwritten d n) (t : τ) (ok : Bool) :
    (s.threadStep large t ok).Unwritten d n := by
  have hsilent := h.silent t
  rw [DefState.threadStep]
  cases hcall : s.call t with
  | idle => exact h
  | load kind e =>
    rw [hcall] at hsilent
    exact h.goTo hsilent
  | swap kind e next =>
    rw [hcall] at hsilent
    have hown : some e ≠ some d := fun heq => hsilent (Option.some.inj heq)
    dsimp only
    split_ifs
    · exact (h.withLists _).goTo hown
    · exact h.goTo hsilent
  | enter own =>
    rw [hcall] at hsilent
    dsimp only
    split_ifs
    · exact h.goTo hsilent
    · exact (h.withFailed _).goTo trivial
    · exact h.goTo trivial
  | success own =>
    rw [hcall] at hsilent
    dsimp only
    rw [h.resendState]
    exact h.goTo hsilent
  | head kind own =>
    rw [hcall] at hsilent
    exact absurd hsilent id
  | walk kind rest own =>
    rw [hcall] at hsilent
    exact absurd hsilent id
  | write own =>
    rw [hcall] at hsilent
    cases own with
    | none => exact h.goTo trivial
    | some e => exact (h.writeDef fun heq => hsilent (congrArg some heq)).goTo trivial

theorem Unwritten.step {n : Nat} (h : s.Unwritten d n) {action : DefAction τ δ}
    (hstop : action ≠ .stop) (hregister : ∀ t kind, action ≠ .register t kind d) :
    (s.step large action).Unwritten d n := by
  have hcapturing : ¬ (s.stores = 0 ∧ s.capturing = false) := by
    rw [h.capturing]
    simp
  cases action with
  | register t kind e =>
    rw [DefState.step]
    split_ifs
    · refine h.goTo fun heq => hregister t kind ?_
      rw [heq]
    · exact h
  | annotate t =>
    rw [DefState.step]
    split_ifs
    · exact h.goTo (by simp [Silent])
    · exact h
  | thread t ok => exact h.threadStep t ok
  | connect =>
    rw [DefState.step, if_neg hcapturing]
    exact h
  | command =>
    rw [DefState.step, if_neg hcapturing]
    exact h
  | store =>
    rw [DefState.step, if_pos h.stores]
    exact h
  | stop => exact absurd rfl hstop
  | fork t =>
    rw [DefState.step]
    split_ifs
    · exact ⟨h.capturing, rfl, h.resendState, fun _ => trivial, h.written⟩
    · exact h

/-- What is written is written in the period of that time. -/
theorem written_threadStep (t : τ) (ok : Bool) :
    (s.threadStep large t ok).period = s.period ∧
      ∀ e ∈ (s.threadStep large t ok).written, e ∈ s.written ∨ e.2 = s.period := by
  have hwrite : ∀ d, ∀ e ∈ (s.writeDef large d).written, e ∈ s.written ∨ e.2 = s.period := by
    intro d e he
    rw [DefState.writeDef] at he
    split_ifs at he
    · exact Or.inl he
    · rcases List.mem_append.mp he with he | he
      · exact Or.inl he
      · exact Or.inr (congrArg Prod.snd (List.mem_singleton.mp he))
  rw [DefState.threadStep]
  split
  · exact ⟨rfl, fun _ => Or.inl⟩
  · exact ⟨rfl, fun _ => Or.inl⟩
  · split_ifs <;> exact ⟨rfl, fun _ => Or.inl⟩
  · split_ifs <;> exact ⟨rfl, fun _ => Or.inl⟩
  · split_ifs <;> exact ⟨rfl, fun _ => Or.inl⟩
  · exact ⟨rfl, fun _ => Or.inl⟩
  · split <;> exact ⟨rfl, fun _ => Or.inl⟩
  · exact ⟨writeDef_period, hwrite _⟩
  · exact ⟨rfl, fun _ => Or.inl⟩
  · exact ⟨writeDef_period, hwrite _⟩

theorem written_step (h : ∀ e ∈ s.written, e.2 ≤ s.period) (action : DefAction τ δ) :
    ∀ e ∈ (s.step large action).written, e.2 ≤ (s.step large action).period := by
  cases action with
  | thread t ok =>
    obtain ⟨hperiod, hwritten⟩ := @written_threadStep _ _ s large _ _ t ok
    intro e he
    rw [DefState.step, hperiod]
    rcases hwritten e he with he | he
    · exact h e he
    · exact Nat.le_of_eq he
  | store =>
    rw [DefState.step]
    split_ifs <;> exact h
  | stop =>
    rw [DefState.step]
    split_ifs <;> exact h
  | register t kind d =>
    rw [DefState.step]
    split_ifs <;> exact h
  | annotate t =>
    rw [DefState.step]
    split_ifs <;> exact h
  | _ =>
    rw [DefState.step]
    split_ifs
    · exact fun e he => Nat.le_succ_of_le (h e he)
    · exact h

theorem written_run (h : ∀ e ∈ s.written, e.2 ≤ s.period) (actions : List (DefAction τ δ)) :
    ∀ e ∈ (actions.foldl (step large) s).written, e.2 ≤ (actions.foldl (step large) s).period := by
  induction actions generalizing s with
  | nil => exact h
  | cons action actions ih => exact ih (written_step h action)

theorem Unwritten.run {n : Nat} (h : s.Unwritten d n) {later : List (DefAction τ δ)}
    (hstop : .stop ∉ later) (hregister : ∀ u kind, .register u kind d ∉ later) :
    (later.foldl (DefState.step large) s).Unwritten d n := by
  induction later generalizing s with
  | nil => exact h
  | cons action later ih =>
    have hstep : (s.step large action).Unwritten d n := by
      refine h.step ?_ fun u kind => ?_
      · rintro rfl
        exact hstop List.mem_cons_self
      · rintro rfl
        exact hregister u kind List.mem_cons_self
    exact ih hstep (fun hmem => hstop (List.mem_cons_of_mem _ hmem))
      fun u kind hmem => hregister u kind (List.mem_cons_of_mem _ hmem)

/-- In the child of a process that captures, with `resend_state` taken, no definition from before
    the fork is written again as long as the child does not stop capturing. -/
theorem inherited_run {actions later : List (DefAction τ δ)}
    (hs : actions.foldl (DefState.step large) setup = s) (hcapturing : s.capturing = true)
    (hresend : s.resendState = false) (hidle : s.call t = .idle) (hstop : .stop ∉ later)
    (hregister : ∀ u kind, .register u kind d ∉ later) :
    ∀ n, s.period < n →
      (d, n) ∉ ((DefAction.fork t :: later).foldl (DefState.step large) s).written := by
  have hdated : ∀ e ∈ s.written, e.2 ≤ s.period := by
    rw [← hs]
    exact written_run (by simp [setup]) actions
  have hfork : (s.step large (.fork t)).Unwritten d s.period := by
    rw [DefState.step, if_pos hidle]
    refine ⟨hcapturing, rfl, hresend, fun _ => trivial, fun m hm hmem => ?_⟩
    exact absurd (hdated _ hmem) (Nat.not_le.mpr hm)
  rw [List.foldl_cons]
  exact (hfork.run hstop hregister).written

/-- A counter is registered and written. -/
def registerCounter : List (DefAction Bool Nat) :=
  [.register true .counters 7, .thread true true, .thread true true, .thread true true,
    .thread true true, .thread true true]

/-- Another one in the child. -/
def registerOther : List (DefAction Bool Nat) :=
  [.register false .counters 8, .thread false true, .thread false true, .thread false true,
    .thread false true, .thread false true]

theorem inherited_run_registerOther :
    (7, 1) ∉ ((DefAction.fork false :: registerOther).foldl (DefState.step fun _ => false)
      (registerCounter.foldl (DefState.step fun _ => false) setup)).written :=
  @inherited_run _ _ _ (fun _ => false) false 7 _ _ registerCounter registerOther rfl rfl rfl rfl
    (by simp [registerOther]) (by simp [registerOther]) 1 Nat.one_pos

end child

end DefState

end LibCollector.Streamline
