import LibCollector.Misc.Progress
import LibCollector.Streamline.Flush
import LibCollector.Streamline.LoopSteps

/-!
# How long a flush waits

`gator_annotate_flush` of `src/collectors/streamline_annotate.cpp` waits for `sync_waiter_sem`. As
long as `gatord` answers before the loops of `gator_func`, every request is answered after a bounded
number of the sender's own steps, whatever the threads do in between: the bound grows with the nodes
that they put into the list and with the requests that they make (`flush_answered`). It does not
matter which calls of `gator_connect` and `gator_send` fail. The sender then stops the capturing and
goes on with its loop. The process does not fork: in a child there is no sender until a thread calls
`gator_get_thread`.
-/

namespace LibCollector.Streamline

open LibCollector.Misc

variable {τ α : Type*}

/-! ## The sender and the threads -/

/-- A step of a thread. -/
def SyncAction.byThread : SyncAction τ α → Bool
  | .enter _ => true
  | .request _ => true
  | .wakeSender _ => true
  | .finish _ => true
  | .gator action => action.thread.isSome
  | _ => false

/-- A step of the sender, which is told if its calls of `gator_connect` and `gator_send` succeed, or
    one of a thread. -/
inductive Move (τ α : Type*) where
  | sender (ok : Bool)
  | thread (action : SyncAction τ α)

def Move.bySender : Move τ α → Bool
  | .sender _ => true
  | .thread _ => false

/-- The steps that a move can add to those that the sender has to make. -/
def Move.delay : Move τ α → Nat
  | .thread (.request _) => 2
  | .thread (.gator (.swap _)) => 7
  | _ => 0

namespace SyncState

section move

variable [DecidableEq τ] [DecidableEq α]

/-- The next step of `gator_func`. Before a loop `gatord` has answered, and the capturing is on. -/
def next (s : SyncState τ α) (ok : Bool) : SyncAction τ α :=
  match s.phase with
  | .top =>
    if s.gator.sender = .idle then
      if s.gator.capturing then .wake else .gator .start
    else .gator (.sender ok)
  | .drain _ => .drain
  | .sweep _ => if s.gator.sender = .idle then .endSweep else .gator (.sender ok)
  | .reply _ => .reply

def move (s : SyncState τ α) : Move τ α → Option (SyncState τ α)
  | .sender ok => s.step (s.next ok)
  | .thread action => if action.byThread then s.step action else some s

end move

/-! ## The way to the answers -/

/-- The steps from counting the requests to the last answer. -/
def roundLeft (s : SyncState τ α) (l : List α) : Nat := 2 * s.syncSem + 6 * l.length + 3

/-- The first `n` requests have been answered. -/
def Answered (s : SyncState τ α) (n : Nat) : Prop := n ≤ s.returned + s.syncWaiterSem

/-- The steps behind the answers to `k` requests, if they are not the last ones. -/
def again (s : SyncState τ α) (l : List α) (n k : Nat) : Nat :=
  if n ≤ s.returned + s.syncWaiterSem + k then 0 else 3 + s.roundLeft l

/-- A bound on the steps of the sender until the first `n` requests have been answered. -/
def stepsLeft [DecidableEq α] (s : SyncState τ α) (l rest : List α) (n : Nat) : Nat :=
  let inLoop := GatorState.stepsLeft l rest s.gator.capturing s.gator.sender
  match s.phase with
  | .top => inLoop + (if s.gator.capturing then 0 else 1) + 1 + s.roundLeft l
  | .drain k => k + s.roundLeft l
  | .sweep k => inLoop + 1 + k + s.again l n k
  | .reply k => k + s.again l n k

variable {s s' : SyncState τ α} {l l' rest rest' : List α} {lost : α → Prop} {n : Nat}

theorem stepsLeft_top [DecidableEq α] (h : s.phase = .top) :
    s.stepsLeft l rest n = GatorState.stepsLeft l rest s.gator.capturing s.gator.sender +
      (if s.gator.capturing then 0 else 1) + 1 + s.roundLeft l := by
  rw [stepsLeft, h]

theorem stepsLeft_drain [DecidableEq α] {k : Nat} (h : s.phase = .drain k) :
    s.stepsLeft l rest n = k + s.roundLeft l := by
  rw [stepsLeft, h]

theorem stepsLeft_sweep [DecidableEq α] {k : Nat} (h : s.phase = .sweep k) :
    s.stepsLeft l rest n = GatorState.stepsLeft l rest s.gator.capturing s.gator.sender + 1 + k +
      s.again l n k := by
  rw [stepsLeft, h]

theorem stepsLeft_reply [DecidableEq α] {k : Nat} (h : s.phase = .reply k) :
    s.stepsLeft l rest n = k + s.again l n k := by
  rw [stepsLeft, h]

theorem roundLeft_mono {m : Nat} (h : 2 * s'.syncSem + 6 * l'.length ≤
    2 * s.syncSem + 6 * l.length + m) : s'.roundLeft l' ≤ s.roundLeft l + m := by
  unfold roundLeft
  omega

theorem again_mono {k k' m : Nat} (hround : s'.roundLeft l' ≤ s.roundLeft l + m)
    (hsum : s.returned + s.syncWaiterSem + k ≤ s'.returned + s'.syncWaiterSem + k') :
    s'.again l' n k' ≤ s.again l n k + m := by
  unfold again
  split_ifs
  · omega
  · omega
  · omega
  · omega

/-- The sender stays where it is. -/
theorem stepsLeft_le [DecidableEq α] {k m : Nat} (hphase : s'.phase = s.phase)
    (hcapturing : s'.gator.capturing = s.gator.capturing)
    (hloop : GatorState.stepsLeft l' rest s'.gator.capturing s'.gator.sender ≤
      GatorState.stepsLeft l rest s.gator.capturing s.gator.sender + k)
    (hround : s'.roundLeft l' ≤ s.roundLeft l + m)
    (hsum : s.returned + s.syncWaiterSem = s'.returned + s'.syncWaiterSem) :
    s'.stepsLeft l' rest n ≤ s.stepsLeft l rest n + (k + m) := by
  have hagain : ∀ j, s'.again l' n j ≤ s.again l n j + m := by
    intro j
    refine again_mono hround ?_
    rw [hsum]
  cases hs : s.phase with
  | top =>
    rw [stepsLeft_top hs, stepsLeft_top (hphase.trans hs), hcapturing]
    rw [hcapturing] at hloop
    omega
  | drain j =>
    rw [stepsLeft_drain hs, stepsLeft_drain (hphase.trans hs)]
    omega
  | sweep j =>
    have hj := hagain j
    rw [stepsLeft_sweep hs, stepsLeft_sweep (hphase.trans hs)]
    omega
  | reply j =>
    have hj := hagain j
    rw [stepsLeft_reply hs, stepsLeft_reply (hphase.trans hs)]
    omega

/-- The step is defined, keeps the invariant, and adds at most `m` to the steps of the sender. -/
def Delays [DecidableEq α] (n m : Nat) (s : SyncState τ α) (l rest : List α) (lost : α → Prop)
    (r : Option (SyncState τ α)) : Prop :=
  ∃ s' l' rest', r = some s' ∧ s'.Inv l' rest' lost ∧
    s'.stepsLeft l' rest' n ≤ s.stepsLeft l rest n + m

theorem Inv.delays_self [DecidableEq α] (h : s.Inv l rest lost) (n m : Nat) :
    Delays n m s l rest lost (some s) :=
  ⟨s, l, rest, rfl, h, Nat.le_add_right _ _⟩

/-- No steps are left only if the requests have been answered. -/
theorem answered_of_stepsLeft [DecidableEq α] (h : s.stepsLeft l rest n = 0) : s.Answered n := by
  cases hphase : s.phase with
  | top => exact absurd h (by simp [stepsLeft_top hphase])
  | drain k => exact absurd h (by simp [stepsLeft_drain hphase, roundLeft])
  | sweep k => exact absurd h (by simp [stepsLeft_sweep hphase])
  | reply k =>
    rw [stepsLeft_reply hphase] at h
    obtain ⟨rfl, hagain⟩ := Nat.add_eq_zero_iff.mp h
    unfold again at hagain
    split_ifs at hagain with hle
    · exact hle
    · exact absurd hagain (by simp)

/-- What the sender has before it, in the number of the nodes. -/
theorem Inv.stepsLeft_bound [DecidableEq α] (h : s.Inv l rest lost) (n : Nat) :
    s.stepsLeft l rest n ≤ 13 * l.length + 2 * s.syncSem + s.phase.count + 13 := by
  have hrest : rest.length ≤ l.length := h.gator.rest_suffix.length_le
  have hcost := GatorState.stopCost_bound l s.gator.capturing
  have hwalk : ∀ cur, GatorState.walkLeft l cur ≤ l.length := by
    intro cur
    cases cur with
    | none => exact Nat.zero_le _
    | some b => exact (List.dropWhile_suffix _).length_le
  have hloop : GatorState.stepsLeft l rest s.gator.capturing s.gator.sender ≤
      7 * l.length + 6 := by
    cases s.gator.sender with
    | walk cur back =>
      have hcur := hwalk cur
      rcases back with - | ⟨prev, a⟩
      · simp only [GatorState.stepsLeft]
        omega
      · simp only [GatorState.stepsLeft]
        omega
    | _ =>
      simp only [GatorState.stepsLeft, GatorState.work]
      omega
  have hagain : ∀ k, s.again l n k ≤ 3 + s.roundLeft l := by
    intro k
    unfold again
    split_ifs
    · exact Nat.zero_le _
    · exact Nat.le_refl _
  have hround : s.roundLeft l = 2 * s.syncSem + 6 * l.length + 3 := rfl
  cases hs : s.phase with
  | top =>
    rw [stepsLeft_top hs]
    split_ifs
    · omega
    · omega
  | drain k =>
    rw [stepsLeft_drain hs, Phase.count]
    omega
  | sweep k =>
    have hk := hagain k
    rw [stepsLeft_sweep hs, Phase.count]
    omega
  | reply k =>
    have hk := hagain k
    rw [stepsLeft_reply hs, Phase.count]
    omega

variable [DecidableEq τ] [DecidableEq α]

/-- Requests do not go away, and answers do not. -/
theorem step_le {action : SyncAction τ α} (hstep : s.step action = some s') :
    s.requests ≤ s'.requests ∧
      s.returned + s.syncWaiterSem ≤ s'.returned + s'.syncWaiterSem := by
  have hsame : s' = s → s.requests ≤ s'.requests ∧
      s.returned + s.syncWaiterSem ≤ s'.returned + s'.syncWaiterSem := by
    intro heq
    rw [heq]
    exact ⟨Nat.le_refl _, Nat.le_refl _⟩
  cases action with
  | enter t =>
    rw [step] at hstep
    split_ifs at hstep
    · cases hstep
      exact ⟨Nat.le_refl _, Nat.le_refl _⟩
    · exact hsame (Option.some.inj hstep).symm
  | request t =>
    rw [step] at hstep
    split at hstep
    · cases hstep
      exact ⟨Nat.le_succ _, Nat.le_refl _⟩
    · exact hsame (Option.some.inj hstep).symm
  | wakeSender t =>
    rw [step] at hstep
    split at hstep
    · cases hstep
      exact ⟨Nat.le_refl _, Nat.le_refl _⟩
    · exact hsame (Option.some.inj hstep).symm
  | finish t =>
    rw [step] at hstep
    split at hstep
    · split_ifs at hstep with hpost
      · cases hstep
        refine ⟨Nat.le_refl _, ?_⟩
        dsimp only
        omega
      · exact hsame (Option.some.inj hstep).symm
    · exact hsame (Option.some.inj hstep).symm
  | gator action =>
    rw [step] at hstep
    split_ifs at hstep
    · obtain ⟨g, -, rfl⟩ := Option.map_eq_some_iff.mp hstep
      exact ⟨Nat.le_refl _, Nat.le_refl _⟩
    · exact hsame (Option.some.inj hstep).symm
  | wake =>
    rw [step] at hstep
    split_ifs at hstep
    · cases hstep
      exact ⟨Nat.le_refl _, Nat.le_refl _⟩
    · exact hsame (Option.some.inj hstep).symm
  | drain =>
    rw [step] at hstep
    split at hstep
    · split_ifs at hstep
      · cases hstep
        exact ⟨Nat.le_refl _, Nat.le_refl _⟩
      · obtain ⟨g, -, rfl⟩ := Option.map_eq_some_iff.mp hstep
        exact ⟨Nat.le_refl _, Nat.le_refl _⟩
    · exact hsame (Option.some.inj hstep).symm
  | endSweep =>
    rw [step] at hstep
    split at hstep
    · split_ifs at hstep
      · cases hstep
        exact ⟨Nat.le_refl _, Nat.le_refl _⟩
      · exact hsame (Option.some.inj hstep).symm
    · exact hsame (Option.some.inj hstep).symm
  | reply =>
    rw [step] at hstep
    split at hstep
    · cases hstep
      refine ⟨Nat.le_refl _, ?_⟩
      dsimp only
      omega
    · cases hstep
      exact ⟨Nat.le_refl _, Nat.le_refl _⟩
    · exact hsame (Option.some.inj hstep).symm

/-! ## A step of the sender -/

/-- The step is defined and keeps the invariant, and unless the requests have been answered it
    brings the answers nearer. -/
def Nears (n : Nat) (s : SyncState τ α) (l rest : List α) (lost : α → Prop)
    (r : Option (SyncState τ α)) : Prop :=
  ∃ s' l' rest', r = some s' ∧ s'.Inv l' rest' lost ∧
    (s.Answered n ∨ s'.stepsLeft l' rest' n < s.stepsLeft l rest n)

/-- The sender is in its loop, or in `gator_stop_capturing` before it. -/
theorem Inv.sender_gator (h : s.Inv l rest lost) (hphase : s.phase = .top ∨ s.phase.Sweeps)
    (hne : s.gator.sender ≠ .idle) (ok : Bool) :
    ∃ g l' rest', s.gator.senderStep ok = some g ∧
      s.step (.gator (.sender ok)) = some { s with gator := g } ∧
      ({ s with gator := g } : SyncState τ α).Inv l' rest' lost ∧ l'.length ≤ l.length ∧
      GatorState.stepsLeft l' rest' g.capturing g.sender <
        GatorState.stepsLeft l rest s.gator.capturing s.gator.sender := by
  have hallows : s.Allows (.sender ok) := Or.inr (Or.inl ⟨rfl, hphase⟩)
  have halong : (GatorAction.sender ok : GatorAction τ α).Along := trivial
  obtain ⟨g, l', rest', hsender, hg, hvisited, hframe⟩ := h.gator.step_sender halong rfl
  have hstep : s.step (.gator (.sender ok)) = some { s with gator := g } := by
    rw [SyncState.step, if_pos hallows]
    exact congrArg (Option.map _) hsender
  obtain ⟨s', l'', rest'', hstep', hinv⟩ := h.gatorStep (.sender ok)
  obtain rfl := Option.some.inj (hstep.symm.trans hstep')
  obtain ⟨rfl, rfl⟩ := hg.unique hinv.gator
  have hlength : l''.length ≤ l.length :=
    hg.linked.chain.nodup.length_le_of_subset hframe.mem
  have hmarks : s.gator.sender.marks = false := by
    rw [Bool.eq_false_iff]
    intro hmarks
    have hforked := (h.gator.child hmarks).1
    rw [h.forked] at hforked
    cases hforked
  exact ⟨g, l'', rest'', hsender, hstep, hinv, hlength,
    GatorState.stepsLeft_senderStep h.gator hmarks hne hsender hg hvisited hlength⟩

/-- A step that leaves the list and the sender in it alone. -/
theorem Inv.of_step (h : s.Inv l rest lost) {action : SyncAction τ α}
    (hstep : s.step action = some s') (hgator : s'.gator = s.gator) : s'.Inv l rest lost := by
  obtain ⟨t, l', rest', hstep', hinv⟩ := h.step action
  obtain rfl := Option.some.inj (hstep.symm.trans hstep')
  obtain ⟨rfl, rfl⟩ := h.gator.unique (hgator ▸ hinv.gator)
  exact hinv

theorem Inv.nears_wake (h : s.Inv l rest lost) (hphase : s.phase = .top)
    (hidle : s.gator.sender = .idle) : Nears n s l rest lost (s.step .wake) := by
  have hstep : s.step .wake = some { s with phase := .drain 0, senderSem := 0 } :=
    if_pos ⟨hphase, hidle⟩
  refine ⟨_, l, rest, hstep, h.of_step hstep rfl, Or.inr ?_⟩
  rw [stepsLeft_drain rfl, stepsLeft_top hphase]
  simp only [roundLeft]
  omega

theorem Inv.nears_start (h : s.Inv l rest lost) (hphase : s.phase = .top)
    (hidle : s.gator.sender = .idle) (hcapturing : s.gator.capturing = false) :
    Nears n s l rest lost (s.step (.gator .start)) := by
  have hallows : s.Allows .start := Or.inr (Or.inr ⟨rfl, hphase⟩)
  obtain ⟨s', l', rest', hstep, hinv⟩ := h.gatorStep .start
  have hnew : s' = { s with gator := { s.gator with capturing := true } } := by
    rw [SyncState.step, if_pos hallows, GatorState.step, if_pos ⟨hidle, h.forked⟩] at hstep
    exact (Option.some.inj hstep).symm
  subst hnew
  obtain rfl := h.gator.linked.chain.unique hinv.gator.linked.chain
  refine ⟨_, l, rest', hstep, hinv, Or.inr ?_⟩
  rw [stepsLeft_top hphase]
  refine lt_of_eq_of_lt (stepsLeft_top hphase) ?_
  simp only [roundLeft, hidle, GatorState.stepsLeft, hcapturing, if_true, Bool.false_eq_true,
    if_false]
  omega

/-- The sender is in its loop, or in `gator_stop_capturing` before it. -/
theorem Inv.nears_loop (h : s.Inv l rest lost) (hphase : s.phase = .top ∨ s.phase.Sweeps)
    (hne : s.gator.sender ≠ .idle) (ok : Bool) :
    Nears n s l rest lost (s.step (.gator (.sender ok))) := by
  obtain ⟨g, l', rest', hsender, hstep, hinv, hl, hleft⟩ := h.sender_gator hphase hne ok
  refine ⟨_, l', rest', hstep, hinv, Or.inr ?_⟩
  have hround : ({ s with gator := g } : SyncState τ α).roundLeft l' ≤ s.roundLeft l + 0 := by
    refine roundLeft_mono ?_
    dsimp only
    omega
  rcases hphase with htop | hsweeps
  · have hplace := h.place
    rw [htop] at hplace
    obtain ⟨cur, hwalk⟩ := hplace.resolve_left hne
    rw [GatorState.senderStep_succeeds fun prev a hvisit => by rw [hwalk] at hvisit; cases hvisit]
      at hsender
    have hcapturing := GatorState.capturing_senderStep hsender
    rw [stepsLeft_top htop]
    refine lt_of_eq_of_lt (stepsLeft_top htop) ?_
    dsimp only
    rw [hcapturing] at hleft ⊢
    omega
  · have hagain := again_mono (n := n) hround
      (Nat.le_refl (s.returned + s.syncWaiterSem + s.phase.count))
    rw [stepsLeft_sweep hsweeps]
    refine lt_of_eq_of_lt (stepsLeft_sweep hsweeps) ?_
    dsimp only
    omega

theorem Inv.nears_endSweep {k : Nat} (h : s.Inv l rest lost) (hphase : s.phase = .sweep k)
    (hidle : s.gator.sender = .idle) : Nears n s l rest lost (s.step .endSweep) := by
  have hstep : s.step .endSweep = some { s with phase := .reply k } := by
    rw [SyncState.step, hphase]
    exact if_pos hidle
  refine ⟨_, l, rest, hstep, h.of_step hstep rfl, Or.inr ?_⟩
  rw [stepsLeft_reply rfl, stepsLeft_sweep hphase]
  have hagain : ({ s with phase := .reply k } : SyncState τ α).again l n k = s.again l n k := rfl
  omega

theorem Inv.nears_reply {k : Nat} (h : s.Inv l rest lost) (hphase : s.phase = .reply k) :
    Nears n s l rest lost (s.step .reply) := by
  cases k with
  | zero =>
    have hstep : s.step .reply = some { s with phase := .top } := by
      rw [SyncState.step, hphase]
    refine ⟨_, l, rest, hstep, h.of_step hstep rfl, ?_⟩
    by_cases hanswered : s.Answered n
    · exact Or.inl hanswered
    · right
      have hplace := h.place
      rw [hphase] at hplace
      have hidle : s.gator.sender = .idle := hplace
      have hagain : s.again l n 0 = 3 + s.roundLeft l := if_neg hanswered
      rw [stepsLeft_top rfl, stepsLeft_reply hphase, hagain]
      simp only [hidle, GatorState.stepsLeft, roundLeft]
      split_ifs
      · omega
      · omega
  | succ k =>
    have hstep : s.step .reply =
        some { s with phase := .reply k, syncWaiterSem := s.syncWaiterSem + 1 } := by
      rw [SyncState.step, hphase]
    refine ⟨_, l, rest, hstep, h.of_step hstep rfl, Or.inr ?_⟩
    rw [stepsLeft_reply rfl, stepsLeft_reply hphase]
    have hagain : ({ s with phase := .reply k, syncWaiterSem := s.syncWaiterSem + 1 } :
        SyncState τ α).again l n k ≤ s.again l n (k + 1) + 0 := by
      refine again_mono (Nat.le_refl (s.roundLeft l)) ?_
      dsimp only
      omega
    omega

theorem stepsLeft_loop (prev : Prev α) (q : Option α) (capturing : Bool) :
    GatorState.stepsLeft l l capturing (.loop prev q) ≤ 6 * l.length + 1 := by
  cases q with
  | none => exact Nat.zero_le _
  | some a =>
    have hcost := GatorState.stopCost_bound l capturing
    simp only [SweepState.loop, GatorState.stepsLeft, GatorState.work]
    omega

theorem Inv.nears_drain {k : Nat} (h : s.Inv l rest lost) (hn : n ≤ s.requests)
    (hphase : s.phase = .drain k) : Nears n s l rest lost (s.step .drain) := by
  by_cases hposted : 0 < s.syncSem
  · have hstep : s.step .drain =
        some { s with phase := .drain (k + 1), syncSem := s.syncSem - 1 } := by
      rw [SyncState.step, hphase]
      exact if_pos hposted
    refine ⟨_, l, rest, hstep, h.of_step hstep rfl, Or.inr ?_⟩
    rw [stepsLeft_drain rfl, stepsLeft_drain hphase]
    simp only [roundLeft]
    omega
  · have hplace := h.place
    have hcount := h.count
    rw [hphase] at hplace hcount
    have hidle : s.gator.sender = .idle := hplace
    have hall : s.returned + s.syncWaiterSem + k + s.syncSem = s.requests := hcount
    obtain ⟨s', l', rest', hstep, hinv⟩ := h.drain
    have hnew : s' = { s with
        gator := { s.gator with
          sweeps := s.gator.sweeps + 1, visited := [], released := [], missed := [] }.goTo .head
            s.gator.threads
        phase := .sweep k } := by
      rw [SyncState.step, hphase] at hstep
      dsimp only at hstep
      rw [if_neg hposted, GatorState.step, if_pos ⟨hidle, h.forked⟩] at hstep
      exact (Option.some.inj hstep).symm
    subst hnew
    obtain ⟨g, hsweep, hg, -⟩ := h.gator.step_sweep hidle h.forked
    rw [GatorState.step, if_pos ⟨hidle, h.forked⟩] at hsweep
    obtain rfl := Option.some.inj hsweep
    obtain ⟨hl, hrest⟩ := hg.unique hinv.gator
    rw [hl, hrest] at hinv
    refine ⟨_, l, l, hstep, hinv, Or.inr ?_⟩
    rw [stepsLeft_drain hphase]
    refine lt_of_eq_of_lt (stepsLeft_sweep rfl) ?_
    have hloop := stepsLeft_loop (l := l) .head s.gator.threads s.gator.capturing
    rw [again, if_pos (by dsimp only; omega)]
    simp only [roundLeft, GatorState.goTo]
    omega

/-- The sender gets nearer to the answers. -/
theorem Inv.nears_sender (h : s.Inv l rest lost) (hn : n ≤ s.requests) (ok : Bool) :
    Nears n s l rest lost (s.move (.sender ok)) := by
  unfold SyncState.move next
  cases hphase : s.phase with
  | top =>
    dsimp only
    split_ifs with hidle hcapturing
    · exact h.nears_wake hphase hidle
    · exact h.nears_start hphase hidle (Bool.eq_false_iff.mpr hcapturing)
    · exact h.nears_loop (Or.inl hphase) hidle ok
  | drain k => exact h.nears_drain hn hphase
  | sweep k =>
    dsimp only
    split_ifs with hidle
    · exact h.nears_endSweep hphase hidle
    · refine h.nears_loop (Or.inr ?_) hidle ok
      rw [hphase]
      rfl
  | reply k => exact h.nears_reply hphase

/-! ## A step of a thread -/

/-- A thread goes on in its flush. -/
theorem Inv.delays_flush {action : SyncAction τ α} {m : Nat} (h : s.Inv l rest lost)
    (hstep : s.step action = some s') (hgator : s'.gator = s.gator) (hphase : s'.phase = s.phase)
    (hsem : 2 * s'.syncSem ≤ 2 * s.syncSem + m)
    (hsum : s.returned + s.syncWaiterSem = s'.returned + s'.syncWaiterSem) :
    Delays n m s l rest lost (s.step action) := by
  refine ⟨s', l, rest, hstep, h.of_step hstep hgator, ?_⟩
  have hround : s'.roundLeft l ≤ s.roundLeft l + m := roundLeft_mono (by omega)
  have hloop : GatorState.stepsLeft l rest s'.gator.capturing s'.gator.sender ≤
      GatorState.stepsLeft l rest s.gator.capturing s.gator.sender + 0 := by
    rw [hgator]
    exact Nat.le_refl _
  have hle := stepsLeft_le (n := n) hphase (by rw [hgator]) hloop hround hsum
  rw [Nat.zero_add] at hle
  exact hle

/-- A thread makes a step on the list. -/
theorem Inv.delays_gator {action : GatorAction τ α} {t : τ} (h : s.Inv l rest lost)
    (hthread : action.thread = some t) :
    Delays n (Move.thread (.gator action)).delay s l rest lost (s.step (.gator action)) := by
  by_cases hallows : s.Allows action
  · obtain ⟨g, l', hstep, hg, hframe, hlocal⟩ := h.gator.step_thread hthread
    have hsome : s.step (.gator action) = some { s with gator := g } := by
      rw [SyncState.step, if_pos hallows]
      exact congrArg (Option.map _) hstep
    obtain ⟨s', l'', rest'', hstep', hinv⟩ := h.gatorStep action
    obtain rfl := Option.some.inj (hsome.symm.trans hstep')
    obtain ⟨hl, hrest⟩ := hg.unique hinv.gator
    rw [hl, hrest] at hinv
    refine ⟨_, l', rest, hsome, hinv, ?_⟩
    have hsame : l' = l → ({ s with gator := g } : SyncState τ α).stepsLeft l' rest n ≤
        s.stepsLeft l rest n := by
      rintro rfl
      refine stepsLeft_le (k := 0) (m := 0) rfl hframe.capturing ?_ (Nat.le_refl _) rfl
      rw [hframe.capturing, hframe.sender]
      exact Nat.le_refl _
    by_cases hswap : action = .swap t
    · rw [hswap]
      rcases hlocal.grows with heq | ⟨a, rfl⟩
      · exact (hsame heq).trans (Nat.le_add_right _ _)
      · have hnodup := hg.linked.chain.nodup
        refine stepsLeft_le (k := 1) (m := 6) rfl hframe.capturing ?_ (roundLeft_mono ?_) rfl
        · rw [hframe.capturing, hframe.sender]
          exact GatorState.stepsLeft_cons h.gator.sender hnodup
        · rw [List.length_cons]
          dsimp only
          omega
    · have hthreads := GatorState.threads_step_thread hthread hswap hstep
      have heq := GatorState.eq_of_threads h.gator hg hlocal.grows hthreads
      exact (hsame heq).trans (Nat.le_add_right _ _)
  · rw [SyncState.step, if_neg hallows]
    exact h.delays_self n _

/-- The steps of the threads. -/
theorem Inv.delays_thread (h : s.Inv l rest lost) (n : Nat) (action : SyncAction τ α) :
    Delays n (Move.thread action).delay s l rest lost (s.move (.thread action)) := by
  unfold SyncState.move
  dsimp only
  split_ifs with hthread
  · cases action with
    | enter t =>
      by_cases hguard : s.flush t = .idle ∧ (s.gator.app t).own = none ∧ s.gator.capturing
      · exact h.delays_flush (if_pos hguard) rfl rfl (Nat.le_refl _) rfl
      · rw [SyncState.step, if_neg hguard]
        exact h.delays_self n _
    | request t =>
      cases ht : s.flush t with
      | entered stops =>
        have hstep : s.step (.request t) = some { s with
            flush := Function.update s.flush t
              (.posted ⟨s.requests + 1, s.returned, s.gator.sweeps, stops⟩)
            syncSem := s.syncSem + 1
            requests := s.requests + 1 } := by
          rw [SyncState.step, ht]
        exact h.delays_flush hstep rfl rfl (Nat.le_refl _) rfl
      | _ =>
        rw [SyncState.step, ht]
        exact h.delays_self n _
    | wakeSender t =>
      cases ht : s.flush t with
      | posted request =>
        have hstep : s.step (.wakeSender t) = some { s with
            flush := Function.update s.flush t (.waiting request)
            senderSem := s.senderSem + 1 } := by
          rw [SyncState.step, ht]
        exact h.delays_flush hstep rfl rfl (Nat.le_refl _) rfl
      | _ =>
        rw [SyncState.step, ht]
        exact h.delays_self n _
    | finish t =>
      cases ht : s.flush t with
      | waiting request =>
        by_cases hpost : 0 < s.syncWaiterSem
        · have hstep : s.step (.finish t) = some { s with
              flush := Function.update s.flush t .idle
              syncWaiterSem := s.syncWaiterSem - 1
              returned := s.returned + 1 } := by
            rw [SyncState.step, ht]
            exact if_pos hpost
          refine h.delays_flush hstep rfl rfl (Nat.le_refl _) ?_
          dsimp only
          omega
        · rw [SyncState.step, ht]
          dsimp only
          rw [if_neg hpost]
          exact h.delays_self n _
      | _ =>
        rw [SyncState.step, ht]
        exact h.delays_self n _
    | gator action =>
      obtain ⟨t, ht⟩ := Option.isSome_iff_exists.mp hthread
      exact h.delays_gator ht
    | _ => cases hthread
  · exact h.delays_self n _

/-! ## A run -/

/-- Requests do not go away, and answers do not. -/
theorem move_le {m : Move τ α} (hmove : s.move m = some s') :
    s.requests ≤ s'.requests ∧ s.returned + s.syncWaiterSem ≤ s'.returned + s'.syncWaiterSem := by
  cases m with
  | sender ok => exact step_le hmove
  | thread action =>
    unfold SyncState.move at hmove
    dsimp only at hmove
    split_ifs at hmove
    · exact step_le hmove
    · cases hmove
      exact ⟨Nat.le_refl _, Nat.le_refl _⟩

/-- The requests are answered if the sender makes enough steps. -/
theorem Inv.run_moves (h : s.Inv l rest lost) (hn : n ≤ s.requests) (moves : List (Move τ α)) :
    ∃ t, Misc.run SyncState.move s moves = some t ∧ (s.Answered n ∨
      s.stepsLeft l rest n + (moves.map Move.delay).sum ≤ moves.countP Move.bySender →
        t.Answered n) := by
  refine run_reaches (γ := List α × List α)
    (I := fun (s : SyncState τ α) g => s.Inv g.1 g.2 lost ∧ n ≤ s.requests)
    (G := fun s => s.Answered n) (R := fun s g => s.stepsLeft g.1 g.2 n)
    ?_ (fun s g _ hzero => answered_of_stepsLeft hzero) (g := (l, rest)) ⟨h, hn⟩ moves
  rintro s ⟨l, rest⟩ m ⟨hinv, hn⟩
  have hone : ∃ t l' rest', s.move m = some t ∧ t.Inv l' rest' lost ∧
      (s.Answered n ∨ t.stepsLeft l' rest' n + (if m.bySender then 1 else 0) ≤
        s.stepsLeft l rest n + m.delay) := by
    cases m with
    | sender ok => exact hinv.nears_sender hn ok
    | thread action =>
      obtain ⟨t, l', rest', hmove, hinv', hle⟩ := hinv.delays_thread n action
      exact ⟨t, l', rest', hmove, hinv', Or.inr hle⟩
  obtain ⟨t, l', rest', hmove, hinv', hle⟩ := hone
  obtain ⟨hrequests, hanswers⟩ := move_le hmove
  exact ⟨t, (l', rest'), hmove, ⟨hinv', hn.trans hrequests⟩, fun hnow => hnow.trans hanswers, hle⟩

/-- From any state that a process can reach without a fork, whatever the threads do in between (but
    for forks) and whichever calls of the sender fail: every request that has been made is answered
    by a post or a return after so many steps of the sender. So a flush does not wait for ever as
    long as `gatord` answers: one of the flushes that have not returned can return. -/
theorem flush_answered {actions : List (SyncAction τ α)} {moves : List (Move τ α)}
    (hs : Misc.run SyncState.step setup actions = some s)
    (hl : Chain (linkOf s.gator.shape) s.gator.threads l)
    (hmoves : 13 * l.length + 2 * s.syncSem + s.phase.count + 13 + (moves.map Move.delay).sum ≤
      moves.countP Move.bySender) :
    ∃ t, Misc.run SyncState.move s moves = some t ∧
      s.requests ≤ t.returned + t.syncWaiterSem := by
  obtain ⟨s', l', rest, hrun, hinv⟩ := inv_setup.run actions
  obtain rfl := Option.some.inj (hs.symm.trans hrun)
  obtain rfl := hinv.gator.linked.chain.unique hl
  obtain ⟨t, hrun', ht⟩ := hinv.run_moves (Nat.le_refl _) moves
  have hbound := hinv.stepsLeft_bound s.requests
  exact ⟨t, hrun', ht (Or.inr (by omega))⟩

/-- A thread that links its node and asks for a flush. -/
def linkAndFlush : List (SyncAction Nat Nat) :=
  [.gator (.malloc 0 7), .gator (.keySet 0), .gator (.load 0), .gator (.swap 0), .enter 0,
    .request 0, .wakeSender 0]

/-- The state after it. -/
def flushingState : SyncState Nat Nat :=
  (Misc.run SyncState.step setup linkAndFlush).getD setup

/-- Meanwhile another thread links its node. The calls of the sender fail. -/
def meanwhile : List (Move Nat Nat) :=
  [.thread (.gator (.malloc 1 9)), .sender false, .thread (.gator (.keySet 1)),
    .thread (.gator (.load 1)), .sender false, .thread (.gator (.swap 1))] ++
    List.replicate 33 (.sender false)

theorem flush_answered_meanwhile : ∃ t, Misc.run SyncState.move flushingState meanwhile = some t ∧
    1 ≤ t.returned + t.syncWaiterSem := by
  have hsome : Misc.run SyncState.step setup linkAndFlush = some flushingState := rfl
  have hone : Chain (linkOf flushingState.gator.shape) flushingState.gator.threads [7] :=
    ⟨rfl, none, rfl, rfl⟩
  exact flush_answered hsome hone (by decide)

end SyncState

end LibCollector.Streamline
