import LibCollector.Streamline.ListSafety

/-!
# Synchronous flushes

`gator_annotate_flush` and the semaphores `sync_sem` and `sync_waiter_sem` of `gator_func`, of
`src/collectors/streamline_annotate.cpp`, over the list of threads. The sender counts the requests
before a loop over the threads and posts as many times after it. The posts are not for a certain
thread: a flush may be woken by the answer to another one. One that was made when every earlier one
had returned is not woken before a whole loop that began after its request (`flush_returns`).

All this is about a process that has not forked: a child has no sender before its first
`gator_get_thread`, and the requests that its parent had counted are never answered there. Nor are
the waits interrupted. `gator_annotate_flush` does not look at the result of `sem_wait`, so a signal
lets it return without an answer.
-/

namespace LibCollector.Streamline

open LibCollector.Misc

variable {τ α : Type*}

/-! ## States -/

/-- What is recorded of a request when it is made: its number, how many flushes had returned, how
    many loops had begun, and how often the capturing had been stopped before the flush. -/
structure Request where
  number : Nat
  returned : Nat
  sweeps : Nat
  stops : Nat
  deriving DecidableEq

/-- Where a thread is in `gator_annotate_flush`: not in it, or before each of the three calls. -/
inductive FlushState where
  | idle
  | entered (stops : Nat)
  | posted (request : Request)
  | waiting (request : Request)
  deriving DecidableEq

/-- The request of a flush that has not returned. -/
def FlushState.request : FlushState → Option Request
  | .posted request => some request
  | .waiting request => some request
  | _ => none

/-- Where the sender is, with its `sync_count`: before it wakes up, where it counts the requests, in
    its loop over the threads, or where it answers. -/
inductive Phase where
  | top
  | drain (syncCount : Nat)
  | sweep (syncCount : Nat)
  | reply (syncCount : Nat)
  deriving DecidableEq

/-- The requests that the sender has counted and not answered. -/
def Phase.count : Phase → Nat
  | .top => 0
  | .drain n => n
  | .sweep n => n
  | .reply n => n

/-- Those that it had counted before the last loop began. -/
def Phase.taken : Phase → Nat
  | .sweep n => n
  | .reply n => n
  | _ => 0

/-- Those that it had counted before the last loop that has ended. -/
def Phase.replying : Phase → Nat
  | .reply n => n
  | _ => 0

/-- The list with its threads, the semaphores, and how many requests have been made and how many
    flushes have returned. -/
structure SyncState (τ α : Type*) where
  gator : GatorState τ α
  flush : τ → FlushState
  syncSem : Nat
  senderSem : Nat
  syncWaiterSem : Nat
  phase : Phase
  requests : Nat
  returned : Nat

/-- A step of a flush, a step of the threads and the sender on the list, or one of the sender
    outside its loop. -/
inductive SyncAction (τ α : Type*) where
  | enter (t : τ)
  | request (t : τ)
  | wakeSender (t : τ)
  | finish (t : τ)
  | gator (action : GatorAction τ α)
  | wake
  | drain
  | endSweep
  | reply

/-- The sender is in its loop over the threads. -/
def Phase.Sweeps (phase : Phase) : Prop := phase = .sweep phase.count

instance (phase : Phase) : Decidable phase.Sweeps := inferInstanceAs (Decidable (_ = _))

namespace SyncState

/-- After `gator_annotate_setup`. -/
def setup : SyncState τ α where
  gator := GatorState.setup
  flush _ := .idle
  syncSem := 0
  senderSem := 0
  syncWaiterSem := 0
  phase := .top
  requests := 0
  returned := 0

/-- How many loops over the threads have ended. -/
def completed (s : SyncState τ α) : Nat :=
  if s.phase.Sweeps then s.gator.sweeps - 1 else s.gator.sweeps

/-- A thread in a flush does nothing else, and the sender is in one place. A fork is not allowed:
    the states are those of a process that has not forked. -/
def Allows (s : SyncState τ α) (action : GatorAction τ α) : Prop :=
  (∃ t ∈ action.thread, s.flush t = .idle) ∨
    (action.bySender ∧ (s.phase = .top ∨ s.phase.Sweeps)) ∨ (action.switches ∧ s.phase = .top)

instance (s : SyncState τ α) (action : GatorAction τ α) : Decidable (s.Allows action) :=
  inferInstanceAs (Decidable (_ ∨ _ ∨ _))

variable [DecidableEq τ] [DecidableEq α]

/-- A step that is not possible in a state leaves it as it is. A flush finishes by a post of
    `sync_waiter_sem`, and not by an interrupted wait. -/
def step (s : SyncState τ α) : SyncAction τ α → Option (SyncState τ α)
  | .enter t =>
    if s.flush t = .idle ∧ (s.gator.app t).own = none ∧ s.gator.capturing then
      some { s with flush := Function.update s.flush t (.entered s.gator.stops) }
    else some s
  | .request t =>
    match s.flush t with
    | .entered stops =>
      some { s with
        flush := Function.update s.flush t
          (.posted ⟨s.requests + 1, s.returned, s.gator.sweeps, stops⟩)
        syncSem := s.syncSem + 1
        requests := s.requests + 1 }
    | _ => some s
  | .wakeSender t =>
    match s.flush t with
    | .posted request =>
      some { s with
        flush := Function.update s.flush t (.waiting request), senderSem := s.senderSem + 1 }
    | _ => some s
  | .finish t =>
    match s.flush t with
    | .waiting _ =>
      if 0 < s.syncWaiterSem then
        some { s with
          flush := Function.update s.flush t .idle
          syncWaiterSem := s.syncWaiterSem - 1
          returned := s.returned + 1 }
      else some s
    | _ => some s
  | .gator action =>
    if s.Allows action then (s.gator.step action).map fun gator => { s with gator := gator }
    else some s
  | .wake =>
    -- The wait for `sender_sem` may end by a post or by its timeout, and drops all posts.
    if s.phase = .top ∧ s.gator.sender = .idle then
      some { s with phase := .drain 0, senderSem := 0 }
    else some s
  | .drain =>
    match s.phase with
    | .drain n =>
      if 0 < s.syncSem then some { s with phase := .drain (n + 1), syncSem := s.syncSem - 1 }
      else (s.gator.step .sweep).map fun gator => { s with gator := gator, phase := .sweep n }
    | _ => some s
  | .endSweep =>
    match s.phase with
    | .sweep n => if s.gator.sender = .idle then some { s with phase := .reply n } else some s
    | _ => some s
  | .reply =>
    match s.phase with
    | .reply (n + 1) => some { s with phase := .reply n, syncWaiterSem := s.syncWaiterSem + 1 }
    | .reply 0 => some { s with phase := .top }
    | _ => some s

end SyncState

theorem Phase.taken_le (phase : Phase) : phase.taken ≤ phase.count := by
  cases phase with
  | top => exact Nat.le_refl _
  | drain n => exact Nat.zero_le _
  | sweep n => exact Nat.le_refl _
  | reply n => exact Nat.le_refl _

theorem Phase.replying_le (phase : Phase) : phase.replying ≤ phase.count := by
  cases phase with
  | reply n => exact Nat.le_refl _
  | _ => exact Nat.zero_le _

/-! ## What a loop has seen -/

namespace GatorState

variable {g g' : GatorState τ α} {l l' rest rest' : List α} {lost : α → Prop} {t u : τ}

/-- A node of the list has been seen in the last loop, or in the one before if the sender has not
    come to it. -/
def SeenOk (g : GatorState τ α) (l rest : List α) : Prop :=
  ∀ a ∈ l, ∀ node, g.heap a = some node →
    node.seen ≤ g.sweeps ∧ g.sweeps ≤ node.seen + 1 ∧ (a ∉ rest → g.sweeps ≤ node.seen)

/-- The capturing is on unless it has been stopped since it had been stopped `stops` times. -/
structure On (g : GatorState τ α) (stops : Nat) : Prop where
  le : stops ≤ g.stops
  capturing : g.stops = stops → g.capturing

/-- `gator_send` has been called for all that the thread has written if a loop after the first
    `sweeps` ones has seen its node, and the capturing has not been stopped. -/
def Delivered (g : GatorState τ α) (t : τ) (stops sweeps : Nat) : Prop :=
  ∀ a node, g.app t = .linked a → g.heap a = some node → sweeps < node.seen → g.stops = stops →
    node.handled = node.written

theorem SeenOk.thread (h : SeenOk g l rest) (hframe : ThreadFrame g g')
    (hlocal : ThreadLocal t g l g' l') : SeenOk g' l' rest := by
  intro a ha node' hnode'
  rw [hframe.sweeps]
  rcases hlocal.seen a ha node' hnode' with hseen | ⟨hl, node, hnode, hseen⟩
  · rw [hseen]
    exact ⟨Nat.le_refl _, Nat.le_succ _, fun _ => Nat.le_refl _⟩
  · rw [hseen]
    exact h a hl node hnode

theorem SeenOk.sender (h : SeenOk g l rest) (hframe : SenderFrame g l rest g' l' rest') :
    SeenOk g' l' rest' := by
  intro a ha node' hnode'
  obtain ⟨node, hnode, htreats⟩ := hframe.node a ha node' hnode'
  rw [hframe.sweeps]
  by_cases hcomes : a ∈ rest ∧ a ∉ rest'
  · rw [htreats.seen hcomes]
    exact ⟨Nat.le_refl _, Nat.le_succ _, fun _ => Nat.le_refl _⟩
  · obtain ⟨hle, hahead, hdone⟩ := h a (hframe.mem a ha) node hnode
    rw [htreats.unseen hcomes]
    exact ⟨hle, hahead, fun hnot => hdone fun hrest => hcomes ⟨hrest, hnot⟩⟩

/-- A loop begins, before which every node has been seen. -/
theorem SeenOk.sweep (h : SeenOk g l []) (hheap : g'.heap = g.heap)
    (hsweeps : g'.sweeps = g.sweeps + 1) : SeenOk g' l l := by
  intro a ha node hnode
  rw [hheap] at hnode
  obtain ⟨hle, -, hdone⟩ := h a ha node hnode
  have hseen := hdone List.not_mem_nil
  exact ⟨by omega, by omega, fun hnot => absurd ha hnot⟩

theorem On.thread {stops : Nat} (h : On g stops) (hframe : ThreadFrame g g') : On g' stops where
  le := by
    rw [hframe.stops]
    exact h.le
  capturing := by
    rw [hframe.stops, hframe.capturing]
    exact h.capturing

theorem On.sender {stops : Nat} (h : On g stops) (hframe : SenderFrame g l rest g' l' rest') :
    On g' stops where
  le := h.le.trans hframe.stops
  capturing heq := by
    have hsame : g.stops = stops := Nat.le_antisymm (heq ▸ hframe.stops) h.le
    exact hframe.capturing (heq.trans hsame.symm) (h.capturing hsame)

/-- Another thread makes a step. -/
theorem Delivered.thread {stops sweeps : Nat} (h : Delivered g t stops sweeps)
    (hframe : ThreadFrame g g') (hlocal : ThreadLocal u g l g' l') (hne : t ≠ u) :
    Delivered g' t stops sweeps := by
  intro a node happ hnode
  rw [hlocal.app t hne] at happ
  rw [hlocal.heap t hne a (by rw [happ]; rfl)] at hnode
  rw [hframe.stops]
  exact h a node happ hnode

/-- The sender comes to the node of the thread, or it has been there, or it has not. -/
theorem Delivered.sender {stops sweeps : Nat} (h : Delivered g t stops sweeps) (hon : On g stops)
    (hinv : g'.Inv l' rest' lost) (hframe : SenderFrame g l rest g' l' rest') :
    Delivered g' t stops sweeps := by
  intro a node' happ hnode' hseen hstops
  have hsame : g.stops = stops := Nat.le_antisymm (hstops ▸ hframe.stops) hon.le
  obtain ⟨node, hnode, htreats⟩ := hframe.node a (hinv.linked.linked t a happ) node' hnode'
  rw [hframe.app] at happ
  rw [htreats.written]
  by_cases hcomes : a ∈ rest ∧ a ∉ rest'
  · exact htreats.taken hcomes (hon.capturing hsame) (hstops.trans hsame.symm)
  · rw [htreats.unseen hcomes] at hseen
    have hold := h a node happ hnode hseen hsame
    rcases htreats.handled with heq | heq
    · exact heq.trans hold
    · exact heq

end GatorState

/-! ## The requests -/

namespace SyncState

/-- What is known of a request. -/
structure Counted (s : SyncState τ α) (request : Request) : Prop where
  number : request.number ≤ s.requests
  returned : request.returned ≤ s.returned
  sweeps : request.sweeps ≤ s.gator.sweeps
  taken : request.number ≤ s.returned + s.syncWaiterSem + s.phase.taken →
    request.sweeps < s.gator.sweeps
  answered : request.number ≤ s.returned + s.syncWaiterSem + s.phase.replying →
    request.sweeps < s.completed

/-- Where the sender is outside its loop over the threads. -/
def PlaceOk : Phase → SweepState α → Prop
  | .top, sender => sender = .idle ∨ ∃ cur, sender = .walk cur none
  | .sweep _, _ => True
  | _, sender => sender = .idle

/-- Every request is with the sender, or is answered by a post or a return. -/
structure Inv (s : SyncState τ α) (l rest : List α) (lost : α → Prop) : Prop where
  gator : s.gator.Inv l rest lost
  forked : s.gator.forked = false
  seen : s.gator.SeenOk l rest
  place : PlaceOk s.phase s.gator.sender
  count : s.returned + s.syncWaiterSem + s.phase.count + s.syncSem = s.requests
  entered : ∀ t stops, s.flush t = .entered stops → s.gator.On stops
  on : ∀ t request, (s.flush t).request = some request → s.gator.On request.stops
  counted : ∀ t request, (s.flush t).request = some request → s.Counted request
  delivered : ∀ t request, (s.flush t).request = some request →
    s.gator.Delivered t request.stops request.sweeps

variable {s : SyncState τ α} {l rest : List α} {lost : α → Prop}

theorem inv_setup : (setup : SyncState τ α).Inv [] [] fun _ => False where
  gator := GatorState.inv_setup
  forked := rfl
  seen := nofun
  place := Or.inl rfl
  count := rfl
  entered := nofun
  on := nofun
  counted := nofun
  delivered := nofun

/-- The step is defined and keeps the invariant. -/
def Keeps (lost : α → Prop) (r : Option (SyncState τ α)) : Prop :=
  ∃ s' l' rest', r = some s' ∧ s'.Inv l' rest' lost

theorem completed_of_sweeps {n : Nat} (h : s.phase = .sweep n) :
    s.completed = s.gator.sweeps - 1 :=
  if_pos (by rw [Phase.Sweeps, h]; rfl)

/-- Between two loops, the sender has no node before it. -/
theorem Inv.rest_nil (h : s.Inv l rest lost) (hphase : ¬ s.phase.Sweeps) : rest = [] := by
  have hidle : s.gator.sender = .idle → rest = [] := by
    intro hidle
    have hok := h.gator.sender
    rw [hidle] at hok
    exact hok
  have hplace := h.place
  cases hs : s.phase with
  | top =>
    rw [hs] at hplace
    rcases hplace with hs | ⟨cur, hwalk⟩
    · exact hidle hs
    · have hok := h.gator.sender
      rw [hwalk] at hok
      exact hok.2
  | sweep n => exact absurd (hs ▸ rfl : s.phase.Sweeps) hphase
  | drain n =>
    rw [hs] at hplace
    exact hidle hplace
  | reply n =>
    rw [hs] at hplace
    exact hidle hplace

theorem Inv.keeps (h : s.Inv l rest lost) : Keeps lost (some s) := ⟨s, l, rest, rfl, h⟩

/-- What is counted of a request does not change when the list does. -/
theorem Counted.gator {g : GatorState τ α} {request : Request} (h : s.Counted request)
    (hsweeps : g.sweeps = s.gator.sweeps) :
    ({ s with gator := g } : SyncState τ α).Counted request := by
  refine ⟨h.number, h.returned, ?_, ?_, ?_⟩
  · rw [hsweeps]
    exact h.sweeps
  · rw [hsweeps]
    exact h.taken
  · rw [completed, hsweeps]
    exact h.answered

/-- The sender goes on outside its loop. -/
theorem Inv.setPhase {s' : SyncState τ α} (h : s.Inv l rest lost) (hgator : s'.gator = s.gator)
    (hflush : s'.flush = s.flush) (hplace : PlaceOk s'.phase s.gator.sender)
    (hcount : s'.returned + s'.syncWaiterSem + s'.phase.count + s'.syncSem = s'.requests)
    (hcounted : ∀ request, s.Counted request → s'.Counted request) : s'.Inv l rest lost := by
  refine ⟨hgator ▸ h.gator, hgator ▸ h.forked, hgator ▸ h.seen, ?_, hcount, ?_, ?_, ?_, ?_⟩
  · rw [hgator]
    exact hplace
  · rw [hgator, hflush]
    exact h.entered
  · rw [hgator, hflush]
    exact h.on
  · rw [hflush]
    exact fun t r ht => hcounted r (h.counted t r ht)
  · rw [hgator, hflush]
    exact h.delivered

variable [DecidableEq τ]

/-- A thread goes on in its flush. -/
theorem Inv.setFlush {s' : SyncState τ α} {t : τ} {state : FlushState} (h : s.Inv l rest lost)
    (hgator : s'.gator = s.gator) (hphase : s'.phase = s.phase)
    (hflush : s'.flush = Function.update s.flush t state)
    (hcount : s'.returned + s'.syncWaiterSem + s'.phase.count + s'.syncSem = s'.requests)
    (hcounted : ∀ request, s.Counted request → s'.Counted request)
    (hentered : ∀ stops, state = .entered stops → s.gator.On stops)
    (hrequest : ∀ request, state.request = some request → s.gator.On request.stops ∧
      s'.Counted request ∧ s.gator.Delivered t request.stops request.sweeps) :
    s'.Inv l rest lost := by
  have hupdate : ∀ {u r}, (s'.flush u).request = some r →
      u = t ∧ state.request = some r ∨ (s.flush u).request = some r := by
    intro u r hu
    rw [hflush, Function.update_apply] at hu
    split_ifs at hu with hut
    · exact Or.inl ⟨hut, hu⟩
    · exact Or.inr hu
  refine ⟨hgator ▸ h.gator, hgator ▸ h.forked, hgator ▸ h.seen, ?_, hcount, fun u stops hu => ?_,
    fun u r hu => ?_, fun u r hu => ?_, fun u r hu => ?_⟩
  · rw [hphase, hgator]
    exact h.place
  · rw [hflush, Function.update_apply] at hu
    rw [hgator]
    split_ifs at hu with hut
    · exact hentered stops hu
    · exact h.entered u stops hu
  · rw [hgator]
    rcases hupdate hu with ⟨-, hnew⟩ | hold
    · exact (hrequest r hnew).1
    · exact h.on u r hold
  · rcases hupdate hu with ⟨-, hnew⟩ | hold
    · exact (hrequest r hnew).2.1
    · exact hcounted r (h.counted u r hold)
  · rw [hgator]
    rcases hupdate hu with ⟨rfl, hnew⟩ | hold
    · exact (hrequest r hnew).2.2
    · exact h.delivered u r hold

variable [DecidableEq α]

theorem Inv.enter (h : s.Inv l rest lost) (t : τ) : Keeps lost (s.step (.enter t)) := by
  rw [step]
  split_ifs with hguard
  · refine ⟨_, l, rest, rfl, h.setFlush rfl rfl rfl h.count (fun r hr => ?_) (fun stops heq => ?_)
      nofun⟩
    · exact ⟨hr.number, hr.returned, hr.sweeps, hr.taken, hr.answered⟩
    · cases heq
      exact ⟨Nat.le_refl _, fun _ => hguard.2.2⟩
  · exact h.keeps

/-- A request is made. No loop has counted it. -/
theorem Inv.request (h : s.Inv l rest lost) (t : τ) : Keeps lost (s.step (.request t)) := by
  rw [step]
  cases ht : s.flush t with
  | entered stops =>
    have hcount := h.count
    have htaken := Phase.taken_le s.phase
    have hreplying := Phase.replying_le s.phase
    refine ⟨_, l, rest, rfl, h.setFlush rfl rfl rfl ?_ (fun r hr => ?_) nofun fun r hr => ?_⟩
    · show s.returned + s.syncWaiterSem + s.phase.count + (s.syncSem + 1) = s.requests + 1
      omega
    · exact ⟨Nat.le_succ_of_le hr.number, hr.returned, hr.sweeps, hr.taken, hr.answered⟩
    · cases hr
      refine ⟨h.entered t stops ht, ⟨Nat.le_refl _, Nat.le_refl _, Nat.le_refl _, fun hle => ?_,
        fun hle => ?_⟩, fun a node happ hnode hseen => ?_⟩
      · have hle' : s.requests + 1 ≤ s.returned + s.syncWaiterSem + s.phase.taken := hle
        omega
      · have hle' : s.requests + 1 ≤ s.returned + s.syncWaiterSem + s.phase.replying := hle
        omega
      · have hle := (h.seen a (h.gator.linked.linked t a happ) node hnode).1
        exact absurd hseen (Nat.not_lt.mpr hle)
  | _ => exact h.keeps

theorem Inv.wakeSender (h : s.Inv l rest lost) (t : τ) : Keeps lost (s.step (.wakeSender t)) := by
  rw [step]
  cases ht : s.flush t with
  | posted request =>
    have hold : (s.flush t).request = some request := by rw [ht]; rfl
    have hc := h.counted t request hold
    refine ⟨_, l, rest, rfl, h.setFlush rfl rfl rfl h.count (fun r hr => ?_) nofun fun r hr => ?_⟩
    · exact ⟨hr.number, hr.returned, hr.sweeps, hr.taken, hr.answered⟩
    · cases hr
      exact ⟨h.on t request hold, ⟨hc.number, hc.returned, hc.sweeps, hc.taken, hc.answered⟩,
        h.delivered t request hold⟩
  | _ => exact h.keeps

theorem Inv.finish (h : s.Inv l rest lost) (t : τ) : Keeps lost (s.step (.finish t)) := by
  rw [step]
  cases ht : s.flush t with
  | waiting request =>
    dsimp only
    split_ifs with hpost
    · have hcount := h.count
      have hsum : s.returned + 1 + (s.syncWaiterSem - 1) = s.returned + s.syncWaiterSem := by omega
      refine ⟨_, l, rest, rfl, h.setFlush rfl rfl rfl ?_ (fun r hr => ?_) nofun nofun⟩
      · show s.returned + 1 + (s.syncWaiterSem - 1) + s.phase.count + s.syncSem = s.requests
        omega
      · refine ⟨hr.number, Nat.le_succ_of_le hr.returned, hr.sweeps, fun hle => hr.taken ?_,
          fun hle => hr.answered ?_⟩
        · have hle' : r.number ≤ s.returned + 1 + (s.syncWaiterSem - 1) + s.phase.taken := hle
          omega
        · have hle' : r.number ≤ s.returned + 1 + (s.syncWaiterSem - 1) + s.phase.replying := hle
          omega
    · exact h.keeps
  | _ => exact h.keeps

/-- Outside its loop, the sender stays there until the next one begins. -/
theorem PlaceOk.step {g g' : GatorState τ α} {action : GatorAction τ α}
    (h : PlaceOk .top g.sender) (hallowed : action.bySender ∨ action.switches)
    (hstep : g.step action = some g') : PlaceOk .top g'.sender := by
  have hsame : g' = g → PlaceOk .top g'.sender := by
    rintro rfl
    exact h
  cases action with
  | sender ok =>
    rw [GatorState.step, GatorState.senderStep] at hstep
    rcases h with hidle | ⟨cur, hwalk⟩
    · rw [hidle] at hstep
      exact hsame (Option.some.inj hstep).symm
    · rw [hwalk] at hstep
      cases cur with
      | none =>
        obtain rfl := Option.some.inj hstep
        exact Or.inl rfl
      | some b =>
        obtain ⟨node, -, rfl⟩ := Option.map_eq_some_iff.mp hstep
        exact Or.inr ⟨node.next, rfl⟩
  | start =>
    rw [GatorState.step] at hstep
    split_ifs at hstep
    · obtain rfl := Option.some.inj hstep
      exact h
    · exact hsame (Option.some.inj hstep).symm
  | stop =>
    rw [GatorState.step] at hstep
    split_ifs at hstep
    · obtain rfl := Option.some.inj hstep
      exact Or.inr ⟨g.threads, rfl⟩
    · exact hsame (Option.some.inj hstep).symm
  | _ => exact absurd hallowed (by simp [GatorAction.bySender, GatorAction.switches])

theorem Inv.gatorStep (h : s.Inv l rest lost) (action : GatorAction τ α) :
    Keeps lost (s.step (.gator action)) := by
  rw [step]
  split_ifs with hallows
  · cases hthread : action.thread with
    | some u =>
      have hflush : s.flush u = .idle := by
        rcases hallows with ⟨v, hv, hidle⟩ | ⟨hsender, -⟩ | ⟨hswitch, -⟩
        · rw [hthread] at hv
          obtain rfl := Option.some.inj hv
          exact hidle
        · rw [GatorAction.thread_of_bySender hsender] at hthread
          cases hthread
        · rw [GatorAction.thread_of_switches hswitch] at hthread
          cases hthread
      obtain ⟨g, l', hstep, hinv, hframe, hlocal⟩ := h.gator.step_thread hthread
      rw [hstep, Option.map_some]
      refine ⟨_, l', rest, rfl, hinv, hframe.forked.trans h.forked, h.seen.thread hframe hlocal, ?_,
        h.count, fun t stops ht => (h.entered t stops ht).thread hframe,
        fun t r ht => (h.on t r ht).thread hframe, fun t r ht => ?_, fun t r ht => ?_⟩
      · dsimp only
        rw [hframe.sender]
        exact h.place
      · exact (h.counted t r ht).gator hframe.sweeps
      · refine (h.delivered t r ht).thread hframe hlocal ?_
        rintro rfl
        rw [hflush] at ht
        cases ht
    | none =>
      have hallowed : (action.bySender ∨ action.switches) ∧ (s.phase = .top ∨ s.phase.Sweeps) := by
        rcases hallows with ⟨v, hv, -⟩ | ⟨hsender, hphase⟩ | ⟨hswitch, hphase⟩
        · rw [hthread] at hv
          cases hv
        · exact ⟨Or.inl hsender, hphase⟩
        · exact ⟨Or.inr hswitch, Or.inl hphase⟩
      have halong : action.Along := by
        obtain ⟨hkind, -⟩ := hallowed
        cases action with
        | fork t => rcases hkind with hkind | hkind <;> cases hkind
        | sweep => rcases hkind with hkind | hkind <;> cases hkind
        | _ => trivial
      obtain ⟨g, l', rest', hstep, hinv, -, hframe⟩ := h.gator.step_sender halong hthread
      rw [hstep, Option.map_some]
      refine ⟨_, l', rest', rfl, hinv, hframe.forked h.forked, h.seen.sender hframe, ?_, h.count,
        fun t stops ht => (h.entered t stops ht).sender hframe,
        fun t r ht => (h.on t r ht).sender hframe, fun t r ht => ?_, fun t r ht => ?_⟩
      · have hplace := h.place
        dsimp only
        rcases hallowed.2 with hphase | hphase
        · rw [hphase] at hplace ⊢
          exact hplace.step hallowed.1 hstep
        · rw [hphase]
          trivial
      · exact (h.counted t r ht).gator hframe.sweeps
      · exact (h.delivered t r ht).sender (h.on t r ht) hinv hframe
  · exact h.keeps

theorem Inv.wake (h : s.Inv l rest lost) : Keeps lost (s.step .wake) := by
  rw [step]
  split_ifs with hguard
  · refine ⟨_, l, rest, rfl, h.setPhase rfl rfl hguard.2 ?_ fun r hr => ?_⟩
    · have hcount := h.count
      rw [hguard.1] at hcount
      exact hcount
    · obtain ⟨hnumber, hreturned, hsweeps, htaken, hanswered⟩ := hr
      rw [completed, hguard.1] at hanswered
      rw [hguard.1] at htaken
      exact ⟨hnumber, hreturned, hsweeps, htaken, hanswered⟩
  · exact h.keeps

theorem Inv.endSweep (h : s.Inv l rest lost) : Keeps lost (s.step .endSweep) := by
  rw [step]
  cases hphase : s.phase with
  | sweep n =>
    dsimp only
    split_ifs with hidle
    · refine ⟨_, l, rest, rfl, h.setPhase rfl rfl hidle ?_ fun r hr => ?_⟩
      · have hcount := h.count
        rw [hphase] at hcount
        exact hcount
      · -- The requests that are answered now had been counted before this loop began.
        obtain ⟨hnumber, hreturned, hsweeps, htaken, -⟩ := hr
        rw [hphase] at htaken
        exact ⟨hnumber, hreturned, hsweeps, htaken, htaken⟩
    · exact h.keeps
  | _ => exact h.keeps

theorem Inv.reply (h : s.Inv l rest lost) : Keeps lost (s.step .reply) := by
  have hcount := h.count
  have hplace := h.place
  rw [step]
  cases hphase : s.phase with
  | reply n =>
    rw [hphase] at hcount hplace
    cases n with
    | zero =>
      refine ⟨_, l, rest, rfl, h.setPhase rfl rfl (Or.inl hplace) hcount fun r hr => ?_⟩
      obtain ⟨hnumber, hreturned, hsweeps, htaken, hanswered⟩ := hr
      rw [completed, hphase] at hanswered
      rw [hphase] at htaken
      exact ⟨hnumber, hreturned, hsweeps, htaken, hanswered⟩
    | succ n =>
      have hsum : s.returned + (s.syncWaiterSem + 1) + n =
          s.returned + s.syncWaiterSem + (n + 1) := by
        omega
      refine ⟨_, l, rest, rfl, h.setPhase rfl rfl hplace ?_ fun r hr => ?_⟩
      · show s.returned + (s.syncWaiterSem + 1) + n + s.syncSem = s.requests
        rw [hsum]
        exact hcount
      · obtain ⟨hnumber, hreturned, hsweeps, htaken, hanswered⟩ := hr
        rw [completed, hphase] at hanswered
        rw [hphase] at htaken
        refine ⟨hnumber, hreturned, hsweeps, fun hle => htaken ?_, fun hle => hanswered ?_⟩
        · exact hsum ▸ hle
        · exact hsum ▸ hle
  | _ => exact h.keeps

theorem Inv.drain (h : s.Inv l rest lost) : Keeps lost (s.step .drain) := by
  have hcount := h.count
  have hplace := h.place
  rw [step]
  cases hphase : s.phase with
  | drain n =>
    rw [hphase] at hcount hplace
    dsimp only
    split_ifs with hposted
    · refine ⟨_, l, rest, rfl, h.setPhase rfl rfl hplace ?_ fun r hr => ?_⟩
      · have hsum : s.returned + s.syncWaiterSem + n + s.syncSem = s.requests := hcount
        show s.returned + s.syncWaiterSem + (n + 1) + (s.syncSem - 1) = s.requests
        omega
      · obtain ⟨hnumber, hreturned, hsweeps, htaken, hanswered⟩ := hr
        rw [completed, hphase] at hanswered
        rw [hphase] at htaken
        exact ⟨hnumber, hreturned, hsweeps, htaken, hanswered⟩
    · have hidle : s.gator.sender = .idle := hplace
      have hrest : rest = [] := by
        have hok := h.gator.sender
        rw [hidle] at hok
        exact hok
      obtain ⟨g, hstep, hinv, -⟩ := h.gator.step_sweep hidle h.forked
      rw [hstep, Option.map_some]
      rw [GatorState.step, if_pos ⟨hidle, h.forked⟩] at hstep
      obtain rfl := Option.some.inj hstep
      refine ⟨_, l, l, rfl, hinv, h.forked, (hrest ▸ h.seen).sweep rfl rfl, trivial, hcount,
        fun t stops ht => ⟨(h.entered t stops ht).le, (h.entered t stops ht).capturing⟩,
        fun t r ht => ⟨(h.on t r ht).le, (h.on t r ht).capturing⟩, fun t r ht => ?_, h.delivered⟩
      obtain ⟨hnumber, hreturned, hsweeps, htaken, hanswered⟩ := h.counted t r ht
      rw [completed, hphase] at hanswered
      refine ⟨hnumber, hreturned, Nat.le_succ_of_le hsweeps, fun _ => Nat.lt_succ_of_le hsweeps,
        fun hle => ?_⟩
      have hlt : r.sweeps < s.gator.sweeps := hanswered hle
      refine lt_of_lt_of_eq hlt (Eq.symm ?_)
      exact completed_of_sweeps rfl
  | _ => exact h.keeps

theorem Inv.step (h : s.Inv l rest lost) (action : SyncAction τ α) :
    Keeps lost (s.step action) := by
  cases action with
  | enter t => exact h.enter t
  | request t => exact h.request t
  | wakeSender t => exact h.wakeSender t
  | finish t => exact h.finish t
  | gator action => exact h.gatorStep action
  | wake => exact h.wake
  | drain => exact h.drain
  | endSweep => exact h.endSweep
  | reply => exact h.reply

theorem Inv.run (h : s.Inv l rest lost) (actions : List (SyncAction τ α)) :
    Keeps lost (Misc.run SyncState.step s actions) := by
  induction actions generalizing s l rest with
  | nil => exact h.keeps
  | cons action actions ih =>
    obtain ⟨s₁, l₁, rest₁, hstep, hinv₁⟩ := h.step action
    rw [run_cons, hstep]
    exact ih hinv₁

/-- Whatever the threads and the sender do, in any order: every request has been answered and
    taken, or waits to be counted, to be answered or to be taken. A flush that was requested when
    every earlier one had returned, and that can return now, comes after a whole loop that began
    after its request: every node of the list has been seen in such a loop, or was linked after
    one began. `gator_send` has been called for all that the thread itself has written, unless the
    capturing was stopped in between (a short write may leave bytes for the next loop). -/
theorem flush_returns (actions : List (SyncAction τ α)) :
    ∃ s l, Misc.run SyncState.step (setup : SyncState τ α) actions = some s ∧
      Chain (linkOf s.gator.shape) s.gator.threads l ∧
      s.returned + s.syncWaiterSem + s.phase.count + s.syncSem = s.requests ∧
      ∀ t request, s.flush t = .waiting request → 0 < s.syncWaiterSem →
        request.number = request.returned + 1 →
        (∀ a ∈ l, ∀ node, s.gator.heap a = some node → request.sweeps < node.seen) ∧
        ∀ a node, s.gator.app t = .linked a → s.gator.heap a = some node →
          s.gator.stops = request.stops → node.handled = node.written := by
  obtain ⟨s, l, rest, hrun, hinv⟩ := inv_setup.run actions
  refine ⟨s, l, hrun, hinv.gator.linked.chain, hinv.count, fun t r ht hpost hlone => ?_⟩
  have hold : (s.flush t).request = some r := by rw [ht]; rfl
  have hcounted := hinv.counted t r hold
  have hanswered : r.sweeps < s.completed := by
    have hreturned := hcounted.returned
    exact hcounted.answered (by omega)
  have hseen : ∀ a ∈ l, ∀ node, s.gator.heap a = some node → r.sweeps < node.seen := by
    intro a ha node hnode
    obtain ⟨-, hahead, hdone⟩ := hinv.seen a ha node hnode
    by_cases hphase : s.phase.Sweeps
    · rw [completed_of_sweeps hphase] at hanswered
      omega
    · rw [completed, if_neg hphase] at hanswered
      have hrest : rest = [] := hinv.rest_nil hphase
      rw [hrest] at hdone
      exact hanswered.trans_le (hdone List.not_mem_nil)
  exact ⟨hseen, fun a node happ hnode => hinv.delivered t r hold a node happ hnode
    (hseen a (hinv.gator.linked.linked t a happ) node hnode)⟩

end SyncState

end LibCollector.Streamline
