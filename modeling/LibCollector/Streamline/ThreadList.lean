import LibCollector.Misc.Chain
import LibCollector.Misc.Run

/-!
# The list of threads

`gator_state.threads` of `src/collectors/streamline_annotate.cpp`: any number of threads put their
nodes in front of the list by a compare and swap (`gator_get_thread`) and mark them when they exit
(`gator_destructor`), while the sender walks over the list, and takes out and frees the nodes of
threads that have exited (`gator_func`). A step is one access to the shared memory. An access to a
node that is not allocated is undefined, and the step is `none`. The addresses are those of
`malloc`, so the address of a freed node can come again at any time.
-/

namespace LibCollector.Streamline

open LibCollector.Misc

variable {τ α : Type*}

/-! ## States -/

/-- The fields of `struct gator_thread` for the list. The last three count, for the proofs, the
    messages in the buffer, those that `gator_send` has been called for or that have been dropped
    (how many bytes a call takes is not part of it), and the sweep of the sender that has seen the
    node last, or that it was linked in. -/
structure ThreadNode (α : Type*) where
  next : Option α := none
  exited : Bool := false
  written : Nat := 0
  handled : Nat := 0
  seen : Nat := 0
  deriving DecidableEq

/-- Where a thread is, with its node: not in `gator_get_thread` and with no key; before
    `pthread_setspecific`; before each of the two accesses in the loop; or with a linked node. -/
inductive AppState (α : Type*) where
  | idle
  | fresh (a : α)
  | load (a : α)
  | swap (a : α)
  | linked (a : α)
  deriving DecidableEq

/-- What `prev` points to: `gator_state.threads`, or `next` of a node. -/
inductive Prev (α : Type*) where
  | head
  | link (a : α)
  deriving DecidableEq

/-- Where the sender is: outside its loop over the threads, or before one of the accesses in it.
    `walk` is the loop of `gator_stop_capturing`, with what the sender goes back to, and `mark` the
    one of `gator_annotate_fork_child`. -/
inductive SweepState (α : Type*) where
  | idle
  | load (b : α)
  | visit (prev : Prev α) (a : α)
  | fetch (prev : Prev α) (a : α)
  | test (prev : Prev α) (a : α) (next : Option α)
  | swap (prev : Prev α) (a : α) (next : Option α)
  | release (prev : Prev α) (a : α) (next : Option α)
  | walk (cur : Option α) (back : Option (Prev α × α))
  | mark (cur : Option α)
  deriving DecidableEq

/-- `gator_state`, the memory and where the threads are. `sweeps` and `stops` count the loops over
    the threads and the times that the capturing was stopped. The lists are the history of the
    last loop: the nodes it has come to, those it has freed, and those that it failed to take
    out. -/
structure GatorState (τ α : Type*) where
  threads : Option α
  heap : α → Option (ThreadNode α)
  app : τ → AppState α
  sender : SweepState α
  capturing : Bool
  forked : Bool
  sweeps : Nat
  stops : Nat
  visited : List α
  released : List α
  missed : List α

/-- A step of a thread, which is named, or of the sender. The sender is told if its calls of
    `gator_connect` and `gator_send` succeed. `start` and `stop` are the calls of
    `gator_start_capturing` and `gator_stop_capturing` outside the loop over the threads. -/
inductive GatorAction (τ α : Type*) where
  | malloc (t : τ) (a : α)
  | giveUp (t : τ)
  | keySet (t : τ)
  | load (t : τ)
  | swap (t : τ)
  | write (t : τ)
  | exit (t : τ)
  | fork (t : τ)
  | startSender
  | start
  | stop
  | sweep
  | sender (ok : Bool)

/-- Where the sender is when it tests the condition of its loop. -/
def SweepState.loop (prev : Prev α) : Option α → SweepState α
  | none => .idle
  | some a => .visit prev a

/-- The process does not fork, and no loop over the threads begins. -/
def GatorAction.Along : GatorAction τ α → Prop
  | .fork _ => False
  | .sweep => False
  | _ => True

/-- The thread that makes a step, if it is none of the sender, a fork or the start of a sender. -/
def GatorAction.thread : GatorAction τ α → Option τ
  | .malloc t _ => some t
  | .giveUp t => some t
  | .keySet t => some t
  | .load t => some t
  | .swap t => some t
  | .write t => some t
  | .exit t => some t
  | _ => none

/-- The calls of `gator_connect` and `gator_send` succeed, and the capturing is not stopped. -/
def GatorAction.Succeeds : GatorAction τ α → Prop
  | .stop => False
  | .sender ok => ok = true
  | _ => True

/-- A step of the sender in its loop over the threads. -/
def GatorAction.bySender : GatorAction τ α → Bool
  | .sender _ => true
  | _ => false

/-- A call of `gator_start_capturing` or `gator_stop_capturing` outside the loop. -/
def GatorAction.switches : GatorAction τ α → Bool
  | .start => true
  | .stop => true
  | _ => false

theorem GatorAction.thread_of_bySender {action : GatorAction τ α} (h : action.bySender) :
    action.thread = none := by
  cases action with
  | sender ok => rfl
  | _ => cases h

theorem GatorAction.thread_of_switches {action : GatorAction τ α} (h : action.switches) :
    action.thread = none := by
  cases action with
  | start => rfl
  | stop => rfl
  | _ => cases h

/-- The node of a thread. -/
def AppState.node : AppState α → Option α
  | .idle => none
  | .fresh a => some a
  | .load a => some a
  | .swap a => some a
  | .linked a => some a

/-- The node of a thread as long as it is not linked. -/
def AppState.own : AppState α → Option α
  | .fresh a => some a
  | .load a => some a
  | .swap a => some a
  | _ => none

/-- The node that has been taken out of the list and not been freed yet. -/
def SweepState.unlinked : SweepState α → Option α
  | .release _ a _ => some a
  | _ => none

/-- The sender is the thread that has forked, which marks the nodes of the others. -/
def SweepState.marks : SweepState α → Bool
  | .mark _ => true
  | _ => false

namespace GatorState

/-- After `gator_annotate_setup`. -/
def setup : GatorState τ α where
  threads := none
  heap _ := none
  app _ := .idle
  sender := .idle
  capturing := true
  forked := false
  sweeps := 0
  stops := 0
  visited := []
  released := []
  missed := []

/-- `next` and `exited` of the nodes. -/
def shape (s : GatorState τ α) (a : α) : Option (Option α × Bool) :=
  (s.heap a).map fun node => (node.next, node.exited)

variable [DecidableEq τ] [DecidableEq α]

/-- A store to a node. -/
def setNode (s : GatorState τ α) (a : α) (node : ThreadNode α) : GatorState τ α :=
  { s with heap := Function.update s.heap a (some node) }

/-- `free`. -/
def freeNode (s : GatorState τ α) (a : α) : GatorState τ α :=
  { s with heap := Function.update s.heap a none }

/-- Where a thread is next. -/
def setApp (s : GatorState τ α) (t : τ) (state : AppState α) : GatorState τ α :=
  { s with app := Function.update s.app t state }

/-- The condition of the loop over the threads. -/
def goTo (s : GatorState τ α) (prev : Prev α) (thread : Option α) : GatorState τ α :=
  { s with sender := .loop prev thread }

/-- The compare and swap of the sender fails. The list has changed, get it next time. -/
def miss (s : GatorState τ α) (a : α) : GatorState τ α :=
  { s with missed := s.missed ++ [a], sender := .load a }

/-- A step of the sender. A visit calls `gator_send` for all that has been written; that it may send
    less is left to the model of the buffers. -/
def senderStep (s : GatorState τ α) (ok : Bool) : Option (GatorState τ α) :=
  match s.sender with
  | .idle => some s
  | .load b => (s.heap b).map fun node => s.goTo (.link b) node.next
  | .visit prev a =>
    (s.heap a).map fun node =>
      let s := { s with visited := s.visited ++ [a] }
      if s.capturing then
        if ok then
          { s.setNode a { node with handled := node.written, seen := s.sweeps } with
            sender := .fetch prev a }
        else
          -- `gator_stop_capturing`
          { s.setNode a { node with seen := s.sweeps } with
            capturing := false
            stops := s.stops + 1
            sender := .walk s.threads (some (prev, a)) }
      else
        { s.setNode a { node with seen := s.sweeps } with sender := .fetch prev a }
  | .fetch prev a => (s.heap a).map fun node => { s with sender := .test prev a node.next }
  | .test prev a next =>
    (s.heap a).map fun node =>
      if node.exited then { s with sender := .swap prev a next } else { s with sender := .load a }
  | .swap .head a next =>
    some (if s.threads = some a then { s with threads := next, sender := .release .head a next }
      else s.miss a)
  | .swap (.link b) a next =>
    (s.heap b).map fun node =>
      if node.next = some a then
        { s.setNode b { node with next := next } with sender := .release (.link b) a next }
      else s.miss a
  | .release prev a next =>
    (s.heap a).map fun _ => ({ s.freeNode a with released := s.released ++ [a] }).goTo prev next
  | .walk none none => some { s with sender := .idle }
  | .walk none (some (prev, a)) => some { s with sender := .fetch prev a }
  | .walk (some b) back =>
    (s.heap b).map fun node =>
      { s.setNode b { node with handled := node.written } with sender := .walk node.next back }
  | .mark none => some { s with sender := .idle }
  | .mark (some b) =>
    (s.heap b).map fun node =>
      { s.setNode b { node with exited := true, handled := node.written } with
        sender := .mark node.next }

/-- A step that is not possible in a state leaves it as it is. `malloc` gives an address that is
    not allocated. -/
def step (s : GatorState τ α) : GatorAction τ α → Option (GatorState τ α)
  | .malloc t a =>
    if s.app t = .idle ∧ s.capturing ∧ s.forked = false ∧ (s.heap a).isNone then
      some ((s.setNode a {}).setApp t (.fresh a))
    else some s
  | .giveUp t =>
    match s.app t with
    | .fresh a => (s.heap a).map fun _ => (s.freeNode a).setApp t .idle
    | _ => some s
  | .keySet t =>
    match s.app t with
    | .fresh a => some (s.setApp t (.load a))
    | _ => some s
  | .load t =>
    match s.app t with
    | .load a =>
      (s.heap a).map fun node => (s.setNode a { node with next := s.threads }).setApp t (.swap a)
    | _ => some s
  | .swap t =>
    match s.app t with
    | .swap a =>
      (s.heap a).map fun node =>
        if s.threads = node.next then
          { (s.setNode a { node with seen := s.sweeps }).setApp t (.linked a) with
            threads := some a }
        else s.setApp t (.load a)
    | _ => some s
  | .write t =>
    match s.app t with
    | .linked a => (s.heap a).map fun node => s.setNode a { node with written := node.written + 1 }
    | _ => some s
  | .exit t =>
    match s.app t with
    | .linked a =>
      (s.heap a).map fun node => (s.setNode a { node with exited := true }).setApp t .idle
    | _ => some s
  | .fork t =>
    -- Only the calling thread is in the child, and its key is reset.
    if (s.app t).own = none then
      some { s with app := fun _ => .idle, sender := .mark s.threads, forked := true }
    else some s
  | .startSender => if s.sender = .idle then some { s with forked := false } else some s
  | .start =>
    if s.sender = .idle ∧ s.forked = false then some { s with capturing := true } else some s
  | .stop =>
    if s.sender = .idle ∧ s.forked = false ∧ s.capturing then
      some { s with capturing := false, stops := s.stops + 1, sender := .walk s.threads none }
    else some s
  | .sweep =>
    if s.sender = .idle ∧ s.forked = false then
      some (({ s with
        sweeps := s.sweeps + 1, visited := [], released := [], missed := [] }).goTo .head s.threads)
    else some s
  | .sender ok => s.senderStep ok

end GatorState

/-! ## The list and its nodes -/

/-- The links, of a memory with the other flags left out. -/
def linkOf (shape : α → Option (Option α × Bool)) (a : α) : Option (Option α) :=
  (shape a).map Prod.fst

/-- A node of a thread that has exited. -/
def Dead (shape : α → Option (Option α × Bool)) (a : α) : Prop := ∃ q, shape a = some (q, true)

/-- The list has the nodes `l`. The nodes of the threads are allocated and not shared. They are in
    the list when they have been linked, and not before. Every node in the memory is in the list or
    belongs to a thread, apart from those in `out`. -/
structure Linked (shape : α → Option (Option α × Bool)) (threads : Option α)
    (app : τ → AppState α) (l : List α) (out : α → Prop) : Prop where
  chain : Chain (linkOf shape) threads l
  live : ∀ t a, (app t).node = some a → ∃ q, shape a = some (q, false)
  inj : ∀ t u a, (app t).node = some a → (app u).node = some a → t = u
  linked : ∀ t a, app t = .linked a → a ∈ l
  apart : ∀ t a, (app t).own = some a → a ∉ l
  kept : ∀ a, (shape a).isSome → a ∈ l ∨ (∃ t, (app t).own = some a) ∨ out a

theorem AppState.node_of_own {state : AppState α} {a : α} (h : state.own = some a) :
    state.node = some a := by
  cases state <;> first | exact h | cases h

namespace Linked

variable {shape : α → Option (Option α × Bool)} {threads : Option α} {app : τ → AppState α}
  {l pre rest : List α} {out out' : α → Prop} {t : τ} {a b : α}

theorem mono (h : Linked shape threads app l out) (hout : ∀ a, out a → out' a) :
    Linked shape threads app l out' where
  chain := h.chain
  live := h.live
  inj := h.inj
  linked := h.linked
  apart := h.apart
  kept a ha := (h.kept a ha).imp_right (Or.imp_right (hout a))

/-- No thread has the node of a thread that has exited. -/
theorem not_dead (h : Linked shape threads app l out) (ht : (app t).node = some a) :
    ¬ Dead shape a := by
  rintro ⟨q, hq⟩
  obtain ⟨q', hq'⟩ := h.live t a ht
  rw [hq] at hq'
  simp at hq'

theorem isSome_of_mem (h : Linked shape threads app l out) (ha : a ∈ l) : (shape a).isSome := by
  obtain ⟨q, hq⟩ := h.chain.next_isSome ha
  cases hshape : shape a with
  | none => simp [linkOf, hshape] at hq
  | some cell => rfl

theorem next_eq (h : Linked shape threads app (pre ++ a :: rest) out) {cell : Option α × Bool}
    (ha : shape a = some cell) : cell.1 = rest.head? := by
  have hnext := h.chain.next_eq
  rw [linkOf, ha] at hnext
  exact Option.some.inj hnext

theorem ne_of_node (h : Linked shape threads app l out) (ha : shape a = none)
    (ht : (app t).node = some b) : b ≠ a := by
  rintro rfl
  obtain ⟨q, hq⟩ := h.live t b ht
  rw [ha] at hq
  cases hq

theorem not_mem_of_none (h : Linked shape threads app l out) (ha : shape a = none) : a ∉ l := by
  intro hmem
  have hsome := h.isSome_of_mem hmem
  rw [ha] at hsome
  cases hsome

/-- The first node is taken out. -/
theorem unlinkHead (h : Linked shape threads app (a :: rest) out) (ha : Dead shape a) :
    Linked shape rest.head? app rest fun b => out b ∨ b = a where
  chain := h.chain.unlink_head
  live := h.live
  inj := h.inj
  linked u b hb := by
    have hne : b ≠ a := by
      rintro rfl
      exact h.not_dead (by rw [hb]; rfl) ha
    exact List.mem_of_ne_of_mem hne (h.linked u b hb)
  apart u b hb := fun hl => h.apart u b hb (List.mem_cons_of_mem _ hl)
  kept b hb := by
    rcases h.kept b hb with hl | howned | hout
    · rcases List.mem_cons.mp hl with rfl | hl
      · exact Or.inr (Or.inr (Or.inr rfl))
      · exact Or.inl hl
    · exact Or.inr (Or.inl howned)
    · exact Or.inr (Or.inr (Or.inl hout))

/-- In a forked process, the other threads are gone, and so are the nodes that they had not
    linked. -/
theorem dropAll (h : Linked shape threads app l out) :
    Linked shape threads (fun _ : τ => .idle) l fun b => (shape b).isSome ∧ b ∉ l where
  chain := h.chain
  live _ _ hb := nomatch hb
  inj _ _ _ hb := nomatch hb
  linked _ _ hb := nomatch hb
  apart _ _ hb := nomatch hb
  kept b hb := by
    by_cases hl : b ∈ l
    · exact Or.inl hl
    · exact Or.inr (Or.inr ⟨hb, hl⟩)

section threads

variable [DecidableEq τ]

/-- What is read of the threads after one of them has moved. -/
theorem update_eq_some_iff {β : Type*} (f : AppState α → Option β) {state : AppState α} {u : τ}
    {x : β} :
    f (Function.update app t state u) = some x ↔
      u = t ∧ f state = some x ∨ u ≠ t ∧ f (app u) = some x := by
  rw [Function.update_apply]
  split_ifs with hu <;> simp [hu]

theorem update_eq_linked_iff {state : AppState α} {u : τ} :
    Function.update app t state u = .linked a ↔
      u = t ∧ state = .linked a ∨ u ≠ t ∧ app u = .linked a := by
  rw [Function.update_apply]
  split_ifs with hu <;> simp [hu]

/-- A thread goes on with the same node, which is not linked. -/
theorem advance (h : Linked shape threads app l out) {state : AppState α}
    (hown : (app t).own = some a) (hstate : state.own = some a) :
    Linked shape threads (Function.update app t state) l out := by
  have hnode : ∀ u, (Function.update app t state u).node = (app u).node := by
    intro u
    rw [Function.update_apply]
    split_ifs with hu
    · rw [hu, AppState.node_of_own hown, AppState.node_of_own hstate]
    · rfl
  have hsame : ∀ u, (Function.update app t state u).own = (app u).own := by
    intro u
    rw [Function.update_apply]
    split_ifs with hu
    · rw [hu, hown, hstate]
    · rfl
  refine ⟨h.chain, fun u b => ?_, fun u v b => ?_, fun u b hb => ?_, fun u b => ?_, fun b => ?_⟩
  · rw [hnode]
    exact h.live u b
  · rw [hnode, hnode]
    exact h.inj u v b
  · rcases update_eq_linked_iff.mp hb with ⟨-, rfl⟩ | ⟨-, hold⟩
    · cases hstate
    · exact h.linked u b hold
  · rw [hsame]
    exact h.apart u b
  · simp only [hsame]
    exact h.kept b

/-- The compare and swap of a thread succeeds. The link in its node was to the head of the list at
    that time, whatever has happened to the list since the link was stored. -/
theorem push (h : Linked shape threads app l out) (ht : app t = .swap a)
    (hlink : linkOf shape a = some threads) :
    Linked shape (some a) (Function.update app t (.linked a)) (a :: l) out where
  chain := h.chain.push hlink
  live u b hb := by
    rcases (update_eq_some_iff AppState.node).mp hb with ⟨-, hnew⟩ | ⟨-, hold⟩
    · cases hnew
      exact h.live t a (by rw [ht]; rfl)
    · exact h.live u b hold
  inj u v b hu hv := by
    have hnode : (app t).node = some a := by rw [ht]; rfl
    rcases (update_eq_some_iff AppState.node).mp hu with ⟨rfl, hnew⟩ | ⟨hne, hold⟩ <;>
      rcases (update_eq_some_iff AppState.node).mp hv with ⟨rfl, hnew'⟩ | ⟨hne', hold'⟩
    · rfl
    · cases hnew
      exact h.inj u v a hnode hold'
    · cases hnew'
      exact h.inj u v a hold hnode
    · exact h.inj u v b hold hold'
  linked u b hb := by
    rcases update_eq_linked_iff.mp hb with ⟨-, hnew⟩ | ⟨-, hold⟩
    · cases hnew
      exact List.mem_cons_self
    · exact List.mem_cons_of_mem _ (h.linked u b hold)
  apart u b hb := by
    rcases (update_eq_some_iff AppState.own).mp hb with ⟨-, hnew⟩ | ⟨hne, hold⟩
    · cases hnew
    · refine List.not_mem_cons_of_ne_of_not_mem ?_ (h.apart u b hold)
      rintro rfl
      exact hne (h.inj u t b (AppState.node_of_own hold) (by rw [ht]; rfl))
  kept b hb := by
    rcases h.kept b hb with hl | ⟨u, hu⟩ | hout
    · exact Or.inl (List.mem_cons_of_mem _ hl)
    · by_cases hut : u = t
      · rw [hut, ht] at hu
        cases hu
        exact Or.inl List.mem_cons_self
      · refine Or.inr (Or.inl ⟨u, ?_⟩)
        rw [Function.update_of_ne hut]
        exact hu
    · exact Or.inr (Or.inr hout)

/-- A thread that has no node any more. -/
theorem drop (h : Linked shape threads app l out) (t : τ) :
    Linked shape threads (Function.update app t .idle) l
      fun b => out b ∨ (app t).own = some b where
  chain := h.chain
  live u b hb := by
    rcases (update_eq_some_iff AppState.node).mp hb with ⟨-, hnew⟩ | ⟨-, hold⟩
    · cases hnew
    · exact h.live u b hold
  inj u v b hu hv := by
    rcases (update_eq_some_iff AppState.node).mp hu with ⟨-, hnew⟩ | ⟨-, hold⟩
    · cases hnew
    · rcases (update_eq_some_iff AppState.node).mp hv with ⟨-, hnew⟩ | ⟨-, hold'⟩
      · cases hnew
      · exact h.inj u v b hold hold'
  linked u b hb := by
    rcases update_eq_linked_iff.mp hb with ⟨-, hnew⟩ | ⟨-, hold⟩
    · cases hnew
    · exact h.linked u b hold
  apart u b hb := by
    rcases (update_eq_some_iff AppState.own).mp hb with ⟨-, hnew⟩ | ⟨-, hold⟩
    · cases hnew
    · exact h.apart u b hold
  kept b hb := by
    rcases h.kept b hb with hl | ⟨u, hu⟩ | hout
    · exact Or.inl hl
    · by_cases hut : u = t
      · exact Or.inr (Or.inr (Or.inr (hut ▸ hu)))
      · refine Or.inr (Or.inl ⟨u, ?_⟩)
        rw [Function.update_of_ne hut]
        exact hu
    · exact Or.inr (Or.inr (Or.inl hout))

end threads

section memory

variable [DecidableEq α]

theorem linkOf_update (cell : Option (Option α × Bool)) :
    linkOf (Function.update shape a cell) =
      Function.update (linkOf shape) a (cell.map Prod.fst) := by
  funext b
  rw [linkOf, Function.update_apply, Function.update_apply]
  split_ifs with hb
  · rfl
  · rfl

theorem chain_update (h : Chain (linkOf shape) threads l) (ha : a ∉ l)
    (cell : Option (Option α × Bool)) :
    Chain (linkOf (Function.update shape a cell)) threads l := by
  rw [linkOf_update]
  refine h.congr fun b hb => Function.update_of_ne ?_ _ _
  rintro rfl
  exact ha hb

/-- A store to the link of a node that is not linked. -/
theorem setLink (h : Linked shape threads app l out) (hown : (app t).own = some a)
    (q : Option α) :
    Linked (Function.update shape a (some (q, false))) threads app l out where
  chain := chain_update h.chain (h.apart t a hown) _
  live u b hb := by
    by_cases hba : b = a
    · rw [hba]
      exact ⟨q, Function.update_self _ _ _⟩
    · rw [Function.update_of_ne hba]
      exact h.live u b hb
  inj := h.inj
  linked := h.linked
  apart := h.apart
  kept b hb := by
    by_cases hba : b = a
    · exact Or.inr (Or.inl ⟨t, hba ▸ hown⟩)
    · rw [Function.update_of_ne hba] at hb
      exact h.kept b hb

/-- A node that no thread has is marked. -/
theorem setExited (h : Linked shape threads app l out) (hfree : ∀ u, (app u).node ≠ some a)
    {q : Option α} {flag : Bool} (ha : shape a = some (q, flag)) :
    Linked (Function.update shape a (some (q, true))) threads app l out where
  chain := by
    have hlink : linkOf (Function.update shape a (some (q, true))) = linkOf shape := by
      rw [linkOf_update]
      refine Function.update_eq_self_iff.mpr ?_
      rw [linkOf, ha]
      rfl
    rw [hlink]
    exact h.chain
  live u b hb := by
    rw [Function.update_of_ne]
    · exact h.live u b hb
    · rintro rfl
      exact hfree u hb
  inj := h.inj
  linked := h.linked
  apart := h.apart
  kept b hb := by
    refine h.kept b ?_
    by_cases hba : b = a
    · rw [hba, ha]
      rfl
    · rw [Function.update_of_ne hba] at hb
      exact hb

/-- A node that no thread has, and that is not linked, is freed. -/
theorem free (h : Linked shape threads app l out) (hfree : ∀ u, (app u).node ≠ some a)
    (ha : a ∉ l) :
    Linked (Function.update shape a none) threads app l fun b => out b ∧ b ≠ a where
  chain := chain_update h.chain ha _
  live u b hb := by
    rw [Function.update_of_ne]
    · exact h.live u b hb
    · rintro rfl
      exact hfree u hb
  inj := h.inj
  linked := h.linked
  apart := h.apart
  kept b hb := by
    by_cases hba : b = a
    · rw [hba, Function.update_self] at hb
      cases hb
    · rw [Function.update_of_ne hba] at hb
      exact (h.kept b hb).imp_right (Or.imp_right fun hout => ⟨hout, hba⟩)

/-- A node behind another one is taken out. -/
theorem unlinkNext (h : Linked shape threads app (pre ++ b :: a :: rest) out) (ha : Dead shape a)
    {q : Option α} {flag : Bool} (hb : shape b = some (q, flag)) :
    Linked (Function.update shape b (some (rest.head?, flag))) threads app (pre ++ b :: rest)
      fun c => out c ∨ c = a where
  chain := by
    rw [linkOf_update]
    exact h.chain.unlink
  live u c hc := by
    obtain ⟨q', hq'⟩ := h.live u c hc
    by_cases hcb : c = b
    · rw [hcb, hb] at hq'
      obtain ⟨-, rfl⟩ := Prod.mk.inj (Option.some.inj hq')
      exact ⟨rest.head?, by rw [hcb, Function.update_self]⟩
    · exact ⟨q', by rw [Function.update_of_ne hcb, hq']⟩
  inj := h.inj
  linked u c hc := by
    have hne : c ≠ a := by
      rintro rfl
      exact h.not_dead (by rw [hc]; rfl) ha
    have hmem := h.linked u c hc
    simp only [List.mem_append, List.mem_cons] at hmem ⊢
    tauto
  apart u c hc := by
    have hmem := h.apart u c hc
    simp only [List.mem_append, List.mem_cons] at hmem ⊢
    tauto
  kept c hc := by
    have hsome : (shape c).isSome := by
      by_cases hcb : c = b
      · rw [hcb, hb]
        rfl
      · rw [Function.update_of_ne hcb] at hc
        exact hc
    rcases h.kept c hsome with hl | howned | hout
    · simp only [List.mem_append, List.mem_cons] at hl ⊢
      tauto
    · exact Or.inr (Or.inl howned)
    · exact Or.inr (Or.inr (Or.inl hout))

end memory

/-- A new node. -/
theorem alloc [DecidableEq τ] [DecidableEq α] (h : Linked shape threads app l out)
    (ha : shape a = none) (ht : app t = .idle) :
    Linked (Function.update shape a (some (none, false))) threads
      (Function.update app t (.fresh a)) l out where
  chain := chain_update h.chain (h.not_mem_of_none ha) _
  live u b hb := by
    rcases (update_eq_some_iff AppState.node).mp hb with ⟨-, hnew⟩ | ⟨-, hold⟩
    · cases hnew
      exact ⟨none, Function.update_self _ _ _⟩
    · rw [Function.update_of_ne (h.ne_of_node ha hold)]
      exact h.live u b hold
  inj u v b hu hv := by
    rcases (update_eq_some_iff AppState.node).mp hu with ⟨rfl, hnew⟩ | ⟨hne, hold⟩ <;>
      rcases (update_eq_some_iff AppState.node).mp hv with ⟨rfl, hnew'⟩ | ⟨hne', hold'⟩
    · rfl
    · cases hnew
      exact absurd rfl (h.ne_of_node ha hold')
    · cases hnew'
      exact absurd rfl (h.ne_of_node ha hold)
    · exact h.inj u v b hold hold'
  linked u b hb := by
    rcases update_eq_linked_iff.mp hb with ⟨-, hnew⟩ | ⟨-, hold⟩
    · cases hnew
    · exact h.linked u b hold
  apart u b hb := by
    rcases (update_eq_some_iff AppState.own).mp hb with ⟨-, hnew⟩ | ⟨-, hold⟩
    · cases hnew
      exact h.not_mem_of_none ha
    · exact h.apart u b hold
  kept b hb := by
    by_cases hba : b = a
    · subst hba
      refine Or.inr (Or.inl ⟨t, ?_⟩)
      rw [Function.update_self]
      rfl
    · rw [Function.update_of_ne hba] at hb
      rcases h.kept b hb with hl | ⟨u, hu⟩ | hout
      · exact Or.inl hl
      · refine Or.inr (Or.inl ⟨u, ?_⟩)
        rw [Function.update_of_ne]
        · exact hu
        · rintro rfl
          rw [ht] at hu
          cases hu
      · exact Or.inr (Or.inr hout)

end Linked

end LibCollector.Streamline
