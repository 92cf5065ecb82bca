import LibCollector.Streamline.ThreadList

/-!
# The list under all interleavings

The steps of the threads and of the sender of `src/collectors/streamline_annotate.cpp`, in any
order. What a step keeps is the list (`Linked`) and the place of the sender in it (`SenderOk`):
the nodes that the loop has not come to are the end of the list, and no thread changes that. No
step of a run is an access to memory that is not allocated (`run_safe`).
-/

namespace LibCollector.Streamline

open LibCollector.Misc

variable {τ α : Type*}

/-- The nodes `rest` are the last ones of the list, right behind what `prev` points to. The threads
    may have put nodes in front of them if this is the head. -/
def Position (l : List α) : Prev α → List α → Prop
  | .head, rest => rest <:+ l
  | .link b, rest => b :: rest <:+ l

/-- The place of the sender in the list, with the nodes `rest` that the loop has not come to. -/
def SenderOk (shape : α → Option (Option α × Bool)) (l rest : List α) : SweepState α → Prop
  | .idle => rest = []
  | .load b => b :: rest <:+ l
  | .visit prev a => rest.head? = some a ∧ Position l prev rest
  | .fetch prev a => Position l prev (a :: rest)
  | .test prev a next => Position l prev (a :: rest) ∧ next = rest.head?
  | .swap prev a next => Position l prev (a :: rest) ∧ next = rest.head? ∧ Dead shape a
  | .release prev a next => Position l prev rest ∧ next = rest.head? ∧ Dead shape a ∧ a ∉ l
  | .walk cur none => (∀ b, cur = some b → b ∈ l) ∧ rest = []
  | .walk cur (some (prev, a)) => (∀ b, cur = some b → b ∈ l) ∧ Position l prev (a :: rest)
  | .mark cur => (∀ b, cur = some b → b ∈ l) ∧ rest = []

theorem Position.suffix {l rest : List α} {prev : Prev α} (h : Position l prev rest) :
    rest <:+ l := by
  cases prev with
  | head => exact h
  | link b => exact (List.suffix_cons b rest).trans h

theorem Position.mono {l l' rest : List α} {prev : Prev α} (h : Position l prev rest)
    (hl : l <:+ l') : Position l' prev rest := by
  cases prev with
  | head => exact h.trans hl
  | link b => exact h.trans hl

/-- The threads put nodes in front of the list and do not bring back the one that is freed. -/
theorem SenderOk.mono {shape shape' : α → Option (Option α × Bool)} {l l' rest : List α}
    {sender : SweepState α} (h : SenderOk shape l rest sender) (hl : l <:+ l')
    (hdead : ∀ a, Dead shape a → Dead shape' a)
    (hnot : ∀ a, sender.unlinked = some a → a ∉ l → a ∉ l') : SenderOk shape' l' rest sender := by
  cases sender with
  | idle => exact h
  | load b => exact h.trans hl
  | visit prev a => exact ⟨h.1, h.2.mono hl⟩
  | fetch prev a => exact Position.mono h hl
  | test prev a next => exact ⟨h.1.mono hl, h.2⟩
  | swap prev a next => exact ⟨h.1.mono hl, h.2.1, hdead a h.2.2⟩
  | release prev a next =>
    exact ⟨h.1.mono hl, h.2.1, hdead a h.2.2.1, hnot a rfl h.2.2.2⟩
  | walk cur back =>
    cases back with
    | none => exact ⟨fun b hb => hl.mem (h.1 b hb), h.2⟩
    | some back => exact ⟨fun b hb => hl.mem (h.1 b hb), h.2.mono hl⟩
  | mark cur => exact ⟨fun b hb => hl.mem (h.1 b hb), h.2⟩

theorem Position.mem {l rest : List α} {prev : Prev α} {a : α}
    (h : Position l prev (a :: rest)) : a ∈ l :=
  h.suffix.mem List.mem_cons_self

/-- When the head of the list is the node that the sender has come to, nothing has been put in
    front of it. -/
theorem eq_cons_of_head {a : α} {l rest : List α} (hnodup : l.Nodup) (hsuffix : a :: rest <:+ l)
    (hhead : l.head? = some a) : l = a :: rest := by
  obtain ⟨pre, rfl⟩ := hsuffix
  cases pre with
  | nil => rfl
  | cons b pre =>
    obtain rfl := Option.some.inj hhead
    exact absurd (by simp) (List.nodup_cons.mp hnodup).1

namespace GatorState

/-- The list has the nodes `l`, of which the sender has not come to `rest`. The nodes in `lost` were
    between two states when the process forked. -/
structure Inv (s : GatorState τ α) (l rest : List α) (lost : α → Prop) : Prop where
  linked : Linked s.shape s.threads s.app l fun a => s.sender.unlinked = some a ∨ lost a
  sender : SenderOk s.shape l rest s.sender
  child : s.sender.marks → s.forked ∧ ∀ t, s.app t = .idle

/-! ## The shape of the memory -/

section shape

variable {s : GatorState τ α} {a : α} {node : ThreadNode α}

theorem shape_eq (h : s.heap a = some node) : s.shape a = some (node.next, node.exited) := by
  rw [shape, h]
  rfl

theorem exists_node (h : (s.shape a).isSome) : ∃ node, s.heap a = some node := by
  cases hnode : s.heap a with
  | none =>
    rw [shape, hnode] at h
    cases h
  | some node => exact ⟨node, rfl⟩

variable [DecidableEq α]

@[simp] theorem shape_setNode (s : GatorState τ α) (a : α) (node : ThreadNode α) :
    (s.setNode a node).shape = Function.update s.shape a (some (node.next, node.exited)) := by
  funext b
  simp only [shape, setNode, Function.update_apply]
  split_ifs <;> rfl

@[simp] theorem shape_freeNode (s : GatorState τ α) (a : α) :
    (s.freeNode a).shape = Function.update s.shape a none := by
  funext b
  simp only [shape, freeNode, Function.update_apply]
  split_ifs <;> rfl

/-- A store to the other fields of a node. -/
theorem shape_setNode_of_eq {old : ThreadNode α} (h : s.heap a = some old)
    (hnext : node.next = old.next) (hexited : node.exited = old.exited) :
    (s.setNode a node).shape = s.shape := by
  rw [shape_setNode, hnext, hexited, ← shape_eq h, Function.update_eq_self]

end shape

/-! ## The steps of the threads -/

/-- What a step of a thread leaves alone. -/
structure ThreadFrame (s s' : GatorState τ α) : Prop where
  sender : s'.sender = s.sender
  sweeps : s'.sweeps = s.sweeps
  stops : s'.stops = s.stops
  capturing : s'.capturing = s.capturing
  forked : s'.forked = s.forked
  visited : s'.visited = s.visited
  released : s'.released = s.released
  missed : s'.missed = s.missed
  dead : ∀ a, Dead s.shape a → Dead s'.shape a

section threads

variable {s : GatorState τ α} {l rest : List α} {lost : α → Prop} {t : τ} {a : α}

theorem ThreadFrame.refl (s : GatorState τ α) : ThreadFrame s s :=
  ⟨rfl, rfl, rfl, rfl, rfl, rfl, rfl, rfl, fun _ h => h⟩

/-- The invariant after a step of a thread that leaves the list as it is. -/
theorem Inv.of_frame (h : s.Inv l rest lost) {s' : GatorState τ α} (hframe : ThreadFrame s s')
    (hmarks : s.sender.marks = false)
    (hlinked : Linked s'.shape s'.threads s'.app l fun a => s.sender.unlinked = some a ∨ lost a) :
    s'.Inv l rest lost where
  linked := by
    rw [hframe.sender]
    exact hlinked
  sender := by
    rw [hframe.sender]
    exact h.sender.mono (List.suffix_refl l) hframe.dead fun _ _ hnot => hnot
  child hchild := by
    rw [hframe.sender, hmarks] at hchild
    cases hchild

/-- A step of the thread `t` is not seen by the other threads. A node that it has put into the list
    is marked with the last loop of the sender. -/
structure ThreadLocal (t : τ) (s : GatorState τ α) (l : List α) (s' : GatorState τ α)
    (l' : List α) : Prop where
  app : ∀ u, u ≠ t → s'.app u = s.app u
  heap : ∀ u, u ≠ t → ∀ a, (s.app u).node = some a → s'.heap a = s.heap a
  seen : ∀ a ∈ l', ∀ node', s'.heap a = some node' →
    node'.seen = s.sweeps ∨ a ∈ l ∧ ∃ node, s.heap a = some node ∧ node'.seen = node.seen
  grows : l' = l ∨ ∃ a, l' = a :: l

/-- The step is defined, keeps the invariant and is one of the thread. -/
def ThreadStep (t : τ) (s : GatorState τ α) (l rest : List α) (lost : α → Prop)
    (r : Option (GatorState τ α)) : Prop :=
  ∃ s' l', r = some s' ∧ s'.Inv l' rest lost ∧ ThreadFrame s s' ∧ ThreadLocal t s l s' l'

theorem Inv.threadStep_self (h : s.Inv l rest lost) (t : τ) :
    ThreadStep t s l rest lost (some s) :=
  ⟨s, l, rfl, h, .refl s, fun _ _ => rfl, fun _ _ _ _ => rfl,
    fun _ ha node' hnode' => Or.inr ⟨ha, node', hnode', rfl⟩, Or.inl rfl⟩

theorem Inv.not_dead (h : s.Inv l rest lost) (ht : (s.app t).node = some a) :
    ¬ Dead s.shape a :=
  h.linked.not_dead ht

theorem Inv.not_marks (h : s.Inv l rest lost) (ht : (s.app t).node = some a) :
    s.sender.marks = false := by
  rw [Bool.eq_false_iff]
  intro hmarks
  rw [(h.child hmarks).2 t] at ht
  cases ht

/-- The memory of the node of a thread. -/
theorem Inv.exists_live (h : s.Inv l rest lost) (ht : (s.app t).node = some a) :
    ∃ node, s.heap a = some node ∧ node.exited = false := by
  obtain ⟨q, hq⟩ := h.linked.live t a ht
  obtain ⟨node, hnode⟩ := exists_node (by rw [hq]; rfl : (s.shape a).isSome)
  rw [shape_eq hnode] at hq
  exact ⟨node, hnode, (Prod.mk.inj (Option.some.inj hq)).2⟩

variable [DecidableEq τ]

/-- A thread moves on without a store. -/
theorem ThreadLocal.setApp {s' : GatorState τ α} {state : AppState α} (hheap : s'.heap = s.heap)
    (happ : s'.app = Function.update s.app t state) : ThreadLocal t s l s' l where
  app u hu := by rw [happ, Function.update_of_ne hu]
  heap u _ b _ := by rw [hheap]
  seen b hb node' hnode' := by
    rw [hheap] at hnode'
    exact Or.inr ⟨hb, node', hnode', rfl⟩
  grows := Or.inl rfl

variable [DecidableEq α]

/-- A store to a node that does not belong to a thread that has exited. -/
theorem dead_update {shape : α → Option (Option α × Bool)} {a b : α}
    {cell : Option (Option α × Bool)} (hb : Dead shape b) (ha : ¬ Dead shape a) :
    Dead (Function.update shape a cell) b := by
  obtain ⟨q, hq⟩ := hb
  refine ⟨q, ?_⟩
  rw [Function.update_of_ne, hq]
  rintro rfl
  exact ha ⟨q, hq⟩

/-- A thread stores to a node that no other thread has. -/
theorem ThreadLocal.store {s' : GatorState τ α} {l' : List α} {state : AppState α}
    {cell : Option (ThreadNode α)} (hother : ∀ u, (s.app u).node = some a → u = t)
    (hheap : s'.heap = Function.update s.heap a cell)
    (happ : s'.app = Function.update s.app t state) (hl : l' = l ∨ l' = a :: l)
    (hseen : a ∈ l' → ∀ node', cell = some node' →
      node'.seen = s.sweeps ∨ a ∈ l ∧ ∃ node, s.heap a = some node ∧ node'.seen = node.seen) :
    ThreadLocal t s l s' l' where
  app u hu := by rw [happ, Function.update_of_ne hu]
  heap u hu b hb := by
    rw [hheap, Function.update_of_ne]
    rintro rfl
    exact hu (hother u hb)
  seen b hb node' hnode' := by
    rw [hheap] at hnode'
    by_cases hba : b = a
    · subst hba
      rw [Function.update_self] at hnode'
      exact hseen hb node' hnode'
    · rw [Function.update_of_ne hba] at hnode'
      refine Or.inr ⟨?_, node', hnode', rfl⟩
      rcases hl with rfl | rfl
      · exact hb
      · exact List.mem_of_ne_of_mem hba hb
  grows := hl.imp_right fun h => ⟨a, h⟩

theorem Inv.malloc (h : s.Inv l rest lost) (t : τ) (a : α) :
    ThreadStep t s l rest lost (s.step (.malloc t a)) := by
  rw [step]
  split_ifs with hguard
  · obtain ⟨ht, -, hforked, hnone⟩ := hguard
    have hmarks : s.sender.marks = false := by
      rw [Bool.eq_false_iff]
      intro hmarks
      rw [(h.child hmarks).1] at hforked
      cases hforked
    have hshape : s.shape a = none := by
      rw [shape, Option.isNone_iff_eq_none.mp hnone]
      rfl
    have hnot : ¬ Dead s.shape a := by
      rintro ⟨q, hq⟩
      rw [hshape] at hq
      cases hq
    have hframe : ThreadFrame s ((s.setNode a {}).setApp t (.fresh a)) := by
      refine ⟨rfl, rfl, rfl, rfl, rfl, rfl, rfl, rfl, fun b hb => ?_⟩
      exact (shape_setNode s _ _) ▸ dead_update hb hnot
    have hlocal : ThreadLocal t s l ((s.setNode a {}).setApp t (.fresh a)) l := by
      refine .store (fun u hu => ?_) rfl rfl (Or.inl rfl) fun ha => ?_
      · exact absurd rfl (h.linked.ne_of_node hshape hu)
      · exact absurd ha (h.linked.not_mem_of_none hshape)
    refine ⟨_, l, rfl, h.of_frame hframe hmarks ?_, hframe, hlocal⟩
    have halloc := h.linked.alloc hshape ht
    rw [← shape_setNode _ _ {}] at halloc
    exact halloc
  · exact h.threadStep_self t

theorem Inv.giveUp (h : s.Inv l rest lost) (t : τ) :
    ThreadStep t s l rest lost (s.step (.giveUp t)) := by
  rw [step]
  cases ht : s.app t with
  | fresh a =>
    have hnode : (s.app t).node = some a := by rw [ht]; rfl
    obtain ⟨node, hheap, -⟩ := h.exists_live hnode
    have hframe : ThreadFrame s ((s.freeNode a).setApp t .idle) := by
      refine ⟨rfl, rfl, rfl, rfl, rfl, rfl, rfl, rfl, fun b hb => ?_⟩
      exact (shape_freeNode s _) ▸ dead_update hb (h.not_dead hnode)
    have hlocal : ThreadLocal t s l ((s.freeNode a).setApp t .idle) l :=
      .store (fun u hu => h.linked.inj u t a hu hnode) rfl rfl (Or.inl rfl) nofun
    refine ⟨(s.freeNode a).setApp t .idle, l, ?_, h.of_frame hframe (h.not_marks hnode) ?_, hframe,
      hlocal⟩
    · dsimp only
      rw [hheap]
      rfl
    · have hfree : ∀ u, (Function.update s.app t AppState.idle u).node ≠ some a := by
        intro u hu
        rcases (Linked.update_eq_some_iff AppState.node).mp hu with ⟨-, hnew⟩ | ⟨hne, hold⟩
        · cases hnew
        · exact hne (h.linked.inj u t a hold hnode)
      have hdrop := (h.linked.drop t).free hfree (h.linked.apart t a (by rw [ht]; rfl))
      rw [← shape_freeNode, ht] at hdrop
      refine hdrop.mono ?_
      rintro b ⟨hout | hown, hne⟩
      · exact hout
      · exact absurd (Option.some.inj hown).symm hne
  | _ => exact h.threadStep_self t

theorem Inv.keySet (h : s.Inv l rest lost) (t : τ) :
    ThreadStep t s l rest lost (s.step (.keySet t)) := by
  rw [step]
  cases ht : s.app t with
  | fresh a =>
    have hframe : ThreadFrame s (s.setApp t (.load a)) :=
      ⟨rfl, rfl, rfl, rfl, rfl, rfl, rfl, rfl, fun _ hb => hb⟩
    have hown : (s.app t).own = some a := by rw [ht]; rfl
    have hmarks := h.not_marks (AppState.node_of_own hown)
    exact ⟨_, l, rfl, h.of_frame hframe hmarks (h.linked.advance hown rfl), hframe,
      .setApp rfl rfl⟩
  | _ => exact h.threadStep_self t

theorem Inv.load (h : s.Inv l rest lost) (t : τ) :
    ThreadStep t s l rest lost (s.step (.load t)) := by
  rw [step]
  cases ht : s.app t with
  | load a =>
    have hown : (s.app t).own = some a := by rw [ht]; rfl
    have hnode := AppState.node_of_own hown
    obtain ⟨node, hheap, hlive⟩ := h.exists_live hnode
    let s' := (s.setNode a { node with next := s.threads }).setApp t (.swap a)
    have hframe : ThreadFrame s s' := by
      refine ⟨rfl, rfl, rfl, rfl, rfl, rfl, rfl, rfl, fun b hb => ?_⟩
      exact (shape_setNode s _ _) ▸ dead_update hb (h.not_dead hnode)
    have hlocal : ThreadLocal t s l s' l :=
      .store (fun u hu => h.linked.inj u t a hu hnode) rfl rfl (Or.inl rfl)
        fun ha => absurd ha (h.linked.apart t a hown)
    refine ⟨s', l, ?_, h.of_frame hframe (h.not_marks hnode) ?_, hframe, hlocal⟩
    · dsimp only
      rw [hheap]
      rfl
    · have hset := (h.linked.setLink hown s.threads).advance hown (rfl : (AppState.swap a).own = _)
      rw [← hlive, ← shape_setNode _ _ { node with next := s.threads }] at hset
      exact hset
  | _ => exact h.threadStep_self t

theorem Inv.swap (h : s.Inv l rest lost) (t : τ) :
    ThreadStep t s l rest lost (s.step (.swap t)) := by
  rw [step]
  cases ht : s.app t with
  | swap a =>
    have hown : (s.app t).own = some a := by rw [ht]; rfl
    have hnode := AppState.node_of_own hown
    obtain ⟨node, hheap, hlive⟩ := h.exists_live hnode
    dsimp only
    rw [hheap, Option.map_some]
    split_ifs with heq
    · have hshape : (s.setNode a { node with seen := s.sweeps }).shape = s.shape :=
        shape_setNode_of_eq hheap rfl rfl
      have hlink : linkOf s.shape a = some s.threads := by
        rw [linkOf, shape_eq hheap, heq]
        rfl
      let s' : GatorState τ α :=
        { (s.setNode a { node with seen := s.sweeps }).setApp t (.linked a) with
          threads := some a }
      have hframe : ThreadFrame s s' :=
        ⟨rfl, rfl, rfl, rfl, rfl, rfl, rfl, rfl, fun b hb => hshape.symm ▸ hb⟩
      have hlocal : ThreadLocal t s l s' (a :: l) := by
        refine .store (fun u hu => h.linked.inj u t a hu hnode) rfl rfl (Or.inr rfl) ?_
        rintro - node' heq
        obtain rfl := Option.some.inj heq
        exact Or.inl rfl
      refine ⟨s', a :: l, rfl, ⟨?_, h.sender.mono (List.suffix_cons a l) hframe.dead ?_, ?_⟩,
        hframe, hlocal⟩
      · have hpush := h.linked.push ht hlink
        rw [← hshape] at hpush
        exact hpush
      · -- The node that is freed is one of a thread that has exited.
        intro b hb hnot
        refine List.not_mem_cons_of_ne_of_not_mem ?_ hnot
        rintro rfl
        refine h.not_dead hnode ?_
        have hsender := h.sender
        cases hs : s.sender with
        | release prev c next =>
          rw [hs] at hb hsender
          obtain rfl := Option.some.inj hb
          exact hsender.2.2.1
        | _ =>
          rw [hs] at hb
          cases hb
      · intro hmarks
        have hnot := h.not_marks hnode
        exact absurd hmarks (by rw [hframe.sender, hnot]; simp)
    · have hframe : ThreadFrame s (s.setApp t (.load a)) :=
        ⟨rfl, rfl, rfl, rfl, rfl, rfl, rfl, rfl, fun _ hb => hb⟩
      exact ⟨_, l, rfl, h.of_frame hframe (h.not_marks hnode) (h.linked.advance hown rfl),
        hframe, .setApp rfl rfl⟩
  | _ => exact h.threadStep_self t

theorem Inv.write (h : s.Inv l rest lost) (t : τ) :
    ThreadStep t s l rest lost (s.step (.write t)) := by
  rw [step]
  cases ht : s.app t with
  | linked a =>
    have hnode : (s.app t).node = some a := by rw [ht]; rfl
    obtain ⟨node, hheap, -⟩ := h.exists_live hnode
    have hshape : (s.setNode a { node with written := node.written + 1 }).shape = s.shape :=
      shape_setNode_of_eq hheap rfl rfl
    have hframe : ThreadFrame s (s.setNode a { node with written := node.written + 1 }) :=
      ⟨rfl, rfl, rfl, rfl, rfl, rfl, rfl, rfl, fun b hb => hshape.symm ▸ hb⟩
    have hlocal : ThreadLocal t s l (s.setNode a { node with written := node.written + 1 }) l := by
      refine .store (fun u hu => h.linked.inj u t a hu hnode) rfl
        (Function.update_eq_self t s.app).symm (Or.inl rfl) ?_
      rintro ha node' heq
      obtain rfl := Option.some.inj heq
      exact Or.inr ⟨ha, node, hheap, rfl⟩
    refine ⟨_, l, ?_, h.of_frame hframe (h.not_marks hnode) ?_, hframe, hlocal⟩
    · dsimp only
      rw [hheap]
      rfl
    · rw [hshape]
      exact h.linked
  | _ => exact h.threadStep_self t

theorem Inv.exit (h : s.Inv l rest lost) (t : τ) :
    ThreadStep t s l rest lost (s.step (.exit t)) := by
  rw [step]
  cases ht : s.app t with
  | linked a =>
    have hnode : (s.app t).node = some a := by rw [ht]; rfl
    obtain ⟨node, hheap, -⟩ := h.exists_live hnode
    let s' := (s.setNode a { node with exited := true }).setApp t .idle
    have hframe : ThreadFrame s s' := by
      refine ⟨rfl, rfl, rfl, rfl, rfl, rfl, rfl, rfl, fun b hb => ?_⟩
      exact (shape_setNode s _ _) ▸ dead_update hb (h.not_dead hnode)
    have hlocal : ThreadLocal t s l s' l := by
      refine .store (fun u hu => h.linked.inj u t a hu hnode) rfl rfl (Or.inl rfl) ?_
      rintro ha node' heq
      obtain rfl := Option.some.inj heq
      exact Or.inr ⟨ha, node, hheap, rfl⟩
    refine ⟨s', l, ?_, h.of_frame hframe (h.not_marks hnode) ?_, hframe, hlocal⟩
    · dsimp only
      rw [hheap]
      rfl
    · have hfree : ∀ u, (Function.update s.app t AppState.idle u).node ≠ some a := by
        intro u hu
        rcases (Linked.update_eq_some_iff AppState.node).mp hu with ⟨-, hnew⟩ | ⟨hne, hold⟩
        · cases hnew
        · exact hne (h.linked.inj u t a hold hnode)
      have hdrop := (h.linked.drop t).setExited hfree (shape_eq hheap)
      rw [← shape_setNode _ _ { node with exited := true }, ht] at hdrop
      refine hdrop.mono ?_
      rintro b (hout | hown)
      · exact hout
      · cases hown
  | _ => exact h.threadStep_self t

theorem Inv.step_thread (h : s.Inv l rest lost) {action : GatorAction τ α}
    (hthread : action.thread = some t) : ThreadStep t s l rest lost (s.step action) := by
  cases action with
  | malloc u a =>
    cases hthread
    exact h.malloc t a
  | giveUp u =>
    cases hthread
    exact h.giveUp t
  | keySet u =>
    cases hthread
    exact h.keySet t
  | load u =>
    cases hthread
    exact h.load t
  | swap u =>
    cases hthread
    exact h.swap t
  | write u =>
    cases hthread
    exact h.write t
  | exit u =>
    cases hthread
    exact h.exit t
  | _ => cases hthread

end threads

/-! ## The steps of the sender -/

section sender

variable {s : GatorState τ α} {l rest : List α} {lost : α → Prop}

theorem Inv.exists_mem (h : s.Inv l rest lost) {a : α} (ha : a ∈ l) :
    ∃ node, s.heap a = some node :=
  exists_node (h.linked.isSome_of_mem ha)

theorem Inv.exists_dead {s : GatorState τ α} {a : α} (ha : Dead s.shape a) :
    ∃ node, s.heap a = some node ∧ node.exited = true := by
  obtain ⟨q, hq⟩ := ha
  obtain ⟨node, hnode⟩ := exists_node (by rw [hq]; rfl : (s.shape a).isSome)
  rw [shape_eq hnode] at hq
  exact ⟨node, hnode, (Prod.mk.inj (Option.some.inj hq)).2⟩

/-- What stands in the link of a node behind which the rest of the list is. -/
theorem Inv.next_eq (h : s.Inv l rest lost) {a : α} {tail : List α} (ha : a :: tail <:+ l)
    {node : ThreadNode α} (hnode : s.heap a = some node) : node.next = tail.head? := by
  obtain ⟨pre, rfl⟩ := ha
  exact h.linked.next_eq (shape_eq hnode)

theorem Inv.threads_mem (h : s.Inv l rest lost) : ∀ b, s.threads = some b → b ∈ l := by
  intro b hb
  rw [h.linked.chain.eq_head?] at hb
  exact List.mem_of_mem_head? hb

theorem Inv.next_mem (h : s.Inv l rest lost) {a : α} (ha : a ∈ l) {node : ThreadNode α}
    (hnode : s.heap a = some node) : ∀ b, node.next = some b → b ∈ l := by
  intro b hb
  obtain ⟨pre, tail, rfl⟩ := List.append_of_mem ha
  rw [h.next_eq ⟨pre, rfl⟩ hnode] at hb
  exact List.mem_append_right _ (List.mem_cons_of_mem _ (List.mem_of_mem_head? hb))

/-- Another place for the sender. -/
theorem Inv.moved {s' : GatorState τ α} {sender : SweepState α} {rest' : List α}
    (h : s.Inv l rest lost) (hnone : s.sender.unlinked = none) (hshape : s'.shape = s.shape)
    (hthreads : s'.threads = s.threads) (happ : s'.app = s.app) (hsender : s'.sender = sender)
    (hok : SenderOk s.shape l rest' sender) (hmarks : sender.marks = false) :
    s'.Inv l rest' lost := by
  refine ⟨?_, by rw [hsender, hshape]; exact hok, fun h => absurd h (by simp [hsender, hmarks])⟩
  rw [hshape, hthreads, happ]
  refine h.linked.mono ?_
  rintro a (hout | hlost)
  · rw [hnone] at hout
    cases hout
  · exact Or.inr hlost

/-- The condition of the loop, for the nodes that the sender has not come to. -/
theorem SenderOk.loop {shape : α → Option (Option α × Bool)} {prev : Prev α}
    (hpos : Position l prev rest) : SenderOk shape l rest (.loop prev rest.head?) := by
  cases rest with
  | nil => rfl
  | cons a rest => exact ⟨rfl, hpos⟩

theorem marks_loop (prev : Prev α) (q : Option α) : (SweepState.loop prev q).marks = false := by
  cases q <;> rfl

/-- `gator_stop_capturing` outside the loop over the threads. -/
theorem Inv.stopped (h : s.Inv l rest lost) (hidle : s.sender = .idle) (n : Nat) :
    ({ s with capturing := false, stops := n, sender := .walk s.threads none } :
      GatorState τ α).Inv l rest lost := by
  have hrest := h.sender
  rw [hidle] at hrest
  exact h.moved (by rw [hidle]; rfl) rfl rfl rfl rfl ⟨h.threads_mem, hrest⟩ rfl

/-- What the sender does with a node of the list, where it comes to the node or not. -/
structure Treats (s s' : GatorState τ α) (comes : Prop) (node node' : ThreadNode α) : Prop where
  written : node'.written = node.written
  seen : comes → node'.seen = s.sweeps
  unseen : ¬ comes → node'.seen = node.seen
  handled : node'.handled = node.handled ∨ node'.handled = node.written
  taken : comes → s.capturing → s'.stops = s.stops → node'.handled = node.written

/-- What a step of the sender leaves alone, and what it does with the nodes of the list. -/
structure SenderFrame (s : GatorState τ α) (l rest : List α) (s' : GatorState τ α)
    (l' rest' : List α) : Prop where
  app : s'.app = s.app
  sweeps : s'.sweeps = s.sweeps
  stops : s.stops ≤ s'.stops
  capturing : s'.stops = s.stops → s.capturing → s'.capturing
  forked : s.forked = false → s'.forked = false
  mem : ∀ a ∈ l', a ∈ l
  node : ∀ a ∈ l', ∀ node', s'.heap a = some node' →
    ∃ node, s.heap a = some node ∧ Treats s s' (a ∈ rest ∧ a ∉ rest') node node'

/-- The step is defined, keeps the invariant, and moves the sender along the list. -/
def SenderStep (s : GatorState τ α) (l rest : List α) (lost : α → Prop)
    (r : Option (GatorState τ α)) : Prop :=
  ∃ s' l' rest', r = some s' ∧ s'.Inv l' rest' lost ∧
    s'.visited ++ rest' = s.visited ++ rest ∧ SenderFrame s l rest s' l' rest'

theorem SenderStep.intro {s' : GatorState τ α} (l' rest' : List α) (h : s'.Inv l' rest' lost)
    (hframe : SenderFrame s l rest s' l' rest')
    (hvisited : s'.visited ++ rest' = s.visited ++ rest) : SenderStep s l rest lost (some s') :=
  ⟨s', l', rest', rfl, h, hvisited, hframe⟩

theorem Treats.refl {s s' : GatorState τ α} {comes : Prop} (hcomes : ¬ comes)
    (node : ThreadNode α) : Treats s s' comes node node :=
  ⟨rfl, fun h => absurd h hcomes, fun _ => rfl, Or.inl rfl, fun h => absurd h hcomes⟩

/-- The sender moves on without a store. -/
theorem SenderFrame.quiet {s' : GatorState τ α} {l' : List α} (hheap : s'.heap = s.heap)
    (happ : s'.app = s.app) (hsweeps : s'.sweeps = s.sweeps) (hstops : s'.stops = s.stops)
    (hcapturing : s.capturing → s'.capturing) (hforked : s.forked = false → s'.forked = false)
    (hmem : ∀ a ∈ l', a ∈ l) :
    SenderFrame s l rest s' l' rest where
  app := happ
  sweeps := hsweeps
  stops := Nat.le_of_eq hstops.symm
  capturing _ := hcapturing
  forked := hforked
  mem := hmem
  node a _ node' hnode' := by
    rw [hheap] at hnode'
    exact ⟨node', hnode', .refl (fun h => h.2 h.1) node'⟩

variable [DecidableEq α]

/-- The sender stores to a node. -/
theorem SenderFrame.store {s' : GatorState τ α} {l' rest' : List α} {a : α}
    {node node' : ThreadNode α} (hnode : s.heap a = some node)
    (hheap : s'.heap = Function.update s.heap a (some node')) (happ : s'.app = s.app)
    (hsweeps : s'.sweeps = s.sweeps) (hstops : s.stops ≤ s'.stops)
    (hcapturing : s'.stops = s.stops → s.capturing → s'.capturing)
    (hforked : s.forked = false → s'.forked = false) (hmem : ∀ b ∈ l', b ∈ l)
    (hrest : ∀ b ∈ rest, b ≠ a → b ∈ rest')
    (htreats : Treats s s' (a ∈ rest ∧ a ∉ rest') node node') :
    SenderFrame s l rest s' l' rest' where
  app := happ
  sweeps := hsweeps
  stops := hstops
  capturing := hcapturing
  forked := hforked
  mem := hmem
  node b _ other hother := by
    rw [hheap] at hother
    by_cases hba : b = a
    · subst hba
      rw [Function.update_self] at hother
      obtain rfl := Option.some.inj hother
      exact ⟨node, hnode, htreats⟩
    · rw [Function.update_of_ne hba] at hother
      exact ⟨other, hother, .refl (fun h => h.2 (hrest b h.1 hba)) other⟩

theorem Inv.senderStep_load (h : s.Inv l rest lost) {b : α} (hs : s.sender = .load b) (ok : Bool) :
    SenderStep s l rest lost (s.senderStep ok) := by
  have hok := h.sender
  rw [hs] at hok
  obtain ⟨node, hnode⟩ := h.exists_mem (hok.mem List.mem_cons_self)
  rw [senderStep, hs]
  dsimp only
  rw [hnode, Option.map_some, h.next_eq hok hnode]
  refine .intro l rest ?_ (.quiet rfl rfl rfl rfl id id fun _ hb => hb) rfl
  exact h.moved (by rw [hs]; rfl) rfl rfl rfl rfl (SenderOk.loop hok) (marks_loop _ _)

theorem Inv.senderStep_visit (h : s.Inv l rest lost) {prev : Prev α} {a : α}
    (hs : s.sender = .visit prev a) (ok : Bool) : SenderStep s l rest lost (s.senderStep ok) := by
  have hok := h.sender
  rw [hs] at hok
  obtain ⟨hhead, hpos⟩ := hok
  obtain ⟨tail, rfl⟩ := List.head?_eq_some_iff.mp hhead
  obtain ⟨node, hnode⟩ := h.exists_mem hpos.mem
  have hnone : s.sender.unlinked = none := by rw [hs]; rfl
  have hvisited : (s.visited ++ [a]) ++ tail = s.visited ++ a :: tail := by
    rw [List.append_assoc, List.singleton_append]
  have hcomes : a ∈ a :: tail ∧ a ∉ tail := by
    obtain ⟨pre, hpre⟩ := hpos.suffix
    have hnodup := h.linked.chain.nodup
    rw [← hpre] at hnodup
    exact ⟨List.mem_cons_self, (List.nodup_cons.mp hnodup.of_append_right).1⟩
  have hrest : ∀ b ∈ a :: tail, b ≠ a → b ∈ tail := fun b hb hne => List.mem_of_ne_of_mem hne hb
  rw [senderStep, hs]
  dsimp only
  rw [hnode, Option.map_some]
  split_ifs with hcapturing htaken
  · refine .intro l tail ?_ (.store hnode rfl rfl rfl (Nat.le_refl _) (fun _ => id) id
      (fun _ hb => hb) hrest ⟨rfl, fun _ => rfl, fun hnot => absurd hcomes hnot, Or.inr rfl,
      fun _ _ _ => rfl⟩) hvisited
    exact h.moved hnone (shape_setNode_of_eq hnode rfl rfl) rfl rfl rfl hpos rfl
  · refine .intro l tail ?_ (.store hnode rfl rfl rfl (Nat.le_succ _)
      (fun heq => absurd heq (Nat.succ_ne_self _)) id (fun _ hb => hb) hrest ⟨rfl, fun _ => rfl,
      fun hnot => absurd hcomes hnot, Or.inl rfl, fun _ _ heq => absurd heq (Nat.succ_ne_self _)⟩)
      hvisited
    exact h.moved hnone (shape_setNode_of_eq hnode rfl rfl) rfl rfl rfl ⟨h.threads_mem, hpos⟩ rfl
  · refine .intro l tail ?_ (.store hnode rfl rfl rfl (Nat.le_refl _) (fun _ => id) id
      (fun _ hb => hb) hrest ⟨rfl, fun _ => rfl, fun hnot => absurd hcomes hnot, Or.inl rfl,
      fun _ htrue _ => absurd htrue hcapturing⟩) hvisited
    exact h.moved hnone (shape_setNode_of_eq hnode rfl rfl) rfl rfl rfl hpos rfl

theorem Inv.senderStep_fetch (h : s.Inv l rest lost) {prev : Prev α} {a : α}
    (hs : s.sender = .fetch prev a) (ok : Bool) : SenderStep s l rest lost (s.senderStep ok) := by
  have hpos := h.sender
  rw [hs] at hpos
  obtain ⟨node, hnode⟩ := h.exists_mem (Position.mem hpos)
  rw [senderStep, hs]
  dsimp only
  rw [hnode, Option.map_some, h.next_eq (Position.suffix hpos) hnode]
  refine .intro l rest ?_ (.quiet rfl rfl rfl rfl id id fun _ hb => hb) rfl
  exact h.moved (by rw [hs]; rfl) rfl rfl rfl rfl ⟨hpos, rfl⟩ rfl

theorem Inv.senderStep_test (h : s.Inv l rest lost) {prev : Prev α} {a : α} {next : Option α}
    (hs : s.sender = .test prev a next) (ok : Bool) :
    SenderStep s l rest lost (s.senderStep ok) := by
  have hok := h.sender
  rw [hs] at hok
  obtain ⟨hpos, hnext⟩ := hok
  obtain ⟨node, hnode⟩ := h.exists_mem hpos.mem
  have hnone : s.sender.unlinked = none := by rw [hs]; rfl
  rw [senderStep, hs]
  dsimp only
  rw [hnode, Option.map_some]
  split_ifs with hexited
  · have hdead : Dead s.shape a := ⟨node.next, by rw [shape_eq hnode, hexited]⟩
    refine .intro l rest ?_ (.quiet rfl rfl rfl rfl id id fun _ hb => hb) rfl
    exact h.moved hnone rfl rfl rfl rfl ⟨hpos, hnext, hdead⟩ rfl
  · refine .intro l rest ?_ (.quiet rfl rfl rfl rfl id id fun _ hb => hb) rfl
    exact h.moved hnone rfl rfl rfl rfl hpos.suffix rfl

theorem Inv.senderStep_swapHead (h : s.Inv l rest lost) {a : α} {next : Option α}
    (hs : s.sender = .swap .head a next) (ok : Bool) :
    SenderStep s l rest lost (s.senderStep ok) := by
  have hok := h.sender
  rw [hs] at hok
  obtain ⟨hpos, rfl, hdead⟩ := hok
  rw [senderStep, hs]
  dsimp only
  split_ifs with heq
  · obtain rfl := eq_cons_of_head h.linked.chain.nodup hpos
      (h.linked.chain.eq_head?.symm.trans heq)
    have hnot : a ∉ rest := (List.nodup_cons.mp h.linked.chain.nodup).1
    refine .intro rest rest ⟨?_, ⟨List.suffix_refl rest, rfl, hdead, hnot⟩, fun h => by cases h⟩
      (.quiet rfl rfl rfl rfl id id fun _ hb => List.mem_cons_of_mem _ hb) rfl
    refine (h.linked.unlinkHead hdead).mono ?_
    rintro b ((hout | hlost) | rfl)
    · rw [hs] at hout
      cases hout
    · exact Or.inr hlost
    · exact Or.inl rfl
  · refine .intro l rest ?_ (.quiet rfl rfl rfl rfl id id fun _ hb => hb) rfl
    exact h.moved (by rw [hs]; rfl) rfl rfl rfl rfl hpos rfl

theorem Inv.senderStep_swapLink (h : s.Inv l rest lost) {a b : α} {next : Option α}
    (hs : s.sender = .swap (.link b) a next) (ok : Bool) :
    SenderStep s l rest lost (s.senderStep ok) := by
  have hok := h.sender
  rw [hs] at hok
  obtain ⟨⟨pre, rfl⟩, rfl, hdead⟩ := hok
  obtain ⟨node, hnode⟩ := h.exists_mem (a := b) (by simp)
  have hnext : node.next = some a := h.next_eq ⟨pre, rfl⟩ hnode
  rw [senderStep, hs]
  dsimp only
  rw [hnode, Option.map_some, if_pos hnext]
  have hnot : a ∉ pre ++ b :: rest := by
    have hnodup : ((pre ++ [b]) ++ a :: rest).Nodup := by
      rw [List.append_assoc]
      exact h.linked.chain.nodup
    rw [List.nodup_middle, List.append_assoc] at hnodup
    exact (List.nodup_cons.mp hnodup).1
  have hne : b ≠ a := by
    rintro rfl
    exact hnot (by simp)
  have hmem : ∀ c ∈ pre ++ b :: rest, c ∈ pre ++ b :: a :: rest := by
    intro c hc
    simp only [List.mem_append, List.mem_cons] at hc ⊢
    tauto
  refine .intro (pre ++ b :: rest) rest ⟨?_, ⟨⟨pre, rfl⟩, rfl, ?_, hnot⟩, fun h => by cases h⟩
    (.store hnode rfl rfl rfl (Nat.le_refl _) (fun _ => id) id hmem (fun _ hc _ => hc)
      ⟨rfl, fun h => absurd h.1 h.2, fun _ => rfl, Or.inl rfl, fun h => absurd h.1 h.2⟩) rfl
  · have hunlink := h.linked.unlinkNext hdead (shape_eq hnode)
    rw [← shape_setNode _ _ { node with next := rest.head? }] at hunlink
    refine hunlink.mono ?_
    rintro c ((hout | hlost) | rfl)
    · rw [hs] at hout
      cases hout
    · exact Or.inr hlost
    · exact Or.inl rfl
  · obtain ⟨q, hq⟩ := hdead
    refine ⟨q, ?_⟩
    have hshape : (s.setNode b { node with next := rest.head? }).shape a = s.shape a := by
      rw [shape_setNode, Function.update_of_ne (Ne.symm hne)]
    exact hshape.trans hq

theorem Inv.senderStep_release (h : s.Inv l rest lost) {prev : Prev α} {a : α} {next : Option α}
    (hs : s.sender = .release prev a next) (ok : Bool) :
    SenderStep s l rest lost (s.senderStep ok) := by
  have hok := h.sender
  rw [hs] at hok
  obtain ⟨hpos, rfl, hdead, hnot⟩ := hok
  obtain ⟨node, hnode, -⟩ := Inv.exists_dead hdead
  have hfree : ∀ u, (s.app u).node ≠ some a := fun u hu => h.not_dead hu hdead
  have hlinked : Linked (s.freeNode a).shape s.threads s.app l lost := by
    have hfreed := h.linked.free hfree hnot
    rw [← shape_freeNode] at hfreed
    refine hfreed.mono ?_
    rintro b ⟨hout | hlost, hne⟩
    · rw [hs] at hout
      exact absurd (Option.some.inj hout).symm hne
    · exact hlost
  rw [senderStep, hs]
  dsimp only
  rw [hnode, Option.map_some]
  have hframe : SenderFrame s l rest
      (({ s.freeNode a with released := s.released ++ [a] }).goTo prev rest.head?) l rest := by
    refine ⟨rfl, rfl, Nat.le_refl _, fun _ => id, id, fun _ hb => hb, fun b hb other hother => ?_⟩
    have hba : b ≠ a := by
      rintro rfl
      exact hnot hb
    exact ⟨other, (Function.update_of_ne hba _ _).symm.trans hother, .refl (fun h => h.2 h.1) other⟩
  refine .intro l rest ⟨hlinked.mono fun b hb => Or.inr hb, SenderOk.loop hpos, ?_⟩ hframe rfl
  intro hmarks
  exact absurd (hmarks.symm.trans (marks_loop _ _)) (by simp)

theorem Inv.senderStep_walk (h : s.Inv l rest lost) {cur : Option α}
    {back : Option (Prev α × α)} (hs : s.sender = .walk cur back) (ok : Bool) :
    SenderStep s l rest lost (s.senderStep ok) := by
  have hok := h.sender
  have hnone : s.sender.unlinked = none := by rw [hs]; rfl
  rw [hs] at hok
  rw [senderStep, hs]
  cases cur with
  | none =>
    rcases back with - | ⟨prev, a⟩
    · exact .intro l rest (h.moved hnone rfl rfl rfl rfl hok.2 rfl)
        (.quiet rfl rfl rfl rfl id id fun _ hb => hb) rfl
    · exact .intro l rest (h.moved hnone rfl rfl rfl rfl hok.2 rfl)
        (.quiet rfl rfl rfl rfl id id fun _ hb => hb) rfl
  | some b =>
    have hb : b ∈ l := by
      rcases back with - | ⟨prev, a⟩
      · exact hok.1 b rfl
      · exact hok.1 b rfl
    obtain ⟨node, hnode⟩ := h.exists_mem hb
    have hokay : SenderOk s.shape l rest (.walk node.next back) := by
      rcases back with - | ⟨prev, a⟩
      · exact ⟨h.next_mem hb hnode, hok.2⟩
      · exact ⟨h.next_mem hb hnode, hok.2⟩
    dsimp only
    rw [hnode, Option.map_some]
    refine .intro l rest ?_ (.store hnode rfl rfl rfl (Nat.le_refl _) (fun _ => id) id
      (fun _ hb => hb) (fun _ hb _ => hb)
      ⟨rfl, fun h => absurd h.1 h.2, fun _ => rfl, Or.inr rfl, fun h => absurd h.1 h.2⟩) rfl
    exact h.moved hnone (shape_setNode_of_eq hnode rfl rfl) rfl rfl rfl hokay rfl

theorem Inv.senderStep_mark (h : s.Inv l rest lost) {cur : Option α}
    (hs : s.sender = .mark cur) (ok : Bool) : SenderStep s l rest lost (s.senderStep ok) := by
  have hok := h.sender
  have hnone : s.sender.unlinked = none := by rw [hs]; rfl
  obtain ⟨hforked, hidle⟩ := h.child (by rw [hs]; rfl)
  rw [hs] at hok
  rw [senderStep, hs]
  cases cur with
  | none =>
    exact .intro l rest (h.moved hnone rfl rfl rfl rfl hok.2 rfl)
      (.quiet rfl rfl rfl rfl id id fun _ hb => hb) rfl
  | some b =>
    obtain ⟨node, hnode⟩ := h.exists_mem (hok.1 b rfl)
    have hfree : ∀ u, (s.app u).node ≠ some b := by
      intro u hu
      rw [hidle u] at hu
      cases hu
    dsimp only
    rw [hnode, Option.map_some]
    refine .intro l rest ⟨?_, ⟨h.next_mem (hok.1 b rfl) hnode, hok.2⟩, fun _ => ⟨hforked, hidle⟩⟩
      (.store hnode rfl rfl rfl (Nat.le_refl _) (fun _ => id) id (fun _ hb => hb) (fun _ hb _ => hb)
        ⟨rfl, fun h => absurd h.1 h.2, fun _ => rfl, Or.inr rfl, fun h => absurd h.1 h.2⟩) rfl
    have hset := h.linked.setExited hfree (shape_eq hnode)
    rw [← shape_setNode _ _ { node with exited := true, handled := node.written }, hnone]
      at hset
    exact hset

theorem Inv.senderStep (h : s.Inv l rest lost) (ok : Bool) :
    SenderStep s l rest lost (s.senderStep ok) := by
  cases hs : s.sender with
  | idle =>
    rw [GatorState.senderStep, hs]
    exact .intro l rest h (.quiet rfl rfl rfl rfl id id fun _ hb => hb) rfl
  | load b => exact h.senderStep_load hs ok
  | visit prev a => exact h.senderStep_visit hs ok
  | fetch prev a => exact h.senderStep_fetch hs ok
  | test prev a next => exact h.senderStep_test hs ok
  | swap prev a next =>
    cases prev with
    | head => exact h.senderStep_swapHead hs ok
    | link b => exact h.senderStep_swapLink hs ok
  | release prev a next => exact h.senderStep_release hs ok
  | walk cur back => exact h.senderStep_walk hs ok
  | mark cur => exact h.senderStep_mark hs ok

end sender

/-! ## Runs -/

theorem inv_setup : (setup : GatorState τ α).Inv [] [] fun _ => False where
  linked := by
    refine ⟨rfl, ?_, ?_, ?_, ?_, ?_⟩
    · rintro t a ⟨⟩
    · rintro t u a ⟨⟩
    · rintro t a ⟨⟩
    · rintro t a ⟨⟩
    · rintro a ⟨⟩
  sender := rfl
  child h := by cases h

section runs

variable [DecidableEq τ] [DecidableEq α] {s : GatorState τ α} {l rest : List α} {lost : α → Prop}

/-- A step of no thread that is not a fork, and not the beginning of a loop over the threads. -/
theorem Inv.step_sender (h : s.Inv l rest lost) {action : GatorAction τ α} (halong : action.Along)
    (hthread : action.thread = none) : SenderStep s l rest lost (s.step action) := by
  cases action with
  | fork t => exact absurd halong id
  | startSender =>
    rw [step]
    split_ifs with hidle
    · refine .intro l rest ⟨h.linked, h.sender, fun hmarks => ?_⟩
        (.quiet rfl rfl rfl rfl id (fun _ => rfl) fun _ hb => hb) rfl
      rw [hidle] at hmarks
      cases hmarks
    · exact .intro l rest h (.quiet rfl rfl rfl rfl id id fun _ hb => hb) rfl
  | start =>
    rw [step]
    split_ifs
    · exact .intro l rest ⟨h.linked, h.sender, h.child⟩
        (.quiet rfl rfl rfl rfl (fun _ => rfl) id fun _ hb => hb) rfl
    · exact .intro l rest h (.quiet rfl rfl rfl rfl id id fun _ hb => hb) rfl
  | stop =>
    rw [step]
    split_ifs with hguard
    · refine .intro l rest (h.stopped hguard.1 _)
        ⟨rfl, rfl, Nat.le_succ _, ?_, id, fun _ hb => hb, ?_⟩ rfl
      · exact fun heq => absurd heq (Nat.succ_ne_self _)
      · exact fun b _ node' hnode' => ⟨node', hnode', .refl (fun h => h.2 h.1) node'⟩
    · exact .intro l rest h (.quiet rfl rfl rfl rfl id id fun _ hb => hb) rfl
  | sweep => exact absurd halong id
  | sender ok => exact h.senderStep ok
  | _ => cases hthread

/-- A loop over the threads begins, with the whole list before the sender. -/
theorem Inv.step_sweep (h : s.Inv l rest lost) (hidle : s.sender = .idle)
    (hforked : s.forked = false) :
    ∃ s', s.step .sweep = some s' ∧ s'.Inv l l lost ∧ s'.visited = [] ∧ s'.released = [] ∧
      s'.missed = [] ∧ s'.shape = s.shape := by
  have hnone : s.sender.unlinked = none := by rw [hidle]; rfl
  rw [step, if_pos ⟨hidle, hforked⟩]
  refine ⟨_, rfl, ?_, rfl, rfl, rfl, rfl⟩
  refine h.moved hnone rfl rfl rfl rfl ?_ (marks_loop _ _)
  rw [h.linked.chain.eq_head?]
  exact SenderOk.loop (List.suffix_refl l)

/-- The process forks. Nodes that were not linked are lost in the child. -/
theorem Inv.step_fork (h : s.Inv l rest lost) (t : τ) :
    ∃ s' rest' lost', s.step (.fork t) = some s' ∧ s'.Inv l rest' lost' := by
  rw [step]
  split_ifs
  · refine ⟨_, [], fun b => (s.shape b).isSome ∧ b ∉ l, rfl, ?_, ⟨h.threads_mem, rfl⟩,
      fun _ => ⟨rfl, fun _ => rfl⟩⟩
    exact h.linked.dropAll.mono fun b hb => Or.inr hb
  · exact ⟨s, rest, lost, rfl, h⟩

/-- A step is defined, and keeps the invariant. Only a fork loses nodes. -/
theorem Inv.step (h : s.Inv l rest lost) (action : GatorAction τ α) :
    ∃ s' l' rest' lost', s.step action = some s' ∧ s'.Inv l' rest' lost' ∧
      ((∀ t, action ≠ .fork t) → lost' = lost) := by
  cases hthread : action.thread with
  | some t =>
    obtain ⟨s', l', hstep, hinv, -⟩ := h.step_thread hthread
    exact ⟨s', l', rest, lost, hstep, hinv, fun _ => rfl⟩
  | none =>
    by_cases halong : action.Along
    · obtain ⟨s', l', rest', hstep, hinv, -⟩ := h.step_sender halong hthread
      exact ⟨s', l', rest', lost, hstep, hinv, fun _ => rfl⟩
    cases action with
    | fork t =>
      obtain ⟨s', rest', lost', hstep, hinv⟩ := h.step_fork t
      exact ⟨s', l, rest', lost', hstep, hinv, fun hnot => absurd rfl (hnot t)⟩
    | sweep =>
      by_cases hguard : s.sender = .idle ∧ s.forked = false
      · obtain ⟨s', hstep, hinv, -⟩ := h.step_sweep hguard.1 hguard.2
        exact ⟨s', l, l, lost, hstep, hinv, fun _ => rfl⟩
      · exact ⟨s, l, rest, lost, by rw [GatorState.step, if_neg hguard], h, fun _ => rfl⟩
    | _ => exact absurd trivial halong

/-- Every run is defined. -/
theorem Inv.run (h : s.Inv l rest lost) (actions : List (GatorAction τ α)) :
    ∃ s' l' rest' lost', run GatorState.step s actions = some s' ∧ s'.Inv l' rest' lost' ∧
      ((∀ t, .fork t ∉ actions) → lost' = lost) := by
  induction actions generalizing s l rest lost with
  | nil => exact ⟨s, l, rest, lost, rfl, h, fun _ => rfl⟩
  | cons action actions ih =>
    obtain ⟨s₁, l₁, rest₁, lost₁, hstep, hinv₁, hlost₁⟩ := h.step action
    obtain ⟨s₂, l₂, rest₂, lost₂, hrun, hinv₂, hlost₂⟩ := ih hinv₁
    refine ⟨s₂, l₂, rest₂, lost₂, run_cons_eq_some.mpr ⟨s₁, hstep, hrun⟩, hinv₂, fun hnot => ?_⟩
    rw [hlost₂ fun t ht => hnot t (List.mem_cons_of_mem _ ht),
      hlost₁ fun t ht => hnot t (ht ▸ List.mem_cons_self)]

/-- Whatever the threads and the sender do, in any order: no access is to memory that is not
    allocated. The list is finite and has no cycle. A thread has a node of its own, which is in the
    list and not marked once it is linked. As long as the process does not fork, every node in the
    memory is in the list, belongs to a thread, or is the one that the sender frees next. -/
theorem run_safe (actions : List (GatorAction τ α)) :
    ∃ s l, Misc.run GatorState.step (setup : GatorState τ α) actions = some s ∧
      Chain (linkOf s.shape) s.threads l ∧ l.Nodup ∧
      (∀ t a, s.app t = .linked a → a ∈ l) ∧
      (∀ t a, (s.app t).node = some a → ∃ node, s.heap a = some node ∧ node.exited = false) ∧
      (∀ t u a, (s.app t).node = some a → (s.app u).node = some a → t = u) ∧
      ((∀ t, .fork t ∉ actions) → ∀ a, (s.heap a).isSome →
        a ∈ l ∨ (∃ t, (s.app t).own = some a) ∨ s.sender.unlinked = some a) := by
  obtain ⟨s, l, rest, lost, hrun, hinv, hlost⟩ := inv_setup.run actions
  refine ⟨s, l, hrun, hinv.linked.chain, hinv.linked.chain.nodup, hinv.linked.linked,
    fun t a ht => hinv.exists_live ht, hinv.linked.inj, fun hnot a ha => ?_⟩
  have hkept := hinv.linked.kept a (by rw [shape, Option.isSome_map]; exact ha)
  rw [hlost hnot] at hkept
  simpa using hkept

end runs

end GatorState

end LibCollector.Streamline
