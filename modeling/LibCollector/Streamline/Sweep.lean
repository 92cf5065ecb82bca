import LibCollector.Streamline.ListSafety

/-!
# One loop over the threads

What a loop over the threads in `gator_func` of `src/collectors/streamline_annotate.cpp` does from
its beginning to its end, while the threads go on: it comes to the nodes that were in the list at
the beginning, once each and in order, frees those of threads that had exited but for one at most,
and ends after a bounded number of the sender's own steps (`sweep_complete`).
-/

namespace LibCollector.Streamline

open LibCollector.Misc

variable {τ α : Type*}

/-- The node that the sender has come to. -/
def SweepState.current : SweepState α → Option α
  | .fetch _ a => some a
  | .test _ a _ => some a
  | .swap _ a _ => some a
  | .release _ a _ => some a
  | .walk _ (some (_, a)) => some a
  | _ => none

/-- What `prev` points to, where the sender uses it. -/
def SweepState.prev : SweepState α → Option (Prev α)
  | .visit prev _ => some prev
  | .fetch prev _ => some prev
  | .test prev _ _ => some prev
  | .swap prev _ _ => some prev
  | .release prev _ _ => some prev
  | .walk _ (some (prev, _)) => some prev
  | _ => none

namespace GatorState

/-- Of the nodes in `E`, those that the sender has not come to are nodes of threads that have
    exited, and the others have been freed but for one at most, which was the first of the list
    until another one was put in front of it. -/
structure Reaps (E : α → Prop) (s : GatorState τ α) (rest : List α) : Prop where
  ahead : ∀ a ∈ rest, E a → Dead s.shape a
  done : ∀ a ∈ s.visited, E a →
    a ∈ s.released ∨ a ∈ s.missed ∨ s.sender.current = some a ∧ Dead s.shape a
  few : s.missed.length ≤ 1
  first : s.sender.prev = some .head → s.missed = []

variable {s s' : GatorState τ α} {l rest rest' : List α} {lost E : α → Prop} {prev : Prev α} {a : α}
  {next : Option α}

theorem Reaps.threadFrame (h : Reaps E s rest) (hframe : ThreadFrame s s') : Reaps E s' rest where
  ahead a ha hE := hframe.dead a (h.ahead a ha hE)
  done a ha hE := by
    rw [hframe.visited] at ha
    rw [hframe.released, hframe.missed, hframe.sender]
    exact (h.done a ha hE).imp_right (Or.imp_right (And.imp_right (hframe.dead a)))
  few := by
    rw [hframe.missed]
    exact h.few
  first := by
    rw [hframe.missed, hframe.sender]
    exact h.first

theorem Inv.rest_suffix (h : s.Inv l rest lost) : rest <:+ l := by
  have hok := h.sender
  cases hs : s.sender with
  | idle =>
    rw [hs] at hok
    rw [show rest = [] from hok]
    exact List.nil_suffix
  | load b =>
    rw [hs] at hok
    exact (List.suffix_cons b rest).trans hok
  | visit prev a =>
    rw [hs] at hok
    exact hok.2.suffix
  | fetch prev a =>
    rw [hs] at hok
    exact (List.suffix_cons a rest).trans (Position.suffix hok)
  | test prev a next =>
    rw [hs] at hok
    exact (List.suffix_cons a rest).trans hok.1.suffix
  | swap prev a next =>
    rw [hs] at hok
    exact (List.suffix_cons a rest).trans hok.1.suffix
  | release prev a next =>
    rw [hs] at hok
    exact hok.1.suffix
  | walk cur back =>
    rw [hs] at hok
    rcases back with - | ⟨prev, a⟩
    · rw [hok.2]
      exact List.nil_suffix
    · exact (List.suffix_cons a rest).trans hok.2.suffix
  | mark cur =>
    rw [hs] at hok
    rw [hok.2]
    exact List.nil_suffix

/-! ## A step of the sender -/

theorem prev_loop {q : Option α} (h : (SweepState.loop prev q).prev = some .head) :
    prev = .head := by
  cases q with
  | none => cases h
  | some a => exact Option.some.inj h

/-- A step that adds nothing to the history. -/
theorem Reaps.quiet (h : Reaps E s rest) (hvisited : s'.visited = s.visited)
    (hreleased : s'.released = s.released) (hmissed : s'.missed = s.missed)
    (hdead : ∀ a, Dead s.shape a → Dead s'.shape a)
    (hcurrent : ∀ a, s.sender.current = some a → Dead s.shape a → s'.sender.current = some a)
    (hprev : s'.sender.prev = some .head → s.sender.prev = some .head) :
    Reaps E s' rest where
  ahead a ha hE := hdead a (h.ahead a ha hE)
  done a ha hE := by
    rw [hvisited] at ha
    rw [hreleased, hmissed]
    rcases h.done a ha hE with hfreed | hmiss | ⟨hcur, ha'⟩
    · exact Or.inl hfreed
    · exact Or.inr (Or.inl hmiss)
    · exact Or.inr (Or.inr ⟨hcurrent a hcur ha', hdead a ha'⟩)
  few := by
    rw [hmissed]
    exact h.few
  first hhead := by
    rw [hmissed]
    exact h.first (hprev hhead)

/-- The sender comes to a node. -/
theorem Reaps.visit (hr : Reaps E s rest) (hvisited : s'.visited = s.visited ++ [a])
    (hrest : rest = a :: rest') (hreleased : s'.released = s.released)
    (hmissed : s'.missed = s.missed) (hdead : ∀ b, Dead s.shape b → Dead s'.shape b)
    (hnone : s.sender.current = none) (hcurrent : s'.sender.current = some a)
    (hprev : s'.sender.prev = s.sender.prev) : Reaps E s' rest' where
  ahead b hb hE := hdead b (hr.ahead b (by rw [hrest]; exact List.mem_cons_of_mem _ hb) hE)
  done b hb hE := by
    rw [hvisited, List.mem_append, List.mem_singleton] at hb
    rw [hreleased, hmissed, hcurrent]
    rcases hb with hb | rfl
    · rcases hr.done b hb hE with hfreed | hmiss | ⟨hcur, -⟩
      · exact Or.inl hfreed
      · exact Or.inr (Or.inl hmiss)
      · rw [hnone] at hcur
        cases hcur
    · refine Or.inr (Or.inr ⟨rfl, hdead b (hr.ahead b ?_ hE)⟩)
      rw [hrest]
      exact List.mem_cons_self
  few := by
    rw [hmissed]
    exact hr.few
  first := by
    rw [hmissed, hprev]
    exact hr.first

/-- The sender fails to take out the first node. The nodes behind it can all be taken out. -/
theorem Reaps.miss (hr : Reaps E s rest) (hs : s.sender.prev = some .head)
    (hcurrent : s.sender.current = some a) : Reaps E (s.miss a) rest where
  ahead := hr.ahead
  done b hb hE := by
    rcases hr.done b hb hE with hfreed | hmiss | ⟨hcur, -⟩
    · exact Or.inl hfreed
    · exact Or.inr (Or.inl (List.mem_append_left _ hmiss))
    · rw [hcurrent] at hcur
      obtain rfl := Option.some.inj hcur
      exact Or.inr (Or.inl (List.mem_append_right _ List.mem_cons_self))
  few := by
    rw [GatorState.miss, hr.first hs]
    exact Nat.le_refl 1
  first h := by cases h

/-- The sender frees the node that it has come to. -/
theorem Reaps.release (hr : Reaps E s rest) (hs : s.sender = .release prev a next)
    (hrest : a ∉ rest) (hvisited : s'.visited = s.visited)
    (hreleased : s'.released = s.released ++ [a]) (hmissed : s'.missed = s.missed)
    (hdead : ∀ b, Dead s.shape b → b ≠ a → Dead s'.shape b)
    (hprev : s'.sender.prev = some .head → prev = .head) : Reaps E s' rest where
  ahead b hb hE := by
    refine hdead b (hr.ahead b hb hE) ?_
    rintro rfl
    exact hrest hb
  done b hb hE := by
    rw [hvisited] at hb
    rw [hreleased, hmissed, List.mem_append, List.mem_singleton]
    rcases hr.done b hb hE with hfreed | hmiss | ⟨hcur, -⟩
    · exact Or.inl (Or.inl hfreed)
    · exact Or.inr (Or.inl hmiss)
    · rw [hs] at hcur
      exact Or.inl (Or.inr (Option.some.inj hcur).symm)
  few := by
    rw [hmissed]
    exact hr.few
  first hhead := by
    rw [hmissed]
    refine hr.first ?_
    rw [hs, hprev hhead]
    rfl

section step

variable [DecidableEq α]

/-- A store that keeps a node marked. -/
theorem dead_setNode {a b : α} {old : ThreadNode α} (node : ThreadNode α)
    (hold : s.heap a = some old)
    (hexited : old.exited → node.exited) (hb : Dead s.shape b) :
    Dead (s.setNode a node).shape b := by
  obtain ⟨q, hq⟩ := hb
  rw [shape_setNode]
  by_cases hba : b = a
  · subst hba
    rw [shape_eq hold] at hq
    have hmarked : node.exited = true := hexited (Prod.mk.inj (Option.some.inj hq)).2
    exact ⟨node.next, by rw [Function.update_self, hmarked]⟩
  · exact ⟨q, by rw [Function.update_of_ne hba, hq]⟩

/-- A node stays marked until it is freed. -/
theorem dead_senderStep {ok : Bool} (hstep : s.senderStep ok = some s') {b : α}
    (hb : Dead s.shape b) (hne : s.sender.unlinked ≠ some b) : Dead s'.shape b := by
  rw [senderStep] at hstep
  cases hs : s.sender with
  | idle =>
    rw [hs] at hstep
    obtain rfl := Option.some.inj hstep
    exact hb
  | load c =>
    rw [hs] at hstep
    obtain ⟨node, hnode, rfl⟩ := Option.map_eq_some_iff.mp hstep
    exact hb
  | visit prev a =>
    rw [hs] at hstep
    obtain ⟨node, hnode, rfl⟩ := Option.map_eq_some_iff.mp hstep
    dsimp only
    split_ifs
    · exact dead_setNode { node with handled := node.written, seen := s.sweeps } hnode id hb
    · exact dead_setNode { node with seen := s.sweeps } hnode id hb
    · exact dead_setNode { node with seen := s.sweeps } hnode id hb
  | fetch prev a =>
    rw [hs] at hstep
    obtain ⟨node, hnode, rfl⟩ := Option.map_eq_some_iff.mp hstep
    exact hb
  | test prev a next =>
    rw [hs] at hstep
    obtain ⟨node, hnode, rfl⟩ := Option.map_eq_some_iff.mp hstep
    split_ifs
    · exact hb
    · exact hb
  | swap prev a next =>
    rw [hs] at hstep
    cases prev with
    | head =>
      obtain rfl := Option.some.inj hstep
      split_ifs
      · exact hb
      · exact hb
    | link c =>
      obtain ⟨node, hnode, rfl⟩ := Option.map_eq_some_iff.mp hstep
      split_ifs
      · exact dead_setNode { node with next := next } hnode id hb
      · exact hb
  | release prev a next =>
    rw [hs] at hstep hne
    obtain ⟨node, hnode, rfl⟩ := Option.map_eq_some_iff.mp hstep
    obtain ⟨q, hq⟩ := hb
    have hba : b ≠ a := by
      rintro rfl
      exact hne rfl
    have hshape : (s.freeNode a).shape b = s.shape b := by
      rw [shape_freeNode, Function.update_of_ne hba]
    exact ⟨q, hshape.trans hq⟩
  | walk cur back =>
    rw [hs] at hstep
    cases cur with
    | none =>
      rcases back with - | ⟨prev, a⟩
      · obtain rfl := Option.some.inj hstep
        exact hb
      · obtain rfl := Option.some.inj hstep
        exact hb
    | some c =>
      obtain ⟨node, hnode, rfl⟩ := Option.map_eq_some_iff.mp hstep
      exact dead_setNode { node with handled := node.written } hnode id hb
  | mark cur =>
    rw [hs] at hstep
    cases cur with
    | none =>
      obtain rfl := Option.some.inj hstep
      exact hb
    | some c =>
      obtain ⟨node, hnode, rfl⟩ := Option.map_eq_some_iff.mp hstep
      exact dead_setNode { node with exited := true, handled := node.written } hnode
        (fun _ => rfl) hb

/-- A node that the sender has come to is one of a thread that had not exited at the beginning, or
    is freed, or stays because the list has changed in front of it. -/
theorem Reaps.senderStep (hr : Reaps E s rest) (h : s.Inv l rest lost) {ok : Bool}
    (hstep : s.senderStep ok = some s') (hvisited : s'.visited ++ rest' = s.visited ++ rest) :
    Reaps E s' rest' := by
  have hstays : ∀ a, Dead s.shape a → s.sender.unlinked ≠ some a → Dead s'.shape a :=
    fun a ha hne => dead_senderStep hstep ha hne
  have hdead : s.sender.unlinked = none → ∀ a, Dead s.shape a → Dead s'.shape a := by
    intro hnone a ha
    exact hstays a ha (by simp [hnone])
  have hok := h.sender
  have hsame : s'.visited = s.visited → rest' = rest := by
    intro heq
    rw [heq] at hvisited
    exact List.append_cancel_left hvisited
  rw [GatorState.senderStep] at hstep
  cases hs : s.sender with
  | idle =>
    rw [hs] at hstep
    obtain rfl := Option.some.inj hstep
    rw [hsame rfl]
    exact hr
  | load b =>
    rw [hs] at hstep hdead
    obtain ⟨node, hnode, rfl⟩ := Option.map_eq_some_iff.mp hstep
    rw [hsame rfl]
    refine hr.quiet rfl rfl rfl (hdead rfl) (fun a ha => ?_)
      fun hprev => by cases prev_loop hprev
    rw [hs] at ha
    cases ha
  | visit prev a =>
    rw [hs] at hstep hok hdead
    obtain ⟨tail, rfl⟩ := List.head?_eq_some_iff.mp hok.1
    have hnone : s.sender.current = none := by rw [hs]; rfl
    have hcome : s'.visited = s.visited ++ [a] → a :: tail = a :: rest' := by
      intro heq
      rw [heq, List.append_assoc] at hvisited
      exact (List.append_cancel_left hvisited).symm
    obtain ⟨node, hnode, rfl⟩ := Option.map_eq_some_iff.mp hstep
    dsimp only at hcome hdead ⊢
    split_ifs at hcome hdead ⊢
    · exact hr.visit rfl (hcome rfl) rfl rfl (hdead rfl) hnone rfl
        (by rw [hs]; rfl)
    · exact hr.visit rfl (hcome rfl) rfl rfl (hdead rfl) hnone rfl
        (by rw [hs]; rfl)
    · exact hr.visit rfl (hcome rfl) rfl rfl (hdead rfl) hnone rfl
        (by rw [hs]; rfl)
  | fetch prev a =>
    rw [hs] at hstep hdead
    obtain ⟨node, hnode, rfl⟩ := Option.map_eq_some_iff.mp hstep
    rw [hsame rfl]
    refine hr.quiet rfl rfl rfl (hdead rfl) (fun a ha => ?_) fun hprev => ?_
    · rw [hs] at ha
      exact fun _ => ha
    · rw [hs]
      exact hprev
  | test prev a next =>
    rw [hs] at hstep
    obtain ⟨node, hnode, rfl⟩ := Option.map_eq_some_iff.mp hstep
    by_cases hexited : node.exited = true
    · rw [if_pos hexited] at hsame ⊢
      rw [hsame rfl]
      refine hr.quiet rfl rfl rfl (fun _ ha => ha) (fun a ha => ?_) fun hprev => ?_
      · rw [hs] at ha
        exact fun _ => ha
      · rw [hs]
        exact hprev
    · rw [if_neg hexited] at hsame ⊢
      rw [hsame rfl]
      refine hr.quiet rfl rfl rfl (fun _ ha => ha) (fun b hb hmarked => ?_) fun h => by cases h
      -- The thread of this node has not exited.
      rw [hs] at hb
      obtain rfl := Option.some.inj hb
      obtain ⟨q, hq⟩ := hmarked
      rw [shape_eq hnode] at hq
      exact absurd (Prod.mk.inj (Option.some.inj hq)).2 hexited
  | swap prev a next =>
    have hcurrent : s.sender.current = some a := by rw [hs]; rfl
    have hprev : s.sender.prev = some prev := by rw [hs]; rfl
    rw [hs] at hstep hdead hok
    cases prev with
    | head =>
      obtain rfl := Option.some.inj hstep
      split_ifs at hsame hdead ⊢
      · rw [hsame rfl]
        refine hr.quiet rfl rfl rfl (hdead rfl) (fun b hb _ => ?_) fun _ => hprev
        exact hcurrent.symm.trans hb
      · rw [hsame rfl]
        exact hr.miss hprev hcurrent
    | link b =>
      obtain ⟨node, hnode, rfl⟩ := Option.map_eq_some_iff.mp hstep
      have hlink : node.next = some a := h.next_eq hok.1 hnode
      rw [if_pos hlink] at hsame hdead ⊢
      rw [hsame rfl]
      refine hr.quiet rfl rfl rfl (hdead rfl) (fun b hb _ => ?_) fun h => by cases h
      exact hcurrent.symm.trans hb
  | release prev a next =>
    have hnot : a ∉ rest := by
      rw [hs] at hok
      exact fun ha => hok.2.2.2 (hok.1.suffix.mem ha)
    rw [hs] at hstep hstays
    obtain ⟨node, hnode, rfl⟩ := Option.map_eq_some_iff.mp hstep
    rw [hsame rfl]
    exact hr.release hs hnot rfl rfl rfl
      (fun b hb hne => hstays b hb fun h => hne (Option.some.inj h).symm) prev_loop
  | walk cur back =>
    rw [hs] at hstep hdead
    have hback : ∀ {cur'}, (SweepState.walk cur' back).current = s.sender.current ∧
        (SweepState.walk cur' back).prev = s.sender.prev := by
      rw [hs]
      rcases back with - | ⟨prev, a⟩
      · exact ⟨rfl, rfl⟩
      · exact ⟨rfl, rfl⟩
    cases cur with
    | none =>
      rcases back with - | ⟨prev, a⟩
      · obtain rfl := Option.some.inj hstep
        rw [hsame rfl]
        refine hr.quiet rfl rfl rfl (hdead rfl) (fun b hb _ => ?_) fun h => by cases h
        rw [hs] at hb
        cases hb
      · obtain rfl := Option.some.inj hstep
        rw [hsame rfl]
        refine hr.quiet rfl rfl rfl (hdead rfl) (fun b hb _ => ?_)
          fun hprev => ?_
        · rw [hs] at hb
          exact hb
        · rw [hs]
          exact hprev
    | some c =>
      obtain ⟨node, hnode, rfl⟩ := Option.map_eq_some_iff.mp hstep
      rw [hsame rfl]
      exact hr.quiet rfl rfl rfl (hdead rfl)
        (fun b hb _ => hback.1.trans hb) fun hprev => hback.2.symm.trans hprev
  | mark cur =>
    have hnone : s.sender.current = none := by rw [hs]; rfl
    rw [hs] at hstep hdead
    cases cur with
    | none =>
      obtain rfl := Option.some.inj hstep
      rw [hsame rfl]
      refine hr.quiet rfl rfl rfl (hdead rfl) (fun b hb _ => ?_) fun h => by cases h
      rw [hnone] at hb
      cases hb
    | some c =>
      obtain ⟨node, hnode, rfl⟩ := Option.map_eq_some_iff.mp hstep
      rw [hsame rfl]
      refine hr.quiet rfl rfl rfl (hdead rfl) (fun b hb _ => ?_) fun h => by cases h
      rw [hnone] at hb
      cases hb

end step

/-! ## The length of a loop -/

section length

/-- A bound on the steps of the sender up to the end of a loop in which all calls succeed, for the
    number of nodes that it has not come to. -/
def work (ahead : Nat) : SweepState α → Nat
  | .visit _ _ => 5 * ahead
  | .fetch _ _ => 5 * ahead + 4
  | .test _ _ _ => 5 * ahead + 3
  | .swap _ _ _ => 5 * ahead + 2
  | .load _ => 5 * ahead + 1
  | .release _ _ _ => 5 * ahead + 1
  | _ => 0

/-- The sender is not in `gator_stop_capturing`, or in the child of a fork. -/
def Sweeping : SweepState α → Prop
  | .walk _ _ => False
  | .mark _ => False
  | _ => True

theorem work_loop (ahead : Nat) (prev : Prev α) (q : Option α) :
    work ahead (.loop prev q) ≤ 5 * ahead := by
  cases q with
  | none => exact Nat.zero_le _
  | some a => exact Nat.le_refl _

theorem sweeping_loop (prev : Prev α) (q : Option α) : Sweeping (.loop prev q) := by
  cases q with
  | none => trivial
  | some a => trivial

theorem idle_of_work (h : s.Inv l rest lost) (hsweeping : Sweeping s.sender)
    (hwork : work rest.length s.sender = 0) : s.sender = .idle := by
  have hok := h.sender
  cases hs : s.sender with
  | idle => rfl
  | visit prev a =>
    rw [hs] at hok hwork
    obtain ⟨tail, rfl⟩ := List.head?_eq_some_iff.mp hok.1
    exact absurd hwork (Nat.succ_ne_zero _)
  | walk cur back =>
    rw [hs] at hsweeping
    exact absurd hsweeping id
  | mark cur =>
    rw [hs] at hsweeping
    exact absurd hsweeping id
  | _ =>
    rw [hs] at hwork
    exact absurd hwork (Nat.succ_ne_zero _)

variable [DecidableEq α]

/-- A step of the sender in which all calls succeed brings the end of the loop nearer. -/
theorem work_senderStep (h : s.Inv l rest lost) (hsweeping : Sweeping s.sender)
    (hstep : s.senderStep true = some s') (hvisited : s'.visited ++ rest' = s.visited ++ rest) :
    Sweeping s'.sender ∧
      (work rest'.length s'.sender < work rest.length s.sender ∨ s'.sender = .idle) := by
  have hok := h.sender
  have hlength := congrArg List.length hvisited
  rw [List.length_append, List.length_append] at hlength
  rw [senderStep] at hstep
  cases hs : s.sender with
  | idle =>
    rw [hs] at hstep
    obtain rfl := Option.some.inj hstep
    exact ⟨hsweeping, Or.inr hs⟩
  | load b =>
    rw [hs] at hstep
    obtain ⟨node, hnode, rfl⟩ := Option.map_eq_some_iff.mp hstep
    have hsame := Nat.add_left_cancel hlength
    refine ⟨sweeping_loop _ _, Or.inl (Nat.lt_of_le_of_lt (work_loop _ _ _) ?_)⟩
    show 5 * rest'.length < 5 * rest.length + 1
    omega
  | visit prev a =>
    rw [hs] at hstep
    obtain ⟨node, hnode, rfl⟩ := Option.map_eq_some_iff.mp hstep
    have hone : ∀ {visited : List α}, visited = s.visited ++ [a] →
        visited.length + rest'.length = s.visited.length + rest.length →
        5 * rest'.length + 4 < 5 * rest.length := by
      rintro visited rfl hsum
      rw [List.length_append, List.length_singleton] at hsum
      omega
    dsimp only at hlength ⊢
    by_cases hcapturing : s.capturing = true
    · rw [if_pos hcapturing, if_pos rfl] at hlength ⊢
      exact ⟨trivial, Or.inl (hone rfl hlength)⟩
    · rw [if_neg hcapturing] at hlength ⊢
      exact ⟨trivial, Or.inl (hone rfl hlength)⟩
  | fetch prev a =>
    rw [hs] at hstep
    obtain ⟨node, hnode, rfl⟩ := Option.map_eq_some_iff.mp hstep
    have hsame := Nat.add_left_cancel hlength
    refine ⟨trivial, Or.inl ?_⟩
    show 5 * rest'.length + 3 < 5 * rest.length + 4
    omega
  | test prev a next =>
    rw [hs] at hstep
    obtain ⟨node, hnode, rfl⟩ := Option.map_eq_some_iff.mp hstep
    split_ifs at hlength ⊢
    · have hsame := Nat.add_left_cancel hlength
      refine ⟨trivial, Or.inl ?_⟩
      show 5 * rest'.length + 2 < 5 * rest.length + 3
      omega
    · have hsame := Nat.add_left_cancel hlength
      refine ⟨trivial, Or.inl ?_⟩
      show 5 * rest'.length + 1 < 5 * rest.length + 3
      omega
  | swap prev a next =>
    have hall : ∀ {sender}, s'.sender = sender → s'.visited = s.visited → Sweeping sender →
        work rest'.length sender = 5 * rest'.length + 1 →
        Sweeping s'.sender ∧ (work rest'.length s'.sender < work rest.length (.swap prev a next) ∨
          s'.sender = .idle) := by
      intro sender hsender hvis hsw hwork
      rw [hvis] at hlength
      rw [hsender, hwork]
      refine ⟨hsw, Or.inl ?_⟩
      show 5 * rest'.length + 1 < 5 * rest.length + 2
      omega
    rw [hs] at hstep
    cases prev with
    | head =>
      obtain rfl := Option.some.inj hstep
      split_ifs at hall ⊢
      · exact hall rfl rfl trivial rfl
      · exact hall rfl rfl trivial rfl
    | link b =>
      obtain ⟨node, hnode, rfl⟩ := Option.map_eq_some_iff.mp hstep
      split_ifs at hall ⊢
      · exact hall rfl rfl trivial rfl
      · exact hall rfl rfl trivial rfl
  | release prev a next =>
    rw [hs] at hstep
    obtain ⟨node, hnode, rfl⟩ := Option.map_eq_some_iff.mp hstep
    have hsame := Nat.add_left_cancel hlength
    refine ⟨sweeping_loop _ _, Or.inl (Nat.lt_of_le_of_lt (work_loop _ _ _) ?_)⟩
    show 5 * rest'.length < 5 * rest.length + 1
    omega
  | walk cur back =>
    rw [hs] at hsweeping
    exact absurd hsweeping id
  | mark cur =>
    rw [hs] at hsweeping
    exact absurd hsweeping id

end length

/-! ## A whole loop -/

section loop

variable [DecidableEq τ] [DecidableEq α]

/-- A step gets the sender nearer to the end of the loop if it is one of the sender. -/
def Nearer (action : GatorAction τ α) (rest rest' : List α) (sender sender' : SweepState α) :
    Prop :=
  Sweeping sender → action.Succeeds → Sweeping sender' ∧
    (work rest'.length sender' + (if action.bySender then 1 else 0) ≤ work rest.length sender ∨
      sender' = .idle)

/-- A step that is not a fork and not the beginning of another loop. -/
theorem Reaps.step (hr : Reaps E s rest) (h : s.Inv l rest lost) {action : GatorAction τ α}
    (halong : action.Along) :
    ∃ s' l' rest', s.step action = some s' ∧ s'.Inv l' rest' lost ∧ Reaps E s' rest' ∧
      s'.visited ++ rest' = s.visited ++ rest ∧ Nearer action rest rest' s.sender s'.sender := by
  cases hthread : action.thread with
  | some t =>
    obtain ⟨s', l', hstep, hinv, hframe, -⟩ := h.step_thread hthread
    refine ⟨s', l', rest, hstep, hinv, hr.threadFrame hframe, by rw [hframe.visited], ?_⟩
    rw [hframe.sender]
    refine fun hsweeping _ => ⟨hsweeping, Or.inl ?_⟩
    cases action with
    | sender ok => cases hthread
    | _ => exact Nat.le_refl _
  | none =>
    obtain ⟨s', l', rest', hstep, hinv, hvisited, -⟩ := h.step_sender halong hthread
    suffices hmoved : Reaps E s' rest' ∧ Nearer action rest rest' s.sender s'.sender from
      ⟨s', l', rest', hstep, hinv, hmoved.1, hvisited, hmoved.2⟩
    -- `gator_start_capturing`, or the start of a new sender
    have hself : ∀ {capturing forked}, s' = { s with capturing := capturing, forked := forked } →
        (action.bySender = false) →
        Reaps E s' rest' ∧ Nearer action rest rest' s.sender s'.sender := by
      rintro capturing forked rfl hnot
      obtain rfl := List.append_cancel_left hvisited
      refine ⟨hr.quiet rfl rfl rfl (fun _ ha => ha) (fun _ hb _ => hb) id, fun hsweeping _ => ?_⟩
      refine ⟨hsweeping, Or.inl ?_⟩
      rw [hnot]
      exact Nat.le_refl _
    cases action with
    | startSender =>
      rw [GatorState.step] at hstep
      split_ifs at hstep
      · exact hself (Option.some.inj hstep).symm rfl
      · exact hself (Option.some.inj hstep).symm rfl
    | start =>
      rw [GatorState.step] at hstep
      split_ifs at hstep
      · exact hself (Option.some.inj hstep).symm rfl
      · exact hself (Option.some.inj hstep).symm rfl
    | stop =>
      refine ⟨?_, fun _ hsucceeds => absurd hsucceeds id⟩
      rw [GatorState.step] at hstep
      split_ifs at hstep with hguard
      · obtain rfl := Option.some.inj hstep
        obtain rfl := List.append_cancel_left hvisited
        refine hr.quiet rfl rfl rfl (fun _ ha => ha) (fun b hb _ => ?_) fun h => by cases h
        rw [hguard.1] at hb
        cases hb
      · exact (hself (Option.some.inj hstep).symm rfl).1
    | sender ok =>
      refine ⟨hr.senderStep h hstep hvisited, fun hsweeping hsucceeds => ?_⟩
      obtain rfl : ok = true := hsucceeds
      exact work_senderStep h hsweeping hstep hvisited
    | fork t => exact absurd halong id
    | sweep => exact absurd halong id
    | _ => cases hthread

/-- What is said of a loop holds after any steps of the threads and the sender in it. -/
theorem Reaps.run (hr : Reaps E s rest) (h : s.Inv l rest lost)
    {later : List (GatorAction τ α)} (hlater : ∀ action ∈ later, action.Along) :
    ∃ t l' rest', Misc.run GatorState.step s later = some t ∧ t.Inv l' rest' lost ∧
      Reaps E t rest' ∧ t.visited ++ rest' = s.visited ++ rest ∧
      (Sweeping s.sender → (∀ action ∈ later, action.Succeeds) →
        work rest.length s.sender ≤ later.countP GatorAction.bySender → t.sender = .idle) := by
  induction later generalizing s l rest with
  | nil =>
    refine ⟨s, l, rest, rfl, h, hr, rfl, fun hsweeping _ hwork => ?_⟩
    exact idle_of_work h hsweeping (Nat.le_zero.mp hwork)
  | cons action later ih =>
    obtain ⟨s₁, l₁, rest₁, hstep, hinv, hr₁, hvisited, hnearer⟩ :=
      hr.step h (hlater action List.mem_cons_self)
    obtain ⟨t, l', rest', hrun, hinv', hr', hvisited', hends⟩ :=
      ih hr₁ hinv fun b hb => hlater b (List.mem_cons_of_mem _ hb)
    refine ⟨t, l', rest', run_cons_eq_some.mpr ⟨s₁, hstep, hrun⟩, hinv', hr',
      hvisited'.trans hvisited, fun hsweeping hsucceeds hwork => ?_⟩
    obtain ⟨hsweeping₁, hle⟩ := hnearer hsweeping (hsucceeds action List.mem_cons_self)
    refine hends hsweeping₁ (fun b hb => hsucceeds b (List.mem_cons_of_mem _ hb)) ?_
    rw [List.countP_cons] at hwork
    rcases hle with hle | hidle
    · omega
    · rw [hidle]
      exact Nat.zero_le _

/-- From the beginning of a loop on, whatever else happens: the sender comes to the nodes that were
    in the list, in order. When it has ended, it has come to each of them once, and of those whose
    threads had exited before all but one at most are freed. If its calls succeed it ends after
    five steps of its own for each node, whatever the threads do in between. -/
theorem sweep_complete {actions later : List (GatorAction τ α)}
    (hs : Misc.run GatorState.step setup actions = some s) (hidle : s.sender = .idle)
    (hforked : s.forked = false) (hlater : ∀ action ∈ later, action.Along) :
    ∃ l t, Chain (linkOf s.shape) s.threads l ∧
      Misc.run GatorState.step s (.sweep :: later) = some t ∧ t.visited <+: l ∧
      (t.sender = .idle → t.visited = l ∧ ∀ a ∈ l, ∀ b ∈ l, Dead s.shape a → Dead s.shape b →
        a ∉ t.released → b ∉ t.released → a = b) ∧
      ((∀ action ∈ later, action.Succeeds) →
        5 * l.length ≤ later.countP GatorAction.bySender → t.sender = .idle) := by
  obtain ⟨s₀, l, rest, lost, hrun, hinv, -⟩ := inv_setup.run actions
  obtain rfl := Option.some.inj (hs.symm.trans hrun)
  obtain ⟨s₁, hstep, hinv₁, hvisited, hreleased, hmissed, hshape⟩ := hinv.step_sweep hidle hforked
  have hreaps : Reaps (Dead s.shape) s₁ l := by
    refine ⟨fun a _ hE => hshape ▸ hE, fun a ha => ?_, ?_, fun _ => hmissed⟩
    · rw [hvisited] at ha
      cases ha
    · rw [hmissed]
      exact Nat.zero_le _
  obtain ⟨t, l', rest', hrun', hinv', hr', hvisited', hends⟩ := hreaps.run hinv₁ hlater
  rw [hvisited, List.nil_append] at hvisited'
  refine ⟨l, t, hinv.linked.chain, run_cons_eq_some.mpr ⟨s₁, hstep, hrun'⟩, ⟨rest', hvisited'⟩,
    fun hend => ?_, fun hsucceeds hwork => ?_⟩
  · have hrest : rest' = [] := by
      have hok := hinv'.sender
      rw [hend] at hok
      exact hok
    rw [hrest, List.append_nil] at hvisited'
    have hmiss : ∀ a ∈ l, Dead s.shape a → a ∉ t.released → a ∈ t.missed := by
      intro a ha hdead hnot
      rcases hr'.done a (hvisited' ▸ ha) hdead with hfreed | hmiss | ⟨hcur, -⟩
      · exact absurd hfreed hnot
      · exact hmiss
      · rw [hend] at hcur
        cases hcur
    refine ⟨hvisited', fun a ha b hb hda hdb hna hnb => ?_⟩
    have hma := hmiss a ha hda hna
    have hmb := hmiss b hb hdb hnb
    obtain ⟨c, hc⟩ := List.length_eq_one_iff.mp
      (Nat.le_antisymm hr'.few (List.length_pos_of_mem hma))
    rw [hc, List.mem_singleton] at hma hmb
    rw [hma, hmb]
  · have hsender : Sweeping s₁.sender ∧ work l.length s₁.sender ≤ 5 * l.length := by
      rw [GatorState.step, if_pos ⟨hidle, hforked⟩] at hstep
      obtain rfl := Option.some.inj hstep
      exact ⟨sweeping_loop _ _, work_loop _ _ _⟩
    exact hends hsender.1 hsucceeds (hsender.2.trans hwork)

/-- Two threads that link their nodes and exit. -/
def linkAndExit : List (GatorAction Nat Nat) :=
  [.malloc 0 7, .keySet 0, .load 0, .swap 0, .malloc 1 9, .keySet 1, .load 1, .swap 1, .exit 0,
    .exit 1]

/-- The state after them. -/
def exitedState : GatorState Nat Nat :=
  (Misc.run GatorState.step setup linkAndExit).getD setup

/-- A loop in which a third thread puts its node in front of the list. -/
def pushMeanwhile : List (GatorAction Nat Nat) :=
  [.sender true, .malloc 2 11, .keySet 2, .sender true, .load 2, .swap 2] ++
    List.replicate 8 (.sender true)

/-- The loop comes to both nodes, and leaves one of them at most. -/
theorem sweep_complete_linkAndExit :
    ∃ t, Misc.run GatorState.step exitedState (.sweep :: pushMeanwhile) = some t ∧
      t.sender = .idle ∧ t.visited = [9, 7] ∧ (9 ∈ t.released ∨ 7 ∈ t.released) := by
  have hsome : Misc.run GatorState.step setup linkAndExit = some exitedState := rfl
  have htwo : Chain (linkOf exitedState.shape) exitedState.threads [9, 7] :=
    ⟨rfl, some 7, rfl, rfl, none, rfl, rfl⟩
  have hdead : Dead exitedState.shape 9 ∧ Dead exitedState.shape 7 :=
    ⟨⟨some 7, rfl⟩, ⟨none, rfl⟩⟩
  have halong : ∀ action ∈ pushMeanwhile, action.Along := by
    simp [pushMeanwhile, GatorAction.Along]
  have hsucceeds : ∀ action ∈ pushMeanwhile, action.Succeeds := by
    simp [pushMeanwhile, GatorAction.Succeeds]
  obtain ⟨l, t, hchain, hrun, -, hend, hwork⟩ := sweep_complete hsome rfl rfl halong
  obtain rfl := hchain.unique htwo
  have hidle := hwork hsucceeds (by decide)
  obtain ⟨hvisited, hone⟩ := hend hidle
  refine ⟨t, hrun, hidle, hvisited, or_iff_not_imp_left.mpr fun hnine => ?_⟩
  by_contra hseven
  exact absurd (hone 9 (by simp) 7 (by simp) hdead.1 hdead.2 hnine hseven) (by decide)

end loop

end GatorState

end LibCollector.Streamline
