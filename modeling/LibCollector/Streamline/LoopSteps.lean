import LibCollector.Streamline.Sweep

/-!
# The steps to the end of a loop

How far the sender is from the end of its loop over the threads in `gator_func` of
`src/collectors/streamline_annotate.cpp`, also if a call of `gator_connect` or `gator_send` fails:
the sender then makes the loop of `gator_stop_capturing` and goes on (`stepsLeft_senderStep`). A
node that a thread puts into the list adds one step (`stepsLeft_cons`).
-/

namespace LibCollector.Streamline

open LibCollector.Misc

variable {τ α : Type*}

namespace GatorState

variable {s s' : GatorState τ α} {l l' rest rest' w : List α} {lost : α → Prop} {ok : Bool}

/-- The steps of a `gator_stop_capturing` that is still to come, and of the return from it. -/
def stopCost (l : List α) (capturing : Bool) : Nat := if capturing then l.length + 1 else 0

theorem stopCost_le {capturing capturing' : Bool} (hl : l'.length ≤ l.length)
    (hcapturing : capturing' = true → capturing = true) :
    stopCost l' capturing' ≤ stopCost l capturing := by
  unfold stopCost
  split_ifs with h' h
  · omega
  · exact absurd (hcapturing h') h
  · exact Nat.zero_le _
  · exact Nat.le_refl _

theorem stopCost_bound (l : List α) (capturing : Bool) : stopCost l capturing ≤ l.length + 1 := by
  unfold stopCost
  split_ifs
  · exact Nat.le_refl _
  · exact Nat.zero_le _

theorem exists_suffix {cur : Option α} (h : ∀ b, cur = some b → b ∈ l) :
    ∃ w, w <:+ l ∧ cur = w.head? := by
  cases cur with
  | none => exact ⟨[], List.nil_suffix, rfl⟩
  | some b =>
    obtain ⟨pre, tail, rfl⟩ := List.append_of_mem (h b rfl)
    exact ⟨b :: tail, List.suffix_append pre _, rfl⟩

/-- A step of a thread that leaves the first node as it is leaves the list as it is. -/
theorem eq_of_threads (h : s.Inv l rest lost) (h' : s'.Inv l' rest' lost)
    (hgrows : l' = l ∨ ∃ a, l' = a :: l) (hthreads : s'.threads = s.threads) : l' = l := by
  rcases hgrows with heq | ⟨a, rfl⟩
  · exact heq
  · have hhead : l.head? = some a := by
      rw [← h.linked.chain.eq_head?, ← hthreads, h'.linked.chain.eq_head?]
      rfl
    exact absurd (List.mem_of_mem_head? hhead) (List.nodup_cons.mp h'.linked.chain.nodup).1

variable [DecidableEq α]

/-- How many nodes the loop of `gator_stop_capturing` has before it. -/
def walkLeft (l : List α) : Option α → Nat
  | none => 0
  | some b => (l.dropWhile (· ≠ b)).length

/-- A bound on the steps of the sender up to the end of its loop, of which one call may fail. -/
def stepsLeft (l rest : List α) (capturing : Bool) : SweepState α → Nat
  | .idle => 0
  | .walk cur none => walkLeft l cur + 1
  | .walk cur (some _) => walkLeft l cur + 1 + (5 * rest.length + 4) + stopCost l capturing
  | .mark _ => 0
  | sender => work rest.length sender + stopCost l capturing

theorem walkLeft_head (hl : l.Nodup) (hw : w <:+ l) : walkLeft l w.head? = w.length := by
  cases w with
  | nil => rfl
  | cons b tail =>
    obtain ⟨pre, rfl⟩ := hw
    have hnot : ∀ a ∈ pre, decide (a ≠ b) = true := by
      intro a ha
      have hne : a ≠ b := (List.nodup_append.mp hl).2.2 a ha b List.mem_cons_self
      simpa using hne
    rw [List.head?_cons, walkLeft, List.dropWhile_append_of_pos hnot]
    simp

/-- A node in front of the list is not one that the sender has before it. -/
theorem walkLeft_cons {cur : Option α} {a : α} (hl : (a :: l).Nodup)
    (h : ∀ b, cur = some b → b ∈ l) : walkLeft (a :: l) cur = walkLeft l cur := by
  obtain ⟨w, hw, rfl⟩ := exists_suffix h
  have hwa : w <:+ a :: l := hw.trans (List.suffix_cons a l)
  rw [walkLeft_head hl hwa, walkLeft_head (List.nodup_cons.mp hl).2 hw]

theorem stepsLeft_of_sweeping {capturing : Bool} {sender : SweepState α} (h : Sweeping sender)
    (hne : sender ≠ .idle) :
    stepsLeft l rest capturing sender = work rest.length sender + stopCost l capturing := by
  cases sender with
  | idle => exact absurd rfl hne
  | walk cur back => exact absurd h id
  | mark cur => exact absurd h id
  | _ => rfl

/-- Only `gator_stop_capturing` is another step than one in which the calls succeed. -/
theorem senderStep_succeeds
    (h : ∀ prev a, s.sender = .visit prev a → s.capturing = true → ok = true) :
    s.senderStep ok = s.senderStep true := by
  rw [senderStep, senderStep]
  cases hs : s.sender with
  | visit prev a =>
    by_cases hcapturing : s.capturing = true
    · rw [h prev a hs hcapturing]
    · simp [hcapturing]
  | swap prev a next =>
    cases prev with
    | head => rfl
    | link b => rfl
  | walk cur back =>
    rcases cur with - | b
    · rcases back with - | ⟨prev, a⟩
      · rfl
      · rfl
    · rfl
  | mark cur =>
    cases cur with
    | none => rfl
    | some b => rfl
  | _ => rfl

theorem capturing_senderStep (hstep : s.senderStep true = some s') :
    s'.capturing = s.capturing := by
  rw [senderStep] at hstep
  cases hs : s.sender with
  | idle =>
    rw [hs] at hstep
    cases hstep
    rfl
  | visit prev a =>
    rw [hs] at hstep
    obtain ⟨node, -, rfl⟩ := Option.map_eq_some_iff.mp hstep
    by_cases hcapturing : s.capturing = true
    · simp [hcapturing, setNode]
    · simp [hcapturing, setNode]
  | test prev a next =>
    rw [hs] at hstep
    obtain ⟨node, -, rfl⟩ := Option.map_eq_some_iff.mp hstep
    split_ifs
    · rfl
    · rfl
  | swap prev a next =>
    rw [hs] at hstep
    cases prev with
    | head =>
      cases hstep
      split_ifs
      · rfl
      · rfl
    | link b =>
      obtain ⟨node, -, rfl⟩ := Option.map_eq_some_iff.mp hstep
      split_ifs
      · rfl
      · rfl
  | walk cur back =>
    rw [hs] at hstep
    rcases cur with - | b
    · rcases back with - | ⟨prev, a⟩
      · cases hstep
        rfl
      · cases hstep
        rfl
    · obtain ⟨node, -, rfl⟩ := Option.map_eq_some_iff.mp hstep
      rfl
  | mark cur =>
    rw [hs] at hstep
    rcases cur with - | b
    · cases hstep
      rfl
    · obtain ⟨node, -, rfl⟩ := Option.map_eq_some_iff.mp hstep
      rfl
  | _ =>
    rw [hs] at hstep
    obtain ⟨node, -, rfl⟩ := Option.map_eq_some_iff.mp hstep
    rfl

/-- A step in which the calls succeed, outside `gator_stop_capturing`. -/
theorem stepsLeft_sweeping (h : s.Inv l rest lost) (hsweeping : Sweeping s.sender)
    (hne : s.sender ≠ .idle) (hstep : s.senderStep true = some s')
    (hvisited : s'.visited ++ rest' = s.visited ++ rest) (hl : l'.length ≤ l.length) :
    stepsLeft l' rest' s'.capturing s'.sender < stepsLeft l rest s.capturing s.sender := by
  have hcost : stopCost l' s'.capturing ≤ stopCost l s.capturing := by
    refine stopCost_le hl fun hcapturing => ?_
    rw [← capturing_senderStep hstep]
    exact hcapturing
  obtain ⟨hsweeping', hwork⟩ := work_senderStep h hsweeping hstep hvisited
  have hpos : work rest.length s.sender ≠ 0 := fun hzero => hne (idle_of_work h hsweeping hzero)
  rw [stepsLeft_of_sweeping hsweeping hne]
  by_cases hidle : s'.sender = .idle
  · rw [hidle, stepsLeft]
    omega
  · rw [stepsLeft_of_sweeping hsweeping' hidle]
    rcases hwork with hwork | hwork
    · omega
    · exact absurd hwork hidle

/-- A call fails, and the sender begins to stop the capturing. -/
theorem stepsLeft_fails {prev : Prev α} {a : α} (h : s.Inv l rest lost)
    (hs : s.sender = .visit prev a) (hcapturing : s.capturing = true)
    (hstep : s.senderStep false = some s') (h' : s'.Inv l' rest' lost)
    (hvisited : s'.visited ++ rest' = s.visited ++ rest) (hl : l'.length ≤ l.length) :
    stepsLeft l' rest' s'.capturing s'.sender < stepsLeft l rest s.capturing s.sender := by
  have hok := h.sender
  rw [hs] at hok
  obtain ⟨tail, rfl⟩ := List.head?_eq_some_iff.mp hok.1
  rw [senderStep, hs] at hstep
  obtain ⟨node, -, rfl⟩ := Option.map_eq_some_iff.mp hstep
  simp only [hcapturing, if_true, Bool.false_eq_true, if_false] at hvisited h' ⊢
  obtain rfl : rest' = tail := by simpa [setNode] using hvisited
  have hthreads : s.threads = l'.head? := h'.linked.chain.eq_head?
  have hwalk : walkLeft l' s.threads = l'.length := by
    rw [hthreads]
    exact walkLeft_head h'.linked.chain.nodup (List.suffix_refl l')
  simp only [hs, stepsLeft, stopCost, work, List.length_cons, if_true, Bool.false_eq_true,
    if_false, hwalk]
  omega

/-- A step of the loop of `gator_stop_capturing`, or the return from it. -/
theorem stepsLeft_walk {cur : Option α} {back : Option (Prev α × α)} (h : s.Inv l rest lost)
    (hs : s.sender = .walk cur back) (hstep : s.senderStep ok = some s')
    (h' : s'.Inv l' rest' lost) (hvisited : s'.visited ++ rest' = s.visited ++ rest)
    (hl : l'.length ≤ l.length) :
    stepsLeft l' rest' s'.capturing s'.sender < stepsLeft l rest s.capturing s.sender := by
  have hok := h.sender
  rw [hs] at hok
  rw [senderStep, hs] at hstep
  rw [hs]
  rcases cur with - | b
  · rcases back with - | ⟨prev, a⟩
    · cases hstep
      exact Nat.succ_pos _
    · cases hstep
      obtain rfl := List.append_cancel_left hvisited
      have hcost : stopCost l' s.capturing ≤ stopCost l s.capturing := stopCost_le hl id
      simp only [stepsLeft, work]
      omega
  · have hmem : b ∈ l := by
      rcases back with - | ⟨prev, a⟩
      · exact hok.1 b rfl
      · exact hok.1 b rfl
    obtain ⟨node, hnode, rfl⟩ := Option.map_eq_some_iff.mp hstep
    obtain rfl := List.append_cancel_left hvisited
    have hshape : (s.setNode b { node with handled := node.written }).shape = s.shape :=
      shape_setNode_of_eq hnode rfl rfl
    have hchain : Chain (linkOf s.shape) s.threads l' := by
      rw [← hshape]
      exact h'.linked.chain
    obtain rfl := h.linked.chain.unique hchain
    obtain ⟨pre, tail, heq⟩ := List.append_of_mem hmem
    have hsuffix : b :: tail <:+ l := ⟨pre, heq.symm⟩
    have hnext : node.next = tail.head? := h.next_eq hsuffix hnode
    have hnodup := h.linked.chain.nodup
    have hleft : walkLeft l (some b) = tail.length + 1 := walkLeft_head hnodup hsuffix
    have hleft' : walkLeft l node.next = tail.length := by
      rw [hnext]
      exact walkLeft_head hnodup ((List.suffix_cons b tail).trans hsuffix)
    rcases back with - | ⟨prev, a⟩
    · simp only [stepsLeft, hleft, hleft']
      omega
    · simp only [stepsLeft, hleft, hleft', setNode]
      omega

/-- A step of the sender that is not idle brings the end of its loop nearer, whether its calls
    succeed or not. -/
theorem stepsLeft_senderStep (h : s.Inv l rest lost) (hmarks : s.sender.marks = false)
    (hne : s.sender ≠ .idle) (hstep : s.senderStep ok = some s') (h' : s'.Inv l' rest' lost)
    (hvisited : s'.visited ++ rest' = s.visited ++ rest) (hl : l'.length ≤ l.length) :
    stepsLeft l' rest' s'.capturing s'.sender < stepsLeft l rest s.capturing s.sender := by
  have hsucceeds : (∀ prev a, s.sender = .visit prev a → s.capturing = true → ok = true) →
      Sweeping s.sender →
      stepsLeft l' rest' s'.capturing s'.sender < stepsLeft l rest s.capturing s.sender := by
    intro hok hsweeping
    rw [senderStep_succeeds hok] at hstep
    exact stepsLeft_sweeping h hsweeping hne hstep hvisited hl
  cases hs : s.sender with
  | visit prev a =>
    rw [← hs]
    by_cases hfails : s.capturing = true ∧ ok = false
    · obtain ⟨hcapturing, rfl⟩ := hfails
      exact stepsLeft_fails h hs hcapturing hstep h' hvisited hl
    · refine hsucceeds (fun _ _ _ hcapturing => ?_) (by rw [hs]; trivial)
      by_contra hok
      exact hfails ⟨hcapturing, Bool.eq_false_iff.mpr hok⟩
  | walk cur back =>
    rw [← hs]
    exact stepsLeft_walk h hs hstep h' hvisited hl
  | mark cur =>
    rw [hs] at hmarks
    cases hmarks
  | _ =>
    rw [← hs]
    refine hsucceeds (fun prev a heq => ?_) (by rw [hs]; trivial)
    rw [hs] at heq
    cases heq

/-! ## The list and what is before the sender -/

theorem eq_of_head {r r' : List α} (hl : l.Nodup) (hr : r <:+ l) (hr' : r' <:+ l)
    (hhead : r.head? = r'.head?) : r = r' := by
  have hlength : r.length = r'.length := by
    rw [← walkLeft_head hl hr, ← walkLeft_head hl hr', hhead]
  exact (List.suffix_of_suffix_length_le hr hr' hlength.le).eq_of_length hlength

/-- A state has one list, of which one part is before the sender. -/
theorem Inv.unique {lost' : α → Prop} (h : s.Inv l rest lost) (h' : s.Inv l' rest' lost') :
    l' = l ∧ rest' = rest := by
  obtain rfl := h.linked.chain.unique h'.linked.chain
  refine ⟨rfl, ?_⟩
  have hnodup := h.linked.chain.nodup
  have htail : ∀ {a}, a :: rest' <:+ l → a :: rest <:+ l → rest' = rest := by
    intro a hr' hr
    exact (List.cons.inj (eq_of_head hnodup hr' hr rfl)).2
  have hok := h.sender
  have hok' := h'.sender
  cases hs : s.sender with
  | idle =>
    rw [hs] at hok hok'
    exact Eq.trans hok' (Eq.symm hok)
  | load b =>
    rw [hs] at hok hok'
    exact htail hok' hok
  | visit prev a =>
    rw [hs] at hok hok'
    exact eq_of_head hnodup hok'.2.suffix hok.2.suffix (hok'.1.trans hok.1.symm)
  | fetch prev a =>
    rw [hs] at hok hok'
    exact htail (Position.suffix hok') (Position.suffix hok)
  | test prev a next =>
    rw [hs] at hok hok'
    exact htail hok'.1.suffix hok.1.suffix
  | swap prev a next =>
    rw [hs] at hok hok'
    exact htail hok'.1.suffix hok.1.suffix
  | release prev a next =>
    rw [hs] at hok hok'
    exact eq_of_head hnodup hok'.1.suffix hok.1.suffix (hok'.2.1.symm.trans hok.2.1)
  | walk cur back =>
    rw [hs] at hok hok'
    rcases back with - | ⟨prev, a⟩
    · exact hok'.2.trans hok.2.symm
    · exact htail hok'.2.suffix hok.2.suffix
  | mark cur =>
    rw [hs] at hok hok'
    exact hok'.2.trans hok.2.symm

/-- Another node in front of the list. -/
theorem stepsLeft_cons {a : α} {capturing : Bool} {shape : α → Option (Option α × Bool)}
    {sender : SweepState α} (hok : SenderOk shape l rest sender) (hl : (a :: l).Nodup) :
    stepsLeft (a :: l) rest capturing sender ≤ stepsLeft l rest capturing sender + 1 := by
  have hcost : stopCost (a :: l) capturing ≤ stopCost l capturing + 1 := by
    unfold stopCost
    split_ifs
    · exact Nat.le_refl _
    · exact Nat.zero_le _
  cases sender with
  | idle => exact Nat.zero_le _
  | mark cur => exact Nat.zero_le _
  | walk cur back =>
    rcases back with - | ⟨prev, b⟩
    · simp only [stepsLeft, walkLeft_cons hl hok.1]
      omega
    · simp only [stepsLeft, walkLeft_cons hl hok.1]
      omega
  | _ =>
    simp only [stepsLeft]
    omega

/-- Only the swap of a thread puts a node in front of the list. -/
theorem threads_step_thread [DecidableEq τ] {t : τ} {action : GatorAction τ α}
    (hthread : action.thread = some t) (hswap : action ≠ .swap t)
    (hstep : s.step action = some s') : s'.threads = s.threads := by
  cases action with
  | malloc u a =>
    rw [step] at hstep
    split_ifs at hstep
    · cases hstep
      rfl
    · cases hstep
      rfl
  | swap u => exact absurd (congrArg GatorAction.swap (Option.some.inj hthread)) hswap
  | keySet u =>
    rw [step] at hstep
    split at hstep
    · cases hstep
      rfl
    · cases hstep
      rfl
  | giveUp u | load u | write u | exit u =>
    rw [step] at hstep
    split at hstep
    · obtain ⟨node, -, rfl⟩ := Option.map_eq_some_iff.mp hstep
      rfl
    · cases hstep
      rfl
  | _ => cases hthread

end GatorState

end LibCollector.Streamline
