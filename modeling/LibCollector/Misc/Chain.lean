import Mathlib.Data.List.Infix
import Mathlib.Data.List.Nodup
import Mathlib.Logic.Function.Basic

/-!
# Linked lists in a memory

A memory gives the link that is stored in a node, or `none` when the node is not allocated. A
pointer is an `Option`, with `none` for the null pointer. `Chain next p l` says that the nodes from
the pointer `p` on, up to the null pointer, are those of `l`. Such a list has no cycle
(`Chain.nodup`), and the two ways it is changed here are a node in front (`Chain.push`) and a node
that is taken out (`Chain.unlink`).
-/

namespace LibCollector.Misc

variable {α : Type*} {next next' : α → Option (Option α)} {p : Option α} {a b : α}
  {l l' pre rest : List α}

/-- The nodes of the linked list from a pointer on. -/
def Chain (next : α → Option (Option α)) : Option α → List α → Prop
  | p, [] => p = none
  | p, a :: l => p = some a ∧ ∃ q, next a = some q ∧ Chain next q l

namespace Chain

/-- The pointer to a list is the one to its first node. -/
theorem eq_head? (h : Chain next p l) : p = l.head? := by
  cases l with
  | nil => exact h
  | cons a l => exact h.1

/-- The list from a node in it. -/
theorem suffix (h : Chain next p (pre ++ rest)) : Chain next rest.head? rest := by
  induction pre generalizing p with
  | nil =>
    rw [List.nil_append] at h
    rw [← eq_head? h]
    exact h
  | cons a pre ih =>
    obtain ⟨-, q, -, hq⟩ := h
    exact ih hq

/-- The link in a node is to the one behind it. -/
theorem next_eq (h : Chain next p (pre ++ a :: rest)) : next a = some rest.head? := by
  obtain ⟨-, q, hnext, hq⟩ := suffix h
  rw [hnext, eq_head? hq]

theorem next_isSome (h : Chain next p l) (ha : a ∈ l) : ∃ q, next a = some q := by
  obtain ⟨pre, rest, rfl⟩ := List.append_of_mem ha
  exact ⟨_, next_eq h⟩

/-- A pointer leads to one list. -/
theorem unique (h : Chain next p l) (h' : Chain next p l') : l = l' := by
  induction l generalizing p l' with
  | nil =>
    cases l' with
    | nil => rfl
    | cons b l' => exact absurd (h.symm.trans h'.1) (by simp)
  | cons a l ih =>
    cases l' with
    | nil => exact absurd (h.1.symm.trans h') (by simp)
    | cons b l' =>
      obtain ⟨hp, q, hq, hl⟩ := h
      obtain ⟨hp', q', hq', hl'⟩ := h'
      obtain rfl := Option.some.inj (hp.symm.trans hp')
      obtain rfl := Option.some.inj (hq.symm.trans hq')
      rw [ih hl hl']

/-- A node that comes again would be followed by two lists. -/
theorem nodup (h : Chain next p l) : l.Nodup := by
  induction l generalizing p with
  | nil => exact List.nodup_nil
  | cons a l ih =>
    obtain ⟨-, q, hq, hl⟩ := h
    refine List.nodup_cons.mpr ⟨fun ha => ?_, ih hl⟩
    obtain ⟨pre, rest, rfl⟩ := List.append_of_mem ha
    have hagain : Chain next (some a) (a :: rest) := suffix hl
    have hfirst : Chain next (some a) (a :: (pre ++ a :: rest)) := ⟨rfl, q, hq, hl⟩
    have hlength := congrArg List.length (unique hagain hfirst)
    simp only [List.length_cons, List.length_append] at hlength
    omega

/-- Other memory does not matter. -/
theorem congr (h : Chain next p l) (heq : ∀ a ∈ l, next' a = next a) : Chain next' p l := by
  induction l generalizing p with
  | nil => exact h
  | cons a l ih =>
    obtain ⟨hp, q, hq, hl⟩ := h
    exact ⟨hp, q, (heq a List.mem_cons_self).trans hq,
      ih hl fun b hb => heq b (List.mem_cons_of_mem _ hb)⟩

/-- A node that links to the list is put in front of it. -/
theorem push (h : Chain next p l) (ha : next a = some p) : Chain next (some a) (a :: l) :=
  ⟨rfl, p, ha, h⟩

/-- The link to the first node is replaced by the link in that node. -/
theorem unlink_head (h : Chain next p (a :: rest)) : Chain next rest.head? rest :=
  @suffix _ _ _ [a] _ h

variable [DecidableEq α]

/-- The link to a node is replaced by the link in that node. -/
theorem unlink (h : Chain next p (pre ++ b :: a :: rest)) :
    Chain (Function.update next b (some rest.head?)) p (pre ++ b :: rest) := by
  have hnodup := nodup h
  induction pre generalizing p with
  | nil =>
    obtain ⟨hp, q, -, hrest⟩ := h
    refine ⟨hp, rest.head?, Function.update_self _ _ _, ?_⟩
    refine congr (unlink_head hrest) fun c hc => Function.update_of_ne ?_ _ _
    rintro rfl
    exact (List.nodup_cons.mp hnodup).1 (List.mem_cons_of_mem _ hc)
  | cons c pre ih =>
    obtain ⟨hp, q, hq, hrest⟩ := h
    have hne : c ≠ b := by
      rintro rfl
      exact (List.nodup_cons.mp hnodup).1 (by simp)
    exact ⟨hp, q, (Function.update_of_ne hne _ _).trans hq,
      ih hrest (List.nodup_cons.mp hnodup).2⟩

end Chain

end LibCollector.Misc
