import Mathlib.Data.List.Sort

/-!
# Set bits of a word

The places of the bits of a word that are set, from the lowest one on, and how a loop comes by them
that takes away the lowest one at a time (`setBits_eq_cons`).
-/

namespace LibCollector.Misc

variable {w : Nat} {x y : BitVec w} {i : Nat}

/-- The places of the set bits. -/
def setBits (x : BitVec w) : List Nat := (List.range w).filter fun i => x.getLsbD i

/-- The word without one bit. -/
def clearBit (x : BitVec w) (i : Nat) : BitVec w := x &&& ~~~(1#w <<< i)

theorem mem_setBits : i ∈ setBits x ↔ x.getLsbD i = true := by
  rw [setBits, List.mem_filter, List.mem_range]
  exact ⟨And.right, fun h => ⟨BitVec.lt_of_getLsbD h, h⟩⟩

theorem pairwise_setBits (x : BitVec w) : (setBits x).Pairwise (· < ·) :=
  List.pairwise_lt_range.filter _

theorem setBits_eq_of {l : List Nat} (hl : l.Pairwise (· < ·))
    (hmem : ∀ i, i ∈ l ↔ x.getLsbD i = true) : setBits x = l :=
  (pairwise_setBits x).eq_of_mem_iff hl fun i => mem_setBits.trans (hmem i).symm

@[simp] theorem setBits_zero : setBits (0#w) = [] := by
  rw [setBits, List.filter_eq_nil_iff]
  simp

theorem cpopNatRec_eq_countP (x : BitVec w) (k : Nat) :
    x.cpopNatRec k 0 = (List.range k).countP fun i => x.getLsbD i := by
  induction k with
  | zero => rfl
  | succ k ih =>
    rw [BitVec.cpopNatRec_succ, BitVec.cpopNatRec_add, ih, List.range_succ, List.countP_append,
      List.countP_singleton]
    cases x.getLsbD k <;> rfl

/-- There are as many as the population count says. -/
theorem length_setBits (x : BitVec w) : (setBits x).length = x.cpop.toNat := by
  rw [setBits, ← List.countP_eq_length_filter, BitVec.toNat_cpop, cpopNatRec_eq_countP]

/-- A wider word has the same set bits. -/
theorem setBits_setWidth {v : Nat} (h : w ≤ v) (x : BitVec w) :
    setBits (x.setWidth v) = setBits x := by
  refine setBits_eq_of (pairwise_setBits x) fun i => ?_
  rw [mem_setBits, BitVec.getLsbD_setWidth, Bool.and_eq_true, decide_eq_true_eq]
  refine ⟨fun hi => ⟨?_, hi⟩, And.right⟩
  have hlt := BitVec.lt_of_getLsbD hi
  omega

theorem getLsbD_clearBit (x : BitVec w) (i j : Nat) :
    (clearBit x i).getLsbD j = (x.getLsbD j && decide (j ≠ i)) := by
  by_cases hj : j < w
  · by_cases hij : j = i
    · subst hij
      simp [clearBit, hj]
    · rcases Nat.lt_or_gt_of_ne hij with hlt | hgt
      · simp [clearBit, hj, hij, hlt]
      · have hsub : j - i ≠ 0 := by omega
        simp [clearBit, hj, hij, hsub]
  · have hle := Nat.le_of_not_lt hj
    rw [BitVec.getLsbD_of_ge _ _ hle, BitVec.getLsbD_of_ge _ _ hle, Bool.false_and]

/-- The lowest set bit is the first one, and the others are those of the word without it. -/
theorem setBits_eq_cons (hx : x ≠ 0#w) :
    setBits x = x.ctz.toNat :: setBits (clearBit x x.ctz.toNat) := by
  apply setBits_eq_of
  · rw [List.pairwise_cons]
    refine ⟨fun i hi => ?_, pairwise_setBits _⟩
    rw [mem_setBits, getLsbD_clearBit, Bool.and_eq_true, decide_eq_true_eq] at hi
    by_contra hle
    have hlt : i < x.ctz.toNat := by omega
    rw [BitVec.getLsbD_false_of_lt_ctz hlt] at hi
    cases hi.1
  · intro i
    rw [List.mem_cons, mem_setBits, getLsbD_clearBit, Bool.and_eq_true, decide_eq_true_eq]
    constructor
    · rintro (rfl | ⟨hi, _⟩)
      · exact BitVec.getLsbD_true_ctz_of_ne_zero hx
      · exact hi
    · intro hi
      by_cases heq : i = x.ctz.toNat
      · exact .inl heq
      · exact .inr ⟨hi, heq⟩

end LibCollector.Misc
