import Mathlib.Data.List.Range
import Mathlib.Tactic.Common

/-!
# Tables read row by row

A table is a list of columns. A row takes one element of every column and fails where a
column is too short; what is read in this way from rows `0, …, k - 1` is the first `k`
elements of each column.
-/

namespace LibCollector.Misc

variable {α β : Type*}

/-- A pass over a list in which no element fails. -/
theorem mapM_eq_some_iff {f : α → Option β} {l : List α} {r : List β} :
    l.mapM f = some r ↔ l.map f = r.map some := by
  induction l generalizing r with
  | nil => cases r <;> simp
  | cons a l ih =>
    rw [List.mapM_cons]
    cases r with
    | nil => cases f a <;> cases l.mapM f <;> simp
    | cons b r =>
      rw [List.map_cons, List.map_cons, List.cons_eq_cons, ← ih]
      cases f a <;> cases l.mapM f <;> simp

/-- A pass over a list fails only at an element that fails. -/
theorem exists_mapM_eq_some {f : α → Option β} {l : List α} (h : ∀ a ∈ l, (f a).isSome) :
    ∃ r, l.mapM f = some r := by
  induction l with
  | nil => exact ⟨[], rfl⟩
  | cons a l ih =>
    obtain ⟨r, hr⟩ := ih fun b hb => h b (List.mem_cons_of_mem a hb)
    obtain ⟨b, hb⟩ := Option.isSome_iff_exists.mp (h a List.mem_cons_self)
    refine ⟨b :: r, ?_⟩
    rw [List.mapM_cons, hb, hr]
    rfl

theorem isSome_of_mapM {f : α → Option β} {l : List α} {r : List β} (h : l.mapM f = some r) {a : α}
    (ha : a ∈ l) : (f a).isSome := by
  have hmem := List.mem_map_of_mem (f := f) ha
  rw [mapM_eq_some_iff.mp h] at hmem
  obtain ⟨b, -, hb⟩ := List.mem_map.mp hmem
  rw [← hb]
  rfl

theorem length_of_mapM {f : α → Option β} {l : List α} {r : List β} (h : l.mapM f = some r) :
    r.length = l.length := by
  have hlength := congrArg List.length (mapM_eq_some_iff.mp h)
  rw [List.length_map, List.length_map] at hlength
  exact hlength.symm

/-- A pass over a list whose elements are related to their results. -/
theorem exists_mapM_forall₂_iff {f : α → Option β} {R : α → β → Prop} {l : List α} :
    (∃ r, l.mapM f = some r ∧ List.Forall₂ R l r) ↔ ∀ a ∈ l, ∃ b, f a = some b ∧ R a b := by
  induction l with
  | nil => exact iff_of_true ⟨[], rfl, List.Forall₂.nil⟩ fun a ha => absurd ha List.not_mem_nil
  | cons a l ih =>
    rw [List.forall_mem_cons, ← ih]
    constructor
    · rintro ⟨r, hr, hrel⟩
      rw [mapM_eq_some_iff] at hr
      cases hrel with
      | cons hab hrest =>
        rcases List.cons_eq_cons.mp hr with ⟨ha, hl⟩
        exact ⟨⟨_, ha, hab⟩, _, mapM_eq_some_iff.mpr hl, hrest⟩
    · rintro ⟨⟨b, hb, hab⟩, r, hr, hrest⟩
      refine ⟨b :: r, ?_, List.Forall₂.cons hab hrest⟩
      rw [List.mapM_cons, hb, hr]
      rfl

/-- An element of a pass that is also given the positions. -/
theorem getElem?_mapM_zipIdx {f : α × Nat → Option β} {l : List α} {r : List β}
    (h : l.zipIdx.mapM f = some r) {i : Nat} {a : α} (ha : l[i]? = some a) :
    ∃ b, r[i]? = some b ∧ f (a, i) = some b := by
  have hget := congrArg (fun l : List (Option β) => l[i]?) (mapM_eq_some_iff.mp h)
  simp only [List.getElem?_map, List.getElem?_zipIdx, ha, Option.map_some, Nat.zero_add] at hget
  cases hr : r[i]? with
  | none =>
    rw [hr] at hget
    cases hget
  | some b =>
    rw [hr, Option.map_some, Option.some_inj] at hget
    exact ⟨b, rfl, hget⟩

/-- A pass that is also given the positions fails only at a position that fails. -/
theorem mapM_zipIdx_isSome {f : α × Nat → Option β} {l : List α} :
    (l.zipIdx.mapM f).isSome ↔ ∀ i a, l[i]? = some a → (f (a, i)).isSome := by
  constructor
  · intro h i a ha
    rcases Option.isSome_iff_exists.mp h with ⟨r, hr⟩
    exact isSome_of_mapM hr (List.mk_mem_zipIdx_iff_getElem?.mpr ha)
  · intro h
    apply Option.isSome_iff_exists.mpr
    apply exists_mapM_eq_some
    intro e he
    exact h e.2 e.1 (List.mk_mem_zipIdx_iff_getElem?.mp he)

/-! ## Position by position -/

/-- Lists of one length, whose elements are related position by position. -/
def EachIdx (R : Nat → α → β → Prop) (l : List α) (l' : List β) : Prop :=
  l'.length = l.length ∧ ∀ i a, l[i]? = some a → ∃ b, l'[i]? = some b ∧ R i a b

namespace EachIdx

variable {γ : Type*} {R R' : Nat → α → β → Prop} {l : List α} {l' : List β}

theorem refl {R : Nat → α → α → Prop} (h : ∀ i a, l[i]? = some a → R i a a) : EachIdx R l l :=
  ⟨rfl, fun i a ha => ⟨a, ha, h i a ha⟩⟩

theorem mono (hrel : EachIdx R l l') (h : ∀ i a b, l[i]? = some a → R i a b → R' i a b) :
    EachIdx R' l l' := by
  refine ⟨hrel.1, fun i a ha => ?_⟩
  obtain ⟨b, hb, hab⟩ := hrel.2 i a ha
  exact ⟨b, hb, h i a b ha hab⟩

theorem trans {S : Nat → β → γ → Prop} {T : Nat → α → γ → Prop} {l'' : List γ}
    (hrel : EachIdx R l l') (hrel' : EachIdx S l' l'')
    (h : ∀ i a b c, l[i]? = some a → R i a b → S i b c → T i a c) : EachIdx T l l'' := by
  refine ⟨hrel'.1.trans hrel.1, fun i a ha => ?_⟩
  obtain ⟨b, hb, hab⟩ := hrel.2 i a ha
  obtain ⟨c, hc, hbc⟩ := hrel'.2 i b hb
  exact ⟨c, hc, h i a b c ha hab hbc⟩

/-- A pass over a list that is also given the positions. -/
theorem of_mapM_zipIdx {f : α × Nat → Option β} (h : l.zipIdx.mapM f = some l') :
    EachIdx (fun i a b => f (a, i) = some b) l l' :=
  ⟨(length_of_mapM h).trans List.length_zipIdx, fun _ _ ha => getElem?_mapM_zipIdx h ha⟩

theorem of_mapM {f : α → Option β} (h : l.mapM f = some l') :
    EachIdx (fun _ a b => f a = some b) l l' := by
  refine ⟨length_of_mapM h, fun i a ha => ?_⟩
  have hget := congrArg (fun l : List (Option β) => l[i]?) (mapM_eq_some_iff.mp h)
  simp only [List.getElem?_map, ha, Option.map_some] at hget
  obtain ⟨b, hb, hfa⟩ := Option.map_eq_some_iff.mp hget.symm
  exact ⟨b, hb, hfa.symm⟩

/-- Passes over two lists, of which the second one succeeds at every position only with what the
    first one does as well. -/
theorem exists_mapM_zipIdx {δ : Type*} {f : α × Nat → Option γ} {g : β × Nat → Option δ}
    {S : Nat → γ → δ → Prop} {r' : List δ} (h : EachIdx R l l')
    (hstep : ∀ i a b d, l[i]? = some a → R i a b → g (b, i) = some d →
      ∃ c, f (a, i) = some c ∧ S i c d)
    (hr' : l'.zipIdx.mapM g = some r') : ∃ r, l.zipIdx.mapM f = some r ∧ EachIdx S r r' := by
  have hpass : ∀ i a, l[i]? = some a → ∃ c d, f (a, i) = some c ∧ r'[i]? = some d ∧ S i c d := by
    intro i a ha
    obtain ⟨b, hb, hab⟩ := h.2 i a ha
    obtain ⟨d, hd, hgd⟩ := getElem?_mapM_zipIdx hr' hb
    obtain ⟨c, hc, hcd⟩ := hstep i a b d ha hab hgd
    exact ⟨c, d, hc, hd, hcd⟩
  have hsome : (l.zipIdx.mapM f).isSome := by
    refine mapM_zipIdx_isSome.mpr fun i a ha => ?_
    obtain ⟨c, -, hc, -⟩ := hpass i a ha
    rw [hc]
    rfl
  obtain ⟨r, hr⟩ := Option.isSome_iff_exists.mp hsome
  have hlength := (of_mapM_zipIdx hr).1
  refine ⟨r, hr, ?_, fun i c hc => ?_⟩
  · rw [hlength, (of_mapM_zipIdx hr').1, h.1]
  · have hlt : i < l.length := by
      rw [← hlength]
      exact (List.getElem?_eq_some_iff.mp hc).1
    obtain ⟨c', d, hc', hd, hcd⟩ := hpass i _ (List.getElem?_eq_getElem hlt)
    obtain ⟨c'', hc'', hfc⟩ := getElem?_mapM_zipIdx hr (List.getElem?_eq_getElem hlt)
    obtain rfl := Option.some.inj (hc.symm.trans hc'')
    obtain rfl := Option.some.inj (hc'.symm.trans hfc)
    exact ⟨d, hd, hcd⟩

/-- Lists whose elements have the same image position by position. -/
theorem map_eq {l₂ : List α} {f : α → γ} (h : EachIdx (fun _ a b => f b = f a) l l₂) :
    l₂.map f = l.map f := by
  apply List.ext_getElem?
  intro i
  rw [List.getElem?_map, List.getElem?_map]
  cases ha : l[i]? with
  | none =>
    rw [List.getElem?_eq_none_iff] at ha
    rw [List.getElem?_eq_none (by rw [h.1]; exact ha)]
  | some a =>
    obtain ⟨b, hb, hab⟩ := h.2 i a ha
    rw [hb, Option.map_some, Option.map_some, hab]

/-- Lists whose elements are equal position by position. -/
theorem eq {l₂ : List α} (h : EachIdx (fun _ a b => a = b) l l₂) : l₂ = l := by
  have hid : l₂.map id = l.map id := map_eq (h.mono fun _ _ _ _ hab => hab.symm)
  rwa [List.map_id, List.map_id] at hid

end EachIdx

/-- The first elements of a list, read one by one. -/
theorem map_range_getElem? {l : List α} {k : Nat} (h : k ≤ l.length) :
    (List.range k).map (fun i => l[i]?) = (l.take k).map some := by
  apply List.ext_getElem
  · simp [h]
  · intro i hi hi'
    have hlt : i < l.length := by simp at hi; omega
    simp [List.getElem?_eq_getElem hlt]

/-- The columns by their numbers. -/
theorem mapM_range_bind {l : List α} (f : α → Option β) :
    ((List.range l.length).mapM fun i => l[i]?.bind f) = l.mapM f := by
  have hmap : (List.range l.length).map (fun i => l[i]?.bind f) = l.map f := by
    have hget := congrArg (List.map fun o => Option.bind o f)
      (map_range_getElem? (le_refl l.length))
    rw [List.take_length, List.map_map, List.map_map] at hget
    exact hget
  apply Option.ext
  intro r
  rw [mapM_eq_some_iff, mapM_eq_some_iff, hmap]

/-- A row of a table. -/
def tableRow (columns : List (List α)) (i : Nat) : Option (List α) :=
  columns.mapM fun column => column[i]?

theorem tableRow_isSome {columns : List (List α)} {i : Nat} :
    (tableRow columns i).isSome ↔ ∀ column ∈ columns, i < column.length := by
  constructor
  · intro h column hcolumn
    obtain ⟨r, hr⟩ := Option.isSome_iff_exists.mp h
    have hsome := isSome_of_mapM hr hcolumn
    by_contra hlt
    rw [List.getElem?_eq_none (not_lt.mp hlt)] at hsome
    cases hsome
  · intro h
    obtain ⟨r, hr⟩ := @exists_mapM_eq_some _ _ (fun column : List α => column[i]?) columns
      fun column hcolumn => by simpa using h column hcolumn
    exact Option.isSome_iff_exists.mpr ⟨r, hr⟩

/-- An element of a row is the element of its column. -/
theorem getElem?_tableRow {columns : List (List α)} {i : Nat} {r : List α}
    (h : tableRow columns i = some r) {j : Nat} {column : List α}
    (hj : columns[j]? = some column) : r[j]? = column[i]? := by
  have hget := congrArg (fun l : List (Option α) => l[j]?) (mapM_eq_some_iff.mp h)
  simp only [List.getElem?_map, hj, Option.map_some] at hget
  cases hr : r[j]? with
  | none => rw [hr] at hget; cases hget
  | some v =>
    rw [hr, Option.map_some, Option.some.injEq] at hget
    exact hget.symm

/-- The rows that are read are as many as every column is long. -/
theorem le_length_of_rows {columns : List (List α)} {rows : List (List α)} {k : Nat}
    (h : (List.range k).map (tableRow columns) = rows.map some) {column : List α}
    (hcolumn : column ∈ columns) : k ≤ column.length := by
  cases k with
  | zero => exact Nat.zero_le _
  | succ k =>
    have hrow := isSome_of_mapM (mapM_eq_some_iff.mpr h) List.self_mem_range_succ
    exact tableRow_isSome.mp hrow column hcolumn

/-- A column of the rows that were read. -/
theorem column_of_rows {columns : List (List α)} {rows : List (List α)} {k : Nat}
    (h : (List.range k).map (tableRow columns) = rows.map some) {j : Nat} {column : List α}
    (hj : columns[j]? = some column) : rows.filterMap (fun r => r[j]?) = column.take k := by
  have hmem : column ∈ columns := List.mem_of_getElem? hj
  have hrows : rows.map (fun r => r[j]?) = (column.take k).map some := by
    rw [← map_range_getElem? (le_length_of_rows h hmem)]
    have hbind := congrArg (List.map fun o : Option (List α) => o.bind fun r => r[j]?) h
    rw [List.map_map, List.map_map] at hbind
    rw [show (fun r : List α => r[j]?) = (fun o : Option (List α) => o.bind fun r => r[j]?) ∘ some
      from rfl, ← hbind]
    refine List.map_congr_left fun i hi => ?_
    have hrow := isSome_of_mapM (mapM_eq_some_iff.mpr h) hi
    obtain ⟨r, hr⟩ := Option.isSome_iff_exists.mp hrow
    rw [Function.comp_apply, hr]
    exact getElem?_tableRow hr hj
  have hid := congrArg (List.filterMap id) hrows
  rw [List.filterMap_map, List.filterMap_map] at hid
  simpa using hid

end LibCollector.Misc
