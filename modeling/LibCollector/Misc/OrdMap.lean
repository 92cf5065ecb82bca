import Mathlib.Algebra.Ring.Int.Defs
import Mathlib.Order.Defs.LinearOrder
import Mathlib.Data.List.Basic
import Mathlib.Data.List.Nodup
import Mathlib.Data.List.Sort
import Mathlib.Tactic.Order

/-!
# Maps ordered by key

`std::map<K, V>` as the list of its entries in increasing key order. The order is
a field of the structure, so two maps that look up the same are equal
(`OrdMap.ext_find?`) and a walk over the entries visits each key once.
-/

namespace LibCollector.Misc

variable {K V W : Type} [LinearOrder K]

/-- Entries in strictly increasing key order. -/
def Sorted (entries : List (K × V)) : Prop := entries.Pairwise fun a b => a.1 < b.1

/-- `std::map`: the entries in key order. -/
structure OrdMap (K V : Type) [LinearOrder K] where
  entries : List (K × V)
  sorted : Sorted entries

/-- Write `v` under `k` in a sorted list of entries. -/
def insertEntry (k : K) (v : V) : List (K × V) → List (K × V)
  | [] => [(k, v)]
  | e :: es =>
    if k < e.1 then (k, v) :: e :: es
    else if k = e.1 then (k, v) :: es
    else e :: insertEntry k v es

/-- The value under `k` in a list of entries. -/
def findEntry (k : K) : List (K × V) → Option V
  | [] => none
  | e :: es => if k = e.1 then some e.2 else findEntry k es

theorem mem_insertEntry {k : K} {v : V} {es : List (K × V)} {x : K × V}
    (h : x ∈ insertEntry k v es) : x = (k, v) ∨ x ∈ es := by
  induction es with
  | nil => simpa [insertEntry] using h
  | cons e es ih =>
    simp only [insertEntry] at h
    split at h
    · simpa using h
    · split at h
      · rcases List.mem_cons.mp h with h | h
        · exact Or.inl h
        · exact Or.inr (List.mem_cons_of_mem _ h)
      · rcases List.mem_cons.mp h with h | h
        · exact Or.inr (h ▸ List.mem_cons_self)
        · exact (ih h).imp_right (List.mem_cons_of_mem _)

theorem sorted_insertEntry {es : List (K × V)} (k : K) (v : V) (h : Sorted es) :
    Sorted (insertEntry k v es) := by
  induction es with
  | nil => simp [insertEntry, Sorted]
  | cons e es ih =>
    obtain ⟨hhead, htail⟩ := List.pairwise_cons.mp h
    simp only [insertEntry]
    split
    · rename_i hlt
      refine List.pairwise_cons.mpr ⟨fun x hx => ?_, h⟩
      rcases List.mem_cons.mp hx with rfl | hx
      · exact hlt
      · exact hlt.trans (hhead x hx)
    · split
      · rename_i heq
        exact List.pairwise_cons.mpr ⟨fun x hx => heq ▸ hhead x hx, htail⟩
      · rename_i hlt heq
        refine List.pairwise_cons.mpr ⟨fun x hx => ?_, ih htail⟩
        rcases mem_insertEntry hx with rfl | hx
        · exact lt_of_le_of_ne (not_lt.mp hlt) (Ne.symm heq)
        · exact hhead x hx

theorem findEntry_insertEntry (k k' : K) (v : V) (es : List (K × V)) :
    findEntry k' (insertEntry k v es) = if k' = k then some v else findEntry k' es := by
  induction es with
  | nil => simp [insertEntry, findEntry]
  | cons e es ih =>
    simp only [insertEntry]
    split
    · simp [findEntry]
    · split
      · rename_i heq
        subst heq
        by_cases hk : k' = e.1 <;> simp [findEntry, hk]
      · rename_i heq
        simp only [findEntry, ih]
        by_cases hk : k' = e.1
        · subst hk
          simp [Ne.symm heq]
        · simp [hk]

/-- Under a new key an entry is added. -/
theorem perm_insertEntry {k : K} {es : List (K × V)} (h : findEntry k es = none) (v : V) :
    (insertEntry k v es).Perm ((k, v) :: es) := by
  induction es with
  | nil => exact List.Perm.refl _
  | cons e es ih =>
    rw [findEntry] at h
    split_ifs at h with heq
    rw [insertEntry]
    split_ifs with hlt
    · exact List.Perm.refl _
    · exact ((ih h).cons e).trans (List.Perm.swap _ _ es)

theorem findEntry_eq_some_iff {k : K} {v : V} {es : List (K × V)} (h : Sorted es) :
    findEntry k es = some v ↔ (k, v) ∈ es := by
  induction es with
  | nil => simp [findEntry]
  | cons e es ih =>
    obtain ⟨hhead, htail⟩ := List.pairwise_cons.mp h
    simp only [findEntry, List.mem_cons]
    split
    · rename_i hk
      subst hk
      refine ⟨fun hv => Or.inl (by cases hv; rfl), ?_⟩
      rintro (hv | hv)
      · exact congrArg some (congrArg Prod.snd hv).symm
      · exact absurd (hhead _ hv) (lt_irrefl _)
    · rename_i hk
      rw [ih htail]
      refine ⟨Or.inr, ?_⟩
      rintro (rfl | hv)
      · exact absurd rfl hk
      · exact hv

theorem findEntry_map (f : K → V → W) (k : K) (es : List (K × V)) :
    findEntry k (es.map fun e => (e.1, f e.1 e.2)) = (findEntry k es).map (f k) := by
  induction es with
  | nil => rfl
  | cons e es ih =>
    simp only [List.map_cons, findEntry]
    split
    · rename_i hk
      subst hk
      rfl
    · exact ih

/-- Of what is written for each entry, only the entry of `k` counts for a property that the others
    do not have. -/
theorem countP_flatMap_entries {β : Type} {f : K → V → List β} {p : β → Bool} {k : K}
    (hother : ∀ k' v, k' ≠ k → ∀ b ∈ f k' v, p b = false) {es : List (K × V)} (h : Sorted es) :
    (es.flatMap fun e => f e.1 e.2).countP p =
      ((findEntry k es).map fun v => (f k v).countP p).getD 0 := by
  have hzero : ∀ k' v, k' ≠ k → (f k' v).countP p = 0 := by
    intro k' v hne
    rw [List.countP_eq_zero]
    intro b hb
    rw [hother k' v hne b hb]
    exact Bool.false_ne_true
  induction es with
  | nil => rfl
  | cons e es ih =>
    obtain ⟨hhead, htail⟩ := List.pairwise_cons.mp h
    rw [List.flatMap_cons, List.countP_append, ih htail, findEntry]
    by_cases hk : k = e.1
    · subst hk
      have hnone : findEntry e.1 es = none := by
        cases hfind : findEntry e.1 es with
        | none => rfl
        | some v => exact absurd (hhead _ ((findEntry_eq_some_iff htail).mp hfind)) (lt_irrefl _)
      simp [hnone]
    · rw [if_neg hk, hzero e.1 e.2 (Ne.symm hk), Nat.zero_add]

namespace OrdMap

/-- The map without entries. -/
def empty : OrdMap K V := ⟨[], List.Pairwise.nil⟩

instance : EmptyCollection (OrdMap K V) := ⟨empty⟩

instance [DecidableEq V] : DecidableEq (OrdMap K V) := fun a b =>
  decidable_of_iff (a.entries = b.entries) (by cases a; cases b; simp)

/-- `find(k)`, with `none` for `end()`. -/
def find? (m : OrdMap K V) (k : K) : Option V := findEntry k m.entries

/-- `m[k] = v`. -/
def insert (m : OrdMap K V) (k : K) (v : V) : OrdMap K V :=
  ⟨insertEntry k v m.entries, sorted_insertEntry k v m.sorted⟩

/-- Rewrite every value in place, keeping the keys. -/
def mapVal (f : K → V → W) (m : OrdMap K V) : OrdMap K W :=
  ⟨m.entries.map fun e => (e.1, f e.1 e.2), by
    rw [Sorted, List.pairwise_map]
    exact m.sorted⟩

/-- The keys in order. -/
def keys (m : OrdMap K V) : List K := m.entries.map Prod.fst

/-- The values in the order of their keys. -/
def values (m : OrdMap K V) : List V := m.entries.map Prod.snd

@[simp] theorem find?_empty (k : K) : (∅ : OrdMap K V).find? k = none := rfl

theorem find?_insert (m : OrdMap K V) (k k' : K) (v : V) :
    (m.insert k v).find? k' = if k' = k then some v else m.find? k' :=
  findEntry_insertEntry k k' v m.entries

@[simp] theorem find?_insert_self (m : OrdMap K V) (k : K) (v : V) :
    (m.insert k v).find? k = some v := by
  rw [find?_insert, if_pos rfl]

theorem find?_insert_of_ne (m : OrdMap K V) {k k' : K} (v : V) (h : k' ≠ k) :
    (m.insert k v).find? k' = m.find? k' := by
  rw [find?_insert, if_neg h]

@[simp] theorem find?_mapVal (f : K → V → W) (m : OrdMap K V) (k : K) :
    (m.mapVal f).find? k = (m.find? k).map (f k) :=
  findEntry_map f k m.entries

theorem find?_eq_some_iff {m : OrdMap K V} {k : K} {v : V} :
    m.find? k = some v ↔ (k, v) ∈ m.entries :=
  findEntry_eq_some_iff m.sorted

theorem mem_keys_iff {m : OrdMap K V} {k : K} : k ∈ m.keys ↔ (m.find? k).isSome := by
  rw [Option.isSome_iff_exists]
  simp only [find?_eq_some_iff, keys, List.mem_map, Prod.exists]
  exact ⟨fun ⟨a, b, hb, ha⟩ => ⟨b, ha ▸ hb⟩, fun ⟨b, hb⟩ => ⟨k, b, hb, rfl⟩⟩

theorem find?_eq_none_iff {m : OrdMap K V} {k : K} : m.find? k = none ↔ k ∉ m.keys := by
  rw [mem_keys_iff, Option.not_isSome_iff_eq_none]

theorem mem_keys_insert {m : OrdMap K V} {k k' : K} {v : V} :
    k' ∈ (m.insert k v).keys ↔ k' = k ∨ k' ∈ m.keys := by
  simp only [mem_keys_iff, find?_insert]
  by_cases h : k' = k <;> simp [h]

@[simp] theorem keys_mapVal (f : K → V → W) (m : OrdMap K V) : (m.mapVal f).keys = m.keys := by
  simp [keys, mapVal]

theorem perm_values_insert {m : OrdMap K V} {k : K} (h : m.find? k = none) (v : V) :
    (m.insert k v).values.Perm (v :: m.values) :=
  (perm_insertEntry h v).map Prod.snd

theorem keys_nodup (m : OrdMap K V) : m.keys.Nodup :=
  (List.pairwise_map.mpr m.sorted).imp ne_of_lt

/-- The keys are in increasing order, so their elements determine them. -/
theorem keys_eq_of_mem_iff {m : OrdMap K V} {ks : List K} (hks : ks.Pairwise (· < ·))
    (h : ∀ k, k ∈ m.keys ↔ k ∈ ks) : m.keys = ks :=
  List.Pairwise.eq_of_mem_iff (List.pairwise_map.mpr m.sorted) hks h

theorem keys_insert_of_mem {m : OrdMap K V} {k : K} (h : k ∈ m.keys) (v : V) :
    (m.insert k v).keys = m.keys := by
  refine keys_eq_of_mem_iff (List.pairwise_map.mpr m.sorted) fun k' => ?_
  rw [mem_keys_insert]
  exact or_iff_right_of_imp fun heq => heq ▸ h

theorem keys_foldl_insert {ks : List K} (hks : ks.Pairwise (· < ·)) (v : V) :
    (ks.foldl (fun m k => m.insert k v) (∅ : OrdMap K V)).keys = ks := by
  have hmem : ∀ (ks : List K) (m : OrdMap K V) (k : K),
      k ∈ (ks.foldl (fun m k => m.insert k v) m).keys ↔ k ∈ m.keys ∨ k ∈ ks := by
    intro ks
    induction ks with
    | nil => simp
    | cons k' ks ih =>
      intro m k
      rw [List.foldl_cons, ih, mem_keys_insert, List.mem_cons, or_comm (a := k = k'), or_assoc]
  refine keys_eq_of_mem_iff hks fun k => ?_
  rw [hmem]
  exact or_iff_right List.not_mem_nil

theorem countP_flatMap {β : Type} {f : K → V → List β} {p : β → Bool} {k : K}
    (hother : ∀ k' v, k' ≠ k → ∀ b ∈ f k' v, p b = false) (m : OrdMap K V) :
    (m.entries.flatMap fun e => f e.1 e.2).countP p =
      ((m.find? k).map fun v => (f k v).countP p).getD 0 :=
  countP_flatMap_entries hother m.sorted

/-- The values that the entries have under a key. -/
theorem filterMap_entries {β : Type} (f : V → β) (m : OrdMap K V) (k : K)
    [DecidablePred fun e : K × V => e.1 = k] :
    (m.entries.filterMap fun e => if e.1 = k then some (f e.2) else none) =
      ((m.find? k).map f).toList := by
  have hlist : ∀ es : List (K × V), Sorted es →
      (es.filterMap fun e => if e.1 = k then some (f e.2) else none) =
        ((findEntry k es).map f).toList := by
    intro es
    induction es with
    | nil => exact fun _ => rfl
    | cons e es ih =>
      intro hsorted
      rcases List.pairwise_cons.mp hsorted with ⟨hhead, htail⟩
      rw [List.filterMap_cons, findEntry, ih htail]
      by_cases hk : k = e.1
      · have hnone : findEntry k es = none := by
          rw [Option.eq_none_iff_forall_ne_some]
          intro v hv
          have hlt := hhead _ ((findEntry_eq_some_iff htail).mp hv)
          rw [hk] at hlt
          exact lt_irrefl _ hlt
        rw [if_pos hk.symm, if_pos hk, hnone]
        rfl
      · rw [if_neg (Ne.symm hk), if_neg hk]
  exact hlist m.entries m.sorted

/-- Looking up in a map filled from a list with different keys: the value of the entry with the
    key. -/
theorem find?_foldl_insert {ι : Type} {key : ι → K} (value : ι → V) {is : List ι}
    (h : (is.map key).Nodup) (m : OrdMap K V) (k : K) [DecidablePred fun i => key i = k] :
    (is.foldl (fun m i => m.insert (key i) (value i)) m).find? k =
      (is.findSome? fun i => if key i = k then some (value i) else none).or (m.find? k) := by
  induction is generalizing m with
  | nil => rfl
  | cons i is ih =>
    obtain ⟨hi, his⟩ := List.nodup_cons.mp h
    rw [List.foldl_cons, ih his, List.findSome?_cons]
    by_cases hk : key i = k
    · have hnone : (is.findSome? fun j => if key j = k then some (value j) else none) = none := by
        rw [List.findSome?_eq_none_iff]
        intro j hj
        refine if_neg fun hjk => hi ?_
        rw [hk, ← hjk]
        exact List.mem_map_of_mem hj
      rw [hnone, if_pos hk, ← hk, find?_insert_self]
      rfl
    · rw [if_neg hk, find?_insert_of_ne _ _ (Ne.symm hk)]

/-- The entries of a map filled from a list with different keys. -/
theorem mem_entries_foldl_insert {ι : Type} {key : ι → K} {value : ι → V} {is : List ι}
    (h : (is.map key).Nodup) {e : K × V} :
    e ∈ (is.foldl (fun m i => m.insert (key i) (value i)) (∅ : OrdMap K V)).entries ↔
      ∃ i ∈ is, e = (key i, value i) := by
  rw [show e = (e.1, e.2) from rfl, ← find?_eq_some_iff, find?_foldl_insert value h, find?_empty,
    Option.or_none]
  constructor
  · intro hfind
    obtain ⟨i, hi, hvalue⟩ := List.exists_of_findSome?_eq_some hfind
    split at hvalue
    · rename_i hkey
      exact ⟨i, hi, Prod.ext hkey.symm (Option.some.inj hvalue).symm⟩
    · cases hvalue
  · rintro ⟨i, hi, he⟩
    obtain ⟨hkey, hvalue⟩ := Prod.mk.inj he
    cases hfind : is.findSome? fun j => if key j = e.1 then some (value j) else none with
    | none =>
      have hnone := List.findSome?_eq_none_iff.mp hfind i hi
      rw [if_pos hkey.symm] at hnone
      cases hnone
    | some v =>
      obtain ⟨j, hj, hv⟩ := List.exists_of_findSome?_eq_some hfind
      split at hv
      · rename_i hjk
        rw [List.inj_on_of_nodup_map h hj hi (hjk.trans hkey)] at hv
        rw [← hv, hvalue]
      · cases hv

/-- What a fold leaves in a part of its state that each step either sets or keeps: what the last
    step that sets it sets. -/
theorem foldl_eq_findSome? {σ ι β : Type*} {step : σ → ι → σ} (part : σ → Option β)
    {f : ι → Option β} (h : ∀ s i, part (step s i) = (f i).or (part s)) (s : σ) (is : List ι) :
    part (is.foldl step s) = (is.reverse.findSome? f).or (part s) := by
  induction is generalizing s with
  | nil => rfl
  | cons i is ih =>
    rw [List.foldl_cons, ih, h, List.reverse_cons, List.findSome?_append, List.findSome?_singleton,
      Option.or_assoc]

/-- Looking up in a map filled from a list: the value of the last entry with the key. -/
theorem find?_foldl_insert_last {ι : Type} (key : ι → K) (value : ι → V) (is : List ι)
    (m : OrdMap K V) (k : K) [DecidablePred fun i => key i = k] :
    (is.foldl (fun m i => m.insert (key i) (value i)) m).find? k =
      (is.reverse.findSome? fun i => if key i = k then some (value i) else none).or
        (m.find? k) := by
  refine foldl_eq_findSome? (fun m : OrdMap K V => m.find? k) (fun m i => ?_) m is
  by_cases hk : key i = k
  · rw [if_pos hk, ← hk, find?_insert_self]
    rfl
  · rw [if_neg hk, find?_insert_of_ne _ _ (Ne.symm hk)]
    rfl

/-- Put a value for every entry of another map, which may depend on the value that is there;
    `none` when one of them cannot be made. -/
def mergeM (f : Option V → K → W → Option V) (m : OrdMap K V) (es : OrdMap K W) :
    Option (OrdMap K V) :=
  es.entries.foldlM (fun m e => (f (m.find? e.1) e.1 e.2).map (m.insert e.1)) m

/-- A loop over the entries of a map whose steps change the other map at their own keys only. -/
theorem find?_foldlM {R : K → W → Option V → Option V → Prop}
    {step : OrdMap K V → K × W → Option (OrdMap K V)}
    (hstep : ∀ m e m', step m e = some m' → (∀ k, k ≠ e.1 → m'.find? k = m.find? k) ∧
      R e.1 e.2 (m.find? e.1) (m'.find? e.1)) {m m' : OrdMap K V} {es : OrdMap K W}
    (h : es.entries.foldlM step m = some m') (k : K) :
    (es.find? k = none → m'.find? k = m.find? k) ∧
      ∀ w, es.find? k = some w → R k w (m.find? k) (m'.find? k) := by
  have hlist : ∀ (es : List (K × W)) (m : OrdMap K V), (es.map Prod.fst).Nodup →
      es.foldlM step m = some m' → (k ∉ es.map Prod.fst → m'.find? k = m.find? k) ∧
        ∀ w, (k, w) ∈ es → R k w (m.find? k) (m'.find? k) := by
    intro es
    induction es with
    | nil =>
      intro m _ hm
      cases hm
      exact ⟨fun _ => rfl, nofun⟩
    | cons e es ih =>
      intro m hnodup hm
      obtain ⟨he, hes⟩ := List.nodup_cons.mp hnodup
      rw [List.foldlM_cons] at hm
      obtain ⟨m₁, hm₁, hrest⟩ := Option.bind_eq_some_iff.mp hm
      obtain ⟨hsame, hown⟩ := hstep m e m₁ hm₁
      obtain ⟨hother, hentry⟩ := ih m₁ hes hrest
      constructor
      · intro hk
        rw [List.map_cons, List.mem_cons, not_or] at hk
        rw [hother hk.2, hsame k hk.1]
      · intro w hw
        rcases List.mem_cons.mp hw with rfl | hw
        · rw [hother he]
          exact hown
        · have hmem : k ∈ es.map Prod.fst := List.mem_map_of_mem (f := Prod.fst) hw
          have hne : k ≠ e.1 := fun heq => he (heq ▸ hmem)
          rw [← hsame k hne]
          exact hentry w hw
  obtain ⟨hother, hentry⟩ := hlist es.entries m es.keys_nodup h
  exact ⟨fun hk => hother (find?_eq_none_iff.mp hk), fun w hw => hentry w (find?_eq_some_iff.mp hw)⟩

theorem find?_mergeM {f : Option V → K → W → Option V} {m m' : OrdMap K V} {es : OrdMap K W}
    (h : m.mergeM f es = some m') (k : K) :
    (es.find? k = none → m'.find? k = m.find? k) ∧
      ∀ w, es.find? k = some w → ∃ v, f (m.find? k) k w = some v ∧ m'.find? k = some v := by
  refine find?_foldlM (R := fun k w old new => ∃ v, f old k w = some v ∧ new = some v) ?_ h k
  intro m e m' hm
  obtain ⟨v, hv, rfl⟩ := Option.map_eq_some_iff.mp hm
  exact ⟨fun k hk => find?_insert_of_ne m v hk, v, hv, find?_insert_self m e.1 v⟩

/-- Nothing fails if a value can be made for every entry. -/
theorem exists_mergeM {f : Option V → K → W → Option V} {m : OrdMap K V} {es : OrdMap K W}
    (h : ∀ k w, es.find? k = some w → (f (m.find? k) k w).isSome) :
    ∃ m', m.mergeM f es = some m' := by
  have hlist : ∀ (es : List (K × W)) (m : OrdMap K V), (es.map Prod.fst).Nodup →
      (∀ e ∈ es, (f (m.find? e.1) e.1 e.2).isSome) →
      ∃ m', es.foldlM (fun m e => (f (m.find? e.1) e.1 e.2).map (m.insert e.1)) m = some m' := by
    intro es
    induction es with
    | nil => exact fun m _ _ => ⟨m, rfl⟩
    | cons e es ih =>
      intro m hnodup hsome
      obtain ⟨he, hes⟩ := List.nodup_cons.mp hnodup
      obtain ⟨v, hv⟩ := Option.isSome_iff_exists.mp (hsome e List.mem_cons_self)
      rw [List.foldlM_cons, hv]
      apply ih _ hes
      intro e' he'
      have hne : e'.1 ≠ e.1 := fun heq => he (heq ▸ List.mem_map_of_mem (f := Prod.fst) he')
      rw [find?_insert_of_ne m v hne]
      exact hsome e' (List.mem_cons_of_mem _ he')
  exact hlist es.entries m es.keys_nodup fun e he => h e.1 e.2 (find?_eq_some_iff.mpr he)

/-- The sum of the values when one of them is replaced. -/
theorem sum_insert {m : OrdMap K Int} {k : K} {old : Int} (h : m.find? k = some old) (new : Int) :
    ((m.insert k new).entries.map Prod.snd).sum =
      (m.entries.map Prod.snd).sum + (new - old) := by
  have hlist : ∀ es : List (K × Int), Sorted es → (k, old) ∈ es →
      ((insertEntry k new es).map Prod.snd).sum = (es.map Prod.snd).sum + (new - old) := by
    intro es hes hmem
    induction es with
    | nil => cases hmem
    | cons e es ih =>
      obtain ⟨hhead, htail⟩ := List.pairwise_cons.mp hes
      rcases List.mem_cons.mp hmem with rfl | hmem
      · rw [insertEntry, if_neg (lt_irrefl k), if_pos rfl]
        simp only [List.map_cons, List.sum_cons]
        omega
      · have hlt : e.1 < k := hhead _ hmem
        rw [insertEntry, if_neg (not_lt_of_gt hlt), if_neg (ne_of_gt hlt)]
        simp only [List.map_cons, List.sum_cons, ih htail hmem]
        omega
  exact hlist m.entries m.sorted (find?_eq_some_iff.mp h)

/-- Rewrite every value in place; `none` when one of them cannot be rewritten. -/
def mapM (f : V → Option V) (m : OrdMap K V) : Option (OrdMap K V) :=
  if ∀ e ∈ m.entries, (f e.2).isSome then some (m.mapVal fun _ v => (f v).getD v) else none

theorem exists_mapM_iff {f : V → Option V} {m : OrdMap K V} :
    (∃ m', m.mapM f = some m') ↔ ∀ e ∈ m.entries, (f e.2).isSome := by
  unfold mapM
  split_ifs with h
  · exact iff_of_true ⟨_, rfl⟩ h
  · exact iff_of_false (fun ⟨_, hm⟩ => by cases hm) h

theorem keys_mapM {f : V → Option V} {m m' : OrdMap K V} (h : m.mapM f = some m') :
    m'.keys = m.keys := by
  unfold mapM at h
  split at h
  · cases h
    exact keys_mapVal _ m
  · cases h

theorem find?_mapM {f : V → Option V} {m m' : OrdMap K V} (h : m.mapM f = some m') (k : K) :
    m'.find? k = (m.find? k).bind f := by
  unfold mapM at h
  split at h
  · rename_i hsome
    cases h
    rw [find?_mapVal]
    cases hfind : m.find? k with
    | none => rfl
    | some v =>
      obtain ⟨w, hw⟩ := Option.isSome_iff_exists.mp (hsome _ (find?_eq_some_iff.mp hfind))
      rw [Option.map_some, Option.bind_some, hw]
      rfl
  · cases h

/-- Rewrite the values under the keys `ks`, one after the other; `none` when a key is missing or a
    value cannot be rewritten. -/
def updateAll (f : K → V → Option V) (m : OrdMap K V) (ks : List K) : Option (OrdMap K V) :=
  ks.foldlM (fun m k => (m.find? k).bind fun v => (f k v).map (m.insert k)) m

theorem find?_updateAll {f : K → V → Option V} {m m' : OrdMap K V} {ks : List K} (hks : ks.Nodup)
    (h : m.updateAll f ks = some m') (k : K) :
    m'.find? k = if k ∈ ks then (m.find? k).bind (f k) else m.find? k := by
  induction ks generalizing m with
  | nil =>
    cases h
    rw [if_neg List.not_mem_nil]
  | cons k₀ ks ih =>
    obtain ⟨hk₀, hks⟩ := List.nodup_cons.mp hks
    rw [updateAll, List.foldlM_cons] at h
    obtain ⟨m₁, hm₁, hrest⟩ := Option.bind_eq_some_iff.mp h
    obtain ⟨v, hv, hm₁⟩ := Option.bind_eq_some_iff.mp hm₁
    obtain ⟨w, hw, rfl⟩ := Option.map_eq_some_iff.mp hm₁
    rw [ih hks hrest]
    by_cases hk : k = k₀
    · subst hk
      rw [if_neg hk₀, if_pos List.mem_cons_self, find?_insert_self, hv, Option.bind_some, hw]
    · simp only [List.mem_cons, hk, false_or, find?_insert_of_ne m w hk]

/-- Every key that is rewritten was there, with a value that could be rewritten. -/
theorem exists_of_updateAll {f : K → V → Option V} {m m' : OrdMap K V} {ks : List K}
    (hks : ks.Nodup) (h : m.updateAll f ks = some m') {k : K} (hk : k ∈ ks) :
    ∃ v w, m.find? k = some v ∧ f k v = some w ∧ m'.find? k = some w := by
  induction ks generalizing m with
  | nil => cases hk
  | cons k₀ ks ih =>
    have hfind := find?_updateAll hks h k
    obtain ⟨hk₀, hks⟩ := List.nodup_cons.mp hks
    rw [updateAll, List.foldlM_cons] at h
    obtain ⟨m₁, hm₁, hrest⟩ := Option.bind_eq_some_iff.mp h
    obtain ⟨v, hv, hm₁⟩ := Option.bind_eq_some_iff.mp hm₁
    obtain ⟨w, hw, rfl⟩ := Option.map_eq_some_iff.mp hm₁
    by_cases heq : k = k₀
    · subst heq
      rw [if_pos hk, hv, Option.bind_some, hw] at hfind
      exact ⟨v, w, hv, hw, hfind⟩
    · obtain ⟨v', w', hv', hw', hm'⟩ := ih hks hrest ((List.mem_cons.mp hk).resolve_left heq)
      rw [find?_insert_of_ne m w heq] at hv'
      exact ⟨v', w', hv', hw', hm'⟩

/-- What relates each rewritten value to the one before relates the whole maps. -/
theorem rel_updateAll {R : V → V → Prop} {f : K → V → Option V} (hrefl : ∀ v, R v v)
    (hf : ∀ k v w, f k v = some w → R v w) {m m' : OrdMap K V} {ks : List K} (hks : ks.Nodup)
    (h : m.updateAll f ks = some m') (k : K) : Option.Rel R (m.find? k) (m'.find? k) := by
  by_cases hk : k ∈ ks
  · obtain ⟨v, w, hv, hw, hm'⟩ := exists_of_updateAll hks h hk
    rw [hv, hm']
    exact Option.Rel.some (hf k v w hw)
  · rw [find?_updateAll hks h, if_neg hk]
    cases m.find? k with
    | none => exact Option.Rel.none
    | some v => exact Option.Rel.some (hrefl v)

/-- Two maps that look up the same are equal. -/
theorem ext_find? {m n : OrdMap K V} (h : ∀ k, m.find? k = n.find? k) : m = n := by
  obtain ⟨es, hes⟩ := m
  obtain ⟨fs, hfs⟩ := n
  have hmem : ∀ e, e ∈ es ↔ e ∈ fs := fun e => by
    rw [← findEntry_eq_some_iff (k := e.1) hes, ← findEntry_eq_some_iff (k := e.1) hfs]
    exact (iff_of_eq (congrArg (· = some e.2) (h e.1)))
  have hperm : es.Perm fs :=
    (List.perm_ext_iff_of_nodup (hes.imp fun hlt heq => (heq ▸ hlt).false)
      (hfs.imp fun hlt heq => (heq ▸ hlt).false)).mpr hmem
  congr
  exact hperm.eq_of_pairwise (fun a b _ _ hab hba => absurd (hab.trans hba) (lt_irrefl _)) hes hfs

/-- To rewrite each value by itself leaves the map as it is. -/
theorem updateAll_eq_self {f : K → V → Option V} {m : OrdMap K V} {ks : List K}
    (h : ∀ k ∈ ks, ∃ v, m.find? k = some v ∧ f k v = some v) : m.updateAll f ks = some m := by
  induction ks with
  | nil => rfl
  | cons k ks ih =>
    obtain ⟨v, hv, hf⟩ := h k List.mem_cons_self
    have hinsert : m.insert k v = m := by
      apply ext_find?
      intro k'
      rw [find?_insert]
      split
      · rename_i heq
        rw [heq, hv]
      · rfl
    rw [updateAll, List.foldlM_cons, hv, Option.bind_some, hf, Option.map_some, hinsert]
    exact ih fun k' hk' => h k' (List.mem_cons_of_mem k hk')

end OrdMap

end LibCollector.Misc
