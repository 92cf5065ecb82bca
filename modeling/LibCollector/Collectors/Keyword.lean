import LibCollector.Misc.Loop
import LibCollector.Misc.Substring
import LibCollector.Misc.Text
import Mathlib.Logic.Function.Basic

/-!
# Keyword search

`searchMemoryAreaForKeyword` of `src/collectors/collector_utility.cpp`, which looks for a keyword in
an array of bytes with Horspool's algorithm. An `int` that overflows and a read outside of an array
are undefined, and `none`.
-/

namespace LibCollector.Collectors

open LibCollector.Misc

/-- The conversion of a size to `int`. -/
def intOfSize (size : Nat) : Int := Int.bmod size 4294967296

/-- The byte at a place of an array. -/
def byteAt (a : List UInt8) (i : Int) : Option UInt8 := if 0 ≤ i then a[i.toNat]? else none

/-- `memcmp(x, y + j, count) == 0`. -/
def memcmpEq (x y : List UInt8) (j count : Int) : Option Bool :=
  if 0 ≤ j ∧ 0 ≤ count ∧ count ≤ x.length ∧ j + count ≤ y.length then
    some ((y.drop j.toNat).take count.toNat = x.take count.toNat)
  else none

/-- `bmBc` after `count` iterations of the loop over the keyword. -/
def bmBcLoop (x : List UInt8) (m : Int) : Nat → UInt8 → Int
  | 0 => fun _ => m
  | i + 1 =>
    match x[i]? with
    | some c => Function.update (bmBcLoop x m i) c (m - i - 1)
    -- `m` is at most the length, so the loop does not come here.
    | none => bmBcLoop x m i

/-- `bmBc`. -/
def bmBc (x : List UInt8) (m : Int) : UInt8 → Int := bmBcLoop x m (m - 1).toNat

/-- The body of the search loop, with its condition. -/
def searchBody (x y : List UInt8) (m n j : Int) : Option (Turn Int Bool) := do
  let last ← toInt32 (n - m)
  if j ≤ last then
    let behind ← toInt32 (j + m)
    let c ← byteAt y (behind - 1)
    let final ← toInt32 (m - 1)
    let x' ← byteAt x final
    let found ← if x' = c then memcmpEq x y j final else some false
    if found then some (.done true)
    else
      let j' ← toInt32 (j + bmBc x m c)
      some (.again j')
  else some (.done false)

/-- A turn of the search loop, of which nothing is known where it is undefined. -/
def searchTurn (x y : List UInt8) (m n j : Int) : Turn Int (Option Bool) :=
  match searchBody x y m n j with
  | none => .done none
  | some (.again j') => .again j'
  | some (.done found) => .done (some found)

/-- What `searchMemoryAreaForKeyword` returns. -/
def SearchReturns (data keyword : List UInt8) (r : Option Bool) : Prop :=
  Returns (searchTurn keyword data (intOfSize keyword.length) (intOfSize data.length)) 0 r

/-! ## The table -/

theorem bmBcLoop_spec {x : List UInt8} {k : Nat} (hk : k + 1 ≤ x.length) (c : UInt8) :
    0 < bmBcLoop x x.length k c ∧ bmBcLoop x x.length k c ≤ x.length ∧
      ∀ i < k, x[i]? = some c → bmBcLoop x x.length k c ≤ x.length - 1 - i := by
  induction k with
  | zero =>
    have hpos : (0 : Int) < x.length := by omega
    exact ⟨hpos, Int.le_refl _, fun i hi => absurd hi (Nat.not_lt_zero i)⟩
  | succ k ih =>
    obtain ⟨hpos, hle, hdist⟩ := ih (by omega)
    have hget : x[k]? = some x[k] := List.getElem?_eq_getElem (by omega)
    rw [bmBcLoop, hget]
    dsimp only
    rw [Function.update_apply]
    split_ifs with hc
    · exact ⟨by omega, by omega, fun i hi _ => by omega⟩
    · refine ⟨hpos, hle, fun i hi hi' => hdist i ?_ hi'⟩
      rcases Nat.lt_succ_iff_lt_or_eq.mp hi with hlt | rfl
      · exact hlt
      · rw [hget, Option.some.injEq] at hi'
        exact absurd hi'.symm hc

/-- The table has safe shifts. -/
theorem safeShift_bmBc {x : List UInt8} (hx : x ≠ []) : SafeShift x (bmBc x x.length) := by
  have hpos := List.length_pos_iff.mpr hx
  have hspec := @bmBcLoop_spec x ((x.length : Int) - 1).toNat (by omega)
  exact ⟨fun c => (hspec c).1, fun c => (hspec c).2.1, fun i c hi => (hspec c).2.2 i (by omega)⟩

/-! ## The search -/

theorem intOfSize_eq {size : Nat} (h : size < 2147483648) : intOfSize size = size :=
  Int.bmod_eq_of_le (by omega) (by omega)

theorem toInt32_eq {n : Int} (hlo : -2147483648 ≤ n) (hhi : n ≤ 2147483647) :
    toInt32 n = some n := if_pos ⟨hlo, hhi⟩

/-- The window is in the array or at its end, and no occurrence is before it. -/
def NoneBefore (x y : List UInt8) (s : Int) : Prop :=
  ∃ k : Nat, s = k ∧ k ≤ y.length ∧ ∀ i < k, ¬ OccursAt x y i

section search

variable {x y : List UInt8} (hx : x ≠ []) (hxlen : x.length < 2147483648)
  (hylen : y.length < 2147483648) {j : Nat}

include hx hxlen hylen

/-- The window is beyond the end of the array. -/
theorem searchTurn_end (hj : j ≤ y.length) (hend : y.length < j + x.length) :
    searchTurn x y x.length y.length j = .done (some false) := by
  have hpos := List.length_pos_iff.mpr hx
  have hlast : ¬ (j : Int) ≤ y.length - x.length := by omega
  have hlast' : toInt32 ((y.length : Int) - x.length) = some (y.length - x.length : Int) :=
    toInt32_eq (by omega) (by omega)
  simp only [searchTurn, searchBody, Option.bind_eq_bind, hlast', Option.bind_some, if_neg hlast]

/-- A window inside of the array. -/
theorem searchTurn_window (hwindow : j + x.length ≤ y.length) :
    ∃ c, y[j + x.length - 1]? = some c ∧ searchTurn x y x.length y.length j =
      if OccursAt x y j then .done (some true) else .again (j + bmBc x x.length c) := by
  have hpos := List.length_pos_iff.mpr hx
  have hlast : toInt32 ((y.length : Int) - x.length) = some (y.length - x.length : Int) :=
    toInt32_eq (by omega) (by omega)
  have hbehind : toInt32 ((j : Int) + x.length) = some (j + x.length : Int) :=
    toInt32_eq (by omega) (by omega)
  have hfinal : toInt32 ((x.length : Int) - 1) = some (x.length - 1 : Int) :=
    toInt32_eq (by omega) (by omega)
  obtain ⟨c, hc⟩ : ∃ c, y[j + x.length - 1]? = some c :=
    ⟨_, List.getElem?_eq_getElem (by omega)⟩
  obtain ⟨x', hx'⟩ : ∃ x', x[x.length - 1]? = some x' :=
    ⟨_, List.getElem?_eq_getElem (by omega)⟩
  have hbyte : byteAt y ((j : Int) + x.length - 1) = some c := by
    rw [byteAt, if_pos (by omega), ← hc]
    congr 1
    omega
  have hbyte' : byteAt x ((x.length : Int) - 1) = some x' := by
    rw [byteAt, if_pos (by omega), ← hx']
    congr 1
    omega
  have hmemcmp : memcmpEq x y j (x.length - 1) =
      some (decide ((y.drop j).take (x.length - 1) = x.take (x.length - 1))) := by
    have hcount : ((x.length : Int) - 1).toNat = x.length - 1 := by omega
    rw [memcmpEq, if_pos (by omega), Int.toNat_natCast, hcount]
  obtain ⟨hshift, hshift'⟩ : 0 < bmBc x x.length c ∧ bmBc x x.length c ≤ x.length :=
    ⟨(safeShift_bmBc hx).pos c, (safeShift_bmBc hx).le_length c⟩
  have hnext : toInt32 (j + bmBc x x.length c) = some (j + bmBc x x.length c) :=
    toInt32_eq (by omega) (by omega)
  refine ⟨c, hc, ?_⟩
  have hocc := occursAt_iff hx hwindow
  rw [hc, hx', Option.some.injEq] at hocc
  simp only [searchTurn, searchBody, Option.bind_eq_bind, hlast, hbehind, hfinal, hbyte, hbyte',
    hmemcmp, hnext, Option.bind_some, if_pos (show (j : Int) ≤ y.length - x.length by omega), hocc]
  by_cases hend : x' = c
  · by_cases hbefore : (y.drop j).take (x.length - 1) = x.take (x.length - 1)
    · simp [hend, hbefore]
    · simp [hend, hbefore]
  · simp [hend]

/-- The search goes on behind the window, and has not passed over an occurrence. -/
theorem NoneBefore.again {s s' : Int} (h : NoneBefore x y s)
    (hagain : searchTurn x y x.length y.length s = .again s') :
    NoneBefore x y s' ∧ (y.length + 1 - s').toNat < (y.length + 1 - s).toNat := by
  obtain ⟨k, rfl, hk, hbefore⟩ := h
  by_cases hend : y.length < k + x.length
  · rw [searchTurn_end hx hxlen hylen hk hend] at hagain
    cases hagain
  · obtain ⟨c, hc, hturn⟩ := searchTurn_window hx hxlen hylen (Nat.le_of_not_lt hend)
    rw [hturn] at hagain
    split_ifs at hagain with hocc
    cases hagain
    have hsafe := safeShift_bmBc hx
    have hpos := hsafe.pos c
    have hle := hsafe.le_length c
    refine ⟨⟨(k + bmBc x x.length c).toNat, by omega, by omega, fun i hi hocc' => ?_⟩, by omega⟩
    -- Neither the windows up to this one nor the ones that are shifted over have an occurrence.
    rcases Nat.lt_trichotomy i k with hlt | rfl | hgt
    · exact hbefore i hlt hocc'
    · exact hocc hocc'
    · have hshift := hsafe.add_le hx hocc' hgt hc
      omega

/-- The search ends at an occurrence, or where there is no room for one. -/
theorem NoneBefore.done {s : Int} {r : Option Bool} (h : NoneBefore x y s)
    (hdone : searchTurn x y x.length y.length s = .done r) : r = some (decide (x <:+: y)) := by
  obtain ⟨k, rfl, hk, hbefore⟩ := h
  by_cases hend : y.length < k + x.length
  · rw [searchTurn_end hx hxlen hylen hk hend] at hdone
    cases hdone
    have hnone : ¬ x <:+: y := by
      rw [infix_iff_exists_occursAt]
      rintro ⟨i, hocc⟩
      have hfits := hocc.add_length_le hx
      exact hbefore i (by omega) hocc
    rw [decide_eq_false hnone]
  · obtain ⟨c, hc, hturn⟩ := searchTurn_window hx hxlen hylen (Nat.le_of_not_lt hend)
    rw [hturn] at hdone
    split_ifs at hdone with hocc
    cases hdone
    rw [decide_eq_true (infix_iff_exists_occursAt.mpr ⟨k, hocc⟩)]

theorem search_returns :
    ∃ r, Returns (searchTurn x y x.length y.length) 0 r ∧ r = some (decide (x <:+: y)) :=
  exists_returns (I := NoneBefore x y) (fun s => (y.length + 1 - s).toNat)
    (fun _ _ h hagain => h.again hx hxlen hylen hagain)
    (fun _ _ h hdone => h.done hx hxlen hylen hdone)
    ⟨0, rfl, Nat.zero_le _, fun i hi => absurd hi (Nat.not_lt_zero i)⟩

end search

/-- The search is plain substring search. -/
theorem searchReturns_iff {data keyword : List UInt8} (hkeyword : keyword ≠ [])
    (hsize : keyword.length < 2147483648) (hdata : data.length < 2147483648) (r : Option Bool) :
    SearchReturns data keyword r ↔ r = some (decide (keyword <:+: data)) := by
  obtain ⟨_, hreturns, rfl⟩ := search_returns hkeyword hsize hdata
  rw [SearchReturns, intOfSize_eq hsize, intOfSize_eq hdata]
  exact returns_iff hreturns

theorem mali_searchReturns_iff :
    SearchReturns [108, 105, 98, 109, 109, 109, 97, 108, 105, 0] [109, 97, 108, 105] (some true) :=
  (searchReturns_iff (by decide) (by decide) (by decide) _).mpr (by decide)

/-- With a keyword of two gibibytes the difference of the lengths overflows. -/
theorem not_searchReturns_long :
    List.replicate 2147483648 0 ≠ ([] : List UInt8) ∧
      ∀ found, ¬ SearchReturns [] (List.replicate 2147483648 0) (some found) := by
  have hm : intOfSize (List.replicate 2147483648 (0 : UInt8)).length = -2147483648 := by
    rw [List.length_replicate]
    decide
  have hturn : searchTurn (List.replicate 2147483648 0) [] (-2147483648) 0 0 = .done none := by
    have hlast : toInt32 (0 - -2147483648) = none := by decide
    simp only [searchTurn, searchBody, hlast, Option.bind_eq_bind, Option.bind_none]
  refine ⟨?_, fun found hreturns => ?_⟩
  · rw [Ne, List.replicate_eq_nil_iff]
    omega
  · rw [SearchReturns, hm] at hreturns
    cases hreturns.unique (returns_of_done hturn)

end LibCollector.Collectors
