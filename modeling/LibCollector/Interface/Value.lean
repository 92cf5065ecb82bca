import LibCollector.Misc.OrdMap
import LibCollector.Misc.Text
import Mathlib.Data.List.Lex
import Mathlib.Data.Char

/-!
# Series of values

`CollectorValue` and `CollectorValueList` of `src/interface.hpp`: the values that a
collector has added under one key since the last `clear()` or `summarize()`, and the
averages that `summarize()` has left. A failed assertion, an integer division by
zero, a conversion that has no value and an exception end the process and are `none`.
`double` is `Float`.
-/

namespace LibCollector.Interface

open LibCollector.Misc

/-- `CollectorValueList::vtype`, without `TYPE_UNASSIGNED`. -/
inductive Vtype where
  | fp64
  | u64
  | i64
  deriving DecidableEq

/-- The union `CollectorValue`. -/
structure CollectorValue where
  bits : UInt64
  deriving DecidableEq

namespace CollectorValue

def fp64 (v : CollectorValue) : Float := Float.ofBits v.bits

def u64 (v : CollectorValue) : UInt64 := v.bits

def i64 (v : CollectorValue) : Int64 := v.bits.toInt64

def ofFp64 (x : Float) : CollectorValue := ⟨x.toBits⟩

def ofU64 (n : UInt64) : CollectorValue := ⟨n⟩

def ofI64 (n : Int64) : CollectorValue := ⟨n.toUInt64⟩

end CollectorValue

/-- A number, as the type that one of the overloads of `push_back` stores it with. -/
abbrev Number := Vtype × CollectorValue

/-- The list that has been given no value. -/
theorem unassigned_nil : (none : Option Vtype) = none →
    ([] : List CollectorValue) = [] ∧ ([] : List CollectorValue) = [] := fun _ => ⟨rfl, rfl⟩

/-- `CollectorValueList`; `none` is `TYPE_UNASSIGNED`, the type of a list that was never filled. -/
structure CollectorValueList where
  type : Option Vtype := none
  list : List CollectorValue := []
  summaries : List CollectorValue := []
  unassigned : type = none → list = [] ∧ summaries = [] := by exact unassigned_nil
  deriving DecidableEq

namespace CollectorValueList

/-- `push_back` of a number. -/
def pushBack (val : Number) (l : CollectorValueList) : Option CollectorValueList :=
  if l.type = none ∨ l.type = some val.1 then
    some { l with type := some val.1, list := l.list ++ [val.2], unassigned := nofun }
  else none

/-- The average that `summarize()` stores for a list of type `t`. -/
def average (t : Vtype) (list : List CollectorValue) : Option CollectorValue :=
  match t with
  | .fp64 => some (.ofFp64 (list.foldl (fun s v => s + v.fp64) 0 / Float.ofNat list.length))
  | .i64 =>
    if list = [] then none
    else some (.ofI64 (list.foldl (fun s v => s + v.i64) 0 / Int64.ofNat list.length))
  | .u64 =>
    if list = [] then none
    else some (.ofU64 (list.foldl (fun s v => s + v.u64) 0 / UInt64.ofNat list.length))

/-- `CollectorValueList::summarize`. -/
def summarize (l : CollectorValueList) : Option CollectorValueList :=
  l.type.bind fun t => (average t l.list).map fun c =>
    { type := some t, list := [], summaries := l.summaries ++ [c], unassigned := nofun }

/-- `CollectorValueList::clear`. -/
def clear (l : CollectorValueList) : CollectorValueList :=
  { l with list := [], unassigned := fun h => ⟨rfl, (l.unassigned h).2⟩ }

/-- `CollectorValueList::data`. -/
def data (l : CollectorValueList) : List CollectorValue :=
  if l.summaries ≠ [] then l.summaries else l.list

/-- The list with the type of its values. -/
def typed (l : CollectorValueList) (vs : List CollectorValue) : List Number :=
  match l.type with
  | none => []
  | some t => vs.map fun v => (t, v)

/-- The numbers that have been added. -/
def numbers (l : CollectorValueList) : List Number := l.typed l.list

/-- The numbers that `results()` reports. -/
def reported (l : CollectorValueList) : List Number := l.typed l.data

/-- A list with a value has a type. -/
theorem type_ne_none {l : CollectorValueList} (h : l.list ≠ []) : l.type ≠ none :=
  fun htype => h (l.unassigned htype).1

theorem numbers_pushBack {val : Number} {l l' : CollectorValueList}
    (h : l.pushBack val = some l') : l'.numbers = l.numbers ++ [val] := by
  unfold pushBack at h
  split at h
  · rename_i htype
    cases h
    rcases htype with htype | htype
    · simp [numbers, typed, htype, (l.unassigned htype).1]
    · simp [numbers, typed, htype]
  · cases h

theorem summaries_pushBack {val : Number} {l l' : CollectorValueList}
    (h : l.pushBack val = some l') : l'.summaries = l.summaries := by
  unfold pushBack at h
  split at h
  · cases h
    rfl
  · cases h

@[simp] theorem numbers_clear (l : CollectorValueList) : l.clear.numbers = [] := by
  rw [numbers, typed]
  cases l.clear.type <;> rfl

/-- Without averages, the numbers that have been added are reported. -/
theorem reported_eq_numbers {l : CollectorValueList} (h : l.summaries = []) :
    l.reported = l.numbers := by
  rw [reported, data, if_neg (not_not.mpr h), numbers]

theorem length_numbers (l : CollectorValueList) : l.numbers.length = l.list.length := by
  cases h : l.type with
  | none => simp [numbers, typed, h, (l.unassigned h).1]
  | some t => simp [numbers, typed, h]

@[simp] theorem numbers_eq_nil_iff (l : CollectorValueList) : l.numbers = [] ↔ l.list = [] := by
  cases h : l.type with
  | none => simp [numbers, typed, h, (l.unassigned h).1]
  | some t => simp [numbers, typed, h]

/-! ## Matching samples to the time line -/

/-- The conversion of a `double` to `int`; one that no `int` is the truncation of, or that is not a
    number, has no value. -/
def truncToInt (x : Float) : Option Int :=
  if -2147483649 < x ∧ x < 2147483648 then some x.toInt32.toInt else none

/-- The loop of `Collector::postprocess` that finds the index of the closest sample for each
    collected interval; `duration` and `samples` are its local variables. -/
def closest (duration samples : Float) : Int → List Int → List (Option Int)
  | _, [] => []
  | curTime, t :: timing =>
    truncToInt (Float.ofInt curTime / duration * samples) ::
      closest duration samples (curTime + t) timing

/-- One value of `values` for each interval of `timing`; an index out of range is an exception. -/
def remix {α : Type} (timing : List Int) (values : List α) : Option (List α) :=
  let duration := timing.foldl (fun d v => d + Float.ofInt v) 0
  (closest duration (Float.ofNat values.length) 0 timing).mapM fun index =>
    index.bind fun index => if index < 0 then none else values[index.toNat]?

theorem mapM_map {ι α β : Type} (f : α → β) (g : ι → Option α) (is : List ι) :
    (is.mapM fun i => (g i).map f) = (is.mapM g).map (List.map f) := by
  induction is with
  | nil => rfl
  | cons i is ih =>
    simp only [List.mapM_cons, ih]
    cases g i with
    | none => rfl
    | some v => cases is.mapM g <;> rfl

theorem remix_map {α β : Type} (f : α → β) (timing : List Int) (values : List α) :
    remix timing (values.map f) = (remix timing values).map (List.map f) := by
  have hget : ∀ index : Option Int,
      (index.bind fun index => if index < 0 then none else (values.map f)[index.toNat]?) =
        (index.bind fun index => if index < 0 then none else values[index.toNat]?).map f := by
    intro index
    cases index with
    | none => rfl
    | some index =>
      rw [Option.bind_some, Option.bind_some]
      split
      · rfl
      · exact List.getElem?_map
  simp only [remix, List.length_map, hget, mapM_map]

/-- The list that `postprocess` puts in the place of `l`. -/
def remixed (timing : List Int) (l : CollectorValueList) : Option CollectorValueList :=
  l.type.bind fun t => (remix timing l.list).map fun list =>
    { type := some t, list := list, summaries := [], unassigned := nofun }

theorem numbers_remixed {timing : List Int} {l l' : CollectorValueList}
    (h : l.remixed timing = some l') :
    remix timing l.numbers = some l'.numbers ∧ l'.summaries = [] := by
  obtain ⟨t, htype, hl'⟩ := Option.bind_eq_some_iff.mp h
  obtain ⟨list, hlist, rfl⟩ := Option.map_eq_some_iff.mp hl'
  refine ⟨?_, rfl⟩
  simp only [numbers, typed, htype]
  rw [remix_map, hlist]
  rfl

end CollectorValueList

end LibCollector.Interface
