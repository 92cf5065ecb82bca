import LibCollector.Mali.HwcPipe
import LibCollector.Misc.Table

/-!
# The collector of the Mali counters

`src/collectors/mali_counters.cpp`: the collector makes a list of the counters that have a name, and
reads them from the samples of the hardware. A read outside of the samples is undefined, and `none`.
-/

namespace LibCollector.Mali

open LibCollector.Misc

/-- `MaliHWCReader::get_counters`, as a place in `counter_buffer`. -/
def MaliHWCReader.get_counters (r : MaliHWCReader) (block : MaliCounterBlockName) (core : Nat) :
    Option Nat :=
  if r.hw_ver < 5 then
    match block with
    | .MALI_NAME_BLOCK_JM => some (64 * 6)
    | .MALI_NAME_BLOCK_MMU => some (64 * 5)
    | .MALI_NAME_BLOCK_TILER => some (64 * 4)
    | .MALI_NAME_BLOCK_SHADER => (r.remap_core_index core).map fun physical => 64 * physical
  else
    match block with
    | .MALI_NAME_BLOCK_JM => some (64 * 0)
    | .MALI_NAME_BLOCK_MMU => some (64 * 2)
    | .MALI_NAME_BLOCK_TILER => some (64 * 1)
    | .MALI_NAME_BLOCK_SHADER => (r.remap_core_index core).map fun physical => 64 * (3 + physical)

/-- What stands at one place of `header`, `indices` and `core_indices`. -/
structure Counter where
  header : Str
  block : MaliCounterBlockName
  index : Int
  core : Int
  deriving DecidableEq

structure MaliCounterCollector where
  info : MaliHWInfo
  counter_reader : MaliHWCReader
  counters : List Counter := []

/-- How a collection ends. -/
inductive Collected where
  | returned (ok : Bool)
  | exited
  deriving DecidableEq

/-- `verbose_block_name + "_" + names[MALI_NAME_BLOCK_JM * block_size + index]`, where the first
    block has the number zero. -/
def headerOf (names_lut : NamesLut) (block : MaliCounterBlockName) (verbose_block_name : Str)
    (index : Fin 64) : Str :=
  verbose_block_name ++ '_' :: get_counter_name names_lut block index

/-- `MaliCounterCollector::build_block_vectors`, for blocks of `MALI_NAME_BLOCK_SIZE`. -/
def build_block_vectors (names_lut : NamesLut) (block : MaliCounterBlockName)
    (verbose_block_name : Str) (core : Int) (counters : List Counter) : List Counter :=
  (List.finRange 64).foldl
    (fun counters index =>
      if get_counter_name names_lut block index ≠ [] then
        counters ++ [{
          header := headerOf names_lut block verbose_block_name index
          block := block
          index := find_counter_index_by_name names_lut block
            (get_counter_name names_lut block index)
          core := core }]
      else counters)
    counters

namespace MaliCounterCollector

/-- The value of a counter in the samples. -/
def readCounter (r : MaliHWCReader) (counter : Counter) : Option (BitVec 32) := do
  let start ← r.get_counters counter.block (if counter.core = -1 then 0 else counter.core.toNat)
  let place := start + counter.index
  if 0 ≤ place then r.counter_buffer[place.toNat]? else none

/-- `MaliCounterCollector::init`. -/
def init (names_lut : NamesLut) (c : MaliCounterCollector) : Bool × MaliCounterCollector :=
  if !c.info.valid then (false, c)
  else if !c.counter_reader.alive then (false, c)
  else
    let jm := build_block_vectors names_lut .MALI_NAME_BLOCK_JM "JM".toList (-1) c.counters
    let tiler := build_block_vectors names_lut .MALI_NAME_BLOCK_TILER "TILER".toList (-1) jm
    let mmu := build_block_vectors names_lut .MALI_NAME_BLOCK_MMU "MMU".toList (-1) tiler
    let counters := (List.range c.counter_reader.get_num_cores.toNat).foldl
      (fun counters (corenum : Nat) =>
        build_block_vectors names_lut .MALI_NAME_BLOCK_SHADER ("SC:".toList ++ toChars corenum)
          corenum counters)
      mmu
    (true, { c with counters := counters })

/-- `MaliCounterCollector::collect`, with the calls of `add`. The sum of the counters, which are not
    negative, is zero if all of them are. -/
def collect (c : MaliCounterCollector) : Option (List (Str × BitVec 32) × Collected) :=
  if !c.info.valid then some ([], .returned false)
  else do
    let adds ← c.counters.mapM fun counter =>
      (readCounter c.counter_reader counter).map fun value => (counter.header, value)
    if adds.all fun add => add.2 = 0 then some (adds, .exited) else some (adds, .returned true)

end MaliCounterCollector

/-! ## The counters of a block -/

/-- The counters that have a name, each of them in its own place. -/
def ownCounters (names_lut : NamesLut) (block : MaliCounterBlockName) (verbose_block_name : Str)
    (core : Int) : List Counter :=
  ((List.finRange 64).filter fun p => get_counter_name names_lut block p ≠ []).map fun p =>
    { header := headerOf names_lut block verbose_block_name p, block := block, index := (p : Nat)
      core := core }

section block

variable {names_lut : NamesLut} {block : MaliCounterBlockName}

theorem build_block_vectors_eq (verbose_block_name : Str) (core : Int) (counters : List Counter) :
    build_block_vectors names_lut block verbose_block_name core counters = counters ++
      ((List.finRange 64).filter fun p => get_counter_name names_lut block p ≠ []).map fun p =>
        { header := headerOf names_lut block verbose_block_name p
          block := block
          index := find_counter_index_by_name names_lut block (get_counter_name names_lut block p)
          core := core } := by
  unfold build_block_vectors
  generalize List.finRange 64 = places
  induction places generalizing counters with
  | nil => exact (List.append_nil _).symm
  | cons p places ih =>
    rw [List.foldl_cons, ih]
    by_cases hp : get_counter_name names_lut block p = []
    · rw [if_neg (not_not.mpr hp), List.filter_cons_of_neg (by simpa using hp)]
    · rw [if_pos hp, List.filter_cons_of_pos (by simpa using hp), List.map_cons, List.append_assoc]
      rfl

/-- A collector that has the counters of a block reports them. -/
def ReportsOwnCounters (names_lut : NamesLut) (block : MaliCounterBlockName) : Prop :=
  ∀ verbose_block_name core (c : MaliCounterCollector) adds ended,
    build_block_vectors names_lut block verbose_block_name core [] ⊆ c.counters →
    c.info.valid = true → c.collect = some (adds, ended) →
    ∀ p, get_counter_name names_lut block p ≠ [] → ∃ start value,
      c.counter_reader.get_counters block (if core = -1 then 0 else core.toNat) = some start ∧
        c.counter_reader.counter_buffer[start + p]? = some value ∧
          (headerOf names_lut block verbose_block_name p, value) ∈ adds

/-- The names of a block are recorded with their own places, and so the values that are reported
    are the counters in these places. -/
def ReadFromOwnSlots (names_lut : NamesLut) (block : MaliCounterBlockName) : Prop :=
  (∀ verbose_block_name core counters,
      build_block_vectors names_lut block verbose_block_name core counters =
        counters ++ ownCounters names_lut block verbose_block_name core) ∧
    ReportsOwnCounters names_lut block

/-- No name stands in a name before it. -/
def NoneInEarlier (names_lut : NamesLut) (block : MaliCounterBlockName) : Prop :=
  ∀ p, get_counter_name names_lut block p ≠ [] → ∀ q < p,
    ¬ get_counter_name names_lut block p <:+: get_counter_name names_lut block q

theorem build_block_vectors_own_iff (verbose_block_name : Str) (core : Int)
    (counters : List Counter) :
    build_block_vectors names_lut block verbose_block_name core counters =
        counters ++ ownCounters names_lut block verbose_block_name core ↔
      NoneInEarlier names_lut block := by
  rw [build_block_vectors_eq, ownCounters, List.append_cancel_left_eq, List.map_inj_left]
  refine forall_congr' fun p => ?_
  rw [List.mem_filter, and_iff_right (List.mem_finRange p), decide_eq_true_eq]
  refine imp_congr_right fun _ => ?_
  rw [← find_counter_index_by_name_eq_iff, Counter.mk.injEq]
  exact ⟨fun h => h.2.2.1, fun h => ⟨rfl, rfl, h, rfl⟩⟩

/-- What `collect` adds for a counter of the collector. -/
theorem exists_added {c : MaliCounterCollector} {adds : List (Str × BitVec 32)} {ended : Collected}
    (hvalid : c.info.valid = true) (hcollect : c.collect = some (adds, ended)) {counter : Counter}
    (hcounter : counter ∈ c.counters) :
    ∃ value, MaliCounterCollector.readCounter c.counter_reader counter = some value ∧
      (counter.header, value) ∈ adds := by
  have hadds : (c.counters.mapM fun counter =>
      (MaliCounterCollector.readCounter c.counter_reader counter).map fun value =>
        (counter.header, value)) = some adds := by
    unfold MaliCounterCollector.collect at hcollect
    rw [if_neg (by simp [hvalid])] at hcollect
    obtain ⟨adds', hadds, hended⟩ := Option.bind_eq_some_iff.mp hcollect
    split at hended
    all_goals cases hended
    all_goals exact hadds
  have hmem := List.mem_map_of_mem (f := fun counter =>
    (MaliCounterCollector.readCounter c.counter_reader counter).map fun value =>
      (counter.header, value)) hcounter
  rw [mapM_eq_some_iff.mp hadds] at hmem
  obtain ⟨add, hadd, heq⟩ := List.mem_map.mp hmem
  obtain ⟨value, hread, rfl⟩ := Option.map_eq_some_iff.mp heq.symm
  exact ⟨value, hread, hadd⟩

theorem reportsOwnCounters (h : NoneInEarlier names_lut block) :
    ReportsOwnCounters names_lut block := by
  intro verbose_block_name core c adds ended hcounters hvalid hcollect p hp
  rw [(build_block_vectors_own_iff verbose_block_name core []).mpr h, List.nil_append] at hcounters
  have hown : p ∈ (List.finRange 64).filter fun p => get_counter_name names_lut block p ≠ [] :=
    List.mem_filter.mpr ⟨List.mem_finRange p, decide_eq_true hp⟩
  obtain ⟨value, hread, hadded⟩ :=
    exists_added hvalid hcollect (hcounters (List.mem_map_of_mem hown))
  unfold MaliCounterCollector.readCounter at hread
  obtain ⟨start, hstart, hplace⟩ := Option.bind_eq_some_iff.mp hread
  dsimp only at hplace
  rw [if_pos (by omega)] at hplace
  exact ⟨start, value, hstart, hplace, hadded⟩

/-- A block is read from its own slots if and only if no name stands in a name before it. -/
theorem readFromOwnSlots_iff (names_lut : NamesLut) (block : MaliCounterBlockName) :
    ReadFromOwnSlots names_lut block ↔
      ∀ p, get_counter_name names_lut block p ≠ [] → ∀ q < p,
        ¬ get_counter_name names_lut block p <:+: get_counter_name names_lut block q := by
  constructor
  · intro h
    exact (build_block_vectors_own_iff [] 0 []).mp (h.1 [] 0 [])
  · intro h
    exact ⟨fun verbose_block_name core counters =>
      (build_block_vectors_own_iff verbose_block_name core counters).mpr h, reportsOwnCounters h⟩

end block

/-- In the memory system block of the first product, `T60x_L2_EXT_READ` stands in the name
    `T60x_L2_EXT_READ_BEATS` before it. -/
theorem not_readFromOwnSlots :
    ¬ ReadFromOwnSlots hardware_counters_mali_t60x .MALI_NAME_BLOCK_MMU := by
  intro h
  have hnone := (build_block_vectors_own_iff [] 0 []).mp (h.1 [] 0 [])
  exact hnone 48 (by decide) 31 (by decide) (by decide)

/-! ## The counters of the collector -/

/-- The blocks that `init` goes through, with their names and cores. -/
def collectorBlocks (cores : Nat) : List (MaliCounterBlockName × Str × Int) :=
  [(.MALI_NAME_BLOCK_JM, "JM".toList, -1), (.MALI_NAME_BLOCK_TILER, "TILER".toList, -1),
    (.MALI_NAME_BLOCK_MMU, "MMU".toList, -1)] ++
  (List.range cores).map fun corenum : Nat =>
    (.MALI_NAME_BLOCK_SHADER, "SC:".toList ++ toChars corenum, (corenum : Int))

/-- With a table in which no name stands in a name before it, a collector that is initialised has
    the counters of all blocks in their own places, and its reader is the same. -/
theorem init_own {names_lut : NamesLut} (h : ∀ block, NoneInEarlier names_lut block)
    {c c' : MaliCounterCollector} (hinit : c.init names_lut = (true, c')) :
    c'.counters = c.counters ++ (collectorBlocks c.counter_reader.get_num_cores.toNat).flatMap
        (fun b => ownCounters names_lut b.1 b.2.1 b.2.2) ∧
      c'.info = c.info ∧ c'.counter_reader = c.counter_reader := by
  have hown := fun block verbose_block_name core counters =>
    (@build_block_vectors_own_iff names_lut block verbose_block_name core counters).mpr (h block)
  unfold MaliCounterCollector.init at hinit
  dsimp only at hinit
  split_ifs at hinit
  all_goals obtain ⟨hok, rfl⟩ := Prod.mk.inj hinit
  · cases hok
  · cases hok
  refine ⟨?_, rfl, rfl⟩
  have hshader : ∀ (cores : List Nat) (counters : List Counter),
      cores.foldl (fun counters (corenum : Nat) =>
          build_block_vectors names_lut .MALI_NAME_BLOCK_SHADER ("SC:".toList ++ toChars corenum)
            corenum counters) counters =
        counters ++ cores.flatMap fun corenum : Nat =>
          ownCounters names_lut .MALI_NAME_BLOCK_SHADER ("SC:".toList ++ toChars corenum)
            corenum := by
    intro cores
    induction cores with
    | nil => exact fun counters => (List.append_nil _).symm
    | cons corenum cores ih =>
      intro counters
      rw [List.foldl_cons, ih, hown, List.flatMap_cons, List.append_assoc]
  dsimp only
  rw [hshader, hown, hown, hown, collectorBlocks, List.flatMap_append, List.flatMap_map]
  simp only [List.flatMap_cons, List.flatMap_nil, List.append_assoc, List.nil_append]

end LibCollector.Mali
