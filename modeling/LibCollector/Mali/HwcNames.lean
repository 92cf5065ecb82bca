import LibCollector.Misc.Text
import Mathlib.Data.Fin.Tuple.Basic
import Mathlib.Data.List.Infix

/-!
# Names of the Mali counters

The blocks, the products and the names of `src/collectors/hwc_names.hpp`, of which the table of the
first product is written out. A counter has the place of its name in the block, and a name that is
empty is a hole.
-/

namespace LibCollector.Mali

open LibCollector.Misc

inductive MaliCounterBlockName where
  | MALI_NAME_BLOCK_JM | MALI_NAME_BLOCK_TILER | MALI_NAME_BLOCK_SHADER | MALI_NAME_BLOCK_MMU
  deriving DecidableEq

/-- The values of the enumeration. -/
def MaliCounterBlockName.toFin : MaliCounterBlockName → Fin 4
  | MALI_NAME_BLOCK_JM => 0
  | MALI_NAME_BLOCK_TILER => 1
  | MALI_NAME_BLOCK_SHADER => 2
  | MALI_NAME_BLOCK_MMU => 3

/-- The names of four blocks of 64 counters. -/
abbrev NamesLut := Vector String 256

/-- `MaliHWCReader::get_counter_name`. -/
def get_counter_name (names_lut : NamesLut) (block : MaliCounterBlockName) (index : Fin 64) : Str :=
  (names_lut.get ⟨64 * block.toFin + index, by omega⟩).toList

/-- `strstr(s, name) != NULL`. -/
def strstr (s name : Str) : Bool := name <:+: s

/-- `int(i)` of the index at which a loop returns, and -1 after the loop. -/
def intIndex : Option (Fin 64) → Int
  | some i => (i : Nat)
  | none => -1

/-- `MaliHWCReader::find_counter_index_by_name`. -/
def find_counter_index_by_name (names_lut : NamesLut) (block : MaliCounterBlockName) (name : Str) :
    Int :=
  intIndex (Fin.find? fun i => strstr (get_counter_name names_lut block i) name)

/-! ## The products -/

/-- The arrays of counter names. -/
inductive HardwareCounters where
  | t60x | t62x | t72x | t76x | t82x | t83x | t86x | t88x | tMIx | tHEx | tSIx
  deriving DecidableEq

structure CounterMapping where
  product_mask : BitVec 32
  product_id : BitVec 32
  names_lut : HardwareCounters

def products : List CounterMapping :=
  [⟨0xffff, 0x6956, .t60x⟩, ⟨0xffff, 0x0620, .t62x⟩, ⟨0xffff, 0x0720, .t72x⟩,
    ⟨0xffff, 0x0750, .t76x⟩, ⟨0xffff, 0x0820, .t82x⟩, ⟨0xffff, 0x0830, .t83x⟩,
    ⟨0xffff, 0x0860, .t86x⟩, ⟨0xffff, 0x0880, .t88x⟩, ⟨0xf00f, 0x6000, .tMIx⟩,
    ⟨0xf00f, 0x6001, .tHEx⟩, ⟨0xf00f, 0x7000, .tSIx⟩]

set_option maxRecDepth 4096 in
def hardware_counters_mali_t60x : NamesLut :=
  #v[
    -- Job Manager
    "", "", "", "", "T60x_MESSAGES_SENT", "T60x_MESSAGES_RECEIVED", "T60x_GPU_ACTIVE",
    "T60x_IRQ_ACTIVE", "T60x_JS0_JOBS", "T60x_JS0_TASKS", "T60x_JS0_ACTIVE", "",
    "T60x_JS0_WAIT_READ", "T60x_JS0_WAIT_ISSUE", "T60x_JS0_WAIT_DEPEND", "T60x_JS0_WAIT_FINISH",
    "T60x_JS1_JOBS", "T60x_JS1_TASKS", "T60x_JS1_ACTIVE", "", "T60x_JS1_WAIT_READ",
    "T60x_JS1_WAIT_ISSUE", "T60x_JS1_WAIT_DEPEND", "T60x_JS1_WAIT_FINISH", "T60x_JS2_JOBS",
    "T60x_JS2_TASKS", "T60x_JS2_ACTIVE", "", "T60x_JS2_WAIT_READ", "T60x_JS2_WAIT_ISSUE",
    "T60x_JS2_WAIT_DEPEND", "T60x_JS2_WAIT_FINISH", "", "", "", "", "", "", "", "", "", "", "",
    "", "", "", "", "", "", "", "", "", "", "", "", "", "", "", "", "", "", "", "", "",
    -- Tiler
    "", "", "", "T60x_TI_JOBS_PROCESSED", "T60x_TI_TRIANGLES", "T60x_TI_QUADS",
    "T60x_TI_POLYGONS", "T60x_TI_POINTS", "T60x_TI_LINES", "T60x_TI_VCACHE_HIT",
    "T60x_TI_VCACHE_MISS", "T60x_TI_FRONT_FACING", "T60x_TI_BACK_FACING", "T60x_TI_PRIM_VISIBLE",
    "T60x_TI_PRIM_CULLED", "T60x_TI_PRIM_CLIPPED", "T60x_TI_LEVEL0", "T60x_TI_LEVEL1",
    "T60x_TI_LEVEL2", "T60x_TI_LEVEL3", "T60x_TI_LEVEL4", "T60x_TI_LEVEL5", "T60x_TI_LEVEL6",
    "T60x_TI_LEVEL7", "T60x_TI_COMMAND_1", "T60x_TI_COMMAND_2", "T60x_TI_COMMAND_3",
    "T60x_TI_COMMAND_4", "T60x_TI_COMMAND_4_7", "T60x_TI_COMMAND_8_15", "T60x_TI_COMMAND_16_63",
    "T60x_TI_COMMAND_64", "T60x_TI_COMPRESS_IN", "T60x_TI_COMPRESS_OUT", "T60x_TI_COMPRESS_FLUSH",
    "T60x_TI_TIMESTAMPS", "T60x_TI_PCACHE_HIT", "T60x_TI_PCACHE_MISS", "T60x_TI_PCACHE_LINE",
    "T60x_TI_PCACHE_STALL", "T60x_TI_WRBUF_HIT", "T60x_TI_WRBUF_MISS", "T60x_TI_WRBUF_LINE",
    "T60x_TI_WRBUF_PARTIAL", "T60x_TI_WRBUF_STALL", "T60x_TI_ACTIVE", "T60x_TI_LOADING_DESC",
    "T60x_TI_INDEX_WAIT", "T60x_TI_INDEX_RANGE_WAIT", "T60x_TI_VERTEX_WAIT",
    "T60x_TI_PCACHE_WAIT", "T60x_TI_WRBUF_WAIT", "T60x_TI_BUS_READ", "T60x_TI_BUS_WRITE", "", "",
    "", "", "", "T60x_TI_UTLB_STALL", "T60x_TI_UTLB_REPLAY_MISS", "T60x_TI_UTLB_REPLAY_FULL",
    "T60x_TI_UTLB_NEW_MISS", "T60x_TI_UTLB_HIT",
    -- Shader Core
    "", "", "", "", "T60x_FRAG_ACTIVE", "T60x_FRAG_PRIMITIVES", "T60x_FRAG_PRIMITIVES_DROPPED",
    "T60x_FRAG_CYCLES_DESC", "T60x_FRAG_CYCLES_PLR", "T60x_FRAG_CYCLES_VERT",
    "T60x_FRAG_CYCLES_TRISETUP", "T60x_FRAG_CYCLES_RAST", "T60x_FRAG_THREADS",
    "T60x_FRAG_DUMMY_THREADS", "T60x_FRAG_QUADS_RAST", "T60x_FRAG_QUADS_EZS_TEST",
    "T60x_FRAG_QUADS_EZS_KILLED", "T60x_FRAG_THREADS_LZS_TEST", "T60x_FRAG_THREADS_LZS_KILLED",
    "T60x_FRAG_CYCLES_NO_TILE", "T60x_FRAG_NUM_TILES", "T60x_FRAG_TRANS_ELIM",
    "T60x_COMPUTE_ACTIVE", "T60x_COMPUTE_TASKS", "T60x_COMPUTE_THREADS",
    "T60x_COMPUTE_CYCLES_DESC", "T60x_TRIPIPE_ACTIVE", "T60x_ARITH_WORDS",
    "T60x_ARITH_CYCLES_REG", "T60x_ARITH_CYCLES_L0", "T60x_ARITH_FRAG_DEPEND", "T60x_LS_WORDS",
    "T60x_LS_ISSUES", "T60x_LS_RESTARTS", "T60x_LS_REISSUES_MISS", "T60x_LS_REISSUES_VD",
    "T60x_LS_REISSUE_ATTRIB_MISS", "T60x_LS_NO_WB", "T60x_TEX_WORDS", "T60x_TEX_BUBBLES",
    "T60x_TEX_WORDS_L0", "T60x_TEX_WORDS_DESC", "T60x_TEX_ISSUES", "T60x_TEX_RECIRC_FMISS",
    "T60x_TEX_RECIRC_DESC", "T60x_TEX_RECIRC_MULTI", "T60x_TEX_RECIRC_PMISS",
    "T60x_TEX_RECIRC_CONF", "T60x_LSC_READ_HITS", "T60x_LSC_READ_MISSES", "T60x_LSC_WRITE_HITS",
    "T60x_LSC_WRITE_MISSES", "T60x_LSC_ATOMIC_HITS", "T60x_LSC_ATOMIC_MISSES",
    "T60x_LSC_LINE_FETCHES", "T60x_LSC_DIRTY_LINE", "T60x_LSC_SNOOPS", "T60x_AXI_TLB_STALL",
    "T60x_AXI_TLB_MISS", "T60x_AXI_TLB_TRANSACTION", "T60x_LS_TLB_MISS", "T60x_LS_TLB_HIT",
    "T60x_AXI_BEATS_READ", "T60x_AXI_BEATS_WRITTEN",
    -- L2 and MMU
    "", "", "", "", "T60x_MMU_HIT", "T60x_MMU_NEW_MISS", "T60x_MMU_REPLAY_FULL",
    "T60x_MMU_REPLAY_MISS", "T60x_MMU_TABLE_WALK", "", "", "", "", "", "", "", "T60x_UTLB_HIT",
    "T60x_UTLB_NEW_MISS", "T60x_UTLB_REPLAY_FULL", "T60x_UTLB_REPLAY_MISS", "T60x_UTLB_STALL", "",
    "", "", "", "", "", "", "", "", "T60x_L2_EXT_WRITE_BEATS", "T60x_L2_EXT_READ_BEATS",
    "T60x_L2_ANY_LOOKUP", "T60x_L2_READ_LOOKUP", "T60x_L2_SREAD_LOOKUP", "T60x_L2_READ_REPLAY",
    "T60x_L2_READ_SNOOP", "T60x_L2_READ_HIT", "T60x_L2_CLEAN_MISS", "T60x_L2_WRITE_LOOKUP",
    "T60x_L2_SWRITE_LOOKUP", "T60x_L2_WRITE_REPLAY", "T60x_L2_WRITE_SNOOP", "T60x_L2_WRITE_HIT",
    "T60x_L2_EXT_READ_FULL", "T60x_L2_EXT_READ_HALF", "T60x_L2_EXT_WRITE_FULL",
    "T60x_L2_EXT_WRITE_HALF", "T60x_L2_EXT_READ", "T60x_L2_EXT_READ_LINE", "T60x_L2_EXT_WRITE",
    "T60x_L2_EXT_WRITE_LINE", "T60x_L2_EXT_WRITE_SMALL", "T60x_L2_EXT_BARRIER",
    "T60x_L2_EXT_AR_STALL", "T60x_L2_EXT_R_BUF_FULL", "T60x_L2_EXT_RD_BUF_FULL",
    "T60x_L2_EXT_R_RAW", "T60x_L2_EXT_W_STALL", "T60x_L2_EXT_W_BUF_FULL",
    "T60x_L2_EXT_R_W_HAZARD", "T60x_L2_TAG_HAZARD", "T60x_L2_SNOOP_FULL", "T60x_L2_REPLAY_FULL"]

/-! ## Finding a name -/

theorem intIndex_eq_iff {found : Option (Fin 64)} {p : Fin 64} :
    intIndex found = (p : Nat) ↔ found = some p := by
  cases found with
  | none => exact iff_of_false (by rw [intIndex]; omega) (by simp)
  | some i => rw [intIndex, Option.some.injEq, Fin.ext_iff, Int.natCast_inj]

/-- A name is found at its own place if and only if no name before it has it in itself. -/
theorem find_counter_index_by_name_eq_iff (names_lut : NamesLut) (block : MaliCounterBlockName)
    (p : Fin 64) :
    find_counter_index_by_name names_lut block (get_counter_name names_lut block p) = (p : Nat) ↔
      ∀ q < p, ¬ get_counter_name names_lut block p <:+: get_counter_name names_lut block q := by
  have hself : strstr (get_counter_name names_lut block p) (get_counter_name names_lut block p) :=
    decide_eq_true (List.infix_refl _)
  rw [find_counter_index_by_name, intIndex_eq_iff, Fin.find?_eq_some_iff, and_iff_right hself]
  exact forall₂_congr fun q _ => decide_eq_false_iff_not

end LibCollector.Mali
