import LibCollector.Mali.HwcNames
import LibCollector.Misc.Bits
import LibCollector.Misc.Loop

/-!
# The Mali hardware counter reader

`get_mali_hw_info` and the initialisation of `MaliHWCReader` of `src/collectors/hwcpipe.cpp`. What
the device answers to the requests that are sent to it is given; the cores of the GPU are numbered
with holes, and the reader maps the numbers without holes to them.
-/

namespace LibCollector.Mali

open LibCollector.Misc

/-! ## What the GPU is -/

/-- `kbase_uk_gpuprops`, of the groups their core masks. -/
structure GpuProps where
  product_id : BitVec 32
  minor_revision : BitVec 16
  major_revision : BitVec 16
  num_core_groups : BitVec 32
  group : Vector (BitVec 64) 16
  deriving DecidableEq

structure MaliHWInfo where
  valid : Bool
  mp_count : BitVec 32
  gpu_id : BitVec 32
  r_value : BitVec 32
  p_value : BitVec 32
  core_mask : BitVec 32
  deriving DecidableEq

/-- What the device answers to `get_mali_hw_info`. -/
structure InfoAnswers where
  opened : Bool
  checkVersion : Bool
  setFlags : Bool
  regDump : Option GpuProps

/-- `core_mask` after some iterations of the loop over the groups. A group outside of the array is
    undefined. -/
def coreMaskLoop (props : GpuProps) (core_mask : BitVec 32) : Nat → Option (BitVec 32)
  | 0 => some core_mask
  | i + 1 => do
    let mask ← coreMaskLoop props core_mask i
    let group ← props.group[i]?
    some ((mask.setWidth 64 ||| group).setWidth 32)

def get_mali_hw_info (dev : InfoAnswers) (hw_info : MaliHWInfo) : Option (Bool × MaliHWInfo) :=
  let hw_info := { hw_info with valid := false }
  if !dev.opened || !dev.checkVersion || !dev.setFlags then some (false, hw_info)
  else match dev.regDump with
    | none => some (false, hw_info)
    | some props =>
      (coreMaskLoop props hw_info.core_mask props.num_core_groups.toNat).map fun core_mask =>
        (true, {
          valid := true
          mp_count := (core_mask.setWidth 64).cpop.setWidth 32
          gpu_id := props.product_id
          r_value := props.major_revision.setWidth 32
          p_value := props.minor_revision.setWidth 32
          core_mask := core_mask })

/-! ## The reader -/

/-- The loop over the products, with `found` and `names_lut`. -/
def findProduct (gpu_id : BitVec 32) (names_lut : Option HardwareCounters) :
    Bool × Option HardwareCounters :=
  products.foldl
    (fun r product =>
      if product.product_mask &&& gpu_id = product.product_id then (true, some product.names_lut)
      else r)
    (false, names_lut)

/-- The pointer to the samples. -/
inductive SampleData where
  | null | failed | mapped
  deriving DecidableEq

structure MaliHWCReader where
  hw : MaliHWInfo
  fd : Int := -1
  hwc_fd : Int := -1
  buffer_size : BitVec 32 := 0
  buffer_count : BitVec 32 := 0
  hw_ver : BitVec 32 := 0
  sample_data : SampleData := .null
  counter_buffer : List (BitVec 32) := []
  names_lut : Option HardwareCounters := none
  alive : Bool := false
  core_index_remap : List Nat := []
  deriving DecidableEq

/-- What the device answers to `MaliHWCReader::init`. -/
structure ReaderAnswers where
  fd : Int
  major : Option (BitVec 16)
  setFlags : Bool
  hwc_fd : Option Int
  api_version : Option (BitVec 32)
  buffer_size : Option (BitVec 32)
  hw_ver : Option (BitVec 32)
  sample_data : SampleData
  setInterval : Bool

namespace MaliHWCReader

def get_num_cores (r : MaliHWCReader) : BitVec 32 := r.hw.mp_count

/-- `remap_core_index`, undefined outside of the table. -/
def remap_core_index (r : MaliHWCReader) (index : Nat) : Option Nat := r.core_index_remap[index]?

def term (r : MaliHWCReader) : MaliHWCReader :=
  { r with sample_data := .null, hwc_fd := -1, fd := -1 }

/-- `vector::resize`. -/
def resize (buffer : List (BitVec 32)) (size : Nat) : List (BitVec 32) :=
  buffer.take size ++ List.replicate (size - buffer.length) 0

/-- `MaliHWCReader::init` before the table of the cores. -/
def setUp (dev : ReaderAnswers) (buffer_count : BitVec 32) (r : MaliHWCReader) :
    Bool × MaliHWCReader :=
  let r := { r.term with buffer_count := buffer_count, fd := dev.fd }
  if dev.fd < 0 then (false, r)
  else match dev.major with
  | none => (false, r)
  | some major =>
  if major < 10 then (false, r)
  else if !dev.setFlags then (false, r)
  else match dev.hwc_fd with
  | none => (false, r)
  | some hwc_fd =>
  let r := { r with hwc_fd := hwc_fd }
  if dev.api_version ≠ some 1 then (false, r)
  else match dev.buffer_size with
  | none => (false, r)
  | some buffer_size =>
  let r := { r with buffer_size := buffer_size }
  match dev.hw_ver with
  | none => (false, r)
  | some hw_ver =>
  let r := { r with hw_ver := hw_ver, sample_data := dev.sample_data }
  if dev.sample_data ≠ .mapped then (false, r)
  else if !dev.setInterval then (false, r)
  else
  let product := findProduct r.hw.gpu_id r.names_lut
  let r := { r with names_lut := product.2 }
  if !product.1 then (false, r)
  else (true, { r with
    alive := true
    counter_buffer := resize r.counter_buffer (r.buffer_size.toNat / 4) })

/-- A turn of the loop over `mask`, with `core_index_remap`. -/
def remapTurn : BitVec 32 × List Nat → Turn (BitVec 32 × List Nat) (List Nat)
  | (mask, remap) =>
    if mask ≠ 0 then
      let bit := mask.ctz.toNat
      .again (mask &&& ~~~(1#32 <<< bit), remap ++ [bit])
    else .done remap

/-- `MaliHWCReader::init` returns, and leaves the reader in a state. -/
def InitReturns (dev : ReaderAnswers) (buffer_count : BitVec 32) (r : MaliHWCReader)
    (result : Bool × MaliHWCReader) : Prop :=
  match setUp dev buffer_count r with
  | (false, r') => result = (false, r')
  | (true, r') => ∃ remap, Returns remapTurn (r'.hw.core_mask, []) remap ∧
      result = (true, { r' with core_index_remap := remap })

/-- The attempts of the constructor, from one on. -/
inductive Attempts (devs : Nat → ReaderAnswers) : Nat → MaliHWCReader → MaliHWCReader → Prop
  | finished {i : Nat} {r : MaliHWCReader} : ¬ (i < 1024 ∧ r.alive = false) → Attempts devs i r r
  | attempt {i : Nat} {r r' r'' : MaliHWCReader} {success : Bool} : i < 1024 → r.alive = false →
      InitReturns (devs i) (BitVec.ofNat 32 i) r (success, r') → Attempts devs (i + 1) r' r'' →
      Attempts devs i r r''

/-- `MaliHWCReader::MaliHWCReader`, which leaves a reader behind. -/
def Constructed (devs : Nat → ReaderAnswers) (hw_info : MaliHWInfo) (r : MaliHWCReader) : Prop :=
  if hw_info.valid then Attempts devs 1 { hw := hw_info } r else r = { hw := hw_info }

end MaliHWCReader

/-! ## The core mask -/

/-- What the first groups have together. -/
def groupUnion (props : GpuProps) (count : Nat) : BitVec 64 :=
  (props.group.toList.take count).foldl (· ||| ·) 0#64

theorem groupUnion_succ {props : GpuProps} {i : Nat} {group : BitVec 64}
    (h : props.group[i]? = some group) :
    groupUnion props (i + 1) = groupUnion props i ||| group := by
  rw [← Vector.getElem?_toList] at h
  rw [groupUnion, List.take_add_one, h, Option.toList_some, List.foldl_append, groupUnion]
  rfl

/-- The groups are added to what was in the mask. -/
theorem coreMaskLoop_eq (props : GpuProps) (core_mask : BitVec 32) {count : Nat} (h : count ≤ 16) :
    coreMaskLoop props core_mask count =
      some (core_mask ||| (groupUnion props count).setWidth 32) := by
  induction count with
  | zero => simp [coreMaskLoop, groupUnion]
  | succ i ih =>
    obtain ⟨group, hgroup⟩ : ∃ group, props.group[i]? = some group :=
      ⟨_, Vector.getElem?_eq_getElem (by omega)⟩
    rw [coreMaskLoop, ih (by omega), hgroup, groupUnion_succ hgroup]
    simp only [Option.bind_eq_bind, Option.bind_some, BitVec.setWidth_or, Option.some.injEq]
    rw [BitVec.setWidth_setWidth_of_le _ (by omega), BitVec.setWidth_setWidth_of_le _ (by omega),
      BitVec.setWidth_eq, BitVec.setWidth_eq, BitVec.or_assoc]

/-- `core_mask` of the groups that the GPU has. -/
def groupMask (props : GpuProps) : BitVec 32 :=
  (groupUnion props props.num_core_groups.toNat).setWidth 32

theorem get_mali_hw_info_eq {dev : InfoAnswers} {props : GpuProps} {prior info : MaliHWInfo}
    (hprops : dev.regDump = some props) (hgroups : props.num_core_groups.toNat ≤ 16)
    (hinfo : get_mali_hw_info dev prior = some (true, info)) :
    info.core_mask = prior.core_mask ||| groupMask props ∧
      info.mp_count.toNat = (setBits info.core_mask).length := by
  unfold get_mali_hw_info at hinfo
  dsimp only at hinfo
  split_ifs at hinfo
  · cases hinfo
  · rw [hprops] at hinfo
    dsimp only at hinfo
    rw [coreMaskLoop_eq props _ hgroups, Option.map_some] at hinfo
    cases hinfo
    refine ⟨rfl, ?_⟩
    -- There are at most 64 bits, so the count fits.
    dsimp only
    rw [BitVec.toNat_setWidth, ← length_setBits, setBits_setWidth (by omega), length_setBits]
    refine Nat.mod_eq_of_lt (Nat.lt_of_le_of_lt (BitVec.toNat_cpop_le _) (by decide))

/-! ## The table of the cores -/

namespace MaliHWCReader

variable {dev : ReaderAnswers} {buffer_count : BitVec 32} {r r' : MaliHWCReader}

theorem setUp_hw : (setUp dev buffer_count r).2.hw = r.hw := by
  unfold setUp
  dsimp only
  repeat' split
  all_goals rfl

/-- Only the call that succeeds makes the reader alive. -/
theorem setUp_alive :
    (setUp dev buffer_count r).2.alive = ((setUp dev buffer_count r).1 || r.alive) := by
  unfold setUp
  dsimp only
  repeat' split
  all_goals rfl

/-- The loop leaves the set bits of the mask behind. -/
theorem remap_returns (mask : BitVec 32) (remap : List Nat) :
    ∃ result, Returns remapTurn (mask, remap) result ∧ result = remap ++ setBits mask := by
  refine exists_returns (I := fun s => s.2 ++ setBits s.1 = remap ++ setBits mask)
    (fun s => (setBits s.1).length) ?_ ?_ rfl
  · rintro ⟨m, done⟩ t hinv hagain
    rw [remapTurn] at hagain
    split_ifs at hagain with hm
    cases hagain
    rw [setBits_eq_cons hm] at hinv
    refine ⟨?_, ?_⟩
    · rw [← hinv, List.append_assoc]
      rfl
    · rw [setBits_eq_cons hm]
      exact Nat.lt_succ_self _
  · rintro ⟨m, done⟩ result hinv hdone
    rw [remapTurn] at hdone
    split_ifs at hdone with hm
    cases hdone
    rw [not_not] at hm
    rw [← hinv, hm]
    exact (List.append_nil _).symm.trans (congrArg _ setBits_zero.symm)

/-- A call returns, and one that succeeds has the cores of the mask in the table. -/
theorem exists_initReturns : ∃ result, InitReturns dev buffer_count r result := by
  unfold InitReturns
  split
  · exact ⟨_, rfl⟩
  · rename_i r' _
    obtain ⟨remap, hreturns, _⟩ := remap_returns r'.hw.core_mask []
    exact ⟨_, remap, hreturns, rfl⟩

theorem InitReturns.eq (h : InitReturns dev buffer_count r (true, r')) :
    r'.hw = r.hw ∧ r'.core_index_remap = setBits r.hw.core_mask := by
  have hhw := @setUp_hw dev buffer_count r
  unfold InitReturns at h
  split at h
  · cases h
  · rename_i r₁ hset
    obtain ⟨remap, hreturns, heq⟩ := h
    obtain ⟨result, hreturns', hresult⟩ := remap_returns r₁.hw.core_mask []
    cases heq
    rw [hset] at hhw
    dsimp only at hhw ⊢
    refine ⟨hhw, ?_⟩
    rw [hreturns.unique hreturns', hresult, List.nil_append, hhw]

/-- The table has the cores of a mask, in order and without holes, and as many as a count says. -/
structure CoreTable (core_mask mp_count : BitVec 32) (r : MaliHWCReader) : Prop where
  increasing : r.core_index_remap.Pairwise (· < ·)
  mem_iff : ∀ core, core ∈ r.core_index_remap ↔ core_mask.getLsbD core = true
  length_eq : r.core_index_remap.length = mp_count.toNat
  inRange : ∀ core < r.get_num_cores.toNat, (r.remap_core_index core).isSome

theorem InitReturns.coreTable (h : InitReturns dev buffer_count r (true, r'))
    (hcount : r.hw.mp_count.toNat = (setBits r.hw.core_mask).length) :
    CoreTable r.hw.core_mask r.hw.mp_count r' := by
  obtain ⟨hhw, htable⟩ := h.eq
  constructor
  · rw [htable]
    exact pairwise_setBits _
  · intro core
    rw [htable]
    exact mem_setBits
  · rw [htable, hcount]
  · intro core hcore
    rw [get_num_cores, hhw, hcount] at hcore
    rw [remap_core_index, htable, List.getElem?_eq_getElem hcore]
    rfl

theorem InitReturns.alive {success : Bool} (h : InitReturns dev buffer_count r (success, r')) :
    r'.hw = r.hw ∧ r'.alive = (success || r.alive) := by
  have hhw := @setUp_hw dev buffer_count r
  have halive := @setUp_alive dev buffer_count r
  unfold InitReturns at h
  split at h
  all_goals
    rename_i r₁ hset
    rw [hset] at hhw halive
  · cases h
    exact ⟨hhw, halive⟩
  · obtain ⟨_, _, h⟩ := h
    cases h
    exact ⟨hhw, halive⟩

variable {devs : Nat → ReaderAnswers} {hw_info : MaliHWInfo}

theorem exists_attempts (i : Nat) (r : MaliHWCReader) : ∃ r', Attempts devs i r r' := by
  by_cases h : i < 1024 ∧ r.alive = false
  · obtain ⟨⟨success, r'⟩, hinit⟩ := @exists_initReturns (devs i) (BitVec.ofNat 32 i) r
    obtain ⟨r'', hrest⟩ := exists_attempts (i + 1) r'
    exact ⟨r'', .attempt h.1 h.2 hinit hrest⟩
  · exact ⟨r, .finished h⟩
termination_by 1024 - i

/-- An attempt that succeeded was the last one. -/
theorem Attempts.coreTable {i : Nat} (h : Attempts devs i r r') (hdead : r.alive = false)
    (halive : r'.alive = true) (hcount : r.hw.mp_count.toNat = (setBits r.hw.core_mask).length) :
    CoreTable r.hw.core_mask r.hw.mp_count r' := by
  induction h with
  | finished _ =>
    rw [hdead] at halive
    cases halive
  | @attempt i r r₁ r₂ success _ _ hinit hrest ih =>
    obtain ⟨hhw, hsuccess⟩ := hinit.alive
    cases success with
    | false =>
      rw [← hhw] at hcount ⊢
      exact ih (hsuccess.trans hdead) halive hcount
    | true =>
      cases hrest with
      | finished _ => exact hinit.coreTable hcount
      | attempt _ hdead' _ _ =>
        rw [hsuccess] at hdead'
        cases hdead'

/-- A constructor call returns, and a reader that is alive then has the table of the cores. -/
theorem exists_constructed : ∃ r, Constructed devs hw_info r := by
  unfold Constructed
  split
  · exact exists_attempts 1 _
  · exact ⟨_, rfl⟩

theorem Constructed.coreTable (h : Constructed devs hw_info r) (halive : r.alive = true)
    (hcount : hw_info.mp_count.toNat = (setBits hw_info.core_mask).length) :
    CoreTable hw_info.core_mask hw_info.mp_count r := by
  unfold Constructed at h
  split at h
  · exact h.coreTable rfl halive hcount
  · subst h
    cases halive

end MaliHWCReader

/-! ## The cores of the collector -/

/-- `get_mali_hw_info` leaves the mask of the groups and its count behind, whatever the information
    was before, and a reader that is initialised with them has the table of the cores. -/
def CoresRemapped (props : GpuProps) (prior : MaliHWInfo) : Prop :=
  ∀ dev info, dev.regDump = some props → get_mali_hw_info dev prior = some (true, info) →
    info.core_mask = groupMask props ∧ info.mp_count.toNat = (setBits info.core_mask).length ∧
      ∀ answers buffer_count (r : MaliHWCReader), r.hw = info →
        (∃ result, r.InitReturns answers buffer_count result) ∧
          ∀ r', r.InitReturns answers buffer_count (true, r') →
            r'.CoreTable info.core_mask info.mp_count

theorem or_eq_right_iff {w : Nat} {x y : BitVec w} :
    x ||| y = y ↔ ∀ i, x.getLsbD i = true → y.getLsbD i = true := by
  constructor
  · intro h i hi
    rw [← h, BitVec.getLsbD_or, hi, Bool.true_or]
  · intro h
    apply BitVec.eq_of_getLsbD_eq
    intro i _
    rw [BitVec.getLsbD_or]
    cases hi : x.getLsbD i with
    | false => exact Bool.false_or _
    | true => rw [h i hi, Bool.or_true]

/-- The old mask must not have cores that the GPU has not. -/
theorem coresRemapped_iff {props : GpuProps} (hgroups : props.num_core_groups.toNat ≤ 16)
    (prior : MaliHWInfo) :
    CoresRemapped props prior ↔
      ∀ i, prior.core_mask.getLsbD i = true → (groupMask props).getLsbD i = true := by
  rw [← or_eq_right_iff]
  constructor
  · intro h
    have hloop := coreMaskLoop_eq props prior.core_mask hgroups
    obtain ⟨info, hinfo⟩ : ∃ info, get_mali_hw_info ⟨true, true, true, some props⟩ prior =
        some (true, info) := by
      rw [get_mali_hw_info]
      dsimp only
      rw [hloop]
      exact ⟨_, rfl⟩
    obtain ⟨hmask, _⟩ := h _ info rfl hinfo
    rw [← (get_mali_hw_info_eq rfl hgroups hinfo).1, hmask]
  · intro h dev info hprops hinfo
    obtain ⟨hmask, hcount⟩ := get_mali_hw_info_eq hprops hgroups hinfo
    refine ⟨hmask.trans h, hcount, fun answers buffer_count r hr => ?_⟩
    subst hr
    exact ⟨MaliHWCReader.exists_initReturns, fun r' hinit => hinit.coreTable hcount⟩

/-- Two groups of a GPU, and an information that has been set to zero. -/
theorem twoGroups_coresRemapped :
    CoresRemapped ⟨0x6956, 0, 1, 2, (Vector.replicate 16 0).set 0 0x03 |>.set 1 0x30⟩
      ⟨false, 0, 0, 0, 0, 0⟩ :=
  (coresRemapped_iff (by decide) _).mpr fun _ hi => absurd hi (by simp)

/-- A core that was in the mask before stays there. -/
theorem not_coresRemapped :
    ¬ CoresRemapped ⟨0x6956, 0, 1, 1, (Vector.replicate 16 0).set 0 0x0f⟩
      ⟨false, 0, 0, 0, 0, 0x100⟩ := by
  intro h
  have hmask := (h ⟨true, true, true, some _⟩ ⟨true, 5, 0x6956, 1, 0, 0x10f⟩ rfl (by decide)).1
  exact absurd hmask (by decide)

end LibCollector.Mali
