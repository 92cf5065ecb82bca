import LibCollector.Mali.HwcPipe
import LibCollector.Misc.FdTable

/-!
# What the Mali reader holds

The constructor of `MaliHWCReader` of `src/collectors/hwcpipe.cpp` sets the reader up again and
again. The descriptors and mappings that the attempts obtain, and what `term` and the destructor
give back of them: at any time the reader holds what its last attempt has obtained, and nothing is
left of it after the destructor (`constructed_balanced`).
-/

namespace LibCollector.Mali

open LibCollector.Misc LibCollector.Misc.FdTable

/-! ## The calls -/

/-- The descriptors of the process, the lengths of the mappings of a reader, and how often `mmap`
    has failed and `munmap` was called without a mapping of that length. -/
structure Resources where
  table : FdTable := {}
  mapped : List (BitVec 32) := []
  failedMaps : Nat := 0
  strayUnmaps : Nat := 0
  deriving DecidableEq

namespace Resources

/-- `open`, or a request that returns a descriptor. -/
def give (fd : Int) (k : Resources) : Option Resources :=
  if k.table.Free fd then some { k with table := k.table.give fd } else none

/-- `if (fd >= 0) close(fd);`. -/
def closeIf (fd : Int) (k : Resources) : Resources :=
  if 0 ≤ fd then { k with table := k.table.close fd } else k

/-- `mmap`, by its answer. -/
def map (answer : SampleData) (length : BitVec 32) (k : Resources) : Resources :=
  match answer with
  | .null => k
  | .failed => { k with failedMaps := k.failedMaps + 1 }
  | .mapped => { k with mapped := length :: k.mapped }

/-- `if (sample_data) munmap(sample_data, length);`, where `MAP_FAILED` is not null. -/
def unmapIf (sample_data : SampleData) (length : BitVec 32) (k : Resources) : Resources :=
  match sample_data with
  | .null => k
  | .failed => { k with strayUnmaps := k.strayUnmaps + 1 }
  | .mapped =>
    if length ∈ k.mapped then { k with mapped := k.mapped.erase length }
    else { k with strayUnmaps := k.strayUnmaps + 1 }

end Resources

/-- A reader in a process. -/
structure ReaderSession where
  reader : MaliHWCReader
  kernel : Resources

namespace ReaderSession

/-- The length of the mapping, which is a `uint32_t`. -/
def mapLength (r : MaliHWCReader) : BitVec 32 := r.buffer_count * r.buffer_size

/-- `MaliHWCReader::term`. -/
def term (s : ReaderSession) : ReaderSession where
  reader := s.reader.term
  kernel := ((s.kernel.unmapIf s.reader.sample_data (mapLength s.reader)).closeIf
    s.reader.hwc_fd).closeIf s.reader.fd

/-- `MaliHWCReader::init` before the table of the cores. A descriptor that is open already is not
    given out. -/
def setUp (dev : ReaderAnswers) (buffer_count : BitVec 32) (s : ReaderSession) :
    Option (Bool × ReaderSession) :=
  let k := s.term.kernel
  let r := { s.reader.term with buffer_count := buffer_count, fd := dev.fd }
  if dev.fd < 0 then some (false, ⟨r, k⟩)
  else (k.give dev.fd).bind fun k =>
  match dev.major with
  | none => some (false, ⟨r, k⟩)
  | some major =>
  if major < 10 then some (false, ⟨r, k⟩)
  else if !dev.setFlags then some (false, ⟨r, k⟩)
  else match dev.hwc_fd with
  | none => some (false, ⟨r, k⟩)
  | some hwc_fd =>
  (k.give hwc_fd).bind fun k =>
  let r := { r with hwc_fd := hwc_fd }
  if dev.api_version ≠ some 1 then some (false, ⟨r, k⟩)
  else match dev.buffer_size with
  | none => some (false, ⟨r, k⟩)
  | some buffer_size =>
  let r := { r with buffer_size := buffer_size }
  match dev.hw_ver with
  | none => some (false, ⟨r, k⟩)
  | some hw_ver =>
  let r := { r with hw_ver := hw_ver, sample_data := dev.sample_data }
  let k := k.map dev.sample_data (mapLength r)
  if dev.sample_data ≠ .mapped then some (false, ⟨r, k⟩)
  else if !dev.setInterval then some (false, ⟨r, k⟩)
  else
  let product := findProduct r.hw.gpu_id r.names_lut
  let r := { r with names_lut := product.2 }
  if !product.1 then some (false, ⟨r, k⟩)
  else some (true, ⟨{ r with
    alive := true
    counter_buffer := MaliHWCReader.resize r.counter_buffer (r.buffer_size.toNat / 4) }, k⟩)

/-- `MaliHWCReader::init` returns, and leaves the reader in a state. -/
def InitReturns (dev : ReaderAnswers) (buffer_count : BitVec 32) (s : ReaderSession)
    (result : Bool × ReaderSession) : Prop :=
  match s.setUp dev buffer_count with
  | none => False
  | some (false, s') => result = (false, s')
  | some (true, s') => ∃ remap,
      Returns MaliHWCReader.remapTurn (s'.reader.hw.core_mask, []) remap ∧
      result = (true, { s' with reader := { s'.reader with core_index_remap := remap } })

/-- The attempts of the constructor, from one on. -/
inductive Attempts (devs : Nat → ReaderAnswers) : Nat → ReaderSession → ReaderSession → Prop
  | finished {i : Nat} {s : ReaderSession} : ¬ (i < 1024 ∧ s.reader.alive = false) →
      Attempts devs i s s
  | attempt {i : Nat} {s s' s'' : ReaderSession} {success : Bool} : i < 1024 →
      s.reader.alive = false → s.InitReturns (devs i) (BitVec.ofNat 32 i) (success, s') →
      Attempts devs (i + 1) s' s'' → Attempts devs i s s''

/-- `MaliHWCReader::MaliHWCReader`, in a process. -/
def Constructed (devs : Nat → ReaderAnswers) (hw_info : MaliHWInfo) (k : Resources)
    (s : ReaderSession) : Prop :=
  if hw_info.valid then Attempts devs 1 ⟨{ hw := hw_info }, k⟩ s
  else s = ⟨{ hw := hw_info }, k⟩

/-- `MaliHWCReader::~MaliHWCReader`. -/
def destroyed (s : ReaderSession) : Resources := s.term.kernel

/-! ## What a reader holds -/

/-- The descriptors of a reader. -/
def descriptors (r : MaliHWCReader) : List Int :=
  (if 0 ≤ r.fd then [r.fd] else []) ++ if 0 ≤ r.hwc_fd then [r.hwc_fd] else []

/-- Nothing is left of a reader. -/
structure Released (k : Resources) (held : List Int) : Prop where
  table : k.table.Holds held
  mapped : k.mapped = []
  strays : k.strayUnmaps = k.failedMaps

/-- The reader has what is not of the others: its descriptors, and the mapping of its samples. -/
structure Owns (r : MaliHWCReader) (k : Resources) (held : List Int) : Prop where
  table : k.table.Holds (descriptors r ++ held)
  mapped : k.mapped = if r.sample_data = .mapped then [mapLength r] else []
  strays : k.failedMaps = k.strayUnmaps + if r.sample_data = .failed then 1 else 0

variable {s s' : ReaderSession} {r : MaliHWCReader} {k k' : Resources} {held : List Int}
  {fd : Int} {dev : ReaderAnswers} {buffer_count : BitVec 32} {success : Bool}

theorem descriptors_of_neg (hfd : r.fd < 0) (hhwc : r.hwc_fd < 0) : descriptors r = [] := by
  rw [descriptors, if_neg (not_le.mpr hfd), if_neg (not_le.mpr hhwc), List.append_nil]

theorem closeIf_released {rest : List Int} (hmapped : k.mapped = [])
    (hstrays : k.strayUnmaps = k.failedMaps)
    (htable : k.table.Holds ((if 0 ≤ fd then [fd] else []) ++ rest)) :
    Released (k.closeIf fd) rest := by
  unfold Resources.closeIf
  split_ifs at htable ⊢
  · exact ⟨htable.close, hmapped, hstrays⟩
  · exact ⟨htable, hmapped, hstrays⟩

/-- `term` gives back what the reader has. -/
theorem Owns.term (h : Owns s.reader s.kernel held) : Released s.term.kernel held := by
  obtain ⟨htable, hmapped, hstrays⟩ := h
  have hunmap : Released (s.kernel.unmapIf s.reader.sample_data (mapLength s.reader))
      (descriptors s.reader ++ held) := by
    cases hdata : s.reader.sample_data with
    | null =>
      simp only [hdata, reduceCtorEq, if_false, Nat.add_zero] at hmapped hstrays
      exact ⟨htable, hmapped, hstrays.symm⟩
    | failed =>
      simp only [hdata, reduceCtorEq, if_false, if_true] at hmapped hstrays
      exact ⟨htable, hmapped, hstrays.symm⟩
    | mapped =>
      simp only [hdata, reduceCtorEq, if_false, if_true, Nat.add_zero] at hmapped hstrays
      rw [Resources.unmapIf, hmapped, if_pos List.mem_cons_self, List.erase_cons_head]
      exact ⟨htable, rfl, hstrays.symm⟩
  obtain ⟨htable', hmapped', hstrays'⟩ := hunmap
  have hperm := htable'.of_perm (List.perm_append_comm.append_right held)
  rw [List.append_assoc] at hperm
  have hclosed := closeIf_released hmapped' hstrays' hperm
  exact closeIf_released hclosed.mapped hclosed.strays hclosed.table

theorem give_eq_some (h : k.give fd = some k') :
    k.table.Free fd ∧ k' = { k with table := k.table.give fd } := by
  unfold Resources.give at h
  split_ifs at h with hfree
  exact ⟨hfree, (Option.some.inj h).symm⟩

/-- A reader that has nothing. -/
theorem Released.owns (h : Released k held) (hfd : r.fd < 0) (hhwc : r.hwc_fd < 0)
    (hdata : r.sample_data = .null) : Owns r k held := by
  refine ⟨?_, ?_, ?_⟩
  · rw [descriptors_of_neg hfd hhwc]
    exact h.table
  · rw [hdata]
    exact h.mapped
  · rw [hdata]
    exact h.strays.symm

/-- A reader that has opened the device. -/
theorem Owns.opened (h : Owns r k held) (hgive : k.give fd = some k') (hfd : r.fd < 0) :
    Owns { r with fd := fd } k' held := by
  obtain ⟨hfree, rfl⟩ := give_eq_some hgive
  refine ⟨?_, h.mapped, h.strays⟩
  have hgiven := h.table.give hfree
  rw [descriptors, if_neg (not_le.mpr hfd), List.nil_append] at hgiven
  rw [descriptors, if_pos hfree.1]
  exact hgiven

/-- A reader that has the descriptor of the samples. -/
theorem Owns.reads (h : Owns r k held) (hgive : k.give fd = some k') (hhwc : r.hwc_fd < 0) :
    Owns { r with hwc_fd := fd } k' held := by
  obtain ⟨hfree, rfl⟩ := give_eq_some hgive
  refine ⟨?_, h.mapped, h.strays⟩
  have hgiven := h.table.give hfree
  rw [descriptors, if_neg (not_le.mpr hhwc), List.append_nil] at hgiven
  rw [descriptors, if_pos hfree.1, List.append_assoc]
  exact hgiven.of_perm List.perm_middle.symm

/-- A reader that has called `mmap`. -/
theorem Owns.maps (h : Owns r k held) (hdata : r.sample_data = .null) (answer : SampleData)
    (hw_ver : BitVec 32) :
    Owns { r with hw_ver := hw_ver, sample_data := answer } (k.map answer (mapLength r)) held := by
  obtain ⟨htable, hmapped, hstrays⟩ := h
  rw [hdata] at hmapped hstrays
  cases answer with
  | null => exact ⟨htable, hmapped, hstrays⟩
  | failed => exact ⟨htable, hmapped, congrArg (· + 1) hstrays⟩
  | mapped => exact ⟨htable, congrArg (mapLength r :: ·) hmapped, hstrays⟩

/-- A reader that can be read from. -/
structure Ready (r : MaliHWCReader) : Prop where
  fd : 0 ≤ r.fd
  hwc_fd : 0 ≤ r.hwc_fd
  sample_data : r.sample_data = .mapped

/-- An attempt leaves the reader of the model without the process, with what the attempt has
    obtained. -/
theorem Released.setUp (h : Released s.term.kernel held)
    (hset : s.setUp dev buffer_count = some (success, s')) :
    s.reader.setUp dev buffer_count = (success, s'.reader) ∧ Owns s'.reader s'.kernel held ∧
      (success = true → Ready s'.reader) := by
  have hneg : (-1 : Int) < 0 := by decide
  unfold ReaderSession.setUp at hset
  unfold MaliHWCReader.setUp
  dsimp only at hset ⊢
  by_cases hfd : dev.fd < 0
  · rw [if_pos hfd] at hset ⊢
    cases hset
    exact ⟨rfl, h.owns hfd hneg rfl, by simp⟩
  rw [if_neg hfd] at hset ⊢
  obtain ⟨k, hk, hset⟩ := Option.bind_eq_some_iff.mp hset
  have hterm : Owns { s.reader.term with buffer_count := buffer_count } s.term.kernel held :=
    h.owns hneg hneg rfl
  have hopened := hterm.opened hk hneg
  rcases hmajor : dev.major with _ | major
  · simp only [hmajor] at hset
    cases hset
    exact ⟨rfl, hopened, by simp⟩
  simp only [hmajor] at hset
  dsimp only
  split at hset
  · rename_i hold
    cases hset
    exact ⟨if_pos hold, hopened, by simp⟩
  rename_i hold
  rw [if_neg hold]
  split at hset
  · rename_i hflags
    cases hset
    exact ⟨if_pos hflags, hopened, by simp⟩
  rename_i hflags
  rw [if_neg hflags]
  rcases hhwc : dev.hwc_fd with _ | hwc_fd
  · simp only [hhwc] at hset
    cases hset
    exact ⟨rfl, hopened, by simp⟩
  simp only [hhwc] at hset
  dsimp only
  obtain ⟨k', hk', hset⟩ := Option.bind_eq_some_iff.mp hset
  have hreads := hopened.reads hk' hneg
  split at hset
  · rename_i hversion
    cases hset
    exact ⟨if_pos hversion, hreads, by simp⟩
  rename_i hversion
  rw [if_neg hversion]
  rcases hsize : dev.buffer_size with _ | buffer_size
  · simp only [hsize] at hset
    cases hset
    exact ⟨rfl, hreads, by simp⟩
  simp only [hsize] at hset
  dsimp only
  have hsized : Owns { s.reader.term with
      buffer_count := buffer_count
      fd := dev.fd
      hwc_fd := hwc_fd
      buffer_size := buffer_size } k' held := ⟨hreads.table, hreads.mapped, hreads.strays⟩
  rcases hver : dev.hw_ver with _ | hw_ver
  · simp only [hver] at hset
    cases hset
    exact ⟨rfl, hsized, by simp⟩
  simp only [hver] at hset
  dsimp only
  have hmaps := hsized.maps rfl dev.sample_data hw_ver
  split at hset
  · rename_i hdata
    cases hset
    exact ⟨if_pos hdata, hmaps, by simp⟩
  rename_i hdata
  rw [if_neg hdata]
  split at hset
  · rename_i hinterval
    cases hset
    exact ⟨if_pos hinterval, hmaps, by simp⟩
  rename_i hinterval
  rw [if_neg hinterval]
  split at hset
  · rename_i hproduct
    cases hset
    exact ⟨if_pos hproduct, ⟨hmaps.table, hmaps.mapped, hmaps.strays⟩, by simp⟩
  · rename_i hproduct
    cases hset
    refine ⟨if_neg hproduct, ⟨hmaps.table, hmaps.mapped, hmaps.strays⟩, fun _ => ?_⟩
    exact ⟨not_lt.mp hfd, (give_eq_some hk').1.1, not_not.mp hdata⟩

/-! ## All attempts -/

theorem Owns.initReturns (h : Owns s.reader s.kernel held)
    (hinit : s.InitReturns dev buffer_count (success, s')) :
    s.reader.InitReturns dev buffer_count (success, s'.reader) ∧ Owns s'.reader s'.kernel held ∧
      (success = true → Ready s'.reader) := by
  unfold ReaderSession.InitReturns at hinit
  unfold MaliHWCReader.InitReturns
  split at hinit
  · exact hinit.elim
  · rename_i s₁ hset
    cases hinit
    obtain ⟨hreader, howns, hready⟩ := h.term.setUp hset
    rw [hreader]
    exact ⟨rfl, howns, hready⟩
  · rename_i s₁ hset
    obtain ⟨remap, hreturns, heq⟩ := hinit
    cases heq
    obtain ⟨hreader, howns, hready⟩ := h.term.setUp hset
    rw [hreader]
    refine ⟨⟨remap, hreturns, rfl⟩, ⟨howns.table, howns.mapped, howns.strays⟩, fun _ => ?_⟩
    obtain ⟨hfd, hhwc, hdata⟩ := hready rfl
    exact ⟨hfd, hhwc, hdata⟩

variable {devs : Nat → ReaderAnswers} {hw_info : MaliHWInfo}

theorem Owns.attempts {i : Nat} (hattempts : Attempts devs i s s')
    (h : Owns s.reader s.kernel held) (hready : s.reader.alive = true → Ready s.reader) :
    s.reader.Attempts devs i s'.reader ∧ Owns s'.reader s'.kernel held ∧
      (s'.reader.alive = true → Ready s'.reader) := by
  induction hattempts with
  | finished hdone => exact ⟨.finished hdone, h, hready⟩
  | attempt hlt hdead hinit _ ih =>
    obtain ⟨hinit', howns, hready'⟩ := h.initReturns hinit
    obtain ⟨hrest, howns', hready''⟩ := ih howns fun halive => by
      have hsuccess := hinit'.alive.2
      rw [halive, hdead, Bool.or_false] at hsuccess
      exact hready' hsuccess.symm
    exact ⟨.attempt hlt hdead hinit' hrest, howns', hready''⟩

/-- Whatever the attempts of the constructor come to: the reader is that of the model without the
    process; of all descriptors and mappings that the attempts have obtained it holds those of the
    last one, all of them if it is alive; and the destructor leaves the process as it was before
    the constructor. `munmap` is called once for each `mmap` that has failed. -/
theorem constructed_balanced {k : Resources} (hk : Released k held)
    (h : Constructed devs hw_info k s) :
    s.reader.Constructed devs hw_info ∧
      s.kernel.table.Holds (descriptors s.reader ++ held) ∧
      (s.kernel.mapped = if s.reader.sample_data = .mapped then [mapLength s.reader] else []) ∧
      (s.reader.alive = true → Ready s.reader) ∧ Released s.destroyed held := by
  unfold Constructed at h
  unfold MaliHWCReader.Constructed
  have hneg : (-1 : Int) < 0 := by decide
  have hnew : Owns { hw := hw_info } k held := hk.owns hneg hneg rfl
  split at h
  · rename_i hvalid
    obtain ⟨hattempts, howns, hready⟩ := hnew.attempts (s := ⟨_, k⟩) h (by simp)
    rw [if_pos hvalid]
    exact ⟨hattempts, howns.table, howns.mapped, hready, howns.term⟩
  · rename_i hvalid
    subst h
    rw [if_neg hvalid]
    exact ⟨rfl, hnew.table, hnew.mapped, by simp, (hnew.term (s := ⟨_, k⟩))⟩

/-- A device that gives its samples away at the second attempt. -/
def secondTime (i : Nat) : ReaderAnswers where
  fd := 3
  major := some 10
  setFlags := true
  hwc_fd := some 4
  api_version := some 1
  buffer_size := some 32
  hw_ver := some 5
  sample_data := if i = 1 then .failed else .mapped
  setInterval := true

/-- The second attempt gets the same descriptors once more. -/
theorem constructed_balanced_secondTime : ∃ s,
    Constructed secondTime ⟨true, 1, 0x6956, 0, 0, 1⟩ {} s ∧
      s.reader.Constructed secondTime ⟨true, 1, 0x6956, 0, 0, 1⟩ ∧
      s.kernel.table.Holds (descriptors s.reader ++ []) ∧
      (s.kernel.mapped = if s.reader.sample_data = .mapped then [mapLength s.reader] else []) ∧
      (s.reader.alive = true → Ready s.reader) ∧ Released s.destroyed [] := by
  obtain ⟨remap, hremap, -⟩ := MaliHWCReader.remap_returns 1 []
  have hconstructed : Constructed secondTime ⟨true, 1, 0x6956, 0, 0, 1⟩ {} _ :=
    .attempt (by decide) rfl rfl
      (.attempt (by decide) rfl ⟨remap, hremap, rfl⟩ (.finished (by simp)))
  exact ⟨_, hconstructed, constructed_balanced ⟨holds_empty, rfl, rfl⟩ hconstructed⟩

end ReaderSession

end LibCollector.Mali
