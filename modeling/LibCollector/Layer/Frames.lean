import Mathlib.Data.List.Infix
import Mathlib.Algebra.Order.Group.Nat
import Mathlib.Tactic.Common

/-!
# The frame counters of the Vulkan layer

`vkCollectorContext` of `src/layer/vulkan_layer.cpp`: `process_frame` counts the
presented (sub)frames and drives the context's `Collection`, `postprocess_results`
ends the sampling if the counters have not. The counters are `uint32_t` and wrap;
the timers and the JSON that is written out do not decide which call is made and
are left out.
-/

namespace LibCollector.Layer

/-- The calls a context makes on its `Collection`. -/
inductive CollectionCall where
  | start
  | collect
  | stop
  | results
  deriving DecidableEq, Repr

/-- The integer members of the layer's config that the frame counters read, `none` where
    the member is absent; `asInt()` yields an `int`. -/
structure LayerConfig where
  numSubframesPerFrame : Option Int32
  startFrame : Option Int32
  endFrame : Option Int32
  deriving DecidableEq

namespace LayerConfig

/-- `glibcollector_config.get("num_subframes_per_frame", 1).asInt()`. -/
def subframes (config : LayerConfig) : Int32 := config.numSubframesPerFrame.getD 1

/-- `glibcollector_config.get("start_frame", 0).asInt()`. -/
def start (config : LayerConfig) : Int32 := config.startFrame.getD 0

/-- `glibcollector_config.get("end_frame", 99999).asInt()`. -/
def stop (config : LayerConfig) : Int32 := config.endFrame.getD 99999

end LayerConfig

/-- `struct vkCollectorContext`, with the calls made on `collectors` so far. -/
structure VkCollectorContext where
  framesProcessed : UInt32
  currentFrame : UInt32
  currentSubframe : UInt32
  numSubframesPerFrame : UInt32
  startFrame : UInt32
  endFrame : UInt32
  collectorsStarted : Bool
  collectorsFinished : Bool
  postprocessed : Bool
  calls : List CollectionCall
  deriving DecidableEq

namespace VkCollectorContext

/-- `vkCollectorContext::vkCollectorContext()`; the `int` members are assigned to `uint32_t`. -/
def new (config : LayerConfig) : VkCollectorContext where
  framesProcessed := 0
  currentFrame := 0
  currentSubframe := 0
  numSubframesPerFrame := config.subframes.toUInt32
  startFrame := config.start.toUInt32
  endFrame := config.stop.toUInt32
  collectorsStarted := false
  collectorsFinished := false
  postprocessed := false
  calls := []

/-- A call on `collectors`. -/
def call (ctx : VkCollectorContext) (c : CollectionCall) : VkCollectorContext :=
  { ctx with calls := ctx.calls ++ [c] }

/-- The three branches `process_frame` chooses from once a whole frame is presented. -/
def frameBranch (ctx : VkCollectorContext) : VkCollectorContext :=
  if ctx.currentFrame > ctx.startFrame ∧ ctx.collectorsStarted = false then
    { ctx.call .start with collectorsStarted := true }
  else if ctx.currentFrame > ctx.endFrame ∧ ctx.collectorsStarted = true then
    { ctx.call .stop with collectorsFinished := true }
  else if ctx.collectorsStarted = true ∧ ctx.collectorsFinished = false then
    { ctx.call .collect with framesProcessed := ctx.framesProcessed + 1 }
  else ctx

/-- `vkCollectorContext::process_frame`. -/
def processFrame (ctx : VkCollectorContext) : VkCollectorContext :=
  let ctx := { ctx with currentSubframe := ctx.currentSubframe + 1 }
  if ctx.currentSubframe ≥ ctx.numSubframesPerFrame then
    frameBranch { ctx with currentFrame := ctx.currentFrame + 1, currentSubframe := 0 }
  else ctx

/-- `vkCollectorContext::postprocess_results`, given whether `fopen` of the output file
    succeeds. -/
def postprocessResults (ctx : VkCollectorContext) (fopenOk : Bool) : VkCollectorContext :=
  if ctx.postprocessed then ctx
  else if ctx.collectorsStarted = false then ctx
  else
    let ctx := if ctx.collectorsFinished = false then
      { ctx.call .stop with collectorsFinished := true } else ctx
    let ctx := ctx.call .results
    if fopenOk then { ctx with postprocessed := true } else ctx

/-- `n` calls of `process_frame`, then one call of `postprocess_results` for each outcome of
    its `fopen`; the destructor's own call is the last of them. -/
def runFrames (config : LayerConfig) (n : Nat) (fopens : List Bool) : VkCollectorContext :=
  fopens.foldl postprocessResults (processFrame^[n] (new config))

/-- The start, collect and stop calls among the calls made. -/
def lifecycle (ctx : VkCollectorContext) : List CollectionCall :=
  ctx.calls.filter (· ≠ .results)

end VkCollectorContext

open VkCollectorContext

/-! ## What the counters are for -/

/-- The frames sampled after `F` whole frames, for sampling from `start` to `stop`. -/
def sampledFrames (start stop F : Nat) : Nat := min F stop - start - 1

/-- The first frame after which the counters end the sampling. -/
def lastFrame (start stop : Nat) : Nat := max stop (start + 1)

/-- The calls `process_frame` has made after `F` whole frames. -/
def callsAfter (start stop F : Nat) : List CollectionCall :=
  if F ≤ start then []
  else .start :: (List.replicate (sampledFrames start stop F) .collect ++
    List.replicate (F - lastFrame start stop) .stop)

/-- What a context is after `n` calls of `process_frame`, in terms of the whole frames
    `n / S` and the subframes `n % S` that are left. -/
structure FrameInv (S start stop n : Nat) (ctx : VkCollectorContext) : Prop where
  subframes : ctx.numSubframesPerFrame.toNat = S
  startFrame : ctx.startFrame.toNat = start
  endFrame : ctx.endFrame.toNat = stop
  subframe : ctx.currentSubframe.toNat = n % S
  frame : ctx.currentFrame.toNat = n / S
  started : ctx.collectorsStarted = decide (start < n / S)
  finished : ctx.collectorsFinished = decide (lastFrame start stop < n / S)
  postprocessed : ctx.postprocessed = false
  processed : ctx.framesProcessed.toNat = sampledFrames start stop (n / S)
  calls : ctx.calls = callsAfter start stop (n / S)

/-! ### The closed form, one frame further -/

theorem callsAfter_idle {start stop F : Nat} (h : F + 1 ≤ start) :
    callsAfter start stop (F + 1) = callsAfter start stop F := by
  simp only [callsAfter, if_pos h, if_pos (Nat.le_of_succ_le h)]

theorem callsAfter_start (start stop : Nat) :
    callsAfter start stop (start + 1) = callsAfter start stop start ++ [.start] := by
  have hnone : start + 1 - lastFrame start stop = 0 := by simp only [lastFrame]; omega
  have hzero : sampledFrames start stop (start + 1) = 0 := by simp only [sampledFrames]; omega
  simp [callsAfter, hnone, hzero]

theorem callsAfter_collect {start stop F : Nat} (hstart : start < F) (hstop : F + 1 ≤ stop) :
    callsAfter start stop (F + 1) = callsAfter start stop F ++ [.collect] := by
  have hlast : ∀ G, G ≤ stop → G - lastFrame start stop = 0 := by
    intro G hG
    simp only [lastFrame]
    omega
  have hnext : sampledFrames start stop (F + 1) = sampledFrames start stop F + 1 := by
    simp only [sampledFrames]
    omega
  simp only [callsAfter, if_neg (Nat.not_le_of_lt hstart),
    if_neg (Nat.not_le_of_lt (Nat.lt_succ_of_lt hstart)), hlast _ hstop,
    hlast _ (Nat.le_of_succ_le hstop), hnext, List.replicate_zero, List.append_nil,
    List.replicate_succ', List.cons_append]

theorem callsAfter_stop {start stop F : Nat} (hstart : start < F) (hstop : stop < F + 1) :
    callsAfter start stop (F + 1) = callsAfter start stop F ++ [.stop] := by
  have hlast : F + 1 - lastFrame start stop = F - lastFrame start stop + 1 := by
    simp only [lastFrame]
    omega
  have hsame : sampledFrames start stop (F + 1) = sampledFrames start stop F := by
    simp only [sampledFrames]
    omega
  simp only [callsAfter, if_neg (Nat.not_le_of_lt hstart),
    if_neg (Nat.not_le_of_lt (Nat.lt_succ_of_lt hstart)), hlast, hsame,
    List.replicate_succ', List.cons_append, List.append_assoc]

/-! ## One call of `process_frame` -/

/-- The branch taken and the guards that chose it. -/
theorem frameBranch_cases (ctx : VkCollectorContext) :
    (ctx.currentFrame > ctx.startFrame ∧ ctx.collectorsStarted = false ∧
      frameBranch ctx = { ctx.call .start with collectorsStarted := true }) ∨
    (ctx.currentFrame > ctx.endFrame ∧ ctx.collectorsStarted = true ∧
      frameBranch ctx = { ctx.call .stop with collectorsFinished := true }) ∨
    (¬ctx.currentFrame > ctx.endFrame ∧ ctx.collectorsStarted = true ∧
      ctx.collectorsFinished = false ∧
      frameBranch ctx = { ctx.call .collect with framesProcessed := ctx.framesProcessed + 1 }) ∨
    ((ctx.collectorsStarted = false → ¬ctx.currentFrame > ctx.startFrame) ∧
      (ctx.collectorsStarted = true →
        ¬ctx.currentFrame > ctx.endFrame ∧ ctx.collectorsFinished = true) ∧
      frameBranch ctx = ctx) := by
  unfold frameBranch
  split
  · rename_i h
    exact Or.inl ⟨h.1, h.2, rfl⟩
  · rename_i hstart
    split
    · rename_i h
      exact Or.inr (Or.inl ⟨h.1, h.2, rfl⟩)
    · rename_i hstop
      split
      · rename_i h
        exact Or.inr (Or.inr (Or.inl ⟨fun hgt => hstop ⟨hgt, h.1⟩, h.1, h.2, rfl⟩))
      · rename_i hcollect
        refine Or.inr (Or.inr (Or.inr ⟨fun hs hgt => hstart ⟨hgt, hs⟩, fun hs => ?_, rfl⟩))
        refine ⟨fun hgt => hstop ⟨hgt, hs⟩, ?_⟩
        rw [← Bool.not_eq_false]
        exact fun hf => hcollect ⟨hs, hf⟩

/-- The branches leave the counters and the configuration alone. -/
theorem frameBranch_frame (ctx : VkCollectorContext) :
    (frameBranch ctx).numSubframesPerFrame = ctx.numSubframesPerFrame ∧
    (frameBranch ctx).startFrame = ctx.startFrame ∧
    (frameBranch ctx).endFrame = ctx.endFrame ∧
    (frameBranch ctx).currentSubframe = ctx.currentSubframe ∧
    (frameBranch ctx).currentFrame = ctx.currentFrame ∧
    (frameBranch ctx).postprocessed = ctx.postprocessed := by
  rcases frameBranch_cases ctx with ⟨-, -, h⟩ | ⟨-, -, h⟩ | ⟨-, -, -, h⟩ | ⟨-, -, h⟩ <;> rw [h]
  all_goals exact ⟨rfl, rfl, rfl, rfl, rfl, rfl⟩

theorem prefix_calls_frameBranch (ctx : VkCollectorContext) :
    ctx.calls <+: (frameBranch ctx).calls := by
  rcases frameBranch_cases ctx with ⟨-, -, h⟩ | ⟨-, -, h⟩ | ⟨-, -, -, h⟩ | ⟨-, -, h⟩ <;> rw [h]
  · exact List.prefix_append _ _
  · exact List.prefix_append _ _
  · exact List.prefix_append _ _

theorem prefix_calls_processFrame (ctx : VkCollectorContext) :
    ctx.calls <+: (processFrame ctx).calls := by
  unfold processFrame
  dsimp only
  split
  · exact prefix_calls_frameBranch { ctx with
      currentSubframe := 0, currentFrame := ctx.currentFrame + 1 }
  · exact List.prefix_rfl

theorem prefix_calls_iterate (ctx : VkCollectorContext) {n k : Nat} (h : n ≤ k) :
    (processFrame^[n] ctx).calls <+: (processFrame^[k] ctx).calls := by
  induction k, h using Nat.le_induction with
  | base => exact List.prefix_rfl
  | succ k _ ih =>
    rw [Function.iterate_succ_apply']
    exact ih.trans (prefix_calls_processFrame _)

/-- A subframe that does not complete a frame only moves the subframe counter. -/
theorem frameInv_subframe {S start stop n : Nat} {ctx : VkCollectorContext}
    (inv : FrameInv S start stop n ctx) (hS : S < 2 ^ 32) (hpart : n % S + 1 < S) :
    FrameInv S start stop (n + 1) (processFrame ctx) := by
  have hsub : (ctx.currentSubframe + 1).toNat = n % S + 1 := by
    rw [UInt32.toNat_add, inv.subframe, UInt32.toNat_one]
    omega
  have hmod : (n + 1) % S = n % S + 1 := by
    rw [Nat.add_mod, Nat.mod_eq_of_lt (a := 1) (by omega), Nat.mod_eq_of_lt hpart]
  have hdiv : (n + 1) / S = n / S := by
    apply Nat.div_eq_of_lt_le
    · have := Nat.div_mul_le_self n S
      omega
    · have := Nat.div_add_mod n S
      rw [Nat.add_mul, Nat.mul_comm]
      omega
  have hrun : processFrame ctx = { ctx with currentSubframe := ctx.currentSubframe + 1 } := by
    unfold processFrame
    dsimp only
    rw [if_neg]
    rw [ge_iff_le, UInt32.le_iff_toNat_le, hsub, inv.subframes]
    omega
  rw [hrun]
  exact {
    subframes := inv.subframes
    startFrame := inv.startFrame
    endFrame := inv.endFrame
    subframe := hsub.trans hmod.symm
    frame := inv.frame.trans hdiv.symm
    started := by rw [hdiv]; exact inv.started
    finished := by rw [hdiv]; exact inv.finished
    postprocessed := inv.postprocessed
    processed := by rw [hdiv]; exact inv.processed
    calls := by rw [hdiv]; exact inv.calls }

/-- What the branches do to a context that has just counted frame `F + 1`. -/
theorem frameBranch_spec {start stop F : Nat} {ctx : VkCollectorContext}
    (hstart : ctx.startFrame.toNat = start) (hstop : ctx.endFrame.toNat = stop)
    (hframe : ctx.currentFrame.toNat = F + 1)
    (hstarted : ctx.collectorsStarted = decide (start < F))
    (hfinished : ctx.collectorsFinished = decide (lastFrame start stop < F))
    (hprocessed : ctx.framesProcessed.toNat = sampledFrames start stop F)
    (hcalls : ctx.calls = callsAfter start stop F) :
    (frameBranch ctx).collectorsStarted = decide (start < F + 1) ∧
    (frameBranch ctx).collectorsFinished = decide (lastFrame start stop < F + 1) ∧
    (frameBranch ctx).framesProcessed.toNat = sampledFrames start stop (F + 1) ∧
    (frameBranch ctx).calls = callsAfter start stop (F + 1) := by
  have hgtStart : ctx.currentFrame > ctx.startFrame ↔ start < F + 1 := by
    rw [gt_iff_lt, UInt32.lt_iff_toNat_lt, hframe, hstart]
  have hgtEnd : ctx.currentFrame > ctx.endFrame ↔ stop < F + 1 := by
    rw [gt_iff_lt, UInt32.lt_iff_toNat_lt, hframe, hstop]
  rcases frameBranch_cases ctx with
    ⟨hgt, hst, hbr⟩ | ⟨hgt, hst, hbr⟩ | ⟨hgt, hst, hfin, hbr⟩ | ⟨hno, hdone, hbr⟩ <;> rw [hbr]
  · -- the first frame past `start`
    rw [hgtStart] at hgt
    rw [hstarted, decide_eq_false_iff_not] at hst
    obtain rfl : F = start := by omega
    refine ⟨(decide_eq_true (Nat.lt_succ_self F)).symm, ?_, ?_, ?_⟩
    · show ctx.collectorsFinished = _
      rw [hfinished, decide_eq_decide]
      simp only [lastFrame]
      omega
    · show ctx.framesProcessed.toNat = _
      rw [hprocessed]
      simp only [sampledFrames]
      omega
    · rw [callsAfter_start, ← hcalls]
      rfl
  · -- past `stop`: every such frame calls `stop`, also when an earlier one has
    rw [hgtEnd] at hgt
    have hst' : start < F := by simpa [hstarted] using hst
    refine ⟨?_, ?_, ?_, ?_⟩
    · show ctx.collectorsStarted = _
      rw [hst, eq_comm, decide_eq_true_iff]
      omega
    · show true = _
      rw [eq_comm, decide_eq_true_iff]
      simp only [lastFrame]
      omega
    · show ctx.framesProcessed.toNat = _
      rw [hprocessed]
      simp only [sampledFrames]
      omega
    · rw [callsAfter_stop hst' hgt, ← hcalls]
      rfl
  · -- a sampled frame
    rw [hgtEnd, Nat.not_lt] at hgt
    have hst' : start < F := by simpa [hstarted] using hst
    refine ⟨?_, ?_, ?_, ?_⟩
    · show ctx.collectorsStarted = _
      rw [hst, eq_comm, decide_eq_true_iff]
      omega
    · show ctx.collectorsFinished = _
      rw [hfinished, decide_eq_decide]
      simp only [lastFrame]
      omega
    · show (ctx.framesProcessed + 1).toNat = _
      have hbound := ctx.endFrame.toNat_lt
      rw [UInt32.toNat_add, hprocessed, UInt32.toNat_one]
      simp only [sampledFrames]
      omega
    · rw [callsAfter_collect hst' hgt, ← hcalls]
      rfl
  · -- no branch: the sampling has not begun, as a finished context is past `stop`
    have hidle : F + 1 ≤ start := by
      by_cases hst : ctx.collectorsStarted = true
      · obtain ⟨hgt, hfin⟩ := hdone hst
        rw [hgtEnd] at hgt
        rw [hfinished, decide_eq_true_iff] at hfin
        simp only [lastFrame] at hfin
        omega
      · have hgt := hno (by simpa using hst)
        rw [hgtStart] at hgt
        omega
    refine ⟨?_, ?_, ?_, ?_⟩
    · rw [hstarted, decide_eq_decide]
      omega
    · rw [hfinished, decide_eq_decide]
      simp only [lastFrame]
      omega
    · rw [hprocessed]
      simp only [sampledFrames]
      omega
    · rw [callsAfter_idle hidle, hcalls]

theorem next_eq_mul_of_whole {n S : Nat} (hwhole : n % S + 1 = S) : n + 1 = S * (n / S + 1) := by
  have hn := Nat.div_add_mod n S
  rw [Nat.mul_add]
  omega

/-- A subframe that completes a frame runs the branches on the next frame number. -/
theorem frameInv_frame {S start stop n : Nat} {ctx : VkCollectorContext}
    (inv : FrameInv S start stop n ctx) (hS : S < 2 ^ 32) (hwhole : n % S + 1 = S)
    (hF : n / S + 1 < 2 ^ 32) :
    FrameInv S start stop (n + 1) (processFrame ctx) := by
  have hsplit := next_eq_mul_of_whole hwhole
  have hdiv : (n + 1) / S = n / S + 1 := by rw [hsplit, Nat.mul_div_cancel_left _ (by omega)]
  have hmod : (n + 1) % S = 0 := by rw [hsplit, Nat.mul_mod_right]
  have hsub : (ctx.currentSubframe + 1).toNat = S := by
    rw [UInt32.toNat_add, inv.subframe, UInt32.toNat_one, hwhole, Nat.mod_eq_of_lt hS]
  have hframe : (ctx.currentFrame + 1).toNat = n / S + 1 := by
    rw [UInt32.toNat_add, inv.frame, UInt32.toNat_one, Nat.mod_eq_of_lt hF]
  have hrun : processFrame ctx = frameBranch { ctx with
      currentSubframe := 0, currentFrame := ctx.currentFrame + 1 } := by
    unfold processFrame
    dsimp only
    rw [if_pos]
    rw [ge_iff_le, UInt32.le_iff_toNat_le, hsub, inv.subframes]
  obtain ⟨hstarted, hfinished, hprocessed, hcalls⟩ := @frameBranch_spec start stop (n / S)
    { ctx with currentSubframe := 0, currentFrame := ctx.currentFrame + 1 }
    inv.startFrame inv.endFrame hframe inv.started inv.finished inv.processed inv.calls
  obtain ⟨f1, f2, f3, f4, f5, f6⟩ := frameBranch_frame
    { ctx with currentSubframe := 0, currentFrame := ctx.currentFrame + 1 }
  rw [hrun]
  exact {
    subframes := by rw [f1]; exact inv.subframes
    startFrame := by rw [f2]; exact inv.startFrame
    endFrame := by rw [f3]; exact inv.endFrame
    subframe := by rw [f4, hmod]; rfl
    frame := by rw [f5, hdiv]; exact hframe
    started := by rw [hdiv]; exact hstarted
    finished := by rw [hdiv]; exact hfinished
    postprocessed := f6.trans inv.postprocessed
    processed := by rw [hdiv]; exact hprocessed
    calls := by rw [hdiv]; exact hcalls }

theorem toNatClampNeg_lt (x : Int32) : x.toNatClampNeg < 2 ^ 31 := by
  have := x.toInt_lt
  rw [Int32.toNatClampNeg]
  omega

theorem one_le_toNatClampNeg {x : Int32} (h : 1 ≤ x) : 1 ≤ x.toNatClampNeg := by
  have := Int32.le_iff_toInt_le.mp h
  rw [Int32.toNatClampNeg]
  simp at this
  omega

theorem frameInv_new {config : LayerConfig} (hS : 1 ≤ config.subframes)
    (hstart : 0 ≤ config.start) (hstop : 0 ≤ config.stop) :
    FrameInv config.subframes.toNatClampNeg config.start.toNatClampNeg
      config.stop.toNatClampNeg 0 (new config) where
  subframes := Int32.toNat_toUInt32_of_le (Int32.le_trans (by decide) hS)
  startFrame := Int32.toNat_toUInt32_of_le hstart
  endFrame := Int32.toNat_toUInt32_of_le hstop
  subframe := by simp [new]
  frame := by simp [new]
  started := by simp [new]
  finished := by simp [new]
  postprocessed := rfl
  processed := by simp [new, sampledFrames]
  calls := by simp [new, callsAfter]

/-- The context after any number of `process_frame` calls that does not wrap the frame
    counter. -/
theorem frameInv_run {config : LayerConfig} (hS : 1 ≤ config.subframes)
    (hstart : 0 ≤ config.start) (hstop : 0 ≤ config.stop) (n : Nat)
    (hF : n / config.subframes.toNatClampNeg < 2 ^ 32) :
    FrameInv config.subframes.toNatClampNeg config.start.toNatClampNeg
      config.stop.toNatClampNeg n (processFrame^[n] (new config)) := by
  have hS' := one_le_toNatClampNeg hS
  have hlt := toNatClampNeg_lt config.subframes
  induction n with
  | zero => exact frameInv_new hS hstart hstop
  | succ n ih =>
    rw [Function.iterate_succ_apply']
    have hle : n / config.subframes.toNatClampNeg ≤ (n + 1) / config.subframes.toNatClampNeg :=
      Nat.div_le_div_right (Nat.le_succ n)
    have inv := ih (Nat.lt_of_le_of_lt hle hF)
    have hmod := Nat.mod_lt n hS'
    by_cases hpart : n % config.subframes.toNatClampNeg + 1 < config.subframes.toNatClampNeg
    · exact frameInv_subframe inv (by omega) hpart
    · have hwhole : n % config.subframes.toNatClampNeg + 1 = config.subframes.toNatClampNeg := by
        omega
      rw [next_eq_mul_of_whole hwhole, Nat.mul_div_cancel_left _ hS'] at hF
      exact frameInv_frame inv (by omega) hwhole hF

/-! ## `postprocess_results` -/

theorem postprocessResults_notStarted {ctx : VkCollectorContext}
    (h : ctx.collectorsStarted = false) (fopenOk : Bool) :
    postprocessResults ctx fopenOk = ctx := by
  unfold postprocessResults
  rw [if_pos h, ite_self]

/-- Once the sampling has ended, `postprocess_results` makes no lifecycle call. -/
theorem postprocessResults_finished {ctx : VkCollectorContext}
    (hfin : ctx.collectorsFinished = true) (fopenOk : Bool) :
    (postprocessResults ctx fopenOk).collectorsFinished = true ∧
    (postprocessResults ctx fopenOk).framesProcessed = ctx.framesProcessed ∧
    (postprocessResults ctx fopenOk).lifecycle = ctx.lifecycle := by
  unfold postprocessResults
  split
  · exact ⟨hfin, rfl, rfl⟩
  · split
    · exact ⟨hfin, rfl, rfl⟩
    · simp only [hfin, Bool.true_eq_false, if_false]
      split <;> simp [lifecycle, call, hfin]

/-- The first `postprocess_results` of a sampling that the counters did not end stops it. -/
theorem postprocessResults_running {ctx : VkCollectorContext}
    (hst : ctx.collectorsStarted = true) (hfin : ctx.collectorsFinished = false)
    (hpost : ctx.postprocessed = false) (fopenOk : Bool) :
    (postprocessResults ctx fopenOk).collectorsFinished = true ∧
    (postprocessResults ctx fopenOk).framesProcessed = ctx.framesProcessed ∧
    (postprocessResults ctx fopenOk).lifecycle = ctx.lifecycle ++ [.stop] := by
  unfold postprocessResults
  simp only [hpost, hst, hfin, Bool.false_eq_true, if_false, Bool.true_eq_false, if_true]
  split <;> simp [lifecycle, call]

theorem foldl_postprocessResults_finished {ctx : VkCollectorContext}
    (hfin : ctx.collectorsFinished = true) (fopens : List Bool) :
    (fopens.foldl postprocessResults ctx).framesProcessed = ctx.framesProcessed ∧
    (fopens.foldl postprocessResults ctx).lifecycle = ctx.lifecycle := by
  induction fopens generalizing ctx with
  | nil => exact ⟨rfl, rfl⟩
  | cons fopenOk fopens ih =>
    obtain ⟨hfin', hframes, hcalls⟩ := postprocessResults_finished hfin fopenOk
    rw [List.foldl_cons, (ih hfin').1, (ih hfin').2]
    exact ⟨hframes, hcalls⟩

/-- What all the `postprocess_results` calls together add to the lifecycle. -/
theorem foldl_postprocessResults {ctx : VkCollectorContext} (hpost : ctx.postprocessed = false)
    (fopens : List Bool) :
    (fopens.foldl postprocessResults ctx).framesProcessed = ctx.framesProcessed ∧
    (fopens.foldl postprocessResults ctx).lifecycle = ctx.lifecycle ++
      if ctx.collectorsStarted = true ∧ ctx.collectorsFinished = false ∧ fopens ≠ []
      then [.stop] else [] := by
  by_cases hst : ctx.collectorsStarted = true
  · by_cases hfin : ctx.collectorsFinished = true
    · obtain ⟨hframes, hcalls⟩ := foldl_postprocessResults_finished hfin fopens
      refine ⟨hframes, ?_⟩
      rw [hcalls, if_neg (by simp [hfin]), List.append_nil]
    · have hfin : ctx.collectorsFinished = false := by simpa using hfin
      cases fopens with
      | nil => simp
      | cons fopenOk fopens =>
        obtain ⟨hfin', hframes, hcalls⟩ := postprocessResults_running hst hfin hpost fopenOk
        obtain ⟨hframes', hcalls'⟩ := foldl_postprocessResults_finished hfin' fopens
        rw [List.foldl_cons, hframes', hcalls', hframes, hcalls]
        simp [hst, hfin]
  · have hst : ctx.collectorsStarted = false := by simpa using hst
    have hfix : fopens.foldl postprocessResults ctx = ctx := by
      induction fopens with
      | nil => rfl
      | cons fopenOk fopens ih =>
        rw [List.foldl_cons, postprocessResults_notStarted hst, ih]
    rw [hfix]
    simp [hst]

/-! ## The lifecycle of the collection -/

theorem callsAfter_filter (start stop F : Nat) :
    (callsAfter start stop F).filter (· ≠ .results) = callsAfter start stop F := by
  rw [List.filter_eq_self]
  intro c hc
  simp only [callsAfter] at hc
  split at hc
  · simp at hc
  · simp only [List.mem_cons, List.mem_append, List.mem_replicate] at hc
    rcases hc with rfl | ⟨-, rfl⟩ | ⟨-, rfl⟩ <;> decide

/-- The collection of a context has the life cycle `start`, `collect` for each of the
    `sampledFrames`, `stop`; or none at all when frame `start + 1` was never reached. -/
def OneLifecycle (config : LayerConfig) (n : Nat) (ctx : VkCollectorContext) : Prop :=
  let F := n / config.subframes.toNatClampNeg
  let m := sampledFrames config.start.toNatClampNeg config.stop.toNatClampNeg F
  ctx.lifecycle = (if F ≤ config.start.toNatClampNeg then []
    else .start :: (List.replicate m .collect ++ [.stop])) ∧
  ctx.framesProcessed.toNat = m

/-- The runs on which `stop` is called once: at most one frame is presented after
    `lastFrame`, and when none is, `postprocess_results` runs. -/
def StopsOnce (config : LayerConfig) (n : Nat) (fopens : List Bool) : Prop :=
  let F := n / config.subframes.toNatClampNeg
  let last := lastFrame config.start.toNatClampNeg config.stop.toNatClampNeg
  F ≤ config.start.toNatClampNeg ∨ F = last + 1 ∨ (F ≤ last ∧ fopens ≠ [])

instance (config : LayerConfig) (n : Nat) (ctx : VkCollectorContext) :
    Decidable (OneLifecycle config n ctx) := inferInstanceAs (Decidable (_ ∧ _))

instance (config : LayerConfig) (n : Nat) (fopens : List Bool) :
    Decidable (StopsOnce config n fopens) := inferInstanceAs (Decidable (_ ∨ _ ∨ _))

theorem iterate_postprocessed (config : LayerConfig) (n : Nat) :
    (processFrame^[n] (new config)).postprocessed = false := by
  induction n with
  | zero => rfl
  | succ n ih =>
    rw [Function.iterate_succ_apply']
    unfold processFrame
    dsimp only
    split
    · exact (frameBranch_frame _).2.2.2.2.2.trans ih
    · exact ih

/-- As long as the frame counter does not wrap, the lifecycle is the one of the closed form,
    ended by `postprocess_results` if it is still running. -/
theorem runFrames_eq {config : LayerConfig} (hS : 1 ≤ config.subframes)
    (hstart : 0 ≤ config.start) (hstop : 0 ≤ config.stop) (n : Nat) (fopens : List Bool)
    (hF : n / config.subframes.toNatClampNeg < 2 ^ 32) :
    let start := config.start.toNatClampNeg
    let stop := config.stop.toNatClampNeg
    let F := n / config.subframes.toNatClampNeg
    (runFrames config n fopens).framesProcessed.toNat = sampledFrames start stop F ∧
    (runFrames config n fopens).lifecycle = callsAfter start stop F ++
      if start < F ∧ F ≤ lastFrame start stop ∧ fopens ≠ [] then [.stop] else [] := by
  have inv := frameInv_run hS hstart hstop n hF
  obtain ⟨hframes, hcalls⟩ := foldl_postprocessResults inv.postprocessed fopens
  refine ⟨?_, ?_⟩
  · rw [runFrames, hframes]
    exact inv.processed
  · rw [runFrames, hcalls, lifecycle, inv.calls, callsAfter_filter]
    simp only [inv.started, inv.finished, decide_eq_true_eq, decide_eq_false_iff_not, not_lt]

/-- A second frame after the last one calls `stop` a second time, and a wrapped frame counter
    does not take it back. -/
theorem two_le_count_stop {config : LayerConfig} (hS : 1 ≤ config.subframes)
    (hstart : 0 ≤ config.start) (hstop : 0 ≤ config.stop) (n : Nat) (fopens : List Bool)
    (hF : lastFrame config.start.toNatClampNeg config.stop.toNatClampNeg + 2 ≤
      n / config.subframes.toNatClampNeg) :
    2 ≤ (runFrames config n fopens).lifecycle.count .stop := by
  have hS' := one_le_toNatClampNeg hS
  have hs := toNatClampNeg_lt config.start
  have he := toNatClampNeg_lt config.stop
  set S := config.subframes.toNatClampNeg
  set start := config.start.toNatClampNeg
  set stop := config.stop.toNatClampNeg
  have hle : (lastFrame start stop + 2) * S ≤ n := (Nat.le_div_iff_mul_le hS').mp hF
  have hdiv : (lastFrame start stop + 2) * S / S = lastFrame start stop + 2 :=
    Nat.mul_div_cancel _ hS'
  have inv := frameInv_run hS hstart hstop ((lastFrame start stop + 2) * S) (by
    rw [show config.subframes.toNatClampNeg = S from rfl, hdiv]
    simp only [lastFrame]
    omega)
  have hcalls := inv.calls
  rw [show config.subframes.toNatClampNeg = S from rfl, hdiv] at hcalls
  have htwo : (callsAfter start stop (lastFrame start stop + 2)).count .stop = 2 := by
    rw [callsAfter, if_neg (by simp only [lastFrame]; omega)]
    simp [List.count_replicate]
  have hprefix := prefix_calls_iterate (new config) hle
  rw [hcalls] at hprefix
  have hmono : 2 ≤ (processFrame^[n] (new config)).lifecycle.count .stop := by
    rw [lifecycle, List.count_filter (by decide), ← htwo]
    exact hprefix.sublist.count_le _
  obtain ⟨-, hlife⟩ := foldl_postprocessResults (iterate_postprocessed config n) fopens
  rw [runFrames, hlife, List.count_append]
  omega

/-- The collection of a context has one life cycle on exactly the runs that stop it once. -/
theorem oneLifecycle_iff_stopsOnce (config : LayerConfig) (hS : 1 ≤ config.subframes)
    (hstart : 0 ≤ config.start) (hstop : 0 ≤ config.stop) (n : Nat) (fopens : List Bool) :
    OneLifecycle config n (runFrames config n fopens) ↔ StopsOnce config n fopens := by
  have hs := toNatClampNeg_lt config.start
  have he := toNatClampNeg_lt config.stop
  by_cases htwice : lastFrame config.start.toNatClampNeg config.stop.toNatClampNeg + 2 ≤
      n / config.subframes.toNatClampNeg
  · -- `stop` is called again
    have hcount := two_le_count_stop hS hstart hstop n fopens htwice
    simp only [OneLifecycle, StopsOnce]
    simp only [lastFrame] at htwice ⊢
    constructor
    · rintro ⟨hlife, -⟩
      rw [hlife, if_neg (by omega)] at hcount
      simp [List.count_replicate] at hcount
    · rintro (h | h | h) <;> omega
  · have hF : n / config.subframes.toNatClampNeg < 2 ^ 32 := by
      simp only [lastFrame] at htwice
      omega
    obtain ⟨hframes, hlife⟩ := runFrames_eq hS hstart hstop n fopens hF
    simp only [OneLifecycle, StopsOnce, hframes, hlife, and_true]
    set start := config.start.toNatClampNeg
    set stop := config.stop.toNatClampNeg
    set F := n / config.subframes.toNatClampNeg
    by_cases hbefore : F ≤ start
    · simp [callsAfter, hbefore]
    · simp only [callsAfter, hbefore, if_false, false_or, List.cons_append, List.cons_inj_right,
        List.append_assoc, List.append_cancel_left_eq]
      have hafter : start < F := Nat.not_le.mp hbefore
      by_cases hover : F ≤ lastFrame start stop
      · have hzero : F - lastFrame start stop = 0 := Nat.sub_eq_zero_of_le hover
        have hne : F ≠ lastFrame start stop + 1 := by omega
        by_cases hopens : fopens = [] <;> simp [hzero, hopens, hover, hafter, hne]
      · have hone : F = lastFrame start stop + 1 := by omega
        simp [hone]

/-- One frame is presented after the last one, so `process_frame` stops the collection itself,
    and a second `postprocess_results` finds it stopped. -/
theorem oneLifecycle_three_frames :
    let config : LayerConfig := ⟨some 1, none, some 2⟩
    1 ≤ config.subframes ∧ 0 ≤ config.start ∧ 0 ≤ config.stop ∧
    (OneLifecycle config 3 (runFrames config 3 [false, true]) ↔
      StopsOnce config 3 [false, true]) :=
  ⟨by decide, by decide, by decide,
    oneLifecycle_iff_stopsOnce ⟨some 1, none, some 2⟩ (by decide) (by decide) (by decide) 3
      [false, true]⟩

/-- Sampling frames 0 to 2 of an application that presents four: the fourth frame calls `stop`
    again. -/
theorem not_oneLifecycle_four_frames :
    ¬OneLifecycle ⟨some 1, some 0, some 2⟩ 4 (runFrames ⟨some 1, some 0, some 2⟩ 4 [true]) := by
  decide

end LibCollector.Layer
