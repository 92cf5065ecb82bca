import LibCollector.Layer.Frames

/-!
# The calls of one frame

Which calls on `collectors` the next `process_frame` makes, for configs whose counters do not wrap
before the sampling is over. After the last frame it can only be `stop()` again (`Over`), also when
`current_frame` wraps.
-/

namespace LibCollector.Layer

open VkCollectorContext

/-- The calls that the next `process_frame` makes after `n` of them. -/
def nextCalls (config : LayerConfig) (n : Nat) : List CollectionCall :=
  (processFrame^[n + 1] (new config)).calls.drop (processFrame^[n] (new config)).calls.length

/-- A config whose frame counters do not wrap before the sampling is over. -/
structure LayerConfig.Valid (config : LayerConfig) : Prop where
  subframes : 1 ≤ config.subframes
  start : 0 ≤ config.start
  stop : 0 ≤ config.stop

namespace LayerConfig

/-- The `process_frame` calls that make up a frame. -/
abbrev perFrame (config : LayerConfig) : Nat := config.subframes.toNatClampNeg

/-- The whole frames after `n` calls of `process_frame`. -/
abbrev frames (config : LayerConfig) (n : Nat) : Nat := n / config.perFrame

/-- The first frame after which the sampling ends. -/
abbrev last (config : LayerConfig) : Nat :=
  lastFrame config.start.toNatClampNeg config.stop.toNatClampNeg

end LayerConfig

theorem frames_le_succ (config : LayerConfig) (n : Nat) :
    config.frames n ≤ config.frames (n + 1) :=
  Nat.div_le_div_right (Nat.le_succ n)

theorem frames_succ (config : LayerConfig) (n : Nat) :
    config.frames (n + 1) = config.frames n ∨
      config.frames (n + 1) = config.frames n + 1 ∧
        n + 1 = (config.frames n + 1) * config.perFrame := by
  simp only [LayerConfig.frames, Nat.succ_div]
  split
  · rename_i hdvd
    refine Or.inr ⟨rfl, ?_⟩
    have hdiv := Nat.div_mul_cancel hdvd
    rw [Nat.succ_div, if_pos hdvd] at hdiv
    exact hdiv.symm
  · exact Or.inl rfl

theorem last_lt (config : LayerConfig) : config.last + 2 < 2 ^ 32 := by
  have hstart := toNatClampNeg_lt config.start
  have hstop := toNatClampNeg_lt config.stop
  simp only [LayerConfig.last, lastFrame]
  omega

theorem start_lt_last (config : LayerConfig) : config.start.toNatClampNeg < config.last := by
  simp only [LayerConfig.last, lastFrame]
  omega

theorem stop_le_last (config : LayerConfig) : config.stop.toNatClampNeg ≤ config.last :=
  Nat.le_max_left _ _

/-- The counters, until they can only stop the collection again. -/
theorem LayerConfig.Valid.frameInv {config : LayerConfig} (hvalid : config.Valid) {n : Nat}
    (hF : config.frames n ≤ config.last + 2) :
    FrameInv config.perFrame config.start.toNatClampNeg config.stop.toNatClampNeg n
      (processFrame^[n] (new config)) :=
  frameInv_run hvalid.subframes hvalid.start hvalid.stop n
    (Nat.lt_of_le_of_lt hF (last_lt config))

section Frames

variable {config : LayerConfig} (hvalid : config.Valid) {n : Nat}

include hvalid

/-- The calls are those that the closed form grows by. -/
theorem nextCalls_eq (hF : config.frames (n + 1) ≤ config.last + 2) {calls : List CollectionCall}
    (h : callsAfter config.start.toNatClampNeg config.stop.toNatClampNeg (config.frames (n + 1)) =
      callsAfter config.start.toNatClampNeg config.stop.toNatClampNeg (config.frames n) ++ calls) :
    nextCalls config n = calls := by
  have hnow := hvalid.frameInv (Nat.le_trans (frames_le_succ config n) hF)
  have hnext := hvalid.frameInv hF
  rw [nextCalls, hnow.calls, hnext.calls]
  simp only [LayerConfig.frames, LayerConfig.perFrame] at h
  rw [h, List.drop_left]

theorem nextCalls_part (hF : config.frames n ≤ config.last + 2)
    (hsame : config.frames (n + 1) = config.frames n) : nextCalls config n = [] := by
  apply nextCalls_eq hvalid (hsame ▸ hF)
  rw [hsame, List.append_nil]

theorem nextCalls_idle (hF : config.frames (n + 1) ≤ config.start.toNatClampNeg) :
    nextCalls config n = [] := by
  have hlast := start_lt_last config
  have hle := frames_le_succ config n
  apply nextCalls_eq hvalid (by omega)
  rw [callsAfter, callsAfter, if_pos hF, if_pos (Nat.le_trans hle hF)]
  rfl

theorem nextCalls_start (hF : config.frames n = config.start.toNatClampNeg)
    (hnext : config.frames (n + 1) = config.frames n + 1) : nextCalls config n = [.start] := by
  have hlast := start_lt_last config
  apply nextCalls_eq hvalid (by omega)
  rw [hnext, hF]
  exact callsAfter_start _ _

theorem nextCalls_collect (hF : config.start.toNatClampNeg < config.frames n)
    (hnext : config.frames (n + 1) = config.frames n + 1)
    (hstop : config.frames n + 1 ≤ config.stop.toNatClampNeg) :
    nextCalls config n = [.collect] := by
  have hle := stop_le_last config
  apply nextCalls_eq hvalid (by omega)
  rw [hnext]
  exact callsAfter_collect hF hstop

theorem nextCalls_stop (hF : config.last ≤ config.frames n)
    (hlast : config.frames n ≤ config.last + 1)
    (hnext : config.frames (n + 1) = config.frames n + 1) : nextCalls config n = [.stop] := by
  have hle := stop_le_last config
  have hstart := start_lt_last config
  apply nextCalls_eq hvalid (by omega)
  rw [hnext]
  exact callsAfter_stop (by omega) (by omega)

end Frames

/-- A context whose sampling is over. -/
structure Over (config : LayerConfig) (ctx : VkCollectorContext) : Prop where
  started : ctx.collectorsStarted = true
  finished : ctx.collectorsFinished = true
  processed : ctx.framesProcessed.toNat =
    sampledFrames config.start.toNatClampNeg config.stop.toNatClampNeg config.last

/-- From then on `process_frame` can only stop the collection again. -/
theorem Over.processFrame {config : LayerConfig} {ctx : VkCollectorContext} (h : Over config ctx) :
    Over config ctx.processFrame ∧
      (ctx.processFrame.calls = ctx.calls ∨ ctx.processFrame.calls = ctx.calls ++ [.stop]) := by
  unfold VkCollectorContext.processFrame
  dsimp only
  split
  · rcases frameBranch_cases { ctx with
        currentSubframe := 0, currentFrame := ctx.currentFrame + 1 } with
      ⟨-, hstarted, -⟩ | ⟨-, -, hbranch⟩ | ⟨-, -, hfinished, -⟩ | ⟨-, -, hbranch⟩
    · exact absurd (h.started.symm.trans hstarted) (by simp)
    · rw [hbranch]
      exact ⟨⟨h.started, rfl, h.processed⟩, Or.inr rfl⟩
    · exact absurd (h.finished.symm.trans hfinished) (by simp)
    · rw [hbranch]
      exact ⟨⟨h.started, h.finished, h.processed⟩, Or.inl rfl⟩
  · exact ⟨⟨h.started, h.finished, h.processed⟩, Or.inl rfl⟩

/-- The sampling is over after the last frame, also when the frame counter wraps later. -/
theorem over_iterate {config : LayerConfig} (hvalid : config.Valid) {n : Nat}
    (hF : config.last < config.frames n) : Over config (processFrame^[n] (new config)) := by
  induction n with
  | zero => simp [LayerConfig.frames] at hF
  | succ n ih =>
    by_cases hover : config.last < config.frames n
    · rw [Function.iterate_succ_apply']
      exact (ih hover).processFrame.1
    · have hstart := start_lt_last config
      have hle := stop_le_last config
      have hnext := (frames_succ config n).resolve_left (by omega)
      have hinv := hvalid.frameInv (n := n + 1) (by omega)
      refine ⟨?_, ?_, ?_⟩
      · rw [hinv.started, decide_eq_true_iff]
        exact Nat.lt_trans hstart hF
      · rw [hinv.finished, decide_eq_true_iff]
        exact hF
      · have hsame : sampledFrames config.start.toNatClampNeg config.stop.toNatClampNeg
            (config.frames (n + 1)) =
            sampledFrames config.start.toNatClampNeg config.stop.toNatClampNeg config.last := by
          simp only [sampledFrames]
          omega
        rw [← hsame]
        exact hinv.processed

theorem nextCalls_over {config : LayerConfig} (hvalid : config.Valid) {n : Nat}
    (hF : config.last < config.frames n) :
    nextCalls config n = [] ∨ nextCalls config n = [.stop] := by
  rw [nextCalls, Function.iterate_succ_apply']
  rcases (over_iterate hvalid hF).processFrame.2 with h | h <;> rw [h]
  · exact Or.inl (List.drop_length)
  · exact Or.inr (List.drop_left)

end LibCollector.Layer
