import LibCollector.Interface.StopAgain
import LibCollector.Layer.FrameCalls
import LibCollector.Misc.Table

/-!
# What the layer records

The context of `src/layer/vulkan_layer.cpp` together with the `Collection` that it drives, from the
first call of `process_frame` until `lc_vkDestroyDevice` deletes the context. The threads of
threaded collectors add to their series in between. What the clock and the collectors give during a
call is an input of the call.

The collection goes through one run whatever the number of frames is: it is started by the frame
after `start_frame`, and its `collect()` calls are those of the sampled frames (`Phase`).
-/

namespace LibCollector.Layer

open LibCollector.Interface LibCollector.Misc VkCollectorContext

variable {J : Type}

/-! ## The context and its collection -/

/-- What the clock and the collectors give the collection during a call of the layer. -/
structure Input where
  now : Int := 0
  ok : Str → Bool := fun _ => false
  adds : Str → List Added := fun _ => []

/-- The `collect()` of a frame. -/
def Input.sampling (input : Input) : Sampling := .collect input.now [] input.adds

/-- A call on `collectors`, without headers and without custom values. -/
def perform (input : Input) (s : Collection J) : CollectionCall → Option (Collection J)
  | .start => s.start [] input.now input.ok
  | .collect => s.sample input.sampling
  | .stop => s.stop
  | .results => some s

/-- The context, and the collection that it drives. -/
structure DeviceState (J : Type) where
  context : VkCollectorContext
  collection : Collection J

/-- A call of `process_frame`, or a round of the loop of a threaded collector. -/
inductive DeviceEvent where
  | frame (input : Input)
  | loop (name : Str) (adds : List Added)

/-- The inputs of the calls of `process_frame`. -/
def inputs (events : List DeviceEvent) : List Input :=
  events.filterMap fun
    | .frame input => some input
    | .loop _ _ => none

namespace DeviceState

/-- The context goes on to `ctx`, and the calls that it makes are performed. -/
def follow (input : Input) (ctx : VkCollectorContext) (s : DeviceState J) :
    Option (DeviceState J) :=
  (run (perform input) s.collection (ctx.calls.drop s.context.calls.length)).map
    fun collection => ⟨ctx, collection⟩

/-- Whether the loop of a collector runs. -/
def loops (s : DeviceState J) (name : Str) : Bool :=
  ((s.collection.mCollectors.find? name).map fun c => c.mIsThreaded && c.thread).getD false

/-- An event; `none` is the end of the process. There is no round of a loop that does not run. -/
def step (s : DeviceState J) : DeviceEvent → Option (DeviceState J)
  | .frame input => s.follow input (processFrame s.context)
  | .loop name adds =>
    if s.loops name then
      (s.collection.loop name adds).map fun collection => { s with collection := collection }
    else some s

/-- `vkCollectorContext::postprocess_results`, which neither starts nor samples. -/
def postprocess (s : DeviceState J) (fopenOk : Bool) : Option (DeviceState J) :=
  s.follow {} (postprocessResults s.context fopenOk)

/-- `lc_vkDestroyDevice` and the destructor of the context, which calls `postprocess_results`
    again, with the outcomes of the two calls of `fopen`. -/
def destroyDevice (fopens : Bool × Bool) (s : DeviceState J) : Option (DeviceState J) :=
  (s.postprocess fopens.1).bind fun t => t.postprocess fopens.2

/-- The events on a device and its destruction. -/
def session (config : LayerConfig) (s₀ : Collection J) (events : List DeviceEvent)
    (fopens : Bool × Bool) : Option (DeviceState J) :=
  (run step ⟨new config, s₀⟩ events).bind (destroyDevice fopens)

end DeviceState

/-! ## The run of the collection -/

/-- Whether a sampling step is a `collect()` call. -/
def isCollect : Sampling → Bool
  | .collect _ _ _ => true
  | .loop _ _ => false

/-- The inputs of the frames that are sampled. -/
def sampledInputs (config : LayerConfig) (inputs : List Input) : List Input :=
  (List.range' (config.start.toNatClampNeg + 2) (sampledFrames config.start.toNatClampNeg
    config.stop.toNatClampNeg (config.frames inputs.length))).filterMap
    fun F => inputs[F * config.perFrame - 1]?

/-- The last call of a whole frame is among the calls so far. -/
theorem frame_index_lt {config : LayerConfig} (hvalid : config.Valid) {n F : Nat} (hpos : 0 < F)
    (hF : F ≤ config.frames n) : F * config.perFrame - 1 < n := by
  have hS := one_le_toNatClampNeg hvalid.subframes
  have hmul : F * config.perFrame ≤ n :=
    Nat.le_trans (Nat.mul_le_mul_right _ hF) (Nat.div_mul_le_self _ _)
  have hone : 1 ≤ F * config.perFrame := Nat.mul_pos hpos hS
  omega

/-- The inputs of the frames so far are those of the calls so far. -/
theorem getElem?_frame_concat {config : LayerConfig} (hvalid : config.Valid) {inputs : List Input}
    (input : Input) {F : Nat} (hpos : 0 < F) (hF : F ≤ config.frames inputs.length) :
    (inputs ++ [input])[F * config.perFrame - 1]? = inputs[F * config.perFrame - 1]? :=
  List.getElem?_append_left (frame_index_lt hvalid hpos hF)

theorem sampledInputs_concat_same {config : LayerConfig} (hvalid : config.Valid)
    {inputs : List Input} (input : Input)
    (h : sampledFrames config.start.toNatClampNeg config.stop.toNatClampNeg
        (config.frames (inputs.length + 1)) =
      sampledFrames config.start.toNatClampNeg config.stop.toNatClampNeg
        (config.frames inputs.length)) :
    sampledInputs config (inputs ++ [input]) = sampledInputs config inputs := by
  simp only [sampledInputs, List.length_append, List.length_singleton, h]
  apply List.filterMap_congr
  intro F hF
  rw [List.mem_range'_1] at hF
  simp only [sampledFrames] at hF
  exact getElem?_frame_concat hvalid input (by omega) (by omega)

theorem sampledInputs_concat {config : LayerConfig} (hvalid : config.Valid)
    {inputs : List Input} (input : Input)
    (hF : config.start.toNatClampNeg < config.frames inputs.length)
    (hstop : config.frames inputs.length + 1 ≤ config.stop.toNatClampNeg)
    (hnext : config.frames (inputs.length + 1) = config.frames inputs.length + 1)
    (hwhole : inputs.length + 1 = (config.frames inputs.length + 1) * config.perFrame) :
    sampledInputs config (inputs ++ [input]) = sampledInputs config inputs ++ [input] := by
  have hgrow : sampledFrames config.start.toNatClampNeg config.stop.toNatClampNeg
      (config.frames inputs.length + 1) =
      sampledFrames config.start.toNatClampNeg config.stop.toNatClampNeg
        (config.frames inputs.length) + 1 := by
    simp only [sampledFrames]
    omega
  have hnumber : config.start.toNatClampNeg + 2 + sampledFrames config.start.toNatClampNeg
      config.stop.toNatClampNeg (config.frames inputs.length) =
      config.frames inputs.length + 1 := by
    simp only [sampledFrames]
    omega
  simp only [sampledInputs, List.length_append, List.length_singleton, hnext, hgrow]
  rw [List.range'_1_concat, List.filterMap_append, hnumber]
  congr 1
  · apply List.filterMap_congr
    intro F hmem
    rw [List.mem_range'_1] at hmem
    exact getElem?_frame_concat hvalid input (by omega) (by omega)
  · have hlast : (inputs ++ [input])[(config.frames inputs.length + 1) * config.perFrame - 1]? =
        some input := by
      rw [← hwhole, Nat.add_sub_cancel]
      exact List.getElem?_concat_length
    rw [List.filterMap_cons, hlast]
    rfl

/-- A run that the frame after `start_frame` starts, with the sampled frames as its `collect()`
    calls. -/
structure Recorded (config : LayerConfig) (inputs : List Input) (r : Run) : Prop where
  headers : r.headers = []
  began : ∃ input, inputs[(config.start.toNatClampNeg + 1) * config.perFrame - 1]? = some input ∧
    r.now = input.now ∧ r.ok = input.ok
  collects : r.samplings.filter isCollect = (sampledInputs config inputs).map Input.sampling

/-- Later frames do not change the first one. -/
theorem getElem?_concat_eq_some {inputs : List Input} {i : Nat} {first : Input}
    (h : inputs[i]? = some first) (input : Input) : (inputs ++ [input])[i]? = some first := by
  rw [List.getElem?_append_left (List.getElem?_eq_some_iff.mp h).1]
  exact h

theorem Recorded.concat_same {config : LayerConfig} (hvalid : config.Valid) {inputs : List Input}
    {r : Run} (hr : Recorded config inputs r) (input : Input)
    (h : sampledFrames config.start.toNatClampNeg config.stop.toNatClampNeg
        (config.frames (inputs.length + 1)) =
      sampledFrames config.start.toNatClampNeg config.stop.toNatClampNeg
        (config.frames inputs.length)) :
    Recorded config (inputs ++ [input]) r := by
  obtain ⟨first, hfirst, hbegan⟩ := hr.began
  refine ⟨hr.headers, ⟨first, getElem?_concat_eq_some hfirst input, hbegan⟩, ?_⟩
  rw [sampledInputs_concat_same hvalid input h]
  exact hr.collects

/-- What the collection has gone through after the calls of `process_frame` with the inputs. -/
inductive Phase (config : LayerConfig) (s₀ : Collection J) (inputs : List Input)
    (s : Collection J) : Prop
  /-- The collection has not been started. -/
  | idle (hF : config.frames inputs.length ≤ config.start.toNatClampNeg) (same : s = s₀)
  /-- The collection has been started and not stopped. -/
  | sampling (hstart : config.start.toNatClampNeg < config.frames inputs.length)
      (hlast : config.frames inputs.length ≤ config.last) (r : Run)
      (recorded : Recorded config inputs r)
      (run : ∃ s₁, s₀.start [] r.now r.ok = some s₁ ∧ run Collection.sample s₁ r.samplings = some s)
  /-- The collection has been stopped, perhaps more than once. -/
  | stopped (hlast : config.last < config.frames inputs.length) (r : Run)
      (recorded : Recorded config inputs r) (run : run Collection.step s₀ r.ops = some s)
      (unthreaded : config.last + 1 < config.frames inputs.length →
        ∀ name ∈ s.mRunning, s.threaded name = false)

section Steps

variable {config : LayerConfig} {s₀ : Collection J} {ins : List Input} {s t : Collection J}

/-- The frame after `start_frame`. -/
theorem phase_start (hF : config.frames ins.length = config.start.toNatClampNeg)
    (hnext : config.frames (ins.length + 1) = config.frames ins.length + 1)
    (hwhole : ins.length + 1 = (config.frames ins.length + 1) * config.perFrame) {input : Input}
    (h : s₀.start [] input.now input.ok = some t) : Phase config s₀ (ins ++ [input]) t := by
  have hlast := start_lt_last config
  have hlength : (ins ++ [input]).length = ins.length + 1 := List.length_append
  refine .sampling ?_ ?_ ⟨[], input.now, input.ok, []⟩ ⟨rfl, ⟨input, ?_, rfl, rfl⟩, ?_⟩ ⟨t, h, rfl⟩
  · rw [hlength, hnext, hF]
    exact Nat.lt_succ_self _
  · rw [hlength, hnext, hF]
    exact hlast
  · rw [← hF, ← hwhole, Nat.add_sub_cancel]
    exact List.getElem?_concat_length
  · have hnone : sampledFrames config.start.toNatClampNeg config.stop.toNatClampNeg
        (config.start.toNatClampNeg + 1) = 0 := by
      simp only [sampledFrames]
      omega
    simp only [sampledInputs, hlength, hnext, hF, hnone]
    rfl

variable (hvalid : config.Valid) (hfresh : s₀.Fresh)

include hvalid

/-- A frame that is sampled. -/
theorem phase_collect (hstart : config.start.toNatClampNeg < config.frames ins.length)
    (hstop : config.frames ins.length + 1 ≤ config.stop.toNatClampNeg)
    (hnext : config.frames (ins.length + 1) = config.frames ins.length + 1)
    (hwhole : ins.length + 1 = (config.frames ins.length + 1) * config.perFrame)
    {r : Run} (recorded : Recorded config ins r)
    (hrun : ∃ s₁, s₀.start [] r.now r.ok = some s₁ ∧ run Collection.sample s₁ r.samplings = some s)
    {input : Input} (h : s.sample input.sampling = some t) :
    Phase config s₀ (ins ++ [input]) t := by
  have hlast := stop_le_last config
  have hframes : config.frames (ins ++ [input]).length = config.frames (ins.length + 1) := by
    rw [List.length_append, List.length_singleton]
  obtain ⟨s₁, hs₁, hs⟩ := hrun
  obtain ⟨first, hfirst, hbegan⟩ := recorded.began
  refine .sampling (by omega) (by omega) { r with samplings := r.samplings ++ [input.sampling] }
    ⟨recorded.headers, ⟨first, getElem?_concat_eq_some hfirst input, hbegan⟩, ?_⟩
    ⟨s₁, hs₁, run_concat_eq_some.mpr ⟨s, hs, h⟩⟩
  rw [List.filter_append, recorded.collects, sampledInputs_concat hvalid input hstart hstop hnext
    hwhole, List.map_append]
  rfl

include hfresh

/-- One call of `process_frame`. -/
theorem phase_frame (inv : Phase config s₀ ins s) {input : Input}
    (h : run (perform input) s (nextCalls config ins.length) = some t) :
    Phase config s₀ (ins ++ [input]) t := by
  have hstartlast := start_lt_last config
  have hstoplast := stop_le_last config
  have hframes : config.frames (ins ++ [input]).length = config.frames (ins.length + 1) := by
    rw [List.length_append, List.length_singleton]
  have hle := frames_le_succ config ins.length
  cases inv with
  | idle hF same =>
    subst same
    rcases frames_succ config ins.length with hsame | ⟨hnext, hwhole⟩
    · rw [nextCalls_idle hvalid (by omega)] at h
      cases h
      exact .idle (by omega) rfl
    · by_cases hbegin : config.frames ins.length = config.start.toNatClampNeg
      · rw [nextCalls_start hvalid hbegin hnext] at h
        obtain ⟨u, hu, hnil⟩ := run_cons_eq_some.mp h
        cases hnil
        exact phase_start hbegin hnext hwhole hu
      · rw [nextCalls_idle hvalid (by omega)] at h
        cases h
        exact .idle (by omega) rfl
  | sampling hstart hlast r recorded hrun =>
    rcases frames_succ config ins.length with hsame | ⟨hnext, hwhole⟩
    · rw [nextCalls_part hvalid (by omega) hsame] at h
      cases h
      refine .sampling (by omega) (by omega) r (recorded.concat_same hvalid input ?_) hrun
      rw [hsame]
    · by_cases hstop : config.frames ins.length + 1 ≤ config.stop.toNatClampNeg
      · rw [nextCalls_collect hvalid hstart hnext hstop] at h
        obtain ⟨u, hu, hnil⟩ := run_cons_eq_some.mp h
        cases hnil
        exact phase_collect hvalid hstart hstop hnext hwhole recorded hrun hu
      · have hend : config.frames ins.length = config.last := by
          simp only [LayerConfig.last, lastFrame] at hlast ⊢
          omega
        rw [nextCalls_stop hvalid (by omega) (by omega) hnext] at h
        obtain ⟨u, hu, hnil⟩ := run_cons_eq_some.mp h
        cases hnil
        obtain ⟨s₁, hs₁, hs⟩ := hrun
        refine .stopped (by omega) r (recorded.concat_same hvalid input ?_) ?_ (by omega)
        · simp only [sampledFrames]
          omega
        · rw [Collection.run_ops_eq_some, recorded.headers]
          exact ⟨s₁, s, hs₁, hs, hu⟩
  | stopped hlast r recorded hrun unthreaded =>
    have hsampled : sampledFrames config.start.toNatClampNeg config.stop.toNatClampNeg
        (config.frames (ins.length + 1)) =
        sampledFrames config.start.toNatClampNeg config.stop.toNatClampNeg
          (config.frames ins.length) := by
      simp only [sampledFrames]
      omega
    have recorded' := recorded.concat_same hvalid input hsampled
    rcases nextCalls_over hvalid hlast with hcalls | hcalls
    · rw [hcalls] at h
      cases h
      refine .stopped (by omega) r recorded' hrun fun hsecond => ?_
      apply unthreaded
      by_contra hfirst
      -- the second frame after the last one would have stopped the collection
      rcases frames_succ config ins.length with hsame | ⟨hnext, -⟩
      · omega
      · rw [nextCalls_stop hvalid (by omega) (by omega) hnext] at hcalls
        cases hcalls
    · rw [hcalls] at h
      obtain ⟨u, hu, hnil⟩ := run_cons_eq_some.mp h
      cases hnil
      rw [perform, Collection.stop_again (Collection.still_run hfresh hrun)] at hu
      split at hu
      · cases hu
      · rename_i hplain
        cases hu
        refine .stopped (by omega) r recorded' hrun fun _ name hname => ?_
        exact eq_false_of_ne_true fun hthreaded => hplain ⟨name, hname, hthreaded⟩

end Steps

namespace DeviceState

variable {config : LayerConfig} {s₀ : Collection J} {s t : DeviceState J}

/-- What holds between any two events. -/
structure Tracks (config : LayerConfig) (s₀ : Collection J) (events : List DeviceEvent)
    (s : DeviceState J) : Prop where
  context : s.context = processFrame^[(inputs events).length] (new config)
  phase : Phase config s₀ (inputs events) s.collection

/-- Without threads there is no round of a loop. -/
theorem loops_eq_false (h : s.collection.NoThreads) (name : Str) : s.loops name = false := by
  unfold loops
  cases hc : s.collection.mCollectors.find? name with
  | none => rfl
  | some c => simp [h name c hc]

/-- A round of the loop of a threaded collector. -/
theorem tracks_loop (hfresh : s₀.Fresh) {events : List DeviceEvent}
    (inv : Tracks config s₀ events s) {name : Str} {adds : List Added}
    (h : s.step (.loop name adds) = some t) :
    Tracks config s₀ (events ++ [.loop name adds]) t := by
  have hinputs : inputs (events ++ [.loop name adds]) = inputs events := by
    simp [inputs, List.filterMap_append]
  have hnone : s.collection.NoThreads → t = s := by
    intro hthreads
    rw [step, loops_eq_false hthreads, if_neg Bool.false_ne_true] at h
    cases h
    rfl
  obtain ⟨hcontext, hphase⟩ := inv
  cases hphase with
  | idle hF same =>
    obtain rfl := hnone fun name c hc => (hfresh.collectors name c (same ▸ hc)).2.2
    exact ⟨hinputs ▸ hcontext, hinputs ▸ .idle hF same⟩
  | stopped hlast r recorded hrun unthreaded =>
    obtain rfl := hnone (Collection.still_run hfresh hrun).noThreads
    exact ⟨hinputs ▸ hcontext, hinputs ▸ .stopped hlast r recorded hrun unthreaded⟩
  | sampling hstart hlast r recorded hrun =>
    by_cases hloops : s.loops name = true
    · rw [step, if_pos hloops] at h
      obtain ⟨u, hu, rfl⟩ := Option.map_eq_some_iff.mp h
      obtain ⟨s₁, hs₁, hs⟩ := hrun
      refine ⟨hinputs ▸ hcontext, hinputs ▸ .sampling hstart hlast
        { r with samplings := r.samplings ++ [.loop name adds] }
        ⟨recorded.headers, recorded.began, ?_⟩
        ⟨s₁, hs₁, run_concat_eq_some.mpr ⟨s.collection, hs, hu⟩⟩⟩
      rw [List.filter_append, recorded.collects]
      simp [isCollect]
    · rw [step, if_neg hloops] at h
      cases h
      exact ⟨hinputs ▸ hcontext, hinputs ▸ .sampling hstart hlast r recorded hrun⟩

theorem tracks_step (hvalid : config.Valid) (hfresh : s₀.Fresh) {events : List DeviceEvent}
    (inv : Tracks config s₀ events s) {event : DeviceEvent} (h : s.step event = some t) :
    Tracks config s₀ (events ++ [event]) t := by
  cases event with
  | loop name adds => exact tracks_loop hfresh inv h
  | frame input =>
    have hinputs : inputs (events ++ [.frame input]) = inputs events ++ [input] := by
      simp [inputs, List.filterMap_append]
    obtain ⟨collection, hcollection, rfl⟩ := Option.map_eq_some_iff.mp h
    rw [inv.context, ← Function.iterate_succ_apply' processFrame] at hcollection
    refine ⟨?_, hinputs ▸ phase_frame hvalid hfresh inv.phase hcollection⟩
    rw [hinputs, List.length_append, List.length_singleton, Function.iterate_succ_apply',
      ← inv.context]

theorem tracks_run (hvalid : config.Valid) (hfresh : s₀.Fresh) {before events : List DeviceEvent}
    (inv : Tracks config s₀ before s) (h : run step s events = some t) :
    Tracks config s₀ (before ++ events) t := by
  induction events generalizing before s with
  | nil =>
    cases h
    rw [List.append_nil]
    exact inv
  | cons event events ih =>
    obtain ⟨u, hu, hrest⟩ := run_cons_eq_some.mp h
    have hfinal := ih (tracks_step hvalid hfresh inv hu) hrest
    rwa [List.append_assoc] at hfinal

theorem tracks_new (config : LayerConfig) (s₀ : Collection J) :
    Tracks config s₀ [] ⟨new config, s₀⟩ := by
  refine ⟨rfl, .idle ?_ rfl⟩
  simp [inputs, LayerConfig.frames]

/-! ## The end of the device -/

theorem postprocess_idle (h : s.context.collectorsStarted = false) (fopenOk : Bool) :
    s.postprocess fopenOk = some s := by
  rw [postprocess, follow, postprocessResults_notStarted h, List.drop_length]
  rfl

/-- The calls of `postprocess_results` once the sampling has begun. -/
theorem postprocessResults_calls {ctx : VkCollectorContext}
    (hstarted : ctx.collectorsStarted = true) (fopenOk : Bool) :
    (postprocessResults ctx fopenOk).collectorsStarted = true ∧
    (postprocessResults ctx fopenOk).calls.drop ctx.calls.length =
      if ctx.postprocessed then [] else
        if ctx.collectorsFinished then [.results] else [.stop, .results] := by
  unfold postprocessResults
  cases hpost : ctx.postprocessed with
  | true => simp [hstarted]
  | false =>
    cases hfinished : ctx.collectorsFinished <;> cases fopenOk <;>
      simp [call, hstarted]

/-- A context whose sampling is over only reads the results. -/
theorem postprocess_over (hstarted : s.context.collectorsStarted = true)
    (hfinished : s.context.collectorsFinished = true) {fopenOk : Bool}
    (h : s.postprocess fopenOk = some t) :
    t.collection = s.collection ∧ t.context.collectorsStarted = true ∧
      t.context.collectorsFinished = true ∧
      t.context.framesProcessed = s.context.framesProcessed := by
  obtain ⟨collection, hcollection, rfl⟩ := Option.map_eq_some_iff.mp h
  obtain ⟨hstarted', hcalls⟩ := postprocessResults_calls hstarted fopenOk
  obtain ⟨hfinished', hframes, -⟩ := postprocessResults_finished hfinished fopenOk
  refine ⟨?_, hstarted', hfinished', hframes⟩
  rw [hcalls, if_pos hfinished] at hcollection
  split at hcollection <;> cases hcollection <;> rfl

/-- A context that is still sampling stops the collection. -/
theorem postprocess_running (hstarted : s.context.collectorsStarted = true)
    (hfinished : s.context.collectorsFinished = false)
    (hpost : s.context.postprocessed = false) {fopenOk : Bool}
    (h : s.postprocess fopenOk = some t) :
    s.collection.stop = some t.collection ∧ t.context.collectorsStarted = true ∧
      t.context.collectorsFinished = true ∧
      t.context.framesProcessed = s.context.framesProcessed := by
  obtain ⟨collection, hcollection, rfl⟩ := Option.map_eq_some_iff.mp h
  obtain ⟨hstarted', hcalls⟩ := postprocessResults_calls hstarted fopenOk
  obtain ⟨hfinished', hframes, -⟩ := postprocessResults_running hstarted hfinished hpost fopenOk
  refine ⟨?_, hstarted', hfinished', hframes⟩
  rw [hcalls, hpost, hfinished] at hcollection
  obtain ⟨u, hu, hnil⟩ := run_cons_eq_some.mp hcollection
  cases hnil
  exact hu

/-- What the destruction of the device leaves. -/
inductive Outcome (config : LayerConfig) (s₀ : Collection J) (ins : List Input)
    (t : DeviceState J) : Prop
  | unused (hF : config.frames ins.length ≤ config.start.toNatClampNeg)
      (same : t.collection = s₀)
  | recorded (hF : config.start.toNatClampNeg < config.frames ins.length) (r : Run)
      (recorded : Recorded config ins r)
      (run : run Collection.step s₀ r.ops = some t.collection)
      (processed : t.context.framesProcessed.toNat = sampledFrames config.start.toNatClampNeg
        config.stop.toNatClampNeg (config.frames ins.length))
      (unthreaded : config.last + 1 < config.frames ins.length →
        ∀ name ∈ t.collection.mRunning, t.collection.threaded name = false)

theorem outcome_destroyDevice (hvalid : config.Valid) {events : List DeviceEvent}
    (inv : Tracks config s₀ events s) {fopens : Bool × Bool}
    (h : s.destroyDevice fopens = some t) : Outcome config s₀ (inputs events) t := by
  obtain ⟨u, hu, ht⟩ := Option.bind_eq_some_iff.mp h
  obtain ⟨hcontext, hphase⟩ := inv
  have hstartlast := start_lt_last config
  have hstoplast := stop_le_last config
  have hinv : config.frames (inputs events).length ≤ config.last + 2 →
      FrameInv config.perFrame config.start.toNatClampNeg config.stop.toNatClampNeg
        (inputs events).length s.context := by
    intro hF
    rw [hcontext]
    exact hvalid.frameInv hF
  cases hphase with
  | idle hF same =>
    have hstarted : s.context.collectorsStarted = false := by
      rw [(hinv (by omega)).started, decide_eq_false_iff_not]
      exact Nat.not_lt.mpr hF
    rw [postprocess_idle hstarted] at hu
    cases hu
    rw [postprocess_idle hstarted] at ht
    cases ht
    exact .unused hF same
  | sampling hstart hlast r recorded hrun =>
    have inv := hinv (by omega)
    have hstarted : s.context.collectorsStarted = true := by
      rw [inv.started, decide_eq_true_iff]
      exact hstart
    have hfinished : s.context.collectorsFinished = false := by
      rw [inv.finished, decide_eq_false_iff_not]
      exact Nat.not_lt.mpr hlast
    obtain ⟨hstop, hstarted', hfinished', hframes⟩ :=
      postprocess_running hstarted hfinished inv.postprocessed hu
    obtain ⟨hsame, -, -, hframes'⟩ := postprocess_over hstarted' hfinished' ht
    obtain ⟨s₁, hs₁, hs⟩ := hrun
    refine .recorded hstart r recorded ?_ ?_ (by omega)
    · rw [Collection.run_ops_eq_some, recorded.headers, hsame]
      exact ⟨s₁, s.collection, hs₁, hs, hstop⟩
    · rw [hframes', hframes]
      exact inv.processed
  | stopped hlast r recorded hrun unthreaded =>
    have hover : Over config s.context := by
      rw [hcontext]
      exact over_iterate hvalid hlast
    obtain ⟨hsame, hstarted', hfinished', hframes⟩ :=
      postprocess_over hover.started hover.finished hu
    obtain ⟨hsame', -, -, hframes'⟩ := postprocess_over hstarted' hfinished' ht
    rw [← hsame, ← hsame'] at hrun unthreaded
    refine .recorded (by omega) r recorded hrun ?_ unthreaded
    rw [hframes', hframes, hover.processed]
    simp only [sampledFrames]
    omega

end DeviceState

/-! ## What the results hold -/

/-- The time between the sampled frames, from the frame that began the sampling on. -/
def frameTimes (first : Input) (frames : List Input) : List Int :=
  List.zipWith (fun frame before => frame.now - before) frames (first.now :: frames.map Input.now)

/-- What a collector adds under a key during the sampled frames. -/
def frameSeries (frames : List Input) (name key : Str) : Option (List Number) :=
  let numbers := valuesUnder key (frames.flatMap fun frame => frame.adds name)
  if numbers = [] then none else some numbers

/-- The results have the times of the sampled frames, for each collector without a thread what it
    added during them, and for each threaded one a number for each of them. -/
structure FrameData (s₀ : Collection J) (first : Input) (frames : List Input)
    (results : Results J) : Prop where
  time : results.time = frameTimes first frames
  plain : ∀ name summarized values, s₀.threaded name = false →
    results.collectors.find? name = some (.series summarized values) →
      ∀ key, values.find? key = frameSeries frames name key
  threaded : ∀ name summarized values, s₀.threaded name = true →
    results.collectors.find? name = some (.series summarized values) →
      ∀ key numbers, values.find? key = some numbers → numbers.length = frames.length

theorem intervals_filter (now : Int) (xs : List Sampling) :
    intervals now xs = intervals now (xs.filter isCollect) := by
  induction xs generalizing now with
  | nil => rfl
  | cons x xs ih =>
    cases x with
    | collect later custom adds =>
      rw [List.filter_cons_of_pos rfl, intervals, intervals, ih]
    | loop name adds =>
      rw [List.filter_cons_of_neg (by simp [isCollect]), intervals, ih]
      rfl

theorem intervals_frames (now : Int) (frames : List Input) :
    intervals now (frames.map Input.sampling) =
      List.zipWith (fun frame before => frame.now - before) frames
        (now :: frames.map Input.now) := by
  induction frames generalizing now with
  | nil => rfl
  | cons frame frames ih =>
    rw [List.map_cons, intervals, List.map_cons, List.zipWith_cons_cons, ← ih frame.now]
    rfl

theorem length_sampledInputs {config : LayerConfig} (hvalid : config.Valid) (ins : List Input) :
    (sampledInputs config ins).length = sampledFrames config.start.toNatClampNeg
      config.stop.toNatClampNeg (config.frames ins.length) := by
  rw [sampledInputs, List.length_filterMap_eq_countP]
  rw [List.countP_eq_length.mpr, List.length_range']
  intro F hF
  rw [List.mem_range'_1] at hF
  simp only [sampledFrames] at hF
  rw [List.getElem?_eq_getElem (frame_index_lt hvalid (by omega) (by omega))]
  rfl

/-- The rounds of a run are rounds of threaded collectors. -/
theorem threaded_of_loop {s t : Collection J} {xs : List Sampling} (hnodup : s.mRunning.Nodup)
    (h : run Collection.sample s xs = some t) {name : Str} {adds : List Added}
    (hx : .loop name adds ∈ xs) : s.threaded name = true := by
  induction xs generalizing s with
  | nil => cases hx
  | cons x xs ih =>
    obtain ⟨u, hu, hrest⟩ := run_cons_eq_some.mp h
    have hafter : Collection.After s u :=
      Collection.after_step hnodup (show s.step (.sample x) = some u from hu)
    rcases List.mem_cons.mp hx with rfl | hx
    · obtain ⟨c, hc, hloop⟩ := Option.bind_eq_some_iff.mp hu
      rw [Collection.threaded, hc]
      by_contra hthreaded
      rw [if_neg fun hboth => hthreaded hboth.1] at hloop
      cases hloop
    · rw [← hafter.threaded_eq name]
      exact ih (hnodup.sublist hafter.mRunning) hrest hx

/-- What a collector without a thread adds during a run. -/
theorem recorded_frames {s t : Collection J} (hnodup : s.mRunning.Nodup) {r : Run}
    (h : run Collection.step s r.ops = some t) {frames : List Input}
    (hframes : r.samplings.filter isCollect = frames.map Input.sampling) {name : Str}
    (hplain : s.threaded name = false) (key : Str) :
    r.recorded false name key = valuesUnder key (frames.flatMap fun frame => frame.adds name) := by
  obtain ⟨s₁, s₂, hs₁, hs₂, -⟩ := Collection.run_ops_eq_some.mp h
  have hafter : Collection.After s s₁ := Collection.after_step hnodup
    (show s.step (.start r.headers r.now r.ok) = some s₁ from hs₁)
  have hskip : ∀ xs : List Sampling, (∀ adds, .loop name adds ∉ xs) →
      xs.flatMap (Sampling.added false name) =
        (xs.filter isCollect).flatMap (Sampling.added false name) := by
    intro xs hxs
    induction xs with
    | nil => rfl
    | cons x xs ih =>
      have hrest := ih fun adds hmem => hxs adds (List.mem_cons_of_mem _ hmem)
      cases x with
      | collect later custom adds =>
        rw [List.filter_cons_of_pos rfl, List.flatMap_cons, List.flatMap_cons, hrest]
      | loop other adds =>
        have hne : other ≠ name := fun heq => hxs adds (heq ▸ List.mem_cons_self)
        rw [List.filter_cons_of_neg (by simp [isCollect]), List.flatMap_cons, hrest,
          Sampling.added, if_neg hne, List.nil_append]
  rw [Run.recorded, hskip, hframes, List.flatMap_map]
  · rfl
  · intro adds hmem
    have hthreaded := threaded_of_loop (hnodup.sublist hafter.mRunning) hs₂ hmem
    rw [hafter.threaded_eq, hplain] at hthreaded
    cases hthreaded

theorem length_closest (duration samples : Float) (now : Int) (timing : List Int) :
    (CollectorValueList.closest duration samples now timing).length = timing.length := by
  induction timing generalizing now with
  | nil => rfl
  | cons t timing ih => rw [CollectorValueList.closest, List.length_cons, ih, List.length_cons]

/-- The results after a run whose `collect()` calls are those of the frames. -/
theorem frameData_run {s t : Collection J} (hs : s.Fresh) {r : Run}
    (h : run Collection.step s r.ops = some t) {first : Input} (hnow : r.now = first.now)
    {frames : List Input}
    (hframes : r.samplings.filter isCollect = frames.map Input.sampling) :
    FrameData s first frames t.results := by
  have honly := Collection.only_of_covers hs.nodup hs.unsummarized
    (fun name _ c hc _ _ key hkey => by
      rw [(hs.collectors name c hc).2.1] at hkey
      cases hkey) h
  have hintervals : r.intervals = frameTimes first frames := by
    rw [Run.intervals, intervals_filter, hframes, intervals_frames, hnow]
    rfl
  have hlength : r.intervals.length = frames.length := by
    rw [hintervals]
    simp [frameTimes]
  refine ⟨honly.time.trans hintervals, fun name summarized values hplain hfind key => ?_,
    fun name summarized values hthreaded hfind key numbers hnumbers => ?_⟩
  · have hseries := (honly.series name summarized values hfind).2 key
    rw [hplain] at hseries
    rw [hseries, Run.series, recorded_frames hs.nodup h hframes hplain key, frameSeries]
    rfl
  · have hseries := (honly.series name summarized values hfind).2 key
    rw [hthreaded, hnumbers, Run.series] at hseries
    split at hseries
    · cases hseries
    · have hremix := hseries.symm
      rw [if_pos rfl, CollectorValueList.remix] at hremix
      rw [length_of_mapM hremix, length_closest, hlength]

open Collection (memfreqCollection memfreqAdds fresh_memfreq)

/-- What the layer gives a collection with a collector of the memory frequency. -/
def memfreqInput (now : Int) : Input := ⟨now, fun _ => true, memfreqAdds 800000⟩

def memfreqFrames (times : List Int) : List DeviceEvent :=
  times.map fun now => .frame (memfreqInput now)

namespace DeviceState

/-- The results that the layer writes are about the sampled frames: as many as it counts, with the
    times between them, and what the collectors have added during them. If a second frame comes
    after the last one, the process gets to its end only without a running threaded collector. -/
theorem results_of_session {config : LayerConfig} (hvalid : config.Valid) {s₀ : Collection J}
    (hfresh : s₀.Fresh) {events : List DeviceEvent} {fopens : Bool × Bool} {t : DeviceState J}
    (h : session config s₀ events fopens = some t) :
    let start := config.start.toNatClampNeg
    let F := config.frames (inputs events).length
    let frames := sampledInputs config (inputs events)
    (F ≤ start → t.collection = s₀) ∧
    (start < F →
      frames.length = sampledFrames start config.stop.toNatClampNeg F ∧
      t.context.framesProcessed.toNat = frames.length ∧
      (∀ name ∈ s₀.mRunning, s₀.threaded name = false → name ∈ t.collection.mRunning) ∧
      ∃ first, (inputs events)[(start + 1) * config.perFrame - 1]? = some first ∧
        FrameData s₀ first frames t.collection.results) ∧
    (config.last + 1 < F → ∀ name ∈ t.collection.mRunning, s₀.threaded name = false) := by
  obtain ⟨s, hs, ht⟩ := Option.bind_eq_some_iff.mp h
  have inv := tracks_run hvalid hfresh (tracks_new config s₀) hs
  rw [List.nil_append] at inv
  have hstartlast := start_lt_last config
  cases outcome_destroyDevice hvalid inv ht with
  | unused hF same =>
    exact ⟨fun _ => same, fun hstart => absurd hF (by omega), fun hlast => absurd hF (by omega)⟩
  | recorded hF r recorded hrun processed unthreaded =>
    have hafter := Collection.after_run hfresh.nodup hrun
    have hlength := length_sampledInputs hvalid (inputs events)
    obtain ⟨first, hfirst, hnow, -⟩ := recorded.began
    refine ⟨fun hle => absurd hF (by omega), fun _ => ⟨hlength, processed.trans hlength.symm,
      fun name hname hplain => ?_, first, hfirst, frameData_run hfresh hrun hnow recorded.collects⟩,
      fun hlast name hname => ?_⟩
    · obtain ⟨c, -, -, hc, -⟩ := (Collection.finished_run hfresh.nodup hrun).collectors name hname
      rw [Collection.threaded, hc] at hplain
      exact (Collection.mem_running_run hfresh.nodup hrun hname hc hplain).1
    · rw [← hafter.threaded_eq]
      exact unthreaded hlast name hname

/-- Four frames and a sampling of the second one. The fourth stops the collection a second time,
    which has no threaded collector. -/
theorem results_of_four_frames : ∃ t, LayerConfig.Valid ⟨some 1, some 0, some 2⟩ ∧
    memfreqCollection.Fresh ∧
    session ⟨some 1, some 0, some 2⟩ memfreqCollection (memfreqFrames [5, 9, 14, 20])
      (true, true) = some t ∧
    t.context.framesProcessed.toNat = 1 ∧
    FrameData memfreqCollection (memfreqInput 5) [memfreqInput 9] t.collection.results := by
  obtain ⟨t, ht⟩ : ∃ t, session ⟨some 1, some 0, some 2⟩ memfreqCollection
    (memfreqFrames [5, 9, 14, 20]) (true, true) = some t := ⟨_, rfl⟩
  have hvalid : LayerConfig.Valid ⟨some 1, some 0, some 2⟩ := ⟨by decide, by decide, by decide⟩
  obtain ⟨-, hsampled, -⟩ := results_of_session hvalid fresh_memfreq ht
  obtain ⟨-, hprocessed, -, first, hfirst, hdata⟩ := hsampled (by decide)
  cases hfirst
  exact ⟨t, hvalid, fresh_memfreq, ht, hprocessed, hdata⟩

end DeviceState

end LibCollector.Layer
