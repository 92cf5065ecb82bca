import LibCollector.Interface.Collector
import Mathlib.Tactic.Ring

/-!
# Power samples and frames

The part of `PowerDaemon::stop` of `src/collectors/power.cpp` that slices the received samples into
frames. `mTiming` holds the durations of the frames in microseconds. The code takes them for the
times at which the frames end, in seconds: it adds up their differences and multiplies by 10000, the
samples per second. `Attributed` is the slicing by durations in microseconds, and
`NothingToAttribute` is when the code agrees with it. The sums of the differences are exact in a
`double` as long as they can be converted, and a value that `unsigned int` cannot represent, like
an index outside the buffer, is `none`. The rails are those of `mConfig`.
-/

namespace LibCollector.Power

open LibCollector.Misc LibCollector.Interface

/-! ## The slicing -/

/-- What `stop()` uses of a rail. -/
structure MeasuredRail where
  name : Str
  resistance : Int
  deriving DecidableEq

/-- `railResistorCoefficients`. -/
def MeasuredRail.coefficient (rail : MeasuredRail) : Float := 1000 / Float.ofInt rail.resistance

/-- `TOTAL_POWER_TRUNC_COEFFICIENT`. -/
def truncCoefficient : Float := 1000000

/-- The received samples; `numBytes` is a `uint32_t`. -/
structure Buffer where
  data : List Float
  fits : data.length * 8 < 2 ^ 32

/-- `framev`, `framei` and `framep` of a rail. -/
structure RailSums where
  v : Int64 := 0
  i : Int64 := 0
  p : Int64 := 0

/-- A sample is added to the sums of a rail. -/
def RailSums.add (coefficient voltage shuntVoltage : Float) (f : RailSums) : RailSums :=
  let power := voltage * shuntVoltage * coefficient
  { v := f.v + (voltage * truncCoefficient).toInt64
    i := f.i + (shuntVoltage * coefficient * truncCoefficient).toInt64
    p := f.p + (power * truncCoefficient).toInt64 }

/-- A frame: the numbers of its samples, and the sums of the rails. -/
structure Frame where
  samples : List Nat
  rails : List (MeasuredRail × RailSums)

/-- A frame that has no samples yet. -/
def Frame.start (rails : List MeasuredRail) : Frame := ⟨[], rails.map fun rail => (rail, {})⟩

/-- Arithmetic on `unsigned int`. -/
def unsigned (n : Nat) : Nat := n % 2 ^ 32

/-- The loop over the rails at one time, from rail `i` on; `some none` is that there is no more
    data. -/
def sampleRails (buf : Buffer) (numRails currentTime : Nat) :
    Nat → List (MeasuredRail × RailSums) → Option (Option (List (MeasuredRail × RailSums)))
  | _, [] => some (some [])
  | i, (rail, sums) :: rails =>
    let index := currentTime * numRails * 2 + i * 2
    if buf.data.length ≤ unsigned (index + 1) then some none
    else
      buf.data[unsigned index]?.bind fun voltage =>
        buf.data[unsigned (index + 1)]?.bind fun shuntVoltage =>
          (sampleRails buf numRails currentTime (i + 1) rails).map fun rest =>
            rest.map fun rest => (rail, sums.add rail.coefficient voltage shuntVoltage) :: rest

/-- The loop over the samples of a frame, for the number of them that are left: the time after it
    and the frame. -/
def sampleFrame (buf : Buffer) (numRails : Nat) : Nat → Nat → Frame → Option (Option (Nat × Frame))
  | 0, currentTime, f => some (some (currentTime, f))
  | n + 1, currentTime, f =>
    (sampleRails buf numRails currentTime 0 f.rails).bind fun sampled =>
      match sampled with
      | none => some none
      | some rails =>
        sampleFrame buf numRails n (currentTime + 1) ⟨f.samples ++ [currentTime], rails⟩

/-- `frameDurations`. -/
def frameDurations (prev : Int) : List Int → List Int
  | [] => []
  | t :: timing => (t - prev) :: frameDurations t timing

/-- `nextFrameEndTimeInSamples`. -/
def endInSamples (nextFrameEndTime : Int) : Option Nat :=
  if 0 ≤ nextFrameEndTime ∧ nextFrameEndTime * 10000 < 2 ^ 32 then
    some (nextFrameEndTime * 10000).toNat
  else none

/-- The loop over the frames, with `currentTime` and `nextFrameEndTime`: the frames that are not
    stopped short. -/
def slice (buf : Buffer) (rails : List MeasuredRail) :
    List Int → Nat → Int → Option (List Frame)
  | [], _, _ => some []
  | i :: durations, currentTime, nextFrameEndTime =>
    (endInSamples (nextFrameEndTime + i)).bind fun next =>
      (sampleFrame buf rails.length (next - currentTime) currentTime (.start rails)).bind
        fun sampled =>
          match sampled with
          | none => some []
          | some f => (slice buf rails durations f.1 (nextFrameEndTime + i)).map (f.2 :: ·)

/-- The frames that `stop()` makes of the samples. -/
def frames (rails : List MeasuredRail) (buf : Buffer) (timing : List Int) : Option (List Frame) :=
  slice buf rails (frameDurations 0 timing) 0 0

/-- An average over the samples of a frame. -/
def average (sum : Int64) (samples : Nat) : Float :=
  (sum / Int64.ofNat samples).toFloat / truncCoefficient * 1000

/-- What is added to the results for a frame. -/
def Frame.results (f : Frame) : List Added :=
  if f.samples = [] then []
  else
    let samples := f.samples.length
    ("num_samples".toList, .u64, .ofU64 (UInt64.ofNat samples)) ::
      f.rails.flatMap fun rail =>
        [(rail.1.name ++ "_voltage".toList, .fp64, .ofFp64 (average rail.2.v samples)),
          (rail.1.name ++ "_current".toList, .fp64, .ofFp64 (average rail.2.i samples)),
          (rail.1.name ++ "_power".toList, .fp64, .ofFp64 (average rail.2.p samples))]

/-- The entries of `num_samples`. -/
def numSamples (fs : List Frame) : List Nat :=
  (valuesUnder "num_samples".toList (fs.flatMap Frame.results)).map fun n => n.2.u64.toNat

/-! ## What the slicing has to be -/

/-- The samples that have been received for every rail. -/
def Buffer.available (buf : Buffer) (numRails : Nat) : Nat := buf.data.length / (2 * numRails)

/-- The end of the first `k` frames, rounded down to a whole sample. -/
def frameEnd (durations : List Nat) (k : Nat) : Nat := (durations.take k).sum / 100

/-- The number of frames for which `n` samples suffice. -/
def wholeFrames (n : Nat) (durations : List Nat) : Nat :=
  ((List.range durations.length).takeWhile fun k => frameEnd durations (k + 1) ≤ n).length

/-- The samples of each whole frame are those of its time, and none is used twice. -/
structure Attributed (n : Nat) (durations : List Nat) (fs : List Frame) : Prop where
  slices : ∀ k s, (∃ f, fs[k]? = some f ∧ s ∈ f.samples) ↔
    k < wholeFrames n durations ∧ frameEnd durations k ≤ s ∧ s < frameEnd durations (k + 1)
  once : (fs.flatMap Frame.samples).Nodup
  counts : (numSamples fs).sum = frameEnd durations (wholeFrames n durations)

/-- No frame that lasts a sample is whole, and the first duration that is not zero is too long when
    it is taken for seconds. -/
structure NothingToAttribute (n : Nat) (durations : List Nat) : Prop where
  short : ∀ k, frameEnd durations k = 0 ∨ n < frameEnd durations k
  tooLong : ∀ d ∈ durations.find? (· ≠ 0), n < d * 10000 ∧ d * 10000 < 2 ^ 32

/-! ## One sample, one frame -/

theorem unsigned_of_lt {n : Nat} (h : n < 2 ^ 32) : unsigned n = n := Nat.mod_eq_of_lt h

/-- The index of a sample that has been received does not overflow, and it is in the buffer. -/
theorem exists_sampleRails {buf : Buffer} {numRails currentTime i : Nat}
    {rails : List (MeasuredRail × RailSums)} (hlen : i + rails.length = numRails)
    (hdata : currentTime * numRails * 2 + numRails * 2 ≤ buf.data.length) :
    ∃ rails', sampleRails buf numRails currentTime i rails = some (some rails') ∧
      rails'.map Prod.fst = rails.map Prod.fst := by
  have hfits := buf.fits
  induction rails generalizing i with
  | nil => exact ⟨[], rfl, rfl⟩
  | cons entry rails ih =>
    obtain ⟨rail, sums⟩ := entry
    rw [List.length_cons] at hlen
    obtain ⟨rails', hrails', hsame⟩ := ih (show i + 1 + rails.length = numRails by omega)
    rw [sampleRails, unsigned_of_lt (by omega), unsigned_of_lt (by omega), if_neg (by omega),
      List.getElem?_eq_getElem (by omega), List.getElem?_eq_getElem (by omega), hrails']
    exact ⟨_, rfl, by rw [List.map_cons, List.map_cons, hsame]⟩

/-- The first index that is not in the buffer ends the loops. -/
theorem sampleRails_eq_none {buf : Buffer} {numRails currentTime i : Nat}
    {rails : List (MeasuredRail × RailSums)} (hlen : i + rails.length = numRails)
    (hrails : rails ≠ []) (hindex : currentTime * numRails * 2 + i * 2 ≤ buf.data.length)
    (hdata : buf.data.length < currentTime * numRails * 2 + numRails * 2) :
    sampleRails buf numRails currentTime i rails = some none := by
  have hfits := buf.fits
  induction rails generalizing i with
  | nil => exact absurd rfl hrails
  | cons entry rails ih =>
    obtain ⟨rail, sums⟩ := entry
    rw [List.length_cons] at hlen
    rw [sampleRails, unsigned_of_lt (by omega), unsigned_of_lt (by omega)]
    split_ifs with hend
    · rfl
    · have hne : rails ≠ [] := by
        rintro rfl
        rw [List.length_nil] at hlen
        omega
      rw [List.getElem?_eq_getElem (by omega), List.getElem?_eq_getElem (by omega),
        ih (show i + 1 + rails.length = numRails by omega) hne (by omega)]
      rfl

/-- The samples that have been received are those of which the last index is in the buffer. -/
theorem lt_available_iff {buf : Buffer} {numRails currentTime : Nat} (hrails : 0 < numRails) :
    currentTime < buf.available numRails ↔
      currentTime * numRails * 2 + numRails * 2 ≤ buf.data.length := by
  have hindex : (currentTime + 1) * (2 * numRails) =
      currentTime * numRails * 2 + numRails * 2 := by ring
  rw [Buffer.available, Nat.lt_iff_add_one_le, Nat.le_div_iff_mul_le (by omega), hindex]

/-- A frame for which there is enough data gets its samples. -/
theorem exists_sampleFrame {buf : Buffer} {n currentTime : Nat} {f : Frame}
    (hrails : f.rails ≠ []) (hdata : currentTime + n ≤ buf.available f.rails.length) :
    ∃ f', sampleFrame buf f.rails.length n currentTime f = some (some (currentTime + n, f')) ∧
      f'.samples = f.samples ++ List.range' currentTime n ∧
      f'.rails.map Prod.fst = f.rails.map Prod.fst := by
  induction n generalizing currentTime f with
  | zero => exact ⟨f, rfl, (List.append_nil _).symm, rfl⟩
  | succ n ih =>
    have hpos : 0 < f.rails.length := List.length_pos_iff.mpr hrails
    obtain ⟨rails', hrails', hsame⟩ := exists_sampleRails (Nat.zero_add f.rails.length)
      ((lt_available_iff hpos).mp (show currentTime < buf.available f.rails.length by omega))
    have hlen : rails'.length = f.rails.length := by
      rw [← List.length_map (f := Prod.fst), hsame, List.length_map]
    have hne : rails' ≠ [] := by
      rw [← List.length_pos_iff, hlen]
      exact hpos
    obtain ⟨f', hf', hsamples, hsame'⟩ :=
      ih (show (⟨f.samples ++ [currentTime], rails'⟩ : Frame).rails ≠ [] from hne)
        (show currentTime + 1 + n ≤ buf.available rails'.length by rw [hlen]; omega)
    refine ⟨f', ?_, ?_, hsame'.trans hsame⟩
    · rw [sampleFrame, hrails', Option.bind_some]
      dsimp only at hf' ⊢
      rw [← hlen, hf', Nat.add_assoc, Nat.add_comm 1 n]
    · rw [hsamples, List.range'_succ, List.append_assoc, List.singleton_append]

/-- A frame for which there is not enough data ends the loops. -/
theorem sampleFrame_eq_none {buf : Buffer} {n currentTime : Nat} {f : Frame}
    (hrails : f.rails ≠ []) (htime : currentTime ≤ buf.available f.rails.length)
    (hdata : buf.available f.rails.length < currentTime + n) :
    sampleFrame buf f.rails.length n currentTime f = some none := by
  induction n generalizing currentTime f with
  | zero => omega
  | succ n ih =>
    have hpos : 0 < f.rails.length := List.length_pos_iff.mpr hrails
    rw [sampleFrame]
    by_cases hnow : currentTime < buf.available f.rails.length
    · obtain ⟨rails', hrails', hsame⟩ := exists_sampleRails (Nat.zero_add f.rails.length)
        ((lt_available_iff hpos).mp hnow)
      have hlen : rails'.length = f.rails.length := by
        rw [← List.length_map (f := Prod.fst), hsame, List.length_map]
      have hne : rails' ≠ [] := by
        rw [← List.length_pos_iff, hlen]
        exact hpos
      have hrest := ih (show (⟨f.samples ++ [currentTime], rails'⟩ : Frame).rails ≠ [] from hne)
        (show currentTime + 1 ≤ buf.available rails'.length by rw [hlen]; omega)
        (show buf.available rails'.length < currentTime + 1 + n by rw [hlen]; omega)
      rw [hrails', Option.bind_some]
      dsimp only at hrest ⊢
      rw [← hlen, hrest]
    · have hend : currentTime = buf.available f.rails.length := by omega
      have hindex : currentTime * f.rails.length * 2 + 0 * 2 ≤ buf.data.length := by
        have hmul := Nat.div_mul_le_self buf.data.length (2 * f.rails.length)
        rw [hend, Buffer.available, Nat.mul_assoc, Nat.mul_comm f.rails.length 2]
        exact hmul
      have hbeyond := mt (lt_available_iff hpos).mpr hnow
      rw [sampleRails_eq_none (Nat.zero_add _) hrails hindex (by omega)]
      rfl

/-! ## All frames -/

/-- The differences add up to what they are the differences of. -/
theorem slice_cons (buf : Buffer) (rails : List MeasuredRail) (t : Int) (timing : List Int)
    (currentTime : Nat) (prev : Int) :
    slice buf rails (frameDurations prev (t :: timing)) currentTime prev =
      (endInSamples t).bind fun next =>
        (sampleFrame buf rails.length (next - currentTime) currentTime (.start rails)).bind
          fun sampled =>
            match sampled with
            | none => some []
            | some f => (slice buf rails (frameDurations t timing) f.1 t).map (f.2 :: ·) := by
  rw [frameDurations, slice, add_sub_cancel]

/-- A frame for which there is enough data. -/
theorem exists_slice_cons {buf : Buffer} {rails : List MeasuredRail} {t prev : Int}
    {timing : List Int} {currentTime next : Nat} (hrails : rails ≠ [])
    (hnext : endInSamples t = some next) (htime : currentTime ≤ buf.available rails.length)
    (hdata : next ≤ buf.available rails.length) :
    ∃ f, f.samples = List.range' currentTime (next - currentTime) ∧
      slice buf rails (frameDurations prev (t :: timing)) currentTime prev =
        (slice buf rails (frameDurations t timing) (max currentTime next) t).map (f :: ·) := by
  have hlen : (Frame.start rails).rails.length = rails.length := List.length_map _
  have hne : (Frame.start rails).rails ≠ [] := by
    rw [Frame.start, ne_eq, List.map_eq_nil_iff]
    exact hrails
  have hsum : currentTime + (next - currentTime) = max currentTime next := by omega
  obtain ⟨f, hf, hsamples, -⟩ := exists_sampleFrame hne
    (show currentTime + (next - currentTime) ≤ buf.available _ by rw [hlen, hsum]; omega)
  rw [hlen, hsum] at hf
  exact ⟨f, hsamples, by rw [slice_cons, hnext, Option.bind_some, hf, Option.bind_some]⟩

/-- A frame for which there is not enough data is the last one. -/
theorem slice_cons_eq_nil {buf : Buffer} {rails : List MeasuredRail} {t prev : Int}
    {timing : List Int} {currentTime next : Nat} (hrails : rails ≠ [])
    (hnext : endInSamples t = some next) (htime : currentTime ≤ buf.available rails.length)
    (hdata : buf.available rails.length < next) :
    slice buf rails (frameDurations prev (t :: timing)) currentTime prev = some [] := by
  have hlen : (Frame.start rails).rails.length = rails.length := List.length_map _
  have hne : (Frame.start rails).rails ≠ [] := by
    rw [Frame.start, ne_eq, List.map_eq_nil_iff]
    exact hrails
  have hf := @sampleFrame_eq_none buf (next - currentTime) currentTime _ hne
    (by rw [hlen]; exact htime) (by rw [hlen]; omega)
  rw [hlen] at hf
  rw [slice_cons, hnext, Option.bind_some, hf, Option.bind_some]

/-- Whatever `mTiming` holds, the buffer is not left and no sample is used twice: the frames share
    the samples from `currentTime` on among them, in their order. -/
theorem slice_samples {buf : Buffer} {rails : List MeasuredRail} {timing : List Int}
    {currentTime : Nat} {prev : Int} (hrails : rails ≠ [])
    (htime : currentTime ≤ buf.available rails.length)
    (hends : ∀ t ∈ timing, (endInSamples t).isSome) :
    ∃ fs n, slice buf rails (frameDurations prev timing) currentTime prev = some fs ∧
      fs.flatMap Frame.samples = List.range' currentTime n ∧
      currentTime + n ≤ buf.available rails.length := by
  induction timing generalizing currentTime prev with
  | nil => exact ⟨[], 0, rfl, rfl, htime⟩
  | cons t timing ih =>
    rw [List.forall_mem_cons] at hends
    obtain ⟨next, hnext⟩ := Option.isSome_iff_exists.mp hends.1
    by_cases hdata : next ≤ buf.available rails.length
    · obtain ⟨f, hsamples, hslice⟩ :=
        @exists_slice_cons _ _ _ prev timing _ _ hrails hnext htime hdata
      obtain ⟨fs, n, hfs, hrest, hle⟩ := @ih _ t (max_le htime hdata) hends.2
      refine ⟨f :: fs, next - currentTime + n, by rw [hslice, hfs]; rfl, ?_, by omega⟩
      have hnow : max currentTime next = currentTime + (next - currentTime) := by omega
      rw [List.flatMap_cons, hsamples, hrest, hnow, List.range'_append_1]
    · exact ⟨[], 0, slice_cons_eq_nil hrails hnext htime (by omega), rfl, htime⟩

/-! ## The frames and their durations -/

@[simp] theorem frameEnd_zero (durations : List Nat) : frameEnd durations 0 = 0 := by
  simp [frameEnd]

theorem frameEnd_mono {durations : List Nat} {j k : Nat} (h : j ≤ k) :
    frameEnd durations j ≤ frameEnd durations k := by
  have hprefix : (durations.take j).sum ≤ (durations.take k).sum := by
    rw [← Nat.sub_add_cancel h, Nat.add_comm, List.take_add, List.sum_append]
    exact Nat.le_add_right _ _
  exact Nat.div_le_div_right hprefix

theorem lt_length_takeWhile_range' {p : Nat → Bool} {s n k : Nat} :
    k < ((List.range' s n).takeWhile p).length ↔ k < n ∧ ∀ j ≤ k, p (s + j) = true := by
  induction n generalizing s k with
  | zero => simp
  | succ n ih =>
    rw [List.range'_succ, List.takeWhile_cons]
    cases hp : p s with
    | false =>
      refine iff_of_false (Nat.not_lt_zero k) fun h => ?_
      have hzero := h.2 0 (Nat.zero_le k)
      rw [Nat.add_zero, hp] at hzero
      cases hzero
    | true =>
      cases k with
      | zero => simp [hp]
      | succ k =>
        rw [if_pos rfl, List.length_cons, Nat.succ_lt_succ_iff, Nat.succ_lt_succ_iff, ih]
        refine and_congr_right fun _ => ⟨fun h j hj => ?_, fun h j hj => ?_⟩
        · cases j with
          | zero => exact hp
          | succ j =>
            rw [Nat.add_succ, ← Nat.succ_add]
            exact h j (Nat.le_of_succ_le_succ hj)
        · rw [Nat.succ_add, ← Nat.add_succ]
          exact h (j + 1) (Nat.succ_le_succ hj)

/-- The whole frames are the first ones. -/
theorem lt_wholeFrames_iff {n : Nat} {durations : List Nat} {k : Nat} :
    k < wholeFrames n durations ↔ k < durations.length ∧ frameEnd durations (k + 1) ≤ n := by
  rw [wholeFrames, List.range_eq_range', lt_length_takeWhile_range']
  refine and_congr_right fun _ => ⟨fun h => ?_, fun h j hj => ?_⟩
  · have hk := h k (le_refl k)
    rw [Nat.zero_add] at hk
    exact of_decide_eq_true hk
  · rw [Nat.zero_add]
    exact decide_eq_true ((frameEnd_mono (Nat.succ_le_succ hj)).trans h)

/-- The whole frames end where there is data. -/
theorem frameEnd_wholeFrames_le {n : Nat} {durations : List Nat} :
    frameEnd durations (wholeFrames n durations) ≤ n := by
  cases hwhole : wholeFrames n durations with
  | zero => simp
  | succ k =>
    have hlt : k < wholeFrames n durations := by omega
    exact (lt_wholeFrames_iff.mp hlt).2

/-- Without samples in the frames, the slicing is right if no frame that lasts a sample is whole. -/
theorem attributed_iff_of_empty {n : Nat} {durations : List Nat} {fs : List Frame}
    (hempty : ∀ f ∈ fs, f.samples = []) :
    Attributed n durations fs ↔ ∀ k, frameEnd durations k = 0 ∨ n < frameEnd durations k := by
  have hnone : ∀ k s : Nat, ¬ ∃ f : Frame, fs[k]? = some f ∧ s ∈ f.samples := by
    rintro k s ⟨f, hf, hs⟩
    rw [hempty f (List.mem_of_getElem? hf)] at hs
    cases hs
  have hadded : numSamples fs = [] := by
    have hresults : fs.flatMap Frame.results = [] := by
      rw [List.flatMap_eq_nil_iff]
      intro f hf
      rw [Frame.results, if_pos (hempty f hf)]
    rw [numSamples, hresults]
    rfl
  have hsamples : fs.flatMap Frame.samples = [] := by
    rw [List.flatMap_eq_nil_iff]
    exact hempty
  constructor
  · intro h k
    induction k with
    | zero => exact Or.inl (frameEnd_zero durations)
    | succ k ih =>
      by_contra hnot
      rw [not_or, not_lt] at hnot
      -- the frame before this one ends at zero, so this one is whole and has the first sample
      have hzero : frameEnd durations k = 0 := by
        have hle : frameEnd durations k ≤ frameEnd durations (k + 1) :=
          frameEnd_mono (Nat.le_succ k)
        omega
      have hk : k < durations.length := by
        by_contra hbeyond
        have hsame : durations.take (k + 1) = durations.take k := by
          rw [List.take_of_length_le (by omega), List.take_of_length_le (by omega)]
        rw [frameEnd, hsame] at hnot
        exact hnot.1 hzero
      refine hnone k 0 ((h.slices k 0).mpr ⟨lt_wholeFrames_iff.mpr ⟨hk, hnot.2⟩, ?_, ?_⟩)
      · exact hzero.le
      · exact Nat.pos_of_ne_zero hnot.1
  · intro h
    refine ⟨fun k s => iff_of_false (hnone k s) ?_, ?_, ?_⟩
    · rintro ⟨hk, -, hs⟩
      have hle := (lt_wholeFrames_iff.mp hk).2
      have hshort := h (k + 1)
      omega
    · rw [hsamples]
      exact List.nodup_nil
    · have hle := @frameEnd_wholeFrames_le n durations
      have hshort := h (wholeFrames n durations)
      rw [hadded, List.sum_nil]
      omega

/-! ## When the frames are right -/

/-- A list of durations is zeros and then, maybe, a first duration that is not zero. -/
theorem exists_zeros (durations : List Nat) :
    ∃ m rest, durations = List.replicate m 0 ++ rest ∧
      (rest = [] ∨ ∃ d ds, rest = d :: ds ∧ d ≠ 0) := by
  induction durations with
  | nil => exact ⟨0, [], rfl, Or.inl rfl⟩
  | cons d ds ih =>
    by_cases hd : d = 0
    · obtain ⟨m, rest, rfl, hrest⟩ := ih
      exact ⟨m + 1, rest, by rw [hd, List.replicate_succ, List.cons_append], hrest⟩
    · exact ⟨0, d :: ds, rfl, Or.inr ⟨d, ds, rfl, hd⟩⟩

/-- The first of these durations. -/
theorem find?_zeros (m : Nat) (rest : List Nat) :
    (List.replicate m 0 ++ rest).find? (· ≠ 0) = rest.find? (· ≠ 0) := by
  rw [List.find?_append, List.find?_replicate]
  simp

/-- The zeros give frames without samples. -/
theorem exists_slice_zeros {buf : Buffer} {rails : List MeasuredRail} (hrails : rails ≠ [])
    (m : Nat) (timing : List Int) :
    ∃ fs : List Frame, fs.length = m ∧ (∀ f ∈ fs, f.samples = []) ∧
      slice buf rails (frameDurations 0 (List.replicate m 0 ++ timing)) 0 0 =
        (slice buf rails (frameDurations 0 timing) 0 0).map (fs ++ ·) := by
  induction m with
  | zero => exact ⟨[], rfl, fun f hf => absurd hf List.not_mem_nil, by simp⟩
  | succ m ih =>
    obtain ⟨fs, hlen, hempty, hslice⟩ := ih
    have hzero : endInSamples 0 = some 0 := by decide
    obtain ⟨f, hsamples, hcons⟩ := @exists_slice_cons buf rails 0 0
      (List.replicate m 0 ++ timing) 0 0 hrails hzero (Nat.zero_le _) (Nat.zero_le _)
    refine ⟨f :: fs, by rw [List.length_cons, hlen],
      List.forall_mem_cons.mpr ⟨hsamples, hempty⟩, ?_⟩
    rw [List.replicate_succ, List.cons_append, hcons, Nat.max_self, hslice, Option.map_map]
    rfl

/-- A first frame whose duration is taken for seconds has samples that are not its own. -/
theorem not_attributed_beyond {n m d : Nat} {ds : List Nat} (hd : d ≠ 0) {zeros fs : List Frame}
    {f : Frame} (hlen : zeros.length = m) (hsamples : f.samples = List.range' 0 (d * 10000)) :
    ¬ Attributed n (List.replicate m 0 ++ d :: ds) (zeros ++ f :: fs) := by
  intro hattributed
  have hat : (zeros ++ f :: fs)[m]? = some f := by
    rw [List.getElem?_append_right hlen.le, hlen, Nat.sub_self]
    rfl
  have hmem : d * 10000 - 1 ∈ f.samples := by
    rw [hsamples, List.mem_range'_1]
    omega
  obtain ⟨-, -, hlt⟩ := (hattributed.slices m (d * 10000 - 1)).mp ⟨f, hat, hmem⟩
  have hend : frameEnd (List.replicate m 0 ++ d :: ds) (m + 1) = d / 100 := by
    rw [frameEnd, List.take_append]
    simp
  omega

theorem endInSamples_of_lt {d : Nat} (h : d * 10000 < 2 ^ 32) :
    endInSamples (Int.ofNat d) = some (d * 10000) := by
  have hfits : 0 ≤ (d : Int) ∧ (d : Int) * 10000 < 2 ^ 32 := by omega
  rw [endInSamples, Int.ofNat_eq_natCast, if_pos hfits]
  rfl

theorem endInSamples_of_not_lt {d : Nat} (h : ¬ d * 10000 < 2 ^ 32) :
    endInSamples (Int.ofNat d) = none := by
  have hfits : ¬ (0 ≤ (d : Int) ∧ (d : Int) * 10000 < 2 ^ 32) := by omega
  rw [endInSamples, Int.ofNat_eq_natCast, if_neg hfits]

/-- `stop()` attributes the samples to their frames if and only if there is nothing to
    attribute. -/
theorem attributed_iff {rails : List MeasuredRail} (hrails : rails ≠ []) (buf : Buffer)
    (durations : List Nat) :
    (∃ fs, frames rails buf (durations.map Int.ofNat) = some fs ∧
      Attributed (buf.available rails.length) durations fs) ↔
    NothingToAttribute (buf.available rails.length) durations := by
  obtain ⟨m, rest, rfl, hrest⟩ := exists_zeros durations
  set n := buf.available rails.length with hn
  have hmap : (List.replicate m 0 ++ rest).map Int.ofNat =
      List.replicate m 0 ++ rest.map Int.ofNat := by
    rw [List.map_append, List.map_replicate]
    rfl
  obtain ⟨zeros, hlen, hempty, hslice⟩ :=
    @exists_slice_zeros buf rails hrails m (rest.map Int.ofNat)
  have hcond : NothingToAttribute n (List.replicate m 0 ++ rest) ↔
      (∀ k, frameEnd (List.replicate m 0 ++ rest) k = 0 ∨
        n < frameEnd (List.replicate m 0 ++ rest) k) ∧
      ∀ d ∈ rest.find? (· ≠ 0), n < d * 10000 ∧ d * 10000 < 2 ^ 32 := by
    rw [← find?_zeros m rest]
    exact ⟨fun h => ⟨h.1, h.2⟩, fun h => ⟨h.1, h.2⟩⟩
  rw [hcond, frames, hmap, hslice]
  rcases hrest with rfl | ⟨d, ds, rfl, hd⟩
  · -- every duration is zero
    have hnil : slice buf rails (frameDurations 0 (([] : List Nat).map Int.ofNat)) 0 0 = some [] :=
      rfl
    rw [hnil, Option.map_some, List.append_nil, ← attributed_iff_of_empty hempty]
    simp
  · have hfirst : ((d :: ds).find? (· ≠ 0)) = some d := List.find?_cons_of_pos (by simpa using hd)
    have hone : (∀ d' ∈ (d :: ds).find? (· ≠ 0), n < d' * 10000 ∧ d' * 10000 < 2 ^ 32) ↔
        n < d * 10000 ∧ d * 10000 < 2 ^ 32 := by
      rw [hfirst]
      simp
    rw [hone, List.map_cons]
    by_cases hfits : d * 10000 < 2 ^ 32
    · have hnext : endInSamples (Int.ofNat d) = some (d * 10000) := endInSamples_of_lt hfits
      by_cases hlong : n < d * 10000
      · -- the loops end at this frame, before any sample
        have hstop := @slice_cons_eq_nil buf rails _ 0 (ds.map Int.ofNat) 0 _ hrails hnext
          (Nat.zero_le _) hlong
        rw [hstop, Option.map_some, List.append_nil, ← attributed_iff_of_empty hempty,
          and_iff_left ⟨hlong, hfits⟩]
        simp
      · -- this frame gets samples beyond its end
        refine iff_of_false ?_ fun h => hlong h.2.1
        rintro ⟨fs, hfs, hattributed⟩
        obtain ⟨f, hsamples, hcons⟩ := @exists_slice_cons buf rails _ 0 (ds.map Int.ofNat) 0 _
          hrails hnext (Nat.zero_le _) (not_lt.mp hlong)
        rw [hcons, Option.map_map] at hfs
        obtain ⟨fs', -, rfl⟩ := Option.map_eq_some_iff.mp hfs
        exact not_attributed_beyond hd hlen hsamples hattributed
    · refine iff_of_false ?_ fun h => hfits h.2.2
      rintro ⟨fs, hfs, -⟩
      have hnone : endInSamples (Int.ofNat d) = none := endInSamples_of_not_lt hfits
      rw [slice_cons, hnone] at hfs
      cases hfs

def singleRail : List MeasuredRail := [⟨"vdd".toList, 20⟩]

/-- 200 samples of one rail. -/
def received : Buffer := ⟨List.replicate 400 0, by rw [List.length_replicate]; decide⟩

/-- There is nothing to attribute to frames of which none lasts a sample. -/
theorem attributed_short_frames :
    singleRail ≠ [] ∧
    ((∃ fs, frames singleRail received ([0, 50].map Int.ofNat) = some fs ∧
      Attributed (received.available singleRail.length) [0, 50] fs) ↔
    NothingToAttribute (received.available singleRail.length) [0, 50]) := by
  have hrails : singleRail ≠ [] := by decide
  exact ⟨hrails, attributed_iff hrails received [0, 50]⟩

/-- A frame of 16667 us has 166 of the 200 samples, and it gets none. -/
theorem not_attributed_sixtieth :
    ¬ ∀ rails, rails ≠ [] → ∀ (buf : Buffer) (durations : List Nat),
      ∃ fs, frames rails buf (durations.map Int.ofNat) = some fs ∧
        Attributed (buf.available rails.length) durations fs := by
  intro hall
  have hrails : singleRail ≠ [] := by decide
  have havailable : received.available singleRail.length = 200 := by
    rw [Buffer.available, received, List.length_replicate]
    rfl
  have hnext : endInSamples (Int.ofNat 16667) = some 166670000 := endInSamples_of_lt (by decide)
  have hstop : frames singleRail received ([16667].map Int.ofNat) = some [] :=
    slice_cons_eq_nil hrails hnext (Nat.zero_le _) (by rw [havailable]; decide)
  obtain ⟨fs, hfs, hattributed⟩ := hall singleRail hrails received [16667]
  rw [hstop] at hfs
  obtain rfl := Option.some.inj hfs
  have hshort := (attributed_iff_of_empty fun f hf => absurd hf List.not_mem_nil).mp hattributed 1
  rw [havailable] at hshort
  exact absurd hshort (by decide)

end LibCollector.Power
