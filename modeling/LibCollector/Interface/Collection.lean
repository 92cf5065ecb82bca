import LibCollector.Interface.Collector
import LibCollector.Misc.Run

/-!
# Collections

`Collection` of `src/interface.cpp`: `start`, `collect`, `summarize`, `stop` and
`results`, as a machine over the collection. The clock, the outcomes of the
collectors' `start()` and what their samples add are inputs; a round of the loop of a
threaded collector is a step of its own. The per-API mode of the perf collector, the
writers of CSV and JSON files and debug output are left out.
-/

namespace LibCollector.Interface

open LibCollector.Misc

/-- The members of `Collection`. A collector is stored under its name, which also stands for the
    pointers to it. `J` is the type of JSON values. -/
structure Collection (J : Type) where
  running : Bool := false
  mConfig : OrdMap Str J := ∅
  mCollectors : OrdMap Str (Collector J)
  mRunning : List Str := []
  mTiming : List Int := []
  mTimingSummarized : List Int := []
  mCustom : List (List Int) := []
  mCustomSummarized : List (List Int) := []
  mCustomHeaders : List Str := []
  mStartTime : Int := 0
  mPreviousTime : Int := 0
  deriving DecidableEq

/-- A sampling step: a `collect()` call at a time, with what each collector that is not threaded
    adds during it, or a round of the loop of a threaded collector. -/
inductive Sampling where
  | collect (now : Int) (custom : List Int) (adds : Str → List Added)
  | loop (name : Str) (adds : List Added)

/-- A call on the collection. `start()` is given the headers, the time, and the outcome of each
    collector's `start()`. -/
inductive Op where
  | start (headers : List Str) (now : Int) (ok : Str → Bool)
  | sample (s : Sampling)
  | summarize
  | stop

/-- What `results()` reports for a collector. -/
inductive Report (J : Type) where
  | custom (v : J)
  | series (summarized : Bool) (values : OrdMap Str (List Number))

/-- What `results()` returns. -/
structure Results (J : Type) where
  collectors : OrdMap Str (Report J)
  time : List Int
  samplesPerSecond : Float
  custom : OrdMap Str (List Int)
  customSummarized : Bool
  provenance : Option J

/-- `std::vector::resize`. -/
def resize (l : List (List Int)) (n : Nat) : List (List Int) :=
  l.take n ++ List.replicate (n - l.length) []

/-- The average of a vector of `int64_t`. -/
def average (values : List Int) : Option Int :=
  if values = [] then none else some (values.sum.tdiv values.length)

namespace Collection

variable {J : Type}

/-- `Collection::start`. -/
def start (headers : List Str) (now : Int) (ok : Str → Bool) (s : Collection J) :
    Option (Collection J) :=
  (s.mCollectors.updateAll (fun name c => c.launch (ok name)) s.mRunning).map fun collectors =>
    { s with
      running := true
      mCollectors := collectors
      mTiming := []
      mCustom := List.replicate headers.length []
      mCustomSummarized := resize s.mCustomSummarized headers.length
      mCustomHeaders := headers
      mStartTime := now
      mPreviousTime := now }

/-- `Collection::collect`. -/
def collect (now : Int) (custom : List Int) (adds : Str → List Added) (s : Collection J) :
    Option (Collection J) :=
  (s.mCollectors.updateAll
      (fun name c => if c.mIsThreaded then some c else c.addAll (adds name))
      s.mRunning).bind fun collectors =>
    if custom.length = s.mCustomHeaders.length then
      some { s with
        mCollectors := collectors
        mTiming := s.mTiming ++ [now - s.mPreviousTime]
        mPreviousTime := now
        mCustom := List.zipWith (fun values v => values ++ [v]) s.mCustom custom }
    else none

/-- A round of `Collector::loop`, in the thread of the collector. -/
def loop (name : Str) (adds : List Added) (s : Collection J) : Option (Collection J) :=
  (s.mCollectors.find? name).bind fun c =>
    if c.mIsThreaded ∧ c.thread then
      (c.addAll adds).map fun c' => { s with mCollectors := s.mCollectors.insert name c' }
    else none

/-- A sampling step. -/
def sample (s : Collection J) : Sampling → Option (Collection J)
  | .collect now custom adds => s.collect now custom adds
  | .loop name adds => s.loop name adds

/-- `Collection::summarize`. -/
def summarize (s : Collection J) : Option (Collection J) :=
  (s.mCollectors.mapM Collector.summarize).bind fun collectors =>
    (average s.mTiming).bind fun time =>
      (s.mCustom.mapM average).map fun custom =>
        { s with
          mCollectors := collectors
          mTiming := []
          mTimingSummarized := s.mTimingSummarized ++ [time]
          mCustom := s.mCustom.map fun _ => []
          mCustomSummarized := List.zipWith (fun values v => values ++ [v]) s.mCustomSummarized
            custom }

/-- `Collection::stop`. Collectors whose results are not valid are no longer running. -/
def stop (s : Collection J) : Option (Collection J) :=
  (s.mCollectors.updateAll (fun _ c => (c.halt s.mTiming).map Prod.snd) s.mRunning).map
    fun collectors =>
      { s with
        running := false
        mCollectors := collectors
        mRunning := s.mRunning.filter fun name =>
          ((s.mCollectors.find? name).bind fun c => (c.halt s.mTiming).map Prod.fst) = some true }

/-- A call on the collection; `none` is the end of the process. -/
def step (s : Collection J) : Op → Option (Collection J)
  | .start headers now ok => s.start headers now ok
  | .sample x => s.sample x
  | .summarize => s.summarize
  | .stop => s.stop

/-- The entry of `results()` for a collector. -/
def report (c : Collector J) : Report J :=
  match c.mCustomResult with
  | some v => .custom v
  | none => .series (c.mIsSummarized ∧ c.mResults.entries ≠ []) c.reported

/-- The reported times. -/
def times (s : Collection J) : List Int :=
  if s.mTimingSummarized ≠ [] then s.mTimingSummarized else s.mTiming

/-- The reported custom arrays, in the order of the headers. -/
def customArrays (s : Collection J) : List (List Int) :=
  List.zipWith (fun values averages => if averages ≠ [] then averages else values) s.mCustom
    s.mCustomSummarized

/-- `Collection::results`. -/
def results (s : Collection J) : Results J where
  collectors := s.mRunning.foldl
    (fun m name => ((s.mCollectors.find? name).map fun c => m.insert name (report c)).getD m) ∅
  time := s.times
  samplesPerSecond :=
    Float.ofNat s.times.length / (Float.ofInt s.times.sum / 1000000)
  custom := (s.mCustomHeaders.zip s.customArrays).foldl (fun m e => m.insert e.1 e.2) ∅
  customSummarized := (s.mCustomSummarized.take s.mCustomHeaders.length).any (· ≠ [])
  provenance := s.mConfig.find? "provenance".toList

end Collection

end LibCollector.Interface
