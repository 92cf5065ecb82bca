import LibCollector.Interface.Value

/-!
# Generic collectors

`Collector` of `src/interface.hpp`, for a collector that keeps its data with
`Collector::add` and does not override what the base class does with it. What a
sample adds is an input; `Grown` says what a collector is after a number of additions.
-/

namespace LibCollector.Interface

open LibCollector.Misc

/-- What one call of `add` is given. -/
abbrev Added := Str × Number

/-- The numbers that are added under a key. -/
def valuesUnder (key : Str) (adds : List Added) : List Number :=
  adds.filterMap fun a => if a.1 = key then some a.2 else none

@[simp] theorem valuesUnder_nil (key : Str) : valuesUnder key [] = [] := rfl

@[simp] theorem valuesUnder_append (key : Str) (adds adds' : List Added) :
    valuesUnder key (adds ++ adds') = valuesUnder key adds ++ valuesUnder key adds' :=
  List.filterMap_append

/-- The members of `Collector`; `thread` tells whether the thread can be joined, and
    `mCustomResult` is `none` for an empty value. -/
structure Collector (J : Type) where
  mIsThreaded : Bool := false
  mSampleRate : Int := 100
  mIsSummarized : Bool := false
  mCollecting : Bool := false
  thread : Bool := false
  mResults : OrdMap Str CollectorValueList := ∅
  mCustomResult : Option J := none
  deriving DecidableEq

namespace Collector

variable {J : Type}

/-- `Collector::add`. -/
def add (a : Added) (c : Collector J) : Option (Collector J) :=
  (((c.mResults.find? a.1).getD {}).pushBack a.2).map fun l =>
    { c with mResults := c.mResults.insert a.1 l }

/-- The calls of `add` that one `collect()` makes. -/
def addAll (adds : List Added) (c : Collector J) : Option (Collector J) :=
  adds.foldlM (fun c a => c.add a) c

/-- `Collector::summarize`. -/
def summarize (c : Collector J) : Option (Collector J) :=
  (c.mResults.mapM CollectorValueList.summarize).map fun results =>
    { c with mResults := results, mIsSummarized := true }

/-- `Collector::clear`. -/
def clear (c : Collector J) : Collector J :=
  { c with mResults := c.mResults.mapVal fun _ l => l.clear }

/-- `Collector::useThreading`. -/
def useThreading (sampleRate : Int) (c : Collector J) : Option (Collector J) :=
  if c.mCollecting then none else some { c with mIsThreaded := true, mSampleRate := sampleRate }

/-- What `Collection::start` does with a collector whose `start()` returns `ok`. To assign to a
    thread that can be joined ends the process. -/
def launch (ok : Bool) (c : Collector J) : Option (Collector J) :=
  if ok then
    if c.mIsThreaded then
      if c.thread then none else some { c.clear with mCollecting := true, thread := true }
    else some { c.clear with mCollecting := true }
  else some c.clear

/-- `Collector::postprocess`, for what it makes of a series. The series before an empty one have
    been remixed when that one is found. -/
def postprocessBy (remixed : CollectorValueList → Option CollectorValueList) (c : Collector J) :
    Option (Bool × Collector J) :=
  if c.mIsThreaded ∧ c.mIsSummarized = false then
    if ∃ e ∈ c.mResults.entries, e.2.list = [] then
      ((c.mResults.entries.takeWhile fun e => e.2.list ≠ []).mapM fun e => remixed e.2).map
        fun _ => (false, c)
    else (c.mResults.mapM remixed).map fun results => (true, { c with mResults := results })
  else some (true, c)

/-- `Collector::postprocess`. -/
def postprocess (timing : List Int) (c : Collector J) : Option (Bool × Collector J) :=
  c.postprocessBy (CollectorValueList.remixed timing)

/-- What `Collection::stop` does with a collector. To join a thread that cannot be joined is an
    exception. -/
def halt (timing : List Int) (c : Collector J) : Option (Bool × Collector J) :=
  if c.mIsThreaded ∧ c.thread = false then none
  else ({ c with mCollecting := false, thread := false } : Collector J).postprocess timing

/-- The numbers that have been added under a key. -/
def numbersUnder (c : Collector J) (key : Str) : List Number :=
  ((c.mResults.find? key).map CollectorValueList.numbers).getD []

/-- The averages under a key. -/
def summariesUnder (c : Collector J) (key : Str) : List CollectorValue :=
  ((c.mResults.find? key).map CollectorValueList.summaries).getD []

/-! ## Additions -/

/-- The collector `c'` is `c` after the additions `adds`. -/
structure Grown (c : Collector J) (adds : List Added) (c' : Collector J) : Prop where
  mIsThreaded : c'.mIsThreaded = c.mIsThreaded
  mIsSummarized : c'.mIsSummarized = c.mIsSummarized
  thread : c'.thread = c.thread
  mCustomResult : c'.mCustomResult = c.mCustomResult
  numbers : ∀ key, c'.numbersUnder key = c.numbersUnder key ++ valuesUnder key adds
  summaries : ∀ key, c'.summariesUnder key = c.summariesUnder key
  keys : ∀ key, key ∈ c'.mResults.keys ↔ key ∈ c.mResults.keys ∨ valuesUnder key adds ≠ []

theorem Grown.refl (c : Collector J) : Grown c [] c :=
  ⟨rfl, rfl, rfl, rfl, fun _ => (List.append_nil _).symm, fun _ => rfl, by simp⟩

theorem Grown.trans {a b c : Collector J} {adds adds' : List Added} (h : Grown a adds b)
    (h' : Grown b adds' c) : Grown a (adds ++ adds') c := by
  refine ⟨h'.1.trans h.1, h'.2.trans h.2, h'.3.trans h.3, h'.4.trans h.4, fun key => ?_,
    fun key => (h'.6 key).trans (h.6 key), fun key => ?_⟩
  · rw [h'.numbers, h.numbers, valuesUnder_append, List.append_assoc]
  · rw [h'.keys, h.keys, valuesUnder_append, or_assoc]
    simp only [ne_eq, List.append_eq_nil_iff, not_and_or]

theorem grown_add {a : Added} {c c' : Collector J} (h : c.add a = some c') : Grown c [a] c' := by
  obtain ⟨l, hl, rfl⟩ := Option.map_eq_some_iff.mp h
  have hempty : ({} : CollectorValueList).numbers = [] := rfl
  refine ⟨rfl, rfl, rfl, rfl, fun key => ?_, fun key => ?_, fun key => ?_⟩
  · simp only [numbersUnder, OrdMap.find?_insert]
    by_cases hkey : key = a.1
    · subst hkey
      rw [if_pos rfl, Option.map_some, Option.getD_some, CollectorValueList.numbers_pushBack hl]
      cases c.mResults.find? a.1 <;> simp [valuesUnder, hempty]
    · rw [if_neg hkey]
      simp [valuesUnder, Ne.symm hkey]
  · simp only [summariesUnder, OrdMap.find?_insert]
    by_cases hkey : key = a.1
    · subst hkey
      rw [if_pos rfl, Option.map_some, Option.getD_some, CollectorValueList.summaries_pushBack hl]
      cases c.mResults.find? a.1 <;> rfl
    · rw [if_neg hkey]
  · rw [OrdMap.mem_keys_insert]
    by_cases hkey : key = a.1
    · subst hkey
      simp [valuesUnder]
    · simp [valuesUnder, hkey, Ne.symm hkey]

theorem grown_addAll {adds : List Added} {c c' : Collector J} (h : c.addAll adds = some c') :
    Grown c adds c' := by
  induction adds generalizing c with
  | nil =>
    cases h
    exact Grown.refl _
  | cons a adds ih =>
    rw [addAll, List.foldlM_cons] at h
    obtain ⟨c₁, hc₁, hrest⟩ := Option.bind_eq_some_iff.mp h
    exact (grown_add hc₁).trans (ih hrest)

/-! ## The other operations -/

@[simp] theorem numbersUnder_clear (c : Collector J) (key : Str) :
    c.clear.numbersUnder key = [] := by
  simp only [numbersUnder, clear, OrdMap.find?_mapVal, Option.map_map]
  cases c.mResults.find? key with
  | none => rfl
  | some l => exact CollectorValueList.numbers_clear l

@[simp] theorem summariesUnder_clear (c : Collector J) (key : Str) :
    c.clear.summariesUnder key = c.summariesUnder key := by
  simp only [summariesUnder, clear, OrdMap.find?_mapVal, Option.map_map]
  rfl

/-- A launched collector has no numbers, but the keys and the averages of before. -/
structure Launched (c c' : Collector J) : Prop where
  mIsThreaded : c'.mIsThreaded = c.mIsThreaded
  mIsSummarized : c'.mIsSummarized = c.mIsSummarized
  mCustomResult : c'.mCustomResult = c.mCustomResult
  numbers : ∀ key, c'.numbersUnder key = []
  summaries : ∀ key, c'.summariesUnder key = c.summariesUnder key
  keys : c'.mResults.keys = c.mResults.keys

theorem launched_launch {ok : Bool} {c c' : Collector J} (h : c.launch ok = some c') :
    Launched c c' := by
  have hclear : Launched c c.clear :=
    ⟨rfl, rfl, rfl, numbersUnder_clear c, summariesUnder_clear c, OrdMap.keys_mapVal _ _⟩
  unfold launch at h
  split at h
  · split at h
    · split at h
      · cases h
      · cases h
        exact ⟨rfl, rfl, rfl, hclear.numbers, hclear.summaries, hclear.keys⟩
    · cases h
      exact ⟨rfl, rfl, rfl, hclear.numbers, hclear.summaries, hclear.keys⟩
  · cases h
    exact hclear

/-- What `postprocess` can do: the results are not valid, they are remixed, or they are left. -/
theorem postprocess_cases {timing : List Int} {c c' : Collector J} {valid : Bool}
    (h : c.postprocess timing = some (valid, c')) :
    (valid = false ∧ c' = c) ∨
    (valid = true ∧ c.mIsThreaded = true ∧ (∀ e ∈ c.mResults.entries, e.2.list ≠ []) ∧
      ∃ results, c.mResults.mapM (CollectorValueList.remixed timing) = some results ∧
        c' = { c with mResults := results }) ∨
    (valid = true ∧ ¬ (c.mIsThreaded = true ∧ c.mIsSummarized = false) ∧ c' = c) := by
  unfold postprocess postprocessBy at h
  split at h
  · rename_i hthreaded
    split at h
    · obtain ⟨_, -, heq⟩ := Option.map_eq_some_iff.mp h
      cases heq
      exact Or.inl ⟨rfl, rfl⟩
    · rename_i hfull
      obtain ⟨results, hresults, heq⟩ := Option.map_eq_some_iff.mp h
      cases heq
      exact Or.inr (Or.inl ⟨rfl, hthreaded.1, fun e he hnil => hfull ⟨e, he, hnil⟩, results,
        hresults, rfl⟩)
  · rename_i hthreaded
    cases h
    exact Or.inr (Or.inr ⟨rfl, hthreaded, rfl⟩)

/-- A collector after `stop()`, if its results are valid: a threaded one has one number for each
    interval of `timing`. -/
structure Halted (timing : List Int) (c c' : Collector J) : Prop where
  mIsThreaded : c'.mIsThreaded = c.mIsThreaded
  mCustomResult : c'.mCustomResult = c.mCustomResult
  mIsSummarized : c'.mIsSummarized = false
  keys : c'.mResults.keys = c.mResults.keys
  summaries : (∀ key, c.summariesUnder key = []) → ∀ key, c'.summariesUnder key = []
  plain : c.mIsThreaded = false → ∀ key, c'.numbersUnder key = c.numbersUnder key
  threaded : c.mIsThreaded = true → ∀ key ∈ c.mResults.keys,
    c.numbersUnder key ≠ [] ∧
      CollectorValueList.remix timing (c.numbersUnder key) = some (c'.numbersUnder key)

theorem halted_halt {timing : List Int} {c c' : Collector J} (hc : c.mIsSummarized = false)
    (h : c.halt timing = some (true, c')) : Halted timing c c' := by
  unfold halt at h
  split at h
  · cases h
  · rcases postprocess_cases h with ⟨hvalid, -⟩ | ⟨-, hthreaded, hfull, results, hresults, rfl⟩ |
      ⟨-, hplain, rfl⟩
    · cases hvalid
    · have hfind : ∀ key, results.find? key =
          (c.mResults.find? key).bind (CollectorValueList.remixed timing) :=
        OrdMap.find?_mapM hresults
      have hkeys := OrdMap.keys_mapM hresults
      have hseries : ∀ key ∈ c.mResults.keys, ∃ l l', c.mResults.find? key = some l ∧
          results.find? key = some l' ∧ l.remixed timing = some l' := by
        intro key hkey
        obtain ⟨l, hl⟩ := Option.isSome_iff_exists.mp (OrdMap.mem_keys_iff.mp hkey)
        obtain ⟨l', hl'⟩ := Option.isSome_iff_exists.mp
          (OrdMap.mem_keys_iff.mp (hkeys ▸ hkey))
        refine ⟨l, l', hl, hl', ?_⟩
        rw [hfind, hl, Option.bind_some] at hl'
        exact hl'
      refine ⟨rfl, rfl, hc, hkeys, fun _ key => ?_, fun hplain => ?_, fun _ key hkey => ?_⟩
      · by_cases hkey : key ∈ c.mResults.keys
        · obtain ⟨l, l', -, hl', hremixed⟩ := hseries key hkey
          simp only [summariesUnder, hl', Option.map_some, Option.getD_some,
            (CollectorValueList.numbers_remixed hremixed).2]
        · rw [← hkeys, ← OrdMap.find?_eq_none_iff] at hkey
          simp only [summariesUnder, hkey, Option.map_none, Option.getD_none]
      · have hthreaded' : c.mIsThreaded = true := hthreaded
        rw [hthreaded'] at hplain
        cases hplain
      · obtain ⟨l, l', hl, hl', hremixed⟩ := hseries key hkey
        simp only [numbersUnder, hl, hl', Option.map_some, Option.getD_some]
        refine ⟨fun hnil => hfull (key, l) (OrdMap.find?_eq_some_iff.mp hl) ?_,
          (CollectorValueList.numbers_remixed hremixed).1⟩
        exact (CollectorValueList.numbers_eq_nil_iff l).mp hnil
    · exact ⟨rfl, rfl, hc, rfl, fun hsums => hsums, fun _ _ => rfl,
        fun hthreaded => absurd ⟨hthreaded, hc⟩ hplain⟩

/-- What `results()` reports of the series of a collector. -/
def reported (c : Collector J) : OrdMap Str (List Number) :=
  c.mResults.mapVal fun _ l => l.reported

/-- Without averages, the numbers under each key are reported. -/
theorem find?_reported {c : Collector J} {key : Str} (h : c.summariesUnder key = []) :
    c.reported.find? key =
      if key ∈ c.mResults.keys then some (c.numbersUnder key) else none := by
  rw [reported, OrdMap.find?_mapVal]
  cases hl : c.mResults.find? key with
  | none =>
    rw [if_neg (OrdMap.find?_eq_none_iff.mp hl)]
    rfl
  | some l =>
    have hkey : key ∈ c.mResults.keys := OrdMap.mem_keys_iff.mpr (by rw [hl]; rfl)
    have hsums : l.summaries = [] := by
      rw [summariesUnder, hl] at h
      exact h
    rw [if_pos hkey, Option.map_some, CollectorValueList.reported_eq_numbers hsums, numbersUnder,
      hl]
    rfl

end Collector

end LibCollector.Interface
