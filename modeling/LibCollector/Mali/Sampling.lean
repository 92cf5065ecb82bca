import LibCollector.Mali.Counters
import LibCollector.Mali.Session
import LibCollector.Misc.Run
import Mathlib.Data.Finset.Card
import Mathlib.Data.Finset.Dedup
import Mathlib.Order.Interval.Finset.Nat

/-!
# Runs of the Mali collector

`start` and `collect` of `MaliCounterCollector` of `src/collectors/mali_counters.cpp`, and
`MaliHWCReader::wait_next_event` of `src/collectors/hwcpipe.cpp`. Only `start` waits for an event of
the device, and so all samples between two starts are samples of one event
(`MaliRun.samples_of_event`).
-/

namespace LibCollector.Mali

open LibCollector.Misc

/-! ## Events -/

/-- What the calls of `wait_next_event` answer: `poll` fails, or there is nothing to read, or no
    buffer, or there is a buffer with its words, that can be put back or not. -/
inductive Event where
  | pollFailed
  | notReady
  | noBuffer
  | sampled (buffer_idx : BitVec 32) (words : Nat → BitVec 32) (put : Bool)

/-- The event has samples. -/
def Event.hasSamples : Event → Bool
  | .sampled .. => true
  | _ => false

/-- `MaliHWCReader::wait_next_event`. A copy that leaves the mapping or `counter_buffer` is
    undefined. -/
def MaliHWCReader.wait_next_event (r : MaliHWCReader) : Event → Option (Bool × MaliHWCReader)
  | .sampled buffer_idx words put =>
    if (r.buffer_size * buffer_idx).toNat + r.buffer_size.toNat ≤
        (ReaderSession.mapLength r).toNat ∧ r.buffer_size.toNat ≤ 4 * r.counter_buffer.length then
      some (put, { r with counter_buffer := (List.range r.counter_buffer.length).map words })
    else none
  | _ => some (false, r)

/-- `MaliCounterCollector::start`. The counters are read once before the event. -/
def MaliCounterCollector.start (c : MaliCounterCollector) (event : Event) :
    Option (Bool × MaliCounterCollector) :=
  if !c.info.valid then some (false, c)
  else
    (c.counters.mapM fun counter =>
      MaliCounterCollector.readCounter c.counter_reader counter).bind fun _ =>
    (c.counter_reader.wait_next_event event).map fun waited =>
      (waited.1, { c with counter_reader := waited.2 })

/-! ## The first samples -/

namespace MaliHWCReader

variable {dev : ReaderAnswers} {devs : Nat → ReaderAnswers} {buffer_count : BitVec 32}
  {r r' : MaliHWCReader} {hw_info : MaliHWInfo}

theorem mem_resize {buffer : List (BitVec 32)} {size : Nat} {value : BitVec 32}
    (h : value ∈ resize buffer size) : value ∈ buffer ∨ value = 0 := by
  rcases List.mem_append.mp h with hold | hnew
  · exact Or.inl (List.mem_of_mem_take hold)
  · exact Or.inr (List.eq_of_mem_replicate hnew)

theorem mem_setUp {value : BitVec 32}
    (h : value ∈ (setUp dev buffer_count r).2.counter_buffer) :
    value ∈ r.counter_buffer ∨ value = 0 := by
  unfold setUp at h
  dsimp only at h
  repeat' split at h
  all_goals first
    | exact Or.inl h
    | exact mem_resize h

theorem InitReturns.mem {success : Bool} (h : InitReturns dev buffer_count r (success, r'))
    {value : BitVec 32} (hvalue : value ∈ r'.counter_buffer) :
    value ∈ r.counter_buffer ∨ value = 0 := by
  have hset := @mem_setUp dev buffer_count r value
  unfold InitReturns at h
  split at h
  all_goals
    rename_i r₁ heq
    rw [heq] at hset
  · cases h
    exact hset hvalue
  · obtain ⟨_, _, h⟩ := h
    cases h
    exact hset hvalue

/-- Before the first event the samples are zeros. -/
theorem Constructed.zero (h : Constructed devs hw_info r) :
    ∀ value ∈ r.counter_buffer, value = 0 := by
  have hattempts : ∀ {i : Nat} {r r' : MaliHWCReader}, Attempts devs i r r' →
      (∀ value ∈ r.counter_buffer, value = 0) → ∀ value ∈ r'.counter_buffer, value = 0 := by
    intro i r r' hattempts
    induction hattempts with
    | finished _ => exact id
    | attempt _ _ hinit _ ih =>
      exact fun hzero => ih fun value hvalue => (hinit.mem hvalue).elim (hzero value) id
  unfold Constructed at h
  split at h
  · exact hattempts h (by simp)
  · subst h
    simp

end MaliHWCReader

/-! ## Runs -/

/-- What a call of `collect` has added, and how it has ended, with the number of events that had
    been read. -/
structure Row where
  events : Nat
  adds : List (Str × BitVec 32)
  ended : Collected

/-- The collector with the rows of its calls. -/
structure MaliRun where
  collector : MaliCounterCollector
  events : Nat := 0
  rows : List Row := []
  exited : Bool := false

/-- A call on the collector. -/
inductive MaliCall where
  | start (event : Event)
  | collect

/-- The calls of `start` that are given an event with samples. -/
def MaliCall.waits : MaliCall → Bool
  | .start event => event.hasSamples
  | .collect => false

namespace MaliRun

/-- A call on the collector, of which there is none after `exit`. -/
def step (s : MaliRun) (call : MaliCall) : Option MaliRun :=
  if s.exited then none
  else match call with
  | .start event =>
    (s.collector.start event).map fun started =>
      { s with
        collector := started.2
        events := if s.collector.info.valid && event.hasSamples then s.events + 1 else s.events }
  | .collect =>
    s.collector.collect.map fun collected =>
      { s with
        rows := s.rows ++ [⟨s.events, collected.1, collected.2⟩]
        exited := collected.2 = .exited }

/-- The rows of the current event are what `collect` would add now, and those of an event are the
    same. -/
structure Inv (s : MaliRun) : Prop where
  le : ∀ row ∈ s.rows, row.events ≤ s.events
  now : ∀ row ∈ s.rows, row.events = s.events → s.collector.collect = some (row.adds, row.ended)
  same : ∀ row ∈ s.rows, ∀ row' ∈ s.rows, row.events = row'.events →
    row.adds = row'.adds ∧ row.ended = row'.ended
  zero : s.events = 0 → ∀ value ∈ s.collector.counter_reader.counter_buffer, value = 0
  unread : s.collector.info.valid = true → ∀ row ∈ s.rows, row.events = 0 → row.ended = .exited

variable {s t : MaliRun} {c c' : MaliCounterCollector} {event : Event} {ok : Bool}

/-- A wait that reads no event leaves the collector as it was. -/
theorem start_eq_some (h : c.start event = some (ok, c')) :
    c'.info = c.info ∧ ((c.info.valid && event.hasSamples) = false → c' = c) := by
  unfold MaliCounterCollector.start at h
  split at h
  · cases h
    exact ⟨rfl, fun _ => rfl⟩
  · rename_i hvalid
    obtain ⟨values, -, h⟩ := Option.bind_eq_some_iff.mp h
    obtain ⟨waited, hwaited, h⟩ := Option.map_eq_some_iff.mp h
    cases h
    refine ⟨rfl, fun hnone => ?_⟩
    have hvalid' : c.info.valid = true := by simpa using hvalid
    have hevent : event.hasSamples = false := by simpa [hvalid'] using hnone
    cases event with
    | sampled => cases hevent
    | _ =>
      cases hwaited
      rfl

/-- A collector that reads zeros ends the process. -/
theorem collect_of_zero {adds : List (Str × BitVec 32)} {ended : Collected}
    (h : c.collect = some (adds, ended)) (hvalid : c.info.valid = true)
    (hzero : ∀ value ∈ c.counter_reader.counter_buffer, value = 0) : ended = .exited := by
  unfold MaliCounterCollector.collect at h
  rw [if_neg (by simp [hvalid])] at h
  obtain ⟨adds', hadds, hended⟩ := Option.bind_eq_some_iff.mp h
  have hall : adds'.all (fun add => add.2 = 0) = true := by
    rw [List.all_eq_true]
    intro add hadd
    rw [mapM_eq_some_iff] at hadds
    obtain ⟨counter, -, hread⟩ := List.mem_map.mp (hadds ▸ List.mem_map_of_mem (f := some) hadd)
    obtain ⟨value, hvalue, rfl⟩ := Option.map_eq_some_iff.mp hread
    refine decide_eq_true (hzero value ?_)
    unfold MaliCounterCollector.readCounter at hvalue
    obtain ⟨start, -, hplace⟩ := Option.bind_eq_some_iff.mp hvalue
    dsimp only at hplace
    split at hplace
    · exact List.mem_of_getElem? hplace
    · cases hplace
  rw [hall, if_pos rfl] at hended
  cases hended
  rfl

theorem Inv.start (h : s.Inv) (hstart : s.collector.start event = some (ok, c')) :
    Inv { s with
      collector := c'
      events := if s.collector.info.valid && event.hasSamples then s.events + 1
        else s.events } := by
  obtain ⟨hinfo, hsame⟩ := start_eq_some hstart
  split
  · refine ⟨fun row hrow => Nat.le_succ_of_le (h.le row hrow), fun row hrow heq => ?_, h.same,
      fun hzero => absurd hzero (Nat.succ_ne_zero _), ?_⟩
    · exact absurd heq (Nat.ne_of_lt (Nat.lt_succ_of_le (h.le row hrow)))
    · rw [hinfo]
      exact h.unread
  · rename_i hnone
    obtain rfl := hsame (by simpa using hnone)
    exact ⟨h.le, h.now, h.same, h.zero, h.unread⟩

theorem Inv.collect (h : s.Inv) {adds : List (Str × BitVec 32)} {ended : Collected}
    (hcollect : s.collector.collect = some (adds, ended)) :
    Inv { s with
      rows := s.rows ++ [⟨s.events, adds, ended⟩]
      exited := ended = .exited } := by
  have hmem : ∀ row, row ∈ s.rows ++ [⟨s.events, adds, ended⟩] →
      row ∈ s.rows ∨ row = ⟨s.events, adds, ended⟩ := by
    intro row hrow
    simpa using hrow
  have hnow : ∀ row ∈ s.rows, row.events = s.events → row.adds = adds ∧ row.ended = ended := by
    intro row hrow heq
    have hsame := (h.now row hrow heq).symm.trans hcollect
    exact Prod.mk.inj (Option.some.inj hsame)
  refine ⟨fun row hrow => ?_, fun row hrow heq => ?_, fun row hrow row' hrow' heq => ?_, h.zero,
    fun hvalid row hrow hunread => ?_⟩
  · rcases hmem row hrow with hold | rfl
    · exact h.le row hold
    · exact Nat.le_refl _
  · rcases hmem row hrow with hold | rfl
    · exact h.now row hold heq
    · exact hcollect
  · rcases hmem row hrow with hold | rfl
    · rcases hmem row' hrow' with hold' | rfl
      · exact h.same row hold row' hold' heq
      · exact hnow row hold heq
    · rcases hmem row' hrow' with hold' | rfl
      · obtain ⟨hadds, hended⟩ := hnow row' hold' heq.symm
        exact ⟨hadds.symm, hended.symm⟩
      · exact ⟨rfl, rfl⟩
  · rcases hmem row hrow with hold | rfl
    · exact h.unread hvalid row hold hunread
    · exact collect_of_zero hcollect hvalid (h.zero hunread)

theorem Inv.step (h : s.Inv) {call : MaliCall} (hstep : s.step call = some t) :
    t.Inv ∧ t.collector.info = s.collector.info ∧ t.events ≤ s.events + call.waits.toNat := by
  unfold MaliRun.step at hstep
  split at hstep
  · cases hstep
  cases call with
  | start event =>
    obtain ⟨⟨ok, c'⟩, hstart, rfl⟩ := Option.map_eq_some_iff.mp hstep
    refine ⟨h.start hstart, (start_eq_some hstart).1, ?_⟩
    dsimp only [MaliCall.waits]
    split
    · rename_i hevent
      rw [((Bool.and_eq_true _ _).mp hevent).2]
      exact Nat.le_refl _
    · exact Nat.le_add_right _ _
  | collect =>
    obtain ⟨⟨adds, ended⟩, hcollect, rfl⟩ := Option.map_eq_some_iff.mp hstep
    exact ⟨h.collect hcollect, rfl, Nat.le_refl _⟩

theorem Inv.run (h : s.Inv) {calls : List MaliCall}
    (hrun : Misc.run MaliRun.step s calls = some t) :
    t.Inv ∧ t.collector.info = s.collector.info ∧
      t.events ≤ s.events + calls.countP MaliCall.waits := by
  induction calls generalizing s with
  | nil =>
    cases hrun
    exact ⟨h, rfl, Nat.le_refl _⟩
  | cons call calls ih =>
    obtain ⟨mid, hmid, hrest⟩ := run_cons_eq_some.mp hrun
    obtain ⟨hinv, hinfo, hle⟩ := h.step hmid
    obtain ⟨hinv', hinfo', hle'⟩ := ih hinv hrest
    refine ⟨hinv', hinfo'.trans hinfo, ?_⟩
    rw [List.countP_cons]
    cases hwaits : call.waits with
    | false =>
      rw [hwaits, Bool.toNat_false] at hle
      simp only [Bool.false_eq_true, if_false]
      omega
    | true =>
      rw [hwaits, Bool.toNat_true] at hle
      rw [if_pos rfl]
      omega

/-- The calls of `collect` that have returned. -/
def returned (s : MaliRun) : List Row := s.rows.filter fun row => row.ended ≠ .exited

/-- The samples that the calls have added for an event. -/
def addsOf (s : MaliRun) (event : Nat) : List (Str × BitVec 32) :=
  ((s.returned.find? fun row => row.events = event).map Row.adds).getD []

theorem addsOf_of_mem (hsame : ∀ row ∈ s.returned, ∀ row' ∈ s.returned,
    row.events = row'.events → row.adds = row'.adds) {row : Row} (hrow : row ∈ s.returned) :
    s.addsOf row.events = row.adds := by
  rw [addsOf]
  cases hfind : s.returned.find? fun row' => row'.events = row.events with
  | none =>
    have hne : ¬ row.events = row.events := by simpa using List.find?_eq_none.mp hfind row hrow
    exact absurd rfl hne
  | some row' =>
    have hevents : row'.events = row.events := by simpa using List.find?_some hfind
    exact hsame row' (List.mem_of_find?_eq_some hfind) row hrow hevents

/-- Where the rows of an event are the same, there are at most as many different ones as events. -/
theorem length_dedup_returned {n : Nat} (hle : ∀ row ∈ s.returned, 1 ≤ row.events ∧ row.events ≤ n)
    (hsame : ∀ row ∈ s.returned, ∀ row' ∈ s.returned, row.events = row'.events →
      row.adds = row'.adds) : (s.returned.map Row.adds).dedup.length ≤ n := by
  have hsub : (s.returned.map Row.adds).toFinset ⊆ (Finset.Icc 1 n).image s.addsOf := by
    intro adds hadds
    obtain ⟨row, hrow, rfl⟩ := List.mem_map.mp (List.mem_toFinset.mp hadds)
    exact Finset.mem_image.mpr
      ⟨row.events, Finset.mem_Icc.mpr (hle row hrow), addsOf_of_mem hsame hrow⟩
  calc (s.returned.map Row.adds).dedup.length
      = (s.returned.map Row.adds).toFinset.card := (List.card_toFinset _).symm
    _ ≤ ((Finset.Icc 1 n).image s.addsOf).card := Finset.card_le_card hsub
    _ ≤ (Finset.Icc 1 n).card := Finset.card_image_le
    _ = n := by simp

/-- Whatever the order of the calls: the samples between two calls of `start` that were given an
    event are all the same, and the calls of `collect` that return have at most as many different
    ones as there are such calls. A call of `collect` before the first of them ends the process.
    An event with a buffer outside the mapping is left out. -/
theorem samples_of_event {devs : Nat → ReaderAnswers} {hw_info : MaliHWInfo}
    (hreader : c.counter_reader.Constructed devs hw_info) (hvalid : c.info.valid = true)
    {calls : List MaliCall} (hrun : Misc.run MaliRun.step { collector := c } calls = some s) :
    (∀ row ∈ s.rows, row.events ≤ calls.countP MaliCall.waits) ∧
      (∀ row ∈ s.rows, ∀ row' ∈ s.rows, row.events = row'.events → row.adds = row'.adds) ∧
      (s.returned.map Row.adds).dedup.length ≤ calls.countP MaliCall.waits ∧
      ∀ row ∈ s.rows, row.events = 0 → row.ended = .exited := by
  have hnew : Inv { collector := c } :=
    ⟨by simp, by simp, by simp, fun _ => hreader.zero, by simp⟩
  obtain ⟨hinv, hinfo, hle⟩ := hnew.run hrun
  rw [Nat.zero_add] at hle
  have hevents : ∀ row ∈ s.rows, row.events ≤ calls.countP MaliCall.waits :=
    fun row hrow => (hinv.le row hrow).trans hle
  have hsame : ∀ row ∈ s.rows, ∀ row' ∈ s.rows, row.events = row'.events → row.adds = row'.adds :=
    fun row hrow row' hrow' heq => (hinv.same row hrow row' hrow' heq).1
  have hunread : ∀ row ∈ s.rows, row.events = 0 → row.ended = .exited := by
    refine hinv.unread ?_
    rw [hinfo]
    exact hvalid
  have hreturned : ∀ row ∈ s.returned, row ∈ s.rows ∧ row.ended ≠ .exited := by
    intro row hrow
    simpa [returned] using hrow
  refine ⟨hevents, hsame, length_dedup_returned (fun row hrow => ?_) fun row hrow row' hrow' =>
    hsame row (hreturned row hrow).1 row' (hreturned row' hrow').1, hunread⟩
  obtain ⟨hmem, hended⟩ := hreturned row hrow
  exact ⟨Nat.one_le_iff_ne_zero.mpr fun hzero => hended (hunread row hmem hzero), hevents row hmem⟩

/-- A collector of one counter, with the reader of a device that gives its samples away at the
    second attempt, and its table of the cores. -/
def gpuActive (remap : List Nat) : MaliCounterCollector where
  info := ⟨true, 1, 0x6956, 0, 0, 1⟩
  counter_reader := {
    hw := ⟨true, 1, 0x6956, 0, 0, 1⟩
    fd := 3
    hwc_fd := 4
    buffer_size := 32
    buffer_count := 2
    hw_ver := 5
    sample_data := .mapped
    counter_buffer := List.replicate 8 0
    names_lut := some .t60x
    alive := true
    core_index_remap := remap }
  counters := [⟨"JM_T60x_GPU_ACTIVE".toList, .MALI_NAME_BLOCK_JM, 6, -1⟩]

/-- Two frames after one start. -/
theorem samples_of_event_gpuActive : ∃ remap s,
    Misc.run MaliRun.step { collector := gpuActive remap }
        [.start (.sampled 1 (fun i => BitVec.ofNat 32 (i + 1)) true), .collect, .collect] =
      some s ∧
    (∀ row ∈ s.rows, row.events ≤ [MaliCall.start (.sampled 1
      (fun i => BitVec.ofNat 32 (i + 1)) true), .collect, .collect].countP MaliCall.waits) ∧
    (∀ row ∈ s.rows, ∀ row' ∈ s.rows, row.events = row'.events → row.adds = row'.adds) ∧
    (s.returned.map Row.adds).dedup.length ≤ [MaliCall.start (.sampled 1
      (fun i => BitVec.ofNat 32 (i + 1)) true), .collect, .collect].countP MaliCall.waits ∧
    ∀ row ∈ s.rows, row.events = 0 → row.ended = .exited := by
  obtain ⟨remap, hremap, -⟩ := MaliHWCReader.remap_returns 1 []
  have hreader : (gpuActive remap).counter_reader.Constructed ReaderSession.secondTime
      ⟨true, 1, 0x6956, 0, 0, 1⟩ :=
    .attempt (by decide) rfl rfl
      (.attempt (by decide) rfl ⟨remap, hremap, rfl⟩ (.finished (by simp)))
  exact ⟨remap, _, rfl, samples_of_event hreader rfl rfl⟩

end MaliRun

end LibCollector.Mali
