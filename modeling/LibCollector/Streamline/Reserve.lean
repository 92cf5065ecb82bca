import LibCollector.Misc.Run
import LibCollector.Streamline.Annotate

/-!
# Reserved bytes

Whether a function writes at most the bytes that it has reserved (`Bounded`). All but that
for a counter reserve the worst case of every field; the latter misses a byte for each
activity. As long as no function writes more than it reserves, the writer never reaches the
bytes that the sender has still to send (`NeverOverwrites`).
-/

namespace LibCollector.Streamline

open LibCollector.Misc

/-! ## What a function writes -/

/-- The most bytes that a field can take. -/
def Field.max : Field → Nat
  | .time _ => 10
  | .int _ => 5
  | .long _ => 10
  | .color _ => 4
  | .bytes str => str.size.toNat
  | .byte _ => 1

/-- The bytes that a field takes. -/
def Field.count : Field → Nat
  | .time t => Leb128.size 9 t.toInt64.toInt
  | .int x => Leb128.size 4 x.toInt
  | .long x => Leb128.size 9 x.toInt
  | .color _ => 4
  | .bytes str => str.size.toNat
  | .byte _ => 1

namespace Message

/-- How many bytes a function writes into the ring. -/
def written (m : Message) : Nat := 5 + (m.fields.map Field.count).sum

/-- The function does not write outside the ring, and writes at most the bytes that it has
    reserved, unless it writes nothing because the message is too large. -/
def Bounded (m : Message) : Prop :=
  ∀ thread : GatorThread, thread.writePos < threadBufferSize → ¬ m.TooLarge →
    (m.write thread).isSome ∧ m.written ≤ m.bytes

end Message

/-- The numbers in the definition of a counter. -/
def GatorCounter.ints (c : GatorCounter Pointer) : List Int32 :=
  [c.id.toInt32, c.perCpu, c.counterClass.toInt32, c.display.toInt32, c.modifier.toInt32,
    c.seriesComposition.toInt32, c.renderingType.toInt32, c.averageSelection, c.averageCores,
    c.percentage, .ofNat c.activities.length, c.cores.toInt32]

/-- By how much the numbers are shorter than they could be. -/
def GatorCounter.slack (c : GatorCounter Pointer) : Nat :=
  (c.ints.map fun x => 5 - Leb128.size 4 x.toInt).sum

/-- The message is too large, or its size fits into 32 bits and, if it is that of a counter, there
    are not more activities than its numbers are shorter than they could be. -/
def Annotate.Covered (a : Annotate Pointer) : Prop :=
  (a.message []).TooLarge ∨ (a.message []).reserved < 2 ^ 32 ∧
    ∀ c, a = .counter c → c.activities.length ≤ c.slack

/-! ## The writer and the sender -/

/-- A thread, and the message for which its writer has found enough room. -/
structure RingState where
  thread : GatorThread
  pending : Option Message := none

/-- A step of the writer, which asks for room or writes, or of the sender, which has sent some
    bytes. -/
inductive RingAction where
  | wait (m : Message)
  | write
  | send (k : Nat)

namespace RingState

/-- The writer goes on when there is room. The sender sends at most what is used. -/
def step (s : RingState) : RingAction → Option RingState
  | .wait m =>
    if s.pending.isNone ∧ ¬ m.TooLarge ∧ m.WaitEnds s.thread then some { s with pending := some m }
    else some s
  | .write =>
    match s.pending with
    | none => some s
    | some m => (m.write s.thread).map fun thread => { thread := thread, pending := none }
  | .send k =>
    if k ≤ gatorBufUsed s.thread then
      some { s with thread := { s.thread with readPos := gatorBufPos (s.thread.readPos + k) } }
    else some s

/-- A ring between two messages. -/
structure Start (s : RingState) : Prop where
  writePos : s.thread.writePos < threadBufferSize
  readPos : s.thread.readPos < threadBufferSize
  pending : s.pending = none

/-- A message is written outside the bytes that have not been sent, and does not fill the ring. -/
structure WritesFree (m : Message) (s s' : RingState) : Prop where
  room : gatorBufUsed s.thread + m.written < threadBufferSize
  readPos : s'.thread.readPos = s.thread.readPos
  used : gatorBufUsed s'.thread = gatorBufUsed s.thread + m.written
  others : ∀ pos, (∀ k < m.written, Ring.advance threadBufferSize s.thread.writePos k ≠ pos) →
    s'.thread.buf pos = s.thread.buf pos
  apart : ∀ j < gatorBufUsed s.thread, ∀ k < m.written,
    Ring.advance threadBufferSize s.thread.readPos j ≠
      Ring.advance threadBufferSize s.thread.writePos k

/-- No step writes outside the ring or over bytes that have not been sent. -/
def NeverOverwrites (s : RingState) (actions : List RingAction) : Prop :=
  ∀ pre, pre <+: actions → ∃ u, run step s pre = some u ∧
    gatorBufUsed u.thread + gatorBufFree u.thread = threadBufferSize - 1 ∧
    ∀ m, u.pending = some m → ∃ u', u.step .write = some u' ∧ WritesFree m u u'

end RingState

/-! ## Fields -/

theorem Field.count_le_max (f : Field) : f.count ≤ f.max := by
  cases f with
  | time t => exact Leb128.size_le 9 _
  | int x => exact Leb128.size_le 4 _
  | long x => exact Leb128.size_le 9 _
  | color c => exact Nat.le_refl _
  | bytes str => exact Nat.le_refl _
  | byte b => exact Nat.le_refl _

theorem Field.max_le (f : Field) : f.max ≤ 10 * f.count := by
  cases f with
  | time t =>
    simp only [Field.max, Field.count, Leb128.size]
    omega
  | int x =>
    simp only [Field.max, Field.count, Leb128.size]
    omega
  | long x =>
    simp only [Field.max, Field.count, Leb128.size]
    omega
  | color c => exact Nat.le_add_left 4 36
  | bytes str => exact Nat.le_mul_of_pos_left _ (by decide)
  | byte b => exact Nat.le_add_left 1 9

theorem sum_count_le (fields : List Field) :
    (fields.map Field.count).sum ≤ (fields.map Field.max).sum := by
  induction fields with
  | nil => exact Nat.le_refl 0
  | cons f fields ih =>
    have hle := f.count_le_max
    simp only [List.map_cons, List.sum_cons]
    omega

theorem sum_max_le (fields : List Field) :
    (fields.map Field.max).sum ≤ 10 * (fields.map Field.count).sum := by
  induction fields with
  | nil => exact Nat.le_refl 0
  | cons f fields ih =>
    have hle := f.max_le
    simp only [List.map_cons, List.sum_cons]
    omega

/-! ## Strings that are cut -/

/-- The characters of a string that are copied. -/
def Pointer.cut (str : Pointer) : Pointer :=
  some ⟨str.chars.take str.size.toNat, fun h => by
    cases str with
    | none => simp [Pointer.chars] at h
    | some s => exact s.noNul (List.mem_of_mem_take h)⟩

/-- A field with only the characters that are copied. -/
def Field.cut : Field → Field
  | .bytes str => .bytes str.cut
  | f => f

theorem size_le_length (str : Pointer) : str.size.toNat ≤ str.chars.length := by
  rw [Pointer.size, UInt32.toNat_ofNat']
  exact Nat.mod_le _ _

theorem length_chars_cut (f : Field) : f.cut.chars.length = f.count := by
  cases f with
  | time t => exact Leb128.length_encode 9 _
  | int x => exact Leb128.length_encode 4 _
  | long x => exact Leb128.length_encode 9 _
  | color c => rfl
  | bytes str => exact List.length_take_of_le (size_le_length str)
  | byte b => rfl

/-- A copy reads only as many characters as it is told to. -/
theorem gatorBufWriteBytes_take {w : Cursor} (h : w.InRing) {data : List UInt8} {count : UInt32}
    (hle : count.toNat ≤ data.length) :
    gatorBufWriteBytes (data.take count.toNat) (.ofNat (data.take count.toNat).length) w =
      gatorBufWriteBytes data count w := by
  have hcount : UInt32.ofNat (data.take count.toNat).length = count := by
    rw [List.length_take_of_le hle, UInt32.ofNat_toNat]
  have hpos : w.pos < 65536 := h
  have hsize : threadBufferSize = 65536 := rfl
  have hlt := count.toNat_lt
  rw [hcount, gatorBufWriteBytes, gatorBufWriteBytes]
  dsimp only
  by_cases hend : (w.pos + count.toNat) % 2 ^ 32 ≤ threadBufferSize
  · rw [if_pos hend, if_pos hend, List.take_take, Nat.min_self]
  · have hfirst : threadBufferSize - w.pos ≤ count.toNat := by omega
    rw [if_neg hend, if_neg hend, List.take_take, Nat.min_eq_left hfirst, List.drop_take,
      List.take_take, Nat.min_self]

/-- A write passes on only the characters that it copies. -/
theorem Field.write_cut {f : Field} {w : Cursor} (h : w.InRing) : f.cut.write w = f.write w := by
  cases f with
  | bytes str => exact gatorBufWriteBytes_take h (size_le_length str)
  | time t => rfl
  | int x => rfl
  | long x => rfl
  | color c => rfl
  | byte b => rfl

/-- A write ends at a position in the ring. -/
theorem Field.inRing_write {f : Field} {w : Cursor} {r : Cursor × Nat} (h : f.write w = some r) :
    r.1.InRing := by
  have hlt : ∀ pos, gatorBufPos pos < threadBufferSize := fun pos => Nat.mod_lt _ (by decide)
  cases f with
  | time t =>
    cases h
    exact hlt _
  | int x =>
    cases h
    exact hlt _
  | long x =>
    cases h
    exact hlt _
  | color c =>
    cases h
    exact hlt _
  | bytes str =>
    rw [Field.write, gatorBufWriteBytes] at h
    dsimp only at h
    split_ifs at h
    · cases h
      exact hlt _
    · cases h
      exact hlt _
  | byte b =>
    cases h
    exact hlt _

theorem writeFields_cut (fields : List Field) {w : Cursor} (h : w.InRing) (length : Nat) :
    writeFields (fields.map Field.cut) w length = writeFields fields w length := by
  induction fields generalizing w length with
  | nil => rfl
  | cons f fields ih =>
    rw [List.map_cons, writeFields, writeFields, Field.write_cut h]
    cases hwrite : f.write w with
    | none => rfl
    | some r => exact ih (Field.inRing_write hwrite) _

namespace Message

/-- A message with only the characters that are copied. -/
def cut (m : Message) : Message := { m with fields := m.fields.map Field.cut }

theorem write_cut (m : Message) (thread : GatorThread) : m.cut.write thread = m.write thread := by
  have hring : (gatorMsgBegin m.header thread).1.InRing := Nat.mod_lt _ (by decide)
  rw [write, write]
  exact congrArg (Option.map _) (writeFields_cut m.fields hring 0)

theorem size_cut (m : Message) : m.cut.size = m.written := by
  rw [size, payload, written, cut, List.length_flatMap, List.map_map]
  congr 2
  apply List.map_congr_left
  intro f _
  exact length_chars_cut f

/-- A function that writes at most the size of the ring writes from the write position on, and
    adds to it what it has written. -/
theorem write_of_written {m : Message} {thread : GatorThread}
    (h : thread.writePos < threadBufferSize) (hlen : m.written ≤ threadBufferSize) :
    m.write thread = some { thread with
      buf := Ring.put threadBufferSize thread.buf thread.writePos m.cut.chars
      writePos := Ring.advance threadBufferSize thread.writePos m.written } := by
  rw [← size_cut] at hlen ⊢
  rw [← write_cut]
  exact write_eq h hlen

end Message

/-! ## What is reserved -/

/-- The bytes that are not reserved although they are written. -/
def Annotate.missing : Annotate Pointer → Nat
  | .counter c => c.activities.length
  | _ => 0

theorem activitySize_eq (activities : List (Pointer × UInt32)) :
    activitySize activities + activities.length =
      ((activities.flatMap fun activity =>
        [Field.bytes activity.1, .byte 0, .color activity.2]).map Field.max).sum := by
  have hfold : ∀ (activities : List (Pointer × UInt32)) (size : Nat),
      activities.foldl (fun size activity => size + activity.1.size.toNat + sizeColor) size +
        activities.length =
      size + ((activities.flatMap fun activity =>
        [Field.bytes activity.1, .byte 0, .color activity.2]).map Field.max).sum := by
    intro activities
    induction activities with
    | nil => exact fun size => rfl
    | cons activity activities ih =>
      intro size
      have hrest := ih (size + activity.1.size.toNat + sizeColor)
      rw [List.foldl_cons, List.flatMap_cons, List.map_append, List.sum_append, List.length_cons]
      simp only [List.map_cons, List.map_nil, List.sum_cons, List.sum_nil, Field.max] at hrest ⊢
      rw [sizeColor] at *
      omega
  have hzero := hfold activities 0
  rw [Nat.zero_add] at hzero
  exact hzero

theorem sum_max_dependencies (dependencies : List UInt32) :
    ((dependencies.map fun d => Field.int d.toInt32).map Field.max).sum =
      dependencies.length * 5 := by
  induction dependencies with
  | nil => rfl
  | cons d dependencies ih =>
    rw [List.map_cons, List.map_cons, List.sum_cons, ih, List.length_cons, Field.max]
    omega

/-- All functions reserve the worst case of every field, apart from what is missing. -/
theorem reserved_add (a : Annotate Pointer) (image : List UInt8) :
    (a.message image).reserved + a.missing =
      5 + ((a.message image).fields.map Field.max).sum := by
  cases a with
  | counter c =>
    have hactivities := activitySize_eq c.activities
    simp only [Annotate.message, gatorAnnotateWriteCounter, Annotate.missing, List.map_append,
      List.sum_append, List.map_cons, List.map_nil, List.sum_cons, List.sum_nil, Field.max,
      maxsizePackInt, sizeColor]
    omega
  | camJob viewUid jobUid name track startTime duration c primaryDependency dependencies =>
    simp only [Annotate.message, gatorCamJob, Annotate.missing, List.map_append, List.sum_append,
      sum_max_dependencies, List.map_cons, List.map_nil, List.sum_cons, List.sum_nil, Field.max,
      maxsizePackInt, maxsizePackLong, sizeColor]
    omega
  | camJobSetDependencies viewUid jobUid time primaryDependency dependencies =>
    simp only [Annotate.message, gatorCamJobSetDependencies, Annotate.missing, List.map_append,
      List.sum_append, sum_max_dependencies, List.map_cons, List.map_nil, List.sum_cons,
      List.sum_nil, Field.max, maxsizePackInt, maxsizePackLong]
    omega
  | _ =>
    -- The other messages are a list of fields.
    simp only [Annotate.message, gatorAnnotateStr, gatorAnnotateColor, gatorAnnotateNameChannel,
      gatorAnnotateNameGroup, gatorAnnotateVisual, gatorAnnotateMarker, gatorAnnotateMarkerColor,
      gatorAnnotateCounterValue, gatorAnnotateActivitySwitch, gatorAnnotateWriteCamTrack,
      gatorCamJobStart, gatorCamJobStop, gatorAnnotateWriteCamName, Annotate.missing, List.map_cons,
      List.map_nil, List.sum_cons, List.sum_nil, Field.max, maxsizePackInt, maxsizePackLong,
      sizeColor]
    omega

/-- By how much the fields of a counter are shorter than they could be. -/
theorem sum_count_counter (c : GatorCounter Pointer) :
    ((gatorAnnotateWriteCounter c).fields.map Field.count).sum + c.slack =
      ((gatorAnnotateWriteCounter c).fields.map Field.max).sum := by
  have hactivities : ∀ activities : List (Pointer × UInt32),
      ((activities.flatMap fun activity =>
        [Field.bytes activity.1, .byte 0, .color activity.2]).map Field.count).sum =
      ((activities.flatMap fun activity =>
        [Field.bytes activity.1, .byte 0, .color activity.2]).map Field.max).sum := by
    intro activities
    induction activities with
    | nil => rfl
    | cons activity activities ih =>
      rw [List.flatMap_cons, List.map_append, List.sum_append, ih, List.map_append, List.sum_append]
      rfl
  have hints : ∀ ints : List Int32, ((ints.map Field.int).map Field.count).sum +
      (ints.map fun x => 5 - Leb128.size 4 x.toInt).sum =
        ((ints.map Field.int).map Field.max).sum := by
    intro ints
    induction ints with
    | nil => rfl
    | cons x ints ih =>
      have hle := Leb128.size_le 4 x.toInt
      simp only [List.map_cons, List.sum_cons, Field.count, Field.max] at ih ⊢
      omega
  have hfields : (gatorAnnotateWriteCounter c).fields =
      c.ints.map Field.int ++ [Field.color c.color] ++
      (c.activities.flatMap fun activity =>
        [Field.bytes activity.1, .byte 0, .color activity.2]) ++
      [Field.bytes c.title, .byte 0, .bytes c.name, .byte 0, .bytes c.units, .byte 0,
        .bytes c.description] := by
    simp only [gatorAnnotateWriteCounter, GatorCounter.ints, List.map_cons, List.map_nil,
      List.cons_append, List.nil_append]
  have hsum := hints c.ints
  rw [hfields, GatorCounter.slack]
  simp only [List.map_append, List.sum_append, hactivities, List.map_cons, List.map_nil,
    List.sum_cons, List.sum_nil, Field.count, Field.max] at hsum ⊢
  omega

/-! ## Bounds -/

/-- The image is not reserved. -/
theorem message_image (a : Annotate Pointer) (image : List UInt8) :
    (a.message image).reserved = (a.message []).reserved ∧
      (a.message image).fields = (a.message []).fields := by
  cases a <;> exact ⟨rfl, rfl⟩

/-- Only counters miss bytes. -/
theorem missing_eq_zero {a : Annotate Pointer} (h : ∀ c, a ≠ .counter c) : a.missing = 0 := by
  cases a with
  | counter c => exact absurd rfl (h c)
  | _ => rfl

/-- How many bytes are written, compared with those that are reserved. -/
theorem written_le_iff (a : Annotate Pointer) (image : List UInt8) :
    (a.message image).written ≤ (a.message image).reserved ↔
      ∀ c, a = .counter c → c.activities.length ≤ c.slack := by
  have hreserved := reserved_add a image
  by_cases hcounter : ∃ c, a = .counter c
  · rcases hcounter with ⟨c, rfl⟩
    have hsum := sum_count_counter c
    have hmessage : (Annotate.counter c).message image = gatorAnnotateWriteCounter c := rfl
    rw [hmessage, Annotate.missing] at hreserved
    rw [hmessage, Message.written]
    constructor
    · intro h d hd
      cases hd
      omega
    · intro h
      have hc := h c rfl
      omega
  · have hnot : ∀ c, a ≠ .counter c := fun c heq => hcounter ⟨c, heq⟩
    have hle := sum_count_le (a.message image).fields
    rw [missing_eq_zero hnot] at hreserved
    rw [Message.written]
    exact iff_of_true (by omega) fun c heq => absurd heq (hnot c)

/-- At least a twentieth of the reserved bytes is written. -/
theorem reserved_le (a : Annotate Pointer) (image : List UInt8) :
    (a.message image).reserved ≤ 20 * (a.message image).written := by
  have hreserved := reserved_add a image
  have hle := sum_max_le (a.message image).fields
  rw [Message.written]
  omega

/-- A function is bounded exactly if its message is too large, or its size fits into 32 bits and
    it does not have too many activities. -/
theorem bounded_iff (a : Annotate Pointer) (image : List UInt8) :
    (a.message image).Bounded ↔ a.Covered := by
  rcases message_image a image with ⟨himage, -⟩
  have hhalf : threadBufferSize / 2 = 32768 := rfl
  have hsize : threadBufferSize = 65536 := rfl
  have hiff := written_le_iff a image
  have hle := reserved_le a image
  have hlarge : (a.message image).TooLarge ↔ (a.message []).TooLarge := by
    rw [Message.TooLarge, Message.TooLarge, Message.bytes, Message.bytes, himage]
  rw [Annotate.Covered, ← hlarge, ← himage, ← hiff]
  constructor
  · intro h
    by_cases htoo : (a.message image).TooLarge
    · exact Or.inl htoo
    · right
      have hbound := (h ⟨fun _ => 0, 0, 0, []⟩ (by decide) htoo).2
      rw [Message.TooLarge, hhalf, Message.bytes] at htoo
      rw [Message.bytes] at hbound
      omega
  · intro h thread hpos htoo
    rcases h.resolve_left htoo with ⟨hfits, hwritten⟩
    have hbytes : (a.message image).bytes = (a.message image).reserved := Nat.mod_eq_of_lt hfits
    rw [Message.TooLarge, hhalf, hbytes] at htoo
    rw [Message.write_of_written hpos (by omega), hbytes]
    exact ⟨rfl, hwritten⟩

/-! ## Runs of the writer and the sender -/

namespace RingState

/-- What holds between the steps: the room that a writer has found is still there. -/
structure Inv (s : RingState) : Prop where
  writePos : s.thread.writePos < threadBufferSize
  readPos : s.thread.readPos < threadBufferSize
  pending : ∀ m, s.pending = some m → m.Bounded ∧ ¬ m.TooLarge ∧ m.WaitEnds s.thread

theorem Start.inv {s : RingState} (h : s.Start) : s.Inv := by
  refine ⟨h.writePos, h.readPos, fun m hm => ?_⟩
  rw [h.pending] at hm
  cases hm

theorem used_add_free {thread : GatorThread} (hwrite : thread.writePos < threadBufferSize)
    (hread : thread.readPos < threadBufferSize) :
    gatorBufUsed thread + gatorBufFree thread = threadBufferSize - 1 := by
  have hsize : threadBufferSize = 65536 := rfl
  rw [hsize] at hwrite hread
  rw [gatorBufUsed, gatorBufFree, hsize]
  omega

/-- The sender leaves more room. -/
theorem free_send {thread : GatorThread} {k : Nat} (hwrite : thread.writePos < threadBufferSize)
    (hread : thread.readPos < threadBufferSize) (hk : k ≤ gatorBufUsed thread) :
    gatorBufFree { thread with readPos := gatorBufPos (thread.readPos + k) } =
      gatorBufFree thread + k := by
  have hsize : threadBufferSize = 65536 := rfl
  rw [hsize] at hwrite hread
  rw [gatorBufUsed, hsize] at hk
  rw [gatorBufFree, gatorBufFree, gatorBufPos, hsize]
  dsimp only
  omega

/-- What the writer does with a message for which it has found room. -/
theorem writesFree {s : RingState} (h : s.Inv) {m : Message} (hm : s.pending = some m) :
    ∃ s', s.step .write = some s' ∧ s'.Inv ∧ WritesFree m s s' := by
  have hsize : threadBufferSize = 65536 := rfl
  rcases h.pending m hm with ⟨hbounded, hlarge, hwait⟩
  have hwritten := (hbounded s.thread h.writePos hlarge).2
  have hadd := used_add_free h.writePos h.readPos
  rw [Message.WaitEnds] at hwait
  have hroom : gatorBufUsed s.thread + m.written < threadBufferSize := by omega
  have hwrite := Message.write_of_written h.writePos (show m.written ≤ threadBufferSize by omega)
  have hpos := h.writePos
  have hread := h.readPos
  rw [hsize] at hpos hread hroom
  rw [gatorBufUsed, hsize] at hroom
  have hstep : s.step .write = (m.write s.thread).map fun thread => ⟨thread, none⟩ := by
    rw [step, hm]
  rw [hstep, hwrite, Option.map_some]
  refine ⟨_, rfl, ⟨Ring.advance_lt h.writePos, h.readPos, nofun⟩, ⟨?_, rfl, ?_, ?_, ?_⟩⟩
  · rw [gatorBufUsed, hsize]
    exact hroom
  · rw [gatorBufUsed, gatorBufUsed, Ring.advance, hsize]
    dsimp only
    omega
  · intro pos hother
    apply Ring.put_other _ h.writePos
    rw [Message.length_chars, Message.size_cut]
    exact hother
  · intro j hj k hk
    rw [gatorBufUsed, hsize] at hj
    rw [Ring.advance, Ring.advance, hsize]
    omega

/-- A step keeps what holds, if the messages are bounded. -/
theorem inv_step (s : RingState) (action : RingAction) (h : s.Inv)
    (hbounded : ∀ m, action = .wait m → m.Bounded) : ∃ s', s.step action = some s' ∧ s'.Inv := by
  cases action with
  | wait m =>
    rw [step]
    split_ifs with hroom
    · refine ⟨_, rfl, h.writePos, h.readPos, fun m' hm' => ?_⟩
      cases hm'
      exact ⟨hbounded m rfl, hroom.2.1, hroom.2.2⟩
    · exact ⟨s, rfl, h⟩
  | write =>
    cases hm : s.pending with
    | none =>
      refine ⟨s, ?_, h⟩
      rw [step, hm]
    | some m =>
      rcases writesFree h hm with ⟨s', hs', hinv, -⟩
      exact ⟨s', hs', hinv⟩
  | send k =>
    rw [step]
    split_ifs with hk
    · refine ⟨_, rfl, h.writePos, Nat.mod_lt _ (by decide), fun m hm => ?_⟩
      rcases h.pending m hm with ⟨hm, hlarge, hwait⟩
      refine ⟨hm, hlarge, ?_⟩
      rw [Message.WaitEnds, free_send h.writePos h.readPos hk]
      exact Nat.le_add_right_of_le hwait
    · exact ⟨s, rfl, h⟩

theorem neverOverwrites_of_bounded {s : RingState} (h : s.Start) {actions : List RingAction}
    (hbounded : ∀ m, .wait m ∈ actions → m.Bounded) : s.NeverOverwrites actions := by
  intro pre hpre
  have hmeet : StepsMeet step (fun _ action => ∀ m, action = .wait m → m.Bounded) s pre := by
    apply stepsMeet_of_mem
    rintro action haction - m rfl
    exact hbounded m (hpre.subset haction)
  rcases exists_run_of_stepsMeet inv_step h.inv hmeet with ⟨u, hu, hinv⟩
  refine ⟨u, hu, used_add_free hinv.writePos hinv.readPos, fun m hm => ?_⟩
  rcases writesFree hinv hm with ⟨u', hu', -, hfree⟩
  exact ⟨u', hu', hfree⟩

/-- Functions are bounded, and no run of them overwrites what has not been sent, exactly if they
    are covered by what they reserve. -/
theorem neverOverwrites_iff (calls : Set (Annotate Pointer × List UInt8)) :
    ((∀ c ∈ calls, (c.1.message c.2).Bounded) ∧ ∀ (s : RingState) (actions : List RingAction),
      s.Start → (∀ m, .wait m ∈ actions → ∃ c ∈ calls, m = c.1.message c.2) →
        s.NeverOverwrites actions) ↔
    ∀ c ∈ calls, c.1.Covered := by
  constructor
  · intro h c hc
    exact (bounded_iff c.1 c.2).mp (h.1 c hc)
  · intro h
    have hbounded : ∀ c ∈ calls, (c.1.message c.2).Bounded := fun c hc =>
      (bounded_iff c.1 c.2).mpr (h c hc)
    refine ⟨hbounded, fun s actions hstart hactions => ?_⟩
    apply neverOverwrites_of_bounded hstart
    intro m hm
    rcases hactions m hm with ⟨c, hc, rfl⟩
    exact hbounded c hc

/-- A counter with 49 activities. -/
def manyActivities : GatorCounter Pointer where
  id := 1
  title := none
  name := none
  perCpu := 0
  counterClass := .activity
  display := .average
  units := none
  modifier := 1
  seriesComposition := .stacked
  renderingType := .fill
  averageSelection := 0
  averageCores := 0
  percentage := 0
  activities := List.replicate 49 (none, 0)
  cores := 1
  color := 0
  description := none

/-- The function writes 269 bytes, and has reserved 268. -/
theorem not_bounded_manyActivities : ¬ ((Annotate.counter manyActivities).message []).Bounded := by
  intro h
  have hsmall : ¬ ((Annotate.counter manyActivities).message []).TooLarge := by decide +kernel
  have hbound := (h ⟨fun _ => 0, 0, 0, []⟩ (by decide) hsmall).2
  exact absurd hbound (by decide +kernel)

end RingState

end LibCollector.Streamline
