import LibCollector.Streamline.Buffer

/-!
# Annotations

`gator_msg_begin`, `gator_msg_end`, `gator_buf_wait_bytes` and the functions that write
annotations, of `src/collectors/streamline_annotate.cpp`. All of these functions reserve
some bytes, and write a header, a length and some fields (`Message`). The time is an input,
as is what the sender has sent when a wait ends. Semaphores, logging and `gator_get_thread`
are left out; the definitions that it resends are messages like any other.
-/

namespace LibCollector.Streamline

open LibCollector.Misc

/-! ## Arguments -/

/-- The characters of a C string. -/
structure CString where
  chars : List UInt8
  noNul : 0 ∉ chars
  deriving DecidableEq

/-- `enum gator_annotate_counter_class`. -/
inductive CounterClass where
  | delta
  | absolute
  | activity
  deriving DecidableEq

/-- `enum gator_annotate_display`. -/
inductive Display where
  | average
  | accumulate
  | hertz
  | maximum
  | minimum
  deriving DecidableEq

/-- `enum gator_annotate_series_composition`. -/
inductive SeriesComposition where
  | stacked
  | overlay
  | log10
  deriving DecidableEq

/-- `enum gator_annotate_rendering_type`. -/
inductive RenderingType where
  | fill
  | line
  | bar
  deriving DecidableEq

def CounterClass.toInt32 : CounterClass → Int32
  | .delta => 1
  | .absolute => 2
  | .activity => 3

def Display.toInt32 : Display → Int32
  | .average => 1
  | .accumulate => 2
  | .hertz => 3
  | .maximum => 4
  | .minimum => 5

def SeriesComposition.toInt32 : SeriesComposition → Int32
  | .stacked => 1
  | .overlay => 2
  | .log10 => 3

def RenderingType.toInt32 : RenderingType → Int32
  | .fill => 1
  | .line => 2
  | .bar => 3

/-- `struct gator_counter`, with its strings of some type. -/
structure GatorCounter (S : Type) where
  id : UInt32
  title : S
  name : S
  perCpu : Int32
  counterClass : CounterClass
  display : Display
  units : S
  modifier : UInt32
  seriesComposition : SeriesComposition
  renderingType : RenderingType
  averageSelection : Int32
  averageCores : Int32
  percentage : Int32
  activities : List (S × UInt32)
  cores : UInt32
  color : UInt32
  description : S
  deriving DecidableEq

/-- An annotation with its arguments, and with the time if it is written. The image of a visual
    annotation is not part of it. -/
inductive Annotate (S : Type) where
  | str (time : UInt64) (channel : UInt32) (str : S)
  | color (time : UInt64) (channel color : UInt32) (str : S)
  | nameChannel (time : UInt64) (channel group : UInt32) (str : S)
  | nameGroup (time : UInt64) (group : UInt32) (str : S)
  | visual (time : UInt64) (str : S)
  | marker (time : UInt64) (str : S)
  | markerColor (time : UInt64) (color : UInt32) (str : S)
  | counter (counter : GatorCounter S)
  | counterValue (time : UInt64) (core id value : UInt32)
  | activitySwitch (time : UInt64) (core id activity tid : UInt32)
  | camTrack (viewUid trackUid parentTrack : UInt32) (name : S)
  | camJob (viewUid jobUid : UInt32) (name : S) (track : UInt32) (startTime duration : UInt64)
      (color primaryDependency : UInt32) (dependencies : List UInt32)
  | camJobStart (viewUid jobUid : UInt32) (name : S) (track : UInt32) (time : UInt64)
      (color : UInt32)
  | camJobSetDependencies (viewUid jobUid : UInt32) (time : UInt64) (primaryDependency : UInt32)
      (dependencies : List UInt32)
  | camJobStop (viewUid jobUid : UInt32) (time : UInt64)
  | camName (viewUid : UInt32) (name : S)
  deriving DecidableEq

/-- A string that may be `NULL`. -/
abbrev Pointer := Option CString

/-- The characters of a string; those of `NULL` are none. -/
def Pointer.chars (str : Pointer) : List UInt8 := (str.map CString.chars).getD []

/-- `(str == NULL) ? 0 : strlen(str)`, as it is passed to a write. -/
def Pointer.size (str : Pointer) : UInt32 := .ofNat str.chars.length

/-! ## Messages -/

/-- The argument of a `gator_buf_write_*` call. -/
inductive Field where
  | time (time : UInt64)
  | int (x : Int32)
  | long (x : Int64)
  | color (color : UInt32)
  | bytes (str : Pointer)
  | byte (b : UInt8)
  deriving DecidableEq

/-- What a function passes to `gator_buf_wait_bytes`, before it is cut to 32 bits, and to
    `gator_msg_begin`, and what it writes. Only a visual annotation has an image, whose size is
    added to the length. -/
structure Message where
  reserved : Nat
  header : UInt8
  fields : List Field
  image : List UInt8 := []
  deriving DecidableEq

def sizeColor : Nat := 4
def maxsizePackInt : Nat := 5
def maxsizePackLong : Nat := 10

/-- `gator_annotate_str`. -/
def gatorAnnotateStr (time : UInt64) (channel : UInt32) (str : Pointer) : Message where
  reserved := 1 + 4 + maxsizePackLong + maxsizePackInt + str.size.toNat
  header := 0x01
  fields := [.time time, .int channel.toInt32, .bytes str]

/-- `gator_annotate_color`. -/
def gatorAnnotateColor (time : UInt64) (channel color : UInt32) (str : Pointer) : Message where
  reserved := 1 + 4 + maxsizePackLong + maxsizePackInt + sizeColor + str.size.toNat
  header := 0x02
  fields := [.time time, .int channel.toInt32, .color color, .bytes str]

/-- `gator_annotate_name_channel`. -/
def gatorAnnotateNameChannel (time : UInt64) (channel group : UInt32) (str : Pointer) :
    Message where
  reserved := 1 + 4 + maxsizePackLong + 2 * maxsizePackInt + str.size.toNat
  header := 0x03
  fields := [.time time, .int channel.toInt32, .int group.toInt32, .bytes str]

/-- `gator_annotate_name_group`. -/
def gatorAnnotateNameGroup (time : UInt64) (group : UInt32) (str : Pointer) : Message where
  reserved := 1 + 4 + maxsizePackLong + maxsizePackInt + str.size.toNat
  header := 0x04
  fields := [.time time, .int group.toInt32, .bytes str]

/-- `gator_annotate_visual`. -/
def gatorAnnotateVisual (time : UInt64) (data : List UInt8) (str : Pointer) : Message where
  reserved := 1 + 4 + maxsizePackLong + str.size.toNat + 1
  header := 0x05
  fields := [.time time, .bytes str, .byte 0]
  image := data

/-- `gator_annotate_marker`. -/
def gatorAnnotateMarker (time : UInt64) (str : Pointer) : Message where
  reserved := 1 + 4 + maxsizePackLong + str.size.toNat
  header := 0x06
  fields := [.time time, .bytes str]

/-- `gator_annotate_marker_color`. -/
def gatorAnnotateMarkerColor (time : UInt64) (color : UInt32) (str : Pointer) : Message where
  reserved := 1 + 4 + maxsizePackLong + sizeColor + str.size.toNat
  header := 0x07
  fields := [.time time, .color color, .bytes str]

/-- The size that `gator_annotate_write_counter` computes for the activities. -/
def activitySize (activities : List (Pointer × UInt32)) : Nat :=
  activities.foldl (fun size activity => size + activity.1.size.toNat + sizeColor) 0

/-- `gator_annotate_write_counter`. -/
def gatorAnnotateWriteCounter (counter : GatorCounter Pointer) : Message where
  reserved := 1 + 4 + 12 * maxsizePackInt + sizeColor + activitySize counter.activities +
    counter.title.size.toNat + 1 + counter.name.size.toNat + 1 + counter.units.size.toNat + 1 +
    counter.description.size.toNat
  header := 0x08
  fields := [.int counter.id.toInt32, .int counter.perCpu, .int counter.counterClass.toInt32,
      .int counter.display.toInt32, .int counter.modifier.toInt32,
      .int counter.seriesComposition.toInt32, .int counter.renderingType.toInt32,
      .int counter.averageSelection, .int counter.averageCores, .int counter.percentage,
      .int (.ofNat counter.activities.length), .int counter.cores.toInt32, .color counter.color] ++
    (counter.activities.flatMap fun activity =>
      [.bytes activity.1, .byte 0, .color activity.2]) ++
    [.bytes counter.title, .byte 0, .bytes counter.name, .byte 0, .bytes counter.units, .byte 0,
      .bytes counter.description]

/-- `gator_annotate_counter_value`. -/
def gatorAnnotateCounterValue (time : UInt64) (core id value : UInt32) : Message where
  reserved := 1 + 4 + maxsizePackLong + 3 * maxsizePackInt
  header := 0x09
  fields := [.time time, .int core.toInt32, .int id.toInt32, .int value.toInt32]

/-- `gator_annotate_activity_switch`. -/
def gatorAnnotateActivitySwitch (time : UInt64) (core id activity tid : UInt32) : Message where
  reserved := 1 + 4 + maxsizePackLong + 4 * maxsizePackInt
  header := 0x0a
  fields := [.time time, .int core.toInt32, .int id.toInt32, .int activity.toInt32,
    .int tid.toInt32]

/-- `gator_annotate_write_cam_track`. -/
def gatorAnnotateWriteCamTrack (viewUid trackUid parentTrack : UInt32) (name : Pointer) :
    Message where
  reserved := 1 + 4 + 3 * maxsizePackInt + name.size.toNat
  header := 0x0b
  fields := [.int viewUid.toInt32, .int trackUid.toInt32, .int parentTrack.toInt32, .bytes name]

/-- `gator_cam_job`. -/
def gatorCamJob (viewUid jobUid : UInt32) (name : Pointer) (track : UInt32)
    (startTime duration : UInt64) (color primaryDependency : UInt32) (dependencies : List UInt32) :
    Message where
  reserved := 1 + 4 + 5 * maxsizePackInt + 2 * maxsizePackLong + sizeColor +
    dependencies.length * maxsizePackInt + name.size.toNat
  header := 0x0c
  fields := [.int viewUid.toInt32, .int jobUid.toInt32, .int track.toInt32,
      .long startTime.toInt64, .long duration.toInt64, .color color,
      .int primaryDependency.toInt32, .int (.ofNat dependencies.length)] ++
    (dependencies.map fun dependency => .int dependency.toInt32) ++ [.bytes name]

/-- `gator_cam_job_start`. -/
def gatorCamJobStart (viewUid jobUid : UInt32) (name : Pointer) (track : UInt32) (time : UInt64)
    (color : UInt32) : Message where
  reserved := 1 + 4 + 3 * maxsizePackInt + maxsizePackLong + sizeColor + name.size.toNat
  header := 0x0e
  fields := [.int viewUid.toInt32, .int jobUid.toInt32, .int track.toInt32, .long time.toInt64,
    .color color, .bytes name]

/-- `gator_cam_job_set_dependencies`. -/
def gatorCamJobSetDependencies (viewUid jobUid : UInt32) (time : UInt64)
    (primaryDependency : UInt32) (dependencies : List UInt32) : Message where
  reserved := 1 + 4 + 4 * maxsizePackInt + maxsizePackLong +
    dependencies.length * maxsizePackInt
  header := 0x0f
  fields := [.int viewUid.toInt32, .int jobUid.toInt32, .long time.toInt64,
      .int primaryDependency.toInt32, .int (.ofNat dependencies.length)] ++
    dependencies.map fun dependency => .int dependency.toInt32

/-- `gator_cam_job_stop`. -/
def gatorCamJobStop (viewUid jobUid : UInt32) (time : UInt64) : Message where
  reserved := 1 + 4 + 2 * maxsizePackInt + maxsizePackLong
  header := 0x10
  fields := [.int viewUid.toInt32, .int jobUid.toInt32, .long time.toInt64]

/-- `gator_annotate_write_cam_name`. -/
def gatorAnnotateWriteCamName (viewUid : UInt32) (name : Pointer) : Message where
  reserved := 1 + 4 + maxsizePackInt + name.size.toNat
  header := 0x0d
  fields := [.int viewUid.toInt32, .bytes name]

/-- The message of an annotation, and of its image if it is a visual one. -/
def Annotate.message (image : List UInt8) : Annotate Pointer → Message
  | .str time channel s => gatorAnnotateStr time channel s
  | .color time channel c s => gatorAnnotateColor time channel c s
  | .nameChannel time channel group s => gatorAnnotateNameChannel time channel group s
  | .nameGroup time group s => gatorAnnotateNameGroup time group s
  | .visual time s => gatorAnnotateVisual time image s
  | .marker time s => gatorAnnotateMarker time s
  | .markerColor time c s => gatorAnnotateMarkerColor time c s
  | .counter c => gatorAnnotateWriteCounter c
  | .counterValue time core id value => gatorAnnotateCounterValue time core id value
  | .activitySwitch time core id activity tid =>
    gatorAnnotateActivitySwitch time core id activity tid
  | .camTrack viewUid trackUid parentTrack name =>
    gatorAnnotateWriteCamTrack viewUid trackUid parentTrack name
  | .camJob viewUid jobUid name track startTime duration c primaryDependency dependencies =>
    gatorCamJob viewUid jobUid name track startTime duration c primaryDependency dependencies
  | .camJobStart viewUid jobUid name track time c =>
    gatorCamJobStart viewUid jobUid name track time c
  | .camJobSetDependencies viewUid jobUid time primaryDependency dependencies =>
    gatorCamJobSetDependencies viewUid jobUid time primaryDependency dependencies
  | .camJobStop viewUid jobUid time => gatorCamJobStop viewUid jobUid time
  | .camName viewUid name => gatorAnnotateWriteCamName viewUid name

/-! ## Writing a message -/

/-- The members of `struct gator_thread` that the writer and the sender use. `oob` is what
    `oob_data` points to, of the size `oob_length`. -/
structure GatorThread where
  buf : Nat → UInt8
  writePos : Nat := 0
  readPos : Nat := 0
  oob : List UInt8 := []

/-- `gator_buf_free`. -/
def gatorBufFree (thread : GatorThread) : Nat :=
  (thread.readPos + 2 * threadBufferSize - thread.writePos - 1) % threadBufferSize

/-- `gator_buf_used`. -/
def gatorBufUsed (thread : GatorThread) : Nat :=
  (thread.writePos + threadBufferSize - thread.readPos) % threadBufferSize

/-- `gator_buf_write_*` for a field. -/
def Field.write : Field → Cursor → Option (Cursor × Nat)
  | .time t, w => some (gatorBufWriteTime t w)
  | .int x, w => some (gatorBufWriteInt x w)
  | .long x, w => some (gatorBufWriteLong x w)
  | .color c, w => some (gatorBufWriteColor c w)
  | .bytes str, w => gatorBufWriteBytes str.chars str.size w
  | .byte b, w => some (gatorBufWriteByte b w)

/-- `length += gator_buf_write_*` for some fields. -/
def writeFields : List Field → Cursor → Nat → Option (Cursor × Nat)
  | [], w, length => some (w, length)
  | f :: fields, w, length =>
    (f.write w).bind fun r => writeFields fields r.1 ((length + r.2) % 2 ^ 32)

/-- `gator_msg_begin`: the cursor for the fields, and the position of the length. -/
def gatorMsgBegin (marker : UInt8) (thread : GatorThread) : Cursor × Nat :=
  let w := (gatorBufWriteByte marker ⟨thread.buf, thread.writePos⟩).1
  (⟨w.buf, gatorBufPos (w.pos + 4)⟩, w.pos)

/-- `gator_msg_end`, or the same lines of `gator_annotate_visual`. -/
def gatorMsgEnd (thread : GatorThread) (w : Cursor) (sizePos length : Nat) : GatorThread :=
  { thread with
    buf := (gatorBufWriteUint32 (.ofNat length) ⟨w.buf, sizePos⟩).1.buf
    writePos := w.pos }

namespace Message

/-- `__bytes` in `gator_buf_wait_bytes`. -/
def bytes (m : Message) : Nat := m.reserved % 2 ^ 32

/-- The test for a message that is too large. -/
def TooLarge (m : Message) : Prop := threadBufferSize / 2 < m.bytes

instance (m : Message) : Decidable m.TooLarge := inferInstanceAs (Decidable (_ < _))

/-- The condition on which the loop of `__gator_buf_wait_bytes` ends. -/
def WaitEnds (m : Message) (thread : GatorThread) : Prop := m.bytes ≤ gatorBufFree thread

instance (m : Message) (thread : GatorThread) : Decidable (m.WaitEnds thread) :=
  inferInstanceAs (Decidable (_ ≤ _))

/-- The part of a function after `gator_buf_wait_bytes`, up to the image. -/
def write (m : Message) (thread : GatorThread) : Option GatorThread :=
  let b := gatorMsgBegin m.header thread
  (writeFields m.fields b.1 0).map fun r =>
    gatorMsgEnd thread r.1 b.2 ((r.2 + m.image.length) % 2 ^ 32)

/-- A function that writes a message, for the position up to which the sender has sent when the wait
    ends; it is `none` as long as the function waits. -/
def annotate (m : Message) (readPos : Nat) (thread : GatorThread) : Option GatorThread :=
  if m.TooLarge then some thread
  else
    let thread := { thread with readPos := readPos }
    if m.WaitEnds thread then m.write thread else none

end Message

/-! ## The bytes of a message -/

/-- The four bytes of a number, lowest first. -/
def bytesOfUint32 (i : UInt32) : List UInt8 :=
  [i.toUInt8, (i >>> 8).toUInt8, (i >>> 16).toUInt8, (i >>> 24).toUInt8]

/-- The four bytes of a colour. -/
def bytesOfColor (color : UInt32) : List UInt8 :=
  [(color >>> 8).toUInt8, (color >>> 16).toUInt8, (color >>> 24).toUInt8, color.toUInt8]

/-- The bytes of a field. -/
def Field.chars : Field → List UInt8
  | .time t => Leb128.encode 10 t.toInt64.toInt
  | .int x => Leb128.encode 5 x.toInt
  | .long x => Leb128.encode 10 x.toInt
  | .color c => bytesOfColor c
  | .bytes str => str.chars
  | .byte b => [b]

namespace Message

/-- The bytes of the fields. -/
def payload (m : Message) : List UInt8 := m.fields.flatMap Field.chars

/-- How many bytes are written into the ring. -/
def size (m : Message) : Nat := 5 + m.payload.length

/-- The bytes that are written into the ring. -/
def chars (m : Message) : List UInt8 :=
  m.header :: bytesOfUint32 (.ofNat (m.payload.length + m.image.length)) ++ m.payload

theorem length_chars (m : Message) : m.chars.length = m.size := by
  simp only [chars, size, bytesOfUint32, List.length_append, List.length_cons, List.length_nil]

end Message

/-- A field of at most the size of the ring. -/
theorem Field.write_eq {f : Field} {w : Cursor} (h : w.InRing)
    (hlen : f.chars.length ≤ threadBufferSize) :
    f.write w = some (w.put f.chars, f.chars.length) := by
  cases f with
  | time t => exact congrArg some (writePacked_eq h (by decide) _)
  | int x => exact congrArg some (writePacked_eq h (by decide) _)
  | long x => exact congrArg some (writePacked_eq h (by decide) _)
  | color c => exact congrArg some (writeFour_eq h _ _ _ _)
  | bytes str => exact gatorBufWriteBytes_eq h hlen
  | byte b => exact congrArg some (gatorBufWriteByte_eq h b)

/-- Some fields of at most the size of the ring. -/
theorem writeFields_eq (fields : List Field) {w : Cursor} (h : w.InRing) (length : Nat)
    (hlen : (fields.flatMap Field.chars).length ≤ threadBufferSize)
    (hlength : length + (fields.flatMap Field.chars).length < 2 ^ 32) :
    writeFields fields w length = some (w.put (fields.flatMap Field.chars),
      length + (fields.flatMap Field.chars).length) := by
  induction fields generalizing w length with
  | nil =>
    have hput : w.put [] = w := by
      rw [Cursor.put, Ring.put_nil, List.length_nil, Ring.advance_zero h]
    simp [writeFields, hput]
  | cons f fields ih =>
    rw [List.flatMap_cons, List.length_append] at hlen hlength
    have hmod : (length + f.chars.length) % 2 ^ 32 = length + f.chars.length :=
      Nat.mod_eq_of_lt (by omega)
    rw [writeFields, Field.write_eq h (by omega), Option.bind_some, hmod,
      ih (h.put _) _ (by omega) (by omega), Cursor.put_put h hlen, List.flatMap_cons,
      List.length_append, Nat.add_assoc]

namespace Message

/-- A message of at most the size of the ring. -/
theorem write_eq {m : Message} {thread : GatorThread} (h : thread.writePos < threadBufferSize)
    (hlen : m.size ≤ threadBufferSize) : m.write thread = some { thread with
      buf := Ring.put threadBufferSize thread.buf thread.writePos m.chars
      writePos := Ring.advance threadBufferSize thread.writePos m.size } := by
  have hsize : threadBufferSize = 65536 := rfl
  rw [size, hsize] at hlen
  have hring : Cursor.InRing ⟨thread.buf, thread.writePos⟩ := h
  have hfields : Cursor.InRing ⟨(Cursor.put ⟨thread.buf, thread.writePos⟩ [m.header]).buf,
      Ring.advance threadBufferSize thread.writePos 5⟩ := Ring.advance_lt h
  have hbegin : gatorMsgBegin m.header thread =
      (⟨(Cursor.put ⟨thread.buf, thread.writePos⟩ [m.header]).buf,
        Ring.advance threadBufferSize thread.writePos 5⟩,
      Ring.advance threadBufferSize thread.writePos 1) := by
    rw [gatorMsgBegin, gatorBufWriteByte_eq hring]
    have hfive : gatorBufPos (Ring.advance threadBufferSize thread.writePos 1 + 4) =
        Ring.advance threadBufferSize thread.writePos 5 :=
      Ring.advance_advance thread.writePos 1 4
    exact congrArg (fun pos => (Cursor.mk _ pos, _)) hfive
  have hwrite := writeFields_eq m.fields hfields 0 (by rw [payload] at hlen; omega)
    (by rw [payload] at hlen; omega)
  -- The length is written last, into the gap that `gator_msg_begin` has left.
  have hlengthBytes : (bytesOfUint32 (.ofNat (m.payload.length + m.image.length))).length = 4 := rfl
  have hswap := Ring.put_append_swap
    (Ring.put threadBufferSize thread.buf thread.writePos [m.header]) (Ring.advance_lt h (k := 1))
    (bytesOfUint32 (.ofNat (m.payload.length + m.image.length))) m.payload
    (by rw [hlengthBytes]; omega)
  have happend := Ring.put_append thread.buf h [m.header]
    (bytesOfUint32 (.ofNat (m.payload.length + m.image.length)) ++ m.payload)
    (by rw [List.length_append, hlengthBytes, List.length_singleton]; omega)
  rw [hlengthBytes, Ring.advance_advance] at hswap
  rw [List.length_singleton] at happend
  have hofNat : UInt32.ofNat ((0 + m.payload.length + m.image.length) % 2 ^ 32) =
      .ofNat (m.payload.length + m.image.length) := by
    rw [Nat.zero_add]
    exact UInt32.ofNat_mod_size
  have hend : Cursor.InRing ⟨(Cursor.put ⟨(Cursor.put ⟨thread.buf, thread.writePos⟩ [m.header]).buf,
      Ring.advance threadBufferSize thread.writePos 5⟩ m.payload).buf,
      Ring.advance threadBufferSize thread.writePos 1⟩ := Ring.advance_lt h
  rw [write, hbegin, hwrite, Option.map_some, gatorMsgEnd]
  rw [payload] at hofNat hend
  rw [hofNat, gatorBufWriteUint32, writeFour_eq hend]
  refine congrArg some (congrArg₂
    (fun buf pos => { thread with buf := buf, writePos := pos }) ?_ ?_)
  · exact hswap.trans happend
  · exact Ring.advance_advance thread.writePos 5 m.payload.length

end Message

end LibCollector.Streamline
