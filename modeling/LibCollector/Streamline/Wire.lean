import LibCollector.Misc.Codec
import LibCollector.Misc.Run
import LibCollector.Streamline.Annotate
import Mathlib.Algebra.Order.BigOperators.Group.List

/-!
# The wire format

What a reader makes of the bytes of messages (`decodeAll`): a header, the length of the
payload, and fields in the layout that the header names. The messages in the ring are read
back as the annotations that were written, except those that were too large to be written.
-/

namespace LibCollector.Streamline

open LibCollector.Misc

/-! ## Fields -/

/-- One byte. -/
def byteCodec : Codec UInt8 UInt8 where
  Valid _ := True
  enc b := [b]
  dec
    | [] => none
    | b :: rest => some (b, rest)
  dec_enc _ _ _ := rfl

/-- The number whose bytes are given, lowest first. -/
def uint32OfBytes (b₀ b₁ b₂ b₃ : UInt8) : UInt32 :=
  .ofNat (b₀.toNat + 2 ^ 8 * b₁.toNat + 2 ^ 16 * b₂.toNat + 2 ^ 24 * b₃.toNat)

theorem uint32OfBytes_eq (i : UInt32) :
    uint32OfBytes i.toUInt8 (i >>> 8).toUInt8 (i >>> 16).toUInt8 (i >>> 24).toUInt8 = i := by
  have hlt := i.toNat_lt
  have height : (i >>> 8).toNat = i.toNat / 2 ^ 8 := by
    rw [UInt32.toNat_shiftRight, Nat.shiftRight_eq_div_pow]
    rfl
  have hsixteen : (i >>> 16).toNat = i.toNat / 2 ^ 16 := by
    rw [UInt32.toNat_shiftRight, Nat.shiftRight_eq_div_pow]
    rfl
  have htwentyfour : (i >>> 24).toNat = i.toNat / 2 ^ 24 := by
    rw [UInt32.toNat_shiftRight, Nat.shiftRight_eq_div_pow]
    rfl
  apply UInt32.toNat.inj
  rw [uint32OfBytes, UInt32.toNat_ofNat', UInt32.toNat_toUInt8, UInt32.toNat_toUInt8,
    UInt32.toNat_toUInt8, UInt32.toNat_toUInt8, height, hsixteen, htwentyfour]
  omega

/-- A number of four bytes, lowest first. -/
def uint32Codec : Codec UInt8 UInt32 where
  Valid _ := True
  enc := bytesOfUint32
  dec
    | b₀ :: b₁ :: b₂ :: b₃ :: rest => some (uint32OfBytes b₀ b₁ b₂ b₃, rest)
    | _ => none
  dec_enc i rest _ := by rw [bytesOfUint32]; simp [uint32OfBytes_eq]

/-- A colour. -/
def colorCodec : Codec UInt8 UInt32 where
  Valid _ := True
  enc := bytesOfColor
  dec
    | b₁ :: b₂ :: b₃ :: b₀ :: rest => some (uint32OfBytes b₀ b₁ b₂ b₃, rest)
    | _ => none
  dec_enc i rest _ := by rw [bytesOfColor]; simp [uint32OfBytes_eq]

/-- A packed number of 32 bits. -/
def intCodec : Codec UInt8 Int32 where
  Valid _ := True
  enc x := Leb128.encode 5 x.toInt
  dec xs := (Leb128.decode xs).map fun r => (.ofInt r.1, r.2)
  dec_enc x rest _ := by
    rw [Leb128.decode_encode (fits_int32 x), Option.map_some]
    simp

/-- A packed number of 64 bits. -/
def longCodec : Codec UInt8 Int64 where
  Valid _ := True
  enc x := Leb128.encode 10 x.toInt
  dec xs := (Leb128.decode xs).map fun r => (.ofInt r.1, r.2)
  dec_enc x rest _ := by
    rw [Leb128.decode_encode (fits_int64 x), Option.map_some]
    simp

/-- An unsigned number of 32 bits. -/
def uintCodec : Codec UInt8 UInt32 :=
  intCodec.map (fun x => some x.toUInt32) UInt32.toInt32 fun _ => rfl

/-- An unsigned number of 64 bits. -/
def ulongCodec : Codec UInt8 UInt64 :=
  longCodec.map (fun x => some x.toUInt64) UInt64.toInt64 fun _ => rfl

/-- How many values follow. -/
def countCodec : Codec UInt8 Nat where
  Valid n := n < 2 ^ 32
  enc n := intCodec.enc (.ofNat n)
  dec xs := (intCodec.dec xs).map fun r => (r.1.toUInt32.toNat, r.2)
  dec_enc n rest hn := by
    have hcount : (Int32.ofNat n).toUInt32.toNat = n := by
      rw [show (Int32.ofNat n).toUInt32 = UInt32.ofNat n from rfl, UInt32.toNat_ofNat']
      exact Nat.mod_eq_of_lt hn
    rw [intCodec.dec_enc _ _ trivial, Option.map_some, hcount]

def CounterClass.ofInt32? (x : Int32) : Option CounterClass :=
  if x = 1 then some .delta else if x = 2 then some .absolute
  else if x = 3 then some .activity else none

def Display.ofInt32? (x : Int32) : Option Display :=
  if x = 1 then some .average else if x = 2 then some .accumulate else if x = 3 then some .hertz
  else if x = 4 then some .maximum else if x = 5 then some .minimum else none

def SeriesComposition.ofInt32? (x : Int32) : Option SeriesComposition :=
  if x = 1 then some .stacked else if x = 2 then some .overlay
  else if x = 3 then some .log10 else none

def RenderingType.ofInt32? (x : Int32) : Option RenderingType :=
  if x = 1 then some .fill else if x = 2 then some .line
  else if x = 3 then some .bar else none

def counterClassCodec : Codec UInt8 CounterClass :=
  intCodec.map CounterClass.ofInt32? CounterClass.toInt32 fun c => by cases c <;> rfl

def displayCodec : Codec UInt8 Display :=
  intCodec.map Display.ofInt32? Display.toInt32 fun c => by cases c <;> rfl

def seriesCompositionCodec : Codec UInt8 SeriesComposition :=
  intCodec.map SeriesComposition.ofInt32? SeriesComposition.toInt32 fun c => by cases c <;> rfl

def renderingTypeCodec : Codec UInt8 RenderingType :=
  intCodec.map RenderingType.ofInt32? RenderingType.toInt32 fun c => by cases c <;> rfl

/-- The characters before the first `NUL`. -/
def decodeNul : List UInt8 → Option (CString × List UInt8)
  | [] => none
  | b :: bs =>
    if h : 0 = b then some (⟨[], List.not_mem_nil⟩, bs)
    else (decodeNul bs).map fun r =>
      (⟨b :: r.1.chars, mt List.mem_cons.mp (not_or.mpr ⟨h, r.1.noNul⟩)⟩, r.2)

theorem decodeNul_append (str : CString) (rest : List UInt8) :
    decodeNul (str.chars ++ 0 :: rest) = some (str, rest) := by
  rcases str with ⟨chars, hnul⟩
  induction chars with
  | nil => simp [decodeNul]
  | cons b bs ih =>
    rcases not_or.mp (mt List.mem_cons.mpr hnul) with ⟨hb, hbs⟩
    have hrest := ih hbs
    dsimp only at hrest ⊢
    rw [List.cons_append, decodeNul, dif_neg hb, hrest, Option.map_some]

/-- A string with a `NUL` behind it. -/
def nulCodec : Codec UInt8 CString where
  Valid _ := True
  enc str := str.chars ++ [0]
  dec := decodeNul
  dec_enc str rest _ := by rw [List.append_assoc, List.singleton_append, decodeNul_append]

/-- A string at the end of the payload. -/
def textLayout : Layout UInt8 CString where
  Valid _ := True
  enc str := str.chars
  dec xs := if h : 0 ∉ xs then some ⟨xs, h⟩ else none
  dec_enc str _ := dif_pos str.noNul

/-! ## Messages -/

/-- The layout of a counter from its number of activities on. -/
def activitiesLayout (n : Nat) :
    Layout UInt8
      (UInt32 × UInt32 × List (CString × UInt32) × CString × CString × CString × CString) :=
  .field uintCodec (.field colorCodec (.field ((nulCodec.pair colorCodec).many n)
    (.field nulCodec (.field nulCodec (.field nulCodec textLayout)))))

def strLayout : Layout UInt8 (UInt64 × UInt32 × CString) :=
  .field ulongCodec (.field uintCodec textLayout)

def colorLayout : Layout UInt8 (UInt64 × UInt32 × UInt32 × CString) :=
  .field ulongCodec (.field uintCodec (.field colorCodec textLayout))

def nameChannelLayout : Layout UInt8 (UInt64 × UInt32 × UInt32 × CString) :=
  .field ulongCodec (.field uintCodec (.field uintCodec textLayout))

def nameGroupLayout : Layout UInt8 (UInt64 × UInt32 × CString) :=
  .field ulongCodec (.field uintCodec textLayout)

def visualLayout : Layout UInt8 (UInt64 × CString × Unit) :=
  .field ulongCodec (.field nulCodec .done)

def markerLayout : Layout UInt8 (UInt64 × CString) := .field ulongCodec textLayout

def markerColorLayout : Layout UInt8 (UInt64 × UInt32 × CString) :=
  .field ulongCodec (.field colorCodec textLayout)

def counterLayout : Layout UInt8 (UInt32 × Int32 × CounterClass × Display × UInt32 ×
    SeriesComposition × RenderingType × Int32 × Int32 × Int32 × Nat × UInt32 × UInt32 ×
    List (CString × UInt32) × CString × CString × CString × CString) :=
  .field uintCodec (.field intCodec (.field counterClassCodec (.field displayCodec
    (.field uintCodec (.field seriesCompositionCodec (.field renderingTypeCodec (.field intCodec
      (.field intCodec (.field intCodec (.dep countCodec activitiesLayout))))))))))

def counterValueLayout : Layout UInt8 (UInt64 × UInt32 × UInt32 × UInt32 × Unit) :=
  .field ulongCodec (.field uintCodec (.field uintCodec (.field uintCodec .done)))

def activitySwitchLayout : Layout UInt8 (UInt64 × UInt32 × UInt32 × UInt32 × UInt32 × Unit) :=
  .field ulongCodec (.field uintCodec
    (.field uintCodec (.field uintCodec (.field uintCodec .done))))

def camTrackLayout : Layout UInt8 (UInt32 × UInt32 × UInt32 × CString) :=
  .field uintCodec (.field uintCodec (.field uintCodec textLayout))

def camJobLayout : Layout UInt8 (UInt32 × UInt32 × UInt32 × UInt64 × UInt64 × UInt32 × UInt32 ×
    Nat × List UInt32 × CString) :=
  .field uintCodec (.field uintCodec (.field uintCodec (.field ulongCodec (.field ulongCodec
    (.field colorCodec (.field uintCodec (.dep countCodec fun n =>
      .field (uintCodec.many n) textLayout)))))))

def camNameLayout : Layout UInt8 (UInt32 × CString) := .field uintCodec textLayout

def camJobStartLayout : Layout UInt8 (UInt32 × UInt32 × UInt32 × UInt64 × UInt32 × CString) :=
  .field uintCodec (.field uintCodec (.field uintCodec (.field ulongCodec
    (.field colorCodec textLayout))))

def camJobSetDependenciesLayout :
    Layout UInt8 (UInt32 × UInt32 × UInt64 × UInt32 × Nat × List UInt32 × Unit) :=
  .field uintCodec (.field uintCodec (.field ulongCodec (.field uintCodec
    (.dep countCodec fun n => .field (uintCodec.many n) .done))))

def camJobStopLayout : Layout UInt8 (UInt32 × UInt32 × UInt64 × Unit) :=
  .field uintCodec (.field uintCodec (.field ulongCodec .done))

/-- The fields of a payload, by the header of the message. -/
def decodePayload (header : UInt8) (payload : List UInt8) : Option (Annotate CString) :=
  match header.toNat with
  | 0x01 => (strLayout.dec payload).map fun (time, channel, str) => .str time channel str
  | 0x02 => (colorLayout.dec payload).map fun (time, channel, color, str) =>
    .color time channel color str
  | 0x03 => (nameChannelLayout.dec payload).map fun (time, channel, group, str) =>
    .nameChannel time channel group str
  | 0x04 => (nameGroupLayout.dec payload).map fun (time, group, str) => .nameGroup time group str
  | 0x05 => (visualLayout.dec payload).map fun (time, str, _) => .visual time str
  | 0x06 => (markerLayout.dec payload).map fun (time, str) => .marker time str
  | 0x07 => (markerColorLayout.dec payload).map fun (time, color, str) =>
    .markerColor time color str
  | 0x08 => (counterLayout.dec payload).map fun (id, perCpu, counterClass, display, modifier,
      seriesComposition, renderingType, averageSelection, averageCores, percentage, _, cores,
      color, activities, title, name, units, description) =>
    .counter ⟨id, title, name, perCpu, counterClass, display, units, modifier, seriesComposition,
      renderingType, averageSelection, averageCores, percentage, activities, cores, color,
      description⟩
  | 0x09 => (counterValueLayout.dec payload).map fun (time, core, id, value, _) =>
    .counterValue time core id value
  | 0x0a => (activitySwitchLayout.dec payload).map fun (time, core, id, activity, tid, _) =>
    .activitySwitch time core id activity tid
  | 0x0b => (camTrackLayout.dec payload).map fun (viewUid, trackUid, parentTrack, name) =>
    .camTrack viewUid trackUid parentTrack name
  | 0x0c => (camJobLayout.dec payload).map fun (viewUid, jobUid, track, startTime, duration, color,
      primaryDependency, _, dependencies, name) =>
    .camJob viewUid jobUid name track startTime duration color primaryDependency dependencies
  | 0x0d => (camNameLayout.dec payload).map fun (viewUid, name) => .camName viewUid name
  | 0x0e => (camJobStartLayout.dec payload).map fun (viewUid, jobUid, track, time, color, name) =>
    .camJobStart viewUid jobUid name track time color
  | 0x0f => (camJobSetDependenciesLayout.dec payload).map
    fun (viewUid, jobUid, time, primaryDependency, _, dependencies, _) =>
      .camJobSetDependencies viewUid jobUid time primaryDependency dependencies
  | 0x10 => (camJobStopLayout.dec payload).map fun (viewUid, jobUid, time, _) =>
    .camJobStop viewUid jobUid time
  | _ => none

/-- The message that some bytes start with, and the bytes after it. -/
def decodeMessage (bytes : List UInt8) : Option (Annotate CString × List UInt8) :=
  (byteCodec.dec bytes).bind fun r =>
    (uint32Codec.dec r.2).bind fun s =>
      if s.1.toNat ≤ s.2.length then
        (decodePayload r.1 (s.2.take s.1.toNat)).map fun a => (a, s.2.drop s.1.toNat)
      else none

/-- Messages up to the end, of which there are at most `n`. -/
def decodeMessages : Nat → List UInt8 → Option (List (Annotate CString))
  | _, [] => some []
  | 0, _ :: _ => none
  | n + 1, b :: bs =>
    (decodeMessage (b :: bs)).bind fun r => (decodeMessages n r.2).map fun as => r.1 :: as

/-- The annotations of which some bytes are the messages. -/
def decodeAll (bytes : List UInt8) : Option (List (Annotate CString)) :=
  decodeMessages bytes.length bytes

/-! ## What is decoded -/

/-- A string without `NULL`. -/
def Pointer.toCString (str : Pointer) : CString := str.getD ⟨[], List.not_mem_nil⟩

theorem Pointer.chars_toCString (str : Pointer) : str.toCString.chars = str.chars := by
  cases str <;> rfl

/-- An annotation with its strings changed. -/
def GatorCounter.map {S T : Type} (f : S → T) (c : GatorCounter S) : GatorCounter T where
  id := c.id
  title := f c.title
  name := f c.name
  perCpu := c.perCpu
  counterClass := c.counterClass
  display := c.display
  units := f c.units
  modifier := c.modifier
  seriesComposition := c.seriesComposition
  renderingType := c.renderingType
  averageSelection := c.averageSelection
  averageCores := c.averageCores
  percentage := c.percentage
  activities := c.activities.map fun activity => (f activity.1, activity.2)
  cores := c.cores
  color := c.color
  description := f c.description

/-- An annotation with its strings changed. -/
def Annotate.map {S T : Type} (f : S → T) : Annotate S → Annotate T
  | .str time channel s => .str time channel (f s)
  | .color time channel c s => .color time channel c (f s)
  | .nameChannel time channel group s => .nameChannel time channel group (f s)
  | .nameGroup time group s => .nameGroup time group (f s)
  | .visual time s => .visual time (f s)
  | .marker time s => .marker time (f s)
  | .markerColor time c s => .markerColor time c (f s)
  | .counter c => .counter (c.map f)
  | .counterValue time core id value => .counterValue time core id value
  | .activitySwitch time core id activity tid => .activitySwitch time core id activity tid
  | .camTrack viewUid trackUid parentTrack name => .camTrack viewUid trackUid parentTrack (f name)
  | .camJob viewUid jobUid name track startTime duration c primaryDependency dependencies =>
    .camJob viewUid jobUid (f name) track startTime duration c primaryDependency dependencies
  | .camJobStart viewUid jobUid name track time c =>
    .camJobStart viewUid jobUid (f name) track time c
  | .camJobSetDependencies viewUid jobUid time primaryDependency dependencies =>
    .camJobSetDependencies viewUid jobUid time primaryDependency dependencies
  | .camJobStop viewUid jobUid time => .camJobStop viewUid jobUid time
  | .camName viewUid name => .camName viewUid (f name)

/-- The annotation as it is decoded. -/
def Annotate.sent (a : Annotate Pointer) : Annotate CString := a.map Pointer.toCString

/-- The bytes of fields that stand before one another. -/
theorem payload_append (fields fields' : List Field) : (fields ++ fields').flatMap Field.chars =
    fields.flatMap Field.chars ++ fields'.flatMap Field.chars := List.flatMap_append

/-- Fields of at least one byte. -/
theorem length_le_flatMap {α : Type} {f : α → List UInt8} {as : List α}
    (h : ∀ a ∈ as, f a ≠ []) : as.length ≤ (as.flatMap f).length := by
  induction as with
  | nil => exact Nat.le_refl 0
  | cons a as ih =>
    have ha := List.length_pos_iff.mpr (h a List.mem_cons_self)
    have has := ih fun b hb => h b (List.mem_cons_of_mem a hb)
    rw [List.flatMap_cons, List.length_append, List.length_cons]
    omega

theorem encode_ne_nil (n : Nat) (x : Int) : Leb128.encode (n + 1) x ≠ [] := by
  rw [Leb128.encode]
  split_ifs <;> simp

/-- Every dependency takes at least one byte. -/
theorem dependencies_lt {dependencies : List UInt32} {fields fields' : List Field}
    (h : ((fields ++ (dependencies.map fun d => Field.int d.toInt32) ++ fields').flatMap
      Field.chars).length < 2 ^ 32) : dependencies.length < 2 ^ 32 := by
  have hle : dependencies.length ≤
      ((dependencies.map fun d => Field.int d.toInt32).flatMap Field.chars).length := by
    rw [List.flatMap_map]
    exact length_le_flatMap fun d _ => encode_ne_nil 4 _
  rw [payload_append, payload_append, List.length_append, List.length_append] at h
  omega

/-- The activities of a counter. -/
def activityFields (activities : List (Pointer × UInt32)) : List Field :=
  activities.flatMap fun activity => [.bytes activity.1, .byte 0, .color activity.2]

theorem activityFields_eq (activities : List (Pointer × UInt32)) :
    (activityFields activities).flatMap Field.chars =
      (activities.map fun activity => (activity.1.toCString, activity.2)).flatMap
        (nulCodec.pair colorCodec).enc := by
  induction activities with
  | nil => rfl
  | cons activity activities ih =>
    rw [activityFields] at ih
    rw [activityFields, List.flatMap_cons, payload_append, List.map_cons, List.flatMap_cons, ih]
    simp [Codec.pair, nulCodec, colorCodec, Field.chars, Pointer.chars_toCString]

theorem activities_lt {activities : List (Pointer × UInt32)} {fields fields' : List Field}
    (h : ((fields ++ activityFields activities ++ fields').flatMap Field.chars).length < 2 ^ 32) :
    activities.length < 2 ^ 32 := by
  have hle : activities.length ≤ ((activityFields activities).flatMap Field.chars).length := by
    rw [activityFields_eq, ← List.length_map (fun activity => (activity.1.toCString, activity.2))]
    apply length_le_flatMap
    intro activity _
    simp [Codec.pair, nulCodec]
  rw [payload_append, payload_append, List.length_append, List.length_append] at h
  omega

theorem chars_bytes (str : Pointer) : (Field.bytes str).chars = textLayout.enc str.toCString :=
  str.chars_toCString.symm

theorem enc_nul (str : Pointer) : nulCodec.enc str.toCString = str.chars ++ [0] :=
  congrArg (· ++ [0]) str.chars_toCString

/-- The values of a counter, in the order of its layout. -/
def GatorCounter.values (c : GatorCounter CString) : UInt32 × Int32 × CounterClass × Display ×
    UInt32 × SeriesComposition × RenderingType × Int32 × Int32 × Int32 × Nat × UInt32 × UInt32 ×
    List (CString × UInt32) × CString × CString × CString × CString :=
  (c.id, c.perCpu, c.counterClass, c.display, c.modifier, c.seriesComposition, c.renderingType,
    c.averageSelection, c.averageCores, c.percentage, c.activities.length, c.cores, c.color,
    c.activities, c.title, c.name, c.units, c.description)

theorem enc_counterLayout (c : GatorCounter CString) : counterLayout.enc c.values =
    uintCodec.enc c.id ++ (intCodec.enc c.perCpu ++ (counterClassCodec.enc c.counterClass ++
      (displayCodec.enc c.display ++ (uintCodec.enc c.modifier ++
        (seriesCompositionCodec.enc c.seriesComposition ++
          (renderingTypeCodec.enc c.renderingType ++ (intCodec.enc c.averageSelection ++
            (intCodec.enc c.averageCores ++ (intCodec.enc c.percentage ++
              (countCodec.enc c.activities.length ++ (uintCodec.enc c.cores ++
                (colorCodec.enc c.color ++
                  (c.activities.flatMap (nulCodec.pair colorCodec).enc ++
                    (nulCodec.enc c.title ++ (nulCodec.enc c.name ++ (nulCodec.enc c.units ++
                      textLayout.enc c.description)))))))))))))))) := rfl

/-- The bytes of a counter. -/
theorem payload_counter (c : GatorCounter Pointer) :
    (gatorAnnotateWriteCounter c).payload = counterLayout.enc (c.map Pointer.toCString).values := by
  have hactivities := activityFields_eq c.activities
  rw [activityFields] at hactivities
  have hlength : (c.map Pointer.toCString).activities.length = c.activities.length :=
    List.length_map _
  have hmap : (c.map Pointer.toCString).activities =
      c.activities.map fun activity => (activity.1.toCString, activity.2) := rfl
  rw [enc_counterLayout, hlength, hmap, ← hactivities, Message.payload, gatorAnnotateWriteCounter,
    payload_append, payload_append]
  simp only [GatorCounter.map, enc_nul, ← chars_bytes, List.flatMap_cons, List.flatMap_nil,
    List.append_nil, List.append_assoc]
  rfl

/-- The bytes of a job. -/
theorem payload_dependencies (fields fields' : List Field) (dependencies : List UInt32) :
    (fields ++ (dependencies.map fun d => Field.int d.toInt32) ++ fields').flatMap Field.chars =
      fields.flatMap Field.chars ++ (dependencies.flatMap uintCodec.enc ++
        fields'.flatMap Field.chars) := by
  rw [payload_append, payload_append, List.flatMap_map, List.append_assoc]
  rfl

/-- What the fields of an annotation without an image say. -/
theorem decodePayload_sent (a : Annotate Pointer) (h : (a.message []).payload.length < 2 ^ 32) :
    decodePayload (a.message []).header (a.message []).payload = some a.sent := by
  cases a with
  | str time channel s =>
    refine congrArg (Option.map _) (strLayout.dec_of_eq (time, channel, s.toCString) ?_
      ⟨trivial, trivial, trivial⟩)
    simp only [Annotate.message, gatorAnnotateStr, Message.payload, List.flatMap_cons,
      List.flatMap_nil, List.append_nil, chars_bytes]
    rfl
  | color time channel c s =>
    refine congrArg (Option.map _) (colorLayout.dec_of_eq (time, channel, c, s.toCString) ?_
      ⟨trivial, trivial, trivial, trivial⟩)
    simp only [Annotate.message, gatorAnnotateColor, Message.payload, List.flatMap_cons,
      List.flatMap_nil, List.append_nil, chars_bytes]
    rfl
  | nameChannel time channel group s =>
    refine congrArg (Option.map _)
      (nameChannelLayout.dec_of_eq (time, channel, group, s.toCString) ?_
      ⟨trivial, trivial, trivial, trivial⟩)
    simp only [Annotate.message, gatorAnnotateNameChannel, Message.payload, List.flatMap_cons,
      List.flatMap_nil, List.append_nil, chars_bytes]
    rfl
  | nameGroup time group s =>
    refine congrArg (Option.map _) (nameGroupLayout.dec_of_eq (time, group, s.toCString) ?_
      ⟨trivial, trivial, trivial⟩)
    simp only [Annotate.message, gatorAnnotateNameGroup, Message.payload, List.flatMap_cons,
      List.flatMap_nil, List.append_nil, chars_bytes]
    rfl
  | visual time s =>
    refine congrArg (Option.map _) (visualLayout.dec_of_eq (time, s.toCString, ()) ?_
      ⟨trivial, trivial, trivial⟩)
    have henc : visualLayout.enc (time, s.toCString, ()) =
        ulongCodec.enc time ++ (nulCodec.enc s.toCString ++ []) := rfl
    rw [henc, enc_nul, List.append_assoc]
    rfl
  | marker time s =>
    refine congrArg (Option.map _)
      (markerLayout.dec_of_eq (time, s.toCString) ?_ ⟨trivial, trivial⟩)
    simp only [Annotate.message, gatorAnnotateMarker, Message.payload, List.flatMap_cons,
      List.flatMap_nil, List.append_nil, chars_bytes]
    rfl
  | markerColor time c s =>
    refine congrArg (Option.map _) (markerColorLayout.dec_of_eq (time, c, s.toCString) ?_
      ⟨trivial, trivial, trivial⟩)
    simp only [Annotate.message, gatorAnnotateMarkerColor, Message.payload, List.flatMap_cons,
      List.flatMap_nil, List.append_nil, chars_bytes]
    rfl
  | counter c =>
    have hcount : c.activities.length < 2 ^ 32 := activities_lt h
    have hvalid : counterLayout.Valid (c.map Pointer.toCString).values := by
      refine ⟨trivial, trivial, trivial, trivial, trivial, trivial, trivial, trivial, trivial,
        trivial, ?_, trivial, trivial, ⟨rfl, fun _ _ => ⟨trivial, trivial⟩⟩, trivial, trivial,
        trivial, trivial⟩
      exact (List.length_map _).trans_lt hcount
    exact congrArg (Option.map _) (counterLayout.dec_of_eq _ (payload_counter c) hvalid)
  | counterValue time core id value =>
    exact congrArg (Option.map _) (counterValueLayout.dec_of_eq (time, core, id, value, ()) rfl
      ⟨trivial, trivial, trivial, trivial, trivial⟩)
  | activitySwitch time core id activity tid =>
    exact congrArg (Option.map _)
      (activitySwitchLayout.dec_of_eq (time, core, id, activity, tid, ()) rfl
      ⟨trivial, trivial, trivial, trivial, trivial, trivial⟩)
  | camTrack viewUid trackUid parentTrack name =>
    refine congrArg (Option.map _)
      (camTrackLayout.dec_of_eq (viewUid, trackUid, parentTrack, name.toCString) ?_
        ⟨trivial, trivial, trivial, trivial⟩)
    simp only [Annotate.message, gatorAnnotateWriteCamTrack, Message.payload, List.flatMap_cons,
      List.flatMap_nil, List.append_nil, chars_bytes]
    rfl
  | camJob viewUid jobUid name track startTime duration c primaryDependency dependencies =>
    have hcount : dependencies.length < 2 ^ 32 := dependencies_lt h
    refine congrArg (Option.map _)
      (camJobLayout.dec_of_eq (viewUid, jobUid, track, startTime, duration,
      c, primaryDependency, dependencies.length, dependencies, name.toCString) ?_
      ⟨trivial, trivial, trivial, trivial, trivial, trivial, trivial, hcount,
        ⟨rfl, fun _ _ => trivial⟩, trivial⟩)
    rw [Annotate.message, Message.payload, gatorCamJob, payload_dependencies]
    simp only [List.flatMap_cons, List.flatMap_nil, List.append_nil, List.append_assoc, chars_bytes]
    rfl
  | camJobStart viewUid jobUid name track time c =>
    refine congrArg (Option.map _)
      (camJobStartLayout.dec_of_eq (viewUid, jobUid, track, time, c, name.toCString) ?_
        ⟨trivial, trivial, trivial, trivial, trivial, trivial⟩)
    simp only [Annotate.message, gatorCamJobStart, Message.payload, List.flatMap_cons,
      List.flatMap_nil, List.append_nil, chars_bytes]
    rfl
  | camJobSetDependencies viewUid jobUid time primaryDependency dependencies =>
    have hpayload : (gatorCamJobSetDependencies viewUid jobUid time primaryDependency
        dependencies).payload = camJobSetDependenciesLayout.enc (viewUid, jobUid, time,
          primaryDependency, dependencies.length, dependencies, ()) := by
      have hfields := payload_dependencies [.int viewUid.toInt32, .int jobUid.toInt32,
        .long time.toInt64, .int primaryDependency.toInt32, .int (.ofNat dependencies.length)] []
        dependencies
      rw [List.append_nil] at hfields
      rw [Message.payload, gatorCamJobSetDependencies, hfields]
      simp only [List.flatMap_cons, List.append_assoc]
      rfl
    have hcount : dependencies.length < 2 ^ 32 := by
      apply dependencies_lt
      rw [List.append_nil]
      exact h
    exact congrArg (Option.map _) (camJobSetDependenciesLayout.dec_of_eq (viewUid, jobUid, time,
      primaryDependency, dependencies.length, dependencies, ()) hpayload
      ⟨trivial, trivial, trivial, trivial, hcount, ⟨rfl, fun _ _ => trivial⟩, trivial⟩)
  | camJobStop viewUid jobUid time =>
    exact congrArg (Option.map _) (camJobStopLayout.dec_of_eq (viewUid, jobUid, time, ()) rfl
      ⟨trivial, trivial, trivial, trivial⟩)
  | camName viewUid name =>
    refine congrArg (Option.map _) (camNameLayout.dec_of_eq (viewUid, name.toCString) ?_
      ⟨trivial, trivial⟩)
    simp only [Annotate.message, gatorAnnotateWriteCamName, Message.payload, List.flatMap_cons,
      List.flatMap_nil, List.append_nil, chars_bytes]
    rfl

/-- A message without an image, and what follows it. -/
theorem decodeMessage_chars (a : Annotate Pointer)
    (h : (a.message []).payload.length < 2 ^ 32) (rest : List UInt8) :
    decodeMessage ((a.message []).chars ++ rest) = some (a.sent, rest) := by
  have himage : (a.message []).image = [] := by cases a <;> rfl
  have hlength : (UInt32.ofNat (a.message []).payload.length).toNat =
      (a.message []).payload.length := by
    rw [UInt32.toNat_ofNat']
    exact Nat.mod_eq_of_lt h
  have hbyte : ∀ (b : UInt8) (bs : List UInt8), byteCodec.dec (b :: bs) = some (b, bs) :=
    fun _ _ => rfl
  have huint32 := uint32Codec.dec_enc (.ofNat (a.message []).payload.length)
    ((a.message []).payload ++ rest) trivial
  rw [decodeMessage, Message.chars, himage, List.length_nil, Nat.add_zero, List.append_assoc,
    List.cons_append, hbyte, Option.bind_some]
  rw [show bytesOfUint32 = uint32Codec.enc from rfl, huint32, Option.bind_some]
  rw [hlength, if_pos (by simp), List.take_left, List.drop_left, decodePayload_sent a h,
    Option.map_some]

/-- The messages of some annotations. -/
theorem decodeAll_chars {as : List (Annotate Pointer)}
    (h : ∀ a ∈ as, (a.message []).payload.length < 2 ^ 32) :
    decodeAll (as.flatMap fun a => (a.message []).chars) = some (as.map Annotate.sent) := by
  have hmore : ∀ (as : List (Annotate Pointer)) (n : Nat),
      (∀ a ∈ as, (a.message []).payload.length < 2 ^ 32) → as.length ≤ n →
      decodeMessages n (as.flatMap fun a => (a.message []).chars) =
        some (as.map Annotate.sent) := by
    intro as
    induction as with
    | nil =>
      intro n _ _
      cases n <;> rfl
    | cons a as ih =>
      intro n has hn
      rcases List.forall_mem_cons.mp has with ⟨ha, has⟩
      cases n with
      | zero => cases hn
      | succ n =>
        have hmessage := decodeMessage_chars a ha (as.flatMap fun a => (a.message []).chars)
        have hcons : (a.message []).chars ++ (as.flatMap fun a => (a.message []).chars) =
            (a.message []).header :: (bytesOfUint32 (.ofNat ((a.message []).payload.length +
              (a.message []).image.length)) ++ ((a.message []).payload ++
                as.flatMap fun a => (a.message []).chars)) := by
          rw [Message.chars, List.append_assoc, List.cons_append]
        rw [List.flatMap_cons, hcons, decodeMessages, ← hcons, hmessage, Option.bind_some,
          ih n has (Nat.le_of_succ_le_succ hn), Option.map_some, List.map_cons]
  apply hmore as _ h
  apply length_le_flatMap
  intro a _
  rw [Message.chars]
  exact List.cons_ne_nil _ _

/-! ## What is read from the ring -/

/-- An annotation without an image, and the position up to which the sender has sent when its wait
    ends. -/
structure Call where
  args : Annotate Pointer
  readPos : Nat

namespace Call

def message (c : Call) : Message := c.args.message []

/-- The thread after a call. -/
def step (thread : GatorThread) (c : Call) : Option GatorThread :=
  c.message.annotate c.readPos thread

/-- The call does not wait for ever. -/
def Returns (thread : GatorThread) (c : Call) : Prop :=
  c.message.TooLarge ∨ c.message.WaitEnds { thread with readPos := c.readPos }

/-- The calls whose messages are not too large. -/
def accepted (calls : List Call) : List Call := calls.filter fun c => ¬ c.message.TooLarge

end Call

/-- A packed number takes at most 5 bytes if it has 32 bits, and at most 10 if it has 64. -/
def Field.Short : Field → Prop
  | .time t => (Field.time t).chars.length ≤ 10
  | .int x => (Field.int x).chars.length ≤ 5
  | .long x => (Field.long x).chars.length ≤ 10
  | _ => True

theorem Field.short (f : Field) : f.Short := by
  cases f with
  | time t => exact Leb128.length_encode_le 10 _
  | int x => exact Leb128.length_encode_le 5 _
  | long x => exact Leb128.length_encode_le 10 _
  | color c => trivial
  | bytes str => trivial
  | byte b => trivial

namespace GatorThread

/-- How many bytes there are from the write position of a thread to that of another one. -/
def written (thread thread' : GatorThread) : Nat :=
  (thread'.writePos + threadBufferSize - thread.writePos) % threadBufferSize

/-- The calls return, the bytes between the write positions are read as the annotations, and no
    other byte changes. -/
def Decodes (thread : GatorThread) (calls : List Call) (as : List (Annotate CString)) : Prop :=
  ∃ thread', run Call.step thread calls = some thread' ∧
    decodeAll (Ring.get threadBufferSize thread'.buf thread.writePos (thread.written thread')) =
      some as ∧
    (∀ c ∈ calls, ∀ f ∈ c.message.fields, f.Short) ∧
    ∀ pos, (∀ k < thread.written thread', Ring.advance threadBufferSize thread.writePos k ≠ pos) →
      thread'.buf pos = thread.buf pos

/-- The thread after some calls. -/
theorem run_step {thread : GatorThread} {calls : List Call}
    (hpos : thread.writePos < threadBufferSize)
    (hfit : ((Call.accepted calls).flatMap fun c => c.message.chars).length ≤ threadBufferSize)
    (hreturns : StepsMeet Call.step Call.Returns thread calls) :
    ∃ thread', run Call.step thread calls = some thread' ∧
      thread'.buf = Ring.put threadBufferSize thread.buf thread.writePos
        ((Call.accepted calls).flatMap fun c => c.message.chars) ∧
      thread'.writePos = Ring.advance threadBufferSize thread.writePos
        ((Call.accepted calls).flatMap fun c => c.message.chars).length := by
  induction calls generalizing thread with
  | nil =>
    refine ⟨thread, rfl, ?_, ?_⟩
    · exact (Ring.put_nil _ _).symm
    · exact (Ring.advance_zero hpos).symm
  | cons c calls ih =>
    rcases hreturns with ⟨hreturn, hrest⟩
    by_cases hlarge : c.message.TooLarge
    · have hstep : Call.step thread c = some thread := if_pos hlarge
      have haccepted : Call.accepted (c :: calls) = Call.accepted calls := by
        simp [Call.accepted, hlarge]
      rw [haccepted] at hfit ⊢
      rw [run_cons, hstep, Option.bind_some]
      exact ih hpos hfit (hrest thread hstep)
    · have haccepted : Call.accepted (c :: calls) = c :: Call.accepted calls := by
        simp [Call.accepted, hlarge]
      rw [haccepted, List.flatMap_cons, List.length_append, Message.length_chars] at hfit
      have hwrite := @Message.write_eq c.message { thread with readPos := c.readPos } hpos
        (Nat.le_of_add_right_le hfit)
      have hstep : Call.step thread c = c.message.write { thread with readPos := c.readPos } := by
        rw [Call.step, Message.annotate, if_neg hlarge]
        exact if_pos (hreturn.resolve_left hlarge)
      rw [hwrite] at hstep
      rcases ih (Ring.advance_lt hpos) (Nat.le_of_add_left_le hfit) (hrest _ hstep) with
        ⟨thread', hrun, hbuf, hwritePos⟩
      refine ⟨thread', ?_, ?_, ?_⟩
      · rw [run_cons, hstep, Option.bind_some, hrun]
      · rw [hbuf, haccepted, List.flatMap_cons, ← Message.length_chars]
        apply Ring.put_append _ hpos
        rw [Message.length_chars]
        exact hfit
      · rw [hwritePos, Ring.advance_advance, haccepted, List.flatMap_cons, List.length_append,
          Message.length_chars]

/-- The annotations that fit into the free part of the ring and are not too large are read back. -/
theorem decodes_of_fit {thread : GatorThread} {calls : List Call}
    (hpos : thread.writePos < threadBufferSize)
    (hfit : ((Call.accepted calls).map fun c => c.message.size).sum ≤ gatorBufFree thread)
    (hreturns : StepsMeet Call.step Call.Returns thread calls) :
    thread.Decodes calls ((Call.accepted calls).map fun c => c.args.sent) := by
  have hlength : ((Call.accepted calls).flatMap fun c => c.message.chars).length =
      ((Call.accepted calls).map fun c => c.message.size).sum := by
    rw [List.length_flatMap]
    simp only [Message.length_chars]
  have hfree : gatorBufFree thread < threadBufferSize := Nat.mod_lt _ (by decide)
  rw [← hlength] at hfit
  have hlt := Nat.lt_of_le_of_lt hfit hfree
  rcases run_step hpos (Nat.le_of_lt hlt) hreturns with ⟨thread', hrun, hbuf, hwritePos⟩
  have hwritten : thread.written thread' =
      ((Call.accepted calls).flatMap fun c => c.message.chars).length := by
    have hsize : threadBufferSize = 65536 := rfl
    rw [written, hwritePos, Ring.advance_eq hpos (Nat.le_of_lt hlt)]
    rw [hsize] at hpos hlt ⊢
    split_ifs <;> omega
  have hsizes : ∀ a ∈ (Call.accepted calls).map Call.args,
      (a.message []).payload.length < 2 ^ 32 := by
    intro a ha
    rcases List.mem_map.mp ha with ⟨c, hc, rfl⟩
    have hle := List.single_le_sum (fun _ _ => Nat.zero_le _) _
      (List.mem_map_of_mem (f := fun c : Call => c.message.size) hc)
    rw [← hlength, Message.size] at hle
    have hsize : threadBufferSize = 65536 := rfl
    rw [hsize] at hlt
    change c.message.payload.length < 2 ^ 32
    omega
  refine ⟨thread', hrun, ?_, fun _ _ f _ => f.short, fun pos hother => ?_⟩
  · have hdecode := decodeAll_chars hsizes
    rw [List.flatMap_map, List.map_map] at hdecode
    rw [hwritten, hbuf, Ring.get_put hpos (Nat.le_of_lt hlt)]
    exact hdecode
  · rw [hwritten] at hother
    rw [hbuf]
    exact Ring.put_other hother hpos

/-- An empty ring, at a position. -/
def emptyRing (pos : Nat) : GatorThread where
  buf _ := 0
  writePos := pos
  readPos := pos

/-- A job with two dependencies and without a name. -/
def namelessJob : Call where
  args := .camJob 1 2 none 3 400 500 0xff00ff00 0xffffffff [7, 300]
  readPos := 65530

/-- Its end, for which the sender has read all that was written before. -/
def jobStop : Call where
  args := .camJobStop 1 2 900
  readPos := 65530

/-- The message of the job wraps, and another one follows it. -/
theorem decodes_namelessJob :
    (emptyRing 65530).Decodes [namelessJob, jobStop]
      [namelessJob.args.sent, jobStop.args.sent] := by
  have hnext : (Call.step (emptyRing 65530) namelessJob).map
      (fun thread => decide (jobStop.message.WaitEnds { thread with readPos := 65530 })) =
        some true := by decide
  have hdecodes := @decodes_of_fit (emptyRing 65530) [namelessJob, jobStop] (by decide) (by decide)
    ⟨Or.inr (by decide), fun thread hthread => ⟨Or.inr ?_, fun _ _ => trivial⟩⟩
  · exact hdecodes
  · rw [hthread] at hnext
    exact of_decide_eq_true (Option.some.inj hnext)

/-- A string that takes more than half of the ring. -/
def largeText : Pointer :=
  some ⟨List.replicate 40000 1, fun h => absurd (List.eq_of_mem_replicate h) (by decide)⟩

def largeString : Call where
  args := .str 0 0 largeText
  readPos := 0

/-- The string would fit, but is not written. -/
theorem not_decodes_largeString :
    (([largeString].map fun c => c.message.size).sum ≤ gatorBufFree (emptyRing 0) ∧
      StepsMeet Call.step Call.Returns (emptyRing 0) [largeString]) ∧
    ¬ (emptyRing 0).Decodes [largeString] [largeString.args.sent] := by
  have hmessage : largeString.message = gatorAnnotateStr 0 0 largeText := rfl
  have hchars : largeText.chars.length = 40000 := by
    rw [Pointer.chars, largeText, Option.map_some, Option.getD_some, List.length_replicate]
  have hpayload : ∀ str : Pointer, (gatorAnnotateStr 0 0 str).payload =
      [0] ++ ([0] ++ (str.chars ++ [])) := fun _ => rfl
  have hsize : largeString.message.size = 40007 := by
    rw [Message.size, hmessage, hpayload, List.length_append, List.length_append,
      List.length_append, hchars]
    decide
  have hlarge : largeString.message.TooLarge := by
    have hreserved : ∀ str : Pointer, (gatorAnnotateStr 0 0 str).reserved =
        1 + 4 + 10 + 5 + (UInt32.ofNat str.chars.length).toNat := fun _ => rfl
    rw [Message.TooLarge, Message.bytes, hmessage, hreserved, hchars]
    decide
  refine ⟨⟨?_, Or.inl hlarge, fun _ _ => trivial⟩, fun h => ?_⟩
  · rw [List.map_singleton, List.sum_singleton, hsize]
    decide
  · rcases h with ⟨thread', hrun, hdecode, -⟩
    have hstep : Call.step (emptyRing 0) largeString = some (emptyRing 0) := by
      rw [Call.step, Message.annotate, if_pos hlarge]
    rw [run_cons, hstep, Option.bind_some, run_nil, Option.some_inj] at hrun
    subst hrun
    cases hdecode

end GatorThread

end LibCollector.Streamline
