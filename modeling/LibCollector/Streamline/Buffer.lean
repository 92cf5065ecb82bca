import LibCollector.Misc.Leb128
import LibCollector.Misc.Ring

/-!
# The ring of a thread

The `gator_buf_write_*` functions of `src/collectors/streamline_annotate.cpp`. A write
takes the buffer and the position, and returns them with the number of bytes that it adds to
the length of the message. A `memcpy` that leaves the buffer is `none`.
-/

namespace LibCollector.Streamline

open LibCollector.Misc

/-- `THREAD_BUFFER_SIZE`. -/
def threadBufferSize : Nat := 65536

/-- The buffer and the position that are passed to a write. -/
structure Cursor where
  buf : Nat → UInt8
  pos : Nat

/-- `gator_buf_pos`. -/
def gatorBufPos (pos : Nat) : Nat := pos % threadBufferSize

/-- `gator_buf_write_byte`. -/
def gatorBufWriteByte (b : UInt8) (w : Cursor) : Cursor × Nat :=
  (⟨Function.update w.buf w.pos b, gatorBufPos (w.pos + 1)⟩, 1)

/-- Four bytes at the positions from the given one on. -/
def writeFour (b₀ b₁ b₂ b₃ : UInt8) (w : Cursor) : Cursor × Nat :=
  let buf := Function.update w.buf (gatorBufPos (w.pos + 0)) b₀
  let buf := Function.update buf (gatorBufPos (w.pos + 1)) b₁
  let buf := Function.update buf (gatorBufPos (w.pos + 2)) b₂
  let buf := Function.update buf (gatorBufPos (w.pos + 3)) b₃
  (⟨buf, gatorBufPos (w.pos + 4)⟩, 4)

/-- `gator_buf_write_uint32`. -/
def gatorBufWriteUint32 (i : UInt32) : Cursor → Cursor × Nat :=
  writeFour i.toUInt8 (i >>> 8).toUInt8 (i >>> 16).toUInt8 (i >>> 24).toUInt8

/-- `gator_buf_write_color`. -/
def gatorBufWriteColor (color : UInt32) : Cursor → Cursor × Nat :=
  writeFour (color >>> 8).toUInt8 (color >>> 16).toUInt8 (color >>> 24).toUInt8 color.toUInt8

/-- The loop of `gator_buf_write_int` and `gator_buf_write_long`, for the bytes that are packed
    already and a bound on the bytes to come. -/
def packLoop (pos : Nat) : Nat → (Nat → UInt8) → Nat → Int → (Nat → UInt8) × Nat
  | 0, buf, packedBytes, _ => (buf, packedBytes)
  | n + 1, buf, packedBytes, x =>
    let b := Leb128.low x
    if Leb128.Last x then
      (Function.update buf (gatorBufPos (pos + packedBytes)) (.ofNat b), packedBytes + 1)
    else
      packLoop pos n (Function.update buf (gatorBufPos (pos + packedBytes)) (.ofNat (b + 128)))
        (packedBytes + 1) (x / 128)

/-- A number of at most `n` bytes. -/
def writePacked (n : Nat) (x : Int) (w : Cursor) : Cursor × Nat :=
  let r := packLoop w.pos n w.buf 0 x
  (⟨r.1, gatorBufPos (w.pos + r.2)⟩, r.2)

/-- `gator_buf_write_int`. -/
def gatorBufWriteInt (x : Int32) : Cursor → Cursor × Nat := writePacked 5 x.toInt

/-- `gator_buf_write_long`. -/
def gatorBufWriteLong (x : Int64) : Cursor → Cursor × Nat := writePacked 10 x.toInt

/-- `gator_buf_write_time`, for the time that is read. -/
def gatorBufWriteTime (time : UInt64) : Cursor → Cursor × Nat := gatorBufWriteLong time.toInt64

/-- `gator_buf_write_bytes`. -/
def gatorBufWriteBytes (data : List UInt8) (count : UInt32) (w : Cursor) : Option (Cursor × Nat) :=
  let count := count.toNat
  if (w.pos + count) % 2 ^ 32 ≤ threadBufferSize then
    if w.pos + count ≤ threadBufferSize then
      some (⟨Ring.copy w.buf w.pos (data.take count), gatorBufPos (w.pos + count)⟩, count)
    else none
  else
    let first := threadBufferSize - w.pos
    let second := count - first
    if second ≤ threadBufferSize then
      some (⟨Ring.copy (Ring.copy w.buf w.pos (data.take first)) 0 ((data.drop first).take second),
        gatorBufPos (w.pos + count)⟩, count)
    else none

/-- The loop ends before the bound. -/
theorem packLoop_add {pos n : Nat} (k : Nat) {x : Int} (h : Leb128.Fits n x) (buf : Nat → UInt8)
    (packedBytes : Nat) :
    packLoop pos (n + 1 + k) buf packedBytes x = packLoop pos (n + 1) buf packedBytes x := by
  induction n generalizing buf packedBytes x with
  | zero =>
    have hlast := Leb128.last_iff.mpr h
    rw [Nat.zero_add, Nat.add_comm, packLoop, packLoop, if_pos hlast, if_pos hlast]
  | succ n ih =>
    rw [show n + 1 + 1 + k = n + 1 + k + 1 by omega, packLoop, packLoop]
    split_ifs with hlast
    · rfl
    · rw [ih (Leb128.fits_div.mpr h)]

theorem fits_int32 (x : Int32) : Leb128.Fits 4 x.toInt := by
  have hlow := x.le_toInt
  have hhigh := x.toInt_lt
  constructor <;> omega

theorem fits_int64 (x : Int64) : Leb128.Fits 9 x.toInt := by
  have hlow := x.le_toInt
  have hhigh := x.toInt_lt
  constructor <;> omega

/-! ## What is written -/

/-- The cursor after some bytes have been written. -/
def Cursor.put (w : Cursor) (bytes : List UInt8) : Cursor where
  buf := Ring.put threadBufferSize w.buf w.pos bytes
  pos := Ring.advance threadBufferSize w.pos bytes.length

/-- A cursor in the ring. -/
def Cursor.InRing (w : Cursor) : Prop := w.pos < threadBufferSize

theorem Cursor.InRing.put {w : Cursor} (h : w.InRing) (bytes : List UInt8) : (w.put bytes).InRing :=
  Ring.advance_lt h

theorem Cursor.put_put {w : Cursor} (h : w.InRing) {xs ys : List UInt8}
    (hlen : xs.length + ys.length ≤ threadBufferSize) : (w.put xs).put ys = w.put (xs ++ ys) := by
  simp only [Cursor.put, Ring.put_append _ h _ _ hlen, Ring.advance_advance, List.length_append]

/-- One more byte, at the position after some bytes. -/
theorem update_put (buf : Nat → UInt8) {pos : Nat} (h : pos < threadBufferSize) (xs : List UInt8)
    (hlen : xs.length < threadBufferSize) (b : UInt8) :
    Function.update (Ring.put threadBufferSize buf pos xs) (gatorBufPos (pos + xs.length)) b =
      Ring.put threadBufferSize buf pos (xs ++ [b]) := by
  have hpos : gatorBufPos (pos + xs.length) = Ring.advance threadBufferSize pos xs.length := rfl
  rw [hpos, Ring.update_eq_put (Ring.advance_lt h), Ring.put_append _ h]
  rw [List.length_singleton]
  exact hlen

theorem gatorBufWriteByte_eq {w : Cursor} (h : w.InRing) (b : UInt8) :
    gatorBufWriteByte b w = (w.put [b], 1) := by
  rw [gatorBufWriteByte, Ring.update_eq_put h]
  rfl

theorem writeFour_eq {w : Cursor} (h : w.InRing) (b₀ b₁ b₂ b₃ : UInt8) :
    writeFour b₀ b₁ b₂ b₃ w = (w.put [b₀, b₁, b₂, b₃], 4) := by
  have hnil : w.buf = Ring.put threadBufferSize w.buf w.pos [] := (Ring.put_nil _ _).symm
  have hone := update_put w.buf h [] (by decide) b₀
  have htwo := update_put w.buf h [b₀] (show 1 < 65536 by decide) b₁
  have hthree := update_put w.buf h [b₀, b₁] (show 2 < 65536 by decide) b₂
  have hfour := update_put w.buf h [b₀, b₁, b₂] (show 3 < 65536 by decide) b₃
  rw [← hnil] at hone
  simp only [List.length_nil, List.length_cons, List.nil_append,
    List.cons_append] at hone htwo hthree hfour
  simp only [writeFour, hone, htwo, hthree, hfour]
  rfl

/-- The bytes of the loop, after those that are packed already. -/
theorem packLoop_eq (buf : Nat → UInt8) {pos : Nat} (h : pos < threadBufferSize) (n : Nat)
    (xs : List UInt8) (x : Int) (hlen : xs.length + n ≤ threadBufferSize) :
    packLoop pos n (Ring.put threadBufferSize buf pos xs) xs.length x =
      (Ring.put threadBufferSize buf pos (xs ++ Leb128.encode n x),
        xs.length + (Leb128.encode n x).length) := by
  induction n generalizing xs x with
  | zero => simp [packLoop, Leb128.encode]
  | succ n ih =>
    have hlt : xs.length < threadBufferSize := by omega
    rw [packLoop, Leb128.encode]
    rw [update_put buf h xs hlt, update_put buf h xs hlt]
    split_ifs with hlast
    · rfl
    · have hrest := ih (xs ++ [.ofNat (Leb128.low x + 128)]) (x / 128) (by simp; omega)
      simp only [List.length_append, List.length_singleton, List.append_assoc,
        List.singleton_append] at hrest
      rw [hrest, List.length_cons, Nat.add_assoc, Nat.add_comm 1]

theorem writePacked_eq {w : Cursor} (h : w.InRing) {n : Nat} (hn : n ≤ threadBufferSize) (x : Int) :
    writePacked n x w = (w.put (Leb128.encode n x), (Leb128.encode n x).length) := by
  have hloop := packLoop_eq w.buf h n [] x (by simpa using hn)
  rw [Ring.put_nil, List.nil_append, List.length_nil, Nat.zero_add] at hloop
  rw [writePacked, hloop]
  rfl

/-- A copy of at most the size of the ring. -/
theorem gatorBufWriteBytes_eq {w : Cursor} (h : w.InRing) {data : List UInt8}
    (hlen : data.length ≤ threadBufferSize) :
    gatorBufWriteBytes data (.ofNat data.length) w = some (w.put data, data.length) := by
  have hsize : threadBufferSize = 65536 := rfl
  have hpos : w.pos < 65536 := h
  have hcount : (UInt32.ofNat data.length).toNat = data.length := by
    rw [UInt32.toNat_ofNat']
    exact Nat.mod_eq_of_lt (by omega)
  have hmod : (w.pos + data.length) % 2 ^ 32 = w.pos + data.length := Nat.mod_eq_of_lt (by omega)
  rw [gatorBufWriteBytes]
  dsimp only
  rw [hcount, hmod]
  by_cases hend : w.pos + data.length ≤ threadBufferSize
  · rw [if_pos hend, if_pos hend, List.take_length, Ring.copy_eq_put hend]
    rfl
  · have hdrop : (data.drop (threadBufferSize - w.pos)).take
        (data.length - (threadBufferSize - w.pos)) = data.drop (threadBufferSize - w.pos) := by
      apply List.take_of_length_le
      rw [List.length_drop]
    rw [if_neg hend, if_pos (by omega), hdrop,
      Ring.copy_copy_eq_put h (Nat.not_le.mp hend) hlen]
    rfl

end LibCollector.Streamline
