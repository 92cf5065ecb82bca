import LibCollector.Streamline.Reserve

/-!
# The sender

`gator_send` and the lines of `gator_func` that call it, of
`src/collectors/streamline_annotate.cpp`, beside a thread that annotates. A step is a store
of the writer, a load of the sender, or one `send`, which may send less than it is asked to.
What is sent is the committed messages in order, each with its image (`SentInOrder`), as long
as no step of the run takes the sender past what it has read of `write_pos` (`InOrder`).
-/

namespace LibCollector.Streamline

open LibCollector.Misc

/-! ## States -/

/-- Where the writer is: between two messages, in `gator_annotate_visual` before it publishes the
    image, or in the loop after that. -/
inductive WriterState where
  | idle
  | publish (image : List UInt8)
  | wait
  deriving DecidableEq

/-- Where the writer goes on when it has committed a message. -/
def WriterState.afterHeader (image : List UInt8) : WriterState :=
  if image = [] then .idle else .publish image

/-- Where the sender is, with the `write_pos` that it has read: before the test in `gator_func`,
    or before one of the three `send` calls of `gator_send`. It stops when a `send` fails. -/
inductive SenderState where
  | idle
  | test (writePos : Nat)
  | first (writePos : Nat)
  | second (writePos : Nat)
  | oob
  | stopped
  deriving DecidableEq

/-- A thread with its writer and its sender, the messages that have been committed and the bytes
    that have been sent on a connection. -/
structure SendState where
  thread : GatorThread
  writer : WriterState := .idle
  sender : SenderState := .idle
  committed : List Message := []
  sent : List UInt8 := []

/-- A step of the writer, which commits a message, publishes an image or finds that it has been
    sent, or of the sender, which reads `write_pos`, tests it or sends some bytes. -/
inductive SendAction where
  | commit (m : Message)
  | publish
  | resume
  | snapshot
  | test
  | send (count : Nat)

namespace SendState

/-- A connection that nothing has been sent on, for a ring that is empty. -/
def new (buf : Nat → UInt8) (pos : Nat) : SendState where
  thread := { buf := buf, writePos := pos, readPos := pos }

/-- The logical stream: the bytes of each message, and then its image. -/
def stream (s : SendState) : List UInt8 := s.committed.flatMap fun m => m.cut.chars ++ m.image

/-- The writer is ready, and there is room for the message. -/
def Commits (s : SendState) (m : Message) : Prop :=
  s.writer = .idle ∧ ¬ m.TooLarge ∧ m.WaitEnds s.thread

instance (s : SendState) (m : Message) : Decidable (s.Commits m) :=
  inferInstanceAs (Decidable (_ ∧ _))

/-- `gator_stop_capturing`. The connection is closed. -/
def gatorStopCapturing (s : SendState) : SendState :=
  { s with
    thread := { s.thread with readPos := s.thread.writePos, oob := [] }
    sender := .stopped }

/-- How many bytes the next `send` is asked to send. -/
def asked (s : SendState) : Nat :=
  match s.sender with
  | .first writePos =>
    if s.thread.readPos < writePos then writePos - s.thread.readPos
    else threadBufferSize - s.thread.readPos
  | .second writePos => writePos
  | .oob => s.thread.oob.length
  | _ => 0

/-- A `send` from a position of the ring. On a short write the sender goes on with other threads. -/
def sendRing (s : SendState) (pos : Nat) (next : SenderState) (count : Nat) : SendState :=
  if count = 0 then s.gatorStopCapturing
  else
    { s with
      thread := { s.thread with readPos := gatorBufPos (s.thread.readPos + count) }
      sender := if count = s.asked then next else .idle
      sent := s.sent ++ (List.range count).map fun i => s.thread.buf (pos + i) }

/-- A `send` of the image, if there is one. -/
def sendOob (s : SendState) (count : Nat) : SendState :=
  if s.thread.oob = [] then { s with sender := .idle }
  else if count = 0 then s.gatorStopCapturing
  else
    { s with
      thread := { s.thread with oob := s.thread.oob.drop count }
      sender := .idle
      sent := s.sent ++ s.thread.oob.take count }

/-- `gator_send`, from where it is up to the next `send`. -/
def gatorSend (s : SendState) (count : Nat) : SendState :=
  match s.sender with
  | .first writePos =>
    if s.thread.readPos < writePos then s.sendRing s.thread.readPos .oob count
    else s.sendRing s.thread.readPos (.second writePos) count
  | .second _ => s.sendRing 0 .oob count
  | .oob => s.sendOob count
  | _ => s

/-- A step that is not possible in a state leaves it as it is. -/
def step (s : SendState) : SendAction → Option SendState
  | .commit m =>
    if s.Commits m then
      (m.write s.thread).map fun thread =>
        { s with
          thread := thread
          writer := .afterHeader m.image
          committed := s.committed ++ [m] }
    else some s
  | .publish =>
    match s.writer with
    | .publish image => some { s with thread := { s.thread with oob := image }, writer := .wait }
    | _ => some s
  | .resume =>
    if s.writer = .wait ∧ s.thread.oob = [] then some { s with writer := .idle } else some s
  | .snapshot =>
    if s.sender = .idle then some { s with sender := .test s.thread.writePos } else some s
  | .test =>
    match s.sender with
    | .test writePos =>
      if writePos ≠ s.thread.readPos ∨ s.thread.oob ≠ [] then
        some { s with sender := .first writePos }
      else some { s with sender := .idle }
    | _ => some s
  | .send count => if count ≤ s.asked then some (s.gatorSend count) else some s

/-- In every state of a run, the bytes that have been sent are the beginning of the stream. -/
def SentInOrder (s : SendState) (actions : List SendAction) : Prop :=
  ∀ pre, pre <+: actions → ∃ t, run step s pre = some t ∧ t.sent <+: t.stream

/-- The next `send` is one that keeps the order: of a part of the ring that is not empty, or of an
    image when nothing is left in the ring. -/
def Keeps (s : SendState) : Prop :=
  match s.sender with
  | .first writePos => writePos ≠ s.thread.readPos
  | .oob => s.thread.writePos = s.thread.readPos
  | _ => True

/-- A message fits into the room of the ring, and a `send` that succeeds keeps the order. -/
def InOrder (s : SendState) : SendAction → Prop
  | .commit m => s.Commits m → gatorBufUsed s.thread + m.written < threadBufferSize
  | .send count => 0 < count → count ≤ s.asked → s.Keeps
  | _ => True

instance (s : SendState) : Decidable s.Keeps :=
  match h : s.sender with
  | .first writePos => decidable_of_iff (writePos ≠ s.thread.readPos) (by rw [Keeps, h])
  | .oob => decidable_of_iff (s.thread.writePos = s.thread.readPos) (by rw [Keeps, h])
  | .idle => isTrue (by rw [Keeps, h]; trivial)
  | .test _ => isTrue (by rw [Keeps, h]; trivial)
  | .second _ => isTrue (by rw [Keeps, h]; trivial)
  | .stopped => isTrue (by rw [Keeps, h]; trivial)

instance (s : SendState) (action : SendAction) : Decidable (s.InOrder action) :=
  match action with
  | .commit m => inferInstanceAs (Decidable (s.Commits m → _ < _))
  | .send count => inferInstanceAs (Decidable (0 < count → count ≤ s.asked → s.Keeps))
  | .publish => isTrue trivial
  | .resume => isTrue trivial
  | .snapshot => isTrue trivial
  | .test => isTrue trivial

end SendState

/-! ## What has not been sent -/

/-- The bytes of the ring that have not been sent. -/
def GatorThread.unsent (thread : GatorThread) : List UInt8 :=
  Ring.get threadBufferSize thread.buf thread.readPos (gatorBufUsed thread)

/-- A position that the writer has reached, and the sender has not gone past. -/
def GatorThread.Reached (thread : GatorThread) (pos : Nat) : Prop :=
  pos < threadBufferSize ∧
    (pos + threadBufferSize - thread.readPos) % threadBufferSize ≤ gatorBufUsed thread

/-- Both positions are in the ring. -/
structure GatorThread.InRing (thread : GatorThread) : Prop where
  writePos : thread.writePos < threadBufferSize
  readPos : thread.readPos < threadBufferSize

namespace GatorThread

/-- The thread after a message for which there is room. -/
def commit (thread : GatorThread) (m : Message) : GatorThread :=
  { thread with
    buf := Ring.put threadBufferSize thread.buf thread.writePos m.cut.chars
    writePos := Ring.advance threadBufferSize thread.writePos m.written }

/-- The thread after some bytes of the ring have been sent. -/
def send (thread : GatorThread) (count : Nat) : GatorThread :=
  { thread with readPos := gatorBufPos (thread.readPos + count) }

theorem reached_writePos {thread : GatorThread} (h : thread.InRing) :
    thread.Reached thread.writePos := ⟨h.writePos, Nat.le_refl _⟩

theorem writePos_eq {thread : GatorThread} (h : thread.InRing) :
    thread.writePos = Ring.advance threadBufferSize thread.readPos (gatorBufUsed thread) := by
  have hsize : threadBufferSize = 65536 := rfl
  have hwrite := h.writePos
  have hread := h.readPos
  rw [hsize] at hwrite hread
  rw [Ring.advance, gatorBufUsed, hsize]
  omega

section commit

variable {thread : GatorThread} {m : Message}

theorem used_commit (h : thread.InRing)
    (hroom : gatorBufUsed thread + m.written < threadBufferSize) :
    gatorBufUsed (thread.commit m) = gatorBufUsed thread + m.written := by
  have hsize : threadBufferSize = 65536 := rfl
  have hwrite := h.writePos
  have hread := h.readPos
  rw [hsize] at hwrite hread hroom
  rw [gatorBufUsed, hsize] at hroom
  rw [gatorBufUsed, gatorBufUsed, commit, Ring.advance, hsize]
  dsimp only
  omega

/-- A commit adds the bytes of the message. -/
theorem unsent_commit (h : thread.InRing)
    (hroom : gatorBufUsed thread + m.written < threadBufferSize) :
    (thread.commit m).unsent = thread.unsent ++ m.cut.chars := by
  have hlength : m.cut.chars.length = m.written := by rw [Message.length_chars, Message.size_cut]
  rw [unsent, used_commit h hroom, Ring.get_add, unsent]
  congr 1
  · -- The message does not reach around to the bytes before it.
    rw [commit]
    dsimp only
    rw [writePos_eq h]
    exact Ring.get_put_of_le h.readPos (Nat.le_refl _) (by omega)
  · have hpos : Ring.advance threadBufferSize (thread.commit m).readPos (gatorBufUsed thread) =
        thread.writePos := (writePos_eq h).symm
    rw [hpos, ← hlength]
    exact Ring.get_put h.writePos (by omega)

theorem Reached.commit {pos : Nat} (h : thread.Reached pos) (hring : thread.InRing)
    (hroom : gatorBufUsed thread + m.written < threadBufferSize) :
    (thread.commit m).Reached pos := by
  refine ⟨h.1, ?_⟩
  rw [used_commit hring hroom]
  exact Nat.le_add_right_of_le h.2

end commit

section send

variable {thread : GatorThread} {count : Nat}

theorem used_send (h : thread.InRing) (hcount : count ≤ gatorBufUsed thread) :
    gatorBufUsed (thread.send count) + count = gatorBufUsed thread := by
  have hsize : threadBufferSize = 65536 := rfl
  have hwrite := h.writePos
  have hread := h.readPos
  rw [hsize] at hwrite hread
  rw [gatorBufUsed, hsize] at hcount
  rw [gatorBufUsed, gatorBufUsed, send, gatorBufPos, hsize]
  dsimp only
  omega

/-- A `send` that ends before the end of the ring takes the next bytes. -/
theorem unsent_send (h : thread.InRing) (hcount : count ≤ gatorBufUsed thread)
    (hend : thread.readPos + count ≤ threadBufferSize) :
    thread.unsent = (List.range count).map (fun i => thread.buf (thread.readPos + i)) ++
      (thread.send count).unsent := by
  rw [unsent, ← used_send h hcount, Nat.add_comm, Ring.get_add, Ring.get_of_le hend]
  rfl

end send

end GatorThread

/-- The image that the writer has still to publish. -/
def WriterState.image : WriterState → List UInt8
  | .publish image => image
  | _ => []

/-- The sender is not ahead of what it has read of `write_pos`. -/
def SenderState.Within (thread : GatorThread) : SenderState → Prop
  | .test writePos => thread.Reached writePos
  | .first writePos => thread.Reached writePos
  | .second writePos => thread.readPos = 0 ∧ thread.Reached writePos
  | _ => True

theorem WriterState.image_afterHeader (image : List UInt8) : (afterHeader image).image = image := by
  rw [afterHeader]
  split_ifs with h
  · exact h.symm
  · rfl

theorem SenderState.Within.commit {s : SenderState} {thread : GatorThread} {m : Message}
    (h : s.Within thread) (hring : thread.InRing)
    (hroom : gatorBufUsed thread + m.written < threadBufferSize) : s.Within (thread.commit m) := by
  cases s with
  | test writePos => exact GatorThread.Reached.commit h hring hroom
  | first writePos => exact GatorThread.Reached.commit h hring hroom
  | second writePos => exact ⟨h.1, h.2.commit hring hroom⟩
  | _ => trivial

theorem SenderState.Within.withOob {s : SenderState} {thread : GatorThread} (h : s.Within thread)
    (oob : List UInt8) : s.Within { thread with oob := oob } := by
  cases s with
  | test writePos => exact h
  | first writePos => exact h
  | second writePos => exact h
  | _ => trivial

namespace SendState

/-! ## What every step keeps -/

/-- What holds between the steps: up to a failed `send`, what is missing of the stream is the rest
    of the ring, and then an image. -/
structure Inv (s : SendState) : Prop where
  ring : s.thread.InRing
  oob : s.writer ≠ .wait → s.thread.oob = []
  sender : s.sender.Within s.thread
  stream : ∃ rest, s.stream = s.sent ++ rest ∧
    (s.sender ≠ .stopped → rest = s.thread.unsent ++ s.writer.image ++ s.thread.oob)

theorem inv_new (buf : Nat → UInt8) {pos : Nat} (h : pos < threadBufferSize) :
    (new buf pos).Inv := by
  have hused : gatorBufUsed (new buf pos).thread = 0 := by
    rw [gatorBufUsed, new]
    dsimp only
    rw [Nat.add_sub_cancel_left, Nat.mod_self]
  refine ⟨⟨h, h⟩, fun _ => rfl, trivial, [], rfl, fun _ => ?_⟩
  rw [GatorThread.unsent, hused]
  rfl

theorem stream_commit (s : SendState) (m : Message) (thread : GatorThread) (writer : WriterState) :
    stream { s with thread := thread, writer := writer, committed := s.committed ++ [m] } =
      s.stream ++ (m.cut.chars ++ m.image) := by
  rw [stream, stream, List.flatMap_append, List.flatMap_singleton]

/-- A message that fits into the room. -/
theorem inv_commit {s : SendState} (h : s.Inv) {m : Message}
    (hroom : s.Commits m → gatorBufUsed s.thread + m.written < threadBufferSize) :
    ∃ s', s.step (.commit m) = some s' ∧ s'.Inv := by
  rw [step]
  split_ifs with hcommits
  · have hroom := hroom hcommits
    have hidle := hcommits.1
    have hoob : s.thread.oob = [] := h.oob (by rw [hidle]; nofun)
    rw [Message.write_of_written h.ring.writePos (by omega), Option.map_some]
    refine ⟨_, rfl, ⟨Ring.advance_lt h.ring.writePos, h.ring.readPos⟩, fun _ => hoob,
      h.sender.commit h.ring hroom, ?_⟩
    rcases h.stream with ⟨rest, hstream, hrest⟩
    refine ⟨rest ++ (m.cut.chars ++ m.image), ?_, fun hrunning => ?_⟩
    · rw [stream_commit, hstream, List.append_assoc]
    · have hunsent := GatorThread.unsent_commit h.ring hroom
      rw [GatorThread.commit] at hunsent
      dsimp only
      rw [hrest hrunning, hunsent, WriterState.image_afterHeader, hidle, hoob]
      simp [WriterState.image]
  · exact ⟨s, rfl, h⟩

/-- The image was empty before. -/
theorem inv_publish {s : SendState} (h : s.Inv) : ∃ s', s.step .publish = some s' ∧ s'.Inv := by
  cases hwriter : s.writer with
  | publish image =>
    have hoob : s.thread.oob = [] := h.oob (by rw [hwriter]; nofun)
    rw [step, hwriter]
    refine ⟨_, rfl, ⟨h.ring.writePos, h.ring.readPos⟩, fun hwait => absurd rfl hwait,
      h.sender.withOob image, ?_⟩
    rcases h.stream with ⟨rest, hstream, hrest⟩
    refine ⟨rest, hstream, fun hrunning => ?_⟩
    rw [hrest hrunning, hwriter, hoob]
    simp [WriterState.image, GatorThread.unsent, gatorBufUsed]
  | _ =>
    refine ⟨s, ?_, h⟩
    rw [step, hwriter]

theorem inv_resume {s : SendState} (h : s.Inv) : ∃ s', s.step .resume = some s' ∧ s'.Inv := by
  rw [step]
  split_ifs with hwait
  · refine ⟨_, rfl, h.ring, fun _ => hwait.2, h.sender, ?_⟩
    rcases h.stream with ⟨rest, hstream, hrest⟩
    refine ⟨rest, hstream, fun hsender => ?_⟩
    rw [hrest hsender, hwait.1]
    rfl
  · exact ⟨s, rfl, h⟩

/-- The sender moves on without a `send`. -/
theorem Inv.withSender {s : SendState} (h : s.Inv) (hrunning : s.sender ≠ .stopped)
    {next : SenderState} (hnext : next.Within s.thread) : Inv { s with sender := next } := by
  rcases h.stream with ⟨rest, hstream, hrest⟩
  exact ⟨h.ring, h.oob, hnext, rest, hstream, fun _ => hrest hrunning⟩

theorem inv_snapshot {s : SendState} (h : s.Inv) : ∃ s', s.step .snapshot = some s' ∧ s'.Inv := by
  rw [step]
  split_ifs with hidle
  · refine ⟨_, rfl, h.withSender (by rw [hidle]; nofun) ?_⟩
    exact GatorThread.reached_writePos h.ring
  · exact ⟨s, rfl, h⟩

theorem inv_test {s : SendState} (h : s.Inv) : ∃ s', s.step .test = some s' ∧ s'.Inv := by
  have hwithin := h.sender
  cases hsender : s.sender with
  | test writePos =>
    have hrunning : s.sender ≠ .stopped := by rw [hsender]; nofun
    rw [hsender] at hwithin
    rw [step, hsender]
    dsimp only
    split_ifs with htest
    · exact ⟨_, rfl, h.withSender hrunning hwithin⟩
    · exact ⟨_, rfl, h.withSender hrunning trivial⟩
  | _ =>
    refine ⟨s, ?_, h⟩
    rw [step, hsender]

/-- A `send` that fails. -/
theorem Inv.stop {s : SendState} (h : s.Inv) : s.gatorStopCapturing.Inv := by
  rcases h.stream with ⟨rest, hstream, -⟩
  exact ⟨⟨h.ring.writePos, h.ring.writePos⟩, fun _ => rfl, trivial, rest, hstream,
    fun hrunning => absurd rfl hrunning⟩

/-- A `send` of bytes that have not been sent, up to the end of the ring. -/
theorem Inv.sendRing {s : SendState} (h : s.Inv) (hrunning : s.sender ≠ .stopped)
    {next : SenderState} {count : Nat} (hcount : count ≤ gatorBufUsed s.thread)
    (hend : s.thread.readPos + count ≤ threadBufferSize)
    (hnext : count = s.asked → next.Within (s.thread.send count)) :
    (s.sendRing s.thread.readPos next count).Inv := by
  rw [SendState.sendRing]
  by_cases hzero : count = 0
  · rw [if_pos hzero]
    exact h.stop
  · rcases h.stream with ⟨rest, hstream, hrest⟩
    have hunsent := GatorThread.unsent_send h.ring hcount hend
    rw [hrest hrunning, hunsent] at hstream
    rw [if_neg hzero]
    refine ⟨⟨h.ring.writePos, Nat.mod_lt _ (by decide)⟩, h.oob, ?_,
      (s.thread.send count).unsent ++ s.writer.image ++ s.thread.oob, ?_, fun _ => rfl⟩
    · dsimp only
      split_ifs with hfull
      · exact hnext hfull
      · trivial
    · simp only [List.append_assoc] at hstream ⊢
      exact hstream

/-- A `send` of an image, when nothing is left in the ring. -/
theorem Inv.sendOob {s : SendState} (h : s.Inv) (hsender : s.sender = .oob) {count : Nat}
    (hempty : s.thread.oob ≠ [] → 0 < count → s.thread.writePos = s.thread.readPos) :
    (s.sendOob count).Inv := by
  have hrunning : s.sender ≠ .stopped := by rw [hsender]; nofun
  rw [SendState.sendOob]
  by_cases hnil : s.thread.oob = []
  · rw [if_pos hnil]
    exact h.withSender hrunning trivial
  rw [if_neg hnil]
  by_cases hzero : count = 0
  · rw [if_pos hzero]
    exact h.stop
  · rcases h.stream with ⟨rest, hstream, hrest⟩
    have hwait : s.writer = .wait := by
      by_contra hwriter
      exact hnil (h.oob hwriter)
    have hused : gatorBufUsed s.thread = 0 := by
      rw [gatorBufUsed, hempty hnil (Nat.pos_of_ne_zero hzero), Nat.add_sub_cancel_left,
        Nat.mod_self]
    have hunsent : ∀ oob, GatorThread.unsent { s.thread with oob := oob } = [] := by
      intro oob
      have hget : Ring.get threadBufferSize s.thread.buf s.thread.readPos 0 = [] := rfl
      rw [← hused] at hget
      exact hget
    have hthread : s.thread.unsent = [] := hunsent s.thread.oob
    rw [hrest hrunning, hthread, hwait] at hstream
    rw [if_neg hzero]
    refine ⟨⟨h.ring.writePos, h.ring.readPos⟩, fun hwriter => absurd hwait hwriter, trivial,
      s.thread.oob.drop count, ?_, fun _ => ?_⟩
    · rw [List.append_assoc, List.take_append_drop]
      exact hstream
    · dsimp only
      rw [hunsent, hwait]
      rfl

/-- The part of the ring before the position that was read. -/
theorem inv_first {s : SendState} (h : s.Inv) {writePos count : Nat}
    (hsender : s.sender = .first writePos) (hcount : count ≤ s.asked)
    (hkeeps : 0 < count → writePos ≠ s.thread.readPos) : (s.gatorSend count).Inv := by
  have hsize : threadBufferSize = 65536 := rfl
  have hrunning : s.sender ≠ .stopped := by rw [hsender]; nofun
  have hread := h.ring.readPos
  have hreached : s.thread.Reached writePos := by
    have hwithin := h.sender
    rwa [hsender] at hwithin
  rcases hreached with ⟨hpos, hle⟩
  rw [hsize] at hread hpos hle
  have hasked : s.asked = if s.thread.readPos < writePos then writePos - s.thread.readPos
      else threadBufferSize - s.thread.readPos := by
    rw [asked, hsender]
  rw [gatorSend, hsender]
  dsimp only
  split_ifs at hasked ⊢ with hlt
  · rw [hasked] at hcount
    exact h.sendRing hrunning (by omega) (by omega) fun _ => trivial
  · rw [hasked, hsize] at hcount
    by_cases hzero : count = 0
    · apply h.sendRing hrunning (by omega) (by omega)
      intro hfull
      omega
    · have hne := hkeeps (Nat.pos_of_ne_zero hzero)
      have hused : count ≤ gatorBufUsed s.thread := by omega
      apply h.sendRing hrunning hused (by omega)
      intro hfull
      -- What is left begins at the start of the ring.
      have hstart : (s.thread.send count).readPos = 0 := by
        rw [GatorThread.send, gatorBufPos, hsize]
        dsimp only
        omega
      have hsend := GatorThread.used_send h.ring hused
      refine ⟨hstart, hpos, ?_⟩
      rw [hstart, hsize]
      omega

/-- The part of the ring after its end. -/
theorem inv_second {s : SendState} (h : s.Inv) {writePos count : Nat}
    (hsender : s.sender = .second writePos) (hcount : count ≤ s.asked) :
    (s.gatorSend count).Inv := by
  have hsize : threadBufferSize = 65536 := rfl
  have hrunning : s.sender ≠ .stopped := by rw [hsender]; nofun
  have hwithin : s.thread.readPos = 0 ∧ s.thread.Reached writePos := by
    have hwithin := h.sender
    rwa [hsender] at hwithin
  rcases hwithin with ⟨hstart, hpos, hle⟩
  have hasked : s.asked = writePos := by rw [asked, hsender]
  rw [hasked] at hcount
  rw [hstart, hsize] at hle
  rw [hsize] at hpos
  have hsend : (s.sendRing s.thread.readPos .oob count).Inv :=
    h.sendRing hrunning (by omega) (by omega) fun _ => trivial
  rw [gatorSend, hsender]
  rw [hstart] at hsend
  exact hsend

theorem inv_send {s : SendState} (h : s.Inv) {count : Nat}
    (hkeeps : 0 < count → count ≤ s.asked → s.Keeps) :
    ∃ s', s.step (.send count) = some s' ∧ s'.Inv := by
  rw [step]
  by_cases hcount : count ≤ s.asked
  · rw [if_pos hcount]
    refine ⟨_, rfl, ?_⟩
    cases hsender : s.sender with
    | first writePos =>
      apply inv_first h hsender hcount
      intro hpos
      have hkeep := hkeeps hpos hcount
      rwa [Keeps, hsender] at hkeep
    | second writePos => exact inv_second h hsender hcount
    | oob =>
      rw [gatorSend, hsender]
      apply h.sendOob hsender
      intro _ hpos
      have hkeep := hkeeps hpos hcount
      rwa [Keeps, hsender] at hkeep
    | _ =>
      rw [gatorSend, hsender]
      exact h
  · rw [if_neg hcount]
    exact ⟨s, rfl, h⟩

/-! ## Runs -/

/-- A step that is in order keeps what holds. -/
theorem inv_step (s : SendState) (action : SendAction) (h : s.Inv) (horder : s.InOrder action) :
    ∃ s', s.step action = some s' ∧ s'.Inv := by
  cases action with
  | commit m => exact inv_commit h horder
  | publish => exact inv_publish h
  | resume => exact inv_resume h
  | snapshot => exact inv_snapshot h
  | test => exact inv_test h
  | send count => exact inv_send h horder

/-- A run whose steps are all in order sends the stream. -/
theorem sentInOrder_of_stepsMeet (buf : Nat → UInt8) {pos : Nat} (h : pos < threadBufferSize)
    {actions : List SendAction} (hmeet : StepsMeet step InOrder (new buf pos) actions) :
    (new buf pos).SentInOrder actions := by
  rintro pre ⟨post, rfl⟩
  rcases exists_run_of_stepsMeet inv_step (inv_new buf h) hmeet.of_append with ⟨t, ht, hinv⟩
  rcases hinv.stream with ⟨rest, hstream, -⟩
  exact ⟨t, ht, rest, hstream.symm⟩

/-- A function that reserves enough is in order. -/
theorem inOrder_commit {s : SendState} (h : s.thread.InRing) {a : Annotate Pointer}
    (hcovered : a.Covered) (image : List UInt8) : s.InOrder (.commit (a.message image)) := by
  rintro ⟨-, hlarge, hwait⟩
  have hbound := ((bounded_iff a image).mpr hcovered s.thread h.writePos hlarge).2
  have hadd := RingState.used_add_free h.writePos h.readPos
  have hsize : threadBufferSize = 65536 := rfl
  rw [Message.WaitEnds] at hwait
  omega

/-- An image that follows its header, over the end of the ring. -/
def wholeImage : List SendAction :=
  [.commit (gatorAnnotateVisual 0 [1, 2, 3] none), .publish, .snapshot, .test, .send 6, .send 1,
    .send 3, .resume]

theorem sentInOrder_wholeImage : (new (fun _ => 0) 65530).SentInOrder wholeImage :=
  sentInOrder_of_stepsMeet (fun _ => 0) (by decide) (by decide +kernel)

/-- The sender has read `write_pos` before the header of the image. -/
def lateHeader : List SendAction :=
  [.commit (gatorAnnotateMarker 0 none), .snapshot, .commit (gatorAnnotateVisual 0 [1] none),
    .publish, .test, .send 6, .send 1]

/-- After a short write of the image, the ring is sent again. -/
def shortImage : List SendAction :=
  [.commit (gatorAnnotateVisual 0 [1, 2] none), .publish, .snapshot, .test, .send 7, .send 1,
    .snapshot, .test, .send 1]

/-- The bytes sent so far, and those of the stream. -/
def sentAndStream (s : SendState) (actions : List SendAction) : Option (List UInt8 × List UInt8) :=
  (run step s actions).map fun t => (t.sent, t.stream)

theorem not_sentInOrder {s : SendState} {actions : List SendAction} {sent stream : List UInt8}
    (h : sentAndStream s actions = some (sent, stream)) (hnot : ¬ sent <+: stream) :
    ¬ s.SentInOrder actions := by
  intro hall
  rcases hall actions (List.prefix_refl actions) with ⟨t, ht, hsent⟩
  rw [sentAndStream, ht] at h
  cases h
  exact hnot hsent

/-- The image overtakes its header, or bytes that have never been written overtake the image. -/
theorem not_sentInOrder_images : ¬ (new (fun _ => 0) 0).SentInOrder lateHeader ∧
    ¬ (new (fun _ => 0) 0).SentInOrder shortImage := by
  constructor
  · have hsent : sentAndStream (new (fun _ => 0) 0) lateHeader =
        some ([6, 1, 0, 0, 0, 0, 1], [6, 1, 0, 0, 0, 0, 5, 3, 0, 0, 0, 0, 0, 1]) := by
      decide +kernel
    exact not_sentInOrder hsent (by decide)
  · have hsent : sentAndStream (new (fun _ => 0) 0) shortImage =
        some ([5, 4, 0, 0, 0, 0, 0, 1, 0], [5, 4, 0, 0, 0, 0, 0, 1, 2]) := by
      decide +kernel
    exact not_sentInOrder hsent (by decide)

end SendState

end LibCollector.Streamline
