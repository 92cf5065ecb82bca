import LibCollector.Streamline.Sender

/-!
# One call of `gator_send`

A whole call of `gator_send`, by the steps of the sender, for what the connection takes of each
`send`. The call hands over the next pending bytes, of the ring up to the `write_pos` that has
been read and then of the image, unless one of its `send` calls is for an empty part of the
ring (`sendsPending_iff`).
-/

namespace LibCollector.Streamline

open LibCollector.Misc

namespace SendState

/-- A `send` on a connection that takes up to `limit + 1` bytes: at least one of a request that is
    not empty. -/
def sendOnce (limit : Nat) (s : SendState) : SendState :=
  match s.sender with
  | .first _ => s.gatorSend (min s.asked (limit + 1))
  | .second _ => s.gatorSend (min s.asked (limit + 1))
  | .oob => s.gatorSend (min s.asked (limit + 1))
  | _ => s

/-- `gator_send`, for what the connection takes. The sender is idle when it returns true, and has
    stopped the capturing when it returns false. -/
def sendCall (writePos : Nat) (limits : Nat × Nat × Nat) (s : SendState) : SendState :=
  sendOnce limits.2.2 (sendOnce limits.2.1 (sendOnce limits.1 { s with sender := .first writePos }))

/-- The count of bytes in the ring up to a position. -/
def usedTo (writePos : Nat) (s : SendState) : Nat :=
  (writePos + threadBufferSize - s.thread.readPos) % threadBufferSize

/-- The bytes that are pending: those of the ring up to a position, and then the image. -/
def pending (writePos : Nat) (s : SendState) : List UInt8 :=
  Ring.get threadBufferSize s.thread.buf s.thread.readPos (s.usedTo writePos) ++ s.thread.oob

/-- The state after the next `n` pending bytes have been handed over. -/
def handOver (writePos n : Nat) (next : SenderState) (s : SendState) : SendState :=
  { s with
    thread := { s.thread with
      readPos := gatorBufPos (s.thread.readPos + min n (s.usedTo writePos))
      oob := s.thread.oob.drop (n - s.usedTo writePos) }
    sender := next
    sent := s.sent ++ (s.pending writePos).take n }

/-- The call hands over some of the pending bytes, and returns true. -/
def SendsPending (writePos : Nat) (limits : Nat × Nat × Nat) (s : SendState) : Prop :=
  ∃ n, 0 < n ∧ n ≤ (s.pending writePos).length ∧
    s.sendCall writePos limits = s.handOver writePos n .idle

/-- Neither the first `send` is for an empty ring, nor the second one for the part before the
    position 0. -/
def AvoidsEmpty (writePos : Nat) (limits : Nat × Nat × Nat) (s : SendState) : Prop :=
  writePos ≠ s.thread.readPos ∧
    (writePos = 0 → limits.1 + 1 < threadBufferSize - s.thread.readPos)

/-! ## The positions -/

section positions

variable {s : SendState} {writePos : Nat}

theorem usedTo_eq (hread : s.thread.readPos < threadBufferSize)
    (hwrite : writePos < threadBufferSize) :
    s.usedTo writePos = if s.thread.readPos ≤ writePos then writePos - s.thread.readPos
      else writePos + threadBufferSize - s.thread.readPos := by
  have hsize : threadBufferSize = 65536 := rfl
  rw [hsize] at hread hwrite
  rw [usedTo, hsize]
  split_ifs <;> omega

theorem take_pending {n : Nat} (h : n ≤ s.usedTo writePos) :
    (s.pending writePos).take n =
      Ring.get threadBufferSize s.thread.buf s.thread.readPos n := by
  rw [pending, List.take_append_of_le_length (by rw [Ring.length_get]; exact h), Ring.take_get h]

theorem take_pending_add (k : Nat) :
    (s.pending writePos).take (s.usedTo writePos + k) =
      Ring.get threadBufferSize s.thread.buf s.thread.readPos (s.usedTo writePos) ++
        s.thread.oob.take k := by
  rw [pending, List.take_append, Ring.length_get, Nat.add_sub_cancel_left,
    List.take_of_length_le (by rw [Ring.length_get]; exact Nat.le_add_right _ _)]

/-- The state after bytes of the ring only. -/
theorem handOver_of_le {n : Nat} (h : n ≤ s.usedTo writePos) (next : SenderState) :
    s.handOver writePos n next = { s with
      thread := { s.thread with readPos := gatorBufPos (s.thread.readPos + n) }
      sender := next
      sent := s.sent ++ Ring.get threadBufferSize s.thread.buf s.thread.readPos n } := by
  rw [handOver, take_pending h, Nat.min_eq_left h, Nat.sub_eq_zero_of_le h, List.drop_zero]

/-- The state after the ring and some bytes of the image. -/
theorem handOver_add (k : Nat) (next : SenderState) :
    s.handOver writePos (s.usedTo writePos + k) next = { s with
      thread := { s.thread with
        readPos := gatorBufPos (s.thread.readPos + s.usedTo writePos)
        oob := s.thread.oob.drop k }
      sender := next
      sent := s.sent ++ Ring.get threadBufferSize s.thread.buf s.thread.readPos
        (s.usedTo writePos) ++ s.thread.oob.take k } := by
  rw [handOver, take_pending_add, Nat.min_eq_right (Nat.le_add_right _ _), Nat.add_sub_cancel_left,
    List.append_assoc]

end positions

/-! ## The three `send` calls -/

section sends

variable {s : SendState} {writePos : Nat}

/-- The first `send`, when the pending bytes do not wrap. -/
theorem sendOnce_first (hread : s.thread.readPos < writePos) (hwrite : writePos < threadBufferSize)
    (limit : Nat) :
    sendOnce limit { s with sender := .first writePos } =
      s.handOver writePos (min (s.usedTo writePos) (limit + 1))
        (if s.usedTo writePos ≤ limit + 1 then .oob else .idle) := by
  have hused : s.usedTo writePos = writePos - s.thread.readPos := by
    rw [usedTo_eq (by omega) hwrite, if_pos (Nat.le_of_lt hread)]
  have hasked : asked { s with sender := .first writePos } = s.usedTo writePos := by
    rw [asked, hused]
    exact if_pos hread
  have hcount : min (s.usedTo writePos) (limit + 1) ≠ 0 := by omega
  have hfull : min (s.usedTo writePos) (limit + 1) = s.usedTo writePos ↔
      s.usedTo writePos ≤ limit + 1 := by omega
  rw [handOver_of_le (Nat.min_le_left _ _), Ring.get_of_le (by omega), sendOnce]
  dsimp only
  rw [hasked, gatorSend]
  dsimp only
  rw [if_pos hread, sendRing, if_neg hcount, hasked]
  simp only [hfull]

/-- The first `send`, up to the end of the ring. -/
theorem sendOnce_wrapped (hread : s.thread.readPos < threadBufferSize)
    (hwrite : writePos < s.thread.readPos) (limit : Nat) :
    sendOnce limit { s with sender := .first writePos } =
      s.handOver writePos (min (threadBufferSize - s.thread.readPos) (limit + 1))
        (if threadBufferSize - s.thread.readPos ≤ limit + 1 then .second writePos else .idle) := by
  have hused : s.usedTo writePos = writePos + threadBufferSize - s.thread.readPos := by
    rw [usedTo_eq hread (by omega), if_neg (by omega)]
  have hnot : ¬ s.thread.readPos < writePos := by omega
  have hasked : asked { s with sender := .first writePos } =
      threadBufferSize - s.thread.readPos := by
    rw [asked]
    exact if_neg hnot
  have hcount : min (threadBufferSize - s.thread.readPos) (limit + 1) ≠ 0 := by omega
  have hfull : min (threadBufferSize - s.thread.readPos) (limit + 1) =
      threadBufferSize - s.thread.readPos ↔
        threadBufferSize - s.thread.readPos ≤ limit + 1 := by omega
  rw [handOver_of_le (by omega), Ring.get_of_le (by omega), sendOnce]
  dsimp only
  rw [hasked, gatorSend]
  dsimp only
  rw [if_neg hnot, sendRing, if_neg hcount, hasked]
  simp only [hfull]

/-- The second `send`, from the start of the ring. -/
theorem sendOnce_second (hread : s.thread.readPos < threadBufferSize) (hpos : 0 < writePos)
    (hwrite : writePos < s.thread.readPos) (limit : Nat) :
    sendOnce limit (s.handOver writePos (threadBufferSize - s.thread.readPos) (.second writePos)) =
      s.handOver writePos (threadBufferSize - s.thread.readPos + min writePos (limit + 1))
        (if writePos ≤ limit + 1 then .oob else .idle) := by
  have hused : s.usedTo writePos = writePos + threadBufferSize - s.thread.readPos := by
    rw [usedTo_eq hread (by omega), if_neg (by omega)]
  have hcount : min writePos (limit + 1) ≠ 0 := by omega
  have hfull : min writePos (limit + 1) = writePos ↔ writePos ≤ limit + 1 := by omega
  have hend : Ring.advance threadBufferSize s.thread.readPos
      (threadBufferSize - s.thread.readPos) = 0 := by
    rw [Ring.advance, Nat.add_sub_cancel' (Nat.le_of_lt hread), Nat.mod_self]
  rw [handOver_of_le (by omega), handOver_of_le (by omega), Ring.get_add, hend,
    @Ring.get_of_le _ _ s.thread.buf 0 _ (by omega), sendOnce]
  dsimp only
  rw [asked, gatorSend]
  dsimp only
  rw [sendRing, if_neg hcount, asked]
  dsimp only
  rw [gatorBufPos, gatorBufPos, gatorBufPos, Nat.mod_add_mod, Nat.add_assoc, List.append_assoc]
  simp only [hfull]

/-- Behind the position 0 there is nothing to send, and the capturing is stopped. -/
theorem sender_second_zero (limit : Nat) (n : Nat) :
    (sendOnce limit (s.handOver writePos n (.second 0))).sender = .stopped := by
  rw [sendOnce, handOver]
  dsimp only
  rw [asked, gatorSend]
  dsimp only
  rw [Nat.zero_min, sendRing, if_pos rfl]
  rfl

/-- The `send` of an image takes as much of it as the connection does, at least one byte. -/
theorem sendOnce_image (buf : Nat → UInt8) (writePos readPos : Nat) (oob : List UInt8)
    (writer : WriterState) (committed : List Message) (sent : List UInt8) (limit : Nat) :
    sendOnce limit ⟨⟨buf, writePos, readPos, oob⟩, writer, .oob, committed, sent⟩ =
      ⟨⟨buf, writePos, readPos, oob.drop (min oob.length (limit + 1))⟩, writer, .idle, committed,
        sent ++ oob.take (min oob.length (limit + 1))⟩ := by
  rw [sendOnce]
  dsimp only
  rw [asked, gatorSend]
  dsimp only
  rw [sendOob]
  dsimp only
  by_cases hnil : oob = []
  · rw [if_pos hnil, hnil, List.drop_nil, List.take_nil, List.append_nil]
  · have hcount : min oob.length (limit + 1) ≠ 0 := by
      have hpos := List.length_pos_iff.mpr hnil
      omega
    rw [if_neg hnil, if_neg hcount]

/-- The last `send`, of the image. -/
theorem sendOnce_oob (limit : Nat) :
    sendOnce limit (s.handOver writePos (s.usedTo writePos) .oob) =
      s.handOver writePos (s.usedTo writePos + min s.thread.oob.length (limit + 1)) .idle := by
  rw [handOver_add, handOver_of_le (Nat.le_refl _), sendOnce_image]

theorem sendOnce_idle {t : SendState} (h : t.sender = .idle) (limit : Nat) :
    sendOnce limit t = t := by
  rw [sendOnce, h]

theorem sendOnce_stopped {t : SendState} (h : t.sender = .stopped) (limit : Nat) :
    sendOnce limit t = t := by
  rw [sendOnce, h]

end sends

/-! ## One call -/

section call

variable {s : SendState} {writePos : Nat} {limits : Nat × Nat × Nat}

theorem length_pending (writePos : Nat) (s : SendState) :
    (s.pending writePos).length = s.usedTo writePos + s.thread.oob.length := by
  rw [pending, List.length_append, Ring.length_get]

/-- A `send` that takes only a part of the request ends the call. -/
theorem sendCall_of_idle {t : SendState} (hfirst : sendOnce limits.1
    { s with sender := .first writePos } = t) (h : t.sender = .idle) :
    s.sendCall writePos limits = t := by
  rw [sendCall, hfirst, sendOnce_idle h, sendOnce_idle h]

theorem sendsPending_of_avoidsEmpty (hread : s.thread.readPos < threadBufferSize)
    (hwrite : writePos < threadBufferSize) (h : s.AvoidsEmpty writePos limits) :
    s.SendsPending writePos limits := by
  obtain ⟨hne, hzero⟩ := h
  have hused := usedTo_eq hread hwrite
  rw [SendsPending, length_pending]
  rcases Nat.lt_or_gt_of_ne hne with hwrap | hahead
  · -- The pending bytes wrap.
    rw [if_neg (by omega)] at hused
    have hfirst := sendOnce_wrapped hread hwrap limits.1
    by_cases hfull : threadBufferSize - s.thread.readPos ≤ limits.1 + 1
    · have hpos : 0 < writePos := Nat.pos_of_ne_zero fun h => by have := hzero h; omega
      rw [if_pos hfull, Nat.min_eq_left hfull] at hfirst
      have hsecond := sendOnce_second hread hpos hwrap limits.2.1
      by_cases hall : writePos ≤ limits.2.1 + 1
      · have hsum : threadBufferSize - s.thread.readPos + writePos = s.usedTo writePos := by omega
        rw [if_pos hall, Nat.min_eq_left hall, hsum] at hsecond
        refine ⟨_, ?_, ?_, by rw [sendCall, hfirst, hsecond, sendOnce_oob]⟩ <;> omega
      · rw [if_neg hall] at hsecond
        refine ⟨_, ?_, ?_, by rw [sendCall, hfirst, hsecond, sendOnce_idle rfl]⟩ <;> omega
    · rw [if_neg hfull] at hfirst
      refine ⟨_, ?_, ?_, sendCall_of_idle hfirst rfl⟩ <;> omega
  · rw [if_pos (by omega)] at hused
    have hfirst := sendOnce_first hahead hwrite limits.1
    by_cases hfull : s.usedTo writePos ≤ limits.1 + 1
    · rw [if_pos hfull, Nat.min_eq_left hfull] at hfirst
      refine ⟨_, ?_, ?_, by rw [sendCall, hfirst, sendOnce_oob, sendOnce_idle rfl]⟩ <;> omega
    · rw [if_neg hfull] at hfirst
      refine ⟨_, ?_, ?_, sendCall_of_idle hfirst rfl⟩ <;> omega

/-- The bytes that have been sent and those of the image. -/
def total (s : SendState) : Nat := s.sent.length + s.thread.oob.length

/-- A `send` that succeeds takes bytes of the ring, or moves bytes of the image. -/
theorem total_sendOnce (limit : Nat) (s : SendState) :
    (sendOnce limit s).sender = .stopped ∨ s.total ≤ (sendOnce limit s).total := by
  have hring : ∀ pos next count, (s.sendRing pos next count).sender = .stopped ∨
      s.total ≤ (s.sendRing pos next count).total := by
    intro pos next count
    rw [sendRing]
    by_cases hzero : count = 0
    · rw [if_pos hzero]
      exact Or.inl rfl
    · rw [if_neg hzero]
      right
      simp only [total, List.length_append]
      omega
  have hoob : ∀ count ≤ s.thread.oob.length, (s.sendOob count).sender = .stopped ∨
      s.total ≤ (s.sendOob count).total := by
    intro count hcount
    rw [sendOob]
    split_ifs
    · exact Or.inr (Nat.le_refl _)
    · exact Or.inl rfl
    · right
      simp only [total, List.length_append, List.length_take, List.length_drop]
      omega
  rw [sendOnce]
  cases hsender : s.sender with
  | first writePos =>
    dsimp only
    rw [gatorSend, hsender]
    dsimp only
    split_ifs
    · exact hring _ _ _
    · exact hring _ _ _
  | second writePos =>
    dsimp only
    rw [gatorSend, hsender]
    exact hring _ _ _
  | oob =>
    dsimp only
    rw [gatorSend, hsender]
    refine hoob _ ?_
    rw [asked, hsender]
    exact Nat.min_le_left _ _
  | _ => exact Or.inr (Nat.le_refl _)

/-- When the ring is empty, the first `send` takes bytes that are not pending. -/
theorem not_sendsPending_empty (hread : s.thread.readPos < threadBufferSize) :
    ¬ s.SendsPending s.thread.readPos limits := by
  rintro ⟨n, -, hn, hcall⟩
  have hused : s.usedTo s.thread.readPos = 0 := by
    rw [usedTo_eq hread hread, if_pos (Nat.le_refl _), Nat.sub_self]
  have htotal : (s.sendCall s.thread.readPos limits).total = s.total := by
    rw [length_pending, hused, Nat.zero_add] at hn
    have hlength := length_pending s.thread.readPos s
    rw [hused, Nat.zero_add] at hlength
    rw [hcall, handOver, hused]
    simp only [total, List.length_append, List.length_take, List.length_drop, Nat.sub_zero, hlength]
    omega
  have hidle : (s.sendCall s.thread.readPos limits).sender = .idle := by
    rw [hcall]
    rfl
  have hfirst : s.total <
      (sendOnce limits.1 { s with sender := .first s.thread.readPos }).total := by
    have hcount : min (threadBufferSize - s.thread.readPos) (limits.1 + 1) ≠ 0 := by omega
    have hasked : asked { s with sender := .first s.thread.readPos } =
        threadBufferSize - s.thread.readPos := by
      rw [asked]
      exact if_neg (Nat.lt_irrefl _)
    rw [sendOnce]
    dsimp only
    rw [hasked, gatorSend]
    dsimp only
    rw [if_neg (Nat.lt_irrefl _), sendRing, if_neg hcount]
    simp only [total, List.length_append, List.length_map, List.length_range]
    omega
  -- The later calls do not take the bytes back.
  have hnot : ∀ {t : SendState} {limit : Nat}, (sendOnce limit t).sender ≠ .stopped →
      t.sender ≠ .stopped ∧ t.total ≤ (sendOnce limit t).total := by
    intro t limit h
    refine ⟨fun hstop => h ?_, (total_sendOnce limit t).resolve_left h⟩
    rw [sendOnce_stopped hstop]
    exact hstop
  rw [sendCall] at htotal hidle
  obtain ⟨hsecond, hthird⟩ := @hnot _ limits.2.2 (by
    rw [hidle]
    exact fun h => SenderState.noConfusion h)
  have hle := (hnot hsecond).2
  omega

/-- Behind the end of the ring, the second `send` is for nothing and stops the capturing. -/
theorem not_sendsPending_wrapped (hread : s.thread.readPos < threadBufferSize)
    (hpos : 0 < s.thread.readPos)
    (hfull : threadBufferSize - s.thread.readPos ≤ limits.1 + 1) :
    ¬ s.SendsPending 0 limits := by
  rintro ⟨n, -, -, hcall⟩
  have hfirst := sendOnce_wrapped hread hpos limits.1
  rw [if_pos hfull] at hfirst
  have hsecond := @sender_second_zero s 0 limits.2.1
    (min (threadBufferSize - s.thread.readPos) (limits.1 + 1))
  have hstopped : (s.sendCall 0 limits).sender = .stopped := by
    rw [sendCall, hfirst, sendOnce_stopped hsecond]
    exact hsecond
  rw [hcall] at hstopped
  cases hstopped

end call

/-! ## The loop of the sender -/

/-- An iteration of the loop in `gator_func`; `none` when the capturing is stopped. -/
def loopStep (s : SendState) (limits : Nat × Nat × Nat) : Option SendState :=
  if s.thread.writePos ≠ s.thread.readPos ∨ s.thread.oob ≠ [] then
    let t := s.sendCall s.thread.writePos limits
    if t.sender = .stopped then none else some t
  else some s

/-- A call of the loop has no empty `send`. -/
def LoopAvoids (s : SendState) (limits : Nat × Nat × Nat) : Prop :=
  s.thread.writePos ≠ s.thread.readPos ∨ s.thread.oob ≠ [] →
    s.AvoidsEmpty s.thread.writePos limits

/-- The state `t` after `k` iterations of the loop from `s`: each pending byte has been sent once or
    is pending, and a byte at least in each iteration. -/
def Drains (k : Nat) (s t : SendState) : Prop :=
  ∃ bytes, t.sent = s.sent ++ bytes ∧
    s.pending s.thread.writePos = bytes ++ t.pending t.thread.writePos ∧
    ((s.pending s.thread.writePos).length ≤ k → t.pending t.thread.writePos = [])

/-- The pending bytes are those that have not been handed over. -/
theorem pending_handOver {s : SendState} {writePos : Nat}
    (hread : s.thread.readPos < threadBufferSize) (hwrite : writePos < threadBufferSize) (n : Nat)
    (next : SenderState) :
    (s.handOver writePos n next).pending writePos = (s.pending writePos).drop n := by
  have hsize : threadBufferSize = 65536 := rfl
  have hused : (s.handOver writePos n next).usedTo writePos = s.usedTo writePos - n := by
    have hbefore := usedTo_eq hread hwrite
    rw [hsize] at hread hwrite hbefore
    rw [usedTo, handOver, gatorBufPos, hsize]
    dsimp only
    split_ifs at hbefore <;> omega
  rw [pending, hused]
  rcases Nat.le_total n (s.usedTo writePos) with hle | hle
  · have hsplit : s.pending writePos =
        Ring.get threadBufferSize s.thread.buf s.thread.readPos n ++
          (Ring.get threadBufferSize s.thread.buf
            (Ring.advance threadBufferSize s.thread.readPos n) (s.usedTo writePos - n) ++
              s.thread.oob) := by
      rw [← List.append_assoc, ← Ring.get_add, Nat.add_sub_cancel' hle, pending]
    rw [hsplit, handOver_of_le hle, List.drop_left' (Ring.length_get _ _ _)]
    rfl
  · obtain ⟨k, rfl⟩ := Nat.exists_eq_add_of_le hle
    have htail : (s.pending writePos).drop (s.usedTo writePos + k) = s.thread.oob.drop k := by
      rw [pending, List.drop_append, Ring.length_get, Nat.add_sub_cancel_left,
        List.drop_of_length_le (by rw [Ring.length_get]; exact hle), List.nil_append]
    rw [htail, handOver_add, Nat.sub_eq_zero_of_le hle]
    rfl

/-- A call that hands over pending bytes is an iteration of the loop. -/
theorem loopStep_of_avoids {s : SendState} (hring : s.thread.InRing) {limits : Nat × Nat × Nat}
    (h : s.LoopAvoids limits) :
    ∃ t, s.loopStep limits = some t ∧ t.thread.InRing ∧
      ∃ n, t.sent = s.sent ++ (s.pending s.thread.writePos).take n ∧
        t.pending t.thread.writePos = (s.pending s.thread.writePos).drop n ∧
        (s.pending s.thread.writePos ≠ [] → 0 < n) := by
  by_cases hcalled : s.thread.writePos ≠ s.thread.readPos ∨ s.thread.oob ≠ []
  · obtain ⟨n, hpos, -, hcall⟩ :=
      sendsPending_of_avoidsEmpty hring.readPos hring.writePos (h hcalled)
    refine ⟨s.handOver s.thread.writePos n .idle, ?_, ⟨hring.writePos, Nat.mod_lt _ (by decide)⟩, n,
      rfl, pending_handOver hring.readPos hring.writePos n _, fun _ => hpos⟩
    rw [loopStep, if_pos hcalled, hcall]
    rfl
  · obtain ⟨hempty, hoob⟩ := not_or.mp hcalled
    have hnil : s.pending s.thread.writePos = [] := by
      rw [← List.length_eq_zero_iff, length_pending, not_not.mp hoob, not_not.mp hempty,
        usedTo_eq hring.readPos hring.readPos, if_pos (Nat.le_refl _), Nat.sub_self]
      rfl
    refine ⟨s, by rw [loopStep, if_neg hcalled], hring, 0, ?_, rfl, fun h => absurd hnil h⟩
    rw [List.take_zero, List.append_nil]

/-- A run of the loop whose calls have no empty `send` sends the pending bytes in order. -/
theorem drains_of_stepsMeet {s : SendState} (hring : s.thread.InRing)
    {calls : List (Nat × Nat × Nat)} (h : StepsMeet loopStep LoopAvoids s calls) :
    ∃ t, run loopStep s calls = some t ∧ s.Drains calls.length t := by
  induction calls generalizing s with
  | nil =>
    refine ⟨s, rfl, [], (List.append_nil _).symm, (List.nil_append _).symm, fun hle => ?_⟩
    exact List.length_eq_zero_iff.mp (Nat.le_zero.mp hle)
  | cons limits calls ih =>
    obtain ⟨t, ht, hring', n, hsent, hpending, hpos⟩ := loopStep_of_avoids hring h.1
    obtain ⟨u, hu, bytes, hbytes, hrest, hdone⟩ := ih hring' (h.2 t ht)
    refine ⟨u, run_cons_eq_some.mpr ⟨t, ht, hu⟩, (s.pending s.thread.writePos).take n ++ bytes, ?_,
      ?_, fun hle => hdone ?_⟩
    · rw [hbytes, hsent, List.append_assoc]
    · rw [List.append_assoc, ← hrest, hpending, List.take_append_drop]
    · rw [hpending, List.length_drop]
      rw [List.length_cons] at hle
      by_cases hnil : s.pending s.thread.writePos = []
      · rw [hnil, List.length_nil, Nat.zero_sub]
        exact Nat.zero_le _
      · have := hpos hnil
        omega

/-- A call of `gator_send` hands over pending bytes in order and returns true exactly if it has no
    empty `send`; a loop of such calls sends every pending byte once. -/
theorem sendsPending_iff {s : SendState} (hread : s.thread.readPos < threadBufferSize) :
    (∀ writePos < threadBufferSize, ∀ limits,
      s.SendsPending writePos limits ↔ s.AvoidsEmpty writePos limits) ∧
    (s.thread.writePos < threadBufferSize → ∀ calls,
      StepsMeet loopStep LoopAvoids s calls →
        ∃ t, run loopStep s calls = some t ∧ s.Drains calls.length t) := by
  refine ⟨fun writePos hwrite limits => ⟨fun h => ⟨?_, ?_⟩, ?_⟩, fun hwrite calls => ?_⟩
  · rintro rfl
    exact not_sendsPending_empty hread h
  · rintro rfl
    by_contra hfull
    rcases Nat.eq_zero_or_pos s.thread.readPos with hzero | hpos
    · rw [← hzero] at h
      exact not_sendsPending_empty hread h
    · exact not_sendsPending_wrapped hread hpos (Nat.not_lt.mp hfull) h
  · exact sendsPending_of_avoidsEmpty hread hwrite
  · exact drains_of_stepsMeet ⟨hwrite, hread⟩

/-- A thread whose ring holds the bytes of `buf` between two positions. -/
def holding (buf : Nat → UInt8) (readPos writePos : Nat) (image : List UInt8) : SendState where
  thread := { buf := buf, writePos := writePos, readPos := readPos, oob := image }

/-- Five bytes of a ring and two of an image. -/
theorem sendsPending_holding :
    (holding (fun _ => 7) 3 8 [1, 2]).SendsPending 8 (9, 9, 9) :=
  ((sendsPending_iff (s := holding (fun _ => 7) 3 8 [1, 2]) (by decide)).1 8 (by decide) _).mpr
    ⟨by decide, by decide⟩

/-- With an image and an empty ring, old bytes of the ring are sent; with a message that ends at the
    end of the ring, the capturing is stopped. -/
theorem not_sendsPending_holding :
    ¬ (holding (fun _ => 7) 3 3 [1, 2]).SendsPending 3 (9, 9, 9) ∧
      ¬ (holding (fun _ => 7) 65530 0 []).SendsPending 0 (9, 9, 9) := by
  refine ⟨not_sendsPending_empty (by decide), not_sendsPending_wrapped ?_ ?_ ?_⟩ <;> decide

end SendState

end LibCollector.Streamline
