import LibCollector.Power.Config
import LibCollector.Power.Receive

/-!
# The conversation with the power daemon

What `handshake`, `start` and `stop` of `PowerDaemon` of `src/collectors/power.cpp` take from the
stream of the daemon, one after the other and whether they succeed or not. However the stream is
cut into pieces, the calls take it without gaps, and a call that succeeds has taken exactly the
answers that it waits for (`segments_of_run`). What a call leaves behind is taken by the next one.
-/

namespace LibCollector.Power

open LibCollector.Misc

variable {J : Type}

/-! ## Reading from a position -/

/-- The bytes of a stream from a position on. -/
def taken (stream : Nat → UInt8) (pos n : Nat) : List UInt8 :=
  (List.range n).map fun i => stream (pos + i)

/-- The rounds of a call of `receiveMsg`. -/
structure Rounds where
  wakeups : List Wakeup
  ending : Ending

/-- There is a byte whenever the socket is reported as readable. -/
def Rounds.Quiet (rounds : Rounds) : Prop := .again ∉ rounds.wakeups

instance (rounds : Rounds) : Decidable rounds.Quiet := inferInstanceAs (Decidable (¬ _))

/-- `receiveMsg` from a position of the stream: what it returns, the buffer, and the position after
    it. -/
def receive (stream : Nat → UInt8) (pos len : Nat) (rounds : Rounds) :
    Option (Int × (Nat → UInt8) × Nat) :=
  (receiveMsg (fun i => stream (pos + i)) len (fun _ => 0) rounds.wakeups rounds.ending).map
    fun r => (r.1, r.2.buf, pos + r.2.received)

/-- The characters of the messages. -/
def charO : UInt8 := 79
def charK : UInt8 := 75
def charE : UInt8 := 69
def charR : UInt8 := 82

/-- `receiveSyncMsg` with `'O'` and `'K'`. -/
def receiveOk (stream : Nat → UInt8) (pos : Nat) (rounds : Rounds) : Option (Bool × Nat) :=
  (receive stream pos 2 rounds).map fun r =>
    (decide (r.1 = 2 ∧ r.2.1 0 = charO ∧ r.2.1 1 = charK), r.2.2)

/-- `simpleSync`, which waits for the answer if its message has been written. -/
def simpleSync (stream : Nat → UInt8) (pos : Nat) (written : Bool) (answer : Rounds) :
    Option (Bool × Nat) :=
  if written then receiveOk stream pos answer else some (false, pos)

/-- A number of 32 bits as an `int`. -/
def asInt (n : Nat) : Int := if n < 2147483648 then n else n - 4294967296

/-- `ntohl` of the first four bytes. -/
def ntohl (buf : Nat → UInt8) : Nat :=
  (buf 0).toNat * 16777216 + (buf 1).toNat * 65536 + (buf 2).toNat * 256 + (buf 3).toNat

/-- `1024 * 1024 * mBufferSize`, which is an `unsigned`. -/
def bufferLimit (mBufferSize : Nat) : Nat := 1048576 * mBufferSize % 4294967296

/-! ## The calls -/

/-- What a call returns, the data it has received, and the position after it. -/
structure Answered where
  ok : Bool
  data : List UInt8
  pos : Nat

/-- `PowerDaemon::start` on the stream. `sent` is that the command, the number of rails and the
    rails have been written, and `written` that the second command has. -/
def startOn (stream : Nat → UInt8) (pos : Nat) (sent : Bool) (ready : Rounds) (written : Bool)
    (running : Rounds) : Option Answered :=
  if sent = false then some ⟨false, [], pos⟩
  else (receiveOk stream pos ready).bind fun r =>
    if r.1 = false then some ⟨false, [], r.2⟩
    else (simpleSync stream r.2 written running).map fun r => ⟨r.1, [], r.2⟩

/-- `PowerDaemon::stop` on the stream, until there is the measurement. -/
def stopOn (stream : Nat → UInt8) (limit pos : Nat) (report : Rounds) (written : Bool)
    (answer size : Rounds) (allocated : Bool) (data : Rounds) : Option Answered :=
  (receive stream pos 2 report).bind fun r =>
    if r.1 = 2 ∧ r.2.1 0 = charE ∧ r.2.1 1 = charR then some ⟨false, [], r.2.2⟩
    else (simpleSync stream r.2.2 written answer).bind fun r =>
      if r.1 = false then some ⟨false, [], r.2⟩
      else (receive stream r.2 4 size).bind fun r =>
        if r.1 ≠ 4 then some ⟨false, [], r.2.2⟩
        else
          let numBytes := ntohl r.2.1
          if limit < numBytes then some ⟨false, [], r.2.2⟩
          else if allocated = false then some ⟨false, [], r.2.2⟩
          else (receive stream r.2.2 numBytes data).map fun r =>
            if r.1 ≠ asInt numBytes then ⟨false, [], r.2.2⟩
            else ⟨true, (List.range numBytes).map r.2.1, r.2.2⟩

/-- A call on the connection, with what happens on it. -/
inductive Call where
  | handshake (written : Bool) (answer : Rounds)
  | start (sent : Bool) (ready : Rounds) (written : Bool) (running : Rounds)
  | stop (report : Rounds) (written : Bool) (answer size : Rounds) (allocated : Bool)
      (data : Rounds)

/-- Every wake-up of a call brings a byte. -/
def Call.Quiet : Call → Prop
  | .handshake _ answer => answer.Quiet
  | .start _ ready _ running => ready.Quiet ∧ running.Quiet
  | .stop report _ answer size _ data =>
    report.Quiet ∧ answer.Quiet ∧ size.Quiet ∧ data.Quiet

/-- What a call returns on the stream. -/
def Call.on (stream : Nat → UInt8) (limit pos : Nat) : Call → Option Answered
  | .handshake written answer =>
    (simpleSync stream pos written answer).map fun r => ⟨r.1, [], r.2⟩
  | .start sent ready written running => startOn stream pos sent ready written running
  | .stop report written answer size allocated data =>
    stopOn stream limit pos report written answer size allocated data

/-- A call with what it has returned and the bytes that it has taken. -/
structure Entry where
  call : Call
  ok : Bool
  data : List UInt8
  bytes : List UInt8

/-- The position in the stream, and the calls so far. -/
structure Conversation where
  pos : Nat := 0
  log : List Entry := []

/-- A call on the connection. -/
def Conversation.step (stream : Nat → UInt8) (limit : Nat) (s : Conversation) (call : Call) :
    Option Conversation :=
  (call.on stream limit s.pos).map fun r =>
    { pos := r.pos
      log := s.log ++ [⟨call, r.ok, r.data, taken stream s.pos (r.pos - s.pos)⟩] }

/-- A number in network order. -/
def bigEndian (n : Nat) : List UInt8 :=
  [UInt8.ofNat (n / 16777216), UInt8.ofNat (n / 65536), UInt8.ofNat (n / 256), UInt8.ofNat n]

/-- The bytes that a successful call takes, with the measurement in them. A report of the daemon
    that `stop` does not know is two bytes at most. -/
inductive Segment (limit : Nat) : Call → List UInt8 → List UInt8 → Prop
  | handshake {written : Bool} {answer : Rounds} :
      Segment limit (.handshake written answer) [] [charO, charK]
  | start {sent written : Bool} {ready running : Rounds} :
      Segment limit (.start sent ready written running) [] [charO, charK, charO, charK]
  | stop {report answer size rounds : Rounds} {written allocated : Bool}
      {unknown data : List UInt8} : unknown.length ≤ 2 → unknown ≠ [charE, charR] →
      data.length ≤ limit → Segment limit (.stop report written answer size allocated rounds) data
        (unknown ++ [charO, charK] ++ bigEndian data.length ++ data)

/-! ## One call of `receiveMsg` -/

section receive

variable {stream : Nat → UInt8} {pos pos' len : Nat} {rounds : Rounds} {ret : Int}
  {buf : Nat → UInt8}

theorem taken_add (stream : Nat → UInt8) (pos m n : Nat) :
    taken stream pos (m + n) = taken stream pos m ++ taken stream (pos + m) n := by
  rw [taken, taken, taken, List.range_add, List.map_append, List.map_map]
  refine congrArg _ (List.map_congr_left fun i _ => ?_)
  rw [Function.comp_apply, Nat.add_assoc]

/-- Without wake-ups that bring nothing, the offset is the number of bytes, and the buffer has the
    first bytes of the stream. -/
structure InStep (stream : Nat → UInt8) (len : Nat) (r : Receiver) : Prop where
  offset : r.totalRead = r.received
  le : r.received ≤ len
  stored : ∀ i < r.received, r.buf i = stream i

theorem InStep.read {r : Receiver} {n : Nat} (h : InStep stream len r) (hlen : len < 4294967296)
    (hn : n ≤ r.toRead len) : InStep stream len (r.store stream n) := by
  obtain ⟨hoffset, hle, hstored⟩ := h
  have hmin : n ≤ len - r.totalRead := hn.trans (Nat.min_le_left _ _)
  refine ⟨?_, ?_, fun i hi => ?_⟩
  · show (r.totalRead + n) % 4294967296 = r.received + n
    omega
  · show r.received + n ≤ len
    omega
  · simp only [Receiver.store] at hi ⊢
    rw [hoffset]
    split_ifs with hnew
    · rw [Nat.add_sub_cancel' hnew.1]
    · exact hstored i (by omega)

/-- What a call takes it returns, or it is an error. -/
theorem receive_eq_some (h : receive stream pos len rounds = some (ret, buf, pos'))
    (hquiet : rounds.Quiet) (hlen : len < 4294967296) :
    ∃ n, pos' = pos + n ∧ n ≤ len ∧ (ret = -1 ∧ n < len ∨ ret = asInt n) ∧
      (List.range n).map buf = taken stream pos n := by
  obtain ⟨⟨ret', r⟩, hreceive, heq⟩ := Option.map_eq_some_iff.mp h
  cases heq
  obtain ⟨hrun, hfinish⟩ := receiveMsg_eq_some.mp hreceive
  have hstep : InStep (fun i => stream (pos + i)) len r := by
    refine run_invariant_of_mem (fun w hw s t hs hwake => ?_) ?_ hrun
    · cases w with
      | again => exact absurd hw hquiet
      | read n =>
        obtain ⟨-, -, hn, rfl⟩ := wake_read_eq_some.mp hwake
        exact hs.read hlen hn
    · exact ⟨rfl, Nat.zero_le _, by simp [Receiver.start]⟩
  refine ⟨r.received, rfl, hstep.le, ?_, ?_⟩
  · have hresult : r.result = asInt r.received := by
      rw [Receiver.result, hstep.offset, asInt]
    rcases finish_eq_some hfinish with ⟨herror, hret⟩ | ⟨-, -, hret⟩ | ⟨-, hfull, hret⟩
    · refine Or.inl ⟨hret, ?_⟩
      -- an error ends the loop from inside
      have hlt : r.totalRead < len := by
        cases hending : rounds.ending with
        | full => exact absurd (hending ▸ herror) (by simp [Ending.IsError])
        | timeout => exact absurd (hending ▸ herror) (by simp [Ending.IsError])
        | pollError | hangUp | readError | closed =>
          simp only [hending, Receiver.finish, Option.ite_none_right_eq_some] at hfinish
          exact hfinish.1
      rw [hstep.offset] at hlt
      exact hlt
    · exact Or.inr (hret.trans hresult)
    · exact Or.inr (hret.trans hresult)
  · exact List.map_congr_left fun i hi => hstep.stored i (List.mem_range.mp hi)

/-- A call that returns another number than -1 has taken as many bytes. -/
theorem receive_all (h : receive stream pos len rounds = some (ret, buf, pos'))
    (hquiet : rounds.Quiet) (hlen : len < 4294967295) (hret : ret = asInt len) :
    pos' = pos + len ∧ (List.range len).map buf = taken stream pos len := by
  obtain ⟨n, hpos, hle, hn, hbuf⟩ := receive_eq_some h hquiet (by omega)
  have heq : n = len := by
    rcases hn with ⟨hn, -⟩ | hn
    · rw [hn, asInt] at hret
      split_ifs at hret
      all_goals omega
    · rw [hn, asInt, asInt] at hret
      split_ifs at hret
      all_goals omega
  subst heq
  exact ⟨hpos, hbuf⟩

variable {ok : Bool}

theorem receiveOk_eq_some (h : receiveOk stream pos rounds = some (ok, pos'))
    (hquiet : rounds.Quiet) :
    ∃ n, pos' = pos + n ∧ (ok = true → n = 2 ∧ taken stream pos 2 = [charO, charK]) := by
  obtain ⟨⟨ret, buf, p⟩, hreceive, heq⟩ := Option.map_eq_some_iff.mp h
  cases heq
  obtain ⟨n, hpos, -⟩ := receive_eq_some hreceive hquiet (by decide)
  refine ⟨n, hpos, fun hok => ?_⟩
  obtain ⟨hret, hfirst, hsecond⟩ := of_decide_eq_true hok
  obtain ⟨hall, hbuf⟩ := receive_all hreceive hquiet (by decide) hret
  refine ⟨by omega, ?_⟩
  rw [← hbuf, ← hfirst, ← hsecond]
  rfl

theorem simpleSync_eq_some {written : Bool}
    (h : simpleSync stream pos written rounds = some (ok, pos')) (hquiet : rounds.Quiet) :
    ∃ n, pos' = pos + n ∧ (ok = true → n = 2 ∧ taken stream pos 2 = [charO, charK]) := by
  unfold simpleSync at h
  split at h
  · exact receiveOk_eq_some h hquiet
  · cases h
    exact ⟨0, rfl, by simp⟩

theorem bigEndian_ntohl (buf : Nat → UInt8) :
    bigEndian (ntohl buf) = (List.range 4).map buf := by
  have hbyte : ∀ {n : Nat} {b : UInt8}, n % 256 = b.toNat → UInt8.ofNat n = b := by
    intro n b hn
    rw [← UInt8.toNat_inj, UInt8.toNat_ofNat']
    exact hn
  have h0 := (buf 0).toNat_lt
  have h1 := (buf 1).toNat_lt
  have h2 := (buf 2).toNat_lt
  have h3 := (buf 3).toNat_lt
  have hlist : (List.range 4).map buf = [buf 0, buf 1, buf 2, buf 3] := rfl
  rw [hlist, bigEndian, ntohl, hbyte (b := buf 0) (by omega), hbyte (b := buf 1) (by omega),
    hbyte (b := buf 2) (by omega), hbyte (b := buf 3) (by omega)]

end receive

/-! ## One call on the connection -/

section call

variable {stream : Nat → UInt8} {limit pos p n : Nat} {call : Call} {r : Answered}

/-- A call takes some bytes of the stream, and a segment if it succeeds. -/
def Takes (stream : Nat → UInt8) (limit pos : Nat) (call : Call) (r : Answered) : Prop :=
  ∃ n, r.pos = pos + n ∧ (r.ok = true → Segment limit call r.data (taken stream pos n))

theorem takes_of_failed (h : p = pos + n) : Takes stream limit pos call ⟨false, [], p⟩ :=
  ⟨n, h, by simp⟩

theorem startOn_eq_some {sent written : Bool} {ready running : Rounds}
    (h : startOn stream pos sent ready written running = some r) (hready : ready.Quiet)
    (hrunning : running.Quiet) :
    Takes stream limit pos (.start sent ready written running) r := by
  unfold startOn at h
  split at h
  · cases h
    exact takes_of_failed (Nat.add_zero pos).symm
  obtain ⟨⟨ok, mid⟩, hreceive, h⟩ := Option.bind_eq_some_iff.mp h
  obtain ⟨n, hmid, hok⟩ := receiveOk_eq_some hreceive hready
  dsimp only at h
  split at h
  · cases h
    exact takes_of_failed hmid
  rename_i hne
  obtain ⟨hn, hfirst⟩ := hok (by simpa using hne)
  subst hn hmid
  obtain ⟨⟨ok', pos'⟩, hsync, heq⟩ := Option.map_eq_some_iff.mp h
  cases heq
  obtain ⟨m, hpos, hok'⟩ := simpleSync_eq_some hsync hrunning
  refine ⟨2 + m, hpos.trans (Nat.add_assoc pos 2 m), fun htrue => ?_⟩
  obtain ⟨rfl, hsecond⟩ := hok' htrue
  rw [taken_add, hfirst, hsecond]
  exact .start

theorem stopOn_eq_some {report answer size rounds : Rounds} {written allocated : Bool}
    (hlimit : limit < 4294967295)
    (h : stopOn stream limit pos report written answer size allocated rounds = some r)
    (hreport : report.Quiet) (hanswer : answer.Quiet) (hsize : size.Quiet)
    (hrounds : rounds.Quiet) :
    Takes stream limit pos (.stop report written answer size allocated rounds) r := by
  unfold stopOn at h
  obtain ⟨⟨ret, recvbuf, p₁⟩, hreceive, h⟩ := Option.bind_eq_some_iff.mp h
  obtain ⟨n, hp₁, hle, hret, hbuf⟩ := receive_eq_some hreceive hreport (by decide)
  dsimp only at h
  split at h
  · cases h
    exact takes_of_failed hp₁
  rename_i hreported
  have hunknown : taken stream pos n ≠ [charE, charR] := by
    intro heq
    have hn : n = 2 := by
      have hlength := congrArg List.length heq
      rwa [taken, List.length_map, List.length_range] at hlength
    subst hn
    rw [← hbuf] at heq
    obtain ⟨hfirst, hrest⟩ := List.cons.inj heq
    refine hreported ⟨?_, hfirst, (List.cons.inj hrest).1⟩
    rcases hret with ⟨-, hlt⟩ | hret
    · exact absurd hlt (Nat.lt_irrefl 2)
    · exact hret
  obtain ⟨⟨ok, p₂⟩, hsync, h⟩ := Option.bind_eq_some_iff.mp h
  obtain ⟨m, hp₂, hok⟩ := simpleSync_eq_some hsync hanswer
  dsimp only at h
  split at h
  · cases h
    exact takes_of_failed (n := n + m) (by omega)
  rename_i hne
  obtain ⟨rfl, hanswered⟩ := hok (by simpa using hne)
  obtain ⟨⟨ret₃, numBytes, p₃⟩, hreceive₃, h⟩ := Option.bind_eq_some_iff.mp h
  obtain ⟨k, hp₃, -⟩ := receive_eq_some hreceive₃ hsize (by decide)
  dsimp only at h
  split at h
  · cases h
    exact takes_of_failed (n := n + 2 + k) (by omega)
  rename_i hfour
  obtain ⟨hall₃, hbuf₃⟩ := receive_all hreceive₃ hsize (by decide) (not_not.mp hfour)
  split at h
  · cases h
    exact takes_of_failed (n := n + 2 + k) (by omega)
  rename_i hfits
  split at h
  · cases h
    exact takes_of_failed (n := n + 2 + k) (by omega)
  obtain ⟨⟨ret₄, buf, p₄⟩, hreceive₄, heq⟩ := Option.map_eq_some_iff.mp h
  obtain ⟨j, hp₄, -⟩ := receive_eq_some hreceive₄ hrounds (by omega)
  dsimp only at heq
  split at heq
  · cases heq
    exact takes_of_failed (n := n + 2 + k + j) (by omega)
  rename_i hret₄
  cases heq
  obtain ⟨hall₄, hbuf₄⟩ := receive_all hreceive₄ hrounds (by omega) (not_not.mp hret₄)
  subst hp₁ hp₂ hall₃
  refine ⟨n + 2 + 4 + ntohl numBytes, by simp only [hall₄, Nat.add_assoc], fun _ => ?_⟩
  have hlength : ((List.range (ntohl numBytes)).map buf).length = ntohl numBytes := by
    rw [List.length_map, List.length_range]
  have hsegment := @Segment.stop limit report answer size rounds written allocated
    (taken stream pos n) ((List.range (ntohl numBytes)).map buf)
    (by rw [taken, List.length_map, List.length_range]; exact hle) hunknown
    (by rw [hlength]; exact not_lt.mp hfits)
  rw [hlength, bigEndian_ntohl, hbuf₃, hbuf₄, ← hanswered] at hsegment
  rw [taken_add, taken_add, taken_add]
  simp only [Nat.add_assoc] at hsegment ⊢
  rw [hbuf₄]
  exact hsegment

theorem Call.on_eq_some (hlimit : limit < 4294967295) (h : call.on stream limit pos = some r)
    (hquiet : call.Quiet) : Takes stream limit pos call r := by
  cases call with
  | handshake written answer =>
    obtain ⟨⟨ok, p⟩, hsync, heq⟩ := Option.map_eq_some_iff.mp h
    cases heq
    obtain ⟨n, hpos, hok⟩ := simpleSync_eq_some hsync hquiet
    refine ⟨n, hpos, fun htrue => ?_⟩
    obtain ⟨rfl, hanswered⟩ := hok htrue
    rw [hanswered]
    exact .handshake
  | start sent ready written running => exact startOn_eq_some h hquiet.1 hquiet.2
  | stop report written answer size allocated data =>
    obtain ⟨hreport, hanswer, hsize, hdata⟩ := hquiet
    exact stopOn_eq_some hlimit h hreport hanswer hsize hdata

end call

/-! ## The rails that are sent -/

section rails

variable {lib : JsonValue J} {link : Link} {config root : J} {serial : Str} {d : PowerDaemon J}

theorem sendRails_ok {is : List Nat} {out : Bool × List Message}
    (h : PowerDaemon.sendRails lib link config serial is = some out) :
    out.1 = is.all fun i => link.write (2 + i) := by
  induction is generalizing out with
  | nil =>
    cases h
    rfl
  | cons i is ih =>
    rw [PowerDaemon.sendRails] at h
    obtain ⟨r, -, h⟩ := Option.bind_eq_some_iff.mp h
    rw [List.all_cons]
    split_ifs at h with hwrite
    · obtain ⟨rest, hrest, rfl⟩ := Option.map_eq_some_iff.mp h
      have hsame := ih hrest
      rw [hwrite, Bool.true_and]
      exact hsame
    · cases h
      simp [hwrite]

/-- The command, the number of rails and the rails have been written. -/
def Link.sends (link : Link) (rails : Nat) : Bool :=
  link.write 0 && link.write 1 && (List.range rails).all fun i => link.write (2 + i)

/-- The model of `start` without a stream returns the same, when its answers are those of the
    stream. -/
theorem startOn_ok {out : Started (PowerDaemon J)} {stream : Nat → UInt8} {pos mid pos' : Nat}
    {ready running : Rounds} (h : d.start lib link root = some out)
    (hconfig : lib.member root "rails".toList = some config)
    (hready : receiveOk stream pos ready = some (link.synced 0, mid))
    (hrunning : receiveOk stream mid running = some (link.synced 1, pos')) :
    ∃ r, startOn stream pos (link.sends (lib.size config)) ready
        (link.write (2 + lib.size config)) running = some r ∧ r.ok = out.ok := by
  have hresult : startOn stream pos (link.sends (lib.size config)) ready
      (link.write (2 + lib.size config)) running =
        some (if link.sends (lib.size config) = false then ⟨false, [], pos⟩
          else if link.synced 0 = false then ⟨false, [], mid⟩
          else if link.write (2 + lib.size config) = false then ⟨false, [], mid⟩
          else ⟨link.synced 1, [], pos'⟩) := by
    rw [startOn, hready, Option.bind_some, simpleSync]
    split_ifs
    all_goals simp_all
  refine ⟨_, hresult, ?_⟩
  rw [PowerDaemon.start, hconfig, Option.bind_some] at h
  by_cases hfirst : link.write 0 = false
  · rw [if_pos hfirst] at h
    cases h
    simp [Link.sends, hfirst]
  rw [if_neg hfirst] at h
  by_cases hsecond : link.write 1 = false
  · rw [if_pos hsecond] at h
    cases h
    simp [Link.sends, hsecond]
  rw [if_neg hsecond] at h
  obtain ⟨serial, -, h⟩ := Option.bind_eq_some_iff.mp h
  obtain ⟨sent, hsent, rfl⟩ := Option.map_eq_some_iff.mp h
  have hall : link.sends (lib.size config) = sent.1 := by
    rw [sendRails_ok hsent, Link.sends]
    simp [hfirst, hsecond]
  rw [hall]
  dsimp only
  cases hrails : sent.1 with
  | false => simp
  | true =>
    cases hsynced : link.synced 0 with
    | false => simp
    | true =>
      cases hlast : link.write (2 + lib.size config) with
      | false => simp
      | true => simp

end rails

/-! ## The conversation -/

/-- The limit is a number of whole megabytes. -/
theorem bufferLimit_lt (mBufferSize : Nat) : bufferLimit mBufferSize < 4294967295 := by
  rw [bufferLimit]
  omega

namespace Conversation

variable {stream : Nat → UInt8} {limit : Nat} {s t : Conversation} {calls : List Call}

/-- The calls have shared the bytes of the stream, and those that succeeded have segments. -/
structure Inv (stream : Nat → UInt8) (limit : Nat) (s : Conversation) : Prop where
  shared : taken stream 0 s.pos = s.log.flatMap Entry.bytes
  segment : ∀ e ∈ s.log, e.ok = true → Segment limit e.call e.data e.bytes

theorem Inv.step (h : s.Inv stream limit) (hlimit : limit < 4294967295) {call : Call}
    (hquiet : call.Quiet) (hstep : s.step stream limit call = some t) : t.Inv stream limit := by
  obtain ⟨r, hr, rfl⟩ := Option.map_eq_some_iff.mp hstep
  obtain ⟨n, hpos, hsegment⟩ := call.on_eq_some hlimit hr hquiet
  have hbytes : r.pos - s.pos = n := by omega
  rw [hbytes]
  refine ⟨?_, fun e he hok => ?_⟩
  · rw [List.flatMap_append, ← h.shared, hpos, taken_add, Nat.zero_add]
    simp
  · rcases List.mem_append.mp he with hold | hnew
    · exact h.segment e hold hok
    · obtain rfl := List.mem_singleton.mp hnew
      exact hsegment hok

/-- Whatever the daemon sends, however it is cut into pieces, and whichever calls fail: the calls
    have shared the bytes up to the position among them, in order and without gaps; a call that
    has returned true has taken the answers that it waits for and no other byte, and the
    measurement of a `stop` is what stands behind its length. -/
theorem segments_of_run {mBufferSize : Nat} (hquiet : ∀ call ∈ calls, call.Quiet)
    (hrun : run (Conversation.step stream (bufferLimit mBufferSize)) {} calls = some s) :
    taken stream 0 s.pos = s.log.flatMap Entry.bytes ∧
      ∀ e ∈ s.log, e.ok = true → Segment (bufferLimit mBufferSize) e.call e.data e.bytes := by
  have hinv : s.Inv stream (bufferLimit mBufferSize) := by
    refine run_invariant_of_mem (fun call hcall s t hs hstep => ?_) ⟨rfl, by simp⟩ hrun
    exact hs.step (bufferLimit_lt mBufferSize) (hquiet call hcall) hstep
  exact ⟨hinv.shared, hinv.segment⟩

/-- What a daemon sends with a measurement of one sample. -/
def oneSample (i : Nat) : UInt8 :=
  (([charO, charK, charO, charK, charO, charK, charO, charK, 0, 0, 0, 8] : List UInt8)[i]?).getD 1

/-- The calls, with some of the answers cut into pieces. -/
def oneMeasurement : List Call :=
  [.handshake true ⟨[.read 1, .read 1], .full⟩,
    .start true ⟨[.read 2], .full⟩ true ⟨[.read 2], .full⟩,
    .stop ⟨[], .timeout⟩ true ⟨[.read 2], .full⟩ ⟨[.read 3, .read 1], .full⟩ true
      ⟨[.read 5, .read 3], .full⟩]

theorem segments_of_run_oneMeasurement : ∃ s,
    run (Conversation.step oneSample (bufferLimit 1)) {} oneMeasurement = some s ∧
    taken oneSample 0 s.pos = s.log.flatMap Entry.bytes ∧
      ∀ e ∈ s.log, e.ok = true → Segment (bufferLimit 1) e.call e.data e.bytes := by
  have hrun : (run (Conversation.step oneSample (bufferLimit 1)) {} oneMeasurement).isSome := by
    decide
  obtain ⟨s, hs⟩ := Option.isSome_iff_exists.mp hrun
  have hquiet : ∀ call ∈ oneMeasurement, call.Quiet := by
    simp [oneMeasurement, Call.Quiet, Rounds.Quiet]
  exact ⟨s, hs, segments_of_run hquiet hs⟩

end Conversation

end LibCollector.Power
