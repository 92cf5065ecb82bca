import LibCollector.Misc.Run
import Mathlib.Data.Nat.ModEq
import Mathlib.Tactic.IntervalCases

/-!
# Receiving from the power daemon

`PowerDaemon::receiveMsg` of `src/collectors/power.cpp`. A round of its loop that does not end it is
a `Wakeup`: `poll()` has reported the socket as readable, and `read()` has returned bytes, or `-1`
with `EAGAIN` or `EWOULDBLOCK`. The last round, if the loop is left from inside, is the `Ending`.
The offset is a 32 bit unsigned number, to which the result of `read()` is added, also if it is
`-1`. So what is returned is -1, or the number of bytes that are stored, only if such wake-ups do
not happen, or end the loop (`delivers_iff`).
-/

namespace LibCollector.Power

open LibCollector.Misc

/-! ## The loop -/

/-- A round after which the loop goes on. -/
inductive Wakeup where
  | again
  | read (n : Nat)
  deriving DecidableEq

/-- How the loop ends: all bytes are there, or a return inside it. -/
inductive Ending where
  | full
  | timeout
  | pollError
  | hangUp
  | readError
  | closed
  deriving DecidableEq

/-- `totalRead`, the number of bytes that were taken from the stream, and the buffer. -/
structure Receiver where
  totalRead : Nat
  received : Nat
  buf : Nat → UInt8

namespace Receiver

/-- The receiver before the loop. -/
def start (buf : Nat → UInt8) : Receiver := ⟨0, 0, buf⟩

/-- `read()` stores the next `n` bytes of the stream at the offset. -/
def store (stream : Nat → UInt8) (n : Nat) (r : Receiver) : Receiver where
  totalRead := (r.totalRead + n) % 4294967296
  received := r.received + n
  buf := fun i =>
    if r.totalRead ≤ i ∧ i < r.totalRead + n then stream (r.received + (i - r.totalRead))
    else r.buf i

/-- The offset goes one back, also from zero. -/
def back (r : Receiver) : Receiver :=
  { r with totalRead := if r.totalRead = 0 then 4294967295 else r.totalRead - 1 }

/-- `toRead`. -/
def toRead (len : Nat) (r : Receiver) : Nat := min (len - r.totalRead) 65536

/-- A round of the loop. -/
def wake (stream : Nat → UInt8) (len : Nat) (r : Receiver) : Wakeup → Option Receiver
  | .again => if r.totalRead < len then some r.back else none
  | .read n =>
    if r.totalRead < len ∧ 0 < n ∧ n ≤ r.toRead len then some (r.store stream n) else none

/-- `totalRead` as an `int`. -/
def result (r : Receiver) : Int :=
  if r.totalRead < 2147483648 then r.totalRead else r.totalRead - 4294967296

/-- What is returned when the loop ends. -/
def finish (len : Nat) (r : Receiver) : Ending → Option Int
  | .full => if r.totalRead < len then none else some r.result
  | .timeout => if r.totalRead < len then some r.result else none
  | _ => if r.totalRead < len then some (-1) else none

end Receiver

/-- `PowerDaemon::receiveMsg`, for the rounds of its loop. -/
def receiveMsg (stream : Nat → UInt8) (len : Nat) (buf : Nat → UInt8) (ws : List Wakeup)
    (e : Ending) : Option (Int × Receiver) :=
  (run (Receiver.wake stream len) (Receiver.start buf) ws).bind fun r =>
    (r.finish len e).map fun ret => (ret, r)

/-- `PowerDaemon::receiveSyncMsg`. -/
def receiveSyncMsg (stream : Nat → UInt8) (buf : Nat → UInt8) (recva recvb : UInt8)
    (ws : List Wakeup) (e : Ending) : Option Bool :=
  (receiveMsg stream 2 buf ws e).map fun r =>
    r.1 = 2 ∧ r.2.buf 0 = recva ∧ r.2.buf 1 = recvb

/-! ## What is delivered -/

/-- The number of stored bytes is returned, and these are the first bytes of the stream. -/
structure Delivered (stream : Nat → UInt8) (len : Nat) (e : Ending) (ret : Int) (r : Receiver) :
    Prop where
  count : ret = r.received
  le : r.received ≤ len
  stored : ∀ i < r.received, r.buf i = stream i
  short : r.received < len → e = .timeout

/-- The rounds deliver every stream, or an error. -/
def Delivers (len : Nat) (ws : List Wakeup) (e : Ending) : Prop :=
  ∀ stream buf ret r, receiveMsg stream len buf ws e = some (ret, r) →
    ret = -1 ∨ Delivered stream len e ret r

/-- The rounds can happen. -/
def Possible (len : Nat) (ws : List Wakeup) (e : Ending) : Prop :=
  ∃ stream buf ret r, receiveMsg stream len buf ws e = some (ret, r)

/-- The bytes of a round. -/
def Wakeup.bytes : Wakeup → Nat
  | .again => 0
  | .read n => n

/-- The bytes of the rounds. -/
def bytes (ws : List Wakeup) : Nat := (ws.map Wakeup.bytes).sum

/-- The rounds in which nothing was read. -/
def agains (ws : List Wakeup) : Nat := ws.count .again

/-- `receiveMsg` returns from an error. -/
def Ending.IsError (e : Ending) : Prop := e ∈ [.pollError, .hangUp, .readError, .closed]

/-- The loop ends with an error, or right after a wake-up without a byte at offset zero, or there
    are less than 2^31 bytes and no wake-ups without a byte. It is as if there were none, if they
    come 2^32 at a time. -/
def Undisturbed (ws : List Wakeup) (e : Ending) : Prop :=
  e.IsError ∨ bytes ws + 1 ≡ agains ws [MOD 4294967296] ∨
    bytes ws < 2147483648 ∧ agains ws ≡ 0 [MOD 4294967296] ∧
      EachSplit (fun before w => w ≠ .again → agains before ≡ 0 [MOD 4294967296]) ws

/-! ## Rounds -/

section rounds

variable {stream : Nat → UInt8} {len : Nat} {r s : Receiver}

theorem wake_again_eq_some :
    r.wake stream len .again = some s ↔ r.totalRead < len ∧ s = r.back := by
  rw [Receiver.wake]
  split_ifs with h
  · simp [h, eq_comm]
  · simp [h]

theorem wake_read_eq_some {n : Nat} : r.wake stream len (.read n) = some s ↔
    r.totalRead < len ∧ 0 < n ∧ n ≤ r.toRead len ∧ s = r.store stream n := by
  rw [Receiver.wake]
  split_ifs with h
  · simp [h.1, h.2.1, h.2.2, eq_comm]
  · simp only [false_iff]
    rintro ⟨hlt, hpos, hle, -⟩
    exact h ⟨hlt, hpos, hle⟩

theorem received_wake {w : Wakeup} (h : r.wake stream len w = some s) :
    s.received = r.received + w.bytes := by
  cases w with
  | again =>
    obtain ⟨-, rfl⟩ := wake_again_eq_some.mp h
    rfl
  | read n =>
    obtain ⟨-, -, -, rfl⟩ := wake_read_eq_some.mp h
    rfl

/-- A round changes the buffer only where it stores the bytes that it receives. -/
theorem buf_wake {w : Wakeup} (h : r.wake stream len w = some s) (i : Nat) :
    s.buf i = r.buf i ∨ ∃ j, r.received ≤ j ∧ j < s.received ∧ s.buf i = stream j := by
  cases w with
  | again =>
    obtain ⟨-, rfl⟩ := wake_again_eq_some.mp h
    exact Or.inl rfl
  | read n =>
    obtain ⟨-, -, -, rfl⟩ := wake_read_eq_some.mp h
    simp only [Receiver.store]
    split_ifs
    · exact Or.inr ⟨r.received + (i - r.totalRead), by omega, by omega, rfl⟩
    · exact Or.inl rfl

theorem buf_run {ws : List Wakeup} (h : run (Receiver.wake stream len) r ws = some s) :
    r.received ≤ s.received ∧ ∀ i, s.buf i = r.buf i ∨
      ∃ j, r.received ≤ j ∧ j < s.received ∧ s.buf i = stream j := by
  induction ws using List.reverseRecOn generalizing s with
  | nil =>
    cases h
    exact ⟨Nat.le_refl _, fun i => Or.inl rfl⟩
  | append_singleton ws w ih =>
    obtain ⟨q, hq, hw⟩ := run_concat_eq_some.mp h
    obtain ⟨hle, hbuf⟩ := ih hq
    have hreceived := received_wake hw
    refine ⟨by omega, fun i => ?_⟩
    rcases buf_wake hw i with hsame | ⟨j, hj, hlt, hstream⟩
    · rw [hsame]
      exact (hbuf i).imp_right fun ⟨j, hj, hlt, hstream⟩ => ⟨j, hj, by omega, hstream⟩
    · exact Or.inr ⟨j, by omega, hlt, hstream⟩

/-- What is in the stream and in the buffer has no influence on the rounds. -/
theorem exists_run {stream' : Nat → UInt8} {r' : Receiver} {ws : List Wakeup}
    (hoffset : r.totalRead = r'.totalRead)
    (h : run (Receiver.wake stream len) r ws = some s) :
    ∃ s', run (Receiver.wake stream' len) r' ws = some s' ∧ s.totalRead = s'.totalRead := by
  induction ws generalizing r r' with
  | nil =>
    cases h
    exact ⟨r', rfl, hoffset⟩
  | cons w ws ih =>
    obtain ⟨q, hq, hrest⟩ := run_cons_eq_some.mp h
    have hwake : ∃ q', r'.wake stream' len w = some q' ∧ q.totalRead = q'.totalRead := by
      cases w with
      | again =>
        obtain ⟨hlt, rfl⟩ := wake_again_eq_some.mp hq
        refine ⟨_, wake_again_eq_some.mpr ⟨hoffset ▸ hlt, rfl⟩, ?_⟩
        simp only [Receiver.back, hoffset]
      | read n =>
        obtain ⟨hlt, hpos, hn, rfl⟩ := wake_read_eq_some.mp hq
        refine ⟨_, wake_read_eq_some.mpr ⟨hoffset ▸ hlt, hpos, ?_, rfl⟩, ?_⟩
        · rw [Receiver.toRead, ← hoffset]
          exact hn
        · simp only [Receiver.store, hoffset]
    obtain ⟨q', hq', hsame⟩ := hwake
    obtain ⟨s', hs', hend⟩ := ih hsame hrest
    exact ⟨s', run_cons_eq_some.mpr ⟨q', hq', hs'⟩, hend⟩

end rounds

theorem bytes_concat (ws : List Wakeup) (w : Wakeup) : bytes (ws ++ [w]) = bytes ws + w.bytes := by
  simp [bytes]

theorem agains_again (ws : List Wakeup) : agains (ws ++ [.again]) = agains ws + 1 := by
  rw [agains, agains, List.count_append, List.count_singleton_self]

theorem agains_read (ws : List Wakeup) (n : Nat) : agains (ws ++ [.read n]) = agains ws := by
  rw [agains, agains, List.count_append]
  rfl

/-- How the receiver stands after the rounds. -/
structure Received (len : Nat) (ws : List Wakeup) (r : Receiver) : Prop where
  received : r.received = bytes ws
  lt : r.totalRead < 4294967296
  offset : r.totalRead + agains ws ≡ bytes ws [MOD 4294967296]
  le : r.totalRead ≤ len ∨ r.totalRead = 4294967295

theorem Received.again {len : Nat} {ws : List Wakeup} {r : Receiver} (h : Received len ws r)
    (hlt : r.totalRead < len) : Received len (ws ++ [.again]) r.back := by
  obtain ⟨hreceived, hsmall, hoffset, -⟩ := h
  rw [Nat.ModEq] at hoffset
  have hbytes : bytes (ws ++ [.again]) = bytes ws := bytes_concat ws .again
  refine ⟨hreceived.trans hbytes.symm, ?_, ?_, ?_⟩
  · simp only [Receiver.back]
    split_ifs <;> omega
  · rw [Nat.ModEq, hbytes, agains_again]
    simp only [Receiver.back]
    split_ifs <;> omega
  · simp only [Receiver.back]
    split_ifs <;> omega

theorem Received.read {stream : Nat → UInt8} {len n : Nat} {ws : List Wakeup} {r : Receiver}
    (h : Received len ws r) (hlt : r.totalRead < len) (hn : n ≤ r.toRead len) :
    Received len (ws ++ [.read n]) (r.store stream n) := by
  obtain ⟨hreceived, -, hoffset, -⟩ := h
  rw [Nat.ModEq] at hoffset
  have hbytes : bytes (ws ++ [.read n]) = bytes ws + n := bytes_concat ws (.read n)
  refine ⟨?_, ?_, ?_, Or.inl ?_⟩
  · rw [hbytes, ← hreceived]
    rfl
  · simp only [Receiver.store]
    omega
  · rw [Nat.ModEq, hbytes, agains_read]
    simp only [Receiver.store]
    omega
  · have hle : n ≤ len - r.totalRead := hn.trans (Nat.min_le_left _ _)
    have hmod := Nat.mod_le (r.totalRead + n) 4294967296
    simp only [Receiver.store]
    omega

theorem received_run {stream buf : Nat → UInt8} {len : Nat} {ws : List Wakeup} {r : Receiver}
    (h : run (Receiver.wake stream len) (Receiver.start buf) ws = some r) : Received len ws r := by
  induction ws using List.reverseRecOn generalizing r with
  | nil =>
    cases h
    exact ⟨rfl, Nat.zero_lt_succ _, rfl, Or.inl (Nat.zero_le _)⟩
  | append_singleton ws w ih =>
    obtain ⟨q, hq, hw⟩ := run_concat_eq_some.mp h
    cases w with
    | again =>
      obtain ⟨hlt, rfl⟩ := wake_again_eq_some.mp hw
      exact (ih hq).again hlt
    | read n =>
      obtain ⟨hlt, -, hn, rfl⟩ := wake_read_eq_some.mp hw
      exact (ih hq).read hlt hn

/-- The offset is the number of bytes, if the wake-ups without a byte do not show in it. -/
theorem Received.totalRead_eq {len : Nat} {ws : List Wakeup} {r : Receiver} (h : Received len ws r)
    (hbytes : bytes ws < 4294967296) (hagains : agains ws ≡ 0 [MOD 4294967296]) :
    r.totalRead = bytes ws := by
  have hoffset := h.offset
  have hlt := h.lt
  rw [Nat.ModEq] at hoffset hagains
  omega

/-- What is returned is -1 if the offset is one before zero. -/
theorem Received.result_eq_neg_one_iff {len : Nat} {ws : List Wakeup} {r : Receiver}
    (h : Received len ws r) : r.result = -1 ↔ bytes ws + 1 ≡ agains ws [MOD 4294967296] := by
  have hlt := h.lt
  have hresult : r.result = -1 ↔ r.totalRead + 1 ≡ 0 [MOD 4294967296] := by
    unfold Receiver.result Nat.ModEq
    constructor
    · intro hneg
      split_ifs at hneg
      omega
    · intro hzero
      split_ifs <;> omega
  rw [hresult]
  constructor
  · intro hzero
    have hsum : r.totalRead + 1 + agains ws ≡ 0 + agains ws [MOD 4294967296] :=
      hzero.add_right _
    rw [Nat.zero_add, Nat.add_right_comm] at hsum
    exact (h.offset.add_right 1).symm.trans hsum
  · intro hbytes
    have hsum : r.totalRead + (bytes ws + 1) ≡ 0 + bytes ws [MOD 4294967296] := by
      rw [Nat.zero_add]
      exact (hbytes.add_left _).trans h.offset
    rw [← Nat.add_assoc, Nat.add_right_comm] at hsum
    exact Nat.ModEq.add_right_cancel' _ hsum

/-- The returned number is the number of bytes if there are less than 2^31. -/
theorem Received.result_eq_iff {len : Nat} {ws : List Wakeup} {r : Receiver}
    (h : Received len ws r) : r.result = r.received ↔
      bytes ws < 2147483648 ∧ agains ws ≡ 0 [MOD 4294967296] := by
  have hlt := h.lt
  rw [h.received]
  constructor
  · intro hresult
    have heq : r.totalRead = bytes ws ∧ bytes ws < 2147483648 := by
      unfold Receiver.result at hresult
      split_ifs at hresult <;> omega
    have hoffset := h.offset
    rw [heq.1] at hoffset
    exact ⟨heq.2, Nat.ModEq.add_left_cancel' _ (hoffset.trans (Nat.add_zero _ ▸ rfl))⟩
  · rintro ⟨hsmall, hagains⟩
    have heq := h.totalRead_eq (by omega) hagains
    unfold Receiver.result
    rw [heq, if_pos hsmall]

/-! ## Delivering -/

section delivering

variable {stream buf : Nat → UInt8} {len : Nat} {ws : List Wakeup} {e : Ending} {ret : Int}
  {r : Receiver}

theorem receiveMsg_eq_some : receiveMsg stream len buf ws e = some (ret, r) ↔
    run (Receiver.wake stream len) (Receiver.start buf) ws = some r ∧
      r.finish len e = some ret := by
  rw [receiveMsg, Option.bind_eq_some_iff]
  constructor
  · rintro ⟨q, hq, hret⟩
    obtain ⟨v, hv, heq⟩ := Option.map_eq_some_iff.mp hret
    cases heq
    exact ⟨hq, hv⟩
  · rintro ⟨hr, hret⟩
    exact ⟨r, hr, by rw [hret]; rfl⟩

/-- An error returns -1, the other endings the offset. -/
theorem finish_eq_some (h : r.finish len e = some ret) :
    (e.IsError ∧ ret = -1) ∨
      (e = .timeout ∧ r.totalRead < len ∧ ret = r.result) ∨
      (e = .full ∧ len ≤ r.totalRead ∧ ret = r.result) := by
  cases e with
  | full =>
    rw [Receiver.finish] at h
    split_ifs at h with hlt
    exact Or.inr (Or.inr ⟨rfl, Nat.le_of_not_lt hlt, (Option.some.inj h).symm⟩)
  | timeout =>
    rw [Receiver.finish] at h
    split_ifs at h with hlt
    exact Or.inr (Or.inl ⟨rfl, hlt, (Option.some.inj h).symm⟩)
  | pollError | hangUp | readError | closed =>
    simp only [Receiver.finish, Option.ite_none_right_eq_some, Option.some.injEq] at h
    exact Or.inl ⟨by simp [Ending.IsError], h.2.symm⟩

/-- If the wake-ups without a byte do not show in the offset of any read, the buffer has the
    first bytes of the stream. -/
theorem stored_run (hsmall : bytes ws < 4294967296)
    (heach : EachSplit (fun before w => w ≠ .again → agains before ≡ 0 [MOD 4294967296]) ws)
    (h : run (Receiver.wake stream len) (Receiver.start buf) ws = some r) :
    ∀ i < r.received, r.buf i = stream i := by
  induction ws using List.reverseRecOn generalizing r with
  | nil =>
    cases h
    intro i hi
    cases hi
  | append_singleton ws w ih =>
    obtain ⟨q, hq, hw⟩ := run_concat_eq_some.mp h
    obtain ⟨hbefore, hlast⟩ := eachSplit_concat.mp heach
    rw [bytes_concat] at hsmall
    have hstored := ih (by omega) hbefore hq
    cases w with
    | again =>
      obtain ⟨-, rfl⟩ := wake_again_eq_some.mp hw
      exact hstored
    | read n =>
      obtain ⟨-, -, -, rfl⟩ := wake_read_eq_some.mp hw
      have hinv := received_run hq
      have hoffset : q.totalRead = q.received := by
        rw [hinv.received]
        exact hinv.totalRead_eq (by omega) (hlast nofun)
      intro i hi
      simp only [Receiver.store] at hi ⊢
      rw [hoffset]
      split_ifs with hnew
      · rw [Nat.add_sub_cancel' hnew.1]
      · exact hstored i (by omega)

theorem delivered_of_undisturbed (hcond : Undisturbed ws e)
    (h : receiveMsg stream len buf ws e = some (ret, r)) :
    ret = -1 ∨ Delivered stream len e ret r := by
  obtain ⟨hrun, hret⟩ := receiveMsg_eq_some.mp h
  have hinv := received_run hrun
  rcases finish_eq_some hret with ⟨-, rfl⟩ | hend
  · exact Or.inl rfl
  · have hresult : ret = r.result := by
      rcases hend with ⟨-, -, hresult⟩ | ⟨-, -, hresult⟩ <;> exact hresult
    have hnoError : ¬ e.IsError := by
      rcases hend with ⟨rfl, -⟩ | ⟨rfl, -⟩ <;> simp [Ending.IsError]
    rcases hcond with herror | hneg | ⟨hsmall, hagains, heach⟩
    · exact absurd herror hnoError
    · exact Or.inl (hresult.trans (hinv.result_eq_neg_one_iff.mpr hneg))
    · have hoffset := hinv.totalRead_eq (by omega) hagains
      have hreceived := hinv.received
      refine Or.inr ⟨hresult.trans (hinv.result_eq_iff.mpr ⟨hsmall, hagains⟩), ?_,
        stored_run (by omega) heach hrun, ?_⟩
      · have hle := hinv.le
        omega
      · intro hshort
        rcases hend with ⟨rfl, -⟩ | ⟨-, hfull, -⟩
        · rfl
        · omega

theorem exists_receiveMsg (h : Possible len ws e) (stream buf : Nat → UInt8) :
    ∃ ret r, receiveMsg stream len buf ws e = some (ret, r) := by
  obtain ⟨stream', buf', ret, r, h⟩ := h
  obtain ⟨hrun, hret⟩ := receiveMsg_eq_some.mp h
  have hstart : (Receiver.start buf').totalRead = (Receiver.start buf).totalRead := rfl
  obtain ⟨r', hrun', hoffset⟩ := @exists_run stream' len _ _ stream _ _ hstart hrun
  have hsame : r.finish len e = r'.finish len e := by
    cases e <;> simp only [Receiver.finish, Receiver.result, hoffset]
  exact ⟨ret, r', receiveMsg_eq_some.mpr ⟨hrun', hsame.symm.trans hret⟩⟩

/-- A stream in which one byte can be told from the others. -/
def marked (n i : Nat) : UInt8 := if i = n then 1 else 0

/-- A read at which the wake-ups without a byte show in the offset stores its first byte in the
    wrong place. -/
theorem offset_of_stored {before after : List Wakeup} {n : Nat}
    (hrun : run (Receiver.wake (marked (bytes before)) len) (Receiver.start fun _ => 0)
      (before ++ .read n :: after) = some r)
    (hstored : r.buf (bytes before) = 1) : agains before ≡ 0 [MOD 4294967296] := by
  obtain ⟨q, hq, hrest⟩ := run_append_eq_some.mp hrun
  obtain ⟨s, hs, hafter⟩ := run_cons_eq_some.mp hrest
  have hinv := received_run hq
  have hmarked : ∀ {i}, marked (bytes before) i = 1 → i = bytes before := by
    intro i hi
    by_contra hne
    rw [marked, if_neg hne] at hi
    exact absurd hi (by decide)
  obtain ⟨-, hpos, -, rfl⟩ := wake_read_eq_some.mp hs
  -- neither an earlier read nor a later one stores the marked byte
  have hstored' : (q.store (marked (bytes before)) n).buf (bytes before) = 1 := by
    rcases (buf_run hafter).2 (bytes before) with hsame | ⟨j, hj, -, hstream⟩
    · rw [← hsame, hstored]
    · rw [hstored] at hstream
      have hj' := hmarked hstream.symm
      have hreceived := received_wake hs
      rw [Wakeup.bytes, hinv.received] at hreceived
      omega
  have hbefore : q.buf (bytes before) ≠ 1 := by
    rcases (buf_run hq).2 (bytes before) with hsame | ⟨j, -, hj, hstream⟩
    · rw [hsame]
      exact (by decide : (0 : UInt8) ≠ 1)
    · rw [hstream]
      intro hone
      have hj' := hmarked hone
      rw [hinv.received] at hj
      omega
  simp only [Receiver.store, hinv.received] at hstored'
  split_ifs at hstored' with hplace
  · have hsame := hmarked hstored'
    have hoffset := hinv.offset
    rw [show q.totalRead = bytes before by omega] at hoffset
    exact Nat.ModEq.add_left_cancel' _ (hoffset.trans (Nat.add_zero _ ▸ rfl))
  · exact absurd hstored' hbefore

theorem undisturbed_of_delivers (hpossible : Possible len ws e) (h : Delivers len ws e) :
    Undisturbed ws e := by
  have hcount : ¬ e.IsError → ¬ bytes ws + 1 ≡ agains ws [MOD 4294967296] →
      ∀ stream buf, ∃ ret r, run (Receiver.wake stream len) (Receiver.start buf) ws = some r ∧
        ret = r.result ∧ Delivered stream len e ret r := by
    intro herror hneg stream buf
    obtain ⟨ret, r, hret⟩ := exists_receiveMsg hpossible stream buf
    obtain ⟨hrun, hfinish⟩ := receiveMsg_eq_some.mp hret
    have hresult : ret = r.result := by
      rcases finish_eq_some hfinish with ⟨he, -⟩ | ⟨-, -, hresult⟩ | ⟨-, -, hresult⟩
      · exact absurd he herror
      · exact hresult
      · exact hresult
    refine ⟨ret, r, hrun, hresult, (h stream buf ret r hret).resolve_left fun hminus => ?_⟩
    exact hneg ((received_run hrun).result_eq_neg_one_iff.mp (hresult.symm.trans hminus))
  by_contra hcond
  rw [Undisturbed, not_or, not_or] at hcond
  obtain ⟨herror, hneg, hoffset⟩ := hcond
  have hdelivered := hcount herror hneg
  obtain ⟨ret, r, hrun, hresult, hdone⟩ := hdelivered (fun _ => 0) fun _ => 0
  obtain ⟨hsmall, hagains⟩ := (received_run hrun).result_eq_iff.mp
    (hresult.symm.trans hdone.count)
  refine hoffset ⟨hsmall, hagains, ?_⟩
  rintro before w after rfl hw
  cases w with
  | again => exact absurd rfl hw
  | read n =>
    obtain ⟨ret, r, hrun, -, hdone⟩ := hdelivered (marked (bytes before)) fun _ => 0
    have hpos : 0 < n := by
      obtain ⟨q, -, hrest⟩ := run_append_eq_some.mp hrun
      obtain ⟨s, hs, -⟩ := run_cons_eq_some.mp hrest
      exact (wake_read_eq_some.mp hs).2.1
    have hlt : bytes before < r.received := by
      have hsum : bytes (before ++ .read n :: after) = bytes before + (n + bytes after) := by
        simp [bytes, Wakeup.bytes]
      rw [(received_run hrun).received, hsum]
      omega
    refine offset_of_stored hrun ?_
    rw [hdone.stored _ hlt, marked, if_pos rfl]

end delivering

/-- The rounds deliver every stream if and only if they are undisturbed. -/
theorem delivers_iff {len : Nat} {ws : List Wakeup} {e : Ending} (h : Possible len ws e) :
    Delivers len ws e ↔ Undisturbed ws e :=
  ⟨undisturbed_of_delivers h, fun hcond _ _ _ _ => delivered_of_undisturbed hcond⟩

/-- Two bytes, one after the other. -/
theorem delivers_two_reads :
    Possible 2 [.read 1, .read 1] .full ∧
      (Delivers 2 [.read 1, .read 1] .full ↔ Undisturbed [.read 1, .read 1] .full) := by
  have h : Possible 2 [.read 1, .read 1] .full := ⟨fun _ => 0, fun _ => 0, 2, _, rfl⟩
  exact ⟨h, delivers_iff h⟩

/-- A wake-up without a byte after the first byte: three bytes are taken from the stream, and the
    second is stored over the first. -/
theorem not_delivers_again : ¬ ∀ len ws e, Delivers len ws e := by
  intro h
  have hrun : receiveMsg (fun i => if i = 0 then 1 else 2) 2 (fun _ => 0)
      [.read 1, .again, .read 2] .full = some (2, ⟨2, 3, _⟩) := rfl
  rcases h _ _ _ _ _ _ _ hrun with hminus | hdelivered
  · exact absurd hminus (by decide)
  · exact absurd (hdelivered.stored 0 (by decide)) (by decide)

/-- An undisturbed synchronisation has seen the first two bytes of the stream. -/
theorem receiveSyncMsg_true {stream buf : Nat → UInt8} {recva recvb : UInt8} {ws : List Wakeup}
    {e : Ending} (hcond : Undisturbed ws e)
    (h : receiveSyncMsg stream buf recva recvb ws e = some true) :
    stream 0 = recva ∧ stream 1 = recvb := by
  obtain ⟨⟨ret, r⟩, hret, htrue⟩ := Option.map_eq_some_iff.mp h
  obtain ⟨rfl, ha, hb⟩ := of_decide_eq_true htrue
  rcases delivered_of_undisturbed hcond hret with hminus | hdelivered
  · exact absurd hminus (by decide)
  · have hcount := hdelivered.count
    rw [← hdelivered.stored 0 (by omega), ← hdelivered.stored 1 (by omega)]
    exact ⟨ha, hb⟩

end LibCollector.Power
