import LibCollector.Misc.FdTable
import LibCollector.Misc.Run
import LibCollector.Power.Config

/-!
# The connection to the power daemon

`PowerDaemon::connectToDaemon` and `disconnect` of `src/collectors/power.cpp`, and `init()` and
`deinit()` of `PowerDataCollector` with the sockets of the process. A socket is closed when an
attempt to connect fails, but `init()` does not ask if there is a connection: one that was there is
lost. In a run this needs a configuration with a member `power` in its member `power`
(`sockets_of_run`).
-/

namespace LibCollector.Power

open LibCollector.Misc

variable {J A : Type}

/-! ## Sockets -/

/-- How an attempt with a socket ends: `connect` succeeds, a call of `fcntl` or `connect` fails, or
    the connection is in progress, and `poll` fails or times out, or `getsockopt` fails or reports
    an error or none. -/
inductive Outcome where
  | connected
  | getFlags
  | setFlags
  | refused
  | pollError
  | timeout
  | getsockopt
  | socketError
  | ready
  deriving DecidableEq

/-- `mSocketFD` and the descriptors of the process. `lost` are the sockets that were open when
    `mSocketFD` was overwritten. -/
structure Sockets where
  mSocketFD : Int := -1
  table : FdTable := {}
  lost : List Int := []
  deriving DecidableEq

/-- What the network answers to a call of `init()`: the addresses of the daemon, the first of them
    apart, the socket and the outcome of each attempt with an address, and the handshake. -/
structure Network (A : Type) where
  addresses : Option (A × List A)
  attempt : A → Nat → Option (Int × Outcome)
  handshakes : Bool

namespace Sockets

/-- The socket of the connection. -/
def current (s : Sockets) : List Int := if s.mSocketFD = -1 then [] else [s.mSocketFD]

/-- `mSocketFD = socket(..)`. A descriptor that is open already is not given out. -/
def socket (fd : Int) (s : Sockets) : Option Sockets :=
  if s.table.Free fd then some { s with mSocketFD := fd, table := s.table.give fd } else none

/-- `close(mSocketFD)`. -/
def close (s : Sockets) : Sockets := { s with table := s.table.close s.mSocketFD }

/-- The loop of `connectToDaemon` over the addresses, from an attempt on. Every attempt is made
    with `result`, the first address. -/
def connectLoop (net : Network A) (result : A) : List A → Nat → Sockets → Option (Bool × Sockets)
  | [], _, s => some (false, s)
  | _ :: rps, n, s =>
    match net.attempt result n with
    | none => connectLoop net result rps (n + 1) { s with mSocketFD := -1 }
    | some (fd, outcome) =>
      (s.socket fd).bind fun s =>
        match outcome with
        | .connected => some (true, s)
        | .ready => some (true, s)
        | .getFlags => connectLoop net result rps (n + 1) s.close
        | .setFlags => connectLoop net result rps (n + 1) s.close
        | .refused => connectLoop net result rps (n + 1) s.close
        | .pollError => some (false, s.close)
        | .timeout => some (false, s.close)
        | .getsockopt => some (false, s.close)
        | .socketError => some (false, s.close)

/-- `PowerDaemon::connectToDaemon`. -/
def connectToDaemon (net : Network A) (s : Sockets) : Option (Bool × Sockets) :=
  match net.addresses with
  | none => some (false, s)
  | some (result, rps) =>
    (connectLoop net result (result :: rps) 0 { s with lost := s.current ++ s.lost }).map fun r =>
      (r.1, if r.1 then r.2 else { r.2 with mSocketFD := -1 })

/-- `PowerDaemon::disconnect`. -/
def disconnect (s : Sockets) : Sockets :=
  if s.mSocketFD ≠ -1 then { s.close with mSocketFD := -1 } else s

/-- The open sockets are that of the connection, those that are lost, and those of others. -/
def Owns (s : Sockets) (held : List Int) : Prop := s.table.Holds (s.current ++ s.lost ++ held)

variable {s s' : Sockets} {held : List Int} {net : Network A} {result : A} {rps : List A} {n : Nat}
  {ok : Bool} {fd : Int}

theorem socket_eq_some (h : s.socket fd = some s') (hs : s.table.Holds held) :
    s'.table.Holds (fd :: held) ∧ s'.mSocketFD = fd ∧ 0 ≤ fd ∧ s'.lost = s.lost := by
  unfold socket at h
  split_ifs at h with hfree
  cases h
  exact ⟨hs.give hfree, rfl, hfree.1, rfl⟩

theorem close_holds (h : s.table.Holds (fd :: held)) (hfd : s.mSocketFD = fd) :
    s.close.table.Holds held := by
  subst hfd
  exact h.close

/-- A loop that fails leaves no socket behind. -/
theorem connectLoop_eq_some (h : connectLoop net result rps n s = some (ok, s'))
    (hs : s.table.Holds held) :
    s'.lost = s.lost ∧ (ok = false → s'.table.Holds held) ∧
      (ok = true → s'.mSocketFD ≠ -1 ∧ s'.table.Holds (s'.mSocketFD :: held)) := by
  induction rps generalizing n s with
  | nil =>
    cases h
    exact ⟨rfl, fun _ => hs, by simp⟩
  | cons rp rps ih =>
    rw [connectLoop] at h
    cases hattempt : net.attempt result n with
    | none =>
      rw [hattempt] at h
      exact ih (s := { s with mSocketFD := -1 }) h hs
    | some answer =>
      obtain ⟨fd, outcome⟩ := answer
      rw [hattempt] at h
      obtain ⟨mid, hmid, h⟩ := Option.bind_eq_some_iff.mp h
      obtain ⟨hopen, hfd, hpos, hlost⟩ := socket_eq_some hmid hs
      have hclosed := close_holds hopen hfd
      have hgone : mid.close.lost = s.lost := hlost
      rw [← hfd] at hopen
      cases outcome with
      | connected =>
        cases h
        exact ⟨hlost, by simp, fun _ => ⟨by omega, hopen⟩⟩
      | ready =>
        cases h
        exact ⟨hlost, by simp, fun _ => ⟨by omega, hopen⟩⟩
      | getFlags =>
        rw [← hgone]
        exact ih h hclosed
      | setFlags =>
        rw [← hgone]
        exact ih h hclosed
      | refused =>
        rw [← hgone]
        exact ih h hclosed
      | pollError =>
        cases h
        exact ⟨hgone, fun _ => hclosed, by simp⟩
      | timeout =>
        cases h
        exact ⟨hgone, fun _ => hclosed, by simp⟩
      | getsockopt =>
        cases h
        exact ⟨hgone, fun _ => hclosed, by simp⟩
      | socketError =>
        cases h
        exact ⟨hgone, fun _ => hclosed, by simp⟩

theorem current_of_ne (h : s.mSocketFD ≠ -1) : s.current = [s.mSocketFD] := if_neg h

/-- A connection that was there is lost, and none else. -/
theorem Owns.connectToDaemon (h : s.Owns held) (hconnect : s.connectToDaemon net = some (ok, s')) :
    s'.Owns held ∧ (s'.lost = s.lost ∨ s'.lost = s.current ++ s.lost) ∧
      (ok = false → s.current = [] → s'.current = []) := by
  unfold Sockets.connectToDaemon at hconnect
  cases haddresses : net.addresses with
  | none =>
    rw [haddresses] at hconnect
    cases hconnect
    exact ⟨h, Or.inl rfl, fun _ hnone => hnone⟩
  | some addresses =>
    obtain ⟨result, rps⟩ := addresses
    rw [haddresses] at hconnect
    obtain ⟨⟨ok', t⟩, hloop, heq⟩ := Option.map_eq_some_iff.mp hconnect
    obtain ⟨hlost, hfailed, hconnected⟩ := connectLoop_eq_some hloop h
    dsimp only at hlost heq
    cases ok' with
    | false =>
      cases heq
      refine ⟨?_, Or.inr hlost, fun _ _ => rfl⟩
      show FdTable.Holds _ ([] ++ t.lost ++ held)
      rw [hlost]
      exact hfailed rfl
    | true =>
      cases heq
      obtain ⟨hne, hopen⟩ := hconnected rfl
      refine ⟨?_, Or.inr hlost, by simp⟩
      rw [Owns, if_pos rfl, current_of_ne hne, hlost]
      exact hopen

theorem Owns.disconnect (h : s.Owns held) :
    s.disconnect.Owns held ∧ s.disconnect.lost = s.lost ∧ s.disconnect.current = [] := by
  unfold Sockets.disconnect
  by_cases hfd : s.mSocketFD = -1
  · rw [if_neg (not_not.mpr hfd)]
    exact ⟨h, rfl, if_pos hfd⟩
  · rw [if_pos hfd]
    rw [Owns, current_of_ne hfd] at h
    exact ⟨h.close, rfl, rfl⟩

end Sockets

/-! ## The collector -/

/-- The collector in its process. -/
structure PowerSession (J : Type) where
  collector : PowerDataCollector J
  sockets : Sockets := {}

/-- A call on the collector. `postprocess()` changes neither the configuration nor the socket. -/
inductive PowerCall (A : Type) where
  | init (net : Network A)
  | start (link : Link)
  | postprocess
  | deinit

namespace PowerSession

/-- `PowerDataCollector::init`. -/
def init (lib : JsonValue J) (net : Network A) (s : PowerSession J) :
    Option (Bool × PowerSession J) := do
  guard (lib.isNull s.collector.mConfig = false)
  let config ← lib.member s.collector.mConfig "power".toList
  guard (lib.isNull config = false)
  let (pdip, pdport) ← PowerDataCollector.address lib config
  let rails ← lib.member config "rails".toList
  if lib.isArray rails = false ∨ lib.size rails = 0 then pure (false, s)
  else
    let valid ← railsValid lib rails (List.range (lib.size rails))
    if valid = false then pure (false, s)
    else
      let _timeout ← PowerDataCollector.connectTimeout lib config
      if pdip = [] ∨ pdport = 0 then pure (false, s)
      else
        let (connected, sockets) ← s.sockets.connectToDaemon net
        if connected = false then pure (false, { s with sockets := sockets })
        else if net.handshakes = false then
          pure (false, { s with sockets := sockets.disconnect })
        else
          let mPD ← PowerDataCollector.configure lib config s.collector.mPD
          pure (true, ⟨{ s.collector with mConfig := config, mPD := mPD }, sockets⟩)

/-- A call, by which the process may end. -/
def step (lib : JsonValue J) (s : PowerSession J) : PowerCall A → Option (PowerSession J)
  | .init net => (s.init lib net).map Prod.snd
  | .start link => (s.collector.start lib link).map fun out => { s with collector := out.after }
  | .postprocess => some s
  | .deinit => some { s with sockets := s.sockets.disconnect }

variable {lib : JsonValue J} {net : Network A} {s s' : PowerSession J} {held : List Int} {ok : Bool}

/-- The daemon of the model without sockets. -/
def daemonOf (net : Network A) (sockets : Sockets) : Daemon where
  connects _ _ _ := ((sockets.connectToDaemon net).map Prod.fst).getD false
  handshakes _ := net.handshakes

/-- What `init()` does to the collector, which is that of the model without sockets, and to the
    sockets. -/
structure Initialized (lib : JsonValue J) (net : Network A) (held : List Int) (s : PowerSession J)
    (ok : Bool) (s' : PowerSession J) : Prop where
  collector : s.collector.init lib (daemonOf net s.sockets) = some (ok, s'.collector)
  owns : s'.sockets.Owns held
  lost : s'.sockets.lost = s.sockets.lost ∨ s'.sockets.lost = s.sockets.current ++ s.sockets.lost
  config : ∃ power, lib.member s.collector.mConfig "power".toList = some power ∧
    lib.isNull power = false ∧ (ok = true → s'.collector.mConfig = power)
  failed : ok = false → s'.collector = s.collector ∧
    (s.sockets.current = [] → s'.sockets.current = [])

/-- A call that comes to nothing before a connection is made. -/
theorem Initialized.unconnected {power : J}
    (hcollector : s.collector.init lib (daemonOf net s.sockets) = some (false, s.collector))
    (hs : s.sockets.Owns held)
    (hconfig : lib.member s.collector.mConfig "power".toList = some power)
    (hnull : lib.isNull power = false) : Initialized lib net held s false s :=
  ⟨hcollector, hs, Or.inl rfl, ⟨power, hconfig, hnull, by simp⟩, fun _ => ⟨rfl, id⟩⟩

theorem initialized (h : s.init lib net = some (ok, s')) (hs : s.sockets.Owns held) :
    Initialized lib net held s ok s' := by
  unfold PowerSession.init at h
  obtain ⟨_, hnull, h⟩ := Option.bind_eq_some_iff.mp h
  obtain ⟨config, hconfig, h⟩ := Option.bind_eq_some_iff.mp h
  obtain ⟨_, hnull', h⟩ := Option.bind_eq_some_iff.mp h
  obtain ⟨⟨pdip, pdport⟩, haddress, h⟩ := Option.bind_eq_some_iff.mp h
  obtain ⟨rails, hrails, h⟩ := Option.bind_eq_some_iff.mp h
  have hpower : lib.isNull config = false := by
    by_contra hne
    rw [guard, if_neg hne] at hnull'
    cases hnull'
  -- what the model without sockets comes to, as long as the two agree
  obtain ⟨result, hresult⟩ : ∃ result, s.collector.init lib (daemonOf net s.sockets) = result :=
    ⟨_, rfl⟩
  have hcollector := hresult
  unfold PowerDataCollector.init at hcollector
  rw [hnull, Option.bind_eq_bind, Option.bind_some, hconfig, Option.bind_eq_bind,
    Option.bind_some, hnull', Option.bind_eq_bind, Option.bind_some, haddress,
    Option.bind_eq_bind, Option.bind_some] at hcollector
  dsimp only at hcollector
  rw [hrails, Option.bind_eq_bind, Option.bind_some] at hcollector
  dsimp only at h
  split at h
  · rename_i hsize
    cases h
    rw [if_pos hsize] at hcollector
    exact .unconnected (hresult.trans hcollector.symm) hs hconfig hpower
  rename_i hsize
  rw [if_neg hsize] at hcollector
  obtain ⟨valid, hvalid, h⟩ := Option.bind_eq_some_iff.mp h
  rw [hvalid, Option.bind_some] at hcollector
  split at h
  · rename_i hinvalid
    cases h
    rw [if_pos hinvalid] at hcollector
    exact .unconnected (hresult.trans hcollector.symm) hs hconfig hpower
  rename_i hrailsValid
  rw [if_neg hrailsValid] at hcollector
  obtain ⟨timeout, htimeout, h⟩ := Option.bind_eq_some_iff.mp h
  rw [htimeout, Option.bind_some] at hcollector
  split at h
  · rename_i hnowhere
    cases h
    rw [if_pos hnowhere] at hcollector
    exact .unconnected (hresult.trans hcollector.symm) hs hconfig hpower
  rename_i hsomewhere
  rw [if_neg hsomewhere] at hcollector
  obtain ⟨⟨connected, sockets⟩, hconnect, h⟩ := Option.bind_eq_some_iff.mp h
  obtain ⟨howns, hlost, hfailed⟩ := hs.connectToDaemon hconnect
  have hconnects : (daemonOf net s.sockets).connects pdip pdport timeout = connected := by
    rw [daemonOf, hconnect]
    rfl
  have hhandshakes : (daemonOf net s.sockets).handshakes timeout = net.handshakes := rfl
  rw [hconnects, hhandshakes] at hcollector
  dsimp only at h
  split at h
  · rename_i hdown
    cases h
    rw [if_pos hdown] at hcollector
    exact ⟨hresult.trans hcollector.symm, howns, hlost, ⟨config, hconfig, hpower, by simp⟩,
      fun _ => ⟨rfl, hfailed hdown⟩⟩
  rename_i hup
  rw [if_neg hup] at hcollector
  obtain ⟨hclosed, hsame, hnone⟩ := howns.disconnect
  split at h
  · rename_i hrefused
    cases h
    rw [if_pos hrefused] at hcollector
    exact ⟨hresult.trans hcollector.symm, hclosed, hsame ▸ hlost,
      ⟨config, hconfig, hpower, by simp⟩, fun _ => ⟨rfl, fun _ => hnone⟩⟩
  · rename_i hshaken
    obtain ⟨mPD, hmPD, h⟩ := Option.bind_eq_some_iff.mp h
    cases h
    rw [if_neg hshaken, hmPD] at hcollector
    exact ⟨hresult.trans hcollector.symm, howns, hlost, ⟨config, hconfig, hpower, fun _ => rfl⟩,
      by simp⟩

/-! ## Runs -/

/-- While the configuration is the one that the collector was made with there is no connection,
    and none is ever lost. -/
structure Single (s : PowerSession J) (root power : J) : Prop where
  lost : s.sockets.lost = []
  config : s.collector.mConfig = root ∧ s.sockets.current = [] ∨ s.collector.mConfig = power

theorem step_eq_some {call : PowerCall A} (h : s.step lib call = some s')
    (hs : s.sockets.Owns held) :
    s'.sockets.Owns held ∧ ∀ root power, lib.member root "power".toList = some power →
      (∃ inner, lib.member power "power".toList = some inner ∧ lib.isNull inner = true) →
        s.Single root power → s'.Single root power := by
  cases call with
  | init net =>
    obtain ⟨⟨ok, s₁⟩, hinit, heq⟩ := Option.map_eq_some_iff.mp h
    dsimp only at heq
    subst heq
    have hdone := initialized hinit hs
    refine ⟨hdone.owns, fun root power hroot ⟨inner, hinner, hnull⟩ hsingle => ?_⟩
    obtain ⟨config, hconfig, hpower, hok⟩ := hdone.config
    rcases hsingle.config with ⟨hbefore, hnone⟩ | hafter
    · rw [hbefore, hroot] at hconfig
      obtain rfl := Option.some.inj hconfig
      refine ⟨?_, ?_⟩
      · rcases hdone.lost with hlost | hlost
        · rw [hlost, hsingle.lost]
        · rw [hlost, hnone, hsingle.lost]
          rfl
      · cases ok with
        | true => exact Or.inr (hok rfl)
        | false =>
          obtain ⟨hsame, hnone'⟩ := hdone.failed rfl
          exact Or.inl ⟨(congrArg _ hsame).trans hbefore, hnone' hnone⟩
    · -- the member that `init()` asks for is null, and the assertion fails
      rw [hafter, hinner] at hconfig
      obtain rfl := Option.some.inj hconfig
      rw [hpower] at hnull
      cases hnull
  | start link =>
    obtain ⟨out, hout, rfl⟩ := Option.map_eq_some_iff.mp h
    have hconfig : out.after.mConfig = s.collector.mConfig := by
      unfold PowerDataCollector.start at hout
      obtain ⟨power, -, hout⟩ := Option.bind_eq_some_iff.mp hout
      obtain ⟨started, -, rfl⟩ := Option.map_eq_some_iff.mp hout
      rfl
    refine ⟨hs, fun root power _ _ hsingle => ⟨hsingle.lost, ?_⟩⟩
    dsimp only
    rw [hconfig]
    exact hsingle.config
  | postprocess =>
    cases h
    exact ⟨hs, fun _ _ _ _ hsingle => hsingle⟩
  | deinit =>
    cases h
    obtain ⟨howns, hlost, hnone⟩ := hs.disconnect
    refine ⟨howns, fun root power _ _ hsingle => ⟨hlost.trans hsingle.lost, ?_⟩⟩
    exact hsingle.config.imp_left fun hbefore => ⟨hbefore.1, hnone⟩

/-- Whatever the calls and what the network answers, in any order: no descriptor is closed that is
    not open, the open sockets are that of the connection and those that were overwritten, and
    `deinit()` closes the first. If the member `power` of the configuration has no member `power`
    of its own, none is overwritten, and none is open after `deinit()`. -/
theorem sockets_of_run {c : PowerDataCollector J} {table : FdTable} (htable : table.Holds held)
    {calls : List (PowerCall A)}
    (hrun : run (PowerSession.step lib) ⟨c, { table := table }⟩ calls = some s) :
    s.sockets.table.Holds (s.sockets.current ++ s.sockets.lost ++ held) ∧
      s.sockets.disconnect.table.Holds (s.sockets.lost ++ held) ∧
      ∀ power inner, lib.member c.mConfig "power".toList = some power →
        lib.member power "power".toList = some inner → lib.isNull inner = true →
          s.sockets.lost = [] := by
  have hinv : s.sockets.Owns held ∧ ∀ power,
      lib.member c.mConfig "power".toList = some power →
      (∃ inner, lib.member power "power".toList = some inner ∧ lib.isNull inner = true) →
        s.Single c.mConfig power := by
    refine run_invariant (I := fun s : PowerSession J => s.sockets.Owns held ∧ ∀ power,
      lib.member c.mConfig "power".toList = some power →
      (∃ inner, lib.member power "power".toList = some inner ∧ lib.isNull inner = true) →
        s.Single c.mConfig power) ?_ ?_ hrun
    · rintro s call t ⟨howns, hsingle⟩ hstep
      obtain ⟨howns', hsingle'⟩ := step_eq_some hstep howns
      exact ⟨howns', fun power hpower hinner =>
        hsingle' c.mConfig power hpower hinner (hsingle power hpower hinner)⟩
    · exact ⟨htable, fun power _ _ => ⟨rfl, Or.inl ⟨rfl, rfl⟩⟩⟩
  obtain ⟨howns, hsingle⟩ := hinv
  obtain ⟨hclosed, hlost, hnone⟩ := howns.disconnect
  refine ⟨howns, ?_, fun power inner hpower hinner hnull =>
    (hsingle power hpower ⟨inner, hinner, hnull⟩).lost⟩
  rw [Sockets.Owns, hnone, hlost] at hclosed
  exact hclosed

/-- A network with two addresses, in which the first attempt is refused. -/
def secondAttempt : Network Unit where
  addresses := some ((), [()])
  attempt _ n := some (3, if n = 0 then .refused else .ready)
  handshakes := true

/-- A run with one connection. -/
theorem sockets_of_run_secondAttempt : ∃ s : PowerSession Json,
    run (PowerSession.step Json.value) ⟨collectorOf oneRail, {}⟩
        [.init { secondAttempt with handshakes := false }, .init secondAttempt, .postprocess] =
      some s ∧
    s.sockets.table.Holds (s.sockets.current ++ s.sockets.lost ++ []) ∧
    s.sockets.disconnect.table.Holds (s.sockets.lost ++ []) ∧
    ∀ power inner, Json.value.member (collectorOf oneRail).mConfig "power".toList = some power →
      Json.value.member power "power".toList = some inner → Json.value.isNull inner = true →
        s.sockets.lost = [] := by
  have hrun : (run (PowerSession.step Json.value) ⟨collectorOf oneRail, {}⟩
      [.init { secondAttempt with handshakes := false }, .init secondAttempt,
        .postprocess]).isSome := rfl
  obtain ⟨s, hs⟩ := Option.isSome_iff_exists.mp hrun
  exact ⟨s, hs, sockets_of_run FdTable.holds_empty hs⟩

end PowerSession

end LibCollector.Power
