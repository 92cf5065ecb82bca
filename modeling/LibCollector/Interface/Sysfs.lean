import LibCollector.Interface.Collector

/-!
# Sysfs collectors

`SysfsCollector` of `src/interface.cpp`, which reads one number from a file. What the
kernel answers to a `collect()` call is a `SysfsReply`; the failed assertion on the
descriptor is `none`.
-/

namespace LibCollector.Interface

open LibCollector.Misc

/-- `strtol` to base ten: the number, and what follows it. -/
def strtol (s : Str) : Int64 × Str :=
  let t := s.dropWhile isSpace
  let unsigned := if t.head? = some '-' ∨ t.head? = some '+' then t.tail else t
  let digits := unsigned.takeWhile Char.isDigit
  let n := signed (t.head? = some '-', Nat.ofDigitChars 10 digits 0)
  if digits = [] then (0, s)
  else (if n < Int64.minValue.toInt then Int64.minValue
      else if Int64.maxValue.toInt < n then Int64.maxValue
      else Int64.ofInt n,
    unsigned.dropWhile Char.isDigit)

/-- The answers to `read` (none when it fails), to `lseek` and to `open`. -/
structure SysfsReply where
  read : Option Str
  seekOk : Bool := true
  reopened : Int := -1

/-- The members of `SysfsCollector`; `mFactor` is `none` when it is not a number. -/
structure SysfsCollector where
  mName : Str
  mFD : Int
  mFactor : Option Float := none

namespace SysfsCollector

/-- `SysfsCollector::parse`: what is added, `none` when it returns false. -/
def parse (buffer : Str) (c : SysfsCollector) : Option (List Added) :=
  let parsed := strtol buffer
  if parsed.2 = [] then none
  else
    match c.mFactor with
    | none => some [(c.mName, .i64, .ofI64 parsed.1)]
    | some factor => some [(c.mName, .fp64, .ofFp64 (parsed.1.toFloat * factor))]

/-- `SysfsCollector::collect`: whether it succeeds, the collector, and what is added. -/
def collect (reply : SysfsReply) (c : SysfsCollector) :
    Option (Bool × SysfsCollector × List Added) :=
  if c.mFD = -1 then none
  else
    match reply.read with
    | none => some (false, c, [])
    | some data =>
      if reply.seekOk = false ∧ reply.reopened < 0 then some (false, { c with mFD := -1 }, [])
      else
        let c := if reply.seekOk then c else { c with mFD := reply.reopened }
        match c.parse (cstr (data.take 1023)) with
        | none => some (false, c, [])
        | some adds => some (true, c, adds)

theorem parse_eq_some {buffer : Str} {c : SysfsCollector} {adds : List Added}
    (h : c.parse buffer = some adds) : ∃ val, adds = [(c.mName, val)] := by
  unfold parse at h
  dsimp only at h
  split at h
  · cases h
  · split at h
    · cases h
      exact ⟨_, rfl⟩
    · cases h
      exact ⟨_, rfl⟩

/-- A call that succeeds adds one number under the name of the collector, one that fails adds
    nothing. -/
theorem collect_adds {reply : SysfsReply} {c c' : SysfsCollector} {ok : Bool} {adds : List Added}
    (h : c.collect reply = some (ok, c', adds)) :
    (∃ val, ok = true ∧ adds = [(c.mName, val)]) ∨ (ok = false ∧ adds = []) := by
  unfold collect at h
  split at h
  · cases h
  · split at h
    · cases h
      exact Or.inr ⟨rfl, rfl⟩
    · split at h
      · cases h
        exact Or.inr ⟨rfl, rfl⟩
      · dsimp only at h
        split at h
        · cases h
          exact Or.inr ⟨rfl, rfl⟩
        · rename_i parsed hparse
          cases h
          obtain ⟨val, hval⟩ := parse_eq_some hparse
          refine Or.inl ⟨val, rfl, ?_⟩
          rw [hval]
          split <;> rfl

end SysfsCollector

end LibCollector.Interface
