import LibCollector.Ferret.PythonTrace
import Mathlib.Algebra.BigOperators.Group.List.Basic
import Mathlib.Algebra.Order.Field.Basic
import Mathlib.Tactic.NormNum
import Mathlib.Tactic.Ring

/-!
# The accounts of the threads

What the samples of a trace say about a thread, as an account of its own (`Account`), and
how the accounts of the two programs stand to it. A `Process` of `ferret.py` holds the exact
sums (`Python.Process.Holds`); a `FerretProcess` holds them as far as they fit into an `int`
(`FerretProcess.Holds`).
-/

namespace LibCollector.Ferret

open LibCollector.Misc

/-! ## Observations -/

/-- What a sample says about a thread. -/
structure Observation where
  time : ℚ
  comm : Str
  jiffies : Int
  kHz : Int
  processor : Int

namespace TraceSample

/-- The fields of a thread: those of its last `S` row. -/
def thread? (s : TraceSample) (pid : Int) : Option StatFields :=
  s.body.reverse.findSome? fun
    | .stat f => if f.pid = pid then some f else none
    | _ => none

/-- The frequencies of the last `F` row. -/
def frequencies? (s : TraceSample) : Option (List (Int × Int)) :=
  s.body.reverse.findSome? fun
    | .freq entries => some entries
    | _ => none

/-- The frequency of a CPU. -/
def kHz? (s : TraceSample) (cpu : Int) : Option Int :=
  s.frequencies?.bind fun entries =>
    entries.reverse.findSome? fun e => if e.1 = cpu then some e.2 else none

/-- What a sample says about a thread, if it says anything. -/
def observe (s : TraceSample) (pid : Int) : Option Observation :=
  (s.thread? pid).map fun f => {
    time := (s.now : ℚ) / 1000000
    comm := f.comm
    jiffies := f.utime + f.stime
    kHz := (s.kHz? f.processor).getD 0
    processor := f.processor }

end TraceSample

/-! ## Accounts -/

/-- The jiffies that a thread has used between two samples, on the CPU of the later one. -/
structure Charge where
  processor : Int
  kHz : Int
  jiffies : Int

/-- The account of a thread: its last name, the times of its first and last sample, its last
    number of jiffies, and what it has been charged. -/
structure Account where
  label : Str
  first : ℚ
  last : ℚ
  jiffies : Int
  charges : List Charge

namespace Account

/-- The account after the first observation. -/
def begin (o : Observation) : Account where
  label := o.comm
  first := o.time
  last := o.time
  jiffies := o.jiffies
  charges := [⟨o.processor, o.kHz, 0⟩]

/-- The account after one more observation. -/
def add (a : Account) (o : Observation) : Account where
  label := o.comm
  first := a.first
  last := o.time
  jiffies := o.jiffies
  charges := a.charges ++ [⟨o.processor, o.kHz, o.jiffies - a.jiffies⟩]

end Account

/-- What a sample adds to the accounts. -/
def nextAccounts (accounts : Int → Option Account) (s : TraceSample) : Int → Option Account :=
  fun pid =>
    match s.observe pid with
    | none => accounts pid
    | some o => some ((accounts pid).elim (.begin o) fun a => a.add o)

/-- The accounts of some samples, by pid. -/
def accountsOf (samples : List TraceSample) : Int → Option Account :=
  samples.foldl nextAccounts fun _ => none

/-- The charges for a CPU. -/
def chargesOn (cpu : Int) (charges : List Charge) : List Charge :=
  charges.filter fun c => c.processor = cpu

/-- The jiffies that are charged for a CPU. -/
def usedOn (cpu : Int) (charges : List Charge) : Int :=
  ((chargesOn cpu charges).map Charge.jiffies).sum

/-- The megacycles for a CPU, by a second for a jiffy, if the jiffies of a charge are converted. -/
def megacyclesOn (convert : Int → Int) (cpu : Int) (charges : List Charge) : ℚ :=
  ((chargesOn cpu charges).map fun c => (convert c.jiffies : ℚ) * ((c.kHz : ℚ) / 1000)).sum

/-- All jiffies that are charged. -/
def usedInAll (charges : List Charge) : Int := (charges.map Charge.jiffies).sum

/-- No jiffies are charged for a CPU whose frequency is negative. -/
def Plugged (charges : List Charge) : Prop := ∀ c ∈ charges, c.kHz < 0 → c.jiffies = 0

instance : DecidablePred Plugged := fun charges =>
  inferInstanceAs (Decidable (∀ c ∈ charges, _))

/-! ## Charges -/

section charges

variable {cpu : Int} {charges : List Charge} {c : Charge}

theorem chargesOn_concat :
    chargesOn cpu (charges ++ [c]) =
      if c.processor = cpu then chargesOn cpu charges ++ [c] else chargesOn cpu charges := by
  rw [chargesOn, chargesOn, List.filter_append]
  split_ifs with h
  · rw [List.filter_cons_of_pos (by simpa using h), List.filter_nil]
  · rw [List.filter_cons_of_neg (by simpa using h), List.filter_nil, List.append_nil]

theorem usedOn_concat :
    usedOn cpu (charges ++ [c]) =
      if c.processor = cpu then usedOn cpu charges + c.jiffies else usedOn cpu charges := by
  rw [usedOn, usedOn, chargesOn_concat]
  split_ifs with h
  · rw [List.map_append, List.sum_append, List.map_singleton, List.sum_singleton]
  · rfl

theorem megacyclesOn_concat (convert : Int → Int) :
    megacyclesOn convert cpu (charges ++ [c]) =
      if c.processor = cpu then
        megacyclesOn convert cpu charges + (convert c.jiffies : ℚ) * ((c.kHz : ℚ) / 1000)
      else megacyclesOn convert cpu charges := by
  rw [megacyclesOn, megacyclesOn, chargesOn_concat]
  split_ifs with h
  · rw [List.map_append, List.sum_append, List.map_singleton, List.sum_singleton]
  · rfl

theorem usedInAll_concat : usedInAll (charges ++ [c]) = usedInAll charges + c.jiffies := by
  rw [usedInAll, usedInAll, List.map_append, List.sum_append, List.map_singleton,
    List.sum_singleton]

theorem plugged_concat :
    Plugged (charges ++ [c]) ↔ Plugged charges ∧ (c.kHz < 0 → c.jiffies = 0) := by
  simp [Plugged, or_imp, forall_and]

end charges

/-! ## What the programs read -/

namespace TraceSample

/-- The dictionaries of a sample in the C++ program. -/
theorem find?_state_pid (s : TraceSample) (pid : Int) :
    (s.state.pid.getD ∅).find? (toChars pid) = (s.thread? pid).map StatFields.dict := by
  rw [state, thread?, List.map_findSome?]
  refine (OrdMap.foldl_eq_findSome?
    (fun state : Sample => (state.pid.getD ∅).find? (toChars pid)) (fun state row => ?_) _ _).trans
      (Option.or_none)
  cases row with
  | skip mark text => rfl
  | freq entries => rfl
  | stat f =>
    by_cases hpid : f.pid = pid
    · simp [BodyRow.apply, hpid]
    · have hkey : toChars pid ≠ toChars f.pid := fun heq => hpid (toChars_injective heq).symm
      simp [BodyRow.apply, hpid, OrdMap.find?_insert_of_ne _ _ hkey]

/-- The dictionaries of a sample in the Python program. -/
theorem find?_record_pid (s : TraceSample) (pid : Int) :
    ((Python.record s).pid.getD ∅).find? pid = (s.thread? pid).map StatFields.dict := by
  rw [Python.record, thread?, List.map_findSome?]
  refine (OrdMap.foldl_eq_findSome?
    (fun state : Python.Sample ℚ => (state.pid.getD ∅).find? pid) (fun state row => ?_) _ _).trans
      (Option.or_none)
  cases row with
  | skip mark text => rfl
  | freq entries => rfl
  | stat f =>
    by_cases hpid : f.pid = pid
    · simp [Python.applyRow, hpid]
    · simp [Python.applyRow, hpid, OrdMap.find?_insert_of_ne _ _ (Ne.symm hpid)]

/-- The threads of a sample in the C++ program are those of its `S` rows. -/
theorem keys_state_pid (s : TraceSample) :
    ∀ key ∈ (s.state.pid.getD ∅).keys, ∃ pid, key = toChars pid := by
  have hbody : ∀ (body : List BodyRow) (state : Sample),
      (∀ key ∈ (state.pid.getD ∅).keys, ∃ pid, key = toChars pid) →
      ∀ key ∈ ((body.foldl BodyRow.apply state).pid.getD ∅).keys, ∃ pid, key = toChars pid := by
    intro body
    induction body with
    | nil => exact fun _ h => h
    | cons row body ih =>
      intro state h
      apply ih
      cases row with
      | skip mark text => exact h
      | freq entries => exact h
      | stat f =>
        intro key hkey
        rcases OrdMap.mem_keys_insert.mp hkey with rfl | hkey
        · exact ⟨f.pid, rfl⟩
        · exact h key hkey
  exact hbody s.body _ fun key hkey => absurd hkey List.not_mem_nil

/-- The frequencies of a sample in the C++ program. -/
theorem find?_state_cpu (s : TraceSample) (cpu : Int) :
    (s.state.cpu.getD ∅).find? (toChars cpu) =
      (s.kHz? cpu).map fun (kHz : Int) => (kHz : ℚ) / 1000 := by
  have hcpu : s.state.cpu = s.frequencies?.map fun entries =>
      entries.foldl (fun m e => m.insert (toChars e.1) ((e.2 : ℚ) / 1000)) ∅ := by
    rw [state, frequencies?, List.map_findSome?]
    refine (OrdMap.foldl_eq_findSome? Sample.cpu (fun state row => ?_) _ _).trans (Option.or_none)
    cases row <;> rfl
  rw [hcpu, kHz?]
  cases s.frequencies? with
  | none => rfl
  | some entries =>
    have hkey : ∀ e : Int × Int, (toChars e.1 = toChars cpu) = (e.1 = cpu) :=
      fun e => propext toChars_injective.eq_iff
    have hfind := OrdMap.find?_foldl_insert_last (fun e : Int × Int => toChars e.1)
      (fun e => (e.2 : ℚ) / 1000) entries ∅ (toChars cpu)
    rw [OrdMap.find?_empty, Option.or_none] at hfind
    rw [Option.map_some, Option.getD_some, hfind, Option.bind_some,
      List.map_findSome?]
    congr 1
    funext e
    simp [hkey, apply_ite]

/-- The frequencies of a sample in the Python program. -/
theorem find?_record_cpu (s : TraceSample) (cpu : Int) :
    (Python.record s).cpu.bind (fun m => m.find? cpu) =
      (s.kHz? cpu).map fun (kHz : Int) => Python.clamp ((kHz : ℚ) / 1000) := by
  have hcpu : (Python.record s).cpu = s.frequencies?.map fun entries =>
      entries.foldl (fun m e => m.insert e.1 (Python.clamp ((e.2 : ℚ) / 1000))) ∅ := by
    rw [Python.record, frequencies?, List.map_findSome?]
    refine (OrdMap.foldl_eq_findSome? Python.Sample.cpu (fun state row => ?_) _ _).trans
      (Option.or_none)
    cases row <;> rfl
  rw [hcpu, kHz?]
  cases s.frequencies? with
  | none => rfl
  | some entries =>
    have hfind := OrdMap.find?_foldl_insert_last (fun e : Int × Int => e.1)
      (fun e => Python.clamp ((e.2 : ℚ) / 1000)) entries ∅ cpu
    rw [OrdMap.find?_empty, Option.or_none] at hfind
    rw [Option.map_some, Option.bind_some, hfind, Option.bind_some,
      List.map_findSome?]
    congr 1
    funext e
    simp [apply_ite]

end TraceSample

/-! ## The accounts of the C++ program -/

theorem int32_add (m n : Int) : int32 (int32 m + int32 n) = int32 (m + n) := by
  simp [int32]

theorem int32_sub (m n : Int) : int32 (int32 m - int32 n) = int32 (m - n) := by
  simp [int32]

/-- A map filled with zeros under different keys. -/
theorem find?_zeros {K V : Type} [LinearOrder K] [Zero V] {key : Int → K}
    (hkey : Function.Injective key) (cpus : List Int) (cpu : Int) :
    (cpus.foldl (fun (m : OrdMap K V) i => m.insert (key i) 0) ∅).find? (key cpu) =
      if cpu ∈ cpus then some 0 else none := by
  rw [OrdMap.find?_foldl_insert_last key fun _ => 0, OrdMap.find?_empty, Option.or_none]
  cases hfind : cpus.reverse.findSome? fun i => if key i = key cpu then some (0 : V) else none with
  | none =>
    rw [if_neg]
    intro hcpu
    have hnone := List.findSome?_eq_none_iff.mp hfind cpu (List.mem_reverse.mpr hcpu)
    rw [if_pos rfl] at hnone
    cases hnone
  | some v =>
    rcases List.exists_of_findSome?_eq_some hfind with ⟨i, hi, hv⟩
    split_ifs at hv with heq
    cases hv
    rw [if_pos]
    rw [← hkey heq]
    exact List.mem_reverse.mp hi

theorem sum_zeros {K : Type} [LinearOrder K] (key : Int → K) (cpus : List Int) :
    ((cpus.foldl (fun (m : OrdMap K Int) i => m.insert (key i) 0) ∅).entries.map Prod.snd).sum =
      0 := by
  have hvalues : ∀ (cpus : List Int) (m : OrdMap K Int), (∀ e ∈ m.entries, e.2 = 0) →
      ∀ e ∈ (cpus.foldl (fun m i => m.insert (key i) 0) m).entries, e.2 = 0 := by
    intro cpus
    induction cpus with
    | nil => exact fun _ h => h
    | cons cpu cpus ih =>
      intro m h
      apply ih
      intro e he
      rcases mem_insertEntry he with rfl | he
      · rfl
      · exact h e he
  apply List.sum_eq_zero
  intro n hn
  rcases List.mem_map.mp hn with ⟨e, he, rfl⟩
  exact hvalues cpus ∅ (fun e he => absurd he List.not_mem_nil) e he

namespace FerretProcess

/-- The sums of a `FerretProcess` are those of some charges. -/
structure Charged (p : FerretProcess) (tick : Int) (cpus : List Int) (charges : List Charge) :
    Prop where
  period : p.jiffyPeriod = 1 / tick
  all : p.totJiffiesAllCpus = int32 (usedInAll charges)
  tot : ∀ cpu, p.totJiffies.find? (toChars cpu) =
    if cpu ∈ cpus then some (int32 (usedOn cpu charges)) else none
  mcyc : ∀ cpu, p.mcyc.find? (toChars cpu) =
    if cpu ∈ cpus then some (1 / tick * megacyclesOn int32 cpu charges) else none

/-- A `FerretProcess` holds what its thread's account says. -/
structure Holds (p : FerretProcess) (tick : Int) (cpus : List Int) (a : Account) : Prop where
  charged : p.Charged tick cpus a.charges
  label : p.label = a.label
  first : p.first = a.first
  last : p.last = a.last
  jiffies : p.jiffies = int32 a.jiffies
  started : a.first ≠ 0

variable {p : FerretProcess} {tick : Int} {cpus : List Int} {charges : List Charge}

theorem charged_new (tick : Int) (cpus : List Int) : (new tick cpus).Charged tick cpus [] := by
  refine ⟨rfl, rfl, fun cpu => ?_, fun cpu => ?_⟩
  · exact find?_zeros toChars_injective cpus cpu
  · have hzero : (1 : ℚ) / tick * megacyclesOn int32 cpu [] = 0 := mul_zero _
    rw [hzero]
    exact find?_zeros toChars_injective cpus cpu

/-- `add` adds a charge. -/
theorem Charged.add (h : p.Charged tick cpus charges) (hfirst : p.first ≠ 0) {o : Observation}
    (hcpu : o.processor ∈ cpus) {diff : Int}
    (hdiff : int32 (int32 o.jiffies - p.jiffies) = int32 diff) :
    (p.add o.comm o.time (int32 o.jiffies) ((o.kHz : ℚ) / 1000) o.processor).Charged tick cpus
      (charges ++ [⟨o.processor, o.kHz, diff⟩]) := by
  have hkey : ∀ cpu, toChars cpu = toChars o.processor ↔ o.processor = cpu := fun cpu =>
    toChars_injective.eq_iff.trans eq_comm
  rw [FerretProcess.add, if_neg hfirst, hdiff]
  refine ⟨h.period, ?_, fun cpu => ?_, fun cpu => ?_⟩
  · dsimp only
    rw [h.all, int32_add, usedInAll_concat]
  · dsimp only
    rw [OrdMap.find?_insert, usedOn_concat]
    by_cases heq : o.processor = cpu
    · subst heq
      rw [if_pos rfl, if_pos hcpu, if_pos rfl, h.tot, if_pos hcpu, Option.getD_some, int32_add]
    · rw [if_neg (mt (hkey cpu).mp heq), if_neg heq, h.tot]
  · dsimp only
    rw [megacyclesOn_concat]
    by_cases hfreq : (o.kHz : ℚ) / 1000 = 0
    · rw [if_neg (not_not.mpr hfreq), hfreq, mul_zero, add_zero, ite_self, h.mcyc]
    · rw [if_pos hfreq, OrdMap.find?_insert]
      by_cases heq : o.processor = cpu
      · subst heq
        rw [if_pos rfl, if_pos hcpu, if_pos rfl, h.mcyc, if_pos hcpu, Option.getD_some, h.period]
        congr 1
        ring
      · rw [if_neg (mt (hkey cpu).mp heq), if_neg heq, h.mcyc]

/-- The first `add`. -/
theorem holds_begin {o : Observation} (hcpu : o.processor ∈ cpus) (htime : o.time ≠ 0) :
    ((new tick cpus).add o.comm o.time (int32 o.jiffies) ((o.kHz : ℚ) / 1000) o.processor).Holds
      tick cpus (.begin o) := by
  have hnew : (new tick cpus).add o.comm o.time (int32 o.jiffies) ((o.kHz : ℚ) / 1000) o.processor =
      ({ new tick cpus with first := o.time, jiffies := int32 o.jiffies } : FerretProcess).add
        o.comm o.time (int32 o.jiffies) ((o.kHz : ℚ) / 1000) o.processor := by
    have hzero : (new tick cpus).first = 0 := rfl
    rw [FerretProcess.add, FerretProcess.add, if_pos hzero, if_neg htime]
  have hcharged : ({ new tick cpus with
      first := o.time, jiffies := int32 o.jiffies } : FerretProcess).Charged tick cpus [] := by
    rcases charged_new tick cpus with ⟨hperiod, hall, htot, hmcyc⟩
    exact ⟨hperiod, hall, htot, hmcyc⟩
  rw [hnew]
  refine ⟨hcharged.add htime hcpu ?_, rfl, ?_, rfl, rfl, htime⟩
  · rw [sub_self]
  · rw [FerretProcess.add, if_neg htime]
    rfl

/-- A further `add`. -/
theorem Holds.add {a : Account} (h : p.Holds tick cpus a) {o : Observation}
    (hcpu : o.processor ∈ cpus) :
    (p.add o.comm o.time (int32 o.jiffies) ((o.kHz : ℚ) / 1000) o.processor).Holds tick cpus
      (a.add o) := by
  have hfirst : p.first ≠ 0 := by
    rw [h.first]
    exact h.started
  refine ⟨h.charged.add hfirst hcpu ?_, rfl, ?_, rfl, rfl, h.started⟩
  · rw [h.jiffies, int32_sub]
  · rw [FerretProcess.add, if_neg hfirst]
    exact h.first

end FerretProcess

/-! ## The accounts of the Python program -/

namespace Python

theorem scaled_nonneg {kHz : Int} : 0 ≤ (kHz : ℚ) / 1000 ↔ 0 ≤ kHz := by
  rw [le_div_iff₀ (by norm_num), zero_mul, Int.cast_nonneg_iff]

theorem clamp_eq_none {kHz : Int} : clamp ((kHz : ℚ) / 1000) = none ↔ kHz < 0 := by
  rw [clamp]
  split_ifs with h
  · exact iff_of_false nofun (not_lt.mpr (scaled_nonneg.mp h))
  · exact iff_of_true rfl (not_le.mp (mt scaled_nonneg.mpr h))

theorem getD_clamp (kHz : Int) :
    (clamp ((kHz : ℚ) / 1000)).getD 0 = if kHz < 0 then 0 else (kHz : ℚ) / 1000 := by
  rw [clamp]
  by_cases h : kHz < 0
  · rw [if_neg (mt scaled_nonneg.mp (not_le.mpr h)), if_pos h]
    rfl
  · rw [if_pos (scaled_nonneg.mpr (not_lt.mp h)), if_neg h]
    rfl

namespace Process

/-- The sums of a `Process` are those of some charges. -/
structure Charged (p : Process ℚ) (tick : Int) (cpus : List Int) (charges : List Charge) :
    Prop where
  period : p.jiffyPeriod = 1 / tick
  all : (p.totJiffies.entries.map Prod.snd).sum = usedInAll charges
  tot : ∀ cpu, p.totJiffies.find? cpu = if cpu ∈ cpus then some (usedOn cpu charges) else none
  mcyc : ∀ cpu, p.mcyc.find? cpu =
    if cpu ∈ cpus then some (1 / tick * megacyclesOn id cpu charges) else none

/-- A `Process` holds what its thread's account says. -/
structure Holds (p : Process ℚ) (tick : Int) (cpus : List Int) (a : Account) : Prop where
  charged : p.Charged tick cpus a.charges
  label : p.label = some a.label
  first : p.first = some a.first
  last : p.last = some a.last
  jiffies : p.jiffies = some a.jiffies
  started : a.first ≠ 0

variable {p : Process ℚ} {tick : Int} {cpus : List Int} {charges : List Charge}

/-- A new `Process`. -/
theorem charged_new (htick : tick ≠ 0) (cpus : List Int) :
    ∃ p : Process ℚ, new tick cpus = some p ∧ p.first = none ∧ p.Charged tick cpus [] := by
  rw [new_rat, if_neg htick]
  refine ⟨_, rfl, rfl, rfl, ?_, fun cpu => ?_, fun cpu => ?_⟩
  · exact sum_zeros id cpus
  · exact find?_zeros Function.injective_id cpus cpu
  · have hzero : (1 : ℚ) / tick * megacyclesOn id cpu [] = 0 := mul_zero _
    rw [hzero]
    exact find?_zeros Function.injective_id cpus cpu

/-- `add` adds a charge, unless that is one for a CPU whose frequency is negative. -/
theorem Charged.add (h : p.Charged tick cpus charges) {o : Observation} (hcpu : o.processor ∈ cpus)
    {before : Int} (hfirst : p.first.getD 0 ≠ 0) (hjiffies : p.jiffies = some before) :
    (o.kHz < 0 ∧ o.jiffies - before ≠ 0 →
      p.add o.comm o.time o.jiffies (clamp ((o.kHz : ℚ) / 1000)) o.processor = none) ∧
    ((o.kHz < 0 → o.jiffies - before = 0) →
      ∃ q, p.add o.comm o.time o.jiffies (clamp ((o.kHz : ℚ) / 1000)) o.processor = some q ∧
        q.Charged tick cpus (charges ++ [⟨o.processor, o.kHz, o.jiffies - before⟩]) ∧
        q.label = some o.comm ∧ q.first = p.first ∧ q.last = some o.time ∧
        q.jiffies = some o.jiffies) := by
  have hmcyc := h.mcyc o.processor
  have htot := h.tot o.processor
  rw [if_pos hcpu] at hmcyc htot
  rw [Process.add_rat, hmcyc, Option.bind_some]
  dsimp only
  rw [if_neg hfirst, hjiffies, Option.bind_some]
  constructor
  · rintro ⟨hfreq, hdiff⟩
    rw [if_pos ⟨hdiff, clamp_eq_none.mpr hfreq⟩]
  · intro hplugged
    rw [if_neg fun hbad => hbad.1 (hplugged (clamp_eq_none.mp hbad.2)), htot, Option.map_some]
    refine ⟨_, rfl, ⟨h.period, ?_, fun cpu => ?_, fun cpu => ?_⟩, rfl, rfl, rfl, rfl⟩
    · rw [OrdMap.sum_insert htot, h.all, usedInAll_concat, add_sub_cancel_left]
    · dsimp only
      rw [OrdMap.find?_insert, usedOn_concat]
      by_cases heq : o.processor = cpu
      · subst heq
        rw [if_pos rfl, if_pos hcpu, if_pos rfl]
      · rw [if_neg (Ne.symm heq), if_neg heq, h.tot]
    · dsimp only
      rw [megacyclesOn_concat, getD_clamp]
      by_cases hneg : o.kHz < 0
      · rw [if_pos hneg, if_neg (not_not.mpr rfl), hplugged hneg, id, Int.cast_zero, zero_mul,
          add_zero, ite_self, h.mcyc]
      · rw [if_neg hneg]
        by_cases hfreq : (o.kHz : ℚ) / 1000 = 0
        · rw [if_neg (not_not.mpr hfreq), hfreq, mul_zero, add_zero, ite_self, h.mcyc]
        · rw [if_pos hfreq, OrdMap.find?_insert]
          by_cases heq : o.processor = cpu
          · subst heq
            rw [if_pos rfl, if_pos hcpu, if_pos rfl, h.period, id]
            congr 1
            ring
          · rw [if_neg (Ne.symm heq), if_neg heq, h.mcyc]

end Process

end Python

end LibCollector.Ferret
