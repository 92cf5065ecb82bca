import LibCollector.Ferret.Accounts
import Mathlib.Data.Option.Basic

/-!
# The histories of the two programs

Both programs keep the accounts of the threads: the C++ one after all samples of a trace but
the last (`Trace.delivered_readRows`), `ferret.py` after all of them, unless it fails on a
thread that used a CPU with a negative frequency (`Python.consumed_processTrace`).
-/

namespace LibCollector.Ferret

open LibCollector.Misc

/-! ## Complete traces -/

/-- A sample with what both programs look for: a time, a thread, a frequency for every CPU of the
    list, and threads on these CPUs only. -/
structure TraceSample.Complete (s : TraceSample) (cpus : List Int) : Prop where
  now : 0 < s.now
  stats : ∃ f, BodyRow.stat f ∈ s.body
  covered : ∀ cpu ∈ cpus, (s.kHz? cpu).isSome
  placed : ∀ f, BodyRow.stat f ∈ s.body → f.processor ∈ cpus

/-- A trace file with at least one sample, whose samples are complete and follow each other in
    time, and whose numbers are `int`s. -/
structure Trace.Complete (t : Trace) : Prop where
  clean : t.Clean
  words : Python.TraceClean t
  tick : IsInt32 t.tick
  fits : ∀ s ∈ t.samples, ∀ row ∈ s.body, row.Fits
  nonempty : t.samples ≠ []
  samples : ∀ s ∈ t.samples, s.Complete t.cpus
  increasing : t.samples.Pairwise fun r s => r.now < s.now

/-- The time of a sample in seconds. -/
def TraceSample.seconds (s : TraceSample) : ℚ := (s.now : ℚ) / 1000000

namespace TraceSample

theorem mem_of_thread {s : TraceSample} {pid : Int} {f : StatFields} (h : s.thread? pid = some f) :
    BodyRow.stat f ∈ s.body ∧ f.pid = pid := by
  rcases List.exists_of_findSome?_eq_some h with ⟨row, hrow, hf⟩
  cases row with
  | stat g =>
    dsimp only at hf
    split_ifs at hf with hpid
    cases hf
    exact ⟨List.mem_reverse.mp hrow, hpid⟩
  | skip mark text => cases hf
  | freq entries => cases hf

/-- A thread with a `S` row. -/
theorem exists_thread {s : TraceSample} {f : StatFields} (h : BodyRow.stat f ∈ s.body) :
    ∃ g, s.thread? f.pid = some g := by
  cases hthread : s.thread? f.pid with
  | some g => exact ⟨g, rfl⟩
  | none =>
    have hnone := List.findSome?_eq_none_iff.mp hthread _ (List.mem_reverse.mpr h)
    dsimp only at hnone
    rw [if_pos rfl] at hnone
    cases hnone

/-- What an observation of a complete sample says. -/
theorem observe_complete {s : TraceSample} {cpus : List Int} (hs : s.Complete cpus) {pid : Int}
    {o : Observation} (ho : s.observe pid = some o) :
    o.time = s.seconds ∧ o.time ≠ 0 ∧ o.processor ∈ cpus ∧ s.kHz? o.processor = some o.kHz ∧
      ∃ f, s.thread? pid = some f ∧ o.comm = f.comm ∧ o.jiffies = f.utime + f.stime ∧
        o.processor = f.processor := by
  rcases Option.map_eq_some_iff.mp ho with ⟨f, hf, rfl⟩
  have hcpu := hs.placed f (mem_of_thread hf).1
  have htime : (s.now : ℚ) / 1000000 ≠ 0 := by
    apply div_ne_zero
    · exact_mod_cast hs.now.ne'
    · norm_num
  refine ⟨rfl, htime, hcpu, ?_, f, hf, rfl, rfl, rfl⟩
  rcases Option.isSome_iff_exists.mp (hs.covered _ hcpu) with ⟨kHz, hkHz⟩
  dsimp only
  rw [hkHz]
  rfl

end TraceSample

theorem accountsOf_concat (samples : List TraceSample) (s : TraceSample) :
    accountsOf (samples ++ [s]) = nextAccounts (accountsOf samples) s := by
  rw [accountsOf, List.foldl_append]
  rfl

theorem nextAccounts_of_none {accounts : Int → Option Account} {s : TraceSample} {pid : Int}
    (h : s.observe pid = none) : nextAccounts accounts s pid = accounts pid := by
  rw [nextAccounts, h]

theorem nextAccounts_of_some {accounts : Int → Option Account} {s : TraceSample} {pid : Int}
    {o : Observation} (h : s.observe pid = some o) :
    nextAccounts accounts s pid = some ((accounts pid).elim (.begin o) fun a => a.add o) := by
  rw [nextAccounts, h]

/-! ## The C++ program -/

/-- The history holds the accounts. -/
structure HistoryHolds (tick : Int) (cpus : List Int) (history : OrdMap Str FerretProcess)
    (accounts : Int → Option Account) : Prop where
  find : ∀ pid, Option.Rel (fun p a => p.Holds tick cpus a) (history.find? (toChars pid))
    (accounts pid)
  keys : ∀ key ∈ history.keys, ∃ pid, key = toChars pid

/-- What a sample does to the entry of a thread. -/
def putThread (s : TraceSample) (tick : Int) (cpus : List Int) (old : Option FerretProcess)
    (_ : Str) (dict : OrdMap Str StatValue) : Option FerretProcess :=
  some ((old.getD (FerretProcess.new tick cpus)).add
    (StatValue.asString (dict.find? "comm".toList)) (s.state.time.getD 0)
    (int32 (StatValue.asInt (dict.find? "utime".toList) +
      StatValue.asInt (dict.find? "stime".toList)))
    (((s.state.cpu.getD ∅).find?
      (toChars (StatValue.asInt (dict.find? "processor".toList)))).getD 0)
    (StatValue.asInt (dict.find? "processor".toList)))

theorem foldl_account (s : TraceSample) (tick : Int) (cpus : List Int)
    (history : OrdMap Str FerretProcess) :
    history.mergeM (putThread s tick cpus) (s.state.pid.getD ∅) =
      some ((s.state.pid.getD ∅).entries.foldl (account [] s.state tick cpus) history) := by
  have haccount : ∀ (history : OrdMap Str FerretProcess) (e : Str × OrdMap Str StatValue),
      (putThread s tick cpus (history.find? e.1) e.1 e.2).map (history.insert e.1) =
        some (account [] s.state tick cpus history e) := by
    intro history e
    rw [account, if_neg List.not_mem_nil, putThread, Option.map_some]
  rw [OrdMap.mergeM]
  simp only [haccount]
  exact List.foldlM_pure

/-- A sample keeps the history in step with the accounts. -/
theorem HistoryHolds.next {tick : Int} {cpus : List Int} {history : OrdMap Str FerretProcess}
    {accounts : Int → Option Account} (h : HistoryHolds tick cpus history accounts)
    {s : TraceSample} (hs : s.Complete cpus) :
    HistoryHolds tick cpus
      ((s.state.pid.getD ∅).entries.foldl (account [] s.state tick cpus) history)
      (nextAccounts accounts s) := by
  have hmerge := foldl_account s tick cpus history
  constructor
  · intro pid
    rcases OrdMap.find?_mergeM hmerge (toChars pid) with ⟨hother, hentry⟩
    cases ho : s.observe pid with
    | none =>
      have hthread : s.thread? pid = none := Option.map_eq_none_iff.mp ho
      rw [nextAccounts_of_none ho, hother (by rw [s.find?_state_pid, hthread]; rfl)]
      exact h.find pid
    | some o =>
      rcases TraceSample.observe_complete hs ho with
        ⟨htime, hne, hcpu, hkHz, f, hthread, hcomm, hjiffies, hprocessor⟩
      rcases hentry f.dict (by rw [s.find?_state_pid, hthread]; rfl) with ⟨p, hp, hfind⟩
      have hput : p = ((history.find? (toChars pid)).getD (FerretProcess.new tick cpus)).add o.comm
          o.time (int32 o.jiffies) ((o.kHz : ℚ) / 1000) o.processor := by
        have hfreq : ((s.state.cpu.getD ∅).find? (toChars f.processor)).getD 0 =
            (o.kHz : ℚ) / 1000 := by
          rw [s.find?_state_cpu, ← hprocessor, hkHz]
          rfl
        have hseconds : s.state.time.getD 0 = o.time := by
          rw [s.state_time, htime]
          rfl
        rw [putThread, f.find?_dict_comm, f.find?_dict_utime, f.find?_dict_stime,
          f.find?_dict_processor] at hp
        rw [hcomm, hjiffies, ← hfreq, ← hseconds, hprocessor]
        exact (Option.some.inj hp).symm
      rw [nextAccounts_of_some ho, hfind, hput]
      have hrel := h.find pid
      generalize history.find? (toChars pid) = old at hrel ⊢
      generalize accounts pid = before at hrel ⊢
      cases hrel with
      | none => exact Option.Rel.some (FerretProcess.holds_begin hcpu hne)
      | some hq => exact Option.Rel.some (hq.add hcpu)
  · intro key hkey
    rcases OrdMap.find?_mergeM hmerge key with ⟨hother, -⟩
    by_cases hnone : (s.state.pid.getD ∅).find? key = none
    · apply h.keys
      rw [OrdMap.mem_keys_iff] at hkey ⊢
      rw [← hother hnone]
      exact hkey
    · apply s.keys_state_pid
      rw [OrdMap.mem_keys_iff]
      exact Option.isSome_iff_ne_none.mpr hnone

/-- How the program stands once it has delivered some samples. -/
structure Trace.Delivered (t : Trace) (st : Postprocess) (done : List TraceSample) : Prop where
  history : HistoryHolds t.tick t.cpuList st.pidHistory (accountsOf done)
  started : st.started = decide (done ≠ [])
  traceStart : st.traceStart = (done.head?.map TraceSample.seconds).getD 0
  traceEnd : st.traceEnd = (done.getLast?.map TraceSample.seconds).getD 0

theorem complete_cpuList {t : Trace} {s : TraceSample} (h : s.Complete t.cpus) :
    s.Complete t.cpuList := by
  refine ⟨h.now, h.stats, fun cpu hcpu => h.covered cpu ?_, fun f hf => ?_⟩
  · exact List.mem_mergeSort.mp hcpu
  · exact List.mem_mergeSort.mpr (h.placed f hf)

namespace Trace

variable {t : Trace} {st : Postprocess} {done : List TraceSample}

/-- One more sample is delivered. -/
theorem Delivered.deliver (h : t.Delivered st done) {s : TraceSample} (hs : s.Complete t.cpus)
    (hstate : st.state = s.state) : t.Delivered (t.deliver [] st) (done ++ [s]) := by
  have hseconds : st.state.time.getD 0 = s.seconds := by
    rw [hstate, s.state_time]
    rfl
  have hne : st.state ≠ {} := by
    rw [hstate]
    exact s.state_ne
  rw [Trace.deliver, if_neg hne]
  refine ⟨?_, ?_, ?_, ?_⟩
  · dsimp only
    rw [accountsOf_concat, hstate]
    exact h.history.next (complete_cpuList hs)
  · simp
  · dsimp only
    rw [h.started, h.traceStart, hseconds]
    cases done with
    | nil => rfl
    | cons r done => rfl
  · dsimp only
    rw [hseconds, List.getLast?_concat]
    rfl

/-- The last sample of a trace is not delivered. -/
theorem Delivered.foldl {samples : List TraceSample} {pending : TraceSample}
    (h : t.Delivered st done) (hstate : st.state = pending.state)
    (hs : ∀ s ∈ pending :: samples, s.Complete t.cpus) :
    t.Delivered (samples.foldl (t.next []) st) (done ++ (pending :: samples).dropLast) := by
  induction samples generalizing st done pending with
  | nil =>
    rw [List.dropLast_singleton, List.append_nil]
    exact h
  | cons s samples ih =>
    have hdeliver := h.deliver (hs pending List.mem_cons_self) hstate
    have hnext : t.Delivered (t.next [] st s) (done ++ [pending]) :=
      ⟨hdeliver.history, hdeliver.started, hdeliver.traceStart, hdeliver.traceEnd⟩
    rw [List.foldl_cons, List.dropLast_cons_cons, ← List.singleton_append, ← List.append_assoc]
    exact ih hnext rfl fun r hr => hs r (List.mem_cons_of_mem _ hr)

/-- The program reads a complete trace, and keeps the accounts of all samples but the last. -/
theorem delivered_readRows (h : t.Complete) :
    ∃ st, Postprocess.readRows [] t.text = some st ∧ st.hasData = true ∧
      t.Delivered st t.samples.dropLast := by
  have hplaced : ∀ s ∈ t.samples, Placed [] t.cpus s.state := by
    intro s hs e he
    right
    have hkey := s.keys_state_pid e.1 (List.mem_map_of_mem (f := Prod.fst) he)
    rcases hkey with ⟨pid, hpid⟩
    have hfind : (s.state.pid.getD ∅).find? (toChars pid) = some e.2 := by
      rw [OrdMap.find?_eq_some_iff, ← hpid]
      exact he
    rw [s.find?_state_pid] at hfind
    rcases Option.map_eq_some_iff.mp hfind with ⟨f, hf, hdict⟩
    rw [← hdict, f.find?_dict_processor]
    exact (h.samples s hs).placed f (TraceSample.mem_of_thread hf).1
  rcases readRows_text h.clean [] with ⟨watch, hread⟩
  rw [if_pos ⟨h.tick, h.fits, fun s hs => hplaced s (List.mem_of_mem_dropLast hs)⟩] at hread
  refine ⟨_, hread, ?_, ?_⟩
  · have hready : ∀ (samples : List TraceSample) (st : Postprocess), t.Ready st →
        t.Ready (samples.foldl (t.next []) st) := by
      intro samples
      induction samples with
      | nil => exact fun _ hst => hst
      | cons s samples ih => exact fun st hst => ih _ (Postprocess.ready_next hst [] s)
    exact (hready t.samples _ ⟨rfl, rfl, rfl, rfl, Or.inl ⟨rfl, rfl⟩⟩).hasData
  · cases hsamples : t.samples with
    | nil => exact absurd hsamples h.nonempty
    | cons s samples =>
      have hstart : t.Delivered (t.next [] (headerState t.tick t.cpus watch) s) [] := by
        refine ⟨⟨fun pid => Option.Rel.none, fun key hkey => absurd hkey List.not_mem_nil⟩, rfl,
          rfl, rfl⟩
      exact hstart.foldl rfl fun r hr => h.samples r (hsamples ▸ hr)

end Trace

/-! ## The Python program -/

namespace Python

/-- What a sample does to the entry of a thread. -/
def putThread (sample : Sample ℚ) (tick : Int) (cpuNrs : List Int) (old : Option (Process ℚ))
    (_ : Int) (dict : OrdMap Str StatValue) : Option (Process ℚ) := do
  let processor ← intField dict "processor".toList
  guard (processor ∈ cpuNrs)
  let freq ← sample.cpu.bind fun cpu => cpu.find? processor
  let process ← old.or (Process.new tick cpuNrs)
  let comm ← textField dict "comm".toList
  let utime ← intField dict "utime".toList
  let stime ← intField dict "stime".toList
  let ts ← sample.time
  process.add comm ts (utime + stime) freq processor

theorem addThread_eq (sample : Sample ℚ) (tick : Int) (cpuNrs : List Int)
    (pidHistory : OrdMap Int (Process ℚ)) (e : Int × OrdMap Str StatValue) :
    addThread sample tick cpuNrs pidHistory e =
      (putThread sample tick cpuNrs (pidHistory.find? e.1) e.1 e.2).map
        (pidHistory.insert e.1) := by
  simp only [addThread, putThread, Option.bind_eq_bind, Option.map_eq_bind, Option.bind_assoc,
    Option.pure_def, Function.comp_def]

/-- The entry of a thread that the sample mentions. -/
theorem putThread_eq {s : TraceSample} {cpus : List Int} (hs : s.Complete cpus) {pid : Int}
    {o : Observation} (ho : s.observe pid = some o) {f : StatFields}
    (hf : s.thread? pid = some f) (tick : Int) (old : Option (Process ℚ)) :
    putThread (record s) tick cpus old pid f.dict =
      (old.or (Process.new tick cpus)).bind fun p =>
        p.add o.comm o.time o.jiffies (clamp ((o.kHz : ℚ) / 1000)) o.processor := by
  rcases TraceSample.observe_complete hs ho with
    ⟨htime, -, hcpu, hkHz, g, hg, hcomm, hjiffies, hprocessor⟩
  rw [hf] at hg
  cases hg
  have hfields : intField f.dict "processor".toList = some o.processor ∧
      textField f.dict "comm".toList = some o.comm ∧
      intField f.dict "utime".toList = some f.utime ∧
      intField f.dict "stime".toList = some f.stime := by
    rw [hprocessor, hcomm, intField, textField, intField, intField, f.find?_dict_processor,
      f.find?_dict_comm, f.find?_dict_utime, f.find?_dict_stime]
    exact ⟨rfl, rfl, rfl, rfl⟩
  have hfreq := s.find?_record_cpu o.processor
  rw [hkHz, Option.map_some] at hfreq
  have hseconds : (record s).time = some o.time := by
    rw [record_time, htime]
    rfl
  rw [putThread, hfields.1]
  simp only [Option.bind_eq_bind, Option.bind_some, hcpu, guard_true, Option.pure_def, hfreq,
    hfields, hseconds, ← hjiffies]

/-- The entry keeps in step with the account, and fails exactly on a charge for a CPU with a
    negative frequency. -/
theorem putThread_holds {s : TraceSample} {cpus : List Int} (hs : s.Complete cpus) {pid : Int}
    {o : Observation} (ho : s.observe pid = some o) {f : StatFields}
    (hf : s.thread? pid = some f) {tick : Int} (htick : tick ≠ 0) {old : Option (Process ℚ)}
    {before : Option Account} (hrel : Option.Rel (fun p a => p.Holds tick cpus a) old before)
    (hplugged : ∀ a, before = some a → Plugged a.charges) :
    (Plugged (before.elim (.begin o) fun a => a.add o).charges →
      ∃ p, putThread (record s) tick cpus old pid f.dict = some p ∧
        p.Holds tick cpus (before.elim (.begin o) fun a => a.add o)) ∧
    (¬ Plugged (before.elim (.begin o) fun a => a.add o).charges →
      putThread (record s) tick cpus old pid f.dict = none) := by
  rcases TraceSample.observe_complete hs ho with ⟨htime, hne, hcpu, -⟩
  rw [putThread_eq hs ho hf]
  cases hrel with
  | none =>
    rcases Process.charged_new htick cpus with ⟨p, hp, hfirst, hcharged⟩
    -- The first `add` sets the time and the jiffies, and goes on as if they had been there.
    have hadd : p.add o.comm o.time o.jiffies (clamp ((o.kHz : ℚ) / 1000)) o.processor =
        ({ p with first := some o.time, jiffies := some o.jiffies } : Process ℚ).add o.comm o.time
          o.jiffies (clamp ((o.kHz : ℚ) / 1000)) o.processor := by
      have hzero : p.first.getD 0 = 0 := by
        rw [hfirst]
        rfl
      have hsome : ¬ (some o.time).getD 0 = 0 := hne
      rw [Process.add_rat, Process.add_rat]
      simp only [hzero, hsome, if_true, if_false]
    have hcharged' : ({ p with first := some o.time, jiffies := some o.jiffies } :
        Process ℚ).Charged tick cpus [] :=
          ⟨hcharged.period, hcharged.all, hcharged.tot, hcharged.mcyc⟩
    rw [Option.none_or, hp, Option.bind_some, hadd]
    have hzero : Plugged [⟨o.processor, o.kHz, 0⟩] := by
      intro c hc _
      rw [List.mem_singleton.mp hc]
    constructor
    · intro _
      rcases (hcharged'.add hcpu hne rfl).2 fun _ => sub_self _ with
        ⟨q, hq, hqcharged, hlabel, hqfirst, hlast, hjiffies⟩
      rw [sub_self] at hqcharged
      exact ⟨q, hq, hqcharged, hlabel, hqfirst, hlast, hjiffies, hne⟩
    · exact fun hnot => absurd hzero hnot
  | @some p a hp =>
    have hfirst : p.first.getD 0 ≠ 0 := by
      rw [hp.first]
      exact hp.started
    rcases hp.charged.add hcpu hfirst hp.jiffies with ⟨hfail, hsucceed⟩
    have hiff : Plugged (a.add o).charges ↔ (o.kHz < 0 → o.jiffies - a.jiffies = 0) := by
      rw [Account.add, plugged_concat]
      exact and_iff_right (hplugged a rfl)
    rw [Option.some_or, Option.bind_some]
    constructor
    · intro hnext
      rcases hsucceed (hiff.mp hnext) with ⟨q, hq, hqcharged, hlabel, hqfirst, hlast, hjiffies⟩
      exact ⟨q, hq, hqcharged, hlabel, hqfirst.trans hp.first, hlast, hjiffies, hp.started⟩
    · intro hnot
      apply hfail
      rw [Option.elim_some, hiff, Classical.not_imp] at hnot
      exact hnot

/-- How the program stands once it has consumed some samples. -/
structure Consumed (t : Trace) (c : Consumer ℚ) (done : List TraceSample) : Prop where
  history : ∀ pid, Option.Rel (fun p a => Process.Holds p t.tick t.cpuList a)
    (c.pidHistory.find? pid) (accountsOf done pid)
  plugged : ∀ pid a, accountsOf done pid = some a → Plugged a.charges
  init : (c.initData = false ∧ c.cpuNrs = []) ∨
    (c.initData = true ∧ c.tick = t.tick ∧ c.cpuNrs = t.cpuList)
  traceStart : c.traceStart = done.head?.map TraceSample.seconds
  traceEnd : c.traceEnd = done.getLast?.map TraceSample.seconds
  complete : ∀ s ∈ done, s.Complete t.cpus

theorem consumed_nil (t : Trace) : Consumed t {} [] :=
  ⟨fun _ => Option.Rel.none, nofun, Or.inl ⟨rfl, rfl⟩, rfl, rfl, nofun⟩

theorem seconds_ne {s : TraceSample} {cpus : List Int} (hs : s.Complete cpus) : s.seconds ≠ 0 := by
  apply div_ne_zero
  · exact_mod_cast hs.now.ne'
  · norm_num

section consume

variable {t : Trace} {c : Consumer ℚ} {done : List TraceSample} {s : TraceSample}

/-- What a sample does, without `--start` and `--end`. -/
theorem consume_eq (h : Consumed t c done) (hs : s.Complete t.cpus) (watch : List Str) :
    consume (-1) (-1) (header t watch) c (record s) =
      (c.pidHistory.mergeM (putThread (record s) t.tick t.cpuList)
        ((record s).pid.getD ∅)).map fun pidHistory => {
          initData := true
          traceStart := if c.traceStart.getD 0 = 0 then some s.seconds else c.traceStart
          traceEnd := some s.seconds
          pidHistory := pidHistory
          cpuNrs := t.cpuList
          tick := t.tick } := by
  have hnever : ¬ ((0 : ℚ) < -1) := by norm_num
  have hpid : ∃ threads, (record s).pid = some threads := by
    rcases hs.stats with ⟨f, hf⟩
    rcases TraceSample.exists_thread hf with ⟨g, hg⟩
    have hfind := s.find?_record_pid f.pid
    cases hrecord : (record s).pid with
    | some threads => exact ⟨threads, rfl⟩
    | none =>
      rw [hrecord, hg] at hfind
      cases hfind
  rcases hpid with ⟨threads, hthreads⟩
  have htime : (record s).time = some s.seconds := record_time s
  have hfold : addThread (record s) t.tick t.cpuList = fun m e =>
      (putThread (record s) t.tick t.cpuList (m.find? e.1) e.1 e.2).map (m.insert e.1) := by
    funext m e
    exact addThread_eq _ _ _ m e
  rw [consume, hthreads, htime, OrdMap.mergeM, ← hfold]
  rcases h.init with ⟨hinit, hnil⟩ | ⟨hinit, htick, hcpus⟩
  · have hguard : guard (∀ p ∈ c.cpuNrs.zip t.cpuList, p.1 = p.2) = some () := by
      rw [hnil]
      exact if_pos nofun
    simp only [hinit, Bool.false_eq_true, if_false, header, Option.bind_eq_bind, Option.bind_some,
      hguard, hnever, false_and, Option.map_eq_bind, Option.getD_some, Option.pure_def,
      Function.comp_def, falsy_rat]
  · simp only [hinit, if_true, htick, hcpus, Option.bind_eq_bind, Option.bind_some, hnever,
      false_and, if_false, Option.map_eq_bind, Option.getD_some, Option.pure_def,
      Function.comp_def, falsy_rat]

/-- The accounts once a sample has been consumed. -/
theorem Consumed.next (h : Consumed t c done) (hs : s.Complete t.cpus) (htick : t.tick ≠ 0)
    (watch : List Str) :
    ((∀ pid a, accountsOf (done ++ [s]) pid = some a → Plugged a.charges) →
      ∃ c', consume (-1) (-1) (header t watch) c (record s) = some c' ∧
        Consumed t c' (done ++ [s])) ∧
    ((consume (-1) (-1) (header t watch) c (record s)).isSome →
      ∀ pid a, accountsOf (done ++ [s]) pid = some a → Plugged a.charges) := by
  have hs' := complete_cpuList hs
  -- The entries of the threads that the sample mentions.
  have hentry : ∀ pid dict, ((record s).pid.getD ∅).find? pid = some dict → ∃ a,
      accountsOf (done ++ [s]) pid = some a ∧
      (Plugged a.charges → ∃ p, putThread (record s) t.tick t.cpuList
        (c.pidHistory.find? pid) pid dict = some p ∧ p.Holds t.tick t.cpuList a) ∧
      (¬ Plugged a.charges → putThread (record s) t.tick t.cpuList
        (c.pidHistory.find? pid) pid dict = none) := by
    intro pid dict hdict
    rw [s.find?_record_pid] at hdict
    rcases Option.map_eq_some_iff.mp hdict with ⟨f, hf, rfl⟩
    have ho : s.observe pid = some _ := Option.map_eq_some_iff.mpr ⟨f, hf, rfl⟩
    refine ⟨_, ?_, putThread_holds hs' ho hf htick (h.history pid) (h.plugged pid)⟩
    rw [accountsOf_concat, nextAccounts_of_some ho]
  have hother : ∀ pid, ((record s).pid.getD ∅).find? pid = none →
      accountsOf (done ++ [s]) pid = accountsOf done pid := by
    intro pid hnone
    rw [s.find?_record_pid, Option.map_eq_none_iff] at hnone
    rw [accountsOf_concat, nextAccounts_of_none (Option.map_eq_none_iff.mpr hnone)]
  rw [consume_eq h hs]
  constructor
  · intro hplugged
    have hsome : ∀ pid dict, ((record s).pid.getD ∅).find? pid = some dict →
        (putThread (record s) t.tick t.cpuList (c.pidHistory.find? pid) pid dict).isSome := by
      intro pid dict hdict
      rcases hentry pid dict hdict with ⟨a, ha, hgood, -⟩
      rcases hgood (hplugged pid a ha) with ⟨p, hp, -⟩
      rw [hp]
      rfl
    rcases OrdMap.exists_mergeM hsome with ⟨history, hhistory⟩
    rw [hhistory, Option.map_some]
    refine ⟨_, rfl, fun pid => ?_, hplugged, Or.inr ⟨rfl, rfl, rfl⟩, ?_, ?_, ?_⟩
    · rcases OrdMap.find?_mergeM hhistory pid with ⟨hkeep, hput⟩
      cases hdict : ((record s).pid.getD ∅).find? pid with
      | none =>
        dsimp only
        rw [hkeep hdict, hother pid hdict]
        exact h.history pid
      | some dict =>
        rcases hentry pid dict hdict with ⟨a, ha, hgood, -⟩
        rcases hgood (hplugged pid a ha) with ⟨p, hp, hholds⟩
        rcases hput dict hdict with ⟨q, hq, hfind⟩
        rw [hp] at hq
        cases hq
        dsimp only
        rw [hfind, ha]
        exact Option.Rel.some hholds
    · dsimp only
      rw [h.traceStart]
      cases hdone : done with
      | nil => rfl
      | cons r done =>
        have hr : r.seconds ≠ 0 := seconds_ne (h.complete r (hdone ▸ List.mem_cons_self))
        exact if_neg hr
    · rw [List.getLast?_concat]
      rfl
    · intro r hr
      rcases List.mem_append.mp hr with hr | hr
      · exact h.complete r hr
      · rw [List.mem_singleton.mp hr]
        exact hs
  · intro hsome pid a ha
    rcases Option.isSome_iff_exists.mp hsome with ⟨c', hc'⟩
    rcases Option.map_eq_some_iff.mp hc' with ⟨history, hhistory, -⟩
    rcases OrdMap.find?_mergeM hhistory pid with ⟨-, hput⟩
    cases hdict : ((record s).pid.getD ∅).find? pid with
    | none =>
      rw [hother pid hdict] at ha
      exact h.plugged pid a ha
    | some dict =>
      rcases hentry pid dict hdict with ⟨b, hb, -, hbad⟩
      rw [ha] at hb
      cases hb
      by_contra hnot
      rcases hput dict hdict with ⟨q, hq, -⟩
      rw [hbad hnot] at hq
      cases hq

/-- Without a tick rate there is no jiffy period. -/
theorem consume_of_tick (h : Consumed t c []) (hs : s.Complete t.cpus) (htick : t.tick = 0)
    (watch : List Str) : consume (-1) (-1) (header t watch) c (record s) = none := by
  rw [consume_eq h hs, Option.map_eq_none_iff]
  rcases hs.stats with ⟨f, hf⟩
  rcases TraceSample.exists_thread hf with ⟨g, hg⟩
  have ho : s.observe f.pid = some _ := Option.map_eq_some_iff.mpr ⟨g, hg, rfl⟩
  have hdict : ((record s).pid.getD ∅).find? f.pid = some g.dict := by
    rw [s.find?_record_pid, hg]
    rfl
  have hold : c.pidHistory.find? f.pid = none := by
    have hrel := h.history f.pid
    generalize c.pidHistory.find? f.pid = old at hrel ⊢
    cases hrel
    rfl
  cases hhistory : c.pidHistory.mergeM (putThread (record s) t.tick t.cpuList)
      ((record s).pid.getD ∅) with
  | none => rfl
  | some history =>
    rcases (OrdMap.find?_mergeM hhistory f.pid).2 g.dict hdict with ⟨q, hq, -⟩
    rw [putThread_eq (complete_cpuList hs) ho hg, hold, htick] at hq
    cases hq

/-- Charges are not taken back. -/
theorem accountsOf_append {xs : List TraceSample} (ys : List TraceSample) {pid : Int} {a : Account}
    (h : accountsOf xs pid = some a) :
    ∃ b, accountsOf (xs ++ ys) pid = some b ∧ a.charges <+: b.charges := by
  induction ys generalizing xs a with
  | nil =>
    refine ⟨a, ?_, List.prefix_refl _⟩
    rw [List.append_nil]
    exact h
  | cons y ys ih =>
    have hnext : ∃ b, accountsOf (xs ++ [y]) pid = some b ∧ a.charges <+: b.charges := by
      rw [accountsOf_concat]
      cases ho : y.observe pid with
      | none =>
        rw [nextAccounts_of_none ho]
        exact ⟨a, h, List.prefix_refl _⟩
      | some o =>
        rw [nextAccounts_of_some ho, h]
        exact ⟨a.add o, rfl, List.prefix_append _ _⟩
    rcases hnext with ⟨b, hb, hab⟩
    rcases ih hb with ⟨d, hd, hbd⟩
    rw [List.append_assoc, List.singleton_append] at hd
    exact ⟨d, hd, hab.trans hbd⟩

/-- The accounts once several samples have been consumed. -/
theorem Consumed.foldlM (h : Consumed t c done) {samples : List TraceSample}
    (hs : ∀ s ∈ samples, s.Complete t.cpus) (htick : t.tick ≠ 0) (watch : List Str) :
    ((∀ pid a, accountsOf (done ++ samples) pid = some a → Plugged a.charges) →
      ∃ c', (samples.map record).foldlM (consume (-1) (-1) (header t watch)) c = some c' ∧
        Consumed t c' (done ++ samples)) ∧
    (((samples.map record).foldlM (consume (-1) (-1) (header t watch)) c).isSome →
      ∀ pid a, accountsOf (done ++ samples) pid = some a → Plugged a.charges) := by
  induction samples generalizing c done with
  | nil =>
    rw [List.append_nil]
    exact ⟨fun _ => ⟨c, rfl, h⟩, fun _ => h.plugged⟩
  | cons s samples ih =>
    rcases h.next (hs s List.mem_cons_self) htick watch with ⟨hgood, hsome⟩
    have hrest : ∀ c', Consumed t c' (done ++ [s]) → _ := fun c' hc' =>
      ih hc' fun r hr => hs r (List.mem_cons_of_mem _ hr)
    rw [← List.singleton_append, ← List.append_assoc, List.singleton_append, List.map_cons,
      List.foldlM_cons]
    constructor
    · intro hplugged
      have hfirst : ∀ pid a, accountsOf (done ++ [s]) pid = some a → Plugged a.charges := by
        intro pid a ha
        rcases accountsOf_append samples ha with ⟨b, hb, hab⟩
        exact fun charge hcharge => hplugged pid b hb charge (hab.subset hcharge)
      rcases hgood hfirst with ⟨c', hc', hconsumed⟩
      rw [hc']
      exact (hrest c' hconsumed).1 hplugged
    · intro hrun
      cases hconsume : consume (-1) (-1) (header t watch) c (record s) with
      | none =>
        rw [hconsume] at hrun
        cases hrun
      | some next =>
        rcases hgood (hsome (by rw [hconsume]; rfl)) with ⟨c', hc', hconsumed⟩
        rw [hc'] at hrun
        exact (hrest c' hconsumed).2 hrun

end consume

/-- The program accepts a complete trace exactly if there is a tick rate and no thread has used a
    CPU with a negative frequency, and then keeps the accounts of all samples. -/
theorem consumed_processTrace {t : Trace} (h : t.Complete) :
    ((t.tick ≠ 0 ∧ ∀ pid a, accountsOf t.samples pid = some a → Plugged a.charges) →
      ∃ c, processTrace (-1 : ℚ) (-1) [] t.text = some c ∧ Consumed t c t.samples) ∧
    ((processTrace (-1 : ℚ) (-1) [] t.text).isSome →
      t.tick ≠ 0 ∧ ∀ pid a, accountsOf t.samples pid = some a → Plugged a.charges) := by
  rcases processTrace_text h.clean h.words h.nonempty (-1) (-1) [] with ⟨watch, htrace⟩
  have hnil : Consumed t { cpuNrs := [] } [] := consumed_nil t
  rw [htrace]
  constructor
  · rintro ⟨htick, hplugged⟩
    exact (hnil.foldlM h.samples htick watch).1 hplugged
  · intro hsome
    have htick : t.tick ≠ 0 := by
      intro htick
      cases hsamples : t.samples with
      | nil => exact h.nonempty hsamples
      | cons s samples =>
        have hs := h.samples s (hsamples ▸ List.mem_cons_self)
        rw [hsamples, List.map_cons, List.foldlM_cons, consume_of_tick hnil hs htick] at hsome
        cases hsome
    exact ⟨htick, (hnil.foldlM h.samples htick watch).2 hsome⟩

end Python

end LibCollector.Ferret
