import LibCollector.Ferret.KernelData
import LibCollector.Ferret.Lifecycle
import Mathlib.Data.List.Perm.Subperm

/-!
# The reader on the traces of the writer

Whether `postprocess_ferret_data` accepts the trace of a run and rebuilds from it what
the kernel supplied (`Reconstructs`). The reader converts every field to `int` and
asserts that a thread ran on a CPU of the list, so it does exactly on the runs whose
data fits it (`FitsReader`).
-/

namespace LibCollector.Ferret

open LibCollector.Misc

/-! ## The state of a sample -/

namespace CallData

/-- The stat lines that could be read. -/
def readThreads (d : CallData) : List (Nat × StatLine) :=
  d.threads.filterMap fun t => t.2.map fun line => (t.1, line)

/-- `s` is what was written for `d`: the time in seconds, the frequencies in MHz and the fields of
    each thread, and nothing else. -/
structure Rebuilt (d : CallData) (s : Sample) : Prop where
  time : s.time = some ((d.now : ℚ) / 1000000)
  cpu : ∀ key, (s.cpu.getD ∅).find? key =
    d.readCpus.findSome? fun f => if toChars f.1 = key then some ((f.2 : ℚ) / 1000) else none
  pid : ∀ key, (s.pid.getD ∅).find? key =
    d.readThreads.findSome? fun t =>
      if toChars t.1 = key then some (t.2.stat t.1).dict else none

theorem nodup_readCpus (d : CallData) : (d.readCpus.map fun f => toChars f.1).Nodup := by
  have hsublist : (d.readCpus.map Prod.fst).Sublist (d.freqs.map Prod.fst) := by
    rw [readCpus]
    induction d.freqs with
    | nil => exact List.Sublist.slnil
    | cons f fs ih =>
      obtain ⟨cpu, freq⟩ := f
      cases freq with
      | none => exact ih.cons cpu
      | some n => exact ih.cons_cons cpu
  have hmap : (d.readCpus.map fun f => toChars f.1) = (d.readCpus.map Prod.fst).map toChars := by
    rw [List.map_map]
    rfl
  rw [hmap]
  exact (d.freqs_nodup.sublist hsublist).map toChars_injective

theorem nodup_readThreads (d : CallData) :
    (d.readThreads.map fun t => toChars (t.1 : Int)).Nodup := by
  have hsublist : (d.readThreads.map Prod.fst).Sublist (d.threads.map Prod.fst) := by
    rw [readThreads]
    induction d.threads with
    | nil => exact List.Sublist.slnil
    | cons t ts ih =>
      obtain ⟨tid, line⟩ := t
      cases line with
      | none => exact ih.cons tid
      | some line => exact ih.cons_cons tid
  have hinj : Function.Injective fun tid : Nat => toChars (tid : Int) :=
    fun _ _ h => Int.ofNat.inj (toChars_injective h)
  have hmap : (d.readThreads.map fun t => toChars (t.1 : Int)) =
      (d.readThreads.map Prod.fst).map fun tid : Nat => toChars (tid : Int) := by
    rw [List.map_map]
    rfl
  rw [hmap]
  exact (d.threads_nodup.sublist hsublist).map hinj

/-- The rows of the threads only fill the dictionary of the threads. -/
theorem foldl_threadRows (threads : List (Nat × Option StatLine)) (state : Sample) :
    let after := (threads.map threadRow).foldl BodyRow.apply state
    after.cpu = state.cpu ∧
      after.pid.getD ∅ = (threads.filterMap fun t => t.2.map fun line => (t.1, line)).foldl
        (fun m t => m.insert (toChars (t.1 : Int)) (t.2.stat t.1).dict) (state.pid.getD ∅) := by
  induction threads generalizing state with
  | nil => exact ⟨rfl, rfl⟩
  | cons t threads ih =>
    obtain ⟨tid, line⟩ := t
    cases line with
    | none => exact ih state
    | some line =>
      have hrest := ih (BodyRow.apply state (.stat (line.stat tid)))
      exact hrest

/-- The rows of the frequencies only fill the dictionary of the frequencies. -/
theorem foldl_freqRows (d : CallData) (time : ℚ) :
    let after := d.freqRows.foldl BodyRow.apply { time := some time }
    after.pid = none ∧ after.cpu.getD ∅ =
      d.readCpus.foldl (fun m f => m.insert (toChars f.1) ((f.2 : ℚ) / 1000)) ∅ := by
  by_cases hfailed : d.failedCpus = [] <;> by_cases hread : d.readCpus = [] <;>
    simp [freqRows, hfailed, hread, BodyRow.apply]

theorem state_eq (d : CallData) :
    d.sample.state.cpu.getD ∅ =
        d.readCpus.foldl (fun m f => m.insert (toChars f.1) ((f.2 : ℚ) / 1000)) ∅ ∧
      d.sample.state.pid.getD ∅ = d.readThreads.foldl
        (fun m t => m.insert (toChars (t.1 : Int)) (t.2.stat t.1).dict) ∅ := by
  obtain ⟨hpid, hcpu⟩ := d.foldl_freqRows ((d.now : ℚ) / 1000000)
  obtain ⟨hcpu', hpid'⟩ := foldl_threadRows d.threads
    (d.freqRows.foldl BodyRow.apply { time := some ((d.now : ℚ) / 1000000) })
  rw [TraceSample.state, sample, List.foldl_append]
  refine ⟨?_, ?_⟩
  · rw [hcpu', hcpu]
  · rw [hpid', hpid]
    rfl

/-- The rows of a sample describe the data that it was written for. -/
theorem rebuilt_state (d : CallData) : d.Rebuilt d.sample.state := by
  obtain ⟨hcpu, hpid⟩ := d.state_eq
  refine ⟨d.sample.state_time, fun key => ?_, fun key => ?_⟩
  · rw [hcpu, OrdMap.find?_foldl_insert _ d.nodup_readCpus, OrdMap.find?_empty, Option.or_none]
  · rw [hpid, OrdMap.find?_foldl_insert _ d.nodup_readThreads, OrdMap.find?_empty, Option.or_none]

/-! ## What the reader asks of a sample -/

/-- Every integer that the reader converts to `int`. -/
def Fits (d : CallData) : Prop :=
  (∀ f ∈ d.readCpus, IsInt32 f.2) ∧ ∀ t ∈ d.readThreads, ∀ f ∈ (t.2.stat t.1).fields, f.2.Fits

/-- Every thread is banned, or ran on a CPU of the list. -/
def Placed (banned : List Str) (cpus : List Int) (d : CallData) : Prop :=
  ∀ t ∈ d.readThreads, underscores t.2.comm ∈ banned ∨ (t.2.stat t.1).processor ∈ cpus

theorem fits_rows_iff (d : CallData) : (∀ row ∈ d.sample.body, row.Fits) ↔ d.Fits := by
  have hfreqs : (∀ row ∈ d.freqRows, row.Fits) ↔ ∀ f ∈ d.readCpus, IsInt32 f.2 := by
    by_cases hfailed : d.failedCpus = [] <;> by_cases hread : d.readCpus = [] <;>
      simp [freqRows, hfailed, hread, BodyRow.Fits]
  have hthreads : (∀ row ∈ d.threads.map threadRow, row.Fits) ↔
      ∀ t ∈ d.readThreads, ∀ f ∈ (t.2.stat t.1).fields, f.2.Fits := by
    rw [readThreads]
    induction d.threads with
    | nil => simp
    | cons t threads ih =>
      obtain ⟨tid, line⟩ := t
      rw [List.map_cons, List.forall_mem_cons, ih]
      cases line with
      | none => simp [threadRow, BodyRow.Fits]
      | some line => simp only [threadRow, BodyRow.Fits, Option.map_some, List.filterMap_cons,
          List.forall_mem_cons]
  rw [sample, List.forall_mem_append, hfreqs, hthreads, Fits]

theorem placed_state_iff (d : CallData) {banned : List Str} {cpus : List Int} :
    Ferret.Placed banned cpus d.sample.state ↔ d.Placed banned cpus := by
  have hcomm : ∀ s : StatFields, StatValue.asString (s.dict.find? "comm".toList) = s.comm := by
    intro s
    rw [s.find?_dict_comm]
    rfl
  have hprocessor : ∀ s : StatFields,
      StatValue.asInt (s.dict.find? "processor".toList) = s.processor := by
    intro s
    rw [s.find?_dict_processor]
    rfl
  have hentry : ∀ e, e ∈ (d.sample.state.pid.getD ∅).entries ↔
      ∃ t ∈ d.readThreads, e = (toChars (t.1 : Int), (t.2.stat t.1).dict) := by
    intro e
    rw [d.state_eq.2, OrdMap.mem_entries_foldl_insert d.nodup_readThreads]
  constructor
  · intro h t ht
    have hplaced := h _ ((hentry _).mpr ⟨t, ht, rfl⟩)
    rwa [hcomm, hprocessor] at hplaced
  · intro h e he
    obtain ⟨t, ht, rfl⟩ := (hentry e).mp he
    rw [hcomm, hprocessor]
    exact h t ht

end CallData

/-! ## The CPUs of a configuration -/

/-- A collector whose initialisation has succeeded has a CPU list without repetitions. -/
structure Listed (c : FerretCollector) : Prop where
  int : ∀ cpu ∈ c.mCpus, IsInt32 cpu
  closed : c.mInitSuccess = false → c.mCpufreqFdMap = ∅
  nodup : c.mInitSuccess = true → c.mCpus.Nodup

namespace FerretCollector

/-- Only descriptors for the CPUs of the list are added. -/
theorem mem_keys_openCpufreqFds {env : Proc} {cpus : List Int} {m fds : OrdMap Int Int}
    (h : openCpufreqFds env cpus m = some fds) : ∀ cpu ∈ fds.keys, cpu ∈ m.keys ∨ cpu ∈ cpus := by
  induction cpus generalizing m with
  | nil =>
    cases h
    exact fun cpu hcpu => Or.inl hcpu
  | cons c cpus ih =>
    have hskip : openCpufreqFds env cpus m = some fds →
        ∀ cpu ∈ fds.keys, cpu ∈ m.keys ∨ cpu ∈ c :: cpus := fun hrest cpu hcpu =>
      (ih hrest cpu hcpu).imp_right (List.mem_cons_of_mem c)
    rw [openCpufreqFds] at h
    split at h
    · dsimp only at h
      split at h
      · split at h
        · cases h
        · exact hskip h
      · split at h
        · intro cpu hcpu
          rcases ih h cpu hcpu with hkey | hmem
          · rcases OrdMap.mem_keys_insert.mp hkey with rfl | hkey
            · exact Or.inr List.mem_cons_self
            · exact Or.inl hkey
          · exact Or.inr (List.mem_cons_of_mem c hmem)
        · exact hskip h
    · exact hskip h

/-- A descriptor for each CPU of the list leaves no room for a repetition. -/
theorem nodup_of_openCpufreqFds {env : Proc} {cpus : List Int} {fds : OrdMap Int Int}
    (h : openCpufreqFds env cpus ∅ = some fds) (hlength : fds.keys.length = cpus.length) :
    cpus.Nodup := by
  have hsubset : fds.keys ⊆ cpus := fun cpu hcpu =>
    (mem_keys_openCpufreqFds h cpu hcpu).resolve_left List.not_mem_nil
  have hperm : fds.keys.Perm cpus :=
    (List.subperm_of_subset fds.keys_nodup hsubset).perm_of_length_le (le_of_eq hlength.symm)
  exact hperm.nodup_iff.mp fds.keys_nodup

theorem listed_init {env : Proc} {c c' : FerretCollector} (inv : Listed c)
    (h : c.init env = some c') : Listed c' := by
  unfold init at h
  split at h
  · cases h
    exact inv
  · rename_i hinit
    obtain ⟨freqs, hfreqs, h⟩ := Option.bind_eq_some_iff.mp h
    obtain ⟨fds, -, rfl⟩ := Option.map_eq_some_iff.mp h
    split
    · rename_i hok
      refine ⟨inv.int, fun h => absurd h.symm Bool.false_ne_true, fun _ => ?_⟩
      rw [inv.closed (Bool.eq_false_iff.mpr hinit)] at hfreqs
      exact nodup_of_openCpufreqFds hfreqs hok.1.2
    · exact ⟨inv.int, fun _ => rfl, fun h => absurd h hinit⟩

end FerretCollector

theorem listed_step {s t : FerretCollector × Int} {op : Op} (inv : Listed s.1)
    (h : step s op = some t) : Listed t.1 := by
  cases op with
  | init env =>
    obtain ⟨c, hc, rfl⟩ := Option.map_eq_some_iff.mp h
    exact FerretCollector.listed_init inv hc
  | deinit =>
    cases h
    exact ⟨inv.int, fun _ => rfl, fun h => absurd h Bool.false_ne_true⟩
  | start traceOk =>
    cases h
    dsimp only
    unfold FerretCollector.start
    split <;> exact ⟨inv.int, inv.closed, inv.nodup⟩
  | collect env =>
    obtain ⟨out, hout, rfl⟩ := Option.map_eq_some_iff.mp h
    have hsame := FerretCollector.collect_sameConfig hout
    refine ⟨?_, ?_, ?_⟩
    · rw [hsame.mCpus]
      exact inv.int
    · rw [hsame.mInitSuccess, hsame.mCpufreqFdMap]
      exact inv.closed
    · rw [hsame.mInitSuccess, hsame.mCpus]
      exact inv.nodup
  | stop =>
    cases h
    exact ⟨inv.int, inv.closed, inv.nodup⟩

theorem listed_of_reachable {config : FerretConfig} {s : FerretCollector × Int}
    (h : Reachable config s) : Listed s.1 := by
  obtain ⟨last, ops, hrun⟩ := h
  have hstep : ∀ (s : FerretCollector × Int) (op : Op) (t : FerretCollector × Int),
      Listed s.1 → step s op = some t → Listed t.1 := fun _ _ _ => listed_step
  refine run_invariant hstep ?_ hrun
  exact ⟨config.cpusInt, fun _ => rfl, fun h => absurd h Bool.false_ne_true⟩

/-! ## The trace of a run -/

/-- The reader accepts a file and rebuilds a sample for each of `samples`. -/
def Reconstructs (banned : List Str) (text : Str) (samples : List CallData) : Prop :=
  (postprocessFerretData banned text).isSome ∧
    ∃ st, Postprocess.readRows banned text = some st ∧
      List.Forall₂ CallData.Rebuilt samples st.samples

/-- The data of a run of `c` fits the reader: the clock ticks, the frequencies and the fields of
    the stat lines are in the range of `int`, and every thread that is not banned ran on a CPU of
    the list, but for the last sample, which is never delivered. -/
structure FitsReader (banned : List Str) (c : FerretCollector) (samples : List CallData) :
    Prop where
  tick : IsInt32 c.mClockTicks
  fields : ∀ d ∈ samples, d.Fits
  processors : ∀ d ∈ samples.dropLast, d.Placed banned c.mCpus

namespace Tracing

theorem clean_traceOf {c : FerretCollector} (h : Listed c) (hinit : c.mInitSuccess = true)
    (hwatch : ∀ name ∈ c.mProcessNames, '\n' ∉ name) (samples : List CallData) :
    (traceOf c samples).Clean := by
  refine ⟨h.int, h.nodup hinit, hwatch, fun s hs => ?_⟩
  obtain ⟨d, -, rfl⟩ := List.mem_map.mp hs
  exact d.clean_sample

/-- What the reader requires of the trace of a run. -/
theorem fits_traceOf_iff (banned : List Str) (c : FerretCollector) (samples : List CallData) :
    (IsInt32 (traceOf c samples).tick ∧
      (∀ s ∈ (traceOf c samples).samples, ∀ row ∈ s.body, row.Fits) ∧
      ∀ s ∈ (traceOf c samples).samples.dropLast, Placed banned (traceOf c samples).cpus s.state) ↔
    FitsReader banned c samples := by
  have hfields : (∀ s ∈ samples.map CallData.sample, ∀ row ∈ s.body, row.Fits) ↔
      ∀ d ∈ samples, d.Fits := by
    simp only [List.forall_mem_map, CallData.fits_rows_iff]
  have hplaced : (∀ s ∈ (samples.map CallData.sample).dropLast, Placed banned c.mCpus s.state) ↔
      ∀ d ∈ samples.dropLast, d.Placed banned c.mCpus := by
    simp only [← List.map_dropLast, List.forall_mem_map, CallData.placed_state_iff]
  constructor
  · rintro ⟨htick, hfit, hon⟩
    exact ⟨htick, hfields.mp hfit, hplaced.mp hon⟩
  · rintro ⟨htick, hfit, hon⟩
    exact ⟨htick, hfields.mpr hfit, hplaced.mpr hon⟩

theorem hasData_foldl_next (t : Trace) (banned : List Str) (st : Postprocess)
    (samples : List TraceSample) :
    (samples.foldl (t.next banned) st).hasData = st.hasData := by
  induction samples generalizing st with
  | nil => rfl
  | cons s samples ih =>
    rw [List.foldl_cons, ih, Trace.next, Trace.deliver]
    by_cases hstate : st.state = {}
    · rw [if_pos hstate]
    · rw [if_neg hstate]

theorem reconstructs_iff {c : FerretCollector} {s : Tracing} (hwrote : Wrote c s)
    (hclean : (traceOf c s.samples).Clean) (banned : List Str) :
    Reconstructs banned s.text s.samples ↔ FitsReader banned c s.samples := by
  obtain ⟨watch, hread⟩ := readRows_text hclean banned
  rw [← hwrote.text] at hread
  constructor
  · rintro ⟨-, st, hst, -⟩
    by_contra hfits
    rw [if_neg fun h => hfits ((fits_traceOf_iff banned c s.samples).mp h), hst] at hread
    cases hread
  · intro hfits
    rw [if_pos ((fits_traceOf_iff banned c s.samples).mpr hfits)] at hread
    refine ⟨?_, _, hread, ?_⟩
    · rw [postprocessFerretData, hread, Option.bind_some, hasData_foldl_next]
      rfl
    · rw [samples_foldl_next]
      show List.Forall₂ CallData.Rebuilt s.samples
        ([] ++ (s.samples.map CallData.sample).map TraceSample.state)
      rw [List.nil_append, List.map_map, List.forall₂_map_right_iff, List.forall₂_same]
      exact fun d _ => d.rebuilt_state

/-- The reader rebuilds the trace of a run exactly if the data of the run fits it. A name with a
    newline cuts the `WatchList` row of the header in two. -/
theorem reconstructs_run_iff {config : FerretConfig} {c : FerretCollector} {last : Int}
    (hreach : Reachable config (c, last)) {s₀ s : Tracing} (hstart : start c last = some s₀)
    {calls : List (Proc × CallData)} (hsup : StepsMeet step Supplied s₀ calls)
    (hrun : run step s₀ calls = some s) (banned : List Str) :
    ((∀ name ∈ c.mProcessNames, '\n' ∉ name) ∧ FitsReader banned c s.samples →
        Reconstructs banned s.text s.samples) ∧
      ((∀ name ∈ c.mProcessNames, '\n' ∉ name) → Reconstructs banned s.text s.samples →
        FitsReader banned c s.samples) := by
  have hinit : c.mInitSuccess = true := by
    rw [start] at hstart
    split at hstart
    · cases hstart
    · rename_i hready
      exact eq_true_of_ne_false fun h => hready (Or.inl h)
  have hiff : (∀ name ∈ c.mProcessNames, '\n' ∉ name) →
      (Reconstructs banned s.text s.samples ↔ FitsReader banned c s.samples) := fun hwatch =>
    reconstructs_iff (wrote_run hsup hrun (wrote_start hstart))
      (clean_traceOf (listed_of_reachable hreach) hinit hwatch s.samples) banned
  exact ⟨fun h => (hiff h.1).mpr h.2, fun hwatch => (hiff hwatch).mp⟩

end Tracing

/-! ## A system that has been running for long -/

/-- A configuration with one CPU and no watch list. -/
def uptimeConfig : FerretConfig where
  clockTicks := 100
  pid := "7".toList
  cpus := [0]
  cpusInt := cpusInt_zero

/-- The stat line of a thread that was started `starttime` ticks after the system. -/
def uptimeLine (starttime : UInt64) : StatLine where
  comm := ['a', 'p', 'p']
  state := 'R'
  fields := List.replicate 18 0 ++ [(starttime.toNat : Int)] ++ List.replicate 17 0
  lastField := 0
  comm_ok := by simp
  comm_length := by decide
  state_ok := by decide
  fields_length := by simp
  fields_range := by
    intro n hn
    have hlt : starttime.toNat < 18446744073709551616 := starttime.toNat_lt
    simp only [List.mem_cons, List.mem_append, List.mem_replicate, List.not_mem_nil,
      or_false] at hn
    rcases hn with rfl | (⟨-, rfl⟩ | rfl) | ⟨-, rfl⟩ <;> omega

/-- The kernel supplies the stat line `line` and a frequency of 1 GHz. -/
def uptimeProc (now : Nat) (line : StatLine) : Proc where
  now := now
  scan := fun _ => some []
  tasks := fun _ _ => some ["7".toList]
  openStat := fun _ _ _ => ⟨4, false⟩
  openFreq := fun _ => ⟨3, false⟩
  seekOk := fun _ => true
  read := fun fd => if fd = 3 then freqText (some 1000000) else line.text 7

/-- The data of such a call. -/
def uptimeData (now : Nat) (line : StatLine) (hnow : now < 9223372036854775808) : CallData where
  now := now
  freqs := [(0, some 1000000)]
  threads := [(7, some line)]
  now_lt := hnow
  tid_lt := by simp
  freqs_nodup := by simp
  threads_nodup := by simp

/-- The collector after `init()`. -/
def uptimeCollector : FerretCollector :=
  { FerretCollector.construct uptimeConfig with
    mInitSuccess := true
    mCpufreqFdMap := OrdMap.insert ∅ 0 3 }

theorem reachable_uptime (line : StatLine) : Reachable uptimeConfig (uptimeCollector, 0) :=
  ⟨0, [.init (uptimeProc 1 line)], by rfl⟩

/-- Two calls, one second apart. -/
def uptimeCalls (line : StatLine) : List (Proc × CallData) :=
  [(uptimeProc 1000000 line, uptimeData 1000000 line (by decide)),
    (uptimeProc 2000000 line, uptimeData 2000000 line (by decide))]

/-- The kernel supplies the data of a call, whether the thread is known already or not. -/
theorem supplies_uptime {now : Nat} {line : StatLine} {hnow : now < 9223372036854775808}
    {c : FerretCollector} (hfreqs : c.mCpufreqFdMap = OrdMap.insert ∅ 0 3)
    (hthreads : ∀ opened, enumerateAll (uptimeProc now line) 0
      (monitored (uptimeProc now line) c) c.mPidFdMap = some opened →
        opened.1.entries = [("7".toList, 4)]) :
    Supplies (uptimeProc now line) c (uptimeData now line hnow) := by
  refine ⟨rfl, ?_, fun opened hopened => ?_⟩
  · rw [hfreqs]
    rfl
  · have htid : toChars ((7 : Nat) : Int) = "7".toList := by decide
    rw [hthreads opened hopened]
    show _ = [(toChars ((7 : Nat) : Int), line.text 7)]
    rw [htid]
    rfl

/-- Both calls are made. -/
theorem run_uptime (line : StatLine) : ∃ s₀ s, Tracing.start uptimeCollector 0 = some s₀ ∧
    StepsMeet Tracing.step Tracing.Supplied s₀ (uptimeCalls line) ∧
    run Tracing.step s₀ (uptimeCalls line) = some s ∧
    s.samples = (uptimeCalls line).map Prod.snd := by
  refine ⟨_, _, rfl, ⟨fun _ => ?_, fun s₁ hs₁ => ⟨fun _ => ?_, fun _ _ => trivial⟩⟩, rfl, rfl⟩
  · refine supplies_uptime rfl fun opened hopened => ?_
    cases hopened
    rfl
  · cases hs₁
    refine supplies_uptime rfl fun opened hopened => ?_
    cases hopened
    rfl

/-- The reader rebuilds the trace of a run one hour after the start of the system. -/
theorem reconstructs_short_uptime : ∃ s₀ s, Tracing.start uptimeCollector 0 = some s₀ ∧
    run Tracing.step s₀ (uptimeCalls (uptimeLine 360000)) = some s ∧
    Reconstructs [] s.text s.samples := by
  obtain ⟨s₀, s, hstart, hsup, hrun, hsamples⟩ := run_uptime (uptimeLine 360000)
  have hreach := reachable_uptime (uptimeLine 360000)
  refine ⟨s₀, s, hstart, hrun, ?_⟩
  refine (Tracing.reconstructs_run_iff hreach hstart hsup hrun []).1 ⟨?_, ?_⟩
  · intro name hname
    cases hname
  · rw [hsamples]
    refine ⟨by decide, ?_, ?_⟩
    · intro d hd
      obtain rfl | hd := List.mem_cons.mp hd
      · exact ⟨by decide, by decide⟩
      · rw [List.mem_singleton.mp hd]
        exact ⟨by decide, by decide⟩
    · intro d hd
      rw [List.mem_singleton.mp hd]
      exact List.forall_mem_singleton.mpr (Or.inr (by decide))

/-- It fails on the start time of a thread that was started after 2^31 ticks. -/
theorem not_reconstructs_long_uptime : Reachable uptimeConfig (uptimeCollector, 0) ∧
    ∃ s₀ s, Tracing.start uptimeCollector 0 = some s₀ ∧
    StepsMeet Tracing.step Tracing.Supplied s₀ (uptimeCalls (uptimeLine 2147483648)) ∧
    run Tracing.step s₀ (uptimeCalls (uptimeLine 2147483648)) = some s ∧
    ¬ Reconstructs [] s.text s.samples := by
  obtain ⟨s₀, s, hstart, hsup, hrun, hsamples⟩ := run_uptime (uptimeLine 2147483648)
  have hreach := reachable_uptime (uptimeLine 2147483648)
  refine ⟨hreach, s₀, s, hstart, hsup, hrun, fun hrebuilt => ?_⟩
  have hclean := Tracing.clean_traceOf (listed_of_reachable hreach) rfl
    (by simp [uptimeCollector, uptimeConfig, FerretCollector.construct]) s.samples
  have hfits := (Tracing.reconstructs_iff
    (Tracing.wrote_run hsup hrun (Tracing.wrote_start hstart)) hclean []).mp hrebuilt
  rw [hsamples] at hfits
  have hfields := (hfits.fields _ List.mem_cons_self).2
  exact absurd hfields (by decide)

end LibCollector.Ferret
