import LibCollector.Ferret.Conservation
import LibCollector.Misc.Run

/-!
# The main thread

What the end of `postprocess_ferret_data` selects. The loop over the history keeps the results, the
sum of their megacycles, the most megacycles of one of them and its index side by side
(`Selection`); the history holds for each pid the calls of `add` that the delivered samples make for
it (`Tracked`). In a trace whose threads only use up time (`Steady`), the index is that of a thread
with the most megacycles (`selectsMain_of_steady`).
-/

namespace LibCollector.Ferret

open LibCollector.Misc

/-! ## The loop over the history -/

/-- The variables of the loop: `results`, `mcycle_sum`, `max_active` and `max_index`. -/
structure Selection where
  results : List Summary := []
  mcycleSum : ℚ := 0
  maxActive : ℚ := 0
  maxIndex : Nat := 0

namespace Selection

/-- A significant thread. -/
def append (psummary : Summary) (sel : Selection) : Selection :=
  let results := sel.results ++ [psummary]
  { results := results
    mcycleSum := sel.mcycleSum + psummary.mcycSum
    maxActive := if sel.maxActive < psummary.mcycSum then psummary.mcycSum else sel.maxActive
    maxIndex := if sel.maxActive < psummary.mcycSum then results.length - 1 else sel.maxIndex }

/-- What the loop knows of the threads that it has appended. -/
structure Correct (sel : Selection) : Prop where
  sum : sel.mcycleSum = (sel.results.map Summary.mcycSum).sum
  le : ∀ s ∈ sel.results, s.mcycSum ≤ sel.maxActive
  index : (sel.maxActive = 0 ∧ sel.maxIndex = 0) ∨
    ∃ s, sel.results[sel.maxIndex]? = some s ∧ s.mcycSum = sel.maxActive

theorem correct_empty : Correct {} :=
  ⟨rfl, fun _ hs => absurd hs List.not_mem_nil, Or.inl ⟨rfl, rfl⟩⟩

/-- The index is one of the results that stand already, or the new one's. -/
theorem Correct.append {sel : Selection} (h : sel.Correct) (psummary : Summary) :
    (sel.append psummary).Correct := by
  have hlast : (sel.results ++ [psummary])[(sel.results ++ [psummary]).length - 1]? =
      some psummary := by
    simp
  refine ⟨?_, ?_, ?_⟩
  · simp [Selection.append, h.sum]
  · intro s hs
    rcases List.mem_append.mp hs with hs | hs
    · refine (h.le s hs).trans ?_
      dsimp only [Selection.append]
      split_ifs with hlt
      · exact le_of_lt hlt
      · exact le_refl _
    · obtain rfl := List.mem_singleton.mp hs
      dsimp only [Selection.append]
      split_ifs with hlt
      · exact le_refl _
      · exact not_lt.mp hlt
  · dsimp only [Selection.append]
    split_ifs with hlt
    · exact Or.inr ⟨psummary, hlast, rfl⟩
    · rcases h.index with hzero | ⟨s, hs, hmax⟩
      · exact Or.inl hzero
      · have hbound := (List.getElem?_eq_some_iff.mp hs).1
        exact Or.inr ⟨s, by rw [List.getElem?_append_left hbound, hs], hmax⟩

theorem Correct.foldl {sel : Selection} (h : sel.Correct) (summaries : List Summary) :
    (summaries.foldl (fun sel s => sel.append s) sel).Correct := by
  induction summaries generalizing sel with
  | nil => exact h
  | cons s summaries ih => exact ih (h.append s)

/-- The index and the maximum are those of a loop over the results alone. -/
theorem foldl_append (summaries : List Summary) :
    summaries.foldl (fun sel s => sel.append s) {} =
      (⟨summaries, (summaries.map Summary.mcycSum).sum, (Postprocess.mainThread summaries).2,
        (Postprocess.mainThread summaries).1⟩ : Selection) := by
  induction summaries using List.reverseRecOn with
  | nil => rfl
  | append_singleton summaries s ih =>
    rw [List.foldl_concat, ih, append, Postprocess.mainThread, Postprocess.mainThread,
      List.zipIdx_append, List.foldl_append]
    simp only [List.zipIdx_singleton, List.foldl_cons, List.foldl_nil, zero_add,
      List.map_append, List.map_cons, List.map_nil, List.sum_append, List.sum_cons, List.sum_nil,
      add_zero, List.length_append, List.length_cons, List.length_nil, Nat.add_sub_cancel]
    split_ifs <;> rfl

end Selection

namespace Postprocess

/-- The body of the loop. A thread that is not significant is skipped. -/
def selectThread (st : Postprocess) (sel : Selection) (e : Str × FerretProcess) : Selection :=
  match e.2.summary e.1 with
  | some psummary => if st.keeps e.2 then sel.append psummary else sel
  | none => sel

/-- The loop. -/
def select (st : Postprocess) : Selection := st.pidHistory.entries.foldl st.selectThread {}

theorem select_eq (st : Postprocess) :
    st.select = st.summaries.foldl (fun sel s => sel.append s) {} := by
  have hlist : ∀ (es : List (Str × FerretProcess)) (sel : Selection),
      es.foldl st.selectThread sel =
      (es.filterMap fun e => if st.keeps e.2 then e.2.summary e.1 else none).foldl
        (fun sel s => sel.append s) sel := by
    intro es
    induction es with
    | nil => exact fun _ => rfl
    | cons e es ih =>
      intro sel
      rw [List.foldl_cons, ih, List.filterMap_cons, selectThread]
      by_cases hkeeps : st.keeps e.2 <;> cases e.2.summary e.1 <;> simp [hkeeps]
  exact hlist st.pidHistory.entries {}

theorem correct_select (st : Postprocess) : st.select.Correct := by
  rw [select_eq]
  exact Selection.correct_empty.foldl st.summaries

end Postprocess

/-- What is returned are the variables of the loop. -/
theorem postprocessFerretData_eq {banned : List Str} {text : Str} {st : Postprocess}
    (h : Postprocess.readRows banned text = some st) (hdata : st.hasData = true) :
    postprocessFerretData banned text = some ⟨st.select.results, st.select.maxIndex,
      st.select.maxActive, st.select.mcycleSum⟩ := by
  rw [postprocessFerretData, h, Option.bind_some, if_pos hdata, st.select_eq,
    Selection.foldl_append]

/-! ## The history -/

/-- `utime` and `stime` of a thread, added up. -/
def ustimeOf (info : OrdMap Str StatValue) : Int :=
  StatValue.asInt (info.find? "utime".toList) + StatValue.asInt (info.find? "stime".toList)

/-- What a sample says that a pid has used, if it has the pid. -/
def jiffiesOf (pid : Str) (s : Sample) : Option Int := ((s.pid.getD ∅).find? pid).map ustimeOf

/-- The call of `add` for a thread of a sample; none if its name is banned. -/
def callFor (banned : List Str) (s : Sample) (info : OrdMap Str StatValue) : Option AddCall :=
  let comm := StatValue.asString (info.find? "comm".toList)
  let processor := StatValue.asInt (info.find? "processor".toList)
  if comm ∈ banned then none
  else some {
    label := comm
    ts := s.time.getD 0
    jiffies := int32 (ustimeOf info)
    freq := ((s.cpu.getD ∅).find? (toChars processor)).getD 0
    cpuNr := processor }

/-- The call of `add` for a pid that a sample makes. -/
def callOf (banned : List Str) (pid : Str) (s : Sample) : Option AddCall :=
  ((s.pid.getD ∅).find? pid).bind (callFor banned s)

/-- The calls of `add` for a pid. -/
def callsOf (banned : List Str) (pid : Str) (samples : List Sample) : List AddCall :=
  samples.filterMap (callOf banned pid)

theorem callsOf_concat (banned : List Str) (pid : Str) (samples : List Sample) (s : Sample) :
    callsOf banned pid (samples ++ [s]) =
      callsOf banned pid samples ++ (callOf banned pid s).toList := by
  rw [callsOf, List.filterMap_append, callsOf]
  cases h : callOf banned pid s <;> simp [h]

/-- The entry of the history after one more call. -/
def nextProcess (tick : Int) (cpus : List Int) (old : Option FerretProcess) (c : AddCall) :
    FerretProcess :=
  (old.getD (FerretProcess.new tick cpus)).add c.label c.ts c.jiffies c.freq c.cpuNr

/-- The entry of the history after some calls. -/
def historyAfter (tick : Int) (cpus : List Int) : List AddCall → Option FerretProcess
  | [] => none
  | c :: calls => some ((FerretProcess.new tick cpus).addCalls (c :: calls))

theorem historyAfter_concat (tick : Int) (cpus : List Int) (calls : List AddCall) (c : AddCall) :
    historyAfter tick cpus (calls ++ [c]) =
      some (nextProcess tick cpus (historyAfter tick cpus calls) c) := by
  cases calls with
  | nil => rfl
  | cons d calls =>
    rw [List.cons_append, historyAfter, historyAfter, nextProcess, Option.getD_some,
      FerretProcess.addCalls, FerretProcess.addCalls, ← List.cons_append, List.foldl_concat]

/-- What a thread of a sample does to the entry of its pid. -/
def Entered (banned : List Str) (s : Sample) (tick : Int) (cpus : List Int)
    (info : OrdMap Str StatValue) (old new : Option FerretProcess) : Prop :=
  (callFor banned s info = none → new = old) ∧
    ∀ c, callFor banned s info = some c → c.cpuNr ∈ cpus ∧ new = some (nextProcess tick cpus old c)

theorem entered_addThread {banned : List Str} {s : Sample} {tick : Int} {cpus : List Int}
    {history history' : OrdMap Str FerretProcess} {e : Str × OrdMap Str StatValue}
    (h : addThread banned s tick cpus history e = some history') :
    (∀ pid, pid ≠ e.1 → history'.find? pid = history.find? pid) ∧
      Entered banned s tick cpus e.2 (history.find? e.1) (history'.find? e.1) := by
  rw [addThread] at h
  rw [Entered, callFor]
  by_cases hbanned : StatValue.asString (e.2.find? "comm".toList) ∈ banned
  · rw [if_pos hbanned] at h ⊢
    cases h
    exact ⟨fun _ _ => rfl, fun _ => rfl, nofun⟩
  · rw [if_neg hbanned] at h ⊢
    by_cases hcpu : StatValue.asInt (e.2.find? "processor".toList) ∈ cpus
    · rw [if_neg (not_not.mpr hcpu)] at h
      cases h
      refine ⟨fun pid hpid => OrdMap.find?_insert_of_ne _ _ hpid, nofun, fun c hc => ?_⟩
      cases hc
      exact ⟨hcpu, OrdMap.find?_insert_self _ _ _⟩
    · rw [if_pos hcpu] at h
      cases h

/-- A delivered sample makes one call for each of its threads that is not banned. -/
theorem entered_addThreads {banned : List Str} {s : Sample} {tick : Int} {cpus : List Int}
    {history history' : OrdMap Str FerretProcess}
    (h : (s.pid.getD ∅).entries.foldlM (addThread banned s tick cpus) history = some history')
    (pid : Str) :
    (callOf banned pid s = none → history'.find? pid = history.find? pid) ∧
      ∀ c, callOf banned pid s = some c → c.cpuNr ∈ cpus ∧
        history'.find? pid = some (nextProcess tick cpus (history.find? pid) c) := by
  obtain ⟨hother, hentry⟩ := OrdMap.find?_foldlM
    (R := fun _ => Entered banned s tick cpus) (fun _ _ _ => entered_addThread) h pid
  rw [callOf]
  cases hinfo : (s.pid.getD ∅).find? pid with
  | none => exact ⟨fun _ => hother hinfo, nofun⟩
  | some info => exact hentry info hinfo

/-- The history is that of the delivered samples. -/
structure Tracked (banned : List Str) (st : Postprocess) : Prop where
  idle : st.initData = false → st.delivered = []
  history : ∀ pid, st.pidHistory.find? pid =
    historyAfter st.tick st.cpuNrs (callsOf banned pid st.delivered)
  placed : ∀ pid, ∀ c ∈ callsOf banned pid st.delivered, c.cpuNr ∈ st.cpuNrs
  started : st.started = decide (st.delivered ≠ [])
  traceStart : st.traceStart = (st.delivered.head?.bind Sample.time).getD 0
  traceEnd : st.traceEnd = (st.delivered.getLast?.bind Sample.time).getD 0

theorem tracked_init (banned : List Str) : Tracked banned Postprocess.init :=
  ⟨fun _ => rfl, fun _ => rfl, fun _ _ hc => absurd hc List.not_mem_nil, rfl, rfl, rfl⟩

/-- A handler only changes the properties and the state. -/
theorem tracked_handle {banned : List Str} {recordType : Char} {tokens : List Str}
    {st st' : Postprocess} (inv : Tracked banned st)
    (h : st.handle recordType tokens = some st') : Tracked banned st' := by
  rw [Postprocess.handle] at h
  split_ifs at h
  · obtain ⟨props, -, rfl⟩ := Option.map_eq_some_iff.mp h
    exact ⟨inv.idle, inv.history, inv.placed, inv.started, inv.traceStart, inv.traceEnd⟩
  · obtain ⟨state, -, rfl⟩ := Option.map_eq_some_iff.mp h
    exact ⟨inv.idle, inv.history, inv.placed, inv.started, inv.traceStart, inv.traceEnd⟩
  · obtain ⟨state, -, rfl⟩ := Option.map_eq_some_iff.mp h
    exact ⟨inv.idle, inv.history, inv.placed, inv.started, inv.traceStart, inv.traceEnd⟩
  · obtain ⟨state, -, rfl⟩ := Option.map_eq_some_iff.mp h
    exact ⟨inv.idle, inv.history, inv.placed, inv.started, inv.traceStart, inv.traceEnd⟩
  · cases h
    exact inv

/-- One more sample is delivered. -/
theorem Tracked.add {banned : List Str} {st : Postprocess} (inv : Tracked banned st)
    {history : OrdMap Str FerretProcess}
    (h : (st.state.pid.getD ∅).entries.foldlM (addThread banned st.state st.tick st.cpuNrs)
      st.pidHistory = some history) (hinit : st.initData = true) :
    Tracked banned { st with
      traceStart := if st.started then st.traceStart else st.state.time.getD 0
      started := true
      traceEnd := st.state.time.getD 0
      pidHistory := history
      delivered := st.delivered ++ [st.state] } := by
  refine ⟨fun hidle => ?_, fun pid => ?_, fun pid => ?_, ?_, ?_, ?_⟩
  · rw [hinit] at hidle
    cases hidle
  · obtain ⟨hother, hown⟩ := entered_addThreads h pid
    dsimp only
    rw [callsOf_concat]
    cases hcall : callOf banned pid st.state with
    | none => rw [hother hcall, Option.toList_none, List.append_nil, inv.history]
    | some c =>
      rw [(hown c hcall).2, Option.toList_some, historyAfter_concat, inv.history]
  · obtain ⟨-, hown⟩ := entered_addThreads h pid
    dsimp only
    rw [callsOf_concat]
    intro c hc
    rcases List.mem_append.mp hc with hc | hc
    · exact inv.placed pid c hc
    · exact (hown c (Option.mem_toList.mp hc)).1
  · simp
  · dsimp only
    rw [inv.started, inv.traceStart]
    cases st.delivered <;> rfl
  · dsimp only
    rw [List.getLast?_concat]
    rfl

theorem tracked_deliver {banned : List Str} {st st' : Postprocess} (inv : Tracked banned st)
    (h : Postprocess.deliver banned st = some st') : Tracked banned st' := by
  rw [Postprocess.deliver] at h
  split_ifs at h with hempty hinit
  · cases h
    exact inv
  · rw [Option.bind_some] at h
    obtain ⟨history, hhistory, rfl⟩ := Option.map_eq_some_iff.mp h
    exact inv.add hhistory hinit
  · obtain ⟨st₁, hready, h⟩ := Option.bind_eq_some_iff.mp h
    obtain ⟨cpus, -, rfl⟩ := Option.map_eq_some_iff.mp hready
    obtain ⟨history, hhistory, rfl⟩ := Option.map_eq_some_iff.mp h
    -- before the first sample the tick and the CPUs say nothing about the history
    have hnone := inv.idle (Bool.eq_false_iff.mpr hinit)
    have inv₁ : Tracked banned { st with
        tick := st.traceProperties.tick.getD 0
        cpuNrs := st.cpuNrs ++ cpus
        initData := true } := by
      refine ⟨fun hdata => ?_, fun pid => ?_, fun pid => ?_, inv.started, inv.traceStart,
        inv.traceEnd⟩
      · cases hdata
      · have hpid := inv.history pid
        rw [hnone] at hpid ⊢
        exact hpid
      · rw [hnone]
        exact fun c hc => absurd hc List.not_mem_nil
    exact inv₁.add hhistory rfl

theorem tracked_readRow {banned : List Str} {st st' : Postprocess} {row : Str}
    (inv : Tracked banned st) (h : Postprocess.readRow banned st row = some st') :
    Tracked banned st' := by
  have hdata : Tracked banned { st with hasData := true } :=
    ⟨inv.idle, inv.history, inv.placed, inv.started, inv.traceStart, inv.traceEnd⟩
  obtain ⟨recordType, -, h⟩ := Option.bind_eq_some_iff.mp h
  obtain ⟨st₁, hst₁, hhandle⟩ := Option.bind_eq_some_iff.mp h
  split_ifs at hst₁
  · exact tracked_handle (tracked_deliver hdata hst₁) hhandle
  · cases hst₁
    exact tracked_handle hdata hhandle

theorem tracked_readRows {banned : List Str} {text : Str} {st : Postprocess}
    (h : Postprocess.readRows banned text = some st) : Tracked banned st :=
  run_invariant (fun _ _ _ => tracked_readRow) (tracked_init banned) h

/-! ## A thread that only uses up time -/

namespace FerretProcess

open AddCall

/-- Calls whose jiffies grow, with frequencies that are not negative, only add megacycles. -/
theorem mcyc_nonneg_addCalls {p : FerretProcess} {calls : List AddCall} (hfirst : p.first ≠ 0)
    (hperiod : 0 ≤ p.jiffyPeriod) (hmcyc : ∀ k, 0 ≤ (p.mcyc.find? k).getD 0)
    (hchain : List.IsChain (· ≤ ·) (p.jiffies :: calls.map AddCall.jiffies))
    (hfits : ∀ e ∈ increments p.jiffies calls, IsInt32 e.2) (hfreq : ∀ c ∈ calls, 0 ≤ c.freq)
    (k : Str) : 0 ≤ ((p.addCalls calls).mcyc.find? k).getD 0 := by
  induction calls generalizing p with
  | nil => exact hmcyc k
  | cons c calls ih =>
    obtain ⟨hle, hrest⟩ := List.isChain_cons_cons.mp hchain
    obtain ⟨hfit, hfitsRest⟩ := List.forall_mem_cons.mp hfits
    obtain ⟨hfreqc, hfreqRest⟩ := List.forall_mem_cons.mp hfreq
    have hadd : p.add c.label c.ts c.jiffies c.freq c.cpuNr =
        { p with
          label := c.label
          last := c.ts
          jiffies := c.jiffies
          totJiffiesAllCpus := int32 (p.totJiffiesAllCpus + (c.jiffies - p.jiffies))
          totJiffies := p.totJiffies.insert (toChars c.cpuNr)
            (int32 ((p.totJiffies.find? (toChars c.cpuNr)).getD 0 + (c.jiffies - p.jiffies)))
          mcyc := if c.freq ≠ 0 then
              p.mcyc.insert (toChars c.cpuNr) ((p.mcyc.find? (toChars c.cpuNr)).getD 0 +
                ((c.jiffies - p.jiffies : Int) : ℚ) * p.jiffyPeriod * c.freq)
            else p.mcyc } := by
      rw [add, if_neg hfirst, (int32_eq_iff _).mpr hfit]
    have hmore : 0 ≤ ((c.jiffies - p.jiffies : Int) : ℚ) * p.jiffyPeriod * c.freq :=
      mul_nonneg (mul_nonneg (Int.cast_nonneg (sub_nonneg.mpr hle)) hperiod) hfreqc
    rw [addCalls, List.foldl_cons, hadd]
    refine ih hfirst hperiod (fun j => ?_) hrest hfitsRest hfreqRest
    dsimp only
    split_ifs
    · rw [OrdMap.find?_insert]
      split_ifs
      · exact add_nonneg (hmcyc _) hmore
      · exact hmcyc j
    · exact hmcyc j

/-- The process after calls whose jiffies grow by no more than an `int` holds. -/
structure Used (p : FerretProcess) (tick : Int) (start : AddCall) (calls : List AddCall) :
    Prop where
  period : p.jiffyPeriod = 1 / tick
  active : p.activeJiffies = lastJiffies start.jiffies calls - start.jiffies
  duration : p.duration = (calls.getLastD start).ts - start.ts
  mcyc : ∀ k, 0 ≤ (p.mcyc.find? k).getD 0

theorem used_addCalls {tick : Int} {cpus : List Int} {start : AddCall} {calls : List AddCall}
    (htick : 0 < tick) (hts : start.ts ≠ 0) (hcpus : ∀ c ∈ start :: calls, c.cpuNr ∈ cpus)
    (hchain : List.IsChain (· ≤ ·) (start.jiffies :: calls.map AddCall.jiffies))
    (hle : lastJiffies start.jiffies calls - start.jiffies ≤ 2147483647)
    (hfreq : ∀ c ∈ start :: calls, 0 ≤ c.freq) :
    ((new tick cpus).addCalls (start :: calls)).Used tick start calls := by
  have hfits := noOverflow_of_isChain hchain hle
  obtain ⟨hsum, hduration, -⟩ := @summed_calls tick cpus start calls hts hcpus hfits
  refine ⟨hsum.period, ?_, hduration, fun k => ?_⟩
  · rw [activeJiffies, hsum.all, total_start, total_eq]
  · have hready : (new tick cpus).addCalls (start :: calls) =
        ({ new tick cpus with first := start.ts, jiffies := start.jiffies } :
          FerretProcess).addCalls (start :: calls) := by
      rw [addCalls, addCalls, List.foldl_cons, List.foldl_cons, add_first rfl _ hts]
    rw [hready]
    refine mcyc_nonneg_addCalls hts ?_ (fun j => ?_) ?_ ?_ hfreq k
    · exact one_div_nonneg.mpr (Int.cast_nonneg (le_of_lt htick))
    · have hzero : ∀ (cpus : List Int) (m : OrdMap Str ℚ), (∀ j, 0 ≤ (m.find? j).getD 0) →
          ∀ j, 0 ≤ ((cpus.foldl (fun m i => m.insert (toChars i) 0) m).find? j).getD 0 := by
        intro cpus
        induction cpus with
        | nil => exact fun _ hm => hm
        | cons cpu cpus ih =>
          intro m hm
          rw [List.foldl_cons]
          refine ih _ fun j => ?_
          rw [OrdMap.find?_insert]
          split_ifs
          · exact le_refl 0
          · exact hm j
      exact hzero cpus ∅ (fun _ => le_refl 0) j
    · rw [List.map_cons]
      exact List.isChain_cons_cons.mpr ⟨le_refl _, hchain⟩
    · exact (noOverflow_start hfits _ List.prefix_rfl).1

variable {p : FerretProcess} {tick : Int} {start : AddCall} {calls : List AddCall}

/-- A thread that has used up time has a summary, with megacycles that are not negative. -/
theorem Used.summary (h : p.Used tick start calls) (htick : 0 < tick)
    (hactive : 0 < p.totJiffiesAllCpus) (pid : Str) :
    ∃ s, p.summary pid = some s ∧ s.pid = pid ∧ 0 ≤ s.mcycSum := by
  have hne : p.jiffyPeriod * p.totJiffiesAllCpus ≠ 0 := by
    rw [h.period]
    have htick' : (0 : ℚ) < tick := Int.cast_pos.mpr htick
    have hactive' : (0 : ℚ) < p.totJiffiesAllCpus := Int.cast_pos.mpr hactive
    exact ne_of_gt (mul_pos (one_div_pos.mpr htick') hactive')
  rw [FerretProcess.summary, if_neg hne]
  refine ⟨_, rfl, rfl, List.sum_nonneg fun m hm => ?_⟩
  obtain ⟨k, -, rfl⟩ := List.mem_map.mp hm
  exact h.mcyc k

end FerretProcess

/-! ## What is selected -/

/-- What the samples of a trace satisfy: times are positive and frequencies are not negative, the
    jiffies of a thread never decrease, and neither they nor what they grow by leave the range of an
    `int`. -/
structure Steady (samples : List Sample) : Prop where
  time : ∀ s ∈ samples, 0 < s.time.getD 0
  freq : ∀ s ∈ samples, ∀ e ∈ (s.cpu.getD ∅).entries, 0 ≤ e.2
  fits : ∀ pid, ∀ n ∈ samples.filterMap (jiffiesOf pid), IsInt32 n
  grows : ∀ pid, (samples.filterMap (jiffiesOf pid)).Pairwise fun m n =>
    m ≤ n ∧ n - m ≤ 2147483647

/-- The time from the first to the last sample. -/
def traceSpan (samples : List Sample) : ℚ :=
  (samples.getLast?.bind Sample.time).getD 0 - (samples.head?.bind Sample.time).getD 0

/-- From its first to its last sample under a name that is not banned, a pid has used up jiffies,
    and more than a hundredth of the time of the trace has passed. -/
def IsSignificant (banned : List Str) (samples : List Sample) (pid : Str) : Prop :=
  ∃ start calls, callsOf banned pid samples = start :: calls ∧
    0 < AddCall.lastJiffies start.jiffies calls - start.jiffies ∧
    1 / 100 * traceSpan samples < (calls.getLastD start).ts - start.ts

/-- The results have each significant thread once, with the sum of the megacycles, the most of them
    and the index of a thread that has the most. -/
structure SelectsMain (banned : List Str) (samples : List Sample) (r : Results) : Prop where
  pids : ∀ pid, pid ∈ r.processResults.map Summary.pid ↔ IsSignificant banned samples pid
  once : (r.processResults.map Summary.pid).Nodup
  sum : r.megacyclesSum = (r.processResults.map Summary.mcycSum).sum
  none : r.processResults = [] → r.mainThreadMegacycles = 0
  le : ∀ s ∈ r.processResults, s.mcycSum ≤ r.mainThreadMegacycles
  main : r.processResults ≠ [] → ∃ s, r.processResults[r.mainThreadIndex]? = some s ∧
    s.mcycSum = r.mainThreadMegacycles

section steady

variable {banned : List Str} {st : Postprocess}

/-- The calls for a pid, in a steady trace. -/
theorem Steady.calls {samples : List Sample} (h : Steady samples) (banned : List Str) (pid : Str) :
    (∀ c ∈ callsOf banned pid samples, 0 < c.ts ∧ 0 ≤ c.freq) ∧
      ((callsOf banned pid samples).map AddCall.jiffies).Pairwise fun m n =>
        m ≤ n ∧ n - m ≤ 2147483647 := by
  have hcall : ∀ s ∈ samples, ∀ c, callOf banned pid s = some c →
      0 < c.ts ∧ 0 ≤ c.freq ∧ jiffiesOf pid s = some c.jiffies := by
    intro s hs c hc
    obtain ⟨info, hinfo, hc⟩ := Option.bind_eq_some_iff.mp hc
    rw [callFor] at hc
    split_ifs at hc
    cases hc
    have hjiffies : jiffiesOf pid s = some (ustimeOf info) := by
      rw [jiffiesOf, hinfo]
      rfl
    have hfit := h.fits pid (ustimeOf info) (List.mem_filterMap.mpr ⟨s, hs, hjiffies⟩)
    refine ⟨h.time s hs, ?_, ?_⟩
    · dsimp only
      cases hfind : (s.cpu.getD ∅).find?
          (toChars (StatValue.asInt (info.find? "processor".toList))) with
      | none => exact le_refl 0
      | some freq => exact h.freq s hs _ (OrdMap.find?_eq_some_iff.mp hfind)
    · rw [hjiffies, (int32_eq_iff _).mpr hfit]
  constructor
  · intro c hc
    obtain ⟨s, hs, hc⟩ := List.mem_filterMap.mp hc
    exact ⟨(hcall s hs c hc).1, (hcall s hs c hc).2.1⟩
  · refine List.Pairwise.sublist ?_ (h.grows pid)
    clear h
    induction samples with
    | nil => exact List.Sublist.refl _
    | cons s samples ih =>
      have hrest := ih fun s' hs' => hcall s' (List.mem_cons_of_mem _ hs')
      rw [callsOf, List.filterMap_cons]
      cases hc : callOf banned pid s with
      | none =>
        refine hrest.trans ?_
        rw [List.filterMap_cons]
        cases jiffiesOf pid s with
        | none => exact List.Sublist.refl _
        | some n => exact List.sublist_cons_self _ _
      | some c =>
        rw [List.filterMap_cons, (hcall s List.mem_cons_self c hc).2.2]
        exact hrest.cons_cons _

/-- The entries of the history, in a steady trace. -/
theorem Tracked.used (inv : Tracked banned st) (hsteady : Steady st.delivered)
    (htick : 0 < st.tick) {pid : Str} {p : FerretProcess}
    (h : st.pidHistory.find? pid = some p) :
    ∃ start calls, callsOf banned pid st.delivered = start :: calls ∧
      p.Used st.tick start calls := by
  obtain ⟨hcalls, hgrows⟩ := hsteady.calls banned pid
  have hplaced := inv.placed pid
  rw [inv.history pid] at h
  cases hlist : callsOf banned pid st.delivered with
  | nil =>
    rw [hlist] at h
    cases h
  | cons start calls =>
    rw [hlist] at h hcalls hgrows hplaced
    cases h
    have hchain : List.IsChain (· ≤ ·) (start.jiffies :: calls.map AddCall.jiffies) :=
      List.Pairwise.isChain (hgrows.imp fun hmn => hmn.1)
    have hle : AddCall.lastJiffies start.jiffies calls - start.jiffies ≤ 2147483647 := by
      rcases List.eq_nil_or_concat calls with rfl | ⟨front, last, rfl⟩
      · simp [AddCall.lastJiffies]
      · have hmem : last.jiffies ∈ (front.concat last).map AddCall.jiffies := by simp
        have hlast := List.rel_of_pairwise_cons hgrows hmem
        rw [AddCall.lastJiffies, List.concat_eq_append, List.foldl_concat]
        exact hlast.2
    exact ⟨start, calls, rfl, FerretProcess.used_addCalls htick
      (ne_of_gt (hcalls start List.mem_cons_self).1) hplaced hchain hle fun c hc =>
        (hcalls c hc).2⟩

/-- A thread is kept if and only if it is significant. -/
theorem Tracked.keeps_iff (inv : Tracked banned st) {pid : Str} {p : FerretProcess}
    {start : AddCall} {calls : List AddCall}
    (hcalls : callsOf banned pid st.delivered = start :: calls)
    (hused : p.Used st.tick start calls) :
    st.keeps p ↔ IsSignificant banned st.delivered pid := by
  have hactive : p.totJiffiesAllCpus = AddCall.lastJiffies start.jiffies calls - start.jiffies :=
    hused.active
  have hspan : st.traceEnd - st.traceStart = traceSpan st.delivered := by
    rw [inv.traceEnd, inv.traceStart, traceSpan]
  rw [Postprocess.keeps, hactive, hused.duration, hspan, IsSignificant]
  constructor
  · rintro ⟨hpos, hlong⟩
    exact ⟨start, calls, hcalls, hpos, hlong⟩
  · rintro ⟨start', calls', hcalls', hpos, hlong⟩
    rw [hcalls] at hcalls'
    cases hcalls'
    exact ⟨hpos, hlong⟩

/-- The results are the summaries of the significant threads, in the order of the history. -/
theorem Tracked.summaries (inv : Tracked banned st) (hsteady : Steady st.delivered)
    (htick : 0 < st.tick) :
    st.summaries.map Summary.pid =
        (st.pidHistory.entries.filter fun e => st.keeps e.2).map Prod.fst ∧
      ∀ s ∈ st.summaries, 0 ≤ s.mcycSum := by
  have hentry : ∀ e ∈ st.pidHistory.entries, st.keeps e.2 →
      ∃ s, e.2.summary e.1 = some s ∧ s.pid = e.1 ∧ 0 ≤ s.mcycSum := by
    intro e he hkeeps
    obtain ⟨start, calls, -, hused⟩ :=
      inv.used hsteady htick (OrdMap.find?_eq_some_iff.mpr he)
    exact hused.summary htick hkeeps.1 e.1
  rw [Postprocess.summaries]
  generalize st.pidHistory.entries = es at hentry
  induction es with
  | nil => exact ⟨rfl, fun s hs => absurd hs List.not_mem_nil⟩
  | cons e es ih =>
    obtain ⟨hpids, hnonneg⟩ := ih fun e' he' => hentry e' (List.mem_cons_of_mem _ he')
    rw [List.filterMap_cons, List.filter_cons]
    by_cases hkeeps : st.keeps e.2
    · obtain ⟨s, hs, hpid, hmcyc⟩ := hentry e List.mem_cons_self hkeeps
      rw [if_pos hkeeps, hs, if_pos (decide_eq_true hkeeps), List.map_cons, List.map_cons, hpids,
        hpid]
      exact ⟨rfl, List.forall_mem_cons.mpr ⟨hmcyc, hnonneg⟩⟩
    · rw [if_neg hkeeps, if_neg (by simpa using hkeeps)]
      exact ⟨hpids, hnonneg⟩

/-- A pid is significant if and only if its thread is in the history and kept. -/
theorem Tracked.significant_iff (inv : Tracked banned st) (hsteady : Steady st.delivered)
    (htick : 0 < st.tick) (pid : Str) :
    IsSignificant banned st.delivered pid ↔
      ∃ p, st.pidHistory.find? pid = some p ∧ st.keeps p := by
  constructor
  · intro h
    obtain ⟨start, calls, hcalls, -, -⟩ := id h
    have hfind := inv.history pid
    rw [hcalls] at hfind
    obtain ⟨start', calls', hcalls', hused⟩ := inv.used hsteady htick hfind
    exact ⟨_, hfind, (inv.keeps_iff hcalls' hused).mpr h⟩
  · rintro ⟨p, hfind, hkeeps⟩
    obtain ⟨start, calls, hcalls, hused⟩ := inv.used hsteady htick hfind
    exact (inv.keeps_iff hcalls hused).mp hkeeps

end steady

/-- In a steady trace with a positive tick rate, the results have exactly the significant threads,
    and the index is that of a thread with the most megacycles. -/
theorem selectsMain_of_steady {banned : List Str} {text : Str} {st : Postprocess}
    (h : Postprocess.readRows banned text = some st) (hdata : st.hasData = true)
    (htick : 0 < st.tick) (hsteady : Steady st.delivered) :
    ∃ r, postprocessFerretData banned text = some r ∧ SelectsMain banned st.delivered r := by
  have inv := tracked_readRows h
  have hcorrect := st.correct_select
  have hresults : st.select.results = st.summaries := by
    rw [st.select_eq, Selection.foldl_append]
  obtain ⟨hpids, hnonneg⟩ := inv.summaries hsteady htick
  rw [← hresults] at hpids hnonneg
  refine ⟨_, postprocessFerretData_eq h hdata, ?_⟩
  constructor
  · intro pid
    rw [inv.significant_iff hsteady htick, hpids, List.mem_map]
    constructor
    · rintro ⟨e, he, rfl⟩
      obtain ⟨hmem, hkeeps⟩ := List.mem_filter.mp he
      exact ⟨e.2, OrdMap.find?_eq_some_iff.mpr hmem, of_decide_eq_true hkeeps⟩
    · rintro ⟨p, hfind, hkeeps⟩
      exact ⟨(pid, p), List.mem_filter.mpr ⟨OrdMap.find?_eq_some_iff.mp hfind,
        decide_eq_true hkeeps⟩, rfl⟩
  · dsimp only
    rw [hpids]
    exact List.Nodup.sublist (List.filter_sublist.map Prod.fst) st.pidHistory.keys_nodup
  · exact hcorrect.sum
  · intro hnil
    dsimp only at hnil ⊢
    rcases hcorrect.index with ⟨hmax, -⟩ | ⟨s, hs, -⟩
    · exact hmax
    · rw [hnil] at hs
      cases hs
  · exact hcorrect.le
  · intro hne
    dsimp only at hne ⊢
    rcases hcorrect.index with ⟨hmax, hindex⟩ | hmain
    · -- no thread has more than 0, so the first one has the most
      obtain ⟨s, rest, hlist⟩ := List.exists_cons_of_ne_nil hne
      have hmem : s ∈ st.select.results := by
        rw [hlist]
        exact List.mem_cons_self
      have hle := hcorrect.le s hmem
      rw [hmax] at hle ⊢
      rw [hindex, hlist]
      exact ⟨s, rfl, le_antisymm hle (hnonneg s hmem)⟩
    · exact hmain

/-! ## A short trace -/

/-- A trace with three delivered samples. Thread 6 uses three times as many jiffies as thread 5, and
    thread 7 ends after less than a hundredth of the time. -/
def shortTrace (tick : Int) : Str :=
  "I _SC_CLK_TCK ".toList ++ toChars tick ++ "\nI CPUList 0\n".toList ++
    "I Status pid comm utime stime processor\n".toList ++
    "T 1000000\nF 0 1000000\nS 5 (a) 0 0 0\nS 6 (a) 0 0 0\nS 7 (a) 0 0 0\n".toList ++
    "T 1005000\nF 0 1000000\nS 5 (a) 1 0 0\nS 6 (a) 1 0 0\nS 7 (a) 4 1 0\n".toList ++
    "T 2000000\nF 0 1000000\nS 5 (a) 7 3 0\nS 6 (a) 20 10 0\nT 3000000\n".toList

/-- The fields of a thread of that trace. -/
def shortInfo (pid utime stime : Int) : OrdMap Str StatValue :=
  [("pid".toList, .int pid), ("comm".toList, .text ['a']), ("utime".toList, .int utime),
    ("stime".toList, .int stime), ("processor".toList, .int 0)].foldl
      (fun m f => m.insert f.1 f.2) ∅

/-- A sample of that trace. -/
def shortSample (time : ℚ) (threads : List (Str × OrdMap Str StatValue)) : Sample where
  time := some time
  pid := some (threads.foldl (fun m t => m.insert t.1 t.2) ∅)
  cpu := some ((∅ : OrdMap Str ℚ).insert ['0'] 1000)

def shortSamples : List Sample :=
  [shortSample 1 [(['5'], shortInfo 5 0 0), (['6'], shortInfo 6 0 0), (['7'], shortInfo 7 0 0)],
    shortSample (201 / 200)
      [(['5'], shortInfo 5 1 0), (['6'], shortInfo 6 1 0), (['7'], shortInfo 7 4 1)],
    shortSample 2 [(['5'], shortInfo 5 7 3), (['6'], shortInfo 6 20 10)]]

theorem readRows_shortTrace {tick : Int} (h : tick ∈ [(100 : Int), -100]) :
    ∃ st, Postprocess.readRows [] (shortTrace tick) = some st ∧ st.hasData = true ∧
      st.tick = tick ∧ st.delivered = shortSamples := by
  have hrun : ∀ tick ∈ [(100 : Int), -100], (Postprocess.readRows [] (shortTrace tick)).map
      (fun st => (st.hasData, st.tick, st.delivered)) = some (true, tick, shortSamples) := by
    decide +kernel
  obtain ⟨st, hst, hfields⟩ := Option.map_eq_some_iff.mp (hrun tick h)
  simp only [Prod.mk.injEq] at hfields
  exact ⟨st, hst, hfields⟩

theorem steady_short : Steady shortSamples := by
  have hother : ∀ pid, ¬ (pid = ['5'] ∨ pid = ['6'] ∨ pid = ['7']) →
      shortSamples.filterMap (jiffiesOf pid) = [] := by
    intro pid hpid
    rw [not_or, not_or] at hpid
    simp [shortSamples, shortSample, jiffiesOf, OrdMap.find?_insert, hpid, OrdMap.find?_empty]
  refine ⟨by decide +kernel, by decide, fun pid => ?_, fun pid => ?_⟩
  all_goals by_cases hpid : pid = ['5'] ∨ pid = ['6'] ∨ pid = ['7']
  · rcases hpid with rfl | rfl | rfl <;> decide
  · rw [hother pid hpid]
    exact fun n hn => absurd hn List.not_mem_nil
  · rcases hpid with rfl | rfl | rfl <;> decide
  · rw [hother pid hpid]
    exact List.Pairwise.nil

/-- Two of the threads are reported, and the second one has the most megacycles. -/
theorem selectsMain_shortTrace :
    ∃ r, postprocessFerretData [] (shortTrace 100) = some r ∧
      (r.processResults.map Summary.pid, r.mainThreadIndex) = ([['5'], ['6']], 1) ∧
      SelectsMain [] shortSamples r := by
  obtain ⟨st, hst, hdata, htick, hdelivered⟩ := @readRows_shortTrace 100 (by decide)
  have hsteady : Steady st.delivered := by
    rw [hdelivered]
    exact steady_short
  have hresult : (postprocessFerretData [] (shortTrace 100)).map (fun r =>
      (r.processResults.map Summary.pid, r.mainThreadIndex)) = some ([['5'], ['6']], 1) := by
    decide +kernel
  obtain ⟨r, hr, hselects⟩ := selectsMain_of_steady hst hdata (by rw [htick]; decide) hsteady
  rw [hr] at hresult
  rw [hdelivered] at hselects
  exact ⟨r, hr, Option.some.inj hresult, hselects⟩

/-- With a negative tick rate the threads have fewer than no megacycles, and the one that is
    reported as having the most has not as many as is said. -/
theorem not_selectsMain_negativeTick :
    ¬ ∀ (banned : List Str) (text : Str) (st : Postprocess),
      Postprocess.readRows banned text = some st → st.hasData = true → Steady st.delivered →
        ∃ r, postprocessFerretData banned text = some r ∧ SelectsMain banned st.delivered r := by
  intro hall
  obtain ⟨st, hst, hdata, -, hdelivered⟩ := @readRows_shortTrace (-100) (by decide)
  have hsteady : Steady st.delivered := by
    rw [hdelivered]
    exact steady_short
  obtain ⟨r, hr, hselects⟩ := hall [] _ st hst hdata hsteady
  have hresult : (postprocessFerretData [] (shortTrace (-100))).map (fun r =>
      (r.mainThreadIndex, r.mainThreadMegacycles, r.processResults.map Summary.mcycSum)) =
        some (0, 0, [-100, -300]) := by
    decide +kernel
  rw [hr, Option.map_some, Option.some.injEq, Prod.mk.injEq, Prod.mk.injEq] at hresult
  obtain ⟨hindex, hmax, hmcyc⟩ := hresult
  obtain ⟨s, rest, hlist, hfirst, -⟩ := List.map_eq_cons_iff.mp hmcyc
  obtain ⟨s', hs', hmain⟩ := hselects.main (by rw [hlist]; exact List.cons_ne_nil _ _)
  rw [hindex, hlist] at hs'
  cases hs'
  rw [hmax, hfirst] at hmain
  exact absurd hmain (by decide)

end LibCollector.Ferret
