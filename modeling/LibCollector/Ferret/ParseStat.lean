import LibCollector.Misc.Text
import Mathlib.Data.List.Forall2

/-!
# `parse_stat`

The scanner of `src/collectors/ferret.cpp` that takes the fields of `pid_stat_spec`
out of a `/proc/<pid>/task/<tid>/stat` line. It rewrites the buffer in place
(spaces of the `comm` field become underscores, other spaces become NUL), records
where each wanted field begins, and reads the recorded fields as C strings in the
end. `pid_stat_spec[match_count]` is also evaluated when every field has matched;
what lies behind the table is taken to match no field.
-/

namespace LibCollector.Ferret

open LibCollector.Misc

/-- `pid_stat_spec`: the label and the number of each field to capture. -/
def pidStatSpec : List (Str × Nat) :=
  [("pid".toList, 0), ("comm".toList, 1), ("ppid".toList, 3), ("utime".toList, 13),
    ("stime".toList, 14), ("cutime".toList, 15), ("cstime".toList, 16),
    ("num_threads".toList, 19), ("starttime".toList, 21), ("processor".toList, 38)]

/-- The field numbers of `pid_stat_spec`. -/
def wantedFields : List Nat := pidStatSpec.map Prod.snd

/-- `FIELD_COMM`. -/
def fieldComm : Nat := 1

/-- The local variables of `parse_stat`: the buffer up to `s` as it has been rewritten, and the
    positions pushed onto `fields`. -/
structure ScanState where
  buf : Str
  fields : List Nat
  fieldCount : Nat
  matchCount : Nat
  inField : Bool
  currField : Nat
  deriving DecidableEq

namespace ScanState

/-- The state the scan of a buffer starts from. -/
def init : ScanState := ⟨[], [], 0, 0, false, 0⟩

/-- A closing parenthesis ends the `comm` field. -/
def closeComm (st : ScanState) (c : Char) : ScanState :=
  if st.inField = true ∧ st.currField = fieldComm ∧ c = ')' then
    { st with currField := st.fieldCount }
  else st

/-- The first character of a field: count the field and record it if it is wanted. -/
def openField (st : ScanState) : ScanState :=
  if st.inField = true then st
  else
    let st := { st with
      inField := true
      currField := if st.fieldCount = 1 then st.fieldCount else st.currField }
    let st := if wantedFields[st.matchCount]? = some st.fieldCount then
      { st with fields := st.fields ++ [st.buf.length], matchCount := st.matchCount + 1 } else st
    { st with fieldCount := st.fieldCount + 1 }

/-- The body of the scan loop for the character `c`. -/
def step (st : ScanState) (c : Char) : ScanState :=
  if c = ' ' then
    if st.currField = fieldComm then { st with buf := st.buf ++ ['_'] }
    else { st with buf := st.buf ++ ['\x00'], inField := false }
  else
    let st := (st.closeComm c).openField
    { st with buf := st.buf ++ [c] }

/-- The scan loop, with what it leaves of the buffer. -/
def scan : ScanState → Str → ScanState × Str
  | st, [] => (st, [])
  | st, c :: cs =>
    if st.matchCount ≤ pidStatSpec.length ∧ c ≠ '\x00' ∧ c ≠ '\n' then scan (st.step c) cs
    else (st, c :: cs)

end ScanState

open ScanState

/-- The fields `parse_stat` takes out of `buf`. -/
def parseStatFields (buf : Str) : List Str :=
  let (st, rest) := scan init buf
  st.fields.map fun pos => cstr ((st.buf ++ rest).drop pos)

/-- What `parse_stat` appends to `row`. -/
def parseStat (buf : Str) : Str := (parseStatFields buf).flatMap (' ' :: ·)

/-! ## The states of the scan -/

/-- The scan within a field of which it has read `text`. -/
def insideField (st : ScanState) (text : Str) (curr : Nat) : ScanState where
  buf := st.buf ++ text
  fields := st.fields ++
    if wantedFields[st.matchCount]? = some st.fieldCount then [st.buf.length] else []
  fieldCount := st.fieldCount + 1
  matchCount := st.matchCount +
    if wantedFields[st.matchCount]? = some st.fieldCount then 1 else 0
  inField := true
  currField := curr

/-- The scan once the field `text` and the space after it are behind it. -/
def afterField (st : ScanState) (text : Str) (curr : Nat) : ScanState :=
  { insideField st text curr with buf := st.buf ++ text ++ ['\x00'], inField := false }

/-! ## One character -/

section step

variable {st : ScanState} {c : Char}

/-- A character inside a field. -/
theorem step_inside (hin : st.inField = true) (hc : c ≠ ' ') : st.step c =
    { st with
      buf := st.buf ++ [c]
      currField :=
        if st.currField = fieldComm ∧ c = ')' then st.fieldCount else st.currField } := by
  by_cases hclose : st.currField = fieldComm ∧ c = ')' <;>
    simp [step, closeComm, openField, hc, hin, hclose]

/-- The first character of a field. -/
theorem step_opens (hin : st.inField = false) (hc : c ≠ ' ') : st.step c =
    insideField st [c] (if st.fieldCount = 1 then 1 else st.currField) := by
  have hcurr : (if st.fieldCount = 1 then st.fieldCount else st.currField) =
      if st.fieldCount = 1 then 1 else st.currField := by
    split_ifs with hone
    · exact hone
    · rfl
  by_cases hwant : wantedFields[st.matchCount]? = some st.fieldCount <;>
    simp [step, closeComm, openField, insideField, hc, hin, hwant, hcurr]

/-- Outside `comm`, a space ends the field. -/
theorem step_space (hcurr : st.currField ≠ fieldComm) :
    st.step ' ' = { st with buf := st.buf ++ ['\x00'], inField := false } := by
  simp [step, hcurr]

/-- A space inside `comm`. -/
theorem step_underscore (hcurr : st.currField = fieldComm) :
    st.step ' ' = { st with buf := st.buf ++ ['_'] } := by
  simp [step, hcurr]

end step

/-! ## One word of a line -/

/-- Inside a field that is not `comm`, a character other than a space is kept. -/
theorem foldl_step_inside {st : ScanState} (hin : st.inField = true)
    (hcurr : st.currField ≠ fieldComm) {w : Str} (hw : ' ' ∉ w) :
    w.foldl step st = { st with buf := st.buf ++ w } := by
  induction w generalizing st with
  | nil => simp
  | cons c w ih =>
    obtain ⟨hc, hw⟩ := not_or.mp (List.mem_cons.not.mp hw)
    have hstep : st.step c = { st with buf := st.buf ++ [c] } := by
      rw [step_inside hin (Ne.symm hc), if_neg fun hclose => hcurr hclose.1]
    rw [List.foldl_cons, hstep, @ih { st with buf := st.buf ++ [c] } hin hcurr hw]
    simp

/-- A word that is not `comm` and the space that ends it. -/
theorem foldl_step_word {st : ScanState} (hin : st.inField = false)
    (hcurr : st.currField ≠ fieldComm) (hcount : st.fieldCount ≠ 1) {w : Str} (hne : w ≠ [])
    (hw : ' ' ∉ w) :
    (w ++ [' ']).foldl step st = afterField st w st.currField := by
  obtain ⟨c, w, rfl⟩ := List.exists_cons_of_ne_nil hne
  obtain ⟨hc, hw⟩ := not_or.mp (List.mem_cons.not.mp hw)
  simp only [List.foldl_append, List.foldl_cons, List.foldl_nil]
  rw [step_opens hin (Ne.symm hc), if_neg hcount,
    @foldl_step_inside (insideField st [c] st.currField) rfl hcurr w hw, step_space]
  · simp [afterField, insideField]
  · exact hcurr

/-- `comm` as it is rewritten: spaces become underscores. -/
def underscores (comm : Str) : Str := comm.map fun c => if c = ' ' then '_' else c

/-- Inside `comm`, every character up to the closing parenthesis is kept but spaces. -/
theorem foldl_step_comm {st : ScanState} (hin : st.inField = true)
    (hcurr : st.currField = fieldComm) {comm : Str} (hcomm : ')' ∉ comm) :
    comm.foldl step st = { st with buf := st.buf ++ underscores comm } := by
  induction comm generalizing st with
  | nil => simp [underscores]
  | cons c comm ih =>
    obtain ⟨hc, hcomm⟩ := not_or.mp (List.mem_cons.not.mp hcomm)
    have hstep : st.step c = { st with buf := st.buf ++ [if c = ' ' then '_' else c] } := by
      by_cases hspace : c = ' '
      · rw [if_pos hspace, hspace, step_underscore hcurr]
      · rw [if_neg hspace, step_inside hin hspace, if_neg fun hclose => hc hclose.2.symm]
    rw [List.foldl_cons, hstep,
      @ih { st with buf := st.buf ++ [if c = ' ' then '_' else c] } hin hcurr hcomm]
    simp [underscores]

/-- The second field of a line, `comm` in its parentheses, and the space that ends it. -/
theorem foldl_step_parens {st : ScanState} (hin : st.inField = false) (hcount : st.fieldCount = 1)
    {comm : Str} (hcomm : ')' ∉ comm) :
    ('(' :: comm ++ [')', ' ']).foldl step st =
      afterField st ('(' :: underscores comm ++ [')']) 2 := by
  have hopen : st.step '(' = insideField st ['('] fieldComm := by
    rw [step_opens hin (by decide), if_pos hcount]
    rfl
  have hclose : ∀ st' : ScanState, st'.inField = true → st'.currField = fieldComm →
      st'.fieldCount = 2 → (st'.step ')').step ' ' =
        { st' with buf := st'.buf ++ [')', '\x00'], inField := false, currField := 2 } := by
    intro st' hin' hcurr' hcount'
    rw [step_inside hin' (by decide), if_pos ⟨hcurr', rfl⟩, hcount', step_space]
    · simp
    · show 2 ≠ fieldComm
      decide
  simp only [List.foldl_append, List.foldl_cons, List.foldl_nil]
  rw [hopen, @foldl_step_comm (insideField st ['('] fieldComm) rfl rfl comm hcomm,
    hclose _ rfl rfl (by simp [insideField, hcount])]
  simp [afterField, insideField]

/-! ## A whole line -/

/-- The words that the scan records from field `k` on, when the fields `wanted` are still to
    come. -/
def pick : Nat → List Nat → List Str → List Str
  | _, _, [] => []
  | k, wanted, w :: ws =>
    if wanted.head? = some k then w :: pick (k + 1) wanted.tail ws else pick (k + 1) wanted ws

/-- With the wanted fields in ascending order, each of them is picked once. -/
theorem pick_eq_map {k : Nat} {wanted : List Nat} {ws : List Str}
    (hsorted : (k :: wanted).Pairwise (· ≤ ·)) (hstrict : wanted.Pairwise (· < ·))
    (hlen : ∀ f ∈ wanted, f < k + ws.length) :
    pick k wanted ws = wanted.map fun f => ws.getD (f - k) [] := by
  induction ws generalizing k wanted with
  | nil =>
    cases wanted with
    | nil => rfl
    | cons f wanted =>
      have hle := (List.pairwise_cons.mp hsorted).1 f List.mem_cons_self
      have hlt := hlen f List.mem_cons_self
      simp at hlt
      omega
  | cons w ws ih =>
    cases wanted with
    | nil => simpa [pick] using @ih (k + 1) [] (by simp) (by simp) (by simp)
    | cons f wanted =>
      obtain ⟨hk, hsorted'⟩ := List.pairwise_cons.mp hsorted
      obtain ⟨hf, hstrict'⟩ := List.pairwise_cons.mp hstrict
      have hlater : ∀ g ∈ wanted, k + 1 ≤ g := fun g hg =>
        Nat.lt_of_le_of_lt (hk f List.mem_cons_self) (hf g hg)
      have hshift : ∀ g, k + 1 ≤ g → (w :: ws).getD (g - k) [] = ws.getD (g - (k + 1)) [] := by
        intro g hg
        rw [show g - k = (g - (k + 1)) + 1 by omega, List.getD_cons_succ]
      have hlen' : ∀ g ∈ f :: wanted, g < k + 1 + ws.length := fun g hg => by
        have := hlen g hg
        simp at this
        omega
      by_cases hfk : f = k
      · subst hfk
        simp only [pick, List.head?_cons, if_true, List.tail_cons, List.map_cons, Nat.sub_self,
          List.getD_cons_zero]
        rw [ih (List.pairwise_cons.mpr ⟨hlater, hstrict'.imp Nat.le_of_lt⟩) hstrict'
          fun g hg => hlen' g (List.mem_cons_of_mem _ hg)]
        refine congrArg (w :: ·) (List.map_congr_left fun g hg => (hshift g (hlater g hg)).symm)
      · have hkf : k + 1 ≤ f := by
          have := hk f List.mem_cons_self
          omega
        have hall : ∀ g ∈ f :: wanted, k + 1 ≤ g := by
          intro g hg
          rcases List.mem_cons.mp hg with rfl | hg
          · exact hkf
          · exact hlater g hg
        simp only [pick, List.head?_cons, Option.some.injEq, if_neg hfk]
        rw [ih (List.pairwise_cons.mpr ⟨hall, hstrict.imp Nat.le_of_lt⟩) hstrict hlen']
        exact List.map_congr_left fun g hg => (hshift g (hall g hg)).symm

/-- The texts that stand at recorded positions of a buffer, each ended by a NUL. -/
def Recorded (buf : Str) : List Nat → List Str → Prop :=
  List.Forall₂ fun pos text =>
    '\x00' ∉ text ∧ ∃ pre post, buf = pre ++ text ++ '\x00' :: post ∧ pre.length = pos

theorem Recorded.append {buf : Str} {fields : List Nat} {texts : List Str}
    (h : Recorded buf fields texts) (more : Str) : Recorded (buf ++ more) fields texts := by
  induction h with
  | nil => exact .nil
  | cons hhead _ ih =>
    obtain ⟨hnul, pre, post, rfl, hpos⟩ := hhead
    exact .cons ⟨hnul, pre, post ++ more, by simp, hpos⟩ ih

/-- Recorded positions read back as C strings. -/
theorem Recorded.map_cstr {buf : Str} {fields : List Nat} {texts : List Str}
    (h : Recorded buf fields texts) : (fields.map fun pos => cstr (buf.drop pos)) = texts := by
  induction h with
  | nil => rfl
  | cons hhead _ ih =>
    obtain ⟨hnul, pre, post, rfl, rfl⟩ := hhead
    rw [List.map_cons, ih, List.append_assoc, List.drop_left, cstr,
      List.takeWhile_append_of_pos fun c hc => by
        simpa using fun heq : c = '\x00' => hnul (heq ▸ hc)]
    simp

/-- The words a scan has picked so far stand recorded in its buffer, and the fields still wanted
    are those of the table it has not matched. -/
structure ScanInv (st : ScanState) (picked : List Str) : Prop where
  outside : st.inField = false
  recorded : Recorded st.buf st.fields picked
  matched : st.matchCount = picked.length

theorem scanInv_init : ScanInv init [] := ⟨rfl, .nil, rfl⟩

theorem wantedFields_head? (n : Nat) : (wantedFields.drop n).head? = wantedFields[n]? := by
  rw [List.head?_drop]

/-- A field behind the scan is recorded if it is the next wanted one. -/
theorem scanInv_afterField {st : ScanState} {picked : List Str} (inv : ScanInv st picked)
    {text : Str} (hnul : '\x00' ∉ text) (curr : Nat) :
    ScanInv (afterField st text curr)
      (picked ++ if (wantedFields.drop picked.length).head? = some st.fieldCount
        then [text] else []) := by
  have hrec := inv.recorded.append (text ++ ['\x00'])
  rw [← List.append_assoc] at hrec
  rw [wantedFields_head?, ← inv.matched]
  by_cases hwant : wantedFields[st.matchCount]? = some st.fieldCount
  · refine ⟨rfl, ?_, ?_⟩
    · simp only [afterField, insideField, hwant, if_true]
      exact List.rel_append hrec (.cons ⟨hnul, st.buf, [], by simp, rfl⟩ .nil)
    · simp only [afterField, insideField, hwant, if_true, List.length_append,
        List.length_singleton]
      rw [inv.matched]
  · refine ⟨rfl, ?_, ?_⟩
    · simpa only [afterField, insideField, hwant, if_false, List.append_nil] using hrec
    · simp only [afterField, insideField, hwant, if_false, List.append_nil, Nat.add_zero]
      exact inv.matched

/-- The words after `comm`, each ended by a space. -/
theorem scanInv_words {st : ScanState} {picked : List Str} (inv : ScanInv st picked)
    (hcurr : st.currField ≠ fieldComm) (hcount : 2 ≤ st.fieldCount) (ws : List Str)
    (hws : ∀ w ∈ ws, w ≠ [] ∧ ' ' ∉ w ∧ '\x00' ∉ w) :
    ScanInv ((ws.flatMap (· ++ [' '])).foldl step st)
      (picked ++ pick st.fieldCount (wantedFields.drop picked.length) ws) := by
  induction ws generalizing st picked with
  | nil => simpa [pick] using inv
  | cons w ws ih =>
    obtain ⟨hne, hspace, hnul⟩ := hws w List.mem_cons_self
    rw [List.flatMap_cons, List.foldl_append,
      foldl_step_word inv.outside hcurr (by omega) hne hspace]
    have hrest := ih (scanInv_afterField inv hnul st.currField) hcurr
      (Nat.le_succ_of_le hcount) fun v hv => hws v (List.mem_cons_of_mem _ hv)
    have hcount' : (afterField st w st.currField).fieldCount = st.fieldCount + 1 := rfl
    rw [hcount'] at hrest
    by_cases hwant : (wantedFields.drop picked.length).head? = some st.fieldCount
    · simp only [hwant, if_true, List.length_append, List.length_singleton,
        List.append_assoc, List.singleton_append, ← List.drop_drop] at hrest
      simpa only [pick, hwant, if_true, List.tail_drop, ← List.drop_drop] using hrest
    · simpa only [pick, hwant, if_false, List.append_nil] using hrest

/-- No field matches past the end of the table. -/
theorem step_matchCount_le {st : ScanState} (h : st.matchCount ≤ wantedFields.length) (c : Char) :
    (st.step c).matchCount ≤ wantedFields.length := by
  have hclose : (st.closeComm c).matchCount = st.matchCount := by
    unfold closeComm
    split <;> rfl
  have hopen : ∀ st' : ScanState, st'.matchCount ≤ wantedFields.length →
      st'.openField.matchCount ≤ wantedFields.length := by
    intro st' h'
    unfold openField
    dsimp only
    split
    · exact h'
    · split
      · rename_i hwant
        exact (List.getElem?_eq_some_iff.mp hwant).1
      · exact h'
  unfold step
  split
  · split <;> exact h
  · exact hopen _ (hclose ▸ h)

/-- The loop runs over characters that do not end the line. -/
theorem scan_append {st : ScanState} (t rest : Str) (ht : ∀ c ∈ t, c ≠ '\x00' ∧ c ≠ '\n')
    (hmatch : st.matchCount ≤ wantedFields.length) :
    scan st (t ++ rest) = scan (t.foldl step st) rest := by
  induction t generalizing st with
  | nil => rfl
  | cons c t ih =>
    obtain ⟨hnul, hnl⟩ := ht c List.mem_cons_self
    rw [List.cons_append, scan, if_pos ⟨by simpa [wantedFields] using hmatch, hnul, hnl⟩,
      ih (fun d hd => ht d (List.mem_cons_of_mem _ hd)) (step_matchCount_le hmatch c),
      List.foldl_cons]

theorem scan_stop (st : ScanState) {c : Char} (hc : c = '\x00' ∨ c = '\n') (rest : Str) :
    scan st (c :: rest) = (st, c :: rest) := by
  rw [scan, if_neg]
  rintro ⟨-, hnul, hnl⟩
  rcases hc with rfl | rfl
  · exact hnul rfl
  · exact hnl rfl

/-- The scan only appends to the part of the buffer it has read. -/
theorem prefix_buf_step (st : ScanState) (c : Char) : st.buf <+: (st.step c).buf := by
  have hclose : (st.closeComm c).buf = st.buf := by
    unfold closeComm
    split <;> rfl
  have hopen : ∀ st' : ScanState, st'.openField.buf = st'.buf := by
    intro st'
    unfold openField
    dsimp only
    split
    · rfl
    · split <;> rfl
  unfold step
  split
  · split <;> exact List.prefix_append _ _
  · show st.buf <+: (st.closeComm c).openField.buf ++ [c]
    rw [hopen, hclose]
    exact List.prefix_append _ _

/-- Once every field of the table is matched, no more positions are recorded. -/
theorem step_of_all_matched {st : ScanState} (h : st.matchCount = wantedFields.length) (c : Char) :
    (st.step c).fields = st.fields ∧ (st.step c).matchCount = wantedFields.length := by
  have hnone : wantedFields[wantedFields.length]? = none := List.getElem?_eq_none (Nat.le_refl _)
  have hclose : (st.closeComm c).fields = st.fields ∧
      (st.closeComm c).matchCount = wantedFields.length := by
    unfold closeComm
    split <;> exact ⟨rfl, h⟩
  have hopen : ∀ st' : ScanState, st'.matchCount = wantedFields.length →
      st'.openField.fields = st'.fields ∧ st'.openField.matchCount = wantedFields.length := by
    intro st' h'
    unfold openField
    simp only [h', hnone, reduceCtorEq, if_false]
    split <;> exact ⟨rfl, by simp [h']⟩
  unfold step
  split
  · split <;> exact ⟨rfl, h⟩
  · obtain ⟨hfields, hmatch⟩ := hopen _ hclose.2
    exact ⟨hfields.trans hclose.1, hmatch⟩

/-- What stands behind the last wanted field leaves the recorded texts as they are. -/
theorem foldl_step_tail {st : ScanState} {picked : List Str} (inv : ScanInv st picked)
    (hall : picked.length = wantedFields.length) (t : Str) :
    (t.foldl step st).fields = st.fields ∧ st.buf <+: (t.foldl step st).buf := by
  have hmatch : st.matchCount = wantedFields.length := inv.matched.trans hall
  clear inv hall
  induction t generalizing st with
  | nil => exact ⟨rfl, List.prefix_rfl⟩
  | cons c t ih =>
    obtain ⟨hfields, hmatch'⟩ := step_of_all_matched hmatch c
    obtain ⟨htail, hbuf⟩ := ih hmatch'
    exact ⟨htail.trans hfields, (prefix_buf_step st c).trans hbuf⟩

/-- A field of a line that is neither the second nor the last. -/
def Word (w : Str) : Prop := w ≠ [] ∧ ∀ c ∈ w, c ≠ ' ' ∧ c ≠ '\x00' ∧ c ≠ '\n'

/-- The wanted fields behind `comm`. -/
def wantedTail : List Nat := wantedFields.drop 2

/-- The text of a stat line up to its last field: the pid, `comm` in parentheses, and fields each
    followed by a space. -/
def lineHead (pid comm : Str) (ws : List Str) : Str :=
  (pid ++ [' ']) ++ ('(' :: comm ++ [')', ' ']) ++ ws.flatMap (· ++ [' '])

theorem notMem_of_word {w : Str} (h : Word w) : ' ' ∉ w ∧ '\x00' ∉ w :=
  ⟨fun hc => (h.2 _ hc).1 rfl, fun hc => (h.2 _ hc).2.1 rfl⟩

theorem lineHead_clean {pid comm : Str} {ws : List Str} (hpid : Word pid)
    (hcomm : ∀ c ∈ comm, c ≠ '\x00' ∧ c ≠ '\n') (hws : ∀ w ∈ ws, Word w) :
    ∀ c ∈ lineHead pid comm ws, c ≠ '\x00' ∧ c ≠ '\n' := by
  intro c hc
  simp only [lineHead, List.mem_append, List.mem_cons, List.mem_flatMap, List.not_mem_nil,
    or_false] at hc
  rcases hc with ((hc | rfl) | (rfl | hc) | rfl | rfl) | ⟨w, hw, hc | rfl⟩
  · exact (hpid.2 c hc).2
  · decide
  · decide
  · exact hcomm c hc
  · decide
  · decide
  · exact ((hws w hw).2 c hc).2
  · decide

/-- The scan of a stat line picks its wanted fields. -/
theorem scanInv_lineHead {pid comm : Str} {ws : List Str} (hpid : Word pid)
    (hcomm : ∀ c ∈ comm, c ≠ '\x00') (hparen : ')' ∉ comm) (hws : ∀ w ∈ ws, Word w) :
    ScanInv ((lineHead pid comm ws).foldl step init)
      (pid :: ('(' :: underscores comm ++ [')']) :: pick 2 wantedTail ws) := by
  obtain ⟨hspace, hnul⟩ := notMem_of_word hpid
  have hnul' : '\x00' ∉ '(' :: underscores comm ++ [')'] := by
    simp only [underscores, List.mem_append, List.mem_cons, List.mem_map, List.not_mem_nil]
    rintro ((h | ⟨c, hc, h⟩) | h | h)
    · exact absurd h (by decide)
    · split at h
      · exact absurd h (by decide)
      · exact hcomm c hc h
    · exact absurd h (by decide)
    · exact h
  have hfirst := scanInv_afterField scanInv_init hnul init.currField
  have hsecond := scanInv_afterField hfirst hnul' 2
  have hcurr : (afterField (afterField init pid init.currField)
      ('(' :: underscores comm ++ [')']) 2).currField ≠ fieldComm :=
    fun h : (2 : Nat) = 1 => absurd h (by decide)
  have hrest := scanInv_words hsecond hcurr (Nat.le_refl _) ws fun w hw =>
    ⟨(hws w hw).1, notMem_of_word (hws w hw)⟩
  rw [lineHead, List.foldl_append, List.foldl_append,
    foldl_step_word rfl (by decide) (by decide) hpid.1 hspace, foldl_step_parens rfl rfl hparen]
  exact hrest

/-- `parse_stat` of a well-formed line: the ten fields of `pid_stat_spec`, `comm` with its spaces
    rewritten. The line goes on behind the last of them. -/
theorem parseStatFields_line {pid comm last : Str} {ws : List Str} (hpid : Word pid)
    (hcomm : ∀ c ∈ comm, c ≠ '\x00' ∧ c ≠ '\n') (hparen : ')' ∉ comm)
    (hws : ∀ w ∈ ws, Word w) (hlen : 37 ≤ ws.length)
    (hlast : ∀ c ∈ last, c ≠ '\x00' ∧ c ≠ '\n') {stop : Char} (hstop : stop = '\x00' ∨ stop = '\n')
    (rest : Str) :
    parseStatFields (lineHead pid comm ws ++ last ++ stop :: rest) =
      pid :: ('(' :: underscores comm ++ [')']) ::
        wantedTail.map fun f => ws.getD (f - 2) [] := by
  have hpick : pick 2 wantedTail ws = wantedTail.map fun f => ws.getD (f - 2) [] := by
    refine pick_eq_map (by decide) (by decide) fun f hf => ?_
    have hle : ∀ f ∈ wantedTail, f ≤ 38 := by decide
    have := hle f hf
    omega
  have hinv := scanInv_lineHead hpid (fun c hc => (hcomm c hc).1) hparen hws
  rw [hpick] at hinv
  obtain ⟨hfields, more, hbuf⟩ := foldl_step_tail hinv (by simp [wantedTail, wantedFields,
    pidStatSpec]) last
  have hclean : ∀ c ∈ lineHead pid comm ws ++ last, c ≠ '\x00' ∧ c ≠ '\n' := by
    intro c hc
    rcases List.mem_append.mp hc with hc | hc
    · exact lineHead_clean hpid hcomm hws c hc
    · exact hlast c hc
  rw [parseStatFields, scan_append _ _ hclean (Nat.zero_le _), scan_stop _ hstop,
    List.foldl_append]
  simp only [hfields, ← hbuf, List.append_assoc]
  exact (hinv.recorded.append _).map_cstr

/-- A stat line as the kernel writes it: fields with a space before each but the first one, and
    `comm` in parentheses. -/
def statText (pid comm : Str) (ws : List Str) : Str :=
  pid ++ ' ' :: '(' :: comm ++ ')' :: ws.flatMap (' ' :: ·)

/-- The fields of the line, with the spaces of `comm` rewritten. -/
def rewrittenFields (pid comm : Str) (ws : List Str) : List Str :=
  pid :: ('(' :: underscores comm ++ [')']) :: ws

theorem statText_concat (pid comm : Str) (ws : List Str) (last : Str) :
    statText pid comm (ws ++ [last]) = lineHead pid comm ws ++ last := by
  have hmove : ∀ ws : List Str,
      ws.flatMap (' ' :: ·) ++ ' ' :: last = ' ' :: (ws.flatMap (· ++ [' ']) ++ last) := by
    intro ws
    induction ws with
    | nil => rfl
    | cons w ws ih => simp [ih]
  simp [statText, lineHead, hmove]

/-- `parse_stat` appends a space and the field for each entry of its table. -/
theorem parseStat_statText {pid comm : Str} {ws : List Str} (hpid : Word pid)
    (hcomm : ∀ c ∈ comm, c ≠ ')' ∧ c ≠ '\x00' ∧ c ≠ '\n') (hws : ∀ w ∈ ws, Word w)
    (hcount : 40 ≤ (rewrittenFields pid comm ws).length) {stop : Char}
    (hstop : stop = '\x00' ∨ stop = '\n') (rest : Str) :
    parseStat (statText pid comm ws ++ stop :: rest) =
      [0, 1, 3, 13, 14, 15, 16, 19, 21, 38].flatMap fun f =>
        ' ' :: (rewrittenFields pid comm ws).getD f [] := by
  rcases List.eq_nil_or_concat ws with rfl | ⟨ws, last, rfl⟩
  · simp [rewrittenFields] at hcount
  rw [List.concat_eq_append] at hws hcount ⊢
  have hlen : 38 ≤ ws.length + 1 := by simpa [rewrittenFields] using hcount
  have hline := parseStatFields_line hpid (fun c hc => (hcomm c hc).2)
    (fun hparen => (hcomm _ hparen).1 rfl) (fun w hw => hws w (List.mem_append_left _ hw))
    (by omega) (fun c hc => ((hws last (by simp)).2 c hc).2) hstop rest
  have hget : ∀ f, f < 37 → (ws ++ [last]).getD f [] = ws.getD f [] := by
    intro f hf
    rw [List.getD_eq_getElem?_getD, List.getD_eq_getElem?_getD,
      List.getElem?_append_left (by omega)]
  rw [parseStat, statText_concat, hline]
  simp only [rewrittenFields, wantedTail, wantedFields, pidStatSpec, List.map_cons, List.map_nil,
    List.drop_succ_cons, List.drop_zero, List.flatMap_cons, List.flatMap_nil,
    List.getD_cons_zero, List.getD_cons_succ, Nat.reduceSub, hget 1 (by decide),
    hget 11 (by decide), hget 12 (by decide), hget 13 (by decide), hget 14 (by decide),
    hget 17 (by decide), hget 19 (by decide), hget 36 (by decide)]

/-- A line whose `comm` begins and ends with a space. -/
theorem parseStat_spaces :
    parseStat (statText ['7'] " a b ".toList (List.replicate 38 ['0']) ++ ['\n']) =
      [0, 1, 3, 13, 14, 15, 16, 19, 21, 38].flatMap fun f =>
        ' ' :: (rewrittenFields ['7'] " a b ".toList (List.replicate 38 ['0'])).getD f [] := by
  have hword : ∀ c : Char, (c ≠ ' ' ∧ c ≠ '\x00' ∧ c ≠ '\n') → Word [c] := by
    intro c hc
    refine ⟨List.cons_ne_nil _ _, fun d hd => ?_⟩
    rw [List.mem_singleton.mp hd]
    exact hc
  apply parseStat_statText (hword '7' (by decide)) (by simp)
  · intro w hw
    rw [List.eq_of_mem_replicate hw]
    exact hword '0' (by decide)
  · simp [rewrittenFields]
  · exact Or.inr rfl

end LibCollector.Ferret
