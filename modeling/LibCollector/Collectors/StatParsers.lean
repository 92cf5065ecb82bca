import LibCollector.Collectors.ProcfsStat
import LibCollector.Ferret.KernelData

/-!
# The two parsers of a stat line

`ProcFSStatCollector::parse` reads a stat line with one `sscanf`, `parse_stat` of the ferret
collector scans it by hand. They take the same numbers out of a line when `comm` is one word to
`%s` and the CPU times of the children fit the `unsigned int` variables of the former
(`statParsersAgree_iff`).
-/

namespace LibCollector.Collectors

open LibCollector.Misc LibCollector.Ferret

/-- A stat line with what the kernel promises about its fields: the state is a letter, the CPU
    times are not negative and the number of threads is an `int`. -/
structure KernelLine extends StatLine where
  state_alpha : state.isAlpha = true
  times : ∀ i ∈ [10, 11, 12, 13], 0 ≤ fields.getD i 0
  threads : -2147483648 ≤ fields.getD 16 0 ∧ fields.getD 16 0 < 2147483648

/-- The field that `parse_stat` takes out of a line for a label. -/
def extracted (label : Str) (buf : Str) : Option Str :=
  ((pidStatSpec.map Prod.fst).zip (parseStatFields buf)).lookup label

/-- `parse` succeeds and uses the numbers that `parse_stat` takes out of the line. -/
def StatParsersAgree (buf : Str) : Prop :=
  ∃ v, scanProcStat buf = some v ∧
    extracted "utime".toList buf = some (toChars v.utime) ∧
    extracted "stime".toList buf = some (toChars v.stime) ∧
    extracted "cutime".toList buf = some (toChars v.cutime) ∧
    extracted "cstime".toList buf = some (toChars v.cstime) ∧
    extracted "num_threads".toList buf = some (toChars v.numThreads)

/-- `comm` is one word to `%s`, and `cutime` and `cstime` fit an `unsigned int`. -/
def FitsFormat (l : StatLine) : Prop :=
  (∀ c ∈ l.comm, isSpace c = false) ∧
    l.fields.getD 12 0 < 4294967296 ∧ l.fields.getD 13 0 < 4294967296

/-! ## The line as `sscanf` reads it -/

/-- The numbers behind the state. -/
def numbers (l : StatLine) : List Int := l.fields ++ [l.lastField]

/-- The text behind the state. -/
def numbersText (l : StatLine) : Str := (numbers l).flatMap (fun n => ' ' :: toChars n) ++ ['\n']

theorem text_eq (l : StatLine) (tid : Nat) :
    l.text tid =
      toChars tid ++ ' ' :: '(' :: (l.comm ++ ')' :: ' ' :: l.state :: numbersText l) := by
  rw [StatLine.text, ← statText_concat]
  simp [statText, StatLine.words, numbersText, numbers, List.flatMap_map]

theorem numbers_isNumber : ∀ d ∈ statNumbers, d.IsNumber := by
  simp [statNumbers, Directive.IsNumber]

/-- The thread id and the parenthesis. -/
theorem sscanf_text (l : StatLine) (tid : Nat) :
    sscanf statFormat (l.text tid) = .int (toSigned 32 tid) ::
      .word ('(' :: (l.comm ++ ')' :: ' ' :: l.state :: numbersText l).takeWhile (!isSpace ·)) ::
        sscanf (.space :: .char :: spaced statNumbers)
          ((l.comm ++ ')' :: ' ' :: l.state :: numbersText l).dropWhile (!isSpace ·)) := by
  have hblank : NoDigit (' ' :: '(' :: (l.comm ++ ')' :: ' ' :: l.state :: numbersText l)) :=
    noDigit_cons (by decide) _
  have hparen : isSpace '(' = false := by decide
  conv_lhs => rw [text_eq, statFormat, sscanf, scanInt_toChars tid hblank]
  simp only [sscanf, List.dropWhile_cons_of_pos (show isSpace ' ' = true by decide),
    List.dropWhile_cons, List.takeWhile_cons, hparen, Bool.not_false, Bool.false_eq_true, if_false,
    if_true, reduceCtorEq]

/-- With `comm` one word, every directive reads its field. -/
theorem sscanf_text_of_word {l : StatLine} (hcomm : ∀ c ∈ l.comm, isSpace c = false)
    (hstate : isSpace l.state = false) (tid : Nat) :
    sscanf statFormat (l.text tid) = .int (toSigned 32 tid) :: .word ('(' :: l.comm ++ [')']) ::
      .char l.state :: List.zipWith (fun d n => .int (d.convert n)) statNumbers (numbers l) := by
  have hword : ∀ c ∈ l.comm ++ [')'], (!isSpace c) = true := by
    intro c hc
    rcases List.mem_append.mp hc with hc | hc
    · rw [hcomm c hc]
      rfl
    · rw [List.mem_singleton.mp hc]
      rfl
  have hsplit : l.comm ++ ')' :: ' ' :: l.state :: numbersText l =
      (l.comm ++ [')']) ++ ' ' :: l.state :: numbersText l := by simp
  have hlen : statNumbers.length ≤ (numbers l).length := by
    have hfields := l.fields_length.1
    simp only [statNumbers, numbers, List.length_append, List.length_cons, List.length_nil]
    omega
  rw [sscanf_text, hsplit, List.takeWhile_append_of_pos hword, List.dropWhile_append_of_pos hword,
    List.takeWhile_cons_of_neg (by decide), List.dropWhile_cons_of_neg (by decide),
    List.append_nil, sscanf, List.dropWhile_cons_of_pos (by decide),
    List.dropWhile_cons_of_neg (by simp [hstate]), sscanf, numbersText,
    sscanf_ints numbers_isNumber hlen (noDigit_cons (by decide) _)]
  rfl

/-- The text behind a white space in a short `comm` has no room for the numbers. -/
theorem length_sscanf_ne {c d : Char} (hc : NoInt c) (hd : NoInt d) {u : Str}
    (hu : u.length ≤ 30) (v : Str) :
    (sscanf (.space :: .char :: spaced statNumbers) (u ++ c :: ' ' :: d :: v)).length ≠ 18 := by
  intro hlen
  rw [sscanf, List.dropWhile_append] at hlen
  have hblank := List.length_dropWhile_le isSpace u
  have hread : ∀ {w t : Str} {e : Char}, NoInt e → w.length ≤ 30 →
      (sscanf (spaced statNumbers) (w ++ e :: t)).length ≠ 17 := by
    intro w t e he hw h
    have hroom := (length_of_sscanf he numbers_isNumber h).1
    simp only [statNumbers, List.length_cons, List.length_nil] at hroom
    omega
  cases hw : u.dropWhile isSpace with
  | nil =>
    rw [hw, List.isEmpty_nil, if_pos rfl, List.dropWhile_cons_of_neg (by simp [hc.space]), sscanf,
      List.length_cons, Nat.succ.injEq] at hlen
    exact @hread [' '] v d hd (by decide) hlen
  | cons e w =>
    rw [hw, List.length_cons] at hblank
    rw [hw, List.isEmpty_cons, if_neg Bool.false_ne_true, List.cons_append, sscanf,
      List.length_cons, Nat.succ.injEq] at hlen
    exact hread hc (by omega) hlen

theorem scanProcStat_of_space {l : KernelLine} {c : Char} (hmem : c ∈ l.comm)
    (hc : isSpace c = true) (hshort : l.comm.length ≤ 30) (tid : Nat) :
    scanProcStat (l.text tid) = none := by
  rw [scanProcStat, if_neg]
  rw [sscanf_text, List.dropWhile_append]
  have hne : l.comm.dropWhile (!isSpace ·) ≠ [] := by
    rw [Ne, List.dropWhile_eq_nil_iff]
    intro hall
    have hbad := hall c hmem
    rw [hc] at hbad
    cases hbad
  rw [if_neg (by simpa using hne)]
  have hle := List.length_dropWhile_le (!isSpace ·) l.comm
  intro hlen
  exact length_sscanf_ne (by refine ⟨?_, ?_, ?_, ?_⟩ <;> decide) (NoInt.of_isAlpha l.state_alpha)
    (Nat.le_trans hle hshort) _ (Nat.succ.inj (Nat.succ.inj hlen))

/-! ## What is stored -/

theorem toUnsigned_eq {bits : Nat} {n : Int} (hlo : 0 ≤ n) (hhi : n < 18446744073709551616) :
    toUnsigned bits n = n % 2 ^ bits := by
  rw [toUnsigned, if_neg (by omega), Int.emod_eq_of_lt hlo hhi]

theorem toSigned_eq {n : Int} (hlo : -2147483648 ≤ n) (hhi : n < 2147483648) :
    toSigned 32 n = n := by
  rw [toSigned, show max (-9223372036854775808) (min 9223372036854775807 n) = n by omega]
  exact Int.bmod_eq_of_le (by omega) (by omega)

/-- The variables after a line whose `comm` is one word. -/
theorem scanProcStat_of_word {l : KernelLine} (hcomm : ∀ c ∈ l.comm, isSpace c = false)
    (tid : Nat) :
    scanProcStat (l.text tid) = some {
      utime := l.fields.getD 10 0
      stime := l.fields.getD 11 0
      cutime := l.fields.getD 12 0 % 4294967296
      cstime := l.fields.getD 13 0 % 4294967296
      numThreads := l.fields.getD 16 0 } := by
  have hstate := (NoInt.of_isAlpha l.state_alpha).space
  have hlen := l.fields_length.1
  have hlength : (sscanf statFormat (l.text tid)).length = 20 := by
    rw [sscanf_text_of_word hcomm hstate]
    simp only [statNumbers, numbers, List.length_cons, List.length_zipWith, List.length_append,
      List.length_nil]
    omega
  have hstored : ∀ i d, statNumbers[i]? = some d → i < 36 →
      storedInt (sscanf statFormat (l.text tid)) (i + 3) = d.convert (l.fields.getD i 0) := by
    intro i d hd hi
    have hget : (numbers l.toStatLine)[i]? = some (l.fields.getD i 0) := by
      rw [numbers, List.getElem?_append_left (by omega), List.getD_eq_getElem?_getD,
        List.getElem?_eq_getElem (by omega), Option.getD_some]
    rw [sscanf_text_of_word hcomm hstate, storedInt, List.getElem?_cons_succ,
      List.getElem?_cons_succ, List.getElem?_cons_succ, List.getElem?_zipWith, hd, hget]
  have hrange : ∀ i, i < 36 → l.fields.getD i 0 < 18446744073709551616 := by
    intro i hi
    rw [List.getD_eq_getElem?_getD, List.getElem?_eq_getElem (by omega), Option.getD_some]
    exact (l.fields_range _ (List.mem_cons_of_mem _ (List.getElem_mem _))).2
  have htime : ∀ i ∈ [10, 11, 12, 13], ∀ bits,
      toUnsigned bits (l.fields.getD i 0) = l.fields.getD i 0 % 2 ^ bits := by
    intro i hi bits
    refine toUnsigned_eq (l.times i hi) (hrange i ?_)
    simp only [List.mem_cons, List.not_mem_nil, or_false] at hi
    omega
  have hlong : ∀ i ∈ [10, 11, 12, 13], toUnsigned 64 (l.fields.getD i 0) = l.fields.getD i 0 := by
    intro i hi
    rw [htime i hi]
    refine Int.emod_eq_of_lt (l.times i hi) (hrange i ?_)
    simp only [List.mem_cons, List.not_mem_nil, or_false] at hi
    omega
  rw [scanProcStat, if_pos hlength, hstored 10 _ rfl (by decide), hstored 11 _ rfl (by decide),
    hstored 12 _ rfl (by decide), hstored 13 _ rfl (by decide), hstored 16 _ rfl (by decide)]
  simp only [Directive.convert]
  rw [hlong 10 (by decide), hlong 11 (by decide), htime 12 (by decide), htime 13 (by decide),
    toSigned_eq l.threads.1 l.threads.2]
  rfl

/-- What `parse_stat` takes out of a line for the labels that `parse` uses. -/
theorem extracted_text (l : StatLine) (tid : Nat) :
    extracted "utime".toList (l.text tid) = some (toChars (l.fields.getD 10 0)) ∧
    extracted "stime".toList (l.text tid) = some (toChars (l.fields.getD 11 0)) ∧
    extracted "cutime".toList (l.text tid) = some (toChars (l.fields.getD 12 0)) ∧
    extracted "cstime".toList (l.text tid) = some (toChars (l.fields.getD 13 0)) ∧
    extracted "num_threads".toList (l.text tid) = some (toChars (l.fields.getD 16 0)) := by
  simp only [extracted, StatLine.parseStatFields_text]
  exact ⟨rfl, rfl, rfl, rfl, rfl⟩

/-- The parsers agree on a line that fits the format, and on no other line whose `comm` is that of
    a process: fifteen bytes, of which the kernel writes a newline and a backslash as two. -/
theorem statParsersAgree_iff (l : KernelLine) (tid : Nat) :
    (FitsFormat l.toStatLine → StatParsersAgree (l.text tid)) ∧
      (l.comm.length ≤ 30 → StatParsersAgree (l.text tid) → FitsFormat l.toStatLine) := by
  obtain ⟨hutime, hstime, hcutime, hcstime, hthreads⟩ := extracted_text l.toStatLine tid
  have hmod : ∀ i ∈ [10, 11, 12, 13], l.fields.getD i 0 % 4294967296 = l.fields.getD i 0 ↔
      l.fields.getD i 0 < 4294967296 := by
    intro i hi
    have hlo := l.times i hi
    omega
  refine ⟨?_, ?_⟩
  · rintro ⟨hcomm, hcu, hcs⟩
    refine ⟨_, scanProcStat_of_word hcomm tid, hutime, hstime, ?_, ?_, hthreads⟩
    · rw [hcutime, (hmod 12 (by decide)).mpr hcu]
    · rw [hcstime, (hmod 13 (by decide)).mpr hcs]
  · rintro hshort ⟨v, hv, -, -, hcu, hcs, -⟩
    have hcomm : ∀ c ∈ l.comm, isSpace c = false := by
      intro c hmem
      by_contra hc
      rw [scanProcStat_of_space hmem ((Bool.not_eq_false _).mp hc) hshort tid] at hv
      cases hv
    rw [scanProcStat_of_word hcomm tid, Option.some.injEq] at hv
    subst hv
    rw [hcutime, Option.some.injEq] at hcu
    rw [hcstime, Option.some.injEq] at hcs
    exact ⟨hcomm, (hmod 12 (by decide)).mp (toChars_injective hcu).symm,
      (hmod 13 (by decide)).mp (toChars_injective hcs).symm⟩

theorem running_ok : 'R' ≠ ' ' ∧ 'R' ≠ '\n' ∧ 'R' ≠ '\x00' := by decide

/-- A line of a process with the name `comm`, one thread, and no CPU time. -/
def freshLine (comm : Str) (hok : ∀ c ∈ comm, c ≠ ')' ∧ c ≠ '\n' ∧ c ≠ '\x00')
    (hlen : comm.length ≤ 64) : KernelLine where
  comm := comm
  state := 'R'
  fields := List.replicate 36 1
  lastField := 0
  comm_ok := hok
  comm_length := hlen
  state_ok := running_ok
  fields_length := by decide
  fields_range := by decide
  state_alpha := by decide
  times := by decide
  threads := by decide

/-- `parse` fails on a name with a space. -/
theorem not_statParsersAgree_space : ¬ StatParsersAgree
    ((freshLine "a b".toList (by simp) (by decide)).text 7) := by
  rintro ⟨v, hv, -⟩
  rw [scanProcStat_of_space (c := ' ') (by decide) (by decide) (by decide) 7] at hv
  cases hv

end LibCollector.Collectors
