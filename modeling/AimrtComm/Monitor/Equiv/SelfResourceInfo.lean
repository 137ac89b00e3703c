import AimrtComm.Monitor.SelfResourceInfo
import Mathlib.Algebra.BigOperators.Group.List.Basic
import Mathlib.Data.Rat.Cast.Defs
import Mathlib.Tactic.Ring

/-!
# The usage between samples

`get_process_cpu_usage` reports what was used since the previous call when it finds the times of the
process.  It looks for them behind thirteen words, and the second word of the line is the name of
the process in parentheses.  So the reports are right whatever the samples are exactly when no name
has white space in it (`reportsUsage_iff`): with a name of several words, the thirteen words end
before the times, and `stime` is not even looked at (`getAllThreadsCpuTime_congr`).
-/

namespace AimrtComm.Monitor

open FormattedInput

/-! ### Samples -/

/-- A number in a text. -/
def number (i : ℤ) : List Char := (toString i).toList

/-- A line of `/proc/<pid>/stat`: the name of the process, its state, the ten numbers before its
times, the times, and the numbers behind them. -/
structure StatLine where
  comm : String
  state : Char
  numbers : List ℤ
  utime : UInt64
  stime : UInt64
  more : List ℤ := []
  not_space : isSpace state = false
  length_eq : numbers.length = 10

namespace StatLine

/-- The second word of the line, or more. -/
def name (line : StatLine) : List Char := '(' :: (line.comm.toList ++ [')'])

/-- The line up to `utime`. -/
def front (pid : ℤ) (line : StatLine) : List Char :=
  number pid ++ ' ' :: (line.name ++ ' ' :: (line.state :: ' ' ::
    ((line.numbers.flatMap fun i => number i ++ [' ']) ++ number line.utime.toNat)))

/-- The line behind `utime`. -/
def back (line : StatLine) : List Char :=
  ' ' :: (number line.stime.toNat ++ ((line.more.flatMap fun i => ' ' :: number i) ++ ['\n']))

/-- The line as a text. -/
def text (pid : ℤ) (line : StatLine) : List Char := line.front pid ++ line.back

end StatLine

/-- What `/proc/stat` begins with: the times of the CPU, and the other lines. -/
structure CpuLine where
  values : List UInt64
  more : List Char := []

/-- The file as a text. -/
def CpuLine.text (cpu : CpuLine) : List Char :=
  ['c', 'p', 'u', ' '] ++ (cpu.values.flatMap fun n => ' ' :: number n.toNat) ++ '\n' :: cpu.more

/-- A call, and the lines that it finds. -/
structure Sample extends Call where
  line : StatLine
  cpu : CpuLine

namespace Sample

/-- The files are there and have the lines in them. -/
def Seen (pid : ℤ) (s : Sample) : Prop :=
  s.files (statFile pid) = some (s.line.text pid) ∧ s.files "/proc/stat" = some s.cpu.text

/-- `utime + stime`. -/
def processTime (s : Sample) : ℕ := s.line.utime.toNat + s.line.stime.toNat

/-- The total of the CPU. -/
def total (s : Sample) : ℕ := (s.cpu.values.map UInt64.toNat).sum

end Sample

/-- What was used between two samples, in percent of a core. -/
def usageBetween (s s' : Sample) : ℚ :=
  100 * (s'.cores : ℚ) * ((s'.processTime : ℚ) - (s.processTime : ℚ)) /
    ((s'.total : ℚ) - (s.total : ℚ))

/-- Samples of one process, one after another. -/
structure WellFormed (pid : ℤ) (run : List Sample) : Prop where
  seen : ∀ s ∈ run, s.Seen pid
  processTime_le : run.Pairwise fun s s' => s.processTime ≤ s'.processTime
  total_lt : run.Pairwise fun s s' => s.total < s'.total

/-- The times fit 64 bits, and the first call has something to remember: it takes a total of zero
for no news. -/
structure Fits (run : List Sample) : Prop where
  lt : ∀ s ∈ run, s.processTime < 2 ^ 64 ∧ s.total < 2 ^ 64
  first : ∀ s ∈ run.head?, 0 < s.total ∨ s.processTime = 0

/-- From the second call on, the usage between this and the previous call is returned. -/
def ReportsUsage (pid : ℤ) (run : List Sample) : Prop :=
  (usages pid {} (run.map Sample.toCall)).tail = List.zipWith usageBetween run run.tail

/-! ### Numbers -/

theorem number_natCast (n : ℕ) : number n = Nat.toDigits 10 n := Nat.toList_repr

theorem isWord_number (i : ℤ) : IsWord (number i) := by
  rcases i with n | n
  · have h := isWord_digits n
    rw [← number_natCast] at h
    exact h
  · have h := isWord_digits (n + 1)
    have hnumber : number (Int.negSucc n) = '-' :: Nat.toDigits 10 (n + 1) := by
      show ("-" ++ Nat.repr (n + 1)).toList = _
      rw [String.toList_append, Nat.toList_repr]
      rfl
    rw [hnumber]
    refine ⟨List.cons_ne_nil _ _, fun c hc => ?_⟩
    rcases List.mem_cons.1 hc with rfl | hc
    · decide
    · exact h.not_space c hc

theorem isSpace_blank : isSpace ' ' = true := rfl

theorem separated_blank (text : List Char) : Separated (' ' :: text) :=
  separated_cons isSpace_blank text

/-! ### The times of the process -/

variable {pid : ℤ} {s s' : Sample} {run : List Sample} {line : StatLine} {prev : PrevTimes}

theorem isWord_name (h : ∀ c ∈ line.comm.toList, isSpace c = false) : IsWord line.name where
  ne_nil := List.cons_ne_nil _ _
  not_space c hc := by
    rcases List.mem_cons.1 hc with rfl | hc
    · rfl
    · rcases List.mem_append.1 hc with hc | hc
      · exact h c hc
      · obtain rfl := List.mem_singleton.1 hc
        rfl

theorem separated_back (line : StatLine) : Separated line.back := separated_blank _

/-- Numbers are skipped word by word. -/
theorem iterate_skipWord_numbers (numbers : List ℤ) (rest : List Char) :
    skipWord^[numbers.length] (some (' ' :: ((numbers.flatMap fun i => number i ++ [' ']) ++ rest)))
      = some (' ' :: rest) := by
  induction numbers with
  | nil => rfl
  | cons i numbers ih =>
    have htext : ((i :: numbers).flatMap fun i => number i ++ [' ']) ++ rest =
        number i ++ ' ' :: ((numbers.flatMap fun i => number i ++ [' ']) ++ rest) := by
      rw [List.flatMap_cons, List.append_assoc, List.append_assoc]
      rfl
    rw [htext, List.length_cons, Function.iterate_succ_apply, skipWord_cons isSpace_blank,
      skipWord_append_word (isWord_number i) (separated_blank _)]
    exact ih

/-- Behind a name of one word, the thirteen words end where the times begin. -/
theorem iterate_skipWord_text (h : ∀ c ∈ line.comm.toList, isSpace c = false) :
    skipWord^[13] (some (line.text pid)) =
      some (' ' :: (number line.utime.toNat ++ line.back)) := by
  have hstate : IsWord [line.state] :=
    ⟨List.cons_ne_nil _ _, fun c hc => List.mem_singleton.1 hc ▸ line.not_space⟩
  have htext : line.text pid = number pid ++ ' ' :: (line.name ++ ' ' :: ([line.state] ++ ' ' ::
      ((line.numbers.flatMap fun i => number i ++ [' ']) ++
        (number line.utime.toNat ++ line.back)))) := by
    unfold StatLine.text StatLine.front
    simp only [List.append_assoc, List.cons_append, List.nil_append]
  have hnumbers := iterate_skipWord_numbers line.numbers (number line.utime.toNat ++ line.back)
  rw [line.length_eq] at hnumbers
  rw [htext]
  show skipWord^[10] (skipWord (skipWord (skipWord _))) = _
  rw [skipWord_append_word (isWord_number pid) (separated_blank _), skipWord_cons isSpace_blank,
    skipWord_append_word (isWord_name h) (separated_blank _), skipWord_cons isSpace_blank,
    skipWord_append_word hstate (separated_blank _)]
  exact hnumbers

/-- **The CPU time of a process whose name has no white space in it.** -/
theorem getAllThreadsCpuTime_eq (hseen : s.Seen pid)
    (hname : ∀ c ∈ s.line.comm.toList, isSpace c = false) :
    getAllThreadsCpuTime pid s.toCall = s.line.utime + s.line.stime := by
  have hmore : Separated ((s.line.more.flatMap fun i => ' ' :: number i) ++ ['\n']) := by
    cases s.line.more with
    | nil => exact separated_cons rfl []
    | cons i more => exact separated_blank _
  unfold getAllThreadsCpuTime
  rw [hseen.1]
  dsimp only
  rw [iterate_skipWord_text hname, extractUInt64_cons _ isSpace_blank, number_natCast,
    extractUInt64_append_digits _ _ (separated_back s.line)]
  dsimp only
  unfold StatLine.back
  rw [extractUInt64_cons _ isSpace_blank, number_natCast, extractUInt64_append_digits _ _ hmore]

/-! ### The total of the CPU -/

/-- The sum of the values, in 64 bits. -/
theorem toNat_foldl_add (values : List UInt64) (sum : UInt64) :
    (values.foldl (fun sum value => sum + value) sum).toNat =
      (sum.toNat + (values.map UInt64.toNat).sum) % 2 ^ 64 := by
  induction values generalizing sum with
  | nil => exact (Nat.mod_eq_of_lt sum.toNat_lt).symm
  | cons value values ih =>
    rw [List.foldl_cons, ih, UInt64.toNat_add, List.map_cons, List.sum_cons]
    omega

/-- `getline` reads the first line. -/
theorem takeWhile_text (cpu : CpuLine) :
    (cpu.text.takeWhile fun c => c ≠ '\n') =
      ['c', 'p', 'u', ' '] ++ cpu.values.flatMap fun n => ' ' :: number n.toNat := by
  unfold CpuLine.text
  rw [takeWhile_append_of_head, List.takeWhile_eq_self_iff]
  · intro c hc
    refine decide_eq_true ?_
    rintro rfl
    rcases List.mem_append.1 hc with hc | hc
    · exact absurd hc (by decide)
    · obtain ⟨n, -, hn⟩ := List.mem_flatMap.1 hc
      rcases List.mem_cons.1 hn with hn | hn
      · exact absurd hn (by decide)
      · exact Bool.false_ne_true ((isWord_number _).not_space '\n' hn).symm
  · intro c hc
    obtain rfl := Option.some.inj hc
    rfl

/-- **The total of the CPU**, in 64 bits. -/
theorem toNat_getTotalCpuTime (hseen : s.Seen pid) :
    (getTotalCpuTime s.toCall).toNat = s.total % 2 ^ 64 := by
  have hall : (['c', 'p', 'u'].all fun c => !isSpace c) = true := rfl
  have hcpu : IsWord ['c', 'p', 'u'] :=
    ⟨List.cons_ne_nil _ _, fun c hc => (Bool.not_eq_true' _).mp (List.all_eq_true.1 hall c hc)⟩
  obtain ⟨values, hvalues⟩ : ∃ values, s.cpu.values = values := ⟨_, rfl⟩
  have hread : skipWord (some (['c', 'p', 'u', ' '] ++
      values.flatMap fun n => ' ' :: number n.toNat)) =
      some (' ' :: values.flatMap fun n => ' ' :: number n.toNat) :=
    skipWord_append_word hcpu (separated_blank _)
  have hall : extractAll (' ' :: values.flatMap fun n => ' ' :: number n.toNat) = values := by
    rw [extractAll_cons isSpace_blank]
    simp only [number_natCast]
    exact extractAll_numbers isSpace_blank values
  unfold getTotalCpuTime
  rw [hseen.2]
  dsimp only [Option.getD_some]
  rw [takeWhile_text, hvalues, hread]
  dsimp only [Option.elim_some]
  rw [hall, toNat_foldl_add]
  unfold Sample.total
  rw [hvalues]
  exact congrArg (· % 2 ^ 64) (Nat.zero_add _)

/-! ### The usage -/

/-- A call reads the times of its sample. -/
def Reads (pid : ℤ) (s : Sample) : Prop :=
  (getAllThreadsCpuTime pid s.toCall).toNat = s.processTime ∧
    (getTotalCpuTime s.toCall).toNat = s.total

/-- The times that are remembered are those of a sample. -/
def Remembers (prev : PrevTimes) (s : Sample) : Prop :=
  prev.prevProcessTime.toNat = s.processTime ∧ prev.prevTotalCpuTime.toNat = s.total

theorem reads_of_seen (hseen : s.Seen pid) (hname : ∀ c ∈ s.line.comm.toList, isSpace c = false)
    (hfits : s.processTime < 2 ^ 64 ∧ s.total < 2 ^ 64) : Reads pid s := by
  constructor
  · rw [getAllThreadsCpuTime_eq hseen hname, UInt64.toNat_add]
    exact Nat.mod_eq_of_lt hfits.1
  · rw [toNat_getTotalCpuTime hseen]
    exact Nat.mod_eq_of_lt hfits.2

/-- **What a call returns after a sample, and what it remembers.** -/
theorem getProcessCpuUsage_spec (hprev : Remembers prev s) (hreads : Reads pid s')
    (hle : s.processTime ≤ s'.processTime) (hlt : s.total < s'.total) :
    (getProcessCpuUsage pid s'.toCall prev).1 = usageBetween s s' ∧
      Remembers (getProcessCpuUsage pid s'.toCall prev).2 s' := by
  obtain ⟨hprocess, htotal⟩ := hreads
  obtain ⟨processTime, hprocessTime⟩ : ∃ x, getAllThreadsCpuTime pid s'.toCall = x := ⟨_, rfl⟩
  obtain ⟨totalCpuTime, htotalCpuTime⟩ : ∃ x, getTotalCpuTime s'.toCall = x := ⟨_, rfl⟩
  rw [hprocessTime] at hprocess
  rw [htotalCpuTime] at htotal
  rw [← hprev.1, ← hprocess] at hle
  rw [← hprev.2, ← htotal] at hlt
  have hle' : prev.prevProcessTime ≤ processTime := UInt64.le_iff_toNat_le.2 hle
  have hlt' : prev.prevTotalCpuTime < totalCpuTime := UInt64.lt_iff_toNat_lt.2 hlt
  unfold getProcessCpuUsage
  dsimp only
  rw [hprocessTime, htotalCpuTime, if_neg (not_or.2 ⟨UInt64.not_lt.2 hle', UInt64.not_le.2 hlt'⟩)]
  refine ⟨?_, hprocess, htotal⟩
  dsimp only
  unfold usageBetween
  rw [UInt64.toNat_sub_of_le _ _ hle', UInt64.toNat_sub_of_le _ _ (UInt64.le_of_lt hlt'),
    Nat.cast_sub hle, Nat.cast_sub hlt.le, ← hprocess, ← htotal, ← hprev.1, ← hprev.2]
  ring

/-- The first call remembers its sample. -/
theorem getProcessCpuUsage_first (hreads : Reads pid s) (h : 0 < s.total ∨ s.processTime = 0) :
    Remembers (getProcessCpuUsage pid s.toCall {}).2 s := by
  by_cases hnews : s.total = 0
  · -- the zeros that it starts with stay, and they are the times of the sample
    have hzero : getTotalCpuTime s.toCall ≤ 0 :=
      UInt64.le_iff_toNat_le.2 (hreads.2.trans hnews).le
    unfold getProcessCpuUsage
    dsimp only
    rw [if_pos (Or.inr hzero)]
    refine ⟨?_, hnews.symm⟩
    rcases h with h | h
    · omega
    · exact h.symm
  · have hpos : ¬ getTotalCpuTime s.toCall ≤ 0 := by
      rw [UInt64.le_iff_toNat_le, hreads.2]
      exact fun hle => hnews (Nat.le_zero.1 hle)
    unfold getProcessCpuUsage
    dsimp only
    rw [if_neg (not_or.2 ⟨UInt64.not_lt_zero, hpos⟩)]
    exact hreads

/-- What is returned after a sample. -/
theorem usages_eq (hprev : Remembers prev s) (hreads : ∀ s' ∈ run, Reads pid s')
    (hle : (s :: run).Pairwise fun s s' => s.processTime ≤ s'.processTime)
    (hlt : (s :: run).Pairwise fun s s' => s.total < s'.total) :
    usages pid prev (run.map Sample.toCall) = List.zipWith usageBetween (s :: run) run := by
  -- the invariant is that the times remembered are those of the last sample
  induction run generalizing prev s with
  | nil => rfl
  | cons s' run ih =>
    rw [List.pairwise_cons] at hle hlt
    obtain ⟨husage, hnext⟩ := getProcessCpuUsage_spec hprev (hreads s' List.mem_cons_self)
      (hle.1 s' List.mem_cons_self) (hlt.1 s' List.mem_cons_self)
    rw [List.map_cons, List.zipWith_cons_cons]
    unfold usages
    dsimp only
    rw [husage, ih hnext (fun x hx => hreads x (List.mem_cons_of_mem s' hx)) hle.2 hlt.2]

/-- **Names of one word**: the usage between the samples is reported. -/
theorem reportsUsage_of_names (hrun : WellFormed pid run) (hfits : Fits run)
    (hnames : ∀ s ∈ run, ∀ c ∈ s.line.comm.toList, isSpace c = false) : ReportsUsage pid run := by
  have hreads : ∀ s ∈ run, Reads pid s := fun s hs =>
    reads_of_seen (hrun.seen s hs) (hnames s hs) (hfits.lt s hs)
  unfold ReportsUsage
  cases run with
  | nil => rfl
  | cons s run =>
    have hfirst := getProcessCpuUsage_first (hreads s List.mem_cons_self) (hfits.first s rfl)
    exact usages_eq hfirst (fun s' hs' => hreads s' (List.mem_cons_of_mem s hs'))
      hrun.processTime_le hrun.total_lt

/-! ### Names of several words -/

theorem wordCount_numbers (numbers : List ℤ) (rest : List Char) :
    numbers.length + wordCount rest ≤
      wordCount ((numbers.flatMap fun i => number i ++ [' ']) ++ rest) := by
  induction numbers with
  | nil => exact (Nat.zero_add _).le
  | cons i numbers ih =>
    have htext : ((i :: numbers).flatMap fun i => number i ++ [' ']) ++ rest =
        number i ++ ' ' :: ((numbers.flatMap fun i => number i ++ [' ']) ++ rest) := by
      rw [List.flatMap_cons, List.append_assoc, List.append_assoc]
      rfl
    have hpos := (isWord_number i).wordCount_pos
    rw [htext, wordCount_append_space isSpace_blank, List.length_cons]
    omega

/-- White space in a name makes it two words at least. -/
theorem wordCount_name {c : Char} (hc : c ∈ line.comm.toList) (hspace : isSpace c = true) :
    2 ≤ wordCount line.name := by
  obtain ⟨front, back, hname⟩ := List.append_of_mem hc
  have htext : line.name = ('(' :: front) ++ c :: (back ++ [')']) := by
    unfold StatLine.name
    rw [hname, List.append_assoc]
    rfl
  have hfront : 0 < wordCount ('(' :: front) := wordCount_pos List.mem_cons_self rfl
  have hback : 0 < wordCount (back ++ [')']) :=
    wordCount_pos (List.mem_append_right back (List.mem_singleton_self ')')) rfl
  rw [htext, wordCount_append_space hspace]
  omega

/-- Then there are fifteen words in front of `stime`. -/
theorem wordCount_front {c : Char} (hc : c ∈ line.comm.toList) (hspace : isSpace c = true) :
    15 ≤ wordCount (line.front pid) := by
  have hpid := (isWord_number pid).wordCount_pos
  have hname := wordCount_name hc hspace
  have hstate : 0 < wordCount [line.state] :=
    wordCount_pos (List.mem_singleton_self _) line.not_space
  have hnumbers := wordCount_numbers line.numbers (number line.utime.toNat)
  have hutime := (isWord_number line.utime.toNat).wordCount_pos
  have htext : line.front pid = number pid ++ ' ' :: (line.name ++ ' ' :: ([line.state] ++ ' ' ::
    ((line.numbers.flatMap fun i => number i ++ [' ']) ++ number line.utime.toNat))) := rfl
  rw [line.length_eq] at hnumbers
  rw [htext, wordCount_append_space isSpace_blank, wordCount_append_space isSpace_blank,
    wordCount_append_space isSpace_blank]
  omega

/-- **With white space in the name, the code does not look at `stime`.** -/
theorem getAllThreadsCpuTime_congr {call call' : Call} {line' : StatLine} {c : Char}
    (hc : c ∈ line.comm.toList) (hspace : isSpace c = true)
    (hfile : call.files (statFile pid) = some (line.text pid))
    (hfile' : call'.files (statFile pid) = some (line'.text pid))
    (hfront : line.front pid = line'.front pid) (hutime : call.utime = call'.utime)
    (hstime : call.stime = call'.stime) :
    getAllThreadsCpuTime pid call = getAllThreadsCpuTime pid call' := by
  have hagree : AgreeFor (2 + 13) (some (line.text pid)) (some (line'.text pid)) := by
    refine Or.inr ⟨line.front pid, line.back, line'.back, separated_back line,
      separated_back line', rfl, ?_, wordCount_front hc hspace⟩
    rw [hfront]
    rfl
  have hwords := agreeFor_iterate_skipWord 13 hagree
  obtain ⟨hvalue, hleft⟩ := agreeFor_extractUInt64 call.utime hwords
  obtain ⟨hvalue', -⟩ := agreeFor_extractUInt64 call.stime hleft
  unfold getAllThreadsCpuTime
  rw [hfile, hfile', ← hutime, ← hstime]
  dsimp only
  rw [hvalue, hvalue']

/-! ### The condition -/

theorem statFile_ne (pid : ℤ) : "/proc/stat" ≠ statFile pid := by
  intro h
  have hlength := congrArg (fun path : String => path.toList.length) h
  unfold statFile at hlength
  rw [String.toList_append, String.toList_append, List.length_append, List.length_append] at hlength
  have hpid : 0 < (toString pid).toList.length :=
    List.length_pos_iff.2 (isWord_number pid).ne_nil
  have hstat : "/proc/stat".toList.length = 10 := rfl
  have hproc : "/proc/".toList.length = 6 := rfl
  have hend : "/stat".toList.length = 5 := rfl
  omega

/-- A sample in which the files have these lines in them. -/
def sampleWith (pid cores : ℤ) (line : StatLine) (cpu : CpuLine) : Sample where
  files path := if path = statFile pid then some (line.text pid) else some cpu.text
  cores
  line
  cpu

theorem seen_sampleWith (pid cores : ℤ) (line : StatLine) (cpu : CpuLine) :
    (sampleWith pid cores line cpu).Seen pid := ⟨if_pos rfl, if_neg (statFile_ne pid)⟩

/-- A line of a process with a name, with nothing but `stime` in it. -/
def lineOf (name : String) (stime : UInt64) : StatLine where
  comm := name
  state := 'S'
  numbers := List.replicate 10 0
  utime := 0
  stime
  not_space := rfl
  length_eq := rfl

/-- A sample with this line. -/
def sampleOf (pid : ℤ) (name : String) (stime total : UInt64) : Sample :=
  sampleWith pid 1 (lineOf name stime) { values := [total] }

theorem processTime_sampleOf (pid : ℤ) (name : String) (stime total : UInt64) :
    (sampleOf pid name stime total).processTime = stime.toNat := Nat.zero_add stime.toNat

theorem total_sampleOf (pid : ℤ) (name : String) (stime total : UInt64) :
    (sampleOf pid name stime total).total = total.toNat := Nat.add_zero total.toNat

theorem usageBetween_sampleOf (pid : ℤ) (name : String) (stime : UInt64) :
    usageBetween (sampleOf pid name 0 1) (sampleOf pid name stime 2) = 100 * (stime.toNat : ℚ) := by
  have hcores : (sampleOf pid name stime 2).cores = 1 := rfl
  have hzero : (0 : UInt64).toNat = 0 := rfl
  have hone : (1 : UInt64).toNat = 1 := rfl
  have htwo : (2 : UInt64).toNat = 2 := rfl
  unfold usageBetween
  rw [processTime_sampleOf, processTime_sampleOf, total_sampleOf, total_sampleOf, hcores, hzero,
    hone, htwo]
  norm_num

/-- Two samples of a process that has run for nothing or for a time in between. -/
def twoSamples (pid : ℤ) (name : String) (stime : UInt64) : List Sample :=
  [sampleOf pid name 0 1, sampleOf pid name stime 2]

theorem wellFormed_twoSamples (pid : ℤ) (name : String) (stime : UInt64) :
    WellFormed pid (twoSamples pid name stime) where
  seen s hs := by
    unfold twoSamples at hs
    rcases List.mem_pair.1 hs with rfl | rfl
    · exact seen_sampleWith pid 1 _ _
    · exact seen_sampleWith pid 1 _ _
  processTime_le := by
    refine List.pairwise_pair.2 ?_
    rw [processTime_sampleOf, processTime_sampleOf]
    exact Nat.zero_le _
  total_lt := by
    refine List.pairwise_pair.2 ?_
    rw [total_sampleOf, total_sampleOf]
    decide

theorem fits_twoSamples (pid : ℤ) (name : String) (stime : UInt64) :
    Fits (twoSamples pid name stime) where
  lt s hs := by
    unfold twoSamples at hs
    rcases List.mem_pair.1 hs with rfl | rfl
    · rw [processTime_sampleOf, total_sampleOf]
      exact ⟨UInt64.toNat_lt _, UInt64.toNat_lt _⟩
    · rw [processTime_sampleOf, total_sampleOf]
      exact ⟨UInt64.toNat_lt _, UInt64.toNat_lt _⟩
  first s hs := by
    obtain rfl := Option.some.inj hs
    rw [total_sampleOf]
    exact Or.inl (by decide)

/-- With white space in the name, the code does not tell the two from each other. -/
theorem usages_twoSamples {name : String} {c : Char} (hc : c ∈ name.toList)
    (hspace : isSpace c = true) (stime : UInt64) :
    usages pid {} ((twoSamples pid name stime).map Sample.toCall) =
      usages pid {} ((twoSamples pid name 0).map Sample.toCall) := by
  have htime : getAllThreadsCpuTime pid (sampleOf pid name stime 2).toCall =
      getAllThreadsCpuTime pid (sampleOf pid name 0 2).toCall := by
    have hseen : (sampleOf pid name stime 2).Seen pid := seen_sampleWith pid 1 _ _
    have hseen' : (sampleOf pid name 0 2).Seen pid := seen_sampleWith pid 1 _ _
    exact getAllThreadsCpuTime_congr hc hspace hseen.1 hseen'.1 rfl rfl rfl
  have htotal : getTotalCpuTime (sampleOf pid name stime 2).toCall =
      getTotalCpuTime (sampleOf pid name 0 2).toCall := by
    unfold getTotalCpuTime
    unfold sampleOf
    rw [(seen_sampleWith pid 1 _ _).2, (seen_sampleWith pid 1 _ _).2]
    rfl
  have hcall : ∀ prev, getProcessCpuUsage pid (sampleOf pid name stime 2).toCall prev =
      getProcessCpuUsage pid (sampleOf pid name 0 2).toCall prev := by
    intro prev
    unfold getProcessCpuUsage
    rw [htime, htotal]
    rfl
  unfold twoSamples
  simp only [List.map_cons, List.map_nil, usages, hcall]

/-- **The exact names with which the usage between samples is reported**: those without white
space. -/
theorem reportsUsage_iff (pid : ℤ) (names : Set String) :
    (∀ run, WellFormed pid run → Fits run → (∀ s ∈ run, s.line.comm ∈ names) →
        ReportsUsage pid run) ↔
      ∀ name ∈ names, ∀ c ∈ name.toList, isSpace c = false := by
  constructor
  · intro h name hname c hc
    rw [Bool.eq_false_iff]
    intro hspace
    have hreport : ∀ stime, ReportsUsage pid (twoSamples pid name stime) := by
      intro stime
      refine h _ (wellFormed_twoSamples pid name stime) (fits_twoSamples pid name stime) ?_
      intro s hs
      unfold twoSamples at hs
      rcases List.mem_pair.1 hs with rfl | rfl
      · exact hname
      · exact hname
    -- the code returns the same for both, and the usages are not the same
    have hsame := (hreport 1).symm.trans
      ((congrArg List.tail (usages_twoSamples hc hspace 1)).trans (hreport 0))
    have husage : usageBetween (sampleOf pid name 0 1) (sampleOf pid name 1 2) =
        usageBetween (sampleOf pid name 0 1) (sampleOf pid name 0 2) := (List.cons.inj hsame).1
    rw [usageBetween_sampleOf, usageBetween_sampleOf] at husage
    have hone : (1 : UInt64).toNat = 1 := rfl
    have hzero : (0 : UInt64).toNat = 0 := rfl
    rw [hone, hzero] at husage
    norm_num at husage
  · intro h run hrun hfits hnames
    exact reportsUsage_of_names hrun hfits fun s hs => h s.line.comm (hnames s hs)

/-! ### A sample -/

/-- A line of a process that is called "Web Content". -/
def webLine (utime stime : UInt64) : StatLine where
  comm := "Web Content"
  state := 'S'
  numbers := [1, 4242, 4242, 0, -1, 4194304, 100, 0, 0, 0]
  utime
  stime
  more := [0, 0, 20]
  not_space := rfl
  length_eq := rfl

/-- The first call finds this. -/
def webFirst : Sample := sampleWith 4242 4 (webLine 50 30) { values := [300, 700] }

/-- And the second one this. -/
def webSecond : Sample := sampleWith 4242 4 (webLine 150 80) { values := [600, 1400] }

/-- It used 60 percent of a core, and 40 percent are reported: the time in `stime` is not seen. -/
theorem reportsUsage_fails_webContent :
    WellFormed 4242 [webFirst, webSecond] ∧ ¬ ReportsUsage 4242 [webFirst, webSecond] := by
  have hseen : webFirst.Seen 4242 := seen_sampleWith 4242 4 _ _
  have hseen' : webSecond.Seen 4242 := seen_sampleWith 4242 4 _ _
  constructor
  · refine ⟨fun s hs => ?_, List.pairwise_pair.2 (by decide), List.pairwise_pair.2 (by decide)⟩
    rcases List.mem_pair.1 hs with rfl | rfl
    · exact hseen
    · exact hseen'
  · have htime : getAllThreadsCpuTime 4242 webFirst.toCall = 50 := by decide +kernel
    have htime' : getAllThreadsCpuTime 4242 webSecond.toCall = 150 := by decide +kernel
    have htotal : getTotalCpuTime webFirst.toCall = 1000 :=
      UInt64.toNat_inj.1 (toNat_getTotalCpuTime hseen)
    have htotal' : getTotalCpuTime webSecond.toCall = 2000 :=
      UInt64.toNat_inj.1 (toNat_getTotalCpuTime hseen')
    have hfirst : (getProcessCpuUsage 4242 webFirst.toCall {}).2 = ⟨50, 1000⟩ := by
      unfold getProcessCpuUsage
      rw [htime, htotal]
      decide +kernel
    have hsecond : (getProcessCpuUsage 4242 webSecond.toCall ⟨50, 1000⟩).1 = 40 := by
      unfold getProcessCpuUsage
      rw [htime', htotal']
      decide +kernel
    have husage : usageBetween webFirst webSecond = 60 := by decide +kernel
    intro h
    have hreport : [(getProcessCpuUsage 4242 webSecond.toCall
        (getProcessCpuUsage 4242 webFirst.toCall {}).2).1] =
      [usageBetween webFirst webSecond] := h
    rw [hfirst, hsecond, husage] at hreport
    exact absurd hreport (by decide +kernel)

end AimrtComm.Monitor
