import AimrtComm.Minidump.MinidumpManager
import Mathlib.Algebra.Group.Nat.Defs
import Mathlib.Order.Monotone.Basic
import Mathlib.Tactic.Ring

/-!
# The names of dumps

A dump of a program has the name `<prog>_<10 digits>_<pid>.dmp`.  The parts can be read off the
name, so it belongs to one program only (`text_inj`), and the dumps of one program stand in the
order of their timestamps when they stand in the order of their paths (`stamp_le_of_dumpPath_le`).
-/

namespace AimrtComm.Minidump

/-- The parts of the name of a dump. -/
structure DumpName where
  prog : String
  time : List Char
  pid : List Char
  time_length : time.length = 10
  time_digit : ∀ c ∈ time, c.isDigit = true
  pid_ne : pid ≠ []
  pid_digit : ∀ c ∈ pid, c.isDigit = true

namespace DumpName

/-- The name. -/
def text (d : DumpName) : String :=
  d.prog ++ "_" ++ String.ofList d.time ++ "_" ++ String.ofList d.pid ++ ".dmp"

/-- The timestamp. -/
def stamp (d : DumpName) : ℕ := Nat.ofDigitChars 10 d.time 0

variable {d d' : DumpName}

theorem toList_text (d : DumpName) :
    d.text.toList = d.prog.toList ++ '_' :: (d.time ++ '_' :: (d.pid ++ ['.', 'd', 'm', 'p'])) := by
  simp [text]

theorem underscore_mem_text (d : DumpName) : '_' ∈ d.text.toList := by
  simp [toList_text]

theorem underscore_not_mem {s : List Char} (h : ∀ c ∈ s, c.isDigit = true) : '_' ∉ s := by
  intro hmem
  have hdigit := h '_' hmem
  simp at hdigit

/-- What is behind the last underscore. -/
theorem append_underscore_inj {p p' i i' : List Char} (hi : '_' ∉ i) (hi' : '_' ∉ i')
    (h : p ++ '_' :: i = p' ++ '_' :: i') : p = p' ∧ i = i' := by
  rcases List.append_eq_append_iff.mp h with ⟨c, rfl, hc⟩ | ⟨c, rfl, hc⟩
  · cases c with
    | nil => exact ⟨by simp, (List.cons.inj hc).2⟩
    | cons a c =>
      rw [List.cons_append] at hc
      exact absurd (by simp [(List.cons.inj hc).2]) hi
  · cases c with
    | nil => exact ⟨by simp, (List.cons.inj hc).2.symm⟩
    | cons a c =>
      rw [List.cons_append] at hc
      exact absurd (by simp [(List.cons.inj hc).2]) hi'

/-- Parts of a name that are put together in the same way are the same. -/
theorem parts_eq {p p' t t' i i' : List Char} {c : Char} (ht : t.length = t'.length)
    (hi : '_' ∉ i) (hi' : '_' ∉ i')
    (h : p ++ '_' :: (t ++ '_' :: (i ++ [c, 'd', 'm', 'p'])) =
      p' ++ '_' :: (t' ++ '_' :: (i' ++ ['.', 'd', 'm', 'p']))) :
    p = p' ∧ t = t' ∧ i = i' := by
  have hcut : p ++ '_' :: (t ++ '_' :: i) = p' ++ '_' :: (t' ++ '_' :: i') := by
    have happend : (p ++ '_' :: (t ++ '_' :: i)) ++ [c, 'd', 'm', 'p'] =
        (p' ++ '_' :: (t' ++ '_' :: i')) ++ ['.', 'd', 'm', 'p'] := by
      simpa using h
    exact (List.append_inj' happend rfl).1
  have hlast : (p ++ '_' :: t) ++ '_' :: i = (p' ++ '_' :: t') ++ '_' :: i' := by
    simpa using hcut
  obtain ⟨hhead, rfl⟩ := append_underscore_inj hi hi' hlast
  obtain ⟨hp, htime⟩ := List.append_inj' hhead (by simp [ht])
  exact ⟨hp, (List.cons.inj htime).2, rfl⟩

/-- The parts can be read off the name. -/
theorem text_inj (h : d.text = d'.text) : d = d' := by
  have hlist := congrArg String.toList h
  rw [toList_text, toList_text] at hlist
  obtain ⟨hprog, htime, hpid⟩ := parts_eq (d.time_length.trans d'.time_length.symm)
    (underscore_not_mem d.pid_digit) (underscore_not_mem d'.pid_digit) hlist
  cases d
  cases d'
  simp only at hprog htime hpid
  have hprog := String.toList_inj.mp hprog
  subst hprog htime hpid
  rfl

/-! ### The order of names -/

theorem isDigit_bounds {c : Char} (h : c.isDigit = true) : 48 ≤ c.toNat ∧ c.toNat ≤ 57 := by
  rw [Char.isDigit, Bool.and_eq_true, decide_eq_true_eq, decide_eq_true_eq] at h
  exact ⟨UInt32.le_iff_toNat_le.mp h.1, UInt32.le_iff_toNat_le.mp h.2⟩

theorem ofDigitChars_cons (c : Char) (s : List Char) :
    Nat.ofDigitChars 10 (c :: s) 0 = 10 ^ s.length * (c.toNat - 48) + Nat.ofDigitChars 10 s 0 := by
  rw [Nat.ofDigitChars_cons, Nat.ofDigitChars_eq_ofDigitChars_zero, Nat.mul_zero, Nat.zero_add]
  rfl

theorem ofDigitChars_lt {s : List Char} (h : ∀ c ∈ s, c.isDigit = true) :
    Nat.ofDigitChars 10 s 0 < 10 ^ s.length := by
  induction s with
  | nil => simp
  | cons c s ih =>
    have hc := isDigit_bounds (h c List.mem_cons_self)
    have hs := ih fun c hc => h c (List.mem_cons_of_mem _ hc)
    rw [ofDigitChars_cons, List.length_cons, pow_succ]
    have hdigit : 10 ^ s.length * (c.toNat - 48) ≤ 10 ^ s.length * 9 :=
      Nat.mul_le_mul_left _ (by omega)
    omega

/-- Of two numbers of the same length the less is first, whatever follows them. -/
theorem lt_of_ofDigitChars_lt {s s' r r' : List Char} (hlength : s.length = s'.length)
    (hs : ∀ c ∈ s, c.isDigit = true) (hs' : ∀ c ∈ s', c.isDigit = true)
    (h : Nat.ofDigitChars 10 s 0 < Nat.ofDigitChars 10 s' 0) : s ++ r < s' ++ r' := by
  induction s generalizing s' with
  | nil =>
    obtain rfl : s' = [] := List.length_eq_zero_iff.mp hlength.symm
    exact absurd h (Nat.lt_irrefl _)
  | cons c s ih =>
    cases s' with
    | nil => cases hlength
    | cons c' s' =>
      have hlength : s.length = s'.length := by simpa using hlength
      have hc := isDigit_bounds (hs c List.mem_cons_self)
      have hc' := isDigit_bounds (hs' c' List.mem_cons_self)
      rw [ofDigitChars_cons, ofDigitChars_cons, hlength] at h
      rw [List.cons_append, List.cons_append, List.cons_lt_cons_iff]
      rcases Nat.lt_trichotomy c.toNat c'.toNat with hlt | heq | hgt
      · exact .inl (UInt32.lt_iff_toNat_lt.mpr hlt)
      · rw [heq] at h
        exact .inr ⟨Char.toNat_inj.mp heq, ih hlength (fun c hc => hs c (List.mem_cons_of_mem _ hc))
          (fun c hc => hs' c (List.mem_cons_of_mem _ hc)) (by omega)⟩
      · -- the first digit decides
        have hless := ofDigitChars_lt fun c hc => hs' c (List.mem_cons_of_mem _ hc)
        have hdigit : 10 ^ s'.length * (c'.toNat - 48 + 1) ≤ 10 ^ s'.length * (c.toNat - 48) :=
          Nat.mul_le_mul_left _ (by omega)
        rw [Nat.mul_add, Nat.mul_one] at hdigit
        omega

theorem strictMono_append (s : String) : StrictMono fun name => s ++ name := by
  intro name name' h
  rw [String.lt_iff_toList_lt] at h ⊢
  rw [String.toList_append, String.toList_append]
  exact List.append_left_lt h

theorem dumpPath_strictMono : StrictMono dumpPath := strictMono_append _

/-- The dumps of a program are in the order of their timestamps when their paths are in order. -/
theorem stamp_le_of_dumpPath_le (hprog : d.prog = d'.prog)
    (h : dumpPath d.text ≤ dumpPath d'.text) : d.stamp ≤ d'.stamp := by
  rw [dumpPath_strictMono.le_iff_le] at h
  by_contra hlt
  have hless : d'.text < d.text := by
    rw [String.lt_iff_toList_lt, toList_text, toList_text, hprog]
    apply List.append_left_lt
    rw [List.cons_lt_cons_iff]
    refine .inr ⟨rfl, ?_⟩
    exact lt_of_ofDigitChars_lt (d'.time_length.trans d.time_length.symm) d'.time_digit d.time_digit
      (not_le.mp hlt)
  exact absurd h (not_le.mpr hless)

end DumpName

end AimrtComm.Minidump
