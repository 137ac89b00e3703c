import AimrtComm.Minidump.Equiv.DumpName

/-!
# The pattern of the dumps of a program

The program name stands unescaped in the pattern that says which dumps are its own.  `OwnPattern`
says that the pattern is read as it is meant.  It is for every name without a character of the
syntax, and it is not for a name with a dot among such characters (`ownPattern_iff_of_simple`).
-/

namespace AimrtComm.Minidump

open Regex

/-- The pattern of `prog` matches its own dumps, and neither those of others nor what breakpad has
just written. -/
def OwnPattern (rest : String → Option (String → Bool)) (prog : String) : Prop :=
  ∃ pattern, regex rest (dumpPattern prog) = some pattern ∧
    (∀ d : DumpName, pattern d.text = decide (d.prog = prog)) ∧
    ∀ name : String, '_' ∉ name.toList → pattern name = false

/-! ### What the pattern matches -/

/-- The items behind the program name. -/
def dumpItems : List Item :=
  [{ cls := .lit '_' }, { cls := .digit, lo := 10, hi := some 10 }, { cls := .lit '_' },
    { cls := .digit, lo := 1, hi := none }, { cls := .any }, { cls := .lit 'd' },
    { cls := .lit 'm' }, { cls := .lit 'p' }]

/-- The pattern of a simple name. -/
theorem parse_dumpPattern {prog : String} (h : ∀ c ∈ prog.toList, Simple c) :
    parse (dumpPattern prog).toList =
      some ((prog.toList.map classOf).map (fun cls => { cls := cls }) ++ dumpItems) := by
  have hpattern : (dumpPattern prog).toList =
      '^' :: (prog.toList ++ "_\\d\x7b10\x7d_\\d+.dmp$".toList) := by
    simp [dumpPattern]
  have hfuel : (dumpPattern prog).toList.length + 1 = 18 + prog.toList.length := by
    rw [hpattern]
    simp
    omega
  have hitems : parseItems 18 "_\\d\x7b10\x7d_\\d+.dmp$".toList = some dumpItems := by decide
  have hhead : (dumpPattern prog).toList.head? = some '^' := by rw [hpattern]; rfl
  have hnone : NoQuantifier "_\\d\x7b10\x7d_\\d+.dmp$".toList := by
    unfold NoQuantifier
    decide
  rw [parse, if_pos hhead, hfuel, hpattern, List.tail_cons, parseItems_simple h hnone, hitems]
  rfl

theorem matchItems_dumpItems {s : List Char} :
    matchItems dumpItems s = true ↔
      ∃ time pid c, s = '_' :: (time ++ '_' :: (pid ++ [c, 'd', 'm', 'p'])) ∧ time.length = 10 ∧
        (∀ c ∈ time, c.isDigit = true) ∧ pid ≠ [] ∧ (∀ c ∈ pid, c.isDigit = true) ∧
        CharClass.any.test c = true := by
  have hlit : ∀ {a : Char} {items : List Item} {s : List Char},
      matchItems ({ cls := .lit a } :: items) s = true ↔
        ∃ v, s = a :: v ∧ matchItems items v = true := by
    intro a items s
    rw [matchItems_once]
    constructor
    · rintro ⟨c, v, rfl, htest, hrest⟩
      rw [CharClass.test, beq_iff_eq] at htest
      exact ⟨v, by rw [htest], hrest⟩
    · rintro ⟨v, rfl, hrest⟩
      exact ⟨a, v, rfl, by simp [CharClass.test], hrest⟩
  constructor
  · intro h
    obtain ⟨s₁, rfl, h₁⟩ := hlit.mp h
    obtain ⟨time, s₂, rfl, htimes, htime, h₂⟩ := matchItems_cons.mp h₁
    obtain ⟨s₃, rfl, h₃⟩ := hlit.mp h₂
    obtain ⟨pid, s₄, rfl, hpids, hpid, h₄⟩ := matchItems_cons.mp h₃
    obtain ⟨c, s₅, rfl, hc, h₅⟩ := matchItems_once.mp h₄
    obtain ⟨s₆, rfl, h₆⟩ := hlit.mp h₅
    obtain ⟨s₇, rfl, h₇⟩ := hlit.mp h₆
    obtain ⟨s₈, rfl, h₈⟩ := hlit.mp h₇
    obtain rfl := matchItems_nil.mp h₈
    have hlength : time.length = 10 := by
      simp [Item.counts] at htimes
      omega
    have hne : pid ≠ [] := by
      rintro rfl
      simp [Item.counts] at hpids
    exact ⟨time, pid, c, rfl, hlength, htime, hne, hpid, hc⟩
  · rintro ⟨time, pid, c, rfl, hlength, htime, hne, hpid, hc⟩
    refine hlit.mpr ⟨_, rfl, matchItems_cons.mpr ⟨time, _, rfl, by simp [Item.counts, hlength],
      htime, hlit.mpr ⟨_, rfl, matchItems_cons.mpr ⟨pid, _, rfl, ?_, hpid,
        matchItems_once.mpr ⟨c, _, rfl, hc, by decide⟩⟩⟩⟩⟩
    have hpos := List.length_pos_iff.mpr hne
    simp [Item.counts]
    omega

/-! ### Simple names -/

/-- What the pattern of a simple name makes of a dump. -/
theorem matchItems_text {prog : String} {d : DumpName} :
    matchItems ((prog.toList.map classOf).map (fun cls => { cls := cls }) ++ dumpItems)
        d.text.toList = true ↔
      List.Forall₂ (fun cls c => cls.test c = true) (prog.toList.map classOf) d.prog.toList := by
  rw [matchItems_classes]
  constructor
  · rintro ⟨u, v, heq, hu, hv⟩
    obtain ⟨time, pid, c, rfl, hlength, -, -, hpid, -⟩ := matchItems_dumpItems.mp hv
    rw [DumpName.toList_text] at heq
    have hparts := DumpName.parts_eq (hlength.trans d.time_length.symm)
      (DumpName.underscore_not_mem hpid) (DumpName.underscore_not_mem d.pid_digit) heq.symm
    rw [← hparts.1]
    exact hu
  · intro h
    refine ⟨d.prog.toList, _, d.toList_text, h, matchItems_dumpItems.mpr ?_⟩
    exact ⟨d.time, d.pid, '.', rfl, d.time_length, d.time_digit, d.pid_ne, d.pid_digit, by decide⟩

/-- What is without an underscore is no dump. -/
theorem matchItems_no_underscore {classes : List CharClass} {s : List Char} (h : '_' ∉ s) :
    matchItems (classes.map (fun cls => { cls := cls }) ++ dumpItems) s = false := by
  rw [Bool.eq_false_iff]
  intro hmatch
  obtain ⟨u, v, rfl, -, hv⟩ := matchItems_classes.mp hmatch
  obtain ⟨time, pid, c, rfl, -⟩ := matchItems_dumpItems.mp hv
  simp at h

theorem forall₂_classOf_self (s : List Char) (h : ∀ c ∈ s, c ≠ '.') {t : List Char} :
    List.Forall₂ (fun cls c => cls.test c = true) (s.map classOf) t ↔ t = s := by
  induction s generalizing t with
  | nil => simp
  | cons a s ih =>
    have ha := h a List.mem_cons_self
    have hs := fun t => @ih (fun c hc => h c (List.mem_cons_of_mem _ hc)) t
    cases t with
    | nil => simp
    | cons b t =>
      have htest : (classOf a).test b = true ↔ b = a := by
        rw [classOf, if_neg ha, CharClass.test, beq_iff_eq]
        exact eq_comm
      rw [List.map_cons, List.forall₂_cons, hs, htest, List.cons.injEq]

/-- A name with an `x` for every dot is matched as well. -/
theorem forall₂_classOf_undotted (s : List Char) :
    List.Forall₂ (fun cls c => cls.test c = true) (s.map classOf)
      (s.map fun c => if c = '.' then 'x' else c) := by
  induction s with
  | nil => exact .nil
  | cons a s ih =>
    refine .cons ?_ ih
    by_cases ha : a = '.'
    · subst ha
      rfl
    · simp [classOf, ha, CharClass.test]

/-- The name with an `x` for every dot. -/
def undotted (prog : String) : String :=
  String.ofList (prog.toList.map fun c => if c = '.' then 'x' else c)

/-- A dump of some program. -/
def sampleDump (prog : String) : DumpName where
  prog := prog
  time := ['1', '7', '0', '0', '0', '0', '0', '0', '0', '0']
  pid := ['7']
  time_length := rfl
  time_digit := List.all_eq_true.mp (by decide)
  pid_ne := by decide
  pid_digit := List.all_eq_true.mp (by decide)

/-- **The pattern of a simple name is read as it is meant exactly when the name has no dot.** -/
theorem ownPattern_iff_of_simple {rest : String → Option (String → Bool)} {prog : String}
    (h : ∀ c ∈ prog.toList, Simple c) : OwnPattern rest prog ↔ '.' ∉ prog.toList := by
  have hregex : regex rest (dumpPattern prog) = some fun name =>
      matchItems ((prog.toList.map classOf).map (fun cls => { cls := cls }) ++ dumpItems)
        name.toList := by
    rw [regex, parse_dumpPattern h]
  constructor
  · rintro ⟨pattern, hpattern, hown, -⟩ hdot
    rw [hregex] at hpattern
    obtain rfl := Option.some.inj hpattern
    -- the program whose name has an `x` for every dot
    have hmatch := hown (sampleDump (undotted prog))
    have hprog : (undotted prog).toList =
        prog.toList.map fun c => if c = '.' then 'x' else c := by
      rw [undotted, String.toList_ofList]
    have htrue : matchItems ((prog.toList.map classOf).map (fun cls => { cls := cls }) ++
        dumpItems) (sampleDump (undotted prog)).text.toList = true := by
      rw [matchItems_text]
      show List.Forall₂ _ _ (undotted prog).toList
      rw [hprog]
      exact forall₂_classOf_undotted _
    have hsame : undotted prog = prog := decide_eq_true_eq.mp (hmatch.symm.trans htrue)
    rw [← hsame, hprog, List.mem_map] at hdot
    obtain ⟨c, -, hc⟩ := hdot
    split_ifs at hc with hdot
    · cases hc
    · exact hdot hc
  · intro hdot
    refine ⟨_, hregex, ?_, fun name hname => matchItems_no_underscore hname⟩
    intro d
    rw [Bool.eq_iff_iff, matchItems_text, forall₂_classOf_self, decide_eq_true_eq,
      String.toList_inj]
    intro c hc hd
    exact hdot (hd ▸ hc)

end AimrtComm.Minidump
