import Mathlib.Data.Char
import Mathlib.Data.List.Basic
import Mathlib.Data.List.Forall2
import Mathlib.Data.String.Basic

/-!
# Regular expressions without groups

The part of the ECMAScript grammar in which a pattern is a row of items, each a character, `.` or
`\d` with a quantifier, between `^` and `$`.  `parse` reads such a pattern and is `none` on any
other one, and `matchItems` matches a whole text as `regex_match` does, where the anchors say
nothing more.  `regex` and `regexMatch` leave what is beyond that to a parameter.
-/

namespace AimrtComm.Regex

/-- What one character of the text is matched with. -/
inductive CharClass where
  | lit (c : Char)
  | any
  | digit
  deriving DecidableEq

/-- The character is in the class; `.` is no end of a line. -/
def CharClass.test : CharClass → Char → Bool
  | .lit c, d => c == d
  | .any, d => d != '\n' && d != '\r'
  | .digit, d => d.isDigit

/-- A class, how often it occurs at least, and at most if there is a bound. -/
structure Item where
  cls : CharClass
  lo : ℕ := 1
  hi : Option ℕ := some 1
  deriving DecidableEq

/-- So many characters are not too few and not too many. -/
def Item.counts (item : Item) (n : ℕ) : Bool := item.lo ≤ n && item.hi.all (n ≤ ·)

/-- The items match the whole text. -/
def matchItems : List Item → List Char → Bool
  | [], s => s.isEmpty
  | item :: items, s =>
    (List.range (s.length + 1)).any fun n =>
      item.counts n && (s.take n).all item.cls.test && matchItems items (s.drop n)

/-! ### Patterns -/

/-- The characters that are not matched as they are. -/
def isSyntax (c : Char) : Bool :=
  ['^', '$', '\\', '.', '*', '+', '?', '(', ')', '[', ']', '\x7b', '\x7d', '|'].contains c

/-- The class at the head of a pattern. -/
def parseClass : List Char → Option (CharClass × List Char)
  | '.' :: s => some (.any, s)
  | '\\' :: 'd' :: s => some (.digit, s)
  | c :: s => if isSyntax c then none else some (.lit c, s)
  | [] => none

/-- The number before a closing brace. -/
def parseCount : Option ℕ → List Char → Option (ℕ × List Char)
  | n, '\x7d' :: s => n.map fun n => (n, s)
  | n, c :: s => if c.isDigit then parseCount (some (n.getD 0 * 10 + (c.toNat - 48))) s else none
  | _, [] => none

/-- The quantifier at the head of a pattern; without one an item occurs once. -/
def parseQuantifier : List Char → Option (ℕ × Option ℕ × List Char)
  | '+' :: s => some (1, none, s)
  | '*' :: s => some (0, none, s)
  | '?' :: s => some (0, some 1, s)
  | '\x7b' :: s => (parseCount none s).map fun count => (count.1, some count.1, count.2)
  | s => some (1, some 1, s)

/-- The items of a pattern that has at most so many. -/
def parseItems : ℕ → List Char → Option (List Item)
  | 0, _ => none
  | fuel + 1, s =>
    if s = [] ∨ s = ['$'] then some []
    else do
      let (cls, s) ← parseClass s
      let (lo, hi, s) ← parseQuantifier s
      let items ← parseItems fuel s
      some ({ cls := cls, lo := lo, hi := hi } :: items)

/-- The items of a pattern. -/
def parse (s : List Char) : Option (List Item) :=
  parseItems (s.length + 1) (if s.head? = some '^' then s.tail else s)

/-- `std::regex`: a pattern in a row of items, or else what `rest` makes of it, `none` when it
throws `regex_error`. -/
def regex (rest : String → Option (String → Bool)) (pattern : String) :
    Option (String → Bool) :=
  match parse pattern.toList with
  | some items => some fun name => matchItems items name.toList
  | none => rest pattern

/-- `std::regex_match` of a text with a pattern, `none` when the pattern throws. -/
def regexMatch (rest : String → Option (String → Bool)) (text pattern : String) : Option Bool :=
  (regex rest pattern).map fun pattern => pattern text

/-! ### Matching -/

theorem matchItems_nil {s : List Char} : matchItems [] s = true ↔ s = [] := by
  simp [matchItems]

/-- An item matches a part at the head of the text. -/
theorem matchItems_cons {item : Item} {items : List Item} {s : List Char} :
    matchItems (item :: items) s = true ↔
      ∃ u v, s = u ++ v ∧ item.counts u.length = true ∧ (∀ c ∈ u, item.cls.test c = true) ∧
        matchItems items v = true := by
  rw [matchItems, List.any_eq_true]
  constructor
  · rintro ⟨n, hn, hmatch⟩
    rw [List.mem_range] at hn
    rw [Bool.and_eq_true, Bool.and_eq_true, List.all_eq_true] at hmatch
    obtain ⟨⟨hcount, htest⟩, hrest⟩ := hmatch
    have hlength : (s.take n).length = n := by
      rw [List.length_take]
      omega
    exact ⟨s.take n, s.drop n, (List.take_append_drop n s).symm, by rw [hlength]; exact hcount,
      htest, hrest⟩
  · rintro ⟨u, v, rfl, hcount, htest, hrest⟩
    refine ⟨u.length, ?_, ?_⟩
    · rw [List.mem_range, List.length_append]
      omega
    · rw [List.take_left, List.drop_left, Bool.and_eq_true, Bool.and_eq_true, List.all_eq_true]
      exact ⟨⟨hcount, htest⟩, hrest⟩

/-- A class that occurs once. -/
theorem matchItems_once {cls : CharClass} {items : List Item} {s : List Char} :
    matchItems ({ cls := cls } :: items) s = true ↔
      ∃ c v, s = c :: v ∧ cls.test c = true ∧ matchItems items v = true := by
  rw [matchItems_cons]
  constructor
  · rintro ⟨u, v, rfl, hcount, htest, hrest⟩
    have hlength : u.length = 1 := by
      simp only [Item.counts, Option.all_some, Bool.and_eq_true, decide_eq_true_eq] at hcount
      omega
    obtain ⟨c, rfl⟩ := List.length_eq_one_iff.mp hlength
    exact ⟨c, v, rfl, htest c (List.mem_singleton_self c), hrest⟩
  · rintro ⟨c, v, rfl, htest, hrest⟩
    refine ⟨[c], v, rfl, rfl, ?_, hrest⟩
    intro d hd
    rw [List.mem_singleton.mp hd]
    exact htest

/-- Classes that occur once each. -/
theorem matchItems_classes {classes : List CharClass} {items : List Item} {s : List Char} :
    matchItems (classes.map (fun cls => { cls := cls }) ++ items) s = true ↔
      ∃ u v, s = u ++ v ∧ List.Forall₂ (fun cls c => cls.test c = true) classes u ∧
        matchItems items v = true := by
  induction classes generalizing s with
  | nil => simp
  | cons cls classes ih =>
    rw [List.map_cons, List.cons_append, matchItems_once]
    constructor
    · rintro ⟨c, v, rfl, htest, hrest⟩
      obtain ⟨u, w, rfl, hu, hw⟩ := ih.mp hrest
      exact ⟨c :: u, w, rfl, .cons htest hu, hw⟩
    · rintro ⟨u, w, rfl, hu, hw⟩
      cases hu with
      | cons htest hu => exact ⟨_, _, rfl, htest, ih.mpr ⟨_, w, rfl, hu, hw⟩⟩

/-! ### Parsing -/

/-- No quantifier stands at the head of the pattern. -/
def NoQuantifier (s : List Char) : Prop := parseQuantifier s = some (1, some 1, s)

theorem noQuantifier_cons {c : Char} (h : isSyntax c = false) (s : List Char) :
    NoQuantifier (c :: s) := by
  unfold NoQuantifier parseQuantifier
  split
  · simp_all [isSyntax]
  · simp_all [isSyntax]
  · simp_all [isSyntax]
  · simp_all [isSyntax]
  · rfl

/-- A character that is a class without more: one that stands for itself, or `.`. -/
def Simple (c : Char) : Prop := c = '.' ∨ isSyntax c = false

/-- Its class. -/
def classOf (c : Char) : CharClass := if c = '.' then .any else .lit c

theorem parseClass_cons {c : Char} (h : Simple c) (s : List Char) :
    parseClass (c :: s) = some (classOf c, s) := by
  rcases h with rfl | h
  · rfl
  · have hdot : c ≠ '.' := by
      rintro rfl
      simp [isSyntax] at h
    rw [classOf, if_neg hdot]
    unfold parseClass
    split
    · simp_all
    · simp_all [isSyntax]
    · simp_all
    · simp_all

theorem noQuantifier_simple {c : Char} (h : Simple c) (s : List Char) : NoQuantifier (c :: s) := by
  rcases h with rfl | h
  · rfl
  · exact noQuantifier_cons h s

/-- The classes at the head of a pattern. -/
theorem parseItems_simple {p s : List Char} (hp : ∀ c ∈ p, Simple c) (hs : NoQuantifier s)
    (fuel : ℕ) :
    parseItems (fuel + p.length) (p ++ s) =
      (parseItems fuel s).map ((p.map classOf).map (fun cls => { cls := cls }) ++ ·) := by
  induction p with
  | nil => simp
  | cons c p ih =>
    have hc := hp c List.mem_cons_self
    have hdollar : c ≠ '$' := by
      rintro rfl
      rcases hc with hc | hc
      · cases hc
      · simp [isSyntax] at hc
    have hrest : parseQuantifier (p ++ s) = some (1, some 1, p ++ s) := by
      cases p with
      | nil => exact hs
      | cons d p => exact noQuantifier_simple (hp d (by simp)) _
    have htail := ih fun c hc => hp c (List.mem_cons_of_mem _ hc)
    rw [List.length_cons, ← Nat.add_assoc, List.cons_append, parseItems, if_neg (by simp [hdollar])]
    cases hitems : parseItems fuel s with
    | none => simp [parseClass_cons hc, hrest, htail, hitems]
    | some items => simp [parseClass_cons hc, hrest, htail, hitems]

/-! ### Plain patterns -/

/-- A row of characters matches itself only. -/
theorem matchItems_lit {p s : List Char} :
    matchItems (p.map fun c => { cls := .lit c }) s = true ↔ s = p := by
  induction p generalizing s with
  | nil => exact matchItems_nil
  | cons c p ih =>
    rw [List.map_cons, matchItems_once]
    constructor
    · rintro ⟨d, v, rfl, htest, hrest⟩
      rw [CharClass.test, beq_iff_eq] at htest
      rw [htest, ih.mp hrest]
    · rintro rfl
      exact ⟨c, p, rfl, by simp [CharClass.test], ih.mpr rfl⟩

theorem parse_plain {p : List Char} (h : ∀ c ∈ p, isSyntax c = false) :
    parse p = some (p.map fun c => { cls := .lit c }) := by
  have hhead : p.head? ≠ some '^' := by
    intro hhead
    have hcaret := h '^' (List.mem_of_head? hhead)
    simp [isSyntax] at hcaret
  have hitems := parseItems_simple (fun c hc => Or.inr (h c hc)) (s := []) rfl 1
  have hclasses : p.map classOf = p.map CharClass.lit := by
    refine List.map_congr_left fun c hc => if_neg ?_
    rintro rfl
    have hdot := h '.' hc
    simp [isSyntax] at hdot
  rw [parse, if_neg hhead, Nat.add_comm]
  rw [List.append_nil] at hitems
  rw [hitems, hclasses, List.map_map]
  simp [parseItems, Function.comp_def]

/-- A pattern without a character of the syntax matches itself only. -/
theorem regexMatch_plain (rest : String → Option (String → Bool)) {pattern : String}
    (h : ∀ c ∈ pattern.toList, isSyntax c = false) (text : String) :
    regexMatch rest text pattern = some (decide (text = pattern)) := by
  unfold regexMatch regex
  rw [parse_plain h, Option.map_some, Option.some.injEq, Bool.eq_iff_iff, matchItems_lit,
    decide_eq_true_iff, String.toList_inj]

end AimrtComm.Regex
