import Mathlib.Data.List.TakeWhile
import Mathlib.Data.Nat.Notation
import Mathlib.Logic.Function.Iterate

/-!
# Formatted input

Extraction from an input stream with `operator>>` in the "C" locale: an extraction skips white space
and then reads a word, or the digits of an unsigned number.  What is left to read is a list of
characters, and nothing at all after an extraction that failed.

An extraction reads a word at most (`wordCount_skipWord`, `wordCount_extractUInt64`), and it does
not look further than the end of it (`skipWord_append`, `extractUInt64_append`).  So extractions
that are fewer than the words in front of a place do not depend on what is behind it (`AgreeFor`).
-/

namespace AimrtComm.FormattedInput

/-- `isspace`. -/
def isSpace (c : Char) : Bool := c ∈ [' ', '\t', '\n', '\x0b', '\x0c', '\r']

/-- What is left to read; none after an extraction that failed. -/
abbrev Input := Option (List Char)

/-- The skipping of white space in front of an extraction. -/
def skipSpace (text : List Char) : List Char := text.dropWhile isSpace

/-- `input >> ignore` into a string. -/
def skipWord : Input → Input
  | none => none
  | some text =>
    let word := skipSpace text
    if word = [] then none else some (word.dropWhile fun c => !isSpace c)

/-- The sign in front of a number: whether it is a minus, and the digits. -/
def splitSign : List Char → Bool × List Char
  | '-' :: text => (true, text)
  | '+' :: text => (false, text)
  | text => (false, text)

/-- `input >> value` into an `unsigned long long`: the value and what is left to read.  With nothing
to read the value stays what it was, without digits it is zero, and it is the greatest one when the
digits say more. -/
def extractUInt64 (value : UInt64) : Input → UInt64 × Input
  | none => (value, none)
  | some text =>
    let text := skipSpace text
    if text = [] then (value, none)
    else
      let (negative, text) := splitSign text
      let digits := text.takeWhile Char.isDigit
      if digits = [] then (0, none)
      else
        let n := Nat.ofDigitChars 10 digits 0
        if n < UInt64.size then
          (if negative then -UInt64.ofNat n else UInt64.ofNat n, some (text.dropWhile Char.isDigit))
        else (UInt64.ofNat (UInt64.size - 1), none)

/-! ### Words -/

/-- The number of words of a text, after a character that was part of a word or not. -/
def wordsFrom (inWord : Bool) : List Char → ℕ
  | [] => 0
  | c :: text =>
    if isSpace c then wordsFrom false text
    else (if inWord then 0 else 1) + wordsFrom true text

/-- The number of words of a text. -/
def wordCount (text : List Char) : ℕ := wordsFrom false text

/-- A text that is one word. -/
structure IsWord (text : List Char) : Prop where
  ne_nil : text ≠ []
  not_space : ∀ c ∈ text, isSpace c = false

/-- A text that goes on with white space, if it goes on. -/
def Separated (text : List Char) : Prop := ∀ c ∈ text.head?, isSpace c = true

variable {c : Char} {text rest word : List Char} {value : UInt64} {inWord : Bool}

theorem isDigit_of_isSpace (h : isSpace c = true) : c.isDigit = false := by
  have hmem : c ∈ [' ', '\t', '\n', '\x0b', '\x0c', '\r'] := of_decide_eq_true h
  have hall : ([' ', '\t', '\n', '\x0b', '\x0c', '\r'].all fun c => !c.isDigit) = true := rfl
  exact (Bool.not_eq_true' _).mp (List.all_eq_true.1 hall c hmem)

theorem isSpace_of_isDigit (h : c.isDigit = true) : isSpace c = false := by
  rw [Bool.eq_false_iff]
  intro hspace
  rw [isDigit_of_isSpace hspace] at h
  exact Bool.false_ne_true h

theorem separated_nil : Separated [] := fun _ h => nomatch h

theorem separated_cons (h : isSpace c = true) (text : List Char) : Separated (c :: text) := by
  intro c' hc'
  obtain rfl := Option.some.inj hc'
  exact h

theorem wordsFrom_true_le (text : List Char) : wordsFrom true text ≤ wordsFrom false text := by
  cases text with
  | nil => exact Nat.le_refl _
  | cons c text =>
    unfold wordsFrom
    by_cases h : isSpace c = true
    · rw [if_pos h, if_pos h]
    · rw [if_neg h, if_neg h, if_pos rfl, if_neg Bool.false_ne_true]
      omega

/-- White space ends a word. -/
theorem wordsFrom_append_space (h : isSpace c = true) (inWord : Bool) (text rest : List Char) :
    wordsFrom inWord (text ++ c :: rest) = wordsFrom inWord text + wordCount rest := by
  induction text generalizing inWord with
  | nil =>
    show wordsFrom inWord (c :: rest) = 0 + wordCount rest
    rw [Nat.zero_add, wordsFrom, if_pos h]
    rfl
  | cons c' text ih =>
    rw [List.cons_append, wordsFrom, wordsFrom]
    split_ifs
    · exact ih false
    · rw [ih true, Nat.add_assoc]
    · rw [ih true, Nat.add_assoc]

theorem wordCount_append_space (h : isSpace c = true) (text rest : List Char) :
    wordCount (text ++ c :: rest) = wordCount text + wordCount rest :=
  wordsFrom_append_space h false text rest

theorem wordsFrom_true_append (h : ∀ c ∈ word, isSpace c = false) (rest : List Char) :
    wordsFrom true (word ++ rest) = wordsFrom true rest := by
  induction word with
  | nil => rfl
  | cons c word ih =>
    rw [List.cons_append, wordsFrom, h c List.mem_cons_self, if_neg Bool.false_ne_true, if_pos rfl,
      Nat.zero_add]
    exact ih fun c hc => h c (List.mem_cons_of_mem _ hc)

/-- What has no white space in it is a word at most. -/
theorem wordCount_append_le (h : ∀ c ∈ word, isSpace c = false) (rest : List Char) :
    wordCount (word ++ rest) ≤ wordCount rest + 1 := by
  unfold wordCount
  cases word with
  | nil => exact Nat.le_succ _
  | cons c word =>
    rw [List.cons_append, wordsFrom, h c List.mem_cons_self, if_neg Bool.false_ne_true,
      if_neg Bool.false_ne_true, wordsFrom_true_append fun c hc => h c (List.mem_cons_of_mem _ hc)]
    have hle := wordsFrom_true_le rest
    -- the word may go on in `rest`, which then has one word less
    omega

theorem wordCount_skipSpace (text : List Char) : wordCount (skipSpace text) = wordCount text := by
  unfold skipSpace wordCount
  induction text with
  | nil => rfl
  | cons c text ih =>
    rw [List.dropWhile_cons]
    split_ifs with h
    · rw [ih, wordsFrom, if_pos h]
    · rfl

theorem wordCount_pos (h : c ∈ text) (hc : isSpace c = false) : 0 < wordCount text := by
  unfold wordCount
  induction text with
  | nil => exact absurd h List.not_mem_nil
  | cons c' text ih =>
    unfold wordsFrom
    by_cases hspace : isSpace c' = true
    · rw [if_pos hspace]
      refine ih ((List.mem_cons.1 h).resolve_left ?_)
      rintro rfl
      rw [hc] at hspace
      exact Bool.false_ne_true hspace
    · rw [if_neg hspace, if_neg Bool.false_ne_true]
      omega

theorem IsWord.wordCount_pos (h : IsWord word) : 0 < wordCount word := by
  obtain ⟨c, hc⟩ := List.exists_mem_of_ne_nil word h.ne_nil
  exact FormattedInput.wordCount_pos hc (h.not_space c hc)

theorem skipSpace_ne_nil (h : 0 < wordCount text) : skipSpace text ≠ [] := by
  intro hnil
  rw [← wordCount_skipSpace, hnil] at h
  exact Nat.lt_irrefl 0 h

/-! ### Extraction -/

section Append

variable {p : Char → Bool} (hrest : ∀ c ∈ rest.head?, p c = false)

include hrest

theorem takeWhile_append_of_head (text : List Char) :
    (text ++ rest).takeWhile p = text.takeWhile p := by
  induction text with
  | nil =>
    cases rest with
    | nil => rfl
    | cons c rest =>
      exact List.takeWhile_cons_of_neg (by rw [hrest c rfl]; exact Bool.false_ne_true)
  | cons c text ih => rw [List.cons_append, List.takeWhile_cons, List.takeWhile_cons, ih]

theorem dropWhile_append_of_head (text : List Char) :
    (text ++ rest).dropWhile p = text.dropWhile p ++ rest := by
  induction text with
  | nil =>
    cases rest with
    | nil => rfl
    | cons c rest =>
      exact List.dropWhile_cons_of_neg (by rw [hrest c rfl]; exact Bool.false_ne_true)
  | cons c text ih =>
    rw [List.cons_append, List.dropWhile_cons, List.dropWhile_cons, ih]
    split_ifs
    · rfl
    · rfl

end Append

theorem skipSpace_append (h : skipSpace text ≠ []) (rest : List Char) :
    skipSpace (text ++ rest) = skipSpace text ++ rest := by
  unfold skipSpace at h ⊢
  rw [List.dropWhile_append, if_neg (by simpa using h)]

theorem splitSign_append (h : text ≠ []) (rest : List Char) :
    splitSign (text ++ rest) = ((splitSign text).1, (splitSign text).2 ++ rest) := by
  cases text with
  | nil => exact absurd rfl h
  | cons c text =>
    rw [List.cons_append]
    unfold splitSign
    split <;> simp_all

/-- A word is read without a look at what is behind it. -/
theorem skipWord_append (h : skipSpace text ≠ []) (hrest : Separated rest) :
    skipWord (some (text ++ rest)) = (skipWord (some text)).map (· ++ rest) := by
  unfold skipWord
  dsimp only
  rw [skipSpace_append h, if_neg h, if_neg (List.append_ne_nil_of_left_ne_nil h rest),
    dropWhile_append_of_head fun c hc => by rw [hrest c hc]; rfl]
  rfl

/-- And so is a number. -/
theorem extractUInt64_append (value : UInt64) (h : skipSpace text ≠ []) (hrest : Separated rest) :
    extractUInt64 value (some (text ++ rest)) =
      ((extractUInt64 value (some text)).1,
        (extractUInt64 value (some text)).2.map (· ++ rest)) := by
  have hdigit : ∀ c ∈ rest.head?, c.isDigit = false := fun c hc => isDigit_of_isSpace (hrest c hc)
  unfold extractUInt64
  dsimp only
  rw [skipSpace_append h, if_neg h, if_neg (List.append_ne_nil_of_left_ne_nil h rest),
    splitSign_append h]
  dsimp only
  rw [takeWhile_append_of_head hdigit, dropWhile_append_of_head hdigit]
  split_ifs <;> rfl

/-! ### What is left -/

theorem splitSign_spec (text : List Char) :
    ∃ sign, (∀ c ∈ sign, isSpace c = false) ∧ text = sign ++ (splitSign text).2 := by
  unfold splitSign
  split
  · exact ⟨['-'], List.forall_mem_singleton.2 rfl, rfl⟩
  · exact ⟨['+'], List.forall_mem_singleton.2 rfl, rfl⟩
  · exact ⟨[], List.forall_mem_nil _, rfl⟩

/-- Reading a word takes a word. -/
theorem wordCount_skipWord (h : skipWord (some text) = some rest) :
    wordCount text ≤ wordCount rest + 1 := by
  unfold skipWord at h
  dsimp only at h
  split_ifs at h with hnil
  obtain rfl := Option.some.inj h
  have hword : ∀ c ∈ (skipSpace text).takeWhile fun c => !isSpace c, isSpace c = false :=
    fun c hc => by simpa using List.mem_takeWhile_imp hc
  have hle := wordCount_append_le hword ((skipSpace text).dropWhile fun c => !isSpace c)
  rw [List.takeWhile_append_dropWhile, wordCount_skipSpace] at hle
  exact hle

/-- Reading a number takes a word at most. -/
theorem wordCount_extractUInt64 (h : (extractUInt64 value (some text)).2 = some rest) :
    wordCount text ≤ wordCount rest + 1 := by
  obtain ⟨sign, hsign, htext⟩ := splitSign_spec (skipSpace text)
  have hleft : (splitSign (skipSpace text)).2.dropWhile Char.isDigit = rest := by
    unfold extractUInt64 at h
    dsimp only at h
    split_ifs at h
    · exact Option.some.inj h
    · exact Option.some.inj h
  subst hleft
  obtain ⟨digits, hdigits⟩ : ∃ digits, (splitSign (skipSpace text)).2 = digits := ⟨_, rfl⟩
  rw [hdigits] at htext ⊢
  -- what was taken is a sign and digits, without white space in it
  have hword : ∀ c ∈ sign ++ digits.takeWhile Char.isDigit, isSpace c = false := by
    intro c hc
    rcases List.mem_append.1 hc with hc | hc
    · exact hsign c hc
    · exact isSpace_of_isDigit (List.mem_takeWhile_imp hc)
  have hle := wordCount_append_le hword (digits.dropWhile Char.isDigit)
  rw [List.append_assoc, List.takeWhile_append_dropWhile, ← htext, wordCount_skipSpace] at hle
  exact hle

/-! ### Words and numbers -/

theorem skipSpace_word (h : IsWord word) : skipSpace word = word := by
  cases word with
  | nil => exact absurd rfl h.ne_nil
  | cons c word =>
    exact List.dropWhile_cons_of_neg
      (by rw [h.not_space c List.mem_cons_self]; exact Bool.false_ne_true)

theorem skipSpace_cons (h : isSpace c = true) (text : List Char) :
    skipSpace (c :: text) = skipSpace text := List.dropWhile_cons_of_pos h

theorem skipWord_word (h : IsWord word) : skipWord (some word) = some [] := by
  unfold skipWord
  dsimp only
  rw [skipSpace_word h, if_neg h.ne_nil]
  exact congrArg some (List.dropWhile_eq_nil_iff.2 fun c hc => by rw [h.not_space c hc]; rfl)

/-- Reading the first word of a text. -/
theorem skipWord_append_word (h : IsWord word) (hrest : Separated rest) :
    skipWord (some (word ++ rest)) = some rest := by
  rw [skipWord_append (by rw [skipSpace_word h]; exact h.ne_nil) hrest, skipWord_word h]
  rfl

theorem skipWord_cons (h : isSpace c = true) (text : List Char) :
    skipWord (some (c :: text)) = skipWord (some text) := by
  unfold skipWord
  dsimp only
  rw [skipSpace_cons h]

theorem extractUInt64_cons (value : UInt64) (h : isSpace c = true) (text : List Char) :
    extractUInt64 value (some (c :: text)) = extractUInt64 value (some text) := by
  unfold extractUInt64
  dsimp only
  rw [skipSpace_cons h]

theorem isWord_digits (n : ℕ) : IsWord (Nat.toDigits 10 n) where
  ne_nil := Nat.toDigits_ne_nil
  not_space c hc :=
    isSpace_of_isDigit (Nat.isDigit_of_mem_toDigits (by decide) (Nat.le_refl 10) hc)

theorem splitSign_of_isDigit (h : ∀ c ∈ text.head?, c.isDigit = true) :
    splitSign text = (false, text) := by
  unfold splitSign
  split
  · exact absurd (h '-' rfl) (by decide)
  · exact absurd (h '+' rfl) (by decide)
  · rfl

/-- An unsigned number is read as it was written. -/
theorem extractUInt64_digits (value n : UInt64) :
    extractUInt64 value (some (Nat.toDigits 10 n.toNat)) = (n, some []) := by
  have hword := isWord_digits n.toNat
  have hdigits : ∀ c ∈ Nat.toDigits 10 n.toNat, c.isDigit = true := fun c hc =>
    Nat.isDigit_of_mem_toDigits (by decide) (Nat.le_refl 10) hc
  have hsign : splitSign (Nat.toDigits 10 n.toNat) = (false, Nat.toDigits 10 n.toNat) :=
    splitSign_of_isDigit fun c hc => hdigits c (List.mem_of_mem_head? hc)
  unfold extractUInt64
  dsimp only
  rw [skipSpace_word hword, if_neg hword.ne_nil, hsign]
  dsimp only
  rw [List.takeWhile_eq_self_iff.2 hdigits, List.dropWhile_eq_nil_iff.2 hdigits,
    if_neg hword.ne_nil, Nat.ofDigitChars_ten_toDigits, if_pos n.toNat_lt_size,
    if_neg Bool.false_ne_true, UInt64.ofNat_toNat]

/-- Reading the number that a text begins with. -/
theorem extractUInt64_append_digits (value n : UInt64) (hrest : Separated rest) :
    extractUInt64 value (some (Nat.toDigits 10 n.toNat ++ rest)) = (n, some rest) := by
  have hword := isWord_digits n.toNat
  rw [extractUInt64_append value (by rw [skipSpace_word hword]; exact hword.ne_nil) hrest,
    extractUInt64_digits]
  rfl

/-! ### Reading to the end -/

/-- A number that is read makes the rest shorter. -/
theorem length_extractUInt64 (h : (extractUInt64 value (some text)).2 = some rest) :
    rest.length < text.length := by
  obtain ⟨sign, -, htext⟩ := splitSign_spec (skipSpace text)
  have hspace : (skipSpace text).length ≤ text.length := (List.dropWhile_sublist _).length_le
  rw [htext, List.length_append] at hspace
  unfold extractUInt64 at h
  dsimp only at h
  obtain ⟨digits, hdigits⟩ : ∃ digits, (splitSign (skipSpace text)).2 = digits := ⟨_, rfl⟩
  rw [hdigits] at hspace h
  have hlength : (digits.takeWhile Char.isDigit ++ digits.dropWhile Char.isDigit).length =
      digits.length := congrArg List.length List.takeWhile_append_dropWhile
  rw [List.length_append] at hlength
  split_ifs at h with hnil hnone
  all_goals
    obtain rfl := Option.some.inj h
    have hpos := List.length_pos_iff.2 hnone
    omega

/-- `while (input >> value)`: the values. -/
def extractAll (text : List Char) : List UInt64 :=
  match _h : extractUInt64 0 (some text) with
  | (_, none) => []
  | (value, some rest) => value :: extractAll rest
termination_by text.length
decreasing_by exact length_extractUInt64 (congrArg Prod.snd _h)

theorem extractAll_of_eq_some (h : extractUInt64 0 (some text) = (value, some rest)) :
    extractAll text = value :: extractAll rest := by
  rw [extractAll]
  split
  · rename_i h'
    cases h.symm.trans h'
  · rename_i h'
    cases h.symm.trans h'
    rfl

theorem extractAll_of_eq_none (h : extractUInt64 0 (some text) = (value, none)) :
    extractAll text = [] := by
  rw [extractAll]
  split
  · rfl
  · rename_i h'
    cases h.symm.trans h'

theorem extractAll_nil : extractAll [] = [] := extractAll_of_eq_none rfl

theorem extractAll_cons (h : isSpace c = true) (text : List Char) :
    extractAll (c :: text) = extractAll text := by
  have hread := extractUInt64_cons 0 h text
  rcases htext : extractUInt64 0 (some text) with ⟨value, _ | rest⟩
  · rw [extractAll_of_eq_none htext, extractAll_of_eq_none (hread.trans htext)]
  · rw [extractAll_of_eq_some htext, extractAll_of_eq_some (hread.trans htext)]

/-- Numbers with white space in front of each are read as they were written. -/
theorem extractAll_numbers (h : isSpace c = true) (numbers : List UInt64) :
    extractAll (numbers.flatMap fun n => c :: Nat.toDigits 10 n.toNat) = numbers := by
  induction numbers with
  | nil => exact extractAll_nil
  | cons n numbers ih =>
    have hrest : Separated (numbers.flatMap fun n => c :: Nat.toDigits 10 n.toNat) := by
      cases numbers with
      | nil => exact separated_nil
      | cons n' numbers => exact separated_cons h _
    rw [List.flatMap_cons, extractAll_of_eq_some, ih]
    rw [List.cons_append, extractUInt64_cons 0 h]
    exact extractUInt64_append_digits 0 n hrest

/-! ### What is not looked at -/

/-- Two inputs that are the same for a number of words, or to their ends. -/
def AgreeFor (n : ℕ) (input input' : Input) : Prop :=
  input = input' ∨ ∃ text rest rest', Separated rest ∧ Separated rest' ∧
    input = some (text ++ rest) ∧ input' = some (text ++ rest') ∧ n ≤ wordCount text

variable {n : ℕ} {input input' : Input}

/-- Reading a word where the inputs agree. -/
theorem agreeFor_skipWord (h : AgreeFor (n + 1) input input') :
    AgreeFor n (skipWord input) (skipWord input') := by
  rcases h with rfl | ⟨text, rest, rest', hrest, hrest', rfl, rfl, hn⟩
  · exact Or.inl rfl
  · have htext : skipSpace text ≠ [] := skipSpace_ne_nil (by omega)
    -- there is a word left before the inputs differ
    rw [skipWord_append htext hrest, skipWord_append htext hrest']
    cases hleft : skipWord (some text) with
    | none => exact Or.inl rfl
    | some left =>
      have hle := wordCount_skipWord hleft
      exact Or.inr ⟨left, rest, rest', hrest, hrest', rfl, rfl, by omega⟩

/-- Reading a number where the inputs agree. -/
theorem agreeFor_extractUInt64 (value : UInt64) (h : AgreeFor (n + 1) input input') :
    (extractUInt64 value input).1 = (extractUInt64 value input').1 ∧
      AgreeFor n (extractUInt64 value input).2 (extractUInt64 value input').2 := by
  rcases h with rfl | ⟨text, rest, rest', hrest, hrest', rfl, rfl, hn⟩
  · exact ⟨rfl, Or.inl rfl⟩
  · have htext : skipSpace text ≠ [] := skipSpace_ne_nil (by omega)
    rw [extractUInt64_append value htext hrest, extractUInt64_append value htext hrest']
    refine ⟨rfl, ?_⟩
    cases hleft : (extractUInt64 value (some text)).2 with
    | none => exact Or.inl rfl
    | some left =>
      have hle := wordCount_extractUInt64 hleft
      exact Or.inr ⟨left, rest, rest', hrest, hrest', rfl, rfl, by omega⟩

/-- Reading words where the inputs agree. -/
theorem agreeFor_iterate_skipWord (k : ℕ) (h : AgreeFor (n + k) input input') :
    AgreeFor n (skipWord^[k] input) (skipWord^[k] input') := by
  induction k generalizing input input' with
  | zero => exact h
  | succ k ih => exact ih (agreeFor_skipWord h)

end AimrtComm.FormattedInput
