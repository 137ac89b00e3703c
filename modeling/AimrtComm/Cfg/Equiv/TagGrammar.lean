import AimrtComm.Cfg.Equiv.PatchMode
import AimrtComm.Lib.FoldExcept
import Mathlib.Data.List.Induction
import Mathlib.Data.List.Nodup
import Mathlib.Data.List.Perm.Basic
import Mathlib.Tactic.SplitIfs

/-!
# The tags that are accepted

`AnalyzePatchMode` reads the words of a tag one by one; each belongs to a group, and a group may
occur once (`analyzePatchMode_eq_ok_iff`).  The groups are not the actions: `override.front` and
`merge` are accepted next to other actions, and whatever starts with `merge` is read as `merge`.
Apart from these slips (`Slips`) the accepted tags are those of the grammar, with one action and one
new word at most; the order of the words does not matter in any case (`followsGrammar_iff`).
-/

namespace AimrtComm

/-! ### Flags -/

namespace PatchMode

theorem has_or (a b c : PatchMode) : (a.or b).has c = (a.has c || b.has c) := by
  have hzero : (a.bits ||| b.bits) &&& c.bits = 0#32 ↔
      a.bits &&& c.bits = 0#32 ∧ b.bits &&& c.bits = 0#32 := by
    rw [BitVec.and_or_distrib_right, BitVec.or_eq_zero_iff]
  unfold has or
  rw [Bool.eq_iff_iff]
  simp only [Bool.or_eq_true, bne_iff_ne, ne_eq]
  show ¬ _ = 0#32 ↔ ¬ _ = 0#32 ∨ ¬ _ = 0#32
  rw [hzero, not_and_or]

theorem has_comm (a b : PatchMode) : a.has b = b.has a := by
  unfold has
  rw [BitVec.and_comm]

theorem has_or_right (a b c : PatchMode) : a.has (b.or c) = (a.has b || a.has c) := by
  rw [has_comm, has_or, has_comm b, has_comm c]

theorem or_right_comm (a b c : PatchMode) : (a.or b).or c = (a.or c).or b := by
  unfold or
  rw [BitVec.or_assoc, BitVec.or_comm b.bits, ← BitVec.or_assoc]

end PatchMode

namespace Cfg

open PatchMode

/-! ### Words -/

/-- A word of a tag. -/
inductive TagWord where
  | action (a : Action)
  | new (n : NewWord)
deriving DecidableEq, Repr

/-- Words of one group exclude each other. -/
inductive WordGroup where
  | delete
  | skip
  | new
  | override
  | merge
deriving DecidableEq, Repr

namespace TagWord

/-- How the word is written. -/
def text : TagWord → String
  | action a => a.text
  | new n => n.text

/-- Its flag. -/
def mode : TagWord → PatchMode
  | action a => a.mode
  | new n => n.mode

/-- Its group. -/
def group : TagWord → WordGroup
  | action .delete => .delete
  | action .skip => .skip
  | action .override | action .overrideFront | action .overrideBack => .override
  | action .merge => .merge
  | new _ => .new

end TagWord

/-- The flags of a group. -/
def WordGroup.mask : WordGroup → PatchMode
  | delete => .delete
  | skip => .skip
  | new => (newFront.or newBack).or newNever
  | override => (PatchMode.override.or overrideFront).or overrideBack
  | merge => .merge

/-- How a word is read. -/
def readWord (word : String) : Option TagWord :=
  if word = "delete" then some (.action .delete)
  else if word = "skip" then some (.action .skip)
  else if word = "new" then some (.new .new)
  else if word = "new.front" then some (.new .newFront)
  else if word = "new.back" then some (.new .newBack)
  else if word = "new.never" then some (.new .newNever)
  else if word = "override" then some (.action .override)
  else if word = "override.front" then some (.action .overrideFront)
  else if word = "override.back" then some (.action .overrideBack)
  else if startsWith word "merge" then some (.action .merge)
  else none

theorem startsWith_iff {word key : String} :
    startsWith word key = true ↔ ∃ rest : List Char, word.toList = key.toList ++ rest := by
  unfold startsWith
  rw [List.isPrefixOf_iff_prefix]
  constructor
  · rintro ⟨rest, hrest⟩
    exact ⟨rest, hrest.symm⟩
  · rintro ⟨rest, hrest⟩
    exact ⟨rest, hrest.symm⟩

/-- What follows the key is the rest of the word. -/
theorem substrAfter_eq_iff {word key rest : String} (h : startsWith word key = true) :
    substrAfter word key = rest ↔ word = key ++ rest := by
  obtain ⟨chars, hchars⟩ := startsWith_iff.mp h
  have hafter : substrAfter word key = String.ofList chars := by
    unfold substrAfter
    rw [hchars, List.drop_left]
  rw [hafter, ← String.toList_inj, ← String.toList_inj, String.toList_ofList, hchars,
    String.toList_append, List.append_cancel_left_eq]

/-- The words of the grammar are read as what they are, and so is everything that starts with
`merge`. -/
theorem readWord_text (w : TagWord) : readWord w.text = some w := by
  rcases w with (- | - | - | - | - | -) | (- | - | - | -) <;> decide

/-- A branch that reads a word. -/
theorem ite_some_eq_some_iff {α : Type*} {c : Prop} [Decidable c] {a b : α} {k : Option α} :
    (if c then some a else k) = some b ↔ c ∧ a = b ∨ ¬ c ∧ k = some b := by
  by_cases hc : c
  · simp [hc]
  · simp [hc]

theorem ite_some_eq_none_iff {α : Type*} {c : Prop} [Decidable c] {a : α} {k : Option α} :
    (if c then some a else k) = none ↔ ¬ c ∧ k = none := by
  by_cases hc : c
  · simp [hc]
  · simp [hc]

theorem readWord_eq_some {word : String} {w : TagWord} (h : readWord word = some w) :
    word = w.text ∨ w = .action .merge ∧ startsWith word "merge" = true := by
  unfold readWord at h
  iterate 9
    rw [ite_some_eq_some_iff] at h
    obtain ⟨rfl, rfl⟩ | ⟨-, h⟩ := h
    · exact .inl rfl
  rw [ite_some_eq_some_iff] at h
  obtain ⟨hmerge, rfl⟩ | ⟨-, h⟩ := h
  · exact .inr ⟨rfl, hmerge⟩
  · cases h

theorem startsWith_merge_of_not_read {word : String} (h : readWord word = none) :
    startsWith word "merge" = false := by
  unfold readWord at h
  iterate 9
    obtain ⟨-, h⟩ := ite_some_eq_none_iff.mp h
  obtain ⟨hmerge, -⟩ := ite_some_eq_none_iff.mp h
  exact Bool.eq_false_iff.mpr hmerge

/-! ### One word -/

section Loop

variable {node : Yaml} {modes m : PatchMode} {word : String}

/-- A check passes when the flag was not given. -/
theorem check_one {a : PatchMode} {k : Except Error PatchMode} :
    (do
      checkIfMultipleDefineMode node modes a
      k) = .ok m ↔ modes.has a = false ∧ k = .ok m := by
  unfold checkIfMultipleDefineMode
  cases modes.has a <;> simp [bind, Except.bind]

/-- The checks for the flags of a group of three. -/
theorem check_three {a b c : PatchMode} {k : Except Error PatchMode} :
    (do
      checkIfMultipleDefineMode node modes a
      checkIfMultipleDefineMode node modes b
      checkIfMultipleDefineMode node modes c
      k) = .ok m ↔ modes.has ((a.or b).or c) = false ∧ k = .ok m := by
  rw [check_one, check_one, check_one, has_or_right, has_or_right, Bool.or_eq_false_iff,
    Bool.or_eq_false_iff, and_assoc, and_assoc]

/-- A word of the grammar is accepted once in its group. -/
theorem analyzeWord_text (w : TagWord) : analyzeWord node modes w.text = .ok m ↔
    modes.has w.group.mask = false ∧ modes.or w.mode = m := by
  have hok : ∀ {a : PatchMode}, (pure a : Except Error PatchMode) = .ok m ↔ a = m :=
    ⟨Except.ok.inj, congrArg Except.ok⟩
  rcases w with (- | - | - | - | - | -) | (- | - | - | -)
  · exact check_one.trans (and_congr_right' hok)
  · exact check_one.trans (and_congr_right' hok)
  · exact check_three.trans (and_congr_right' hok)
  · exact check_three.trans (and_congr_right' hok)
  · exact check_three.trans (and_congr_right' hok)
  · exact check_one.trans (and_congr_right' hok)
  · exact check_three.trans (and_congr_right' hok)
  · exact check_three.trans (and_congr_right' hok)
  · exact check_three.trans (and_congr_right' hok)
  · exact check_three.trans (and_congr_right' hok)

/-- A word cannot start with two words that start differently. -/
theorem not_startsWith_of_merge (h : startsWith word "merge" = true) :
    startsWith word "new" = false ∧ startsWith word "override" = false := by
  obtain ⟨rest, hrest⟩ := startsWith_iff.mp h
  unfold startsWith
  rw [hrest]
  exact ⟨rfl, rfl⟩

/-- Whatever starts with `merge` is accepted as `merge`. -/
theorem analyzeWord_of_startsWith_merge (h : startsWith word "merge" = true) :
    analyzeWord node modes word = .ok m ↔ modes.has .merge = false ∧ modes.or .merge = m := by
  obtain ⟨hnew, hoverride⟩ := not_startsWith_of_merge h
  have hdelete : word ≠ "delete" := by
    rintro rfl
    exact absurd h (by decide)
  have hskip : word ≠ "skip" := by
    rintro rfl
    exact absurd h (by decide)
  unfold analyzeWord
  rw [if_neg hdelete, if_neg hskip, if_neg (by simp [hnew]), if_neg (by simp [hoverride]), if_pos h]
  exact check_one.trans (and_congr_right' ⟨Except.ok.inj, congrArg Except.ok⟩)

/-- A word that is read is accepted once in its group. -/
theorem analyzeWord_of_readWord {w : TagWord} (h : readWord word = some w) :
    analyzeWord node modes word = .ok m ↔
      modes.has w.group.mask = false ∧ modes.or w.mode = m := by
  obtain rfl | ⟨rfl, hmerge⟩ := readWord_eq_some h
  · exact analyzeWord_text w
  · exact analyzeWord_of_startsWith_merge hmerge

/-- No other word is accepted. -/
theorem analyzeWord_of_not_read (h : readWord word = none) :
    analyzeWord node modes word ≠ .ok m := by
  have hne : ∀ w : TagWord, word ≠ w.text := by
    rintro w rfl
    rw [readWord_text] at h
    cases h
  have hmerge := startsWith_merge_of_not_read h
  have hdelete : word ≠ "delete" := hne (.action .delete)
  have hskip : word ≠ "skip" := hne (.action .skip)
  unfold analyzeWord
  rw [if_neg hdelete, if_neg hskip]
  by_cases hnew : startsWith word "new" = true
  · rw [if_pos hnew]
    intro haccepted
    -- what follows `new` is compared with the options one after the other
    obtain ⟨-, hoption⟩ := check_three.mp haccepted
    have hfront : ¬ (word = "new" ++ "" ∨ word = "new" ++ ".front") :=
      not_or.mpr ⟨hne (.new .new), hne (.new .newFront)⟩
    have hback : word ≠ "new" ++ ".back" := hne (.new .newBack)
    have hnever : word ≠ "new" ++ ".never" := hne (.new .newNever)
    simp only [substrAfter_eq_iff hnew] at hoption
    rw [if_neg hfront, if_neg hback, if_neg hnever] at hoption
    cases hoption
  · rw [if_neg hnew]
    by_cases hoverride : startsWith word "override" = true
    · rw [if_pos hoverride]
      intro haccepted
      obtain ⟨-, hoption⟩ := check_three.mp haccepted
      have hbare : word ≠ "override" ++ "" := hne (.action .override)
      have hfront : word ≠ "override" ++ ".front" := hne (.action .overrideFront)
      have hback : word ≠ "override" ++ ".back" := hne (.action .overrideBack)
      simp only [substrAfter_eq_iff hoverride] at hoption
      rw [if_neg hbare, if_neg hfront, if_neg hback] at hoption
      cases hoption
    · rw [if_neg hoverride, if_neg (by simp [hmerge])]
      intro haccepted
      cases haccepted

end Loop

/-! ### All words -/

/-- The flags of words. -/
def flags (words : List TagWord) : PatchMode :=
  words.foldl (fun modes w => modes.or w.mode) undefined

theorem flags_concat (words : List TagWord) (w : TagWord) :
    flags (words ++ [w]) = (flags words).or w.mode := by
  unfold flags
  rw [List.foldl_append]
  rfl

/-- A flag is set by one of the words. -/
theorem has_flags (words : List TagWord) (mode : PatchMode) :
    (flags words).has mode = words.any fun w => w.mode.has mode := by
  induction words using List.reverseRecOn with
  | nil =>
    show undefined.has mode = false
    unfold has undefined
    simp
  | append_singleton words w ih => rw [flags_concat, has_or, ih, List.any_append]; simp

/-- The flags of a group are those of its words. -/
theorem has_mask (w : TagWord) (g : WordGroup) : w.mode.has g.mask = decide (w.group = g) := by
  rcases w with (- | - | - | - | - | -) | (- | - | - | -) <;> cases g <;> rfl

theorem has_flags_mask (words : List TagWord) (g : WordGroup) :
    (flags words).has g.mask = true ↔ g ∈ words.map TagWord.group := by
  rw [has_flags, List.any_eq_true, List.mem_map]
  simp only [has_mask, decide_eq_true_eq]

/-- The words are read as these. -/
def Reads (texts : List String) (words : List TagWord) : Prop :=
  List.Forall₂ (fun text w => readWord text = some w) texts words

/-- **The loop accepts words of different groups.** -/
theorem foldlM_analyzeWord_eq_ok_iff (node : Yaml) {done : List TagWord}
    (hdone : (done.map TagWord.group).Nodup) {texts : List String} {m : PatchMode} :
    texts.foldlM (analyzeWord node) (flags done) = .ok m ↔
      ∃ words, Reads texts words ∧ ((done ++ words).map TagWord.group).Nodup ∧
        flags (done ++ words) = m := by
  -- the flags say of the words before only which groups they are of
  induction texts generalizing done with
  | nil =>
    constructor
    · intro h
      exact ⟨[], .nil, by simpa using hdone, by simpa [pure, Except.pure] using h⟩
    · rintro ⟨words, hwords, -, hm⟩
      cases hwords
      simpa [pure, Except.pure] using hm
  | cons text texts ih =>
    rw [List.foldlM_cons, except_bind_eq_ok]
    cases hread : readWord text with
    | none =>
      constructor
      · rintro ⟨modes, hword, -⟩
        exact absurd hword (analyzeWord_of_not_read hread)
      · rintro ⟨words, hwords, -⟩
        cases hwords with
        | cons hw => simp [hread] at hw
    | some w =>
      have hgroup : (flags done).has w.group.mask = false ↔ w.group ∉ done.map TagWord.group := by
        rw [← has_flags_mask, Bool.not_eq_true]
      have hnodup : ((done ++ [w]).map TagWord.group).Nodup ↔ w.group ∉ done.map TagWord.group := by
        rw [List.map_append, List.nodup_append]
        simp [hdone]
      constructor
      · rintro ⟨modes, hword, hrest⟩
        obtain ⟨hfresh, rfl⟩ := (analyzeWord_of_readWord hread).mp hword
        rw [← flags_concat] at hrest
        obtain ⟨words, hwords, hgroups, hm⟩ :=
          (ih (hnodup.mpr (hgroup.mp hfresh))).mp hrest
        exact ⟨w :: words, .cons hread hwords, by simpa using hgroups, by simpa using hm⟩
      · rintro ⟨words', hwords, hgroups, hm⟩
        cases hwords with
        | @cons _ w' _ words hw hwords =>
          obtain rfl := Option.some.inj (hread.symm.trans hw)
          have hsplit : done ++ w :: words = done ++ [w] ++ words := by simp
          rw [hsplit] at hgroups hm
          have hfirst : ((done ++ [w]).map TagWord.group).Nodup := by
            rw [List.map_append] at hgroups
            exact (List.nodup_append.mp hgroups).1
          refine ⟨(flags done).or w.mode,
            (analyzeWord_of_readWord hread).mpr ⟨hgroup.mpr (hnodup.mp hfirst), rfl⟩, ?_⟩
          rw [← flags_concat]
          exact (ih hfirst).mpr ⟨words, hwords, hgroups, hm⟩

/-! ### The whole tag -/

/-- Two of the actions that `AnalyzePatchMode` excludes from each other. -/
def Exclusive (words : List TagWord) : Prop :=
  .action .delete ∈ words ∧ .action .override ∈ words ∨
    .action .delete ∈ words ∧ .action .skip ∈ words ∨
      .action .override ∈ words ∧ .action .skip ∈ words

/-- The modes that come out. -/
def finalModes (words : List TagWord) : PatchMode :=
  (if words = [.new .newNever] then (flags words).or override else flags words).or explicit

theorem has_action_mode (w : TagWord) (a : Action) :
    w.mode.has a.mode = decide (w = .action a) := by
  rcases w with (- | - | - | - | - | -) | (- | - | - | -) <;> cases a <;> rfl

theorem has_flags_action (words : List TagWord) (a : Action) :
    (flags words).has a.mode = decide (.action a ∈ words) := by
  rw [has_flags, Bool.eq_iff_iff, List.any_eq_true, decide_eq_true_eq]
  constructor
  · rintro ⟨w, hw, hmode⟩
    rw [has_action_mode, decide_eq_true_eq] at hmode
    exact hmode ▸ hw
  · intro hw
    exact ⟨_, hw, by rw [has_action_mode]; exact decide_eq_true rfl⟩

/-- A lone `new.never` is known by its flags. -/
theorem flags_eq_newNever_iff {words : List TagWord}
    (hgroups : (words.map TagWord.group).Nodup) :
    flags words = newNever ↔ words = [.new .newNever] := by
  constructor
  · intro hflags
    have hnew : ∀ w ∈ words, w.group = .new := by
      intro w hw
      have hmask := (has_flags_mask words w.group).mpr (List.mem_map_of_mem hw)
      rw [hflags] at hmask
      cases hg : w.group with
      | new => rfl
      | _ =>
        rw [hg] at hmask
        exact absurd hmask (by decide)
    cases words with
    | nil => exact absurd hflags (by decide)
    | cons w rest =>
      cases rest with
      | nil =>
        rcases w with (- | - | - | - | - | -) | (- | - | - | -) <;>
          first
          | rfl
          | exact absurd hflags (by decide)
      | cons w' rest =>
        have hw := hnew w List.mem_cons_self
        have hw' := hnew w' (List.mem_cons_of_mem _ List.mem_cons_self)
        simp [hw, hw'] at hgroups
  · rintro rfl
    rfl

/-- The checks at the end. -/
theorem finishModes_eq_ok_iff (node : Yaml) {words : List TagWord}
    (hgroups : (words.map TagWord.group).Nodup) {m : PatchMode} :
    finishModes node (flags words) = .ok m ↔ ¬ Exclusive words ∧ finalModes words = m := by
  unfold finishModes finalModes
  by_cases hlone : words = [.new .newNever]
  · have hnever : flags words = newNever := (flags_eq_newNever_iff hgroups).mpr hlone
    have hfree : ¬ Exclusive words := by
      subst hlone
      unfold Exclusive
      decide
    rw [if_pos hnever, if_pos hlone, hnever]
    simp only [hfree, not_false_eq_true, true_and]
    exact ⟨Except.ok.inj, congrArg Except.ok⟩
  · have hnever : flags words ≠ newNever := (flags_eq_newNever_iff hgroups).not.mpr hlone
    rw [if_neg hnever, if_neg hlone]
    have hdelete : (flags words).has delete = _ := has_flags_action words .delete
    have hoverride : (flags words).has override = _ := has_flags_action words .override
    have hskip : (flags words).has skip = _ := has_flags_action words .skip
    dsimp only
    rw [hdelete, hoverride, hskip]
    unfold Exclusive
    by_cases h₁ : TagWord.action .delete ∈ words <;>
      by_cases h₂ : TagWord.action .override ∈ words <;>
      by_cases h₃ : TagWord.action .skip ∈ words <;>
      simp [h₁, h₂, h₃]

/-- **What is accepted**: words that can be read, of different groups, not two of the exclusive
actions. -/
theorem analyzePatchMode_eq_ok_iff {node : Yaml} (h : extractCustomTag node ≠ "")
    {m : PatchMode} : analyzePatchMode node = .ok m ↔
      ∃ words, Reads (splitTrim (extractCustomTag node) '+') words ∧
        (words.map TagWord.group).Nodup ∧ ¬ Exclusive words ∧ finalModes words = m := by
  unfold analyzePatchMode
  rw [if_neg h, except_bind_eq_ok]
  have hloop : ∀ {modes : PatchMode},
      (splitTrim (extractCustomTag node) '+').foldlM (analyzeWord node) undefined = .ok modes ↔
        ∃ words, Reads (splitTrim (extractCustomTag node) '+') words ∧
          (words.map TagWord.group).Nodup ∧ flags words = modes := by
    intro modes
    exact @foldlM_analyzeWord_eq_ok_iff node [] List.nodup_nil _ modes
  constructor
  · rintro ⟨modes, hmodes, hfinish⟩
    obtain ⟨words, hwords, hgroups, rfl⟩ := hloop.mp hmodes
    obtain ⟨hfree, hm⟩ := (finishModes_eq_ok_iff node hgroups).mp hfinish
    exact ⟨words, hwords, hgroups, hfree, hm⟩
  · rintro ⟨words, hwords, hgroups, hfree, hm⟩
    exact ⟨flags words, hloop.mpr ⟨words, hwords, hgroups, rfl⟩,
      (finishModes_eq_ok_iff node hgroups).mpr ⟨hfree, hm⟩⟩

/-! ### The grammar -/

/-- The tag of a node is accepted only by the grammar, asks for one action and one new mode at most,
and means the same with its words in another order. -/
structure FollowsGrammar (node : Yaml) : Prop where
  grammar : ∀ m, analyzePatchMode node = .ok m →
    ∀ text ∈ splitTrim (extractCustomTag node) '+', ∃ w : TagWord, text = w.text
  oneAction : ∀ m, analyzePatchMode node = .ok m →
    ∀ a b : Action, m.has a.mode = true → m.has b.mode = true → a = b
  oneNew : ∀ m, analyzePatchMode node = .ok m →
    ∀ a b : NewWord, m.has a.mode = true → m.has b.mode = true → a.mode = b.mode
  order : ∀ node', extractCustomTag node ≠ "" → extractCustomTag node' ≠ "" →
    (splitTrim (extractCustomTag node) '+').Perm (splitTrim (extractCustomTag node') '+') →
      ∀ m, analyzePatchMode node = .ok m ↔ analyzePatchMode node' = .ok m

/-- Words that pass the checks, although one of them only starts with `merge`, or two of them are
actions. -/
def Slips (texts : List String) : Prop :=
  ∃ words, Reads texts words ∧ (words.map TagWord.group).Nodup ∧ ¬ Exclusive words ∧
    ((∃ text ∈ texts, startsWith text "merge" = true ∧ text ≠ "merge") ∨
      ∃ a b : Action, a ≠ b ∧ .action a ∈ words ∧ .action b ∈ words)

section Perm

variable {words words' : List TagWord}

theorem finalModes_perm (h : words.Perm words') : finalModes words = finalModes words' := by
  have hflags : flags words = flags words' :=
    h.foldl_eq' (fun _ _ _ _ _ => or_right_comm ..) undefined
  have hlone : words = [.new .newNever] ↔ words' = [.new .newNever] := by
    rw [← List.perm_singleton, ← List.perm_singleton]
    exact ⟨h.symm.trans, h.trans⟩
  unfold finalModes
  rw [hflags]
  simp only [hlone]

theorem exclusive_perm (h : words.Perm words') : Exclusive words ↔ Exclusive words' := by
  unfold Exclusive
  simp only [h.mem_iff]

/-- The order of the words does not matter. -/
theorem analyzePatchMode_perm {node node' : Yaml} (hnode : extractCustomTag node ≠ "")
    (hnode' : extractCustomTag node' ≠ "")
    (h : (splitTrim (extractCustomTag node) '+').Perm (splitTrim (extractCustomTag node') '+'))
    {m : PatchMode} (hm : analyzePatchMode node = .ok m) : analyzePatchMode node' = .ok m := by
  obtain ⟨words, hwords, hgroups, hfree, hmodes⟩ := (analyzePatchMode_eq_ok_iff hnode).mp hm
  obtain ⟨words', hwords', hperm⟩ := List.perm_comp_forall₂ h.symm hwords
  refine (analyzePatchMode_eq_ok_iff hnode').mpr ⟨words', hwords', ?_, ?_, ?_⟩
  · exact (hperm.map TagWord.group).nodup_iff.mpr hgroups
  · exact (exclusive_perm hperm).not.mpr hfree
  · rw [finalModes_perm hperm, hmodes]

end Perm

section Modes

variable {words : List TagWord}

/-- An action of the modes is one of the words, or the one that a lone `new.never` implies. -/
theorem of_has_action {a : Action} (h : (finalModes words).has a.mode = true) :
    .action a ∈ words ∨ words = [.new .newNever] ∧ a = .override := by
  unfold finalModes at h
  rw [has_or, Bool.or_eq_true] at h
  have hexplicit : explicit.has a.mode = false := by cases a <;> rfl
  rw [hexplicit] at h
  obtain h | h := h
  · by_cases hlone : words = [.new .newNever]
    · rw [if_pos hlone, has_or, Bool.or_eq_true, has_flags_action, decide_eq_true_eq] at h
      obtain h | h := h
      · exact .inl h
      · refine .inr ⟨hlone, ?_⟩
        cases a with
        | override => rfl
        | _ => exact absurd h (by decide)
    · rw [if_neg hlone, has_flags_action, decide_eq_true_eq] at h
      exact .inl h
  · cases h

theorem has_of_mem_action {a : Action} (h : .action a ∈ words) :
    (finalModes words).has a.mode = true := by
  have hflags : (flags words).has a.mode = true := by
    rw [has_flags_action, decide_eq_true_eq]
    exact h
  unfold finalModes
  by_cases hlone : words = [.new .newNever]
  · rw [if_pos hlone, has_or, has_or, hflags]
    rfl
  · rw [if_neg hlone, has_or, hflags]
    rfl

/-- A new mode comes from one of the words. -/
theorem of_has_new {n : NewWord} (h : (finalModes words).has n.mode = true) :
    ∃ n' : NewWord, .new n' ∈ words ∧ n'.mode = n.mode := by
  have hflags : (flags words).has n.mode = true := by
    have hexplicit : explicit.has n.mode = false := by cases n <;> rfl
    have hoverride : override.has n.mode = false := by cases n <;> rfl
    unfold finalModes at h
    rw [has_or, hexplicit, Bool.or_false] at h
    by_cases hlone : words = [.new .newNever]
    · rwa [if_pos hlone, has_or, hoverride, Bool.or_false] at h
    · rwa [if_neg hlone] at h
  rw [has_flags, List.any_eq_true] at hflags
  obtain ⟨w, hw, hmode⟩ := hflags
  cases w with
  | action a =>
    have hnone : a.mode.has n.mode = false := by cases a <;> cases n <;> rfl
    have hmode' : a.mode.has n.mode = true := hmode
    simp [hnone] at hmode'
  | new n' =>
    refine ⟨n', hw, ?_⟩
    have hmode' : n'.mode.has n.mode = true := hmode
    cases n <;> cases n' <;> first | rfl | exact absurd hmode' (by decide)

/-- Words of one group are one word. -/
theorem eq_of_group_eq (hgroups : (words.map TagWord.group).Nodup) {w w' : TagWord}
    (hw : w ∈ words) (hw' : w' ∈ words) (h : w.group = w'.group) : w = w' :=
  List.inj_on_of_nodup_map hgroups hw hw' h

end Modes

/-- A text among those that are read is read as one of the words. -/
theorem Reads.exists_word {texts : List String} {words : List TagWord} (h : Reads texts words)
    {text : String} (htext : text ∈ texts) : ∃ w ∈ words, readWord text = some w := by
  induction h with
  | nil => cases htext
  | @cons text' w texts words hw _ ih =>
    obtain rfl | htext := List.mem_cons.mp htext
    · exact ⟨w, List.mem_cons_self, hw⟩
    · obtain ⟨w', hw', hread⟩ := ih htext
      exact ⟨w', List.mem_cons_of_mem _ hw', hread⟩

/-- A word that is read as `merge` and starts so is no other word. -/
theorem text_eq_of_startsWith_merge {w : TagWord} (h : startsWith w.text "merge" = true) :
    w.text = "merge" := by
  rcases w with (- | - | - | - | - | -) | (- | - | - | -) <;>
    first
    | rfl
    | exact absurd h (by decide)

/-- A node without a tag overrides. -/
theorem followsGrammar_of_untagged {node : Yaml} (h : extractCustomTag node = "") :
    FollowsGrammar node where
  grammar := by
    rw [h]
    intro m _ text htext
    cases htext
  oneAction := by
    intro m hm a b ha hb
    obtain rfl := Except.ok.inj ((if_pos h).symm.trans hm)
    have hoverride : ∀ a : Action, override.has a.mode = true → a = .override := by
      intro a ha
      cases a with
      | override => rfl
      | _ => exact absurd ha (by decide)
    rw [hoverride a ha, hoverride b hb]
  oneNew := by
    intro m hm a b ha
    obtain rfl := Except.ok.inj ((if_pos h).symm.trans hm)
    cases a <;> exact absurd ha (by decide)
  order := fun _ hne => absurd h hne

/-- **The tags follow the grammar, apart from the slips.** -/
theorem followsGrammar_iff (node : Yaml) :
    FollowsGrammar node ↔ ¬ Slips (splitTrim (extractCustomTag node) '+') := by
  by_cases htag : extractCustomTag node = ""
  · refine iff_of_true (followsGrammar_of_untagged htag) ?_
    rw [htag]
    rintro ⟨words, hwords, -, -, hslip⟩
    cases hwords
    obtain ⟨text, htext, -⟩ | ⟨a, b, -, ha, -⟩ := hslip
    · cases htext
    · cases ha
  constructor
  · rintro hfollows ⟨words, hwords, hgroups, hfree, hslip⟩
    have haccepted : analyzePatchMode node = .ok (finalModes words) :=
      (analyzePatchMode_eq_ok_iff htag).mpr ⟨words, hwords, hgroups, hfree, rfl⟩
    obtain ⟨text, htext, hmerge, hne⟩ | ⟨a, b, hab, ha, hb⟩ := hslip
    · obtain ⟨w, rfl⟩ := hfollows.grammar _ haccepted text htext
      exact hne (text_eq_of_startsWith_merge hmerge)
    · exact hab (hfollows.oneAction _ haccepted a b (has_of_mem_action ha) (has_of_mem_action hb))
  · intro hslips
    constructor
    · intro m hm text htext
      obtain ⟨words, hwords, hgroups, hfree, -⟩ := (analyzePatchMode_eq_ok_iff htag).mp hm
      obtain ⟨w, -, hread⟩ := hwords.exists_word htext
      obtain heq | ⟨-, hmerge⟩ := readWord_eq_some hread
      · exact ⟨w, heq⟩
      · refine ⟨.action .merge, ?_⟩
        by_contra hne
        exact hslips ⟨words, hwords, hgroups, hfree, .inl ⟨text, htext, hmerge, hne⟩⟩
    · intro m hm a b ha hb
      obtain ⟨words, hwords, hgroups, hfree, rfl⟩ := (analyzePatchMode_eq_ok_iff htag).mp hm
      obtain ha | ⟨hlone, rfl⟩ := of_has_action ha
      · obtain hb | ⟨hlone, rfl⟩ := of_has_action hb
        · by_contra hab
          exact hslips ⟨words, hwords, hgroups, hfree, .inr ⟨a, b, hab, ha, hb⟩⟩
        · simp [hlone] at ha
      · obtain hb | ⟨-, rfl⟩ := of_has_action hb
        · simp [hlone] at hb
        · rfl
    · intro m hm a b ha hb
      obtain ⟨words, -, hgroups, -, rfl⟩ := (analyzePatchMode_eq_ok_iff htag).mp hm
      obtain ⟨a', ha', hamode⟩ := of_has_new ha
      obtain ⟨b', hb', hbmode⟩ := of_has_new hb
      obtain rfl := TagWord.new.inj (eq_of_group_eq hgroups ha' hb' rfl)
      rw [← hamode, hbmode]
    · intro node' hne hne' hperm m
      exact ⟨analyzePatchMode_perm hne hne' hperm, analyzePatchMode_perm hne' hne hperm.symm⟩

/-- A tag with two actions. -/
def twoActions : Yaml := .scalar "tag:yaml.org,2002:override.front+delete" "a"

/-- `override.front+delete` is accepted, and so is any word that starts with `merge`. -/
theorem two_actions_accepted :
    analyzePatchMode twoActions = .ok ((overrideFront.or delete).or explicit) ∧
      analyzePatchMode (.scalar "tag:yaml.org,2002:mergefoo" "a") = .ok (merge.or explicit) ∧
        ¬ ∀ node, FollowsGrammar node := by
  have haccepted : analyzePatchMode twoActions = .ok ((overrideFront.or delete).or explicit) := by
    decide
  refine ⟨haccepted, by decide, ?_⟩
  intro hall
  have heq := (hall twoActions).oneAction _ haccepted .delete .overrideFront (by decide) (by decide)
  cases heq

end Cfg

end AimrtComm
