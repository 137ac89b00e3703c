import AimrtComm.Cfg.PatchMode
import AimrtComm.Cfg.PatchTable

/-!
# The flags of a well-formed tag

A `Tagging` denotes the custom tag of a node when the node has none (`untagged`), or when the
words of the tag are its action and its new word in either order.  `analyzePatchMode_of_denotes`
computes the flags of such a tag; the branches of `PatchListNode` test these flags in an order
that picks the action of the tag (`Tagging.has_modes`).
-/

namespace AimrtComm

open Cfg PatchMode

/-- The node carries the tag `t`. -/
def Tagging.Denotes (t : Tagging) (node : Yaml) : Prop :=
  match t with
  | .untagged => extractCustomTag node = ""
  | .words .. => extractCustomTag node ≠ "" ∧
    (splitTrim (extractCustomTag node) '+' = t.texts ∨
      splitTrim (extractCustomTag node) '+' = t.textsNewFirst)

instance (t : Tagging) (node : Yaml) : Decidable (t.Denotes node) :=
  match t with
  | .untagged => inferInstanceAs (Decidable (extractCustomTag node = ""))
  | .words .. => inferInstanceAs (Decidable (_ ∧ _))

/-- The flag of an action. -/
def Action.mode : Action → PatchMode
  | delete => .delete
  | skip => .skip
  | override => .override
  | overrideFront => .overrideFront
  | overrideBack => .overrideBack
  | merge => .merge

/-- The flag of a new word. -/
def NewWord.mode : NewWord → PatchMode
  | new | newFront => .newFront
  | newBack => .newBack
  | newNever => .newNever

/-- The flags of a well-formed tag; `new.never` alone also overrides. -/
def Tagging.modes : Tagging → PatchMode
  | untagged => .override
  | words none (some .newNever) => (newNever.or override).or explicit
  | words action new =>
    (((action.map Action.mode).getD undefined).or ((new.map NewWord.mode).getD undefined)).or
      explicit

theorem foldlM_analyzeWord_texts (node : Yaml) (action : Option Action) (new : Option NewWord) :
    (do
      let modes ← (Tagging.words action new).texts.foldlM (analyzeWord node) undefined
      finishModes node modes) = .ok (Tagging.words action new).modes := by
  rcases action with - | (- | - | - | - | - | -) <;> rcases new with - | (- | - | - | -) <;> rfl

theorem foldlM_analyzeWord_textsNewFirst (node : Yaml) (action : Option Action)
    (new : Option NewWord) :
    (do
      let modes ← (Tagging.words action new).textsNewFirst.foldlM (analyzeWord node) undefined
      finishModes node modes) = .ok (Tagging.words action new).modes := by
  rcases action with - | (- | - | - | - | - | -) <;> rcases new with - | (- | - | - | -) <;> rfl

/-- **A well-formed tag is accepted**, with its own flags. -/
theorem analyzePatchMode_of_denotes {t : Tagging} {node : Yaml} (h : t.Denotes node) :
    analyzePatchMode node = .ok t.modes := by
  cases t with
  | untagged => exact if_pos h
  | words action new =>
    obtain ⟨hne, hw | hw⟩ := h
    · rw [analyzePatchMode, if_neg hne, hw, foldlM_analyzeWord_texts]
    · rw [analyzePatchMode, if_neg hne, hw, foldlM_analyzeWord_textsNewFirst]

/-- A node with a tag of its own is not a null. -/
theorem Tagging.Denotes.isUndefined_eq_false {action : Option Action} {new : Option NewWord}
    {node : Yaml} (h : (Tagging.words action new).Denotes node) : IsUndefined node = false := by
  have hnil : ∀ node : Yaml, node.tag = "" → extractCustomTag node = "" := by
    intro node hn
    rw [extractCustomTag, hn]
    rfl
  cases node with
  | undefined => exact absurd (hnil _ rfl) h.1
  | null => exact absurd (hnil _ rfl) h.1
  | _ => rfl

end AimrtComm
