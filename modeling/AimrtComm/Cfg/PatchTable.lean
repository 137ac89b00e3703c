import AimrtComm.Lib.FoldExcept
import AimrtComm.Lib.KeyedList

/-!
# The patch table

What the documentation of `PatchAimRTNode` says a patch item does, over elements of any type that
are named by a key.  The tag of an item gives at most one action for an element that is there and
at most one new word for an element that is not; `PatchTable.step` is the effect of one item on
the list.
-/

namespace AimrtComm

/-- The words for an element that is there. -/
inductive Action where
  | delete
  | skip
  | override
  | overrideFront
  | overrideBack
  | merge
deriving DecidableEq, Repr

/-- The words for an element that is not there. -/
inductive NewWord where
  | new
  | newFront
  | newBack
  | newNever
deriving DecidableEq, Repr

/-- A well-formed tag of a patch item. -/
inductive Tagging where
  | untagged
  | words (action : Option Action) (new : Option NewWord)
deriving DecidableEq, Repr

/-- How an action is written. -/
def Action.text : Action → String
  | delete => "delete"
  | skip => "skip"
  | override => "override"
  | overrideFront => "override.front"
  | overrideBack => "override.back"
  | merge => "merge"

/-- How a new word is written. -/
def NewWord.text : NewWord → String
  | new => "new"
  | newFront => "new.front"
  | newBack => "new.back"
  | newNever => "new.never"

namespace Tagging

/-- The new word of a tag. -/
def new? : Tagging → Option NewWord
  | untagged => none
  | words _ new => new

/-- The words of a tag, the action first. -/
def texts : Tagging → List String
  | untagged => []
  | words action new => (action.map Action.text).toList ++ (new.map NewWord.text).toList

/-- The words of a tag, the new word first. -/
def textsNewFirst : Tagging → List String
  | untagged => []
  | words action new => (new.map NewWord.text).toList ++ (action.map Action.text).toList

end Tagging

namespace PatchTable

variable {α κ ε : Type*} [DecidableEq κ] (key : α → κ) (handler merge : α → α → Except ε α)
  (nonExisted existed : α → ε)

/-- An item for a key that no element has. -/
def absent (t : Tagging) (item : α) (xs : List α) : Except ε (List α) :=
  match t.new? with
  | some .new | some .newFront => .ok (item :: xs)
  | some .newBack => .ok (xs ++ [item])
  | some .newNever => .ok xs
  | none => .error (nonExisted item)

/-- An item for the key of the element `r` between `pre` and `post`. -/
def present (t : Tagging) (item : α) (pre : List α) (r : α) (post : List α) :
    Except ε (List α) :=
  match t with
  | .untagged => (handler r item).map fun r' => pre ++ r' :: post
  | .words (some .override) _ => .ok (pre ++ item :: post)
  | .words (some .overrideFront) _ => .ok (item :: (pre ++ post))
  | .words (some .overrideBack) _ => .ok (pre ++ post ++ [item])
  | .words (some .skip) _ => .ok (pre ++ r :: post)
  | .words (some .delete) _ => .ok (pre ++ post)
  | .words (some .merge) _ => (merge r item).map fun r' => pre ++ r' :: post
  | .words none (some .newNever) => .ok (pre ++ item :: post)
  | .words none _ => .error (existed item)

/-- The effect of the patch item `item`, which names the key `k`, on the list `xs`. -/
def step (k : κ) (t : Tagging) (item : α) (xs : List α) : Except ε (List α) :=
  match KeyedList.splitAtKey key k xs with
  | none => absent nonExisted t item xs
  | some (pre, r, post) => present handler merge existed t item pre r post

/-! ### One step edits the list at one key -/

open KeyedList

variable {key handler merge nonExisted existed} {k : κ} {t : Tagging} {item : α} {xs ys : List α}

theorem absent_editsAt (hx : ∀ x ∈ xs, key x ≠ k) (hd : Distinct key xs)
    (hi : t ≠ .untagged → key item = k) (h : absent nonExisted t item xs = .ok ys) :
    EditsAt key k xs ys := by
  cases t with
  | untagged => simp [absent, Tagging.new?] at h
  | words action new =>
    replace hi : key item = k := hi nofun
    rcases new with - | (- | - | - | -) <;>
      simp only [absent, Tagging.new?, Except.ok.injEq, reduceCtorEq] at h <;> subst h
    · exact .cons hx hi
    · exact .cons hx hi
    · exact .snoc hx hi
    · exact .refl hd

theorem present_editsAt {pre post : List α} {r : α} (hd : Distinct key (pre ++ r :: post))
    (hr : key r = k) (hi : t ≠ .untagged → key item = k)
    (hh : ∀ r', handler r item = .ok r' → key r' = k)
    (hm : t ≠ .untagged → ∀ r', merge r item = .ok r' → key r' = k)
    (h : present handler merge existed t item pre r post = .ok ys) :
    EditsAt key k (pre ++ r :: post) ys := by
  cases t with
  | untagged =>
    rw [present, except_map_eq_ok] at h
    obtain ⟨r', hr', rfl⟩ := h
    exact .replace hd hr (hh r' hr')
  | words action new =>
    replace hi : key item = k := hi nofun
    rcases action with - | (- | - | - | - | - | -)
    · -- no action: only `new.never` does not fail
      rcases new with - | (- | - | - | -) <;>
        simp only [present, Except.ok.injEq, reduceCtorEq] at h
      subst h
      exact .replace hd hr hi
    all_goals simp only [present, Except.ok.injEq] at h
    · subst h; exact .remove hd hr
    · subst h; exact .refl hd
    · subst h; exact .replace hd hr hi
    · subst h; exact .toFront hd hr hi
    · subst h; exact .toBack hd hr hi
    · rw [except_map_eq_ok] at h
      obtain ⟨r', hr', rfl⟩ := h
      exact .replace hd hr (hm nofun r' hr')

/-- **One item edits the list at its key**: the elements of all other keys stay as they are, in
their order, and the keys stay distinct (`EditsAt.distinct`). -/
theorem step_editsAt (hd : Distinct key xs) (hi : t ≠ .untagged → key item = k)
    (hh : ∀ r ∈ xs, key r = k → ∀ r', handler r item = .ok r' → key r' = k)
    (hm : t ≠ .untagged → ∀ r ∈ xs, key r = k → ∀ r', merge r item = .ok r' → key r' = k)
    (h : step key handler merge nonExisted existed k t item xs = .ok ys) :
    EditsAt key k xs ys := by
  rw [step] at h
  split at h
  · next hs => exact absent_editsAt (splitAtKey_eq_none_iff.mp hs) hd hi h
  · next pre r post hs =>
    obtain ⟨rfl, hr, -⟩ := splitAtKey_eq_some hs
    have hmem : r ∈ pre ++ r :: post := by simp
    exact present_editsAt hd hr hi (hh r hmem hr) (fun ht => hm ht r hmem hr) h

end PatchTable

end AimrtComm
