import Mathlib.Data.List.Basic

/-!
# Lists that keep their elements

`Keeps R old new`: every element of `old` still stands at its place in `new`, up to the relation
`R`.  Appending keeps all elements as they are, and an edit of one element keeps the others.
-/

namespace AimrtComm

variable {α : Type*} {R S T : α → α → Prop} {old mid new : List α}

/-- Every element of `old` is related to the element of `new` at its place. -/
def Keeps (R : α → α → Prop) (old new : List α) : Prop :=
  ∀ (i : ℕ) (x : α), old[i]? = some x → ∃ y, new[i]? = some y ∧ R x y

theorem Keeps.refl (h : ∀ x, R x x) (xs : List α) : Keeps R xs xs :=
  fun _ x hx => ⟨x, hx, h x⟩

/-- One step after the other. -/
theorem Keeps.trans (h : Keeps R old mid) (h' : Keeps S mid new)
    (himp : ∀ x y z, R x y → S y z → T x z) : Keeps T old new := by
  intro i x hx
  obtain ⟨y, hy, hxy⟩ := h i x hx
  obtain ⟨z, hz, hyz⟩ := h' i y hy
  exact ⟨z, hz, himp x y z hxy hyz⟩

theorem Keeps.mono (h : Keeps R old new) (himp : ∀ x y, R x y → S x y) : Keeps S old new := by
  intro i x hx
  obtain ⟨y, hy, hxy⟩ := h i x hx
  exact ⟨y, hy, himp x y hxy⟩

/-- A longer list keeps all elements as they are. -/
theorem Keeps.of_isPrefix (h : old <+: new) : Keeps Eq old new := by
  intro i x hx
  obtain ⟨added, rfl⟩ := h
  have hi : i < old.length := (List.getElem?_eq_some_iff.mp hx).1
  exact ⟨x, by rw [List.getElem?_append_left hi, hx], rfl⟩

/-- A new element in the place of an old one. -/
theorem Keeps.replace (before after : List α) {x y : α} (h : R x y) (hrefl : ∀ z, R z z) :
    Keeps R (before ++ x :: after) (before ++ y :: after) := by
  intro i z hz
  by_cases hi : i < before.length
  · rw [List.getElem?_append_left hi] at hz ⊢
    exact ⟨z, hz, hrefl z⟩
  · rw [List.getElem?_append_right (by omega)] at hz ⊢
    cases hj : i - before.length with
    | zero =>
      rw [hj, List.getElem?_cons_zero, Option.some.injEq] at hz
      subst hz
      exact ⟨y, rfl, h⟩
    | succ j =>
      rw [hj, List.getElem?_cons_succ] at hz
      exact ⟨z, hz, hrefl z⟩

end AimrtComm
