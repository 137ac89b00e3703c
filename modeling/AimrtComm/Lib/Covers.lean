import Mathlib.Data.List.Basic

/-!
# Lists of which every changed element satisfies a predicate

`Covers ok old new`: an element of `new` that does not stand in `old` at the same place satisfies
`ok`.  Appending, replacing and leaving alone keep it, and so does one after the other.
-/

namespace AimrtComm

variable {α : Type*} {ok ok' : α → Prop} {old mid new : List α}

/-- Every element of `new` stands in `old` at the same place or satisfies `ok`. -/
def Covers (ok : α → Prop) (old new : List α) : Prop :=
  ∀ (i : ℕ) (x : α), new[i]? = some x → old[i]? = some x ∨ ok x

theorem Covers.refl (ok : α → Prop) (xs : List α) : Covers ok xs xs :=
  fun _ _ h => .inl h

theorem Covers.trans (h : Covers ok old mid) (h' : Covers ok mid new) : Covers ok old new := by
  intro i x hx
  rcases h' i x hx with hmid | hok
  · exact h i x hmid
  · exact .inr hok

theorem Covers.mono (h : Covers ok old new) (himp : ∀ x, ok x → ok' x) : Covers ok' old new :=
  fun i x hx => (h i x hx).imp_right (himp x)

theorem Covers.append {added : List α} (h : ∀ x ∈ added, ok x) (xs : List α) :
    Covers ok xs (xs ++ added) := by
  intro i x hx
  by_cases hi : i < xs.length
  · rw [List.getElem?_append_left hi] at hx
    exact .inl hx
  · rw [List.getElem?_append_right (by omega)] at hx
    exact .inr (h x (List.mem_of_getElem? hx))

/-- A new element in the place of an old one. -/
theorem Covers.replace (before after : List α) {x y : α} (h : ok y) :
    Covers ok (before ++ x :: after) (before ++ y :: after) := by
  intro i z hz
  by_cases hi : i < before.length
  · rw [List.getElem?_append_left hi] at hz ⊢
    exact .inl hz
  · rw [List.getElem?_append_right (by omega)] at hz ⊢
    cases hj : i - before.length with
    | zero =>
      rw [hj, List.getElem?_cons_zero, Option.some.injEq] at hz
      exact .inr (hz ▸ h)
    | succ j =>
      rw [hj, List.getElem?_cons_succ] at hz
      rw [List.getElem?_cons_succ]
      exact .inl hz

end AimrtComm
