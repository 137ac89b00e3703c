import Mathlib.Data.List.Nodup
import Mathlib.Logic.Function.Basic

/-!
# Linked lists in a heap

`Chain next p l`: following `next` from the pointer `p` visits the addresses `l` and ends at the
null pointer.  A write outside of the chain does not change it.
-/

namespace AimrtComm

variable {α : Type*}

/-- The addresses from the pointer `p` on. -/
def Chain (next : α → Option α) : Option α → List α → Prop
  | p, [] => p = none
  | p, a :: l => p = some a ∧ Chain next (next a) l

namespace Chain

variable {next : α → Option α} {p : Option α} {a : α} {l : List α}

@[simp] theorem nil_iff : Chain next p [] ↔ p = none := Iff.rfl

@[simp] theorem cons_iff : Chain next p (a :: l) ↔ p = some a ∧ Chain next (next a) l := Iff.rfl

@[simp] theorem none_iff : Chain next none l ↔ l = [] := by
  cases l <;> simp [Chain]

theorem some_iff : Chain next (some a) l ↔ ∃ l', l = a :: l' ∧ Chain next (next a) l' := by
  cases l with
  | nil => simp
  | cons b l =>
    simp only [cons_iff, Option.some.injEq, List.cons.injEq]
    constructor
    · rintro ⟨rfl, h⟩
      exact ⟨l, ⟨rfl, rfl⟩, h⟩
    · rintro ⟨_, ⟨rfl, rfl⟩, h⟩
      exact ⟨rfl, h⟩

/-- Two heaps that agree on a chain. -/
theorem congr {next' : α → Option α} (h : Chain next p l) (heq : ∀ b ∈ l, next' b = next b) :
    Chain next' p l := by
  induction l generalizing p with
  | nil => exact h
  | cons a l ih =>
    obtain ⟨rfl, h⟩ := h
    refine ⟨rfl, ?_⟩
    rw [heq a List.mem_cons_self]
    exact ih h fun b hb => heq b (List.mem_cons_of_mem _ hb)

/-- A write to an address outside of the chain. -/
theorem update [DecidableEq α] (h : Chain next p l) (ha : a ∉ l) (v : Option α) :
    Chain (Function.update next a v) p l :=
  h.congr fun _ hb => Function.update_of_ne (ne_of_mem_of_not_mem hb ha) _ _

end Chain

end AimrtComm
