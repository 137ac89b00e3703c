import Mathlib.Data.List.Nodup
import Mathlib.Logic.Equiv.Basic

/-!
# Lists that share out some elements

`Partition lists p`: each element with the property `p` is in exactly one of the lists, and there
once, and no other element is in any.  It stays one when a new element is put before one of the
lists (`Partition.cons`), when the first element of a list is taken away (`Partition.tail`) or is
put before another list (`Partition.move`), and when the lists change places (`Partition.comp`).
-/

namespace AimrtComm

open Function

variable {ι α : Type*}

/-- The lists share out the elements with a property. -/
structure Partition (lists : ι → List α) (p : α → Prop) : Prop where
  nodup : ∀ i, (lists i).Nodup
  disjoint : ∀ i j a, a ∈ lists i → a ∈ lists j → i = j
  mem : ∀ a, (∃ i, a ∈ lists i) ↔ p a

namespace Partition

variable {lists : ι → List α} {p p' : α → Prop} {i j : ι} {a b : α} {l : List α}

theorem not_mem (h : Partition lists p) (ha : ¬p a) (i : ι) : a ∉ lists i :=
  fun hmem => ha ((h.mem a).mp ⟨i, hmem⟩)

/-- The lists change places. -/
theorem comp (h : Partition lists p) (e : ι ≃ ι) : Partition (lists ∘ e) p where
  nodup i := h.nodup (e i)
  disjoint i j a hi hj := e.injective (h.disjoint (e i) (e j) a hi hj)
  mem a := e.surjective.exists.symm.trans (h.mem a)

variable [DecidableEq ι]

theorem mem_update_cons_iff :
    b ∈ update lists i (a :: lists i) j ↔ j = i ∧ b = a ∨ b ∈ lists j := by
  by_cases hji : j = i
  · subst hji
    simp
  · simp [hji]

/-- A new element is put before one of the lists. -/
theorem cons (h : Partition lists p) (ha : ¬p a) (hp : ∀ b, p' b ↔ b = a ∨ p b) (i : ι) :
    Partition (update lists i (a :: lists i)) p' where
  nodup j := by
    by_cases hji : j = i
    · subst hji
      rw [update_self]
      exact List.nodup_cons.mpr ⟨h.not_mem ha j, h.nodup j⟩
    · rw [update_of_ne hji]
      exact h.nodup j
  disjoint j k b hj hk := by
    rcases mem_update_cons_iff.mp hj with ⟨hji, hb⟩ | hj' <;>
      rcases mem_update_cons_iff.mp hk with ⟨hki, hb'⟩ | hk'
    · exact hji.trans hki.symm
    · exact absurd (hb ▸ hk') (h.not_mem ha k)
    · exact absurd (hb' ▸ hj') (h.not_mem ha j)
    · exact h.disjoint j k b hj' hk'
  mem b := by
    simp only [mem_update_cons_iff, exists_or, h.mem, hp]
    simp

/-- The first element of a list is in no list after it was taken away. -/
theorem mem_update_tail_iff (h : Partition lists p) (hl : lists i = a :: l) :
    b ∈ update lists i l j ↔ b ∈ lists j ∧ b ≠ a := by
  have hnot : a ∉ l := (List.nodup_cons.mp (hl ▸ h.nodup i)).1
  by_cases hji : j = i
  · subst hji
    rw [update_self, hl, List.mem_cons]
    constructor
    · exact fun hb => ⟨.inr hb, ne_of_mem_of_not_mem hb hnot⟩
    · exact fun hb => hb.1.resolve_left hb.2
  · rw [update_of_ne hji]
    refine ⟨fun hb => ⟨hb, ?_⟩, And.left⟩
    rintro rfl
    exact hji (h.disjoint j i b hb (by simp [hl]))

/-- The first element of a list is taken away. -/
theorem tail (h : Partition lists p) (hl : lists i = a :: l) (hp : ∀ b, p' b ↔ p b ∧ b ≠ a) :
    Partition (update lists i l) p' where
  nodup j := by
    by_cases hji : j = i
    · subst hji
      rw [update_self]
      exact (List.nodup_cons.mp (hl ▸ h.nodup j)).2
    · rw [update_of_ne hji]
      exact h.nodup j
  disjoint j k b hj hk :=
    h.disjoint j k b ((h.mem_update_tail_iff hl).mp hj).1 ((h.mem_update_tail_iff hl).mp hk).1
  mem b := by
    simp only [h.mem_update_tail_iff hl, exists_and_right, h.mem, hp]

/-- The first element of a list is put before another list. -/
theorem move (h : Partition lists p) (hl : lists i = a :: l) (hij : j ≠ i) :
    Partition (update (update lists i l) j (a :: lists j)) p := by
  have ha : p a := (h.mem a).mp ⟨i, by simp [hl]⟩
  have hlist : update lists i l j = lists j := update_of_ne hij _ _
  have htail : Partition (update lists i l) fun b => p b ∧ b ≠ a := h.tail hl fun _ => Iff.rfl
  rw [← hlist]
  refine htail.cons (fun hne => hne.2 rfl) (fun b => ?_) j
  by_cases hb : b = a
  · simp [hb, ha]
  · simp [hb]

end Partition

end AimrtComm
