import Mathlib.Data.Finset.Basic
import Mathlib.Data.Multiset.Count
import Mathlib.Data.Multiset.Filter

/-!
# Extending a collection of keys

A step that adds to a collection adds some keys only where they are missing and pushes others
whatever is there.  `extend` is such a step; two of them are one (`extend_extend`), and it keeps
the keys distinct exactly when those that it pushes are new (`nodup_extend_iff`).
-/

namespace AimrtComm

variable {κ : Type*} [DecidableEq κ]

/-- Add the keys of `ensured` that are missing, and push those of `pushed`. -/
def extend (ensured : Finset κ) (pushed s : Multiset κ) : Multiset κ :=
  s + (ensured.filter fun k => k ∉ s).val + pushed

theorem count_extend (ensured : Finset κ) (pushed s : Multiset κ) (k : κ) :
    (extend ensured pushed s).count k
      = s.count k + (if k ∈ ensured ∧ k ∉ s then 1 else 0) + pushed.count k := by
  rw [extend, Multiset.count_add, Multiset.count_add, Multiset.count_eq_of_nodup (Finset.nodup _)]
  simp only [Finset.mem_val, Finset.mem_filter]

@[simp]
theorem mem_extend {ensured : Finset κ} {pushed s : Multiset κ} {k : κ} :
    k ∈ extend ensured pushed s ↔ k ∈ s ∨ k ∈ ensured ∨ k ∈ pushed := by
  simp only [extend, Multiset.mem_add, Finset.mem_val, Finset.mem_filter]
  tauto

@[simp]
theorem extend_empty (s : Multiset κ) : extend ∅ 0 s = s := by
  simp [extend]

/-- A step that only pushes. -/
theorem extend_pushed (pushed s : Multiset κ) : extend ∅ pushed s = s + pushed := by
  simp [extend]

/-- A step that ensures one key. -/
theorem extend_singleton (k : κ) (s : Multiset κ) :
    extend {k} 0 s = if k ∈ s then s else s + {k} := by
  split_ifs with h <;> simp [extend, Finset.filter_singleton, h]

/-- **Two steps are one**, when the second does not ensure what the first one pushes. -/
theorem extend_extend {ensured ensured' : Finset κ} {pushed pushed' : Multiset κ}
    (h : ∀ k ∈ ensured', k ∉ pushed) (s : Multiset κ) :
    extend ensured' pushed' (extend ensured pushed s)
      = extend (ensured ∪ ensured') (pushed + pushed') s := by
  apply Multiset.ext.mpr
  intro k
  have hk := h k
  simp only [count_extend, mem_extend, Finset.mem_union, Multiset.count_add]
  by_cases he' : k ∈ ensured'
  · -- a key that the second step ensures is not pushed by the first
    have hpushed := hk he'
    by_cases he : k ∈ ensured <;> by_cases hs : k ∈ s <;> simp [he, he', hs, hpushed]
  · simp only [he', false_and, if_false, or_false]
    omega

/-- **When the keys stay distinct**: when those that are pushed are distinct and new. -/
theorem nodup_extend_iff {ensured : Finset κ} {pushed s : Multiset κ}
    (h : ∀ k ∈ ensured, k ∉ pushed) (hs : s.Nodup) :
    (extend ensured pushed s).Nodup ↔ pushed.Nodup ∧ ∀ k ∈ pushed, k ∉ s := by
  have hcount : ∀ k, (extend ensured pushed s).count k ≤ 1 ↔
      pushed.count k ≤ 1 ∧ (k ∈ pushed → k ∉ s) := by
    intro k
    have hk := h k
    have hsk := Multiset.nodup_iff_count_le_one.mp hs k
    rw [count_extend]
    by_cases hs' : k ∈ s
    · have hpos := Multiset.count_pos.mpr hs'
      by_cases hp : k ∈ pushed
      · have hpos' := Multiset.count_pos.mpr hp
        exact iff_of_false (by omega) fun hnew => hnew.2 hp hs'
      · rw [Multiset.count_eq_zero_of_notMem hp]
        simp [hs', hp, hsk]
    · rw [Multiset.count_eq_zero_of_notMem hs']
      by_cases he : k ∈ ensured
      · simp [he, hs', Multiset.count_eq_zero_of_notMem (hk he)]
      · simp [he, hs']
  simp only [Multiset.nodup_iff_count_le_one, hcount]
  constructor
  · exact fun hall => ⟨fun k => (hall k).1, fun k => (hall k).2⟩
  · exact fun hall k => ⟨hall.1 k, hall.2 k⟩

end AimrtComm
