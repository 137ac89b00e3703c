import Mathlib.Data.List.Nodup

/-!
# The owners of the entries of a table

A table only grows at its end, and its entries are changed where they are.  Some of them have an
owner, who knows the index of its entry.  Whoever owns an entry finds it there after the table has
grown (`Owns.append`), and after an entry was changed for its owner (`Owns.modify`).
-/

namespace AimrtComm.Owners

variable {ρ α : Type*} (idx : ρ → Option ℕ)

/-- Every owner finds its entry at its index. -/
def Owns (owned : List (ρ × α)) (table : List α) : Prop :=
  ∀ p ∈ owned, ∃ i, idx p.1 = some i ∧ table[i]? = some p.2

/-- No entry has two owners. -/
def Apart (owned : List (ρ × α)) : Prop := (owned.map fun p => idx p.1).Nodup

/-- What is owned after the entry of one owner was changed. -/
def change [DecidableEq ρ] (owner : ρ) (f : α → α) (owned : List (ρ × α)) : List (ρ × α) :=
  owned.map fun p => if p.1 = owner then (p.1, f p.2) else p

variable {idx} {owned : List (ρ × α)} {table : List α}

theorem owns_nil (table : List α) : Owns idx [] table := by
  intro p hp
  cases hp

theorem Owns.append (h : Owns idx owned table) (rest : List α) :
    Owns idx owned (table ++ rest) := by
  intro p hp
  obtain ⟨i, hi, hget⟩ := h p hp
  have hlt : i < table.length := (List.getElem?_eq_some_iff.mp hget).1
  exact ⟨i, hi, by rw [List.getElem?_append_left hlt, hget]⟩

/-- A new owner gets the next entry. -/
theorem Owns.push (h : Owns idx owned table) {owner : ρ} (hidx : idx owner = some table.length)
    (a : α) : Owns idx (owned ++ [(owner, a)]) (table ++ [a]) := by
  intro p hp
  obtain hp | hp := List.mem_append.mp hp
  · exact h.append [a] p hp
  · obtain rfl := List.mem_singleton.mp hp
    exact ⟨table.length, hidx, List.getElem?_concat_length⟩

/-- No owner has the index of the next entry. -/
theorem Owns.idx_ne (h : Owns idx owned table) :
    some table.length ∉ owned.map fun p => idx p.1 := by
  intro hmem
  obtain ⟨p, hp, hidx⟩ := List.mem_map.mp hmem
  obtain ⟨i, hi, hget⟩ := h p hp
  have hlt : i < table.length := (List.getElem?_eq_some_iff.mp hget).1
  obtain rfl : i = table.length := Option.some.inj (hi.symm.trans hidx)
  omega

theorem Apart.push (hapart : Apart idx owned) (h : Owns idx owned table) {owner : ρ}
    (hidx : idx owner = some table.length) (a : α) : Apart idx (owned ++ [(owner, a)]) := by
  unfold Apart at hapart ⊢
  rw [List.map_append, List.map_singleton, hidx]
  exact List.nodup_append.mpr ⟨hapart, List.nodup_singleton _, fun i hi j hj hij =>
    h.idx_ne (by rwa [← List.mem_singleton.mp hj, ← hij])⟩

/-- Whoever has the index of an owner is this owner. -/
theorem Apart.eq_of_idx (hapart : Apart idx owned) {p q : ρ × α} (hp : p ∈ owned) (hq : q ∈ owned)
    (h : idx p.1 = idx q.1) : p = q :=
  List.inj_on_of_nodup_map hapart hp hq h

section Change

variable [DecidableEq ρ] {owner : ρ} {f : α → α}

/-- A change of an entry leaves the owners and their indices alone. -/
theorem map_idx_change : (change owner f owned).map (fun p => idx p.1) =
    owned.map fun p => idx p.1 := by
  unfold change
  rw [List.map_map]
  apply List.map_congr_left
  intro p _
  show idx (if p.1 = owner then (p.1, f p.2) else p).1 = idx p.1
  by_cases h : p.1 = owner
  · rw [if_pos h]
  · rw [if_neg h]

/-- The owners are those that there were. -/
theorem exists_of_mem_change {p : ρ × α} (hp : p ∈ change owner f owned) :
    ∃ q ∈ owned, q.1 = p.1 := by
  obtain ⟨q, hq, rfl⟩ := List.mem_map.mp hp
  by_cases h : q.1 = owner
  · exact ⟨q, hq, by rw [if_pos h]⟩
  · exact ⟨q, hq, by rw [if_neg h]⟩

theorem Apart.change (hapart : Apart idx owned) : Apart idx (change owner f owned) := by
  unfold Apart
  rwa [map_idx_change]

/-- A change of the entry of an owner is a change for this owner only. -/
theorem Owns.modify (h : Owns idx owned table) (hapart : Apart idx owned) {i : ℕ} {a : α}
    (howner : (owner, a) ∈ owned) (hidx : idx owner = some i) :
    Owns idx (change owner f owned) (table.modify i f) := by
  intro p hp
  obtain ⟨q, hq, rfl⟩ := List.mem_map.mp hp
  obtain ⟨j, hj, hget⟩ := h q hq
  by_cases heq : q.1 = owner
  · have hji : j = i := Option.some.inj (by rw [← hj, heq, hidx])
    refine ⟨j, by rw [if_pos heq]; exact hj, ?_⟩
    rw [if_pos heq, List.getElem?_modify, hget]
    simp [hji]
  · -- no other owner has the index of the entry that is changed
    have hij : i ≠ j := by
      rintro rfl
      exact heq (congrArg Prod.fst (hapart.eq_of_idx hq howner (hj.trans hidx.symm)))
    refine ⟨j, by rw [if_neg heq]; exact hj, ?_⟩
    rw [if_neg heq, List.getElem?_modify, hget]
    simp [hij]

end Change

end AimrtComm.Owners
