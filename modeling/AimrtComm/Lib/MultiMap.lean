import Mathlib.Data.List.Nodup
import Mathlib.Data.String.Basic

/-!
# Maps from keys to sets

A map from keys to sets of values, both kept in order, in which no set is empty: it is the relation
of its pairs (`MultiMap.ext_holds`), so that the order in which pairs are added does not show
(`holds_addAll`).  `entries` lists it with its keys in order.
-/

namespace AimrtComm

variable {κ τ : Type*} [Ord κ] [Ord τ] [Std.TransOrd κ] [Std.TransOrd τ]

/-- A map from keys to nonempty sets of values. -/
structure MultiMap (κ τ : Type*) [Ord κ] [Ord τ] [Std.TransOrd κ] [Std.TransOrd τ] where
  sets : Std.ExtTreeMap κ (Std.ExtTreeSet τ)
  nonempty : ∀ (k : κ) (s : Std.ExtTreeSet τ), sets[k]? = some s → s ≠ ∅

namespace MultiMap

/-- The pairs of a map. -/
def Holds (m : MultiMap κ τ) (k : κ) (v : τ) : Prop := v ∈ m.sets.getD k ∅

/-- The map without a pair. -/
def empty : MultiMap κ τ where
  sets := ∅
  nonempty k s h := by simp at h

theorem not_holds_empty (k : κ) (v : τ) : ¬Holds empty k v := by
  simp [Holds, empty]

/-- Add a pair. -/
def add (m : MultiMap κ τ) (k : κ) (v : τ) : MultiMap κ τ where
  sets := m.sets.alter k fun s => some ((s.getD ∅).insert v)
  nonempty l s h := by
    rw [Std.ExtTreeMap.getElem?_alter] at h
    split_ifs at h with hkl
    · rw [Option.some.injEq] at h
      subst h
      intro hempty
      have hmem : v ∈ (m.sets[k]?.getD ∅).insert v := by simp
      rw [hempty] at hmem
      exact Std.ExtTreeSet.not_mem_empty hmem
    · exact m.nonempty l s h

/-- Add the pairs of a list. -/
def addAll (m : MultiMap κ τ) (pairs : List (κ × τ)) : MultiMap κ τ :=
  pairs.foldl (fun m pair => m.add pair.1 pair.2) m

theorem addAll_append (m : MultiMap κ τ) (pairs pairs' : List (κ × τ)) :
    m.addAll (pairs ++ pairs') = (m.addAll pairs).addAll pairs' :=
  List.foldl_append

/-- The keys in order, each with its values in order. -/
def entries (m : MultiMap κ τ) : List (κ × List τ) :=
  m.sets.toList.map fun entry => (entry.1, entry.2.toList)

theorem keys_entries (m : MultiMap κ τ) : m.entries.map Prod.fst = m.sets.keys := by
  rw [entries, List.map_map, ← Std.ExtTreeMap.map_fst_toList_eq_keys]
  rfl

theorem nodup_keys_entries (m : MultiMap κ τ) : (m.entries.map Prod.fst).Nodup := by
  rw [keys_entries]
  exact Std.ExtTreeMap.nodup_keys

variable [Std.LawfulEqOrd κ] [Std.LawfulEqOrd τ]

/-! ### Maps as relations -/

@[simp]
theorem holds_add {m : MultiMap κ τ} {k l : κ} {v w : τ} :
    Holds (m.add k v) l w ↔ l = k ∧ w = v ∨ Holds m l w := by
  rw [Holds, add, Holds, Std.ExtTreeMap.getD_alter]
  by_cases hkl : k = l
  · subst hkl
    rw [if_pos (Std.ReflCmp.compare_self), Option.getD_some, Std.ExtTreeSet.mem_insert,
      ← Std.ExtTreeMap.getD_eq_getD_getElem?, Std.LawfulEqCmp.compare_eq_iff_eq]
    simp [eq_comm]
  · rw [if_neg (by rwa [Std.LawfulEqCmp.compare_eq_iff_eq])]
    simp [Ne.symm hkl]

/-- **A map is the relation of its pairs.** -/
theorem ext_holds {m n : MultiMap κ τ} (h : ∀ k v, Holds m k v ↔ Holds n k v) : m = n := by
  suffices hsets : m.sets = n.sets by
    cases m
    cases n
    congr
  have hget : ∀ k, m.sets.getD k ∅ = n.sets.getD k ∅ :=
    fun k => Std.ExtTreeSet.ext_mem (h k)
  apply Std.ExtTreeMap.ext_getElem?
  intro k
  have hk := hget k
  rw [Std.ExtTreeMap.getD_eq_getD_getElem?, Std.ExtTreeMap.getD_eq_getD_getElem?] at hk
  -- a key without a set and one with the empty set are told apart by `nonempty`
  cases hm : m.sets[k]? with
  | none =>
    cases hn : n.sets[k]? with
    | none => rfl
    | some t =>
      rw [hm, hn] at hk
      exact absurd hk.symm (n.nonempty k t hn)
  | some s =>
    cases hn : n.sets[k]? with
    | none =>
      rw [hm, hn] at hk
      exact absurd hk (m.nonempty k s hm)
    | some t =>
      rw [hm, hn] at hk
      exact congrArg some hk

/-- What is added is a set of pairs: their order and repetitions do not show. -/
theorem holds_addAll {m : MultiMap κ τ} {pairs : List (κ × τ)} {k : κ} {v : τ} :
    Holds (m.addAll pairs) k v ↔ (k, v) ∈ pairs ∨ Holds m k v := by
  induction pairs generalizing m with
  | nil => simp [addAll]
  | cons pair pairs ih =>
    rw [addAll, List.foldl_cons, ← addAll, ih, holds_add, List.mem_cons, Prod.ext_iff]
    tauto

/-! ### Entries -/

omit [Std.LawfulEqOrd τ] in
theorem mem_entries_iff {m : MultiMap κ τ} {k : κ} {vs : List τ} :
    (k, vs) ∈ m.entries ↔ ∃ s, m.sets[k]? = some s ∧ s.toList = vs := by
  rw [entries, List.mem_map]
  constructor
  · rintro ⟨⟨l, s⟩, hmem, heq⟩
    simp only [Prod.mk.injEq] at heq
    rw [Std.ExtTreeMap.mem_toList_iff_getElem?_eq_some, heq.1] at hmem
    exact ⟨s, hmem, heq.2⟩
  · rintro ⟨s, hs, rfl⟩
    exact ⟨(k, s), Std.ExtTreeMap.mem_toList_iff_getElem?_eq_some.mpr hs, rfl⟩

/-- The values of an entry are the ones of its key. -/
theorem mem_of_mem_entries {m : MultiMap κ τ} {k : κ} {vs : List τ} (h : (k, vs) ∈ m.entries)
    {v : τ} : v ∈ vs ↔ Holds m k v := by
  obtain ⟨s, hs, rfl⟩ := mem_entries_iff.mp h
  rw [Holds, Std.ExtTreeMap.getD_eq_getD_getElem?, hs, Option.getD_some,
    Std.ExtTreeSet.mem_toList]

omit [Std.LawfulEqOrd τ] in
theorem ordered_of_mem_entries {m : MultiMap κ τ} {k : κ} {vs : List τ}
    (h : (k, vs) ∈ m.entries) : vs.Pairwise (fun v w => compare v w = .lt) := by
  obtain ⟨s, -, rfl⟩ := mem_entries_iff.mp h
  exact Std.ExtTreeSet.ordered_toList

/-- The keys with an entry are those of some pair. -/
theorem mem_keys_entries {m : MultiMap κ τ} {k : κ} :
    k ∈ m.entries.map Prod.fst ↔ ∃ v, Holds m k v := by
  constructor
  · intro h
    obtain ⟨⟨l, vs⟩, hmem, rfl⟩ := List.mem_map.mp h
    obtain ⟨s, hs, rfl⟩ := mem_entries_iff.mp hmem
    obtain ⟨v, hv⟩ := List.exists_mem_of_ne_nil s.toList
      fun hnil => m.nonempty l s hs (Std.ExtTreeSet.toList_eq_nil_iff.mp hnil)
    exact ⟨v, (mem_of_mem_entries hmem).mp hv⟩
  · rintro ⟨v, hv⟩
    rw [keys_entries, Std.ExtTreeMap.mem_keys]
    by_contra hk
    rw [Holds, Std.ExtTreeMap.getD_eq_fallback hk] at hv
    exact Std.ExtTreeSet.not_mem_empty hv

end MultiMap

/-- Two lists in strict order are equal when they have the same members. -/
theorem eq_of_ordered_of_mem_iff [Std.LawfulEqOrd τ] {vs ws : List τ}
    (hvs : vs.Pairwise (fun v w => compare v w = .lt))
    (hws : ws.Pairwise (fun v w => compare v w = .lt)) (h : ∀ v, v ∈ vs ↔ v ∈ ws) : vs = ws := by
  have hne : ∀ {us : List τ}, us.Pairwise (fun v w => compare v w = .lt) → us.Nodup := by
    intro us hus
    apply hus.imp
    rintro v w hlt rfl
    rw [Std.LawfulEqOrd.compare_eq_iff_eq.mpr rfl] at hlt
    cases hlt
  apply List.Perm.eq_of_pairwise _ hvs hws ((List.perm_ext_iff_of_nodup (hne hvs) (hne hws)).mpr h)
  intro v w _ _ hvw hwv
  rw [Std.OrientedOrd.eq_swap, hwv] at hvw
  cases hvw

end AimrtComm
