import Mathlib.Data.List.Basic
import Mathlib.Data.List.Nodup

/-!
# Lists whose elements are named by a key

`splitAtKey` cuts a list at the first element of a key.  An operation that deals with one key
only, whatever it does with that element (replace it, move it, remove it, add it), is described
by `EditsAt`: the elements of all other keys stay in their order, and the key does not become
ambiguous.  `EditsAt` keeps the keys pairwise distinct, and the edits of a list that was cut at
the key are instances of it.
-/

namespace AimrtComm.KeyedList

variable {α κ : Type*} [DecidableEq κ] (key : α → κ)

/-- The keys of the elements are pairwise distinct. -/
def Distinct (xs : List α) : Prop := (xs.map key).Nodup

instance (xs : List α) : Decidable (Distinct key xs) :=
  inferInstanceAs (Decidable (xs.map key).Nodup)

/-- The elements of all keys other than `k`. -/
def others (k : κ) (xs : List α) : List α := xs.filter fun x => key x ≠ k

/-- The first element of key `k`, with what is before and after it. -/
def splitAtKey (k : κ) : List α → Option (List α × α × List α)
  | [] => none
  | x :: xs =>
    if key x = k then some ([], x, xs)
    else (splitAtKey k xs).map fun s => (x :: s.1, s.2.1, s.2.2)

variable {key} {k : κ}

/-! ### Cutting at a key -/

theorem splitAtKey_eq_none_iff {xs : List α} :
    splitAtKey key k xs = none ↔ ∀ x ∈ xs, key x ≠ k := by
  induction xs with
  | nil => simp [splitAtKey]
  | cons x xs ih =>
    rw [splitAtKey]
    split_ifs with h
    · simp [h]
    · simp [h, ih]

theorem splitAtKey_eq_some {xs pre post : List α} {r : α}
    (h : splitAtKey key k xs = some (pre, r, post)) :
    xs = pre ++ r :: post ∧ key r = k ∧ ∀ x ∈ pre, key x ≠ k := by
  induction xs generalizing pre with
  | nil => simp [splitAtKey] at h
  | cons x xs ih =>
    rw [splitAtKey] at h
    split_ifs at h with hx
    · obtain ⟨rfl, rfl, rfl⟩ := h
      exact ⟨rfl, hx, by simp⟩
    · rw [Option.map_eq_some_iff] at h
      obtain ⟨⟨pre', r', post'⟩, hs, he⟩ := h
      obtain ⟨rfl, rfl, rfl⟩ := he
      obtain ⟨h1, h2, h3⟩ := ih hs
      refine ⟨by rw [h1, List.cons_append], h2, ?_⟩
      intro y hy
      rcases List.mem_cons.mp hy with rfl | hy
      · exact hx
      · exact h3 y hy

theorem splitAtKey_append {pre post : List α} {r : α} (hpre : ∀ x ∈ pre, key x ≠ k)
    (hr : key r = k) : splitAtKey key k (pre ++ r :: post) = some (pre, r, post) := by
  induction pre with
  | nil => simp [splitAtKey, hr]
  | cons x pre ih =>
    rw [List.cons_append, splitAtKey, if_neg (hpre x List.mem_cons_self),
      ih fun y hy => hpre y (List.mem_cons_of_mem _ hy)]
    rfl

omit [DecidableEq κ] in
/-- In a list of distinct keys nothing after the cut has the key either. -/
theorem Distinct.not_mem_post {pre post : List α} {r : α} (h : Distinct key (pre ++ r :: post))
    (hr : key r = k) : ∀ x ∈ post, key x ≠ k := by
  rw [Distinct, List.map_append, List.map_cons, List.nodup_append, List.nodup_cons] at h
  intro x hx hk
  exact h.2.1.1 (hr.trans hk.symm ▸ List.mem_map_of_mem hx)

omit [DecidableEq κ] in
theorem Distinct.not_mem_pre {pre post : List α} {r : α} (h : Distinct key (pre ++ r :: post))
    (hr : key r = k) : ∀ x ∈ pre, key x ≠ k := by
  rw [Distinct, List.map_append, List.map_cons, List.nodup_append] at h
  intro x hx hk
  exact h.2.2 _ (List.mem_map_of_mem hx) _ List.mem_cons_self (hk.trans hr.symm)

/-! ### The elements of other keys -/

@[simp] theorem others_append (xs ys : List α) :
    others key k (xs ++ ys) = others key k xs ++ others key k ys := List.filter_append ..

@[simp] theorem others_cons_self {x : α} (h : key x = k) (xs : List α) :
    others key k (x :: xs) = others key k xs := by
  simp [others, h]

@[simp] theorem others_nil : others key k ([] : List α) = [] := rfl

theorem mem_others {x : α} {xs : List α} : x ∈ others key k xs ↔ x ∈ xs ∧ key x ≠ k := by
  simp [others]

/-! ### Edits at one key -/

variable (key k) in
/-- `ys` is `xs` edited at the key `k` only: the elements of the other keys are the same, in the
same order, and at most one element of `ys` has the key. -/
structure EditsAt (xs ys : List α) : Prop where
  others_eq : others key k ys = others key k xs
  unique : (ys.filter fun y => key y = k).length ≤ 1

theorem distinct_iff {xs : List α} :
    Distinct key xs ↔ Distinct key (others key k xs) ∧
      (xs.filter fun y => key y = k).length ≤ 1 := by
  induction xs with
  | nil => simp [Distinct]
  | cons x xs ih =>
    by_cases hx : key x = k
    · rw [others_cons_self hx, List.filter_cons_of_pos (by simpa using hx), List.length_cons]
      have hmem : k ∉ xs.map key ↔ (xs.filter fun y => key y = k).length = 0 := by
        simp [List.filter_eq_nil_iff]
      have hcons : Distinct key (x :: xs) ↔ k ∉ xs.map key ∧ Distinct key xs := by
        rw [Distinct, List.map_cons, List.nodup_cons, hx]
        rfl
      rw [hcons, hmem, ih]
      constructor
      · rintro ⟨h0, hd, -⟩
        exact ⟨hd, by omega⟩
      · rintro ⟨hd, h1⟩
        exact ⟨by omega, hd, by omega⟩
    · have hmem : key x ∉ (others key k xs).map key ↔ key x ∉ xs.map key := by
        simp only [List.mem_map, mem_others, not_exists, not_and]
        exact ⟨fun h y hy he => h y ⟨hy, he ▸ hx⟩ he, fun h y hy he => h y hy.1 he⟩
      have hcons : ∀ ys, Distinct key (x :: ys) ↔ key x ∉ ys.map key ∧ Distinct key ys := by
        intro ys
        rw [Distinct, List.map_cons, List.nodup_cons]
        rfl
      have ho : others key k (x :: xs) = x :: others key k xs := by simp [others, hx]
      rw [ho, hcons, hcons, hmem, ih, List.filter_cons_of_neg (by simpa using hx), and_assoc]

/-- Edits at one key keep the keys pairwise distinct. -/
theorem EditsAt.distinct {xs ys : List α} (h : EditsAt key k xs ys) (hx : Distinct key xs) :
    Distinct key ys := by
  rw [distinct_iff (k := k), h.others_eq]
  exact ⟨(distinct_iff.mp hx).1, h.unique⟩

/-- An element of another key is in the edited list exactly when it was in the list. -/
theorem EditsAt.mem_iff {xs ys : List α} (h : EditsAt key k xs ys) {x : α} (hx : key x ≠ k) :
    x ∈ ys ↔ x ∈ xs := by
  have hy : x ∈ others key k ys ↔ x ∈ ys ∧ key x ≠ k := mem_others
  have hx' : x ∈ others key k xs ↔ x ∈ xs ∧ key x ≠ k := mem_others
  rw [h.others_eq] at hy
  tauto

theorem EditsAt.refl {xs : List α} (h : Distinct key xs) : EditsAt key k xs xs :=
  ⟨rfl, (distinct_iff.mp h).2⟩

section Cut

variable {pre post : List α} {r r' : α}

theorem filter_key_eq_nil {xs : List α} (h : ∀ x ∈ xs, key x ≠ k) :
    (xs.filter fun y => key y = k) = [] :=
  List.filter_eq_nil_iff.mpr fun x hx => by simpa using h x hx

/-- Replacing the element of the key. -/
theorem EditsAt.replace (h : Distinct key (pre ++ r :: post)) (hr : key r = k)
    (hr' : key r' = k) : EditsAt key k (pre ++ r :: post) (pre ++ r' :: post) where
  others_eq := by simp [hr, hr']
  unique := by
    simp [filter_key_eq_nil (h.not_mem_pre hr), filter_key_eq_nil (h.not_mem_post hr), hr']

/-- Replacing the element of the key and moving it to the head. -/
theorem EditsAt.toFront (h : Distinct key (pre ++ r :: post)) (hr : key r = k)
    (hr' : key r' = k) : EditsAt key k (pre ++ r :: post) (r' :: (pre ++ post)) where
  others_eq := by simp [hr, hr']
  unique := by
    simp [filter_key_eq_nil (h.not_mem_pre hr), filter_key_eq_nil (h.not_mem_post hr), hr']

/-- Replacing the element of the key and moving it to the tail. -/
theorem EditsAt.toBack (h : Distinct key (pre ++ r :: post)) (hr : key r = k)
    (hr' : key r' = k) : EditsAt key k (pre ++ r :: post) (pre ++ post ++ [r']) where
  others_eq := by simp [hr, hr']
  unique := by
    simp [filter_key_eq_nil (h.not_mem_pre hr), filter_key_eq_nil (h.not_mem_post hr), hr']

/-- Removing the element of the key. -/
theorem EditsAt.remove (h : Distinct key (pre ++ r :: post)) (hr : key r = k) :
    EditsAt key k (pre ++ r :: post) (pre ++ post) where
  others_eq := by simp [hr]
  unique := by
    simp [filter_key_eq_nil (h.not_mem_pre hr), filter_key_eq_nil (h.not_mem_post hr)]

/-- Adding an element of a new key at the head. -/
theorem EditsAt.cons {xs : List α} (h : ∀ x ∈ xs, key x ≠ k) (hr : key r = k) :
    EditsAt key k xs (r :: xs) where
  others_eq := by simp [hr]
  unique := by simp [filter_key_eq_nil h, hr]

/-- Adding an element of a new key at the tail. -/
theorem EditsAt.snoc {xs : List α} (h : ∀ x ∈ xs, key x ≠ k) (hr : key r = k) :
    EditsAt key k xs (xs ++ [r]) where
  others_eq := by simp [hr]
  unique := by simp [filter_key_eq_nil h, hr]

end Cut

end AimrtComm.KeyedList
