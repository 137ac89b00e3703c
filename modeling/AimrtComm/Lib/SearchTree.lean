import Mathlib.Data.List.Basic
import Mathlib.Data.List.Induction
import Mathlib.Data.List.Pairwise
import Mathlib.Data.List.TakeWhile
import Mathlib.Order.Defs.Unbundled
import Mathlib.Tactic.Push
import Mathlib.Tactic.SplitIfs
import Mathlib.Tactic.Tauto

/-!
# Sets kept in a search tree

A set of unique elements is a search tree that is walked down with one comparison at each node and
asked once more at the bottom, about the element before the new one.  Nothing here takes the
comparison for a total order: over any strict partial order, incomparable elements exclude each
other, the elements of the tree are a chain, and what comes into the set depends on the order in
which the elements are inserted but not on the shape of the tree (`toList_of_insertedAll`).

When incomparable elements are those of the same key, the set holds the first element of each key
(`mem_chainOf_iff_find?`).
-/

namespace AimrtComm

/-- A search tree, without what is noted in its nodes to keep it balanced. -/
inductive SearchTree (α : Type*) where
  | nil
  | node (left : SearchTree α) (value : α) (right : SearchTree α)

namespace SearchTree

variable {α : Type*}

/-- The elements of the tree in order. -/
def toList : SearchTree α → List α
  | nil => []
  | node left value right => left.toList ++ value :: right.toList

section

variable (r : α → α → Prop) [DecidableRel r] (k : α)

/-- Walk down to the place of a new element; `before` is the last node that the element was not
less than.  There is no place for an element that is not greater than that one. -/
def insertUnique : SearchTree α → Option α → Option (SearchTree α)
  | nil, before => if before.all fun x => r x k then some (node nil k nil) else none
  | node left value right, before =>
    if r k value then (insertUnique left before).map fun left => node left value right
    else (insertUnique right (some value)).map fun right => node left value right

/-- The tree after an insertion: whatever balances it keeps the order of the elements. -/
def Inserted (t t' : SearchTree α) : Prop := t'.toList = ((t.insertUnique r k none).getD t).toList

/-- A tree into which these elements were inserted one after the other. -/
inductive InsertedAll : List α → SearchTree α → Prop where
  | nil : InsertedAll [] nil
  | concat {ks : List α} {k : α} {t t' : SearchTree α} :
    InsertedAll ks t → Inserted r k t t' → InsertedAll (ks ++ [k]) t'

/-! ### The set as a list -/

/-- Insert an element before the first one that it is less than, if it is greater than the one
before that. -/
def insertBetween (xs : List α) : List α :=
  let below := xs.takeWhile fun x => ¬ r k x
  if below.getLast?.all fun x => r x k then below ++ k :: xs.dropWhile fun x => ¬ r k x else xs

/-- Insert elements one after the other. -/
def chainOf (ks : List α) : List α := ks.foldl (fun xs k => insertBetween r k xs) []

end

variable {r : α → α → Prop} [DecidableRel r] {k : α} {ks xs : List α} {t t' : SearchTree α}

theorem chainOf_concat (ks : List α) (k : α) :
    chainOf r (ks ++ [k]) = insertBetween r k (chainOf r ks) := by
  rw [chainOf, List.foldl_append, List.foldl_cons, List.foldl_nil, chainOf]

/-- The walk through a tree ends at the place in the list of its elements. -/
theorem toList_insertUnique [IsTrans α r] (ht : t.toList.Pairwise r) (before : Option α) :
    (t.insertUnique r k before).map toList =
      if ((t.toList.takeWhile fun x => ¬ r k x).getLast?.or before).all fun x => r x k then
        some ((t.toList.takeWhile fun x => ¬ r k x) ++ k :: t.toList.dropWhile fun x => ¬ r k x)
      else none := by
  induction t generalizing before with
  | nil => simp [insertUnique, toList, apply_ite]
  | node left value right ihl ihr =>
    simp only [toList, List.pairwise_append, List.pairwise_cons] at ht
    obtain ⟨hleft, ⟨-, hright⟩, hlt⟩ := ht
    rw [insertUnique, toList]
    by_cases hk : r k value
    · -- the walk to the left does not see the node nor what is behind it
      have htake : ((left.toList ++ value :: right.toList).takeWhile fun x => ¬ r k x)
          = left.toList.takeWhile fun x => ¬ r k x := by
        rw [List.takeWhile_append]
        split_ifs with hlen
        · rw [List.takeWhile_cons_of_neg (by simpa using hk), List.append_nil]
          exact ((List.takeWhile_prefix _).eq_of_length hlen).symm
        · rfl
      have hdrop : ((left.toList ++ value :: right.toList).dropWhile fun x => ¬ r k x)
          = (left.toList.dropWhile fun x => ¬ r k x) ++ value :: right.toList := by
        rw [List.dropWhile_append]
        split_ifs with hempty
        · rw [List.dropWhile_cons_of_neg (by simpa using hk), List.isEmpty_iff.mp hempty,
            List.nil_append]
        · rfl
      rw [if_pos hk, Option.map_map, htake, hdrop]
      have h := ihl hleft before
      split_ifs at h ⊢ with hbefore
      · obtain ⟨left', hins, hleft'⟩ := Option.map_eq_some_iff.mp h
        rw [hins, Option.map_some, Function.comp_apply, toList, hleft', List.append_assoc,
          List.cons_append]
      · rw [Option.map_eq_none_iff.mp h, Option.map_none]
    · -- what is on the left is not greater either, as `r` is transitive
      have hall : ∀ x ∈ left.toList, (decide ¬ r k x) = true := by
        intro x hx
        exact decide_eq_true fun hkx =>
          hk (IsTrans.trans _ _ _ hkx (hlt x hx value List.mem_cons_self))
      have htake : ((left.toList ++ value :: right.toList).takeWhile fun x => ¬ r k x)
          = left.toList ++ value :: right.toList.takeWhile fun x => ¬ r k x := by
        rw [List.takeWhile_append_of_pos hall, List.takeWhile_cons_of_pos (by simpa using hk)]
      have hdrop : ((left.toList ++ value :: right.toList).dropWhile fun x => ¬ r k x)
          = right.toList.dropWhile fun x => ¬ r k x := by
        rw [List.dropWhile_append_of_pos hall, List.dropWhile_cons_of_pos (by simpa using hk)]
      have hlast : ((left.toList ++ value :: right.toList.takeWhile fun x => ¬ r k x).getLast?).or
          before = ((right.toList.takeWhile fun x => ¬ r k x).getLast?).or (some value) := by
        rw [List.getLast?_append, List.getLast?_cons]
        cases (right.toList.takeWhile fun x => ¬ r k x).getLast? <;> rfl
      rw [if_neg hk, Option.map_map, htake, hdrop, hlast]
      have h := ihr hright (some value)
      split_ifs at h ⊢ with hbefore
      · obtain ⟨right', hins, hright'⟩ := Option.map_eq_some_iff.mp h
        rw [hins, Option.map_some, Function.comp_apply, toList, hright', List.append_assoc,
          List.cons_append]
      · rw [Option.map_eq_none_iff.mp h, Option.map_none]

theorem toList_of_inserted [IsTrans α r] (ht : t.toList.Pairwise r) (h : Inserted r k t t') :
    t'.toList = insertBetween r k t.toList := by
  have hspec := toList_insertUnique (k := k) ht none
  rw [Option.or_none] at hspec
  rw [Inserted] at h
  rw [h, insertBetween]
  split_ifs at hspec ⊢ with hbelow
  · obtain ⟨t₁, ht₁, heq⟩ := Option.map_eq_some_iff.mp hspec
    rw [ht₁, Option.getD_some, heq]
  · rw [Option.map_eq_none_iff.mp hspec, Option.getD_none]

/-! ### Chains -/

/-- The elements that an insertion meets first are those that are not greater. -/
theorem takeWhile_append_dropWhile_eq (k : α) (xs : List α) :
    (xs.takeWhile fun x => ¬ r k x) ++ xs.dropWhile (fun x => ¬ r k x) = xs :=
  List.takeWhile_append_dropWhile

theorem not_lt_of_mem_takeWhile {x : α} (hx : x ∈ xs.takeWhile fun x => ¬ r k x) : ¬ r k x := by
  simpa using List.mem_takeWhile_imp hx

/-- In a chain everything behind an element that is greater than `k` is greater than `k`. -/
theorem lt_of_mem_dropWhile [IsTrans α r] (hxs : xs.Pairwise r) {x : α}
    (hx : x ∈ xs.dropWhile fun x => ¬ r k x) : r k x := by
  induction xs with
  | nil => cases hx
  | cons y ys ih =>
    rw [List.dropWhile_cons] at hx
    split_ifs at hx with hy
    · exact ih hxs.of_cons hx
    · have hky : r k y := by simpa using hy
      rcases List.mem_cons.mp hx with rfl | hx
      · exact hky
      · exact IsTrans.trans _ _ _ hky (List.rel_of_pairwise_cons hxs hx)

omit [DecidableRel r] in
/-- An element that is greater than the last one of a chain is greater than all of them. -/
theorem lt_of_getLast? [IsTrans α r] (hxs : xs.Pairwise r) (h : ∀ x ∈ xs.getLast?, r x k) :
    ∀ x ∈ xs, r x k := by
  intro x hx
  rcases List.eq_nil_or_concat xs with rfl | ⟨ys, y, rfl⟩
  · cases hx
  · rw [List.concat_eq_append] at hx h hxs
    have hy : r y k := h y (by simp)
    rcases List.mem_append.mp hx with hx | hx
    · exact IsTrans.trans _ _ _ ((List.pairwise_append.mp hxs).2.2 x hx y (by simp)) hy
    · rwa [List.mem_singleton.mp hx]

/-- An element comes into a chain exactly when it can be compared with all of it. -/
theorem insertBetween_eq [IsTrans α r] (hxs : xs.Pairwise r) (k : α) :
    insertBetween r k xs =
      if ∀ x ∈ xs, r x k ∨ r k x then
        (xs.takeWhile fun x => ¬ r k x) ++ k :: xs.dropWhile fun x => ¬ r k x
      else xs := by
  have hbelow : (xs.takeWhile fun x => ¬ r k x).Pairwise r :=
    hxs.sublist (List.takeWhile_sublist _)
  rw [insertBetween]
  refine if_congr ?_ rfl rfl
  simp only [Option.all_eq_true, decide_eq_true_eq]
  constructor
  · intro h x hx
    rw [← takeWhile_append_dropWhile_eq (r := r) k xs] at hx
    rcases List.mem_append.mp hx with hx | hx
    · exact .inl (lt_of_getLast? hbelow h x hx)
    · exact .inr (lt_of_mem_dropWhile hxs hx)
  · intro h x hx
    have hx := List.mem_of_getLast? hx
    exact (h x ((List.takeWhile_sublist _).subset hx)).resolve_right (not_lt_of_mem_takeWhile hx)

theorem pairwise_insertBetween [IsTrans α r] (hxs : xs.Pairwise r) (k : α) :
    (insertBetween r k xs).Pairwise r := by
  rw [insertBetween_eq hxs]
  split_ifs with h
  · have hsplit := hxs
    rw [← takeWhile_append_dropWhile_eq (r := r) k xs, List.pairwise_append] at hsplit
    obtain ⟨hbelow, habove, hcross⟩ := hsplit
    refine List.pairwise_append.mpr ⟨hbelow, List.pairwise_cons.mpr ⟨?_, habove⟩, ?_⟩
    · exact fun x hx => lt_of_mem_dropWhile hxs hx
    · intro x hx y hy
      rcases List.mem_cons.mp hy with rfl | hy
      · exact (h x ((List.takeWhile_sublist _).subset hx)).resolve_right
          (not_lt_of_mem_takeWhile hx)
      · exact hcross x hx y hy
  · exact hxs

theorem mem_insertBetween_iff [IsTrans α r] (hxs : xs.Pairwise r) {x : α} :
    x ∈ insertBetween r k xs ↔ x ∈ xs ∨ x = k ∧ ∀ y ∈ xs, r y k ∨ r k y := by
  have hsplit : x ∈ xs ↔ x ∈ (xs.takeWhile fun x => ¬ r k x) ∨
      x ∈ xs.dropWhile fun x => ¬ r k x := by
    rw [← List.mem_append, takeWhile_append_dropWhile_eq]
  rw [insertBetween_eq hxs]
  split_ifs with h
  · rw [List.mem_append, List.mem_cons, hsplit, and_iff_left h]
    tauto
  · exact (or_iff_left fun hx => h hx.2).symm

theorem pairwise_chainOf [IsTrans α r] (ks : List α) : (chainOf r ks).Pairwise r := by
  induction ks using List.reverseRecOn with
  | nil => exact .nil
  | append_singleton ks k ih =>
    rw [chainOf_concat]
    exact pairwise_insertBetween ih k

/-- **The shape of the tree does not matter.**  The elements of a tree, in order, are those that
came in between the others one after the other. -/
theorem toList_of_insertedAll [IsTrans α r] (h : InsertedAll r ks t) : t.toList = chainOf r ks := by
  induction h with
  | nil => rfl
  | concat _ hins ih =>
    rw [chainOf_concat, ← ih]
    exact toList_of_inserted (ih ▸ pairwise_chainOf _) hins

theorem mem_of_mem_chainOf [IsTrans α r] {x : α} (hx : x ∈ chainOf r ks) : x ∈ ks := by
  induction ks using List.reverseRecOn with
  | nil => cases hx
  | append_singleton ks k ih =>
    rw [chainOf_concat, mem_insertBetween_iff (pairwise_chainOf ks)] at hx
    rcases hx with hx | ⟨rfl, -⟩
    · exact List.mem_append_left _ (ih hx)
    · exact List.mem_append_right _ (List.mem_singleton_self _)

/-- What is in the set stays there. -/
theorem chainOf_subset_append [IsTrans α r] (ks ls : List α) :
    chainOf r ks ⊆ chainOf r (ks ++ ls) := by
  induction ls using List.reverseRecOn with
  | nil =>
    rw [List.append_nil]
    exact List.Subset.refl _
  | append_singleton ls k ih =>
    rw [← List.append_assoc, chainOf_concat]
    exact fun x hx => (mem_insertBetween_iff (pairwise_chainOf _)).mpr (.inl (ih hx))

/-- **An element is kept out only by one that it cannot be compared with.** -/
theorem exists_incomparable_of_not_mem [IsTrans α r] {x : α} (hx : x ∈ ks)
    (hnot : x ∉ chainOf r ks) : ∃ y ∈ chainOf r ks, ¬ r x y ∧ ¬ r y x := by
  obtain ⟨ks₁, ks₂, rfl⟩ := List.append_of_mem hx
  have hsub : chainOf r (ks₁ ++ [x]) ⊆ chainOf r (ks₁ ++ x :: ks₂) := by
    rw [show ks₁ ++ x :: ks₂ = (ks₁ ++ [x]) ++ ks₂ from List.append_cons ..]
    exact chainOf_subset_append _ _
  have hout : x ∉ chainOf r (ks₁ ++ [x]) := fun h => hnot (hsub h)
  rw [chainOf_concat, mem_insertBetween_iff (pairwise_chainOf _), not_or, not_and] at hout
  have hblocked := hout.2 rfl
  have hkept : chainOf r ks₁ ⊆ chainOf r (ks₁ ++ [x]) :=
    chainOf_subset_append _ _
  push Not at hblocked
  obtain ⟨y, hy, hyx, hxy⟩ := hblocked
  exact ⟨y, hsub (hkept hy), hxy, hyx⟩

/-! ### Elements with a key -/

section

variable {κ : Type*} [DecidableEq κ] {key : α → κ}

/-- **The set holds the first element of each key**, when elements exclude each other exactly if
they have the same key. -/
theorem mem_chainOf_iff_find? [IsTrans α r]
    (hkey : ∀ x y, ¬ r x y ∧ ¬ r y x ↔ key x = key y) (ks : List α) (x : α) :
    x ∈ chainOf r ks ↔ ks.find? (fun y => key y = key x) = some x := by
  induction ks using List.reverseRecOn with
  | nil => simp [chainOf]
  | append_singleton ks k ih =>
    rw [chainOf_concat, mem_insertBetween_iff (pairwise_chainOf ks), ih, List.find?_append,
      List.find?_singleton]
    have hfree : (∀ y ∈ chainOf r ks, r y k ∨ r k y) ↔ ∀ y ∈ ks, key y ≠ key k := by
      constructor
      · intro h y hy heq
        obtain ⟨z, hz, hzk⟩ : ∃ z ∈ chainOf r ks, key z = key k := by
          by_cases hmem : y ∈ chainOf r ks
          · exact ⟨y, hmem, heq⟩
          · obtain ⟨z, hz, hinc⟩ := exists_incomparable_of_not_mem hy hmem
            exact ⟨z, hz, ((hkey y z).mp hinc).symm.trans heq⟩
        obtain ⟨hzk', hkz⟩ := (hkey z k).mpr hzk
        exact (h z hz).elim hzk' hkz
      · intro h y hy
        by_contra hno
        rw [not_or] at hno
        exact h y (mem_of_mem_chainOf hy) ((hkey y k).mp hno)
    rw [hfree]
    cases hfind : ks.find? fun y => key y = key x with
    | some z =>
      -- the key is taken already
      have hz : key z = key x := by simpa using List.find?_some hfind
      have hmem := List.mem_of_find?_eq_some hfind
      rw [Option.some_or]
      refine or_iff_left ?_
      rintro ⟨rfl, h⟩
      exact h z hmem hz
    | none =>
      have hno : ∀ y ∈ ks, key y ≠ key x := by simpa using hfind
      rw [Option.none_or]
      split_ifs with hk
      · have hkx : key k = key x := by simpa using hk
        simp only [false_or, Option.some_inj]
        exact ⟨fun h => h.1.symm, fun h => ⟨h.symm, fun y hy => hkx ▸ hno y hy⟩⟩
      · simp only [false_or, iff_false, not_and]
        rintro rfl
        simp at hk

end

end SearchTree

end AimrtComm
