import AimrtComm.Lib.FoldExcept
import AimrtComm.Lib.KeyedList
import Mathlib.Data.Nat.Init

/-!
# Folding elements into a keyed list

`absorbInto merge xs e` merges `e` into the first element of `xs` that has its key, and appends it
when there is none.  One such step changes what a lookup finds at the key of `e` only
(`find?_absorbInto`), so that after a whole fold the element of a key is the fold over the
elements of that key (`find?_foldlM_absorbInto`), and the keys are the old ones followed by the
new ones in the order in which they first occur.
-/

namespace AimrtComm.KeyedList

variable {α κ ε : Type*} [DecidableEq κ] (key : α → κ) (merge : α → α → Except ε α)

/-- Merge `e` into the first element of its key, or append it. -/
def absorbInto (xs : List α) (e : α) : Except ε (List α) :=
  match splitAtKey key (key e) xs with
  | none => .ok (xs ++ [e])
  | some (pre, r, post) => (merge r e).map fun r' => pre ++ r' :: post

/-- The same seen from one key: the element that is there, if any, takes up `e`. -/
def absorb (slot : Option α) (e : α) : Except ε (Option α) :=
  match slot with
  | none => .ok (some e)
  | some r => (merge r e).map some

/-- The first element of a key. -/
def findKey? (k : κ) (xs : List α) : Option α := xs.find? fun x => key x = k

/-- The elements of a key. -/
def ofKey (k : κ) (xs : List α) : List α := xs.filter fun x => key x = k

/-- Merging `e` into an element of its key gives an element of that key. -/
def MergesKey (e : α) : Prop := ∀ r r', key r = key e → merge r e = .ok r' → key r' = key r

variable {key merge} {xs ys es : List α} {e : α} {k : κ}

/-! ### Lookups -/

theorem findKey?_eq_split (k : κ) (xs : List α) :
    findKey? key k xs = (splitAtKey key k xs).map fun s => s.2.1 := by
  induction xs with
  | nil => rfl
  | cons x xs ih =>
    rw [findKey?, List.find?_cons, splitAtKey]
    by_cases h : key x = k
    · simp [h]
    · simp only [h, decide_false, if_false, Option.map_map]
      exact ih

theorem findKey?_append (k : κ) (xs ys : List α) :
    findKey? key k (xs ++ ys) = (findKey? key k xs).or (findKey? key k ys) :=
  List.find?_append

theorem findKey?_cons (k : κ) (x : α) (xs : List α) :
    findKey? key k (x :: xs) = if key x = k then some x else findKey? key k xs := by
  rw [findKey?, List.find?_cons]
  by_cases h : key x = k
  · simp [h]
  · simp only [h, decide_false, if_false]
    rfl

theorem findKey?_eq_none (h : k ∉ xs.map key) : findKey? key k xs = none := by
  rw [findKey?, List.find?_eq_none]
  intro x hx
  simpa using fun he : key x = k => h (he ▸ List.mem_map_of_mem hx)

/-- Filtering the elements by their keys keeps what a lookup of a kept key finds. -/
theorem findKey?_filter {p : κ → Bool} (hk : p k = true) (xs : List α) :
    findKey? key k (xs.filter fun x => p (key x)) = findKey? key k xs := by
  induction xs with
  | nil => rfl
  | cons x xs ih =>
    rw [List.filter_cons, findKey?_cons]
    by_cases hx : key x = k
    · rw [if_pos (hx ▸ hk), findKey?_cons, if_pos hx, if_pos hx]
    · split_ifs with hp
      · rw [findKey?_cons, if_neg hx, ih]
      · exact ih

/-! ### One element -/

/-- The cases of one step: a new key goes to the end, an old one is merged in its place. -/
theorem absorbInto_eq_ok (h : absorbInto key merge xs e = .ok ys) :
    (key e ∉ xs.map key ∧ ys = xs ++ [e]) ∨
      ∃ pre r post r', xs = pre ++ r :: post ∧ key r = key e ∧ (∀ x ∈ pre, key x ≠ key e) ∧
        merge r e = .ok r' ∧ ys = pre ++ r' :: post := by
  rw [absorbInto] at h
  cases hs : splitAtKey key (key e) xs with
  | none =>
    rw [hs] at h
    left
    refine ⟨?_, (Except.ok.inj h).symm⟩
    intro hmem
    obtain ⟨x, hx, hk⟩ := List.mem_map.mp hmem
    exact splitAtKey_eq_none_iff.mp hs x hx hk
  | some s =>
    rw [hs] at h
    obtain ⟨r', hr', hys⟩ := except_map_eq_ok.mp h
    obtain ⟨hxs, hr, hpre⟩ := splitAtKey_eq_some hs
    exact .inr ⟨s.1, s.2.1, s.2.2, r', hxs, hr, hpre, hr', hys.symm⟩

theorem keys_absorbInto (hm : MergesKey key merge e) (h : absorbInto key merge xs e = .ok ys) :
    ys.map key = xs.map key ++ if key e ∈ xs.map key then [] else [key e] := by
  rcases absorbInto_eq_ok h with ⟨hk, rfl⟩ | ⟨pre, r, post, r', rfl, hr, -, hr', rfl⟩
  · rw [if_neg hk, List.map_append, List.map_singleton]
  · have hmem : key e ∈ (pre ++ r :: post).map key := by simp [hr]
    rw [if_pos hmem, List.append_nil, List.map_append, List.map_append, List.map_cons,
      List.map_cons, hm r r' hr hr']

/-- A step changes what is found at the key of its element only. -/
theorem findKey?_absorbInto_of_ne (hm : MergesKey key merge e)
    (h : absorbInto key merge xs e = .ok ys) (hk : key e ≠ k) :
    findKey? key k ys = findKey? key k xs := by
  rcases absorbInto_eq_ok h with ⟨-, rfl⟩ | ⟨pre, r, post, r', rfl, hr, -, hr', rfl⟩
  · rw [findKey?_append, findKey?_cons, if_neg hk]
    exact Option.or_none
  · rw [findKey?_append, findKey?_append, findKey?_cons, findKey?_cons, hm r r' hr hr',
      hr, if_neg hk, if_neg hk]

theorem absorb_findKey? (hm : MergesKey key merge e) (h : absorbInto key merge xs e = .ok ys) :
    absorb merge (findKey? key (key e) xs) e = .ok (findKey? key (key e) ys) := by
  rcases absorbInto_eq_ok h with ⟨hk, rfl⟩ | ⟨pre, r, post, r', rfl, hr, hpre, hr', rfl⟩
  · rw [findKey?_append, findKey?_eq_none hk, findKey?_cons, if_pos rfl]
    rfl
  · have hnone : findKey? key (key e) pre = none := by
      apply findKey?_eq_none
      intro hmem
      obtain ⟨x, hx, hk⟩ := List.mem_map.mp hmem
      exact hpre x hx hk
    rw [findKey?_append, findKey?_append, hnone, findKey?_cons, findKey?_cons, if_pos hr,
      if_pos (by rw [hm r r' hr hr', hr])]
    show (merge r e).map some = _
    rw [hr']
    rfl

/-- A step fails exactly when its key cannot take up the element. -/
theorem absorbInto_isOk_iff :
    (∃ ys, absorbInto key merge xs e = .ok ys) ↔
      ∃ s, absorb merge (findKey? key (key e) xs) e = .ok s := by
  rw [absorbInto, findKey?_eq_split]
  cases splitAtKey key (key e) xs with
  | none => simp [absorb]
  | some s =>
    show (∃ ys, (merge s.2.1 e).map _ = .ok ys) ↔ ∃ t, (merge s.2.1 e).map some = .ok t
    cases merge s.2.1 e <;> simp [Except.map]

/-! ### A whole fold -/

omit [DecidableEq κ] in
/-- The first occurrences of a list are pairwise distinct. -/
theorem nodup_eraseDups [BEq κ] [LawfulBEq κ] (ks : List κ) : ks.eraseDups.Nodup := by
  induction h : ks.length using Nat.strong_induction_on generalizing ks with
  | _ n ih =>
  cases ks with
  | nil => exact List.nodup_nil
  | cons k ks =>
    rw [List.eraseDups_cons, List.nodup_cons, List.mem_eraseDups]
    constructor
    · simp
    · have hle := List.length_filter_le (fun l => !l == k) ks
      rw [List.length_cons] at h
      exact ih _ (by omega) _ rfl

theorem keys_foldlM_absorbInto [BEq κ] [LawfulBEq κ]
    (hm : ∀ e ∈ es, MergesKey key merge e)
    (h : es.foldlM (absorbInto key merge) xs = .ok ys) :
    ys.map key
      = xs.map key ++ ((es.map key).filter fun k => k ∉ xs.map key).eraseDups := by
  induction es generalizing xs with
  | nil =>
    obtain rfl : xs = ys := by simpa [pure, Except.pure] using h
    simp
  | cons e es ih =>
    rw [List.forall_mem_cons] at hm
    rw [List.foldlM_cons, except_bind_eq_ok] at h
    obtain ⟨zs, hz, h⟩ := h
    rw [ih hm.2 h, keys_absorbInto hm.1 hz, List.map_cons]
    by_cases hk : key e ∈ xs.map key
    · rw [if_pos hk, List.append_nil, List.filter_cons_of_neg (by simpa using hk)]
    · -- the key of `e` comes first, and is dropped from the rest
      rw [if_neg hk, List.filter_cons_of_pos (by simpa using hk), List.eraseDups_cons,
        List.append_assoc, List.singleton_append, List.filter_filter]
      congr 3
      apply List.filter_congr
      intro l _
      rw [Bool.eq_iff_iff]
      simp only [decide_eq_true_eq, List.mem_append, List.mem_singleton, not_or, Bool.and_eq_true,
        Bool.not_eq_true', beq_eq_false_iff_ne, ne_eq]
      exact and_comm

theorem findKey?_foldlM_absorbInto (hm : ∀ e ∈ es, MergesKey key merge e) (k : κ)
    (h : es.foldlM (absorbInto key merge) xs = .ok ys) :
    (ofKey key k es).foldlM (absorb merge) (findKey? key k xs) = .ok (findKey? key k ys) := by
  induction es generalizing xs with
  | nil =>
    obtain rfl : xs = ys := by simpa [pure, Except.pure] using h
    rfl
  | cons e es ih =>
    rw [List.forall_mem_cons] at hm
    rw [List.foldlM_cons, except_bind_eq_ok] at h
    obtain ⟨zs, hz, h⟩ := h
    by_cases hk : key e = k
    · subst hk
      rw [ofKey, List.filter_cons_of_pos (by simp), List.foldlM_cons, absorb_findKey? hm.1 hz]
      exact ih hm.2 h
    · rw [ofKey, List.filter_cons_of_neg (by simpa using hk),
        ← findKey?_absorbInto_of_ne hm.1 hz hk]
      exact ih hm.2 h

/-- The fold fails exactly when the fold of one of the keys does. -/
theorem foldlM_absorbInto_isOk_iff (hm : ∀ e ∈ es, MergesKey key merge e) :
    (∃ ys, es.foldlM (absorbInto key merge) xs = .ok ys) ↔
      ∀ k, ∃ s, (ofKey key k es).foldlM (absorb merge) (findKey? key k xs) = .ok s := by
  constructor
  · rintro ⟨ys, h⟩ k
    exact ⟨_, findKey?_foldlM_absorbInto hm k h⟩
  · intro h
    induction es generalizing xs with
    | nil => exact ⟨xs, rfl⟩
    | cons e es ih =>
      rw [List.forall_mem_cons] at hm
      have hstep : ∃ zs, absorbInto key merge xs e = .ok zs := by
        rw [absorbInto_isOk_iff]
        obtain ⟨s, hs⟩ := h (key e)
        rw [ofKey, List.filter_cons_of_pos (by simp), List.foldlM_cons, except_bind_eq_ok] at hs
        obtain ⟨s', hs', -⟩ := hs
        exact ⟨s', hs'⟩
      obtain ⟨zs, hz⟩ := hstep
      rw [List.foldlM_cons, hz]
      apply ih hm.2
      intro k
      obtain ⟨s, hs⟩ := h k
      refine ⟨s, ?_⟩
      by_cases hk : key e = k
      · subst hk
        rwa [ofKey, List.filter_cons_of_pos (by simp), List.foldlM_cons,
          absorb_findKey? hm.1 hz] at hs
      · rwa [ofKey, List.filter_cons_of_neg (by simpa using hk),
          ← findKey?_absorbInto_of_ne hm.1 hz hk] at hs

omit [DecidableEq κ] in
/-- Folds of a merge that never fails succeed. -/
theorem foldlM_absorb_isOk (h : ∀ r e, ∃ r', merge r e = .ok r') (es : List α)
    (slot : Option α) : ∃ s, es.foldlM (absorb merge) slot = .ok s := by
  induction es generalizing slot with
  | nil => exact ⟨slot, rfl⟩
  | cons e es ih =>
    have hstep : ∃ s', absorb merge slot e = .ok s' := by
      cases slot with
      | none => exact ⟨some e, rfl⟩
      | some r =>
        obtain ⟨r', hr'⟩ := h r e
        exact ⟨some r', by rw [absorb, hr']; rfl⟩
    obtain ⟨s', hs'⟩ := hstep
    rw [List.foldlM_cons, hs']
    exact ih s'

end AimrtComm.KeyedList
