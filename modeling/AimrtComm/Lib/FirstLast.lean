import Mathlib.Data.List.Induction
import Mathlib.Data.List.Perm.Basic

/-!
# The first and the last value of a key

A list of pairs can be searched for the first value of a key, or read through while the last one is
kept.  Both give the same, and neither depends on the order of the pairs, when every key has one
value only (`SingleValued`).  Where the pairs come in blocks that can be listed in any order,
`LastTogether` says which values of two keys can stand last at the same time.
-/

namespace AimrtComm.FirstLast

variable {κ ν : Type*} [DecidableEq κ]

/-- The first value of a key. -/
def first (k : κ) (pairs : List (κ × ν)) : Option ν :=
  (pairs.find? fun pair => pair.1 = k).map Prod.snd

/-- The last value of a key, `d` if there is none. -/
def last (d : ν) (k : κ) (pairs : List (κ × ν)) : ν :=
  pairs.foldl (fun v pair => if pair.1 = k then pair.2 else v) d

/-- Every key has one value only. -/
def SingleValued (pairs : List (κ × ν)) : Prop :=
  ∀ k v w, (k, v) ∈ pairs → (k, w) ∈ pairs → v = w

variable {k : κ} {v d : ν} {pairs pairs' : List (κ × ν)}

omit [DecidableEq κ] in
theorem SingleValued.perm (h : SingleValued pairs) (hperm : pairs'.Perm pairs) :
    SingleValued pairs' :=
  fun k v w hv hw => h k v w (hperm.mem_iff.mp hv) (hperm.mem_iff.mp hw)

/-! ### The first value -/

theorem mem_of_first_eq_some (h : first k pairs = some v) : (k, v) ∈ pairs := by
  obtain ⟨⟨l, w⟩, hfind, rfl⟩ := Option.map_eq_some_iff.mp h
  have hkey : l = k := by simpa using List.find?_some hfind
  exact hkey ▸ List.mem_of_find?_eq_some hfind

theorem first_eq_none_iff : first k pairs = none ↔ ∀ v, (k, v) ∉ pairs := by
  rw [first, Option.map_eq_none_iff, List.find?_eq_none]
  constructor
  · intro h v hv
    exact h (k, v) hv (decide_eq_true rfl)
  · rintro h ⟨l, v⟩ hv hkey
    obtain rfl : l = k := of_decide_eq_true hkey
    exact h v hv

/-- With single values, the first value of a key is the one that stands beside it. -/
theorem SingleValued.first_eq_some_iff (h : SingleValued pairs) :
    first k pairs = some v ↔ (k, v) ∈ pairs := by
  refine ⟨mem_of_first_eq_some, fun hv => ?_⟩
  cases hfirst : first k pairs with
  | none => exact absurd hv (first_eq_none_iff.mp hfirst v)
  | some w => rw [h k w v (mem_of_first_eq_some hfirst) hv]

theorem SingleValued.first_perm (h : SingleValued pairs) (hperm : pairs'.Perm pairs) :
    first k pairs' = first k pairs := by
  apply Option.ext
  intro v
  rw [(h.perm hperm).first_eq_some_iff, h.first_eq_some_iff, hperm.mem_iff]

theorem first_append (k : κ) (pairs pairs' : List (κ × ν)) :
    first k (pairs ++ pairs') = (first k pairs).or (first k pairs') := by
  rw [first, List.find?_append, Option.map_or]
  rfl

/-! ### The last value -/

theorem last_append (d : ν) (k : κ) (pairs pairs' : List (κ × ν)) :
    last d k (pairs ++ pairs') = last (last d k pairs) k pairs' :=
  List.foldl_append

/-- The last value of a key stands beside it, or there is none. -/
theorem last_cases (d : ν) (k : κ) (pairs : List (κ × ν)) :
    (k, last d k pairs) ∈ pairs ∨ last d k pairs = d ∧ ∀ v, (k, v) ∉ pairs := by
  induction pairs generalizing d with
  | nil => exact .inr ⟨rfl, fun _ => List.not_mem_nil⟩
  | cons pair pairs ih =>
    obtain ⟨l, w⟩ := pair
    have hcons : last d k ((l, w) :: pairs) = last (if l = k then w else d) k pairs := rfl
    rw [hcons]
    rcases ih (if l = k then w else d) with hmem | ⟨hlast, hnone⟩
    · exact .inl (List.mem_cons_of_mem _ hmem)
    · rw [hlast]
      split_ifs with hkey
      · exact .inl (hkey ▸ List.mem_cons_self)
      · refine .inr ⟨rfl, fun v hv => ?_⟩
        rcases List.mem_cons.mp hv with heq | hv
        · exact hkey (Prod.mk.inj heq).1.symm
        · exact hnone v hv

/-- With single values, the last value of a key is the one that stands beside it. -/
theorem SingleValued.last_eq (h : SingleValued pairs) (hv : (k, v) ∈ pairs) :
    last d k pairs = v := by
  rcases last_cases d k pairs with hlast | ⟨-, hnone⟩
  · exact h k _ v hlast hv
  · exact absurd hv (hnone v)

theorem last_of_not_mem (h : ∀ v, (k, v) ∉ pairs) : last d k pairs = d := by
  rcases last_cases d k pairs with hlast | ⟨hlast, -⟩
  · exact absurd hlast (h _)
  · exact hlast

theorem SingleValued.last_perm (h : SingleValued pairs) (hperm : pairs'.Perm pairs) :
    last d k pairs' = last d k pairs := by
  rcases last_cases d k pairs with hlast | ⟨hlast, hnone⟩
  · exact (h.perm hperm).last_eq (hperm.mem_iff.mpr hlast)
  · rw [hlast]
    exact last_of_not_mem fun v hv => hnone v (hperm.mem_iff.mp hv)

/-! ### Blocks in any order -/

section

variable {α : Type*} {f : α → List (κ × ν)} {l : κ} {w : ν} {blocks blocks' : List α} {a b : α}

/-- A block can be listed last. -/
theorem exists_perm_concat (ha : a ∈ blocks) : ∃ rest, (rest ++ [a]).Perm blocks := by
  obtain ⟨before, after, rfl⟩ := List.append_of_mem ha
  refine ⟨before ++ after, ?_⟩
  rw [List.append_assoc]
  exact List.Perm.append_left before List.perm_append_comm

/-- Two blocks can be listed last, in either order. -/
theorem exists_perm_pair (ha : a ∈ blocks) (hb : b ∈ blocks) (hne : a ≠ b) :
    ∃ rest, (rest ++ [a, b]).Perm blocks := by
  obtain ⟨rest, hrest⟩ := exists_perm_concat hb
  have hmem : a ∈ rest := by
    have ha' : a ∈ rest ++ [b] := hrest.mem_iff.mpr ha
    simpa [hne] using ha'
  obtain ⟨rest', hrest'⟩ := exists_perm_concat hmem
  refine ⟨rest', ?_⟩
  have hsplit : rest' ++ [a, b] = rest' ++ [a] ++ [b] := by simp
  rw [hsplit]
  exact (hrest'.append_right [b]).trans hrest

/-- The last value of a key comes from the last block that has the key. -/
theorem exists_last_block (d : ν) (h : ∃ v, (k, v) ∈ blocks.flatMap f) :
    ∃ before a after, blocks = before ++ a :: after ∧ (k, last d k (blocks.flatMap f)) ∈ f a ∧
      ∀ b ∈ after, ∀ v, (k, v) ∉ f b := by
  induction blocks using List.reverseRecOn with
  | nil => simp at h
  | append_singleton blocks c ih =>
    have hlast : last d k ((blocks ++ [c]).flatMap f) =
        last (last d k (blocks.flatMap f)) k (f c) := by
      rw [List.flatMap_append, last_append]
      simp
    rw [hlast]
    rcases last_cases (last d k (blocks.flatMap f)) k (f c) with hmem | ⟨heq, hnone⟩
    · exact ⟨blocks, c, [], rfl, hmem, fun b hb => nomatch hb⟩
    · have hearlier : ∃ v, (k, v) ∈ blocks.flatMap f := by
        obtain ⟨v, hv⟩ := h
        rw [List.flatMap_append, List.mem_append] at hv
        refine ⟨v, hv.resolve_right fun hv => hnone v ?_⟩
        simpa using hv
      obtain ⟨before, a, after, rfl, ha, hafter⟩ := ih hearlier
      rw [heq]
      refine ⟨before, a, after ++ [c], by simp, ha, fun b hb => ?_⟩
      rcases List.mem_append.mp hb with hb | hb
      · exact hafter b hb
      · obtain rfl := List.mem_singleton.mp hb
        exact hnone

/-- Values of two keys that stand last in some order of the blocks: those of one block, or of two of
which the one that is listed last has not both keys. -/
def LastTogether (f : α → List (κ × ν)) (k l : κ) (blocks : List α) (v w : ν) : Prop :=
  ∃ a ∈ blocks, ∃ b ∈ blocks, (k, v) ∈ f a ∧ (l, w) ∈ f b ∧
    (a = b ∨ (∀ u, (k, u) ∉ f b) ∨ ∀ u, (l, u) ∉ f a)

/-- The last values of two keys that both occur. -/
theorem lastTogether_last (d : ν) (hk : ∃ v, (k, v) ∈ blocks.flatMap f)
    (hl : ∃ v, (l, v) ∈ blocks.flatMap f) :
    LastTogether f k l blocks (last d k (blocks.flatMap f)) (last d l (blocks.flatMap f)) := by
  obtain ⟨before, a, after, heq, ha, hafter⟩ := exists_last_block d hk
  obtain ⟨before', b, after', heq', hb, hafter'⟩ := exists_last_block d hl
  refine ⟨a, by simp [heq], b, by simp [heq'], ha, hb, ?_⟩
  -- which of the two blocks comes first
  rcases List.append_eq_append_iff.mp (heq.symm.trans heq') with ⟨c, -, h⟩ | ⟨c, -, h⟩
  · cases c with
    | nil => exact .inl (List.cons.inj h).1
    | cons x c =>
      refine .inr (.inl (hafter b ?_))
      rw [(List.cons.inj h).2]
      simp
  · cases c with
    | nil => exact .inl (List.cons.inj h).1.symm
    | cons x c =>
      refine .inr (.inr (hafter' a ?_))
      rw [(List.cons.inj h).2]
      simp

/-- A block that is listed last gives the last value of each of its keys. -/
theorem last_concat (hsingle : SingleValued (f a)) (hv : (k, v) ∈ f a) (d : ν) :
    last d k ((blocks ++ [a]).flatMap f) = v := by
  rw [List.flatMap_append, last_append]
  exact SingleValued.last_eq (by simpa using hsingle) (by simpa using hv)

/-- A block without the key that is listed last makes no difference. -/
theorem last_concat_of_not_mem (hnone : ∀ u, (k, u) ∉ f a) (d : ν) :
    last d k ((blocks ++ [a]).flatMap f) = last d k (blocks.flatMap f) := by
  rw [List.flatMap_append, last_append]
  exact last_of_not_mem (by simpa using hnone)

/-- Values that can stand last together do so in some order. -/
theorem LastTogether.exists_perm (hsingle : ∀ a, SingleValued (f a))
    (h : LastTogether f k l blocks v w) (d : ν) :
    ∃ blocks' : List α, blocks'.Perm blocks ∧ last d k (blocks'.flatMap f) = v ∧
      last d l (blocks'.flatMap f) = w := by
  obtain ⟨a, ha, b, hb, hv, hw, hkeys⟩ := h
  by_cases heq : a = b
  · subst heq
    obtain ⟨rest, hperm⟩ := exists_perm_concat ha
    exact ⟨_, hperm, last_concat (hsingle a) hv d, last_concat (hsingle a) hw d⟩
  rcases hkeys with hab | hnone | hnone
  · exact absurd hab heq
  · obtain ⟨rest, hperm⟩ := exists_perm_pair ha hb heq
    have hsplit : rest ++ [a, b] = (rest ++ [a]) ++ [b] := by simp
    refine ⟨_, hperm, ?_, ?_⟩ <;> rw [hsplit]
    · rw [last_concat_of_not_mem hnone]
      exact last_concat (hsingle a) hv d
    · exact last_concat (hsingle b) hw d
  · obtain ⟨rest, hperm⟩ := exists_perm_pair hb ha (Ne.symm heq)
    have hsplit : rest ++ [b, a] = (rest ++ [b]) ++ [a] := by simp
    refine ⟨_, hperm, ?_, ?_⟩ <;> rw [hsplit]
    · exact last_concat (hsingle a) hv d
    · rw [last_concat_of_not_mem hnone]
      exact last_concat (hsingle b) hw d

omit [DecidableEq κ] in
theorem LastTogether.perm (h : LastTogether f k l blocks v w) (hperm : blocks.Perm blocks') :
    LastTogether f k l blocks' v w := by
  obtain ⟨a, ha, b, hb, hrest⟩ := h
  exact ⟨a, hperm.mem_iff.mp ha, b, hperm.mem_iff.mp hb, hrest⟩

end

end AimrtComm.FirstLast
