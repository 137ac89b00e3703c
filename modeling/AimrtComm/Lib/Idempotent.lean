import AimrtComm.Lib.KeyedFold

/-!
# Steps that are made twice

A step that may fail is idempotent when it does nothing to what it has made.  A sequence of
idempotent steps is idempotent when no step undoes what an earlier one has made
(`idempotent_foldlM`): every step finds its own result at the end, so the second run does nothing at
all.  The second half is the case of elements that are folded into a keyed list, where steps of
different keys never meet.
-/

namespace AimrtComm

section Steps

variable {σ : Type*} {ι ε : Type*} {f g : σ → Except ε σ} {step : σ → ι → Except ε σ}
  {es : List ι}

/-- The step does nothing to what it has made. -/
def Idempotent (f : σ → Except ε σ) : Prop := ∀ s t, f s = .ok t → f t = .ok t

/-- A state that `f` does nothing to is one after `g` as well. -/
def KeepsFixed (g f : σ → Except ε σ) : Prop := ∀ s t, f s = .ok s → g s = .ok t → f t = .ok t

/-- Steps that do nothing, one after the other, do nothing. -/
theorem foldlM_of_fixed {t : σ} (h : ∀ e ∈ es, step t e = .ok t) : es.foldlM step t = .ok t := by
  induction es with
  | nil => rfl
  | cons e es ih =>
    rw [List.foldlM_cons, h e List.mem_cons_self]
    exact ih fun e' he' => h e' (List.mem_cons_of_mem _ he')

/-- At the end of the sequence no step has anything to do. -/
theorem fixed_of_foldlM (hi : ∀ e ∈ es, Idempotent fun s => step s e)
    (hp : es.Pairwise fun e e' => KeepsFixed (fun s => step s e') fun s => step s e) {s t : σ}
    (h : es.foldlM step s = .ok t) : ∀ e ∈ es, step t e = .ok t := by
  induction es generalizing s with
  | nil => simp
  | cons e es ih =>
    rw [List.foldlM_cons, except_bind_eq_ok] at h
    obtain ⟨s₁, hfirst, hrest⟩ := h
    obtain ⟨hlater, hp⟩ := List.pairwise_cons.mp hp
    intro x hx
    obtain rfl | hx := List.mem_cons.mp hx
    · -- what the first step has made is kept by the others
      refine foldlM_invariant (I := fun s => step s x = .ok s) hrest
        (hi x List.mem_cons_self s s₁ hfirst) ?_
      intro e' he' s s' hs hstep
      exact hlater e' he' s s' hs hstep
    · exact ih (fun y hy => hi y (List.mem_cons_of_mem _ hy)) hp hrest x hx

/-- **A sequence of idempotent steps that keep each other's results** is idempotent. -/
theorem idempotent_foldlM (hi : ∀ e ∈ es, Idempotent fun s => step s e)
    (hp : es.Pairwise fun e e' => KeepsFixed (fun s => step s e') fun s => step s e) :
    Idempotent fun s => es.foldlM step s := by
  intro s t h
  exact foldlM_of_fixed (fixed_of_foldlM hi hp h)

end Steps

namespace KeyedList

variable {α κ ε : Type*} [DecidableEq κ] {key : α → κ} {merge : α → α → Except ε α}
  {xs es : List α} {e e' : α}

/-- Among distinct keys an element is the one of its key. -/
theorem findKey?_of_mem (hd : (es.map key).Nodup) (he : e ∈ es) :
    findKey? key (key e) es = some e := by
  induction es with
  | nil => simp at he
  | cons x es ih =>
    obtain ⟨hfresh, hd⟩ := List.nodup_cons.mp hd
    rw [findKey?_cons]
    obtain rfl | he := List.mem_cons.mp he
    · exact if_pos rfl
    · have hne : key x ≠ key e := fun hx => hfresh (hx ▸ List.mem_map_of_mem he)
      rw [if_neg hne]
      exact ih hd he

/-- An element has nothing to do in a list whose element of its key has taken it up. -/
theorem absorbInto_eq_self_iff :
    absorbInto key merge xs e = .ok xs ↔
      ∃ r, findKey? key (key e) xs = some r ∧ merge r e = .ok r := by
  rw [absorbInto, findKey?_eq_split]
  cases hcut : splitAtKey key (key e) xs with
  | none => simp
  | some cut =>
    obtain ⟨pre, r, post⟩ := cut
    obtain ⟨hxs, -, -⟩ := splitAtKey_eq_some hcut
    show (merge r e).map (fun r' => pre ++ r' :: post) = .ok xs ↔ _
    rw [except_map_eq_ok, hxs]
    constructor
    · rintro ⟨r', hr', heq⟩
      obtain ⟨rfl, -⟩ := List.cons.inj (List.append_cancel_left heq)
      exact ⟨r', rfl, hr'⟩
    · rintro ⟨r', hr, hr'⟩
      obtain rfl := Option.some.inj hr
      exact ⟨r, hr', rfl⟩

/-- Taking up one element is idempotent when merging it is. -/
theorem idempotent_absorbInto (hm : MergesKey key merge e) (hself : merge e e = .ok e)
    (hi : Idempotent fun r => merge r e) : Idempotent fun xs => absorbInto key merge xs e := by
  intro xs ys h
  have hslot := absorb_findKey? hm h
  rw [absorbInto_eq_self_iff]
  cases hfind : findKey? key (key e) xs with
  | none =>
    rw [hfind] at hslot
    exact ⟨e, (Except.ok.inj hslot).symm, hself⟩
  | some r =>
    rw [hfind] at hslot
    obtain ⟨r', hr', heq⟩ := except_map_eq_ok.mp hslot
    exact ⟨r', heq.symm, hi r r' hr'⟩

/-- Elements of different keys do not meet. -/
theorem keepsFixed_absorbInto (hm : MergesKey key merge e') (hne : key e' ≠ key e) :
    KeepsFixed (fun xs => absorbInto key merge xs e') fun xs => absorbInto key merge xs e := by
  intro xs ys hfixed h
  rw [absorbInto_eq_self_iff] at hfixed ⊢
  rwa [findKey?_absorbInto_of_ne hm h hne]

/-- Folding elements of distinct keys into a list leaves none of them anything to do. -/
theorem fixed_of_foldlM_absorbInto (hd : (es.map key).Nodup)
    (hm : ∀ e ∈ es, MergesKey key merge e) (hself : ∀ e ∈ es, merge e e = .ok e)
    (hi : ∀ e ∈ es, Idempotent fun r => merge r e) {ys : List α}
    (h : es.foldlM (absorbInto key merge) xs = .ok ys) :
    ∀ e ∈ es, absorbInto key merge ys e = .ok ys := by
  refine fixed_of_foldlM ?_ ?_ h
  · intro e he
    exact idempotent_absorbInto (hm e he) (hself e he) (hi e he)
  · have hpairs := List.pairwise_map.mp hd
    refine List.Pairwise.imp_of_mem ?_ hpairs
    intro e e' _ he' hne
    exact keepsFixed_absorbInto (hm e' he') (Ne.symm hne)

end KeyedList

end AimrtComm
