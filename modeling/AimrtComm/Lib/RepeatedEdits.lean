import AimrtComm.Lib.KeyedEdits

/-!
# Edits that are made twice

An edit settles when it finds nothing to do where it has been made: what it has placed it leaves in
its place, and where it has left nothing it leaves nothing again.  A sequence of such edits at
distinct keys changes nothing when it is made a second time (`foldlM_stepAt_twice`), although the
second time most of the edits take another branch than the first time.
-/

namespace AimrtComm.KeyedList

variable {α κ ι ε : Type*} [DecidableEq κ] {key : α → κ} {ik : ι → κ}
  {eff : ι → Option α → Except ε (Place α)} {es : List ι} {xs ys : List α} {e : ι}

/-- The edit does nothing to what it finds. -/
def Fixes (eff : Option α → Except ε (Place α)) : Option α → Prop
  | some x => eff (some x) = .ok (.here x)
  | none => eff none = .ok .gone

/-- Made once, the edit does nothing more. -/
structure Settles (eff : Option α → Except ε (Place α)) : Prop where
  placed : ∀ s p x, eff s = .ok p → p.elem? = some x → eff (some x) = .ok (.here x)
  gone : ∀ s, eff s = .ok .gone → eff none = .ok .gone
  absent : ∀ x, eff none ≠ .ok (.here x)

theorem Settles.fixes {eff : Option α → Except ε (Place α)} (h : Settles eff) {s : Option α}
    {p : Place α} (hp : eff s = .ok p) : Fixes eff p.elem? := by
  cases p with
  | head x => exact h.placed s _ x hp rfl
  | tail x => exact h.placed s _ x hp rfl
  | here x => exact h.placed s _ x hp rfl
  | gone => exact h.gone s hp

theorem slot_cons_self {k : κ} {x : α} (hx : key x = k) : slot key k (x :: xs) = some x := by
  have hpre : ∀ y ∈ ([] : List α), key y ≠ k := by simp
  exact slot_append_cons hpre hx

/-- An edit that does nothing to the element of its key does nothing to the list. -/
theorem stepAt_of_fixes {k : κ} {eff : Option α → Except ε (Place α)}
    (h : Fixes eff (slot key k xs)) : stepAt key k eff xs = .ok xs := by
  rw [stepAt]
  cases hs : splitAtKey key k xs with
  | none =>
    rw [slot, hs] at h
    have hgone : eff none = .ok .gone := h
    rw [hgone]
    rfl
  | some cut =>
    obtain ⟨pre, r, post⟩ := cut
    rw [slot_of_splitAtKey hs] at h
    have hhere : eff (some r) = .ok (.here r) := h
    obtain ⟨rfl, -, -⟩ := splitAtKey_eq_some hs
    dsimp only
    rw [hhere]
    rfl

/-- What stands at the key of an edit after it was made. -/
theorem slot_applyAbsent {k : κ} {p : Place α} (hxs : ∀ x ∈ xs, key x ≠ k)
    (hp : ∀ x, p.elem? = some x → key x = k) (hhere : ∀ x, p ≠ .here x) :
    slot key k (p.applyAbsent xs) = p.elem? := by
  cases p with
  | head x => exact slot_cons_self (hp x rfl)
  | tail x => exact slot_append_cons hxs (hp x rfl)
  | here x => exact absurd rfl (hhere x)
  | gone => exact slot_eq_none_iff.mpr hxs

theorem slot_apply {k : κ} {p : Place α} {pre post : List α} (hpre : ∀ x ∈ pre, key x ≠ k)
    (hpost : ∀ x ∈ post, key x ≠ k) (hp : ∀ x, p.elem? = some x → key x = k) :
    slot key k (p.apply pre post) = p.elem? := by
  have hboth : ∀ x ∈ pre ++ post, key x ≠ k := by
    intro x hx
    obtain hx | hx := List.mem_append.mp hx
    · exact hpre x hx
    · exact hpost x hx
  cases p with
  | head x => exact slot_cons_self (hp x rfl)
  | tail x => exact slot_append_cons hboth (hp x rfl)
  | here x => exact slot_append_cons hpre (hp x rfl)
  | gone => exact slot_eq_none_iff.mpr hboth

/-- After it was made, an edit that settles does nothing. -/
theorem fixes_stepAt (hr : RespectsKey key ik eff es) (he : e ∈ es) (hset : Settles (eff e))
    (hd : Distinct key xs) (hs : stepAt key (ik e) (eff e) xs = .ok ys) :
    Fixes (eff e) (slot key (ik e) ys) := by
  rw [stepAt] at hs
  cases hcut : splitAtKey key (ik e) xs with
  | none =>
    rw [hcut] at hs
    obtain ⟨p, hp, rfl⟩ := except_map_eq_ok.mp hs
    have hkey := hr e he none (by simp) p hp
    have hhere : ∀ x, p ≠ .here x := by
      rintro x rfl
      exact hset.absent x hp
    rw [slot_applyAbsent (splitAtKey_eq_none_iff.mp hcut) hkey hhere]
    exact hset.fixes hp
  | some cut =>
    obtain ⟨pre, r, post⟩ := cut
    rw [hcut] at hs
    obtain ⟨p, hp, rfl⟩ := except_map_eq_ok.mp hs
    obtain ⟨rfl, hrk, hpre⟩ := splitAtKey_eq_some hcut
    have hkey := hr e he (some r) (fun r' hr' => Option.some.inj hr' ▸ hrk) p hp
    rw [slot_apply hpre (hd.not_mem_post hrk) hkey]
    exact hset.fixes hp

/-- Edits at other keys leave an edit nothing to do. -/
theorem fixes_foldlM_stepAt (hr : RespectsKey key ik eff es) {k : κ} (hk : ∀ e ∈ es, ik e ≠ k)
    {f : Option α → Except ε (Place α)} (hf : Fixes f (slot key k xs))
    (hs : es.foldlM (fun xs e => stepAt key (ik e) (eff e) xs) xs = .ok ys) :
    Fixes f (slot key k ys) := by
  refine foldlM_invariant (I := fun xs => Fixes f (slot key k xs)) hs hf ?_
  intro e he xs xs' hxs hstep
  rwa [slot_stepAt_of_ne hr he hstep (hk e he).symm]

/-- After a sequence of edits that settle, each of them does nothing. -/
theorem fixes_of_foldlM_stepAt (hr : RespectsKey key ik eff es) (hes : (es.map ik).Nodup)
    (hset : ∀ e ∈ es, Settles (eff e)) (hd : Distinct key xs)
    (hs : es.foldlM (fun xs e => stepAt key (ik e) (eff e) xs) xs = .ok ys) :
    ∀ e ∈ es, Fixes (eff e) (slot key (ik e) ys) := by
  induction es generalizing xs with
  | nil => simp
  | cons e es ih =>
    rw [List.foldlM_cons, except_bind_eq_ok] at hs
    obtain ⟨xs₁, hfirst, hrest⟩ := hs
    obtain ⟨hfresh, hes⟩ := List.nodup_cons.mp hes
    have hrest' : RespectsKey key ik eff es := fun x hx => hr x (List.mem_cons_of_mem _ hx)
    intro x hx
    obtain rfl | hx := List.mem_cons.mp hx
    · -- the later edits are at other keys
      refine fixes_foldlM_stepAt hrest' ?_ ?_ hrest
      · intro y hy hkey
        exact hfresh (hkey ▸ List.mem_map_of_mem hy)
      · exact fixes_stepAt hr List.mem_cons_self (hset x List.mem_cons_self) hd hfirst
    · have hd₁ := (stepAt_editsAt hr List.mem_cons_self hd hfirst).distinct hd
      exact ih hrest' hes (fun y hy => hset y (List.mem_cons_of_mem _ hy)) hd₁ hrest x hx

/-- **Edits that settle change nothing the second time.** -/
theorem foldlM_stepAt_twice (hr : RespectsKey key ik eff es) (hes : (es.map ik).Nodup)
    (hset : ∀ e ∈ es, Settles (eff e)) (hd : Distinct key xs)
    (hs : es.foldlM (fun xs e => stepAt key (ik e) (eff e) xs) xs = .ok ys) :
    es.foldlM (fun xs e => stepAt key (ik e) (eff e) xs) ys = .ok ys := by
  have hfixes := fixes_of_foldlM_stepAt hr hes hset hd hs
  clear hs hes hset hr
  induction es with
  | nil => rfl
  | cons e es ih =>
    rw [List.foldlM_cons, stepAt_of_fixes (hfixes e List.mem_cons_self)]
    exact ih fun x hx => hfixes x (List.mem_cons_of_mem _ hx)

end AimrtComm.KeyedList
