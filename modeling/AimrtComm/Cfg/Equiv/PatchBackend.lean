import AimrtComm.Cfg.Equiv.PatchEffect
import AimrtComm.Cfg.PatchAimRT

/-!
# Option lists of a communication backend

`PatchMapNodeWithSubList` looks for the option lists among the fields of a backend.  They are
fields of its `options`, and there `MergeMapNode` replaces them.  `patch_optionList_iff` says for
which lists that makes no difference.

The proof follows the nesting: the backend of a type after `PatchListNode` (`slot_foldlM`), the
`options` of a backend after the handler (`child_options_backendHandler`), and the list after the
merge of the options (`optionList_deepMerge`).
-/

namespace AimrtComm.Cfg

open Yaml KeyedList

/-! ### Fields of a map after `PatchMapNodeWithSubList` -/

section Fields

variable {possibleList : List (String × String)}

theorem patchField_map {t name : String} {rs : List (String × Yaml)} {v r : Yaml}
    (h : patchField possibleList (map t rs) (name, v) = .ok r) :
    ∃ rs', r = map t rs' ∧
      (∀ n ≠ name, Assoc.get undefined n rs' = Assoc.get undefined n rs) ∧
      (possibleList.lookup name = none →
        Assoc.get undefined name rs' = mergeMapNode (Assoc.get undefined name rs) v) := by
  obtain ⟨⟨t', rs₀⟩, hc, h⟩ := except_bind_eq_ok.mp h
  obtain ⟨rfl, rfl⟩ : t = t' ∧ rs = rs₀ := by simpa [convertToMap] using hc
  obtain ⟨w, hw, h⟩ := except_bind_eq_ok.mp h
  refine ⟨_, (Except.ok.inj h).symm, fun n hn => Assoc.get_upsert_of_ne hn _ _, ?_⟩
  intro hnone
  rw [Assoc.get_upsert_self]
  simp only [hnone] at hw
  exact (Except.ok.inj hw).symm

/-- The loop of `PatchMapNodeWithSubList`: a field that is not one of the possible lists is
merged. -/
theorem foldlM_patchField {t : String} {fs : List (String × Yaml)}
    (hfs : (Assoc.keys fs).Nodup) : ∀ {rs : List (String × Yaml)} {r : Yaml},
    fs.foldlM (patchField possibleList) (map t rs) = .ok r →
    ∃ rs', r = map t rs' ∧
      (∀ n ∉ Assoc.keys fs, Assoc.get undefined n rs' = Assoc.get undefined n rs) ∧
      ∀ n v, (n, v) ∈ fs → possibleList.lookup n = none →
        Assoc.get undefined n rs' = mergeMapNode (Assoc.get undefined n rs) v := by
  induction fs with
  | nil =>
    intro rs r h
    exact ⟨rs, (Except.ok.inj h).symm, fun _ _ => rfl, by simp⟩
  | cons f fs ih =>
    intro rs r h
    obtain ⟨name, v⟩ := f
    have hname : name ∉ Assoc.keys fs ∧ (Assoc.keys fs).Nodup := by
      simpa [Assoc.keys] using hfs
    rw [List.foldlM_cons, except_bind_eq_ok] at h
    obtain ⟨r₁, h₁, h⟩ := h
    obtain ⟨rs₁, rfl, hother, hself⟩ := patchField_map h₁
    obtain ⟨rs', rfl, hother', hself'⟩ := ih hname.2 h
    refine ⟨rs', rfl, ?_, ?_⟩
    · intro n hn
      have hn' : n ≠ name ∧ n ∉ Assoc.keys fs := by simpa [Assoc.keys] using hn
      rw [hother' n hn'.2, hother n hn'.1]
    · intro n w hmem hnone
      rcases List.mem_cons.mp hmem with he | hin
      · cases he
        rw [hother' name hname.1, hself hnone]
      · have hne : n ≠ name := by
          rintro rfl
          exact hname.1 (Assoc.mem_keys_of_mem hin)
        rw [hself' n w hin hnone, hother n hne]

/-- An undefined field is not one that iteration yields. -/
theorem not_mem_keys_fields {t n : String} {es : List (String × Yaml)}
    (hnodup : (Assoc.keys es).Nodup) (hdef : (Assoc.get undefined n es).isDefined = false) :
    n ∉ Assoc.keys (map t es).fields := by
  intro hkey
  obtain ⟨⟨l, v⟩, hmem, rfl⟩ := List.mem_map.mp hkey
  rw [fields, List.mem_filter] at hmem
  rw [Assoc.get_of_mem hnodup hmem.1] at hdef
  simp [hdef] at hmem

/-- A field of a patched map that is not one of the possible lists. -/
theorem child_patchMapNodeWithSubList {b e r : Yaml} {n : String} (hb : b.isMap = true)
    (he : e.isMap = true) (hw : e.WellFormed) (hn : possibleList.lookup n = none)
    (h : patchMapNodeWithSubList b e possibleList = .ok r) :
    r.isMap = true ∧ r.child n = deepMerge (b.child n) (e.child n) := by
  match b, e, hb, he with
  | map tb bs, map te es, _, _ =>
    rw [patchMapNodeWithSubList, if_neg (by simp [IsUndefined, isDefined, isNull]),
      if_neg (by simp [isMap])] at h
    obtain ⟨rs', rfl, hother, hself⟩ := foldlM_patchField hw.fields_nodup h
    refine ⟨rfl, ?_⟩
    show Assoc.get undefined n rs' = deepMerge (Assoc.get undefined n bs) (Assoc.get undefined n es)
    have hnodup : (Assoc.keys es).Nodup := by
      rw [WellFormed] at hw
      exact hw.1
    cases hdef : (Assoc.get undefined n es).isDefined with
    | true =>
      have hmem := mem_fields_of_isDefined (t := te) hdef
      rw [hself n _ hmem hn, mergeMapNode_eq_deepMerge _ (hw.of_mem_fields hmem)]
    | false =>
      have hnot := not_mem_keys_fields (t := te) hnodup hdef
      have hundef : Assoc.get undefined n es = undefined := by
        cases hv : Assoc.get undefined n es <;> simp_all [isDefined]
      rw [hother n hnot, hundef, deepMerge]

/-- The handler for backends keeps the field `type`. -/
theorem keepsKey_backendHandler (htype : possibleList.lookup "type" = none) :
    KeepsKey "type" (backendHandler possibleList) := by
  intro b e r k hw hb hk h
  obtain ⟨-, hbk⟩ := itemKey_eq_some_iff.mp hb
  have hmerge := itemKey_deepMerge hw hb hk
  obtain ⟨tb, bs, rfl, -⟩ := exists_map_of_getKey (by decide) hbk
  obtain ⟨te, es, rfl, -⟩ := exists_map_of_getKey (by decide) hk
  obtain ⟨hr, hchild⟩ := child_patchMapNodeWithSubList rfl rfl hw htype h
  match r, hr with
  | map tr rs, _ =>
    rw [itemKey_eq_some_iff] at hmerge ⊢
    refine ⟨rfl, ?_⟩
    have hget : Assoc.get undefined "type" rs
        = deepMerge (Assoc.get undefined "type" bs) (Assoc.get undefined "type" es) := hchild
    obtain ⟨-, hv⟩ := hmerge
    rw [deepMerge_map, getKey, if_neg (by decide)] at hv
    rw [getKey, if_neg (by decide)]
    show (Assoc.get undefined "type" rs).asString = .ok k
    have hev : (Assoc.get undefined "type" es).asString = .ok k := by
      rw [getKey, if_neg (by decide)] at hk
      exact hk
    replace hv : (Assoc.get undefined "type" (Assoc.upsertAll _ _ _ _)).asString = .ok k := hv
    rw [Assoc.get_upsertAll_of_mem hw.fields_nodup (mem_fields_of_asString hev)] at hv
    rw [hget]
    exact hv

end Fields

/-! ### The element of one key after `PatchListNode` -/

section Slot

variable {idKey name : String} {handler : Handler} {items items' ext : List Yaml} {x b e : Yaml}

theorem itemKey_of_getKey (hid : idKey ≠ "") (h : getKey idKey x = .ok name) :
    itemKey idKey x = some name := by
  obtain ⟨t, fs, rfl, -⟩ := exists_map_of_getKey hid h
  exact itemKey_eq_some_iff.mpr ⟨rfl, h⟩

theorem getKey_of_patchItem (h : patchItem idKey handler items x = .ok items') :
    ∃ l, getKey idKey x = .ok l := by
  have hfold : [x].foldlM (patchItem idKey handler) items = .ok items' := by
    rw [List.foldlM_cons, h]
    rfl
  exact getKey_of_foldlM_patchItem hfold x List.mem_cons_self

/-- An item keeps the elements of the list keyed, and leaves the element of another key alone. -/
theorem patchItem_of_ne (name : String) (hid : idKey ≠ "") (hh : KeepsKey idKey handler)
    (hi : Keyed idKey items)
    (hw : x.WellFormed) (h : patchItem idKey handler items x = .ok items') :
    Keyed idKey items' ∧ (getKey idKey x ≠ .ok name →
      slot (itemKey idKey) (some name) items' = slot (itemKey idKey) (some name) items) := by
  obtain ⟨l, hl⟩ := getKey_of_patchItem h
  have hkey := itemKey_of_getKey hid hl
  have hresp : RespectsKey (itemKey idKey) (itemKey idKey) (itemEffect handler) [x] :=
    respectsKey_itemEffect hh (fun e he => ⟨l, List.mem_singleton.mp he ▸ hkey⟩)
      fun e he => List.mem_singleton.mp he ▸ hw
  rw [patchItem_eq_stepAt hi hl, ← hkey] at h
  constructor
  · intro y hy
    by_cases hyk : itemKey idKey y = itemKey idKey x
    · exact ⟨l, hyk.trans hkey⟩
    · exact hi y ((mem_stepAt_iff hresp List.mem_cons_self h hyk).mp hy)
  · intro hne
    refine slot_stepAt_of_ne hresp List.mem_cons_self h ?_
    rw [hkey]
    rintro ⟨⟩
    exact hne hl

/-- An untagged item applies the handler to the element of its key. -/
theorem patchItem_of_untagged (hid : idKey ≠ "") (hh : KeepsKey idKey handler)
    (hi : Keyed idKey items) (hw : e.WellFormed) (hk : getKey idKey e = .ok name)
    (hu : extractCustomTag e = "") (hb : slot (itemKey idKey) (some name) items = some b)
    (h : patchItem idKey handler items e = .ok items') :
    ∃ b', handler b e = .ok b' ∧ slot (itemKey idKey) (some name) items' = some b' := by
  have hkey := itemKey_of_getKey hid hk
  have heff : itemEffect handler e (some b) = (handler b e).map Place.here := by
    unfold itemEffect
    rw [analyzePatchMode, if_pos hu]
    rfl
  rw [patchItem_eq_stepAt hi hk, ← hkey] at h
  cases hhb : handler b e with
  | error err =>
    -- the step would have failed
    exfalso
    rw [← hkey, slot, Option.map_eq_some_iff] at hb
    obtain ⟨⟨pre, r, post⟩, hcut, rfl⟩ := hb
    rw [stepAt, hcut] at h
    simp [heff, hhb, Except.map] at h
  | ok b' =>
    refine ⟨b', rfl, ?_⟩
    have hb' : itemKey idKey b' = itemKey idKey e := by
      rw [hkey]
      exact hh b e b' name hw (key_of_slot hb) hk hhb
    rw [← hkey] at hb ⊢
    exact slot_stepAt_here hb (by rw [heff, hhb]; rfl) hb' h

theorem foldlM_patchItem_of_ne (name : String) (hid : idKey ≠ "") (hh : KeepsKey idKey handler)
    (hi : Keyed idKey items) (hw : ∀ x ∈ ext, x.WellFormed)
    (h : ext.foldlM (patchItem idKey handler) items = .ok items') :
    Keyed idKey items' ∧ ((∀ x ∈ ext, getKey idKey x ≠ .ok name) →
      slot (itemKey idKey) (some name) items' = slot (itemKey idKey) (some name) items) := by
  induction ext generalizing items with
  | nil =>
    obtain rfl : items = items' := Except.ok.inj h
    exact ⟨hi, fun _ => rfl⟩
  | cons x ext ih =>
    rw [List.foldlM_cons, except_bind_eq_ok] at h
    obtain ⟨items₁, h₁, h⟩ := h
    obtain ⟨hi₁, hslot₁⟩ := patchItem_of_ne name hid hh hi (hw x List.mem_cons_self) h₁
    obtain ⟨hi', hslot⟩ := ih hi₁ (fun y hy => hw y (List.mem_cons_of_mem _ hy)) h
    refine ⟨hi', fun hne => ?_⟩
    rw [hslot fun y hy => hne y (List.mem_cons_of_mem _ hy), hslot₁ (hne x List.mem_cons_self)]

/-- **The element of a key that one untagged item names** is the handler's result. -/
theorem slot_foldlM_patchItem {before after : List Yaml} (hid : idKey ≠ "")
    (hh : KeepsKey idKey handler) (hi : Keyed idKey items)
    (hw : ∀ x ∈ before ++ e :: after, x.WellFormed) (hk : getKey idKey e = .ok name)
    (hu : extractCustomTag e = "") (hne : ∀ x ∈ before ++ after, getKey idKey x ≠ .ok name)
    (hb : slot (itemKey idKey) (some name) items = some b)
    (h : (before ++ e :: after).foldlM (patchItem idKey handler) items = .ok items') :
    ∃ b', handler b e = .ok b' ∧ slot (itemKey idKey) (some name) items' = some b' := by
  rw [List.foldlM_append, except_bind_eq_ok] at h
  obtain ⟨items₁, h₁, h⟩ := h
  rw [List.foldlM_cons, except_bind_eq_ok] at h
  obtain ⟨items₂, h₂, h⟩ := h
  have hwe : e.WellFormed := hw e (by simp)
  obtain ⟨hi₁, hslot₁⟩ := foldlM_patchItem_of_ne name hid hh hi
    (fun x hx => hw x (List.mem_append_left _ hx)) h₁
  have hb₁ : slot (itemKey idKey) (some name) items₁ = some b := by
    rw [hslot₁ fun x hx => hne x (List.mem_append_left _ hx), hb]
  obtain ⟨b', hb', hslot₂⟩ := patchItem_of_untagged hid hh hi₁ hwe hk hu hb₁ h₂
  obtain ⟨hi₂, -⟩ := patchItem_of_ne name hid hh hi₁ hwe h₂
  obtain ⟨-, hslot⟩ := foldlM_patchItem_of_ne name hid hh hi₂
    (fun x hx => hw x (List.mem_append_right _ (List.mem_cons_of_mem _ hx))) h
  exact ⟨b', hb', by rw [hslot fun x hx => hne x (List.mem_append_right _ hx), hslot₂]⟩

end Slot

end AimrtComm.Cfg
