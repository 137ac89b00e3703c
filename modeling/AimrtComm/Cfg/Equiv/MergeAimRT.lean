import AimrtComm.Cfg.Equiv.MergeList
import AimrtComm.Cfg.Equiv.PatchTwice
import AimrtComm.Cfg.MergeAimRT
import AimrtComm.Lib.Idempotent

/-!
# Merging the user's configuration twice

Merging is idempotent at every level of the configuration: maps (`idempotent_mergeHandler`), lists
(`idempotent_mergeListNode`), backends with lists in them (`idempotent_mergeMapNodeWithSubList`)
and sections (`idempotent_mergeSection`).  The levels are put together by the general rule for
steps that keep each other's results, since every step works on a child of its own.

A user's node can become part of the result whole, so besides it has to be its own merge with
itself (`mergeListNode_self`, `mergeMapNodeWithSubList_self`).  For a list that takes distinct
names.
-/

namespace AimrtComm

namespace Yaml

open Cfg

/-! ### Assignments to a child -/

variable {node node' : Yaml} {k l : String} {f g : Yaml → Except Error Yaml}

theorem get_eq_ok {v : Yaml} (h : node.get k = .ok v) : v = node.child k := by
  cases node with
  | scalar => cases h
  | _ => exact (Except.ok.inj h).symm

theorem modifyField_eq_ok (h : node.modifyField k f = .ok node') :
    ∃ t fs v, node.convertToMap = .ok (t, fs) ∧ f (Assoc.get undefined k fs) = .ok v ∧
      node' = map t (Assoc.upsert undefined k (fun _ => v) fs) := by
  obtain ⟨⟨t, fs⟩, hc, h⟩ := except_bind_eq_ok.mp h
  obtain ⟨v, hv, h⟩ := except_bind_eq_ok.mp h
  exact ⟨t, fs, v, hc, hv, (Except.ok.inj h).symm⟩

theorem isMap_modifyField (h : node.modifyField k f = .ok node') : node'.isMap = true := by
  obtain ⟨t, fs, v, -, -, rfl⟩ := modifyField_eq_ok h
  rfl

/-- Assigning to a child of a map leaves the others alone. -/
theorem child_modifyField (hmap : node.isMap = true) (h : node.modifyField k f = .ok node') :
    f (node.child k) = .ok (node'.child k) ∧ ∀ l ≠ k, node'.child l = node.child l := by
  cases node with
  | map t fs =>
    obtain ⟨t', fs', v, hc, hv, rfl⟩ := modifyField_eq_ok h
    obtain ⟨rfl, rfl⟩ : t = t' ∧ fs = fs' := by simpa [convertToMap] using hc
    refine ⟨?_, fun l hl => Assoc.get_upsert_of_ne hl _ _⟩
    show f (Assoc.get undefined k fs) = .ok (Assoc.get undefined k (Assoc.upsert ..))
    rw [Assoc.get_upsert_self, hv]
  | _ => cases hmap

/-- An assignment to a field that is there and that it does not change. -/
theorem modifyField_eq_self_iff :
    node.modifyField k f = .ok node ↔ ∃ t fs, node = map t fs ∧ k ∈ Assoc.keys fs ∧
      f (Assoc.get undefined k fs) = .ok (Assoc.get undefined k fs) := by
  constructor
  · intro h
    obtain ⟨t, fs, v, hc, hv, rfl⟩ := modifyField_eq_ok h
    have hfs : Assoc.upsert undefined k (fun _ => v) fs = fs := by simpa [convertToMap] using hc
    have hget : Assoc.get undefined k fs = v := by
      rw [← Assoc.get_upsert_self undefined k (fun _ => v) fs, hfs]
    refine ⟨t, _, rfl, Assoc.mem_keys_upsert_self .., ?_⟩
    rw [Assoc.get_upsert_self]
    rwa [hget] at hv
  · rintro ⟨t, fs, rfl, hk, hf⟩
    show (do let v ← f (Assoc.get undefined k fs); _) = _
    rw [hf]
    show Except.ok (map t (Assoc.upsert undefined k (fun _ => Assoc.get undefined k fs) fs)) = _
    rw [Assoc.upsert_eq_self hk rfl]

theorem idempotent_modifyField (hf : Idempotent f) :
    Idempotent fun node : Yaml => node.modifyField k f := by
  intro node node' h
  obtain ⟨t, fs, v, -, hv, rfl⟩ := modifyField_eq_ok h
  refine modifyField_eq_self_iff.mpr ⟨t, _, rfl, Assoc.mem_keys_upsert_self .., ?_⟩
  rw [Assoc.get_upsert_self]
  exact hf _ v hv

/-- Assignments to different children keep each other's results. -/
theorem keepsFixed_modifyField (hkl : k ≠ l) :
    KeepsFixed (fun node : Yaml => node.modifyField l g)
      fun node : Yaml => node.modifyField k f := by
  intro node node' hfixed h
  obtain ⟨t, fs, rfl, hk, hf⟩ := modifyField_eq_self_iff.mp hfixed
  obtain ⟨t', fs', v, hc, -, rfl⟩ := modifyField_eq_ok h
  obtain ⟨rfl, rfl⟩ : t = t' ∧ fs = fs' := by simpa [convertToMap] using hc
  refine modifyField_eq_self_iff.mpr ⟨t, _, rfl, Assoc.mem_keys_upsert_of_mem hk, ?_⟩
  rwa [Assoc.get_upsert_of_ne hkl]

end Yaml

namespace Cfg

open Yaml KeyedList

/-! ### Maps -/

variable {idKey name : String} {handler : Handler} {items items' ext : List Yaml} {e r r' x : Yaml}

/-- A node that is merged by the handler keeps its name, and merging it into itself, or a second
time into anything, changes nothing. -/
structure MergesOnce (idKey : String) (handler : Handler) (e : Yaml) : Prop where
  name : MergesKey (nameOf idKey) handler e
  self : handler e e = .ok e
  again : Idempotent fun r => handler r e

theorem mergeHandler_self (hw : e.WellFormed) : mergeHandler e e = .ok e := by
  rw [mergeHandler_eq hw, deepMerge_self hw]

theorem idempotent_mergeHandler (hw : e.WellFormed) : Idempotent fun r => mergeHandler r e := by
  intro r r' h
  show mergeHandler r' e = .ok r'
  replace h : mergeHandler r e = .ok r' := h
  rw [mergeHandler_eq hw] at h ⊢
  obtain rfl := Except.ok.inj h
  rw [deepMerge_deepMerge hw]

theorem mergesOnce_mergeHandler (hid : idKey ≠ "") (hw : e.WellFormed)
    (hname : ∃ k, nameOf idKey e = some k) : MergesOnce idKey mergeHandler e :=
  ⟨mergesKey_mergeHandler hid hw hname, mergeHandler_self hw, idempotent_mergeHandler hw⟩

/-! ### What a merge of lists that succeeded has done -/

theorem findName_of_ok {found : Option (ℕ × Yaml)} (h : findName idKey name items = .ok found) :
    found = (splitAtKey (nameOf idKey) (some name) items).map fun s => (s.1.length, s.2.1) := by
  induction items generalizing found with
  | nil => exact (Except.ok.inj h).symm
  | cons i rest ih =>
    obtain ⟨k, hk, h⟩ := except_bind_eq_ok.mp h
    have hname := nameOf_eq_some_iff.mpr hk
    rw [splitAtKey, hname]
    by_cases hkn : k = name
    · rw [if_pos hkn] at h
      obtain rfl := Except.ok.inj h
      simp [hkn]
    · rw [if_neg hkn] at h
      obtain ⟨later, hlater, h⟩ := except_bind_eq_ok.mp h
      obtain rfl := Except.ok.inj h
      rw [ih hlater, if_neg (by simpa using hkn), Option.map_map, Option.map_map]
      rfl

/-- The elements of `res` need no names as long as they are not looked at. -/
theorem absorbInto_of_mergeListItem (hext : ∃ k, nameOf idKey e = some k)
    (h : mergeListItem idKey handler items e = .ok items') :
    absorbInto (nameOf idKey) handler items e = .ok items' := by
  obtain ⟨k, hk⟩ := hext
  have hfind : ∃ found, findName idKey k items = .ok found := by
    obtain ⟨k', hk', h⟩ := except_bind_eq_ok.mp h
    obtain rfl := Except.ok.inj ((nameOf_eq_some_iff.mp hk).symm.trans hk')
    obtain ⟨found, hfound, -⟩ := except_bind_eq_ok.mp h
    exact ⟨found, hfound⟩
  obtain ⟨found, hfound⟩ := hfind
  rw [findName_of_ok hfound] at hfound
  rwa [← mergeListItem_of_findName hk hfound]

/-- The loop that removes elements reads the names of all. -/
theorem named_of_removeLoop {resIdx : ℕ} (h : removeLoop idKey ext items resIdx = .ok items') :
    Named idKey (items.drop resIdx) := by
  fun_induction removeLoop idKey ext items resIdx with
  | case1 items resIdx hlt ih1 ih2 =>
    obtain ⟨k, hk, h⟩ := except_bind_eq_ok.mp h
    obtain ⟨found, -, h⟩ := except_bind_eq_ok.mp h
    intro x hx
    rw [List.drop_eq_getElem_cons hlt] at hx
    obtain rfl | hx := List.mem_cons.mp hx
    · exact ⟨k, nameOf_eq_some_iff.mpr hk⟩
    · cases found with
      -- the element at the place stays, or it is removed and the rest moves up
      | true => exact ih1 h x hx
      | false =>
        refine ih2 h x ?_
        have hlen : (items.take resIdx).length = resIdx := by
          rw [List.length_take]
          omega
        rwa [List.eraseIdx_eq_take_drop_succ, List.drop_left' hlen]
  | case2 items resIdx hge =>
    rw [List.drop_eq_nil_of_le (by omega)]
    exact fun x hx => absurd hx List.not_mem_nil

/-- A merge of two lists that succeeded: the fold, then the filter. -/
theorem mergeListNode_of_ok {t t' : String} {out : Yaml} (hext : Named idKey ext)
    (h : mergeListNode (.seq t items) (.seq t' ext) idKey handler = .ok out) :
    ∃ items', Named idKey items' ∧
      ext.foldlM (absorbInto (nameOf idKey) handler) items = .ok items' ∧
      out = .seq t (items'.filter fun x => nameOf idKey x ∈ ext.map (nameOf idKey)) := by
  obtain ⟨items', hfold, h⟩ := except_bind_eq_ok.mp h
  obtain ⟨kept, hkept, h⟩ := except_bind_eq_ok.mp h
  replace hkept : removeLoop idKey ext items' 0 = .ok kept := hkept
  have hnamed : Named idKey items' := named_of_removeLoop hkept
  refine ⟨items', hnamed, ?_, ?_⟩
  · apply foldlM_of_imp hfold
    intro x hx s s' hs
    exact absorbInto_of_mergeListItem (hext x hx) hs
  · rw [removeLoop_eq hnamed hext] at hkept
    obtain rfl := Except.ok.inj hkept
    exact (Except.ok.inj h).symm

/-! ### Lists -/

/-- The elements of a list have names, all of them different.  It holds of what is not a list. -/
structure UniqueNames (idKey : String) (node : Yaml) : Prop where
  named : Named idKey node.items
  distinct : Distinct (nameOf idKey) node.items

/-- A list into which every element of `ext` was merged, and that has no other. -/
theorem mergeListNode_of_fixed {t t' : String} (hitems : Named idKey items)
    (hext : Named idKey ext) (hm : ∀ x ∈ ext, MergesKey (nameOf idKey) handler x)
    (hfixed : ∀ x ∈ ext, absorbInto (nameOf idKey) handler items x = .ok items)
    (hsub : ∀ x ∈ items, nameOf idKey x ∈ ext.map (nameOf idKey)) :
    mergeListNode (.seq t items) (.seq t' ext) idKey handler = .ok (.seq t items) := by
  have hfilter : (items.filter fun x => nameOf idKey x ∈ ext.map (nameOf idKey)) = items := by
    rw [List.filter_eq_self]
    intro x hx
    exact decide_eq_true (hsub x hx)
  rw [mergeListNode_seq t t' hitems hext hm, foldlM_of_fixed hfixed]
  show Except.ok (Yaml.seq t (items.filter _)) = _
  rw [hfilter]

theorem mergeListNode_self (hu : UniqueNames idKey e)
    (ho : ∀ x ∈ e.items, MergesOnce idKey handler x) : mergeListNode e e idKey handler = .ok e := by
  cases e with
  | seq t items =>
    refine mergeListNode_of_fixed hu.named hu.named (fun x hx => (ho x hx).name) ?_ ?_
    · intro x hx
      rw [absorbInto_eq_self_iff]
      exact ⟨x, findKey?_of_mem hu.distinct hx, (ho x hx).self⟩
    · exact fun x hx => List.mem_map_of_mem hx
  | _ => rfl

/-- **Merging a list of distinct names is idempotent.** -/
theorem idempotent_mergeListNode (hu : UniqueNames idKey e)
    (ho : ∀ x ∈ e.items, MergesOnce idKey handler x) :
    Idempotent fun r => mergeListNode r e idKey handler := by
  intro r r' h
  show mergeListNode r' e idKey handler = .ok r'
  replace h : mergeListNode r e idKey handler = .ok r' := h
  by_cases hue : IsUndefined e = true
  · exact if_pos hue
  · by_cases hrep : (IsUndefined r || !e.isSequence) = true
    · -- the user's node has replaced the other one
      obtain rfl : e = r' := Except.ok.inj (((if_neg hue).trans (if_pos hrep)).symm.trans h)
      exact mergeListNode_self hu ho
    · rw [Bool.or_eq_true, not_or, Bool.not_eq_true, Bool.not_eq_true, Bool.not_eq_false'] at hrep
      cases e with
      | seq t' ext =>
        cases r with
        | seq t items =>
          -- the fold has fixed every element of `ext`, and the filter keeps them all
          have hext : Named idKey ext := hu.named
          obtain ⟨items', hnamed, hfold, rfl⟩ := mergeListNode_of_ok hext h
          have hfixed := fixed_of_foldlM_absorbInto hu.distinct (fun x hx => (ho x hx).name)
            (fun x hx => (ho x hx).self) (fun x hx => (ho x hx).again) hfold
          refine mergeListNode_of_fixed ?_ hext (fun x hx => (ho x hx).name) ?_ ?_
          · exact fun x hx => hnamed x (List.mem_of_mem_filter hx)
          · -- the filter keeps what a lookup of a name of `ext` finds
            intro x hx
            have hmem : nameOf idKey x ∈ ext.map (nameOf idKey) := List.mem_map_of_mem hx
            rw [absorbInto_eq_self_iff, findKey?_filter
              (p := fun k => decide (k ∈ ext.map (nameOf idKey))) (decide_eq_true hmem)]
            exact absorbInto_eq_self_iff.mp (hfixed x hx)
          · intro x hx
            exact of_decide_eq_true (List.mem_filter.mp hx).2
        | undefined | null => exact absurd hrep.1 (by simp [IsUndefined, isDefined, isNull])
        | _ => cases h
      | _ => cases hrep.2

/-! ### Maps with lists in them -/

variable {possibleList : List (String × String)}

/-- The lists in a map have distinct names. -/
def UniqueSubLists (possibleList : List (String × String)) (node : Yaml) : Prop :=
  ∀ list ∈ possibleList, UniqueNames list.2 (node.child list.1)

theorem wellFormed_of_mem_items (hw : e.WellFormed) (hx : x ∈ e.items) : x.WellFormed := by
  cases e with
  | seq t items =>
    rw [WellFormed] at hw
    exact hw.of_mem hx
  | _ => cases hx

theorem mergesOnce_of_mem_items (hid : idKey ≠ "") (hw : e.WellFormed)
    (hu : UniqueNames idKey e) (hx : x ∈ e.items) : MergesOnce idKey mergeHandler x :=
  mergesOnce_mergeHandler hid (wellFormed_of_mem_items hw hx) (hu.named x hx)

/-- The fields that iteration yields are the children. -/
theorem child_of_mem_fields (hw : e.WellFormed) {f : String × Yaml} (hf : f ∈ e.fields) :
    e.child f.1 = f.2 := by
  cases e with
  | map t fs =>
    rw [WellFormed] at hw
    exact Assoc.get_of_mem hw.1 (List.mem_of_mem_filter hf)
  | _ => cases hf

/-- What is asked of a field: its list, if it is one of the possible lists, has distinct names. -/
theorem uniqueNames_of_lookup (hu : UniqueSubLists possibleList e) (hw : e.WellFormed)
    {f : String × Yaml} (hf : f ∈ e.fields) (hlookup : possibleList.lookup f.1 = some idKey) :
    (f.1, idKey) ∈ possibleList ∧ UniqueNames idKey f.2 := by
  obtain ⟨pre, post, hlist, -⟩ := List.lookup_eq_some_iff.mp hlookup
  have hmem : (f.1, idKey) ∈ possibleList := by
    rw [hlist]
    exact List.mem_append_right _ List.mem_cons_self
  refine ⟨hmem, ?_⟩
  rw [← child_of_mem_fields hw hf]
  exact hu _ hmem

theorem mergeFieldOrList_self (hid : ∀ list ∈ possibleList, list.2 ≠ "")
    (hu : UniqueSubLists possibleList e) (hw : e.WellFormed) {f : String × Yaml}
    (hf : f ∈ e.fields) : mergeFieldOrList possibleList f.1 f.2 f.2 = .ok f.2 := by
  have hwf : f.2.WellFormed := hw.of_mem_fields hf
  unfold mergeFieldOrList
  cases hlookup : possibleList.lookup f.1 with
  | none => exact mergeHandler_self hwf
  | some idKey =>
    obtain ⟨hmem, huf⟩ := uniqueNames_of_lookup hu hw hf hlookup
    exact mergeListNode_self huf fun x hx => mergesOnce_of_mem_items (hid _ hmem) hwf huf hx

theorem idempotent_mergeFieldOrList (hid : ∀ list ∈ possibleList, list.2 ≠ "")
    (hu : UniqueSubLists possibleList e) (hw : e.WellFormed) {f : String × Yaml}
    (hf : f ∈ e.fields) : Idempotent fun r => mergeFieldOrList possibleList f.1 r f.2 := by
  have hwf : f.2.WellFormed := hw.of_mem_fields hf
  unfold mergeFieldOrList
  cases hlookup : possibleList.lookup f.1 with
  | none => exact idempotent_mergeHandler hwf
  | some idKey =>
    obtain ⟨hmem, huf⟩ := uniqueNames_of_lookup hu hw hf hlookup
    exact idempotent_mergeListNode huf fun x hx => mergesOnce_of_mem_items (hid _ hmem) hwf huf hx

theorem mergeMapNodeWithSubList_self (hid : ∀ list ∈ possibleList, list.2 ≠ "")
    (hu : UniqueSubLists possibleList e) (hw : e.WellFormed) :
    mergeMapNodeWithSubList possibleList e e = .ok e := by
  unfold mergeMapNodeWithSubList
  split_ifs
  · rfl
  · rfl
  · apply foldlM_of_fixed
    intro f hf
    rw [modifyField_eq_self_iff]
    cases e with
    | map t fs =>
      have hchild : Assoc.get Yaml.undefined f.1 fs = f.2 := child_of_mem_fields hw hf
      refine ⟨t, fs, rfl, List.mem_map_of_mem (List.mem_of_mem_filter hf), ?_⟩
      rw [hchild]
      exact mergeFieldOrList_self hid hu hw hf
    | _ => cases hf

/-- Merges of children of different names, one after the other. -/
theorem idempotent_foldlM_modifyField {ι : Type*} {es : List ι} {name : ι → String}
    {merge : ι → Yaml → Except Error Yaml} (hd : (es.map name).Nodup)
    (hi : ∀ i ∈ es, Idempotent (merge i)) :
    Idempotent fun node : Yaml =>
      es.foldlM (fun node i => node.modifyField (name i) (merge i)) node := by
  apply idempotent_foldlM
  · exact fun i hi' => idempotent_modifyField (hi i hi')
  · exact (List.pairwise_map.mp hd).imp fun hne => keepsFixed_modifyField hne

/-- Two maps: the fields of `ext` one after the other. -/
theorem mergeMapNodeWithSubList_map (he : e.isMap = true) (hr : r.isMap = true) :
    mergeMapNodeWithSubList possibleList r e = e.fields.foldlM (fun node f =>
      node.modifyField f.1 fun resI => mergeFieldOrList possibleList f.1 resI f.2) r := by
  have hue : ¬IsUndefined e = true := by
    cases e with
    | map => simp [IsUndefined, isDefined, isNull]
    | _ => cases he
  unfold mergeMapNodeWithSubList
  rw [if_neg hue, if_neg (by simp [he, hr])]

/-- **Merging a map with lists in it is idempotent.** -/
theorem idempotent_mergeMapNodeWithSubList (hid : ∀ list ∈ possibleList, list.2 ≠ "")
    (hu : UniqueSubLists possibleList e) (hw : e.WellFormed) :
    Idempotent fun r => mergeMapNodeWithSubList possibleList r e := by
  intro r r' h
  show mergeMapNodeWithSubList possibleList r' e = .ok r'
  replace h : mergeMapNodeWithSubList possibleList r e = .ok r' := h
  by_cases hue : IsUndefined e = true
  · exact if_pos hue
  · by_cases hrep : (!e.isMap || !r.isMap) = true
    · obtain rfl : e = r' := Except.ok.inj (((if_neg hue).trans (if_pos hrep)).symm.trans h)
      exact mergeMapNodeWithSubList_self hid hu hw
    -- two maps: each field is merged for itself, as their names are different
    · have hi : Idempotent fun node : Yaml => e.fields.foldlM (fun node f =>
          node.modifyField f.1 fun resI => mergeFieldOrList possibleList f.1 resI f.2) node := by
        apply idempotent_foldlM_modifyField hw.fields_nodup
        exact fun f hf => idempotent_mergeFieldOrList hid hu hw hf
      rw [Bool.or_eq_true, not_or, Bool.not_eq_true, Bool.not_eq_true, Bool.not_eq_false',
        Bool.not_eq_false'] at hrep
      rw [mergeMapNodeWithSubList_map hrep.1 hrep.2] at h
      have hr' : r'.isMap = true := by
        refine foldlM_invariant (I := fun node => node.isMap = true) h hrep.2 ?_
        exact fun f _ node node' _ hstep => isMap_modifyField hstep
      rw [mergeMapNodeWithSubList_map hrep.1 hr']
      exact hi r r' h

/-- The name of a node is the text of a child. -/
theorem nameOf_eq_some_iff_child {k : String} :
    nameOf idKey e = some k ↔ e.isMap = true ∧ (e.child idKey).asString = .ok k := by
  rw [nameOf_eq_some_iff]
  cases e with
  | map => exact ⟨fun h => ⟨rfl, h⟩, fun h => h.2⟩
  | _ => exact iff_of_false nofun nofun

/-- A backend keeps its type. -/
theorem mergesKey_mergeMapNodeWithSubList (hid : possibleList.lookup idKey = none)
    (hw : e.WellFormed) (hname : ∃ k, nameOf idKey e = some k) :
    MergesKey (nameOf idKey) (mergeMapNodeWithSubList possibleList) e := by
  intro r r' hr h
  obtain ⟨k, hk⟩ := hname
  rw [hk] at hr
  rw [hr, nameOf_eq_some_iff_child]
  rw [nameOf_eq_some_iff_child] at hr hk
  rw [mergeMapNodeWithSubList_map hk.1 hr.1] at h
  refine foldlM_invariant
    (I := fun node => node.isMap = true ∧ (node.child idKey).asString = .ok k) h hr ?_
  rintro f hf node node' ⟨hmap, hnode⟩ hstep
  obtain ⟨hself, hother⟩ := child_modifyField hmap hstep
  refine ⟨isMap_modifyField hstep, ?_⟩
  by_cases hfk : f.1 = idKey
  · -- the type itself is merged as a scalar
    have hf2 : f.2.asString = .ok k := by
      rw [← child_of_mem_fields hw hf, hfk]
      exact hk.2
    rw [hfk, mergeFieldOrList, hid] at hself
    obtain hself := Except.ok.inj hself
    rw [← hself, mergeMapNode_eq_deepMerge _ (hw.of_mem_fields hf)]
    exact asString_deepMerge hnode hf2
  · rw [hother idKey (Ne.symm hfk)]
    exact hnode

/-- The backends of a section have distinct types, and the lists in each have distinct names. -/
structure UniqueBackends (possibleList : List (String × String)) (node : Yaml) : Prop where
  types : UniqueNames "type" node
  lists : ∀ backend ∈ node.items, UniqueSubLists possibleList backend

/-! ### Sections -/

theorem mergeChild_eq {v : Yaml} (hget : e.get name = .ok v) :
    mergeChild name handler e = fun res => res.modifyField name fun r => handler r v := by
  funext res
  rw [mergeChild, hget]
  rfl

theorem mergeChild_of_error {error : Error} (hget : e.get name = .error error) (res : Yaml) :
    mergeChild name handler e res = .error error := by
  rw [mergeChild, hget]
  rfl

theorem idempotent_mergeChild (hi : Idempotent fun r => handler r (e.child name)) :
    Idempotent (mergeChild name handler e) := by
  cases hget : e.get name with
  | error err =>
    intro r r' h
    rw [mergeChild_of_error hget] at h
    cases h
  | ok v =>
    rw [mergeChild_eq hget, get_eq_ok hget]
    exact idempotent_modifyField hi

theorem keepsFixed_mergeChild {name' : String} {handler' : Handler} (hne : name ≠ name') :
    KeepsFixed (mergeChild name' handler' e) (mergeChild name handler e) := by
  cases hget : e.get name with
  | error err =>
    intro r r' hfixed
    rw [mergeChild_of_error hget] at hfixed
    cases hfixed
  | ok v =>
    cases hget' : e.get name' with
    | error err =>
      intro r r' _ h
      rw [mergeChild_of_error hget'] at h
      cases h
    | ok v' =>
      rw [mergeChild_eq hget, mergeChild_eq hget']
      exact keepsFixed_modifyField hne

/-- **Merging a section is idempotent** when the children that it knows have different names and
merging each of them is. -/
theorem idempotent_mergeSection {children : List (String × Handler)}
    (hd : (children.map Prod.fst).Nodup)
    (hi : ∀ child ∈ children, Idempotent fun r => child.2 r (e.child child.1)) :
    Idempotent fun r => mergeSection children r e := by
  unfold mergeSection
  split_ifs
  · exact fun r r' h => rfl
  · apply idempotent_foldlM
    · exact fun child hc => idempotent_mergeChild (hi child hc)
    · exact (List.pairwise_map.mp hd).imp fun hne => keepsFixed_mergeChild hne

theorem idempotent_mergeListBy (hid : idKey ≠ "") (hw : e.WellFormed)
    (hu : UniqueNames idKey e) : Idempotent fun r => mergeListBy idKey mergeHandler r e :=
  idempotent_mergeListNode hu fun _ hx => mergesOnce_of_mem_items hid hw hu hx

theorem idempotent_mergeBackends (hid : ∀ list ∈ possibleList, list.2 ≠ "")
    (htype : possibleList.lookup "type" = none) (hw : e.WellFormed)
    (hu : UniqueBackends possibleList e) :
    Idempotent fun r => mergeListBy "type" (mergeMapNodeWithSubList possibleList) r e := by
  apply idempotent_mergeListNode hu.types
  intro x hx
  have hwx : x.WellFormed := wellFormed_of_mem_items hw hx
  exact ⟨mergesKey_mergeMapNodeWithSubList htype hwx (hu.types.named x hx),
    mergeMapNodeWithSubList_self hid (hu.lists x hx) hwx,
    idempotent_mergeMapNodeWithSubList hid (hu.lists x hx) hwx⟩

/-! ### The headline -/

/-- In every list of the user's configuration that is merged by names, the names are different. -/
structure UniqueAimRT (ext : Yaml) : Prop where
  logBackends : UniqueNames "type" ((ext.child "log").child "backends")
  plugins : UniqueNames "name" ((ext.child "plugin").child "plugins")
  channelBackends :
    UniqueBackends channelSubLists ((ext.child "channel").child "backends")
  pubTopics : UniqueNames "topic_name" ((ext.child "channel").child "pub_topics_options")
  subTopics : UniqueNames "topic_name" ((ext.child "channel").child "sub_topics_options")
  rpcBackends : UniqueBackends rpcSubLists ((ext.child "rpc").child "backends")
  clients : UniqueNames "func_name" ((ext.child "rpc").child "clients_options")
  servers : UniqueNames "func_name" ((ext.child "rpc").child "servers_options")
  executors : UniqueNames "name" ((ext.child "executor").child "executors")
  modules : UniqueNames "name" ((ext.child "module").child "modules")

/-- **Merging the user's AimRT configuration a second time changes nothing**, whatever the program
had before: what the first merge of all sections has made, the second one finds. -/
theorem mergeAimRTNode_twice {res ext out : Yaml} (hw : ext.WellFormed) (hu : UniqueAimRT ext)
    (h : mergeAimRTNode res ext = .ok out) : mergeAimRTNode out ext = .ok out := by
  have hlog : Idempotent fun r => mergeAimRTLogNode r (ext.child "log") := by
    refine idempotent_mergeSection (by decide) ?_
    simp only [List.forall_mem_cons]
    have hwl := hw.child "log"
    exact ⟨idempotent_mergeHandler (hwl.child _), idempotent_mergeHandler (hwl.child _),
      idempotent_mergeListBy (by decide) (hwl.child _) hu.logBackends, by simp⟩
  have hplugin : Idempotent fun r => mergeAimRTPluginNode r (ext.child "plugin") := by
    refine idempotent_mergeSection (by decide) ?_
    simp only [List.forall_mem_cons]
    exact ⟨idempotent_mergeListBy (by decide) ((hw.child _).child _) hu.plugins, by simp⟩
  have hchannel : Idempotent fun r => mergeAimRTChannelNode r (ext.child "channel") := by
    refine idempotent_mergeSection (by decide) ?_
    simp only [List.forall_mem_cons]
    have hwc := hw.child "channel"
    exact ⟨idempotent_mergeBackends (by decide) (by decide) (hwc.child _) hu.channelBackends,
      idempotent_mergeListBy (by decide) (hwc.child _) hu.pubTopics,
      idempotent_mergeListBy (by decide) (hwc.child _) hu.subTopics, by simp⟩
  have hrpc : Idempotent fun r => mergeAimRTRpcNode r (ext.child "rpc") := by
    refine idempotent_mergeSection (by decide) ?_
    simp only [List.forall_mem_cons]
    have hwr := hw.child "rpc"
    exact ⟨idempotent_mergeBackends (by decide) (by decide) (hwr.child _) hu.rpcBackends,
      idempotent_mergeListBy (by decide) (hwr.child _) hu.clients,
      idempotent_mergeListBy (by decide) (hwr.child _) hu.servers, by simp⟩
  have hexecutor : Idempotent fun r => mergeAimRTExecutorNode r (ext.child "executor") := by
    refine idempotent_mergeSection (by decide) ?_
    simp only [List.forall_mem_cons]
    exact ⟨idempotent_mergeListBy (by decide) ((hw.child _).child _) hu.executors, by simp⟩
  have hmodule : Idempotent fun r => mergeAimRTModuleNode r (ext.child "module") := by
    refine idempotent_mergeSection (by decide) ?_
    simp only [List.forall_mem_cons]
    exact ⟨idempotent_mergeHandler ((hw.child _).child _),
      idempotent_mergeListBy (by decide) ((hw.child _).child _) hu.modules, by simp⟩
  -- the nine children together, of which six are the sections above
  have hall : Idempotent fun r => mergeAimRTNode r ext := by
    refine idempotent_mergeSection (by decide) ?_
    simp only [List.forall_mem_cons]
    exact ⟨idempotent_mergeHandler (hw.child _), idempotent_mergeHandler (hw.child _),
      idempotent_mergeHandler (hw.child _), hlog, hplugin, hchannel, hrpc, hexecutor, hmodule,
      by simp⟩
  exact hall res out h

/-- An executor with one option. -/
def sampleExecutor (name option value : String) : Yaml :=
  .map "" [("name", .scalar "" name), (option, .scalar "" value)]

/-- The executor `b` with the options of both. -/
def mergedExecutor : Yaml :=
  .map "" [("name", .scalar "" "b"), ("x", .scalar "" "1"), ("y", .scalar "" "2")]

/-- A configuration with nothing but these executors. -/
def executorConfig (executors : List Yaml) : Yaml :=
  .map "" [("executor", .map "" [("executors", .seq "" executors)])]

theorem wellFormed_sampleExecutor (name value : String) :
    (sampleExecutor name "y" value).WellFormed := by
  simp [sampleExecutor, WellFormed, WellFormedFields]

theorem mergeListNode_sample :
    mergeListNode (.seq "" [sampleExecutor "a" "x" "1", sampleExecutor "b" "x" "1"])
      (.seq "" [sampleExecutor "c" "y" "2", sampleExecutor "b" "y" "2"]) "name" mergeHandler =
      .ok (.seq "" [mergedExecutor, sampleExecutor "c" "y" "2"]) := by
  have hm : ∀ e ∈ [sampleExecutor "c" "y" "2", sampleExecutor "b" "y" "2"],
      MergesKey (nameOf "name") mergeHandler e := by
    intro e he
    obtain rfl | rfl := List.mem_pair.mp he
    · exact mergesKey_mergeHandler (by decide) (wellFormed_sampleExecutor "c" "2") ⟨"c", rfl⟩
    · exact mergesKey_mergeHandler (by decide) (wellFormed_sampleExecutor "b" "2") ⟨"b", rfl⟩
  have hc : absorbInto (nameOf "name") mergeHandler
      [sampleExecutor "a" "x" "1", sampleExecutor "b" "x" "1"] (sampleExecutor "c" "y" "2") =
      .ok [sampleExecutor "a" "x" "1", sampleExecutor "b" "x" "1", sampleExecutor "c" "y" "2"] :=
    rfl
  have hb : absorbInto (nameOf "name") mergeHandler
      [sampleExecutor "a" "x" "1", sampleExecutor "b" "x" "1", sampleExecutor "c" "y" "2"]
      (sampleExecutor "b" "y" "2") =
      .ok [sampleExecutor "a" "x" "1", mergedExecutor, sampleExecutor "c" "y" "2"] := by
    show (mergeHandler (sampleExecutor "b" "x" "1") (sampleExecutor "b" "y" "2")).map
      (fun r' => [sampleExecutor "a" "x" "1"] ++ r' :: [sampleExecutor "c" "y" "2"]) = _
    rw [mergeHandler_eq (wellFormed_sampleExecutor "b" "2")]
    rfl
  have hfold : [sampleExecutor "c" "y" "2", sampleExecutor "b" "y" "2"].foldlM
      (absorbInto (nameOf "name") mergeHandler)
      [sampleExecutor "a" "x" "1", sampleExecutor "b" "x" "1"] =
      .ok [sampleExecutor "a" "x" "1", mergedExecutor, sampleExecutor "c" "y" "2"] := by
    rw [List.foldlM_cons, except_bind_eq_ok]
    refine ⟨_, hc, ?_⟩
    rw [List.foldlM_cons, except_bind_eq_ok]
    exact ⟨_, hb, rfl⟩
  rw [mergeListNode_seq "" "" (by decide) (by decide) hm, hfold]
  rfl

/-- The user's configuration of the samples. -/
def userConfig : Yaml := executorConfig [sampleExecutor "c" "y" "2", sampleExecutor "b" "y" "2"]

theorem wellFormed_userConfig : userConfig.WellFormed := by
  simp [userConfig, executorConfig, sampleExecutor, WellFormed, WellFormedFields, WellFormedItems]

theorem uniqueAimRT_userConfig : UniqueAimRT userConfig := by
  have hnone : ∀ idKey, UniqueNames idKey .undefined := by
    intro idKey
    exact ⟨fun x hx => absurd hx List.not_mem_nil, List.nodup_nil⟩
  have hbackends : ∀ possibleList, UniqueBackends possibleList .undefined := by
    intro possibleList
    exact ⟨hnone _, by simp [items]⟩
  refine ⟨hnone _, hnone _, hbackends _, hnone _, hnone _, hbackends _, hnone _, hnone _, ?_,
    hnone _⟩
  exact ⟨by decide, by decide⟩

theorem mergeHandler_undefined (r : Yaml) : mergeHandler r .undefined = .ok r := by
  rw [mergeHandler_eq (by simp [WellFormed]), deepMerge]

theorem mergeAimRTNode_twice_sample :
    let ext := executorConfig [sampleExecutor "c" "y" "2", sampleExecutor "b" "y" "2"]
    ∃ out, mergeAimRTNode (executorConfig [sampleExecutor "a" "x" "1", sampleExecutor "b" "x" "1"])
        ext = .ok out ∧
      (out.child "executor").child "executors" =
        .seq "" [mergedExecutor, sampleExecutor "c" "y" "2"] ∧
      mergeAimRTNode out ext = .ok out := by
  intro ext
  have hout : ∃ out, mergeAimRTNode
      (executorConfig [sampleExecutor "a" "x" "1", sampleExecutor "b" "x" "1"]) ext = .ok out ∧
      (out.child "executor").child "executors" =
        .seq "" [mergedExecutor, sampleExecutor "c" "y" "2"] := by
    simp [ext, executorConfig, mergeAimRTNode, mergeSection, mergeChild, modifyField, Yaml.get,
      convertToMap, Assoc.get, Assoc.upsert, Assoc.ensure, Assoc.modify, mergeHandler_undefined,
      mergeAimRTLogNode, mergeAimRTPluginNode, mergeAimRTChannelNode, mergeAimRTRpcNode,
      mergeAimRTExecutorNode, mergeAimRTModuleNode, IsUndefined, isDefined, isNull, bind,
      Except.bind, pure, Except.pure, List.foldlM, mergeListBy, mergeListNode_sample, child]
  obtain ⟨out, hfirst, hlist⟩ := hout
  exact ⟨out, hfirst, hlist,
    mergeAimRTNode_twice wellFormed_userConfig uniqueAimRT_userConfig hfirst⟩

end Cfg

end AimrtComm
