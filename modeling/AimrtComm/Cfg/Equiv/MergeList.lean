import AimrtComm.Cfg.Equiv.PatchList
import AimrtComm.Cfg.MergeList
import AimrtComm.Lib.KeyedFold

/-!
# `MergeListNode` takes the external list and merges the internal content in

On elements that have names, the loop over `ext` is the fold of `absorbInto`
(`mergeListItem_eq`), so the library says what its result holds under every name and in which
order the names stand.  The index loop that follows is a filter (`removeLoop_eq`): it stays at an
index after a removal, where the next element then is.  `mergeListNode_merges` puts the two
together.
-/

namespace AimrtComm.Cfg

open Yaml KeyedList

/-! ### Names -/

/-- The name of an element, if it has one. -/
def nameOf (idKey : String) (node : Yaml) : Option String := (itemName idKey node).toOption

theorem nameOf_eq_some_iff {idKey k : String} {node : Yaml} :
    nameOf idKey node = some k ↔ itemName idKey node = .ok k := by
  unfold nameOf
  cases itemName idKey node <;> simp [Except.toOption]

/-- All elements of the list have a name. -/
def Named (idKey : String) (items : List Yaml) : Prop :=
  ∀ x ∈ items, ∃ k, nameOf idKey x = some k

instance (idKey : String) (items : List Yaml) : Decidable (Named idKey items) :=
  decidable_of_iff (∀ x ∈ items, (nameOf idKey x).isSome)
    (by simp only [Named, Option.isSome_iff_exists])

theorem named_iff {idKey : String} {items : List Yaml} :
    Named idKey items ↔ none ∉ items.map (nameOf idKey) := by
  simp only [Named, List.mem_map, not_exists, not_and, ← ne_eq, Option.ne_none_iff_exists']

/-- An element with a name is a map. -/
theorem isUndefined_of_nameOf {idKey k : String} {node : Yaml} (h : nameOf idKey node = some k) :
    IsUndefined node = false := by
  rw [nameOf_eq_some_iff, itemName] at h
  cases node <;> simp_all [Yaml.get, asString, bind, Except.bind, IsUndefined, isDefined, isNull]

/-- The inner loop finds the first element of the name. -/
theorem findName_eq {idKey : String} (name : String) {items : List Yaml}
    (h : Named idKey items) :
    findName idKey name items
      = .ok ((splitAtKey (nameOf idKey) (some name) items).map fun s => (s.1.length, s.2.1)) := by
  induction items with
  | nil => rfl
  | cons i rest ih =>
    obtain ⟨k, hk⟩ := h i List.mem_cons_self
    rw [findName, nameOf_eq_some_iff.mp hk, splitAtKey, hk,
      ih fun x hx => h x (List.mem_cons_of_mem _ hx)]
    by_cases hkn : k = name
    · subst hkn
      simp [bind, Except.bind, pure, Except.pure]
    · simp only [bind, Except.bind, hkn, if_false, pure, Except.pure, Option.some.injEq,
        Option.map_map, Except.ok.injEq]
      rfl

theorem hasName_eq {idKey : String} (name : String) {items : List Yaml} (h : Named idKey items) :
    hasName idKey name items = .ok (decide (some name ∈ items.map (nameOf idKey))) := by
  induction items with
  | nil => rfl
  | cons i rest ih =>
    obtain ⟨k, hk⟩ := h i List.mem_cons_self
    rw [hasName, nameOf_eq_some_iff.mp hk, List.map_cons, hk,
      ih fun x hx => h x (List.mem_cons_of_mem _ hx)]
    by_cases hkn : k = name
    · subst hkn
      simp [bind, Except.bind, pure, Except.pure]
    · simp [bind, Except.bind, hkn, Ne.symm hkn]

theorem nameOf_eq_itemKey {idKey k : String} (hid : idKey ≠ "") {node : Yaml} :
    nameOf idKey node = some k ↔ itemKey idKey node = some k := by
  have hget : getKey idKey node = itemName idKey node := if_neg hid
  rw [itemKey_eq_some_iff, hget, ← nameOf_eq_some_iff]
  exact ⟨fun h => ⟨isUndefined_of_nameOf h, h⟩, fun h => h.2⟩

/-- `MergeMapNode`, the handler when the caller gives none, keeps names. -/
theorem mergesKey_mergeHandler {idKey : String} (hid : idKey ≠ "") {extI : Yaml}
    (hw : extI.WellFormed) (hext : ∃ k, nameOf idKey extI = some k) :
    MergesKey (nameOf idKey) mergeHandler extI := by
  intro r r' hr h
  obtain ⟨k, hk⟩ := hext
  obtain rfl := Except.ok.inj h
  rw [hk] at hr
  rw [hr, mergeMapNode_eq_deepMerge r hw]
  rw [nameOf_eq_itemKey hid] at hr hk ⊢
  exact itemKey_deepMerge hw hr (itemKey_eq_some_iff.mp hk).2

/-! ### The two loops -/

theorem mergeListItem_of_findName {idKey k : String} {handler : Handler} {items : List Yaml}
    {extI : Yaml} (hk : nameOf idKey extI = some k)
    (hfind : findName idKey k items
      = .ok ((splitAtKey (nameOf idKey) (some k) items).map fun s => (s.1.length, s.2.1))) :
    mergeListItem idKey handler items extI = absorbInto (nameOf idKey) handler items extI := by
  rw [mergeListItem, nameOf_eq_some_iff.mp hk, absorbInto, hk]
  show (findName idKey k items >>= _) = _
  rw [hfind]
  cases hs : splitAtKey (nameOf idKey) (some k) items with
  | none => rfl
  | some s =>
    obtain ⟨hsplit, hname, -⟩ := splitAtKey_eq_some hs
    show (if IsUndefined s.2.1 then _ else _) = (handler s.2.1 extI).map _
    rw [isUndefined_of_nameOf hname]
    cases handler s.2.1 extI with
    | error e => rfl
    | ok r' =>
      show Except.ok (items.set s.1.length r') = Except.ok (s.1 ++ r' :: s.2.2)
      congr 1
      conv_lhs => rw [hsplit]
      rw [List.set_append_right _ _ (Nat.le_refl _), Nat.sub_self, List.set_cons_zero]

theorem mergeListItem_eq {idKey : String} {handler : Handler} {items : List Yaml} {extI : Yaml}
    (hitems : Named idKey items) (hext : ∃ k, nameOf idKey extI = some k) :
    mergeListItem idKey handler items extI = absorbInto (nameOf idKey) handler items extI := by
  obtain ⟨k, hk⟩ := hext
  exact mergeListItem_of_findName hk (findName_eq k hitems)

/-- The elements stay named. -/
theorem named_absorbInto {idKey : String} {handler : Handler} {items items' : List Yaml}
    {extI : Yaml} (hm : MergesKey (nameOf idKey) handler extI) (hitems : Named idKey items)
    (hext : ∃ k, nameOf idKey extI = some k)
    (h : absorbInto (nameOf idKey) handler items extI = .ok items') : Named idKey items' := by
  obtain ⟨k, hk⟩ := hext
  rw [named_iff] at hitems ⊢
  rw [keys_absorbInto hm h, hk, List.mem_append, not_or]
  refine ⟨hitems, ?_⟩
  split_ifs <;> simp

theorem foldlM_mergeListItem_eq {idKey : String} {handler : Handler} {items ext : List Yaml}
    (hm : ∀ e ∈ ext, MergesKey (nameOf idKey) handler e) (hitems : Named idKey items)
    (hext : Named idKey ext) :
    ext.foldlM (mergeListItem idKey handler) items
      = ext.foldlM (absorbInto (nameOf idKey) handler) items := by
  apply foldlM_congr (I := Named idKey) hitems
  · intro e he s hs
    exact mergeListItem_eq hs (hext e he)
  · intro e he s s' hs h
    exact named_absorbInto (hm e he) hs (hext e he) h

/-- The index loop keeps the elements before the index, and of the rest those whose names `ext`
has. -/
theorem removeLoop_eq {idKey : String} {ext res : List Yaml} (hres : Named idKey res)
    (hext : Named idKey ext) (resIdx : ℕ) :
    removeLoop idKey ext res resIdx
      = .ok (res.take resIdx
          ++ (res.drop resIdx).filter fun x => nameOf idKey x ∈ ext.map (nameOf idKey)) := by
  fun_induction removeLoop idKey ext res resIdx with
  | case1 res resIdx h ih1 ih2 =>
    obtain ⟨k, hk⟩ := hres res[resIdx] (List.getElem_mem h)
    rw [nameOf_eq_some_iff.mp hk]
    show (hasName idKey k ext).bind _ = _
    rw [hasName_eq k hext, List.drop_eq_getElem_cons h]
    show (if decide _ = true then _ else _) = _
    by_cases hmem : some k ∈ ext.map (nameOf idKey)
    · -- found: the element stays
      rw [if_pos (by simpa using hmem), ih1 hres, List.filter_cons_of_pos (by simp [hk, hmem]),
        List.take_succ_eq_append_getElem h, List.append_assoc, List.singleton_append]
    · -- not found: what follows the element moves to its index
      have hnamed : Named idKey (res.eraseIdx resIdx) :=
        fun x hx => hres x (List.mem_of_mem_eraseIdx hx)
      rw [if_neg (by simpa using hmem), ih2 hnamed, List.filter_cons_of_neg (by simp [hk, hmem]),
        List.eraseIdx_eq_take_drop_succ]
      have hlen : (res.take resIdx).length = resIdx := by
        rw [List.length_take]
        omega
      rw [List.take_left' hlen, List.drop_left' hlen]
  | case2 res resIdx h =>
    rw [List.take_of_length_le (by omega), List.drop_eq_nil_of_le (by omega), List.filter_nil,
      List.append_nil]

/-- `MergeListNode` of two sequences: the fold, then the filter. -/
theorem mergeListNode_seq {idKey : String} {handler : Handler} (t t' : String)
    {res ext : List Yaml} (hres : Named idKey res) (hext : Named idKey ext)
    (hm : ∀ e ∈ ext, MergesKey (nameOf idKey) handler e) :
    mergeListNode (.seq t res) (.seq t' ext) idKey handler
      = (ext.foldlM (absorbInto (nameOf idKey) handler) res).map fun items =>
          .seq t (items.filter fun x => nameOf idKey x ∈ ext.map (nameOf idKey)) := by
  show (ext.foldlM (mergeListItem idKey handler) res >>= fun items =>
    removeLoop idKey ext items 0 >>= fun kept => .ok (Yaml.seq t kept)) = _
  rw [foldlM_mergeListItem_eq hm hres hext]
  cases hfold : ext.foldlM (absorbInto (nameOf idKey) handler) res with
  | error e => rfl
  | ok items =>
    have hitems : Named idKey items := by
      apply foldlM_invariant hfold hres
      intro e he s s' hs h
      exact named_absorbInto (hm e he) hs (hext e he) h
    show (removeLoop idKey ext items 0 >>= fun kept => .ok (Yaml.seq t kept)) = _
    rw [removeLoop_eq hitems hext]
    rfl

/-! ### The headline -/

/-- **`MergeListNode` computes the external list with the internal content merged in.**  `res`
has distinct names, those of `ext` may repeat, and the handler keeps the name of an element of
`res` when it merges an element of `ext` of the same name.  The merge fails exactly when folding
the handler over the elements of one name of `ext` does.  Otherwise the names of the result are
those of `res` that occur in `ext`, followed by those of `ext` alone in the order of their first
occurrence; the element of each name is that fold, which starts from the element of `res` or else
from the first one of `ext`; and of `res` exactly the names that `ext` does not have are gone. -/
theorem mergeListNode_merges {idKey : String} {handler : Handler} (t t' : String)
    {res ext : List Yaml} (hres : Named idKey res) (hext : Named idKey ext)
    (hd : Distinct (nameOf idKey) res) (hm : ∀ e ∈ ext, MergesKey (nameOf idKey) handler e) :
    ((∃ out, mergeListNode (.seq t res) (.seq t' ext) idKey handler = .ok out) ↔
      ∀ k, ∃ s, (ofKey (nameOf idKey) k ext).foldlM (absorb handler)
        (findKey? (nameOf idKey) k res) = .ok s) ∧
    ∀ out, mergeListNode (.seq t res) (.seq t' ext) idKey handler = .ok out →
      ∃ items, out = .seq t items ∧
        Distinct (nameOf idKey) items ∧
        items.map (nameOf idKey)
          = ((res.map (nameOf idKey)).filter fun k => k ∈ ext.map (nameOf idKey))
            ++ ((ext.map (nameOf idKey)).filter fun k => k ∉ res.map (nameOf idKey)).eraseDups ∧
        (∀ k ∈ ext.map (nameOf idKey), (ofKey (nameOf idKey) k ext).foldlM (absorb handler)
          (findKey? (nameOf idKey) k res) = .ok (findKey? (nameOf idKey) k items)) ∧
        ∀ r ∈ res, nameOf idKey r ∉ items.map (nameOf idKey) ↔
          nameOf idKey r ∉ ext.map (nameOf idKey) := by
  rw [mergeListNode_seq t t' hres hext hm, ← foldlM_absorbInto_isOk_iff hm]
  constructor
  · simp only [except_map_eq_ok]
    constructor
    · rintro ⟨_, ys, h, -⟩
      exact ⟨ys, h⟩
    · rintro ⟨ys, h⟩
      exact ⟨_, ys, h, rfl⟩
  · intro out hout
    obtain ⟨ys, hfold, hys⟩ := except_map_eq_ok.mp hout
    have hkeys := keys_foldlM_absorbInto hm hfold
    -- the filter keeps the names of `ext`, which are all the new ones
    have hitems : (ys.filter fun x => nameOf idKey x ∈ ext.map (nameOf idKey)).map (nameOf idKey)
        = ((res.map (nameOf idKey)).filter fun k => k ∈ ext.map (nameOf idKey))
          ++ ((ext.map (nameOf idKey)).filter fun k => k ∉ res.map (nameOf idKey)).eraseDups := by
      have hmap : (ys.filter fun x => nameOf idKey x ∈ ext.map (nameOf idKey)).map (nameOf idKey)
          = (ys.map (nameOf idKey)).filter fun k => k ∈ ext.map (nameOf idKey) := by
        rw [List.filter_map]
        rfl
      rw [hmap, hkeys, List.filter_append]
      congr 1
      rw [List.filter_eq_self]
      intro k hk
      rw [List.mem_eraseDups, List.mem_filter] at hk
      simpa using hk.1
    refine ⟨_, hys.symm, ?_, hitems, ?_, ?_⟩
    · rw [Distinct, hitems, List.nodup_append]
      refine ⟨hd.filter _, nodup_eraseDups _, ?_⟩
      rintro k hk l hl rfl
      rw [List.mem_filter] at hk
      rw [List.mem_eraseDups, List.mem_filter] at hl
      simpa [hk.1] using hl.2
    · intro k hk
      rw [findKey?_filter (p := fun k => decide (k ∈ ext.map (nameOf idKey))) (by simpa using hk)]
      exact findKey?_foldlM_absorbInto hm k hfold
    · intro r hr
      have hmem : nameOf idKey r ∈ res.map (nameOf idKey) := List.mem_map_of_mem hr
      rw [hitems, List.mem_append, List.mem_filter, List.mem_eraseDups, List.mem_filter]
      simp [hmem]

/-- A name of both lists, one of `res` alone, one that `ext` has twice. -/
theorem mergeListNode_merges_sample :
    let item (name field : String) := Yaml.map "" [("name", .scalar "" name), (field, .null)]
    ∃ items, mergeListNode (.seq "" [item "a" "x", item "b" "x"])
        (.seq "" [item "c" "u", item "b" "v", item "c" "w"]) "name" mergeHandler
          = .ok (.seq "" items) ∧
      items.map (nameOf "name") = [some "b", some "c"] := by
  intro item
  have hm : ∀ e ∈ [item "c" "u", item "b" "v", item "c" "w"],
      MergesKey (nameOf "name") mergeHandler e := by
    intro e he
    apply mergesKey_mergeHandler (by decide)
    · simp only [List.mem_cons, List.not_mem_nil, or_false] at he
      rcases he with rfl | rfl | rfl <;> simp [item, WellFormed, WellFormedFields]
    · exact (by decide : Named "name" [item "c" "u", item "b" "v", item "c" "w"]) e he
  have h := @mergeListNode_merges "name" mergeHandler "" "" [item "a" "x", item "b" "x"]
    [item "c" "u", item "b" "v", item "c" "w"] (by decide) (by decide) (by decide) hm
  obtain ⟨out, hout⟩ := h.1.mpr fun k => foldlM_absorb_isOk (fun r e => ⟨_, rfl⟩) _ _
  obtain ⟨items, rfl, -, hnames, -⟩ := h.2 out hout
  exact ⟨items, hout, hnames.trans (by decide)⟩

end AimrtComm.Cfg
