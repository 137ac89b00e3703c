import AimrtComm.Cfg.Equiv.PatchEffect

/-!
# The tag `merge`

A patch of items that are all tagged `merge` is to merge each item into the element of its key, and
to add the item if there is none (`MergesAsDocumented`).  The loop merges, and panics instead of
adding: it does what it should exactly when every item has the key of an element
(`mergesAsDocumented_iff`).
-/

namespace AimrtComm.Cfg

open Yaml KeyedList

/-- The items of the key `k`, merged one after the other into what is there. -/
def mergedSlot (idKey : String) (ext : List Yaml) (k : Option String) (old : Option Yaml) :
    Option Yaml :=
  (ext.filter fun e => itemKey idKey e = k).foldl
    (fun old e => some (old.elim e fun r => deepMerge r e)) old

/-- The patch is accepted, each key has what it had merged with the items of this key, and the
elements that no item names are as they were, in their order. -/
structure MergesAsDocumented (tr te : String) (items ext : List Yaml) (idKey : String)
    (handler : Handler) (items' : List Yaml) : Prop where
  accepted : ∃ t, patchListNode (.seq tr items) (.seq te ext) idKey handler = .ok (.seq t items')
  distinct : Distinct (itemKey idKey) items'
  merged : ∀ k, slot (itemKey idKey) k items' =
    mergedSlot idKey ext k (slot (itemKey idKey) k items)
  untouched : items'.filter (fun x => itemKey idKey x ∉ ext.map (itemKey idKey)) =
    items.filter fun x => itemKey idKey x ∉ ext.map (itemKey idKey)

/-- A node with the tag `merge`. -/
abbrev MergeTagged (node : Yaml) : Prop := (Tagging.words (some .merge) none).Denotes node

variable {idKey : String} {handler : Handler} {items ext : List Yaml} {e : Yaml}

/-! ### One item -/

/-- An item for an element that is there is merged into it. -/
theorem patchItem_merge_of_present (he : MergeTagged e) (hw : e.WellFormed) {name : String}
    (hk : getKey idKey e = .ok name) {pre post : List Yaml} {r : Yaml}
    (hi : Keyed idKey (pre ++ r :: post)) (hr : itemKey idKey r = some name)
    (hs : splitAtKey (itemKey idKey) (some name) (pre ++ r :: post) = some (pre, r, post)) :
    patchItem idKey handler (pre ++ r :: post) e = .ok (pre ++ deepMerge r e :: post) := by
  have hm := analyzePatchMode_of_denotes he
  rw [patchItem_of_present hi hm hk hr hs, patchExisting_eq he hw hr hk]
  rfl

/-- An item for an element that is not there is refused. -/
theorem patchItem_merge_of_absent (he : MergeTagged e) {name : String}
    (hk : getKey idKey e = .ok name) (hi : Keyed idKey items)
    (hs : splitAtKey (itemKey idKey) (some name) items = none) :
    patchItem idKey handler items e = .error (.nonExisted e) := by
  have hm := analyzePatchMode_of_denotes he
  rw [patchItem_of_absent hi hm hk hs]
  rfl

/-- The elements after an item. -/
def mergeAt (idKey : String) (e r : Yaml) : Yaml :=
  if itemKey idKey r = itemKey idKey e then deepMerge r e else r

theorem itemKey_mergeAt (hw : e.WellFormed) {name : String} (hk : itemKey idKey e = some name)
    (r : Yaml) : itemKey idKey (mergeAt idKey e r) = itemKey idKey r := by
  unfold mergeAt
  by_cases hr : itemKey idKey r = itemKey idKey e
  · rw [if_pos hr]
    rw [hk] at hr
    rw [hr]
    exact itemKey_deepMerge hw hr (itemKey_eq_some_iff.mp hk).2
  · rw [if_neg hr]

/-- **One item is merged into the element of its key.** -/
theorem patchItem_merge (he : MergeTagged e) (hw : e.WellFormed) (hi : Keyed idKey items)
    (hd : Distinct (itemKey idKey) items) {items' : List Yaml} :
    patchItem idKey handler items e = .ok items' ↔
      (∃ name, itemKey idKey e = some name ∧ ∃ r ∈ items, itemKey idKey r = some name) ∧
        items' = items.map (mergeAt idKey e) := by
  have hdef := he.isUndefined_eq_false
  cases hk : getKey idKey e with
  | error err =>
    -- the key is read before the element is looked for
    have hrefused : patchItem idKey handler items e = .error err := by
      rw [patchItem, analyzePatchMode_of_denotes he, hk]
      rfl
    rw [hrefused]
    refine iff_of_false (by simp) ?_
    rintro ⟨⟨name, hname, -⟩, -⟩
    have hget := (itemKey_eq_some_iff.mp hname).2
    rw [hk] at hget
    cases hget
  | ok name =>
    have hname : itemKey idKey e = some name := itemKey_eq_some_iff.mpr ⟨hdef, hk⟩
    cases hs : splitAtKey (itemKey idKey) (some name) items with
    | none =>
      rw [patchItem_merge_of_absent he hk hi hs]
      refine iff_of_false (by simp) ?_
      rintro ⟨⟨name', hname', r, hmem, hr⟩, -⟩
      obtain rfl := Option.some.inj (hname.symm.trans hname')
      exact splitAtKey_eq_none_iff.mp hs r hmem hr
    | some cut =>
      obtain ⟨pre, r, post⟩ := cut
      obtain ⟨rfl, hr, hpre⟩ := splitAtKey_eq_some hs
      rw [patchItem_merge_of_present he hw hk hi hr hs]
      have hothers : ∀ xs : List Yaml, (∀ x ∈ xs, itemKey idKey x ≠ some name) →
          xs.map (mergeAt idKey e) = xs := by
        intro xs hxs
        refine (List.map_congr_left fun x hx => ?_).trans (List.map_id xs)
        rw [mergeAt, hname, if_neg (hxs x hx)]
        rfl
      have hmap : (pre ++ r :: post).map (mergeAt idKey e) = pre ++ deepMerge r e :: post := by
        rw [List.map_append, List.map_cons, hothers pre hpre, hothers post (hd.not_mem_post hr),
          mergeAt, hname, if_pos hr]
      rw [hmap]
      constructor
      · intro h
        exact ⟨⟨name, hname, r, by simp, hr⟩, (Except.ok.inj h).symm⟩
      · rintro ⟨-, rfl⟩
        rfl

/-! ### All items -/

/-- The elements after all items. -/
def mergeAll (idKey : String) (ext : List Yaml) (r : Yaml) : Yaml :=
  (ext.filter fun e => itemKey idKey e = itemKey idKey r).foldl deepMerge r

theorem mergeAll_cons (hw : e.WellFormed) {name : String} (hk : itemKey idKey e = some name)
    (r : Yaml) : mergeAll idKey ext (mergeAt idKey e r) = mergeAll idKey (e :: ext) r := by
  unfold mergeAll
  rw [itemKey_mergeAt hw hk, List.filter_cons, mergeAt]
  by_cases hr : itemKey idKey r = itemKey idKey e
  · rw [if_pos hr, if_pos (by rw [hr]; exact decide_eq_true rfl), List.foldl_cons]
  · rw [if_neg hr, if_neg (by simpa using fun h => hr h.symm)]

/-- Every item has the key of an element. -/
def NamesElements (idKey : String) (items ext : List Yaml) : Prop :=
  ∀ e ∈ ext, ∃ name, itemKey idKey e = some name ∧ ∃ r ∈ items, itemKey idKey r = some name

theorem keyed_map {f : Yaml → Yaml} (hf : ∀ r, itemKey idKey (f r) = itemKey idKey r)
    (hi : Keyed idKey items) : Keyed idKey (items.map f) := by
  intro x hx
  obtain ⟨r, hr, rfl⟩ := List.mem_map.mp hx
  rw [hf]
  exact hi r hr

theorem distinct_map {f : Yaml → Yaml} (hf : ∀ r ∈ items, itemKey idKey (f r) = itemKey idKey r)
    (hd : Distinct (itemKey idKey) items) : Distinct (itemKey idKey) (items.map f) := by
  have hkeys : (items.map f).map (itemKey idKey) = items.map (itemKey idKey) := by
    rw [List.map_map]
    exact List.map_congr_left hf
  unfold Distinct
  rwa [hkeys]

/-- Elements and their keys: what an item needs does not depend on the contents. -/
theorem namesElements_map {f : Yaml → Yaml} (hf : ∀ r, itemKey idKey (f r) = itemKey idKey r) :
    NamesElements idKey (items.map f) ext ↔ NamesElements idKey items ext := by
  have hmem : ∀ name, (∃ r ∈ items.map f, itemKey idKey r = some name) ↔
      ∃ r ∈ items, itemKey idKey r = some name := by
    intro name
    simp only [List.mem_map, exists_exists_and_eq_and, hf]
  unfold NamesElements
  simp only [hmem]

/-- **The loop merges all items, if each of them names an element.** -/
theorem foldlM_patchItem_merge (he : ∀ e ∈ ext, MergeTagged e) (hw : ∀ e ∈ ext, e.WellFormed)
    (hi : Keyed idKey items) (hd : Distinct (itemKey idKey) items) {items' : List Yaml} :
    ext.foldlM (patchItem idKey handler) items = .ok items' ↔
      NamesElements idKey items ext ∧ items' = items.map (mergeAll idKey ext) := by
  induction ext generalizing items with
  | nil =>
    have hmap : items.map (mergeAll idKey []) = items := List.map_id items
    rw [List.foldlM_nil, hmap]
    simp [NamesElements, pure, Except.pure, eq_comm]
  | cons e ext ih =>
    have hhead := he e List.mem_cons_self
    have hwhead := hw e List.mem_cons_self
    have htail : ∀ {xs : List Yaml}, Keyed idKey xs → Distinct (itemKey idKey) xs →
        (ext.foldlM (patchItem idKey handler) xs = .ok items' ↔
          NamesElements idKey xs ext ∧ items' = xs.map (mergeAll idKey ext)) :=
      ih (fun x hx => he x (List.mem_cons_of_mem _ hx))
        (fun x hx => hw x (List.mem_cons_of_mem _ hx))
    rw [List.foldlM_cons, except_bind_eq_ok]
    constructor
    · rintro ⟨items₁, hstep, hrest⟩
      obtain ⟨⟨name, hname, hr⟩, rfl⟩ := (patchItem_merge hhead hwhead hi hd).mp hstep
      have hf := itemKey_mergeAt hwhead hname
      obtain ⟨hnames, rfl⟩ := (htail (keyed_map hf hi) (distinct_map (fun r _ => hf r) hd)).mp hrest
      refine ⟨?_, ?_⟩
      · intro x hx
        obtain rfl | hx := List.mem_cons.mp hx
        · exact ⟨name, hname, hr⟩
        · exact (namesElements_map hf).mp hnames x hx
      · rw [List.map_map]
        exact List.map_congr_left fun r _ => mergeAll_cons hwhead hname r
    · rintro ⟨hnames, rfl⟩
      obtain ⟨name, hname, hr⟩ := hnames e List.mem_cons_self
      have hf := itemKey_mergeAt hwhead hname
      refine ⟨items.map (mergeAt idKey e),
        (patchItem_merge hhead hwhead hi hd).mpr ⟨⟨name, hname, hr⟩, rfl⟩, ?_⟩
      refine (htail (keyed_map hf hi) (distinct_map (fun r _ => hf r) hd)).mpr ⟨?_, ?_⟩
      · exact (namesElements_map hf).mpr fun x hx => hnames x (List.mem_cons_of_mem _ hx)
      · rw [List.map_map]
        exact List.map_congr_left fun r _ => (mergeAll_cons hwhead hname r).symm

/-! ### What has become of the list -/

theorem itemKey_foldl_deepMerge {name : String} {es : List Yaml} (hw : ∀ e ∈ es, e.WellFormed)
    (hes : ∀ e ∈ es, itemKey idKey e = some name) {r : Yaml} (hr : itemKey idKey r = some name) :
    itemKey idKey (es.foldl deepMerge r) = some name := by
  induction es generalizing r with
  | nil => exact hr
  | cons e es ih =>
    have hget := (itemKey_eq_some_iff.mp (hes e List.mem_cons_self)).2
    exact ih (fun x hx => hw x (List.mem_cons_of_mem _ hx))
      (fun x hx => hes x (List.mem_cons_of_mem _ hx))
      (itemKey_deepMerge (hw e List.mem_cons_self) hr hget)

/-- Merging keeps the keys of the elements. -/
theorem itemKey_mergeAll (hw : ∀ e ∈ ext, e.WellFormed) (hi : Keyed idKey items) {r : Yaml}
    (hr : r ∈ items) : itemKey idKey (mergeAll idKey ext r) = itemKey idKey r := by
  obtain ⟨name, hname⟩ := hi r hr
  rw [hname]
  refine itemKey_foldl_deepMerge (fun e he => hw e (List.mem_filter.mp he).1) ?_ hname
  intro e he
  have hkey : itemKey idKey e = itemKey idKey r := by simpa using (List.mem_filter.mp he).2
  rw [hkey, hname]

/-- Elements that no item names stay as they are. -/
theorem mergeAll_of_not_mem {r : Yaml} (hr : itemKey idKey r ∉ ext.map (itemKey idKey)) :
    mergeAll idKey ext r = r := by
  have hnone : (ext.filter fun e => itemKey idKey e = itemKey idKey r) = [] := by
    refine List.filter_eq_nil_iff.mpr fun e he => ?_
    have hne : itemKey idKey e ≠ itemKey idKey r := fun h => hr (h ▸ List.mem_map_of_mem he)
    simpa using hne
  rw [mergeAll, hnone, List.foldl_nil]

theorem foldl_some_merge (es : List Yaml) (r : Yaml) :
    es.foldl (fun old e => some (old.elim e fun r => deepMerge r e)) (some r) =
      some (es.foldl deepMerge r) := by
  induction es generalizing r with
  | nil => rfl
  | cons e es ih => exact ih (deepMerge r e)

/-- The element of a key in a list whose keys a function keeps. -/
theorem slot_map_of_keeps {f : Yaml → Yaml}
    (hf : ∀ r ∈ items, itemKey idKey (f r) = itemKey idKey r) (k : Option String) :
    slot (itemKey idKey) k (items.map f) = (slot (itemKey idKey) k items).map f := by
  induction items with
  | nil => rfl
  | cons r items ih =>
    have htail := ih fun x hx => hf x (List.mem_cons_of_mem _ hx)
    unfold slot at htail ⊢
    rw [List.map_cons, splitAtKey, splitAtKey, hf r List.mem_cons_self]
    by_cases hr : itemKey idKey r = k
    · rw [if_pos hr, if_pos hr]
      rfl
    · rw [if_neg hr, if_neg hr, Option.map_map, Option.map_map, Option.map_map]
      rw [Option.map_map] at htail
      exact htail

/-- Where every item names an element, merging all of them is what is documented. -/
theorem mergedSlot_eq (hnames : NamesElements idKey items ext) (k : Option String) :
    mergedSlot idKey ext k (slot (itemKey idKey) k items) =
      (slot (itemKey idKey) k items).map (mergeAll idKey ext) := by
  unfold mergedSlot
  cases hs : splitAtKey (itemKey idKey) k items with
  | none =>
    have hslot : slot (itemKey idKey) k items = none := by rw [slot, hs]; rfl
    have hnone : (ext.filter fun e => itemKey idKey e = k) = [] := by
      refine List.filter_eq_nil_iff.mpr fun e he => ?_
      obtain ⟨name, hname, r, hr, hrname⟩ := hnames e he
      have hne : itemKey idKey e ≠ k := by
        rw [hname, ← hrname]
        exact splitAtKey_eq_none_iff.mp hs r hr
      simpa using hne
    rw [hslot, hnone]
    rfl
  | some cut =>
    obtain ⟨pre, r, post⟩ := cut
    obtain ⟨-, hr, -⟩ := splitAtKey_eq_some hs
    have hslot : slot (itemKey idKey) k items = some r := by rw [slot, hs]; rfl
    rw [hslot, foldl_some_merge, Option.map_some, mergeAll, hr]

theorem filter_map_mergeAll (hw : ∀ e ∈ ext, e.WellFormed) (hi : Keyed idKey items) :
    ((items.map (mergeAll idKey ext)).filter fun x => itemKey idKey x ∉ ext.map (itemKey idKey)) =
      items.filter fun x => itemKey idKey x ∉ ext.map (itemKey idKey) := by
  rw [List.filter_map]
  have hkeys : (items.filter ((fun x => decide (itemKey idKey x ∉ ext.map (itemKey idKey))) ∘
      mergeAll idKey ext)) = items.filter fun x => itemKey idKey x ∉ ext.map (itemKey idKey) := by
    refine List.filter_congr fun r hr => ?_
    show decide (itemKey idKey (mergeAll idKey ext r) ∉ _) = _
    rw [itemKey_mergeAll hw hi hr]
  rw [hkeys]
  refine (List.map_congr_left fun r hr => ?_).trans (List.map_id _)
  exact mergeAll_of_not_mem (by simpa using (List.mem_filter.mp hr).2)

/-! ### A patch list with a tag of its own -/

/-- The items of a key, which is one item at most. -/
theorem filter_itemKey_eq (hd : Distinct (itemKey idKey) ext) (k : Option String) :
    (ext.filter fun e => itemKey idKey e = k) = (slot (itemKey idKey) k ext).toList := by
  unfold slot
  cases hs : splitAtKey (itemKey idKey) k ext with
  | none => exact filter_key_eq_nil (splitAtKey_eq_none_iff.mp hs)
  | some cut =>
    obtain ⟨pre, e, post⟩ := cut
    obtain ⟨rfl, he, hpre⟩ := splitAtKey_eq_some hs
    rw [List.filter_append, List.filter_cons, filter_key_eq_nil hpre,
      filter_key_eq_nil (hd.not_mem_post he)]
    simp [he]

/-- Merging the items into the elements comes to replacing the elements by the items. -/
structure MergeIsReplace (idKey : String) (items ext : List Yaml) : Prop where
  distinct : Distinct (itemKey idKey) ext
  merged : ∀ r ∈ items, ∃ e ∈ ext, itemKey idKey e = itemKey idKey r ∧ deepMerge r e = e

theorem mergedSlot_of_distinct (hd : Distinct (itemKey idKey) ext) (k : Option String)
    (old : Option Yaml) : mergedSlot idKey ext k old =
      (slot (itemKey idKey) k ext).elim old fun e => some (old.elim e fun r => deepMerge r e) := by
  rw [mergedSlot, filter_itemKey_eq hd]
  cases slot (itemKey idKey) k ext <;> rfl

/-- Replacing the elements is what is documented where it is the same as merging. -/
theorem merged_iff_mergeIsReplace (hd : Distinct (itemKey idKey) items) :
    (Distinct (itemKey idKey) ext ∧
      (∀ k, slot (itemKey idKey) k ext =
        mergedSlot idKey ext k (slot (itemKey idKey) k items)) ∧
      (ext.filter fun x => itemKey idKey x ∉ ext.map (itemKey idKey)) =
        items.filter fun x => itemKey idKey x ∉ ext.map (itemKey idKey)) ↔
      MergeIsReplace idKey items ext := by
  constructor
  · rintro ⟨hext, hmerged, -⟩
    refine ⟨hext, fun r hr => ?_⟩
    have hslot := hmerged (itemKey idKey r)
    rw [slot_of_mem hd hr, mergedSlot_of_distinct hext] at hslot
    cases he : slot (itemKey idKey) (itemKey idKey r) ext with
    | none => simp [he] at hslot
    | some e =>
      simp only [he, Option.elim_some, Option.some.injEq] at hslot
      exact ⟨e, mem_of_slot he, key_of_slot he, hslot.symm⟩
  · rintro ⟨hext, hnamed⟩
    refine ⟨hext, fun k => ?_, ?_⟩
    · rw [mergedSlot_of_distinct hext]
      cases hr : slot (itemKey idKey) k items with
      | none => cases slot (itemKey idKey) k ext <;> rfl
      | some r =>
        obtain ⟨e, he, hke, hmerge⟩ := hnamed r (mem_of_slot hr)
        have hslot : slot (itemKey idKey) k ext = some e := by
          rw [← key_of_slot hr, ← hke]
          exact slot_of_mem hext he
        rw [hslot]
        exact congrArg some hmerge.symm
    · -- every key is a key of an item, so nothing is left on either side
      have hnone : ∀ xs : List Yaml, (∀ x ∈ xs, itemKey idKey x ∈ ext.map (itemKey idKey)) →
          (xs.filter fun x => itemKey idKey x ∉ ext.map (itemKey idKey)) = [] := by
        intro xs hxs
        refine List.filter_eq_nil_iff.mpr fun x hx => ?_
        simpa using hxs x hx
      rw [hnone ext fun x hx => List.mem_map_of_mem hx, hnone items]
      intro r hr
      obtain ⟨e, he, hkey, -⟩ := hnamed r hr
      exact hkey ▸ List.mem_map_of_mem he

/-! ### When the tag works -/

theorem mergesAsDocumented_of_namesElements (tr : String) {te : String}
    (hi : Keyed idKey items) (hd : Distinct (itemKey idKey) items)
    (hext : extractCustomTag (.seq te ext) = "") (hw : ∀ e ∈ ext, e.WellFormed)
    (he : ∀ e ∈ ext, MergeTagged e) (hnames : NamesElements idKey items ext) :
    MergesAsDocumented tr te items ext idKey handler (items.map (mergeAll idKey ext)) := by
  have hfold : ext.foldlM (patchItem idKey handler) items =
      .ok (items.map (mergeAll idKey ext)) :=
    (foldlM_patchItem_merge he hw hi hd).mpr ⟨hnames, rfl⟩
  have hkeeps : ∀ r ∈ items, itemKey idKey (mergeAll idKey ext r) = itemKey idKey r :=
    fun r hr => itemKey_mergeAll hw hi hr
  refine ⟨⟨tr, ?_⟩, distinct_map hkeeps hd, ?_, filter_map_mergeAll hw hi⟩
  · rw [patchListNode_seq hext, hfold]
    rfl
  · intro k
    rw [mergedSlot_eq hnames, slot_map_of_keeps hkeeps]

/-- **The tag `merge` works as documented exactly when every item names an element**, apart from
patch lists that replace the whole list. -/
theorem mergesAsDocumented_iff (tr te : String) (idKey : String) (handler : Handler)
    {items ext : List Yaml} (hi : Keyed idKey items) (hd : Distinct (itemKey idKey) items)
    (hw : ∀ e ∈ ext, e.WellFormed) (he : ∀ e ∈ ext, MergeTagged e) :
    (∃ items', MergesAsDocumented tr te items ext idKey handler items') ↔
      extractCustomTag (.seq te ext) = "" ∧ NamesElements idKey items ext ∨
        extractCustomTag (.seq te ext) = "override" ∧ MergeIsReplace idKey items ext := by
  by_cases hext : extractCustomTag (.seq te ext) = ""
  · rw [hext]
    constructor
    · rintro ⟨items', ⟨t, haccepted⟩, -, -, -⟩
      rw [patchListNode_seq hext] at haccepted
      obtain ⟨items₁, hfold, -⟩ := except_map_eq_ok.mp haccepted
      exact .inl ⟨rfl, ((foldlM_patchItem_merge he hw hi hd).mp hfold).1⟩
    · rintro (⟨-, hnames⟩ | ⟨hover, -⟩)
      · exact ⟨_, mergesAsDocumented_of_namesElements tr hi hd hext hw he hnames⟩
      · exact absurd hover (by decide)
  · constructor
    · rintro ⟨items', ⟨t, haccepted⟩, hdistinct, hmerged, huntouched⟩
      obtain ⟨hover, heq⟩ := (patchListNode_of_tagged hext).mp haccepted
      obtain ⟨-, rfl⟩ := Yaml.seq.inj heq
      exact .inr ⟨hover, (merged_iff_mergeIsReplace hd).mp ⟨hdistinct, hmerged, huntouched⟩⟩
    · rintro (⟨hnone, -⟩ | ⟨hover, hreplace⟩)
      · exact absurd hnone hext
      · obtain ⟨hdistinct, hmerged, huntouched⟩ := (merged_iff_mergeIsReplace hd).mpr hreplace
        have haccepted : patchListNode (.seq tr items) (.seq te ext) idKey handler =
            .ok (.seq te ext) := (patchListNode_of_tagged hext).mpr ⟨hover, rfl⟩
        exact ⟨ext, ⟨te, haccepted⟩, hdistinct, hmerged, huntouched⟩

/-- A list of three elements. -/
def threeItems : List Yaml :=
  [sampleItem "?" "a" "1", sampleItem "?" "b" "2", sampleItem "?" "c" "3"]

/-- A patch of two of them, in another order. -/
def mergeTwo : List Yaml :=
  [sampleItem "tag:yaml.org,2002:merge" "c" "4", sampleItem "tag:yaml.org,2002:merge" "a" "5"]

theorem mergesAsDocumented_sample : ∃ items',
    MergesAsDocumented "?" "?" threeItems mergeTwo "name" mergeHandler items' ∧
      slot (itemKey "name") (some "c") items' = some (sampleItem "?" "c" "4") ∧
      slot (itemKey "name") (some "b") items' = some (sampleItem "?" "b" "2") := by
  have hkeyed : Keyed "name" threeItems := by
    intro x hx
    obtain rfl | rfl | rfl : x = sampleItem "?" "a" "1" ∨ x = sampleItem "?" "b" "2" ∨
        x = sampleItem "?" "c" "3" := by simpa [threeItems] using hx
    · exact ⟨"a", by decide⟩
    · exact ⟨"b", by decide⟩
    · exact ⟨"c", by decide⟩
  have hnames : NamesElements "name" threeItems mergeTwo := by
    intro e he
    rcases List.mem_pair.mp he with rfl | rfl
    · exact ⟨"c", by decide, sampleItem "?" "c" "3", by decide, by decide⟩
    · exact ⟨"a", by decide, sampleItem "?" "a" "1", by decide, by decide⟩
  obtain ⟨items', hmerges⟩ := (mergesAsDocumented_iff "?" "?" "name" mergeHandler hkeyed
    (by unfold Distinct; decide) (by simp [mergeTwo, sampleItem, WellFormed, WellFormedFields])
    (by decide)).mpr (.inl ⟨by decide, hnames⟩)
  refine ⟨items', hmerges, ?_, ?_⟩
  · rw [hmerges.merged]
    decide
  · rw [hmerges.merged]
    decide

/-- A list of one element. -/
def oneItem (name : String) : List Yaml := [sampleItem "?" name "1"]

/-- A patch that gives the element `a` another value. -/
def mergeSample : List Yaml := [sampleItem "tag:yaml.org,2002:merge" "a" "2"]

/-- An item with a new key is not added. -/
theorem merge_refuses_new_key :
    patchListNode (.seq "?" (oneItem "b")) (.seq "?" mergeSample) "name" mergeHandler =
        .error (.nonExisted (sampleItem "tag:yaml.org,2002:merge" "a" "2")) ∧
      ¬ ∃ items', MergesAsDocumented "?" "?" (oneItem "b") mergeSample "name" mergeHandler
        items' := by
  have hrefused : patchListNode (.seq "?" (oneItem "b")) (.seq "?" mergeSample) "name"
      mergeHandler = .error (.nonExisted (sampleItem "tag:yaml.org,2002:merge" "a" "2")) := by
    decide
  refine ⟨hrefused, ?_⟩
  rintro ⟨items', ⟨t, haccepted⟩, -, -, -⟩
  rw [hrefused] at haccepted
  cases haccepted

end AimrtComm.Cfg
