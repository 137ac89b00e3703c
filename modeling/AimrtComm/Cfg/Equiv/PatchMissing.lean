import AimrtComm.Cfg.Equiv.PatchList

/-!
# Patching a list that does not exist

`PatchListNode` adopts the patch as a whole when the list is undefined or null, whatever the tags
of its items say, while an empty list is patched item by item.
`patchListNode_missing_iff_addsAll` says for which patches the two agree: those whose items have
distinct keys and are all added in their order, the first one by any new word but `new.never`,
the others by `new.back`.  In the other direction the number of elements forces every item to be
added (`patchItem_grows`), and an item added at the head after the first one would stay before it
(`foldlM_patchItem_grows`).
-/

namespace AimrtComm.Cfg

open Yaml PatchMode

variable {idKey : String} {handler : Handler} {items items' ext : List Yaml} {item : Yaml}

/-! ### Items that are added -/

/-- The item is added at the tail when no element has its key. -/
def AddsLast (item : Yaml) : Prop :=
  ∃ modes, analyzePatchMode item = .ok modes ∧ modes.has newFront = false ∧
    modes.has newBack = true

/-- The item is added when no element has its key. -/
def Adds (item : Yaml) : Prop :=
  ∃ modes, analyzePatchMode item = .ok modes ∧
    (modes.has newFront = true ∨ modes.has newBack = true)

/-- The items have distinct keys and are added to an empty list in their order. -/
def AddsAll (idKey : String) : List Yaml → Prop
  | [] => True
  | first :: rest => Adds first ∧ (∀ e ∈ rest, AddsLast e) ∧
    ∃ names : List String, (first :: rest).map (getKey idKey) = names.map .ok ∧ names.Nodup

theorem AddsLast.adds (h : AddsLast item) : Adds item := by
  obtain ⟨modes, hm, -, hb⟩ := h
  exact ⟨modes, hm, Or.inr hb⟩

/-- An item with a new word has a tag, so it is not a null. -/
theorem Adds.isUndefined_eq_false (h : Adds item) : IsUndefined item = false := by
  obtain ⟨modes, hm, hnew⟩ := h
  have hnil : ∀ node : Yaml, node.tag = "" → analyzePatchMode node = .ok override := by
    intro node hn
    rw [analyzePatchMode, if_pos]
    rw [extractCustomTag, hn]
    rfl
  have hcontra : analyzePatchMode item = .ok override → False := by
    intro ho
    obtain rfl := Except.ok.inj (hm.symm.trans ho)
    exact hnew.elim (by decide) (by decide)
  cases item with
  | undefined => exact (hcontra (hnil _ rfl)).elim
  | null => exact (hcontra (hnil _ rfl)).elim
  | _ => rfl

/-! ### One step -/

theorem keyed_of_map_eq {names : List String} (h : items.map (itemKey idKey) = names.map some) :
    Keyed idKey items := by
  intro x hx
  obtain ⟨k, -, hk⟩ := List.mem_map.mp (h ▸ List.mem_map_of_mem hx)
  exact ⟨k, hk.symm⟩

/-- The inner loop finds nothing exactly when the name is not among those of the elements. -/
theorem findItem_eq_none_iff {names : List String} {name : String}
    (h : items.map (itemKey idKey) = names.map some) :
    findItem idKey name items = .ok none ↔ name ∉ names := by
  rw [findItem_eq name (keyed_of_map_eq h), Except.ok.injEq, Option.map_eq_none_iff,
    KeyedList.splitAtKey_eq_none_iff]
  have hmem : some name ∈ items.map (itemKey idKey) ↔ name ∈ names := by rw [h]; simp
  rw [← hmem, List.mem_map]
  simp only [not_exists, not_and, ne_eq]

/-- Dealing with an element that is there does not make the list longer. -/
theorem length_le_of_patchExisting {modes : PatchMode} {resIdx : ℕ} {resI : Yaml}
    (hidx : resIdx < items.length)
    (h : patchExisting handler modes items item resIdx resI = .ok items') :
    items'.length ≤ items.length := by
  unfold patchExisting at h
  have herase := List.length_eraseIdx_of_lt hidx
  dsimp only at h
  generalize (if modes.has explicit then Except.ok item else handler resI item) = override at h
  split_ifs at h
  · obtain ⟨x, -, hx⟩ := except_bind_eq_ok.mp h
    obtain rfl := Except.ok.inj hx
    rw [List.length_set]
  · -- `override.front` and `override.back` move the element
    obtain ⟨x, -, hx⟩ := except_bind_eq_ok.mp h
    obtain rfl := Except.ok.inj hx
    rw [pushFront_eq_cons, List.length_cons]
    omega
  · obtain ⟨x, -, hx⟩ := except_bind_eq_ok.mp h
    obtain rfl := Except.ok.inj hx
    rw [List.length_append, List.length_singleton]
    omega
  · obtain rfl := Except.ok.inj h
    exact le_rfl
  · obtain rfl := Except.ok.inj h
    omega
  · obtain ⟨x, -, hx⟩ := except_bind_eq_ok.mp h
    obtain rfl := Except.ok.inj hx
    rw [List.length_set]

/-- The index found is one of the list, and the element found has the key. -/
theorem findItem_eq_some {name : String} {resIdx : ℕ} {resI : Yaml}
    (h : findItem idKey name items = .ok (some (resIdx, resI))) :
    resIdx < items.length ∧ resI ∈ items ∧ getKey idKey resI = .ok name := by
  induction items generalizing resIdx with
  | nil => simp [findItem] at h
  | cons i rest ih =>
    rw [findItem, except_bind_eq_ok] at h
    obtain ⟨k, hk, h⟩ := h
    split_ifs at h with hkn
    · simp only [pure, Except.pure, Except.ok.injEq, Option.some.injEq, Prod.mk.injEq] at h
      obtain ⟨rfl, rfl⟩ := h
      exact ⟨by simp, by simp, hkn ▸ hk⟩
    · rw [except_bind_eq_ok] at h
      obtain ⟨found, hf, h⟩ := h
      simp only [pure, Except.pure, Except.ok.injEq, Option.map_eq_some_iff] at h
      obtain ⟨⟨idx, r⟩, rfl, he⟩ := h
      simp only [Prod.mk.injEq] at he
      obtain ⟨rfl, rfl⟩ := he
      obtain ⟨h1, h2, h3⟩ := ih hf
      exact ⟨by simpa using h1, List.mem_cons_of_mem _ h2, h3⟩

theorem patchAbsent_eq_ok {modes : PatchMode}
    (h : patchAbsent modes items item = .ok items') :
    items' = items ∨ (modes.has newFront = true ∧ items' = item :: items) ∨
      (modes.has newFront = false ∧ modes.has newBack = true ∧ items' = items ++ [item]) := by
  unfold patchAbsent at h
  split_ifs at h with hf hb hn
  · exact Or.inr (Or.inl ⟨hf, by rw [← Except.ok.inj h, pushFront_eq_cons]⟩)
  · exact Or.inr (Or.inr ⟨by simpa using hf, hb, (Except.ok.inj h).symm⟩)
  · exact Or.inl (Except.ok.inj h).symm

/-- What one patch item does to a list of keyed elements: the list does not grow, or the item had
a new key and was added at one end. -/
theorem patchItem_grows {names : List String} (hi : items.map (itemKey idKey) = names.map some)
    (h : patchItem idKey handler items item = .ok items') :
    items'.length ≤ items.length ∨
      ∃ name, getKey idKey item = .ok name ∧ name ∉ names ∧
        (Adds item ∧ items' = item :: items ∨ AddsLast item ∧ items' = items ++ [item]) := by
  rw [patchItem, except_bind_eq_ok] at h
  obtain ⟨modes, hm, h⟩ := h
  rw [except_bind_eq_ok] at h
  obtain ⟨name, hk, h⟩ := h
  rw [except_bind_eq_ok] at h
  obtain ⟨found, hf, h⟩ := h
  cases found with
  | none =>
    have hn : name ∉ names := (findItem_eq_none_iff hi).mp hf
    rcases patchAbsent_eq_ok h with rfl | ⟨hfront, rfl⟩ | ⟨hfront, hback, rfl⟩
    · exact Or.inl le_rfl
    · exact Or.inr ⟨name, hk, hn, Or.inl ⟨⟨modes, hm, Or.inl hfront⟩, rfl⟩⟩
    · exact Or.inr ⟨name, hk, hn, Or.inr ⟨⟨modes, hm, hfront, hback⟩, rfl⟩⟩
  | some s =>
    obtain ⟨resIdx, resI⟩ := s
    obtain ⟨hidx, hmem, -⟩ := findItem_eq_some hf
    -- the element found has a key, so it is not a null
    obtain ⟨k, hresI⟩ := keyed_of_map_eq hi resI hmem
    simp only [(itemKey_eq_some_iff.mp hresI).1, Bool.false_eq_true, if_false] at h
    exact Or.inl (length_le_of_patchExisting hidx h)

/-- No patch item adds more than one element. -/
theorem length_le_of_patchItem (h : patchItem idKey handler items item = .ok items') :
    items'.length ≤ items.length + 1 := by
  rw [patchItem, except_bind_eq_ok] at h
  obtain ⟨modes, -, h⟩ := h
  rw [except_bind_eq_ok] at h
  obtain ⟨name, -, h⟩ := h
  rw [except_bind_eq_ok] at h
  obtain ⟨found, hf, h⟩ := h
  have habsent : patchAbsent modes items item = .ok items' →
      items'.length ≤ items.length + 1 := by
    intro h
    rcases patchAbsent_eq_ok h with rfl | ⟨-, rfl⟩ | ⟨-, -, rfl⟩ <;> simp
  cases found with
  | none => exact habsent h
  | some s =>
    obtain ⟨resIdx, resI⟩ := s
    simp only at h
    split_ifs at h
    · exact habsent h
    · exact (length_le_of_patchExisting (findItem_eq_some hf).1 h).trans (Nat.le_succ _)

theorem length_le_of_foldlM_patchItem
    (h : ext.foldlM (patchItem idKey handler) items = .ok items') :
    items'.length ≤ items.length + ext.length := by
  induction ext generalizing items with
  | nil =>
    obtain rfl : items = items' := by simpa [pure, Except.pure] using h
    exact le_rfl
  | cons e ext ih =>
    rw [List.foldlM_cons, except_bind_eq_ok] at h
    obtain ⟨mid, he, h⟩ := h
    have h1 := length_le_of_patchItem he
    have h2 := ih h
    rw [List.length_cons]
    omega

/-- An item that is added at the tail, when its key is new. -/
theorem patchItem_of_addsLast {names : List String} {name : String}
    (hi : items.map (itemKey idKey) = names.map some) (h : AddsLast item)
    (hk : getKey idKey item = .ok name) (hn : name ∉ names) :
    patchItem idKey handler items item = .ok (items ++ [item]) := by
  obtain ⟨modes, hm, hfront, hback⟩ := h
  rw [patchItem, hm, hk]
  simp only [bind, Except.bind, (findItem_eq_none_iff hi).mpr hn]
  simp [patchAbsent, hfront, hback]

/-- An item with a new word, in an empty list. -/
theorem patchItem_nil_of_adds {name : String} (h : Adds item)
    (hk : getKey idKey item = .ok name) : patchItem idKey handler [] item = .ok [item] := by
  obtain ⟨modes, hm, hnew⟩ := h
  rw [patchItem, hm, hk]
  show patchAbsent modes [] item = .ok [item]
  rw [patchAbsent, pushFront_eq_cons]
  rcases hnew with hfront | hback
  · rw [if_pos hfront]
  · rw [if_pos hback]
    split_ifs <;> rfl

theorem Adds.itemKey_eq {name : String} (h : Adds item) (hk : getKey idKey item = .ok name) :
    itemKey idKey item = some name :=
  itemKey_eq_some_iff.mpr ⟨h.isUndefined_eq_false, hk⟩

/-! ### The whole patch -/

theorem foldlM_patchItem_of_addsLast {names new : List String}
    (hi : items.map (itemKey idKey) = names.map some) (hl : ∀ e ∈ ext, AddsLast e)
    (hk : ext.map (getKey idKey) = new.map .ok) (hn : (names ++ new).Nodup) :
    ext.foldlM (patchItem idKey handler) items = .ok (items ++ ext) := by
  induction ext generalizing items names new with
  | nil => simp [pure, Except.pure]
  | cons e ext ih =>
    cases new with
    | nil => simp at hk
    | cons name new =>
      simp only [List.map_cons, List.cons.injEq] at hk
      have he := hl e List.mem_cons_self
      have hfresh : name ∉ names := by
        intro hmem
        rw [List.nodup_append] at hn
        exact hn.2.2 name hmem name List.mem_cons_self rfl
      rw [List.foldlM_cons, patchItem_of_addsLast hi he hk.1 hfresh]
      show ext.foldlM (patchItem idKey handler) (items ++ [e]) = _
      have hi' : (items ++ [e]).map (itemKey idKey) = (names ++ [name]).map some := by
        simp [hi, he.adds.itemKey_eq hk.1]
      rw [ih hi' (fun x hx => hl x (List.mem_cons_of_mem _ hx)) hk.2 (by simpa using hn)]
      simp

/-- When a patch makes the list longer by the number of its items, every item was added.  Either
all were added at the tail, or the first element is one that was not in the list. -/
theorem foldlM_patchItem_grows {names : List String}
    (hi : items.map (itemKey idKey) = names.map some)
    (h : ext.foldlM (patchItem idKey handler) items = .ok items')
    (hlen : items.length + ext.length ≤ items'.length) (hn : names.Nodup) :
    ((∀ e ∈ ext, AddsLast e) ∧ ∃ new : List String, ext.map (getKey idKey) = new.map .ok ∧
        (names ++ new).Nodup) ∨
      ∃ first name, items'.head? = some first ∧ getKey idKey first = .ok name ∧ name ∉ names := by
  induction ext generalizing items names with
  | nil => exact Or.inl ⟨by simp, [], rfl, by simpa using hn⟩
  | cons e ext ih =>
    rw [List.foldlM_cons, except_bind_eq_ok] at h
    obtain ⟨mid, he, h⟩ := h
    have hmid := length_le_of_foldlM_patchItem h
    rw [List.length_cons] at hlen
    rcases patchItem_grows hi he with hle | ⟨name, hk, hfresh, hadd⟩
    · omega
    rcases hadd with ⟨hadds, rfl⟩ | ⟨hlast, rfl⟩
    · -- added at the head: whatever follows, the first element is not one of `items`
      have hi' : (e :: items).map (itemKey idKey) = (name :: names).map some := by
        rw [List.map_cons, hadds.itemKey_eq hk, hi, List.map_cons]
      right
      rcases ih hi' h (by rw [List.length_cons]; omega) (List.nodup_cons.mpr ⟨hfresh, hn⟩) with
        ⟨hall, new, hnew, hnodup⟩ | ⟨first, name', hfirst, hk', hfresh'⟩
      · have hitems : ext.foldlM (patchItem idKey handler) (e :: items) = .ok (e :: items ++ ext) :=
          foldlM_patchItem_of_addsLast hi' hall hnew hnodup
        rw [h, Except.ok.injEq] at hitems
        exact ⟨e, name, by rw [hitems]; rfl, hk, hfresh⟩
      · exact ⟨first, name', hfirst, hk', fun hmem => hfresh' (List.mem_cons_of_mem _ hmem)⟩
    · have hi' : (items ++ [e]).map (itemKey idKey) = (names ++ [name]).map some := by
        simp [hi, hlast.adds.itemKey_eq hk]
      have hn' : (names ++ [name]).Nodup := by
        rw [List.nodup_append]
        refine ⟨hn, by simp, ?_⟩
        rintro a ha b hb rfl
        exact hfresh (List.mem_singleton.mp hb ▸ ha)
      rcases ih hi' h (by rw [List.length_append, List.length_singleton]; omega) hn' with
        ⟨hall, new, hnew, hnodup⟩ | ⟨first, name', hfirst, hk', hfresh'⟩
      · refine Or.inl ⟨?_, name :: new, by rw [List.map_cons, hk, hnew, List.map_cons],
          by simpa using hnodup⟩
        intro x hx
        rcases List.mem_cons.mp hx with rfl | hx
        · exact hlast
        · exact hall x hx
      · exact Or.inr ⟨first, name', hfirst, hk',
          fun hmem => hfresh' (List.mem_append_left _ hmem)⟩

/-- Patching the empty list gives the patch itself exactly when its items are all added in their
order. -/
theorem foldlM_patchItem_nil_iff_addsAll :
    ext.foldlM (patchItem idKey handler) [] = .ok ext ↔ AddsAll idKey ext := by
  cases ext with
  | nil => simp [AddsAll, pure, Except.pure]
  | cons e ext =>
    rw [List.foldlM_cons]
    constructor
    · intro h
      rw [except_bind_eq_ok] at h
      obtain ⟨mid, he, h⟩ := h
      have hlen := length_le_of_foldlM_patchItem h
      have hnil : ([] : List Yaml).map (itemKey idKey) = ([] : List String).map some := rfl
      rcases patchItem_grows hnil he with hle | ⟨name, hk, -, hadd⟩
      · simp only [List.length_cons, List.length_nil] at hlen hle
        omega
      have hadds : Adds e ∧ mid = [e] := by
        rcases hadd with ⟨hadds, rfl⟩ | ⟨hlast, rfl⟩
        · exact ⟨hadds, rfl⟩
        · exact ⟨hlast.adds, rfl⟩
      obtain ⟨hadds, rfl⟩ := hadds
      have hi : [e].map (itemKey idKey) = [name].map some := by
        rw [List.map_singleton, hadds.itemKey_eq hk, List.map_singleton]
      rcases foldlM_patchItem_grows hi h (Nat.add_comm _ _).le (by simp) with
        ⟨hall, new, hnew, hnodup⟩ | ⟨first, name', hfirst, hk', hfresh'⟩
      · exact ⟨hadds, hall, name :: new, by rw [List.map_cons, hk, hnew, List.map_cons], hnodup⟩
      · -- the first element of the result is `e`
        obtain rfl : e = first := by simpa using hfirst
        rw [hk, Except.ok.injEq] at hk'
        exact absurd (List.mem_singleton.mpr hk'.symm) hfresh'
    · rintro ⟨hadds, hall, names, hnames, hnodup⟩
      cases names with
      | nil => simp at hnames
      | cons name names =>
        simp only [List.map_cons, List.cons.injEq] at hnames
        rw [patchItem_nil_of_adds hadds hnames.1]
        have hi : [e].map (itemKey idKey) = [name].map some := by
          rw [List.map_singleton, hadds.itemKey_eq hnames.1, List.map_singleton]
        exact foldlM_patchItem_of_addsLast hi hall hnames.2 hnodup

/-- **When patching a missing list is patching an empty one**: the outcomes are the same, as lists
of elements or as the same error, exactly when the items of the patch have distinct keys, the
first has a new word other than `new.never`, and every other item is added by `new.back`. -/
theorem patchListNode_missing_iff_addsAll {res : Yaml} (hres : IsUndefined res = true)
    (tr te : String) (hext : extractCustomTag (.seq te ext) = "") :
    (patchListNode res (.seq te ext) idKey handler).map Yaml.items
        = (patchListNode (.seq tr []) (.seq te ext) idKey handler).map Yaml.items ↔
      AddsAll idKey ext := by
  have hmissing : patchListNode res (.seq te ext) idKey handler = .ok (.seq te ext) := by
    unfold patchListNode
    rw [if_neg (by simp [IsUndefined, isDefined, isNull]), if_pos (by simp [hres])]
  have hiff : ext.foldlM (patchItem idKey handler) [] = .ok ext ↔ AddsAll idKey ext :=
    foldlM_patchItem_nil_iff_addsAll
  rw [hmissing, patchListNode_seq hext, ← hiff]
  cases ext.foldlM (patchItem idKey handler) [] with
  | error e => simp [Except.map]
  | ok items => simp [Except.map, Yaml.items, eq_comm]

/-- A patch that deletes an element of a missing list adds the element instead. -/
theorem patchListNode_missing_ne_empty :
    (patchListNode .undefined (.seq "?" [sampleItem "tag:yaml.org,2002:delete" "a" "1"]) "name"
        mergeHandler).map Yaml.items
      ≠ (patchListNode (.seq "?" []) (.seq "?" [sampleItem "tag:yaml.org,2002:delete" "a" "1"])
        "name" mergeHandler).map Yaml.items := by
  decide

/-- A patch that adds two elements, the second one at the tail. -/
theorem patchListNode_missing_iff_addsAll_sample :
    (patchListNode .null (.seq "?" [sampleItem "tag:yaml.org,2002:new" "a" "1",
          sampleItem "tag:yaml.org,2002:new.back" "b" "2"]) "name" mergeHandler).map Yaml.items
      = (patchListNode (.seq "?" []) (.seq "?" [sampleItem "tag:yaml.org,2002:new" "a" "1",
          sampleItem "tag:yaml.org,2002:new.back" "b" "2"]) "name" mergeHandler).map
        Yaml.items := by
  refine (patchListNode_missing_iff_addsAll rfl "?" "?" (by decide)).mpr ⟨?_, ?_, ["a", "b"], ?_⟩
  · exact ⟨_, rfl, by decide⟩
  · intro e he
    obtain rfl := List.mem_singleton.mp he
    exact ⟨_, rfl, by decide⟩
  · decide

end AimrtComm.Cfg
