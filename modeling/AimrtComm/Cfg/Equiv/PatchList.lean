import AimrtComm.Cfg.Equiv.MergeMap
import AimrtComm.Cfg.Equiv.PatchMode
import AimrtComm.Cfg.PatchList
import AimrtComm.Lib.FoldExcept
import Mathlib.Data.List.Rotate

/-!
# `PatchListNode` follows the patch table

`patchListNode_eq_table`: on a list of elements with pairwise distinct keys, and for a patch whose
items have well-formed tags, `PatchListNode` is the fold of `PatchTable.step`, and every step
leaves the elements of the other keys alone and the keys distinct.  The proof compares one step of
the loop with one step of the table (`patchItem_eq_step`): the rotation of `PushFront` puts the
new element first, the index found by the inner loop is where the table cuts the list, and the
flags of a well-formed tag select the action of the table.
-/

namespace AimrtComm.Cfg

open Yaml KeyedList

/-! ### List operations -/

theorem rotateFront_eq_rotate {α : Type*} : ∀ (n : ℕ) (list : List α),
    rotateFront n list = list.rotate n
  | 0, list => by rw [rotateFront, List.rotate_zero]
  | n + 1, [] => by rw [rotateFront, List.rotate_nil]
  | n + 1, x :: list => by rw [rotateFront, rotateFront_eq_rotate n, List.rotate_cons_succ]

/-- `PushFront` puts the element first and keeps the order of the others. -/
theorem pushFront_eq_cons {α : Type*} (list : List α) (x : α) : pushFront list x = x :: list := by
  rw [pushFront, rotateFront_eq_rotate, List.length_append, List.length_singleton,
    Nat.add_sub_cancel, List.rotate_append_length_eq]
  rfl

/-! ### Keys -/

/-- The key of an element that is there: a null counts as missing. -/
def itemKey (idKey : String) (node : Yaml) : Option String :=
  if IsUndefined node then none else (getKey idKey node).toOption

theorem itemKey_eq_some_iff {idKey k : String} {node : Yaml} :
    itemKey idKey node = some k ↔ IsUndefined node = false ∧ getKey idKey node = .ok k := by
  unfold itemKey
  cases IsUndefined node <;> cases getKey idKey node <;> simp [Except.toOption]

/-- All elements of the list have a key. -/
def Keyed (idKey : String) (items : List Yaml) : Prop :=
  ∀ x ∈ items, ∃ k, itemKey idKey x = some k

/-- The handler keeps the key of an element. -/
def KeepsKey (idKey : String) (handler : Handler) : Prop :=
  ∀ r e r' k, e.WellFormed → itemKey idKey r = some k → getKey idKey e = .ok k →
    handler r e = .ok r' → itemKey idKey r' = some k

/-- The inner loop finds the element at which the table cuts the list. -/
theorem findItem_eq {idKey : String} (name : String) {items : List Yaml}
    (h : Keyed idKey items) :
    findItem idKey name items
      = .ok ((splitAtKey (itemKey idKey) (some name) items).map fun s => (s.1.length, s.2.1)) := by
  induction items with
  | nil => rfl
  | cons i rest ih =>
    obtain ⟨k, hk⟩ := h i List.mem_cons_self
    rw [findItem, (itemKey_eq_some_iff.mp hk).2, splitAtKey, hk,
      ih fun x hx => h x (List.mem_cons_of_mem _ hx)]
    by_cases hkn : k = name
    · subst hkn
      simp [bind, Except.bind, pure, Except.pure]
    · simp only [bind, Except.bind, hkn, if_false, pure, Except.pure, Option.some.injEq,
        Option.map_map, Except.ok.injEq]
      rfl

/-! ### Merging keeps the key -/

/-- The text of a node that is not undefined. -/
theorem asString_deepMerge {r e : Yaml} {k : String} (hr : r.asString = .ok k)
    (he : e.asString = .ok k) : (deepMerge r e).asString = .ok k := by
  cases e with
  | null => rwa [deepMerge]
  | scalar t s => rwa [deepMerge]
  | _ => simp [asString] at he

/-- An element whose key is one of its fields is a map. -/
theorem exists_map_of_getKey {idKey k : String} (hid : idKey ≠ "") {node : Yaml}
    (h : getKey idKey node = .ok k) :
    ∃ t fs, node = map t fs ∧ (Assoc.get undefined idKey fs).asString = .ok k := by
  rw [getKey, if_neg hid] at h
  cases node with
  | map t fs => exact ⟨t, fs, rfl, h⟩
  | _ => simp [Yaml.get, asString, bind, Except.bind] at h

/-- A field with a text is one of the fields that iteration yields. -/
theorem mem_fields_of_asString {key k : String} {t : String} {fs : List (String × Yaml)}
    (h : (Assoc.get undefined key fs).asString = .ok k) :
    (key, Assoc.get undefined key fs) ∈ (map t fs).fields := by
  refine mem_fields_of_isDefined ?_
  cases hv : Assoc.get undefined key fs <;> simp_all [asString, isDefined]

/-- Merging an element of key `k` with a patch item of the same key gives an element of key
`k`. -/
theorem itemKey_deepMerge {idKey k : String} {r e : Yaml} (he : e.WellFormed)
    (hr : itemKey idKey r = some k) (hk : getKey idKey e = .ok k) :
    itemKey idKey (deepMerge r e) = some k := by
  obtain ⟨hrdef, hrk⟩ := itemKey_eq_some_iff.mp hr
  rw [itemKey_eq_some_iff]
  by_cases hid : idKey = ""
  · rw [getKey, if_pos hid] at hrk hk ⊢
    refine ⟨?_, asString_deepMerge hrk hk⟩
    cases e <;> simp_all [deepMerge, IsUndefined, isDefined, isNull, asString]
  · obtain ⟨tr, rs, rfl, hrv⟩ := exists_map_of_getKey hid hrk
    obtain ⟨t, fs, rfl, hev⟩ := exists_map_of_getKey hid hk
    refine ⟨by rw [deepMerge_map]; rfl, ?_⟩
    rw [deepMerge_map, getKey, if_neg hid, Yaml.get]
    show (Assoc.get undefined idKey _).asString = .ok k
    rw [Assoc.get_upsertAll_of_mem he.fields_nodup (mem_fields_of_asString hev)]
    exact asString_deepMerge hrv hev

/-- The default handler keeps the key. -/
theorem keepsKey_mergeHandler (idKey : String) : KeepsKey idKey mergeHandler := by
  intro r e r' k he hr hk h
  obtain rfl := Except.ok.inj h
  rw [mergeMapNode_eq_deepMerge r he]
  exact itemKey_deepMerge he hr hk

/-- On elements of one key, `CompareAndReplaceNode` is the recursive merge. -/
theorem compareAndReplaceNode_eq {idKey k : String} {r e : Yaml} (he : e.WellFormed)
    (hedef : IsUndefined e = false) (hr : itemKey idKey r = some k)
    (hk : getKey idKey e = .ok k) : compareAndReplaceNode r e = .ok (deepMerge r e) := by
  obtain ⟨-, hrk⟩ := itemKey_eq_some_iff.mp hr
  by_cases hid : idKey = ""
  · -- the elements are scalars
    rw [getKey, if_pos hid] at hk
    cases e <;> simp_all [asString, IsUndefined, isDefined, isNull, compareAndReplaceNode, isMap,
      isSequence, deepMerge]
  · obtain ⟨tr, rs, rfl, -⟩ := exists_map_of_getKey hid hrk
    obtain ⟨t, fs, rfl, -⟩ := exists_map_of_getKey hid hk
    rw [compareAndReplaceNode, mergeMapNode_eq_deepMerge _ he]
    rfl

/-! ### One step -/

/-- The effect that the table gives to a patch item. -/
def tableStep (idKey : String) (handler : Handler) (t : Tagging) (items : List Yaml)
    (item : Yaml) : Except Error (List Yaml) := do
  let name ← getKey idKey item
  PatchTable.step (itemKey idKey) handler (fun r e => .ok (deepMerge r e)) Error.nonExisted
    Error.existed (some name) t item items

theorem patchAbsent_eq (t : Tagging) (items : List Yaml) (item : Yaml) :
    patchAbsent t.modes items item = PatchTable.absent Error.nonExisted t item items := by
  unfold patchAbsent
  rw [pushFront_eq_cons]
  rcases t with - | ⟨- | (- | - | - | - | - | -), - | (- | - | - | -)⟩ <;> rfl

/-- The branches for an element that is there select the action of the tag. -/
theorem patchExisting_eq {idKey k : String} {handler : Handler} {t : Tagging} {item : Yaml}
    (ht : t.Denotes item) (hw : item.WellFormed) {r : Yaml} (hr : itemKey idKey r = some k)
    (hk : getKey idKey item = .ok k) (pre post : List Yaml) :
    patchExisting handler t.modes (pre ++ r :: post) item pre.length r
      = PatchTable.present handler (fun r e => .ok (deepMerge r e)) Error.existed t item pre r
          post := by
  have hset : ∀ x, (pre ++ r :: post).set pre.length x = pre ++ x :: post := by simp
  have herase : (pre ++ r :: post).eraseIdx pre.length = pre ++ post := by
    simp [List.eraseIdx_append_of_length_le]
  unfold patchExisting
  simp only [hset, herase, pushFront_eq_cons]
  cases t with
  | untagged =>
    show (do return pre ++ (← handler r item) :: post)
      = (handler r item).map fun r' => pre ++ r' :: post
    cases handler r item <;> rfl
  | words action new =>
    have hmerge : compareAndReplaceNode r item = .ok (deepMerge r item) :=
      compareAndReplaceNode_eq hw ht.isUndefined_eq_false hr hk
    simp only [hmerge]
    rcases action with - | (- | - | - | - | - | -) <;> rcases new with - | (- | - | - | -) <;> rfl

/-- A turn of the loop when no element has the name of the item. -/
theorem patchItem_of_absent {idKey name : String} {handler : Handler} {modes : PatchMode}
    {items : List Yaml} {item : Yaml} (hi : Keyed idKey items)
    (hm : analyzePatchMode item = .ok modes) (hk : getKey idKey item = .ok name)
    (hs : splitAtKey (itemKey idKey) (some name) items = none) :
    patchItem idKey handler items item = patchAbsent modes items item := by
  have hfind : findItem idKey name items = .ok none := by rw [findItem_eq name hi, hs]; rfl
  rw [patchItem, hm, hk]
  simp only [bind, Except.bind, hfind]

/-- A turn of the loop when an element has the name of the item: it has a key, so it is not a
null. -/
theorem patchItem_of_present {idKey name : String} {handler : Handler} {modes : PatchMode}
    {pre post : List Yaml} {r item : Yaml} (hi : Keyed idKey (pre ++ r :: post))
    (hm : analyzePatchMode item = .ok modes) (hk : getKey idKey item = .ok name)
    (hr : itemKey idKey r = some name)
    (hs : splitAtKey (itemKey idKey) (some name) (pre ++ r :: post) = some (pre, r, post)) :
    patchItem idKey handler (pre ++ r :: post) item
      = patchExisting handler modes (pre ++ r :: post) item pre.length r := by
  have hfind : findItem idKey name (pre ++ r :: post) = .ok (some (pre.length, r)) := by
    rw [findItem_eq name hi, hs]
    rfl
  have hdef : IsUndefined r = false := (itemKey_eq_some_iff.mp hr).1
  rw [patchItem, hm, hk]
  simp only [bind, Except.bind, hfind, hdef, Bool.false_eq_true, if_false]

/-- **One turn of the loop of `PatchListNode` is one step of the table.** -/
theorem patchItem_eq_step {idKey : String} {handler : Handler} {t : Tagging} {item : Yaml}
    (ht : t.Denotes item) (hw : item.WellFormed) {items : List Yaml} (hi : Keyed idKey items) :
    patchItem idKey handler items item = tableStep idKey handler t items item := by
  have hm := analyzePatchMode_of_denotes ht
  cases hk : getKey idKey item with
  | error e =>
    rw [patchItem, tableStep, hm, hk]
    rfl
  | ok name =>
    rw [tableStep, hk]
    show _ = PatchTable.step _ _ _ _ _ _ _ _ _
    rw [PatchTable.step]
    cases hs : splitAtKey (itemKey idKey) (some name) items with
    | none =>
      rw [patchItem_of_absent hi hm hk hs]
      exact patchAbsent_eq t items item
    | some s =>
      obtain ⟨pre, r, post⟩ := s
      obtain ⟨rfl, hr, -⟩ := splitAtKey_eq_some hs
      rw [patchItem_of_present hi hm hk hr hs]
      exact patchExisting_eq ht hw hr hk pre post

/-- A step of the table edits the list at the key of the item. -/
theorem tableStep_editsAt {idKey : String} {handler : Handler} (hh : KeepsKey idKey handler)
    {t : Tagging} {item : Yaml} (ht : t.Denotes item) (hw : item.WellFormed)
    {items items' : List Yaml} (hd : Distinct (itemKey idKey) items)
    (h : tableStep idKey handler t items item = .ok items') :
    ∃ name, getKey idKey item = .ok name ∧
      EditsAt (itemKey idKey) (some name) items items' := by
  rw [tableStep, except_bind_eq_ok] at h
  obtain ⟨name, hk, h⟩ := h
  refine ⟨name, hk, PatchTable.step_editsAt hd ?_ ?_ ?_ h⟩
  · intro hne
    cases t with
    | untagged => exact absurd rfl hne
    | words action new => exact itemKey_eq_some_iff.mpr ⟨ht.isUndefined_eq_false, hk⟩
  · exact fun r _ hr r' hr' => hh r item r' name hw hr hk hr'
  · rintro - r - hr r' hr'
    obtain rfl := Except.ok.inj hr'
    exact itemKey_deepMerge hw hr hk

theorem Keyed.editsAt {idKey name : String} {items items' : List Yaml} (h : Keyed idKey items)
    (he : EditsAt (itemKey idKey) (some name) items items') : Keyed idKey items' := by
  intro x hx
  by_cases hk : itemKey idKey x = some name
  · exact ⟨name, hk⟩
  · exact h x ((he.mem_iff hk).mp hx)

/-! ### The whole list -/

/-- The loop of `PatchListNode` on a sequence, for a patch sequence without a tag of its own. -/
theorem patchListNode_seq {tr te : String} {items ext : List Yaml} {idKey : String}
    {handler : Handler} (hext : extractCustomTag (.seq te ext) = "") :
    patchListNode (.seq tr items) (.seq te ext) idKey handler
      = (ext.foldlM (patchItem idKey handler) items).map (.seq tr) := by
  have hover : hasExplicitOverridePatchMode (.seq te ext) = .ok false := by
    simp [hasExplicitOverridePatchMode, hext]
  unfold patchListNode
  rw [hover]
  cases h : ext.foldlM (patchItem idKey handler) items <;>
    simp [IsUndefined, isDefined, isNull, isSequence, Yaml.items, h, bind, Except.bind,
      Except.map, pure, Except.pure]

/-- A patch list with a tag of its own is accepted only to replace the list. -/
theorem patchListNode_of_tagged {tr te : String} {items ext : List Yaml} {idKey : String}
    {handler : Handler} (htag : extractCustomTag (.seq te ext) ≠ "") {r : Yaml} :
    patchListNode (.seq tr items) (.seq te ext) idKey handler = .ok r ↔
      extractCustomTag (.seq te ext) = "override" ∧ r = .seq te ext := by
  have hstart : patchListNode (.seq tr items) (.seq te ext) idKey handler = (do
      if ← hasExplicitOverridePatchMode (.seq te ext) then return .seq te ext
      return .seq tr (← ext.foldlM (patchItem idKey handler) items)) := rfl
  have hover : hasExplicitOverridePatchMode (.seq te ext) =
      if extractCustomTag (.seq te ext) = "override" then .ok true
      else .error (.unsupportedMode (.seq te ext) te) := if_pos htag
  rw [hstart, hover]
  by_cases hword : extractCustomTag (.seq te ext) = "override"
  · rw [if_pos hword]
    simp [bind, Except.bind, pure, Except.pure, hword, eq_comm]
  · rw [if_neg hword]
    simp [bind, Except.bind, hword]

variable {idKey : String} {handler : Handler} {items ext : List Yaml} {tagging : Yaml → Tagging}

/-- The elements stay keyed and distinct while the table is applied. -/
theorem foldlM_tableStep_invariant (hh : KeepsKey idKey handler) (hi : Keyed idKey items)
    (hd : Distinct (itemKey idKey) items) (hw : ∀ e ∈ ext, e.WellFormed)
    (ht : ∀ e ∈ ext, (tagging e).Denotes e) {items' : List Yaml}
    (h : ext.foldlM (fun xs e => tableStep idKey handler (tagging e) xs e) items = .ok items') :
    Keyed idKey items' ∧ Distinct (itemKey idKey) items' := by
  refine foldlM_invariant (I := fun xs => Keyed idKey xs ∧ Distinct (itemKey idKey) xs) h
    ⟨hi, hd⟩ ?_
  rintro e he xs xs' ⟨hxi, hxd⟩ hs
  obtain ⟨name, -, hedit⟩ := tableStep_editsAt hh (ht e he) (hw e he) hxd hs
  exact ⟨hxi.editsAt hedit, hedit.distinct hxd⟩

/-- The loop of `PatchListNode` is the fold of the table. -/
theorem foldlM_patchItem_eq (hh : KeepsKey idKey handler) (hi : Keyed idKey items)
    (hd : Distinct (itemKey idKey) items) (hw : ∀ e ∈ ext, e.WellFormed)
    (ht : ∀ e ∈ ext, (tagging e).Denotes e) :
    ext.foldlM (patchItem idKey handler) items
      = ext.foldlM (fun xs e => tableStep idKey handler (tagging e) xs e) items := by
  refine foldlM_congr (I := fun xs => Keyed idKey xs ∧ Distinct (itemKey idKey) xs) ⟨hi, hd⟩ ?_ ?_
  · rintro e he xs ⟨hxi, -⟩
    exact patchItem_eq_step (ht e he) (hw e he) hxi
  · rintro e he xs xs' ⟨hxi, hxd⟩ hs
    obtain ⟨name, -, hedit⟩ := tableStep_editsAt hh (ht e he) (hw e he) hxd hs
    exact ⟨hxi.editsAt hedit, hedit.distinct hxd⟩

/-- **`PatchListNode` follows the patch table.**  On elements of pairwise distinct keys and patch
items of well-formed tags it returns the fold of the table's steps, or its error; and each step
leaves the elements of all other keys as they are, in their order, with the keys still
distinct. -/
theorem patchListNode_eq_table (hh : KeepsKey idKey handler) (tr te : String)
    (hi : Keyed idKey items) (hd : Distinct (itemKey idKey) items)
    (hext : extractCustomTag (.seq te ext) = "") (hw : ∀ e ∈ ext, e.WellFormed)
    (ht : ∀ e ∈ ext, (tagging e).Denotes e) :
    patchListNode (.seq tr items) (.seq te ext) idKey handler
        = (ext.foldlM (fun xs e => tableStep idKey handler (tagging e) xs e) items).map (.seq tr) ∧
      ∀ done e todo xs xs', ext = done ++ e :: todo →
        done.foldlM (fun xs e => tableStep idKey handler (tagging e) xs e) items = .ok xs →
        tableStep idKey handler (tagging e) xs e = .ok xs' →
        ∃ name, getKey idKey e = .ok name ∧ EditsAt (itemKey idKey) (some name) xs xs' ∧
          Distinct (itemKey idKey) xs' := by
  constructor
  · rw [patchListNode_seq hext, foldlM_patchItem_eq hh hi hd hw ht]
  · rintro done e todo xs xs' rfl hdone hstep
    have he : e ∈ done ++ e :: todo := by simp
    obtain ⟨-, hxd⟩ := foldlM_tableStep_invariant hh hi hd
      (fun x hx => hw x (List.mem_append_left _ hx)) (fun x hx => ht x (List.mem_append_left _ hx))
      hdone
    obtain ⟨name, hk, hedit⟩ := tableStep_editsAt hh (ht e he) (hw e he) hxd hstep
    exact ⟨name, hk, hedit, hedit.distinct hxd⟩

/-- An element with a name and a value. -/
def sampleItem (tag name value : String) : Yaml :=
  .map tag [("name", .scalar "?" name), ("value", .scalar "?" value)]

/-- A patch of the elements `a` and `b` that adds `c`, merges into `a` and moves `b` to the
head. -/
theorem patchListNode_eq_table_sample :
    patchListNode (.seq "?" [sampleItem "?" "a" "1", sampleItem "?" "b" "2"])
        (.seq "?" [sampleItem "tag:yaml.org,2002:new" "c" "3", sampleItem "?" "a" "4",
          sampleItem "tag:yaml.org,2002:override.front + new.never" "b" "5"])
        "name" (fun r e => .ok (deepMerge r e))
      = .ok (.seq "?" [sampleItem "tag:yaml.org,2002:override.front + new.never" "b" "5",
          sampleItem "tag:yaml.org,2002:new" "c" "3", sampleItem "?" "a" "4"]) := by
  refine (@patchListNode_eq_table _ _ _ _ (fun e =>
      if e.tag = "?" then .untagged
      else if e.tag = "tag:yaml.org,2002:new" then .words none (some .new)
      else .words (some .overrideFront) (some .newNever)) ?_ "?" "?" ?_ ?_ ?_ ?_ ?_).1.trans ?_
  · intro r e r' k he hr hk h
    exact Except.ok.inj h ▸ itemKey_deepMerge he hr hk
  · intro x hx
    rcases List.mem_pair.mp hx with rfl | rfl
    · exact ⟨"a", by decide⟩
    · exact ⟨"b", by decide⟩
  · unfold Distinct; decide
  · decide
  · simp [sampleItem, WellFormed, WellFormedFields]
  · decide
  · decide

end AimrtComm.Cfg
