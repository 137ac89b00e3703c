import AimrtComm.Cfg.Equiv.MergeTree
import AimrtComm.Cfg.Equiv.PatchEffect
import AimrtComm.Lib.RepeatedEdits

/-!
# A patch list that is applied twice

An item that merges, overrides or skips the element of its key, or that adds it only if it is not
there, has nothing more to do after it was applied (`settles_itemEffect`).  So a patch list of such
items with distinct keys gives the same list when it is applied to its own result
(`patchListNode_twice`).
-/

namespace AimrtComm

open Cfg PatchMode

/-- The tags of items that can be applied twice: an item without a tag, with `override` or `skip`
and any new word, or with `new.never` alone. -/
inductive Tagging.Repeatable : Tagging → Prop where
  | untagged : Repeatable .untagged
  | override (new : Option NewWord) : Repeatable (.words (some .override) new)
  | skip (new : Option NewWord) : Repeatable (.words (some .skip) new)
  | newNever : Repeatable (.words none (some .newNever))

namespace Cfg

open Yaml KeyedList

/-- An item with such a tag. -/
def RepeatableItem (item : Yaml) : Prop := ∃ t : Tagging, t.Denotes item ∧ t.Repeatable

variable {idKey : String} {items ext : List Yaml} {item : Yaml}

/-- The default handler merges. -/
theorem mergeHandler_eq (hw : item.WellFormed) (r : Yaml) :
    mergeHandler r item = .ok (deepMerge r item) := by
  rw [mergeHandler, mergeMapNode_eq_deepMerge r hw]

/-- An item without a tag merges into the element that is there. -/
theorem itemEffect_of_untagged (ht : Tagging.untagged.Denotes item) (hw : item.WellFormed) :
    itemEffect mergeHandler item none = .error (.nonExisted item) ∧
      ∀ r, itemEffect mergeHandler item (some r) = .ok (.here (deepMerge r item)) := by
  have hm := analyzePatchMode_of_denotes ht
  unfold itemEffect
  rw [hm]
  refine ⟨rfl, ?_⟩
  intro r
  show (mergeHandler r item).map Place.here = _
  rw [mergeHandler_eq hw]
  rfl

/-- What an item with a tag makes of the element that is there: itself, or what there was. -/
theorem itemEffect_some_of_words {action : Option Action} {new : Option NewWord}
    (ht : (Tagging.words action new).Denotes item)
    (hrep : (Tagging.words action new).Repeatable) (r : Yaml) :
    itemEffect mergeHandler item (some r) =
      .ok (.here (if action = some .skip then r else item)) := by
  have hm := analyzePatchMode_of_denotes ht
  unfold itemEffect
  rw [hm]
  cases hrep with
  | override => rcases new with - | (- | - | - | -) <;> rfl
  | skip => rcases new with - | (- | - | - | -) <;> rfl
  | newNever => rfl

/-- Where there is no element, it puts itself somewhere or leaves nothing, if it is accepted. -/
theorem itemEffect_none_of_words {action : Option Action} {new : Option NewWord}
    (ht : (Tagging.words action new).Denotes item) {p : Place Yaml}
    (hp : itemEffect mergeHandler item none = .ok p) :
    p = .head item ∨ p = .tail item ∨ p = .gone := by
  have hm := analyzePatchMode_of_denotes ht
  unfold itemEffect at hp
  rw [hm] at hp
  replace hp : absentEffect (Tagging.words action new).modes item = .ok p := hp
  unfold absentEffect at hp
  split_ifs at hp
  · exact .inl (Except.ok.inj hp).symm
  · exact .inr (.inl (Except.ok.inj hp).symm)
  · exact .inr (.inr (Except.ok.inj hp).symm)

theorem settles_of_untagged (ht : Tagging.untagged.Denotes item) (hw : item.WellFormed) :
    Settles (itemEffect mergeHandler item) := by
  obtain ⟨hnone, hsome⟩ := itemEffect_of_untagged ht hw
  constructor
  · intro s p x hp hx
    cases s with
    | none =>
      rw [hnone] at hp
      cases hp
    | some r =>
      obtain rfl := Except.ok.inj ((hsome r).symm.trans hp)
      obtain rfl := Option.some.inj hx
      rw [hsome, deepMerge_deepMerge hw]
  · intro s hp
    cases s with
    | none => exact hp
    | some r =>
      rw [hsome] at hp
      cases hp
  · intro x hp
    rw [hnone] at hp
    cases hp

theorem settles_of_words {action : Option Action} {new : Option NewWord}
    (ht : (Tagging.words action new).Denotes item)
    (hrep : (Tagging.words action new).Repeatable) : Settles (itemEffect mergeHandler item) := by
  have hsome := itemEffect_some_of_words ht hrep
  constructor
  · intro s p x hp hx
    rw [hsome]
    cases s with
    | none =>
      -- what it has placed is itself, which it finds the second time
      have hitem : x = item := by
        obtain rfl | rfl | rfl := itemEffect_none_of_words ht hp
        · exact (Option.some.inj hx).symm
        · exact (Option.some.inj hx).symm
        · cases hx
      rw [hitem, ite_self]
    | some r =>
      obtain rfl := Except.ok.inj ((hsome r).symm.trans hp)
      obtain rfl := Option.some.inj hx
      by_cases hskip : action = some .skip
      · rw [if_pos hskip]
      · rw [if_neg hskip, if_neg hskip]
  · intro s hp
    cases s with
    | none => exact hp
    | some r =>
      rw [hsome] at hp
      cases hp
  · intro x hp
    obtain h | h | h := itemEffect_none_of_words ht hp <;> cases h

/-- **An item that can be applied twice settles.** -/
theorem settles_itemEffect (h : RepeatableItem item) (hw : item.WellFormed) :
    Settles (itemEffect mergeHandler item) := by
  obtain ⟨t, ht, hrep⟩ := h
  cases t with
  | untagged => exact settles_of_untagged ht hw
  | words action new => exact settles_of_words ht hrep

/-! ### The keys of the items -/

/-- The key of an item, which can be a null. -/
def extName (idKey : String) (item : Yaml) : Option String := (getKey idKey item).toOption

theorem extName_eq {name : String} (h : getKey idKey item = .ok name) :
    extName idKey item = some name := by
  rw [extName, h]
  rfl

/-- What an item places has its key. -/
theorem respectsKey_of_repeatable (hrep : ∀ e ∈ ext, RepeatableItem e)
    (hw : ∀ e ∈ ext, e.WellFormed) (hget : ∀ e ∈ ext, ∃ name, getKey idKey e = .ok name) :
    RespectsKey (itemKey idKey) (extName idKey) (itemEffect mergeHandler) ext := by
  intro e he s hs p hp x hx
  obtain ⟨name, hname⟩ := hget e he
  obtain ⟨t, ht, -⟩ := hrep e he
  rw [extName_eq hname] at hs ⊢
  cases t with
  | untagged =>
    obtain ⟨hnone, hsome⟩ := itemEffect_of_untagged ht (hw e he)
    cases s with
    | none =>
      rw [hnone] at hp
      cases hp
    | some r =>
      obtain rfl := Except.ok.inj ((hsome r).symm.trans hp)
      obtain rfl := Option.some.inj hx
      exact itemKey_deepMerge (hw e he) (hs r rfl) hname
  | words action new =>
    have hkey : itemKey idKey e = some name :=
      itemKey_eq_some_iff.mpr ⟨ht.isUndefined_eq_false, hname⟩
    exact itemKey_of_itemEffect (keepsKey_mergeHandler idKey) (hw e he) hkey hs hp hx

/-! ### The list -/

/-- The loop changes nothing the second time. -/
theorem foldlM_patchItem_twice (hi : Keyed idKey items) (hd : Distinct (itemKey idKey) items)
    (hext : Distinct (extName idKey) ext) (hrep : ∀ e ∈ ext, RepeatableItem e)
    (hw : ∀ e ∈ ext, e.WellFormed) {items' : List Yaml}
    (h : ext.foldlM (patchItem idKey mergeHandler) items = .ok items') :
    ext.foldlM (patchItem idKey mergeHandler) items' = .ok items' := by
  have hget := getKey_of_foldlM_patchItem h
  have hek : ∀ e ∈ ext, ∃ name, getKey idKey e = .ok name ∧ extName idKey e = some name := by
    intro e he
    obtain ⟨name, hname⟩ := hget e he
    exact ⟨name, hname, extName_eq hname⟩
  have hrespects := respectsKey_of_repeatable hrep hw hget
  rw [foldlM_patchItem_eq_of_respectsKey hek hrespects hi hd] at h
  have hinv : Keyed idKey items' ∧ Distinct (itemKey idKey) items' := by
    refine foldlM_invariant (I := fun xs => Keyed idKey xs ∧ Distinct (itemKey idKey) xs) h
      ⟨hi, hd⟩ ?_
    rintro e he xs xs' ⟨hxi, hxd⟩ hs
    obtain ⟨name, -, hname⟩ := hek e he
    exact hxi.stepAt hrespects he hname hxd hs
  rw [foldlM_patchItem_eq_of_respectsKey hek hrespects hinv.1 hinv.2]
  exact foldlM_stepAt_twice hrespects hext
    (fun e he => settles_itemEffect (hrep e he) (hw e he)) hd h

/-- **A patch list changes nothing the second time.** -/
theorem patchListNode_twice (tr te idKey : String) {items ext : List Yaml}
    (hi : Keyed idKey items) (hd : Distinct (itemKey idKey) items)
    (hext : Distinct (extName idKey) ext) (hrep : ∀ e ∈ ext, RepeatableItem e)
    (hw : ∀ e ∈ ext, e.WellFormed) {r : Yaml}
    (h : patchListNode (.seq tr items) (.seq te ext) idKey mergeHandler = .ok r) :
    patchListNode r (.seq te ext) idKey mergeHandler = .ok r := by
  by_cases htag : extractCustomTag (.seq te ext) = ""
  · rw [patchListNode_seq htag] at h
    obtain ⟨items', hfold, rfl⟩ := except_map_eq_ok.mp h
    rw [patchListNode_seq htag, foldlM_patchItem_twice hi hd hext hrep hw hfold]
    rfl
  · obtain ⟨hover, rfl⟩ := (patchListNode_of_tagged htag).mp h
    exact (patchListNode_of_tagged htag).mpr ⟨hover, rfl⟩

/-- The default handler can be run by `deepMerge`. -/
theorem foldlM_patchItem_mergeHandler (hw : ∀ e ∈ ext, e.WellFormed) :
    ext.foldlM (patchItem idKey mergeHandler) items =
      ext.foldlM (patchItem idKey fun r e => .ok (deepMerge r e)) items := by
  refine foldlM_congr (I := fun _ => True) trivial ?_ (fun _ _ _ _ _ _ => trivial)
  intro e he xs _
  unfold patchItem patchExisting
  simp only [mergeHandler_eq (hw e he)]

/-- Two elements. -/
def twoItems : List Yaml := [sampleItem "?" "a" "1", sampleItem "?" "b" "2"]

/-- A patch that merges into `a`, adds `c` and skips `b`. -/
def repeatedSample : List Yaml :=
  [sampleItem "?" "a" "3", sampleItem "tag:yaml.org,2002:new+override" "c" "4",
    sampleItem "tag:yaml.org,2002:skip" "b" "5"]

/-- The elements after it. -/
def repeatedResult : List Yaml :=
  [sampleItem "tag:yaml.org,2002:new+override" "c" "4", sampleItem "?" "a" "3",
    sampleItem "?" "b" "2"]

theorem patchListNode_twice_sample :
    patchListNode (.seq "?" repeatedResult) (.seq "?" repeatedSample) "name" mergeHandler =
      .ok (.seq "?" repeatedResult) := by
  have hw : ∀ e ∈ repeatedSample, e.WellFormed := by
    simp [repeatedSample, sampleItem, WellFormed, WellFormedFields]
  have hfirst : patchListNode (.seq "?" twoItems) (.seq "?" repeatedSample) "name" mergeHandler =
      .ok (.seq "?" repeatedResult) := by
    rw [patchListNode_seq (by decide), foldlM_patchItem_mergeHandler hw]
    decide
  refine patchListNode_twice "?" "?" "name" ?_ ?_ ?_ ?_ hw hfirst
  · intro x hx
    obtain rfl | rfl := List.mem_pair.mp hx
    · exact ⟨"a", by decide⟩
    · exact ⟨"b", by decide⟩
  · unfold Distinct; decide
  · unfold Distinct; decide
  · intro e he
    unfold repeatedSample at he
    rw [List.mem_cons, List.mem_pair] at he
    obtain rfl | rfl | rfl := he
    · exact ⟨.untagged, by decide, .untagged⟩
    · exact ⟨.words (some .override) (some .new), by decide, .override (some .new)⟩
    · exact ⟨.words (some .skip) none, by decide, .skip none⟩

end Cfg

end AimrtComm
