import AimrtComm.Cfg.Equiv.PatchList
import AimrtComm.Lib.KeyedEdits

/-!
# Patch items as edits

What a patch item does to the list depends on the element of its key only.  `itemEffect` is that
dependence, whatever words the tag of the item has, and `patchItem_eq_stepAt` says that one turn
of the loop of `PatchListNode` is the edit it describes.  Two consequences for whole patch lists:
an element whose key no item names is left alone (`slot_foldlM_patchItem`), and a patch list whose
outcome is the patch list itself is one of the `Reproduces` lists
(`foldlM_patchItem_eq_self_iff`).
-/

namespace AimrtComm.Cfg

open Yaml KeyedList PatchMode

/-- Where the flags of an item put it when no element has its key. -/
def absentEffect (modes : PatchMode) (item : Yaml) : Except Error (Place Yaml) :=
  if modes.has newFront then .ok (.head item)
  else if modes.has newBack then .ok (.tail item)
  else if modes.has newNever then .ok .gone
  else .error (.nonExisted item)

/-- What the flags of an item make of the element `resI` of its key. -/
def existingEffect (handler : Handler) (modes : PatchMode) (item resI : Yaml) :
    Except Error (Place Yaml) :=
  let replaced : Except Error Yaml := if modes.has explicit then .ok item else handler resI item
  if modes.has override then replaced.map .here
  else if modes.has overrideFront then replaced.map .head
  else if modes.has overrideBack then replaced.map .tail
  else if modes.has skip then .ok (.here resI)
  else if modes.has delete then .ok .gone
  else if modes.has merge then (compareAndReplaceNode resI item).map .here
  else .error (.existed item)

/-- What becomes of the element of the item's key; `none` is a missing element. -/
def itemEffect (handler : Handler) (item : Yaml) (resI : Option Yaml) :
    Except Error (Place Yaml) := do
  let modes ← analyzePatchMode item
  match resI with
  | none => absentEffect modes item
  | some resI => existingEffect handler modes item resI

variable {idKey : String} {handler : Handler} {items ext : List Yaml} {item : Yaml}
  {modes : PatchMode}

/-! ### One item -/

theorem patchAbsent_eq_absentEffect :
    patchAbsent modes items item = (absentEffect modes item).map (Place.applyAbsent items) := by
  unfold patchAbsent absentEffect
  rw [pushFront_eq_cons]
  split_ifs <;> rfl

theorem patchExisting_eq_existingEffect (pre post : List Yaml) (r : Yaml) :
    patchExisting handler modes (pre ++ r :: post) item pre.length r
      = (existingEffect handler modes item r).map (Place.apply pre post) := by
  have hset : ∀ x, (pre ++ r :: post).set pre.length x = pre ++ x :: post := by simp
  have herase : (pre ++ r :: post).eraseIdx pre.length = pre ++ post := by
    simp [List.eraseIdx_append_of_length_le]
  unfold patchExisting existingEffect
  simp only [hset, herase, pushFront_eq_cons]
  generalize (if modes.has explicit = true then Except.ok item else handler r item) = o
  generalize compareAndReplaceNode r item = m
  cases o <;> cases m <;> split_ifs <;> rfl

/-- **One turn of the loop is the edit of the item.** -/
theorem patchItem_eq_stepAt {name : String} (hi : Keyed idKey items)
    (hk : getKey idKey item = .ok name) :
    patchItem idKey handler items item
      = stepAt (itemKey idKey) (some name) (itemEffect handler item) items := by
  rw [stepAt]
  unfold itemEffect
  cases hm : analyzePatchMode item with
  | error e =>
    rw [patchItem, hm]
    cases splitAtKey (itemKey idKey) (some name) items <;> rfl
  | ok modes =>
    cases hs : splitAtKey (itemKey idKey) (some name) items with
    | none =>
      rw [patchItem_of_absent hi hm hk hs]
      exact patchAbsent_eq_absentEffect
    | some s =>
      obtain ⟨pre, r, post⟩ := s
      obtain ⟨rfl, hr, -⟩ := splitAtKey_eq_some hs
      rw [patchItem_of_present hi hm hk hr hs]
      exact patchExisting_eq_existingEffect pre post r

/-- An edit places elements of the item's key. -/
theorem itemKey_of_itemEffect (hh : KeepsKey idKey handler) (hw : item.WellFormed)
    {name : String} (hk : itemKey idKey item = some name) {s : Option Yaml}
    (hs : ∀ r, s = some r → itemKey idKey r = some name) {p : Place Yaml}
    (hp : itemEffect handler item s = .ok p) {x : Yaml} (hx : p.elem? = some x) :
    itemKey idKey x = some name := by
  obtain ⟨hdef, hget⟩ := itemKey_eq_some_iff.mp hk
  obtain ⟨modes, -, hp⟩ := except_bind_eq_ok.mp hp
  cases s with
  | none =>
    unfold absentEffect at hp
    split_ifs at hp <;> cases hp <;>
      simp only [Place.elem?, reduceCtorEq, Option.some.injEq] at hx <;> exact hx ▸ hk
  | some r =>
    have hr := hs r rfl
    have hplace : ∀ (o : Except Error Yaml) (f : Yaml → Place Yaml),
        (∀ y, (f y).elem? = some y) → (∀ y, o = .ok y → itemKey idKey y = some name) →
        o.map f = .ok p → itemKey idKey x = some name := by
      intro o f hf ho h
      obtain ⟨y, hy, rfl⟩ := except_map_eq_ok.mp h
      rw [hf] at hx
      exact Option.some.inj hx ▸ ho y hy
    -- what replaces the element has its key
    have hreplaced : ∀ y, (if modes.has explicit = true then Except.ok item else handler r item)
        = .ok y → itemKey idKey y = some name := by
      intro y hy
      split_ifs at hy
      · exact Except.ok.inj hy ▸ hk
      · exact hh r item y name hw hr hget hy
    have hmerge : ∀ y, compareAndReplaceNode r item = .ok y → itemKey idKey y = some name := by
      intro y hy
      rw [compareAndReplaceNode_eq hw hdef hr hget] at hy
      exact Except.ok.inj hy ▸ itemKey_deepMerge hw hr hget
    replace hp : existingEffect handler modes item r = .ok p := hp
    rw [existingEffect] at hp
    generalize (if modes.has explicit = true then Except.ok item else handler r item) = replaced
      at hp hreplaced
    split_ifs at hp
    · exact hplace _ .here (fun _ => rfl) hreplaced hp
    · exact hplace _ .head (fun _ => rfl) hreplaced hp
    · exact hplace _ .tail (fun _ => rfl) hreplaced hp
    · exact hplace (.ok r) .here (fun _ => rfl) (fun y hy => Except.ok.inj hy ▸ hr) hp
    · cases hp
      simp [Place.elem?] at hx
    · exact hplace _ .here (fun _ => rfl) hmerge hp

theorem respectsKey_itemEffect (hh : KeepsKey idKey handler) (hi : Keyed idKey ext)
    (hw : ∀ e ∈ ext, e.WellFormed) :
    RespectsKey (itemKey idKey) (itemKey idKey) (itemEffect handler) ext := by
  intro e he s hs p hp x hx
  obtain ⟨name, hk⟩ := hi e he
  rw [hk] at hs ⊢
  exact itemKey_of_itemEffect hh (hw e he) hk hs hp hx

/-! ### Lists of items -/

/-- A patch list that is accepted has readable keys. -/
theorem getKey_of_foldlM_patchItem {items' : List Yaml}
    (h : ext.foldlM (patchItem idKey handler) items = .ok items') :
    ∀ e ∈ ext, ∃ name, getKey idKey e = .ok name := by
  induction ext generalizing items with
  | nil => simp
  | cons e ext ih =>
    rw [List.foldlM_cons, except_bind_eq_ok] at h
    obtain ⟨items₁, he, h⟩ := h
    intro x hx
    rcases List.mem_cons.mp hx with rfl | hx
    · rw [patchItem] at he
      obtain ⟨modes, -, he⟩ := except_bind_eq_ok.mp he
      obtain ⟨name, hk, -⟩ := except_bind_eq_ok.mp he
      exact ⟨name, hk⟩
    · exact ih h x hx

/-- Named by a field, an element with a readable key is not a null. -/
theorem keyed_of_getKey (hid : idKey ≠ "") (h : ∀ e ∈ ext, ∃ name, getKey idKey e = .ok name) :
    Keyed idKey ext := by
  intro e he
  obtain ⟨name, hk⟩ := h e he
  obtain ⟨t, fs, rfl, -⟩ := exists_map_of_getKey hid hk
  exact ⟨name, itemKey_eq_some_iff.mpr ⟨rfl, hk⟩⟩

/-- An edit keeps the elements readable, and their keys distinct. -/
theorem Keyed.stepAt {ek : Yaml → Option String}
    {eff : Yaml → Option Yaml → Except Error (Place Yaml)} {xs xs' : List Yaml} {e : Yaml}
    {name : String} (hr : RespectsKey (itemKey idKey) ek eff ext) (he : e ∈ ext)
    (hname : ek e = some name) (hxi : Keyed idKey xs) (hxd : Distinct (itemKey idKey) xs)
    (hs : KeyedList.stepAt (itemKey idKey) (ek e) (eff e) xs = .ok xs') :
    Keyed idKey xs' ∧ Distinct (itemKey idKey) xs' := by
  have hedit := stepAt_editsAt hr he hxd hs
  rw [hname] at hedit
  exact ⟨hxi.editsAt hedit, hedit.distinct hxd⟩

/-- The loop of `PatchListNode` as a sequence of edits, at keys `ek` that the edits keep. -/
theorem foldlM_patchItem_eq_of_respectsKey {ek : Yaml → Option String}
    (hek : ∀ e ∈ ext, ∃ name, getKey idKey e = .ok name ∧ ek e = some name)
    (hr : RespectsKey (itemKey idKey) ek (itemEffect handler) ext) (hi : Keyed idKey items)
    (hd : Distinct (itemKey idKey) items) :
    ext.foldlM (patchItem idKey handler) items
      = ext.foldlM (fun xs e => KeyedList.stepAt (itemKey idKey) (ek e) (itemEffect handler e) xs)
          items := by
  refine foldlM_congr (I := fun xs => Keyed idKey xs ∧ Distinct (itemKey idKey) xs) ⟨hi, hd⟩ ?_ ?_
  · rintro e he xs ⟨hxi, -⟩
    obtain ⟨name, hget, hname⟩ := hek e he
    rw [hname]
    exact patchItem_eq_stepAt hxi hget
  · rintro e he xs xs' ⟨hxi, hxd⟩ hs
    obtain ⟨name, -, hname⟩ := hek e he
    exact hxi.stepAt hr he hname hxd hs

/-- The same at the keys of the items themselves. -/
theorem foldlM_patchItem_eq_foldlM_stepAt (hh : KeepsKey idKey handler) (hi : Keyed idKey items)
    (hd : Distinct (itemKey idKey) items) (hk : Keyed idKey ext)
    (hw : ∀ e ∈ ext, e.WellFormed) :
    ext.foldlM (patchItem idKey handler) items
      = ext.foldlM
          (fun xs e => KeyedList.stepAt (itemKey idKey) (itemKey idKey e) (itemEffect handler e) xs)
          items := by
  refine foldlM_patchItem_eq_of_respectsKey ?_ (respectsKey_itemEffect hh hk hw) hi hd
  intro e he
  obtain ⟨name, hname⟩ := hk e he
  exact ⟨name, (itemKey_eq_some_iff.mp hname).2, hname⟩

/-- **When a patch list produces itself**: its elements have readable keys and carry out the
edits of a list that reproduces itself. -/
theorem foldlM_patchItem_eq_self_iff (hid : idKey ≠ "") (hh : KeepsKey idKey handler)
    (hi : Keyed idKey items) (hd : Distinct (itemKey idKey) items)
    (hw : ∀ e ∈ ext, e.WellFormed) :
    ext.foldlM (patchItem idKey handler) items = .ok ext ↔
      Keyed idKey ext ∧ Reproduces (itemKey idKey) (itemEffect handler) items ext := by
  constructor
  · intro h
    have hk := keyed_of_getKey hid (getKey_of_foldlM_patchItem h)
    rw [foldlM_patchItem_eq_foldlM_stepAt hh hi hd hk hw,
      foldlM_stepAt_eq_self_iff hd (respectsKey_itemEffect hh hk hw)] at h
    exact ⟨hk, h⟩
  · rintro ⟨hk, h⟩
    rw [foldlM_patchItem_eq_foldlM_stepAt hh hi hd hk hw,
      foldlM_stepAt_eq_self_iff hd (respectsKey_itemEffect hh hk hw)]
    exact h

end AimrtComm.Cfg
