import AimrtComm.Cfg.Equiv.MergeAimRT

/-!
# What the merge of the user's configuration leaves of the program's own

The user's configuration is laid over the program's own one (`Overlays`): a path that it does not
cover keeps its value, and its scalars win.  This holds of maps (`overlays_mergeHandler`), of lists
as wholes (`overlays_mergeListNode`), of backends with lists in them
(`overlays_mergeMapNodeWithSubList`), and, as far as the first half goes, of the sections
(`keeps_mergeSection`).

The lists that are merged by names hold exactly what the user names, every element laid over the
program's own one of the name (`mergeListNode_elements`).  `mergeAimRTNode_overlays` puts the two
views together for the whole configuration.
-/

namespace AimrtComm.Cfg

open Yaml KeyedList

variable {res ext out e r m : Yaml} {idKey name : String} {handler : Handler} {p : List String}

/-! ### Overlays -/

/-- The paths that `ext` does not cover keep their values. -/
def Keeps (res ext out : Yaml) : Prop :=
  ∀ p, (res.nodeAt p).isDefined = true → covers ext p = false → out.nodeAt p = res.nodeAt p

/-- A value that is neither missing nor made of others. -/
def isLeaf (node : Yaml) : Bool := !IsUndefined node && !node.isMap && !node.isSequence

/-- `out` is `res` with `ext` laid over it. -/
structure Overlays (res ext out : Yaml) : Prop where
  keeps : Keeps res ext out
  wins : ∀ p, isLeaf (ext.nodeAt p) = true → out.nodeAt p = ext.nodeAt p

theorem isLeaf_iff : isLeaf e = true ↔
    IsUndefined e = false ∧ e.isMap = false ∧ e.isSequence = false := by
  unfold isLeaf
  rw [Bool.and_eq_true, Bool.and_eq_true, Bool.not_eq_true', Bool.not_eq_true', Bool.not_eq_true',
    and_assoc]

theorem covers_nil (h : IsUndefined e = false) : covers e [] = true := by
  cases e <;> simp_all [covers]

/-- What is defined and no map covers every path. -/
theorem covers_of_not_isMap (h : IsUndefined e = false) (hmap : e.isMap = false) (p : List String) :
    covers e p = true := by
  cases e with
  | map => cases hmap
  | _ => cases p <;> simp_all [covers]

theorem covers_cons_of_isMap (h : e.isMap = true) (k : String) (p : List String) :
    covers e (k :: p) = covers (e.child k) p := by
  cases e with
  | map => rfl
  | _ => cases h

theorem Keeps.refl (r e : Yaml) : Keeps r e r := fun _ _ _ => rfl

/-- What is not looked into keeps nothing, and what is replaced whole wins. -/
theorem overlays_of_eq (hr : r.isMap = false) (he : IsUndefined e = false) : Overlays r e e := by
  refine ⟨fun p hp hc => ?_, fun p _ => rfl⟩
  cases p with
  | nil => rw [covers_nil he] at hc; cases hc
  | cons k p => rw [nodeAt_cons_of_not_isMap hr] at hp; cases hp

theorem overlays_of_not_isMap (hmap : e.isMap = false) (he : IsUndefined e = false) (r : Yaml) :
    Overlays r e e := by
  refine ⟨fun p _ hc => ?_, fun p _ => rfl⟩
  rw [covers_of_not_isMap he hmap] at hc
  cases hc

theorem not_isLeaf_of_isUndefined (h : IsUndefined e = true) (p : List String) :
    isLeaf (e.nodeAt p) = false := by
  cases p with
  | nil => simp [nodeAt, isLeaf, h]
  | cons k p =>
    rw [nodeAt_cons_of_not_isMap]
    · rfl
    · cases e <;> simp_all [IsUndefined, isDefined, isNull, isMap]

theorem overlays_of_isUndefined (h : IsUndefined e = true) (r : Yaml) : Overlays r e r := by
  refine ⟨.refl r e, fun p hp => ?_⟩
  rw [not_isLeaf_of_isUndefined h] at hp
  cases hp

/-- Two maps, child by child. -/
theorem keeps_of_children (he : e.isMap = true)
    (h : ∀ k, Keeps (r.child k) (e.child k) (m.child k)) : Keeps r e m := by
  intro p hp hc
  cases p with
  | nil =>
    rw [covers_nil] at hc
    · cases hc
    · cases e with
      | map => rfl
      | _ => cases he
  | cons k p =>
    rw [covers_cons_of_isMap he] at hc
    exact h k p hp hc

/-! ### Handlers -/

theorem overlays_mergeHandler (hw : e.WellFormed) (h : mergeHandler r e = .ok m) :
    Overlays r e m := by
  rw [mergeHandler_eq hw] at h
  obtain rfl := Except.ok.inj h
  refine ⟨fun p hp hc => nodeAt_deepMerge_of_not_covers hw hp hc, fun p hp => ?_⟩
  obtain ⟨hu, hmap, -⟩ := isLeaf_iff.mp hp
  exact nodeAt_deepMerge_leaf hw hu hmap

/-- A list as a whole: nothing is looked up below it. -/
theorem overlays_mergeListNode (hr : r.isMap = false)
    (h : mergeListNode r e idKey handler = .ok m) : Overlays r e m := by
  unfold mergeListNode at h
  split_ifs at h with hu hrep
  · obtain rfl := Except.ok.inj h
    exact overlays_of_isUndefined hu r
  · obtain rfl := Except.ok.inj h
    exact overlays_of_eq hr (Bool.eq_false_iff.mpr hu)
  · have hseq : e.isSequence = true := by
      rw [Bool.or_eq_true, not_or] at hrep
      simpa using hrep.2
    have hmap : e.isMap = false := by
      cases e with
      | map => cases hseq
      | _ => rfl
    refine ⟨fun p _ hc => ?_, fun p hp => ?_⟩
    · rw [covers_of_not_isMap (Bool.eq_false_iff.mpr hu) hmap] at hc
      cases hc
    · -- a sequence has no scalars at paths
      cases p with
      | nil =>
        rw [nodeAt, isLeaf_iff, hseq] at hp
        cases hp.2.2
      | cons k p =>
        rw [nodeAt_cons_of_not_isMap hmap] at hp
        cases hp

/-! ### Assignments to children -/

/-- Assignments to different children of a map, one after the other. -/
theorem child_foldlM_modifyField {ι : Type*} {key : ι → String}
    {step : ι → Yaml → Except Error Yaml} {xs : List ι} (hd : (xs.map key).Nodup)
    (hr : r.isMap = true)
    (h : xs.foldlM (fun node x => node.modifyField (key x) (step x)) r = .ok m) :
    m.isMap = true ∧ (∀ x ∈ xs, step x (r.child (key x)) = .ok (m.child (key x))) ∧
      ∀ k ∉ xs.map key, m.child k = r.child k := by
  induction xs generalizing r with
  | nil =>
    obtain rfl := Except.ok.inj h
    exact ⟨hr, fun x hx => absurd hx List.not_mem_nil, fun k _ => rfl⟩
  | cons x xs ih =>
    rw [List.foldlM_cons, except_bind_eq_ok] at h
    obtain ⟨node, hx, h⟩ := h
    rw [List.map_cons, List.nodup_cons] at hd
    obtain ⟨hself, hother⟩ := child_modifyField hr hx
    obtain ⟨hm, hin, hout⟩ := ih hd.2 (isMap_modifyField hx) h
    refine ⟨hm, fun y hy => ?_, fun k hk => ?_⟩
    · rcases List.mem_cons.mp hy with rfl | hy
      · rw [hout _ hd.1]
        exact hself
      · have hne : key y ≠ key x := fun heq => hd.1 (heq ▸ List.mem_map_of_mem hy)
        rw [← hother _ hne]
        exact hin y hy
    · rw [List.map_cons, List.mem_cons, not_or] at hk
      rw [hout k hk.2, hother k hk.1]

variable {possibleList : List (String × String)}

/-- The lists in a map are no maps. -/
def PlainSubLists (possibleList : List (String × String)) (node : Yaml) : Prop :=
  ∀ list ∈ possibleList, (node.child list.1).isMap = false

theorem overlays_mergeFieldOrList (hr : PlainSubLists possibleList r) (hw : e.WellFormed)
    (h : mergeFieldOrList possibleList name (r.child name) e = .ok m) :
    Overlays (r.child name) e m := by
  unfold mergeFieldOrList at h
  split at h
  · rename_i idKey hlookup
    refine overlays_mergeListNode (hr (name, idKey) ?_) h
    obtain ⟨l₁, l₂, hl, -⟩ := List.lookup_eq_some_iff.mp hlookup
    rw [hl]
    exact List.mem_append_right _ List.mem_cons_self
  · exact overlays_mergeHandler hw h

/-- **A backend with lists in it is laid over the other one.** -/
theorem overlays_mergeMapNodeWithSubList (hr : PlainSubLists possibleList r) (hw : e.WellFormed)
    (h : mergeMapNodeWithSubList possibleList r e = .ok m) : Overlays r e m := by
  by_cases hu : IsUndefined e = true
  · obtain rfl : r = m := Except.ok.inj ((if_pos hu).symm.trans h)
    exact overlays_of_isUndefined hu r
  rw [Bool.not_eq_true] at hu
  cases he : e.isMap with
  | false =>
    unfold mergeMapNodeWithSubList at h
    rw [hu, he] at h
    obtain rfl : e = m := Except.ok.inj h
    exact overlays_of_not_isMap he hu r
  | true =>
    cases hrmap : r.isMap with
    | false =>
      unfold mergeMapNodeWithSubList at h
      rw [hu, he, hrmap] at h
      obtain rfl : e = m := Except.ok.inj h
      exact overlays_of_eq hrmap hu
    | true =>
      rw [mergeMapNodeWithSubList_map he hrmap] at h
      obtain ⟨-, hin, hout⟩ := child_foldlM_modifyField hw.fields_nodup hrmap h
      -- a child that `e` has is merged, any other one is left alone
      have hchild : ∀ k, Overlays (r.child k) (e.child k) (m.child k) := by
        intro k
        by_cases hk : k ∈ e.fields.map Prod.fst
        · obtain ⟨f, hf, rfl⟩ := List.mem_map.mp hk
          have hmerged := hin f hf
          rw [← child_of_mem_fields hw hf] at hmerged
          exact overlays_mergeFieldOrList hr (hw.child _) hmerged
        · have hundefined : IsUndefined (e.child k) = true := by
            cases e with
            | map t fs =>
              by_contra hdef
              refine hk (List.mem_map_of_mem (f := Prod.fst) (mem_fields_of_isDefined ?_))
              cases hget : Assoc.get undefined k fs <;>
                simp_all [child, IsUndefined, isDefined, isNull]
            | _ => rfl
          rw [hout k hk]
          exact overlays_of_isUndefined hundefined _
      refine ⟨keeps_of_children he fun k => (hchild k).keeps, fun p hp => ?_⟩
      cases p with
      | nil =>
        rw [nodeAt, isLeaf_iff, he] at hp
        cases hp.2.1
      | cons k p => exact (hchild k).wins p hp

/-! ### Lists -/

theorem findKey?_filter_names {items ext : List Yaml} {x : Yaml} (hx : x ∈ ext) :
    findKey? (nameOf idKey) (nameOf idKey x)
        (items.filter fun y => nameOf idKey y ∈ ext.map (nameOf idKey)) =
      findKey? (nameOf idKey) (nameOf idKey x) items :=
  findKey?_filter (p := fun k => decide (k ∈ ext.map (nameOf idKey)))
    (decide_eq_true (List.mem_map_of_mem hx)) items

theorem ofKey_of_distinct {ext : List Yaml} {x : Yaml} (hd : Distinct (nameOf idKey) ext)
    (hx : x ∈ ext) : ofKey (nameOf idKey) (nameOf idKey x) ext = [x] := by
  induction ext with
  | nil => cases hx
  | cons y ext ih =>
    obtain ⟨hfresh, hd⟩ := List.nodup_cons.mp hd
    unfold ofKey
    rcases List.mem_cons.mp hx with rfl | hx
    · rw [List.filter_cons_of_pos (by simp), List.filter_eq_nil_iff.mpr]
      intro z hz hname
      exact hfresh (of_decide_eq_true hname ▸ List.mem_map_of_mem hz)
    · have hne : nameOf idKey y ≠ nameOf idKey x := fun hname =>
        hfresh (hname ▸ List.mem_map_of_mem hx)
      rw [List.filter_cons_of_neg (by simpa using hne)]
      exact ih hd hx

/-- The element that a list holds for an element of the user's list: that one merged into the own
element of the name, or itself. -/
def MergedElement (idKey : String) (handler : Handler) (own : List Yaml) (x m : Yaml) : Prop :=
  match findKey? (nameOf idKey) (nameOf idKey x) own with
  | none => m = x
  | some r => handler r x = .ok m

/-- **A list that is merged by names** holds what the user names, each element merged into the own
one. -/
theorem mergeListNode_elements (hu : UniqueNames idKey e) (hseq : e.isSequence = true)
    (hm : ∀ x ∈ e.items, MergesKey (nameOf idKey) handler x)
    (h : mergeListNode r e idKey handler = .ok m) :
    m.isSequence = true ∧
      (∀ name, name ∈ m.items.map (nameOf idKey) ↔ name ∈ e.items.map (nameOf idKey)) ∧
      ∀ x ∈ e.items, ∃ y, findKey? (nameOf idKey) (nameOf idKey x) m.items = some y ∧
        MergedElement idKey handler r.items x y := by
  have hue : ¬ IsUndefined e = true := by
    cases e with
    | seq => simp [IsUndefined, isDefined, isNull]
    | _ => cases hseq
  by_cases hur : IsUndefined r = true
  · -- the user's list as it is
    obtain rfl : e = m := by
      unfold mergeListNode at h
      rw [if_neg hue, hur] at h
      exact Except.ok.inj h
    refine ⟨hseq, fun _ => Iff.rfl, fun x hx => ⟨x, findKey?_of_mem hu.distinct hx, ?_⟩⟩
    have hnil : r.items = [] := by
      cases r with
      | seq => simp [IsUndefined, isDefined, isNull] at hur
      | _ => rfl
    unfold MergedElement
    rw [hnil]
    rfl
  cases e with
  | seq t' ext =>
    cases r with
    | seq t items =>
      have hext : Named idKey ext := hu.named
      obtain ⟨items', -, hfold, rfl⟩ := mergeListNode_of_ok hext h
      have hkeys := keys_foldlM_absorbInto hm hfold
      refine ⟨rfl, fun name => ?_, fun x hx => ?_⟩
      · show name ∈ (items'.filter _).map (nameOf idKey) ↔ name ∈ ext.map (nameOf idKey)
        constructor
        · intro hname
          obtain ⟨y, hy, rfl⟩ := List.mem_map.mp hname
          exact of_decide_eq_true (List.mem_filter.mp hy).2
        · intro hname
          have hin : name ∈ items'.map (nameOf idKey) := by
            rw [hkeys, List.mem_append]
            by_cases hown : name ∈ items.map (nameOf idKey)
            · exact Or.inl hown
            · exact Or.inr (List.mem_eraseDups.mpr
                (List.mem_filter.mpr ⟨hname, decide_eq_true hown⟩))
          obtain ⟨y, hy, rfl⟩ := List.mem_map.mp hin
          exact List.mem_map_of_mem (List.mem_filter.mpr ⟨hy, decide_eq_true hname⟩)
      · replace hx : x ∈ ext := hx
        have hslot := findKey?_foldlM_absorbInto hm (nameOf idKey x) hfold
        rw [ofKey_of_distinct hu.distinct hx, List.foldlM_cons] at hslot
        obtain ⟨slot, habsorb, hslot⟩ := except_bind_eq_ok.mp hslot
        obtain rfl := Except.ok.inj hslot
        show ∃ y, findKey? _ _ (items'.filter _) = some y ∧ MergedElement idKey handler items x y
        rw [findKey?_filter_names hx]
        unfold MergedElement
        cases hown : findKey? (nameOf idKey) (nameOf idKey x) items with
        | none =>
          rw [hown] at habsorb
          exact ⟨x, (Except.ok.inj habsorb).symm, rfl⟩
        | some own =>
          rw [hown] at habsorb
          obtain ⟨y, hy, hsome⟩ := except_map_eq_ok.mp habsorb
          exact ⟨y, hsome.symm, hy⟩
    | undefined | null => exact absurd rfl hur
    | _ => cases h
  | _ => cases hseq

/-! ### Sections -/

theorem modifyField_of_mergeChild (h : mergeChild name handler ext res = .ok out) :
    res.modifyField name (fun r => handler r (ext.child name)) = .ok out := by
  cases hget : ext.get name with
  | error err =>
    rw [mergeChild_of_error hget] at h
    cases h
  | ok v =>
    rw [mergeChild_eq hget, get_eq_ok hget] at h
    exact h

/-- What a section that is there makes of the children: those that it knows are merged, the others
are left alone. -/
theorem child_mergeSection {children : List (String × Handler)}
    (hd : (children.map Prod.fst).Nodup) (hu : IsUndefined ext = false) (hres : res.isMap = true)
    (h : mergeSection children res ext = .ok out) :
    out.isMap = true ∧
      (∀ child ∈ children, child.2 (res.child child.1) (ext.child child.1) =
        .ok (out.child child.1)) ∧
      ∀ k ∉ children.map Prod.fst, out.child k = res.child k := by
  unfold mergeSection at h
  rw [hu] at h
  have hfold : children.foldlM (fun node child =>
      node.modifyField child.1 fun r => child.2 r (ext.child child.1)) res = .ok out :=
    foldlM_of_imp h fun child _ node node' hchild => modifyField_of_mergeChild hchild
  exact child_foldlM_modifyField hd hres hfold

/-- **A section keeps the paths that the user's one does not cover** when its children do. -/
theorem keeps_mergeSection {children : List (String × Handler)}
    (hd : (children.map Prod.fst).Nodup)
    (hc : ∀ child ∈ children, ∀ m, child.2 (res.child child.1) (ext.child child.1) = .ok m →
      Keeps (res.child child.1) (ext.child child.1) m)
    (h : mergeSection children res ext = .ok out) : Keeps res ext out := by
  by_cases hu : IsUndefined ext = true
  · obtain rfl : res = out := Except.ok.inj ((if_pos hu).symm.trans h)
    exact .refl res ext
  rw [Bool.not_eq_true] at hu
  cases he : ext.isMap with
  | false => exact fun p _ hp => absurd (covers_of_not_isMap hu he p) (by simp [hp])
  | true =>
    cases hr : res.isMap with
    | false =>
      intro p hp hcover
      cases p with
      | nil => rw [covers_nil hu] at hcover; cases hcover
      | cons k p => rw [nodeAt_cons_of_not_isMap hr] at hp; cases hp
    | true =>
      obtain ⟨-, hin, hout⟩ := child_mergeSection hd hu hr h
      refine keeps_of_children he fun k => ?_
      by_cases hk : k ∈ children.map Prod.fst
      · obtain ⟨child, hchild, rfl⟩ := List.mem_map.mp hk
        exact hc child hchild _ (hin child hchild)
      · rw [hout k hk]
        exact .refl _ _

/-- A list two levels down is merged as a list. -/
theorem mergeListNode_of_mergeSection {children listChildren : List (String × Handler)}
    {sectionName listName : String} (hchild : (sectionName, mergeSection listChildren) ∈ children)
    (hlist : (listName, mergeListBy idKey handler) ∈ listChildren)
    (hd : (children.map Prod.fst).Nodup) (hd' : (listChildren.map Prod.fst).Nodup)
    (hres : res.isMap = true) (hsection : (res.child sectionName).isMap = true)
    (hseq : ((ext.child sectionName).child listName).isSequence = true)
    (h : mergeSection children res ext = .ok out) :
    mergeListNode ((res.child sectionName).child listName) ((ext.child sectionName).child listName)
      idKey handler = .ok ((out.child sectionName).child listName) := by
  have hdefined : ∀ {node : Yaml} {k : String}, (node.child k).isSequence = true ∨
      (node.child k).isMap = true → node.isMap = true ∧ IsUndefined node = false := by
    intro node k hk
    cases node with
    | map => exact ⟨rfl, rfl⟩
    | _ => rcases hk with hk | hk <;> cases hk
  obtain ⟨hextmap, hext⟩ := hdefined (Or.inl hseq)
  obtain ⟨-, htop⟩ := hdefined (Or.inr hextmap)
  obtain ⟨-, hin, -⟩ := child_mergeSection hd htop hres h
  obtain ⟨-, hin', -⟩ := child_mergeSection hd' hext hsection (hin _ hchild)
  exact hin' _ hlist

/-! ### The headline -/

/-- A list of the configuration whose elements are merged by their names. -/
structure NamedList where
  sectionName : String
  listName : String
  idKey : String
  handler : Handler

/-- The list in a configuration. -/
def NamedList.get (l : NamedList) (node : Yaml) : Yaml :=
  (node.child l.sectionName).child l.listName

/-- The lists that `MergeAimRTNode` merges by names. -/
def namedLists : List NamedList := [
  ⟨"log", "backends", "type", mergeHandler⟩,
  ⟨"plugin", "plugins", "name", mergeHandler⟩,
  ⟨"channel", "backends", "type", mergeMapNodeWithSubList channelSubLists⟩,
  ⟨"channel", "pub_topics_options", "topic_name", mergeHandler⟩,
  ⟨"channel", "sub_topics_options", "topic_name", mergeHandler⟩,
  ⟨"rpc", "backends", "type", mergeMapNodeWithSubList rpcSubLists⟩,
  ⟨"rpc", "clients_options", "func_name", mergeHandler⟩,
  ⟨"rpc", "servers_options", "func_name", mergeHandler⟩,
  ⟨"executor", "executors", "name", mergeHandler⟩,
  ⟨"module", "modules", "name", mergeHandler⟩]

/-- The program's own configuration has its sections, and its lists are no maps. -/
structure OwnShape (res : Yaml) : Prop where
  map : res.isMap = true
  sections : ∀ l ∈ namedLists, (res.child l.sectionName).isMap = true
  lists : ∀ l ∈ namedLists, (l.get res).isMap = false
  channelBackends : ∀ backend ∈ ((res.child "channel").child "backends").items,
    PlainSubLists channelSubLists backend
  rpcBackends : ∀ backend ∈ ((res.child "rpc").child "backends").items,
    PlainSubLists rpcSubLists backend

/-- What the merged configuration is to the program's own one and the user's. -/
structure MergedOver (res ext out : Yaml) : Prop where
  keeps : Keeps res ext out
  ignored : ∀ name ∉ ["configurator", "main_thread", "guard_thread", "log", "plugin", "channel",
    "rpc", "executor", "module"], out.child name = res.child name
  names : ∀ l ∈ namedLists, (l.get ext).isSequence = true → (l.get out).isSequence = true ∧
    ∀ name, name ∈ (l.get out).items.map (nameOf l.idKey) ↔
      name ∈ (l.get ext).items.map (nameOf l.idKey)
  elements : ∀ l ∈ namedLists, ∀ x ∈ (l.get ext).items,
    ∃ y, findKey? (nameOf l.idKey) (nameOf l.idKey x) (l.get out).items = some y ∧
      (findKey? (nameOf l.idKey) (nameOf l.idKey x) (l.get res).items = none → y = x) ∧
      ∀ r, findKey? (nameOf l.idKey) (nameOf l.idKey x) (l.get res).items = some r →
        Overlays r x y

theorem uniqueNames_of_mem_namedLists (hu : UniqueAimRT ext) :
    ∀ l ∈ namedLists, UniqueNames l.idKey (l.get ext) := by
  unfold namedLists
  simp only [List.forall_mem_cons]
  exact ⟨hu.logBackends, hu.plugins, hu.channelBackends.types, hu.pubTopics, hu.subTopics,
    hu.rpcBackends.types, hu.clients, hu.servers, hu.executors, hu.modules, by simp⟩

/-- Every list's handler keeps the names. -/
theorem mergesKey_of_mem_namedLists (hw : ext.WellFormed) (hu : UniqueAimRT ext) :
    ∀ l ∈ namedLists, ∀ x ∈ (l.get ext).items, MergesKey (nameOf l.idKey) l.handler x := by
  have hitem : ∀ l : NamedList, ∀ x ∈ (l.get ext).items, x.WellFormed := fun l x hx =>
    wellFormed_of_mem_items ((hw.child _).child _) hx
  have hmap : ∀ l : NamedList, UniqueNames l.idKey (l.get ext) → l.idKey ≠ "" →
      l.handler = mergeHandler →
      ∀ x ∈ (l.get ext).items, MergesKey (nameOf l.idKey) l.handler x := by
    intro l hunique hid hhandler x hx
    rw [hhandler]
    exact mergesKey_mergeHandler hid (hitem l x hx) (hunique.named x hx)
  have hbackends : ∀ l : NamedList, ∀ possibleList : List (String × String),
      UniqueNames l.idKey (l.get ext) → possibleList.lookup l.idKey = none →
      l.handler = mergeMapNodeWithSubList possibleList →
      ∀ x ∈ (l.get ext).items, MergesKey (nameOf l.idKey) l.handler x := by
    intro l possibleList hunique hid hhandler x hx
    rw [hhandler]
    exact mergesKey_mergeMapNodeWithSubList hid (hitem l x hx) (hunique.named x hx)
  unfold namedLists
  simp only [List.forall_mem_cons]
  exact ⟨hmap _ hu.logBackends (by decide) rfl, hmap _ hu.plugins (by decide) rfl,
    hbackends _ _ hu.channelBackends.types (by decide) rfl, hmap _ hu.pubTopics (by decide) rfl,
    hmap _ hu.subTopics (by decide) rfl, hbackends _ _ hu.rpcBackends.types (by decide) rfl,
    hmap _ hu.clients (by decide) rfl, hmap _ hu.servers (by decide) rfl,
    hmap _ hu.executors (by decide) rfl, hmap _ hu.modules (by decide) rfl, by simp⟩

/-- Every list's handler lays the user's element over the own one. -/
theorem overlays_of_mem_namedLists (hw : ext.WellFormed) (hs : OwnShape res) :
    ∀ l ∈ namedLists, ∀ r ∈ (l.get res).items, ∀ x ∈ (l.get ext).items, ∀ y,
      l.handler r x = .ok y → Overlays r x y := by
  have hitem : ∀ l : NamedList, ∀ x ∈ (l.get ext).items, x.WellFormed := fun l x hx =>
    wellFormed_of_mem_items ((hw.child _).child _) hx
  have hmap : ∀ l : NamedList, l.handler = mergeHandler → ∀ r ∈ (l.get res).items,
      ∀ x ∈ (l.get ext).items, ∀ y, l.handler r x = .ok y → Overlays r x y := by
    intro l hhandler r _ x hx y hy
    rw [hhandler] at hy
    exact overlays_mergeHandler (hitem l x hx) hy
  have hbackends : ∀ l : NamedList, ∀ possibleList : List (String × String),
      (∀ backend ∈ (l.get res).items, PlainSubLists possibleList backend) →
      l.handler = mergeMapNodeWithSubList possibleList → ∀ r ∈ (l.get res).items,
      ∀ x ∈ (l.get ext).items, ∀ y, l.handler r x = .ok y → Overlays r x y := by
    intro l possibleList hplain hhandler r hr x hx y hy
    rw [hhandler] at hy
    exact overlays_mergeMapNodeWithSubList (hplain r hr) (hitem l x hx) hy
  unfold namedLists
  simp only [List.forall_mem_cons]
  exact ⟨hmap _ rfl, hmap _ rfl, hbackends _ _ hs.channelBackends rfl, hmap _ rfl, hmap _ rfl,
    hbackends _ _ hs.rpcBackends rfl, hmap _ rfl, hmap _ rfl, hmap _ rfl, hmap _ rfl, by simp⟩

/-- Where `MergeAimRTNode` merges the lists: each in the function of its section. -/
theorem section_of_mem_namedLists : ∃ children, mergeAimRTNode = mergeSection children ∧
    (children.map Prod.fst).Nodup ∧ ∀ l ∈ namedLists, ∃ listChildren,
      (l.sectionName, mergeSection listChildren) ∈ children ∧
      (listChildren.map Prod.fst).Nodup ∧
      (l.listName, mergeListBy l.idKey l.handler) ∈ listChildren := by
  -- each list by the position of its section, and its own position there
  have hmem : ∀ {xs : List (String × Handler)} {x : String × Handler} (i : ℕ),
      xs[i]? = some x → x ∈ xs := fun _ => List.mem_of_getElem?
  refine ⟨_, rfl, by decide, ?_⟩
  unfold namedLists
  simp only [List.forall_mem_cons]
  exact ⟨⟨_, hmem 3 rfl, by decide, hmem 2 rfl⟩,
    ⟨_, hmem 4 rfl, by decide, hmem 0 rfl⟩,
    ⟨_, hmem 5 rfl, by decide, hmem 0 rfl⟩,
    ⟨_, hmem 5 rfl, by decide, hmem 1 rfl⟩,
    ⟨_, hmem 5 rfl, by decide, hmem 2 rfl⟩,
    ⟨_, hmem 6 rfl, by decide, hmem 0 rfl⟩,
    ⟨_, hmem 6 rfl, by decide, hmem 1 rfl⟩,
    ⟨_, hmem 6 rfl, by decide, hmem 2 rfl⟩,
    ⟨_, hmem 7 rfl, by decide, hmem 0 rfl⟩,
    ⟨_, hmem 8 rfl, by decide, hmem 1 rfl⟩, by simp⟩

/-- Every list that the user gives is merged into the own one. -/
theorem mergeListNode_of_mem_namedLists (hs : OwnShape res)
    (h : mergeAimRTNode res ext = .ok out) {l : NamedList} (hl : l ∈ namedLists)
    (hseq : (l.get ext).isSequence = true) :
    mergeListNode (l.get res) (l.get ext) l.idKey l.handler = .ok (l.get out) := by
  obtain ⟨children, hnode, hd, hlists⟩ := section_of_mem_namedLists
  obtain ⟨listChildren, hchild, hd', hlist⟩ := hlists l hl
  rw [hnode] at h
  exact mergeListNode_of_mergeSection hchild hlist hd hd' hs.map (hs.sections l hl) hseq h

theorem keeps_mergeHandler (hw : ext.WellFormed) (name : String) (m : Yaml)
    (h : mergeHandler (res.child name) (ext.child name) = .ok m) :
    Keeps (res.child name) (ext.child name) m := (overlays_mergeHandler (hw.child name) h).keeps

/-- The own paths that the user's configuration does not cover. -/
theorem keeps_mergeAimRTNode (hw : ext.WellFormed) (hs : OwnShape res)
    (h : mergeAimRTNode res ext = .ok out) : Keeps res ext out := by
  have hlist : ∀ l ∈ namedLists, ∀ m,
      mergeListBy l.idKey l.handler (l.get res) (l.get ext) = .ok m →
      Keeps (l.get res) (l.get ext) m :=
    fun l hl m hm => (overlays_mergeListNode (hs.lists l hl) hm).keeps
  unfold namedLists at hlist
  simp only [List.forall_mem_cons] at hlist
  obtain ⟨hlog, hplugin, hbackends, hpub, hsub, hrpc, hclients, hservers, hexecutors, hmodules,
    -⟩ := hlist
  refine keeps_mergeSection (by decide) ?_ h
  simp only [List.forall_mem_cons]
  refine ⟨keeps_mergeHandler hw _, keeps_mergeHandler hw _, keeps_mergeHandler hw _,
    fun _ => keeps_mergeSection (by decide) ?_, fun _ => keeps_mergeSection (by decide) ?_,
    fun _ => keeps_mergeSection (by decide) ?_, fun _ => keeps_mergeSection (by decide) ?_,
    fun _ => keeps_mergeSection (by decide) ?_, fun _ => keeps_mergeSection (by decide) ?_, by simp⟩
  all_goals simp only [List.forall_mem_cons]
  · exact ⟨keeps_mergeHandler (hw.child _) _, keeps_mergeHandler (hw.child _) _, hlog, by simp⟩
  · exact ⟨hplugin, by simp⟩
  · exact ⟨hbackends, hpub, hsub, by simp⟩
  · exact ⟨hrpc, hclients, hservers, by simp⟩
  · exact ⟨hexecutors, by simp⟩
  · exact ⟨keeps_mergeHandler (hw.child _) _, hmodules, by simp⟩

/-- **The merge lays the user's AimRT configuration over the program's own one**: paths that it does
not cover keep their values, what is not one of the nine sections is ignored, and every list that
the user gives has exactly the user's names, each element laid over the own one of the name. -/
theorem mergeAimRTNode_overlays (hw : ext.WellFormed) (hu : UniqueAimRT ext) (hs : OwnShape res)
    (h : mergeAimRTNode res ext = .ok out) : MergedOver res ext out := by
  have hlist : ∀ l ∈ namedLists, (l.get ext).isSequence = true → _ := fun l hl hseq =>
    mergeListNode_elements (uniqueNames_of_mem_namedLists hu l hl) hseq
      (mergesKey_of_mem_namedLists hw hu l hl) (mergeListNode_of_mem_namedLists hs h hl hseq)
  refine ⟨keeps_mergeAimRTNode hw hs h, fun name hname => ?_, fun l hl hseq => ?_,
    fun l hl x hx => ?_⟩
  · by_cases hundefined : IsUndefined ext = true
    · obtain rfl : res = out := Except.ok.inj ((if_pos hundefined).symm.trans h)
      rfl
    · rw [Bool.not_eq_true] at hundefined
      obtain ⟨-, -, hout⟩ := child_mergeSection (by decide) hundefined hs.map h
      exact hout name hname
  · obtain ⟨hmerged, hnames, -⟩ := hlist l hl hseq
    exact ⟨hmerged, hnames⟩
  · have hseq : (l.get ext).isSequence = true := by
      cases hget : l.get ext with
      | seq => rfl
      | _ => rw [hget] at hx; cases hx
    obtain ⟨-, -, helements⟩ := hlist l hl hseq
    obtain ⟨y, hy, hmerged⟩ := helements x hx
    unfold MergedElement at hmerged
    refine ⟨y, hy, fun hnone => ?_, fun r hr => ?_⟩
    · rw [hnone] at hmerged
      exact hmerged
    · rw [hr] at hmerged
      exact overlays_of_mem_namedLists hw hs l hl r (List.mem_of_find?_eq_some hr) x hx y hmerged

/-- A configuration with all sections, and executors that the user has partly. -/
def ownConfig : Yaml :=
  .map "" [("log", .map "" []), ("plugin", .map "" []), ("channel", .map "" []),
    ("rpc", .map "" []), ("executor", .map "" [("executors", .seq ""
      [sampleExecutor "a" "x" "1", sampleExecutor "b" "x" "1"])]), ("module", .map "" [])]

theorem ownShape_ownConfig : OwnShape ownConfig := by
  refine ⟨rfl, ?_, ?_, fun backend hb => absurd hb List.not_mem_nil,
    fun backend hb => absurd hb List.not_mem_nil⟩
  all_goals
    unfold namedLists
    simp only [List.forall_mem_cons]
  · exact ⟨rfl, rfl, rfl, rfl, rfl, rfl, rfl, rfl, rfl, rfl, by simp⟩
  · exact ⟨rfl, rfl, rfl, rfl, rfl, rfl, rfl, rfl, rfl, rfl, by simp⟩

/-- The executor `a` goes, `c` comes, and `b` has the options of both. -/
theorem mergeAimRTNode_overlays_sample :
    ∃ out, mergeAimRTNode ownConfig userConfig = .ok out ∧
      (out.child "executor").child "executors" =
        .seq "" [mergedExecutor, sampleExecutor "c" "y" "2"] ∧
      MergedOver ownConfig userConfig out := by
  have hout : ∃ out, mergeAimRTNode ownConfig userConfig = .ok out ∧
      (out.child "executor").child "executors" =
        .seq "" [mergedExecutor, sampleExecutor "c" "y" "2"] := by
    simp [ownConfig, userConfig, executorConfig, mergeAimRTNode, mergeSection, mergeChild,
      modifyField, Yaml.get, convertToMap, Assoc.get, Assoc.upsert, Assoc.ensure, Assoc.modify,
      mergeHandler_undefined, mergeAimRTLogNode, mergeAimRTPluginNode, mergeAimRTChannelNode,
      mergeAimRTRpcNode, mergeAimRTExecutorNode, mergeAimRTModuleNode, IsUndefined, isDefined,
      isNull, bind, Except.bind, pure, Except.pure, List.foldlM, mergeListBy,
      mergeListNode_sample, child]
  obtain ⟨out, hmerge, hlist⟩ := hout
  exact ⟨out, hmerge, hlist, mergeAimRTNode_overlays wellFormed_userConfig uniqueAimRT_userConfig
    ownShape_ownConfig hmerge⟩

end AimrtComm.Cfg
