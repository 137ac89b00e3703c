import AimrtComm.Cfg.Equiv.MergeMap
import AimrtComm.Cfg.PatchList

/-!
# `MergeMapNode` against the merge of two trees

`mergeTree r e` is what merging the tree `e` into the tree `r` is meant to give, field by field:
the fields of `r` in their order, each merged with the field of `e` of its key, then the new
fields of `e` that are not null.  `mergeMapNode_merges` says that `MergeMapNode` computes it.
Fields that `res[field_name]` creates for a null of `ext` are never assigned; no iteration, lookup
or output shows them, so the two trees are compared as `clone` copies them.
-/

namespace AimrtComm

namespace Yaml

/-! ### What a reader sees of a tree -/

@[simp] theorem isDefined_clone (node : Yaml) : (Cfg.clone node).isDefined = node.isDefined := by
  cases node <;> rfl

theorem WellFormed.child {node : Yaml} (h : node.WellFormed) (k : String) :
    (node.child k).WellFormed := by
  cases node with
  | map t fs =>
    by_cases hdef : (Assoc.get .undefined k fs).isDefined
    · exact h.of_mem_fields (mem_fields_of_isDefined hdef)
    · rw [Yaml.child]
      cases hv : Assoc.get Yaml.undefined k fs <;> simp_all [isDefined, WellFormed]
  | _ => trivial

/-! ### Paths through a node -/

@[simp] theorem nodeAt_undefined (p : List String) : Yaml.undefined.nodeAt p = .undefined := by
  induction p with
  | nil => rfl
  | cons k p ih => exact ih

/-- No path leads through a node that is not a map. -/
theorem nodeAt_cons_of_not_isMap {node : Yaml} (h : node.isMap = false) (k : String)
    (p : List String) : node.nodeAt (k :: p) = .undefined := by
  cases node with
  | map => simp [isMap] at h
  | _ => exact nodeAt_undefined p

end Yaml

namespace Cfg

open Yaml

theorem cloneFields_eq (fs : List (String × Yaml)) :
    cloneFields fs = (fs.map fun f => (f.1, clone f.2)).filter fun f => f.2.isDefined := by
  induction fs with
  | nil => rfl
  | cons f fs ih =>
    obtain ⟨k, v⟩ := f
    rw [cloneFields, List.map_cons, List.filter_cons, ih]
    simp only [isDefined_clone]

/-! ### The merge of two trees -/

mutual

/-- The tree `e` merged into the tree `r`. -/
def mergeTree (r : Yaml) : Yaml → Yaml
  | .undefined | .null => r
  | .scalar t s => .scalar t s
  | .seq t xs => .seq t xs
  | .map t fs =>
    match r with
    | .map tr rs => .map tr (rs.map (fun f => (f.1, mergeField f.2 f.1 fs)) ++ newFields rs fs)
    | _ => .map t fs

/-- A value `r` of key `k`, merged with the value of that key among the fields. -/
def mergeField (r : Yaml) (k : String) : List (String × Yaml) → Yaml
  | [] => r
  | (l, e) :: fs => if l = k then mergeTree r e else mergeField r k fs

/-- The fields that `rs` does not have and that are not null. -/
def newFields (rs : List (String × Yaml)) : List (String × Yaml) → List (String × Yaml)
  | [] => []
  | (l, e) :: fs =>
    if l ∈ Assoc.keys rs || IsUndefined e then newFields rs fs
    else (l, mergeTree .undefined e) :: newFields rs fs

end

theorem mergeField_eq (r : Yaml) (k : String) (fs : List (String × Yaml)) :
    mergeField r k fs = mergeTree r (Assoc.get .undefined k fs) := by
  induction fs with
  | nil => rw [mergeField, Assoc.get, mergeTree]
  | cons f fs ih =>
    obtain ⟨l, e⟩ := f
    rw [mergeField, Assoc.get, ih]
    split_ifs <;> rfl

theorem newFields_eq (rs fs : List (String × Yaml)) :
    newFields rs fs
      = (fs.filter fun f => !(f.1 ∈ Assoc.keys rs || IsUndefined f.2)).map
          fun f => (f.1, mergeTree .undefined f.2) := by
  induction fs with
  | nil => rfl
  | cons f fs ih =>
    obtain ⟨l, e⟩ := f
    rw [newFields, List.filter_cons, ih]
    cases (decide (l ∈ Assoc.keys rs) || IsUndefined e) <;> simp

theorem mergeTree_of_isUndefined {r e : Yaml} (h : IsUndefined e = true) : mergeTree r e = r := by
  cases e <;> simp_all [IsUndefined, isDefined, isNull, mergeTree]

/-- The three cases of the merge, as the comments of `MergeMapNode` describe them. -/
theorem mergeTree_eq (r e : Yaml) :
    mergeTree r e =
      match r, e with
      | r, .undefined => r
      | r, .null => r
      | .map tr rs, .map _ fs =>
        .map tr ((rs.map fun f => (f.1, mergeTree f.2 (Assoc.get .undefined f.1 fs)))
          ++ (fs.filter fun f => !(f.1 ∈ Assoc.keys rs || IsUndefined f.2)).map
              fun f => (f.1, mergeTree .undefined f.2))
      | _, e => e := by
  cases e with
  | map t fs =>
    cases r with
    | map tr rs => simp only [mergeTree, mergeField_eq, newFields_eq]
    | _ => simp only [mergeTree]
  | _ => simp only [mergeTree]

/-! ### The recursive merge gives the merged tree -/

/-- The entry that `Assoc.mergeEntry` merges is the field that a lookup finds. -/
theorem mergeEntry_deepMerge (k t : String) (v : Yaml) {fs : List (String × Yaml)}
    (hfs : (Assoc.keys fs).Nodup) :
    Assoc.mergeEntry (fun e r => deepMerge r e) (map t fs).fields k v
      = deepMerge v (Assoc.get .undefined k fs) := by
  rw [fields]
  induction fs with
  | nil => rfl
  | cons f fs ih =>
    obtain ⟨l, e⟩ := f
    rw [Assoc.keys, List.map_cons, List.nodup_cons] at hfs
    rw [Assoc.get, List.filter_cons]
    by_cases he : e.isDefined
    · rw [if_pos he, Assoc.mergeEntry_cons, ih hfs.2]
      split_ifs <;> rfl
    · rw [if_neg he, ih hfs.2]
      split_ifs with hl
      · -- an undefined field: no other field has its key
        subst hl
        rw [Assoc.get_of_not_mem hfs.1]
        cases e <;> simp_all [isDefined]
      · rfl

theorem deepMerge_undefined (e : Yaml) :
    deepMerge .undefined e = if IsUndefined e then .undefined else e := by
  cases e <;> simp [deepMerge, IsUndefined, isDefined, isNull]

theorem mergeTree_undefined (e : Yaml) :
    mergeTree .undefined e = if IsUndefined e then .undefined else e := by
  cases e <;> simp [mergeTree, IsUndefined, isDefined, isNull]

/-- The new fields of the two merges differ in those that were created for a null. -/
theorem cloneFields_new (rs : List (String × Yaml)) (t : String) (fs : List (String × Yaml)) :
    cloneFields (((map t fs).fields.filter fun f => f.1 ∉ Assoc.keys rs).map
        fun f => (f.1, deepMerge .undefined f.2))
      = cloneFields (newFields rs fs) := by
  rw [fields]
  induction fs with
  | nil => rfl
  | cons f fs ih =>
    obtain ⟨l, e⟩ := f
    rw [List.filter_cons]
    by_cases hl : l ∈ Assoc.keys rs
    · -- an old key
      have hnew : newFields rs ((l, e) :: fs) = newFields rs fs := by
        rw [newFields, if_pos (by simp [hl])]
      rw [hnew]
      split_ifs with he
      · rw [List.filter_cons_of_neg (by simp [hl])]
        exact ih
      · exact ih
    · by_cases hu : IsUndefined e = true
      · -- a null: its field is created but never assigned
        have hnew : newFields rs ((l, e) :: fs) = newFields rs fs := by
          rw [newFields, if_pos (by simp [hu])]
        rw [hnew]
        split_ifs with he
        · rw [List.filter_cons_of_pos (by simp [hl]), List.map_cons, cloneFields,
            deepMerge_undefined, if_pos hu, if_neg (by simp [isDefined])]
          exact ih
        · exact ih
      · have hnew : newFields rs ((l, e) :: fs) = (l, e) :: newFields rs fs := by
          rw [newFields, if_neg (by simp [hl, hu]), mergeTree_undefined, if_neg hu]
        have he : e.isDefined = true := by
          by_contra h
          exact hu (by simp [IsUndefined, h])
        rw [hnew, if_pos he, List.filter_cons_of_pos (by simp [hl]), List.map_cons, cloneFields,
          cloneFields, deepMerge_undefined, if_neg hu, ih]

theorem cloneFields_append (fs gs : List (String × Yaml)) :
    cloneFields (fs ++ gs) = cloneFields fs ++ cloneFields gs := by
  rw [cloneFields_eq, cloneFields_eq, cloneFields_eq, List.map_append, List.filter_append]

theorem cloneFields_congr {ι : Type*} {xs : List ι} {k : ι → String} {f g : ι → Yaml}
    (h : ∀ x ∈ xs, clone (f x) = clone (g x)) :
    cloneFields (xs.map fun x => (k x, f x)) = cloneFields (xs.map fun x => (k x, g x)) := by
  rw [cloneFields_eq, cloneFields_eq, List.map_map, List.map_map]
  congr 1
  apply List.map_congr_left
  intro x hx
  simp only [Function.comp_apply, h x hx]

/-- The field that a lookup finds is smaller than the map. -/
theorem size_get_lt (k t : String) (fs : List (String × Yaml))
    (h : (Assoc.get .undefined k fs).isDefined = true) :
    (Assoc.get .undefined k fs).size < (map t fs).size :=
  size_lt_of_mem_fields (f := (k, Assoc.get .undefined k fs)) (mem_fields_of_isDefined h)

theorem clone_deepMerge : ∀ {e : Yaml}, e.WellFormed → ∀ {r : Yaml}, r.WellFormed →
    clone (deepMerge r e) = clone (mergeTree r e) := by
  intro e
  induction h : e.size using Nat.strong_induction_on generalizing e with
  | _ n ih =>
  intro he r hr
  match e, r, h with
  | .undefined, _, _ | .null, _, _ | .scalar .., _, _ | .seq .., _, _ =>
    simp only [deepMerge, mergeTree]
  | .map .., .undefined, _ | .map .., .null, _ | .map .., .scalar .., _ | .map .., .seq .., _ =>
    simp only [deepMerge, mergeTree]
  | .map t fs, .map tr rs, h =>
    rw [WellFormed] at hr
    rw [deepMerge_map, mergeTree, Assoc.upsertAll_eq_append he.fields_nodup hr.1, clone, clone,
      cloneFields_append, cloneFields_append, cloneFields_new]
    congr 2
    apply cloneFields_congr
    intro f hf
    rw [mergeEntry_deepMerge f.1 t f.2 he.1, mergeField_eq]
    by_cases hdef : (Assoc.get .undefined f.1 fs).isDefined
    · exact ih _ (lt_of_lt_of_eq (size_get_lt f.1 t fs hdef) h) rfl
        (he.of_mem_fields (mem_fields_of_isDefined hdef)) (hr.2.of_mem hf)
    · have hu : IsUndefined (Assoc.get .undefined f.1 fs) = true := by
        simp [IsUndefined, hdef]
      rw [deepMerge_of_isUndefined hu, mergeTree_of_isUndefined hu]

/-! ### Paths of the merged tree -/

/-- `ext` says something about the path: a value on the way to it or at it is not a map, or a map
reaches it. -/
def covers : Yaml → List String → Bool
  | .map _ fs, k :: p => covers (Assoc.get .undefined k fs) p
  | ext, _ => !IsUndefined ext

/-- A field of the merged map is the merge of the fields. -/
theorem get_deepMerge_map {tr t : String} {rs fs : List (String × Yaml)}
    (hw : (map t fs).WellFormed) (k : String) :
    (deepMerge (map tr rs) (map t fs)).child k
      = deepMerge ((map tr rs).child k) ((map t fs).child k) := by
  rw [deepMerge_map, child, child, child]
  by_cases hdef : (Assoc.get .undefined k fs).isDefined
  · exact Assoc.get_upsertAll_of_mem hw.fields_nodup (mem_fields_of_isDefined hdef) rs
  · have hu : IsUndefined (Assoc.get .undefined k fs) = true := by simp [IsUndefined, hdef]
    rw [deepMerge_of_isUndefined hu]
    apply Assoc.get_upsertAll_of_not_mem
    intro hk
    obtain ⟨f, hf, rfl⟩ := List.mem_map.mp hk
    rw [fields, List.mem_filter] at hf
    exact hdef (Assoc.get_of_mem hw.1 hf.1 ▸ hf.2)

/-- The child of a merge of two maps. -/
theorem child_deepMerge {res ext : Yaml} (hres : res.isMap = true) (hext : ext.isMap = true)
    (hw : ext.WellFormed) (key : String) :
    (deepMerge res ext).child key = deepMerge (res.child key) (ext.child key) := by
  cases res with
  | map tr rs =>
    cases ext with
    | map t fs => exact get_deepMerge_map hw key
    | _ => cases hext
  | _ => cases hres

/-- A path that `ext` does not cover keeps its value. -/
theorem nodeAt_deepMerge_of_not_covers : ∀ {p : List String} {r e : Yaml}, e.WellFormed →
    (r.nodeAt p).isDefined = true → covers e p = false →
      (deepMerge r e).nodeAt p = r.nodeAt p
  | [], r, e, _, _, hc => by
    have hu : IsUndefined e = true := by
      cases e <;> simp_all [covers]
    rw [deepMerge_of_isUndefined hu]
  | k :: p, r, e, he, hr, hc => by
    cases e with
    | map t fs =>
      cases r with
      | map tr rs =>
        rw [nodeAt, get_deepMerge_map he, nodeAt]
        exact nodeAt_deepMerge_of_not_covers (he.child k) hr hc
      | _ =>
        rw [nodeAt_cons_of_not_isMap rfl] at hr
        nomatch hr
    | undefined | null => rw [deepMerge]
    | _ => simp [covers, IsUndefined, isDefined, isNull] at hc

/-- `ext` wins where it has a value that is neither null nor a map. -/
theorem nodeAt_deepMerge_leaf {p : List String} {r e : Yaml} (he : e.WellFormed)
    (hu : IsUndefined (e.nodeAt p) = false) (hm : (e.nodeAt p).isMap = false) :
    (deepMerge r e).nodeAt p = e.nodeAt p := by
  induction p generalizing r e with
  | nil =>
    rw [nodeAt] at hu hm
    exact deepMerge_of_not_isMap hu (by simp [hm])
  | cons k p ih =>
    cases e with
    | map t fs =>
      cases r with
      | map tr rs =>
        rw [nodeAt, get_deepMerge_map he, nodeAt]
        exact ih (he.child k) hu hm
      | _ => rw [deepMerge_of_not_isMap rfl rfl]
    | _ =>
      rw [nodeAt_cons_of_not_isMap rfl] at hu
      cases hu

/-! ### Merging twice -/

theorem deepMerge_self : ∀ {e : Yaml}, e.WellFormed → deepMerge e e = e := by
  intro e
  induction h : e.size using Nat.strong_induction_on generalizing e with
  | _ n ih =>
  intro he
  cases e with
  | map t fs =>
    rw [deepMerge_map]
    congr 1
    apply Assoc.upsertAll_eq_self
    intro f hf
    have hmem : f ∈ fs := by
      rw [fields, List.mem_filter] at hf
      exact hf.1
    rw [Assoc.get_of_mem (k := f.1) (v := f.2) he.1 hmem]
    exact ⟨List.mem_map_of_mem hmem, ih _ (h ▸ size_lt_of_mem_fields hf) rfl (he.of_mem_fields hf)⟩
  | _ => rfl

theorem deepMerge_deepMerge : ∀ {e : Yaml}, e.WellFormed → ∀ r : Yaml,
    deepMerge (deepMerge r e) e = deepMerge r e := by
  intro e
  induction h : e.size using Nat.strong_induction_on generalizing e with
  | _ n ih =>
  intro he r
  cases e with
  | map t fs =>
    cases r with
    | map tr rs =>
      rw [deepMerge_map, deepMerge_map]
      congr 1
      apply Assoc.upsertAll_upsertAll he.fields_nodup
      intro f hf r
      exact ih _ (h ▸ size_lt_of_mem_fields hf) rfl (he.of_mem_fields hf) r
    | _ =>
      have hself := deepMerge_self he
      simpa only [deepMerge] using hself
  | _ => rfl

/-! ### The headline -/

/-- **`MergeMapNode` merges trees.**  For trees with distinct keys in every map, the loop ends
with the merge of the two trees; the paths that `ext` does not cover keep their values, `ext` wins
wherever it has a value that is neither null nor a map, and merging `ext` again changes
nothing. -/
theorem mergeMapNode_merges {res ext : Yaml} (hr : res.WellFormed) (he : ext.WellFormed) :
    clone (mergeMapNode res ext) = clone (mergeTree res ext) ∧
    (∀ p, (res.nodeAt p).isDefined = true → covers ext p = false →
      (mergeMapNode res ext).nodeAt p = res.nodeAt p) ∧
    (∀ p, IsUndefined (ext.nodeAt p) = false → (ext.nodeAt p).isMap = false →
      (mergeMapNode res ext).nodeAt p = ext.nodeAt p) ∧
    mergeMapNode (mergeMapNode res ext) ext = mergeMapNode res ext := by
  rw [mergeMapNode_eq_deepMerge _ he, mergeMapNode_eq_deepMerge _ he]
  refine ⟨clone_deepMerge he hr, ?_, ?_, deepMerge_deepMerge he res⟩
  · intro p hp hc
    exact nodeAt_deepMerge_of_not_covers he hp hc
  · intro p hu hm
    exact nodeAt_deepMerge_leaf he hu hm

/-- A null of `ext` leaves no field, a value meets a map on either side, a new field goes last. -/
theorem mergeMapNode_merges_sample :
    clone (mergeMapNode
        (.map "" [("a", .scalar "" "1"), ("b", .map "" [("c", .null), ("d", .seq "" [])])])
        (.map "" [("b", .map "" [("d", .map "" []), ("f", .null)]), ("e", .scalar "" "3")]))
      = .map "" [("a", .scalar "" "1"), ("b", .map "" [("c", .null), ("d", .map "" [])]),
          ("e", .scalar "" "3")] :=
  (mergeMapNode_merges (by simp [WellFormed, WellFormedFields, WellFormedItems])
    (by simp [WellFormed, WellFormedFields])).1

end Cfg

end AimrtComm
