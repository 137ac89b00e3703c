import AimrtComm.Cfg.MergeMap
import Mathlib.Algebra.Order.BigOperators.Group.List

/-!
# `MergeMapNode` is a recursive merge

`deepMerge res ext` is the merge by recursion on `ext`: an undefined or null `ext` changes
nothing, an `ext` that is not a map, or that meets a `res` that is not one, replaces it, and two
maps are merged field by field.  `mergeMapNode_eq_deepMerge` says that the stack of
`MergeMapNode` computes it when the maps of `ext` have distinct keys: handling the top frame of
the stack, with everything it pushes, amounts to one assignment at the frame's path
(`mergeLoop_cons`).
-/

namespace AimrtComm

namespace Yaml

/-! ### Assignments at a path -/

theorem modifyAt_congr {f g : Yaml → Yaml} : ∀ {p : List String} {node : Yaml},
    f (node.nodeAt p) = g (node.nodeAt p) → node.modifyAt p f = node.modifyAt p g
  | [], _, h => h
  | k :: p, .map t fs, h => by
    rw [modifyAt, modifyAt, Assoc.modify_congr (d := undefined) (modifyAt_congr (p := p) h)]
  | _ :: _, .undefined, _ | _ :: _, .null, _ | _ :: _, .scalar .., _ | _ :: _, .seq .., _ => rfl

theorem modifyAt_id : ∀ (p : List String) (node : Yaml), node.modifyAt p (fun n => n) = node
  | [], _ => rfl
  | k :: p, .map t fs => by
    rw [modifyAt, funext (modifyAt_id p), Assoc.modify_id]
  | _ :: _, .undefined | _ :: _, .null | _ :: _, .scalar .. | _ :: _, .seq .. => rfl

theorem modifyAt_modifyAt (f g : Yaml → Yaml) : ∀ (p : List String) (node : Yaml),
    (node.modifyAt p g).modifyAt p f = node.modifyAt p fun n => f (g n)
  | [], _ => rfl
  | k :: p, .map t fs => by
    rw [modifyAt, modifyAt, modifyAt, Assoc.modify_modify, funext (modifyAt_modifyAt f g p)]
  | _ :: _, .undefined | _ :: _, .null | _ :: _, .scalar .. | _ :: _, .seq .. => rfl

theorem modifyAt_append (f : Yaml → Yaml) (q : List String) : ∀ (p : List String) (node : Yaml),
    node.modifyAt (p ++ q) f = node.modifyAt p (modifyAt q f)
  | [], _ => rfl
  | k :: p, .map t fs => by
    rw [List.cons_append, modifyAt, modifyAt, funext (modifyAt_append f q p)]
  | _ :: _, .undefined | _ :: _, .null | _ :: _, .scalar .. | _ :: _, .seq .. => rfl

/-! ### Well-formed fields -/

theorem WellFormedFields.of_mem {fs : List (String × Yaml)} (h : WellFormedFields fs)
    {f : String × Yaml} (hf : f ∈ fs) : f.2.WellFormed := by
  induction fs with
  | nil => simp at hf
  | cons g fs ih =>
    obtain ⟨k, v⟩ := g
    rw [WellFormedFields] at h
    rcases List.mem_cons.mp hf with rfl | hf
    · exact h.1
    · exact ih h.2 hf

theorem WellFormedItems.of_mem {xs : List Yaml} (h : WellFormedItems xs) {x : Yaml}
    (hx : x ∈ xs) : x.WellFormed := by
  induction xs with
  | nil => simp at hx
  | cons y xs ih =>
    rw [WellFormedItems] at h
    rcases List.mem_cons.mp hx with rfl | hx
    · exact h.1
    · exact ih h.2 hx

theorem WellFormed.fields_nodup {node : Yaml} (h : node.WellFormed) :
    (Assoc.keys node.fields).Nodup := by
  cases node with
  | map t fs =>
    rw [WellFormed] at h
    exact h.1.sublist (List.filter_sublist.map _)
  | _ => exact List.nodup_nil

theorem WellFormed.of_mem_fields {node : Yaml} (h : node.WellFormed) {f : String × Yaml}
    (hf : f ∈ node.fields) : f.2.WellFormed := by
  cases node with
  | map t fs =>
    rw [WellFormed] at h
    exact h.2.of_mem (List.mem_of_mem_filter hf)
  | _ => simp [fields] at hf

/-- A field that is not undefined is one of the fields that iteration yields. -/
theorem mem_fields_of_isDefined {key t : String} {fs : List (String × Yaml)}
    (h : (Assoc.get undefined key fs).isDefined = true) :
    (key, Assoc.get undefined key fs) ∈ (map t fs).fields := by
  rw [fields, List.mem_filter]
  refine ⟨?_, h⟩
  induction fs with
  | nil => simp [Assoc.get, isDefined] at h
  | cons f fs ih =>
    obtain ⟨l, v⟩ := f
    by_cases hl : l = key
    · simp [Assoc.get, hl]
    · rw [Assoc.get, if_neg hl] at h ⊢
      exact List.mem_cons_of_mem _ (ih h)

theorem size_lt_of_mem_fields {node : Yaml} {f : String × Yaml} (hf : f ∈ node.fields) :
    f.2.size < node.size :=
  lt_of_le_of_lt (List.single_le_sum (fun _ _ => Nat.zero_le _) _
    (List.mem_map_of_mem (f := fun f => f.2.size) hf)) (sum_size_fields_lt node)

end Yaml

namespace Cfg

open Yaml

/-! ### The recursive merge -/

mutual

/-- `ext` merged into `res`, by recursion on `ext`. -/
def deepMerge (res : Yaml) : Yaml → Yaml
  | .undefined | .null => res
  | .scalar t s => .scalar t s
  | .seq t xs => .seq t xs
  | .map t fs =>
    match res with
    | .map tr rs => .map tr (mergeFields rs fs)
    | _ => .map t fs

/-- The fields `fs` merged into `rs` one by one. -/
def mergeFields (rs : List (String × Yaml)) : List (String × Yaml) → List (String × Yaml)
  | [] => rs
  | (k, v) :: fs =>
    mergeFields (if v.isDefined then Assoc.upsert .undefined k (fun r => deepMerge r v) rs else rs)
      fs

end

theorem mergeFields_eq_upsertAll (rs fs : List (String × Yaml)) :
    mergeFields rs fs
      = Assoc.upsertAll .undefined (fun v r => deepMerge r v) rs
          (fs.filter fun f => f.2.isDefined) := by
  induction fs generalizing rs with
  | nil => rfl
  | cons f fs ih =>
    obtain ⟨k, v⟩ := f
    rw [mergeFields, List.filter_cons, ih]
    split_ifs <;> rfl

theorem deepMerge_of_isUndefined {res ext : Yaml} (h : IsUndefined ext = true) :
    deepMerge res ext = res := by
  cases ext <;> simp_all [IsUndefined, isDefined, isNull, deepMerge]

theorem deepMerge_of_not_isMap {res ext : Yaml} (hext : IsUndefined ext = false)
    (h : (!res.isMap || !ext.isMap) = true) : deepMerge res ext = ext := by
  cases ext <;> cases res <;> simp_all [IsUndefined, isDefined, isNull, isMap, deepMerge]

theorem deepMerge_map (tr t : String) (rs fs : List (String × Yaml)) :
    deepMerge (.map tr rs) (.map t fs)
      = .map tr (Assoc.upsertAll .undefined (fun v r => deepMerge r v) rs (map t fs).fields) := by
  rw [deepMerge, mergeFields_eq_upsertAll, fields]

/-! ### The stack -/

/-- Frames for the fields of one map, each handled by `deepMerge` at its own path, amount to one
assignment at the path of the map. -/
theorem mergeLoop_frames (p : List String) (stack : List (List String × Yaml)) :
    ∀ (fs : List (String × Yaml)) (root : Yaml),
      (∀ f ∈ fs, ∀ (root : Yaml) (q : List String) (stack : List (List String × Yaml)),
        mergeLoop root ((q, f.2) :: stack)
          = mergeLoop (root.modifyAt q fun r => deepMerge r f.2) stack) →
      mergeLoop root (fs.map (fun f => (p ++ [f.1], f.2)) ++ stack)
        = mergeLoop (root.modifyAt p fun node =>
            fs.foldl (fun n f => n.modifyAt [f.1] fun r => deepMerge r f.2) node) stack
  | [], root, _ => by
    rw [List.map_nil, List.nil_append]
    simp only [List.foldl_nil]
    rw [modifyAt_id]
  | f :: fs, root, h => by
    rw [List.map_cons, List.cons_append, h f List.mem_cons_self,
      mergeLoop_frames p stack fs _ fun g hg => h g (List.mem_cons_of_mem _ hg),
      modifyAt_append, modifyAt_modifyAt]
    simp only [List.foldl_cons]

/-- Filling the created fields of a map from the last to the first merges the two maps. -/
theorem foldr_createFields {ext : Yaml} (hw : ext.WellFormed) {node : Yaml}
    (h : (!node.isMap || !ext.isMap) = false) :
    ext.fields.foldr (fun f n => n.modifyAt [f.1] fun r => deepMerge r f.2)
        (createFields ext.fields node) = deepMerge node ext := by
  match node, ext, h with
  | .map tr rs, .map t fs, _ =>
    have hfold : ∀ (gs rs : List (String × Yaml)),
        gs.foldr (fun f n => modifyAt [f.1] (fun r => deepMerge r f.2) n) (Yaml.map tr rs)
          = Yaml.map tr
            (gs.foldr (fun f acc => Assoc.modify f.1 (fun r => deepMerge r f.2) acc) rs) := by
      intro gs rs
      induction gs with
      | nil => rfl
      | cons g gs ih => rw [List.foldr_cons, ih, List.foldr_cons]; rfl
    rw [createFields, hfold, deepMerge_map]
    congr 1
    exact Assoc.foldr_modify_foldl_ensure (g := fun v r => deepMerge r v) hw.fields_nodup rs

/-- Handling the top frame of the stack, with all the frames it pushes, assigns the recursive
merge at the frame's path. -/
theorem mergeLoop_cons : ∀ {ext : Yaml}, ext.WellFormed →
    ∀ (root : Yaml) (p : List String) (stack : List (List String × Yaml)),
      mergeLoop root ((p, ext) :: stack)
        = mergeLoop (root.modifyAt p fun r => deepMerge r ext) stack := by
  intro ext
  induction h : ext.size using Nat.strong_induction_on generalizing ext with
  | _ n ih =>
  intro hw root p stack
  rw [mergeLoop]
  split_ifs with hu hm
  · -- nothing to merge
    rw [modifyAt_congr (f := fun r => deepMerge r ext) (g := fun r => r)
      (deepMerge_of_isUndefined hu), modifyAt_id]
  · -- `ext` replaces the node
    exact congrArg (mergeLoop · stack)
      (modifyAt_congr (deepMerge_of_not_isMap (by simpa using hu) hm).symm)
  · -- two maps: the pushed frames are smaller
    rw [mergeLoop_frames p stack ext.fields.reverse, modifyAt_modifyAt]
    · refine congrArg (mergeLoop · stack) (modifyAt_congr ?_)
      simp only [List.foldl_reverse]
      exact foldr_createFields hw (by simpa using hm)
    · intro f hf
      rw [List.mem_reverse] at hf
      exact ih _ (h ▸ size_lt_of_mem_fields hf) rfl (hw.of_mem_fields hf)

/-- **`MergeMapNode` is the recursive merge** of an `ext` whose maps have distinct keys. -/
theorem mergeMapNode_eq_deepMerge (res : Yaml) {ext : Yaml} (hw : ext.WellFormed) :
    mergeMapNode res ext = deepMerge res ext := by
  rw [mergeMapNode, mergeLoop_cons hw, mergeLoop]
  rfl

end Cfg

end AimrtComm
