import AimrtComm.Yaml.Basic
import Mathlib.Algebra.GroupWithZero.Nat

/-!
# `MergeMapNode`

`cfg::details::MergeMapNode` (`cfg/utils.cpp`) merges `ext` into `res` with an explicit stack in
place of a recursion.  Its stack holds pairs of node handles; a handle into `res` is modelled by
its path from the root, so that assigning to it is `modifyAt`.  Pushing `curr.res[field_name]`
creates the field when it is missing, in the order of the fields of `ext`, while the pushed pairs
are popped in the opposite order.
-/

namespace AimrtComm

namespace Yaml

/-- The node at a path of field names. -/
def nodeAt : List String → Yaml → Yaml
  | [], node => node
  | k :: p, node => nodeAt p (node.child k)

/-- Assign `f` of the node at a path to that node; nothing happens if the path does not exist. -/
def modifyAt : List String → (Yaml → Yaml) → Yaml → Yaml
  | [], f, node => f node
  | k :: p, f, map t fs => map t (Assoc.modify k (modifyAt p f) fs)
  | _ :: _, _, node => node

/-- What reading `node[k]` for all keys `k` of `ext` leaves of a map `node`. -/
def createFields (ext : List (String × Yaml)) : Yaml → Yaml
  | map t fs => map t (Assoc.ensureAll undefined fs ext)
  | node => node

/-! ### The size of a node -/

mutual

/-- The number of nodes of the tree. -/
def size : Yaml → ℕ
  | undefined | null | scalar .. => 1
  | seq _ xs => sizeItems xs + 1
  | map _ fs => sizeFields fs + 1

def sizeItems : List Yaml → ℕ
  | [] => 0
  | x :: xs => x.size + sizeItems xs

def sizeFields : List (String × Yaml) → ℕ
  | [] => 0
  | (_, v) :: fs => v.size + sizeFields fs

end

theorem size_pos (node : Yaml) : 0 < node.size := by
  cases node <;> simp [size]

theorem sum_size_filter_le (fs : List (String × Yaml)) :
    ((fs.filter fun f => f.2.isDefined).map fun f => f.2.size).sum ≤ sizeFields fs := by
  induction fs with
  | nil => simp
  | cons f fs ih =>
    obtain ⟨k, v⟩ := f
    rw [List.filter_cons, sizeFields]
    split_ifs
    · rw [List.map_cons, List.sum_cons]; exact Nat.add_le_add_left ih _
    · exact ih.trans (Nat.le_add_left _ _)

theorem sum_size_fields_lt (node : Yaml) :
    (node.fields.map fun f => f.2.size).sum < node.size := by
  cases node with
  | map t fs =>
    have := sum_size_filter_le fs
    simp only [fields, size]
    omega
  | _ => simp [fields, size]

end Yaml

namespace Cfg

open Yaml

/-- The `while (not stack.empty())` loop of `MergeMapNode`: the top of the stack is the head. -/
def mergeLoop (root : Yaml) : List (List String × Yaml) → Yaml
  | [] => root
  | (path, ext) :: stack =>
    if IsUndefined ext then mergeLoop root stack
    else if !(root.nodeAt path).isMap || !ext.isMap then
      mergeLoop (root.modifyAt path fun _ => ext) stack
    else
      mergeLoop (root.modifyAt path (createFields ext.fields))
        (ext.fields.reverse.map (fun f => (path ++ [f.1], f.2)) ++ stack)
  termination_by stack => (stack.map fun frame => frame.2.size).sum
  decreasing_by
  · simp [size_pos]
  · simp [size_pos]
  · have h := sum_size_fields_lt ext
    simp only [List.map_append, List.map_map, List.map_reverse, List.sum_append, List.map_cons,
      List.sum_cons, List.sum_reverse, Function.comp_def]
    omega

/-- `cfg::details::MergeMapNode`; the result is what `res` holds afterwards. -/
def mergeMapNode (res ext : Yaml) : Yaml := mergeLoop res [([], ext)]

end Cfg

end AimrtComm
