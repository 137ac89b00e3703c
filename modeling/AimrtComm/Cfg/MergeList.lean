import AimrtComm.Cfg.PatchList

/-!
# `MergeListNode`

The list merging of `cfg_processor.cpp`: `mergeListNode res ext idKey handler` takes the elements
that `ext` names, with the content of `res` merged in, and drops all others from `res`.  The
function returns what `res` holds afterwards.  An element that was appended is shared with `ext`,
but `ext` is read again for the names of its elements only, and a handler keeps these.
-/

namespace AimrtComm.Cfg

open Yaml

/-- `node[id_key].as<std::string>()`. -/
def itemName (idKey : String) (node : Yaml) : Except Error String := do
  (← node.get idKey).asString

/-- The loop that looks for the element of a name in `res`: its index and the element. -/
def findName (idKey extName : String) : List Yaml → Except Error (Option (ℕ × Yaml))
  | [] => .ok none
  | i :: rest => do
    if (← itemName idKey i) = extName then return some (0, i)
    else return (← findName idKey extName rest).map fun r => (r.1 + 1, r.2)

/-- The body of the loop that merges `ext` into `res`, for one element of `ext`. -/
def mergeListItem (idKey : String) (handler : Handler) (res : List Yaml) (extI : Yaml) :
    Except Error (List Yaml) := do
  let extName ← itemName idKey extI
  match ← findName idKey extName res with
  | none => return res ++ [extI]
  | some (resIdx, resI) =>
    -- the element found counts as missing when it is a null
    if IsUndefined resI then return res ++ [extI]
    else return res.set resIdx (← handler resI extI)

/-- The loop that looks for a name in `ext`. -/
def hasName (idKey resName : String) : List Yaml → Except Error Bool
  | [] => .ok false
  | extI :: rest => do
    if (← itemName idKey extI) = resName then return true else hasName idKey resName rest

/-- The loop that removes the elements that `ext` does not have, from an index on.  The index
never exceeds the size, so that `res_idx != res.size()` is a comparison by `<`. -/
def removeLoop (idKey : String) (ext res : List Yaml) (resIdx : ℕ) : Except Error (List Yaml) :=
  if h : resIdx < res.length then
    (itemName idKey res[resIdx]).bind fun resName =>
    (hasName idKey resName ext).bind fun found =>
      if found then removeLoop idKey ext res (resIdx + 1)
      -- the next element moves to this index
      else removeLoop idKey ext (res.eraseIdx resIdx) resIdx
  else .ok res
  termination_by res.length - resIdx
  decreasing_by
  · omega
  · rw [List.length_eraseIdx_of_lt h]
    omega

/-- `MergeListNode`. -/
def mergeListNode (res ext : Yaml) (idKey : String) (handler : Handler) : Except Error Yaml :=
  if IsUndefined ext then .ok res
  else if IsUndefined res || !ext.isSequence then .ok ext
  else
    match res with
    | .seq t items => do
      let items ← ext.items.foldlM (mergeListItem idKey handler) items
      return .seq t (← removeLoop idKey ext.items items 0)
    | _ => .error .assertion

end AimrtComm.Cfg
