import AimrtComm.Cfg.MergeMap
import AimrtComm.Cfg.PatchMode

/-!
# `PatchListNode`

The list patching of `cfg_processor.cpp`: `patchListNode res ext idKey handler` applies the items
of `ext` one after the other to the list `res`.  Each item names an element by its key, which is
the field `idKey` of the element, or the element itself when `idKey` is empty.  The functions
return what `res` holds afterwards.
-/

namespace AimrtComm.Cfg

open Yaml PatchMode

/-! ### List operations -/

/-- The loop of `PushFront`: move the first element to the end, `n` times. -/
def rotateFront {α : Type*} : ℕ → List α → List α
  | 0, list => list
  | _ + 1, [] => []
  | n + 1, frontElement :: list => rotateFront n (list ++ [frontElement])

/-- `PushFront`: append the element, then rotate all the others behind it. -/
def pushFront {α : Type*} (list : List α) (element : α) : List α :=
  rotateFront ((list ++ [element]).length - 1) (list ++ [element])

/-- The lambda `get_key`. -/
def getKey (idKey : String) (node : Yaml) : Except Error String :=
  if idKey = "" then node.asString else do (← node.get idKey).asString

/-- The loop that looks for an element of the same key: its index and the element. -/
def findItem (idKey extName : String) : List Yaml → Except Error (Option (ℕ × Yaml))
  | [] => .ok none
  | i :: rest => do
    if (← getKey idKey i) = extName then return some (0, i)
    else return (← findItem idKey extName rest).map fun r => (r.1 + 1, r.2)

/-! ### `CompareAndReplaceNode` -/

/-- The loop over `ext`: append the items of `ext` whose text no item of `res` has. -/
def mergeItems (res : List Yaml) (merged : List Yaml) (item : Yaml) :
    Except Error (List Yaml) := do
  let text ← item.asString
  let found ← res.foldlM
    (fun found resItem => if found then pure true else return (← resItem.asString) = text) false
  return if found then merged else merged ++ [item]

mutual

/-- `YAML::Clone`; fields that were never assigned are not copied. -/
def clone : Yaml → Yaml
  | .seq t xs => .seq t (cloneItems xs)
  | .map t fs => .map t (cloneFields fs)
  | node => node

def cloneItems : List Yaml → List Yaml
  | [] => []
  | x :: xs => clone x :: cloneItems xs

def cloneFields : List (String × Yaml) → List (String × Yaml)
  | [] => []
  | (k, v) :: fs => if v.isDefined then (k, clone v) :: cloneFields fs else cloneFields fs

end

/-- `CompareAndReplaceNode`. -/
def compareAndReplaceNode (res ext : Yaml) : Except Error Yaml :=
  if ext.isMap && res.isMap then .ok (mergeMapNode res ext)
  else if ext.isSequence && res.isSequence then do
    return .seq res.tag (← ext.items.foldlM (mergeItems res.items) (cloneItems res.items))
  else .ok ext

/-! ### `PatchListNode` -/

/-- A handler merges the second node into the first; it is the source's
`std::function<void(YAML::Node, YAML::Node)>`. -/
abbrev Handler := Yaml → Yaml → Except Error Yaml

/-- The end of the loop body for an element that is there, at index `resIdx`. -/
def patchExisting (handler : Handler) (modes : PatchMode) (items : List Yaml) (extI : Yaml)
    (resIdx : ℕ) (resI : Yaml) : Except Error (List Yaml) := do
  -- an explicit tag replaces the element whole
  let doOverride : Except Error Yaml := if modes.has explicit then .ok extI else handler resI extI
  if modes.has override then
    return items.set resIdx (← doOverride)
  else if modes.has overrideFront then
    let x ← doOverride
    return pushFront (items.eraseIdx resIdx) x
  else if modes.has overrideBack then
    let x ← doOverride
    return items.eraseIdx resIdx ++ [x]
  else if modes.has skip then
    return items
  else if modes.has delete then
    return items.eraseIdx resIdx
  else if modes.has merge then
    return items.set resIdx (← compareAndReplaceNode resI extI)
  else
    throw (.existed extI)

/-- The end of the loop body for an element that is not there. -/
def patchAbsent (modes : PatchMode) (items : List Yaml) (extI : Yaml) : Except Error (List Yaml) :=
  if modes.has newFront then .ok (pushFront items extI)
  else if modes.has newBack then .ok (items ++ [extI])
  else if modes.has newNever then .ok items
  else .error (.nonExisted extI)

/-- The loop body of `PatchListNode`: apply one patch item to the elements of the list. -/
def patchItem (idKey : String) (handler : Handler) (items : List Yaml) (extI : Yaml) :
    Except Error (List Yaml) := do
  let modes ← analyzePatchMode extI
  let extName ← getKey idKey extI
  match ← findItem idKey extName items with
  | none => patchAbsent modes items extI
  | some (resIdx, resI) =>
    -- the element found counts as missing when it is a null
    if IsUndefined resI then patchAbsent modes items extI
    else patchExisting handler modes items extI resIdx resI

/-- `PatchListNode`. -/
def patchListNode (res ext : Yaml) (idKey : String) (handler : Handler) : Except Error Yaml :=
  if IsUndefined ext then .ok res
  else if IsUndefined res || !ext.isSequence then .ok ext
  else do
    if ← hasExplicitOverridePatchMode ext then return ext
    match res with
    | .seq t items => return .seq t (← ext.items.foldlM (patchItem idKey handler) items)
    | _ => throw .assertion

/-- The handler of `PatchListNode` when the caller gives none. -/
def mergeHandler : Handler := fun subRes subExt => .ok (mergeMapNode subRes subExt)

end AimrtComm.Cfg
