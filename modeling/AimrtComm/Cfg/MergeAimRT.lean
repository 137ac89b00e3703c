import AimrtComm.Cfg.MergeList

/-!
# `MergeAimRTNode` and its sections

The merging of the user's AimRT configuration `ext` into the program's own one `res`: every section
has a function of its own, which merges the maps and the lists it knows by their names.  A function
returns what the source leaves in `res`.
-/

namespace AimrtComm.Cfg

open Yaml

/-! ### Maps with lists in them -/

/-- How `MergeMapNodeWithSubList` merges the field of one name: a possible list by the key of its
elements, anything else as a map. -/
def mergeFieldOrList (possibleList : List (String × String)) (extName : String) : Handler :=
  fun resI extI =>
    match possibleList.lookup extName with
    | some idKey => mergeListNode resI extI idKey mergeHandler
    | none => .ok (mergeMapNode resI extI)

/-- `MergeMapNodeWithSubList`. -/
def mergeMapNodeWithSubList (possibleList : List (String × String)) : Handler := fun res ext =>
  if IsUndefined ext then .ok res
  else if !ext.isMap || !res.isMap then .ok ext
  else
    ext.fields.foldlM
      (fun res extIt =>
        res.modifyField extIt.1 fun resI => mergeFieldOrList possibleList extIt.1 resI extIt.2)
      res

/-! ### Sections -/

/-- `merge(res[name], ext[name])`. -/
def mergeChild (name : String) (merge : Handler) (ext res : Yaml) : Except Error Yaml := do
  let extI ← ext.get name
  res.modifyField name fun resI => merge resI extI

/-- The body that every function of a section has: nothing is done if `ext` lacks the section,
otherwise the children that it knows are merged one after the other. -/
def mergeSection (children : List (String × Handler)) : Handler := fun res ext =>
  if IsUndefined ext then .ok res
  else children.foldlM (fun res child => mergeChild child.1 child.2 ext res) res

/-- `MergeListNode` for elements that are named by `idKey`. -/
def mergeListBy (idKey : String) (handler : Handler) : Handler := fun res ext =>
  mergeListNode res ext idKey handler

/-- `MergeAimRTLogNode`. -/
def mergeAimRTLogNode : Handler :=
  mergeSection [
    ("core_lvl", mergeHandler),
    ("default_module_lvl", mergeHandler),
    ("backends", mergeListBy "type" mergeHandler)]

/-- `MergeAimRTPluginNode`. -/
def mergeAimRTPluginNode : Handler :=
  mergeSection [("plugins", mergeListBy "name" mergeHandler)]

/-- The lists that `MergeAimRTChannelNode` expects in a backend, with their keys. -/
def channelSubLists : List (String × String) :=
  [("pub_topics_options", "topic_name"), ("sub_topics_options", "topic_name")]

/-- `MergeAimRTChannelNode`. -/
def mergeAimRTChannelNode : Handler :=
  mergeSection [
    ("backends", mergeListBy "type" (mergeMapNodeWithSubList channelSubLists)),
    ("pub_topics_options", mergeListBy "topic_name" mergeHandler),
    ("sub_topics_options", mergeListBy "topic_name" mergeHandler)]

/-- The lists that `MergeAimRTRpcNode` expects in a backend, with their keys. -/
def rpcSubLists : List (String × String) :=
  [("servers_options", "func_name"), ("clients_options", "func_name")]

/-- `MergeAimRTRpcNode`. -/
def mergeAimRTRpcNode : Handler :=
  mergeSection [
    ("backends", mergeListBy "type" (mergeMapNodeWithSubList rpcSubLists)),
    ("clients_options", mergeListBy "func_name" mergeHandler),
    ("servers_options", mergeListBy "func_name" mergeHandler)]

/-- `MergeAimRTExecutorNode`. -/
def mergeAimRTExecutorNode : Handler :=
  mergeSection [("executors", mergeListBy "name" mergeHandler)]

/-- `MergeAimRTModuleNode`. -/
def mergeAimRTModuleNode : Handler :=
  mergeSection [
    ("pkgs", mergeHandler),
    ("modules", mergeListBy "name" mergeHandler)]

/-- `MergeAimRTNode`. -/
def mergeAimRTNode : Handler :=
  mergeSection [
    ("configurator", mergeHandler),
    ("main_thread", mergeHandler),
    ("guard_thread", mergeHandler),
    ("log", mergeAimRTLogNode),
    ("plugin", mergeAimRTPluginNode),
    ("channel", mergeAimRTChannelNode),
    ("rpc", mergeAimRTRpcNode),
    ("executor", mergeAimRTExecutorNode),
    ("module", mergeAimRTModuleNode)]

end AimrtComm.Cfg
