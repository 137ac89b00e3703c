import AimrtComm.Cfg.PatchList

/-!
# `PatchAimRTNode` and its sections

The patching of a whole AimRT configuration: `configurator`, `main_thread` and `guard_thread` are
merged as maps, every other section has a function of its own that patches the lists it knows.
A function returns what the source leaves in `res`.
-/

namespace AimrtComm.Cfg

open Yaml

/-! ### Maps -/

/-- `PatchMapNode`. -/
def patchMapNode (res ext : Yaml) : Except Error Yaml :=
  if IsUndefined ext then .ok res
  else do
    if ← hasExplicitOverridePatchMode ext then return ext
    return mergeMapNode res ext

/-- The loop body of `PatchMapNodeWithSubList`: patch the field of one name. -/
def patchField (possibleList : List (String × String)) (res : Yaml) (ext : String × Yaml) :
    Except Error Yaml :=
  res.modifyField ext.1 fun resI =>
    match possibleList.lookup ext.1 with
    | some idKey => patchListNode resI ext.2 idKey mergeHandler
    | none => .ok (mergeMapNode resI ext.2)

/-- `PatchMapNodeWithSubList`. -/
def patchMapNodeWithSubList (res ext : Yaml) (possibleList : List (String × String)) :
    Except Error Yaml :=
  if IsUndefined ext then .ok res
  else if !ext.isMap || !res.isMap then .ok ext
  else ext.fields.foldlM (patchField possibleList) res

/-! ### Lists of a section -/

/-- Patch the list `name` of a section, whose elements are named by `idKey`. -/
def patchSubList (name idKey : String) (handler : Handler) (ext res : Yaml) :
    Except Error Yaml := do
  let extI ← ext.get name
  res.modifyField name fun resI => patchListNode resI extI idKey handler

/-- What every section does first: it is left alone if the patch has none, and replaced if the
patch overrides it. -/
def patchSection (patch : Yaml → Yaml → Except Error Yaml) (res ext : Yaml) : Except Error Yaml :=
  if IsUndefined ext then .ok res
  else do
    if ← hasExplicitOverridePatchMode ext then return ext
    patch ext res

/-- The handler for the options of one topic or function: the names of its backends and
filters. -/
def optionsHandler : Handler := fun subRes subExt => do
  let subRes ← patchSubList "enable_backends" "" mergeHandler subExt subRes
  patchSubList "enable_filters" "" mergeHandler subExt subRes

/-- The handler for one communication backend. -/
def backendHandler (possibleList : List (String × String)) : Handler :=
  fun subRes subExt => patchMapNodeWithSubList subRes subExt possibleList

/-! ### The sections -/

/-- `PatchAimRTLogNode`. -/
def patchAimRTLogNode : Yaml → Yaml → Except Error Yaml :=
  patchSection fun ext res => do
    let coreLvl ← ext.get "core_lvl"
    let res ← res.modifyField "core_lvl" fun resI => .ok (mergeMapNode resI coreLvl)
    let defaultModuleLvl ← ext.get "default_module_lvl"
    let res ← res.modifyField "default_module_lvl" fun resI =>
      .ok (mergeMapNode resI defaultModuleLvl)
    patchSubList "backends" "type" mergeHandler ext res

/-- `PatchAimRTPluginNode`. -/
def patchAimRTPluginNode : Yaml → Yaml → Except Error Yaml :=
  patchSection (patchSubList "plugins" "name" mergeHandler)

/-- The lists that `PatchAimRTChannelNode` expects in a backend, with their keys. -/
def channelPossibleList : List (String × String) :=
  [("pub_topics_options", "topic_name"), ("sub_topics_options", "topic_name")]

/-- `PatchAimRTChannelNode`. -/
def patchAimRTChannelNode : Yaml → Yaml → Except Error Yaml :=
  patchSection fun ext res => do
    let res ← patchSubList "backends" "type" (backendHandler channelPossibleList) ext res
    let res ← patchSubList "pub_topics_options" "topic_name" optionsHandler ext res
    patchSubList "sub_topics_options" "topic_name" optionsHandler ext res

/-- The lists that `PatchAimRTRpcNode` expects in a backend, with their keys. -/
def rpcPossibleList : List (String × String) :=
  [("servers_options", "func_name"), ("clients_options", "func_name")]

/-- `PatchAimRTRpcNode`. -/
def patchAimRTRpcNode : Yaml → Yaml → Except Error Yaml :=
  patchSection fun ext res => do
    let res ← patchSubList "backends" "type" (backendHandler rpcPossibleList) ext res
    let res ← patchSubList "clients_options" "func_name" optionsHandler ext res
    patchSubList "servers_options" "func_name" optionsHandler ext res

/-- `PatchAimRTExecutorNode`. -/
def patchAimRTExecutorNode : Yaml → Yaml → Except Error Yaml :=
  patchSection (patchSubList "executors" "name" mergeHandler)

/-- `PatchAimRTModuleNode`. -/
def patchAimRTModuleNode : Yaml → Yaml → Except Error Yaml :=
  patchSection fun ext res => do
    let res ← patchSubList "pkgs" "path" mergeHandler ext res
    patchSubList "modules" "name" mergeHandler ext res

/-- Patch the section `name` of a configuration by its function. -/
def patchSubSection (name : String) (patch : Yaml → Yaml → Except Error Yaml) (ext res : Yaml) :
    Except Error Yaml := do
  let extI ← ext.get name
  res.modifyField name fun resI => patch resI extI

/-- `PatchAimRTNode`. -/
def patchAimRTNode (res ext : Yaml) : Except Error Yaml :=
  if IsUndefined ext then .ok res
  else do
    let res ← patchSubSection "configurator" patchMapNode ext res
    let res ← patchSubSection "main_thread" patchMapNode ext res
    let res ← patchSubSection "guard_thread" patchMapNode ext res
    let res ← patchSubSection "log" patchAimRTLogNode ext res
    let res ← patchSubSection "plugin" patchAimRTPluginNode ext res
    let res ← patchSubSection "channel" patchAimRTChannelNode ext res
    let res ← patchSubSection "rpc" patchAimRTRpcNode ext res
    let res ← patchSubSection "executor" patchAimRTExecutorNode ext res
    patchSubSection "module" patchAimRTModuleNode ext res

end AimrtComm.Cfg
