import AimrtComm.Cfg.PatchList

/-!
# The parameters of a module

Where the parameters of a module come from: they are preset in the configuration object
(`modules_config_`), given by the root file of the start-up options, or by a file of their own
(`cfg_file_path`).

`Cfg::GetModuleConfigYaml` (`cfg.cpp`) is what the module itself reads; it looks at one source after
the other.  `MakeYamlFromCfg` and `MergeCustomNodes` (`cfg_processor.cpp`) write the parameters of
all modules beside the node `aimrt` of the file that the framework loads; they merge the sources.

Reading a file and the trip of a node through its text, where environment variables are replaced,
are parameters.
-/

namespace AimrtComm.Cfg

open Yaml

/-! ### What the module reads -/

/-- `cfg::details::ModuleConfig`. -/
structure ModuleConfig where
  name : String
  cfgFilePath : Option String := none
deriving DecidableEq, Repr

/-- What `Cfg` knows about the parameters of modules: `core_.cfg_file_path`,
`aimrt_config_.module.modules` and `modules_config_`. -/
structure ModuleSources where
  cfgFilePath : String := ""
  modules : List ModuleConfig := []
  modulesConfig : Yaml := .null
deriving DecidableEq, Repr

section

-- `loadFile` is `YAML::LoadFile`, and `reload node` is `YAML::Load(ReplaceEnvVars(Dump(node)))`
variable (loadFile : String → Except Error Yaml) (reload : Yaml → Except Error Yaml)

/-- `cfg_file["aimrt"]["module"]["modules"]`. -/
def moduleList (cfgFile : Yaml) : Except Error Yaml := do
  (← (← cfgFile.get "aimrt").get "module").get "modules"

/-- `n_i["name"].as<std::string>()`. -/
def moduleName (node : Yaml) : Except Error String := do (← node.get "name").asString

/-- The loop over the modules of the root file: the file that the module of this name has of its
own. -/
def findModule (name : String) : List Yaml → Except Error (Option Yaml)
  | [] => .ok none
  | i :: rest => do
    if (← moduleName i) ≠ name then findModule name rest
    else
      let path ← i.get "cfg_file_path"
      if path.isDefined then return some (← loadFile (← path.asString))
      else findModule name rest

/-- `GetModuleConfigYamlFromRootFile`. -/
def getModuleConfigYamlFromRootFile (rootFilePath name : String) : Except Error Yaml := do
  let cfgFile ← loadFile rootFilePath
  match ← findModule loadFile name (← moduleList cfgFile).items with
  | some node => return node
  | none =>
    let node ← cfgFile.get name
    return if node.isDefined then node else .null

/-- `Cfg::GetModuleConfigYaml`. -/
def getModuleConfigYaml (cfg : ModuleSources) (name : String) : Except Error Yaml := do
  let external ←
    if cfg.cfgFilePath.isEmpty then pure .null
    else getModuleConfigYamlFromRootFile loadFile cfg.cfgFilePath name
  let node ←
    if !IsUndefined external then pure external
    else
      match cfg.modules.findSome? fun i => if i.name = name then i.cfgFilePath else none with
      | some path => loadFile path
      | none => cfg.modulesConfig.get name
  if IsUndefined node then return .null else reload node

end

/-! ### What the framework loads -/

/-- The end of `MakeYamlFromCfg`: the fields of the new file, the node of the framework first. -/
def makeYamlFromCfg (aimrt : Yaml) (cfg : ModuleSources) : List (String × Yaml) :=
  cfg.modulesConfig.fields.foldl
    (fun result it => Assoc.upsert .undefined it.1 (fun _ => it.2) result) [("aimrt", aimrt)]

/-- `MergeCustomNodes`. -/
def mergeCustomNodes (yaml : List (String × Yaml)) (extYaml : Yaml) : List (String × Yaml) :=
  extYaml.fields.foldl
    (fun yaml it =>
      -- the configuration of the framework is left alone
      if it.1 = "aimrt" then yaml
      else
        Assoc.upsert .undefined it.1
          (fun res => mergeMapNode res (if it.1 = "aimrte" then clone it.2 else it.2)) yaml)
    yaml

/-- The node for a module in the file that the framework loads. -/
def generatedModuleYaml (aimrt extYaml : Yaml) (cfg : ModuleSources) (name : String) : Yaml :=
  Assoc.get .undefined name (mergeCustomNodes (makeYamlFromCfg aimrt cfg) extYaml)

end AimrtComm.Cfg
