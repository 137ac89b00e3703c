import AimrtComm.Cfg.MergeAimRT
import AimrtComm.Cfg.ModuleConfig
import AimrtComm.Cfg.ModuleResources
import AimrtComm.Cfg.PatchAimRT

/-!
# `DumpFile`

How the configuration that the framework loads is made: the configuration object is written with
what the modules declared, the user's file is merged into it, the defaults are injected, and the
patch files are applied one after the other, those of the environment variable before the user's
patch, the ones of the command line after it, and those of the other environment variable last.
`dumpFile` is the content of the file that is written, once there is a directory for it; whether
the file can be opened is not checked.

Reading a file, writing the configuration object and `InjectDefaultCfgToAimRTNode`, which goes
through the object, are parameters.  The patched node shares its new parts with
`ext_yaml["aimrte"]`, so that later patch files change them there as well; the node `aimrte` that
`MergeCustomNodes` puts into the file does not show that here, and nothing is said about it.
-/

namespace AimrtComm.Cfg

open Yaml

/-- What stops `DumpFile`. -/
inductive DumpError where
  /-- `ReadYaml` cannot open the file. -/
  | notOpened (path : String)
  /-- A panic or an exception, and the file that the messages of the panics name. -/
  | stopped (error : Error) (currentProcessingYamlFilePath : String)
  /-- `MakeYamlFromCfg` panics. -/
  | notMade (error : ModuleError)
  /-- `create_directories` throws. -/
  | noDirectory (fileRoot : String)
deriving DecidableEq, Repr

/-- What `DumpFile` starts from. -/
structure DumpInput where
  processor : Processor
  /-- `sys::config::DefaultExecutorType()` -/
  defaultExecutorType : String := "asio_thread"
  cfg : ModuleSources := {}
  patchBeforeConfigFiles : List String := []
  userPatchConfigFilePaths : List String := []
  patchAfterConfigFiles : List String := []

/-- The map that `operator[]` turns a node into. -/
def toMap (node : Yaml) : Except Error Yaml := do
  let (t, fs) ← node.convertToMap
  return .map t fs

/-- The local variable `yaml` of `DumpFile`, which is a map, and the member
`current_processing_yaml_file_path_`. -/
structure Dump where
  yaml : List (String × Yaml)
  currentProcessingYamlFilePath : String := ""

namespace Dump

/-- A part of the work that may panic. -/
def run {α : Type} (s : Dump) (x : Except Error α) : Except DumpError α :=
  x.mapError fun error => .stopped error s.currentProcessingYamlFilePath

/-- `f(yaml["aimrt"])`. -/
def onAimrt (s : Dump) (f : Yaml → Except Error Yaml) : Except DumpError Dump := do
  let aimrt ← s.run (f (Assoc.get .undefined "aimrt" s.yaml))
  return { s with yaml := Assoc.upsert .undefined "aimrt" (fun _ => aimrt) s.yaml }

/-- `PatchAimRTNode(yaml["aimrt"], patch["aimrte"])`. -/
def patch (s : Dump) (patch : Yaml) : Except DumpError Dump :=
  s.onAimrt fun aimrt => do patchAimRTNode aimrt (← patch.get "aimrte")

end Dump

section

-- a file that can be opened, with what `YAML::Load(ReplaceEnvVars(text))` makes of it
variable (readFile : String → Option (Except Error Yaml))
-- `YAML::Load(rfl::yaml::write(cfg_.aimrt_config_))`
variable (write : AimRTConfig → Yaml)
-- the node, and the `temp_cfg_path` that the configuration object has afterwards
variable (injectDefaultCfgToAimRTNode : Yaml → Except Error (Yaml × String))
-- there is a directory of this path, or it can be made
variable (makeDirectory : String → Bool)

/-- `ReadYaml`. -/
def readYaml (s : Dump) (path : String) : Except DumpError (Yaml × Dump) :=
  match readFile path with
  | none => .error (.notOpened path)
  | some node => do
    let s := { s with currentProcessingYamlFilePath := path }
    return (← s.run node, s)

/-- The user's file, a null if there is none. -/
def readExtYaml (s : Dump) (path : String) : Except DumpError (Yaml × Dump) :=
  if path.isEmpty then .ok (.null, s) else readYaml readFile s path

/-- The body of the three loops over patch files. -/
def patchFile (s : Dump) (i : String) : Except DumpError Dump := do
  let (patch, s) ← readYaml readFile s i
  s.patch patch

/-- `InjectDefaultCfgToAimRTNode(yaml["aimrt"])`. -/
def injectDefaultCfg (s : Dump) : Except DumpError (Dump × String) := do
  let (aimrt, tempCfgPath) ←
    s.run (injectDefaultCfgToAimRTNode (Assoc.get .undefined "aimrt" s.yaml))
  return ({ s with yaml := Assoc.upsert .undefined "aimrt" (fun _ => aimrt) s.yaml }, tempCfgPath)

/-- The file that is written, in a directory that is made if it is missing. -/
def writeFile {α : Type} (fileRoot : String) (content : α) : Except DumpError α :=
  if makeDirectory fileRoot then .ok content else .error (.noDirectory fileRoot)

/-- The phases of `DumpFile` after the user's file was read. -/
def applyPhases (p : DumpInput) (extYaml : Yaml) (s : Dump) :
    Except DumpError (List (String × Yaml)) := do
  let s ← s.onAimrt fun aimrt => mergeAimRTNode aimrt (extYaml.child "aimrt")
  let (s, fileRoot) ← injectDefaultCfg injectDefaultCfgToAimRTNode s
  let s ← p.patchBeforeConfigFiles.foldlM (patchFile readFile) s
  let s := { s with currentProcessingYamlFilePath := p.cfg.cfgFilePath }
  let s ← s.patch extYaml
  let s ← p.userPatchConfigFilePaths.foldlM (patchFile readFile) s
  let s ← p.patchAfterConfigFiles.foldlM (patchFile readFile) s
  writeFile makeDirectory fileRoot (mergeCustomNodes s.yaml extYaml)

/-- `MakeYamlFromCfg`: the configuration object with what the modules declared, and beside it the
preset parameters of the modules. -/
def makeYaml (p : DumpInput) : Except DumpError (List (String × Yaml)) :=
  match p.processor.makeYamlFromCfg p.defaultExecutorType with
  | .error error => .error (.notMade error)
  | .ok aimrtConfig => .ok (makeYamlFromCfg (write aimrtConfig) p.cfg)

/-- `DumpFile`: the content of the file. -/
def dumpFile (p : DumpInput) : Except DumpError (List (String × Yaml)) := do
  let yaml ← makeYaml write p
  let s : Dump := { yaml }
  let (extYaml, s) ← readExtYaml readFile s p.cfg.cfgFilePath
  -- `ext_yaml["aimrt"]` turns `ext_yaml` into a map
  let extYaml ← s.run (toMap extYaml)
  applyPhases readFile injectDefaultCfgToAimRTNode makeDirectory p extYaml s

end

end AimrtComm.Cfg
