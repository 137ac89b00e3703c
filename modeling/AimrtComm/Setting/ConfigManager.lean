import AimrtComm.Lib.Assoc

/-!
# The settings of the robot

`ScanConfigMap` (`setting/config_manager.cpp`) collects the pairs of all json files of the setting
directory, in the order in which `directory_iterator` lists them, and appends those of the dns file
of the site.  `GetConfig` looks keys up in the result.

`dump` is what the JSON library writes for a value that is no string.  Parsing throws a
`parse_error` for what is no JSON, and `out_of_range` as soon as it comes to a number that is too
large for a `double`: `Content.parse` tells the two apart.  The result of the scan also says which
site was looked for in the global config, and which dns file was appended.
-/

namespace AimrtComm.Setting

/-! ### JSON -/

/-- `nlohmann::json`, as it is written in a file. -/
inductive Json where
  | null
  /-- a truth value or a number -/
  | scalar (text : String)
  /-- a number that is too large for a `double` -/
  | hugeNumber
  | string (text : String)
  | array (items : List Json)
  | object (fields : List (String × Json))
deriving Repr

/-- What the JSON library and the file system throw. -/
inductive Thrown where
  | parseError
  | outOfRange
  | typeError
  | filesystemError
deriving DecidableEq, Repr

namespace Json

/-- `items()`: a value that is no container is its own only item. -/
def items : Json → List (String × Json)
  | .null => []
  | .array items => items.zipIdx.map fun item => (toString item.2, item.1)
  | .object fields => fields
  | value => [("", value)]

/-- What iterating over a value yields. -/
def elements (json : Json) : List Json := json.items.map Prod.snd

/-- `at(key)`. -/
def at? (json : Json) (key : String) : Except Thrown Json :=
  match json with
  | .object fields =>
    match fields.find? fun field => field.1 = key with
    | some field => .ok field.2
    | none => .error .outOfRange
  | _ => .error .typeError

/-- `value(key, "")`. -/
def value (json : Json) (key : String) : Except Thrown String :=
  match json with
  | .object fields =>
    match fields.find? fun field => field.1 = key with
    | some (_, .string text) => .ok text
    | some _ => .error .typeError
    | none => .ok ""
  | _ => .error .typeError

mutual

/-- No number in it is too large. -/
def fits : Json → Bool
  | .hugeNumber => false
  | .array items => fitsItems items
  | .object fields => fitsFields fields
  | .null | .scalar _ | .string _ => true

def fitsItems : List Json → Bool
  | [] => true
  | item :: items => item.fits && fitsItems items

def fitsFields : List (String × Json) → Bool
  | [] => true
  | (_, value) :: fields => value.fits && fitsFields fields

end

end Json

/-- A JSON text; the keys of an object are distinct.  A key that is repeated in the file has its
last value, or the one that is too large a number. -/
structure Document where
  root : Json
  distinct : (Assoc.keys root.items).Nodup

/-- What a file holds. -/
inductive Content where
  /-- no JSON, where a number that is too large may come before what is wrong -/
  | malformed (afterHugeNumber : Bool)
  | document (cfg : Document)

/-- `parse`. -/
def Content.parse : Content → Except Thrown Document
  | .malformed afterHugeNumber => .error (if afterHugeNumber then .outOfRange else .parseError)
  | .document cfg => if cfg.root.fits then .ok cfg else .error .outOfRange

/-! ### The files -/

/-- An entry of the setting directory; a file that cannot be opened is malformed. -/
structure Entry where
  isRegularFile : Bool := true
  extension : String := ".json"
  content : Content

/-- What is found at the path of a dns config. -/
inductive DnsConfig where
  /-- the system has no status for the path, say because the name is too long -/
  | noStatus
  /-- no regular file -/
  | missing
  | file (content : Content)

/-- The other files: the global config, none if it is no regular file or cannot be opened, and the
dns configs by `site_file`. -/
structure SiteFiles where
  globalConfig : Option Content
  dnsConfig : String → DnsConfig

/-- `master.globalconfig.site_id` -/
def siteIdKey : String := "master.globalconfig.site_id"

/-- `master.globalconfig.site_file` -/
def siteFileKey : String := "master.globalconfig.site_file"

/-- The local variables of `ScanConfigMap`. -/
structure ScanState where
  configMap : List (String × String) := []
  siteId : String := ""
  siteFile : String := ""
deriving DecidableEq, Repr

/-- What `ScanConfigMap` returns, with the site that it looks for in the global config and the dns
file that it appends. -/
structure ScanResult where
  configMap : List (String × String)
  checkedSite : Option String := none
  appendedDns : Option String := none
deriving DecidableEq, Repr

section

variable (dump : Json → String)

/-- `value_tmp`. -/
def valueTmp : Json → String
  | .string text => text
  | value => dump value

/-- The loop body for a pair of a file. -/
def scanPair (state : ScanState) (item : String × Json) : ScanState where
  configMap := state.configMap ++ [(item.1, valueTmp dump item.2)]
  siteId := if item.1 = siteIdKey then valueTmp dump item.2 else state.siteId
  siteFile := if item.1 = siteFileKey then valueTmp dump item.2 else state.siteFile

/-- The loop body for an entry of the directory. -/
def scanEntry (state : ScanState) (entry : Entry) : ScanState :=
  if !entry.isRegularFile || entry.extension ≠ ".json" then state
  else
    match entry.content.parse with
    | .error _ => state
    | .ok cfgfile => cfgfile.root.items.foldl (scanPair dump) state

/-- The loop over the sites: the `site_file` that is expected for the first site of this id. -/
def expectedSiteFile (siteId : String) : List Json → Except Thrown (Option String)
  | [] => .ok none
  | site :: sites => do
    if (← site.value "site_id") = siteId then return some (← site.value "site_file")
    else expectedSiteFile siteId sites

/-- The check of a site against the global config; a mismatch is only logged. -/
def checkSite (globalConfig : Json) (siteId : String) : Except Thrown (Option String) := do
  expectedSiteFile siteId (← globalConfig.at? "site-configs").elements

/-- The part of `ScanConfigMap` after the check of the site. -/
def scanDns (files : SiteFiles) (state : ScanState) : Except Thrown ScanResult :=
  let result : ScanResult := { configMap := state.configMap, checkedSite := some state.siteId }
  match files.dnsConfig state.siteFile with
  | .noStatus => .error .filesystemError
  | .missing => .ok result
  | .file content =>
    match content.parse with
    | .error _ => .ok result
    | .ok dnsCfg =>
      .ok { result with
        configMap := state.configMap ++
          dnsCfg.root.items.map fun item => (item.1, valueTmp dump item.2)
        appendedDns := some state.siteFile }

/-- The part of `ScanConfigMap` after the loop over the directory. -/
def scanSite (files : SiteFiles) (state : ScanState) : Except Thrown ScanResult :=
  if state.siteId.isEmpty || state.siteFile.isEmpty then .ok { configMap := state.configMap }
  else
    match files.globalConfig with
    | none => .ok { configMap := state.configMap }
    | some content =>
      match content.parse with
      | .error .parseError => .ok { configMap := state.configMap }
      -- only a `parse_error` is caught
      | .error e => .error e
      | .ok globalConfig => do
        let _ ← checkSite globalConfig.root state.siteId
        scanDns dump files state

/-- `ScanConfigMap`, for a directory that is listed in this order, none if there is no directory. -/
def scanConfigMap (files : SiteFiles) : Option (List Entry) → Except Thrown ScanResult
  | none => .ok { configMap := [] }
  | some listing => scanSite dump files (listing.foldl (scanEntry dump) {})

/-- `RobotConfig`. -/
structure RobotConfig where
  key : String
  value : String := ""
  extra : String := ""
deriving DecidableEq, Repr

/-- `GetConfig`: what it returns, and the configs after it. -/
def getConfig (files : SiteFiles) (settingConfig : Option (List Entry))
    (configs : List RobotConfig) : Except Thrown (Bool × List RobotConfig) := do
  let configMap := (← scanConfigMap dump files settingConfig).configMap
  if configMap.isEmpty then return (false, configs)
  else
    return (true, configs.map fun cfg =>
      match configMap.find? fun kv => kv.1 = cfg.key with
      | some kv => { cfg with value := kv.2 }
      | none => cfg)

end

end AimrtComm.Setting
