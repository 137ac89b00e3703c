import AimrtComm.Cfg.PatchMode
import AimrtComm.RecordPlayback.MainLoop
import AimrtComm.RecordPlayback.Setting
import Mathlib.Data.List.Sort

/-!
# Reading the actions of the record tool

The functions of `record_playback/src/parse_cmd.h` read the tool's configuration and the types of
the topics.  An exception of the YAML library ends the function that catches it, with what was
assigned before.  `RecordPlaybackSetting` (`util.h`) hands the actions to the plugin
(`recordActionses`, `playbackActionses`); what it does to the channels is in `channelSetting`.

The conversions of numbers and truth values, the environment and the files are parameters
(`Reader`).  A hash map yields its entries in any order (`HashOrder`), a `std::set` in the order of
its elements.  The logging is left out.
-/

namespace AimrtComm.RecordPlayback.ParseCmd

open Cfg Yaml

/-- What the functions read besides the document: `as<T>` of the YAML library for numbers and truth
values, none where the conversion fails, the environment variables, and the files. -/
structure Reader where
  asBool : Yaml → Option Bool
  asUint32 : Yaml → Option UInt32
  asInt32 : Yaml → Option Int32
  env : String → Option String
  isDirectory : String → Bool
  loadFile : String → Option Yaml
  hash : HashOrder (String × List String)

/-! ### Texts -/

/-- The parts of a text between separators that are not empty: the loop with `std::getline`. -/
def getlines (text : String) (separator : Char) : List String :=
  ((text.toList.splitOn separator).filter (· ≠ [])).map String.ofList

/-- The path of a directory with a slash at its end. -/
def withSlash (path : String) : String :=
  if path.toList.getLast? = some '/' then path else path ++ "/"

/-- `ParsePlayback`. -/
def parsePlayback (playbagPath : String) : List String :=
  (getlines playbagPath ',').map withSlash

/-- `ParseTypeSupport`. -/
def parseTypeSupport (input : String) : List String := getlines input ':'

/-- `std::transform` with `tolower`. -/
def toLower (text : String) : String := String.ofList (text.toList.map Char.toLower)

/-- `GetEnv`. -/
def getEnv (env : String → Option String) (backend : String) : String :=
  if startsWith backend "$\x7b" ∧ backend.toList.getLast? = some '\x7d' then
    (env (String.ofList (backend.toList.drop 2).dropLast)).getD ""
  else if startsWith backend "$" then (env (substrAfter backend "$")).getD ""
  else backend

/-- The loop body of `ParseBackendAndTopics` for an entry: the topic and the backend. -/
def parseTopicNode (env : String → Option String) (topicnode : String) : Option (String × String) :=
  match topicnode.toList.span (· ≠ ':') with
  | (_, []) => none
  | (backend, _ :: topic) =>
    let backend := toLower (getEnv env (String.ofList backend))
    if backend ≠ "" ∧ topic ≠ [] then some (String.ofList topic, backend) else none

/-! ### Topics -/

/-- `std::set::insert`. -/
def insertSet (x : String) (set : List String) : List String :=
  if x ∈ set then set else set.orderedInsert (· ≤ ·) x

theorem mem_insertSet {x y : String} {set : List String} :
    y ∈ insertSet x set ↔ y = x ∨ y ∈ set := by
  unfold insertSet
  split_ifs with hx
  · exact ⟨Or.inr, fun h => h.elim (fun h => h ▸ hx) id⟩
  · exact List.mem_orderedInsert ..

/-- `backend_and_topics`, the hash map from the topics to the sets of their backends. -/
structure BackendAndTopics where
  entries : List (String × List String) := []
  distinct : (Assoc.keys entries).Nodup := by simp
  inhabited : ∀ topic ∈ Assoc.keys entries, Assoc.get [] topic entries ≠ [] := by simp

/-- `backend_and_topics[topic].insert(backend)`. -/
def BackendAndTopics.insert (topic backend : String) (map : BackendAndTopics) :
    BackendAndTopics where
  entries := Assoc.upsert [] topic (insertSet backend) map.entries
  distinct := by
    rw [Assoc.upsert, Assoc.keys_modify]
    exact Assoc.nodup_keys_ensure map.distinct
  inhabited := by
    intro other hother
    by_cases hne : other = topic
    · rw [hne, Assoc.get_upsert_self]
      exact List.ne_nil_of_mem (mem_insertSet.mpr (Or.inl rfl))
    · rw [Assoc.get_upsert_of_ne hne]
      apply map.inhabited
      -- the only key that may be new is the topic
      rw [Assoc.upsert, Assoc.keys_modify, Assoc.ensure] at hother
      split_ifs at hother
      · exact hother
      · simpa [hne] using hother

/-- `ParseBackendAndTopics` for the elements of a sequence. -/
def parseBackendAndTopics (env : String → Option String) (node : List Yaml) :
    Except Error BackendAndTopics :=
  node.foldlM
    (fun backendAndTopics no => do
      let topicnode ← no.asString
      match parseTopicNode env topicnode with
      | some (topic, backend) => return backendAndTopics.insert topic backend
      | none => return backendAndTopics)
    {}

/-- What iterating over a node yields to `as<std::string>`: the fields of a map are no nodes. -/
def iterate : Yaml → Except Error (List Yaml)
  | .seq _ items => .ok items
  | .map t fs => if (Yaml.map t fs).fields = [] then .ok [] else .error .invalidNode
  | _ => .ok []

/-- `ParseCacheTopics`. -/
def parseCacheTopics (node : Yaml) : Except Error (List String) := do
  let items ← iterate node
  items.mapM asString

/-- `TopicMeta`. -/
structure TopicMeta where
  topicName : String
  msgType : String
  backend : List String
  recordEnabled : Bool := true
  cacheLastMsg : Bool := false
deriving DecidableEq, Repr

/-- `ParseTopicLists`: a topic of no known type is left out. -/
def parseTopicLists (hash : HashOrder (String × List String)) (topicMap : List (String × String))
    (backendAndTopics : BackendAndTopics) (cacheLastMsgTopics : List String) : List TopicMeta :=
  (hash.order backendAndTopics.entries).filterMap fun (topic, backends) =>
    (topicMap.lookup topic).map fun msgType => {
      topicName := topic, msgType, backend := backends
      cacheLastMsg := cacheLastMsgTopics.contains topic }

/-- The loop of `ParseTopicYaml`: the first type of a topic counts, and an exception ends it. -/
def parseTopicYaml : List Yaml → List (String × String) → List (String × String)
  | [], topicMap => topicMap
  | node :: metaList, topicMap =>
    match node.get "topic_name", node.get "msg_type" with
    | .ok name, .ok type =>
      if !name.isDefined || !type.isDefined then parseTopicYaml metaList topicMap
      else
        match name.asString, type.asString with
        | .ok topic, .ok type => parseTopicYaml metaList (Assoc.ensure type topic topicMap)
        | _, _ => topicMap
    | _, _ => topicMap

/-! ### Actions -/

/-- `Action`. -/
structure Action where
  actionName : String
  mode : String
  method : String
  isEnable : Bool
  recordEnabled : Bool
  recordEnabledNow : Bool := false
  isAutoUpload : Bool
  hasUpdateMetadata : Bool := false
  preparationDurationS : UInt32
  recordDurationS : UInt32
  maxRecordDurationS : UInt32
  skipDurationS : UInt32
  playDurationS : UInt32
  playbackBagPath : String
  backendAndTopics : BackendAndTopics := {}
  cacheLastMsgTopics : List String := []
  topicList : List TopicMeta := []
  extraFilePath : List String := []

/-- `as<std::vector<std::string>>()`. -/
def asStrings : Yaml → Except Error (List String)
  | .seq _ items => items.mapM asString
  | _ => .error .badConversion

/-- The last part of `ParseAction`, behind the check of `topics`: the catch clause keeps what was
assigned. -/
def parseLists (reader : Reader) (topicMap : List (String × String)) (act : Action)
    (topics cacheLastMsgTopics extraFilePath : Yaml) : Action :=
  match parseBackendAndTopics reader.env topics.items with
  | .error _ => act
  | .ok backendAndTopics =>
    match parseCacheTopics cacheLastMsgTopics with
    | .error _ => { act with backendAndTopics }
    | .ok cache =>
      let act := { act with
        backendAndTopics, cacheLastMsgTopics := cache
        topicList := parseTopicLists reader.hash topicMap backendAndTopics cache }
      match asStrings extraFilePath with
      | .error _ => act
      | .ok extraFilePath => { act with extraFilePath }

/-- The first part of `ParseAction`, before it reads the topics. -/
def parseOwnFields (reader : Reader) (action : Yaml) : Except Error Action := do
  let actionName ← action.get "action_name"
  let mode ← action.get "mode"
  let method ← action.get "method"
  let preparationDurationS ← action.get "preparation_duration_s"
  let recordDurationS ← action.get "record_duration_s"
  let maxRecordDurationS ← action.get "max_record_duration_s"
  let skipDurationS ← action.get "skip_duration_s"
  let playDurationS ← action.get "play_duration_s"
  let playbackBagPath ← action.get "playback_bag_path"
  let isEnable ← action.get "is_enable"
  let recordEnabled ← action.get "record_enabled"
  let isAutoUpload ← action.get "is_auto_upload"
  return {
    actionName := actionName.asStringOr ""
    mode := mode.asStringOr ""
    method := method.asStringOr ""
    preparationDurationS := (reader.asUint32 preparationDurationS).getD 0
    recordDurationS := (reader.asUint32 recordDurationS).getD 0
    maxRecordDurationS := (reader.asUint32 maxRecordDurationS).getD 0
    skipDurationS := (reader.asUint32 skipDurationS).getD 0
    playDurationS := (reader.asUint32 playDurationS).getD 0
    playbackBagPath := playbackBagPath.asStringOr ""
    isEnable := (reader.asBool isEnable).getD false
    recordEnabled := (reader.asBool recordEnabled).getD true
    recordEnabledNow := (reader.asBool recordEnabled).getD false
    isAutoUpload := (reader.asBool isAutoUpload).getD false }

/-- `ParseAction`: an error is an exception that leaves the function. -/
def parseAction (reader : Reader) (topicMap : List (String × String)) (action : Yaml) :
    Except Error Action := do
  let act ← parseOwnFields reader action
  let topics ← action.get "topics"
  if !topics.isSequence then return act
  let cacheLastMsgTopics ← action.get "cache_last_msg_topics"
  let extraFilePath ← action.get "extra_file_path"
  return parseLists reader topicMap act topics cacheLastMsgTopics extraFilePath

/-- `SocCfg`. -/
structure SocCfg where
  maxSingleBagSize : Int32
  allBagSize : Int32
  isFctl : Bool
  msgWriteInterval : Int32
  msgWriteIntervalTime : Int32
  recordBagPath : String
  actions : List Action := []
  compressionMode : String
  compressionLevel : String

/-- The loop over the actions: an invalid one is skipped. -/
def parseActions (reader : Reader) (topicMap : List (String × String)) (actions : List Yaml) :
    List Action :=
  actions.filterMap fun action => (parseAction reader topicMap action).toOption

/-- `LoadConfig` of a document: an error is an exception before anything is assigned. -/
def loadConfig (reader : Reader) (topicMap : List (String × String)) (node : Yaml) :
    Except Error SocCfg := do
  let maxSingleBagSize ← node.get "max_single_bag_size"
  let allBagSize ← node.get "all_bag_size"
  let isFctl ← node.get "is_fctl"
  let msgWriteInterval ← node.get "msg_write_interval"
  let msgWriteIntervalTime ← node.get "msg_write_interval_time"
  let recordBagPath ← node.get "record_bag_path"
  let compressionMode ← node.get "compression_mode"
  let compressionLevel ← node.get "compression_level"
  let actions ← node.get "actions"
  return {
    maxSingleBagSize := (reader.asInt32 maxSingleBagSize).getD 1000
    allBagSize := (reader.asInt32 allBagSize).getD 100
    isFctl := (reader.asBool isFctl).getD true
    msgWriteInterval := (reader.asInt32 msgWriteInterval).getD 1000
    msgWriteIntervalTime := (reader.asInt32 msgWriteIntervalTime).getD 1000
    recordBagPath := recordBagPath.asStringOr "/agibot/data/bag/"
    compressionMode := compressionMode.asStringOr "zstd"
    compressionLevel := compressionLevel.asStringOr "default"
    actions := parseActions reader topicMap actions.items }

/-! ### What the channels and the plugin are given -/

/-- What `RecordPlaybackSetting` reads of the action for the channels. -/
def Action.setting (hash : HashOrder (String × List String)) (action : Action) :
    RecordPlayback.Action where
  isEnable := action.isEnable
  method := action.method
  backendAndTopics := hash.order action.backendAndTopics.entries
  distinct := (((hash.perm _).map Prod.fst).nodup_iff).mpr action.backendAndTopics.distinct

/-- `record_playback::ExecutorType`. -/
inductive ExecutorType where
  | recordThread
  | storageExecutor
  | playbackThreadPool
deriving DecidableEq, Repr

/-- `record_playback::TopicMetaList`. -/
structure TopicMetaList where
  topicName : String
  msgType : String
  serializationType : String := ""
  recordEnabled : Bool := false
  cacheLastMsg : Bool := false
deriving DecidableEq, Repr

/-- `record_playback::StoragePolicy`. -/
structure StoragePolicy where
  storageFormat : String
  maxBagSizeM : Int32
  maxBagNum : Int32 := 0
  msgWriteInterval : Int32
  msgWriteIntervalTime : Int32
  compressionMode : String
  compressionLevel : String

/-- `record_playback::RecordActions` with its options. -/
structure RecordActions where
  name : String
  bagPath : String
  mode : String
  maxPreparationDurationS : UInt64
  executor : ExecutorType
  storagePolicy : StoragePolicy
  topicMetaList : List TopicMetaList
  recordEnabled : Bool
  extraFilePath : List String

/-- `record_playback::PlaybackActions` with its options. -/
structure PlaybackActions where
  name : String
  bagPath : String
  mode : String
  executor : ExecutorType
  skipDurationS : UInt32
  playDurationS : UInt32
  topicMetaList : List TopicMetaList

/-- The record action that `RecordPlaybackSetting` makes of an action. -/
def toRecordActions (soccfg : SocCfg) (action : Action) : RecordActions where
  name := action.actionName
  bagPath := soccfg.recordBagPath ++ action.mode ++
    (if action.mode = "signal" then "/" ++ action.actionName else "")
  mode := action.mode
  maxPreparationDurationS :=
    if action.mode = "signal" then action.preparationDurationS.toUInt64 else 0
  executor := .recordThread
  storagePolicy := {
    storageFormat := "mcap"
    maxBagSizeM := soccfg.maxSingleBagSize
    msgWriteInterval := soccfg.msgWriteInterval
    msgWriteIntervalTime := soccfg.msgWriteIntervalTime
    compressionMode := soccfg.compressionMode
    compressionLevel := soccfg.compressionLevel }
  topicMetaList := action.topicList.map fun topic => {
    topicName := topic.topicName, msgType := topic.msgType
    recordEnabled := topic.recordEnabled, cacheLastMsg := topic.cacheLastMsg }
  recordEnabled := action.recordEnabled
  extraFilePath := action.extraFilePath

/-- The lambda `LoadTopicMeta` of `ParsePlaybackYaml`. -/
def loadTopicMeta (node : Yaml) : Except Error TopicMetaList := do
  let topicName ← (← node.get "topic_name").asString
  let msgType ← (← node.get "msg_type").asString
  let serializationType ← node.get "serialization_type"
  if serializationType.isDefined then
    return { topicName, msgType, serializationType := ← serializationType.asString }
  else return { topicName, msgType }

/-- `std::transform` with a function that may throw: what was pushed before stays. -/
def transformUntilThrow : List Yaml → List TopicMetaList
  | [] => []
  | node :: nodes =>
    match loadTopicMeta node with
    | .ok topicMeta => topicMeta :: transformUntilThrow nodes
    | .error _ => []

/-- `ParsePlaybackYaml`. -/
def parsePlaybackYaml (reader : Reader) (yamlPath : String) : List TopicMetaList :=
  match reader.loadFile yamlPath with
  | none => []
  | some config =>
    match config.get "aimrt_bagfile_information" with
    | .error _ => []
    | .ok information =>
      match information.get "topics" with
      | .error _ => []
      | .ok topics => transformUntilThrow topics.items

/-- The playback actions that `RecordPlaybackSetting` makes of an action: one for each bag. -/
def toPlaybackActions (reader : Reader) (action : Action) : List PlaybackActions :=
  ((parsePlayback action.playbackBagPath).filter reader.isDirectory).map fun bagPath => {
    name := action.actionName
    bagPath := bagPath
    mode := action.mode
    executor := .playbackThreadPool
    skipDurationS := action.skipDurationS
    playDurationS := action.playDurationS
    topicMetaList := parsePlaybackYaml reader (bagPath ++ "metadata.yaml") }

/-- `record_actionses` of `RecordPlaybackSetting`. -/
def recordActionses (soccfg : SocCfg) : List RecordActions :=
  (soccfg.actions.filter fun action => action.isEnable && action.method = "record").map
    (toRecordActions soccfg)

/-- `playback_actionses` of `RecordPlaybackSetting`. -/
def playbackActionses (reader : Reader) (soccfg : SocCfg) : List PlaybackActions :=
  (soccfg.actions.filter fun action => action.isEnable && action.method = "playback").flatMap
    (toPlaybackActions reader)

end AimrtComm.RecordPlayback.ParseCmd
