import AimrtComm.Lib.SearchTree
import AimrtComm.Yaml.Basic

/-!
# The lists of the monitor plugin

When the framework starts, the two backends of the monitor plugin go through everything that was
registered and make lists of topics and of rpc functions, each with the backends that the first
matching rule of the configuration enables.  The lists are a `std::set`, so an element gets into
them only if the comparison of its type tells it from those that are in.

`std::regex_match` is a parameter, none where it throws.
-/

namespace AimrtComm.Monitor

open Yaml

/-- `TopicInfo` of the monitor. -/
structure TopicInfo where
  topicName : String
  msgType : String
  backends : List String
deriving DecidableEq, Repr

/-- `TopicInfo::operator<`. -/
def TopicInfo.Less (x y : TopicInfo) : Prop :=
  x.topicName < y.topicName ∨ x.topicName = y.topicName ∧ x.msgType < y.msgType

instance : DecidableRel TopicInfo.Less := fun x y =>
  inferInstanceAs (Decidable (x.topicName < y.topicName ∨ _ ∧ _))

/-- `RpcFuncInfo`. -/
structure RpcFuncInfo where
  funcName : String
  reqType : String
  rspType : String
  backends : List String
deriving DecidableEq, Repr

/-- `RpcFuncInfo::operator<`: all three names have to be less. -/
def RpcFuncInfo.Less (x y : RpcFuncInfo) : Prop :=
  x.funcName < y.funcName ∧ x.reqType < y.reqType ∧ x.rspType < y.rspType

instance : DecidableRel RpcFuncInfo.Less := fun x y =>
  inferInstanceAs (Decidable (x.funcName < y.funcName ∧ _ ∧ _))

/-! ### Rules -/

/-- Patterns, each with the backends that it enables. -/
abbrev Rules : Type := List (String × List String)

/-- `as<std::vector<std::string>>()`. -/
def asStrings : Yaml → Except Cfg.Error (List String)
  | seq _ items => items.mapM asString
  | _ => .error .badConversion

/-- The body of the loop that collects the rules. -/
def readRule (nameKey : String) (node : Yaml) : Except Cfg.Error (String × List String) := do
  let name ← (← node.get nameKey).asString
  let enableBackends ← asStrings (← node.get "enable_backends")
  return (name, enableBackends)

/-- The rules in a list of options of the configuration, none if there is no such list. -/
def readRules (aimrtConfig : Yaml) (sectionKey optionsKey nameKey : String) :
    Except Cfg.Error Rules := do
  let node ← aimrtConfig.get sectionKey
  if !node.isDefined then return []
  else
    let options ← node.get optionsKey
    if options.isDefined && options.isSequence then options.items.mapM (readRule nameKey)
    else return []

section

variable (regexMatch : String → String → Option Bool)

/-- `GetBackendsByRules`: a pattern that throws is skipped. -/
def getBackendsByRules (topicName : String) : Rules → List String
  | [] => []
  | (topicRegex, enableBackends) :: rules =>
    if regexMatch topicName topicRegex = some true then enableBackends
    else getBackendsByRules topicName rules

/-! ### Topics -/

/-- A topic that was registered for publishing, or that a module subscribed to. -/
structure TopicKey where
  topicName : String
  msgType : String
deriving DecidableEq, Repr

/-- What is shown of a topic. -/
def topicInfo (rules : Rules) (key : TopicKey) : TopicInfo where
  topicName := key.topicName
  msgType := key.msgType
  backends := getBackendsByRules regexMatch key.topicName rules

/-- `MonitorChannelBackend::Start`: the topics that are subscribed to, and those that are published,
from what the framework has registered in the order of its maps. -/
def channelStart (aimrtConfig : Yaml) (publishTypes subscribes : List TopicKey) :
    Except Cfg.Error (List TopicInfo × List TopicInfo) := do
  let subRules ← readRules aimrtConfig "channel" "sub_topics_options" "topic_name"
  let pubRules ← readRules aimrtConfig "channel" "pub_topics_options" "topic_name"
  return (SearchTree.chainOf TopicInfo.Less (subscribes.map (topicInfo regexMatch subRules)),
    SearchTree.chainOf TopicInfo.Less (publishTypes.map (topicInfo regexMatch pubRules)))

/-! ### Rpc functions -/

/-- A function that was registered, with the types of its request and its response. -/
structure FuncWrapper where
  funcName : String
  reqType : String
  rspType : String
deriving DecidableEq, Repr

/-- What is shown of a function. -/
def rpcFuncInfo (rules : Rules) (wrapper : FuncWrapper) : RpcFuncInfo where
  funcName := wrapper.funcName
  reqType := wrapper.reqType
  rspType := wrapper.rspType
  backends := getBackendsByRules regexMatch wrapper.funcName rules

/-- `MonitorRpcBackend::Start`: the services, and the clients. -/
def rpcStart (aimrtConfig : Yaml) (services clients : List FuncWrapper) :
    Except Cfg.Error (List RpcFuncInfo × List RpcFuncInfo) := do
  let serverRules ← readRules aimrtConfig "rpc" "servers_options" "func_name"
  let rpcServiceList :=
    SearchTree.chainOf RpcFuncInfo.Less (services.map (rpcFuncInfo regexMatch serverRules))
  let clientRules ← readRules aimrtConfig "rpc" "clients_options" "func_name"
  let rpcClientList :=
    SearchTree.chainOf RpcFuncInfo.Less (clients.map (rpcFuncInfo regexMatch clientRules))
  return (rpcServiceList, rpcClientList)

end

end AimrtComm.Monitor
