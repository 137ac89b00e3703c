import AimrtComm.Lib.Transition
import AimrtComm.Yaml.Basic
import Mathlib.Data.Int.Notation

/-!
# The recording switch of an action

The tool keeps a copy `record_enabled_now` of the recording switch of each action, whose other copy
is in the record plugin.  Both start from the optional key `record_enabled` of the action's yaml:
`ParseAction` (`record_playback/src/parse_cmd.h`) reads the tool's copy and the value that
`RecordPlaybackSetting` (`util.h`) hands to the plugin.  `UpdateActionEnable` and
`UpdateRecordAction` (`record.cpp`) ask the plugin to change its copy and follow when it accepts.

The plugin is known by what it was told: the value in `RecordActions`, and then the values of the
requests that it accepted, each for the actions of a name.  `asBool` is `as<bool>` of the YAML
library, none where the conversion fails.
-/

namespace AimrtComm.RecordPlayback

open Cfg

/-! ### Reading the actions -/

/-- The fields of an `Action` that its switch depends on. -/
structure SwitchAction where
  actionName : String
  method : String
  isEnable : Bool
  /-- the switch in the configuration file -/
  recordEnabled : Bool
  /-- the actual switch -/
  recordEnabledNow : Bool := false
deriving DecidableEq, Repr

section

variable (asBool : Yaml → Option Bool)

/-- `ParseAction`: an error is an exception that leaves the function.  What it reads of topics comes
after these fields, and its exceptions are caught. -/
def parseAction (action : Yaml) : Except Error SwitchAction := do
  let actionName ← action.get "action_name"
  let method ← action.get "method"
  let isEnable ← action.get "is_enable"
  let recordEnabled ← action.get "record_enabled"
  return {
    actionName := actionName.asStringOr ""
    method := method.asStringOr ""
    isEnable := (asBool isEnable).getD false
    recordEnabled := (asBool recordEnabled).getD true
    recordEnabledNow := (asBool recordEnabled).getD false }

/-- The loop over the actions in `LoadConfig`: an invalid one is skipped. -/
def loadActions (actionsNode : List Yaml) : List SwitchAction :=
  actionsNode.filterMap fun action =>
    match parseAction asBool action with
    | .ok act => some act
    | .error _ => none

end

/-- The action goes to the record part of the plugin. -/
def SwitchAction.isRecorded (action : SwitchAction) : Bool :=
  action.isEnable && action.method = "record"

/-- The names and switches of `record_actionses` in `RecordPlaybackSetting`. -/
def recordActionses (actions : List SwitchAction) : List (String × Bool) :=
  (actions.filter SwitchAction.isRecorded).map fun action =>
    (action.actionName, action.recordEnabled)

/-! ### Changing a switch -/

/-- How an rpc goes: there is no proxy, its status is not OK, or it is answered with a code. -/
inductive RpcOutcome where
  | noProxy
  | notOk
  | answered (code : ℤ)
deriving DecidableEq, Repr

/-- The plugin accepts the request. -/
def RpcOutcome.accepted : RpcOutcome → Bool
  | .answered code => code = 0
  | _ => false

/-- Set the switch of the action that `find_if` finds by its name; none when there is no such
action. -/
def setRecordEnabledNow (actionName : String) (recordEnabled : Bool) :
    List SwitchAction → Option (List SwitchAction)
  | [] => none
  | action :: actions =>
    if action.actionName = actionName then
      some ({ action with recordEnabledNow := recordEnabled } :: actions)
    else (setRecordEnabledNow actionName recordEnabled actions).map (action :: ·)

/-- An update of the switch of an action: what it returns, and the actions after it. -/
def updateSwitch (outcome : RpcOutcome) (actionName : String) (recordEnabled : Bool)
    (actions : List SwitchAction) : Bool × List SwitchAction :=
  match outcome with
  | .noProxy | .notOk => (false, actions)
  | .answered code =>
    if code ≠ 0 then (false, actions)
    else
      match setRecordEnabledNow actionName recordEnabled actions with
      | none => (false, actions)
      | some actions => (true, actions)

/-- `record_playback_msgs::msg::TopicMeta`. -/
structure TopicMeta where
  topicName : String
  msgType : String
  recordEnabled : Bool
deriving DecidableEq, Repr

/-- `record_playback_msgs::srv::UpdateRecordAction::Request`. -/
structure UpdateRequest where
  actionName : String
  recordEnabled : Bool
  topicMetas : List TopicMeta := []
deriving DecidableEq, Repr

/-- `UpdateActionEnable`. -/
def updateActionEnable (outcome : RpcOutcome) (actionName : String) (recordEnabled : Bool)
    (actions : List SwitchAction) : Bool × List SwitchAction :=
  updateSwitch outcome actionName recordEnabled actions

/-- `UpdateRecordAction`. -/
def updateRecordAction (outcome : RpcOutcome) (req : UpdateRequest)
    (actions : List SwitchAction) : Bool × List SwitchAction :=
  updateSwitch outcome req.actionName req.recordEnabled actions

/-! ### The two copies -/

/-- A call of one of the two functions. -/
inductive UpdateCall where
  | updateActionEnable (actionName : String) (recordEnabled : Bool)
  | updateRecordAction (req : UpdateRequest)
deriving DecidableEq, Repr

/-- The request of the call: the same message for both functions, without topics for the first. -/
def UpdateCall.request : UpdateCall → UpdateRequest
  | .updateActionEnable actionName recordEnabled => { actionName, recordEnabled }
  | .updateRecordAction req => req

/-- What the call returns, and the actions after it. -/
def UpdateCall.perform (outcome : RpcOutcome) (actions : List SwitchAction) :
    UpdateCall → Bool × List SwitchAction
  | .updateActionEnable actionName recordEnabled =>
    RecordPlayback.updateActionEnable outcome actionName recordEnabled actions
  | .updateRecordAction req => RecordPlayback.updateRecordAction outcome req actions

/-- `soc_cfg_.actions`, and the names and switches of the record actions in the plugin. -/
structure Switches where
  actions : List SwitchAction
  plugin : List (String × Bool)
deriving DecidableEq, Repr

/-- The plugin after a request. -/
def pluginUpdate (outcome : RpcOutcome) (req : UpdateRequest) (plugin : List (String × Bool)) :
    List (String × Bool) :=
  if outcome.accepted then
    plugin.map fun entry =>
      if entry.1 = req.actionName then (entry.1, req.recordEnabled) else entry
  else plugin

/-- The switches from the start of the tool on; an event is a call with the outcome of its rpc. -/
def switchSystem (actions : List SwitchAction) : System Switches (UpdateCall × RpcOutcome) where
  init := { actions, plugin := recordActionses actions }
  step s e := some {
    actions := (e.1.perform e.2 s.actions).2
    plugin := pluginUpdate e.2 e.1.request s.plugin }

end AimrtComm.RecordPlayback
