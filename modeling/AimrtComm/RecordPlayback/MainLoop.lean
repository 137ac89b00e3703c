import AimrtComm.RecordPlayback.Record
import AimrtComm.RecordPlayback.Switch

/-!
# The main loop of the record tool

`MainLoop` (`record_playback/src/record.cpp`) takes turns for as long as the module may run.  A turn
keeps the recordings below the capacity (`deleteOldestFiles`) and has the plugin write the metadata
of the actions of the mode `imd` for which it has not done so yet (`UpdateMetadata`).  The capacity
is the option `max_file_size` that `OnConfigure` computes.

Other processes change the disk between the turns, while the loop sleeps, and not during one.  An
exception ends the coroutine.  What the loop does to the memory of the process every 600 turns is
left out.
-/

namespace AimrtComm.RecordPlayback

/-! ### Metadata -/

/-- What `UpdateMetadata` reads of the machine. -/
structure Machine where
  model : String
  sn : String
  socIndex : ℕ
  releaseVersion : String
  protocolVersion : String
deriving DecidableEq, Repr

/-- `UpdateMetadataReq`. -/
structure UpdateMetadataReq where
  actionName : String
  kvPairs : List (String × String)
deriving DecidableEq, Repr

/-- The request that `UpdateMetadata` sends. -/
def updateMetadataReq (machine : Machine) (bagId actionName mode : String) :
    UpdateMetadataReq where
  actionName := actionName
  kvPairs := [
    ("robot_model", machine.model),
    ("robot_sn", machine.sn),
    ("soc_index", toString machine.socIndex),
    ("bag_id", bagId),
    ("release_version", machine.releaseVersion),
    ("proto_version", machine.protocolVersion),
    ("record_mode", mode),
    ("record_action", actionName)]

/-- What a call of `UpdateMetadata` meets: the uuid that is generated, and how the rpc goes. -/
structure Answer where
  bagId : String
  outcome : RpcOutcome
deriving DecidableEq, Repr

/-- A call of `UpdateMetadata` for the action at an index: the request, if one is sent, and what the
call returns. -/
structure MetadataCall where
  index : ℕ
  request : Option UpdateMetadataReq
  ok : Bool
deriving DecidableEq, Repr

/-- `record_module::UpdateMetadata`: the code of an answer is not looked at. -/
def updateMetadata (machine : Machine) (answer : Answer) (index : ℕ) (actionName mode : String) :
    MetadataCall :=
  match answer.outcome with
  | .noProxy => ⟨index, none, false⟩
  | .notOk => ⟨index, some (updateMetadataReq machine answer.bagId actionName mode), false⟩
  | .answered _ => ⟨index, some (updateMetadataReq machine answer.bagId actionName mode), true⟩

/-- The fields of an `Action` that the loop reads and writes. -/
structure LoopAction where
  actionName : String
  mode : String
  isEnable : Bool
  hasUpdateMetadata : Bool := false
deriving DecidableEq, Repr

/-- The loop has to call `UpdateMetadata` for the action. -/
def LoopAction.due (action : LoopAction) : Bool :=
  action.isEnable && !action.hasUpdateMetadata && action.mode = "imd"

/-- The loop over the actions, from an index on, and the calls that it makes. -/
def updateActions (machine : Machine) (answer : ℕ → Answer) :
    ℕ → List LoopAction → List LoopAction × List MetadataCall
  | _, [] => ([], [])
  | i, action :: actions =>
    let (updated, calls) := updateActions machine answer (i + 1) actions
    if action.due then
      let call := updateMetadata machine (answer i) i action.actionName action.mode
      ({ action with hasUpdateMetadata := call.ok } :: updated, call :: calls)
    else (action :: updated, calls)

/-! ### The loop -/

/-- The fields of `SocCfg` that the loop reads. -/
structure SocCfg where
  /-- in GB -/
  allBagSize : Int32
  isFctl : Bool
  recordBagPath : Path
  actions : List LoopAction

/-- `option_.max_file_size`, passed on as an unsigned number. -/
def SocCfg.maxFileSize (soc : SocCfg) : UInt64 :=
  .ofInt (soc.allBagSize.toInt * 1024 * 1024 * 1024)

/-- Whether the loop goes on, has come to its end, or was left by an exception. -/
inductive LoopStatus where
  | running
  | ended
  | thrown
deriving DecidableEq, Repr

structure LoopState where
  status : LoopStatus
  tree : Tree
  actions : List LoopAction
  /-- the turns that came to their end -/
  count : ℕ := 0
  /-- all calls of `UpdateMetadata` so far -/
  calls : List MetadataCall := []

/-- The loop body after the sleep. -/
def loopTurn (std : TimeSort) (machine : Machine) (soc : SocCfg) (written : FileInfo → Written)
    (answer : ℕ → Answer) (s : LoopState) : LoopState :=
  if s.tree.has soc.recordBagPath then
    match getDbFiles s.tree soc.recordBagPath with
    | .error _ => { s with status := .thrown }
    | .ok files =>
      match deleteOldestFiles std written files soc.maxFileSize s.tree with
      | .error thrown => { s with status := .thrown, tree := thrown.disk.tree }
      | .ok disk =>
        let (actions, calls) := updateActions machine answer 0 s.actions
        { s with tree := disk.tree, actions, count := s.count + 1, calls := s.calls ++ calls }
  else s

/-- Other processes leave another tree, the loop takes a turn, or the module has to shut down. -/
inductive LoopEvent where
  | others (tree : Tree)
  | turn (written : FileInfo → Written) (answer : ℕ → Answer)
  | shutdown

/-- `record_module::MainLoop`. -/
def mainLoop (std : TimeSort) (machine : Machine) (soc : SocCfg) (tree : Tree) :
    System LoopState LoopEvent where
  init := { status := if soc.isFctl then .running else .ended, tree, actions := soc.actions }
  step s
    | .others tree => some { s with tree }
    | .turn written answer =>
      if s.status = .running then some (loopTurn std machine soc written answer s) else none
    | .shutdown => if s.status = .running then some { s with status := .ended } else none

end AimrtComm.RecordPlayback
