import AimrtComm.Common.TopicHzCalculator
import AimrtComm.Lib.Transition
import AimrtComm.Monitor.Registry

/-!
# `MonitorPlugin` and `DataManager`

Two filters tell the plugin of every message, one coroutine collects the frequencies of the topics,
another one the resources of the process, and a third one sends heartbeats with what the others
have left.  Collecting holds the mutex of `DataManager`, but messages come in between the
statistics of two topics; a heartbeat takes the mutex for each of the two maps that it copies.

Times are left to the events: when the coroutines go on, and what the clock shows at a message and
at each of the statistics.
-/

namespace AimrtComm.Monitor

open Common Function

/-- Whether topics are subscribed to or published. -/
inductive Side where
  | sub
  | pub
deriving DecidableEq, Repr

/-- The topic of a name and a type, as the calculators know it. -/
def hzTopic (topicName msgType : String) : Common.TopicInfo where
  processName := ""
  topicName := topicName
  msgType := msgType

def TopicInfo.hzTopic (info : TopicInfo) : Common.TopicInfo :=
  Monitor.hzTopic info.topicName info.msgType

/-- What `DataManager` keeps of the topics of one side: the list, the calculator, and the statistics
that were collected last, default ones where the map has none. -/
structure Topics where
  topicSet : List TopicInfo := []
  hzCalculate : TopicHzCalculator := {}
  hzMap : Common.TopicInfo → TopicFrequencyStats := fun _ => {}

/-- `SetSubTopicInfoList` and `SetPubTopicInfoList`. -/
def Topics.setTopicInfoList (self : Topics) (topicList : List TopicInfo) :
    Except String Topics := do
  let hzCalculate ←
    self.hzCalculate.initializeTopics (topicList.map TopicInfo.hzTopic) 5000
  return { self with topicSet := topicList, hzCalculate }

/-- `CollectData` under way: the side whose statistics are made, the topics that are still to come,
what was made, and the order of the topics that are published. -/
structure Collecting where
  side : Side
  rest : List Common.TopicInfo
  allStats : Common.TopicInfo → TopicFrequencyStats
  pubOrder : List Common.TopicInfo

/-- `ProcessResourceInfo`. -/
structure ProcessResourceInfo where
  pid : UInt64
  memUsage : UInt64
  memUsageRatio : Float32
  cpuUsageRatio : Float32
  threadCount : UInt64
  cpuSchedPolicy : String
  cpuSchedPriority : Int32
  boundingCpus : List Int32

/-- A topic in a heartbeat. -/
structure TopicReport where
  name : String
  type : String
  hz : Float
  max : Float
  min : Float
  stdDev : Float
  window : ℕ
  timeoutThres : Float
  backends : List String
  isActive : Bool

/-- `ProcessHeartbeatChannel`. -/
structure Heartbeat where
  name : String
  topicInfo : Side → List TopicReport
  /-- None if nothing was collected yet, when the message has what the memory held. -/
  resourceInfo : Option ProcessResourceInfo
  pluginInfo : List (String × String)

/-- Where the coroutine `HeartBeat` is. -/
inductive HeartbeatPc where
  /-- At the head of the loop. -/
  | top
  | readPub
  | readSub (pubTopicHzMap : Common.TopicInfo → TopicFrequencyStats)
  /-- With its copies of both maps. -/
  | build (hzMap : Side → Common.TopicInfo → TopicFrequencyStats)
  | finished

/-- The plugin.  The last field is no data of the program but its history. -/
structure State where
  /-- `runFlag_` -/
  runFlag : Bool
  /-- `init_flag_` -/
  initFlag : Bool
  /-- The coroutines were posted. -/
  posted : Bool
  topics : Side → Topics
  collecting : Option Collecting
  pc : HeartbeatPc
  /-- `self_process_res_info_` -/
  resourceInfo : Option ProcessResourceInfo
  /-- The heartbeats that were published, the last one first. -/
  sent : List Heartbeat

/-- What happens next. -/
inductive Event where
  /-- `MonitorChannelBackend::Start` -/
  | start (aimrtConfig : Yaml) (publishTypes subscribes : List TopicKey)
  /-- The hook `kPostStart` posts the coroutines. -/
  | postStart
  /-- A filter is told of a message. -/
  | feed (side : Side) (topicName msgType : String) (currentTime : ℤ)
  /-- `CollectData` is called, and goes through the topics of each side in this order. -/
  | collect (order : Side → List Common.TopicInfo)
  /-- `CollectData` goes on with the next topic, or with what follows the last one. -/
  | calculate (currentTime : ℤ)
  /-- `HeartBeat` goes on. -/
  | heartbeat
  /-- `CollectResourceInfo` has read these. -/
  | resource (info : ProcessResourceInfo)
  /-- The hook `kPreShutdown`. -/
  | shutdown

/-- What the plugin was configured with. -/
structure Options where
  regexMatch : String → String → Option Bool
  nodeName : String := "anonymity"
  pluginCfg : List (String × String) := []

/-! ### Messages and lists -/

namespace State

variable (s : State)

def setTopics (side : Side) (topics : Topics) : State :=
  { s with topics := update s.topics side topics }

/-- `SetSubTopicInfoList` and `SetPubTopicInfoList` at the end of `MonitorChannelBackend::Start`,
which may throw. -/
def start (o : Options) (aimrtConfig : Yaml) (publishTypes subscribes : List TopicKey) :
    Option State :=
  match channelStart o.regexMatch aimrtConfig publishTypes subscribes with
  | .error _ => none
  | .ok (subTopicList, pubTopicList) =>
    match (s.topics .sub).setTopicInfoList subTopicList,
      (s.topics .pub).setTopicInfoList pubTopicList with
    | .ok sub, .ok pub =>
      let s := (s.setTopics .sub sub).setTopics .pub pub
      some { s with initFlag := true }
    | _, _ => none

/-- `OnSubscribeFilter` and `OnPublishFilter`. -/
def feed (side : Side) (topicName msgType : String) (currentTime : ℤ) : State :=
  let topics := s.topics side
  let hzCalculate := topics.hzCalculate.feedTopic (hzTopic topicName msgType) currentTime
  s.setTopics side { topics with hzCalculate }

/-! ### `CollectData` -/

/-- The topics that the calculator of a side goes through. -/
def known (side : Side) : List Common.TopicInfo := (s.topics side).topicSet.map TopicInfo.hzTopic

/-- `CollectData` from the call until it has the mutex. -/
def collect (order : Side → List Common.TopicInfo) : Option State :=
  if s.posted ∧ s.runFlag ∧ s.collecting.isNone then
    if !s.initFlag then some s
    else if ∀ side ∈ [Side.sub, .pub], (order side).Perm (s.known side) then
      some { s with collecting := some ⟨.sub, order .sub, fun _ => {}, order .pub⟩ }
    else none
  else none

/-- The next step of `CollectData`. -/
def calculate (currentTime : ℤ) : Option State :=
  match s.collecting with
  | none => none
  | some c =>
    let topics := s.topics c.side
    match c.rest with
    | topic :: rest =>
      let (hzCalculate, stats) := topics.hzCalculate.calculate topic currentTime
      let s := s.setTopics c.side { topics with hzCalculate }
      some { s with
        collecting := some { c with rest := rest, allStats := update c.allStats topic stats } }
    | [] =>
      -- the map of this side is complete
      let s := s.setTopics c.side { topics with hzMap := c.allStats }
      match c.side with
      | .sub =>
        some { s with collecting := some ⟨.pub, c.pubOrder, fun _ => {}, c.pubOrder⟩ }
      | .pub => some { s with collecting := none }

/-! ### `HeartBeat` -/

/-- What a heartbeat says of a topic. -/
def topicReport (hzMap : Common.TopicInfo → TopicFrequencyStats) (oneTopic : TopicInfo) :
    TopicReport :=
  let state := hzMap oneTopic.hzTopic
  { name := oneTopic.topicName
    type := oneTopic.msgType
    hz := state.rate
    max := state.maxDelta
    min := state.minDelta
    stdDev := state.stdDev
    window := state.windowSize
    timeoutThres := state.timeoutThreshold
    backends := oneTopic.backends
    isActive := state.isActive }

/-- The message of a heartbeat. -/
def message (o : Options) (hzMap : Side → Common.TopicInfo → TopicFrequencyStats) :
    Heartbeat where
  name := o.nodeName
  topicInfo side := (s.topics side).topicSet.map (topicReport (hzMap side))
  resourceInfo := s.resourceInfo
  pluginInfo := o.pluginCfg

/-- The next step of `HeartBeat`. -/
def heartbeat (o : Options) : Option State :=
  if !s.posted then none
  else
    match s.pc with
    | .top => some { s with pc := if s.runFlag then .readPub else .finished }
    | .readPub =>
      if s.collecting.isNone then some { s with pc := .readSub (s.topics .pub).hzMap } else none
    | .readSub pubTopicHzMap =>
      if s.collecting.isNone then
        some { s with pc := .build fun side =>
          match side with
          | .sub => (s.topics .sub).hzMap
          | .pub => pubTopicHzMap }
      else none
    | .build hzMap => some { s with pc := .top, sent := s.message o hzMap :: s.sent }
    | .finished => none

/-- The effect of an event. -/
def step (o : Options) (s : State) : Event → Option State
  | .start aimrtConfig publishTypes subscribes => s.start o aimrtConfig publishTypes subscribes
  | .postStart =>
    if (s.topics .sub).hzCalculate.step = .running ∧ !s.posted then some { s with posted := true }
    else none
  | .feed side topicName msgType currentTime => some (s.feed side topicName msgType currentTime)
  | .collect order => s.collect order
  | .calculate currentTime => s.calculate currentTime
  | .heartbeat => s.heartbeat o
  | .resource info => if s.posted then some { s with resourceInfo := some info } else none
  | .shutdown => some { s with runFlag := false, initFlag := false }

end State

/-- The plugin after `DoInitliaze`. -/
def plugin (o : Options) : System State Event where
  init :=
    { runFlag := true, initFlag := false, posted := false, topics := fun _ => {},
      collecting := none, pc := .top, resourceInfo := none, sent := [] }
  step := State.step o

end AimrtComm.Monitor
