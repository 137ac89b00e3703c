import AimrtComm.Cfg.AimRTConfig

/-!
# The `WithDefault` functions

How the program adds to its own configuration object (`cfg.h`, `cfg.cpp`): `Visit` finds the first
element of an alternative, the operators of `Assign` append with or without looking for one, and
the `WithDefault` functions put these together.
-/

namespace AimrtComm.Cfg

/-! ### Lists of variants -/

section Variants

variable {α τ : Type*} [DecidableEq τ] (type : α → τ)

/-- `Assign::operator=` and `Append::operator+=`: append the value. -/
def assign (value : α) (backends : List α) : List α := backends ++ [value]

/-- `Assign::operator|=`: append the value unless there is an element of its alternative. -/
def assignIfAbsent (value : α) (backends : List α) : List α :=
  if type value ∈ backends.map type then backends else backends ++ [value]

/-- `Visit`: handle the first element of an alternative, on which `func` is defined; none when there
is no such element. -/
def visit (func : α → Option α) : List α → Option (List α)
  | [] => none
  | i :: data =>
    match func i with
    | some i' => some (i' :: data)
    | none => (visit func data).map fun data' => i :: data'

end Variants

namespace AimRTConfig

variable (cfg : AimRTConfig)

/-- `DEFAULT_TIMEOUT_EXECUTOR` -/
def defaultTimeoutExecutor : String := "default_timeout_executor"

/-- `DEFAULT_TIMEOUT_TIME_WHEEL` -/
def defaultTimeoutTimeWheel : String := "default_timeout_time_wheel"

/-- The time wheel that `TryAddDefaultTimeoutExecutor` looks for. -/
def isDefaultTimeWheel : ExeBackend → Bool
  | .timeWheel name _ => name = defaultTimeoutTimeWheel
  | _ => false

/-- `TryAddDefaultTimeoutExecutor`. -/
def tryAddDefaultTimeoutExecutor : AimRTConfig :=
  if cfg.executors.any isDefaultTimeWheel then cfg
  else
    { cfg with
      executors := assign (.timeWheel defaultTimeoutTimeWheel
          (some { bindExecutor := some defaultTimeoutExecutor }))
        (assign (.asioThread defaultTimeoutExecutor none) cfg.executors) }

/-- `WithDefaultLocal`. -/
def withDefaultLocal : AimRTConfig :=
  { cfg with
    chBackends := assignIfAbsent ChBackend.type .local cfg.chBackends
    rpcBackends := assignIfAbsent RpcBackend.type .local cfg.rpcBackends }

/-- `WithDefaultRos`. -/
def withDefaultRos : AimRTConfig :=
  if .ros2 ∈ cfg.plugins.map PluginBackend.type then cfg
  else
    { cfg with
      plugins := assignIfAbsent PluginBackend.type .ros2 cfg.plugins
      chBackends := assignIfAbsent ChBackend.type (.ros2 none) cfg.chBackends
      rpcBackends := assignIfAbsent RpcBackend.type (.ros2 (some ⟨some defaultTimeoutTimeWheel⟩))
        cfg.rpcBackends }.tryAddDefaultTimeoutExecutor

/-- `WithDefaultMqtt`. -/
def withDefaultMqtt (brokerIp : String) : AimRTConfig :=
  { cfg with
    plugins := assignIfAbsent PluginBackend.type
      (.mqtt ("tcp://" ++ brokerIp ++ ":1883") (some 10240)) cfg.plugins
    chBackends := assignIfAbsent ChBackend.type .mqtt cfg.chBackends
    rpcBackends := assignIfAbsent RpcBackend.type (.mqtt (some ⟨some defaultTimeoutTimeWheel⟩))
      cfg.rpcBackends }.tryAddDefaultTimeoutExecutor

/-- `WithDefaultZenoh`. -/
def withDefaultZenoh : AimRTConfig :=
  { cfg with
    plugins := assignIfAbsent PluginBackend.type .zenoh cfg.plugins
    chBackends := assignIfAbsent ChBackend.type .zenoh cfg.chBackends
    rpcBackends := assignIfAbsent RpcBackend.type (.zenoh (some ⟨some defaultTimeoutTimeWheel⟩))
      cfg.rpcBackends }.tryAddDefaultTimeoutExecutor

/-- `WithDefaultIceoryx`. -/
def withDefaultIceoryx : AimRTConfig :=
  { cfg with
    plugins := assignIfAbsent PluginBackend.type .iceoryx cfg.plugins
    chBackends := assignIfAbsent ChBackend.type .iceoryx cfg.chBackends }

/-- `LOG_TOPIC` -/
def logTopic : String := "/aima/log/module_log"

/-- Insert an option at the front of `pub_topics_options`. -/
def insertPub (option : PubOption) : AimRTConfig :=
  { cfg with pubTopicsOptions := option :: cfg.pubTopicsOptions }

/-- Insert an option at the front of `servers_options`. -/
def insertServer (option : CliOption) : AimRTConfig :=
  { cfg with serversOptions := option :: cfg.serversOptions }

/-- `TryAddTopicLogger`. -/
def tryAddTopicLogger : AimRTConfig :=
  if .topicLogger ∈ cfg.plugins.map PluginBackend.type then cfg
  else
    { cfg with
      plugins := assignIfAbsent PluginBackend.type .topicLogger cfg.plugins
      logBackends := assignIfAbsent LogBackend.type
        (.topicLogger {
          topicName := logTopic
          timerExecutorName := defaultTimeoutTimeWheel
          intervalMs := 100
          maxMsgSize := 2 ^ 64 - 1 }) cfg.logBackends
      : AimRTConfig }.tryAddDefaultTimeoutExecutor.withDefaultRos.insertPub
        { topicName := logTopic, enableBackends := [.ros2] }

/-- `SetBackendTopic`. -/
def setBackendTopic (method topicName : String) (enableBackends : List Ch) : AimRTConfig :=
  if method = "record" then
    { cfg with subTopicsOptions := cfg.subTopicsOptions ++ [{ topicName, enableBackends }] }
  else if method = "playback" then
    { cfg with pubTopicsOptions := cfg.pubTopicsOptions ++ [{ topicName, enableBackends }] }
  else cfg

end AimRTConfig

end AimrtComm.Cfg
