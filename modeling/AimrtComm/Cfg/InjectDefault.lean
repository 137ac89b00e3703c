import AimrtComm.Cfg.Defaults

/-!
# `InjectDefaultCfg`

The steps of `Cfg::Processor::InjectDefaultCfg` (`cfg_processor.cpp`), which add the defaults of
the framework to the configuration object.  `Environment` is what they read besides: the feature
switches, which are environment variables, and the network options of the deployment file.
-/

namespace AimrtComm.Cfg

/-- The settings that the injection reads. -/
structure Environment where
  /-- `DefaultChannelBackends()`, `DefaultRpcBackends()` and `DefaultLoggerBackends()` -/
  defaultChannelBackends : List String
  defaultRpcBackends : List String
  defaultLoggerBackends : List String
  featureHDSNewBackend : String
  featureHeartbeatNewBackend : String
  enableLogControl : Bool
  enableMonitor : Bool
  enableViz : Bool
  featureRos2ChannelQos : String
  featureLogSyncInterval : ℤ
  /-- `rfl::yaml::read<QosOptions>` -/
  readQos : String → Option QosOptions
  /-- `GetNetworkPluginOptions()` -/
  networkOptions : NetOptions
  /-- `ProcName()` -/
  procName : String
  /-- `GetSOCIndex()` -/
  socIndex : ℤ
  /-- `MQTT_BROKER_IP`, `HDS_MONITOR_IP`, `DATA_PROXY_IP` and `RECORD_BAG_IP` -/
  mqttBrokerIp : String
  hdsMonitorIp : String
  dataProxyIp : String
  recordBagIp : String

/-- What stops the injection. -/
inductive InjectError where
  /-- `CANNOT set [{}] as default channel backend !` -/
  | channelBackend (i : String)
  /-- `CANNOT set [{}] as default rpc backend !` -/
  | rpcBackend (i : String)
  /-- `CANNOT set [{}] as default logger backend !` -/
  | loggerBackend (i : String)
  /-- The text of `FeatureRos2ChannelQos` cannot be read. -/
  | qos
deriving DecidableEq, Repr

namespace InjectDefault

open AimRTConfig

variable (env : Environment)

/-! ### `AddDefaultBackends` -/

/-- The loop body for `DefaultChannelBackends`. -/
def addDefaultChannel (cfg : AimRTConfig) (i : String) : Except InjectError AimRTConfig :=
  if i = "ros2" then .ok cfg.withDefaultRos
  else if i = "mqtt" then .ok (cfg.withDefaultMqtt env.mqttBrokerIp)
  else if i = "zenoh" then .ok cfg.withDefaultZenoh
  else if i = "iceoryx" then .ok cfg.withDefaultIceoryx
  else .error (.channelBackend i)

/-- The loop body for `DefaultRpcBackends`. -/
def addDefaultRpc (cfg : AimRTConfig) (i : String) : Except InjectError AimRTConfig :=
  if i = "ros2" then .ok cfg.withDefaultRos
  else if i = "mqtt" then .ok (cfg.withDefaultMqtt env.mqttBrokerIp)
  else if i = "zenoh" then .ok cfg.withDefaultZenoh
  else .error (.rpcBackend i)

/-- The loop body for `DefaultLoggerBackends`. -/
def addDefaultLogger (cfg : AimRTConfig) (i : String) : Except InjectError AimRTConfig :=
  if i = "console" then
    .ok { cfg with logBackends := assignIfAbsent LogBackend.type (.console none) cfg.logBackends }
  else if i = "rotate_file" then
    .ok { cfg with logBackends := assignIfAbsent LogBackend.type (.rotateFile {}) cfg.logBackends }
  else if i = "topic_logger" then .ok cfg.tryAddTopicLogger
  else .error (.loggerBackend i)

/-- `AddDefaultBackends`. -/
def addDefaultBackends (cfg : AimRTConfig) : Except InjectError AimRTConfig := do
  let cfg ← env.defaultChannelBackends.foldlM (addDefaultChannel env) cfg
  let cfg ← env.defaultRpcBackends.foldlM (addDefaultRpc env) cfg
  env.defaultLoggerBackends.foldlM addDefaultLogger cfg

/-! ### `AddDefaultNet` -/

/-- The options of a net plugin. -/
def netOptions? : PluginBackend → Option NetOptions
  | .net options => some options
  | _ => none

/-- The options of the net plugin that `Visit` finds. -/
def firstNet (cfg : AimRTConfig) : Option NetOptions := cfg.plugins.findSome? netOptions?

/-- `need_http_backend` after all its assignments. -/
def needHttpBackend (cfg : AimRTConfig) : Bool :=
  ((firstNet cfg).any fun options => options.httpOptions.isSome)
    || env.networkOptions.httpOptions.isSome

/-- `need_tcp_backend` -/
def needTcpBackend (cfg : AimRTConfig) : Bool :=
  ((firstNet cfg).any fun options => options.tcpOptions.isSome)
    || env.networkOptions.tcpOptions.isSome

/-- `need_udp_backend` -/
def needUdpBackend (cfg : AimRTConfig) : Bool :=
  ((firstNet cfg).any fun options => options.udpOptions.isSome)
    || env.networkOptions.udpOptions.isSome || env.featureHDSNewBackend = "udp"

/-- `configure_net_options` on the net plugin that `Visit` finds. -/
def configureNetOptions : PluginBackend → Option PluginBackend
  | .net options =>
    some (.net { options with
      httpOptions := env.networkOptions.httpOptions.or options.httpOptions
      tcpOptions := env.networkOptions.tcpOptions.or options.tcpOptions
      udpOptions := env.networkOptions.udpOptions.or options.udpOptions })
  | _ => none

/-- The net plugin is created when it is missing and some backend needs it. -/
def addNetPlugin (cfg : AimRTConfig) : AimRTConfig :=
  if (firstNet cfg).isNone
      && (needHttpBackend env cfg || needTcpBackend env cfg || needUdpBackend env cfg) then
    { cfg with plugins := assign (.net { threadNum := 1 }) cfg.plugins }
  else cfg

/-- `AddDefaultNet`. -/
def addDefaultNet (cfg : AimRTConfig) : AimRTConfig :=
  let withNet := addNetPlugin env cfg
  let chBackends := cfg.chBackends
  let chBackends :=
    if needHttpBackend env cfg then assignIfAbsent ChBackend.type .http chBackends else chBackends
  let chBackends :=
    if needTcpBackend env cfg then assignIfAbsent ChBackend.type .tcp chBackends else chBackends
  let chBackends :=
    if needUdpBackend env cfg then assignIfAbsent ChBackend.type (.udp none) chBackends
    else chBackends
  { withNet with
    plugins := (visit (configureNetOptions env) withNet.plugins).getD withNet.plugins
    chBackends
    rpcBackends :=
      if needHttpBackend env cfg then assignIfAbsent RpcBackend.type .http cfg.rpcBackends
      else cfg.rpcBackends }

/-! ### The topics and services of the framework -/

/-- `AddCommunicationOption` on the udp backend that `Visit` finds. -/
def addUdpPubOption (option : UdpPubOption) : ChBackend → Option ChBackend
  | .udp options =>
    let pubTopicsOptions := (options.bind UdpChOption.pubTopicsOptions).getD []
    some (.udp (some { pubTopicsOptions := some (option :: pubTopicsOptions) }))
  | _ => none

/-- `AddCommunicationOption`. -/
def addCommunicationOption (option : UdpPubOption) (cfg : AimRTConfig) : AimRTConfig :=
  { cfg with
    chBackends := (visit (addUdpPubOption option) cfg.chBackends).getD cfg.chBackends }

/-- `HDS_TOPIC` -/
def hdsTopic : String := "/aima/hds/exception"

/-- `AddHDSCfg`. -/
def addHDSCfg (cfg : AimRTConfig) : AimRTConfig :=
  if env.featureHDSNewBackend = "ros2" then
    cfg.withDefaultRos.insertPub { topicName := hdsTopic, enableBackends := [.ros2] }
  else if env.featureHDSNewBackend = "zenoh" then
    cfg.withDefaultZenoh.insertPub { topicName := hdsTopic, enableBackends := [.zenoh] }
  else if env.featureHDSNewBackend = "udp" then
    (addCommunicationOption
      { topicName := hdsTopic
        serverUrlList := [env.hdsMonitorIp ++ ":51587", env.dataProxyIp ++ ":54583",
          env.recordBagIp ++ ":52593"] }
      (addDefaultNet env cfg)).insertPub { topicName := hdsTopic, enableBackends := [.udp] }
  else cfg.insertPub { topicName := hdsTopic, enableBackends := [] }

/-- `Trace_TOPIC` -/
def traceTopic : String := "/aimrte/trace/events"

/-- `AddTraceEventCfg`. -/
def addTraceEventCfg (cfg : AimRTConfig) : AimRTConfig :=
  cfg.withDefaultRos.insertPub { topicName := traceTopic, enableBackends := [.ros2] }

/-- `DEFAULT_MONITOR_EXECUTOR` -/
def defaultMonitorExecutor : String := "default_monitor_executor"

/-- `HEARTBEAT_TOPIC` -/
def heartbeatTopic : String := "/aima/heartbeat"

/-- The plugin, the backends and the executor of the monitor. -/
def addMonitorBackends (cfg : AimRTConfig) : AimRTConfig :=
  { cfg with
    plugins := assign (.monitor defaultMonitorExecutor) cfg.plugins
    chBackends := assign .monitor cfg.chBackends
    rpcBackends := assign (.monitor none) cfg.rpcBackends
    executors := assign (.asioThread defaultMonitorExecutor (some { threadNum := some 3 }))
      cfg.executors }

/-- The heartbeat topic with its backend. -/
def addHeartbeat (cfg : AimRTConfig) : AimRTConfig :=
  if env.featureHeartbeatNewBackend = "ros2" then
    cfg.withDefaultRos.insertPub { topicName := heartbeatTopic, enableBackends := [.ros2] }
  else if env.featureHeartbeatNewBackend = "zenoh" then
    cfg.withDefaultZenoh.insertPub { topicName := heartbeatTopic, enableBackends := [.zenoh] }
  else if env.featureHeartbeatNewBackend = "mqtt" then
    (cfg.withDefaultMqtt env.mqttBrokerIp).insertPub
      { topicName := heartbeatTopic, enableBackends := [.mqtt] }
  else cfg.insertPub { topicName := heartbeatTopic, enableBackends := [] }

/-- `AddMonitorCfg`. -/
def addMonitorCfg (cfg : AimRTConfig) : AimRTConfig :=
  if !env.enableMonitor then cfg
  else (addHeartbeat env (addMonitorBackends cfg)).channelAddFilter .monitor

/-- `DEFAULT_VIZ_EXECUTOR` -/
def defaultVizExecutor : String := "default_viz_executor"

/-- `VIZ_RPC_SERVICE` -/
def vizRpcService : String := "pb:/" ++ env.procName ++ "/GetNodeInfo"

/-- The plugin and the executor of the visualisation. -/
def addVizPlugin (cfg : AimRTConfig) : AimRTConfig :=
  let soc := if env.socIndex = 1 then "orin" else "x86_64"
  { cfg with
    plugins := assign (.viz defaultVizExecutor soc) cfg.plugins
    executors := assign (.asioThread defaultVizExecutor (some { threadNum := some 3 }))
      cfg.executors }

/-- `AddVizCfg`. -/
def addVizCfg (cfg : AimRTConfig) : AimRTConfig :=
  if !env.enableViz then cfg
  else
    (((addVizPlugin env cfg).withDefaultRos.insertServer
      { funcName := vizRpcService env, enableBackends := [.ros2] }).channelAddFilter
        .viz).rpcAddFilter .viz

/-- The function pattern of the log control service. -/
def logControlService : String :=
  "(pb:/aimrt\\.protocols\\.log_control_plugin\\.LogControlService/.*)"

/-- `AddLogControlCfg`. -/
def addLogControlCfg (cfg : AimRTConfig) : AimRTConfig :=
  if !env.enableLogControl then cfg
  else
    addDefaultNet env
      ({ cfg with plugins := assign .logControl cfg.plugins : AimRTConfig }.insertServer
        { funcName := logControlService, enableBackends := [.http] })

/-! ### Settings of the backends -/

/-- `SetRos2ChannelQos` on the ros2 backend that `Visit` finds. -/
def appendQos (qos : QosOptions) : ChBackend → Option ChBackend
  | .ros2 options =>
    let options := options.getD {}
    some (.ros2 (some {
      pubTopicsOptions := some (options.pubTopicsOptions.getD [] ++ [⟨"(.*)", some qos⟩])
      subTopicsOptions := some (options.subTopicsOptions.getD [] ++ [⟨"(.*)", some qos⟩]) }))
  | _ => none

/-- `SetRos2ChannelQos`. -/
def setRos2ChannelQos (cfg : AimRTConfig) : Except InjectError AimRTConfig :=
  if env.featureRos2ChannelQos = "" then .ok cfg
  else if .ros2 ∈ cfg.chBackends.map ChBackend.type then
    match env.readQos env.featureRos2ChannelQos with
    | none => .error .qos
    | some qos =>
      .ok { cfg with chBackends := (visit (appendQos qos) cfg.chBackends).getD cfg.chBackends }
  else .ok cfg

/-- `DEFAULT_LOG_SYNC_EXECUTOR` -/
def defaultLogSyncExecutor : String := "default_log_sync_executor"

/-- `SetLogSync` on the rotate_file backend that `Visit` finds. -/
def syncRotateFile : LogBackend → Option LogBackend
  | .rotateFile options =>
    some (.rotateFile { options with
      enableSync := some true
      syncIntervalMs := some env.featureLogSyncInterval
      syncExecutorName := some defaultLogSyncExecutor })
  | _ => none

/-- `SetLogSync`. -/
def setLogSync (cfg : AimRTConfig) : AimRTConfig :=
  if env.featureLogSyncInterval ≤ 0 then cfg
  else
    match visit (syncRotateFile env) cfg.logBackends with
    | none => cfg
    | some logBackends =>
      { cfg with
        logBackends
        executors := assign (.asioThread defaultLogSyncExecutor none) cfg.executors }

/-! ### The sequence -/

/-- The steps between `AddDefaultBackends` and `SetRos2ChannelQos`. -/
def addFrameworkCfg (cfg : AimRTConfig) : AimRTConfig :=
  (addVizCfg env (addMonitorCfg env (addTraceEventCfg (addLogControlCfg env
    (addHDSCfg env cfg))))).withDefaultLocal

/-- `InjectDefaultCfg`. -/
def injectDefaultCfg (cfg : AimRTConfig) : Except InjectError AimRTConfig := do
  let cfg ← addDefaultBackends env cfg
  let cfg ← setRos2ChannelQos env (addFrameworkCfg env cfg)
  return setLogSync env cfg

end InjectDefault

end AimrtComm.Cfg
