import Mathlib.Algebra.Group.Nat.Defs
import Mathlib.Data.Int.Notation
import Mathlib.Data.List.Basic

/-!
# The configuration object

`Cfg::aimrt_config_` (`cfg.h`, `cfg/log.h`, `cfg/plugin.h`, `cfg/ch.h`, `cfg/rpc.h`, `cfg/exe.h`):
the lists of plugins, of log, channel and RPC backends, of options for topics and functions, and of
executors.  An element of a list of backends is a variant; its type, or the name of a plugin, is
the one of its alternative.  Options that nothing below reads or writes are left out.
-/

namespace AimrtComm.Cfg

/-! ### Methods of communication -/

/-- `cfg::Ch`. -/
inductive Ch where
  | default | ros2 | mqtt | http | tcp | udp | local | monitor | zenoh | iceoryx
deriving DecidableEq, Repr

/-- `cfg::Rpc`. -/
inductive Rpc where
  | default | ros2 | mqtt | http | local | monitor | omp | zenoh
deriving DecidableEq, Repr

/-- `cfg::Filter`. -/
inductive Filter where
  | otpTrace | otpSimpleTrace | monitor | viz
deriving DecidableEq, Repr

/-! ### Log backends -/

/-- `cfg::backend::log::rotate_file`. -/
structure RotateFileOptions where
  logExecutorName : Option String := none
  enableSync : Option Bool := none
  syncIntervalMs : Option ℤ := none
  syncExecutorName : Option String := none
deriving DecidableEq, Repr

/-- `cfg::backend::log::topic_logger`. -/
structure TopicLoggerOptions where
  topicName : String
  timerExecutorName : String
  intervalMs : ℕ
  maxMsgSize : ℕ
deriving DecidableEq, Repr

/-- `cfg::details::LogBackend`. -/
inductive LogBackend where
  | console (logExecutorName : Option String)
  | rotateFile (options : RotateFileOptions)
  | topicLogger (options : TopicLoggerOptions)
deriving DecidableEq, Repr

/-- The alternatives of `LogBackend`. -/
inductive LogType where
  | console | rotateFile | topicLogger
deriving DecidableEq, Repr

def LogBackend.type : LogBackend → LogType
  | .console _ => .console
  | .rotateFile _ => .rotateFile
  | .topicLogger _ => .topicLogger

/-! ### Plugins -/

/-- `net::HttpOption`, `net::TcpOption`. -/
structure ListenOption where
  listenIp : String
  listenPort : ℤ
deriving DecidableEq, Repr

/-- `net::UdpOption`. -/
structure UdpOption where
  listenIp : String
  listenPort : ℤ
  maxPkgSize : Option ℤ
deriving DecidableEq, Repr

/-- `net::Options`. -/
structure NetOptions where
  threadNum : ℤ := 2
  httpOptions : Option ListenOption := none
  tcpOptions : Option ListenOption := none
  udpOptions : Option UdpOption := none
deriving DecidableEq, Repr

/-- `cfg::details::PluginBackend`. -/
inductive PluginBackend where
  | ros2
  | mqtt (brokerAddr : String) (maxPkgSizeK : Option ℤ)
  | net (options : NetOptions)
  | parameter
  | logControl
  | opentelemetry
  | monitor (executor : String)
  | zenoh
  | iceoryx
  | recordPlayback
  | omp
  | echo
  /-- The executors of its actions. -/
  | proxy (executors : List String)
  | topicLogger
  | viz (executor soc : String)
deriving DecidableEq, Repr

/-- The alternatives of `PluginBackend`. -/
inductive PluginType where
  | ros2 | mqtt | net | parameter | logControl | opentelemetry | monitor | zenoh | iceoryx
  | recordPlayback | omp | echo | proxy | topicLogger | viz
deriving DecidableEq, Repr

def PluginBackend.type : PluginBackend → PluginType
  | .ros2 => .ros2
  | .mqtt .. => .mqtt
  | .net _ => .net
  | .parameter => .parameter
  | .logControl => .logControl
  | .opentelemetry => .opentelemetry
  | .monitor _ => .monitor
  | .zenoh => .zenoh
  | .iceoryx => .iceoryx
  | .recordPlayback => .recordPlayback
  | .omp => .omp
  | .echo => .echo
  | .proxy _ => .proxy
  | .topicLogger => .topicLogger
  | .viz .. => .viz

/-! ### Channel and RPC backends -/

/-- `details::QosOptions`. -/
structure QosOptions where
  history : Option String := none
  depth : Option ℤ := none
  reliability : Option String := none
  durability : Option String := none
  deadline : Option ℤ := none
  lifespan : Option ℤ := none
  liveliness : Option String := none
  livelinessLeaseDuration : Option ℤ := none
deriving DecidableEq, Repr

/-- `ch::ros2::PubOption`. -/
structure Ros2PubOption where
  topicName : String
  qos : Option QosOptions
deriving DecidableEq, Repr

/-- `ch::ros2::Option`. -/
structure Ros2ChOption where
  pubTopicsOptions : Option (List Ros2PubOption) := none
  subTopicsOptions : Option (List Ros2PubOption) := none
deriving DecidableEq, Repr

/-- `ch::udp::PubOption`. -/
structure UdpPubOption where
  topicName : String
  serverUrlList : List String
deriving DecidableEq, Repr

/-- `ch::udp::Option`. -/
structure UdpChOption where
  pubTopicsOptions : Option (List UdpPubOption) := none
deriving DecidableEq, Repr

/-- `cfg::details::ChBackend`. -/
inductive ChBackend where
  | ros2 (options : Option Ros2ChOption)
  | mqtt | http | tcp
  | udp (options : Option UdpChOption)
  | local | monitor | zenoh | iceoryx
deriving DecidableEq, Repr

def ChBackend.type : ChBackend → Ch
  | .ros2 _ => .ros2
  | .mqtt => .mqtt
  | .http => .http
  | .tcp => .tcp
  | .udp _ => .udp
  | .local => .local
  | .monitor => .monitor
  | .zenoh => .zenoh
  | .iceoryx => .iceoryx

/-- The options of an RPC backend that has a timeout executor. -/
structure TimeoutOption where
  timeoutExecutor : Option String
deriving DecidableEq, Repr

/-- `cfg::details::RpcBackend`. -/
inductive RpcBackend where
  | ros2 (options : Option TimeoutOption)
  | mqtt (options : Option TimeoutOption)
  | http | local
  | monitor (executor : Option String)
  | omp (options : Option TimeoutOption)
  | zenoh (options : Option TimeoutOption)
deriving DecidableEq, Repr

def RpcBackend.type : RpcBackend → Rpc
  | .ros2 _ => .ros2
  | .mqtt _ => .mqtt
  | .http => .http
  | .local => .local
  | .monitor _ => .monitor
  | .omp _ => .omp
  | .zenoh _ => .zenoh

/-! ### Executors -/

/-- `exe::simple_thread::Option`. -/
structure SimpleThreadOption where
  queueThreshold : Option ℕ
deriving DecidableEq, Repr

/-- `exe::asio_thread::Option`. -/
structure AsioThreadOption where
  threadNum : Option ℕ := none
  threadSchedPolicy : Option String := none
  threadBindCpu : Option (List ℕ) := none
deriving DecidableEq, Repr

/-- `exe::time_wheel::Option`. -/
structure TimeWheelOption where
  bindExecutor : Option String
  dtUs : Option ℕ := some 50000
deriving DecidableEq, Repr

/-- `cfg::details::ExeBackend`. -/
inductive ExeBackend where
  | simpleThread (name : String) (options : Option SimpleThreadOption)
  | asioThread (name : String) (options : Option AsioThreadOption)
  | asioStrand (name : String) (bindAsioThreadExecutorName : String)
  | tbbThread (name : String) (options : Option AsioThreadOption)
  | timeWheel (name : String) (options : Option TimeWheelOption)
deriving DecidableEq, Repr

def ExeBackend.name : ExeBackend → String
  | .simpleThread name _ => name
  | .asioThread name _ => name
  | .asioStrand name _ => name
  | .tbbThread name _ => name
  | .timeWheel name _ => name

/-! ### The whole object -/

/-- `channel.PubOption` and `channel.SubOption`. -/
structure PubOption where
  topicName : String
  enableBackends : List Ch
  enableFilters : Option (List Filter) := none
deriving DecidableEq, Repr

/-- `rpc.CliOption` and `rpc.SrvOption`. -/
structure CliOption where
  funcName : String
  enableBackends : List Rpc
  enableFilters : Option (List Filter) := none
deriving DecidableEq, Repr

/-- `aimrt_config_`; the fields of its sections `log`, `plugin`, `channel`, `rpc` and `executor`
stand side by side. -/
structure AimRTConfig where
  logBackends : List LogBackend := []
  plugins : List PluginBackend := []
  chBackends : List ChBackend := []
  pubTopicsOptions : List PubOption := []
  subTopicsOptions : List PubOption := []
  rpcBackends : List RpcBackend := []
  clientsOptions : List CliOption := []
  serversOptions : List CliOption := []
  executors : List ExeBackend := []
deriving DecidableEq, Repr

/-- `cfg::details::AddFilter`. -/
def addFilter (filter : Filter) (filters : Option (List Filter)) : Option (List Filter) :=
  some (filters.getD [] ++ [filter])

def PubOption.addFilter (filter : Filter) (o : PubOption) : PubOption :=
  { o with enableFilters := Cfg.addFilter filter o.enableFilters }

def CliOption.addFilter (filter : Filter) (o : CliOption) : CliOption :=
  { o with enableFilters := Cfg.addFilter filter o.enableFilters }

namespace AimRTConfig

/-- `channel.AddFilter`. -/
def channelAddFilter (filter : Filter) (cfg : AimRTConfig) : AimRTConfig :=
  { cfg with
    pubTopicsOptions := cfg.pubTopicsOptions.map (PubOption.addFilter filter)
    subTopicsOptions := cfg.subTopicsOptions.map (PubOption.addFilter filter) }

/-- `rpc.AddFilter`. -/
def rpcAddFilter (filter : Filter) (cfg : AimRTConfig) : AimRTConfig :=
  { cfg with
    clientsOptions := cfg.clientsOptions.map (CliOption.addFilter filter)
    serversOptions := cfg.serversOptions.map (CliOption.addFilter filter) }

end AimRTConfig

end AimrtComm.Cfg
