import AimrtComm.Cfg.Defaults
import AimrtComm.Lib.MultiMap

/-!
# The resources of the modules

A module declares its topics, functions and executors in a `ModuleCfg` (`module_cfg.cpp`).
`Cfg::Processor` (`cfg_processor.cpp`) collects those of all modules: `AddModuleConfig` puts them
into sets by name, and `MakeYamlFromCfg` appends options and executors for them to the
configuration object.
-/

namespace AimrtComm.Cfg

/-! ### Methods as bits -/

/-- The value of an enumerator of `cfg::Ch`. -/
def Ch.value : Ch → BitVec 64
  | .default => 0
  | .ros2 => 1 <<< 0
  | .mqtt => 1 <<< 1
  | .http => 1 <<< 2
  | .tcp => 1 <<< 3
  | .udp => 1 <<< 4
  | .local => 1 <<< 5
  | .monitor => 1 <<< 6
  | .zenoh => 1 <<< 7
  | .iceoryx => 1 <<< 8

/-- The value of an enumerator of `cfg::Rpc`. -/
def Rpc.value : Rpc → BitVec 64
  | .default => 0
  | .ros2 => 1 <<< 0
  | .mqtt => 1 <<< 1
  | .http => 1 <<< 2
  | .local => 1 <<< 3
  | .monitor => 1 <<< 4
  | .omp => 1 <<< 5
  | .zenoh => 1 <<< 6

/-- Enumerators are compared by their values. -/
instance : Ord Ch := ⟨compareOn Ch.value⟩

instance : Ord Rpc := ⟨compareOn Rpc.value⟩

instance : Std.TransOrd Ch := inferInstanceAs (Std.TransCmp (compareOn Ch.value))

instance : Std.TransOrd Rpc := inferInstanceAs (Std.TransCmp (compareOn Rpc.value))

/-- `ch_types` -/
def chTypes : List Ch :=
  [.default, .ros2, .mqtt, .http, .tcp, .udp, .local, .monitor, .zenoh, .iceoryx]

/-- `rpc_types` -/
def rpcTypes : List Rpc := [.default, .ros2, .mqtt, .http, .local, .monitor, .omp, .zenoh]

/-! ### `ModuleCfg` -/

/-- `ChConfig` and `RpcConfig`: a name with the mask of its methods. -/
structure ResourceConfig where
  methods : BitVec 64
  name : String
deriving DecidableEq, Repr

/-- `ExeConfig::Option` -/
structure ExeOption where
  threadNum : ℕ := 1
  threadBindCpu : List ℕ := []
  threadSchedPolicy : String := ""
deriving DecidableEq, Repr

/-- `ExeConfig` -/
structure ExeConfig where
  name : String
  option : Option ExeOption := none
deriving DecidableEq, Repr

/-- `ctx::ModuleCfg`, as far as it declares resources. -/
structure ModuleCfg where
  name : String
  pubs : List ResourceConfig := []
  subs : List ResourceConfig := []
  clis : List ResourceConfig := []
  srvs : List ResourceConfig := []
  exes : List ExeConfig := []
deriving DecidableEq, Repr

namespace ModuleCfg

/-- The constructors of `ChPart` and `RpcPart`: `Default` stands for the default backends. -/
def part {τ : Type*} (value : τ → BitVec 64) (default : τ) (defaultBackends : List τ)
    (methods : BitVec 64) : BitVec 64 :=
  if methods = value default then
    defaultBackends.foldl (fun methods i => methods ||| value i) methods
  else methods

/-- The constructor of `ChPart`. -/
def chPart : List Ch → BitVec 64 → BitVec 64 := part Ch.value .default

/-- The constructor of `RpcPart`. -/
def rpcPart : List Rpc → BitVec 64 → BitVec 64 := part Rpc.value .default

variable (cfg : ModuleCfg)

/-- `ChPart::DefPub` -/
def defPub (methods : BitVec 64) (name : String) : ModuleCfg :=
  { cfg with pubs := cfg.pubs ++ [{ methods, name }] }

/-- `ChPart::DefSub` -/
def defSub (methods : BitVec 64) (name : String) : ModuleCfg :=
  { cfg with subs := cfg.subs ++ [{ methods, name }] }

/-- `RpcPart::DefCli` -/
def defCli (methods : BitVec 64) (name : String) : ModuleCfg :=
  { cfg with clis := cfg.clis ++ [{ methods, name }] }

/-- `RpcPart::DefSrv` -/
def defSrv (methods : BitVec 64) (name : String) : ModuleCfg :=
  { cfg with srvs := cfg.srvs ++ [{ methods, name }] }

/-- `ExecutorPart::ReplaceWithFullName` -/
def replaceWithFullName (name : String) : String :=
  match name.toList with
  | '~' :: '/' :: rest => cfg.name ++ String.ofList ('/' :: rest)
  | _ => name

/-- `ExecutorPart::DoDeclare` -/
def doDeclare (name : String) : ModuleCfg :=
  { cfg with exes := cfg.exes ++ [{ name := cfg.replaceWithFullName name }] }

/-- `ExecutorPart::DoDef` -/
def doDef (name : String) (option : ExeOption) : ModuleCfg :=
  { cfg with exes := cfg.exes ++ [{ name := cfg.replaceWithFullName name, option }] }

end ModuleCfg

/-- A call that declares a resource, with what is given to it and to the part that it belongs to. -/
inductive Declaration where
  | pub (methods : BitVec 64) (name : String)
  | sub (methods : BitVec 64) (name : String)
  | cli (methods : BitVec 64) (name : String)
  | srv (methods : BitVec 64) (name : String)
  | declare (name : String)
  | define (name : String) (option : ExeOption)

/-- `sys::config::DefaultChannelBackends()` and `DefaultRpcBackends()`. -/
structure DefaultBackends where
  channel : List Ch := [.ros2]
  rpc : List Rpc := [.ros2]

/-- What a call does. -/
def ModuleCfg.apply (defaults : DefaultBackends) (cfg : ModuleCfg) : Declaration → ModuleCfg
  | .pub methods name => cfg.defPub (chPart defaults.channel methods) name
  | .sub methods name => cfg.defSub (chPart defaults.channel methods) name
  | .cli methods name => cfg.defCli (rpcPart defaults.rpc methods) name
  | .srv methods name => cfg.defSrv (rpcPart defaults.rpc methods) name
  | .declare name => cfg.doDeclare name
  | .define name option => cfg.doDef name option

/-- A module with the calls that it makes when it is initialised. -/
structure DeclaredModule where
  name : String
  calls : List Declaration

/-- What the calls leave. -/
def DeclaredModule.cfg (defaults : DefaultBackends) (m : DeclaredModule) : ModuleCfg :=
  m.calls.foldl (ModuleCfg.apply defaults) { name := m.name }

/-! ### `AddModuleConfig` -/

/-- What stops the collection. -/
inductive ModuleError where
  /-- `multiple defined executor {} in different modules !` -/
  | multipleDefined (name : String)
  /-- `CANNOT set [{}] as default executor backend !` -/
  | executorBackend (type : String)
deriving DecidableEq, Repr

/-- The state of `Cfg::Processor`. -/
structure Processor where
  cfg : AimRTConfig
  pubs : MultiMap String Ch
  subs : MultiMap String Ch
  clis : MultiMap String Rpc
  srvs : MultiMap String Rpc
  exes : Std.ExtTreeMap String ExeConfig

/-- A processor that has seen no module. -/
def Processor.start (cfg : AimRTConfig) : Processor where
  cfg := cfg
  pubs := .empty
  subs := .empty
  clis := .empty
  srvs := .empty
  exes := ∅

section Collect

variable {τ : Type*} [Ord τ] [Std.TransOrd τ] (value : τ → BitVec 64) (types : List τ)

/-- The lambda `record_module_resource_cfg`. -/
def recordModuleResourceCfg (src : List ResourceConfig) (dst : MultiMap String τ) :
    MultiMap String τ :=
  src.foldl
    (fun dst i => types.foldl
      (fun dst type => if value type &&& i.methods ≠ 0 then dst.add i.name type else dst) dst)
    dst

/-- The lambda `collect_module_resource_cfg`, where `option` makes an option from its first two
fields. -/
def collectModuleResourceCfg {ω : Type*} (option : String → List τ → ω)
    (src : MultiMap String τ) (dst : List ω) : List ω :=
  dst ++ src.entries.map fun entry => option entry.1 entry.2

end Collect

/-- The loop body for the executors in `AddModuleConfig`. -/
def addExe (exes : Std.ExtTreeMap String ExeConfig) (src : ExeConfig) :
    Except ModuleError (Std.ExtTreeMap String ExeConfig) :=
  if src.option.isNone then .ok exes
  else if (exes[src.name]?.bind ExeConfig.option).isSome then .error (.multipleDefined src.name)
  else .ok (exes.insert src.name src)

/-- `AddModuleConfig` -/
def Processor.addModuleConfig (p : Processor) (cfg : ModuleCfg) :
    Except ModuleError Processor := do
  let exes ← cfg.exes.foldlM addExe p.exes
  return { p with
    pubs := recordModuleResourceCfg Ch.value chTypes cfg.pubs p.pubs
    subs := recordModuleResourceCfg Ch.value chTypes cfg.subs p.subs
    clis := recordModuleResourceCfg Rpc.value rpcTypes cfg.clis p.clis
    srvs := recordModuleResourceCfg Rpc.value rpcTypes cfg.srvs p.srvs
    exes }

/-- `AddModuleConfig` for every module. -/
def Processor.addModuleConfigs (p : Processor) (modules : List ModuleCfg) :
    Except ModuleError Processor :=
  modules.foldlM Processor.addModuleConfig p

/-! ### `MakeYamlFromCfg` -/

/-- The loop body for the executors in `MakeYamlFromCfg`. -/
def addExecutor (defaultExecutorType : String) (cfg : AimRTConfig) (exeConfig : ExeConfig) :
    Except ModuleError AimRTConfig :=
  let option := exeConfig.option.getD {}
  if defaultExecutorType = "asio_thread" then
    .ok { cfg with
      executors := assign
        (.asioThread exeConfig.name (some {
          threadNum := some option.threadNum
          threadSchedPolicy := some option.threadSchedPolicy
          threadBindCpu := some option.threadBindCpu }))
        cfg.executors }
  else .error (.executorBackend defaultExecutorType)

/-- `{name, {types.begin(), types.end()}}` for a topic. -/
def PubOption.ofTypes (name : String) (types : List Ch) : PubOption :=
  { topicName := name, enableBackends := types }

/-- The same for a function. -/
def CliOption.ofTypes (name : String) (types : List Rpc) : CliOption :=
  { funcName := name, enableBackends := types }

/-- `MakeYamlFromCfg`, up to the configuration object that it writes. -/
def Processor.makeYamlFromCfg (defaultExecutorType : String) (p : Processor) :
    Except ModuleError AimRTConfig :=
  p.exes.toList.foldlM (fun cfg entry => addExecutor defaultExecutorType cfg entry.2)
    { p.cfg with
      pubTopicsOptions :=
        collectModuleResourceCfg PubOption.ofTypes p.pubs p.cfg.pubTopicsOptions
      subTopicsOptions :=
        collectModuleResourceCfg PubOption.ofTypes p.subs p.cfg.subTopicsOptions
      clientsOptions :=
        collectModuleResourceCfg CliOption.ofTypes p.clis p.cfg.clientsOptions
      serversOptions :=
        collectModuleResourceCfg CliOption.ofTypes p.srvs p.cfg.serversOptions }

end AimrtComm.Cfg
