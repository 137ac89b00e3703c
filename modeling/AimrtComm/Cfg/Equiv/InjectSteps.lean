import AimrtComm.Cfg.Equiv.DefaultKeys
import AimrtComm.Lib.FoldExcept

/-!
## What every step of the injection adds

For each function of `InjectDefaultCfg` its `Additions`, composed as the function is, and a lemma
`adds_…` that it adds them.  `adds_addFrameworkCfg` and `adds_addDefaultBackends` together cover
all of it but `SetRos2ChannelQos` and `SetLogSync`.
-/

namespace AimrtComm.Cfg.InjectDefault

open AimRTConfig

variable {env : Environment}

/-! ### Steps without a condition -/

theorem netKeys_congr {cfg cfg' : AimRTConfig} (h : firstNet cfg' = firstNet cfg) :
    netKeys env cfg' = netKeys env cfg := by
  have hhttp : needHttpBackend env cfg' = needHttpBackend env cfg := by
    rw [needHttpBackend, needHttpBackend, h]
  have htcp : needTcpBackend env cfg' = needTcpBackend env cfg := by
    rw [needTcpBackend, needTcpBackend, h]
  have hudp : needUdpBackend env cfg' = needUdpBackend env cfg := by
    rw [needUdpBackend, needUdpBackend, h]
  rw [netKeys, netKeys, hhttp, htcp, hudp]

/-- A step that extends the keys and calls none of the functions with a condition. -/
theorem Adds.of_extend {ensured : Finset Key} {pushed : Multiset Key} {cfg cfg' : AimRTConfig}
    {plain : ∀ k ∈ ensured, k.isPlain} {hard : ∀ k ∈ pushed, k.isPushed}
    (hkeys : cfg'.keys = extend ensured pushed cfg.keys)
    (hwheel : hasTimeWheel cfg' = hasTimeWheel cfg) (hnet : firstNet cfg' = firstNet cfg) :
    Adds env { ensured, pushed, plain, hard } cfg cfg' where
  keys := by
    simp [hkeys, Additions.ensuredOn, Additions.pushedOn, Additions.addsLogger,
      Additions.addsRos, Additions.addsTimeout, Additions.asksTimeout]
  timeWheel := by
    simp [hwheel, Additions.asksTimeout, Additions.addsLogger, Additions.addsRos]
  net := netKeys_congr hnet

/-- Ensure one key. -/
def Additions.ensure (k : Key) (plain : k.isPlain := by first | decide | simp) : Additions where
  ensured := {k}
  plain l hl := by rwa [Finset.mem_singleton.mp hl]

/-- Push one key. -/
def Additions.push (k : Key) (hard : k.isPushed := by first | decide | simp) : Additions where
  pushed := {k}
  hard l hl := by rwa [Multiset.mem_singleton.mp hl]

/-- A step that only changes values under their keys. -/
theorem Adds.of_keys_eq {cfg cfg' : AimRTConfig} (hkeys : cfg'.keys = cfg.keys)
    (hwheel : hasTimeWheel cfg' = hasTimeWheel cfg) (hnet : firstNet cfg' = firstNet cfg) :
    Adds env {} cfg cfg' :=
  Adds.of_extend (by rw [hkeys, extend_empty]) hwheel hnet

section Primitive

variable (cfg : AimRTConfig)

theorem firstNet_assign {v : PluginBackend} (hv : netOptions? v = none) :
    firstNet { cfg with plugins := assign v cfg.plugins } = firstNet cfg := by
  simp [firstNet, assign, hv]

theorem adds_assignIfAbsent_plugin {v : PluginBackend} (hplain : (Key.plugin v.type).isPlain)
    (hv : netOptions? v = none) :
    Adds env (.ensure (.plugin v.type) hplain) cfg
      { cfg with plugins := assignIfAbsent PluginBackend.type v cfg.plugins } := by
  apply Adds.of_extend (keys_assignIfAbsent_plugin cfg v) rfl
  rw [assignIfAbsent]
  split_ifs
  · rfl
  · exact firstNet_assign cfg hv

theorem adds_assignIfAbsent_log (v : LogBackend) :
    Adds env (.ensure (.log v.type)) cfg
      { cfg with logBackends := assignIfAbsent LogBackend.type v cfg.logBackends } :=
  Adds.of_extend (keys_assignIfAbsent_log cfg v) rfl rfl

theorem adds_assignIfAbsent_ch {v : ChBackend} (hplain : (Key.ch v.type).isPlain) :
    Adds env (.ensure (.ch v.type) hplain) cfg
      { cfg with chBackends := assignIfAbsent ChBackend.type v cfg.chBackends } :=
  Adds.of_extend (keys_assignIfAbsent_ch cfg v) rfl rfl

theorem adds_assignIfAbsent_rpc {v : RpcBackend} (hplain : (Key.rpc v.type).isPlain) :
    Adds env (.ensure (.rpc v.type) hplain) cfg
      { cfg with rpcBackends := assignIfAbsent RpcBackend.type v cfg.rpcBackends } :=
  Adds.of_extend (keys_assignIfAbsent_rpc cfg v) rfl rfl

theorem adds_assign_plugin {v : PluginBackend} (hard : (Key.plugin v.type).isPushed)
    (hv : netOptions? v = none) :
    Adds env (.push (.plugin v.type) hard) cfg
      { cfg with plugins := assign v cfg.plugins } :=
  Adds.of_extend (by rw [keys_assign_plugin, extend_pushed]) rfl (firstNet_assign cfg hv)

theorem adds_assign_ch {v : ChBackend} (hard : (Key.ch v.type).isPushed) :
    Adds env (.push (.ch v.type) hard) cfg
      { cfg with chBackends := assign v cfg.chBackends } :=
  Adds.of_extend (by rw [keys_assign_ch, extend_pushed]) rfl rfl

theorem adds_assign_rpc {v : RpcBackend} (hard : (Key.rpc v.type).isPushed) :
    Adds env (.push (.rpc v.type) hard) cfg
      { cfg with rpcBackends := assign v cfg.rpcBackends } :=
  Adds.of_extend (by rw [keys_assign_rpc, extend_pushed]) rfl rfl

theorem adds_assign_executor {v : ExeBackend} (hv : isDefaultTimeWheel v = false) :
    Adds env (.push (.executor v.name)) cfg
      { cfg with executors := assign v cfg.executors } :=
  Adds.of_extend (by rw [keys_assign_executor, extend_pushed])
    (by simp [hasTimeWheel, assign, hv]) rfl

theorem adds_insertPub (topicName : String) (enableBackends : List Ch) :
    Adds env (.push (.pubTopic topicName)) cfg (cfg.insertPub { topicName, enableBackends }) :=
  Adds.of_extend (by rw [keys_insertPub, extend_pushed]) rfl rfl

theorem adds_insertServer (funcName : String) (enableBackends : List Rpc) :
    Adds env (.push (.server funcName)) cfg (cfg.insertServer { funcName, enableBackends }) :=
  Adds.of_extend (by rw [keys_insertServer, extend_pushed]) rfl rfl

theorem adds_channelAddFilter (filter : Filter) :
    Adds env {} cfg (cfg.channelAddFilter filter) := by
  refine Adds.of_keys_eq ?_ rfl rfl
  simp [keys, channelAddFilter, PubOption.addFilter, Function.comp_def]

theorem adds_rpcAddFilter (filter : Filter) :
    Adds env {} cfg (cfg.rpcAddFilter filter) := by
  refine Adds.of_keys_eq ?_ rfl rfl
  simp [keys, rpcAddFilter, CliOption.addFilter, Function.comp_def]

end Primitive

/-! ### Steps with a condition -/

section Conditional

variable (cfg : AimRTConfig)

theorem adds_tryAddDefaultTimeoutExecutor :
    Adds env { timeout := true } cfg cfg.tryAddDefaultTimeoutExecutor := by
  rw [tryAddDefaultTimeoutExecutor]
  split_ifs with h
  · -- there is a time wheel
    have hwheel : hasTimeWheel cfg = true := h
    constructor
    · simp [Additions.ensuredOn, Additions.pushedOn, Additions.addsLogger, Additions.addsRos,
        Additions.addsTimeout, hwheel]
    · simp [Additions.asksTimeout, hwheel]
    · rfl
  · have hwheel : hasTimeWheel cfg = false := by simpa [hasTimeWheel] using h
    constructor
    · have hfirst := keys_assign_executor cfg (.asioThread defaultTimeoutExecutor none)
      have hsecond := keys_assign_executor
        { cfg with executors := assign (.asioThread defaultTimeoutExecutor none) cfg.executors }
        (.timeWheel defaultTimeoutTimeWheel (some { bindExecutor := some defaultTimeoutExecutor }))
      apply hsecond.trans
      rw [hfirst, add_assoc]
      simp [Additions.ensuredOn, Additions.pushedOn, Additions.addsLogger, Additions.addsRos,
        Additions.addsTimeout, Additions.asksTimeout, hwheel, extend_pushed, timeoutKeys]
      rfl
    · simp [Additions.asksTimeout, hasTimeWheel, assign, isDefaultTimeWheel]
    · exact netKeys_congr rfl

/-- What follows a step that only ensures keys. -/
theorem Adds.keys_after {ensured : Finset Key} {a : Additions} {cfg cfg₁ cfg' : AimRTConfig}
    (hkeys : cfg₁.keys = extend ensured 0 cfg.keys) (h : Adds env a cfg₁ cfg') :
    cfg'.keys = extend (ensured ∪ a.ensuredOn env cfg₁) (a.pushedOn cfg₁) cfg.keys := by
  rw [h.keys, hkeys, extend_extend (by simp), zero_add]

theorem adds_withDefaultRos : Adds env { ros := true } cfg cfg.withDefaultRos := by
  rw [withDefaultRos]
  split_ifs with h
  · -- the plugin is there, and nothing is added
    have hros : hasRos cfg = true := by simpa [hasRos] using h
    constructor
    · simp [Additions.ensuredOn, Additions.pushedOn, Additions.addsLogger, Additions.addsRos,
        Additions.addsTimeout, Additions.asksTimeout, hros]
    · simp [Additions.asksTimeout, Additions.addsLogger, Additions.addsRos, hros]
    · rfl
  · have hros : hasRos cfg = false := by simpa [hasRos] using h
    let cfg₁ : AimRTConfig := { cfg with
      plugins := assignIfAbsent PluginBackend.type .ros2 cfg.plugins }
    let cfg₂ : AimRTConfig := { cfg₁ with
      chBackends := assignIfAbsent ChBackend.type (.ros2 none) cfg₁.chBackends }
    let cfg₃ : AimRTConfig := { cfg₂ with
      rpcBackends := assignIfAbsent RpcBackend.type (.ros2 (some ⟨some defaultTimeoutTimeWheel⟩))
        cfg₂.rpcBackends }
    have hkeys : cfg₃.keys = extend rosKeys 0 cfg.keys := by
      rw [keys_assignIfAbsent_rpc, keys_assignIfAbsent_ch, keys_assignIfAbsent_plugin,
        extend_extend (by simp), extend_extend (by simp)]
      rfl
    have hnet : firstNet cfg₃ = firstNet cfg := by
      show firstNet cfg₁ = _
      rw [show cfg₁ = { cfg with plugins := assign .ros2 cfg.plugins } by
        simp [cfg₁, assignIfAbsent, assign, h, PluginBackend.type]]
      exact firstNet_assign cfg rfl
    have hlast : Adds env { timeout := true } cfg₃ cfg₃.tryAddDefaultTimeoutExecutor :=
      adds_tryAddDefaultTimeoutExecutor cfg₃
    constructor
    · apply (hlast.keys_after hkeys).trans
      simp [Additions.ensuredOn, Additions.pushedOn, Additions.addsLogger, Additions.addsRos,
        Additions.addsTimeout, Additions.asksTimeout, hros]
      rfl
    · apply hlast.timeWheel.trans
      simp [Additions.asksTimeout, Additions.addsLogger, Additions.addsRos, hros]
    · exact hlast.net.trans (netKeys_congr hnet)

theorem adds_tryAddTopicLogger : Adds env { logger := true } cfg cfg.tryAddTopicLogger := by
  rw [tryAddTopicLogger]
  split_ifs with h
  · -- the plugin is there, and nothing is added
    have hlogger : hasTopicLogger cfg = true := by simpa [hasTopicLogger] using h
    constructor
    · simp [Additions.ensuredOn, Additions.pushedOn, Additions.addsLogger, Additions.addsRos,
        Additions.addsTimeout, Additions.asksTimeout, hlogger]
    · simp [Additions.asksTimeout, Additions.addsLogger, Additions.addsRos, hlogger]
    · rfl
  · have hlogger : hasTopicLogger cfg = false := by simpa [hasTopicLogger] using h
    let cfg₁ : AimRTConfig := { cfg with
      plugins := assignIfAbsent PluginBackend.type .topicLogger cfg.plugins }
    let cfg₂ : AimRTConfig := { cfg₁ with
      logBackends := assignIfAbsent LogBackend.type
        (.topicLogger {
          topicName := logTopic
          timerExecutorName := defaultTimeoutTimeWheel
          intervalMs := 100
          maxMsgSize := 2 ^ 64 - 1 }) cfg₁.logBackends }
    have hkeys : cfg₂.keys = extend loggerKeys 0 cfg.keys := by
      rw [keys_assignIfAbsent_log, keys_assignIfAbsent_plugin, extend_extend (by simp)]
      rfl
    have hnet : firstNet cfg₂ = firstNet cfg := by
      show firstNet cfg₁ = _
      rw [show cfg₁ = { cfg with plugins := assign .topicLogger cfg.plugins } by
        simp [cfg₁, assignIfAbsent, assign, h, PluginBackend.type]]
      exact firstNet_assign cfg rfl
    have hros : hasRos cfg₂ = hasRos cfg := by
      simp [hasRos, hkeys, loggerKeys, -plugin_mem_keys]
    have hlast := ((@adds_tryAddDefaultTimeoutExecutor env cfg₂).trans
      (adds_withDefaultRos _)).trans
        (adds_insertPub _ logTopic [.ros2])
    constructor
    · apply (hlast.keys_after hkeys).trans
      simp [Additions.ensuredOn, Additions.pushedOn, Additions.addsLogger, Additions.addsRos,
        Additions.addsTimeout, Additions.asksTimeout, Additions.comp, Additions.push, hros,
        hlogger]
      rfl
    · apply hlast.timeWheel.trans
      simp [Additions.asksTimeout, Additions.addsLogger, Additions.addsRos, Additions.comp,
        Additions.push, hlogger]
    · exact hlast.net.trans (netKeys_congr hnet)

/-- `Visit` keeps the keys when the handled element keeps its own. -/
theorem map_visit {α τ : Type*} {func : α → Option α} {type : α → τ}
    (h : ∀ x y, func x = some y → type y = type x) (xs : List α) :
    ((visit func xs).getD xs).map type = xs.map type := by
  induction xs with
  | nil => rfl
  | cons x xs ih =>
    rw [visit]
    cases hx : func x with
    | some y => simp [h x y hx]
    | none =>
      cases hrest : visit func xs with
      | none => rfl
      | some ys =>
        rw [hrest] at ih
        simpa using ih

theorem firstNet_isNone_iff :
    (firstNet cfg).isNone ↔ .net ∉ cfg.plugins.map PluginBackend.type := by
  rw [firstNet, Option.isNone_iff_eq_none, List.findSome?_eq_none_iff, List.mem_map, not_exists]
  constructor
  · rintro h v ⟨hv, htype⟩
    cases v with
    | net options => exact absurd (h _ hv) (by simp [netOptions?])
    | _ => cases htype
  · intro h v hv
    cases v <;> first | rfl | exact absurd ⟨hv, rfl⟩ (h _)

/-- The options of a net plugin after `configure_net_options`. -/
def configured (env : Environment) (options : NetOptions) : NetOptions :=
  { options with
    httpOptions := env.networkOptions.httpOptions.or options.httpOptions
    tcpOptions := env.networkOptions.tcpOptions.or options.tcpOptions
    udpOptions := env.networkOptions.udpOptions.or options.udpOptions }

theorem findSome_visit_configureNetOptions (plugins : List PluginBackend) :
    ((visit (configureNetOptions env) plugins).getD plugins).findSome? netOptions?
      = (plugins.findSome? netOptions?).map (configured env) := by
  induction plugins with
  | nil => rfl
  | cons v plugins ih =>
    rw [visit]
    cases hv : configureNetOptions env v with
    | some v' =>
      -- `Visit` stops at the first net plugin, which is the one that is found afterwards
      cases v with
      | net options =>
        cases hv
        rfl
      | _ => cases hv
    | none =>
      have hnet : netOptions? v = none := by
        cases v <;> first | rfl | cases hv
      rw [List.findSome?_cons, hnet]
      cases hrest : visit (configureNetOptions env) plugins with
      | none =>
        rw [hrest] at ih
        simpa [hnet] using ih
      | some ys =>
        rw [hrest] at ih
        simpa [hnet] using ih

theorem type_of_configureNetOptions (v v' : PluginBackend)
    (h : configureNetOptions env v = some v') : v'.type = v.type := by
  cases v with
  | net options =>
    cases h
    rfl
  | _ => cases h

theorem firstNet_addDefaultNet :
    firstNet (addDefaultNet env cfg)
      = (firstNet (addNetPlugin env cfg)).map (configured env) :=
  findSome_visit_configureNetOptions _

theorem firstNet_addNetPlugin :
    firstNet (addNetPlugin env cfg) = (firstNet cfg).or
      (if needHttpBackend env cfg || needTcpBackend env cfg || needUdpBackend env cfg then
        some { threadNum := 1 } else none) := by
  rw [addNetPlugin]
  cases hnet : firstNet cfg with
  | some options => simp [hnet]
  | none =>
    split_ifs with h h' h'
    · rw [firstNet, assign, List.findSome?_append, ← firstNet, hnet]
      rfl
    · simp_all
    · simp_all
    · exact hnet

/-- What needs a backend is the same after `AddDefaultNet`. -/
theorem needs_addDefaultNet :
    needHttpBackend env (addDefaultNet env cfg) = needHttpBackend env cfg ∧
      needTcpBackend env (addDefaultNet env cfg) = needTcpBackend env cfg ∧
      needUdpBackend env (addDefaultNet env cfg) = needUdpBackend env cfg := by
  have hafter := (@firstNet_addDefaultNet env cfg).trans
    (congrArg (Option.map (configured env)) (firstNet_addNetPlugin cfg))
  rcases hfirst : firstNet cfg with _ | options
  · -- the plugin is new, and has the options of the environment
    rw [hfirst, Option.none_or] at hafter
    split_ifs at hafter
    · simp only [needHttpBackend, needTcpBackend, needUdpBackend, hafter, hfirst]
      simp [configured]
    · simp only [needHttpBackend, needTcpBackend, needUdpBackend, hafter, hfirst]
      simp
  · rw [hfirst, Option.some_or] at hafter
    simp only [needHttpBackend, needTcpBackend, needUdpBackend, hafter, hfirst]
    simp only [Option.map_some, Option.any_some, configured]
    cases env.networkOptions.httpOptions <;> cases env.networkOptions.tcpOptions <;>
      cases env.networkOptions.udpOptions <;> simp

theorem keys_ite_assignIfAbsent_ch (b : Bool) (v : ChBackend) :
    keys { cfg with
        chBackends := if b then assignIfAbsent ChBackend.type v cfg.chBackends else cfg.chBackends }
      = extend (if b then {.ch v.type} else ∅) 0 cfg.keys := by
  cases b with
  | true => exact keys_assignIfAbsent_ch cfg v
  | false => exact (extend_empty _).symm

theorem keys_ite_assignIfAbsent_rpc (b : Bool) (v : RpcBackend) :
    keys { cfg with
        rpcBackends := if b then assignIfAbsent RpcBackend.type v cfg.rpcBackends
          else cfg.rpcBackends }
      = extend (if b then {.rpc v.type} else ∅) 0 cfg.keys := by
  cases b with
  | true => exact keys_assignIfAbsent_rpc cfg v
  | false => exact (extend_empty _).symm

theorem keys_addNetPlugin :
    (addNetPlugin env cfg).keys = extend
      (if needHttpBackend env cfg || needTcpBackend env cfg || needUdpBackend env cfg then
        {.plugin .net} else ∅) 0 cfg.keys := by
  have hmem : Key.plugin .net ∈ cfg.keys ↔ ¬(firstNet cfg).isNone := by
    rw [firstNet_isNone_iff, not_not, plugin_mem_keys]
  rw [addNetPlugin]
  cases needHttpBackend env cfg || needTcpBackend env cfg || needUdpBackend env cfg with
  | false => simp
  | true =>
    have hassign : keys { cfg with plugins := assign (.net { threadNum := 1 }) cfg.plugins }
        = cfg.keys + {.plugin .net} := keys_assign_plugin cfg _
    rw [Bool.and_true, if_pos rfl, extend_singleton, ← hassign]
    simp only [hmem]
    split_ifs <;> rfl

/-- The keys of `AddDefaultNet`, in the order in which they are added. -/
theorem netKeys_split (http tcp udp : Bool) :
    ((if http || tcp || udp then {.plugin .net} else ∅) ∪ ((if http then {.ch .http} else ∅) ∪
        ((if tcp then {.ch .tcp} else ∅) ∪ ((if udp then {.ch .udp} else ∅) ∪
          (if http then {.rpc .http} else ∅)))) : Finset Key)
      = (if http then {.plugin .net, .ch .http, .rpc .http} else ∅)
        ∪ (if tcp then {.plugin .net, .ch .tcp} else ∅)
        ∪ (if udp then {.plugin .net, .ch .udp} else ∅) := by
  cases http <;> cases tcp <;> cases udp <;> decide

theorem adds_addDefaultNet : Adds env { net := true } cfg (addDefaultNet env cfg) := by
  constructor
  · -- the configuration after each assignment of the function
    let cfg₁ : AimRTConfig := addNetPlugin env cfg
    let cfg₂ : AimRTConfig := { cfg₁ with
      plugins := (visit (configureNetOptions env) cfg₁.plugins).getD cfg₁.plugins }
    let cfg₃ : AimRTConfig := { cfg₂ with
      chBackends := if needHttpBackend env cfg then
        assignIfAbsent ChBackend.type .http cfg₂.chBackends else cfg₂.chBackends }
    let cfg₄ : AimRTConfig := { cfg₃ with
      chBackends := if needTcpBackend env cfg then
        assignIfAbsent ChBackend.type .tcp cfg₃.chBackends else cfg₃.chBackends }
    let cfg₅ : AimRTConfig := { cfg₄ with
      chBackends := if needUdpBackend env cfg then
        assignIfAbsent ChBackend.type (.udp none) cfg₄.chBackends else cfg₄.chBackends }
    let cfg₆ : AimRTConfig := { cfg₅ with
      rpcBackends := if needHttpBackend env cfg then
        assignIfAbsent RpcBackend.type .http cfg₅.rpcBackends else cfg₅.rpcBackends }
    have hcfg : addDefaultNet env cfg = cfg₆ := by
      have hch : cfg₁.chBackends = cfg.chBackends := by
        simp only [cfg₁, addNetPlugin]
        split_ifs <;> rfl
      have hrpc : cfg₁.rpcBackends = cfg.rpcBackends := by
        simp only [cfg₁, addNetPlugin]
        split_ifs <;> rfl
      simp only [addDefaultNet, cfg₆, cfg₅, cfg₄, cfg₃, cfg₂, hch, hrpc]
      rfl
    have hvisit : cfg₂.keys = cfg₁.keys :=
      keys_congr cfg₁ (map_visit type_of_configureNetOptions _) rfl rfl
    have hensured : Additions.ensuredOn env { net := true } cfg = netKeys env cfg := by
      simp [Additions.ensuredOn, Additions.addsLogger, Additions.addsRos]
    have hpushed : Additions.pushedOn { net := true } cfg = 0 := by
      simp [Additions.pushedOn, Additions.addsLogger, Additions.addsRos, Additions.addsTimeout,
        Additions.asksTimeout]
    rw [hcfg, keys_ite_assignIfAbsent_rpc, keys_ite_assignIfAbsent_ch,
      keys_ite_assignIfAbsent_ch, keys_ite_assignIfAbsent_ch, hvisit, keys_addNetPlugin,
      extend_extend (by simp), extend_extend (by simp), extend_extend (by simp),
      extend_extend (by simp), hensured, hpushed, netKeys, ← netKeys_split]
    rfl
  · simp only [addDefaultNet, hasTimeWheel, addNetPlugin]
    split_ifs <;> simp [Additions.asksTimeout, Additions.addsLogger, Additions.addsRos]
  · obtain ⟨hhttp, htcp, hudp⟩ := @needs_addDefaultNet env cfg
    rw [netKeys, netKeys, hhttp, htcp, hudp]

end Conditional

/-! ### The `WithDefault` functions -/

section WithDefault

variable (cfg : AimRTConfig)

/-- `WithDefaultLocal` -/
def localAdditions : Additions := (Additions.ensure (.ch .local)).comp (.ensure (.rpc .local))

/-- `WithDefaultMqtt` -/
def mqttAdditions : Additions :=
  (((Additions.ensure (.plugin .mqtt)).comp (.ensure (.ch .mqtt))).comp (.ensure (.rpc .mqtt))).comp
    { timeout := true }

/-- `WithDefaultZenoh` -/
def zenohAdditions : Additions :=
  (((Additions.ensure (.plugin .zenoh)).comp (.ensure (.ch .zenoh))).comp
    (.ensure (.rpc .zenoh))).comp { timeout := true }

/-- `WithDefaultIceoryx` -/
def iceoryxAdditions : Additions :=
  (Additions.ensure (.plugin .iceoryx)).comp (.ensure (.ch .iceoryx))

theorem adds_withDefaultLocal : Adds env localAdditions cfg cfg.withDefaultLocal :=
  (adds_assignIfAbsent_ch cfg (v := .local) rfl).trans
    (adds_assignIfAbsent_rpc _ (v := .local) rfl)

theorem adds_withDefaultMqtt (brokerIp : String) :
    Adds env mqttAdditions cfg (cfg.withDefaultMqtt brokerIp) :=
  (((adds_assignIfAbsent_plugin cfg (v := .mqtt _ _) rfl rfl).trans
    (adds_assignIfAbsent_ch _ (v := .mqtt) rfl)).trans
      (adds_assignIfAbsent_rpc _ (v := .mqtt _) rfl)).trans
        (adds_tryAddDefaultTimeoutExecutor _)

theorem adds_withDefaultZenoh : Adds env zenohAdditions cfg cfg.withDefaultZenoh :=
  (((adds_assignIfAbsent_plugin cfg (v := .zenoh) rfl rfl).trans
    (adds_assignIfAbsent_ch _ (v := .zenoh) rfl)).trans
      (adds_assignIfAbsent_rpc _ (v := .zenoh _) rfl)).trans
        (adds_tryAddDefaultTimeoutExecutor _)

theorem adds_withDefaultIceoryx : Adds env iceoryxAdditions cfg cfg.withDefaultIceoryx :=
  (adds_assignIfAbsent_plugin cfg (v := .iceoryx) rfl rfl).trans
    (adds_assignIfAbsent_ch _ (v := .iceoryx) rfl)

end WithDefault

/-! ### `AddDefaultBackends` -/

/-- The loop body for `DefaultChannelBackends`. -/
def channelAdditions (i : String) : Additions :=
  if i = "ros2" then { ros := true }
  else if i = "mqtt" then mqttAdditions
  else if i = "zenoh" then zenohAdditions
  else if i = "iceoryx" then iceoryxAdditions
  else {}

/-- The loop body for `DefaultRpcBackends`. -/
def rpcAdditions (i : String) : Additions :=
  if i = "ros2" then { ros := true }
  else if i = "mqtt" then mqttAdditions
  else if i = "zenoh" then zenohAdditions
  else {}

/-- The loop body for `DefaultLoggerBackends`. -/
def loggerAdditions (i : String) : Additions :=
  if i = "console" then .ensure (.log .console)
  else if i = "rotate_file" then .ensure (.log .rotateFile)
  else if i = "topic_logger" then { logger := true }
  else {}

/-- A loop. -/
def loopAdditions (body : String → Additions) : List String → Additions
  | [] => {}
  | i :: is => (body i).comp (loopAdditions body is)

theorem adds_foldlM {body : String → Additions}
    {step : AimRTConfig → String → Except InjectError AimRTConfig}
    (hstep : ∀ cfg i cfg', step cfg i = .ok cfg' → Adds env (body i) cfg cfg') {is : List String}
    {cfg cfg' : AimRTConfig} (h : is.foldlM step cfg = .ok cfg') :
    Adds env (loopAdditions body is) cfg cfg' := by
  induction is generalizing cfg with
  | nil =>
    cases h
    exact Adds.refl _
  | cons i is ih =>
    rw [List.foldlM_cons, except_bind_eq_ok] at h
    obtain ⟨cfg₁, hi, h⟩ := h
    exact (hstep cfg i cfg₁ hi).trans (ih h)

theorem adds_addDefaultChannel (cfg : AimRTConfig) (i : String) (cfg' : AimRTConfig)
    (h : addDefaultChannel env cfg i = .ok cfg') : Adds env (channelAdditions i) cfg cfg' := by
  rw [addDefaultChannel] at h
  rw [channelAdditions]
  split_ifs at h ⊢
  · cases h
    exact adds_withDefaultRos cfg
  · cases h
    exact adds_withDefaultMqtt cfg _
  · cases h
    exact adds_withDefaultZenoh cfg
  · cases h
    exact adds_withDefaultIceoryx cfg

theorem adds_addDefaultRpc (cfg : AimRTConfig) (i : String) (cfg' : AimRTConfig)
    (h : addDefaultRpc env cfg i = .ok cfg') : Adds env (rpcAdditions i) cfg cfg' := by
  rw [addDefaultRpc] at h
  rw [rpcAdditions]
  split_ifs at h ⊢
  · cases h
    exact adds_withDefaultRos cfg
  · cases h
    exact adds_withDefaultMqtt cfg _
  · cases h
    exact adds_withDefaultZenoh cfg

theorem adds_addDefaultLogger (cfg : AimRTConfig) (i : String) (cfg' : AimRTConfig)
    (h : addDefaultLogger cfg i = .ok cfg') : Adds env (loggerAdditions i) cfg cfg' := by
  rw [addDefaultLogger] at h
  rw [loggerAdditions]
  split_ifs at h ⊢
  · cases h
    exact adds_assignIfAbsent_log cfg (.console none)
  · cases h
    exact adds_assignIfAbsent_log cfg (.rotateFile {})
  · cases h
    exact adds_tryAddTopicLogger cfg

/-- `AddDefaultBackends` -/
def defaultAdditions (env : Environment) : Additions :=
  ((loopAdditions channelAdditions env.defaultChannelBackends).comp
    (loopAdditions rpcAdditions env.defaultRpcBackends)).comp
      (loopAdditions loggerAdditions env.defaultLoggerBackends)

theorem adds_addDefaultBackends {cfg cfg' : AimRTConfig}
    (h : addDefaultBackends env cfg = .ok cfg') : Adds env (defaultAdditions env) cfg cfg' := by
  rw [addDefaultBackends, except_bind_eq_ok] at h
  obtain ⟨cfg₁, hch, h⟩ := h
  rw [except_bind_eq_ok] at h
  obtain ⟨cfg₂, hrpc, h⟩ := h
  exact ((adds_foldlM adds_addDefaultChannel hch).trans
    (adds_foldlM adds_addDefaultRpc hrpc)).trans (adds_foldlM adds_addDefaultLogger h)

/-- What composes and holds of the steps in the loops holds of `AddDefaultBackends`. -/
theorem addDefaultBackends_induction {P : AimRTConfig → AimRTConfig → Prop} (hrefl : ∀ c, P c c)
    (htrans : ∀ c c' c'', P c c' → P c' c'' → P c c'') (hros : ∀ c, P c c.withDefaultRos)
    (hmqtt : ∀ c brokerIp, P c (c.withDefaultMqtt brokerIp)) (hzenoh : ∀ c, P c c.withDefaultZenoh)
    (hiceoryx : ∀ c, P c c.withDefaultIceoryx)
    (hlog : ∀ c v, v = .console none ∨ v = .rotateFile {} →
      P c { c with logBackends := assignIfAbsent LogBackend.type v c.logBackends })
    (hlogger : ∀ c, P c c.tryAddTopicLogger) {cfg cfg' : AimRTConfig}
    (h : addDefaultBackends env cfg = .ok cfg') : P cfg cfg' := by
  rw [addDefaultBackends, except_bind_eq_ok] at h
  obtain ⟨cfg₁, hch, h⟩ := h
  rw [except_bind_eq_ok] at h
  obtain ⟨cfg₂, hrpc, h⟩ := h
  -- one invariant for each of the three loops
  have hfirst : P cfg cfg₁ := by
    refine foldlM_invariant hch (hrefl cfg) fun i _ c c' hc hstep => htrans _ _ _ hc ?_
    rw [addDefaultChannel] at hstep
    split_ifs at hstep <;> cases hstep
    · exact hros c
    · exact hmqtt c _
    · exact hzenoh c
    · exact hiceoryx c
  have hsecond : P cfg cfg₂ := by
    refine foldlM_invariant hrpc hfirst fun i _ c c' hc hstep => htrans _ _ _ hc ?_
    rw [addDefaultRpc] at hstep
    split_ifs at hstep <;> cases hstep
    · exact hros c
    · exact hmqtt c _
    · exact hzenoh c
  refine foldlM_invariant h hsecond fun i _ c c' hc hstep => htrans _ _ _ hc ?_
  rw [addDefaultLogger] at hstep
  split_ifs at hstep <;> cases hstep
  · exact hlog c _ (.inl rfl)
  · exact hlog c _ (.inr rfl)
  · exact hlogger c

/-! ### The functions of the framework -/

/-- `AddHDSCfg` -/
def hdsAdditions (env : Environment) : Additions :=
  if env.featureHDSNewBackend = "ros2" then
    Additions.comp { ros := true } (.push (.pubTopic hdsTopic))
  else if env.featureHDSNewBackend = "zenoh" then
    zenohAdditions.comp (.push (.pubTopic hdsTopic))
  else if env.featureHDSNewBackend = "udp" then
    (Additions.comp { net := true } {}).comp (.push (.pubTopic hdsTopic))
  else .push (.pubTopic hdsTopic)

/-- `AddLogControlCfg` -/
def logControlAdditions (env : Environment) : Additions :=
  if env.enableLogControl then
    ((Additions.push (.plugin .logControl)).comp (.push (.server logControlService))).comp
      { net := true }
  else {}

/-- `AddTraceEventCfg` -/
def traceAdditions : Additions := Additions.comp { ros := true } (.push (.pubTopic traceTopic))

/-- The heartbeat topic with its backend. -/
def heartbeatAdditions (env : Environment) : Additions :=
  if env.featureHeartbeatNewBackend = "ros2" then
    Additions.comp { ros := true } (.push (.pubTopic heartbeatTopic))
  else if env.featureHeartbeatNewBackend = "zenoh" then
    zenohAdditions.comp (.push (.pubTopic heartbeatTopic))
  else if env.featureHeartbeatNewBackend = "mqtt" then
    mqttAdditions.comp (.push (.pubTopic heartbeatTopic))
  else .push (.pubTopic heartbeatTopic)

/-- `AddMonitorCfg` -/
def monitorAdditions (env : Environment) : Additions :=
  if env.enableMonitor then
    (((((Additions.push (.plugin .monitor)).comp (.push (.ch .monitor))).comp
      (.push (.rpc .monitor))).comp (.push (.executor defaultMonitorExecutor))).comp
        (heartbeatAdditions env)).comp {}
  else {}

/-- `AddVizCfg` -/
def vizAdditions (env : Environment) : Additions :=
  if env.enableViz then
    (((((Additions.push (.plugin .viz)).comp (.push (.executor defaultVizExecutor))).comp
      { ros := true }).comp (.push (.server (vizRpcService env)) (Key.isPushed_server _))).comp
        {}).comp {}
  else {}

/-- The steps between `AddDefaultBackends` and `SetRos2ChannelQos`. -/
def frameworkAdditions (env : Environment) : Additions :=
  (((((hdsAdditions env).comp (logControlAdditions env)).comp traceAdditions).comp
    (monitorAdditions env)).comp (vizAdditions env)).comp localAdditions

section Framework

variable (cfg : AimRTConfig)

theorem adds_visit_ch {func : ChBackend → Option ChBackend}
    (h : ∀ x y, func x = some y → y.type = x.type) :
    Adds env {} cfg
      { cfg with chBackends := (visit func cfg.chBackends).getD cfg.chBackends } :=
  Adds.of_keys_eq (keys_congr cfg rfl rfl (map_visit h _)) rfl rfl

theorem adds_addCommunicationOption (option : UdpPubOption) :
    Adds env {} cfg (addCommunicationOption option cfg) := by
  apply adds_visit_ch
  intro v v' h
  cases v with
  | udp options =>
    cases h
    rfl
  | _ => cases h

theorem adds_addHDSCfg : Adds env (hdsAdditions env) cfg (addHDSCfg env cfg) := by
  rw [addHDSCfg, hdsAdditions]
  split_ifs
  · exact (adds_withDefaultRos cfg).trans (adds_insertPub _ _ _)
  · exact (adds_withDefaultZenoh cfg).trans (adds_insertPub _ _ _)
  · exact ((adds_addDefaultNet cfg).trans (adds_addCommunicationOption _ _)).trans
      (adds_insertPub _ _ _)
  · exact adds_insertPub cfg _ _

theorem adds_addLogControlCfg :
    Adds env (logControlAdditions env) cfg (addLogControlCfg env cfg) := by
  rw [addLogControlCfg, logControlAdditions]
  cases env.enableLogControl with
  | false => exact Adds.refl cfg
  | true =>
    exact ((adds_assign_plugin cfg (v := .logControl) rfl rfl).trans
      (adds_insertServer _ _ _)).trans (adds_addDefaultNet _)

theorem adds_addTraceEventCfg : Adds env traceAdditions cfg (addTraceEventCfg cfg) :=
  (adds_withDefaultRos cfg).trans (adds_insertPub _ _ _)

theorem adds_addHeartbeat : Adds env (heartbeatAdditions env) cfg (addHeartbeat env cfg) := by
  rw [addHeartbeat, heartbeatAdditions]
  split_ifs
  · exact (adds_withDefaultRos cfg).trans (adds_insertPub _ _ _)
  · exact (adds_withDefaultZenoh cfg).trans (adds_insertPub _ _ _)
  · exact (adds_withDefaultMqtt cfg _).trans (adds_insertPub _ _ _)
  · exact adds_insertPub cfg _ _

theorem adds_addMonitorCfg : Adds env (monitorAdditions env) cfg (addMonitorCfg env cfg) := by
  rw [addMonitorCfg, monitorAdditions]
  cases env.enableMonitor with
  | false => exact Adds.refl cfg
  | true =>
    have hbackends := (((@adds_assign_plugin env cfg (.monitor defaultMonitorExecutor)
      rfl rfl).trans (adds_assign_ch _ (v := .monitor) rfl)).trans
        (adds_assign_rpc _ (v := .monitor none) rfl)).trans
          (adds_assign_executor _
            (v := .asioThread defaultMonitorExecutor (some { threadNum := some 3 })) rfl)
    exact (hbackends.trans (adds_addHeartbeat _)).trans (adds_channelAddFilter _ _)

theorem adds_addVizCfg : Adds env (vizAdditions env) cfg (addVizCfg env cfg) := by
  rw [addVizCfg, vizAdditions]
  cases env.enableViz with
  | false => exact Adds.refl cfg
  | true =>
    have hplugin := (@adds_assign_plugin env cfg
      (.viz defaultVizExecutor (if env.socIndex = 1 then "orin" else "x86_64")) rfl rfl).trans
        (adds_assign_executor _
          (v := .asioThread defaultVizExecutor (some { threadNum := some 3 })) rfl)
    exact (((hplugin.trans (adds_withDefaultRos _)).trans (adds_insertServer _ _ _)).trans
      (adds_channelAddFilter _ _)).trans (adds_rpcAddFilter _ _)

/-- **The steps of the framework**, one after the other. -/
theorem adds_addFrameworkCfg :
    Adds env (frameworkAdditions env) cfg (addFrameworkCfg env cfg) :=
  (((((adds_addHDSCfg cfg).trans (adds_addLogControlCfg _)).trans
    (adds_addTraceEventCfg _)).trans (adds_addMonitorCfg _)).trans (adds_addVizCfg _)).trans
      (adds_withDefaultLocal _)

/-- `SetRos2ChannelQos` changes a channel backend, or nothing. -/
theorem setRos2ChannelQos_cases {cfg' : AimRTConfig}
    (h : setRos2ChannelQos env cfg = .ok cfg') : cfg' = cfg ∨ ∃ qos,
      (env.featureRos2ChannelQos ≠ "" ∧ env.readQos env.featureRos2ChannelQos = some qos) ∧
      cfg' = { cfg with
        chBackends := (visit (appendQos qos) cfg.chBackends).getD cfg.chBackends } := by
  rw [setRos2ChannelQos] at h
  split_ifs at h with hfeature
  · cases h
    exact .inl rfl
  · cases hqos : env.readQos env.featureRos2ChannelQos with
    | none =>
      rw [hqos] at h
      cases h
    | some qos =>
      rw [hqos] at h
      cases h
      exact .inr ⟨qos, ⟨hfeature, rfl⟩, rfl⟩
  · cases h
    exact .inl rfl

/-- `SetRos2ChannelQos` adds no key. -/
theorem adds_setRos2ChannelQos {cfg' : AimRTConfig} (h : setRos2ChannelQos env cfg = .ok cfg') :
    Adds env {} cfg cfg' := by
  rcases setRos2ChannelQos_cases cfg h with rfl | ⟨qos, -, rfl⟩
  · exact Adds.refl _
  · apply adds_visit_ch
    intro v v' hv
    cases v with
    | ros2 options =>
      cases hv
      rfl
    | _ => cases hv

end Framework

/-- Everything but `SetLogSync`. -/
def injectAdditions (env : Environment) : Additions :=
  ((defaultAdditions env).comp (frameworkAdditions env)).comp {}

/-- The stages of a run that succeeds. -/
theorem stages_of_injectDefaultCfg {cfg cfg' : AimRTConfig}
    (h : injectDefaultCfg env cfg = .ok cfg') :
    ∃ cfg₁ cfg₂, addDefaultBackends env cfg = .ok cfg₁ ∧
      setRos2ChannelQos env (addFrameworkCfg env cfg₁) = .ok cfg₂ ∧ cfg' = setLogSync env cfg₂ := by
  rw [injectDefaultCfg, except_bind_eq_ok] at h
  obtain ⟨cfg₁, hdefault, h⟩ := h
  rw [except_bind_eq_ok] at h
  obtain ⟨cfg₂, hqos, h⟩ := h
  cases h
  exact ⟨cfg₁, cfg₂, hdefault, hqos, rfl⟩

theorem adds_stages {cfg cfg₁ cfg₂ : AimRTConfig} (hdefault : addDefaultBackends env cfg = .ok cfg₁)
    (hqos : setRos2ChannelQos env (addFrameworkCfg env cfg₁) = .ok cfg₂) :
    Adds env (injectAdditions env) cfg cfg₂ :=
  ((adds_addDefaultBackends hdefault).trans (adds_addFrameworkCfg cfg₁)).trans
    (adds_setRos2ChannelQos _ hqos)

end AimrtComm.Cfg.InjectDefault
