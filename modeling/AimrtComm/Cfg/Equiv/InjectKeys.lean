import AimrtComm.Cfg.Equiv.InjectSteps

/-!
## When the keys stay distinct

`keys_injectDefaultCfg` says what `InjectDefaultCfg` adds to the keys: some where they are missing,
and `pushedKeys` without looking.  So distinct keys stay distinct exactly when none of the pushed
ones is there before (`distinctKeys_iff`), and never when the configuration comes from a previous
run (`not_distinctKeys_of_twice`).
-/

namespace AimrtComm.Cfg

open AimRTConfig

/-- In every list the elements have different names or types. -/
structure AimRTConfig.DistinctKeys (cfg : AimRTConfig) : Prop where
  plugins : (cfg.plugins.map PluginBackend.type).Nodup
  logBackends : (cfg.logBackends.map LogBackend.type).Nodup
  chBackends : (cfg.chBackends.map ChBackend.type).Nodup
  rpcBackends : (cfg.rpcBackends.map RpcBackend.type).Nodup
  executors : (cfg.executors.map ExeBackend.name).Nodup
  pubTopicsOptions : (cfg.pubTopicsOptions.map PubOption.topicName).Nodup
  subTopicsOptions : (cfg.subTopicsOptions.map PubOption.topicName).Nodup
  clientsOptions : (cfg.clientsOptions.map CliOption.funcName).Nodup
  serversOptions : (cfg.serversOptions.map CliOption.funcName).Nodup

theorem nodup_map_key {α τ : Type*} {key : τ → Key} (hkey : Function.Injective key) (type : α → τ)
    (xs : List α) : (↑(xs.map (key ∘ type)) : Multiset Key).Nodup ↔ (xs.map type).Nodup := by
  rw [Multiset.coe_nodup, ← List.map_map, List.nodup_map_iff hkey]

/-- Keys of different lists are different. -/
theorem disjoint_map_key {α β : Type*} {f : α → Key} {g : β → Key} (h : ∀ a b, f a ≠ g b)
    (xs : List α) (ys : List β) : (xs.map f).Disjoint (ys.map g) := by
  intro k hx hy
  rw [List.mem_map] at hx hy
  obtain ⟨a, -, rfl⟩ := hx
  obtain ⟨b, -, hab⟩ := hy
  exact h a b hab.symm

theorem AimRTConfig.distinctKeys_iff_nodup {cfg : AimRTConfig} :
    cfg.DistinctKeys ↔ cfg.keys.Nodup := by
  have hplugin := nodup_map_key (fun _ _ => Key.plugin.inj) PluginBackend.type cfg.plugins
  have hlog := nodup_map_key (fun _ _ => Key.log.inj) LogBackend.type cfg.logBackends
  have hch := nodup_map_key (fun _ _ => Key.ch.inj) ChBackend.type cfg.chBackends
  have hrpc := nodup_map_key (fun _ _ => Key.rpc.inj) RpcBackend.type cfg.rpcBackends
  have hexe := nodup_map_key (fun _ _ => Key.executor.inj) ExeBackend.name cfg.executors
  have hpub := nodup_map_key (fun _ _ => Key.pubTopic.inj) PubOption.topicName cfg.pubTopicsOptions
  have hsub := nodup_map_key (fun _ _ => Key.subTopic.inj) PubOption.topicName cfg.subTopicsOptions
  have hcli := nodup_map_key (fun _ _ => Key.client.inj) CliOption.funcName cfg.clientsOptions
  have hsrv := nodup_map_key (fun _ _ => Key.server.inj) CliOption.funcName cfg.serversOptions
  constructor
  · rintro ⟨h₁, h₂, h₃, h₄, h₅, h₆, h₇, h₈, h₉⟩
    simp only [keys, Multiset.nodup_add, Multiset.disjoint_add_left]
    simp [*, disjoint_map_key]
  · intro h
    simp only [keys, Multiset.nodup_add] at h
    obtain ⟨⟨⟨⟨⟨⟨⟨⟨h₁, h₂, -⟩, h₃, -⟩, h₄, -⟩, h₅, -⟩, h₆, -⟩, h₇, -⟩, h₈, -⟩, h₉, -⟩ := h
    exact ⟨hplugin.mp h₁, hlog.mp h₂, hch.mp h₃, hrpc.mp h₄, hexe.mp h₅, hpub.mp h₆, hsub.mp h₇,
      hcli.mp h₈, hsrv.mp h₉⟩

namespace InjectDefault

variable {env : Environment}

/-! ### What is pushed -/

/-- The topic logger is a default and has no plugin yet. -/
def addsTopicLogger (env : Environment) (cfg : AimRTConfig) : Bool :=
  env.defaultLoggerBackends.any (· = "topic_logger")
    && decide (.topicLogger ∉ cfg.plugins.map PluginBackend.type)

/-- Some function asks for the default time wheel. -/
def asksForTimeWheel (env : Environment) (cfg : AimRTConfig) : Bool :=
  decide (.ros2 ∉ cfg.plugins.map PluginBackend.type) || addsTopicLogger env cfg
    || env.defaultChannelBackends.any (fun i => i = "mqtt" || i = "zenoh")
    || env.defaultRpcBackends.any (fun i => i = "mqtt" || i = "zenoh")
    || env.featureHDSNewBackend = "zenoh"
    || env.enableMonitor
      && (env.featureHeartbeatNewBackend = "zenoh" || env.featureHeartbeatNewBackend = "mqtt")

/-- A rotate_file backend is there or is a default. -/
def hasRotateFile (env : Environment) (cfg : AimRTConfig) : Bool :=
  decide (.rotateFile ∈ cfg.logBackends.map LogBackend.type)
    || env.defaultLoggerBackends.any (· = "rotate_file")

/-- The keys that the switches alone decide to add. -/
def frameworkKeys (env : Environment) : List Key :=
  [.pubTopic hdsTopic, .pubTopic traceTopic]
    ++ (if env.enableLogControl then [.plugin .logControl, .server logControlService] else [])
    ++ (if env.enableMonitor then
      [.plugin .monitor, .ch .monitor, .rpc .monitor, .executor defaultMonitorExecutor,
        .pubTopic heartbeatTopic] else [])
    ++ (if env.enableViz then
      [.plugin .viz, .executor defaultVizExecutor, .server (vizRpcService env)] else [])

/-- The keys that are added whether or not they are there. -/
def pushedKeys (env : Environment) (cfg : AimRTConfig) : List Key :=
  frameworkKeys env
    ++ (if addsTopicLogger env cfg then [.pubTopic logTopic] else [])
    ++ (if asksForTimeWheel env cfg && !cfg.executors.any isDefaultTimeWheel then
      [.executor defaultTimeoutExecutor, .executor defaultTimeoutTimeWheel] else [])
    ++ (if decide (0 < env.featureLogSyncInterval) && hasRotateFile env cfg then
      [.executor defaultLogSyncExecutor] else [])

/-! ### The additions of the injection -/

section Loop

variable (body : String → Additions) (is : List String)

theorem loopAdditions_logger :
    (loopAdditions body is).logger = is.any fun i => (body i).logger := by
  induction is with
  | nil => rfl
  | cons i is ih => rw [loopAdditions, List.any_cons, ← ih]; rfl

theorem loopAdditions_timeout :
    (loopAdditions body is).timeout = is.any fun i => (body i).timeout := by
  induction is with
  | nil => rfl
  | cons i is ih => rw [loopAdditions, List.any_cons, ← ih]; rfl

variable {body is}

theorem loopAdditions_pushed (h : ∀ i, (body i).pushed = 0) :
    (loopAdditions body is).pushed = 0 := by
  induction is with
  | nil => rfl
  | cons i is ih =>
    show (body i).pushed + (loopAdditions body is).pushed = 0
    rw [h, ih, add_zero]

theorem mem_loopAdditions_ensured {k : Key} :
    k ∈ (loopAdditions body is).ensured ↔ ∃ i ∈ is, k ∈ (body i).ensured := by
  induction is with
  | nil => simp [loopAdditions]
  | cons i is ih =>
    show k ∈ (body i).ensured ∪ (loopAdditions body is).ensured ↔ _
    rw [Finset.mem_union, ih]
    simp

end Loop

theorem channelAdditions_pushed (i : String) : (channelAdditions i).pushed = 0 := by
  rw [channelAdditions]
  split_ifs <;> rfl

theorem rpcAdditions_pushed (i : String) : (rpcAdditions i).pushed = 0 := by
  rw [rpcAdditions]
  split_ifs <;> rfl

theorem loggerAdditions_pushed (i : String) : (loggerAdditions i).pushed = 0 := by
  rw [loggerAdditions]
  split_ifs <;> rfl

theorem defaultAdditions_pushed : (defaultAdditions env).pushed = 0 := by
  show (loopAdditions channelAdditions _).pushed + (loopAdditions rpcAdditions _).pushed
    + (loopAdditions loggerAdditions _).pushed = 0
  rw [loopAdditions_pushed channelAdditions_pushed, loopAdditions_pushed rpcAdditions_pushed,
    loopAdditions_pushed loggerAdditions_pushed]
  rfl

theorem hdsAdditions_pushed : (hdsAdditions env).pushed = {.pubTopic hdsTopic} := by
  rw [hdsAdditions]
  split_ifs <;> rfl

theorem heartbeatAdditions_pushed :
    (heartbeatAdditions env).pushed = {.pubTopic heartbeatTopic} := by
  rw [heartbeatAdditions]
  split_ifs <;> rfl

/-- What the functions with a condition do not push is decided by the switches. -/
theorem injectAdditions_pushed : (injectAdditions env).pushed = ↑(frameworkKeys env) := by
  have hlog : (logControlAdditions env).pushed = ↑(if env.enableLogControl then
      [Key.plugin .logControl, .server logControlService] else []) := by
    rw [logControlAdditions]
    cases env.enableLogControl with
    | false => rfl
    | true => rfl
  have hmonitor : (monitorAdditions env).pushed = ↑(if env.enableMonitor then
      [Key.plugin .monitor, .ch .monitor, .rpc .monitor, .executor defaultMonitorExecutor,
        .pubTopic heartbeatTopic] else []) := by
    rw [monitorAdditions]
    cases env.enableMonitor with
    | false => rfl
    | true =>
      show {Key.plugin .monitor} + {Key.ch .monitor} + {Key.rpc .monitor}
        + {Key.executor defaultMonitorExecutor} + (heartbeatAdditions env).pushed + 0 = _
      rw [heartbeatAdditions_pushed]
      rfl
  have hviz : (vizAdditions env).pushed = ↑(if env.enableViz then
      [Key.plugin .viz, .executor defaultVizExecutor, .server (vizRpcService env)] else []) := by
    rw [vizAdditions]
    cases env.enableViz <;> rfl
  show (defaultAdditions env).pushed + ((hdsAdditions env).pushed
    + (logControlAdditions env).pushed + traceAdditions.pushed + (monitorAdditions env).pushed
    + (vizAdditions env).pushed + localAdditions.pushed) + 0 = _
  rw [defaultAdditions_pushed, hdsAdditions_pushed, hlog, hmonitor, hviz]
  simp only [frameworkKeys, ← Multiset.coe_add]
  -- the trace topic is pushed between the others, and the order does not matter
  have htrace : traceAdditions.pushed = {.pubTopic traceTopic} := rfl
  have hlocal : localAdditions.pushed = 0 := rfl
  have hfirst : (↑[Key.pubTopic hdsTopic, .pubTopic traceTopic] : Multiset Key)
      = {.pubTopic hdsTopic} + {.pubTopic traceTopic} := rfl
  rw [htrace, hlocal, hfirst]
  abel

/-! ### The flags of the injection -/

theorem injectAdditions_ros : (injectAdditions env).ros = true := by
  simp [injectAdditions, frameworkAdditions, traceAdditions, Additions.comp]

theorem frameworkAdditions_logger : (frameworkAdditions env).logger = false := by
  have hhds : (hdsAdditions env).logger = false := by
    rw [hdsAdditions]
    split_ifs <;> rfl
  have hlog : (logControlAdditions env).logger = false := by
    rw [logControlAdditions]
    split_ifs <;> rfl
  have hmonitor : (monitorAdditions env).logger = false := by
    rw [monitorAdditions, heartbeatAdditions]
    split_ifs <;> rfl
  have hviz : (vizAdditions env).logger = false := by
    rw [vizAdditions]
    split_ifs <;> rfl
  show ((hdsAdditions env).logger || (logControlAdditions env).logger || false
    || (monitorAdditions env).logger || (vizAdditions env).logger || false) = false
  rw [hhds, hlog, hmonitor, hviz]
  rfl

theorem injectAdditions_logger :
    (injectAdditions env).logger = env.defaultLoggerBackends.any (· = "topic_logger") := by
  have hch : (fun i => (channelAdditions i).logger) = fun _ => false := by
    funext i
    rw [channelAdditions]
    split_ifs <;> rfl
  have hrpc : (fun i => (rpcAdditions i).logger) = fun _ => false := by
    funext i
    rw [rpcAdditions]
    split_ifs <;> rfl
  have hlogger : (fun i => (loggerAdditions i).logger) = fun i => decide (i = "topic_logger") := by
    funext i
    rw [loggerAdditions]
    split_ifs <;> simp_all [Additions.ensure]
  show ((loopAdditions channelAdditions _).logger || (loopAdditions rpcAdditions _).logger
    || (loopAdditions loggerAdditions _).logger || (frameworkAdditions env).logger || false) = _
  rw [loopAdditions_logger, loopAdditions_logger, loopAdditions_logger, hch, hrpc, hlogger,
    frameworkAdditions_logger]
  simp

theorem frameworkAdditions_timeout : (frameworkAdditions env).timeout =
    (decide (env.featureHDSNewBackend = "zenoh") || env.enableMonitor
      && (env.featureHeartbeatNewBackend = "zenoh"
        || env.featureHeartbeatNewBackend = "mqtt")) := by
  have hhds : (hdsAdditions env).timeout = decide (env.featureHDSNewBackend = "zenoh") := by
    rw [hdsAdditions]
    split_ifs <;> simp_all [Additions.comp, Additions.push, zenohAdditions]
  have hlog : (logControlAdditions env).timeout = false := by
    rw [logControlAdditions]
    split_ifs <;> rfl
  have hheartbeat : (heartbeatAdditions env).timeout =
      (env.featureHeartbeatNewBackend = "zenoh" || env.featureHeartbeatNewBackend = "mqtt") := by
    rw [heartbeatAdditions]
    split_ifs <;> simp_all [Additions.comp, Additions.push, zenohAdditions, mqttAdditions]
  have hmonitor : (monitorAdditions env).timeout =
      (env.enableMonitor && (heartbeatAdditions env).timeout) := by
    rw [monitorAdditions]
    cases env.enableMonitor with
    | false => rfl
    | true => simp [Additions.comp, Additions.push]
  have hviz : (vizAdditions env).timeout = false := by
    rw [vizAdditions]
    split_ifs <;> rfl
  show ((hdsAdditions env).timeout || (logControlAdditions env).timeout || false
    || (monitorAdditions env).timeout || (vizAdditions env).timeout || false) = _
  rw [hhds, hlog, hmonitor, hviz, hheartbeat]
  simp

theorem injectAdditions_timeout : (injectAdditions env).timeout =
    (env.defaultChannelBackends.any (fun i => i = "mqtt" || i = "zenoh")
    || env.defaultRpcBackends.any (fun i => i = "mqtt" || i = "zenoh")
    || env.featureHDSNewBackend = "zenoh"
    || env.enableMonitor
      && (env.featureHeartbeatNewBackend = "zenoh"
        || env.featureHeartbeatNewBackend = "mqtt")) := by
  have hch : (fun i => (channelAdditions i).timeout)
      = fun i => (decide (i = "mqtt") || decide (i = "zenoh")) := by
    funext i
    rw [channelAdditions]
    split_ifs <;>
      simp_all [Additions.comp, Additions.ensure, zenohAdditions, mqttAdditions, iceoryxAdditions]
  have hrpc : (fun i => (rpcAdditions i).timeout)
      = fun i => (decide (i = "mqtt") || decide (i = "zenoh")) := by
    funext i
    rw [rpcAdditions]
    split_ifs <;> simp_all [Additions.comp, zenohAdditions, mqttAdditions]
  have hlogger : (fun i => (loggerAdditions i).timeout) = fun _ => false := by
    funext i
    rw [loggerAdditions]
    split_ifs <;> rfl
  have hany : (env.defaultLoggerBackends.any fun _ => false) = false :=
    List.any_eq_false.mpr (by simp)
  show ((loopAdditions channelAdditions _).timeout || (loopAdditions rpcAdditions _).timeout
    || (loopAdditions loggerAdditions _).timeout || (frameworkAdditions env).timeout || false) = _
  rw [loopAdditions_timeout, loopAdditions_timeout, loopAdditions_timeout, hch, hrpc, hlogger,
    frameworkAdditions_timeout, hany]
  simp [Bool.or_assoc]

@[simp]
theorem mem_ensured_comp {a b : Additions} {k : Key} :
    k ∈ (a.comp b).ensured ↔ k ∈ a.ensured ∨ k ∈ b.ensured :=
  Finset.mem_union

@[simp]
theorem mem_ensured_ensure {k l : Key} {plain : k.isPlain} :
    l ∈ (Additions.ensure k plain).ensured ↔ l = k :=
  Finset.mem_singleton

@[simp]
theorem not_mem_ensured_push {k l : Key} {hard : k.isPushed} :
    l ∉ (Additions.push k hard).ensured :=
  Finset.notMem_empty l

/-- Only a default logger ensures the `rotate_file` backend. -/
theorem rotateFile_mem_ensured :
    Key.log .rotateFile ∈ (injectAdditions env).ensured ↔
      env.defaultLoggerBackends.any (· = "rotate_file") := by
  have hch : ∀ i, Key.log .rotateFile ∉ (channelAdditions i).ensured := by
    intro i
    rw [channelAdditions]
    split_ifs <;> simp [mqttAdditions, zenohAdditions, iceoryxAdditions]
  have hrpc : ∀ i, Key.log .rotateFile ∉ (rpcAdditions i).ensured := by
    intro i
    rw [rpcAdditions]
    split_ifs <;> simp [mqttAdditions, zenohAdditions]
  have hlogger : ∀ i, Key.log .rotateFile ∈ (loggerAdditions i).ensured ↔ i = "rotate_file" := by
    intro i
    rw [loggerAdditions]
    split_ifs <;> simp_all
  have hframework : Key.log .rotateFile ∉ (frameworkAdditions env).ensured := by
    simp only [frameworkAdditions, mem_ensured_comp, not_or]
    refine ⟨⟨⟨⟨⟨?_, ?_⟩, ?_⟩, ?_⟩, ?_⟩, ?_⟩
    · rw [hdsAdditions]
      split_ifs <;> simp [zenohAdditions]
    · rw [logControlAdditions]
      split_ifs <;> simp
    · simp [traceAdditions]
    · rw [monitorAdditions, heartbeatAdditions]
      split_ifs <;> simp [zenohAdditions, mqttAdditions]
    · rw [vizAdditions]
      split_ifs <;> simp
    · simp [localAdditions]
  simp [injectAdditions, defaultAdditions, mem_loopAdditions_ensured, hch, hrpc, hlogger,
    hframework]

/-! ### `SetLogSync` -/

theorem visit_eq_none_iff {α : Type*} {func : α → Option α} {xs : List α} :
    visit func xs = none ↔ ∀ x ∈ xs, func x = none := by
  induction xs with
  | nil => simp [visit]
  | cons x xs ih =>
    rw [visit]
    cases hx : func x <;> simp [hx, ih]

theorem type_of_syncRotateFile (v v' : LogBackend) (h : syncRotateFile env v = some v') :
    v'.type = v.type := by
  cases v with
  | rotateFile options =>
    cases h
    rfl
  | _ => cases h

theorem visit_syncRotateFile_eq_none_iff {logBackends : List LogBackend} :
    visit (syncRotateFile env) logBackends = none ↔
      .rotateFile ∉ logBackends.map LogBackend.type := by
  rw [visit_eq_none_iff, List.mem_map, not_exists]
  constructor
  · rintro h v ⟨hv, htype⟩
    cases v with
    | rotateFile options => exact absurd (h _ hv) (by simp [syncRotateFile])
    | _ => cases htype
  · intro h v hv
    cases v <;> first | rfl | exact absurd ⟨hv, rfl⟩ (h _)

theorem keys_setLogSync (cfg : AimRTConfig) : (setLogSync env cfg).keys = cfg.keys +
    ↑(if decide (0 < env.featureLogSyncInterval)
        && decide (.rotateFile ∈ cfg.logBackends.map LogBackend.type) then
      [Key.executor defaultLogSyncExecutor] else []) := by
  rw [setLogSync]
  by_cases hinterval : env.featureLogSyncInterval ≤ 0
  · simp [hinterval, not_lt.mpr hinterval]
  · rw [if_neg hinterval]
    cases hvisit : visit (syncRotateFile env) cfg.logBackends with
    | none =>
      have hno := visit_syncRotateFile_eq_none_iff.mp hvisit
      simp [hno]
    | some logBackends =>
      have hyes : .rotateFile ∈ cfg.logBackends.map LogBackend.type := by
        by_contra hno
        rw [visit_syncRotateFile_eq_none_iff.mpr hno] at hvisit
        cases hvisit
      have htypes := map_visit (@type_of_syncRotateFile env) cfg.logBackends
      rw [hvisit] at htypes
      have hlog : keys { cfg with logBackends } = cfg.keys := keys_congr cfg rfl htypes rfl
      rw [if_pos (by simp [hyes, not_le.mp hinterval]), ← hlog]
      exact keys_assign_executor { cfg with logBackends } (.asioThread defaultLogSyncExecutor none)

/-! ### The whole injection -/

/-- **What the injection adds to the keys**: some where they are missing, which it never pushes,
and the pushed ones. -/
theorem keys_injectDefaultCfg {cfg cfg' : AimRTConfig} (h : injectDefaultCfg env cfg = .ok cfg') :
    ∃ ensured : Finset Key, (∀ k ∈ ensured, k.isPushed = false) ∧
      cfg'.keys = extend ensured ↑(pushedKeys env cfg) cfg.keys := by
  obtain ⟨cfg₀, cfg₁, hdefault, hqos, rfl⟩ := stages_of_injectDefaultCfg h
  have hadds := adds_stages hdefault hqos
  refine ⟨(injectAdditions env).ensuredOn env cfg,
    fun k hk => (injectAdditions env).not_isPushed_of_mem_ensuredOn env cfg hk, ?_⟩
  -- the flags of the stages before `SetLogSync`, read off the configuration
  have hlogger : (injectAdditions env).addsLogger cfg = addsTopicLogger env cfg := by
    simp only [Additions.addsLogger, injectAdditions_logger, addsTopicLogger, hasTopicLogger,
      plugin_mem_keys, decide_not]
  have htimeout : (injectAdditions env).addsTimeout cfg
      = (asksForTimeWheel env cfg && !cfg.executors.any isDefaultTimeWheel) := by
    simp only [Additions.addsTimeout, Additions.asksTimeout, Additions.addsRos, hlogger,
      injectAdditions_ros, injectAdditions_timeout, asksForTimeWheel, hasTimeWheel, hasRos,
      plugin_mem_keys, decide_not, Bool.true_or, Bool.true_and]
    ac_rfl
  -- the backends that `SetLogSync` finds
  have hrotate : decide (.rotateFile ∈ cfg₁.logBackends.map LogBackend.type)
      = hasRotateFile env cfg := by
    have hmem : Key.log .rotateFile ∈ (injectAdditions env).ensuredOn env cfg ↔
        Key.log .rotateFile ∈ (injectAdditions env).ensured := by
      have hnet : Key.log .rotateFile ∉ netKeys env cfg := fun hmem =>
        forall_mem_netKeys env (P := fun k => k ≠ .log .rotateFile) cfg (by simp) (by simp)
          (by simp) (by simp) (by simp) _ hmem rfl
      rw [Additions.ensuredOn]
      split_ifs <;> simp [loggerKeys, rosKeys, hnet]
    rw [hasRotateFile, Bool.eq_iff_iff, decide_eq_true_eq, ← log_mem_keys,
      hadds.mem_keys_iff rfl, hmem, rotateFile_mem_ensured, log_mem_keys, Bool.or_eq_true,
      decide_eq_true_eq]
  rw [keys_setLogSync, hadds.keys, hrotate, Additions.pushedOn, hlogger, htimeout,
    injectAdditions_pushed, pushedKeys, extend, extend]
  have hif : ∀ (b : Bool) (s : List Key), (if b then (↑s : Multiset Key) else 0)
      = ↑(if b then s else []) := by
    intro b s
    cases b <;> rfl
  rw [show ({.pubTopic logTopic} : Multiset Key) = ↑[Key.pubTopic logTopic] from rfl,
    show timeoutKeys = ↑[Key.executor defaultTimeoutExecutor, .executor defaultTimeoutTimeWheel]
      from rfl, hif, hif]
  simp only [← Multiset.coe_add]
  ac_rfl

/-! ### Distinct keys -/

theorem logControlService_ne_vizRpcService : logControlService ≠ vizRpcService env := by
  intro h
  -- the first characters are different
  have hhead := congrArg (fun s => s.toList.head?) h
  simp [logControlService, vizRpcService] at hhead

theorem ite_sublist {α : Type*} (b : Bool) (xs : List α) : (if b then xs else []).Sublist xs := by
  cases b <;> simp

/-- The keys that are pushed when every condition holds. -/
def allPushedKeys (env : Environment) : List Key :=
  [.pubTopic hdsTopic, .pubTopic traceTopic] ++ [.plugin .logControl, .server logControlService]
    ++ [.plugin .monitor, .ch .monitor, .rpc .monitor, .executor defaultMonitorExecutor,
      .pubTopic heartbeatTopic]
    ++ [.plugin .viz, .executor defaultVizExecutor, .server (vizRpcService env)]
    ++ [.pubTopic logTopic]
    ++ [.executor defaultTimeoutExecutor, .executor defaultTimeoutTimeWheel]
    ++ [.executor defaultLogSyncExecutor]

theorem pushedKeys_sublist (cfg : AimRTConfig) :
    (pushedKeys env cfg).Sublist (allPushedKeys env) := by
  rw [pushedKeys, frameworkKeys, allPushedKeys]
  refine .append (.append (.append (.append (.append (.append (.refl _) ?_) ?_) ?_) ?_) ?_) ?_ <;>
    exact ite_sublist _ _

/-- No key is pushed twice. -/
theorem nodup_pushedKeys (cfg : AimRTConfig) : (pushedKeys env cfg).Nodup := by
  apply List.Nodup.sublist (pushedKeys_sublist cfg)
  have hservice := @logControlService_ne_vizRpcService env
  simp [allPushedKeys, hservice, hdsTopic, traceTopic, heartbeatTopic, logTopic,
    defaultMonitorExecutor, defaultVizExecutor, defaultTimeoutExecutor, defaultTimeoutTimeWheel,
    defaultLogSyncExecutor]

theorem isPushed_of_mem_pushedKeys {cfg : AimRTConfig} {k : Key} (h : k ∈ pushedKeys env cfg) :
    k.isPushed = true := by
  have hall : ∀ k ∈ allPushedKeys env, k.isPushed = true := by
    simp [allPushedKeys, Key.isPushed]
  exact hall k ((pushedKeys_sublist cfg).subset h)

/-- **When the injection keeps the keys distinct**: exactly when none of the keys that it pushes is
there before. -/
theorem distinctKeys_iff (cfg cfg' : AimRTConfig) (hdistinct : cfg.DistinctKeys)
    (h : injectDefaultCfg env cfg = .ok cfg') :
    cfg'.DistinctKeys ↔ ∀ k ∈ pushedKeys env cfg, k ∉ cfg.keys := by
  obtain ⟨ensured, hensured, hkeys⟩ := keys_injectDefaultCfg h
  rw [AimRTConfig.distinctKeys_iff_nodup] at hdistinct ⊢
  rw [hkeys, nodup_extend_iff _ hdistinct]
  · simp only [Multiset.mem_coe, Multiset.coe_nodup, nodup_pushedKeys, true_and]
  · intro k hk hpushed
    have hno := hensured k hk
    rw [isPushed_of_mem_pushedKeys (Multiset.mem_coe.mp hpushed)] at hno
    cases hno

/-- An environment with `ros2` as the only backend and all switches off. -/
def baseEnvironment : Environment where
  defaultChannelBackends := ["ros2"]
  defaultRpcBackends := ["ros2"]
  defaultLoggerBackends := ["console"]
  featureHDSNewBackend := "ros2"
  featureHeartbeatNewBackend := "ros2"
  enableLogControl := false
  enableMonitor := false
  enableViz := false
  featureRos2ChannelQos := ""
  featureLogSyncInterval := 0
  readQos _ := none
  networkOptions := {}
  procName := "app"
  socIndex := 0
  mqttBrokerIp := "127.0.0.1"
  hdsMonitorIp := "127.0.0.1"
  dataProxyIp := "127.0.0.1"
  recordBagIp := "127.0.0.1"

/-- A configuration of the user with elements of its own, and with the backends that the framework
uses. -/
def userSample : AimRTConfig where
  plugins := [.ros2, .parameter]
  chBackends := [.ros2 none]
  pubTopicsOptions := [{ topicName := "/user", enableBackends := [.ros2] }]
  rpcBackends := [.ros2 none, .http]
  serversOptions := [{ funcName := "/user", enableBackends := [.ros2] }]
  executors := [.asioThread "user" none]

/-- All switches are on. -/
def fullEnvironment : Environment where
  __ := baseEnvironment
  enableLogControl := true
  enableMonitor := true
  enableViz := true

theorem distinctKeys_iff_sample :
    ∃ cfg', injectDefaultCfg fullEnvironment userSample = .ok cfg' ∧
      (∀ k ∈ pushedKeys fullEnvironment userSample, k ∉ userSample.keys) ∧ cfg'.DistinctKeys := by
  have hnone : ∀ k ∈ pushedKeys fullEnvironment userSample, k ∉ userSample.keys := by
    decide +kernel
  exact ⟨_, rfl, hnone, (distinctKeys_iff userSample _ (by constructor <;> decide) rfl).mpr hnone⟩

/-- **What a previous run gave is never kept distinct**: the exception topic and the trace topic
come a second time. -/
theorem not_distinctKeys_of_twice {cfg cfg' cfg'' : AimRTConfig}
    (h : injectDefaultCfg env cfg = .ok cfg') (h' : injectDefaultCfg env cfg' = .ok cfg'') :
    ¬cfg''.DistinctKeys := by
  intro hdistinct
  obtain ⟨ensured, -, hkeys⟩ := keys_injectDefaultCfg h
  obtain ⟨ensured', -, hkeys'⟩ := keys_injectDefaultCfg h'
  have hmem : ∀ cfg, Key.pubTopic hdsTopic ∈ pushedKeys env cfg := by
    intro cfg
    simp [pushedKeys, frameworkKeys]
  have hfirst : Key.pubTopic hdsTopic ∈ cfg'.keys := by
    rw [hkeys, mem_extend, Multiset.mem_coe]
    exact .inr (.inr (hmem cfg))
  rw [AimRTConfig.distinctKeys_iff_nodup, hkeys', Multiset.nodup_iff_count_le_one] at hdistinct
  have hone := hdistinct (.pubTopic hdsTopic)
  have hpos := Multiset.count_pos.mpr hfirst
  have hpos' := Multiset.count_pos.mpr (Multiset.mem_coe.mpr (hmem cfg'))
  rw [count_extend] at hone
  omega

/-- The injection gives distinct keys, and fed with them it does not. -/
theorem injected_keys_not_distinct :
    ∃ cfg cfg', injectDefaultCfg baseEnvironment {} = .ok cfg ∧ cfg.DistinctKeys ∧
      injectDefaultCfg baseEnvironment cfg = .ok cfg' ∧ ¬cfg'.DistinctKeys := by
  have hok : ∀ cfg, ∃ cfg', injectDefaultCfg baseEnvironment cfg = .ok cfg' := fun _ => ⟨_, rfl⟩
  obtain ⟨cfg, h, hdistinct⟩ : ∃ cfg, injectDefaultCfg baseEnvironment {} = .ok cfg ∧
      cfg.DistinctKeys := ⟨_, rfl, by constructor <;> decide +kernel⟩
  obtain ⟨cfg', h'⟩ := hok cfg
  exact ⟨cfg, cfg', h, hdistinct, h', not_distinctKeys_of_twice h h'⟩

end InjectDefault

end AimrtComm.Cfg
