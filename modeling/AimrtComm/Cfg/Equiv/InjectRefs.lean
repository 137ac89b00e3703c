import AimrtComm.Cfg.Equiv.InjectKeys
import AimrtComm.Lib.Covers

/-!
## When the references of the injection resolve

What an injection adds enables backends and names executors. `Refs` follows the executors through
the steps: a step may leave some of them pending until a later one declares them, and at the end
nothing is pending. `enabled` lists the backends that the options enable, of which only `ros2` and
`http` may be missing at the end: `WithDefaultRos` stops when it finds the plugin, and
`AddDefaultNet` adds `http` when a network option asks for it, whereas the topics and the services
enable them in any case. `SetLogSync` is the one step that changes a backend of the user that names
an executor.
-/

namespace AimrtComm.Cfg

open AimRTConfig

/-! ### What an element refers to -/

/-- The executors that a plugin names. -/
def PluginBackend.executors : PluginBackend → List String
  | .monitor executor => [executor]
  | .proxy executors => executors
  | .viz executor _ => [executor]
  | _ => []

/-- The executors that a log backend names. -/
def LogBackend.executors : LogBackend → List String
  | .console logExecutorName => logExecutorName.toList
  | .rotateFile options => options.logExecutorName.toList ++ options.syncExecutorName.toList
  | .topicLogger options => [options.timerExecutorName]

/-- The executors that an RPC backend names. -/
def RpcBackend.executors : RpcBackend → List String
  | .ros2 options | .mqtt options | .omp options | .zenoh options =>
    (options.bind TimeoutOption.timeoutExecutor).toList
  | .monitor executor => executor.toList
  | _ => []

/-- The executors that an executor is bound to. -/
def ExeBackend.executors : ExeBackend → List String
  | .asioStrand _ bindAsioThreadExecutorName => [bindAsioThreadExecutorName]
  | .timeWheel _ options => (options.bind TimeWheelOption.bindExecutor).toList
  | _ => []

/-- The names of the declared executors. -/
abbrev AimRTConfig.executorNames (cfg : AimRTConfig) : List String :=
  cfg.executors.map ExeBackend.name

/-- The options of topics that stand before those of `cfg`. -/
def AimRTConfig.addedTopics (cfg cfg' : AimRTConfig) : List PubOption :=
  cfg'.pubTopicsOptions.take (cfg'.pubTopicsOptions.length - cfg.pubTopicsOptions.length)

/-- The options of functions that stand before those of `cfg`. -/
def AimRTConfig.addedServices (cfg cfg' : AimRTConfig) : List CliOption :=
  cfg'.serversOptions.take (cfg'.serversOptions.length - cfg.serversOptions.length)

/-- What was added or changed refers to declared backends and executors only. -/
structure AimRTConfig.Resolvable (cfg cfg' : AimRTConfig) : Prop where
  topics : ∀ o ∈ cfg.addedTopics cfg', ∀ b ∈ o.enableBackends,
    b ∈ cfg'.chBackends.map ChBackend.type
  services : ∀ o ∈ cfg.addedServices cfg', ∀ b ∈ o.enableBackends,
    b ∈ cfg'.rpcBackends.map RpcBackend.type
  plugins : Covers (fun v => ∀ e ∈ v.executors, e ∈ cfg'.executorNames) cfg.plugins cfg'.plugins
  logBackends : Covers (fun v => ∀ e ∈ v.executors, e ∈ cfg'.executorNames)
    cfg.logBackends cfg'.logBackends
  rpcBackends : Covers (fun v => ∀ e ∈ v.executors, e ∈ cfg'.executorNames)
    cfg.rpcBackends cfg'.rpcBackends
  executors : Covers (fun v => ∀ e ∈ v.executors, e ∈ cfg'.executorNames)
    cfg.executors cfg'.executors

namespace InjectDefault

variable {env : Environment}

/-! ### Steps that name executors -/

/-- What the step adds or changes names declared executors and pending ones. -/
structure Refs (pending : List String) (cfg cfg' : AimRTConfig) : Prop where
  declared : ∀ e ∈ cfg.executorNames, e ∈ cfg'.executorNames
  plugins : Covers (fun v => ∀ e ∈ v.executors, e ∈ pending ∨ e ∈ cfg'.executorNames)
    cfg.plugins cfg'.plugins
  logPrefix : cfg.logBackends <+: cfg'.logBackends
  logBackends : Covers (fun v => ∀ e ∈ v.executors, e ∈ pending ∨ e ∈ cfg'.executorNames)
    cfg.logBackends cfg'.logBackends
  rpcBackends : Covers (fun v => ∀ e ∈ v.executors, e ∈ pending ∨ e ∈ cfg'.executorNames)
    cfg.rpcBackends cfg'.rpcBackends
  executors : Covers (fun v => ∀ e ∈ v.executors, e ∈ pending ∨ e ∈ cfg'.executorNames)
    cfg.executors cfg'.executors

variable {pending pending' : List String} {cfg cfg' cfg'' : AimRTConfig}

theorem Refs.refl (cfg : AimRTConfig) : Refs pending cfg cfg where
  declared _ h := h
  plugins := .refl _ _
  logPrefix := List.prefix_refl _
  logBackends := .refl _ _
  rpcBackends := .refl _ _
  executors := .refl _ _

/-- Steps compose, and what was pending may have been declared. -/
theorem Refs.trans (h : Refs pending cfg cfg') (h' : Refs pending' cfg' cfg'')
    (hpending : ∀ e ∈ pending, e ∈ pending' ∨ e ∈ cfg''.executorNames) :
    Refs pending' cfg cfg'' := by
  have himp : ∀ names : List String, (∀ e ∈ names, e ∈ pending ∨ e ∈ cfg'.executorNames) →
      ∀ e ∈ names, e ∈ pending' ∨ e ∈ cfg''.executorNames :=
    fun names hnames e he => (hnames e he).elim (hpending e) fun he => .inr (h'.declared e he)
  constructor
  · exact fun e he => h'.declared e (h.declared e he)
  · exact (h.plugins.mono fun v => himp v.executors).trans h'.plugins
  · exact h.logPrefix.trans h'.logPrefix
  · exact (h.logBackends.mono fun v => himp v.executors).trans h'.logBackends
  · exact (h.rpcBackends.mono fun v => himp v.executors).trans h'.rpcBackends
  · exact (h.executors.mono fun v => himp v.executors).trans h'.executors

/-- Steps that leave nothing pending. -/
theorem Refs.trans_nil (h : Refs [] cfg cfg') (h' : Refs [] cfg' cfg'') : Refs [] cfg cfg'' :=
  h.trans h' (by simp)

/-! ### Lists -/

section Lists

variable {α τ : Type*} [DecidableEq τ] {type : α → τ} {ok : α → Prop}

theorem map_assign {β : Type*} (f : α → β) (v : α) (xs : List α) :
    (assign v xs).map f = xs.map f ++ [f v] :=
  List.map_append

theorem covers_assign {v : α} (h : ok v) (xs : List α) : Covers ok xs (assign v xs) :=
  .append (by simpa using h) xs

theorem prefix_assignIfAbsent (v : α) (xs : List α) : xs <+: assignIfAbsent type v xs := by
  rw [assignIfAbsent]
  split_ifs
  · exact List.prefix_refl _
  · exact List.prefix_append _ _

theorem covers_assignIfAbsent {v : α} (h : ok v) (xs : List α) :
    Covers ok xs (assignIfAbsent type v xs) := by
  rw [assignIfAbsent]
  split_ifs
  · exact .refl _ _
  · exact covers_assign h xs

/-- `Visit` replaces the first element that is handled. -/
theorem exists_of_visit_eq_some {func : α → Option α} {xs ys : List α}
    (h : visit func xs = some ys) :
    ∃ before x after y, xs = before ++ x :: after ∧ ys = before ++ y :: after ∧
      func x = some y ∧ ∀ z ∈ before, func z = none := by
  induction xs generalizing ys with
  | nil => cases h
  | cons x xs ih =>
    rw [visit] at h
    cases hx : func x with
    | some y =>
      rw [hx] at h
      cases h
      exact ⟨[], x, xs, y, rfl, rfl, hx, by simp⟩
    | none =>
      rw [hx] at h
      obtain ⟨ys', hys', rfl⟩ := Option.map_eq_some_iff.mp h
      obtain ⟨before, x', after, y, rfl, rfl, hfunc, hnone⟩ := ih hys'
      refine ⟨x :: before, x', after, y, rfl, rfl, hfunc, ?_⟩
      simpa [hx] using hnone

theorem covers_visit {func : α → Option α} (h : ∀ x y, func x = some y → ok y) (xs : List α) :
    Covers ok xs ((visit func xs).getD xs) := by
  cases hvisit : visit func xs with
  | none => exact .refl _ _
  | some ys =>
    obtain ⟨before, x, after, y, rfl, rfl, hfunc, -⟩ := exists_of_visit_eq_some hvisit
    exact .replace before after (h x y hfunc)

end Lists

/-! ### The functions -/

/-- A step whose new elements name pending executors only. -/
theorem Refs.of_covers (hdeclared : cfg.executors <+: cfg'.executors)
    (hplugins : Covers (fun v => ∀ e ∈ v.executors, e ∈ pending) cfg.plugins cfg'.plugins)
    (hpre : cfg.logBackends <+: cfg'.logBackends)
    (hlog : Covers (fun v => ∀ e ∈ v.executors, e ∈ pending) cfg.logBackends cfg'.logBackends)
    (hrpc : Covers (fun v => ∀ e ∈ v.executors, e ∈ pending) cfg.rpcBackends cfg'.rpcBackends)
    (hexe : Covers (fun v => ∀ e ∈ v.executors, e ∈ pending) cfg.executors cfg'.executors) :
    Refs pending cfg cfg' where
  declared _ he := (hdeclared.map ExeBackend.name).subset he
  plugins := hplugins.mono fun _ h e he => .inl (h e he)
  logPrefix := hpre
  logBackends := hlog.mono fun _ h e he => .inl (h e he)
  rpcBackends := hrpc.mono fun _ h e he => .inl (h e he)
  executors := hexe.mono fun _ h e he => .inl (h e he)

/-- A step on other lists. -/
theorem Refs.of_eq (hplugins : cfg'.plugins = cfg.plugins)
    (hlog : cfg'.logBackends = cfg.logBackends) (hrpc : cfg'.rpcBackends = cfg.rpcBackends)
    (hexe : cfg'.executors = cfg.executors) : Refs [] cfg cfg' :=
  .of_covers (hexe ▸ List.prefix_refl _) (hplugins ▸ .refl _ _) (hlog ▸ List.prefix_refl _)
    (hlog ▸ .refl _ _) (hrpc ▸ .refl _ _) (hexe ▸ .refl _ _)

theorem timeWheel_mem_executorNames (cfg : AimRTConfig) :
    defaultTimeoutTimeWheel ∈ cfg.tryAddDefaultTimeoutExecutor.executorNames := by
  rw [tryAddDefaultTimeoutExecutor]
  split_ifs with h
  · obtain ⟨v, hv, hwheel⟩ := List.any_eq_true.mp h
    cases v with
    | timeWheel name options =>
      rw [isDefaultTimeWheel, decide_eq_true_eq] at hwheel
      exact List.mem_map.mpr ⟨_, hv, hwheel⟩
    | _ => cases hwheel
  · rw [executorNames, map_assign, List.mem_append, List.mem_singleton]
    exact .inr rfl

theorem refs_tryAddDefaultTimeoutExecutor (cfg : AimRTConfig) :
    Refs [] cfg cfg.tryAddDefaultTimeoutExecutor := by
  rw [tryAddDefaultTimeoutExecutor]
  split_ifs with h
  · exact .refl cfg
  · constructor
    · intro e he
      rw [executorNames, map_assign, map_assign]
      exact List.mem_append_left _ (List.mem_append_left _ he)
    · exact .refl _ _
    · exact List.prefix_refl _
    · exact .refl _ _
    · exact .refl _ _
    · -- the time wheel is bound to the executor before it
      apply (covers_assign _ _).trans (covers_assign _ _)
      · simp [ExeBackend.executors]
      · intro e he
        rw [executorNames, map_assign, map_assign, List.mem_append, List.mem_append]
        exact .inr (.inl (.inr he))

/-- Backends that name the time wheel, followed by `TryAddDefaultTimeoutExecutor`. -/
theorem Refs.then_timeWheel (h : Refs [defaultTimeoutTimeWheel] cfg cfg') :
    Refs [] cfg cfg'.tryAddDefaultTimeoutExecutor := by
  apply h.trans (refs_tryAddDefaultTimeoutExecutor cfg')
  intro e he
  rw [List.mem_singleton] at he
  exact .inr (he ▸ timeWheel_mem_executorNames cfg')

theorem refs_withDefaultLocal (cfg : AimRTConfig) : Refs [] cfg cfg.withDefaultLocal :=
  .of_covers (List.prefix_refl _) (.refl _ _) (List.prefix_refl _) (.refl _ _)
    (covers_assignIfAbsent (by simp [RpcBackend.executors]) _) (.refl _ _)

theorem refs_withDefaultRos (cfg : AimRTConfig) : Refs [] cfg cfg.withDefaultRos := by
  rw [withDefaultRos]
  split_ifs with h
  · exact .refl cfg
  · apply Refs.then_timeWheel
    exact .of_covers (List.prefix_refl _)
      (covers_assignIfAbsent (by simp [PluginBackend.executors]) _) (List.prefix_refl _)
      (.refl _ _) (covers_assignIfAbsent (by simp [RpcBackend.executors]) _) (.refl _ _)

theorem refs_withDefaultMqtt (cfg : AimRTConfig) (brokerIp : String) :
    Refs [] cfg (cfg.withDefaultMqtt brokerIp) := by
  apply Refs.then_timeWheel
  exact .of_covers (List.prefix_refl _)
    (covers_assignIfAbsent (by simp [PluginBackend.executors]) _) (List.prefix_refl _)
    (.refl _ _) (covers_assignIfAbsent (by simp [RpcBackend.executors]) _) (.refl _ _)

theorem refs_withDefaultZenoh (cfg : AimRTConfig) : Refs [] cfg cfg.withDefaultZenoh := by
  apply Refs.then_timeWheel
  exact .of_covers (List.prefix_refl _)
    (covers_assignIfAbsent (by simp [PluginBackend.executors]) _) (List.prefix_refl _)
    (.refl _ _) (covers_assignIfAbsent (by simp [RpcBackend.executors]) _) (.refl _ _)

theorem refs_withDefaultIceoryx (cfg : AimRTConfig) : Refs [] cfg cfg.withDefaultIceoryx :=
  .of_covers (List.prefix_refl _)
    (covers_assignIfAbsent (by simp [PluginBackend.executors]) _) (List.prefix_refl _)
    (.refl _ _) (.refl _ _) (.refl _ _)

theorem refs_insertPub (cfg : AimRTConfig) (option : PubOption) :
    Refs [] cfg (cfg.insertPub option) :=
  .of_eq rfl rfl rfl rfl

theorem refs_tryAddTopicLogger (cfg : AimRTConfig) : Refs [] cfg cfg.tryAddTopicLogger := by
  rw [tryAddTopicLogger]
  split_ifs with h
  · exact .refl cfg
  · have hlogger : Refs [defaultTimeoutTimeWheel] cfg { cfg with
        plugins := assignIfAbsent PluginBackend.type .topicLogger cfg.plugins
        logBackends := assignIfAbsent LogBackend.type
          (.topicLogger {
            topicName := logTopic
            timerExecutorName := defaultTimeoutTimeWheel
            intervalMs := 100
            maxMsgSize := 2 ^ 64 - 1 }) cfg.logBackends } :=
      .of_covers (List.prefix_refl _)
        (covers_assignIfAbsent (by simp [PluginBackend.executors]) _)
        (prefix_assignIfAbsent _ _)
        (covers_assignIfAbsent (by simp [LogBackend.executors]) _) (.refl _ _) (.refl _ _)
    exact (hlogger.then_timeWheel.trans_nil (refs_withDefaultRos _)).trans_nil (refs_insertPub _ _)

theorem refs_addDefaultBackends (h : addDefaultBackends env cfg = .ok cfg') : Refs [] cfg cfg' := by
  refine addDefaultBackends_induction Refs.refl (fun _ _ _ => Refs.trans_nil) refs_withDefaultRos
    refs_withDefaultMqtt refs_withDefaultZenoh refs_withDefaultIceoryx (fun c v hv => ?_)
    refs_tryAddTopicLogger h
  have hexecutors : v.executors = [] := by rcases hv with rfl | rfl <;> rfl
  exact .of_covers (List.prefix_refl _) (.refl _ _) (prefix_assignIfAbsent _ _)
    (covers_assignIfAbsent (by simp [hexecutors]) _) (.refl _ _) (.refl _ _)

theorem refs_addDefaultNet (cfg : AimRTConfig) : Refs [] cfg (addDefaultNet env cfg) := by
  have hplugin : Refs [] cfg (addNetPlugin env cfg) := by
    rw [addNetPlugin]
    split_ifs
    · exact .of_covers (List.prefix_refl _)
        (covers_assign (by simp [PluginBackend.executors]) _) (List.prefix_refl _) (.refl _ _)
        (.refl _ _) (.refl _ _)
    · exact .refl cfg
  apply hplugin.trans_nil
  have hlists : (addNetPlugin env cfg).rpcBackends = cfg.rpcBackends := by
    rw [addNetPlugin]
    split_ifs <;> rfl
  refine .of_covers (List.prefix_refl _) ?_ (List.prefix_refl _) (.refl _ _) ?_ (.refl _ _)
  · -- the options of the net plugin change, which names no executor
    apply covers_visit
    intro v v' hv
    cases v with
    | net options =>
      cases hv
      simp [PluginBackend.executors]
    | _ => cases hv
  · rw [hlists]
    show Covers _ cfg.rpcBackends (if needHttpBackend env cfg then
      assignIfAbsent RpcBackend.type .http cfg.rpcBackends else cfg.rpcBackends)
    split_ifs
    · exact covers_assignIfAbsent (by simp [RpcBackend.executors]) _
    · exact .refl _ _

theorem refs_addHDSCfg (cfg : AimRTConfig) : Refs [] cfg (addHDSCfg env cfg) := by
  rw [addHDSCfg]
  split_ifs
  · exact (refs_withDefaultRos cfg).trans_nil (refs_insertPub _ _)
  · exact (refs_withDefaultZenoh cfg).trans_nil (refs_insertPub _ _)
  · exact (refs_addDefaultNet cfg).trans_nil (.of_eq rfl rfl rfl rfl)
  · exact refs_insertPub cfg _

theorem refs_addLogControlCfg (cfg : AimRTConfig) : Refs [] cfg (addLogControlCfg env cfg) := by
  rw [addLogControlCfg]
  split_ifs
  · exact .refl cfg
  · apply Refs.trans_nil _ (refs_addDefaultNet _)
    exact .of_covers (List.prefix_refl _) (covers_assign (by simp [PluginBackend.executors]) _)
      (List.prefix_refl _) (.refl _ _) (.refl _ _) (.refl _ _)

theorem refs_addTraceEventCfg (cfg : AimRTConfig) : Refs [] cfg (addTraceEventCfg cfg) :=
  (refs_withDefaultRos cfg).trans_nil (refs_insertPub _ _)

/-- A plugin comes with the executor that it names. -/
theorem refs_assign_executor {v : ExeBackend} (h : Refs [v.name] cfg cfg')
    (hv : v.executors = []) :
    Refs [] cfg { cfg' with executors := assign v cfg'.executors } := by
  have hexe : Refs [] cfg' { cfg' with executors := assign v cfg'.executors } :=
    .of_covers (List.prefix_append _ _) (.refl _ _) (List.prefix_refl _) (.refl _ _) (.refl _ _)
      (covers_assign (by simp [hv]) _)
  apply h.trans hexe
  intro e he
  rw [executorNames, map_assign, List.mem_append]
  exact .inr (.inr he)

theorem refs_addMonitorBackends (cfg : AimRTConfig) : Refs [] cfg (addMonitorBackends cfg) := by
  have hmonitor : Refs [defaultMonitorExecutor] cfg { cfg with
      plugins := assign (.monitor defaultMonitorExecutor) cfg.plugins
      chBackends := assign .monitor cfg.chBackends
      rpcBackends := assign (.monitor none) cfg.rpcBackends } :=
    .of_covers (List.prefix_refl _) (covers_assign (by simp [PluginBackend.executors]) _)
      (List.prefix_refl _) (.refl _ _) (covers_assign (by simp [RpcBackend.executors]) _)
      (.refl _ _)
  exact refs_assign_executor
    (v := .asioThread defaultMonitorExecutor (some { threadNum := some 3 })) hmonitor rfl

theorem refs_addMonitorCfg (cfg : AimRTConfig) : Refs [] cfg (addMonitorCfg env cfg) := by
  rw [addMonitorCfg]
  split_ifs
  · exact .refl cfg
  · have hheartbeat : Refs [] (addMonitorBackends cfg)
        (addHeartbeat env (addMonitorBackends cfg)) := by
      rw [addHeartbeat]
      split_ifs
      · exact (refs_withDefaultRos _).trans_nil (refs_insertPub _ _)
      · exact (refs_withDefaultZenoh _).trans_nil (refs_insertPub _ _)
      · exact (refs_withDefaultMqtt _ _).trans_nil (refs_insertPub _ _)
      · exact refs_insertPub _ _
    exact ((refs_addMonitorBackends cfg).trans_nil hheartbeat).trans_nil (.of_eq rfl rfl rfl rfl)

theorem refs_addVizCfg (cfg : AimRTConfig) : Refs [] cfg (addVizCfg env cfg) := by
  rw [addVizCfg]
  split_ifs
  · exact .refl cfg
  · have hviz : Refs [defaultVizExecutor] cfg { cfg with
        plugins := assign
          (.viz defaultVizExecutor (if env.socIndex = 1 then "orin" else "x86_64"))
          cfg.plugins } :=
      .of_covers (List.prefix_refl _) (covers_assign (by simp [PluginBackend.executors]) _)
        (List.prefix_refl _) (.refl _ _) (.refl _ _) (.refl _ _)
    have hplugin : Refs [] cfg (addVizPlugin env cfg) := refs_assign_executor
      (v := .asioThread defaultVizExecutor (some { threadNum := some 3 })) hviz rfl
    exact (hplugin.trans_nil (refs_withDefaultRos _)).trans_nil (.of_eq rfl rfl rfl rfl)

theorem refs_setRos2ChannelQos (h : setRos2ChannelQos env cfg = .ok cfg') : Refs [] cfg cfg' := by
  rcases setRos2ChannelQos_cases cfg h with rfl | ⟨qos, -, rfl⟩
  · exact .refl _
  · exact .of_eq rfl rfl rfl rfl

/-- Before `SetLogSync` everything that was added names declared executors. -/
theorem refs_stages {cfg₁ cfg₂ : AimRTConfig} (hdefault : addDefaultBackends env cfg = .ok cfg₁)
    (hqos : setRos2ChannelQos env (addFrameworkCfg env cfg₁) = .ok cfg₂) : Refs [] cfg cfg₂ := by
  have hframework : Refs [] cfg₁ (addFrameworkCfg env cfg₁) :=
    (((((refs_addHDSCfg cfg₁).trans_nil (refs_addLogControlCfg _)).trans_nil
      (refs_addTraceEventCfg _)).trans_nil (refs_addMonitorCfg _)).trans_nil
        (refs_addVizCfg _)).trans_nil (refs_withDefaultLocal _)
  exact ((refs_addDefaultBackends hdefault).trans_nil hframework).trans_nil
    (refs_setRos2ChannelQos hqos)

/-! ### The options that are added -/

/-- The enabled backends of the topics and of the functions, in the order of the options. -/
def enabled (cfg : AimRTConfig) : List (List Ch) × List (List Rpc) :=
  (cfg.pubTopicsOptions.map PubOption.enableBackends,
    cfg.serversOptions.map CliOption.enableBackends)

@[simp]
theorem enabled_tryAddDefaultTimeoutExecutor (cfg : AimRTConfig) :
    enabled cfg.tryAddDefaultTimeoutExecutor = enabled cfg := by
  rw [tryAddDefaultTimeoutExecutor]
  split_ifs <;> rfl

@[simp]
theorem enabled_withDefaultLocal (cfg : AimRTConfig) :
    enabled cfg.withDefaultLocal = enabled cfg := rfl

@[simp]
theorem enabled_withDefaultRos (cfg : AimRTConfig) :
    enabled cfg.withDefaultRos = enabled cfg := by
  rw [withDefaultRos]
  split_ifs
  · rfl
  · rw [enabled_tryAddDefaultTimeoutExecutor]
    rfl

@[simp]
theorem enabled_withDefaultMqtt (cfg : AimRTConfig) (brokerIp : String) :
    enabled (cfg.withDefaultMqtt brokerIp) = enabled cfg := by
  rw [withDefaultMqtt, enabled_tryAddDefaultTimeoutExecutor]
  rfl

@[simp]
theorem enabled_withDefaultZenoh (cfg : AimRTConfig) :
    enabled cfg.withDefaultZenoh = enabled cfg := by
  rw [withDefaultZenoh, enabled_tryAddDefaultTimeoutExecutor]
  rfl

@[simp]
theorem enabled_withDefaultIceoryx (cfg : AimRTConfig) :
    enabled cfg.withDefaultIceoryx = enabled cfg := rfl

@[simp]
theorem enabled_addDefaultNet (cfg : AimRTConfig) :
    enabled (addDefaultNet env cfg) = enabled cfg := by
  rw [addDefaultNet, addNetPlugin]
  split_ifs <;> rfl

@[simp]
theorem enabled_insertPub (cfg : AimRTConfig) (option : PubOption) :
    enabled (cfg.insertPub option)
      = (option.enableBackends :: (enabled cfg).1, (enabled cfg).2) := rfl

@[simp]
theorem enabled_insertServer (cfg : AimRTConfig) (option : CliOption) :
    enabled (cfg.insertServer option)
      = ((enabled cfg).1, option.enableBackends :: (enabled cfg).2) := rfl

@[simp]
theorem enabled_channelAddFilter (cfg : AimRTConfig) (filter : Filter) :
    enabled (cfg.channelAddFilter filter) = enabled cfg := by
  simp [enabled, channelAddFilter, PubOption.addFilter, Function.comp_def]

@[simp]
theorem enabled_rpcAddFilter (cfg : AimRTConfig) (filter : Filter) :
    enabled (cfg.rpcAddFilter filter) = enabled cfg := by
  simp [enabled, rpcAddFilter, CliOption.addFilter, Function.comp_def]

/-- The topic logger adds its topic, for ros2. -/
theorem enabled_tryAddTopicLogger (cfg : AimRTConfig) :
    ∃ logs : List (List Ch), (∀ bs ∈ logs, bs = [.ros2]) ∧
      enabled cfg.tryAddTopicLogger = (logs ++ (enabled cfg).1, (enabled cfg).2) := by
  rw [tryAddTopicLogger]
  split_ifs
  · exact ⟨[], by simp, rfl⟩
  · refine ⟨[[.ros2]], by simp, ?_⟩
    rw [enabled_insertPub, enabled_withDefaultRos, enabled_tryAddDefaultTimeoutExecutor]
    rfl

/-- The defaults add nothing but that topic. -/
theorem enabled_addDefaultBackends (h : addDefaultBackends env cfg = .ok cfg') :
    ∃ logs : List (List Ch), (∀ bs ∈ logs, bs = [.ros2]) ∧
      enabled cfg' = (logs ++ (enabled cfg).1, (enabled cfg).2) := by
  have hsame : ∀ c c' : AimRTConfig, enabled c' = enabled c →
      ∃ logs : List (List Ch), (∀ bs ∈ logs, bs = [.ros2]) ∧
        enabled c' = (logs ++ (enabled c).1, (enabled c).2) :=
    fun c c' hc => ⟨[], by simp, hc⟩
  apply addDefaultBackends_induction _ _ _ _ _ _ _ enabled_tryAddTopicLogger h
  · exact fun c => hsame c c rfl
  · rintro c c' c'' ⟨logs, hlogs, hc⟩ ⟨logs', hlogs', hc'⟩
    refine ⟨logs' ++ logs, ?_, by rw [hc', hc, List.append_assoc]⟩
    intro bs hbs
    exact (List.mem_append.mp hbs).elim (hlogs' bs) (hlogs bs)
  · exact fun c => hsame c _ (enabled_withDefaultRos c)
  · exact fun c brokerIp => hsame c _ (enabled_withDefaultMqtt c brokerIp)
  · exact fun c => hsame c _ (enabled_withDefaultZenoh c)
  · exact fun c => hsame c _ (enabled_withDefaultIceoryx c)
  · exact fun c v _ => hsame c _ rfl

/-- The backends of the exception topic. -/
def hdsBackends (env : Environment) : List Ch :=
  if env.featureHDSNewBackend = "ros2" then [.ros2]
  else if env.featureHDSNewBackend = "zenoh" then [.zenoh]
  else if env.featureHDSNewBackend = "udp" then [.udp]
  else []

/-- The backends of the heartbeat topic. -/
def heartbeatBackends (env : Environment) : List Ch :=
  if env.featureHeartbeatNewBackend = "ros2" then [.ros2]
  else if env.featureHeartbeatNewBackend = "zenoh" then [.zenoh]
  else if env.featureHeartbeatNewBackend = "mqtt" then [.mqtt]
  else []

/-- The framework adds the heartbeat, trace and exception topics, and its services. -/
theorem enabled_addFrameworkCfg (cfg : AimRTConfig) : enabled (addFrameworkCfg env cfg)
    = ((if env.enableMonitor then [heartbeatBackends env] else [])
        ++ [[.ros2], hdsBackends env] ++ (enabled cfg).1,
      (if env.enableViz then [[.ros2]] else [])
        ++ (if env.enableLogControl then [[.http]] else []) ++ (enabled cfg).2) := by
  -- one fact for each function that is called, in the order of the calls
  have hhds : enabled (addHDSCfg env cfg)
      = (hdsBackends env :: (enabled cfg).1, (enabled cfg).2) := by
    rw [addHDSCfg, hdsBackends]
    split_ifs
    · simp
    · simp
    · rw [enabled_insertPub]
      show (_ :: (enabled (addDefaultNet env cfg)).1, (enabled (addDefaultNet env cfg)).2) = _
      rw [enabled_addDefaultNet]
    · simp
  have hlog : ∀ c, enabled (addLogControlCfg env c) = ((enabled c).1,
      (if env.enableLogControl then [[.http]] else []) ++ (enabled c).2) := by
    intro c
    rw [addLogControlCfg]
    cases env.enableLogControl with
    | false => rfl
    | true =>
      rw [if_neg (by simp), enabled_addDefaultNet, enabled_insertServer]
      rfl
  have htrace : ∀ c, enabled (addTraceEventCfg c) = ([.ros2] :: (enabled c).1, (enabled c).2) := by
    intro c
    rw [addTraceEventCfg, enabled_insertPub, enabled_withDefaultRos]
  have hmonitor : ∀ c, enabled (addMonitorCfg env c) =
      ((if env.enableMonitor then [heartbeatBackends env] else []) ++ (enabled c).1,
        (enabled c).2) := by
    intro c
    rw [addMonitorCfg]
    cases env.enableMonitor with
    | false => rfl
    | true =>
      rw [if_neg (by simp), enabled_channelAddFilter, addHeartbeat, heartbeatBackends]
      have hbackends : enabled (addMonitorBackends c) = enabled c := rfl
      simp only [if_true]
      split_ifs <;> simp [hbackends]
  have hviz : ∀ c, enabled (addVizCfg env c) = ((enabled c).1,
      (if env.enableViz then [[.ros2]] else []) ++ (enabled c).2) := by
    intro c
    rw [addVizCfg]
    cases env.enableViz with
    | false => rfl
    | true =>
      rw [if_neg (by simp), enabled_rpcAddFilter, enabled_channelAddFilter, enabled_insertServer,
        enabled_withDefaultRos]
      rfl
  rw [addFrameworkCfg, enabled_withDefaultLocal, hviz, hmonitor, htrace, hlog, hhds]
  simp

/-! ### The backends that are declared -/

section Declared

variable {cfg cfg₂ : AimRTConfig} (hadds : Adds env (injectAdditions env) cfg cfg₂)

include hadds

/-- `ros2` is declared as a channel when it was, or when its plugin was missing. -/
theorem ros2_mem_chBackends_iff : .ros2 ∈ cfg₂.chBackends.map ChBackend.type ↔
    .ros2 ∉ cfg.plugins.map PluginBackend.type ∨ .ros2 ∈ cfg.chBackends.map ChBackend.type := by
  have hmem : Key.ch .ros2 ∈ (injectAdditions env).ensuredOn env cfg ↔
      .ros2 ∉ cfg.plugins.map PluginBackend.type := by
    have hnet : Key.ch .ros2 ∉ netKeys env cfg := fun hmem =>
      forall_mem_netKeys env (P := fun k => k ≠ .ch .ros2) cfg (by simp) (by simp) (by simp)
        (by simp) (by simp) _ hmem rfl
    rw [Additions.mem_ensuredOn_iff env _ cfg rfl, Additions.addsRos, injectAdditions_ros, hasRos]
    simp [loggerKeys, rosKeys, hnet]
  rw [← ch_mem_keys, hadds.mem_keys_iff rfl, hmem, ch_mem_keys, or_comm]

theorem ros2_mem_rpcBackends_iff : .ros2 ∈ cfg₂.rpcBackends.map RpcBackend.type ↔
    .ros2 ∉ cfg.plugins.map PluginBackend.type ∨ .ros2 ∈ cfg.rpcBackends.map RpcBackend.type := by
  have hmem : Key.rpc .ros2 ∈ (injectAdditions env).ensuredOn env cfg ↔
      .ros2 ∉ cfg.plugins.map PluginBackend.type := by
    have hnet : Key.rpc .ros2 ∉ netKeys env cfg := fun hmem =>
      forall_mem_netKeys env (P := fun k => k ≠ .rpc .ros2) cfg (by simp) (by simp) (by simp)
        (by simp) (by simp) _ hmem rfl
    rw [Additions.mem_ensuredOn_iff env _ cfg rfl, Additions.addsRos, injectAdditions_ros, hasRos]
    simp [loggerKeys, rosKeys, hnet]
  rw [← rpc_mem_keys, hadds.mem_keys_iff rfl, hmem, rpc_mem_keys, or_comm]

/-- `http` is declared for the log control service when it was, or when the net plugin is to have
it. -/
theorem http_mem_rpcBackends_iff (hlog : env.enableLogControl = true) :
    .http ∈ cfg₂.rpcBackends.map RpcBackend.type ↔
      needHttpBackend env cfg ∨ .http ∈ cfg.rpcBackends.map RpcBackend.type := by
  -- `AddLogControlCfg` is one of the functions that call `AddDefaultNet`
  have hnet : (injectAdditions env).net = true := by
    simp [injectAdditions, frameworkAdditions, logControlAdditions, hlog, Additions.comp]
  have hmem : Key.rpc .http ∈ (injectAdditions env).ensuredOn env cfg ↔
      needHttpBackend env cfg := by
    rw [Additions.mem_ensuredOn_iff env _ cfg rfl, hnet, netKeys]
    split_ifs <;> simp_all [loggerKeys, rosKeys]
  rw [← rpc_mem_keys, hadds.mem_keys_iff rfl, hmem, rpc_mem_keys, or_comm]

/-- The exception topic has its backend, `ros2` apart. -/
theorem hdsBackends_declared {b : Ch} (hb : b ∈ hdsBackends env) :
    b = .ros2 ∨ b ∈ cfg₂.chBackends.map ChBackend.type := by
  rw [hdsBackends] at hb
  split_ifs at hb with hros hzenoh hudp
  · exact .inl (List.mem_singleton.mp hb)
  · right
    rw [List.mem_singleton] at hb
    subst hb
    rw [← ch_mem_keys, hadds.mem_keys_iff rfl]
    right
    simp [Additions.ensuredOn, injectAdditions, frameworkAdditions, hdsAdditions, hzenoh,
      zenohAdditions]
  · -- the udp backend comes from `AddDefaultNet`, and its feature switch is one of its reasons
    right
    rw [List.mem_singleton] at hb
    subst hb
    rw [← ch_mem_keys, hadds.mem_keys_iff rfl]
    right
    have hneed : needUdpBackend env cfg = true := by simp [needUdpBackend, hudp]
    have hnet : (injectAdditions env).net = true := by
      simp [injectAdditions, frameworkAdditions, hdsAdditions, hudp, Additions.comp]
    simp [Additions.ensuredOn, hnet, netKeys, hneed]
  · simp at hb

/-- The heartbeat topic has its backend, `ros2` apart. -/
theorem heartbeatBackends_declared (hmonitor : env.enableMonitor = true) {b : Ch}
    (hb : b ∈ heartbeatBackends env) : b = .ros2 ∨ b ∈ cfg₂.chBackends.map ChBackend.type := by
  rw [heartbeatBackends] at hb
  split_ifs at hb with hros hzenoh hmqtt
  · exact .inl (List.mem_singleton.mp hb)
  · right
    rw [List.mem_singleton] at hb
    subst hb
    rw [← ch_mem_keys, hadds.mem_keys_iff rfl]
    right
    simp [Additions.ensuredOn, injectAdditions, frameworkAdditions, monitorAdditions, hmonitor,
      heartbeatAdditions, hzenoh, zenohAdditions]
  · right
    rw [List.mem_singleton] at hb
    subst hb
    rw [← ch_mem_keys, hadds.mem_keys_iff rfl]
    right
    simp [Additions.ensuredOn, injectAdditions, frameworkAdditions, monitorAdditions, hmonitor,
      heartbeatAdditions, hmqtt, mqttAdditions]
  · simp at hb

/-- The topics that the injection adds have their backends, `ros2` apart. -/
theorem topics_declared {logs : List (List Ch)} (hlogs : ∀ bs ∈ logs, bs = [.ros2]) :
    ∀ bs ∈ (if env.enableMonitor then [heartbeatBackends env] else [])
        ++ [[.ros2], hdsBackends env] ++ logs,
      ∀ b ∈ bs, b = .ros2 ∨ b ∈ cfg₂.chBackends.map ChBackend.type := by
  intro bs hbs b hb
  simp only [List.mem_append, List.mem_cons, List.not_mem_nil, or_false] at hbs
  rcases hbs with (hbs | rfl | rfl) | hbs
  · split_ifs at hbs with hmonitor
    · rw [List.mem_singleton] at hbs
      exact heartbeatBackends_declared hadds hmonitor (hbs ▸ hb)
    · simp at hbs
  · exact .inl (List.mem_singleton.mp hb)
  · exact hdsBackends_declared hadds hb
  · exact .inl (List.mem_singleton.mp (hlogs bs hbs ▸ hb))

/-- The services that the injection adds have their backends if these are taken for granted
rightly. -/
theorem services_declared
    (hviz : env.enableViz → .ros2 ∉ cfg.plugins.map PluginBackend.type ∨
      .ros2 ∈ cfg.rpcBackends.map RpcBackend.type)
    (hlog : env.enableLogControl → needHttpBackend env cfg ∨
      .http ∈ cfg.rpcBackends.map RpcBackend.type) :
    ∀ bs ∈ (if env.enableViz then [[Rpc.ros2]] else [])
        ++ (if env.enableLogControl then [[Rpc.http]] else []),
      ∀ b ∈ bs, b ∈ cfg₂.rpcBackends.map RpcBackend.type := by
  intro bs hbs b hb
  rcases List.mem_append.mp hbs with hbs | hbs
  · split_ifs at hbs with henable
    · rw [List.mem_singleton] at hbs
      subst hbs
      rw [List.mem_singleton.mp hb, ros2_mem_rpcBackends_iff hadds]
      exact hviz henable
    · simp at hbs
  · split_ifs at hbs with henable
    · rw [List.mem_singleton] at hbs
      subst hbs
      rw [List.mem_singleton.mp hb, http_mem_rpcBackends_iff hadds henable]
      exact hlog henable
    · simp at hbs

end Declared

/-! ### `SetLogSync` and the log executor -/

/-- The options of a rotate_file backend. -/
def rotateFileOptions? : LogBackend → Option RotateFileOptions
  | .rotateFile options => some options
  | _ => none

/-- The options of the rotate_file backend that `Visit` finds. -/
def firstRotateFile (cfg : AimRTConfig) : Option RotateFileOptions :=
  cfg.logBackends.findSome? rotateFileOptions?

/-- What `SetLogSync` makes of them. -/
def synced (env : Environment) (options : RotateFileOptions) : RotateFileOptions :=
  { options with
    enableSync := some true
    syncIntervalMs := some env.featureLogSyncInterval
    syncExecutorName := some defaultLogSyncExecutor }

/-- `SetLogSync` changes the first rotate_file backend, or nothing. -/
theorem setLogSync_cases (env : Environment) (cfg : AimRTConfig) :
    (setLogSync env cfg = cfg ∧
        (env.featureLogSyncInterval ≤ 0 ∨ ∀ v ∈ cfg.logBackends, rotateFileOptions? v = none)) ∨
      0 < env.featureLogSyncInterval ∧ ∃ before options after,
        cfg.logBackends = before ++ .rotateFile options :: after ∧
        (∀ v ∈ before, rotateFileOptions? v = none) ∧
        setLogSync env cfg = { cfg with
          logBackends := before ++ .rotateFile (synced env options) :: after
          executors := assign (.asioThread defaultLogSyncExecutor none) cfg.executors } := by
  have hnone : ∀ v, syncRotateFile env v = none → rotateFileOptions? v = none := by
    intro v hv
    cases v <;> first | rfl | cases hv
  rw [setLogSync]
  split_ifs with hinterval
  · exact .inl ⟨rfl, .inl hinterval⟩
  · cases hvisit : visit (syncRotateFile env) cfg.logBackends with
    | none => exact .inl ⟨rfl, .inr fun v hv => hnone v (visit_eq_none_iff.mp hvisit v hv)⟩
    | some logBackends =>
      obtain ⟨before, x, after, y, hbefore, rfl, hfunc, hno⟩ := exists_of_visit_eq_some hvisit
      right
      cases x with
      | rotateFile options =>
        cases hfunc
        exact ⟨by omega, before, options, after, hbefore, fun v hv => hnone v (hno v hv), rfl⟩
      | _ => cases hfunc

/-- The log executor of a rotate_file backend that `SetLogSync` changes is declared. -/
def LogExecutorDeclared (env : Environment) (cfg : AimRTConfig) : Prop :=
  ∀ options, firstRotateFile cfg = some options → 0 < env.featureLogSyncInterval →
    synced env options ≠ options → ∀ e, options.logExecutorName = some e →
      e ∈ cfg.executorNames ∨ Key.executor e ∈ pushedKeys env cfg

/-- An executor is declared afterwards when it was before or is pushed. -/
theorem mem_executorNames_iff (h : injectDefaultCfg env cfg = .ok cfg') {e : String} :
    e ∈ cfg'.executorNames ↔ e ∈ cfg.executorNames ∨ Key.executor e ∈ pushedKeys env cfg := by
  obtain ⟨ensured, hensured, hkeys⟩ := keys_injectDefaultCfg h
  have hno : Key.executor e ∉ ensured := fun hmem => by
    have hpushed := hensured _ hmem
    rw [Key.isPushed_executor] at hpushed
    cases hpushed
  rw [← executor_mem_keys, hkeys, mem_extend, executor_mem_keys, Multiset.mem_coe]
  simp [hno]

/-- `SetLogSync` names declared executors exactly when the log executor is declared. -/
theorem covers_setLogSync_iff {cfg cfg₂ : AimRTConfig} (hrefs : Refs [] cfg cfg₂)
    (h : injectDefaultCfg env cfg = .ok (setLogSync env cfg₂)) :
    Covers (fun v => ∀ e ∈ v.executors, e ∈ (setLogSync env cfg₂).executorNames)
      cfg.logBackends (setLogSync env cfg₂).logBackends ↔ LogExecutorDeclared env cfg := by
  obtain ⟨added, hadded⟩ := hrefs.logPrefix
  rcases setLogSync_cases env cfg₂ with ⟨hsame, hno⟩ | ⟨hinterval, before, options, after, hlog,
    hbefore, hsync⟩
  · -- nothing changes, and there is nothing to declare
    rw [hsame]
    refine iff_of_true ?_ fun options hfirst hinterval => ?_
    · exact hrefs.logBackends.mono fun v hv e he => (hv e he).resolve_left (by simp)
    · rcases hno with hno | hno
      · omega
      · obtain ⟨v, hv, hoptions⟩ := List.exists_of_findSome?_eq_some hfirst
        rw [hno v (hadded ▸ List.mem_append_left _ hv)] at hoptions
        cases hoptions
  · have hfind : cfg₂.logBackends.findSome? rotateFileOptions? = some options := by
      rw [hlog, List.findSome?_append, List.findSome?_eq_none_iff.mpr hbefore]
      rfl
    constructor
    · intro hcovers options' hfirst _ hne e he
      rw [← mem_executorNames_iff h]
      rw [firstRotateFile] at hfirst
      have hoptions : options' = options := by
        rw [← hadded, List.findSome?_append, hfirst, Option.some_or, Option.some.injEq] at hfind
        exact hfind
      subst hoptions
      -- the backend stands in the same place before
      have hlength : before.length < cfg.logBackends.length := by
        by_contra hle
        have hall : cfg.logBackends <+: before ++ .rotateFile options' :: after := by
          rw [← hlog, ← hadded]
          exact List.prefix_append _ _
        have hpre : cfg.logBackends <+: before :=
          List.prefix_of_prefix_length_le hall (List.prefix_append _ _) (by omega)
        rw [List.findSome?_eq_none_iff.mpr fun v hv => hbefore v (hpre.subset hv)] at hfirst
        cases hfirst
      have hold : cfg.logBackends[before.length]? = some (.rotateFile options') := by
        rw [← List.getElem?_append_left hlength, hadded, hlog]
        simp
      rcases hcovers before.length (.rotateFile (synced env options')) (by simp [hsync]) with
        hsame | hdeclared
      · rw [hold, Option.some.injEq, LogBackend.rotateFile.injEq] at hsame
        exact absurd hsame.symm hne
      · exact hdeclared e (by simp [LogBackend.executors, synced, he])
    · intro hexecutor i v hv
      rw [hsync] at hv
      have hmono : ∀ e ∈ cfg₂.executorNames, e ∈ (setLogSync env cfg₂).executorNames := by
        intro e he
        rw [hsync, executorNames, map_assign]
        exact List.mem_append_left _ he
      have hsynced : defaultLogSyncExecutor ∈ (setLogSync env cfg₂).executorNames := by
        rw [hsync, executorNames, map_assign, List.mem_append, List.mem_singleton]
        exact .inr rfl
      have hset : before ++ LogBackend.rotateFile (synced env options) :: after
          = cfg₂.logBackends.set before.length (.rotateFile (synced env options)) := by
        simp [hlog]
      have hv : (before ++ LogBackend.rotateFile (synced env options) :: after)[i]? = some v := hv
      rw [hset, List.getElem?_set] at hv
      split_ifs at hv with hi hlength
      · -- the element that `SetLogSync` changes
        rw [Option.some.injEq] at hv
        subst hv hi
        have hplace : cfg₂.logBackends[before.length]? = some (.rotateFile options) := by
          simp [hlog]
        rcases hrefs.logBackends _ _ hplace with hold | hdeclared
        · by_cases hne : synced env options = options
          · rw [hne]
            exact .inl hold
          · right
            have hfirst : firstRotateFile cfg = some options := by
              rw [← hadded, List.findSome?_append] at hfind
              rw [firstRotateFile]
              cases hcfg : cfg.logBackends.findSome? rotateFileOptions? with
              | some options' =>
                rw [hcfg] at hfind
                exact hfind
              | none =>
                have hnone := List.findSome?_eq_none_iff.mp hcfg _ (List.mem_of_getElem? hold)
                cases hnone
            intro e he
            simp only [LogBackend.executors, synced, List.mem_append, Option.mem_toList,
              Option.some.injEq] at he
            rcases he with he | rfl
            · rw [mem_executorNames_iff h]
              exact hexecutor options hfirst hinterval hne e he
            · exact hsynced
        · right
          intro e he
          simp only [LogBackend.executors, synced, List.mem_append, Option.mem_toList,
            Option.some.injEq] at he
          rcases he with he | rfl
          · exact hmono e ((hdeclared e (by simp [LogBackend.executors, he])).resolve_left
              (by simp))
          · exact hsynced
      · -- an element that it leaves alone
        rcases hrefs.logBackends i v hv with hsame | hdeclared
        · exact .inl hsame
        · exact .inr fun e he => hmono e ((hdeclared e he).resolve_left (by simp))

/-! ### When everything resolves -/

theorem forall_addedTopics_iff {added : List (List Ch)}
    (h : (enabled cfg').1 = added ++ (enabled cfg).1) (P : Ch → Prop) :
    (∀ o ∈ cfg.addedTopics cfg', ∀ b ∈ o.enableBackends, P b) ↔ ∀ bs ∈ added, ∀ b ∈ bs, P b := by
  have hlength := congrArg List.length h
  simp only [enabled, List.length_append, List.length_map] at hlength
  have hmap : (cfg.addedTopics cfg').map PubOption.enableBackends = added := by
    rw [addedTopics, List.map_take,
      show cfg'.pubTopicsOptions.map PubOption.enableBackends = _ from h,
      List.take_append_of_le_length (by omega), List.take_of_length_le (by omega)]
  rw [← hmap]
  simp

theorem forall_addedServices_iff {added : List (List Rpc)}
    (h : (enabled cfg').2 = added ++ (enabled cfg).2) (P : Rpc → Prop) :
    (∀ o ∈ cfg.addedServices cfg', ∀ b ∈ o.enableBackends, P b) ↔
      ∀ bs ∈ added, ∀ b ∈ bs, P b := by
  have hlength := congrArg List.length h
  simp only [enabled, List.length_append, List.length_map] at hlength
  have hmap : (cfg.addedServices cfg').map CliOption.enableBackends = added := by
    rw [addedServices, List.map_take,
      show cfg'.serversOptions.map CliOption.enableBackends = _ from h,
      List.take_append_of_le_length (by omega), List.take_of_length_le (by omega)]
  rw [← hmap]
  simp

/-- The backends that the framework takes for granted are there, or are added. -/
structure Grounded (env : Environment) (cfg : AimRTConfig) : Prop where
  /-- `ros2` as a channel, for the trace topic -/
  channel : .ros2 ∉ cfg.plugins.map PluginBackend.type ∨
    .ros2 ∈ cfg.chBackends.map ChBackend.type
  /-- `ros2` for the viz service -/
  viz : env.enableViz → .ros2 ∉ cfg.plugins.map PluginBackend.type ∨
    .ros2 ∈ cfg.rpcBackends.map RpcBackend.type
  /-- `http` for the log control service -/
  logControl : env.enableLogControl → needHttpBackend env cfg ∨
    .http ∈ cfg.rpcBackends.map RpcBackend.type
  /-- the log executor of the rotate_file backend that `SetLogSync` changes -/
  logExecutor : LogExecutorDeclared env cfg

/-- What `SetLogSync` leaves alone. -/
theorem setLogSync_frame (env : Environment) (cfg : AimRTConfig) :
    (setLogSync env cfg).plugins = cfg.plugins ∧ (setLogSync env cfg).chBackends = cfg.chBackends ∧
      (setLogSync env cfg).rpcBackends = cfg.rpcBackends ∧
      enabled (setLogSync env cfg) = enabled cfg ∧
      (∀ e ∈ cfg.executorNames, e ∈ (setLogSync env cfg).executorNames) ∧
      Covers (fun v => v.executors = []) cfg.executors (setLogSync env cfg).executors := by
  rcases setLogSync_cases env cfg with ⟨hsame, -⟩ | ⟨-, before, options, after, -, -, hsync⟩
  · rw [hsame]
    exact ⟨rfl, rfl, rfl, rfl, fun e he => he, .refl _ _⟩
  · rw [hsync]
    refine ⟨rfl, rfl, rfl, rfl, fun e he => ?_, ?_⟩
    · rw [executorNames, map_assign]
      exact List.mem_append_left _ he
    · apply covers_assign
      rfl

theorem enabled_setRos2ChannelQos (h : setRos2ChannelQos env cfg = .ok cfg') :
    enabled cfg' = enabled cfg := by
  rcases setRos2ChannelQos_cases cfg h with rfl | ⟨qos, -, rfl⟩ <;> rfl

/-- **When the references of the injection resolve**: exactly when the backends that it takes for
granted are there, and the log executor of the backend that `SetLogSync` changes is declared. -/
theorem resolvable_iff (h : injectDefaultCfg env cfg = .ok cfg') :
    cfg.Resolvable cfg' ↔ Grounded env cfg := by
  obtain ⟨cfg₁, cfg₂, hdefault, hqos, rfl⟩ := stages_of_injectDefaultCfg h
  have hadds := adds_stages hdefault hqos
  have hrefs : Refs [] cfg cfg₂ := refs_stages hdefault hqos
  obtain ⟨hplugins, hch, hrpc, henabled, hnames, hexecutors⟩ := setLogSync_frame env cfg₂
  -- the topics and services that are new, with the backends they enable
  obtain ⟨logs, hlogs, hfirst⟩ := enabled_addDefaultBackends hdefault
  have hall := henabled.trans ((enabled_setRos2ChannelQos hqos).trans
    (enabled_addFrameworkCfg cfg₁))
  rw [hfirst] at hall
  have htopics := forall_addedTopics_iff
    ((congrArg Prod.fst hall).trans (List.append_assoc _ _ _).symm)
    (fun b => b ∈ (setLogSync env cfg₂).chBackends.map ChBackend.type)
  have hservices := forall_addedServices_iff (congrArg Prod.snd hall)
    (fun b => b ∈ (setLogSync env cfg₂).rpcBackends.map RpcBackend.type)
  rw [hch] at htopics
  rw [hrpc] at hservices
  constructor
  · intro hres
    have hbackends := htopics.mp (hch ▸ hres.topics)
    have hfunctions := hservices.mp (hrpc ▸ hres.services)
    constructor
    · -- the trace topic is always there
      rw [← ros2_mem_chBackends_iff hadds]
      exact hbackends [.ros2] (by simp) .ros2 (by simp)
    · intro hviz
      rw [← ros2_mem_rpcBackends_iff hadds]
      exact hfunctions [.ros2] (by simp [hviz]) .ros2 (by simp)
    · intro hlog
      rw [← http_mem_rpcBackends_iff hadds hlog]
      exact hfunctions [.http] (by simp [hlog]) .http (by simp)
    · exact (covers_setLogSync_iff hrefs h).mp hres.logBackends
  · rintro ⟨hchannel, hviz, hlog, hexecutor⟩
    rw [← ros2_mem_chBackends_iff hadds] at hchannel
    -- nothing is left open, and `SetLogSync` keeps the executors
    have hdeclared : ∀ names : List String,
        (∀ e ∈ names, e ∈ ([] : List String) ∨ e ∈ cfg₂.executorNames) →
          ∀ e ∈ names, e ∈ (setLogSync env cfg₂).executorNames :=
      fun names hall e he => hnames e ((hall e he).resolve_left (by simp))
    constructor
    · rw [hch]
      apply htopics.mpr
      intro bs hbs b hb
      exact (topics_declared hadds hlogs bs hbs b hb).elim (fun hros => hros ▸ hchannel) id
    · rw [hrpc]
      exact hservices.mpr (services_declared hadds hviz hlog)
    · rw [hplugins]
      exact hrefs.plugins.mono fun v => hdeclared v.executors
    · exact (covers_setLogSync_iff hrefs h).mpr hexecutor
    · rw [hrpc]
      exact hrefs.rpcBackends.mono fun v => hdeclared v.executors
    · exact (hrefs.executors.mono fun v => hdeclared v.executors).trans
        (hexecutors.mono fun v hv => by simp [hv])

theorem grounded_userSample : Grounded fullEnvironment userSample where
  channel := .inr (by decide)
  viz _ := .inr (by decide)
  logControl _ := .inr (by decide)
  logExecutor := nofun

theorem resolvable_iff_sample : ∃ cfg', injectDefaultCfg fullEnvironment userSample = .ok cfg' ∧
    userSample.Resolvable cfg' :=
  ⟨_, rfl, (resolvable_iff rfl).mpr grounded_userSample⟩

/-- The user keeps the ros2 plugin without its channel backend, and the trace topic enables it. -/
theorem ros2_channel_not_resolvable : ∃ cfg',
    injectDefaultCfg baseEnvironment { plugins := [.ros2] } = .ok cfg' ∧
      ¬({ plugins := [.ros2] } : AimRTConfig).Resolvable cfg' := by
  refine ⟨_, rfl, fun h => ?_⟩
  have htopics := h.topics
  revert htopics
  decide +kernel

end InjectDefault

end AimrtComm.Cfg
