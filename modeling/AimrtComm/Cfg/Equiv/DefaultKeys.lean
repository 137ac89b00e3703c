import AimrtComm.Cfg.InjectDefault
import AimrtComm.Lib.Extend
import Mathlib.Algebra.Order.Group.Multiset
import Mathlib.Data.Finset.Lattice.Lemmas
import Mathlib.Tactic.Abel

/-!
## The keys of the configuration object under `InjectDefaultCfg`

`keys` collects the names and types by which the elements of all lists are found.  Every step of
the injection extends them (`Extend`): `Additions` says by what, and `Adds` that a step does so.
What `WithDefaultRos`, `TryAddTopicLogger`, `TryAddDefaultTimeoutExecutor` and `AddDefaultNet` add
depends on the state before, so that calls of them are flags of `Additions`.
-/

namespace AimrtComm.Cfg

/-- The key of an element, and the list in which it stands. -/
inductive Key where
  | plugin (type : PluginType)
  | log (type : LogType)
  | ch (type : Ch)
  | rpc (type : Rpc)
  | executor (name : String)
  | pubTopic (name : String)
  | subTopic (name : String)
  | client (name : String)
  | server (name : String)
deriving DecidableEq

/-- The keys that are pushed without looking for them. -/
def Key.isPushed : Key → Bool
  | .plugin type => type ∈ [.monitor, .viz, .logControl]
  | .ch type => type = .monitor
  | .rpc type => type = .monitor
  | .log _ => false
  | _ => true

@[simp]
theorem Key.isPushed_executor (name : String) : (Key.executor name).isPushed = true := rfl

@[simp]
theorem Key.isPushed_pubTopic (name : String) : (Key.pubTopic name).isPushed = true := rfl

@[simp]
theorem Key.isPushed_server (name : String) : (Key.server name).isPushed = true := rfl

/-- The keys that are added where they are missing, whatever else there is. -/
def Key.isPlain : Key → Bool
  | .plugin type => type ∉ [.monitor, .viz, .logControl, .ros2, .topicLogger, .net]
  | .ch type => type ∉ [.monitor, .ros2]
  | .rpc type => type ∉ [.monitor, .ros2, .http]
  | .log _ => true
  | _ => false

@[simp]
theorem Key.isPlain_log (type : LogType) : (Key.log type).isPlain = true := rfl

namespace AimRTConfig

/-- All keys, with repetitions. -/
def keys (cfg : AimRTConfig) : Multiset Key :=
  ↑(cfg.plugins.map (Key.plugin ∘ PluginBackend.type))
    + ↑(cfg.logBackends.map (Key.log ∘ LogBackend.type))
    + ↑(cfg.chBackends.map (Key.ch ∘ ChBackend.type))
    + ↑(cfg.rpcBackends.map (Key.rpc ∘ RpcBackend.type))
    + ↑(cfg.executors.map (Key.executor ∘ ExeBackend.name))
    + ↑(cfg.pubTopicsOptions.map (Key.pubTopic ∘ PubOption.topicName))
    + ↑(cfg.subTopicsOptions.map (Key.subTopic ∘ PubOption.topicName))
    + ↑(cfg.clientsOptions.map (Key.client ∘ CliOption.funcName))
    + ↑(cfg.serversOptions.map (Key.server ∘ CliOption.funcName))

variable (cfg : AimRTConfig)

@[simp]
theorem plugin_mem_keys {type : PluginType} :
    Key.plugin type ∈ cfg.keys ↔ type ∈ cfg.plugins.map PluginBackend.type := by
  simp [keys]

@[simp]
theorem log_mem_keys {type : LogType} :
    Key.log type ∈ cfg.keys ↔ type ∈ cfg.logBackends.map LogBackend.type := by
  simp [keys]

@[simp]
theorem ch_mem_keys {type : Ch} :
    Key.ch type ∈ cfg.keys ↔ type ∈ cfg.chBackends.map ChBackend.type := by
  simp [keys]

@[simp]
theorem rpc_mem_keys {type : Rpc} :
    Key.rpc type ∈ cfg.keys ↔ type ∈ cfg.rpcBackends.map RpcBackend.type := by
  simp [keys]

@[simp]
theorem executor_mem_keys {name : String} :
    Key.executor name ∈ cfg.keys ↔ name ∈ cfg.executors.map ExeBackend.name := by
  simp [keys]

@[simp]
theorem pubTopic_mem_keys {name : String} :
    Key.pubTopic name ∈ cfg.keys ↔ name ∈ cfg.pubTopicsOptions.map PubOption.topicName := by
  simp [keys]

@[simp]
theorem server_mem_keys {name : String} :
    Key.server name ∈ cfg.keys ↔ name ∈ cfg.serversOptions.map CliOption.funcName := by
  simp [keys]

/-- Values may change under their keys. -/
theorem keys_congr {plugins : List PluginBackend} {logBackends : List LogBackend}
    {chBackends : List ChBackend}
    (hplugins : plugins.map PluginBackend.type = cfg.plugins.map PluginBackend.type)
    (hlog : logBackends.map LogBackend.type = cfg.logBackends.map LogBackend.type)
    (hch : chBackends.map ChBackend.type = cfg.chBackends.map ChBackend.type) :
    keys { cfg with plugins, logBackends, chBackends } = cfg.keys := by
  simp only [keys, ← List.map_map, hplugins, hlog, hch]

/-! ### Steps on one list -/

theorem keys_assign_plugin (v : PluginBackend) :
    keys { cfg with plugins := assign v cfg.plugins } = cfg.keys + {Key.plugin v.type} := by
  simp only [keys, assign, List.map_append, List.map_singleton, ← Multiset.coe_add,
    Multiset.coe_singleton, Function.comp_apply]
  abel

theorem keys_assign_log (v : LogBackend) :
    keys { cfg with logBackends := assign v cfg.logBackends } = cfg.keys + {Key.log v.type} := by
  simp only [keys, assign, List.map_append, List.map_singleton, ← Multiset.coe_add,
    Multiset.coe_singleton, Function.comp_apply]
  abel

theorem keys_assign_ch (v : ChBackend) :
    keys { cfg with chBackends := assign v cfg.chBackends } = cfg.keys + {Key.ch v.type} := by
  simp only [keys, assign, List.map_append, List.map_singleton, ← Multiset.coe_add,
    Multiset.coe_singleton, Function.comp_apply]
  abel

theorem keys_assign_rpc (v : RpcBackend) :
    keys { cfg with rpcBackends := assign v cfg.rpcBackends } = cfg.keys + {Key.rpc v.type} := by
  simp only [keys, assign, List.map_append, List.map_singleton, ← Multiset.coe_add,
    Multiset.coe_singleton, Function.comp_apply]
  abel

theorem keys_assign_executor (v : ExeBackend) :
    keys { cfg with executors := assign v cfg.executors } = cfg.keys + {Key.executor v.name} := by
  simp only [keys, assign, List.map_append, List.map_singleton, ← Multiset.coe_add,
    Multiset.coe_singleton, Function.comp_apply]
  abel

theorem keys_insertPub (option : PubOption) :
    keys (cfg.insertPub option) = cfg.keys + {Key.pubTopic option.topicName} := by
  simp only [keys, insertPub, List.map_cons, ← Multiset.cons_coe, ← Multiset.singleton_add,
    Function.comp_apply]
  abel

theorem keys_insertServer (option : CliOption) :
    keys (cfg.insertServer option) = cfg.keys + {Key.server option.funcName} := by
  simp only [keys, insertServer, List.map_cons, ← Multiset.cons_coe, ← Multiset.singleton_add,
    Function.comp_apply]
  abel

theorem keys_assignIfAbsent_plugin (v : PluginBackend) :
    keys { cfg with plugins := assignIfAbsent PluginBackend.type v cfg.plugins }
      = extend {.plugin v.type} 0 cfg.keys := by
  rw [extend_singleton, assignIfAbsent, ← keys_assign_plugin]
  simp only [plugin_mem_keys]
  split_ifs <;> rfl

theorem keys_assignIfAbsent_log (v : LogBackend) :
    keys { cfg with logBackends := assignIfAbsent LogBackend.type v cfg.logBackends }
      = extend {.log v.type} 0 cfg.keys := by
  rw [extend_singleton, assignIfAbsent, ← keys_assign_log]
  simp only [log_mem_keys]
  split_ifs <;> rfl

theorem keys_assignIfAbsent_ch (v : ChBackend) :
    keys { cfg with chBackends := assignIfAbsent ChBackend.type v cfg.chBackends }
      = extend {.ch v.type} 0 cfg.keys := by
  rw [extend_singleton, assignIfAbsent, ← keys_assign_ch]
  simp only [ch_mem_keys]
  split_ifs <;> rfl

theorem keys_assignIfAbsent_rpc (v : RpcBackend) :
    keys { cfg with rpcBackends := assignIfAbsent RpcBackend.type v cfg.rpcBackends }
      = extend {.rpc v.type} 0 cfg.keys := by
  rw [extend_singleton, assignIfAbsent, ← keys_assign_rpc]
  simp only [rpc_mem_keys]
  split_ifs <;> rfl

end AimRTConfig

namespace InjectDefault

open AimRTConfig

variable (env : Environment)

/-! ### Additions -/

/-- What the keys are extended by, and which functions with a condition are called. -/
structure Additions where
  ensured : Finset Key := ∅
  pushed : Multiset Key := 0
  /-- `WithDefaultRos` -/
  ros : Bool := false
  /-- `TryAddTopicLogger` -/
  logger : Bool := false
  /-- `TryAddDefaultTimeoutExecutor` -/
  timeout : Bool := false
  /-- `AddDefaultNet` -/
  net : Bool := false
  plain : ∀ k ∈ ensured, k.isPlain := by simp [Key.isPlain]
  hard : ∀ k ∈ pushed, k.isPushed := by simp [Key.isPushed]

/-- One after the other. -/
def Additions.comp (a b : Additions) : Additions where
  ensured := a.ensured ∪ b.ensured
  pushed := a.pushed + b.pushed
  ros := a.ros || b.ros
  logger := a.logger || b.logger
  timeout := a.timeout || b.timeout
  net := a.net || b.net
  plain k hk := (Finset.mem_union.mp hk).elim (a.plain k) (b.plain k)
  hard k hk := (Multiset.mem_add.mp hk).elim (a.hard k) (b.hard k)

/-- The keys of `WithDefaultRos`. -/
def rosKeys : Finset Key := {.plugin .ros2, .ch .ros2, .rpc .ros2}

/-- The keys of `TryAddTopicLogger`. -/
def loggerKeys : Finset Key := {.plugin .topicLogger, .log .topicLogger}

/-- The executors of `TryAddDefaultTimeoutExecutor`. -/
def timeoutKeys : Multiset Key :=
  {.executor defaultTimeoutExecutor, .executor defaultTimeoutTimeWheel}

/-- The keys of `AddDefaultNet`. -/
def netKeys (cfg : AimRTConfig) : Finset Key :=
  (if needHttpBackend env cfg then {.plugin .net, .ch .http, .rpc .http} else ∅)
    ∪ (if needTcpBackend env cfg then {.plugin .net, .ch .tcp} else ∅)
    ∪ (if needUdpBackend env cfg then {.plugin .net, .ch .udp} else ∅)

def hasRos (cfg : AimRTConfig) : Bool := decide (.plugin .ros2 ∈ cfg.keys)

def hasTopicLogger (cfg : AimRTConfig) : Bool := decide (.plugin .topicLogger ∈ cfg.keys)

def hasTimeWheel (cfg : AimRTConfig) : Bool := cfg.executors.any isDefaultTimeWheel

/-- The needs decide, case by case, what is among the keys of `AddDefaultNet`. -/
theorem forall_mem_netKeys {P : Key → Prop} (cfg : AimRTConfig) (hnet : P (.plugin .net))
    (hch : P (.ch .http)) (hrpc : P (.rpc .http)) (htcp : P (.ch .tcp)) (hudp : P (.ch .udp)) :
    ∀ k ∈ netKeys env cfg, P k := by
  intro k hk
  rw [netKeys, Finset.mem_union, Finset.mem_union] at hk
  rcases hk with (hk | hk) | hk <;> split_ifs at hk <;> simp at hk
  · rcases hk with rfl | rfl | rfl <;> assumption
  · rcases hk with rfl | rfl <;> assumption
  · rcases hk with rfl | rfl <;> assumption

namespace Additions

variable (a : Additions) (cfg : AimRTConfig)

/-- `TryAddTopicLogger` is called and finds no plugin. -/
def addsLogger : Bool := a.logger && !hasTopicLogger cfg

/-- `WithDefaultRos` is called and finds no plugin. -/
def addsRos : Bool := (a.ros || a.addsLogger cfg) && !hasRos cfg

/-- `TryAddDefaultTimeoutExecutor` is called. -/
def asksTimeout : Bool := a.timeout || a.addsLogger cfg || a.addsRos cfg

/-- `TryAddDefaultTimeoutExecutor` is called and finds no time wheel. -/
def addsTimeout : Bool := a.asksTimeout cfg && !hasTimeWheel cfg

/-- The keys that are added where they are missing. -/
def ensuredOn : Finset Key :=
  a.ensured ∪ (if a.addsLogger cfg then loggerKeys else ∅)
    ∪ (if a.addsRos cfg then rosKeys else ∅) ∪ (if a.net then netKeys env cfg else ∅)

/-- The keys that are pushed. -/
def pushedOn : Multiset Key :=
  a.pushed + (if a.addsLogger cfg then {.pubTopic logTopic} else 0)
    + (if a.addsTimeout cfg then timeoutKeys else 0)

theorem not_isPushed_of_mem_ensuredOn {k : Key} (h : k ∈ a.ensuredOn env cfg) :
    k.isPushed = false := by
  rw [ensuredOn, Finset.mem_union, Finset.mem_union, Finset.mem_union] at h
  rcases h with ((h | h) | h) | h
  · have hplain := a.plain k h
    cases k <;> simp_all [Key.isPlain, Key.isPushed]
  · split_ifs at h
    · exact (by decide : ∀ k ∈ loggerKeys, k.isPushed = false) k h
    · simp at h
  · split_ifs at h
    · exact (by decide : ∀ k ∈ rosKeys, k.isPushed = false) k h
    · simp at h
  · split_ifs at h
    · exact forall_mem_netKeys env (P := fun k => k.isPushed = false) cfg rfl rfl rfl rfl rfl k h
    · simp at h

theorem isPushed_of_mem_pushedOn {k : Key} (h : k ∈ a.pushedOn cfg) : k.isPushed = true := by
  simp only [pushedOn, Multiset.mem_add] at h
  rcases h with (h | h) | h
  · exact a.hard k h
  · split_ifs at h
    · rw [Multiset.mem_singleton] at h
      subst h
      rfl
    · simp at h
  · split_ifs at h
    · simp [timeoutKeys] at h
      rcases h with rfl | rfl <;> rfl
    · simp at h

end Additions

/-- The step adds exactly the additions. -/
structure Adds (a : Additions) (cfg cfg' : AimRTConfig) : Prop where
  keys : cfg'.keys = extend (a.ensuredOn env cfg) (a.pushedOn cfg) cfg.keys
  timeWheel : hasTimeWheel cfg' = (a.asksTimeout cfg || hasTimeWheel cfg)
  net : netKeys env cfg' = netKeys env cfg

/-! ### Composition -/

section Special

variable (a : Additions) (cfg : AimRTConfig)

/-- A key that is not plain comes from one of the functions with a condition. -/
theorem Additions.mem_ensuredOn_iff {k : Key} (hk : k.isPlain = false) :
    k ∈ a.ensuredOn env cfg ↔
      a.addsLogger cfg ∧ k ∈ loggerKeys ∨ a.addsRos cfg ∧ k ∈ rosKeys ∨
        a.net ∧ k ∈ netKeys env cfg := by
  have hplain : k ∉ a.ensured := by
    intro hmem
    rw [a.plain k hmem] at hk
    cases hk
  rw [ensuredOn, Finset.mem_union, Finset.mem_union, Finset.mem_union]
  split_ifs with h₁ h₂ h₃ <;> simp [*, or_assoc]

end Special

variable {env}

section Flags

variable {a : Additions} {cfg cfg' : AimRTConfig} (h : Adds env a cfg cfg')

include h

/-- A key that is not pushed is there afterwards when it was there or is ensured. -/
theorem Adds.mem_keys_iff {k : Key} (hk : k.isPushed = false) :
    k ∈ cfg'.keys ↔ k ∈ cfg.keys ∨ k ∈ a.ensuredOn env cfg := by
  rw [h.keys, mem_extend]
  have hpushed : k ∉ a.pushedOn cfg := by
    intro hmem
    rw [a.isPushed_of_mem_pushedOn cfg hmem] at hk
    cases hk
  simp [hpushed]

theorem Adds.hasRos : hasRos cfg' = (a.ros || a.addsLogger cfg || hasRos cfg) := by
  have hmem : Key.plugin .ros2 ∈ a.ensuredOn env cfg ↔ a.addsRos cfg = true := by
    rw [a.mem_ensuredOn_iff env cfg rfl]
    have hnet : Key.plugin .ros2 ∉ netKeys env cfg := fun hmem =>
      forall_mem_netKeys env (P := fun k => k ≠ .plugin .ros2) cfg (by simp) (by simp) (by simp)
        (by simp) (by simp) _ hmem rfl
    simp [loggerKeys, rosKeys, hnet]
  rw [InjectDefault.hasRos, InjectDefault.hasRos, Bool.eq_iff_iff, decide_eq_true_eq,
    h.mem_keys_iff rfl, hmem, Additions.addsRos, InjectDefault.hasRos]
  by_cases hros : Key.plugin .ros2 ∈ cfg.keys <;> simp [hros]

theorem Adds.hasTopicLogger : hasTopicLogger cfg' = (a.logger || hasTopicLogger cfg) := by
  have hmem : Key.plugin .topicLogger ∈ a.ensuredOn env cfg ↔ a.addsLogger cfg = true := by
    rw [a.mem_ensuredOn_iff env cfg rfl]
    have hnet : Key.plugin .topicLogger ∉ netKeys env cfg := fun hmem =>
      forall_mem_netKeys env (P := fun k => k ≠ .plugin .topicLogger) cfg (by simp) (by simp)
        (by simp) (by simp) (by simp) _ hmem rfl
    simp [loggerKeys, rosKeys, hnet]
  rw [InjectDefault.hasTopicLogger, InjectDefault.hasTopicLogger, Bool.eq_iff_iff,
    decide_eq_true_eq, h.mem_keys_iff rfl, hmem, Additions.addsLogger,
    InjectDefault.hasTopicLogger]
  by_cases hlogger : Key.plugin .topicLogger ∈ cfg.keys <;> simp [hlogger]

end Flags

/-- No additions. -/
theorem Adds.refl (cfg : AimRTConfig) : Adds env {} cfg cfg where
  keys := by simp [Additions.ensuredOn, Additions.pushedOn, Additions.addsLogger,
    Additions.addsRos, Additions.addsTimeout, Additions.asksTimeout]
  timeWheel := by simp [Additions.asksTimeout, Additions.addsLogger, Additions.addsRos]
  net := rfl

theorem ite_or_union {κ : Type*} [DecidableEq κ] (b c : Bool) (s : Finset κ) :
    (if b || c then s else ∅) = (if b then s else ∅) ∪ (if c then s else ∅) := by
  cases b <;> cases c <;> simp

theorem ite_or_add {κ : Type*} (b c : Bool) (h : (b && c) = false) (s : Multiset κ) :
    (if b || c then s else 0) = (if b then s else 0) + (if c then s else 0) := by
  cases b <;> cases c <;> simp_all

section Trans

variable {a b : Additions} {cfg cfg' cfg'' : AimRTConfig}

/-- Each conditional function adds in the first of the two steps that calls it. -/
theorem Adds.addsLogger_comp (h : Adds env a cfg cfg') :
    (a.comp b).addsLogger cfg = (a.addsLogger cfg || b.addsLogger cfg') ∧
      (a.addsLogger cfg && b.addsLogger cfg') = false := by
  simp only [Additions.addsLogger, Additions.comp, h.hasTopicLogger]
  cases a.logger <;> cases b.logger <;> cases InjectDefault.hasTopicLogger cfg <;> simp

theorem Adds.addsRos_comp (h : Adds env a cfg cfg') :
    (a.comp b).addsRos cfg = (a.addsRos cfg || b.addsRos cfg') := by
  simp only [Additions.addsRos, h.addsLogger_comp.1, h.hasRos]
  simp only [Additions.comp]
  cases a.ros <;> cases b.ros <;> cases a.addsLogger cfg <;> cases b.addsLogger cfg' <;>
    cases InjectDefault.hasRos cfg <;> rfl

theorem Adds.asksTimeout_comp (h : Adds env a cfg cfg') :
    (a.comp b).asksTimeout cfg = (a.asksTimeout cfg || b.asksTimeout cfg') := by
  simp only [Additions.asksTimeout, h.addsLogger_comp.1, h.addsRos_comp]
  simp only [Additions.comp]
  cases a.timeout <;> cases b.timeout <;> cases a.addsLogger cfg <;> cases b.addsLogger cfg' <;>
    cases a.addsRos cfg <;> cases b.addsRos cfg' <;> rfl

theorem Adds.addsTimeout_comp (h : Adds env a cfg cfg') :
    (a.comp b).addsTimeout cfg = (a.addsTimeout cfg || b.addsTimeout cfg') ∧
      (a.addsTimeout cfg && b.addsTimeout cfg') = false := by
  simp only [Additions.addsTimeout, h.asksTimeout_comp, h.timeWheel]
  cases a.asksTimeout cfg <;> cases b.asksTimeout cfg' <;>
    cases InjectDefault.hasTimeWheel cfg <;> simp

theorem Adds.ensuredOn_comp (h : Adds env a cfg cfg') :
    (a.comp b).ensuredOn env cfg = a.ensuredOn env cfg ∪ b.ensuredOn env cfg' := by
  rw [Additions.ensuredOn, h.addsLogger_comp.1, h.addsRos_comp, ite_or_union, ite_or_union]
  show a.ensured ∪ b.ensured ∪ _ ∪ _ ∪ (if a.net || b.net then _ else ∅) = _
  rw [ite_or_union, Additions.ensuredOn, Additions.ensuredOn, h.net]
  ac_rfl

theorem Adds.pushedOn_comp (h : Adds env a cfg cfg') :
    (a.comp b).pushedOn cfg = a.pushedOn cfg + b.pushedOn cfg' := by
  rw [Additions.pushedOn, h.addsLogger_comp.1, h.addsTimeout_comp.1,
    ite_or_add _ _ h.addsLogger_comp.2, ite_or_add _ _ h.addsTimeout_comp.2]
  show a.pushed + b.pushed + _ + _ = _
  rw [Additions.pushedOn, Additions.pushedOn]
  ac_rfl

/-- **Steps compose**: what each of them adds is added up. -/
theorem Adds.trans (h : Adds env a cfg cfg') (h' : Adds env b cfg' cfg'') :
    Adds env (a.comp b) cfg cfg'' where
  keys := by
    rw [h'.keys, h.keys, extend_extend, h.ensuredOn_comp, h.pushedOn_comp]
    intro k hk hpushed
    have hk' := b.not_isPushed_of_mem_ensuredOn env cfg' hk
    rw [a.isPushed_of_mem_pushedOn cfg hpushed] at hk'
    cases hk'
  timeWheel := by
    rw [h'.timeWheel, h.timeWheel, h.asksTimeout_comp, ← Bool.or_assoc,
      Bool.or_comm (b.asksTimeout cfg')]
  net := h'.net.trans h.net

end Trans

end InjectDefault

end AimrtComm.Cfg
