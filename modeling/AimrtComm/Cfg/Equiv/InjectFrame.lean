import AimrtComm.Cfg.Deployment
import AimrtComm.Cfg.Equiv.InjectRefs
import AimrtComm.Lib.Keeps

/-!
## What the injection leaves alone

All steps of the injection append to the lists of plugins, backends and executors, apart from the
four that edit the first element of an alternative: the net plugin gets the options of the
deployment, the udp backend the exception topic, the ros2 backend the quality of service, and the
rotate_file backend the settings for its executor.  `Frame` follows the first two through the steps;
the edits of a longer list begin with the edits of the shorter one (`prefix_edit`).

So the user's elements stay as they are up to these edits, and what can go wrong is that a net
option of the deployment takes the place of one of the user: `keepsUser_iff`.
-/

namespace AimrtComm.Cfg.InjectDefault

open AimRTConfig

variable {env : Environment} {cfg cfg' cfg'' : AimRTConfig}

/-! ### Edits of one element -/

section Edits

variable {α : Type*} {func : α → Option α} {xs ys : List α}

/-- What `Visit` leaves of a list. -/
abbrev edit (func : α → Option α) (xs : List α) : List α := (visit func xs).getD xs

theorem edit_cons_of_some {x y : α} (h : func x = some y) (xs : List α) :
    edit func (x :: xs) = y :: xs := by
  rw [edit, visit, h]
  rfl

theorem edit_cons_of_none {x : α} (h : func x = none) (xs : List α) :
    edit func (x :: xs) = x :: edit func xs := by
  rw [edit, visit, h]
  cases hvisit : visit func xs <;> simp [edit, hvisit]

/-- An edit of a longer list begins with the edit of the shorter one. -/
theorem prefix_edit (h : xs <+: ys) : edit func xs <+: edit func ys := by
  induction xs generalizing ys with
  | nil => exact List.nil_prefix
  | cons x xs ih =>
    obtain ⟨added, rfl⟩ := h
    have h : xs <+: xs ++ added := List.prefix_append xs added
    rw [List.cons_append]
    cases hx : func x with
    | some y =>
      rw [edit_cons_of_some hx, edit_cons_of_some hx]
      exact (List.prefix_cons_inj y).mpr h
    | none =>
      rw [edit_cons_of_none hx, edit_cons_of_none hx]
      exact (List.prefix_cons_inj x).mpr (ih h)

/-- A second edit finds the same element, and changes nothing if the element is done with. -/
theorem edit_edit (h : ∀ x y, func x = some y → func y = some y) (xs : List α) :
    edit func (edit func xs) = edit func xs := by
  induction xs with
  | nil => rfl
  | cons x xs ih =>
    cases hx : func x with
    | some y => rw [edit_cons_of_some hx, edit_cons_of_some (h x y hx)]
    | none => rw [edit_cons_of_none hx, edit_cons_of_none hx, ih]

/-- An edit keeps all elements but one. -/
theorem keeps_edit (func : α → Option α) (xs : List α) :
    Keeps (fun x y => x = y ∨ func x = some y) xs (edit func xs) := by
  cases hvisit : visit func xs with
  | none =>
    rw [edit, hvisit]
    exact .refl (fun _ => .inl rfl) xs
  | some ys =>
    obtain ⟨before, x, after, y, rfl, rfl, hfunc, -⟩ := exists_of_visit_eq_some hvisit
    rw [edit, hvisit]
    exact .replace before after (.inr hfunc) fun _ => .inl rfl

end Edits

/-! ### Steps that append -/

/-- A step that appends to the lists. -/
structure Appends (cfg cfg' : AimRTConfig) : Prop where
  plugins : cfg.plugins <+: cfg'.plugins
  logBackends : cfg.logBackends <+: cfg'.logBackends
  chBackends : cfg.chBackends <+: cfg'.chBackends
  rpcBackends : cfg.rpcBackends <+: cfg'.rpcBackends
  executors : cfg.executors <+: cfg'.executors

/-- Options of topics and functions are in other lists. -/
theorem Appends.of_eq (hplugins : cfg'.plugins = cfg.plugins)
    (hlog : cfg'.logBackends = cfg.logBackends) (hch : cfg'.chBackends = cfg.chBackends)
    (hrpc : cfg'.rpcBackends = cfg.rpcBackends) (hexe : cfg'.executors = cfg.executors) :
    Appends cfg cfg' where
  plugins := by rw [hplugins]
  logBackends := by rw [hlog]
  chBackends := by rw [hch]
  rpcBackends := by rw [hrpc]
  executors := by rw [hexe]

theorem Appends.refl (cfg : AimRTConfig) : Appends cfg cfg :=
  .of_eq rfl rfl rfl rfl rfl

theorem Appends.trans (h : Appends cfg cfg') (h' : Appends cfg' cfg'') : Appends cfg cfg'' where
  plugins := h.plugins.trans h'.plugins
  logBackends := h.logBackends.trans h'.logBackends
  chBackends := h.chBackends.trans h'.chBackends
  rpcBackends := h.rpcBackends.trans h'.rpcBackends
  executors := h.executors.trans h'.executors

theorem appends_tryAddDefaultTimeoutExecutor (cfg : AimRTConfig) :
    Appends cfg cfg.tryAddDefaultTimeoutExecutor := by
  rw [tryAddDefaultTimeoutExecutor]
  split_ifs
  · exact .refl cfg
  · exact { Appends.refl cfg with
      executors := (List.prefix_append _ _).trans (List.prefix_append _ _) }

theorem appends_withDefaultLocal (cfg : AimRTConfig) : Appends cfg cfg.withDefaultLocal :=
  { Appends.refl cfg with
    chBackends := prefix_assignIfAbsent _ _
    rpcBackends := prefix_assignIfAbsent _ _ }

theorem appends_withDefaultRos (cfg : AimRTConfig) : Appends cfg cfg.withDefaultRos := by
  rw [withDefaultRos]
  split_ifs
  · exact .refl cfg
  · refine Appends.trans ?_ (appends_tryAddDefaultTimeoutExecutor _)
    exact ⟨prefix_assignIfAbsent _ _, List.prefix_refl _, prefix_assignIfAbsent _ _,
      prefix_assignIfAbsent _ _, List.prefix_refl _⟩

theorem appends_withDefaultMqtt (cfg : AimRTConfig) (brokerIp : String) :
    Appends cfg (cfg.withDefaultMqtt brokerIp) := by
  refine Appends.trans ?_ (appends_tryAddDefaultTimeoutExecutor _)
  exact ⟨prefix_assignIfAbsent _ _, List.prefix_refl _, prefix_assignIfAbsent _ _,
    prefix_assignIfAbsent _ _, List.prefix_refl _⟩

theorem appends_withDefaultZenoh (cfg : AimRTConfig) : Appends cfg cfg.withDefaultZenoh := by
  refine Appends.trans ?_ (appends_tryAddDefaultTimeoutExecutor _)
  exact ⟨prefix_assignIfAbsent _ _, List.prefix_refl _, prefix_assignIfAbsent _ _,
    prefix_assignIfAbsent _ _, List.prefix_refl _⟩

theorem appends_withDefaultIceoryx (cfg : AimRTConfig) : Appends cfg cfg.withDefaultIceoryx :=
  { Appends.refl cfg with
    plugins := prefix_assignIfAbsent _ _
    chBackends := prefix_assignIfAbsent _ _ }

theorem appends_insertPub (option : PubOption) (cfg : AimRTConfig) :
    Appends cfg (cfg.insertPub option) :=
  .of_eq rfl rfl rfl rfl rfl

theorem appends_tryAddTopicLogger (cfg : AimRTConfig) : Appends cfg cfg.tryAddTopicLogger := by
  rw [tryAddTopicLogger]
  split_ifs
  · exact .refl cfg
  · refine Appends.trans ?_ (appends_insertPub _ _)
    refine Appends.trans ?_ (appends_withDefaultRos _)
    refine Appends.trans ?_ (appends_tryAddDefaultTimeoutExecutor _)
    exact ⟨prefix_assignIfAbsent _ _, prefix_assignIfAbsent _ _, List.prefix_refl _,
      List.prefix_refl _, List.prefix_refl _⟩

theorem appends_addDefaultBackends (h : addDefaultBackends env cfg = .ok cfg') :
    Appends cfg cfg' :=
  addDefaultBackends_induction Appends.refl (fun _ _ _ => Appends.trans) appends_withDefaultRos
    appends_withDefaultMqtt appends_withDefaultZenoh appends_withDefaultIceoryx
    (fun c _ _ => { Appends.refl c with logBackends := prefix_assignIfAbsent _ _ })
    appends_tryAddTopicLogger h

theorem appends_addTraceEventCfg (cfg : AimRTConfig) : Appends cfg (addTraceEventCfg cfg) :=
  (appends_withDefaultRos cfg).trans (appends_insertPub _ _)

theorem appends_addHeartbeat (cfg : AimRTConfig) : Appends cfg (addHeartbeat env cfg) := by
  rw [addHeartbeat]
  split_ifs
  · exact (appends_withDefaultRos cfg).trans (appends_insertPub _ _)
  · exact (appends_withDefaultZenoh cfg).trans (appends_insertPub _ _)
  · exact (appends_withDefaultMqtt cfg _).trans (appends_insertPub _ _)
  · exact appends_insertPub _ cfg

theorem appends_addMonitorCfg (cfg : AimRTConfig) : Appends cfg (addMonitorCfg env cfg) := by
  rw [addMonitorCfg]
  split_ifs
  · exact .refl cfg
  · have hbackends : Appends cfg (addMonitorBackends cfg) :=
      ⟨List.prefix_append _ _, List.prefix_refl _, List.prefix_append _ _, List.prefix_append _ _,
        List.prefix_append _ _⟩
    -- filters are in the options of topics
    exact (hbackends.trans (appends_addHeartbeat _)).trans (.of_eq rfl rfl rfl rfl rfl)

theorem appends_addVizCfg (cfg : AimRTConfig) : Appends cfg (addVizCfg env cfg) := by
  rw [addVizCfg]
  split_ifs
  · exact .refl cfg
  · have hplugin : Appends cfg (addVizPlugin env cfg) :=
      ⟨List.prefix_append _ _, List.prefix_refl _, List.prefix_refl _, List.prefix_refl _,
        List.prefix_append _ _⟩
    exact (hplugin.trans (appends_withDefaultRos _)).trans (.of_eq rfl rfl rfl rfl rfl)

/-! ### Steps that also edit -/

/-- The entry of the exception topic in a udp backend. -/
def hdsUdpOption (env : Environment) : UdpPubOption where
  topicName := hdsTopic
  serverUrlList := [env.hdsMonitorIp ++ ":51587", env.dataProxyIp ++ ":54583",
    env.recordBagIp ++ ":52593"]

/-- A step that appends to the lists, after it has given the net plugin the options of the
deployment (`net`) and the udp backend the exception topic (`hds`). -/
structure Frame (env : Environment) (net hds : Bool) (cfg cfg' : AimRTConfig) : Prop where
  plugins : (if net then edit (configureNetOptions env) cfg.plugins else cfg.plugins) <+:
    cfg'.plugins
  logBackends : cfg.logBackends <+: cfg'.logBackends
  chBackends : (if hds then edit (addUdpPubOption (hdsUdpOption env)) cfg.chBackends
    else cfg.chBackends) <+: cfg'.chBackends
  rpcBackends : cfg.rpcBackends <+: cfg'.rpcBackends
  executors : cfg.executors <+: cfg'.executors

theorem Appends.frame (h : Appends cfg cfg') : Frame env false false cfg cfg' :=
  ⟨h.plugins, h.logBackends, h.chBackends, h.rpcBackends, h.executors⟩

theorem configureNetOptions_twice (v v' : PluginBackend) (h : configureNetOptions env v = some v') :
    configureNetOptions env v' = some v' := by
  cases v with
  | net options =>
    cases h
    simp only [configureNetOptions, ← Option.or_assoc, Option.or_self]
  | _ => cases h

variable {net net' hds : Bool}

/-- Steps compose; the net plugin may be configured twice. -/
theorem Frame.trans (h : Frame env net hds cfg cfg') (h' : Frame env net' false cfg' cfg'') :
    Frame env (net || net') hds cfg cfg'' where
  plugins := by
    have hfirst := h.plugins
    have hsecond := h'.plugins
    cases net <;> cases net'
    · exact hfirst.trans hsecond
    · exact (prefix_edit hfirst).trans hsecond
    · exact hfirst.trans hsecond
    · have hedit := (prefix_edit hfirst).trans hsecond
      rw [if_pos rfl, edit_edit configureNetOptions_twice] at hedit
      exact hedit
  logBackends := h.logBackends.trans h'.logBackends
  chBackends := h.chBackends.trans h'.chBackends
  rpcBackends := h.rpcBackends.trans h'.rpcBackends
  executors := h.executors.trans h'.executors

/-- A step before, which appends. -/
theorem Appends.trans_frame (h : Appends cfg cfg') (h' : Frame env net hds cfg' cfg'') :
    Frame env net hds cfg cfg'' where
  plugins := by
    have hsecond := h'.plugins
    cases net
    · exact h.plugins.trans hsecond
    · exact (prefix_edit h.plugins).trans hsecond
  logBackends := h.logBackends.trans h'.logBackends
  chBackends := by
    have hsecond := h'.chBackends
    cases hds
    · exact h.chBackends.trans hsecond
    · exact (prefix_edit h.chBackends).trans hsecond
  rpcBackends := h.rpcBackends.trans h'.rpcBackends
  executors := h.executors.trans h'.executors

/-- A step behind, which appends. -/
theorem Frame.trans_appends (h : Frame env net hds cfg cfg') (h' : Appends cfg' cfg'') :
    Frame env net hds cfg cfg'' := by
  have htrans := h.trans h'.frame
  rwa [Bool.or_false] at htrans

theorem frame_addDefaultNet (cfg : AimRTConfig) :
    Frame env true false cfg (addDefaultNet env cfg) where
  plugins := by
    have hplugin : cfg.plugins <+: (addNetPlugin env cfg).plugins := by
      rw [addNetPlugin]
      split_ifs
      · exact List.prefix_append _ _
      · exact List.prefix_refl _
    exact prefix_edit hplugin
  logBackends := by
    show cfg.logBackends <+: (addNetPlugin env cfg).logBackends
    rw [addNetPlugin]
    split_ifs <;> exact List.prefix_refl _
  chBackends := by
    have happend : ∀ (b : Bool) (v : ChBackend) (xs : List ChBackend),
        xs <+: if b then assignIfAbsent ChBackend.type v xs else xs := by
      intro b v xs
      cases b
      · exact List.prefix_refl xs
      · exact prefix_assignIfAbsent v xs
    exact ((happend _ _ _).trans (happend _ _ _)).trans (happend _ _ _)
  rpcBackends := by
    show cfg.rpcBackends <+: if needHttpBackend env cfg then _ else cfg.rpcBackends
    split_ifs
    · exact prefix_assignIfAbsent _ _
    · exact List.prefix_refl _
  executors := by
    show cfg.executors <+: (addNetPlugin env cfg).executors
    rw [addNetPlugin]
    split_ifs <;> exact List.prefix_refl _

theorem frame_addHDSCfg (cfg : AimRTConfig) :
    Frame env (env.featureHDSNewBackend = "udp") (env.featureHDSNewBackend = "udp") cfg
      (addHDSCfg env cfg) := by
  rw [addHDSCfg]
  split_ifs with hros hzenoh hudp
  · rw [hros]
    exact ((appends_withDefaultRos cfg).trans (appends_insertPub _ _)).frame
  · rw [hzenoh]
    exact ((appends_withDefaultZenoh cfg).trans (appends_insertPub _ _)).frame
  · have hnet := @frame_addDefaultNet env cfg
    rw [decide_eq_true hudp]
    exact ⟨hnet.plugins, hnet.logBackends, prefix_edit hnet.chBackends, hnet.rpcBackends,
      hnet.executors⟩
  · rw [decide_eq_false hudp]
    exact (appends_insertPub _ cfg).frame

theorem frame_addLogControlCfg (cfg : AimRTConfig) :
    Frame env env.enableLogControl false cfg (addLogControlCfg env cfg) := by
  rw [addLogControlCfg]
  cases env.enableLogControl
  · exact (Appends.refl cfg).frame
  · refine Appends.trans_frame ?_ (frame_addDefaultNet _)
    exact { Appends.refl cfg with plugins := List.prefix_append _ _ }

/-- The network options of the deployment are put into the configuration. -/
def addsNet (env : Environment) : Bool := env.featureHDSNewBackend = "udp" || env.enableLogControl

theorem frame_addFrameworkCfg (cfg : AimRTConfig) :
    Frame env (addsNet env) (env.featureHDSNewBackend = "udp") cfg (addFrameworkCfg env cfg) :=
  ((((frame_addHDSCfg cfg).trans (frame_addLogControlCfg _)).trans_appends
    (appends_addTraceEventCfg _)).trans_appends (appends_addMonitorCfg _)).trans_appends
      (appends_addVizCfg _) |>.trans_appends (appends_withDefaultLocal _)

/-! ### What the user configured -/

/-- An option that the user set is unchanged; one that is not set may have been filled in from the
deployment. -/
def OptionKept {α : Type} (deployed user after : Option α) : Prop :=
  after = user ∨ user = none ∧ after = deployed

/-- The options of a net plugin are kept. -/
structure NetKept (env : Environment) (user after : NetOptions) : Prop where
  threadNum : after.threadNum = user.threadNum
  http : OptionKept env.networkOptions.httpOptions user.httpOptions after.httpOptions
  tcp : OptionKept env.networkOptions.tcpOptions user.tcpOptions after.tcpOptions
  udp : OptionKept env.networkOptions.udpOptions user.udpOptions after.udpOptions

/-- A plugin is unchanged, or it is a net plugin whose options are kept. -/
def PluginKept (env : Environment) (user after : PluginBackend) : Prop :=
  user = after ∨
    ∃ options options', user = .net options ∧ after = .net options' ∧ NetKept env options options'

/-- A log backend is unchanged, or it has been switched to syncing. -/
def LogKept (env : Environment) (user after : LogBackend) : Prop :=
  user = after ∨ 0 < env.featureLogSyncInterval ∧ syncRotateFile env user = some after

/-- A channel backend is unchanged, or it has got the entry of the exception topic, or the quality
of service of the feature switch. -/
def ChKept (env : Environment) (user after : ChBackend) : Prop :=
  user = after ∨
    env.featureHDSNewBackend = "udp" ∧ addUdpPubOption (hdsUdpOption env) user = some after ∨
    env.featureRos2ChannelQos ≠ "" ∧ ∃ qos, env.readQos env.featureRos2ChannelQos = some qos ∧
      appendQos qos user = some after

/-- Every plugin and backend of the user is still there, and kept. -/
structure KeepsUser (env : Environment) (cfg cfg' : AimRTConfig) : Prop where
  plugins : Keeps (PluginKept env) cfg.plugins cfg'.plugins
  logBackends : Keeps (LogKept env) cfg.logBackends cfg'.logBackends
  chBackends : Keeps (ChKept env) cfg.chBackends cfg'.chBackends
  rpcBackends : Keeps Eq cfg.rpcBackends cfg'.rpcBackends
  executors : Keeps Eq cfg.executors cfg'.executors

/-- Only one of the two sets the option, or both set the same. -/
def NoConflict {α : Type} (deployed user : Option α) : Prop :=
  deployed = none ∨ user = none ∨ deployed = user

theorem optionKept_or_iff {α : Type} (deployed user : Option α) :
    OptionKept deployed user (deployed.or user) ↔ NoConflict deployed user := by
  unfold OptionKept NoConflict
  cases deployed <;> cases user <;> simp

/-- The deployment has no other net options than the user. -/
structure NetAgrees (deployed user : NetOptions) : Prop where
  http : NoConflict deployed.httpOptions user.httpOptions
  tcp : NoConflict deployed.tcpOptions user.tcpOptions
  udp : NoConflict deployed.udpOptions user.udpOptions

theorem netKept_configured_iff (options : NetOptions) :
    NetKept env options (configured env options) ↔ NetAgrees env.networkOptions options := by
  constructor
  · rintro ⟨-, hhttp, htcp, hudp⟩
    exact ⟨(optionKept_or_iff _ _).mp hhttp, (optionKept_or_iff _ _).mp htcp,
      (optionKept_or_iff _ _).mp hudp⟩
  · rintro ⟨hhttp, htcp, hudp⟩
    exact ⟨rfl, (optionKept_or_iff _ _).mpr hhttp, (optionKept_or_iff _ _).mpr htcp,
      (optionKept_or_iff _ _).mpr hudp⟩

theorem NetKept.refl (options : NetOptions) : NetKept env options options :=
  ⟨rfl, .inl rfl, .inl rfl, .inl rfl⟩

/-- An edited list of plugins is kept when the net plugin that `Visit` finds is. -/
theorem keeps_configured_iff {plugins after : List PluginBackend}
    (h : edit (configureNetOptions env) plugins <+: after) :
    Keeps (PluginKept env) plugins after ↔
      ∀ options, plugins.findSome? netOptions? = some options →
        NetAgrees env.networkOptions options := by
  have hrefl : ∀ v, PluginKept env v v := fun v => .inl rfl
  have hnone : ∀ v, configureNetOptions env v = none → netOptions? v = none := by
    intro v hv
    cases v <;> first | rfl | cases hv
  have hedit : Keeps Eq (edit (configureNetOptions env) plugins) after := .of_isPrefix h
  cases hvisit : visit (configureNetOptions env) plugins with
  | none =>
    -- there is no net plugin
    rw [edit, hvisit] at hedit
    refine iff_of_true (hedit.mono fun v v' hv => .inl hv) fun options hfirst => ?_
    obtain ⟨v, hv, hoptions⟩ := List.exists_of_findSome?_eq_some hfirst
    rw [hnone v (visit_eq_none_iff.mp hvisit v hv)] at hoptions
    cases hoptions
  | some ys =>
    obtain ⟨before, x, rest, y, rfl, rfl, hfunc, hno⟩ := exists_of_visit_eq_some hvisit
    rw [edit, hvisit, Option.getD_some] at hedit
    cases x with
    | net options =>
      obtain rfl : .net (configured env options) = y := Option.some.inj hfunc
      have hfirst : (before ++ .net options :: rest).findSome? netOptions? = some options := by
        rw [List.findSome?_append, List.findSome?_eq_none_iff.mpr fun v hv => hnone v (hno v hv)]
        rfl
      rw [hfirst]
      simp only [Option.some.injEq, forall_eq']
      rw [← netKept_configured_iff]
      constructor
      · intro hkeeps
        obtain ⟨v, hv, hkept⟩ := hkeeps before.length (.net options) (by simp)
        obtain ⟨v', hv', rfl⟩ := hedit before.length (.net (configured env options)) (by simp)
        obtain rfl : .net (configured env options) = v :=
          Option.some.inj (hv'.symm.trans hv)
        rcases hkept with hsame | ⟨_, _, hoptions, hafter, hkept⟩
        · rw [← PluginBackend.net.inj hsame]
          exact .refl options
        · cases hoptions
          cases hafter
          exact hkept
      · intro hkept
        have hreplace : Keeps (PluginKept env) (before ++ .net options :: rest)
            (before ++ .net (configured env options) :: rest) :=
          .replace before rest (.inr ⟨options, _, rfl, rfl, hkept⟩) hrefl
        exact hreplace.trans hedit fun _ _ _ hxy hyz => hyz ▸ hxy
    | _ => cases hfunc

theorem setLogSync_kept (env : Environment) (cfg : AimRTConfig) :
    Keeps (LogKept env) cfg.logBackends (setLogSync env cfg).logBackends ∧
      cfg.executors <+: (setLogSync env cfg).executors := by
  have hrefl : Keeps (LogKept env) cfg.logBackends cfg.logBackends := .refl (fun _ => .inl rfl) _
  rw [setLogSync]
  split_ifs with hinterval
  · exact ⟨hrefl, List.prefix_refl _⟩
  · have hedit := keeps_edit (syncRotateFile env) cfg.logBackends
    cases hvisit : visit (syncRotateFile env) cfg.logBackends with
    | none => exact ⟨hrefl, List.prefix_refl _⟩
    | some logBackends =>
      rw [edit, hvisit, Option.getD_some] at hedit
      refine ⟨hedit.mono fun v v' hv => hv.imp_right fun hsync => ⟨?_, hsync⟩,
        List.prefix_append _ _⟩
      omega

/-- The channel backends after the two steps that edit them. -/
theorem chKept_of_edits (hhds : env.featureHDSNewBackend = "udp" ∧
      edit (addUdpPubOption (hdsUdpOption env)) cfg.chBackends <+: cfg'.chBackends ∨
        cfg.chBackends <+: cfg'.chBackends)
    (hqos : setRos2ChannelQos env cfg' = .ok cfg'') :
    Keeps (ChKept env) cfg.chBackends cfg''.chBackends := by
  have hfirst : Keeps (fun v v' => v = v' ∨ env.featureHDSNewBackend = "udp" ∧
      addUdpPubOption (hdsUdpOption env) v = some v') cfg.chBackends cfg'.chBackends := by
    rcases hhds with ⟨hudp, hedit⟩ | hstart
    · exact (keeps_edit _ _).trans (.of_isPrefix hedit) fun v v' v'' hv hv' =>
        hv' ▸ hv.imp_right fun hadd => ⟨hudp, hadd⟩
    · exact (Keeps.of_isPrefix hstart).mono fun v v' hv => .inl hv
  rcases setRos2ChannelQos_cases cfg' hqos with rfl | ⟨qos, ⟨hfeature, hread⟩, rfl⟩
  · exact hfirst.mono fun v v' hv => hv.imp_right .inl
  · refine hfirst.trans (keeps_edit (appendQos qos) cfg'.chBackends) fun v v' v'' hv hv' => ?_
    rcases hv' with rfl | happend
    · exact hv.imp_right .inl
    · rcases hv with rfl | ⟨-, hadd⟩
      · exact .inr (.inr ⟨hfeature, qos, hread, happend⟩)
      · -- a udp backend is no ros2 backend
        cases v with
        | udp options =>
          cases hadd
          cases happend
        | _ => cases hadd

/-- **The injection keeps what the user configured exactly when it does not copy net options of the
deployment over other ones of the user.** -/
theorem keepsUser_iff (h : injectDefaultCfg env cfg = .ok cfg') :
    KeepsUser env cfg cfg' ↔
      (env.featureHDSNewBackend = "udp" ∨ env.enableLogControl = true →
        ∀ options, firstNet cfg = some options → NetAgrees env.networkOptions options) := by
  obtain ⟨cfg₁, cfg₂, hdefault, hqos, rfl⟩ := stages_of_injectDefaultCfg h
  have hframe := (appends_addDefaultBackends hdefault).trans_frame
    (@frame_addFrameworkCfg env cfg₁)
  have hsame : cfg₂.plugins = (addFrameworkCfg env cfg₁).plugins ∧
      cfg₂.logBackends = (addFrameworkCfg env cfg₁).logBackends ∧
      cfg₂.rpcBackends = (addFrameworkCfg env cfg₁).rpcBackends ∧
      cfg₂.executors = (addFrameworkCfg env cfg₁).executors := by
    rcases setRos2ChannelQos_cases _ hqos with rfl | ⟨qos, -, rfl⟩ <;> exact ⟨rfl, rfl, rfl, rfl⟩
  obtain ⟨hplugins, hlog, hrpc, hexe⟩ := hsame
  obtain ⟨hsyncPlugins, hsyncCh, hsyncRpc, -⟩ := setLogSync_frame env cfg₂
  obtain ⟨hsyncLog, hsyncExe⟩ := setLogSync_kept env cfg₂
  -- the plugins decide; all other lists are kept in any case
  have hkept : KeepsUser env cfg (setLogSync env cfg₂) ↔
      Keeps (PluginKept env) cfg.plugins (addFrameworkCfg env cfg₁).plugins := by
    constructor
    · intro hkeeps
      have hfirst := hkeeps.plugins
      rwa [hsyncPlugins, hplugins] at hfirst
    · intro hfirst
      constructor
      · rw [hsyncPlugins, hplugins]
        exact hfirst
      · have hstart := hframe.logBackends
        rw [← hlog] at hstart
        exact (Keeps.of_isPrefix hstart).trans hsyncLog fun _ _ _ hxy hyz => hxy ▸ hyz
      · rw [hsyncCh]
        refine chKept_of_edits ?_ hqos
        have hstart := hframe.chBackends
        split_ifs at hstart with hudp
        · exact .inl ⟨of_decide_eq_true hudp, hstart⟩
        · exact .inr hstart
      · rw [hsyncRpc, hrpc]
        exact .of_isPrefix hframe.rpcBackends
      · have hstart := hframe.executors
        rw [← hexe] at hstart
        exact .of_isPrefix (hstart.trans hsyncExe)
  rw [hkept]
  have hstart := hframe.plugins
  have hadds : addsNet env = true ↔
      env.featureHDSNewBackend = "udp" ∨ env.enableLogControl = true := by
    simp [addsNet]
  rw [← hadds]
  split_ifs at hstart with hnet
  · rw [keeps_configured_iff hstart]
    exact ⟨fun hagrees _ => hagrees, fun hagrees => hagrees hnet⟩
  · exact iff_of_true ((Keeps.of_isPrefix hstart).mono fun v v' hv => .inl hv)
      fun hadds => absurd hadds hnet

/-! ### A deployment with a port of its own -/

/-- The entry of a process in a deployment file, with a port for http. -/
def deploymentSample : Yaml :=
  .map "" [("net", .map "" [("http", .seq "" [.map ""
    [("is_net_plugin", .scalar "" "true"), ("listen_ip", .scalar "" "0.0.0.0"),
      ("listen_port", .scalar "" "80")]])])]

/-- The truth value of a scalar. -/
def asBoolSample : Yaml → Option Bool
  | .scalar _ "true" => some true
  | .scalar _ "false" => some false
  | _ => none

/-- The number of a scalar. -/
def asIntSample : Yaml → Option ℤ
  | .scalar _ "80" => some 80
  | _ => none

/-- The exception topic is sent with udp, and there is a deployment. -/
def deployedEnvironment : Environment where
  __ := baseEnvironment
  featureHDSNewBackend := "udp"
  networkOptions := { httpOptions := some ⟨"0.0.0.0", 80⟩ }

/-- A net plugin of the user, with another port. -/
def netSample : AimRTConfig where
  plugins := [.net { httpOptions := some ⟨"127.0.0.1", 8080⟩ }]

/-- The port of the user is replaced by the one of the deployment. -/
theorem inject_overrides_net :
    getNetworkPluginOptions (fun _ => none) asBoolSample asIntSample deploymentSample =
        .ok deployedEnvironment.networkOptions ∧
      ∃ cfg', injectDefaultCfg deployedEnvironment netSample = .ok cfg' ∧
        cfg'.plugins[0]? = some (.net { httpOptions := some ⟨"0.0.0.0", 80⟩ }) ∧
        ¬ KeepsUser deployedEnvironment netSample cfg' := by
  obtain ⟨cfg', hinject, hplugin⟩ : ∃ cfg',
      injectDefaultCfg deployedEnvironment netSample = .ok cfg' ∧
        cfg'.plugins[0]? = some (.net { httpOptions := some ⟨"0.0.0.0", 80⟩ }) :=
    ⟨_, rfl, by decide +kernel⟩
  refine ⟨by decide +kernel, cfg', hinject, hplugin, fun hkeeps => ?_⟩
  obtain ⟨v, hv, hkept⟩ := hkeeps.plugins 0 (.net { httpOptions := some ⟨"127.0.0.1", 8080⟩ }) rfl
  obtain rfl := Option.some.inj (hplugin.symm.trans hv)
  rcases hkept with hsame | ⟨options, options', huser, hafter, hnet⟩
  · revert hsame
    decide
  · obtain rfl := PluginBackend.net.inj huser
    obtain rfl := PluginBackend.net.inj hafter
    rcases hnet.http with hsame | ⟨hnone, -⟩
    · revert hsame
      decide
    · cases hnone

/-- A net plugin of the user that has options for tcp only. -/
def tcpSample : AimRTConfig where
  plugins := [.parameter, .net { tcpOptions := some ⟨"127.0.0.1", 8081⟩ }]

/-- Options of the deployment for http are added to it. -/
theorem keepsUser_iff_sample : ∃ cfg',
    injectDefaultCfg deployedEnvironment tcpSample = .ok cfg' ∧
      cfg'.plugins[1]? = some (.net
        { httpOptions := some ⟨"0.0.0.0", 80⟩, tcpOptions := some ⟨"127.0.0.1", 8081⟩ }) ∧
      KeepsUser deployedEnvironment tcpSample cfg' := by
  obtain ⟨cfg', hinject, hplugin⟩ : ∃ cfg',
      injectDefaultCfg deployedEnvironment tcpSample = .ok cfg' ∧
        cfg'.plugins[1]? = some (.net
          { httpOptions := some ⟨"0.0.0.0", 80⟩, tcpOptions := some ⟨"127.0.0.1", 8081⟩ }) :=
    ⟨_, rfl, by decide +kernel⟩
  refine ⟨cfg', hinject, hplugin, (keepsUser_iff hinject).mpr fun _ options hfirst => ?_⟩
  obtain rfl := Option.some.inj hfirst
  exact ⟨.inr (.inl rfl), .inl rfl, .inl rfl⟩

end AimrtComm.Cfg.InjectDefault
