import AimrtComm.Lib.Regex
import AimrtComm.RecordPlayback.Setting
import Mathlib.Data.List.Flatten
import Mathlib.Data.List.Nodup
import Mathlib.Data.List.Count

/-!
## When every topic gets the union of its backends

Every enabled action appends options of its own, so that a topic of two actions has two of them and
the first one hides the second.  A backend of no known name is taken for `local`, and a name of a
topic is an expression that may match other topics, or not match itself.  `unionPerTopic_iff` says
that the options are right, in whatever order everything is listed, exactly when none of this
happens.  `channelsMap_eq` reads the loops of `ChannelSetting` back as a list of entries,
`topicOptions_recordPlaybackSetting` adds up what all actions append, and
`UnionCondition.unionPerTopic` and `unionCondition_of_unionPerTopic` are the two directions.
-/

namespace AimrtComm.RecordPlayback

open Cfg

/-! ### What one action appends -/

/-- The topics of an action that have a backend, with their channels. -/
def entries (backendAndTopics : List (String × List String)) : List (String × List Ch) :=
  (backendAndTopics.filter fun entry => !entry.2.isEmpty).map
    fun entry => (entry.1, entry.2.map transfer)

theorem modify_append_new {topic : String} {channels : List (String × List Ch)}
    (h : topic ∉ Assoc.keys channels) (f : List Ch → List Ch) (done : List Ch) :
    Assoc.modify topic f (channels ++ [(topic, done)]) = channels ++ [(topic, f done)] := by
  induction channels with
  | nil => simp [Assoc.modify]
  | cons entry channels ih =>
    simp only [List.map_cons, List.mem_cons, not_or] at h
    rw [List.cons_append, Assoc.modify, if_neg (Ne.symm h.1), ih h.2, List.cons_append]

/-- The loop over the backends of a topic whose entry is the last one. -/
theorem foldl_upsert_last {topic : String} {channels : List (String × List Ch)}
    (h : topic ∉ Assoc.keys channels) (backends : List String) (done : List Ch) :
    backends.foldl (fun channels backend =>
        Assoc.upsert [] topic (fun value => value ++ [transfer backend]) channels)
        (channels ++ [(topic, done)])
      = channels ++ [(topic, done ++ backends.map transfer)] := by
  induction backends generalizing done with
  | nil => simp
  | cons backend backends ih =>
    rw [List.foldl_cons, Assoc.upsert, Assoc.ensure_of_mem (by simp), modify_append_new h, ih,
      List.map_cons, List.append_assoc, List.singleton_append]

/-- The loop over the backends of a new topic: it gets an entry when there is a backend. -/
theorem foldl_upsert_new {topic : String} {channels : List (String × List Ch)}
    (h : topic ∉ Assoc.keys channels) (backends : List String) :
    backends.foldl (fun channels backend =>
        Assoc.upsert [] topic (fun value => value ++ [transfer backend]) channels) channels
      = channels ++ entries [(topic, backends)] := by
  cases backends with
  | nil => simp [entries]
  | cons backend backends =>
    have hnew : Assoc.upsert [] topic (fun value => value ++ [transfer backend]) channels
        = channels ++ [(topic, [transfer backend])] := by
      rw [Assoc.upsert, Assoc.ensure, if_neg h, modify_append_new h, List.nil_append]
    rw [List.foldl_cons, hnew, foldl_upsert_last h]
    rfl

theorem entries_cons (entry : String × List String) (rest : List (String × List String)) :
    entries (entry :: rest) = entries [entry] ++ entries rest := by
  rw [entries, ← List.singleton_append, List.filter_append, List.map_append]
  rfl

theorem mem_keys_of_mem_entries {k : String} {backendAndTopics : List (String × List String)}
    (h : k ∈ Assoc.keys (entries backendAndTopics)) : k ∈ Assoc.keys backendAndTopics := by
  rw [entries, Assoc.keys, List.map_map] at h
  exact List.map_subset _ (List.filter_sublist.subset) h

theorem nodup_keys_entries {backendAndTopics : List (String × List String)}
    (h : (Assoc.keys backendAndTopics).Nodup) :
    (Assoc.keys (entries backendAndTopics)).Nodup := by
  rw [entries, Assoc.keys, List.map_map]
  exact h.sublist (List.filter_sublist.map _)

/-- `channels_map` has one entry for each topic with a backend. -/
theorem channelsMap_eq {backendAndTopics : List (String × List String)}
    (h : (Assoc.keys backendAndTopics).Nodup) :
    channelsMap backendAndTopics = entries backendAndTopics := by
  suffices hgen : ∀ (rest : List (String × List String)) (channels : List (String × List Ch)),
      (Assoc.keys rest).Nodup → (∀ k ∈ Assoc.keys rest, k ∉ Assoc.keys channels) →
      rest.foldl (fun channels entry => entry.2.foldl (fun channels backend =>
          Assoc.upsert [] entry.1 (fun value => value ++ [transfer backend]) channels) channels)
          channels = channels ++ entries rest from hgen _ [] h (by simp)
  intro rest
  induction rest with
  | nil => simp [entries]
  | cons entry rest ih =>
    intro channels hnd hfresh
    simp only [List.map_cons, List.nodup_cons] at hnd
    rw [List.foldl_cons, foldl_upsert_new (hfresh entry.1 (by simp)), entries_cons entry rest,
      ← List.append_assoc]
    apply ih _ hnd.2
    intro k hk hmem
    rw [Assoc.keys, List.map_append, List.mem_append] at hmem
    rcases hmem with hmem | hmem
    · exact hfresh k (List.mem_cons_of_mem _ hk) hmem
    · -- the entry that was just appended has another key
      have hkey := mem_keys_of_mem_entries hmem
      rw [Assoc.keys, List.map_singleton, List.mem_singleton] at hkey
      exact hnd.1 (hkey ▸ hk)

/-! ### The options of a method -/

/-- The options that an action of the method adds to. -/
def topicOptions (method : String) (cfg : AimRTConfig) : List PubOption :=
  if method = "record" then cfg.subTopicsOptions else cfg.pubTopicsOptions

/-- Is it an enabled action of the method? -/
def Action.isOf (method : String) (action : Action) : Bool :=
  action.isEnable && action.method == method

/-- The options that an action adds for a method. -/
def added (hash : HashOrder (String × List Ch)) (method : String) (action : Action) :
    List PubOption :=
  if action.isOf method then
    (hash.order (entries action.backendAndTopics)).map
      fun entry => { topicName := entry.1, enableBackends := entry.2 }
  else []

theorem topicOptions_pluginSettings (method : String) (cfg : AimRTConfig)
    (backendAndTopics : List (String × List String)) :
    topicOptions method (pluginSettings cfg backendAndTopics) = topicOptions method cfg := by
  rw [pluginSettings]
  induction (backendAndTopics.flatMap Prod.snd).eraseDups generalizing cfg with
  | nil => rfl
  | cons backend backends ih =>
    rw [List.foldl_cons, ih, pluginSetting, topicOptions, topicOptions]
    -- a plugin comes with its backends and executors only
    split_ifs <;>
      simp [AimRTConfig.withDefaultZenoh, AimRTConfig.withDefaultIceoryx,
        AimRTConfig.tryAddDefaultTimeoutExecutor, apply_ite]

theorem topicOptions_foldl_setBackendTopic {method : String} (m : String)
    (hmethod : method = "record" ∨ method = "playback") (hm : m = "record" ∨ m = "playback")
    (cfg : AimRTConfig) (es : List (String × List Ch)) :
    topicOptions m (es.foldl (fun cfg entry => cfg.setBackendTopic method entry.1 entry.2) cfg)
      = topicOptions m cfg ++ if method = m then
          es.map fun entry => { topicName := entry.1, enableBackends := entry.2 } else [] := by
  induction es generalizing cfg with
  | nil => simp
  | cons entry es ih =>
    rw [List.foldl_cons, ih]
    rcases hmethod with rfl | rfl <;> rcases hm with rfl | rfl <;>
      simp [topicOptions, AimRTConfig.setBackendTopic]

theorem topicOptions_actionSetting (hash : HashOrder (String × List Ch)) {m : String}
    (hm : m = "record" ∨ m = "playback") (cfg : AimRTConfig) (action : Action) :
    topicOptions m (actionSetting hash cfg action)
      = topicOptions m cfg ++ added hash m action := by
  rw [actionSetting, added]
  cases henable : action.isEnable with
  | false => simp [Action.isOf, henable]
  | true =>
    by_cases hmethod : action.method = "record" ∨ action.method = "playback"
    · rw [if_neg (by simp), if_pos hmethod, channelSetting,
        topicOptions_foldl_setBackendTopic m hmethod hm, topicOptions_pluginSettings,
        channelsMap_eq action.distinct]
      simp [Action.isOf, henable]
    · -- an invalid method: nothing is added, and it is not the method asked about
      have hne : action.method ≠ m := by
        rintro rfl
        exact hmethod hm
      simp [Action.isOf, hmethod, hne]

/-- The options after `RecordPlaybackSetting`: every action appends its own. -/
theorem topicOptions_recordPlaybackSetting (hash : HashOrder (String × List Ch)) {m : String}
    (hm : m = "record" ∨ m = "playback") (cfg : AimRTConfig) (actions : List Action) :
    topicOptions m (recordPlaybackSetting hash cfg actions)
      = topicOptions m cfg ++ actions.flatMap (added hash m) := by
  show topicOptions m (actions.foldl (actionSetting hash) cfg) = _
  induction actions generalizing cfg with
  | nil => simp
  | cons action actions ih =>
    rw [List.foldl_cons, ih, topicOptions_actionSetting hash hm, List.flatMap_cons,
      List.append_assoc]

/-! ### What the actions ask for -/

/-- The topics that an action asks for with a method. -/
def Action.topics (method : String) (action : Action) : List String :=
  if action.isOf method then Assoc.keys (entries action.backendAndTopics) else []

/-- An enabled action of the method lists a backend of the channel for the topic. -/
def Asked (actions : List Action) (method topic : String) (ch : Ch) : Prop :=
  ∃ action ∈ actions, action.isEnable ∧ action.method = method ∧
    ∃ backends, (topic, backends) ∈ action.backendAndTopics ∧
      ∃ backend ∈ backends, transfer backend = ch

/-- An enabled action of the method lists the backend for the topic. -/
def AskedFor (actions : List Action) (method topic backend : String) : Prop :=
  ∃ action ∈ actions, action.isEnable ∧ action.method = method ∧
    ∃ backends, (topic, backends) ∈ action.backendAndTopics ∧ backend ∈ backends

/-- Every topic asked for has one option, with the union of its backends by their names; and the
lookup by rules finds every backend asked for. -/
structure UnionPerTopic (rest : String → Option (String → Bool)) (actions : List Action)
    (method : String) (options : List PubOption) : Prop where
  entry : ∀ topic backend, AskedFor actions method topic backend →
    ∃ o, options.filter (fun o => o.topicName = topic) = [o] ∧
      ∀ backend, backend ∈ o.enableBackends.map backendName ↔
        AskedFor actions method topic backend
  lookup : ∀ topic backend, AskedFor actions method topic backend →
    backend ∈ Monitor.getBackendsByRules (Regex.regexMatch rest) topic (rulesOf options)

/-- No two actions of the method share a topic, and no topic of theirs has an option before. -/
def Separate (cfg : AimRTConfig) (actions : List Action) (method : String) : Prop :=
  actions.Pairwise (fun a b => (a.topics method).Disjoint (b.topics method)) ∧
    ∀ action ∈ actions, ∀ topic ∈ action.topics method,
      topic ∉ (topicOptions method cfg).map PubOption.topicName

/-- The names of the backends. -/
def backendNames : List String :=
  ["mqtt", "ros2", "http", "tcp", "udp", "zenoh", "iceoryx", "local"]

/-- The name matches the topic, when it is taken for an expression. -/
def nameMatches (rest : String → Option (String → Bool)) (name topic : String) : Bool :=
  Regex.regexMatch rest topic name = some true

/-- No topic is hidden by an expression: the first option that was there before and matches it has
its backends; or there is none, some topic asked for matches it, and every such topic is asked for
with its backends too. -/
def NotHidden (rest : String → Option (String → Bool)) (cfg : AimRTConfig) (actions : List Action)
    (method : String) : Prop :=
  ∀ topic, (∃ backend, AskedFor actions method topic backend) →
    match (topicOptions method cfg).find? fun o => nameMatches rest o.topicName topic with
    | some o => ∀ backend, AskedFor actions method topic backend →
        backend ∈ o.enableBackends.map backendName
    | none =>
      (∃ other, (∃ backend, AskedFor actions method other backend) ∧
        nameMatches rest other topic = true) ∧
      ∀ other, (∃ backend, AskedFor actions method other backend) →
        nameMatches rest other topic = true → ∀ backend, AskedFor actions method topic backend →
          AskedFor actions method other backend

/-- What the actions of a method have to meet. -/
structure UnionCondition (rest : String → Option (String → Bool)) (cfg : AimRTConfig)
    (actions : List Action) (method : String) : Prop where
  separate : Separate cfg actions method
  known : ∀ topic backend, AskedFor actions method topic backend → backend ∈ backendNames
  notHidden : NotHidden rest cfg actions method

/-! ### Names of backends -/

/-- The channel of a backend has the name of the backend, or is the local one if there is none of
that name. -/
theorem backendName_transfer (backend : String) :
    backendName (transfer backend) = if backend ∈ backendNames then backend else "local" := by
  unfold transfer backendNames
  split_ifs <;> simp_all [backendName]

/-- **The channel of each backend.** -/
theorem transfer_eq_iff {backend : String} {ch : Ch} :
    transfer backend = ch ↔
      (backend, ch) ∈ [("mqtt", Ch.mqtt), ("ros2", .ros2), ("http", .http), ("tcp", .tcp),
        ("udp", .udp), ("zenoh", .zenoh), ("iceoryx", .iceoryx), ("local", .local)] ∨
      backend ∉ backendNames ∧ ch = .local := by
  unfold transfer backendNames
  split_ifs <;> simp_all [eq_comm]
  -- what is left is taken for the local one
  by_cases hlocal : backend = "local" <;> simp [hlocal]

theorem backendName_transfer_of_known {backend : String} (h : backend ∈ backendNames) :
    backendName (transfer backend) = backend := by
  rw [backendName_transfer, if_pos h]

theorem backendName_transfer_mem (backend : String) :
    backendName (transfer backend) ∈ backendNames := by
  rw [backendName_transfer]
  split_ifs with h
  · exact h
  · decide

theorem asked_iff_askedFor {actions : List Action} {method topic : String} {ch : Ch} :
    Asked actions method topic ch ↔
      ∃ backend, AskedFor actions method topic backend ∧ transfer backend = ch := by
  constructor
  · rintro ⟨action, haction, henable, hmethod, backends, hmem, backend, hbackend, htransfer⟩
    exact ⟨backend, ⟨action, haction, henable, hmethod, backends, hmem, hbackend⟩, htransfer⟩
  · rintro ⟨backend, ⟨action, haction, henable, hmethod, backends, hmem, hbackend⟩, htransfer⟩
    exact ⟨action, haction, henable, hmethod, backends, hmem, backend, hbackend, htransfer⟩

theorem AskedFor.asked {actions : List Action} {method topic backend : String}
    (h : AskedFor actions method topic backend) :
    Asked actions method topic (transfer backend) := asked_iff_askedFor.mpr ⟨backend, h, rfl⟩

theorem askedFor_perm {actions actions' : List Action} (h : actions'.Perm actions)
    {method topic backend : String} :
    AskedFor actions' method topic backend ↔ AskedFor actions method topic backend := by
  simp only [AskedFor, h.mem_iff]

/-! ### What the actions add -/

theorem mem_entries {topic : String} {channels : List Ch}
    {backendAndTopics : List (String × List String)} :
    (topic, channels) ∈ entries backendAndTopics ↔
      ∃ backends, (topic, backends) ∈ backendAndTopics ∧ backends ≠ [] ∧
        backends.map transfer = channels := by
  simp [entries]
  grind

theorem map_topicName_added (hash : HashOrder (String × List Ch)) (method : String)
    (action : Action) :
    ((added hash method action).map PubOption.topicName).Perm (action.topics method) := by
  rw [added, Action.topics]
  split_ifs with h
  · rw [List.map_map]
    exact (hash.perm _).map _
  · exact List.Perm.nil

theorem nodup_topics (method : String) (action : Action) : (action.topics method).Nodup := by
  rw [Action.topics]
  split_ifs with h
  · exact nodup_keys_entries action.distinct
  · exact List.nodup_nil

/-- Asked for means that it stands in the options that some action adds. -/
theorem asked_iff (hash : HashOrder (String × List Ch)) {actions : List Action}
    {method topic : String} {ch : Ch} :
    Asked actions method topic ch ↔
      ∃ o ∈ actions.flatMap (added hash method), o.topicName = topic ∧ ch ∈ o.enableBackends := by
  constructor
  · rintro ⟨action, haction, henable, hmethod, backends, hmem, backend, hbackend, rfl⟩
    -- whatever order the hash map has, the option of the topic is among those of the action
    refine ⟨{ topicName := topic, enableBackends := backends.map transfer }, ?_, rfl,
      List.mem_map_of_mem hbackend⟩
    apply List.mem_flatMap_of_mem haction
    rw [added, if_pos (by simp [Action.isOf, henable, hmethod])]
    apply List.mem_map.mpr
    refine ⟨(topic, backends.map transfer), ?_, rfl⟩
    rw [(hash.perm _).mem_iff, mem_entries]
    exact ⟨backends, hmem, List.ne_nil_of_mem hbackend, rfl⟩
  · rintro ⟨o, ho, rfl, hch⟩
    obtain ⟨action, haction, hmem⟩ := List.mem_flatMap.mp ho
    rw [added] at hmem
    split_ifs at hmem with hof
    · obtain ⟨entry, hentry, rfl⟩ := List.mem_map.mp hmem
      rw [(hash.perm _).mem_iff] at hentry
      obtain ⟨backends, hin, -, hmap⟩ := mem_entries.mp hentry
      rw [← hmap, List.mem_map] at hch
      rw [Action.isOf, Bool.and_eq_true, beq_iff_eq] at hof
      exact ⟨action, haction, hof.1, hof.2, backends, hin, hch⟩
    · simp at hmem

/-- A topic of an action is asked for with some backend. -/
theorem exists_askedFor_iff {actions : List Action} {method topic : String} :
    (∃ backend, AskedFor actions method topic backend) ↔
      topic ∈ actions.flatMap (Action.topics method) := by
  constructor
  · rintro ⟨backend, action, haction, henable, hmethod, backends, hmem, hbackend⟩
    apply List.mem_flatMap_of_mem haction
    rw [Action.topics, if_pos (by simp [Action.isOf, henable, hmethod])]
    exact Assoc.mem_keys_of_mem (mem_entries.mpr ⟨backends, hmem, List.ne_nil_of_mem hbackend, rfl⟩)
  · intro h
    obtain ⟨action, haction, htopic⟩ := List.mem_flatMap.mp h
    rw [Action.topics] at htopic
    split_ifs at htopic with hof
    · obtain ⟨⟨k, channels⟩, hentry, rfl⟩ := List.mem_map.mp htopic
      obtain ⟨backends, hin, hne, -⟩ := mem_entries.mp hentry
      obtain ⟨backend, hbackend⟩ := List.exists_mem_of_ne_nil _ hne
      rw [Action.isOf, Bool.and_eq_true, beq_iff_eq] at hof
      exact ⟨backend, action, haction, hof.1, hof.2, backends, hin, hbackend⟩
    · simp at htopic

/-! ### One option for every topic -/

/-- A name that occurs once belongs to one option. -/
theorem exists_filter_eq_singleton_iff {options : List PubOption} {topic : String} :
    (∃ o, options.filter (fun o => o.topicName = topic) = [o]) ↔
      (options.map PubOption.topicName).count topic = 1 := by
  rw [← List.length_eq_one_iff, List.count, List.countP_map, List.countP_eq_length_filter]
  have hp : (fun o : PubOption => decide (o.topicName = topic))
      = ((fun x => x == topic) ∘ PubOption.topicName) := by
    funext o
    exact Bool.eq_iff_iff.mpr (by simp)
  rw [hp]

theorem count_topicName (hash : HashOrder (String × List Ch)) (method topic : String)
    (actions : List Action) :
    ((actions.flatMap (added hash method)).map PubOption.topicName).count topic
      = (actions.flatMap (Action.topics method)).count topic := by
  induction actions with
  | nil => rfl
  | cons action actions ih =>
    rw [List.flatMap_cons, List.flatMap_cons, List.map_append, List.count_append,
      List.count_append, ih, (map_topicName_added hash method action).count_eq]

/-- Separate actions are those whose topics come once, all the options taken together. -/
theorem separate_iff {cfg : AimRTConfig} {actions : List Action} {method : String} :
    Separate cfg actions method ↔
      ∀ topic ∈ actions.flatMap (Action.topics method),
        ((topicOptions method cfg).map PubOption.topicName
          ++ actions.flatMap (Action.topics method)).count topic = 1 := by
  constructor
  · rintro ⟨hpairwise, hfresh⟩ topic htopic
    have hnd : (actions.flatMap (Action.topics method)).Nodup :=
      List.nodup_flatMap.mpr ⟨fun action _ => nodup_topics method action, hpairwise⟩
    obtain ⟨action, haction, hmem⟩ := List.mem_flatMap.mp htopic
    rw [List.count_append, List.count_eq_zero_of_not_mem (hfresh action haction topic hmem),
      List.count_eq_one_of_mem hnd htopic]
  · intro h
    -- the actions have their topics once, so that one with an option would count twice
    have hnd : (actions.flatMap (Action.topics method)).Nodup := by
      rw [List.nodup_iff_count_le_one]
      intro topic
      by_cases htopic : topic ∈ actions.flatMap (Action.topics method)
      · have hone := h topic htopic
        rw [List.count_append] at hone
        omega
      · rw [List.count_eq_zero_of_not_mem htopic]
        omega
    refine ⟨(List.nodup_flatMap.mp hnd).2, fun action haction topic htopic hmem => ?_⟩
    have hin := List.mem_flatMap_of_mem haction htopic
    have hone := h topic hin
    rw [List.count_append] at hone
    have hbefore := List.count_pos_iff.mpr hmem
    have hafter := List.count_pos_iff.mpr hin
    omega

/-- The topics count as often among all options as among the old ones and those of the actions. -/
theorem count_topicOptions (hash : HashOrder (String × List Ch)) (cfg : AimRTConfig)
    (actions : List Action) (method topic : String) :
    ((topicOptions method cfg ++ actions.flatMap (added hash method)).map
        PubOption.topicName).count topic =
      ((topicOptions method cfg).map PubOption.topicName
        ++ actions.flatMap (Action.topics method)).count topic := by
  rw [List.map_append, List.count_append, List.count_append, count_topicName]

/-- The only option of a topic asked for is one that an action added. -/
theorem mem_enableBackends_iff {hash : HashOrder (String × List Ch)} {before : List PubOption}
    {actions : List Action} {method topic backend : String} {o : PubOption}
    (hasked : AskedFor actions method topic backend)
    (ho : (before ++ actions.flatMap (added hash method)).filter (fun o => o.topicName = topic) =
      [o]) (ch : Ch) :
    ch ∈ o.enableBackends ↔ Asked actions method topic ch := by
  have honly : ∀ o' ∈ actions.flatMap (added hash method), o'.topicName = topic → o' = o := by
    intro o' hmem htopic
    rw [← List.mem_singleton, ← ho, List.mem_filter]
    exact ⟨List.mem_append_right _ hmem, by simpa using htopic⟩
  rw [asked_iff hash]
  constructor
  · intro hch
    obtain ⟨o', hmem, htopic, -⟩ := (asked_iff hash).mp hasked.asked
    rw [← honly o' hmem htopic] at hch
    exact ⟨o', hmem, htopic, hch⟩
  · rintro ⟨o', hmem, htopic, hch⟩
    rwa [honly o' hmem htopic] at hch

/-- With known backends, the names of the only option of a topic are those asked for. -/
theorem mem_names_iff {hash : HashOrder (String × List Ch)} {before : List PubOption}
    {actions : List Action} {method topic backend : String} {o : PubOption}
    (hknown : ∀ topic backend, AskedFor actions method topic backend → backend ∈ backendNames)
    (hasked : AskedFor actions method topic backend)
    (ho : (before ++ actions.flatMap (added hash method)).filter (fun o => o.topicName = topic) =
      [o]) (name : String) :
    name ∈ o.enableBackends.map backendName ↔ AskedFor actions method topic name := by
  simp only [List.mem_map, mem_enableBackends_iff hasked ho, asked_iff_askedFor]
  constructor
  · rintro ⟨_, ⟨other, hother, rfl⟩, rfl⟩
    rwa [backendName_transfer_of_known (hknown topic other hother)]
  · intro hname
    exact ⟨_, ⟨name, hname, rfl⟩, backendName_transfer_of_known (hknown topic name hname)⟩

/-! ### The lookup -/

/-- The lookup finds the backends of the first option whose name matches. -/
theorem getBackendsByRules_rulesOf (rest : String → Option (String → Bool)) (topic : String)
    (options : List PubOption) :
    Monitor.getBackendsByRules (Regex.regexMatch rest) topic (rulesOf options) =
      match options.find? fun o => nameMatches rest o.topicName topic with
      | some o => o.enableBackends.map backendName
      | none => [] := by
  induction options with
  | nil => rfl
  | cons option options ih =>
    unfold rulesOf at ih ⊢
    rw [List.map_cons, Monitor.getBackendsByRules, List.find?_cons]
    by_cases hmatch : Regex.regexMatch rest topic option.topicName = some true
    · simp [nameMatches, hmatch]
    · rw [if_neg hmatch, ih]
      simp [nameMatches, hmatch]

theorem nameMatches_of_find? {rest : String → Option (String → Bool)} {topic : String}
    {options : List PubOption} {o : PubOption}
    (h : options.find? (fun o => nameMatches rest o.topicName topic) = some o) :
    nameMatches rest o.topicName topic = true := by
  have hfound := List.find?_some h
  exact hfound

/-- The topics of the added options are those asked for. -/
theorem exists_askedFor_of_mem_added {hash : HashOrder (String × List Ch)} {actions : List Action}
    {method : String} {o : PubOption} (h : o ∈ actions.flatMap (added hash method)) :
    ∃ backend, AskedFor actions method o.topicName backend := by
  rw [exists_askedFor_iff]
  obtain ⟨action, haction, hmem⟩ := List.mem_flatMap.mp h
  exact List.mem_flatMap_of_mem haction
    ((map_topicName_added hash method action).mem_iff.mp (List.mem_map_of_mem hmem))

/-- A topic asked for has an added option. -/
theorem exists_mem_added {hash : HashOrder (String × List Ch)} {actions : List Action}
    {method topic backend : String} (h : AskedFor actions method topic backend) :
    ∃ o ∈ actions.flatMap (added hash method), o.topicName = topic := by
  obtain ⟨o, hmem, htopic, -⟩ := (asked_iff hash).mp h.asked
  exact ⟨o, hmem, htopic⟩

section

variable {rest : String → Option (String → Bool)} {cfg : AimRTConfig}
  {actions actions' : List Action} {method : String}

/-! ### When the condition is met -/

theorem Separate.perm (h : Separate cfg actions method) (hperm : actions'.Perm actions) :
    Separate cfg actions' method := by
  refine ⟨(hperm.pairwise_iff fun hdisjoint => List.disjoint_symm hdisjoint).mpr h.1, ?_⟩
  exact fun action haction => h.2 action (hperm.mem_iff.mp haction)

theorem UnionCondition.perm (h : UnionCondition rest cfg actions method)
    (hperm : actions'.Perm actions) : UnionCondition rest cfg actions' method where
  separate := h.separate.perm hperm
  known topic backend hasked := h.known topic backend ((askedFor_perm hperm).mp hasked)
  notHidden := by
    have hnot := h.notHidden
    unfold NotHidden at hnot ⊢
    simpa only [askedFor_perm hperm] using hnot

/-- Under the condition, a topic asked for has one option. -/
theorem Separate.exists_filter_eq (h : Separate cfg actions method)
    (hash : HashOrder (String × List Ch)) {topic backend : String}
    (hasked : AskedFor actions method topic backend) :
    ∃ o, (topicOptions method cfg ++ actions.flatMap (added hash method)).filter
      (fun o => o.topicName = topic) = [o] :=
  exists_filter_eq_singleton_iff.mpr ((count_topicOptions hash cfg actions method topic).trans
    (separate_iff.mp h topic (exists_askedFor_iff.mp ⟨backend, hasked⟩)))

theorem UnionCondition.unionPerTopic (h : UnionCondition rest cfg actions method)
    (hash : HashOrder (String × List Ch)) :
    UnionPerTopic rest actions method
      (topicOptions method cfg ++ actions.flatMap (added hash method)) := by
  have hentry : ∀ topic backend, AskedFor actions method topic backend →
      ∃ o, (topicOptions method cfg ++ actions.flatMap (added hash method)).filter
          (fun o => o.topicName = topic) = [o] ∧
        ∀ backend, backend ∈ o.enableBackends.map backendName ↔
          AskedFor actions method topic backend := by
    intro topic backend hasked
    obtain ⟨o, ho⟩ := h.separate.exists_filter_eq hash hasked
    exact ⟨o, ho, mem_names_iff h.known hasked ho⟩
  refine ⟨hentry, fun topic backend hasked => ?_⟩
  have hhidden := h.notHidden topic ⟨backend, hasked⟩
  rw [getBackendsByRules_rulesOf, List.find?_append]
  cases hbefore : (topicOptions method cfg).find? fun o => nameMatches rest o.topicName topic with
  | some o =>
    rw [hbefore] at hhidden
    exact hhidden backend hasked
  | none =>
    rw [hbefore] at hhidden
    obtain ⟨⟨other, ⟨otherBackend, hother⟩, hmatch⟩, hall⟩ := hhidden
    rw [Option.none_or]
    obtain ⟨o', ho', rfl⟩ := @exists_mem_added hash _ _ _ _ hother
    cases hfind : (actions.flatMap (added hash method)).find? fun o =>
        nameMatches rest o.topicName topic with
    | none => exact absurd hmatch (List.find?_eq_none.mp hfind o' ho')
    | some o =>
      -- the first option that matches is of a topic that is asked for with the same backends
      have hmem := List.mem_of_find?_eq_some hfind
      have hfirst := nameMatches_of_find? hfind
      have hothers := hall o.topicName (exists_askedFor_of_mem_added hmem) hfirst
      have hnow := hothers backend hasked
      obtain ⟨only, honly, hnames⟩ := hentry o.topicName backend hnow
      have heq : o = only := by
        rw [← List.mem_singleton, ← honly, List.mem_filter]
        exact ⟨List.mem_append_right _ hmem, by simp⟩
      rw [heq]
      exact (hnames backend).mpr hnow

/-! ### When the options are right in every order -/

/-- A hash map that yields one key before all others. -/
def firstKey (topic : String) : HashOrder (String × List Ch) where
  order entries :=
    entries.filter (fun entry => entry.1 = topic) ++
      entries.filter fun entry => ¬ entry.1 = topic
  perm entries := by simpa using List.filter_append_perm (fun entry => entry.1 = topic) entries

/-- Every topic asked for has an order in which its option is added first. -/
theorem exists_perm_added_cons {topic backend : String}
    (h : AskedFor actions method topic backend) :
    ∃ actions' : List Action, actions'.Perm actions ∧ ∃ o options,
      actions'.flatMap (added (firstKey topic) method) = o :: options ∧ o.topicName = topic := by
  obtain ⟨action, haction, henable, hmethod, backends, hmem, hbackend⟩ := h
  obtain ⟨before, after, rfl⟩ := List.append_of_mem haction
  have hof : action.isOf method = true := by simp [Action.isOf, henable, hmethod]
  have hentry : (topic, backends.map transfer) ∈
      (entries action.backendAndTopics).filter fun entry => entry.1 = topic :=
    List.mem_filter.mpr
      ⟨mem_entries.mpr ⟨backends, hmem, List.ne_nil_of_mem hbackend, rfl⟩, by simp⟩
  refine ⟨action :: (before ++ after), List.perm_middle.symm, ?_⟩
  rw [List.flatMap_cons, added, if_pos hof]
  show ∃ (o : PubOption) (options : List PubOption),
    ((entries action.backendAndTopics).filter (fun entry => entry.1 = topic) ++ _).map _ ++ _ =
      o :: options ∧ o.topicName = topic
  cases hfirst : (entries action.backendAndTopics).filter fun entry => entry.1 = topic with
  | nil =>
    rw [hfirst] at hentry
    cases hentry
  | cons entry others =>
    have hname : entry ∈ (entries action.backendAndTopics).filter fun entry => entry.1 = topic := by
      rw [hfirst]
      exact List.mem_cons_self
    exact ⟨_, _, rfl, by simpa using (List.mem_filter.mp hname).2⟩

/-- What the right options say about separate topics and known backends. -/
theorem separate_of_unionPerTopic {hash : HashOrder (String × List Ch)}
    (h : UnionPerTopic rest actions method
      (topicOptions method cfg ++ actions.flatMap (added hash method))) :
    Separate cfg actions method ∧
      ∀ topic backend, AskedFor actions method topic backend → backend ∈ backendNames := by
  constructor
  · rw [separate_iff]
    intro topic htopic
    obtain ⟨backend, hasked⟩ := exists_askedFor_iff.mpr htopic
    obtain ⟨o, ho, -⟩ := h.entry topic backend hasked
    rw [← count_topicOptions hash]
    exact exists_filter_eq_singleton_iff.mp ⟨o, ho⟩
  · intro topic backend hasked
    obtain ⟨o, ho, hnames⟩ := h.entry topic backend hasked
    obtain ⟨ch, hch, rfl⟩ := List.mem_map.mp ((hnames backend).mpr hasked)
    obtain ⟨listed, -, rfl⟩ :=
      asked_iff_askedFor.mp ((mem_enableBackends_iff hasked ho ch).mp hch)
    exact backendName_transfer_mem listed

theorem unionCondition_of_unionPerTopic
    (h : ∀ actions', actions'.Perm actions → ∀ hash, UnionPerTopic rest actions' method
      (topicOptions method cfg ++ actions'.flatMap (added hash method))) :
    UnionCondition rest cfg actions method := by
  obtain ⟨hseparate, hknown⟩ :=
    separate_of_unionPerTopic (h actions (List.Perm.refl _) (firstKey ""))
  refine ⟨hseparate, hknown, fun topic htopic => ?_⟩
  obtain ⟨backend, hasked⟩ := htopic
  have hlookup : ∀ actions' : List Action, actions'.Perm actions → ∀ hash, ∀ backend,
      AskedFor actions method topic backend →
        backend ∈ match (topicOptions method cfg ++ actions'.flatMap (added hash method)).find?
            fun o => nameMatches rest o.topicName topic with
          | some o => o.enableBackends.map backendName
          | none => [] := by
    intro actions' hperm hash backend hasked
    rw [← getBackendsByRules_rulesOf]
    exact (h actions' hperm hash).lookup topic backend ((askedFor_perm hperm).mpr hasked)
  cases hbefore : (topicOptions method cfg).find? fun o => nameMatches rest o.topicName topic with
  | some o =>
    intro backend hasked
    have hfound := hlookup actions (List.Perm.refl _) (firstKey "") backend hasked
    rwa [List.find?_append, hbefore, Option.some_or] at hfound
  | none =>
    constructor
    · -- some option has to match, and only those that were added are left
      have hfound := hlookup actions (List.Perm.refl _) (firstKey "") backend hasked
      rw [List.find?_append, hbefore, Option.none_or] at hfound
      cases hfind : (actions.flatMap (added (firstKey "") method)).find? fun o =>
          nameMatches rest o.topicName topic with
      | none =>
        rw [hfind] at hfound
        cases hfound
      | some o =>
        exact ⟨o.topicName, exists_askedFor_of_mem_added (List.mem_of_find?_eq_some hfind),
          nameMatches_of_find? hfind⟩
    · -- a topic that matches may be the first one
      rintro other ⟨otherBackend, hother⟩ hmatch backend hasked
      obtain ⟨actions', hperm, o, options, hfirst, rfl⟩ := exists_perm_added_cons hother
      have hfound := hlookup actions' hperm (firstKey o.topicName) backend hasked
      rw [List.find?_append, hbefore, Option.none_or, hfirst, List.find?_cons, hmatch] at hfound
      have hother' := (askedFor_perm hperm).mpr hother
      obtain ⟨only, honly, hnames⟩ :=
        (h actions' hperm (firstKey o.topicName)).entry o.topicName otherBackend hother'
      have heq : o = only := by
        rw [← List.mem_singleton, ← honly, List.mem_filter, hfirst]
        exact ⟨List.mem_append_right _ List.mem_cons_self, by simp⟩
      rw [heq] at hfound
      exact (askedFor_perm hperm).mp ((hnames backend).mp hfound)

end

/-! ### Plain names -/

/-- Names without a character of the syntax of expressions hide nothing. -/
theorem notHidden_of_plain {rest : String → Option (String → Bool)} {cfg : AimRTConfig}
    {actions : List Action} {method : String} (hseparate : Separate cfg actions method)
    (hcfg : ∀ o ∈ topicOptions method cfg, ∀ c ∈ o.topicName.toList, Regex.isSyntax c = false)
    (hactions : ∀ topic backend, AskedFor actions method topic backend →
      ∀ c ∈ topic.toList, Regex.isSyntax c = false) :
    NotHidden rest cfg actions method := by
  have hplain : ∀ {name : String}, (∀ c ∈ name.toList, Regex.isSyntax c = false) → ∀ topic,
      nameMatches rest name topic = true ↔ topic = name := by
    intro name hname topic
    rw [nameMatches, Regex.regexMatch_plain rest hname]
    simp
  rintro topic ⟨backend, hasked⟩
  cases hbefore : (topicOptions method cfg).find? fun o => nameMatches rest o.topicName topic with
  | some o =>
    -- there was no option of the topic before
    have hmem := List.mem_of_find?_eq_some hbefore
    have hname := nameMatches_of_find? hbefore
    obtain rfl := (hplain (hcfg o hmem) topic).mp hname
    obtain ⟨action, haction, htopic⟩ := List.mem_flatMap.mp (exists_askedFor_iff.mp ⟨_, hasked⟩)
    exact absurd (List.mem_map_of_mem hmem) (hseparate.2 action haction _ htopic)
  | none =>
    refine ⟨⟨topic, ⟨backend, hasked⟩, (hplain (hactions topic backend hasked) topic).mpr rfl⟩, ?_⟩
    rintro other ⟨otherBackend, hother⟩ hmatch
    obtain rfl := (hplain (hactions other otherBackend hother) topic).mp hmatch
    exact fun _ hbackend => hbackend

/-! ### The union -/

/-- **When every topic gets the union of its backends**: for `record` in the options of
subscriptions and for `playback` in those of publishers, in whatever order the actions are listed
and the hash maps yield their topics, exactly when no two enabled actions of one method share a
topic, no topic of theirs has an option already, every backend has a known name, and no topic is
hidden by an expression. -/
theorem unionPerTopic_iff (rest : String → Option (String → Bool)) (cfg : AimRTConfig)
    (actions : List Action) :
    (∀ actions', actions'.Perm actions → ∀ hash : HashOrder (String × List Ch),
      UnionPerTopic rest actions' "record"
          (recordPlaybackSetting hash cfg actions').subTopicsOptions ∧
        UnionPerTopic rest actions' "playback"
          (recordPlaybackSetting hash cfg actions').pubTopicsOptions) ↔
      UnionCondition rest cfg actions "record" ∧ UnionCondition rest cfg actions "playback" := by
  have hrecord : ∀ hash actions', (recordPlaybackSetting hash cfg actions').subTopicsOptions =
      topicOptions "record" cfg ++ actions'.flatMap (added hash "record") := fun hash actions' =>
    topicOptions_recordPlaybackSetting hash (.inl rfl) cfg actions'
  have hplayback : ∀ hash actions', (recordPlaybackSetting hash cfg actions').pubTopicsOptions =
      topicOptions "playback" cfg ++ actions'.flatMap (added hash "playback") :=
    fun hash actions' => topicOptions_recordPlaybackSetting hash (.inr rfl) cfg actions'
  simp only [hrecord, hplayback]
  constructor
  · intro h
    exact ⟨unionCondition_of_unionPerTopic fun actions' hperm hash => (h actions' hperm hash).1,
      unionCondition_of_unionPerTopic fun actions' hperm hash => (h actions' hperm hash).2⟩
  · rintro ⟨hrecord, hplayback⟩ actions' hperm hash
    exact ⟨(hrecord.perm hperm).unionPerTopic hash, (hplayback.perm hperm).unionPerTopic hash⟩

/-- Record actions for two topics. -/
def separateActions : List Action :=
  [("/camera", ["mqtt", "ros2"]), ("/lidar", ["zenoh"])].map fun entry =>
    { isEnable := true, method := "record", backendAndTopics := [entry]
      distinct := List.nodup_singleton _ }

theorem askedFor_separateActions {method topic backend : String} :
    AskedFor separateActions method topic backend ↔ "record" = method ∧
      (topic = "/camera" ∧ (backend = "mqtt" ∨ backend = "ros2") ∨
        topic = "/lidar" ∧ backend = "zenoh") := by
  simp [AskedFor, separateActions]
  grind

theorem unionPerTopic_iff_sample : ∀ actions', actions'.Perm separateActions →
    ∀ hash : HashOrder (String × List Ch),
      UnionPerTopic (fun _ => none) actions' "record"
          (recordPlaybackSetting hash {} actions').subTopicsOptions ∧
        UnionPerTopic (fun _ => none) actions' "playback"
          (recordPlaybackSetting hash {} actions').pubTopicsOptions := by
  have hcondition : ∀ method, Separate {} separateActions method →
      topicOptions method {} = [] → UnionCondition (fun _ => none) {} separateActions method := by
    intro method hseparate hnone
    refine ⟨hseparate, fun topic backend hasked => ?_, notHidden_of_plain hseparate ?_ ?_⟩
    · rcases (askedFor_separateActions.mp hasked).2 with ⟨-, rfl | rfl⟩ | ⟨-, rfl⟩ <;> decide
    · rw [hnone]
      exact fun o ho => nomatch ho
    · intro topic backend hasked
      have hplain : topic.toList.all fun c => Regex.isSyntax c = false := by
        rcases (askedFor_separateActions.mp hasked).2 with ⟨rfl, -⟩ | ⟨rfl, -⟩ <;> decide
      simpa using hplain
  exact (unionPerTopic_iff (fun _ => none) {} separateActions).mpr
    ⟨hcondition "record" (separate_iff.mpr (by decide +kernel)) rfl,
      hcondition "playback" (separate_iff.mpr (by decide +kernel)) rfl⟩

/-- A hash map that yields its entries in the order of their insertion. -/
def insertionOrder (α : Type*) : HashOrder α := ⟨id, List.Perm.refl⟩

/-- Two record actions with one topic, the one with the backend `mqtt` and the other with `ros2`. -/
def sharingActions : List Action :=
  ["mqtt", "ros2"].map fun backend =>
    { isEnable := true, method := "record", backendAndTopics := [("/camera", [backend])]
      distinct := List.nodup_singleton _ }

/-- The topic has two options, and the lookup finds the one of the first action only. -/
theorem sharingActions_lose_backend :
    AskedFor sharingActions "record" "/camera" "ros2" ∧
      Monitor.getBackendsByRules (Regex.regexMatch fun _ => none) "/camera"
        (rulesOf (recordPlaybackSetting (insertionOrder _) {} sharingActions).subTopicsOptions) =
          ["mqtt"] ∧
      ¬UnionPerTopic (fun _ => none) sharingActions "record"
        (recordPlaybackSetting (insertionOrder _) {} sharingActions).subTopicsOptions := by
  have hoptions : (recordPlaybackSetting (insertionOrder _) {} sharingActions).subTopicsOptions
      = [{ topicName := "/camera", enableBackends := [.mqtt] },
        { topicName := "/camera", enableBackends := [.ros2] }] := by
    decide +kernel
  rw [hoptions]
  refine ⟨?_, by decide +kernel, fun h => ?_⟩
  · exact ⟨_, List.mem_cons_of_mem _ (List.mem_singleton_self _), rfl, rfl, ["ros2"],
      List.mem_singleton_self _, List.mem_singleton_self _⟩
  · obtain ⟨o, ho, -⟩ := h.entry "/camera" "mqtt" ⟨_, List.mem_cons_self, rfl, rfl, ["mqtt"],
      List.mem_singleton_self _, List.mem_singleton_self _⟩
    simp at ho

end AimrtComm.RecordPlayback
