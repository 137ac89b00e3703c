import AimrtComm.Lib.FoldExcept
import AimrtComm.RecordPlayback.Equiv.Setting
import AimrtComm.RecordPlayback.ParseCmd
import AimrtComm.RecordPlayback.Switch
import Mathlib.Data.List.TakeDrop
import Mathlib.Data.List.TakeWhile

/-!
## From the yaml of the actions to the channels and the plugin

An action's yaml asks for a topic over a backend by an entry `backend:topic` (`Asks`), where the
backend may name an environment variable.  `ParseAction` turns the entries into exactly these pairs,
whatever their order and however often they are given (`ParsedAs`), unless one of them is no text:
then the action has no topics at all.  So after `RecordPlaybackSetting` the options of the topics
enable exactly what the enabled actions ask for, besides what was enabled before
(`channels_of_loadConfig`), and the plugin is given exactly the topics asked for whose type is known
(`recorded_of_loadConfig`).

`switch_parseAction` says that what the recording switches start from is what is read here.
-/

namespace AimrtComm.RecordPlayback.ParseCmd

open Cfg Yaml

/-! ### Entries -/

/-- The text asks for the topic over the backend, which has a name before the first colon. -/
def IsEntry (env : String → Option String) (text topic backend : String) : Prop :=
  ∃ name : List Char, text.toList = name ++ ':' :: topic.toList ∧ ':' ∉ name ∧
    backend = toLower (getEnv env (String.ofList name)) ∧ backend ≠ "" ∧ topic ≠ ""

/-- The first colon of a text that has one. -/
theorem span_colon {name rest : List Char} (hname : ':' ∉ name) :
    (name ++ ':' :: rest).span (· ≠ ':') = (name, ':' :: rest) := by
  have hall : ∀ c ∈ name, decide (c ≠ ':') = true := by
    intro c hc
    apply decide_eq_true
    rintro rfl
    exact hname hc
  rw [List.span_eq_takeWhile_dropWhile, List.takeWhile_append_of_pos hall,
    List.dropWhile_append_of_pos hall]
  simp

theorem parseTopicNode_eq_some_iff {env : String → Option String} {text topic backend : String} :
    parseTopicNode env text = some (topic, backend) ↔ IsEntry env text topic backend := by
  constructor
  · intro h
    have hjoin := List.takeWhile_append_dropWhile (p := (· ≠ ':')) (l := text.toList)
    unfold parseTopicNode at h
    rw [List.span_eq_takeWhile_dropWhile] at h
    cases hrest : text.toList.dropWhile (· ≠ ':') with
    | nil =>
      rw [hrest] at h
      cases h
    | cons colon rest =>
      have hcolon : colon = ':' := by
        have hhead := List.head?_dropWhile_not (· ≠ ':') text.toList
        rw [hrest] at hhead
        simpa using hhead
      subst hcolon
      rw [hrest] at h hjoin
      dsimp only at h
      split_ifs at h with hne
      obtain ⟨rfl, rfl⟩ := Prod.mk.inj (Option.some.inj h)
      refine ⟨_, by rw [String.toList_ofList]; exact hjoin.symm, ?_, rfl, hne.1, ?_⟩
      · intro hmem
        simpa using List.mem_takeWhile_imp hmem
      · intro htopic
        exact hne.2 (by simpa using congrArg String.toList htopic)
  · rintro ⟨name, htext, hname, rfl, hbackend, htopic⟩
    have htopic' : topic.toList ≠ [] := by
      intro h
      exact htopic (String.toList_injective (by simpa using h))
    unfold parseTopicNode
    rw [htext, span_colon hname]
    dsimp only
    rw [if_pos ⟨hbackend, htopic'⟩, String.ofList_toList]

/-! ### Sequences of texts -/

/-- Iterating over the node yields texts or nothing. -/
def Readable (node : Yaml) : Prop :=
  node.fields = [] ∧ ∀ item ∈ node.items, ∃ text, item.asString = .ok text

/-- Iterating over the node yields the text. -/
def Lists (node : Yaml) (text : String) : Prop := ∃ item ∈ node.items, item.asString = .ok text

theorem parseCacheTopics_spec (node : Yaml) :
    (∃ cache, parseCacheTopics node = .ok cache ∧ Readable node ∧
        ∀ text, text ∈ cache ↔ Lists node text) ∨
      (∃ e, parseCacheTopics node = .error e) ∧ ¬Readable node := by
  have hread : ∀ items, iterate node = .ok items → node.fields = [] → node.items = items →
      (∃ cache, parseCacheTopics node = .ok cache ∧ Readable node ∧
        ∀ text, text ∈ cache ↔ Lists node text) ∨
      (∃ e, parseCacheTopics node = .error e) ∧ ¬Readable node := by
    intro items hiterate hfields hitems
    have heq : parseCacheTopics node = items.mapM asString := by
      rw [parseCacheTopics, hiterate]
      rfl
    rw [heq]
    cases hmap : items.mapM asString with
    | ok cache =>
      obtain ⟨hall, hmem⟩ := mem_of_mapM hmap
      exact Or.inl ⟨cache, rfl, ⟨hfields, hitems ▸ hall⟩, fun text => by rw [Lists, hitems, hmem]⟩
    | error e =>
      obtain ⟨item, hitem, he⟩ := exists_of_mapM hmap
      refine Or.inr ⟨⟨e, rfl⟩, fun h => ?_⟩
      obtain ⟨text, htext⟩ := h.2 item (hitems ▸ hitem)
      rw [he] at htext
      cases htext
  cases node with
  | undefined => exact hread [] rfl rfl rfl
  | null => exact hread [] rfl rfl rfl
  | scalar t s => exact hread [] rfl rfl rfl
  | seq t xs => exact hread xs rfl rfl rfl
  | map t fs =>
    by_cases hfields : (Yaml.map t fs).fields = []
    · exact hread [] (by rw [iterate, if_pos hfields]) hfields rfl
    · refine Or.inr ⟨⟨.invalidNode, ?_⟩, fun h => hfields h.1⟩
      rw [parseCacheTopics, iterate, if_neg hfields]
      rfl

/-! ### Topics -/

/-- The backend is in the set of the topic. -/
def BackendAndTopics.Has (map : BackendAndTopics) (topic backend : String) : Prop :=
  backend ∈ Assoc.get [] topic map.entries

theorem has_insert {map : BackendAndTopics} {topic backend t b : String} :
    (map.insert t b).Has topic backend ↔ (topic = t ∧ backend = b) ∨ map.Has topic backend := by
  unfold BackendAndTopics.Has BackendAndTopics.insert
  by_cases hne : topic = t
  · subst hne
    rw [Assoc.get_upsert_self, mem_insertSet]
    simp
  · rw [Assoc.get_upsert_of_ne hne]
    simp [hne]

/-- The topics of the hash map are those with a backend. -/
theorem BackendAndTopics.mem_keys_iff {map : BackendAndTopics} {topic : String} :
    topic ∈ Assoc.keys map.entries ↔ ∃ backend, map.Has topic backend := by
  constructor
  · intro h
    exact List.exists_mem_of_ne_nil _ (map.inhabited topic h)
  · rintro ⟨backend, h⟩
    by_contra hnew
    rw [BackendAndTopics.Has, Assoc.get_of_not_mem hnew] at h
    cases h

theorem BackendAndTopics.has_iff {map : BackendAndTopics} {topic backend : String} :
    map.Has topic backend ↔ ∃ backends, (topic, backends) ∈ map.entries ∧ backend ∈ backends := by
  constructor
  · intro h
    obtain ⟨entry, hentry, rfl⟩ := List.mem_map.mp (map.mem_keys_iff.mpr ⟨backend, h⟩)
    rw [BackendAndTopics.Has, Assoc.get_of_mem map.distinct hentry] at h
    exact ⟨entry.2, hentry, h⟩
  · rintro ⟨backends, hentry, hbackend⟩
    rwa [BackendAndTopics.Has, Assoc.get_of_mem map.distinct hentry]

/-- The texts are added one by one. -/
theorem has_foldl {env : String → Option String} {texts : List String} {map : BackendAndTopics}
    {topic backend : String} :
    (texts.foldl (fun map text =>
        match parseTopicNode env text with
        | some (topic, backend) => map.insert topic backend
        | none => map) map).Has topic backend ↔
      map.Has topic backend ∨ ∃ text ∈ texts, IsEntry env text topic backend := by
  induction texts generalizing map with
  | nil => simp
  | cons text texts ih =>
    rw [List.foldl_cons, ih, List.exists_mem_cons_iff, ← parseTopicNode_eq_some_iff]
    cases hnode : parseTopicNode env text with
    | none => simp
    | some entry =>
      obtain ⟨t, b⟩ := entry
      dsimp only
      rw [has_insert, Option.some.injEq, Prod.mk.injEq, eq_comm (a := t), eq_comm (a := b)]
      tauto

theorem parseBackendAndTopics_eq (env : String → Option String) (items : List Yaml) :
    parseBackendAndTopics env items = (items.mapM asString).map fun texts =>
      texts.foldl (fun map text =>
        match parseTopicNode env text with
        | some (topic, backend) => map.insert topic backend
        | none => map) {} := by
  rw [← foldlM_read]
  unfold parseBackendAndTopics
  apply foldlM_congr (I := fun _ => True) trivial
  · intro item _ map _
    cases item.asString with
    | error e => rfl
    | ok text =>
      show (match parseTopicNode env text with
        | some (topic, backend) => pure (map.insert topic backend)
        | none => pure map) = pure _
      cases parseTopicNode env text <;> rfl
  · intros
    trivial

/-- What the elements ask for, unless one of them is no text. -/
theorem parseBackendAndTopics_spec (env : String → Option String) (items : List Yaml) :
    (∃ map, parseBackendAndTopics env items = .ok map ∧
        (∀ item ∈ items, ∃ text, item.asString = .ok text) ∧
        ∀ topic backend, map.Has topic backend ↔
          ∃ text, (∃ item ∈ items, item.asString = .ok text) ∧ IsEntry env text topic backend) ∨
      (∃ e, parseBackendAndTopics env items = .error e) ∧
        ¬∀ item ∈ items, ∃ text, item.asString = .ok text := by
  rw [parseBackendAndTopics_eq]
  cases hmap : items.mapM asString with
  | ok texts =>
    obtain ⟨hall, hmem⟩ := mem_of_mapM hmap
    refine Or.inl ⟨_, rfl, hall, fun topic backend => ?_⟩
    rw [has_foldl]
    simp [BackendAndTopics.Has, Assoc.get, hmem]
  | error e =>
    obtain ⟨item, hitem, he⟩ := exists_of_mapM hmap
    refine Or.inr ⟨⟨e, rfl⟩, fun h => ?_⟩
    obtain ⟨text, htext⟩ := h item hitem
    rw [he] at htext
    cases htext

/-! ### What an action asks for -/

/-- The action's yaml asks for the topic over the backend. -/
def Asks (env : String → Option String) (action : Yaml) (topic backend : String) : Prop :=
  Readable (action.child "topics") ∧
    ∃ text, Lists (action.child "topics") text ∧ IsEntry env text topic backend

/-- The fields that `ParseAction` assigns before it reads the topics. -/
structure OwnFields (reader : Reader) (action : Yaml) (act : Action) : Prop where
  actionName : act.actionName = (action.child "action_name").asStringOr ""
  method : act.method = (action.child "method").asStringOr ""
  isEnable : act.isEnable = (reader.asBool (action.child "is_enable")).getD false
  recordEnabled : act.recordEnabled = (reader.asBool (action.child "record_enabled")).getD true
  recordEnabledNow :
    act.recordEnabledNow = (reader.asBool (action.child "record_enabled")).getD false

/-- The plugin is to record the topic for the action: it is asked for over some backend, its type is
known, and the list of the topics to cache, which says whether it is one, can be read. -/
structure Wanted (reader : Reader) (topicMap : List (String × String)) (action : Yaml)
    (topic : TopicMetaList) : Prop where
  asked : ∃ backend, Asks reader.env action topic.topicName backend
  type : topicMap.lookup topic.topicName = some topic.msgType
  readable : Readable (action.child "cache_last_msg_topics")
  cache : topic.cacheLastMsg = true ↔ Lists (action.child "cache_last_msg_topics") topic.topicName
  enabled : topic.recordEnabled = true
  serialization : topic.serializationType = ""

/-- What `RecordPlaybackSetting` makes of a topic of an action. -/
def toTopicMetaList (topic : TopicMeta) : TopicMetaList where
  topicName := topic.topicName
  msgType := topic.msgType
  recordEnabled := topic.recordEnabled
  cacheLastMsg := topic.cacheLastMsg

/-- The action is read off the yaml. -/
structure ParsedAs (reader : Reader) (topicMap : List (String × String)) (action : Yaml)
    (act : Action) : Prop extends OwnFields reader action act where
  backends : ∀ topic backend,
    act.backendAndTopics.Has topic backend ↔ Asks reader.env action topic backend
  distinct : (act.topicList.map TopicMeta.topicName).Nodup
  topics : ∀ topic, topic ∈ act.topicList.map toTopicMetaList ↔ Wanted reader topicMap action topic

/-! ### Reading an action -/

theorem mem_parseTopicLists {hash : HashOrder (String × List String)}
    {topicMap : List (String × String)} {map : BackendAndTopics} {cache : List String}
    {topic : TopicMetaList} :
    topic ∈ (parseTopicLists hash topicMap map cache).map toTopicMetaList ↔
      (∃ backend, map.Has topic.topicName backend) ∧
        topicMap.lookup topic.topicName = some topic.msgType ∧
        (topic.cacheLastMsg = true ↔ topic.topicName ∈ cache) ∧
        topic.recordEnabled = true ∧ topic.serializationType = "" := by
  rw [← map.mem_keys_iff]
  unfold parseTopicLists
  simp only [List.mem_map, List.mem_filterMap, (hash.perm _).mem_iff, Option.map_eq_some_iff]
  constructor
  · rintro ⟨_, ⟨entry, hentry, type, htype, rfl⟩, rfl⟩
    exact ⟨⟨entry, hentry, rfl⟩, htype, by simp [toTopicMetaList], rfl, rfl⟩
  · rintro ⟨⟨entry, hentry, hname⟩, htype, hcache, henabled, hserialization⟩
    refine ⟨_, ⟨entry, hentry, topic.msgType, hname ▸ htype, rfl⟩, ?_⟩
    have hcontains : cache.contains topic.topicName = topic.cacheLastMsg := by
      rw [Bool.eq_iff_iff, hcache, List.contains_iff_mem]
    rw [toTopicMetaList, hname, hcontains, ← henabled, ← hserialization]

theorem topicNames_sublist (topicMap : List (String × String)) (cache : List String)
    (entries : List (String × List String)) :
    ((entries.filterMap fun (topic, backends) => (topicMap.lookup topic).map fun msgType => ({
        topicName := topic, msgType, backend := backends
        cacheLastMsg := cache.contains topic } : TopicMeta)).map TopicMeta.topicName).Sublist
      (Assoc.keys entries) := by
  induction entries with
  | nil => exact List.Sublist.slnil
  | cons entry entries ih =>
    rw [List.filterMap_cons]
    cases hknown : topicMap.lookup entry.1 with
    | none => simpa [hknown] using ih.cons entry.1
    | some type => simpa [hknown] using ih

theorem nodup_parseTopicLists (hash : HashOrder (String × List String))
    (topicMap : List (String × String)) (map : BackendAndTopics) (cache : List String) :
    ((parseTopicLists hash topicMap map cache).map TopicMeta.topicName).Nodup :=
  ((((hash.perm _).map Prod.fst).nodup_iff).mpr map.distinct).sublist
    (topicNames_sublist topicMap cache _)

variable {reader : Reader} {topicMap : List (String × String)} {action : Yaml} {act : Action}

theorem OwnFields.update (h : OwnFields reader action act) (backendAndTopics : BackendAndTopics)
    (cacheLastMsgTopics : List String) (topicList : List TopicMeta) (extraFilePath : List String) :
    OwnFields reader action
      { act with backendAndTopics, cacheLastMsgTopics, topicList, extraFilePath } :=
  ⟨h.1, h.2, h.3, h.4, h.5⟩

/-- An action without topics for the plugin. -/
theorem parsedAs_of_unwanted (hown : OwnFields reader action act) (hlist : act.topicList = [])
    (hbackends : ∀ topic backend,
      act.backendAndTopics.Has topic backend ↔ Asks reader.env action topic backend)
    (hnone : ∀ topic, ¬Wanted reader topicMap action topic) :
    ParsedAs reader topicMap action act where
  toOwnFields := hown
  backends := hbackends
  distinct := by simp [hlist]
  topics topic := by simp [hlist, hnone]

/-- An action that has assigned no topics. -/
theorem parsedAs_of_unasked (hown : OwnFields reader action act)
    (hmap : act.backendAndTopics = {}) (hlist : act.topicList = [])
    (hnone : ∀ topic backend, ¬Asks reader.env action topic backend) :
    ParsedAs reader topicMap action act := by
  apply parsedAs_of_unwanted hown hlist
  · intro topic backend
    simp [hmap, BackendAndTopics.Has, Assoc.get, hnone]
  · intro topic h
    obtain ⟨backend, hasks⟩ := h.asked
    exact hnone _ _ hasks

theorem fields_of_isSequence {node : Yaml} (h : node.isSequence = true) : node.fields = [] := by
  cases node with
  | seq => rfl
  | _ => cases h

/-- The lists of an action, whatever of them can be read. -/
theorem parsedAs_parseLists (hown : OwnFields reader action act)
    (hmap : act.backendAndTopics = {}) (hlist : act.topicList = [])
    (hseq : (action.child "topics").isSequence = true) (extraFilePath : Yaml) :
    ParsedAs reader topicMap action (parseLists reader topicMap act (action.child "topics")
      (action.child "cache_last_msg_topics") extraFilePath) := by
  unfold parseLists
  rcases parseBackendAndTopics_spec reader.env (action.child "topics").items with
    ⟨map, hparse, hread, hhas⟩ | ⟨⟨e, herror⟩, hunread⟩
  · have hbackends : ∀ topic backend,
        map.Has topic backend ↔ Asks reader.env action topic backend := by
      intro topic backend
      rw [hhas, Asks, and_iff_right ⟨fields_of_isSequence hseq, hread⟩]
      rfl
    rw [hparse]
    rcases parseCacheTopics_spec (action.child "cache_last_msg_topics") with
      ⟨cache, hcache, hreadable, hmem⟩ | ⟨⟨e, herror⟩, hunreadable⟩
    · have htopics : ∀ topic, topic ∈
            (parseTopicLists reader.hash topicMap map cache).map toTopicMetaList ↔
          Wanted reader topicMap action topic := by
        intro topic
        rw [mem_parseTopicLists]
        simp only [hbackends, hmem]
        constructor
        · rintro ⟨hasked, htype, hc, henabled, hserialization⟩
          exact ⟨hasked, htype, hreadable, hc, henabled, hserialization⟩
        · rintro ⟨hasked, htype, -, hc, henabled, hserialization⟩
          exact ⟨hasked, htype, hc, henabled, hserialization⟩
      have hparsed : ParsedAs reader topicMap action { act with
          backendAndTopics := map, cacheLastMsgTopics := cache
          topicList := parseTopicLists reader.hash topicMap map cache } :=
        ⟨hown.update .., hbackends, nodup_parseTopicLists .., htopics⟩
      rw [hcache]
      dsimp only
      cases asStrings extraFilePath with
      | error e => exact hparsed
      | ok extra =>
        exact ⟨hown.update .., hparsed.backends, hparsed.distinct, hparsed.topics⟩
    · -- the exception keeps the topics for the channels, and the plugin gets none
      rw [herror]
      show ParsedAs reader topicMap action { act with backendAndTopics := map }
      apply parsedAs_of_unwanted (hown.update map _ _ _) hlist hbackends
      intro topic h
      exact hunreadable h.readable
  · rw [herror]
    apply parsedAs_of_unasked hown hmap hlist
    intro topic backend h
    exact hunread h.1.2

/-- The nodes that can have children. -/
theorem get_eq_child {node : Yaml} (h : ∀ tag text, node ≠ .scalar tag text) (key : String) :
    node.get key = .ok (node.child key) := by
  cases node with
  | scalar tag text => exact absurd rfl (h tag text)
  | _ => rfl

theorem parseOwnFields_spec (reader : Reader) (h : ∀ tag text, action ≠ .scalar tag text) :
    ∃ act, parseOwnFields reader action = .ok act ∧ OwnFields reader action act ∧
      act.backendAndTopics = {} ∧ act.topicList = [] := by
  cases action with
  | scalar tag text => exact absurd rfl (h tag text)
  | _ => exact ⟨_, rfl, ⟨rfl, rfl, rfl, rfl, rfl⟩, rfl, rfl⟩

theorem parsedAs_parseAction (reader : Reader) (topicMap : List (String × String))
    (h : ∀ tag text, action ≠ .scalar tag text) :
    ∃ act, parseAction reader topicMap action = .ok act ∧ ParsedAs reader topicMap action act := by
  obtain ⟨act, hact, hown, hmap, hlist⟩ := parseOwnFields_spec reader h
  unfold parseAction
  rw [hact, get_eq_child h, get_eq_child h, get_eq_child h]
  cases hseq : (action.child "topics").isSequence with
  | true =>
    refine ⟨_, ?_, parsedAs_parseLists hown hmap hlist hseq (action.child "extra_file_path")⟩
    simp [hseq, bind, Except.bind, pure, Except.pure]
  | false =>
    refine ⟨act, by simp [hseq, bind, Except.bind, pure, Except.pure], ?_⟩
    apply parsedAs_of_unasked hown hmap hlist
    rintro topic backend ⟨-, text, ⟨item, hitem, -⟩, -⟩
    -- only a sequence has elements
    cases htopics : action.child "topics" with
    | seq => simp [htopics, isSequence] at hseq
    | _ => simp [htopics, items] at hitem

theorem parseAction_scalar (tag text : String) :
    parseAction reader topicMap (.scalar tag text) = .error .badSubscript := rfl

/-- The yaml is that of an enabled action of the method. -/
def isOf (reader : Reader) (method : String) (action : Yaml) : Bool :=
  (reader.asBool (action.child "is_enable")).getD false &&
    (action.child "method").asStringOr "" = method

theorem ParsedAs.isOf_eq (h : ParsedAs reader topicMap action act) (method : String) :
    isOf reader method action = (act.isEnable && act.method = method) := by
  rw [isOf, h.isEnable, h.method]

/-- A scalar has no method. -/
theorem isOf_scalar {method : String} (hmethod : method ≠ "") (tag text : String) :
    isOf reader method (.scalar tag text) = false := by
  simp [isOf, child, asStringOr, asString, Ne.symm hmethod]

/-- The actions of a method come one by one from the nodes of the method. -/
theorem forall₂_parseActions (nodes : List Yaml) {method : String} (hmethod : method ≠ "") :
    List.Forall₂ (ParsedAs reader topicMap) (nodes.filter (isOf reader method))
      ((parseActions reader topicMap nodes).filter fun act =>
        act.isEnable && act.method = method) := by
  induction nodes with
  | nil => exact List.Forall₂.nil
  | cons node nodes ih =>
    unfold parseActions
    rw [List.filterMap_cons]
    by_cases hscalar : ∃ tag text, node = .scalar tag text
    · obtain ⟨tag, text, rfl⟩ := hscalar
      rw [parseAction_scalar, List.filter_cons_of_neg (by simp [isOf_scalar hmethod])]
      exact ih
    · push Not at hscalar
      obtain ⟨act, hparse, hact⟩ := parsedAs_parseAction reader topicMap hscalar
      rw [hparse]
      show List.Forall₂ _ _ ((act :: parseActions reader topicMap nodes).filter _)
      rw [List.filter_cons, List.filter_cons, hact.isOf_eq]
      split_ifs
      · exact List.Forall₂.cons hact ih
      · exact ih

theorem actions_of_loadConfig {node : Yaml} {soc : SocCfg}
    (h : loadConfig reader topicMap node = .ok soc) :
    soc.actions = parseActions reader topicMap (node.child "actions").items := by
  cases node with
  | scalar => cases h
  | _ =>
    obtain rfl := Except.ok.inj h
    rfl

/-! ### The channels -/

/-- An option of the topic enables the channel. -/
def Enabled (options : List PubOption) (topic : String) (ch : Ch) : Prop :=
  ∃ o ∈ options, o.topicName = topic ∧ ch ∈ o.enableBackends

theorem ParsedAs.asked_iff (h : ParsedAs reader topicMap action act)
    {hash : HashOrder (String × List String)} {topic : String} {ch : Ch} :
    (∃ backends, (topic, backends) ∈ (act.setting hash).backendAndTopics ∧
        ∃ backend ∈ backends, transfer backend = ch) ↔
      ∃ backend, Asks reader.env action topic backend ∧ transfer backend = ch := by
  simp only [Action.setting, (hash.perm _).mem_iff, ← h.backends, BackendAndTopics.has_iff]
  constructor
  · rintro ⟨backends, hentry, backend, hbackend, hch⟩
    exact ⟨backend, ⟨backends, hentry, hbackend⟩, hch⟩
  · rintro ⟨backend, ⟨backends, hentry, hbackend⟩, hch⟩
    exact ⟨backends, hentry, backend, hbackend, hch⟩

theorem exists_of_forall₂ {α β : Type*} {r : α → β → Prop} {as : List α} {bs : List β}
    (h : List.Forall₂ r as bs) {b : β} (hb : b ∈ bs) : ∃ a ∈ as, r a b := by
  induction h with
  | nil => cases hb
  | cons hab _ ih =>
    rcases List.mem_cons.mp hb with rfl | hb
    · exact ⟨_, List.mem_cons_self, hab⟩
    · obtain ⟨a, ha, hr⟩ := ih hb
      exact ⟨a, List.mem_cons_of_mem _ ha, hr⟩

theorem forall₂_exists_iff {α β : Type*} {r : α → β → Prop} {p : α → Prop} {q : β → Prop}
    (hpq : ∀ a b, r a b → (p a ↔ q b)) {as : List α} {bs : List β} (h : List.Forall₂ r as bs) :
    (∃ a ∈ as, p a) ↔ ∃ b ∈ bs, q b := by
  constructor
  · rintro ⟨a, ha, hp⟩
    obtain ⟨b, hb, hr⟩ := exists_of_forall₂ (r := flip r) h.flip ha
    exact ⟨b, hb, (hpq a b hr).mp hp⟩
  · rintro ⟨b, hb, hq⟩
    obtain ⟨a, ha, hr⟩ := exists_of_forall₂ h hb
    exact ⟨a, ha, (hpq a b hr).mpr hq⟩

/-- What `RecordPlaybackSetting` hands to the channels asks for what the yaml does. -/
theorem asked_setting_iff (topicMap : List (String × String))
    (hash : HashOrder (String × List String)) (nodes : List Yaml) {method topic : String}
    (hmethod : method ≠ "") {ch : Ch} :
    Asked ((parseActions reader topicMap nodes).map (Action.setting hash)) method topic ch ↔
      ∃ action ∈ nodes, isOf reader method action = true ∧
        ∃ backend, Asks reader.env action topic backend ∧ transfer backend = ch := by
  have h : (∃ action ∈ nodes.filter (isOf reader method),
        ∃ backend, Asks reader.env action topic backend ∧ transfer backend = ch) ↔
      ∃ act ∈ (parseActions reader topicMap nodes).filter
          (fun act => act.isEnable && act.method = method),
        ∃ backends, (topic, backends) ∈ (act.setting hash).backendAndTopics ∧
          ∃ backend ∈ backends, transfer backend = ch :=
    forall₂_exists_iff (fun _ _ hact => hact.asked_iff.symm) (forall₂_parseActions nodes hmethod)
  simp only [List.mem_filter, and_assoc, Bool.and_eq_true, decide_eq_true_eq] at h
  rw [h]
  simp only [Asked, List.mem_map, exists_exists_and_eq_and]
  rfl

theorem method_ne_empty {method : String} (h : method = "record" ∨ method = "playback") :
    method ≠ "" := by
  rcases h with rfl | rfl <;> decide

/-- The channels that are enabled after `RecordPlaybackSetting`. -/
theorem enabled_iff {node : Yaml} {soc : SocCfg} (h : loadConfig reader topicMap node = .ok soc)
    (hash : HashOrder (String × List Ch)) (cfg : AimRTConfig) {method : String}
    (hmethod : method = "record" ∨ method = "playback") (topic : String) (ch : Ch) :
    Enabled (topicOptions method (recordPlaybackSetting hash cfg
        (soc.actions.map (Action.setting reader.hash)))) topic ch ↔
      Enabled (topicOptions method cfg) topic ch ∨
        ∃ action ∈ (node.child "actions").items, isOf reader method action = true ∧
          ∃ backend, Asks reader.env action topic backend ∧ transfer backend = ch := by
  rw [topicOptions_recordPlaybackSetting hash hmethod, actions_of_loadConfig h,
    ← asked_setting_iff topicMap reader.hash _ (method_ne_empty hmethod),
    RecordPlayback.asked_iff hash]
  simp only [Enabled, List.mem_append, or_and_right, exists_or]

/-- **What the channels are set up for**: whatever the document of the actions is, after
`RecordPlaybackSetting` the options of subscriptions (for `record`) and of publishers (for
`playback`) enable a channel for a topic exactly when they did before or an enabled action of the
method asks for the topic over a backend of the channel. -/
theorem channels_of_loadConfig (reader : Reader) (topicMap : List (String × String)) (node : Yaml)
    (soc : SocCfg) (h : loadConfig reader topicMap node = .ok soc)
    (hash : HashOrder (String × List Ch)) (cfg : AimRTConfig) (topic : String) (ch : Ch) :
    (Enabled (recordPlaybackSetting hash cfg
          (soc.actions.map (Action.setting reader.hash))).subTopicsOptions topic ch ↔
        Enabled cfg.subTopicsOptions topic ch ∨
          ∃ action ∈ (node.child "actions").items, isOf reader "record" action = true ∧
            ∃ backend, Asks reader.env action topic backend ∧ transfer backend = ch) ∧
      (Enabled (recordPlaybackSetting hash cfg
          (soc.actions.map (Action.setting reader.hash))).pubTopicsOptions topic ch ↔
        Enabled cfg.pubTopicsOptions topic ch ∨
          ∃ action ∈ (node.child "actions").items, isOf reader "playback" action = true ∧
            ∃ backend, Asks reader.env action topic backend ∧ transfer backend = ch) :=
  ⟨enabled_iff h hash cfg (Or.inl rfl) topic ch, enabled_iff h hash cfg (Or.inr rfl) topic ch⟩

/-- Truth values are the texts `true` and `false`, and one environment variable is set. -/
def sampleReader : Reader where
  asBool
    | .scalar _ "true" => some true
    | .scalar _ "false" => some false
    | _ => none
  asUint32 _ := none
  asInt32 _ := none
  env name := if name = "TRANSPORT" then some "ROS2" else none
  isDirectory _ := false
  loadFile _ := none
  hash := insertionOrder _

/-- A record action for two topics, one of them over the backend that the environment names. -/
def sampleAction : Yaml :=
  .map "" [("action_name", .scalar "" "drive"), ("method", .scalar "" "record"),
    ("is_enable", .scalar "" "true"),
    ("topics", .seq "" [.scalar "" "$TRANSPORT:/camera", .scalar "" "mqtt:/pose"]),
    ("cache_last_msg_topics", .seq "" [.scalar "" "/camera"])]

/-- The document with the action. -/
def sampleDocument : Yaml := .map "" [("actions", .seq "" [sampleAction])]

theorem asks_sampleAction : Asks sampleReader.env sampleAction "/camera" "ros2" := by
  refine ⟨⟨rfl, ?_⟩, "$TRANSPORT:/camera", ⟨_, List.mem_cons_self, rfl⟩, "$TRANSPORT".toList, ?_⟩
  · simp [sampleAction, child, Assoc.get, items, asString]
  · decide +kernel

theorem channels_of_loadConfig_sample : ∃ soc,
    loadConfig sampleReader [] sampleDocument = .ok soc ∧
      Enabled (recordPlaybackSetting (insertionOrder _) {}
        (soc.actions.map (Action.setting (insertionOrder _)))).subTopicsOptions "/camera" .ros2 :=
  ⟨_, rfl, (channels_of_loadConfig sampleReader [] sampleDocument _ rfl (insertionOrder _) {}
    "/camera" .ros2).1.mpr (Or.inr ⟨sampleAction, List.mem_cons_self, by decide +kernel, "ros2",
      asks_sampleAction, by decide +kernel⟩)⟩

/-! ### The plugin -/

/-- The plugin's record action is that of the yaml. -/
structure RecordedAs (reader : Reader) (topicMap : List (String × String)) (action : Yaml)
    (record : RecordActions) : Prop where
  name : record.name = (action.child "action_name").asStringOr ""
  recordEnabled : record.recordEnabled = (reader.asBool (action.child "record_enabled")).getD true
  distinct : (record.topicMetaList.map TopicMetaList.topicName).Nodup
  topics : ∀ topic, topic ∈ record.topicMetaList ↔ Wanted reader topicMap action topic

theorem ParsedAs.recordedAs (h : ParsedAs reader topicMap action act) (soc : SocCfg) :
    RecordedAs reader topicMap action (toRecordActions soc act) where
  name := h.actionName
  recordEnabled := h.recordEnabled
  distinct := by
    show ((act.topicList.map toTopicMetaList).map TopicMetaList.topicName).Nodup
    rw [List.map_map]
    exact h.distinct
  topics := h.topics

/-- **What the plugin records**: whatever the document of the actions is, the plugin has a record
action for each enabled one, in their order, with exactly the topics asked for whose type is known;
and each of them is subscribed over some channel. -/
theorem recorded_of_loadConfig (reader : Reader) (topicMap : List (String × String)) (node : Yaml)
    (soc : SocCfg) (h : loadConfig reader topicMap node = .ok soc) :
    List.Forall₂ (RecordedAs reader topicMap)
        ((node.child "actions").items.filter (isOf reader "record")) (recordActionses soc) ∧
      ∀ (hash : HashOrder (String × List Ch)) (cfg : AimRTConfig),
        ∀ record ∈ recordActionses soc, ∀ topic ∈ record.topicMetaList,
          ∃ ch, Enabled
            (recordPlaybackSetting hash cfg
              (soc.actions.map (Action.setting reader.hash))).subTopicsOptions
            topic.topicName ch := by
  have hall : List.Forall₂ (RecordedAs reader topicMap)
      ((node.child "actions").items.filter (isOf reader "record")) (recordActionses soc) := by
    unfold recordActionses
    rw [actions_of_loadConfig h, List.forall₂_map_right_iff]
    exact (forall₂_parseActions _ (by decide)).imp fun _ _ hact => hact.recordedAs soc
  refine ⟨hall, fun hash cfg record hrecord topic htopic => ?_⟩
  obtain ⟨action, haction, hrecorded⟩ := exists_of_forall₂ hall hrecord
  obtain ⟨backend, hasks⟩ := ((hrecorded.topics topic).mp htopic).asked
  obtain ⟨hnode, hof⟩ := List.mem_filter.mp haction
  exact ⟨transfer backend, (enabled_iff h hash cfg (Or.inl rfl) _ _).mpr
    (Or.inr ⟨action, hnode, hof, backend, hasks, rfl⟩)⟩

theorem recorded_of_loadConfig_sample : ∃ soc,
    loadConfig sampleReader [("/camera", "Image")] sampleDocument = .ok soc ∧
      ∃ record, recordActionses soc = [record] ∧ record.name = "drive" ∧
        { topicName := "/camera", msgType := "Image", recordEnabled := true, cacheLastMsg := true }
          ∈ record.topicMetaList := by
  refine ⟨_, rfl, ?_⟩
  have h := (recorded_of_loadConfig sampleReader [("/camera", "Image")] sampleDocument _ rfl).1
  have hnodes : (sampleDocument.child "actions").items.filter (isOf sampleReader "record")
      = [sampleAction] := by
    decide +kernel
  rw [hnodes, List.forall₂_cons_left_iff] at h
  obtain ⟨record, rest, hrecord, hrest, heq⟩ := h
  rw [List.forall₂_nil_left_iff] at hrest
  refine ⟨record, by rw [heq, hrest], hrecord.name, (hrecord.topics _).mpr ?_⟩
  refine ⟨⟨"ros2", asks_sampleAction⟩, rfl, ⟨rfl, ?_⟩, ?_, rfl, rfl⟩
  · simp [sampleAction, child, Assoc.get, items, asString]
  · simp [Lists, sampleAction, child, Assoc.get, items, asString]

/-! ### The switches -/

/-- The fields that the switch of the action depends on. -/
def Action.switch (action : Action) : SwitchAction where
  actionName := action.actionName
  method := action.method
  isEnable := action.isEnable
  recordEnabled := action.recordEnabled
  recordEnabledNow := action.recordEnabledNow

/-- What the switches start from is what is read here, and the same actions are skipped. -/
theorem switch_parseAction (reader : Reader) (topicMap : List (String × String)) (action : Yaml) :
    (parseAction reader topicMap action).map Action.switch
      = RecordPlayback.parseAction reader.asBool action := by
  by_cases hscalar : ∃ tag text, action = .scalar tag text
  · obtain ⟨tag, text, rfl⟩ := hscalar
    rfl
  · push Not at hscalar
    obtain ⟨act, hparse, hact⟩ := parsedAs_parseAction reader topicMap hscalar
    unfold RecordPlayback.parseAction
    rw [hparse]
    simp only [get_eq_child hscalar]
    show Except.ok act.switch = Except.ok _
    rw [Action.switch, hact.actionName, hact.method, hact.isEnable, hact.recordEnabled,
      hact.recordEnabledNow]

/-- The actions of the switches are those loaded here. -/
theorem switch_parseActions (reader : Reader) (topicMap : List (String × String))
    (nodes : List Yaml) :
    (parseActions reader topicMap nodes).map Action.switch
      = loadActions reader.asBool nodes := by
  unfold parseActions loadActions
  rw [List.map_filterMap]
  apply List.filterMap_congr
  intro node _
  rw [← switch_parseAction reader topicMap node]
  cases parseAction reader topicMap node <;> rfl

/-- The plugin starts with the switches that its record actions have. -/
theorem plugin_switchSystem (soc : SocCfg) :
    (switchSystem (soc.actions.map Action.switch)).init.plugin
      = (recordActionses soc).map fun record => (record.name, record.recordEnabled) := by
  show RecordPlayback.recordActionses (soc.actions.map Action.switch) = _
  unfold RecordPlayback.recordActionses recordActionses
  rw [List.filter_map, List.map_map, List.map_map]
  rfl

/-! ### The types of the topics -/

/-- What is known before stays first, so that the first type of a topic counts. -/
theorem prefix_parseTopicYaml (metaList : List Yaml) (topicMap : List (String × String)) :
    topicMap <+: parseTopicYaml metaList topicMap := by
  fun_induction parseTopicYaml metaList topicMap with
  | case1 => exact List.prefix_rfl
  | case2 _ _ _ _ _ _ _ _ ih => exact ih
  | case3 _ _ topicMap _ _ _ _ _ topic type _ _ ih =>
    refine List.IsPrefix.trans ?_ ih
    unfold Assoc.ensure
    split_ifs
    · exact List.prefix_rfl
    · exact List.prefix_append _ _
  | case4 => exact List.prefix_rfl
  | case5 => exact List.prefix_rfl

/-- The element of the list gives the topic its type. -/
def Types (node : Yaml) (topic type : String) : Prop :=
  ∃ nameNode typeNode, node.get "topic_name" = .ok nameNode ∧ node.get "msg_type" = .ok typeNode ∧
    nameNode.asString = .ok topic ∧ typeNode.asString = .ok type

/-- The topics are distinct, and each has the type that an element gives it. -/
theorem parseTopicYaml_spec {metaList : List Yaml} {topicMap : List (String × String)}
    (hdistinct : (Assoc.keys topicMap).Nodup) :
    (Assoc.keys (parseTopicYaml metaList topicMap)).Nodup ∧
      ∀ entry ∈ parseTopicYaml metaList topicMap,
        entry ∈ topicMap ∨ ∃ node ∈ metaList, Types node entry.1 entry.2 := by
  fun_induction parseTopicYaml metaList topicMap with
  | case1 => exact ⟨hdistinct, fun _ => Or.inl⟩
  | case2 _ _ _ _ _ _ _ _ ih =>
    refine ⟨(ih hdistinct).1, fun entry hentry => ?_⟩
    rcases (ih hdistinct).2 entry hentry with hbefore | ⟨node, hnode, htypes⟩
    · exact Or.inl hbefore
    · exact Or.inr ⟨node, List.mem_cons_of_mem _ hnode, htypes⟩
  | case3 node metaList topicMap nameNode typeNode hmsg hname _ topic type htype htopic ih =>
    obtain ⟨hnodup, hmem⟩ := ih (Assoc.nodup_keys_ensure hdistinct)
    refine ⟨hnodup, fun entry hentry => ?_⟩
    rcases hmem entry hentry with hbefore | ⟨other, hother, htypes⟩
    · unfold Assoc.ensure at hbefore
      split_ifs at hbefore
      · exact Or.inl hbefore
      · rcases List.mem_append.mp hbefore with hbefore | hnew
        · exact Or.inl hbefore
        · rw [List.mem_singleton.mp hnew]
          exact Or.inr ⟨node, List.mem_cons_self, nameNode, typeNode, hname, hmsg, htopic, htype⟩
    · exact Or.inr ⟨other, List.mem_cons_of_mem _ hother, htypes⟩
  | case4 => exact ⟨hdistinct, fun _ => Or.inl⟩
  | case5 => exact ⟨hdistinct, fun _ => Or.inl⟩

/-! ### The bags to play -/

/-- What was joined is read back, apart from what is empty. -/
theorem getlines_intercalate {separator : Char} {parts : List String}
    (hparts : ∀ part ∈ parts, separator ∉ part.toList) :
    getlines ((String.singleton separator).intercalate parts) separator
      = parts.filter (· ≠ "") := by
  cases hne : parts with
  | nil => rfl
  | cons head tail =>
    rw [← hne]
    have hsplit : ((String.singleton separator).intercalate parts).toList.splitOn separator
        = parts.map String.toList := by
      rw [String.toList_intercalate, String.toList_singleton]
      apply List.splitOn_intercalate
      · simpa using hparts
      · simp [hne]
    rw [getlines, hsplit, List.filter_map, List.map_map]
    simp [Function.comp_def]

/-- The types that are joined by colons are read back. -/
theorem parseTypeSupport_intercalate {types : List String}
    (htypes : ∀ type ∈ types, ':' ∉ type.toList) :
    parseTypeSupport (":".intercalate types) = types.filter (· ≠ "") :=
  getlines_intercalate htypes

/-- Of the paths that are joined by commas, those of directories are played, in their order. -/
theorem bagPath_toPlaybackActions {paths : List String} (hpaths : ∀ path ∈ paths, ',' ∉ path.toList)
    (hjoin : act.playbackBagPath = ",".intercalate paths) :
    (toPlaybackActions reader act).map PlaybackActions.bagPath
      = ((paths.filter (· ≠ "")).map withSlash).filter reader.isDirectory := by
  unfold toPlaybackActions parsePlayback
  rw [hjoin, List.map_map]
  show ((((getlines ((String.singleton ',').intercalate paths) ',').map _).filter _).map id) = _
  rw [getlines_intercalate hpaths, List.map_id]

end AimrtComm.RecordPlayback.ParseCmd
