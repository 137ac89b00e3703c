import AimrtComm.Monitor.Equiv.Registry
import AimrtComm.Monitor.Equiv.Topics

/-!
# What the plugin knows

The statistics, the maps, the copies of a heartbeat and the heartbeats themselves are each behind
what they were made from, but never ahead of it (`Inv`), and no step takes anything back
(`inv_step`).
-/

namespace AimrtComm.Monitor

open Common Function TopicHzCalculator

variable {topic t : Common.TopicInfo} {currentTime : ℤ} {topics topics' : Topics}

/-! ### The plugin -/

namespace State

/-- The topic had a message. -/
def active (s : State) (side : Side) : Common.TopicInfo → Bool :=
  Active (s.topics side).hzCalculate

/-- The map that the next heartbeat is made from, as things stand. -/
def view (s : State) (side : Side) : Common.TopicInfo → TopicFrequencyStats :=
  match s.pc with
  | .readSub pubTopicHzMap =>
    match side with
    | .sub => (s.topics .sub).hzMap
    | .pub => pubTopicHzMap
  | .build hzMap => hzMap side
  | _ => (s.topics side).hzMap

end State

/-- A message of the topic has come in. -/
def Fed (events : List Event) (side : Side) (t : Common.TopicInfo) : Prop :=
  ∃ topicName msgType currentTime, hzTopic topicName msgType = t ∧
    .feed side topicName msgType currentTime ∈ events

/-- A collection has seen the topics that it goes on from, and forgets none. -/
structure Covers (s : State) (c : Collecting) : Prop where
  honest : Honest (s.active c.side) c.allStats
  covers : ∀ t, ((s.topics c.side).hzMap t).isActive = true →
    t ∈ c.rest ∨ (c.allStats t).isActive = true
  pub : c.side = .sub → ∀ t ∈ s.known .pub, t ∈ c.pubOrder

/-- Both heartbeats have the topic, and the first one calls it active only if the second one
does. -/
def Keeps (earlier later : Heartbeat) : Prop :=
  ∀ side, ∀ r ∈ earlier.topicInfo side, r.isActive = true →
    ∃ r' ∈ later.topicInfo side, r'.name = r.name ∧ r'.type = r.type ∧ r'.isActive = true

/-- The lists are those that the backend made when it started. -/
def Listed (o : Options) (events : List Event) (s : State) : Prop :=
  ∃ aimrtConfig publishTypes subscribes,
    .start aimrtConfig publishTypes subscribes ∈ events ∧
      channelStart o.regexMatch aimrtConfig publishTypes subscribes =
        .ok ((s.topics .sub).topicSet, (s.topics .pub).topicSet)

/-- What holds after events: every map is behind the one that it was made from. -/
structure Inv (o : Options) (events : List Event) (s : State) : Prop where
  sound : ∀ side, Sound (Fed events side) (s.topics side)
  view : ∀ side, Honest (s.active side) (s.view side) ∧ Le (s.view side) (s.topics side).hzMap
  collecting : ∀ c, s.collecting = some c → Covers s c
  sent : ∀ hb ∈ s.sent, ∃ hzMap : Side → Common.TopicInfo → TopicFrequencyStats,
    (hb.topicInfo = fun side =>
      (s.topics side).topicSet.map (State.topicReport (hzMap side))) ∧
    ∀ side, Honest (s.active side) (hzMap side) ∧ Le (hzMap side) (s.view side)
  keeps : s.sent.Pairwise fun later earlier => Keeps earlier later
  idle : s.posted = false → s.collecting = none ∧ s.sent = [] ∧ s.pc = .top
  posted : s.posted = true → (s.topics .sub).hzCalculate.step = .running
  started : ∀ side, (s.topics side).hzCalculate.step = .running →
    (∀ side, (s.topics side).hzCalculate.step = .running) ∧ Listed o events s

variable {o : Options} {events : List Event} {e : Event} {s s' : State} {side : Side}
  {c : Collecting}

theorem Fed.append (h : Fed events side t) (e : Event) : Fed (events ++ [e]) side t := by
  obtain ⟨topicName, msgType, time, ht, hmem⟩ := h
  exact ⟨topicName, msgType, time, ht, List.mem_append_left _ hmem⟩

theorem Listed.append (h : Listed o events s) (e : Event)
    (hset : ∀ side, (s'.topics side).topicSet = (s.topics side).topicSet) :
    Listed o (events ++ [e]) s' := by
  obtain ⟨aimrtConfig, publishTypes, subscribes, hmem, hstart⟩ := h
  refine ⟨aimrtConfig, publishTypes, subscribes, List.mem_append_left _ hmem, ?_⟩
  rw [hset, hset]
  exact hstart

/-- What a step adds to what is known, when the lists stay. -/
structure Grows (s s' : State) : Prop where
  topicSet : ∀ side, (s'.topics side).topicSet = (s.topics side).topicSet
  active : ∀ side t, s.active side t = true → s'.active side t = true
  map : ∀ side, Le (s.topics side).hzMap (s'.topics side).hzMap
  view : ∀ side, Le (s.view side) (s'.view side)

/-- The heartbeats that were sent stay behind. -/
theorem Inv.sent_of_grows (h : Inv o events s) (hg : Grows s s') :
    ∀ hb ∈ s.sent, ∃ hzMap : Side → Common.TopicInfo → TopicFrequencyStats,
      (hb.topicInfo = fun side =>
        (s'.topics side).topicSet.map (State.topicReport (hzMap side))) ∧
      ∀ side, Honest (s'.active side) (hzMap side) ∧ Le (hzMap side) (s'.view side) := by
  intro hb hhb
  obtain ⟨hzMap, hinfo, hle⟩ := h.sent hb hhb
  refine ⟨hzMap, ?_, fun side => ⟨(hle side).1.mono (hg.active side), ?_⟩⟩
  · rw [hinfo]
    funext side
    rw [hg.topicSet side]
  · exact (hle side).2.trans (hg.view side)

/-- A step that touches neither the topics nor the heartbeat. -/
theorem Inv.frame (h : Inv o events s) (htopics : s'.topics = s.topics) (hpc : s'.pc = s.pc)
    (hsent : s'.sent = s.sent) (hposted : s'.posted = s.posted)
    (hnone : s.posted = false → s'.collecting = none)
    (hcollecting : ∀ c, s'.collecting = some c → Covers s c) :
    Grows s s' ∧ Inv o (events ++ [e]) s' := by
  have hactive : s'.active = s.active := by
    funext side
    rw [State.active, State.active, htopics]
  have hview : s'.view = s.view := by
    funext side
    unfold State.view
    rw [htopics, hpc]
  have hg : Grows s s' := by
    refine ⟨fun side => ?_, fun side t ht => ?_, fun side => ?_, fun side => ?_⟩
    · rw [htopics]
    · rwa [hactive]
    · rw [htopics]
      exact Le.refl _
    · rw [hview]
      exact Le.refl _
  refine ⟨hg, fun side => ?_, fun side => ?_, fun c hc => ?_, ?_, ?_, ?_, ?_, ?_⟩
  · rw [htopics]
    exact (h.sound side).mono fun t ht => ht.append e
  · rw [hactive, hview, htopics]
    exact h.view side
  · have hcovers := hcollecting c hc
    refine ⟨?_, ?_, ?_⟩
    · rw [hactive]
      exact hcovers.honest
    · rw [htopics]
      exact hcovers.covers
    · rw [State.known, htopics]
      exact hcovers.pub
  · rw [hsent, hactive, hview, htopics]
    exact h.sent
  · rw [hsent]
    exact h.keeps
  · rw [hposted, hsent, hpc]
    exact fun hp => ⟨hnone hp, (h.idle hp).2⟩
  · rw [hposted, htopics]
    exact h.posted
  · rw [htopics]
    exact fun side hrun => ⟨(h.started side hrun).1,
      (h.started side hrun).2.append e fun side => by rw [htopics]⟩

/-- A view is a copy that the heartbeat has, or the map itself. -/
theorem view_cases (s : State) (side : Side) :
    (∃ m, ∀ s' : State, s'.pc = s.pc → s'.view side = m) ∨
      ∀ s' : State, s'.pc = s.pc → s'.view side = (s'.topics side).hzMap := by
  unfold State.view
  cases hpc : s.pc with
  | readSub pubTopicHzMap =>
    cases side with
    | sub => exact .inr fun s' hs' => by rw [hs']
    | pub => exact .inl ⟨pubTopicHzMap, fun s' hs' => by rw [hs']⟩
  | build hzMap => exact .inl ⟨hzMap side, fun s' hs' => by rw [hs']⟩
  | top | readPub | finished => exact .inr fun s' hs' => by rw [hs']

@[simp] theorem setTopics_self (s : State) (side : Side) (topics : Topics) :
    (s.setTopics side topics).topics side = topics := update_self ..

theorem setTopics_of_ne {side' : Side} (h : side' ≠ side) (s : State) (topics : Topics) :
    (s.setTopics side topics).topics side' = s.topics side' := update_of_ne h ..

/-- What holds between the old and the new topics of the side that is changed, and of topics with
themselves, holds of both sides. -/
theorem topics_of_change {topics' : Topics} {collecting' : Option Collecting}
    (hs' : s' = { s.setTopics side topics' with collecting := collecting' })
    {R : Side → Topics → Topics → Prop} (hsame : ∀ side', R side' (s.topics side') (s.topics side'))
    (hchanged : R side (s.topics side) topics') (side' : Side) :
    R side' (s.topics side') (s'.topics side') := by
  have htopics : s'.topics = (s.setTopics side topics').topics := by rw [hs']
  rw [htopics]
  by_cases hside : side' = side
  · subst hside
    rwa [setTopics_self]
  · rw [setTopics_of_ne hside]
    exact hsame side'

/-- A step that changes the topics of one side, and the collection. -/
theorem Inv.change (h : Inv o events s) {topics' : Topics} {collecting' : Option Collecting}
    (hs' : s' = { s.setTopics side topics' with collecting := collecting' })
    (hsound : Sound (Fed (events ++ [e]) side) topics')
    (hset : topics'.topicSet = (s.topics side).topicSet)
    (hstep : topics'.hzCalculate.step = (s.topics side).hzCalculate.step)
    (hactive : ∀ t, Active (s.topics side).hzCalculate t = true →
      Active topics'.hzCalculate t = true)
    (hmap : Le (s.topics side).hzMap topics'.hzMap)
    (hposted : s.posted = false → collecting' = none)
    (hcollecting : ∀ c, collecting' = some c → Covers s' c) :
    Grows s s' ∧ Inv o (events ++ [e]) s' := by
  have hsets : ∀ side', (s'.topics side').topicSet = (s.topics side').topicSet :=
    topics_of_change hs' (R := fun _ a b => b.topicSet = a.topicSet) (fun _ => rfl) hset
  have hsteps : ∀ side', (s'.topics side').hzCalculate.step =
      (s.topics side').hzCalculate.step :=
    topics_of_change hs' (R := fun _ a b => b.hzCalculate.step = a.hzCalculate.step)
      (fun _ => rfl) hstep
  have hactives : ∀ side' t, s.active side' t = true → s'.active side' t = true :=
    topics_of_change hs' (R := fun _ a b => ∀ t, Active a.hzCalculate t = true →
      Active b.hzCalculate t = true) (fun _ _ ht => ht) hactive
  have hmaps : ∀ side', Le (s.topics side').hzMap (s'.topics side').hzMap :=
    topics_of_change hs' (R := fun _ a b => Le a.hzMap b.hzMap) (fun _ => Le.refl _) hmap
  have hsounds : ∀ side', Sound (Fed (events ++ [e]) side') (s'.topics side') :=
    topics_of_change hs' (R := fun side' _ b => Sound (Fed (events ++ [e]) side') b)
      (fun side' => (h.sound side').mono fun t ht => ht.append e) hsound
  have hpc : s'.pc = s.pc := by rw [hs']; rfl
  have hsent : s'.sent = s.sent := by rw [hs']; rfl
  have hpost : s'.posted = s.posted := by rw [hs']; rfl
  have hg : Grows s s' := by
    -- a heartbeat that has copied its maps still sends the copies, any other one sends what the
    -- maps are by then
    refine ⟨hsets, hactives, hmaps, fun side' => ?_⟩
    rcases view_cases s side' with ⟨m, hm⟩ | hm
    · rw [hm s rfl, hm s' hpc]
      exact Le.refl m
    · rw [hm s rfl, hm s' hpc]
      exact hmaps side'
  refine ⟨hg, hsounds, fun side' => ?_, fun c hc => ?_, ?_, ?_, fun hp => ?_, fun hp => ?_,
    fun side' hrun => ?_⟩
  · rcases view_cases s side' with ⟨m, hm⟩ | hm
    · have hview := h.view side'
      rw [hm s rfl] at hview
      rw [hm s' hpc]
      exact ⟨hview.1.mono (hactives side'), hview.2.trans (hmaps side')⟩
    · rw [hm s' hpc]
      exact ⟨(hsounds side').map, Le.refl _⟩
  · exact hcollecting c (by rw [hs'] at hc; exact hc)
  · rw [hsent]
    exact h.sent_of_grows hg
  · rw [hsent]
    exact h.keeps
  · rw [hpost] at hp
    obtain ⟨-, hempty, htop⟩ := h.idle hp
    rw [hsent, hpc]
    refine ⟨?_, hempty, htop⟩
    rw [hs']
    exact hposted hp
  · rw [hsteps]
    exact h.posted (hpost ▸ hp)
  · rw [hsteps] at hrun
    refine ⟨fun side'' => ?_, (h.started side' hrun).2.append e hsets⟩
    rw [hsteps]
    exact (h.started side' hrun).1 side''

/-- A collection under way goes on to cover what it did, when only the data of topics change. -/
theorem Covers.of_same {c : Collecting} (h : Covers s c)
    (hmap : ∀ side, (s'.topics side).hzMap = (s.topics side).hzMap)
    (hset : ∀ side, (s'.topics side).topicSet = (s.topics side).topicSet)
    (hactive : ∀ side t, s.active side t = true → s'.active side t = true) : Covers s' c where
  honest := h.honest.mono (hactive c.side)
  covers t ht := h.covers t (by rwa [hmap] at ht)
  pub hside t ht := h.pub hside t (by rwa [State.known, hset] at ht)

theorem inv_feed (h : Inv o events s) (topicName msgType : String) (currentTime : ℤ)
    (he : e = .feed side topicName msgType currentTime) :
    Grows s (s.feed side topicName msgType currentTime) ∧
      Inv o (events ++ [e]) (s.feed side topicName msgType currentTime) := by
  have hactive : ∀ t, Active (s.topics side).hzCalculate t = true →
      Active ((s.topics side).hzCalculate.feedTopic (hzTopic topicName msgType) currentTime) t
        = true :=
    fun t ht => active_feedTopic.mpr (.inl ht)
  have hfeed : s.feed side topicName msgType currentTime =
      { s.setTopics side { s.topics side with
          hzCalculate :=
            (s.topics side).hzCalculate.feedTopic (hzTopic topicName msgType) currentTime } with
        collecting := s.collecting } := rfl
  refine h.change hfeed ?_ rfl feedTopic_step hactive (Le.refl _)
    (fun hp => (h.idle hp).1) fun c hc => ?_
  -- the new message is one of the events; the collection under way is about other data
  · refine (h.sound side).feed fun t ht => ?_
    rcases ht with ht | rfl
    · exact ht.append e
    · exact ⟨topicName, msgType, currentTime, rfl, by rw [he]; simp⟩
  · refine (h.collecting c hc).of_same (fun side' => ?_) (fun side' => ?_) fun side' t ht => ?_
    · by_cases hside : side' = side
      · rw [hside, State.feed, setTopics_self]
      · rw [State.feed, setTopics_of_ne hside]
    · by_cases hside : side' = side
      · rw [hside, State.feed, setTopics_self]
      · rw [State.feed, setTopics_of_ne hside]
    · rw [State.active] at ht ⊢
      by_cases hside : side' = side
      · rw [hside] at ht ⊢
        rw [State.feed, setTopics_self]
        exact hactive t ht
      · rwa [State.feed, setTopics_of_ne hside]

/-! ### A collection goes on -/

/-- While data are collected the calculators run. -/
theorem Inv.running (h : Inv o events s) (hc : s.collecting = some c) (side : Side) :
    s.posted = true ∧ (s.topics side).hzCalculate.step = .running := by
  have hposted : s.posted = true := by
    by_contra hp
    rw [Bool.not_eq_true] at hp
    rw [(h.idle hp).1] at hc
    cases hc
  exact ⟨hposted, (h.started .sub (h.posted hposted)).1 side⟩

/-- What the next step of a collection does: it makes the statistics of a topic, or it leaves the
complete map behind. -/
theorem calculate_cases (hs : s.calculate currentTime = some s') :
    ∃ c, s.collecting = some c ∧
      ((∃ topic rest, c.rest = topic :: rest ∧
        s' = { s.setTopics c.side { s.topics c.side with
            hzCalculate := ((s.topics c.side).hzCalculate.calculate topic currentTime).1 } with
          collecting := some { c with
            rest := rest
            allStats := update c.allStats topic
              ((s.topics c.side).hzCalculate.calculate topic currentTime).2 } }) ∨
      (c.rest = [] ∧
        s' = { s.setTopics c.side { s.topics c.side with hzMap := c.allStats } with
          collecting :=
            match c.side with
            | .sub => some ⟨.pub, c.pubOrder, fun _ => {}, c.pubOrder⟩
            | .pub => none })) := by
  unfold State.calculate at hs
  cases hc : s.collecting with
  | none =>
    rw [hc] at hs
    cases hs
  | some c =>
    rw [hc] at hs
    refine ⟨c, rfl, ?_⟩
    obtain ⟨side, rest, allStats, pubOrder⟩ := c
    cases rest with
    | nil =>
      refine .inr ⟨rfl, ?_⟩
      cases side with
      | sub => exact (Option.some.inj hs).symm
      | pub => exact (Option.some.inj hs).symm
    | cons topic rest => exact .inl ⟨topic, rest, rfl, (Option.some.inj hs).symm⟩

theorem inv_calculate (h : Inv o events s) (hs : s.calculate currentTime = some s') :
    Grows s s' ∧ Inv o (events ++ [e]) s' := by
  obtain ⟨c, hc, ⟨topic, rest, hrest, hs'⟩ | ⟨hrest, hs'⟩⟩ := calculate_cases hs
  · have hcovers := h.collecting c hc
    -- the statistics of one more topic are made
    obtain ⟨hposted, hrunning⟩ := h.running hc c.side
    have hself := setTopics_self s c.side { s.topics c.side with
      hzCalculate := ((s.topics c.side).hzCalculate.calculate topic currentTime).1 }
    have hactive : ∀ t, Active (s.topics c.side).hzCalculate t =
        Active ((s.topics c.side).hzCalculate.calculate topic currentTime).1 t :=
      fun t => active_calculate.symm
    refine h.change hs' (((h.sound c.side).mono fun t ht => ht.append e).calculate) rfl
      calculate_step (fun t ht => (hactive t).symm ▸ ht) (Le.refl _)
      (fun hp => by rw [hposted] at hp; cases hp) fun c' hc' => ?_
    obtain rfl := Option.some.inj hc'
    have hs'active : s'.active c.side = s.active c.side := by
      funext t
      rw [hs']
      show Active ((s.setTopics c.side _).topics c.side).hzCalculate t = _
      rw [hself]
      exact active_calculate
    refine ⟨?_, fun t ht => ?_, fun hside t ht => ?_⟩
    · show Honest (s'.active c.side) _
      rw [hs'active]
      refine hcovers.honest.update (fun hstats => ?_) (h.sound c.side).quiet.silent
      rwa [calculate_isActive hrunning] at hstats
    · rw [hs'] at ht
      have hmapped : ((s.topics c.side).hzMap t).isActive = true := by
        change (((s.setTopics c.side _).topics c.side).hzMap t).isActive = true at ht
        rwa [hself] at ht
      by_cases htopic : t = topic
      · -- the topic was active, so its statistics say so
        refine .inr ?_
        subst htopic
        show (update c.allStats t _ t).isActive = true
        rw [update_self, calculate_isActive hrunning]
        exact ((h.sound c.side).map t).1 hmapped
      · show t ∈ rest ∨ (update c.allStats topic _ t).isActive = true
        rw [update_of_ne htopic]
        rcases hcovers.covers t hmapped with hmem | hstats
        · rw [hrest] at hmem
          exact .inl ((List.mem_cons.mp hmem).resolve_left htopic)
        · exact .inr hstats
    · refine hcovers.pub hside t ?_
      rw [hs', State.known] at ht
      have hne : Side.pub ≠ c.side := by
        rw [show c.side = .sub from hside]
        decide
      change t ∈ ((s.setTopics c.side _).topics .pub).topicSet.map _ at ht
      rwa [setTopics_of_ne hne] at ht
  · have hcovers := h.collecting c hc
    obtain ⟨hposted, -⟩ := h.running hc c.side
    -- all topics of the side are done, so what was active before is so in the new map
    have hmap : Le (s.topics c.side).hzMap c.allStats := by
      intro t ht
      refine (hcovers.covers t ht).resolve_left ?_
      rw [hrest]
      exact List.not_mem_nil
    refine h.change hs'
      (((h.sound c.side).mono fun t ht => ht.append e).assign hcovers.honest) rfl rfl
      (fun t ht => ht) hmap (fun hp => by rw [hposted] at hp; cases hp) fun c' hc' => ?_
    cases hside : c.side with
    | pub =>
      rw [hside] at hc'
      cases hc'
    | sub =>
      rw [hside] at hc'
      obtain rfl := Option.some.inj hc'
      have hne : Side.pub ≠ c.side := by
        rw [hside]
        decide
      have hpub : s'.topics .pub = s.topics .pub := by
        rw [hs']
        exact setTopics_of_ne hne ..
      refine ⟨honest_default _, fun t ht => ?_, nofun⟩
      rw [hpub] at ht
      -- the publishers come next, with all topics that are registered
      refine .inl (hcovers.pub hside t ?_)
      have hactive := ((h.sound .pub).map t).1 ht
      rw [State.known, ← (h.sound .pub).registered t]
      exact Option.isSome_of_any hactive

theorem inv_collect (h : Inv o events s) {order : Side → List Common.TopicInfo}
    (hs : s.collect order = some s') : Grows s s' ∧ Inv o (events ++ [e]) s' := by
  rw [State.collect] at hs
  split_ifs at hs with hposted hinit horder
  · rw [← Option.some.inj hs]
    exact h.frame rfl rfl rfl rfl (fun hp => (h.idle hp).1) h.collecting
  · rw [← Option.some.inj hs]
    refine h.frame rfl rfl rfl rfl (fun hp => ?_) fun c hc => ?_
    · rw [hposted.1] at hp
      cases hp
    · obtain rfl := Option.some.inj hc
      refine ⟨honest_default _, fun t ht => .inl ?_, fun _ t ht => ?_⟩
      · -- what is active was registered, so the collection will come to it
        rw [(horder .sub (by simp)).mem_iff, State.known, ← (h.sound .sub).registered t]
        exact Option.isSome_of_any (((h.sound .sub).map t).1 ht)
      · exact (horder .pub (by simp)).mem_iff.mpr ht

/-! ### A heartbeat goes on -/

/-- What the next step of a heartbeat does: it takes a copy, which changes nothing of the view, or
it sends what it has copied. -/
theorem heartbeat_cases (hs : s.heartbeat o = some s') :
    s.posted = true ∧
      ((∃ pc, s' = { s with pc := pc } ∧ ∀ side, s'.view side = s.view side) ∨
        ∃ hzMap, s.pc = .build hzMap ∧
          s' = { s with pc := .top, sent := s.message o hzMap :: s.sent }) := by
  rw [State.heartbeat] at hs
  by_cases hnot : (!s.posted) = true
  · rw [if_pos hnot] at hs
    cases hs
  · rw [if_neg hnot] at hs
    refine ⟨by simpa using hnot, ?_⟩
    cases hpc : s.pc with
    | top =>
      rw [hpc] at hs
      obtain rfl := Option.some.inj hs
      refine .inl ⟨_, rfl, fun side => ?_⟩
      unfold State.view
      rw [hpc]
      dsimp only
      split_ifs <;> rfl
    | readPub =>
      rw [hpc] at hs
      obtain ⟨-, hs⟩ := Option.ite_none_right_eq_some.mp hs
      obtain rfl := Option.some.inj hs
      refine .inl ⟨_, rfl, fun side => ?_⟩
      cases side <;> simp only [State.view, hpc]
    | readSub pubTopicHzMap =>
      rw [hpc] at hs
      obtain ⟨-, hs⟩ := Option.ite_none_right_eq_some.mp hs
      obtain rfl := Option.some.inj hs
      refine .inl ⟨_, rfl, fun side => ?_⟩
      cases side <;> simp only [State.view, hpc]
    | build hzMap =>
      rw [hpc] at hs
      exact .inr ⟨hzMap, rfl, (Option.some.inj hs).symm⟩
    | finished =>
      rw [hpc] at hs
      cases hs

/-- A heartbeat from a map that calls as much active as those of the heartbeats before. -/
theorem Inv.keeps_message (h : Inv o events s)
    {hzMap : Side → Common.TopicInfo → TopicFrequencyStats}
    (hle : ∀ side, Le (s.view side) (hzMap side)) :
    ∀ hb ∈ s.sent, Keeps hb (s.message o hzMap) := by
  intro hb hhb side r hr hactive
  obtain ⟨old, hinfo, hold⟩ := h.sent hb hhb
  rw [hinfo] at hr
  obtain ⟨oneTopic, hmem, rfl⟩ := List.mem_map.mp hr
  refine ⟨State.topicReport (hzMap side) oneTopic, List.mem_map_of_mem hmem, rfl, rfl, ?_⟩
  exact hle side _ ((hold side).2 _ hactive)

theorem inv_heartbeat (h : Inv o events s) (hs : s.heartbeat o = some s') :
    Grows s s' ∧ Inv o (events ++ [e]) s' := by
  obtain ⟨hposted, hs⟩ := heartbeat_cases hs
  have hstays : ∀ {P : Prop}, s.posted = false → P := by
    intro P hp
    rw [hposted] at hp
    cases hp
  have hstarted : ∀ side, (s.topics side).hzCalculate.step = .running →
      (∀ side, (s.topics side).hzCalculate.step = .running) ∧ Listed o (events ++ [e]) s :=
    fun side hrun => ⟨(h.started side hrun).1, (h.started side hrun).2.append e fun _ => rfl⟩
  have hsound : ∀ side, Sound (Fed (events ++ [e]) side) (s.topics side) :=
    fun side => (h.sound side).mono fun t ht => ht.append e
  rcases hs with ⟨pc, rfl, hview⟩ | ⟨hzMap, hpc, rfl⟩
  · have hg : Grows s { s with pc := pc } := by
      refine ⟨fun _ => rfl, fun _ _ ht => ht, fun _ => Le.refl _, fun side => ?_⟩
      rw [hview]
      exact Le.refl _
    refine ⟨hg, hsound, fun side => ?_, fun c hc => ?_, h.sent_of_grows hg, h.keeps, hstays,
      h.posted, hstarted⟩
    · rw [hview]
      exact h.view side
    · have hcovers := h.collecting c hc
      exact ⟨hcovers.honest, hcovers.covers, hcovers.pub⟩
  · -- the next heartbeat will be made from the map itself, which is not behind the copy
    have hview : ∀ side, s.view side = hzMap side := by
      intro side
      rw [State.view, hpc]
    have hg : Grows s { s with pc := .top, sent := s.message o hzMap :: s.sent } :=
      ⟨fun _ => rfl, fun _ _ ht => ht, fun _ => Le.refl _, fun side => (h.view side).2⟩
    refine ⟨hg, hsound, fun side => ⟨(h.sound side).map, Le.refl _⟩, fun c hc => ?_, ?_, ?_,
      hstays, h.posted, hstarted⟩
    · have hcovers := h.collecting c hc
      exact ⟨hcovers.honest, hcovers.covers, hcovers.pub⟩
    · intro hb hhb
      rcases List.mem_cons.mp hhb with rfl | hhb
      · refine ⟨hzMap, rfl, fun side => ?_⟩
        have hside := h.view side
        rw [hview side] at hside
        exact hside
      · exact h.sent_of_grows hg hb hhb
    · refine List.pairwise_cons.mpr ⟨h.keeps_message fun side => ?_, h.keeps⟩
      rw [hview side]
      exact Le.refl _

/-! ### The framework starts -/

theorem start_eq_some {aimrtConfig : Yaml} {publishTypes subscribes : List TopicKey}
    (hs : s.start o aimrtConfig publishTypes subscribes = some s') :
    ∃ subTopicList pubTopicList sub pub,
      channelStart o.regexMatch aimrtConfig publishTypes subscribes =
        .ok (subTopicList, pubTopicList) ∧
      (s.topics .sub).setTopicInfoList subTopicList = .ok sub ∧
      (s.topics .pub).setTopicInfoList pubTopicList = .ok pub ∧
      s' = { (s.setTopics .sub sub).setTopics .pub pub with initFlag := true } := by
  unfold State.start at hs
  cases hlists : channelStart o.regexMatch aimrtConfig publishTypes subscribes with
  | error error =>
    rw [hlists] at hs
    cases hs
  | ok lists =>
    obtain ⟨subTopicList, pubTopicList⟩ := lists
    rw [hlists] at hs
    cases hsub : (s.topics .sub).setTopicInfoList subTopicList with
    | error error =>
      simp only [hsub] at hs
      cases hs
    | ok sub =>
      cases hpub : (s.topics .pub).setTopicInfoList pubTopicList with
      | error error =>
        simp only [hsub, hpub] at hs
        cases hs
      | ok pub =>
        simp only [hsub, hpub] at hs
        exact ⟨subTopicList, pubTopicList, sub, pub, rfl, hsub, hpub, (Option.some.inj hs).symm⟩

/-- The lists can be set once, before the coroutines are posted. -/
theorem Inv.not_running_of_start (h : Inv o events s) {aimrtConfig : Yaml}
    {publishTypes subscribes : List TopicKey}
    (hs : s.start o aimrtConfig publishTypes subscribes = some s') :
    s.posted = false ∧ ∀ side, (s.topics side).hzCalculate.step ≠ .running := by
  obtain ⟨subTopicList, pubTopicList, sub, pub, -, hsub, -, -⟩ := start_eq_some hs
  have hnot : (s.topics .sub).hzCalculate.step ≠ .running := by
    rw [(setTopicInfoList_eq_ok hsub).1]
    decide
  refine ⟨?_, fun side hrun => hnot ((h.started side hrun).1 .sub)⟩
  by_contra hp
  rw [Bool.not_eq_false] at hp
  exact hnot (h.posted hp)

theorem inv_start (h : Inv o events s) {aimrtConfig : Yaml}
    {publishTypes subscribes : List TopicKey}
    (he : e = .start aimrtConfig publishTypes subscribes)
    (hs : s.start o aimrtConfig publishTypes subscribes = some s') :
    Inv o (events ++ [e]) s' := by
  obtain ⟨hposted, -⟩ := h.not_running_of_start hs
  obtain ⟨hnone, hempty, htop⟩ := h.idle hposted
  obtain ⟨subTopicList, pubTopicList, sub, pub, hlists, hsub, hpub, rfl⟩ := start_eq_some hs
  have hsounds : ∀ side, Sound (Fed (events ++ [e]) side)
      (((s.setTopics .sub sub).setTopics .pub pub).topics side) := by
    intro side
    cases side with
    | sub =>
      rw [setTopics_of_ne (by decide), setTopics_self]
      exact ((h.sound .sub).mono fun t ht => ht.append e).setTopicInfoList hsub
    | pub =>
      rw [setTopics_self]
      exact ((h.sound .pub).mono fun t ht => ht.append e).setTopicInfoList hpub
  have hsent : ({ (s.setTopics .sub sub).setTopics .pub pub with initFlag := true } : State).sent =
      [] := hempty
  -- nothing has been posted yet, so there is no collection and no heartbeat
  refine ⟨hsounds, fun side => ?_, fun c hc => ?_, ?_, ?_, fun _ => ⟨hnone, hempty, htop⟩,
    fun hp => ?_, fun _ _ => ?_⟩
  · have hview : ({ (s.setTopics .sub sub).setTopics .pub pub with initFlag := true } :
        State).view side = (((s.setTopics .sub sub).setTopics .pub pub).topics side).hzMap := by
      unfold State.view
      rw [show ({ (s.setTopics .sub sub).setTopics .pub pub with initFlag := true } : State).pc =
        .top from htop]
    rw [hview]
    exact ⟨(hsounds side).map, Le.refl _⟩
  · rw [show s.collecting = some c from hc] at hnone
    cases hnone
  · rw [hsent]
    nofun
  · rw [hsent]
    exact .nil
  · rw [show s.posted = true from hp] at hposted
    cases hposted
  · have hsub' : ((s.setTopics .sub sub).setTopics .pub pub).topics .sub = sub := by
      rw [setTopics_of_ne (by decide), setTopics_self]
    have hset : sub.topicSet = subTopicList ∧ pub.topicSet = pubTopicList := by
      rw [(setTopicInfoList_eq_ok hsub).2, (setTopicInfoList_eq_ok hpub).2]
      exact ⟨rfl, rfl⟩
    refine ⟨fun side => ?_, aimrtConfig, publishTypes, subscribes, by rw [he]; simp, ?_⟩
    · show (((s.setTopics .sub sub).setTopics .pub pub).topics side).hzCalculate.step = .running
      cases side with
      | sub => rw [hsub', (setTopicInfoList_eq_ok hsub).2]
      | pub => rw [setTopics_self, (setTopicInfoList_eq_ok hpub).2]
    · show _ = Except.ok ((((s.setTopics .sub sub).setTopics .pub pub).topics .sub).topicSet,
        (((s.setTopics .sub sub).setTopics .pub pub).topics .pub).topicSet)
      rw [hsub', setTopics_self, hlists, hset.1, hset.2]

/-! ### Runs -/

theorem inv_init : Inv o [] (plugin o).init where
  sound _ := sound_init
  view _ := ⟨honest_default _, Le.refl _⟩
  collecting _ hc := by cases hc
  sent _ hhb := by cases hhb
  keeps := .nil
  idle _ := ⟨rfl, rfl, rfl⟩
  posted hp := by cases hp
  started _ hrun := by cases hrun

/-- **What a step keeps.** -/
theorem inv_step (h : Inv o events s) (hs : (plugin o).step s e = some s') :
    (∀ side, (s.topics side).hzCalculate.step = .running → Grows s s') ∧
      Inv o (events ++ [e]) s' := by
  have hboth : Grows s s' ∧ Inv o (events ++ [e]) s' →
      (∀ side, (s.topics side).hzCalculate.step = .running → Grows s s') ∧
        Inv o (events ++ [e]) s' :=
    fun h => ⟨fun _ _ => h.1, h.2⟩
  cases e with
  | start aimrtConfig publishTypes subscribes =>
    exact ⟨fun side hrun => absurd hrun ((h.not_running_of_start hs).2 side), inv_start h rfl hs⟩
  | postStart =>
    obtain ⟨⟨hrun, hposted⟩, hs⟩ := Option.ite_none_right_eq_some.mp hs
    obtain rfl := Option.some.inj hs
    refine ⟨fun _ _ => ⟨fun _ => rfl, fun _ _ ht => ht, fun _ => Le.refl _, fun _ => Le.refl _⟩,
      fun side => (h.sound side).mono fun t ht => ht.append _, h.view, fun c hc => ?_, h.sent,
      h.keeps, nofun, fun _ => hrun, fun side hrun => ?_⟩
    · have hcovers := h.collecting c hc
      exact ⟨hcovers.honest, hcovers.covers, hcovers.pub⟩
    · exact ⟨(h.started side hrun).1, (h.started side hrun).2.append _ fun _ => rfl⟩
  | feed side topicName msgType currentTime =>
    obtain rfl := Option.some.inj hs
    exact hboth (inv_feed h topicName msgType currentTime rfl)
  | collect order => exact hboth (inv_collect h hs)
  | calculate currentTime => exact hboth (inv_calculate h hs)
  | heartbeat => exact hboth (inv_heartbeat h hs)
  | resource info =>
    obtain ⟨-, hs⟩ := Option.ite_none_right_eq_some.mp hs
    obtain rfl := Option.some.inj hs
    exact hboth (h.frame rfl rfl rfl rfl (fun hp => (h.idle hp).1) h.collecting)
  | shutdown =>
    obtain rfl := Option.some.inj hs
    exact hboth (h.frame rfl rfl rfl rfl (fun hp => (h.idle hp).1) h.collecting)

theorem inv_of_run (h : (plugin o).run events = some s) : Inv o events s :=
  System.run_invariant (I := Inv o) inv_init
    (fun _ _ _ _ hinv hs => (inv_step hinv hs).2) h

end AimrtComm.Monitor
