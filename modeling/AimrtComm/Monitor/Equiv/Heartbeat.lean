import AimrtComm.Monitor.Equiv.Plugin

/-!
# What the heartbeats say

No heartbeat calls a topic active that had no message, and none calls a topic inactive that an
earlier one called active (`heartbeat_of_run`).  Once a topic had a message and the frequencies were
collected after it, every heartbeat that begins after that calls it active
(`reported_of_collected`).
-/

namespace AimrtComm.Monitor

open Common Function TopicHzCalculator

variable {o : Options} {events : List Event} {e : Event} {s s' : State} {side : Side}
  {c : Collecting} {t : Common.TopicInfo} {info : TopicInfo}

/-- What a heartbeat says of a topic: it is active only if it had a message, and otherwise there is
nothing to be said. -/
structure Says (events : List Event) (side : Side) (info : TopicInfo) (r : TopicReport) :
    Prop where
  name : r.name = info.topicName
  type : r.type = info.msgType
  backends : r.backends = info.backends
  active : r.isActive = true → Fed events side info.hzTopic
  silent : r.isActive = false → r = State.topicReport (fun _ => {}) info

/-- **What heartbeats say.**  In every interleaving of messages, collections and heartbeats, a
heartbeat has each topic of the lists that the backend made, once and in their order, and nothing
else.  A topic is called active only if it had a message, and no later heartbeat takes that back;
what is said of the others is zero. -/
theorem heartbeat_of_run (h : (plugin o).run events = some s) :
    (s.sent ≠ [] → Listed o events s) ∧
      (∀ hb ∈ s.sent, ∀ side,
        List.Forall₂ (Says events side) (s.topics side).topicSet (hb.topicInfo side)) ∧
      s.sent.Pairwise fun later earlier => Keeps earlier later := by
  have hinv := inv_of_run h
  refine ⟨fun hne => ?_, fun hb hhb side => ?_, hinv.keeps⟩
  · have hposted : s.posted = true := by
      by_contra hp
      rw [Bool.not_eq_true] at hp
      exact hne (hinv.idle hp).2.1
    exact (hinv.started .sub (hinv.posted hposted)).2
  · obtain ⟨hzMap, hinfo, hmap⟩ := hinv.sent hb hhb
    rw [hinfo, List.forall₂_map_right_iff]
    refine List.forall₂_same.mpr fun info _ => ?_
    obtain ⟨hactive, hsilent⟩ := (hmap side).1 info.hzTopic
    refine ⟨rfl, rfl, rfl, fun hr => (hinv.sound side).fed _ (hactive hr), fun hr => ?_⟩
    rw [State.topicReport, State.topicReport, hsilent hr]

/-- A heartbeat, then a message and a collection, and another heartbeat. -/
def messageBetweenHeartbeats : List Event :=
  [.start .undefined [] [⟨"/a", "A"⟩], .postStart, .heartbeat, .heartbeat, .heartbeat, .heartbeat,
    .feed .sub "/a" "A" 5, .collect fun side => if side = .sub then [hzTopic "/a" "A"] else [],
    .calculate 6, .calculate 6, .calculate 6, .heartbeat, .heartbeat, .heartbeat, .heartbeat]

/-- The second heartbeat calls the topic active, and the first did not. -/
theorem heartbeat_of_run_sample :
    ∃ s later earlier, (plugin { regexMatch := fun _ _ => none }).run messageBetweenHeartbeats
        = some s ∧
      s.sent = [later, earlier] ∧ Keeps earlier later ∧
      (earlier.topicInfo .sub).map (·.isActive) = [false] ∧
      (later.topicInfo .sub).map (·.isActive) = [true] ∧
      List.Forall₂ (Says messageBetweenHeartbeats .sub) (s.topics .sub).topicSet
        (later.topicInfo .sub) := by
  have hrun : ∃ s later earlier, (plugin { regexMatch := fun _ _ => none }).run
        messageBetweenHeartbeats = some s ∧ s.sent = [later, earlier] ∧
      (earlier.topicInfo .sub).map (·.isActive) = [false] ∧
      (later.topicInfo .sub).map (·.isActive) = [true] := ⟨_, _, _, rfl, rfl, rfl, rfl⟩
  obtain ⟨s, later, earlier, h, hsent, hearlier, hlater⟩ := hrun
  obtain ⟨-, hsays, hkeeps⟩ := heartbeat_of_run h
  rw [hsent] at hsays hkeeps
  have hkeep : Keeps earlier later := List.rel_of_pairwise_cons hkeeps List.mem_cons_self
  exact ⟨s, later, earlier, h, hsent, hkeep, hearlier, hlater, hsays later List.mem_cons_self .sub⟩

/-! ### After a collection -/

/-- The topic is in the map of its side, or the collection under way will put it there. -/
structure Coming (side : Side) (t : Common.TopicInfo) (s : State) : Prop where
  active : s.active side t = true
  coming : ((s.topics side).hzMap t).isActive = true ∨
    ∃ c, s.collecting = some c ∧
      (c.side = side ∧ (t ∈ c.rest ∨ (c.allStats t).isActive = true) ∨
        c.side = .sub ∧ side = .pub ∧ t ∈ c.pubOrder)

/-- A step other than those of `CollectData` leaves the collection alone. -/
theorem collecting_cases (hs : (plugin o).step s e = some s') :
    s'.collecting = s.collecting ∨ s.collecting = none ∨
      ∃ currentTime, s.calculate currentTime = some s' := by
  cases e with
  | start aimrtConfig publishTypes subscribes =>
    obtain ⟨_, _, _, _, -, -, -, rfl⟩ := start_eq_some hs
    exact .inl rfl
  | postStart | resource info =>
    obtain ⟨-, hs⟩ := Option.ite_none_right_eq_some.mp hs
    obtain rfl := Option.some.inj hs
    exact .inl rfl
  | feed side topicName msgType currentTime =>
    obtain rfl := Option.some.inj hs
    exact .inl rfl
  | collect order =>
    obtain ⟨hfree, -⟩ := Option.ite_none_right_eq_some.mp hs
    exact .inr (.inl (Option.isNone_iff_eq_none.mp hfree.2.2))
  | calculate currentTime => exact .inr (.inr ⟨currentTime, hs⟩)
  | heartbeat =>
    obtain ⟨-, ⟨pc, rfl, -⟩ | ⟨hzMap, -, rfl⟩⟩ := heartbeat_cases hs
    · exact .inl rfl
    · exact .inl rfl
  | shutdown =>
    obtain rfl := Option.some.inj hs
    exact .inl rfl

theorem Coming.step (h : Coming side t s) (hinv : Inv o events s) (hg : Grows s s')
    (hs : (plugin o).step s e = some s') : Coming side t s' := by
  refine ⟨hg.active side t h.active, ?_⟩
  rcases h.coming with hmap | ⟨c, hc, hcoming⟩
  · exact .inl (hg.map side t hmap)
  · rcases collecting_cases hs with hsame | hnone | ⟨currentTime, hcalc⟩
    · exact .inr ⟨c, hsame.trans hc, hcoming⟩
    · rw [hc] at hnone
      cases hnone
    · obtain ⟨c', hc', hnext⟩ := calculate_cases hcalc
      obtain rfl := Option.some.inj (hc.symm.trans hc')
      obtain ⟨hposted, hrunning⟩ := hinv.running hc c.side
      rcases hnext with ⟨topic, rest, hrest, hs'⟩ | ⟨hrest, hs'⟩
      · refine .inr ⟨_, by rw [hs'], ?_⟩
        rcases hcoming with ⟨hside, hseen⟩ | hpub
        · refine .inl ⟨hside, ?_⟩
          show t ∈ rest ∨ (update c.allStats topic _ t).isActive = true
          by_cases htopic : t = topic
          · -- the statistics are made while the topic is active
            subst htopic
            rw [update_self, calculate_isActive hrunning, hside]
            exact .inr h.active
          · rw [update_of_ne htopic]
            rw [hrest] at hseen
            exact hseen.imp_left fun hmem => (List.mem_cons.mp hmem).resolve_left htopic
        · exact .inr hpub
      · rcases hcoming with ⟨rfl, hseen⟩ | ⟨hside, rfl, hmem⟩
        · refine .inl ?_
          have hstats : (c.allStats t).isActive = true := by
            refine hseen.resolve_left ?_
            rw [hrest]
            exact List.not_mem_nil
          rw [hs']
          show (((s.setTopics c.side _).topics c.side).hzMap t).isActive = true
          rw [setTopics_self]
          exact hstats
        · refine .inr ⟨⟨.pub, c.pubOrder, fun _ => {}, c.pubOrder⟩, ?_, .inl ⟨rfl, .inl hmem⟩⟩
          rw [hs', hside]

/-- The plugin has run, and the topic is in its list. -/
def HasTopic (o : Options) (side : Side) (info : TopicInfo) (s : State) : Prop :=
  (∃ events, Inv o events s) ∧ info ∈ (s.topics side).topicSet

theorem HasTopic.running (h : HasTopic o side info s) :
    (s.topics side).hzCalculate.step = .running := by
  obtain ⟨⟨events, hinv⟩, hmem⟩ := h
  by_contra hstep
  rw [(hinv.sound side).fresh hstep] at hmem
  cases hmem

theorem HasTopic.registered (h : HasTopic o side info s) :
    ((s.topics side).hzCalculate.topicsData info.hzTopic).isSome = true := by
  obtain ⟨⟨events, hinv⟩, hmem⟩ := h
  exact ((hinv.sound side).registered _).mpr (List.mem_map_of_mem hmem)

theorem HasTopic.step (h : HasTopic o side info s) (hs : (plugin o).step s e = some s') :
    Grows s s' ∧ HasTopic o side info s' := by
  obtain ⟨⟨events, hinv⟩, hmem⟩ := id h
  obtain ⟨hgrows, hinv'⟩ := inv_step hinv hs
  have hg := hgrows side h.running
  exact ⟨hg, ⟨_, hinv'⟩, by rwa [hg.topicSet]⟩

/-- A message of a topic of the list makes it active. -/
theorem active_of_feed (h : HasTopic o side info s) {currentTime : ℤ}
    (hs : (plugin o).step s (.feed side info.topicName info.msgType currentTime) = some s') :
    s'.active side info.hzTopic = true := by
  obtain rfl := Option.some.inj hs
  rw [State.active, State.feed, setTopics_self]
  exact active_feedTopic.mpr (.inr ⟨h.running, rfl, h.registered⟩)

/-- A collection that begins will come to the topic. -/
theorem coming_of_collect (h : HasTopic o side info s) (hactive : s.active side info.hzTopic = true)
    (hinit : s.initFlag = true) {order : Side → List Common.TopicInfo}
    (hs : (plugin o).step s (.collect order) = some s') : Coming side info.hzTopic s' := by
  have hmem : info.hzTopic ∈ s.known side := List.mem_map_of_mem h.2
  obtain ⟨-, hs⟩ := Option.ite_none_right_eq_some.mp hs
  rw [if_neg (by rw [hinit]; decide)] at hs
  obtain ⟨horder, hs⟩ := Option.ite_none_right_eq_some.mp hs
  obtain rfl := Option.some.inj hs
  refine ⟨hactive, .inr ⟨_, rfl, ?_⟩⟩
  cases side with
  | sub => exact .inl ⟨rfl, .inl ((horder .sub (by simp)).mem_iff.mpr hmem)⟩
  | pub => exact .inr ⟨rfl, rfl, (horder .pub (by simp)).mem_iff.mpr hmem⟩

/-- The heartbeat calls the topic active. -/
def CallsActive (hb : Heartbeat) (side : Side) (info : TopicInfo) : Prop :=
  ∃ r ∈ hb.topicInfo side, r.name = info.topicName ∧ r.type = info.msgType ∧ r.isActive = true

/-- Once the topic is active in what the next heartbeat is made from, it is so in all heartbeats
that are sent. -/
theorem sent_step (h : HasTopic o side info s)
    (hview : (s.view side info.hzTopic).isActive = true) (hs : (plugin o).step s e = some s') :
    s'.sent = s.sent ∨ ∃ hb, s'.sent = hb :: s.sent ∧ CallsActive hb side info := by
  cases e with
  | heartbeat =>
    obtain ⟨-, ⟨pc, rfl, -⟩ | ⟨hzMap, hpc, rfl⟩⟩ := heartbeat_cases hs
    · exact .inl rfl
    · rw [State.view, hpc] at hview
      exact .inr ⟨_, rfl, _, List.mem_map_of_mem h.2, rfl, rfl, hview⟩
  | start aimrtConfig publishTypes subscribes =>
    obtain ⟨_, _, _, _, -, -, -, rfl⟩ := start_eq_some hs
    exact .inl rfl
  | postStart | resource info =>
    obtain ⟨-, hs⟩ := Option.ite_none_right_eq_some.mp hs
    obtain rfl := Option.some.inj hs
    exact .inl rfl
  | collect order =>
    obtain ⟨-, hs⟩ := Option.ite_none_right_eq_some.mp hs
    split_ifs at hs
    · obtain rfl := Option.some.inj hs
      exact .inl rfl
    · obtain rfl := Option.some.inj hs
      exact .inl rfl
  | calculate currentTime =>
    obtain ⟨c, -, ⟨topic, rest, -, rfl⟩ | ⟨-, rfl⟩⟩ := calculate_cases hs
    · exact .inl rfl
    · exact .inl rfl
  | feed | shutdown =>
    obtain rfl := Option.some.inj hs
    exact .inl rfl

/-- **A message is seen.**  When a topic of the list had a message, and `CollectData` was called
after that and is done, every heartbeat that begins after that calls the topic active, whatever else
happens. -/
theorem reported_of_collected {s₀ s₁ s₂ s₃ : State} {before between during after : List Event}
    {currentTime : ℤ} {order : Side → List Common.TopicInfo}
    (h₀ : (plugin o).run before = some s₀) (hinfo : info ∈ (s₀.topics side).topicSet)
    (h₁ : (.feed side info.topicName info.msgType currentTime :: between).foldlM
      (plugin o).step s₀ = some s₁)
    (hinit : s₁.initFlag = true)
    (h₂ : (.collect order :: during).foldlM (plugin o).step s₁ = some s₂)
    (hdone : s₂.collecting = none) (htop : s₂.pc = .top)
    (h₃ : after.foldlM (plugin o).step s₂ = some s₃) :
    ∃ sent, s₃.sent = sent ++ s₂.sent ∧ ∀ hb ∈ sent, CallsActive hb side info := by
  have htopic₀ : HasTopic o side info s₀ := ⟨⟨before, inv_of_run h₀⟩, hinfo⟩
  -- the message makes the topic active
  rw [List.foldlM_cons, Option.bind_eq_bind, Option.bind_eq_some_iff] at h₁
  obtain ⟨s, hfeed, h₁⟩ := h₁
  have hactive₁ : HasTopic o side info s₁ ∧ s₁.active side info.hzTopic = true := by
    refine System.foldlM_invariant_step
      (I := fun s => HasTopic o side info s ∧ s.active side info.hzTopic = true) ?_
      ⟨(htopic₀.step hfeed).2, active_of_feed htopic₀ hfeed⟩ h₁
    intro s e s' h hs
    obtain ⟨hg, hs'⟩ := h.1.step hs
    exact ⟨hs', hg.active side _ h.2⟩
  -- the collection leaves it in the map
  rw [List.foldlM_cons, Option.bind_eq_bind, Option.bind_eq_some_iff] at h₂
  obtain ⟨s', hcollect, h₂⟩ := h₂
  have hcoming₂ : HasTopic o side info s₂ ∧ Coming side info.hzTopic s₂ := by
    refine System.foldlM_invariant_step
      (I := fun s => HasTopic o side info s ∧ Coming side info.hzTopic s) ?_
      ⟨(hactive₁.1.step hcollect).2, coming_of_collect hactive₁.1 hactive₁.2 hinit hcollect⟩ h₂
    intro s e s' h hs
    obtain ⟨hg, hs'⟩ := h.1.step hs
    obtain ⟨⟨events, hinv⟩, -⟩ := h.1
    exact ⟨hs', h.2.step hinv hg hs⟩
  have hview₂ : (s₂.view side info.hzTopic).isActive = true := by
    rw [State.view, htop]
    refine hcoming₂.2.coming.resolve_right ?_
    rintro ⟨c, hc, -⟩
    rw [hdone] at hc
    cases hc
  -- and the heartbeats are made from the map
  have hsent₃ : HasTopic o side info s₃ ∧ (s₃.view side info.hzTopic).isActive = true ∧
      ∃ sent, s₃.sent = sent ++ s₂.sent ∧ ∀ hb ∈ sent, CallsActive hb side info := by
    refine System.foldlM_invariant_step
      (I := fun s => HasTopic o side info s ∧ (s.view side info.hzTopic).isActive = true ∧
        ∃ sent, s.sent = sent ++ s₂.sent ∧ ∀ hb ∈ sent, CallsActive hb side info) ?_
      ⟨hcoming₂.1, hview₂, [], rfl, by simp⟩ h₃
    rintro s e s' ⟨htopic, hview, sent, hsent, hall⟩ hs
    obtain ⟨hg, hs'⟩ := htopic.step hs
    refine ⟨hs', hg.view side _ hview, ?_⟩
    rcases sent_step htopic hview hs with heq | ⟨hb, heq, hactive⟩
    · exact ⟨sent, heq.trans hsent, hall⟩
    · refine ⟨hb :: sent, by rw [heq, hsent, List.cons_append], fun hb' hhb' => ?_⟩
      rcases List.mem_cons.mp hhb' with rfl | hhb'
      · exact hactive
      · exact hall hb' hhb'
  exact hsent₃.2.2

/-- A message, a collection, and a heartbeat. -/
theorem reported_of_collected_sample :
    ∃ s₂ s₃ sent, [.heartbeat, .heartbeat, .heartbeat, .heartbeat].foldlM
        (plugin { regexMatch := fun _ _ => none }).step s₂ = some s₃ ∧
      s₃.sent = sent ++ s₂.sent ∧ s₃.sent.length = 1 ∧
      ∀ hb ∈ sent, CallsActive hb .sub ⟨"/a", "A", []⟩ := by
  obtain ⟨sent, hsent, hall⟩ :=
    @reported_of_collected { regexMatch := fun _ _ => none } .sub ⟨"/a", "A", []⟩ _ _ _ _
      [.start .undefined [] [⟨"/a", "A"⟩], .postStart] []
      [.calculate 6, .calculate 6, .calculate 6] [.heartbeat, .heartbeat, .heartbeat, .heartbeat] 5
      (fun side => if side = .sub then [hzTopic "/a" "A"] else [])
      rfl List.mem_cons_self rfl rfl rfl rfl rfl rfl
  exact ⟨_, _, sent, rfl, hsent, rfl, hall⟩

end AimrtComm.Monitor
