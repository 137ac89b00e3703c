import AimrtComm.Monitor.Plugin

/-!
# The statistics of a side

A topic becomes active with its first message and stays so (`active_feedTopic`,
`active_calculate`), its statistics say whether it is (`calculate_isActive`), and those of an
inactive topic are default ones (`Quiet.silent`).  `Sound` is what this makes of the topics that
`DataManager` keeps of one side.
-/

namespace AimrtComm.Monitor

open Common Function TopicHzCalculator

/-! ### The calculator -/

/-- The topic had a message. -/
def Active (self : TopicHzCalculator) (t : Common.TopicInfo) : Bool :=
  (self.topicsData t).any TopicData.isActive

/-- A topic without messages has no gaps. -/
def Quiet (self : TopicHzCalculator) : Prop :=
  ∀ t data, self.topicsData t = some data → data.isActive = false → data.times = []

/-- The statistics of an inactive topic are the default ones. -/
def Silent (stats : TopicFrequencyStats) : Prop :=
  stats.isActive = false → stats = { maxWindow := stats.maxWindow }

variable {self : TopicHzCalculator} {topic t : Common.TopicInfo} {currentTime : ℤ}

theorem feedData_isActive (windowSize : ℕ) (currentTime : ℤ) (data : TopicData) :
    (feedData windowSize currentTime data).isActive = true := by
  unfold feedData
  dsimp only
  split_ifs <;> rfl

theorem feedTopic_topicsData (self : TopicHzCalculator) (topic t : Common.TopicInfo)
    (currentTime : ℤ) :
    (self.feedTopic topic currentTime).topicsData t =
      if self.step = .running ∧ t = topic then
        (self.topicsData t).map (feedData self.windowSize currentTime)
      else self.topicsData t := by
  unfold feedTopic
  by_cases hstep : self.step = .running
  · rw [if_neg (not_not_intro hstep)]
    cases hdata : self.topicsData topic with
    | none =>
      show self.topicsData t = _
      split_ifs with h
      · rw [h.2, hdata, Option.map_none]
      · rfl
    | some data =>
      show update self.topicsData topic _ t = _
      by_cases ht : t = topic
      · subst ht
        rw [update_self, if_pos ⟨hstep, rfl⟩, hdata, Option.map_some]
      · rw [update_of_ne ht, if_neg fun h => ht h.2]
  · rw [if_pos hstep, if_neg fun h => hstep h.1]

theorem feedTopic_step : (self.feedTopic topic currentTime).step = self.step := by
  unfold feedTopic
  split_ifs
  · rfl
  · cases self.topicsData topic <;> rfl

/-- **What a message makes active.** -/
theorem active_feedTopic :
    Active (self.feedTopic topic currentTime) t = true ↔ Active self t = true ∨
      self.step = .running ∧ t = topic ∧ (self.topicsData t).isSome := by
  rw [Active, Active, feedTopic_topicsData]
  split_ifs with h
  · cases hdata : self.topicsData t with
    | none => simp
    | some data => simp [feedData_isActive, h]
  · constructor
    · exact .inl
    · rintro (hactive | ⟨hstep, ht, -⟩)
      · exact hactive
      · exact absurd ⟨hstep, ht⟩ h

theorem Quiet.feedTopic (h : Quiet self) : Quiet (self.feedTopic topic currentTime) := by
  intro t data hdata hactive
  rw [feedTopic_topicsData] at hdata
  split_ifs at hdata
  · obtain ⟨old, -, rfl⟩ := Option.map_eq_some_iff.mp hdata
    rw [feedData_isActive] at hactive
    cases hactive
  · exact h t data hdata hactive

/-- What the statistics of a topic do to the data: a timeout forgets the messages. -/
theorem calculate_topicsData (self : TopicHzCalculator) (topic t : Common.TopicInfo)
    (currentTime : ℤ) :
    (self.calculate topic currentTime).1.topicsData t = self.topicsData t ∨
      ∃ data, self.topicsData t = some data ∧
        (self.calculate topic currentTime).1.topicsData t =
          some { data with times := [], msgT0 := minTime, msgTn := minTime } := by
  unfold calculate
  split_ifs with hstep
  · exact .inl rfl
  · cases hdata : self.topicsData topic with
    | none => exact .inl rfl
    | some data =>
      dsimp only
      split_ifs
      · exact .inl rfl
      · by_cases ht : t = topic
        · subst ht
          exact .inr ⟨data, hdata, update_self ..⟩
        · exact .inl (update_of_ne ht ..)
      · exact .inl rfl

theorem calculate_step : (self.calculate topic currentTime).1.step = self.step := by
  unfold calculate
  split_ifs
  · rfl
  · cases self.topicsData topic with
    | none => rfl
    | some data =>
      dsimp only
      split_ifs <;> rfl

theorem isSome_calculate :
    ((self.calculate topic currentTime).1.topicsData t).isSome = (self.topicsData t).isSome := by
  rcases calculate_topicsData self topic t currentTime with h | ⟨data, hdata, h⟩
  · rw [h]
  · rw [h, hdata]
    rfl

theorem active_calculate : Active (self.calculate topic currentTime).1 t = Active self t := by
  rw [Active, Active]
  rcases calculate_topicsData self topic t currentTime with h | ⟨data, hdata, h⟩
  · rw [h]
  · rw [h, hdata]
    rfl

theorem Quiet.calculate (h : Quiet self) : Quiet (self.calculate topic currentTime).1 := by
  intro t data' hdata' hactive
  rcases calculate_topicsData self topic t currentTime with heq | ⟨data, hdata, heq⟩
  · rw [heq] at hdata'
    exact h t data' hdata' hactive
  · rw [heq] at hdata'
    rw [← Option.some.inj hdata']

/-- **What the statistics say of messages.** -/
theorem calculate_isActive (hstep : self.step = .running) :
    (self.calculate topic currentTime).2.isActive = Active self topic := by
  unfold calculate Active
  rw [if_neg (not_not_intro hstep)]
  cases self.topicsData topic with
  | none => rfl
  | some data =>
    dsimp only [Option.any_some]
    split_ifs <;> rfl

theorem Quiet.silent (h : Quiet self) : Silent (self.calculate topic currentTime).2 := by
  intro hactive
  unfold TopicHzCalculator.calculate at hactive ⊢
  split_ifs at hactive ⊢ with hstep
  · rfl
  · cases hdata : self.topicsData topic with
    | none => rfl
    | some data =>
      rw [hdata] at hactive
      dsimp only at hactive ⊢
      have hinactive : data.isActive = false := by
        split_ifs at hactive <;> exact hactive
      rw [h topic data hdata hinactive, hinactive]
      rfl

/-! ### Maps of statistics -/

/-- A map calls no topic active that is not, and has default statistics for the others. -/
def Honest (active : Common.TopicInfo → Bool) (m : Common.TopicInfo → TopicFrequencyStats) :
    Prop :=
  ∀ t, ((m t).isActive = true → active t = true) ∧ Silent (m t)

/-- What one map calls active, the other one does too. -/
def Le (m m' : Common.TopicInfo → TopicFrequencyStats) : Prop :=
  ∀ t, (m t).isActive = true → (m' t).isActive = true

theorem Le.refl (m : Common.TopicInfo → TopicFrequencyStats) : Le m m := fun _ h => h

theorem Le.trans {m₁ m₂ m₃ : Common.TopicInfo → TopicFrequencyStats} (h : Le m₁ m₂)
    (h' : Le m₂ m₃) : Le m₁ m₃ :=
  fun t ht => h' t (h t ht)

theorem honest_default (active : Common.TopicInfo → Bool) :
    Honest active fun _ => ({} : TopicFrequencyStats) :=
  fun _ => ⟨nofun, fun _ => rfl⟩

theorem Honest.mono {active active' : Common.TopicInfo → Bool}
    {m : Common.TopicInfo → TopicFrequencyStats} (h : Honest active m)
    (hle : ∀ t, active t = true → active' t = true) : Honest active' m :=
  fun t => ⟨fun ht => hle t ((h t).1 ht), (h t).2⟩

theorem Honest.update {active : Common.TopicInfo → Bool}
    {m : Common.TopicInfo → TopicFrequencyStats} (h : Honest active m)
    {stats : TopicFrequencyStats} (hactive : stats.isActive = true → active topic = true)
    (hsilent : Silent stats) : Honest active (update m topic stats) := by
  intro t
  by_cases ht : t = topic
  · subst ht
    rw [update_self]
    exact ⟨hactive, hsilent⟩
  · rw [update_of_ne ht]
    exact h t

/-! ### The topics of a side -/

/-- The topics are those that were registered, and their data and statistics know of no messages
but those that the side was fed with. -/
structure Sound (fed : Common.TopicInfo → Prop) (topics : Topics) : Prop where
  quiet : Quiet topics.hzCalculate
  fed : ∀ t, Active topics.hzCalculate t = true → fed t
  registered : ∀ t, (topics.hzCalculate.topicsData t).isSome = true ↔
    t ∈ topics.topicSet.map TopicInfo.hzTopic
  fresh : topics.hzCalculate.step ≠ .running → topics.topicSet = []
  map : Honest (Active topics.hzCalculate) topics.hzMap

variable {fed fed' : Common.TopicInfo → Prop} {topics topics' : Topics}

theorem sound_init : Sound fed {} where
  quiet := nofun
  fed _ h := by cases h
  registered t := by simp
  fresh _ := rfl
  map := honest_default _

theorem Sound.mono (h : Sound fed topics) (hfed : ∀ t, fed t → fed' t) : Sound fed' topics :=
  { h with fed := fun t ht => hfed t (h.fed t ht) }

theorem Sound.not_active_of_not_running (h : Sound fed topics)
    (hstep : topics.hzCalculate.step ≠ .running) (t : Common.TopicInfo) :
    topics.hzCalculate.topicsData t = none := by
  rw [← Option.not_isSome_iff_eq_none, h.registered t, h.fresh hstep]
  exact List.not_mem_nil

/-- What `Set…TopicInfoList` does, if it does not throw. -/
theorem setTopicInfoList_eq_ok {topicList : List TopicInfo}
    (h : topics.setTopicInfoList topicList = .ok topics') :
    topics.hzCalculate.step = .init ∧
      topics' = { topics with
        topicSet := topicList
        hzCalculate :=
          { windowSize := 5000
            topicsData := fun t =>
              if t ∈ topicList.map TopicInfo.hzTopic then some {}
              else topics.hzCalculate.topicsData t
            step := .running } } := by
  rw [Topics.setTopicInfoList, initializeTopics] at h
  split_ifs at h with hstep
  · cases h
    exact ⟨hstep, rfl⟩
  · cases h

theorem Sound.setTopicInfoList (h : Sound fed topics) {topicList : List TopicInfo}
    (hset : topics.setTopicInfoList topicList = .ok topics') : Sound fed topics' := by
  obtain ⟨hstep, rfl⟩ := setTopicInfoList_eq_ok hset
  have hnone : ∀ t, topics.hzCalculate.topicsData t = none :=
    h.not_active_of_not_running (by rw [hstep]; decide)
  have hdata : ∀ t data, (if t ∈ topicList.map TopicInfo.hzTopic then some ({} : TopicData)
      else topics.hzCalculate.topicsData t) = some data → data = {} := by
    intro t data hdata
    split_ifs at hdata
    · exact (Option.some.inj hdata).symm
    · rw [hnone t] at hdata
      cases hdata
  refine ⟨fun t data hd _ => ?_, fun t ht => ?_, fun t => ?_, fun hrun => absurd rfl hrun, ?_⟩
  · rw [hdata t data hd]
  · obtain ⟨data, hd, hactive⟩ := (Option.any_eq_true ..).mp ht
    rw [hdata t data hd] at hactive
    cases hactive
  · show (if t ∈ topicList.map TopicInfo.hzTopic then some ({} : TopicData)
      else topics.hzCalculate.topicsData t).isSome = true ↔ _
    split_ifs with hmem
    · exact iff_of_true rfl hmem
    · rw [hnone t]
      exact iff_of_false Bool.false_ne_true hmem
  · refine h.map.mono fun t ht => ?_
    rw [Active, hnone t] at ht
    cases ht

theorem Sound.feed (h : Sound fed topics) (hfed : ∀ t, fed t ∨ t = topic → fed' t) :
    Sound fed' { topics with hzCalculate := topics.hzCalculate.feedTopic topic currentTime } where
  quiet := h.quiet.feedTopic
  fed t ht := by
    rcases active_feedTopic.mp ht with ht | ⟨-, ht, -⟩
    · exact hfed t (.inl (h.fed t ht))
    · exact hfed t (.inr ht)
  registered t := by
    rw [← h.registered t]
    show ((topics.hzCalculate.feedTopic topic currentTime).topicsData t).isSome = true ↔ _
    rw [feedTopic_topicsData]
    split_ifs
    · rw [Option.isSome_map]
    · exact Iff.rfl
  fresh hstep := h.fresh (by rwa [feedTopic_step] at hstep)
  map := h.map.mono fun t ht => active_feedTopic.mpr (.inl ht)

theorem Sound.calculate (h : Sound fed topics) :
    Sound fed
      { topics with hzCalculate := (topics.hzCalculate.calculate topic currentTime).1 } where
  quiet := h.quiet.calculate
  fed t ht := h.fed t (by rwa [active_calculate] at ht)
  registered t := by
    rw [isSome_calculate]
    exact h.registered t
  fresh hstep := h.fresh (by rwa [calculate_step] at hstep)
  map := h.map.mono fun t ht => by rwa [active_calculate]

theorem Sound.assign (h : Sound fed topics) {allStats : Common.TopicInfo → TopicFrequencyStats}
    (hstats : Honest (Active topics.hzCalculate) allStats) :
    Sound fed { topics with hzMap := allStats } :=
  { h with map := hstats }

end AimrtComm.Monitor
