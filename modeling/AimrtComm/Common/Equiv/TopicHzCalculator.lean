import AimrtComm.Common.TopicHzCalculator
import AimrtComm.Lib.SlidingWindow
import AimrtComm.Lib.Transition
import Mathlib.Algebra.Order.Group.Int

/-!
# The window of a topic is exact

`watch topic` runs a calculator under a clock that does not go back, and writes down beside it when
messages of `topic` arrived since the last time its timeout was reported.  A reading of
`TimePoint::min()` is no time of a message.

`Tracks` ties the data of the topic to these arrivals: the first one is `msgT0`, the last one
`msgTn`, and the last gaps between them are `times`.  Every operation keeps it, and what the window
is to satisfy (`Window`) follows.
-/

namespace AimrtComm.Common

open SlidingWindow TopicHzCalculator

/-! ### The watched calculator -/

/-- A calculator, what the clock showed last, and the arrivals of the watched topic. -/
structure Watched where
  self : TopicHzCalculator
  clock : ℤ
  arrivals : List ℤ

/-- A call, with what the clock shows at it. -/
inductive Call where
  | initializeTopics (topicList : List TopicInfo) (windowSize : ℕ)
  | feedTopic (topic : TopicInfo) (currentTime : ℤ)
  | calculate (topic : TopicInfo) (currentTime : ℤ)

/-- The arrivals of the watched topic after a message of `topic'`. -/
def Watched.arrive (topic : TopicInfo) (s : Watched) (topic' : TopicInfo) (currentTime : ℤ) :
    List ℤ :=
  if topic' = topic ∧ (s.self.topicsData topic).isSome ∧ currentTime ≠ minTime then
    s.arrivals ++ [currentTime]
  else s.arrivals

/-- `Calculate` reports a timeout of this topic. -/
def reportsTimeout (self : TopicHzCalculator) (topic : TopicInfo) (currentTime : ℤ) : Bool :=
  self.step = .running && (self.topicsData topic).any fun data => timedOut data currentTime

/-- The arrivals after statistics of `topic'` were made. -/
def Watched.forget (topic : TopicInfo) (s : Watched) (topic' : TopicInfo) (currentTime : ℤ) :
    List ℤ :=
  if topic' = topic ∧ reportsTimeout s.self topic currentTime then [] else s.arrivals

/-- The state after a call, if the clock has not gone back at it. -/
def Watched.step (topic : TopicInfo) (s : Watched) : Call → Option Watched
  | .initializeTopics topicList windowSize =>
    (s.self.initializeTopics topicList windowSize).toOption.map fun self => { s with self := self }
  | .feedTopic topic' currentTime =>
    if currentTime < s.clock then none
    else some
      { self := s.self.feedTopic topic' currentTime
        clock := currentTime
        arrivals := s.arrive topic topic' currentTime }
  | .calculate topic' currentTime =>
    if currentTime < s.clock then none
    else some
      { self := (s.self.calculate topic' currentTime).1
        clock := currentTime
        arrivals := s.forget topic topic' currentTime }

/-- Calls under a clock that does not go back. -/
def watch (topic : TopicInfo) : System Watched Call where
  init := ⟨{}, minTime, []⟩
  step := Watched.step topic

/-- The window of size `W` is exact for these arrivals since the last reset. -/
structure Window (W : ℕ) (arrivals : List ℤ) (data : TopicData) : Prop where
  times_eq : data.times = (gaps arrivals).rtake (min (arrivals.length - 1) W)
  length_le : data.times.length ≤ W
  nonneg : ∀ gap ∈ data.times, 0 ≤ gap
  sum_eq : ∀ first last, arrivals[arrivals.length - 1 - data.times.length]? = some first →
    arrivals.getLast? = some last → data.times.sum = last - first
  real : data.times ≠ [] → data.msgT0 ≠ minTime ∧ data.msgTn ≠ minTime

/-! ### The data of a topic -/

/-- The data of a topic that had these arrivals, when the clock showed `clock` last. -/
structure Tracks (W : ℕ) (clock : ℤ) (arrivals : List ℤ) (data : TopicData) : Prop where
  msgT0_eq : data.msgT0 = arrivals.head?.getD minTime
  msgTn_eq : data.msgTn = arrivals.getLast?.getD minTime
  times_eq : data.times = (gaps arrivals).rtake W
  ordered : arrivals.Pairwise (· ≤ ·)
  bounds : ∀ a ∈ arrivals, minTime < a ∧ a ≤ clock

variable {W : ℕ} {clock currentTime : ℤ} {arrivals : List ℤ} {data : TopicData}

theorem Tracks.later (h : Tracks W clock arrivals data) (hclock : clock ≤ currentTime) :
    Tracks W currentTime arrivals data where
  msgT0_eq := h.msgT0_eq
  msgTn_eq := h.msgTn_eq
  times_eq := h.times_eq
  ordered := h.ordered
  bounds := by
    intro a ha
    have hbounds := h.bounds a ha
    exact ⟨hbounds.1, hbounds.2.trans hclock⟩

/-- The data of a topic without messages. -/
theorem tracks_nil (W : ℕ) (clock : ℤ) (isActive : Bool) :
    Tracks W clock [] { isActive := isActive } where
  msgT0_eq := rfl
  msgTn_eq := rfl
  times_eq := by simp [gaps]
  ordered := List.Pairwise.nil
  bounds := by simp

theorem Tracks.eq_of_nil (h : Tracks W clock [] data) : data = { isActive := data.isActive } := by
  have htimes : data.times = [] := by simpa [gaps] using h.times_eq
  have ht0 := h.msgT0_eq
  have htn := h.msgTn_eq
  cases data
  simp only at htimes ht0 htn
  rw [ht0, htn, htimes]
  rfl

/-- A message that is not the first one slides the window. -/
theorem feedData_push (hreal : currentTime ≠ minTime) (hfirst : data.msgT0 ≠ minTime)
    (hclock : data.msgT0 ≤ currentTime) :
    feedData W currentTime data =
      { msgT0 := data.msgT0
        msgTn := currentTime
        times := slide W data.times (currentTime - data.msgTn)
        isActive := true } := by
  have hlater : ¬ (data.msgT0 = minTime ∨ currentTime < data.msgT0) := by omega
  simp only [feedData, slide, hreal, hlater, if_false]
  split_ifs <;> rfl

theorem Tracks.feedData (h : Tracks W clock arrivals data) (hclock : clock ≤ currentTime)
    (hmin : minTime ≤ clock) (hreal : currentTime ≠ minTime) :
    Tracks W currentTime (arrivals ++ [currentTime]) (feedData W currentTime data) := by
  have hordered : (arrivals ++ [currentTime]).Pairwise (· ≤ ·) := by
    rw [List.pairwise_append]
    refine ⟨h.ordered, List.pairwise_singleton _ _, ?_⟩
    intro a ha b hb
    obtain rfl := List.mem_singleton.mp hb
    exact (h.bounds a ha).2.trans hclock
  have hbounds : ∀ a ∈ arrivals ++ [currentTime], minTime < a ∧ a ≤ currentTime := by
    intro a ha
    rcases List.mem_append.mp ha with ha | ha
    · have ha := h.bounds a ha
      omega
    · obtain rfl := List.mem_singleton.mp ha
      omega
  cases arrivals with
  | nil =>
    rw [h.eq_of_nil]
    -- the first message: `msgT0` is the least time point until then
    have hfeed : TopicHzCalculator.feedData W currentTime { isActive := data.isActive } =
        { msgT0 := currentTime, msgTn := currentTime, isActive := true } := by
      simp [TopicHzCalculator.feedData, hreal]
    rw [hfeed]
    exact
      { msgT0_eq := rfl
        msgTn_eq := rfl
        times_eq := by simp [gaps]
        ordered := hordered
        bounds := hbounds }
  | cons first rest =>
    have hfirst := h.bounds first List.mem_cons_self
    have ht0 : data.msgT0 = first := h.msgT0_eq
    obtain ⟨last, hlast⟩ : ∃ last, (first :: rest).getLast? = some last :=
      ⟨_, List.getLast?_eq_some_getLast (List.cons_ne_nil first rest)⟩
    have htn : data.msgTn = last := by
      rw [h.msgTn_eq, hlast]
      rfl
    rw [feedData_push hreal (by omega) (by omega)]
    exact
      { msgT0_eq := ht0
        msgTn_eq := by
          rw [List.getLast?_concat]
          rfl
        times_eq := by
          rw [gaps_concat hlast, ← slide_rtake, ← h.times_eq, htn]
        ordered := hordered
        bounds := hbounds }

/-- At the least time point there was no message yet, and this is none. -/
theorem Tracks.feedData_minTime (h : Tracks W clock arrivals data) (hclock : clock ≤ minTime) :
    Tracks W minTime arrivals (TopicHzCalculator.feedData W minTime data) := by
  have hnil : arrivals = [] := by
    -- an arrival would be later than the least time point and not later than the clock
    rw [List.eq_nil_iff_forall_not_mem]
    intro a ha
    have hbounds := h.bounds a ha
    omega
  subst hnil
  rw [h.eq_of_nil]
  simpa [TopicHzCalculator.feedData] using tracks_nil W minTime true

/-- What the arrivals say about the window. -/
theorem Tracks.window (h : Tracks W clock arrivals data) : Window W arrivals data where
  times_eq := by
    rw [h.times_eq, ← length_gaps, rtake_min]
  length_le := by
    rw [h.times_eq, length_rtake]
    exact Nat.min_le_left _ _
  nonneg := by
    intro gap hgap
    rw [h.times_eq] at hgap
    exact nonneg_of_mem_gaps h.ordered gap (List.mem_of_mem_drop hgap)
  sum_eq := by
    intro first last hfirst hlast
    -- the gaps of the window are those of the last arrivals, whose sum is the time between the ends
    have hlength : data.times.length = min W (arrivals.length - 1) := by
      rw [h.times_eq, length_rtake, length_gaps]
    have hstart : arrivals.length - 1 - W = arrivals.length - 1 - data.times.length := by omega
    have hwindow : data.times = gaps (arrivals.drop (arrivals.length - 1 - data.times.length)) := by
      rw [gaps_drop, ← hstart, ← length_gaps]
      exact h.times_eq
    obtain ⟨hlt, hget⟩ := List.getElem?_eq_some_iff.mp hfirst
    have hcut : arrivals.drop (arrivals.length - 1 - data.times.length) =
        first :: arrivals.drop (arrivals.length - 1 - data.times.length + 1) := by
      rw [List.drop_eq_getElem_cons hlt, hget]
    have hend : (arrivals.drop (arrivals.length - 1 - data.times.length)).getLast? = some last := by
      rw [List.getLast?_drop, if_neg (by omega), hlast]
    rw [hcut] at hend hwindow
    rw [hwindow, sum_gaps hend]
  real := by
    intro hne
    cases arrivals with
    | nil => exact absurd (by simpa [gaps] using h.times_eq) hne
    | cons first rest =>
      obtain ⟨last, hlast⟩ : ∃ last, (first :: rest).getLast? = some last :=
        ⟨_, List.getLast?_eq_some_getLast (List.cons_ne_nil first rest)⟩
      have hfirst := h.bounds first List.mem_cons_self
      have hbounds := h.bounds last (List.mem_of_getLast? hlast)
      have ht0 : data.msgT0 = first := h.msgT0_eq
      have htn : data.msgTn = last := by
        rw [h.msgTn_eq, hlast]
        rfl
      omega

/-! ### Every run -/

/-- The watched topic is tracked once the calculator runs; before that there are no data. -/
structure Watched.Exact (topic : TopicInfo) (s : Watched) : Prop where
  clock_ge : minTime ≤ s.clock
  idle : s.self.step = .init → s.self.topicsData topic = none
  none_iff : s.self.topicsData topic = none → s.arrivals = []
  tracks : ∀ data, s.self.topicsData topic = some data →
    Tracks s.self.windowSize s.clock s.arrivals data

variable {topic topic' : TopicInfo} {s s' : Watched}

/-- The calculator changes only when it reports a timeout. -/
theorem calculate_eq_self {self : TopicHzCalculator}
    (h : reportsTimeout self topic currentTime = false) :
    (self.calculate topic currentTime).1 = self := by
  rw [calculate]
  split_ifs with hstep
  · rfl
  · cases hdata : self.topicsData topic with
    | none => rfl
    | some data =>
      have hrunning : self.step = .running := not_not.mp hstep
      have hin : timedOut data currentTime = false := by
        simpa [reportsTimeout, hrunning, hdata] using h
      simp only [hin, Bool.false_eq_true, if_false]
      split_ifs <;> rfl

/-- What it forgets then. -/
theorem calculate_of_timeout {self : TopicHzCalculator}
    (h : reportsTimeout self topic currentTime = true) :
    ∃ data, self.step = .running ∧ self.topicsData topic = some data ∧
      (self.calculate topic currentTime).1 =
        { self with
          topicsData := Function.update self.topicsData topic
            (some { isActive := data.isActive }) } := by
  rw [reportsTimeout, Bool.and_eq_true, decide_eq_true_eq, Option.any_eq_true] at h
  obtain ⟨hstep, data, hdata, hout⟩ := h
  have hne : data.times.isEmpty = false := by
    rw [timedOut, Bool.and_eq_true] at hout
    simpa using hout.1
  refine ⟨data, hstep, hdata, ?_⟩
  simp only [calculate, hstep, hdata, hout, hne]
  rfl

/-- The clock goes on, and the watched topic is as it was. -/
theorem Watched.Exact.frame {self : TopicHzCalculator} (h : s.Exact topic)
    (hclock : s.clock ≤ currentTime) (hstep : self.step = s.self.step)
    (hsize : self.windowSize = s.self.windowSize)
    (hdata : self.topicsData topic = s.self.topicsData topic) :
    Watched.Exact topic ⟨self, currentTime, s.arrivals⟩ where
  clock_ge := h.clock_ge.trans hclock
  idle := by
    intro hinit
    rw [hdata]
    exact h.idle (hstep ▸ hinit)
  none_iff := by
    intro hnone
    exact h.none_iff (hdata ▸ hnone)
  tracks := by
    intro data hsome
    show Tracks self.windowSize currentTime s.arrivals data
    rw [hsize]
    exact (h.tracks data (hdata ▸ hsome)).later hclock

/-- The watched topic has new data. -/
theorem Watched.Exact.update (h : s.Exact topic) (hclock : s.clock ≤ currentTime)
    (hstep : s.self.step ≠ .init)
    (hdata : Tracks s.self.windowSize currentTime arrivals data) :
    Watched.Exact topic
      ⟨{ s.self with topicsData := Function.update s.self.topicsData topic (some data) },
        currentTime, arrivals⟩ where
  clock_ge := h.clock_ge.trans hclock
  idle := fun hinit => absurd hinit hstep
  none_iff := by
    intro hnone
    simp at hnone
  tracks := by
    intro data' hsome
    obtain rfl : data = data' := by simpa using hsome
    exact hdata

theorem Watched.Exact.initializeTopics {self : TopicHzCalculator} {topicList : List TopicInfo}
    {windowSize : ℕ} (h : s.Exact topic)
    (hself : s.self.initializeTopics topicList windowSize = .ok self) :
    Watched.Exact topic { s with self := self } := by
  rw [TopicHzCalculator.initializeTopics] at hself
  split_ifs at hself with hinit
  obtain rfl := Except.ok.inj hself
  have hnone := h.idle hinit
  have hnil := h.none_iff hnone
  exact
    { clock_ge := h.clock_ge
      idle := by
        intro hrunning
        cases hrunning
      none_iff := fun _ => hnil
      tracks := by
        intro data hdata
        show Tracks windowSize s.clock s.arrivals data
        rw [hnil]
        -- a topic that is listed starts without data, as one that is not listed has none
        by_cases hmem : topic ∈ topicList
        · obtain rfl : ({} : TopicData) = data := by simpa [hmem] using hdata
          exact tracks_nil windowSize s.clock false
        · simp [hmem, hnone] at hdata }

theorem Watched.Exact.feedTopic (h : s.Exact topic) (hclock : s.clock ≤ currentTime) :
    Watched.Exact topic
      ⟨s.self.feedTopic topic' currentTime, currentTime, s.arrive topic topic' currentTime⟩ := by
  by_cases hstep : s.self.step = .running
  · cases hdata : s.self.topicsData topic' with
    | none =>
      have hself : s.self.feedTopic topic' currentTime = s.self := by
        simp [TopicHzCalculator.feedTopic, hstep, hdata]
      have harrive : s.arrive topic topic' currentTime = s.arrivals := by
        rw [Watched.arrive, if_neg]
        rintro ⟨rfl, hsome, -⟩
        simp [hdata] at hsome
      rw [hself, harrive]
      exact h.frame hclock rfl rfl rfl
    | some data =>
      have hself : s.self.feedTopic topic' currentTime =
          { s.self with
            topicsData := Function.update s.self.topicsData topic'
              (some (TopicHzCalculator.feedData s.self.windowSize currentTime data)) } := by
        simp [TopicHzCalculator.feedTopic, hstep, hdata]
      rw [hself]
      by_cases htopic : topic' = topic
      · subst htopic
        have hrunning : s.self.step ≠ .init := by simp [hstep]
        -- a message at the least time point is taken for none
        by_cases hreal : currentTime = minTime
        · subst hreal
          have harrive : s.arrive topic' topic' minTime = s.arrivals := by
            simp [Watched.arrive]
          rw [harrive]
          exact h.update hclock hrunning ((h.tracks data hdata).feedData_minTime hclock)
        · have harrive : s.arrive topic' topic' currentTime = s.arrivals ++ [currentTime] := by
            simp [Watched.arrive, hdata, hreal]
          rw [harrive]
          exact h.update hclock hrunning
            ((h.tracks data hdata).feedData hclock h.clock_ge hreal)
      · have harrive : s.arrive topic topic' currentTime = s.arrivals := by
          -- a message of another topic
          simp [Watched.arrive, htopic]
        rw [harrive]
        exact h.frame hclock rfl rfl (Function.update_of_ne (Ne.symm htopic) _ _)
  · have hself : s.self.feedTopic topic' currentTime = s.self := by
      -- nothing is counted before `Initialize`
      simp [TopicHzCalculator.feedTopic, hstep]
    have harrive : s.arrive topic topic' currentTime = s.arrivals := by
      have hinit : s.self.step = .init := by
        cases hs : s.self.step with
        | init => rfl
        | running => exact absurd hs hstep
      simp [Watched.arrive, h.idle hinit]
    rw [hself, harrive]
    exact h.frame hclock rfl rfl rfl

theorem Watched.Exact.calculate (h : s.Exact topic) (hclock : s.clock ≤ currentTime) :
    Watched.Exact topic
      ⟨(s.self.calculate topic' currentTime).1, currentTime,
        s.forget topic topic' currentTime⟩ := by
  cases hout : reportsTimeout s.self topic' currentTime with
  | false =>
    have hforget : s.forget topic topic' currentTime = s.arrivals := by
      rw [Watched.forget, if_neg]
      rintro ⟨rfl, htrue⟩
      simp [hout] at htrue
    rw [calculate_eq_self hout, hforget]
    exact h.frame hclock rfl rfl rfl
  | true =>
    -- a reported timeout forgets the messages of its topic
    obtain ⟨data, hstep, hdata, hself⟩ := calculate_of_timeout hout
    rw [hself]
    by_cases htopic : topic' = topic
    · subst htopic
      have hforget : s.forget topic' topic' currentTime = [] := by
        rw [Watched.forget, if_pos ⟨rfl, hout⟩]
      rw [hforget]
      exact h.update hclock (by simp [hstep]) (tracks_nil _ _ _)
    · have hforget : s.forget topic topic' currentTime = s.arrivals := by
        simp [Watched.forget, htopic]
      rw [hforget]
      exact h.frame hclock rfl rfl (Function.update_of_ne (Ne.symm htopic) _ _)

theorem Watched.Exact.step {call : Call} (h : s.Exact topic)
    (hstep : s.step topic call = some s') : s'.Exact topic := by
  cases call with
  | initializeTopics topicList windowSize =>
    rw [Watched.step] at hstep
    cases hself : s.self.initializeTopics topicList windowSize with
    | error e =>
      rw [hself] at hstep
      cases hstep
    | ok self =>
      rw [hself] at hstep
      obtain rfl := Option.some.inj hstep
      exact h.initializeTopics hself
  | feedTopic topic' currentTime =>
    rw [Watched.step] at hstep
    split_ifs at hstep with hclock
    obtain rfl := Option.some.inj hstep
    exact h.feedTopic (not_lt.mp hclock)
  | calculate topic' currentTime =>
    rw [Watched.step] at hstep
    split_ifs at hstep with hclock
    obtain rfl := Option.some.inj hstep
    exact h.calculate (not_lt.mp hclock)

theorem exact_init (topic : TopicInfo) : (watch topic).init.Exact topic where
  clock_ge := le_refl _
  idle := fun _ => rfl
  none_iff := fun _ => rfl
  tracks := by
    intro data hdata
    cases hdata

/-- `CalculateAll` does to the calculator what calls of `Calculate` one after the other do. -/
theorem calculateAll_fst (self : TopicHzCalculator) (readings : List (TopicInfo × ℤ)) :
    (self.calculateAll readings).1 =
      readings.foldl (fun self reading => (self.calculate reading.1 reading.2).1) self := by
  induction readings generalizing self with
  | nil => rfl
  | cons reading readings ih =>
    rw [List.foldl_cons, ← ih]
    rfl

/-- **The window of every watched topic is exact in every run**, and statistics change nothing
unless they report a timeout. -/
theorem exactWindow (h : (watch topic).Reachable s) :
    (∀ data, s.self.topicsData topic = some data → Window s.self.windowSize s.arrivals data) ∧
      ∀ topic' currentTime, reportsTimeout s.self topic' currentTime = false →
        (s.self.calculate topic' currentTime).1 = s.self := by
  have hexact : s.Exact topic := by
    apply h.invariant (exact_init topic)
    intro s call s' hs hstep
    exact hs.step hstep
  exact ⟨fun data hdata => (hexact.tracks data hdata).window,
    fun _ _ hin => calculate_eq_self hin⟩

/-- Three messages in a window of one gap. -/
def sampleCalls (topic : TopicInfo) : List Call :=
  [.initializeTopics [topic] 1, .feedTopic topic 5, .feedTopic topic 9, .feedTopic topic 20]

theorem exactWindow_sample :
    Window 1 [5, 9, 20] { msgT0 := 5, msgTn := 20, times := [11], isActive := true } := by
  have hreach : (watch ⟨"p", "t", "m"⟩).Reachable
      { self :=
          ((({} : TopicHzCalculator).initializeTopics [⟨"p", "t", "m"⟩] 1).toOption.getD {}
            |>.feedTopic ⟨"p", "t", "m"⟩ 5 |>.feedTopic ⟨"p", "t", "m"⟩ 9
            |>.feedTopic ⟨"p", "t", "m"⟩ 20)
        clock := 20
        arrivals := [5, 9, 20] } := System.reachable_of_run (sampleCalls ⟨"p", "t", "m"⟩) rfl
  exact (exactWindow hreach).1 _ rfl

end AimrtComm.Common
