import Mathlib.Algebra.Group.Int.Defs
import Mathlib.Data.List.Basic
import Mathlib.Data.String.Basic
import Mathlib.Logic.Function.Basic

/-!
# The frequency of topics

`TopicHzCalculator` keeps the last gaps between the messages of each topic.  `FeedTopic` tells it of
a message, `Calculate` makes the statistics of a topic and forgets its messages when the topic has
been silent for too long.

A time point is a number of nanoseconds, and what the steady clock shows is an argument.
-/

namespace AimrtComm.Common

/-- `TopicFrequencyStats`. -/
structure TopicFrequencyStats where
  rate : Float := 0
  minDelta : Float := 0
  maxDelta : Float := 0
  stdDev : Float := 0
  maxWindow : ℕ := 0
  windowSize : ℕ := 0
  timeoutThreshold : Float := 0
  isActive : Bool := false

/-- `TopicInfo`. -/
structure TopicInfo where
  processName : String
  topicName : String
  msgType : String
  deriving DecidableEq

/-- `TimePoint::min()`. -/
def minTime : ℤ := -9223372036854775808

/-- `TopicData`. -/
structure TopicData where
  msgT0 : ℤ := minTime
  msgTn : ℤ := minTime
  times : List ℤ := []
  isActive : Bool := false

/-- `Step`. -/
inductive Step where
  | init
  | running
  deriving DecidableEq

/-- `TopicHzCalculator`. -/
structure TopicHzCalculator where
  windowSize : ℕ := 400
  topicsData : TopicInfo → Option TopicData := fun _ => none
  step : Step := .init

namespace TopicHzCalculator

/-- `Initialize`. -/
def initializeTopics (self : TopicHzCalculator) (topicList : List TopicInfo) (windowSize : ℕ) :
    Except String TopicHzCalculator :=
  if self.step = .init then
    .ok
      { windowSize := windowSize
        topicsData := fun topic => if topic ∈ topicList then some {} else self.topicsData topic
        step := .running }
  else .error "the topic hz calculate can only be initialized once!"

/-- What `FeedTopic` does to the data of the topic. -/
def feedData (windowSize : ℕ) (currentTime : ℤ) (data : TopicData) : TopicData :=
  let data := { data with isActive := true }
  if currentTime = minTime then { data with times := [] }
  else
    let data :=
      if data.msgT0 = minTime ∨ currentTime < data.msgT0 then
        { data with msgT0 := currentTime, msgTn := currentTime, times := [] }
      else
        { data with times := data.times ++ [currentTime - data.msgTn], msgTn := currentTime }
    if windowSize < data.times.length then { data with times := data.times.drop 1 } else data

/-- `FeedTopic`. -/
def feedTopic (self : TopicHzCalculator) (topic : TopicInfo) (currentTime : ℤ) :
    TopicHzCalculator :=
  if self.step ≠ .running then self
  else
    match self.topicsData topic with
    | none => self
    | some data =>
      let data := feedData self.windowSize currentTime data
      { self with topicsData := Function.update self.topicsData topic (some data) }

/-- The mean of the gaps. -/
def mean (times : List ℤ) : Float :=
  times.foldl (fun sum val => sum + Float.ofInt val) 0.0 / Float.ofNat times.length

/-- Their standard deviation. -/
def stdDev (times : List ℤ) : Float :=
  (times.foldl (fun sum val => sum + (Float.ofInt val - mean times).pow 2) 0.0 /
    Float.ofNat times.length).sqrt

/-- The silence after which a topic has timed out, two seconds at least. -/
def timeoutThreshold (times : List ℤ) : Float :=
  let threshold := mean times + 5 * stdDev times
  if threshold < 2e9 then 2e9 else threshold

/-- The topic has timed out: `Calculate` reports it and forgets the messages. -/
def timedOut (data : TopicData) (currentTime : ℤ) : Bool :=
  !data.times.isEmpty && timeoutThreshold data.times < Float.ofInt (currentTime - data.msgTn)

/-- The statistics of gaps, in nanoseconds. -/
def statsOf (stats : TopicFrequencyStats) (times : List ℤ) : TopicFrequencyStats :=
  { stats with
    rate := if 0 < mean times then 1.0 / mean times else 0
    stdDev := stdDev times
    maxDelta := Float.ofInt (times.max?.getD 0)
    minDelta := Float.ofInt (times.min?.getD 0)
    windowSize := times.length
    timeoutThreshold := timeoutThreshold times }

/-- The statistics in seconds. -/
def inSeconds (stats : TopicFrequencyStats) : TopicFrequencyStats :=
  { stats with
    rate := stats.rate * 1e9
    stdDev := stats.stdDev * 1e-9
    minDelta := stats.minDelta * 1e-9
    maxDelta := stats.maxDelta * 1e-9
    timeoutThreshold := stats.timeoutThreshold * 1e-9 }

/-- `Calculate`. -/
def calculate (self : TopicHzCalculator) (topic : TopicInfo) (currentTime : ℤ) :
    TopicHzCalculator × TopicFrequencyStats :=
  if self.step ≠ .running then (self, {})
  else
    match self.topicsData topic with
    | none => (self, { maxWindow := self.windowSize })
    | some data =>
      let stats := { maxWindow := self.windowSize, isActive := data.isActive }
      if data.times.isEmpty then (self, stats)
      else
        let stats := statsOf stats data.times
        if timedOut data currentTime then
          let data : TopicData := { data with times := [], msgT0 := minTime, msgTn := minTime }
          ({ self with topicsData := Function.update self.topicsData topic (some data) },
            { stats with rate := 0 })
        else (self, inSeconds stats)

/-- `CalculateAll`, with the topics in the order of the map and the clock at each of them. -/
def calculateAll (self : TopicHzCalculator) :
    List (TopicInfo × ℤ) → TopicHzCalculator × List (TopicInfo × TopicFrequencyStats)
  | [] => (self, [])
  | (topic, currentTime) :: rest =>
    let (self, stats) := self.calculate topic currentTime
    let (self, allStats) := self.calculateAll rest
    (self, (topic, stats) :: allStats)

end TopicHzCalculator

end AimrtComm.Common
