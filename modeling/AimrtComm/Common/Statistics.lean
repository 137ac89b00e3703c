import AimrtComm.Common.TopicHzCalculator

/-!
# The statistics over other numbers

`Calculate` once more, over any numbers that have the operations it needs.  Over `Float` it is
`TopicHzCalculator.calculate` (`calculateIn_float`); over the real numbers it says what the code
computes when nothing is rounded.
-/

namespace AimrtComm.Common

/-- The operations of `double` that the statistics are made with. -/
class Arithmetic (F : Type) extends Add F, Sub F, Mul F, Div F, LT F, OfScientific F where
  decidableLT : DecidableLT F
  ofInt : ℤ → F
  ofNat : ℕ → F
  /-- `std::pow(x, 2)` -/
  square : F → F
  sqrt : F → F

attribute [reducible, instance] Arithmetic.decidableLT

instance : Arithmetic Float where
  decidableLT := inferInstance
  ofInt := Float.ofInt
  ofNat := Float.ofNat
  square x := x.pow 2
  sqrt := Float.sqrt

/-- `TopicFrequencyStats`. -/
structure Stats (F : Type) where
  rate : F
  minDelta : F
  maxDelta : F
  stdDev : F
  maxWindow : ℕ := 0
  windowSize : ℕ := 0
  timeoutThreshold : F
  isActive : Bool := false

/-- The statistics as `double`. -/
def TopicFrequencyStats.stats (stats : TopicFrequencyStats) : Stats Float where
  rate := stats.rate
  minDelta := stats.minDelta
  maxDelta := stats.maxDelta
  stdDev := stats.stdDev
  maxWindow := stats.maxWindow
  windowSize := stats.windowSize
  timeoutThreshold := stats.timeoutThreshold
  isActive := stats.isActive

namespace Stats

variable (F : Type) [Arithmetic F]

open Arithmetic

/-- The mean of the gaps. -/
def mean (times : List ℤ) : F :=
  times.foldl (fun sum val => sum + ofInt val) 0.0 / ofNat times.length

/-- Their standard deviation. -/
def deviation (times : List ℤ) : F :=
  sqrt (times.foldl (fun sum val => sum + square (ofInt val - mean F times)) 0.0 /
    ofNat times.length)

/-- The silence after which a topic has timed out, two seconds at least. -/
def threshold (times : List ℤ) : F :=
  let threshold := mean F times + ofNat 5 * deviation F times
  if threshold < 2e9 then 2e9 else threshold

/-- The topic has timed out. -/
def timedOut (data : TopicData) (currentTime : ℤ) : Bool :=
  !data.times.isEmpty && threshold F data.times < ofInt (currentTime - data.msgTn)

variable {F}

/-- The statistics before there are any. -/
def start : Stats F where
  rate := ofNat 0
  minDelta := ofNat 0
  maxDelta := ofNat 0
  stdDev := ofNat 0
  timeoutThreshold := ofNat 0

/-- The statistics of gaps, in nanoseconds. -/
def ofTimes (stats : Stats F) (times : List ℤ) : Stats F :=
  { stats with
    rate := if ofNat 0 < mean F times then 1.0 / mean F times else ofNat 0
    stdDev := deviation F times
    maxDelta := ofInt (times.max?.getD 0)
    minDelta := ofInt (times.min?.getD 0)
    windowSize := times.length
    timeoutThreshold := threshold F times }

/-- The statistics in seconds. -/
def inSeconds (stats : Stats F) : Stats F :=
  { stats with
    rate := stats.rate * 1e9
    stdDev := stats.stdDev * 1e-9
    minDelta := stats.minDelta * 1e-9
    maxDelta := stats.maxDelta * 1e-9
    timeoutThreshold := stats.timeoutThreshold * 1e-9 }

end Stats

open Arithmetic Stats

/-- `Calculate`. -/
def TopicHzCalculator.calculateIn (F : Type) [Arithmetic F] (self : TopicHzCalculator)
    (topic : TopicInfo) (currentTime : ℤ) : TopicHzCalculator × Stats F :=
  if self.step ≠ .running then (self, start)
  else
    match self.topicsData topic with
    | none => (self, { start with maxWindow := self.windowSize })
    | some data =>
      let stats : Stats F :=
        { start with maxWindow := self.windowSize, isActive := data.isActive }
      if data.times.isEmpty then (self, stats)
      else
        let stats := stats.ofTimes data.times
        if Stats.timedOut F data currentTime then
          let data : TopicData := { data with times := [], msgT0 := minTime, msgTn := minTime }
          ({ self with topicsData := Function.update self.topicsData topic (some data) },
            { stats with rate := ofNat 0 })
        else (self, stats.inSeconds)

/-- **Over `Float` this is the code.** -/
theorem TopicHzCalculator.calculateIn_float (self : TopicHzCalculator) (topic : TopicInfo)
    (currentTime : ℤ) :
    self.calculateIn Float topic currentTime =
      ((self.calculate topic currentTime).1, (self.calculate topic currentTime).2.stats) := by
  have hout : ∀ data, Stats.timedOut Float data currentTime = timedOut data currentTime :=
    fun data => rfl
  unfold calculateIn calculate
  by_cases hstep : self.step = .running
  · rw [if_neg (not_not_intro hstep), if_neg (not_not_intro hstep)]
    cases self.topicsData topic with
    | none => rfl
    | some data =>
      dsimp only
      rw [hout]
      split_ifs <;> rfl
  · rw [if_pos hstep, if_pos hstep]
    rfl

end AimrtComm.Common
