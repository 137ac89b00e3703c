import Mathlib.Analysis.Real.Sqrt
import Mathlib.Data.Rat.Cast.OfScientific
import Mathlib.Order.Bounds.Basic
import Mathlib.Tactic.FieldSimp
import Mathlib.Tactic.Linarith
import Mathlib.Tactic.NormNum
import AimrtComm.Common.Statistics

/-!
# The unit of the statistics

Nothing is rounded here: the statistics are made of real numbers.  `Calculate` gives all of them in
seconds exactly when the topic has not timed out and the mean of its gaps is not negative
(`oneUnit_iff`).  In a report of a timeout they are left in nanoseconds.
-/

namespace AimrtComm.Common

noncomputable instance : Arithmetic ℝ where
  decidableLT := inferInstance
  ofInt n := n
  ofNat n := n
  square x := x ^ 2
  sqrt := Real.sqrt

/-! ### The statistics of a window -/

/-- The mean of the gaps. -/
noncomputable def meanGap (gaps : List ℤ) : ℝ :=
  (gaps.map fun gap : ℤ => (gap : ℝ)).sum / gaps.length

/-- The standard deviation of the gaps. -/
noncomputable def gapDeviation (gaps : List ℤ) : ℝ :=
  √((gaps.map fun gap : ℤ => ((gap : ℝ) - meanGap gaps) ^ 2).sum / gaps.length)

/-- The silence a topic is allowed. -/
noncomputable def allowedSilence (gaps : List ℤ) : ℝ :=
  max (meanGap gaps + 5 * gapDeviation gaps) 2000000000

/-- Nanoseconds as seconds. -/
noncomputable def seconds (nanoseconds : ℝ) : ℝ := nanoseconds / 1000000000

/-- Everything that is reported of these gaps after this silence is in seconds. -/
structure OneUnit (gaps : List ℤ) (silence : ℤ) (stats : Stats ℝ) : Prop where
  minDelta : ∃ gap, IsLeast {gap | gap ∈ gaps} gap ∧ stats.minDelta = seconds gap
  maxDelta : ∃ gap, IsGreatest {gap | gap ∈ gaps} gap ∧ stats.maxDelta = seconds gap
  stdDev : stats.stdDev = seconds (gapDeviation gaps)
  timeoutThreshold : stats.timeoutThreshold = seconds (allowedSilence gaps)
  rate_eq_zero : stats.rate = 0 ↔ allowedSilence gaps < silence ∨ meanGap gaps = 0
  rate_eq : stats.rate ≠ 0 → stats.rate = (seconds (meanGap gaps))⁻¹

/-! ### What the code computes -/

theorem foldl_add_eq_sum (f : ℤ → ℝ) (gaps : List ℤ) (start : ℝ) :
    gaps.foldl (fun sum val => sum + f val) start = start + (gaps.map f).sum := by
  induction gaps generalizing start with
  | nil => simp
  | cons gap gaps ih =>
    rw [List.foldl_cons, ih, List.map_cons, List.sum_cons, add_assoc]

theorem mean_eq (gaps : List ℤ) : Stats.mean ℝ gaps = meanGap gaps := by
  have hsum := foldl_add_eq_sum (fun gap => (gap : ℝ)) gaps 0.0
  have hzero : (0.0 : ℝ) = 0 := by norm_num
  rw [hzero, zero_add] at hsum
  show gaps.foldl (fun sum (val : ℤ) => sum + (val : ℝ)) 0.0 / (gaps.length : ℝ) = _
  rw [hzero, hsum]
  rfl

theorem deviation_eq (gaps : List ℤ) : Stats.deviation ℝ gaps = gapDeviation gaps := by
  have hsum := foldl_add_eq_sum (fun gap => ((gap : ℝ) - meanGap gaps) ^ 2) gaps 0.0
  have hzero : (0.0 : ℝ) = 0 := by norm_num
  rw [hzero, zero_add] at hsum
  show √(gaps.foldl (fun sum (val : ℤ) => sum + ((val : ℝ) - Stats.mean ℝ gaps) ^ 2) 0.0 /
    (gaps.length : ℝ)) = _
  rw [mean_eq, hzero, hsum]
  rfl

theorem threshold_eq (gaps : List ℤ) : Stats.threshold ℝ gaps = allowedSilence gaps := by
  have htwo : (2e9 : ℝ) = 2000000000 := by norm_num
  show (if Stats.mean ℝ gaps + ((5 : ℕ) : ℝ) * Stats.deviation ℝ gaps < 2e9 then (2e9 : ℝ)
    else Stats.mean ℝ gaps + ((5 : ℕ) : ℝ) * Stats.deviation ℝ gaps) = _
  rw [mean_eq, deviation_eq, htwo, Nat.cast_ofNat]
  unfold allowedSilence
  by_cases hlt : meanGap gaps + 5 * gapDeviation gaps < 2000000000
  · rw [if_pos hlt, max_eq_right hlt.le]
  · rw [if_neg hlt, max_eq_left (not_lt.mp hlt)]

theorem timedOut_iff (data : TopicData) (currentTime : ℤ) (hne : data.times ≠ []) :
    Stats.timedOut ℝ data currentTime = true ↔
      allowedSilence data.times < ((currentTime - data.msgTn : ℤ) : ℝ) := by
  have hempty : data.times.isEmpty = false := List.isEmpty_eq_false_iff.mpr hne
  show (!data.times.isEmpty && decide (Stats.threshold ℝ data.times <
    ((currentTime - data.msgTn : ℤ) : ℝ))) = true ↔ _
  rw [hempty, threshold_eq, Bool.not_false, Bool.true_and, decide_eq_true_eq]

theorem isLeast_min (gaps : List ℤ) (hne : gaps ≠ []) :
    IsLeast {gap | gap ∈ gaps} (gaps.min?.getD 0) := by
  obtain ⟨low, hlow⟩ := Option.isSome_iff_exists.mp (List.isSome_min?_of_ne_nil hne)
  rw [hlow]
  exact List.min?_eq_some_iff.mp hlow

theorem isGreatest_max (gaps : List ℤ) (hne : gaps ≠ []) :
    IsGreatest {gap | gap ∈ gaps} (gaps.max?.getD 0) := by
  obtain ⟨high, hhigh⟩ := Option.isSome_iff_exists.mp (List.isSome_max?_of_ne_nil hne)
  rw [hhigh]
  exact List.max?_eq_some_iff.mp hhigh

/-! ### The report -/

section Report

variable {self : TopicHzCalculator} {topic : TopicInfo} {currentTime : ℤ} {data : TopicData}

/-- The statistics that `Calculate` starts to make. -/
noncomputable def windowStats (self : TopicHzCalculator) (data : TopicData) : Stats ℝ :=
  Stats.ofTimes { Stats.start with maxWindow := self.windowSize, isActive := data.isActive }
    data.times

theorem calculateIn_eq (hstep : self.step = .running)
    (hdata : self.topicsData topic = some data) (hne : data.times ≠ []) :
    (self.calculateIn ℝ topic currentTime).2 =
      if Stats.timedOut ℝ data currentTime then
        { windowStats self data with rate := Arithmetic.ofNat 0 }
      else (windowStats self data).inSeconds := by
  have hempty : data.times.isEmpty = false := List.isEmpty_eq_false_iff.mpr hne
  unfold TopicHzCalculator.calculateIn windowStats
  rw [if_neg (not_not_intro hstep), hdata]
  dsimp only
  rw [hempty, if_neg Bool.false_ne_true]
  by_cases hout : Stats.timedOut ℝ data currentTime = true
  · rw [if_pos hout, if_pos hout]
  · rw [if_neg hout, if_neg hout]

theorem windowStats_rate :
    (windowStats self data).rate =
      if 0 < meanGap data.times then 1 / meanGap data.times else 0 := by
  have hone : (1.0 : ℝ) = 1 := by norm_num
  show (if ((0 : ℕ) : ℝ) < Stats.mean ℝ data.times then 1.0 / Stats.mean ℝ data.times
    else ((0 : ℕ) : ℝ)) = _
  rw [mean_eq, hone, Nat.cast_zero]

theorem windowStats_timeoutThreshold :
    (windowStats self data).timeoutThreshold = allowedSilence data.times :=
  threshold_eq data.times

theorem mul_nano (x : ℝ) : x * 1e-9 = seconds x := by
  unfold seconds
  norm_num
  ring

/-- A report of a timeout is in nanoseconds. -/
theorem not_oneUnit_of_timedOut {silence : ℤ} (hstep : self.step = .running)
    (hdata : self.topicsData topic = some data) (hne : data.times ≠ [])
    (hout : Stats.timedOut ℝ data currentTime = true) :
    ¬ OneUnit data.times silence (self.calculateIn ℝ topic currentTime).2 := by
  intro hunit
  have hthreshold := hunit.timeoutThreshold
  rw [calculateIn_eq hstep hdata hne, if_pos hout] at hthreshold
  have hnano : allowedSilence data.times = seconds (allowedSilence data.times) := by
    have hwindow : (windowStats self data).timeoutThreshold = allowedSilence data.times :=
      windowStats_timeoutThreshold
    exact hwindow.symm.trans hthreshold
  -- at least two seconds are allowed, so the two units give different numbers
  have hallowed : (2000000000 : ℝ) ≤ allowedSilence data.times := le_max_right _ _
  unfold seconds at hnano
  linarith

/-- The rate of a topic that has not timed out. -/
theorem inSeconds_rate :
    (windowStats self data).inSeconds.rate =
      if 0 < meanGap data.times then (seconds (meanGap data.times))⁻¹ else 0 := by
  have hnano : (1e9 : ℝ) = 1000000000 := by norm_num
  show (windowStats self data).rate * 1e9 = _
  rw [windowStats_rate, hnano]
  by_cases hmean : 0 < meanGap data.times
  · rw [if_pos hmean, if_pos hmean]
    unfold seconds
    field_simp
  · rw [if_neg hmean, if_neg hmean, zero_mul]

/-- The rate is what it should be, if the mean is not negative. -/
theorem rate_iff_of_not_timedOut {silence : ℤ}
    (hsilence : ¬ allowedSilence data.times < silence) :
    ((windowStats self data).inSeconds.rate = 0 ↔
      allowedSilence data.times < silence ∨ meanGap data.times = 0) ↔ 0 ≤ meanGap data.times := by
  rw [inSeconds_rate]
  by_cases hmean : 0 < meanGap data.times
  · have hrate : (seconds (meanGap data.times))⁻¹ ≠ 0 := by
      apply inv_ne_zero
      apply ne_of_gt
      unfold seconds
      linarith
    rw [if_pos hmean]
    simp [hrate, hsilence, hmean.ne', hmean.le]
  · rw [if_neg hmean]
    simp only [true_iff, hsilence, false_or]
    exact ⟨fun hzero => hzero.ge, fun hnonneg => le_antisymm (not_lt.mp hmean) hnonneg⟩

theorem oneUnit_of_not_timedOut {silence : ℤ} (hne : data.times ≠ [])
    (hsilence : ¬ allowedSilence data.times < silence) (hmean : 0 ≤ meanGap data.times) :
    OneUnit data.times silence (windowStats self data).inSeconds where
  minDelta := ⟨_, isLeast_min data.times hne, mul_nano _⟩
  maxDelta := ⟨_, isGreatest_max data.times hne, mul_nano _⟩
  stdDev := by
    show Stats.deviation ℝ data.times * 1e-9 = _
    rw [deviation_eq, mul_nano]
  timeoutThreshold := by
    show (windowStats self data).timeoutThreshold * 1e-9 = _
    rw [windowStats_timeoutThreshold, mul_nano]
  rate_eq_zero := (rate_iff_of_not_timedOut hsilence).mpr hmean
  rate_eq := by
    intro hrate
    rw [inSeconds_rate] at hrate ⊢
    by_cases hpos : 0 < meanGap data.times
    · rw [if_pos hpos]
    · rw [if_neg hpos] at hrate
      contradiction

/-- **One unit exactly without a timeout.** -/
theorem oneUnit_iff (hstep : self.step = .running) (hdata : self.topicsData topic = some data)
    (hne : data.times ≠ []) :
    OneUnit data.times (currentTime - data.msgTn) (self.calculateIn ℝ topic currentTime).2 ↔
      ((currentTime - data.msgTn : ℤ) : ℝ) ≤ allowedSilence data.times ∧
        0 ≤ meanGap data.times := by
  by_cases hout : Stats.timedOut ℝ data currentTime = true
  · have hsilence := (timedOut_iff data currentTime hne).mp hout
    constructor
    · intro hunit
      exact absurd hunit (not_oneUnit_of_timedOut hstep hdata hne hout)
    · rintro ⟨hle, -⟩
      exact absurd hsilence (not_lt.mpr hle)
  · have hsilence := (timedOut_iff data currentTime hne).not.mp hout
    rw [calculateIn_eq hstep hdata hne, if_neg hout]
    constructor
    · intro hunit
      exact ⟨not_lt.mp hsilence, (rate_iff_of_not_timedOut hsilence).mp hunit.rate_eq_zero⟩
    · rintro ⟨-, hmean⟩
      exact oneUnit_of_not_timedOut hne hsilence hmean

end Report

/-- The data of a topic that has sent two messages, a second apart. -/
def twoMessages : TopicData where
  msgT0 := 0
  msgTn := 1000000000
  times := [1000000000]
  isActive := true

/-- A calculator of such topics. -/
def twoMessagesCalculator : TopicHzCalculator where
  topicsData _ := some twoMessages
  step := .running

theorem meanGap_twoMessages : meanGap [1000000000] = 1000000000 := by
  simp [meanGap]

theorem allowedSilence_twoMessages : allowedSilence [1000000000] = 2000000000 := by
  have hdeviation : gapDeviation [1000000000] = 0 := by
    unfold gapDeviation
    rw [meanGap_twoMessages]
    simp
  unfold allowedSilence
  rw [meanGap_twoMessages, hdeviation]
  norm_num

theorem oneUnit_iff_twoMessages :
    OneUnit twoMessages.times (2000000000 - twoMessages.msgTn)
      (twoMessagesCalculator.calculateIn ℝ ⟨"p", "t", "m"⟩ 2000000000).2 := by
  refine (oneUnit_iff rfl rfl (List.cons_ne_nil _ _)).mpr ⟨?_, ?_⟩
  · show ((1000000000 : ℤ) : ℝ) ≤ allowedSilence [1000000000]
    rw [allowedSilence_twoMessages]
    norm_num
  · show 0 ≤ meanGap [1000000000]
    rw [meanGap_twoMessages]
    norm_num

/-- Nine seconds after the last message the topic has timed out, and the statistics are not in
seconds. -/
theorem timeout_in_nanoseconds :
    ¬ ∀ (self : TopicHzCalculator) (topic : TopicInfo) (currentTime : ℤ) (data : TopicData),
      self.step = .running → self.topicsData topic = some data → data.times ≠ [] →
        OneUnit data.times (currentTime - data.msgTn)
          (self.calculateIn ℝ topic currentTime).2 := by
  intro hall
  have hunit := hall twoMessagesCalculator ⟨"p", "t", "m"⟩ 10000000000 twoMessages rfl rfl
    (List.cons_ne_nil _ _)
  apply not_oneUnit_of_timedOut rfl rfl (List.cons_ne_nil _ _) ?_ hunit
  rw [timedOut_iff _ _ (List.cons_ne_nil _ _)]
  show allowedSilence [1000000000] < ((9000000000 : ℤ) : ℝ)
  rw [allowedSilence_twoMessages]
  norm_num

end AimrtComm.Common
