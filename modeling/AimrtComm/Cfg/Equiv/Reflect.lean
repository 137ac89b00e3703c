import AimrtComm.Cfg.Reflect
import Mathlib.Algebra.Group.Int.Defs
import Mathlib.Tactic.ByContra

/-!
## What durations mean

The yaml says `1 min` for 60 seconds, while the code takes a unit `min` for 1000 seconds in both
directions, so that the two undo each other.  What is read and written means what the code makes of
it exactly when the unit is another one, or there is nothing to count (`meansItsUnit_iff`).
-/

namespace AimrtComm.Cfg.DurationRfl

/-! ### Meaning -/

/-- The nanoseconds of a unit. -/
def Unit.nanoseconds : Unit → ℤ
  | ns => 1
  | us => 1000
  | ms => 1000 * 1000
  | sec => 1000 * 1000 * 1000
  | min => 60 * (1000 * 1000 * 1000)

/-- The nanoseconds that a value with a unit denotes. -/
def denotes (self : DurationRfl) : ℤ := self.value.toInt * self.unit.nanoseconds

/-- The numbers of `std::int64_t`. -/
abbrev InRange (n : ℤ) : Prop := -2 ^ 63 ≤ n ∧ n < 2 ^ 63

/-! ### Reading -/

/-- A product that is in range is the one of the numbers. -/
theorem map_toInt_checkedMul {a b : Int64} (h : InRange (a.toInt * b.toInt)) :
    (checkedMul a b).map Int64.toInt = some (a.toInt * b.toInt) := by
  rw [checkedMul, if_pos h, Option.map_some, Int64.toInt_mul, Int.bmod_eq_of_le]
  · have hlo := h.1
    omega
  · have hhi := h.2
    omega

/-- A product that has a result has the right one. -/
theorem toInt_of_checkedMul {a b c : Int64} (h : checkedMul a b = some c) :
    c.toInt = a.toInt * b.toInt := by
  have hrange : InRange (a.toInt * b.toInt) := by
    by_contra hout
    rw [checkedMul, if_neg hout] at h
    cases h
  have hmap := map_toInt_checkedMul hrange
  rw [h, Option.map_some] at hmap
  exact Option.some.inj hmap

/-- What `to_class` makes of a minute is 1000 seconds. -/
theorem toInt_of_toClass_min {value t : Int64} (h : toClass ⟨value, .min⟩ = some t) :
    t.toInt = value.toInt * 1000 * 1000000000 := by
  rw [toClass, Option.bind_eq_some_iff] at h
  obtain ⟨seconds, hseconds, ht⟩ := h
  rw [toInt_of_checkedMul ht, toInt_of_checkedMul hseconds]
  rfl

/-- **`to_class` returns what a value with a unit denotes**, unless it is a number of minutes. -/
theorem toClass_iff {self : DurationRfl} (h : InRange self.denotes) :
    (self.toClass).map Int64.toInt = some self.denotes ↔ self.unit ≠ .min ∨ self.value = 0 := by
  obtain ⟨value, unit⟩ := self
  cases unit with
  | sec => exact iff_of_true (map_toInt_checkedMul h) (.inl Unit.noConfusion)
  | ms => exact iff_of_true (map_toInt_checkedMul h) (.inl Unit.noConfusion)
  | us => exact iff_of_true (map_toInt_checkedMul h) (.inl Unit.noConfusion)
  | ns =>
    refine iff_of_true ?_ (.inl Unit.noConfusion)
    show some value.toInt = some (value.toInt * 1)
    rw [Int.mul_one]
  | min =>
    constructor
    · intro heq
      obtain ⟨t, ht, hdenotes⟩ := Option.map_eq_some_iff.mp heq
      rw [toInt_of_toClass_min ht] at hdenotes
      have hzero : value.toInt = 0 := by
        have hmin : value.toInt * 1000 * 1000000000 = value.toInt * 60000000000 := hdenotes
        omega
      exact .inr (Int64.toInt_inj.mp hzero)
    · rintro (hne | rfl)
      · exact absurd rfl hne
      · rfl

/-! ### Writing -/

theorem mod_eq_zero_iff (x : Int64) : x % 1000 = 0 ↔ 1000 ∣ x.toInt := by
  rw [← Int64.toInt_inj, Int64.toInt_mod]
  show x.toInt.tmod 1000 = 0 ↔ _
  exact (Int.dvd_iff_tmod_eq_zero).symm

/-- A value that the unit divides is a multiple of the next unit. -/
theorem toInt_eq_mul {x : Int64} (h : x % 1000 = 0) : x.toInt = 1000 * (x / 1000).toInt := by
  rw [Int64.toInt_div_of_ne_right x 1000 (by decide)]
  exact (Int.mul_tdiv_cancel' ((mod_eq_zero_iff x).mp h)).symm

/-- **`from_class` writes what a duration is**, unless it is a number of 1000 seconds. -/
theorem denotes_fromClass_iff (t : Int64) :
    (fromClass t).denotes = t.toInt ↔ t = 0 ∨ ¬ 1000000000000 ∣ t.toInt := by
  have hzero : t = 0 ↔ t.toInt = 0 := Int64.toInt_inj.symm
  rw [hzero, fromClass]
  by_cases hns : t % 1000 = 0
  · have ht := toInt_eq_mul hns
    rw [if_neg (not_not_intro hns)]
    by_cases hus : t / 1000 % 1000 = 0
    · have hus' := toInt_eq_mul hus
      rw [if_neg (not_not_intro hus)]
      by_cases hms : t / 1000 / 1000 % 1000 = 0
      · have hms' := toInt_eq_mul hms
        rw [if_neg (not_not_intro hms)]
        by_cases hsec : t / 1000 / 1000 / 1000 % 1000 = 0
        · -- a number of 1000 seconds, which is written with the unit `min`
          have hsec' := toInt_eq_mul hsec
          rw [if_neg (not_not_intro hsec)]
          show (t / 1000 / 1000 / 1000 / 1000).toInt * (60 * (1000 * 1000 * 1000)) = t.toInt ↔ _
          omega
        · rw [if_pos hsec]
          rw [mod_eq_zero_iff] at hsec
          show (t / 1000 / 1000 / 1000).toInt * (1000 * 1000 * 1000) = t.toInt ↔ _
          omega
      · rw [if_pos hms]
        rw [mod_eq_zero_iff] at hms
        show (t / 1000 / 1000).toInt * (1000 * 1000) = t.toInt ↔ _
        omega
    · rw [if_pos hus]
      rw [mod_eq_zero_iff] at hus
      show (t / 1000).toInt * 1000 = t.toInt ↔ _
      omega
  · rw [if_pos hns]
    rw [mod_eq_zero_iff] at hns
    show t.toInt * 1 = t.toInt ↔ _
    omega

/-- **A duration means what its unit says** exactly where the unit is not `min`: nothing is written
with it and nothing read, or only a zero. -/
theorem meansItsUnit_iff (t : Int64) {self : DurationRfl} (h : InRange self.denotes) :
    ((fromClass t).denotes = t.toInt ↔ t = 0 ∨ ¬ 1000000000000 ∣ t.toInt) ∧
    (self.toClass.map Int64.toInt = some self.denotes ↔ self.unit ≠ .min ∨ self.value = 0) :=
  ⟨denotes_fromClass_iff t, toClass_iff h⟩

/-- 90 seconds and 2 minutes. -/
theorem meansItsUnit_iff_sample :
    (fromClass 90000000000).denotes = 90000000000 ∧
      ¬ (toClass ⟨2, .min⟩).map Int64.toInt = some 120000000000 := by
  have hrange : InRange (denotes ⟨2, .min⟩) := by decide
  obtain ⟨hwrite, hread⟩ := meansItsUnit_iff 90000000000 hrange
  exact ⟨hwrite.mpr (.inr (by decide)), fun h => absurd (hread.mp h) (by decide)⟩

/-- 1000 seconds are written as one minute, and one minute is read as 1000 seconds. -/
theorem minute_is_1000_seconds :
    ¬ ((∀ t : Int64, (fromClass t).denotes = t.toInt) ∧
      ∀ self : DurationRfl, InRange self.denotes →
        self.toClass.map Int64.toInt = some self.denotes) := by
  rintro ⟨hwrite, -⟩
  have hminute := hwrite 1000000000000
  revert hminute
  decide

end AimrtComm.Cfg.DurationRfl
