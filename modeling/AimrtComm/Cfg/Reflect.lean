import Mathlib.Algebra.Group.Int.Defs

/-!
# Durations in the configuration

A duration stands in the yaml as a value with a unit (`cfg/reflect.cpp`).  `DurationRfl::from_class`
takes the largest unit that divides it, and `DurationRfl::to_class` goes back to nanoseconds.

An overflow of a signed product has no defined result, which is `none`.
-/

namespace AimrtComm.Cfg

/-- A product in `std::int64_t`. -/
def checkedMul (a b : Int64) : Option Int64 :=
  if -2 ^ 63 ≤ a.toInt * b.toInt ∧ a.toInt * b.toInt < 2 ^ 63 then some (a * b) else none

/-- `DurationRfl::Unit`. -/
inductive DurationRfl.Unit where
  | sec
  | ms
  | us
  | ns
  | min
  deriving DecidableEq, Repr

/-- `DurationRfl`. -/
structure DurationRfl where
  value : Int64 := 0
  unit : DurationRfl.Unit := .sec
  deriving DecidableEq

namespace DurationRfl

/-- `from_class`, of a number of nanoseconds. -/
def fromClass (t : Int64) : DurationRfl :=
  let value := t
  if value % 1000 ≠ 0 then ⟨value, .ns⟩
  else
    let value := value / 1000
    if value % 1000 ≠ 0 then ⟨value, .us⟩
    else
      let value := value / 1000
      if value % 1000 ≠ 0 then ⟨value, .ms⟩
      else
        let value := value / 1000
        if value % 1000 ≠ 0 then ⟨value, .sec⟩
        else
          let value := value / 1000
          ⟨value, .min⟩

/-- `to_class`: the conversion of `std::chrono` multiplies by the nanoseconds of the unit. -/
def toClass (self : DurationRfl) : Option Int64 :=
  match self.unit with
  | .sec => checkedMul self.value 1000000000
  | .ms => checkedMul self.value 1000000
  | .us => checkedMul self.value 1000
  | .ns => some self.value
  | .min => (checkedMul self.value 1000).bind fun value => checkedMul value 1000000000

end DurationRfl

end AimrtComm.Cfg
