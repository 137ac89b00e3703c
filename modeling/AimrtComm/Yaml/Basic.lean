import AimrtComm.Lib.Assoc
import Mathlib.Data.String.Basic

/-!
# YAML nodes

The configuration code works on `YAML::Node` trees.  A node here is its value: an undefined node
(what `operator[]` hands out for a missing key), a null, a scalar, a sequence or a map, each of
the last three with its tag as `Tag()` returns it.  Map fields keep their insertion order, and a
lookup takes the first field of a key.

The source assigns nodes by reference.  The documents it patches are trees without shared nodes,
and the right-hand side of an assignment is not read again, so an assignment is modelled by
putting the assigned value in the place of the old one.

`Error` collects the two ways a configuration step stops: the exceptions of the YAML library and
the panics of the program, each with the node its message points at.
-/

namespace AimrtComm

/-- The value of a `YAML::Node`. -/
inductive Yaml where
  | undefined
  | null
  | scalar (tag text : String)
  | seq (tag : String) (items : List Yaml)
  | map (tag : String) (fields : List (String × Yaml))
deriving Repr, Inhabited

namespace Yaml

/-! ### Decidable equality -/

mutual

def decEq : (a b : Yaml) → Decidable (a = b)
  | .undefined, .undefined => isTrue rfl
  | .null, .null => isTrue rfl
  | .scalar t s, .scalar t' s' => decidable_of_iff (t = t' ∧ s = s') (by simp)
  | .seq t xs, .seq t' xs' =>
    match decEqItems xs xs' with
    | isTrue h => decidable_of_iff (t = t') (by simp [h])
    | isFalse h => isFalse (by simp [h])
  | .map t fs, .map t' fs' =>
    match decEqFields fs fs' with
    | isTrue h => decidable_of_iff (t = t') (by simp [h])
    | isFalse h => isFalse (by simp [h])
  | .undefined, .null | .undefined, .scalar .. | .undefined, .seq .. | .undefined, .map ..
  | .null, .undefined | .null, .scalar .. | .null, .seq .. | .null, .map ..
  | .scalar .., .undefined | .scalar .., .null | .scalar .., .seq .. | .scalar .., .map ..
  | .seq .., .undefined | .seq .., .null | .seq .., .scalar .. | .seq .., .map ..
  | .map .., .undefined | .map .., .null | .map .., .scalar .. | .map .., .seq .. => isFalse nofun

def decEqItems : (xs ys : List Yaml) → Decidable (xs = ys)
  | [], [] => isTrue rfl
  | [], _ :: _ => isFalse nofun
  | _ :: _, [] => isFalse nofun
  | x :: xs, y :: ys =>
    match decEq x y, decEqItems xs ys with
    | isTrue h, isTrue h' => isTrue (by rw [h, h'])
    | isFalse h, _ => isFalse (by simp [h])
    | _, isFalse h => isFalse (by simp [h])

def decEqFields : (xs ys : List (String × Yaml)) → Decidable (xs = ys)
  | [], [] => isTrue rfl
  | [], _ :: _ => isFalse nofun
  | _ :: _, [] => isFalse nofun
  | (k, x) :: xs, (l, y) :: ys =>
    match decEq x y, decEqFields xs ys with
    | isTrue h, isTrue h' => decidable_of_iff (k = l) (by simp [h, h'])
    | isFalse h, _ => isFalse (by simp [h])
    | _, isFalse h => isFalse (by simp [h])

end

instance : DecidableEq Yaml := decEq

/-! ### Queries -/

/-- `IsDefined()`. -/
def isDefined : Yaml → Bool
  | undefined => false
  | _ => true

/-- `IsNull()`. -/
def isNull : Yaml → Bool
  | null => true
  | _ => false

/-- `IsMap()`. -/
def isMap : Yaml → Bool
  | map .. => true
  | _ => false

/-- `IsSequence()`. -/
def isSequence : Yaml → Bool
  | seq .. => true
  | _ => false

/-- `Tag()`. -/
def tag : Yaml → String
  | undefined | null => ""
  | scalar t _ | seq t _ | map t _ => t

/-- The elements that iterating over a node yields when it is a sequence. -/
def items : Yaml → List Yaml
  | seq _ xs => xs
  | _ => []

/-- The fields that iterating over a node yields when it is a map: an undefined field, created by
a lookup and never assigned, is skipped. -/
def fields : Yaml → List (String × Yaml)
  | map _ fs => fs.filter fun f => f.2.isDefined
  | _ => []

end Yaml

/-- The project's `IsUndefined`: `not node.IsDefined() or node.IsNull()`. -/
def IsUndefined (node : Yaml) : Bool := !node.isDefined || node.isNull

/-! ### Patch modes and errors -/

/-- `Cfg::Processor::PatchMode`, a set of flags in a `std::uint32_t`. -/
structure PatchMode where
  bits : BitVec 32
deriving DecidableEq, Repr

namespace PatchMode

def undefined : PatchMode := ⟨0⟩
def override : PatchMode := ⟨1⟩
def overrideFront : PatchMode := ⟨1 <<< 1⟩
def overrideBack : PatchMode := ⟨1 <<< 2⟩
def skip : PatchMode := ⟨1 <<< 3⟩
def newFront : PatchMode := ⟨1 <<< 4⟩
def newBack : PatchMode := ⟨1 <<< 5⟩
def newNever : PatchMode := ⟨1 <<< 6⟩
def delete : PatchMode := ⟨1 <<< 7⟩
def explicit : PatchMode := ⟨1 <<< 8⟩
def merge : PatchMode := ⟨1 <<< 9⟩

/-- `operator&`: the two sets of flags meet. -/
def has (lhs rhs : PatchMode) : Bool := (lhs.bits &&& rhs.bits) != 0

/-- `operator|`. -/
def or (lhs rhs : PatchMode) : PatchMode := ⟨lhs.bits ||| rhs.bits⟩

end PatchMode

namespace Cfg

/-- What stops a configuration step. -/
inductive Error where
  /-- `TypedBadConversion`: `as<std::string>()` of a node that is not a scalar. -/
  | badConversion
  /-- `BadSubscript`: `operator[]` of a scalar. -/
  | badSubscript
  /-- `InvalidNode`: `operator[]` of what iterating over a map yields, which is a pair. -/
  | invalidNode
  /-- A failed `assert`. -/
  | assertion
  /-- `PanicUnsupportedMode`. -/
  | unsupportedMode (node : Yaml) (mode : String)
  /-- A mode word given twice. -/
  | multipleMode (node : Yaml) (mode : PatchMode)
  /-- `delete`, `override` and `skip` used together. -/
  | exclusiveModes (node : Yaml)
  /-- A patch item without a new word for an element that is not there. -/
  | nonExisted (item : Yaml)
  /-- A patch item with only a new word for an element that is there. -/
  | existed (item : Yaml)
deriving DecidableEq, Repr

end Cfg

namespace Yaml

open Cfg

/-- `as<std::string>()`: a null converts to the text `null`. -/
def asString : Yaml → Except Error String
  | null => .ok "null"
  | scalar _ s => .ok s
  | _ => .error .badConversion

/-- `as<std::string>(fallback)`. -/
def asStringOr (node : Yaml) (fallback : String) : String :=
  match node.asString with
  | .ok text => text
  | .error _ => fallback

/-- `operator[]` of a constant node with a string key. -/
def get (node : Yaml) (key : String) : Except Error Yaml :=
  match node with
  | map _ fs => .ok (Assoc.get undefined key fs)
  | scalar .. => .error .badSubscript
  | undefined | null | seq .. => .ok undefined

/-- The child of `key`, undefined if there is none or the node has no children. -/
def child (node : Yaml) (key : String) : Yaml :=
  match node with
  | map _ fs => Assoc.get undefined key fs
  | _ => undefined

/-- The fields after `operator[]` of a node that is not constant turned it into a map: an
undefined or null node becomes an empty map, a sequence a map from its indices. -/
def convertToMap : Yaml → Except Error (String × List (String × Yaml))
  | map t fs => .ok (t, fs)
  | undefined | null => .ok ("", [])
  | seq t xs => .ok (t, xs.zipIdx.map fun x => (toString x.2, x.1))
  | scalar .. => .error .badSubscript

/-- `f(node[key])` for a node that is not constant and an `f` that assigns to its argument. -/
def modifyField (node : Yaml) (key : String) (f : Yaml → Except Error Yaml) :
    Except Error Yaml := do
  let (t, fs) ← node.convertToMap
  let v ← f (Assoc.get undefined key fs)
  return map t (Assoc.upsert undefined key (fun _ => v) fs)

/-! ### Well-formed nodes -/

mutual

/-- Every map of the tree has pairwise distinct keys. -/
def WellFormed : Yaml → Prop
  | undefined | null | scalar .. => True
  | seq _ xs => WellFormedItems xs
  | map _ fs => (Assoc.keys fs).Nodup ∧ WellFormedFields fs

def WellFormedItems : List Yaml → Prop
  | [] => True
  | x :: xs => x.WellFormed ∧ WellFormedItems xs

def WellFormedFields : List (String × Yaml) → Prop
  | [] => True
  | (_, v) :: fs => v.WellFormed ∧ WellFormedFields fs

end

end Yaml

end AimrtComm
