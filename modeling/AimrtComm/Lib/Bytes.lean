import Mathlib.Data.List.Basic

/-!
# Byte strings of a fixed length

Fixed-length fields of a binary format, and reading them one after the other from a byte string:
what `take?` reads is what was written in front (`take?_append`, `take_of_take?`), and it uses up
exactly its length (`length_of_take?`).  `le64` is the memory image of a 64-bit integer, lowest byte
first.
-/

namespace AimrtComm

/-- A byte string of length `n`. -/
structure Bytes (n : ℕ) where
  val : List UInt8
  length_eq : val.length = n
deriving DecidableEq, Repr

namespace Bytes

variable {n : ℕ}

@[ext]
theorem ext {a b : Bytes n} (h : a.val = b.val) : a = b := by
  rcases a with ⟨a, ha⟩
  rcases b with ⟨b, hb⟩
  exact Bytes.mk.injEq .. |>.mpr h

/-- The string of zero bytes. -/
def zero (n : ℕ) : Bytes n := ⟨List.replicate n 0, List.length_replicate⟩

/-- Read `n` bytes from the front, if there are as many. -/
def take? (n : ℕ) (bytes : List UInt8) : Option (Bytes n × List UInt8) :=
  if h : n ≤ bytes.length then
    some (⟨bytes.take n, List.length_take_of_le h⟩, bytes.drop n)
  else none

@[simp]
theorem take?_append (b : Bytes n) (rest : List UInt8) :
    take? n (b.val ++ rest) = some (b, rest) := by
  have hle : n ≤ (b.val ++ rest).length := by
    rw [List.length_append, b.length_eq]
    exact Nat.le_add_right n rest.length
  unfold take?
  rw [dif_pos hle]
  refine congrArg some (Prod.ext (Bytes.ext ?_) ?_)
  · exact List.take_left' b.length_eq
  · exact List.drop_left' b.length_eq

theorem length_of_take? {bytes rest : List UInt8} {b : Bytes n}
    (h : take? n bytes = some (b, rest)) : bytes.length = n + rest.length := by
  unfold take? at h
  split_ifs at h with hle
  obtain ⟨-, rfl⟩ := Prod.mk.inj (Option.some.inj h)
  rw [List.length_drop]
  omega

theorem take_of_take? {bytes rest : List UInt8} {b : Bytes n}
    (h : take? n bytes = some (b, rest)) : bytes.take n = b.val := by
  unfold take? at h
  split_ifs at h with hle
  obtain ⟨rfl, -⟩ := Prod.mk.inj (Option.some.inj h)
  rfl

end Bytes

/-- The memory image of an integer, lowest byte first. -/
def le64 (x : UInt64) : List UInt8 :=
  (List.range 8).map fun i => UInt8.ofNat (x.toNat >>> (8 * i))

/-- The integer of a memory image. -/
def ofLe64 (bytes : List UInt8) : UInt64 :=
  UInt64.ofNat (bytes.foldr (fun byte x => byte.toNat + 256 * x) 0)

end AimrtComm
