import Mathlib.Algebra.Group.Int.Defs
import Mathlib.Algebra.Group.Nat.Defs
import Mathlib.Tactic.Common

/-!
# Machine integers and memory blocks

Two conversions between the integer types of a 64-bit C target: a `size_t`
read as an `int`, and an `int` widened to a `size_t`.  Both are the identity on
the small non-negative range (`CInt.ofSize_of_lt`, `CInt.toSize_natCast`).

A block is the list of the bytes of one allocation.  A read or a write outside
it has no result.
-/

namespace CInt

/-- A `size_t` converted to a 32-bit `int`. -/
def ofSize (n : Nat) : Int :=
  if n % 2 ^ 32 < 2 ^ 31 then (n % 2 ^ 32 : Nat) else (n % 2 ^ 32 : Nat) - 2 ^ 32

/-- A 32-bit `int` converted to a 64-bit `size_t`. -/
def toSize (i : Int) : Nat := (i % 2 ^ 64).toNat

theorem ofSize_of_lt {n : Nat} (h : n < 2 ^ 31) : ofSize n = n := by
  rw [ofSize, if_pos (by omega)]
  omega

theorem ofSize_lt (n : Nat) : ofSize n < 2 ^ 31 := by
  unfold ofSize
  split <;> omega

theorem ofSize_le (n : Nat) : ofSize n ≤ n := by
  unfold ofSize
  split <;> omega

theorem ofSize_neg {n : Nat} (h : 2 ^ 31 ≤ n) (h' : n < 2 ^ 32) : ofSize n < 0 := by
  rw [ofSize, if_neg (by omega)]
  omega

theorem toSize_natCast {n : Nat} (h : n < 2 ^ 64) : toSize n = n := by
  rw [toSize]
  omega

end CInt

namespace Block

variable {α : Type}

/-- The bytes `x` written into a block from offset `off` on. -/
def write (b : List α) (off : Nat) (x : List α) : Option (List α) :=
  if off + x.length ≤ b.length then some (b.take off ++ x ++ b.drop (off + x.length)) else none

/-- The `n` bytes of a block from offset `off` on. -/
def read (b : List α) (off n : Nat) : Option (List α) :=
  if off + n ≤ b.length then some ((b.drop off).take n) else none

/-- `calloc(1, size)` with an `int` size: zero bytes when the allocator grants
them.  A negative size is more than any allocation and is never granted. -/
def calloc [Zero α] (granted : Bool) (size : Int) : Option (List α) :=
  if granted = true ∧ 0 ≤ size then some (List.replicate size.toNat 0) else none

/-- `memmove` inside a block. -/
def move (b : List α) (dst src n : Nat) : Option (List α) := (read b src n).bind (write b dst)

variable {b b' x : List α} {off : Nat}

theorem write_of_le (h : off + x.length ≤ b.length) :
    write b off x = some (b.take off ++ x ++ b.drop (off + x.length)) := by
  rw [write, if_pos h]

theorem length_of_write (h : write b off x = some b') : b'.length = b.length := by
  unfold write at h
  split at h
  · cases h
    simp only [List.length_append, List.length_take, List.length_drop]
    omega
  · cases h

/-- A write behind a known front. -/
theorem write_append {a c : List α} (h : x.length ≤ c.length) :
    write (a ++ c) a.length x = some (a ++ (x ++ c.drop x.length)) := by
  rw [write_of_le (by rw [List.length_append]; omega), List.take_left, List.drop_append,
    List.drop_eq_nil_of_le (by omega), Nat.add_sub_cancel_left, List.nil_append, List.append_assoc]

/-- A read behind a known front. -/
theorem read_append {a c : List α} : read (a ++ (x ++ c)) a.length x.length = some x := by
  rw [read, if_pos (by simp only [List.length_append]; omega), List.drop_left, List.take_left]

/-- What was written is what stands there. -/
theorem take_drop_of_write (h : write b off x = some b') : (b'.drop off).take x.length = x := by
  unfold write at h
  split at h
  next hle =>
    cases h
    rw [List.append_assoc, List.drop_left' (List.length_take_of_le (by omega)), List.take_left]
  · cases h

theorem eq_of_read {n : Nat} (h : read b off n = some x) : x = (b.drop off).take n := by
  unfold read at h
  split at h
  · exact (Option.some.inj h).symm
  · cases h

theorem length_of_read {n : Nat} (h : read b off n = some x) : x.length = n := by
  unfold read at h
  split at h
  · cases h
    rw [List.length_take, List.length_drop]
    omega
  · cases h

end Block
