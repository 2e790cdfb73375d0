import VmpSa.Lib.Slots
import Mathlib.Data.UInt

/-!
# The growable array

`CVector` of `vmp/src/vmp_vector.c`: elements of one size, copied in and out of
one allocation by their byte offsets.  The field `array` is the list of the
bytes of that allocation.

The functions take a handle that is not NULL.  `none` means that a call has no
defined result: an `int` product overflows, or a copy leaves its block.  The
answers of `malloc` come from outside; fresh bytes are indeterminate in C and
stand here as `0`.

`Keeps v xs` says that the vector keeps the elements `xs`.  Adding appends to
`xs`, also when the array is replaced by a larger one, and removing at an index
takes one element out.
-/

namespace VmpSa

/-- `CVECTOR_FLAGS_NO_RELOCATION` and `CVECTOR_FLAGS_NO_RESIZE`. -/
def cvectorFlagsNoRelocation : UInt32 := 1
def cvectorFlagsNoResize : UInt32 := 2

/-- The error codes `CVECTOR_MALLOC_FAILED` and so on. -/
def cvectorMallocFailed : Int := -1
def cvectorBadArgument : Int := -2
def cvectorNotFound : Int := -4
def cvectorNoRelocation : Int := -8
def cvectorNoResize : Int := -16

/-- `CVector`. -/
structure CVector where
  size : Nat
  capacity : Nat
  elementsize : Nat
  array : List UInt8
  flags : UInt32
deriving Repr, DecidableEq

namespace CVector

/-- The byte offset of an index, an `int` product. -/
def offset (v : CVector) (index : Nat) : Option Nat :=
  if index * v.elementsize < 2 ^ 31 then some (index * v.elementsize) else none

/-- Whether a flag is set. -/
def hasFlag (v : CVector) (flag : UInt32) : Bool := v.flags &&& flag != 0

/-- The elements by their offsets. -/
def elements (v : CVector) : List (List UInt8) :=
  (List.range v.size).map fun i => (v.array.drop (i * v.elementsize)).take v.elementsize

end CVector

/-- `tmVectorCreate`, with the answers to its two calls of `malloc`. -/
def tmVectorCreate (malloc : Bool × Bool) (elementsize capacity : Nat) : Int × Option CVector :=
  let cap := if capacity = 0 then 10 else capacity
  if malloc.1 ∧ malloc.2 then
    (0, some
      { size := 0, capacity := cap, elementsize := elementsize
        array := List.replicate (cap * elementsize) 0, flags := 0 })
  else (cvectorMallocFailed, none)

/-- `tmVectorSetCapacity`. -/
def tmVectorSetCapacity (malloc : Bool) (v : CVector) (capacity : Int) : Option (Int × CVector) :=
  if capacity < v.size then some (cvectorBadArgument, v)
  else if capacity = v.capacity then some (0, v)
  else if v.hasFlag cvectorFlagsNoRelocation then some (cvectorNoRelocation, v)
  else if capacity = 0 then some (0, { v with array := [], capacity := 0 })
  else
    (v.offset capacity.toNat).bind fun bytes =>
    if malloc then
      let temparray := List.replicate bytes 0
      let copied :=
        if v.size = 0 then some temparray
        else (v.offset v.size).bind fun n =>
          (Block.read v.array 0 n).bind (Block.write temparray 0)
      copied.map fun array => (0, { v with array := array, capacity := capacity.toNat })
    else some (cvectorMallocFailed, v)

/-- The growth in `tmVectorAddElement`: twice the capacity, and when that fails a
quarter more. -/
def tmVectorGrow (malloc : Bool × Bool) (v : CVector) : Option (Int × CVector) :=
  if 2 ^ 31 ≤ v.capacity * 2 then none
  else
    (tmVectorSetCapacity malloc.1 v (CInt.ofSize (max 1 (v.capacity * 2)))).bind fun r =>
      if r.1 = 0 then some r
      else tmVectorSetCapacity malloc.2 r.2
        (CInt.ofSize (max 1 (r.2.capacity + r.2.capacity / 4)))

/-- `tmVectorAddElement`. -/
def tmVectorAddElement (malloc : Bool × Bool) (v : CVector) (element : List UInt8) :
    Option (Int × CVector) :=
  if v.hasFlag cvectorFlagsNoResize then some (cvectorNoResize, v)
  else
    (if v.capacity ≤ v.size then tmVectorGrow malloc v else some (0, v)).bind fun r =>
    if r.1 ≠ 0 then some r
    else
      (r.2.offset r.2.size).bind fun n =>
      (Block.read element 0 r.2.elementsize).bind fun element =>
      (Block.write r.2.array n element).map fun array =>
        (0, { r.2 with array := array, size := r.2.size + 1 })

/-- `tmVectorGetElement`: the code and the copy of the element. -/
def tmVectorGetElement (v : CVector) (index : Int) : Option (Int × Option (List UInt8)) :=
  if 0 ≤ index ∧ index < v.size then
    (v.offset index.toNat).bind fun n =>
    (Block.read v.array n v.elementsize).map fun element => (0, some element)
  else some (cvectorNotFound, none)

/-- `tmVectorRemoveElement`. -/
def tmVectorRemoveElement (v : CVector) (index : Int) : Option (Int × CVector) :=
  if v.hasFlag cvectorFlagsNoRelocation then some (cvectorNoRelocation, v)
  else if v.size ≤ index ∨ index < 0 then some (cvectorNotFound, v)
  else if index = v.size - 1 then some (0, { v with size := v.size - 1 })
  else
    (v.offset index.toNat).bind fun dst =>
    (v.offset (index.toNat + 1)).bind fun src =>
    (v.offset (v.size - 1 - index.toNat)).bind fun n =>
    (Block.move v.array dst src n).map fun array =>
      (0, { v with array := array, size := v.size - 1 })

/-! ## The elements a vector keeps -/

namespace CVector

/-- The vector keeps the elements `xs`: no flag is set, the array has the size of
the capacity, and that is within the `int` range. -/
structure Keeps (v : CVector) (xs : List (List UInt8)) : Prop where
  holds : Slots.Holds v.elementsize v.array xs
  size : v.size = xs.length
  le_capacity : v.size ≤ v.capacity
  array : v.array.length = v.capacity * v.elementsize
  range : v.capacity * v.elementsize < 2 ^ 31
  flags : v.flags = 0

variable {v : CVector} {xs ys : List (List UInt8)} {x : List UInt8}

theorem keeps_create (elementsize capacity : Nat) (hcap : 0 < capacity)
    (h : capacity * elementsize < 2 ^ 31) :
    ∃ v, tmVectorCreate (true, true) elementsize capacity = (0, some v) ∧ v.Keeps [] ∧
      v.elementsize = elementsize ∧ v.capacity = capacity := by
  have hcap' : (if capacity = 0 then 10 else capacity) = capacity := if_neg (by omega)
  refine ⟨_, rfl, ?_, rfl, hcap'⟩
  simp only [hcap']
  exact ⟨Slots.holds_nil _ _, rfl, Nat.zero_le _, List.length_replicate .., h, rfl⟩

theorem Keeps.hasFlag (h : v.Keeps xs) (flag : UInt32) : v.hasFlag flag = false := by
  simp [CVector.hasFlag, h.flags]

/-- Below the capacity every offset is in the `int` range. -/
theorem Keeps.offset (h : v.Keeps xs) {i : Nat} (hi : i ≤ v.capacity) :
    v.offset i = some (i * v.elementsize) := by
  rw [CVector.offset, if_pos]
  exact Nat.lt_of_le_of_lt (Nat.mul_le_mul_right _ hi) h.range

/-- The array replaced by a larger one. -/
theorem Keeps.setCapacity (h : v.Keeps xs) {capacity : Nat} (hlt : v.capacity < capacity)
    (hrange : capacity * v.elementsize < 2 ^ 31) :
    ∃ v', tmVectorSetCapacity true v capacity = some (0, v') ∧ v'.Keeps xs ∧
      v'.elementsize = v.elementsize ∧ v'.capacity = capacity := by
  have hsize := h.size
  have hle := h.le_capacity
  have hbytes : v.offset capacity = some (capacity * v.elementsize) := by
    rw [CVector.offset, if_pos hrange]
  have hroom : xs.length * v.elementsize ≤
      (List.replicate (capacity * v.elementsize) (0 : UInt8)).length := by
    rw [List.length_replicate]
    exact Nat.mul_le_mul_right _ (by omega)
  obtain ⟨array, hcopy, hholds, hlen⟩ := h.holds.copy hroom
  rw [List.length_replicate] at hlen
  have hcopied : (if v.size = 0 then some (List.replicate (capacity * v.elementsize) 0)
      else (v.offset v.size).bind fun n => (Block.read v.array 0 n).bind
        (Block.write (List.replicate (capacity * v.elementsize) 0) 0)) =
      some (if v.size = 0 then List.replicate (capacity * v.elementsize) 0 else array) := by
    split
    · rfl
    · rw [h.offset hle, Option.bind_some, hsize, hcopy]
  refine ⟨{ v with
      array := if v.size = 0 then List.replicate (capacity * v.elementsize) 0 else array
      capacity := capacity }, ?_, ⟨?_, hsize, by simp only; omega, ?_, hrange, h.flags⟩, rfl, rfl⟩
  · rw [tmVectorSetCapacity, if_neg (by omega), if_neg (by omega), h.hasFlag, if_neg (by decide),
      if_neg (by omega), Int.toNat_natCast, hbytes, Option.bind_some]
    simp only [if_true, hcopied, Option.map_some]
  · split
    next h0 =>
      have hnil : xs = [] := List.length_eq_zero_iff.mp (by omega)
      rw [hnil]
      exact Slots.holds_nil _ _
    next => exact hholds
  · split
    next => exact List.length_replicate ..
    next => exact hlen

/-- The growth makes room for one more element. -/
theorem Keeps.grow (h : v.Keeps xs) (hpos : 0 < v.capacity) (hbytes : 0 < v.elementsize)
    (hrange : v.capacity * 2 * v.elementsize < 2 ^ 31) :
    ∃ v', tmVectorGrow (true, true) v = some (0, v') ∧ v'.Keeps xs ∧
      v'.elementsize = v.elementsize ∧ v'.capacity = v.capacity * 2 := by
  have hcap : v.capacity * 2 < 2 ^ 31 :=
    Nat.lt_of_le_of_lt (Nat.le_mul_of_pos_right _ hbytes) hrange
  have hnew : CInt.ofSize (max 1 (v.capacity * 2)) = (v.capacity * 2 : Nat) := by
    rw [Nat.max_eq_right (by omega), CInt.ofSize_of_lt hcap]
  obtain ⟨v', hset, hkeeps, hes, hc⟩ := h.setCapacity (by omega) hrange
  refine ⟨v', ?_, hkeeps, hes, hc⟩
  rw [tmVectorGrow, if_neg (by omega), hnew, hset, Option.bind_some, if_pos rfl]

/-- Adding appends, with or without growth. -/
theorem Keeps.add (h : v.Keeps xs) (hx : x.length = v.elementsize) (hpos : 0 < v.capacity)
    (hbytes : 0 < v.elementsize)
    (hrange : v.capacity ≤ v.size → v.capacity * 2 * v.elementsize < 2 ^ 31) :
    ∃ v', tmVectorAddElement (true, true) v x = some (0, v') ∧ v'.Keeps (xs ++ [x]) ∧
      v'.elementsize = v.elementsize ∧
      v'.capacity = if v.capacity ≤ v.size then v.capacity * 2 else v.capacity := by
  obtain ⟨v₁, hgrown, hkeeps, hes, hcap, hroom⟩ : ∃ v₁,
      (if v.capacity ≤ v.size then tmVectorGrow (true, true) v else some (0, v)) = some (0, v₁) ∧
      v₁.Keeps xs ∧ v₁.elementsize = v.elementsize ∧
      (v₁.capacity = if v.capacity ≤ v.size then v.capacity * 2 else v.capacity) ∧
      v₁.size < v₁.capacity := by
    split
    next hfull =>
      obtain ⟨v₁, hg, hk, he, hc⟩ := h.grow hpos hbytes (hrange hfull)
      have hsize := hk.size.trans h.size.symm
      have hle := h.le_capacity
      exact ⟨v₁, hg, hk, he, hc, by omega⟩
    next hfull => exact ⟨v, rfl, h, rfl, rfl, by omega⟩
  have hread : Block.read x 0 v₁.elementsize = some x := by
    rw [hes, ← hx, Block.read, if_pos (by omega), List.drop_zero, List.take_length]
  have hfits : (xs.length + 1) * v₁.elementsize ≤ v₁.array.length := by
    rw [hkeeps.array, ← hkeeps.size]
    exact Nat.mul_le_mul_right _ hroom
  obtain ⟨array, hwrite, hholds, hlen⟩ := hkeeps.holds.push (by rw [hes]; exact hx) hfits
  refine ⟨{ v₁ with array := array, size := v₁.size + 1 }, ?_,
    ⟨hholds, ?_, hroom, hlen.trans hkeeps.array, hkeeps.range, hkeeps.flags⟩, hes, hcap⟩
  · rw [← hkeeps.size] at hwrite
    rw [tmVectorAddElement, h.hasFlag, if_neg (by decide), hgrown, Option.bind_some,
      if_neg (fun hne => hne rfl)]
    simp only [hkeeps.offset (Nat.le_of_lt hroom), Option.bind_some, hread, hwrite,
      Option.map_some]
  · simp only [hkeeps.size, List.length_append, List.length_singleton]

/-- The copy of an element. -/
theorem Keeps.get (h : v.Keeps (xs ++ x :: ys)) :
    tmVectorGetElement v xs.length = some (0, some x) := by
  have hsize := h.size
  have hle := h.le_capacity
  rw [List.length_append, List.length_cons] at hsize
  rw [tmVectorGetElement, if_pos (by omega), Int.toNat_natCast, h.offset (by omega),
    Option.bind_some, h.holds.read, Option.map_some]

/-- Removing takes out the element at the index, the last one or any other. -/
theorem Keeps.remove (h : v.Keeps (xs ++ x :: ys)) :
    ∃ v', tmVectorRemoveElement v xs.length = some (0, v') ∧ v'.Keeps (xs ++ ys) ∧
      v'.elementsize = v.elementsize ∧ v'.capacity = v.capacity := by
  have hsize := h.size
  have hle := h.le_capacity
  have harray := h.array
  rw [List.length_append, List.length_cons] at hsize
  rw [tmVectorRemoveElement, h.hasFlag, if_neg (by decide), if_neg (by omega)]
  cases ys with
  | nil =>
      rw [List.length_nil] at hsize
      refine ⟨{ v with size := v.size - 1 }, by rw [if_pos (by omega)],
        ⟨?_, ?_, ?_, h.array, h.range, h.flags⟩, rfl, rfl⟩
      · rw [List.append_nil]
        exact h.holds.pop
      · simp only [List.append_nil]
        omega
      · simp only
        omega
  | cons y ys =>
      rw [List.length_cons] at hsize
      obtain ⟨array, hmove, hholds, hlen⟩ := h.holds.remove
      have hn : v.size - 1 - xs.length = (y :: ys).length := by
        rw [List.length_cons]
        omega
      refine ⟨{ v with array := array, size := v.size - 1 }, ?_,
        ⟨hholds, ?_, by simp only; omega, hlen.trans h.array, h.range, h.flags⟩, rfl, rfl⟩
      · rw [if_neg (by omega), Int.toNat_natCast, h.offset (by omega), Option.bind_some,
          h.offset (by omega), Option.bind_some, hn,
          h.offset (by rw [List.length_cons]; omega), Option.bind_some, hmove, Option.map_some]
      · simp only [List.length_append, List.length_cons]
        omega

/-- The elements read by their offsets are those the vector keeps. -/
theorem Keeps.elements (h : v.Keeps xs) : v.elements = xs := by
  apply List.ext_getElem
  · rw [CVector.elements, List.length_map, List.length_range, h.size]
  · intro i hi hi'
    simp only [CVector.elements, List.getElem_map, List.getElem_range]
    have hsplit : xs = xs.take i ++ xs[i] :: xs.drop (i + 1) := by
      rw [List.getElem_cons_drop, List.take_append_drop]
    have hlen : (xs.take i).length = i := List.length_take_of_le (by omega)
    have hread : Block.read v.array ((xs.take i).length * v.elementsize) v.elementsize =
        some xs[i] := (hsplit ▸ h.holds).read
    rw [hlen] at hread
    exact (Block.eq_of_read hread).symm

end CVector

end VmpSa
