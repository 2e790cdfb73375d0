import Mathlib.Algebra.Group.Nat.Defs
import Mathlib.Data.UInt
import Mathlib.Tactic.Common

/-!
# Numbers and byte strings on the wire

Fixed-width numbers with the high byte first, and byte strings behind a length
of fixed width.  A reader returns what it read and the bytes behind it, or
`none` when the input is too short.  Each writer is read back in front of an
arbitrary rest (`readWord_word_append`, `readBlob_blob_append`).
-/

namespace Wire

/-- The number with the given bytes, high byte first. -/
def number (x : List UInt8) : Nat := x.foldl (fun acc b => acc * 256 + b.toNat) 0

/-- A number in `width` bytes, high byte first; what does not fit is cut off. -/
def word : Nat → Nat → List UInt8
  | 0, _ => []
  | width + 1, n => word width (n / 256) ++ [UInt8.ofNat n]

/-- A byte string behind its length in `width` bytes. -/
def blob (width : Nat) (x : List UInt8) : List UInt8 := word width x.length ++ x

def readWord (width : Nat) (x : List UInt8) : Option (Nat × List UInt8) :=
  if width ≤ x.length then some (number (x.take width), x.drop width) else none

def readBlob (width : Nat) (x : List UInt8) : Option (List UInt8 × List UInt8) :=
  (readWord width x).bind fun r =>
    if r.1 ≤ r.2.length then some (r.2.take r.1, r.2.drop r.1) else none

/-- A given number of byte strings, one behind the other. -/
def readBlobs (width : Nat) : Nat → List UInt8 → Option (List (List UInt8) × List UInt8)
  | 0, x => some ([], x)
  | count + 1, x =>
      (readBlob width x).bind fun r =>
        (readBlobs width count r.2).map fun rs => (r.1 :: rs.1, rs.2)

variable {width n : Nat} {x rest : List UInt8}

theorem length_word : ∀ width n, (word width n).length = width
  | 0, _ => rfl
  | width + 1, n => by simp [word, length_word width]

theorem number_word : ∀ {width n : Nat}, n < 256 ^ width → number (word width n) = n
  | 0, n, h => by
      have h0 : n = 0 := by simpa using h
      rw [h0]
      rfl
  | width + 1, n, h => by
      have hdiv : n / 256 < 256 ^ width := by
        rw [Nat.div_lt_iff_lt_mul (by decide)]
        simpa [pow_succ] using h
      have ih := number_word hdiv
      simp only [number] at ih
      simp only [word, number, List.foldl_append, List.foldl_cons, List.foldl_nil, ih,
        UInt8.toNat_ofNat']
      omega

theorem number_pair (a b : UInt8) : number [a, b] = a.toNat * 256 + b.toNat := by
  simp [number]

theorem readWord_word_append (h : n < 256 ^ width) :
    readWord width (word width n ++ rest) = some (n, rest) := by
  have hlen := length_word width n
  rw [readWord, if_pos (by rw [List.length_append]; omega), List.take_left' hlen,
    List.drop_left' hlen, number_word h]

theorem readBlob_blob_append (h : x.length < 256 ^ width) :
    readBlob width (blob width x ++ rest) = some (x, rest) := by
  rw [blob, List.append_assoc, readBlob, readWord_word_append h]
  simp

theorem readBlobs_one (h : x.length < 256 ^ width) :
    readBlobs width 1 (blob width x ++ rest) = some ([x], rest) := by
  simp [readBlobs, readBlob_blob_append h]

/-- What is read as the only byte string of one stands behind its length. -/
theorem eq_of_readBlobs_one {y : List UInt8} (h : readBlobs width 1 x = some ([y], rest)) :
    y = (x.drop width).take (number (x.take width)) ∧ y.length = number (x.take width) := by
  simp only [readBlobs, readBlob, readWord, Option.bind_eq_some_iff, Option.map_eq_some_iff] at h
  obtain ⟨r, ⟨w, hw, hr⟩, rs, hrs, heq⟩ := h
  split at hw
  · cases hw
    split at hr
    next hle =>
      cases hr
      cases hrs
      cases heq
      exact ⟨rfl, by rw [List.length_take]; omega⟩
    · cases hr
  · cases hw

/-! ## Low byte first -/

/-- A number in `width` bytes, low byte first. -/
def wordLE (width n : Nat) : List UInt8 := (word width n).reverse

def numberLE (x : List UInt8) : Nat := number x.reverse

theorem length_wordLE (width n : Nat) : (wordLE width n).length = width := by
  rw [wordLE, List.length_reverse, length_word]

theorem numberLE_wordLE (h : n < 256 ^ width) : numberLE (wordLE width n) = n := by
  rw [numberLE, wordLE, List.reverse_reverse, number_word h]

end Wire
