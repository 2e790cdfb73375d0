import Mathlib.Data.List.TakeWhile
import Mathlib.Tactic.Common

/-!
# Strings in character arrays

A character array is the list of its bytes.  The string it holds is the bytes in
front of the first NUL, and an array without a NUL holds none: reading it as a
string runs past its end.

`strcpy` writes the string and its NUL, and whatever was there stays behind them.
`strncpy` fills the whole array and leaves no NUL when the string is too long, so
what it stores is lost (`ofArray_strncpy`).  `snprintf` keeps room for the NUL and
cuts the string (`ofArray_snprintf`).
-/

namespace CString

/-- The bytes in front of the first NUL. -/
def text (a : List UInt8) : List UInt8 := a.takeWhile (· ≠ 0)

/-- The string an array holds. -/
def ofArray (a : List UInt8) : Option (List UInt8) := if 0 ∈ a then some (text a) else none

/-- The string an array of `size` bytes holds after `strcpy`; `none` when the string and its
NUL are too long for it. -/
def strcpy (size : Nat) (s : List UInt8) : Option (List UInt8) :=
  if s.length < size then some s else none

/-- The bytes of an array after `strcpy` of a string it has room for. -/
def store (a s : List UInt8) : List UInt8 := s ++ 0 :: a.drop (s.length + 1)

/-- The array of `size` bytes after `strncpy` with its size as the bound. -/
def strncpy (size : Nat) (s : List UInt8) : List UInt8 :=
  s.take size ++ List.replicate (size - s.length) 0

/-- A zeroed array of `size` bytes after `snprintf` of a text. -/
def snprintf (size : Nat) (s : List UInt8) : List UInt8 :=
  s.take (size - 1) ++ List.replicate (size - (s.take (size - 1)).length) 0

variable {s y : List UInt8} {size : Nat}

theorem text_eq (h : 0 ∉ s) : text s = s := by
  rw [text, List.takeWhile_eq_self_iff]
  exact fun c hc => decide_eq_true fun hzero => h (hzero ▸ hc)

/-- A NUL behind a text without one cuts the array there. -/
theorem text_append (h : 0 ∉ s) : text (s ++ 0 :: y) = s := by
  induction s with
  | nil => rfl
  | cons c s ih =>
      have hc : c ≠ 0 := fun hzero => h (hzero ▸ List.mem_cons_self)
      rw [List.cons_append, text, List.takeWhile_cons, if_pos (decide_eq_true hc)]
      exact congrArg (c :: ·) (ih fun hmem => h (List.mem_cons_of_mem c hmem))

/-- A text with room behind it is held. -/
theorem ofArray_append_replicate (h : 0 ∉ s) {n : Nat} (hn : 0 < n) :
    ofArray (s ++ List.replicate n 0) = some s := by
  obtain ⟨n, rfl⟩ := Nat.exists_eq_succ_of_ne_zero (Nat.ne_of_gt hn)
  rw [List.replicate_succ, ofArray, if_pos (by simp), text_append h]

theorem strcpy_of_lt (h : s.length < size) : strcpy size s = some s := if_pos h

theorem strcpy_of_le (h : size ≤ s.length) : strcpy size s = none := if_neg (Nat.not_lt.mpr h)

/-- A string that is stored over itself stays. -/
theorem store_store (a s : List UInt8) : store (store a s) s = store a s := by
  have hdrop : (store a s).drop (s.length + 1) = a.drop (s.length + 1) := by
    rw [store, List.drop_append, List.drop_eq_nil_of_le (Nat.le_succ s.length), List.nil_append,
      Nat.add_sub_cancel_left]
    rfl
  rw [store, hdrop]
  rfl

theorem ofArray_strncpy (h : 0 ∉ s) :
    ofArray (strncpy size s) = if s.length < size then some s else none := by
  rw [strncpy]
  split
  next hlt =>
    rw [List.take_of_length_le (Nat.le_of_lt hlt)]
    exact ofArray_append_replicate h (by omega)
  next hle =>
    have hzero : size - s.length = 0 := by omega
    rw [hzero, List.replicate_zero, List.append_nil, ofArray,
      if_neg fun hmem => h (List.mem_of_mem_take hmem)]

theorem ofArray_snprintf (h : 0 ∉ s) (hsize : 0 < size) :
    ofArray (snprintf size s) = some (s.take (size - 1)) := by
  rw [snprintf]
  refine ofArray_append_replicate (fun hmem => h (List.mem_of_mem_take hmem)) ?_
  have hle := List.length_take_le (size - 1) s
  omega

end CString
