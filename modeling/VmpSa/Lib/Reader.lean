import Mathlib.Tactic.Common
import Mathlib.Data.List.Infix

/-!
# Reading items from a growing word

A *reader* takes one item off the front of a word, or finds none there yet.
What it takes off is not empty, and an item found in a word is found in every
extension of it.  `items` are the items of a word read one after the other and
`rest` is what the last of them leaves.

A word can then be read as it arrives: the items of `x ++ y` are those of `x`
followed by those of the rest of `x` with `y` behind it (`items_append`,
`rest_append`).
-/

/-- A reader of items from the front of a word. -/
structure Reader (α β : Type) where
  /-- The first item and the word behind it. -/
  next : List α → Option (β × List α)
  /-- Something is taken off the front. -/
  suffix : ∀ {x r : List α} {b : β}, next x = some (b, r) → ∃ c, c ≠ [] ∧ x = c ++ r
  /-- The answer does not change when the word grows. -/
  append : ∀ {x r : List α} {b : β}, next x = some (b, r) → ∀ y, next (x ++ y) = some (b, r ++ y)

namespace Reader

variable {α β : Type} (d : Reader α β)

/-- At most `n` items, and what is left. -/
def readN : Nat → List α → List β × List α
  | 0, x => ([], x)
  | n + 1, x =>
      match d.next x with
      | none => ([], x)
      | some (b, r) => (b :: (readN n r).1, (readN n r).2)

/-- The items of a word. -/
def items (x : List α) : List β := (d.readN x.length x).1

/-- What is left of a word behind its last item. -/
def rest (x : List α) : List α := (d.readN x.length x).2

variable {d} {x r : List α} {b : β}

theorem length_lt (h : d.next x = some (b, r)) : r.length < x.length := by
  obtain ⟨c, hne, hx⟩ := d.suffix h
  have hpos := List.length_pos_of_ne_nil hne
  rw [hx, List.length_append]
  omega

theorem readN_of_none {n : Nat} (h : d.next x = none) : d.readN n x = ([], x) := by
  cases n with
  | zero => rfl
  | succ n => rw [readN, h]

theorem readN_of_some {n : Nat} (h : d.next x = some (b, r)) :
    d.readN (n + 1) x = (b :: (d.readN n r).1, (d.readN n r).2) := by
  rw [readN, h]

/-- Enough rounds are enough. -/
theorem readN_eq : ∀ {n m : Nat} {x : List α}, x.length ≤ n → x.length ≤ m →
    d.readN n x = d.readN m x
  | n, m, x, hn, hm => by
      cases hc : d.next x with
      | none => rw [readN_of_none hc, readN_of_none hc]
      | some c =>
          obtain ⟨b, r⟩ := c
          have hlt := length_lt hc
          cases n with
          | zero => omega
          | succ n =>
              cases m with
              | zero => omega
              | succ m =>
                  rw [readN_of_some hc, readN_of_some hc,
                    readN_eq (show r.length ≤ n by omega) (show r.length ≤ m by omega)]

theorem items_of_none (h : d.next x = none) : d.items x = [] := by
  rw [items, readN_of_none h]

theorem rest_of_none (h : d.next x = none) : d.rest x = x := by
  rw [rest, readN_of_none h]

theorem readN_length_of_some (h : d.next x = some (b, r)) :
    d.readN x.length x = (b :: d.items r, d.rest r) := by
  have hlt := length_lt h
  obtain ⟨n, hn⟩ : ∃ n, x.length = n + 1 := ⟨x.length - 1, by omega⟩
  rw [hn, readN_of_some h, readN_eq (show r.length ≤ n by omega) (Nat.le_refl _)]
  rfl

theorem items_of_some (h : d.next x = some (b, r)) : d.items x = b :: d.items r := by
  rw [items, readN_length_of_some h]

theorem rest_of_some (h : d.next x = some (b, r)) : d.rest x = d.rest r := by
  rw [rest, readN_length_of_some h]

/-- Induction along the items of a word. -/
theorem next_induction {P : List α → Prop} (hnone : ∀ x, d.next x = none → P x)
    (hsome : ∀ x b r, d.next x = some (b, r) → P r → P x) (x : List α) : P x := by
  induction hn : x.length using Nat.strongRecOn generalizing x with
  | _ n ih =>
      cases hc : d.next x with
      | none => exact hnone x hc
      | some c =>
          obtain ⟨b, r⟩ := c
          exact hsome x b r hc (ih _ (hn ▸ length_lt hc) _ rfl)

/-- No item is left in the rest. -/
theorem next_rest (x : List α) : d.next (d.rest x) = none := by
  induction x using next_induction (d := d) with
  | hnone x h => rw [rest_of_none h, h]
  | hsome x b r h ih => rw [rest_of_some h, ih]

/-- The items of a word in two parts: those of the first part, then those of
its rest continued by the second. -/
theorem items_append (x y : List α) :
    d.items (x ++ y) = d.items x ++ d.items (d.rest x ++ y) := by
  induction x using next_induction (d := d) with
  | hnone x h => rw [items_of_none h, rest_of_none h, List.nil_append]
  | hsome x b r h ih =>
      rw [items_of_some (d.append h y), ih, items_of_some h, rest_of_some h, List.cons_append]

theorem rest_append (x y : List α) : d.rest (x ++ y) = d.rest (d.rest x ++ y) := by
  induction x using next_induction (d := d) with
  | hnone x h => rw [rest_of_none h]
  | hsome x b r h ih => rw [rest_of_some (d.append h y), ih, rest_of_some h]

theorem rest_suffix (x : List α) : d.rest x <:+ x := by
  induction x using next_induction (d := d) with
  | hnone x h => rw [rest_of_none h]
  | hsome x b r h ih =>
      obtain ⟨c, -, hx⟩ := d.suffix h
      rw [rest_of_some h]
      exact ih.trans ⟨c, hx.symm⟩

end Reader
