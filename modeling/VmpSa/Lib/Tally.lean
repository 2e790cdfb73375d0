import Mathlib.Algebra.BigOperators.Group.List.Basic
import Mathlib.Algebra.Group.Int.Defs

/-!
# Tallies over a table

A table is a list whose entries change one at a time and which grows at its end,
like the threads of a process.  `total f` adds up what every entry contributes,
in any commutative monoid: a number of entries, or a multiset of what they hold.
The lemmas say what one change does to the total.
-/

namespace Tally

variable {W M : Type} [AddCommMonoid M]

/-- What the entries of a table contribute together. -/
def total (f : W → M) (ws : List W) : M := (ws.map f).sum

@[simp] theorem total_nil (f : W → M) : total f [] = 0 := rfl

@[simp] theorem total_cons (f : W → M) (w : W) (ws : List W) :
    total f (w :: ws) = f w + total f ws := by
  simp [total]

@[simp] theorem total_concat (f : W → M) (ws : List W) (w : W) :
    total f (ws ++ [w]) = total f ws + f w := by
  simp [total]

/-- One entry changes: what it gave goes, what it gives comes. -/
theorem total_set (f : W → M) {ws : List W} {i : Nat} {w r : W} (h : ws[i]? = some w) :
    total f (ws.set i r) + f w = total f ws + f r := by
  induction ws generalizing i with
  | nil => cases h
  | cons v vs ih =>
      cases i with
      | zero =>
          cases h
          rw [List.set_cons_zero, total_cons, total_cons, add_right_comm, add_comm (f r),
            add_right_comm]
      | succ i =>
          rw [List.set_cons_succ, total_cons, total_cons, add_assoc, ih h, add_assoc]

/-- An entry that gives the same as before does not change the total. -/
theorem total_set_same (f : W → M) {ws : List W} {i : Nat} {w w' : W} (h : ws[i]? = some w)
    (hf : f w' = f w) : total f (ws.set i w') = total f ws := by
  induction ws generalizing i with
  | nil => cases h
  | cons v vs ih =>
      cases i with
      | zero =>
          cases h
          rw [List.set_cons_zero, total_cons, total_cons, hf]
      | succ i => rw [List.set_cons_succ, total_cons, total_cons, ih h]

theorem total_eq_zero (f : W → M) {ws : List W} (h : ∀ w ∈ ws, f w = 0) : total f ws = 0 := by
  induction ws with
  | nil => rfl
  | cons v vs ih =>
      rw [total_cons, h v (by simp), ih fun w hw => h w (by simp [hw]), add_zero]

theorem total_congr {f g : W → M} {ws : List W} (h : ∀ w ∈ ws, f w = g w) :
    total f ws = total g ws := by
  rw [total, total, List.map_congr_left h]

theorem total_nonneg (f : W → Int) (hf : ∀ w, 0 ≤ f w) (ws : List W) : 0 ≤ total f ws := by
  induction ws with
  | nil => exact Int.le_refl 0
  | cons w ws ih =>
      rw [total_cons]
      exact Int.add_nonneg (hf w) ih

theorem total_le_total (f g : W → Int) (hle : ∀ w, f w ≤ g w) (ws : List W) :
    total f ws ≤ total g ws := by
  induction ws with
  | nil => exact Int.le_refl 0
  | cons w ws ih =>
      rw [total_cons, total_cons]
      exact Int.add_le_add (hle w) ih

theorem total_add (f g : W → Int) (ws : List W) :
    total (fun w => f w + g w) ws = total f ws + total g ws := by
  induction ws with
  | nil => rfl
  | cons w ws ih =>
      rw [total_cons, total_cons, total_cons, ih]
      omega

theorem le_total (f : W → Int) (hf : ∀ w, 0 ≤ f w) {ws : List W} {w : W} (h : w ∈ ws) :
    f w ≤ total f ws := by
  induction ws with
  | nil => cases h
  | cons v vs ih =>
      have hv := hf v
      have hvs := total_nonneg f hf vs
      rw [total_cons]
      rcases List.mem_cons.mp h with rfl | hmem
      · omega
      · have hle := ih hmem
        omega

/-- A total of nonnegative numbers that is zero has no positive entry. -/
theorem eq_zero_of_total_le (f : W → Int) (hf : ∀ w, 0 ≤ f w) {ws : List W}
    (h : total f ws ≤ 0) : ∀ w ∈ ws, f w = 0 := by
  induction ws with
  | nil => simp
  | cons v vs ih =>
      rw [total_cons] at h
      have hv := hf v
      have hvs := total_nonneg f hf vs
      intro w hw
      rcases List.mem_cons.mp hw with rfl | hw
      · omega
      · exact ih (by omega) w hw

end Tally
