import Mathlib.Data.List.Basic
import Mathlib.Tactic.Common

/-!
# Comparison functions and sorting by exchange

A comparison function answers with the sign of an integer.  `TotalPreorder` is
what such a function has to satisfy on the elements it is used for: the sign
turns round with the arguments, and "not above" is transitive.

`exchange` sorts a list by sweeping its front element through the rest.  Each
sweep exchanges the front element with every larger one it meets, so it ends
with a largest element in front.  The result is a permutation of the list and
is descending, that is `0 ≤ cmp a b` for `a` before `b`.

In a descending list the elements above a key come first, and the elements at
most that far down are counted by `List.countP` (`lt_countP_iff`).
-/

namespace Comparison

variable {α : Type} {S : α → Prop} {cmp : α → α → Int} {x y key : α} {xs ys : List α}

/-- The sign of the comparison is a total preorder on the elements of a kind. -/
structure TotalPreorder (S : α → Prop) (cmp : α → α → Int) : Prop where
  antisymm : ∀ a b, S a → S b → (cmp a b < 0 ↔ 0 < cmp b a)
  trans : ∀ a b c, S a → S b → S c → cmp a b ≤ 0 → cmp b c ≤ 0 → cmp a c ≤ 0

namespace TotalPreorder

theorem nonneg_iff (h : TotalPreorder S cmp) (hx : S x) (hy : S y) :
    0 ≤ cmp x y ↔ cmp y x ≤ 0 := by
  have hsign := h.antisymm x y hx hy
  omega

theorem self (h : TotalPreorder S cmp) (hx : S x) : cmp x x = 0 := by
  have hsign := h.antisymm x x hx hx
  omega

theorem ge_trans (h : TotalPreorder S cmp) {z : α} (hx : S x) (hy : S y) (hz : S z)
    (hxy : 0 ≤ cmp x y) (hyz : 0 ≤ cmp y z) : 0 ≤ cmp x z := by
  rw [h.nonneg_iff hx hy] at hxy
  rw [h.nonneg_iff hy hz] at hyz
  rw [h.nonneg_iff hx hz]
  exact h.trans z y x hz hy hx hyz hxy

/-- What is not below an element above the key is above the key. -/
theorem neg_of_neg (h : TotalPreorder S cmp) (hk : S key) (hx : S x) (hy : S y)
    (hneg : cmp key y < 0) (hxy : 0 ≤ cmp x y) : cmp key x < 0 := by
  by_contra hcon
  have hkey := h.ge_trans hk hx hy (Int.not_lt.mp hcon) hxy
  omega

theorem nonpos_of_nonpos (h : TotalPreorder S cmp) (hk : S key) (hx : S x) (hy : S y)
    (hle : cmp key y ≤ 0) (hxy : 0 ≤ cmp x y) : cmp key x ≤ 0 := by
  rw [h.nonneg_iff hx hy] at hxy
  exact h.trans key y x hk hy hx hle hxy

end TotalPreorder

/-! ## One sweep -/

/-- The element `x` is taken through a list and exchanged with every larger one it
meets: what is carried at the end, and the list it leaves. -/
def sweep (cmp : α → α → Int) (x : α) : List α → α × List α
  | [] => (x, [])
  | y :: ys =>
      if cmp x y < 0 then ((sweep cmp y ys).1, x :: (sweep cmp y ys).2)
      else ((sweep cmp x ys).1, y :: (sweep cmp x ys).2)

theorem sweep_perm (cmp : α → α → Int) (x : α) (ys : List α) :
    ((sweep cmp x ys).1 :: (sweep cmp x ys).2).Perm (x :: ys) := by
  induction ys generalizing x with
  | nil => exact List.Perm.refl [x]
  | cons y ys ih =>
      simp only [sweep]
      split
      · exact (List.Perm.swap ..).trans ((ih y).cons x)
      · have hcons := ((ih x).cons y).trans (List.Perm.swap x y ys)
        exact (List.Perm.swap ..).trans hcons

theorem length_sweep (cmp : α → α → Int) (x : α) (ys : List α) :
    (sweep cmp x ys).2.length = ys.length := by
  have hlen := (sweep_perm cmp x ys).length_eq
  simpa using hlen

/-- The element carried at the end is a largest one. -/
theorem sweep_ge (h : TotalPreorder S cmp) (hS : ∀ y ∈ x :: ys, S y) :
    ∀ y ∈ x :: ys, 0 ≤ cmp (sweep cmp x ys).1 y := by
  induction ys generalizing x with
  | nil =>
      intro y hy
      rw [List.mem_singleton.mp hy]
      simp [sweep, h.self (hS x (by simp))]
  | cons z ys ih =>
      have hmem : ∀ u ∈ z :: ys, S u := fun u hu => hS u (by simp at hu ⊢; tauto)
      have hmem' : ∀ u ∈ x :: ys, S u := fun u hu => hS u (by simp at hu ⊢; tauto)
      have hcarried : ∀ {u : α}, (∀ v ∈ u :: ys, S v) → S (sweep cmp u ys).1 := by
        intro u hu
        exact hu _ ((sweep_perm cmp u ys).mem_iff.mp (by simp))
      have hx := hS x (by simp)
      have hz := hS z (by simp)
      intro y hy
      simp only [sweep]
      split
      next hlt =>
        -- `z` is carried on, and it is above `x`
        have hge : 0 ≤ cmp (sweep cmp z ys).1 z := ih hmem z (by simp)
        rcases List.mem_cons.mp hy with rfl | hy
        · have hzy := (h.antisymm y z hx hz).mp hlt
          exact h.ge_trans (hcarried hmem) hz hx hge (by omega)
        · exact ih hmem y hy
      next hle =>
        have hge : 0 ≤ cmp (sweep cmp x ys).1 x := ih hmem' x (by simp)
        rcases List.mem_cons.mp hy with rfl | hy
        · exact hge
        · rcases List.mem_cons.mp hy with rfl | hy
          · exact h.ge_trans (hcarried hmem') hx hz hge (Int.not_lt.mp hle)
          · exact ih hmem' y (List.mem_cons_of_mem x hy)

/-! ## The sort -/

/-- Sorting by exchange: the largest element in front and the rest sorted. -/
def exchange (cmp : α → α → Int) : List α → List α
  | [] => []
  | x :: xs => (sweep cmp x xs).1 :: exchange cmp (sweep cmp x xs).2
termination_by xs => xs.length
decreasing_by simp [length_sweep]

theorem exchange_cons (cmp : α → α → Int) (x : α) (xs : List α) :
    exchange cmp (x :: xs) = (sweep cmp x xs).1 :: exchange cmp (sweep cmp x xs).2 := by
  rw [exchange]

theorem exchange_perm (cmp : α → α → Int) (xs : List α) : (exchange cmp xs).Perm xs := by
  induction xs using exchange.induct cmp with
  | case1 => simp [exchange]
  | case2 x xs ih =>
      rw [exchange_cons]
      exact (ih.cons _).trans (sweep_perm cmp x xs)

/-- Of two elements the first is not below the second. -/
def Descending (cmp : α → α → Int) (xs : List α) : Prop := xs.Pairwise fun a b => 0 ≤ cmp a b

theorem exchange_descending (h : TotalPreorder S cmp) (hS : ∀ x ∈ xs, S x) :
    Descending cmp (exchange cmp xs) := by
  induction xs using exchange.induct cmp with
  | case1 => simp [exchange, Descending]
  | case2 x xs ih =>
      have hmem : ∀ y ∈ (sweep cmp x xs).2, y ∈ x :: xs := by
        intro y hy
        exact (sweep_perm cmp x xs).mem_iff.mp (List.mem_cons_of_mem _ hy)
      rw [exchange_cons, Descending, List.pairwise_cons]
      refine ⟨?_, ih fun y hy => hS y (hmem y hy)⟩
      intro y hy
      exact sweep_ge h hS y (hmem y ((exchange_perm cmp _).mem_iff.mp hy))

/-! ## Counting in a descending list -/

/-- In a list whose later elements have a property only if the earlier ones do, the
elements with the property are the first ones. -/
theorem lt_countP_iff {p : α → Bool} (h : xs.Pairwise fun a b => p b → p a) {i : Nat}
    (hi : i < xs.length) : i < xs.countP p ↔ p xs[i] := by
  induction xs generalizing i with
  | nil => cases hi
  | cons x xs ih =>
      obtain ⟨hx, hxs⟩ := List.pairwise_cons.mp h
      by_cases hp : p x = true
      · rw [List.countP_cons_of_pos hp]
        cases i with
        | zero => simp [hp]
        | succ i =>
            have hlt : i < xs.length := by simpa using hi
            simpa using ih hxs hlt
      · -- no later element has the property
        have hno : ∀ y ∈ x :: xs, ¬ p y = true := by
          intro y hy
          rcases List.mem_cons.mp hy with rfl | hy
          · exact hp
          · exact fun hpy => hp (hx y hy hpy)
        rw [List.countP_eq_zero.mpr hno]
        simp only [Nat.not_lt_zero, false_iff]
        exact hno _ (List.getElem_mem hi)

end Comparison
