import Mathlib.Algebra.Order.Ring.Nat
import Mathlib.Data.List.GetD
import Mathlib.Data.List.Induction
import Mathlib.Tactic.Common
import Mathlib.Tactic.IntervalCases
import Mathlib.Tactic.Ring

/-!
# Decimal text

Decimal digits in ASCII, most significant digit first.  `value` reads them as a
number, `digits` writes a number without leading zeros, and `pad` writes it with
leading zeros up to a width.

A text of digits is the padded text of its value at its own length (`pad_value`).
So it can be told from its value, once its length is known.
-/

namespace Decimal

def IsDigit (c : UInt8) : Prop := 48 ≤ c.toNat ∧ c.toNat ≤ 57

instance (c : UInt8) : Decidable (IsDigit c) := inferInstanceAs (Decidable (_ ∧ _))

/-- The number a digit denotes. -/
def digit (c : UInt8) : Nat := c.toNat - 48

/-- The number a text of digits denotes. -/
def value (ds : List UInt8) : Nat := ds.foldl (fun n c => n * 10 + digit c) 0

/-- A number without leading zeros. -/
def digits (n : Nat) : List UInt8 := (Nat.toDigits 10 n).map fun c => c.toNat.toUInt8

/-- A number with leading zeros up to a width. -/
def pad (width n : Nat) : List UInt8 := List.replicate (width - (digits n).length) 48 ++ digits n

variable {c : UInt8} {ds : List UInt8} {n width : Nat}

/-! ## Values -/

theorem IsDigit.lt (h : IsDigit c) : digit c < 10 := by
  obtain ⟨h1, h2⟩ := h
  rw [digit]
  omega

theorem value_concat (ds : List UInt8) (c : UInt8) :
    value (ds ++ [c]) = value ds * 10 + digit c := by
  rw [value, List.foldl_append]
  rfl

theorem value_cons (c : UInt8) (ds : List UInt8) :
    value (c :: ds) = digit c * 10 ^ ds.length + value ds := by
  induction ds using List.reverseRecOn with
  | nil => simp [value]
  | append_singleton ds d ih =>
      rw [← List.cons_append, value_concat, value_concat, ih, List.length_append,
        List.length_singleton]
      ring

/-- The digits taken two at a time. -/
theorem value_pairs (ds : List UInt8) : ∀ k, 2 * k ≤ ds.length →
    value (ds.take (2 * k)) = (List.range k).foldl
      (fun n j => n * 100 + (digit (ds.getD (2 * j) 0) * 10 + digit (ds.getD (2 * j + 1) 0))) 0
  | 0, _ => rfl
  | k + 1, h => by
      have hpair : ds.take (2 * (k + 1)) =
          ds.take (2 * k) ++ [ds.getD (2 * k) 0] ++ [ds.getD (2 * k + 1) 0] := by
        rw [Nat.mul_succ, List.getD_eq_getElem _ _ (by omega), List.getD_eq_getElem _ _ (by omega),
          List.take_append_getElem, List.take_append_getElem]
      rw [hpair, value_concat, value_concat, value_pairs ds k (by omega), List.range_succ,
        List.foldl_append, List.foldl_cons, List.foldl_nil]
      ring

/-! ## Texts -/

theorem isDigit_of_mem_digits (h : c ∈ digits n) : IsDigit c := by
  obtain ⟨d, hd, rfl⟩ := List.mem_map.mp h
  have hdigit := Nat.isDigit_of_mem_toDigits (by decide) (by decide) hd
  rw [Char.isDigit, Bool.and_eq_true, decide_eq_true_iff, decide_eq_true_iff] at hdigit
  have hle : d.toNat ≤ 57 := hdigit.2
  have hge : 48 ≤ d.toNat := hdigit.1
  have htoNat : (d.toNat.toUInt8).toNat = d.toNat :=
    UInt8.toNat_ofNat_of_lt' (Nat.lt_of_le_of_lt hle (by decide))
  rw [IsDigit, htoNat]
  exact ⟨hge, hle⟩

theorem digits_of_digit (h : IsDigit c) : digits (digit c) = [c] := by
  rw [digits, Nat.toDigits_of_lt_base h.lt]
  obtain ⟨h1, h2⟩ := h
  have hc : c = UInt8.ofNat c.toNat := UInt8.ofNat_toNat.symm
  rw [hc, digit]
  generalize c.toNat = k at *
  interval_cases k <;> rfl

theorem digits_concat (hn : 0 < n) (h : IsDigit c) :
    digits (n * 10 + digit c) = digits n ++ [c] := by
  rw [← digits_of_digit h, digits, digits, digits, ← List.map_append,
    Nat.toDigits_append_toDigits (by decide) hn h.lt, Nat.mul_comm]

theorem length_digits_le_iff (hw : 0 < width) : (digits n).length ≤ width ↔ n < 10 ^ width := by
  rw [digits, List.length_map, Nat.length_toDigits_le_iff (by decide) hw]

/-- Padding goes no further than the digits a number has. -/
theorem pad_succ (hw : 0 < width) (h : 10 ^ width ≤ n) : pad (width + 1) n = pad width n := by
  have hlen : width < (digits n).length := by
    by_contra hlt
    exact Nat.not_lt.mpr h ((length_digits_le_iff hw).mp (Nat.not_lt.mp hlt))
  rw [pad, pad, Nat.sub_eq_zero_of_le hlen, Nat.sub_eq_zero_of_le (Nat.le_of_lt hlen)]

/-- A text of digits is its value padded to its length. -/
theorem pad_value (hds : ds ≠ []) (h : ∀ c ∈ ds, IsDigit c) : pad ds.length (value ds) = ds := by
  induction ds using List.reverseRecOn with
  | nil => exact absurd rfl hds
  | append_singleton ds c ih =>
      have hc : IsDigit c := h c (by simp)
      rw [value_concat, List.length_append, List.length_singleton]
      cases ds with
      | nil => simp [value, pad, digits_of_digit hc]
      | cons d ds =>
          have ih := ih (by simp) fun x hx => h x (List.mem_append_left _ hx)
          rcases Nat.eq_zero_or_pos (value (d :: ds)) with hzero | hpos
          · -- only zeros so far: the text is one more zero, then the digit
            have hzeros : d :: ds = List.replicate (d :: ds).length 48 := by
              conv => lhs; rw [← ih, hzero]
              rw [pad, show digits 0 = List.replicate 1 48 from rfl,
                List.replicate_append_replicate]
              simp
            rw [hzero, Nat.zero_mul, Nat.zero_add, pad, digits_of_digit hc, List.length_singleton,
              Nat.add_sub_cancel, ← hzeros]
          · conv => rhs; rw [← ih]
            rw [pad, pad, digits_concat hpos hc, List.length_append, List.length_singleton,
              Nat.add_sub_add_right, List.append_assoc]

end Decimal
