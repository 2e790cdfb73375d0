import Mathlib.Order.Monotone.Basic
import VmpSa.Lib.System
import VmpSa.Support.Buffer

/-!
# The bounds of the growing buffer

Which calls on a `TimaBuffer` write inside its allocation.  The allocation is
one byte larger than `buffer_total` until the first expansion and exactly as
large afterwards.  The growth loop of `tima_buffer_expand` stops at the first
size that is not below `used + length`, and the terminating NUL is written at
`used + length`.  So the NUL is outside when the growth hits that number.
`grownSize total k` is the size after `k` rounds of growth, and `HasRoom` says
which requests are met.  In the mode that keeps the NUL as part of the content
`buffer_used` counts one byte more, which is `tail` below.

`Fits` is that condition on a call.  For a buffer with `Bounded` counters it is
exact (`inside_iff_fits`), and the counters stay bounded by every call that is
inside (`Bounded.step`).
-/

namespace VmpSa

/-- The calls on a buffer. -/
inductive BufferCall where
  /-- `tima_buffer_strdup`. -/
  | strdup (data : List UInt8) (append : Bool)
  /-- `tima_buffer_strdup_ex`. -/
  | strdupEx (data : List UInt8)
  /-- `tima_buffer_align`. -/
  | align (offset : Nat)
  /-- `tima_buffer_reset`. -/
  | reset
deriving Repr, DecidableEq

/-- The buffer after a call. -/
def bufferStep (realloc : Bool) (thiz : TimaBuffer) : BufferCall → Option TimaBuffer
  | .strdup data append => (timaBufferStrdup realloc thiz data append).map Prod.snd
  | .strdupEx data => (timaBufferStrdupEx realloc thiz data).map Prod.snd
  | .align offset => timaBufferAlign thiz offset
  | .reset => timaBufferReset thiz

/-- The size of an allocation of `total` bytes after so many rounds of
`need = need + (need >> 1)`. -/
def grownSize (total : Nat) : Nat → Nat
  | 0 => total
  | k + 1 => grownSize total k + grownSize total k / 2

namespace TimaBuffer

/-- The guard `(offset + length) >= buffer_total` of both copies. -/
def Short (b : TimaBuffer) (length : Nat) : Prop :=
  b.bufferTotal ≤ (CInt.toSize (CInt.ofSize b.bufferUsed) + length) % 2 ^ 64

instance (b : TimaBuffer) (length : Nat) : Decidable (b.Short length) :=
  inferInstanceAs (Decidable (_ ≤ _))

/-- The number of bytes a call asks `tima_buffer_expand` for. -/
def request (b : TimaBuffer) : BufferCall → Option Nat
  | .strdup data _ => if data ≠ [] ∧ b.Short data.length then some data.length else none
  | .strdupEx data => if b.Short data.length then some data.length else none
  | .align _ => none
  | .reset => none

/-- The call never leaves the growth loop, and so writes nothing. -/
def Hangs (b : TimaBuffer) (call : BufferCall) : Prop :=
  ∃ length, b.request call = some length ∧ ∀ need,
    ¬ Loop.Ends (expandPass (length + b.bufferUsed)) (b.bufferTotal + b.bufferTotal / 2) need

/-- Every byte the call writes is inside the allocation, and so is the byte
behind the content after it. -/
def Inside (b : TimaBuffer) (call : BufferCall) : Prop :=
  b.Hangs call ∨ ∃ b', bufferStep true b call = some b' ∧ b'.bufferUsed < b'.buffer.length

/-- The calls the module is used with: nothing is aligned past the content. -/
def Permitted (b : TimaBuffer) : BufferCall → Prop
  | .align offset => offset ≤ b.bufferUsed
  | _ => True

instance (b : TimaBuffer) (call : BufferCall) : Decidable (b.Permitted call) :=
  match call with
  | .strdup _ _ => isTrue trivial
  | .strdupEx _ => isTrue trivial
  | .align _ => inferInstanceAs (Decidable (_ ≤ _))
  | .reset => isTrue trivial

/-- There is room for `length` bytes that count as `length + tail`.  The `int`
copy of `buffer_used` is not negative, and the number of bytes then in use is
below the allocation, or, when the buffer has to grow for them, none of the
sizes the growth can stop at. -/
def HasRoom (b : TimaBuffer) (length tail : Nat) : Prop :=
  0 ≤ CInt.ofSize b.bufferUsed ∧
    if b.Short length then
      ∀ k, 1 ≤ k → ∀ i, i ≤ tail → grownSize b.bufferTotal k ≠ b.bufferUsed + length + i
    else b.bufferUsed + length + tail < b.buffer.length

/-- The bytes `buffer_used` counts beyond the data. -/
def tail (append : Bool) : Nat := if append then 0 else 1

/-- The condition under which a call keeps to the allocation. -/
def Fits (b : TimaBuffer) : BufferCall → Prop
  | .strdup data append => data = [] ∨ b.HasRoom data.length (tail append)
  | .strdupEx data => b.HasRoom data.length 0
  | .align _ => True
  | .reset => True

/-- What the counters of a buffer say about its allocation. -/
structure Bounded (b : TimaBuffer) : Prop where
  used_lt : b.bufferUsed < b.buffer.length
  total_le : b.bufferTotal ≤ b.buffer.length
  le_total : b.buffer.length ≤ b.bufferTotal + 1

theorem bounded_init (size : Nat) : (timaBufferInit size).Bounded where
  used_lt := by simp [timaBufferInit]
  total_le := by simp [timaBufferInit]
  le_total := by simp [timaBufferInit]

/-! ## The growth loop -/

variable {b b' : TimaBuffer} {data : List UInt8} {length extra expand total : Nat}

theorem grownSize_mono (total : Nat) : Monotone (grownSize total) :=
  monotone_nat_of_le_succ fun k => Nat.le_add_right (grownSize total k) _

/-- A run of the growth loop stops at the first size of the growth that is not
below the request. -/
theorem grownSize_of_run : ∀ {n k need : Nat},
    Loop.run (expandPass expand) n (grownSize total k) = some need →
      ∃ m, k ≤ m ∧ need = grownSize total m ∧ expand ≤ need ∧
        ∀ j, k ≤ j → j < m → grownSize total j < expand
  | 0, _, _, h => by cases h
  | n + 1, k, need, h => by
      cases hb : expandPass expand (grownSize total k) with
      | leave r =>
          obtain ⟨hle, rfl⟩ := expandPass_leave hb
          rw [Loop.run_leave n hb] at h
          cases h
          exact ⟨k, Nat.le_refl k, rfl, hle, fun j hkj hjk => absurd hkj (by omega)⟩
      | again need' =>
          obtain ⟨hlt, rfl⟩ := expandPass_again hb
          rw [Loop.run_again n hb] at h
          obtain ⟨m, hkm, hneed, hle, hfirst⟩ := grownSize_of_run (k := k + 1) h
          refine ⟨m, by omega, hneed, hle, fun j hkj hjm => ?_⟩
          rcases Nat.eq_or_lt_of_le hkj with rfl | hkj
          · exact hlt
          · exact hfirst j hkj hjm

/-- The loop ends above a range exactly when no size of the growth lies in it. -/
theorem ends_above_iff {need : Nat}
    (h : Loop.Ends (expandPass expand) (total + total / 2) need) (extra : Nat) :
    expand + extra < need ↔ ∀ k, 1 ≤ k → ∀ i, i ≤ extra → grownSize total k ≠ expand + i := by
  obtain ⟨n, hn⟩ := h
  obtain ⟨m, hm, hneed, hle, hfirst⟩ := grownSize_of_run (k := 1) hn
  constructor
  · intro hlt k hk i hi heq
    rcases Nat.lt_or_ge k m with hkm | hmk
    · have := hfirst k hk hkm
      omega
    · have := grownSize_mono total hmk
      omega
  · intro hno
    by_contra hcon
    exact hno m hm (need - expand) (by omega) (by omega)

/-- Below two the growth stands still. -/
theorem run_expandPass_stuck {need : Nat} (h1 : need ≤ 1) (hlt : need < expand) :
    ∀ n, Loop.run (expandPass expand) n need = none
  | 0 => rfl
  | n + 1 => by
      have hb : expandPass expand need = .again need := by
        rw [expandPass, if_pos hlt, Nat.div_eq_of_lt (by omega), Nat.add_zero]
      rw [Loop.run_again n hb]
      exact run_expandPass_stuck h1 hlt n

/-- The growth loop ends, or the total is too small to grow and too small for
the request. -/
theorem ends_or_stuck (expand total : Nat) :
    (∃ need, Loop.run (expandPass expand) (expand + 1) (total + total / 2) = some need) ∨
      total ≤ 1 ∧ total < expand ∧
        ∀ n, Loop.run (expandPass expand) n (total + total / 2) = none := by
  by_cases h2 : 2 ≤ total
  · have hfuel : expand ≤ total + total / 2 + expand := by omega
    obtain ⟨need, hrun, -, -⟩ := run_expandPass expand (total + total / 2) (by omega) hfuel
    exact Or.inl ⟨need, hrun⟩
  · have h0 : total + total / 2 = total := by omega
    rw [h0]
    by_cases hlt : total < expand
    · exact Or.inr ⟨by omega, hlt, run_expandPass_stuck (by omega) hlt⟩
    · refine Or.inl ⟨total, Loop.run_leave expand ?_⟩
      rw [expandPass, if_neg hlt]

theorem grownSize_small (h1 : total ≤ 1) : ∀ k, grownSize total k = total
  | 0 => rfl
  | k + 1 => by
      rw [grownSize, grownSize_small h1 k]
      omega

/-! ## One copy -/

/-- The copy of the data and of the NUL behind it, with `tail` more bytes counted
as used than the data has. -/
def copyAt (offset : Int) (data : List UInt8) (tail : Nat) (b : TimaBuffer) : Option TimaBuffer :=
  if offset < 0 then none
  else (Block.write b.buffer offset.toNat (data ++ [0])).map fun buffer =>
    { b with buffer := buffer, bufferUsed := b.bufferUsed + data.length + tail }

/-- The buffer in which the copy is made. -/
def grown (b : TimaBuffer) (length : Nat) : Option TimaBuffer :=
  if b.Short length then (timaBufferExpand true b length).map Prod.snd else some b

/-- What both functions do with data they do not skip. -/
def copyIn (b : TimaBuffer) (data : List UInt8) (tail : Nat) : Option TimaBuffer :=
  (grown b data.length).bind (copyAt (CInt.ofSize b.bufferUsed) data tail)

/-- The expansion of both functions, with the allocator granting it. -/
theorem grown_cases (b : TimaBuffer) (length : Nat) :
    ((if b.bufferTotal ≤ (CInt.toSize (CInt.ofSize b.bufferUsed) + length) % 2 ^ 64 then
        timaBufferExpand true b length else some (0, b)) = none ∧ grown b length = none) ∨
      ∃ b₁, (if b.bufferTotal ≤ (CInt.toSize (CInt.ofSize b.bufferUsed) + length) % 2 ^ 64 then
        timaBufferExpand true b length else some (0, b)) = some (0, b₁) ∧
          grown b length = some b₁ := by
  by_cases hs : b.Short length
  · rw [if_pos (show _ ≤ _ from hs), grown, if_pos hs]
    rcases expand_true b length with he | ⟨b₁, he⟩
    · exact Or.inl ⟨he, by rw [he]; rfl⟩
    · exact Or.inr ⟨b₁, he, by rw [he]; rfl⟩
  · rw [if_neg (show ¬ _ ≤ _ from hs), grown, if_neg hs]
    exact Or.inr ⟨b, rfl, rfl⟩

theorem strdupEx_eq_copyIn :
    (timaBufferStrdupEx true b data).map Prod.snd = copyIn b data 0 := by
  rcases grown_cases b data.length with ⟨he, hg⟩ | ⟨b₁, he, hg⟩
  · simp only [timaBufferStrdupEx, he, copyIn, hg]
    rfl
  · simp only [timaBufferStrdupEx, he, copyIn, hg, Option.bind_some, copyAt]
    split
    · contradiction
    · split
      · rfl
      · cases Block.write b₁.buffer (CInt.ofSize b.bufferUsed).toNat (data ++ [0]) <;> rfl

theorem strdup_eq_copyIn (hne : data ≠ []) (append : Bool) :
    (timaBufferStrdup true b data append).map Prod.snd = copyIn b data (tail append) := by
  have hlen : data.length ≠ 0 := fun h0 => hne (List.length_eq_zero_iff.mp h0)
  rcases grown_cases b data.length with ⟨he, hg⟩ | ⟨b₁, he, hg⟩
  · simp only [timaBufferStrdup, hlen, if_false, he, copyIn, hg]
    rfl
  · simp only [timaBufferStrdup, hlen, if_false, he, copyIn, hg, Option.bind_some, copyAt]
    split
    · contradiction
    · split
      · rfl
      · cases Block.write b₁.buffer (CInt.ofSize b.bufferUsed).toNat (data ++ [0]) <;>
          cases append <;> rfl

theorem copyAt_eq_some {offset : Int} (h : copyAt offset data extra b = some b') :
    0 ≤ offset ∧ b'.bufferUsed = b.bufferUsed + data.length + extra ∧
      b'.bufferTotal = b.bufferTotal ∧ b'.buffer.length = b.buffer.length := by
  unfold copyAt at h
  split at h
  · cases h
  next hoff =>
    obtain ⟨buffer, hw, rfl⟩ := Option.map_eq_some_iff.mp h
    exact ⟨by omega, rfl, rfl, Block.length_of_write hw⟩

/-- A copy that starts inside the content is in the allocation, and the content
after it is, exactly when the bytes then in use are below the allocation. -/
theorem copyAt_inside_iff {offset : Int} (hoff : offset ≤ b.bufferUsed) :
    (∃ b', copyAt offset data extra b = some b' ∧ b'.bufferUsed < b'.buffer.length) ↔
      0 ≤ offset ∧ b.bufferUsed + data.length + extra < b.buffer.length := by
  constructor
  · rintro ⟨b', hb', hlt⟩
    obtain ⟨h0, hu, -, hl⟩ := copyAt_eq_some hb'
    exact ⟨h0, by omega⟩
  · rintro ⟨h0, hlt⟩
    have hle : offset.toNat + (data ++ [0]).length ≤ b.buffer.length := by
      rw [List.length_append, List.length_singleton]
      omega
    obtain ⟨b', hb'⟩ : ∃ b', copyAt offset data extra b = some b' := by
      rw [copyAt, if_neg (by omega), Block.write_of_le hle]
      exact ⟨_, rfl⟩
    obtain ⟨-, hu, -, hl⟩ := copyAt_eq_some hb'
    exact ⟨b', hb', by omega⟩

/-- Where the copy is made when the buffer has to grow: in an allocation of the
size the growth loop ends with, or nowhere because it does not end. -/
theorem grown_short (hs : b.Short length) :
    (∃ need b₁, Loop.Ends (expandPass (length + b.bufferUsed))
        (b.bufferTotal + b.bufferTotal / 2) need ∧ grown b length = some b₁ ∧
        b₁.bufferUsed = b.bufferUsed ∧ b₁.bufferTotal = need ∧ b₁.buffer.length = need) ∨
      b.bufferTotal ≤ 1 ∧ b.bufferTotal < length + b.bufferUsed ∧ grown b length = none ∧
        ∀ need, ¬ Loop.Ends (expandPass (length + b.bufferUsed))
          (b.bufferTotal + b.bufferTotal / 2) need := by
  rw [grown, if_pos hs]
  rcases ends_or_stuck (length + b.bufferUsed) b.bufferTotal with ⟨need, hrun⟩ | ⟨h1, hlt, hstuck⟩
  · rw [expand_of_run hrun]
    exact Or.inl ⟨need, _, ⟨_, hrun⟩, rfl, rfl, rfl, length_expanded b.buffer need⟩
  · refine Or.inr ⟨h1, hlt, ?_, ?_⟩
    · simp only [timaBufferExpand, hstuck, Option.map_none]
    · rintro need ⟨n, hn⟩
      rw [hstuck n] at hn
      cases hn

/-- A copy keeps to the allocation, or is never made, exactly when there is room
for it. -/
theorem copyIn_inside_iff (hb : b.Bounded) (data : List UInt8) (extra : Nat) :
    ((b.Short data.length ∧ ∀ need, ¬ Loop.Ends (expandPass (data.length + b.bufferUsed))
        (b.bufferTotal + b.bufferTotal / 2) need) ∨
      ∃ b', copyIn b data extra = some b' ∧ b'.bufferUsed < b'.buffer.length) ↔
      b.HasRoom data.length extra := by
  have hoff := CInt.ofSize_le b.bufferUsed
  by_cases hs : b.Short data.length
  · rcases grown_short hs with ⟨need, b₁, hends, hg, hu, -, hl⟩ | ⟨h1, hlt, -, hstuck⟩
    · have hno : ¬ ∀ need, ¬ Loop.Ends (expandPass (data.length + b.bufferUsed))
          (b.bufferTotal + b.bufferTotal / 2) need := fun hno => hno need hends
      rw [HasRoom, if_pos hs, copyIn, hg, Option.bind_some, copyAt_inside_iff (by omega), hu, hl,
        Nat.add_comm b.bufferUsed, ← ends_above_iff hends extra]
      simp only [hno, and_false, false_or]
    · refine iff_of_true (Or.inl ⟨hs, hstuck⟩) ⟨?_, ?_⟩
      · have := hb.used_lt
        have := hb.le_total
        rw [CInt.ofSize_of_lt (by omega)]
        omega
      · rw [if_pos hs]
        intro k _ i _
        rw [grownSize_small h1]
        omega
  · have hg : grown b data.length = some b := by rw [grown, if_neg hs]
    rw [HasRoom, if_neg hs, copyIn, hg, Option.bind_some, copyAt_inside_iff hoff]
    simp only [hs, false_and, false_or]

theorem Bounded.copyIn (hb : b.Bounded) (h : b.copyIn data extra = some b')
    (hlt : b'.bufferUsed < b'.buffer.length) : b'.Bounded := by
  obtain ⟨b₁, hg, hcopy⟩ := Option.bind_eq_some_iff.mp h
  obtain ⟨-, -, ht, hl⟩ := copyAt_eq_some hcopy
  have := hb.total_le
  have := hb.le_total
  by_cases hs : b.Short data.length
  · rcases grown_short hs with ⟨need, b₂, -, hg₂, -, ht₂, hl₂⟩ | ⟨-, -, hnone, -⟩
    · rw [hg] at hg₂
      cases hg₂
      exact ⟨hlt, by omega, by omega⟩
    · rw [hg] at hnone
      cases hnone
  · rw [grown, if_neg hs] at hg
    cases hg
    exact ⟨hlt, by omega, by omega⟩

/-! ## One call -/

theorem hangs_strdup_iff {append : Bool} (hne : data ≠ []) :
    b.Hangs (.strdup data append) ↔ b.Short data.length ∧ ∀ need,
      ¬ Loop.Ends (expandPass (data.length + b.bufferUsed))
        (b.bufferTotal + b.bufferTotal / 2) need := by
  by_cases hs : b.Short data.length <;> simp [Hangs, request, hne, hs]

theorem hangs_strdupEx_iff :
    b.Hangs (.strdupEx data) ↔ b.Short data.length ∧ ∀ need,
      ¬ Loop.Ends (expandPass (data.length + b.bufferUsed))
        (b.bufferTotal + b.bufferTotal / 2) need := by
  by_cases hs : b.Short data.length <;> simp [Hangs, request, hs]

/-- Aligning inside the content moves bytes of the allocation. -/
theorem align_bounded (hb : b.Bounded) {k : Nat} (hk : k ≤ b.bufferUsed) :
    ∃ b', timaBufferAlign b k = some b' ∧ b'.Bounded := by
  have hlt := hb.used_lt
  have htotal := hb.total_le
  have hle := hb.le_total
  have hlen : ((b.buffer.drop k).take (b.bufferUsed - k + 1) ++
      b.buffer.drop (b.bufferUsed - k + 1)).length = b.buffer.length := by
    simp only [List.length_append, List.length_take, List.length_drop]
    omega
  refine ⟨_, by rw [timaBufferAlign, if_pos hk, if_pos (by omega)], ?_⟩
  exact ⟨by simp only [hlen]; omega, by simp only [hlen]; omega, by simp only [hlen]; omega⟩

/-- A reset clears bytes of the allocation. -/
theorem reset_bounded (hb : b.Bounded) : ∃ b', timaBufferReset b = some b' ∧ b'.Bounded := by
  have hle : 0 + (List.replicate b.bufferTotal (0 : UInt8)).length ≤ b.buffer.length := by
    rw [List.length_replicate, Nat.zero_add]
    exact hb.total_le
  have hlen := Block.length_of_write (Block.write_of_le hle)
  have hlt := hb.used_lt
  refine ⟨_, by rw [timaBufferReset, Block.write_of_le hle], ?_, ?_, ?_⟩
  · simp only [hlen]
    omega
  · simp only [hlen]
    exact hb.total_le
  · simp only [hlen]
    exact hb.le_total

/-- A call on a bounded buffer keeps to the allocation exactly when it fits. -/
theorem inside_iff_fits (hb : b.Bounded) {call : BufferCall} (hp : b.Permitted call) :
    b.Inside call ↔ b.Fits call := by
  cases call with
  | strdup data append =>
      by_cases hnil : data = []
      · subst hnil
        exact iff_of_true (Or.inr ⟨b, rfl, hb.used_lt⟩) (Or.inl rfl)
      · rw [Inside, hangs_strdup_iff hnil, bufferStep, strdup_eq_copyIn hnil,
          copyIn_inside_iff hb, Fits, or_iff_right hnil]
  | strdupEx data =>
      rw [Inside, hangs_strdupEx_iff, bufferStep, strdupEx_eq_copyIn, copyIn_inside_iff hb, Fits]
  | align offset =>
      obtain ⟨b', hb', hbd⟩ := align_bounded hb hp
      exact iff_of_true (Or.inr ⟨b', hb', hbd.used_lt⟩) trivial
  | reset =>
      obtain ⟨b', hb', hbd⟩ := reset_bounded hb
      exact iff_of_true (Or.inr ⟨b', hb', hbd.used_lt⟩) trivial

/-- A call that hangs has no result. -/
theorem bufferStep_of_hangs {call : BufferCall} (h : b.Hangs call) :
    bufferStep true b call = none := by
  have hcopy : ∀ {data : List UInt8} {extra : Nat}, (b.Short data.length ∧ ∀ need,
      ¬ Loop.Ends (expandPass (data.length + b.bufferUsed))
        (b.bufferTotal + b.bufferTotal / 2) need) → b.copyIn data extra = none := by
    rintro data extra ⟨hs, hstuck⟩
    rcases grown_short hs with ⟨need, -, hends, -⟩ | ⟨-, -, hnone, -⟩
    · exact absurd hends (hstuck need)
    · rw [copyIn, hnone, Option.bind_none]
  cases call with
  | strdup data append =>
      by_cases hnil : data = []
      · obtain ⟨_, hreq, -⟩ := h
        simp [request, hnil] at hreq
      · rw [bufferStep, strdup_eq_copyIn hnil, hcopy ((hangs_strdup_iff hnil).mp h)]
  | strdupEx data => rw [bufferStep, strdupEx_eq_copyIn, hcopy (hangs_strdupEx_iff.mp h)]
  | align offset =>
      obtain ⟨_, hreq, -⟩ := h
      cases hreq
  | reset =>
      obtain ⟨_, hreq, -⟩ := h
      cases hreq

/-- A call that keeps to the allocation leaves a bounded buffer. -/
theorem Bounded.step (hb : b.Bounded) {call : BufferCall} (hp : b.Permitted call)
    (hi : b.Inside call) (hs : bufferStep true b call = some b') : b'.Bounded := by
  rcases hi with hhang | ⟨b₁, hb₁, hlt⟩
  · rw [bufferStep_of_hangs hhang] at hs
    cases hs
  · rw [hs] at hb₁
    cases hb₁
    cases call with
    | strdup data append =>
        by_cases hnil : data = []
        · subst hnil
          cases hs
          exact hb
        · rw [bufferStep, strdup_eq_copyIn hnil] at hs
          exact hb.copyIn hs hlt
    | strdupEx data =>
        rw [bufferStep, strdupEx_eq_copyIn] at hs
        exact hb.copyIn hs hlt
    | align offset =>
        obtain ⟨b₂, hb₂, hbd⟩ := align_bounded hb hp
        rw [bufferStep, hb₂] at hs
        cases hs
        exact hbd
    | reset =>
        obtain ⟨b₂, hb₂, hbd⟩ := reset_bounded hb
        rw [bufferStep, hb₂] at hs
        cases hs
        exact hbd

end TimaBuffer

/-! ## Whole runs -/

/-- In a run of calls on a fresh buffer every call keeps to the allocation
exactly when every call fits: no growth stops at the very number of bytes that
are then in use. -/
theorem buffer_inside_iff_fits (size : Nat) (calls : List BufferCall)
    (hp : System.Along (bufferStep true) TimaBuffer.Permitted (timaBufferInit size) calls) :
    System.Along (bufferStep true) TimaBuffer.Inside (timaBufferInit size) calls ↔
      System.Along (bufferStep true) TimaBuffer.Fits (timaBufferInit size) calls :=
  System.along_iff_along TimaBuffer.Bounded (fun _ _ hb hp => TimaBuffer.inside_iff_fits hb hp)
    (fun _ _ _ hb hp hi hs => hb.step hp hi hs) (TimaBuffer.bounded_init size) hp

/-- A buffer of four bytes that takes five, gives two back and is cleared. -/
def growingCalls : List BufferCall := [.strdup [1, 2, 3, 4, 5] true, .align 2, .reset]

theorem buffer_inside_growingCalls :
    System.Along (bufferStep true) TimaBuffer.Permitted (timaBufferInit 4) growingCalls ∧
      System.Along (bufferStep true) TimaBuffer.Inside (timaBufferInit 4) growingCalls := by
  have hp : System.Along (bufferStep true) TimaBuffer.Permitted (timaBufferInit 4)
      growingCalls := by decide
  have hroom : (timaBufferInit 4).HasRoom 5 0 := by
    refine ⟨by decide, ?_⟩
    rw [if_pos (by decide)]
    intro k hk i hi
    have hmono : 6 ≤ grownSize 4 k := TimaBuffer.grownSize_mono 4 hk
    change grownSize 4 k ≠ 0 + 5 + i
    omega
  exact ⟨hp, (buffer_inside_iff_fits 4 growingCalls hp).mpr
    ⟨Or.inr hroom, trivial, trivial, trivial⟩⟩

/-- Three bytes appended to a fresh buffer of two: the allocation becomes three
bytes and the NUL is the fourth. -/
theorem append_writes_outside :
    ¬ ∀ (size : Nat) (calls : List BufferCall),
      System.Along (bufferStep true) TimaBuffer.Permitted (timaBufferInit size) calls →
        System.Along (bufferStep true) TimaBuffer.Inside (timaBufferInit size) calls := by
  intro h
  have hin := (h 2 [.strdup [1, 2, 3] true] (by decide)).head
  rcases hin with ⟨length, hreq, hno⟩ | ⟨b', hb', -⟩
  · cases hreq
    exact hno 3 ⟨1, rfl⟩
  · cases hb'

end VmpSa
