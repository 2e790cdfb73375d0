import VmpSa.Support.Bounds

/-!
# The buffer as a byte string

What a `TimaBuffer` is for: it holds a byte string that grows at its end, is cut
at its front and can be emptied.  `stringStep` says so.  An append whose
expansion failed returns NULL and leaves the string alone, and the answer of the
call says which of the two happened.

`Refines` compares a call with the string.  A call refines the string unless
`realloc` grants it room and the growth stops at the very number of bytes then in
use; then the terminating NUL is written behind the allocation.  For a buffer of
two bytes or more this is exact (`refines_iff`).
-/

namespace VmpSa

/-- `tima_buffer_size`. -/
def timaBufferSize (thiz : TimaBuffer) : Nat := thiz.bufferTotal

/-- A call and the answer of `realloc`, should it be asked. -/
structure ContentCall where
  realloc : Bool
  call : BufferCall

/-- The call as its caller sees it: whether it was accepted, that is did not return
NULL, and the buffer. -/
def contentCall (thiz : TimaBuffer) (c : ContentCall) : Option (Bool × TimaBuffer) :=
  match c.call with
  | .strdup data append =>
      (timaBufferStrdup c.realloc thiz data append).map fun r => (r.1.isSome, r.2)
  | .strdupEx data => (timaBufferStrdupEx c.realloc thiz data).map fun r => (r.1.isSome, r.2)
  | .align offset => (timaBufferAlign thiz offset).map fun b => (true, b)
  | .reset => (timaBufferReset thiz).map fun b => (true, b)

/-- What a call does to the string. -/
def stringStep (accepted : Bool) (x : List UInt8) : BufferCall → List UInt8
  | .strdup data _ => if accepted then x ++ data else x
  | .strdupEx data => if accepted then x ++ data else x
  | .align k => x.drop k
  | .reset => []

/-- A buffer and the string it stands for. -/
structure Contents where
  buffer : TimaBuffer
  string : List UInt8

/-- A fresh buffer and the empty string. -/
def Contents.init (size : Nat) : Contents where
  buffer := timaBufferInit size
  string := []

/-- Both after a call. -/
def contentStep (s : Contents) (c : ContentCall) : Option Contents :=
  (contentCall s.buffer c).map fun r =>
    { buffer := r.2, string := stringStep r.1 s.string c.call }

/-- The bytes in use are the string, and there are no more of them than the total. -/
structure Represents (b : TimaBuffer) (x : List UInt8) : Prop where
  content : (timaBufferData b 0).take (timaBufferUsed b) = x
  used : timaBufferUsed b = x.length
  used_le : timaBufferUsed b ≤ timaBufferSize b

/-- The growth for so many bytes, if the allocator grants it, does not stop at the
number of bytes then in use. -/
def TimaBuffer.Loose (b : TimaBuffer) (realloc : Bool) (length : Nat) : Prop :=
  realloc = true → b.bufferTotal ≤ b.bufferUsed + length →
    ∀ k, 1 ≤ k → grownSize b.bufferTotal k ≠ b.bufferUsed + length

namespace Contents

/-- The call has a result, the buffer then stands for the new string, and a call that
returns NULL changes nothing. -/
def Refines (s : Contents) (c : ContentCall) : Prop :=
  ∃ accepted b', contentCall s.buffer c = some (accepted, b') ∧
    Represents b' (stringStep accepted s.string c.call) ∧ (accepted = false → b' = s.buffer)

/-- The calls considered: appends that leave the NUL out of the content, alignments
inside the content, and contents below 2^31 bytes. -/
def Admits (s : Contents) (c : ContentCall) : Prop :=
  match c.call with
  | .strdup data append => append = true ∧ s.string.length + data.length < 2 ^ 31
  | .strdupEx data => s.string.length + data.length < 2 ^ 31
  | .align k => k ≤ timaBufferUsed s.buffer
  | .reset => True

instance (s : Contents) (c : ContentCall) : Decidable (s.Admits c) :=
  match c with
  | ⟨_, .strdup _ _⟩ => inferInstanceAs (Decidable (_ ∧ _))
  | ⟨_, .strdupEx _⟩ => inferInstanceAs (Decidable (_ < _))
  | ⟨_, .align _⟩ => inferInstanceAs (Decidable (_ ≤ _))
  | ⟨_, .reset⟩ => isTrue trivial

/-- When the buffer grows for a copy, no size of the growth is the number of bytes then
in use. -/
def Loose (s : Contents) (c : ContentCall) : Prop :=
  match c.call with
  | .strdup data _ => data = [] ∨ s.buffer.Loose c.realloc data.length
  | .strdupEx data => s.buffer.Loose c.realloc data.length
  | .align _ => True
  | .reset => True

end Contents

/-! ## Copies -/

namespace TimaBuffer

variable {b b' : TimaBuffer} {x data : List UInt8} {realloc : Bool}

theorem Holds.represents (h : b.Holds x) : Represents b x where
  content := by
    rw [timaBufferData, timaBufferUsed, List.drop_zero, h.used]
    exact h.content
  used := h.used
  used_le := by
    rw [timaBufferUsed, h.used]
    exact h.used_le

/-- A granted expansion gives the total the growth loop ends with. -/
theorem expand_ends {n : Nat} (h : timaBufferExpand true b n = some (0, b')) :
    Loop.Ends (expandPass (n + b.bufferUsed)) (b.bufferTotal + b.bufferTotal / 2)
      b'.bufferTotal := by
  simp only [timaBufferExpand] at h
  split at h
  · cases h
  next need hrun =>
    cases h
    exact ⟨_, hrun⟩

/-- Both functions do the same with data they do not skip. -/
theorem strdup_eq_strdupEx (hne : data ≠ []) :
    timaBufferStrdup realloc b data true = timaBufferStrdupEx realloc b data := by
  have hlen : data.length ≠ 0 := fun h0 => hne (List.length_eq_zero_iff.mp h0)
  simp only [timaBufferStrdup, timaBufferStrdupEx, hlen, if_false, if_true]

/-- A copy that has room appends. -/
theorem strdupEx_room (realloc : Bool) (h : b.Holds x) (hlt : x.length + data.length < 2 ^ 31)
    (hroom : x.length + data.length < b.bufferTotal) :
    ∃ b', timaBufferStrdupEx realloc b data = some (some 0, b') ∧ b'.Holds (x ++ data) ∧
      b'.bufferTotal = b.bufferTotal := by
  obtain ⟨hoff, hguard⟩ := guard_eq h (by omega) (show data.length < 2 ^ 31 by omega)
  have htl := h.total_le
  obtain ⟨buffer, hw, hholds, -⟩ := holds_copied data h.content h.used (by omega) (by omega) htl
  refine ⟨_, ?_, hholds, rfl⟩
  have hneg : ¬ ((x.length : Nat) : Int) < 0 := by omega
  simp only [timaBufferStrdupEx, hguard, if_neg (Nat.not_le.mpr hroom)]
  simp only [hoff, hneg, if_false, Int.toNat_natCast, hw]
  rfl

/-- A copy whose expansion is refused changes nothing. -/
theorem strdupEx_refused (h : b.Holds x) (h2 : 2 ≤ b.bufferTotal)
    (hlt : x.length + data.length < 2 ^ 31) (hgrow : b.bufferTotal ≤ x.length + data.length) :
    timaBufferStrdupEx false b data = some (none, b) := by
  obtain ⟨-, hguard⟩ := guard_eq h (by omega) (show data.length < 2 ^ 31 by omega)
  simp only [timaBufferStrdupEx, hguard, hgrow, if_true, expand_refused h2]

/-- A granted expansion and how far it goes. -/
theorem expand_loose_iff (h : b.Holds x) (h2 : 2 ≤ b.bufferTotal)
    (hgrow : b.bufferTotal ≤ x.length + data.length) :
    ∃ b', timaBufferExpand true b data.length = some (0, b') ∧ b'.bufferUsed = x.length ∧
      b'.buffer.take x.length = x ∧ b'.buffer.length = b'.bufferTotal ∧
      b.bufferTotal ≤ b'.bufferTotal ∧
      (x.length + data.length < b'.bufferTotal ↔ b.Loose true data.length) := by
  obtain ⟨b', hexp, hu, hc, hl, ht, -⟩ := expand_granted h h2 data.length
  refine ⟨b', hexp, hu.trans h.used, hc, hl, by omega, ?_⟩
  have hends := ends_above_iff (expand_ends hexp) 0
  rw [h.used, Nat.add_comm data.length] at hends
  rw [Loose, h.used, ← Nat.add_zero (x.length + data.length), hends]
  constructor
  · intro hno _ _ k hk
    exact hno k hk 0 (Nat.le_refl 0)
  · intro hno k hk i hi
    rw [Nat.le_zero.mp hi]
    exact hno rfl hgrow k hk

/-- A copy whose expansion is granted appends when the growth goes beyond the bytes then
in use. -/
theorem strdupEx_granted (h : b.Holds x) (h2 : 2 ≤ b.bufferTotal)
    (hlt : x.length + data.length < 2 ^ 31) (hgrow : b.bufferTotal ≤ x.length + data.length)
    (hloose : b.Loose true data.length) :
    ∃ b', timaBufferStrdupEx true b data = some (some 0, b') ∧ b'.Holds (x ++ data) ∧
      b.bufferTotal ≤ b'.bufferTotal := by
  obtain ⟨hoff, hguard⟩ := guard_eq h (by omega) (show data.length < 2 ^ 31 by omega)
  obtain ⟨b₁, hexp, hu, hc, hl, ht, hiff⟩ := expand_loose_iff h h2 hgrow
  have hroom := hiff.mpr hloose
  obtain ⟨buffer, hw, hholds, -⟩ := holds_copied data hc hu (by omega) (by omega) (by omega)
  refine ⟨_, ?_, hholds, ht⟩
  have hneg : ¬ ((x.length : Nat) : Int) < 0 := by omega
  simp only [timaBufferStrdupEx, hguard, hgrow, if_true, hexp]
  simp only [hoff, hneg, if_false, Int.toNat_natCast, hw]
  rfl

/-- Otherwise it writes its NUL outside. -/
theorem strdupEx_tight (h : b.Holds x) (h2 : 2 ≤ b.bufferTotal)
    (hlt : x.length + data.length < 2 ^ 31) (htight : ¬ b.Loose realloc data.length) :
    timaBufferStrdupEx realloc b data = none := by
  obtain ⟨hoff, hguard⟩ := guard_eq h (by omega) (show data.length < 2 ^ 31 by omega)
  obtain ⟨hrealloc, hno⟩ := Classical.not_imp.mp htight
  obtain ⟨hgrow, -⟩ := Classical.not_imp.mp hno
  rw [h.used] at hgrow
  subst hrealloc
  obtain ⟨b₁, hexp, hu, hc, hl, ht, hiff⟩ := expand_loose_iff h h2 hgrow
  have hshort : ¬ x.length + (data ++ [0]).length ≤ b₁.buffer.length := by
    have hle := mt hiff.mp htight
    rw [List.length_append, List.length_singleton]
    omega
  have hneg : ¬ ((x.length : Nat) : Int) < 0 := by omega
  simp only [timaBufferStrdupEx, hguard, hgrow, if_true, hexp]
  simp only [hoff, hneg, if_false, Int.toNat_natCast, Block.write, hshort]
  rfl

/-- A reset empties the string. -/
theorem reset_holds (h : b.Holds x) :
    ∃ b', timaBufferReset b = some b' ∧ b'.Holds [] ∧ b'.bufferTotal = b.bufferTotal := by
  have hle : 0 + (List.replicate b.bufferTotal (0 : UInt8)).length ≤ b.buffer.length := by
    rw [List.length_replicate, Nat.zero_add]
    exact h.total_le
  have hlen := Block.length_of_write (Block.write_of_le hle)
  have hroom := h.room
  refine ⟨{ b with buffer := _, bufferUsed := 0 }, by rw [timaBufferReset, Block.write_of_le hle],
    ⟨rfl, rfl, Nat.zero_le _, ?_, ?_⟩, rfl⟩
  · simp only [hlen, List.length_nil]
    omega
  · simp only [hlen]
    exact h.total_le

/-- A copy that keeps its NUL inside appends when it is accepted and changes nothing
otherwise. -/
theorem strdupEx_loose (h : b.Holds x) (h2 : 2 ≤ b.bufferTotal)
    (hlt : x.length + data.length < 2 ^ 31) (hloose : b.Loose realloc data.length) :
    ∃ r b', timaBufferStrdupEx realloc b data = some (r, b') ∧
      b'.Holds (if r.isSome then x ++ data else x) ∧ 2 ≤ b'.bufferTotal ∧
      (r.isSome = false → b' = b) := by
  by_cases hgrow : b.bufferTotal ≤ x.length + data.length
  · cases realloc with
    | false => exact ⟨none, b, strdupEx_refused h h2 hlt hgrow, h, h2, fun _ => rfl⟩
    | true =>
        obtain ⟨b', hcopy, hholds, ht⟩ := strdupEx_granted h h2 hlt hgrow hloose
        exact ⟨some 0, b', hcopy, hholds, by omega, nofun⟩
  · obtain ⟨b', hcopy, hholds, ht⟩ :=
      strdupEx_room realloc h hlt (Nat.not_le.mp hgrow)
    exact ⟨some 0, b', hcopy, hholds, by omega, nofun⟩

end TimaBuffer

/-! ## One call -/

namespace Contents

variable {s s' : Contents} {c : ContentCall}

/-- The buffer holds the string, and it has two bytes or more. -/
structure Inv (s : Contents) : Prop where
  holds : s.buffer.Holds s.string
  two_le : 2 ≤ s.buffer.bufferTotal

theorem inv_init {size : Nat} (h : 2 ≤ size) : (init size).Inv where
  holds := TimaBuffer.holds_init size
  two_le := h

/-- What a call does that keeps its NUL inside. -/
theorem Inv.call (hi : s.Inv) (hd : s.Admits c) (hl : s.Loose c) :
    ∃ accepted b', contentCall s.buffer c = some (accepted, b') ∧
      b'.Holds (stringStep accepted s.string c.call) ∧ 2 ≤ b'.bufferTotal ∧
      (accepted = false → b' = s.buffer) := by
  obtain ⟨realloc, call⟩ := c
  cases call with
  | strdup data append =>
      obtain ⟨rfl, hlt⟩ := hd
      by_cases hnil : data = []
      · subst hnil
        refine ⟨true, s.buffer, rfl, ?_, hi.two_le, nofun⟩
        simpa [stringStep] using hi.holds
      · obtain ⟨r, b', hcopy, hholds, h2, hsame⟩ :=
          TimaBuffer.strdupEx_loose hi.holds hi.two_le hlt (hl.resolve_left hnil)
        refine ⟨r.isSome, b', ?_, hholds, h2, hsame⟩
        simp only [contentCall, TimaBuffer.strdup_eq_strdupEx hnil, hcopy, Option.map_some]
  | strdupEx data =>
      obtain ⟨r, b', hcopy, hholds, h2, hsame⟩ :=
        TimaBuffer.strdupEx_loose hi.holds hi.two_le hd hl
      refine ⟨r.isSome, b', ?_, hholds, h2, hsame⟩
      simp only [contentCall, hcopy, Option.map_some]
  | align k =>
      have hk : k ≤ s.string.length := hi.holds.used ▸ hd
      obtain ⟨b', halign, hholds, ht⟩ := TimaBuffer.align_drop hi.holds hk
      refine ⟨true, b', ?_, hholds, ht ▸ hi.two_le, nofun⟩
      simp only [contentCall, halign, Option.map_some]
  | reset =>
      obtain ⟨b', hreset, hholds, ht⟩ := TimaBuffer.reset_holds hi.holds
      refine ⟨true, b', ?_, hholds, ht ▸ hi.two_le, nofun⟩
      simp only [contentCall, hreset, Option.map_some]

/-- A call that writes its NUL outside has no result. -/
theorem Inv.tight (hi : s.Inv) (hd : s.Admits c) (hl : ¬ s.Loose c) :
    contentCall s.buffer c = none := by
  obtain ⟨realloc, call⟩ := c
  cases call with
  | strdup data append =>
      obtain ⟨rfl, hlt⟩ := hd
      obtain ⟨hnil, htight⟩ := not_or.mp hl
      have hnone := TimaBuffer.strdupEx_tight hi.holds hi.two_le hlt htight
      simp only [contentCall, TimaBuffer.strdup_eq_strdupEx hnil, hnone, Option.map_none]
  | strdupEx data =>
      have hnone := TimaBuffer.strdupEx_tight hi.holds hi.two_le hd hl
      simp only [contentCall, hnone, Option.map_none]
  | align k => exact absurd trivial hl
  | reset => exact absurd trivial hl

theorem refines_iff (hi : s.Inv) (hd : s.Admits c) : s.Refines c ↔ s.Loose c := by
  constructor
  · rintro ⟨accepted, b', hcall, -⟩
    by_contra hl
    rw [hi.tight hd hl] at hcall
    cases hcall
  · intro hl
    obtain ⟨accepted, b', hcall, hholds, -, hsame⟩ := hi.call hd hl
    exact ⟨accepted, b', hcall, hholds.represents, hsame⟩

theorem Inv.step (hi : s.Inv) (hd : s.Admits c) (hr : s.Refines c)
    (hs : contentStep s c = some s') : s'.Inv := by
  obtain ⟨accepted, b', hcall, hholds, h2, -⟩ := hi.call hd ((refines_iff hi hd).mp hr)
  rw [contentStep, hcall] at hs
  cases hs
  exact ⟨hholds, h2⟩

end Contents

/-! ## Whole runs -/

/-- In a run of calls on a fresh buffer of two bytes or more every call refines the
string exactly when no growth the allocator grants stops at the number of bytes then in
use. -/
theorem buffer_refines_string_iff {size : Nat} (hsize : 2 ≤ size) (calls : List ContentCall)
    (hd : System.Along contentStep Contents.Admits (.init size) calls) :
    System.Along contentStep Contents.Refines (.init size) calls ↔
      System.Along contentStep Contents.Loose (.init size) calls :=
  System.along_iff_along Contents.Inv (fun _ _ hi hd => Contents.refines_iff hi hd)
    (fun _ _ _ hi hd hr hs => hi.step hd hr hs) (Contents.inv_init hsize) hd

/-- A buffer of four bytes that takes five, is refused room for three more, gives two
back and is cleared. -/
def contentCalls : List ContentCall :=
  [⟨true, .strdup [1, 2, 3, 4, 5] true⟩, ⟨false, .strdupEx [6, 7, 8]⟩, ⟨true, .align 2⟩,
    ⟨true, .reset⟩]

theorem buffer_refines_contentCalls :
    System.Along contentStep Contents.Admits (.init 4) contentCalls ∧
      System.Along contentStep Contents.Refines (.init 4) contentCalls := by
  have hd : System.Along contentStep Contents.Admits (.init 4) contentCalls := by decide
  have hloose : (timaBufferInit 4).Loose true 5 := by
    intro _ _ k hk
    have hmono : 6 ≤ grownSize 4 k := TimaBuffer.grownSize_mono 4 hk
    change grownSize 4 k ≠ 0 + 5
    omega
  exact ⟨hd, (buffer_refines_string_iff (by decide) contentCalls hd).mpr
    ⟨Or.inr hloose, nofun, trivial, trivial, trivial⟩⟩

/-- Three bytes appended to a fresh buffer of two have no result. -/
theorem append_loses_string :
    ¬ ∀ (size : Nat) (calls : List ContentCall), 2 ≤ size →
      System.Along contentStep Contents.Admits (.init size) calls →
        System.Along contentStep Contents.Refines (.init size) calls := by
  intro h
  obtain ⟨accepted, b', hcall, -⟩ :=
    (h 2 [⟨true, .strdup [1, 2, 3] true⟩] (by decide) (by decide)).head
  cases hcall

end VmpSa
