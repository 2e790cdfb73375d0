import VmpSa.Lib.Loop
import VmpSa.Lib.Memory

/-!
# The growing byte buffer

`TimaBuffer` of `mw/support/tima_buffer.c`.  The field `buffer` is the list of
the bytes of the current allocation, so its length is the size last asked of
the allocator: `size + 1` after `tima_buffer_init` and exactly `buffer_total`
after an expansion.

Every operation returns an `Option`.  `none` means that the call has no
defined result: the growth loop does not end, or a copy leaves the allocation.
Two details of the source are kept because results depend on them.  The append
offset is an `int` copy of a `size_t`, and `tima_buffer_align` subtracts its
argument from `buffer_used` in `size_t` arithmetic.

`Holds b x` says that the buffer holds the byte string `x` with room for the
terminating NUL.  Appending and aligning are append and drop on that string
(`strdup_append`, `align_drop`).
-/

namespace VmpSa

/-- `TimaBuffer`: the allocation, the bytes in use and the size it counts with. -/
structure TimaBuffer where
  /-- The bytes of the allocation. -/
  buffer : List UInt8
  /-- `buffer_used`. -/
  bufferUsed : Nat
  /-- `buffer_total`. -/
  bufferTotal : Nat
deriving Repr, DecidableEq

/-- `tima_buffer_init`: `size + 1` zero bytes. -/
def timaBufferInit (size : Nat) : TimaBuffer where
  buffer := List.replicate (size + 1) 0
  bufferUsed := 0
  bufferTotal := size

/-- One pass of `while (need < expand) need = need + (need >> 1)`. -/
def expandPass (expand need : Nat) : Loop.Pass Nat Nat :=
  if need < expand then .again (need + need / 2) else .leave need

/-- `tima_buffer_expand`.  `realloc` is the answer of the allocator.  Fresh bytes
are indeterminate in C and stand here as `0`. -/
def timaBufferExpand (realloc : Bool) (thiz : TimaBuffer) (expand : Nat) :
    Option (Int × TimaBuffer) :=
  let total := thiz.bufferTotal
  let expand := expand + thiz.bufferUsed
  -- from two on `need` grows by at least one, so this budget is enough or the loop is endless
  match Loop.run (expandPass expand) (expand + 1) (total + total / 2) with
  | none => none
  | some need =>
      if realloc then
        some (0, { thiz with
          buffer := thiz.buffer.take need ++ List.replicate (need - thiz.buffer.length) 0
          bufferTotal := need })
      else some (-1, thiz)

/-- `tima_buffer_strdup_ex`: an append that does not skip empty data. -/
def timaBufferStrdupEx (realloc : Bool) (thiz : TimaBuffer) (data : List UInt8) :
    Option (Option Int × TimaBuffer) :=
  let offset := CInt.ofSize thiz.bufferUsed
  let length := data.length
  let expanded :=
    if thiz.bufferTotal ≤ (CInt.toSize offset + length) % 2 ^ 64 then
      timaBufferExpand realloc thiz length
    else some (0, thiz)
  match expanded with
  | none => none
  | some (ret, thiz) =>
      if ret = -1 then some (none, thiz)
      else if offset < 0 then none
      else
        match Block.write thiz.buffer offset.toNat (data ++ [0]) with
        | none => none
        | some buffer =>
            some (some 0, { thiz with buffer := buffer, bufferUsed := thiz.bufferUsed + length })

/-- `tima_buffer_strdup`.  The first component of the result is the returned
pointer as an index into the buffer, `none` for NULL. -/
def timaBufferStrdup (realloc : Bool) (thiz : TimaBuffer) (data : List UInt8) (append : Bool) :
    Option (Option Int × TimaBuffer) :=
  let offset := CInt.ofSize thiz.bufferUsed
  let length := data.length
  if length = 0 then some (some (if append then 0 else offset), thiz)
  else
    let expanded :=
      if thiz.bufferTotal ≤ (CInt.toSize offset + length) % 2 ^ 64 then
        timaBufferExpand realloc thiz length
      else some (0, thiz)
    match expanded with
    | none => none
    | some (ret, thiz) =>
        if ret = -1 then some (none, thiz)
        else if offset < 0 then none
        else
          -- the copy of the data and the NUL behind it
          match Block.write thiz.buffer offset.toNat (data ++ [0]) with
          | none => none
          | some buffer =>
              if append then
                some (some 0, { thiz with
                  buffer := buffer, bufferUsed := thiz.bufferUsed + length })
              else
                some (some offset, { thiz with
                  buffer := buffer, bufferUsed := thiz.bufferUsed + length + 1 })

/-- `tima_buffer_align`: `memmove` of `buffer_used - offset + 1` bytes to the front.
Past `buffer_used + 1` the length wraps round to more than any allocation; at
`buffer_used + 1` it is `0` and only `buffer_used` wraps. -/
def timaBufferAlign (thiz : TimaBuffer) (offset : Nat) : Option TimaBuffer :=
  if offset ≤ thiz.bufferUsed then
    let length := thiz.bufferUsed - offset + 1
    if offset + length ≤ thiz.buffer.length then
      some { thiz with
        buffer := (thiz.buffer.drop offset).take length ++ thiz.buffer.drop length
        bufferUsed := thiz.bufferUsed - offset }
    else none
  else if offset = thiz.bufferUsed + 1 then
    some { thiz with bufferUsed := 2 ^ 64 - 1 }
  else none

/-- `tima_buffer_data`: the bytes from an offset on. -/
def timaBufferData (thiz : TimaBuffer) (offset : Nat) : List UInt8 := thiz.buffer.drop offset

/-- `tima_buffer_used`. -/
def timaBufferUsed (thiz : TimaBuffer) : Nat := thiz.bufferUsed

/-- `tima_buffer_reset`: `memset` of `buffer_total` bytes, so the byte behind them stays. -/
def timaBufferReset (thiz : TimaBuffer) : Option TimaBuffer :=
  match Block.write thiz.buffer 0 (List.replicate thiz.bufferTotal 0) with
  | none => none
  | some buffer => some { thiz with buffer := buffer, bufferUsed := 0 }

namespace TimaBuffer

/-! ## The byte string a buffer holds -/

/-- The buffer holds `x` and has room for a NUL behind it. -/
structure Holds (b : TimaBuffer) (x : List UInt8) : Prop where
  used : b.bufferUsed = x.length
  content : b.buffer.take x.length = x
  used_le : x.length ≤ b.bufferTotal
  room : x.length < b.buffer.length
  total_le : b.bufferTotal ≤ b.buffer.length

theorem holds_init (size : Nat) : (timaBufferInit size).Holds [] where
  used := rfl
  content := rfl
  used_le := Nat.zero_le _
  room := by simp [timaBufferInit]
  total_le := by simp [timaBufferInit]

variable {b b' : TimaBuffer} {x data : List UInt8}

/-! ## Expansion -/

theorem expandPass_again {expand need need' : Nat} (h : expandPass expand need = .again need') :
    need < expand ∧ need' = need + need / 2 := by
  unfold expandPass at h
  split at h
  · cases h
    exact ⟨by assumption, rfl⟩
  · cases h

theorem expandPass_leave {expand need r : Nat} (h : expandPass expand need = .leave r) :
    expand ≤ need ∧ r = need := by
  unfold expandPass at h
  split at h
  · cases h
  · cases h
    exact ⟨by omega, rfl⟩

/-- From two on the growth loop ends, and every budget of `expand - need + 1`
passes is enough. -/
theorem run_expandPass {expand : Nat} : ∀ (n need : Nat), 2 ≤ need → expand ≤ need + n →
    ∃ r, Loop.run (expandPass expand) (n + 1) need = some r ∧ expand ≤ r ∧ need ≤ r
  | n, need, h2, hn => by
      cases hb : expandPass expand need with
      | leave r =>
          obtain ⟨hle, hr⟩ := expandPass_leave hb
          exact ⟨r, Loop.run_leave n hb, by omega, by omega⟩
      | again need' =>
          obtain ⟨hlt, hneed⟩ := expandPass_again hb
          cases n with
          | zero => omega
          | succ n =>
              have hn' : expand ≤ need' + n := by omega
              obtain ⟨r, hr, h1, h3⟩ := run_expandPass n need' (by omega) hn'
              exact ⟨r, by rw [Loop.run_again _ hb, hr], h1, by omega⟩

/-- An expansion whose growth loop ends at `need` and that the allocator grants. -/
theorem expand_of_run {n need : Nat} (hrun : Loop.run (expandPass (n + b.bufferUsed))
      (n + b.bufferUsed + 1) (b.bufferTotal + b.bufferTotal / 2) = some need) :
    timaBufferExpand true b n = some (0, { b with
      buffer := b.buffer.take need ++ List.replicate (need - b.buffer.length) 0
      bufferTotal := need }) := by
  simp only [timaBufferExpand, hrun, if_true]

/-- With the allocator granting the room an expansion does not fail. -/
theorem expand_true (b : TimaBuffer) (n : Nat) :
    timaBufferExpand true b n = none ∨ ∃ b', timaBufferExpand true b n = some (0, b') := by
  cases hrun : Loop.run (expandPass (n + b.bufferUsed)) (n + b.bufferUsed + 1)
      (b.bufferTotal + b.bufferTotal / 2) with
  | none => exact Or.inl (by simp only [timaBufferExpand, hrun])
  | some need => exact Or.inr ⟨_, expand_of_run hrun⟩

/-- The allocation is then as large as the new total. -/
theorem length_expanded (buffer : List UInt8) (need : Nat) :
    (buffer.take need ++ List.replicate (need - buffer.length) 0).length = need := by
  rw [List.length_append, List.length_take, List.length_replicate]
  omega

/-- An expansion granted by the allocator keeps the string and gives the total
the growth loop stopped at. -/
theorem expand_granted (h : b.Holds x) (h2 : 2 ≤ b.bufferTotal) (n : Nat) :
    ∃ b', timaBufferExpand true b n = some (0, b') ∧
      b'.bufferUsed = b.bufferUsed ∧ b'.buffer.take x.length = x ∧
      b'.buffer.length = b'.bufferTotal ∧ b.bufferTotal + b.bufferTotal / 2 ≤ b'.bufferTotal ∧
      x.length + n ≤ b'.bufferTotal := by
  have hfuel : n + b.bufferUsed ≤ b.bufferTotal + b.bufferTotal / 2 + (n + b.bufferUsed) := by
    omega
  obtain ⟨need, hrun, hge, hle⟩ := run_expandPass (n + b.bufferUsed)
    (b.bufferTotal + b.bufferTotal / 2) (by omega) hfuel
  have hu := h.used
  have hused := h.used_le
  refine ⟨_, expand_of_run hrun, rfl, ?_, length_expanded b.buffer need, hle, ?_⟩
  · have hx : x.length ≤ (b.buffer.take need).length := by
      rw [List.length_take]
      have := h.room
      omega
    simp only [List.take_append_of_le_length hx, List.take_take]
    rw [Nat.min_eq_left (by omega), h.content]
  · change x.length + n ≤ need
    omega

/-- An expansion the allocator refuses leaves the buffer as it was. -/
theorem expand_refused (h2 : 2 ≤ b.bufferTotal) (n : Nat) :
    timaBufferExpand false b n = some (-1, b) := by
  have hfuel : n + b.bufferUsed ≤ b.bufferTotal + b.bufferTotal / 2 + (n + b.bufferUsed) := by
    omega
  obtain ⟨need, hrun, -, -⟩ := run_expandPass (n + b.bufferUsed)
    (b.bufferTotal + b.bufferTotal / 2) (by omega) hfuel
  simp only [timaBufferExpand, hrun, Bool.false_eq_true, if_false]

/-! ## Appending -/

theorem strdup_nil (realloc : Bool) : timaBufferStrdup realloc b [] true = some (some 0, b) := rfl

/-- The copy at the end of the string, once there is room for it. -/
theorem write_at_end (hc : b.buffer.take x.length = x) (data : List UInt8)
    (hr : x.length + data.length < b.buffer.length) :
    ∃ buffer, Block.write b.buffer x.length (data ++ [0]) = some buffer ∧
      buffer.length = b.buffer.length ∧
      buffer = (x ++ data) ++ 0 :: b.buffer.drop ((x ++ data).length + 1) := by
  have hle : x.length + (data ++ [0]).length ≤ b.buffer.length := by
    rw [List.length_append, List.length_singleton]
    omega
  refine ⟨_, Block.write_of_le hle, Block.length_of_write (Block.write_of_le hle), ?_⟩
  rw [hc, ← List.append_assoc x data [0], List.append_assoc (x ++ data), List.singleton_append,
    List.length_append, List.length_append, List.length_singleton, Nat.add_assoc]

/-- The buffer after that copy. -/
theorem holds_copied (data : List UInt8) (hc : b.buffer.take x.length = x)
    (hu : b.bufferUsed = x.length) (hroom : x.length + data.length < b.buffer.length)
    (hle : x.length + data.length ≤ b.bufferTotal) (htl : b.bufferTotal ≤ b.buffer.length) :
    ∃ buffer, Block.write b.buffer x.length (data ++ [0]) = some buffer ∧
      Holds { b with buffer := buffer, bufferUsed := b.bufferUsed + data.length } (x ++ data) ∧
      buffer = (x ++ data) ++ 0 :: b.buffer.drop ((x ++ data).length + 1) := by
  obtain ⟨buffer, hw, hbl, hbt⟩ := write_at_end hc data hroom
  refine ⟨buffer, hw, ⟨?_, by simp only [hbt, List.take_left], ?_, ?_, ?_⟩, hbt⟩
  · simp only [List.length_append, hu]
  · simpa only [List.length_append] using hle
  · simpa only [List.length_append, hbl] using hroom
  · simpa only [hbl] using htl

/-- The offset of a copy at the end of a string below 2^31 bytes, and the sum its guard
compares with the total. -/
theorem guard_eq (h : b.Holds x) (hx : x.length < 2 ^ 31) (hd : data.length < 2 ^ 31) :
    CInt.ofSize b.bufferUsed = (x.length : Nat) ∧
      (CInt.toSize (CInt.ofSize b.bufferUsed) + data.length) % 2 ^ 64 =
        x.length + data.length := by
  have hoff : CInt.ofSize b.bufferUsed = (x.length : Nat) := by
    rw [h.used]
    exact CInt.ofSize_of_lt hx
  refine ⟨hoff, ?_⟩
  rw [hoff, CInt.toSize_natCast (by omega)]
  omega

/-- Whether the append asks the allocator for more room. -/
def Grows (b : TimaBuffer) (data : List UInt8) : Prop :=
  data ≠ [] ∧ b.bufferTotal ≤ b.bufferUsed + data.length

instance (b : TimaBuffer) (data : List UInt8) : Decidable (b.Grows data) :=
  inferInstanceAs (Decidable (_ ∧ _))

/-- Appending a block that is short against the total appends it to the string,
unless the append needs room the allocator refuses. -/
theorem strdup_append (realloc : Bool) (h : b.Holds x) (hx : x.length < 2 ^ 31)
    (hd : data.length < 2 ^ 16) (ht : 2 ^ 17 ≤ b.bufferTotal) (hg : b.Grows data → realloc = true) :
    ∃ b', timaBufferStrdup realloc b data true = some (some 0, b') ∧ b'.Holds (x ++ data) ∧
      b.bufferTotal ≤ b'.bufferTotal ∧
      (data ≠ [] → ¬ b.Grows data →
        b'.buffer = (x ++ data) ++ 0 :: b.buffer.drop ((x ++ data).length + 1)) := by
  by_cases hnil : data = []
  · subst hnil
    exact ⟨b, strdup_nil realloc, by rwa [List.append_nil], Nat.le_refl _,
      fun hne => absurd rfl hne⟩
  · have hlen : data.length ≠ 0 := fun h0 => hnil (List.length_eq_zero_iff.mp h0)
    have hused := h.used
    obtain ⟨hoff, hsum⟩ := guard_eq h hx (show data.length < 2 ^ 31 by omega)
    have hoff' : ¬ ((x.length : Nat) : Int) < 0 := by omega
    by_cases hgrow : b.bufferTotal ≤ x.length + data.length
    · -- the allocation is too small and is replaced first
      have hG : b.Grows data := ⟨hnil, by omega⟩
      obtain ⟨b₁, hb₁, hu₁, hc₁, hl₁, ht₁, hn₁⟩ := expand_granted h (by omega) data.length
      have hle := h.used_le
      obtain ⟨buffer, hw, hholds, -⟩ :=
        holds_copied data hc₁ (hu₁.trans hused) (by omega) hn₁ (by omega)
      refine ⟨_, ?_, hholds, ?_, fun _ hng => absurd hG hng⟩
      · simp only [timaBufferStrdup, hlen, if_false, hsum, hgrow, if_true, hg hG, hb₁]
        simp only [hoff, hoff', if_false, Int.toNat_natCast, hw]
        rfl
      · simp only
        omega
    · have htl := h.total_le
      obtain ⟨buffer, hw, hholds, hbt⟩ :=
        holds_copied data h.content hused (by omega) (by omega) htl
      refine ⟨_, ?_, hholds, Nat.le_refl _, fun _ _ => hbt⟩
      simp only [timaBufferStrdup, hlen, if_false, hsum, hgrow]
      simp only [hoff, hoff', if_false, Int.toNat_natCast, hw]
      rfl

/-- An append that needs room the allocator refuses returns NULL and changes
nothing. -/
theorem strdup_refused (h : b.Holds x) (hx : x.length < 2 ^ 31) (hd : data.length < 2 ^ 16)
    (ht : 2 ^ 17 ≤ b.bufferTotal) (hg : b.Grows data) :
    timaBufferStrdup false b data true = some (none, b) := by
  have hlen : data.length ≠ 0 := fun h0 => hg.1 (List.length_eq_zero_iff.mp h0)
  obtain ⟨-, hsum⟩ := guard_eq h hx (show data.length < 2 ^ 31 by omega)
  rw [← h.used] at hsum
  simp only [timaBufferStrdup, hlen, if_false, hsum, hg.2, if_true,
    expand_refused (b := b) (by omega)]

/-- An append at an offset past the `int` range has no result: the copy would
begin in front of the allocation. -/
theorem strdup_overflow (hne : data ≠ []) (hlo : 2 ^ 31 ≤ b.bufferUsed)
    (hhi : b.bufferUsed < 2 ^ 32) : timaBufferStrdup true b data true = none := by
  have hlen : data.length ≠ 0 := fun h0 => hne (List.length_eq_zero_iff.mp h0)
  have hneg := CInt.ofSize_neg hlo hhi
  simp only [timaBufferStrdup, hlen, if_false]
  split
  · rfl
  next ret b₁ he =>
    have hret : ret = 0 := by
      split at he
      · rcases expand_true b data.length with h | ⟨b', h⟩ <;> rw [h] at he <;> cases he
        rfl
      · cases he
        rfl
    simp [hret, hneg]

/-- The same append with the allocator refusing: NULL and no change, if it has a
result at all. -/
theorem strdup_overflow_refused {r : Option Int} (ht : 2 ^ 17 ≤ b.bufferTotal)
    (hlo : 2 ^ 31 ≤ b.bufferUsed) (hhi : b.bufferUsed < 2 ^ 32)
    (hr : timaBufferStrdup false b data true = some (r, b')) : b' = b := by
  have hneg := CInt.ofSize_neg hlo hhi
  have hexp := expand_refused (b := b) (by omega) data.length
  simp only [timaBufferStrdup] at hr
  split at hr
  · cases hr
    rfl
  · split at hr
    · cases hr
    next ret b₁ he =>
      split at he
      · rw [hexp] at he
        cases he
        cases hr
        rfl
      · cases he
        simp at hr

/-- Whatever the allocator does, an append with a result leaves the string as it
was or appends the data to it, the latter below the `int` range only. -/
theorem strdup_cases {realloc : Bool} {r : Option Int} (h : b.Holds x) (hx : x.length < 2 ^ 32)
    (hd : data.length < 2 ^ 16) (ht : 2 ^ 17 ≤ b.bufferTotal)
    (hr : timaBufferStrdup realloc b data true = some (r, b')) :
    2 ^ 17 ≤ b'.bufferTotal ∧ (b'.Holds x ∨ b'.Holds (x ++ data) ∧ x.length < 2 ^ 31) := by
  by_cases hlo : x.length < 2 ^ 31
  · by_cases hg : b.Grows data → realloc = true
    · obtain ⟨b₁, hb₁, hh, hle, -⟩ := strdup_append realloc h hlo hd ht hg
      rw [hb₁] at hr
      cases hr
      exact ⟨by omega, Or.inr ⟨hh, hlo⟩⟩
    · obtain ⟨hgrow, hfalse⟩ := Classical.not_imp.mp hg
      rw [Bool.not_eq_true] at hfalse
      rw [hfalse, strdup_refused h hlo hd ht hgrow] at hr
      cases hr
      exact ⟨ht, Or.inl h⟩
  · have hlo' : 2 ^ 31 ≤ b.bufferUsed := by rw [h.used]; omega
    have hhi : b.bufferUsed < 2 ^ 32 := by rw [h.used]; omega
    have heq : b' = b := by
      cases realloc with
      | false => exact strdup_overflow_refused ht hlo' hhi hr
      | true =>
          by_cases hnil : data = []
          · rw [hnil, strdup_nil] at hr
            cases hr
            rfl
          · rw [strdup_overflow hnil hlo' hhi] at hr
            cases hr
    rw [heq]
    exact ⟨ht, Or.inl h⟩

/-! ## Aligning -/

/-- Aligning at an offset inside the string drops that many bytes. -/
theorem align_drop (h : b.Holds x) {k : Nat} (hk : k ≤ x.length) :
    ∃ b', timaBufferAlign b k = some b' ∧ b'.Holds (x.drop k) ∧ b'.bufferTotal = b.bufferTotal := by
  have hused := h.used
  have hroom := h.room
  have hused' := h.used_le
  have htl := h.total_le
  have hlen : k + (b.bufferUsed - k + 1) ≤ b.buffer.length := by omega
  refine ⟨{ b with
      buffer :=
        (b.buffer.drop k).take (b.bufferUsed - k + 1) ++ b.buffer.drop (b.bufferUsed - k + 1)
      bufferUsed := b.bufferUsed - k }, ?_, ?_, rfl⟩
  · simp only [timaBufferAlign, hused, hk, if_true]
    rw [if_pos (by omega)]
  · have hfull : ((b.buffer.drop k).take (b.bufferUsed - k + 1) ++
        b.buffer.drop (b.bufferUsed - k + 1)).length = b.buffer.length := by
      simp only [List.length_append, List.length_take, List.length_drop]
      omega
    refine ⟨?_, ?_, ?_, ?_, ?_⟩
    · simp only [List.length_drop, hused]
    · have hle : (x.drop k).length ≤ ((b.buffer.drop k).take (b.bufferUsed - k + 1)).length := by
        simp only [List.length_drop, List.length_take]
        omega
      rw [List.take_append_of_le_length hle, List.take_take, List.length_drop,
        Nat.min_eq_left (by omega), ← List.drop_take, h.content]
    · simp only [List.length_drop]; omega
    · simp only [List.length_drop, hfull]; omega
    · simp only [hfull]; exact htl

end TimaBuffer

end VmpSa
