import VmpSa.Support.Bounds

/-!
# The end of the growth loop

When `while (need < expand) need = need + (need >> 1)` of `tima_buffer_expand`
ends.  The loop starts from `total + (total >> 1)`, and its increment is zero for
a `need` of zero or one.  So it ends for every request as soon as `buffer_total`
is two or more, and below that only for requests that fit already
(`growthEnds_iff`).

A buffer is that small when it was made so or after `tima_buffer_clean`, which
sets `buffer_total` to zero and keeps `buffer_used`.  No other call makes the
total smaller, and none makes a total below two larger
(`bufferStep_total`).  No allocation has 2^63 bytes, so the sums of the loop do not
wrap for the requests considered.
-/

namespace VmpSa

/-- `tima_buffer_clean`.  The block is freed and its pointer set to NULL, which is the
block without bytes here. -/
def timaBufferClean (thiz : TimaBuffer) : TimaBuffer :=
  { thiz with buffer := [], bufferTotal := 0 }

/-- The calls on a buffer with the answers of the allocator. -/
inductive GrowthCall where
  | call (realloc : Bool) (call : BufferCall)
  | clean
deriving Repr, DecidableEq

/-- The buffer after such a call. -/
def growthStep (thiz : TimaBuffer) : GrowthCall → Option TimaBuffer
  | .call realloc call => bufferStep realloc thiz call
  | .clean => some (timaBufferClean thiz)

namespace TimaBuffer

/-- The growth loop ends for every request below 2^63 bytes, with room for it. -/
def GrowthEnds (b : TimaBuffer) : Prop :=
  ∀ length, b.bufferUsed + length < 2 ^ 63 → ∃ need,
    Loop.Ends (expandPass (length + b.bufferUsed)) (b.bufferTotal + b.bufferTotal / 2) need ∧
      b.bufferUsed + length ≤ need

variable {b b' : TimaBuffer} {realloc : Bool}

/-! ## One state -/

theorem growthEnds_iff (hused : b.bufferUsed < 2 ^ 63) : b.GrowthEnds ↔ 2 ≤ b.bufferTotal := by
  constructor
  · intro h
    by_contra hsmall
    -- a request of two bytes, or of none when that much is in use already
    obtain ⟨length, hlen, hlt⟩ : ∃ length, b.bufferUsed + length < 2 ^ 63 ∧
        b.bufferTotal + b.bufferTotal / 2 < length + b.bufferUsed := by
      by_cases h2 : 2 ≤ b.bufferUsed
      · exact ⟨0, by omega, by omega⟩
      · exact ⟨2, by omega, by omega⟩
    obtain ⟨need, ⟨n, hn⟩, -⟩ := h length hlen
    rw [run_expandPass_stuck (by omega) hlt n] at hn
    cases hn
  · intro h2 length _
    obtain ⟨need, hrun, hge, -⟩ := run_expandPass (length + b.bufferUsed)
      (b.bufferTotal + b.bufferTotal / 2) (by omega)
      (show length + b.bufferUsed ≤ _ + (length + b.bufferUsed) by omega)
    exact ⟨need, ⟨_, hrun⟩, by omega⟩

/-! ## One call -/

/-- An expansion leaves a total of the growth. -/
theorem expand_total {n : Nat} {ret : Int} (h : timaBufferExpand realloc b n = some (ret, b')) :
    ∃ m, b'.bufferTotal = grownSize b.bufferTotal m := by
  simp only [timaBufferExpand] at h
  split at h
  · cases h
  next need hrun =>
    split at h
    · cases h
      obtain ⟨m, -, hneed, -⟩ := grownSize_of_run (k := 1) hrun
      exact ⟨m, hneed⟩
    · cases h
      exact ⟨0, rfl⟩

/-- The expansion in front of a copy, if there is one. -/
theorem expanded_total {length : Nat} {ret : Int}
    (h : (if b.bufferTotal ≤ (CInt.toSize (CInt.ofSize b.bufferUsed) + length) % 2 ^ 64 then
      timaBufferExpand realloc b length else some (0, b)) = some (ret, b')) :
    ∃ m, b'.bufferTotal = grownSize b.bufferTotal m := by
  split at h
  · exact expand_total h
  · cases h
    exact ⟨0, rfl⟩

theorem strdupEx_total {data : List UInt8} {ret : Option Int}
    (h : timaBufferStrdupEx realloc b data = some (ret, b')) :
    ∃ m, b'.bufferTotal = grownSize b.bufferTotal m := by
  simp only [timaBufferStrdupEx] at h
  split at h
  · cases h
  next ret₁ b₁ he =>
    obtain ⟨m, hm⟩ := expanded_total he
    refine ⟨m, ?_⟩
    rw [← hm]
    split at h
    · cases h
      rfl
    · split at h
      · cases h
      · split at h
        · cases h
        · cases h
          rfl

theorem strdup_total {data : List UInt8} {append : Bool} {ret : Option Int}
    (h : timaBufferStrdup realloc b data append = some (ret, b')) :
    ∃ m, b'.bufferTotal = grownSize b.bufferTotal m := by
  simp only [timaBufferStrdup] at h
  split at h
  · cases h
    exact ⟨0, rfl⟩
  · split at h
    · cases h
    next ret₁ b₁ he =>
      obtain ⟨m, hm⟩ := expanded_total he
      refine ⟨m, ?_⟩
      rw [← hm]
      split at h
      · cases h
        rfl
      · split at h
        · cases h
        · split at h
          · cases h
          · split at h
            · cases h
              rfl
            · cases h
              rfl

theorem align_total {offset : Nat} (h : timaBufferAlign b offset = some b') :
    b'.bufferTotal = b.bufferTotal := by
  simp only [timaBufferAlign] at h
  split at h
  · split at h
    · cases h
      rfl
    · cases h
  · split at h
    · cases h
      rfl
    · cases h

theorem reset_total (h : timaBufferReset b = some b') : b'.bufferTotal = b.bufferTotal := by
  simp only [timaBufferReset] at h
  split at h
  · cases h
  · cases h
    rfl

/-- After every call but `tima_buffer_clean` the total is one of the growth. -/
theorem bufferStep_total {call : BufferCall} (h : bufferStep realloc b call = some b') :
    ∃ m, b'.bufferTotal = grownSize b.bufferTotal m := by
  cases call with
  | strdup data append =>
      obtain ⟨⟨ret, b₁⟩, hcall, rfl⟩ := Option.map_eq_some_iff.mp h
      exact strdup_total hcall
  | strdupEx data =>
      obtain ⟨⟨ret, b₁⟩, hcall, rfl⟩ := Option.map_eq_some_iff.mp h
      exact strdupEx_total hcall
  | align offset => exact ⟨0, align_total h⟩
  | reset => exact ⟨0, reset_total h⟩

/-- A call keeps a total of two or more and a total below two, and a clean makes the
total zero. -/
theorem growthStep_total {call : GrowthCall} (h : growthStep b call = some b') :
    2 ≤ b'.bufferTotal ↔ 2 ≤ b.bufferTotal ∧ call ≠ .clean := by
  cases call with
  | clean =>
      cases h
      simp [timaBufferClean]
  | call realloc call =>
      obtain ⟨m, hm⟩ := bufferStep_total h
      have hmono := grownSize_mono b.bufferTotal (Nat.zero_le m)
      simp only [ne_eq, reduceCtorEq, not_false_eq_true, and_true]
      rw [hm]
      constructor
      · intro h2
        by_contra hsmall
        rw [grownSize_small (by omega)] at h2
        omega
      · intro h2
        exact Nat.le_trans h2 hmono

end TimaBuffer

/-! ## Whole runs -/

/-- The total after a run. -/
theorem run_total {calls : List GrowthCall} {b b' : TimaBuffer}
    (h : System.run growthStep b calls = some b') :
    2 ≤ b'.bufferTotal ↔ 2 ≤ b.bufferTotal ∧ .clean ∉ calls := by
  induction calls generalizing b with
  | nil =>
      cases h
      simp
  | cons call calls ih =>
      obtain ⟨b₁, hstep, hrun⟩ := System.exists_step_of_run h
      rw [ih hrun, TimaBuffer.growthStep_total hstep, List.mem_cons, not_or, and_assoc, ne_comm]

/-- In the state after any run of calls on a fresh buffer the growth loop ends for every
request, exactly when the buffer was made with two bytes or more and has not been
cleaned. -/
theorem growth_ends_iff (size : Nat) (calls : List GrowthCall) {b : TimaBuffer}
    (hrun : System.run growthStep (timaBufferInit size) calls = some b)
    (hused : b.bufferUsed < 2 ^ 63) : b.GrowthEnds ↔ 2 ≤ size ∧ .clean ∉ calls := by
  rw [TimaBuffer.growthEnds_iff hused, run_total hrun]
  rfl

/-- A buffer of two bytes that takes one, refuses to grow, grows and gives one back. -/
def refusedThenGrown : List GrowthCall :=
  [.call true (.strdup [1] true), .call false (.strdup [2, 3, 4, 5] true),
    .call true (.strdup [2, 3, 4, 5] true), .call true (.align 1)]

theorem growth_ends_refusedThenGrown :
    ∃ b, System.run growthStep (timaBufferInit 2) refusedThenGrown = some b ∧ b.GrowthEnds :=
  ⟨_, rfl, (growth_ends_iff 2 refusedThenGrown rfl (by decide)).mpr ⟨by decide, by decide⟩⟩

/-- Two bytes appended to a buffer of one: `need` stays at one. -/
theorem growth_of_one_never_ends :
    ¬ ∀ (size : Nat) (calls : List GrowthCall) (b : TimaBuffer),
      System.run growthStep (timaBufferInit size) calls = some b → b.GrowthEnds := by
  intro h
  obtain ⟨need, ⟨n, hn⟩, -⟩ := h 1 [] (timaBufferInit 1) rfl 2 (by decide)
  rw [TimaBuffer.run_expandPass_stuck (by decide) (by decide) n] at hn
  cases hn

end VmpSa
