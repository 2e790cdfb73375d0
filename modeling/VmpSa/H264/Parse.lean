import Mathlib.Data.List.GetD
import Mathlib.Data.UInt
import VmpSa.Lib.Delimiter
import VmpSa.Lib.Loop
import VmpSa.Lib.Memory

/-!
# The NALU scanner

`mw/protocol/tima_h264_parse.c`.  A buffer is the list of the bytes of an
allocation and `size` counts the bytes of it in use.  A read past the list
gives `0`.  A pointer into the buffer is an index.

`nalu_read` walks from `offset` to the first position whose four bytes lie
below `size` and begin with `00 00 01` or `00 00 00 01`.  In the terms of
`Delimiter` this is the first cut of the bytes in use from `offset` on, with a
window of four (`naluRead_none`, `naluRead_some`).  One branch departs from
that reading: when the code found ends exactly at `size`, the code is counted
as part of the NALU and skipped a second time.
-/

namespace VmpSa

/-- `find_start_code`: the length of the start code at the front, `0` if none. -/
def findStartCode (buf : List UInt8) : Nat :=
  if buf.getD 0 0 ≠ 0 ∨ buf.getD 1 0 ≠ 0 then 0
  else if buf.getD 2 0 = 1 then 3
  else if buf.getD 2 0 = 0 ∧ buf.getD 3 0 = 1 then 4
  else 0

/-- `h264_nalu_t`.  `naluData` is the index of the first byte in the buffer. -/
structure H264Nalu where
  naluLen : Nat
  naluType : UInt8
  naluData : Nat
deriving Repr, DecidableEq

/-- One pass of the search loop of `nalu_read`; it leaves with `start` and `pos`. -/
def naluScanPass (buffer : List UInt8) (size offset pos : Nat) : Loop.Pass Nat (Nat × Nat) :=
  if offset + pos + 3 < size then
    let start := findStartCode (buffer.drop (offset + pos))
    if start ≠ 0 then .leave (start, pos) else .again (pos + 1)
  else .leave (0, pos)

theorem naluScanPass_decreases (buffer : List UInt8) (size offset : Nat) :
    Loop.Decreases (naluScanPass buffer size offset) (size - ·) := by
  intro pos pos' h
  unfold naluScanPass at h
  split at h
  next hlt =>
    simp only at h
    split at h
    · cases h
    · cases h
      change size - (pos + 1) < size - pos
      omega
  next => cases h

/-- The search loop of `nalu_read` from `offset` on. -/
def naluScan (buffer : List UInt8) (size offset : Nat) : Nat × Nat :=
  Loop.exec (naluScanPass buffer size offset) (size - ·)
    (naluScanPass_decreases buffer size offset) 0

/-- `nalu_read`, and `h264_nalu_read` with it: the returned count, and what it
stores through `nalu`, `none` when it stores nothing. -/
def naluRead (buffer : List UInt8) (size offset : Nat) : Nat × Option H264Nalu :=
  if offset < size then
    let start := (naluScan buffer size offset).1
    let pos := (naluScan buffer size offset).2
    if start = 0 then (0, none)
    else
      let naluLen := if offset + pos + start = size then pos + start else pos
      (naluLen + start, some
        { naluLen := naluLen
          naluType := buffer.getD offset 0 &&& 0x1f
          naluData := offset })
  else (0, none)

/-! ## Start codes as a delimiter -/

/-- The type of a NALU: the low five bits of its first byte, `0` if it is empty. -/
def naluTypeOf (n : List UInt8) : UInt8 := n.getD 0 0 &&& 0x1f

theorem findStartCode_le (x : List UInt8) : findStartCode x ≤ 4 := by
  unfold findStartCode
  split_ifs <;> omega

theorem findStartCode_append (x y : List UInt8) (h : 4 ≤ x.length) :
    findStartCode (x ++ y) = findStartCode x := by
  unfold findStartCode
  rw [List.getD_append _ _ _ _ (by omega), List.getD_append _ _ _ _ (by omega),
    List.getD_append _ _ _ _ (by omega), List.getD_append _ _ _ _ (by omega)]

/-- Start codes, with the four bytes `find_start_code` looks at as the window. -/
def startCode : Delimiter UInt8 where
  window := 4
  len := findStartCode
  window_pos := by decide
  len_le := findStartCode_le
  len_append := findStartCode_append

@[simp] theorem startCode_window : startCode.window = 4 := rfl
@[simp] theorem startCode_len (x : List UInt8) : startCode.len x = findStartCode x := rfl

/-- What stands at the front of a word that begins with a start code. -/
theorem findStartCode_cases {x : List UInt8} (h : findStartCode x ≠ 0) :
    x.getD 0 0 = 0 ∧ x.getD 1 0 = 0 ∧
      ((findStartCode x = 3 ∧ x.getD 2 0 = 1) ∨
        (findStartCode x = 4 ∧ x.getD 2 0 = 0 ∧ x.getD 3 0 = 1)) := by
  unfold findStartCode at h ⊢
  split_ifs at h ⊢ with h1 h2 h3
  · exact absurd rfl h
  · exact ⟨by tauto, by tauto, Or.inl ⟨rfl, h2⟩⟩
  · exact ⟨by tauto, by tauto, Or.inr ⟨rfl, h3⟩⟩
  · exact absurd rfl h

/-! ## The scanner against the first cut -/

/-- The bytes in use from an offset on. -/
def dataFrom (buffer : List UInt8) (size offset : Nat) : List UInt8 :=
  (buffer.take size).drop offset

variable {buffer : List UInt8} {size offset : Nat}

theorem length_dataFrom (h : size ≤ buffer.length) (offset : Nat) :
    (dataFrom buffer size offset).length = size - offset := by
  rw [dataFrom, List.length_drop, List.length_take, Nat.min_eq_left h]

theorem drop_dataFrom (p : Nat) :
    (dataFrom buffer size offset).drop p = dataFrom buffer size (offset + p) := by
  rw [dataFrom, List.drop_drop, dataFrom]

/-- Below `size` the scanner sees the bytes in use only. -/
theorem findStartCode_drop (h : size ≤ buffer.length) {p : Nat} (hp : p + 4 ≤ size) :
    findStartCode (buffer.drop p) = findStartCode (dataFrom buffer size p) := by
  have hsplit : buffer.drop p = dataFrom buffer size p ++ buffer.drop size := by
    calc buffer.drop p = (buffer.take size ++ buffer.drop size).drop p := by
          rw [List.take_append_drop]
      _ = dataFrom buffer size p ++ buffer.drop size := by
          rw [dataFrom, List.drop_append_of_le_length]
          rw [List.length_take]
          omega
  rw [hsplit, findStartCode_append]
  rw [length_dataFrom h]
  omega

theorem at_dataFrom_iff (h : size ≤ buffer.length) {p : Nat} :
    startCode.At ((dataFrom buffer size offset).drop p) ↔
      offset + p + 3 < size ∧ findStartCode (buffer.drop (offset + p)) ≠ 0 := by
  rw [drop_dataFrom, Delimiter.At, startCode_window, startCode_len, length_dataFrom h]
  constructor
  · rintro ⟨h1, h2⟩
    exact ⟨by omega, by rwa [findStartCode_drop h (by omega)]⟩
  · rintro ⟨h1, h2⟩
    exact ⟨by omega, by rwa [← findStartCode_drop h (by omega)]⟩

/-- The search loop stops at the first start code, or past all of them. -/
theorem naluScan_spec (h : size ≤ buffer.length) (offset : Nat) :
    (∀ q, q < (naluScan buffer size offset).2 →
      ¬ startCode.At ((dataFrom buffer size offset).drop q)) ∧
    ((naluScan buffer size offset).1 ≠ 0 →
      startCode.At ((dataFrom buffer size offset).drop (naluScan buffer size offset).2) ∧
      (naluScan buffer size offset).1 =
        findStartCode ((dataFrom buffer size offset).drop (naluScan buffer size offset).2)) ∧
    ((naluScan buffer size offset).1 = 0 →
      ∀ q, ¬ startCode.At ((dataFrom buffer size offset).drop q)) := by
  -- no start code begins before the position the loop has reached
  refine Loop.exec_rule (naluScanPass_decreases buffer size offset)
    (fun pos => ∀ q, q < pos → ¬ startCode.At ((dataFrom buffer size offset).drop q))
    (fun r => (∀ q, q < r.2 → ¬ startCode.At ((dataFrom buffer size offset).drop q)) ∧
      (r.1 ≠ 0 → startCode.At ((dataFrom buffer size offset).drop r.2) ∧
        r.1 = findStartCode ((dataFrom buffer size offset).drop r.2)) ∧
      (r.1 = 0 → ∀ q, ¬ startCode.At ((dataFrom buffer size offset).drop q)))
    ?_ ?_ 0 (by intro q hq; omega)
  · intro pos pos' hinv hb q hq
    unfold naluScanPass at hb
    split at hb
    next hlt =>
      simp only at hb
      split at hb
      · cases hb
      next hz =>
        cases hb
        by_cases hqp : q = pos
        · subst hqp
          rw [at_dataFrom_iff h]
          exact fun hat => hz hat.2
        · exact hinv q (by omega)
    next => cases hb
  · intro pos r hinv hb
    unfold naluScanPass at hb
    split at hb
    next hlt =>
      simp only at hb
      split at hb
      next hnz =>
        cases hb
        refine ⟨hinv, fun _ => ⟨(at_dataFrom_iff h).mpr ⟨hlt, hnz⟩, ?_⟩, fun h0 => absurd h0 hnz⟩
        rw [drop_dataFrom]
        exact findStartCode_drop h (by omega)
      next => cases hb
    next hge =>
      cases hb
      refine ⟨hinv, fun h0 => absurd rfl h0, fun _ q hat => ?_⟩
      rw [at_dataFrom_iff h] at hat
      exact hinv q (by omega) ((at_dataFrom_iff h).mpr hat)

theorem naluRead_none (h : size ≤ buffer.length)
    (hc : startCode.cut (dataFrom buffer size offset) = none) :
    naluRead buffer size offset = (0, none) := by
  obtain ⟨-, hfound, -⟩ := naluScan_spec h offset
  have hz : (naluScan buffer size offset).1 = 0 := by
    by_contra hnz
    exact Delimiter.cut_none_iff.mp hc _ (hfound hnz).1
  unfold naluRead
  split
  · simp only [hz, if_true]
  · rfl
/-- The type `nalu_read` stores is that of the token, also when the token is
empty: the byte it reads is then the first of the start code. -/
theorem naluTypeOf_cut (h : size ≤ buffer.length) {t u : List UInt8}
    (hc : startCode.cut (dataFrom buffer size offset) = some (t, u)) :
    buffer.getD offset 0 &&& 0x1f = naluTypeOf t := by
  obtain ⟨hx, hu⟩ := Delimiter.cut_some hc
  have hlen := length_dataFrom h offset
  have hu4 : 4 ≤ u.length := hu.1
  have hfirst : buffer.getD offset 0 = (t ++ u).getD 0 0 := by
    rw [← hx, dataFrom, List.getD_eq_getElem?_getD, List.getD_eq_getElem?_getD,
      List.getElem?_drop, List.getElem?_take_of_lt, Nat.add_zero]
    rw [hx, List.length_append] at hlen
    omega
  rw [hfirst, naluTypeOf]
  cases t with
  | nil => rw [List.nil_append, (findStartCode_cases hu.2).1]; rfl
  | cons a t => rfl

theorem naluRead_some (h : size ≤ buffer.length) {t u : List UInt8}
    (hc : startCode.cut (dataFrom buffer size offset) = some (t, u)) :
    naluRead buffer size offset =
      ((if startCode.behind u = [] then t.length + findStartCode u else t.length) +
        findStartCode u, some
        { naluLen := if startCode.behind u = [] then t.length + findStartCode u else t.length
          naluType := naluTypeOf t
          naluData := offset }) := by
  obtain ⟨hx, hu⟩ := Delimiter.cut_some hc
  obtain ⟨hbefore, hfound, hnone⟩ := naluScan_spec h offset
  have hnz : (naluScan buffer size offset).1 ≠ 0 := by
    intro hz
    rw [Delimiter.cut_none_iff.mpr (hnone hz)] at hc
    cases hc
  obtain ⟨hat, hstart⟩ := hfound hnz
  have hcut := Delimiter.cut_eq_some_of_least hat hbefore
  rw [hc] at hcut
  cases hcut
  have hlen := length_dataFrom h offset
  have hu4 : 4 ≤ ((dataFrom buffer size offset).drop (naluScan buffer size offset).2).length := hu.1
  have hle := findStartCode_le ((dataFrom buffer size offset).drop (naluScan buffer size offset).2)
  rw [List.length_drop, hlen] at hu4
  have hend : offset + (naluScan buffer size offset).2 + (naluScan buffer size offset).1 = size ↔
      startCode.behind
        ((dataFrom buffer size offset).drop (naluScan buffer size offset).2) = [] := by
    rw [Delimiter.behind, List.drop_eq_nil_iff, List.length_drop, hlen, startCode_len, hstart]
    omega
  have hpos : ((dataFrom buffer size offset).take (naluScan buffer size offset).2).length =
      (naluScan buffer size offset).2 := by
    rw [List.length_take, hlen]
    omega
  rw [hpos, ← naluTypeOf_cut h hc, naluRead, if_pos (by omega), if_neg hnz]
  simp only [hend]
  simp only [hstart]

variable {t u : List UInt8}

/-- A start code with data behind it: the NALU is the token and the cursor
moves past the code. -/
theorem naluRead_inside (h : size ≤ buffer.length)
    (hc : startCode.cut (dataFrom buffer size offset) = some (t, u))
    (hne : startCode.behind u ≠ []) :
    naluRead buffer size offset = (t.length + findStartCode u, some
      { naluLen := t.length, naluType := naluTypeOf t, naluData := offset }) := by
  rw [naluRead_some h hc, if_neg hne]

/-- Only a four-byte code can end the data, since the loop wants a fourth byte. -/
theorem eq_of_behind_nil (hu : startCode.At u) (hnil : startCode.behind u = []) :
    u = [0, 0, 0, 1] := by
  have h4 : 4 ≤ u.length := hu.1
  have hle : u.length ≤ findStartCode u := by
    rwa [Delimiter.behind, List.drop_eq_nil_iff] at hnil
  obtain ⟨h0, h1, h⟩ := findStartCode_cases hu.2
  rcases h with ⟨h3, -⟩ | ⟨h4', h2, h3⟩
  · omega
  · match u, h4, hle.trans_eq h4' with
    | [a, b, c, e], _, _ =>
        simp only [List.getD_cons_zero, List.getD_cons_succ] at h0 h1 h2 h3
        rw [h0, h1, h2, h3]

/-- A four-byte code that ends the data: the NALU takes the code in and the
cursor moves four bytes past the end. -/
theorem naluRead_at_end (h : size ≤ buffer.length)
    (hc : startCode.cut (dataFrom buffer size offset) = some (t, u))
    (hnil : startCode.behind u = []) :
    naluRead buffer size offset = (t.length + 8, some
      { naluLen := t.length + 4, naluType := naluTypeOf t, naluData := offset }) := by
  have hu := eq_of_behind_nil (Delimiter.cut_some hc).2 hnil
  have hfour : findStartCode u = 4 := by rw [hu]; decide
  rw [naluRead_some h hc, if_pos hnil, hfour]

end VmpSa
