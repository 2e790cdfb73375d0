import VmpSa.H264.Parse

/-!
# The parameter sets a channel starts on

`h264_metadata_get` of `mw/protocol/tima_h264_parse.c`.  It wants a start code
at the front of the buffer, reads two NALUs behind it, and lays them out as
`00 00 len16 SPS 00 00 len16 PPS`.

Neither read is checked.  A NALU that is not there leaves its `h264_nalu_t` on
the stack unwritten, so what the function then computes is indeterminate; the
model takes the metadata that results as the argument `junk`.  A NALU of
another type is counted in the length and left out of the layout.  So a
non-zero result says nothing about the buffer by itself.  `StartsOnSets` is
what it should say, and the result of this module says on which inputs it
does.
-/

namespace VmpSa

/-- `h264_meta_t`; `data` is `none` for NULL. -/
structure H264Meta where
  size : Int
  data : Option (List UInt8)
deriving Repr, DecidableEq

/-- A length in two bytes, high byte first. -/
def len16 (n : Nat) : List UInt8 := [UInt8.ofNat (n / 256), UInt8.ofNat n]

/-- The bytes a `h264_nalu_t` points to. -/
def naluBytes (buffer : List UInt8) (nalu : H264Nalu) : List UInt8 :=
  (buffer.drop nalu.naluData).take nalu.naluLen

/-- The writes of `h264_metadata_get` into the fresh block. -/
def metaBlock (buffer : List UInt8) (sps pps : H264Nalu) (block : List UInt8) :
    Option (List UInt8) :=
  (if sps.naluType = 0x07 then Block.write block 2 (len16 sps.naluLen ++ naluBytes buffer sps)
    else some block).bind fun block =>
  if pps.naluType = 0x08 then
    Block.write block (sps.naluLen + 6) (len16 pps.naluLen ++ naluBytes buffer pps)
  else some block

/-- `meta->size` for two NALUs, an `int`. -/
def metaSize (sps pps : H264Nalu) : Int := CInt.ofSize (sps.naluLen + pps.naluLen + 8)

/-- The two unchecked reads of `h264_metadata_get`: the position behind them, and
the NALUs when both are there. -/
def metaNalus (buffer : List UInt8) (size pos : Nat) : Nat × Option (H264Nalu × H264Nalu) :=
  let sps := naluRead buffer size pos
  let pps := naluRead buffer size (pos + sps.1)
  (pos + sps.1 + pps.1,
    match sps.2, pps.2 with
    | some sps, some pps => some (sps, pps)
    | _, _ => none)

/-- `h264_metadata_get`: the returned position and the metadata afterwards.
`calloc` is the answer of the allocator, `md` the metadata before the call and
`junk` what the indeterminate fields of an unread NALU lead to. -/
def h264MetadataGet (calloc : Bool) (junk : H264Meta) (buffer : List UInt8) (size offset : Nat)
    (md : H264Meta) : Option (Nat × H264Meta) :=
  let len := findStartCode (buffer.drop offset)
  if len = 0 then some (0, md)
  else
    let nalus := metaNalus buffer size (offset + len)
    match nalus.2 with
    | some (sps, pps) =>
        match Block.calloc calloc (metaSize sps pps) with
        | none => some (0, { size := metaSize sps pps, data := none })
        | some block =>
            (metaBlock buffer sps pps block).map fun data =>
              (nalus.1, { size := metaSize sps pps, data := some data })
    | none =>
        match junk.data with
        | none => some (0, junk)
        | some _ => some (nalus.1, junk)

/-! ## What a start should mean -/

/-- The two start codes. -/
def IsStartCode (c : List UInt8) : Prop := c = [0, 0, 1] ∨ c = [0, 0, 0, 1]

/-- The data is a start code, an SPS terminated by a start code and a PPS
terminated by a start code, and `pos` is just behind the last of them. -/
structure ParameterSets (x sps pps : List UInt8) (pos : Nat) : Prop where
  layout : ∃ c c₁ c₂ rest,
    IsStartCode c ∧ IsStartCode c₁ ∧ IsStartCode c₂ ∧
      x = c ++ (sps ++ (c₁ ++ (pps ++ (c₂ ++ rest)))) ∧
      -- the codes behind the sets are the first ones there
      startCode.cut (sps ++ (c₁ ++ (pps ++ (c₂ ++ rest)))) =
        some (sps, c₁ ++ (pps ++ (c₂ ++ rest))) ∧
      startCode.cut (pps ++ (c₂ ++ rest)) = some (pps, c₂ ++ rest) ∧
      pos = (c ++ (sps ++ (c₁ ++ (pps ++ c₂)))).length
  sps_type : naluTypeOf sps = 0x07
  pps_type : naluTypeOf pps = 0x08

/-- The metadata block of two parameter sets. -/
def metaLayout (sps pps : List UInt8) : List UInt8 :=
  [0, 0] ++ len16 sps.length ++ sps ++ ([0, 0] ++ len16 pps.length ++ pps)

/-- The call returns, and a non-zero position means that the data in use begins
with a pair of parameter sets, laid out in the metadata. -/
def StartsOnSets (calloc : Bool) (junk : H264Meta) (buffer : List UInt8) (size : Nat)
    (md : H264Meta) : Prop :=
  ∃ pos md', h264MetadataGet calloc junk buffer size 0 md = some (pos, md') ∧
    (pos ≠ 0 → ∃ sps pps, ParameterSets (buffer.take size) sps pps pos ∧
      md'.data = some (metaLayout sps pps) ∧ md'.size = (sps.length + pps.length + 8 : Nat))

/-- The allocation of the metadata block fails.  The call then returns `0`. -/
def MetaRefused (calloc : Bool) (junk : H264Meta) (buffer : List UInt8) (size : Nat) : Prop :=
  match (metaNalus buffer size (findStartCode buffer)).2 with
  | some (sps, pps) => calloc = false ∨ metaSize sps pps < 0
  | none => junk.data = none

/-- Behind the first start code stand two complete NALUs, an SPS and a PPS, the
code that ends the PPS does not end the data, and the block fits an `int`. -/
def CompletePair (buffer : List UInt8) (size : Nat) : Prop :=
  ∃ sps u pps v, startCode.cut (dataFrom buffer size (findStartCode buffer)) = some (sps, u) ∧
    startCode.cut (startCode.behind u) = some (pps, v) ∧ startCode.behind v ≠ [] ∧
    naluTypeOf sps = 0x07 ∧ naluTypeOf pps = 0x08 ∧ sps.length + pps.length + 8 < 2 ^ 31

/-! ## Start codes and cuts -/

theorem findStartCode_append_code {c : List UInt8} (hc : IsStartCode c) (y : List UInt8) :
    findStartCode (c ++ y) = c.length := by
  rcases hc with h | h <;> rw [h] <;> rfl

theorem behind_append_code {c : List UInt8} (hc : IsStartCode c) (y : List UInt8) :
    startCode.behind (c ++ y) = y := by
  rw [Delimiter.behind, startCode_len, findStartCode_append_code hc, List.drop_left]

theorem IsStartCode.length_le {c : List UInt8} (hc : IsStartCode c) : 3 ≤ c.length := by
  rcases hc with h | h <;> rw [h] <;> decide

/-- What the scanner finds at a cut is a start code. -/
theorem isStartCode_of_at {u : List UInt8} (hu : startCode.At u) :
    IsStartCode (u.take (findStartCode u)) := by
  have h4 : 4 ≤ u.length := hu.1
  obtain ⟨h0, h1, h⟩ := findStartCode_cases hu.2
  match u, h4 with
  | a :: b :: c :: e :: _, _ =>
      simp only [List.getD_cons_zero, List.getD_cons_succ] at h0 h1 h
      rcases h with ⟨h3, h2⟩ | ⟨h4, h2, h3⟩
      · rw [h3, h0, h1, h2]; exact Or.inl rfl
      · rw [h4, h0, h1, h2, h3]; exact Or.inr rfl

/-- The start code at a cut, split off. -/
theorem exists_code_of_at {u : List UInt8} (hu : startCode.At u) :
    ∃ c, IsStartCode c ∧ u = c ++ startCode.behind u :=
  ⟨u.take (findStartCode u), isStartCode_of_at hu, (List.take_append_drop _ _).symm⟩

variable {buffer x sps pps u v : List UInt8} {size pos : Nat}

/-- Parameter sets are the first two cuts behind the first code. -/
theorem ParameterSets.cuts (h : ParameterSets x sps pps pos) :
    ∃ u v, startCode.cut (x.drop (findStartCode x)) = some (sps, u) ∧
      startCode.cut (startCode.behind u) = some (pps, v) ∧
      pos = findStartCode x + (sps.length + (findStartCode u + (pps.length + findStartCode v))) ∧
      pos ≤ x.length := by
  obtain ⟨c, c₁, c₂, rest, hc, hc₁, hc₂, hx, hcut₁, hcut₂, hpos⟩ := h.layout
  have hfx : findStartCode x = c.length := by rw [hx, findStartCode_append_code hc]
  refine ⟨c₁ ++ (pps ++ (c₂ ++ rest)), c₂ ++ rest, ?_, ?_, ?_, ?_⟩
  · rw [hfx, hx, List.drop_left]
    exact hcut₁
  · rw [behind_append_code hc₁]
    exact hcut₂
  · rw [hpos, hfx, findStartCode_append_code hc₁, findStartCode_append_code hc₂]
    simp only [List.length_append]
  · rw [hpos, hx]
    simp only [List.length_append]
    omega

theorem ParameterSets.pos_le (h : ParameterSets x sps pps pos) : pos ≤ x.length := by
  obtain ⟨_, _, -, -, -, hle⟩ := h.cuts
  exact hle

/-- Two cuts behind the first code, of the right types, are parameter sets. -/
theorem ParameterSets.of_cuts {c y : List UInt8} (hc : IsStartCode c)
    (h₁ : startCode.cut y = some (sps, u)) (h₂ : startCode.cut (startCode.behind u) = some (pps, v))
    (hs : naluTypeOf sps = 0x07) (hp : naluTypeOf pps = 0x08) :
    ParameterSets (c ++ y) sps pps
      (c.length + (sps.length + (findStartCode u + (pps.length + findStartCode v)))) := by
  obtain ⟨hy, hu⟩ := Delimiter.cut_some h₁
  obtain ⟨hb, hv⟩ := Delimiter.cut_some h₂
  obtain ⟨c₁, hc₁, hu₁⟩ := exists_code_of_at hu
  obtain ⟨c₂, hc₂, hv₂⟩ := exists_code_of_at hv
  have hy' : y = sps ++ (c₁ ++ (pps ++ (c₂ ++ startCode.behind v))) := by
    rw [← hv₂, ← hb, ← hu₁, hy]
  refine ⟨⟨c, c₁, c₂, startCode.behind v, hc, hc₁, hc₂, by rw [← hy'], ?_, ?_, ?_⟩, hs, hp⟩
  · rw [← hy', h₁, ← hv₂, ← hb, ← hu₁]
  · rw [← hv₂, ← hb, h₂]
  · rw [hu₁, findStartCode_append_code hc₁, hv₂, findStartCode_append_code hc₂]
    simp only [List.length_append]

theorem at_of_code {c y : List UInt8} (hc : IsStartCode c) (hy : y ≠ []) :
    startCode.At (c ++ y) := by
  have hle := hc.length_le
  have hpos := List.length_pos_of_ne_nil hy
  refine ⟨?_, ?_⟩
  · rw [startCode_window, List.length_append]
    omega
  · rw [startCode_len, findStartCode_append_code hc]
    omega

theorem ne_nil_of_type {n : List UInt8} {k : UInt8} (h : naluTypeOf n = k) (hk : k ≠ 0) :
    n ≠ [] := by
  rintro rfl
  exact hk h.symm

/-- Behind the sets at its front the stream goes on by itself. -/
theorem ParameterSets.split (h : ParameterSets x sps pps pos) :
    startCode.tokens x = [] :: sps :: pps :: startCode.tokens (x.drop pos) ∧
      startCode.residue x = startCode.residue (x.drop pos) := by
  obtain ⟨c, c₁, c₂, rest, hc, hc₁, hc₂, hx, hcut₁, hcut₂, hpos⟩ := h.layout
  have hne : sps ++ (c₁ ++ (pps ++ (c₂ ++ rest))) ≠ [] := by
    intro hnil
    rw [hnil] at hcut₁
    cases hcut₁
  have hat : startCode.cut x = some ([], x) := by
    rw [hx]
    exact Delimiter.cut_of_at (at_of_code hc hne)
  have hrest : x.drop pos = rest := by
    have hassoc : x = (c ++ (sps ++ (c₁ ++ (pps ++ c₂)))) ++ rest := by
      rw [hx]
      simp only [List.append_assoc]
    rw [hpos, hassoc, List.drop_left]
  rw [hrest]
  constructor
  · rw [Delimiter.tokens_of_some hat, hx, behind_append_code hc, Delimiter.tokens_of_some hcut₁,
      behind_append_code hc₁, Delimiter.tokens_of_some hcut₂, behind_append_code hc₂]
  · rw [Delimiter.residue_of_some hat, hx, behind_append_code hc, Delimiter.residue_of_some hcut₁,
      behind_append_code hc₁, Delimiter.residue_of_some hcut₂, behind_append_code hc₂]

theorem ParameterSets.append (h : ParameterSets x sps pps pos) (y : List UInt8) :
    ParameterSets (x ++ y) sps pps pos := by
  obtain ⟨c, c₁, c₂, rest, hc, hc₁, hc₂, hx, hcut₁, hcut₂, hpos⟩ := h.layout
  have happ₁ := Delimiter.cut_append hcut₁ y
  have happ₂ := Delimiter.cut_append hcut₂ y
  simp only [List.append_assoc] at happ₁ happ₂
  refine ⟨⟨c, c₁, c₂, rest ++ y, hc, hc₁, hc₂, ?_, happ₁, happ₂, hpos⟩, h.sps_type, h.pps_type⟩
  rw [hx]
  simp only [List.append_assoc]

/-- The sets are there as soon as something stands behind the last code. -/
theorem ParameterSets.take (h : ParameterSets x sps pps pos) {n : Nat} (hn : pos < n) :
    ParameterSets (x.take n) sps pps pos := by
  rcases Nat.lt_or_ge n x.length with hlt | hge
  · obtain ⟨c, c₁, c₂, rest, hc, hc₁, hc₂, hx, hcut₁, hcut₂, hpos⟩ := h.layout
    have hlen := congrArg List.length hx
    have hl₁ := hc₁.length_le
    have hl₂ := hc₂.length_le
    have hp := List.length_pos_of_ne_nil (ne_nil_of_type h.pps_type (by decide))
    simp only [List.length_append] at hlen hpos
    have hmore : (rest.take (n - pos)).length = n - pos := by
      rw [List.length_take]
      omega
    have htake : x.take n = c ++ (sps ++ (c₁ ++ (pps ++ (c₂ ++ rest.take (n - pos))))) := by
      have hassoc : x = (c ++ (sps ++ (c₁ ++ (pps ++ c₂)))) ++ rest := by
        rw [hx]
        simp only [List.append_assoc]
      have hfront : (c ++ (sps ++ (c₁ ++ (pps ++ c₂)))).length = pos := by
        rw [hpos]
        simp only [List.length_append]
      rw [hassoc, List.take_append, hfront, List.take_of_length_le (by omega)]
      simp only [List.append_assoc]
    have hrest : rest = rest.take (n - pos) ++ rest.drop (n - pos) :=
      (List.take_append_drop _ _).symm
    -- both cuts see no more than the window behind the code
    have hnew₁ : startCode.cut (sps ++ (c₁ ++ (pps ++ (c₂ ++ rest.take (n - pos))))) =
        some (sps, c₁ ++ (pps ++ (c₂ ++ rest.take (n - pos)))) := by
      have hcut := Delimiter.cut_of_append (d := startCode)
        (x := sps ++ (c₁ ++ (pps ++ (c₂ ++ rest.take (n - pos))))) (y := rest.drop (n - pos))
        (by simp only [List.append_assoc]; rw [← hrest]; exact hcut₁)
        (by simp only [List.length_append, startCode_window]; omega)
      rwa [List.drop_left] at hcut
    have hnew₂ : startCode.cut (pps ++ (c₂ ++ rest.take (n - pos))) =
        some (pps, c₂ ++ rest.take (n - pos)) := by
      have hcut := Delimiter.cut_of_append (d := startCode)
        (x := pps ++ (c₂ ++ rest.take (n - pos))) (y := rest.drop (n - pos))
        (by simp only [List.append_assoc]; rw [← hrest]; exact hcut₂)
        (by simp only [List.length_append, startCode_window]; omega)
      rwa [List.drop_left] at hcut
    refine ⟨⟨c, c₁, c₂, rest.take (n - pos), hc, hc₁, hc₂, htake, hnew₁, hnew₂, ?_⟩,
      h.sps_type, h.pps_type⟩
    rw [hpos]
    simp only [List.length_append]
  · rwa [List.take_of_length_le hge]

/-! ## The two reads -/

theorem dataFrom_behind (hc : startCode.cut (dataFrom buffer size pos) = some (sps, u)) :
    dataFrom buffer size (pos + (sps.length + findStartCode u)) = startCode.behind u := by
  rw [← drop_dataFrom, (Delimiter.cut_some hc).1, ← List.drop_drop, List.drop_left]
  rfl

/-- Both NALUs were read: they are the first two cuts.  Either the position is
behind the second code, or that code ended the data and the position is past it. -/
theorem metaNalus_some (h : size ≤ buffer.length) {a b : H264Nalu}
    (hn : (metaNalus buffer size pos).2 = some (a, b)) :
    ∃ sps u pps v, startCode.cut (dataFrom buffer size pos) = some (sps, u) ∧
      startCode.cut (startCode.behind u) = some (pps, v) ∧
      a = { naluLen := sps.length, naluType := naluTypeOf sps, naluData := pos } ∧
      b.naluType = naluTypeOf pps ∧ b.naluData = pos + (sps.length + findStartCode u) ∧
      (startCode.behind v ≠ [] ∧ b.naluLen = pps.length ∧ (metaNalus buffer size pos).1 =
          pos + (sps.length + (findStartCode u + (pps.length + findStartCode v))) ∨
        startCode.behind v = [] ∧ size < (metaNalus buffer size pos).1) := by
  cases h₁ : startCode.cut (dataFrom buffer size pos) with
  | none => simp only [metaNalus, naluRead_none h h₁] at hn; cases hn
  | some c₁ =>
      obtain ⟨sps, u⟩ := c₁
      by_cases hu : startCode.behind u = []
      · -- the first code ends the data, and the second read starts past it
        have hlen := congrArg List.length (Delimiter.cut_some h₁).1
        have hlu := congrArg List.length (eq_of_behind_nil (Delimiter.cut_some h₁).2 hu)
        rw [length_dataFrom h, List.length_append] at hlen
        have hpast : naluRead buffer size (pos + (sps.length + 8)) = (0, none) := by
          rw [naluRead, if_neg]
          simp only [List.length_cons, List.length_nil] at hlu
          omega
        simp only [metaNalus, naluRead_at_end h h₁ hu, hpast] at hn
        cases hn
      · have hr₁ := naluRead_inside h h₁ hu
        have hd := dataFrom_behind h₁
        cases h₂ : startCode.cut (startCode.behind u) with
        | none =>
            rw [← hd] at h₂
            simp only [metaNalus, hr₁, naluRead_none h h₂] at hn
            cases hn
        | some c₂ =>
            obtain ⟨pps, v⟩ := c₂
            have h₂' := h₂
            rw [← hd] at h₂'
            by_cases hv : startCode.behind v = []
            · have hr₂ := naluRead_at_end h h₂' hv
              have hlen := congrArg List.length (Delimiter.cut_some h₂').1
              have hlv := congrArg List.length (eq_of_behind_nil (Delimiter.cut_some h₂').2 hv)
              rw [length_dataFrom h, List.length_append] at hlen
              simp only [List.length_cons, List.length_nil] at hlv
              simp only [metaNalus, hr₁, hr₂] at hn
              cases hn
              refine ⟨sps, u, pps, v, rfl, h₂, rfl, rfl, rfl, Or.inr ⟨hv, ?_⟩⟩
              simp only [metaNalus, hr₁, hr₂]
              omega
            · have hr₂ := naluRead_inside h h₂' hv
              simp only [metaNalus, hr₁, hr₂] at hn
              cases hn
              refine ⟨sps, u, pps, v, rfl, h₂, rfl, rfl, rfl, Or.inl ⟨hv, rfl, ?_⟩⟩
              simp only [metaNalus, hr₁, hr₂]
              omega

/-- Two cuts with data behind the second code are read as they stand. -/
theorem metaNalus_of_cuts (h : size ≤ buffer.length)
    (h₁ : startCode.cut (dataFrom buffer size pos) = some (sps, u))
    (h₂ : startCode.cut (startCode.behind u) = some (pps, v)) (hv : startCode.behind v ≠ []) :
    metaNalus buffer size pos =
      (pos + (sps.length + (findStartCode u + (pps.length + findStartCode v))), some
        ({ naluLen := sps.length, naluType := naluTypeOf sps, naluData := pos },
         { naluLen := pps.length, naluType := naluTypeOf pps
           naluData := pos + (sps.length + findStartCode u) })) := by
  have hu : startCode.behind u ≠ [] := by
    intro hnil
    rw [hnil] at h₂
    cases h₂
  have hr₁ := naluRead_inside h h₁ hu
  have hr₂ := naluRead_inside h (by rw [dataFrom_behind h₁]; exact h₂) hv
  simp only [metaNalus, hr₁, hr₂]
  rw [Nat.add_assoc, Nat.add_assoc]

/-- Two cuts are enough for both reads to find a NALU. -/
theorem metaNalus_ne_none (h : size ≤ buffer.length)
    (h₁ : startCode.cut (dataFrom buffer size pos) = some (sps, u))
    (h₂ : startCode.cut (startCode.behind u) = some (pps, v)) :
    (metaNalus buffer size pos).2 ≠ none := by
  have hu : startCode.behind u ≠ [] := by
    intro hnil
    rw [hnil] at h₂
    cases h₂
  have hr₁ := naluRead_inside h h₁ hu
  have hr₂ := naluRead_some h (by rw [dataFrom_behind h₁]; exact h₂)
  simp only [metaNalus, hr₁, hr₂]
  exact fun hnone => by cases hnone

/-! ## The layout -/

theorem naluBytes_eq {n : H264Nalu} (h : dataFrom buffer size n.naluData = sps ++ u)
    (hlen : n.naluLen = sps.length) : naluBytes buffer n = sps := by
  have htake := congrArg (List.take sps.length) h
  rw [List.take_left, dataFrom, List.drop_take, List.take_take] at htake
  have hle := congrArg List.length h
  rw [dataFrom, List.length_drop, List.length_take, List.length_append] at hle
  rw [naluBytes, hlen]
  rwa [Nat.min_eq_left (by omega)] at htake

@[simp] theorem length_len16 (n : Nat) : (len16 n).length = 2 := rfl

/-- Writing both parameter sets into a fresh block gives the layout. -/
theorem metaBlock_layout {a b : H264Nalu} (ha : naluBytes buffer a = sps)
    (hb : naluBytes buffer b = pps) (hla : a.naluLen = sps.length) (hlb : b.naluLen = pps.length)
    (hta : a.naluType = 0x07) (htb : b.naluType = 0x08) :
    metaBlock buffer a b (List.replicate (sps.length + pps.length + 8) 0) =
      some (metaLayout sps pps) := by
  have h₁ : Block.write (List.replicate (sps.length + pps.length + 8) 0) 2
      (len16 sps.length ++ sps) =
      some ([0, 0] ++ len16 sps.length ++ sps ++ List.replicate (pps.length + 4) 0) := by
    rw [Block.write_of_le (by simp; omega), List.take_replicate, List.drop_replicate]
    have e₁ : min 2 (sps.length + pps.length + 8) = 2 := by omega
    have e₂ : sps.length + pps.length + 8 - (2 + (len16 sps.length ++ sps).length) =
        pps.length + 4 := by
      rw [List.length_append, length_len16]
      omega
    rw [e₁, e₂, ← List.append_assoc]
    rfl
  have hfront : ([0, 0] ++ len16 sps.length ++ sps ++ [0, 0]).length = sps.length + 6 := by
    simp only [List.length_append, length_len16, List.length_cons, List.length_nil]
    omega
  have h₂ : Block.write ([0, 0] ++ len16 sps.length ++ sps ++ List.replicate (pps.length + 4) 0)
      (sps.length + 6) (len16 pps.length ++ pps) = some (metaLayout sps pps) := by
    have hsplit : List.replicate (pps.length + 4) (0 : UInt8) =
        [0, 0] ++ List.replicate (pps.length + 2) 0 := by
      rw [show pps.length + 4 = 2 + (pps.length + 2) by omega, List.replicate_add]
      rfl
    rw [Block.write_of_le (by simp; omega), hsplit, ← List.append_assoc _ [0, 0], ← hfront,
      List.take_left, List.drop_eq_nil_of_le (by simp; omega), List.append_nil, metaLayout]
    simp only [List.append_assoc]
  rw [metaBlock, if_pos hta, ha, hb, hla, hlb, h₁, Option.bind_some, if_pos htb, h₂]

/-! ## When a start means a pair of parameter sets -/

section Start

variable {calloc : Bool} {junk md : H264Meta}

theorem metadataGet_no_code (hL : findStartCode buffer = 0) :
    h264MetadataGet calloc junk buffer size 0 md = some (0, md) := by
  simp only [h264MetadataGet, List.drop_zero, hL, if_true]

/-- An unread NALU: the metadata is what the indeterminate fields make of it. -/
theorem metadataGet_junk (calloc : Bool) (junk md : H264Meta) (hL : findStartCode buffer ≠ 0)
    (hn : (metaNalus buffer size (findStartCode buffer)).2 = none) :
    h264MetadataGet calloc junk buffer size 0 md =
      match junk.data with
      | none => some (0, junk)
      | some _ => some ((metaNalus buffer size (findStartCode buffer)).1, junk) := by
  simp only [h264MetadataGet, List.drop_zero, hL, if_false, Nat.zero_add, hn]

theorem metadataGet_pair (calloc : Bool) (junk md : H264Meta) (hL : findStartCode buffer ≠ 0)
    {a b : H264Nalu}
    (hn : (metaNalus buffer size (findStartCode buffer)).2 = some (a, b)) :
    h264MetadataGet calloc junk buffer size 0 md =
      match Block.calloc calloc (metaSize a b) with
      | none => some (0, { size := metaSize a b, data := none })
      | some block =>
          (metaBlock buffer a b block).map fun data =>
            ((metaNalus buffer size (findStartCode buffer)).1,
              { size := metaSize a b, data := some data }) := by
  simp only [h264MetadataGet, List.drop_zero, hL, if_false, Nat.zero_add, hn]

theorem metaNalus_pos (hL : findStartCode buffer ≠ 0) :
    (metaNalus buffer size (findStartCode buffer)).1 ≠ 0 := by
  simp only [metaNalus]
  omega

/-- Four bytes in use are enough to settle the code at the front. -/
theorem findStartCode_take (h : size ≤ buffer.length) (h4 : 4 ≤ size) :
    findStartCode (buffer.take size) = findStartCode buffer := by
  have := findStartCode_drop h (p := 0) (by omega)
  rw [List.drop_zero, dataFrom, List.drop_zero] at this
  exact this.symm

/-- The code at the front of data that goes on behind it, split off. -/
theorem exists_front_code (h : size ≤ buffer.length) (h4 : 4 ≤ size)
    (hL : findStartCode buffer ≠ 0) :
    ∃ c, IsStartCode c ∧ c.length = findStartCode buffer ∧
      buffer.take size = c ++ dataFrom buffer size (findStartCode buffer) := by
  have hlen : (buffer.take size).length = size := by rw [List.length_take, Nat.min_eq_left h]
  have hcode := findStartCode_take h h4
  have hat : startCode.At (buffer.take size) :=
    ⟨by rwa [hlen], by rwa [startCode_len, hcode]⟩
  obtain ⟨c, hc, heq⟩ := exists_code_of_at hat
  refine ⟨c, hc, ?_, ?_⟩
  · rw [← hcode, heq, findStartCode_append_code hc]
  · rwa [Delimiter.behind, startCode_len, hcode] at heq

/-- A pair of parameter sets at the front, seen through the two cuts. -/
theorem ParameterSets.front (h : size ≤ buffer.length)
    (hp : ParameterSets (buffer.take size) sps pps pos) :
    ∃ u v, startCode.cut (dataFrom buffer size (findStartCode buffer)) = some (sps, u) ∧
      startCode.cut (startCode.behind u) = some (pps, v) ∧
      pos = findStartCode buffer +
        (sps.length + (findStartCode u + (pps.length + findStartCode v))) ∧ pos ≤ size := by
  obtain ⟨u, v, h₁, h₂, hpos, hle⟩ := hp.cuts
  have hlen : (buffer.take size).length = size := by rw [List.length_take, Nat.min_eq_left h]
  have h4 : 4 ≤ size := by
    have hu := (Delimiter.cut_some h₁).2.1
    have hx := congrArg List.length (Delimiter.cut_some h₁).1
    rw [List.length_drop, List.length_append, hlen] at hx
    rw [startCode_window] at hu
    omega
  rw [findStartCode_take h h4] at h₁ hpos
  exact ⟨u, v, h₁, h₂, hpos, by rwa [hlen] at hle⟩

/-- A refused block makes the call return `0`. -/
theorem startsOnSets_of_refused (hL : findStartCode buffer ≠ 0)
    (hr : MetaRefused calloc junk buffer size) : StartsOnSets calloc junk buffer size md := by
  cases hn : (metaNalus buffer size (findStartCode buffer)).2 with
  | none =>
      simp only [MetaRefused, hn] at hr
      exact ⟨0, junk, by rw [metadataGet_junk _ _ _ hL hn, hr], fun h0 => absurd rfl h0⟩
  | some ab =>
      obtain ⟨a, b⟩ := ab
      simp only [MetaRefused, hn] at hr
      have hno : ¬ (calloc = true ∧ 0 ≤ metaSize a b) := by
        rintro ⟨htrue, hnonneg⟩
        rcases hr with hfalse | hneg
        · rw [htrue] at hfalse; cases hfalse
        · omega
      refine ⟨0, { size := metaSize a b, data := none }, ?_, fun h0 => absurd rfl h0⟩
      rw [metadataGet_pair _ _ _ hL hn, Block.calloc, if_neg hno]

theorem startsOnSets_of_completePair (h : size ≤ buffer.length) (hL : findStartCode buffer ≠ 0)
    (hr : ¬ MetaRefused calloc junk buffer size) (hc : CompletePair buffer size) :
    StartsOnSets calloc junk buffer size md := by
  obtain ⟨sps, u, pps, v, h₁, h₂, hv, hs, hp, hsize⟩ := hc
  have hn := metaNalus_of_cuts h h₁ h₂ hv
  obtain ⟨hx, hu⟩ := Delimiter.cut_some h₁
  have hle := congrArg List.length hx
  rw [length_dataFrom h, List.length_append] at hle
  have hu4 : 4 ≤ u.length := hu.1
  obtain ⟨c, hc, hclen, hfront⟩ := exists_front_code h (by omega) hL
  have hset := ParameterSets.of_cuts hc h₁ h₂ hs hp
  rw [← hfront, hclen] at hset
  have hms : metaSize
      { naluLen := sps.length, naluType := naluTypeOf sps, naluData := findStartCode buffer }
      { naluLen := pps.length, naluType := naluTypeOf pps
        naluData := findStartCode buffer + (sps.length + findStartCode u) } =
      (sps.length + pps.length + 8 : Nat) := CInt.ofSize_of_lt hsize
  have hgrant : calloc = true := by
    by_contra hfalse
    apply hr
    simp only [MetaRefused, hn]
    exact Or.inl (by simpa using hfalse)
  refine ⟨_, { size := (sps.length + pps.length + 8 : Nat), data := some (metaLayout sps pps) },
    ?_, fun _ => ⟨sps, pps, hset, rfl, rfl⟩⟩
  rw [metadataGet_pair _ _ _ hL (congrArg Prod.snd hn), hms, Block.calloc,
    if_pos ⟨hgrant, by omega⟩]
  simp only [Int.toNat_natCast]
  rw [metaBlock_layout (naluBytes_eq hx rfl)
    (naluBytes_eq ((dataFrom_behind h₁).trans (Delimiter.cut_some h₂).1) rfl) rfl rfl hs hp]
  simp only [Option.map_some, hn]

theorem completePair_of_startsOnSets (h : size ≤ buffer.length) (hL : findStartCode buffer ≠ 0)
    (hr : ¬ MetaRefused calloc junk buffer size) (hs : StartsOnSets calloc junk buffer size md) :
    CompletePair buffer size := by
  obtain ⟨pos, md', hget, hmeans⟩ := hs
  cases hn : (metaNalus buffer size (findStartCode buffer)).2 with
  | none =>
      -- the position returned for unread NALUs would have to follow two cuts
      rw [metadataGet_junk _ _ _ hL hn] at hget
      cases hj : junk.data with
      | none => exact absurd (by simp only [MetaRefused, hn, hj]) hr
      | some data =>
          simp only [hj, Option.some.injEq, Prod.mk.injEq] at hget
          obtain ⟨hpos, -⟩ := hget
          obtain ⟨sps, pps, hset, -⟩ := hmeans (by rw [← hpos]; exact metaNalus_pos hL)
          obtain ⟨u, v, h₁, h₂, -, -⟩ := hset.front h
          exact absurd hn (metaNalus_ne_none h h₁ h₂)
  | some ab =>
      obtain ⟨a, b⟩ := ab
      have hgrant : calloc = true ∧ 0 ≤ metaSize a b := by
        simp only [MetaRefused, hn, not_or, Bool.not_eq_false, Int.not_lt] at hr
        exact hr
      rw [metadataGet_pair _ _ _ hL hn, Block.calloc, if_pos hgrant] at hget
      obtain ⟨data, -, heq⟩ := Option.map_eq_some_iff.mp hget
      simp only [Prod.mk.injEq] at heq
      obtain ⟨hpos, hmd⟩ := heq
      obtain ⟨sps, pps, hset, -, hsize⟩ := hmeans (by rw [← hpos]; exact metaNalus_pos hL)
      obtain ⟨u, v, h₁, h₂, -, hle⟩ := hset.front h
      obtain ⟨sps', u', pps', v', h₁', h₂', ha, hbt, hbd, hend⟩ := metaNalus_some h hn
      rw [h₁] at h₁'
      cases h₁'
      rw [h₂] at h₂'
      cases h₂'
      rcases hend with ⟨hv, hlb, -⟩ | ⟨-, hlt⟩
      · refine ⟨sps, u, pps, v, h₁, h₂, hv, hset.sps_type, hset.pps_type, ?_⟩
        have hlt := CInt.ofSize_lt (a.naluLen + b.naluLen + 8)
        rw [← hmd] at hsize
        change CInt.ofSize (a.naluLen + b.naluLen + 8) = _ at hsize
        omega
      · omega

end Start

/-- A non-zero position stands for a pair of parameter sets exactly when the
buffer does not begin with a start code, or the metadata block is refused (both
return `0`), or a complete SPS and PPS follow.  `data` are the bytes in use and
`rest` the other bytes of the allocation, of which the first may be read too. -/
theorem metadata_starts_on_sets_iff (calloc : Bool) (junk md : H264Meta) (data rest : List UInt8) :
    StartsOnSets calloc junk (data ++ rest) data.length md ↔
      findStartCode (data ++ rest) = 0 ∨
        MetaRefused calloc junk (data ++ rest) data.length ∨
        CompletePair (data ++ rest) data.length := by
  have h : data.length ≤ (data ++ rest).length := by
    rw [List.length_append]
    exact Nat.le_add_right _ _
  by_cases hL : findStartCode (data ++ rest) = 0
  · exact ⟨fun _ => Or.inl hL,
      fun _ => ⟨0, md, metadataGet_no_code hL, fun h0 => absurd rfl h0⟩⟩
  · by_cases hr : MetaRefused calloc junk (data ++ rest) data.length
    · exact ⟨fun _ => Or.inr (Or.inl hr), fun _ => startsOnSets_of_refused hL hr⟩
    · constructor
      · intro hs
        exact Or.inr (Or.inr (completePair_of_startsOnSets h hL hr hs))
      · rintro (h0 | hr' | hc)
        · exact absurd h0 hL
        · exact absurd hr' hr
        · exact startsOnSets_of_completePair h hL hr hc

/-- An access-unit delimiter (type 9) in front of the SPS.  The delimiter is
taken for the SPS and the SPS for the PPS. -/
def delimiterFirst : List UInt8 :=
  [0, 0, 1, 0x09, 0xf0, 0, 0, 1, 0x67, 0x42, 0, 0, 1, 0x68, 0xce]

theorem delimiterFirst_starts_on_no_sets :
    (metaNalus delimiterFirst delimiterFirst.length 3).1 = 13 ∧
      ¬ StartsOnSets true ⟨0, none⟩ (delimiterFirst ++ []) delimiterFirst.length ⟨0, none⟩ := by
  have h₁ : startCode.cut (dataFrom delimiterFirst 15 3) =
      some ([0x09, 0xf0], [0, 0, 1, 0x67, 0x42, 0, 0, 1, 0x68, 0xce]) := by decide
  have h₂ : startCode.cut (startCode.behind [0, 0, 1, 0x67, 0x42, 0, 0, 1, 0x68, 0xce]) =
      some ([0x67, 0x42], [0, 0, 1, 0x68, 0xce]) := by decide
  have hn : metaNalus delimiterFirst delimiterFirst.length 3 = _ :=
    metaNalus_of_cuts (by decide) h₁ h₂ (by decide)
  refine ⟨congrArg Prod.fst hn, fun hs => ?_⟩
  have hr : ¬ MetaRefused true ⟨0, none⟩ (delimiterFirst ++ []) delimiterFirst.length := by
    have hf : findStartCode delimiterFirst = 3 := by decide
    simp only [MetaRefused, List.append_nil, hf, hn]
    decide
  obtain ⟨sps, u, pps, v, hcut, -, -, htype, -, -⟩ :=
    completePair_of_startsOnSets (by decide) (by decide) hr hs
  have hcut' : startCode.cut (dataFrom delimiterFirst 15 3) = some (sps, u) := hcut
  rw [h₁] at hcut'
  cases hcut'
  exact absurd htype (by decide)

end VmpSa
