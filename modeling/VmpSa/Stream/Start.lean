import VmpSa.Stream.Repackage

/-!
# The start of a channel

A channel that has not started keeps every byte it receives and asks
`h264_metadata_get` on each call whether the buffer begins with parameter sets.
The question is always put at position `0`, and nothing is discarded when the
answer is no.  So the answer depends on the first bytes ever received: with a
start code in front the channel starts at the latest when two NALUs are
complete, and without one it never starts.
-/

namespace VmpSa

/-! ## Bytes behind the data -/

/-- The bytes behind the data, as far as the start test reads them, are zero. -/
def Padded (buffer z : List UInt8) : Prop :=
  ∀ i, z.length ≤ i → i < 4 → buffer.getD i 0 = 0

theorem padded_init (n : Nat) : Padded (timaBufferInit n).buffer [] := by
  intro i _ _
  simp [timaBufferInit, List.getD_eq_getElem?_getD, List.getElem?_replicate]
  split <;> rfl

variable {node node' : StreamNode} {buffer z x : List UInt8} {call : Call} {hdr : RtmpPacket}

/-- The start test sees the data followed by zeros. -/
theorem findStartCode_padded (h : InUse buffer z) (hpad : Padded buffer z) :
    findStartCode buffer = findStartCode z := by
  have hget : ∀ i, i < 4 → buffer.getD i 0 = z.getD i 0 := by
    intro i hi
    by_cases hlt : i < z.length
    · rw [← List.take_append_drop z.length buffer, h.take_eq, List.getD_append _ _ _ _ hlt]
    · rw [hpad i (by omega) hi, List.getD_eq_default _ _ (by omega)]
  simp only [findStartCode, hget 0 (by omega), hget 1 (by omega), hget 2 (by omega),
    hget 3 (by omega)]

/-- A code at the front lies within the data and stays there. -/
theorem findStartCode_le_length (z : List UInt8) : findStartCode z ≤ z.length := by
  by_cases h : findStartCode z = 0
  · omega
  · obtain ⟨-, -, ⟨h3, hb⟩ | ⟨h4, -, hb⟩⟩ := findStartCode_cases h
    · by_contra hlt
      rw [List.getD_eq_default _ _ (by omega)] at hb
      exact absurd hb (by decide)
    · by_contra hlt
      rw [List.getD_eq_default _ _ (by omega)] at hb
      exact absurd hb (by decide)

theorem findStartCode_extend (h : findStartCode z ≠ 0) (y : List UInt8) :
    findStartCode (z ++ y) = findStartCode z := by
  have hle := findStartCode_le_length z
  obtain ⟨h0, h1, ⟨h3, hb⟩ | ⟨h4, hb, hc⟩⟩ := findStartCode_cases h
  · rw [h3]
    simp only [findStartCode, List.getD_append z y 0 0 (by omega),
      List.getD_append z y 0 1 (by omega), List.getD_append z y 0 2 (by omega), h0, h1, hb]
    rfl
  · rw [findStartCode_append z y (by omega)]

/-! ## A waiting channel -/

/-- The channel has not started and has the bytes `z` pending. -/
structure Waiting (node : StreamNode) (z : List UInt8) : Prop where
  started : node.channel.started = false
  pending : Pending node z
  padded : Padded node.channel.buffer.buffer z

theorem waiting_init : Waiting .init [] := ⟨rfl, pending_init, padded_init _⟩

/-- An append that is not refused keeps the channel waiting. -/
theorem append_waiting (hw : Waiting node z) (hlt : z.length < 2 ^ 31)
    (hg : node.channel.buffer.Grows call.body.bytes → call.alloc.realloc = true) :
    ∃ b, channelAppend call.alloc node call.body.bytes = some (node.withBuffer b) ∧
      Waiting (node.withBuffer b) (z ++ call.body.bytes) := by
  have hp := hw.pending
  obtain ⟨b, hb, hh, hle, hbuf⟩ :=
    TimaBuffer.strdup_append call.alloc.realloc hp.holds hlt call.body.short hp.total hg
  have hshort := call.body.short
  have ht := hp.total
  refine ⟨b, ?_, hw.started, ⟨hh, by simp only [withBuffer_buffer]; omega, ?_⟩, ?_⟩
  · simp only [channelAppend, hb, Option.map_some, StreamNode.withBuffer]
  · rw [List.length_append]
    omega
  · intro i hi h4
    by_cases hnil : call.body.bytes = []
    · rw [hnil, TimaBuffer.strdup_nil] at hb
      cases hb
      exact hw.padded i (by rwa [hnil, List.append_nil] at hi) h4
    · -- no growth among the first four bytes, so the copy and its NUL are all that changed
      have hng : ¬ node.channel.buffer.Grows call.body.bytes := by
        rintro ⟨-, hgrow⟩
        rw [hp.holds.used] at hgrow
        rw [List.length_append] at hi
        omega
      rw [withBuffer_buffer, hbuf hnil hng, List.getD_append_right _ _ _ _ hi]
      cases hk : i - (z ++ call.body.bytes).length with
      | zero => rfl
      | succ k =>
          rw [List.getD_cons_succ, List.getD_eq_getElem?_getD, List.getElem?_drop,
            ← List.getD_eq_getElem?_getD]
          refine hw.padded _ ?_ (by omega)
          rw [List.length_append]
          omega

/-! ## The metadata a call starts on -/

/-- What `h264_metadata_get` returns to a call. -/
def startMeta (node : StreamNode) (call : Call) : Option (Nat × H264Meta) :=
  (channelAppend call.alloc node call.body.bytes).bind fun node₁ =>
    h264MetadataGet call.alloc.metaData call.alloc.junk (timaBufferData node₁.channel.buffer 0)
      (timaBufferUsed node₁.channel.buffer) 0 node₁.channel.metaData

/-- The position is just behind a start code. -/
def BehindCode (z : List UInt8) (pos : Nat) : Prop :=
  ∃ pre c, IsStartCode c ∧ z.take pos = pre ++ c

theorem BehindCode.read (h : InUse buffer z) (hend : ¬ EndsWithCode z) {p : Nat}
    (hp : p ≤ z.length) (hb : BehindCode z p) :
    BehindCode z (p + (naluRead buffer z.length p).1) := by
  cases hc : startCode.cut (z.drop p) with
  | none =>
      rw [naluRead_none h.le (by rw [h.dataFrom_eq, hc])]
      exact hb
  | some c =>
      obtain ⟨t, u⟩ := c
      rw [naluRead_inside h.le (by rw [h.dataFrom_eq, hc]) (behind_ne_nil hend hc)]
      obtain ⟨hx, hu⟩ := Delimiter.cut_some hc
      refine ⟨z.take p ++ t, u.take (findStartCode u), isStartCode_of_at hu, ?_⟩
      have hz : z = z.take p ++ (t ++ u) := by rw [← hx, List.take_append_drop]
      have hlen : (z.take p).length = p := by rw [List.length_take, Nat.min_eq_left hp]
      calc z.take (p + (t.length + findStartCode u))
          = (z.take p ++ (t ++ u)).take ((z.take p).length + (t.length + findStartCode u)) := by
            rw [← hz, hlen]
        _ = z.take p ++ t ++ u.take (findStartCode u) := by
            rw [List.take_length_add_append, List.take_length_add_append, List.append_assoc]

/-- A code at the front, and what the two reads behind it leave of the data. -/
theorem metaNalus_inside (h : InUse buffer z) (hend : ¬ EndsWithCode z)
    (hL : findStartCode z ≠ 0) :
    (metaNalus buffer z.length (findStartCode z)).1 ≤ z.length ∧
      BehindCode z (metaNalus buffer z.length (findStartCode z)).1 := by
  have hle := findStartCode_le_length z
  have hfront : BehindCode z (findStartCode z) := by
    refine ⟨[], z.take (findStartCode z), ?_, rfl⟩
    obtain ⟨h0, h1, ⟨h3, h2⟩ | ⟨h4, h2, hb⟩⟩ := findStartCode_cases hL
    · match z, (show 3 ≤ z.length by omega) with
      | a :: b :: c :: _, _ =>
          simp only [List.getD_cons_zero, List.getD_cons_succ] at h0 h1 h2
          rw [h3, h0, h1, h2]
          exact Or.inl rfl
    · exact isStartCode_of_at ⟨by rw [startCode_window]; omega, hL⟩
  have h₁ := naluRead_le h hend hle
  have h₂ := naluRead_le h hend h₁
  exact ⟨h₂, (hfront.read h hend hle).read h hend h₁⟩

/-- The writes of `h264_metadata_get` fit the block it asked for. -/
theorem metaBlock_total (buffer : List UInt8) (sps pps : H264Nalu) {block : List UInt8}
    (hlen : block.length = sps.naluLen + pps.naluLen + 8) :
    ∃ data, metaBlock buffer sps pps block = some data := by
  have hbytes : ∀ n : H264Nalu, (naluBytes buffer n).length ≤ n.naluLen := fun n =>
    List.length_take_le _ _
  have hs := hbytes sps
  have hp := hbytes pps
  obtain ⟨block₁, h₁, hlen₁⟩ : ∃ block₁, (if sps.naluType = 0x07 then
      Block.write block 2 (len16 sps.naluLen ++ naluBytes buffer sps) else some block) =
      some block₁ ∧ block₁.length = block.length := by
    split
    · have hw : Block.write block 2 (len16 sps.naluLen ++ naluBytes buffer sps) = some _ :=
        Block.write_of_le (by rw [List.length_append, length_len16]; omega)
      exact ⟨_, hw, Block.length_of_write hw⟩
    · exact ⟨block, rfl, rfl⟩
  rw [metaBlock, h₁, Option.bind_some]
  split
  · exact ⟨_, Block.write_of_le (by rw [List.length_append, length_len16]; omega)⟩
  · exact ⟨block₁, rfl⟩

/-- Two NALUs are complete behind the code at the front. -/
def TwoNalus (z : List UInt8) : Prop :=
  ∃ t u t' u', startCode.cut (z.drop (findStartCode z)) = some (t, u) ∧
    startCode.cut (startCode.behind u) = some (t', u')

/-- What `h264_metadata_get` can answer on data of an `int` size that does not end
with a code.  It needs a start code in front, and two NALUs are enough for it. -/
theorem metadataGet_cases (h : InUse buffer z) (hpad : Padded buffer z) (hend : ¬ EndsWithCode z)
    (hlt : z.length + 67 < 2 ^ 31) (calloc : Bool) (junk md : H264Meta) :
    ∃ pos md', h264MetadataGet calloc junk buffer z.length 0 md = some (pos, md') ∧
      (pos ≠ 0 → findStartCode z ≠ 0 ∧ pos ≤ z.length ∧ BehindCode z pos) ∧
      (calloc = true → findStartCode z ≠ 0 → TwoNalus z → pos ≠ 0) := by
  have hf := findStartCode_padded h hpad
  by_cases hL : findStartCode z = 0
  · exact ⟨0, md, metadataGet_no_code (hf.trans hL), fun h0 => absurd rfl h0,
      fun _ hne => absurd hL hne⟩
  · have hL' : findStartCode buffer ≠ 0 := by rwa [hf]
    have hin := metaNalus_inside h hend hL
    have hpos : (metaNalus buffer z.length (findStartCode z)).1 ≠ 0 := by
      rw [← hf]
      exact metaNalus_pos hL'
    cases hn : (metaNalus buffer z.length (findStartCode z)).2 with
    | none =>
        have hget := metadataGet_junk calloc junk md hL' (hf.symm ▸ hn)
        have hno : ¬ TwoNalus z := by
          rintro ⟨t, u, t', u', h₁, h₂⟩
          exact metaNalus_ne_none h.le (by rw [h.dataFrom_eq]; exact h₁) h₂ hn
        cases hj : junk.data with
        | none =>
            exact ⟨0, junk, by rw [hget, hj], fun h0 => absurd rfl h0, fun _ _ h2 => absurd h2 hno⟩
        | some data =>
            exact ⟨_, junk, by rw [hget, hj, hf], fun _ => ⟨hL, hin⟩, fun _ _ h2 => absurd h2 hno⟩
    | some ab =>
        obtain ⟨a, b⟩ := ab
        have hget := metadataGet_pair calloc junk md hL' (hf.symm ▸ hn)
        obtain ⟨sps, u, pps, v, h₁, h₂, ha, -, -, hcode⟩ := metaNalus_some h.le hn
        have hd := dataFrom_behind h₁
        rw [h.dataFrom_eq] at h₁ hd
        have hlen := Delimiter.length_two_cuts h₁ h₂
        rw [List.length_drop] at hlen
        have hv : startCode.behind v ≠ [] := behind_ne_nil hend (hd ▸ h₂)
        obtain ⟨-, hlb, -⟩ := hcode.resolve_right fun h => hv h.1
        have hsum : a.naluLen + b.naluLen + 8 < 2 ^ 31 := by
          rw [ha, hlb]
          simp only
          omega
        have hsize : metaSize a b = (a.naluLen + b.naluLen + 8 : Nat) := CInt.ofSize_of_lt hsum
        cases calloc with
        | false =>
            exact ⟨0, { size := metaSize a b, data := none }, hget, fun h0 => absurd rfl h0,
              fun h => by cases h⟩
        | true =>
            obtain ⟨data, hdata⟩ := metaBlock_total buffer a b
              (List.length_replicate (n := a.naluLen + b.naluLen + 8) (a := (0 : UInt8)))
            refine ⟨_, { size := metaSize a b, data := some data }, ?_, fun _ => ⟨hL, hin⟩,
              fun _ _ _ => hpos⟩
            rw [hget, hsize, hf, Block.calloc, if_pos ⟨rfl, by omega⟩]
            simp only [Int.toNat_natCast, hdata, Option.map_some]

/-! ## One call on a waiting channel -/

/-- What a call on a waiting channel learns about the data it sees. -/
theorem startMeta_cases (call : Call) (hw : Waiting node z)
    (hg : node.channel.buffer.Grows call.body.bytes → call.alloc.realloc = true)
    (hend : ¬ EndsWithCode (z ++ call.body.bytes))
    (hlt : (z ++ call.body.bytes).length + 67 < 2 ^ 31) :
    ∃ pos md, startMeta node call = some (pos, md) ∧
      (pos ≠ 0 → findStartCode (z ++ call.body.bytes) ≠ 0 ∧
        pos ≤ (z ++ call.body.bytes).length ∧ BehindCode (z ++ call.body.bytes) pos) ∧
      (call.alloc.metaData = true → findStartCode (z ++ call.body.bytes) ≠ 0 →
        TwoNalus (z ++ call.body.bytes) → pos ≠ 0) := by
  have hz : z.length < 2 ^ 31 := by
    rw [List.length_append] at hlt
    omega
  obtain ⟨b, happ, hw₁⟩ := append_waiting hw hz hg
  obtain ⟨pos, md, hget, hpos, htwo⟩ := metadataGet_cases hw₁.pending.holds.inUse hw₁.padded hend
    hlt call.alloc.metaData call.alloc.junk node.channel.metaData
  refine ⟨pos, md, ?_, hpos, htwo⟩
  rw [startMeta, happ, Option.bind_some, timaBufferUsed, hw₁.pending.holds.used]
  exact hget

/-- A complete SPS and PPS at the front, with the block granted: the metadata is
their layout. -/
theorem startMeta_pair (hw : Waiting node z) (ha : call.alloc.Succeeds)
    (hend : ¬ EndsWithCode (z ++ call.body.bytes))
    (hlt : (z ++ call.body.bytes).length + 67 < 2 ^ 31)
    (hL : findStartCode (z ++ call.body.bytes) ≠ 0) {sps u pps v : List UInt8}
    (h₁ : startCode.cut ((z ++ call.body.bytes).drop (findStartCode (z ++ call.body.bytes))) =
      some (sps, u))
    (h₂ : startCode.cut (startCode.behind u) = some (pps, v))
    (hs : naluTypeOf sps = 0x07) (hp : naluTypeOf pps = 0x08) :
    startMeta node call = some
      (findStartCode (z ++ call.body.bytes) +
          (sps.length + (findStartCode u + (pps.length + findStartCode v))),
        { size := (sps.length + pps.length + 8 : Nat), data := some (metaLayout sps pps) }) := by
  have hz : z.length < 2 ^ 31 := by
    rw [List.length_append] at hlt
    omega
  obtain ⟨b, happ, hw₁⟩ := append_waiting hw hz (fun _ => ha.realloc)
  generalize z ++ call.body.bytes = y at *
  have hin := hw₁.pending.holds.inUse
  have hf := findStartCode_padded hin hw₁.padded
  have hsum : sps.length + pps.length + 8 < 2 ^ 31 := by
    have hlen := Delimiter.length_two_cuts h₁ h₂
    rw [List.length_drop] at hlen
    omega
  have hd := dataFrom_behind (show startCode.cut (dataFrom _ y.length _) = _ by
    rw [hin.dataFrom_eq, h₁])
  rw [hin.dataFrom_eq] at hd
  have hn := metaNalus_of_cuts hin.le (by rw [hin.dataFrom_eq, h₁]) h₂
    (behind_ne_nil hend (hd ▸ h₂))
  have hlayout := metaBlock_layout
    (a := ⟨sps.length, naluTypeOf sps, findStartCode y⟩)
    (b := ⟨pps.length, naluTypeOf pps, findStartCode y + (sps.length + findStartCode u)⟩)
    (naluBytes_eq ((hin.dataFrom_eq _).trans (Delimiter.cut_some h₁).1) rfl)
    (naluBytes_eq ((hin.dataFrom_eq _).trans (hd.trans (Delimiter.cut_some h₂).1)) rfl)
    rfl rfl hs hp
  have hsize : metaSize ⟨sps.length, naluTypeOf sps, findStartCode y⟩
      ⟨pps.length, naluTypeOf pps, findStartCode y + (sps.length + findStartCode u)⟩ =
      (sps.length + pps.length + 8 : Nat) := CInt.ofSize_of_lt hsum
  have hget := metadataGet_pair call.alloc.metaData call.alloc.junk node.channel.metaData
    (hf.symm ▸ hL) (hf.symm ▸ congrArg Prod.snd hn)
  rw [hf, hsize, ha.metaData, Block.calloc, if_pos ⟨rfl, by omega⟩] at hget
  simp only [Int.toNat_natCast, hlayout, Option.map_some, hn] at hget
  have hstart : startMeta node call = h264MetadataGet true call.alloc.junk
      (timaBufferData (node.withBuffer b).channel.buffer 0) y.length 0 node.channel.metaData := by
    rw [startMeta, happ, Option.bind_some, timaBufferUsed, hw₁.pending.holds.used, ha.metaData]
    rfl
  exact hstart.trans hget

/-- A call that does not start the channel keeps all the bytes. -/
theorem proc_not_starting (call : Call) (hw : Waiting node z) {md : H264Meta}
    (hg : node.channel.buffer.Grows call.body.bytes → call.alloc.realloc = true)
    (hlt : (z ++ call.body.bytes).length + 67 < 2 ^ 31)
    (hmeta : startMeta node call = some (0, md)) :
    ∃ node', h264StreamProc call.alloc node call.body.bytes = some (-1, node') ∧
      Waiting node' (z ++ call.body.bytes) ∧ node'.naluList = node.naluList ∧
      node'.channel.id = node.channel.id := by
  have hz : z.length < 2 ^ 31 := by
    rw [List.length_append] at hlt
    omega
  obtain ⟨b, happ, hw₁⟩ := append_waiting hw hz hg
  rw [startMeta, happ, Option.bind_some] at hmeta
  refine ⟨{ node.withBuffer b with
      channel := { (node.withBuffer b).channel with metaData := md } }, ?_,
    ⟨hw₁.started, ⟨hw₁.pending.holds, hw₁.pending.total, hw₁.pending.lt⟩, hw₁.padded⟩, rfl, rfl⟩
  rw [h264StreamProc, h264StreamScan, happ, Option.bind_some, channelScan, if_neg
    (by rw [hw₁.started]; decide), hmeta]
  rfl

/-- A call that starts the channel queues the sequence header and goes on behind
the parameter sets. -/
theorem proc_starting (call : Call) (hw : Waiting node z) {pos : Nat} {md : H264Meta}
    (hg : node.channel.buffer.Grows call.body.bytes → call.alloc.realloc = true)
    (hn : ∀ b ∈ call.alloc.nodes, b = true) (hend : ¬ EndsWithCode (z ++ call.body.bytes))
    (hlt : (z ++ call.body.bytes).length + 67 < 2 ^ 31)
    (hmeta : startMeta node call = some (pos, md)) (hpos : pos ≠ 0)
    (hle : pos ≤ (z ++ call.body.bytes).length)
    (hhdr : rtmpMetaPack true md.data md.size = some (some hdr))
    (hpack : nextAnswer call.alloc.packs = true) :
    ∃ node', h264StreamProc call.alloc node call.body.bytes = some
        (if ServesAll (call.alloc.packs.drop 1) hdr ((z ++ call.body.bytes).drop pos)
          then 0 else -1, node') ∧
      Started node' hdr ∧ node'.channel.id = node.channel.id ∧
      node'.naluList = node.naluList ++
        (hdr :: servedPackets (call.alloc.packs.drop 1) hdr ((z ++ call.body.bytes).drop pos)).map
          (nalNode node.channel.id) ∧
      Pending node' (if ServesAll (call.alloc.packs.drop 1) hdr ((z ++ call.body.bytes).drop pos)
        then startCode.residue ((z ++ call.body.bytes).drop pos) else z ++ call.body.bytes) := by
  have hz : z.length < 2 ^ 31 := by
    rw [List.length_append] at hlt
    omega
  obtain ⟨b, happ, hw₁⟩ := append_waiting hw hz hg
  rw [startMeta, happ, Option.bind_some] at hmeta
  generalize hnode₂ : ({ node.withBuffer b with
      channel := { (node.withBuffer b).channel with metaData := md, started := true } } :
      StreamNode) = node₂
  have hs₂ : Started node₂ hdr := by
    rw [← hnode₂]
    exact ⟨rfl, hhdr⟩
  have hp₂ : Pending node₂ (z ++ call.body.bytes) := by
    rw [← hnode₂]
    exact ⟨hw₁.pending.holds, hw₁.pending.total, hw₁.pending.lt⟩
  have hn₂ : NodesGranted ⟨pos, node₂, call.alloc.packs, call.alloc.nodes⟩ := hn
  have hq₂ := queueHeader_eq (s := ⟨pos, node₂, call.alloc.packs, call.alloc.nodes⟩)
    (fun _ => hs₂.header) hn₂
  rw [hpack, if_pos rfl] at hq₂
  obtain ⟨node', hloop, hsame, hq, hp'⟩ := loop_align (x := z ++ call.body.bytes)
    (s := ScanState.serve ⟨pos, node₂, call.alloc.packs, call.alloc.nodes⟩ [hdr])
    (hp₂.of_channel rfl) (hs₂.header.forBytes _ _) (hn₂.serve _) hend hlt hle
  have hsame₂ : SameSetup node₂ node' := ⟨hsame.id, hsame.started, hsame.metaData⟩
  have hbuf : (node.withBuffer b).channel.buffer = node₂.channel.buffer := by rw [← hnode₂]
  have hid : node₂.channel.id = node.channel.id := by rw [← hnode₂]; rfl
  have hlist : node₂.naluList = node.naluList := by rw [← hnode₂]; rfl
  refine ⟨node', ?_, hs₂.of_same hsame₂, hsame₂.id.trans hid, ?_, hp'⟩
  · rw [h264StreamProc, h264StreamScan, happ, Option.bind_some, channelScan, if_neg
      (by rw [hw₁.started]; decide), hmeta]
    simp only [hpos, if_false, hnode₂, hq₂]
    rw [hbuf]
    exact hloop
  · rw [hq]
    simp only [ScanState.serve, StreamNode.enqueue, hlist, hid, List.append_assoc, List.map_cons,
      List.map_nil, List.singleton_append, List.length_singleton]

/-! ## Late join -/

/-- If the call starts the channel, its sequence header can be packed. -/
def HeaderPacks (node : StreamNode) (call : Call) : Prop :=
  node.channel.started = false → ∀ pos md, startMeta node call = some (pos, md) → pos ≠ 0 →
    ∃ hdr, rtmpMetaPack true md.data md.size = some (some hdr)

/-- An orderly call whose sequence header, if it starts the channel, can be packed. -/
structure OrderlyStart (node : StreamNode) (call : Call) : Prop where
  orderly : Orderly node call
  header : HeaderPacks node call

/-- The bytes hold, at some position, a start code, an SPS, a start code, a PPS and
a start code with something behind it. -/
def HoldsSets (z : List UInt8) : Prop :=
  ∃ pre c sps c₁ pps c₂ post, z = pre ++ (c ++ (sps ++ (c₁ ++ (pps ++ (c₂ ++ post))))) ∧
    IsStartCode c ∧ IsStartCode c₁ ∧ IsStartCode c₂ ∧
    naluTypeOf sps = 0x07 ∧ naluTypeOf pps = 0x08 ∧ post ≠ []

/-- Separators at two places, the second past the first, give two cuts. -/
theorem two_cuts {w : List UInt8} {p q : Nat} (hp : startCode.At (w.drop p))
    (hq : startCode.At (w.drop q)) (hpq : p + 4 ≤ q) :
    ∃ t u t' u', startCode.cut w = some (t, u) ∧
      startCode.cut (startCode.behind u) = some (t', u') := by
  cases h₁ : startCode.cut w with
  | none => exact absurd hp (Delimiter.cut_none_iff.mp h₁ p)
  | some c =>
      obtain ⟨t, u⟩ := c
      obtain ⟨hw, hu⟩ := Delimiter.cut_some h₁
      have htp : t.length ≤ p := by
        by_contra hlt
        exact Delimiter.cut_first h₁ p (by omega) hp
      have hfour := findStartCode_le u
      have hd : (startCode.behind u).drop (q - (t.length + findStartCode u)) = w.drop q := by
        have ht : t.drop q = [] := List.drop_eq_nil_of_le (by omega)
        rw [Delimiter.behind, List.drop_drop, hw, List.drop_append, ht, List.nil_append,
          startCode_len]
        congr 1
        omega
      cases h₂ : startCode.cut (startCode.behind u) with
      | none => exact absurd (hd ▸ hq) (Delimiter.cut_none_iff.mp h₂ _)
      | some c' => exact ⟨t, u, c'.1, c'.2, rfl, h₂⟩

/-- Parameter sets anywhere behind a code at the front are two NALUs at least. -/
theorem twoNalus_of_holdsSets (h : HoldsSets z) : TwoNalus z := by
  obtain ⟨pre, c, sps, c₁, pps, c₂, post, hz, hc, hc₁, hc₂, hs, hp, hpost⟩ := h
  have hspos := List.length_pos_of_ne_nil (ne_nil_of_type hs (by decide))
  have hppos := List.length_pos_of_ne_nil (ne_nil_of_type hp (by decide))
  have hlc := hc.length_le
  have hlc₁ := hc₁.length_le
  have hle := findStartCode_le z
  have hd₁ : z.drop (pre.length + (c.length + sps.length)) =
      c₁ ++ (pps ++ (c₂ ++ post)) := by
    rw [hz, ← List.drop_drop, List.drop_left, ← List.drop_drop, List.drop_left, List.drop_left]
  have hd₂ : z.drop (pre.length + (c.length + sps.length) + (c₁.length + pps.length)) =
      c₂ ++ post := by
    rw [← List.drop_drop, hd₁, ← List.drop_drop, List.drop_left, List.drop_left]
  obtain ⟨t, u, t', u', h₁, h₂⟩ := two_cuts (w := z.drop (findStartCode z))
    (p := pre.length + (c.length + sps.length) - findStartCode z)
    (q := pre.length + (c.length + sps.length) + (c₁.length + pps.length) - findStartCode z)
    (by
      rw [List.drop_drop, Nat.add_sub_cancel' (by omega), hd₁]
      exact at_of_code hc₁ (by simp [hpost]))
    (by
      rw [List.drop_drop, Nat.add_sub_cancel' (by omega), hd₂]
      exact at_of_code hc₂ hpost)
    (by omega)
  exact ⟨t, u, t', u', h₁, h₂⟩

/-- A channel that has received the bytes `z`: it waits, and then has not seen two
NALUs behind a code at the front, or it has started on one. -/
def Joined (z : List UInt8) (node : StreamNode) : Prop :=
  Waiting node z ∧ (findStartCode z ≠ 0 → ¬ TwoNalus z) ∨
    (∃ hdr x, Started node hdr ∧ Pending node x) ∧ findStartCode z ≠ 0

/-- The step: an orderly call takes a channel from the one kind to itself or the other. -/
theorem Joined.feed (h : Joined z node) (ho : OrderlyStart node call) :
    ∃ node', VmpSa.feed node call = some node' ∧ Joined (z ++ call.body.bytes) node' := by
  have hg : node.channel.buffer.Grows call.body.bytes → call.alloc.realloc = true :=
    fun _ => ho.orderly.alloc.realloc
  rcases h with ⟨hw, -⟩ | ⟨⟨hdr, x, hs, hp⟩, hcode⟩
  · have hend := ho.orderly.clear.append hw.pending ho.orderly.fits hg
    have hlt := ho.orderly.fits.length hw.pending
    obtain ⟨pos, md, hmeta, hin, htwo⟩ := startMeta_cases call hw hg hend hlt
    by_cases hpos : pos = 0
    · rw [hpos] at hmeta htwo
      obtain ⟨node', hproc, hw', -, -⟩ := proc_not_starting call hw hg hlt hmeta
      refine ⟨node', by rw [VmpSa.feed, hproc, Option.map_some], Or.inl ⟨hw', fun hne h2 => ?_⟩⟩
      exact htwo ho.orderly.alloc.metaData hne h2 rfl
    · obtain ⟨hdr, hhdr⟩ := ho.header hw.started pos md hmeta hpos
      obtain ⟨hcode, hle, -⟩ := hin hpos
      obtain ⟨node', hproc, hs', -, -, hp'⟩ := proc_starting call hw hg ho.orderly.alloc.nodes hend
        hlt hmeta hpos hle hhdr (nextAnswer_of_granted ho.orderly.alloc.packs)
      exact ⟨node', by rw [VmpSa.feed, hproc, Option.map_some],
        Or.inr ⟨⟨hdr, _, hs', hp'⟩, hcode⟩⟩
  · obtain ⟨node', hfeed, hsame, -, hp'⟩ := feed_orderly hp hs ho.orderly
    exact ⟨node', hfeed, Or.inr ⟨⟨hdr, _, hs.of_same hsame, hp'⟩, by
      rwa [findStartCode_extend hcode]⟩⟩

/-- The run from a fresh channel. -/
theorem run_joined {calls : List Call} (ho : System.Along feed OrderlyStart .init calls) :
    ∃ node, System.run feed .init calls = some node ∧ Joined (bytesOf calls) node := by
  refine System.run_reaches (P := OrderlyStart)
    (fun hist node => Joined (bytesOf hist) node) ?_ ?_ ho
  · intro hist node call hj ho
    obtain ⟨node', hfeed, hj'⟩ := hj.feed ho
    exact ⟨node', hfeed, by rwa [bytesOf_append, bytesOf_singleton]⟩
  · exact Or.inl ⟨waiting_init, fun h => absurd rfl h⟩

/-- A fresh channel that has received parameter sets, by orderly calls, has
started exactly when the first bytes it ever received are a start code. -/
theorem late_join_starts_iff (calls : List Call)
    (ho : System.Along feed OrderlyStart .init calls) (hsets : HoldsSets (bytesOf calls)) :
    ∃ node, System.run feed .init calls = some node ∧
      (node.channel.started = true ↔ findStartCode (bytesOf calls) ≠ 0) := by
  obtain ⟨node, hrun, hj⟩ := run_joined ho
  refine ⟨node, hrun, ?_⟩
  rcases hj with ⟨hw, hno⟩ | ⟨⟨hdr, x, hs, -⟩, hcode⟩
  · refine ⟨fun h => ?_, fun hcode => absurd (twoNalus_of_holdsSets hsets) (hno hcode)⟩
    rw [hw.started] at h
    cases h
  · exact ⟨fun _ => hcode, fun _ => hs.started⟩

/-- Parameter sets and the first byte of an IDR slice. -/
def setsFirst : List UInt8 := [0, 0, 1, 0x67, 0x42, 0, 0, 1, 0x68, 0xce, 0, 0, 1, 0x65]

/-- A first body that begins with parameter sets. -/
def setsCall : Call where
  alloc := .grantAll
  body := { bytes := setsFirst, short := by decide }

/-- A first body that begins with the last two bytes of a slice. -/
def lateCall : Call where
  alloc := .grantAll
  body := { bytes := [0x9a, 0x26] ++ setsFirst, short := by decide }

theorem holdsSets_setsFirst (pre : List UInt8) : HoldsSets (pre ++ setsFirst) :=
  ⟨pre, [0, 0, 1], [0x67, 0x42], [0, 0, 1], [0x68, 0xce], [0, 0, 1], [0x65], rfl, Or.inl rfl,
    Or.inl rfl, Or.inl rfl, rfl, rfl, by simp⟩

/-- On a fresh channel a short first body is orderly. -/
theorem orderly_init (halloc : call.alloc.Succeeds) (hend : ¬ EndsWithCode call.body.bytes) :
    Orderly .init call := by
  obtain ⟨b, -, -, hseen⟩ := append_granted call pending_init (by decide)
    (fun _ => halloc.realloc)
  refine ⟨halloc, by rwa [Clear, hseen, List.nil_append], ?_⟩
  have hshort := call.body.short
  rw [Fits, pending_init.holds.used]
  simp only [List.length_nil]
  omega

theorem orderly_setsCall : Orderly .init setsCall := orderly_init grantAll_succeeds (by decide)

theorem headerPacks_setsCall : HeaderPacks .init setsCall := by
  intro _ pos md hmeta _
  have hsps : startCode.cut (([] ++ setsCall.body.bytes).drop
      (findStartCode ([] ++ setsCall.body.bytes))) =
      some ([0x67, 0x42], [0, 0, 1, 0x68, 0xce, 0, 0, 1, 0x65]) := by decide
  have hpps : startCode.cut (startCode.behind [0, 0, 1, 0x68, 0xce, 0, 0, 1, 0x65]) =
      some ([0x68, 0xce], [0, 0, 1, 0x65]) := by decide
  have hmeta' := startMeta_pair waiting_init grantAll_succeeds (by decide) (by decide)
    (by decide) hsps hpps (by decide) (by decide)
  rw [hmeta'] at hmeta
  cases hmeta
  exact ⟨_, rfl⟩

theorem late_join_setsCall : HoldsSets (bytesOf [setsCall]) ∧
    ∃ node, System.run feed .init [setsCall] = some node ∧ node.channel.started = true := by
  have hsets : HoldsSets (bytesOf [setsCall]) := holdsSets_setsFirst []
  obtain ⟨node, hrun, hiff⟩ := late_join_starts_iff [setsCall]
    (System.along_singleton.mpr ⟨orderly_setsCall, headerPacks_setsCall⟩) hsets
  exact ⟨hsets, node, hrun, hiff.mpr (by decide)⟩

/-- Two bytes of an unfinished slice in front, and the parameter sets behind them
do not start the channel. -/
theorem late_sets_do_not_start : HoldsSets (bytesOf [lateCall]) ∧ lateCall.alloc.Succeeds ∧
    ¬ EndsWithCode (bytesOf [lateCall]) ∧
    ∃ node, System.run feed .init [lateCall] = some node ∧ node.channel.started = false := by
  have horderly : Orderly .init lateCall := orderly_init grantAll_succeeds (by decide)
  have hcode : findStartCode ([] ++ lateCall.body.bytes) = 0 := by decide
  obtain ⟨pos, md, hmeta, hin, -⟩ := startMeta_cases lateCall waiting_init
    (fun _ => rfl) (by decide) (by decide)
  have hpos : pos = 0 := by
    by_contra hne
    exact (hin hne).1 hcode
  rw [hpos] at hmeta
  obtain ⟨node, hproc, hw, -, -⟩ := proc_not_starting lateCall waiting_init
    (fun _ => rfl) (by decide) hmeta
  have hfeed : feed .init lateCall = some node := by rw [feed, hproc, Option.map_some]
  exact ⟨holdsSets_setsFirst [0x9a, 0x26], grantAll_succeeds, by decide, node,
    by rw [System.run_cons hfeed, System.run_nil], hw.started⟩

end VmpSa
