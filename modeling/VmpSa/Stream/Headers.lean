import VmpSa.Rtmp.VideoTag
import VmpSa.Stream.Places
import VmpSa.Stream.Start

/-!
# The parameter sets of the sequence headers

A sequence header is queued when a channel starts and in front of every IDR
slice.  It should carry the parameter sets most recent at its place in the
bytes received.  The channel takes its metadata when it starts and never again;
later SPS and PPS NALUs are skipped.  So every header is built from the pair the
channel started on, and its place is behind that pair, whatever the allocator
does (`StartedOn.feed`).  The headers are current in every run that starts on a
pair of parameter sets and receives no others.

The place of a header is the one recorded in `Places`.  A header that is queued
again, because a packet behind it was refused, has a place of its own each time.
-/

namespace VmpSa

/-! ## Current headers -/

/-- The most recent NALU of a type. -/
def mostRecent (type : UInt8) (nalus : List (List UInt8)) : Option (List UInt8) :=
  (nalus.filter fun n => naluTypeOf n = type).getLast?

/-- The packet is the sequence header of the SPS and the PPS most recent among the
NALUs. -/
def BuiltFrom (nalus : List (List UInt8)) (pkt : RtmpPacket) : Prop :=
  ∃ sps pps, mostRecent 0x07 nalus = some sps ∧ mostRecent 0x08 nalus = some pps ∧
    rtmpMetaPack true (some (metaLayout sps pps)) (sps.length + pps.length + 8 : Nat) =
      some (some pkt)

/-- The NALUs that are complete in front of the place `o`.  The byte at `o` itself
fills the window for a code that ends there. -/
def nalusBefore (z : List UInt8) (o : Nat) : List (List UInt8) :=
  startCode.tokens (z.take (o + 1))

/-- Every sequence header in the queue is built from the parameter sets that precede
its place in the bytes received. -/
def HeadersCurrent (z : List UInt8) (queue : List NalNode) (places : List Nat) : Prop :=
  ∀ e o, (e, o) ∈ queue.zip places → e.IsHeader → BuiltFrom (nalusBefore z o) e.package

/-- No parameter set differs from another of its type. -/
def SetsNeverChange (z : List UInt8) : Prop :=
  ∀ n ∈ startCode.tokens z, ∀ n' ∈ startCode.tokens z,
    naluTypeOf n = naluTypeOf n' → naluTypeOf n = 0x07 ∨ naluTypeOf n = 0x08 → n = n'

instance (z : List UInt8) : Decidable (SetsNeverChange z) :=
  inferInstanceAs (Decidable (∀ _ ∈ _, ∀ _ ∈ _, _ → _ → _))

/-- Until the channel has started, the buffer grows when it has to, and
`h264_metadata_get` finds no start code at the front of the buffer, or gets no
metadata block, or finds a complete pair of parameter sets. -/
structure StartsOnPair (node : StreamNode) (call : Call) : Prop where
  realloc : node.channel.started = false → call.alloc.realloc = true
  pair : node.channel.started = false → ∀ node₁,
    channelAppend call.alloc node call.body.bytes = some node₁ →
    findStartCode (timaBufferData node₁.channel.buffer 0) = 0 ∨
      MetaRefused call.alloc.metaData call.alloc.junk (timaBufferData node₁.channel.buffer 0)
        (timaBufferUsed node₁.channel.buffer) ∨
      CompletePair (timaBufferData node₁.channel.buffer 0) (timaBufferUsed node₁.channel.buffer)

/-! ## Reading from the sets on -/

variable {node node' node₁ : StreamNode} {call : Call} {x y z data sps pps : List UInt8}
  {base length : Nat} {md : H264Meta} {r r₁ : PlaceRecord} {e : ScanEnd} {ret : Int}
  {C G : Nat → Prop}

/-- A reading of data that begins with parameter sets meets an IDR slice, or an end,
only behind them. -/
theorem ParameterSets.cursors (h : ParameterSets x sps pps base) (hin : InUse data x) :
    ∃ C : Nat → Prop, C 0 ∧ ReadsKeep data x.length C (base ≤ ·) ∧
      ∀ p, C p → (naluRead data x.length p).2 = none → base ≤ p := by
  obtain ⟨c, c₁, c₂, rest, hc, hc₁, hc₂, hx, hcut₁, hcut₂, hpos⟩ := h.layout
  simp only [List.length_append] at hpos
  have hne₂ : pps ++ (c₂ ++ rest) ≠ [] := fun hnil => by rw [hnil] at hcut₂; cases hcut₂
  have hne₁ : sps ++ (c₁ ++ (pps ++ (c₂ ++ rest))) ≠ [] := fun hnil => by
    rw [hnil] at hcut₁; cases hcut₁
  -- the three reads in front of the sets, between them and of the PPS
  have hread₀ : naluRead data x.length 0 = (c.length, some
      { naluLen := 0, naluType := naluTypeOf [], naluData := 0 }) := by
    have hat : startCode.cut (dataFrom data x.length 0) = some ([], x) := by
      rw [hin.dataFrom_eq, List.drop_zero, hx]
      exact Delimiter.cut_of_at (at_of_code hc hne₁)
    have hread := naluRead_inside hin.le hat (by rw [hx, behind_append_code hc]; exact hne₁)
    rwa [hx, findStartCode_append_code hc, ← hx, List.length_nil, Nat.zero_add] at hread
  have hread₁ : naluRead data x.length c.length = (sps.length + c₁.length, some
      { naluLen := sps.length, naluType := naluTypeOf sps, naluData := c.length }) := by
    have hat : startCode.cut (dataFrom data x.length c.length) =
        some (sps, c₁ ++ (pps ++ (c₂ ++ rest))) := by
      rw [hin.dataFrom_eq, hx, List.drop_left]
      exact hcut₁
    have hread := naluRead_inside hin.le hat (by rw [behind_append_code hc₁]; exact hne₂)
    rwa [findStartCode_append_code hc₁] at hread
  obtain ⟨len₂, n₂, hread₂, hlen₂⟩ : ∃ len₂ n₂, naluRead data x.length
      (c.length + (sps.length + c₁.length)) = (len₂, some
        { naluLen := n₂, naluType := naluTypeOf pps
          naluData := c.length + (sps.length + c₁.length) }) ∧
      pps.length + c₂.length ≤ len₂ := by
    have hat : startCode.cut (dataFrom data x.length (c.length + (sps.length + c₁.length))) =
        some (pps, c₂ ++ rest) := by
      rw [hin.dataFrom_eq, hx, ← List.drop_drop, List.drop_left, ← List.drop_drop,
        List.drop_left, List.drop_left]
      exact hcut₂
    have hread := naluRead_some hin.le hat
    rw [findStartCode_append_code hc₂] at hread
    refine ⟨_, _, hread, ?_⟩
    split <;> omega
  have htype : ∀ n : List UInt8, naluTypeOf n = 0x07 ∨ naluTypeOf n = 0x08 ∨ n = [] →
      naluTypeOf n ≠ 0x05 := by
    rintro n (h7 | h8 | rfl)
    · rw [h7]; decide
    · rw [h8]; decide
    · decide
  refine ⟨fun p => p = 0 ∨ p = c.length ∨ p = c.length + (sps.length + c₁.length) ∨ base ≤ p,
    Or.inl rfl, ?_, ?_⟩
  · rintro p len nalu (rfl | rfl | rfl | hp) hread
    · rw [hread₀] at hread
      cases hread
      exact ⟨Or.inr (Or.inl (Nat.zero_add _)), fun h5 => absurd h5 (htype [] (by simp))⟩
    · rw [hread₁] at hread
      cases hread
      exact ⟨Or.inr (Or.inr (Or.inl rfl)), fun h5 => absurd h5 (htype sps (Or.inl h.sps_type))⟩
    · rw [hread₂] at hread
      cases hread
      refine ⟨Or.inr (Or.inr (Or.inr ?_)),
        fun h5 => absurd h5 (htype pps (Or.inr (Or.inl h.pps_type)))⟩
      omega
    · exact ⟨Or.inr (Or.inr (Or.inr (by omega))), fun _ => hp⟩
  · rintro p (rfl | rfl | rfl | hp) hnone
    · rw [hread₀] at hnone
      cases hnone
    · rw [hread₁] at hnone
      cases hnone
    · rw [hread₂] at hnone
      cases hnone
    · exact hp

/-! ## Calls -/

/-- A call in its three parts. -/
theorem feed_parts (h : feed node call = some node') :
    ∃ b e ret, channelAppend call.alloc node call.body.bytes = some (node.withBuffer b) ∧
      channelScan call.alloc (node.withBuffer b) = some e ∧
      channelAlign e = some (ret, node') := by
  obtain ⟨⟨ret, node₂⟩, hproc, heq⟩ := Option.map_eq_some_iff.mp h
  cases heq
  obtain ⟨e, hscan, halign⟩ := Option.bind_eq_some_iff.mp hproc
  obtain ⟨node₁, happ, hscan⟩ := Option.bind_eq_some_iff.mp hscan
  obtain ⟨⟨r, b⟩, hb, heq⟩ := Option.map_eq_some_iff.mp happ
  cases heq
  exact ⟨b, e, ret, happ, hscan, halign⟩

/-- The record of a call, in terms of its parts. -/
theorem recordCall_eq (happ : channelAppend call.alloc node call.body.bytes = some node₁)
    (hscan : channelScan call.alloc node₁ = some e) (r : PlaceRecord) :
    ∃ kept, (timaBufferUsed node₁.channel.buffer ≠ timaBufferUsed node.channel.buffer ↔
        kept = true) ∧
      recordCall node r call =
        { (r.append call.body.bytes.length kept).align (some e) with
          places := r.places ++ (channelPlaces call.alloc node₁).map
            (r.append call.body.bytes.length kept).origin } := by
  refine ⟨_, decide_eq_true_iff.symm, ?_⟩
  simp only [recordCall, happ, hscan]

/-- The end of a call keeps what the scan has left, but for the buffer. -/
theorem channelAlign_placed {ch : StreamChannel} {queue : List NalNode} {l : List Nat}
    (he : e.Placed data length ch C G queue l) (h : channelAlign e = some (ret, node')) :
    node'.channel.started = ch.started ∧ node'.channel.metaData = ch.metaData ∧
      PlacedFrom ch.metaData G queue node'.naluList l := by
  obtain ⟨node, hnode, hch, hplaced⟩ := he.node
  cases e with
  | failed node₁ =>
      cases h
      cases hnode
      exact ⟨by rw [hch], by rw [hch], hplaced⟩
  | scanned node₁ pos =>
      cases hnode
      obtain ⟨b, -, heq⟩ := Option.map_eq_some_iff.mp h
      cases heq
      exact ⟨by rw [← hch], by rw [← hch], hplaced⟩

/-! ## The start -/

/-- Everything in the buffer comes from behind the sets, or the buffer still begins
with them. -/
def BehindSets (node : StreamNode) (r : PlaceRecord) (sps pps : List UInt8) (base : Nat) : Prop :=
  r.From 0 base ∨ ∃ x, Pending node x ∧ ParameterSets x sps pps base ∧ r.From base base

/-- The channel has started on the parameter sets at the front of the bytes received,
and every header in the queue is packed from them and has a place behind them. -/
structure StartedOn (z : List UInt8) (node : StreamNode) (r : PlaceRecord)
    (sps pps : List UInt8) (base : Nat) : Prop where
  started : node.channel.started = true
  sets : ParameterSets z sps pps base
  metaData : node.channel.metaData =
    { size := (sps.length + pps.length + 8 : Nat), data := some (metaLayout sps pps) }
  placed : PlacedFrom node.channel.metaData (base ≤ ·) [] node.naluList r.places
  buffer : BehindSets node r sps pps base

/-- What has become of the bytes received: they are all pending and nothing is
queued, or the channel has started on them. -/
def Captured (z : List UInt8) (node : StreamNode) (r : PlaceRecord) : Prop :=
  (node.channel.started = false ∧ node.naluList = [] ∧ Pending node z ∧
    r = { received := z.length, origins := List.range z.length, places := [] }) ∨
    ∃ sps pps base, StartedOn z node r sps pps base

/-- After a scan of data that begins with the sets: a failure leaves the data, and an
end is behind the sets. -/
theorem behindSets_of_end {ch : StreamChannel} {queue : List NalNode} {l places : List Nat}
    (he : e.Placed data length ch C G queue l) (hbuf : ch.buffer = node₁.channel.buffer)
    (hp : Pending node₁ x) (hsets : ParameterSets x sps pps base) (hfrom : r.From base base)
    (hend : ∀ p, C p → (naluRead data length p).2 = none → base ≤ p)
    (halign : channelAlign e = some (ret, node')) :
    BehindSets node' { r.align (some e) with places := places } sps pps base := by
  obtain ⟨node, hnode, hch, -⟩ := he.node
  cases e with
  | failed node₂ =>
      cases halign
      cases hnode
      have hbuffer : node'.channel.buffer = node₁.channel.buffer := by rw [hch, hbuf]
      exact Or.inr ⟨x, ⟨hbuffer ▸ hp.holds, hbuffer ▸ hp.total, hp.lt⟩, hsets, hfrom⟩
  | scanned node₂ pos =>
      obtain ⟨hC, hnone⟩ := he.scanned node₂ pos rfl
      exact Or.inl (hfrom.drop (hend pos hC hnone))

/-- A call on a started channel whose buffer is behind the sets. -/
theorem behindSets_of_from {places : List Nat} (hfrom : r.From 0 base) (e : ScanEnd) :
    BehindSets node { r.align (some e) with places := places } sps pps base := by
  cases e with
  | failed node => exact Or.inl hfrom
  | scanned node pos => exact Or.inl (hfrom.drop (Nat.zero_le pos))

/-- The step on a started channel. -/
theorem StartedOn.feed (h : StartedOn z node r sps pps base) (hfeed : feed node call = some node') :
    StartedOn (z ++ call.body.bytes) node' (recordCall node r call) sps pps base := by
  obtain ⟨b, e, ret, happ, hscan, halign⟩ := feed_parts hfeed
  obtain ⟨kept, -, hrecord⟩ := recordCall_eq happ hscan r
  have hs₁ : (node.withBuffer b).channel.started = true := h.started
  have hplaces := channelPlaces_started call.alloc hs₁
  have hloop := hscan
  rw [channelScan, if_pos hs₁] at hloop
  -- from where the reading may start, and where it may meet an IDR slice
  obtain ⟨C, G, hC, hkeep, hG, hbuffer⟩ : ∃ C G : Nat → Prop, C 0 ∧
      ReadsKeep (timaBufferData (node.withBuffer b).channel.buffer 0)
        (timaBufferUsed (node.withBuffer b).channel.buffer) C G ∧
      (∀ p, G p → base ≤ (r.append call.body.bytes.length kept).origin p) ∧
      ∀ l places, e.Placed (timaBufferData (node.withBuffer b).channel.buffer 0)
          (timaBufferUsed (node.withBuffer b).channel.buffer) (node.withBuffer b).channel C G
          node.naluList l →
        BehindSets node'
          { (r.append call.body.bytes.length kept).align (some e) with places := places }
          sps pps base := by
    rcases h.buffer with hfrom | ⟨x, hp, hsets, hfrom⟩
    · have hfrom₁ := hfrom.append call.body.bytes.length kept
      exact ⟨fun _ => True, fun _ => True, trivial, fun _ _ _ _ _ => ⟨trivial, fun _ => trivial⟩,
        fun p _ => hfrom₁ p (Nat.zero_le p), fun _ _ _ => behindSets_of_from hfrom₁ e⟩
    · have hfrom₁ := hfrom.append call.body.bytes.length kept
      obtain ⟨y, hp₁, -, hy, -⟩ := append_pending hp happ
      have hsets₁ : ParameterSets y sps pps base := by
        rcases hy with rfl | rfl
        · exact hsets
        · exact hsets.append _
      obtain ⟨C, hC, hkeep, hend⟩ := hsets₁.cursors hp₁.holds.inUse
      have hused : timaBufferUsed (node.withBuffer b).channel.buffer = y.length := hp₁.holds.used
      rw [hused]
      exact ⟨C, (base ≤ ·), hC, hkeep, fun p hp => hfrom₁ p hp, fun _ _ he =>
        behindSets_of_end he rfl hp₁ hsets₁ hfrom₁ hend halign⟩
  have he := naluLoopPlaces_spec
    (s := ⟨0, node.withBuffer b, call.alloc.packs, call.alloc.nodes⟩) hkeep hC .nil hloop
  obtain ⟨hst, hmd, hplaced⟩ := channelAlign_placed he halign
  rw [hrecord]
  refine ⟨hst.trans hs₁, h.sets.append _, hmd.trans h.metaData, ?_, hbuffer _ _ he⟩
  rw [hmd, hplaces]
  exact h.placed.append (hplaced.map _ hG)

/-- In a record of the first bytes received, a place is the position itself. -/
theorem PlaceRecord.from_range {n pos : Nat} {places : List Nat} (hle : pos ≤ n) :
    ({ received := n, origins := List.range n, places := places } : PlaceRecord).From pos pos := by
  intro p hp
  rw [PlaceRecord.origin]
  by_cases hlt : p < n
  · rwa [List.getD_eq_getElem _ _ (by rwa [List.length_range]), List.getElem_range]
  · rw [List.getD_eq_default _ _ (by rw [List.length_range]; omega)]
    exact hle

/-- However the scan goes on once the channel has started on the sets at the front,
the call leaves a channel started on them. -/
theorem captured_of_placed {md : H264Meta} {pos : Nat} {l : List Nat}
    (hp : Pending node x) (hset : ParameterSets x sps pps pos)
    (hmd : md = { size := (sps.length + pps.length + 8 : Nat), data := some (metaLayout sps pps) })
    (hfrom : r.From pos pos)
    (hplaced : e.Placed (timaBufferData node.channel.buffer 0) (timaBufferUsed node.channel.buffer)
      (node.start md).channel (pos ≤ ·) (pos ≤ ·) [] l)
    (halign : channelAlign e = some (ret, node')) :
    Captured x node' { r.align (some e) with places := l.map r.origin } := by
  obtain ⟨hst, hmd', hqueue⟩ := channelAlign_placed hplaced halign
  have hbuf : (node.start md).channel.buffer = node.channel.buffer := rfl
  refine Or.inr ⟨sps, pps, pos, hst, hset, hmd'.trans hmd, ?_,
    behindSets_of_end hplaced hbuf hp hset hfrom (fun p hle _ => hle) halign⟩
  rw [hmd']
  exact hqueue.map _ hfrom

/-- The scan of a channel that has not started: it stays so, or it starts on the
parameter sets at the front. -/
theorem channelScan_captured (hs : node.channel.started = false) (hq : node.naluList = [])
    (hp : Pending node x) {alloc : Alloc}
    (hsets : StartsOnSets alloc.metaData alloc.junk (timaBufferData node.channel.buffer 0)
      (timaBufferUsed node.channel.buffer) node.channel.metaData)
    (hr : r = { received := x.length, origins := List.range x.length, places := [] })
    (he : channelScan alloc node = some e) (halign : channelAlign e = some (ret, node')) :
    Captured x node' { r.align (some e) with
      places := (channelPlaces alloc node).map r.origin } := by
  obtain ⟨pos, md, hget, hpair⟩ := hsets
  have hplaces := channelPlaces_waiting hs hget
  rw [channelScan_waiting hs hget] at he
  split at he
  next hpos =>
    cases he
    cases halign
    rw [hplaces, if_pos hpos]
    exact Or.inl ⟨hs, hq, ⟨hp.holds, hp.total, hp.lt⟩, by rw [hr]; rfl⟩
  next hpos =>
    rw [if_neg hpos] at hplaces
    obtain ⟨sps, pps, hset, hdata, hsize⟩ := hpair hpos
    have hx : (timaBufferData node.channel.buffer 0).take (timaBufferUsed node.channel.buffer) =
        x := by
      rw [timaBufferUsed, hp.holds.used]
      exact hp.holds.content
    rw [hx] at hset
    have hmd : md =
        { size := (sps.length + pps.length + 8 : Nat), data := some (metaLayout sps pps) } := by
      cases md
      simp only at hdata hsize
      rw [hdata, hsize]
    have hfrom : r.From pos pos := hr ▸ PlaceRecord.from_range hset.pos_le
    split at he
    · cases he
    next hq₁ =>
      cases he
      rw [hplaces, hq₁]
      refine captured_of_placed (l := []) hp hset hmd hfrom
        ⟨⟨_, rfl, rfl, ?_⟩, fun _ _ h => by cases h⟩ halign
      rw [← hq]
      exact .nil
    next s₁ hs₁ =>
      obtain ⟨e₁, hlist, hpack⟩ := queueHeader_queues hs₁
      have hch₁ := queuePacket_channel hs₁
      have hpos₁ : s₁.pos = pos := queuePacket_pos hs₁
      rw [hplaces, hs₁]
      have hkeep : ReadsKeep (timaBufferData node.channel.buffer 0)
          (timaBufferUsed node.channel.buffer) (pos ≤ ·) (pos ≤ ·) :=
        fun p len _ hle _ => ⟨Nat.le_add_right_of_le hle, fun _ => hle⟩
      have hfirst : PlacedFrom s₁.node.channel.metaData (pos ≤ ·) [] s₁.node.naluList [pos] := by
        refine ⟨[e₁], by rw [hlist]; exact congrArg (· ++ [e₁]) hq, rfl, fun e' p hmem _ => ?_⟩
        cases List.mem_singleton.mp hmem
        rw [hch₁]
        exact ⟨Nat.le_refl pos, hpack⟩
      have hplaced := naluLoopPlaces_spec hkeep (Nat.le_of_eq hpos₁.symm) hfirst he
      rw [hch₁] at hplaced
      exact captured_of_placed hp hset hmd hfrom hplaced halign

theorem startsOnSets_of_cases {calloc : Bool} {junk : H264Meta} {buffer : List UInt8} {size : Nat}
    (hle : size ≤ buffer.length)
    (h : findStartCode buffer = 0 ∨ MetaRefused calloc junk buffer size ∨
      CompletePair buffer size) :
    StartsOnSets calloc junk buffer size md := by
  by_cases hcode : findStartCode buffer = 0
  · exact ⟨0, md, metadataGet_no_code hcode, fun h0 => absurd rfl h0⟩
  · by_cases hr : MetaRefused calloc junk buffer size
    · exact startsOnSets_of_refused hcode hr
    · exact startsOnSets_of_completePair hle hcode hr ((h.resolve_left hcode).resolve_left hr)

/-- An append that gets the room it asks for, if it has a result, leaves all bytes
received in the buffer. -/
theorem dataSeen_of_realloc (hp : Pending node z) (hr : call.alloc.realloc = true)
    (happ : channelAppend call.alloc node call.body.bytes = some node') :
    dataSeen node call = z ++ call.body.bytes := by
  rcases Nat.lt_or_ge z.length (2 ^ 31) with hlt | hge
  · obtain ⟨-, -, -, hseen⟩ := append_granted call hp hlt (fun _ => hr)
    exact hseen
  · have hused := hp.holds.used
    have hlt := hp.lt
    by_cases hnil : call.body.bytes = []
    · rw [dataSeen, hnil, TimaBuffer.strdup_nil, List.append_nil]
      simp only
      rw [hused, hp.holds.content]
    · have hnone := TimaBuffer.strdup_overflow (b := node.channel.buffer) hnil (by omega) (by omega)
      rw [channelAppend, hr, hnone] at happ
      cases happ

/-- The step. -/
theorem Captured.feed (h : Captured z node r) (hk : StartsOnPair node call)
    (hfeed : feed node call = some node') :
    Captured (z ++ call.body.bytes) node' (recordCall node r call) := by
  rcases h with ⟨hs, hq, hp, hr⟩ | ⟨sps, pps, base, h⟩
  · obtain ⟨b, e, ret, happ, hscan, halign⟩ := feed_parts hfeed
    obtain ⟨kept, hkept, hrecord⟩ := recordCall_eq happ hscan r
    obtain ⟨y, hp₁, hseen, -⟩ := append_pending hp happ
    have hsets := hk.pair hs _ happ
    have hy : y = z ++ call.body.bytes := by
      rw [← hseen, dataSeen_of_realloc hp (hk.realloc hs) happ]
    have hs₁ : (node.withBuffer b).channel.started = false := hs
    have hq₁ : (node.withBuffer b).naluList = [] := hq
    generalize node.withBuffer b = node₁ at happ hscan hp₁ hsets hs₁ hq₁ hkept hrecord
    subst hy
    have hle : timaBufferUsed node₁.channel.buffer ≤
        (timaBufferData node₁.channel.buffer 0).length := by
      rw [timaBufferUsed, hp₁.holds.used]
      exact Nat.le_of_lt hp₁.holds.room
    -- every byte received is in the buffer, at its own place
    have hr₁ : r.append call.body.bytes.length kept =
        { received := (z ++ call.body.bytes).length
          origins := List.range (z ++ call.body.bytes).length, places := [] } := by
      rw [timaBufferUsed, timaBufferUsed, hp₁.holds.used, hp.holds.used,
        List.length_append] at hkept
      rw [hr, PlaceRecord.append, List.length_append]
      cases kept with
      | true =>
          simp only [if_true, List.range_eq_range', Nat.zero_add, ← List.range'_append_1]
      | false =>
          have hnil : call.body.bytes.length = 0 := by
            by_contra hne
            exact absurd (hkept.mp (by omega)) (by decide)
          simp [hnil]
    have hcaptured := channelScan_captured hs₁ hq₁ hp₁ (startsOnSets_of_cases hle hsets) hr₁
      hscan halign
    rw [hrecord, show r.places = [] by rw [hr], List.nil_append]
    exact hcaptured
  · exact Or.inr ⟨sps, pps, base, h.feed hfeed⟩

/-- The run, with the record. -/
theorem run_captured {calls : List Call} (hk : System.Along feed StartsOnPair .init calls)
    (hr : System.run feedRecorded (.init, .init) calls = some (node, r)) :
    Captured (bytesOf calls) node r := by
  refine System.run_keeps (P := fun t call => StartsOnPair t.1 call)
    (fun hist t => Captured (bytesOf hist) t.1 t.2) ?_ ?_ (System.along_recorded _ hk) hr
  · intro hist t call t' hc hk hstep
    obtain ⟨hfeed, hrecord⟩ := System.step_of_recorded hstep
    rw [bytesOf_append, bytesOf_singleton, hrecord]
    exact hc.feed hk hfeed
  · exact Or.inl ⟨rfl, rfl, pending_init, rfl⟩

/-! ## Runs without another parameter set -/

theorem mostRecent_of_constant {type : UInt8} {nalus all : List (List UInt8)} {n : List UInt8}
    (hsub : ∀ n' ∈ nalus, n' ∈ all) (hn : n ∈ nalus) (htype : naluTypeOf n = type)
    (hall : ∀ n' ∈ all, naluTypeOf n' = type → n' = n) : mostRecent type nalus = some n := by
  have hmem : n ∈ nalus.filter fun n => naluTypeOf n = type := by
    simpa [htype] using hn
  cases hlast : mostRecent type nalus with
  | none =>
      rw [mostRecent, List.getLast?_eq_none_iff] at hlast
      rw [hlast] at hmem
      cases hmem
  | some n' =>
      have hn' := List.mem_of_getLast? hlast
      obtain ⟨hin, ht⟩ := List.mem_filter.mp hn'
      rw [hall n' (hsub n' hin) (by simpa using ht)]

/-- A header behind the first pair is built from the most recent sets at its place
when there are no others. -/
theorem StartedOn.current (h : StartedOn z node r sps pps base) (hc : SetsNeverChange z) :
    HeadersCurrent z node.naluList r.places := by
  intro e o hmem hheader
  obtain ⟨new, hqueue, -, hplaced⟩ := h.placed
  rw [List.nil_append] at hqueue
  obtain ⟨hbase, hpack⟩ := hplaced e o (hqueue ▸ hmem) hheader
  have hsub : ∀ n ∈ nalusBefore z o, n ∈ startCode.tokens z := by
    intro n hn
    have hall := Delimiter.tokens_append (d := startCode) (z.take (o + 1)) (z.drop (o + 1))
    rw [List.take_append_drop] at hall
    rw [hall]
    exact List.mem_append_left _ hn
  have hfirst : nalusBefore z o = _ := (h.sets.take (Nat.lt_succ_of_le hbase)).split.1
  have hsps : sps ∈ nalusBefore z o := by rw [hfirst]; simp
  have hpps : pps ∈ nalusBefore z o := by rw [hfirst]; simp
  have hs := h.sets.sps_type
  have hp := h.sets.pps_type
  refine ⟨sps, pps, ?_, ?_, ?_⟩
  · exact mostRecent_of_constant hsub hsps hs fun n hn ht =>
      hc n hn sps (hsub sps hsps) (ht.trans hs.symm) (Or.inl ht)
  · exact mostRecent_of_constant hsub hpps hp fun n hn ht =>
      hc n hn pps (hsub pps hpps) (ht.trans hp.symm) (Or.inr ht)
  · rw [NalNode.PackedFrom, h.metaData] at hpack
    exact hpack

/-- In every run that starts on a pair of parameter sets and receives no other SPS
or PPS, every packet queued has a place, and every sequence header is current
there, whatever the allocator does once the channel has started. -/
theorem headers_current_of_constant_sets {calls : List Call} {node : StreamNode}
    (hk : System.Along feed StartsOnPair .init calls) (hc : SetsNeverChange (bytesOf calls))
    (hr : System.run feed .init calls = some node) :
    ∃ r, System.run feedRecorded (.init, .init) calls = some (node, r) ∧
      r.places.length = node.naluList.length ∧
      HeadersCurrent (bytesOf calls) node.naluList r.places := by
  obtain ⟨r, hrun⟩ := System.run_recorded recordCall hr .init
  refine ⟨r, hrun, ?_⟩
  rcases run_captured hk hrun with ⟨-, hq, -, hr⟩ | ⟨sps, pps, base, h⟩
  · rw [hq, hr]
    exact ⟨rfl, nofun⟩
  · obtain ⟨new, hqueue, hlen, -⟩ := h.placed
    exact ⟨by rw [hqueue, List.nil_append, hlen], h.current hc⟩

/-! ## Two short streams -/

/-- A first body, with every allocation granted. -/
def firstCall (bytes : List UInt8) (short : bytes.length < 2 ^ 16) : Call where
  alloc := .grantAll
  body := { bytes := bytes, short := short }

section First

variable {bytes sps u pps v : List UInt8}

/-- A first body that begins with parameter sets meets the condition. -/
theorem startsOnPair_first (short : bytes.length < 2 ^ 16) (h4 : 4 ≤ bytes.length)
    (h₁ : startCode.cut (bytes.drop (findStartCode bytes)) = some (sps, u))
    (h₂ : startCode.cut (startCode.behind u) = some (pps, v)) (hv : startCode.behind v ≠ [])
    (hs : naluTypeOf sps = 0x07) (hp : naluTypeOf pps = 0x08)
    (hsize : sps.length + pps.length + 8 < 2 ^ 31) :
    StartsOnPair .init (firstCall bytes short) := by
  refine ⟨fun _ => rfl, fun _ node₁ happ => Or.inr (Or.inr ?_)⟩
  obtain ⟨b, happ', hp₁, -⟩ := append_granted (firstCall bytes short) pending_init (by decide)
    (fun _ => rfl)
  rw [happ] at happ'
  cases happ'
  have hin := hp₁.holds.inUse
  have hcode : findStartCode (timaBufferData (StreamNode.init.withBuffer b).channel.buffer 0) =
      findStartCode bytes := by
    rw [← findStartCode_take hin.le h4, hin.take_eq]
    rfl
  refine ⟨sps, u, pps, v, ?_, h₂, hv, hs, hp, hsize⟩
  rw [timaBufferUsed, hp₁.holds.used, hin.dataFrom_eq, hcode]
  exact h₁

/-- Such a body starts the channel and is repackaged behind the initial header. -/
theorem feed_first (short : bytes.length < 2 ^ 16) (hend : ¬ EndsWithCode bytes)
    (hcode : findStartCode bytes ≠ 0)
    (h₁ : startCode.cut (bytes.drop (findStartCode bytes)) = some (sps, u))
    (h₂ : startCode.cut (startCode.behind u) = some (pps, v))
    (hs : naluTypeOf sps = 0x07) (hp : naluTypeOf pps = 0x08) (h4 : 4 ≤ sps.length)
    (hs16 : sps.length < 2 ^ 16) (hp16 : pps.length < 2 ^ 16)
    (hlen : Packager.metaSpsLen (metaLayout sps pps) = sps.length) :
    ∃ node, feed .init (firstCall bytes short) = some node ∧
      node.naluList = (metaPacket sps pps :: packets (metaPacket sps pps)
        (bytes.drop (findStartCode bytes +
          (sps.length + (findStartCode u + (pps.length + findStartCode v)))))).map (nalNode 0) ∧
      Started node (metaPacket sps pps) ∧
      Pending node (startCode.residue (bytes.drop (findStartCode bytes +
        (sps.length + (findStartCode u + (pps.length + findStartCode v)))))) := by
  have hlt : ([] ++ (firstCall bytes short).body.bytes).length + 67 < 2 ^ 31 := by
    change bytes.length + 67 < 2 ^ 31
    omega
  have hend' : ¬ EndsWithCode ([] ++ (firstCall bytes short).body.bytes) := hend
  have hmeta : startMeta .init (firstCall bytes short) = some
      (findStartCode bytes + (sps.length + (findStartCode u + (pps.length + findStartCode v))),
        { size := (sps.length + pps.length + 8 : Nat), data := some (metaLayout sps pps) }) :=
    startMeta_pair waiting_init grantAll_succeeds hend' hlt hcode h₁ h₂ hs hp
  have hle : findStartCode bytes + (sps.length + (findStartCode u + (pps.length + findStartCode v)))
      ≤ bytes.length := by
    have hlen₁ := congrArg List.length (Delimiter.cut_some h₁).1
    have hlen₂ := congrArg List.length (Delimiter.cut_some h₂).1
    have hv4 : 4 ≤ v.length := (Delimiter.cut_some h₂).2.1
    have hfour := findStartCode_le v
    rw [List.length_drop, List.length_append] at hlen₁
    rw [Delimiter.behind, List.length_drop, List.length_append, startCode_len] at hlen₂
    omega
  have hall : ∀ y, ServesAll ((firstCall bytes short).alloc.packs.drop 1) (metaPacket sps pps) y :=
    servesAll_of_granted nofun
  obtain ⟨node, hproc, hs', -, hq, hp'⟩ := proc_starting (firstCall bytes short) waiting_init
    (fun _ => rfl) nofun hend hlt hmeta (fun h0 => hcode (by omega)) hle
    (rtmpMetaPack_metaPacket h4 hs16 hp16 hlen) rfl
  rw [servedPackets_of_all (hall _)] at hq
  rw [if_pos (hall _)] at hp'
  exact ⟨node, by rw [feed, hproc, Option.map_some], hq, hs', hp'⟩

/-- The places a first body adds, mapped back: the body is all that was received. -/
theorem places_init {call : Call} {b : TimaBuffer} (hw : Waiting node [])
    (happ : channelAppend call.alloc node call.body.bytes = some (node.withBuffer b))
    (hused : b.bufferUsed = call.body.bytes.length) (hne : call.body.bytes ≠ []) :
    (recordCall node .init call).places =
      (channelPlaces call.alloc (node.withBuffer b)).map fun p =>
        (List.range call.body.bytes.length).getD p call.body.bytes.length := by
  have hkept : timaBufferUsed (node.withBuffer b).channel.buffer ≠
      timaBufferUsed node.channel.buffer := by
    have hzero : node.channel.buffer.bufferUsed = 0 := hw.pending.holds.used
    change b.bufferUsed ≠ node.channel.buffer.bufferUsed
    rw [hused, hzero]
    exact fun h0 => hne (List.eq_nil_of_length_eq_zero (by simpa using h0))
  have horigin : (PlaceRecord.init.append call.body.bytes.length true).origin = fun p =>
      (List.range call.body.bytes.length).getD p call.body.bytes.length := by
    funext p
    simp only [PlaceRecord.origin, PlaceRecord.append, PlaceRecord.init, if_true, List.nil_append,
      Nat.zero_add, List.range_eq_range']
  have hrecord : (recordCall node .init call).places =
      (channelPlaces call.alloc (node.withBuffer b)).map
        (PlaceRecord.init.append call.body.bytes.length
          (decide (timaBufferUsed (node.withBuffer b).channel.buffer ≠
            timaBufferUsed node.channel.buffer))).origin := by
    simp only [recordCall, happ, PlaceRecord.init, List.nil_append]
  rw [hrecord, decide_eq_true hkept, horigin]

/-- The places of the packets that a first body on a fresh channel asks for: that of
the initial header behind the sets, and those the loop finds from there on. -/
theorem places_first (call : Call) (hw : Waiting node []) (ha : call.alloc.Succeeds)
    (hbytes : call.body.bytes = bytes) (hend : ¬ EndsWithCode bytes)
    (hcode : findStartCode bytes ≠ 0)
    (h₁ : startCode.cut (bytes.drop (findStartCode bytes)) = some (sps, u))
    (h₂ : startCode.cut (startCode.behind u) = some (pps, v))
    (hs : naluTypeOf sps = 0x07) (hp : naluTypeOf pps = 0x08) (h4 : 4 ≤ sps.length)
    (hs16 : sps.length < 2 ^ 16) (hp16 : pps.length < 2 ^ 16)
    (hlen : Packager.metaSpsLen (metaLayout sps pps) = sps.length) :
    ∃ data s, InUse data bytes ∧
      s.Ready (metaPacket sps pps) (findStartCode bytes +
        (sps.length + (findStartCode u + (pps.length + findStartCode v)))) ∧
      (recordCall node .init call).places =
        (naluLoopPlaces data bytes.length s [s.pos]).2.map fun p =>
          (List.range bytes.length).getD p bytes.length := by
  subst hbytes
  have hlt : ([] ++ call.body.bytes).length + 67 < 2 ^ 31 := by
    have hshort := call.body.short
    rw [List.nil_append]
    omega
  have hmeta := startMeta_pair hw ha hend hlt hcode h₁ h₂ hs hp
  obtain ⟨b, happ, hw₁⟩ := append_waiting hw (by decide) (fun _ => ha.realloc)
  rw [startMeta, happ, Option.bind_some] at hmeta
  rw [List.nil_append] at hmeta hw₁
  have hplaces := channelPlaces_waiting hw₁.started hmeta
  generalize hpos : findStartCode call.body.bytes +
    (sps.length + (findStartCode u + (pps.length + findStartCode v))) = pos at hplaces
  generalize hmd : ({ size := (sps.length + pps.length + 8 : Nat)
                      data := some (metaLayout sps pps) } : H264Meta) = md at hplaces
  have hheader : HeaderIs ((node.withBuffer b).start md).channel (metaPacket sps pps) := by
    rw [← hmd]
    exact rtmpMetaPack_metaPacket h4 hs16 hp16 hlen
  have hused : timaBufferUsed (node.withBuffer b).channel.buffer = call.body.bytes.length :=
    hw₁.pending.holds.used
  have hnext : nextAnswer call.alloc.packs = true := nextAnswer_of_granted ha.packs
  have hn : NodesGranted ⟨pos, (node.withBuffer b).start md, call.alloc.packs, call.alloc.nodes⟩ :=
    ha.nodes
  have hpos₀ : ¬ pos = 0 := by
    rw [← hpos]
    exact fun h0 => hcode (Nat.eq_zero_of_add_eq_zero_right h0)
  have hqueue := queueHeader_eq
    (s := ⟨pos, (node.withBuffer b).start md, call.alloc.packs, call.alloc.nodes⟩)
    (fun _ => hheader) hn
  rw [if_pos hnext] at hqueue
  rw [if_neg hpos₀, hqueue, hused] at hplaces
  refine ⟨timaBufferData (node.withBuffer b).channel.buffer 0, _, hw₁.pending.holds.inUse,
    ⟨fun b hb => ha.packs b (List.mem_of_mem_drop hb), hn.serve [metaPacket sps pps], hheader,
      rfl⟩, ?_⟩
  have hne : call.body.bytes ≠ [] := by
    intro h0
    rw [h0] at hcode
    exact hcode rfl
  rw [places_init hw happ hw₁.pending.holds.used hne, hplaces]
  rfl

end First

/-- An SPS, a PPS and an IDR slice. -/
def constantSets : List UInt8 :=
  [0, 0, 1, 0x67, 0x42, 0xc0, 0x1e, 0, 0, 1, 0x68, 0xce, 0, 0, 1, 0x65, 0x88, 0, 0, 1, 0x41]

/-- The same with another SPS in front of the IDR slice. -/
def changedSets : List UInt8 :=
  [0, 0, 1, 0x67, 0x42, 0xc0, 0x1e, 0, 0, 1, 0x68, 0xce, 0, 0, 1, 0x67, 0x4d, 0x40, 0x1f,
    0, 0, 1, 0x65, 0x88, 0, 0, 1, 0x41]

theorem constantSets_sps : startCode.cut (constantSets.drop (findStartCode constantSets)) =
    some ([0x67, 0x42, 0xc0, 0x1e],
      [0, 0, 1, 0x68, 0xce, 0, 0, 1, 0x65, 0x88, 0, 0, 1, 0x41]) := by
  decide

theorem constantSets_pps : startCode.cut (startCode.behind
    [0, 0, 1, 0x68, 0xce, 0, 0, 1, 0x65, 0x88, 0, 0, 1, 0x41]) =
    some ([0x68, 0xce], [0, 0, 1, 0x65, 0x88, 0, 0, 1, 0x41]) := by
  decide

theorem changedSets_sps : startCode.cut (changedSets.drop (findStartCode changedSets)) =
    some ([0x67, 0x42, 0xc0, 0x1e], [0, 0, 1, 0x68, 0xce, 0, 0, 1, 0x67, 0x4d, 0x40, 0x1f,
      0, 0, 1, 0x65, 0x88, 0, 0, 1, 0x41]) := by
  decide

theorem changedSets_pps : startCode.cut (startCode.behind [0, 0, 1, 0x68, 0xce,
    0, 0, 1, 0x67, 0x4d, 0x40, 0x1f, 0, 0, 1, 0x65, 0x88, 0, 0, 1, 0x41]) =
    some ([0x68, 0xce], [0, 0, 1, 0x67, 0x4d, 0x40, 0x1f, 0, 0, 1, 0x65, 0x88, 0, 0, 1, 0x41]) := by
  decide

/-- The first stream starts the channel and queues its header, the header again and
the IDR slice. -/
theorem feed_constantSets :
    ∃ node, feed .init (firstCall constantSets (by decide)) = some node ∧
      node.naluList.length = 3 ∧
      Started node (metaPacket [0x67, 0x42, 0xc0, 0x1e] [0x68, 0xce]) ∧ Pending node [0x41] := by
  obtain ⟨node, hfeed, hq, hs, hp⟩ := feed_first (by decide) (by decide) (by decide)
    constantSets_sps constantSets_pps (by decide) (by decide) (by decide) (by decide) (by decide)
    (by decide)
  refine ⟨node, hfeed, ?_, hs, hp⟩
  rw [hq]
  decide

/-- The stream with one pair of sets: its two headers are current. -/
theorem headers_current_constantSets :
    ∃ node r, System.run feedRecorded (.init, .init) [firstCall constantSets (by decide)] =
        some (node, r) ∧
      node.naluList.length = 3 ∧ r.places.length = 3 ∧
      HeadersCurrent (bytesOf [firstCall constantSets (by decide)]) node.naluList r.places := by
  obtain ⟨node, hfeed, hlen, -, -⟩ := feed_constantSets
  have hrun : System.run feed .init [firstCall constantSets (by decide)] = some node := by
    rw [System.run_cons hfeed, System.run_nil]
  obtain ⟨r, hrec, hplaces, hcur⟩ := headers_current_of_constant_sets
    (System.along_singleton.mpr (startsOnPair_first (by decide) (by decide) constantSets_sps
      constantSets_pps (by decide) (by decide) (by decide) (by decide))) (by decide) hrun
  exact ⟨node, r, hrec, hlen, hplaces.trans hlen, hcur⟩

/-- The places of the second stream: the initial header at 15, behind the sets, and the
header and the data packet of the IDR slice at its front, at 22. -/
theorem places_changedSets :
    (recordCall .init .init (firstCall changedSets (by decide))).places = [15, 22, 22] := by
  obtain ⟨data, s, hin, hs, hplaces⟩ := places_first (firstCall changedSets (by decide))
    waiting_init grantAll_succeeds rfl (by decide) (by decide) changedSets_sps changedSets_pps
    (by decide) (by decide) (by decide) (by decide) (by decide) (by decide)
  have hc₁ : startCode.cut (changedSets.drop 15) =
      some ([0x67, 0x4d, 0x40, 0x1f], [0, 0, 1, 0x65, 0x88, 0, 0, 1, 0x41]) := by decide
  have hc₂ : startCode.cut (changedSets.drop 22) = some ([0x65, 0x88], [0, 0, 1, 0x41]) := by decide
  have hc₃ : startCode.cut (changedSets.drop 27) = none := by decide
  have hend : ¬ EndsWithCode changedSets := by decide
  obtain ⟨s₁, hs₁, hloop₁⟩ := naluLoopPlaces_cut hin hend (by decide) hs (by decide) hc₁ [15]
  obtain ⟨s₂, hs₂, hloop₂⟩ := naluLoopPlaces_cut hin hend (by decide) hs₁ (by decide) hc₂ [15]
  have hpos : s.pos = 15 := hs.pos
  rw [hplaces, hpos, hloop₁]
  rw [show [15] ++ List.replicate _ _ = [15] from rfl, hloop₂, naluLoopPlaces_end hin hs₂.pos hc₃]
  rfl

/-- The encoder changes the SPS, and the IDR slice behind the change gets the header
of the old one. -/
theorem changed_sps_not_in_header :
    ∃ node r, System.run feedRecorded (.init, .init) [firstCall changedSets (by decide)] =
        some (node, r) ∧
      ¬ HeadersCurrent (bytesOf [firstCall changedSets (by decide)]) node.naluList r.places := by
  obtain ⟨node, hfeed, hq, -, -⟩ := feed_first (by decide) (by decide) (by decide) changedSets_sps
    changedSets_pps (by decide) (by decide) (by decide) (by decide) (by decide) (by decide)
  have hrun : System.run feedRecorded (.init, .init) [firstCall changedSets (by decide)] =
      some (node, recordCall .init .init (firstCall changedSets (by decide))) := by
    rw [feedRecorded, System.run_cons (System.recorded_some hfeed _), System.run_nil]
  refine ⟨node, _, hrun, fun hcur => ?_⟩
  rw [places_changedSets] at hcur
  have hqueue : node.naluList =
      [nalNode 0 (metaPacket [0x67, 0x42, 0xc0, 0x1e] [0x68, 0xce]),
        nalNode 0 (metaPacket [0x67, 0x42, 0xc0, 0x1e] [0x68, 0xce]),
        nalNode 0 (dataPacket [0x65, 0x88])] := by
    rw [hq]
    decide
  rw [hqueue] at hcur
  obtain ⟨sps, pps, hsps, hpps, hpack⟩ := hcur
    (nalNode 0 (metaPacket [0x67, 0x42, 0xc0, 0x1e] [0x68, 0xce])) 22 (by simp) rfl
  have hsps' : sps = [0x67, 0x4d, 0x40, 0x1f] :=
    (Option.some.inj (hsps.symm.trans (by decide)))
  have hpps' : pps = [0x68, 0xce] := (Option.some.inj (hpps.symm.trans (by decide)))
  rw [hsps', hpps', rtmpMetaPack_metaPacket (by decide) (by decide) (by decide) (by decide)]
    at hpack
  exact absurd (congrArg RtmpPacket.area (Option.some.inj (Option.some.inj hpack))) (by decide)

end VmpSa
