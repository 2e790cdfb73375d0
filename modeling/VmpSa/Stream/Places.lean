import VmpSa.Stream.Step

/-!
# Where packets are queued

A record kept beside the runs of `h264_stream_proc`.  It has, for each byte in the
buffer, the place of that byte in the bytes received and, for each packet in the
queue, the place at which the cursor stood when the packet was queued.  That is
the front of the NALU the packet belongs to.  The sequence header a channel
starts with belongs to the place behind the parameter sets.

The record only watches: every run has one (`System.run_recorded`), and the loop
under it is the loop of the code (`naluLoopPlaces_fst`).  What the loop may queue
at a cursor is said once for a pass (`naluPass_adds`) and carried to the whole
scan for any property of cursors that the reads keep (`naluLoopPlaces_spec`).
-/

namespace VmpSa

/-! ## The record -/

/-- The node that a pass goes on or ends with. -/
def nodeAfter : Loop.Pass ScanState (Option ScanEnd) → Option StreamNode
  | .again s => some s.node
  | .leave none => none
  | .leave (some (.failed node)) => some node
  | .leave (some (.scanned node _)) => some node

/-- The cursor, once for each packet that the pass queues. -/
def passPlaces (s : ScanState) (pass : Loop.Pass ScanState (Option ScanEnd)) : List Nat :=
  match nodeAfter pass with
  | none => []
  | some node => List.replicate (node.naluList.length - s.node.naluList.length) s.pos

/-- The loop of `h264_stream_proc` and the cursors of the packets it queues, behind
those of `l`. -/
def naluLoopPlaces (data : List UInt8) (length : Nat) (s : ScanState) (l : List Nat) :
    Option ScanEnd × List Nat :=
  Loop.execRecorded (naluPass data length) (fun s => length - s.pos)
    (naluPass_decreases data length) passPlaces s l

/-- The cursors of the packets that `channelScan` queues. -/
def channelPlaces (alloc : Alloc) (node : StreamNode) : List Nat :=
  let data := timaBufferData node.channel.buffer 0
  let length := timaBufferUsed node.channel.buffer
  if node.channel.started then
    (naluLoopPlaces data length
      { pos := 0, node := node, packs := alloc.packs, nodes := alloc.nodes } []).2
  else
    match h264MetadataGet alloc.metaData alloc.junk data length 0 node.channel.metaData with
    | none => []
    | some (pos, md) =>
        if pos = 0 then []
        else
          let node := { node with channel := { node.channel with metaData := md, started := true } }
          match queueHeader
              { pos := pos, node := node, packs := alloc.packs, nodes := alloc.nodes } with
          | none => []
          | some none => []
          | some (some s) => (naluLoopPlaces data length s [pos]).2

/-- The places of a run so far. -/
structure PlaceRecord where
  /-- How many bytes have been received. -/
  received : Nat
  /-- The places of the bytes in the buffer. -/
  origins : List Nat
  /-- The places of the packets queued, oldest first. -/
  places : List Nat
deriving Repr, DecidableEq

/-- Nothing is received yet. -/
def PlaceRecord.init : PlaceRecord := { received := 0, origins := [], places := [] }

/-- Where a position of the buffer stands in the bytes received.  A position past
the bytes in use stands behind them all. -/
def PlaceRecord.origin (r : PlaceRecord) (p : Nat) : Nat := r.origins.getD p r.received

/-- `n` more bytes, which are in the buffer or lost. -/
def PlaceRecord.append (r : PlaceRecord) (n : Nat) (kept : Bool) : PlaceRecord :=
  { r with
    received := r.received + n
    origins := if kept then r.origins ++ List.range' r.received n else r.origins }

/-- The buffer is aligned if the scan has got to its end. -/
def PlaceRecord.align (r : PlaceRecord) : Option ScanEnd → PlaceRecord
  | some (.scanned _ pos) => { r with origins := r.origins.drop pos }
  | _ => r

/-- What a call adds to the record. -/
def recordCall (node : StreamNode) (r : PlaceRecord) (call : Call) : PlaceRecord :=
  match channelAppend call.alloc node call.body.bytes with
  | none => r
  | some node₁ =>
      let r₁ := r.append call.body.bytes.length
        (timaBufferUsed node₁.channel.buffer ≠ timaBufferUsed node.channel.buffer)
      { r₁.align (channelScan call.alloc node₁) with
        places := r.places ++ (channelPlaces call.alloc node₁).map r₁.origin }

/-- The step of a node fed with a body, with the record. -/
def feedRecorded : StreamNode × PlaceRecord → Call → Option (StreamNode × PlaceRecord) :=
  System.recorded feed recordCall

variable {node node' : StreamNode} {call : Call} {data : List UInt8} {length : Nat}
  {s s' : ScanState} {l l' : List Nat} {md : H264Meta} {queue queue' queue₀ : List NalNode}

theorem naluLoopPlaces_fst (data : List UInt8) (length : Nat) (s : ScanState) (l : List Nat) :
    (naluLoopPlaces data length s l).1 = naluLoop data length s :=
  Loop.execRecorded_fst (naluPass_decreases data length) passPlaces s l

theorem channelPlaces_started (alloc : Alloc) (hs : node.channel.started = true) :
    channelPlaces alloc node =
      (naluLoopPlaces (timaBufferData node.channel.buffer 0) (timaBufferUsed node.channel.buffer)
        { pos := 0, node := node, packs := alloc.packs, nodes := alloc.nodes } []).2 :=
  if_pos hs

/-- The node of a channel that has started with the metadata `md`. -/
def StreamNode.start (node : StreamNode) (md : H264Meta) : StreamNode :=
  { node with channel := { node.channel with metaData := md, started := true } }

theorem channelScan_waiting {alloc : Alloc} {pos : Nat} (hs : node.channel.started = false)
    (hget : h264MetadataGet alloc.metaData alloc.junk (timaBufferData node.channel.buffer 0)
      (timaBufferUsed node.channel.buffer) 0 node.channel.metaData = some (pos, md)) :
    channelScan alloc node =
      if pos = 0 then
        some (.failed { node with channel := { node.channel with metaData := md } })
      else
        match queueHeader
            { pos := pos, node := node.start md, packs := alloc.packs, nodes := alloc.nodes } with
        | none => none
        | some none => some (.failed (node.start md))
        | some (some s) =>
            naluLoop (timaBufferData node.channel.buffer 0) (timaBufferUsed node.channel.buffer)
              s := by
  rw [channelScan, if_neg (by rw [hs]; decide), hget]
  rfl

theorem channelPlaces_waiting {alloc : Alloc} {pos : Nat} (hs : node.channel.started = false)
    (hget : h264MetadataGet alloc.metaData alloc.junk (timaBufferData node.channel.buffer 0)
      (timaBufferUsed node.channel.buffer) 0 node.channel.metaData = some (pos, md)) :
    channelPlaces alloc node =
      if pos = 0 then []
      else
        match queueHeader
            { pos := pos, node := node.start md, packs := alloc.packs, nodes := alloc.nodes } with
        | none => []
        | some none => []
        | some (some s) =>
            (naluLoopPlaces (timaBufferData node.channel.buffer 0)
              (timaBufferUsed node.channel.buffer) s [pos]).2 := by
  rw [channelPlaces, if_neg (by rw [hs]; decide), hget]
  rfl

/-- No byte behind position `k` of the buffer comes from in front of the place `base`. -/
def PlaceRecord.From (r : PlaceRecord) (k base : Nat) : Prop := ∀ p, k ≤ p → base ≤ r.origin p

section Record

variable {r : PlaceRecord} {k base n : Nat}

theorem PlaceRecord.From.received (h : r.From k base) : base ≤ r.received := by
  have hpast := h (k + r.origins.length) (Nat.le_add_right _ _)
  rwa [PlaceRecord.origin, List.getD_eq_default _ _ (Nat.le_add_left _ _)] at hpast

theorem PlaceRecord.From.append (h : r.From k base) (n : Nat) (kept : Bool) :
    (r.append n kept).From k base := by
  intro p hp
  have hreceived := h.received
  have hbefore := h p hp
  rw [PlaceRecord.origin] at hbefore
  have hmore : base ≤ r.received + n := by omega
  by_cases hlt : p < r.origins.length
  · rw [List.getD_eq_getElem _ _ hlt] at hbefore
    have hget : (r.append n kept).origin p = r.origins[p] := by
      cases kept with
      | false => exact List.getD_eq_getElem _ _ hlt
      | true =>
          change (r.origins ++ List.range' r.received n).getD p _ = _
          rw [List.getD_append _ _ _ _ hlt, List.getD_eq_getElem _ _ hlt]
    rwa [hget]
  · cases kept with
    | false =>
        change base ≤ r.origins.getD p (r.received + n)
        rwa [List.getD_eq_default _ _ (by omega)]
    | true =>
        change base ≤ (r.origins ++ List.range' r.received n).getD p (r.received + n)
        rw [List.getD_append_right _ _ _ _ (by omega)]
        by_cases hin : p - r.origins.length < n
        · rw [List.getD_eq_getElem _ _ (by rwa [List.length_range']), List.getElem_range']
          omega
        · rwa [List.getD_eq_default _ _ (by rw [List.length_range']; omega)]

theorem PlaceRecord.From.drop (h : r.From k base) {pos : Nat} (hpos : k ≤ pos) :
    ({ r with origins := r.origins.drop pos } : PlaceRecord).From 0 base := by
  intro p _
  have hat := h (pos + p) (by omega)
  rwa [PlaceRecord.origin, List.getD_eq_getElem?_getD, ← List.getElem?_drop,
    ← List.getD_eq_getElem?_getD] at hat

end Record

/-! ## What a pass queues -/

/-- A queued sequence header. -/
def NalNode.IsHeader (e : NalNode) : Prop := e.package.mHeaderType = .medium

/-- The queued packet is what the metadata packs to. -/
def NalNode.PackedFrom (e : NalNode) (md : H264Meta) : Prop :=
  rtmpMetaPack true md.data md.size = some (some e.package)

/-- The node has the channel `ch` and more packets than `queue`.  A sequence header
among these needs `idr` and is packed from the metadata. -/
structure Adds (ch : StreamChannel) (queue : List NalNode) (idr : Prop) (node : StreamNode) :
    Prop where
  channel : node.channel = ch
  queued : ∃ new, node.naluList = queue ++ new ∧
    ∀ e ∈ new, e.IsHeader → idr ∧ e.PackedFrom ch.metaData

theorem Adds.none {idr : Prop} : Adds node.channel node.naluList idr node :=
  ⟨rfl, [], (List.append_nil _).symm, nofun⟩

/-- What one packet adds to the queue. -/
theorem queuePacket_queues {pack : Bool → Option (Option RtmpPacket)}
    (h : queuePacket pack s = some (some s')) :
    ∃ pkt, pack (nextAnswer s.packs) = some (some pkt) ∧
      s'.node.naluList = s.node.naluList ++ [nalNode s.node.channel.id pkt] := by
  unfold queuePacket at h
  split at h
  · cases h
  · cases h
  next pkt hpack =>
    obtain ⟨node, hnode, heq⟩ := Option.map_eq_some_iff.mp h
    cases heq
    refine ⟨pkt, hpack, ?_⟩
    rw [pktNodeCreate] at hnode
    split at hnode
    · cases hnode
      rfl
    · cases hnode

theorem queueHeader_queues (h : queueHeader s = some (some s')) :
    ∃ e : NalNode, s'.node.naluList = s.node.naluList ++ [e] ∧
      e.PackedFrom s.node.channel.metaData := by
  obtain ⟨pkt, hpack, hlist⟩ := queuePacket_queues h
  refine ⟨_, hlist, ?_⟩
  cases ha : nextAnswer s.packs with
  | true =>
      rw [ha] at hpack
      exact hpack
  | false =>
      rw [ha, rtmpMetaPack_refused] at hpack
      cases hpack

/-- A data packet is no sequence header. -/
theorem rtmpDataPack_large {calloc : Bool} {data : List UInt8} {length : Int} {pkt : RtmpPacket}
    (h : rtmpDataPack calloc data length = some (some pkt)) : pkt.mHeaderType = .large := by
  unfold rtmpDataPack at h
  split at h
  · cases h
  · obtain ⟨packet, -, hpacket⟩ := Option.bind_eq_some_iff.mp h
    split at hpacket
    · cases hpacket
    · obtain ⟨pkt', hpkt, heq⟩ := Option.map_eq_some_iff.mp hpacket
      cases heq
      unfold Packager.rtmpDataPack at hpkt
      split at hpkt
      · cases hpkt
      · obtain ⟨payload, -, hpkt⟩ := Option.bind_eq_some_iff.mp hpkt
        obtain ⟨area, -, heq⟩ := Option.map_eq_some_iff.mp hpkt
        cases heq
        rfl

theorem queueData_queues {nalu : H264Nalu} (h : queueData data nalu s = some (some s')) :
    ∃ e : NalNode, s'.node.naluList = s.node.naluList ++ [e] ∧ ¬ e.IsHeader := by
  obtain ⟨pkt, hpack, hlist⟩ := queuePacket_queues h
  refine ⟨_, hlist, fun hmedium => ?_⟩
  have hlarge : pkt.mHeaderType = .large := rtmpDataPack_large hpack
  cases hlarge.symm.trans hmedium

/-- Packing a NALU queues a header for an IDR slice only. -/
theorem packNalu_adds (nalu : H264Nalu)
    (h : nodeAfter (packNalu data nalu s) = some node) :
    Adds s.node.channel s.node.naluList (nalu.naluType = 0x05) node := by
  unfold packNalu at h
  split at h
  · cases h
  · cases h
    exact .none
  next s₁ hs₁ =>
    have h₁ : Adds s.node.channel s.node.naluList (nalu.naluType = 0x05) s₁.node := by
      split at hs₁
      next h5 =>
        obtain ⟨e, hlist, hpack⟩ := queueHeader_queues hs₁
        refine ⟨queuePacket_channel hs₁, [e], hlist, fun e' he' _ => ⟨h5, ?_⟩⟩
        rwa [List.mem_singleton.mp he']
      · cases hs₁
        exact .none
    split at h
    · cases h
      exact h₁
    · split at h
      · cases h
      · cases h
        exact h₁
      next s₂ hs₂ =>
        cases h
        obtain ⟨e, hlist, hdata⟩ := queueData_queues hs₂
        obtain ⟨new, hnew, hheader⟩ := h₁.queued
        refine ⟨(queuePacket_channel hs₂).trans h₁.channel, new ++ [e], ?_,
          fun e' he' hmedium => ?_⟩
        · rw [hlist, hnew, List.append_assoc]
        · rcases List.mem_append.mp he' with hmem | hmem
          · exact hheader e' hmem hmedium
          · rw [List.mem_singleton.mp hmem] at hmedium
            exact absurd hmedium hdata

/-- A pass queues a header only when the cursor stands at an IDR slice. -/
theorem naluPass_adds (h : nodeAfter (naluPass data length s) = some node) :
    Adds s.node.channel s.node.naluList
      (∃ len nalu, naluRead data length s.pos = (len, some nalu) ∧ nalu.naluType = 0x05) node := by
  unfold naluPass at h
  split at h
  · cases h
    exact .none
  next len nalu hread =>
    obtain ⟨hch, new, hnew, hheader⟩ := packNalu_adds nalu h
    simp only [streamNaluWmcnt_channel, streamNaluWmcnt_naluList] at hch hnew hheader
    refine ⟨hch, new, hnew, fun e he hmedium => ?_⟩
    obtain ⟨h5, hpack⟩ := hheader e he hmedium
    exact ⟨⟨len, nalu, hread, h5⟩, hpack⟩

/-! ## What a scan queues -/

/-- Behind `queue₀` the queue has one packet for each place of `l`.  The place of a
sequence header meets `G`, and the header is packed from the metadata. -/
def PlacedFrom (md : H264Meta) (G : Nat → Prop) (queue₀ queue : List NalNode) (l : List Nat) :
    Prop :=
  ∃ new, queue = queue₀ ++ new ∧ new.length = l.length ∧
    ∀ e p, (e, p) ∈ new.zip l → e.IsHeader → G p ∧ e.PackedFrom md

variable {G C : Nat → Prop}

theorem PlacedFrom.nil : PlacedFrom md G queue queue [] :=
  ⟨[], (List.append_nil _).symm, rfl, nofun⟩

theorem PlacedFrom.append (h : PlacedFrom md G queue₀ queue l)
    (h' : PlacedFrom md G queue queue' l') : PlacedFrom md G queue₀ queue' (l ++ l') := by
  obtain ⟨new, rfl, hlen, hnew⟩ := h
  obtain ⟨new', rfl, hlen', hnew'⟩ := h'
  refine ⟨new ++ new', List.append_assoc .., by rw [List.length_append, List.length_append, hlen,
    hlen'], fun e p hmem => ?_⟩
  rw [List.zip_append hlen] at hmem
  rcases List.mem_append.mp hmem with hl | hr
  · exact hnew e p hl
  · exact hnew' e p hr

/-- The places carried over by a function. -/
theorem PlacedFrom.map {G' : Nat → Prop} (h : PlacedFrom md G queue₀ queue l) (f : Nat → Nat)
    (hf : ∀ p, G p → G' (f p)) : PlacedFrom md G' queue₀ queue (l.map f) := by
  obtain ⟨new, hqueue, hlen, hnew⟩ := h
  refine ⟨new, hqueue, by rw [List.length_map, hlen], fun e o hmem hheader => ?_⟩
  rw [List.zip_map_right] at hmem
  obtain ⟨⟨e', p⟩, hp, heq⟩ := List.mem_map.mp hmem
  cases heq
  obtain ⟨hG, hpack⟩ := hnew _ p hp hheader
  exact ⟨hf p hG, hpack⟩

/-- A reading of `data` from cursors of `C` stays at such cursors, and the IDR slices
are at cursors of `G`. -/
def ReadsKeep (data : List UInt8) (length : Nat) (C G : Nat → Prop) : Prop :=
  ∀ p len nalu, C p → naluRead data length p = (len, some nalu) →
    C (p + len) ∧ (nalu.naluType = 0x05 → G p)

/-- The pass as it is recorded. -/
theorem naluPass_placed (hkeep : ReadsKeep data length C G) (hs : C s.pos)
    (h : nodeAfter (naluPass data length s) = some node) :
    node.channel = s.node.channel ∧
      PlacedFrom s.node.channel.metaData G s.node.naluList node.naluList
        (passPlaces s (naluPass data length s)) := by
  obtain ⟨hch, new, hnew, hheader⟩ := naluPass_adds h
  have hplaces : passPlaces s (naluPass data length s) = List.replicate new.length s.pos := by
    simp only [passPlaces, h, hnew, List.length_append, Nat.add_sub_cancel_left]
  rw [hplaces]
  refine ⟨hch, new, hnew, (List.length_replicate ..).symm, fun e p hmem he => ?_⟩
  obtain ⟨hin, hp⟩ := List.of_mem_zip hmem
  rw [List.eq_of_mem_replicate hp]
  obtain ⟨⟨len, nalu, hread, h5⟩, hpack⟩ := hheader e hin he
  exact ⟨(hkeep _ len nalu hs hread).2 h5, hpack⟩

/-- How a scan ends: with the channel `ch`, with the packets at their places behind
`queue₀`, and, if it reaches the align, at a cursor of `C` with nothing to read. -/
structure ScanEnd.Placed (e : ScanEnd) (data : List UInt8) (length : Nat) (ch : StreamChannel)
    (C G : Nat → Prop) (queue₀ : List NalNode) (l : List Nat) : Prop where
  node : ∃ node, nodeAfter (.leave (some e)) = some node ∧ node.channel = ch ∧
    PlacedFrom ch.metaData G queue₀ node.naluList l
  scanned : ∀ node pos, e = .scanned node pos → C pos ∧ (naluRead data length pos).2 = none

theorem naluLoopPlaces_spec (hkeep : ReadsKeep data length C G) (hs : C s.pos)
    (hp : PlacedFrom s.node.channel.metaData G queue₀ s.node.naluList l) {e : ScanEnd}
    (he : naluLoop data length s = some e) :
    e.Placed data length s.node.channel C G queue₀ (naluLoopPlaces data length s l).2 := by
  have key := Loop.execRecorded_rule (naluPass_decreases data length) passPlaces
    (fun s' l' => C s'.pos ∧ s'.node.channel = s.node.channel ∧
      PlacedFrom s.node.channel.metaData G queue₀ s'.node.naluList l')
    (fun r l' => ∀ e, r = some e → e.Placed data length s.node.channel C G queue₀ l')
    ?_ ?_ s l ⟨hs, rfl, hp⟩
  · exact key e ((naluLoopPlaces_fst data length s l).trans he)
  · rintro s₁ l₁ s₂ ⟨hC, hch, hp₁⟩ hb
    obtain ⟨hch₂, hp₂⟩ := naluPass_placed hkeep hC (by rw [hb]; rfl)
    rw [hb, hch] at hp₂
    refine ⟨?_, hch₂.trans hch, hp₁.append hp₂⟩
    -- the cursor has moved by the length of the read
    unfold naluPass at hb
    split at hb
    · cases hb
    next len nalu hread =>
      have hpos := packNalu_pos hb
      simp only at hpos
      exact hpos ▸ (hkeep _ len nalu hC hread).1
  · rintro s₁ l₁ r ⟨hC, hch, hp₁⟩ hb e rfl
    obtain ⟨node, hnode⟩ : ∃ node, nodeAfter (.leave (some e)) = some node := by
      cases e with
      | failed node => exact ⟨node, rfl⟩
      | scanned node pos => exact ⟨node, rfl⟩
    have hafter : nodeAfter (naluPass data length s₁) = some node := by rw [hb]; exact hnode
    obtain ⟨hch₂, hp₂⟩ := naluPass_placed hkeep hC hafter
    rw [hb, hch] at hp₂
    refine ⟨⟨node, hnode, hch₂.trans hch, hp₁.append hp₂⟩, ?_⟩
    rintro node' pos rfl
    unfold naluPass at hb
    split at hb
    next hread =>
      cases hb
      exact ⟨hC, by rw [hread]⟩
    next len nalu hread =>
      have hkeeps := packNalu_channel data nalu
        { s₁ with pos := s₁.pos + len, node := streamNaluWmcnt s₁.node nalu.naluLen }
      rw [hb] at hkeeps
      exact hkeeps.elim

/-! ## The loop along the NALUs -/

section Cuts

variable {x t u : List UInt8} {hdr : RtmpPacket} {p : Nat}

/-- The cursor is at `p`, the metadata packs to `hdr`, and every request is granted. -/
structure ScanState.Ready (s : ScanState) (hdr : RtmpPacket) (p : Nat) : Prop where
  packs : ∀ b ∈ s.packs, b = true
  nodes : NodesGranted s
  header : HeaderIs s.node.channel hdr
  pos : s.pos = p

/-- The packets of a NALU have their place at its front. -/
theorem naluLoopPlaces_cut (h : InUse data x) (hend : ¬ EndsWithCode x)
    (hlt : x.length + 67 < 2 ^ 31) (hs : s.Ready hdr p) (hp : p ≤ x.length)
    (hc : startCode.cut (x.drop p) = some (t, u)) (l : List Nat) :
    ∃ s', s'.Ready hdr (p + (t.length + findStartCode u)) ∧
      naluLoopPlaces data x.length s l =
        naluLoopPlaces data x.length s' (l ++ List.replicate (packetsOf hdr t).length p) := by
  obtain ⟨hpacks, hnodes, hheader, rfl⟩ := hs
  have hb := naluPass_of_cut h hend hlt (fun _ _ => hheader) hnodes hp hc
  have hall : served (s.advance t u).packs (packetsOf hdr t).length = (packetsOf hdr t).length :=
    served_of_granted hpacks _
  rw [serveAll, if_pos hall] at hb
  refine ⟨(s.advance t u).serve (packetsOf hdr t), ⟨?_, ?_, ?_, rfl⟩, ?_⟩
  · exact fun b hb => hpacks b (List.mem_of_mem_drop hb)
  · exact NodesGranted.serve (s := s.advance t u) hnodes _
  · change HeaderIs (s.advance t u).node.channel hdr
    rwa [advance_channel]
  · rw [naluLoopPlaces, Loop.execRecorded_again _ hb, ← naluLoopPlaces]
    congr 2
    simp only [passPlaces, nodeAfter, ScanState.serve, StreamNode.enqueue, List.length_append,
      List.length_map, advance_naluList, Nat.add_sub_cancel_left]

theorem naluLoopPlaces_end (h : InUse data x) (hs : s.pos = p)
    (hc : startCode.cut (x.drop p) = none) (l : List Nat) :
    (naluLoopPlaces data x.length s l).2 = l := by
  subst hs
  have hr : naluRead data x.length s.pos = (0, none) :=
    naluRead_none h.le (by rw [h.dataFrom_eq, hc])
  have hb : naluPass data x.length s = .leave (some (.scanned s.node s.pos)) := by
    rw [naluPass, hr]
  rw [naluLoopPlaces, Loop.execRecorded_leave _ hb]
  simp [passPlaces, nodeAfter]

end Cuts

end VmpSa
