import VmpSa.Stream.Scan

/-!
# One call on a channel

What a call of `h264_stream_proc` does to the bytes a channel has pending.
`Pending node x` is the well-formedness of the channel's buffer with `x` in it;
the `int` in `tima_buffer_strdup` keeps `x` below `2 ^ 32` bytes.

On a started channel the call queues the packets of `x ++ body` up to the first
refusal.  It leaves the residue pending when there was none and everything
otherwise (`proc_started`).
-/

namespace VmpSa

/-! ## Pending bytes -/

/-- The channel has the bytes `x` pending, in a buffer of at least the initial size. -/
structure Pending (node : StreamNode) (x : List UInt8) : Prop where
  holds : node.channel.buffer.Holds x
  total : 2 ^ 17 ≤ node.channel.buffer.bufferTotal
  lt : x.length < 2 ^ 32

theorem pending_init : Pending .init [] where
  holds := TimaBuffer.holds_init _
  total := by decide
  lt := by decide

/-- The node with another buffer. -/
def StreamNode.withBuffer (node : StreamNode) (b : TimaBuffer) : StreamNode :=
  { node with channel := { node.channel with buffer := b } }

@[simp] theorem withBuffer_buffer (node : StreamNode) (b : TimaBuffer) :
    (node.withBuffer b).channel.buffer = b := rfl

@[simp] theorem withBuffer_started (node : StreamNode) (b : TimaBuffer) :
    (node.withBuffer b).channel.started = node.channel.started := rfl

variable {node node' : StreamNode} {x : List UInt8} {call : Call} {hdr : RtmpPacket}

/-- The bytes a call finds in the buffer after its append. -/
def dataSeen (node : StreamNode) (call : Call) : List UInt8 :=
  match timaBufferStrdup call.alloc.realloc node.channel.buffer call.body.bytes true with
  | none => []
  | some (_, b) => b.buffer.take b.bufferUsed

/-- After an append with a result the pending bytes have grown by the body or are what
they were, and the call sees them. -/
theorem append_pending (hp : Pending node x)
    (h : channelAppend call.alloc node call.body.bytes = some node') :
    ∃ y, Pending node' y ∧ dataSeen node call = y ∧ (y = x ∨ y = x ++ call.body.bytes) ∧
      ∃ b, node' = node.withBuffer b := by
  obtain ⟨⟨r, b⟩, hr, rfl⟩ := Option.map_eq_some_iff.mp h
  obtain ⟨ht, hcases⟩ := TimaBuffer.strdup_cases hp.holds hp.lt call.body.short hp.total hr
  have hshort := call.body.short
  have hlt := hp.lt
  rcases hcases with hh | ⟨hh, hlo⟩
  · refine ⟨x, ⟨hh, ht, hlt⟩, ?_, Or.inl rfl, b, rfl⟩
    simp only [dataSeen, hr, hh.used, hh.content]
  · refine ⟨x ++ call.body.bytes, ⟨hh, ht, ?_⟩, ?_, Or.inr rfl, b, rfl⟩
    · rw [List.length_append]
      omega
    · simp only [dataSeen, hr, hh.used, hh.content]

/-- An append that is not refused. -/
theorem append_granted (call : Call) (hp : Pending node x) (hx : x.length < 2 ^ 31)
    (hg : node.channel.buffer.Grows call.body.bytes → call.alloc.realloc = true) :
    ∃ b, channelAppend call.alloc node call.body.bytes = some (node.withBuffer b) ∧
      Pending (node.withBuffer b) (x ++ call.body.bytes) ∧
      dataSeen node call = x ++ call.body.bytes := by
  obtain ⟨b, hb, hh, hle, -⟩ :=
    TimaBuffer.strdup_append call.alloc.realloc hp.holds hx call.body.short hp.total hg
  have hshort := call.body.short
  have ht := hp.total
  refine ⟨b, ?_, ⟨hh, by simp only [withBuffer_buffer]; omega, ?_⟩, ?_⟩
  · simp only [channelAppend, hb, Option.map_some, StreamNode.withBuffer]
  · rw [List.length_append]
    omega
  · simp only [dataSeen, hb, hh.used, hh.content]

/-- Aligning at an offset inside the pending bytes drops them. -/
theorem align_pending (hp : Pending node x) {pos : Nat} (hpos : pos ≤ x.length) :
    ∃ b, channelAlign (.scanned node pos) = some (0, node.withBuffer b) ∧
      Pending (node.withBuffer b) (x.drop pos) := by
  obtain ⟨b, hb, hh, ht⟩ := TimaBuffer.align_drop hp.holds hpos
  have hlt := hp.lt
  refine ⟨b, ?_, ⟨hh, by simp only [withBuffer_buffer, ht]; exact hp.total, ?_⟩⟩
  · simp only [channelAlign, hb, Option.map_some, StreamNode.withBuffer]
  · rw [List.length_drop]
    omega

/-- Pending bytes depend on the channel only. -/
theorem Pending.of_channel (hp : Pending node x) (h : node'.channel = node.channel) :
    Pending node' x :=
  ⟨h ▸ hp.holds, h ▸ hp.total, hp.lt⟩

/-! ## The scan and the align -/

/-- Everything of the channel but its buffer is the same. -/
structure SameSetup (node node' : StreamNode) : Prop where
  id : node'.channel.id = node.channel.id
  started : node'.channel.started = node.channel.started
  metaData : node'.channel.metaData = node.channel.metaData

theorem sameSetup_withBuffer (node : StreamNode) (b : TimaBuffer) :
    SameSetup node (node.withBuffer b) := ⟨rfl, rfl, rfl⟩

theorem SameSetup.of_channel (h : node'.channel = node.channel) : SameSetup node node' :=
  ⟨by rw [h], by rw [h], by rw [h]⟩

theorem SameSetup.trans {node'' : StreamNode} (h : SameSetup node node')
    (h' : SameSetup node' node'') : SameSetup node node'' :=
  ⟨h'.id.trans h.id, h'.started.trans h.started, h'.metaData.trans h.metaData⟩

theorem SameSetup.headerIs (h : SameSetup node node') (hh : HeaderIs node.channel hdr) :
    HeaderIs node'.channel hdr := by
  rw [HeaderIs, h.metaData]
  exact hh

theorem SameSetup.headerFor {packs : List Bool} (h : SameSetup node node')
    (hh : HeaderFor node.channel hdr packs x) : HeaderFor node'.channel hdr packs x :=
  fun front n back heq h5 hgranted => h.headerIs (hh front n back heq h5 hgranted)

/-- Dropping to the residue leaves the residue. -/
theorem drop_to_residue {x y : List UInt8} (h : y <:+ x) :
    x.drop (x.length - (startCode.residue y).length) = startCode.residue y :=
  (List.suffix_iff_eq_drop.mp ((startCode.residue_suffix y).trans h)).symm

/-- All packets of the bytes `y` are served. -/
def ServesAll (packs : List Bool) (hdr : RtmpPacket) (y : List UInt8) : Prop :=
  served packs (packets hdr y).length = (packets hdr y).length

instance (packs : List Bool) (hdr : RtmpPacket) (y : List UInt8) :
    Decidable (ServesAll packs hdr y) :=
  inferInstanceAs (Decidable (_ = _))

/-- The packets of `y` that are served. -/
def servedPackets (packs : List Bool) (hdr : RtmpPacket) (y : List UInt8) : List RtmpPacket :=
  (packets hdr y).take (served packs (packets hdr y).length)

theorem servedPackets_of_all {packs : List Bool} {y : List UInt8} (h : ServesAll packs hdr y) :
    servedPackets packs hdr y = packets hdr y := by
  rw [servedPackets, h, List.take_length]

theorem servesAll_of_granted {packs : List Bool} (h : ∀ b ∈ packs, b = true) (y : List UInt8) :
    ServesAll packs hdr y :=
  served_of_granted h _

/-- The loop from a cursor on, and the align behind it. -/
theorem loop_align {s : ScanState} (hp : Pending s.node x)
    (hh : HeaderFor s.node.channel hdr s.packs (x.drop s.pos)) (hn : NodesGranted s)
    (hend : ¬ EndsWithCode x) (hlt : x.length + 67 < 2 ^ 31) (hpos : s.pos ≤ x.length) :
    ∃ node', (naluLoop (timaBufferData s.node.channel.buffer 0)
          (timaBufferUsed s.node.channel.buffer) s).bind channelAlign =
        some (if ServesAll s.packs hdr (x.drop s.pos) then 0 else -1, node') ∧
      SameSetup s.node node' ∧
      node'.naluList = s.node.naluList ++
        (servedPackets s.packs hdr (x.drop s.pos)).map (nalNode s.node.channel.id) ∧
      Pending node' (if ServesAll s.packs hdr (x.drop s.pos)
        then startCode.residue (x.drop s.pos) else x) := by
  obtain ⟨node₁, hch, hq, hloop⟩ :=
    naluLoop_spec hp.holds.inUse hend hlt hh hn hpos
  have hused : timaBufferUsed s.node.channel.buffer = x.length := hp.holds.used
  have hp₁ := hp.of_channel hch
  rw [hused, hloop, Option.bind_some]
  change ∃ node', channelAlign (if ServesAll s.packs hdr (x.drop s.pos) then _ else _) = _ ∧ _
  by_cases hall : ServesAll s.packs hdr (x.drop s.pos)
  · rw [if_pos hall, if_pos hall, if_pos hall]
    obtain ⟨b, hal, hp₂⟩ := align_pending hp₁
      (Nat.sub_le x.length (startCode.residue (x.drop s.pos)).length)
    rw [drop_to_residue (List.drop_suffix _ _)] at hp₂
    exact ⟨node₁.withBuffer b, hal,
      (SameSetup.of_channel hch).trans (sameSetup_withBuffer node₁ b), hq, hp₂⟩
  · rw [if_neg hall, if_neg hall, if_neg hall]
    exact ⟨node₁, rfl, SameSetup.of_channel hch, hq, hp₁⟩

/-! ## A started channel -/

/-- The channel has started and its metadata packs to the sequence header `hdr`. -/
structure Started (node : StreamNode) (hdr : RtmpPacket) : Prop where
  started : node.channel.started = true
  header : HeaderIs node.channel hdr

theorem Started.of_same (hs : Started node hdr) (h : SameSetup node node') : Started node' hdr :=
  ⟨h.started.trans hs.started, h.headerIs hs.header⟩

/-- One call on a started channel: the packets of everything pending, up to the
first refusal.  The metadata is packed for an IDR slice only. -/
theorem proc_started (call : Call) (hp : Pending node x) (hs : node.channel.started = true)
    (hh : HeaderFor node.channel hdr call.alloc.packs (x ++ call.body.bytes))
    (hg : node.channel.buffer.Grows call.body.bytes → call.alloc.realloc = true)
    (hn : ∀ b ∈ call.alloc.nodes, b = true) (hend : ¬ EndsWithCode (x ++ call.body.bytes))
    (hlt : (x ++ call.body.bytes).length + 67 < 2 ^ 31) :
    ∃ node', h264StreamProc call.alloc node call.body.bytes = some
        (if ServesAll call.alloc.packs hdr (x ++ call.body.bytes) then 0 else -1, node') ∧
      SameSetup node node' ∧
      node'.naluList = node.naluList ++
        (servedPackets call.alloc.packs hdr (x ++ call.body.bytes)).map
          (nalNode node.channel.id) ∧
      Pending node' (if ServesAll call.alloc.packs hdr (x ++ call.body.bytes)
        then startCode.residue (x ++ call.body.bytes) else x ++ call.body.bytes) := by
  have hx : x.length < 2 ^ 31 := by
    rw [List.length_append] at hlt
    omega
  obtain ⟨b, happ, hp₁, -⟩ := append_granted call hp hx hg
  have hsame := sameSetup_withBuffer node b
  have hs₁ := hsame.started.trans hs
  obtain ⟨node₂, hloop, hsame₂, hq, hp₂⟩ := loop_align (x := x ++ call.body.bytes)
    (s := { pos := 0, node := node.withBuffer b, packs := call.alloc.packs,
            nodes := call.alloc.nodes })
    hp₁ (hsame.headerFor hh) hn hend hlt (Nat.zero_le _)
  refine ⟨node₂, ?_, hsame.trans hsame₂, hq, hp₂⟩
  rw [h264StreamProc, h264StreamScan, happ, Option.bind_some, channelScan, if_pos hs₁]
  exact hloop

/-! ## A small started channel -/

/-- The allocator grants every request. -/
def Alloc.grantAll : Alloc where
  realloc := true
  metaData := true
  junk := { size := 0, data := none }
  packs := []
  nodes := []

/-- A channel that has started on parameter sets of one byte each and has nothing
pending. -/
def startedNode : StreamNode :=
  { StreamNode.init with
    channel :=
      { StreamNode.init.channel with
        started := true
        metaData := { size := 10, data := some (metaLayout [0x67] [0x68]) } } }

/-- The sequence header of `startedNode`. -/
def startedHeader : RtmpPacket where
  mHeaderType := .medium
  mPacketType := rtmpPacketTypeVideo
  mHasAbsTimestamp := 0
  mNChannel := 0x04
  mNTimeStamp := 0
  mNInfoField2 := 0
  mNBodySize := 18
  area := List.replicate rtmpMaxHeaderSize 0 ++
    [0x17, 0x00, 0x00, 0x00, 0x00, 0x01, 0x00, 0x00, 0x00, 0xff, 0xe1, 0x00, 0x01, 0x67, 0x01,
      0x00, 0x01, 0x68]

/-- One complete NALU and the beginning of another. -/
def smallCall : Call where
  alloc := .grantAll
  body := { bytes := [0x41, 0, 0, 1, 0x42], short := by decide }

theorem pending_startedNode : Pending startedNode [] :=
  ⟨pending_init.holds, pending_init.total, pending_init.lt⟩

theorem started_startedNode : Started startedNode startedHeader :=
  ⟨rfl, by rw [HeaderIs]; decide⟩

end VmpSa
