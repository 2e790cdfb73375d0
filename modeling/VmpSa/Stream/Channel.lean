import VmpSa.Lib.System
import VmpSa.Rtmp.Packager
import VmpSa.Support.Buffer

/-!
# The elementary stream of a channel

`h264_stream_proc` of `bll/bll_h264_stream.c`.  A video body is appended to the
buffer of the channel, the complete NALUs in the buffer are packed and queued,
and the buffer is aligned to what is left.

The answers of the allocator come from outside, one `Alloc` for each call.  A
result of `none` means that the call has no defined result; see the modules of
the functions called.  The diagnostics of the source are left out.
-/

namespace VmpSa

/-! ## The node and its channel -/

/-- `nal_node_t`. -/
structure NalNode where
  seq : Int
  cid : Int
  size : Int
  package : RtmpPacket
deriving Repr, DecidableEq

/-- `StreamChannel`. -/
structure StreamChannel where
  id : Int
  buffer : TimaBuffer
  started : Bool
  metaData : H264Meta
deriving Repr, DecidableEq

/-- The fields of `PrivInfo` that `h264_stream_proc` works on. -/
structure StreamNode where
  wmark : Int
  wmTime : Int
  wmCount : Nat
  channel : StreamChannel
  /-- The nodes given to `list_add_nalu` so far, oldest first. -/
  naluList : List NalNode
deriving Repr, DecidableEq

/-- The answers of the allocator during one call of `h264_stream_proc`. -/
structure Alloc where
  /-- To `realloc` in `tima_buffer_expand`. -/
  realloc : Bool
  /-- To `calloc` in `h264_metadata_get`. -/
  metaData : Bool
  /-- What `h264_metadata_get` makes of NALUs it has not read. -/
  junk : H264Meta
  /-- To `rtmp_meta_pack` and `rtmp_data_pack`, in order; past the end they are granted. -/
  packs : List Bool
  /-- To `pkt_node_create`, likewise. -/
  nodes : List Bool

/-- The next answer of the allocator. -/
def nextAnswer (answers : List Bool) : Bool := answers.headD true

/-- A body as the framing hands it over: its length is an `unsigned short`. -/
structure Body where
  bytes : List UInt8
  short : bytes.length < 2 ^ 16

/-- The channel of a fresh node: `calloc` and `tima_buffer_init(.., 128<<10)`. -/
def StreamNode.init : StreamNode where
  wmark := 0
  wmTime := 0
  wmCount := 0
  channel :=
    { id := 0, buffer := timaBufferInit (128 * 2 ^ 10), started := false
      metaData := { size := 0, data := none } }
  naluList := []

/-! ## The code -/

/-- `stream_nalu_wmcnt`. -/
def streamNaluWmcnt (node : StreamNode) (size : Nat) : StreamNode :=
  if node.wmark ≠ 0 then node
  else if node.wmTime < 4 then
    { node with wmTime := node.wmTime + 1, wmCount := (node.wmCount + size) % 2 ^ 64 }
  else
    { node with
      wmTime := node.wmTime + 1
      wmark := if node.wmCount / (node.wmTime + 1).toNat > 8 * 2 ^ 10 then 1 else -1 }

/-- `pkt_node_create`. -/
def pktNodeCreate (calloc : Bool) (package : RtmpPacket) (size cid seq : Int) : Option NalNode :=
  if calloc then some { seq := seq, cid := cid, size := size, package := package } else none

/-- `list_add_nalu` as the producer sees it.  A NULL node is dereferenced. -/
def listAddNalu (node : StreamNode) : Option NalNode → Option StreamNode
  | none => none
  | some pkt => some { node with naluList := node.naluList ++ [pkt] }

/-- The local state of `h264_stream_proc`: the cursor, the node and the answers
still to come. -/
structure ScanState where
  pos : Nat
  node : StreamNode
  packs : List Bool
  nodes : List Bool

/-- A packet is packed, wrapped into a node and queued; `pack` is the packer, given
the answer of the allocator.  `some none` is the branch that returns `-1`. -/
def queuePacket (pack : Bool → Option (Option RtmpPacket)) (s : ScanState) :
    Option (Option ScanState) :=
  match pack (nextAnswer s.packs) with
  | none => none
  | some none => some none
  | some (some pkt) =>
      (listAddNalu s.node (pktNodeCreate (nextAnswer s.nodes) pkt 0 s.node.channel.id 0)).map
        fun node => some { s with node := node, packs := s.packs.tail, nodes := s.nodes.tail }

/-- The sequence header of the channel, packed and queued. -/
def queueHeader (s : ScanState) : Option (Option ScanState) :=
  queuePacket (fun calloc =>
    rtmpMetaPack calloc s.node.channel.metaData.data s.node.channel.metaData.size) s

/-- The data packet of a NALU, packed and queued. -/
def queueData (data : List UInt8) (nalu : H264Nalu) (s : ScanState) : Option (Option ScanState) :=
  queuePacket (fun calloc =>
    rtmpDataPack calloc (data.drop nalu.naluData) (CInt.ofSize nalu.naluLen)) s

/-- How the part of `h264_stream_proc` before `tima_buffer_align` ends. -/
inductive ScanEnd where
  /-- An early `return -1`. -/
  | failed : StreamNode → ScanEnd
  /-- `tima_buffer_align` is called with this offset. -/
  | scanned : StreamNode → Nat → ScanEnd

/-- Packing the NALU that has just been read. -/
def packNalu (data : List UInt8) (nalu : H264Nalu) (s : ScanState) :
    Loop.Pass ScanState (Option ScanEnd) :=
  match (if nalu.naluType = 0x05 then queueHeader s else some (some s)) with
  | none => .leave none
  | some none => .leave (some (.failed s.node))
  | some (some s₁) =>
      if nalu.naluType = 0x07 ∨ nalu.naluType = 0x08 ∨ nalu.naluType = 0x06 then .again s₁
      else
        match queueData data nalu s₁ with
        | none => .leave none
        | some none => .leave (some (.failed s₁.node))
        | some (some s₂) => .again s₂

/-- One pass of the `do .. while (len)` loop of `h264_stream_proc`. -/
def naluPass (data : List UInt8) (length : Nat) (s : ScanState) :
    Loop.Pass ScanState (Option ScanEnd) :=
  match naluRead data length s.pos with
  | (_, none) => .leave (some (.scanned s.node s.pos))
  | (len, some nalu) =>
      packNalu data nalu { s with
        pos := s.pos + len
        node := streamNaluWmcnt s.node nalu.naluLen }

theorem queuePacket_pos {pack : Bool → Option (Option RtmpPacket)} {s s' : ScanState}
    (h : queuePacket pack s = some (some s')) : s'.pos = s.pos := by
  unfold queuePacket at h
  split at h
  · cases h
  · cases h
  · obtain ⟨node, -, heq⟩ := Option.map_eq_some_iff.mp h
    cases heq
    rfl

theorem packNalu_pos {data : List UInt8} {nalu : H264Nalu} {s s' : ScanState}
    (h : packNalu data nalu s = .again s') : s'.pos = s.pos := by
  unfold packNalu at h
  split at h
  · cases h
  · cases h
  next s₁ hs₁ =>
    have h₁ : s₁.pos = s.pos := by
      split at hs₁
      · exact queuePacket_pos hs₁
      · cases hs₁
        rfl
    split at h
    · cases h
      exact h₁
    · split at h
      · cases h
      · cases h
      next s₂ hs₂ =>
        cases h
        exact (queuePacket_pos hs₂).trans h₁

theorem naluRead_progress {buffer : List UInt8} {size offset len : Nat} {nalu : H264Nalu}
    (h : naluRead buffer size offset = (len, some nalu)) : offset < size ∧ 0 < len := by
  unfold naluRead at h
  split at h
  · simp only at h
    split at h
    · cases h
    · cases h
      exact ⟨by assumption, by omega⟩
  · cases h

theorem naluPass_decreases (data : List UInt8) (length : Nat) :
    Loop.Decreases (naluPass data length) (fun s => length - s.pos) := by
  intro s s' h
  unfold naluPass at h
  split at h
  · cases h
  next len nalu hr =>
    have hpos := packNalu_pos h
    obtain ⟨hlt, hlen⟩ := naluRead_progress hr
    simp only at hpos ⊢
    omega

/-- The loop of `h264_stream_proc`. -/
def naluLoop (data : List UInt8) (length : Nat) (s : ScanState) : Option ScanEnd :=
  Loop.exec (naluPass data length) (fun s => length - s.pos) (naluPass_decreases data length) s

/-- The part of `h264_stream_proc` behind the append: the start of the channel, if
it has not started, and the loop. -/
def channelScan (alloc : Alloc) (node : StreamNode) : Option ScanEnd :=
  let data := timaBufferData node.channel.buffer 0
  let length := timaBufferUsed node.channel.buffer
  if node.channel.started then
    naluLoop data length { pos := 0, node := node, packs := alloc.packs, nodes := alloc.nodes }
  else
    match h264MetadataGet alloc.metaData alloc.junk data length 0 node.channel.metaData with
    | none => none
    | some (pos, md) =>
        if pos = 0 then
          some (.failed { node with channel := { node.channel with metaData := md } })
        else
          let node := { node with channel := { node.channel with metaData := md, started := true } }
          match queueHeader
              { pos := pos, node := node, packs := alloc.packs, nodes := alloc.nodes } with
          | none => none
          | some none => some (.failed node)
          | some (some s) => naluLoop data length s

/-- The node after `tima_buffer_strdup`, whose result is ignored. -/
def channelAppend (alloc : Alloc) (node : StreamNode) (buf : List UInt8) : Option StreamNode :=
  (timaBufferStrdup alloc.realloc node.channel.buffer buf true).map fun r =>
    { node with channel := { node.channel with buffer := r.2 } }

/-- `h264_stream_proc` up to the call of `tima_buffer_align`. -/
def h264StreamScan (alloc : Alloc) (node : StreamNode) (buf : List UInt8) : Option ScanEnd :=
  (channelAppend alloc node buf).bind (channelScan alloc)

/-- The end of `h264_stream_proc`. -/
def channelAlign : ScanEnd → Option (Int × StreamNode)
  | .failed node => some (-1, node)
  | .scanned node pos =>
      (timaBufferAlign node.channel.buffer pos).map fun buffer =>
        (0, { node with channel := { node.channel with buffer := buffer } })

/-- `h264_stream_proc`: the returned value and the node afterwards. -/
def h264StreamProc (alloc : Alloc) (node : StreamNode) (buf : List UInt8) :
    Option (Int × StreamNode) :=
  (h264StreamScan alloc node buf).bind channelAlign

/-- One call: the body and the answers of the allocator. -/
structure Call where
  alloc : Alloc
  body : Body

/-- The step of a node fed with a body. -/
def feed (node : StreamNode) (call : Call) : Option StreamNode :=
  (h264StreamProc call.alloc node call.body.bytes).map Prod.snd

end VmpSa
