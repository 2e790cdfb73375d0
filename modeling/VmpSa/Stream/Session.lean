import VmpSa.Jt1078.Framing
import VmpSa.Stream.Headers
import VmpSa.Support.Bounds

/-!
# Several channels on one connection

The stream URL of a connection is asked for with the number and the channel of
its first packet.  `media_stream_proc` then gives the body of every video packet
to the one channel of the node, whatever number and channel the packet carries.
So the packets of another channel end up in the queue, or in the middle of a
NALU that is still incomplete.

A session is a connection with its stream node.  Two sessions that agree on the
packets of the first packet's channel queue the same, provided that every video
packet of another channel finds nothing to do (`Idle`): nothing is appended for
it, and what is pending holds no complete NALU.  Nothing is assumed of the
packets of the channel itself, nor of the answers of the allocator to them.
-/

namespace VmpSa

/-! ## The model -/

theorem bodyLength_lt (p : List UInt8) : bodyLength p < 2 ^ 16 := by
  have h28 := (p.getD 28 0).toNat_lt
  have h29 := (p.getD 29 0).toNat_lt
  unfold bodyLength
  split <;> omega

/-- The body of a packet. -/
def bodyOf (p : List UInt8) : Body where
  bytes := (p.drop 30).take (bodyLength p)
  short := Nat.lt_of_le_of_lt (List.length_take_le _ _) (bodyLength_lt p)

/-- A packet the parser accepts, and the answers of the allocator while it is
processed. -/
structure Received where
  bytes : List UInt8
  frame : IsFrame bytes
  alloc : Alloc

/-- The call of `h264_stream_proc` a video packet leads to. -/
def Received.call (r : Received) : Call where
  alloc := r.alloc
  body := bodyOf r.bytes

/-- A connection and its stream node. -/
structure Session where
  conn : Conn
  node : StreamNode

/-- A fresh connection. -/
def Session.init : Session where
  conn := .init
  node := .init

/-- The node with another number in `channel.id`. -/
def StreamNode.withId (node : StreamNode) (id : Int) : StreamNode :=
  { node with channel := { node.channel with id := id } }

/-- `media_stream_proc` on an accepted packet. -/
def sessionStep (s : Session) (r : Received) : Option Session :=
  let conn := s.conn.consume r.bytes
  let node := s.node.withId conn.channelId
  if isVideoPacket r.bytes then
    (feed node r.call).map fun node => { conn := conn, node := node }
  else some { conn := conn, node := node }

/-- The packet carries the number and the channel of the first one. -/
def sameChannel (first r : Received) : Bool :=
  (readHeader r.bytes).simno = (readHeader first.bytes).simno ∧
    (readHeader r.bytes).channel = (readHeader first.bytes).channel

/-! ## Packets of another channel -/

/-- Nothing is appended: the body is empty, or the buffer would have to grow for it
and the allocator refuses. -/
def NotAppended (b : TimaBuffer) (call : Call) : Prop :=
  call.body.bytes = [] ∨
    b.Short call.body.bytes.length ∧ call.alloc.realloc = false ∧ 2 ≤ b.bufferTotal

/-- There is nothing to do for the bytes in the buffer.  On a started channel
`h264_nalu_read` finds no complete NALU, and otherwise `h264_metadata_get` finds
no parameter sets. -/
def NothingToDo (node : StreamNode) (alloc : Alloc) : Prop :=
  let data := timaBufferData node.channel.buffer 0
  let length := timaBufferUsed node.channel.buffer
  if node.channel.started then
    (naluRead data length 0).2 = none ∧ length < data.length
  else
    ∃ md, h264MetadataGet alloc.metaData alloc.junk data length 0 node.channel.metaData =
      some (0, md)

/-- The call has no effect on the stream. -/
def Idle (node : StreamNode) (call : Call) : Prop :=
  NotAppended node.channel.buffer call ∧ NothingToDo node call.alloc

/-- A video packet of another channel than the first one's finds nothing to do. -/
def Undisturbed (first : Received) (s : Session) (r : Received) : Prop :=
  sameChannel first r = false → isVideoPacket r.bytes = true → Idle s.node r.call

/-! ## Nodes that differ in nothing that is queued -/

/-- The metadata, as far as it matters: it is read only when the channel has
started. -/
def StreamChannel.metaUsed (ch : StreamChannel) : Option H264Meta :=
  if ch.started then some ch.metaData else none

/-- The nodes agree but for `channel.id`, and the metadata of a channel that has not
started. -/
structure Alike (n m : StreamNode) : Prop where
  wmark : n.wmark = m.wmark
  wmTime : n.wmTime = m.wmTime
  wmCount : n.wmCount = m.wmCount
  buffer : n.channel.buffer = m.channel.buffer
  started : n.channel.started = m.channel.started
  metaUsed : n.channel.metaUsed = m.channel.metaUsed
  naluList : n.naluList = m.naluList

/-- The node with other metadata. -/
def StreamNode.withMeta (node : StreamNode) (md : H264Meta) : StreamNode :=
  { node with channel := { node.channel with metaData := md } }

variable {n m k node : StreamNode} {call : Call}

namespace Alike

theorem refl (n : StreamNode) : Alike n n := ⟨rfl, rfl, rfl, rfl, rfl, rfl, rfl⟩

theorem symm (h : Alike n m) : Alike m n :=
  ⟨h.wmark.symm, h.wmTime.symm, h.wmCount.symm, h.buffer.symm, h.started.symm, h.metaUsed.symm,
    h.naluList.symm⟩

theorem trans (h : Alike n m) (h' : Alike m k) : Alike n k :=
  ⟨h.wmark.trans h'.wmark, h.wmTime.trans h'.wmTime, h.wmCount.trans h'.wmCount,
    h.buffer.trans h'.buffer, h.started.trans h'.started, h.metaUsed.trans h'.metaUsed,
    h.naluList.trans h'.naluList⟩

theorem withId (n : StreamNode) (id : Int) : Alike (n.withId id) n :=
  ⟨rfl, rfl, rfl, rfl, rfl, rfl, rfl⟩

theorem withMeta (hs : n.channel.started = false) (md : H264Meta) : Alike (n.withMeta md) n := by
  refine ⟨rfl, rfl, rfl, rfl, rfl, ?_, rfl⟩
  simp [StreamChannel.metaUsed, StreamNode.withMeta, hs]

/-- Nodes that agree differ in their metadata alone, once they have the same number. -/
theorem eq_withMeta (h : Alike n m) (id : Int) :
    n.withId id = (m.withId id).withMeta n.channel.metaData := by
  obtain ⟨hmark, htime, hcount, hbuf, hst, -, hlist⟩ := h
  cases n
  cases m
  simp only at hmark htime hcount hlist
  subst hmark htime hcount hlist
  simp only [StreamNode.withId, StreamNode.withMeta, StreamNode.mk.injEq, StreamChannel.mk.injEq,
    true_and, and_true]
  exact ⟨hbuf, hst⟩

/-- When they have started, they do not differ in that either. -/
theorem eq_of_started (h : Alike n m) (hs : n.channel.started = true) (id : Int) :
    n.withId id = m.withId id := by
  have hmeta := h.metaUsed
  rw [StreamChannel.metaUsed, StreamChannel.metaUsed, if_pos hs, if_pos (h.started.symm.trans hs)]
    at hmeta
  rw [h.eq_withMeta id, Option.some.inj hmeta]
  rfl

end Alike

theorem rel_refl (o : Option StreamNode) : Option.Rel Alike o o := by
  cases o with
  | none => exact .none
  | some node => exact .some (.refl node)

/-! ## One call -/

/-- A call is an append, a scan and an align. -/
theorem feed_eq (node : StreamNode) (call : Call) :
    feed node call =
      (timaBufferStrdup call.alloc.realloc node.channel.buffer call.body.bytes true).bind fun r =>
        ((channelScan call.alloc (node.withBuffer r.2)).bind channelAlign).map Prod.snd := by
  rw [feed, h264StreamProc, h264StreamScan, channelAppend]
  cases timaBufferStrdup call.alloc.realloc node.channel.buffer call.body.bytes true <;> rfl

theorem strdup_notAppended {b : TimaBuffer} (h : NotAppended b call) :
    ∃ r, timaBufferStrdup call.alloc.realloc b call.body.bytes true = some (r, b) := by
  by_cases hnil : call.body.bytes = []
  · rw [hnil]
    exact ⟨some 0, TimaBuffer.strdup_nil _⟩
  · obtain ⟨hshort, hrefused, h2⟩ := h.resolve_left hnil
    have hlen : call.body.bytes.length ≠ 0 := fun h0 => hnil (List.length_eq_zero_iff.mp h0)
    refine ⟨none, ?_⟩
    rw [TimaBuffer.Short] at hshort
    simp only [timaBufferStrdup, hlen, if_false, hshort, if_true, hrefused,
      TimaBuffer.expand_refused h2]

/-- Aligning at the front moves nothing. -/
theorem align_zero {b : TimaBuffer} (h : b.bufferUsed < b.buffer.length) :
    timaBufferAlign b 0 = some b := by
  rw [timaBufferAlign, if_pos (Nat.zero_le _), if_pos (by omega)]
  simp

/-- An idle call returns and changes nothing that is queued. -/
theorem Idle.feed (h : Idle node call) :
    ∃ node', feed node call = some node' ∧ Alike node' node := by
  obtain ⟨happ, hdo⟩ := h
  obtain ⟨r, hstrdup⟩ := strdup_notAppended happ
  rw [feed_eq, hstrdup, Option.bind_some]
  change ∃ node', ((channelScan call.alloc node).bind channelAlign).map Prod.snd = some node' ∧ _
  rw [channelScan]
  by_cases hs : node.channel.started = true
  · simp only [NothingToDo, hs, if_true] at hdo
    have hpass : naluPass (timaBufferData node.channel.buffer 0)
        (timaBufferUsed node.channel.buffer)
        { pos := 0, node := node, packs := call.alloc.packs, nodes := call.alloc.nodes } =
        .leave (some (.scanned node 0)) := by
      unfold naluPass
      split
      · rfl
      next len nalu hread =>
        rw [hread] at hdo
        cases hdo.1
    rw [if_pos hs, naluLoop, Loop.exec_leave _ hpass, Option.bind_some, channelAlign,
      align_zero hdo.2]
    exact ⟨node, rfl, .refl node⟩
  · have hs' : node.channel.started = false := Bool.not_eq_true _ ▸ hs
    simp only [NothingToDo, hs] at hdo
    obtain ⟨md, hget⟩ := hdo
    rw [if_neg hs, hget]
    exact ⟨node.withMeta md, rfl, .withMeta hs' md⟩

/-- Behind a start code the metadata before the call is not looked at. -/
theorem metadataGet_congr {calloc : Bool} {junk : H264Meta} {buffer : List UInt8} {size : Nat}
    (h : findStartCode buffer ≠ 0) (md md' : H264Meta) :
    h264MetadataGet calloc junk buffer size 0 md =
      h264MetadataGet calloc junk buffer size 0 md' := by
  simp only [h264MetadataGet, List.drop_zero, h, if_false]

/-- The scan of a channel that has not started does not depend on its metadata, but
may leave it as it was. -/
theorem channelScan_withMeta (hs : node.channel.started = false) (alloc : Alloc) (md : H264Meta) :
    channelScan alloc (node.withMeta md) = channelScan alloc node ∨
      channelScan alloc (node.withMeta md) = some (.failed (node.withMeta md)) ∧
        channelScan alloc node = some (.failed node) := by
  have hs' : ¬ node.channel.started = true := by rw [hs]; decide
  have hs₁ : ¬ (node.withMeta md).channel.started = true := hs'
  have hdata : timaBufferData (node.withMeta md).channel.buffer 0 =
      timaBufferData node.channel.buffer 0 := rfl
  rw [channelScan, channelScan, if_neg hs₁, if_neg hs', hdata]
  by_cases hcode : findStartCode (timaBufferData node.channel.buffer 0) = 0
  · rw [metadataGet_no_code hcode, metadataGet_no_code hcode]
    exact Or.inr ⟨rfl, rfl⟩
  · rw [metadataGet_congr hcode (node.withMeta md).channel.metaData node.channel.metaData]
    exact Or.inl rfl

/-- A call on a channel that has not started does the same whatever its metadata. -/
theorem feed_withMeta (hs : node.channel.started = false) (md : H264Meta) (call : Call) :
    Option.Rel Alike (feed (node.withMeta md) call) (feed node call) := by
  have hbuf : (node.withMeta md).channel.buffer = node.channel.buffer := rfl
  rw [feed_eq, feed_eq, hbuf]
  cases timaBufferStrdup call.alloc.realloc node.channel.buffer call.body.bytes true with
  | none => exact .none
  | some r =>
      have hs₁ : (node.withBuffer r.2).channel.started = false := hs
      rw [Option.bind_some, Option.bind_some]
      change Option.Rel Alike (((channelScan call.alloc
        ((node.withBuffer r.2).withMeta md)).bind channelAlign).map Prod.snd) _
      rcases channelScan_withMeta hs₁ call.alloc md with heq | ⟨hfail, hfail'⟩
      · rw [heq]
        exact rel_refl _
      · rw [hfail, hfail']
        exact .some (.withMeta hs₁ md)

/-- A call does the same on nodes that agree and have the same number. -/
theorem Alike.feed (h : Alike n m) (id : Int) (call : Call) :
    Option.Rel Alike (VmpSa.feed (n.withId id) call) (VmpSa.feed (m.withId id) call) := by
  cases hs : n.channel.started with
  | true =>
      rw [h.eq_of_started hs id]
      exact rel_refl _
  | false =>
      have hs' : (m.withId id).channel.started = false := h.started.symm.trans hs
      rw [h.eq_withMeta id]
      exact feed_withMeta hs' _ call

/-! ## One packet -/

variable {s t : Session} {r : Received}

theorem consume_channelId (conn : Conn) {p : List UInt8} (h : isVideoPacket p = true) :
    (conn.consume p).channelId = (readHeader p).channel.toNat := by
  rw [isVideoPacket, decide_eq_true_eq] at h
  change (handOver (queryOnce conn (readHeader p)) (readHeader p) (p.drop 30)).channelId = _
  rw [handOver, if_neg h.1, if_neg h.2]

/-- A packet does the same in sessions whose nodes agree. -/
theorem sessionStep_alike (h : Alike s.node t.node) (r : Received) :
    Option.Rel (fun s t => Alike s.node t.node) (sessionStep s r) (sessionStep t r) := by
  unfold sessionStep
  by_cases hv : isVideoPacket r.bytes = true
  · simp only [hv, if_true, consume_channelId _ hv]
    have hrel := h.feed (readHeader r.bytes).channel.toNat r.call
    generalize feed (s.node.withId (readHeader r.bytes).channel.toNat) r.call = n at hrel
    generalize feed (t.node.withId (readHeader r.bytes).channel.toNat) r.call = m at hrel
    cases hrel with
    | none => exact .none
    | some hR => exact .some hR
  · simp only [hv]
    exact .some ((Alike.withId _ _).trans (h.trans (Alike.withId _ _).symm))

/-- A packet of another channel leaves a node that agrees with the one before, if it
finds nothing to do. -/
theorem Undisturbed.step {first : Received} (h : Undisturbed first s r)
    (hother : sameChannel first r = false) :
    ∃ s', sessionStep s r = some s' ∧ Alike s'.node s.node := by
  unfold sessionStep
  by_cases hv : isVideoPacket r.bytes = true
  · have hidle : Idle (s.node.withId (s.conn.consume r.bytes).channelId) r.call := h hother hv
    obtain ⟨node', hfeed, hal⟩ := hidle.feed
    simp only [hv, if_true, hfeed, Option.map_some]
    exact ⟨_, rfl, hal.trans (.withId _ _)⟩
  · simp only [hv]
    exact ⟨_, rfl, .withId _ _⟩

/-! ## Whole sessions -/

/-- The connection of a session is what the input handler makes of its packets. -/
theorem run_conn : ∀ {rs : List Received} {s s' : Session},
    System.run sessionStep s rs = some s' →
      s'.conn = s.conn.consumeAll (rs.map Received.bytes)
  | [], _, _, h => by
      cases h
      rfl
  | r :: rs, s, s', h => by
      obtain ⟨s₁, hs₁, hrun⟩ := System.exists_step_of_run h
      have hconn : s₁.conn = s.conn.consume r.bytes := by
        simp only [sessionStep] at hs₁
        split at hs₁
        · obtain ⟨node, -, rfl⟩ := Option.map_eq_some_iff.mp hs₁
          rfl
        · cases hs₁
          rfl
      rw [run_conn hrun, hconn]
      rfl

/-- A session queues what its packets of the first packet's channel alone would
queue. -/
theorem run_sameChannel (first : Received) {rs : List Received}
    (hu : System.Along sessionStep (Undisturbed first) .init rs) :
    Option.Rel (fun s t => Alike s.node t.node) (System.run sessionStep .init rs)
      (System.run sessionStep .init (rs.filter (sameChannel first))) :=
  System.run_filter_rel (fun s t : Session => Alike s.node t.node) (sameChannel first)
    (fun _ _ r h _ => sessionStep_alike h r)
    (fun _ _ _ h hother hu => by
      obtain ⟨s', hs', hal⟩ := Undisturbed.step hu hother
      exact ⟨s', hs', hal.trans h⟩)
    (.refl _) hu

/-- Two sessions that begin with the same packet and agree on the packets of its
channel queue the same packets, if the video packets of other channels find
nothing to do. -/
theorem channels_do_not_mix (first : Received) (as bs : List Received)
    (hown : as.filter (sameChannel first) = bs.filter (sameChannel first))
    (ha : System.Along sessionStep (Undisturbed first) .init (first :: as))
    (hb : System.Along sessionStep (Undisturbed first) .init (first :: bs)) :
    (System.run sessionStep .init (first :: as)).map (·.node.naluList) =
      (System.run sessionStep .init (first :: bs)).map (·.node.naluList) := by
  have ra := run_sameChannel first ha
  have rb := run_sameChannel first hb
  rw [List.filter_cons, hown, ← List.filter_cons] at ra
  generalize System.run sessionStep .init (first :: as) = sa at ra
  generalize System.run sessionStep .init (first :: bs) = sb at rb
  generalize System.run sessionStep .init ((first :: bs).filter (sameChannel first)) = sc at ra rb
  cases ra with
  | none =>
      cases rb
      rfl
  | some hR =>
      cases rb with
      | some hR' => rw [Option.map_some, Option.map_some, hR.naluList, hR'.naluList]

/-! ## A stream and its neighbour -/

/-- A video packet of the device `013912345678` with every allocation granted. -/
def videoBytes (channel : UInt8) (body : List UInt8) : List UInt8 :=
  magicCode ++ ([0x81, 0x62, 0x00, 0x00, 0x01, 0x39, 0x12, 0x34, 0x56, 0x78, channel, 0x00] ++
    List.replicate 12 0 ++ [(body.length / 256).toUInt8, (body.length % 256).toUInt8]) ++ body

/-- Parameter sets, an IDR slice and the first byte of another slice, on channel 0. -/
def ownPacket : Received where
  bytes := videoBytes 0 constantSets
  frame := ⟨by decide, by decide, by decide⟩
  alloc := .grantAll

/-- A start code and the first byte of a slice, on channel 1. -/
def otherPacket : Received where
  bytes := videoBytes 1 [0, 0, 1, 0x41]
  frame := ⟨by decide, by decide, by decide⟩
  alloc := .grantAll

/-- A packet without a body, on channel 1. -/
def emptyPacket : Received where
  bytes := videoBytes 1 []
  frame := ⟨by decide, by decide, by decide⟩
  alloc := .grantAll

/-- The channel after the first packet: three packets are queued and the first byte
of a slice is pending. -/
theorem run_ownPacket :
    ∃ s, sessionStep .init ownPacket = some s ∧ s.node.naluList.length = 3 ∧
      Started s.node (metaPacket [0x67, 0x42, 0xc0, 0x1e] [0x68, 0xce]) ∧
      Pending s.node [0x41] := by
  obtain ⟨node, hfeed, hlen, hs, hp⟩ := feed_constantSets
  refine ⟨{ conn := Conn.init.consume ownPacket.bytes, node := node }, ?_, hlen, hs, hp⟩
  have hcall : ownPacket.call = firstCall constantSets (by decide) := rfl
  have hid : (Session.init.conn.consume ownPacket.bytes).channelId = 0 := by decide
  have hinit : Session.init.node.withId 0 = .init := rfl
  rw [sessionStep, if_pos (by decide), hid, hinit, hcall, hfeed]
  rfl

variable {x : List UInt8} {hdr : RtmpPacket}

theorem Pending.withId (h : Pending node x) (id : Int) : Pending (node.withId id) x :=
  ⟨h.holds, h.total, h.lt⟩

theorem Started.withId (h : Started node hdr) (id : Int) : Started (node.withId id) hdr :=
  ⟨h.started, h.header⟩

/-- The packet of the other channel completes the slice, and it is queued. -/
theorem other_channel_is_queued :
    ¬ ∀ (first : Received) (as bs : List Received),
      as.filter (sameChannel first) = bs.filter (sameChannel first) →
      (System.run sessionStep .init (first :: as)).map (·.node.naluList) =
        (System.run sessionStep .init (first :: bs)).map (·.node.naluList) := by
  intro h
  obtain ⟨s, hstep, hlen, hs, hp⟩ := run_ownPacket
  have hid : (s.conn.consume otherPacket.bytes).channelId = 1 :=
    consume_channelId s.conn (by decide)
  obtain ⟨b, -, -, hseen⟩ := append_granted otherPacket.call (hp.withId 1) (by decide)
    (fun _ => rfl)
  have horderly : Orderly (s.node.withId 1) otherPacket.call := by
    refine ⟨grantAll_succeeds, by rw [Clear, hseen]; decide, ?_⟩
    rw [Fits, (hp.withId 1).holds.used]
    decide
  obtain ⟨node', hfeed, -, hq, -⟩ := feed_orderly (hp.withId 1) (hs.withId 1) horderly
  have hother : sessionStep s otherPacket =
      some { conn := s.conn.consume otherPacket.bytes, node := node' } := by
    rw [sessionStep, if_pos (by decide), hid, hfeed]
    rfl
  have hrun := h ownPacket [] [otherPacket] rfl
  rw [System.run_cons hstep, System.run_cons hstep, System.run_cons hother, System.run_nil,
    System.run_nil, Option.map_some, Option.map_some] at hrun
  have hlist := congrArg List.length (Option.some.inj hrun)
  rw [hq, List.length_append, List.length_map] at hlist
  have hnone : (packets (metaPacket [0x67, 0x42, 0xc0, 0x1e] [0x68, 0xce])
      ([0x41] ++ otherPacket.call.body.bytes)).length = 1 := by decide
  change s.node.naluList.length = s.node.naluList.length + _ at hlist
  omega

/-- A packet without a body in the middle of the slice changes nothing. -/
theorem channels_do_not_mix_emptyPacket :
    ∃ queue, queue.length = 3 ∧
      (System.run sessionStep .init [ownPacket]).map (·.node.naluList) = some queue ∧
      (System.run sessionStep .init [ownPacket, emptyPacket]).map (·.node.naluList) =
        some queue := by
  obtain ⟨s, hstep, hlen, hs, hp⟩ := run_ownPacket
  have hidle : Idle s.node emptyPacket.call := by
    have hin := hp.holds.inUse
    have hroom := hp.holds.room
    refine ⟨Or.inl (by decide), ?_⟩
    simp only [NothingToDo, hs.started, if_true, timaBufferUsed, hp.holds.used]
    rw [naluRead_none hin.le (by rw [hin.dataFrom_eq]; decide)]
    exact ⟨rfl, hroom⟩
  have hsame := channels_do_not_mix ownPacket [] [emptyPacket] rfl
    (System.along_singleton.mpr fun h => absurd h (by decide))
    ((System.along_cons hstep).mpr
      ⟨fun h => absurd h (by decide), System.along_singleton.mpr fun _ _ => hidle⟩)
  have hrun : (System.run sessionStep .init [ownPacket]).map (·.node.naluList) =
      some s.node.naluList := by
    rw [System.run_cons hstep, System.run_nil, Option.map_some]
  exact ⟨s.node.naluList, hlen, hrun, hsame.symm.trans hrun⟩

end VmpSa
