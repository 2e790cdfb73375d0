import VmpSa.Rtmp.Publisher
import VmpSa.Stream.Session

/-!
# From the device to the player

The whole way of a video stream.  Chunks of bytes arrive on the connection of a
device, the input handler takes packets off them and gives their bodies to the
channel, the channel queues RTMP packets, and the publisher thread takes these from
the queue and hands them to librtmp.  The two threads run in any order
(`Relay.step`).  The queue is a list here; `Queue.step` is its code.

What the relay is for is said without packets, buffers and threads: a player gets a
sequence header and then the NALUs of the elementary stream, each IDR slice behind
another sequence header (`relayed`).  `relay_delivers` says that what librtmp has
been handed and what waits in the queue read back as just that, whatever chunks the
stream of a device comes in and whenever the publisher has its turn.
-/

namespace VmpSa

/-! ## The model -/

/-- The connection of a device, its stream node, the packets linked in the queue, and
the publisher. -/
structure Relay where
  conn : Conn
  node : StreamNode
  queue : List NalNode
  publish : PublishNode

/-- A chunk arrives, with the answers of the allocator to the packets it completes; or
the publisher thread goes round. -/
inductive RelayStep where
  | arrive (chunk : List UInt8) (allocs : Nat → Alloc)
  | publish (lib : LibRtmp)

/-- What `media_stream_proc` does to the stream node with a packet. -/
def takePacket (node : StreamNode) (p : List UInt8 × Alloc) : Option StreamNode :=
  if isVideoPacket p.1 then
    feed (node.withId (readHeader p.1).channel.toNat) { alloc := p.2, body := bodyOf p.1 }
  else some node

/-- The packets the handler takes off when a chunk arrives, with the answers of the
allocator. -/
def packetsTaken (conn : Conn) (chunk : List UInt8) (allocs : Nat → Alloc) :
    List (List UInt8 × Alloc) :=
  ((receive conn chunk).removed.drop conn.removed.length).zipIdx.map fun p => (p.1, allocs p.2)

def Relay.step (s : Relay) : RelayStep → Option Relay
  | .arrive chunk allocs =>
      (System.run takePacket s.node (packetsTaken s.conn chunk allocs)).map fun node =>
        { s with
          conn := receive s.conn chunk
          node := node
          queue := s.queue ++ node.naluList.drop s.node.naluList.length }
  | .publish lib =>
      (publishStep s.publish (.pass s.queue.head? lib)).map fun publish =>
        { s with queue := s.queue.tail, publish := publish }

/-- A fresh connection whose publisher is connected to a stream. -/
def Relay.init (streamId : Int) : Relay where
  conn := .init
  node := .init
  queue := []
  publish :=
    { publisher := some { mStreamId := streamId }
      traverse := true
      cond := true
      sent := []
      closes := 0 }

/-! ## What the relay is for -/

/-- An AVC video tag. -/
inductive AvcTag where
  | header (conf : DecoderConfiguration)
  | nalu (tag : NaluTag)
deriving Repr, DecidableEq

/-- The packet type says which of the two a tag is. -/
def readTag (x : List UInt8) : Option AvcTag :=
  if x.getD 1 0 = 0 then (readSequenceHeader x).map .header else (readNaluTag x).map .nalu

/-- What a player is told about two parameter sets. -/
def configuration (sps pps : List UInt8) : DecoderConfiguration where
  profile := sps.getD 1 0
  compatibility := sps.getD 2 0
  level := sps.getD 3 0
  lengthSize := 4
  sps := [sps]
  pps := [pps]

/-- The tags of a NALU. -/
def tagsOf (conf : DecoderConfiguration) (n : List UInt8) : List AvcTag :=
  let tag := AvcTag.nalu
    { frame := frameByte n, compositionTime := 0, length := n.length, payload := n }
  if naluTypeOf n = 0x05 then [.header conf, tag]
  else if naluTypeOf n = 0x07 ∨ naluTypeOf n = 0x08 ∨ naluTypeOf n = 0x06 then []
  else [tag]

/-- The tags of an elementary stream that begins with parameter sets.  Its first three
NALUs are the empty one in front of the first code and the two sets. -/
def relayed (conf : DecoderConfiguration) : List (List UInt8) → List AvcTag
  | [] => []
  | body :: bodies =>
      .header conf :: ((startCode.tokens (body ++ bodies.flatten)).drop 3).flatMap (tagsOf conf)

/-- The video bodies of some packets. -/
def videoBodies (ps : List Packet) : List (List UInt8) :=
  (ps.filter Packet.isVideo).map Packet.body

/-- The stream of a device: it begins with parameter sets, the length of the SPS can be
read back, no video body ends with a start code of four bytes, and the NALUs fit an
`int`. -/
structure DeviceStream (ps : List Packet) (sps pps : List UInt8) : Prop where
  sets : ∀ body ∈ (videoBodies ps).head?, ∃ pos, ParameterSets body sps pps pos
  sps_long : 4 ≤ sps.length
  sps_read : sps.length % 256 < 128
  clear : ∀ bodies, bodies <+: videoBodies ps → ¬ EndsWithCode bodies.flatten
  short : ∀ bodies, bodies <+: videoBodies ps →
    (startCode.residue bodies.flatten).length < 2 ^ 30

/-- The bytes that arrive in a step. -/
def RelayStep.bytes : RelayStep → List UInt8
  | .arrive chunk _ => chunk
  | .publish _ => []

/-- The bytes that arrive. -/
def arrived (as : List RelayStep) : List UInt8 := as.flatMap RelayStep.bytes

/-- The allocator grants what it is asked for, and librtmp is connected. -/
def RelayStep.Served : RelayStep → Prop
  | .arrive _ allocs => ∀ i, (allocs i).Succeeds
  | .publish lib => lib.isConnected = true

/-! ## Tags read back -/

variable {sps pps x y body : List UInt8} {pos : Nat} {node node' : StreamNode} {call : Call}
  {ps : List Packet} {bodies : List (List UInt8)}

theorem readTag_metaPacket (hs : sps.length < 2 ^ 16) (hp : pps.length < 2 ^ 16) :
    readTag (metaPacket sps pps).body = some (.header (configuration sps pps)) := by
  rw [metaPacket_body, readTag]
  have htype : (metaBody sps pps).getD 1 0 = 0 := rfl
  rw [if_pos htype, readSequenceHeader_metaBody hs hp]
  rfl

theorem readTag_dataPacket {n : List UInt8} (h : n.length < 2 ^ 31) :
    readTag (dataPacket n).body = some (.nalu
      { frame := frameByte n, compositionTime := 0, length := n.length, payload := n }) := by
  rw [dataPacket_body, readTag]
  have htype : (dataBody n).getD 1 0 ≠ 0 := by
    change (0x01 : UInt8) ≠ 0
    decide
  rw [if_neg htype, readNaluTag_dataBody h]
  rfl

theorem readTag_packetsOf (hs : sps.length < 2 ^ 16) (hp : pps.length < 2 ^ 16) {n : List UInt8}
    (h : n.length < 2 ^ 31) :
    (packetsOf (metaPacket sps pps) n).map (fun p => readTag p.body) =
      (tagsOf (configuration sps pps) n).map some := by
  rw [packetsOf, tagsOf]
  split
  · simp [readTag_metaPacket hs hp, readTag_dataPacket h]
  · split
    · rfl
    · simp [readTag_dataPacket h]

/-- The packets of the NALUs of a byte string read back as their tags. -/
theorem readTag_packets (hs : sps.length < 2 ^ 16) (hp : pps.length < 2 ^ 16)
    (hx : x.length < 2 ^ 31) :
    (packets (metaPacket sps pps) x).map (fun p => readTag p.body) =
      ((startCode.tokens x).flatMap (tagsOf (configuration sps pps))).map some := by
  have hshort : ∀ n ∈ startCode.tokens x, n.length < 2 ^ 31 := fun n hn =>
    Nat.lt_of_le_of_lt (Delimiter.length_le_of_mem_tokens hn) hx
  rw [packets]
  generalize startCode.tokens x = ns at hshort ⊢
  induction ns with
  | nil => rfl
  | cons n ns ih =>
      rw [List.flatMap_cons, List.flatMap_cons, List.map_append, List.map_append,
        readTag_packetsOf hs hp (hshort n List.mem_cons_self),
        ih fun m hm => hshort m (List.mem_cons_of_mem n hm)]

/-! ## The elementary stream -/

/-- One more body adds the tags of the NALUs it completes. -/
theorem relayed_append (conf : DecoderConfiguration) {body' : List UInt8}
    (h : ParameterSets body sps pps pos) :
    relayed conf (body :: bodies ++ [body']) = relayed conf (body :: bodies) ++
      (startCode.tokens (startCode.residue (body :: bodies).flatten ++ body')).flatMap
        (tagsOf conf) := by
  obtain ⟨more, hmore⟩ : ∃ more, startCode.tokens (body ++ bodies.flatten) =
      [] :: sps :: pps :: more := ⟨_, by rw [Delimiter.tokens_append, h.split.1]; rfl⟩
  have hflat : body ++ (bodies ++ [body']).flatten = body ++ bodies.flatten ++ body' := by
    rw [List.flatten_append, List.flatten_singleton, List.append_assoc]
  rw [List.cons_append, relayed, hflat, Delimiter.tokens_append, hmore, relayed, hmore]
  simp

/-! ## The channel -/

/-- What has become of the stream node after some video bodies. -/
structure Carries (sps pps : List UInt8) (bodies : List (List UInt8)) (node : StreamNode) :
    Prop where
  waiting : bodies = [] → Waiting node []
  started : bodies ≠ [] → Started node (metaPacket sps pps) ∧
    Pending node (startCode.residue bodies.flatten)
  queued : node.naluList.map (fun e => readTag e.package.body) =
    (relayed (configuration sps pps) bodies).map some

theorem carries_init (sps pps : List UInt8) : Carries sps pps [] .init :=
  ⟨fun _ => waiting_init, fun h => absurd rfl h, rfl⟩

theorem Waiting.withId {z : List UInt8} (h : Waiting node z) (id : Int) :
    Waiting (node.withId id) z :=
  ⟨h.started, h.pending.withId id, h.padded⟩

/-- A body that begins with parameter sets starts the channel. -/
theorem feed_starting (hw : Waiting node []) (ha : call.alloc.Succeeds)
    (hend : ¬ EndsWithCode call.body.bytes) (hsets : ParameterSets call.body.bytes sps pps pos)
    (h4 : 4 ≤ sps.length) (hs : sps.length < 2 ^ 16) (hp : pps.length < 2 ^ 16)
    (hlen : Packager.metaSpsLen (metaLayout sps pps) = sps.length) :
    ∃ node', feed node call = some node' ∧
      node'.naluList = node.naluList ++ (metaPacket sps pps ::
        packets (metaPacket sps pps) (call.body.bytes.drop pos)).map (nalNode node.channel.id) ∧
      Started node' (metaPacket sps pps) ∧
      Pending node' (startCode.residue (call.body.bytes.drop pos)) := by
  have hshort := call.body.short
  obtain ⟨u, v, h₁, h₂, hpos, hle⟩ := hsets.cuts
  have hcode : findStartCode call.body.bytes ≠ 0 := by
    obtain ⟨c, c₁, c₂, rest, hc, -, -, hx, -⟩ := hsets.layout
    rw [hx, findStartCode_append_code hc]
    rcases hc with rfl | rfl <;> simp
  have hlt : ([] ++ call.body.bytes).length + 67 < 2 ^ 31 := by
    rw [List.nil_append]
    omega
  have hmeta := startMeta_pair hw ha hend hlt hcode h₁ h₂ hsets.sps_type hsets.pps_type
  rw [List.nil_append, ← hpos] at hmeta
  have hall : ∀ y, ServesAll (call.alloc.packs.drop 1) (metaPacket sps pps) y :=
    servesAll_of_granted fun b hb => ha.packs b (List.mem_of_mem_drop hb)
  have hpack : nextAnswer call.alloc.packs = true := nextAnswer_of_granted ha.packs
  obtain ⟨node', hproc, hs', -, hq, hp'⟩ := proc_starting call hw (fun _ => ha.realloc) ha.nodes
    hend hlt hmeta (by omega) hle (rtmpMetaPack_metaPacket h4 hs hp hlen) hpack
  rw [servedPackets_of_all (hall _)] at hq
  rw [if_pos (hall _)] at hp'
  exact ⟨node', by rw [feed, hproc, Option.map_some], hq, hs', hp'⟩

theorem ParameterSets.length_le (h : ParameterSets x sps pps pos) :
    sps.length + pps.length ≤ x.length := by
  obtain ⟨c, c₁, c₂, rest, -, -, -, hx, -⟩ := h.layout
  rw [hx]
  simp only [List.length_append]
  omega

theorem length_of_mem_videoBodies (h : body ∈ videoBodies ps) : body.length ≤ 950 := by
  obtain ⟨p, -, rfl⟩ := List.mem_map.mp h
  have hlen := p.length
  have hle := p.body_le
  rw [Packet.body, List.length_drop]
  omega

/-- The sets of a device's stream fit into its first body, and `rtmp_metadata` reads the
length of the SPS right. -/
theorem DeviceStream.sets_fit (h : DeviceStream ps sps pps)
    (hbody : body ∈ (videoBodies ps).head?) :
    sps.length < 2 ^ 16 ∧ pps.length < 2 ^ 16 ∧
      Packager.metaSpsLen (metaLayout sps pps) = sps.length := by
  obtain ⟨pos, hsets⟩ := h.sets body hbody
  have hle := hsets.length_le
  have h950 := length_of_mem_videoBodies (List.mem_of_mem_head? hbody)
  refine ⟨by omega, by omega, ?_⟩
  rcases metaSpsLen_cases sps pps (by omega) with ⟨-, -, hlen⟩ | ⟨hnot, -⟩
  · exact hlen
  · exact absurd ⟨h.sps_read, by omega⟩ hnot

/-- The first body. -/
theorem Carries.start (h : Carries sps pps [] node) (hstream : DeviceStream ps sps pps)
    (hpre : [call.body.bytes] <+: videoBodies ps) (ha : call.alloc.Succeeds) (id : Int) :
    ∃ node', feed (node.withId id) call = some node' ∧ node.naluList <+: node'.naluList ∧
      Carries sps pps [call.body.bytes] node' := by
  have hhead : call.body.bytes ∈ (videoBodies ps).head? := by
    obtain ⟨more, hmore⟩ := hpre
    rw [← hmore]
    rfl
  obtain ⟨pos, hsets⟩ := hstream.sets _ hhead
  obtain ⟨hs, hp, hlen⟩ := hstream.sets_fit hhead
  have hend : ¬ EndsWithCode call.body.bytes := by
    have := hstream.clear _ hpre
    rwa [List.flatten_singleton] at this
  obtain ⟨node', hfeed, hq, hst, hpend⟩ :=
    feed_starting ((h.waiting rfl).withId id) ha hend hsets hstream.sps_long hs hp hlen
  obtain ⟨htokens, hresidue⟩ := hsets.split
  refine ⟨node', hfeed, ⟨_, hq.symm⟩, fun hnil => absurd hnil (by simp), fun _ => ⟨hst, ?_⟩, ?_⟩
  · rwa [List.flatten_singleton, hresidue]
  · have hdrop : (call.body.bytes.drop pos).length < 2 ^ 31 := by
      have hshort := call.body.short
      rw [List.length_drop]
      omega
    have hread := readTag_packets hs hp hdrop
    have hold : (node.withId id).naluList.map (fun e => readTag e.package.body) = [] := h.queued
    rw [hq, List.map_append, hold, List.nil_append, List.map_map, List.map_cons, relayed,
      List.flatten_nil, List.append_nil, htokens, List.map_cons]
    exact congr (congrArg List.cons (readTag_metaPacket hs hp)) hread

/-- A body behind the first. -/
theorem Carries.next (h : Carries sps pps bodies node) (hne : bodies ≠ [])
    (hstream : DeviceStream ps sps pps) (hpre : bodies ++ [call.body.bytes] <+: videoBodies ps)
    (ha : call.alloc.Succeeds) (id : Int) :
    ∃ node', feed (node.withId id) call = some node' ∧ node.naluList <+: node'.naluList ∧
      Carries sps pps (bodies ++ [call.body.bytes]) node' := by
  obtain ⟨hst, hpend⟩ := h.started hne
  obtain ⟨body, rest, rfl⟩ := List.exists_cons_of_ne_nil hne
  have hhead : body ∈ (videoBodies ps).head? := by
    obtain ⟨more, hmore⟩ := hpre
    rw [← hmore]
    rfl
  obtain ⟨pos, hsets⟩ := hstream.sets body hhead
  obtain ⟨hs, hp, -⟩ := hstream.sets_fit hhead
  have hlt := hstream.short _ ((List.prefix_append ..).trans hpre)
  have hshort := call.body.short
  have hend : ¬ EndsWithCode
      (startCode.residue (body :: rest).flatten ++ call.body.bytes) := by
    intro hend
    refine hstream.clear _ hpre ?_
    rw [List.flatten_append, List.flatten_singleton]
    obtain ⟨front, hfront⟩ := startCode.residue_suffix (body :: rest).flatten
    refine hend.trans ⟨front, ?_⟩
    rw [← List.append_assoc, hfront]
  have horderly : Orderly (node.withId id) call := by
    obtain ⟨b, -, -, hseen⟩ := append_granted call (hpend.withId id) (by omega)
      (fun _ => ha.realloc)
    refine ⟨ha, by rwa [Clear, hseen], ?_⟩
    rw [Fits, (hpend.withId id).holds.used]
    omega
  obtain ⟨node', hfeed, hsame, hq, hpend'⟩ :=
    feed_orderly (hpend.withId id) (hst.withId id) horderly
  refine ⟨node', hfeed, ⟨_, hq.symm⟩, fun hnil => absurd hnil (by simp),
    fun _ => ⟨(hst.withId id).of_same hsame, ?_⟩, ?_⟩
  · rwa [List.flatten_append, List.flatten_singleton, Delimiter.residue_append]
  · have hread := readTag_packets hs hp
      (x := startCode.residue (body :: rest).flatten ++ call.body.bytes)
      (by rw [List.length_append]; omega)
    have hold : (node.withId id).naluList.map (fun e => readTag e.package.body) =
        (relayed (configuration sps pps) (body :: rest)).map some := h.queued
    rw [hq, List.map_append, hold, List.map_map, relayed_append _ hsets, List.map_append]
    exact congrArg _ hread

/-- The step: a video body is fed to the channel. -/
theorem Carries.feed (h : Carries sps pps bodies node) (hstream : DeviceStream ps sps pps)
    (hpre : bodies ++ [call.body.bytes] <+: videoBodies ps) (ha : call.alloc.Succeeds) (id : Int) :
    ∃ node', VmpSa.feed (node.withId id) call = some node' ∧ node.naluList <+: node'.naluList ∧
      Carries sps pps (bodies ++ [call.body.bytes]) node' := by
  cases bodies with
  | nil => exact h.start hstream hpre ha id
  | cons body rest => exact h.next (List.cons_ne_nil body rest) hstream hpre ha id

/-! ## The handler -/

theorem present_isPrefix : ∀ (ps : List Packet) (n : Nat), present ps n <+: ps
  | [], _ => List.prefix_rfl
  | p :: ps, n => by
      rw [present]
      split
      · exact List.prefix_cons_inj p |>.mpr (present_isPrefix ps _)
      · exact List.nil_prefix

theorem present_mono : ∀ (ps : List Packet) {n m : Nat}, n ≤ m → present ps n <+: present ps m
  | [], _, _, _ => List.prefix_rfl
  | p :: ps, n, m, h => by
      rw [present, present]
      split
      · rw [if_pos (by omega)]
        exact List.prefix_cons_inj p |>.mpr (present_mono ps (by omega))
      · exact List.nil_prefix

theorem bodyOf_packet (p : Packet) : (bodyOf p.bytes).bytes = p.body := by
  have hlen := p.length
  exact List.take_of_length_le (by rw [List.length_drop]; omega)

/-- Packets taken one after the other. -/
theorem Carries.run (hstream : DeviceStream ps sps pps) : ∀ {qs : List Packet}
    {taken : List (List UInt8 × Alloc)} {bodies : List (List UInt8)} {node : StreamNode},
    taken.map Prod.fst = qs.map Packet.bytes → (∀ t ∈ taken, t.2.Succeeds) →
    bodies ++ videoBodies qs <+: videoBodies ps → Carries sps pps bodies node →
    ∃ node', System.run takePacket node taken = some node' ∧ node.naluList <+: node'.naluList ∧
      Carries sps pps (bodies ++ videoBodies qs) node'
  | [], [], bodies, node, _, _, _, h => ⟨node, rfl, List.prefix_rfl, by rwa [videoBodies,
      List.filter_nil, List.map_nil, List.append_nil]⟩
  | q :: qs, t :: taken, bodies, node, htaken, ha, hpre, h => by
      obtain ⟨hq, htaken⟩ := List.cons.inj htaken
      have ha' := fun t ht => ha t (List.mem_cons_of_mem _ ht)
      have hkind : isVideoPacket q.bytes = q.isVideo := rfl
      cases hv : q.isVideo with
      | false =>
          have hstep : takePacket node t = some node := by
            rw [takePacket, hq, hkind, hv]
            rfl
          have hskip : videoBodies (q :: qs) = videoBodies qs := by
            rw [videoBodies, List.filter_cons_of_neg (by simp [hv]), videoBodies]
          rw [hskip] at hpre ⊢
          rw [System.run_cons hstep]
          exact Carries.run hstream htaken ha' hpre h
      | true =>
          have hsplit : bodies ++ videoBodies (q :: qs) =
              bodies ++ [q.body] ++ videoBodies qs := by
            rw [videoBodies, List.filter_cons_of_pos hv, videoBodies, List.map_cons,
              List.append_assoc, List.singleton_append]
          have hbody : (bodyOf t.1).bytes = q.body := by rw [hq, bodyOf_packet]
          rw [hsplit, ← hbody] at hpre ⊢
          have hfirst : bodies ++ [({ alloc := t.2, body := bodyOf t.1 } : Call).body.bytes] <+:
              videoBodies ps := (List.prefix_append ..).trans hpre
          obtain ⟨node₁, hfeed, hlist, h₁⟩ :=
            h.feed hstream hfirst (ha t List.mem_cons_self) (readHeader t.1).channel.toNat
          have hstep : takePacket node t = some node₁ := by
            rw [takePacket, hq, hkind, hv, if_pos rfl, ← hq]
            exact hfeed
          obtain ⟨node', hrun, hlist', h'⟩ := Carries.run hstream htaken ha' hpre h₁
          exact ⟨node', by rw [System.run_cons hstep, hrun], hlist.trans hlist', h'⟩

/-! ## Both threads -/

/-- What holds after the bytes `z` have arrived, however often the publisher has had
its turn. -/
structure Relay.Delivers (ps : List Packet) (sps pps z : List UInt8) (s : Relay) : Prop where
  framed : Framed .init z s.conn
  carries : Carries sps pps (videoBodies (present ps z.length)) s.node
  linked : s.publish.sent.map (·.packet.body) ++ s.queue.map (·.package.body) =
    s.node.naluList.map (·.package.body)
  connected : s.publish.publisher.isSome = true
  traverse : s.publish.traverse = true
  cond : s.publish.cond = true

variable {z chunk : List UInt8} {allocs : Nat → Alloc} {lib : LibRtmp} {s : Relay}

theorem delivers_init (ps : List Packet) (sps pps : List UInt8) (streamId : Int) :
    (Relay.init streamId).Delivers ps sps pps [] where
  framed := ⟨rfl, rfl, rfl⟩
  carries := by
    have hnone : present ps 0 = [] := by
      cases ps with
      | nil => rfl
      | cons p ps =>
          have hlen := p.length
          rw [present, if_neg (by omega)]
    rw [List.length_nil, hnone]
    exact carries_init sps pps
  linked := rfl
  connected := rfl
  traverse := rfl
  cond := rfl

/-- A chunk arrives. -/
theorem Relay.Delivers.arrive (h : s.Delivers ps sps pps z) (hstream : DeviceStream ps sps pps)
    (hz : z ++ chunk <+: (ps.map Packet.bytes).flatten) (ha : ∀ i, (allocs i).Succeeds) :
    ∃ s', s.step (.arrive chunk allocs) = some s' ∧ s'.Delivers ps sps pps (z ++ chunk) := by
  have hitems := items_of_take hz
  have hframed : Framed .init (z ++ chunk) (receive s.conn chunk) := by
    refine h.framed.receive fun q hq => ?_
    rw [hitems] at hq
    obtain ⟨p, -, rfl⟩ := List.mem_map.mp hq
    have hlen := p.length
    have hpos := p.body_pos
    omega
  obtain ⟨new, hnew⟩ := present_mono ps
    (show z.length ≤ (z ++ chunk).length by rw [List.length_append]; omega)
  have htaken : (packetsTaken s.conn chunk allocs).map Prod.fst = new.map Packet.bytes := by
    rw [packetsTaken, hframed.removed, h.framed.removed, hitems,
      items_of_take ((List.prefix_append ..).trans hz), ← hnew, List.map_append]
    simp [Function.comp_def]
  have hgranted : ∀ t ∈ packetsTaken s.conn chunk allocs, t.2.Succeeds := by
    intro t ht
    obtain ⟨p, -, rfl⟩ := List.mem_map.mp ht
    exact ha p.2
  have hbodies : videoBodies (present ps z.length) ++ videoBodies new =
      videoBodies (present ps (z ++ chunk).length) := by
    rw [← hnew, videoBodies, videoBodies, videoBodies, List.filter_append, List.map_append]
  have hpre : videoBodies (present ps (z ++ chunk).length) <+: videoBodies ps :=
    ((present_isPrefix ps _).filter _).map _
  obtain ⟨node', hrun, ⟨more, hmore⟩, hc⟩ :=
    Carries.run hstream htaken hgranted (hbodies ▸ hpre) h.carries
  rw [hbodies] at hc
  have hstep : s.step (.arrive chunk allocs) = some
      { s with
        conn := receive s.conn chunk
        node := node'
        queue := s.queue ++ node'.naluList.drop s.node.naluList.length } := by
    rw [Relay.step, hrun, Option.map_some]
  refine ⟨_, hstep, hframed, hc, ?_, h.connected, h.traverse, h.cond⟩
  simp only
  rw [← hmore, List.drop_left, List.map_append, List.map_append, ← List.append_assoc, h.linked]

/-- A pass of a connected publisher hands over the packet it is given, but for its
stamp and its stream, and stays connected. -/
theorem rtmaPublishProc_connected {thiz : PublishNode} (hc : thiz.publisher.isSome = true)
    (ht : thiz.traverse = true) (hlib : lib.isConnected = true) (e : Option NalNode) :
    ((rtmaPublishProc thiz e lib).sent.map (·.packet.body) =
        thiz.sent.map (·.packet.body) ++ e.toList.map (·.package.body)) ∧
      (rtmaPublishProc thiz e lib).publisher = thiz.publisher ∧
      (rtmaPublishProc thiz e lib).traverse = thiz.traverse ∧
      (rtmaPublishProc thiz e lib).cond = thiz.cond := by
  obtain ⟨publisher, hpublisher⟩ := Option.isSome_iff_exists.mp hc
  rw [rtmaPublishProc, if_pos ht]
  cases e with
  | none => exact ⟨(List.append_nil _).symm, rfl, rfl, rfl⟩
  | some e =>
      refine ⟨?_, rfl, rfl, rfl⟩
      simp only [listTraverse, rtmpStreamPub, timaRtmpSend, hpublisher, if_pos hlib,
        List.map_append]
      rfl

/-- The publisher goes round. -/
theorem Relay.Delivers.publish (h : s.Delivers ps sps pps z) (hlib : lib.isConnected = true) :
    ∃ s', s.step (.publish lib) = some s' ∧ s'.Delivers ps sps pps z := by
  obtain ⟨hsent, hpublisher, htraverse, hcond⟩ :=
    rtmaPublishProc_connected h.connected h.traverse hlib s.queue.head?
  have hstep : s.step (.publish lib) = some
      { s with
        queue := s.queue.tail
        publish := rtmaPublishProc s.publish s.queue.head? lib } := by
    rw [Relay.step, publishStep, if_pos h.cond, Option.map_some]
  refine ⟨_, hstep, h.framed, h.carries, ?_, by rw [hpublisher, h.connected],
    htraverse.trans h.traverse, hcond.trans h.cond⟩
  have hqueue : s.queue.head?.toList ++ s.queue.tail = s.queue := by
    cases s.queue <;> rfl
  simp only [hsent]
  rw [List.append_assoc, ← List.map_append, hqueue, h.linked]

/-! ## Whole runs -/

/-- The run. -/
theorem run_delivers (hstream : DeviceStream ps sps pps) (streamId : Int) {as : List RelayStep}
    (hz : arrived as <+: (ps.map Packet.bytes).flatten) (hserved : ∀ a ∈ as, a.Served) :
    ∃ s, System.run Relay.step (Relay.init streamId) as = some s ∧
      s.Delivers ps sps pps (arrived as) := by
  induction as using List.reverseRecOn with
  | nil => exact ⟨_, rfl, delivers_init ps sps pps streamId⟩
  | append_singleton as a ih =>
      have hsplit : arrived (as ++ [a]) = arrived as ++ a.bytes := by simp [arrived]
      rw [hsplit] at hz ⊢
      obtain ⟨s, hrun, hs⟩ := ih ((List.prefix_append ..).trans hz)
        fun b hb => hserved b (List.mem_append_left _ hb)
      have ha := hserved a (by simp)
      obtain ⟨s', hs', hd⟩ : ∃ s', s.step a = some s' ∧
          s'.Delivers ps sps pps (arrived as ++ a.bytes) := by
        cases a with
        | arrive chunk allocs => exact hs.arrive hstream hz ha
        | publish lib => simpa [RelayStep.bytes] using hs.publish ha
      exact ⟨s', by rw [System.run_append hrun, System.run_cons hs', System.run_nil], hd⟩

/-- What librtmp has been handed, followed by what waits in the queue, reads back as
the tags of the NALUs in the packets that have arrived whole: however the stream of the
device is cut into chunks, and however the two threads take turns. -/
theorem relay_delivers (ps : List Packet) (sps pps : List UInt8)
    (hstream : DeviceStream ps sps pps) (streamId : Int) (as : List RelayStep)
    (hz : arrived as <+: (ps.map Packet.bytes).flatten) (hserved : ∀ a ∈ as, a.Served) :
    ∃ s, System.run Relay.step (Relay.init streamId) as = some s ∧
      (s.publish.sent.map (·.packet.body) ++ s.queue.map (·.package.body)).map readTag =
        (relayed (configuration sps pps)
          (videoBodies (present ps (arrived as).length))).map some := by
  obtain ⟨s, hrun, hs⟩ := run_delivers hstream streamId hz hserved
  refine ⟨s, hrun, ?_⟩
  rw [hs.linked, List.map_map]
  exact hs.carries.queued

/-- A device that sends one packet. -/
def onePacket : Packet where
  bytes := videoBytes 0 constantSets
  magic := by decide
  body_pos := by decide
  body_le := by decide
  length := by decide

theorem deviceStream_onePacket :
    DeviceStream [onePacket] [0x67, 0x42, 0xc0, 0x1e] [0x68, 0xce] := by
  have hbodies : videoBodies [onePacket] = [constantSets] := by decide
  have hcases : ∀ bodies, bodies <+: [constantSets] → bodies = [] ∨ bodies = [constantSets] := by
    intro bodies hb
    rcases List.prefix_cons_iff.mp hb with rfl | ⟨t, rfl, ht⟩
    · exact .inl rfl
    · rw [List.prefix_nil.mp ht]
      exact .inr rfl
  refine ⟨fun body hbody => ?_, by decide, by decide, fun bodies hb => ?_, fun bodies hb => ?_⟩
  · rw [hbodies] at hbody
    cases hbody
    exact ⟨_, ParameterSets.of_cuts (c := [0, 0, 1]) (.inl rfl) constantSets_sps constantSets_pps
      (by decide) (by decide)⟩
  · rw [hbodies] at hb
    rcases hcases bodies hb with rfl | rfl <;> decide
  · rw [hbodies] at hb
    rcases hcases bodies hb with rfl | rfl <;> decide

/-- The packet in two chunks, and three passes of the publisher. -/
def relaySteps : List RelayStep :=
  let lib : LibRtmp := { getTime := 40, isConnected := true, sendPacket := true }
  [.arrive (onePacket.bytes.take 20) fun _ => .grantAll, .publish lib,
    .arrive (onePacket.bytes.drop 20) fun _ => .grantAll, .publish lib, .publish lib]

theorem relay_delivers_onePacket :
    ∃ s, System.run Relay.step (Relay.init 1) relaySteps = some s ∧
      (s.publish.sent.map (·.packet.body) ++ s.queue.map (·.package.body)).map readTag =
        [some (.header (configuration [0x67, 0x42, 0xc0, 0x1e] [0x68, 0xce])),
          some (.header (configuration [0x67, 0x42, 0xc0, 0x1e] [0x68, 0xce])),
          some (.nalu
            { frame := 0x17, compositionTime := 0, length := 2, payload := [0x65, 0x88] })] := by
  obtain ⟨s, hrun, hsent⟩ := relay_delivers [onePacket] [0x67, 0x42, 0xc0, 0x1e] [0x68, 0xce]
    deviceStream_onePacket 1 relaySteps (by decide) (by
      intro a ha
      simp only [relaySteps, List.mem_cons, List.not_mem_nil, or_false] at ha
      rcases ha with rfl | rfl | rfl | rfl | rfl
      · exact fun _ => grantAll_succeeds
      · rfl
      · exact fun _ => grantAll_succeeds
      · rfl
      · rfl)
  refine ⟨s, hrun, hsent.trans ?_⟩
  decide

end VmpSa
