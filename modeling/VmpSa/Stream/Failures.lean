import VmpSa.Stream.Start

/-!
# Packaging failures

What is left of the stream when the allocator refuses a request.  A call that
returns `-1` has not aligned the buffer, so the next call scans the same bytes
again from the front.  That does no harm as long as the call had not queued a
data packet before it failed; else the NALUs already queued are queued again.
A body whose append is refused is lost, since its bytes have left the socket
by then.

`Resumable` says that the data packets queued so far, followed by those of the
NALUs still in the buffer, are the data packets of the NALUs received.  So each
NALU is queued at most once, in order and whole, and the next call resumes at
the first one that is not queued yet.
-/

namespace VmpSa

/-! ## Data packets -/

/-- The data packets among some packets.  A sequence header is of medium type. -/
def dataOf (pkts : List RtmpPacket) : List RtmpPacket :=
  pkts.filter (·.mHeaderType = .large)

/-- The data packets a node has queued so far. -/
def queuedData (node : StreamNode) : List RtmpPacket := dataOf (node.naluList.map (·.package))

/-- The NALUs that get a data packet. -/
def isFrame (n : List UInt8) : Bool :=
  ¬ (naluTypeOf n = 0x07 ∨ naluTypeOf n = 0x08 ∨ naluTypeOf n = 0x06)

/-- The data packets of the complete NALUs of a byte string. -/
def framePackets (x : List UInt8) : List RtmpPacket :=
  ((startCode.tokens x).filter isFrame).map dataPacket

theorem dataOf_append (p q : List RtmpPacket) : dataOf (p ++ q) = dataOf p ++ dataOf q :=
  List.filter_append ..

theorem map_package_nalNode (cid : Int) (pkts : List RtmpPacket) :
    (pkts.map (nalNode cid)).map (·.package) = pkts := by
  rw [List.map_map]
  exact List.map_id pkts

variable {node node' : StreamNode} {x y z p : List UInt8} {call : Call} {hdr : RtmpPacket}

theorem queuedData_append {cid : Int} {pkts : List RtmpPacket}
    (h : node'.naluList = node.naluList ++ pkts.map (nalNode cid)) :
    queuedData node' = queuedData node ++ dataOf pkts := by
  rw [queuedData, h, List.map_append, dataOf_append, map_package_nalNode, queuedData]

/-- The sequence header is no data packet. -/
theorem HeaderIs.medium {ch : StreamChannel} (h : HeaderIs ch hdr) :
    hdr.mHeaderType = .medium := by
  unfold HeaderIs rtmpMetaPack at h
  obtain ⟨packet, -, hpacket⟩ := Option.bind_eq_some_iff.mp h
  cases packet with
  | none => cases hpacket
  | some area =>
      cases hd : ch.metaData.data with
      | none => rw [hd] at hpacket; cases hpacket
      | some data =>
          rw [hd] at hpacket
          obtain ⟨pkt, hpkt, heq⟩ := Option.map_eq_some_iff.mp hpacket
          cases heq
          unfold Packager.rtmpMetadata at hpkt
          simp only at hpkt
          split at hpkt
          · cases hpkt
          · obtain ⟨sps, -, h₁⟩ := Option.bind_eq_some_iff.mp hpkt
            obtain ⟨pps, -, h₂⟩ := Option.bind_eq_some_iff.mp h₁
            obtain ⟨area', -, h₃⟩ := Option.map_eq_some_iff.mp h₂
            rw [← h₃]

theorem dataOf_packetsOf {n : List UInt8} (hh : naluTypeOf n = 0x05 → hdr.mHeaderType = .medium) :
    dataOf (packetsOf hdr n) = if isFrame n then [dataPacket n] else [] := by
  have hdata : (dataPacket n).mHeaderType = .large := rfl
  unfold packetsOf isFrame
  by_cases h5 : naluTypeOf n = 0x05
  · simp [h5, dataOf, hh h5, hdata]
  · by_cases hs : naluTypeOf n = 0x07 ∨ naluTypeOf n = 0x08 ∨ naluTypeOf n = 0x06
    · simp [h5, hs, dataOf]
    · simp [h5, hs, dataOf, hdata]

theorem dataOf_packets
    (hh : ∀ n ∈ startCode.tokens x, naluTypeOf n = 0x05 → hdr.mHeaderType = .medium) :
    dataOf (packets hdr x) = framePackets x := by
  rw [packets, framePackets]
  generalize startCode.tokens x = nalus at hh
  induction nalus with
  | nil => rfl
  | cons n ns ih =>
      rw [List.flatMap_cons, dataOf_append, ih fun n' hn' => hh n' (List.mem_cons_of_mem _ hn'),
        dataOf_packetsOf (hh n (List.mem_cons_self ..)), List.filter_cons]
      cases isFrame n <;> rfl

/-- When every packet is served, so is the header of every IDR slice. -/
theorem HeaderFor.medium {ch : StreamChannel} {packs : List Bool} (h : HeaderFor ch hdr packs x)
    (hall : ServesAll packs hdr x) :
    ∀ n ∈ startCode.tokens x, naluTypeOf n = 0x05 → hdr.mHeaderType = .medium := by
  intro n hn h5
  obtain ⟨front, back, heq⟩ := List.append_of_mem hn
  refine (h front n back heq h5 ?_).medium
  -- the requests up to this header come before the last one
  have hlen : (packets hdr x).length =
      (front.flatMap (packetsOf hdr)).length + 1 + (1 + (back.flatMap (packetsOf hdr)).length) := by
    rw [packets, heq, List.flatMap_append, List.flatMap_cons, List.length_append,
      List.length_append, packetsOf, if_pos h5, List.length_cons, List.length_singleton]
    omega
  rw [ServesAll, hlen, served_add] at hall
  by_contra hnot
  rw [if_neg hnot] at hall
  have hle := served_le packs ((front.flatMap (packetsOf hdr)).length + 1)
  omega

theorem framePackets_append (x y : List UInt8) :
    framePackets (x ++ y) = framePackets x ++ framePackets (startCode.residue x ++ y) := by
  rw [framePackets, Delimiter.tokens_append, List.filter_append, List.map_append, framePackets,
    framePackets]

theorem framePackets_residue (x : List UInt8) : framePackets (startCode.residue x) = [] := by
  rw [framePackets, Delimiter.tokens_of_none (Delimiter.cut_residue x)]
  rfl

/-! ## Resuming -/

/-- The channel has started.  The data packets queued since `q`, followed by those of
the pending NALUs, are those of the NALUs of `x`, and behind the last code
stands the same. -/
def Resumable (q : List RtmpPacket) (x : List UInt8) (node : StreamNode) : Prop :=
  node.channel.started = true ∧ ∃ p, Pending node p ∧
    queuedData node ++ framePackets p = q ++ framePackets x ∧
    startCode.residue p = startCode.residue x

/-- A call whose refused requests do no harm: the append is not refused; on a
started channel the metadata packs where a sequence header is granted, and no
data packet is queued before a refused packet; a call that starts the channel
has a sequence header that packs and is refused no packet it asks for. -/
structure Harmless (node : StreamNode) (call : Call) : Prop where
  room : node.channel.buffer.Grows call.body.bytes → call.alloc.realloc = true
  nodes : ∀ b ∈ call.alloc.nodes, b = true
  clear : Clear node call
  fits : Fits node call
  early : node.channel.started = true →
    ∃ hdr, HeaderFor node.channel hdr call.alloc.packs (dataSeen node call) ∧
      (ServesAll call.alloc.packs hdr (dataSeen node call) ∨
        dataOf (servedPackets call.alloc.packs hdr (dataSeen node call)) = [])
  start : node.channel.started = false → ∀ pos md, startMeta node call = some (pos, md) → pos ≠ 0 →
    ∃ hdr, rtmpMetaPack true md.data md.size = some (some hdr) ∧
      nextAnswer call.alloc.packs = true ∧
      ServesAll (call.alloc.packs.drop 1) hdr ((dataSeen node call).drop pos)

theorem Harmless.dataSeen_eq (h : Harmless node call) (hp : Pending node p) :
    dataSeen node call = p ++ call.body.bytes := by
  have hlt := h.fits.length hp
  rw [List.length_append] at hlt
  obtain ⟨b, -, -, hseen⟩ := append_granted call hp (by omega) h.room
  exact hseen

/-- The step on a started channel. -/
theorem Resumable.feed {q : List RtmpPacket} (h : Resumable q x node) (ho : Harmless node call) :
    ∃ node', VmpSa.feed node call = some node' ∧ Resumable q (x ++ call.body.bytes) node' := by
  obtain ⟨hs, p, hp, hq, hres⟩ := h
  obtain ⟨hdr, hheader, hearly⟩ := ho.early hs
  have hseen := ho.dataSeen_eq hp
  have hclear : ¬ EndsWithCode (p ++ call.body.bytes) := hseen ▸ ho.clear
  rw [hseen] at hheader hearly
  obtain ⟨node', hproc, hsame, hlist, hp'⟩ := proc_started call hp hs hheader ho.room ho.nodes
    hclear (ho.fits.length hp)
  have hqueue := queuedData_append hlist
  -- the frames of the buffer are those still missing, before the call and after it
  have hframes : queuedData node ++ framePackets (p ++ call.body.bytes) =
      q ++ framePackets (x ++ call.body.bytes) := by
    rw [framePackets_append p, framePackets_append x, ← List.append_assoc, hq, hres,
      List.append_assoc]
  have hresidue : startCode.residue (p ++ call.body.bytes) =
      startCode.residue (x ++ call.body.bytes) := by
    rw [Delimiter.residue_append p, Delimiter.residue_append x, hres]
  refine ⟨node', by rw [VmpSa.feed, hproc, Option.map_some], hsame.started.trans hs, _, hp', ?_, ?_⟩
  · by_cases hall : ServesAll call.alloc.packs hdr (p ++ call.body.bytes)
    · rw [if_pos hall, hqueue, servedPackets_of_all hall, dataOf_packets (hheader.medium hall),
        framePackets_residue, List.append_nil, hframes]
    · have hnone := hearly.resolve_left hall
      rw [if_neg hall, hqueue, hnone, List.append_nil, hframes]
  · split
    · rw [← hresidue, Delimiter.residue_of_none (Delimiter.cut_residue _)]
    · exact hresidue

/-- One of the calls has started the channel, and `h264_metadata_get` has returned
`base` to it. -/
def StartedAt (node₀ : StreamNode) (hist : List Call) (base : Nat) : Prop :=
  ∃ before call after node₁ md, hist = before ++ call :: after ∧
    System.run feed node₀ before = some node₁ ∧ node₁.channel.started = false ∧
    startMeta node₁ call = some (base, md) ∧ base ≠ 0

/-- What the calls have made of a channel that was waiting at first with the bytes
`z`: it still waits, with nothing queued, or it has started and can resume from
the position `h264_metadata_get` has returned, which is behind a start code. -/
def StartsClean (node₀ : StreamNode) (z : List UInt8) (hist : List Call) (node : StreamNode) :
    Prop :=
  Waiting node (z ++ bytesOf hist) ∧ queuedData node = queuedData node₀ ∨
    ∃ base, StartedAt node₀ hist base ∧ base ≤ (z ++ bytesOf hist).length ∧
      BehindCode (z ++ bytesOf hist) base ∧
      Resumable (queuedData node₀) ((z ++ bytesOf hist).drop base) node

theorem StartedAt.append {node₀ : StreamNode} {hist : List Call} {base : Nat}
    (h : StartedAt node₀ hist base) (call : Call) : StartedAt node₀ (hist ++ [call]) base := by
  obtain ⟨before, first, after, node₁, md, heq, hrun, hs, hmeta, hbase⟩ := h
  refine ⟨before, first, after ++ [call], node₁, md, ?_, hrun, hs, hmeta, hbase⟩
  rw [heq, List.append_assoc, List.cons_append]

theorem BehindCode.append {pos : Nat} (h : BehindCode z pos) (hle : pos ≤ z.length)
    (y : List UInt8) : BehindCode (z ++ y) pos := by
  obtain ⟨pre, c, hc, htake⟩ := h
  exact ⟨pre, c, hc, by rw [List.take_append_of_le_length hle, htake]⟩

/-- The call that starts a waiting channel. -/
theorem Waiting.feed_starting {q : List RtmpPacket} (hw : Waiting node z) (hq : queuedData node = q)
    (ho : Harmless node call) {base : Nat} {md : H264Meta}
    (hmeta : startMeta node call = some (base, md)) (hbase : base ≠ 0) :
    ∃ node', VmpSa.feed node call = some node' ∧ base ≤ (z ++ call.body.bytes).length ∧
      BehindCode (z ++ call.body.bytes) base ∧
      Resumable q ((z ++ call.body.bytes).drop base) node' := by
  have hlt := ho.fits.length hw.pending
  have hend : ¬ EndsWithCode (z ++ call.body.bytes) := ho.dataSeen_eq hw.pending ▸ ho.clear
  obtain ⟨base', md', hmeta', hin, -⟩ := startMeta_cases call hw ho.room hend hlt
  rw [hmeta] at hmeta'
  cases hmeta'
  obtain ⟨hdr, hhdr, hfirst, hall⟩ := ho.start hw.started base md hmeta hbase
  rw [ho.dataSeen_eq hw.pending] at hall
  obtain ⟨-, hle, hcode⟩ := hin hbase
  obtain ⟨node', hproc, hs', -, hlist, hp'⟩ := proc_starting call hw ho.room ho.nodes hend hlt
    hmeta hbase hle hhdr hfirst
  have hmedium := hs'.header.medium
  rw [servedPackets_of_all hall] at hlist
  rw [if_pos hall] at hp'
  refine ⟨node', by rw [VmpSa.feed, hproc, Option.map_some], hle, hcode, hs'.started, _, hp', ?_,
    Delimiter.residue_of_none (Delimiter.cut_residue _)⟩
  have hcons : dataOf (hdr :: packets hdr ((z ++ call.body.bytes).drop base)) =
      framePackets ((z ++ call.body.bytes).drop base) := by
    rw [dataOf, List.filter_cons_of_neg (by simp [hmedium]), ← dataOf,
      dataOf_packets fun _ _ _ => hmedium]
  rw [queuedData_append hlist, hcons, framePackets_residue, List.append_nil, hq]

/-- The step on a channel that was waiting at first. -/
theorem StartsClean.feed {node₀ : StreamNode} {hist : List Call}
    (hr : System.run VmpSa.feed node₀ hist = some node) (h : StartsClean node₀ z hist node)
    (ho : Harmless node call) :
    ∃ node', VmpSa.feed node call = some node' ∧ StartsClean node₀ z (hist ++ [call]) node' := by
  have hbytes : z ++ bytesOf (hist ++ [call]) = z ++ bytesOf hist ++ call.body.bytes := by
    rw [bytesOf_append, bytesOf_singleton, List.append_assoc]
  simp only [StartsClean, hbytes]
  rcases h with ⟨hw, hq⟩ | ⟨base, hat, hle, hcode, hres⟩
  · have hlt := ho.fits.length hw.pending
    have hend : ¬ EndsWithCode (z ++ bytesOf hist ++ call.body.bytes) :=
      ho.dataSeen_eq hw.pending ▸ ho.clear
    obtain ⟨base, md, hmeta, -, -⟩ := startMeta_cases call hw ho.room hend hlt
    by_cases hbase : base = 0
    · rw [hbase] at hmeta
      obtain ⟨node', hproc, hw', hlist, -⟩ := proc_not_starting call hw ho.room hlt hmeta
      refine ⟨node', by rw [VmpSa.feed, hproc, Option.map_some], Or.inl ⟨hw', ?_⟩⟩
      rw [queuedData, hlist]
      exact hq
    · obtain ⟨node', hfeed, hstart⟩ := hw.feed_starting hq ho hmeta hbase
      exact ⟨node', hfeed, Or.inr ⟨base, ⟨hist, call, [], node, md, rfl, hr, hw.started, hmeta,
        hbase⟩, hstart⟩⟩
  · obtain ⟨node', hfeed, hres'⟩ := hres.feed ho
    refine ⟨node', hfeed, Or.inr ⟨base, hat.append call, ?_, hcode.append hle _, ?_⟩⟩
    · rw [List.length_append]
      omega
    · rwa [List.drop_append_of_le_length hle]

/-- In every run whose calls are harmless, on a channel started or still to start,
each state reached can be resumed. -/
theorem failures_resumable (calls : List Call) :
    (∀ (node : StreamNode) (r : List UInt8),
      Pending node r → node.channel.started = true → System.Along feed Harmless node calls →
      ∃ node', System.run feed node calls = some node' ∧
        Resumable (queuedData node) (r ++ bytesOf calls) node') ∧
    (∀ (node : StreamNode) (z : List UInt8),
      Waiting node z → System.Along feed Harmless node calls →
      ∃ node', System.run feed node calls = some node' ∧ StartsClean node z calls node') := by
  refine ⟨fun node r hp hs ho => ?_, fun node z hw ho => ?_⟩
  · refine System.run_reaches (P := Harmless)
      (fun hist => Resumable (queuedData node) (r ++ bytesOf hist)) ?_ ?_ ho
    · intro hist node₁ call hr ho₁
      obtain ⟨node₂, hfeed, hr₂⟩ := hr.feed ho₁
      exact ⟨node₂, hfeed, by rwa [bytesOf_append, bytesOf_singleton, ← List.append_assoc]⟩
    · rw [bytesOf_nil, List.append_nil]
      exact ⟨hs, r, hp, rfl, rfl⟩
  · have hstep : ∀ hist node₁ call,
        (System.run feed node hist = some node₁ ∧ StartsClean node z hist node₁) →
        Harmless node₁ call → ∃ node₂, feed node₁ call = some node₂ ∧
          System.run feed node (hist ++ [call]) = some node₂ ∧
          StartsClean node z (hist ++ [call]) node₂ := by
      rintro hist node₁ call ⟨hr, hc⟩ ho₁
      obtain ⟨node₂, hfeed, hc₂⟩ := hc.feed hr ho₁
      exact ⟨node₂, hfeed, by rw [System.run_append hr, System.run_cons hfeed, System.run_nil], hc₂⟩
    have hinit : StartsClean node z [] node := Or.inl ⟨by rwa [bytesOf_nil, List.append_nil], rfl⟩
    obtain ⟨node', hrun, -, hclean⟩ := System.run_reaches (P := Harmless) _ hstep ⟨rfl, hinit⟩ ho
    exact ⟨node', hrun, hclean⟩

/-- Two complete NALUs; the packet of the first is refused. -/
def earlyCall : Call where
  alloc := { Alloc.grantAll with packs := [false] }
  body := { bytes := [0x41, 0x9a, 0, 0, 1, 0x41, 0x9b, 0, 0, 1, 0x41], short := by decide }

theorem harmless_earlyCall : Harmless startedNode earlyCall := by
  obtain ⟨b, -, -, hseen⟩ := append_granted earlyCall pending_startedNode (by decide)
    (fun _ => rfl)
  refine ⟨fun _ => rfl, nofun, ?_, ?_, fun _ => ?_, nofun⟩
  · rw [Clear, hseen]
    decide
  · rw [Fits, pending_startedNode.holds.used]
    decide
  · refine ⟨startedHeader, started_startedNode.header.forBytes _ _, Or.inr ?_⟩
    rw [hseen]
    decide

theorem harmless_setsCall : Harmless .init setsCall := by
  refine ⟨fun _ => rfl, nofun, orderly_setsCall.clear, orderly_setsCall.fits, nofun, ?_⟩
  intro hs pos md hmeta hpos
  obtain ⟨hdr, hpack⟩ := headerPacks_setsCall hs pos md hmeta hpos
  have hnone : setsCall.alloc.packs.drop 1 = [] := rfl
  refine ⟨hdr, hpack, rfl, ?_⟩
  rw [hnone]
  exact servesAll_of_granted (fun b hb => absurd hb List.not_mem_nil) _

theorem failures_resumable_earlyCall :
    (∃ node', System.run feed startedNode [earlyCall] = some node' ∧
      Resumable (queuedData startedNode) ([] ++ bytesOf [earlyCall]) node') ∧
    ∃ node', System.run feed .init [setsCall] = some node' ∧
      StartsClean .init [] [setsCall] node' :=
  ⟨(failures_resumable [earlyCall]).1 startedNode [] pending_startedNode rfl
      (System.along_singleton.mpr harmless_earlyCall),
    (failures_resumable [setsCall]).2 .init [] waiting_init
      (System.along_singleton.mpr harmless_setsCall)⟩

/-! ## A NALU queued twice -/

/-- The same two NALUs; the packet of the second is refused. -/
def refusedCall : Call where
  alloc := { Alloc.grantAll with packs := [true, false] }
  body := earlyCall.body

/-- One more byte, with nothing refused. -/
def nextCall : Call where
  alloc := .grantAll
  body := { bytes := [0x9c], short := by decide }

/-- The first NALU is in the queue once when the call fails and a second time
after the next call. -/
theorem refused_packet_repeats_nalu :
    ∃ node', System.run feed startedNode [refusedCall, nextCall] = some node' ∧
      queuedData node' =
        [dataPacket [0x41, 0x9a], dataPacket [0x41, 0x9a], dataPacket [0x41, 0x9b]] ∧
      framePackets ([] ++ bytesOf [refusedCall, nextCall]) =
        [dataPacket [0x41, 0x9a], dataPacket [0x41, 0x9b]] ∧
      ¬ Resumable (queuedData startedNode) ([] ++ bytesOf [refusedCall, nextCall]) node' := by
  obtain ⟨node₁, hproc₁, hsame₁, hlist₁, hp₁⟩ := proc_started refusedCall
    pending_startedNode rfl (started_startedNode.header.forBytes _ _) (fun _ => rfl) nofun
    (by decide) (by decide)
  rw [if_neg (by decide)] at hp₁
  have hs₁ := started_startedNode.of_same hsame₁
  obtain ⟨node₂, hproc₂, -, hlist₂, -⟩ := proc_started nextCall hp₁ hs₁.started
    (hs₁.header.forBytes _ _) (fun _ => rfl) nofun (by decide) (by decide)
  have hqueue : queuedData node₂ =
      [dataPacket [0x41, 0x9a], dataPacket [0x41, 0x9a], dataPacket [0x41, 0x9b]] := by
    rw [queuedData_append hlist₂, queuedData_append hlist₁]
    decide
  have hframes : framePackets ([] ++ bytesOf [refusedCall, nextCall]) =
      [dataPacket [0x41, 0x9a], dataPacket [0x41, 0x9b]] := by decide
  have hfeed₁ : feed startedNode refusedCall = some node₁ := by
    rw [feed, hproc₁, Option.map_some]
  have hfeed₂ : feed node₁ nextCall = some node₂ := by rw [feed, hproc₂, Option.map_some]
  refine ⟨node₂, ?_, hqueue, hframes, ?_⟩
  · rw [System.run_cons hfeed₁, System.run_cons hfeed₂, System.run_nil]
  · rintro ⟨-, p, -, hq, -⟩
    rw [hqueue, hframes] at hq
    have hlen := congrArg List.length hq
    simp only [List.length_append, List.length_cons, List.length_nil] at hlen
    have hzero : (queuedData startedNode).length = 0 := rfl
    omega

end VmpSa
