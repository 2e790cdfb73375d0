import VmpSa.Stream.Cursor

/-!
# Repackaging the elementary stream

What a started channel does with a sequence of bodies.  The bytes received are
split at the start codes; `startCode.tokens` are the complete NALUs and
`startCode.residue` is what follows the last code.  The channel queues the
packets of the NALUs in order and keeps the residue, however the bytes were cut
into bodies.

The `int` in `tima_buffer_strdup` and in the packer bounds this: a channel with
`2 ^ 31` bytes pending has no defined next call.
-/

namespace VmpSa

/-- The bytes of a sequence of bodies. -/
def bytesOf (calls : List Call) : List UInt8 := calls.flatMap (·.body.bytes)

@[simp] theorem bytesOf_nil : bytesOf [] = [] := rfl

@[simp] theorem bytesOf_append (as bs : List Call) :
    bytesOf (as ++ bs) = bytesOf as ++ bytesOf bs :=
  List.flatMap_append

@[simp] theorem bytesOf_singleton (call : Call) : bytesOf [call] = call.body.bytes := by
  simp [bytesOf]

/-- The allocator grants every request of the call. -/
structure Alloc.Succeeds (alloc : Alloc) : Prop where
  realloc : alloc.realloc = true
  metaData : alloc.metaData = true
  packs : ∀ b ∈ alloc.packs, b = true
  nodes : ∀ b ∈ alloc.nodes, b = true

theorem grantAll_succeeds : Alloc.grantAll.Succeeds := ⟨rfl, rfl, nofun, nofun⟩

/-- The pending bytes with the body, and a packet of them, fit an `int`. -/
def Fits (node : StreamNode) (call : Call) : Prop :=
  node.channel.buffer.bufferUsed + call.body.bytes.length + 67 < 2 ^ 31

/-- Allocations succeed, the data seen does not end with a four-byte code, and
sizes fit an `int`. -/
structure Orderly (node : StreamNode) (call : Call) : Prop where
  alloc : call.alloc.Succeeds
  clear : Clear node call
  fits : Fits node call

/-- The calls return, queue the packets of the NALUs received and leave the
residue pending. -/
def Repackages (hdr : RtmpPacket) (node : StreamNode) (x : List UInt8) (calls : List Call) : Prop :=
  ∃ node', System.run feed node calls = some node' ∧
    node'.naluList = node.naluList ++
      (packets hdr (x ++ bytesOf calls)).map (nalNode node.channel.id) ∧
    Pending node' (startCode.residue (x ++ bytesOf calls))

variable {node node' : StreamNode} {x y : List UInt8} {hdr : RtmpPacket} {call : Call}

/-- The packets of two parts: those of the first, then those of its residue
continued by the second. -/
theorem packets_append (hdr : RtmpPacket) (x y : List UInt8) :
    packets hdr (x ++ y) = packets hdr x ++ packets hdr (startCode.residue x ++ y) := by
  rw [packets, Delimiter.tokens_append, List.flatMap_append, packets, packets]

/-- The size bound and the shape of the data, in terms of the pending bytes. -/
theorem Fits.length (h : Fits node call) (hp : Pending node x) :
    (x ++ call.body.bytes).length + 67 < 2 ^ 31 := by
  rw [List.length_append, ← hp.holds.used]
  exact h

theorem Clear.append (h : Clear node call) (hp : Pending node x) (hf : Fits node call)
    (hg : node.channel.buffer.Grows call.body.bytes → call.alloc.realloc = true) :
    ¬ EndsWithCode (x ++ call.body.bytes) := by
  have hlt := hf.length hp
  rw [List.length_append] at hlt
  obtain ⟨b, -, -, hseen⟩ := append_granted call hp (by omega) hg
  rw [← hseen]
  exact h

/-- An orderly call.  If it completes an IDR slice, the metadata of the channel packs
to the sequence header `hdr`. -/
structure Repackable (hdr : RtmpPacket) (node : StreamNode) (call : Call) : Prop where
  orderly : Orderly node call
  header : ∀ n ∈ startCode.tokens (dataSeen node call), naluTypeOf n = 0x05 →
    HeaderIs node.channel hdr

theorem Orderly.repackable (ho : Orderly node call) (hs : Started node hdr) :
    Repackable hdr node call :=
  ⟨ho, fun _ _ _ => hs.header⟩

/-- The step: such a call on a started channel queues the packets of the pending
bytes with the body and leaves their residue. -/
theorem feed_repackable (hp : Pending node x) (hs : node.channel.started = true)
    (hc : Repackable hdr node call) :
    ∃ node', feed node call = some node' ∧ SameSetup node node' ∧
      node'.naluList = node.naluList ++
        (packets hdr (x ++ call.body.bytes)).map (nalNode node.channel.id) ∧
      Pending node' (startCode.residue (x ++ call.body.bytes)) := by
  have ho := hc.orderly
  have hg : node.channel.buffer.Grows call.body.bytes → call.alloc.realloc = true :=
    fun _ => ho.alloc.realloc
  have hall : ServesAll call.alloc.packs hdr (x ++ call.body.bytes) :=
    servesAll_of_granted ho.alloc.packs _
  have hlt := ho.fits.length hp
  obtain ⟨-, -, -, hseen⟩ := append_granted call hp (by rw [List.length_append] at hlt; omega) hg
  obtain ⟨node', hproc, hsame, hq, hp'⟩ := proc_started call hp hs
    (headerFor_of_idr (hseen ▸ hc.header)) hg ho.alloc.nodes (ho.clear.append hp ho.fits hg) hlt
  rw [servedPackets_of_all hall] at hq
  rw [if_pos hall] at hp'
  exact ⟨node', by rw [feed, hproc, Option.map_some], hsame, hq, hp'⟩

/-- The step of a channel whose metadata packs. -/
theorem feed_orderly (hp : Pending node x) (hs : Started node hdr) (ho : Orderly node call) :
    ∃ node', feed node call = some node' ∧ SameSetup node node' ∧
      node'.naluList = node.naluList ++
        (packets hdr (x ++ call.body.bytes)).map (nalNode node.channel.id) ∧
      Pending node' (startCode.residue (x ++ call.body.bytes)) :=
  feed_repackable hp hs.started (ho.repackable hs)

/-- What the node has become after the calls `hist`, in terms of the bytes. -/
structure Repackaged (hdr : RtmpPacket) (node : StreamNode) (x : List UInt8) (hist : List Call)
    (node' : StreamNode) : Prop where
  same : SameSetup node node'
  queued : node'.naluList = node.naluList ++
    (packets hdr (x ++ bytesOf hist)).map (nalNode node.channel.id)
  pending : Pending node' (startCode.residue (x ++ bytesOf hist))

/-- One more call on what the calls before it have left. -/
theorem Repackaged.feed {hist : List Call} (h : Repackaged hdr node x hist node')
    (hs : node.channel.started = true) (hc : Repackable hdr node' call) :
    ∃ node'', VmpSa.feed node' call = some node'' ∧
      Repackaged hdr node x (hist ++ [call]) node'' := by
  obtain ⟨node'', hfeed, hsame, hq, hp⟩ := feed_repackable h.pending (h.same.started.trans hs) hc
  refine ⟨node'', hfeed, h.same.trans hsame, ?_, ?_⟩
  · rw [hq, h.queued, h.same.id, bytesOf_append, bytesOf_singleton, ← List.append_assoc x,
      packets_append hdr (x ++ bytesOf hist), List.map_append, List.append_assoc]
  · rw [bytesOf_append, bytesOf_singleton, ← List.append_assoc x, Delimiter.residue_append]
    exact hp

/-- The run: the first call meets the bytes pending from before, every later one
a residue. -/
theorem run_repackable (hp : Pending node x) (hs : node.channel.started = true)
    {calls : List Call} (hne : calls ≠ [])
    (hc : System.Along VmpSa.feed (Repackable hdr) node calls) :
    Repackages hdr node x calls := by
  match calls, hne with
  | call :: calls, _ =>
      obtain ⟨node₁, hfeed, hsame, hq, hp₁⟩ := feed_repackable hp hs hc.head
      have h₁ : Repackaged hdr node x [call] node₁ :=
        ⟨hsame, by rw [bytesOf_singleton]; exact hq, by rw [bytesOf_singleton]; exact hp₁⟩
      obtain ⟨node', hrun, h'⟩ := System.run_reaches_from (P := Repackable hdr)
        (Repackaged hdr node x) (fun _ _ _ hi hp => hi.feed hs hp) h₁
        ((System.along_cons hfeed).mp hc).2
      exact ⟨node', by rw [System.run_cons hfeed, hrun], h'.queued, h'.pending⟩

/-- Every sequence of bodies fed to a started channel by orderly calls is
repackaged, when the metadata packs before every IDR slice.  The result is a
matter of the bytes alone, and the NALUs, each followed by its start code, and
the residue are those bytes. -/
theorem repackage_orderly_runs (node : StreamNode) (hdr : RtmpPacket) (x : List UInt8)
    (calls : List Call) (hp : Pending node x) (hs : node.channel.started = true)
    (hne : calls ≠ []) (hc : System.Along feed (Repackable hdr) node calls) :
    Repackages hdr node x calls ∧
      (∀ calls', calls' ≠ [] → System.Along feed (Repackable hdr) node calls' →
        bytesOf calls' = bytesOf calls →
        ∃ n n' y, System.run feed node calls = some n ∧ System.run feed node calls' = some n' ∧
          n.naluList = n'.naluList ∧ Pending n y ∧ Pending n' y) ∧
      ∃ codes : List (List UInt8),
        codes.length = (startCode.tokens (x ++ bytesOf calls)).length ∧
        (∀ c ∈ codes, IsStartCode c) ∧
        x ++ bytesOf calls =
          (List.zipWith (· ++ ·) (startCode.tokens (x ++ bytesOf calls)) codes).flatten ++
            startCode.residue (x ++ bytesOf calls) := by
  have hrep := run_repackable hp hs hne hc
  refine ⟨hrep, ?_, ?_⟩
  · intro calls' hne' hc' hbytes
    obtain ⟨n, hrun, hq, hpn⟩ := hrep
    obtain ⟨n', hrun', hq', hpn'⟩ := run_repackable hp hs hne' hc'
    rw [hbytes] at hq' hpn'
    exact ⟨n, n', _, hrun, hrun', hq.trans hq'.symm, hpn, hpn'⟩
  · obtain ⟨codes, hlen, hcode, heq⟩ := startCode.exists_separators (x ++ bytesOf calls)
    refine ⟨codes, hlen, fun c hc => ?_, heq⟩
    obtain ⟨u, hu, rfl⟩ := hcode c hc
    exact isStartCode_of_at hu

theorem smallCall_orderly : Orderly startedNode smallCall := by
  obtain ⟨b, -, -, hseen⟩ := append_granted smallCall pending_startedNode
    (by decide) (fun _ => rfl)
  refine ⟨grantAll_succeeds, ?_, ?_⟩
  · rw [Clear, hseen]
    decide
  · rw [Fits, pending_startedNode.holds.used]
    decide

theorem repackage_smallCall :
    Repackages startedHeader startedNode [] [smallCall] ∧
      packets startedHeader ([] ++ bytesOf [smallCall]) = [dataPacket [0x41]] :=
  ⟨(repackage_orderly_runs startedNode startedHeader [] [smallCall] pending_startedNode
    rfl (by simp)
    (System.along_singleton.mpr (smallCall_orderly.repackable started_startedNode))).1, by decide⟩

/-! ## Past the range of `int` -/

/-- `2 ^ 31` bytes without a start code. -/
def longData : List UInt8 := List.replicate (2 ^ 31) 0xff

/-- A started channel that has them pending. -/
def longNode : StreamNode :=
  startedNode.withBuffer
    { buffer := longData ++ List.replicate (2 ^ 17) 0, bufferUsed := 2 ^ 31
      bufferTotal := 2 ^ 31 + 2 ^ 17 }

/-- One more byte of the same kind. -/
def longCall : Call where
  alloc := .grantAll
  body := { bytes := [0xff], short := by decide }

theorem length_longData : longData.length = 2 ^ 31 := List.length_replicate ..

theorem longNode_used : longNode.channel.buffer.bufferUsed = 2 ^ 31 := rfl

theorem longNode_total : longNode.channel.buffer.bufferTotal = 2 ^ 31 + 2 ^ 17 := rfl

theorem pending_longNode : Pending longNode longData := by
  have hlen := length_longData
  have hbuf : longNode.channel.buffer.buffer.length = 2 ^ 31 + 2 ^ 17 := by
    rw [longNode, withBuffer_buffer, List.length_append, hlen, List.length_replicate]
  refine ⟨⟨by rw [hlen, longNode_used], ?_, ?_, ?_, ?_⟩, ?_, ?_⟩
  · rw [longNode, withBuffer_buffer, List.take_left]
  · rw [hlen, longNode_total]; omega
  · rw [hbuf, hlen]; omega
  · rw [hbuf, longNode_total]
  · rw [longNode_total]; omega
  · rw [hlen]; omega

/-- On a started channel with `2 ^ 31` bytes pending a call has no result,
although allocations succeed and the data does not end with a start code. -/
theorem long_pending_not_repackaged :
    Pending longNode longData ∧ Started longNode startedHeader ∧ longCall.alloc.Succeeds ∧
      ¬ EndsWithCode (longData ++ bytesOf [longCall]) ∧
      ¬ Repackages startedHeader longNode longData [longCall] := by
  refine ⟨pending_longNode, started_startedNode.of_same (sameSetup_withBuffer _ _),
    grantAll_succeeds, ?_, ?_⟩
  · rintro ⟨t, ht⟩
    have hsplit : (t ++ [0, 0, 0]) ++ [1] = longData ++ [0xff] := by
      rw [List.append_assoc]
      exact ht
    have hlast := (List.append_inj' hsplit rfl).2
    exact absurd hlast (by decide)
  · rintro ⟨node', hrun, -, -⟩
    have hstr : timaBufferStrdup true longNode.channel.buffer [0xff] true = none :=
      TimaBuffer.strdup_overflow (by simp) (by rw [longNode_used]) (by rw [longNode_used]; omega)
    have happ : channelAppend longCall.alloc longNode longCall.body.bytes = none := by
      rw [channelAppend]
      exact congrArg _ hstr
    have hfeed : feed longNode longCall = none := by
      rw [feed, h264StreamProc, h264StreamScan, happ]
      rfl
    rw [System.run_cons_none hfeed] at hrun
    cases hrun

end VmpSa
