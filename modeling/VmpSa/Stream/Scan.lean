import VmpSa.Stream.Channel

/-!
# What one scan of the buffer queues

The loop of `h264_stream_proc` against the tokens of the bytes in the buffer.
Every NALU asks for a fixed list of packets (`packetsOf`).  The scan serves the
packets of all NALUs in order up to the first one the allocator refuses.  When
none is refused, it ends at the residue (`naluLoop_spec`).

The reading of a NALU as a token needs that no start code ends the data.  That
the cursor stays within the data needs no more than that, whatever the
allocator does (`naluLoop_inside`).
-/

namespace VmpSa

/-! ## Packets in order up to the first refusal -/

/-- How many of `k` requests are granted before the first refusal. -/
def served : List Bool → Nat → Nat
  | [], k => k
  | _ :: _, 0 => 0
  | true :: packs, k + 1 => served packs k + 1
  | false :: _, _ + 1 => 0

@[simp] theorem served_zero (packs : List Bool) : served packs 0 = 0 := by
  cases packs <;> rfl

theorem served_le : ∀ (packs : List Bool) (k : Nat), served packs k ≤ k
  | [], _ => Nat.le_refl _
  | _ :: _, 0 => Nat.le_refl _
  | true :: packs, k + 1 => Nat.succ_le_succ (served_le packs k)
  | false :: _, _ + 1 => Nat.zero_le _

/-- The first `m` requests are served before the others. -/
theorem served_add : ∀ (packs : List Bool) (m n : Nat),
    served packs (m + n) =
      if served packs m = m then m + served (packs.drop m) n else served packs m
  | [], m, n => by
      rw [served, served, if_pos rfl, List.drop_nil, served]
  | b :: packs, 0, n => by
      rw [Nat.zero_add, served, if_pos rfl, List.drop_zero, Nat.zero_add]
  | true :: packs, m + 1, n => by
      have ih := served_add packs m n
      rw [Nat.add_right_comm, served, served, List.drop_succ_cons, ih]
      split <;> split <;> omega
  | false :: packs, m + 1, n => by
      rw [Nat.add_right_comm, served, served, if_neg (by omega)]

theorem served_one (packs : List Bool) : served packs 1 = if nextAnswer packs then 1 else 0 := by
  match packs with
  | [] => rfl
  | true :: packs => simp [served, nextAnswer]
  | false :: packs => rfl

theorem served_of_granted : ∀ {packs : List Bool}, (∀ b ∈ packs, b = true) →
    ∀ k, served packs k = k
  | [], _, _ => rfl
  | _ :: _, _, 0 => rfl
  | true :: packs, h, k + 1 => by
      rw [served, served_of_granted (fun b hb => h b (List.mem_cons_of_mem _ hb))]
  | false :: packs, h, k + 1 => by cases h false (List.mem_cons_self ..)

theorem nextAnswer_of_granted : ∀ {answers : List Bool}, (∀ b ∈ answers, b = true) →
    nextAnswer answers = true
  | [], _ => rfl
  | b :: _, h => h b (List.mem_cons_self ..)

/-! ## Queued packets -/

/-- The queue node of a packet. -/
def nalNode (cid : Int) (package : RtmpPacket) : NalNode :=
  { seq := 0, cid := cid, size := 0, package := package }

/-- The node with more packets in its queue. -/
def StreamNode.enqueue (node : StreamNode) (pkts : List RtmpPacket) : StreamNode :=
  { node with naluList := node.naluList ++ pkts.map (nalNode node.channel.id) }

@[simp] theorem StreamNode.enqueue_channel (node : StreamNode) (pkts : List RtmpPacket) :
    (node.enqueue pkts).channel = node.channel := rfl

@[simp] theorem StreamNode.enqueue_nil (node : StreamNode) : node.enqueue [] = node := by
  simp [StreamNode.enqueue]

theorem StreamNode.enqueue_append (node : StreamNode) (p q : List RtmpPacket) :
    (node.enqueue p).enqueue q = node.enqueue (p ++ q) := by
  simp only [StreamNode.enqueue, List.map_append, List.append_assoc]

/-- Every request for a queue node is granted. -/
def NodesGranted (s : ScanState) : Prop := ∀ b ∈ s.nodes, b = true

variable {pack : Bool → Option (Option RtmpPacket)} {s s' : ScanState} {data : List UInt8}

theorem queuePacket_refused (h : pack false = some none) (ha : nextAnswer s.packs = false) :
    queuePacket pack s = some none := by
  rw [queuePacket, ha, h]

theorem queuePacket_granted {pkt : RtmpPacket} (h : pack true = some (some pkt))
    (ha : nextAnswer s.packs = true) (hn : NodesGranted s) :
    queuePacket pack s = some (some { s with
      node := s.node.enqueue [pkt], packs := s.packs.drop 1, nodes := s.nodes.drop 1 }) := by
  have hnode : nextAnswer s.nodes = true := nextAnswer_of_granted hn
  rw [queuePacket, ha, h]
  simp only [hnode, pktNodeCreate, if_true, listAddNalu, Option.map_some, List.drop_one]
  rfl

theorem queuePacket_channel (h : queuePacket pack s = some (some s')) :
    s'.node.channel = s.node.channel := by
  unfold queuePacket at h
  split at h
  · cases h
  · cases h
  next pkt _ =>
    obtain ⟨node, hnode, heq⟩ := Option.map_eq_some_iff.mp h
    cases heq
    cases hp : pktNodeCreate (nextAnswer s.nodes) pkt 0 s.node.channel.id 0 with
    | none => rw [hp] at hnode; cases hnode
    | some n => rw [hp] at hnode; cases hnode; rfl

@[simp] theorem streamNaluWmcnt_channel (node : StreamNode) (size : Nat) :
    (streamNaluWmcnt node size).channel = node.channel := by
  unfold streamNaluWmcnt
  split_ifs <;> rfl

@[simp] theorem streamNaluWmcnt_naluList (node : StreamNode) (size : Nat) :
    (streamNaluWmcnt node size).naluList = node.naluList := by
  unfold streamNaluWmcnt
  split_ifs <;> rfl

/-! ## The cursor and the channel -/

/-- A pass of the packing goes on or fails with this channel. -/
def KeepsChannel (ch : StreamChannel) : Loop.Pass ScanState (Option ScanEnd) → Prop
  | .again s => s.node.channel = ch
  | .leave none => True
  | .leave (some (.failed node)) => node.channel = ch
  | .leave (some (.scanned _ _)) => False

theorem packNalu_channel (data : List UInt8) (nalu : H264Nalu) (s : ScanState) :
    KeepsChannel s.node.channel (packNalu data nalu s) := by
  unfold packNalu
  split
  · trivial
  · rfl
  next s₁ hs₁ =>
    have h₁ : s₁.node.channel = s.node.channel := by
      split at hs₁
      · exact queuePacket_channel hs₁
      · cases hs₁
        rfl
    split
    · exact h₁
    · split
      · trivial
      · exact h₁
      next s₂ hs₂ => exact (queuePacket_channel hs₂).trans h₁

/-- The data ends with a four-byte start code. -/
def EndsWithCode (x : List UInt8) : Prop := [0, 0, 0, 1] <:+ x

instance (x : List UInt8) : Decidable (EndsWithCode x) :=
  inferInstanceAs (Decidable (_ <:+ _))

variable {x : List UInt8}

/-- The bytes of the buffer in use. -/
structure InUse (data x : List UInt8) : Prop where
  le : x.length ≤ data.length
  take_eq : data.take x.length = x

theorem InUse.dataFrom_eq (h : InUse data x) (p : Nat) : dataFrom data x.length p = x.drop p := by
  rw [dataFrom, h.take_eq]

theorem TimaBuffer.Holds.inUse {b : TimaBuffer} (h : b.Holds x) : InUse (timaBufferData b 0) x :=
  ⟨Nat.le_of_lt h.room, h.content⟩

/-- Unless the data ends with a code, no cut of it does. -/
theorem behind_ne_nil (hend : ¬ EndsWithCode x) {p : Nat} {t u : List UInt8}
    (hc : startCode.cut (x.drop p) = some (t, u)) : startCode.behind u ≠ [] := by
  intro hnil
  obtain ⟨hx, hu⟩ := Delimiter.cut_some hc
  apply hend
  rw [EndsWithCode, ← eq_of_behind_nil hu hnil]
  exact (hx ▸ List.suffix_append t u).trans (List.drop_suffix p x)

/-- A read inside the data stays inside it. -/
theorem naluRead_le (h : InUse data x) (hend : ¬ EndsWithCode x) {p : Nat} (hp : p ≤ x.length) :
    p + (naluRead data x.length p).1 ≤ x.length := by
  cases hc : startCode.cut (x.drop p) with
  | none => rw [naluRead_none h.le (by rw [h.dataFrom_eq, hc])]; exact hp
  | some c =>
      obtain ⟨t, u⟩ := c
      rw [naluRead_inside h.le (by rw [h.dataFrom_eq, hc]) (behind_ne_nil hend hc)]
      have hlen := congrArg List.length (Delimiter.cut_some hc).1
      have hu := (Delimiter.cut_some hc).2.1
      have hle := findStartCode_le u
      rw [List.length_drop, List.length_append] at hlen
      rw [startCode_window] at hu
      simp only
      omega

/-- The scan ended with this channel and with an offset of at most `n`. -/
def ScanEnd.Within (ch : StreamChannel) (n : Nat) : ScanEnd → Prop
  | .failed node => node.channel = ch
  | .scanned node pos => node.channel = ch ∧ pos ≤ n

/-- The scan leaves the channel alone, and the offset it hands on lies within
the data. -/
theorem naluLoop_inside (h : InUse data x) (hend : ¬ EndsWithCode x) (hp : s.pos ≤ x.length)
    {e : ScanEnd} (he : naluLoop data x.length s = some e) :
    e.Within s.node.channel x.length := by
  have key := Loop.exec_rule (naluPass_decreases data x.length)
    (fun s' => s'.pos ≤ x.length ∧ s'.node.channel = s.node.channel)
    (fun r => ∀ e, r = some e → e.Within s.node.channel x.length)
    ?_ ?_ s ⟨hp, rfl⟩
  · exact key e he
  · rintro s₁ s₂ ⟨hp₁, hc₁⟩ hb
    unfold naluPass at hb
    split at hb
    · cases hb
    next len nalu hr =>
      have hle := naluRead_le h hend hp₁
      rw [hr] at hle
      have hpos := packNalu_pos hb
      have hch := packNalu_channel data nalu
        { s₁ with pos := s₁.pos + len, node := streamNaluWmcnt s₁.node nalu.naluLen }
      rw [hb] at hch
      simp only [KeepsChannel, streamNaluWmcnt_channel] at hch
      exact ⟨hpos ▸ hle, hch.trans hc₁⟩
  · rintro s₁ r ⟨hp₁, hc₁⟩ hb e rfl
    unfold naluPass at hb
    split at hb
    · cases hb
      exact ⟨hc₁, hp₁⟩
    next len nalu hr =>
      have hch := packNalu_channel data nalu
        { s₁ with pos := s₁.pos + len, node := streamNaluWmcnt s₁.node nalu.naluLen }
      rw [hb] at hch
      cases e with
      | failed node =>
          simp only [KeepsChannel, streamNaluWmcnt_channel] at hch
          exact hch.trans hc₁
      | scanned node pos => exact hch.elim

/-! ## The packets of a NALU -/

/-- The packets a NALU asks for: the sequence header in front of an IDR slice, and
none for SEI and parameter sets. -/
def packetsOf (hdr : RtmpPacket) (n : List UInt8) : List RtmpPacket :=
  if naluTypeOf n = 0x05 then [hdr, dataPacket n]
  else if naluTypeOf n = 0x07 ∨ naluTypeOf n = 0x08 ∨ naluTypeOf n = 0x06 then []
  else [dataPacket n]

/-- The packets of the complete NALUs of a byte string. -/
def packets (hdr : RtmpPacket) (x : List UInt8) : List RtmpPacket :=
  (startCode.tokens x).flatMap (packetsOf hdr)

/-- The sequence header that the channel's metadata packs to. -/
def HeaderIs (ch : StreamChannel) (hdr : RtmpPacket) : Prop :=
  rtmpMetaPack true ch.metaData.data ch.metaData.size = some (some hdr)

/-- If the request for the header in front of an IDR slice is granted, the metadata
packs to the sequence header. -/
def HeaderFor (ch : StreamChannel) (hdr : RtmpPacket) (packs : List Bool) (x : List UInt8) :
    Prop :=
  ∀ front n back, startCode.tokens x = front ++ n :: back → naluTypeOf n = 0x05 →
    served packs ((front.flatMap (packetsOf hdr)).length + 1) =
      (front.flatMap (packetsOf hdr)).length + 1 → HeaderIs ch hdr

theorem HeaderIs.forBytes {ch : StreamChannel} {hdr : RtmpPacket} (h : HeaderIs ch hdr)
    (packs : List Bool) (x : List UInt8) : HeaderFor ch hdr packs x :=
  fun _ _ _ _ _ _ => h

theorem headerFor_of_idr {ch : StreamChannel} {hdr : RtmpPacket} {packs : List Bool}
    (h : ∀ n ∈ startCode.tokens x, naluTypeOf n = 0x05 → HeaderIs ch hdr) :
    HeaderFor ch hdr packs x :=
  fun front n back heq h5 _ => h n (by rw [heq]; simp) h5

/-- The state after the packets `pkts` have been queued. -/
def ScanState.serve (s : ScanState) (pkts : List RtmpPacket) : ScanState :=
  { s with
    node := s.node.enqueue pkts
    packs := s.packs.drop pkts.length
    nodes := s.nodes.drop pkts.length }

/-- How packing goes on after the requests `pkts`: round again when they are all
served, else out with those that were. -/
def serveAll (s : ScanState) (pkts : List RtmpPacket) : Loop.Pass ScanState (Option ScanEnd) :=
  if served s.packs pkts.length = pkts.length then .again (s.serve pkts)
  else .leave (some (.failed (s.node.enqueue (pkts.take (served s.packs pkts.length)))))

theorem NodesGranted.serve (h : NodesGranted s) (pkts : List RtmpPacket) :
    NodesGranted (s.serve pkts) :=
  fun b hb => h b (List.mem_of_mem_drop hb)

variable {hdr : RtmpPacket} {nalu : H264Nalu} {n rest : List UInt8}

/-- The NALU just read is `n`, followed by a start code. -/
structure IsNalu (data : List UInt8) (nalu : H264Nalu) (n rest : List UInt8) : Prop where
  drop_eq : data.drop nalu.naluData = n ++ rest
  zero : rest.getD 0 0 = 0
  len : nalu.naluLen = n.length
  type : nalu.naluType = naluTypeOf n
  short : n.length + 67 < 2 ^ 31

theorem queueHeader_eq (hh : nextAnswer s.packs = true → HeaderIs s.node.channel hdr)
    (hn : NodesGranted s) :
    queueHeader s = if nextAnswer s.packs then some (some (s.serve [hdr])) else some none := by
  cases ha : nextAnswer s.packs with
  | true => exact queuePacket_granted (hh ha) ha hn
  | false => exact queuePacket_refused (rtmpMetaPack_refused _ _) ha

theorem queueData_eq (h : IsNalu data nalu n rest) (hn : NodesGranted s) :
    queueData data nalu s =
      if nextAnswer s.packs then some (some (s.serve [dataPacket n])) else some none := by
  have hshort := h.short
  have hlen : CInt.ofSize n.length = (n.length : Nat) := CInt.ofSize_of_lt (by omega)
  cases ha : nextAnswer s.packs with
  | true =>
      refine queuePacket_granted ?_ ha hn
      rw [h.drop_eq, h.len]
      exact rtmpDataPack_granted h.short (fun _ => h.zero)
  | false =>
      refine queuePacket_refused (rtmpDataPack_refused ?_ _) ha
      rw [h.len, hlen]
      simp only [Packager.rtmpBodyLength, rtmpMaxHeaderSize]
      omega

/-- Packing a NALU serves the packets it asks for. -/
theorem packNalu_spec (h : IsNalu data nalu n rest)
    (hh : naluTypeOf n = 0x05 → nextAnswer s.packs = true → HeaderIs s.node.channel hdr)
    (hn : NodesGranted s) : packNalu data nalu s = serveAll s (packetsOf hdr n) := by
  unfold packNalu
  rw [h.type]
  by_cases h5 : naluTypeOf n = 0x05
  · -- the header first, then the data, with the answers in that order
    have hskip : ¬ (naluTypeOf n = 0x07 ∨ naluTypeOf n = 0x08 ∨ naluTypeOf n = 0x06) := by
      rw [h5]
      decide
    have hpk : packetsOf hdr n = [hdr, dataPacket n] := by rw [packetsOf, if_pos h5]
    have htwo : served s.packs 2 =
        if nextAnswer s.packs then 1 + served (s.packs.drop 1) 1 else 0 := by
      rw [show (2 : Nat) = 1 + 1 from rfl, served_add, served_one]
      cases nextAnswer s.packs <;> rfl
    rw [if_pos h5, queueHeader_eq (hh h5) hn, hpk, serveAll, List.length_cons,
      List.length_singleton, htwo]
    cases ha : nextAnswer s.packs with
    | false => simp
    | true =>
        have hq := queueData_eq h (hn.serve [hdr])
        simp only [if_true, hskip, if_false, hq]
        rw [served_one]
        have hpacks : (s.serve [hdr]).packs = s.packs.drop 1 := rfl
        rw [hpacks]
        cases hb : nextAnswer (s.packs.drop 1) with
        | false => simp [ScanState.serve]
        | true =>
            simp [ScanState.serve, StreamNode.enqueue_append]
  · rw [if_neg h5]
    by_cases hskip : naluTypeOf n = 0x07 ∨ naluTypeOf n = 0x08 ∨ naluTypeOf n = 0x06
    · have hpk : packetsOf hdr n = [] := by rw [packetsOf, if_neg h5, if_pos hskip]
      simp [hskip, hpk, serveAll, ScanState.serve]
    · have hpk : packetsOf hdr n = [dataPacket n] := by rw [packetsOf, if_neg h5, if_neg hskip]
      simp only [hskip, if_false, queueData_eq h hn, hpk, serveAll, List.length_singleton,
        served_one]
      cases ha : nextAnswer s.packs with
      | false => simp
      | true => simp

/-! ## The scan -/

variable {t u : List UInt8}

/-- The state after a NALU `t` in front of `u` has been read. -/
def ScanState.advance (s : ScanState) (t u : List UInt8) : ScanState :=
  { s with
    pos := s.pos + (t.length + findStartCode u)
    node := streamNaluWmcnt s.node t.length }

@[simp] theorem advance_channel (s : ScanState) (t u : List UInt8) :
    (s.advance t u).node.channel = s.node.channel := by
  simp [ScanState.advance]

@[simp] theorem advance_naluList (s : ScanState) (t u : List UInt8) :
    (s.advance t u).node.naluList = s.node.naluList := by
  simp [ScanState.advance]

/-- The first token behind the cursor is a NALU in the buffer. -/
theorem isNalu_of_cut (h : InUse data x) (hlt : x.length + 67 < 2 ^ 31) (hp : s.pos ≤ x.length)
    (hc : startCode.cut (x.drop s.pos) = some (t, u)) :
    IsNalu data { naluLen := t.length, naluType := naluTypeOf t, naluData := s.pos } t
      (u ++ data.drop x.length) := by
  obtain ⟨hx, hu⟩ := Delimiter.cut_some hc
  have hlen := congrArg List.length hx
  rw [List.length_drop, List.length_append] at hlen
  have hu4 : 4 ≤ u.length := hu.1
  refine ⟨?_, ?_, rfl, rfl, by omega⟩
  · change data.drop s.pos = _
    rw [← List.append_assoc, ← hx]
    conv_lhs => rw [← List.take_append_drop x.length data, h.take_eq]
    rw [List.drop_append_of_le_length hp]
  · rw [List.getD_append _ _ _ _ (by omega)]
    exact (findStartCode_cases hu.2).1

/-- A pass with a token behind the cursor serves the packets of that NALU. -/
theorem naluPass_of_cut (h : InUse data x) (hend : ¬ EndsWithCode x) (hlt : x.length + 67 < 2 ^ 31)
    (hh : naluTypeOf t = 0x05 → nextAnswer s.packs = true → HeaderIs s.node.channel hdr)
    (hn : NodesGranted s) (hp : s.pos ≤ x.length)
    (hc : startCode.cut (x.drop s.pos) = some (t, u)) :
    naluPass data x.length s = serveAll (s.advance t u) (packetsOf hdr t) := by
  have hc' : startCode.cut (dataFrom data x.length s.pos) = some (t, u) := by
    rw [h.dataFrom_eq, hc]
  rw [naluPass, naluRead_inside h.le hc' (behind_ne_nil hend hc)]
  exact packNalu_spec (s := s.advance t u) (isNalu_of_cut h hlt hp hc)
    (by rwa [advance_channel]) hn

/-- Behind the token the cursor stands on what follows the start code. -/
theorem drop_advance (hc : startCode.cut (x.drop s.pos) = some (t, u)) :
    x.drop (s.advance t u).pos = startCode.behind u := by
  obtain ⟨hx, -⟩ := Delimiter.cut_some hc
  rw [ScanState.advance, ← List.drop_drop, hx, ← List.drop_drop, List.drop_left]
  rfl

theorem advance_pos_le (hp : s.pos ≤ x.length)
    (hc : startCode.cut (x.drop s.pos) = some (t, u)) : (s.advance t u).pos ≤ x.length := by
  obtain ⟨hx, hu⟩ := Delimiter.cut_some hc
  have hlen := congrArg List.length hx
  rw [List.length_drop, List.length_append] at hlen
  have hu4 : 4 ≤ u.length := hu.1
  have hfour := findStartCode_le u
  show s.pos + (t.length + findStartCode u) ≤ x.length
  omega

/-- The condition on the header, for the first NALU behind the cursor. -/
theorem HeaderFor.first {ch : StreamChannel} {packs : List Bool} (h : HeaderFor ch hdr packs x)
    (hc : startCode.cut x = some (t, u)) (h5 : naluTypeOf t = 0x05)
    (ha : nextAnswer packs = true) : HeaderIs ch hdr :=
  h [] t _ (Delimiter.tokens_of_some hc) h5 (by simp [served_one, ha])

/-- The condition on the header, for the NALUs behind the first one. -/
theorem HeaderFor.behind {ch : StreamChannel} {packs : List Bool} (h : HeaderFor ch hdr packs x)
    (hc : startCode.cut x = some (t, u))
    (hserved : served packs (packetsOf hdr t).length = (packetsOf hdr t).length) :
    HeaderFor ch hdr (packs.drop (packetsOf hdr t).length) (startCode.behind u) := by
  intro front n back heq h5 hgranted
  refine h (t :: front) n back (by rw [Delimiter.tokens_of_some hc, heq]; rfl) h5 ?_
  rw [List.flatMap_cons, List.length_append, Nat.add_assoc, served_add, if_pos hserved, hgranted]

/-- The scan from a cursor on: the packets of the NALUs found there, up to the
first refusal. -/
theorem naluLoop_spec (h : InUse data x) (hend : ¬ EndsWithCode x) (hlt : x.length + 67 < 2 ^ 31)
    (hh : HeaderFor s.node.channel hdr s.packs (x.drop s.pos)) (hn : NodesGranted s)
    (hp : s.pos ≤ x.length) :
    ∃ node, node.channel = s.node.channel ∧
      node.naluList = s.node.naluList ++
        ((packets hdr (x.drop s.pos)).take
          (served s.packs (packets hdr (x.drop s.pos)).length)).map (nalNode s.node.channel.id) ∧
      naluLoop data x.length s = some
        (if served s.packs (packets hdr (x.drop s.pos)).length =
            (packets hdr (x.drop s.pos)).length
          then .scanned node (x.length - (startCode.residue (x.drop s.pos)).length)
          else .failed node) := by
  -- the induction follows the cuts of the bytes behind the cursor
  generalize hd : x.drop s.pos = d
  induction d using startCode.cut_induction generalizing s with
  | hnone d hc =>
      have hr : naluRead data x.length s.pos = (0, none) :=
        naluRead_none h.le (by rw [h.dataFrom_eq, hd, hc])
      have hb : naluPass data x.length s = .leave (some (.scanned s.node s.pos)) := by
        rw [naluPass, hr]
      refine ⟨s.node, rfl, ?_, ?_⟩
      · simp [packets, Delimiter.tokens_of_none hc]
      · have hpos : x.length - d.length = s.pos := by
          rw [← hd, List.length_drop]
          omega
        rw [naluLoop, Loop.exec_leave _ hb, Delimiter.residue_of_none hc, hpos]
        simp [packets, Delimiter.tokens_of_none hc]
  | hsome d t u hc ih =>
      subst hd
      have htokens := Delimiter.tokens_of_some hc
      have hb := naluPass_of_cut h hend hlt (hh.first hc) hn hp hc
      have hpacks : (s.advance t u).packs = s.packs := rfl
      have hcat : packets hdr (x.drop s.pos) =
          packetsOf hdr t ++ packets hdr (startCode.behind u) := by
        rw [packets, htokens, List.flatMap_cons, packets]
      rw [hcat, List.length_append, served_add, Delimiter.residue_of_some hc]
      by_cases hserved : served s.packs (packetsOf hdr t).length = (packetsOf hdr t).length
      · -- all packets of this NALU are out; the rest is the scan from behind the code
        rw [serveAll, hpacks, if_pos hserved] at hb
        have hh' : HeaderFor ((s.advance t u).serve (packetsOf hdr t)).node.channel hdr
            (s.packs.drop (packetsOf hdr t).length)
            (x.drop ((s.advance t u).serve (packetsOf hdr t)).pos) := by
          have hbehind := hh.behind hc hserved
          rw [← drop_advance hc] at hbehind
          simpa [ScanState.serve] using hbehind
        obtain ⟨node, hnode, hq, hloop⟩ := ih (s := (s.advance t u).serve (packetsOf hdr t))
          hh' (NodesGranted.serve (s := s.advance t u) hn _)
          (advance_pos_le hp hc) (drop_advance hc)
        refine ⟨node, ?_, ?_, ?_⟩
        · rw [hnode]
          simp [ScanState.serve]
        · rw [hq, if_pos hserved, List.take_length_add_append]
          simp [ScanState.serve, StreamNode.enqueue, hpacks]
        · rw [naluLoop, Loop.exec_again _ hb, ← naluLoop, hloop, if_pos hserved]
          simp [ScanState.serve, hpacks]
      · have hle := served_le s.packs (packetsOf hdr t).length
        rw [serveAll, hpacks, if_neg hserved] at hb
        refine ⟨(s.advance t u).node.enqueue
          ((packetsOf hdr t).take (served s.packs (packetsOf hdr t).length)), ?_, ?_, ?_⟩
        · rw [StreamNode.enqueue_channel, advance_channel]
        · rw [if_neg hserved, List.take_append_of_le_length hle]
          simp [StreamNode.enqueue]
        · rw [naluLoop, Loop.exec_leave _ hb, if_neg hserved, if_neg (by omega)]

end VmpSa
