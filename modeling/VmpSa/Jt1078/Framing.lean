import VmpSa.Jt1078.Input

/-!
# Framing over a connection

What the input handler makes of the bytes of a connection, over all the calls
that deliver them.

Packets with a body of 1 to 950 bytes are framed independently of how the bytes
were cut into chunks.  In general the handler has no answer to a wrong magic or
to a body length above 950: it stops without consuming or closing, and nothing
that follows changes that.  `no_wedge_iff` says which inputs it copes with.
-/

namespace VmpSa

/-! ## Well-formed packets -/

/-- `30 31 63 64`. -/
def magicCode : List UInt8 := [0x30, 0x31, 0x63, 0x64]

theorem findMagicCode_iff {x : List UInt8} : findMagicCode x = true ↔ magicCode <+: x := by
  constructor
  · intro h
    match x with
    | [] => exact absurd h (by decide)
    | [a] => simp [findMagicCode] at h
    | [a, b] => simp [findMagicCode] at h
    | [a, b, c] => simp [findMagicCode] at h
    | a :: b :: c :: d :: x =>
        simp only [findMagicCode, List.getD_cons_zero, List.getD_cons_succ, decide_eq_true_eq,
          not_or, not_not] at h
        obtain ⟨rfl, rfl, rfl, rfl⟩ := h
        exact ⟨x, rfl⟩
  · rintro ⟨t, rfl⟩
    simp [findMagicCode, magicCode]

/-- A packet: the magic, a body of 1 to 950 bytes and nothing else. -/
structure Packet where
  bytes : List UInt8
  magic : magicCode <+: bytes
  body_pos : 1 ≤ bodyLength bytes
  body_le : bodyLength bytes ≤ 950
  length : bytes.length = 30 + bodyLength bytes

namespace Packet

/-- The body of a packet. -/
def body (p : Packet) : List UInt8 := p.bytes.drop 30

/-- The type nibble is neither 3, audio, nor 4, transparent data. -/
def isVideo (p : Packet) : Bool :=
  (readHeader p.bytes).mtype &&& 0xf0 ≠ 0x30 ∧ (readHeader p.bytes).mtype &&& 0xf0 ≠ 0x40

theorem isFrame (p : Packet) : IsFrame p.bytes := by
  have hlen := p.length
  have hle := p.body_le
  exact ⟨findMagicCode_iff.mpr p.magic, by omega, by rw [hlen, jt1078StreamPackageSize]; omega⟩

/-- A beginning of a packet is not read as one. -/
theorem next_of_lt (p : Packet) {z : List UInt8} (hz : z <+: p.bytes)
    (hlt : z.length < p.bytes.length) : nextFrame z = none := by
  rw [nextFrame_none_iff]
  intro hw
  have hle := hw.length_le
  obtain ⟨t, ht⟩ := hz
  have hs := sameHeader_append (show 30 ≤ z.length by omega) t
  have hlen := p.length
  rw [ht] at hs
  rw [hs.bodyLength] at hlen
  omega

end Packet

/-- The packets that lie whole within the first `n` bytes of their concatenation. -/
def present : List Packet → Nat → List Packet
  | [], _ => []
  | p :: ps, n => if p.bytes.length ≤ n then p :: present ps (n - p.bytes.length) else []

/-- From a beginning of a concatenation of packets, the packets present are read. -/
theorem items_of_take : ∀ {ps : List Packet} {z : List UInt8},
    z <+: (ps.map Packet.bytes).flatten →
    frameReader.items z = (present ps z.length).map Packet.bytes
  | [], z, hz => by
      have hnil : z = [] := List.prefix_nil.mp hz
      rw [hnil]
      rfl
  | p :: ps, z, hz => by
      rw [List.map_cons, List.flatten_cons] at hz
      by_cases hle : p.bytes.length ≤ z.length
      · obtain ⟨z', rfl⟩ := List.prefix_of_prefix_length_le (List.prefix_append ..) hz hle
        have hz' := List.prefix_append_right_inj _ |>.mp hz
        rw [Reader.items_of_some (nextFrame_append p.isFrame z'), items_of_take hz', present,
          if_pos hle, List.length_append, Nat.add_sub_cancel_left, List.map_cons]
      · have hz' := List.prefix_of_prefix_length_le hz (List.prefix_append ..) (by omega)
        rw [Reader.items_of_none (p.next_of_lt hz' (by omega)), present, if_neg hle, List.map_nil]

theorem present_all : ∀ (ps : List Packet),
    present ps (ps.map Packet.bytes).flatten.length = ps
  | [] => rfl
  | p :: ps => by
      rw [List.map_cons, List.flatten_cons, List.length_append, present, if_pos (by omega),
        Nat.add_sub_cancel_left, present_all ps]

/-! ## What the handler logs -/

/-- What a packet hands to `h264_stream_proc`. -/
def videoOf (p : List UInt8) : List (UInt8 × List UInt8) :=
  if (readHeader p).mtype &&& 0xf0 = 0x30 then []
  else if (readHeader p).mtype &&& 0xf0 = 0x40 then []
  else [((readHeader p).channel, (p.drop 30).take (readHeader p).bodylen)]

@[simp] theorem queryOnce_videos (conn : Conn) (head : StreamHeader) :
    (queryOnce conn head).videos = conn.videos := by
  unfold queryOnce
  split_ifs <;> rfl

theorem consume_videos (conn : Conn) (p : List UInt8) :
    (conn.consume p).videos = conn.videos ++ videoOf p := by
  change (handOver (queryOnce conn (readHeader p)) (readHeader p) (p.drop 30)).videos = _
  rw [← queryOnce_videos conn (readHeader p)]
  unfold handOver videoOf
  split_ifs
  · rw [List.append_nil]
  · rw [List.append_nil]
  · rfl

theorem consumeAll_removed : ∀ (ps : List (List UInt8)) (conn : Conn),
    (conn.consumeAll ps).removed = conn.removed ++ ps
  | [], conn => (List.append_nil _).symm
  | p :: ps, conn => by
      change ((conn.consume p).consumeAll ps).removed = _
      rw [consumeAll_removed ps, consume_removed, List.append_assoc, List.singleton_append]

theorem consumeAll_videos : ∀ (ps : List (List UInt8)) (conn : Conn),
    (conn.consumeAll ps).videos = conn.videos ++ ps.flatMap videoOf
  | [], conn => (List.append_nil _).symm
  | p :: ps, conn => by
      change ((conn.consume p).consumeAll ps).videos = _
      rw [consumeAll_videos ps, consume_videos, List.append_assoc, List.flatMap_cons]

/-- Neither audio nor transparent data. -/
def isVideoPacket (p : List UInt8) : Bool :=
  (readHeader p).mtype &&& 0xf0 ≠ 0x30 ∧ (readHeader p).mtype &&& 0xf0 ≠ 0x40

theorem videoOf_eq (p : List UInt8) :
    videoOf p = if isVideoPacket p then
      [((readHeader p).channel, (p.drop 30).take (readHeader p).bodylen)] else [] := by
  rw [videoOf]
  by_cases h3 : (readHeader p).mtype &&& 0xf0 = 0x30
  · rw [if_pos h3, if_neg (by rw [isVideoPacket, decide_eq_true_eq]; exact fun h => h.1 h3)]
  · rw [if_neg h3]
    by_cases h4 : (readHeader p).mtype &&& 0xf0 = 0x40
    · rw [if_pos h4, if_neg (by rw [isVideoPacket, decide_eq_true_eq]; exact fun h => h.2 h4)]
    · rw [if_neg h4, if_pos (by rw [isVideoPacket, decide_eq_true_eq]; exact ⟨h3, h4⟩)]

theorem videoOf_packet (p : Packet) :
    videoOf p.bytes = if p.isVideo then [((readHeader p.bytes).channel, p.body)] else [] := by
  have hbody : (p.bytes.drop 30).take (readHeader p.bytes).bodylen = p.body := by
    have hlen := p.length
    rw [Packet.body, List.take_of_length_le]
    rw [List.length_drop, hlen, Nat.add_sub_cancel_left]
    exact Nat.le_refl (bodyLength p.bytes)
  have hvideo : isVideoPacket p.bytes = p.isVideo := rfl
  rw [videoOf_eq, hbody, hvideo]

theorem flatMap_videoOf (ps : List Packet) :
    (ps.map Packet.bytes).flatMap videoOf =
      (ps.filter Packet.isVideo).map fun p => ((readHeader p.bytes).channel, p.body) := by
  induction ps with
  | nil => rfl
  | cons p ps ih =>
      rw [List.map_cons, List.flatMap_cons, ih, videoOf_packet, List.filter_cons]
      cases p.isVideo <;> rfl

/-! ## Chunks -/

/-- A chunk arrives and the handler runs. -/
def receive (conn : Conn) (chunk : List UInt8) : Conn :=
  streamInputHandler condSet { conn with input := conn.input ++ chunk }

/-- Chunks arrive one after the other. -/
def receiveAll (conn : Conn) (chunks : List (List UInt8)) : Conn := chunks.foldl receive conn

/-- What a connection that began as `conn` has become after the bytes `z`. -/
structure Framed (conn : Conn) (z : List UInt8) (conn' : Conn) : Prop where
  input : conn'.input = frameReader.rest z
  removed : conn'.removed = conn.removed ++ frameReader.items z
  videos : conn'.videos = conn.videos ++ (frameReader.items z).flatMap videoOf

/-- The step: unless a packet of a header's length is among them, all packets of
the bytes so far are out. -/
theorem Framed.receive {conn conn' : Conn} {z c : List UInt8} (h : Framed conn z conn')
    (hlong : ∀ q ∈ frameReader.items (z ++ c), q.length ≠ 30) :
    Framed conn (z ++ c) (receive conn' c) := by
  have hitems := Reader.items_append (d := frameReader) z c
  have hin : ({ conn' with input := conn'.input ++ c } : Conn).input = frameReader.rest z ++ c := by
    rw [← h.input]
  have hs := handler_spec { conn' with input := conn'.input ++ c }
  rw [VmpSa.receive]
  cases hs with
  | all _ heq hleft =>
      rw [hin] at heq hleft
      refine ⟨hleft.trans (Reader.rest_append z c).symm, ?_, ?_⟩
      · rw [heq, consumeAll_removed, hitems, ← List.append_assoc, ← h.removed]
      · rw [heq, consumeAll_videos, hitems, List.flatMap_append, ← List.append_assoc, ← h.videos]
  | butLast hst =>
      obtain ⟨ps, q, hi, -, hq, -⟩ := hst
      rw [hin] at hi
      refine absurd hq (hlong q ?_)
      rw [hitems, hi]
      simp

/-- The run, over the chunks of a concatenation of packets. -/
theorem framed_of_chunks {ps : List Packet} {conn : Conn} :
    ∀ {chunks : List (List UInt8)} {z : List UInt8} {conn' : Conn}, Framed conn z conn' →
      z ++ chunks.flatten <+: (ps.map Packet.bytes).flatten →
      Framed conn (z ++ chunks.flatten) (receiveAll conn' chunks)
  | [], z, conn', h, _ => by
      rwa [List.flatten_nil, List.append_nil]
  | c :: chunks, z, conn', h, hz => by
      rw [List.flatten_cons, ← List.append_assoc] at hz ⊢
      refine framed_of_chunks (h.receive ?_) hz
      intro q hq
      rw [items_of_take ((List.prefix_append ..).trans hz)] at hq
      obtain ⟨p, -, rfl⟩ := List.mem_map.mp hq
      have hlen := p.length
      have hpos := p.body_pos
      omega

/-- The handler ends on every call. -/
theorem handler_ends (conn : Conn) :
    Loop.Ends (handlerPass condSet) ⟨conn.input.length, 0, conn⟩
      (streamInputHandler condSet conn) := by
  rw [streamInputHandler, if_neg (by decide)]
  exact Loop.ends_exec _ _

/-- However the packets are cut into chunks: after each chunk exactly the packets
present so far have been removed and the video bodies among them handed over,
after the last one nothing is left, the handler ends on every call, and the
parser never returns more than it was given. -/
theorem framing_independent_of_chunks (ps : List Packet) (chunks : List (List UInt8)) (conn : Conn)
    (hempty : conn.input = []) (hbytes : chunks.flatten = (ps.map Packet.bytes).flatten) :
    (∀ before after, chunks = before ++ after →
      (receiveAll conn before).removed =
        conn.removed ++ (present ps before.flatten.length).map Packet.bytes ∧
      (receiveAll conn before).videos = conn.videos ++
        ((present ps before.flatten.length).filter Packet.isVideo).map
          (fun p => ((readHeader p.bytes).channel, p.body)) ∧
      before.flatten = ((present ps before.flatten.length).map Packet.bytes).flatten ++
        (receiveAll conn before).input) ∧
    (receiveAll conn chunks).input = [] ∧ (receiveAll conn chunks).removed =
      conn.removed ++ ps.map Packet.bytes ∧
    (∀ conn', Loop.Ends (handlerPass condSet) ⟨conn'.input.length, 0, conn'⟩
      (streamInputHandler condSet conn')) ∧
    ∀ (packet : List UInt8) (length : Int) (head : StreamHeader), 0 ≤ length →
      (packetJt1078Parse packet length head).1 ≤ length := by
  have hstart : Framed conn [] conn :=
    ⟨hempty, (List.append_nil _).symm, (List.append_nil _).symm⟩
  have hframed : ∀ before after, chunks = before ++ after →
      frameReader.items before.flatten = (present ps before.flatten.length).map Packet.bytes ∧
      Framed conn before.flatten (receiveAll conn before) := by
    intro before after hsplit
    have hz : before.flatten <+: (ps.map Packet.bytes).flatten := by
      rw [← hbytes, hsplit, List.flatten_append]
      exact List.prefix_append ..
    exact ⟨items_of_take hz, framed_of_chunks hstart hz⟩
  obtain ⟨hitems, hall⟩ := hframed chunks [] (List.append_nil _).symm
  rw [hbytes, present_all] at hitems
  rw [hbytes] at hall
  refine ⟨fun before after hsplit => ?_, ?_, by rw [hall.removed, hitems], handler_ends,
    fun packet length head hl => parse_le packet hl head⟩
  · obtain ⟨hi, hf⟩ := hframed before after hsplit
    refine ⟨by rw [hf.removed, hi], by rw [hf.videos, hi, flatMap_videoOf], ?_⟩
    rw [← hi, hf.input, flatten_items]
  · have hflat := flatten_items (ps.map Packet.bytes).flatten
    rw [hitems] at hflat
    rw [hall.input]
    exact List.append_right_eq_self.mp hflat

/-- The smallest packet: a header and one byte. -/
def smallPacket : Packet where
  bytes := magicCode ++ List.replicate 25 0 ++ [1, 0xaa]
  magic := by decide
  body_pos := by decide
  body_le := by decide
  length := by decide

theorem framing_smallPacket :
    (receiveAll .init [smallPacket.bytes.take 7,
        smallPacket.bytes.drop 7 ++ smallPacket.bytes]).removed =
        [smallPacket.bytes, smallPacket.bytes] ∧
      (receiveAll .init [smallPacket.bytes.take 7,
        smallPacket.bytes.drop 7 ++ smallPacket.bytes]).input = [] := by
  obtain ⟨-, hinput, hremoved, -⟩ := framing_independent_of_chunks [smallPacket, smallPacket]
    [smallPacket.bytes.take 7, smallPacket.bytes.drop 7 ++ smallPacket.bytes] .init rfl (by decide)
  exact ⟨hremoved, hinput⟩

/-! ## Inputs that wedge the connection -/

/-- The input begins with a complete packet, of whatever length. -/
def BeginsComplete (x : List UInt8) : Prop := magicCode <+: x ∧ 30 + bodyLength x ≤ x.length

/-- The handler leaves no complete packet at the front, and some continuation of
what it leaves makes a later call consume something. -/
def NoWedge (conn : Conn) : Prop :=
  ¬ BeginsComplete (streamInputHandler condSet conn).input ∧
    ∃ y, (streamInputHandler condSet { streamInputHandler condSet conn with
        input := (streamInputHandler condSet conn).input ++ y }).input.length <
      ((streamInputHandler condSet conn).input ++ y).length

/-- A beginning of a packet the parser can accept: it agrees with the magic, and
the body length, as far as it is there, is at most 950. -/
def Viable (t : List UInt8) : Prop := t.take 4 <+: magicCode ∧ bodyLength t ≤ 950

instance (t : List UInt8) : Decidable (Viable t) := inferInstanceAs (Decidable (_ ∧ _))

/-- Bytes that are still missing count as zero, so more bytes never announce a
shorter body. -/
theorem bodyLength_le_append (t y : List UInt8) : bodyLength t ≤ bodyLength (t ++ y) := by
  by_cases h28 : t.length ≤ 28
  · have h := List.getD_eq_default t 0 h28
    have h' := List.getD_eq_default t 0 (show t.length ≤ 29 by omega)
    rw [bodyLength, h, h']
    split <;> exact Nat.zero_le _
  · rw [bodyLength, bodyLength, List.getD_append t y 0 15 (by omega),
      List.getD_append t y 0 28 (by omega)]
    split
    · exact Nat.le_refl _
    · by_cases h29 : t.length ≤ 29
      · rw [List.getD_eq_default t 0 h29, UInt8.toNat_zero]
        omega
      · rw [List.getD_append t y 0 29 (by omega)]

/-- The missing part of a header: the rest of the magic, and zeros. -/
def headerTail (t : List UInt8) : List UInt8 := (magicCode ++ List.replicate 26 0).drop t.length

theorem magic_headerTail {t : List UInt8} (h : t.take 4 <+: magicCode) :
    magicCode <+: t ++ headerTail t := by
  by_cases h4 : 4 ≤ t.length
  · have hlen : (t.take 4).length = magicCode.length := by
      rw [List.length_take, Nat.min_eq_left h4]
      rfl
    rw [← h.eq_of_length hlen]
    exact (List.take_prefix 4 t).trans (List.prefix_append ..)
  · rw [List.take_of_length_le (by omega)] at h
    obtain ⟨s, hs⟩ := h
    have htail : headerTail t = s ++ List.replicate 26 0 := by
      rw [headerTail, ← hs, List.append_assoc, List.drop_left]
    rw [htail, ← List.append_assoc, hs]
    exact List.prefix_append ..

theorem bodyLength_headerTail (t : List UInt8) : bodyLength (t ++ headerTail t) = bodyLength t := by
  have hget : ∀ i, 4 ≤ i → i < 30 → (t ++ headerTail t).getD i 0 = t.getD i 0 := by
    intro i hi hlt
    by_cases hin : i < t.length
    · exact List.getD_append _ _ _ _ hin
    · rw [List.getD_append_right _ _ _ _ (by omega), List.getD_eq_default t 0 (by omega),
        headerTail, List.getD_eq_getElem?_getD, List.getElem?_drop, Nat.add_sub_cancel' (by omega),
        List.getElem?_append_right hi, List.getElem?_replicate]
      split <;> rfl
  rw [bodyLength, bodyLength, hget 15 (by omega) (by omega), hget 28 (by omega) (by omega),
    hget 29 (by omega) (by omega)]

theorem viable_iff {t : List UInt8} : Viable t ↔ ∃ y, Whole (t ++ y) := by
  constructor
  · rintro ⟨hmagic, hbody⟩
    have h30 : 30 ≤ (t ++ headerTail t).length := by
      rw [List.length_append, headerTail, List.length_drop]
      simp only [magicCode, List.length_append, List.length_cons, List.length_nil,
        List.length_replicate]
      omega
    have hs := sameHeader_append h30 (List.replicate (bodyLength t) 0)
    refine ⟨headerTail t ++ List.replicate (bodyLength t) 0, ?_⟩
    rw [← List.append_assoc]
    refine ⟨hs.findMagicCode.trans (findMagicCode_iff.mpr (magic_headerTail hmagic)), ?_⟩
    rw [hs.bodyLength, bodyLength_headerTail, List.length_append, List.length_replicate,
      jt1078StreamPackageSize]
    omega
  · rintro ⟨y, hw⟩
    have hmagic := findMagicCode_iff.mp hw.1
    have hle := hw.2
    have hmono := bodyLength_le_append t y
    refine ⟨?_, by rw [jt1078StreamPackageSize] at hle; omega⟩
    have htake : (t.take 4) <+: t ++ y := (List.take_prefix 4 t).trans (List.prefix_append ..)
    exact List.prefix_of_prefix_length_le htake hmagic (List.length_take_le 4 t)

/-- What is taken off as a packet is one. -/
theorem isFrame_of_mem_items {x q : List UInt8} (h : q ∈ frameReader.items x) : IsFrame q := by
  induction x using frameReader.next_induction with
  | hnone x hn => rw [Reader.items_of_none hn] at h; cases h
  | hsome x p r hn ih =>
      rw [Reader.items_of_some hn] at h
      cases List.mem_cons.mp h with
      | inl heq => exact heq ▸ (nextFrame_some hn).2
      | inr hmem => exact ih hmem

/-- With no whole packet at the front the handler leaves the connection as it
is. -/
theorem handler_of_none {conn : Conn} (h : nextFrame conn.input = none) :
    streamInputHandler condSet conn = conn := by
  rw [streamInputHandler, if_neg (by decide)]
  rw [Loop.exec_leave _ (handlerPass_none h)]

/-- A call consumes something exactly when a whole packet is at the front. -/
theorem handler_consumes_iff (conn : Conn) :
    (streamInputHandler condSet conn).input.length < conn.input.length ↔ Whole conn.input := by
  have hflat := congrArg List.length (flatten_items conn.input)
  constructor
  · intro hlt
    by_contra hno
    rw [handler_of_none (nextFrame_none_iff.mpr hno)] at hlt
    exact Nat.lt_irrefl _ hlt
  · intro hw
    have hsome : nextFrame conn.input = some _ := if_pos hw
    have hi := Reader.items_of_some (d := frameReader) hsome
    have hp := (nextFrame_some hsome).2.length
    cases handler_spec conn with
    | all _ _ hleft =>
        rw [hleft]
        rw [hi, List.length_append, List.flatten_cons, List.length_append] at hflat
        omega
    | @butLast ps q hst hitems _ hleft _ =>
        obtain ⟨ps', q', hi', hne, -, -⟩ := hst
        rw [← (List.append_inj' (hitems.symm.trans hi') rfl).1] at hne
        match ps, hne with
        | p' :: ps, _ =>
            have hframe : IsFrame p' := isFrame_of_mem_items (x := conn.input) (by
              rw [hitems]
              simp)
            have hlen := hframe.length
            rw [hleft]
            rw [hitems, List.length_append, List.flatten_append, List.flatten_cons,
              List.length_append, List.length_append, List.flatten_cons,
              List.length_append] at hflat
            omega

/-- The handler does not wedge the connection exactly when what follows the
packets in the input is the beginning of a packet of at most 980 bytes and no
last packet is stranded. -/
theorem no_wedge_iff (conn : Conn) :
    NoWedge conn ↔ Viable (frameReader.rest conn.input) ∧ ¬ StrandsLast conn.input := by
  have hconsume : (∃ y, (streamInputHandler condSet { streamInputHandler condSet conn with
        input := (streamInputHandler condSet conn).input ++ y }).input.length <
      ((streamInputHandler condSet conn).input ++ y).length) ↔
      Viable (streamInputHandler condSet conn).input := by
    rw [viable_iff]
    exact exists_congr fun y => handler_consumes_iff _
  rw [NoWedge, hconsume]
  cases handler_spec conn with
  | all hno _ hleft =>
      rw [hleft]
      refine ⟨fun h => ⟨h.2, hno⟩, fun h => ⟨?_, h.1⟩⟩
      rintro ⟨hmagic, hle⟩
      have hbody := h.1.2
      refine nextFrame_none_iff.mp (frameReader.next_rest conn.input)
        ⟨findMagicCode_iff.mpr hmagic, ?_⟩
      rw [jt1078StreamPackageSize]
      omega
  | butLast hst _ _ hleft hq =>
      refine ⟨fun h => absurd ?_ h.1, fun h => absurd hst h.2⟩
      rw [hleft]
      have hlen := hq.length
      exact ⟨findMagicCode_iff.mp hq.magic, by omega⟩

/-- A complete packet with a body of 951 bytes, one more than the copy window
holds. -/
def oversized : List UInt8 :=
  (magicCode ++ List.replicate 24 0 ++ [0x03, 0xb7]) ++ List.replicate 951 0

theorem oversized_wedges :
    BeginsComplete oversized ∧ ¬ NoWedge { Conn.init with input := oversized } := by
  have hs : SameHeader oversized (magicCode ++ List.replicate 24 0 ++ [0x03, 0xb7]) :=
    sameHeader_append (by decide) _
  have hbody : bodyLength oversized = 951 := hs.bodyLength.trans (by decide)
  have hlen : oversized.length = 981 := by
    rw [oversized, List.length_append, List.length_replicate]
    rfl
  have hcomplete : BeginsComplete oversized := by
    refine ⟨?_, by rw [hbody, hlen]⟩
    rw [oversized, List.append_assoc, List.append_assoc]
    exact List.prefix_append ..
  have hnone : nextFrame oversized = none := by
    rw [nextFrame_none_iff]
    rintro ⟨-, hle⟩
    rw [hbody, jt1078StreamPackageSize] at hle
    omega
  refine ⟨hcomplete, fun h => h.1 ?_⟩
  have hout : streamInputHandler condSet { Conn.init with input := oversized } =
      { Conn.init with input := oversized } := handler_of_none hnone
  rw [hout]
  exact hcomplete

end VmpSa
