import VmpSa.H264.Metadata

/-!
# RTMP packets

`rtmp_data_pack` and `rtmp_meta_pack` of `mw/publish/rtmp_publish.c` with the
H.264 packager behind them, `mw/protocol/tima_rtmp_packager_h264.c`.  One
`calloc` holds the `RTMPPacket` and, behind it, room for the chunk header and
the body; `area` is that room.

Sizes and lengths pass through `int`.  A result of `none` means that the call
has no defined result: an `int` overflows, or a copy leaves its block.
`some none` is a NULL from the allocator.
-/

namespace VmpSa

/-- `RTMP_MAX_HEADER_SIZE`. -/
def rtmpMaxHeaderSize : Nat := 18

/-- `sizeof(RTMPPacket)` on a 64-bit target. -/
def sizeofRtmpPacket : Nat := 40

/-- `m_headerType`: `RTMP_PACKET_SIZE_LARGE` and the others. -/
inductive RtmpPacketSize where
  | large
  | medium
  | small
  | minimum
deriving Repr, DecidableEq

/-- `RTMPPacket` and the bytes allocated behind it.  `m_body` points
`RTMP_MAX_HEADER_SIZE` into them. -/
structure RtmpPacket where
  mHeaderType : RtmpPacketSize
  mPacketType : UInt8
  mHasAbsTimestamp : UInt8
  mNChannel : Int
  mNTimeStamp : Nat
  mNInfoField2 : Int
  mNBodySize : Nat
  area : List UInt8
deriving Repr, DecidableEq

/-- `RTMP_PACKET_TYPE_VIDEO`. -/
def rtmpPacketTypeVideo : UInt8 := 0x09

/-- A length in four bytes, high byte first. -/
def be32 (n : Nat) : List UInt8 :=
  [UInt8.ofNat (n / 2 ^ 24), UInt8.ofNat (n / 2 ^ 16), UInt8.ofNat (n / 2 ^ 8), UInt8.ofNat n]

/-- A plain `char`, signed on the target. -/
def charToInt (c : UInt8) : Int := if c.toNat < 128 then c.toNat else c.toNat - 256

namespace Packager

/-- `rtmp_body_length`. -/
def rtmpBodyLength (length : Int) : Int := length + 5 + 4 + rtmpMaxHeaderSize

/-- `rtmp_data_pack` of the packager: tag, length and payload behind the room for
the chunk header. -/
def rtmpDataPack (area data : List UInt8) (length : Int) : Option RtmpPacket :=
  if length < 0 then none
  else
    (Block.read data 0 length.toNat).bind fun payload =>
    (Block.write area rtmpMaxHeaderSize
      ([if data.getD 0 0 &&& 0x1f = 0x05 then 0x17 else 0x27, 0x01, 0x00, 0x00, 0x00] ++
        be32 length.toNat ++ payload)).map fun area =>
      { mHeaderType := .large
        mPacketType := rtmpPacketTypeVideo
        mHasAbsTimestamp := 0
        mNChannel := 0x04
        mNTimeStamp := 0
        mNInfoField2 := 0
        mNBodySize := (length + 5 + 4).toNat
        area := area }

/-- `(data[2] << 8) | data[3]` in signed characters: a negative low byte sets
every higher bit. -/
def metaSpsLen (data : List UInt8) : Int :=
  if charToInt (data.getD 3 0) < 0 then charToInt (data.getD 3 0)
  else charToInt (data.getD 2 0) * 256 + charToInt (data.getD 3 0)

/-- `rtmp_metadata`: the sequence-header tag and the decoder configuration. -/
def rtmpMetadata (area data : List UInt8) (length : Int) : Option RtmpPacket :=
  let len := metaSpsLen data
  if data.length < 8 ∨ len + 2 < 0 ∨ length - len - 6 < 0 then none
  else
    (Block.read data 2 (len + 2).toNat).bind fun sps =>
    (Block.read data (len + 6).toNat (length - len - 6).toNat).bind fun pps =>
    (Block.write area rtmpMaxHeaderSize
      ([0x17, 0x00, 0x00, 0x00, 0x00, 0x01, data.getD 5 0, data.getD 6 0, data.getD 7 0, 0xff,
        0xe1] ++ sps ++ [0x01] ++ pps)).map fun area =>
      { mHeaderType := .medium
        mPacketType := rtmpPacketTypeVideo
        mHasAbsTimestamp := 0
        mNChannel := 0x04
        mNTimeStamp := 0
        mNInfoField2 := 0
        mNBodySize := (8 + length).toNat
        area := area }

end Packager

/-- `calloc(1, size)` for a packet: the room behind the `RTMPPacket`.  A block
without room for the packet itself has no use. -/
def packetAlloc (calloc : Bool) (size : Int) : Option (Option (List UInt8)) :=
  match Block.calloc calloc size with
  | none => some none
  | some block =>
      if block.length < sizeofRtmpPacket then none else some (some (block.drop sizeofRtmpPacket))

/-- `rtmp_data_pack`. -/
def rtmpDataPack (calloc : Bool) (data : List UInt8) (length : Int) : Option (Option RtmpPacket) :=
  if 2 ^ 31 ≤ Packager.rtmpBodyLength length then none
  else
    let size := CInt.ofSize (CInt.toSize (sizeofRtmpPacket + Packager.rtmpBodyLength length))
    (packetAlloc calloc size).bind fun packet =>
      match packet with
      | none => some none
      | some area => (Packager.rtmpDataPack area data length).map some

/-- `rtmp_meta_pack`; `data` is `none` for NULL. -/
def rtmpMetaPack (calloc : Bool) (data : Option (List UInt8)) (length : Int) :
    Option (Option RtmpPacket) :=
  let size := CInt.ofSize (CInt.toSize (sizeofRtmpPacket + length + 8 + rtmpMaxHeaderSize))
  (packetAlloc calloc size).bind fun packet =>
    match packet, data with
    | none, _ => some none
    | some _, none => none
    | some area, some data => (Packager.rtmpMetadata area data length).map some

/-! ## The packets of a NALU and of the metadata -/

/-- The data packet of a NALU. -/
def dataPacket (n : List UInt8) : RtmpPacket where
  mHeaderType := .large
  mPacketType := rtmpPacketTypeVideo
  mHasAbsTimestamp := 0
  mNChannel := 0x04
  mNTimeStamp := 0
  mNInfoField2 := 0
  mNBodySize := n.length + 9
  area := List.replicate rtmpMaxHeaderSize 0 ++
    ([if naluTypeOf n = 0x05 then 0x17 else 0x27, 0x01, 0x00, 0x00, 0x00] ++ be32 n.length ++ n)

/-- The allocator refuses: NULL, whatever the NALU. -/
theorem rtmpDataPack_refused {length : Int} (h : Packager.rtmpBodyLength length < 2 ^ 31)
    (data : List UInt8) : rtmpDataPack false data length = some none := by
  rw [rtmpDataPack, if_neg (by omega)]
  rfl

theorem rtmpMetaPack_refused (data : Option (List UInt8)) (length : Int) :
    rtmpMetaPack false data length = some none := rfl

/-- A NALU short of the `int` range is packed whole.  `rest` is what follows it in
the buffer; its first byte is read when the NALU is empty. -/
theorem rtmpDataPack_granted {n rest : List UInt8} (h : n.length + 67 < 2 ^ 31)
    (hrest : n = [] → rest.getD 0 0 = 0) :
    rtmpDataPack true (n ++ rest) (CInt.ofSize n.length) = some (some (dataPacket n)) := by
  have hlen : CInt.ofSize n.length = (n.length : Nat) := CInt.ofSize_of_lt (by omega)
  have hbody : Packager.rtmpBodyLength n.length = (n.length + 27 : Nat) := by
    simp only [Packager.rtmpBodyLength, rtmpMaxHeaderSize]
    omega
  have hsize : CInt.ofSize (CInt.toSize (sizeofRtmpPacket + Packager.rtmpBodyLength n.length)) =
      (n.length + 67 : Nat) := by
    have e : (sizeofRtmpPacket : Int) + Packager.rtmpBodyLength n.length =
        (n.length + 67 : Nat) := by
      rw [hbody, sizeofRtmpPacket]
      omega
    rw [e, CInt.toSize_natCast (by omega), CInt.ofSize_of_lt h]
  have halloc : packetAlloc true (n.length + 67 : Nat) =
      some (some (List.replicate (n.length + 27) 0)) := by
    rw [packetAlloc, Block.calloc, if_pos ⟨rfl, by omega⟩]
    simp only [Int.toNat_natCast, List.length_replicate, sizeofRtmpPacket, List.drop_replicate]
    rw [if_neg (by omega)]
    rfl
  have htype : (n ++ rest).getD 0 0 &&& 0x1f = naluTypeOf n := by
    cases n with
    | nil => rw [List.nil_append, hrest rfl]; rfl
    | cons a n => rfl
  have hread : Block.read (n ++ rest) 0 n.length = some n := by
    rw [Block.read, if_pos (by rw [List.length_append]; omega), List.drop_zero, List.take_left]
  have hfront : List.replicate (n.length + 27) (0 : UInt8) =
      List.replicate rtmpMaxHeaderSize 0 ++ List.replicate (n.length + 9) 0 := by
    rw [← List.replicate_add]
    congr 1
    simp only [rtmpMaxHeaderSize]
    omega
  rw [hlen, rtmpDataPack, if_neg (by rw [hbody]; omega)]
  simp only [hsize, halloc, Option.bind_some]
  rw [Packager.rtmpDataPack, if_neg (by omega), Int.toNat_natCast, hread, Option.bind_some,
    htype, Block.write_of_le (by simp [be32, rtmpMaxHeaderSize]; omega), hfront]
  rw [List.take_left' (List.length_replicate ..),
    List.drop_eq_nil_of_le (by simp [be32, rtmpMaxHeaderSize]; omega), List.append_nil]
  simp only [Option.map_some, dataPacket]
  congr 3

end VmpSa
