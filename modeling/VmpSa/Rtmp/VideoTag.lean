import VmpSa.Lib.Wire
import VmpSa.Rtmp.Packager

/-!
# The packets read back

What a player makes of the packets of `mw/publish/rtmp_publish.c`.  A data
packet carries an AVC NALU tag, a sequence header carries an AVC
sequence-header tag with an `AVCDecoderConfigurationRecord`.  The two readers
here are written from those formats and not from the packager.

A data packet reads back as its NALU.  A sequence header does so for some
lengths of the SPS only: `rtmp_metadata` puts the length together from signed
characters, and a byte of `0x80` or more in it makes the length negative.
-/

namespace VmpSa

/-- The bytes at `m_body`. -/
def RtmpPacket.body (p : RtmpPacket) : List UInt8 :=
  (p.area.drop rtmpMaxHeaderSize).take p.mNBodySize

/-- An AVC video tag with packet type 1 and one NALU behind its length. -/
structure NaluTag where
  frame : UInt8
  compositionTime : Nat
  length : Nat
  payload : List UInt8
deriving Repr, DecidableEq

def readNaluTag : List UInt8 → Option NaluTag
  | frame :: packetType :: x =>
      if packetType = 1 then
        (Wire.readWord 3 x).bind fun time =>
        (Wire.readWord 4 time.2).bind fun length =>
          if length.2.length = length.1 then
            some
              { frame := frame
                compositionTime := time.1
                length := length.1
                payload := length.2 }
          else none
      else none
  | _ => none

/-- `AVCDecoderConfigurationRecord`. -/
structure DecoderConfiguration where
  profile : UInt8
  compatibility : UInt8
  level : UInt8
  /-- `lengthSizeMinusOne + 1`. -/
  lengthSize : Nat
  sps : List (List UInt8)
  pps : List (List UInt8)
deriving Repr, DecidableEq

def readDecoderConfiguration : List UInt8 → Option DecoderConfiguration
  | version :: profile :: compatibility :: level :: lengthSize :: spsCount :: x =>
      if version = 1 then
        (Wire.readBlobs 2 (spsCount &&& 0x1f).toNat x).bind fun sps =>
        match sps.2 with
        | ppsCount :: x =>
            (Wire.readBlobs 2 ppsCount.toNat x).bind fun pps =>
              if pps.2 = [] then
                some
                  { profile := profile
                    compatibility := compatibility
                    level := level
                    lengthSize := (lengthSize &&& 0x03).toNat + 1
                    sps := sps.1
                    pps := pps.1 }
              else none
        | [] => none
      else none
  | _ => none

/-- A key frame of an AVC sequence header with composition time zero, and the
configuration behind it. -/
def readSequenceHeader (x : List UInt8) : Option DecoderConfiguration :=
  if x.take 5 = [0x17, 0x00, 0x00, 0x00, 0x00] then readDecoderConfiguration (x.drop 5) else none

/-! ## Data packets -/

theorem be32_eq_word (n : Nat) : be32 n = Wire.word 4 n := by
  simp only [be32, Wire.word, Nat.div_div_eq_div_mul]
  rfl

theorem len16_eq_word (n : Nat) : len16 n = Wire.word 2 n := rfl

/-- The frame byte of a NALU. -/
def frameByte (n : List UInt8) : UInt8 := if naluTypeOf n = 0x05 then 0x17 else 0x27

theorem frameByte_key (n : List UInt8) : frameByte n = 0x17 ↔ naluTypeOf n = 0x05 := by
  unfold frameByte
  split
  next h => exact ⟨fun _ => h, fun _ => rfl⟩
  next h => exact ⟨fun he => absurd he (by decide), fun he => absurd he h⟩

/-- The body of the data packet of a NALU. -/
def dataBody (n : List UInt8) : List UInt8 :=
  [frameByte n, 0x01, 0x00, 0x00, 0x00] ++ be32 n.length ++ n

theorem length_dataBody (n : List UInt8) : (dataBody n).length = n.length + 9 := by
  simp [dataBody, be32]

theorem dataPacket_area (n : List UInt8) :
    (dataPacket n).area = List.replicate rtmpMaxHeaderSize 0 ++ dataBody n := rfl

theorem dataPacket_body (n : List UInt8) : (dataPacket n).body = dataBody n := by
  rw [RtmpPacket.body, dataPacket_area, List.drop_left' (List.length_replicate ..)]
  exact List.take_of_length_le (by rw [length_dataBody]; rfl)

theorem readNaluTag_dataBody {n : List UInt8} (h : n.length < 2 ^ 31) :
    readNaluTag (dataBody n) = some ⟨frameByte n, 0, n.length, n⟩ := by
  have htime : Wire.readWord 3 (0x00 :: 0x00 :: 0x00 :: (be32 n.length ++ n)) =
      some (0, be32 n.length ++ n) :=
    Wire.readWord_word_append (n := 0) (by decide)
  have hlength : Wire.readWord 4 (be32 n.length ++ n) = some (n.length, n) := by
    rw [be32_eq_word]
    exact Wire.readWord_word_append (by omega)
  simp only [dataBody, List.cons_append, List.nil_append, readNaluTag, if_true, htime,
    Option.bind_some, hlength]

/-- The packager writes the body of a NALU into every block with room for it and
leaves the bytes in front and behind as they are. -/
theorem Packager.rtmpDataPack_writes {n rest area : List UInt8} (hne : 1 ≤ n.length)
    (harea : rtmpMaxHeaderSize + (n.length + 9) ≤ area.length) :
    Packager.rtmpDataPack area (n ++ rest) n.length = some { dataPacket n with
      area := area.take rtmpMaxHeaderSize ++ dataBody n ++
        area.drop (rtmpMaxHeaderSize + (n.length + 9)) } := by
  have htype : (n ++ rest).getD 0 0 &&& 0x1f = naluTypeOf n := by
    cases n with
    | nil => cases hne
    | cons a n => rfl
  have hread : Block.read (n ++ rest) 0 n.length = some n := by
    rw [Block.read, if_pos (by rw [List.length_append]; omega), List.drop_zero, List.take_left]
  have hwrite : Block.write area rtmpMaxHeaderSize (dataBody n) = some
      (area.take rtmpMaxHeaderSize ++ dataBody n ++
        area.drop (rtmpMaxHeaderSize + (n.length + 9))) := by
    rw [Block.write_of_le (by rw [length_dataBody]; exact harea), length_dataBody]
  rw [Packager.rtmpDataPack, if_neg (by omega), Int.toNat_natCast, hread, Option.bind_some, htype]
  exact (congrArg (Option.map _) hwrite).trans rfl

/-- Every NALU that fits an `int` with the packet around it is packed into a block
of exactly the packet, the header room and the body; exactly the body is
written; and the body reads back as the NALU. -/
theorem rtmpDataPack_reads_back (n rest : List UInt8) (hne : 1 ≤ n.length)
    (h : n.length + 27 + sizeofRtmpPacket < 2 ^ 31) :
    ∃ p, rtmpDataPack true (n ++ rest) n.length = some (some p) ∧
      sizeofRtmpPacket + p.area.length = sizeofRtmpPacket + rtmpMaxHeaderSize + p.mNBodySize ∧
      p.mNBodySize = n.length + 9 ∧ p.body.length = p.mNBodySize ∧
      (∀ area : List UInt8, p.area.length ≤ area.length →
        Packager.rtmpDataPack area (n ++ rest) n.length = some { p with
          area := area.take rtmpMaxHeaderSize ++ p.body ++ area.drop p.area.length }) ∧
      ∃ tag, readNaluTag p.body = some tag ∧ tag.compositionTime = 0 ∧ tag.length = n.length ∧
        tag.payload = n ∧ (tag.frame = 0x17 ↔ naluTypeOf n = 0x05) := by
  have hlt : n.length + 67 < 2 ^ 31 := by
    rw [sizeofRtmpPacket] at h
    omega
  have hpack : rtmpDataPack true (n ++ rest) (CInt.ofSize n.length) = some (some (dataPacket n)) :=
    rtmpDataPack_granted hlt fun h0 => absurd hne (by rw [h0]; decide)
  rw [CInt.ofSize_of_lt (by omega)] at hpack
  have hsize : (dataPacket n).area.length = rtmpMaxHeaderSize + (n.length + 9) := by
    rw [dataPacket_area, List.length_append, List.length_replicate, length_dataBody]
  refine ⟨dataPacket n, hpack, ?_, rfl, ?_, ?_, ?_⟩
  · rw [hsize, Nat.add_assoc]
    rfl
  · rw [dataPacket_body, length_dataBody]
    rfl
  · intro area harea
    rw [hsize] at harea ⊢
    rw [dataPacket_body]
    exact Packager.rtmpDataPack_writes hne harea
  · rw [dataPacket_body]
    exact ⟨_, readNaluTag_dataBody (by omega), rfl, rfl, rfl, frameByte_key n⟩

/-- An IDR slice of three bytes, packed out of a longer buffer. -/
theorem rtmpDataPack_reads_back_idr :
    1 ≤ [0x65, 0x88, (0x84 : UInt8)].length ∧
      ∃ p, rtmpDataPack true ([0x65, 0x88, 0x84] ++ [0x00]) (3 : Nat) = some (some p) ∧
        p.mNBodySize = 12 ∧ p.area.length = 30 := by
  refine ⟨by decide, ?_⟩
  obtain ⟨p, hp, hsize, hbody, -⟩ :=
    rtmpDataPack_reads_back [0x65, 0x88, 0x84] [0x00] (by decide) (by decide)
  refine ⟨p, hp, hbody, ?_⟩
  rw [hbody] at hsize
  exact Nat.add_left_cancel (hsize.trans (Nat.add_assoc ..))

/-! ## Sequence headers -/

variable {sps pps area : List UInt8}

/-- The body of the sequence header of two parameter sets. -/
def metaBody (sps pps : List UInt8) : List UInt8 :=
  [0x17, 0x00, 0x00, 0x00, 0x00, 0x01, sps.getD 1 0, sps.getD 2 0, sps.getD 3 0, 0xff, 0xe1] ++
    Wire.blob 2 sps ++ [0x01] ++ Wire.blob 2 pps

theorem length_metaBody (sps pps : List UInt8) :
    (metaBody sps pps).length = sps.length + pps.length + 8 + 8 := by
  simp only [metaBody, Wire.blob, List.length_append, Wire.length_word, List.length_cons,
    List.length_nil]
  omega

/-- The sequence header of two parameter sets. -/
def metaPacket (sps pps : List UInt8) : RtmpPacket where
  mHeaderType := .medium
  mPacketType := rtmpPacketTypeVideo
  mHasAbsTimestamp := 0
  mNChannel := 0x04
  mNTimeStamp := 0
  mNInfoField2 := 0
  mNBodySize := sps.length + pps.length + 8 + 8
  area := List.replicate rtmpMaxHeaderSize 0 ++ metaBody sps pps

theorem metaPacket_body (sps pps : List UInt8) : (metaPacket sps pps).body = metaBody sps pps := by
  rw [RtmpPacket.body, metaPacket, List.drop_left' (List.length_replicate ..)]
  exact List.take_of_length_le (by rw [length_metaBody])

theorem readSequenceHeader_metaBody (hs : sps.length < 2 ^ 16) (hp : pps.length < 2 ^ 16) :
    readSequenceHeader (metaBody sps pps) =
      some ⟨sps.getD 1 0, sps.getD 2 0, sps.getD 3 0, 4, [sps], [pps]⟩ := by
  have hsps : Wire.readBlobs 2 1 (Wire.blob 2 sps ++ 0x01 :: Wire.blob 2 pps) =
      some ([sps], 0x01 :: Wire.blob 2 pps) := Wire.readBlobs_one (by simpa using hs)
  have hpps : Wire.readBlobs 2 1 (Wire.blob 2 pps) = some ([pps], []) := by
    have h : Wire.readBlobs 2 1 (Wire.blob 2 pps ++ []) = some ([pps], []) :=
      Wire.readBlobs_one (by simpa using hp)
    rwa [List.append_nil] at h
  have hcount : ((0xe1 : UInt8) &&& 0x1f).toNat = 1 := by decide
  have hone : (0x01 : UInt8).toNat = 1 := by decide
  simp only [readSequenceHeader, metaBody, List.cons_append, List.nil_append, List.append_assoc,
    List.take_succ_cons, List.take_zero, if_true, List.drop_succ_cons, List.drop_zero,
    readDecoderConfiguration, hcount, hsps, Option.bind_some, hone, hpps]
  rfl

/-- The metadata block begins with the length and the bytes of the SPS. -/
theorem metaLayout_eq (sps pps : List UInt8) :
    metaLayout sps pps = 0 :: 0 :: (Wire.blob 2 sps ++ (0 :: 0 :: Wire.blob 2 pps)) := by
  simp [metaLayout, len16_eq_word, Wire.blob]

theorem length_metaLayout (sps pps : List UInt8) :
    (metaLayout sps pps).length = sps.length + pps.length + 8 := by
  simp only [metaLayout_eq, Wire.blob, List.length_cons, List.length_append, Wire.length_word]
  omega

/-- The length `rtmp_metadata` computes from the block. -/
theorem metaSpsLen_metaLayout (sps pps : List UInt8) :
    Packager.metaSpsLen (metaLayout sps pps) =
      if charToInt (UInt8.ofNat sps.length) < 0 then charToInt (UInt8.ofNat sps.length)
      else charToInt (UInt8.ofNat (sps.length / 256)) * 256 +
        charToInt (UInt8.ofNat sps.length) := rfl

theorem charToInt_ofNat (n : Nat) :
    charToInt (UInt8.ofNat n) = if n % 256 < 128 then ((n % 256 : Nat) : Int)
      else (n % 256 : Nat) - 256 := by
  simp only [charToInt, UInt8.toNat_ofNat']

/-- The computed length is the length of the SPS exactly when neither of its two
bytes is negative as a character; otherwise it is negative. -/
theorem metaSpsLen_cases (sps pps : List UInt8) (h : sps.length < 2 ^ 16) :
    sps.length % 256 < 128 ∧ sps.length < 2 ^ 15 ∧
        Packager.metaSpsLen (metaLayout sps pps) = sps.length ∨
      ¬ (sps.length % 256 < 128 ∧ sps.length < 2 ^ 15) ∧
        (Packager.metaSpsLen (metaLayout sps pps) + 2 < 0 ∨
          128 ≤ sps.length % 256 ∧
            Packager.metaSpsLen (metaLayout sps pps) = (sps.length % 256 : Nat) - 256) := by
  have hlow := charToInt_ofNat sps.length
  have hhigh := charToInt_ofNat (sps.length / 256)
  rw [metaSpsLen_metaLayout]
  rcases Nat.lt_or_ge (sps.length % 256) 128 with h128 | h128
  · rw [if_pos h128] at hlow
    rw [if_neg (by omega), hlow, hhigh]
    split
    next hhigh => exact Or.inl ⟨h128, by omega, by omega⟩
    next hhigh => exact Or.inr ⟨by omega, Or.inl (by omega)⟩
  · rw [if_neg (by omega)] at hlow
    rw [if_pos (by omega)]
    exact Or.inr ⟨by omega, Or.inr ⟨h128, hlow⟩⟩

/-- With the length read right, the packager writes the body into every block with
room for it. -/
theorem Packager.rtmpMetadata_writes (h4 : 4 ≤ sps.length)
    (hlen : Packager.metaSpsLen (metaLayout sps pps) = sps.length)
    (harea : rtmpMaxHeaderSize + (sps.length + pps.length + 8 + 8) ≤ area.length) :
    Packager.rtmpMetadata area (metaLayout sps pps) (sps.length + pps.length + 8 : Nat) = some
      { metaPacket sps pps with
        area := area.take rtmpMaxHeaderSize ++ metaBody sps pps ++
          area.drop (rtmpMaxHeaderSize + (sps.length + pps.length + 8 + 8)) } := by
  have hblob : (Wire.blob 2 sps).length = sps.length + 2 := by
    rw [Wire.blob, List.length_append, Wire.length_word, Nat.add_comm]
  have hblob' : (Wire.blob 2 pps).length = pps.length + 2 := by
    rw [Wire.blob, List.length_append, Wire.length_word, Nat.add_comm]
  have hsps : Block.read (metaLayout sps pps) 2 ((sps.length : Int) + 2).toNat =
      some (Wire.blob 2 sps) := by
    have hto : ((sps.length : Int) + 2).toNat = (Wire.blob 2 sps).length := by omega
    rw [hto, Block.read, if_pos (by rw [length_metaLayout]; omega), metaLayout_eq]
    simp only [List.drop_succ_cons, List.drop_zero, List.take_left]
  have hpps : Block.read (metaLayout sps pps) ((sps.length : Int) + 6).toNat
      (((sps.length + pps.length + 8 : Nat) : Int) - sps.length - 6).toNat =
      some (Wire.blob 2 pps) := by
    have hto : ((sps.length : Int) + 6).toNat = (Wire.blob 2 sps).length + 2 + 2 := by omega
    have hto' : (((sps.length + pps.length + 8 : Nat) : Int) - sps.length - 6).toNat =
      (Wire.blob 2 pps).length := by omega
    rw [hto, hto', Block.read, if_pos (by rw [length_metaLayout]; omega), metaLayout_eq]
    rw [List.drop_succ_cons, List.drop_succ_cons, List.drop_append,
      List.drop_eq_nil_of_le (by omega), Nat.add_sub_cancel_left]
    simp only [List.nil_append, List.drop_succ_cons, List.drop_zero, List.take_length]
  have hsets : ∀ i < 3, (metaLayout sps pps).getD (5 + i) 0 = sps.getD (1 + i) 0 := by
    intro i hi
    have hin : 1 + i < sps.length := by omega
    have hskip : (metaLayout sps pps).getD (5 + i) 0 =
        (sps ++ (0 :: 0 :: Wire.blob 2 pps)).getD (1 + i) 0 := by
      rw [show 5 + i = (1 + i) + 4 by omega, metaLayout_eq]
      rfl
    rw [hskip, List.getD_eq_getElem?_getD, List.getElem?_append_left hin,
      ← List.getD_eq_getElem?_getD]
  have hwrite : Block.write area rtmpMaxHeaderSize (metaBody sps pps) = some
      (area.take rtmpMaxHeaderSize ++ metaBody sps pps ++
        area.drop (rtmpMaxHeaderSize + (sps.length + pps.length + 8 + 8))) := by
    rw [Block.write_of_le (by rw [length_metaBody]; exact harea), length_metaBody]
  have hsize : (8 + ((sps.length + pps.length + 8 : Nat) : Int)).toNat =
      sps.length + pps.length + 8 + 8 := by omega
  simp only [Packager.rtmpMetadata, hlen]
  rw [if_neg (by rw [length_metaLayout]; omega), hsps, Option.bind_some, hpps, Option.bind_some,
    hsize, hsets 0 (by decide), hsets 1 (by decide), hsets 2 (by decide)]
  exact (congrArg (Option.map _) hwrite).trans rfl

/-- What the packager writes, from wherever its length takes it. -/
theorem Packager.rtmpMetadata_body {p : RtmpPacket} {data : List UInt8} {length : Int}
    (hp : Packager.rtmpMetadata area data length = some p) :
    0 ≤ Packager.metaSpsLen data + 2 ∧
      ∃ set rest, Block.read data 2 (Packager.metaSpsLen data + 2).toNat = some set ∧
        Block.read data (Packager.metaSpsLen data + 6).toNat
          (length - Packager.metaSpsLen data - 6).toNat = some rest ∧
        p.body = [0x17, 0x00, 0x00, 0x00, 0x00, 0x01, data.getD 5 0, data.getD 6 0, data.getD 7 0,
          0xff, 0xe1] ++ (set ++ 0x01 :: rest) := by
  simp only [Packager.rtmpMetadata] at hp
  split at hp
  · cases hp
  next hdef =>
    simp only [Option.bind_eq_some_iff, Option.map_eq_some_iff] at hp
    obtain ⟨set, hset, rest, hrest, area', hwrite, rfl⟩ := hp
    refine ⟨by omega, set, rest, hset, hrest, ?_⟩
    have hslen := Block.length_of_read hset
    have hrlen := Block.length_of_read hrest
    have hbody := Block.take_drop_of_write hwrite
    have hsize : (8 + length).toNat =
        ([0x17, 0x00, 0x00, 0x00, 0x00, 0x01, data.getD 5 0, data.getD 6 0, data.getD 7 0, 0xff,
          0xe1] ++ set ++ [0x01] ++ rest).length := by
      simp only [List.length_append, List.length_cons, List.length_nil, hslen, hrlen]
      omega
    simp only [RtmpPacket.body, hsize, hbody]
    simp only [List.append_assoc, List.cons_append, List.nil_append]

theorem readSequenceHeader_sps {x s : List UInt8} {a b c : UInt8} {conf : DecoderConfiguration}
    (h : readSequenceHeader
      ([0x17, 0x00, 0x00, 0x00, 0x00, 0x01, a, b, c, 0xff, 0xe1] ++ x) = some conf)
    (hs : conf.sps = [s]) :
    s = (x.drop 2).take (Wire.number (x.take 2)) ∧ s.length = Wire.number (x.take 2) := by
  have hcount : ((0xe1 : UInt8) &&& 0x1f).toNat = 1 := by decide
  simp only [readSequenceHeader, List.cons_append, List.nil_append, List.take_succ_cons,
    List.take_zero, if_true, List.drop_succ_cons, List.drop_zero, readDecoderConfiguration,
    hcount, Option.bind_eq_some_iff] at h
  obtain ⟨r, hr, h⟩ := h
  split at h
  next n y hy =>
    simp only [Option.bind_eq_some_iff] at h
    obtain ⟨pps, -, h⟩ := h
    split at h
    · cases h
      have hr : Wire.readBlobs 2 1 x = some ([s], r.2) := by rw [hr, ← hs]
      exact Wire.eq_of_readBlobs_one hr
    · cases h
  · cases h

/-! ## When a sequence header reads back -/

/-- The sequence header of two parameter sets is packed into a block of exactly the
packet, the header room and the body; exactly the body is written; and it reads
back as the two sets. -/
def SequenceHeaderReadsBack (sps pps : List UInt8) : Prop :=
  ∃ p, rtmpMetaPack true (some (metaLayout sps pps)) (sps.length + pps.length + 8 : Nat) =
      some (some p) ∧
    p.mNBodySize = sps.length + pps.length + 8 + 8 ∧ p.body.length = p.mNBodySize ∧
    sizeofRtmpPacket + p.area.length = sizeofRtmpPacket + rtmpMaxHeaderSize + p.mNBodySize ∧
    (∀ area : List UInt8, p.area.length ≤ area.length →
      Packager.rtmpMetadata area (metaLayout sps pps) (sps.length + pps.length + 8 : Nat) =
        some { p with
          area := area.take rtmpMaxHeaderSize ++ p.body ++ area.drop p.area.length }) ∧
    ∃ conf, readSequenceHeader p.body = some conf ∧
      conf.profile = sps.getD 1 0 ∧ conf.compatibility = sps.getD 2 0 ∧
      conf.level = sps.getD 3 0 ∧ conf.sps = [sps] ∧ conf.pps = [pps]

/-- The block `rtmp_meta_pack` allocates. -/
theorem rtmpMetaPack_eq (hs : sps.length < 2 ^ 16) (hp : pps.length < 2 ^ 16)
    (data : List UInt8) :
    rtmpMetaPack true (some data) (sps.length + pps.length + 8 : Nat) =
      (Packager.rtmpMetadata
        (List.replicate (rtmpMaxHeaderSize + (sps.length + pps.length + 8 + 8)) 0) data
        (sps.length + pps.length + 8 : Nat)).map some := by
  have hsize : CInt.ofSize (CInt.toSize ((sizeofRtmpPacket : Int) +
      (sps.length + pps.length + 8 : Nat) + 8 + rtmpMaxHeaderSize)) =
      (sizeofRtmpPacket + (rtmpMaxHeaderSize + (sps.length + pps.length + 8 + 8)) : Nat) := by
    have hcast : (sizeofRtmpPacket : Int) + (sps.length + pps.length + 8 : Nat) + 8 +
        rtmpMaxHeaderSize =
        (sizeofRtmpPacket + (rtmpMaxHeaderSize + (sps.length + pps.length + 8 + 8)) : Nat) := by
      omega
    rw [hcast, CInt.toSize_natCast (by simp only [sizeofRtmpPacket, rtmpMaxHeaderSize]; omega),
      CInt.ofSize_of_lt (by simp only [sizeofRtmpPacket, rtmpMaxHeaderSize]; omega)]
  have halloc : packetAlloc true
      (sizeofRtmpPacket + (rtmpMaxHeaderSize + (sps.length + pps.length + 8 + 8)) : Nat) =
      some (some
        (List.replicate (rtmpMaxHeaderSize + (sps.length + pps.length + 8 + 8)) 0)) := by
    rw [packetAlloc, Block.calloc, if_pos ⟨rfl, by omega⟩]
    simp only [Int.toNat_natCast, List.length_replicate, List.drop_replicate]
    rw [if_neg (by omega), Nat.add_sub_cancel_left]
  simp only [rtmpMetaPack, hsize, halloc, Option.bind_some]

/-- With the length read right, the result is the sequence header. -/
theorem rtmpMetaPack_metaPacket (h4 : 4 ≤ sps.length) (hs : sps.length < 2 ^ 16)
    (hp : pps.length < 2 ^ 16) (hlen : Packager.metaSpsLen (metaLayout sps pps) = sps.length) :
    rtmpMetaPack true (some (metaLayout sps pps)) (sps.length + pps.length + 8 : Nat) =
      some (some (metaPacket sps pps)) := by
  rw [rtmpMetaPack_eq hs hp, Packager.rtmpMetadata_writes h4 hlen (by simp)]
  simp [metaPacket]

/-- A list equal to its tail with one element behind begins with that element. -/
theorem head_eq_of_rotate {α : Type} {a b : α} : ∀ {t : List α}, a :: t = t ++ [b] → a = b
  | [], h => (List.cons.inj h).1
  | c :: t, h => by
      obtain ⟨hac, hrest⟩ := List.cons.inj h
      rw [hac]
      exact head_eq_of_rotate hrest

/-- A negative length never reads back: the packager has no result below `-2`, and
at `-1` and `-2` the SPS read has another length or another first byte. -/
theorem not_reads_back_of_negative {p : RtmpPacket} {conf : DecoderConfiguration}
    (h4 : 4 ≤ sps.length) (h128 : 128 ≤ sps.length % 256)
    (hlen : Packager.metaSpsLen (metaLayout sps pps) = (sps.length % 256 : Nat) - 256)
    (hp : Packager.rtmpMetadata area (metaLayout sps pps) (sps.length + pps.length + 8 : Nat) =
      some p)
    (hconf : readSequenceHeader p.body = some conf) : conf.sps ≠ [sps] := by
  intro hsps
  obtain ⟨hge, set, rest, hset, hrest, hbody⟩ := Packager.rtmpMetadata_body hp
  rw [hbody] at hconf
  obtain ⟨hs, hslen⟩ := readSequenceHeader_sps hconf hsps
  rw [hlen] at hge hset hrest
  obtain ⟨a, t, rfl⟩ : ∃ a t, sps = a :: t := by
    cases sps with
    | nil => cases h4
    | cons a t => exact ⟨a, t, rfl⟩
  have hmod : (a :: t).length % 256 = 255 ∨ (a :: t).length % 256 = 254 := by omega
  rcases hmod with hmod | hmod
  · -- the SPS length is read as its high byte and the number of PPSs
    rw [hmod] at hset
    have hset : set = [UInt8.ofNat ((a :: t).length / 256)] :=
      (Block.eq_of_read (n := 1) hset).trans rfl
    have hone : (0x01 : UInt8).toNat = 1 := rfl
    rw [hset] at hslen
    simp only [List.cons_append, List.nil_append, List.take_succ_cons, List.take_zero,
      Wire.number_pair, UInt8.toNat_ofNat', hone] at hslen
    omega
  · -- the SPS length is read as the number of PPSs and the first byte of the SPS
    rw [hmod] at hset hrest
    have hset : set = [] := (Block.eq_of_read (n := 0) hset).trans rfl
    have hto : (((a :: t).length + pps.length + 8 : Nat) - ((254 : Nat) - 256 : Int) - 6).toNat =
        t.length + 1 + (pps.length + 3) + 1 := by
      simp only [List.length_cons]
      omega
    have hrest : rest =
        a :: (t ++ 0 :: 0 :: Wire.blob 2 pps).take (t.length + 1 + (pps.length + 3)) := by
      rw [Block.eq_of_read hrest, hto]
      rfl
    rw [hset, hrest] at hs hslen
    simp only [List.nil_append, List.take_succ_cons, List.take_zero, List.drop_succ_cons,
      List.drop_zero] at hs hslen
    rw [← hslen, List.take_take, Nat.min_eq_left (by simp), List.length_cons, List.take_append,
      List.take_of_length_le (by omega), Nat.add_sub_cancel_left] at hs
    have ha : a = 0 := head_eq_of_rotate hs
    have hnumber : Wire.number [0x01, a] = 256 := by
      rw [ha]
      rfl
    omega

/-- The sequence header reads back exactly when neither byte of the SPS length is
`0x80` or more. -/
theorem sequenceHeader_reads_back_iff (sps pps : List UInt8) (h4 : 4 ≤ sps.length)
    (hs : sps.length ≤ 65535) (hp : pps.length ≤ 65535) :
    SequenceHeaderReadsBack sps pps ↔ sps.length % 256 < 128 ∧ sps.length / 256 < 128 := by
  have hs16 : sps.length < 2 ^ 16 := by omega
  have hp16 : pps.length < 2 ^ 16 := by omega
  constructor
  · rintro ⟨p, hpack, -, -, -, -, conf, hconf, -, -, -, hsps, -⟩
    rw [rtmpMetaPack_eq hs16 hp16, Option.map_eq_some_iff] at hpack
    obtain ⟨p', hmeta, heq⟩ := hpack
    cases heq
    rcases metaSpsLen_cases sps pps hs16 with ⟨hlow, hhigh, -⟩ | ⟨-, hneg | ⟨h128, hlen⟩⟩
    · exact ⟨hlow, by omega⟩
    · have hge := (Packager.rtmpMetadata_body hmeta).1
      omega
    · exact absurd hsps (not_reads_back_of_negative h4 h128 hlen hmeta hconf)
  · rintro ⟨hlow, hhigh⟩
    have hlen : Packager.metaSpsLen (metaLayout sps pps) = sps.length := by
      rcases metaSpsLen_cases sps pps hs16 with ⟨-, -, hlen⟩ | ⟨hnot, -⟩
      · exact hlen
      · omega
    have hsize : (metaPacket sps pps).area.length =
        rtmpMaxHeaderSize + (sps.length + pps.length + 8 + 8) := by
      rw [metaPacket, List.length_append, List.length_replicate, length_metaBody]
    refine ⟨metaPacket sps pps, rtmpMetaPack_metaPacket h4 hs16 hp16 hlen, rfl, ?_, ?_, ?_, ?_⟩
    · rw [metaPacket_body, length_metaBody]
      rfl
    · rw [hsize]
      exact (Nat.add_assoc ..).symm
    · intro area harea
      rw [hsize] at harea ⊢
      rw [metaPacket_body]
      exact Packager.rtmpMetadata_writes h4 hlen harea
    · rw [metaPacket_body]
      exact ⟨_, readSequenceHeader_metaBody hs16 hp16, rfl, rfl, rfl, rfl, rfl⟩

/-- An SPS of four bytes and a PPS of two read back. -/
theorem sequenceHeader_reads_back_short :
    4 ≤ [0x67, 0x42, 0x00, (0x1e : UInt8)].length ∧
      SequenceHeaderReadsBack [0x67, 0x42, 0x00, 0x1e] [0x68, 0xce] :=
  ⟨by decide, (sequenceHeader_reads_back_iff [0x67, 0x42, 0x00, 0x1e] [0x68, 0xce] (by decide)
    (by decide) (by decide)).mpr (by decide)⟩

/-- An SPS of 128 bytes does not: its length becomes `-128`, and the copy of the SPS
asks for a negative number of bytes. -/
theorem sequenceHeader_lost_at_128 :
    ¬ SequenceHeaderReadsBack (0x67 :: List.replicate 127 0x42) [0x68, 0xce] := by
  have hlength : (0x67 :: List.replicate 127 (0x42 : UInt8)).length = 128 := by
    rw [List.length_cons, List.length_replicate]
  rintro ⟨p, hpack, -⟩
  rw [rtmpMetaPack_eq (by omega) (by decide), Option.map_eq_some_iff] at hpack
  obtain ⟨p', hmeta, -⟩ := hpack
  have hge := (Packager.rtmpMetadata_body hmeta).1
  rcases metaSpsLen_cases (0x67 :: List.replicate 127 0x42) [0x68, 0xce] (by omega) with
    ⟨hlow, -⟩ | ⟨-, hneg | ⟨-, hlen⟩⟩
  · omega
  · exact absurd hge (by omega)
  · rw [hlen, hlength] at hge
    exact absurd hge (by decide)

end VmpSa
