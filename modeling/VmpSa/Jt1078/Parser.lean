import Mathlib.Algebra.Group.Nat.Defs
import Mathlib.Data.List.GetD
import VmpSa.Lib.Reader

/-!
# JT/T 1078 packets

`packet_jt1078_parse` of `mw/protocol/tima_jt1078_parser.c`.  A packet has a
header of 30 bytes and a body, whose length stands in bytes 28 and 29.  The
parser is given a buffer that is zero behind the bytes copied into it and reads
the whole header before it knows whether there is one.

What it accepts is a matter of the bytes copied alone: the magic and room for
the body (`parse_eq`).  So packets of at most 980 bytes are read off the front
of the input by a `Reader`, `frameReader`.
-/

namespace VmpSa

/-- `stream_header_t`, as far as the parser fills it in. -/
structure StreamHeader where
  magic : List UInt8
  rtp : UInt8
  pt : UInt8
  channel : UInt8
  mtype : UInt8
  /-- An `unsigned short`. -/
  bodylen : Nat
  simno : Nat
deriving Repr, DecidableEq

/-- `BCD_PARSE`. -/
def bcdParse (c : UInt8) : Nat := ((c &&& 0xf0) >>> 4).toNat * 10 + (c &&& 0x0f).toNat

/-- `simno_get`. -/
def simnoGet (bcd : List UInt8) : Nat :=
  (List.range 6).foldl (fun num i => num * 100 + bcdParse (bcd.getD i 0)) 0

/-- `find_magic_code`. -/
def findMagicCode (buf : List UInt8) : Bool :=
  ¬ (buf.getD 0 0 ≠ 0x30 ∨ buf.getD 1 0 ≠ 0x31 ∨ buf.getD 2 0 ≠ 0x63 ∨ buf.getD 3 0 ≠ 0x64)

/-- The body length a header announces: `packet[28] * 2` for audio, else
`(packet[28] << 8) | packet[29]`. -/
def bodyLength (packet : List UInt8) : Nat :=
  if packet.getD 15 0 &&& 0xf0 = 0x30 then (packet.getD 28 0).toNat * 2
  else (packet.getD 28 0).toNat * 256 + (packet.getD 29 0).toNat

/-- The header fields as the parser reads them. -/
def readHeader (packet : List UInt8) : StreamHeader where
  magic := [packet.getD 0 0, packet.getD 1 0, packet.getD 2 0, packet.getD 3 0]
  rtp := packet.getD 4 0
  pt := packet.getD 5 0
  channel := packet.getD 14 0
  mtype := packet.getD 15 0
  bodylen := bodyLength packet
  simno := simnoGet (packet.drop 8)

/-- `packet_jt1078_parse`: the returned value and the header.  The body begins at
byte 30. -/
def packetJt1078Parse (packet : List UInt8) (length : Int) (head : StreamHeader) :
    Int × StreamHeader :=
  if ¬ findMagicCode packet then (-1, head)
  else if (bodyLength packet : Int) > length - 30 then (0, readHeader packet)
  else (bodyLength packet + 30, readHeader packet)

/-- The parser never claims more bytes than it was given. -/
theorem parse_le (packet : List UInt8) {length : Int} (hl : 0 ≤ length) (head : StreamHeader) :
    (packetJt1078Parse packet length head).1 ≤ length := by
  unfold packetJt1078Parse
  split
  · change (-1 : Int) ≤ length
    omega
  · split
    · exact hl
    · change (bodyLength packet : Int) + 30 ≤ length
      omega

/-! ## Bytes that are not there yet -/

/-- Two buffers that agree on the header. -/
def SameHeader (x y : List UInt8) : Prop := ∀ i, i < 30 → x.getD i 0 = y.getD i 0

variable {x y p r : List UInt8}

theorem SameHeader.findMagicCode (h : SameHeader x y) : findMagicCode x = findMagicCode y := by
  simp only [VmpSa.findMagicCode, h 0 (by omega), h 1 (by omega), h 2 (by omega), h 3 (by omega)]

theorem SameHeader.bodyLength (h : SameHeader x y) : bodyLength x = bodyLength y := by
  simp only [VmpSa.bodyLength, h 15 (by omega), h 28 (by omega), h 29 (by omega)]

theorem SameHeader.readHeader (h : SameHeader x y) : readHeader x = readHeader y := by
  have hsim : simnoGet (x.drop 8) = simnoGet (y.drop 8) := by
    have hget : ∀ z : List UInt8, ∀ i, (z.drop 8).getD i 0 = z.getD (8 + i) 0 := fun z i => by
      rw [List.getD_eq_getElem?_getD, List.getElem?_drop, ← List.getD_eq_getElem?_getD]
    simp only [simnoGet, List.range_succ, List.range_zero, List.nil_append, List.cons_append,
      List.foldl_cons, List.foldl_nil, hget, h 8 (by omega), h (8 + 1) (by omega),
      h (8 + 2) (by omega), h (8 + 3) (by omega), h (8 + 4) (by omega), h (8 + 5) (by omega)]
  simp only [VmpSa.readHeader, hsim, h.bodyLength, h 0 (by omega), h 1 (by omega),
    h 2 (by omega), h 3 (by omega), h 4 (by omega), h 5 (by omega), h 14 (by omega),
    h 15 (by omega)]

/-- Zeros behind the data do not change the header. -/
theorem sameHeader_pad (x : List UInt8) (n : Nat) :
    SameHeader (x ++ List.replicate n 0) x := by
  intro i _
  by_cases hi : i < x.length
  · exact List.getD_append _ _ _ _ hi
  · rw [List.getD_append_right _ _ _ _ (by omega), List.getD_eq_default x 0 (by omega),
      List.getD_eq_getElem?_getD, List.getElem?_replicate]
    split <;> rfl

/-- A word of 30 bytes settles the header. -/
theorem sameHeader_append (h : 30 ≤ x.length) (y : List UInt8) : SameHeader (x ++ y) x :=
  fun i hi => List.getD_append _ _ _ _ (by omega)

theorem sameHeader_take {n : Nat} (h : 30 ≤ n) (x : List UInt8) : SameHeader (x.take n) x := by
  intro i hi
  rw [List.getD_eq_getElem?_getD, List.getElem?_take_of_lt (by omega),
    ← List.getD_eq_getElem?_getD]

/-! ## Packets at the front of the input -/

/-- `JT1078_STREAM_PACKAGE_SIZE`. -/
def jt1078StreamPackageSize : Nat := 980

/-- The magic and a whole body stand at the front, within the copy window. -/
def Whole (x : List UInt8) : Prop :=
  findMagicCode x = true ∧ bodyLength x + 30 ≤ min jt1078StreamPackageSize x.length

instance (x : List UInt8) : Decidable (Whole x) := inferInstanceAs (Decidable (_ ∧ _))

theorem Whole.length_le (h : Whole x) : bodyLength x + 30 ≤ x.length := by
  have := h.2
  omega

theorem Whole.append (h : Whole x) (y : List UInt8) : Whole (x ++ y) := by
  have hle := h.length_le
  have hs := sameHeader_append (show 30 ≤ x.length by omega) y
  refine ⟨hs.findMagicCode.trans h.1, ?_⟩
  have hw := h.2
  rw [hs.bodyLength, List.length_append]
  omega

/-- What the parser makes of the copied and padded front of the input. -/
theorem parse_eq (x : List UInt8) (n : Nat) (head : StreamHeader) :
    packetJt1078Parse (x.take jt1078StreamPackageSize ++ List.replicate n 0)
        (x.take jt1078StreamPackageSize).length head =
      if ¬ findMagicCode x then ((-1 : Int), head)
      else if Whole x then ((bodyLength x : Int) + 30, readHeader x) else (0, readHeader x) := by
  have hs : SameHeader (x.take jt1078StreamPackageSize ++ List.replicate n 0) x := fun i hi =>
    (sameHeader_pad _ n i hi).trans (sameHeader_take (by decide) x i hi)
  rw [packetJt1078Parse, hs.findMagicCode, hs.bodyLength, hs.readHeader, List.length_take]
  by_cases hm : findMagicCode x = true
  · have hm' : ¬ ¬ findMagicCode x = true := fun h => h hm
    rw [if_neg hm', if_neg hm']
    by_cases hw : Whole x
    · have hle := hw.2
      rw [if_neg (by omega), if_pos hw]
    · have hlt : ¬ bodyLength x + 30 ≤ min jt1078StreamPackageSize x.length := fun h => hw ⟨hm, h⟩
      rw [if_pos (by omega), if_neg hw]
  · rw [if_pos hm, if_pos hm]

/-- The packet at the front and what follows it. -/
def nextFrame (x : List UInt8) : Option (List UInt8 × List UInt8) :=
  if Whole x then some (x.take (bodyLength x + 30), x.drop (bodyLength x + 30)) else none

theorem nextFrame_none_iff : nextFrame x = none ↔ ¬ Whole x := by
  unfold nextFrame
  split <;> simp [*]

/-- A packet taken off the front is whole by itself. -/
structure IsFrame (p : List UInt8) : Prop where
  magic : findMagicCode p = true
  length : p.length = bodyLength p + 30
  le : p.length ≤ jt1078StreamPackageSize

theorem nextFrame_some (h : nextFrame x = some (p, r)) : x = p ++ r ∧ IsFrame p := by
  unfold nextFrame at h
  split at h
  next hw =>
    cases h
    have hle := hw.length_le
    have hs := sameHeader_take (show 30 ≤ bodyLength x + 30 by omega) x
    have hmin := hw.2
    have hlen : (x.take (bodyLength x + 30)).length = bodyLength x + 30 := by
      rw [List.length_take]
      omega
    refine ⟨(List.take_append_drop _ _).symm, hs.findMagicCode.trans hw.1, ?_, by omega⟩
    rw [hlen, hs.bodyLength]
  next => cases h

/-- A packet at the front is taken off, whatever follows it. -/
theorem nextFrame_append (h : IsFrame p) (r : List UInt8) : nextFrame (p ++ r) = some (p, r) := by
  have hlen := h.length
  have hle := h.le
  have hw : Whole p := ⟨h.magic, by omega⟩
  have hs := sameHeader_append (show 30 ≤ p.length by omega) r
  rw [nextFrame, if_pos (hw.append r), hs.bodyLength, ← hlen, List.take_left, List.drop_left]

/-- Packets of at most 980 bytes, read off the front of the input. -/
def frameReader : Reader UInt8 (List UInt8) where
  next := nextFrame
  suffix := by
    intro x r p h
    obtain ⟨hx, hp⟩ := nextFrame_some h
    refine ⟨p, fun hnil => ?_, hx⟩
    have hlen := hp.length
    rw [hnil, List.length_nil] at hlen
    omega
  append := by
    intro x r p h y
    obtain ⟨hx, hp⟩ := nextFrame_some h
    rw [hx, List.append_assoc]
    exact nextFrame_append hp (r ++ y)

end VmpSa
