import VmpSa.Http.Query
import VmpSa.Jt1078.Parser
import VmpSa.Lib.Decimal
import VmpSa.Rtmp.Packager

/-!
# SIM numbers

The way of a SIM number through four representations.  `tvmpss_send_thread` of
`test/tvmpss_client.c` has it as twelve ASCII digits and packs two of them into
each of the bytes 8 to 13 of a packet.  `packet_jt1078_parse` reads the six bytes
as a number, and `stream_url_query` prints that number with at least eleven
digits.

The client computes in plain `char`, which is signed, so a byte whose first digit
is an 8 or a 9 is negative there (`bcdParse_simByte`).  The number that is parsed
is the one the digits denote, and the text that is queried is the digits again,
one leading zero apart (`pad_value_sim`).
-/

namespace VmpSa

/-! ## The model -/

/-- An `int` stored in a plain `char`. -/
def intToChar (i : Int) : Int := Int.bmod i 256

/-- The byte the client packs two characters into. -/
def simByte (high low : UInt8) : UInt8 :=
  let c1 := intToChar ((charToInt high - 48) * 2 ^ 4)
  let c2 := intToChar (charToInt low - 48)
  UInt8.ofInt (intToChar (c1 + c2))

/-- The size of the client's `tmp`. -/
def clientTmpSize : Nat := 1024

/-- The loop of the client that stores a SIM number behind `tmp + 8`. -/
def storeSim (sim : List UInt8) (tmp : List UInt8) : List UInt8 :=
  (List.range 6).foldl
    (fun tmp j => tmp.set (8 + j) (simByte (sim.getD (2 * j) 0) (sim.getD (2 * j + 1) 0))) tmp

/-- One packet of `tvmpss_send_thread`: the bytes that are sent and what is left in
`tmp`.  A packet that is longer than `tmp` has no result. -/
def tvmpssSend (tmp data sim : List UInt8) : Option (List UInt8 × List UInt8) :=
  (Block.write tmp 0 data).map fun tmp =>
    let tmp := storeSim sim tmp
    (tmp.take data.length, tmp)

/-! ## The terms of the result -/

/-- Twelve decimal digits. -/
structure SimDigits where
  text : List UInt8
  length_text : text.length = 12
  isDigit : ∀ c ∈ text, Decimal.IsDigit c

/-- A packet the client can put a SIM number into, with whatever an earlier one has
left in `tmp`. -/
structure ClientPacket where
  tmp : List UInt8
  data : List UInt8
  length_tmp : tmp.length = clientTmpSize
  magic : findMagicCode data = true
  sim_le : 14 ≤ data.length
  fits : data.length ≤ clientTmpSize

/-- A sent packet as the parser gets it: what else stands in its buffer, the length
it is told, and the header it fills in. -/
structure ParserInput where
  rest : List UInt8
  length : Int
  head : StreamHeader

/-- The digits without one leading zero, if there is one. -/
def SimDigits.stripped (sim : SimDigits) : List UInt8 :=
  if sim.text.head? = some 48 then sim.text.tail else sim.text

/-- The number that is parsed from what the client sends. -/
def parsedSim (p : ClientPacket) (sim : SimDigits) (r : ParserInput) : Option Nat :=
  (tvmpssSend p.tmp p.data sim.text).map fun (sent, _) =>
    (packetJt1078Parse (sent ++ r.rest) r.length r.head).2.simno

/-- The text in the request of `stream_url_query` for that number. -/
def queriedSim (p : ClientPacket) (sim : SimDigits) (r : ParserInput) : Option (List UInt8) :=
  (parsedSim p sim r).bind fun simno => CString.strcpy 16 (Decimal.pad 11 simno)

variable {jansson : Jansson} {cfg : CacheNetworkConfig} {o : Outcomes} {channel : Int} {q : Query}

/-! ## Bytes -/

/-- Two digits come back from their byte, also when it is a negative `char`. -/
theorem bcdParse_simByte {a b : UInt8} (ha : Decimal.IsDigit a) (hb : Decimal.IsDigit b) :
    bcdParse (simByte a b) = Decimal.digit a * 10 + Decimal.digit b := by
  have hall : ∀ i < 10, ∀ j < 10,
      bcdParse (simByte (UInt8.ofNat (48 + i)) (UInt8.ofNat (48 + j))) = i * 10 + j := by decide
  have hofNat : ∀ c : UInt8, Decimal.IsDigit c → UInt8.ofNat (48 + Decimal.digit c) = c := by
    intro c hc
    rw [Decimal.digit, Nat.add_sub_cancel' hc.1, UInt8.ofNat_toNat]
  have hbyte := hall _ ha.lt _ hb.lt
  rwa [hofNat a ha, hofNat b hb] at hbyte

theorem getElem?_storeSim {sim tmp : List UInt8} {i : Nat} (ht : 14 ≤ tmp.length) :
    (storeSim sim tmp)[i]? =
      if 8 ≤ i ∧ i < 14 then
        some (simByte (sim.getD (2 * (i - 8)) 0) (sim.getD (2 * (i - 8) + 1) 0))
      else tmp[i]? := by
  -- the bytes a number of passes have stored
  have hpass : ∀ k ≤ 6, ((List.range k).foldl (fun tmp j => tmp.set (8 + j)
      (simByte (sim.getD (2 * j) 0) (sim.getD (2 * j + 1) 0))) tmp)[i]? =
        if 8 ≤ i ∧ i < 8 + k then
          some (simByte (sim.getD (2 * (i - 8)) 0) (sim.getD (2 * (i - 8) + 1) 0))
        else tmp[i]? := by
    intro k hk
    induction k with
    | zero => rw [if_neg (by omega)]; rfl
    | succ k ih =>
        rw [List.range_succ, List.foldl_append, List.foldl_cons, List.foldl_nil, List.getElem?_set]
        have ih := ih (by omega)
        split
        next hi =>
          subst hi
          rw [if_neg (by omega)] at ih
          have hlt : 8 + k < _ := (List.getElem?_eq_some_iff.mp
            (ih.trans (List.getElem?_eq_getElem (show 8 + k < tmp.length by omega)))).1
          rw [if_pos hlt, if_pos (by omega), Nat.add_sub_cancel_left]
        next hi =>
          rw [ih]
          exact if_congr (by omega) rfl rfl
  exact hpass 6 (by omega)

theorem length_storeSim (sim tmp : List UInt8) : (storeSim sim tmp).length = tmp.length := by
  simp [storeSim, List.range_succ]

/-- What is sent is the packet with the SIM number in it. -/
theorem tvmpssSend_spec (p : ClientPacket) (sim : List UInt8) :
    ∃ sent tmp, tvmpssSend p.tmp p.data sim = some (sent, tmp) ∧ sent.length = p.data.length ∧
      ∀ i < p.data.length, sent[i]? =
        if 8 ≤ i ∧ i < 14 then
          some (simByte (sim.getD (2 * (i - 8)) 0) (sim.getD (2 * (i - 8) + 1) 0))
        else p.data[i]? := by
  have hle : 0 + p.data.length ≤ p.tmp.length := by
    rw [Nat.zero_add, p.length_tmp]
    exact p.fits
  rw [tvmpssSend, Block.write_of_le hle, Option.map_some, List.take_zero, List.nil_append]
  have hsim := p.sim_le
  have hstored : p.data.length ≤
      (storeSim sim (p.data ++ p.tmp.drop (0 + p.data.length))).length := by
    rw [length_storeSim, List.length_append]
    omega
  refine ⟨_, _, rfl, List.length_take_of_le hstored, fun i hi => ?_⟩
  rw [List.getElem?_take_of_lt hi, getElem?_storeSim (by rw [List.length_append]; omega),
    List.getElem?_append_left hi]

/-! ## Numbers -/

theorem SimDigits.isDigit_getD (sim : SimDigits) {i : Nat} (hi : i < 12) :
    Decimal.IsDigit (sim.text.getD i 0) := by
  have hlt : i < sim.text.length := by rwa [sim.length_text]
  rw [List.getD_eq_getElem _ _ hlt]
  exact sim.isDigit _ (List.getElem_mem hlt)

/-- Six bytes with two digits each are read as the number the digits denote. -/
theorem simnoGet_eq (sim : SimDigits) {bcd : List UInt8} (h : ∀ j < 6, bcd.getD j 0 =
      simByte (sim.text.getD (2 * j) 0) (sim.text.getD (2 * j + 1) 0)) :
    simnoGet bcd = Decimal.value sim.text := by
  have hpairs := Decimal.value_pairs sim.text 6 (by rw [sim.length_text])
  rw [List.take_of_length_le (by rw [sim.length_text])] at hpairs
  rw [simnoGet, hpairs]
  refine List.foldl_ext _ _ _ fun n j hj => ?_
  have hj := List.mem_range.mp hj
  rw [h j hj, bcdParse_simByte (sim.isDigit_getD (by omega)) (sim.isDigit_getD (by omega))]

/-- A packet with the magic is read in full. -/
theorem parse_of_magic {packet : List UInt8} (h : findMagicCode packet = true) (length : Int)
    (head : StreamHeader) : (packetJt1078Parse packet length head).2 = readHeader packet := by
  rw [packetJt1078Parse, if_neg (fun hn => hn h)]
  split <;> rfl

/-- The parser reads the number the digits denote. -/
theorem parsedSim_eq (p : ClientPacket) (sim : SimDigits) (r : ParserInput) :
    parsedSim p sim r = some (Decimal.value sim.text) := by
  obtain ⟨sent, tmp, hsend, hlen, hsent⟩ := tvmpssSend_spec p sim.text
  have hsim := p.sim_le
  have hgetD : ∀ i < p.data.length, (sent ++ r.rest).getD i 0 = (sent[i]?).getD 0 := by
    intro i hi
    rw [List.getD_eq_getElem?_getD, List.getElem?_append_left (by omega)]
  have hmagic : findMagicCode (sent ++ r.rest) = true := by
    have hfour : ∀ i < 4, (sent ++ r.rest).getD i 0 = p.data.getD i 0 := fun i hi => by
      rw [hgetD i (by omega), hsent i (by omega), if_neg (by omega), List.getD_eq_getElem?_getD]
    rw [← p.magic, findMagicCode, hfour 0 (by decide), hfour 1 (by decide), hfour 2 (by decide),
      hfour 3 (by decide), findMagicCode]
  have hsix : ∀ j < 6, ((sent ++ r.rest).drop 8).getD j 0 =
      simByte (sim.text.getD (2 * j) 0) (sim.text.getD (2 * j + 1) 0) := by
    intro j hj
    have hbyte := hgetD (8 + j) (by omega)
    rw [hsent (8 + j) (by omega), if_pos (by omega), Nat.add_sub_cancel_left] at hbyte
    rw [List.getD_eq_getElem?_getD, List.getElem?_drop, ← List.getD_eq_getElem?_getD, hbyte]
    rfl
  simp only [parsedSim, hsend, Option.map_some, parse_of_magic hmagic]
  exact congrArg some (simnoGet_eq sim hsix)

/-! ## Texts -/

/-- The text that is printed for the number twelve digits denote. -/
theorem pad_value_sim (sim : SimDigits) :
    Decimal.pad 11 (Decimal.value sim.text) = sim.stripped := by
  rw [SimDigits.stripped]
  obtain ⟨text, hlen, hdigits⟩ := sim
  cases text with
  | nil => cases hlen
  | cons c ds =>
      have hds : ds.length = 11 := Nat.succ.inj hlen
      have hvalue := Decimal.value_cons c ds
      rw [List.head?_cons, List.tail_cons]
      by_cases hc : c = 48
      · subst hc
        have htail := Decimal.pad_value (List.length_pos_iff.mp (by omega))
          fun d hd => hdigits d (List.mem_cons_of_mem _ hd)
        rwa [if_pos rfl, hvalue, show Decimal.digit 48 = 0 from rfl, Nat.zero_mul, Nat.zero_add,
          ← hds]
      · have hpos : 0 < Decimal.digit c := by
          have h48 := (hdigits c List.mem_cons_self).1
          have hne : c.toNat ≠ 48 := fun h => hc (UInt8.toNat_inj.mp h)
          rw [Decimal.digit]
          omega
        have hle : 10 ^ 11 ≤ Decimal.value (c :: ds) := by
          rw [hvalue, hds]
          omega
        rw [if_neg (fun h => hc (Option.some.inj h)), ← Decimal.pad_succ (by decide) hle]
        have hall := Decimal.pad_value (List.cons_ne_nil c ds) hdigits
        rwa [hlen] at hall

theorem queriedSim_eq (p : ClientPacket) (sim : SimDigits) (r : ParserInput) :
    queriedSim p sim r = some sim.stripped := by
  rw [queriedSim, parsedSim_eq, Option.bind_some, pad_value_sim]
  refine CString.strcpy_of_lt ?_
  have hlen := sim.length_text
  rw [SimDigits.stripped]
  split
  · rw [List.length_tail]
    omega
  · omega

/-- The digits can be told from what is left without a leading zero: what is left
has eleven digits or twelve. -/
theorem SimDigits.stripped_injective {sim sim' : SimDigits} (h : sim'.stripped = sim.stripped) :
    sim' = sim := by
  have htext : ∀ s : SimDigits,
      s.text = if s.stripped.length = 11 then 48 :: s.stripped else s.stripped := by
    intro s
    obtain ⟨text, hlen, hdigits⟩ := s
    simp only [SimDigits.stripped]
    cases text with
    | nil => cases hlen
    | cons c ds =>
        have hds : ds.length = 11 := Nat.succ.inj hlen
        by_cases hc : c = 48
        · simp [hc, hds]
        · simp [hc, hds]
  have heq := htext sim'
  rw [h, ← htext sim] at heq
  cases sim
  cases sim'
  cases heq
  rfl

/-! ## The result -/

/-- The text in the request of a query that is sent. -/
theorem streamUrlQuery_sim {simno : Nat} {held : Option TimaHttp}
    (h : streamUrlQuery jansson cfg o simno channel = some (q, held)) :
    ∃ thiz, q.node = some thiz ∧ CString.strcpy 16 (Decimal.pad 11 simno) = some thiz.req.sim := by
  obtain ⟨hc, hs⟩ := of_query_some h
  rw [query_eq_start hc hs] at h
  obtain ⟨-, rfl, -⟩ := of_start h
  exact ⟨_, rfl, CString.strcpy_of_lt hs⟩

/-- Twelve digits packed by the client are parsed as the number they denote and
queried as the digits without one leading zero.  So eleven digits behind a zero
come back as they are, and no two texts are queried alike. -/
theorem sim_round_trip (p : ClientPacket) (sim : SimDigits) (r : ParserInput) :
    parsedSim p sim r = some (Decimal.value sim.text) ∧
      queriedSim p sim r =
        some (if sim.text.head? = some 48 then sim.text.tail else sim.text) ∧
      (∀ jansson cfg o simno channel q held, parsedSim p sim r = some simno →
        streamUrlQuery jansson cfg o simno channel = some (q, held) →
        ∃ thiz, q.node = some thiz ∧ queriedSim p sim r = some thiz.req.sim) ∧
      (∀ eleven, sim.text = 48 :: eleven → queriedSim p sim r = some eleven) ∧
      ∀ p' sim' r', queriedSim p' sim' r' = queriedSim p sim r → sim' = sim := by
  refine ⟨parsedSim_eq p sim r, queriedSim_eq p sim r, ?_, ?_, ?_⟩
  · intro jansson cfg o simno channel q held hparsed hquery
    obtain ⟨thiz, hnode, hsim⟩ := streamUrlQuery_sim hquery
    exact ⟨thiz, hnode, by rw [queriedSim, hparsed, Option.bind_some, hsim]⟩
  · intro eleven htext
    rw [queriedSim_eq, SimDigits.stripped, htext]
    rfl
  · intro p' sim' r' hqueried
    rw [queriedSim_eq, queriedSim_eq] at hqueried
    exact SimDigits.stripped_injective (Option.some.inj hqueried)

/-- A header with the magic and nothing else. -/
def bareClientPacket : ClientPacket where
  tmp := List.replicate clientTmpSize 0
  data := [0x30, 0x31, 0x63, 0x64] ++ List.replicate 26 0
  length_tmp := List.length_replicate
  magic := by decide
  sim_le := by decide
  fits := by decide

/-- `"098765432198"`, whose first byte is positive and whose second is not. -/
def paddedSim : SimDigits where
  text := [48, 57, 56, 55, 54, 53, 52, 51, 50, 49, 57, 56]
  length_text := rfl
  isDigit := by simp [Decimal.IsDigit]

/-- A parse of no more than the header. -/
def bareHeader : ParserInput where
  rest := []
  length := 30
  head := { magic := [], rtp := 0, pt := 0, channel := 0, mtype := 0, bodylen := 0, simno := 0 }

/-- Eleven digits behind a zero come back. -/
theorem sim_round_trip_padded :
    queriedSim bareClientPacket paddedSim bareHeader =
      some [57, 56, 55, 54, 53, 52, 51, 50, 49, 57, 56] :=
  (sim_round_trip bareClientPacket paddedSim bareHeader).2.2.2.1 _ rfl

end VmpSa
