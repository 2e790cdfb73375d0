import VmpSa.Jt1078.Framing
import VmpSa.Jt1078.Identity
import VmpSa.Jt1078.SimNumber

/-!
# The test client and the server

`tvmpss_send_thread` of `test/tvmpss_client.c` cuts a recorded file at the magic code of
its packets, puts a SIM number into each packet and sends it, once or over and over.

The client looks for the code that ends a packet, so it never sends the last packet of
the file.  Every other one it sends in turn (`run_loop`, `run_once`), and what it sends
are packets again, with the number in place of the recorded one (`Packet.stamped`).  So
the handler of the server takes exactly what the client sends, however it arrives.
-/

namespace VmpSa

/-! ## The model -/

/-- The loop variables of `tvmpss_send_thread`, the blocks it has sent and whether it has
returned.  `stop` is the variable `end`.  The socket blocks, so `send` takes a whole
block. -/
structure Client where
  cur : Nat
  stop : Nat
  tmp : List UInt8
  sent : List (List UInt8)
  ended : Bool

/-- At the top of the loop. -/
def Client.init : Client where
  cur := 0
  stop := 4
  tmp := List.replicate clientTmpSize 0
  sent := []
  ended := false

/-- The inner loop: the first offset from `stop` on and below `stream_len - 4` at which the
magic code stands. -/
def nextCode (file : List UInt8) (stop : Nat) : Option Nat :=
  (List.range' stop (file.length - 4 - stop)).find? fun i => findMagicCode (file.drop i)

/-- One pass of the loop; a thread that has returned stays as it is.  `none` when it reads
outside the file, whose length less 4 is converted to an unsigned number, or writes outside
`tmp`. -/
def clientPass (loop : Bool) (sim file : List UInt8) (c : Client) : Option Client :=
  if c.ended then some c
  else if file.length < 4 then none
  else
    match nextCode file c.stop with
    | none =>
        if loop then some { c with cur := 0, stop := 3 } else some { c with ended := true }
    | some stop =>
        match tvmpssSend c.tmp ((file.drop c.cur).take (stop - c.cur)) sim with
        | none => none
        | some (block, tmp) =>
            some { c with cur := stop, stop := stop + 3, tmp := tmp, sent := c.sent ++ [block] }

/-- A number of passes. -/
def clientRun (loop : Bool) (sim file : List UInt8) : Nat → Option Client
  | 0 => some .init
  | k + 1 => (clientRun loop sim file k).bind (clientPass loop sim file)

/-! ## Recorded files -/

/-- Where the packet of an index begins in the file. -/
def startOf (ps : List Packet) (j : Nat) : Nat := ((ps.take j).map Packet.bytes).flatten.length

/-- The file is made of the packets, and the magic code stands nowhere else in it. -/
structure Recorded (file : List UInt8) (ps : List Packet) : Prop where
  nonempty : ps ≠ []
  flatten : file = (ps.map Packet.bytes).flatten
  codes : ∀ i, magicCode <+: file.drop i → ∃ j ≤ ps.length, i = startOf ps j

/-- The packets a client has sent after a number of passes: those of the file but the last
one, over and over with a pass between the rounds, or once. -/
def packetsSent (ps : List Packet) (loop : Bool) (k : Nat) : List Packet :=
  if loop then
    (List.replicate (k / ps.length) ps.dropLast).flatten ++ ps.dropLast.take (k % ps.length)
  else ps.dropLast.take k

variable {ps : List Packet} {file : List UInt8} {i j k : Nat} {c : Client}

theorem Packet.length_ge (p : Packet) : 31 ≤ p.bytes.length := by
  have hlen := p.length
  have hpos := p.body_pos
  omega

theorem Packet.length_le (p : Packet) : p.bytes.length ≤ 980 := by
  have hlen := p.length
  have hle := p.body_le
  omega

@[simp] theorem startOf_zero (ps : List Packet) : startOf ps 0 = 0 := rfl

theorem startOf_succ (h : j < ps.length) :
    startOf ps (j + 1) = startOf ps j + ps[j].bytes.length := by
  rw [startOf, List.take_succ_eq_append_getElem h, List.map_append, List.flatten_append,
    List.length_append]
  simp [startOf]

/-- The packets follow one another, each at least 31 bytes behind the one before. -/
theorem startOf_lt (hij : i < j) (hj : j ≤ ps.length) : startOf ps i + 31 ≤ startOf ps j := by
  induction j, hij using Nat.le_induction with
  | base =>
      have hlen := ps[i].length_ge
      rw [startOf_succ (by omega)]
      omega
  | succ j hij ih =>
      have ih := ih (by omega)
      have hlen := ps[j].length_ge
      rw [startOf_succ (by omega)]
      omega

theorem Recorded.length_file (h : Recorded file ps) : file.length = startOf ps ps.length := by
  rw [startOf, List.take_length, h.flatten]

theorem Recorded.drop_startOf (h : Recorded file ps) (j : Nat) :
    file.drop (startOf ps j) = ((ps.drop j).map Packet.bytes).flatten := by
  have hsplit : file = ((ps.take j).map Packet.bytes).flatten ++
      ((ps.drop j).map Packet.bytes).flatten := by
    rw [← List.flatten_append, ← List.map_append, List.take_append_drop, h.flatten]
  rw [hsplit, startOf, List.drop_left]

/-- Between two starts the code does not stand. -/
theorem Recorded.no_code (h : Recorded file ps) (hj : j < ps.length) (hlt : startOf ps j < i)
    (hnext : ∀ k, j < k → k ≤ ps.length → i < startOf ps k) :
    findMagicCode (file.drop i) = false := by
  cases hcode : findMagicCode (file.drop i) with
  | false => rfl
  | true =>
      obtain ⟨k, hk, rfl⟩ := h.codes i (findMagicCode_iff.mp hcode)
      rcases Nat.lt_trichotomy j k with hjk | rfl | hkj
      · exact absurd (hnext k hjk hk) (Nat.lt_irrefl _)
      · exact absurd hlt (Nat.lt_irrefl _)
      · have hle := startOf_lt hkj (Nat.le_of_lt hj)
        omega

/-- A packet begins with the code. -/
theorem Recorded.code (h : Recorded file ps) (hj : j < ps.length) :
    findMagicCode (file.drop (startOf ps j)) = true := by
  rw [h.drop_startOf, List.drop_eq_getElem_cons hj, List.map_cons, List.flatten_cons,
    findMagicCode_iff]
  exact ps[j].magic.trans (List.prefix_append ..)

/-! ## The inner loop -/

/-- The inner loop stops at the first code. -/
theorem nextCode_some {stop e : Nat} (hle : stop ≤ e) (hlt : e + 4 < file.length)
    (hcode : findMagicCode (file.drop e) = true)
    (hno : ∀ i, stop ≤ i → i < e → findMagicCode (file.drop i) = false) :
    nextCode file stop = some e := by
  have hsplit : List.range' stop (file.length - 4 - stop) =
      List.range' stop (e - stop) ++ e :: List.range' (e + 1) (file.length - 4 - e - 1) := by
    have hcount : file.length - 4 - stop = (e - stop) + (file.length - 4 - e - 1 + 1) := by omega
    rw [hcount, ← List.range'_append_1, List.range'_succ, Nat.add_sub_cancel' hle]
  have hbefore : (List.range' stop (e - stop)).find? (fun i => findMagicCode (file.drop i)) =
      none := by
    rw [List.find?_eq_none]
    intro i hi
    have hi := List.mem_range'_1.mp hi
    rw [hno i hi.1 (by omega)]
    exact Bool.false_ne_true
  rw [nextCode, hsplit, List.find?_append, hbefore, Option.none_or,
    List.find?_cons_of_pos (p := fun i => findMagicCode (file.drop i)) hcode]

theorem nextCode_none {stop : Nat}
    (hno : ∀ i, stop ≤ i → i + 4 < file.length → findMagicCode (file.drop i) = false) :
    nextCode file stop = none := by
  rw [nextCode, List.find?_eq_none]
  intro i hi
  have hi := List.mem_range'_1.mp hi
  rw [hno i hi.1 (by omega)]
  exact Bool.false_ne_true

/-- From within a packet the loop finds the next one. -/
theorem Recorded.nextCode_eq (h : Recorded file ps) (hj : j + 1 < ps.length) {stop : Nat}
    (hlt : startOf ps j < stop) (hle : stop ≤ startOf ps j + 4) :
    nextCode file stop = some (startOf ps (j + 1)) := by
  have hgap := startOf_lt (Nat.lt_add_one j) (Nat.le_of_lt hj)
  have hlast := startOf_lt hj (Nat.le_refl _)
  refine nextCode_some (by omega) (by rw [h.length_file]; omega) (h.code hj) ?_
  intro i hi hie
  refine h.no_code (Nat.lt_of_succ_lt hj) (by omega) ?_
  intro k hjk hk
  rcases Nat.lt_or_ge (j + 1) k with hlater | hle'
  · have := startOf_lt hlater hk
    omega
  · have hk : k = j + 1 := by omega
    rw [hk]
    exact hie

/-- From within the last packet it finds none. -/
theorem Recorded.nextCode_last (h : Recorded file ps) (hj : j + 1 = ps.length) {stop : Nat}
    (hlt : startOf ps j < stop) : nextCode file stop = none := by
  refine nextCode_none ?_
  intro i hi hlen
  rw [h.length_file] at hlen
  refine h.no_code (show j < ps.length by omega) (by omega) ?_
  intro k hjk hk
  have hk : k = ps.length := by omega
  rw [hk]
  omega

/-! ## What is sent -/

/-- A block with a SIM number in it. -/
def stamp (sim data : List UInt8) : List UInt8 :=
  data.take 8 ++ (List.range 6).map (fun j => simByte (sim.getD (2 * j) 0) (sim.getD (2 * j + 1) 0))
    ++ data.drop 14

theorem length_stamp (sim : List UInt8) {data : List UInt8} (h : 14 ≤ data.length) :
    (stamp sim data).length = data.length := by
  simp only [stamp, List.length_append, List.length_take, List.length_map, List.length_range,
    List.length_drop]
  omega

theorem getElem?_stamp (sim : List UInt8) {data : List UInt8} (h : 14 ≤ data.length) (i : Nat) :
    (stamp sim data)[i]? =
      if 8 ≤ i ∧ i < 14 then
        some (simByte (sim.getD (2 * (i - 8)) 0) (sim.getD (2 * (i - 8) + 1) 0))
      else data[i]? := by
  have htake : (data.take 8).length = 8 := List.length_take_of_le (by omega)
  rw [stamp, List.append_assoc]
  rcases Nat.lt_or_ge i 8 with hi | hi
  · rw [if_neg (by omega), List.getElem?_append_left (by omega), List.getElem?_take_of_lt hi]
  · rw [List.getElem?_append_right (by omega), htake]
    rcases Nat.lt_or_ge i 14 with hi' | hi'
    · rw [if_pos ⟨hi, hi'⟩, List.getElem?_append_left (by simp; omega), List.getElem?_map,
        List.getElem?_range (by omega), Option.map_some]
    · rw [if_neg (by omega), List.getElem?_append_right (by simp; omega), List.getElem?_drop,
        List.length_map, List.length_range]
      congr 1
      omega

/-- Outside the number a block stays as it is. -/
theorem getD_stamp (sim : List UInt8) {data : List UInt8} (h : 14 ≤ data.length)
    (hi : i < 8 ∨ 14 ≤ i) : (stamp sim data).getD i 0 = data.getD i 0 := by
  rw [List.getD_eq_getElem?_getD, getElem?_stamp sim h, if_neg (by omega),
    List.getD_eq_getElem?_getD]

/-- The block that is sent is the stamped one. -/
theorem tvmpssSend_eq {tmp data : List UInt8} (htmp : tmp.length = clientTmpSize)
    (hdata : 14 ≤ data.length) (hle : data.length ≤ clientTmpSize) (sim : List UInt8) :
    ∃ tmp', tvmpssSend tmp data sim = some (stamp sim data, tmp') ∧
      tmp'.length = clientTmpSize := by
  have hwrite : Block.write tmp 0 data =
      some (tmp.take 0 ++ data ++ tmp.drop (0 + data.length)) :=
    Block.write_of_le (by omega)
  have hlen := Block.length_of_write hwrite
  rw [List.take_zero, List.nil_append] at hwrite hlen
  refine ⟨storeSim sim (data ++ tmp.drop (0 + data.length)), ?_, ?_⟩
  · rw [tvmpssSend, hwrite, Option.map_some]
    refine congrArg some (Prod.ext (List.ext_getElem? fun i => ?_) rfl)
    change ((storeSim sim (data ++ tmp.drop (0 + data.length))).take data.length)[i]? = _
    rw [getElem?_stamp sim hdata]
    rcases Nat.lt_or_ge i data.length with hi | hi
    · rw [List.getElem?_take_of_lt hi, getElem?_storeSim (by rw [List.length_append]; omega),
        List.getElem?_append_left hi]
    · rw [if_neg (by omega), List.getElem?_eq_none hi,
        List.getElem?_eq_none (Nat.le_trans (List.length_take_le _ _) hi)]
  · rw [length_storeSim, hlen, htmp]

theorem findMagicCode_stamp (sim : List UInt8) {data : List UInt8} (h : 14 ≤ data.length) :
    findMagicCode (stamp sim data) = findMagicCode data := by
  simp only [findMagicCode, getD_stamp sim h (Or.inl (show 0 < 8 by decide)),
    getD_stamp sim h (Or.inl (show 1 < 8 by decide)),
    getD_stamp sim h (Or.inl (show 2 < 8 by decide)),
    getD_stamp sim h (Or.inl (show 3 < 8 by decide))]

theorem bodyLength_stamp (sim : List UInt8) {data : List UInt8} (h : 14 ≤ data.length) :
    bodyLength (stamp sim data) = bodyLength data := by
  simp only [bodyLength, getD_stamp sim h (Or.inr (show 14 ≤ 15 by decide)),
    getD_stamp sim h (Or.inr (show 14 ≤ 28 by decide)),
    getD_stamp sim h (Or.inr (show 14 ≤ 29 by decide))]

/-- A packet with a SIM number in it is a packet. -/
def Packet.stamped (sim : List UInt8) (p : Packet) : Packet where
  bytes := stamp sim p.bytes
  magic := by
    rw [← findMagicCode_iff, findMagicCode_stamp sim (by have := p.length_ge; omega),
      findMagicCode_iff]
    exact p.magic
  body_pos := by
    rw [bodyLength_stamp sim (by have := p.length_ge; omega)]
    exact p.body_pos
  body_le := by
    rw [bodyLength_stamp sim (by have := p.length_ge; omega)]
    exact p.body_le
  length := by
    rw [length_stamp sim (by have := p.length_ge; omega),
      bodyLength_stamp sim (by have := p.length_ge; omega)]
    exact p.length

@[simp] theorem Packet.stamped_body (sim : List UInt8) (p : Packet) :
    (p.stamped sim).body = p.body := by
  have hlen := p.length_ge
  refine List.ext_getElem? fun i => ?_
  rw [Packet.body, Packet.body, List.getElem?_drop, List.getElem?_drop, Packet.stamped,
    getElem?_stamp sim (by omega), if_neg (by omega)]

theorem Packet.readHeader_stamped (sim : List UInt8) (p : Packet) :
    (readHeader (p.stamped sim).bytes).channel = (readHeader p.bytes).channel ∧
      (readHeader (p.stamped sim).bytes).mtype = (readHeader p.bytes).mtype := by
  have hlen := p.length_ge
  exact ⟨getD_stamp sim (by omega) (Or.inr (Nat.le_refl 14)),
    getD_stamp sim (by omega) (Or.inr (Nat.le_succ 14))⟩

@[simp] theorem Packet.stamped_isVideo (sim : List UInt8) (p : Packet) :
    (p.stamped sim).isVideo = p.isVideo := by
  rw [Packet.isVideo, Packet.isVideo, (p.readHeader_stamped sim).2]

/-- The number in a stamped packet is the one its digits denote. -/
theorem Packet.stamped_simno (sim : SimDigits) (p : Packet) :
    (readHeader (p.stamped sim.text).bytes).simno = Decimal.value sim.text := by
  have hlen := p.length_ge
  refine simnoGet_eq sim fun j hj => ?_
  rw [List.getD_eq_getElem?_getD, List.getElem?_drop, Packet.stamped,
    getElem?_stamp sim.text (by omega), if_pos (by omega), Nat.add_sub_cancel_left]
  rfl

/-! ## Rounds -/

/-- The client is in the packet of an index, a few bytes behind its start. -/
structure Client.At (ps : List Packet) (c : Client) (j : Nat) : Prop where
  tmp : c.tmp.length = clientTmpSize
  cur : c.cur = startOf ps j
  lt : startOf ps j < c.stop
  le : c.stop ≤ startOf ps j + 4
  ended : c.ended = false

theorem Client.at_init (ps : List Packet) : Client.init.At ps 0 where
  tmp := List.length_replicate
  cur := rfl
  lt := Nat.zero_lt_succ 3
  le := Nat.le_refl 4
  ended := rfl

variable {loop : Bool} {sim : List UInt8}

theorem Recorded.length_pos (h : Recorded file ps) : 0 < ps.length :=
  List.length_pos_iff.mpr h.nonempty

theorem Recorded.four_le (h : Recorded file ps) : ¬ file.length < 4 := by
  have := startOf_lt h.length_pos (Nat.le_refl _)
  rw [h.length_file]
  omega

/-- A pass in a packet that is not the last one sends it. -/
theorem Recorded.pass_next (h : Recorded file ps) (loop : Bool) (sim : List UInt8)
    (hc : c.At ps j) (hj : j + 1 < ps.length) :
    ∃ c', clientPass loop sim file c = some c' ∧ c'.At ps (j + 1) ∧
      c'.sent = c.sent ++ [(ps[j].stamped sim).bytes] := by
  have hlen := ps[j].length_ge
  have hle := ps[j].length_le
  have hblock : (file.drop c.cur).take (startOf ps (j + 1) - c.cur) = ps[j].bytes := by
    rw [hc.cur, h.drop_startOf, startOf_succ (by omega), Nat.add_sub_cancel_left,
      List.drop_eq_getElem_cons (show j < ps.length by omega), List.map_cons, List.flatten_cons,
      List.take_left]
  obtain ⟨tmp, hsend, htmp⟩ := tvmpssSend_eq hc.tmp (show 14 ≤ ps[j].bytes.length by omega)
    (Nat.le_trans hle (by decide)) sim
  let c' : Client :=
    { c with
      cur := startOf ps (j + 1)
      stop := startOf ps (j + 1) + 3
      tmp := tmp
      sent := c.sent ++ [stamp sim ps[j].bytes] }
  refine ⟨c', ?_, ⟨htmp, rfl, ?_, ?_, hc.ended⟩, rfl⟩
  · rw [clientPass, if_neg (by rw [hc.ended]; exact Bool.false_ne_true), if_neg h.four_le,
      h.nextCode_eq hj hc.lt hc.le]
    simp only [hblock, hsend]
    rfl
  · exact Nat.lt_add_of_pos_right (by decide)
  · exact Nat.add_le_add_left (by decide) _

/-- A pass in the last packet sends nothing: it goes back to the beginning or returns. -/
theorem Recorded.pass_last (h : Recorded file ps) (hc : c.At ps j) (hj : j + 1 = ps.length) :
    clientPass loop sim file c =
      if loop then some { c with cur := 0, stop := 3 } else some { c with ended := true } := by
  rw [clientPass, if_neg (by rw [hc.ended]; exact Bool.false_ne_true), if_neg h.four_le,
    h.nextCode_last hj hc.lt]

/-- What a packet is sent as. -/
def sentAs (sim : List UInt8) (qs : List Packet) : List (List UInt8) :=
  qs.map fun p => (p.stamped sim).bytes

theorem sentAs_concat (sim : List UInt8) (qs : List Packet) (p : Packet) :
    sentAs sim (qs ++ [p]) = sentAs sim qs ++ [(p.stamped sim).bytes] :=
  List.map_append

theorem take_dropLast_succ (hj : j + 1 < ps.length) :
    ps.dropLast.take (j + 1) = ps.dropLast.take j ++ [ps[j]] := by
  rw [List.take_succ_eq_append_getElem (by rw [List.length_dropLast]; omega),
    List.getElem_dropLast]

/-- In a round the next packet follows. -/
theorem packetsSent_next (hj : k % ps.length + 1 < ps.length) :
    (k + 1) % ps.length = k % ps.length + 1 ∧
      packetsSent ps true (k + 1) = packetsSent ps true k ++ [ps[k % ps.length]] := by
  have hdivmod := Nat.div_add_mod k ps.length
  obtain ⟨hdiv, hmod⟩ := (Nat.div_mod_unique (a := k + 1) (d := k / ps.length)
    (c := k % ps.length + 1) (show 0 < ps.length by omega)).mpr ⟨by omega, hj⟩
  refine ⟨hmod, ?_⟩
  rw [packetsSent, packetsSent, if_pos rfl, if_pos rfl, hdiv, hmod, take_dropLast_succ hj,
    List.append_assoc]

/-- A round ends without a packet. -/
theorem packetsSent_wrap (hj : k % ps.length + 1 = ps.length) :
    (k + 1) % ps.length = 0 ∧ packetsSent ps true (k + 1) = packetsSent ps true k := by
  have hdivmod := Nat.div_add_mod k ps.length
  obtain ⟨hdiv, hmod⟩ := (Nat.div_mod_unique (a := k + 1) (d := k / ps.length + 1) (c := 0)
    (show 0 < ps.length by omega)).mpr ⟨by rw [Nat.mul_add, Nat.mul_one]; omega, by omega⟩
  refine ⟨hmod, ?_⟩
  rw [packetsSent, packetsSent, if_pos rfl, if_pos rfl, hdiv, hmod, List.replicate_succ',
    List.flatten_append, List.take_zero, List.append_nil,
    List.take_of_length_le (by rw [List.length_dropLast]; omega)]
  simp

/-- The looping client sends round after round. -/
theorem Recorded.run_loop (h : Recorded file ps) (sim : List UInt8) (k : Nat) :
    ∃ c, clientRun true sim file k = some c ∧ c.At ps (k % ps.length) ∧
      c.sent = sentAs sim (packetsSent ps true k) := by
  induction k with
  | zero =>
      refine ⟨.init, rfl, ?_, ?_⟩
      · rw [Nat.zero_mod]
        exact Client.at_init ps
      · rw [packetsSent, if_pos rfl, Nat.zero_div, Nat.zero_mod]
        rfl
  | succ k ih =>
      obtain ⟨c, hrun, hc, hsent⟩ := ih
      have hlt := Nat.mod_lt k h.length_pos
      rcases Nat.lt_or_eq_of_le (show k % ps.length + 1 ≤ ps.length from hlt) with hj | hj
      · obtain ⟨hmod, hpackets⟩ := packetsSent_next hj
        obtain ⟨c', hpass, hc', hsent'⟩ := h.pass_next true sim hc hj
        refine ⟨c', ?_, hmod ▸ hc', ?_⟩
        · rw [clientRun, hrun, Option.bind_some, hpass]
        · rw [hsent', hsent, hpackets, sentAs_concat]
      · obtain ⟨hmod, hpackets⟩ := packetsSent_wrap hj
        refine ⟨{ c with cur := 0, stop := 3 }, ?_, ?_, ?_⟩
        · rw [clientRun, hrun, Option.bind_some, h.pass_last hc hj, if_pos rfl]
        · rw [hmod]
          exact ⟨hc.tmp, rfl, Nat.zero_lt_succ 2, Nat.le_succ 3, hc.ended⟩
        · rw [hpackets]
          exact hsent

/-- Without the loop the client sends one round and returns. -/
theorem Recorded.run_once (h : Recorded file ps) (sim : List UInt8) (k : Nat) :
    ∃ c, clientRun false sim file k = some c ∧ c.sent = sentAs sim (packetsSent ps false k) ∧
      ((k < ps.length ∧ c.At ps k) ∨ (ps.length ≤ k ∧ c.ended = true)) := by
  induction k with
  | zero => exact ⟨.init, rfl, rfl, Or.inl ⟨h.length_pos, Client.at_init ps⟩⟩
  | succ k ih =>
      obtain ⟨c, hrun, hsent, hstate⟩ := ih
      have hdone : ps.length ≤ k + 1 → packetsSent ps false (k + 1) = packetsSent ps false k := by
        intro hle
        change ps.dropLast.take (k + 1) = ps.dropLast.take k
        rw [List.take_of_length_le (by rw [List.length_dropLast]; omega),
          List.take_of_length_le (by rw [List.length_dropLast]; omega)]
      rcases hstate with ⟨hlt, hc⟩ | ⟨hle, hended⟩
      · rcases Nat.lt_or_eq_of_le (show k + 1 ≤ ps.length from hlt) with hj | hj
        · obtain ⟨c', hpass, hc', hsent'⟩ := h.pass_next false sim hc hj
          have hpackets : packetsSent ps false (k + 1) = packetsSent ps false k ++ [ps[k]] :=
            take_dropLast_succ hj
          refine ⟨c', ?_, ?_, Or.inl ⟨hj, hc'⟩⟩
          · rw [clientRun, hrun, Option.bind_some, hpass]
          · rw [hsent', hsent, hpackets, sentAs_concat]
        · refine ⟨{ c with ended := true }, ?_, ?_, Or.inr ⟨Nat.le_of_eq hj.symm, rfl⟩⟩
          · rw [clientRun, hrun, Option.bind_some, h.pass_last hc hj, if_neg Bool.false_ne_true]
          · rw [hdone (Nat.le_of_eq hj.symm)]
            exact hsent
      · refine ⟨c, ?_, ?_, Or.inr ⟨Nat.le_succ_of_le hle, hended⟩⟩
        · rw [clientRun, hrun, Option.bind_some, clientPass, if_pos hended]
        · rw [hdone (Nat.le_succ_of_le hle)]
          exact hsent

/-! ## The server -/

/-- However a connection gets its bytes, its first packet identifies it. -/
theorem receiveAll_identified (chunks : List (List UInt8)) :
    (receiveAll .init chunks).Identified := by
  induction chunks using List.reverseRecOn with
  | nil => exact identified_init
  | append_singleton chunks chunk ih =>
      rw [receiveAll, List.foldl_append]
      have hmore : ({ receiveAll .init chunks with
          input := (receiveAll .init chunks).input ++ chunk } : Conn).Identified :=
        ⟨ih.waiting, ih.first, ih.accepted⟩
      exact hmore.handler condSet

/-- What a server that got the packets has done. -/
structure Relayed (sim : SimDigits) (qs : List Packet) (conn : Conn) : Prop where
  input : conn.input = []
  removed : conn.removed = sentAs sim.text qs
  videos : conn.videos = (qs.filter Packet.isVideo).map fun p =>
    ((readHeader p.bytes).channel, p.body)
  queries : conn.queries.map Prod.fst = if qs = [] then [] else [Decimal.value sim.text]

/-- The server takes stamped packets as they are sent, cut into whatever chunks. -/
theorem relayed_of_chunks (sim : SimDigits) (qs : List Packet) {chunks : List (List UInt8)}
    (hbytes : chunks.flatten = (sentAs sim.text qs).flatten) :
    Relayed sim qs (receiveAll .init chunks) := by
  have hsent : sentAs sim.text qs = (qs.map (Packet.stamped sim.text)).map Packet.bytes := by
    rw [List.map_map]
    rfl
  rw [hsent] at hbytes
  have hframed : Framed .init chunks.flatten (receiveAll .init chunks) := by
    have hz : [] ++ chunks.flatten <+:
        ((qs.map (Packet.stamped sim.text)).map Packet.bytes).flatten := by
      rw [List.nil_append, hbytes]
    exact framed_of_chunks ⟨rfl, rfl, rfl⟩ hz
  have hitems : frameReader.items chunks.flatten =
      (qs.map (Packet.stamped sim.text)).map Packet.bytes := by
    rw [hbytes, items_of_take (List.prefix_refl _), present_all]
  have hremoved : (receiveAll .init chunks).removed = sentAs sim.text qs := by
    rw [hframed.removed, hitems, hsent]
    rfl
  refine ⟨?_, hremoved, ?_, ?_⟩
  · have hflat := flatten_items chunks.flatten
    rw [hitems, ← hbytes] at hflat
    rw [hframed.input]
    exact List.append_right_eq_self.mp hflat
  · rw [hframed.videos, hitems, flatMap_videoOf, List.filter_map, List.map_map]
    refine (List.nil_append _).trans ?_
    have hvideo : Packet.isVideo ∘ Packet.stamped sim.text = Packet.isVideo :=
      funext fun p => p.stamped_isVideo sim.text
    rw [hvideo]
    refine List.map_congr_left fun p _ => ?_
    exact Prod.ext (p.readHeader_stamped sim.text).1 (p.stamped_body sim.text)
  · have hid := receiveAll_identified chunks
    cases qs with
    | nil =>
        rw [(hid.waiting hremoved).2]
        rfl
    | cons p qs =>
        rw [(hid.first _ _ hremoved).2, if_neg (List.cons_ne_nil p qs), List.map_singleton,
          p.stamped_simno sim]

/-- The test client and the server, after any number of passes: the client has come to no
fault, it has sent all packets of the file but the last one in turn and returns just after
one round without the loop; and however what it sent is cut into chunks, the server takes
exactly these blocks, hands the bodies of the recorded packets over and asks once for the
number the client was given. -/
theorem client_reaches_server (h : Recorded file ps) (sim : SimDigits) (loop : Bool) (k : Nat) :
    ∃ c, clientRun loop sim.text file k = some c ∧
      c.sent = sentAs sim.text (packetsSent ps loop k) ∧
      (c.ended = true ↔ loop = false ∧ ps.length ≤ k) ∧
      ∀ chunks : List (List UInt8), chunks.flatten = c.sent.flatten →
        Relayed sim (packetsSent ps loop k) (receiveAll .init chunks) := by
  have hserver : ∀ c : Client, c.sent = sentAs sim.text (packetsSent ps loop k) →
      ∀ chunks : List (List UInt8), chunks.flatten = c.sent.flatten →
        Relayed sim (packetsSent ps loop k) (receiveAll .init chunks) := by
    intro c hsent chunks hbytes
    rw [hsent] at hbytes
    exact relayed_of_chunks sim _ hbytes
  cases loop with
  | true =>
      obtain ⟨c, hrun, hc, hsent⟩ := h.run_loop sim.text k
      refine ⟨c, hrun, hsent, ?_, hserver c hsent⟩
      rw [hc.ended]
      simp
  | false =>
      obtain ⟨c, hrun, hsent, hstate⟩ := h.run_once sim.text k
      refine ⟨c, hrun, hsent, ?_, hserver c hsent⟩
      rcases hstate with ⟨hlt, hc⟩ | ⟨hle, hended⟩
      · rw [hc.ended]
        simp [Nat.not_le.mpr hlt]
      · simp [hended, hle]

/-- Two small packets after one another. -/
def smallFile : List UInt8 := smallPacket.bytes ++ smallPacket.bytes

theorem recorded_smallFile : Recorded smallFile [smallPacket, smallPacket] where
  nonempty := List.cons_ne_nil _ _
  flatten := by decide
  codes := by
    intro i hi
    have hall : ∀ i < 62, findMagicCode (smallFile.drop i) = true → i = 0 ∨ i = 31 := by decide
    have hlt : i < 62 := by
      have hle := hi.length_le
      have hlen : smallFile.length = 62 := rfl
      rw [List.length_drop, hlen, show magicCode.length = 4 from rfl] at hle
      omega
    rcases hall i hlt (findMagicCode_iff.mpr hi) with rfl | rfl
    · exact ⟨0, Nat.zero_le _, rfl⟩
    · exact ⟨1, Nat.le_succ 1, rfl⟩

/-- Four passes of the looping client are two rounds of one packet. -/
theorem client_reaches_server_smallFile :
    ∃ c, clientRun true paddedSim.text smallFile 4 = some c ∧
      c.sent = sentAs paddedSim.text [smallPacket, smallPacket] ∧
      Relayed paddedSim [smallPacket, smallPacket] (receiveAll .init c.sent) := by
  obtain ⟨c, hrun, hsent, -, hserver⟩ :=
    client_reaches_server recorded_smallFile paddedSim true 4
  exact ⟨c, hrun, hsent, hserver c.sent rfl⟩

end VmpSa
