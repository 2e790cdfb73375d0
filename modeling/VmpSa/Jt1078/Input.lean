import VmpSa.Jt1078.Parser
import VmpSa.Lib.Loop

/-!
# The input of a connection

`media_stream_proc` and `stream_input_handler` of `bll/bll_h264_stream.c`.  The
input `evbuffer` is the list of the bytes in it: `evbuffer_copyout` takes the
first bytes of it and `evbuffer_remove` drops them.  The calls that leave this
layer are logged: `stream_url_query`, `h264_stream_proc` and the blocks removed.

The handler goes round while its own count of the input exceeds 30, the length
of a header, and `cond` is set.  A packet may be just as long when its body is
empty, and then the handler leaves it behind (`handler_spec`).
-/

namespace VmpSa

/-- The state of a connection that the input handler works on. -/
structure Conn where
  /-- The input `evbuffer`. -/
  input : List UInt8
  /-- `sim`; `(unsigned long long)-1` until the first packet. -/
  sim : Nat
  /-- `channel.id`. -/
  channelId : Int
  /-- The calls of `stream_url_query`: number and channel. -/
  queries : List (Nat × UInt8)
  /-- The calls of `h264_stream_proc`: channel and body. -/
  videos : List (UInt8 × List UInt8)
  /-- The blocks taken by `evbuffer_remove`. -/
  removed : List (List UInt8)
deriving Repr, DecidableEq

/-- `(unsigned long long)-1`. -/
def noSim : Nat := 2 ^ 64 - 1

/-- A connection that has received nothing. -/
def Conn.init : Conn where
  input := []
  sim := noSim
  channelId := 0
  queries := []
  videos := []
  removed := []

/-- `stream_header_t head = {0}`. -/
def zeroHeader : StreamHeader where
  magic := [0, 0, 0, 0]
  rtp := 0
  pt := 0
  channel := 0
  mtype := 0
  bodylen := 0
  simno := 0

/-- The first packet of a connection sets its number and asks for the stream URL. -/
def queryOnce (conn : Conn) (head : StreamHeader) : Conn :=
  if conn.sim = noSim then
    { conn with
      sim := head.simno
      channelId := head.channel.toNat
      queries := conn.queries ++ [(head.simno, head.channel)] }
  else conn

/-- Audio and transparent data are dropped; everything else goes to the channel. -/
def handOver (conn : Conn) (head : StreamHeader) (stream : List UInt8) : Conn :=
  if head.mtype &&& 0xf0 = 0x30 then conn
  else if head.mtype &&& 0xf0 = 0x40 then conn
  else
    { conn with
      channelId := head.channel.toNat
      videos := conn.videos ++ [(head.channel, stream.take head.bodylen)] }

/-- `media_stream_proc`. -/
def mediaStreamProc (conn : Conn) : Int × Conn :=
  let copied := conn.input.take jt1078StreamPackageSize
  let buff := copied ++ List.replicate (1024 - copied.length) 0
  if 0 < copied.length then
    let parsed := packetJt1078Parse buff copied.length zeroHeader
    if parsed.1 = 0 then (0, conn)
    else if parsed.1 < 0 then (parsed.1, conn)
    else if jt1078StreamPackageSize < parsed.1 then (jt1078StreamPackageSize, conn)
    else (parsed.1, handOver (queryOnce conn parsed.2) parsed.2 (buff.drop 30))
  else (0, conn)

/-- The local state of `stream_input_handler`: its count of the input and how
often it has gone round. -/
structure HandlerState where
  len : Nat
  rounds : Nat
  conn : Conn

/-- One pass of the loop of `stream_input_handler`.  `cond n` is what the handler
finds in `cond` after `n` rounds. -/
def handlerPass (cond : Nat → Bool) (s : HandlerState) : Loop.Pass HandlerState Conn :=
  let ret := (mediaStreamProc s.conn).1
  let conn := (mediaStreamProc s.conn).2
  if 0 < ret then
    let conn := { conn with
      input := conn.input.drop ret.toNat
      removed := conn.removed ++ [conn.input.take ret.toNat] }
    let len := s.len - ret.toNat
    if 30 < len ∧ cond (s.rounds + 1) then
      .again { len := len, rounds := s.rounds + 1, conn := conn }
    else .leave conn
  else .leave conn

@[simp] theorem handOver_input (conn : Conn) (head : StreamHeader) (stream : List UInt8) :
    (handOver conn head stream).input = conn.input := by
  unfold handOver
  split_ifs <;> rfl

@[simp] theorem queryOnce_input (conn : Conn) (head : StreamHeader) :
    (queryOnce conn head).input = conn.input := by
  unfold queryOnce
  split_ifs <;> rfl

theorem mediaStreamProc_input (conn : Conn) :
    (mediaStreamProc conn).2.input = conn.input ∧
      (0 < (mediaStreamProc conn).1 → conn.input ≠ []) := by
  unfold mediaStreamProc
  simp only
  split
  next hpos =>
    have hne : conn.input ≠ [] := by
      intro hnil
      rw [hnil] at hpos
      exact absurd hpos (by simp)
    split
    · exact ⟨rfl, fun _ => hne⟩
    · split
      · exact ⟨rfl, fun _ => hne⟩
      · split
        · exact ⟨rfl, fun _ => hne⟩
        · exact ⟨by simp, fun _ => hne⟩
  next => exact ⟨rfl, fun h => absurd h (Int.lt_irrefl 0)⟩

theorem handlerPass_decreases (cond : Nat → Bool) :
    Loop.Decreases (handlerPass cond) (fun s => s.conn.input.length) := by
  intro s s' h
  obtain ⟨hin, hne⟩ := mediaStreamProc_input s.conn
  unfold handlerPass at h
  simp only at h
  split at h
  next hret =>
    split at h
    · cases h
      have hlen := List.length_pos_of_ne_nil (hne hret)
      simp only [hin, List.length_drop]
      omega
    · cases h
  next => cases h

/-- `stream_input_handler`. -/
def streamInputHandler (cond : Nat → Bool) (conn : Conn) : Conn :=
  if cond 0 = false then conn
  else
    Loop.exec (handlerPass cond) (fun s => s.conn.input.length) (handlerPass_decreases cond)
      { len := conn.input.length, rounds := 0, conn := conn }

/-! ## One packet -/

/-- The connection after a packet has been handed over. -/
def Conn.deliver (conn : Conn) (p : List UInt8) : Conn :=
  handOver (queryOnce conn (readHeader p)) (readHeader p) (p.drop 30)

/-- The connection after a packet has been handed over and removed. -/
def Conn.consume (conn : Conn) (p : List UInt8) : Conn :=
  { conn.deliver p with
    input := conn.input.drop p.length
    removed := conn.removed ++ [p] }

variable {conn : Conn} {p r : List UInt8}

@[simp] theorem deliver_input (conn : Conn) (p : List UInt8) :
    (conn.deliver p).input = conn.input := by
  rw [Conn.deliver, handOver_input, queryOnce_input]

@[simp] theorem deliver_removed (conn : Conn) (p : List UInt8) :
    (conn.deliver p).removed = conn.removed := by
  unfold Conn.deliver handOver queryOnce
  split_ifs <;> rfl

@[simp] theorem consume_input (conn : Conn) (p : List UInt8) :
    (conn.consume p).input = conn.input.drop p.length := rfl

@[simp] theorem consume_removed (conn : Conn) (p : List UInt8) :
    (conn.consume p).removed = conn.removed ++ [p] := rfl

/-- Only the announced length of the stream matters. -/
theorem handOver_congr (conn : Conn) {head : StreamHeader} {s s' : List UInt8}
    (h : s.take head.bodylen = s'.take head.bodylen) :
    handOver conn head s = handOver conn head s' := by
  unfold handOver
  rw [h]

/-- A packet at the front is handed over and its length returned. -/
theorem media_of_frame (h : nextFrame conn.input = some (p, r)) :
    mediaStreamProc conn = ((p.length : Int), conn.deliver p) := by
  obtain ⟨hx, hp⟩ := nextFrame_some h
  have hlen := hp.length
  have hle := hp.le
  have hs : SameHeader conn.input p := hx ▸ sameHeader_append (by omega) r
  have hw : Whole conn.input := by
    by_contra hno
    rw [nextFrame_none_iff.mpr hno] at h
    cases h
  have hcopied : 0 < (conn.input.take jt1078StreamPackageSize).length := by
    have := hw.2
    rw [List.length_take]
    omega
  have hbody : ∀ n, ((conn.input.take jt1078StreamPackageSize ++
      List.replicate n 0).drop 30).take (bodyLength p) = (p.drop 30).take (bodyLength p) := by
    intro n
    have hpre : ∃ t, conn.input.take jt1078StreamPackageSize ++ List.replicate n 0 = p ++ t := by
      rw [hx, List.take_append, List.take_of_length_le hle]
      exact ⟨_, List.append_assoc ..⟩
    obtain ⟨t, ht⟩ := hpre
    rw [ht, List.drop_append_of_le_length (by omega), List.take_append_of_le_length]
    rw [List.length_drop]
    omega
  have hret : (bodyLength p : Int) + 30 = p.length := by omega
  unfold mediaStreamProc
  simp only [hcopied, if_true, parse_eq, hw.1, hw, not_true, if_false, hs.bodyLength,
    hs.readHeader, hret]
  rw [if_neg (by omega), if_neg (by omega), if_neg (by omega), Conn.deliver,
    handOver_congr _ (hbody _)]

/-- Without a packet at the front nothing happens. -/
theorem media_of_none (h : nextFrame conn.input = none) :
    (mediaStreamProc conn).1 ≤ 0 ∧ (mediaStreamProc conn).2 = conn := by
  have hw := nextFrame_none_iff.mp h
  unfold mediaStreamProc
  simp only [parse_eq, hw, if_false]
  split
  · by_cases hm : findMagicCode conn.input = true
    · simp [hm]
    · simp [hm]
  · exact ⟨Int.le_refl 0, rfl⟩

/-! ## The handler -/

/-- `cond` stays set. -/
def condSet : Nat → Bool := fun _ => true

/-- The connection after several packets. -/
def Conn.consumeAll (conn : Conn) (ps : List (List UInt8)) : Conn := ps.foldl Conn.consume conn

/-- A pass that finds a packet and no more than a header's length behind it, one
that finds a packet and more, and one that finds none. -/
theorem handlerPass_last {n : Nat} (h : nextFrame conn.input = some (p, r))
    (hr : ¬ 30 < r.length) :
    handlerPass condSet ⟨conn.input.length, n, conn⟩ = .leave (conn.consume p) := by
  have hx := congrArg List.length (nextFrame_some h).1
  have hp := (nextFrame_some h).2.length
  rw [List.length_append] at hx
  have hpos : (0 : Int) < p.length := by omega
  unfold handlerPass
  simp only [media_of_frame h, hpos, if_true, Int.toNat_natCast, deliver_input, deliver_removed]
  rw [if_neg (by omega)]
  congr 1
  rw [Conn.consume, (nextFrame_some h).1, List.take_left]

theorem handlerPass_more {n : Nat} (h : nextFrame conn.input = some (p, r)) (hr : 30 < r.length) :
    handlerPass condSet ⟨conn.input.length, n, conn⟩ =
      .again ⟨(conn.consume p).input.length, n + 1, conn.consume p⟩ := by
  have hx := congrArg List.length (nextFrame_some h).1
  have hp := (nextFrame_some h).2.length
  rw [List.length_append] at hx
  have hpos : (0 : Int) < p.length := by omega
  unfold handlerPass
  simp only [media_of_frame h, hpos, if_true, Int.toNat_natCast, deliver_input, deliver_removed]
  rw [if_pos ⟨by omega, rfl⟩]
  congr 2
  · rw [consume_input, List.length_drop]
  · rw [Conn.consume, (nextFrame_some h).1, List.take_left]

theorem handlerPass_none {n : Nat} (h : nextFrame conn.input = none) :
    handlerPass condSet ⟨conn.input.length, n, conn⟩ = .leave conn := by
  obtain ⟨hret, hconn⟩ := media_of_none h
  unfold handlerPass
  simp only [hconn]
  rw [if_neg (by omega)]

theorem consume_of_frame (h : nextFrame conn.input = some (p, r)) : (conn.consume p).input = r := by
  rw [consume_input, (nextFrame_some h).1, List.drop_left]

/-- The last packet is left behind: it is not the first, its body is empty and
nothing follows it. -/
def StrandsLast (x : List UInt8) : Prop :=
  ∃ ps q, frameReader.items x = ps ++ [q] ∧ ps ≠ [] ∧ q.length = 30 ∧ frameReader.rest x = []

/-- Packets and rest make up the input. -/
theorem flatten_items (x : List UInt8) :
    (frameReader.items x).flatten ++ frameReader.rest x = x := by
  induction x using frameReader.next_induction with
  | hnone x h => rw [Reader.items_of_none h, Reader.rest_of_none h]; rfl
  | hsome x p r h ih =>
      rw [Reader.items_of_some h, Reader.rest_of_some h, List.flatten_cons, List.append_assoc, ih]
      exact (nextFrame_some h).1.symm

/-- Behind a packet and more than a header's length the question is the same. -/
theorem strandsLast_of_more {x : List UInt8} (h : frameReader.next x = some (p, r))
    (hr : 30 < r.length) : StrandsLast x ↔ StrandsLast r := by
  rw [StrandsLast, StrandsLast, Reader.items_of_some h, Reader.rest_of_some h]
  constructor
  · rintro ⟨ps, q, hi, hne, hq, hrest⟩
    match ps, hne with
    | p' :: ps, _ =>
        rw [List.cons_append, List.cons.injEq] at hi
        refine ⟨ps, q, hi.2, ?_, hq, hrest⟩
        rintro rfl
        have hflat := congrArg List.length (flatten_items r)
        rw [hi.2, hrest] at hflat
        simp only [List.nil_append, List.flatten_cons, List.flatten_nil, List.append_nil] at hflat
        omega
  · rintro ⟨ps, q, hi, hne, hq, hrest⟩
    exact ⟨p :: ps, q, by rw [hi, List.cons_append], by simp, hq, hrest⟩

/-- How the handler leaves a connection: all packets are consumed, or all but a
stranded last one. -/
inductive Handled (conn out : Conn) : Prop where
  | all : ¬ StrandsLast conn.input → out = conn.consumeAll (frameReader.items conn.input) →
      out.input = frameReader.rest conn.input → Handled conn out
  | butLast {ps : List (List UInt8)} {q : List UInt8} : StrandsLast conn.input →
      frameReader.items conn.input = ps ++ [q] → out = conn.consumeAll ps → out.input = q →
      IsFrame q → Handled conn out

theorem Handled.cons (h : nextFrame conn.input = some (p, r)) (hr : 30 < r.length) {out : Conn}
    (hout : Handled (conn.consume p) out) : Handled conn out := by
  have hi : frameReader.items conn.input = p :: frameReader.items r := Reader.items_of_some h
  have hrest : frameReader.rest conn.input = frameReader.rest r := Reader.rest_of_some h
  have hs := strandsLast_of_more h hr
  cases hout with
  | all hno heq hleft =>
      rw [consume_of_frame h] at hno heq hleft
      exact .all (fun h' => hno (hs.mp h')) (by rw [heq, hi]; rfl) (hleft.trans hrest.symm)
  | @butLast ps q hst hitems heq hleft hq =>
      rw [consume_of_frame h] at hst hitems
      have hcons : frameReader.items conn.input = (p :: ps) ++ [q] := by
        rw [hi, hitems, List.cons_append]
      exact .butLast (hs.mpr hst) hcons heq hleft hq

/-- A packet with nothing but the beginning of another behind it. -/
theorem handled_last (h : nextFrame conn.input = some (p, r)) (hn : nextFrame r = none) :
    Handled conn (conn.consume p) := by
  have hi : frameReader.items conn.input = [p] := by
    rw [Reader.items_of_some h, Reader.items_of_none hn]
  have hrest : frameReader.rest conn.input = r := by
    rw [Reader.rest_of_some h, Reader.rest_of_none hn]
  refine .all ?_ (by rw [hi]; rfl) (by rw [consume_of_frame h, hrest])
  rintro ⟨ps, q, hps, hne, -⟩
  rw [hi] at hps
  match ps, hne with
  | a :: ps, _ => simp at hps

/-- A packet with a packet of a header's length behind it. -/
theorem handled_butLast {q r' : List UInt8} (h : nextFrame conn.input = some (p, r))
    (hr : ¬ 30 < r.length) (hn : nextFrame r = some (q, r')) : Handled conn (conn.consume p) := by
  obtain ⟨hrq, hq⟩ := nextFrame_some hn
  have hlen := congrArg List.length hrq
  have hqlen := hq.length
  rw [List.length_append] at hlen
  have hnil : r' = [] := List.length_eq_zero_iff.mp (by omega)
  subst hnil
  have hempty : frameReader.next [] = none := by decide
  have hi : frameReader.items conn.input = [p] ++ [q] := by
    rw [Reader.items_of_some h, Reader.items_of_some hn, Reader.items_of_none hempty]
    rfl
  have hrest : frameReader.rest conn.input = [] := by
    rw [Reader.rest_of_some h, Reader.rest_of_some hn, Reader.rest_of_none hempty]
  exact .butLast ⟨[p], q, hi, by simp, by omega, hrest⟩ hi rfl
    (by rw [consume_of_frame h, hrq, List.append_nil]) hq

theorem handlerLoop_spec (conn : Conn) (n : Nat) :
    Handled conn (Loop.exec (handlerPass condSet) (fun s => s.conn.input.length)
      (handlerPass_decreases condSet) ⟨conn.input.length, n, conn⟩) := by
  -- the induction follows the packets at the front of the input
  generalize hx : conn.input = x
  induction x using frameReader.next_induction generalizing conn n with
  | hnone x h =>
      subst hx
      have hi : frameReader.items conn.input = [] := Reader.items_of_none h
      rw [Loop.exec_leave _ (handlerPass_none h)]
      refine .all ?_ (by rw [hi]; rfl) (Reader.rest_of_none h).symm
      rintro ⟨ps, q, hps, -⟩
      rw [hi] at hps
      exact absurd hps (by simp)
  | hsome x p r h ih =>
      subst hx
      by_cases hr : 30 < r.length
      · have hin := consume_of_frame h
        have hih := ih (conn.consume p) (n + 1) hin
        rw [← hin] at hih
        rw [Loop.exec_again _ (handlerPass_more h hr)]
        exact hih.cons h hr
      · rw [Loop.exec_leave _ (handlerPass_last h hr)]
        cases hn : nextFrame r with
        | none => exact handled_last h hn
        | some c => exact handled_butLast h hr hn

/-- The handler with `cond` set. -/
theorem handler_spec (conn : Conn) : Handled conn (streamInputHandler condSet conn) := by
  rw [streamInputHandler, if_neg (by decide)]
  exact handlerLoop_spec conn 0

/-! ## The URL query -/

/-- Six pairs of digits stay far below `(unsigned long long)-1`. -/
theorem simnoGet_lt (bcd : List UInt8) : simnoGet bcd < noSim := by
  have hb : ∀ i, bcdParse (bcd.getD i 0) ≤ 2805 := by
    intro i
    have hhigh := UInt8.toNat_lt ((bcd.getD i 0 &&& 0xf0) >>> 4)
    have hlow := UInt8.toNat_lt (bcd.getD i 0 &&& 0x0f)
    rw [bcdParse]
    omega
  have h0 := hb 0
  have h1 := hb 1
  have h2 := hb 2
  have h3 := hb 3
  have h4 := hb 4
  have h5 := hb 5
  simp only [simnoGet, noSim, List.range, List.range.loop, List.foldl]
  omega

/-- The query is made once, together with the first setting of `sim`. -/
structure Conn.AskedOnce (conn : Conn) : Prop where
  sim : conn.sim = noSim ↔ conn.queries = []
  once : conn.queries.length ≤ 1

theorem askedOnce_init : Conn.init.AskedOnce where
  sim := ⟨fun _ => rfl, fun _ => rfl⟩
  once := Nat.zero_le 1

theorem handOver_asks (conn : Conn) (head : StreamHeader) (stream : List UInt8) :
    (handOver conn head stream).sim = conn.sim ∧
      (handOver conn head stream).queries = conn.queries := by
  unfold handOver
  split_ifs <;> exact ⟨rfl, rfl⟩

/-- A packet keeps this, and is not followed by a second query. -/
theorem Conn.AskedOnce.consume (h : conn.AskedOnce) (p : List UInt8) :
    (conn.consume p).AskedOnce ∧ (conn.queries ≠ [] → (conn.consume p).queries = conn.queries) := by
  obtain ⟨hsim, hqueries⟩ :=
    handOver_asks (queryOnce conn (readHeader p)) (readHeader p) (p.drop 30)
  have hsim' : (conn.consume p).sim = (queryOnce conn (readHeader p)).sim := hsim
  have hqueries' : (conn.consume p).queries = (queryOnce conn (readHeader p)).queries := hqueries
  by_cases hno : conn.sim = noSim
  · have hnil := h.sim.mp hno
    rw [queryOnce, if_pos hno, hnil] at hqueries'
    rw [queryOnce, if_pos hno] at hsim'
    have hlt : (readHeader p).simno < noSim := simnoGet_lt _
    refine ⟨⟨?_, ?_⟩, fun hne => absurd hnil hne⟩
    · rw [hsim', hqueries']
      exact ⟨fun he => absurd he (Nat.ne_of_lt hlt), nofun⟩
    · rw [hqueries']
      exact Nat.le_refl 1
  · rw [queryOnce, if_neg hno] at hsim' hqueries'
    refine ⟨⟨?_, ?_⟩, fun _ => hqueries'⟩
    · rw [hsim', hqueries']
      exact h.sim
    · rw [hqueries']
      exact h.once

theorem Conn.AskedOnce.consumeAll (h : conn.AskedOnce) (ps : List (List UInt8)) :
    (conn.consumeAll ps).AskedOnce ∧
      (conn.queries ≠ [] → (conn.consumeAll ps).queries = conn.queries) := by
  induction ps generalizing conn with
  | nil => exact ⟨h, fun _ => rfl⟩
  | cons p ps ih =>
      obtain ⟨hp, hsame⟩ := h.consume p
      obtain ⟨hps, hsame'⟩ := ih hp
      refine ⟨hps, fun hne => ?_⟩
      exact (hsame' (by rwa [hsame hne])).trans (hsame hne)

/-- A call of the handler queries the URL at most when none was queried before. -/
theorem Conn.AskedOnce.handler (h : conn.AskedOnce) :
    (streamInputHandler condSet conn).AskedOnce ∧
      (conn.queries ≠ [] → (streamInputHandler condSet conn).queries = conn.queries) := by
  cases handler_spec conn with
  | all _ hout _ =>
      rw [hout]
      exact h.consumeAll _
  | butLast _ _ hout _ _ =>
      rw [hout]
      exact h.consumeAll _

end VmpSa
