import VmpSa.Jt1078.Input
import VmpSa.Lib.Decimal
import VmpSa.Lib.System

/-!
# The identity of a connection

A connection takes its number from the first packet the parser accepts and asks
for the stream URL then.  "Not yet" is the value `(unsigned long long)-1` of
the same variable.  No packet can bring that value in: `simno_get` stays below
10^13 on any six bytes, digits or not, and for the same reason the number fits
the request field as text.

`cond` is cleared by other threads, so a call of the handler may end behind any
of its packets; what a handler finds there is an argument of the call.
-/

namespace VmpSa

/-! ## The number -/

theorem bcdParse_le (c : UInt8) : bcdParse c ≤ 165 := by
  have hhigh : ((c &&& 0xf0) >>> 4).toNat ≤ 15 := by
    have hand : (c.toNat &&& 0xf0) ≤ 0xf0 := Nat.and_le_right
    rw [UInt8.toNat_shiftRight, UInt8.toNat_and, Nat.shiftRight_eq_div_pow]
    exact Nat.div_le_of_le_mul hand
  have hlow : (c &&& 0x0f).toNat ≤ 15 := by
    rw [UInt8.toNat_and]
    exact Nat.and_le_right
  rw [bcdParse]
  omega

/-- Six bytes, digits or not, give at most thirteen decimal digits. -/
theorem simnoGet_lt_pow (bcd : List UInt8) : simnoGet bcd < 10 ^ 13 := by
  have h0 := bcdParse_le (bcd.getD 0 0)
  have h1 := bcdParse_le (bcd.getD 1 0)
  have h2 := bcdParse_le (bcd.getD 2 0)
  have h3 := bcdParse_le (bcd.getD 3 0)
  have h4 := bcdParse_le (bcd.getD 4 0)
  have h5 := bcdParse_le (bcd.getD 5 0)
  simp only [simnoGet, List.range, List.range.loop, List.foldl]
  omega

/-- `TIMA_SIM_NO_LEN` -/
def timaSimNoLen : Nat := 16

/-- What `sprintf(.., "%011lld", sim)` prints and its NUL fit the request field.  A number
below 2^63 is not negative as a `long long`. -/
theorem simText_fits (bcd : List UInt8) :
    (Decimal.pad 11 (simnoGet bcd)).length + 1 ≤ timaSimNoLen := by
  have hdigits : (Decimal.digits (simnoGet bcd)).length ≤ 13 :=
    (Decimal.length_digits_le_iff (by decide)).mpr (simnoGet_lt_pow bcd)
  rw [Decimal.pad, List.length_append, List.length_replicate, timaSimNoLen]
  omega

/-! ## The first packet -/

/-- A call of the handler: the bytes that came in and what it finds in `cond`. -/
structure InputCall where
  bytes : List UInt8
  cond : Nat → Bool

/-- One call of `stream_input_handler`. -/
def inputStep (conn : Conn) (call : InputCall) : Option Conn :=
  some (streamInputHandler call.cond { conn with input := conn.input ++ call.bytes })

/-- The connection is identified by the first packet it accepted: until then it has
no number and has asked nothing, and from then on it has that packet's number
and has asked once, for that packet's number and channel. -/
structure Conn.Identified (conn : Conn) : Prop where
  waiting : conn.removed = [] → conn.sim = noSim ∧ conn.queries = []
  first : ∀ p ps, conn.removed = p :: ps → conn.sim = (readHeader p).simno ∧
    conn.queries = [((readHeader p).simno, (readHeader p).channel)]
  accepted : ∀ p ∈ conn.removed, 0 < (packetJt1078Parse p p.length zeroHeader).1

variable {conn : Conn} {p : List UInt8}

theorem IsFrame.accepted (h : IsFrame p) :
    0 < (packetJt1078Parse p p.length zeroHeader).1 := by
  have hlen := h.length
  rw [packetJt1078Parse, if_neg (fun hno => hno h.magic), if_neg (by omega)]
  simp only
  omega

/-- What a pass does to the connection, whatever its count and `cond`: nothing, or
one packet is consumed. -/
theorem handlerPass_cases (cond : Nat → Bool) (s : HandlerState) :
    handlerPass cond s = .leave s.conn ∨
      ∃ p, IsFrame p ∧ (handlerPass cond s = .leave (s.conn.consume p) ∨
        ∃ len, handlerPass cond s = .again ⟨len, s.rounds + 1, s.conn.consume p⟩) := by
  cases hnext : nextFrame s.conn.input with
  | none =>
      obtain ⟨hret, hconn⟩ := media_of_none hnext
      refine Or.inl ?_
      rw [handlerPass]
      simp only [hconn]
      rw [if_neg (by omega)]
  | some pr =>
      obtain ⟨p, r⟩ := pr
      obtain ⟨hinput, hframe⟩ := nextFrame_some hnext
      have hlen := hframe.length
      have hpos : (0 : Int) < p.length := by omega
      have hconsume : { s.conn.deliver p with
          input := (s.conn.deliver p).input.drop p.length
          removed := (s.conn.deliver p).removed ++ [(s.conn.deliver p).input.take p.length] } =
          s.conn.consume p := by
        rw [Conn.consume, deliver_input, deliver_removed, hinput, List.take_left]
      refine Or.inr ⟨p, hframe, ?_⟩
      rw [handlerPass]
      simp only [media_of_frame hnext, hpos, if_true, Int.toNat_natCast, hconsume]
      split
      · exact Or.inr ⟨_, rfl⟩
      · exact Or.inl rfl

/-- A further packet changes neither the number nor the query, the first one sets
both. -/
theorem Conn.Identified.consume (h : conn.Identified) (hp : IsFrame p) :
    (conn.consume p).Identified := by
  obtain ⟨hsim, hqueries⟩ :=
    handOver_asks (queryOnce conn (readHeader p)) (readHeader p) (p.drop 30)
  refine ⟨fun hnil => ?_, fun q qs hq => ?_, fun q hq => ?_⟩
  · rw [consume_removed] at hnil
    exact absurd hnil (by simp)
  · rw [consume_removed] at hq
    change (handOver _ _ _).sim = _ ∧ (handOver _ _ _).queries = _
    rw [hsim, hqueries, queryOnce]
    cases hremoved : conn.removed with
    | nil =>
        obtain ⟨hno, hnone⟩ := h.waiting hremoved
        rw [hremoved] at hq
        cases hq
        rw [if_pos hno, hnone]
        exact ⟨rfl, rfl⟩
    | cons p₀ ps =>
        obtain ⟨hsim₀, hqueries₀⟩ := h.first p₀ ps hremoved
        have hlt : (readHeader p₀).simno < noSim := simnoGet_lt _
        rw [hremoved] at hq
        cases hq
        rw [if_neg (by rw [hsim₀]; exact Nat.ne_of_lt hlt)]
        exact ⟨hsim₀, hqueries₀⟩
  · rw [consume_removed] at hq
    rcases List.mem_append.mp hq with hq | hq
    · exact h.accepted q hq
    · rw [List.mem_singleton.mp hq]
      exact hp.accepted

/-- A call of the handler keeps a connection identified. -/
theorem Conn.Identified.handler (h : conn.Identified) (cond : Nat → Bool) :
    (streamInputHandler cond conn).Identified := by
  rw [streamInputHandler]
  split
  · exact h
  · refine Loop.exec_rule _ (fun s : HandlerState => s.conn.Identified) Conn.Identified ?_ ?_ _ h
    · intro s s' hs hpass
      rcases handlerPass_cases cond s with hleave | ⟨p, hp, hleave | ⟨len, hagain⟩⟩
      · rw [hleave] at hpass
        cases hpass
      · rw [hleave] at hpass
        cases hpass
      · rw [hagain] at hpass
        cases hpass
        exact hs.consume hp
    · intro s conn' hs hpass
      rcases handlerPass_cases cond s with hleave | ⟨p, hp, hleave | ⟨len, hagain⟩⟩
      · rw [hleave] at hpass
        cases hpass
        exact hs
      · rw [hleave] at hpass
        cases hpass
        exact hs.consume hp
      · rw [hagain] at hpass
        cases hpass

theorem identified_init : Conn.init.Identified where
  waiting := fun _ => ⟨rfl, rfl⟩
  first := nofun
  accepted := nofun

theorem inputStep_identified {conn' : Conn} {call : InputCall} (h : conn.Identified)
    (hs : inputStep conn call = some conn') : conn'.Identified := by
  have hmore : { conn with input := conn.input ++ call.bytes }.Identified :=
    ⟨h.waiting, h.first, h.accepted⟩
  cases hs
  exact hmore.handler call.cond

/-- After every sequence of calls on any bytes the connection is identified by its
first packet; and no six bytes give the value that stands for "not yet", nor a
number too long for the request. -/
theorem connection_identified (calls : List InputCall) :
    (∃ conn, System.run inputStep Conn.init calls = some conn ∧ conn.Identified ∧
      conn.queries.length ≤ 1) ∧
    ∀ b₀ b₁ b₂ b₃ b₄ b₅ : UInt8, simnoGet [b₀, b₁, b₂, b₃, b₄, b₅] ≠ noSim ∧
      (Decimal.pad 11 (simnoGet [b₀, b₁, b₂, b₃, b₄, b₅])).length + 1 ≤ timaSimNoLen := by
  refine ⟨?_, fun _ _ _ _ _ _ => ⟨Nat.ne_of_lt (simnoGet_lt _), simText_fits _⟩⟩
  obtain ⟨conn, hrun, hid⟩ := System.run_reaches (fun _ (conn : Conn) => conn.Identified)
    (fun _ conn call hi _ => ⟨_, rfl, inputStep_identified hi rfl⟩)
    identified_init (System.along_true calls)
  refine ⟨conn, hrun, hid, ?_⟩
  cases hremoved : conn.removed with
  | nil =>
      rw [(hid.waiting hremoved).2]
      exact Nat.zero_le 1
  | cons p ps =>
      rw [(hid.first p ps hremoved).2]
      exact Nat.le_refl 1

end VmpSa
