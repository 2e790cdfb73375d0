import VmpSa.Event.Evbuffer
import VmpSa.Server.Listener

/-!
# From the listener to the stream servers

`send_socket_to_core` of `mw/server/server_listener.c` adds the record of an accepted
connection to the output of a `bufferevent` pair, `be_pair_transfer` of
`common/libevent/bufferevent_pair.c` moves it to the input at the other end, and there
`relay_receive_message` of `bll/bll_core.c` takes records off one by one.  The listener and
the stream servers run in threads of their own, and nothing in the stream of bytes
separates the records.

`evbuffer_add` adds all of a record or nothing, and a transfer moves everything there is.
So each end holds whole records only, and every record that has been sent is handled by
the server its descriptor selects, once and in order (`connections_dispatched`).

A server has no pair until its thread has been in `setup_server`, and nothing makes the
listener wait for that: `Server/Listener` is about the time before.  Here a connection that
comes for a server without a pair is a fault, and so is a pair that cannot be had, which
`setup_server` does not see.
-/

namespace VmpSa.Event

/-! ## The model -/

/-- `sizeof(vmp_connection_t)` on a 64-bit target.  The structure is packed. -/
def sizeofVmpConnection : Nat := 84

/-- The bytes of a `vmp_connection_t`, as `server_accept_handler` has filled it in. -/
structure Record where
  bytes : List UInt8
  length : bytes.length = sizeofVmpConnection
deriving DecidableEq

/-- `evbuffer_add_buffer`, with `COPY_CHAIN`, `APPEND_CHAIN` and `ZERO_CHAIN`: the result,
`outbuf` and `inbuf`. -/
def evbufferAddBuffer (outbuf inbuf : Evbuffer) : Option (Int × Evbuffer × Evbuffer) :=
  if inbuf.totalLen = 0 then some (0, outbuf, inbuf)
  else if outbuf.freezeEnd ∨ inbuf.freezeStart then some (-1, outbuf, inbuf)
  else
    let zero :=
      { inbuf with chains := [], last := none, lastWithDatap := 0, totalLen := 0 }
    if outbuf.totalLen = 0 then
      some (0, { outbuf with
        chains := inbuf.chains
        last := inbuf.last
        lastWithDatap := inbuf.lastWithDatap
        totalLen := inbuf.totalLen }, zero)
    else
      (freeTrailingEmptyChains outbuf).map fun chp =>
        (0, { outbuf with
          chains := outbuf.chains.take chp ++ inbuf.chains
          last := inbuf.last.map fun i => chp + i
          lastWithDatap := chp + inbuf.lastWithDatap
          totalLen := outbuf.totalLen + inbuf.totalLen }, zero)

/-- The two ends of `struct bufferevent_pair`: the output of `pair[1]` and the input of
`pair[0]`, which has no watermarks. -/
structure BuffereventPair where
  output : Evbuffer
  input : Evbuffer
  /-- `EV_READ` is set in `enabled` of `pair[0]`. -/
  reading : Bool
  readcbPending : Bool
deriving DecidableEq

namespace BuffereventPair

/-- `bufferevent_pair_new` -/
def new : BuffereventPair where
  output := evbufferFreeze evbufferNew true true
  input := evbufferFreeze evbufferNew false true
  reading := false
  readcbPending := false

/-- `be_pair_wants_to_talk`, from `pair[1]` to `pair[0]` -/
def wantsToTalk (p : BuffereventPair) : Bool := p.reading ∧ evbufferGetLength p.output ≠ 0

/-- `be_pair_transfer`.  The callback for reading is deferred. -/
def transfer (p : BuffereventPair) : Option BuffereventPair :=
  (evbufferAddBuffer (evbufferFreeze p.input false false)
    (evbufferFreeze p.output true false)).map fun r =>
      { p with
        output := evbufferFreeze r.2.2 true true
        input := evbufferFreeze r.2.1 false true
        readcbPending := true }

/-- `evbuffer_add` on the output, with its callback `be_pair_outbuf_cb`, which runs when
something has been added. -/
def add (p : BuffereventPair) (data : List UInt8) (malloc : Bool) :
    Option (Int × BuffereventPair) :=
  (evbufferAdd p.output data malloc).bind fun r =>
    let p := { p with output := r.2 }
    if r.1 = 0 ∧ data ≠ [] ∧ p.wantsToTalk then p.transfer.map fun p => (r.1, p)
    else some (r.1, p)

/-- `bufferevent_enable` on `pair[0]`, with `be_pair_enable` -/
def enable (p : BuffereventPair) : Option BuffereventPair :=
  let p := { p with reading := true }
  if p.wantsToTalk then p.transfer else some p

end BuffereventPair

/-- A stream server and its thread.  The calls of `handle_message` are logged. -/
structure StreamServer where
  /-- `in_buf` and `out_buf`, which are NULL at first. -/
  pair : Option BuffereventPair
  /-- `relay_receive_message` is in its loop. -/
  receiving : Bool
  handled : List (List UInt8)
  /-- How often the buffer was weird. -/
  weird : Nat
deriving DecidableEq

/-- A server fresh from `calloc`. -/
def StreamServer.new : StreamServer where
  pair := none
  receiving := false
  handled := []
  weird := 0

/-- `bufferevent_pair_new` in `setup_server`, and the assignments after it.  Without a pair
the server goes on with pointers nobody has set. -/
def StreamServer.setup (ss : StreamServer) (created : Bool) : Option StreamServer :=
  match ss.pair with
  | some _ => some ss
  | none => if created then some { ss with pair := some .new } else none

/-- `bufferevent_enable` in `setup_server`. -/
def StreamServer.enable (ss : StreamServer) : Option StreamServer :=
  match ss.pair with
  | none => some ss
  | some pair => pair.enable.map fun pair => { ss with pair := some pair }

/-- The deferred callback begins, if it is pending. -/
def StreamServer.deferred (ss : StreamServer) : StreamServer :=
  match ss.pair with
  | none => ss
  | some pair =>
      if pair.readcbPending ∧ ¬ ss.receiving then
        { ss with pair := some { pair with readcbPending := false }, receiving := true }
      else ss

/-- One turn of the loop of `relay_receive_message`. -/
def StreamServer.receive (ss : StreamServer) : Option StreamServer :=
  ss.pair.bind fun pair =>
    (evbufferRemove pair.input sizeofVmpConnection).map fun r =>
      let ss := { ss with pair := some { pair with input := r.2.2 } }
      if 0 < r.1 then
        if r.1 ≠ (sizeofVmpConnection : Int) then { ss with weird := ss.weird + 1 }
        else { ss with handled := ss.handled ++ [r.2.1] }
      else { ss with receiving := false }

/-- A connection that has been accepted, and whether `send_socket_to_core` has sent it. -/
structure Accepted where
  fd : UInt32
  conn : Record
  sent : Bool
deriving DecidableEq

/-- The stream servers, and the log of the listener. -/
structure Dispatch where
  servers : Fin maxStreamServerNum → StreamServer
  log : List Accepted

def Dispatch.init : Dispatch where
  servers := fun _ => .new
  log := []

inductive DispatchAction where
  /-- The thread of a server creates its pair, with success or not. -/
  | setup (i : Fin maxStreamServerNum) (created : Bool)
  /-- It enables the pair. -/
  | enable (i : Fin maxStreamServerNum)
  /-- The listener accepts a connection. -/
  | accept (fd : UInt32) (conn : Record) (malloc : Bool)
  /-- The deferred callback of a server begins. -/
  | deferred (i : Fin maxStreamServerNum)
  /-- Its loop makes a turn. -/
  | receive (i : Fin maxStreamServerNum)

namespace Dispatch

/-- The state with another server in the place `i`. -/
def withServer (s : Dispatch) (i : Fin maxStreamServerNum) (ss : StreamServer) : Dispatch :=
  { s with servers := Function.update s.servers i ss }

def record (s : Dispatch) (a : Accepted) : Dispatch := { s with log := s.log ++ [a] }

/-- `server_accept_handler` with `send_socket_to_core` -/
def accept (s : Dispatch) (fd : UInt32) (conn : Record) (malloc : Bool) : Option Dispatch :=
  let ss := s.servers (serverIndex fd)
  ss.pair.bind fun pair =>
    (pair.add conn.bytes malloc).map fun r =>
      (s.withServer (serverIndex fd) { ss with pair := some r.2 }).record
        { fd := fd, conn := conn, sent := ¬ r.1 < (0 : Int) }

/-- One action.  No result means a fault.  A thread that is past its `setup_server` does not
come there again, and a server that is not in its loop makes no turn. -/
def step (s : Dispatch) : DispatchAction → Option Dispatch
  | .setup i created => ((s.servers i).setup created).map (s.withServer i)
  | .enable i => (s.servers i).enable.map (s.withServer i)
  | .accept fd conn malloc => s.accept fd conn malloc
  | .deferred i => some (s.withServer i (s.servers i).deferred)
  | .receive i =>
      if (s.servers i).receiving then (s.servers i).receive.map (s.withServer i) else some s

/-- What has been sent to a server. -/
def sentTo (s : Dispatch) (i : Fin maxStreamServerNum) : List Record :=
  (s.log.filter fun a => a.sent ∧ serverIndex a.fd = i).map Accepted.conn

end Dispatch

/-- The pair of a server is there when a connection comes for it, and `bufferevent_pair_new`
does not fail. -/
def Dispatch.SetUp (s : Dispatch) : DispatchAction → Prop
  | .setup _ created => created = true
  | .accept fd _ _ => (s.servers (serverIndex fd)).pair.isSome = true
  | _ => True

instance (s : Dispatch) : DecidablePred s.SetUp
  | .setup _ created => inferInstanceAs (Decidable (created = true))
  | .enable _ => inferInstanceAs (Decidable True)
  | .accept fd _ _ =>
      inferInstanceAs (Decidable ((s.servers (serverIndex fd)).pair.isSome = true))
  | .deferred _ => inferInstanceAs (Decidable True)
  | .receive _ => inferInstanceAs (Decidable True)

/-- The connections accepted. -/
def acceptedBy : List DispatchAction → List (UInt32 × Record)
  | [] => []
  | .accept fd conn _ :: as => (fd, conn) :: acceptedBy as
  | _ :: as => acceptedBy as

/-! ## Moving all the bytes -/

variable {outbuf inbuf : Evbuffer} {x y : List UInt8} {front back : List Chain} {c : Chain}

theorem Evbuffer.Sound.zero (hstart hend : Bool) :
    ({ chains := [], last := none, lastWithDatap := 0, totalLen := 0, freezeStart := hstart,
       freezeEnd := hend } : Evbuffer).Sound :=
  ⟨.inl ⟨rfl, rfl, rfl⟩, fun _ h => absurd h List.not_mem_nil, rfl⟩

/-- A buffer with bytes in it has some in the chain its place is at. -/
theorem Evbuffer.At.off_ne_zero {buf : Evbuffer} (h : buf.At front c back)
    (hne : dataOf buf.chains ≠ []) : c.off ≠ 0 := by
  intro h0
  rw [h.dataOf_eq, h.first h0, Chain.data_of_empty h0] at hne
  exact hne rfl

/-- The chains are handed over to a buffer without bytes. -/
theorem handOver_holds
    (hin : inbuf.Holds { contents := y, freezeStart := false, freezeEnd := false }) (hne : y ≠ []) :
    ({ chains := inbuf.chains, last := inbuf.last, lastWithDatap := inbuf.lastWithDatap,
       totalLen := inbuf.totalLen, freezeStart := false, freezeEnd := false } : Evbuffer).Holds
      { contents := y, freezeStart := false, freezeEnd := false } := by
  rcases hin.sound.placed with ⟨hcs, -, -⟩ | ⟨front, c, back, hat⟩
  · exact absurd (hin.contents.symm.trans (congrArg dataOf hcs)) hne
  · obtain ⟨hfitsFront, hfitsC, hfitsBack⟩ := hat.fits hin.sound
    refine ⟨Evbuffer.At.sound ⟨hat.chains, hat.last, hat.lastWithDatap, hat.back_empty, hat.first⟩
      hfitsFront hfitsC hfitsBack ?_, hin.contents, rfl, rfl⟩
    rw [← hat.dataOf_eq]
    exact hin.sound.total

/-- They are linked behind the chain with the last bytes. -/
theorem link_holds
    (hout : outbuf.Holds { contents := x, freezeStart := false, freezeEnd := false }) (hx : x ≠ [])
    (hin : inbuf.Holds { contents := y, freezeStart := false, freezeEnd := false }) (hy : y ≠ []) :
    ∃ chp, freeTrailingEmptyChains outbuf = some chp ∧
      ({ chains := outbuf.chains.take chp ++ inbuf.chains
         last := inbuf.last.map fun i => chp + i
         lastWithDatap := chp + inbuf.lastWithDatap
         totalLen := outbuf.totalLen + inbuf.totalLen
         freezeStart := false
         freezeEnd := false } : Evbuffer).Holds
        { contents := x ++ y, freezeStart := false, freezeEnd := false } := by
  rcases hout.sound.placed with ⟨hcs, -, -⟩ | ⟨front₀, c₀, back₀, hat₀⟩
  · exact absurd (hout.contents.symm.trans (congrArg dataOf hcs)) hx
  rcases hin.sound.placed with ⟨hcs, -, -⟩ | ⟨front, c, back, hat⟩
  · exact absurd (hin.contents.symm.trans (congrArg dataOf hcs)) hy
  obtain ⟨hfitsFront₀, hfitsC₀, -⟩ := hat₀.fits hout.sound
  obtain ⟨hfitsFront, hfitsC, hfitsBack⟩ := hat.fits hin.sound
  have hdata := hat₀.off_ne_zero (by rw [hout.contents]; exact hx)
  have hdataIn := hat.off_ne_zero (by rw [hin.contents]; exact hy)
  have htake : outbuf.chains.take (front₀.length + 1) = front₀ ++ [c₀] := by
    rw [hat₀.chains, List.take_length_add_append, List.take_succ_cons, List.take_zero]
  have hold : dataOf (front₀ ++ [c₀]) = x := by
    have hcontents : dataOf outbuf.chains = x := hout.contents
    rw [← hcontents, hat₀.dataOf_eq, dataOf_append, dataOf_cons, dataOf_nil, List.append_nil]
  have hnew : dataOf front ++ c.data = y := by
    have hcontents : dataOf inbuf.chains = y := hin.contents
    rw [← hcontents, hat.dataOf_eq]
  refine ⟨front₀.length + 1, ?_, ?_⟩
  · rw [hat₀.freeTrailingEmptyChains, if_neg hdata]
  rw [htake]
  have hlinked : Evbuffer.At
      { chains := front₀ ++ [c₀] ++ inbuf.chains
        last := inbuf.last.map fun i => front₀.length + 1 + i
        lastWithDatap := front₀.length + 1 + inbuf.lastWithDatap
        totalLen := outbuf.totalLen + inbuf.totalLen
        freezeStart := false
        freezeEnd := false } (front₀ ++ [c₀] ++ front) c back := by
    refine ⟨?_, ?_, ?_, hat.back_empty, fun h0 => absurd h0 hdataIn⟩
    · simp only [hat.chains, List.append_assoc]
    · simp only [hat.last, Option.map_some, List.length_append, List.length_singleton,
        Nat.add_assoc]
    · simp only [hat.lastWithDatap, List.length_append, List.length_singleton]
  refine ⟨hlinked.sound ?_ hfitsC hfitsBack ?_, ?_, rfl, rfl⟩
  · exact List.forall_mem_append.mpr ⟨List.forall_mem_append.mpr
      ⟨hfitsFront₀, List.forall_mem_singleton.mpr hfitsC₀⟩, hfitsFront⟩
  · have hall : dataOf (front₀ ++ [c₀] ++ front) ++ c.data = x ++ y := by
      rw [dataOf_append, hold, List.append_assoc, hnew]
    rw [hall, List.length_append]
    change outbuf.totalLen + inbuf.totalLen = _
    rw [hout.sound.total, hin.sound.total, hout.contents, hin.contents]
  · rw [dataOf_append, hold, hin.contents]

/-- A transfer puts all the bytes behind those that are there. -/
theorem evbufferAddBuffer_holds
    (hout : outbuf.Holds { contents := x, freezeStart := false, freezeEnd := false })
    (hin : inbuf.Holds { contents := y, freezeStart := false, freezeEnd := false }) :
    ∃ outbuf' inbuf', evbufferAddBuffer outbuf inbuf = some (0, outbuf', inbuf') ∧
      outbuf'.Holds { contents := x ++ y, freezeStart := false, freezeEnd := false } ∧
      inbuf'.Holds { contents := [], freezeStart := false, freezeEnd := false } := by
  have htotalOut : outbuf.totalLen = x.length := by rw [hout.sound.total, hout.contents]
  have htotalIn : inbuf.totalLen = y.length := by rw [hin.sound.total, hin.contents]
  have hopen : ¬ (outbuf.freezeEnd = true ∨ inbuf.freezeStart = true) := by
    rw [hout.freezeEnd, hin.freezeStart]
    simp
  have hzero : ({ inbuf with chains := [], last := none, lastWithDatap := 0, totalLen := 0 } :
      Evbuffer).Holds { contents := [], freezeStart := false, freezeEnd := false } :=
    ⟨.zero _ _, rfl, hin.freezeStart, hin.freezeEnd⟩
  rw [evbufferAddBuffer]
  by_cases hnothing : inbuf.totalLen = 0
  · have hy : y = [] := List.length_eq_zero_iff.mp (htotalIn ▸ hnothing)
    rw [if_pos hnothing, hy, List.append_nil]
    exact ⟨outbuf, inbuf, rfl, hout, hy ▸ hin⟩
  have hy : y ≠ [] := fun hnil => hnothing (by rw [htotalIn, hnil]; rfl)
  rw [if_neg hnothing, if_neg hopen]
  by_cases hfirst : outbuf.totalLen = 0
  · have hx : x = [] := List.length_eq_zero_iff.mp (htotalOut ▸ hfirst)
    rw [if_pos hfirst, hx, List.nil_append, hout.freezeStart, hout.freezeEnd]
    exact ⟨_, _, rfl, handOver_holds hin hy, hzero⟩
  · have hx : x ≠ [] := fun hnil => hfirst (by rw [htotalOut, hnil]; rfl)
    obtain ⟨chp, hfree, hholds⟩ := link_holds hout hx hin hy
    rw [if_neg hfirst, hfree, Option.map_some, hout.freezeStart, hout.freezeEnd]
    exact ⟨_, _, rfl, hholds, hzero⟩

/-! ## One server -/

/-- The bytes of some records. -/
def bytesOf (rs : List Record) : List UInt8 := (rs.map Record.bytes).flatten

/-- The records in the input and in the output of a pair. -/
structure BuffereventPair.Carries (p : BuffereventPair) (ins outs : List Record) : Prop where
  input : p.input.Holds { contents := bytesOf ins, freezeStart := false, freezeEnd := true }
  output : p.output.Holds { contents := bytesOf outs, freezeStart := true, freezeEnd := false }

/-- What is known of a server that has a pair and to which `sent` has been sent.  Once the
input is read, nothing stays in the output. -/
structure StreamServer.Serves (ss : StreamServer) (p : BuffereventPair)
    (sent ins outs : List Record) : Prop where
  pair : ss.pair = some p
  carries : p.Carries ins outs
  passed : p.reading = true → outs = []
  account : sent.map Record.bytes = ss.handled ++ (ins ++ outs).map Record.bytes
  due : ins ≠ [] → p.readcbPending = true ∨ ss.receiving = true
  weird : ss.weird = 0

/-- What is known of a server: it is still as it was created, or it serves. -/
def StreamServer.Known (ss : StreamServer) (sent : List Record) : Prop :=
  ss = .new ∧ sent = [] ∨ ∃ p ins outs, ss.Serves p sent ins outs

variable {p : BuffereventPair} {ss : StreamServer} {s : Dispatch} {ins outs sent : List Record}
  {i : Fin maxStreamServerNum}

theorem bytesOf_append (rs rs' : List Record) :
    bytesOf (rs ++ rs') = bytesOf rs ++ bytesOf rs' := by
  simp [bytesOf]

theorem Record.bytes_ne_nil (r : Record) : r.bytes ≠ [] := by
  intro hnil
  have hlen := r.length
  rw [hnil] at hlen
  exact absurd hlen (by decide)

theorem bytesOf_eq_nil (h : bytesOf ins = []) : ins = [] := by
  cases ins with
  | nil => rfl
  | cons r ins =>
      rw [bytesOf, List.map_cons, List.flatten_cons, List.append_eq_nil_iff] at h
      exact absurd h.1 r.bytes_ne_nil

theorem serves_setup : ({ StreamServer.new with pair := some .new } : StreamServer).Serves .new
    [] [] [] where
  pair := rfl
  carries := ⟨holds_new.freeze false true, holds_new.freeze true true⟩
  passed := fun _ => rfl
  account := rfl
  due := fun hne => absurd rfl hne
  weird := rfl

/-- A transfer moves all the records. -/
theorem BuffereventPair.Carries.transfer (h : p.Carries ins outs) :
    ∃ p', p.transfer = some p' ∧ p'.Carries (ins ++ outs) [] ∧ p'.readcbPending = true := by
  obtain ⟨input, output, hadd, hinput, houtput⟩ :=
    evbufferAddBuffer_holds (h.input.freeze false false) (h.output.freeze true false)
  rw [← bytesOf_append] at hinput
  rw [BuffereventPair.transfer, hadd, Option.map_some]
  exact ⟨_, rfl, ⟨hinput.freeze false true, houtput.freeze true true⟩, rfl⟩

/-- Without one there is nothing to move, or the input is not read. -/
theorem BuffereventPair.Carries.passed (h : p.Carries ins outs) (htalk : ¬ p.wantsToTalk = true)
    (hreading : p.reading = true) : outs = [] := by
  have hlen : evbufferGetLength p.output = (bytesOf outs).length := by
    rw [evbufferGetLength, h.output.sound.total, h.output.contents]
  simp only [BuffereventPair.wantsToTalk, hreading, hlen, true_and, decide_eq_true_eq,
    not_not] at htalk
  exact bytesOf_eq_nil (List.length_eq_zero_iff.mp htalk)

/-- A record is added whole or not at all, and goes to the input when that is read. -/
theorem StreamServer.Serves.add (h : ss.Serves p sent ins outs) (conn : Record) (malloc : Bool) :
    ∃ r p' ins' outs', p.add conn.bytes malloc = some (r, p') ∧
      ({ ss with pair := some p' } : StreamServer).Serves p'
        (sent ++ if ¬ r < 0 then [conn] else []) ins' outs' := by
  obtain ⟨res, output, s', hadd, hallows, hholds⟩ := h.carries.output.add conn.bytes malloc
  rw [BuffereventPair.add, hadd, Option.bind_some]
  rcases hallows with ⟨-, hres, rfl⟩ | ⟨-, hres, rfl⟩
  · have hres' : res = 0 := (Prod.mk.inj hres).1
    subst hres'
    have hbytes : bytesOf (outs ++ [conn]) = bytesOf outs ++ conn.bytes := by
      simp [bytesOf]
    have hcarries : ({ p with output := output } : BuffereventPair).Carries ins
        (outs ++ [conn]) := by
      refine ⟨h.carries.input, ?_⟩
      rw [hbytes]
      exact hholds
    have haccount : (sent ++ [conn]).map Record.bytes =
        ss.handled ++ (ins ++ (outs ++ [conn])).map Record.bytes := by
      rw [List.map_append, h.account]
      simp
    simp only [true_and, conn.bytes_ne_nil, ne_eq, not_false_iff]
    split
    · obtain ⟨p', htransfer, hcarries', hpending⟩ := hcarries.transfer
      rw [htransfer, Option.map_some]
      refine ⟨0, p', ins ++ (outs ++ [conn]), [], rfl, rfl, hcarries', fun _ => rfl, ?_,
        fun _ => .inl hpending, h.weird⟩
      simpa using haccount
    next htalk =>
      refine ⟨0, _, ins, outs ++ [conn], rfl, rfl, hcarries,
        fun hreading => hcarries.passed htalk hreading, ?_, h.due, h.weird⟩
      simpa using haccount
  · have hres' : res = -1 := (Prod.mk.inj hres).1
    subst hres'
    rw [if_neg (by simp)]
    refine ⟨-1, _, ins, outs, rfl, rfl, ⟨h.carries.input, hholds⟩, h.passed, ?_, h.due, h.weird⟩
    simpa using h.account

/-- A server that gets its pair serves; one that has it is past that. -/
theorem StreamServer.Known.setup (h : ss.Known sent) :
    ∃ ss', ss.setup true = some ss' ∧ ss'.Known sent := by
  rcases h with ⟨rfl, rfl⟩ | ⟨p, ins, outs, hserves⟩
  · exact ⟨_, rfl, .inr ⟨.new, [], [], serves_setup⟩⟩
  · refine ⟨ss, ?_, .inr ⟨p, ins, outs, hserves⟩⟩
    rw [StreamServer.setup, hserves.pair]

/-- Enabling the input moves what has been sent before. -/
theorem StreamServer.Known.enable (h : ss.Known sent) :
    ∃ ss', ss.enable = some ss' ∧ ss'.Known sent := by
  rcases h with ⟨rfl, rfl⟩ | ⟨p, ins, outs, hserves⟩
  · exact ⟨_, rfl, .inl ⟨rfl, rfl⟩⟩
  have hcarries : ({ p with reading := true } : BuffereventPair).Carries ins outs :=
    ⟨hserves.carries.input, hserves.carries.output⟩
  rw [StreamServer.enable, hserves.pair]
  dsimp only
  rw [BuffereventPair.enable]
  split
  · obtain ⟨p', htransfer, hcarries', hpending⟩ := hcarries.transfer
    rw [htransfer, Option.map_some]
    refine ⟨_, rfl, .inr ⟨p', ins ++ outs, [], rfl, hcarries', fun _ => rfl, ?_,
      fun _ => .inl hpending, hserves.weird⟩⟩
    rw [List.append_nil]
    exact hserves.account
  next htalk =>
    exact ⟨_, rfl, .inr ⟨_, ins, outs, rfl, hcarries,
      fun hreading => hcarries.passed htalk hreading, hserves.account, hserves.due,
      hserves.weird⟩⟩

/-- A callback that begins leaves the records where they are. -/
theorem StreamServer.Known.deferred (h : ss.Known sent) : ss.deferred.Known sent := by
  rcases h with ⟨rfl, rfl⟩ | ⟨p, ins, outs, hserves⟩
  · exact .inl ⟨rfl, rfl⟩
  rw [StreamServer.deferred, hserves.pair]
  dsimp only
  split
  · exact .inr ⟨_, ins, outs, rfl, ⟨hserves.carries.input, hserves.carries.output⟩,
      hserves.passed, hserves.account, fun _ => .inr rfl, hserves.weird⟩
  · exact .inr ⟨p, ins, outs, hserves⟩

/-- The record in front of the input is removed as it was added. -/
theorem Bytes.remove_record (r : Record) (ins : List Record) :
    Bytes.copyout { contents := bytesOf (r :: ins), freezeStart := false, freezeEnd := true }
        sizeofVmpConnection = ((sizeofVmpConnection : Int), r.bytes) ∧
      Bytes.drop { contents := bytesOf (r :: ins), freezeStart := false, freezeEnd := true }
        sizeofVmpConnection =
          { contents := bytesOf ins, freezeStart := false, freezeEnd := true } := by
  have hsplit : bytesOf (r :: ins) = r.bytes ++ bytesOf ins := rfl
  have htake : (bytesOf (r :: ins)).take sizeofVmpConnection = r.bytes := by
    rw [hsplit, ← r.length, List.take_left]
  constructor
  · rw [Bytes.copyout, htake, if_neg r.bytes_ne_nil, r.length]
    rfl
  · rw [Bytes.drop, hsplit, ← r.length]
    simp

/-- A turn of the loop takes one record, or ends the loop when there is none. -/
theorem StreamServer.Known.receive (h : ss.Known sent) (hloop : ss.receiving = true) :
    ∃ ss', ss.receive = some ss' ∧ ss'.Known sent := by
  rcases h with ⟨rfl, rfl⟩ | ⟨p, ins, outs, hserves⟩
  · cases hloop
  obtain ⟨input, hremove, hholds⟩ := hserves.carries.input.remove sizeofVmpConnection
  rw [StreamServer.receive, hserves.pair, Option.bind_some, hremove, Option.map_some]
  cases ins with
  | nil =>
      have hcopy : ({ contents := bytesOf [], freezeStart := false, freezeEnd := true } :
          Bytes).copyout sizeofVmpConnection = (0, []) := rfl
      have hdrop : ({ contents := bytesOf [], freezeStart := false, freezeEnd := true } :
          Bytes).drop sizeofVmpConnection =
            { contents := bytesOf [], freezeStart := false, freezeEnd := true } := rfl
      rw [hdrop] at hholds
      rw [hcopy]
      exact ⟨_, rfl, .inr ⟨_, [], outs, rfl, ⟨hholds, hserves.carries.output⟩, hserves.passed,
        hserves.account, fun hne => absurd rfl hne, hserves.weird⟩⟩
  | cons r ins =>
      obtain ⟨hcopy, hdrop⟩ := Bytes.remove_record r ins
      have hint : CInt.ofSize sizeofVmpConnection = (sizeofVmpConnection : Int) := rfl
      rw [hdrop] at hholds
      rw [hcopy]
      simp only [r.length, hint, ite_self]
      rw [if_pos (by decide), if_neg (by simp)]
      refine ⟨_, rfl, .inr ⟨_, ins, outs, rfl, ⟨hholds, hserves.carries.output⟩, hserves.passed,
        ?_, fun _ => .inr hloop, hserves.weird⟩⟩
      rw [hserves.account]
      simp

/-! ## All the servers -/

theorem sentTo_record (s : Dispatch) (a : Accepted) (i : Fin maxStreamServerNum) :
    (s.record a).sentTo i =
      s.sentTo i ++ if a.sent ∧ serverIndex a.fd = i then [a.conn] else [] := by
  rw [Dispatch.sentTo, Dispatch.record, List.filter_append, List.map_append, ← Dispatch.sentTo]
  congr 1
  by_cases h : a.sent = true ∧ serverIndex a.fd = i
  · rw [if_pos h]
    simp [h.1, h.2]
  · rw [if_neg h, List.filter_cons_of_neg (by simpa using h)]
    rfl

/-- What is known after the actions `as`. -/
structure Dispatch.Sound (s : Dispatch) (as : List DispatchAction) : Prop where
  log : s.log.map (fun a => (a.fd, a.conn)) = acceptedBy as
  servers : ∀ i, (s.servers i).Known (s.sentTo i)

theorem sound_init : Dispatch.init.Sound [] where
  log := rfl
  servers := fun _ => .inl ⟨rfl, rfl⟩

theorem acceptedBy_append (as bs : List DispatchAction) :
    acceptedBy (as ++ bs) = acceptedBy as ++ acceptedBy bs := by
  induction as with
  | nil => rfl
  | cons a as ih => cases a <;> simp [acceptedBy, ih]

/-- An action of one server that sends nothing. -/
theorem Dispatch.Sound.withServer {as : List DispatchAction} {a : DispatchAction} (h : s.Sound as)
    (hquiet : acceptedBy [a] = [])
    (hknown : ss.Known (s.sentTo i)) :
    (s.withServer i ss).Sound (as ++ [a]) where
  log := by
    rw [acceptedBy_append, hquiet, List.append_nil]
    exact h.log
  servers := by
    intro j
    have hsame : (s.withServer i ss).sentTo j = s.sentTo j := rfl
    rw [hsame, Dispatch.withServer]
    by_cases hj : j = i
    · subst hj
      simpa only [Function.update_self] using hknown
    · simpa only [Function.update_of_ne hj] using h.servers j

theorem Dispatch.Sound.same {as : List DispatchAction} {a : DispatchAction} (h : s.Sound as)
    (hquiet : acceptedBy [a] = []) : s.Sound (as ++ [a]) where
  log := by
    rw [acceptedBy_append, hquiet, List.append_nil]
    exact h.log
  servers := h.servers

/-- A connection is accepted and logged. -/
theorem Dispatch.Sound.record {as : List DispatchAction} {act : DispatchAction} (h : s.Sound as)
    (a : Accepted) (hnew : acceptedBy [act] = [(a.fd, a.conn)])
    (hknown : ss.Known (s.sentTo (serverIndex a.fd) ++ if a.sent then [a.conn] else [])) :
    ((s.withServer (serverIndex a.fd) ss).record a).Sound (as ++ [act]) where
  log := by
    rw [acceptedBy_append, hnew, ← h.log, Dispatch.record, List.map_append]
    rfl
  servers := by
    intro j
    have hsame : (s.withServer (serverIndex a.fd) ss).sentTo j = s.sentTo j := rfl
    have hservers : ((s.withServer (serverIndex a.fd) ss).record a).servers =
        Function.update s.servers (serverIndex a.fd) ss := rfl
    rw [sentTo_record, hsame, hservers]
    by_cases hj : j = serverIndex a.fd
    · subst hj
      simpa only [Function.update_self, and_true] using hknown
    · have hne : ¬ (a.sent = true ∧ serverIndex a.fd = j) := fun hboth => hj hboth.2.symm
      simpa only [Function.update_of_ne hj, if_neg hne, List.append_nil] using h.servers j

theorem Dispatch.Sound.accept {as : List DispatchAction} (h : s.Sound as) (fd : UInt32)
    (conn : Record) (malloc : Bool) (hpair : (s.servers (serverIndex fd)).pair.isSome = true) :
    ∃ s', s.accept fd conn malloc = some s' ∧ s'.Sound (as ++ [.accept fd conn malloc]) := by
  rcases h.servers (serverIndex fd) with ⟨hnew, -⟩ | ⟨p, ins, outs, hserves⟩
  · rw [hnew] at hpair
    cases hpair
  · obtain ⟨r, p', ins', outs', hadd, hserves'⟩ := hserves.add conn malloc
    rw [Dispatch.accept, hserves.pair, Option.bind_some, hadd, Option.map_some]
    refine ⟨_, rfl, h.record { fd := fd, conn := conn, sent := ¬ r < 0 } rfl
      (.inr ⟨p', ins', outs', ?_⟩)⟩
    simpa only [decide_eq_true_eq] using hserves'

/-- One action. -/
theorem Dispatch.Sound.step {as : List DispatchAction} (h : s.Sound as) (a : DispatchAction)
    (hsetUp : s.SetUp a) : ∃ s', s.step a = some s' ∧ s'.Sound (as ++ [a]) := by
  cases a with
  | setup i created =>
      have hcreated : created = true := hsetUp
      obtain ⟨ss, hsetup, hknown⟩ := (h.servers i).setup
      rw [Dispatch.step, hcreated, hsetup, Option.map_some]
      exact ⟨_, rfl, h.withServer rfl hknown⟩
  | enable i =>
      obtain ⟨ss, henable, hknown⟩ := (h.servers i).enable
      rw [Dispatch.step, henable, Option.map_some]
      exact ⟨_, rfl, h.withServer rfl hknown⟩
  | accept fd conn malloc => exact h.accept fd conn malloc hsetUp
  | deferred i => exact ⟨_, rfl, h.withServer rfl (h.servers i).deferred⟩
  | receive i =>
      rw [Dispatch.step]
      split
      next hloop =>
        obtain ⟨ss, hreceive, hknown⟩ := (h.servers i).receive hloop
        rw [hreceive, Option.map_some]
        exact ⟨_, rfl, h.withServer rfl hknown⟩
      · exact ⟨s, rfl, h.same rfl⟩

/-- However the listener and the servers interleave, and whichever records find no memory:
when a connection comes only for a server that has its pair, there is no fault, every
accepted connection is logged as sent or not, and each server has handled what has been sent
to it, record by record in order, but for the last ones.  These are what the buffers of the
pair hold, and once the server reads they are in its input and it is due. -/
theorem connections_dispatched (as : List DispatchAction)
    (hsetUp : System.Along Dispatch.step Dispatch.SetUp Dispatch.init as) :
    ∃ s, System.run Dispatch.step Dispatch.init as = some s ∧
      s.log.map (fun a => (a.fd, a.conn)) = acceptedBy as ∧
      ∀ i, (s.servers i).weird = 0 ∧
        match (s.servers i).pair with
        | none => s.sentTo i = [] ∧ (s.servers i).handled = []
        | some pair => ∃ ins outs : List Record,
            (s.sentTo i).map Record.bytes =
              (s.servers i).handled ++ (ins ++ outs).map Record.bytes ∧
            dataOf pair.input.chains = bytesOf ins ∧ dataOf pair.output.chains = bytesOf outs ∧
            (pair.reading = true → outs = []) ∧
            (ins ≠ [] → pair.readcbPending = true ∨ (s.servers i).receiving = true) := by
  obtain ⟨s, hrun, h⟩ := System.run_reaches (P := Dispatch.SetUp)
    (fun hist (s : Dispatch) => s.Sound hist) (fun hist s a hs ha => hs.step a ha) sound_init
    hsetUp
  refine ⟨s, hrun, h.log, fun i => ?_⟩
  rcases h.servers i with ⟨hnew, hnone⟩ | ⟨p, ins, outs, hserves⟩
  · rw [hnew]
    exact ⟨rfl, hnone, rfl⟩
  · rw [hserves.pair]
    exact ⟨hserves.weird, ins, outs, hserves.account, hserves.carries.input.contents,
      hserves.carries.output.contents, hserves.passed, hserves.due⟩

/-- A record of zeros. -/
def zeroRecord : Record := ⟨List.replicate 84 0, rfl⟩

/-- A server is set up, two connections come for it, of which the second finds no memory, and
it begins to receive. -/
def twoConnections : List DispatchAction :=
  [.setup (serverIndex 7) true, .accept 7 zeroRecord true, .enable (serverIndex 7),
    .accept 7 zeroRecord false, .deferred (serverIndex 7), .receive (serverIndex 7)]

theorem connections_dispatched_two :
    ∃ s, System.run Dispatch.step Dispatch.init twoConnections = some s ∧
      s.log.map (fun a => (a.fd, a.conn)) = acceptedBy twoConnections ∧
      ∀ i, (s.servers i).weird = 0 ∧
        match (s.servers i).pair with
        | none => s.sentTo i = [] ∧ (s.servers i).handled = []
        | some pair => ∃ ins outs : List Record,
            (s.sentTo i).map Record.bytes =
              (s.servers i).handled ++ (ins ++ outs).map Record.bytes ∧
            dataOf pair.input.chains = bytesOf ins ∧ dataOf pair.output.chains = bytesOf outs ∧
            (pair.reading = true → outs = []) ∧
            (ins ≠ [] → pair.readcbPending = true ∨ (s.servers i).receiving = true) :=
  connections_dispatched twoConnections (by decide +kernel)

end VmpSa.Event
