import VmpSa.Event.Evbuffer
import VmpSa.Jt1078.Framing
import VmpSa.Lib.System

/-!
# The reading side of a connection

Between the socket of a device and `stream_input_handler` stands a `bufferevent`.
`bufferevent_readcb` of `common/libevent/bufferevent_sock.c` reads into its input, the
callback of the input suspends reading at the high watermark, and
`bufferevent_run_deferred_callbacks_unlocked` of `common/libevent/bufferevent.c` calls the
handler later, from the event loop.  `client_connection_register` of
`bll/bll_h264_stream.c` sets this up.

The handler is modelled here once more, on the `evbuffer` itself, and agrees with the
handler on a list of bytes (`handler_on_evbuffer`).  So whatever the order of reads, failed
reads, timeouts, deferred callbacks and closing calls, the handler sees the bytes of
the socket as chunks, none lost, doubled or out of order (`connection_reads_stream`).

The event loop is one thread, and `event_add` does not fail.  There is no rate limit, so
`BEV_SUSPEND_WM` is the only reason to suspend reading.
-/

namespace VmpSa.Event

/-! ## The model -/

/-- The reading side of `struct bufferevent_private`. -/
structure Bufferevent where
  input : Evbuffer
  wmReadLow : Nat
  wmReadHigh : Nat
  /-- `BEV_SUSPEND_WM` is set in `read_suspended`. -/
  readSuspended : Bool
  /-- `EV_READ` is set in `enabled`. -/
  enabled : Bool
  /-- `ev_read` is added. -/
  evRead : Bool
  readcbPending : Bool
  eventcbPending : UInt16
deriving Repr, DecidableEq

def bevEventReading : UInt16 := 0x01

def bevEventEof : UInt16 := 0x10

def bevEventError : UInt16 := 0x20

def bevEventTimeout : UInt16 := 0x40

/-- `MAX_SINGLE_READ_DEFAULT` -/
def maxSingleReadDefault : Int := 16384

/-- `BUFFEREVENT_LOW_WATERMARK` -/
def buffereventLowWatermark : Nat := 2048

/-- `BUFFEREVENT_HIGH_WATERMARK` -/
def buffereventHighWatermark : Nat := 2097152

namespace Bufferevent

/-- `bufferevent_suspend_read_` -/
def suspendRead (bev : Bufferevent) : Bufferevent :=
  { bev with
    evRead := if bev.readSuspended then bev.evRead else false
    readSuspended := true }

/-- `bufferevent_unsuspend_read_` -/
def unsuspendRead (bev : Bufferevent) : Bufferevent :=
  { bev with
    evRead := if bev.enabled then true else bev.evRead
    readSuspended := false }

/-- `bufferevent_enable` -/
def enable (bev : Bufferevent) : Bufferevent :=
  { bev with
    enabled := true
    evRead := if bev.readSuspended then bev.evRead else true }

/-- `bufferevent_disable` -/
def disable (bev : Bufferevent) : Bufferevent :=
  { bev with
    enabled := false
    evRead := false }

/-- `bufferevent_inbuf_wm_cb`, which is switched on while there is a high watermark. -/
def inbufWmCb (bev : Bufferevent) : Bufferevent :=
  if bev.wmReadHigh = 0 then bev
  else if bev.wmReadHigh ≤ evbufferGetLength bev.input then bev.suspendRead
  else bev.unsuspendRead

/-- `bufferevent_setwatermark` for `EV_READ` -/
def setwatermark (bev : Bufferevent) (lowmark highmark : Nat) : Bufferevent :=
  let bev := { bev with wmReadLow := lowmark, wmReadHigh := highmark }
  if highmark ≠ 0 then
    if highmark ≤ evbufferGetLength bev.input then bev.suspendRead else bev.unsuspendRead
  else bev.unsuspendRead

/-- `bufferevent_run_eventcb_` -/
def runEventcb (bev : Bufferevent) (what : UInt16) : Bufferevent :=
  { bev with eventcbPending := bev.eventcbPending ||| what }

/-- `bufferevent_trigger_nolock_` for `EV_READ`, with `bufferevent_run_readcb_` -/
def triggerRead (bev : Bufferevent) : Bufferevent :=
  if bev.wmReadLow ≤ evbufferGetLength bev.input then { bev with readcbPending := true } else bev

/-- What the system answers to a read: to `FIONREAD`, to `readv`, which fails or returns at
most so many bytes, with `errno` and the allocator. -/
structure Reading where
  fionread : Int
  readv : Option Nat
  /-- `errno` says that the read is to be repeated, or that the connection was refused. -/
  retriable : Bool
  malloc : Bool
deriving Repr, DecidableEq

/-- `bufferevent_readcb` when there is something to read.  `socket` are the bytes that are
there. -/
def readcb (bev : Bufferevent) (socket : List UInt8) (r : Reading) :
    Option (Bufferevent × List UInt8) :=
  let howmuch : Int :=
    if bev.wmReadHigh ≠ 0 then (bev.wmReadHigh : Int) - evbufferGetLength bev.input else -1
  if bev.wmReadHigh ≠ 0 ∧ howmuch ≤ 0 then some (bev.suspendRead, socket)
  else
    let howmuch :=
      if howmuch < 0 ∨ howmuch > maxSingleReadDefault then maxSingleReadDefault else howmuch
    if bev.readSuspended then some (bev, socket)
    else
      (evbufferRead (evbufferFreeze bev.input false false) r.fionread howmuch
        (r.readv.map fun n => socket.take n) r.malloc).map fun res =>
          let bev := { bev with input := evbufferFreeze res.2 false true }
          if 0 < res.1 then (bev.inbufWmCb.triggerRead, socket.drop res.1.toNat)
          else if res.1 = -1 ∧ r.retriable then (bev, socket)
          else
            (bev.disable.runEventcb
              (bevEventReading ||| if res.1 = -1 then bevEventError else bevEventEof), socket)

/-- `bufferevent_readcb` on a timeout -/
def timeoutcb (bev : Bufferevent) : Bufferevent :=
  bev.disable.runEventcb (bevEventReading ||| bevEventTimeout)

/-- `evbuffer_remove` on the input.  Its callback runs when something has been removed. -/
def remove (bev : Bufferevent) (datlen : Nat) : Option (List UInt8 × Bufferevent) :=
  (evbufferRemove bev.input datlen).map fun r =>
    let bev := { bev with input := r.2.2 }
    (r.2.1, if r.2.1 = [] then bev else bev.inbufWmCb)

end Bufferevent

/-! ### The handler -/

/-- `media_stream_proc`.  The input is an argument, and that of `conn` is not used. -/
def mediaStreamProcOn (input : Evbuffer) (conn : Conn) : Option (Int × Conn) :=
  (evbufferCopyout input jt1078StreamPackageSize).map fun r =>
    let clen : Int := r.1
    let buff := r.2 ++ List.replicate (1024 - r.2.length) 0
    if 0 < clen then
      let clen : Int := if jt1078StreamPackageSize < clen then jt1078StreamPackageSize else clen
      let parsed := packetJt1078Parse buff clen zeroHeader
      if parsed.1 = 0 then (0, conn)
      else if parsed.1 < 0 then (parsed.1, conn)
      else if jt1078StreamPackageSize < parsed.1 then (jt1078StreamPackageSize, conn)
      else (parsed.1, handOver (queryOnce conn parsed.2) parsed.2 (buff.drop 30))
    else if clen < 0 then (-1, conn)
    else (0, conn)

/-- The local state of `stream_input_handler`. -/
structure HandlerOn where
  len : Nat
  rounds : Nat
  bev : Bufferevent
  conn : Conn

/-- One pass of the loop of `stream_input_handler`. -/
def handlerPassOn (cond : Nat → Bool) (s : HandlerOn) :
    Loop.Pass HandlerOn (Option (Bufferevent × Conn)) :=
  match mediaStreamProcOn s.bev.input s.conn with
  | none => .leave none
  | some (ret, conn) =>
      if 0 < ret then
        match s.bev.remove ret.toNat with
        | none => .leave none
        | some (removed, bev) =>
            let conn := { conn with removed := conn.removed ++ [removed] }
            let len := s.len - ret.toNat
            if 30 < len ∧ cond (s.rounds + 1) then
              .again { len := len, rounds := s.rounds + 1, bev := bev, conn := conn }
            else .leave (some (bev, conn))
      else .leave (some (s.bev, conn))

theorem handlerPassOn_decreases (cond : Nat → Bool) :
    Loop.Decreases (handlerPassOn cond) (fun s => s.len) := by
  intro s s' h
  rw [handlerPassOn] at h
  split at h
  · cases h
  · split at h
    next hpos =>
      split at h
      · cases h
      · simp only at h
        split at h
        · cases h
          simp only
          omega
        · cases h
    · cases h

/-- `stream_input_handler`.  `batches` says that `wmark` is one, and then
`stream_set_wartermark` sets the watermarks. -/
def streamInputHandlerOn (cond : Nat → Bool) (batches : Bool) (bev : Bufferevent) (conn : Conn) :
    Option (Bufferevent × Conn) :=
  if cond 0 = false then some (bev, conn)
  else
    let len := evbufferGetLength bev.input
    let bev :=
      if batches then bev.setwatermark buffereventLowWatermark buffereventHighWatermark else bev
    Loop.exec (handlerPassOn cond) (fun s => s.len) (handlerPassOn_decreases cond)
      { len := len, rounds := 0, bev := bev, conn := conn }

/-! ### The connection -/

/-- A connection: what has arrived at its socket and is not read yet, its `bufferevent` and
its node, of which `cond` is set until it is closed.  The calls of
`stream_socket_eventcb` are logged. -/
structure Connection where
  socket : List UInt8
  bev : Bufferevent
  conn : Conn
  cond : Bool
  events : List UInt16
deriving Repr, DecidableEq

/-- `bufferevent_socket_new` -/
def buffereventSocketNew : Bufferevent where
  input := evbufferFreeze evbufferNew false true
  wmReadLow := 0
  wmReadHigh := 0
  readSuspended := false
  enabled := false
  evRead := false
  readcbPending := false
  eventcbPending := 0

/-- `client_connection_register` -/
def clientConnectionRegister : Connection where
  socket := []
  bev := (buffereventSocketNew.setwatermark 0 buffereventHighWatermark).enable
  conn := .init
  cond := true
  events := []

inductive ConnectionAction where
  /-- The device sends. -/
  | arrive (bytes : List UInt8)
  /-- `ev_read` is active. -/
  | readable (r : Bufferevent.Reading)
  | timeout
  /-- `bufferevent_run_deferred_callbacks_unlocked`.  A closing call of another thread may
  come in when the handler has made so many rounds. -/
  | deferred (batches : Bool) (closing : Option Nat)
  /-- `client_connection_close` -/
  | close

namespace Connection

/-- `client_connection_close`, up to the release of the node. -/
def close (s : Connection) : Connection := { s with bev := s.bev.disable, cond := false }

/-- What the handler finds in `cond` after so many rounds. -/
def condOf (s : Connection) (closing : Option Nat) (n : Nat) : Bool :=
  s.cond && (match closing with
    | none => true
    | some k => n < k)

/-- The first part of `bufferevent_run_deferred_callbacks_unlocked`. -/
def runReadcb (s : Connection) (batches : Bool) (closing : Option Nat) : Option Connection :=
  if s.bev.readcbPending then
    (streamInputHandlerOn (s.condOf closing) batches { s.bev with readcbPending := false }
      s.conn).map fun r => { s with bev := r.1, conn := r.2 }
  else some s

/-- The last part, with `stream_socket_eventcb` up to the release of the node. -/
def runEventcb (s : Connection) : Connection :=
  if s.bev.eventcbPending ≠ 0 then
    { s with
      bev := { s.bev with eventcbPending := 0 }.disable
      cond := false
      events := s.events ++ [s.bev.eventcbPending] }
  else s

/-- One action.  No result means a fault: a read or write outside a chain, or an assertion
that fails.  A callback of `ev_read` comes only while `ev_read` is added. -/
def step (s : Connection) : ConnectionAction → Option Connection
  | .arrive bytes => some { s with socket := s.socket ++ bytes }
  | .readable r =>
      if s.bev.evRead then
        (s.bev.readcb s.socket r).map fun q => { s with bev := q.1, socket := q.2 }
      else some s
  | .timeout => if s.bev.evRead then some { s with bev := s.bev.timeoutcb } else some s
  | .deferred batches closing =>
      (s.runReadcb batches closing).map fun s =>
        (if closing.isSome then s.close else s).runEventcb
  | .close => some s.close

end Connection

/-- What the device has sent. -/
def sentBy : List ConnectionAction → List UInt8
  | [] => []
  | .arrive bytes :: as => bytes ++ sentBy as
  | _ :: as => sentBy as

/-! ## The handler on an `evbuffer` -/

/-- The connection with another input. -/
def withInput (conn : Conn) (x : List UInt8) : Conn := { conn with input := x }

/-- The reading side with the input `x`. -/
structure Bufferevent.Sound (bev : Bufferevent) (x : List UInt8) : Prop where
  holds : bev.input.Holds { contents := x, freezeStart := false, freezeEnd := true }
  high : bev.wmReadHigh = buffereventHighWatermark
  bound : x.length ≤ buffereventHighWatermark
  full : bev.readSuspended = true ↔ buffereventHighWatermark ≤ x.length
  armed : bev.evRead = true ↔ bev.enabled = true ∧ bev.readSuspended = false

/-- What the handler leaves alone. -/
structure Bufferevent.Kept (bev bev' : Bufferevent) : Prop where
  low : bev'.wmReadLow = bev.wmReadLow
  enabled : bev'.enabled = bev.enabled
  readcbPending : bev'.readcbPending = bev.readcbPending
  eventcbPending : bev'.eventcbPending = bev.eventcbPending

variable {bev bev' : Bufferevent} {x y : List UInt8} {conn : Conn} {s : Connection}

theorem Bufferevent.Kept.refl (bev : Bufferevent) : bev.Kept bev := ⟨rfl, rfl, rfl, rfl⟩

theorem Bufferevent.Kept.trans {bev'' : Bufferevent} (h : bev.Kept bev') (h' : bev'.Kept bev'') :
    bev.Kept bev'' :=
  ⟨h'.low.trans h.low, h'.enabled.trans h.enabled, h'.readcbPending.trans h.readcbPending,
    h'.eventcbPending.trans h.eventcbPending⟩

theorem Bufferevent.Sound.length (h : bev.Sound x) : evbufferGetLength bev.input = x.length := by
  rw [evbufferGetLength, h.holds.sound.total, h.holds.contents]

/-- The callback of the input after a change of it. -/
theorem Bufferevent.Sound.inbufWmCb (h : bev.Sound x) {input : Evbuffer}
    (hin : input.Holds { contents := y, freezeStart := false, freezeEnd := true })
    (hy : y.length ≤ buffereventHighWatermark) :
    ({ bev with input := input }.inbufWmCb).Sound y ∧
      bev.Kept { bev with input := input }.inbufWmCb := by
  have hlen : evbufferGetLength input = y.length := by
    rw [evbufferGetLength, hin.sound.total, hin.contents]
  have hhigh := h.high
  have harmed := h.armed
  rw [Bufferevent.inbufWmCb]
  simp only [hhigh, hlen]
  rw [if_neg (by decide)]
  split
  next hfull =>
    refine ⟨⟨hin, rfl, hy, ⟨fun _ => hfull, fun _ => rfl⟩, ?_⟩, rfl, rfl, rfl, rfl⟩
    cases hs : bev.readSuspended with
    | true =>
        rw [hs] at harmed
        simp [Bufferevent.suspendRead, harmed]
    | false => simp [Bufferevent.suspendRead]
  next hroom =>
    refine ⟨⟨hin, rfl, hy, ⟨fun hs => ?_, fun hf => absurd hf hroom⟩, ?_⟩, rfl, rfl, rfl, rfl⟩
    · exact absurd hs (by simp [Bufferevent.unsuspendRead])
    · simp only [Bufferevent.unsuspendRead]
      cases hon : bev.enabled with
      | true => simp
      | false => simp [harmed, hon]

/-- `evbuffer_remove` takes the first bytes. -/
theorem Bufferevent.Sound.remove (h : bev.Sound x) (n : Nat) (hx : x.take n ≠ []) :
    ∃ bev', bev.remove n = some (x.take n, bev') ∧ bev'.Sound (x.drop n) ∧ bev.Kept bev' := by
  obtain ⟨input, hremove, hholds⟩ := h.holds.remove n
  have hcopy : (({ contents := x, freezeStart := false, freezeEnd := true } : Bytes).copyout n).2 =
      x.take n := by
    rw [Bytes.copyout, if_neg hx]
    rfl
  rw [hcopy] at hremove
  have hbound : (x.drop n).length ≤ buffereventHighWatermark := by
    have hle := h.bound
    rw [List.length_drop]
    omega
  obtain ⟨hsound, hkept⟩ := h.inbufWmCb hholds hbound
  refine ⟨_, ?_, hsound, hkept⟩
  rw [Bufferevent.remove, hremove, Option.map_some]
  simp only [hx, if_false]

/-- Setting the watermarks of a connection again. -/
theorem Bufferevent.Sound.setwatermark (h : bev.Sound x) (low : Nat) :
    (bev.setwatermark low buffereventHighWatermark).Sound x ∧
      (bev.setwatermark low buffereventHighWatermark).enabled = bev.enabled ∧
      (bev.setwatermark low buffereventHighWatermark).readcbPending = bev.readcbPending ∧
      (bev.setwatermark low buffereventHighWatermark).eventcbPending = bev.eventcbPending ∧
      (bev.setwatermark low buffereventHighWatermark).wmReadLow = low := by
  have hlow : ({ bev with wmReadLow := low } : Bufferevent).Sound x :=
    ⟨h.holds, h.high, h.bound, h.full, h.armed⟩
  obtain ⟨hsound, hkept⟩ := hlow.inbufWmCb h.holds h.bound
  have heq : bev.setwatermark low buffereventHighWatermark =
      ({ bev with wmReadLow := low } : Bufferevent).inbufWmCb := by
    rw [Bufferevent.setwatermark, Bufferevent.inbufWmCb]
    simp only [h.high]
    rw [if_neg (show ¬ buffereventHighWatermark = 0 by decide),
      if_pos (show buffereventHighWatermark ≠ 0 by decide), ← h.high]
  rw [heq]
  exact ⟨hsound, hkept.enabled, hkept.readcbPending, hkept.eventcbPending, hkept.low⟩

/-- What is handed over does not depend on the input. -/
theorem handOver_withInput (conn : Conn) (x : List UInt8) (head : StreamHeader)
    (stream : List UInt8) :
    handOver (queryOnce (withInput conn x) head) head stream =
      withInput (handOver (queryOnce conn head) head stream) x := by
  unfold handOver queryOnce withInput
  split_ifs <;> rfl

/-- `media_stream_proc` on an `evbuffer` and on the bytes in it. -/
theorem mediaStreamProcOn_eq {input : Evbuffer} {b : Bool}
    (h : input.Holds { contents := x, freezeStart := false, freezeEnd := b }) (conn : Conn) :
    mediaStreamProcOn input (withInput conn []) =
      some ((mediaStreamProc (withInput conn x)).1,
        withInput (mediaStreamProc (withInput conn x)).2 []) := by
  have hlen := List.length_take_le jt1078StreamPackageSize x
  rw [mediaStreamProcOn, h.copyout, Option.map_some, mediaStreamProc, Bytes.copyout]
  simp only [withInput]
  by_cases hnil : x.take jt1078StreamPackageSize = []
  · simp [hnil]
  · have hpos := List.length_pos_iff.mpr hnil
    have hpos' : (0 : Int) < (x.take jt1078StreamPackageSize).length := by omega
    have hmin : ¬ (jt1078StreamPackageSize : Int) < (x.take jt1078StreamPackageSize).length := by
      omega
    simp only [hnil, if_false, Bool.false_eq_true, hpos, hpos', if_true, hmin]
    obtain ⟨parsed, hparsed⟩ : ∃ parsed, packetJt1078Parse (x.take jt1078StreamPackageSize ++
        List.replicate (1024 - (x.take jt1078StreamPackageSize).length) 0)
          (x.take jt1078StreamPackageSize).length zeroHeader = parsed := ⟨_, rfl⟩
    simp only [hparsed]
    by_cases h0 : parsed.1 = 0
    · simp only [h0, if_true]
    · by_cases hneg : parsed.1 < 0
      · simp only [h0, hneg, if_false, if_true]
      · by_cases hlong : (jt1078StreamPackageSize : Int) < parsed.1
        · simp only [h0, hneg, hlong, if_false, if_true]
        · have hout := handOver_withInput conn
          simp only [withInput] at hout
          simp only [h0, hneg, hlong, if_false]
          rw [hout [], hout x]

/-- The handlers on a list and on an `evbuffer`, between two rounds. -/
structure Abreast (bev₀ : Bufferevent) (s : HandlerState) (t : HandlerOn) : Prop where
  len : t.len = s.len
  rounds : t.rounds = s.rounds
  conn : t.conn = withInput s.conn []
  sound : t.bev.Sound s.conn.input
  kept : bev₀.Kept t.bev

/-- How they leave. -/
def LeftAbreast (bev₀ : Bufferevent) (conn : Conn) (r : Option (Bufferevent × Conn)) : Prop :=
  ∃ bev, r = some (bev, withInput conn []) ∧ bev.Sound conn.input ∧ bev₀.Kept bev

theorem handlerPassOn_rel (bev₀ : Bufferevent) (cond : Nat → Bool) {s : HandlerState}
    {t : HandlerOn} (h : Abreast bev₀ s t) :
    Loop.Pass.Rel (Abreast bev₀) (LeftAbreast bev₀) (handlerPass cond s)
      (handlerPassOn cond t) := by
  have hsame : withInput s.conn s.conn.input = s.conn := rfl
  have hmedia := mediaStreamProcOn_eq h.sound.holds s.conn
  rw [hsame, ← h.conn] at hmedia
  obtain ⟨hinput, hne⟩ := mediaStreamProc_input s.conn
  rw [handlerPass, handlerPassOn, hmedia]
  simp only
  by_cases hpos : 0 < (mediaStreamProc s.conn).1
  · rw [if_pos hpos, if_pos hpos]
    have hsome : s.conn.input.take (mediaStreamProc s.conn).1.toNat ≠ [] := by
      intro hnil
      rcases List.take_eq_nil_iff.mp hnil with h0 | h0
      · omega
      · exact hne hpos h0
    obtain ⟨bev, hremove, hsound, hkept⟩ := h.sound.remove _ hsome
    rw [hremove]
    simp only [hinput, h.len, h.rounds]
    split
    · exact .again ⟨rfl, rfl, rfl, hsound, h.kept.trans hkept⟩
    · exact .leave ⟨bev, rfl, hsound, h.kept.trans hkept⟩
  · rw [if_neg hpos, if_neg hpos]
    exact .leave ⟨t.bev, rfl, by rw [hinput]; exact h.sound, h.kept⟩

/-- The handler on the input is the handler on the bytes in it. -/
theorem handler_on_evbuffer (h : bev.Sound x) (cond : Nat → Bool) (batches : Bool) (conn : Conn) :
    ∃ bev', streamInputHandlerOn cond batches bev (withInput conn []) =
        some (bev', withInput (streamInputHandler cond (withInput conn x)) []) ∧
      bev'.Sound (streamInputHandler cond (withInput conn x)).input ∧
      bev'.enabled = bev.enabled ∧ bev'.readcbPending = bev.readcbPending ∧
      bev'.eventcbPending = bev.eventcbPending ∧
      (bev'.wmReadLow = bev.wmReadLow ∨ bev'.wmReadLow = buffereventLowWatermark) := by
  rw [streamInputHandlerOn, streamInputHandler]
  by_cases hcond : cond 0 = false
  · rw [if_pos hcond, if_pos hcond]
    exact ⟨bev, rfl, h, rfl, rfl, rfl, .inl rfl⟩
  · rw [if_neg hcond, if_neg hcond, h.length]
    -- the watermarks first
    obtain ⟨bev₁, hbev₁⟩ : ∃ b, b = if batches then
      bev.setwatermark buffereventLowWatermark buffereventHighWatermark else bev := ⟨_, rfl⟩
    have h₁ : bev₁.Sound x ∧ bev₁.enabled = bev.enabled ∧
        bev₁.readcbPending = bev.readcbPending ∧ bev₁.eventcbPending = bev.eventcbPending ∧
        (bev₁.wmReadLow = bev.wmReadLow ∨ bev₁.wmReadLow = buffereventLowWatermark) := by
      rw [hbev₁]
      cases batches with
      | false => exact ⟨h, rfl, rfl, rfl, .inl rfl⟩
      | true =>
          obtain ⟨hsound, henabled, hread, hevent, hlow⟩ := h.setwatermark buffereventLowWatermark
          exact ⟨hsound, henabled, hread, hevent, .inr hlow⟩
    obtain ⟨hsound₁, henabled, hread, hevent, hlow⟩ := h₁
    have habreast : Abreast bev₁ { len := x.length, rounds := 0, conn := withInput conn x }
        { len := x.length, rounds := 0, bev := bev₁, conn := withInput conn [] } :=
      ⟨rfl, rfl, rfl, hsound₁, .refl bev₁⟩
    obtain ⟨bev₂, hresult, hsound₂, hkept⟩ := Loop.exec_rel (handlerPass_decreases cond)
      (handlerPassOn_decreases cond) (Abreast bev₁) (LeftAbreast bev₁)
      (fun _ _ hR => handlerPassOn_rel bev₁ cond hR) _ _ habreast
    simp only [← hbev₁]
    refine ⟨bev₂, hresult, hsound₂, hkept.enabled.trans henabled, hkept.readcbPending.trans hread,
      hkept.eventcbPending.trans hevent, ?_⟩
    rwa [hkept.low]

/-! ## Reading -/

/-- Only the flags have changed, and reading is off. -/
theorem Bufferevent.Sound.disable (h : bev.Sound x) : bev.disable.Sound x :=
  ⟨h.holds, h.high, h.bound, h.full, by simp [Bufferevent.disable]⟩

theorem Bufferevent.Sound.runEventcb (h : bev.Sound x) (what : UInt16) :
    (bev.runEventcb what).Sound x := ⟨h.holds, h.high, h.bound, h.full, h.armed⟩

theorem Bufferevent.Sound.triggerRead (h : bev.Sound x) :
    bev.triggerRead.Sound x ∧ bev.triggerRead.wmReadLow = bev.wmReadLow ∧
      (bev.readcbPending = true → bev.triggerRead.readcbPending = true) ∧
      (bev.wmReadLow ≤ x.length → bev.triggerRead.readcbPending = true) := by
  rw [Bufferevent.triggerRead, h.length]
  split
  · exact ⟨⟨h.holds, h.high, h.bound, h.full, h.armed⟩, rfl, fun _ => rfl, fun _ => rfl⟩
  next hlow => exact ⟨h, rfl, fun hp => hp, fun hle => absurd hle hlow⟩

/-- What a read does: some bytes go from the socket to the end of the input, and then the
handler is due if there are enough. -/
structure Bufferevent.ReadOf (bev : Bufferevent) (x socket : List UInt8) (bev' : Bufferevent)
    (socket' y : List UInt8) : Prop where
  taken : socket = y ++ socket'
  sound : bev'.Sound (x ++ y)
  low : bev'.wmReadLow = bev.wmReadLow
  pending : bev.readcbPending = true → bev'.readcbPending = true
  due : y ≠ [] → bev.wmReadLow ≤ (x ++ y).length → bev'.readcbPending = true

theorem Bufferevent.ReadOf.nothing {socket : List UInt8} (h : bev'.Sound x)
    (hlow : bev'.wmReadLow = bev.wmReadLow)
    (hpending : bev.readcbPending = true → bev'.readcbPending = true) :
    bev.ReadOf x socket bev' socket [] where
  taken := rfl
  sound := by rwa [List.append_nil]
  low := hlow
  pending := hpending
  due := fun hne => absurd rfl hne

/-- Bytes have been read from the front of the socket. -/
theorem Bufferevent.Sound.readBytes (h : bev.Sound x) {y rest : List UInt8} {input : Evbuffer}
    (hinput : input.Holds { contents := x ++ y, freezeStart := false, freezeEnd := true })
    (hlen : (x ++ y).length ≤ buffereventHighWatermark) :
    bev.ReadOf x (y ++ rest) { bev with input := input }.inbufWmCb.triggerRead rest y := by
  obtain ⟨hsound, hkept⟩ := h.inbufWmCb hinput hlen
  obtain ⟨hsound', hlow, hpending, hdue⟩ := hsound.triggerRead
  refine ⟨rfl, hsound', hlow.trans hkept.low, fun hp => hpending ?_, fun _ hle => hdue ?_⟩
  · rw [hkept.readcbPending, hp]
  · rwa [hkept.low]

/-- A read asks for no more than there is room below the watermark. -/
theorem howmuch_le {room : Int} (hroom : 0 < room) :
    0 ≤ (if room < 0 ∨ room > maxSingleReadDefault then (maxSingleReadDefault : Int) else room) ∧
      (if room < 0 ∨ room > maxSingleReadDefault then (maxSingleReadDefault : Int) else room) ≤
        room := by
  by_cases hbig : room < 0 ∨ room > maxSingleReadDefault
  · rw [if_pos hbig]
    simp only [maxSingleReadDefault] at hbig ⊢
    omega
  · rw [if_neg hbig]
    omega

/-- `bufferevent_readcb` -/
theorem Bufferevent.Sound.readcb (h : bev.Sound x) (socket : List UInt8)
    (r : Bufferevent.Reading) :
    ∃ bev' socket' y, bev.readcb socket r = some (bev', socket') ∧
      bev.ReadOf x socket bev' socket' y := by
  have hhigh := h.high
  have hset : bev.wmReadHigh ≠ 0 := by
    rw [hhigh]
    decide
  rw [Bufferevent.readcb, h.length]
  simp only
  rw [if_pos hset]
  by_cases hfull : (bev.wmReadHigh : Int) - x.length ≤ 0
  · -- the input is full
    have hsuspended := h.full.mpr (by omega)
    have hsame : bev.suspendRead = bev := by
      rw [Bufferevent.suspendRead, if_pos hsuspended]
      cases bev
      simp_all
    rw [if_pos ⟨hset, hfull⟩, hsame]
    exact ⟨bev, socket, [], rfl, .nothing h rfl fun hp => hp⟩
  rw [if_neg fun hboth => hfull hboth.2]
  have hmuch := howmuch_le (Int.not_le.mp hfull)
  generalize (if (bev.wmReadHigh : Int) - x.length < 0 ∨
    (bev.wmReadHigh : Int) - x.length > maxSingleReadDefault then (maxSingleReadDefault : Int)
    else (bev.wmReadHigh : Int) - x.length) = howmuch at hmuch ⊢
  by_cases hsuspended : bev.readSuspended = true
  · rw [if_pos hsuspended]
    exact ⟨bev, socket, [], rfl, .nothing h rfl fun hp => hp⟩
  rw [if_neg hsuspended]
  obtain ⟨res, input, s', hread, hallows, hholds⟩ := (h.holds.freeze false false).read
    r.fionread howmuch (r.readv.map fun n => socket.take n) r.malloc
  have hfrozen := hholds.freeze false true
  rw [hread, Option.map_some]
  simp only
  rcases hallows with ⟨-, data, hdata, hres, rfl⟩ | ⟨-, hres, rfl⟩
  · obtain ⟨n, -, rfl⟩ := Option.map_eq_some_iff.mp hdata
    have hle := readSize_le_howmuch r.fionread hmuch.1
    have hle' := List.length_take_le (readSize r.fionread howmuch) (socket.take n)
    obtain ⟨rest, hrest⟩ : (socket.take n).take (readSize r.fionread howmuch) <+: socket :=
      (List.take_prefix _ _).trans (List.take_prefix _ _)
    generalize (socket.take n).take (readSize r.fionread howmuch) = y at hres hfrozen hle' hrest
    subst hrest
    have hres' : res = (y.length : Int) := (Prod.mk.inj hres).1
    by_cases hpos : 0 < res
    · -- bytes have been read
      have hlen : (x ++ y).length ≤ buffereventHighWatermark := by
        rw [List.length_append]
        omega
      have htoNat : res.toNat = y.length := by omega
      rw [if_pos hpos, htoNat, List.drop_left]
      exact ⟨_, rest, y, rfl, h.readBytes hfrozen hlen⟩
    · -- the end of the stream
      have hnil : y = [] := List.length_eq_zero_iff.mp (by omega)
      rw [hnil] at hfrozen
      have hsame : ({ bev with input := evbufferFreeze input false true } : Bufferevent).Sound x :=
        ⟨by simpa [Bytes.append, Bytes.freeze] using hfrozen, h.high, h.bound, h.full, h.armed⟩
      rw [if_neg hpos, if_neg (by omega)]
      exact ⟨_, _, [], rfl, .nothing (hsame.disable.runEventcb _) rfl fun hp => hp⟩
  · have hres' : res = -1 := (Prod.mk.inj hres).1
    have hsame : ({ bev with input := evbufferFreeze input false true } : Bufferevent).Sound x :=
      ⟨hfrozen, h.high, h.bound, h.full, h.armed⟩
    rw [if_neg (by omega)]
    split
    · exact ⟨_, socket, [], rfl, .nothing hsame rfl fun hp => hp⟩
    · exact ⟨_, socket, [], rfl, .nothing (hsame.disable.runEventcb _) rfl fun hp => hp⟩

/-! ## The chunks the handler sees -/

/-- A call of the handler on a list of bytes: what it finds in `cond`, and the chunk that
has arrived since the last call. -/
abbrev HandlerCall := (Nat → Bool) × List UInt8

def handle (conn : Conn) (c : HandlerCall) : Conn :=
  streamInputHandler c.1 (withInput conn (conn.input ++ c.2))

def handleAll (conn : Conn) (calls : List HandlerCall) : Conn := calls.foldl handle conn

theorem handleAll_concat (conn : Conn) (calls : List HandlerCall) (c : HandlerCall) :
    handleAll conn (calls ++ [c]) = handle (handleAll conn calls) c := by
  rw [handleAll, List.foldl_append]
  rfl

theorem mediaStreamProc_removed (conn : Conn) :
    (mediaStreamProc conn).2.removed = conn.removed := by
  unfold mediaStreamProc handOver queryOnce
  simp only
  split_ifs <;> rfl

/-- The blocks removed and the input are what they were before. -/
theorem handler_keeps_bytes (cond : Nat → Bool) (conn : Conn) :
    (streamInputHandler cond conn).removed.flatten ++ (streamInputHandler cond conn).input =
      conn.removed.flatten ++ conn.input := by
  rw [streamInputHandler]
  split
  · rfl
  · have hpass : ∀ s : HandlerState, ∀ n : Nat,
        (({ (mediaStreamProc s.conn).2 with
          input := (mediaStreamProc s.conn).2.input.drop n
          removed := (mediaStreamProc s.conn).2.removed ++
            [(mediaStreamProc s.conn).2.input.take n] } : Conn).removed.flatten ++
          (mediaStreamProc s.conn).2.input.drop n) = s.conn.removed.flatten ++ s.conn.input := by
      intro s n
      simp only [mediaStreamProc_removed, (mediaStreamProc_input s.conn).1, List.flatten_append,
        List.flatten_cons, List.flatten_nil, List.append_nil, List.append_assoc,
        List.take_append_drop]
    refine Loop.exec_rule (handlerPass_decreases cond)
      (fun s => s.conn.removed.flatten ++ s.conn.input = conn.removed.flatten ++ conn.input)
      (fun r => r.removed.flatten ++ r.input = conn.removed.flatten ++ conn.input)
      (fun s s' hs hb => ?_) (fun s r hs hb => ?_) _ rfl
    · rw [handlerPass] at hb
      simp only at hb
      split at hb
      · split at hb
        · cases hb
          exact (hpass s _).trans hs
        · cases hb
      · cases hb
    · rw [handlerPass] at hb
      simp only at hb
      split at hb
      · split at hb
        · cases hb
        · cases hb
          exact (hpass s _).trans hs
      · cases hb
        rw [mediaStreamProc_removed, (mediaStreamProc_input s.conn).1, hs]

theorem handleAll_keeps_bytes (conn : Conn) (calls : List HandlerCall) :
    (handleAll conn calls).removed.flatten ++ (handleAll conn calls).input =
      conn.removed.flatten ++ conn.input ++ (calls.map Prod.snd).flatten := by
  induction calls generalizing conn with
  | nil => simp [handleAll]
  | cons c calls ih =>
      have hfirst := handler_keeps_bytes c.1 (withInput conn (conn.input ++ c.2))
      have hrest := ih (handle conn c)
      rw [handleAll, List.foldl_cons, ← handleAll, hrest, handle, hfirst, List.map_cons,
        List.flatten_cons]
      simp only [withInput, List.append_assoc]

/-! ## Every action -/

/-- What is known of a connection whose device has sent `sent`: the handler has been called
with `calls`, and `unseen` has been read since. -/
structure Connection.Reads (s : Connection) (sent : List UInt8) (calls : List HandlerCall)
    (unseen : List UInt8) : Prop where
  conn : s.conn = withInput (handleAll .init calls) []
  sound : s.bev.Sound ((handleAll .init calls).input ++ unseen)
  sent : (calls.map Prod.snd).flatten ++ unseen ++ s.socket = sent
  uncut : s.cond = true → ∀ c ∈ calls, c.1 = condSet
  due : unseen ≠ [] → s.bev.wmReadLow ≤ ((handleAll .init calls).input ++ unseen).length →
    s.bev.readcbPending = true
  low : s.bev.wmReadLow ≤ buffereventLowWatermark

variable {sent unseen : List UInt8} {calls : List HandlerCall}

theorem sentBy_append (as bs : List ConnectionAction) :
    sentBy (as ++ bs) = sentBy as ++ sentBy bs := by
  induction as with
  | nil => rfl
  | cons a as ih => cases a <;> simp [sentBy, ih]

theorem reads_register : clientConnectionRegister.Reads [] [] [] := by
  have hnew : (evbufferFreeze evbufferNew false true).Holds
      { contents := [], freezeStart := false, freezeEnd := true } := holds_new.freeze false true
  refine ⟨rfl, ⟨hnew, rfl, Nat.zero_le _, ?_, ?_⟩, rfl, ?_, fun hne => absurd rfl hne,
    Nat.zero_le _⟩
  · exact ⟨fun h => absurd h (by decide), fun h => absurd h (by decide)⟩
  · decide
  · intro _ c hc
    exact absurd hc List.not_mem_nil

theorem Connection.Reads.close (h : s.Reads sent calls unseen) :
    s.close.Reads sent calls unseen where
  conn := h.conn
  sound := h.sound.disable
  sent := h.sent
  uncut := fun hcond => absurd hcond (by simp [Connection.close])
  due := h.due
  low := h.low

theorem Connection.Reads.runEventcb (h : s.Reads sent calls unseen) :
    s.runEventcb.Reads sent calls unseen := by
  rw [Connection.runEventcb]
  split
  · have hclear : ({ s.bev with eventcbPending := 0 } : Bufferevent).Sound
        ((handleAll .init calls).input ++ unseen) :=
      ⟨h.sound.holds, h.sound.high, h.sound.bound, h.sound.full, h.sound.armed⟩
    exact ⟨h.conn, hclear.disable, h.sent, fun hcond => absurd hcond (by simp), h.due, h.low⟩
  · exact h

theorem Connection.Reads.arrive (h : s.Reads sent calls unseen) (bytes : List UInt8) :
    ({ s with socket := s.socket ++ bytes } : Connection).Reads (sent ++ bytes) calls unseen where
  conn := h.conn
  sound := h.sound
  sent := by simp only [← h.sent, List.append_assoc]
  uncut := h.uncut
  due := h.due
  low := h.low

theorem Connection.Reads.readable (h : s.Reads sent calls unseen) (r : Bufferevent.Reading) :
    ∃ bev socket unseen', s.bev.readcb s.socket r = some (bev, socket) ∧
      ({ s with bev := bev, socket := socket } : Connection).Reads sent calls unseen' := by
  obtain ⟨bev, socket, y, hread, hof⟩ := h.sound.readcb s.socket r
  have hsound := hof.sound
  have hdue := hof.due
  rw [List.append_assoc] at hsound hdue
  refine ⟨bev, socket, unseen ++ y, hread, h.conn, hsound, ?_, h.uncut, fun hne hle => ?_, ?_⟩
  · rw [← h.sent, hof.taken]
    simp only [List.append_assoc]
  · by_cases hy : y = []
    · rw [hy, List.append_nil] at hne hle
      exact hof.pending (h.due hne (hof.low ▸ hle))
    · exact hdue hy (hof.low ▸ hle)
  · exact hof.low ▸ h.low

theorem condOf_none (hcond : s.cond = true) : s.condOf none = condSet := by
  funext n
  rw [Connection.condOf, hcond]
  rfl

/-- The handler takes what has been read since its last call. -/
theorem Connection.Reads.runReadcb (h : s.Reads sent calls unseen) (batches : Bool)
    (closing : Option Nat) :
    ∃ s' calls' unseen', s.runReadcb batches closing = some s' ∧ s'.cond = s.cond ∧
      ((if closing.isSome then s'.close else s').Reads sent calls' unseen') := by
  rw [Connection.runReadcb]
  by_cases hpending : s.bev.readcbPending = true
  · have hclear : ({ s.bev with readcbPending := false } : Bufferevent).Sound
        ((handleAll .init calls).input ++ unseen) :=
      ⟨h.sound.holds, h.sound.high, h.sound.bound, h.sound.full, h.sound.armed⟩
    obtain ⟨bev, hhandler, hsound, -, -, -, hlow⟩ := handler_on_evbuffer hclear
      (s.condOf closing) batches (handleAll .init calls)
    have hstep : streamInputHandler (s.condOf closing)
        (withInput (handleAll .init calls) ((handleAll .init calls).input ++ unseen)) =
        handleAll .init (calls ++ [(s.condOf closing, unseen)]) := by
      rw [handleAll_concat, handle]
    rw [hstep] at hhandler hsound
    rw [← h.conn] at hhandler
    rw [if_pos hpending, hhandler, Option.map_some]
    have hlow' : bev.wmReadLow ≤ buffereventLowWatermark := by
      rcases hlow with hlow | hlow
      · exact hlow ▸ h.low
      · exact Nat.le_of_eq hlow
    have hsent : ((calls ++ [(s.condOf closing, unseen)]).map Prod.snd).flatten ++ [] ++ s.socket =
        sent := by
      rw [← h.sent]
      simp
    refine ⟨_, calls ++ [(s.condOf closing, unseen)], [], rfl, rfl, ?_⟩
    cases closing with
    | none =>
        refine ⟨rfl, by rwa [List.append_nil], hsent, fun hcond c hc => ?_,
          fun hne => absurd rfl hne, hlow'⟩
        rcases List.mem_append.mp hc with hc | hc
        · exact h.uncut hcond c hc
        · rw [List.mem_singleton.mp hc]
          exact condOf_none hcond
    | some k =>
        have hsound' := hsound.disable
        rw [← List.append_nil (handleAll _ _).input] at hsound'
        exact ⟨rfl, hsound', hsent, fun hcond => absurd hcond (by simp [Connection.close]),
          fun hne => absurd rfl hne, hlow'⟩
  · rw [if_neg hpending]
    refine ⟨s, calls, unseen, rfl, rfl, ?_⟩
    split
    · exact h.close
    · exact h

/-- One action. -/
theorem Connection.Reads.step (h : s.Reads sent calls unseen) (a : ConnectionAction) :
    ∃ s', s.step a = some s' ∧
      ∃ calls' unseen', s'.Reads (sent ++ sentBy [a]) calls' unseen' := by
  cases a with
  | arrive bytes =>
      refine ⟨_, rfl, calls, unseen, ?_⟩
      have hbytes : sentBy [.arrive bytes] = bytes := List.append_nil bytes
      rw [hbytes]
      exact h.arrive bytes
  | readable r =>
      have hquiet : sentBy [.readable r] = [] := rfl
      rw [Connection.step, hquiet, List.append_nil]
      split
      · obtain ⟨bev, socket, unseen', hread, hreads⟩ := h.readable r
        rw [hread, Option.map_some]
        exact ⟨_, rfl, calls, unseen', hreads⟩
      · exact ⟨s, rfl, calls, unseen, h⟩
  | timeout =>
      have hquiet : sentBy [.timeout] = [] := rfl
      rw [Connection.step, hquiet, List.append_nil]
      split
      · exact ⟨_, rfl, calls, unseen, h.conn, h.sound.disable.runEventcb _, h.sent, h.uncut, h.due,
          h.low⟩
      · exact ⟨s, rfl, calls, unseen, h⟩
  | deferred batches closing =>
      have hquiet : sentBy [.deferred batches closing] = [] := rfl
      rw [Connection.step, hquiet, List.append_nil]
      obtain ⟨s', calls', unseen', hrun, -, hreads⟩ := h.runReadcb batches closing
      rw [hrun, Option.map_some]
      exact ⟨_, rfl, calls', unseen', hreads.runEventcb⟩
  | close =>
      have hquiet : sentBy [.close] = [] := rfl
      rw [Connection.step, hquiet, List.append_nil]
      exact ⟨_, rfl, calls, unseen, h.close⟩

/-- All the actions. -/
theorem reads_of_run (as : List ConnectionAction) :
    ∃ s, System.run Connection.step clientConnectionRegister as = some s ∧
      ∃ calls unseen, s.Reads (sentBy as) calls unseen := by
  refine System.run_reaches (P := fun _ _ => True)
    (fun hist (s : Connection) => ∃ calls unseen, s.Reads (sentBy hist) calls unseen) ?_
    ⟨[], [], reads_register⟩ (System.along_true as)
  rintro hist s a ⟨calls, unseen, h⟩ -
  obtain ⟨s', hstep, hreads⟩ := h.step a
  rw [← sentBy_append] at hreads
  exact ⟨s', hstep, hreads⟩

/-- Whatever happens to a connection, it comes to no fault.  The handler has worked on the
bytes of the socket, cut into chunks; the blocks removed, the input and what is left in
the socket are what the device has sent; the input keeps within the high watermark, and
reading is suspended just while it is full; and unless there are too few bytes for the low
watermark, the handler is due for those it has not seen. -/
theorem connection_reads_stream (as : List ConnectionAction) :
    ∃ s, System.run Connection.step clientConnectionRegister as = some s ∧
      s.conn.removed.flatten ++ dataOf s.bev.input.chains ++ s.socket = sentBy as ∧
      (dataOf s.bev.input.chains).length ≤ buffereventHighWatermark ∧
      (s.bev.readSuspended = true ↔
        (dataOf s.bev.input.chains).length = buffereventHighWatermark) ∧
      (s.bev.evRead = true ↔ s.bev.enabled = true ∧ s.bev.readSuspended = false) ∧
      ∃ calls unseen, s.conn = withInput (handleAll .init calls) [] ∧
        dataOf s.bev.input.chains = (handleAll .init calls).input ++ unseen ∧
        (calls.map Prod.snd).flatten ++ unseen ++ s.socket = sentBy as ∧
        (s.cond = true → ∀ c ∈ calls, c.1 = condSet) ∧
        (unseen ≠ [] → s.bev.wmReadLow ≤ (dataOf s.bev.input.chains).length →
          s.bev.readcbPending = true) := by
  obtain ⟨s, hrun, calls, unseen, h⟩ := reads_of_run as
  have hdata : dataOf s.bev.input.chains = (handleAll .init calls).input ++ unseen :=
    h.sound.holds.contents
  have hbound := h.sound.bound
  have hfull := h.sound.full
  rw [← hdata] at hbound hfull
  refine ⟨s, hrun, ?_, hbound, hfull.trans ?_, h.sound.armed, calls, unseen, h.conn, hdata, h.sent,
    h.uncut, ?_⟩
  · have hkept := handleAll_keeps_bytes .init calls
    have hremoved : s.conn.removed = (handleAll .init calls).removed := by rw [h.conn]; rfl
    rw [hremoved, hdata, ← List.append_assoc, hkept, ← h.sent]
    rfl
  · exact ⟨fun hle => Nat.le_antisymm hbound hle, fun heq => Nat.le_of_eq heq.symm⟩
  · rw [hdata]
    exact h.due

/-! ## A device that sends packets -/

theorem handleAll_condSet {conn : Conn} (h : ∀ c ∈ calls, c.1 = condSet) :
    handleAll conn calls = receiveAll conn (calls.map Prod.snd) := by
  induction calls generalizing conn with
  | nil => rfl
  | cons c calls ih =>
      have hfirst : handle conn c = receive conn c.2 := by
        rw [handle, h c List.mem_cons_self]
        rfl
      rw [handleAll, List.foldl_cons, ← handleAll, hfirst,
        ih fun d hd => h d (List.mem_cons_of_mem c hd)]
      rfl

/-- Behind the packets present less than a packet is left. -/
theorem rest_lt_of_take {ps : List Packet} {z : List UInt8}
    (hz : z <+: (ps.map Packet.bytes).flatten) :
    (frameReader.rest z).length < jt1078StreamPackageSize := by
  induction ps generalizing z with
  | nil =>
      have hnil : z = [] := List.prefix_nil.mp hz
      rw [hnil]
      decide
  | cons p ps ih =>
      rw [List.map_cons, List.flatten_cons] at hz
      by_cases hle : p.bytes.length ≤ z.length
      · obtain ⟨z', rfl⟩ := List.prefix_of_prefix_length_le (List.prefix_append ..) hz hle
        rw [Reader.rest_of_some (nextFrame_append p.isFrame z')]
        exact ih ((List.prefix_append_right_inj _).mp hz)
      · have hz' := List.prefix_of_prefix_length_le hz (List.prefix_append ..) (by omega)
        have hp := p.isFrame.le
        rw [Reader.rest_of_none (p.next_of_lt hz' (by omega))]
        omega

/-- A device that sends packets with bodies of 1 to 950 bytes.  While the connection is open
the handler has taken just the packets that lie whole in the bytes it has seen, and
these are all that have been read unless it is due or waits for the low watermark.  While
reading is enabled the connection never stalls: the socket is watched, or the handler is due. -/
theorem connection_frames_packets (ps : List Packet) (as : List ConnectionAction)
    (hsent : sentBy as <+: (ps.map Packet.bytes).flatten) :
    ∃ s, System.run Connection.step clientConnectionRegister as = some s ∧
      (s.cond = true → ∃ n, n + s.socket.length ≤ (sentBy as).length ∧
        s.conn.removed = (present ps n).map Packet.bytes ∧
        s.conn.videos = ((present ps n).filter Packet.isVideo).map
          (fun p => ((readHeader p.bytes).channel, p.body)) ∧
        (s.bev.readcbPending = false → s.bev.wmReadLow ≤ (dataOf s.bev.input.chains).length →
          n + s.socket.length = (sentBy as).length) ∧
        (s.bev.enabled = true → s.bev.evRead = true ∨ s.bev.readcbPending = true)) := by
  obtain ⟨s, hrun, calls, unseen, h⟩ := reads_of_run as
  refine ⟨s, hrun, fun hcond => ?_⟩
  obtain ⟨z, hz⟩ : ∃ z, z = (calls.map Prod.snd).flatten := ⟨_, rfl⟩
  have hlen : z.length + unseen.length + s.socket.length = (sentBy as).length := by
    rw [← h.sent, hz]
    simp only [List.length_append]
  have hprefix : z <+: (ps.map Packet.bytes).flatten := by
    refine (List.IsPrefix.trans ?_ hsent)
    rw [← h.sent, hz, List.append_assoc]
    exact List.prefix_append ..
  have hstart : Framed .init [] .init := ⟨rfl, rfl, rfl⟩
  have hframed := framed_of_chunks hstart (by rwa [List.nil_append, ← hz])
  rw [List.nil_append, ← hz, ← handleAll_condSet (h.uncut hcond)] at hframed
  have hitems := items_of_take hprefix
  have hremoved : s.conn.removed = (handleAll .init calls).removed := by rw [h.conn]; rfl
  have hvideos : s.conn.videos = (handleAll .init calls).videos := by rw [h.conn]; rfl
  have hdata : dataOf s.bev.input.chains = (handleAll .init calls).input ++ unseen :=
    h.sound.holds.contents
  refine ⟨z.length, by omega, ?_, ?_, fun hidle hle => ?_, fun henabled => ?_⟩
  · rw [hremoved, hframed.removed, hitems]
    rfl
  · rw [hvideos, hframed.videos, hitems, flatMap_videoOf]
    rfl
  · have hseen : unseen = [] := by
      by_contra hne
      rw [h.due hne (hdata ▸ hle)] at hidle
      cases hidle
    rw [hseen, List.length_nil] at hlen
    omega
  · cases hfull : s.bev.readSuspended with
    | false => exact .inl (h.sound.armed.mpr ⟨henabled, hfull⟩)
    | true =>
        -- a full input holds much that the handler has not seen
        have hmuch := h.sound.full.mp hfull
        have hrest := rest_lt_of_take hprefix
        have hlow := h.low
        rw [← hframed.input] at hrest
        rw [List.length_append] at hmuch
        simp only [buffereventHighWatermark, buffereventLowWatermark, jt1078StreamPackageSize] at *
        refine .inr (h.due ?_ ?_)
        · intro hnil
          rw [hnil, List.length_nil] at hmuch
          omega
        · rw [List.length_append]
          omega

/-- Two packets arrive, a read ends within the second one, and the next one gets the rest. -/
def shortRead : List ConnectionAction :=
  [.arrive (smallPacket.bytes ++ smallPacket.bytes),
    .readable { fionread := 62, readv := some 40, retriable := false, malloc := true },
    .deferred false none,
    .readable { fionread := 22, readv := some 22, retriable := false, malloc := true },
    .deferred false none]

theorem connection_frames_shortRead :
    sentBy shortRead <+: ([smallPacket, smallPacket].map Packet.bytes).flatten ∧
      ∃ s, System.run Connection.step clientConnectionRegister shortRead = some s ∧
        (s.cond = true → ∃ n, n + s.socket.length ≤ 62 ∧
          s.conn.removed = (present [smallPacket, smallPacket] n).map Packet.bytes ∧
          (s.bev.readcbPending = false → s.bev.wmReadLow ≤ (dataOf s.bev.input.chains).length →
            n + s.socket.length = 62)) := by
  have hsent : sentBy shortRead <+: ([smallPacket, smallPacket].map Packet.bytes).flatten :=
    List.prefix_rfl
  obtain ⟨s, hrun, hopen⟩ := connection_frames_packets [smallPacket, smallPacket] shortRead hsent
  refine ⟨hsent, s, hrun, fun hcond => ?_⟩
  obtain ⟨n, hle, hremoved, -, hall, -⟩ := hopen hcond
  exact ⟨n, hle, hremoved, hall⟩

example : (System.run Connection.step clientConnectionRegister shortRead).map
    (fun s => (s.cond, s.conn.removed.map List.length, s.socket.length)) =
      some (true, [31, 31], 0) := by
  decide +kernel

end VmpSa.Event
