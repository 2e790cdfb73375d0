import VmpSa.Stream.Channel

/-!
# The publisher thread

`rtmp_publish_thread` and `rtmp_stream_pub` of `mw/publish/rtmp_publish.c`,
`list_traverse` of `bll/bll_h264_stream.c` and `tima_rtmp_send` of
`mw/protocol/tima_rtmp_publisher.c`.  One pass of the thread's loop takes a
packet from the queue, stamps it with the clock and hands it to librtmp.  What
the queue, the clock and librtmp answer during a pass comes from outside.

The clock is masked to 24 bits on its way into the packet.  The stamps of a run
follow the clock exactly when all its sends fall into one period of 2^24 ms.
-/

namespace VmpSa

/-! ## The model -/

/-- What librtmp answers during one call of `tima_rtmp_send`. -/
structure LibRtmp where
  /-- `RTMP_GetTime` -/
  getTime : UInt32
  /-- `RTMP_IsConnected` -/
  isConnected : Bool
  /-- `RTMP_SendPacket` -/
  sendPacket : Bool
deriving Repr, DecidableEq

/-- `TimaRTMPPublisher`, as far as `tima_rtmp_send` reads it. -/
structure TimaRtmpPublisher where
  mStreamId : Int
deriving Repr, DecidableEq

/-- A packet as `RTMP_SendPacket` got it, with the reading of the clock it was
stamped at. -/
structure Sent where
  clock : UInt32
  packet : RtmpPacket
deriving Repr, DecidableEq

/-- `tima_rtmp_send`: the result and what `RTMP_SendPacket` was called with.
The argument `timestamp` is not used. -/
def timaRtmpSend (publisher : Option TimaRtmpPublisher) (packet : RtmpPacket)
    (_timestamp : UInt32) (lib : LibRtmp) : Int × List Sent :=
  match publisher with
  | none => (-1, [])
  | some thiz =>
      let packet := { packet with
        mNInfoField2 := thiz.mStreamId
        mNTimeStamp := (lib.getTime &&& 0xffffff).toNat }
      if lib.isConnected then
        (if lib.sendPacket then 0 else -1, [{ clock := lib.getTime, packet := packet }])
      else (-1, [])

/-- The publisher node: the fields its thread reads, and a record of the packets
handed to librtmp and of the calls of `bll_h264_stream_close`. -/
structure PublishNode where
  publisher : Option TimaRtmpPublisher
  /-- Whether `req.traverse` is registered. -/
  traverse : Bool
  cond : Bool
  sent : List Sent
  closes : Nat
deriving Repr, DecidableEq

/-- `rtmp_stream_pub`. -/
def rtmpStreamPub (thiz : PublishNode) (stream : NalNode) (lib : LibRtmp) : Int × List Sent :=
  timaRtmpSend thiz.publisher stream.package 0 lib

/-- `list_traverse` with what `list_del_nalu` returned, `none` for NULL.  The node
is destroyed behind the call. -/
def listTraverse (thiz : PublishNode) (nalNode : Option NalNode) (lib : LibRtmp) : PublishNode :=
  match nalNode with
  | none => thiz
  | some nalNode =>
      let (ret, sent) := rtmpStreamPub thiz nalNode lib
      { thiz with
        sent := thiz.sent ++ sent
        closes := if ret < 0 then thiz.closes + 1 else thiz.closes }

/-- `rtma_publish_proc`. -/
def rtmaPublishProc (thiz : PublishNode) (nalNode : Option NalNode) (lib : LibRtmp) :
    PublishNode :=
  if thiz.traverse then listTraverse thiz nalNode lib else { thiz with cond := false }

/-- What can happen to the publisher node: a pass of its thread, or `rtmp_publish_set`
called by another one to stop it. -/
inductive PublishAct where
  | pass (nalNode : Option NalNode) (lib : LibRtmp)
  | stop
deriving Repr, DecidableEq

/-- The loop of `rtmp_publish_thread`.  Once `cond` is `0` there is no further pass. -/
def publishStep (thiz : PublishNode) : PublishAct → Option PublishNode
  | .pass nalNode lib => if thiz.cond then some (rtmaPublishProc thiz nalNode lib) else none
  | .stop => some { thiz with cond := false }

/-! ## The clock of a run -/

/-- The reading of the clock while a packet is taken care of. -/
def PublishAct.reading : PublishAct → Option UInt32
  | .pass (some _) lib => some lib.getTime
  | _ => none

/-- The reading of the clock at a call of `RTMP_SendPacket`. -/
def PublishNode.sendTime (thiz : PublishNode) : PublishAct → Option UInt32
  | .pass (some _) lib =>
      if thiz.traverse = true ∧ thiz.publisher.isSome ∧ lib.isConnected = true then
        some lib.getTime
      else none
  | _ => none

/-- The number of the 2^24 ms period a clock reading lies in. -/
def period (t : UInt32) : Nat := t.toNat / 2 ^ 24

/-- The stamps never go back, and from one packet to the next they advance as the
clock did. -/
def StampsFollowClock (sent : List Sent) : Prop :=
  sent.IsChain fun a b =>
    a.packet.mNTimeStamp ≤ b.packet.mNTimeStamp ∧
      (b.packet.mNTimeStamp : Int) - a.packet.mNTimeStamp = b.clock.toNat - a.clock.toNat

instance (sent : List Sent) : Decidable (StampsFollowClock sent) :=
  inferInstanceAs (Decidable (List.IsChain _ _))

theorem mNTimeStamp_eq (t : UInt32) : (t &&& 0xffffff).toNat = t.toNat % 2 ^ 24 := by
  rw [UInt32.toNat_and]
  exact Nat.and_two_pow_sub_one_eq_mod t.toNat 24

/-- `tima_rtmp_send` hands over nothing, or the packet stamped with the clock when
there is a connected publisher. -/
theorem timaRtmpSend_sent (publisher : Option TimaRtmpPublisher) (packet : RtmpPacket)
    (timestamp : UInt32) (lib : LibRtmp) :
    ¬ (publisher.isSome ∧ lib.isConnected = true) ∧
        (timaRtmpSend publisher packet timestamp lib).2 = [] ∨
      (publisher.isSome ∧ lib.isConnected = true) ∧
        ∃ p, (timaRtmpSend publisher packet timestamp lib).2 = [⟨lib.getTime, p⟩] ∧
          p.mNTimeStamp = lib.getTime.toNat % 2 ^ 24 := by
  cases publisher with
  | none => exact Or.inl ⟨fun h => absurd h.1 (by simp), rfl⟩
  | some thiz =>
      rw [timaRtmpSend]
      split
      next hc => exact Or.inr ⟨⟨rfl, hc⟩, _, rfl, mNTimeStamp_eq lib.getTime⟩
      next hc => exact Or.inl ⟨fun h => hc h.2, rfl⟩

/-- What a pass with a packet adds to the record. -/
theorem rtmaPublishProc_sent (s : PublishNode) (nalNode : NalNode) (lib : LibRtmp) :
    s.sendTime (.pass (some nalNode) lib) = none ∧
        (rtmaPublishProc s (some nalNode) lib).sent = s.sent ∨
      ∃ t p, s.sendTime (.pass (some nalNode) lib) = some t ∧
        PublishAct.reading (.pass (some nalNode) lib) = some t ∧
        (rtmaPublishProc s (some nalNode) lib).sent = s.sent ++ [⟨t, p⟩] ∧
        p.mNTimeStamp = t.toNat % 2 ^ 24 := by
  rw [PublishNode.sendTime, rtmaPublishProc]
  cases ht : s.traverse with
  | false => exact Or.inl ⟨if_neg (fun h => Bool.false_ne_true h.1), rfl⟩
  | true =>
      have hsent : (listTraverse s (some nalNode) lib).sent =
          s.sent ++ (timaRtmpSend s.publisher nalNode.package 0 lib).2 := rfl
      rw [if_pos rfl, hsent]
      rcases timaRtmpSend_sent s.publisher nalNode.package 0 lib with
        ⟨hnot, hnil⟩ | ⟨hc, p, hp, hts⟩
      · exact Or.inl ⟨if_neg fun h => hnot h.2, by rw [hnil, List.append_nil]⟩
      · exact Or.inr ⟨lib.getTime, p, if_pos ⟨rfl, hc⟩, rfl, by rw [hp], hts⟩

/-- What one step adds to the record: nothing, or one packet stamped with the clock
of that step. -/
theorem publishStep_sent {s s' : PublishNode} {a : PublishAct} (h : publishStep s a = some s') :
    s.sendTime a = none ∧ s'.sent = s.sent ∨
      ∃ t p, s.sendTime a = some t ∧ a.reading = some t ∧ s'.sent = s.sent ++ [⟨t, p⟩] ∧
        p.mNTimeStamp = t.toNat % 2 ^ 24 := by
  cases a with
  | stop =>
      cases h
      exact Or.inl ⟨rfl, rfl⟩
  | pass nalNode lib =>
      rw [publishStep] at h
      split at h
      · cases h
        cases nalNode with
        | none =>
            refine Or.inl ⟨rfl, ?_⟩
            rw [rtmaPublishProc]
            split <;> rfl
        | some nalNode => exact rtmaPublishProc_sent s nalNode lib
      · cases h

/-- The packets a run adds to the record: each is stamped with the clock modulo
2^24, in the order of the readings, and they are those the run sends. -/
theorem run_sent : ∀ {s s' : PublishNode} {as : List PublishAct},
    System.run publishStep s as = some s' →
    ∃ new, s'.sent = s.sent ++ new ∧
      (∀ e ∈ new, e.packet.mNTimeStamp = e.clock.toNat % 2 ^ 24) ∧
      (new.map Sent.clock).Sublist (as.filterMap PublishAct.reading) ∧
      ∀ P : UInt32 → Prop,
        System.Along publishStep (fun s a => ∀ t, s.sendTime a = some t → P t) s as ↔
          ∀ e ∈ new, P e.clock
  | s, _, [], h => by
      cases h
      exact ⟨[], (List.append_nil _).symm, nofun, List.Sublist.refl _,
        fun P => ⟨fun _ => nofun, fun _ => trivial⟩⟩
  | s, s', a :: as, h => by
      obtain ⟨s₁, hs, hr⟩ := System.exists_step_of_run h
      obtain ⟨new, hsent, hstamp, hsub, hP⟩ := run_sent hr
      rcases publishStep_sent hs with ⟨hnone, hs₁⟩ | ⟨t, p, hsome, hread, hs₁, hp⟩
      · refine ⟨new, by rw [hsent, hs₁], hstamp, ?_, fun P => ?_⟩
        · cases hread : a.reading with
          | none => rwa [List.filterMap_cons_none hread]
          | some t => rw [List.filterMap_cons_some hread]; exact hsub.cons t
        · rw [System.along_cons hs, hP]
          refine ⟨fun h => h.2, fun h => ⟨fun t ht => ?_, h⟩⟩
          rw [hnone] at ht
          cases ht
      · refine ⟨⟨t, p⟩ :: new, by rw [hsent, hs₁, List.append_assoc]; rfl, ?_, ?_, fun P => ?_⟩
        · intro e he
          rcases List.mem_cons.mp he with rfl | he
          · exact hp
          · exact hstamp e he
        · rw [List.filterMap_cons_some hread]
          exact hsub.cons_cons t
        · rw [System.along_cons hs, hP, List.forall_mem_cons]
          refine and_congr_left fun _ => ⟨fun h => h t hsome, fun h t' ht' => ?_⟩
          rw [hsome] at ht'
          cases ht'
          exact h

/-- All elements of a list have one value of `f` when neighbours do. -/
theorem isChain_eq_iff {α : Type} {f : α → Nat} : ∀ {l : List α},
    l.IsChain (fun a b => f a = f b) ↔ ∃ k, ∀ a ∈ l, f a = k
  | [] => ⟨fun _ => ⟨0, nofun⟩, fun _ => List.IsChain.nil⟩
  | [a] => ⟨fun _ => ⟨f a, by simp⟩, fun _ => List.IsChain.singleton a⟩
  | a :: b :: l => by
      rw [List.isChain_cons_cons, isChain_eq_iff]
      constructor
      · rintro ⟨hab, k, hk⟩
        refine ⟨k, List.forall_mem_cons.mpr ⟨?_, hk⟩⟩
        rw [hab, hk b List.mem_cons_self]
      · rintro ⟨k, hk⟩
        obtain ⟨ha, hl⟩ := List.forall_mem_cons.mp hk
        exact ⟨ha.trans (hl b List.mem_cons_self).symm, k, hl⟩

/-- Between two readings in order, the stamps follow the clock exactly when both
lie in one period. -/
theorem stamps_pair {x y : Nat} (h : x ≤ y) :
    (x % 2 ^ 24 ≤ y % 2 ^ 24 ∧ ((y % 2 ^ 24 : Nat) : Int) - (x % 2 ^ 24 : Nat) = y - x) ↔
      x / 2 ^ 24 = y / 2 ^ 24 := by
  omega

theorem stampsFollowClock_iff : ∀ {sent : List Sent},
    (∀ e ∈ sent, e.packet.mNTimeStamp = e.clock.toNat % 2 ^ 24) →
    (sent.map Sent.clock).Pairwise (· ≤ ·) →
    (StampsFollowClock sent ↔ sent.IsChain fun a b => period a.clock = period b.clock)
  | [], _, _ => ⟨fun _ => .nil, fun _ => .nil⟩
  | [a], _, _ => ⟨fun _ => .singleton a, fun _ => .singleton a⟩
  | a :: b :: l, hstamp, hsorted => by
      obtain ⟨ha, hl⟩ := List.forall_mem_cons.mp hstamp
      rw [List.map_cons, List.pairwise_cons] at hsorted
      have hab : a.clock.toNat ≤ b.clock.toNat := hsorted.1 b.clock (by simp)
      have ih := stampsFollowClock_iff hl hsorted.2
      simp only [StampsFollowClock] at ih ⊢
      rw [List.isChain_cons_cons, List.isChain_cons_cons, ih, ha, hl b List.mem_cons_self,
        stamps_pair hab]
      rfl

/-- For a clock that does not run backwards, the stamps of a run follow it exactly
when all packets of the run are sent in one period of the clock. -/
theorem stamps_follow_clock_iff {init s : PublishNode} {as : List PublishAct}
    (hinit : init.sent = [])
    (hclock : (as.filterMap PublishAct.reading).Pairwise (· ≤ ·))
    (hr : System.run publishStep init as = some s) :
    StampsFollowClock s.sent ↔
      ∃ k, System.Along publishStep (fun s a => ∀ t, s.sendTime a = some t → period t = k)
        init as := by
  obtain ⟨new, hsent, hstamp, hsub, hP⟩ := run_sent hr
  rw [hsent, hinit, List.nil_append, stampsFollowClock_iff hstamp (hclock.sublist hsub),
    isChain_eq_iff]
  simp only [hP]

/-! ## A run across the end of a period -/

/-- A publisher connected to a stream. -/
def connectedNode : PublishNode where
  publisher := some { mStreamId := 1 }
  traverse := true
  cond := true
  sent := []
  closes := 0

/-- A pass that sends the packet of a short NALU at a clock reading. -/
def sendAt (t : UInt32) : PublishAct :=
  .pass (some { seq := 0, cid := 1, size := 0, package := dataPacket [0x41] })
    { getTime := t, isConnected := true, sendPacket := true }

/-- Two packets a second apart keep their distance. -/
theorem stamps_follow_clock_short :
    ∃ s, System.run publishStep connectedNode [sendAt 5000, sendAt 6000] = some s ∧
      s.sent.length = 2 ∧ StampsFollowClock s.sent := by
  have hrun : (System.run publishStep connectedNode [sendAt 5000, sendAt 6000]).map
      (fun s => s.sent.length) = some 2 := by decide
  obtain ⟨s, hs, hlen⟩ := Option.map_eq_some_iff.mp hrun
  refine ⟨s, hs, hlen, (stamps_follow_clock_iff rfl (by decide) hs).mpr ⟨0, ?_, ?_, trivial⟩⟩
  · intro t ht
    cases ht
    rfl
  · intro t ht
    cases ht
    rfl

/-- Two packets a millisecond apart, the second one at the start of a period: the
stamp goes back to zero. -/
theorem stamp_goes_back :
    ¬ ∀ (as : List PublishAct) (s : PublishNode),
      (as.filterMap PublishAct.reading).Pairwise (· ≤ ·) →
      System.run publishStep connectedNode as = some s → StampsFollowClock s.sent := by
  intro h
  have hrun : (System.run publishStep connectedNode [sendAt 0xffffff, sendAt 0x1000000]).map
      (fun s => decide (StampsFollowClock s.sent)) = some false := by decide
  obtain ⟨s, hs, hnot⟩ := Option.map_eq_some_iff.mp hrun
  exact of_decide_eq_false hnot (h _ s (by decide) hs)

end VmpSa
