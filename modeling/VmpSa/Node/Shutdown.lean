import VmpSa.Lib.System

/-!
# Shutting the publisher down

The publisher thread tests its `cond` outside `list_mutex` and then waits on
`cond_empty` inside it; the closing side clears `cond` and broadcasts without
the mutex.  A broadcast between the test and the wait wakes nobody, and no
packet comes after it.

`timely_run_not_missed` is about the runs in which the broadcast does not fall
there, and it says that every other placement can leave the publisher waiting
for good.
-/

namespace VmpSa

/-! ## The model -/

/-- Where the publisher thread is.  It holds `list_mutex` in `willWait` and in
`dequeue`. -/
inductive PubAt where
  /-- `while (thiz->cond)` -/
  | test
  /-- `list_del_nalu`, before `pthread_mutex_lock` -/
  | lock
  /-- the list was empty, before `pthread_cond_wait` -/
  | willWait
  | waiting
  /-- woken, and without the mutex -/
  | woken
  /-- `if (thiz->list_size > 0)` -/
  | dequeue
  /-- `list_traverse` with a packet -/
  | send
  /-- `bll_h264_stream_close`: `thiz->cond = 0` -/
  | closeCond
  /-- `if (thiz->publish)` -/
  | closeTest
  /-- `rtmp_push_end`, before `pfn_set` -/
  | closePush
  /-- `rtmp_push_end`, before `pthread_cond_broadcast` -/
  | closeBroadcast
  /-- out of the loop, or past `h264_stream_release` -/
  | left
  deriving DecidableEq

/-- Where `stream_socket_eventcb` is, in the socket thread. -/
inductive CloserAt where
  | idle
  | test
  | push
  | broadcast
  | finished
  /-- past `h264_stream_release` -/
  | released
  deriving DecidableEq

/-- The part of a stream node and its publisher that the shutdown is about. -/
structure Shutdown where
  cond : Bool
  /-- `publish` is not `NULL`. -/
  publish : Bool
  /-- `cond` of the publisher. -/
  pubCond : Bool
  /-- The packets in the list. -/
  queue : Nat
  pub : PubAt
  closer : CloserAt
  /-- `rtmp_push_end` has broadcast. -/
  signalled : Bool

/-- A publisher in its loop. -/
def Shutdown.init (queue : Nat) : Shutdown where
  cond := true
  publish := true
  pubCond := true
  queue := queue
  pub := .test
  closer := .idle
  signalled := false

inductive ShutdownStep where
  /-- the next step of the publisher thread, with what a send would return -/
  | publisher (sendFails : Bool)
  /-- the next step of `stream_socket_eventcb` -/
  | closer
  /-- `list_add_nalu` -/
  | add
  /-- the end of a wait that no broadcast caused -/
  | wake

namespace Shutdown

/-- `pthread_cond_broadcast(&thiz->cond_empty)` -/
def condBroadcast (s : Shutdown) : Shutdown :=
  { s with pub := if s.pub = .waiting then .woken else s.pub }

/-- The first half of `rtmp_push_end`. -/
def pushEnd (s : Shutdown) : Shutdown :=
  { s with pubCond := if s.publish then false else s.pubCond, publish := false }

/-- The publisher thread. -/
def publisherStep (s : Shutdown) (sendFails : Bool) : Option Shutdown :=
  match s.pub with
  | .test => some { s with pub := if s.pubCond then .lock else .left }
  | .lock => some { s with pub := if s.queue = 0 then .willWait else .dequeue }
  | .willWait => some { s with pub := .waiting }
  | .waiting => none
  | .woken => some { s with pub := .dequeue }
  | .dequeue =>
      if 0 < s.queue then some { s with queue := s.queue - 1, pub := .send }
      else some { s with pub := .test }
  | .send => some { s with pub := if sendFails then .closeCond else .test }
  | .closeCond => some { s with cond := false, pub := .closeTest }
  | .closeTest => some { s with pub := if s.publish then .closePush else .left }
  | .closePush => some { s.pushEnd with pub := .closeBroadcast }
  | .closeBroadcast => some { s with signalled := true, pub := .test }
  | .left => none

/-- The socket thread in `stream_socket_eventcb`. -/
def closerStep (s : Shutdown) : Option Shutdown :=
  match s.closer with
  | .idle => some { s with cond := false, closer := .test }
  | .test => some { s with closer := if s.publish then .push else .released }
  | .push => some { s.pushEnd with closer := .broadcast }
  | .broadcast => some { s.condBroadcast with signalled := true, closer := .finished }
  | .finished => none
  | .released => none

/-- One step.  The socket thread adds packets while `cond` is set, and it needs
the mutex for that. -/
def step (s : Shutdown) : ShutdownStep → Option Shutdown
  | .publisher sendFails => s.publisherStep sendFails
  | .closer => s.closerStep
  | .add =>
      if s.cond = true ∧ s.closer = .idle ∧ s.pub ≠ .willWait ∧ s.pub ≠ .dequeue then
        some { (if s.queue = 0 then s.condBroadcast else s) with queue := s.queue + 1 }
      else none
  | .wake => if s.pub = .waiting then some { s with pub := .woken } else none

/-- The closing side has finished, and the publisher waits on an empty queue. -/
def Missed (s : Shutdown) : Prop :=
  s.pubCond = false ∧ s.signalled = true ∧ s.pub = .waiting ∧ s.queue = 0

/-- The publisher has tested its `cond`, will find the queue empty and does not
wait yet. -/
def BeforeWait (s : Shutdown) : Prop :=
  s.pub = .willWait ∨ (s.pub = .lock ∧ s.queue = 0)

/-- The broadcast of `stream_socket_eventcb` does not come before the wait. -/
def Timely (s : Shutdown) : ShutdownStep → Prop
  | .closer => s.closer = .broadcast → ¬ s.BeforeWait
  | _ => True

instance (s : Shutdown) : Decidable s.BeforeWait := inferInstanceAs (Decidable (_ ∨ _))

instance (s : Shutdown) : ∀ a, Decidable (s.Timely a)
  | .closer => inferInstanceAs (Decidable (s.closer = .broadcast → _))
  | .publisher _ => inferInstanceAs (Decidable True)
  | .add => inferInstanceAs (Decidable True)
  | .wake => inferInstanceAs (Decidable True)

/-! ## The invariant -/

/-- The publisher thread is past the point where `bll_h264_stream_close` clears
`cond`. -/
def Closing : PubAt → Prop
  | .closeTest | .closePush | .closeBroadcast => True
  | _ => False

structure Inv (s : Shutdown) : Prop where
  pushed : s.publish = false → s.pubCond = false
  closer : s.closer ≠ .idle → s.cond = false
  closing : Closing s.pub → s.cond = false
  broadcast : s.closer = .broadcast ∨ s.pub = .closeBroadcast → s.publish = false
  empty : s.pub = .willWait → s.queue = 0
  signalled : s.signalled = true → s.cond = false ∧ s.publish = false ∧ s.pub ≠ .waiting ∧
    ¬ s.BeforeWait

variable {s s' : Shutdown} {a : ShutdownStep} {n : Nat}

theorem inv_init (n : Nat) : (init n).Inv where
  pushed := nofun
  closer h := absurd rfl h
  closing := nofun
  broadcast := nofun
  empty := nofun
  signalled := nofun

theorem Inv.not_missed (hi : s.Inv) : ¬ s.Missed := by
  rintro ⟨-, hsignalled, hwaiting, -⟩
  exact (hi.signalled hsignalled).2.2.1 hwaiting

/-- A move of the publisher that changes nothing else. -/
theorem Inv.move (hi : s.Inv) {p : PubAt} (hclosing : Closing p → s.cond = false)
    (hb : p ≠ .closeBroadcast) (hempty : p = .willWait → s.queue = 0)
    (hsig : s.signalled = true → p ≠ .waiting ∧ ¬ BeforeWait { s with pub := p }) :
    Inv { s with pub := p } :=
  { hi with
    closing := hclosing
    broadcast := fun h => hi.broadcast (.inl (h.resolve_right hb))
    empty := hempty
    signalled := fun h => ⟨(hi.signalled h).1, (hi.signalled h).2.1, hsig h⟩ }

/-- The moves that lead away from the wait. -/
theorem Inv.moveAway (hi : s.Inv) {p : PubAt} (hclosing : ¬ Closing p)
    (hp : p ≠ .lock ∧ p ≠ .willWait ∧ p ≠ .waiting) : Inv { s with pub := p } := by
  refine hi.move (fun h => absurd h hclosing) ?_ (fun h => absurd h hp.2.1) fun _ => ⟨hp.2.2, ?_⟩
  · rintro rfl
    exact hclosing trivial
  · rintro (h | h)
    · exact hp.2.1 h
    · exact hp.1 h.1

theorem Inv.pushEnd (hi : s.Inv) : s.pushEnd.Inv where
  pushed _ := by
    show (if s.publish then false else s.pubCond) = false
    split
    · rfl
    · exact hi.pushed (Bool.eq_false_iff.mpr ‹_›)
  closer := hi.closer
  closing := hi.closing
  broadcast _ := rfl
  empty := hi.empty
  signalled h := ⟨(hi.signalled h).1, rfl, (hi.signalled h).2.2⟩

/-- A packet is taken from the queue. -/
theorem Inv.takePacket (hi : s.Inv) (n : Nat) : Inv { s with queue := n, pub := .send } := by
  have hmoved : Inv { s with pub := .send } := hi.moveAway nofun ⟨nofun, nofun, nofun⟩
  exact { hmoved with
    empty := nofun
    signalled := fun h => ⟨(hi.signalled h).1, (hi.signalled h).2.1, nofun, nofun⟩ }

theorem Inv.closeCond (hi : s.Inv) : Inv { s with cond := false, pub := .closeTest } :=
  { hi with
    closer := fun _ => rfl
    closing := fun _ => rfl
    broadcast := fun h => hi.broadcast (.inl (h.resolve_right nofun))
    empty := nofun
    signalled := fun h => ⟨rfl, (hi.signalled h).2.1, nofun, nofun⟩ }

theorem Inv.closePush (hi : s.Inv) (hcond : s.cond = false) :
    Inv { s.pushEnd with pub := .closeBroadcast } :=
  { hi.pushEnd with
    closing := fun _ => hcond
    broadcast := fun _ => rfl
    empty := nofun
    signalled := fun _ => ⟨hcond, rfl, nofun, nofun⟩ }

/-- Nobody but the publisher itself could wait when it broadcasts. -/
theorem Inv.closeBroadcast (hi : s.Inv) (hcond : s.cond = false) (hpublish : s.publish = false) :
    Inv { s with signalled := true, pub := .test } :=
  { hi with
    closing := nofun
    broadcast := fun _ => hpublish
    empty := nofun
    signalled := fun _ => ⟨hcond, hpublish, nofun, nofun⟩ }

/-! ## One step -/

theorem Inv.publisherStep (hi : s.Inv) {sendFails : Bool}
    (hs : s.publisherStep sendFails = some s') : s'.Inv := by
  rw [Shutdown.publisherStep] at hs
  cases hp : s.pub with
  | test =>
      rw [hp] at hs
      cases hs
      by_cases hc : s.pubCond = true
      · rw [if_pos hc]
        refine hi.move nofun nofun nofun fun hsig => ?_
        exact nomatch hc.symm.trans (hi.pushed (hi.signalled hsig).2.1)
      · rw [if_neg hc]
        exact hi.moveAway nofun ⟨nofun, nofun, nofun⟩
  | lock =>
      rw [hp] at hs
      cases hs
      by_cases hq : s.queue = 0
      · rw [if_pos hq]
        refine hi.move nofun nofun (fun _ => hq) fun hsig => ?_
        exact absurd (.inr ⟨hp, hq⟩) (hi.signalled hsig).2.2.2
      · rw [if_neg hq]
        exact hi.moveAway nofun ⟨nofun, nofun, nofun⟩
  | willWait =>
      rw [hp] at hs
      cases hs
      refine hi.move nofun nofun nofun fun hsig => ?_
      exact absurd (.inl hp) (hi.signalled hsig).2.2.2
  | waiting => rw [hp] at hs; cases hs
  | woken =>
      rw [hp] at hs
      cases hs
      exact hi.moveAway nofun ⟨nofun, nofun, nofun⟩
  | dequeue =>
      rw [hp] at hs
      dsimp only at hs
      split at hs
      · cases hs
        exact hi.takePacket (s.queue - 1)
      · cases hs
        exact hi.moveAway nofun ⟨nofun, nofun, nofun⟩
  | send =>
      rw [hp] at hs
      cases hs
      cases sendFails with
      | true => exact hi.moveAway nofun ⟨nofun, nofun, nofun⟩
      | false => exact hi.moveAway nofun ⟨nofun, nofun, nofun⟩
  | closeCond =>
      rw [hp] at hs
      cases hs
      exact hi.closeCond
  | closeTest =>
      rw [hp] at hs
      cases hs
      have hcond : s.cond = false := hi.closing (by rw [hp]; trivial)
      by_cases hpublish : s.publish = true
      · rw [if_pos hpublish]
        exact hi.move (fun _ => hcond) nofun nofun fun _ => ⟨nofun, nofun⟩
      · rw [if_neg hpublish]
        exact hi.moveAway nofun ⟨nofun, nofun, nofun⟩
  | closePush =>
      rw [hp] at hs
      cases hs
      exact hi.closePush (hi.closing (by rw [hp]; trivial))
  | closeBroadcast =>
      rw [hp] at hs
      cases hs
      exact hi.closeBroadcast (hi.closing (by rw [hp]; trivial)) (hi.broadcast (.inr hp))
  | left => rw [hp] at hs; cases hs

theorem Inv.condBroadcast (hi : s.Inv) : s.condBroadcast.Inv := by
  rw [Shutdown.condBroadcast]
  split
  · exact hi.moveAway nofun ⟨nofun, nofun, nofun⟩
  · exact hi

theorem condBroadcast_ne_waiting (s : Shutdown) : s.condBroadcast.pub ≠ .waiting := by
  rw [Shutdown.condBroadcast]
  split
  · nofun
  · assumption

/-- A broadcast brings nobody in front of a wait. -/
theorem beforeWait_condBroadcast : s.condBroadcast.BeforeWait ↔ s.BeforeWait := by
  rw [Shutdown.condBroadcast]
  split
  · rename_i hp
    rw [BeforeWait, BeforeWait, hp]
    exact ⟨nofun, nofun⟩
  · exact Iff.rfl

theorem Inv.closerStep (hi : s.Inv) (ht : s.Timely .closer) (hs : s.closerStep = some s') :
    s'.Inv := by
  rw [Shutdown.closerStep] at hs
  cases hc : s.closer with
  | idle =>
      rw [hc] at hs
      cases hs
      exact { hi with
        closer := fun _ => rfl
        closing := fun _ => rfl
        broadcast := fun h => hi.broadcast (.inr (h.resolve_left nofun))
        signalled := fun h => ⟨rfl, (hi.signalled h).2⟩ }
  | test =>
      rw [hc] at hs
      cases hs
      have hcond : s.cond = false := hi.closer (by rw [hc]; nofun)
      refine { hi with
        closer := fun _ => hcond
        broadcast := fun h => hi.broadcast (.inr (h.resolve_left ?_)) }
      dsimp only
      split <;> nofun
  | push =>
      rw [hc] at hs
      cases hs
      have hcond : s.cond = false := hi.closer (by rw [hc]; nofun)
      exact { hi.pushEnd with
        closer := fun _ => hcond
        broadcast := fun _ => rfl }
  | broadcast =>
      rw [hc] at hs
      cases hs
      have hcond : s.cond = false := hi.closer (by rw [hc]; nofun)
      have hpublish : s.publish = false := hi.broadcast (.inl hc)
      exact { hi.condBroadcast with
        closer := fun _ => hcond
        broadcast := fun _ => hpublish
        signalled := fun _ => ⟨hcond, hpublish, condBroadcast_ne_waiting s, fun h =>
          ht hc (beforeWait_condBroadcast.mp h)⟩ }
  | finished => rw [hc] at hs; cases hs
  | released => rw [hc] at hs; cases hs

/-- A packet is added before the closing side has begun, and not while the
publisher has the mutex. -/
theorem Inv.add (hi : s.Inv) (hcond : s.cond = true) (hp : s.pub ≠ .willWait) (q : Nat) :
    Inv { s with queue := q } :=
  { hi with
    empty := fun h => absurd h hp
    signalled := fun h => nomatch hcond.symm.trans (hi.signalled h).1 }

theorem Inv.step (hi : s.Inv) (ht : s.Timely a) (hs : s.step a = some s') : s'.Inv := by
  cases a with
  | publisher sendFails => exact hi.publisherStep hs
  | closer => exact hi.closerStep ht hs
  | add =>
      rw [Shutdown.step] at hs
      split at hs
      case isFalse => cases hs
      rename_i h
      obtain ⟨hcond, -, hp, -⟩ := h
      cases hs
      split
      · refine hi.condBroadcast.add hcond ?_ _
        intro hw
        rw [Shutdown.condBroadcast] at hw
        split at hw
        · cases hw
        · exact hp hw
      · exact hi.add hcond hp _
  | wake =>
      rw [Shutdown.step] at hs
      split at hs
      · cases hs
        exact hi.moveAway nofun ⟨nofun, nofun, nofun⟩
      · cases hs

/-! ## Runs -/

/-- In front of the wait, with everything else done, the publisher goes on to
wait. -/
theorem missed_of_beforeWait (hpub : s.pubCond = false) (hsig : s.signalled = true)
    (hb : s.BeforeWait) (hempty : s.pub = .willWait → s.queue = 0) :
    ∃ as s', System.run step s as = some s' ∧ s'.Missed := by
  have hwait : ∀ t : Shutdown, t.pub = .willWait →
      t.step (.publisher false) = some { t with pub := .waiting } := by
    intro t ht
    rw [step, publisherStep, ht]
  rcases hb with hp | ⟨hp, hq⟩
  · refine ⟨[.publisher false], { s with pub := .waiting }, ?_, hpub, hsig, rfl, hempty hp⟩
    rw [System.run_cons (hwait s hp)]
    rfl
  · have hlock : s.step (.publisher false) = some { s with pub := .willWait } := by
      rw [step, publisherStep, hp]
      dsimp only
      rw [if_pos hq]
    refine ⟨[.publisher false, .publisher false], { s with pub := .waiting }, ?_, hpub, hsig, rfl,
      hq⟩
    rw [System.run_cons hlock, System.run_cons (hwait _ rfl)]
    rfl

/-- A broadcast before the wait can be missed. -/
theorem Inv.missed_of_not_timely (hi : s.Inv) (hs : s.step a = some s') (ht : ¬ s.Timely a) :
    ∃ as s'', System.run Shutdown.step s' as = some s'' ∧ s''.Missed := by
  cases a with
  | closer =>
      rw [Timely, Classical.not_imp, not_not] at ht
      obtain ⟨hc, hb⟩ := ht
      rw [Shutdown.step, Shutdown.closerStep, hc] at hs
      cases hs
      have hpub : s.pubCond = false := hi.pushed (hi.broadcast (.inl hc))
      have hb' := beforeWait_condBroadcast.mpr hb
      exact missed_of_beforeWait hpub rfl hb' hi.condBroadcast.empty
  | publisher sendFails => exact absurd trivial ht
  | add => exact absurd trivial ht
  | wake => exact absurd trivial ht

/-- In a run whose broadcast comes in time the publisher does not miss it; and
every other broadcast may be missed. -/
theorem timely_run_not_missed {as : List ShutdownStep}
    (ht : System.Along step Timely (init n) as) (hr : System.run step (init n) as = some s) :
    ¬ s.Missed ∧ ∀ a s', s.step a = some s' → ¬ s.Timely a →
      ∃ as' s'', System.run step s' as' = some s'' ∧ s''.Missed := by
  have hi : s.Inv := System.run_keeps (fun _ s => s.Inv)
    (fun _ _ _ _ hi ht hs => hi.step ht hs) (inv_init n) ht hr
  exact ⟨hi.not_missed, fun a s' hs hno => hi.missed_of_not_timely hs hno⟩

/-- The publisher waits, the peer closes, and the publisher leaves its loop. -/
def timelyRun : List ShutdownStep :=
  [.publisher false, .publisher false, .publisher false, .closer, .closer, .closer, .closer,
    .publisher false, .publisher false, .publisher false]

theorem timely_run_not_missed_timelyRun :
    ∃ s, System.run step (init 0) timelyRun = some s ∧ s.pub = .left ∧ ¬ s.Missed := by
  have hrun : (System.run step (init 0) timelyRun).map (fun s => s.pub) = some .left := by decide
  obtain ⟨s, hs, hleft⟩ := Option.map_eq_some_iff.mp hrun
  exact ⟨s, hs, hleft, (timely_run_not_missed (by decide) hs).1⟩

/-- The publisher tests its `cond`, the peer closes and everything is broadcast,
and then the publisher waits. -/
theorem broadcast_missed : ¬ ∀ n as s, System.run step (init n) as = some s → ¬ s.Missed := by
  intro h
  have hrun : (System.run step (init 0) [.publisher false, .closer, .closer, .closer, .closer,
      .publisher false, .publisher false]).map (fun s => (s.pubCond, s.signalled, s.pub, s.queue)) =
      some (false, true, .waiting, 0) := by
    decide
  obtain ⟨s, hs, hstate⟩ := Option.map_eq_some_iff.mp hrun
  injection hstate with hpub hstate
  injection hstate with hsig hstate
  injection hstate with hwaiting hempty
  exact h 0 _ s hs ⟨hpub, hsig, hwaiting, hempty⟩

end Shutdown

end VmpSa
