import VmpSa.Jt1078.Input
import VmpSa.Lib.System

/-!
# The life cycle of a stream node

Three threads can end a stream node: the socket thread with an event, the HTTP
thread with a failed URL query, and the publisher thread with a failed send or
its own end.  Each of them looks at `publish` to decide whether the node is
released at once or left to the publisher thread, and `publish` is `NULL`
before the URL is known as well as after `rtmp_push_end`.

The bufferevent is created with `BEV_OPT_DEFER_CALLBACKS`: an event that is
pending when another thread disables the bufferevent is still delivered, until
`bufferevent_free` clears the callbacks.  A second event is not: the callback
itself disables the bufferevent.

`Orderly` names the steps that go well.  `orderly_run_safe` is about runs of
such steps, and `unsafe_of_not_orderly` says that after any other step the
node can be used after its release.
-/

namespace VmpSa

/-! ## The model -/

/-- The publisher thread: not started, before the test of its `cond`, in
`rtma_publish_proc`, after the loop, or ended. -/
inductive PubThread where
  | absent
  | testing
  | inside
  | leaving
  | ended
  deriving DecidableEq

/-- A stream node and its publisher. -/
structure NodeLife where
  conn : Conn
  cond : Bool
  /-- `publish` is not `NULL`. -/
  publish : Bool
  /-- The replies delivered to `url_query_callback`. -/
  answered : Nat
  /-- A closing event has been delivered. -/
  eventDone : Bool
  bevFreed : Bool
  /-- `cond` of the publisher. -/
  pubCond : Bool
  thread : PubThread
  /-- How often `h264_stream_release` was executed. -/
  releases : Nat
  /-- A step read or wrote the node after its release. -/
  usedAfter : Bool

/-- `bll_h264_create` and `bll_h264_start` -/
def NodeLife.init : NodeLife where
  conn := Conn.init
  cond := true
  publish := false
  answered := 0
  eventDone := false
  bevFreed := false
  pubCond := false
  thread := .absent
  releases := 0
  usedAfter := false

inductive NodeStep where
  /-- the data callback, with the bytes that have come in -/
  | data (chunk : List UInt8)
  /-- the event callback, with its event bits -/
  | event (what : UInt16)
  /-- a reply to the URL query -/
  | reply (success : Bool)
  /-- `while (thiz->cond)` in the publisher thread -/
  | test
  /-- `rtma_publish_proc`, with a send that fails or one that does not -/
  | iterate (sendFails : Bool)
  /-- `rtmp_publish_release` at the end of the publisher thread -/
  | exit

namespace NodeLife

/-- Every step that reads or writes the node goes through here. -/
def touch (s : NodeLife) : NodeLife :=
  { s with usedAfter := s.usedAfter || decide (0 < s.releases) }

def h264StreamRelease (s : NodeLife) : NodeLife :=
  { s with releases := s.releases + 1, bevFreed := true }

def rtmpPushEnd (s : NodeLife) : NodeLife :=
  { s with pubCond := if s.publish then false else s.pubCond, publish := false }

def rtmpPushStart (s : NodeLife) : NodeLife :=
  { s with publish := true, pubCond := true, thread := .testing }

/-- Leave the node to the publisher thread, or release it. -/
def pushEndOrRelease (s : NodeLife) : NodeLife :=
  if s.publish then s.rtmpPushEnd else s.h264StreamRelease

def clientConnectionClose (s : NodeLife) (immediately : Bool) : NodeLife :=
  if immediately then { s with cond := false }.h264StreamRelease
  else { s with cond := false }.pushEndOrRelease

/-- `BEV_EVENT_CONNECTED` without `EOF`, `ERROR` or `TIMEOUT`: the only event
that does not close. -/
def connectedOnly (what : UInt16) : Bool :=
  what &&& 0x10 = 0 ∧ what &&& 0x20 = 0 ∧ what &&& 0x40 = 0 ∧ what &&& 0x80 ≠ 0

def streamSocketEventcb (s : NodeLife) (what : UInt16) : NodeLife :=
  if connectedOnly what then s
  else { s with cond := false, eventDone := true }.pushEndOrRelease

def urlQueryCallback (s : NodeLife) (success : Bool) : NodeLife :=
  if success then s.rtmpPushStart else s.clientConnectionClose true

/-- `list_traverse`: a failed send closes the node. -/
def listTraverse (s : NodeLife) (sendFails : Bool) : NodeLife :=
  if sendFails then s.clientConnectionClose false else s

/-- One step, where the code allows it. -/
def step (s : NodeLife) : NodeStep → Option NodeLife
  | .data chunk =>
      if s.bevFreed then none
      else
        let conn := { s.conn with input := s.conn.input ++ chunk }
        some { s.touch with conn := streamInputHandler (fun _ => s.cond) conn }
  | .event what =>
      if s.bevFreed ∨ s.eventDone then none else some (s.touch.streamSocketEventcb what)
  | .reply success =>
      if s.answered < s.conn.queries.length then
        some ({ s.touch with answered := s.answered + 1 }.urlQueryCallback success)
      else none
  | .test =>
      match s.thread with
      | .testing => some { s with thread := if s.pubCond then .inside else .leaving }
      | _ => none
  | .iterate sendFails =>
      match s.thread with
      | .inside => some { s.touch.listTraverse sendFails with thread := .testing }
      | _ => none
  | .exit =>
      match s.thread with
      | .leaving => some { s.touch.h264StreamRelease with thread := .ended }
      | _ => none

/-- Released at most once, and not used afterwards. -/
def Safe (s : NodeLife) : Prop := s.releases ≤ 1 ∧ s.usedAfter = false

/-- A URL query has been sent and not been answered. -/
def QueryOpen (s : NodeLife) : Prop := s.answered < s.conn.queries.length

/-- The steps that go well: a closing event only while `cond` is set and no URL
query is open, and a failing send only while `cond` is set. -/
def Orderly (s : NodeLife) : NodeStep → Prop
  | .event what => connectedOnly what = false → s.cond = true ∧ ¬ s.QueryOpen
  | .iterate true => s.cond = true
  | _ => True

instance (s : NodeLife) : Decidable s.QueryOpen := inferInstanceAs (Decidable (_ < _))

instance (s : NodeLife) : ∀ a, Decidable (s.Orderly a)
  | .event what => inferInstanceAs (Decidable (connectedOnly what = false → _ ∧ _))
  | .iterate true => inferInstanceAs (Decidable (s.cond = true))
  | .iterate false => inferInstanceAs (Decidable True)
  | .data _ => inferInstanceAs (Decidable True)
  | .reply _ => inferInstanceAs (Decidable True)
  | .test => inferInstanceAs (Decidable True)
  | .exit => inferInstanceAs (Decidable True)

/-! ## Phases -/

/-- What a node goes through: open until the URL is known, publishing until
something closes it, closing until the publisher thread has ended, released. -/
inductive Phase where
  | opened
  | publishing
  | closing
  | released

/-- The node is in a phase. -/
def In (s : NodeLife) : Phase → Prop
  | .opened => s.releases = 0 ∧ s.cond = true ∧ s.publish = false ∧ s.answered = 0 ∧
      s.thread = .absent
  | .publishing => s.releases = 0 ∧ s.cond = true ∧ s.publish = true ∧ s.pubCond = true ∧
      s.answered = s.conn.queries.length ∧ s.conn.queries ≠ [] ∧
      (s.thread = .testing ∨ s.thread = .inside)
  | .closing => s.releases = 0 ∧ s.cond = false ∧ s.publish = false ∧ s.pubCond = false ∧
      s.answered = s.conn.queries.length ∧
      (s.thread = .testing ∨ s.thread = .inside ∨ s.thread = .leaving)
  | .released => s.releases = 1 ∧ s.bevFreed = true ∧ s.conn.queries.length ≤ s.answered ∧
      (s.thread = .absent ∨ s.thread = .ended)

/-- The invariant of orderly runs. -/
structure Inv (s : NodeLife) : Prop where
  phase : ∃ p, s.In p
  asked : s.conn.AskedOnce
  unused : s.usedAfter = false

variable {s s' : NodeLife} {a : NodeStep}

theorem inv_init : init.Inv where
  phase := ⟨.opened, rfl, rfl, rfl, rfl, rfl⟩
  asked := askedOnce_init
  unused := rfl

theorem Inv.safe (hi : s.Inv) : s.Safe := by
  refine ⟨?_, hi.unused⟩
  obtain ⟨p, hp⟩ := hi.phase
  cases p with
  | opened => exact hp.1 ▸ Nat.zero_le 1
  | publishing => exact hp.1 ▸ Nat.zero_le 1
  | closing => exact hp.1 ▸ Nat.zero_le 1
  | released => exact Nat.le_of_eq hp.1

theorem touch_of_unreleased (h : s.releases = 0) : s.touch = s := by
  have hsame : (s.usedAfter || decide (0 < s.releases)) = s.usedAfter := by
    rw [h, decide_eq_false (Nat.lt_irrefl 0), Bool.or_false]
  rw [touch, hsame]

/-- Before its release a node can be touched. -/
theorem Inv.touch_eq (hi : s.Inv) (hb : ¬ (s.bevFreed = true ∧ s.conn.queries.length ≤ s.answered ∧
    (s.thread = .absent ∨ s.thread = .ended))) : s.touch = s := by
  obtain ⟨p, hp⟩ := hi.phase
  cases p with
  | opened => exact touch_of_unreleased hp.1
  | publishing => exact touch_of_unreleased hp.1
  | closing => exact touch_of_unreleased hp.1
  | released => exact absurd hp.2 hb

/-! ## One step -/

theorem Inv.data (hi : s.Inv) {chunk : List UInt8} (hs : s.step (.data chunk) = some s') :
    s'.Inv := by
  rw [step] at hs
  split at hs
  · cases hs
  rename_i hfreed
  rw [hi.touch_eq fun h => hfreed h.1] at hs
  cases hs
  have hasked : Conn.AskedOnce { s.conn with input := s.conn.input ++ chunk } :=
    ⟨hi.asked.sim, hi.asked.once⟩
  obtain ⟨hasked', hsame⟩ := hasked.handler
  obtain ⟨p, hp⟩ := hi.phase
  cases p with
  | opened =>
      rw [hp.2.1]
      exact ⟨⟨.opened, hp⟩, hasked', hi.unused⟩
  | publishing =>
      obtain ⟨hrel, hcond, hpub, hpc, hans, hne, hthread⟩ := hp
      have hq := hsame hne
      rw [hcond]
      refine ⟨⟨.publishing, hrel, hcond, hpub, hpc, ?_, ?_, hthread⟩, hasked', hi.unused⟩
      · exact hans.trans (congrArg List.length hq.symm)
      · exact fun h => hne (hq.symm.trans h)
  | closing =>
      rw [hp.2.1]
      exact ⟨⟨.closing, hp⟩, hasked, hi.unused⟩
  | released => exact absurd hp.2.1 hfreed

theorem Inv.event (hi : s.Inv) {what : UInt16} (ho : s.Orderly (.event what))
    (hs : s.step (.event what) = some s') : s'.Inv := by
  rw [step] at hs
  split at hs
  · cases hs
  rename_i hfreed
  rw [hi.touch_eq fun h => hfreed (.inl h.1)] at hs
  cases hs
  rw [streamSocketEventcb]
  split
  · exact hi
  rename_i hcloses
  obtain ⟨hcond, hnone⟩ := ho (Bool.eq_false_iff.mpr hcloses)
  have hle := Nat.le_of_not_lt hnone
  rw [pushEndOrRelease]
  obtain ⟨p, hp⟩ := hi.phase
  cases p with
  | opened =>
      obtain ⟨hrel, -, hpub, hans, hthread⟩ := hp
      rw [if_neg (by rw [hpub]; decide)]
      refine ⟨⟨.released, ?_, rfl, hle, .inl hthread⟩, hi.asked, hi.unused⟩
      exact congrArg (· + 1) hrel
  | publishing =>
      obtain ⟨hrel, -, hpub, hpc, hans, hne, hthread⟩ := hp
      rw [if_pos hpub]
      refine ⟨⟨.closing, hrel, rfl, rfl, if_pos hpub, hans, ?_⟩, hi.asked, hi.unused⟩
      exact hthread.imp_right .inl
  | closing => exact nomatch hcond.symm.trans hp.2.1
  | released => exact absurd (Or.inl hp.2.1) hfreed

theorem Inv.reply (hi : s.Inv) {success : Bool} (hs : s.step (.reply success) = some s') :
    s'.Inv := by
  rw [step] at hs
  split at hs
  case isFalse => cases hs
  rename_i hopen
  rw [hi.touch_eq fun h => absurd hopen (Nat.not_lt.mpr h.2.1)] at hs
  cases hs
  obtain ⟨p, hp⟩ := hi.phase
  cases p with
  | opened =>
      obtain ⟨hrel, hcond, hpub, hans, hthread⟩ := hp
      have hone : s.conn.queries.length = 1 := by
        have honce := hi.asked.once
        omega
      cases success with
      | true =>
          refine ⟨⟨.publishing, hrel, hcond, rfl, rfl, ?_, ?_, .inl rfl⟩, hi.asked, hi.unused⟩
          · exact (congrArg (· + 1) hans).trans hone.symm
          · exact List.ne_nil_of_length_eq_add_one hone
      | false =>
          refine ⟨⟨.released, congrArg (· + 1) hrel, rfl, ?_, .inl hthread⟩, hi.asked, hi.unused⟩
          exact Nat.le_of_eq (hone.trans (congrArg (· + 1) hans).symm)
  | publishing => exact absurd hopen (Nat.not_lt.mpr (Nat.le_of_eq hp.2.2.2.2.1.symm))
  | closing => exact absurd hopen (Nat.not_lt.mpr (Nat.le_of_eq hp.2.2.2.2.1.symm))
  | released => exact absurd hopen (Nat.not_lt.mpr hp.2.2.1)

theorem Inv.test (hi : s.Inv) (hs : s.step .test = some s') : s'.Inv := by
  rw [step] at hs
  split at hs
  case h_2 => cases hs
  rename_i hthread
  cases hs
  obtain ⟨p, hp⟩ := hi.phase
  cases p with
  | opened => exact nomatch hthread.symm.trans hp.2.2.2.2
  | publishing =>
      obtain ⟨hrel, hcond, hpub, hpc, hans, hne, -⟩ := hp
      exact ⟨⟨.publishing, hrel, hcond, hpub, hpc, hans, hne, .inr (if_pos hpc)⟩, hi.asked,
        hi.unused⟩
  | closing =>
      obtain ⟨hrel, hcond, hpub, hpc, hans, -⟩ := hp
      have hleave : (if s.pubCond then PubThread.inside else .leaving) = .leaving :=
        if_neg (by rw [hpc]; decide)
      exact ⟨⟨.closing, hrel, hcond, hpub, hpc, hans, .inr (.inr hleave)⟩, hi.asked, hi.unused⟩
  | released =>
      rcases hp.2.2.2 with h | h
      · exact nomatch hthread.symm.trans h
      · exact nomatch hthread.symm.trans h

theorem Inv.iterate (hi : s.Inv) {sendFails : Bool} (ho : s.Orderly (.iterate sendFails))
    (hs : s.step (.iterate sendFails) = some s') : s'.Inv := by
  rw [step] at hs
  split at hs
  case h_2 => cases hs
  rename_i hthread
  have hrunning : ¬ (s.thread = .absent ∨ s.thread = .ended) := by
    rw [hthread]
    nofun
  rw [hi.touch_eq fun h => hrunning h.2.2] at hs
  cases hs
  obtain ⟨p, hp⟩ := hi.phase
  cases p with
  | opened => exact absurd (.inl hp.2.2.2.2) hrunning
  | publishing =>
      obtain ⟨hrel, hcond, hpub, hpc, hans, hne, -⟩ := hp
      cases sendFails with
      | false =>
          exact ⟨⟨.publishing, hrel, hcond, hpub, hpc, hans, hne, .inl rfl⟩, hi.asked, hi.unused⟩
      | true =>
          have hend : s.listTraverse true = { s with cond := false }.rtmpPushEnd := if_pos hpub
          rw [hend]
          exact ⟨⟨.closing, hrel, rfl, rfl, if_pos hpub, hans, .inl rfl⟩, hi.asked, hi.unused⟩
  | closing =>
      obtain ⟨hrel, hcond, hpub, hpc, hans, -⟩ := hp
      cases sendFails with
      | false =>
          exact ⟨⟨.closing, hrel, hcond, hpub, hpc, hans, .inl rfl⟩, hi.asked, hi.unused⟩
      | true => exact nomatch hcond.symm.trans ho
  | released => exact absurd hp.2.2.2 hrunning

theorem Inv.exit (hi : s.Inv) (hs : s.step .exit = some s') : s'.Inv := by
  rw [step] at hs
  split at hs
  case h_2 => cases hs
  rename_i hthread
  obtain ⟨p, hp⟩ := hi.phase
  cases p with
  | opened => exact nomatch hthread.symm.trans hp.2.2.2.2
  | publishing =>
      rcases hp.2.2.2.2.2.2 with h | h
      · exact nomatch hthread.symm.trans h
      · exact nomatch hthread.symm.trans h
  | closing =>
      obtain ⟨hrel, hcond, hpub, hpc, hans, -⟩ := hp
      rw [touch_of_unreleased hrel] at hs
      cases hs
      exact ⟨⟨.released, congrArg (· + 1) hrel, rfl, Nat.le_of_eq hans.symm, .inr rfl⟩, hi.asked,
        hi.unused⟩
  | released =>
      rcases hp.2.2.2 with h | h
      · exact nomatch hthread.symm.trans h
      · exact nomatch hthread.symm.trans h

theorem Inv.step (hi : s.Inv) (ho : s.Orderly a) (hs : s.step a = some s') : s'.Inv := by
  cases a with
  | data chunk => exact hi.data hs
  | event what => exact hi.event ho hs
  | reply success => exact hi.reply hs
  | test => exact hi.test hs
  | iterate sendFails => exact hi.iterate ho hs
  | exit => exact hi.exit hs

/-! ## The other steps -/

theorem used_touch (h : 0 < s.releases) : s.touch.usedAfter = true := by
  rw [touch, decide_eq_true h, Bool.or_true]

theorem not_safe_of_used (h : s.usedAfter = true) : ¬ s.Safe := by
  intro hsafe
  exact nomatch h.symm.trans hsafe.2

/-- A publisher thread that outlives the node uses it. -/
theorem unsafe_of_thread (hrel : 0 < s.releases) (hpc : s.pubCond = false)
    (hthread : s.thread = .testing ∨ s.thread = .inside ∨ s.thread = .leaving) :
    ∃ as s', System.run step s as = some s' ∧ ¬ s'.Safe := by
  have hexit : ∀ t : NodeLife, 0 < t.releases → t.thread = .leaving →
      ∃ t', t.step .exit = some t' ∧ ¬ t'.Safe := by
    intro t ht hl
    refine ⟨{ t.touch.h264StreamRelease with thread := .ended }, by rw [step, hl], ?_⟩
    exact not_safe_of_used (used_touch ht)
  rcases hthread with ht | ht | ht
  · have htest : s.step .test = some { s with thread := .leaving } := by
      rw [step, ht, hpc]
      rfl
    obtain ⟨t', hs, hbad⟩ := hexit { s with thread := .leaving } hrel rfl
    exact ⟨[.test, .exit], t', by rw [System.run_cons htest, System.run_cons hs]; rfl, hbad⟩
  · have hiter : s.step (.iterate false) = some { s.touch with thread := .testing } := by
      rw [step, ht]
      rfl
    refine ⟨[.iterate false], _, by rw [System.run_cons hiter]; rfl, ?_⟩
    exact not_safe_of_used (used_touch hrel)
  · obtain ⟨t', hs, hbad⟩ := hexit s hrel ht
    exact ⟨[.exit], t', by rw [System.run_cons hs]; rfl, hbad⟩

/-- A reply to the query of a released node uses it. -/
theorem unsafe_of_query (hrel : 0 < s.releases) (hopen : s.QueryOpen) :
    ∃ as s', System.run step s as = some s' ∧ ¬ s'.Safe := by
  have hreply : s.step (.reply true) =
      some ({ s.touch with answered := s.answered + 1 }.urlQueryCallback true) := if_pos hopen
  refine ⟨[.reply true], _, by rw [System.run_cons hreply]; rfl, ?_⟩
  exact not_safe_of_used (used_touch hrel)

/-- A closing event that is not orderly releases the node while the HTTP thread
or the publisher thread still has to come back to it. -/
theorem Inv.unsafe_of_event (hi : s.Inv) {what : UInt16} (hs : s.step (.event what) = some s')
    (hcloses : connectedOnly what = false) (hno : ¬ (s.cond = true ∧ ¬ s.QueryOpen)) :
    ∃ as s'', System.run NodeLife.step s' as = some s'' ∧ ¬ s''.Safe := by
  rw [NodeLife.step] at hs
  split at hs
  · cases hs
  rename_i hfreed
  rw [hi.touch_eq fun h => hfreed (.inl h.1), streamSocketEventcb, hcloses, if_neg (by decide),
    pushEndOrRelease] at hs
  obtain ⟨p, hp⟩ := hi.phase
  cases p with
  | opened =>
      rw [if_neg (by rw [hp.2.2.1]; decide)] at hs
      cases hs
      have hopen : s.QueryOpen := by_contra fun h => hno ⟨hp.2.1, h⟩
      exact unsafe_of_query (Nat.succ_pos _) hopen
  | publishing =>
      have hanswered : ¬ s.QueryOpen := Nat.not_lt.mpr (Nat.le_of_eq hp.2.2.2.2.1.symm)
      exact absurd ⟨hp.2.1, hanswered⟩ hno
  | closing =>
      rw [if_neg (by rw [hp.2.2.1]; decide)] at hs
      cases hs
      exact unsafe_of_thread (Nat.succ_pos _) hp.2.2.2.1 hp.2.2.2.2.2
  | released => exact absurd (Or.inl hp.2.1) hfreed

/-- A send that fails after `cond` was cleared releases the node under the
publisher thread. -/
theorem Inv.unsafe_of_iterate (hi : s.Inv) (hs : s.step (.iterate true) = some s')
    (hcond : s.cond ≠ true) :
    ∃ as s'', System.run NodeLife.step s' as = some s'' ∧ ¬ s''.Safe := by
  rw [NodeLife.step] at hs
  split at hs
  case h_2 => cases hs
  rename_i hthread
  obtain ⟨p, hp⟩ := hi.phase
  cases p with
  | opened => exact absurd hp.2.1 hcond
  | publishing => exact absurd hp.2.1 hcond
  | closing =>
      have hrelease : s.listTraverse true = { s with cond := false }.h264StreamRelease := by
        rw [listTraverse, if_pos rfl, clientConnectionClose, if_neg (by decide), pushEndOrRelease,
          if_neg (by rw [hp.2.2.1]; decide)]
      rw [touch_of_unreleased hp.1, hrelease] at hs
      cases hs
      exact unsafe_of_thread (Nat.succ_pos _) hp.2.2.2.1 (.inl rfl)
  | released =>
      rcases hp.2.2.2 with h | h
      · exact nomatch hthread.symm.trans h
      · exact nomatch hthread.symm.trans h

theorem Inv.unsafe_of_not_orderly (hi : s.Inv) (hs : s.step a = some s') (ho : ¬ s.Orderly a) :
    ∃ as s'', System.run NodeLife.step s' as = some s'' ∧ ¬ s''.Safe := by
  cases a with
  | event what =>
      rw [Orderly, Classical.not_imp] at ho
      exact hi.unsafe_of_event hs ho.1 ho.2
  | iterate sendFails =>
      cases sendFails with
      | true => exact hi.unsafe_of_iterate hs ho
      | false => exact absurd trivial ho
  | data chunk => exact absurd trivial ho
  | reply success => exact absurd trivial ho
  | test => exact absurd trivial ho
  | exit => exact absurd trivial ho

/-- In a run of orderly steps the node is released at most once and not used
afterwards; and no more steps than these can be allowed. -/
theorem orderly_run_safe {as : List NodeStep} (ho : System.Along step Orderly init as)
    (hr : System.run step init as = some s) :
    s.Safe ∧ ∀ a s', s.step a = some s' → ¬ s.Orderly a →
      ∃ as' s'', System.run step s' as' = some s'' ∧ ¬ s''.Safe := by
  have hi : s.Inv := System.run_keeps (fun _ s => s.Inv)
    (fun _ _ _ _ hi ho hs => hi.step ho hs) inv_init ho hr
  exact ⟨hi.safe, fun a s' hs hno => hi.unsafe_of_not_orderly hs hno⟩

/-- The smallest packet: a header and one byte. -/
def firstPacket : List UInt8 := [0x30, 0x31, 0x63, 0x64] ++ List.replicate 25 0 ++ [1, 0xaa]

/-- The URL is found, a packet is published, the peer closes and the publisher
thread ends. -/
def plainRun : List NodeStep :=
  [.data firstPacket, .reply true, .test, .iterate false, .event 0x11, .test, .exit]

theorem orderly_run_safe_plainRun :
    ∃ s, System.run step init plainRun = some s ∧ s.releases = 1 ∧ s.Safe := by
  have hrun : (System.run step init plainRun).map (fun s => s.releases) = some 1 := by
    decide +kernel
  obtain ⟨s, hs, hone⟩ := Option.map_eq_some_iff.mp hrun
  have ho : System.Along step Orderly init plainRun := by decide +kernel
  exact ⟨s, hs, hone, (orderly_run_safe ho hs).1⟩

/-- The peer closes while the URL query is open, and the reply comes. -/
theorem reply_after_release :
    ¬ ∀ as s, System.run step init as = some s → s.Safe := by
  intro h
  have hrun : (System.run step init [.data firstPacket, .event 0x11, .reply true]).map
      (fun s => s.usedAfter) = some true := by
    decide +kernel
  obtain ⟨s, hs, hused⟩ := Option.map_eq_some_iff.mp hrun
  exact not_safe_of_used hused (h _ s hs)

end NodeLife

end VmpSa
