import VmpSa.Lib.DList
import VmpSa.Lib.System
import Mathlib.Data.List.Count

/-!
# The packet queue between the socket thread and the publisher

The socket thread appends packets with `list_add_nalu`, the publisher thread
takes them with `list_del_nalu` and destroys them in `list_traverse`, and
`h264_stream_release` empties the queue with a last `list_clear_out`.  All
three run under `list_mutex`; the steps below are the single statements of the
thread that holds it, so that what is between two statements is a state too.

`list_size` is an unbounded integer here: a queue of 2^31 packets does not
exist.  A node stands for one allocation, so a node of its own is added with
every call.
-/

namespace VmpSa

open DList

/-! ## The model -/

/-- Who holds `list_mutex`, and the statement it is at. -/
inductive Holder (A : Type) where
  | free
  /-- `list_add_nalu` -/
  | addTail (nalu : A)
  | addCount
  | addUnlock
  /-- `list_del_nalu`: the test of `list_empty`, then the one of `list_size` -/
  | delEmpty
  | delSize
  | delUnlink (nalu : A)
  | delCount (nalu : A)
  | delUnlock (nalu : A)
  | delUnlockNull (wasEmpty : Bool)
  /-- `list_clear_out`: the test of the loop, then its body -/
  | outTest (pos n : A)
  | outUnlink (pos n : A)
  | outDestroy (pos n : A)
  | outCount (n : A)
  | outUnlock

/-- The publisher thread while it does not hold the mutex. -/
inductive Publisher (A : Type) where
  | ready
  /-- in `pthread_cond_wait` -/
  | waiting
  /-- woken, and about to take the mutex again -/
  | woken
  /-- `list_traverse` with a packet that is not destroyed yet -/
  | sending (nalu : A)

/-- What a call of `list_del_nalu` returned.  With `NULL` goes whether the list
was empty when `list_size` was examined. -/
inductive Returned (A : Type) where
  | nalu (x : A)
  | null (wasEmpty : Bool)

/-- The final `list_clear_out`: to come, under way, or over. -/
inductive Clearing where
  | before
  | during
  | after
  deriving DecidableEq

/-- The queue with both threads.  The last four fields are records of what
happened and are never read. -/
structure Queue (A : Type) where
  naluHead : A
  links : Links A
  listSize : Int
  listMutex : Holder A
  publisher : Publisher A
  clearing : Clearing
  added : List A
  returned : List (Returned A)
  sent : List A
  cleared : List A

/-- A step: a call that gets the mutex, the next statement of the thread that
holds it, the end of a wait that no `list_add_nalu` caused, or the end of
`list_traverse`. -/
inductive QueueStep (A : Type) where
  | add (nalu : A)
  | del
  | clear
  | next
  | wake
  | destroy

variable {A : Type} [DecidableEq A]

/-- `bll_h264_create` -/
def Queue.init (m : Links A) (head : A) : Queue A where
  naluHead := head
  links := initListHead m head
  listSize := 0
  listMutex := .free
  publisher := .ready
  clearing := .before
  added := []
  returned := []
  sent := []
  cleared := []

/-- `pthread_cond_broadcast(&thiz->cond_empty)` -/
def Publisher.broadcast : Publisher A → Publisher A
  | .waiting => .woken
  | p => p

/-- The next statement of the thread that holds the mutex. -/
def Queue.next (s : Queue A) : Holder A → Option (Queue A)
  | .free => none
  | .addTail nalu =>
      some { s with
        links := listAddTail s.links nalu s.naluHead
        added := s.added ++ [nalu]
        listMutex := .addCount }
  | .addCount =>
      some { s with
        listSize := s.listSize + 1
        publisher := if s.listSize = 0 then s.publisher.broadcast else s.publisher
        listMutex := .addUnlock }
  | .addUnlock => some { s with listMutex := .free }
  | .delEmpty =>
      if listEmpty s.links s.naluHead then
        some { s with publisher := .waiting, listMutex := .free }
      else some { s with listMutex := .delSize }
  | .delSize =>
      if s.listSize > 0 then some { s with listMutex := .delUnlink (s.links.next s.naluHead) }
      else some { s with listMutex := .delUnlockNull (listEmpty s.links s.naluHead) }
  | .delUnlink nalu =>
      some { s with
        links := listDel s.links (s.links.next s.naluHead)
        listMutex := .delCount nalu }
  | .delCount nalu => some { s with listSize := s.listSize - 1, listMutex := .delUnlock nalu }
  | .delUnlock nalu =>
      some { s with
        returned := s.returned ++ [.nalu nalu]
        publisher := .sending nalu
        listMutex := .free }
  | .delUnlockNull wasEmpty =>
      some { s with returned := s.returned ++ [.null wasEmpty], listMutex := .free }
  | .outTest pos n =>
      if pos = s.naluHead then some { s with listMutex := .outUnlock }
      else some { s with listMutex := .outUnlink pos n }
  | .outUnlink pos n =>
      some { s with links := listDel s.links pos, listMutex := .outDestroy pos n }
  | .outDestroy pos n =>
      some { s with cleared := s.cleared ++ [pos], listMutex := .outCount n }
  | .outCount n =>
      -- the increment of `list_for_each_safe` reads the node after `n`
      some { s with listSize := s.listSize - 1, listMutex := .outTest n (s.links.next n) }
  | .outUnlock => some { s with listMutex := .free, clearing := .after }

/-- One step.  A packet is added only before the final `list_clear_out`, and it
is a new node. -/
def Queue.step (s : Queue A) : QueueStep A → Option (Queue A)
  | .add nalu =>
      match s.listMutex, s.clearing with
      | .free, .before =>
          if nalu ∈ s.naluHead :: s.added then none
          else some { s with listMutex := .addTail nalu }
      | _, _ => none
  | .del =>
      match s.listMutex, s.publisher with
      | .free, .ready => some { s with listMutex := .delEmpty }
      | .free, .woken => some { s with listMutex := .delSize, publisher := .ready }
      | _, _ => none
  | .clear =>
      match s.listMutex, s.clearing with
      | .free, .before =>
          let pos := s.links.next s.naluHead
          some { s with listMutex := .outTest pos (s.links.next pos), clearing := .during }
      | _, _ => none
  | .next => s.next s.listMutex
  | .wake =>
      match s.publisher with
      | .waiting => some { s with publisher := .woken }
      | _ => none
  | .destroy =>
      match s.publisher with
      | .sending nalu => some { s with sent := s.sent ++ [nalu], publisher := .ready }
      | _ => none

/-- The packet a call returned, if it returned one. -/
def Returned.packet : Returned A → Option A
  | .nalu x => some x
  | .null _ => none

/-- The packets that `list_del_nalu` returned, in order. -/
def Queue.packets (s : Queue A) : List A :=
  s.returned.filterMap Returned.packet

/-- All calls of `destroy`, by the publisher and by `list_clear_out`. -/
def Queue.destroyed (s : Queue A) : List A :=
  s.sent ++ s.cleared

/-- What the queue is for. -/
structure Queue.Faithful (s : Queue A) : Prop where
  /-- The counter is right whenever the mutex is free. -/
  size : s.listMutex = .free → ∃ xs, Ring s.links s.naluHead xs ∧ s.listSize = xs.length
  /-- The publisher gets the packets in order, and none of them twice. -/
  order : s.packets <+: s.added
  once : s.packets.Nodup
  /-- `NULL` is returned only for a list that was empty. -/
  null : ∀ e, Returned.null e ∈ s.returned → e = true
  /-- Afterwards the queue is empty, and what the publisher did not get is
  destroyed exactly once. -/
  after : s.clearing = .after → listEmpty s.links s.naluHead = true ∧ s.listSize = 0 ∧
    ∀ x ∈ s.added, x ∉ s.packets → s.destroyed.count x = 1

/-! ## The invariant -/

/-- Packets on their way from the list to the publisher. -/
def Holder.taken : Holder A → List A
  | .delCount x | .delUnlock x => [x]
  | _ => []

/-- Packets that are out of the list and not destroyed yet. -/
def Holder.detached : Holder A → List A
  | .outDestroy pos _ => [pos]
  | _ => []

/-- How far `list_size` is from the number of linked nodes. -/
def Holder.owed : Holder A → Int
  | .addCount => -1
  | .delCount _ | .outDestroy _ _ | .outCount _ => 1
  | _ => 0

/-- The packet the publisher has and has not destroyed. -/
def Publisher.held : Publisher A → List A
  | .sending x => [x]
  | _ => []

/-- What the thread that holds the mutex knows at its statement, with `xs` the
linked nodes. -/
def Queue.Knows (s : Queue A) (xs : List A) : Holder A → Prop
  | .free => s.clearing ≠ .during
  | .addTail nalu => s.clearing = .before ∧ nalu ∉ s.naluHead :: s.added
  | .addCount | .addUnlock => s.clearing = .before
  | .delEmpty | .delSize => s.clearing ≠ .during ∧ s.publisher = .ready
  | .delUnlink nalu => s.clearing = .before ∧ s.publisher = .ready ∧ ∃ ys, xs = nalu :: ys
  | .delCount _ | .delUnlock _ => s.clearing = .before ∧ s.publisher = .ready
  | .delUnlockNull wasEmpty => s.clearing ≠ .during ∧ s.publisher = .ready ∧ wasEmpty = true
  | .outTest pos n => s.clearing = .during ∧ pos = xs.headD s.naluHead ∧ n = s.links.next pos
  | .outUnlink pos n => s.clearing = .during ∧ ∃ ys, xs = pos :: ys ∧ n = ys.headD s.naluHead
  | .outDestroy _ n | .outCount n => s.clearing = .during ∧ n = xs.headD s.naluHead
  | .outUnlock => s.clearing = .during ∧ xs = []

/-- The invariant of a state whose mutex is with `h`, with `xs` the linked
nodes. -/
structure Queue.Inv (xs : List A) (s : Queue A) (h : Holder A) : Prop where
  ring : Ring s.links s.naluHead xs
  fresh : (s.naluHead :: s.added).Nodup
  fifo : s.added = s.packets ++ (h.taken ++ (s.cleared ++ (h.detached ++ xs)))
  size : s.listSize = xs.length + h.owed
  before : s.clearing = .before → s.cleared = []
  after : s.clearing = .after → xs = []
  held : s.packets = s.sent ++ s.publisher.held
  null : ∀ e, Returned.null e ∈ s.returned → e = true
  knows : s.Knows xs h

variable {m : Links A} {head x pos n : A} {s s' : Queue A} {a : QueueStep A} {xs ys : List A}
  {h : Holder A}

theorem inv_init (m : Links A) (head : A) : (Queue.init m head).Inv [] .free where
  ring := ring_initListHead m head
  fresh := List.nodup_singleton head
  fifo := rfl
  size := rfl
  before _ := rfl
  after _ := rfl
  held := rfl
  null _ h := absurd h List.not_mem_nil
  knows := nofun

omit [DecidableEq A] in
theorem Queue.Inv.mem_added (hi : s.Inv xs h) (hx : x ∈ xs) : x ∈ s.added := by
  rw [hi.fifo]
  simp [hx]

omit [DecidableEq A] in
theorem held_broadcast (p : Publisher A) : p.broadcast.held = p.held := by
  cases p with
  | waiting => rfl
  | ready => rfl
  | woken => rfl
  | sending x => rfl

/-! ## One statement

Each lemma is about the statement in its docstring.  Where the statement is a
test, it is about one outcome. -/

/-- `list_add_tail(&nalu->node, &thiz->nalu_head)` -/
theorem Queue.Inv.addTail (hi : s.Inv xs (.addTail x)) :
    Queue.Inv (xs ++ [x])
      { s with
        links := listAddTail s.links x s.naluHead
        added := s.added ++ [x]
        listMutex := .addCount } .addCount := by
  obtain ⟨hphase, hnew⟩ := hi.knows
  have hx : x ∉ s.naluHead :: xs := by
    intro hmem
    rcases List.mem_cons.mp hmem with rfl | hin
    · exact hnew List.mem_cons_self
    · exact hnew (List.mem_cons_of_mem _ (hi.mem_added hin))
  have hsize : s.listSize = xs.length + 0 := hi.size
  exact { hi with
    ring := hi.ring.listAddTail hx
    fresh := by
      rw [← List.cons_append, List.nodup_append_comm]
      exact List.nodup_cons.mpr ⟨hnew, hi.fresh⟩
    fifo := by
      show s.added ++ [x] = _
      rw [hi.fifo]
      simp [Holder.taken, Holder.detached, Queue.packets]
    size := by
      show s.listSize = (xs ++ [x]).length + -1
      rw [hsize, List.length_append, List.length_singleton]
      omega
    after := fun hp => nomatch hphase.symm.trans hp
    knows := hphase }

omit [DecidableEq A] in
/-- `if (thiz->list_size++ == 0) pthread_cond_broadcast(&thiz->cond_empty)` -/
theorem Queue.Inv.addCount (hi : s.Inv xs .addCount) :
    Queue.Inv xs
      { s with
        listSize := s.listSize + 1
        publisher := if s.listSize = 0 then s.publisher.broadcast else s.publisher
        listMutex := .addUnlock } .addUnlock := by
  have hsize : s.listSize = xs.length + -1 := hi.size
  have hheld : Publisher.held (if s.listSize = 0 then s.publisher.broadcast else s.publisher) =
      s.publisher.held := by
    split
    · exact held_broadcast s.publisher
    · rfl
  exact { hi with
    size := by
      show s.listSize + 1 = xs.length + 0
      omega
    held := hi.held.trans (congrArg (s.sent ++ ·) hheld.symm) }

omit [DecidableEq A] in
/-- `if (thiz->list_size > 0)`, for a list with packets in it -/
theorem Queue.Inv.delSize (hi : s.Inv xs .delSize) (hpos : s.listSize > 0) :
    Queue.Inv xs { s with listMutex := .delUnlink (s.links.next s.naluHead) }
      (.delUnlink (s.links.next s.naluHead)) := by
  obtain ⟨hphase, hpub⟩ := hi.knows
  have hsize : s.listSize = xs.length + 0 := hi.size
  match xs, hi with
  | [], _ => exact absurd hsize (by simp only [List.length_nil]; omega)
  | y :: ys, hi =>
      have hfirst : s.links.next s.naluHead = y := hi.ring.next_head
      have hbefore : s.clearing = .before := by
        cases hc : s.clearing with
        | before => rfl
        | during => exact absurd hc hphase
        | after => exact nomatch hi.after hc
      exact { hi with knows := ⟨hbefore, hpub, ys, by rw [hfirst]⟩ }

/-- `if (thiz->list_size > 0)`, for a list without -/
theorem Queue.Inv.delNull (hi : s.Inv xs .delSize) (hpos : ¬ s.listSize > 0) :
    Queue.Inv xs { s with listMutex := .delUnlockNull (listEmpty s.links s.naluHead) }
      (.delUnlockNull (listEmpty s.links s.naluHead)) := by
  obtain ⟨hphase, hpub⟩ := hi.knows
  have hsize : s.listSize = xs.length + 0 := hi.size
  have hnil : xs = [] := List.length_eq_zero_iff.mp (by omega)
  exact { hi with knows := ⟨hphase, hpub, hi.ring.listEmpty_iff.mpr hnil⟩ }

/-- `list_del(thiz->nalu_head.next)` -/
theorem Queue.Inv.delUnlink (hi : s.Inv xs (.delUnlink x)) :
    ∃ ys, Queue.Inv ys
      { s with
        links := listDel s.links (s.links.next s.naluHead)
        listMutex := .delCount x } (.delCount x) := by
  obtain ⟨hphase, hpub, ys, rfl⟩ := hi.knows
  have hfirst : s.links.next s.naluHead = x := hi.ring.next_head
  have hsize : s.listSize = (x :: ys).length + 0 := hi.size
  have hfifo := hi.fifo
  rw [hi.before hphase] at hfifo
  refine ⟨ys, { hi with
    ring := by
      rw [hfirst]
      exact hi.ring.listDel
    fifo := ?_
    size := ?_
    after := fun hp => nomatch hphase.symm.trans hp
    knows := ⟨hphase, hpub⟩ }⟩
  · show s.added = s.packets ++ ([x] ++ (s.cleared ++ ([] ++ ys)))
    rw [hi.before hphase, hfifo]
    rfl
  · show s.listSize = ys.length + 1
    rw [hsize, List.length_cons]
    omega

omit [DecidableEq A] in
/-- `thiz->list_size--` in `list_del_nalu` -/
theorem Queue.Inv.delCount (hi : s.Inv xs (.delCount x)) :
    Queue.Inv xs { s with listSize := s.listSize - 1, listMutex := .delUnlock x }
      (.delUnlock x) := by
  have hsize : s.listSize = xs.length + 1 := hi.size
  exact { hi with
    size := by
      show s.listSize - 1 = xs.length + 0
      omega }

omit [DecidableEq A] in
/-- `pthread_mutex_unlock` and `return nalu` -/
theorem Queue.Inv.delUnlock (hi : s.Inv xs (.delUnlock x)) :
    Queue.Inv xs
      { s with
        returned := s.returned ++ [.nalu x]
        publisher := .sending x
        listMutex := .free } .free := by
  obtain ⟨hphase, hpub⟩ := hi.knows
  have hpackets : List.filterMap Returned.packet (s.returned ++ [.nalu x]) = s.packets ++ [x] := by
    rw [List.filterMap_append]
    rfl
  have hheld : s.packets = s.sent ++ [] := by
    rw [hi.held, hpub]
    rfl
  exact { hi with
    fifo := by
      show s.added = List.filterMap Returned.packet (s.returned ++ [.nalu x]) ++ _
      rw [hpackets, List.append_assoc]
      exact hi.fifo
    held := by
      show List.filterMap Returned.packet (s.returned ++ [.nalu x]) = s.sent ++ [x]
      rw [hpackets, hheld, List.append_nil]
    null := by
      intro e he
      rcases List.mem_append.mp he with hin | hin
      · exact hi.null e hin
      · simp at hin
    knows := fun hp => nomatch hphase.symm.trans hp }

omit [DecidableEq A] in
/-- `pthread_mutex_unlock` and `return nalu`, which is `NULL` -/
theorem Queue.Inv.delUnlockNull {e : Bool} (hi : s.Inv xs (.delUnlockNull e)) :
    Queue.Inv xs { s with returned := s.returned ++ [.null e], listMutex := .free } .free := by
  obtain ⟨hphase, hpub, hempty⟩ := hi.knows
  have hpackets : List.filterMap Returned.packet (s.returned ++ [.null e]) = s.packets := by
    rw [List.filterMap_append]
    exact List.append_nil _
  exact { hi with
    fifo := by
      show s.added = List.filterMap Returned.packet (s.returned ++ [.null e]) ++ _
      rw [hpackets]
      exact hi.fifo
    held := by
      show List.filterMap Returned.packet (s.returned ++ [.null e]) = _
      rw [hpackets]
      exact hi.held
    null := by
      intro e' he
      rcases List.mem_append.mp he with hin | hin
      · exact hi.null e' hin
      · simp only [List.mem_singleton, Returned.null.injEq] at hin
        rw [hin, hempty]
    knows := hphase }

omit [DecidableEq A] in
/-- `pos != &thiz->nalu_head`, at the end of the list -/
theorem Queue.Inv.outEnd (hi : s.Inv xs (.outTest pos n)) (hpos : pos = s.naluHead) :
    Queue.Inv xs { s with listMutex := .outUnlock } .outUnlock := by
  obtain ⟨hphase, hfirst, -⟩ := hi.knows
  match xs, hi with
  | [], hi => exact { hi with knows := ⟨hphase, rfl⟩ }
  | y :: ys, hi =>
      have hy : s.naluHead = y := hpos.symm.trans hfirst
      exact absurd (List.mem_cons_self (a := y)) (hy ▸ (List.nodup_cons.mp hi.ring.nodup).1)

omit [DecidableEq A] in
/-- `pos != &thiz->nalu_head`, at a packet -/
theorem Queue.Inv.outTest (hi : s.Inv xs (.outTest pos n)) (hpos : pos ≠ s.naluHead) :
    Queue.Inv xs { s with listMutex := .outUnlink pos n } (.outUnlink pos n) := by
  obtain ⟨hphase, hfirst, hn⟩ := hi.knows
  match xs, hi with
  | [], _ => exact absurd hfirst hpos
  | y :: ys, hi =>
      have hy : pos = y := hfirst
      subst hy
      exact { hi with knows := ⟨hphase, ys, rfl, hn.trans hi.ring.next_first⟩ }

/-- `list_del(pos)` -/
theorem Queue.Inv.outUnlink (hi : s.Inv xs (.outUnlink pos n)) :
    ∃ ys, Queue.Inv ys { s with links := listDel s.links pos, listMutex := .outDestroy pos n }
      (.outDestroy pos n) := by
  obtain ⟨hphase, ys, rfl, hn⟩ := hi.knows
  have hsize : s.listSize = (pos :: ys).length + 0 := hi.size
  refine ⟨ys, { hi with
    ring := hi.ring.listDel
    size := ?_
    after := fun hp => nomatch hphase.symm.trans hp
    knows := ⟨hphase, hn⟩ }⟩
  show s.listSize = ys.length + 1
  rw [hsize, List.length_cons]
  omega

omit [DecidableEq A] in
/-- `nalu->destroy(NULL, nalu)` -/
theorem Queue.Inv.outDestroy (hi : s.Inv xs (.outDestroy pos n)) :
    Queue.Inv xs { s with cleared := s.cleared ++ [pos], listMutex := .outCount n }
      (.outCount n) := by
  obtain ⟨hphase, hn⟩ := hi.knows
  exact { hi with
    fifo := by
      show s.added = s.packets ++ ([] ++ (s.cleared ++ [pos] ++ ([] ++ xs)))
      rw [List.append_assoc]
      exact hi.fifo
    before := fun hp => nomatch hphase.symm.trans hp
    knows := ⟨hphase, hn⟩ }

omit [DecidableEq A] in
/-- `thiz->list_size--` in `list_clear_out`, and the step of the loop -/
theorem Queue.Inv.outCount (hi : s.Inv xs (.outCount n)) :
    Queue.Inv xs
      { s with listSize := s.listSize - 1, listMutex := .outTest n (s.links.next n) }
      (.outTest n (s.links.next n)) := by
  obtain ⟨hphase, hn⟩ := hi.knows
  have hsize : s.listSize = xs.length + 1 := hi.size
  exact { hi with
    size := by
      show s.listSize - 1 = xs.length + 0
      omega
    knows := ⟨hphase, hn, rfl⟩ }

omit [DecidableEq A] in
/-- `pthread_mutex_unlock` at the end of `list_clear_out` -/
theorem Queue.Inv.outUnlock (hi : s.Inv xs .outUnlock) :
    Queue.Inv xs { s with listMutex := .free, clearing := .after } .free :=
  { hi with
    before := nofun
    after := fun _ => hi.knows.2
    knows := nofun }

/-! ## Steps and runs -/

omit [DecidableEq A] in
/-- While the publisher is not ready it does not hold the mutex. -/
theorem Queue.Knows.publisher (hk : s.Knows xs h) (hp : s.publisher ≠ .ready) (p : Publisher A) :
    Queue.Knows { s with publisher := p } xs h := by
  cases h with
  | delEmpty => exact absurd hk.2 hp
  | delSize => exact absurd hk.2 hp
  | delUnlink x => exact absurd hk.2.1 hp
  | delCount x => exact absurd hk.2 hp
  | delUnlock x => exact absurd hk.2 hp
  | delUnlockNull e => exact absurd hk.2.1 hp
  | _ => exact hk

/-- A statement of the thread with the mutex keeps the invariant. -/
theorem Queue.Inv.next (hi : s.Inv xs h) (hn : s.next h = some s') :
    ∃ ys, s'.Inv ys s'.listMutex := by
  cases h with
  | free => cases hn
  | addTail x => cases hn; exact ⟨_, hi.addTail⟩
  | addCount => cases hn; exact ⟨xs, hi.addCount⟩
  | addUnlock =>
      cases hn
      exact ⟨xs, { hi with knows := fun hp => nomatch hi.knows.symm.trans hp }⟩
  | delEmpty =>
      obtain ⟨hphase, hpub⟩ := hi.knows
      rw [Queue.next] at hn
      split at hn <;> cases hn
      · refine ⟨xs, { hi with held := hi.held.trans ?_, knows := hphase }⟩
        rw [hpub]
        rfl
      · exact ⟨xs, { hi with knows := ⟨hphase, hpub⟩ }⟩
  | delSize =>
      rw [Queue.next] at hn
      by_cases hpos : s.listSize > 0
      · rw [if_pos hpos] at hn
        cases hn
        exact ⟨xs, hi.delSize hpos⟩
      · rw [if_neg hpos] at hn
        cases hn
        exact ⟨xs, hi.delNull hpos⟩
  | delUnlink x => cases hn; exact hi.delUnlink
  | delCount x => cases hn; exact ⟨xs, hi.delCount⟩
  | delUnlock x => cases hn; exact ⟨xs, hi.delUnlock⟩
  | delUnlockNull e => cases hn; exact ⟨xs, hi.delUnlockNull⟩
  | outTest pos n =>
      rw [Queue.next] at hn
      by_cases hpos : pos = s.naluHead
      · rw [if_pos hpos] at hn
        cases hn
        exact ⟨xs, hi.outEnd hpos⟩
      · rw [if_neg hpos] at hn
        cases hn
        exact ⟨xs, hi.outTest hpos⟩
  | outUnlink pos n => cases hn; exact hi.outUnlink
  | outDestroy pos n => cases hn; exact ⟨xs, hi.outDestroy⟩
  | outCount n => cases hn; exact ⟨xs, hi.outCount⟩
  | outUnlock => cases hn; exact ⟨xs, hi.outUnlock⟩

/-- Every step keeps the invariant. -/
theorem Queue.Inv.step (hi : s.Inv xs s.listMutex) (hs : s.step a = some s') :
    ∃ ys, s'.Inv ys s'.listMutex := by
  cases a with
  | add nalu =>
      rw [Queue.step] at hs
      split at hs
      · rename_i hm hphase
        rw [hm] at hi
        split at hs
        · cases hs
        · cases hs
          exact ⟨xs, { hi with knows := ⟨hphase, ‹_›⟩ }⟩
      · cases hs
  | del =>
      rw [Queue.step] at hs
      split at hs
      · rename_i hm hpub
        rw [hm] at hi
        cases hs
        exact ⟨xs, { hi with knows := ⟨hi.knows, hpub⟩ }⟩
      · rename_i hm hpub
        rw [hm] at hi
        cases hs
        refine ⟨xs, { hi with held := hi.held.trans ?_, knows := ⟨hi.knows, rfl⟩ }⟩
        rw [hpub]
        rfl
      · cases hs
  | clear =>
      rw [Queue.step] at hs
      split at hs
      · rename_i hm hphase
        rw [hm] at hi
        cases hs
        exact ⟨xs, { hi with
          before := nofun
          after := nofun
          knows := ⟨rfl, hi.ring.next_head, rfl⟩ }⟩
      · cases hs
  | next => exact hi.next hs
  | wake =>
      rw [Queue.step] at hs
      split at hs
      · rename_i hpub
        cases hs
        refine ⟨xs, { hi with
          held := hi.held.trans ?_
          knows := hi.knows.publisher (by rw [hpub]; nofun) _ }⟩
        rw [hpub]
        rfl
      · cases hs
  | destroy =>
      rw [Queue.step] at hs
      split at hs
      · rename_i nalu hpub
        cases hs
        refine ⟨xs, { hi with
          held := ?_
          knows := hi.knows.publisher (by rw [hpub]; nofun) _ }⟩
        refine hi.held.trans ?_
        rw [hpub]
        exact (List.append_nil _).symm
      · cases hs

omit [DecidableEq A] in
/-- After the final `list_clear_out` no statement with the mutex changes the
list any more. -/
theorem Queue.Knows.idle (hk : s.Knows xs h) (hp : s.clearing = .after) :
    h.taken = [] ∧ h.detached = [] ∧ h.owed = 0 := by
  cases h with
  | free => exact ⟨rfl, rfl, rfl⟩
  | delEmpty => exact ⟨rfl, rfl, rfl⟩
  | delSize => exact ⟨rfl, rfl, rfl⟩
  | delUnlockNull e => exact ⟨rfl, rfl, rfl⟩
  | addCount => exact nomatch hk.symm.trans hp
  | addUnlock => exact nomatch hk.symm.trans hp
  | _ => exact nomatch hk.1.symm.trans hp

/-- The invariant says what the queue is for. -/
theorem Queue.Inv.faithful (hi : s.Inv xs s.listMutex) : s.Faithful where
  size hm := by
    rw [hm] at hi
    exact ⟨xs, hi.ring, hi.size.trans (Int.add_zero _)⟩
  order := by
    rw [hi.fifo]
    exact List.prefix_append ..
  once := by
    have hnodup := (List.nodup_cons.mp hi.fresh).2
    rw [hi.fifo] at hnodup
    exact hnodup.of_append_left
  null := hi.null
  after hp := by
    obtain ⟨htaken, hdetached, howed⟩ := hi.knows.idle hp
    have hnil := hi.after hp
    subst hnil
    have hall : s.added = s.packets ++ s.cleared := by
      rw [hi.fifo, htaken, hdetached, List.nil_append, List.nil_append, List.append_nil]
    have hnodup := (List.nodup_cons.mp hi.fresh).2
    rw [hall] at hnodup
    refine ⟨hi.ring.listEmpty_iff.mpr rfl, ?_, fun x hx hout => ?_⟩
    · rw [hi.size, howed]
      rfl
    · have hsent : x ∉ s.sent := by
        intro hin
        apply hout
        rw [hi.held]
        exact List.mem_append_left _ hin
      rw [hall] at hx
      have hcleared : x ∈ s.cleared := (List.mem_append.mp hx).resolve_left hout
      rw [Queue.destroyed, List.count_append, List.count_eq_zero_of_not_mem hsent,
        List.count_eq_one_of_mem hnodup.of_append_right hcleared]

/-- For every interleaving of the socket thread, the publisher and the final
`list_clear_out`, the queue is a faithful one. -/
theorem queue_faithful {as : List (QueueStep A)}
    (h : System.run Queue.step (Queue.init m head) as = some s) : s.Faithful := by
  obtain ⟨xs, hi⟩ := System.run_inv (fun s : Queue A => ∃ xs, s.Inv xs s.listMutex)
    (fun _ _ _ hi hs => hi.elim fun _ hi => hi.step hs) ⟨[], inv_init m head⟩ h
  exact hi.faithful

/-- Two packets are added, the publisher waits for the first one and gets it,
and the second is left to `list_clear_out`. -/
def twoPackets : List (QueueStep Nat) :=
  [.del, .next, .add 1, .next, .next, .next, .del, .next, .next, .next, .next, .destroy,
    .add 2, .next, .next, .next, .clear, .next, .next, .next, .next, .next, .next]

theorem queue_faithful_twoPackets :
    ∃ s, System.run Queue.step (Queue.init ⟨id, id⟩ 0) twoPackets = some s ∧
      s.packets = [1] ∧ s.cleared = [2] ∧ s.clearing = .after ∧ s.Faithful := by
  have hrun : (System.run Queue.step (Queue.init ⟨id, id⟩ 0) twoPackets).map
      (fun s => (s.packets, s.cleared, s.clearing)) = some ([1], [2], .after) := by
    decide
  obtain ⟨s, hs, hlogs⟩ := Option.map_eq_some_iff.mp hrun
  injection hlogs with hpackets hlogs
  injection hlogs with hcleared hclearing
  exact ⟨s, hs, hpackets, hcleared, hclearing, queue_faithful hs⟩

end VmpSa
