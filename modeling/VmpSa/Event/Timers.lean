import VmpSa.Lib.System
import VmpSa.Event.MinHeap

/-!
# Timeouts of an event base

The timer part of `common/libevent/event.c`: `event_add` with a timeout puts an event into
the heap, `event_del` takes it out, and in each round of the loop `timeout_process` makes
every event active whose time has come.  `event_process_active` then takes the active
events off one by one.  The events here have a timeout and no file or signal, and there
are no common timeouts, so that every one is in the heap.

`Timers` says what this is for: each event has a deadline or not, and a list of events is
due.  Setting a deadline replaces the old one, a round fires exactly the deadlines that
have passed, the earliest one first, and a persistent event gets a new deadline when it is
taken.  `timers_fire_in_order` is that the base does this, however many events there are
and whichever allocations fail, with times as the clock gives them: an interval of 2^20 or
more microseconds fails an assertion when its event is taken.  `server_loop_goes_on` is what
the stream servers use it for: their persistent event keeps the loop from ending while no
device is connected.
-/

namespace VmpSa.Event

/-! ## The model -/

/-- The timer part of `struct event_base` and of its events. -/
structure TimerBase (E : Type) where
  timeheap : MinHeap E
  /-- `EVLIST_TIMEOUT` in `ev_flags`. -/
  evlistTimeout : E → Bool
  /-- The active queue of the one priority.  `EVLIST_ACTIVE` is set for its events. -/
  active : List E
  eventCount : Int
  evIoTimeout : E → Timeval

namespace TimerBase

variable {E : Type} [DecidableEq E]

/-- `event_base_new`, and `event_assign` for every event. -/
def new : TimerBase E where
  timeheap :=
    { p := []
      n := 0
      a := 0
      evTimeout := fun _ => { sec := 0, usec := 0 }
      minHeapIdx := fun _ => -1 }
  evlistTimeout := fun _ => false
  active := []
  eventCount := 0
  evIoTimeout := fun _ => { sec := 0, usec := 0 }

/-- `event_queue_remove_timeout`.  `event_errx` ends the program. -/
def queueRemoveTimeout (b : TimerBase E) (ev : E) : Option (TimerBase E) :=
  if b.evlistTimeout ev then
    (b.timeheap.erase ev).map fun r => { b with
      timeheap := r.2
      evlistTimeout := Function.update b.evlistTimeout ev false
      eventCount := b.eventCount - 1 }
  else none

/-- `event_queue_insert_timeout`.  It does not look at what `min_heap_push_` returns. -/
def queueInsertTimeout (b : TimerBase E) (ev : E) (alloc : Bool) : Option (TimerBase E) :=
  if b.evlistTimeout ev then none
  else
    (b.timeheap.push ev alloc).map fun r => { b with
      timeheap := r.2
      evlistTimeout := Function.update b.evlistTimeout ev true
      eventCount := b.eventCount + 1 }

/-- `event_queue_remove_active` -/
def queueRemoveActive (b : TimerBase E) (ev : E) : Option (TimerBase E) :=
  if ev ∈ b.active then
    some { b with
      active := b.active.erase ev
      eventCount := b.eventCount - 1 }
  else none

/-- `event_del_nolock_` -/
def eventDel (b : TimerBase E) (ev : E) : Option (TimerBase E) :=
  (if b.evlistTimeout ev then b.queueRemoveTimeout ev else some b).bind fun b =>
    if ev ∈ b.active then b.queueRemoveActive ev else some b

/-- `event_active_nolock_` with `EV_TIMEOUT` -/
def eventActive (b : TimerBase E) (ev : E) : TimerBase E :=
  if ev ∈ b.active then b
  else { b with
    active := b.active ++ [ev]
    eventCount := b.eventCount + 1 }

/-- The change of the timeout in `event_add_nolock_`, when nothing can fail any more.  An
active event here is one that is active due to a timeout.  `runAt` is the new timeout, and
`interval` what is remembered of it for a persistent event. -/
def schedule (b : TimerBase E) (ev : E) (runAt : Timeval) (interval : Option Timeval)
    (alloc : Bool) : Option (TimerBase E) :=
  (if b.evlistTimeout ev then b.queueRemoveTimeout ev else some b).bind fun b =>
    (if ev ∈ b.active then b.queueRemoveActive ev else some b).bind fun b =>
      ({ b with
          timeheap := { b.timeheap with
            evTimeout := Function.update b.timeheap.evTimeout ev runAt }
          evIoTimeout := (interval.map (Function.update b.evIoTimeout ev)).getD b.evIoTimeout } :
        TimerBase E).queueInsertTimeout ev alloc

/-- `event_add_nolock_`.  `alloc` says whether there is memory. -/
def eventAddNolock (b : TimerBase E) (ev : E) (runAt : Timeval) (interval : Option Timeval)
    (alloc : Bool) : Option (Int × TimerBase E) :=
  if b.evlistTimeout ev then (b.schedule ev runAt interval alloc).map fun b => (0, b)
  else
    match b.timeheap.reserve ((1 + b.timeheap.n) % 2 ^ 32) alloc with
    | (0, timeheap) =>
        ({ b with timeheap := timeheap }.schedule ev runAt interval alloc).map fun b => (0, b)
    | (_, timeheap) => some (-1, { b with timeheap := timeheap })

/-- `event_add` -/
def eventAdd (persist : E → Bool) (b : TimerBase E) (ev : E) (tv now : Timeval) (alloc : Bool) :
    Option (Int × TimerBase E) :=
  b.eventAddNolock ev (timerAdd now tv) (if persist ev then some tv else none) alloc

/-- When a persistent event that was scheduled for `last` is to run again. -/
def runAgain (last delay now : Timeval) : Timeval :=
  if timerGt now (timerAdd last delay) then timerAdd now delay else timerAdd last delay

/-- `is_same_common_timeout`: the bits outside `MICROSECONDS_MASK` are the same. -/
def isSameCommonTimeout (tv1 tv2 : Timeval) : Bool :=
  tv1.usec - tv1.usec % 0x100000 = tv2.usec - tv2.usec % 0x100000

/-- `event_persist_closure`, up to the callback.  Its assertion ends the program. -/
def persistClosure (b : TimerBase E) (ev : E) (now : Timeval) (alloc : Bool) :
    Option (TimerBase E) :=
  if (b.evIoTimeout ev).sec ≠ 0 ∨ (b.evIoTimeout ev).usec ≠ 0 then
    if isSameCommonTimeout (b.timeheap.evTimeout ev) (b.evIoTimeout ev) then
      (b.eventAddNolock ev (runAgain (b.timeheap.evTimeout ev) (b.evIoTimeout ev) now) none
        alloc).map Prod.snd
    else none
  else some b

/-- A round of `event_process_active_single_queue`: the first active event is taken. -/
def processActive (persist : E → Bool) (b : TimerBase E) (now : Timeval) (alloc : Bool) :
    Option (TimerBase E) :=
  match b.active with
  | [] => some b
  | ev :: _ =>
      if persist ev then (b.queueRemoveActive ev).bind fun b => b.persistClosure ev now alloc
      else b.eventDel ev

/-- The loop of `timeout_process`. -/
def timeoutLoop (now : Timeval) : Nat → TimerBase E → Option (TimerBase E)
  | 0, _ => none
  | fuel + 1, b =>
      match b.timeheap.top with
      | none => none
      | some none => some b
      | some (some ev) =>
          if timerGt (b.timeheap.evTimeout ev) now then some b
          else (b.eventDel ev).bind fun b => timeoutLoop now fuel (b.eventActive ev)

/-- `timeout_next`: how long the loop may wait for files, `some none` for ever.  The two
assertions on the difference are checked. -/
def timeoutNext (b : TimerBase E) (now : Timeval) : Option (Option Timeval) :=
  b.timeheap.top.bind fun
    | none => some none
    | some ev =>
        if ¬ timerGt (b.timeheap.evTimeout ev) now then some (some { sec := 0, usec := 0 })
        else
          let tv := timerSub (b.timeheap.evTimeout ev) now
          if 0 ≤ tv.sec ∧ 0 ≤ tv.usec then some (some tv) else none

/-- `event_haveevents`, without virtual events -/
def eventHaveevents (b : TimerBase E) : Bool := 0 < b.eventCount

/-- The test in `event_base_loop` that ends it: `!event_haveevents(base)` and
`!N_ACTIVE_CALLBACKS(base)`. -/
def noEvents (b : TimerBase E) : Bool := ¬ b.eventHaveevents ∧ b.active.length = 0

/-- `timeout_process` -/
def timeoutProcess (b : TimerBase E) (now : Timeval) : Option (TimerBase E) :=
  if b.timeheap.n = 0 then some b else timeoutLoop now (b.timeheap.n + 1) b

end TimerBase

/-- The calls on a base. -/
inductive TimerAction (E : Type)
  | add (ev : E) (tv now : Timeval) (alloc : Bool)
  | del (ev : E)
  /-- A round of the loop looks at the clock. -/
  | process (now : Timeval)
  /-- The first active event is taken. -/
  | dispatch (now : Timeval) (alloc : Bool)

/-- `stream_server_task_set` of `mw/server/server_listener.c`: a persistent event every 60000
seconds, whose callback does nothing. -/
def streamServerTaskSet {E : Type} (timeout : E) (now : Timeval) : TimerAction E :=
  .add timeout { sec := 60000, usec := 0 } now true

/-- The times of a call are as the clock gives them. -/
def TimerAction.Normal {E : Type} : TimerAction E → Prop
  | .add _ tv now _ => tv.Normal ∧ now.Normal
  | .dispatch now _ => now.Normal
  | _ => True

/-- `persist ev` says that `EV_PERSIST` is set in `ev_events`. -/
def TimerBase.step {E : Type} [DecidableEq E] (persist : E → Bool) (b : TimerBase E) :
    TimerAction E → Option (TimerBase E)
  | .add ev tv now alloc => (b.eventAdd persist ev tv now alloc).map Prod.snd
  | .del ev => b.eventDel ev
  | .process now => b.timeoutProcess now
  | .dispatch now alloc => b.processActive persist now alloc

/-! ## What it is for -/

/-- The deadlines that are set, and the events that are due.  `last` is the last deadline an
event has been given, and `interval` the time between those of a persistent one. -/
structure Timers (E : Type) where
  deadline : E → Option Timeval
  due : List E
  last : E → Timeval
  interval : E → Timeval

namespace Timers

variable {E : Type} [DecidableEq E] {persist : E → Bool} {t t' : Timers E} {e : E}
  {now d : Timeval} {fired : List E}

def without (t : Timers E) (e : E) : Timers E :=
  { t with
    deadline := Function.update t.deadline e none
    due := t.due.erase e }

/-- The event gets a deadline and is not due any more. -/
def set (t : Timers E) (e : E) (d : Timeval) : Timers E :=
  { t with
    deadline := Function.update t.deadline e (some d)
    due := t.due.erase e
    last := Function.update t.last e d }

/-- What becomes of an event that is taken: a persistent one with an interval gets a new
deadline, unless there is no memory. -/
def Taken (persist : E → Bool) (t t' : Timers E) (e : E) (now : Timeval) (alloc : Bool) : Prop :=
  if persist e ∧ t.interval e ≠ { sec := 0, usec := 0 } then
    t' = t.set e (TimerBase.runAgain (t.last e) (t.interval e) now) ∨
      t' = t.without e ∧ alloc = false
  else t' = t.without e

/-- The deadlines that have passed fire, the earliest one first. -/
structure Fires (t : Timers E) (now : Timeval) (fired : List E) (t' : Timers E) : Prop where
  once : fired.Nodup
  exact : ∀ e, e ∈ fired ↔ ∃ d, t.deadline e = some d ∧ d ≤ now
  sorted : fired.Pairwise fun x y =>
    ∀ d d', t.deadline x = some d → t.deadline y = some d' → d ≤ d'
  deadline : t'.deadline = fun e => if e ∈ fired then none else t.deadline e
  due : t'.due = t.due ++ fired
  last : t'.last = t.last
  interval : t'.interval = t.interval

/-- What a call may do. -/
def Allows (persist : E → Bool) (t t' : Timers E) : TimerAction E → Prop
  | .add e tv now alloc =>
      t' = { t.set e (timerAdd now tv) with
          interval := if persist e then Function.update t.interval e tv else t.interval } ∨
        t' = t ∧ t.deadline e = none ∧ alloc = false
  | .del e => t' = t.without e
  | .process now => ∃ fired, t.Fires now fired t'
  | .dispatch now alloc =>
      match t.due with
      | [] => t' = t
      | e :: _ => t.Taken persist t' e now alloc

/-- Nothing is set at the beginning. -/
def start : Timers E where
  deadline := fun _ => none
  due := []
  last := fun _ => { sec := 0, usec := 0 }
  interval := fun _ => { sec := 0, usec := 0 }

/-- What a sequence of calls may lead to. -/
inductive Run (persist : E → Bool) : List (TimerAction E) → Timers E → Prop
  | nil : Run persist [] start
  | snoc {as : List (TimerAction E)} {a : TimerAction E} {t t' : Timers E} :
      Run persist as t → t.Allows persist t' a → Run persist (as ++ [a]) t'

/-- Times as the clock gives them. -/
structure Normal (t : Timers E) : Prop where
  deadline : ∀ e d, t.deadline e = some d → d.Normal
  last : ∀ e, (t.last e).Normal
  interval : ∀ e, (t.interval e).Normal

theorem update_normal {f : E → Timeval} (hf : ∀ x, (f x).Normal) (hd : d.Normal) (x : E) :
    (Function.update f e d x).Normal := by
  by_cases hxe : x = e
  · rw [hxe, Function.update_self]
    exact hd
  · rw [Function.update_of_ne hxe]
    exact hf x

theorem Normal.without (h : t.Normal) (e : E) : (t.without e).Normal where
  deadline x d hx := by
    by_cases hxe : x = e
    · rw [hxe, show (t.without e).deadline e = none from Function.update_self ..] at hx
      cases hx
    · exact h.deadline x d ((Function.update_of_ne hxe _ _).symm.trans hx)
  last := h.last
  interval := h.interval

theorem Normal.set (h : t.Normal) (e : E) (hd : d.Normal) : (t.set e d).Normal where
  deadline x d' hx := by
    by_cases hxe : x = e
    · rw [hxe, show (t.set e d).deadline e = some d from Function.update_self .., Option.some_inj]
        at hx
      rwa [← hx]
    · exact h.deadline x d' ((Function.update_of_ne hxe _ _).symm.trans hx)
  last := update_normal h.last hd
  interval := h.interval

theorem runAgain_normal {last delay : Timeval} (hl : last.Normal) (hd : delay.Normal)
    (hn : now.Normal) : (TimerBase.runAgain last delay now).Normal := by
  rw [TimerBase.runAgain]
  split
  · exact timerAdd_normal hn hd
  · exact timerAdd_normal hl hd

theorem Normal.allows {a : TimerAction E} (h : t.Normal) (ha : a.Normal)
    (hst : t.Allows persist t' a) : t'.Normal := by
  cases a with
  | add e tv now alloc =>
      rcases hst with rfl | ⟨rfl, -, -⟩
      · have hset := h.set e (timerAdd_normal ha.2 ha.1)
        refine ⟨hset.deadline, hset.last, fun x => ?_⟩
        simp only
        split
        · exact update_normal h.interval ha.1 x
        · exact h.interval x
      · exact h
  | del e =>
      rw [show t' = t.without e from hst]
      exact h.without e
  | process now =>
      obtain ⟨fired, hfires⟩ := hst
      refine ⟨fun x d hx => ?_, by rw [hfires.last]; exact h.last,
        by rw [hfires.interval]; exact h.interval⟩
      rw [hfires.deadline] at hx
      simp only [Option.ite_none_left_eq_some] at hx
      exact h.deadline x d hx.2
  | dispatch now alloc =>
      simp only [Allows] at hst
      split at hst
      · rw [hst]
        exact h
      next e _ _ =>
        rw [Taken] at hst
        split at hst
        · rcases hst with rfl | ⟨rfl, -⟩
          · exact h.set e (runAgain_normal (h.last e) (h.interval e) ha)
          · exact h.without e
        · rw [hst]
          exact h.without e

omit [DecidableEq E] in
theorem start_normal : (start : Timers E).Normal := by
  have hzero : Timeval.Normal { sec := 0, usec := 0 } := ⟨le_rfl, by decide⟩
  exact ⟨fun _ _ hd => absurd hd nofun, fun _ => hzero, fun _ => hzero⟩

theorem without_set (he : e ∉ t.due.erase e) : (t.without e).set e d = t.set e d := by
  simp only [without, set, Function.update_idem, List.erase_of_not_mem he]

/-- The event waits or is due, and has an interval. -/
structure Lives (t : Timers E) (e : E) : Prop where
  waits : (∃ d, t.deadline e = some d) ∨ e ∈ t.due
  interval : t.interval e ≠ { sec := 0, usec := 0 }

/-- The call does not stop the event: it neither deletes it nor sets it without an interval,
and when the event is taken there is memory to set it again. -/
def Spares (t : Timers E) (e : E) : TimerAction E → Prop
  | .add x tv _ _ => x = e → tv ≠ { sec := 0, usec := 0 }
  | .del x => x ≠ e
  | .process _ => True
  | .dispatch _ alloc => t.due.head? = some e → alloc = true

instance (t : Timers E) (e : E) : DecidablePred (t.Spares e)
  | .add x tv _ _ => inferInstanceAs (Decidable (x = e → tv ≠ { sec := 0, usec := 0 }))
  | .del x => inferInstanceAs (Decidable (x ≠ e))
  | .process _ => inferInstanceAs (Decidable True)
  | .dispatch _ alloc => inferInstanceAs (Decidable (t.due.head? = some e → alloc = true))

theorem Lives.without {x : E} (h : t.Lives e) (hne : e ≠ x) : (t.without x).Lives e where
  waits := h.waits.imp
    (fun ⟨d, hd⟩ => ⟨d, (Function.update_of_ne hne _ _).trans hd⟩)
    fun hdue => (List.mem_erase_of_ne hne).mpr hdue
  interval := h.interval

theorem Lives.set {x : E} (h : t.Lives e) (d : Timeval) : (t.set x d).Lives e where
  waits := by
    by_cases hne : e = x
    · exact .inl ⟨d, by rw [hne]; exact Function.update_self ..⟩
    · exact h.waits.imp
        (fun ⟨d, hd⟩ => ⟨d, (Function.update_of_ne hne _ _).trans hd⟩)
        fun hdue => (List.mem_erase_of_ne hne).mpr hdue
  interval := h.interval

/-- A persistent event lives on. -/
theorem Lives.allows {a : TimerAction E} (h : t.Lives e) (hp : persist e = true)
    (ha : t.Spares e a) (hst : t.Allows persist t' a) : t'.Lives e := by
  cases a with
  | add x tv now alloc =>
      rcases hst with rfl | ⟨rfl, -, -⟩
      · refine ⟨(h.set _).waits, ?_⟩
        simp only
        split
        · by_cases hxe : e = x
          · rw [hxe, Function.update_self]
            exact ha hxe.symm
          · rw [Function.update_of_ne hxe]
            exact h.interval
        · exact h.interval
      · exact h
  | del x =>
      rw [show t' = t.without x from hst]
      exact h.without (Ne.symm ha)
  | process now =>
      obtain ⟨fired, hfires⟩ := hst
      refine ⟨?_, by rw [hfires.interval]; exact h.interval⟩
      rw [hfires.deadline, hfires.due]
      by_cases hfired : e ∈ fired
      · exact .inr (List.mem_append_right _ hfired)
      · exact h.waits.imp (fun ⟨d, hd⟩ => ⟨d, by simp only [if_neg hfired, hd]⟩)
          fun hdue => List.mem_append_left _ hdue
  | dispatch now alloc =>
      simp only [Allows] at hst
      split at hst
      · rw [hst]
        exact h
      next x _ hdue =>
        rw [Taken] at hst
        by_cases hxe : e = x
        · subst hxe
          rw [if_pos ⟨hp, h.interval⟩] at hst
          rcases hst with rfl | ⟨-, halloc⟩
          · exact h.set _
          · have hgranted : alloc = true := ha (by rw [hdue]; rfl)
            rw [hgranted] at halloc
            cases halloc
        · split at hst
          · rcases hst with rfl | ⟨rfl, -⟩
            · exact h.set _
            · exact h.without hxe
          · rw [hst]
            exact h.without hxe

/-- The last call of a sequence. -/
theorem Run.last_call {as : List (TimerAction E)} {a : TimerAction E}
    (hr : Run persist (as ++ [a]) t') : ∃ t, Run persist as t ∧ t.Allows persist t' a := by
  generalize has : as ++ [a] = bs at hr
  cases hr with
  | nil => exact absurd has (List.append_ne_nil_of_right_ne_nil _ nofun)
  | snoc hinit hst =>
      obtain ⟨rfl, hlast⟩ := List.append_inj' has rfl
      cases hlast
      exact ⟨_, hinit, hst⟩

/-- A persistent event lives once it has been added. -/
theorem lives_of_add (hp : persist e = true) {tv : Timeval}
    (htv : tv ≠ { sec := 0, usec := 0 }) (hst : t.Allows persist t' (.add e tv now true)) :
    t'.Lives e := by
  rcases hst with rfl | ⟨-, -, hfalse⟩
  · refine ⟨.inl ⟨_, Function.update_self ..⟩, ?_⟩
    simp only [hp, if_true, Function.update_self]
    exact htv
  · cases hfalse

theorem Fires.nil (hnone : ∀ e d, t.deadline e = some d → now < d) : t.Fires now [] t where
  once := .nil
  exact e := by
    simp only [List.not_mem_nil, false_iff, not_exists, not_and, not_le]
    exact hnone e
  sorted := .nil
  deadline := by simp
  due := (List.append_nil _).symm
  last := rfl
  interval := rfl

/-- An event with the earliest deadline fires, and then the others. -/
theorem Fires.cons (hd : t.deadline e = some d) (hle : d ≤ now)
    (hleast : ∀ x d', t.deadline x = some d' → d ≤ d')
    (f : ({ t with deadline := Function.update t.deadline e none, due := t.due ++ [e] } :
      Timers E).Fires now fired t') : t.Fires now (e :: fired) t' := by
  have hnot : e ∉ fired := fun hmem => by
    obtain ⟨d', hd', -⟩ := (f.exact e).mp hmem
    exact absurd ((Function.update_self e none t.deadline).symm.trans hd') nofun
  refine ⟨List.nodup_cons.mpr ⟨hnot, f.once⟩, fun x => ?_, List.pairwise_cons.mpr ⟨?_, ?_⟩, ?_, ?_,
    f.last, f.interval⟩
  · rw [List.mem_cons]
    by_cases hxe : x = e
    · rw [hxe]
      exact ⟨fun _ => ⟨d, hd, hle⟩, fun _ => .inl rfl⟩
    · have hx := f.exact x
      simp only [Function.update_of_ne hxe] at hx
      rw [hx]
      simp [hxe]
  · intro x _ d₁ d₂ h₁ h₂
    rw [hd] at h₁
    cases h₁
    exact hleast x d₂ h₂
  · refine f.sorted.imp_of_mem fun {x y} hx hy hxy d₁ d₂ h₁ h₂ => ?_
    have hxe : x ≠ e := fun heq => hnot (heq ▸ hx)
    have hye : y ≠ e := fun heq => hnot (heq ▸ hy)
    exact hxy d₁ d₂ ((Function.update_of_ne hxe _ _).trans h₁)
      ((Function.update_of_ne hye _ _).trans h₂)
  · rw [f.deadline]
    funext x
    by_cases hxe : x = e
    · rw [hxe]
      simp [hnot]
    · simp [hxe]
  · rw [f.due, List.append_assoc, List.singleton_append]

end Timers

/-! ## The invariant -/

namespace TimerBase

variable {E : Type} [DecidableEq E] {b b' : TimerBase E} {ev : E}

/-- What the base stands for. -/
def timers (b : TimerBase E) : Timers E where
  deadline e := if b.evlistTimeout e then some (b.timeheap.evTimeout e) else none
  due := b.active
  last := b.timeheap.evTimeout
  interval := b.evIoTimeout

/-- The check of the heap in `event_base_assert_ok_nolock_`. -/
def AssertOk (b : TimerBase E) : Prop :=
  ∀ i, 1 ≤ i → i < b.timeheap.n → ∃ ev pEv,
    b.timeheap.p[i]? = some (some ev) ∧ b.timeheap.p[(i - 1) / 2]? = some (some pEv) ∧
      b.evlistTimeout ev = true ∧
      b.timeheap.evTimeout pEv ≤ b.timeheap.evTimeout ev ∧
      b.timeheap.minHeapIdx ev = i

structure Ok (b : TimerBase E) : Prop where
  heap : ∃ xs, b.timeheap.Sound xs
  flags : ∀ x, b.evlistTimeout x = true ↔ b.timeheap.minHeapIdx x ≠ -1
  apart : ∀ x ∈ b.active, b.evlistTimeout x = false
  nodup : b.active.Nodup
  count : b.eventCount = b.timeheap.n + b.active.length

omit [DecidableEq E] in
theorem Ok.of_deadline (h : b.Ok) {x : E} {d : Timeval} (hx : b.timers.deadline x = some d) :
    b.timeheap.minHeapIdx x ≠ -1 ∧ b.timeheap.evTimeout x = d := by
  simp only [timers, Option.ite_none_right_eq_some, Option.some_inj] at hx
  exact ⟨(h.flags x).mp hx.1, hx.2⟩

theorem Ok.assertOk (h : b.Ok) : b.AssertOk := by
  obtain ⟨xs, hs⟩ := h.heap
  intro i hi0 hi
  refine ⟨xs i, xs ((i - 1) / 2), hs.cells.cell i hi hi.ne, hs.cells.cell _ (by omega) (by omega),
    ?_, hs.ordered i hi0 hi, hs.cells.index i hi hi.ne⟩
  rw [h.flags, hs.mem_iff]
  exact ⟨i, hi, rfl⟩

omit [DecidableEq E] in
theorem new_ok [Inhabited E] : (new : TimerBase E).Ok where
  heap := ⟨fun _ => default, ⟨le_rfl, nofun, nofun, nofun⟩, nofun, fun _ _ => rfl, rfl⟩
  flags _ := by simp [new]
  apart := nofun
  nodup := .nil
  count := rfl

/-! ## One call -/

omit [DecidableEq E] in
theorem Ok.n_lt [Fintype E] (h : b.Ok) (hE : Fintype.card E < 2 ^ 31) : b.timeheap.n < 2 ^ 31 := by
  obtain ⟨xs, hs⟩ := h.heap
  exact hs.le_card.trans_lt hE

theorem Ok.queueRemoveActive (h : b.Ok) (hev : ev ∈ b.active) :
    ∃ b', b.queueRemoveActive ev = some b' ∧ b'.Ok ∧ b'.timers = b.timers.without ev ∧
      b'.evlistTimeout = b.evlistTimeout ∧ ev ∉ b'.active ∧ b'.timeheap = b.timeheap := by
  rw [TimerBase.queueRemoveActive, if_pos hev]
  refine ⟨_, rfl, ⟨h.heap, h.flags, fun x hx => h.apart x (List.mem_of_mem_erase hx),
    h.nodup.erase ev, ?_⟩, ?_, rfl, h.nodup.not_mem_erase, rfl⟩
  · have hcount := h.count
    have hlen := List.length_erase_of_mem hev
    have hpos := List.length_pos_of_mem hev
    simp only
    omega
  · simp only [timers, Timers.without, Timers.mk.injEq, and_true]
    funext x
    by_cases hx : x = ev
    · simp [hx, h.apart ev hev]
    · simp [hx]

/-- An event that is neither waiting nor due. -/
theorem timers_without (hev : b.evlistTimeout ev = false) (hnot : ev ∉ b.active) :
    b.timers.without ev = b.timers := by
  simp only [timers, Timers.without, List.erase_of_not_mem hnot, Timers.mk.injEq, and_true]
  funext x
  by_cases hx : x = ev
  · simp [hx, hev]
  · simp [hx]

theorem Ok.eventActive (h : b.Ok) (hev : b.evlistTimeout ev = false) (hnot : ev ∉ b.active) :
    (b.eventActive ev).Ok ∧
      (b.eventActive ev).timers = { b.timers with due := b.timers.due ++ [ev] } ∧
      (b.eventActive ev).timeheap = b.timeheap := by
  rw [TimerBase.eventActive, if_neg hnot]
  refine ⟨⟨h.heap, h.flags, fun x hx => ?_, ?_, ?_⟩, rfl, rfl⟩
  · rcases List.mem_append.mp hx with hx | hx
    · exact h.apart x hx
    · rw [List.mem_singleton.mp hx]
      exact hev
  · exact List.nodup_append_comm.mp (List.nodup_cons.mpr ⟨hnot, h.nodup⟩)
  · have hcount := h.count
    simp only [List.length_append, List.length_singleton]
    omega

/-- Setting a deadline begins like `event_del`. -/
theorem schedule_eq (b : TimerBase E) (ev : E) (runAt : Timeval) (interval : Option Timeval)
    (alloc : Bool) :
    b.schedule ev runAt interval alloc = (b.eventDel ev).bind fun b =>
      ({ b with
          timeheap := { b.timeheap with
            evTimeout := Function.update b.timeheap.evTimeout ev runAt }
          evIoTimeout := (interval.map (Function.update b.evIoTimeout ev)).getD b.evIoTimeout } :
        TimerBase E).queueInsertTimeout ev alloc := by
  rw [schedule, TimerBase.eventDel, Option.bind_assoc]

variable [Fintype E]

theorem Ok.queueRemoveTimeout (h : b.Ok) (hE : Fintype.card E < 2 ^ 31)
    (hev : b.evlistTimeout ev = true) :
    ∃ b', b.queueRemoveTimeout ev = some b' ∧ b'.Ok ∧ b'.timers = b.timers.without ev ∧
      b'.evlistTimeout ev = false ∧ ev ∉ b'.active ∧
      b'.timeheap.n + 1 = b.timeheap.n ∧ b'.timeheap.n < b'.timeheap.a := by
  obtain ⟨xs, hs⟩ := h.heap
  obtain ⟨s', xs', herase, hs', htimeout, hn, ha, hmem⟩ :=
    hs.erase (h.n_lt hE) ((h.flags ev).mp hev)
  have hnot : ev ∉ b.active := fun hmem => by
    have := h.apart ev hmem
    rw [hev] at this
    cases this
  rw [TimerBase.queueRemoveTimeout, if_pos hev, herase, Option.map_some]
  refine ⟨_, rfl, ⟨⟨xs', hs'⟩, fun x => ?_, fun x hx => ?_, h.nodup, ?_⟩, ?_,
    Function.update_self _ _ _, hnot, hn, ?_⟩
  · rw [hmem x, ← h.flags x]
    by_cases hx : x = ev
    · simp [hx]
    · simp [hx]
  · have hne : x ≠ ev := fun heq => hnot (heq ▸ hx)
    exact (Function.update_of_ne hne _ _).trans (h.apart x hx)
  · have hcount := h.count
    simp only
    omega
  · simp only [timers, Timers.without, htimeout, Timers.mk.injEq, and_true]
    refine ⟨?_, (List.erase_of_not_mem hnot).symm⟩
    funext x
    by_cases hx : x = ev
    · simp [hx]
    · simp [hx]
  · have hroom := hs.cells.room
    have hblock := hs.block
    simp only
    omega

/-- The event is taken from wherever it is. -/
theorem Ok.eventDel (h : b.Ok) (hE : Fintype.card E < 2 ^ 31) (ev : E) :
    ∃ b', b.eventDel ev = some b' ∧ b'.Ok ∧ b'.timers = b.timers.without ev ∧
      b'.evlistTimeout ev = false ∧ ev ∉ b'.active ∧
      (b.evlistTimeout ev = true → b'.timeheap.n + 1 = b.timeheap.n ∧
        b'.timeheap.n < b'.timeheap.a) ∧
      (b.evlistTimeout ev = false → b'.timeheap = b.timeheap) := by
  rw [TimerBase.eventDel]
  cases hev : b.evlistTimeout ev with
  | true =>
      obtain ⟨b', hremove, h', htimers, hev', hnot, hn⟩ := h.queueRemoveTimeout hE hev
      rw [if_pos rfl, hremove, Option.bind_some, if_neg hnot]
      exact ⟨b', rfl, h', htimers, hev', hnot, fun _ => hn, nofun⟩
  | false =>
      rw [if_neg Bool.false_ne_true, Option.bind_some]
      by_cases hmem : ev ∈ b.active
      · obtain ⟨b', hremove, h', htimers, hflags, hnot, hheap⟩ := h.queueRemoveActive hmem
        rw [if_pos hmem, hremove]
        exact ⟨b', rfl, h', htimers, by rw [hflags, hev], hnot, nofun, fun _ => hheap⟩
      · rw [if_neg hmem]
        exact ⟨b, rfl, h, (timers_without hev hmem).symm, hev, hmem, nofun, fun _ => rfl⟩

/-- With room in the heap, an event that is neither waiting nor due gets its deadline. -/
theorem Ok.queueInsertTimeout (h : b.Ok) (hE : Fintype.card E < 2 ^ 31)
    (hev : b.evlistTimeout ev = false) (hnot : ev ∉ b.active)
    (hroom : b.timeheap.n < b.timeheap.a) (d : Timeval) (interval : E → Timeval) (alloc : Bool) :
    ∃ b', ({ b with
          timeheap := { b.timeheap with
            evTimeout := Function.update b.timeheap.evTimeout ev d }
          evIoTimeout := interval } :
        TimerBase E).queueInsertTimeout ev alloc = some b' ∧ b'.Ok ∧
      b'.timers = { b.timers.set ev d with
        due := b.active
        interval := interval } := by
  obtain ⟨xs, hs⟩ := h.heap
  have hidx : b.timeheap.minHeapIdx ev = -1 := by
    by_contra hne
    have := (h.flags ev).mpr hne
    rw [hev] at this
    cases this
  rw [TimerBase.queueInsertTimeout, if_neg (by simp [hev])]
  rcases (hs.setTimeout hidx d).push (h.n_lt hE) hidx alloc with
    ⟨-, hfull⟩ | ⟨s', xs', hpush, hs', htimeout, hn, hmem⟩
  · exact absurd hroom (not_lt.mpr hfull)
  · rw [hpush, Option.map_some]
    refine ⟨_, rfl, ⟨⟨xs', hs'⟩, fun x => ?_, fun x hx => ?_, h.nodup, ?_⟩, ?_⟩
    · rw [hmem x]
      simp only [← h.flags x]
      by_cases hx : x = ev
      · simp [hx]
      · simp [hx]
    · have hne : x ≠ ev := fun heq => hnot (heq ▸ hx)
      exact (Function.update_of_ne hne _ _).trans (h.apart x hx)
    · have hcount := h.count
      simp only at hn ⊢
      omega
    · simp only [timers, Timers.set, htimeout, Timers.mk.injEq, and_true]
      funext x
      by_cases hx : x = ev
      · simp [hx]
      · simp [hx]

theorem Ok.schedule (h : b.Ok) (hE : Fintype.card E < 2 ^ 31) (ev : E)
    (hroom : b.evlistTimeout ev = false → b.timeheap.n < b.timeheap.a)
    (runAt : Timeval) (interval : Option Timeval) (alloc : Bool) :
    ∃ b', b.schedule ev runAt interval alloc = some b' ∧ b'.Ok ∧
      b'.timers = { b.timers.set ev runAt with
        interval :=
          (interval.map (Function.update b.timers.interval ev)).getD b.timers.interval } := by
  obtain ⟨b₁, hdel, h₁, ht₁, hev, hnot, hwaiting, hidle⟩ := h.eventDel hE ev
  have hroom₁ : b₁.timeheap.n < b₁.timeheap.a := by
    cases hflag : b.evlistTimeout ev with
    | true => exact (hwaiting hflag).2
    | false =>
        rw [hidle hflag]
        exact hroom hflag
  have hinterval : b₁.evIoTimeout = b.timers.interval := congrArg Timers.interval ht₁
  obtain ⟨b', hinsert, h', ht'⟩ := h₁.queueInsertTimeout hE hev hnot hroom₁ runAt
    ((interval.map (Function.update b₁.evIoTimeout ev)).getD b₁.evIoTimeout) alloc
  rw [schedule_eq, hdel, Option.bind_some, hinsert]
  refine ⟨b', rfl, h', ?_⟩
  rw [ht', ht₁, show b₁.active = b₁.timers.due from rfl, ht₁, hinterval]
  simp only [Timers.without, Timers.set, Function.update_idem]

/-- An event gets its deadline, or there is no memory and nothing has changed. -/
theorem Ok.eventAddNolock (h : b.Ok) (hE : Fintype.card E < 2 ^ 31) (ev : E) (runAt : Timeval)
    (interval : Option Timeval) (alloc : Bool) :
    ∃ r b', b.eventAddNolock ev runAt interval alloc = some (r, b') ∧ b'.Ok ∧
      (b'.timers = { b.timers.set ev runAt with
          interval :=
            (interval.map (Function.update b.timers.interval ev)).getD b.timers.interval } ∨
        b'.timers = b.timers ∧ b.timers.deadline ev = none ∧ alloc = false) := by
  rw [TimerBase.eventAddNolock]
  cases hflag : b.evlistTimeout ev with
  | true =>
      obtain ⟨b', hschedule, h', ht'⟩ :=
        h.schedule hE ev (by rw [hflag]; nofun) runAt interval alloc
      rw [if_pos rfl, hschedule, Option.map_some]
      exact ⟨0, b', rfl, h', .inl ht'⟩
  | false =>
      obtain ⟨xs, hs⟩ := h.heap
      have hn := h.n_lt hE
      rw [if_neg Bool.false_ne_true, Nat.mod_eq_of_lt (by omega)]
      rcases hs.reserve (1 + b.timeheap.n) alloc with
        ⟨hr, -, halloc⟩ | ⟨s', hr, hs', hroom, hn', htimeout, hidx⟩
      · rw [hr]
        refine ⟨-1, b, rfl, h, .inr ⟨rfl, ?_, halloc⟩⟩
        simp [timers, hflag]
      · rw [hr]
        have h₁ : ({ b with timeheap := s' } : TimerBase E).Ok :=
          ⟨⟨xs, hs'⟩, by rw [hidx]; exact h.flags, h.apart, h.nodup, by rw [hn']; exact h.count⟩
        have ht₁ : ({ b with timeheap := s' } : TimerBase E).timers = b.timers := by
          simp only [timers, htimeout]
        obtain ⟨b', hschedule, h', ht'⟩ :=
          h₁.schedule hE ev (fun _ => by simp only; omega) runAt interval alloc
        simp only
        rw [hschedule, Option.map_some]
        rw [ht₁] at ht'
        exact ⟨0, b', rfl, h', .inl ht'⟩

omit [DecidableEq E] [Fintype E] in
/-- Normal times are below the mask. -/
theorem isSameCommonTimeout_of_normal {tv tv' : Timeval} (h : tv.Normal) (h' : tv'.Normal) :
    isSameCommonTimeout tv tv' = true := by
  rw [Timeval.Normal] at h h'
  rw [isSameCommonTimeout, decide_eq_true_eq]
  omega

/-- A persistent event that has been taken is set again, unless the assertion fails. -/
theorem Ok.persistClosure (h : b.Ok) (hE : Fintype.card E < 2 ^ 31) (ev : E) (now : Timeval)
    (alloc : Bool) :
    (∃ b', b.persistClosure ev now alloc = some b' ∧ b'.Ok ∧
      if b.timers.interval ev ≠ { sec := 0, usec := 0 } then
        b'.timers =
            b.timers.set ev (runAgain (b.timers.last ev) (b.timers.interval ev) now) ∨
          b'.timers = b.timers ∧ alloc = false
      else b'.timers = b.timers) ∨
      b.persistClosure ev now alloc = none ∧ ¬ b.timers.Normal := by
  rw [TimerBase.persistClosure]
  by_cases hinterval : b.evIoTimeout ev ≠ { sec := 0, usec := 0 }
  · rw [if_pos (Timeval.ne_zero_iff.mpr hinterval)]
    simp only [show b.timers.interval ev = b.evIoTimeout ev from rfl, if_pos hinterval]
    cases hsame : isSameCommonTimeout (b.timeheap.evTimeout ev) (b.evIoTimeout ev) with
    | true =>
        obtain ⟨r, b', hadd, h', ht'⟩ := h.eventAddNolock hE ev
          (runAgain (b.timeheap.evTimeout ev) (b.evIoTimeout ev) now) none alloc
        rw [if_pos rfl, hadd, Option.map_some]
        exact .inl ⟨b', rfl, h', ht'.imp id fun ⟨hset, _, halloc⟩ => ⟨hset, halloc⟩⟩
    | false =>
        refine .inr ⟨if_neg Bool.false_ne_true, fun hnormal => ?_⟩
        have htrue := isSameCommonTimeout_of_normal (hnormal.last ev) (hnormal.interval ev)
        rw [show b.timers.last ev = b.timeheap.evTimeout ev from rfl,
          show b.timers.interval ev = b.evIoTimeout ev from rfl, hsame] at htrue
        cases htrue
  · rw [if_neg fun hor => hinterval (Timeval.ne_zero_iff.mp hor)]
    simp only [show b.timers.interval ev = b.evIoTimeout ev from rfl, if_neg hinterval]
    exact .inl ⟨b, rfl, h, rfl⟩

/-- The first active event is taken. -/
theorem Ok.processActive (h : b.Ok) (hE : Fintype.card E < 2 ^ 31) (persist : E → Bool)
    (now : Timeval) (alloc : Bool) :
    (∃ b', b.processActive persist now alloc = some b' ∧ b'.Ok ∧
      b.timers.Allows persist b'.timers (.dispatch now alloc)) ∨
      b.processActive persist now alloc = none ∧ ¬ b.timers.Normal := by
  rw [TimerBase.processActive]
  simp only [Timers.Allows, show b.timers.due = b.active from rfl]
  cases hactive : b.active with
  | nil => exact .inl ⟨b, rfl, h, rfl⟩
  | cons ev rest =>
      have hmem : ev ∈ b.active := by
        rw [hactive]
        exact List.mem_cons_self
      simp only [Timers.Taken]
      cases hp : persist ev with
      | false =>
          obtain ⟨b', hdel, h', ht', -⟩ := h.eventDel hE ev
          simp only [Bool.false_eq_true, if_false, false_and]
          exact .inl ⟨b', hdel, h', ht'⟩
      | true =>
          obtain ⟨b₁, hremove, h₁, ht₁, -⟩ := h.queueRemoveActive hmem
          have hgone : ev ∉ b.timers.due.erase ev := h.nodup.not_mem_erase
          rw [if_pos rfl, hremove, Option.bind_some]
          rcases h₁.persistClosure hE ev now alloc with
            ⟨b', hclosure, h', ht'⟩ | ⟨hnone, habnormal⟩
          · rw [ht₁, Timers.without_set hgone] at ht'
            rw [hclosure]
            simp only [true_and]
            exact .inl ⟨b', rfl, h', ht'⟩
          · refine .inr ⟨hnone, fun hnormal => habnormal ?_⟩
            rw [ht₁]
            exact hnormal.without ev

/-- Every round takes the earliest deadline off.  The induction is on the rounds left. -/
theorem Ok.timeoutLoop (hE : Fintype.card E < 2 ^ 31) (now : Timeval) :
    ∀ {c : Nat} {b : TimerBase E}, b.timeheap.n < c → b.Ok →
      ∃ b' fired, timeoutLoop now c b = some b' ∧ b'.Ok ∧ b.timers.Fires now fired b'.timers
  | 0, _, hc, _ => absurd hc (by omega)
  | c + 1, b, hc, h => by
      obtain ⟨xs, hs⟩ := h.heap
      rw [TimerBase.timeoutLoop]
      rcases hs.top with ⟨htop, -, hnone⟩ | ⟨ev, htop, hev, hleast⟩
      · rw [htop]
        exact ⟨b, [], rfl, h, .nil fun x d hx => absurd (hnone x) (h.of_deadline hx).1⟩
      · rw [htop]
        simp only
        split
        next hgt =>
          refine ⟨b, [], rfl, h, .nil fun x d hx => ?_⟩
          obtain ⟨hmem, rfl⟩ := h.of_deadline hx
          exact (timerGt_iff.mp hgt).trans_le (hleast x hmem)
        next hgt =>
          have hflag := (h.flags ev).mpr hev
          obtain ⟨b₁, hdel, h₁, ht₁, hev₁, hnot₁, hn₁, -⟩ := h.eventDel hE ev
          obtain ⟨h₂, ht₂, hheap₂⟩ := h₁.eventActive hev₁ hnot₁
          obtain ⟨b', fired, hloop, h', hfires⟩ := Ok.timeoutLoop hE now (c := c)
            (b := b₁.eventActive ev) (by rw [hheap₂]; have := (hn₁ hflag).1; omega) h₂
          rw [hdel, Option.bind_some, hloop]
          refine ⟨b', ev :: fired, rfl, h', .cons (d := b.timeheap.evTimeout ev) ?_ ?_ ?_ ?_⟩
          · simp only [timers, hflag, if_true]
          · exact not_lt.mp fun hlt => hgt (timerGt_iff.mpr hlt)
          · intro x d hx
            obtain ⟨hmem, rfl⟩ := h.of_deadline hx
            exact hleast x hmem
          · have hnot : ev ∉ b.active := fun hmem => by
              have := h.apart ev hmem
              rw [hflag] at this
              cases this
            rw [ht₂, ht₁, Timers.without] at hfires
            simpa only [show b.timers.due = b.active from rfl, List.erase_of_not_mem hnot]
              using hfires

/-- One call.  Only the assertion about a persistent event can fail, and with times as the
clock gives them it does not. -/
theorem Ok.step (h : b.Ok) (hE : Fintype.card E < 2 ^ 31) (persist : E → Bool)
    (a : TimerAction E) :
    (∃ b', b.step persist a = some b' ∧ b'.Ok ∧ b.timers.Allows persist b'.timers a) ∨
      b.step persist a = none ∧ ¬ b.timers.Normal := by
  cases a with
  | add ev tv now alloc =>
      obtain ⟨r, b', hadd, h', ht'⟩ :=
        h.eventAddNolock hE ev (timerAdd now tv) (if persist ev then some tv else none) alloc
      rw [TimerBase.step, TimerBase.eventAdd, hadd, Option.map_some]
      refine .inl ⟨b', rfl, h', ht'.imp (fun hset => ?_) id⟩
      rw [hset]
      split <;> rfl
  | del ev =>
      obtain ⟨b', hdel, h', ht', -⟩ := h.eventDel hE ev
      exact .inl ⟨b', hdel, h', ht'⟩
  | process now =>
      rw [TimerBase.step, timeoutProcess]
      split
      next hzero =>
        obtain ⟨xs, hs⟩ := h.heap
        refine .inl ⟨b, rfl, h, [], .nil fun x d hx => ?_⟩
        obtain ⟨i, hi, -⟩ := (hs.mem_iff x).mp (h.of_deadline hx).1
        omega
      next hpos =>
        obtain ⟨b', fired, hloop, h', hfires⟩ :=
          Ok.timeoutLoop hE now (c := b.timeheap.n + 1) (by omega) h
        exact .inl ⟨b', hloop, h', fired, hfires⟩
  | dispatch now alloc => exact h.processActive hE persist now alloc

/-- With times as the clock gives them every call has a result. -/
theorem run_ok [Inhabited E] (hE : Fintype.card E < 2 ^ 31) (persist : E → Bool)
    (as : List (TimerAction E)) (has : ∀ a ∈ as, a.Normal) :
    ∃ b, System.run (step persist) new as = some b ∧ b.Ok ∧ Timers.Run persist as b.timers ∧
      b.timers.Normal :=
  System.run_reaches (P := fun _ a => TimerAction.Normal a)
    (fun hist (b : TimerBase E) => b.Ok ∧ Timers.Run persist hist b.timers ∧ b.timers.Normal)
    (fun hist b a hb ha => by
      obtain ⟨h, hr, hnormal⟩ := hb
      rcases h.step hE persist a with ⟨b', hstep, h', hallows⟩ | ⟨-, habnormal⟩
      · exact ⟨b', hstep, h', hr.snoc hallows, hnormal.allows ha hallows⟩
      · exact absurd hnormal habnormal)
    ⟨new_ok, .nil, Timers.start_normal⟩ (System.along_of_forall has)

/-- Whatever the times are, a run that has a result is one of the table of deadlines. -/
theorem ok_of_run [Inhabited E] (hE : Fintype.card E < 2 ^ 31) {persist : E → Bool}
    {as : List (TimerAction E)} (hrun : System.run (step persist) new as = some b) :
    b.Ok ∧ Timers.Run persist as b.timers :=
  System.run_keeps (P := fun _ _ => True)
    (fun hist (b : TimerBase E) => b.Ok ∧ Timers.Run persist hist b.timers)
    (fun hist b a b' hb _ hstep => by
      rcases hb.1.step hE persist a with ⟨b'', hstep', h', hallows⟩ | ⟨hnone, -⟩
      · rw [hstep, Option.some_inj] at hstep'
        subst hstep'
        exact ⟨h', hb.2.snoc hallows⟩
      · rw [hstep] at hnone
        cases hnone)
    ⟨new_ok, .nil⟩ (System.along_true as) hrun

/-- Whatever events are added, deleted and taken at whatever times the clock gives, and
whichever allocations fail: no call comes to a fault, to a failed assertion or to
`event_errx`, the heap passes the check of `event_base_assert_ok_nolock_`, `event_count`
counts the events that wait or are due, and the deadlines and the due events are what the
calls lead to.  In a round exactly the deadlines that have passed fire, each once and the
earliest first. -/
theorem timers_fire_in_order [Inhabited E] (hE : Fintype.card E < 2 ^ 31) (persist : E → Bool)
    (as : List (TimerAction E)) (has : ∀ a ∈ as, a.Normal) :
    ∃ b, System.run (step persist) new as = some b ∧ b.AssertOk ∧
      b.eventCount = b.timeheap.n + b.active.length ∧ Timers.Run persist as b.timers := by
  obtain ⟨b, hrun, h, ht, -⟩ := run_ok hE persist as has
  exact ⟨b, hrun, h.assertOk, h.count, ht⟩

/-- A persistent event and one that is not fire in the same round, and the persistent one is
set again when it is taken. -/
def twoTimers : List (TimerAction (Fin 2)) :=
  [.add 1 ⟨5, 0⟩ ⟨0, 0⟩ true, .add 0 ⟨2, 500000⟩ ⟨0, 600000⟩ true, .process ⟨5, 0⟩,
    .dispatch ⟨5, 0⟩ true, .dispatch ⟨5, 100000⟩ true]

theorem timers_fire_in_order_two :
    Fintype.card (Fin 2) < 2 ^ 31 ∧ (∀ a ∈ twoTimers, a.Normal) ∧
      ∃ b, System.run (step fun e => e = 1) (new : TimerBase (Fin 2)) twoTimers = some b ∧
        b.AssertOk ∧ b.eventCount = b.timeheap.n + b.active.length ∧
        Timers.Run (fun e => e = 1) twoTimers b.timers := by
  have hnormal : ∀ a ∈ twoTimers, a.Normal := by
    simp [twoTimers, TimerAction.Normal, Timeval.Normal]
  exact ⟨by decide, hnormal, timers_fire_in_order (by decide) _ _ hnormal⟩

example :
    (System.run (step fun e => e = 1) (new : TimerBase (Fin 2)) twoTimers).map
      (fun b => (b.active, b.evlistTimeout 0, b.evlistTimeout 1, (b.timeheap.evTimeout 1).sec)) =
        some ([], false, true, 10) := by decide

/-- An interval of two million microseconds: the deadline it leads to is normal, and taking
the event ends the program. -/
example :
    (System.run (step fun _ => true) (new : TimerBase (Fin 1))
      [.add 0 ⟨0, 2000000⟩ ⟨100, 0⟩ true, .process ⟨102, 0⟩,
        .dispatch ⟨102, 0⟩ true]).isNone = true := by decide

/-! ## How long the loop waits -/

omit [Fintype E] in
theorem Ok.timeoutNext (h : b.Ok) (ht : b.timers.Normal) {now : Timeval} (hnow : now.Normal) :
    (b.timeoutNext now = some none ∧ ∀ e, b.timers.deadline e = none) ∨
      ∃ tv e d, b.timeoutNext now = some (some tv) ∧ b.timers.deadline e = some d ∧
        (∀ x d', b.timers.deadline x = some d' → d ≤ d') ∧
        (d ≤ now ∧ tv = { sec := 0, usec := 0 } ∨ now < d ∧ timerAdd now tv = d) := by
  obtain ⟨xs, hs⟩ := h.heap
  rw [TimerBase.timeoutNext]
  rcases hs.top with ⟨htop, -, hnone⟩ | ⟨ev, htop, hev, hleast⟩
  · rw [htop, Option.bind_some]
    refine .inl ⟨rfl, fun e => ?_⟩
    cases he : b.timers.deadline e with
    | none => rfl
    | some d => exact absurd (hnone e) (h.of_deadline he).1
  · have hflag := (h.flags ev).mpr hev
    have hdeadline : b.timers.deadline ev = some (b.timeheap.evTimeout ev) := by
      simp only [timers, hflag, if_true]
    have hearliest : ∀ x d', b.timers.deadline x = some d' → b.timeheap.evTimeout ev ≤ d' := by
      intro x d' hx
      obtain ⟨hmem, rfl⟩ := h.of_deadline hx
      exact hleast x hmem
    rw [htop, Option.bind_some]
    simp only
    by_cases hgt : timerGt (b.timeheap.evTimeout ev) now = true
    · have hlt := timerGt_iff.mp hgt
      obtain ⟨hadd, hsec, husec⟩ := timerAdd_timerSub hnow (ht.deadline ev _ hdeadline) hlt
      rw [if_neg (not_not.mpr hgt), if_pos ⟨hsec, husec⟩]
      exact .inr ⟨_, ev, _, rfl, hdeadline, hearliest, .inr ⟨hlt, hadd⟩⟩
    · rw [if_pos hgt]
      exact .inr ⟨_, ev, _, rfl, hdeadline, hearliest,
        .inl ⟨not_lt.mp fun hlt => hgt (timerGt_iff.mpr hlt), rfl⟩⟩

/-- After any calls with times as the clock gives them: without deadlines the loop waits for
files only.  Else it waits until just the earliest deadline, or not at all when
that has passed, and its assertions hold. -/
theorem loop_waits_for_earliest [Inhabited E] (hE : Fintype.card E < 2 ^ 31)
    (persist : E → Bool) (as : List (TimerAction E)) (has : ∀ a ∈ as, a.Normal) (now : Timeval)
    (hnow : now.Normal) :
    ∃ b, System.run (step persist) new as = some b ∧
      ((b.timeoutNext now = some none ∧ ∀ e, b.timers.deadline e = none) ∨
        ∃ tv e d, b.timeoutNext now = some (some tv) ∧ b.timers.deadline e = some d ∧
          (∀ x d', b.timers.deadline x = some d' → d ≤ d') ∧
          (d ≤ now ∧ tv = { sec := 0, usec := 0 } ∨ now < d ∧ timerAdd now tv = d)) := by
  obtain ⟨b, hrun, h, -, hnormal⟩ := run_ok hE persist as has
  exact ⟨b, hrun, h.timeoutNext hnormal hnow⟩

theorem loop_waits_for_earliest_one :
    (Fintype.card (Fin 1) < 2 ^ 31 ∧
      (∀ a ∈ [TimerAction.add (0 : Fin 1) ⟨5, 0⟩ ⟨3, 600000⟩ true], a.Normal) ∧
      Timeval.Normal ⟨4, 700000⟩) ∧
      ∃ b, System.run (step fun _ => false) (new : TimerBase (Fin 1))
          [TimerAction.add 0 ⟨5, 0⟩ ⟨3, 600000⟩ true] = some b ∧
        ((b.timeoutNext ⟨4, 700000⟩ = some none ∧ ∀ e, b.timers.deadline e = none) ∨
          ∃ tv e d, b.timeoutNext ⟨4, 700000⟩ = some (some tv) ∧ b.timers.deadline e = some d ∧
            (∀ x d', b.timers.deadline x = some d' → d ≤ d') ∧
            (d ≤ ⟨4, 700000⟩ ∧ tv = { sec := 0, usec := 0 } ∨
              ⟨4, 700000⟩ < d ∧ timerAdd ⟨4, 700000⟩ tv = d)) :=
  ⟨by simp [TimerAction.Normal, Timeval.Normal],
    loop_waits_for_earliest (by decide) _ _ (by simp [TimerAction.Normal, Timeval.Normal]) _
      (by simp [Timeval.Normal])⟩

/-! ## Why the loop of a stream server goes on -/

omit [Fintype E] in
theorem Ok.haveEvents (h : b.Ok) (hl : b.timers.Lives ev) : b.noEvents = false := by
  have hcount := h.count
  have hpos : 0 < b.eventCount := by
    rcases hl.waits with ⟨d, hd⟩ | hdue
    · obtain ⟨xs, hs⟩ := h.heap
      obtain ⟨i, hi, -⟩ := (hs.mem_iff ev).mp (h.of_deadline hd).1
      omega
    · have := List.length_pos_of_mem (show ev ∈ b.active from hdue)
      omega
  simp [noEvents, eventHaveevents, hpos]

/-- Once `stream_server_task_set` has added its event, the loop does not end for want of events,
whatever other events come and go: in each round the event waits or is due, as long as
nothing deletes it and there is memory to add it again when it is taken.  With times as the
clock gives them no call comes to a fault either. -/
theorem server_loop_goes_on [Inhabited E] (hE : Fintype.card E < 2 ^ 31) (persist : E → Bool)
    (timeout : E) (hp : persist timeout = true) (bs : List (TimerAction E)) (now : Timeval)
    (b₁ : TimerBase E)
    (hset : System.run (step persist) new (bs ++ [streamServerTaskSet timeout now]) = some b₁)
    (cs : List (TimerAction E))
    (hcs : System.Along (step persist) (fun b a => b.timers.Spares timeout a) b₁ cs) :
    (∀ b, System.run (step persist) b₁ cs = some b → b.noEvents = false) ∧
      ((∀ a ∈ bs ++ [streamServerTaskSet timeout now] ++ cs, a.Normal) →
        ∃ b, System.run (step persist) b₁ cs = some b) := by
  have hinterval : ({ sec := 60000, usec := 0 } : Timeval) ≠ { sec := 0, usec := 0 } := by
    simp
  obtain ⟨h₁, ht₁⟩ := ok_of_run hE hset
  obtain ⟨t, -, hallows⟩ := ht₁.last_call
  have hlives := Timers.lives_of_add hp hinterval hallows
  constructor
  · intro b hrun
    have hend : b.Ok ∧ b.timers.Lives timeout :=
      System.run_keeps (P := fun b a => b.timers.Spares timeout a)
        (fun _ b => b.Ok ∧ b.timers.Lives timeout)
        (fun _ b a b' hb ha hstep => by
          rcases hb.1.step hE persist a with ⟨b'', hstep', h', hallows'⟩ | ⟨hnone, -⟩
          · rw [hstep, Option.some_inj] at hstep'
            subst hstep'
            exact ⟨h', hb.2.allows hp ha hallows'⟩
          · rw [hstep] at hnone
            cases hnone)
        ⟨h₁, hlives⟩ hcs hrun
    exact hend.1.haveEvents hend.2
  · intro hnormal
    obtain ⟨b, hrun, -⟩ := run_ok hE persist _ hnormal
    rw [System.run_append hset] at hrun
    exact ⟨b, hrun⟩

/-- What goes on in the loop: the event fires and is taken while there is memory, another one
when there is none. -/
def laterCalls : List (TimerAction (Fin 2)) :=
  [.process ⟨60009, 0⟩, .dispatch ⟨60009, 0⟩ false, .dispatch ⟨60009, 0⟩ true, .del 1]

theorem server_loop_goes_on_again :
    ∃ b₁ : TimerBase (Fin 2), System.run (step fun _ => true) new
        ([.add 1 ⟨2, 0⟩ ⟨5, 0⟩ true] ++ [streamServerTaskSet 0 ⟨5, 0⟩]) = some b₁ ∧
      (∀ b, System.run (step fun _ => true) b₁ laterCalls = some b → b.noEvents = false) ∧
      ((∀ a ∈ [.add 1 ⟨2, 0⟩ ⟨5, 0⟩ true] ++ [streamServerTaskSet 0 ⟨5, 0⟩] ++ laterCalls,
          a.Normal) → ∃ b, System.run (step fun _ => true) b₁ laterCalls = some b) :=
  ⟨_, rfl, server_loop_goes_on (by decide) _ 0 rfl _ _ _ rfl laterCalls (by decide)⟩

end TimerBase

end VmpSa.Event
