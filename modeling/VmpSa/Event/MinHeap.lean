import VmpSa.Lib.Heap
import Mathlib.Algebra.Group.Nat.Defs
import Mathlib.Data.Prod.Lex
import Mathlib.Data.Fintype.Card
import Mathlib.Logic.Function.Basic

/-!
# The heap of timeouts

`common/libevent/minheap-internal.h`.  The events that wait for a timeout stand in an
array that is a tree with the earliest one at the top, and each event has the index of its
cell.  `event.c` puts an event in (`min_heap_push_`), takes any event out
(`min_heap_erase_`) and looks at the top.

`Arranged s xs h` says that the cells below `n` hold the events `xs` and the events know
their cells, but for the cell `h`, which is open.  The loops move the open cell.
`Sound s xs` is what `event_base_assert_ok_nolock_` checks and what it takes for granted.
-/

namespace VmpSa.Event

/-! ## The model -/

/-- `struct timeval`.  The seconds of every sum of times are taken to stay within `time_t`. -/
structure Timeval where
  sec : Int
  usec : Int

/-- `evutil_timercmp(a, b, >)` -/
def timerGt (a b : Timeval) : Bool :=
  if a.sec = b.sec then b.usec < a.usec else b.sec < a.sec

/-- `evutil_timeradd` -/
def timerAdd (a b : Timeval) : Timeval :=
  if 1000000 ≤ a.usec + b.usec then
    { sec := a.sec + b.sec + 1, usec := a.usec + b.usec - 1000000 }
  else { sec := a.sec + b.sec, usec := a.usec + b.usec }

/-- `evutil_timersub` -/
def timerSub (a b : Timeval) : Timeval :=
  if a.usec - b.usec < 0 then
    { sec := a.sec - b.sec - 1, usec := a.usec - b.usec + 1000000 }
  else { sec := a.sec - b.sec, usec := a.usec - b.usec }

instance : LinearOrder Timeval :=
  LinearOrder.lift' (fun t => toLex (t.sec, t.usec)) fun a b h => by
    cases a
    cases b
    simpa using h

theorem timerGt_iff {a b : Timeval} : timerGt a b = true ↔ b < a := by
  change _ ↔ toLex (b.sec, b.usec) < toLex (a.sec, a.usec)
  rw [Prod.Lex.toLex_lt_toLex, timerGt]
  split <;> simp only [decide_eq_true_eq] <;> omega

theorem Timeval.ne_zero_iff {t : Timeval} :
    t.sec ≠ 0 ∨ t.usec ≠ 0 ↔ t ≠ { sec := 0, usec := 0 } := by
  cases t
  simp only [ne_eq, Timeval.mk.injEq]
  tauto

/-- The microseconds are less than a second, as the clock gives them. -/
def Timeval.Normal (t : Timeval) : Prop := 0 ≤ t.usec ∧ t.usec < 1000000

theorem timerAdd_normal {a b : Timeval} (ha : a.Normal) (hb : b.Normal) :
    (timerAdd a b).Normal := by
  rw [Timeval.Normal] at ha hb ⊢
  rw [timerAdd]
  split <;> simp only <;> omega

/-- The time between two times, the assertions of `timeout_next` included. -/
theorem timerAdd_timerSub {a b : Timeval} (ha : a.Normal) (hb : b.Normal) (hlt : a < b) :
    timerAdd a (timerSub b a) = b ∧ 0 ≤ (timerSub b a).sec ∧ 0 ≤ (timerSub b a).usec := by
  have hgt := timerGt_iff.mpr hlt
  rw [Timeval.Normal] at ha hb
  rw [timerGt] at hgt
  cases a
  cases b
  simp only [timerAdd, timerSub] at *
  split at hgt <;> simp only [decide_eq_true_eq] at hgt <;> grind

/-- `min_heap_t` with the two fields of the events that it works on. -/
structure MinHeap (E : Type) where
  /-- The block `p`.  A cell that has not been written holds `none`. -/
  p : List (Option E)
  n : Nat
  a : Nat
  evTimeout : E → Timeval
  minHeapIdx : E → Int

namespace MinHeap

variable {E : Type}

/-- `min_heap_elem_greater` -/
def elemGreater (s : MinHeap E) (a b : E) : Bool := timerGt (s.evTimeout a) (s.evTimeout b)

/-- `s->p[i]` -/
def read (s : MinHeap E) (i : Nat) : Option E := s.p[i]?.join

/-- `(s->p[i] = e)->ev_timeout_pos.min_heap_idx = i` -/
def put [DecidableEq E] (s : MinHeap E) (i : Nat) (e : E) : Option (MinHeap E) :=
  if i < s.p.length then
    some { s with
      p := s.p.set i (some e)
      minHeapIdx := Function.update s.minHeapIdx e i }
  else none

/-- `min_heap_top_` -/
def top (s : MinHeap E) : Option (Option E) :=
  if s.n ≠ 0 then (s.read 0).map some else some none

/-- `min_heap_reserve_`.  `alloc` says whether `mm_realloc` has memory. -/
def reserve (s : MinHeap E) (n : Nat) (alloc : Bool) : Int × MinHeap E :=
  if s.a < n then
    let a := if s.a ≠ 0 then s.a * 2 % 2 ^ 32 else 8
    let a := if a < n then n else a
    if alloc then (0, { s with p := s.p ++ List.replicate (a - s.p.length) none, a := a })
    else (-1, s)
  else (0, s)

/-- The loop of `min_heap_shift_up_`. -/
def shiftUp [DecidableEq E] (s : MinHeap E) (e : E) : Nat → Nat → Option (MinHeap E)
  | 0, _ => none
  | fuel + 1, hole =>
      if hole ≠ 0 then do
        let x ← s.read ((hole - 1) / 2)
        if s.elemGreater x e then
          let s ← s.put hole x
          s.shiftUp e fuel ((hole - 1) / 2)
        else s.put hole e
      else s.put hole e

/-- `min_heap_shift_up_unconditional_`.  Its `do` loop goes on as the loop of
`min_heap_shift_up_` after the first round. -/
def shiftUpUnconditional [DecidableEq E] (s : MinHeap E) (hole : Nat) (e : E) :
    Option (MinHeap E) := do
  let x ← s.read ((hole - 1) / 2)
  let s ← s.put hole x
  s.shiftUp e (hole + 1) ((hole - 1) / 2)

/-- `min_child == s->n || min_heap_elem_greater(s->p[min_child], s->p[min_child - 1])` -/
def leftChild (s : MinHeap E) (minChild : Nat) : Option Bool :=
  if minChild = s.n then some true
  else do
    let right ← s.read minChild
    let left ← s.read (minChild - 1)
    return s.elemGreater right left

/-- The loop of `min_heap_shift_down_`. -/
def shiftDown [DecidableEq E] (s : MinHeap E) (e : E) : Nat → Nat → Option (MinHeap E)
  | 0, _ => none
  | fuel + 1, hole =>
      let minChild := 2 * (hole + 1) % 2 ^ 32
      if minChild ≤ s.n then do
        let left ← s.leftChild minChild
        let minChild := if left then minChild - 1 else minChild
        let x ← s.read minChild
        if s.elemGreater e x then
          let s ← s.put hole x
          s.shiftDown e fuel minChild
        else s.put hole e
      else s.put hole e

/-- `min_heap_push_` -/
def push [DecidableEq E] (s : MinHeap E) (e : E) (alloc : Bool) :
    Option (Int × MinHeap E) :=
  match s.reserve ((s.n + 1) % 2 ^ 32) alloc with
  | (0, s) => ({ s with n := (s.n + 1) % 2 ^ 32 }.shiftUp e (s.n + 1) s.n).map fun s => (0, s)
  | (_, s) => some (-1, s)

/-- The test of `min_heap_erase_` for the cell of an event: whether `last` is to move up. -/
def below (s : MinHeap E) (i : Nat) (last : E) : Option Bool :=
  if 0 < i then (s.read ((i - 1) / 2)).map fun x => s.elemGreater x last else some false

/-- `min_heap_erase_`.  An event with an index in an empty heap has no defined outcome. -/
def erase [DecidableEq E] (s : MinHeap E) (e : E) : Option (Int × MinHeap E) :=
  if s.minHeapIdx e ≠ -1 then
    if s.n = 0 then none
    else do
      let last ← s.read (s.n - 1)
      let s := { s with n := s.n - 1 }
      let i := (s.minHeapIdx e).toNat
      let up ← s.below i last
      (if up then s.shiftUpUnconditional i last else s.shiftDown last (s.n + 1) i).map fun s =>
        (0, { s with minHeapIdx := Function.update s.minHeapIdx e (-1) })
  else some (-1, s)

/-! ## The cells -/

variable {s s' s'' : MinHeap E} {xs xs' xs'' : Nat → E} {e : E} {h k : Nat}

structure Arranged (s : MinHeap E) (xs : Nat → E) (h : Nat) : Prop where
  room : s.n ≤ s.p.length
  cell : ∀ i < s.n, i ≠ h → s.p[i]? = some (some (xs i))
  index : ∀ i < s.n, i ≠ h → s.minHeapIdx (xs i) = i
  inj : ∀ i < s.n, ∀ j < s.n, xs i = xs j → i = j

/-- The events have been put into other cells, and nothing else has changed. -/
structure Moved (s : MinHeap E) (xs : Nat → E) (s' : MinHeap E) (xs' : Nat → E) : Prop where
  n : s'.n = s.n
  a : s'.a = s.a
  length : s'.p.length = s.p.length
  timeouts : s'.evTimeout = s.evTimeout
  members : ∀ x, (∃ i < s.n, xs' i = x) ↔ ∃ i < s.n, xs i = x
  others : ∀ x, (∀ i < s.n, xs i ≠ x) → s'.minHeapIdx x = s.minHeapIdx x

theorem Moved.trans (m : Moved s xs s' xs') (m' : Moved s' xs' s'' xs'') :
    Moved s xs s'' xs'' where
  n := m'.n.trans m.n
  a := m'.a.trans m.a
  length := m'.length.trans m.length
  timeouts := m'.timeouts.trans m.timeouts
  members x := by
    have h' := m'.members x
    rw [m.n] at h'
    exact h'.trans (m.members x)
  others x hx := by
    rw [m'.others x, m.others x hx]
    intro i hi heq
    rw [m.n] at hi
    obtain ⟨j, hj, hjx⟩ := (m.members x).mp ⟨i, hi, heq⟩
    exact hx j hj hjx

theorem Arranged.read (r : Arranged s xs h) {i : Nat} (hi : i < s.n) (hne : i ≠ h) :
    s.read i = some (xs i) := by
  rw [MinHeap.read, r.cell i hi hne]
  rfl

/-- The child that is chosen is there and is the lesser one. -/
theorem Arranged.leftChild (r : Arranged s xs h) (hle : 2 * (h + 1) ≤ s.n) :
    ∃ left, s.leftChild (2 * (h + 1)) = some left ∧
      ∀ m, m = (if left then 2 * (h + 1) - 1 else 2 * (h + 1)) →
        0 < m ∧ m < s.n ∧ (m - 1) / 2 = h ∧
        ∀ i, 0 < i → i < s.n → (i - 1) / 2 = h →
          s.evTimeout (xs m) ≤ s.evTimeout (xs i) := by
  rw [MinHeap.leftChild]
  split
  next hlast =>
    refine ⟨true, rfl, ?_⟩
    intro m hm
    rw [if_pos rfl] at hm
    refine ⟨by omega, by omega, by omega, fun i hi0 hi hp => ?_⟩
    have him : i = m := by omega
    rw [him]
  next hlast =>
    rw [r.read (i := 2 * (h + 1)) (by omega) (by omega), r.read (by omega) (by omega)]
    refine ⟨_, rfl, ?_⟩
    rintro m rfl
    have hchildren : ∀ i, 0 < i → (i - 1) / 2 = h →
        i = 2 * (h + 1) - 1 ∨ i = 2 * (h + 1) := by
      omega
    split
    next hgt =>
      have hlt := timerGt_iff.mp hgt
      refine ⟨by omega, by omega, by omega, fun i hi0 _ hp => ?_⟩
      rcases hchildren i hi0 hp with rfl | rfl
      · exact le_refl _
      · exact hlt.le
    next hgt =>
      have hge := not_lt.mp fun hlt => hgt (timerGt_iff.mpr hlt)
      refine ⟨by omega, by omega, by omega, fun i hi0 _ hp => ?_⟩
      rcases hchildren i hi0 hp with rfl | rfl
      · exact hge
      · exact le_refl _

/-- The open cell is compared with its parent. -/
theorem Arranged.below (r : Arranged s xs h) (hh : h ≤ s.n) (e : E) :
    s.below h e =
      some (decide (0 < h ∧ s.evTimeout e < s.evTimeout (xs ((h - 1) / 2)))) := by
  rw [MinHeap.below]
  split
  next hpos =>
    rw [r.read (by omega) (by omega), Option.map_some, Option.some_inj, elemGreater,
      Bool.eq_iff_iff, timerGt_iff, decide_eq_true_eq]
    exact ⟨fun hlt => ⟨hpos, hlt⟩, fun hlt => hlt.2⟩
  next hzero => simp [hzero]

/-- What both loops end in. -/
def Settles (s : MinHeap E) (xs : Nat → E) (r : Option (MinHeap E)) : Prop :=
  ∃ s' xs', r = some s' ∧ Arranged s' xs' s'.n ∧ Heap.Ordered (s'.evTimeout ∘ xs') s'.n ∧
    Moved s xs s' xs'

theorem Settles.trans {o : Option (MinHeap E)} (m : Moved s xs s' xs') (h : Settles s' xs' o) :
    Settles s xs o := by
  obtain ⟨t, ys, hs, r, ho, m'⟩ := h
  exact ⟨t, ys, hs, r, ho, m.trans m'⟩

/-! ## The loops -/

variable [DecidableEq E]

theorem put_eq {i : Nat} (hi : i < s.p.length) :
    s.put i e = some { s with
      p := s.p.set i (some e)
      minHeapIdx := Function.update s.minHeapIdx e i } := if_pos hi

theorem swap_lt {n i : Nat} (hh : h < n) (hk : k < n) (hi : i < n) : Equiv.swap h k i < n := by
  rw [Equiv.swap_apply_def]
  split
  · exact hk
  · split
    · exact hh
    · exact hi

/-- An event goes to the open cell and leaves its own one open. -/
theorem Arranged.move (r : Arranged s xs h) (hh : h < s.n) (hk : k < s.n) (hne : k ≠ h) :
    ∃ s', s.put h (xs k) = some s' ∧ Arranged s' (xs ∘ Equiv.swap h k) k ∧
      Moved s xs s' (xs ∘ Equiv.swap h k) := by
  have hroom := r.room
  refine ⟨_, put_eq (by omega), ⟨?_, ?_, ?_, ?_⟩, ⟨rfl, rfl, ?_, rfl, ?_, ?_⟩⟩
  · simpa using hroom
  · intro i hi hik
    by_cases hih : i = h
    · subst hih
      simp [List.getElem?_set_self (show i < s.p.length by omega)]
    · simp only [Function.comp, Equiv.swap_apply_of_ne_of_ne hih hik,
        List.getElem?_set_ne (Ne.symm hih)]
      exact r.cell i hi hih
  · intro i hi hik
    by_cases hih : i = h
    · subst hih
      simp
    · simp only [Function.comp, Equiv.swap_apply_of_ne_of_ne hih hik]
      rw [Function.update_of_ne fun heq => hik (r.inj i hi k hk heq)]
      exact r.index i hi hih
  · intro i hi j hj hij
    exact (Equiv.swap h k).injective
      (r.inj _ (swap_lt hh hk hi) _ (swap_lt hh hk hj) hij)
  · simp
  · intro x
    constructor
    · rintro ⟨i, hi, hx⟩
      exact ⟨_, swap_lt hh hk hi, hx⟩
    · rintro ⟨i, hi, hx⟩
      exact ⟨_, swap_lt hh hk hi, by simpa using hx⟩
  · intro x hx
    exact Function.update_of_ne (Ne.symm (hx k hk)) _ _

/-- The open cell is filled. -/
theorem Arranged.fill (r : Arranged s xs h) (hh : h < s.n) :
    ∃ s', s.put h (xs h) = some s' ∧ Arranged s' xs s'.n ∧ Moved s xs s' xs := by
  have hroom := r.room
  refine ⟨_, put_eq (by omega), ⟨?_, ?_, ?_, r.inj⟩,
    ⟨rfl, rfl, ?_, rfl, fun _ => Iff.rfl, ?_⟩⟩
  · simpa using hroom
  · intro i hi _
    by_cases hih : i = h
    · subst hih
      simp [List.getElem?_set_self (show i < s.p.length by omega)]
    · rw [List.getElem?_set_ne (Ne.symm hih)]
      exact r.cell i hi hih
  · intro i hi _
    by_cases hih : i = h
    · subst hih
      simp
    · exact (Function.update_of_ne (fun heq => hih (r.inj i hi h hh heq)) _ _).trans
        (r.index i hi hih)
  · simp
  · intro x hx
    exact Function.update_of_ne (Ne.symm (hx h hh)) _ _

theorem Arranged.settles (r : Arranged s xs h) (hh : h < s.n)
    (o : Heap.Ordered (s.evTimeout ∘ xs) s.n) : Settles s xs (s.put h (xs h)) := by
  obtain ⟨s', hput, r', m⟩ := r.fill hh
  refine ⟨s', xs, hput, r', ?_, m⟩
  rwa [m.timeouts, m.n]

theorem Arranged.shiftUp : ∀ {c h : Nat} {s : MinHeap E} {xs : Nat → E}, h < c →
    Arranged s xs h → h < s.n → Heap.Rising (s.evTimeout ∘ xs) s.n h →
    Settles s xs (s.shiftUp (xs h) c h)
  | 0, _, _, _, hf, _, _, _ => absurd hf (by omega)
  | c + 1, h, s, xs, hf, r, hh, hr => by
      rw [MinHeap.shiftUp]
      split
      next hpos =>
        have hparent : (h - 1) / 2 < h := by omega
        rw [r.read (by omega) hparent.ne, Option.bind_eq_bind, Option.bind_some]
        split
        next hgt =>
          obtain ⟨s', hput, r', m⟩ := r.move hh (k := (h - 1) / 2) (by omega) hparent.ne
          rw [hput, Option.bind_eq_bind, Option.bind_some]
          have hr' := hr.move hh (by omega) (timerGt_iff.mp hgt)
          rw [Function.comp_assoc, ← m.timeouts, ← m.n] at hr'
          have hset := Arranged.shiftUp (c := c) (by omega) r' (by rw [m.n]; omega) hr'
          rw [Function.comp, Equiv.swap_apply_right] at hset
          exact hset.trans m
        next hgt =>
          refine r.settles hh (hr.finish fun _ => ?_)
          exact not_lt.mp fun hlt => hgt (timerGt_iff.mpr hlt)
      next hzero =>
        exact r.settles hh (hr.finish fun hpos => absurd (by omega) hzero)

theorem Arranged.shiftUpUnconditional (r : Arranged s xs h) (hh : h < s.n) (hpos : 0 < h)
    (hr : Heap.Rising (s.evTimeout ∘ xs) s.n h)
    (hgt : s.evTimeout (xs h) < s.evTimeout (xs ((h - 1) / 2))) :
    Settles s xs (s.shiftUpUnconditional h (xs h)) := by
  have hparent : (h - 1) / 2 < h := by omega
  rw [MinHeap.shiftUpUnconditional, r.read (by omega) hparent.ne, Option.bind_eq_bind,
    Option.bind_some]
  obtain ⟨s', hput, r', m⟩ := r.move hh (k := (h - 1) / 2) (by omega) hparent.ne
  rw [hput, Option.bind_eq_bind, Option.bind_some]
  have hr' := hr.move hh hpos hgt
  rw [Function.comp_assoc, ← m.timeouts, ← m.n] at hr'
  have hset := Arranged.shiftUp (c := h + 1) (by omega) r' (by rw [m.n]; omega) hr'
  rw [Function.comp, Equiv.swap_apply_right] at hset
  exact hset.trans m

theorem Arranged.shiftDown : ∀ {c h : Nat} {s : MinHeap E} {xs : Nat → E}, s.n < c + h →
    s.n < 2 ^ 31 → Arranged s xs h → h < s.n → Heap.Sinking (s.evTimeout ∘ xs) s.n h →
    Settles s xs (s.shiftDown (xs h) c h)
  | 0, _, _, _, hf, _, _, hh, _ => absurd hf (by omega)
  | c + 1, h, s, xs, hf, hn, r, hh, hr => by
      have hmod : 2 * (h + 1) % 2 ^ 32 = 2 * (h + 1) := Nat.mod_eq_of_lt (by omega)
      rw [MinHeap.shiftDown, hmod]
      simp only
      split
      next hle =>
        obtain ⟨left, hleft, hchild⟩ := r.leftChild hle
        rw [hleft, Option.bind_eq_bind, Option.bind_some]
        generalize hm : (if left = true then 2 * (h + 1) - 1 else 2 * (h + 1)) = m
        obtain ⟨hm0, hmn, hp, hleast⟩ := hchild m hm.symm
        rw [r.read hmn (by omega), Option.bind_eq_bind, Option.bind_some]
        split
        next hgt =>
          have hlt := timerGt_iff.mp hgt
          obtain ⟨s', hput, r', mv⟩ := r.move hh (k := m) hmn (by omega)
          rw [hput, Option.bind_eq_bind, Option.bind_some]
          have hr' := hr.move hm0 hmn hp hleast hlt
          rw [Function.comp_assoc, ← mv.timeouts, ← mv.n] at hr'
          have hset := Arranged.shiftDown (c := c) (by rw [mv.n]; omega)
            (by rw [mv.n]; exact hn) r' (by rw [mv.n]; exact hmn) hr'
          rw [Function.comp, Equiv.swap_apply_right] at hset
          exact hset.trans mv
        next hgt =>
          have hge := not_lt.mp fun hlt => hgt (timerGt_iff.mpr hlt)
          exact r.settles hh (hr.finish fun i hi0 hi hp' => hge.trans (hleast i hi0 hi hp'))
      next hgt => exact r.settles hh (hr.finish fun i hi0 hi hp => by omega)

/-! ## The operations -/

/-- The heap is in order, every event in it knows its cell and every other one knows that it
is not in it. -/
structure Sound (s : MinHeap E) (xs : Nat → E) : Prop where
  cells : Arranged s xs s.n
  ordered : Heap.Ordered (s.evTimeout ∘ xs) s.n
  out : ∀ x, (∀ i < s.n, xs i ≠ x) → s.minHeapIdx x = -1
  block : s.a = s.p.length

theorem Sound.mem_iff (hs : Sound s xs) (x : E) :
    s.minHeapIdx x ≠ -1 ↔ ∃ i < s.n, xs i = x := by
  constructor
  · intro hx
    by_contra hno
    exact hx (hs.out x fun i hi heq => hno ⟨i, hi, heq⟩)
  · rintro ⟨i, hi, rfl⟩
    rw [hs.cells.index i hi hi.ne]
    omega

omit [DecidableEq E] in
theorem Sound.le_card [Fintype E] (hs : Sound s xs) : s.n ≤ Fintype.card E := by
  have hcard := Fintype.card_le_of_injective (fun i : Fin s.n => xs i) fun i j hij =>
    Fin.ext (hs.cells.inj i i.2 j j.2 hij)
  rwa [Fintype.card_fin] at hcard

/-- Only the timeout of an event that is not in the heap may be set. -/
theorem Sound.setTimeout (hs : Sound s xs) (he : s.minHeapIdx e = -1) (t : Timeval) :
    Sound { s with evTimeout := Function.update s.evTimeout e t } xs where
  cells := ⟨hs.cells.room, hs.cells.cell, hs.cells.index, hs.cells.inj⟩
  ordered := hs.ordered.congr fun i hi => by
    have hne : xs i ≠ e := fun heq => (hs.mem_iff e).mpr ⟨i, hi, heq⟩ he
    exact Function.update_of_ne hne _ _
  out := hs.out
  block := hs.block

/-- The top is the earliest event. -/
theorem Sound.top (hs : Sound s xs) :
    (s.top = some none ∧ s.n = 0 ∧ ∀ x, s.minHeapIdx x = -1) ∨
    ∃ e, s.top = some (some e) ∧ s.minHeapIdx e ≠ -1 ∧
      ∀ x, s.minHeapIdx x ≠ -1 → s.evTimeout e ≤ s.evTimeout x := by
  rw [MinHeap.top]
  by_cases hn : s.n = 0
  · exact .inl ⟨by simp [hn], hn, fun x => hs.out x fun i hi => by omega⟩
  · refine .inr ⟨xs 0, ?_, (hs.mem_iff _).mpr ⟨0, by omega, rfl⟩, fun x hx => ?_⟩
    · rw [if_pos hn, hs.cells.read (by omega) (Ne.symm hn), Option.map_some]
    · obtain ⟨i, hi, rfl⟩ := (hs.mem_iff x).mp hx
      exact hs.ordered.le i hi

omit [DecidableEq E] in
theorem Sound.reserve (hs : Sound s xs) (n : Nat) (alloc : Bool) :
    (s.reserve n alloc = (-1, s) ∧ s.a < n ∧ alloc = false) ∨
    ∃ s', s.reserve n alloc = (0, s') ∧ Sound s' xs ∧ n ≤ s'.a ∧ s'.n = s.n ∧
      s'.evTimeout = s.evTimeout ∧ s'.minHeapIdx = s.minHeapIdx := by
  rw [MinHeap.reserve]
  split
  next hlt =>
    generalize (if s.a ≠ 0 then s.a * 2 % 2 ^ 32 else 8) = a
    have hblock := hs.block
    cases alloc with
    | false => exact .inl ⟨rfl, hlt, rfl⟩
    | true =>
        have ha : n ≤ (if a < n then n else a) := by
          split <;> omega
        refine .inr ⟨_, rfl, ⟨⟨?_, ?_, hs.cells.index, hs.cells.inj⟩, hs.ordered, hs.out, ?_⟩,
          ha, rfl, rfl, rfl⟩
        · have hroom := hs.cells.room
          simp only [List.length_append]
          omega
        · intro i hi hne
          have hroom := hs.cells.room
          simp only at hi
          rw [List.getElem?_append_left (by omega)]
          exact hs.cells.cell i hi hne
        · simp only [List.length_append, List.length_replicate]
          omega
  next hge => exact .inr ⟨s, rfl, hs, by omega, rfl, rfl, rfl⟩

omit [DecidableEq E] in
/-- An open cell behind the last one. -/
theorem Sound.appended (hs : Sound s xs) (hroom : s.n + 1 ≤ s.a) (he : ∀ i < s.n, xs i ≠ e) :
    Arranged { s with n := s.n + 1 } (Function.update xs s.n e) s.n := by
  have hblock := hs.block
  have hnew : ∀ i < s.n, Function.update xs s.n e i = xs i := fun i hi =>
    Function.update_of_ne hi.ne _ _
  refine ⟨by simp only; omega, fun i hi hne => ?_, fun i hi hne => ?_, fun i hi j hj hij => ?_⟩
  · simp only at hi
    rw [hnew i (by omega)]
    exact hs.cells.cell i (by omega) (by omega)
  · simp only at hi
    rw [hnew i (by omega)]
    exact hs.cells.index i (by omega) (by omega)
  · simp only at hi hj
    rcases Nat.lt_or_ge i s.n with hin | hin <;> rcases Nat.lt_or_ge j s.n with hjn | hjn
    · rw [hnew i hin, hnew j hjn] at hij
      exact hs.cells.inj i hin j hjn hij
    · rw [hnew i hin, show j = s.n by omega, Function.update_self] at hij
      exact absurd hij (he i hin)
    · rw [hnew j hjn, show i = s.n by omega, Function.update_self] at hij
      exact absurd hij.symm (he j hjn)
    · omega

/-- An event that is not in the heap. -/
theorem Sound.push (hs : Sound s xs) (hn : s.n < 2 ^ 31) (he : s.minHeapIdx e = -1)
    (alloc : Bool) :
    (s.push e alloc = some (-1, s) ∧ s.a ≤ s.n) ∨
    ∃ s' xs', s.push e alloc = some (0, s') ∧ Sound s' xs' ∧ s'.evTimeout = s.evTimeout ∧
      s'.n = s.n + 1 ∧ ∀ x, s'.minHeapIdx x ≠ -1 ↔ x = e ∨ s.minHeapIdx x ≠ -1 := by
  have hmod : (s.n + 1) % 2 ^ 32 = s.n + 1 := Nat.mod_eq_of_lt (by omega)
  rw [MinHeap.push, hmod]
  rcases hs.reserve (s.n + 1) alloc with ⟨hr, hlt, -⟩ | ⟨s₁, hr, hs₁, hroom, hn₁, ht₁, hi₁⟩
  · rw [hr]
    exact .inl ⟨rfl, by omega⟩
  · rw [hr]
    simp only [hn₁, hmod]
    have hnew : ∀ i < s.n, Function.update xs s.n e i = xs i := fun i hi =>
      Function.update_of_ne hi.ne _ _
    have hfresh : ∀ i < s.n, xs i ≠ e := fun i hi heq => (hs.mem_iff e).mpr ⟨i, hi, heq⟩ he
    have hcells : Arranged { s₁ with n := s.n + 1 } (Function.update xs s.n e) s.n := by
      rw [← hn₁] at hfresh hroom ⊢
      exact hs₁.appended hroom hfresh
    have hrising : Heap.Rising (s₁.evTimeout ∘ Function.update xs s.n e) (s.n + 1) s.n := by
      rw [ht₁]
      exact hs.ordered.append fun i hi => congrArg s.evTimeout (hnew i hi)
    obtain ⟨s', xs', hup, hcells', hordered, m⟩ :=
      hcells.shiftUp (c := s.n + 1) (by omega) (by simp only; omega) hrising
    rw [Function.update_self] at hup
    have hmembers : ∀ x, (∃ i < s.n + 1, xs' i = x) ↔ x = e ∨ ∃ i < s.n, xs i = x := by
      intro x
      refine (m.members x).trans ⟨?_, ?_⟩
      · rintro ⟨i, hi, rfl⟩
        rcases Nat.lt_or_ge i s.n with hin | hin
        · exact .inr ⟨i, hin, (hnew i hin).symm⟩
        · simp only at hi
          rw [show i = s.n by omega, Function.update_self]
          exact .inl rfl
      · rintro (rfl | ⟨i, hi, rfl⟩)
        · exact ⟨s.n, by simp only; omega, Function.update_self _ _ _⟩
        · exact ⟨i, by simp only; omega, hnew i hi⟩
    have hs' : Sound s' xs' := by
      refine ⟨hcells', hordered, fun x hx => ?_, ?_⟩
      · have hno : ¬ (x = e ∨ ∃ i < s.n, xs i = x) := fun hmem => by
          obtain ⟨i, hi, heq⟩ := (hmembers x).mpr hmem
          exact hx i (by rw [m.n]; exact hi) heq
        rw [m.others x fun i hi heq => hno ?_, hi₁]
        · exact hs.out x fun i hi heq => hno (.inr ⟨i, hi, heq⟩)
        · exact (hmembers x).mp ((m.members x).mpr ⟨i, hi, heq⟩)
      · rw [m.a, m.length, hs₁.block]
    refine .inr ⟨s', xs', by rw [hup, Option.map_some], hs', by rw [m.timeouts, ht₁],
      m.n, fun x => ?_⟩
    rw [hs'.mem_iff x, hs.mem_iff x, m.n]
    exact hmembers x

/-- The event of the cell `h` has left, and the others have only moved. -/
structure Left (s : MinHeap E) (xs : Nat → E) (h : Nat) (s' : MinHeap E) (xs' : Nat → E) :
    Prop where
  cells : Arranged s' xs' s'.n
  ordered : Heap.Ordered (s'.evTimeout ∘ xs') s'.n
  n : s'.n + 1 = s.n
  a : s'.a = s.a
  length : s'.p.length = s.p.length
  timeouts : s'.evTimeout = s.evTimeout
  members : ∀ x, (∃ i < s'.n, xs' i = x) ↔ x ≠ xs h ∧ ∃ i < s.n, xs i = x
  others : ∀ x, x ≠ xs h → (∀ i < s.n, xs i ≠ x) → s'.minHeapIdx x = s.minHeapIdx x

/-- The index of the event that has left is reset. -/
theorem Left.sound (l : Left s xs h s' xs') (hs : Sound s xs) :
    Sound { s' with minHeapIdx := Function.update s'.minHeapIdx (xs h) (-1) } xs' where
  cells := ⟨l.cells.room, l.cells.cell, fun i hi hne =>
    (Function.update_of_ne ((l.members _).mp ⟨i, hi, rfl⟩).1 _ _).trans (l.cells.index i hi hne),
    l.cells.inj⟩
  ordered := l.ordered
  out x hx := by
    by_cases hxe : x = xs h
    · rw [hxe]
      exact Function.update_self _ _ _
    · have hout : ∀ i < s.n, xs i ≠ x := fun i hi heq => by
        obtain ⟨j, hj, hjx⟩ := (l.members x).mpr ⟨hxe, i, hi, heq⟩
        exact hx j hj hjx
      exact (Function.update_of_ne hxe _ _).trans ((l.others x hxe hout).trans (hs.out x hout))
  block := l.a.trans (hs.block.trans l.length.symm)

omit [DecidableEq E] in
/-- The cells without the last one, when its event is meant for the cell `h`. -/
theorem Sound.vacated (hs : Sound s xs) (hh : h + 1 < s.n) :
    Arranged { s with n := s.n - 1 } (Function.update xs h (xs (s.n - 1))) h := by
  have hroom := hs.cells.room
  refine ⟨by simp only; omega, fun i hi hne => ?_, fun i hi hne => ?_, fun i hi j hj hij => ?_⟩
  · simp only at hi
    rw [Function.update_of_ne hne]
    exact hs.cells.cell i (by omega) (by omega)
  · simp only at hi
    rw [Function.update_of_ne hne]
    exact hs.cells.index i (by omega) (by omega)
  · simp only at hi hj
    by_cases hih : i = h <;> by_cases hjh : j = h
    · rw [hih, hjh]
    · rw [hih, Function.update_self, Function.update_of_ne hjh] at hij
      have := hs.cells.inj _ (by omega) _ (by omega) hij
      omega
    · rw [hjh, Function.update_self, Function.update_of_ne hih] at hij
      have := hs.cells.inj _ (by omega) _ (by omega) hij
      omega
    · rw [Function.update_of_ne hih, Function.update_of_ne hjh] at hij
      exact hs.cells.inj _ (by omega) _ (by omega) hij

/-- The last event is put in order from the cell `h`.  It cannot need to move both ways. -/
theorem Sound.settles_last (hs : Sound s xs) (hn : s.n < 2 ^ 31) (hh : h + 1 < s.n) :
    ∃ up, ({ s with n := s.n - 1 } : MinHeap E).below h (xs (s.n - 1)) = some up ∧
      Settles { s with n := s.n - 1 } (Function.update xs h (xs (s.n - 1)))
        (if up then
          ({ s with n := s.n - 1 } : MinHeap E).shiftUpUnconditional h (xs (s.n - 1))
        else ({ s with n := s.n - 1 } : MinHeap E).shiftDown (xs (s.n - 1)) (s.n - 1 + 1) h) := by
  have hcells := hs.vacated hh
  have ho : Heap.Ordered (s.evTimeout ∘ xs) (s.n - 1) := hs.ordered.mono (by omega)
  have hsame : ∀ i < s.n - 1, i ≠ h →
      (s.evTimeout ∘ Function.update xs h (xs (s.n - 1))) i = (s.evTimeout ∘ xs) i :=
    fun i _ hne => congrArg s.evTimeout (Function.update_of_ne hne _ _)
  refine ⟨_, hcells.below (by simp only; omega) _, ?_⟩
  have hlast : Function.update xs h (xs (s.n - 1)) h = xs (s.n - 1) := Function.update_self _ _ _
  by_cases hup : 0 < h ∧ s.evTimeout (xs (s.n - 1)) <
      s.evTimeout (Function.update xs h (xs (s.n - 1)) ((h - 1) / 2))
  · rw [if_pos (decide_eq_true hup)]
    have hlt : s.evTimeout (Function.update xs h (xs (s.n - 1)) h) <
        s.evTimeout (Function.update xs h (xs (s.n - 1)) ((h - 1) / 2)) := by
      rw [hlast]
      exact hup.2
    have hset := hcells.shiftUpUnconditional (by simp only; omega) hup.1
      (ho.rising hsame (by omega) hup.1 hlt) hlt
    rwa [hlast] at hset
  · rw [if_neg (by rw [decide_eq_true_eq]; exact hup)]
    have hset := hcells.shiftDown (c := s.n - 1 + 1) (by simp only; omega) (by simp only; omega)
      (by simp only; omega) (ho.sinking hsame (by omega) fun hpos => by
        rw [Function.comp, Function.comp, hlast]
        exact not_lt.mp fun hlt => hup ⟨hpos, hlt⟩)
    rwa [hlast] at hset

omit [DecidableEq E] in
/-- The last event has taken the place of another one. -/
theorem Sound.left_of_settles (hs : Sound s xs) (hh : h + 1 < s.n)
    (hcells : Arranged s' xs' s'.n) (ho : Heap.Ordered (s'.evTimeout ∘ xs') s'.n)
    (m : Moved { s with n := s.n - 1 } (Function.update xs h (xs (s.n - 1))) s' xs') :
    Left s xs h s' xs' := by
  have hn : s'.n = s.n - 1 := m.n
  have hmembers : ∀ x, (∃ i < s.n - 1, Function.update xs h (xs (s.n - 1)) i = x) ↔
      x ≠ xs h ∧ ∃ i < s.n, xs i = x := by
    intro x
    constructor
    · rintro ⟨i, hi, rfl⟩
      by_cases hih : i = h
      · rw [hih, Function.update_self]
        refine ⟨fun heq => ?_, s.n - 1, by omega, rfl⟩
        have := hs.cells.inj _ (by omega) h (by omega) heq
        omega
      · rw [Function.update_of_ne hih]
        exact ⟨fun heq => hih (hs.cells.inj i (by omega) h (by omega) heq), i, by omega, rfl⟩
    · rintro ⟨hne, i, hi, rfl⟩
      have hih : i ≠ h := fun heq => hne (by rw [heq])
      by_cases hlast : i = s.n - 1
      · exact ⟨h, by omega, by rw [hlast, Function.update_self]⟩
      · exact ⟨i, by omega, Function.update_of_ne hih _ _⟩
  refine ⟨hcells, ho, by omega, m.a, m.length, m.timeouts, fun x => ?_, fun x hx hno => ?_⟩
  · rw [hn]
    exact (m.members x).trans (hmembers x)
  · refine m.others x fun i hi heq => ?_
    obtain ⟨-, j, hj, hjx⟩ := (hmembers x).mp ⟨i, hi, heq⟩
    exact hno j hj hjx

/-- The last event leaves its own cell. -/
theorem Sound.left_last (hs : Sound s xs) (hn : s.n < 2 ^ 31) (hh : h + 1 = s.n) :
    ({ s with n := h } : MinHeap E).below h (xs h) = some false ∧
      ∃ s', ({ s with n := h } : MinHeap E).shiftDown (xs h) (h + 1) h = some s' ∧
        Left s xs h s' xs := by
  have hroom := hs.cells.room
  have hcells : Arranged { s with n := h } xs h :=
    ⟨by simp only; omega,
      fun i hi _ => hs.cells.cell i (by simp only at hi; omega) (by simp only at hi; omega),
      fun i hi _ => hs.cells.index i (by simp only at hi; omega) (by simp only at hi; omega),
      fun i hi j hj => hs.cells.inj i (by simp only at hi; omega) j (by simp only at hj; omega)⟩
  have hne : ∀ i < h, xs i ≠ xs h := fun i hi heq => by
    have := hs.cells.inj i (by omega) h (by omega) heq
    omega
  constructor
  · rw [hcells.below le_rfl, Option.some_inj, decide_eq_false_iff_not]
    rintro ⟨hpos, hlt⟩
    exact absurd (hs.ordered h hpos (by omega)) (not_le.mpr hlt)
  · have hmod : 2 * (h + 1) % 2 ^ 32 = 2 * (h + 1) := Nat.mod_eq_of_lt (by omega)
    rw [MinHeap.shiftDown, hmod]
    simp only
    rw [if_neg (by omega), put_eq (by simp only; omega)]
    refine ⟨_, rfl, ⟨?_, fun i hi _ => ?_, fun i hi _ => ?_, hcells.inj⟩,
      hs.ordered.mono (by simp only; omega), hh, rfl, List.length_set .., rfl, fun x => ?_,
      fun x hx _ => Function.update_of_ne hx _ _⟩
    · change h ≤ (s.p.set h _).length
      rw [List.length_set]
      omega
    · exact (List.getElem?_set_ne (Ne.symm (Nat.ne_of_lt hi))).trans
        (hcells.cell i hi (Nat.ne_of_lt hi))
    · exact (Function.update_of_ne (hne i hi) _ _).trans (hcells.index i hi (Nat.ne_of_lt hi))
    · constructor
      · rintro ⟨i, hi, rfl⟩
        exact ⟨hne i hi, i, Nat.lt_of_lt_of_eq (Nat.lt_succ_of_lt hi) hh, rfl⟩
      · rintro ⟨hx, i, hi, rfl⟩
        have hih : i ≠ h := fun heq => hx (by rw [heq])
        exact ⟨i, by simp only; omega, rfl⟩

/-- Any event of the heap. -/
theorem Sound.erase (hs : Sound s xs) (hn : s.n < 2 ^ 31) (he : s.minHeapIdx e ≠ -1) :
    ∃ s' xs', s.erase e = some (0, s') ∧ Sound s' xs' ∧ s'.evTimeout = s.evTimeout ∧
      s'.n + 1 = s.n ∧ s'.a = s.a ∧
      ∀ x, s'.minHeapIdx x ≠ -1 ↔ x ≠ e ∧ s.minHeapIdx x ≠ -1 := by
  obtain ⟨h, hh, rfl⟩ := (hs.mem_iff e).mp he
  have hidx : s.minHeapIdx (xs h) = h := hs.cells.index h hh hh.ne
  have hmoves : ∃ up s' xs',
      ({ s with n := s.n - 1 } : MinHeap E).below h (xs (s.n - 1)) = some up ∧
      (if up then
          ({ s with n := s.n - 1 } : MinHeap E).shiftUpUnconditional h (xs (s.n - 1))
        else ({ s with n := s.n - 1 } : MinHeap E).shiftDown (xs (s.n - 1)) (s.n - 1 + 1) h) =
          some s' ∧ Left s xs h s' xs' := by
    rcases Nat.lt_or_ge (h + 1) s.n with hlt | hge
    · obtain ⟨up, hbelow, s', xs', hr, hcells, ho, m⟩ := hs.settles_last hn hlt
      exact ⟨up, s', xs', hbelow, hr, hs.left_of_settles hlt hcells ho m⟩
    · have hlast : s.n - 1 = h := by omega
      obtain ⟨hbelow, s', hr, l⟩ := hs.left_last hn (h := h) (by omega)
      rw [hlast]
      exact ⟨false, s', xs, hbelow, hr, l⟩
  obtain ⟨up, s', xs', hbelow, hr, l⟩ := hmoves
  rw [MinHeap.erase, if_pos he, if_neg (by omega),
    hs.cells.read (i := s.n - 1) (by omega) (by omega), Option.bind_eq_bind, Option.bind_some]
  simp only [hidx, Int.toNat_natCast]
  rw [hbelow, Option.bind_eq_bind, Option.bind_some, hr, Option.map_some]
  have hs' := l.sound hs
  refine ⟨_, xs', rfl, hs', l.timeouts, l.n, l.a, fun x => ?_⟩
  rw [hs'.mem_iff x, hs.mem_iff x]
  exact l.members x

end MinHeap

end VmpSa.Event
