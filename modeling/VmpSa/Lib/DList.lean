import Mathlib.Data.List.Chain
import Mathlib.Data.List.Nodup
import Mathlib.Logic.Function.Basic
import Mathlib.Tactic.Common

/-!
# Doubly linked lists

The links of a memory of nodes: every node has a `next` and a `prev`.  A list
is the ring of nodes around a head node that carries no element.  The
operations are the usual ones of an intrusive list: they only write links, and
they do not look at what is linked.

`Ring m head xs` says that the nodes under `head` are exactly `xs`, in this
order, with both links right.  Each operation has one lemma that says what it
does to the ring.

A list can also stand between two sentinels.  `Linked m w` says that the nodes of
the row `w` are linked both ways, and says it of any place in the row at which a
node is put in or taken out.
-/

namespace DList

/-- The two links of every node. -/
structure Links (A : Type) where
  next : A → A
  prev : A → A

variable {A : Type} [DecidableEq A]

/-! ## Operations -/

def setNext (m : Links A) (a b : A) : Links A :=
  { m with next := Function.update m.next a b }

def setPrev (m : Links A) (a b : A) : Links A :=
  { m with prev := Function.update m.prev a b }

def initListHead (m : Links A) (list : A) : Links A :=
  setPrev (setNext m list list) list list

/-- Insert a new entry between two known consecutive entries. -/
def listInsert (m : Links A) (new prev next : A) : Links A :=
  setNext (setPrev (setNext (setPrev m next new) new next) new prev) prev new

def listAddTail (m : Links A) (new head : A) : Links A :=
  listInsert m new (m.prev head) head

/-- Make two entries point to each other. -/
def listJoin (m : Links A) (prev next : A) : Links A :=
  setNext (setPrev m next prev) prev next

/-- The links of the deleted entry itself stay as they are. -/
def listDel (m : Links A) (entry : A) : Links A :=
  listJoin m (m.prev entry) (m.next entry)

def listEmpty (m : Links A) (head : A) : Bool :=
  m.next head = head

/-! ## Paths -/

omit [DecidableEq A] in
/-- From `a` one walks through `xs` to `b`, and back. -/
def Path (m : Links A) : A → List A → A → Prop
  | a, [], b => m.next a = b ∧ m.prev b = a
  | a, x :: xs, b => (m.next a = x ∧ m.prev x = a) ∧ Path m x xs b

/-- The nodes under `head` are `xs`. -/
structure Ring (m : Links A) (head : A) (xs : List A) : Prop where
  path : Path m head xs head
  nodup : (head :: xs).Nodup

variable {m m' : Links A} {a b x head : A} {xs ys : List A}

omit [DecidableEq A] in
/-- A path only depends on the links of its own nodes. -/
theorem Path.congr (hnext : ∀ y ∈ a :: xs, m'.next y = m.next y)
    (hprev : ∀ y ∈ xs ++ [b], m'.prev y = m.prev y) (h : Path m a xs b) : Path m' a xs b := by
  induction xs generalizing a with
  | nil =>
      obtain ⟨hn, hp⟩ := h
      exact ⟨(hnext a (by simp)).trans hn, (hprev b (by simp)).trans hp⟩
  | cons y ys ih =>
      obtain ⟨⟨hn, hp⟩, hrest⟩ := h
      refine ⟨⟨(hnext a (by simp)).trans hn, (hprev y (by simp)).trans hp⟩, ?_⟩
      refine ih (fun z hz => hnext z (List.mem_cons_of_mem a hz)) (fun z hz => hprev z ?_) hrest
      exact List.mem_cons_of_mem y hz

omit [DecidableEq A] in
theorem path_concat : Path m a (xs ++ [x]) b ↔ Path m a xs x ∧ m.next x = b ∧ m.prev b = x := by
  induction xs generalizing a with
  | nil => rfl
  | cons y ys ih =>
      rw [List.cons_append, Path, Path, ih]
      exact and_assoc.symm

omit [DecidableEq A] in
/-- The node one leaves last on the way to `b` is the `prev` of `b`. -/
theorem Path.prev_eq (h : Path m a xs b) : m.prev b = (a :: xs).getLast (by simp) := by
  induction xs generalizing a with
  | nil => exact h.2
  | cons y ys ih => rw [ih h.2, List.getLast_cons_cons]

/-! ## Rings -/

theorem ring_initListHead (m : Links A) (head : A) : Ring (initListHead m head) head [] := by
  refine ⟨⟨?_, ?_⟩, List.nodup_singleton head⟩
  · show Function.update m.next head head head = head
    rw [Function.update_self]
  · show Function.update m.prev head head head = head
    rw [Function.update_self]

omit [DecidableEq A] in
/-- The node after the head is the first of the list, or the head again. -/
theorem Ring.next_head (h : Ring m head xs) : m.next head = xs.headD head := by
  have hp := h.path
  cases xs with
  | nil => exact hp.1
  | cons y ys => exact hp.1.1

omit [DecidableEq A] in
theorem Ring.next_first (h : Ring m head (x :: xs)) : m.next x = xs.headD head := by
  have hp := h.path.2
  cases xs with
  | nil => exact hp.1
  | cons y ys => exact hp.1.1

theorem Ring.listEmpty_iff (h : Ring m head xs) : listEmpty m head = true ↔ xs = [] := by
  rw [listEmpty, decide_eq_true_iff, h.next_head]
  cases xs with
  | nil => simp
  | cons y ys =>
      have hne : head ≠ y := fun he => (List.nodup_cons.mp h.nodup).1 (by simp [he])
      simpa using hne.symm

omit [DecidableEq A] in
theorem Ring.prev_mem (h : Ring m head xs) : m.prev head ∈ head :: xs := by
  rw [h.path.prev_eq]
  exact List.getLast_mem _

/-- A new node goes to the end. -/
theorem Ring.listAddTail (h : Ring m head xs) (hnew : x ∉ head :: xs) :
    Ring (listAddTail m x head) head (xs ++ [x]) := by
  have hxh : x ≠ head := fun he => hnew (by simp [he])
  have hxl : x ≠ m.prev head := fun he => hnew (he ▸ h.prev_mem)
  have hnext : ∀ y ≠ x, y ≠ m.prev head → (DList.listAddTail m x head).next y = m.next y := by
    intro y hy hl
    show Function.update (Function.update m.next x head) (m.prev head) x y = m.next y
    rw [Function.update_of_ne hl, Function.update_of_ne hy]
  have hprev : ∀ y ≠ x, y ≠ head → (DList.listAddTail m x head).prev y = m.prev y := by
    intro y hy hh
    show Function.update (Function.update m.prev head x) x (m.prev head) y = m.prev y
    rw [Function.update_of_ne hy, Function.update_of_ne hh]
  have hlast : (DList.listAddTail m x head).next (m.prev head) = x := Function.update_self ..
  have hback : (DList.listAddTail m x head).prev x = m.prev head := Function.update_self ..
  have hnodup : (head :: (xs ++ [x])).Nodup := by
    rw [← List.cons_append, List.nodup_append_comm]
    exact List.nodup_cons.mpr ⟨hnew, h.nodup⟩
  refine ⟨path_concat.mpr ⟨?_, ?_, ?_⟩, hnodup⟩
  · -- the way to the new node leaves the old ring at its last node
    rcases List.eq_nil_or_concat xs with rfl | ⟨ys, l, rfl⟩
    · have hself : m.prev head = head := h.path.2
      rw [hself] at hlast hback
      exact ⟨hlast, hback⟩
    · rw [List.concat_eq_append] at h hnew
      obtain ⟨hpath, -, hl⟩ := path_concat.mp h.path
      rw [hl] at hnext hlast hback
      have hnd : (head :: ys ++ [l]).Nodup := h.nodup
      rw [List.nodup_append] at hnd
      rw [List.concat_eq_append, path_concat]
      refine ⟨hpath.congr (fun y hy => hnext y ?_ ?_) (fun y hy => hprev y ?_ ?_), hlast, hback⟩
      · rintro rfl
        exact hnew (List.mem_append_left [l] hy)
      · exact hnd.2.2 y hy l (by simp)
      · rintro rfl
        exact hnew (List.mem_cons_of_mem head hy)
      · rintro rfl
        exact (List.nodup_cons.mp h.nodup).1 hy
  · show Function.update (Function.update m.next x head) (m.prev head) x x = head
    rw [Function.update_of_ne hxl, Function.update_self]
  · show Function.update (Function.update m.prev head x) x (m.prev head) head = x
    rw [Function.update_of_ne hxh.symm, Function.update_self]

/-- Deleting the first node leaves the others. -/
theorem Ring.listDel (h : Ring m head (x :: xs)) : Ring (listDel m x) head xs := by
  obtain ⟨⟨-, hp⟩, hpath⟩ := h.path
  obtain ⟨hh, hnd⟩ := List.nodup_cons.mp h.nodup
  obtain ⟨hx, hxs⟩ := List.nodup_cons.mp hnd
  have hmem : head ∉ xs := fun hm => hh (List.mem_cons_of_mem x hm)
  have hnext : (DList.listDel m x).next = Function.update m.next head (m.next x) := by
    rw [← hp]
    rfl
  have hprev : (DList.listDel m x).prev = Function.update m.prev (m.next x) head := by
    rw [← hp]
    rfl
  refine ⟨?_, List.nodup_cons.mpr ⟨hmem, hxs⟩⟩
  cases xs with
  | nil =>
      have hback : m.next x = head := hpath.1
      constructor
      · rw [hnext, hback, Function.update_self]
      · rw [hprev, hback, Function.update_self]
  | cons y ys =>
      obtain ⟨⟨hy, -⟩, hrest⟩ := hpath
      rw [hy] at hnext hprev
      refine ⟨⟨?_, ?_⟩, hrest.congr (fun z hz => ?_) (fun z hz => ?_)⟩
      · rw [hnext, Function.update_self]
      · rw [hprev, Function.update_self]
      · have hz' : z ≠ head := by
          rintro rfl
          exact hmem hz
        rw [hnext, Function.update_of_ne hz']
      · have hz' : z ≠ y := by
          rintro rfl
          rcases List.mem_append.mp hz with hin | hin
          · exact (List.nodup_cons.mp hxs).1 hin
          · exact hmem (by simp [List.mem_singleton.mp hin])
        rw [hprev, Function.update_of_ne hz']

/-! ## Chains of links

A list with a sentinel at each end: the nodes in a row are linked both ways. -/

omit [DecidableEq A] in
/-- Neighbours in the row point to each other. -/
def Linked (m : Links A) (w : List A) : Prop := w.IsChain fun u v => m.next u = v ∧ m.prev v = u

variable {w l₁ l₂ : List A} {p n : A}

omit [DecidableEq A] in
theorem Linked.congr (hnext : ∀ y ∈ w.dropLast, m'.next y = m.next y)
    (hprev : ∀ y ∈ w.tail, m'.prev y = m.prev y) (h : Linked m w) : Linked m' w := by
  induction w with
  | nil => exact .nil
  | cons u w ih =>
      cases w with
      | nil => exact .singleton u
      | cons v w =>
          obtain ⟨⟨hn, hp⟩, hw⟩ := List.isChain_cons_cons.mp h
          refine List.isChain_cons_cons.mpr ⟨⟨?_, ?_⟩, ih ?_ ?_ hw⟩
          · rw [hnext u List.mem_cons_self, hn]
          · rw [hprev v List.mem_cons_self, hp]
          · exact fun y hy => hnext y (List.mem_cons_of_mem u hy)
          · exact fun y hy => hprev y (List.mem_cons_of_mem v hy)

omit [DecidableEq A] in
/-- Other nodes between two nodes of a row, when the links of the rest stay. -/
theorem Linked.replace (xs ys : List A) (h : Linked m (l₁ ++ p :: (xs ++ n :: l₂)))
    (hfront : ∀ y ∈ l₁, m'.next y = m.next y) (hfront' : ∀ y ∈ l₁ ++ [p], m'.prev y = m.prev y)
    (hback : ∀ y ∈ n :: l₂, m'.next y = m.next y) (hback' : ∀ y ∈ l₂, m'.prev y = m.prev y)
    (hmid : Linked m' (p :: (ys ++ [n]))) : Linked m' (l₁ ++ p :: (ys ++ n :: l₂)) := by
  obtain ⟨hl, hr⟩ := List.isChain_split.mp h
  have hr : Linked m ((p :: xs) ++ n :: l₂) := hr
  have hr : Linked m (n :: l₂) := (List.isChain_split.mp hr).2
  have hl' : Linked m' (l₁ ++ [p]) := by
    refine Linked.congr (fun y hy => hfront y ?_) (fun y hy => hfront' y ?_) hl
    · rwa [List.dropLast_concat] at hy
    · exact List.mem_of_mem_tail hy
  have hr' : Linked m' (n :: l₂) :=
    Linked.congr (fun y hy => hback y (List.dropLast_subset _ hy)) hback' hr
  have hmid' : Linked m' ((p :: ys) ++ n :: l₂) := List.isChain_split.mpr ⟨hmid, hr'⟩
  exact List.isChain_split.mpr ⟨hl', hmid'⟩

/-- A node that is not in the row is put between two neighbours. -/
theorem Linked.insert (h : Linked m (l₁ ++ p :: n :: l₂)) (hd : (l₁ ++ p :: n :: l₂).Nodup)
    (hx : x ∉ l₁ ++ p :: n :: l₂) :
    Linked (listInsert m x p n) (l₁ ++ p :: x :: n :: l₂) := by
  have hnext : ∀ y, y ≠ p → y ≠ x → (listInsert m x p n).next y = m.next y := by
    intro y hp hy
    show Function.update (Function.update m.next x n) p x y = m.next y
    rw [Function.update_of_ne hp, Function.update_of_ne hy]
  have hprev : ∀ y, y ≠ n → y ≠ x → (listInsert m x p n).prev y = m.prev y := by
    intro y hn hy
    show Function.update (Function.update m.prev n x) x p y = m.prev y
    rw [Function.update_of_ne hy, Function.update_of_ne hn]
  have hne : ∀ y ∈ l₁ ++ p :: n :: l₂, y ≠ x := fun y hy he => hx (he ▸ hy)
  have hxp : x ≠ p := (hne p (by simp)).symm
  have hxn : n ≠ x := hne n (by simp)
  simp only [List.nodup_append, List.nodup_cons, List.mem_cons, not_or] at hd
  obtain ⟨-, ⟨⟨hpn, hpl⟩, hnl, -⟩, hdis⟩ := hd
  refine Linked.replace [] [x] h ?_ ?_ ?_ ?_ ?_
  · exact fun y hy => hnext y (hdis y hy p (.inl rfl)) (hne y (by simp [hy]))
  · intro y hy
    rcases List.mem_append.mp hy with hl | hp
    · exact hprev y (hdis y hl n (.inr (.inl rfl))) (hne y (by simp [hl]))
    · rw [List.mem_singleton.mp hp]
      exact hprev p hpn hxp.symm
  · intro y hy
    rcases List.mem_cons.mp hy with rfl | hr
    · exact hnext y (Ne.symm hpn) hxn
    · exact hnext y (fun he => hpl (he ▸ hr)) (hne y (by simp [hr]))
  · exact fun y hy => hprev y (fun he => hnl (he ▸ hy)) (hne y (by simp [hy]))
  · refine List.isChain_cons_cons.mpr ⟨⟨Function.update_self .., Function.update_self ..⟩,
      List.isChain_pair.mpr ⟨?_, ?_⟩⟩
    · show Function.update (Function.update m.next x n) p x x = n
      rw [Function.update_of_ne hxp, Function.update_self]
    · show Function.update (Function.update m.prev n x) x p n = x
      rw [Function.update_of_ne hxn, Function.update_self]

/-- The neighbours of a node that is taken out become neighbours. -/
theorem Linked.delete (h : Linked m (l₁ ++ p :: x :: n :: l₂))
    (hd : (l₁ ++ p :: x :: n :: l₂).Nodup) : Linked (listDel m x) (l₁ ++ p :: n :: l₂) := by
  obtain ⟨-, hpx, hxn⟩ := List.isChain_append_cons_cons.mp h
  have hpn := (List.isChain_cons_cons.mp hxn).1
  have hnext : (listDel m x).next = Function.update m.next p n := by
    rw [← hpx.2, ← hpn.1]
    rfl
  have hprev : (listDel m x).prev = Function.update m.prev n p := by
    rw [← hpx.2, ← hpn.1]
    rfl
  simp only [List.nodup_append, List.nodup_cons, List.mem_cons, not_or] at hd
  obtain ⟨-, ⟨⟨-, hpn', hpl⟩, -, hnl, -⟩, hdis⟩ := hd
  refine Linked.replace [x] [] h ?_ ?_ ?_ ?_ ?_
  · intro y hy
    rw [hnext, Function.update_of_ne (hdis y hy p (.inl rfl))]
  · intro y hy
    rw [hprev, Function.update_of_ne]
    rcases List.mem_append.mp hy with hl | hp
    · exact hdis y hl n (.inr (.inr (.inl rfl)))
    · rw [List.mem_singleton.mp hp]
      exact hpn'
  · intro y hy
    rw [hnext, Function.update_of_ne]
    rcases List.mem_cons.mp hy with rfl | hr
    · exact Ne.symm hpn'
    · exact fun he => hpl (he ▸ hr)
  · intro y hy
    rw [hprev, Function.update_of_ne]
    rintro rfl
    exact hnl hy
  · refine List.isChain_pair.mpr ⟨?_, ?_⟩
    · rw [hnext, Function.update_self]
    · rw [hprev, Function.update_self]

/-! ## Stacks of nodes

A free list borrows one link of its nodes. -/

omit [DecidableEq A] in
/-- From `a` the links lead through `xs` to `stop`. -/
def Stack (next : A → A) (stop : A) : A → List A → Prop
  | a, [] => a = stop
  | a, x :: xs => a = x ∧ Stack next stop (next x) xs

omit [DecidableEq A] in
/-- A stack only depends on the links of its nodes. -/
theorem Stack.congr {f g : A → A} {stop : A} (hfg : ∀ y ∈ xs, g y = f y)
    (h : Stack f stop a xs) : Stack g stop a xs := by
  induction xs generalizing a with
  | nil => exact h
  | cons x xs ih =>
      refine ⟨h.1, ?_⟩
      rw [hfg x List.mem_cons_self]
      exact ih (fun y hy => hfg y (List.mem_cons_of_mem x hy)) h.2

end DList
