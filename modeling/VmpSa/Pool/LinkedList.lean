import Mathlib.Data.List.Perm.Basic
import VmpSa.Lib.DList
import VmpSa.Lib.Loop

/-!
# The queues of the pool in memory

`common/threadpool/LinkedList.c` keeps a list between two sentinels that are part of the
`LinkedList`, and `FreeList.c` keeps the nodes that were taken out for the next ones.  A
free node is linked by its first word, which is the `prev` of a list node.

A memory is the links and items of all addresses, with the blocks that `malloc` gave and
`free` did not get back.  `fault` is set when a node is used that is neither a sentinel
nor such a block, and when something else is freed.

`Rep` ties a memory to the list of nodes and items it holds.  Every call keeps it, so
that lists of jobs are a faithful model of the queues, and no call is a fault
(`linked_list_refines`).
-/

namespace VmpSa.Pool

open DList

/-! ## The model -/

/-- NULL and the two sentinels. -/
structure Fixed (A : Type) where
  null : A
  head : A
  tail : A
  distinct : [null, head, tail].Nodup

/-- `FREELISTSIZE` -/
def freeListSize : Nat := 100

/-- `LinkedList`, with its `FreeList` and the memory.  An item is a pointer, `none` is
NULL. -/
structure LinkedList (A T : Type) where
  links : Links A
  item : A → Option T
  size : Int
  freeHead : A
  freeListLength : Nat
  live : List A
  fault : Bool

variable {A T : Type} [DecidableEq A] (p : Fixed A)

namespace LinkedList

/-- A node that can be used. -/
def There (l : LinkedList A T) (a : A) : Prop := a = p.head ∨ a = p.tail ∨ a ∈ l.live

instance (l : LinkedList A T) (a : A) : Decidable (l.There p a) :=
  inferInstanceAs (Decidable (_ ∨ _))

/-- A node is used. -/
def touch (l : LinkedList A T) (a : A) : LinkedList A T :=
  { l with fault := l.fault || !decide (l.There p a) }

/-- `free` -/
def release (l : LinkedList A T) (a : A) : LinkedList A T :=
  { l with live := l.live.erase a, fault := l.fault || !decide (a ∈ l.live) }

end LinkedList

/-- `FreeListAlloc`; `mem` is what `malloc` returns. -/
def freeListAlloc (l : LinkedList A T) (mem : Option A) : LinkedList A T × Option A :=
  if l.freeHead ≠ p.null then
    ({ l.touch p l.freeHead with
        freeHead := l.links.prev l.freeHead
        freeListLength := l.freeListLength - 1 },
      some l.freeHead)
  else
    match mem with
    | none => (l, none)
    | some a => ({ l with live := a :: l.live }, some a)

/-- `FreeListFree` -/
def freeListFree (l : LinkedList A T) (element : A) : LinkedList A T :=
  if element ≠ p.null ∧ l.freeListLength + 1 < freeListSize then
    { l.touch p element with
      freeListLength := l.freeListLength + 1
      links := setPrev l.links element l.freeHead
      freeHead := element }
  else l.release element

/-- `CreateListNode` -/
def createListNode (l : LinkedList A T) (item : Option T) (mem : Option A) :
    LinkedList A T × Option A :=
  match freeListAlloc p l mem with
  | (l, none) => (l, none)
  | (l, some temp) =>
      ({ l.touch p temp with
          links := setNext (setPrev l.links temp p.null) temp p.null
          item := Function.update l.item temp item },
        some temp)

/-- `ListInit` -/
def listInit (m : Links A) (item : A → Option T) : LinkedList A T where
  links := setNext (setPrev (setPrev (setNext m p.head p.tail) p.head p.null) p.tail p.head)
    p.tail p.null
  item := Function.update (Function.update item p.head none) p.tail none
  size := 0
  freeHead := p.null
  freeListLength := 0
  live := []
  fault := false

/-- `ListAddAfter` -/
def listAddAfter (l : LinkedList A T) (item : Option T) (bnode : A) (mem : Option A) :
    LinkedList A T × Option A :=
  match createListNode p l item mem with
  | (l, none) => (l, none)
  | (l, some new) =>
      let temp := l.links.next bnode
      ({ (l.touch p bnode).touch p temp with
          links := setPrev (setNext (setPrev (setNext l.links bnode new) new bnode) new temp) temp
            new
          size := l.size + 1 },
        some new)

/-- `ListAddBefore` -/
def listAddBefore (l : LinkedList A T) (item : Option T) (anode : A) (mem : Option A) :
    LinkedList A T × Option A :=
  match createListNode p l item mem with
  | (l, none) => (l, none)
  | (l, some new) =>
      let temp := l.links.prev anode
      ({ (l.touch p anode).touch p temp with
          links := setNext (setPrev (setNext (setPrev l.links anode new) new anode) new temp) temp
            new
          size := l.size + 1 },
        some new)

/-- `ListAddHead` -/
def listAddHead (l : LinkedList A T) (item : Option T) (mem : Option A) :
    LinkedList A T × Option A :=
  listAddAfter p l item p.head mem

/-- `ListAddTail` -/
def linkedListAddTail (l : LinkedList A T) (item : Option T) (mem : Option A) :
    LinkedList A T × Option A :=
  listAddBefore p l item p.tail mem

/-- `ListDelNode`, without freeing the item. -/
def listDelNode (l : LinkedList A T) (dnode : A) : LinkedList A T × Option T :=
  if dnode = p.head ∨ dnode = p.tail ∨ dnode = p.null then (l, none)
  else
    let prev := l.links.prev dnode
    let next := l.links.next dnode
    let l' := { ((l.touch p dnode).touch p prev).touch p next with
      links := setPrev (setNext l.links prev next) next prev }
    ({ freeListFree p l' dnode with size := l.size - 1 }, l.item dnode)

/-- `ListHead` -/
def listHead (l : LinkedList A T) : Option A :=
  if l.size = 0 then none else some (l.links.next p.head)

/-- The loop of `ListFind`; `cmp` is `cmp_func` with the item looked for. -/
def findBody (cmp : Option T → Bool) (l : LinkedList A T) (finger : A) :
    Loop.Pass A (Option A) :=
  if finger = p.tail then .leave none
  else if cmp (l.item finger) then .leave (some finger)
  else .again (l.links.next finger)

/-- `ListFind` from the start.  `none` when the loop does not end. -/
def listFind (cmp : Option T → Bool) (l : LinkedList A T) : Option (Option A) :=
  Loop.run (findBody p cmp l) (l.live.length + 1) (l.links.next p.head)

/-- The loop of `ListDestroy`. -/
def destroyBody (s : LinkedList A T × A) : Loop.Pass (LinkedList A T × A) (LinkedList A T) :=
  if s.2 = p.tail then .leave s.1
  else
    let temp := s.1.links.next s.2
    .again ((listDelNode p (s.1.touch p s.2) s.2).1, temp)

/-- The loop of `FreeListDestroy`. -/
def freeListDestroyBody (l : LinkedList A T) : Loop.Pass (LinkedList A T) (LinkedList A T) :=
  if l.freeHead = p.null then .leave { l with freeListLength := 0 }
  else
    let temp := l.links.prev l.freeHead
    .again { (l.touch p l.freeHead).release l.freeHead with freeHead := temp }

/-- `ListDestroy`.  `none` when a loop in it does not end. -/
def listDestroy (l : LinkedList A T) : Option (LinkedList A T) :=
  match Loop.run (destroyBody p) (l.live.length + 1) (l, l.links.next p.head) with
  | none => none
  | some l =>
      Loop.run (freeListDestroyBody p) (l.live.length + 1) { l with size := 0 }

/-! ## Lists of nodes and items -/

/-- A pair put behind the node `b`. -/
def putAfter (b : A) (new : A × Option T) : List (A × Option T) → List (A × Option T)
  | [] => []
  | x :: xs => if x.1 = b then x :: new :: xs else x :: putAfter b new xs

/-- A pair put in front of the node `a`. -/
def putBefore (a : A) (new : A × Option T) : List (A × Option T) → List (A × Option T)
  | [] => []
  | x :: xs => if x.1 = a then new :: x :: xs else x :: putBefore a new xs

/-- A call that changes a list. -/
inductive ListOp (A T : Type) where
  | addHead (item : Option T) (mem : Option A)
  | addTail (item : Option T) (mem : Option A)
  | addAfter (item : Option T) (bnode : A) (mem : Option A)
  | addBefore (item : Option T) (anode : A) (mem : Option A)
  | delNode (dnode : A)

/-- The call in memory. -/
def ListOp.run (l : LinkedList A T) : ListOp A T → LinkedList A T
  | .addHead item mem => (listAddHead p l item mem).1
  | .addTail item mem => (linkedListAddTail p l item mem).1
  | .addAfter item bnode mem => (listAddAfter p l item bnode mem).1
  | .addBefore item anode mem => (listAddBefore p l item anode mem).1
  | .delNode dnode => (listDelNode p l dnode).1

/-- The node a new item gets: a free one, or what `malloc` returns. -/
def LinkedList.nextNode (l : LinkedList A T) (mem : Option A) : Option A :=
  if l.freeHead ≠ p.null then some l.freeHead else mem

/-- The call on the list of nodes and items. -/
def ListOp.apply (l : LinkedList A T) (xs : List (A × Option T)) :
    ListOp A T → List (A × Option T)
  | .addHead item mem => ((l.nextNode p mem).map (·, item)).toList ++ xs
  | .addTail item mem => xs ++ ((l.nextNode p mem).map (·, item)).toList
  | .addAfter item b mem =>
      match l.nextNode p mem with
      | none => xs
      | some new => if b = p.head then (new, item) :: xs else putAfter b (new, item) xs
  | .addBefore item a mem =>
      match l.nextNode p mem with
      | none => xs
      | some new => if a = p.tail then xs ++ [(new, item)] else putBefore a (new, item) xs
  | .delNode d => xs.filter (·.1 ≠ d)

/-- What `malloc` returns is NULL or a new block. -/
def Fresh (l : LinkedList A T) (mem : Option A) : Prop :=
  ∀ a ∈ mem, a ∉ [p.null, p.head, p.tail] ++ l.live

/-- What a caller has to see to: a node it names is a node of the list, or the sentinel at
the right end. -/
def ListOp.Allowed (l : LinkedList A T) (xs : List (A × Option T)) : ListOp A T → Prop
  | .addHead _ mem => Fresh p l mem
  | .addTail _ mem => Fresh p l mem
  | .addAfter _ b mem => Fresh p l mem ∧ (b = p.head ∨ b ∈ xs.map Prod.fst)
  | .addBefore _ a mem => Fresh p l mem ∧ (a = p.tail ∨ a ∈ xs.map Prod.fst)
  | .delNode d => d ∈ xs.map Prod.fst

/-- The memories that calls lead to, with the lists they stand for. -/
inductive ListRun : LinkedList A T → List (A × Option T) → Prop where
  | init (m : Links A) (item : A → Option T) : ListRun (listInit p m item) []
  | step {l : LinkedList A T} {xs : List (A × Option T)} {op : ListOp A T} :
      ListRun l xs → op.Allowed p l xs → ListRun (op.run p l) (op.apply p l xs)

/-! ## The representation -/

/-- The nodes of a list. -/
def nodes (xs : List (A × Option T)) : List A := xs.map Prod.fst

/-- The row of a list between its sentinels. -/
def row (xs : List (A × Option T)) : List A := p.head :: (nodes xs ++ [p.tail])

/-- The memory `l` holds the list `xs`, keeps the nodes `fs` for later, and has the nodes
`held` in hand. -/
structure Rep (l : LinkedList A T) (xs : List (A × Option T)) (held fs : List A) : Prop where
  linked : Linked l.links (row p xs)
  items : ∀ x ∈ xs, l.item x.1 = x.2
  size : l.size = xs.length
  stack : Stack l.links.prev p.null l.freeHead fs
  freeListLength : l.freeListLength = fs.length
  short : fs.length < freeListSize
  nodup : ([p.null, p.head, p.tail] ++ (nodes xs ++ (held ++ fs))).Nodup
  live : l.live.Perm (nodes xs ++ (held ++ fs))
  safe : l.fault = false

variable {p} {l : LinkedList A T} {xs ys zs : List (A × Option T)} {held fs l₁ l₂ : List A}
  {a b d new pn nn : A} {mem : Option A} {item : Option T}

namespace Rep

omit [DecidableEq A] in
theorem not_mem (h : Rep p l xs held fs) (hb : b ∈ [p.null, p.head, p.tail]) :
    b ∉ nodes xs ++ (held ++ fs) := fun hmem =>
  (List.nodup_append.mp h.nodup).2.2 b hb b hmem rfl

omit [DecidableEq A] in
theorem mem_live (h : Rep p l xs held fs) : a ∈ l.live ↔ a ∈ nodes xs ++ (held ++ fs) :=
  h.live.mem_iff

/-- A node that is there is used without a fault. -/
theorem touch_eq (ha : l.There p a) : l.touch p a = l := by
  rw [LinkedList.touch, decide_eq_true ha]
  simp

omit [DecidableEq A] in
theorem there_row (h : Rep p l xs held fs) (ha : a ∈ row p xs) : l.There p a := by
  rcases List.mem_cons.mp ha with rfl | ha
  · exact .inl rfl
  · rcases List.mem_append.mp ha with hx | ht
    · exact .inr (.inr (h.mem_live.mpr (List.mem_append_left _ hx)))
    · exact .inr (.inl (List.mem_singleton.mp ht))

omit [DecidableEq A] in
/-- What is in hand or free is not in the row. -/
theorem not_mem_row (h : Rep p l xs held fs) (ha : a ∈ held ++ fs) : a ∉ row p xs := by
  have hnodes := (List.nodup_append.mp (List.nodup_append.mp h.nodup).2.1).2.2
  intro hmem
  rcases List.mem_cons.mp hmem with rfl | hmem
  · exact h.not_mem (by simp) (List.mem_append_right _ ha)
  · rcases List.mem_append.mp hmem with hx | ht
    · exact hnodes a hx a ha rfl
    · rw [List.mem_singleton.mp ht] at ha
      exact h.not_mem (by simp) (List.mem_append_right _ ha)

omit [DecidableEq A] in
theorem nodup_nodes (h : Rep p l xs held fs) : (nodes xs).Nodup :=
  (List.nodup_append.mp (List.nodup_append.mp h.nodup).2.1).1

omit [DecidableEq A] in
/-- The row of a list has no node twice. -/
theorem nodup_row (h : Rep p l xs held fs) : (row p xs).Nodup := by
  have hhead : p.head ∉ nodes xs := fun hm =>
    h.not_mem (by simp) (List.mem_append_left _ hm)
  have htail : p.tail ∉ nodes xs := fun hm =>
    h.not_mem (by simp) (List.mem_append_left _ hm)
  have hne : p.head ≠ p.tail := by
    have hd := p.distinct
    simp only [List.nodup_cons, List.mem_cons, not_or] at hd
    exact hd.2.1.1
  refine List.nodup_cons.mpr ⟨by simp [hhead, hne], ?_⟩
  rw [List.nodup_append]
  refine ⟨h.nodup_nodes, List.nodup_singleton _, ?_⟩
  rintro x hx y hy rfl
  rw [List.mem_singleton.mp hy] at hx
  exact htail hx

omit [DecidableEq A] in
theorem not_mem_fs_of_row (h : Rep p l xs held fs) (ha : a ∈ row p xs) : a ∉ fs := fun hfs =>
  h.not_mem_row (List.mem_append_right held hfs) ha

omit [DecidableEq A] in
/-- Links that agree on the row and on the free nodes hold the same. -/
theorem links_congr (h : Rep p l xs held fs) {m : Links A} {item : A → Option T}
    (hnext : ∀ y ∈ row p xs, m.next y = l.links.next y)
    (hprev : ∀ y ∈ row p xs ++ fs, m.prev y = l.links.prev y)
    (hitem : ∀ y ∈ nodes xs, item y = l.item y) :
    Rep p { l with links := m, item := item } xs held fs where
  linked := h.linked.congr (fun y hy => hnext y (List.dropLast_subset _ hy))
    (fun y hy => hprev y (List.mem_append_left fs (List.mem_of_mem_tail hy)))
  items := fun x hx => (hitem x.1 (List.mem_map_of_mem hx)).trans (h.items x hx)
  size := h.size
  stack := h.stack.congr fun y hy => hprev y (List.mem_append_right _ hy)
  freeListLength := h.freeListLength
  short := h.short
  nodup := h.nodup
  live := h.live
  safe := h.safe

/-! ## Taking a node -/

omit [DecidableEq A] in
/-- The first free node is in hand once the list has gone on to the next. -/
theorem alloc_free (h : Rep p l xs [] (f :: fs)) :
    Rep p { l with freeHead := l.links.prev f, freeListLength := l.freeListLength - 1 }
      xs [f] fs := by
  obtain ⟨-, hstack⟩ := h.stack
  have hlen := h.freeListLength
  have hshort := h.short
  rw [List.length_cons] at hlen hshort
  exact
    { linked := h.linked
      items := h.items
      size := h.size
      stack := hstack
      freeListLength := by
        show l.freeListLength - 1 = fs.length
        rw [hlen, Nat.add_sub_cancel]
      short := Nat.lt_of_succ_lt hshort
      nodup := h.nodup
      live := h.live
      safe := h.safe }

omit [DecidableEq A] in
/-- A new block is in hand once it is live. -/
theorem alloc_new (h : Rep p l xs [] []) (hfresh : new ∉ [p.null, p.head, p.tail] ++ l.live) :
    Rep p { l with live := new :: l.live } xs [new] [] where
  linked := h.linked
  items := h.items
  size := h.size
  stack := h.stack
  freeListLength := h.freeListLength
  short := h.short
  nodup := by
    have hout : new ∉ nodes xs := fun hm =>
      hfresh (List.mem_append_right _ (h.mem_live.mpr (List.mem_append_left _ hm)))
    have hd := h.nodup
    rw [List.append_nil, List.append_nil] at hd
    rw [List.append_nil, ← List.append_assoc, List.nodup_append]
    refine ⟨hd, List.nodup_singleton new, ?_⟩
    rintro x hx y hy rfl
    rw [List.mem_singleton.mp hy] at hx
    rcases List.mem_append.mp hx with hf | hx
    · exact hfresh (List.mem_append_left _ hf)
    · exact absurd hx hout
  live := by
    have hp := h.live
    rw [List.append_nil, List.append_nil] at hp
    exact (hp.cons new).trans (List.perm_append_singleton new _).symm
  safe := h.safe

omit [DecidableEq A] in
/-- No node is free when the free list has no head. -/
theorem free_nil (h : Rep p l xs [] fs) (hhead : l.freeHead = p.null) : fs = [] := by
  cases fs with
  | nil => rfl
  | cons f fs =>
      obtain ⟨hf, -⟩ := h.stack
      rw [hhead] at hf
      exact absurd (by rw [hf]; simp) (h.not_mem (b := p.null) (by simp))

/-- `FreeListAlloc` puts a node in hand: the first free one, or a new block. -/
theorem alloc (h : Rep p l xs [] fs) (hfresh : Fresh p l mem) :
    match l.nextNode p mem with
    | none => freeListAlloc p l mem = (l, none)
    | some new => ∃ l' fs', freeListAlloc p l mem = (l', some new) ∧ Rep p l' xs [new] fs' := by
  unfold LinkedList.nextNode freeListAlloc
  by_cases hfree : l.freeHead ≠ p.null
  · rw [if_pos hfree, if_pos hfree]
    obtain ⟨f, fs, rfl⟩ : ∃ f fs', fs = f :: fs' := by
      cases fs with
      | nil => exact absurd h.stack hfree
      | cons f fs => exact ⟨f, fs, rfl⟩
    obtain ⟨hf, -⟩ := h.stack
    have hthere : l.There p l.freeHead := by
      refine .inr (.inr (h.mem_live.mpr ?_))
      rw [hf]
      simp
    rw [touch_eq hthere, hf]
    exact ⟨_, fs, rfl, h.alloc_free⟩
  · rw [if_neg hfree, if_neg hfree]
    cases mem with
    | none => rfl
    | some new =>
        cases h.free_nil (not_not.mp hfree)
        exact ⟨_, [], rfl, h.alloc_new (hfresh new rfl)⟩

/-- `CreateListNode` puts a node with the item in hand. -/
theorem create (h : Rep p l xs [] fs) (hfresh : Fresh p l mem) (item : Option T) :
    match l.nextNode p mem with
    | none => createListNode p l item mem = (l, none)
    | some new => ∃ l' fs', createListNode p l item mem = (l', some new) ∧
        Rep p l' xs [new] fs' ∧ l'.item new = item := by
  have halloc := h.alloc hfresh
  unfold createListNode
  cases hnode : l.nextNode p mem with
  | none =>
      rw [hnode] at halloc
      dsimp only at halloc ⊢
      rw [halloc]
  | some new =>
      rw [hnode] at halloc
      obtain ⟨l', fs', halloc, h'⟩ := halloc
      dsimp only
      rw [halloc]
      have hthere : l'.There p new := .inr (.inr (h'.mem_live.mpr (by simp)))
      have hrow : ∀ y ∈ row p xs, y ≠ new := by
        rintro y hy rfl
        exact h'.not_mem_row (by simp) hy
      have hfs : ∀ y ∈ fs', y ≠ new := by
        rintro y hy rfl
        have hd := (List.nodup_append.mp (List.nodup_append.mp h'.nodup).2.1).2.1
        exact (List.nodup_cons.mp hd).1 hy
      refine ⟨_, fs', rfl, ?_, Function.update_self ..⟩
      rw [touch_eq hthere]
      refine h'.links_congr (fun y hy => ?_) (fun y hy => ?_) (fun y hy => ?_)
      · exact Function.update_of_ne (hrow y hy) _ _
      · refine Function.update_of_ne ?_ _ _
        rcases List.mem_append.mp hy with hy | hy
        · exact hrow y hy
        · exact hfs y hy
      · exact Function.update_of_ne
          (hrow y (List.mem_cons_of_mem _ (List.mem_append_left _ hy))) _ _

/-! ## Linking and unlinking -/

omit [DecidableEq A] in
theorem row_eq (hl : p.head :: nodes ys = l₁ ++ [pn]) (hr : nodes zs ++ [p.tail] = nn :: l₂) :
    row p (ys ++ zs) = l₁ ++ pn :: nn :: l₂ := by
  have happ : row p (ys ++ zs) = (p.head :: nodes ys) ++ (nodes zs ++ [p.tail]) := by
    simp [row, nodes]
  rw [happ, hl, hr, List.append_assoc]
  rfl

omit [DecidableEq A] in
theorem row_cons_eq (x : A × Option T) (hl : p.head :: nodes ys = l₁ ++ [pn])
    (hr : nodes zs ++ [p.tail] = nn :: l₂) :
    row p (ys ++ x :: zs) = l₁ ++ pn :: x.1 :: nn :: l₂ := by
  have happ : row p (ys ++ x :: zs) = (p.head :: nodes ys) ++ x.1 :: (nodes zs ++ [p.tail]) := by
    simp [row, nodes]
  rw [happ, hl, hr, List.append_assoc]
  rfl

/-- The node in hand is linked between two neighbours. -/
theorem insert (h : Rep p l (ys ++ zs) [new] fs) (hl : p.head :: nodes ys = l₁ ++ [pn])
    (hr : nodes zs ++ [p.tail] = nn :: l₂) (hitem : l.item new = item) :
    Rep p { l with links := listInsert l.links new pn nn, size := l.size + 1 }
      (ys ++ (new, item) :: zs) [] fs := by
  have hrow := row_eq hl hr
  have hnew : new ∉ row p (ys ++ zs) := h.not_mem_row (by simp)
  have hperm : (nodes (ys ++ (new, item) :: zs) ++ ([] ++ fs)).Perm
      (nodes (ys ++ zs) ++ ([new] ++ fs)) := by
    simp only [nodes, List.map_append, List.map_cons, List.nil_append, List.append_assoc,
      List.cons_append]
    exact List.perm_middle.symm.append_left _
  exact
    { linked := by
        rw [row_cons_eq (new, item) hl hr]
        have hlinked := h.linked
        have hnodup := h.nodup_row
        rw [hrow] at hlinked hnodup hnew
        exact hlinked.insert hnodup hnew
      items := by
        intro x hx
        rcases List.mem_append.mp hx with hx | hx
        · exact h.items x (List.mem_append_left zs hx)
        · rcases List.mem_cons.mp hx with rfl | hx
          · exact hitem
          · exact h.items x (List.mem_append_right ys hx)
      size := by
        have hsize := h.size
        simp only [List.length_append, List.length_cons] at hsize ⊢
        omega
      stack := by
        refine h.stack.congr fun y hy => ?_
        have hpn : y ≠ nn := by
          rintro rfl
          exact h.not_mem_fs_of_row (by rw [hrow]; simp) hy
        have hyn : y ≠ new := by
          rintro rfl
          have hd := (List.nodup_append.mp (List.nodup_append.mp h.nodup).2.1).2.1
          exact (List.nodup_cons.mp hd).1 hy
        show Function.update (Function.update l.links.prev nn new) new pn y = l.links.prev y
        rw [Function.update_of_ne hyn, Function.update_of_ne hpn]
      freeListLength := h.freeListLength
      short := h.short
      nodup := ((hperm.append_left _).nodup_iff).mpr h.nodup
      live := h.live.trans hperm.symm
      safe := h.safe }

/-- A node of the list is unlinked and in hand. -/
theorem unlink {x : A × Option T} (h : Rep p l (ys ++ x :: zs) [] fs)
    (hl : p.head :: nodes ys = l₁ ++ [pn]) (hr : nodes zs ++ [p.tail] = nn :: l₂) :
    Rep p { l with links := listDel l.links x.1, size := l.size - 1 } (ys ++ zs) [x.1] fs ∧
      l.links.prev x.1 = pn ∧ l.links.next x.1 = nn := by
  have hrow := row_cons_eq x hl hr
  have hlinked := h.linked
  have hnodup := h.nodup_row
  rw [hrow] at hlinked hnodup
  obtain ⟨-, hpx, hxn⟩ := List.isChain_append_cons_cons.mp hlinked
  have hpn := (List.isChain_cons_cons.mp hxn).1
  have hperm : (nodes (ys ++ x :: zs) ++ ([] ++ fs)).Perm (nodes (ys ++ zs) ++ ([x.1] ++ fs)) := by
    simp only [nodes, List.map_append, List.map_cons, List.nil_append, List.append_assoc,
      List.cons_append]
    exact List.perm_middle.symm.append_left _
  refine ⟨?_, hpx.2, hpn.1⟩
  exact
    { linked := by
        rw [row_eq hl hr]
        exact hlinked.delete hnodup
      items := by
        intro y hy
        refine h.items y ?_
        rcases List.mem_append.mp hy with hy | hy
        · exact List.mem_append_left _ hy
        · exact List.mem_append_right _ (List.mem_cons_of_mem x hy)
      size := by
        have hsize := h.size
        simp only [List.length_append, List.length_cons] at hsize ⊢
        omega
      stack := by
        refine h.stack.congr fun y hy => ?_
        have hyn : y ≠ nn := by
          rintro rfl
          exact h.not_mem_fs_of_row (by rw [hrow]; simp) hy
        show Function.update l.links.prev (l.links.next x.1) (l.links.prev x.1) y = l.links.prev y
        rw [hpn.1, Function.update_of_ne hyn]
      freeListLength := h.freeListLength
      short := h.short
      nodup := ((hperm.append_left _).nodup_iff).mp h.nodup
      live := h.live.trans hperm
      safe := h.safe }

/-- `FreeListFree` takes the node in hand: for later, or back to the system. -/
theorem freed (h : Rep p l xs [a] fs) : ∃ fs', Rep p (freeListFree p l a) xs [] fs' := by
  have hnull : a ≠ p.null := fun he => h.not_mem (b := p.null) (by simp) (by simp [he])
  have hnodes := List.nodup_append.mp (List.nodup_append.mp h.nodup).2.1
  have hafs : a ∉ fs := (List.nodup_cons.mp hnodes.2.1).1
  unfold freeListFree
  split
  next hroom =>
    refine ⟨a :: fs, ?_⟩
    have hthere : l.There p a := .inr (.inr (h.mem_live.mpr (by simp)))
    rw [touch_eq hthere]
    have hprev : ∀ y, y ≠ a → (setPrev l.links a l.freeHead).prev y = l.links.prev y :=
      fun y hy => Function.update_of_ne hy _ _
    have hkeep : Linked (setPrev l.links a l.freeHead) (row p xs) := by
      refine Linked.congr (m := l.links) (fun y _ => rfl) (fun y hy => hprev y ?_) h.linked
      rintro rfl
      exact h.not_mem_row (by simp) (List.mem_of_mem_tail hy)
    exact
      { linked := hkeep
        items := h.items
        size := h.size
        stack := by
          refine ⟨rfl, ?_⟩
          have hself : (setPrev l.links a l.freeHead).prev a = l.freeHead :=
            Function.update_self ..
          rw [hself]
          refine h.stack.congr fun y hy => hprev y ?_
          rintro rfl
          exact hafs hy
        freeListLength := congrArg (· + 1) h.freeListLength
        short := by
          have hlen := h.freeListLength
          rw [List.length_cons, ← hlen]
          exact hroom.2
        nodup := h.nodup
        live := h.live
        safe := h.safe }
  next =>
    refine ⟨fs, ?_⟩
    have hmem : a ∈ l.live := h.mem_live.mpr (by simp)
    have hmiddle : (nodes xs ++ ([a] ++ fs)).Perm (a :: (nodes xs ++ fs)) := List.perm_middle
    exact
      { linked := h.linked
        items := h.items
        size := h.size
        stack := h.stack
        freeListLength := h.freeListLength
        short := h.short
        nodup := by
          have hd := ((hmiddle.append_left [p.null, p.head, p.tail]).nodup_iff).mp h.nodup
          exact hd.sublist (List.Sublist.append_left (List.sublist_cons_self a _) _)
        live := by
          have herase := (h.live.trans hmiddle).erase a
          rwa [List.erase_cons_head] at herase
        safe := by
          show (l.fault || !decide (a ∈ l.live)) = false
          rw [h.safe, decide_eq_true hmem]
          rfl }

end Rep

/-! ## The calls -/

omit [DecidableEq A] in
/-- The last node in front of a place in the row. -/
theorem exists_front (p : Fixed A) (ys : List (A × Option T)) :
    ∃ l₁ pn, p.head :: nodes ys = l₁ ++ [pn] := by
  rcases List.eq_nil_or_concat (p.head :: nodes ys) with hnil | ⟨l₁, pn, hl⟩
  · cases hnil
  · exact ⟨l₁, pn, hl.trans List.concat_eq_append⟩

omit [DecidableEq A] in
/-- The first node behind a place in the row. -/
theorem exists_back (p : Fixed A) (zs : List (A × Option T)) :
    ∃ nn l₂, nodes zs ++ [p.tail] = nn :: l₂ := by
  cases zs with
  | nil => exact ⟨p.tail, [], rfl⟩
  | cons z zs => exact ⟨z.1, nodes zs ++ [p.tail], rfl⟩

theorem exists_split (hb : b ∈ nodes xs) :
    ∃ ys t zs, xs = ys ++ (b, t) :: zs ∧ b ∉ nodes ys := by
  induction xs with
  | nil => cases hb
  | cons x xs ih =>
      by_cases hx : x.1 = b
      · exact ⟨[], x.2, xs, by rw [← hx]; rfl, List.not_mem_nil⟩
      · rcases List.mem_cons.mp hb with rfl | hb
        · exact absurd rfl hx
        · obtain ⟨ys, t, zs, rfl, hys⟩ := ih hb
          refine ⟨x :: ys, t, zs, rfl, ?_⟩
          rw [nodes, List.map_cons, List.mem_cons, not_or]
          exact ⟨Ne.symm hx, hys⟩

theorem putAfter_append (hb : b ∉ nodes ys) (t : Option T) (zs : List (A × Option T))
    (x : A × Option T) :
    putAfter b x (ys ++ (b, t) :: zs) = ys ++ (b, t) :: x :: zs := by
  induction ys with
  | nil => exact if_pos rfl
  | cons y ys ih =>
      rw [nodes, List.map_cons, List.mem_cons, not_or] at hb
      rw [List.cons_append, putAfter, if_neg (Ne.symm hb.1), ih hb.2]
      rfl

theorem putBefore_append (hb : b ∉ nodes ys) (t : Option T) (zs : List (A × Option T))
    (x : A × Option T) :
    putBefore b x (ys ++ (b, t) :: zs) = ys ++ x :: (b, t) :: zs := by
  induction ys with
  | nil => exact if_pos rfl
  | cons y ys ih =>
      rw [nodes, List.map_cons, List.mem_cons, not_or] at hb
      rw [List.cons_append, putBefore, if_neg (Ne.symm hb.1), ih hb.2]
      rfl

theorem filter_append (hd : (nodes (ys ++ (b, item) :: zs)).Nodup) :
    (ys ++ (b, item) :: zs).filter (·.1 ≠ b) = ys ++ zs := by
  rw [nodes, List.map_append, List.map_cons, List.nodup_middle, List.nodup_cons,
    List.mem_append, not_or] at hd
  have hkeep : ∀ ws : List (A × Option T), b ∉ ws.map Prod.fst → ws.filter (·.1 ≠ b) = ws := by
    intro ws hws
    refine List.filter_eq_self.mpr fun w hw => ?_
    refine decide_eq_true ?_
    rintro rfl
    exact hws (List.mem_map_of_mem hw)
  rw [List.filter_append, List.filter_cons_of_neg (by simp), hkeep ys hd.1.1, hkeep zs hd.1.2]

/-- The links `ListAddAfter` writes are those of an insertion. -/
theorem links_after {m : Links A} (hne : new ≠ pn) (hne' : new ≠ nn) :
    setPrev (setNext (setPrev (setNext m pn new) new pn) new nn) nn new =
      listInsert m new pn nn := by
  unfold listInsert setPrev setNext
  simp only [Links.mk.injEq]
  exact ⟨Function.update_comm hne.symm _ _ _, Function.update_comm hne' _ _ _⟩

/-- The links `ListAddBefore` writes are those of an insertion. -/
theorem links_before (m : Links A) (new pn nn : A) :
    setNext (setPrev (setNext (setPrev m nn new) new nn) new pn) pn new =
      listInsert m new pn nn := rfl

namespace Rep

/-- `ListAddAfter` behind a node that ends a front part of the row. -/
theorem addAfter (h : Rep p l (ys ++ zs) [] fs) (hfresh : Fresh p l mem)
    (hl : p.head :: nodes ys = l₁ ++ [b]) (item : Option T) :
    match l.nextNode p mem with
    | none => listAddAfter p l item b mem = (l, none)
    | some new => ∃ l' fs', listAddAfter p l item b mem = (l', some new) ∧
        Rep p l' (ys ++ (new, item) :: zs) [] fs' := by
  have hcreate := h.create hfresh item
  unfold listAddAfter
  cases hnode : l.nextNode p mem with
  | none =>
      rw [hnode] at hcreate
      dsimp only at hcreate ⊢
      rw [hcreate]
  | some new =>
      rw [hnode] at hcreate
      obtain ⟨l', fs', hcreate, h', hitem⟩ := hcreate
      obtain ⟨nn, l₂, hr⟩ := exists_back p zs
      have hrow := row_eq hl hr
      have hnext : l'.links.next b = nn := by
        have hlinked := h'.linked
        rw [hrow] at hlinked
        exact (List.isChain_append_cons_cons.mp hlinked).2.1.1
      have hnew : new ∉ row p (ys ++ zs) := h'.not_mem_row (by simp)
      have hb : b ∈ row p (ys ++ zs) := by rw [hrow]; simp
      have hnn : nn ∈ row p (ys ++ zs) := by rw [hrow]; simp
      have hne : new ≠ b := fun he => hnew (he ▸ hb)
      have hne' : new ≠ nn := fun he => hnew (he ▸ hnn)
      dsimp only
      rw [hcreate]
      dsimp only
      rw [hnext, touch_eq (h'.there_row hb), touch_eq (h'.there_row hnn), links_after hne hne']
      exact ⟨_, fs', rfl, h'.insert hl hr hitem⟩

/-- `ListAddBefore` in front of a node that begins a back part of the row. -/
theorem addBefore (h : Rep p l (ys ++ zs) [] fs) (hfresh : Fresh p l mem)
    (hr : nodes zs ++ [p.tail] = a :: l₂) (item : Option T) :
    match l.nextNode p mem with
    | none => listAddBefore p l item a mem = (l, none)
    | some new => ∃ l' fs', listAddBefore p l item a mem = (l', some new) ∧
        Rep p l' (ys ++ (new, item) :: zs) [] fs' := by
  have hcreate := h.create hfresh item
  unfold listAddBefore
  cases hnode : l.nextNode p mem with
  | none =>
      rw [hnode] at hcreate
      dsimp only at hcreate ⊢
      rw [hcreate]
  | some new =>
      rw [hnode] at hcreate
      obtain ⟨l', fs', hcreate, h', hitem⟩ := hcreate
      obtain ⟨l₁, pn, hl⟩ := exists_front p ys
      have hrow := row_eq hl hr
      have hprev : l'.links.prev a = pn := by
        have hlinked := h'.linked
        rw [hrow] at hlinked
        exact (List.isChain_append_cons_cons.mp hlinked).2.1.2
      have ha : a ∈ row p (ys ++ zs) := by rw [hrow]; simp
      have hpn : pn ∈ row p (ys ++ zs) := by rw [hrow]; simp
      dsimp only
      rw [hcreate]
      dsimp only
      rw [hprev, touch_eq (h'.there_row ha), touch_eq (h'.there_row hpn), links_before]
      exact ⟨_, fs', rfl, h'.insert hl hr hitem⟩

theorem freeListFree_size (l : LinkedList A T) (a : A) (n : Int) :
    freeListFree p { l with size := n } a = { freeListFree p l a with size := n } := by
  unfold freeListFree
  dsimp only
  split <;> rfl

/-- `ListDelNode` of a node of the list. -/
theorem delNode (h : Rep p l (ys ++ (d, item) :: zs) [] fs) :
    ∃ l' fs', listDelNode p l d = (l', item) ∧ Rep p l' (ys ++ zs) [] fs' := by
  obtain ⟨l₁, pn, hl⟩ := exists_front p ys
  obtain ⟨nn, l₂, hr⟩ := exists_back p zs
  have hrow := row_cons_eq (d, item) hl hr
  obtain ⟨h', hprev, hnext⟩ := h.unlink hl hr
  dsimp only at h' hprev hnext
  have hmem : d ∈ nodes (ys ++ (d, item) :: zs) := by simp [nodes]
  have hnot : ¬(d = p.head ∨ d = p.tail ∨ d = p.null) := by
    rintro (rfl | rfl | rfl) <;>
      exact h.not_mem (by simp) (List.mem_append_left _ hmem)
  unfold listDelNode
  rw [if_neg hnot]
  dsimp only
  have hd : d ∈ row p (ys ++ (d, item) :: zs) := by rw [hrow]; simp
  have hpn : pn ∈ row p (ys ++ (d, item) :: zs) := by rw [hrow]; simp
  have hnn : nn ∈ row p (ys ++ (d, item) :: zs) := by rw [hrow]; simp
  rw [hprev, hnext, touch_eq (h.there_row hd), touch_eq (h.there_row hpn),
    touch_eq (h.there_row hnn), h.items (d, item) (by simp)]
  have hdel : listDel l.links d = setPrev (setNext l.links pn nn) nn pn := by
    rw [listDel, hprev, hnext]
    rfl
  obtain ⟨fs', hfreed⟩ := h'.freed
  rw [hdel] at hfreed
  refine ⟨_, fs', rfl, ?_⟩
  rw [← freeListFree_size]
  exact hfreed

/-! ## Reading -/

omit [DecidableEq A] in
theorem length_le_live (h : Rep p l xs [] fs) : xs.length ≤ l.live.length := by
  rw [h.live.length_eq, List.length_append, nodes, List.length_map]
  exact Nat.le_add_right ..

omit [DecidableEq A] in
/-- The node behind the head sentinel. -/
theorem next_head (h : Rep p l xs held fs) :
    l.links.next p.head = ((nodes xs).head?).getD p.tail := by
  have hlinked := h.linked
  cases xs with
  | nil => exact (List.isChain_cons_cons.mp hlinked).1.1
  | cons x xs => exact (List.isChain_cons_cons.mp hlinked).1.1

omit [DecidableEq A] in
/-- `ListHead` -/
theorem listHead_eq (h : Rep p l xs [] fs) : listHead p l = (nodes xs).head? := by
  rw [listHead, h.size, h.next_head]
  cases xs with
  | nil => rfl
  | cons x xs => exact if_neg (by rw [List.length_cons]; omega)

/-- The loop of `ListFind` from any place in the list. -/
theorem find_run (cmp : Option T → Bool) (ys : List (A × Option T))
    (h : Rep p l (ys ++ zs) [] fs) {n : Nat} (hn : zs.length < n) :
    Loop.run (findBody p cmp l) n (((nodes zs).head?).getD p.tail) =
      some ((zs.find? (cmp ·.2)).map Prod.fst) := by
  induction zs generalizing ys n with
  | nil =>
      obtain ⟨n, rfl⟩ := Nat.exists_eq_succ_of_ne_zero (Nat.ne_of_gt hn)
      exact Loop.run_leave n (if_pos rfl)
  | cons z zs ih =>
      obtain ⟨n, rfl⟩ := Nat.exists_eq_succ_of_ne_zero (Nat.ne_of_gt (Nat.zero_lt_of_lt hn))
      have hmem : z.1 ∈ nodes (ys ++ z :: zs) := by simp [nodes]
      have htail : z.1 ≠ p.tail := fun he =>
        h.not_mem (b := p.tail) (by simp) (List.mem_append_left _ (he ▸ hmem))
      have hitem : l.item z.1 = z.2 := h.items z (by simp)
      show Loop.run (findBody p cmp l) (n + 1) z.1 = _
      by_cases hc : cmp z.2 = true
      · have hbody : findBody p cmp l z.1 = .leave (some z.1) := by
          rw [findBody, if_neg htail, hitem, if_pos hc]
        rw [Loop.run_leave n hbody,
          List.find?_cons_of_pos (p := fun x : A × Option T => cmp x.2) hc]
        rfl
      · have hnext : l.links.next z.1 = ((nodes zs).head?).getD p.tail := by
          obtain ⟨l₁, pn, hl⟩ := exists_front p ys
          obtain ⟨nn, l₂, hr⟩ := exists_back p zs
          have hlinked := h.linked
          rw [row_cons_eq z hl hr] at hlinked
          have hz := (List.isChain_append_cons_cons.mp hlinked).2.2
          rw [(List.isChain_cons_cons.mp hz).1.1]
          cases zs with
          | nil => exact (List.cons.inj hr).1.symm
          | cons w ws => exact (List.cons.inj hr).1.symm
        have hbody : findBody p cmp l z.1 = .again (((nodes zs).head?).getD p.tail) := by
          rw [findBody, if_neg htail, hitem, if_neg hc, hnext]
        rw [Loop.run_again n hbody,
          List.find?_cons_of_neg (p := fun x : A × Option T => cmp x.2) hc]
        refine ih (ys ++ [z]) ?_ (Nat.lt_of_succ_lt_succ hn)
        rwa [List.append_assoc]

/-- `ListFind` -/
theorem listFind_eq (h : Rep p l xs [] fs) (cmp : Option T → Bool) :
    listFind p cmp l = some ((xs.find? (cmp ·.2)).map Prod.fst) := by
  rw [listFind, h.next_head]
  exact find_run cmp [] h (Nat.lt_succ_of_le h.length_le_live)

/-! ## The end -/

/-- The loop of `ListDestroy` empties the list. -/
theorem destroy_run (h : Rep p l xs [] fs) {n : Nat} (hn : xs.length < n) :
    ∃ l' fs', Loop.run (destroyBody p) n (l, l.links.next p.head) = some l' ∧
      Rep p l' [] [] fs' := by
  induction xs generalizing l fs n with
  | nil =>
      obtain ⟨n, rfl⟩ := Nat.exists_eq_succ_of_ne_zero (Nat.ne_of_gt hn)
      have hbody : destroyBody p (l, l.links.next p.head) = .leave l := by
        rw [h.next_head]
        exact if_pos rfl
      exact ⟨l, fs, Loop.run_leave n hbody, h⟩
  | cons x xs ih =>
      obtain ⟨n, rfl⟩ := Nat.exists_eq_succ_of_ne_zero (Nat.ne_of_gt (Nat.zero_lt_of_lt hn))
      have hhead : l.links.next p.head = x.1 := h.next_head
      have hmem : x.1 ∈ nodes (x :: xs) := List.mem_cons_self
      have htail : x.1 ≠ p.tail := fun he =>
        h.not_mem (b := p.tail) (by simp) (List.mem_append_left _ (he ▸ hmem))
      have hrow : x.1 ∈ row p (x :: xs) := List.mem_cons_of_mem _ List.mem_cons_self
      obtain ⟨l', fs', hdel, h'⟩ : ∃ l' fs', listDelNode p l x.1 = (l', x.2) ∧
          Rep p l' ([] ++ xs) [] fs' := delNode h
      have hnext : l.links.next x.1 = l'.links.next p.head := by
        have hlinked := (List.isChain_cons_cons.mp h.linked).2
        rw [h'.next_head]
        cases xs with
        | nil => exact (List.isChain_cons_cons.mp hlinked).1.1
        | cons y ys => exact (List.isChain_cons_cons.mp hlinked).1.1
      have hbody : destroyBody p (l, l.links.next p.head) = .again (l', l'.links.next p.head) := by
        rw [hhead, destroyBody, if_neg htail, touch_eq (h.there_row hrow), hdel, ← hnext]
      rw [Loop.run_again n hbody]
      exact ih h' (Nat.lt_of_succ_lt_succ hn)

end Rep

/-- The loop of `FreeListDestroy` gives the free nodes back. -/
theorem freeListDestroy_run (hstack : Stack l.links.prev p.null l.freeHead fs)
    (hlive : l.live.Perm fs) (hnull : p.null ∉ fs) (hsafe : l.fault = false) {n : Nat}
    (hn : fs.length < n) :
    ∃ l', Loop.run (freeListDestroyBody p) n l = some l' ∧ l'.live = [] ∧ l'.fault = false := by
  induction fs generalizing l n with
  | nil =>
      obtain ⟨n, rfl⟩ := Nat.exists_eq_succ_of_ne_zero (Nat.ne_of_gt hn)
      exact ⟨_, Loop.run_leave n (if_pos hstack), List.perm_nil.mp hlive, hsafe⟩
  | cons f fs ih =>
      obtain ⟨n, rfl⟩ := Nat.exists_eq_succ_of_ne_zero (Nat.ne_of_gt (Nat.zero_lt_of_lt hn))
      obtain ⟨hf, hstack⟩ := hstack
      rw [List.mem_cons, not_or] at hnull
      have hmem : f ∈ l.live := hlive.mem_iff.mpr List.mem_cons_self
      have hthere : l.There p f := .inr (.inr hmem)
      have hbody : freeListDestroyBody p l =
          .again { l.release f with freeHead := l.links.prev f } := by
        rw [freeListDestroyBody, hf, if_neg (Ne.symm hnull.1), Rep.touch_eq hthere]
      rw [Loop.run_again n hbody]
      refine ih hstack ?_ hnull.2 ?_ (Nat.lt_of_succ_lt_succ hn)
      · have herase := hlive.erase f
        rwa [List.erase_cons_head] at herase
      · show (l.fault || !decide (f ∈ l.live)) = false
        rw [hsafe, decide_eq_true hmem]
        rfl

/-- `ListDestroy` leaves nothing allocated. -/
theorem Rep.listDestroy (h : Rep p l xs [] fs) :
    ∃ l', listDestroy p l = some l' ∧ l'.live = [] ∧ l'.fault = false := by
  obtain ⟨l₁, fs₁, hrun, h₁⟩ := h.destroy_run (Nat.lt_succ_of_le h.length_le_live)
  have hlive : l₁.live.Perm fs₁ := h₁.live
  have hnull : p.null ∉ fs₁ := h₁.not_mem (b := p.null) (by simp)
  unfold VmpSa.Pool.listDestroy
  rw [hrun]
  exact freeListDestroy_run (l := { l₁ with size := 0 }) h₁.stack hlive hnull h₁.safe
    (Nat.lt_succ_of_le (Nat.le_of_eq hlive.length_eq.symm))

/-! ## Runs -/

/-- `ListInit` -/
theorem rep_listInit (m : Links A) (i : A → Option T) : Rep p (listInit p m i) [] [] [] where
  linked := by
    have hd := p.distinct
    simp only [List.nodup_cons, List.mem_cons, not_or] at hd
    obtain ⟨-, ⟨hht, -⟩, -⟩ := hd
    refine List.isChain_pair.mpr ⟨?_, Function.update_self ..⟩
    show Function.update (Function.update m.next p.head p.tail) p.tail p.null p.head = p.tail
    rw [Function.update_of_ne hht, Function.update_self]
  items := by rintro x ⟨⟩
  size := rfl
  stack := rfl
  freeListLength := rfl
  short := Nat.zero_lt_succ 99
  nodup := p.distinct
  live := List.Perm.refl _
  safe := rfl

/-- An addition behind a node or the head sentinel. -/
theorem Rep.addAfter_apply (h : Rep p l xs [] fs) (hfresh : Fresh p l mem)
    (hb : b = p.head ∨ b ∈ nodes xs) (item : Option T) :
    ∃ fs', Rep p (listAddAfter p l item b mem).1
      ((ListOp.addAfter item b mem).apply p l xs) [] fs' := by
  -- the place behind `b`
  obtain ⟨ys, zs, l₁, rfl, hl, hput⟩ : ∃ ys zs l₁, xs = ys ++ zs ∧
      p.head :: nodes ys = l₁ ++ [b] ∧ ∀ new,
        (if b = p.head then (new, item) :: xs else putAfter b (new, item) xs) =
          ys ++ (new, item) :: zs := by
    by_cases hhead : b = p.head
    · exact ⟨[], xs, [], rfl, by rw [hhead]; rfl, fun new => if_pos hhead⟩
    · obtain ⟨ys, t, zs, rfl, hys⟩ := exists_split (hb.resolve_left hhead)
      refine ⟨ys ++ [(b, t)], zs, p.head :: nodes ys, by simp, by simp [nodes], fun new => ?_⟩
      rw [if_neg hhead, putAfter_append hys, List.append_assoc]
      rfl
  have hadd := h.addAfter hfresh hl item
  unfold ListOp.apply
  dsimp only
  cases hnode : l.nextNode p mem with
  | none =>
      rw [hnode] at hadd
      dsimp only at hadd ⊢
      rw [hadd]
      exact ⟨fs, h⟩
  | some new =>
      rw [hnode] at hadd
      obtain ⟨l', fs', hadd, h'⟩ := hadd
      dsimp only
      rw [hadd, hput]
      exact ⟨fs', h'⟩

/-- An addition in front of a node or the tail sentinel. -/
theorem Rep.addBefore_apply (h : Rep p l xs [] fs) (hfresh : Fresh p l mem)
    (ha : a = p.tail ∨ a ∈ nodes xs) (item : Option T) :
    ∃ fs', Rep p (listAddBefore p l item a mem).1
      ((ListOp.addBefore item a mem).apply p l xs) [] fs' := by
  -- the place in front of `a`
  obtain ⟨ys, zs, l₂, rfl, hr, hput⟩ : ∃ ys zs l₂, xs = ys ++ zs ∧
      nodes zs ++ [p.tail] = a :: l₂ ∧ ∀ new,
        (if a = p.tail then xs ++ [(new, item)] else putBefore a (new, item) xs) =
          ys ++ (new, item) :: zs := by
    by_cases htail : a = p.tail
    · exact ⟨xs, [], [], (List.append_nil xs).symm, by rw [htail]; rfl, fun new => if_pos htail⟩
    · obtain ⟨ys, t, zs, rfl, hys⟩ := exists_split (ha.resolve_left htail)
      refine ⟨ys, (a, t) :: zs, nodes zs ++ [p.tail], rfl, rfl, fun new => ?_⟩
      rw [if_neg htail, putBefore_append hys]
  have hadd := h.addBefore hfresh hr item
  unfold ListOp.apply
  dsimp only
  cases hnode : l.nextNode p mem with
  | none =>
      rw [hnode] at hadd
      dsimp only at hadd ⊢
      rw [hadd]
      exact ⟨fs, h⟩
  | some new =>
      rw [hnode] at hadd
      obtain ⟨l', fs', hadd, h'⟩ := hadd
      dsimp only
      rw [hadd, hput]
      exact ⟨fs', h'⟩

/-- Every call a caller may make does what it does to the list. -/
theorem Rep.run (h : Rep p l xs [] fs) {op : ListOp A T} (hop : op.Allowed p l xs) :
    ∃ fs', Rep p (op.run p l) (op.apply p l xs) [] fs' := by
  cases op with
  | addHead item mem =>
      obtain ⟨fs', h'⟩ := h.addAfter_apply hop (.inl rfl) item
      refine ⟨fs', ?_⟩
      have happly : (ListOp.addHead item mem).apply p l xs =
          (ListOp.addAfter item p.head mem).apply p l xs := by
        unfold ListOp.apply
        dsimp only
        cases l.nextNode p mem with
        | none => rfl
        | some new => exact (if_pos rfl).symm
      rw [happly]
      exact h'
  | addTail item mem =>
      obtain ⟨fs', h'⟩ := h.addBefore_apply hop (.inl rfl) item
      refine ⟨fs', ?_⟩
      have happly : (ListOp.addTail item mem).apply p l xs =
          (ListOp.addBefore item p.tail mem).apply p l xs := by
        unfold ListOp.apply
        dsimp only
        cases l.nextNode p mem with
        | none => exact List.append_nil xs
        | some new => exact (if_pos rfl).symm
      rw [happly]
      exact h'
  | addAfter item b mem => exact h.addAfter_apply hop.1 hop.2 item
  | addBefore item a mem => exact h.addBefore_apply hop.1 hop.2 item
  | delNode d =>
      obtain ⟨ys, t, zs, rfl, -⟩ := exists_split hop
      obtain ⟨l', fs', hdel, h'⟩ := h.delNode
      refine ⟨fs', ?_⟩
      have happly : (ListOp.delNode d).apply p l (ys ++ (d, t) :: zs) = ys ++ zs :=
        filter_append h.nodup_nodes
      rw [happly, ListOp.run, hdel]
      exact h'

theorem rep_of_run (h : ListRun p l xs) : ∃ fs, Rep p l xs [] fs := by
  induction h with
  | init m item => exact ⟨[], rep_listInit m item⟩
  | step _ hop ih =>
      obtain ⟨fs, hrep⟩ := ih
      exact hrep.run hop

/-- After any calls a caller may make, the memory holds the list they lead to: the nodes are
linked in its order with its items, `ListHead` and `ListFind` read it, nothing but its
nodes and less than `FREELISTSIZE` free ones is allocated, no call used or freed a node
that was not there, and `ListDestroy` gives everything back. -/
theorem linked_list_refines (h : ListRun p l xs) :
    Linked l.links (p.head :: (xs.map Prod.fst ++ [p.tail])) ∧
      (∀ x ∈ xs, l.item x.1 = x.2) ∧ l.size = xs.length ∧
      listHead p l = (xs.map Prod.fst).head? ∧
      (∀ cmp, listFind p cmp l = some ((xs.find? (cmp ·.2)).map Prod.fst)) ∧
      (∃ fs, l.live.Perm (xs.map Prod.fst ++ fs) ∧ fs.length < freeListSize) ∧
      l.live.Nodup ∧ l.fault = false ∧
      ∃ l', listDestroy p l = some l' ∧ l'.live = [] ∧ l'.fault = false := by
  obtain ⟨fs, hrep⟩ := rep_of_run h
  have hnodup : l.live.Nodup := hrep.live.nodup_iff.mpr (List.nodup_append.mp hrep.nodup).2.1
  exact ⟨hrep.linked, hrep.items, hrep.size, hrep.listHead_eq, hrep.listFind_eq,
    ⟨fs, hrep.live, hrep.short⟩, hnodup, hrep.safe, hrep.listDestroy⟩

/-- NULL, and the sentinels at 1 and 2. -/
def smallFixed : Fixed Nat where
  null := 0
  head := 1
  tail := 2
  distinct := by decide

/-- A list with one item, in a block at 3. -/
def smallList : LinkedList Nat Nat :=
  (ListOp.addTail (some 7) (some 3)).run smallFixed
    (listInit smallFixed ⟨fun _ => 0, fun _ => 0⟩ fun _ => none)

theorem linked_list_refines_smallList :
    listHead smallFixed smallList = some 3 ∧
      (∀ cmp, listFind smallFixed cmp smallList =
        some (([(3, some 7)].find? fun x => cmp x.2).map Prod.fst)) ∧
      smallList.fault = false := by
  have hallowed : (ListOp.addTail (some 7) (some 3)).Allowed smallFixed
      (listInit smallFixed ⟨fun _ => 0, fun _ => 0⟩ fun _ => none) [] := by
    rintro a ⟨⟩
    decide
  have hrun : ListRun smallFixed smallList [(3, some 7)] := .step (.init _ _) hallowed
  obtain ⟨-, -, -, hhead, hfind, -, -, hsafe, -⟩ := linked_list_refines hrun
  exact ⟨hhead, hfind, hsafe⟩

end VmpSa.Pool
