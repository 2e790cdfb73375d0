import VmpSa.Lib.Exchange
import VmpSa.Lib.Loop
import VmpSa.Lib.Slots

/-!
# Sorting an array of blocks

`selection_sort` of `vmp/src/vpk_libc.c`, which `vpk_ssort` is another name for.
The array is a block of `nsize * el_size` bytes, a pointer into it is an offset,
and the comparison function is given the bytes of two elements.  Two elements are
exchanged byte by byte by the macro `SWAP`, in the inner loop and whenever the
element further back is the larger one.  A read or a write outside the block has
no result.

An inner loop is a sweep of the front element over the elements behind it, and
the whole sort is `Comparison.exchange` on the elements (`selectionSort_eq`).  So
it permutes them and leaves them descending.
-/

namespace VmpSa

/-- `compare_func_t`, as a function of the bytes of the two elements. -/
abbrev CompareFunc := List UInt8 → List UInt8 → Int

/-! ## The code -/

/-- The variables of `SWAP`: `__size`, `__a` and `__b`, and the block both point
into. -/
structure SwapState where
  size : Nat
  a : Nat
  b : Nat
  block : List UInt8

/-- One pass of the `do .. while (--__size > 0)` of `SWAP`. -/
def swapPass (s : SwapState) : Loop.Pass SwapState (Option (List UInt8)) :=
  match s.block[s.a]?, s.block[s.b]? with
  | some tmp, some other =>
      let block := (s.block.set s.a other).set s.b tmp
      -- a `size_t` of zero is decremented to the largest one
      let size := if s.size = 0 then 2 ^ 64 - 1 else s.size - 1
      if 0 < size then .again { size := size, a := s.a + 1, b := s.b + 1, block := block }
      else .leave (some block)
  | _, _ => .leave none

theorem swapPass_decreases : Loop.Decreases swapPass (fun s => s.block.length - s.a) := by
  intro s s' h
  unfold swapPass at h
  split at h
  next tmp other ha hb =>
    obtain ⟨hlt, -⟩ := List.getElem?_eq_some_iff.mp ha
    simp only at h
    generalize (if s.size = 0 then 2 ^ 64 - 1 else s.size - 1) = size at h
    split at h
    · cases h
      simp only [List.length_set]
      omega
    · cases h
  · cases h

/-- `SWAP(a, b, size)`. -/
def swap (block : List UInt8) (a b size : Nat) : Option (List UInt8) :=
  Loop.exec swapPass (fun s => s.block.length - s.a) swapPass_decreases
    { size := size, a := a, b := b, block := block }

/-- One pass of the inner loop of `selection_sort`: the offset `start_j` and the
array. -/
def innerPass (cmp : CompareFunc) (nsize elSize startI : Nat) (s : Nat × List UInt8) :
    Loop.Pass (Nat × List UInt8) (Option (List UInt8)) :=
  if s.1 < nsize * elSize then
    match Block.read s.2 startI elSize, Block.read s.2 s.1 elSize with
    | some x, some y =>
        if cmp x y < 0 then
          match swap s.2 startI s.1 elSize with
          | none => .leave none
          | some base => .again (s.1 + elSize, base)
        else .again (s.1 + elSize, s.2)
    | _, _ => .leave none
  else .leave (some s.2)

theorem innerPass_again {cmp : CompareFunc} {nsize elSize startI : Nat} {s s' : Nat × List UInt8}
    (h : innerPass cmp nsize elSize startI s = .again s') :
    s.1 < nsize * elSize ∧ s'.1 = s.1 + elSize := by
  unfold innerPass at h
  split at h
  next hlt =>
    refine ⟨hlt, ?_⟩
    split at h
    · split at h
      · split at h
        · cases h
        · cases h
          rfl
      · cases h
        rfl
    · cases h
  · cases h

theorem innerPass_decreases (cmp : CompareFunc) (nsize elSize startI : Nat) :
    Loop.Decreases (innerPass cmp nsize elSize startI) (fun s => nsize * elSize - s.1) := by
  intro s s' h
  obtain ⟨hlt, hs⟩ := innerPass_again h
  have hpos : 0 < elSize := Nat.pos_of_mul_pos_left (by omega : 0 < nsize * elSize)
  simp only [hs]
  omega

/-- One pass of the outer loop: the offset `start_i` and the array. -/
def outerPass (cmp : CompareFunc) (nsize elSize : Nat) (s : Nat × List UInt8) :
    Loop.Pass (Nat × List UInt8) (Option (List UInt8)) :=
  if s.1 < nsize * elSize then
    match Loop.exec (innerPass cmp nsize elSize s.1) _ (innerPass_decreases cmp nsize elSize s.1)
        (s.1 + elSize, s.2) with
    | none => .leave none
    | some base => .again (s.1 + elSize, base)
  else .leave (some s.2)

theorem outerPass_decreases (cmp : CompareFunc) (nsize elSize : Nat) :
    Loop.Decreases (outerPass cmp nsize elSize) (fun s => nsize * elSize - s.1) := by
  intro s s' h
  unfold outerPass at h
  split at h
  next hlt =>
    have hpos : 0 < elSize := Nat.pos_of_mul_pos_left (by omega : 0 < nsize * elSize)
    split at h
    · cases h
    · cases h
      simp only
      omega
  · cases h

/-- `selection_sort`. -/
def selectionSort (base : List UInt8) (nsize elSize : Nat) (cmp : CompareFunc) :
    Option (List UInt8) :=
  Loop.exec (outerPass cmp nsize elSize) _ (outerPass_decreases cmp nsize elSize) (0, base)

/-! ## Exchanging two elements -/

variable {cmp : CompareFunc} {w : Nat}

/-- One byte of an exchange. -/
theorem swapPass_eq (front between back : List UInt8) (x y : UInt8) {n : Nat} (hn : 0 < n) :
    swapPass { size := n, a := front.length, b := front.length + 1 + between.length
               block := front ++ x :: (between ++ y :: back) } =
      if 0 < n - 1 then
        .again { size := n - 1, a := front.length + 1, b := front.length + 1 + between.length + 1
                 block := front ++ y :: (between ++ x :: back) }
      else .leave (some (front ++ y :: (between ++ x :: back))) := by
  have hb : front.length + 1 + between.length = (front ++ x :: between).length := by
    simp only [List.length_append, List.length_cons]
    omega
  have hb' : front.length + 1 + between.length = (front ++ y :: between).length := by
    simp only [List.length_append, List.length_cons]
    omega
  have hread : (front ++ x :: (between ++ y :: back))[front.length + 1 + between.length]? =
      some y := by
    rw [hb, ← List.cons_append, ← List.append_assoc, List.getElem?_append_right (Nat.le_refl _),
      Nat.sub_self, List.getElem?_cons_zero]
  have hread' : (front ++ x :: (between ++ y :: back))[front.length]? = some x := by
    rw [List.getElem?_append_right (Nat.le_refl _), Nat.sub_self, List.getElem?_cons_zero]
  have hwrite : ((front ++ x :: (between ++ y :: back)).set front.length y).set
      (front.length + 1 + between.length) x = front ++ y :: (between ++ x :: back) := by
    rw [List.set_append_right _ _ (Nat.le_refl _), Nat.sub_self, List.set_cons_zero, hb',
      ← List.cons_append, ← List.append_assoc, List.set_append_right _ _ (Nat.le_refl _),
      Nat.sub_self, List.set_cons_zero, List.append_assoc, List.cons_append]
  have hn' : ¬ n = 0 := by omega
  simp only [swapPass, hread, hread', hwrite, hn', if_false]

/-- `SWAP` exchanges two blocks of one length that do not overlap. -/
theorem swap_eq (x y front between back : List UInt8) (hxy : x.length = y.length) (hx : x ≠ []) :
    swap (front ++ (x ++ (between ++ (y ++ back)))) front.length
        (front.length + x.length + between.length) x.length =
      some (front ++ (y ++ (between ++ (x ++ back)))) := by
  induction x generalizing y front between with
  | nil => exact absurd rfl hx
  | cons a x ih =>
      cases y with
      | nil => cases hxy
      | cons b y =>
          have hlen : x.length = y.length := by simpa using hxy
          have hpass := swapPass_eq front (x ++ between) (y ++ back) a b (n := x.length + 1)
            (by omega)
          simp only [Nat.add_sub_cancel, List.length_append, List.append_assoc] at hpass
          have hat : front.length + (a :: x).length + between.length =
              front.length + 1 + (x.length + between.length) := by
            simp only [List.length_cons]
            omega
          rw [hat, swap]
          simp only [List.cons_append, List.length_cons]
          by_cases hnil : x = []
          · -- the last byte
            subst hnil
            have hy : y = [] := List.length_eq_zero_iff.mp hlen.symm
            subst hy
            exact Loop.exec_leave _ hpass
          · have hpos : 0 < x.length := List.length_pos_iff.mpr hnil
            rw [if_pos hpos] at hpass
            rw [Loop.exec_again _ hpass]
            -- the rest of the exchange, with one more byte in front and between
            have hrest := ih y (front ++ [b]) (between ++ [a]) hlen hnil
            simp only [List.append_assoc, List.cons_append, List.nil_append, List.length_append,
              List.length_singleton] at hrest
            have hoff : front.length + 1 + x.length + (between.length + 1) =
                front.length + 1 + (x.length + between.length) + 1 := by omega
            rw [hoff] at hrest
            exact hrest

/-- Two elements of an array exchanged. -/
theorem swap_records {x y : List UInt8} {front between back : List (List UInt8)}
    (hw : ∀ z ∈ front ++ x :: (between ++ y :: back), z.length = w) (h0 : 0 < w)
    (room : List UInt8) :
    swap ((front ++ x :: (between ++ y :: back)).flatten ++ room) (front.length * w)
        ((front.length + 1 + between.length) * w) w =
      some ((front ++ y :: (between ++ x :: back)).flatten ++ room) := by
  have hx : x.length = w := hw x (by simp)
  have hy : y.length = w := hw y (by simp)
  have hfront : front.flatten.length = front.length * w :=
    Slots.length_flatten_of_width fun z hz => hw z (by simp [hz])
  have hbetween : between.flatten.length = between.length * w :=
    Slots.length_flatten_of_width fun z hz => hw z (by simp [hz])
  have hne : x ≠ [] := by
    intro hnil
    rw [hnil, List.length_nil] at hx
    omega
  have hoff : (front.length + 1 + between.length) * w =
      front.flatten.length + x.length + between.flatten.length := by
    rw [hfront, hbetween, hx, Nat.add_mul, Nat.add_mul, Nat.one_mul]
  have hswap := swap_eq x y front.flatten between.flatten (back.flatten ++ room)
    (hx.trans hy.symm) hne
  rw [← hoff, hfront, hx] at hswap
  simpa only [List.flatten_append, List.flatten_cons, List.append_assoc] using hswap

/-! ## The loops -/

/-- A pass of the inner loop puts the larger of two elements in front. -/
theorem innerPass_eq {x y : List UInt8} {front passed ys : List (List UInt8)} {n : Nat}
    (hw : ∀ z ∈ front ++ x :: (passed ++ y :: ys), z.length = w) (h0 : 0 < w)
    (hn : n = (front ++ x :: (passed ++ y :: ys)).length) (room : List UInt8) :
    innerPass cmp n w (front.length * w) ((front.length + 1 + passed.length) * w,
        (front ++ x :: (passed ++ y :: ys)).flatten ++ room) =
      .again ((front.length + 1 + (passed.length + 1)) * w,
        (if cmp x y < 0 then front ++ y :: (passed ++ x :: ys)
          else front ++ x :: (passed ++ y :: ys)).flatten ++ room) := by
  have hholds : Slots.Holds w ((front ++ x :: (passed ++ y :: ys)).flatten ++ room)
      (front ++ x :: (passed ++ y :: ys)) := ⟨hw, room, rfl⟩
  have hlt : (front.length + 1 + passed.length) * w < n * w := by
    refine Nat.mul_lt_mul_of_pos_right ?_ h0
    simp only [hn, List.length_append, List.length_cons]
    omega
  have hready : Block.read ((front ++ x :: (passed ++ y :: ys)).flatten ++ room)
      ((front.length + 1 + passed.length) * w) w = some y := by
    have hlen : (front ++ x :: passed).length = front.length + 1 + passed.length := by
      simp only [List.length_append, List.length_cons]
      omega
    rw [← List.cons_append, ← List.append_assoc] at hholds ⊢
    rw [← hlen]
    exact hholds.read
  have hnext : (front.length + 1 + passed.length) * w + w =
      (front.length + 1 + (passed.length + 1)) * w := by
    rw [← Nat.add_assoc, Nat.succ_mul]
  simp only [innerPass, hlt, if_true, hholds.read, hready, hnext]
  split
  · rw [swap_records hw h0]
  · rfl

/-- The inner loop sweeps the element at `start_i` over the elements not yet passed. -/
theorem inner_eq (cmp : CompareFunc) (h0 : 0 < w) (front : List (List UInt8)) (room : List UInt8)
    {n : Nat}
    (ys passed : List (List UInt8)) (x : List UInt8)
    (hw : ∀ z ∈ front ++ x :: (passed ++ ys), z.length = w)
    (hn : n = (front ++ x :: (passed ++ ys)).length) :
    Loop.exec (innerPass cmp n w (front.length * w)) _ (innerPass_decreases cmp n w _)
        ((front.length + 1 + passed.length) * w,
          (front ++ x :: (passed ++ ys)).flatten ++ room) =
      some ((front ++ (Comparison.sweep cmp x ys).1 ::
        (passed ++ (Comparison.sweep cmp x ys).2)).flatten ++ room) := by
  induction ys generalizing passed x with
  | nil =>
      refine Loop.exec_leave _ ?_
      have hend : (front.length + 1 + passed.length) * w = n * w := by
        rw [hn]
        simp only [List.append_nil, List.length_append, List.length_cons]
        rw [Nat.add_assoc, Nat.add_comm 1]
      simp only [innerPass, hend, Nat.lt_irrefl, if_false, Comparison.sweep]
  | cons y ys ih =>
      rw [Loop.exec_again _ (innerPass_eq hw h0 hn room)]
      by_cases hcmp : cmp x y < 0
      · have hrest := ih (passed ++ [x]) y (fun z hz => hw z (by simp at hz ⊢; tauto))
          (by simp [hn])
        simpa [Comparison.sweep, hcmp] using hrest
      · have hrest := ih (passed ++ [y]) x (fun z hz => hw z (by simp at hz ⊢; tauto))
          (by simp [hn])
        simpa [Comparison.sweep, hcmp] using hrest

/-- The outer loop sorts the elements from `start_i` on by exchange. -/
theorem outer_eq (cmp : CompareFunc) (h0 : 0 < w) (room : List UInt8) {n : Nat}
    (xs front : List (List UInt8))
    (hw : ∀ z ∈ front ++ xs, z.length = w) (hn : n = (front ++ xs).length) :
    Loop.exec (outerPass cmp n w) _ (outerPass_decreases cmp n w)
        (front.length * w, (front ++ xs).flatten ++ room) =
      some ((front ++ Comparison.exchange cmp xs).flatten ++ room) := by
  induction xs using Comparison.exchange.induct cmp generalizing front with
  | case1 =>
      refine Loop.exec_leave _ ?_
      rw [List.append_nil] at hn
      simp only [outerPass, hn, Nat.lt_irrefl, if_false, Comparison.exchange]
  | case2 x xs ih =>
      have hlt : front.length * w < n * w := by
        refine Nat.mul_lt_mul_of_pos_right ?_ h0
        simp only [hn, List.length_append, List.length_cons]
        omega
      have hinner := inner_eq cmp h0 front room xs [] x hw hn
      simp only [List.length_nil, Nat.add_zero, List.nil_append, Nat.succ_mul] at hinner
      have hpass : outerPass cmp n w (front.length * w, (front ++ x :: xs).flatten ++ room) =
          .again ((front.length + 1) * w, (front ++ (Comparison.sweep cmp x xs).1 ::
            (Comparison.sweep cmp x xs).2).flatten ++ room) := by
        simp only [outerPass, hlt, if_true, hinner, Nat.succ_mul]
      rw [Loop.exec_again _ hpass, Comparison.exchange_cons]
      have hrest := ih (front ++ [(Comparison.sweep cmp x xs).1])
        (fun z hz => ?_) (by simp [hn, Comparison.length_sweep])
      · simpa using hrest
      · simp only [List.append_assoc, List.singleton_append, List.mem_append] at hz
        rw [(Comparison.sweep_perm cmp x xs).mem_iff] at hz
        exact hw z (List.mem_append.mpr hz)

/-! ## The result -/

/-- The sort in terms of the elements.  Elements without bytes are not moved. -/
theorem selectionSort_eq (cmp : CompareFunc) (xs : List (List UInt8)) (hw : ∀ x ∈ xs, x.length = w)
    (room : List UInt8) :
    selectionSort (xs.flatten ++ room) xs.length w cmp =
      some ((Comparison.exchange cmp xs).flatten ++ room) := by
  by_cases h0 : 0 < w
  · have houter := outer_eq cmp h0 room xs [] hw rfl
    simpa [selectionSort] using houter
  · have hzero : w = 0 := by omega
    subst hzero
    have hnil : ∀ ys : List (List UInt8), (∀ y ∈ ys, y.length = 0) → ys.flatten = [] := by
      intro ys hys
      rw [List.flatten_eq_nil_iff]
      intro y hy
      exact List.length_eq_zero_iff.mp (hys y hy)
    have hsorted := hnil (Comparison.exchange cmp xs) fun y hy =>
      hw y ((Comparison.exchange_perm cmp xs).mem_iff.mp hy)
    rw [hsorted, hnil xs hw]
    refine Loop.exec_leave _ ?_
    simp [outerPass]

/-- The sort of an array, whatever the size of its elements. -/
theorem selectionSort_spec (cmp : CompareFunc) {n elSize : Nat} {base : List UInt8}
    (hbase : base.length = n * elSize) :
    ∃ base', selectionSort base n elSize cmp = some base' ∧ base'.length = base.length ∧
      Slots.records elSize n base' = Comparison.exchange cmp (Slots.records elSize n base) := by
  have hholds : Slots.Holds elSize base (Slots.records elSize n base) :=
    Slots.holds_records (by omega)
  have hlen := Slots.length_records elSize n base
  have hperm := Comparison.exchange_perm cmp (Slots.records elSize n base)
  obtain ⟨room, hb⟩ := hholds.content
  have hsort := selectionSort_eq cmp _ hholds.width room
  rw [hlen, ← hb] at hsort
  refine ⟨_, hsort, ?_, ?_⟩
  · have hblen := congrArg List.length hb
    rw [List.length_append] at hblen
    rw [List.length_append, hperm.flatten.length_eq, hblen]
  · have hsorted : Slots.Holds elSize
        ((Comparison.exchange cmp (Slots.records elSize n base)).flatten ++ room)
        (Comparison.exchange cmp (Slots.records elSize n base)) :=
      ⟨fun x hx => hholds.width x (hperm.mem_iff.mp hx), room, rfl⟩
    have hcut := hsorted.records_eq
    rwa [hperm.length_eq, hlen] at hcut

/-- The comparison function is a total preorder on the elements of a size. -/
def CompareFunc.Total (cmp : CompareFunc) (elSize : Nat) : Prop :=
  Comparison.TotalPreorder (fun x : List UInt8 => x.length = elSize) cmp

/-- The array is sorted: its elements are permuted, as whole blocks, and none of them
compares below a later one. -/
theorem selection_sort_sorts {n elSize : Nat} (hc : cmp.Total elSize) {base : List UInt8}
    (hbase : base.length = n * elSize) :
    ∃ base', selectionSort base n elSize cmp = some base' ∧ base'.length = base.length ∧
      (Slots.records elSize n base').Perm (Slots.records elSize n base) ∧
      Comparison.Descending cmp (Slots.records elSize n base') := by
  obtain ⟨base', hsort, hlen, hrecords⟩ := selectionSort_spec cmp hbase
  refine ⟨base', hsort, hlen, ?_, ?_⟩
  · rw [hrecords]
    exact Comparison.exchange_perm cmp _
  · rw [hrecords]
    exact Comparison.exchange_descending hc (Slots.holds_records (by omega)).width

/-- A comparison by the first byte alone, so that elements can tie. -/
def firstByte : CompareFunc := fun x y => (x.headD 0).toNat - (y.headD 0).toNat

theorem firstByte_total (elSize : Nat) : firstByte.Total elSize where
  antisymm := by
    intro a b _ _
    simp only [firstByte]
    omega
  trans := by
    intro a b c _ _ _ hab hbc
    simp only [firstByte] at hab hbc ⊢
    omega

/-- Four elements of two bytes, two of which tie. -/
theorem selection_sort_sorts_pairs :
    ∃ base', selectionSort [1, 10, 2, 20, 1, 30, 3, 40] 4 2 firstByte = some base' ∧
      base'.length = 8 ∧
      (Slots.records 2 4 base').Perm [[1, 10], [2, 20], [1, 30], [3, 40]] ∧
      Comparison.Descending firstByte (Slots.records 2 4 base') :=
  selection_sort_sorts (firstByte_total 2) rfl

end VmpSa
