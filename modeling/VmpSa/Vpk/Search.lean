import VmpSa.Vpk.Sort

/-!
# Searching a sorted array

`vpk_bsearch` of `vmp/src/vpk_libc.c`.  It halves the interval `[l, u)` and goes
to the lower half when the key compares below the middle element, so it expects
the smaller elements in front.  `selection_sort` leaves the larger ones in front.

On a descending array the half it goes to holds no element equal to the key: an
element in front of a middle above the key is above the key itself, and likewise
behind.  So everything is decided by the first middle element
(`bsearch_middle`, `bsearch_miss`), and which element stands there after the sort
can be counted in the unsorted array (`KeyInMiddle`).
-/

namespace VmpSa

/-- One pass of the loop of `vpk_bsearch`, on `l` and `u`.  The pointer returned is an
offset into the array, or none for NULL. -/
def bsearchPass (key base : List UInt8) (size : Nat) (cmp : CompareFunc) (s : Nat × Nat) :
    Loop.Pass (Nat × Nat) (Option (Option Nat)) :=
  if s.1 < s.2 then
    let idx := (s.1 + s.2) / 2
    match Block.read base (idx * size) size with
    | none => .leave none
    | some p =>
        let comparison := cmp key p
        if comparison < 0 then .again (s.1, idx)
        else if 0 < comparison then .again (idx + 1, s.2)
        else .leave (some (some (idx * size)))
  else .leave (some none)

theorem bsearchPass_decreases (key base : List UInt8) (size : Nat) (cmp : CompareFunc) :
    Loop.Decreases (bsearchPass key base size cmp) (fun s => s.2 - s.1) := by
  intro s s' h
  unfold bsearchPass at h
  split at h
  next hlt =>
    simp only at h
    split at h
    · cases h
    · split at h
      · cases h
        simp only
        omega
      · split at h
        · cases h
          simp only
          omega
        · cases h
  · cases h

/-- `vpk_bsearch`. -/
def vpkBsearch (key base : List UInt8) (nmemb size : Nat) (cmp : CompareFunc) :
    Option (Option Nat) :=
  Loop.exec (bsearchPass key base size cmp) _ (bsearchPass_decreases key base size cmp) (0, nmemb)

/-! ## One pass -/

variable {key base : List UInt8} {size : Nat} {cmp : CompareFunc} {xs : List (List UInt8)}

/-- The element a pass compares the key with. -/
theorem bsearchPass_eq (key : List UInt8) (cmp : CompareFunc) (h : Slots.Holds size base xs)
    {l u : Nat} (hlt : l < u) (hu : u ≤ xs.length) :
    ∃ p, xs[(l + u) / 2]? = some p ∧ bsearchPass key base size cmp (l, u) =
      if cmp key p < 0 then .again (l, (l + u) / 2)
      else if 0 < cmp key p then .again ((l + u) / 2 + 1, u)
      else .leave (some (some ((l + u) / 2 * size))) := by
  have hmid : (l + u) / 2 < xs.length := by omega
  refine ⟨xs[(l + u) / 2], List.getElem?_eq_getElem hmid, ?_⟩
  simp only [bsearchPass, hlt, if_true, h.read_getElem hmid]

/-- In an interval without an element equal to the key nothing is found. -/
theorem bsearch_interval_miss (h : Slots.Holds size base xs) {l u : Nat} (hu : u ≤ xs.length)
    (hmiss : ∀ i p, l ≤ i → i < u → xs[i]? = some p → cmp key p ≠ 0) :
    Loop.exec (bsearchPass key base size cmp) _ (bsearchPass_decreases key base size cmp) (l, u) =
      some none := by
  refine Loop.exec_rule _ (fun s : Nat × Nat => l ≤ s.1 ∧ s.2 ≤ u) (fun r => r = some none)
    ?_ ?_ _ ⟨Nat.le_refl l, Nat.le_refl u⟩
  · rintro ⟨l', u'⟩ s' ⟨hl', hu'⟩ hpass
    by_cases hlt : l' < u'
    · obtain ⟨p, -, hp⟩ := bsearchPass_eq key cmp h hlt (by omega)
      rw [hp] at hpass
      simp only at hl' hu'
      split at hpass
      · cases hpass
        exact ⟨hl', by simp only; omega⟩
      · split at hpass
        · cases hpass
          exact ⟨by simp only; omega, hu'⟩
        · cases hpass
    · simp [bsearchPass, hlt] at hpass
  · rintro ⟨l', u'⟩ r ⟨hl', hu'⟩ hpass
    by_cases hlt : l' < u'
    · obtain ⟨p, hget, hp⟩ := bsearchPass_eq key cmp h hlt (by omega)
      rw [hp] at hpass
      simp only at hl' hu'
      have hne := hmiss ((l' + u') / 2) p (by omega) (by omega) hget
      split at hpass
      · cases hpass
      · split at hpass
        · cases hpass
        · omega
    · simp only [bsearchPass, hlt, if_false] at hpass
      cases hpass
      rfl

/-! ## A descending array -/

/-- The middle element is the first one compared, in any array. -/
theorem bsearch_middle (h : Slots.Holds size base xs) {p : List UInt8}
    (hp : xs[xs.length / 2]? = some p) (heq : cmp key p = 0) :
    vpkBsearch key base xs.length size cmp = some (some (xs.length / 2 * size)) := by
  have hlt : 0 < xs.length := by
    obtain ⟨hlt, -⟩ := List.getElem?_eq_some_iff.mp hp
    omega
  obtain ⟨p', hp', hpass⟩ := bsearchPass_eq key cmp h hlt (Nat.le_refl _)
  rw [Nat.zero_add, hp] at hp'
  cases hp'
  refine Loop.exec_leave _ ?_
  simp [hpass, heq]

/-- With another middle element nothing is found in a descending array. -/
theorem bsearch_miss (hc : cmp.Total size) (hk : key.length = size)
    (h : Slots.Holds size base xs) (hd : Comparison.Descending cmp xs)
    (hmid : ∀ p, xs[xs.length / 2]? = some p → cmp key p ≠ 0) :
    vpkBsearch key base xs.length size cmp = some none := by
  by_cases hlt : 0 < xs.length
  · obtain ⟨p, hp, hpass⟩ := bsearchPass_eq key cmp h hlt (Nat.le_refl _)
    rw [Nat.zero_add] at hp hpass
    have hne := hmid p hp
    obtain ⟨hmidlt, hget⟩ := List.getElem?_eq_some_iff.mp hp
    have hwp : p.length = size := h.width p (hget ▸ List.getElem_mem hmidlt)
    have hpair := List.pairwise_iff_getElem.mp hd
    rw [vpkBsearch]
    by_cases hneg : cmp key p < 0
    · -- the elements in front are at least the middle one, and so above the key
      rw [if_pos hneg] at hpass
      rw [Loop.exec_again _ hpass]
      refine bsearch_interval_miss h (by omega) ?_
      intro i q _ hi hq
      obtain ⟨hilt, hgetq⟩ := List.getElem?_eq_some_iff.mp hq
      have hwq : q.length = size := h.width q (hgetq ▸ List.getElem_mem hilt)
      have hqp := hpair i (xs.length / 2) hilt hmidlt hi
      rw [hget, hgetq] at hqp
      have hlow := hc.neg_of_neg hk hwq hwp hneg hqp
      omega
    · -- the elements behind are at most the middle one, and so below the key
      rw [if_neg hneg, if_pos (by omega)] at hpass
      rw [Loop.exec_again _ hpass]
      refine bsearch_interval_miss h (Nat.le_refl _) ?_
      intro i q hi _ hq heq
      obtain ⟨hilt, hgetq⟩ := List.getElem?_eq_some_iff.mp hq
      have hwq : q.length = size := h.width q (hgetq ▸ List.getElem_mem hilt)
      have hpq := hpair (xs.length / 2) i hmidlt hilt (by omega)
      rw [hget, hgetq] at hpq
      have hle := hc.nonpos_of_nonpos hk hwp hwq (by omega) hpq
      omega
  · exact bsearch_interval_miss h (Nat.le_refl _) (fun i p _ hi => by omega)

/-! ## Sort and search together -/

/-- The search in the sorted array returns an element equal to the key exactly when the
array has one. -/
def FindsKey (key base : List UInt8) (n size : Nat) (cmp : CompareFunc) : Prop :=
  (∃ base' p x, selectionSort base n size cmp = some base' ∧
    vpkBsearch key base' n size cmp = some (some p) ∧ Block.read base' p size = some x ∧
    cmp key x = 0) ↔ ∃ x ∈ Slots.records size n base, cmp key x = 0

/-- The elements equal to the key cover the middle of the array sorted downwards: at
most half of the elements are above the key, and more than half are not below. -/
def KeyInMiddle (key : List UInt8) (cmp : CompareFunc) (xs : List (List UInt8)) : Prop :=
  xs.countP (fun x => cmp key x < 0) ≤ xs.length / 2 ∧
    xs.length / 2 < xs.countP (fun x => cmp key x ≤ 0)

instance (key : List UInt8) (cmp : CompareFunc) (xs : List (List UInt8)) :
    Decidable (KeyInMiddle key cmp xs) := inferInstanceAs (Decidable (_ ∧ _))

/-- Which element stands in the middle of the sorted array, read off the unsorted one. -/
theorem keyInMiddle_iff {ys : List (List UInt8)} (hc : cmp.Total size) (hk : key.length = size)
    (hw : ∀ y ∈ ys, y.length = size) (hd : Comparison.Descending cmp ys) (hperm : ys.Perm xs) :
    KeyInMiddle key cmp xs ↔ ∃ p, ys[ys.length / 2]? = some p ∧ cmp key p = 0 := by
  have hlen := hperm.length_eq
  rw [KeyInMiddle, ← hperm.countP_eq, ← hperm.countP_eq, ← hlen]
  by_cases hpos : 0 < ys.length
  · have hmid : ys.length / 2 < ys.length := by omega
    have hmem := hw _ (List.getElem_mem hmid)
    have habove := Comparison.lt_countP_iff (p := fun x => decide (cmp key x < 0)) ?_ hmid
    · have hnotBelow := Comparison.lt_countP_iff (p := fun x => decide (cmp key x ≤ 0)) ?_ hmid
      · simp only [decide_eq_true_eq] at habove hnotBelow
        rw [← Nat.not_lt, habove, hnotBelow, List.getElem?_eq_getElem hmid]
        simp only [Option.some.injEq, exists_eq_left']
        omega
      · refine hd.imp_of_mem ?_
        intro a b ha hb hab hle
        simp only [decide_eq_true_eq] at hle ⊢
        exact hc.nonpos_of_nonpos hk (hw a ha) (hw b hb) hle hab
    · refine hd.imp_of_mem ?_
      intro a b ha hb hab hlt
      simp only [decide_eq_true_eq] at hlt ⊢
      exact hc.neg_of_neg hk (hw a ha) (hw b hb) hlt hab
  · have hnil : ys = [] := List.length_eq_zero_iff.mp (by omega)
    simp [hnil]

/-- Sort and search agree on a key exactly when no element equals it or the elements
that do cover the middle. -/
theorem search_finds_iff {n : Nat} (hc : cmp.Total size) (hk : key.length = size)
    (hbase : base.length = n * size) :
    FindsKey key base n size cmp ↔
      (∀ x ∈ Slots.records size n base, cmp key x ≠ 0) ∨
        KeyInMiddle key cmp (Slots.records size n base) := by
  obtain ⟨base', hsort, hlen, hrecords⟩ := selectionSort_spec cmp hbase
  have hperm := Comparison.exchange_perm cmp (Slots.records size n base)
  have hwidth := (Slots.holds_records (Nat.le_of_eq hbase.symm)).width
  have hd := Comparison.exchange_descending hc hwidth
  rw [← hrecords] at hperm hd
  have hholds : Slots.Holds size base' (Slots.records size n base') :=
    Slots.holds_records (by omega)
  have hn := Slots.length_records size n base'
  rw [keyInMiddle_iff hc hk hholds.width hd hperm, hn]
  -- what the search returns depends on the middle element alone
  by_cases hmid : ∃ p, (Slots.records size n base')[n / 2]? = some p ∧ cmp key p = 0
  · refine iff_of_true ?_ (Or.inr hmid)
    obtain ⟨p, hp, heq⟩ := hmid
    obtain ⟨hlt, hget⟩ := List.getElem?_eq_some_iff.mp hp
    have hfound := bsearch_middle hholds (by rwa [hn]) heq
    have hread := hholds.read_getElem hlt
    rw [hn] at hfound
    rw [hget] at hread
    have hmem : p ∈ Slots.records size n base := hperm.mem_iff.mp (hget ▸ List.getElem_mem hlt)
    exact iff_of_true ⟨base', _, p, hsort, hfound, hread, heq⟩ ⟨p, hmem, heq⟩
  · have hnone := bsearch_miss hc hk hholds hd
    rw [hn] at hnone
    replace hnone := hnone fun p hp heq => hmid ⟨p, hp, heq⟩
    have hnot : ¬ ∃ base' p x, selectionSort base n size cmp = some base' ∧
        vpkBsearch key base' n size cmp = some (some p) ∧ Block.read base' p size = some x ∧
        cmp key x = 0 := by
      rintro ⟨base₁, p, x, hsort₁, hfound, -⟩
      rw [hsort] at hsort₁
      cases hsort₁
      rw [hnone] at hfound
      cases hfound
    rw [FindsKey, iff_false_left hnot, or_iff_left hmid]
    exact ⟨fun h x hx heq => h ⟨x, hx, heq⟩, fun h ⟨x, hx, heq⟩ => h x hx heq⟩

/-- Three elements and the one between the other two as the key. -/
theorem search_finds_median :
    KeyInMiddle [2] firstByte (Slots.records 1 3 [3, 1, 2]) ∧
      FindsKey [2] [3, 1, 2] 3 1 firstByte :=
  ⟨by decide, (search_finds_iff (firstByte_total 1) rfl rfl).mpr (Or.inr (by decide))⟩

/-- The larger of two elements is not found. -/
theorem search_misses_larger :
    ¬ ∀ (key base : List UInt8) (n size : Nat) (cmp : CompareFunc), cmp.Total size →
      key.length = size → base.length = n * size → FindsKey key base n size cmp := by
  intro h
  have hfinds := h [2] [1, 2] 2 1 firstByte (firstByte_total 1) rfl rfl
  have hsort : selectionSort [1, 2] 2 1 firstByte = some [2, 1] := by
    have hexchange : Comparison.exchange firstByte [[1], [2]] = [[2], [1]] := by
      simp [Comparison.exchange, Comparison.sweep, firstByte]
    have heq := selectionSort_eq (w := 1) firstByte [[1], [2]] (by decide) []
    rwa [hexchange] at heq
  have hnone : vpkBsearch [2] [2, 1] 2 1 firstByte = some none :=
    Loop.exec_eq_of_run (n := 2) _ rfl
  obtain ⟨base', p, x, hsort', hfound, -⟩ := hfinds.mpr ⟨[2], by decide, rfl⟩
  rw [hsort] at hsort'
  cases hsort'
  rw [hnone] at hfound
  cases hfound

end VmpSa
