import VmpSa.Lib.Reader

/-!
# Splitting a growing word at delimiters

A *delimiter* recognises a separator at the front of a word by looking at no
more than a fixed window of symbols.  `cut` takes the word up to the first
position at which the window is filled and a separator begins.

The point of the window is that the recogniser never looks past the data.  A
separator found in a word is found at the same place in every extension of it
(`cut_append`), so cutting is a `Reader`.  Its items are the tokens in front of
the separators, and its rest is the residue behind the last one.
-/

/-- A recogniser of separators with a fixed look-ahead. -/
structure Delimiter (α : Type) where
  /-- The number of symbols the recogniser may look at. -/
  window : Nat
  /-- The length of the separator at the front of a word, `0` if there is none. -/
  len : List α → Nat
  window_pos : 0 < window
  len_le : ∀ x, len x ≤ window
  /-- The answer is settled by the symbols in the window. -/
  len_append : ∀ x y, window ≤ x.length → len (x ++ y) = len x

namespace Delimiter

variable {α : Type} (d : Delimiter α)

/-- A separator begins at the front of `x`, with the window filled. -/
def At (x : List α) : Prop := d.window ≤ x.length ∧ d.len x ≠ 0

instance (x : List α) : Decidable (d.At x) := inferInstanceAs (Decidable (_ ∧ _))

/-- The token in front of the first separator, and the word from that separator on. -/
def cut : List α → Option (List α × List α)
  | [] => none
  | a :: x => if d.At (a :: x) then some ([], a :: x) else (cut x).map fun c => (a :: c.1, c.2)

/-- The word behind the separator at its front. -/
def behind (u : List α) : List α := u.drop (d.len u)

variable {d} {x y t u : List α}

/-! ## The first separator -/

theorem not_at_nil : ¬ d.At [] := fun h => by
  have := d.window_pos
  have := h.1
  simp at this
  omega

theorem At.append (h : d.At x) (y : List α) : d.At (x ++ y) := by
  refine ⟨?_, ?_⟩
  · rw [List.length_append]
    exact Nat.le_add_right_of_le h.1
  · rw [d.len_append x y h.1]
    exact h.2

theorem behind_append (h : d.At u) (y : List α) : d.behind (u ++ y) = d.behind u ++ y := by
  have hlen : d.len u ≤ u.length := Nat.le_trans (d.len_le u) h.1
  rw [behind, behind, d.len_append u y h.1, List.drop_append_of_le_length hlen]

theorem cut_of_at (h : d.At x) : d.cut x = some ([], x) := by
  cases x with
  | nil => exact absurd h not_at_nil
  | cons a x => rw [cut, if_pos h]

theorem cut_of_not_at {a : α} (h : ¬ d.At (a :: x)) :
    d.cut (a :: x) = (d.cut x).map fun c => (a :: c.1, c.2) := by
  rw [cut, if_neg h]

/-- The cut puts the word back together, and a separator stands at the cut. -/
theorem cut_some : ∀ {x t u : List α}, d.cut x = some (t, u) → x = t ++ u ∧ d.At u
  | [], _, _, h => by cases h
  | a :: x, t, u, h => by
      by_cases hat : d.At (a :: x)
      · rw [cut_of_at hat] at h
        cases h
        exact ⟨rfl, hat⟩
      · rw [cut_of_not_at hat] at h
        obtain ⟨⟨t', u'⟩, hc, he⟩ := Option.map_eq_some_iff.mp h
        cases he
        obtain ⟨hx, hu⟩ := cut_some hc
        exact ⟨by rw [hx]; rfl, hu⟩

/-- No separator begins before the cut. -/
theorem cut_first : ∀ {x t u : List α}, d.cut x = some (t, u) →
    ∀ p, p < t.length → ¬ d.At (x.drop p)
  | [], _, _, h => by cases h
  | a :: x, t, u, h => by
      by_cases hat : d.At (a :: x)
      · rw [cut_of_at hat] at h
        cases h
        intro p hp
        simp at hp
      · rw [cut_of_not_at hat] at h
        obtain ⟨⟨t', u'⟩, hc, he⟩ := Option.map_eq_some_iff.mp h
        cases he
        intro p hp
        cases p with
        | zero => exact hat
        | succ p =>
            rw [List.drop_succ_cons]
            exact cut_first hc p (by simpa using hp)

/-- Without a cut no separator begins anywhere. -/
theorem cut_none_iff : ∀ {x : List α}, d.cut x = none ↔ ∀ p, ¬ d.At (x.drop p)
  | [] => by simp [cut, not_at_nil]
  | a :: x => by
      by_cases hat : d.At (a :: x)
      · rw [cut_of_at hat]
        constructor
        · intro h; cases h
        · intro h; exact absurd hat (h 0)
      · rw [cut_of_not_at hat, Option.map_eq_none_iff, cut_none_iff]
        constructor
        · intro h p
          cases p with
          | zero => exact hat
          | succ p => rw [List.drop_succ_cons]; exact h p
        · intro h p
          have := h (p + 1)
          rwa [List.drop_succ_cons] at this

/-- The cut is at the least position where a separator begins. -/
theorem cut_eq_some_of_least {p : Nat} (hat : d.At (x.drop p))
    (hleast : ∀ q, q < p → ¬ d.At (x.drop q)) : d.cut x = some (x.take p, x.drop p) := by
  cases hc : d.cut x with
  | none => exact absurd hat (cut_none_iff.mp hc p)
  | some c =>
      obtain ⟨t, u⟩ := c
      obtain ⟨hx, hu⟩ := cut_some hc
      have hlt : ¬ p < t.length := fun h => cut_first hc p h hat
      have hgt : ¬ t.length < p := fun h => hleast _ h (by rw [hx, List.drop_left]; exact hu)
      have hp : p = t.length := by omega
      rw [hp, hx, List.take_left, List.drop_left]

/-- A separator found in a word is found in every extension. -/
theorem cut_append (h : d.cut x = some (t, u)) (y : List α) :
    d.cut (x ++ y) = some (t, u ++ y) := by
  obtain ⟨hx, hu⟩ := cut_some h
  have hp : ∀ p, p ≤ t.length → (x ++ y).drop p = x.drop p ++ y := fun p hp =>
    List.drop_append_of_le_length (by rw [hx, List.length_append]; omega)
  have hcut := cut_eq_some_of_least (d := d) (x := x ++ y) (p := t.length)
    (by rw [hp _ (Nat.le_refl _), hx, List.drop_left]; exact hu.append y)
    (fun q hq => by
      rw [hp q (Nat.le_of_lt hq)]
      -- the window is filled by `x` alone, so the longer word gives the same answer
      intro hat
      have hlen : d.window ≤ (x.drop q).length := by
        have h1 := hu.1
        rw [List.length_drop, hx, List.length_append]
        omega
      exact cut_first h q hq ⟨hlen, by rw [← d.len_append _ y hlen]; exact hat.2⟩)
  rw [hcut, hx, List.append_assoc, List.take_left, List.drop_left]

/-- A separator found in an extension is found in the word itself, when its window
ends there. -/
theorem cut_of_append (h : d.cut (x ++ y) = some (t, u)) (hlen : t.length + d.window ≤ x.length) :
    d.cut x = some (t, x.drop t.length) := by
  obtain ⟨hx, hu⟩ := cut_some h
  have hd : ∀ p, p ≤ x.length → (x ++ y).drop p = x.drop p ++ y := fun p hp =>
    List.drop_append_of_le_length hp
  have hu' : u = x.drop t.length ++ y := by
    rw [← hd _ (by omega), hx, List.drop_left]
  have hat : d.At (x.drop t.length) := by
    have hwindow : d.window ≤ (x.drop t.length).length := by
      rw [List.length_drop]
      omega
    exact ⟨hwindow, by rw [← d.len_append _ y hwindow, ← hu']; exact hu.2⟩
  have hcut := cut_eq_some_of_least hat fun q hq hq' =>
    cut_first h q hq (by rw [hd q (by omega)]; exact hq'.append y)
  have ht : x.take t.length = t := by
    have htake := congrArg (List.take t.length) hx
    rwa [List.take_append_of_le_length (by omega), List.take_left] at htake
  rw [hcut, ht]

/-- The first two tokens are no longer than the word. -/
theorem length_two_cuts (h : d.cut x = some (t, u)) {t' u' : List α}
    (h' : d.cut (d.behind u) = some (t', u')) : t.length + t'.length ≤ x.length := by
  have hlen := congrArg List.length (cut_some h).1
  have hlen' := congrArg List.length (cut_some h').1
  rw [List.length_append] at hlen
  rw [behind, List.length_drop, List.length_append] at hlen'
  omega

/-! ## Tokens and residue -/

/-- Cutting as a reader of tokens. -/
def reader (d : Delimiter α) : Reader α (List α) where
  next x := (d.cut x).map fun c => (c.1, d.behind c.2)
  suffix := by
    intro x r b h
    obtain ⟨⟨t, u⟩, hc, heq⟩ := Option.map_eq_some_iff.mp h
    cases heq
    obtain ⟨hx, hu⟩ := cut_some hc
    refine ⟨t ++ u.take (d.len u), fun hnil => ?_, ?_⟩
    · have hlen := congrArg List.length hnil
      have h1 := hu.1
      have h2 := d.window_pos
      have h3 := hu.2
      rw [List.length_append, List.length_take, List.length_nil] at hlen
      omega
    · rw [hx, List.append_assoc, behind, List.take_append_drop]
  append := by
    intro x r b h y
    obtain ⟨⟨t, u⟩, hc, heq⟩ := Option.map_eq_some_iff.mp h
    cases heq
    rw [cut_append hc, Option.map_some, behind_append (cut_some hc).2]

/-- The tokens of a word. -/
def tokens (d : Delimiter α) (x : List α) : List (List α) := d.reader.items x

/-- What is left of a word behind its last separator. -/
def residue (d : Delimiter α) (x : List α) : List α := d.reader.rest x

theorem next_of_none (h : d.cut x = none) : d.reader.next x = none :=
  Option.map_eq_none_iff.mpr h

theorem next_of_some (h : d.cut x = some (t, u)) : d.reader.next x = some (t, d.behind u) :=
  Option.map_eq_some_iff.mpr ⟨(t, u), h, rfl⟩

theorem tokens_of_none (h : d.cut x = none) : d.tokens x = [] :=
  Reader.items_of_none (next_of_none h)

theorem residue_of_none (h : d.cut x = none) : d.residue x = x :=
  Reader.rest_of_none (next_of_none h)

theorem tokens_of_some (h : d.cut x = some (t, u)) : d.tokens x = t :: d.tokens (d.behind u) :=
  Reader.items_of_some (next_of_some h)

theorem residue_of_some (h : d.cut x = some (t, u)) : d.residue x = d.residue (d.behind u) :=
  Reader.rest_of_some (next_of_some h)

/-- Induction along the cuts of a word. -/
theorem cut_induction {P : List α → Prop} (hnone : ∀ x, d.cut x = none → P x)
    (hsome : ∀ x t u, d.cut x = some (t, u) → P (d.behind u) → P x) (x : List α) : P x := by
  induction x using Reader.next_induction (d := d.reader) with
  | hnone x h => exact hnone x (Option.map_eq_none_iff.mp h)
  | hsome x t r h ih =>
      obtain ⟨⟨t, u⟩, hc, heq⟩ := Option.map_eq_some_iff.mp h
      cases heq
      exact hsome x t u hc ih

/-- The residue holds no separator. -/
theorem cut_residue (x : List α) : d.cut (d.residue x) = none :=
  Option.map_eq_none_iff.mp (d.reader.next_rest x)

theorem tokens_append (x y : List α) :
    d.tokens (x ++ y) = d.tokens x ++ d.tokens (d.residue x ++ y) :=
  Reader.items_append x y

theorem residue_append (x y : List α) : d.residue (x ++ y) = d.residue (d.residue x ++ y) :=
  Reader.rest_append x y

theorem residue_suffix (x : List α) : d.residue x <:+ x := Reader.rest_suffix x

theorem length_le_of_mem_tokens (h : t ∈ d.tokens x) : t.length ≤ x.length := by
  induction x using cut_induction (d := d) with
  | hnone x hn => rw [tokens_of_none hn] at h; cases h
  | hsome x s u hc ih =>
      obtain ⟨hx, -⟩ := cut_some hc
      rw [tokens_of_some hc] at h
      rw [hx, List.length_append]
      rcases List.mem_cons.mp h with rfl | hmem
      · exact Nat.le_add_right _ _
      · have hle := ih hmem
        rw [behind, List.length_drop] at hle
        omega

/-- Nothing is lost: the tokens, each followed by its separator, and the
residue make up the word. -/
theorem exists_separators (x : List α) :
    ∃ seps : List (List α), seps.length = (d.tokens x).length ∧
      (∀ c ∈ seps, ∃ u, d.At u ∧ c = u.take (d.len u)) ∧
      x = (List.zipWith (· ++ ·) (d.tokens x) seps).flatten ++ d.residue x := by
  induction x using cut_induction (d := d) with
  | hnone x h => exact ⟨[], by rw [tokens_of_none h, residue_of_none h]; simp⟩
  | hsome x t u h ih =>
      obtain ⟨seps, hlen, hsep, heq⟩ := ih
      obtain ⟨hx, hu⟩ := cut_some h
      refine ⟨u.take (d.len u) :: seps, ?_, ?_, ?_⟩
      · rw [tokens_of_some h, List.length_cons, List.length_cons, hlen]
      · intro c hc
        cases List.mem_cons.mp hc with
        | inl he => exact ⟨u, hu, he⟩
        | inr hc' => exact hsep c hc'
      · rw [tokens_of_some h, residue_of_some h, List.zipWith_cons_cons, List.flatten_cons,
          List.append_assoc, ← heq, List.append_assoc, behind, List.take_append_drop, hx]

end Delimiter
