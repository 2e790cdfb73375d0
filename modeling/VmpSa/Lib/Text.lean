import Mathlib.Data.List.DropRight
import Mathlib.Data.List.TakeWhile
import Mathlib.Tactic.Common

/-!
# Scanning texts

The pieces a hand-written line parser is made of, over any alphabet.  `scanset` takes
the longest run of wanted symbols off the front of a text, `strip` drops the blanks at
both ends, `lines` cuts a text behind each end of line.

Each piece undoes the way a text is put together: a scan set stops where the next piece
begins (`scanset_append`), stripping drops the padding (`strip_append`), and lines written
one after the other are cut where they were joined (`lines_flatten`).
-/

namespace Text

variable {α : Type} {p : α → Bool} {s t w : List α}

/-! ## Scan sets -/

/-- The longest run of wanted symbols and what is behind it; there must be one. -/
def scanset (p : α → Bool) (s : List α) : Option (List α × List α) :=
  match s.takeWhile p with
  | [] => none
  | w => some (w, s.dropWhile p)

/-- A symbol that must come next. -/
def literal [DecidableEq α] (c : α) : List α → Option (List α)
  | [] => none
  | a :: s => if a = c then some s else none

/-- The text is at an end of the run: it is over or goes on with an unwanted symbol. -/
def Stops (p : α → Bool) (s : List α) : Prop := ∀ a ∈ s.head?, p a = false

theorem stops_nil : Stops p ([] : List α) := by
  rintro a ⟨⟩

theorem stops_cons {a : α} (ha : p a = false) : Stops p (a :: s) := by
  rintro b ⟨⟩
  exact ha

theorem Stops.takeWhile_eq_nil (h : Stops p s) : s.takeWhile p = [] := by
  cases s with
  | nil => rfl
  | cons a s => rw [List.takeWhile_cons_of_neg (by simp [h a rfl])]

theorem Stops.dropWhile_eq_self (h : Stops p s) : s.dropWhile p = s := by
  cases s with
  | nil => rfl
  | cons a s => rw [List.dropWhile_cons_of_neg (by simp [h a rfl])]

/-- A run in front of something else. -/
theorem scanset_append (hne : w ≠ []) (hw : ∀ a ∈ w, p a = true) (hs : Stops p s) :
    scanset p (w ++ s) = some (w, s) := by
  have htake : (w ++ s).takeWhile p = w := by
    rw [List.takeWhile_append_of_pos hw, hs.takeWhile_eq_nil, List.append_nil]
  have hdrop : (w ++ s).dropWhile p = s := by
    rw [List.dropWhile_append_of_pos hw, hs.dropWhile_eq_self]
  unfold scanset
  rw [htake, hdrop]
  cases w with
  | nil => exact absurd rfl hne
  | cons a w => rfl

/-- A run up to the end of the text. -/
theorem scanset_all (hne : w ≠ []) (hw : ∀ a ∈ w, p a = true) : scanset p w = some (w, []) := by
  have h := scanset_append hne hw (stops_nil (p := p))
  rwa [List.append_nil] at h

/-- What a scan set takes and leaves make up the text. -/
theorem scanset_some (h : scanset p s = some (w, t)) :
    s = w ++ t ∧ w ≠ [] ∧ ∀ a ∈ w, p a = true := by
  unfold scanset at h
  split at h
  · cases h
  next hne =>
    cases h
    refine ⟨List.takeWhile_append_dropWhile.symm, fun hnil => hne hnil, ?_⟩
    intro a ha
    exact List.mem_takeWhile_imp ha

theorem literal_cons [DecidableEq α] (c : α) (s : List α) : literal c (c :: s) = some s := by
  rw [literal, if_pos rfl]

theorem literal_of_ne [DecidableEq α] {a c : α} (h : a ≠ c) : literal c (a :: s) = none := by
  rw [literal, if_neg h]

theorem literal_some [DecidableEq α] {c : α} (h : literal c s = some t) : s = c :: t := by
  cases s with
  | nil => cases h
  | cons a s =>
      rw [literal] at h
      split at h
      next ha =>
        cases h
        rw [ha]
      · cases h

/-- A text is cut in one way at the first place of a symbol. -/
theorem append_cons_inj {c : α} {x y : List α} (hs : c ∉ s) (ht : c ∉ t)
    (h : s ++ c :: x = t ++ c :: y) : s = t ∧ x = y := by
  induction s generalizing t with
  | nil =>
      cases t with
      | nil => exact ⟨rfl, (List.cons.inj h).2⟩
      | cons a t => exact absurd (List.cons.inj h).1 fun heq => ht (heq ▸ List.mem_cons_self)
  | cons a s ih =>
      cases t with
      | nil => exact absurd (List.cons.inj h).1.symm fun heq => hs (heq ▸ List.mem_cons_self)
      | cons b t =>
          obtain ⟨rfl, htail⟩ := List.cons.inj h
          obtain ⟨rfl, rfl⟩ := ih (fun hmem => hs (List.mem_cons_of_mem a hmem))
            (fun hmem => ht (List.mem_cons_of_mem a hmem)) htail
          exact ⟨rfl, rfl⟩

/-! ## Blanks -/

/-- The text without the blanks at both ends. -/
def strip (p : α → Bool) (s : List α) : List α := (s.dropWhile p).rdropWhile p

/-- The text neither begins nor ends with a blank. -/
def Bare (p : α → Bool) (s : List α) : Prop :=
  (∀ a ∈ s.head?, p a = false) ∧ ∀ a ∈ s.getLast?, p a = false

theorem bare_singleton {a : α} (h : p a = false) : Bare p [a] := by
  constructor
  · rintro b ⟨⟩
    exact h
  · rintro b ⟨⟩
    exact h

/-- Blanks behind a text that does not end with one. -/
theorem rdropWhile_append (hs : ∀ a ∈ s.getLast?, p a = false) (ht : ∀ a ∈ t, p a = true) :
    (s ++ t).rdropWhile p = s := by
  induction t using List.reverseRecOn with
  | nil =>
      rw [List.append_nil, List.rdropWhile_eq_self_iff]
      intro hne
      simp [hs _ (List.getLast?_eq_getLast_of_ne_nil hne)]
  | append_singleton t a ih =>
      rw [← List.append_assoc, List.rdropWhile_concat_pos _ _ _ (ht a (by simp))]
      exact ih fun b hb => ht b (by simp [hb])

theorem Bare.strip_eq (h : Bare p s) : strip p s = s := by
  rw [strip, Stops.dropWhile_eq_self h.1]
  have hself := rdropWhile_append (t := []) h.2 (by simp)
  rwa [List.append_nil] at hself

/-- Stripping drops the padding around a text. -/
theorem strip_append {pre post : List α} (h : Bare p s) (hpre : ∀ a ∈ pre, p a = true)
    (hpost : ∀ a ∈ post, p a = true) : strip p (pre ++ s ++ post) = s := by
  rw [strip, List.append_assoc, List.dropWhile_append_of_pos hpre]
  cases s with
  | nil =>
      rw [List.nil_append, List.rdropWhile_eq_nil_iff]
      intro a ha
      exact hpost a ((List.dropWhile_suffix p).subset ha)
  | cons a s =>
      rw [List.cons_append, Stops.dropWhile_eq_self (stops_cons (h.1 a rfl)), ← List.cons_append]
      exact rdropWhile_append h.2 hpost

/-- Stripping leaves a part of the text. -/
theorem strip_isInfix (p : α → Bool) (s : List α) : strip p s <:+: s :=
  (List.rdropWhile_prefix p (s.dropWhile p)).isInfix.trans (List.dropWhile_suffix p).isInfix

theorem length_strip_le (p : α → Bool) (s : List α) : (strip p s).length ≤ s.length :=
  (strip_isInfix p s).length_le

/-! ## Lines -/

variable [DecidableEq α] {nl : α} {ls : List (List α)} {l : List α}

/-- The text up to and with the first end of line, and what is behind it. -/
def firstLine (nl : α) : List α → List α × List α
  | [] => ([], [])
  | a :: s => if a = nl then ([a], s) else (a :: (firstLine nl s).1, (firstLine nl s).2)

/-- The lines of a text, each with its end; the last one may have none. -/
def lines (nl : α) : List α → List (List α)
  | [] => []
  | a :: s =>
      if a = nl then [a] :: lines nl s
      else
        match lines nl s with
        | [] => [[a]]
        | l :: ls => (a :: l) :: ls

theorem firstLine_append (nl : α) (s : List α) :
    (firstLine nl s).1 ++ (firstLine nl s).2 = s := by
  induction s with
  | nil => rfl
  | cons a s ih =>
      rw [firstLine]
      split
      · rfl
      · exact congrArg (a :: ·) ih

theorem firstLine_ne_nil (nl : α) (hs : s ≠ []) : (firstLine nl s).1 ≠ [] := by
  cases s with
  | nil => exact absurd rfl hs
  | cons a s =>
      rw [firstLine]
      split <;> exact List.cons_ne_nil _ _

theorem lines_of_ne_nil (nl : α) (hs : s ≠ []) :
    lines nl s = (firstLine nl s).1 :: lines nl (firstLine nl s).2 := by
  induction s with
  | nil => exact absurd rfl hs
  | cons a s ih =>
      rw [lines, firstLine]
      split
      · rfl
      next ha =>
        cases s with
        | nil => rfl
        | cons b s =>
            rw [ih (List.cons_ne_nil b s)]

/-- A line in front of a text is its first line. -/
theorem firstLine_concat (hl : nl ∉ l) (s : List α) :
    firstLine nl (l ++ nl :: s) = (l ++ [nl], s) := by
  induction l with
  | nil => exact if_pos rfl
  | cons a l ih =>
      rw [List.mem_cons, not_or] at hl
      rw [List.cons_append, firstLine, if_neg (Ne.symm hl.1), ih hl.2]
      rfl

/-- Lines written one after the other are read again as they are. -/
theorem lines_flatten (h : ∀ l ∈ ls, nl ∉ l) :
    lines nl (ls.map (· ++ [nl])).flatten = ls.map (· ++ [nl]) := by
  induction ls with
  | nil => rfl
  | cons l ls ih =>
      have hfirst : firstLine nl ((l :: ls).map (· ++ [nl])).flatten =
          (l ++ [nl], (ls.map (· ++ [nl])).flatten) := by
        rw [List.map_cons, List.flatten_cons, List.append_assoc, List.singleton_append]
        exact firstLine_concat (h l List.mem_cons_self) _
      have hne : ((l :: ls).map (· ++ [nl])).flatten ≠ [] := by simp
      rw [lines_of_ne_nil nl hne, hfirst, ih fun l' hl' => h l' (List.mem_cons_of_mem l hl')]
      rfl

end Text
