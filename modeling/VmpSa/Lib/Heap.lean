import Mathlib.Order.Lattice
import Mathlib.Logic.Equiv.Basic

/-!
# A tree in an array

The cells below `n` of an array form a binary tree: the parent of cell `i` is the cell
`(i - 1) / 2`.  `Ordered f n` says that no cell is before its parent.  A new cell is
moved up as long as it is before its parent (`Rising`), or down as long as one of its
children is before it (`Sinking`).  Both say what is in order while the cell `h` is on its
way.  A move exchanges two cells.
-/

namespace Heap

variable {K : Type} [LinearOrder K] {f : Nat → K} {n h m : Nat}

def Ordered (f : Nat → K) (n : Nat) : Prop :=
  ∀ i, 0 < i → i < n → f ((i - 1) / 2) ≤ f i

/-- All but the cell `h` and its parent are in order, and the parent of `h` is
also before the children of `h`. -/
structure Rising (f : Nat → K) (n h : Nat) : Prop where
  others : ∀ i, 0 < i → i < n → i ≠ h → f ((i - 1) / 2) ≤ f i
  across : ∀ i, 0 < h → i < n → (i - 1) / 2 = h → f ((h - 1) / 2) ≤ f i

/-- All but the cell `h` and its children are in order, and the parent of `h` is also
before the children of `h`. -/
structure Sinking (f : Nat → K) (n h : Nat) : Prop where
  others : ∀ i, 0 < i → i < n → (i - 1) / 2 ≠ h → f ((i - 1) / 2) ≤ f i
  across : ∀ i, 0 < h → i < n → (i - 1) / 2 = h → f ((h - 1) / 2) ≤ f i

/-- The first cell is the least. -/
theorem Ordered.le (o : Ordered f n) : ∀ i, i < n → f 0 ≤ f i := by
  intro i
  induction i using Nat.strong_induction_on with
  | _ i ih =>
      intro hi
      rcases Nat.eq_zero_or_pos i with rfl | hpos
      · exact le_refl _
      · exact le_trans (ih ((i - 1) / 2) (by omega) (by omega)) (o i hpos hi)

theorem Ordered.mono (o : Ordered f n) (hm : m ≤ n) : Ordered f m :=
  fun i hpos hi => o i hpos (by omega)

theorem Ordered.congr {g : Nat → K} (o : Ordered f n) (hfg : ∀ i < n, g i = f i) :
    Ordered g n := by
  intro i hpos hi
  rw [hfg i hi, hfg _ (by omega)]
  exact o i hpos hi

/-- A cell of an array in order gets a value that is before its parent. -/
theorem Ordered.rising {g : Nat → K} (o : Ordered f n) (hg : ∀ i < n, i ≠ h → g i = f i)
    (hh : h < n) (hpos : 0 < h) (hlt : g h < g ((h - 1) / 2)) : Rising g n h := by
  have hparent : (h - 1) / 2 < h := by omega
  have hup : g ((h - 1) / 2) ≤ f h := by
    rw [hg _ (by omega) hparent.ne]
    exact o h hpos hh
  constructor
  · intro i hi0 hi hih
    rw [hg i hi hih]
    by_cases hp : (i - 1) / 2 = h
    · have hchild := o i hi0 hi
      rw [hp] at hchild ⊢
      exact (hlt.le.trans hup).trans hchild
    · rw [hg _ (by omega) hp]
      exact o i hi0 hi
  · intro i _ hi hp
    have hchild := o i (by omega) hi
    rw [hp] at hchild
    rw [hg i hi (by omega)]
    exact hup.trans hchild

/-- A cell of an array in order gets a value that is not before its parent. -/
theorem Ordered.sinking {g : Nat → K} (o : Ordered f n) (hg : ∀ i < n, i ≠ h → g i = f i)
    (hh : h < n) (hge : 0 < h → g ((h - 1) / 2) ≤ g h) : Sinking g n h := by
  constructor
  · intro i hi0 hi hp
    by_cases hih : i = h
    · rw [hih] at hi0 ⊢
      exact hge hi0
    · rw [hg i hi hih, hg _ (by omega) hp]
      exact o i hi0 hi
  · intro i hpos hi hp
    have hup := o h hpos hh
    have hchild := o i (by omega) hi
    rw [hp] at hchild
    rw [hg i hi (by omega), hg _ (by omega) (by omega)]
    exact hup.trans hchild

/-- A cell behind the last one. -/
theorem Ordered.append {g : Nat → K} (o : Ordered f n) (hg : ∀ i < n, g i = f i) :
    Rising g (n + 1) n := by
  constructor
  · intro i hi0 hi hin
    rw [hg i (by omega), hg _ (by omega)]
    exact o i hi0 (by omega)
  · intro i _ hi hp
    omega

/-! ## Up -/

theorem Rising.finish (r : Rising f n h) (hstop : 0 < h → f ((h - 1) / 2) ≤ f h) :
    Ordered f n := by
  intro i hpos hi
  by_cases hih : i = h
  · subst hih
    exact hstop hpos
  · exact r.others i hpos hi hih

/-- The cell is exchanged with its parent. -/
theorem Rising.move (r : Rising f n h) (hh : h < n) (hpos : 0 < h)
    (hlt : f h < f ((h - 1) / 2)) :
    Rising (f ∘ Equiv.swap h ((h - 1) / 2)) n ((h - 1) / 2) := by
  have hparent : (h - 1) / 2 < h := by omega
  constructor
  · intro i hi0 hi hne
    have hpi : (i - 1) / 2 < i := by omega
    simp only [Function.comp, Equiv.swap_apply_def]
    by_cases hih : i = h
    · subst hih
      simp only [if_true, if_neg hpi.ne]
      exact hlt.le
    · rw [if_neg hih, if_neg hne]
      split
      · next hp => exact r.across i hpos hi hp
      · split
        · next hp =>
            have := r.others i hi0 hi hih
            rw [hp] at this
            exact hlt.le.trans this
        · exact r.others i hi0 hi hih
  · intro i hp0 hi hp
    have hup := r.others ((h - 1) / 2) hp0 (by omega) (by omega)
    simp only [Function.comp, Equiv.swap_apply_def]
    rw [if_neg (by omega), if_neg (by omega)]
    by_cases hih : i = h
    · rw [if_pos hih]
      exact hup
    · rw [if_neg hih, if_neg (by omega)]
      have := r.others i (by omega) hi hih
      rw [hp] at this
      exact hup.trans this

/-! ## Down -/

theorem Sinking.finish (r : Sinking f n h)
    (hstop : ∀ i, 0 < i → i < n → (i - 1) / 2 = h → f h ≤ f i) : Ordered f n := by
  intro i hpos hi
  by_cases hih : (i - 1) / 2 = h
  · rw [hih]
    exact hstop i hpos hi hih
  · exact r.others i hpos hi hih

/-- The cell is exchanged with the lesser one of its children. -/
theorem Sinking.move (r : Sinking f n h) (hm0 : 0 < m) (hm : m < n) (hchild : (m - 1) / 2 = h)
    (hleast : ∀ i, 0 < i → i < n → (i - 1) / 2 = h → f m ≤ f i) (hlt : f m < f h) :
    Sinking (f ∘ Equiv.swap h m) n m := by
  have hhm : h < m := by omega
  constructor
  · intro i hi0 hi hne
    simp only [Function.comp, Equiv.swap_apply_def]
    rw [if_neg hne]
    by_cases hp : (i - 1) / 2 = h
    · rw [if_pos hp, if_neg (by omega)]
      split
      · exact hlt.le
      · exact hleast i hi0 hi hp
    · rw [if_neg hp, if_neg (c := i = m) (by rintro rfl; exact hp hchild)]
      split
      · next hih =>
          subst hih
          exact r.across m hi0 hm hchild
      · exact r.others i hi0 hi hp
  · intro i _ hi hp
    simp only [Function.comp, Equiv.swap_apply_def]
    rw [if_pos hchild, if_neg (by omega), if_neg (by omega)]
    have := r.others i (by omega) hi (by omega)
    rwa [hp] at this

end Heap
