import Mathlib.Tactic.Common

/-!
# Loops

A loop is given by one pass over its body.  A pass either goes round again with
a new state or leaves the loop with a result.  `run` makes at most a given
number of passes and is structural, so it can be evaluated.  `Ends` says that
some number of passes suffices.  `exec` is the result of a loop whose passes
decrease a measure, so it is total by construction.

The three agree.  A loop that ends does so with one result (`Ends.unique`), a
loop with a measure ends with the result of `exec` (`ends_exec`), and an
evaluation by `run` gives the value of `exec` (`exec_eq_of_run`).  Two loops that go
round together have related results (`exec_rel`).  A loop may also keep a record
of its passes, which does not change its result (`execRecorded_fst`).
-/

namespace Loop

variable {σ ρ : Type}

/-- The outcome of one pass over a loop body. -/
inductive Pass (σ ρ : Type) where
  /-- Go round again from a new state. -/
  | again : σ → Pass σ ρ
  /-- Leave the loop with a result. -/
  | leave : ρ → Pass σ ρ
deriving Repr, DecidableEq

/-- At most `n` passes over `body`.  `none` when the loop is still running. -/
def run (body : σ → Pass σ ρ) : Nat → σ → Option ρ
  | 0, _ => none
  | n + 1, s =>
      match body s with
      | .again s' => run body n s'
      | .leave r => some r

/-- The loop leaves with `r` after finitely many passes. -/
def Ends (body : σ → Pass σ ρ) (s : σ) (r : ρ) : Prop :=
  ∃ n, run body n s = some r

/-- Every pass that goes round again decreases the measure. -/
def Decreases (body : σ → Pass σ ρ) (μ : σ → Nat) : Prop :=
  ∀ s s', body s = .again s' → μ s' < μ s

/-- The result of a loop whose passes decrease a measure. -/
def exec (body : σ → Pass σ ρ) (μ : σ → Nat) (hμ : Decreases body μ) (s : σ) : ρ :=
  match _ : body s with
  | .again s' => exec body μ hμ s'
  | .leave r => r
termination_by μ s
decreasing_by exact hμ s s' ‹_›

/-! ## Equations -/

variable {body : σ → Pass σ ρ} {μ : σ → Nat} {s s' : σ} {r : ρ}

theorem run_again (n : Nat) (h : body s = .again s') : run body (n + 1) s = run body n s' := by
  rw [run, h]

theorem run_leave (n : Nat) (h : body s = .leave r) : run body (n + 1) s = some r := by
  rw [run, h]

theorem exec_again (hμ : Decreases body μ) (h : body s = .again s') :
    exec body μ hμ s = exec body μ hμ s' := by
  rw [exec]
  split
  next s₁ h₁ => rw [h] at h₁; cases h₁; rfl
  next r₁ h₁ => rw [h] at h₁; cases h₁

theorem exec_leave (hμ : Decreases body μ) (h : body s = .leave r) :
    exec body μ hμ s = r := by
  rw [exec]
  split
  next s₁ h₁ => rw [h] at h₁; cases h₁
  next r₁ h₁ => rw [h] at h₁; cases h₁; rfl

/-! ## Termination -/

/-- A larger budget does not change the result. -/
theorem run_mono : ∀ {n m : Nat} {s : σ}, run body n s = some r → n ≤ m → run body m s = some r
  | 0, _, _, h, _ => by cases h
  | n + 1, 0, _, _, hle => by omega
  | n + 1, m + 1, s, h, hle => by
      cases hb : body s with
      | again s' =>
          rw [run_again n hb] at h
          rw [run_again m hb]
          exact run_mono h (by omega)
      | leave r' =>
          rw [run_leave n hb] at h
          rw [run_leave m hb]
          exact h

theorem Ends.unique {r' : ρ} (h : Ends body s r) (h' : Ends body s r') : r = r' := by
  obtain ⟨n, hn⟩ := h
  obtain ⟨m, hm⟩ := h'
  have h₁ := run_mono hn (Nat.le_max_left n m)
  rw [run_mono hm (Nat.le_max_right n m)] at h₁
  exact (Option.some.inj h₁).symm

/-- A loop with a measure leaves after at most `μ s + 1` passes. -/
theorem run_exec (hμ : Decreases body μ) (s : σ) :
    run body (μ s + 1) s = some (exec body μ hμ s) := by
  induction hn : μ s using Nat.strongRecOn generalizing s with
  | _ n ih =>
      cases hb : body s with
      | again s' =>
          have hlt : μ s' < n := hn ▸ hμ s s' hb
          rw [run_again n hb, exec_again hμ hb]
          exact run_mono (ih (μ s') hlt s' rfl) (by omega)
      | leave r => rw [run_leave n hb, exec_leave hμ hb]

theorem ends_exec (hμ : Decreases body μ) (s : σ) : Ends body s (exec body μ hμ s) :=
  ⟨μ s + 1, run_exec hμ s⟩

/-- Evaluating the loop with some budget gives the value of `exec`. -/
theorem exec_eq_of_run (hμ : Decreases body μ) {n : Nat} (h : run body n s = some r) :
    exec body μ hμ s = r :=
  (ends_exec hμ s).unique ⟨n, h⟩

/-! ## The invariant rule -/

/-- What every pass keeps and the last pass turns into the postcondition holds
of the result. -/
theorem exec_rule (hμ : Decreases body μ) (Inv : σ → Prop) (Post : ρ → Prop)
    (hagain : ∀ s s', Inv s → body s = .again s' → Inv s')
    (hleave : ∀ s r, Inv s → body s = .leave r → Post r)
    (s : σ) (hs : Inv s) : Post (exec body μ hμ s) := by
  induction hn : μ s using Nat.strongRecOn generalizing s with
  | _ n ih =>
      cases hb : body s with
      | again s' =>
          rw [exec_again hμ hb]
          exact ih (μ s') (hn ▸ hμ s s' hb) s' (hagain s s' hs hb) rfl
      | leave r =>
          rw [exec_leave hμ hb]
          exact hleave s r hs hb

/-! ## Two loops -/

/-- Passes that both go round again or both leave. -/
inductive Pass.Rel {σ' ρ' : Type} (R : σ → σ' → Prop) (Q : ρ → ρ' → Prop) :
    Pass σ ρ → Pass σ' ρ' → Prop where
  | again {s : σ} {t : σ'} (h : R s t) : Pass.Rel R Q (.again s) (.again t)
  | leave {r : ρ} {q : ρ'} (h : Q r q) : Pass.Rel R Q (.leave r) (.leave q)

/-- Loops whose passes keep a relation between their states have related results. -/
theorem exec_rel {σ' ρ' : Type} {body' : σ' → Pass σ' ρ'} {μ' : σ' → Nat}
    (hμ : Decreases body μ) (hμ' : Decreases body' μ') (R : σ → σ' → Prop) (Q : ρ → ρ' → Prop)
    (hpass : ∀ s t, R s t → Pass.Rel R Q (body s) (body' t)) (s : σ) (t : σ') (h : R s t) :
    Q (exec body μ hμ s) (exec body' μ' hμ' t) := by
  induction hn : μ s using Nat.strongRecOn generalizing s t with
  | _ n ih =>
      have hrel := hpass s t h
      cases hb : body s with
      | again s' =>
          rw [hb] at hrel
          cases hb' : body' t with
          | again t' =>
              rw [hb'] at hrel
              cases hrel with
              | again hR =>
                  rw [exec_again hμ hb, exec_again hμ' hb']
                  exact ih (μ s') (hn ▸ hμ s s' hb) s' t' hR rfl
          | leave q => rw [hb'] at hrel; cases hrel
      | leave r =>
          rw [hb] at hrel
          cases hb' : body' t with
          | again t' => rw [hb'] at hrel; cases hrel
          | leave q =>
              rw [hb'] at hrel
              cases hrel with
              | leave hQ => rw [exec_leave hμ hb, exec_leave hμ' hb']; exact hQ

/-! ## A record of the passes -/

section Recorded

variable {β : Type}

/-- A pass that also writes something down. -/
def recorded (body : σ → Pass σ ρ) (note : σ → Pass σ ρ → List β) (s : σ × List β) :
    Pass (σ × List β) (ρ × List β) :=
  match body s.1 with
  | .again s' => .again (s', s.2 ++ note s.1 (.again s'))
  | .leave r => .leave (r, s.2 ++ note s.1 (.leave r))

variable {note : σ → Pass σ ρ → List β}

theorem recorded_again (h : body s = .again s') (l : List β) :
    recorded body note (s, l) = .again (s', l ++ note s (.again s')) := by
  simp only [recorded, h]

theorem recorded_leave (h : body s = .leave r) (l : List β) :
    recorded body note (s, l) = .leave (r, l ++ note s (.leave r)) := by
  simp only [recorded, h]

theorem recorded_decreases (hμ : Decreases body μ) (note : σ → Pass σ ρ → List β) :
    Decreases (recorded body note) (fun s => μ s.1) := by
  rintro ⟨s, l⟩ ⟨s', l'⟩ h
  cases hb : body s with
  | again s₁ =>
      rw [recorded_again hb] at h
      cases h
      exact hμ s s' hb
  | leave r =>
      rw [recorded_leave hb] at h
      cases h

/-- The result of a loop and the record of its passes. -/
def execRecorded (body : σ → Pass σ ρ) (μ : σ → Nat) (hμ : Decreases body μ)
    (note : σ → Pass σ ρ → List β) (s : σ) (l : List β) : ρ × List β :=
  exec (recorded body note) (fun s => μ s.1) (recorded_decreases hμ note) (s, l)

theorem execRecorded_again (hμ : Decreases body μ) (h : body s = .again s') (l : List β) :
    execRecorded body μ hμ note s l =
      execRecorded body μ hμ note s' (l ++ note s (.again s')) :=
  exec_again _ (recorded_again h l)

theorem execRecorded_leave (hμ : Decreases body μ) (h : body s = .leave r) (l : List β) :
    execRecorded body μ hμ note s l = (r, l ++ note s (.leave r)) :=
  exec_leave _ (recorded_leave h l)

/-- The invariant rule, for a loop and its record. -/
theorem execRecorded_rule (hμ : Decreases body μ) (note : σ → Pass σ ρ → List β)
    (Inv : σ → List β → Prop) (Post : ρ → List β → Prop)
    (hagain : ∀ s l s', Inv s l → body s = .again s' → Inv s' (l ++ note s (.again s')))
    (hleave : ∀ s l r, Inv s l → body s = .leave r → Post r (l ++ note s (.leave r)))
    (s : σ) (l : List β) (hs : Inv s l) :
    Post (execRecorded body μ hμ note s l).1 (execRecorded body μ hμ note s l).2 := by
  refine exec_rule (recorded_decreases hμ note) (fun t => Inv t.1 t.2) (fun q => Post q.1 q.2)
    ?_ ?_ (s, l) hs
  · rintro ⟨s, l⟩ t hi hb
    cases hbody : body s with
    | again s' =>
        rw [recorded_again hbody] at hb
        cases hb
        exact hagain s l s' hi hbody
    | leave r =>
        rw [recorded_leave hbody] at hb
        cases hb
  · rintro ⟨s, l⟩ q hi hb
    cases hbody : body s with
    | again s' =>
        rw [recorded_again hbody] at hb
        cases hb
    | leave r =>
        rw [recorded_leave hbody] at hb
        cases hb
        exact hleave s l r hi hbody

/-- The record does not change the result. -/
theorem execRecorded_fst (hμ : Decreases body μ) (note : σ → Pass σ ρ → List β) (s : σ)
    (l : List β) : (execRecorded body μ hμ note s l).1 = exec body μ hμ s := by
  refine exec_rel (recorded_decreases hμ note) hμ (fun t s => t.1 = s) (fun q r => q.1 = r)
    ?_ (s, l) s rfl
  rintro ⟨s, l⟩ _ rfl
  cases hb : body s with
  | again s' =>
      rw [recorded_again hb]
      exact .again rfl
  | leave r =>
      rw [recorded_leave hb]
      exact .leave rfl

end Recorded

end Loop
