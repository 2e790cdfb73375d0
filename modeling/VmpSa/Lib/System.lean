import Mathlib.Tactic.Common

/-!
# Step systems

A system is a step function with partial results: `none` means that the action
is not possible in the state, or that it has no defined outcome.  `run` takes
the actions of a list one after the other.  `Along P` says that every action
of the run meets `P` in the state it is taken in.

The rules at the end carry an invariant along a run.  The invariant may speak
about the actions taken so far.  `run_keeps` is about runs that do have a
result; `run_reaches` also gives the result; `run_inv` is the plain one.
`run_filter_rel` compares a run with the run of its actions of one kind.
`recorded` keeps a record beside the state; every run has one (`run_recorded`).
-/

namespace System

variable {S A : Type} (step : S → A → Option S)

/-- The actions of a list, one after the other. -/
def run (s : S) : List A → Option S
  | [] => some s
  | a :: as =>
      match step s a with
      | none => none
      | some s' => run s' as

/-- Every action of the run meets `P` in the state it is taken in. -/
def Along (P : S → A → Prop) (s : S) : List A → Prop
  | [] => True
  | a :: as =>
      P s a ∧
        match step s a with
        | none => True
        | some s' => Along P s' as

instance decidableAlong (P : S → A → Prop) [∀ s a, Decidable (P s a)] :
    ∀ (s : S) (as : List A), Decidable (Along step P s as)
  | _, [] => isTrue trivial
  | s, a :: as =>
      @instDecidableAnd _ _ _
        (match step s a with
        | none => isTrue trivial
        | some s' => decidableAlong P s' as)

/-! ## Equations -/

variable {step} {P : S → A → Prop} {s s' s'' : S} {a : A} {as bs : List A}

@[simp] theorem run_nil : run step s [] = some s := rfl

theorem run_cons (h : step s a = some s') : run step s (a :: as) = run step s' as := by
  rw [run, h]

theorem run_cons_none (h : step s a = none) : run step s (a :: as) = none := by
  rw [run, h]

/-- The first step of a run that has a result. -/
theorem exists_step_of_run (h : run step s (a :: as) = some s'') :
    ∃ s', step s a = some s' ∧ run step s' as = some s'' := by
  cases hs : step s a with
  | none => rw [run_cons_none hs] at h; cases h
  | some s' => exact ⟨s', rfl, by rwa [run_cons hs] at h⟩

theorem run_append : ∀ {s : S} {as : List A}, run step s as = some s' →
    run step s (as ++ bs) = run step s' bs
  | _, [], h => by cases h; rfl
  | _, _ :: _, h => by
      obtain ⟨_, hs, hr⟩ := exists_step_of_run h
      rw [List.cons_append, run_cons hs]
      exact run_append hr

theorem along_cons (h : step s a = some s') :
    Along step P s (a :: as) ↔ P s a ∧ Along step P s' as := by
  rw [Along, h]

theorem along_true : ∀ {s : S} (as : List A), Along step (fun _ _ => True) s as
  | _, [] => trivial
  | s, a :: as => by
      refine ⟨trivial, ?_⟩
      cases step s a with
      | none => trivial
      | some s' => exact along_true as

theorem along_of_forall {Q : A → Prop} : ∀ {s : S} {as : List A}, (∀ a ∈ as, Q a) →
    Along step (fun _ a => Q a) s as
  | _, [], _ => trivial
  | s, a :: as, h => by
      refine ⟨h a (by simp), ?_⟩
      cases step s a with
      | none => trivial
      | some s' => exact along_of_forall fun b hb => h b (by simp [hb])

theorem Along.head (h : Along step P s (a :: as)) : P s a := h.1

theorem along_singleton : Along step P s [a] ↔ P s a := by
  refine ⟨fun h => h.head, fun h => ⟨h, ?_⟩⟩
  cases step s a with
  | none => trivial
  | some s' => trivial

/-- Along a run in two parts: along the second part from where the first one ends. -/
theorem Along.right : ∀ {s : S} {as : List A}, Along step P s (as ++ bs) →
    run step s as = some s' → Along step P s' bs
  | _, [], h, hr => by cases hr; exact h
  | _, _ :: _, h, hr => by
      obtain ⟨_, hs, hr'⟩ := exists_step_of_run hr
      exact Along.right ((along_cons hs).mp h).2 hr'

theorem Along.left : ∀ {s : S} {as : List A}, Along step P s (as ++ bs) → Along step P s as
  | _, [], _ => trivial
  | s, a :: as, h => by
      refine ⟨h.head, ?_⟩
      cases hs : step s a with
      | none => trivial
      | some s' => exact Along.left ((along_cons hs).mp h).2

/-- Two conditions that agree in every state of the invariant hold along the same
runs, when the invariant is kept by the steps that meet the first. -/
theorem along_iff_along (Inv : S → Prop) {D Q : S → A → Prop}
    (hiff : ∀ s a, Inv s → D s a → (P s a ↔ Q s a))
    (hstep : ∀ s a s', Inv s → D s a → P s a → step s a = some s' → Inv s') :
    ∀ {as : List A} {s : S}, Inv s → Along step D s as →
      (Along step P s as ↔ Along step Q s as)
  | [], _, _, _ => Iff.rfl
  | a :: as, s, hi, hd => by
      have hhead := hiff s a hi hd.head
      cases hs : step s a with
      | none => simp only [Along, hs, and_true, hhead]
      | some s' =>
          rw [along_cons hs, along_cons hs, ← hhead]
          refine and_congr_right fun hp => ?_
          exact along_iff_along Inv hiff hstep (hstep s a s' hi hd.head hp hs)
            ((along_cons hs).mp hd).2

/-! ## The invariant rules -/

section Rules

variable (Inv : List A → S → Prop)

/-- What every step that meets `P` keeps holds at the end of the run. -/
theorem run_keeps_from
    (hstep : ∀ hist s a s', Inv hist s → P s a → step s a = some s' → Inv (hist ++ [a]) s') :
    ∀ {as : List A} {hist : List A} {s s' : S}, Inv hist s → Along step P s as →
      run step s as = some s' → Inv (hist ++ as) s'
  | [], hist, _, _, hi, _, hr => by
      cases hr
      rwa [List.append_nil]
  | a :: as, hist, s, s', hi, ha, hr => by
      obtain ⟨s₁, hs, hr'⟩ := exists_step_of_run hr
      obtain ⟨hp, ha'⟩ := (along_cons hs).mp ha
      have h₁ := run_keeps_from hstep (hstep hist s a s₁ hi hp hs) ha' hr'
      rwa [List.append_assoc] at h₁

/-- When every step that meets `P` is possible and keeps the invariant, the whole
run is possible and ends in the invariant. -/
theorem run_reaches_from
    (hstep : ∀ hist s a, Inv hist s → P s a → ∃ s', step s a = some s' ∧ Inv (hist ++ [a]) s') :
    ∀ {as : List A} {hist : List A} {s : S}, Inv hist s → Along step P s as →
      ∃ s', run step s as = some s' ∧ Inv (hist ++ as) s'
  | [], hist, s, hi, _ => ⟨s, rfl, by rwa [List.append_nil]⟩
  | a :: as, hist, s, hi, ha => by
      obtain ⟨s₁, hs, hi₁⟩ := hstep hist s a hi ha.head
      obtain ⟨s₂, hr, hi₂⟩ := run_reaches_from hstep hi₁ ((along_cons hs).mp ha).2
      exact ⟨s₂, by rw [run_cons hs, hr], by rwa [List.append_assoc] at hi₂⟩

theorem run_keeps
    (hstep : ∀ hist s a s', Inv hist s → P s a → step s a = some s' → Inv (hist ++ [a]) s')
    (hi : Inv [] s) (ha : Along step P s as) (hr : run step s as = some s') : Inv as s' :=
  run_keeps_from Inv hstep hi ha hr

theorem run_reaches
    (hstep : ∀ hist s a, Inv hist s → P s a → ∃ s', step s a = some s' ∧ Inv (hist ++ [a]) s')
    (hi : Inv [] s) (ha : Along step P s as) : ∃ s', run step s as = some s' ∧ Inv as s' :=
  run_reaches_from Inv hstep hi ha

end Rules

/-- What every step keeps, with no condition on the actions. -/
theorem run_inv (Inv : S → Prop) (hstep : ∀ s a s', Inv s → step s a = some s' → Inv s')
    (hi : Inv s) (hr : run step s as = some s') : Inv s' :=
  run_keeps (fun _ s => Inv s) (fun _ s a s' hi _ hs => hstep s a s' hi hs) hi (along_true as) hr

/-! ## Two runs -/

/-- When related states step alike on the actions of a kind, and every other action
that meets `P` goes from a state to one related to the same, then a run is
related to the run of its actions of that kind alone. -/
theorem run_filter_rel (R : S → S → Prop) (own : A → Bool)
    (hown : ∀ s t a, R s t → own a = true → Option.Rel R (step s a) (step t a))
    (hother : ∀ s t a, R s t → own a = false → P s a → ∃ s', step s a = some s' ∧ R s' t) :
    ∀ {as : List A} {s t : S}, R s t → Along step P s as →
      Option.Rel R (run step s as) (run step t (as.filter own))
  | [], _, _, hR, _ => .some hR
  | a :: as, s, t, hR, ha => by
      cases hk : own a with
      | false =>
          obtain ⟨s', hs, hR'⟩ := hother s t a hR hk ha.head
          rw [run_cons hs, List.filter_cons_of_neg (by simp [hk])]
          exact run_filter_rel R own hown hother hR' ((along_cons hs).mp ha).2
      | true =>
          have hrel := hown s t a hR hk
          rw [List.filter_cons_of_pos hk]
          generalize hs : step s a = s₁ at hrel
          generalize ht : step t a = t₁ at hrel
          cases hrel with
          | none =>
              rw [run_cons_none hs, run_cons_none ht]
              exact .none
          | some hR' =>
              rw [run_cons hs, run_cons ht]
              exact run_filter_rel R own hown hother hR' ((along_cons hs).mp ha).2

/-! ## A record of the run -/

section Recorded

variable {R : Type}

/-- The system with a record beside its state. -/
def recorded (step : S → A → Option S) (note : S → R → A → R) (t : S × R) (a : A) :
    Option (S × R) :=
  (step t.1 a).map fun s' => (s', note t.1 t.2 a)

variable {note : S → R → A → R}

theorem recorded_some (h : step s a = some s') (r : R) :
    recorded step note (s, r) a = some (s', note s r a) := by
  simp only [recorded, h, Option.map_some]

/-- A step with the record is a step. -/
theorem step_of_recorded {t t' : S × R} (h : recorded step note t a = some t') :
    step t.1 a = some t'.1 ∧ t'.2 = note t.1 t.2 a := by
  obtain ⟨s', hs, heq⟩ := Option.map_eq_some_iff.mp h
  cases heq
  exact ⟨hs, rfl⟩

theorem run_recorded (note : S → R → A → R) : ∀ {as : List A} {s : S},
    run step s as = some s' → ∀ r : R, ∃ r', run (recorded step note) (s, r) as = some (s', r')
  | [], _, h, r => by cases h; exact ⟨r, rfl⟩
  | _ :: _, _, h, r => by
      obtain ⟨_, hs, hr⟩ := exists_step_of_run h
      rw [run_cons (recorded_some hs r)]
      exact run_recorded note hr _

theorem along_recorded : ∀ {as : List A} {s : S} (r : R), Along step P s as →
    Along (recorded step note) (fun t a => P t.1 a) (s, r) as
  | [], _, _, _ => trivial
  | a :: as, s, r, h => by
      cases hs : step s a with
      | none => exact ⟨h.head, by simp only [recorded, hs, Option.map_none]⟩
      | some s' =>
          rw [along_cons (recorded_some hs r)]
          exact ⟨h.head, along_recorded _ ((along_cons hs).mp h).2⟩

end Recorded

end System
