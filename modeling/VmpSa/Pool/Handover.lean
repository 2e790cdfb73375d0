import VmpSa.Pool.Jobs

/-!
# Handing a persistent job over

`ThreadPoolAddPersistent` puts its job into the one field `persistentJob` and
waits until the field is empty again.  While it waits, and while it waits for a
new worker before that, the mutex is free, so another call can come in between and
find the field taken: it stores its own job all the same.

`Orderly` runs make the calls of `ThreadPoolAddPersistent` one after the other.
There the field has one owner at a time, the call that is in its second wait
(`HandedOver`).
-/

namespace VmpSa.Pool

open Tally

variable {T : Type}

/-! ## Calls at the field -/

@[simp] def Cont.preparing : Cont T → Int
  | .persistent _ => 1
  | _ => 0

/-- In `ThreadPoolAddPersistent`, before the job is stored. -/
@[simp] def Caller.preparing : Caller T → Int
  | .createWait k => k.preparing
  | .startWait k => k.preparing
  | _ => 0

/-- In `ThreadPoolAddPersistent`, waiting for the job to be picked up. -/
@[simp] def Caller.picking : Caller T → Int
  | .pickWait _ => 1
  | _ => 0

/-- In `ThreadPoolAddPersistent`. -/
def Caller.inAddPersistent (c : Caller T) : Prop := 0 < c.preparing + c.picking

instance (c : Caller T) : Decidable c.inAddPersistent :=
  inferInstanceAs (Decidable (0 < c.preparing + c.picking))

/-- No call of `ThreadPoolAddPersistent` begins inside another one, and the workers get the list
nodes they ask for. -/
def Orderly (s : State T) : Action T → Prop
  | .call (.addPersistent _) _ => ∀ c ∈ s.callers, ¬ c.inAddPersistent
  | .worker _ _ r => ∀ k, r.node k = true
  | _ => True

/-- The jobs that are out of the pool: started, taken back or freed. -/
def Log.gone (l : Log T) : List (ThreadPoolJob T) := l.started ++ l.removed ++ l.discarded

/-- The field `persistentJob`, with the calls and the losses. -/
structure Slot (T : Type) where
  persistentJob : Option (ThreadPoolJob T)
  callers : List (Caller T)
  overwritten : List (ThreadPoolJob T)
  lost : List (ThreadPoolJob T)

def State.slot (s : State T) : Slot T where
  persistentJob := s.tp.persistentJob
  callers := s.callers
  overwritten := s.log.overwritten
  lost := s.log.lost

/-- What a part of a call does to the field, where `w` says whether the call may store a
job, `gone` are the jobs out of the pool afterwards and the call ends up at `c`. -/
inductive Serves (σ : Slot T) (gone : List (ThreadPoolJob T)) : Int → Slot T → Caller T → Prop where
  | keeps {w : Int} {c : Caller T} (hprep : c.preparing ≤ w) (hpick : c.picking = 0) :
      Serves σ gone w σ c
  | stores (job : ThreadPoolJob T) :
      Serves σ gone 1
        { σ with
          persistentJob := some job
          overwritten := σ.overwritten ++ σ.persistentJob.toList }
        (.pickWait job)
  | clears {c : Caller T} (hgone : ∀ job, σ.persistentJob = some job → job ∈ gone)
      (hprep : c.preparing = 0) (hpick : c.picking = 0) :
      Serves σ gone 0 { σ with persistentJob := none } c

section Calls

variable {s : State T} {k : Cont T} {r : Answers} {gone : List (ThreadPoolJob T)}

theorem finishAdd_serves (queued : Bool) :
    Serves s.slot gone 0 (finishAdd s queued).1.slot (finishAdd s queued).2 :=
  .keeps (Int.le_refl 0) rfl

theorem storePersistent_serves (request : JobRequest T) :
    Serves s.slot gone 1 (storePersistent s request r).1.slot (storePersistent s request r).2 := by
  unfold storePersistent
  split
  · exact .stores _
  · exact .keeps (Int.zero_le_ofNat 1) rfl

theorem afterFailure_serves (rc : Nat) :
    Serves s.slot gone k.preparing (afterFailure s rc k r).1.slot (afterFailure s rc k r).2 := by
  cases k with
  | grow i => exact .keeps (Int.le_refl 0) rfl
  | persistent request => exact storePersistent_serves request
  | add queued jobs threads => exact finishAdd_serves queued

theorem createNow_serves :
    Serves s.slot gone k.preparing (createNow s k r).1.slot (createNow s k r).2 := by
  unfold createNow
  split
  · exact afterFailure_serves eMaxThreads
  split
  · exact .keeps (Int.le_refl _) rfl
  · exact afterFailure_serves (s := noteMaxThreads s) eAgain

theorem createWorker_serves :
    Serves s.slot gone k.preparing (createWorker s k r).1.slot (createWorker s k r).2 := by
  unfold createWorker
  split
  · exact .keeps (Int.le_refl _) rfl
  · exact createNow_serves

theorem addWorker_serves (queued : Bool) (jobs threads : Int) :
    Serves s.slot gone 0 (addWorker s queued jobs threads r).1.slot
      (addWorker s queued jobs threads r).2 := by
  unfold addWorker
  split
  · exact createWorker_serves (k := .add queued jobs threads)
  · exact finishAdd_serves queued

theorem growLoop_serves (i : Int) :
    Serves s.slot gone 0 (growLoop s i r).1.slot (growLoop s i r).2 := by
  unfold growLoop
  split
  · exact createWorker_serves (k := .grow i)
  · exact .keeps (Int.le_refl 0) rfl

theorem afterSuccess_serves :
    Serves s.slot gone k.preparing (afterSuccess s k r).1.slot (afterSuccess s k r).2 := by
  cases k with
  | grow i => exact growLoop_serves (i + 1)
  | persistent request => exact storePersistent_serves request
  | add queued jobs threads => exact addWorker_serves queued jobs (threads + 1)

theorem threadPoolAdd_serves (request : JobRequest T) :
    Serves s.slot gone 0 (threadPoolAdd s request r).1.slot (threadPoolAdd s request r).2 := by
  unfold threadPoolAdd
  split
  · exact .keeps (Int.le_refl 0) rfl
  split
  · split
    · generalize hjob : createThreadPoolJob s request r = job
      have hslot : (enqueue s job).slot = s.slot := by
        unfold enqueue State.slot
        cases job.request.priority <;> rfl
      rw [← hslot]
      exact addWorker_serves true _ _
    · exact addWorker_serves false _ _
  · exact .keeps (Int.le_refl 0) rfl

theorem threadPoolAddPersistent_serves (request : JobRequest T) :
    Serves s.slot gone 1 (threadPoolAddPersistent s request r).1.slot
      (threadPoolAddPersistent s request r).2 := by
  unfold threadPoolAddPersistent
  split
  · exact createWorker_serves (k := .persistent request)
  split
  · exact .keeps (Int.zero_le_ofNat 1) rfl
  · exact storePersistent_serves request

theorem threadPoolRemove_serves (jobId : Nat) :
    Serves s.slot (threadPoolRemove s jobId).1.log.gone 0 (threadPoolRemove s jobId).1.slot
      (threadPoolRemove s jobId).2 := by
  unfold threadPoolRemove
  split
  · exact .keeps (Int.le_refl 0) rfl
  split
  · exact .keeps (Int.le_refl 0) rfl
  split
  · exact .keeps (Int.le_refl 0) rfl
  split
  next hjob =>
    split
    · refine .clears (fun job' hjob' => ?_) rfl rfl
      have heq : job' = _ := Option.some.inj (hjob'.symm.trans hjob)
      simp [removed, Log.gone, heq]
    · exact .keeps (Int.le_refl 0) rfl
  · exact .keeps (Int.le_refl 0) rfl

/-- The shutdown empties the field. -/
theorem shutdown_serves (ret : Nat) :
    Serves s.slot (awaitThreads (discardAll s) ret).1.log.gone 0
      (awaitThreads (discardAll s) ret).1.slot (awaitThreads (discardAll s) ret).2 := by
  have hgone : ∀ job, s.tp.persistentJob = some job → job ∈ (discardAll s).log.gone := by
    intro job hjob
    simp [discardAll, Log.gone, hjob]
  unfold awaitThreads
  split
  · exact .clears hgone rfl rfl
  · exact .clears hgone rfl rfl

end Calls

/-! ## The workers at the field -/

theorem lost_bumpLow {attr : ThreadPoolAttr} {r : Answers} {b b' : Bump T}
    (hnode : ∀ k, r.node k = true)
    (h : bumpLow attr r b = .again b' ∨ bumpLow attr r b = .leave b') : b'.lost = b.lost := by
  unfold bumpLow at h
  split at h
  · rcases h with h | h <;> cases h
    rfl
  · split at h
    · rcases h with h | h <;> cases h
      exact if_pos (hnode _)
    · rcases h with h | h <;> cases h
      rfl

theorem lost_bumpBody {attr : ThreadPoolAttr} {r : Answers} {b b' : Bump T}
    (hnode : ∀ k, r.node k = true)
    (h : bumpBody attr r b = .again b' ∨ bumpBody attr r b = .leave b') : b'.lost = b.lost := by
  unfold bumpBody at h
  split at h
  · exact lost_bumpLow hnode h
  · split at h
    · rcases h with h | h <;> cases h
      exact if_pos (hnode _)
    · exact lost_bumpLow hnode h

/-- With list nodes to be had, `BumpPriority` loses no job. -/
theorem slot_bumpPriority {s : State T} {r : Answers} (hnode : ∀ k, r.node k = true) :
    (bumpPriority s r).slot = s.slot := by
  have hlost : (bumpLoop s.tp.attr r (Bump.of s.tp)).lost = [] := by
    rw [bumpLoop_eq_exec]
    exact Loop.exec_rule (bumpBody_decreases s.tp.attr r) (fun c => c.lost = [])
      (fun c => c.lost = []) (fun _ _ hc hb => (lost_bumpBody hnode (.inl hb)).trans hc)
      (fun _ _ hc hb => (lost_bumpBody hnode (.inr hb)).trans hc) _ rfl
  unfold State.slot bumpPriority
  simp only [hlost, List.append_nil]

/-- A worker leaves the field alone, or starts the job in it. -/
def WorkerServes (s s' : State T) : Prop :=
  s'.slot = s.slot ∨
    ∃ job, s.tp.persistentJob = some job ∧ job ∈ s'.log.gone ∧
      s'.slot = { s.slot with persistentJob := none }

theorem pickJob_serves (s : State T) (i : Nat) : WorkerServes s (pickJob s i) := by
  unfold pickJob
  split
  next job hjob =>
    refine .inr ⟨job, hjob, ?_, rfl⟩
    simp [takeJob, Log.gone]
  split
  · exact .inl rfl
  split
  · exact .inl rfl
  split
  · exact .inl rfl
  · exact .inl rfl

theorem check_serves {s : State T} {i : Nat} {timedOut : Bool} {r : Answers}
    (hnode : ∀ k, r.node k = true) : WorkerServes s (check s i timedOut r) := by
  unfold check
  split
  · split
    · exact .inl rfl
    · exact .inl rfl
  · have hslot : (bumpPriority (rise s i) r).slot = s.slot := slot_bumpPriority hnode
    dsimp only
    split
    · exact .inl hslot
    · rcases pickJob_serves (bumpPriority (rise s i) r) i with hkeep | ⟨job, hjob, hgone, hclear⟩
      · exact .inl (hkeep.trans hslot)
      · refine .inr ⟨job, hjob, hgone, ?_⟩
        rw [hclear, hslot]

theorem workerStep_serves {s s' : State T} {i : Nat} {timedOut : Bool} {r : Answers}
    (hnode : ∀ k, r.node k = true) (h : workerStep s i timedOut r = some s') :
    WorkerServes s s' := by
  unfold workerStep at h
  split at h
  · cases h
    exact .inl rfl
  next job kind hi =>
    cases h
    exact check_serves (s := settle s i job kind) hnode
  · cases h
    exact check_serves hnode
  · cases h
    exact .inl rfl
  · cases h

/-! ## The invariant -/

theorem Effect.gone_subset {s s' : State T} (h : Effect s s') :
    s.log.gone ⊆ s'.log.gone := by
  cases h with
  | take i tp job kind hi hrun htakes =>
      intro j hj
      simp only [takeJob, Log.gone, List.mem_append] at hj ⊢
      tauto
  | remove tp job htakes =>
      intro j hj
      simp only [Log.gone, List.mem_append] at hj ⊢
      tauto
  | discard =>
      intro j hj
      simp only [discardAll, Log.gone, List.mem_append] at hj ⊢
      tauto
  | _ => exact List.Subset.refl _

theorem gone_subset_of_step {s s' : State T} {a : Action T} (h : step s a = some s') :
    s.log.gone ⊆ s'.log.gone := by
  refine step_keeps (fun s' => s.log.gone ⊆ s'.log.gone)
    (fun _ _ hs he => List.Subset.trans hs he.gone_subset) (fun _ hs => hs) ?_ h
  unfold configured
  split <;> exact List.Subset.refl _

/-- The field has at most one owner, and nothing has been lost. -/
structure HandedOver (s : State T) : Prop where
  inside : total Caller.preparing s.callers + total Caller.picking s.callers ≤ 1
  slot : s.tp.persistentJob ≠ none → 1 ≤ total Caller.picking s.callers
  overwritten : s.log.overwritten = []
  lost : s.log.lost = []
  picked : ∀ job, .pickWait job ∈ s.callers →
    s.tp.persistentJob = some job ∨ job ∈ s.log.gone

theorem Cont.preparing_nonneg (k : Cont T) : 0 ≤ k.preparing := by
  unfold Cont.preparing
  split <;> decide

theorem preparing_nonneg (c : Caller T) : 0 ≤ c.preparing := by
  cases c with
  | createWait k => exact k.preparing_nonneg
  | startWait k => exact k.preparing_nonneg
  | _ => exact Int.le_refl 0

theorem picking_nonneg (c : Caller T) : 0 ≤ c.picking := by
  unfold Caller.picking
  split <;> decide

theorem not_mem_of_picking {cs : List (Caller T)} (h : total Caller.picking cs ≤ 0)
    (job : ThreadPoolJob T) : .pickWait job ∉ cs := by
  intro hmem
  cases eq_zero_of_total_le Caller.picking picking_nonneg h _ hmem

theorem picking_zero_of_field {s : State T} (h : HandedOver s)
    (hpick : total Caller.picking s.callers ≤ 0) : s.tp.persistentJob = none := by
  by_contra hne
  have hone := h.slot hne
  omega

/-- A part of a call keeps the invariant.  `cs` are the calls afterwards, `P` is the weight
of the other calls that prepare a job, and `w` that of the call itself. -/
theorem HandedOver.serves {s s' : State T} {P w : Int} {c : Caller T} {cs : List (Caller T)}
    (h : HandedOver s) (hserves : Serves s.slot s'.log.gone w s'.slot c)
    (hgone : s.log.gone ⊆ s'.log.gone) (hP : 0 ≤ P)
    (hroom : P + total Caller.picking s.callers + w ≤ 1)
    (hprep : total Caller.preparing cs = P + c.preparing)
    (hpick : total Caller.picking cs = total Caller.picking s.callers + c.picking)
    (hmem : ∀ c' ∈ cs, c' = c ∨ c' ∈ s.callers) : HandedOver { s' with callers := cs } := by
  generalize hσ : s'.slot = σ at hserves
  cases hserves with
  | keeps hcprep hcpick =>
      have hslot : s'.tp.persistentJob = s.tp.persistentJob := congrArg Slot.persistentJob hσ
      refine ⟨?_, ?_, ?_, ?_, ?_⟩
      · simp only [hprep, hpick]
        omega
      · simp only [hpick, hslot]
        intro hne
        have hone := h.slot hne
        omega
      · exact (congrArg Slot.overwritten hσ).trans h.overwritten
      · exact (congrArg Slot.lost hσ).trans h.lost
      · intro job hjob
        rcases hmem _ hjob with rfl | hold
        · cases hcpick
        · rw [hslot]
          exact (h.picked job hold).imp_right fun hg => hgone hg
  | stores job =>
      -- the call is the only one inside, so the field is empty
      have hnone : total Caller.picking s.callers ≤ 0 := by omega
      have hfield := picking_zero_of_field h hnone
      have hslot : s'.tp.persistentJob = some job := congrArg Slot.persistentJob hσ
      refine ⟨?_, ?_, ?_, ?_, ?_⟩
      · simp only [hprep, hpick, Caller.preparing, Caller.picking]
        omega
      · intro _
        simp only [hpick, Caller.picking]
        have hge := total_nonneg Caller.picking picking_nonneg s.callers
        omega
      · refine (congrArg Slot.overwritten hσ).trans ?_
        simp only [State.slot, hfield, h.overwritten, Option.toList_none, List.append_nil]
      · exact (congrArg Slot.lost hσ).trans h.lost
      · intro job' hjob'
        rcases hmem _ hjob' with heq | hold
        · cases heq
          exact .inl hslot
        · exact absurd hold (not_mem_of_picking hnone job')
  | clears hcgone hcprep hcpick =>
      have hslot : s'.tp.persistentJob = none := congrArg Slot.persistentJob hσ
      refine ⟨?_, fun hne => absurd hslot hne, ?_, ?_, ?_⟩
      · simp only [hprep, hpick, hcprep, hcpick]
        omega
      · exact (congrArg Slot.overwritten hσ).trans h.overwritten
      · exact (congrArg Slot.lost hσ).trans h.lost
      · intro job hjob
        refine .inr ?_
        rcases hmem _ hjob with rfl | hold
        · cases hcpick
        · rcases h.picked job hold with hheld | hg
          · exact hcgone job hheld
          · exact hgone hg

theorem Serves.callers_eq {σ σ' : Slot T} {gone : List (ThreadPoolJob T)} {w : Int} {c : Caller T}
    (h : Serves σ gone w σ' c) : σ'.callers = σ.callers := by
  cases h <;> rfl

/-- How far a new call may go: only `ThreadPoolAddPersistent` stores a job. -/
def Call.weight : Call T → Int
  | .addPersistent _ => 1
  | _ => 0

theorem callStep_serves (s : State T) (c : Call T) (r : Answers) :
    Serves s.slot (callStep s c r).1.log.gone c.weight (callStep s c r).1.slot
      (callStep s c r).2 := by
  cases c with
  | addPersistent request => exact threadPoolAddPersistent_serves request
  | add request => exact threadPoolAdd_serves request
  | remove jobId => exact threadPoolRemove_serves jobId
  | setAttr attr =>
      exact growLoop_serves (s := { s with tp := { s.tp with attr := attr } }) s.tp.totalThreads
  | shutdown => exact shutdown_serves 0

theorem resumeStep_serves {s : State T} {c : Caller T} {r : Answers} {p : State T × Caller T}
    (h : resumeStep s c r = some p) (hc : c.picking = 0) :
    Serves s.slot p.1.log.gone c.preparing p.1.slot p.2 := by
  cases c with
  | createWait k =>
      simp only [resumeStep, Option.ite_none_left_eq_some, Option.some.injEq] at h
      obtain ⟨-, rfl⟩ := h
      exact createNow_serves
  | startWait k =>
      simp only [resumeStep, Option.ite_none_left_eq_some, Option.some.injEq] at h
      obtain ⟨-, rfl⟩ := h
      exact afterSuccess_serves (s := noteMaxThreads s)
  | pickWait job => cases hc
  | shutting ret =>
      cases h
      exact shutdown_serves ret
  | quitWait ret =>
      simp only [resumeStep, Option.ite_none_left_eq_some, Option.some.injEq] at h
      obtain ⟨-, rfl⟩ := h
      unfold awaitThreads
      split <;> exact .keeps (Int.le_refl 0) rfl
  | returned ret jobId => cases h

theorem handedOver_call {s : State T} {c : Call T} {r : Answers} (h : HandedOver s)
    (ho : Orderly s (.call c r)) (hgone : s.log.gone ⊆ (callStep s c r).1.log.gone) :
    HandedOver { (callStep s c r).1 with
      callers := (callStep s c r).1.callers ++ [(callStep s c r).2] } := by
  have hserves := callStep_serves s c r
  have hsame : (callStep s c r).1.callers = s.callers := hserves.callers_eq
  rw [hsame]
  refine h.serves hserves hgone (total_nonneg _ preparing_nonneg s.callers) ?_
    (total_concat ..) (total_concat ..) ?_
  · have hin := h.inside
    cases c with
    | addPersistent request =>
        -- no other call is inside
        have hout : ∀ c ∈ s.callers, c.preparing = 0 ∧ c.picking = 0 := by
          intro c hc
          have hnot : ¬ 0 < c.preparing + c.picking := ho c hc
          have hp := preparing_nonneg c
          have hk := picking_nonneg c
          omega
        have hprep : total Caller.preparing s.callers = 0 :=
          total_eq_zero _ fun c hc => (hout c hc).1
        have hpick : total Caller.picking s.callers = 0 :=
          total_eq_zero _ fun c hc => (hout c hc).2
        rw [hprep, hpick]
        exact Int.le_refl 1
    | _ =>
        simp only [Call.weight]
        omega
  · intro c' hc'
    rcases List.mem_append.mp hc' with hold | hnew
    · exact .inr hold
    · exact .inl (List.mem_singleton.mp hnew)

theorem handedOver_resume {s : State T} {c : Caller T} {i : Nat} {r : Answers}
    {p : State T × Caller T} (h : HandedOver s) (hi : s.callers[i]? = some c)
    (hp : resumeStep s c r = some p) (hgone : s.log.gone ⊆ p.1.log.gone) :
    HandedOver { p.1 with callers := p.1.callers.set i p.2 } := by
  have hmem : c ∈ s.callers := List.mem_of_getElem? hi
  have hset : ∀ c' ∈ s.callers.set i p.2, c' = p.2 ∨ c' ∈ s.callers := fun c' hc' =>
    (List.mem_or_eq_of_mem_set hc').symm
  have hprep := total_set Caller.preparing (r := p.2) hi
  have hpick := total_set Caller.picking (r := p.2) hi
  have hcase : (∃ job, c = .pickWait job) ∨ c.picking = 0 := by
    cases c with
    | pickWait job => exact .inl ⟨job, rfl⟩
    | _ => exact .inr rfl
  rcases hcase with ⟨job, rfl⟩ | hzero
  · -- the wait for the job is over: the field is empty
    simp only [resumeStep, Option.ite_none_left_eq_some, Option.some.injEq] at hp
    obtain ⟨hslot, rfl⟩ := hp
    have hnone : s.tp.persistentJob = none := by simpa using hslot
    have hin := h.inside
    simp only [Caller.preparing, Caller.picking, add_zero] at hprep hpick
    refine ⟨?_, fun hne => absurd hnone hne, h.overwritten, h.lost, fun job' hjob' => ?_⟩
    · simp only [assignId]
      omega
    · rcases hset _ hjob' with heq | hold
      · cases heq
      · exact h.picked job' hold
  · have hserves := resumeStep_serves hp hzero
    have hsame : p.1.callers = s.callers := hserves.callers_eq
    have hin := h.inside
    have hle := le_total Caller.preparing preparing_nonneg hmem
    rw [hsame]
    refine h.serves (P := total Caller.preparing s.callers - c.preparing) hserves hgone ?_ ?_ ?_ ?_
      hset
    all_goals omega

theorem handedOver_worker {s s' : State T} (h : HandedOver s) (hserves : WorkerServes s s')
    (hgone : s.log.gone ⊆ s'.log.gone) : HandedOver s' := by
  rcases hserves with hslot | ⟨job, hjob, hout, hslot⟩
  · have hfield : s'.tp.persistentJob = s.tp.persistentJob := congrArg Slot.persistentJob hslot
    have hcallers : s'.callers = s.callers := congrArg Slot.callers hslot
    refine ⟨?_, ?_, (congrArg Slot.overwritten hslot).trans h.overwritten,
      (congrArg Slot.lost hslot).trans h.lost, ?_⟩
    · rw [hcallers]
      exact h.inside
    · rw [hcallers, hfield]
      exact h.slot
    · rw [hcallers, hfield]
      exact fun job hjob => (h.picked job hjob).imp_right fun hg => hgone hg
  · have hfield : s'.tp.persistentJob = none := congrArg Slot.persistentJob hslot
    have hcallers : s'.callers = s.callers := congrArg Slot.callers hslot
    refine ⟨?_, fun hne => absurd hfield hne, (congrArg Slot.overwritten hslot).trans h.overwritten,
      (congrArg Slot.lost hslot).trans h.lost, ?_⟩
    · rw [hcallers]
      exact h.inside
    · rw [hcallers]
      intro job' hjob'
      refine .inr ?_
      rcases h.picked job' hjob' with hheld | hg
      · cases Option.some.inj (hjob.symm.trans hheld)
        exact hout
      · exact hgone hg

theorem handedOver_step {s s' : State T} {a : Action T} (h : HandedOver s) (ho : Orderly s a)
    (hstep : step s a = some s') : HandedOver s' := by
  have hgone := gone_subset_of_step hstep
  have halive := alive_of_step hstep
  unfold step at hstep
  rw [if_neg (by simp [halive])] at hstep
  cases a with
  | call c r =>
      cases hstep
      exact handedOver_call h ho hgone
  | resume i r =>
      dsimp only at hstep
      split at hstep
      · cases hstep
      next c hi =>
        obtain ⟨p, hp, rfl⟩ := Option.map_eq_some_iff.mp hstep
        exact handedOver_resume h hi hp hgone
  | worker i timedOut r => exact handedOver_worker h (workerStep_serves ho hstep) hgone

theorem handedOver_init (attr : ThreadPoolAttr) (r : Answers) :
    HandedOver (threadPoolInit (T := T) attr r) := by
  have hempty : HandedOver (emptyPool (T := T) attr) := by
    refine ⟨Int.zero_le_ofNat 1, fun hne => absurd rfl hne, rfl, rfl, fun job hjob => ?_⟩
    cases hjob
  refine hempty.serves (P := 0) (growLoop_serves 0) (List.nil_subset _) (Int.le_refl 0)
    (Int.zero_le_ofNat 1) ?_ ?_ (fun c' hc' => .inl (List.mem_singleton.mp hc'))
  · simp
  · simp [emptyPool]

/-! ## Runs -/

/-- In every run in which the calls of `ThreadPoolAddPersistent` do not overlap and the
workers get their list nodes, no job is lost: each accepted job waits in the pool, is
being run, has finished, or was taken back or freed.  And a call of
`ThreadPoolAddPersistent` that may go on has had its job started, taken back or
freed. -/
theorem orderly_jobs_kept (attr : ThreadPoolAttr) (r : Answers) (as : List (Action T))
    (s : State T) (ho : System.Along step Orderly (threadPoolInit attr r) as)
    (h : System.run step (threadPoolInit attr r) as = some s) :
    (s.log.accepted : Multiset (ThreadPoolJob T)) =
        s.tp.jobs + total Worker.held s.workers + s.log.finished + s.log.removed +
          s.log.discarded ∧
      ∀ (i : Nat) (job : ThreadPoolJob T), s.callers[i]? = some (.pickWait job) →
        s.tp.persistentJob = none → job ∈ s.log.gone := by
  have hh : HandedOver s := System.run_keeps (fun _ s => HandedOver s)
    (fun _ _ _ _ hs hp hstep => handedOver_step hs hp hstep) (handedOver_init attr r) ho h
  refine ⟨?_, fun i job hi hnone => ?_⟩
  · rw [(accounted_of_run h).jobs, hh.overwritten, hh.lost]
    simp only [Multiset.coe_nil, add_zero]
  · rcases hh.picked job (List.mem_of_getElem? hi) with hheld | hg
    · rw [hnone] at hheld
      cases hheld
    · exact hg

theorem orderly_jobs_kept_persistentRun :
    ∃ s : State Nat,
      System.run step (threadPoolInit tpAttr (granted 0)) (persistentRun 7) = some s ∧
      (s.log.accepted : Multiset (ThreadPoolJob Nat)) =
        s.tp.jobs + total Worker.held s.workers + s.log.finished + s.log.removed +
          s.log.discarded := by
  refine ⟨_, rfl, (orderly_jobs_kept tpAttr (granted 0) (persistentRun 7) _ ?_ rfl).1⟩
  have hfirst : ∀ c ∈ (threadPoolInit (T := Nat) tpAttr (granted 0)).callers,
      ¬ c.inAddPersistent := by decide
  exact ⟨hfirst, fun _ => rfl, fun _ => rfl, trivial, fun _ => rfl, trivial, trivial⟩

/-- Two overlapping calls: both have a worker created for them before either of the workers
runs, and the second one stores its job over the first. -/
def overlappingRun : List (Action Nat) :=
  [.call (.addPersistent ⟨7, false, .high⟩) (granted 0), .worker 0 false (granted 1),
    .resume 1 (granted 2), .call (.addPersistent ⟨8, false, .high⟩) (granted 3),
    .worker 1 false (granted 4), .resume 2 (granted 5), .worker 0 false (granted 6),
    .resume 1 (granted 7), .resume 2 (granted 8)]

/-- The condition on the calls is needed: here both calls return 0, and the first job is
never run. -/
theorem overlapping_calls_lose_a_job :
    ∃ s : State Nat,
      System.run step (threadPoolInit tpAttr (granted 0)) overlappingRun = some s ∧
      s.callers = [.returned 0 none, .returned 0 (some 0), .returned 0 (some 1)] ∧
      s.log.overwritten.map (fun job => job.request.task) = [7] ∧
      s.log.started.map (fun job => job.request.task) = [8] :=
  ⟨_, rfl, rfl, rfl, rfl⟩

end VmpSa.Pool
