import VmpSa.Pool.Threads

/-!
# A pool without a free thread

When every thread the pool may have runs a persistent job,
`ThreadPoolAddPersistent` cannot have its job picked up.  The code means to refuse
the call, but its test `totalThreads - persistentThreads - 1 == 0` asks for one free
thread to be left and not for none.  `exhausted_blocks` says what happens instead: the call
stores its job, waits, and goes on waiting through everything that other calls do, until a
routine returns, the attributes change, or `ThreadPoolRemove` takes the persistent job.

That need not be its own job.  The pool has one slot for a persistent job, and a second
call stores its job there in place of the first.  The first call waits for the slot to be
empty, whoever empties it.
-/

namespace VmpSa.Pool

open Tally

variable {T : Type}

/-! ## The exhausted pool -/

/-- The thread runs a persistent job, or is gone. -/
def Worker.tiedUp : Worker T → Prop
  | .exited => True
  | .running _ .persistent => True
  | _ => False

/-- The call neither changes the number of threads to keep nor shuts the pool down. -/
@[simp] def Caller.calm : Caller T → Bool
  | .createWait (.grow _) => false
  | .startWait (.grow _) => false
  | .shutting _ => false
  | .quitWait _ => false
  | _ => true

/-- `ThreadPoolRemove` with this id takes the job in the slot for a persistent one. -/
def TakesPersistent (s : State T) (jobId : Nat) : Prop :=
  listTake jobId s.tp.highJobQ = none ∧ listTake jobId s.tp.medJobQ = none ∧
    listTake jobId s.tp.lowJobQ = none ∧ ∃ job, s.tp.persistentJob = some job ∧ job.jobId = jobId

/-- The step is no step of a worker, changes no attributes, does not shut the pool down
and does not take the persistent job. -/
def Calm (s : State T) : Action T → Prop
  | .call (.add _) _ => True
  | .call (.addPersistent _) _ => True
  | .call (.remove jobId) _ => ¬ TakesPersistent s jobId
  | .call (.setAttr _) _ => False
  | .call .shutdown _ => False
  | .resume _ _ => True
  | .worker _ _ _ => False

/-- Every thread the pool may have runs a persistent job. -/
structure Exhausted (s : State T) : Prop where
  threads : ∀ w ∈ s.workers, w.tiedUp
  finite : s.tp.attr.maxThreads ≠ infiniteThreads
  full : s.tp.attr.maxThreads ≤ s.tp.totalThreads
  started : s.tp.pendingWorkerThreadStart = false
  free : s.tp.totalThreads = s.tp.persistentThreads
  calls : ∀ c ∈ s.callers, c.calm = true

/-- A part of a call that leaves the threads alone. -/
structure Quiet (s : State T) (p : State T × Caller T) : Prop where
  workers : p.1.workers = s.workers
  attr : p.1.tp.attr = s.tp.attr
  total : p.1.tp.totalThreads = s.tp.totalThreads
  pending : p.1.tp.pendingWorkerThreadStart = s.tp.pendingWorkerThreadStart
  persistent : p.1.tp.persistentThreads = s.tp.persistentThreads
  callers : p.1.callers = s.callers
  field : s.tp.persistentJob ≠ none → p.1.tp.persistentJob ≠ none
  calm : p.2.calm = true

/-- The counters of a pool whose threads are all tied up. -/
theorem total_eq_of_tiedUp {s : State T} (hc : Counted s) (ht : ∀ w ∈ s.workers, w.tiedUp) :
    s.tp.totalThreads = s.tp.persistentThreads ∧ s.tp.pendingWorkerThreadStart = false := by
  have hweights : ∀ w ∈ s.workers, w.live = w.persistent ∧ w.pending = 0 := by
    intro w hw
    have hw' := ht w hw
    cases w with
    | exited => simp
    | running job kind => cases kind <;> simp_all [Worker.tiedUp]
    | _ => cases hw'
  constructor
  · rw [hc.total, hc.persistent]
    exact total_congr fun w hw => (hweights w hw).1
  · have hp := hc.pending
    rw [total_eq_zero _ fun w hw => (hweights w hw).2] at hp
    by_contra hne
    rw [if_pos (by simpa using hne)] at hp
    cases hp

section Calls

variable {s : State T} {k : Cont T} {r : Answers}

theorem quiet_storePersistent (request : JobRequest T) :
    Quiet s (storePersistent s request r) := by
  unfold storePersistent
  split
  · exact ⟨rfl, rfl, rfl, rfl, rfl, rfl, fun _ => by simp, rfl⟩
  · exact ⟨rfl, rfl, rfl, rfl, rfl, rfl, id, rfl⟩

theorem quiet_finishAdd (queued : Bool) : Quiet s (finishAdd s queued) :=
  ⟨rfl, rfl, rfl, rfl, rfl, rfl, id, rfl⟩

/-- `CreateWorker` only fails. -/
theorem createWorker_of_exhausted (h : Exhausted s) :
    createWorker s k r = afterFailure s eMaxThreads k r := by
  have hmax : s.tp.attr.maxThreads ≠ infiniteThreads ∧
      s.tp.totalThreads + 1 > s.tp.attr.maxThreads := by
    have hfull := h.full
    exact ⟨h.finite, by omega⟩
  rw [createWorker, if_neg (by simp [h.started]), createNow, if_pos hmax]

theorem quiet_createWorker (h : Exhausted s) (hk : (Caller.createWait k).calm = true) :
    Quiet s (createWorker s k r) := by
  rw [createWorker_of_exhausted h]
  cases k with
  | grow i => cases hk
  | persistent request => exact quiet_storePersistent request
  | add queued jobs threads => exact quiet_finishAdd queued

theorem quiet_addWorker (h : Exhausted s) (queued : Bool) (jobs threads : Int) :
    Quiet s (addWorker s queued jobs threads r) := by
  unfold addWorker
  split
  · exact quiet_createWorker h rfl
  · exact quiet_finishAdd queued

theorem Exhausted.congr {s' : State T} (h : Exhausted s) (hw : s'.workers = s.workers)
    (hc : s'.tp.control = s.tp.control) (hcalls : s'.callers = s.callers) : Exhausted s' where
  threads := by rw [hw]; exact h.threads
  finite := by rw [attr_of_control hc]; exact h.finite
  full := by rw [attr_of_control hc, totalThreads_of_control hc]; exact h.full
  started := (pending_of_control hc).trans h.started
  free := (totalThreads_of_control hc).trans
    (h.free.trans (congrArg Control.persistentThreads hc).symm)
  calls := by rw [hcalls]; exact h.calls

theorem quiet_threadPoolAdd (h : Exhausted s) (request : JobRequest T) :
    Quiet s (threadPoolAdd s request r) := by
  unfold threadPoolAdd
  split
  · exact ⟨rfl, rfl, rfl, rfl, rfl, rfl, id, rfl⟩
  split
  · split
    · generalize createThreadPoolJob s request r = job
      have henq : (enqueue s job).workers = s.workers ∧ (enqueue s job).callers = s.callers ∧
          (enqueue s job).tp.control = s.tp.control ∧
          (enqueue s job).tp.persistentJob = s.tp.persistentJob := by
        unfold enqueue
        cases job.request.priority <;> exact ⟨rfl, rfl, rfl, rfl⟩
      obtain ⟨hw, hcalls, hcontrol, hfield⟩ := henq
      have hq : Quiet (enqueue s job) (startAddWorker (enqueue s job) true r) :=
        quiet_addWorker (h.congr hw hcontrol hcalls) ..
      refine ⟨hq.workers.trans hw, hq.attr.trans (attr_of_control hcontrol),
        hq.total.trans (totalThreads_of_control hcontrol),
        hq.pending.trans (pending_of_control hcontrol),
        hq.persistent.trans (congrArg Control.persistentThreads hcontrol),
        hq.callers.trans hcalls, ?_, hq.calm⟩
      rw [← hfield]
      exact hq.field
    · exact quiet_addWorker h ..
  · exact ⟨rfl, rfl, rfl, rfl, rfl, rfl, id, rfl⟩

theorem quiet_threadPoolRemove {jobId : Nat} (h : ¬ TakesPersistent s jobId) :
    Quiet s (threadPoolRemove s jobId) := by
  unfold threadPoolRemove
  split
  · exact ⟨rfl, rfl, rfl, rfl, rfl, rfl, id, rfl⟩
  next hhigh =>
    split
    · exact ⟨rfl, rfl, rfl, rfl, rfl, rfl, id, rfl⟩
    next hmed =>
      split
      · exact ⟨rfl, rfl, rfl, rfl, rfl, rfl, id, rfl⟩
      next hlow =>
        split
        next job hjob =>
          rw [if_neg fun hid => h ⟨hhigh, hmed, hlow, job, hjob, hid⟩]
          exact ⟨rfl, rfl, rfl, rfl, rfl, rfl, id, rfl⟩
        · exact ⟨rfl, rfl, rfl, rfl, rfl, rfl, id, rfl⟩

/-- The call is not refused: it stores its job if it gets memory for it. -/
theorem threadPoolAddPersistent_of_exhausted (h : Exhausted s) (request : JobRequest T) :
    threadPoolAddPersistent s request r = storePersistent s request r := by
  have hfull : ¬ s.tp.totalThreads < s.tp.attr.maxThreads := Int.not_lt.mpr h.full
  have hfree : ¬ s.tp.totalThreads - s.tp.persistentThreads - 1 = 0 := by
    rw [h.free]
    omega
  rw [threadPoolAddPersistent, if_neg hfull, if_neg hfree]

theorem quiet_resume {c : Caller T} {p : State T × Caller T} (h : Exhausted s)
    (hfield : s.tp.persistentJob ≠ none) (hc : c.calm = true)
    (hp : resumeStep s c r = some p) : Quiet s p := by
  cases c with
  | createWait k =>
      simp only [resumeStep, h.started, Bool.false_eq_true, if_false, Option.some.injEq] at hp
      obtain rfl := hp
      have hq := quiet_createWorker (r := r) h hc
      rwa [createWorker, if_neg (by simp [h.started])] at hq
  | startWait k =>
      simp only [resumeStep, h.started, Bool.false_eq_true, if_false, Option.some.injEq] at hp
      obtain rfl := hp
      have hn : Exhausted (noteMaxThreads s) := h.congr rfl rfl rfl
      cases k with
      | grow i => cases hc
      | persistent request =>
          have hq := quiet_storePersistent (s := noteMaxThreads s) (r := r) request
          exact ⟨hq.1, hq.2, hq.3, hq.4, hq.5, hq.6, hq.7, hq.8⟩
      | add queued jobs threads =>
          have hq := quiet_addWorker (r := r) hn queued jobs (threads + 1)
          exact ⟨hq.1, hq.2, hq.3, hq.4, hq.5, hq.6, hq.7, hq.8⟩
  | pickWait job =>
      rw [resumeStep, if_pos (by simpa [Option.isSome_iff_ne_none] using hfield)] at hp
      cases hp
  | shutting ret => cases hc
  | quitWait ret => cases hc
  | returned ret jobId => cases hp

end Calls

/-! ## Steps -/

/-- The call with number `i` waits for its job to be picked up. -/
structure Blocked (i : Nat) (job : ThreadPoolJob T) (s : State T) : Prop where
  exhausted : Exhausted s
  field : s.tp.persistentJob ≠ none
  waits : s.callers[i]? = some (.pickWait job)

/-- What a quiet part of a call leaves, when its place in the table is `cs`. -/
theorem Exhausted.quiet {s : State T} {p : State T × Caller T} {cs : List (Caller T)}
    (h : Exhausted s) (hq : Quiet s p) (hcs : ∀ c ∈ cs, c = p.2 ∨ c ∈ s.callers) :
    Exhausted { p.1 with callers := cs } where
  threads := by
    intro w hw
    rw [hq.workers] at hw
    exact h.threads w hw
  finite := by rw [hq.attr]; exact h.finite
  full := by rw [hq.attr, hq.total]; exact h.full
  started := hq.pending.trans h.started
  free := hq.total.trans (h.free.trans hq.persistent.symm)
  calls := by
    intro c hc
    rcases hcs c hc with rfl | hold
    · exact hq.calm
    · exact h.calls c hold

theorem blocked_step {i : Nat} {job : ThreadPoolJob T} {s s' : State T} {a : Action T}
    (h : Blocked i job s) (ha : Calm s a) (hstep : step s a = some s') :
    Blocked i job s' := by
  obtain ⟨hex, hfield, hwaits⟩ := h
  have halive := alive_of_step hstep
  have hlt : i < s.callers.length := (List.getElem?_eq_some_iff.mp hwaits).1
  unfold step at hstep
  rw [if_neg (by simp [halive])] at hstep
  cases a with
  | call c r =>
      have hq : Quiet s (callStep s c r) := by
        cases c with
        | addPersistent request =>
            rw [callStep, threadPoolAddPersistent_of_exhausted hex]
            exact quiet_storePersistent request
        | add request => exact quiet_threadPoolAdd hex request
        | remove jobId => exact quiet_threadPoolRemove ha
        | setAttr attr => cases ha
        | shutdown => cases ha
      cases hstep
      refine ⟨hex.quiet hq fun c' hc' => ?_, hq.field hfield, ?_⟩
      · rw [hq.callers] at hc'
        rcases List.mem_append.mp hc' with hold | hnew
        · exact .inr hold
        · exact .inl (List.mem_singleton.mp hnew)
      · simp only [hq.callers]
        rwa [List.getElem?_append_left hlt]
  | resume j r =>
      dsimp only at hstep
      split at hstep
      · cases hstep
      next c hj =>
        obtain ⟨p, hp, rfl⟩ := Option.map_eq_some_iff.mp hstep
        have hq := quiet_resume hex hfield (hex.calls c (List.mem_of_getElem? hj)) hp
        refine ⟨hex.quiet hq fun c' hc' => ?_, hq.field hfield, ?_⟩
        · rw [hq.callers] at hc'
          exact (List.mem_or_eq_of_mem_set hc').symm
        · -- the waiting call itself has no step
          have hne : j ≠ i := by
            rintro rfl
            cases Option.some.inj (hj.symm.trans hwaits)
            rw [resumeStep, if_pos (by simpa [Option.isSome_iff_ne_none] using hfield)] at hp
            cases hp
          simp only [hq.callers]
          rwa [List.getElem?_set_ne hne]
  | worker j timedOut r => cases ha

/-- A `ThreadPoolAddPersistent` that comes when all the threads the pool may have run
persistent jobs is not refused.  If it gets memory for its job it stores it and waits, and it
still waits after any further steps among which no routine returns and no call takes the
persistent job, changes the attributes or shuts the pool down. -/
theorem exhausted_blocks (attr : ThreadPoolAttr) (r₀ : Answers) (as : List (Action T))
    (s : State T) (h : System.run step (threadPoolInit attr r₀) as = some s)
    (halive : s.destroyed = false) (hthreads : ∀ w ∈ s.workers, w.tiedUp)
    (hfinite : s.tp.attr.maxThreads ≠ infiniteThreads)
    (hfull : s.tp.attr.maxThreads ≤ s.tp.totalThreads)
    (hcalls : ∀ c ∈ s.callers, c.calm = true) (request : JobRequest T) (r : Answers)
    (halloc : r.alloc = true) :
    ∃ s₁, step s (.call (.addPersistent request) r) = some s₁ ∧
      ∀ bs s₂, System.Along step Calm s₁ bs → System.run step s₁ bs = some s₂ →
        s₂.callers[s.callers.length]? =
          some (.pickWait (createThreadPoolJob s request r)) := by
  obtain ⟨hfree, hstarted⟩ := total_eq_of_tiedUp (counted_of_run h) hthreads
  have hex : Exhausted s := ⟨hthreads, hfinite, hfull, hstarted, hfree, hcalls⟩
  have hq := quiet_storePersistent (s := s) (r := r) request
  have hstore : storePersistent s request r = ((storePersistent s request r).1,
      .pickWait (createThreadPoolJob s request r)) := by
    rw [storePersistent, if_pos halloc]
  have hfield : (storePersistent s request r).1.tp.persistentJob ≠ none := by
    rw [storePersistent, if_pos halloc]
    simp
  set s₁ : State T := { (storePersistent s request r).1 with
    callers := s.callers ++ [.pickWait (createThreadPoolJob s request r)] } with hs₁
  have hblocked : Blocked s.callers.length (createThreadPoolJob s request r) s₁ := by
    refine ⟨hex.quiet hq fun c hc => ?_, hfield, ?_⟩
    · rw [hstore]
      rcases List.mem_append.mp hc with hold | hnew
      · exact .inr hold
      · exact .inl (List.mem_singleton.mp hnew)
    · simp [s₁]
  refine ⟨s₁, ?_, fun bs s₂ hcalm hrun => ?_⟩
  · rw [step, if_neg (by simp [halive])]
    dsimp only [callStep]
    rw [threadPoolAddPersistent_of_exhausted hex, hstore]
    simp only [hq.callers, hs₁]
  · have hend : Blocked s.callers.length (createThreadPoolJob s request r) s₂ :=
      System.run_keeps (P := Calm) (fun _ s' => Blocked _ _ s')
        (fun _ _ _ _ hb ha hstep => blocked_step hb ha hstep) hblocked hcalm hrun
    exact hend.waits

/-- A pool of one thread, which a first call has taken. -/
def oneThread : ThreadPoolAttr := { tpAttr with maxThreads := 1 }

theorem exhausted_blocks_persistentRun :
    ∃ s₁ : State Nat, System.run step (threadPoolInit oneThread (granted 0))
        (persistentRun 7 ++ [.call (.addPersistent ⟨8, false, .high⟩) (granted 6)]) = some s₁ ∧
      ∀ bs s₂, System.Along step Calm s₁ bs → System.run step s₁ bs = some s₂ →
        ∃ job, s₂.callers[2]? = some (.pickWait job) := by
  have hthreads : ∀ w ∈ [Worker.running
      (⟨⟨7, false, .high⟩, 3, 0, 0⟩ : ThreadPoolJob Nat) .persistent], w.tiedUp := by
    intro w hw
    cases List.mem_singleton.mp hw
    trivial
  obtain ⟨s₁, hs₁, hblocked⟩ := exhausted_blocks oneThread (granted 0) (persistentRun 7) _ rfl rfl
    hthreads (by decide) (by decide) (by decide) ⟨8, false, .high⟩ (granted 6) rfl
  refine ⟨s₁, hs₁, fun bs s₂ hcalm hrun => ⟨_, hblocked bs s₂ hcalm hrun⟩⟩

end VmpSa.Pool
