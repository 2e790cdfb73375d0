import Mathlib.Algebra.Order.Group.Multiset
import Mathlib.Logic.Relation
import Mathlib.Tactic.Abel
import VmpSa.Pool.ThreadPool

/-!
# What a step of the pool can do

A step runs from a lock to an unlock or a wait, so it strings several updates
together, and which ones depends on what the call finds.  `Effect` lists the
updates one by one with what is known when each is made.  It does not say which
of the queues a job comes from or goes to: `Takes` says that the pool has one job
less, and that everything else the pool is steered by (`Control`) stays.

`step_effects` says that every step is a chain of effects, after the new attributes are
in place if the step is a `ThreadPoolSetAttr`.  An invariant of the pool is
proved once per effect.
-/

namespace VmpSa.Pool

open Relation (ReflTransGen)

variable {T : Type}

/-! ## Jobs and control -/

/-- What the pool is steered by, besides the jobs. -/
structure Control where
  lastJobId : Nat
  shutdown : Bool
  totalThreads : Int
  pendingWorkerThreadStart : Bool
  busyThreads : Int
  persistentThreads : Int
  attr : ThreadPoolAttr
  workerThreads : Int
  idleThreads : Int

def ThreadPool.control (tp : ThreadPool T) : Control where
  lastJobId := tp.lastJobId
  shutdown := tp.shutdown
  totalThreads := tp.totalThreads
  pendingWorkerThreadStart := tp.pendingWorkerThreadStart
  busyThreads := tp.busyThreads
  persistentThreads := tp.persistentThreads
  attr := tp.attr
  workerThreads := tp.stats.workerThreads
  idleThreads := tp.stats.idleThreads

/-- The jobs the pool holds. -/
def ThreadPool.jobs (tp : ThreadPool T) : Multiset (ThreadPoolJob T) :=
  tp.highJobQ + tp.medJobQ + tp.lowJobQ + tp.persistentJob.toList

/-- The pool gives one job away. -/
structure Takes (tp : ThreadPool T) (job : ThreadPoolJob T) (tp' : ThreadPool T) : Prop where
  jobs : tp.jobs = job ::ₘ tp'.jobs
  control : tp'.control = tp.control

/-- One update of the pool. -/
inductive Effect : State T → State T → Prop where
  | callers (s : State T) (cs : List (Caller T)) : Effect s { s with callers := cs }
  /-- `ithread_create` in `CreateWorker` -/
  | spawn (s : State T) (hpending : s.tp.pendingWorkerThreadStart = false)
      (hmax : s.tp.attr.maxThreads ≠ infiniteThreads →
        s.tp.totalThreads + 1 ≤ s.tp.attr.maxThreads) :
      Effect s { s with
        tp := { s.tp with pendingWorkerThreadStart := true }
        workers := s.workers ++ [.starting] }
  | note (s : State T) : Effect s (noteMaxThreads s)
  | start (s : State T) (i : Nat) (hi : s.workers[i]? = some .starting) :
      Effect s (workerStart s i)
  | settle (s : State T) (i : Nat) (job : Option (ThreadPoolJob T)) (kind : Kind)
      (hi : s.workers[i]? = some (.atLoop job kind)) : Effect s (settle s i job kind)
  | rise (s : State T) (i : Nat) (hi : s.workers[i]? = some .waiting) : Effect s (rise s i)
  /-- `BumpPriority`; `lost` are the jobs without a list node -/
  | bump (s : State T) (tp : ThreadPool T) (lost : List (ThreadPoolJob T))
      (hjobs : s.tp.jobs = tp.jobs + lost) (hcontrol : tp.control = s.tp.control) :
      Effect s { s with tp := tp, log := { s.log with lost := s.log.lost ++ lost } }
  | take (s : State T) (i : Nat) (tp : ThreadPool T) (job : ThreadPoolJob T) (kind : Kind)
      (hi : s.workers[i]? = some .awake) (hrun : s.tp.shutdown = false)
      (htakes : Takes s.tp job tp) : Effect s (takeJob { s with tp := tp } i job kind)
  | leave (s : State T) (i : Nat) (hi : s.workers[i]? = some .awake) : Effect s (exitFunction s i)
  /-- the routine of a job returns -/
  | finish (s : State T) (i : Nat) (job : ThreadPoolJob T) (kind : Kind)
      (hi : s.workers[i]? = some (.running job kind)) :
      Effect s { s with
        workers := s.workers.set i (.atLoop (some job) kind)
        log := { s.log with finished := s.log.finished ++ [job] } }
  | assignId (s : State T) : Effect s (assignId s)
  /-- a job comes in, and `overwritten` is what it displaces -/
  | accept (s : State T) (tp : ThreadPool T) (job : ThreadPoolJob T)
      (overwritten : List (ThreadPoolJob T)) (hserial : job.serial = s.log.accepted.length)
      (hjobs : job ::ₘ s.tp.jobs = tp.jobs + overwritten)
      (hcontrol : tp.control = s.tp.control) :
      Effect s { s with
        tp := tp
        log := { s.log with
          accepted := s.log.accepted ++ [job]
          overwritten := s.log.overwritten ++ overwritten } }
  | remove (s : State T) (tp : ThreadPool T) (job : ThreadPoolJob T)
      (htakes : Takes s.tp job tp) :
      Effect s { s with tp := tp, log := { s.log with removed := s.log.removed ++ [job] } }
  | discard (s : State T) : Effect s (discardAll s)

/-- A chain of updates. -/
abbrev Effects : State T → State T → Prop := ReflTransGen Effect

/-- At the end of a step the pool may be taken apart. -/
inductive Closes : State T → State T → Prop where
  | not (s : State T) : Closes s s
  | destroyed (s : State T) (h : s.tp.totalThreads ≤ 0) : Closes s { s with destroyed := true }

/-- Only `ThreadPoolSetAttr` changes the attributes, before anything else. -/
def configured (s : State T) : Action T → State T
  | .call (.setAttr attr) _ => { s with tp := { s.tp with attr := attr } }
  | _ => s

variable {s s' : State T} {k : Cont T} {r : Answers}

theorem Effect.once (h : Effect s s') : Effects s s' := .single h

/-! ## Jobs in and out -/

theorem coe_concat (q : List (ThreadPoolJob T)) (job : ThreadPoolJob T) :
    ((q ++ [job] : List (ThreadPoolJob T)) : Multiset (ThreadPoolJob T)) = q + {job} := by
  rw [← Multiset.coe_add, Multiset.coe_singleton]

theorem coe_cons (job : ThreadPoolJob T) (q : List (ThreadPoolJob T)) :
    ((job :: q : List (ThreadPoolJob T)) : Multiset (ThreadPoolJob T)) = {job} + q := by
  rw [← Multiset.cons_coe, Multiset.singleton_add]

theorem storePersistent_effects (s : State T) (request : JobRequest T) (r : Answers) :
    Effects s (storePersistent s request r).1 := by
  unfold storePersistent
  split
  · refine (Effect.accept s { s.tp with persistentJob := some _ }
      (createThreadPoolJob s request r) s.tp.persistentJob.toList rfl ?_ rfl).once
    simp only [ThreadPool.jobs, Option.toList_some, Multiset.coe_singleton,
      ← Multiset.singleton_add]
    abel
  · exact .refl

theorem enqueue_effects (s : State T) (request : JobRequest T) (r : Answers) :
    Effects s (enqueue s (createThreadPoolJob s request r)) := by
  generalize hjob : createThreadPoolJob s request r = job
  have hserial : job.serial = s.log.accepted.length := by rw [← hjob]; rfl
  have hin : ∀ tp : ThreadPool T, job ::ₘ s.tp.jobs = tp.jobs → tp.control = s.tp.control →
      Effects s { s with tp := tp, log := { s.log with accepted := s.log.accepted ++ [job] } } := by
    intro tp hjobs hcontrol
    have he := Effect.accept s tp job [] hserial (by simpa using hjobs) hcontrol
    simpa using he.once
  unfold enqueue
  cases job.request.priority with
  | high =>
      refine hin _ ?_ rfl
      simp only [ThreadPool.jobs, coe_concat, ← Multiset.singleton_add]
      abel
  | med =>
      refine hin _ ?_ rfl
      simp only [ThreadPool.jobs, coe_concat, ← Multiset.singleton_add]
      abel
  | low =>
      refine hin _ ?_ rfl
      simp only [ThreadPool.jobs, coe_concat, ← Multiset.singleton_add]
      abel

theorem coe_of_listTake {jobId : Nat} {q rest : List (ThreadPoolJob T)} {job : ThreadPoolJob T}
    (h : listTake jobId q = some (job, rest)) :
    (q : Multiset (ThreadPoolJob T)) = {job} + rest := by
  induction q generalizing rest with
  | nil => cases h
  | cons x xs ih =>
      rw [listTake] at h
      split at h
      · cases h
        exact coe_cons ..
      · obtain ⟨⟨y, ys⟩, hy, heq⟩ := Option.map_eq_some_iff.mp h
        cases heq
        rw [coe_cons, ih hy, coe_cons]
        abel

section Takes

variable {tp : ThreadPool T} {job : ThreadPoolJob T} {rest : List (ThreadPoolJob T)}

/-- A job out of one of the queues, wherever it stood. -/
theorem takes_high (h : (tp.highJobQ : Multiset (ThreadPoolJob T)) = {job} + rest)
    (stats : ThreadPoolStats) (hw : stats.workerThreads = tp.stats.workerThreads)
    (hi : stats.idleThreads = tp.stats.idleThreads) :
    Takes tp job { tp with highJobQ := rest, stats := stats } where
  jobs := by
    simp only [ThreadPool.jobs, h, ← Multiset.singleton_add]
    abel
  control := by simp only [ThreadPool.control, hw, hi]

theorem takes_med (h : (tp.medJobQ : Multiset (ThreadPoolJob T)) = {job} + rest)
    (stats : ThreadPoolStats) (hw : stats.workerThreads = tp.stats.workerThreads)
    (hi : stats.idleThreads = tp.stats.idleThreads) :
    Takes tp job { tp with medJobQ := rest, stats := stats } where
  jobs := by
    simp only [ThreadPool.jobs, h, ← Multiset.singleton_add]
    abel
  control := by simp only [ThreadPool.control, hw, hi]

theorem takes_low (h : (tp.lowJobQ : Multiset (ThreadPoolJob T)) = {job} + rest)
    (stats : ThreadPoolStats) (hw : stats.workerThreads = tp.stats.workerThreads)
    (hi : stats.idleThreads = tp.stats.idleThreads) :
    Takes tp job { tp with lowJobQ := rest, stats := stats } where
  jobs := by
    simp only [ThreadPool.jobs, h, ← Multiset.singleton_add]
    abel
  control := by simp only [ThreadPool.control, hw, hi]

theorem takes_persistent (h : tp.persistentJob = some job) :
    Takes tp job { tp with persistentJob := none } where
  jobs := by
    simp only [ThreadPool.jobs, h, Option.toList_some, Option.toList_none,
      Multiset.coe_singleton, Multiset.coe_nil, ← Multiset.singleton_add]
    abel
  control := rfl

end Takes

theorem threadPoolRemove_effects (s : State T) (jobId : Nat) :
    Effects s (threadPoolRemove s jobId).1 := by
  unfold threadPoolRemove
  split
  next hq => exact (Effect.remove s _ _ (takes_high (coe_of_listTake hq) _ rfl rfl)).once
  split
  next hq => exact (Effect.remove s _ _ (takes_med (coe_of_listTake hq) _ rfl rfl)).once
  split
  next hq => exact (Effect.remove s _ _ (takes_low (coe_of_listTake hq) _ rfl rfl)).once
  split
  next hjob =>
    split
    · exact (Effect.remove s _ _ (takes_persistent hjob)).once
    · exact .refl
  · exact .refl

theorem pickJob_effects {i : Nat} (hi : s.workers[i]? = some .awake)
    (hrun : s.tp.shutdown = false) : Effects s (pickJob s i) := by
  unfold pickJob
  split
  next hjob => exact (Effect.take s i _ _ _ hi hrun (takes_persistent hjob)).once
  split
  next job rest hq =>
    have hcoe : (s.tp.highJobQ : Multiset (ThreadPoolJob T)) = {job} + rest := by rw [hq, coe_cons]
    refine (Effect.take s i _ job .regular hi hrun ?_).once
    exact takes_high hcoe _ rfl rfl
  split
  next job rest hq =>
    have hcoe : (s.tp.medJobQ : Multiset (ThreadPoolJob T)) = {job} + rest := by rw [hq, coe_cons]
    refine (Effect.take s i _ job .regular hi hrun ?_).once
    exact takes_med hcoe _ rfl rfl
  split
  next job rest hq =>
    have hcoe : (s.tp.lowJobQ : Multiset (ThreadPoolJob T)) = {job} + rest := by rw [hq, coe_cons]
    refine (Effect.take s i _ job .regular hi hrun ?_).once
    exact takes_low hcoe _ rfl rfl
  · exact (Effect.leave s i hi).once

/-! ## Bumping -/

/-- The jobs in the hands of `BumpPriority`. -/
def Bump.jobs (b : Bump T) : Multiset (ThreadPoolJob T) := b.high + b.med + b.low + b.lost

theorem coe_listAddTail (node : Bool) (q lost : List (ThreadPoolJob T)) (job : ThreadPoolJob T) :
    (listAddTail node q job : Multiset (ThreadPoolJob T)) +
      ((if node then lost else lost ++ [job] : List (ThreadPoolJob T)) :
        Multiset (ThreadPoolJob T)) = {job} + (q + lost) := by
  cases node with
  | true =>
      simp only [listAddTail, if_true, coe_concat]
      abel
  | false =>
      simp only [listAddTail, Bool.false_eq_true, if_false, coe_concat]
      abel

theorem jobs_bumpLow {attr : ThreadPoolAttr} {b b' : Bump T}
    (h : bumpLow attr r b = .again b' ∨ bumpLow attr r b = .leave b') : b'.jobs = b.jobs := by
  unfold bumpLow at h
  split at h
  · rcases h with h | h <;> cases h
    rfl
  next job rest hlow =>
    split at h
    · rcases h with h | h <;> cases h
      have hmove := coe_listAddTail (r.node b.nodes) b.med b.lost job
      have hstay := congrArg (fun m => (b.high : Multiset (ThreadPoolJob T)) + rest + m) hmove
      simp only [Bump.jobs, hlow, coe_cons]
      refine Eq.trans ?_ (hstay.trans ?_) <;> abel
    · rcases h with h | h <;> cases h
      rfl

theorem jobs_bumpBody {attr : ThreadPoolAttr} {b b' : Bump T}
    (h : bumpBody attr r b = .again b' ∨ bumpBody attr r b = .leave b') : b'.jobs = b.jobs := by
  unfold bumpBody at h
  split at h
  · exact jobs_bumpLow h
  next job rest hmed =>
    split at h
    · rcases h with h | h <;> cases h
      have hmove := coe_listAddTail (r.node b.nodes) b.high b.lost job
      have hstay := congrArg (fun m => (rest : Multiset (ThreadPoolJob T)) + b.low + m) hmove
      simp only [Bump.jobs, hmed, coe_cons]
      refine Eq.trans ?_ (hstay.trans ?_) <;> abel
    · exact jobs_bumpLow h

/-- `BumpPriority` keeps the jobs it holds. -/
theorem jobs_bumpLoop (attr : ThreadPoolAttr) (r : Answers) (b : Bump T) :
    (bumpLoop attr r b).jobs = b.jobs := by
  rw [bumpLoop_eq_exec]
  exact Loop.exec_rule (bumpBody_decreases attr r) (fun c => c.jobs = b.jobs)
    (fun c => c.jobs = b.jobs) (fun _ _ hc hb => (jobs_bumpBody (.inl hb)).trans hc)
    (fun _ _ hc hb => (jobs_bumpBody (.inr hb)).trans hc) b rfl

theorem bumpPriority_effects (s : State T) (r : Answers) : Effects s (bumpPriority s r) := by
  have hkept := jobs_bumpLoop s.tp.attr r (Bump.of s.tp)
  refine (Effect.bump s _ _ ?_ ?_).once
  · simp only [Bump.jobs, Bump.of, Multiset.coe_nil, add_zero] at hkept
    simp only [ThreadPool.jobs, ← hkept, Bump.of]
    abel
  · rfl

/-! ## The calls -/

theorem finishAdd_effects (s : State T) (queued : Bool) : Effects s (finishAdd s queued).1 :=
  (Effect.assignId s).once

theorem afterFailure_effects (s : State T) (rc : Nat) (k : Cont T) (r : Answers) :
    Effects s (afterFailure s rc k r).1 := by
  cases k with
  | grow i => exact .refl
  | persistent request => exact storePersistent_effects s request r
  | add queued jobs threads => exact finishAdd_effects s queued

theorem createNow_effects (hpending : s.tp.pendingWorkerThreadStart = false) :
    Effects s (createNow s k r).1 := by
  unfold createNow
  split
  · exact afterFailure_effects s eMaxThreads k r
  next hmax =>
    split
    · refine (Effect.spawn s hpending fun hfin => ?_).once
      exact Int.not_lt.mp fun hlt => hmax ⟨hfin, hlt⟩
    · exact (Effect.note s).once.trans (afterFailure_effects _ eAgain k r)

theorem createWorker_effects : Effects s (createWorker s k r).1 := by
  unfold createWorker
  split
  · exact .refl
  next hpending => exact createNow_effects (by simpa using hpending)

theorem addWorker_effects (queued : Bool) (jobs threads : Int) :
    Effects s (addWorker s queued jobs threads r).1 := by
  unfold addWorker
  split
  · exact createWorker_effects
  · exact finishAdd_effects s queued

theorem growLoop_effects (i : Int) : Effects s (growLoop s i r).1 := by
  unfold growLoop
  split
  · exact createWorker_effects
  · exact .refl

theorem afterSuccess_effects : Effects s (afterSuccess s k r).1 := by
  cases k with
  | grow i => exact growLoop_effects (i + 1)
  | persistent request => exact storePersistent_effects s request r
  | add queued jobs threads => exact addWorker_effects queued jobs (threads + 1)

theorem awaitThreads_closes (ret : Nat) : Closes s (awaitThreads s ret).1 := by
  unfold awaitThreads
  split
  · exact .not s
  next hle => exact .destroyed s (by omega)

theorem threadPoolAdd_effects (request : JobRequest T) :
    Effects s (threadPoolAdd s request r).1 := by
  unfold threadPoolAdd
  split
  · exact .refl
  split
  · split
    · exact (enqueue_effects s request r).trans (addWorker_effects ..)
    · exact addWorker_effects ..
  · exact .refl

theorem threadPoolAddPersistent_effects (request : JobRequest T) :
    Effects s (threadPoolAddPersistent s request r).1 := by
  unfold threadPoolAddPersistent
  split
  · exact createWorker_effects
  split
  · exact .refl
  · exact storePersistent_effects s request r

theorem callStep_effects (c : Call T) :
    ∃ s₁, Effects (configured s (.call c r)) s₁ ∧ Closes s₁ (callStep s c r).1 := by
  cases c with
  | addPersistent request => exact ⟨_, threadPoolAddPersistent_effects request, .not _⟩
  | add request => exact ⟨_, threadPoolAdd_effects request, .not _⟩
  | remove jobId => exact ⟨_, threadPoolRemove_effects s jobId, .not _⟩
  | setAttr attr => exact ⟨_, growLoop_effects _, .not _⟩
  | shutdown => exact ⟨_, (Effect.discard s).once, awaitThreads_closes 0⟩

theorem resumeStep_effects {c : Caller T} {p : State T × Caller T}
    (h : resumeStep s c r = some p) : ∃ s₁, Effects s s₁ ∧ Closes s₁ p.1 := by
  cases c with
  | createWait k =>
      simp only [resumeStep, Option.ite_none_left_eq_some, Option.some.injEq] at h
      obtain ⟨hpending, rfl⟩ := h
      exact ⟨_, createNow_effects (by simpa using hpending), .not _⟩
  | startWait k =>
      simp only [resumeStep, Option.ite_none_left_eq_some, Option.some.injEq] at h
      obtain ⟨-, rfl⟩ := h
      exact ⟨_, (Effect.note s).once.trans afterSuccess_effects, .not _⟩
  | pickWait job =>
      simp only [resumeStep, Option.ite_none_left_eq_some, Option.some.injEq] at h
      obtain ⟨-, rfl⟩ := h
      exact ⟨_, (Effect.assignId s).once, .not _⟩
  | shutting ret =>
      cases h
      exact ⟨_, (Effect.discard s).once, awaitThreads_closes ret⟩
  | quitWait ret =>
      simp only [resumeStep, Option.ite_none_left_eq_some, Option.some.injEq] at h
      obtain ⟨-, rfl⟩ := h
      exact ⟨s, .refl, awaitThreads_closes ret⟩
  | returned ret jobId => cases h

/-! ## The workers -/

theorem getElem?_set_self_of {ws : List (Worker T)} {i : Nat} {w w' : Worker T}
    (h : ws[i]? = some w) : (ws.set i w')[i]? = some w' := by
  have hlt : i < ws.length := (List.getElem?_eq_some_iff.mp h).1
  rw [List.getElem?_set_self hlt]

theorem check_effects {i : Nat} {timedOut : Bool} (hi : s.workers[i]? = some .waiting) :
    Effects s (check s i timedOut r) := by
  have hrise : Effects s (rise s i) := (Effect.rise s i hi).once
  have hawake : (rise s i).workers[i]? = some .awake := getElem?_set_self_of hi
  unfold check
  split
  · split
    · exact hrise.tail (.leave _ i hawake)
    · exact .refl
  · have hbump := hrise.trans (bumpPriority_effects (rise s i) r)
    have hawake' : (bumpPriority (rise s i) r).workers[i]? = some .awake := hawake
    dsimp only
    split
    · exact hbump.tail (.leave _ i hawake')
    next hrun => exact hbump.trans (pickJob_effects hawake' (by simpa using hrun))

theorem workerStep_effects {i : Nat} {timedOut : Bool} (h : workerStep s i timedOut r = some s') :
    Effects s s' := by
  unfold workerStep at h
  split at h
  next hi =>
    cases h
    exact (Effect.start s i hi).once
  next job kind hi =>
    cases h
    have hwait : (settle s i job kind).workers[i]? = some .waiting := getElem?_set_self_of hi
    exact (Effect.settle s i job kind hi).once.trans (check_effects hwait)
  next hi =>
    cases h
    exact check_effects hi
  next job kind hi =>
    cases h
    exact (Effect.finish s i job kind hi).once
  · cases h

/-! ## Steps -/

theorem Closes.callers (h : Closes s s') (cs : List (Caller T)) :
    Closes { s with callers := cs } { s' with callers := cs } := by
  cases h with
  | not => exact .not _
  | destroyed hle => exact .destroyed { s with callers := cs } hle

theorem alive_of_step {a : Action T} (h : step s a = some s') : s.destroyed = false := by
  unfold step at h
  split at h
  · cases h
  next halive => simpa using halive

theorem step_effects {a : Action T} (h : step s a = some s') :
    ∃ s₁, Effects (configured s a) s₁ ∧ Closes s₁ s' := by
  unfold step at h
  rw [if_neg (by simp [alive_of_step h])] at h
  cases a with
  | call c r =>
      cases h
      obtain ⟨s₁, he, hc⟩ := callStep_effects (s := s) (r := r) c
      exact ⟨_, he.tail (.callers _ _), hc.callers _⟩
  | resume i r =>
      dsimp only at h
      split at h
      · cases h
      next c hc =>
        obtain ⟨p, hp, rfl⟩ := Option.map_eq_some_iff.mp h
        obtain ⟨s₁, he, hcl⟩ := resumeStep_effects hp
        exact ⟨_, he.tail (.callers _ _), hcl.callers _⟩
  | worker i timedOut r => exact ⟨s', workerStep_effects h, .not s'⟩

theorem init_effects (attr : ThreadPoolAttr) (r : Answers) :
    Effects (emptyPool attr) (threadPoolInit (T := T) attr r) :=
  (growLoop_effects 0).tail (.callers _ _)

/-! ## Invariants -/

theorem Effects.inv {Inv : State T → Prop} (heffect : ∀ s s', Inv s → Effect s s' → Inv s')
    (hs : Inv s) (h : Effects s s') : Inv s' := by
  induction h with
  | refl => exact hs
  | tail _ he ih => exact heffect _ _ ih he

/-- What no update of a step breaks is kept by the step. -/
theorem step_keeps (Inv : State T → Prop) {a : Action T}
    (heffect : ∀ s s', Inv s → Effect s s' → Inv s')
    (hclose : ∀ s, Inv s → Inv { s with destroyed := true })
    (hs : Inv (configured s a)) (h : step s a = some s') : Inv s' := by
  obtain ⟨s₁, he, hc⟩ := step_effects h
  have h₁ : Inv s₁ := he.inv heffect hs
  cases hc with
  | not => exact h₁
  | destroyed hle => exact hclose s₁ h₁

/-- What no update breaks, and no new attributes in an action that meets `P`, holds in
every state of the runs along which `P` does. -/
theorem run_effects_keep {P : State T → Action T → Prop} (Inv : State T → Prop)
    (attr : ThreadPoolAttr) (r : Answers) (hempty : Inv (emptyPool attr))
    (hattr : ∀ s a, Inv s → P s a → Inv (configured s a))
    (heffect : ∀ s s', Inv s → Effect s s' → Inv s')
    (hclose : ∀ s, Inv s → Inv { s with destroyed := true })
    {as : List (Action T)} (ha : System.Along step P (threadPoolInit attr r) as)
    (h : System.run step (threadPoolInit attr r) as = some s) : Inv s := by
  refine System.run_keeps (fun _ s => Inv s) (fun _ s a s' hs hp hstep => ?_) ?_ ha h
  · exact step_keeps Inv heffect hclose (hattr s a hs hp) hstep
  · exact (init_effects attr r).inv heffect hempty

/-- What no update and no new attributes break holds in every state of every run. -/
theorem run_effects_inv (Inv : State T → Prop) (attr : ThreadPoolAttr) (r : Answers)
    (hempty : Inv (emptyPool attr)) (hattr : ∀ s a, Inv s → Inv (configured s a))
    (heffect : ∀ s s', Inv s → Effect s s' → Inv s')
    (hclose : ∀ s, Inv s → Inv { s with destroyed := true })
    {as : List (Action T)} (h : System.run step (threadPoolInit attr r) as = some s) : Inv s :=
  run_effects_keep Inv attr r hempty (fun s a hs _ => hattr s a hs) heffect hclose
    (System.along_true as) h

end VmpSa.Pool
