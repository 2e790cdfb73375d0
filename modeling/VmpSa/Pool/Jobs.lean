import VmpSa.Pool.Threads

/-!
# The jobs of the pool

A job that the pool accepts is copied, moves between queues while it waits, is
picked up by a worker in the middle of its loop, or is taken back by a call.
`jobs_accounted` follows every job through every interleaving: at any time it is
in exactly one place.  Two of the places are losses.  A job without a list node
while it is bumped is gone, and so is a persistent job that another
`ThreadPoolAddPersistent` overwrites before a worker has picked it up.

`Orderly` is what excludes both: list nodes are to be had, and no two calls of
`ThreadPoolAddPersistent` overlap.  `orderly_jobs_kept` says that then no job is
lost, and that a call of `ThreadPoolAddPersistent` whose wait is over has had its
job started, or taken back by someone.

`ThreadPoolShutdown` frees what waits and lets run what runs.  `shutdown_final` says that
nothing is started from then on, and that nothing runs when it returns.
-/

namespace VmpSa.Pool

open Tally

variable {T : Type}

/-! ## Conservation -/

/-- The job a worker is running. -/
@[simp] def Worker.held : Worker T → Multiset (ThreadPoolJob T)
  | .running job _ => {job}
  | _ => 0

/-- Every accepted job is in exactly one place. -/
structure Accounted (s : State T) : Prop where
  jobs : (s.log.accepted : Multiset (ThreadPoolJob T)) =
    s.tp.jobs + total Worker.held s.workers + s.log.finished + s.log.removed + s.log.discarded +
      s.log.overwritten + s.log.lost
  started : (s.log.started : Multiset (ThreadPoolJob T)) =
    total Worker.held s.workers + s.log.finished
  serials : s.log.accepted.map ThreadPoolJob.serial = List.range s.log.accepted.length

/-- No two accepted jobs are one. -/
theorem Accounted.nodup {s : State T} (h : Accounted s) : s.log.accepted.Nodup := by
  refine List.Nodup.of_map ThreadPoolJob.serial ?_
  rw [h.serials]
  exact List.nodup_range

/-- An update that only moves workers without a job. -/
theorem Accounted.congr {s s' : State T} (h : Accounted s) (hj : s'.tp.jobs = s.tp.jobs)
    (hw : total Worker.held s'.workers = total Worker.held s.workers) (hl : s'.log = s.log) :
    Accounted s' where
  jobs := by rw [hl, hj, hw, h.jobs]
  started := by rw [hl, hw, h.started]
  serials := by rw [hl, h.serials]

theorem accounted_effect {s s' : State T} (h : Accounted s) (he : Effect s s') :
    Accounted s' := by
  obtain ⟨hjobs, hstarted, hserials⟩ := h
  cases he with
  | callers cs => exact ⟨hjobs, hstarted, hserials⟩
  | spawn hpending hmax => exact Accounted.congr ⟨hjobs, hstarted, hserials⟩ rfl (by simp) rfl
  | note => exact ⟨hjobs, hstarted, hserials⟩
  | start i hi =>
      exact Accounted.congr ⟨hjobs, hstarted, hserials⟩ rfl (total_set_same _ hi rfl) rfl
  | settle i job kind hi =>
      exact Accounted.congr ⟨hjobs, hstarted, hserials⟩ rfl (total_set_same _ hi rfl) rfl
  | rise i hi =>
      exact Accounted.congr ⟨hjobs, hstarted, hserials⟩ rfl (total_set_same _ hi rfl) rfl
  | leave i hi =>
      exact Accounted.congr ⟨hjobs, hstarted, hserials⟩ rfl (total_set_same _ hi rfl) rfl
  | bump tp lost hkept hcontrol =>
      refine ⟨?_, hstarted, hserials⟩
      rw [hjobs, hkept]
      simp only [← Multiset.coe_add]
      abel
  | take i tp job kind hi hrun htakes =>
      have hheld := total_set Worker.held (r := .running job kind) hi
      simp only [Worker.held, add_zero] at hheld
      refine ⟨?_, ?_, hserials⟩
      · show (s.log.accepted : Multiset (ThreadPoolJob T)) = tp.jobs +
          total Worker.held (s.workers.set i (.running job kind)) + _ + _ + _ + _ + _
        rw [hheld, hjobs, htakes.jobs, ← Multiset.singleton_add]
        abel
      · simp only [takeJob]
        rw [hheld, coe_concat, hstarted]
        abel
  | finish i job kind hi =>
      have hheld := total_set Worker.held (r := .atLoop (some job) kind) hi
      simp only [Worker.held, add_zero] at hheld
      refine ⟨?_, ?_, hserials⟩
      · rw [hjobs, ← hheld, coe_concat]
        abel
      · rw [hstarted, ← hheld, coe_concat]
        abel
  | assignId => exact ⟨hjobs, hstarted, hserials⟩
  | accept tp job overwritten hserial hkept hcontrol =>
      refine ⟨?_, hstarted, ?_⟩
      · have hall := congrArg (fun m => m + (total Worker.held s.workers + s.log.finished +
          s.log.removed + s.log.discarded + s.log.overwritten + s.log.lost)) hkept
        simp only [← Multiset.coe_add, hjobs, ← Multiset.singleton_add] at hall ⊢
        refine Eq.trans ?_ (hall.trans ?_) <;> abel
      · simp [hserials, hserial, List.range_succ]
  | remove tp job htakes =>
      refine ⟨?_, hstarted, hserials⟩
      rw [hjobs, htakes.jobs, coe_concat, ← Multiset.singleton_add]
      abel
  | discard =>
      refine ⟨?_, hstarted, hserials⟩
      refine Eq.trans hjobs ?_
      simp only [discardAll, ThreadPool.jobs, ThreadPool.queued, ← Multiset.coe_add,
        Option.toList_none, Multiset.coe_nil]
      abel

theorem accounted_configured {s : State T} (a : Action T) (h : Accounted s) :
    Accounted (configured s a) := by
  unfold configured
  split
  · exact ⟨h.jobs, h.started, h.serials⟩
  · exact h

theorem accounted_empty (attr : ThreadPoolAttr) : Accounted (emptyPool (T := T) attr) := by
  constructor <;> rfl

theorem accounted_of_run {attr : ThreadPoolAttr} {r : Answers} {as : List (Action T)}
    {s : State T} (h : System.run step (threadPoolInit attr r) as = some s) : Accounted s :=
  run_effects_inv Accounted attr r (accounted_empty attr) (fun _ a => accounted_configured a)
    (fun _ _ => accounted_effect) (fun _ hs => ⟨hs.jobs, hs.started, hs.serials⟩) h

/-- In every order of the critical sections, every job that was accepted is in exactly
one place: in a queue or in `persistentJob`, run by a worker, finished, taken back,
freed by the shutdown, overwritten or lost for want of a list node.  The jobs that were started
are those that run and those that have finished, each once. -/
theorem jobs_accounted (attr : ThreadPoolAttr) (r : Answers) (as : List (Action T)) (s : State T)
    (h : System.run step (threadPoolInit attr r) as = some s) :
    s.log.accepted.Nodup ∧ s.log.started.Nodup ∧ Accounted s := by
  have ha := accounted_of_run h
  refine ⟨ha.nodup, ?_, ha⟩
  have hle : (s.log.started : Multiset (ThreadPoolJob T)) ≤ s.log.accepted := by
    rw [ha.jobs, ha.started]
    refine Multiset.le_iff_exists_add.mpr ⟨s.tp.jobs + s.log.removed + s.log.discarded +
      s.log.overwritten + s.log.lost, ?_⟩
    abel
  exact Multiset.coe_nodup.mp (Multiset.nodup_of_le hle (Multiset.coe_nodup.mpr ha.nodup))

theorem jobs_accounted_persistentRun :
    ∃ s, System.run step (threadPoolInit tpAttr (granted 0)) (persistentRun 7) = some s ∧
      s.log.accepted.Nodup ∧ s.log.started.Nodup ∧ Accounted s ∧ s.log.started.length = 1 := by
  obtain ⟨h₁, h₂, h₃⟩ := jobs_accounted tpAttr (granted 0) (persistentRun 7) _ rfl
  exact ⟨_, rfl, h₁, h₂, h₃, rfl⟩

/-! ## Shutdown -/

/-- Nothing is started any more. -/
structure Stopped (started : List (ThreadPoolJob T)) (s : State T) : Prop where
  shutdown : s.tp.shutdown = true
  started_eq : s.log.started = started

theorem stopped_effect {started : List (ThreadPoolJob T)} {s s' : State T}
    (h : Stopped started s) (he : Effect s s') : Stopped started s' := by
  obtain ⟨hstop, heq⟩ := h
  cases he with
  | take i tp job kind hi hrun htakes =>
      rw [hstop] at hrun
      cases hrun
  | bump tp lost hjobs hcontrol =>
      exact ⟨(congrArg Control.shutdown hcontrol).trans hstop, heq⟩
  | accept tp job overwritten hserial hjobs hcontrol =>
      exact ⟨(congrArg Control.shutdown hcontrol).trans hstop, heq⟩
  | remove tp job htakes =>
      exact ⟨(congrArg Control.shutdown htakes.control).trans hstop, heq⟩
  | discard => exact ⟨rfl, heq⟩
  | callers cs => exact ⟨hstop, heq⟩
  | spawn hpending hmax => exact ⟨hstop, heq⟩
  | note => exact ⟨hstop, heq⟩
  | start i hi => exact ⟨hstop, heq⟩
  | settle i job kind hi => exact ⟨hstop, heq⟩
  | rise i hi => exact ⟨hstop, heq⟩
  | leave i hi => exact ⟨hstop, heq⟩
  | finish i job kind hi => exact ⟨hstop, heq⟩
  | assignId => exact ⟨hstop, heq⟩

theorem stopped_step {started : List (ThreadPoolJob T)} {s s' : State T} {a : Action T}
    (h : Stopped started s) (hstep : step s a = some s') : Stopped started s' := by
  refine step_keeps (Stopped started) (fun _ _ => stopped_effect)
    (fun _ hs => ⟨hs.1, hs.2⟩) ?_ hstep
  unfold configured
  split
  · exact ⟨h.1, h.2⟩
  · exact h

theorem Effect.destroyed_eq {s s' : State T} (h : Effect s s') : s'.destroyed = s.destroyed := by
  cases h <;> rfl

/-- The pool is only taken apart when no thread is counted. -/
theorem no_thread_of_destroyed {attr : ThreadPoolAttr} {r : Answers} {as : List (Action T)}
    {s : State T} (h : System.run step (threadPoolInit attr r) as = some s)
    (hd : s.destroyed = true) : s.tp.totalThreads ≤ 0 := by
  have hinv : ∀ s : State T, s.destroyed = false → s.destroyed = true → s.tp.totalThreads ≤ 0 := by
    intro s hf ht
    rw [hf] at ht
    cases ht
  have halive : ∀ {s s' : State T}, s.destroyed = false → Effects s s' → s'.destroyed = false :=
    fun hs he => he.inv (fun _ _ h' he' => he'.destroyed_eq.trans h') hs
  refine System.run_inv (fun s : State T => s.destroyed = true → s.tp.totalThreads ≤ 0)
    (fun s a s' _ hstep => ?_) (hinv _ (halive rfl (init_effects attr r))) h hd
  obtain ⟨s₁, he, hc⟩ := step_effects hstep
  have hs : (configured s a).destroyed = false := by
    have hs := alive_of_step hstep
    unfold configured
    split
    · exact hs
    · exact hs
  cases hc with
  | not => exact hinv s' (halive hs he)
  | destroyed hle => exact fun _ => hle

/-- From the moment `ThreadPoolShutdown` has set its flag, no job is started in any
continuation.  When it returns, no routine is running: every job that was ever started has
finished, and every thread has exited or has not begun. -/
theorem shutdown_final (attr : ThreadPoolAttr) (r : Answers) (as bs : List (Action T))
    (s s' : State T) (h : System.run step (threadPoolInit attr r) as = some s)
    (hstop : s.tp.shutdown = true) (h' : System.run step s bs = some s') :
    s'.log.started = s.log.started ∧
      (s'.destroyed = true →
        (s'.log.started : Multiset (ThreadPoolJob T)) = s'.log.finished ∧
          ∀ w ∈ s'.workers, w = .exited ∨ w = .starting) := by
  have hstopped : Stopped s.log.started s' :=
    System.run_inv (Stopped s.log.started) (fun _ _ _ => stopped_step) ⟨hstop, rfl⟩ h'
  have hrun : System.run step (threadPoolInit attr r) (as ++ bs) = some s' :=
    (System.run_append h).trans h'
  refine ⟨hstopped.started_eq, fun hd => ?_⟩
  have hle := no_thread_of_destroyed hrun hd
  rw [(counted_of_run hrun).total] at hle
  have hgone : ∀ w ∈ s'.workers, w = .exited ∨ w = .starting := by
    intro w hw
    have hzero := eq_zero_of_total_le Worker.live (fun w => by cases w <;> simp) hle w hw
    cases w with
    | exited => exact .inl rfl
    | starting => exact .inr rfl
    | atLoop job kind => cases hzero
    | waiting => cases hzero
    | awake => cases hzero
    | running job kind => cases hzero
  refine ⟨?_, hgone⟩
  have hheld : total Worker.held s'.workers = 0 := by
    refine total_eq_zero _ fun w hw => ?_
    rcases hgone w hw with rfl | rfl <;> rfl
  rw [(accounted_of_run hrun).started, hheld, zero_add]

/-- The job of `persistentRun` returns after the shutdown has begun, and its worker
exits. -/
def shutdownRun : List (Action Nat) :=
  [.worker 0 false (granted 7), .worker 0 false (granted 8), .resume 2 (granted 9)]

theorem shutdown_final_persistentRun :
    ∃ s s', System.run step (threadPoolInit tpAttr (granted 0))
        (persistentRun 7 ++ [.call .shutdown (granted 6)]) = some s ∧
      System.run step s shutdownRun = some s' ∧ s'.destroyed = true ∧
      s'.log.started = s.log.started ∧
      (s'.log.started : Multiset (ThreadPoolJob Nat)) = s'.log.finished := by
  refine ⟨_, _, rfl, rfl, rfl, ?_⟩
  obtain ⟨h₁, h₂⟩ := shutdown_final tpAttr (granted 0)
    (persistentRun 7 ++ [.call .shutdown (granted 6)]) shutdownRun _ _ rfl rfl rfl
  exact ⟨h₁, (h₂ rfl).1⟩

end VmpSa.Pool
