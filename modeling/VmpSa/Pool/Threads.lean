import VmpSa.Lib.Tally
import VmpSa.Pool.Effects

/-!
# The threads of the pool

The pool steers by its counters: `totalThreads` decides whether a worker may be
created or may die, `persistentThreads` whether a persistent job is taken at all,
`busyThreads` whether `ThreadPoolAdd` wants another worker.  They are changed in
nine places of three functions, in the middle of the loop of a worker.

`counters_exact` says that in every state between two critical sections each of
them is the number of workers it is named after.  `threads_bounded` is the promise of the
header, "ThreadPool will never have more than this number of threads", for pools
whose attributes stay.
-/

namespace VmpSa.Pool

open Tally

variable {T : Type}

/-! ## What a worker counts for -/

namespace Worker

/-- Counted in `totalThreads`. -/
@[simp] def live : Worker T → Int
  | .starting => 0
  | .exited => 0
  | _ => 1

/-- Created, and not counted yet. -/
@[simp] def pending : Worker T → Int
  | .starting => 1
  | _ => 0

/-- Counted in `busyThreads`: it has a job, or has not accounted for its last one. -/
@[simp] def busy : Worker T → Int
  | .running _ _ => 1
  | .atLoop job _ => if job.isSome then 1 else 0
  | _ => 0

/-- Counted in `persistentThreads`. -/
@[simp] def persistent : Worker T → Int
  | .running _ kind => if kind = .persistent then 1 else 0
  | .atLoop _ kind => if kind = .persistent then 1 else 0
  | _ => 0

/-- Counted in `stats.workerThreads`. -/
@[simp] def regular : Worker T → Int
  | .running _ kind => if kind = .regular then 1 else 0
  | .atLoop _ kind => if kind = .regular then 1 else 0
  | _ => 0

/-- The thread exists. -/
@[simp] def present : Worker T → Int
  | .exited => 0
  | _ => 1

/-- Counted in `stats.idleThreads`. -/
@[simp] def idle : Worker T → Int
  | .waiting => 1
  | _ => 0

end Worker

/-- Every counter is the number of workers it stands for. -/
structure Counted (s : State T) : Prop where
  total : s.tp.totalThreads = total Worker.live s.workers
  pending : (if s.tp.pendingWorkerThreadStart then 1 else 0) = Tally.total Worker.pending s.workers
  busy : s.tp.busyThreads = Tally.total Worker.busy s.workers
  persistent : s.tp.persistentThreads = Tally.total Worker.persistent s.workers
  regular : s.tp.stats.workerThreads = Tally.total Worker.regular s.workers
  idle : s.tp.stats.idleThreads = Tally.total Worker.idle s.workers

/-! ## Steps -/

section Control

variable {tp tp' : ThreadPool T}

theorem attr_of_control (h : tp'.control = tp.control) : tp'.attr = tp.attr :=
  congrArg Control.attr h

theorem totalThreads_of_control (h : tp'.control = tp.control) :
    tp'.totalThreads = tp.totalThreads :=
  congrArg Control.totalThreads h

theorem pending_of_control (h : tp'.control = tp.control) :
    tp'.pendingWorkerThreadStart = tp.pendingWorkerThreadStart :=
  congrArg Control.pendingWorkerThreadStart h

end Control

/-- An update that leaves the workers and the counters alone. -/
theorem Counted.congr {s s' : State T} (h : Counted s) (hw : s'.workers = s.workers)
    (hc : s'.tp.control = s.tp.control) : Counted s' where
  total := by rw [hw, ← h.total, totalThreads_of_control hc]
  pending := by rw [hw, ← h.pending, pending_of_control hc]
  busy := by rw [hw, ← h.busy]; exact congrArg Control.busyThreads hc
  persistent := by rw [hw, ← h.persistent]; exact congrArg Control.persistentThreads hc
  regular := by rw [hw, ← h.regular]; exact congrArg Control.workerThreads hc
  idle := by rw [hw, ← h.idle]; exact congrArg Control.idleThreads hc

/-- One worker moves, and every counter moves by what the worker counts more. -/
theorem Counted.set {s s' : State T} {i : Nat} {w w' : Worker T} (h : Counted s)
    (hi : s.workers[i]? = some w) (hw : s'.workers = s.workers.set i w')
    (ht : s'.tp.totalThreads + w.live = s.tp.totalThreads + w'.live)
    (hp : (if s'.tp.pendingWorkerThreadStart then (1 : Int) else 0) + w.pending =
      (if s.tp.pendingWorkerThreadStart then 1 else 0) + w'.pending)
    (hb : s'.tp.busyThreads + w.busy = s.tp.busyThreads + w'.busy)
    (hl : s'.tp.persistentThreads + w.persistent = s.tp.persistentThreads + w'.persistent)
    (hr : s'.tp.stats.workerThreads + w.regular = s.tp.stats.workerThreads + w'.regular)
    (hd : s'.tp.stats.idleThreads + w.idle = s.tp.stats.idleThreads + w'.idle) :
    Counted s' := by
  have hmove : ∀ (f : Worker T → Int) {c c' : Int}, c = Tally.total f s.workers →
      c' + f w = c + f w' → c' = Tally.total f s'.workers := by
    intro f c c' hc hc'
    have hs := total_set f (r := w') hi
    rw [hw]
    omega
  exact {
    total := hmove Worker.live h.total ht
    pending := hmove Worker.pending h.pending hp
    busy := hmove Worker.busy h.busy hb
    persistent := hmove Worker.persistent h.persistent hl
    regular := hmove Worker.regular h.regular hr
    idle := hmove Worker.idle h.idle hd }

/-- A worker that is still to count itself is the pending one. -/
theorem Counted.pending_of_starting {s : State T} {i : Nat} (h : Counted s)
    (hi : s.workers[i]? = some .starting) : s.tp.pendingWorkerThreadStart = true := by
  by_contra hne
  have hpos := h.pending
  rw [if_neg hne] at hpos
  have hzero := eq_zero_of_total_le Worker.pending (fun w => by cases w <;> simp)
    (Int.le_of_eq hpos.symm) _ (List.mem_of_getElem? hi)
  simp at hzero

theorem Counted.takeJob {s : State T} {i : Nat} (h : Counted s)
    (hi : s.workers[i]? = some .awake) (job : ThreadPoolJob T) (kind : Kind) :
    Counted (takeJob s i job kind) := by
  refine h.set hi rfl ?_ ?_ ?_ ?_ ?_ ?_
  all_goals cases kind <;> simp [Pool.takeJob]

theorem Counted.exitFunction {s : State T} {i : Nat} (h : Counted s)
    (hi : s.workers[i]? = some .awake) : Counted (exitFunction s i) := by
  refine h.set hi rfl ?_ rfl ?_ ?_ ?_ ?_
  all_goals simp [Pool.exitFunction]

theorem counted_effect {s s' : State T} (h : Counted s) (he : Effect s s') : Counted s' := by
  cases he with
  | callers cs => exact h.congr rfl rfl
  | spawn hpending hmax =>
      have hzero : 0 = total Worker.pending s.workers := by
        have hp := h.pending
        rwa [if_neg (by simp [hpending])] at hp
      obtain ⟨ht, -, hb, hl, hr, hi⟩ := h
      constructor
      all_goals simp [*]
  | note => exact h.congr rfl rfl
  | start i hi =>
      have hp := h.pending_of_starting hi
      refine h.set hi rfl ?_ ?_ ?_ ?_ ?_ ?_
      all_goals simp [workerStart, hp]
  | settle i job kind hi =>
      refine h.set hi rfl ?_ ?_ ?_ ?_ ?_ ?_
      all_goals cases job <;> cases kind <;> simp [Pool.settle]
  | rise i hi =>
      refine h.set hi rfl ?_ rfl ?_ ?_ ?_ ?_
      all_goals simp [Pool.rise]
  | bump tp lost hjobs hcontrol => exact h.congr rfl hcontrol
  | take i tp job kind hi hrun htakes =>
      have hs : Counted { s with tp := tp } := h.congr rfl htakes.control
      exact hs.takeJob hi job kind
  | leave i hi => exact h.exitFunction hi
  | finish i job kind hi =>
      refine h.set hi rfl ?_ ?_ ?_ ?_ ?_ ?_
      all_goals simp
  | assignId => exact ⟨h.total, h.pending, h.busy, h.persistent, h.regular, h.idle⟩
  | accept tp job overwritten hserial hjobs hcontrol => exact h.congr rfl hcontrol
  | remove tp job htakes => exact h.congr rfl htakes.control
  | discard => exact ⟨h.total, h.pending, h.busy, h.persistent, h.regular, h.idle⟩

theorem counted_configured {s : State T} (a : Action T) (h : Counted s) :
    Counted (configured s a) := by
  unfold configured
  split
  · exact ⟨h.total, h.pending, h.busy, h.persistent, h.regular, h.idle⟩
  · exact h

theorem counted_empty (attr : ThreadPoolAttr) : Counted (emptyPool (T := T) attr) := by
  constructor <;> rfl

/-! ## Runs -/

theorem counted_of_run {attr : ThreadPoolAttr} {r : Answers} {as : List (Action T)} {s : State T}
    (h : System.run step (threadPoolInit attr r) as = some s) : Counted s :=
  run_effects_inv Counted attr r (counted_empty attr) (fun _ a => counted_configured a)
    (fun _ _ => counted_effect) (fun _ hs => hs.congr rfl rfl) h

/-- In every order of the critical sections, each counter of the pool is the number of
workers it stands for, and at most one worker is created and not yet counted.  So the
threads that wait and those that have a job are never more than there are. -/
theorem counters_exact (attr : ThreadPoolAttr) (r : Answers) (as : List (Action T)) (s : State T)
    (h : System.run step (threadPoolInit attr r) as = some s) :
    Counted s ∧ s.tp.busyThreads + s.tp.stats.idleThreads ≤ s.tp.totalThreads ∧
      s.tp.persistentThreads ≤ s.tp.totalThreads := by
  have hc := counted_of_run h
  refine ⟨hc, ?_, ?_⟩
  · rw [hc.busy, hc.idle, hc.total, ← total_add]
    refine total_le_total _ _ (fun w => ?_) s.workers
    cases w with
    | atLoop job kind => cases job <;> simp
    | _ => simp
  · rw [hc.persistent, hc.total]
    refine total_le_total _ _ (fun w => ?_) s.workers
    cases w with
    | atLoop job kind => cases kind <;> simp
    | running job kind => cases kind <;> simp
    | _ => simp

theorem counters_exact_persistentRun :
    ∃ s, System.run step (threadPoolInit tpAttr (granted 0)) (persistentRun 7) = some s ∧
      Counted s ∧ s.tp.totalThreads = 1 ∧ s.tp.persistentThreads = 1 :=
  ⟨_, rfl, (counters_exact tpAttr (granted 0) (persistentRun 7) _ rfl).1, rfl, rfl⟩

/-! ## The bound -/

/-- The threads that exist are those counted and the one that is starting. -/
theorem total_present (ws : List (Worker T)) :
    total Worker.present ws = total Worker.live ws + total Worker.pending ws := by
  rw [← total_add]
  congr 1
  funext w
  cases w <;> simp

/-- The action is no `ThreadPoolSetAttr`. -/
def Action.keepsAttr : Action T → Bool
  | .call (.setAttr _) _ => false
  | _ => true

/-- No more threads than `maxThreads`, for fixed attributes. -/
structure Bounded (attr : ThreadPoolAttr) (s : State T) : Prop where
  counted : Counted s
  attr_eq : s.tp.attr = attr
  le : s.tp.totalThreads + (if s.tp.pendingWorkerThreadStart then 1 else 0) ≤ attr.maxThreads

/-- An update that neither creates nor counts a thread. -/
theorem Bounded.of_le {attr : ThreadPoolAttr} {s s' : State T} (h : Bounded attr s)
    (hc : Counted s') (ha : s'.tp.attr = s.tp.attr)
    (ht : s'.tp.totalThreads ≤ s.tp.totalThreads)
    (hp : s'.tp.pendingWorkerThreadStart = s.tp.pendingWorkerThreadStart) : Bounded attr s' where
  counted := hc
  attr_eq := ha.trans h.attr_eq
  le := by
    have hle := h.le
    rw [hp]
    omega

theorem bounded_effect {attr : ThreadPoolAttr} (hfin : attr.maxThreads ≠ infiniteThreads)
    {s s' : State T} (h : Bounded attr s) (he : Effect s s') : Bounded attr s' := by
  have hc := counted_effect h.counted he
  cases he with
  | spawn hpending hmax =>
      refine ⟨hc, h.attr_eq, ?_⟩
      rw [h.attr_eq] at hmax
      simpa using hmax hfin
  | start i hi =>
      -- the thread that counts itself is the pending one
      have hle := h.le
      rw [h.counted.pending_of_starting hi] at hle
      refine ⟨hc, h.attr_eq, ?_⟩
      simpa [workerStart] using hle
  | leave i hi => exact h.of_le hc rfl (Int.sub_le_self _ (by decide)) rfl
  | take i tp job kind hi hrun htakes =>
      have ha : tp.attr = s.tp.attr := attr_of_control htakes.control
      have ht : tp.totalThreads = s.tp.totalThreads := totalThreads_of_control htakes.control
      exact h.of_le hc ha (Int.le_of_eq ht) (pending_of_control htakes.control :)
  | accept tp job overwritten hserial hjobs hcontrol =>
      exact h.of_le hc (attr_of_control hcontrol)
        (Int.le_of_eq (totalThreads_of_control hcontrol)) (pending_of_control hcontrol)
  | bump tp lost hjobs hcontrol =>
      exact h.of_le hc (attr_of_control hcontrol)
        (Int.le_of_eq (totalThreads_of_control hcontrol)) (pending_of_control hcontrol)
  | remove tp job htakes =>
      exact h.of_le hc (attr_of_control htakes.control)
        (Int.le_of_eq (totalThreads_of_control htakes.control))
        (pending_of_control htakes.control)
  | callers cs => exact h.of_le hc rfl (Int.le_refl _) rfl
  | note => exact h.of_le hc rfl (Int.le_refl _) rfl
  | settle i job kind hi => exact h.of_le hc rfl (Int.le_refl _) rfl
  | rise i hi => exact h.of_le hc rfl (Int.le_refl _) rfl
  | finish i job kind hi => exact h.of_le hc rfl (Int.le_refl _) rfl
  | assignId => exact h.of_le hc rfl (Int.le_refl _) rfl
  | discard => exact h.of_le hc rfl (Int.le_refl _) rfl

/-- With fixed attributes the pool never has more than `maxThreads` threads, the one
that is still starting included. -/
theorem threads_bounded (attr : ThreadPoolAttr) (hmax : 0 ≤ attr.maxThreads) (r : Answers)
    (as : List (Action T)) (hattr : ∀ a ∈ as, a.keepsAttr = true) (s : State T)
    (h : System.run step (threadPoolInit attr r) as = some s) :
    Tally.total Worker.present s.workers ≤ attr.maxThreads := by
  have hfin : attr.maxThreads ≠ infiniteThreads := by
    intro he
    rw [he] at hmax
    exact absurd hmax (by decide)
  have hb : Bounded attr s := by
    refine run_effects_keep (Bounded attr) attr r ⟨counted_empty attr, rfl, hmax⟩ ?_
      (fun _ _ => bounded_effect hfin) (fun _ hs => ⟨hs.counted.congr rfl rfl, hs.attr_eq, hs.le⟩)
      (System.along_of_forall hattr) h
    intro s a hs ha
    unfold configured
    split
    next attr' r' => cases ha
    · exact hs
  have hle := hb.le
  rw [hb.counted.total, hb.counted.pending] at hle
  rw [total_present]
  exact hle

theorem threads_bounded_persistentRun :
    ∃ s, System.run step (threadPoolInit tpAttr (granted 0)) (persistentRun 7) = some s ∧
      Tally.total Worker.present s.workers ≤ 6000 := by
  refine ⟨_, rfl, ?_⟩
  exact threads_bounded tpAttr (by decide) (granted 0) (persistentRun 7) (by decide) _ rfl

end VmpSa.Pool
