import VmpSa.Lib.Loop
import VmpSa.Lib.System

/-!
# The thread pool

`common/threadpool/ThreadPool.c`: every thread of the server is a worker of one
pool, and `ThreadPoolAddPersistent` is how a node gets its thread.  All of the
pool is under `tp->mutex`, so a step is what a thread does from the moment it
has the mutex to the moment it gives it up: by unlocking it, or in a wait on one
of the two condition variables.  POSIX lets a wait end at any time, so the end of
a wait is a step that is always possible and the signals need no record.

`CreateWorker` gives the mutex up twice, before and after `ithread_create`.  A
call that is inside it carries what it does afterwards (`Cont`).

The queues are lists of jobs; `LinkedList` of the same directory keeps them.
What the system answers in a step (the clock, the allocations, the creation of
the thread) comes with the step, as `Answers`.  A `log` records what has become
of the jobs and is never read.  The times of the statistics are left out.
-/

namespace VmpSa.Pool

/-! ## Data -/

/-- `ThreadPriority` -/
inductive ThreadPriority where
  | low
  | med
  | high
  deriving DecidableEq, Repr

/-- `ThreadPoolAttr`.  The stack size and the policy go to the system as they are. -/
structure ThreadPoolAttr where
  minThreads : Int
  maxThreads : Int
  maxIdleTime : Int
  jobsPerThread : Int
  maxJobsTotal : Int
  starvationTime : Int
  deriving DecidableEq, Repr

/-- `INFINITE_THREADS` -/
def infiniteThreads : Int := -1

/-- What the caller puts into a `ThreadPoolJob`: the routine with its argument,
whether it has a `free_func`, and the priority. -/
structure JobRequest (T : Type) where
  task : T
  freeFunc : Bool
  priority : ThreadPriority
  deriving DecidableEq, Repr

/-- `ThreadPoolJob`.  The request time is in microseconds.  `serial` numbers the jobs
as they are accepted; no step reads it. -/
structure ThreadPoolJob (T : Type) where
  request : JobRequest T
  requestTime : Int
  jobId : Nat
  serial : Nat
  deriving DecidableEq, Repr

/-- `ThreadPoolStats` without the times. -/
structure ThreadPoolStats where
  totalJobsHQ : Int
  totalJobsMQ : Int
  totalJobsLQ : Int
  workerThreads : Int
  idleThreads : Int
  maxThreads : Int
  deriving DecidableEq, Repr

/-- `ThreadPool` -/
structure ThreadPool (T : Type) where
  lastJobId : Nat
  shutdown : Bool
  totalThreads : Int
  pendingWorkerThreadStart : Bool
  busyThreads : Int
  persistentThreads : Int
  lowJobQ : List (ThreadPoolJob T)
  medJobQ : List (ThreadPoolJob T)
  highJobQ : List (ThreadPoolJob T)
  persistentJob : Option (ThreadPoolJob T)
  attr : ThreadPoolAttr
  stats : ThreadPoolStats
  deriving DecidableEq

/-- The variable `persistent` of a worker: -1, 0 and 1. -/
inductive Kind where
  | fresh
  | regular
  | persistent
  deriving DecidableEq, Repr

/-- Where a worker is. -/
inductive Worker (T : Type) where
  /-- created, and about to count itself -/
  | starting
  /-- at the top of its loop, with the job it has run -/
  | atLoop (job : Option (ThreadPoolJob T)) (kind : Kind)
  /-- in the inner loop, that waits for a job -/
  | waiting
  /-- past the inner loop; only inside a step -/
  | awake
  | running (job : ThreadPoolJob T) (kind : Kind)
  | exited
  deriving DecidableEq

/-- What a call does when `CreateWorker` is over. -/
inductive Cont (T : Type) where
  /-- the loop of `ThreadPoolInit` and `ThreadPoolSetAttr` up to `minThreads` -/
  | grow (i : Int)
  /-- `ThreadPoolAddPersistent` -/
  | persistent (request : JobRequest T)
  /-- `AddWorker` in `ThreadPoolAdd`: whether the job is in its queue, and the two
  local variables -/
  | add (queued : Bool) (jobs threads : Int)
  deriving DecidableEq

/-- Where a call is. -/
inductive Caller (T : Type) where
  /-- in `CreateWorker`, while another worker starts -/
  | createWait (k : Cont T)
  /-- in `CreateWorker`, while its own worker starts -/
  | startWait (k : Cont T)
  /-- in `ThreadPoolAddPersistent`, until the job has been picked up -/
  | pickWait (job : ThreadPoolJob T)
  /-- about to call `ThreadPoolShutdown`, to return `ret` -/
  | shutting (ret : Nat)
  /-- in `ThreadPoolShutdown`, until the threads have finished -/
  | quitWait (ret : Nat)
  | returned (ret : Nat) (jobId : Option Nat)
  deriving DecidableEq

/-- What has become of the jobs, and the ids that calls have returned. -/
structure Log (T : Type) where
  /-- every job that got into a queue or into `persistentJob` -/
  accepted : List (ThreadPoolJob T)
  started : List (ThreadPoolJob T)
  finished : List (ThreadPoolJob T)
  /-- taken back by `ThreadPoolRemove` -/
  removed : List (ThreadPoolJob T)
  /-- freed by `ThreadPoolShutdown` -/
  discarded : List (ThreadPoolJob T)
  /-- the job that was in `persistentJob` when another one was stored there -/
  overwritten : List (ThreadPoolJob T)
  /-- without a list node while it was bumped -/
  lost : List (ThreadPoolJob T)
  ids : List Nat
  deriving DecidableEq

structure State (T : Type) where
  tp : ThreadPool T
  workers : List (Worker T)
  callers : List (Caller T)
  log : Log T
  /-- `ThreadPoolShutdown` has destroyed the mutex -/
  destroyed : Bool
  deriving DecidableEq

/-- What the system answers in a step: the clock in microseconds, whether
`ithread_create` and the allocation of a job succeed, and whether the
allocations of list nodes do, one after the other. -/
structure Answers where
  now : Int
  create : Bool
  alloc : Bool
  node : Nat → Bool

/-- `EMAXTHREADS`, `EOUTOFMEM` and `INVALID_JOB_ID` are one number. -/
def eMaxThreads : Nat := 1 <<< 29

def eOutOfMem : Nat := 1 <<< 29

def invalidJobId : Nat := 1 <<< 29

/-- What `ithread_create` returns when it fails. -/
def eAgain : Nat := 11

variable {T : Type}

/-! ## The worker -/

/-- `DiffMillis`; the conversion to `long` drops the fraction. -/
def diffMillis (time1 time2 : Int) : Int :=
  (time1 - time2).tdiv 1000

/-- `ListAddTail`, when the node is there. -/
def listAddTail (node : Bool) (q : List (ThreadPoolJob T)) (job : ThreadPoolJob T) :
    List (ThreadPoolJob T) :=
  if node then q ++ [job] else q

/-- The loop variables of `BumpPriority`: the queues, the counters of the
statistics, the number of nodes asked for and the jobs that got none. -/
structure Bump (T : Type) where
  high : List (ThreadPoolJob T)
  med : List (ThreadPoolJob T)
  low : List (ThreadPoolJob T)
  totalJobsMQ : Int
  totalJobsLQ : Int
  nodes : Nat
  lost : List (ThreadPoolJob T)
  deriving DecidableEq

/-- The second half of the loop body of `BumpPriority`.  The low queue is measured
with `maxIdleTime`. -/
def bumpLow (attr : ThreadPoolAttr) (r : Answers) (b : Bump T) : Loop.Pass (Bump T) (Bump T) :=
  match b.low with
  | [] => .leave b
  | job :: rest =>
      if diffMillis r.now job.requestTime ≥ attr.maxIdleTime then
        .again { b with
          low := rest
          med := listAddTail (r.node b.nodes) b.med job
          totalJobsLQ := b.totalJobsLQ + 1
          nodes := b.nodes + 1
          lost := if r.node b.nodes then b.lost else b.lost ++ [job] }
      else .leave b

/-- The loop body of `BumpPriority`. -/
def bumpBody (attr : ThreadPoolAttr) (r : Answers) (b : Bump T) : Loop.Pass (Bump T) (Bump T) :=
  match b.med with
  | [] => bumpLow attr r b
  | job :: rest =>
      if diffMillis r.now job.requestTime ≥ attr.starvationTime then
        .again { b with
          med := rest
          high := listAddTail (r.node b.nodes) b.high job
          totalJobsMQ := b.totalJobsMQ + 1
          nodes := b.nodes + 1
          lost := if r.node b.nodes then b.lost else b.lost ++ [job] }
      else bumpLow attr r b

/-- A job goes up at most twice. -/
def Bump.measure (b : Bump T) : Nat := b.med.length + 2 * b.low.length

theorem length_listAddTail_le (node : Bool) (q : List (ThreadPoolJob T)) (job : ThreadPoolJob T) :
    (listAddTail node q job).length ≤ q.length + 1 := by
  cases node with
  | false => simp [listAddTail]
  | true => simp [listAddTail]

theorem bumpLow_measure {attr : ThreadPoolAttr} {r : Answers} {b b' : Bump T}
    (h : bumpLow attr r b = .again b') : b'.measure < b.measure := by
  unfold bumpLow at h
  split at h
  · cases h
  next job rest hlow =>
    split at h
    · cases h
      have hle := length_listAddTail_le (r.node b.nodes) b.med job
      simp only [Bump.measure, hlow, List.length_cons]
      omega
    · cases h

theorem bumpBody_decreases (attr : ThreadPoolAttr) (r : Answers) :
    Loop.Decreases (bumpBody (T := T) attr r) Bump.measure := by
  intro b b' h
  unfold bumpBody at h
  split at h
  · exact bumpLow_measure h
  next job rest hmed =>
    split at h
    · cases h
      simp only [Bump.measure, hmed, List.length_cons]
      omega
    · exact bumpLow_measure h

/-- The loop of `BumpPriority`, with as many passes as it can make. -/
def bumpLoop (attr : ThreadPoolAttr) (r : Answers) (b : Bump T) : Bump T :=
  (Loop.run (bumpBody attr r) (b.measure + 1) b).getD b

theorem bumpLoop_eq_exec (attr : ThreadPoolAttr) (r : Answers) (b : Bump T) :
    bumpLoop attr r b = Loop.exec (bumpBody attr r) Bump.measure (bumpBody_decreases attr r) b := by
  rw [bumpLoop, Loop.run_exec (bumpBody_decreases attr r), Option.getD_some]

/-- The queues as `BumpPriority` finds them. -/
def Bump.of (tp : ThreadPool T) : Bump T where
  high := tp.highJobQ
  med := tp.medJobQ
  low := tp.lowJobQ
  totalJobsMQ := tp.stats.totalJobsMQ
  totalJobsLQ := tp.stats.totalJobsLQ
  nodes := 0
  lost := []

/-- `BumpPriority` -/
def bumpPriority (s : State T) (r : Answers) : State T :=
  let b := bumpLoop s.tp.attr r (Bump.of s.tp)
  { s with
    tp := { s.tp with
      highJobQ := b.high
      medJobQ := b.med
      lowJobQ := b.low
      stats := { s.tp.stats with
        totalJobsMQ := b.totalJobsMQ
        totalJobsLQ := b.totalJobsLQ } }
    log := { s.log with lost := s.log.lost ++ b.lost } }

/-- The first critical section of `WorkerThread`: the thread counts itself. -/
def workerStart (s : State T) (i : Nat) : State T :=
  { s with
    tp := { s.tp with
      totalThreads := s.tp.totalThreads + 1
      pendingWorkerThreadStart := false }
    workers := s.workers.set i (.atLoop none .fresh) }

/-- From the lock at the top of the loop to the inner loop: the job that has been run
is accounted for. -/
def settle (s : State T) (i : Nat) (job : Option (ThreadPoolJob T)) (kind : Kind) : State T :=
  { s with
    tp := { s.tp with
      busyThreads := if job.isSome then s.tp.busyThreads - 1 else s.tp.busyThreads
      persistentThreads :=
        if kind = .persistent then s.tp.persistentThreads - 1 else s.tp.persistentThreads
      stats := { s.tp.stats with
        idleThreads := s.tp.stats.idleThreads + 1
        workerThreads :=
          if kind = .regular then s.tp.stats.workerThreads - 1 else s.tp.stats.workerThreads } }
    workers := s.workers.set i .waiting }

/-- `tp->stats.idleThreads--` behind the inner loop, or on the way out of it. -/
def rise (s : State T) (i : Nat) : State T :=
  { s with
    tp := { s.tp with
      stats := { s.tp.stats with idleThreads := s.tp.stats.idleThreads - 1 } }
    workers := s.workers.set i .awake }

/-- The label `exit_function`. -/
def exitFunction (s : State T) (i : Nat) : State T :=
  { s with
    tp := { s.tp with totalThreads := s.tp.totalThreads - 1 }
    workers := s.workers.set i .exited }

/-- The worker has a job: `busyThreads++`, and the mutex is given up. -/
def takeJob (s : State T) (i : Nat) (job : ThreadPoolJob T) (kind : Kind) : State T :=
  { s with
    tp := { s.tp with
      busyThreads := s.tp.busyThreads + 1
      persistentThreads :=
        if kind = .persistent then s.tp.persistentThreads + 1 else s.tp.persistentThreads
      stats := { s.tp.stats with
        workerThreads :=
          if kind = .regular then s.tp.stats.workerThreads + 1 else s.tp.stats.workerThreads } }
    workers := s.workers.set i (.running job kind)
    log := { s.log with started := s.log.started ++ [job] } }

/-- The persistent job first, then the highest priority. -/
def pickJob (s : State T) (i : Nat) : State T :=
  match s.tp.persistentJob with
  | some job => takeJob { s with tp := { s.tp with persistentJob := none } } i job .persistent
  | none =>
      match s.tp.highJobQ with
      | job :: rest =>
          takeJob { s with tp := { s.tp with
            highJobQ := rest
            stats := { s.tp.stats with totalJobsHQ := s.tp.stats.totalJobsHQ + 1 } } }
            i job .regular
      | [] =>
          match s.tp.medJobQ with
          | job :: rest =>
              takeJob { s with tp := { s.tp with
                medJobQ := rest
                stats := { s.tp.stats with totalJobsMQ := s.tp.stats.totalJobsMQ + 1 } } }
                i job .regular
          | [] =>
              match s.tp.lowJobQ with
              | job :: rest =>
                  takeJob { s with tp := { s.tp with
                    lowJobQ := rest
                    stats := { s.tp.stats with totalJobsLQ := s.tp.stats.totalJobsLQ + 1 } } }
                    i job .regular
              | [] => exitFunction s i

/-- There is neither a job nor a shutdown: the condition of the inner loop. -/
def nothingToDo (tp : ThreadPool T) : Bool :=
  tp.lowJobQ.isEmpty && tp.medJobQ.isEmpty && tp.highJobQ.isEmpty &&
    tp.persistentJob.isNone && !tp.shutdown

/-- A worker that finds nothing to do may die: its wait has timed out, or there are too
many threads. -/
def mayDie (tp : ThreadPool T) (timedOut : Bool) : Bool :=
  (timedOut && decide (tp.totalThreads > tp.attr.minThreads)) ||
    (decide (tp.attr.maxThreads ≠ infiniteThreads) &&
      decide (tp.totalThreads > tp.attr.maxThreads))

/-- From the test of the inner loop to the end of the critical section. -/
def check (s : State T) (i : Nat) (timedOut : Bool) (r : Answers) : State T :=
  if nothingToDo s.tp then
    if mayDie s.tp timedOut then exitFunction (rise s i) i else s
  else
    let s := bumpPriority (rise s i) r
    if s.tp.shutdown then exitFunction s i else pickJob s i

/-- A worker that gets the mutex, or whose routine returns. -/
def workerStep (s : State T) (i : Nat) (timedOut : Bool) (r : Answers) : Option (State T) :=
  match s.workers[i]? with
  | some .starting => some (workerStart s i)
  | some (.atLoop job kind) => some (check (settle s i job kind) i false r)
  | some .waiting => some (check s i timedOut r)
  | some (.running job kind) =>
      some { s with
        workers := s.workers.set i (.atLoop (some job) kind)
        log := { s.log with finished := s.log.finished ++ [job] } }
  | _ => none

/-! ## The calls -/

/-- `CreateThreadPoolJob` -/
def createThreadPoolJob (s : State T) (request : JobRequest T) (r : Answers) : ThreadPoolJob T where
  request := request
  requestTime := r.now
  jobId := s.tp.lastJobId
  serial := s.log.accepted.length

/-- `*jobId = tp->lastJobId++` -/
def assignId (s : State T) : State T :=
  { s with
    tp := { s.tp with lastJobId := s.tp.lastJobId + 1 }
    log := { s.log with ids := s.log.ids ++ [s.tp.lastJobId] } }

/-- `ThreadPoolAddPersistent` behind `CreateWorker`. -/
def storePersistent (s : State T) (request : JobRequest T) (r : Answers) : State T × Caller T :=
  if r.alloc then
    let job := createThreadPoolJob s request r
    ({ s with
        tp := { s.tp with persistentJob := some job }
        log := { s.log with
          accepted := s.log.accepted ++ [job]
          overwritten := s.log.overwritten ++ s.tp.persistentJob.toList } },
      .pickWait job)
  else (s, .returned eOutOfMem (some invalidJobId))

/-- `ThreadPoolAdd` behind `AddWorker`. -/
def finishAdd (s : State T) (queued : Bool) : State T × Caller T :=
  (assignId s, .returned (if queued then 0 else eOutOfMem) (some s.tp.lastJobId))

/-- The call goes on when `CreateWorker` has failed with `rc`. -/
def afterFailure (s : State T) (rc : Nat) (k : Cont T) (r : Answers) : State T × Caller T :=
  match k with
  | .grow _ => (s, .shutting rc)
  | .persistent request => storePersistent s request r
  | .add queued _ _ => finishAdd s queued

/-- The end of `CreateWorker`: the largest number of threads so far. -/
def noteMaxThreads (s : State T) : State T :=
  { s with tp := { s.tp with stats := { s.tp.stats with
      maxThreads := max s.tp.stats.maxThreads s.tp.totalThreads } } }

/-- `CreateWorker` behind its first wait. -/
def createNow (s : State T) (k : Cont T) (r : Answers) : State T × Caller T :=
  if s.tp.attr.maxThreads ≠ infiniteThreads ∧ s.tp.totalThreads + 1 > s.tp.attr.maxThreads then
    afterFailure s eMaxThreads k r
  else if r.create then
    ({ s with
        tp := { s.tp with pendingWorkerThreadStart := true }
        workers := s.workers ++ [.starting] },
      .startWait k)
  else afterFailure (noteMaxThreads s) eAgain k r

/-- `CreateWorker` -/
def createWorker (s : State T) (k : Cont T) (r : Answers) : State T × Caller T :=
  if s.tp.pendingWorkerThreadStart then (s, .createWait k) else createNow s k r

/-- The loop condition of `AddWorker`. -/
def needWorker (tp : ThreadPool T) (jobs threads : Int) : Bool :=
  decide (threads = 0) || decide (jobs.tdiv threads ≥ tp.attr.jobsPerThread) ||
    decide (tp.totalThreads = tp.busyThreads)

/-- The loop of `AddWorker`, from its condition. -/
def addWorker (s : State T) (queued : Bool) (jobs threads : Int) (r : Answers) :
    State T × Caller T :=
  if needWorker s.tp jobs threads then createWorker s (.add queued jobs threads) r
  else finishAdd s queued

/-- The loop up to `minThreads`, from its condition. -/
def growLoop (s : State T) (i : Int) (r : Answers) : State T × Caller T :=
  if i < s.tp.attr.minThreads then createWorker s (.grow i) r else (s, .returned 0 none)

/-- The call goes on when `CreateWorker` has succeeded. -/
def afterSuccess (s : State T) (k : Cont T) (r : Answers) : State T × Caller T :=
  match k with
  | .grow i => growLoop s (i + 1) r
  | .persistent request => storePersistent s request r
  | .add queued jobs threads => addWorker s queued jobs (threads + 1) r

/-- The jobs in the three queues. -/
def ThreadPool.queued (tp : ThreadPool T) : List (ThreadPoolJob T) :=
  tp.highJobQ ++ tp.medJobQ ++ tp.lowJobQ

/-- `ThreadPoolAdd` up to `AddWorker`: the job goes to the queue of its priority. -/
def enqueue (s : State T) (job : ThreadPoolJob T) : State T :=
  { s with
    tp :=
      match job.request.priority with
      | .high => { s.tp with highJobQ := s.tp.highJobQ ++ [job] }
      | .med => { s.tp with medJobQ := s.tp.medJobQ ++ [job] }
      | .low => { s.tp with lowJobQ := s.tp.lowJobQ ++ [job] }
    log := { s.log with accepted := s.log.accepted ++ [job] } }

/-- `AddWorker` with its local variables set. -/
def startAddWorker (s : State T) (queued : Bool) (r : Answers) : State T × Caller T :=
  addWorker s queued s.tp.queued.length (s.tp.totalThreads - s.tp.persistentThreads) r

/-- `ThreadPoolAdd` -/
def threadPoolAdd (s : State T) (request : JobRequest T) (r : Answers) : State T × Caller T :=
  if (s.tp.queued.length : Int) ≥ s.tp.attr.maxJobsTotal then (s, .returned eOutOfMem none)
  else if r.alloc then
    if r.node 0 then startAddWorker (enqueue s (createThreadPoolJob s request r)) true r
    else startAddWorker s false r
  else (s, .returned eOutOfMem (some invalidJobId))

/-- `ThreadPoolAddPersistent` -/
def threadPoolAddPersistent (s : State T) (request : JobRequest T) (r : Answers) :
    State T × Caller T :=
  if s.tp.totalThreads < s.tp.attr.maxThreads then createWorker s (.persistent request) r
  else if s.tp.totalThreads - s.tp.persistentThreads - 1 = 0 then
    (s, .returned eMaxThreads (some invalidJobId))
  else storePersistent s request r

/-- `ListFind` with `CmpThreadPoolJob`, and `ListDelNode`: the job with the id and the
queue without it. -/
def listTake (jobId : Nat) : List (ThreadPoolJob T) →
    Option (ThreadPoolJob T × List (ThreadPoolJob T))
  | [] => none
  | job :: rest =>
      if job.jobId = jobId then some (job, rest)
      else (listTake jobId rest).map fun p => (p.1, job :: p.2)

/-- The job is copied to the caller and freed. -/
def removed (s : State T) (tp : ThreadPool T) (job : ThreadPoolJob T) : State T × Caller T :=
  ({ s with tp := tp, log := { s.log with removed := s.log.removed ++ [job] } }, .returned 0 none)

/-- `ThreadPoolRemove` -/
def threadPoolRemove (s : State T) (jobId : Nat) : State T × Caller T :=
  match listTake jobId s.tp.highJobQ with
  | some (job, rest) => removed s { s.tp with highJobQ := rest } job
  | none =>
      match listTake jobId s.tp.medJobQ with
      | some (job, rest) => removed s { s.tp with medJobQ := rest } job
      | none =>
          match listTake jobId s.tp.lowJobQ with
          | some (job, rest) => removed s { s.tp with lowJobQ := rest } job
          | none =>
              match s.tp.persistentJob with
              | some job =>
                  if job.jobId = jobId then removed s { s.tp with persistentJob := none } job
                  else (s, .returned invalidJobId none)
              | none => (s, .returned invalidJobId none)

/-- `ThreadPoolSetAttr` -/
def threadPoolSetAttr (s : State T) (attr : ThreadPoolAttr) (r : Answers) : State T × Caller T :=
  let s := { s with tp := { s.tp with attr := attr } }
  growLoop s s.tp.totalThreads r

/-- `ThreadPoolShutdown` up to its wait. -/
def discardAll (s : State T) : State T :=
  { s with
    tp := { s.tp with
      highJobQ := []
      medJobQ := []
      lowJobQ := []
      persistentJob := none
      shutdown := true }
    log := { s.log with
      discarded := s.log.discarded ++ (s.tp.queued ++ s.tp.persistentJob.toList) } }

/-- `ThreadPoolShutdown` from its wait: the pool is taken apart when no thread is left. -/
def awaitThreads (s : State T) (ret : Nat) : State T × Caller T :=
  if s.tp.totalThreads > 0 then (s, .quitWait ret)
  else ({ s with destroyed := true }, .returned ret none)

/-- The calls. -/
inductive Call (T : Type) where
  | addPersistent (request : JobRequest T)
  | add (request : JobRequest T)
  | remove (jobId : Nat)
  | setAttr (attr : ThreadPoolAttr)
  | shutdown
  deriving DecidableEq

/-- The first critical section of a call. -/
def callStep (s : State T) (c : Call T) (r : Answers) : State T × Caller T :=
  match c with
  | .addPersistent request => threadPoolAddPersistent s request r
  | .add request => threadPoolAdd s request r
  | .remove jobId => threadPoolRemove s jobId
  | .setAttr attr => threadPoolSetAttr s attr r
  | .shutdown => awaitThreads (discardAll s) 0

/-- A call that gets the mutex again and has not to wait any longer. -/
def resumeStep (s : State T) (c : Caller T) (r : Answers) : Option (State T × Caller T) :=
  match c with
  | .createWait k => if s.tp.pendingWorkerThreadStart then none else some (createNow s k r)
  | .startWait k =>
      if s.tp.pendingWorkerThreadStart then none else some (afterSuccess (noteMaxThreads s) k r)
  | .pickWait _ =>
      if s.tp.persistentJob.isSome then none
      else some (assignId s, .returned 0 (some s.tp.lastJobId))
  | .shutting ret => some (awaitThreads (discardAll s) ret)
  | .quitWait ret => if s.tp.totalThreads > 0 then none else some (awaitThreads s ret)
  | .returned _ _ => none

/-! ## Steps -/

inductive Action (T : Type) where
  | call (c : Call T) (r : Answers)
  /-- the call with this number goes on -/
  | resume (i : Nat) (r : Answers)
  /-- the worker with this number goes on; whether its wait has timed out -/
  | worker (i : Nat) (timedOut : Bool) (r : Answers)

/-- A step of the pool.  There is none once the mutex is gone. -/
def step (s : State T) (a : Action T) : Option (State T) :=
  if s.destroyed then none
  else
    match a with
    | .call c r =>
        let p := callStep s c r
        some { p.1 with callers := p.1.callers ++ [p.2] }
    | .resume i r =>
        match s.callers[i]? with
        | none => none
        | some c =>
            (resumeStep s c r).map fun p => { p.1 with callers := p.1.callers.set i p.2 }
    | .worker i timedOut r => workerStep s i timedOut r

/-- A pool with its counters at zero. -/
def emptyPool (attr : ThreadPoolAttr) : State T where
  tp := {
    lastJobId := 0
    shutdown := false
    totalThreads := 0
    pendingWorkerThreadStart := false
    busyThreads := 0
    persistentThreads := 0
    lowJobQ := []
    medJobQ := []
    highJobQ := []
    persistentJob := none
    attr := attr
    stats := {
      totalJobsHQ := 0
      totalJobsMQ := 0
      totalJobsLQ := 0
      workerThreads := 0
      idleThreads := 0
      maxThreads := 0 } }
  workers := []
  callers := []
  log := {
    accepted := []
    started := []
    finished := []
    removed := []
    discarded := []
    overwritten := []
    lost := []
    ids := [] }
  destroyed := false

/-- `ThreadPoolInit`, whose first threads may still have to start. -/
def threadPoolInit (attr : ThreadPoolAttr) (r : Answers) : State T :=
  let p := growLoop (emptyPool attr) 0 r
  { p.1 with callers := [p.2] }

/-- The attributes that `tp_init` of `mw/common/tp.c` sets. -/
def tpAttr : ThreadPoolAttr where
  minThreads := 0
  maxThreads := 6000
  maxIdleTime := 5000
  jobsPerThread := 1
  maxJobsTotal := 6000
  starvationTime := 500

/-- Everything that is asked for is granted. -/
def granted (now : Int) : Answers where
  now := now
  create := true
  alloc := true
  node := fun _ => true

/-- `ThreadPoolAddPersistent` on a fresh pool: a worker is created, waits, and gets the
job. -/
def persistentRun (task : T) : List (Action T) :=
  [.call (.addPersistent ⟨task, false, .high⟩) (granted 0), .worker 0 false (granted 1),
    .worker 0 false (granted 2), .resume 1 (granted 3), .worker 0 false (granted 4),
    .resume 1 (granted 5)]

end VmpSa.Pool
