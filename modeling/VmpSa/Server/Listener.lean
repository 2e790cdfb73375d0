import Mathlib.Data.UInt
import Mathlib.Logic.Function.Basic
import VmpSa.Lib.System

/-!
# The listener and its workers

`server_listener_thread` of `mw/server/server_listener.c` creates eight stream
servers, each with a thread of its own that fills in the server's record, and
then accepts connections.  A connection goes to the server that
`hash_int32(fd) % 8` selects.  The barrier between the creation and the first
accept is commented out, so nothing orders the threads.

A step is one assignment of a worker, one statement of the listener thread, or
the arrival of a connection.  `server_accept_handler` reads the record of the
selected server three times, and `AllSet` is what has to hold at each of them.
`Late` is the condition under which it does: the selected worker has stored
`out_buf` before the handler reads the first field.
-/

namespace VmpSa

/-! ## The model -/

/-- `MAX_STREAM_SERVER_NUM`. -/
def maxStreamServerNum : Nat := 8

/-- `hash_int32`. -/
def hashInt32 (a : UInt32) : UInt32 :=
  let a := a ^^^ (a >>> (4 : UInt32))
  let a := (a ^^^ (0xdeadbeef : UInt32)) + (a <<< (5 : UInt32))
  a ^^^ (a >>> (11 : UInt32))

/-- The server a descriptor is given to. -/
def serverIndex (fd : UInt32) : Fin maxStreamServerNum :=
  ⟨(hashInt32 fd).toNat % maxStreamServerNum, Nat.mod_lt _ (by decide)⟩

/-- An event base: the one of the launcher, or the own one of a worker. -/
inductive EventBase where
  | launcher
  | worker (i : Fin maxStreamServerNum)
  deriving DecidableEq

/-- `vmp_server_t`.  A field that is still NULL is `false` or `none`. -/
structure VmpServer where
  e : Bool
  core : Bool
  eventBase : Option EventBase
  inBuf : Bool
  outBuf : Bool
  deriving DecidableEq

/-- A record fresh from `calloc`. -/
def VmpServer.zero : VmpServer where
  e := false
  core := false
  eventBase := none
  inBuf := false
  outBuf := false

/-- How far a worker has come in `setup_server`. -/
inductive WorkerPc where
  /-- The thread does not exist. -/
  | absent
  /-- At the test of `ctx->service`. -/
  | started
  /-- At `server->e = e`. -/
  | serviced
  /-- At `server->core = p->parent`. -/
  | storedE
  /-- At `server->event_base = base`. -/
  | storedCore
  /-- At `server->in_buf = pair[0]`. -/
  | storedBase
  /-- At `server->out_buf = pair[1]`. -/
  | storedIn
  /-- `out_buf` is stored. -/
  | storedOut
  /-- In the event loop. -/
  | running
  deriving DecidableEq

/-- How far the listener thread has come. -/
inductive ListenerPc where
  /-- At `init_server`. -/
  | starting
  /-- At `setup_server` for the main server. -/
  | initialised
  /-- In the loop of `stream_server_general`. -/
  | creating (i : Nat)
  /-- In the event loop. -/
  | serving
  /-- In `server_accept_handler`, at the copy of `server->e`. -/
  | copyE (fd : UInt32)
  /-- At the copy of `server->event_base`. -/
  | copyBase (fd : UInt32)
  /-- In `send_socket_to_core`, at `server->out_buf`. -/
  | send (fd : UInt32)
  deriving DecidableEq

/-- `vmp_connection_t`, as the handler fills it in. -/
structure VmpConnection where
  fd : UInt32
  e : Bool
  eventBase : Option EventBase
  server : Fin maxStreamServerNum
  deriving DecidableEq

/-- The listener, the servers and the connections handed over. -/
structure ServerState where
  /-- `ctx->service` is not NULL. -/
  service : Bool
  mainServer : VmpServer
  streamServer : Fin maxStreamServerNum → Option VmpServer
  workers : Fin maxStreamServerNum → WorkerPc
  listener : ListenerPc
  /-- `ls->conn`. -/
  conn : VmpConnection
  sent : List VmpConnection

/-- The steps of the threads, and the arrival of a connection. -/
inductive ServerAction where
  /-- The listener thread goes on.  The argument is whether a `pthread_create` or
  an `evconnlistener_new_bind` in that step succeeds. -/
  | listener (ok : Bool)
  | accept (fd : UInt32)
  /-- A worker goes on.  The argument is whether the `event_base_new` or the
  `bufferevent_pair_new` in that step succeeds. -/
  | worker (i : Fin maxStreamServerNum) (ok : Bool)

/-- Before `server_listener_thread` runs. -/
def ServerState.init : ServerState where
  service := false
  mainServer := .zero
  streamServer := fun _ => none
  workers := fun _ => .absent
  listener := .starting
  conn := { fd := 0, e := false, eventBase := none, server := ⟨0, by decide⟩ }
  sent := []

/-- Where a worker is after the statement it is at.  A failed `bufferevent_pair_new`
leaves the pair undefined. -/
def WorkerPc.next (ok : Bool) : WorkerPc → Option WorkerPc
  | .absent => none
  | .started => some .serviced
  | .serviced => some .storedE
  | .storedE => some .storedCore
  | .storedCore => some .storedBase
  | .storedBase => if ok then some .storedIn else none
  | .storedIn => some .storedOut
  | .storedOut => some .running
  | .running => none

/-- What that statement assigns in the worker's record. -/
def VmpServer.assign (service ok : Bool) (i : Fin maxStreamServerNum) (server : VmpServer) :
    WorkerPc → VmpServer
  | .serviced => { server with e := service }
  | .storedE => { server with core := true }
  | .storedCore => { server with eventBase := some (if ok then .worker i else .launcher) }
  | .storedBase => { server with inBuf := true }
  | .storedIn => { server with outBuf := true }
  | _ => server

/-- A statement of `setup_server` in the thread of a worker. -/
def workerStep (s : ServerState) (i : Fin maxStreamServerNum) (ok : Bool) : Option ServerState :=
  match s.streamServer i, (s.workers i).next ok with
  | some server, some pc =>
      some { s with
        -- the launcher is created by whoever finds it missing
        service := if s.workers i = .started then true else s.service
        streamServer := Function.update s.streamServer i
          (some (server.assign s.service ok i (s.workers i)))
        workers := Function.update s.workers i pc }
  | _, _ => none

/-- A statement of `server_listener_thread`, up to the event loop and in the accept
handler. -/
def listenerStep (s : ServerState) (ok : Bool) : Option ServerState :=
  match s.listener with
  | .starting => some { s with service := true, listener := .initialised }
  | .initialised => some { s with
      mainServer :=
        { e := true, core := true, eventBase := some .launcher, inBuf := true, outBuf := true }
      listener := .creating 0 }
  | .creating i =>
      if h : i < maxStreamServerNum then
        some { s with
          streamServer := Function.update s.streamServer ⟨i, h⟩ (some .zero)
          workers := Function.update s.workers ⟨i, h⟩ (if ok then .started else .absent)
          listener := .creating (i + 1) }
      else if ok then some { s with listener := .serving } else none
  | .serving => none
  | .copyE fd =>
      match s.streamServer (serverIndex fd) with
      | none => none
      | some server => some { s with
          conn := { s.conn with fd := fd, e := server.e }, listener := .copyBase fd }
  | .copyBase fd =>
      match s.streamServer (serverIndex fd) with
      | none => none
      | some server => some { s with
          conn := { s.conn with eventBase := server.eventBase, server := serverIndex fd }
          listener := .send fd }
  | .send fd =>
      match s.streamServer (serverIndex fd) with
      | none => none
      | some server =>
          if server.outBuf then
            some { s with sent := s.sent ++ [s.conn], listener := .serving }
          else none

/-- One step of the process. -/
def serverStep (s : ServerState) : ServerAction → Option ServerState
  | .listener ok => listenerStep s ok
  | .accept fd => if s.listener = .serving then some { s with listener := .copyE fd } else none
  | .worker i ok => workerStep s i ok

/-! ## Ready workers -/

/-- The fields a dispatch and the connection behind it rely on. -/
def VmpServer.Set (server : VmpServer) : Prop :=
  server.e = true ∧ server.core = true ∧ server.eventBase.isSome = true ∧ server.outBuf = true

/-- The record of the server selected for `fd` is filled in. -/
def AllSet (s : ServerState) (fd : UInt32) : Prop :=
  ∃ server, s.streamServer (serverIndex fd) = some server ∧ server.Set

/-- The descriptor the accept handler is working on. -/
def ListenerPc.handling : ListenerPc → Option UInt32
  | .copyE fd => some fd
  | .copyBase fd => some fd
  | .send fd => some fd
  | _ => none

/-- Whenever the handler reads the selected server, its record is filled in. -/
def ReadsSet (s : ServerState) : ServerAction → Prop
  | .listener _ => ∀ fd, s.listener.handling = some fd → AllSet s fd
  | _ => True

/-- The worker has stored `out_buf`. -/
def WorkerPc.Done (pc : WorkerPc) : Prop := pc = .storedOut ∨ pc = .running

/-- When the handler begins to read the selected server, that server's worker has
stored `out_buf`. -/
def Late (s : ServerState) : ServerAction → Prop
  | .listener _ => ∀ fd, s.listener = .copyE fd → (s.workers (serverIndex fd)).Done
  | _ => True

/-! ## The invariant -/

/-- The number of statements of `setup_server` a worker has executed. -/
def WorkerPc.progress : WorkerPc → Nat
  | .absent => 0
  | .started => 0
  | .serviced => 1
  | .storedE => 2
  | .storedCore => 3
  | .storedBase => 4
  | .storedIn => 5
  | .storedOut => 6
  | .running => 7

theorem WorkerPc.done_iff (pc : WorkerPc) : pc.Done ↔ 6 ≤ pc.progress := by
  cases pc <;> simp [Done, progress]

/-- The record shows how far its worker has come. -/
structure Filled (pc : WorkerPc) (server : VmpServer) : Prop where
  e : 2 ≤ pc.progress → server.e = true
  core : 3 ≤ pc.progress → server.core = true
  eventBase : 4 ≤ pc.progress → server.eventBase.isSome = true
  outBuf : 6 ≤ pc.progress ↔ server.outBuf = true

theorem Filled.set_iff {pc : WorkerPc} {server : VmpServer} (h : Filled pc server) :
    server.Set ↔ pc.Done := by
  rw [WorkerPc.done_iff]
  constructor
  · rintro ⟨-, -, -, hout⟩
    exact h.outBuf.mpr hout
  · intro h6
    exact ⟨h.e (by omega), h.core (by omega), h.eventBase (by omega), h.outBuf.mp h6⟩

/-- What holds between the steps of a process whose handlers find the records
filled in. -/
structure ServerState.Sound (s : ServerState) : Prop where
  /-- A worker exists only with its record, which shows its progress. -/
  filled : ∀ i, s.streamServer i = none ∧ s.workers i = .absent ∨
    ∃ server, s.streamServer i = some server ∧ Filled (s.workers i) server
  service : ∀ i, 1 ≤ (s.workers i).progress → s.service = true
  /-- Inside the handler the selected worker is done. -/
  handler : ∀ fd, s.listener = .copyBase fd ∨ s.listener = .send fd →
    (s.workers (serverIndex fd)).Done

variable {s s' : ServerState}

theorem sound_init : ServerState.init.Sound where
  filled := fun _ => Or.inl ⟨rfl, rfl⟩
  service := fun _ h => absurd h (Nat.not_succ_le_zero 0)
  handler := by
    rintro fd (h | h) <;> cases h

theorem ServerState.Sound.allSet_iff (h : s.Sound) (fd : UInt32) :
    AllSet s fd ↔ (s.workers (serverIndex fd)).Done := by
  rcases h.filled (serverIndex fd) with ⟨hnone, habs⟩ | ⟨server, hserver, hfilled⟩
  · rw [habs, AllSet, hnone]
    refine iff_of_false ?_ ?_
    · rintro ⟨_, h, -⟩
      cases h
    · rintro (h | h) <;> cases h
  · rw [← hfilled.set_iff, AllSet, hserver]
    exact ⟨fun ⟨_, h, hset⟩ => by cases h; exact hset, fun hset => ⟨server, rfl, hset⟩⟩

/-- The record shows the progress after a statement as well. -/
theorem Filled.assign {pc pc' : WorkerPc} {server : VmpServer} {service ok : Bool}
    {i : Fin maxStreamServerNum} (h : Filled pc server) (hn : pc.next ok = some pc')
    (hsv : 1 ≤ pc.progress → service = true) : Filled pc' (server.assign service ok i pc) := by
  obtain ⟨he, hc, hb, ho⟩ := h
  cases ok <;> cases pc <;> cases hn <;> constructor <;>
    simp_all [WorkerPc.progress, VmpServer.assign]

theorem WorkerPc.progress_le_next {pc pc' : WorkerPc} {ok : Bool} (hn : pc.next ok = some pc') :
    pc.progress ≤ pc'.progress := by
  cases ok <;> cases pc <;> cases hn <;> simp [progress]

/-- Past the test of `ctx->service` a worker has executed a statement. -/
theorem WorkerPc.one_le_of_next {pc pc' : WorkerPc} {ok : Bool} (hn : pc.next ok = some pc')
    (hpc : pc ≠ .started) : 1 ≤ pc.progress := by
  cases ok <;> cases pc <;> cases hn <;> simp_all [progress]

/-! ## The steps -/

/-- A worker keeps the invariant, whatever the handler is doing. -/
theorem ServerState.Sound.worker (h : s.Sound) {i : Fin maxStreamServerNum} {ok : Bool}
    (hs : workerStep s i ok = some s') : s'.Sound := by
  unfold workerStep at hs
  split at hs
  next server pc hserver hnext =>
    cases hs
    have hle := WorkerPc.progress_le_next hnext
    have hf : Filled (s.workers i) server := by
      rcases h.filled i with ⟨hnone, -⟩ | ⟨server', hserver', hf⟩
      · rw [hserver] at hnone
        cases hnone
      · rw [hserver] at hserver'
        cases hserver'
        exact hf
    refine ⟨fun j => ?_, fun j hj => ?_, fun fd hfd => ?_⟩
    · by_cases hji : j = i
      · subst hji
        refine Or.inr ⟨_, Function.update_self .., ?_⟩
        simpa only [Function.update_self] using hf.assign hnext (h.service j)
      · simpa [hji] using h.filled j
    · by_cases hji : j = i
      · subst hji
        by_cases hpc : s.workers j = .started
        · exact if_pos hpc
        · have h1 := WorkerPc.one_le_of_next hnext hpc
          simpa only [hpc, if_false] using h.service j h1
      · simp only [Function.update_of_ne hji] at hj
        simp only [h.service j hj, ite_self]
    · have hdone := h.handler fd hfd
      by_cases hji : serverIndex fd = i
      · subst hji
        rw [WorkerPc.done_iff] at hdone ⊢
        simp only [Function.update_self]
        omega
      · simpa [hji] using hdone
  · cases hs

/-- A record fresh from `calloc` shows a worker that has done nothing. -/
theorem filled_zero {pc : WorkerPc} (h0 : pc.progress = 0) : Filled pc .zero := by
  constructor <;> simp [h0, VmpServer.zero]

/-- A new record with a thread that has done nothing, or without one. -/
theorem ServerState.Sound.create (h : s.Sound) (k : Fin maxStreamServerNum) {pc : WorkerPc}
    (h0 : pc.progress = 0) (n : Nat) :
    ServerState.Sound { s with
      streamServer := Function.update s.streamServer k (some .zero)
      workers := Function.update s.workers k pc
      listener := .creating n } := by
  refine ⟨fun j => ?_, fun j hj => ?_, by rintro fd (h | h) <;> cases h⟩
  · by_cases hjk : j = k
    · subst hjk
      simpa using filled_zero h0
    · simpa [hjk] using h.filled j
  · by_cases hjk : j = k
    · subst hjk
      simp only [Function.update_self, h0] at hj
      omega
    · simp only [Function.update_of_ne hjk] at hj
      exact h.service j hj

/-- A statement of the listener keeps the invariant, if the handler finds what it
reads. -/
theorem ServerState.Sound.listener (h : s.Sound) {ok : Bool} (hr : ReadsSet s (.listener ok))
    (hs : listenerStep s ok = some s') : s'.Sound := by
  unfold listenerStep at hs
  cases hpc : s.listener with
  | starting =>
      rw [hpc] at hs
      cases hs
      exact ⟨h.filled, fun _ _ => rfl, by rintro fd (h | h) <;> cases h⟩
  | initialised =>
      rw [hpc] at hs
      cases hs
      exact ⟨h.filled, h.service, by rintro fd (h | h) <;> cases h⟩
  | creating k =>
      simp only [hpc] at hs
      split at hs
      next hk =>
        cases hs
        exact h.create ⟨k, hk⟩ (by cases ok <;> rfl) (k + 1)
      · split at hs
        · cases hs
          exact ⟨h.filled, h.service, by rintro fd (h | h) <;> cases h⟩
        · cases hs
  | serving =>
      rw [hpc] at hs
      cases hs
  | copyE fd =>
      have hdone := (h.allSet_iff fd).mp (hr fd (by rw [hpc]; rfl))
      simp only [hpc] at hs
      split at hs
      · cases hs
      · cases hs
        exact ⟨h.filled, h.service, by rintro _ (h | h) <;> cases h; exact hdone⟩
  | copyBase fd =>
      have hdone := h.handler fd (Or.inl hpc)
      simp only [hpc] at hs
      split at hs
      · cases hs
      · cases hs
        exact ⟨h.filled, h.service, by rintro _ (h | h) <;> cases h; exact hdone⟩
  | send fd =>
      simp only [hpc] at hs
      split at hs
      · cases hs
      · split at hs
        · cases hs
          exact ⟨h.filled, h.service, by rintro _ (h | h) <;> cases h⟩
        · cases hs

theorem ServerState.Sound.step (h : s.Sound) {a : ServerAction} (hr : ReadsSet s a)
    (hs : serverStep s a = some s') : s'.Sound := by
  cases a with
  | listener ok => exact h.listener hr hs
  | accept fd =>
      simp only [serverStep] at hs
      split at hs
      · cases hs
        exact ⟨h.filled, h.service, by rintro _ (h | h) <;> cases h⟩
      · cases hs
  | worker i ok => exact h.worker hs

/-- Before a step the handler finds what it reads exactly when the selected worker
is done by the first read. -/
theorem ServerState.Sound.readsSet_iff (h : s.Sound) (a : ServerAction) :
    ReadsSet s a ↔ Late s a := by
  cases a with
  | listener ok =>
      constructor
      · intro hr fd hfd
        exact (h.allSet_iff fd).mp (hr fd (by rw [hfd]; rfl))
      · intro hl fd hfd
        rw [h.allSet_iff fd]
        cases hpc : s.listener with
        | copyE fd' =>
            rw [hpc] at hfd
            cases hfd
            exact hl fd hpc
        | copyBase fd' =>
            rw [hpc] at hfd
            cases hfd
            exact h.handler fd (Or.inl hpc)
        | send fd' =>
            rw [hpc] at hfd
            cases hfd
            exact h.handler fd (Or.inr hpc)
        | _ => rw [hpc] at hfd; cases hfd
  | accept fd => exact Iff.rfl
  | worker i ok => exact Iff.rfl

/-! ## Whole runs -/

/-- In every interleaving of the threads and the connections the handler reads only
records that are filled in exactly when no handler begins to read a server whose
worker has not stored `out_buf`. -/
theorem dispatch_ready_iff (actions : List ServerAction) :
    System.Along serverStep ReadsSet ServerState.init actions ↔
      System.Along serverStep Late ServerState.init actions :=
  System.along_iff_along ServerState.Sound (fun _ a h _ => h.readsSet_iff a)
    (fun _ _ _ h _ hr hs => h.step hr hs) sound_init (System.along_true actions)

/-- The listener creates the eight servers and their threads, and a connection comes
in before any of the threads runs. -/
def earlyConnection : List ServerAction := List.replicate 11 (.listener true) ++ [.accept 7]

/-- The handler then copies `e` from a record nobody has written to. -/
theorem dispatch_not_ready :
    ¬ ∀ actions, System.Along serverStep ReadsSet ServerState.init actions := by
  intro h
  have hrun : (System.run serverStep ServerState.init earlyConnection).map
      (fun s => (s.listener, s.streamServer (serverIndex 7))) = some (.copyE 7, some .zero) := by
    decide
  obtain ⟨s, hs, hpair⟩ := Option.map_eq_some_iff.mp hrun
  obtain ⟨hpc, hserver⟩ := Prod.mk.inj hpair
  have hread := ((h (earlyConnection ++ [.listener true])).right hs).head
  obtain ⟨server, hsome, hset⟩ := hread 7 (by rw [hpc]; rfl)
  rw [hserver] at hsome
  cases hsome
  exact Bool.false_ne_true hset.1

end VmpSa
