/-
The dispatcher: its queue, its threads and its shutdown.

The dispatcher's thread, the thread that expires queued records, the threads of the
requests, and the one that shuts the dispatcher down act on the queue and on the
registry; clients submit and cancel.  What happens under one lock is one step, and
while the expiry thread holds the lock of the queue nobody else gets it.

* `submit`, `cancel` — the calls of the clients;
* `runStep`, `expire`, `expireNext`, `shutdownStep` — the next step of each thread;
* `run` — an interleaving.

A call that has told the registry of a terminal record goes on at once; the observers
are called by steps of their own.
-/
import LlamaRuntime.Worker.TerminalObservers
import LlamaRuntime.Worker.Streaming

namespace Worker

structure DispatcherConfig where
  capacity : ℕ
  uuid4 : ℕ → PyStr
  capacity_pos : 0 < capacity
  uuid4_injective : Function.Injective uuid4

/-- The thread of a request. -/
inductive TaskState (R : Type) where
  | launched
  /-- in `worker.execute` -/
  | executing
  | ended (outcome : Except Raised R)

structure Task (R : Type) where
  record : ℕ
  state : TaskState R := .launched

/-- Where `_run` stands. -/
inductive Runner (R : Type) where
  /-- in `_wait_for_restart` -/
  | waiting
  /-- in `_next_pending` -/
  | polling
  | taken (e : ℕ)
  /-- the record was not started -/
  | expired (e : ℕ)
  /-- the record is running, its thread not yet started -/
  | starting (e : ℕ)
  /-- in the loop around `task.join` -/
  | watching (e i : ℕ)
  | left (e i : ℕ)
  | deciding (e i : ℕ)
  /-- the deadline has passed, and the request has been cancelled -/
  | overdue (e i : ℕ)
  | timingOut (e : ℕ) (restartRequired : Bool)
  /-- in `_schedule_restart` -/
  | restarting
  | ending (e : ℕ) (target : Lifecycle) (result : Option R) (error : Option RecordError)
  | stopped

/-- Where `_begin_shutdown` stands. -/
inductive Shutdown where
  | idle
  /-- no request is accepted -/
  | refusing
  | started
  /-- both threads are told to stop -/
  | stopping
  /-- at the head of the loop -/
  | walking (rest : List ℕ)
  | cancelling (e : ℕ) (rest : List ℕ)
  | cancelled (e : ℕ) (rest : List ℕ)
  | removing (e : ℕ) (rest : List ℕ)
  | transiting (e : ℕ) (rest : List ℕ)
  | done
  deriving DecidableEq

structure Dispatcher (R : Type) where
  registry : Registry R := {}
  pending : List ℕ := []
  accepting : Bool := true
  dispatchStopping : Bool := false
  expiryStopping : Bool := false
  shutdownStarted : Bool := false
  restartAlive : Bool := false
  runner : Runner R := .waiting
  /-- the records the expiry thread is about to time out, with the lock of the queue -/
  expiring : List ℕ := []
  tasks : List (Task R) := []
  shutdown : Shutdown := .idle
  /-- the records that have been started -/
  startedOrder : List ℕ := []
  /-- the records `worker.execute` has been called with -/
  executions : List ℕ := []

/-- The transition `_run` chooses for a thread that has ended. -/
def finalTransition {R : Type} (cancelled : Bool) (outcome : Except Raised R) :
    Lifecycle × Option R × Option RecordError :=
  let other : Lifecycle × Option R × Option RecordError :=
    if cancelled then (.CANCELLED, none, some (.code "cancelled"))
    else
      match outcome with
      | .error e => (.FAILED, none, some (Stream.storedError e))
      | .ok result => (.COMPLETED, some result, none)
  match outcome with
  | .error (.worker error) =>
    if error.code = .slow_consumer then (.FAILED, none, some (.error error)) else other
  | _ => other

/-- What a single record sees of the choice. -/
theorem ending_eq {F : Type} (cancelled : Bool) (outcome : Except Raised (GenerateResult F)) :
    Stream.ending cancelled outcome =
      .ending (finalTransition cancelled outcome).1 (finalTransition cancelled outcome).2.1
        (finalTransition cancelled outcome).2.2 := by
  unfold Stream.ending finalTransition
  cases cancelled <;> rcases outcome with (error | _ | message) | result <;> dsimp only <;>
    split_ifs <;> rfl

namespace Dispatcher

variable {R : Type}

def setRegistry (registry : Registry R) (s : Dispatcher R) : Dispatcher R :=
  { s with registry := registry }

/-- `self._pending` -/
def removePending (e : ℕ) (s : Dispatcher R) : Dispatcher R := { s with pending := s.pending.erase e }

/-- `record.cancel_event.set()` -/
def setCancelEvent (e : ℕ) (s : Dispatcher R) : Dispatcher R :=
  match s.registry.heap[e]? with
  | none => s
  | some record =>
    { s with
      registry := { s.registry with
        heap := s.registry.heap.set e { record with cancelEvent := true } } }

/-- `submit` -/
def submit (cfg : DispatcherConfig) (queueTimeoutMs executionTimeoutMs : ℕ) (t₁ t₂ t₃ : ℚ)
    (s : Dispatcher R) : Except WorkerError ℕ × Dispatcher R :=
  if s.accepting = false then (.error ⟨.shutdown, py "service is draining", []⟩, s)
  else if cfg.capacity ≤ s.pending.length then
    (.error ⟨.queue_full, py "dispatcher queue is full", []⟩, s)
  else
    let n := s.registry.heap.length
    let (e, registry) := s.registry.create (cfg.uuid4 (2 * n)) (cfg.uuid4 (2 * n + 1)) queueTimeoutMs
      executionTimeoutMs t₁
    let registry := (registry.transition e .PREFLIGHTED none none t₂).2
    let registry := (registry.transition e .QUEUED none none t₃).2
    (.ok e, { s with registry := registry, pending := s.pending ++ [e] })

/-- `cancel`, up to `worker.cancel` -/
def cancel (requestId : PyStr) (now : ℚ) (s : Dispatcher R) :
    Except PyException Bool × Dispatcher R :=
  match s.registry.records.get? requestId with
  | none => (.ok false, s)
  | some e =>
    let (changed, registry) := s.registry.cancel requestId now
    let s := s.setRegistry registry
    (changed, if registry.lifecycleOf e = some .CANCELLED then s.removePending e else s)

/-- The expiry thread looks for expired records, with the lock of the queue. -/
def expire (now : ℚ) (s : Dispatcher R) : Dispatcher R :=
  if s.expiryStopping then s
  else
    { s with
      expiring := s.pending.filter fun e =>
        (s.registry.heap[e]?.map fun record => decide (record.queueDeadline ≤ now)).getD false }

/-- It times the next one out. -/
def expireNext (now : ℚ) (s : Dispatcher R) : Dispatcher R :=
  match s.expiring with
  | [] => s
  | e :: rest =>
    let s := s.setRegistry (s.registry.compareAndTransition e .QUEUED .TIMED_OUT (.ok true) none
      (some (.code "queue_timeout")) now).2
    { s.removePending e with expiring := rest }

structure RunAnswer where
  now : ℚ := 0
  /-- `remaining <= 0` -/
  late : Bool := false
  /-- `cancel_task.is_alive()` -/
  cancelAlive : Bool := false

/-- `task.is_alive()` -/
def isAlive (i : ℕ) (s : Dispatcher R) : Bool :=
  match s.tasks[i]? with
  | some ⟨_, .ended _⟩ => false
  | _ => true

/-- The next step of `_run`. -/
def runStep (answer : RunAnswer) (s : Dispatcher R) : Dispatcher R :=
  match s.runner with
  | .waiting =>
    if s.dispatchStopping then { s with runner := .stopped }
    else if s.restartAlive then s
    else { s with runner := .polling }
  | .polling =>
    if s.dispatchStopping then { s with runner := .stopped }
    else
      match s.pending with
      | [] => s
      | e :: rest => { s with pending := rest, runner := .taken e }
  | .taken e =>
    let inTime := (s.registry.heap[e]?.map fun record =>
      decide (answer.now < record.queueDeadline)).getD false
    match s.registry.compareAndTransition e .QUEUED .RUNNING (.ok inTime) none none answer.now with
    | (.ok true, registry) =>
      { s.setRegistry registry with runner := .starting e, startedOrder := s.startedOrder ++ [e] }
    | (_, registry) => { s.setRegistry registry with runner := .expired e }
  | .expired e =>
    { s.setRegistry (s.registry.compareAndTransition e .QUEUED .TIMED_OUT (.ok true) none
        (some (.code "queue_timeout")) answer.now).2 with
      runner := .waiting }
  | .starting e =>
    { s with tasks := s.tasks ++ [{ record := e }], runner := .watching e s.tasks.length }
  | .watching e i =>
    if s.isAlive i then
      if answer.late ∨ Registry.Ended (s.registry.lifecycleOf e) then { s with runner := .left e i }
      else s
    else { s with runner := .left e i }
  | .left e i =>
    if Registry.Ended (s.registry.lifecycleOf e) then { s with runner := .waiting }
    else { s with runner := .deciding e i }
  | .deciding e i =>
    match s.tasks[i]? with
    | some ⟨_, .ended outcome⟩ =>
      let cancelled := (s.registry.heap[e]?.map RequestRecord.cancelEvent).getD false
      let (target, result, error) := finalTransition cancelled outcome
      { s with runner := .ending e target result error }
    | _ => { s.setCancelEvent e with runner := .overdue e i }
  | .overdue e i => { s with runner := .timingOut e (s.isAlive i || answer.cancelAlive) }
  | .timingOut e restartRequired =>
    { s.setRegistry (s.registry.compareAndTransition e .RUNNING .TIMED_OUT (.ok true) none
        (some (.code "deadline_exceeded")) answer.now).2 with
      runner := if restartRequired then .restarting else .waiting }
  | .restarting =>
    if s.shutdownStarted ∨ s.restartAlive then { s with runner := .waiting }
    else { s with restartAlive := true, runner := .waiting }
  | .ending e target result error =>
    { s.setRegistry (s.registry.compareAndTransition e .RUNNING target (.ok true) result error
        answer.now).2 with
      runner := .waiting }
  | .stopped => s

/-- The next step of the `i`-th thread of a request. -/
def taskStep (i : ℕ) (outcome : Except Raised R) (s : Dispatcher R) : Dispatcher R :=
  match s.tasks[i]? with
  | some ⟨e, .launched⟩ =>
    { s with tasks := s.tasks.set i ⟨e, .executing⟩, executions := s.executions ++ [e] }
  | some ⟨e, .executing⟩ => { s with tasks := s.tasks.set i ⟨e, .ended outcome⟩ }
  | _ => s

/-- The next step of `_begin_shutdown`. -/
def shutdownStep (now : ℚ) (s : Dispatcher R) : Dispatcher R :=
  match s.shutdown with
  | .idle => { s with accepting := false, shutdown := .refusing }
  | .refusing => { s with shutdownStarted := true, shutdown := .started }
  | .started => { s with dispatchStopping := true, expiryStopping := true, shutdown := .stopping }
  | .stopping => { s with shutdown := .walking s.registry.records.values }
  | .walking [] => { s with shutdown := .done }
  | .walking (e :: rest) =>
    if Registry.Ended (s.registry.lifecycleOf e) then { s with shutdown := .walking rest }
    else { s with shutdown := .cancelling e rest }
  | .cancelling e rest =>
    match s.registry.heap[e]? with
    | none => { s with shutdown := .walking rest }
    | some record =>
      match s.registry.cancel record.requestId now with
      | (.ok true, registry) => { s.setRegistry registry with shutdown := .cancelled e rest }
      | (_, registry) => { s.setRegistry registry with shutdown := .walking rest }
  | .cancelled e rest =>
    if s.registry.lifecycleOf e = some .CANCELLED then { s with shutdown := .removing e rest }
    else { s with shutdown := .transiting e rest }
  | .removing e rest => { s.removePending e with shutdown := .walking rest }
  | .transiting e rest =>
    { s.setRegistry (s.registry.compareAndTransition e .RUNNING .CANCELLED (.ok true) none
        (some (.code "shutdown")) now).2 with
      shutdown := .walking rest }
  | .done => s

/-- The step takes the lock of the queue. -/
def RunnerNeedsQueue (s : Dispatcher R) : Prop :=
  match s.runner with
  | .waiting | .polling => True
  | _ => False

def ShutdownNeedsQueue (s : Dispatcher R) : Prop :=
  match s.shutdown with
  | .started | .removing _ _ => True
  | _ => False

instance (s : Dispatcher R) : Decidable (RunnerNeedsQueue s) := by
  unfold RunnerNeedsQueue
  cases s.runner <;> infer_instance

instance (s : Dispatcher R) : Decidable (ShutdownNeedsQueue s) := by
  unfold ShutdownNeedsQueue
  cases s.shutdown <;> infer_instance

end Dispatcher

/-- What a run may do next. -/
inductive DispatcherMove (R : Type) where
  | submit (queueTimeoutMs executionTimeoutMs : ℕ) (t₁ t₂ t₃ : ℚ)
  | cancel (requestId : PyStr) (now : ℚ)
  | expire (now : ℚ)
  | expireNext (now : ℚ)
  | run (answer : Dispatcher.RunAnswer)
  | task (i : ℕ) (outcome : Except Raised R)
  /-- `record.cancel_event.set()`, by the threads of the worker -/
  | setCancelEvent (e : ℕ)
  | restartEnds
  | shutdown (now : ℚ)
  | addTerminalObserver (observer : ℕ)
  | removeTerminalObserver (observer : ℕ)
  | pruneTerminal (ttlSeconds : ℚ) (maxRecords : ℤ) (now : ℚ)
  | notifyNext (i : ℕ) (outcome : ObserverOutcome)

namespace Dispatcher

variable {R : Type}

/-- A step that needs the lock of the queue does nothing while the expiry thread has it. -/
def step (cfg : DispatcherConfig) (s : Dispatcher R) : DispatcherMove R → Dispatcher R
  | .submit queueTimeoutMs executionTimeoutMs t₁ t₂ t₃ =>
    if s.expiring = [] then (s.submit cfg queueTimeoutMs executionTimeoutMs t₁ t₂ t₃).2 else s
  | .cancel requestId now => if s.expiring = [] then (s.cancel requestId now).2 else s
  | .expire now => if s.expiring = [] then s.expire now else s
  | .expireNext now => s.expireNext now
  | .run answer => if s.RunnerNeedsQueue ∧ s.expiring ≠ [] then s else s.runStep answer
  | .task i outcome => s.taskStep i outcome
  | .setCancelEvent e => s.setCancelEvent e
  | .restartEnds => { s with restartAlive := false }
  | .shutdown now => if s.ShutdownNeedsQueue ∧ s.expiring ≠ [] then s else s.shutdownStep now
  | .addTerminalObserver observer => s.setRegistry (s.registry.addTerminalObserver observer).2
  | .removeTerminalObserver observer => s.setRegistry (s.registry.removeTerminalObserver observer).2
  | .pruneTerminal ttlSeconds maxRecords now =>
    s.setRegistry (s.registry.pruneTerminal ttlSeconds maxRecords now).2
  | .notifyNext i outcome => s.setRegistry (s.registry.notifyNext i outcome)

def run (cfg : DispatcherConfig) (moves : List (DispatcherMove R)) : Dispatcher R :=
  moves.foldl (step cfg) {}

end Dispatcher

end Worker
