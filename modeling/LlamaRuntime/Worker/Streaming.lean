/-
A streamed request, from the lines of the worker process to its client.

Three threads act on the record and on the event buffer of the request: the one
that runs `execute`, the dispatcher, and the handler of the client's connection;
cancellation, expiry and shutdown come from others.  Every access of a thread to
what is shared is a step of its own, so a run is any interleaving of such steps.

* `requestStep`, `dispatcherStep`, `handlerStep` — the next step of each thread;
* `run` — an interleaving.
-/
import LlamaRuntime.Worker.RequestRegistry
import LlamaRuntime.Worker.WorkerProcess

namespace Worker

open Json

/-! ### The thread of the request -/

/-- Where `execute` stands. -/
inductive RequestThread (F : Type) where
  | unstarted
  /-- before the first look at `cancel_event` -/
  | entering
  | starting
  /-- about to write the `generate` frame -/
  | sending
  /-- about to look at `cancel_event` before the loop -/
  | sent (x : Execution F)
  /-- at the head of the loop -/
  | polling (x : Execution F)
  /-- in `frames.get` -/
  | receiving (x : Execution F)
  | publishing (x : Execution F) (frame : Frame F) (event : InferenceEvent)
  /-- the sink has turned out slow -/
  | stopping (x : Execution F) (frame : Frame F)
  | settling (x : Execution F) (frame : Frame F)
  | finished (x : Execution F) (outcome : Except Raised (GenerateResult F)) (recovery : Bool)

/-- What `frames.get` brings. -/
inductive Polled where
  /-- no line in time; whether the process is the same and alive -/
  | empty (alive : Bool)
  /-- the end of the pipe -/
  | closed
  | line (text : PyStr)

/-- What the process and the clock answer to a step of `execute`. -/
structure RequestAnswer (F : Type) where
  start : Except Raised Unit := .ok ()
  /-- the write to the control pipe succeeds -/
  writes : Bool := true
  polled : Polled := .empty true
  extra : Extra := .empty
  elapsed : Value F := .int 0

/-! ### The dispatcher -/

/-- Where `_run` stands with the request. -/
inductive DispatcherThread (F : Type) where
  | pending
  /-- the request was not started -/
  | expiring
  /-- in the loop around `task.join` -/
  | watching
  | left
  | deciding
  /-- the deadline has passed -/
  | timingOut
  | ending (target : Lifecycle) (result : Option (GenerateResult F)) (error : Option RecordError)
  | closing
  | done

structure DispatcherAnswer where
  now : ℚ := 0
  /-- `remaining <= 0` -/
  late : Bool := false

/-! ### The handler of the connection -/

/-- Where the handler stands with the stream. -/
inductive HandlerThread where
  /-- before `_drain_stream` -/
  | preparing
  /-- at the head of the loop -/
  | checking
  /-- about to look at the lifecycle -/
  | reading
  /-- in `event_sink.get` -/
  | getting
  | draining
  /-- events in hand; the last ones after a drain -/
  | writing (rest : List InferenceEvent) (last : Bool)
  /-- `_drain_stream` has returned -/
  | returned
  /-- the client has gone, with these events unwritten -/
  | stopped (unwritten : List InferenceEvent)

structure HandlerAnswer where
  /-- the client is there: the check and the write succeed -/
  connected : Bool := true
  elapsed : ℚ := 0

/-! ### The system -/

structure Stream (F : Type) where
  record : RequestRecord (GenerateResult F)
  buffer : BoundedRequestEventBuffer
  request : RequestThread F := .unstarted
  dispatcher : DispatcherThread F := .pending
  handler : HandlerThread := .preparing
  /-- the events written to the client -/
  written : List InferenceEvent := []

/-- What a run may do next. -/
inductive Action (F : Type) where
  | request (answer : RequestAnswer F)
  | dispatcher (answer : DispatcherAnswer)
  | handler (answer : HandlerAnswer)
  /-- `RequestRegistry.cancel` -/
  | cancel (now : ℚ)
  /-- `NativeWorkerProcess.cancel`, which sets the event again -/
  | cancelEvent
  /-- the expiry of the queue -/
  | expire (now : ℚ)
  /-- the transition of `_begin_shutdown` -/
  | shutdown (now : ℚ)
  /-- `_close_event_buffer`, called where the lifecycle has been found terminal -/
  | closeTerminal

namespace Stream

variable {F : Type}

/-- `execute` leaves its `try`. -/
def leave (s : Stream F) (x : Execution F) (e : Raised) : Stream F :=
  { s with request := .finished x (.error e) (recovers e) }

/-- `if record.cancel_event.is_set() and not cancel_sent: ...` -/
def sendCancel (s : Stream F) (x : Execution F) (writes : Bool)
    (after : Execution F → RequestThread F) : Stream F :=
  if s.record.cancelEvent ∧ ¬ x.cancelSent then
    if writes then { s with request := after { x with cancelSent := true } }
    else s.leave x (crashed "worker control pipe write failed")
  else { s with request := after x }

/-- The publication of an event and what `execute` makes of its result. -/
def publishStep (s : Stream F) (x : Execution F) (frame : Frame F) (event : InferenceEvent) :
    Stream F :=
  let (result, buffer) := s.buffer.publish event
  let s := { s with buffer := buffer }
  match result with
  | .error (.validation _ _) => s.leave x (crashed "native worker emitted an invalid inference event")
  | .error (.valueError message) => s.leave x (.other (py message))
  | .ok result =>
    if result = .SLOW_CONSUMER ∧ ¬ x.slowConsumer then
      { s with request := .stopping { x with slowConsumer := true } frame }
    else { s with request := .settling x frame }

/-- The next step of `execute`. -/
def requestStep [Floats F] (contract : ContractAST) (identity : Identity F) (s : Stream F)
    (answer : RequestAnswer F) : Stream F :=
  let x₀ : Execution F := .start s.record.requestId s.record.attemptId
  match s.request with
  | .unstarted => s
  | .entering =>
    if s.record.cancelEvent then
      { s with request := .finished x₀ (.error (.worker
          ⟨.cancelled, py "request cancelled before native send", []⟩)) false }
    else { s with request := .starting }
  | .starting =>
    match answer.start with
    | .error e => { s with request := .finished x₀ (.error e) false }
    | .ok _ => { s with request := .sending }
  | .sending =>
    if answer.writes then { s with request := .sent x₀ }
    else s.leave x₀ (crashed "worker control pipe write failed")
  | .sent x => s.sendCancel x answer.writes .polling
  | .polling x => s.sendCancel x answer.writes .receiving
  | .receiving x =>
    match answer.polled with
    | .empty true => { s with request := .polling x }
    | .empty false => s.leave x (crashed "worker generation changed before completion")
    | .closed => s.leave x (crashed "worker pipe closed before completion")
    | .line text =>
      match takeLine x text with
      | .raised e => s.leave x e
      | .event x frame event => { s with request := .publishing x frame event }
      | .plain x frame => { s with request := .settling x frame }
  | .publishing x frame event => s.publishStep x frame event
  | .stopping x frame =>
    { s with record := { s.record with cancelEvent := true } }.sendCancel x answer.writes
      fun x => .settling x frame
  | .settling x frame =>
    match settle contract identity x frame answer.extra answer.elapsed with
    | .finished outcome recovery => { s with request := .finished x outcome recovery }
    | .next x => { s with request := .polling x }
  | .finished _ _ _ => s

/-- `stored = error if isinstance(error, WorkerError) else "worker_crashed"` -/
def storedError : Raised → RecordError
  | .worker error => .error error
  | _ => .code "worker_crashed"

/-- The transition the dispatcher chooses for a thread that has ended. -/
def ending (cancelled : Bool) (outcome : Except Raised (GenerateResult F)) : DispatcherThread F :=
  let other : DispatcherThread F :=
    if cancelled then .ending .CANCELLED none (some (.code "cancelled"))
    else
      match outcome with
      | .error e => .ending .FAILED none (some (storedError e))
      | .ok result => .ending .COMPLETED (some result) none
  match outcome with
  | .error (.worker error) =>
    if error.code = .slow_consumer then .ending .FAILED none (some (.error error)) else other
  | _ => other

/-- The next step of `_run`. -/
def dispatcherStep (s : Stream F) (answer : DispatcherAnswer) : Stream F :=
  match s.dispatcher with
  | .pending =>
    match s.record.compareAndTransition .QUEUED .RUNNING
        (.ok (answer.now < s.record.queueDeadline)) none none (.ok answer.now) with
    | (.ok true, record) =>
      { s with record := record, request := .entering, dispatcher := .watching }
    | (_, record) => { s with record := record, dispatcher := .expiring }
  | .expiring =>
    { s with
      record := s.record.moved .QUEUED .TIMED_OUT none (some (.code "queue_timeout")) answer.now
      dispatcher := .closing }
  | .watching =>
    match s.request with
    | .finished _ _ _ => { s with dispatcher := .left }
    | _ =>
      if answer.late ∨ s.record.lifecycle.IsTerminal then { s with dispatcher := .left } else s
  | .left =>
    if s.record.lifecycle.IsTerminal then { s with dispatcher := .closing }
    else { s with dispatcher := .deciding }
  | .deciding =>
    match s.request with
    | .finished _ outcome _ => { s with dispatcher := ending s.record.cancelEvent outcome }
    | _ =>
      { s with record := { s.record with cancelEvent := true }, dispatcher := .timingOut }
  | .timingOut =>
    { s with
      record := s.record.moved .RUNNING .TIMED_OUT none (some (.code "deadline_exceeded")) answer.now
      dispatcher := .closing }
  | .ending target result error =>
    { s with
      record := s.record.moved .RUNNING target result error answer.now
      dispatcher := .closing }
  | .closing => { s with buffer := s.buffer.close, dispatcher := .done }
  | .done => s

/-- The next step of the handler. -/
def handlerStep (s : Stream F) (answer : HandlerAnswer) : Stream F :=
  match s.handler with
  | .preparing => { s with handler := if answer.connected then .checking else .stopped [] }
  | .checking => { s with handler := if answer.connected then .reading else .stopped [] }
  | .reading =>
    { s with handler := if s.record.lifecycle.IsTerminal then .draining else .getting }
  | .getting =>
    match s.buffer.get (some (1 / 50)) answer.elapsed with
    | (.ok (.event event), buffer) => { s with buffer := buffer, handler := .writing [event] false }
    | (.ok .waits, _) => s
    | (.ok .nothing, _) => { s with handler := .checking }
    | (.error _, _) => { s with handler := .stopped [] }
  | .draining =>
    { s with buffer := s.buffer.drain.2, handler := .writing s.buffer.drain.1 true }
  | .writing [] last => { s with handler := if last then .returned else .checking }
  | .writing (event :: rest) last =>
    if answer.connected then
      { s with written := s.written ++ [event], handler := .writing rest last }
    else { s with handler := .stopped (event :: rest) }
  | .returned => s
  | .stopped _ => s

def step [Floats F] (contract : ContractAST) (identity : Identity F) (s : Stream F) :
    Action F → Stream F
  | .request answer => s.requestStep contract identity answer
  | .dispatcher answer => s.dispatcherStep answer
  | .handler answer => s.handlerStep answer
  | .cancel now => { s with record := (s.record.cancel (.ok now)).2 }
  | .cancelEvent => { s with record := { s.record with cancelEvent := true } }
  | .expire now =>
    { s with
      record := s.record.moved .QUEUED .TIMED_OUT none (some (.code "queue_timeout")) now }
  | .shutdown now =>
    { s with record := s.record.moved .RUNNING .CANCELLED none (some (.code "shutdown")) now }
  | .closeTerminal => if s.record.lifecycle.IsTerminal then { s with buffer := s.buffer.close } else s

/-- A request that has just been queued. -/
def start (requestId attemptId : PyStr) (maxEvents maxBytes : ℕ)
    (queueDeadline executionTimeout : ℚ) : Stream F where
  record :=
    { requestId := requestId
      attemptId := attemptId
      queueDeadline := queueDeadline
      executionTimeout := executionTimeout
      lifecycle := .QUEUED }
  buffer :=
    { requestId := requestId
      attemptId := attemptId
      maxEvents := maxEvents
      maxBytes := maxBytes }

def run [Floats F] (contract : ContractAST) (identity : Identity F) (s : Stream F)
    (actions : List (Action F)) : Stream F := actions.foldl (step contract identity) s

end Stream

end Worker
