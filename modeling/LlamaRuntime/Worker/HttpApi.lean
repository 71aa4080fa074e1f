/-
The handler of a request for a generation.

`doPost` follows the source from where `ArtifactStore.begin` has returned.  Other threads
move the record meanwhile: a transition assigns the lifecycle first, then the result and the
error, and the handler reads the record without its condition.

* `finalizeArtifact`, `settleRequest` — how an attempt is ended;
* `postBody`, `handleRaised` — the `try` block and its `except` clauses;
* `server` — the handler among the other threads.

The clock is valid, and what is raised is an `Exception`.  A loop is cut after a number of
rounds that is not bounded; the thread is then waiting.
-/
import LlamaRuntime.Concurrency.Thread
import LlamaRuntime.Worker.RequestRegistry
import LlamaRuntime.Worker.Artifacts
import LlamaRuntime.Worker.Events

namespace Worker

/-- `ERROR_HTTP_STATUS` -/
def ErrorCode.httpStatus : ErrorCode → ℕ
  | .invalid_request => 400
  | .request_too_large => 413
  | .unsupported_contract | .context_overflow | .protocol_violation | .output_invalid => 422
  | .queue_full | .slow_consumer => 429
  | .queue_timeout => 408
  | .cancelled => 409
  | .deadline_exceeded => 504
  | .decode_failed | .worker_crashed => 502
  | .worker_not_ready | .shutdown => 503

namespace HttpApi

/-- What is raised in the handler. -/
inductive HandlerException where
  /-- `_ClientDisconnected` -/
  | clientDisconnected
  | worker (error : WorkerError)
  /-- `TimeoutError`, which `socket.timeout` is -/
  | timeout
  /-- `BrokenPipeError`, `ConnectionResetError` or `ConnectionAbortedError` -/
  | broken
  /-- another `OSError` -/
  | osError
  | exception
  deriving DecidableEq

def HandlerException.isOsError : HandlerException → Bool
  | .worker _ | .exception => false
  | _ => true

/-- How a thread leaves its course. -/
inductive Ending where
  | raised (exc : HandlerException)
  /-- it is still in a loop -/
  | waiting
  deriving DecidableEq

/-- What is written to `result.json`, for a runtime whose identity is an `I`. -/
inductive Payload (R I : Type) where
  | result (result : Option R)
  | failure (requestId attemptId : PyStr) (termination : Lifecycle) (model : I)
      (error : WorkerError)
  deriving DecidableEq

structure AttemptArtifact (P : Type) where
  path : ArtifactPath
  maxBytes : ℕ
  written : ℕ := 0
  /-- `_terminal` -/
  terminal : Bool := false
  /-- `manifest.json` exists -/
  manifest : Bool := false
  /-- what `result.json` has been written with, each time -/
  results : List P := []

/-- What is written to the client. -/
inductive Sent (R I : Type) where
  | headers
  | queued (requestId attemptId : PyStr)
  | event (event : InferenceEvent)
  | final (name : PyStr) (payload : Payload R I)
  | json (status : ℕ) (payload : Payload R I)
  | sseError (error : WorkerError)
  | jsonError (error : WorkerError)

structure PostState (R I : Type) where
  record : RequestRecord R
  /-- the result and the error a transition has still to assign -/
  pending : Option (Option R × Option RecordError) := none
  /-- `ArtifactStore.active` -/
  active : Finset ArtifactPath
  artifact : AttemptArtifact (Payload R I)
  /-- the calls of `finish` -/
  finishes : ℕ := 0
  artifactFinished : Bool := false
  streamStarted : Bool := false
  closeConnection : Bool := false
  sent : List (Sent R I) := []
  /-- the calls of `_record_response` -/
  responses : ℕ := 0

/-- What the world answers to an action. -/
structure Answer (I : Type) where
  /-- a call raises -/
  raises : Option HandlerException := none
  /-- the write raises -/
  writes : Option HandlerException := none
  /-- the length of the encoding -/
  size : ℕ := 0
  disconnected : Bool := false
  /-- the registry still has the record -/
  registered : Bool := true
  /-- what the event buffer holds -/
  events : List InferenceEvent := []
  rounds : ℕ := 0
  identity : I
  now : ℚ := 0

abbrev Handler (R I α : Type) := Thread (PostState R I) (Answer I) Ending α

variable {R I : Type}

/-! ### The record and the other threads -/

namespace PostState

/-- The first half of a transition of another thread. -/
def beginTransition (target : Lifecycle) (result : Option R) (error : Option RecordError)
    (s : PostState R I) : PostState R I :=
  if s.pending.isSome ∨ s.record.lifecycle.IsTerminal ∨ target ∉ s.record.lifecycle.allowed then s
  else
    { s with
      record := { s.record with lifecycle := target }
      pending := some (result, error) }

/-- The second half: who enters the condition of the record finds the transition over. -/
def assign (now : ℚ) (s : PostState R I) : PostState R I :=
  match s.pending with
  | none => s
  | some (result, error) =>
    { s with
      record := { s.record with
        timestamps := s.record.timestamps.set s.record.lifecycle now
        result := result
        error := error }
      pending := none }

end PostState

/-- What the other threads may do. -/
inductive OtherMove (R : Type) where
  | transition (target : Lifecycle) (result : Option R) (error : Option RecordError)
  | assign (now : ℚ)
  /-- other attempts begin and finish -/
  | attempts (active : Finset ArtifactPath)

def otherStep : OtherMove R → PostState R I → PostState R I
  | .transition target result error, s => s.beginTransition target result error
  | .assign now, s => s.assign now
  | .attempts active, s =>
    { s with
      active :=
        if s.artifact.path ∈ s.active then insert s.artifact.path active
        else active.erase s.artifact.path }

/-! ### The artifact -/

namespace AttemptArtifact

variable {P : Type}

def quotaExceeded : HandlerException :=
  .worker ⟨.request_too_large, py "artifact byte quota exceeded", []⟩

/-- `_write_new`; `begun` is what a write that fails leaves. -/
def writeNew (exists' : AttemptArtifact P → Bool) (begun wrote : AttemptArtifact P → AttemptArtifact P)
    (answer : Answer I) (a : AttemptArtifact P) : Except HandlerException Unit × AttemptArtifact P :=
  -- `FileExistsError`
  if exists' a then (.error .osError, a)
  else
    match answer.raises with
    | some exc => (.error exc, a)
    | none =>
      if a.maxBytes < a.written + answer.size then (.error quotaExceeded, a)
      else
        match answer.writes with
        | some exc => (.error exc, begun a)
        | none => (.ok (), { wrote a with written := a.written + answer.size })

/-- `write_manifest` -/
def writeManifest (answer : Answer I) (a : AttemptArtifact P) :
    Except HandlerException Unit × AttemptArtifact P :=
  -- the hashes
  match answer.raises with
  | some exc => (.error exc, a)
  | none =>
    a.writeNew (fun a => a.manifest) (fun a => { a with manifest := true })
      (fun a => { a with manifest := true }) answer

/-- `write_result`; the file is replaced at once, or not at all. -/
def writeResult (payload : P) (answer : Answer I) (a : AttemptArtifact P) :
    Except HandlerException Unit × AttemptArtifact P :=
  if a.terminal then (.error .exception, a)
  else
    match a.writeNew (fun a => !a.results.isEmpty) id
        (fun a => { a with results := a.results ++ [payload] }) answer with
    | (.error exc, a) => (.error exc, a)
    | (.ok _, a) => (.ok (), { a with terminal := true })

end AttemptArtifact

/-! ### Calls -/

/-- An action with the answer it gets. -/
def ask {α : Type} (f : Answer I → α) : Handler R I α := .atomic fun s i => (.ok (f i), s)

/-- A call that may raise, and changes nothing the handler looks at. -/
def foreign : Handler R I Unit := .atomic fun s i =>
  match i.raises with
  | some exc => (.error (.raised exc), s)
  | none => (.ok (), s)

def readLifecycle : Handler R I Lifecycle := .read fun s => s.record.lifecycle

/-- A method of the artifact. -/
def onArtifact (f : Answer I → AttemptArtifact (Payload R I) →
    Except HandlerException Unit × AttemptArtifact (Payload R I)) : Handler R I Unit :=
  .atomic fun s i =>
    match f i s.artifact with
    | (.error exc, a) => (.error (.raised exc), { s with artifact := a })
    | (.ok _, a) => (.ok (), { s with artifact := a })

/-- What is written is encoded first; `convert` is what the write makes of its exception. -/
def send (convert : HandlerException → HandlerException) (message : Sent R I) : Handler R I Unit :=
  .atomic fun s i =>
    match i.raises with
    | some exc => (.error (.raised exc), s)
    | none =>
      match i.writes with
      | some exc => (.error (.raised (convert exc)), s)
      | none => (.ok (), { s with sent := s.sent ++ [message] })

/-- A write to a stream takes an `OSError` for the client's leave. -/
def asDisconnect (exc : HandlerException) : HandlerException :=
  if exc.isOsError then .clientDisconnected else exc

/-- `_json` -/
def json (message : Sent R I) : Handler R I Unit := send id message

/-- `_write_sse` -/
def writeSse (message : Sent R I) : Handler R I Unit := send asDisconnect message

/-- `_start_sse` -/
def startSse : Handler R I Unit := do
  send asDisconnect .headers
  .modify fun s => { s with closeConnection := true }

/-- `Dispatcher.cancel`; the backend may raise when it is told to cancel. -/
def dispatcherCancel : Handler R I Unit := .atomic fun s i =>
  let s := s.assign i.now
  if !i.registered then (.ok (), s)
  else
    let s := { s with record := (s.record.cancel (.ok i.now)).2 }
    if s.record.lifecycle = .RUNNING then
      match i.raises with
      | some exc => (.error (.raised exc), s)
      | none => (.ok (), s)
    else (.ok (), s)

/-- `record.lifecycle`, under the condition of the record. -/
def lockedLifecycle : Handler R I Lifecycle := .atomic fun s i =>
  let s := s.assign i.now
  (.ok s.record.lifecycle, s)

/-- The loop of `Dispatcher.wait`. -/
def awaitTerminal : ℕ → Handler R I Unit
  | 0 => .raise .waiting
  | n + 1 => do
    let lifecycle ← lockedLifecycle
    if lifecycle.IsTerminal then pure () else awaitTerminal n

/-- `Dispatcher.wait` -/
def dispatcherWait : Handler R I Unit := do
  let rounds ← ask Answer.rounds
  awaitTerminal rounds

/-- The loop of `_wait_non_stream`. -/
def awaitRecord : ℕ → Handler R I Unit
  | 0 => .raise .waiting
  | n + 1 => do
    let lifecycle ← readLifecycle
    if lifecycle.IsTerminal then pure ()
    else do
      let gone ← ask Answer.disconnected
      if gone then .raise (.raised .clientDisconnected)
      else do
        -- `wait` with a timeout; what it finds is read again
        let _ ← lockedLifecycle
        awaitRecord n

/-- `_wait_non_stream` -/
def waitNonStream : Handler R I Unit := do
  let rounds ← ask Answer.rounds
  awaitRecord rounds

/-- `_write_inference_event` -/
def writeEvent (event : InferenceEvent) : Handler R I Unit := writeSse (.event event)

/-- The loop of `_drain_stream`. -/
def drainEvents : ℕ → Handler R I Unit
  | 0 => .raise .waiting
  | n + 1 => do
    let gone ← ask Answer.disconnected
    if gone then .raise (.raised .clientDisconnected)
    else do
      let lifecycle ← readLifecycle
      if lifecycle.IsTerminal then do
        let events ← ask Answer.events
        events.forM writeEvent
      else do
        let event ← ask fun i => i.events.head?.toList
        event.forM writeEvent
        drainEvents n

/-- `_drain_stream`; `buffered` says that the sink is a `BoundedRequestEventBuffer`. -/
def drainStream (buffered : Bool) : Handler R I Unit :=
  if buffered then do
    let rounds ← ask Answer.rounds
    drainEvents rounds
  else .raise (.raised .exception)

/-! ### The response -/

/-- The error of a record that is not completed, whose `error` is no `WorkerError`. -/
def codeError (error : Option RecordError) : WorkerError :=
  match error with
  | some (.error _) => ⟨.worker_crashed, py "worker request failed", []⟩
  | none | some (.code "") | some (.code "worker_crashed") =>
    ⟨.worker_crashed, py "worker crashed", []⟩
  | some (.code "queue_timeout") => ⟨.queue_timeout, py "queue deadline exceeded", []⟩
  | some (.code "deadline_exceeded") => ⟨.deadline_exceeded, py "execution deadline exceeded", []⟩
  | some (.code "cancelled") => ⟨.cancelled, py "request cancelled", []⟩
  | some (.code "decode_failed") => ⟨.decode_failed, py "decode failed", []⟩
  | some (.code "context_overflow") => ⟨.context_overflow, py "context overflow", []⟩
  | some (.code "protocol_violation") => ⟨.protocol_violation, py "protocol violation", []⟩
  | some (.code "output_invalid") => ⟨.output_invalid, py "output invalid", []⟩
  | some (.code "slow_consumer") => ⟨.slow_consumer, py "slow consumer", []⟩
  | some (.code "shutdown") => ⟨.shutdown, py "shutdown", []⟩
  | some (.code "queue_full") => ⟨.queue_full, py "queue full", []⟩
  | some (.code _) => ⟨.worker_crashed, py "worker request failed", []⟩

def readError : Handler R I (Option RecordError) := .read fun s => s.record.error

/-- The error the response reports; `record.error` is read twice. -/
def reportedError : Handler R I WorkerError := do
  let error ← readError
  let again ← readError
  match error, again with
  | some (.error _), some (.error error) => pure error
  -- no `as_dict`
  | some (.error _), _ => .raise (.raised .exception)
  | _, _ => pure (codeError again)

/-- The first test of `_record_response`. -/
def beginResponse : Handler R I Lifecycle := .atomic fun s _ =>
  (.ok s.record.lifecycle, { s with responses := s.responses + 1 })

def completedResponse : Handler R I (Payload R I × ℕ) := do
  let result ← .read fun s => s.record.result
  -- `as_dict`
  foreign
  pure (.result result, 200)

def failedResponse : Handler R I (Payload R I × ℕ) := do
  let error ← reportedError
  let ids ← .read fun s => (s.record.requestId, s.record.attemptId)
  let lifecycle ← readLifecycle
  -- the worker is asked
  foreign
  let identity ← ask Answer.identity
  pure (.failure ids.1 ids.2 lifecycle identity error, error.code.httpStatus)

/-- `_record_response` -/
def recordResponse : Handler R I (Payload R I × ℕ) := do
  let lifecycle ← beginResponse
  if ¬ lifecycle.IsTerminal then .raise (.raised .exception)
  else do
    let lifecycle ← readLifecycle
    if lifecycle = .COMPLETED then completedResponse else failedResponse

/-! ### The end of an attempt -/

/-- `ArtifactStore.finish` -/
def finish : Handler R I Unit := .modify fun s =>
  { s with active := s.active.erase s.artifact.path, finishes := s.finishes + 1 }

/-- `try: … finally: …` -/
def andFinally {α : Type} (t : Handler R I α) (last : Handler R I Unit) : Handler R I α := do
  let a ← t.tryCatch fun e => do
    last
    .raise e
  last
  pure a

/-- `_finalize_artifact` -/
def finalizeArtifact : Handler R I (Payload R I × ℕ) :=
  andFinally
    (do
      let response ← recordResponse
      onArtifact fun i a => a.writeResult response.1 i
      pure response)
    finish

/-- `try: … except Exception: pass` -/
def swallow {α : Type} (t : Handler R I α) : Handler R I Unit :=
  (do
    let _ ← t
    pure ()).tryCatch fun
    | .raised _ => pure ()
    | .waiting => .raise .waiting

/-- A record that has not ended is cancelled, and waited for. -/
def endRecord : Handler R I Unit := do
  let lifecycle ← readLifecycle
  if lifecycle.IsTerminal then pure ()
  else do
    swallow dispatcherCancel
    dispatcherWait

/-- `_settle_request` -/
def settleRequest (artifactFinished disconnected : Bool) : Handler R I Bool := do
  .modify fun s => { s with closeConnection := s.closeConnection || disconnected }
  endRecord
  if artifactFinished then pure true
  else do
    swallow finalizeArtifact
    pure true

/-- `artifact_finished = self._settle_request(…)` -/
def settle (disconnected : Bool) : Handler R I Unit := do
  let finished ← .read fun s => s.artifactFinished
  let finished ← settleRequest finished disconnected
  .modify fun s => { s with artifactFinished := finished }

/-! ### The request -/

/-- The events, and the wait for the end. -/
def follow (streaming buffered : Bool) : Handler R I Unit :=
  if streaming then do
    startSse
    .modify fun s => { s with streamStarted := true }
    let ids ← .read fun s => (s.record.requestId, s.record.attemptId)
    writeSse (.queued ids.1 ids.2)
    drainStream buffered
  else waitNonStream

/-- The final response. -/
def respond (streaming : Bool) (response : Payload R I × ℕ) : Handler R I Unit :=
  if streaming then do
    let lifecycle ← readLifecycle
    writeSse (.final (if lifecycle = .COMPLETED then py "result" else py "error") response.1)
  else json (.json response.2 response.1)

/-- The `try` block of `do_POST`, from `write_manifest` on. -/
def postBody (streaming buffered : Bool) : Handler R I Unit := do
  onArtifact fun i a => a.writeManifest i
  follow streaming buffered
  .modify fun s => { s with artifactFinished := true }
  let response ← finalizeArtifact
  respond streaming response

/-- The error is written; `again` is run if the client of a stream is gone. -/
def report (error : WorkerError) (again : Handler R I Unit) : Handler R I Unit := do
  let started ← .read fun s => s.streamStarted
  if started then
    (writeSse (.sseError error)).tryCatch fun
      | .raised .clientDisconnected => again
      | e => .raise e
  else json (.jsonError error)

/-- The `except` clauses of `do_POST`, of a request that has a record. -/
def handleRaised : Ending → Handler R I Unit
  | .waiting => .raise .waiting
  | .raised .clientDisconnected => settle true
  | .raised (.worker exc) => do
    settle false
    report exc (settle true)
  | .raised .timeout => settle true
  | .raised .broken => settle true
  | .raised _ => do
    settle false
    report ⟨.worker_crashed, py "internal request handling failure", []⟩ do
      let finished ← .read fun s => s.artifactFinished
      let _ ← settleRequest finished true
      pure ()

/-- `do_POST` -/
def doPost (streaming buffered : Bool) : Handler R I Unit :=
  (postBody streaming buffered).tryCatch handleRaised

/-- The handler among the other threads: what it raises ends it. -/
def server (R I : Type) (streaming buffered : Bool) :
    System (PostState R I) (Answer I) Ending (OtherMove R) where
  body := do
    doPost streaming buffered
    pure false
  handler
    | .raised _ => pure ()
    | .waiting => .raise .waiting
  client := otherStep

end HttpApi

end Worker
