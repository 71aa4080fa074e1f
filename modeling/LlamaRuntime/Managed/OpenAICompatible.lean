/-
The adapter for servers that own their scheduler.

A call of `generate` takes a slot of the adapter, enters its id, asks the transport for a
completion and reads the answer; then it gives both back.  Every call has a thread of its own:
`callStep` is what a call does before another may come between.

* `readCompletion` — what is accepted of an answer;
* `result` — what a call makes of the answer;
* `callStep` — the next step of a call;
* `run` — an interleaving of calls.

What the clock, the sink and the transport do during a call is given with the call.
-/
import LlamaRuntime.Inference.Scheduler
import LlamaRuntime.Worker.Preflight

namespace Managed

open Json Worker
open Inference (ClockReading SchedulerEvent SchedulerEventKind SchedulingMetadata)

variable {F : Type}

structure ManagedBackendError where
  code : PyStr
  detail : PyStr
  retryable : Bool
  deriving DecidableEq

/-- An adapter: its profile, its capabilities and its limits. -/
structure ManagedBackend (F : Type) where
  backendId : PyStr
  endpoint : PyStr
  responseFormatJsonSchema : Bool
  models : List PyStr
  maxContextTokens : ℕ
  maxOutputTokens : ℕ
  maxConcurrentRequests : ℕ
  requestTimeout : ℚ
  /-- `str` of a value that is no string -/
  text : Value F → PyStr
  output_pos : 0 < maxOutputTokens
  output_le : maxOutputTokens ≤ maxContextTokens
  slots_pos : 0 < maxConcurrentRequests
  timeout_pos : 0 < requestTimeout

/-- The readings of the clock a call makes. -/
inductive ClockRead where
  | admitted
  | started
  | admittedEvent
  | dispatch
  | ended
  | terminalEvent

/-- How `post_json` ends. -/
inductive TransportAnswer (F : Type) where
  | returns (raw : Value F)
  | fails (error : ManagedBackendError)
  | raises (exc : PyException)

/-- The arguments of a call, with what the clock, the sink and the transport do during it. -/
structure GenerateInputs (F : Type) where
  request : Worker.PreflightedRequest F
  scheduling : SchedulingMetadata
  clock : ClockRead → ClockReading
  /-- what the sink raises when it is handed the first event, and the last -/
  admittedSink : Option PyException := none
  terminalSink : Option PyException := none
  /-- `post_json`: the path, the payload, the timeout and the id -/
  transport : PyStr → Value F → ℚ → PyStr → TransportAnswer F

def GenerateInputs.requestId (inputs : GenerateInputs F) : PyStr := inputs.scheduling.requestId

/-- `_now` -/
def now : ClockReading → Except PyException ℚ
  | .finite t =>
    if t < 0 then
      .error (.builtin "RuntimeError" "managed backend clock must be finite and non-negative")
    else .ok t
  | .nonfinite =>
    .error (.builtin "RuntimeError" "managed backend clock must be finite and non-negative")
  | .raises exc => .error exc

/-- The least quotient that is rounded to no float. -/
@[irreducible] def floatOverflow : ℕ := 2 ^ 1024 - 2 ^ 970

/-- `ms / 1000`, of integers -/
def seconds (ms : ℤ) : Except PyException ℚ :=
  if floatOverflow * 1000 ≤ ms.natAbs then
    .error (.builtin "OverflowError" "integer division result too large for a float")
  else .ok (ms / 1000)

/-! ### The answer -/

/-- What `_result` raises while it reads the answer. -/
inductive ResponseError where
  | key (name : PyStr)
  | type (name : PyStr)
  | value (name : PyStr)
  | worker (error : WorkerError)
  deriving DecidableEq

/-- `str(exc)` -/
def ResponseError.text : ResponseError → PyStr
  | .key name => py "'" ++ name ++ py "'"
  | .type name => name
  | .value name => name
  | .worker error => error.message

/-- What is read of an answer. -/
structure Completion (F : Type) where
  items : List (PyStr × Value F)
  output : Value F
  promptTokens : ℕ
  completionTokens : ℕ

/-- The answer, and the content of its only choice. -/
def readContent (raw : Value F) : Except ResponseError (List (PyStr × Value F) × PyStr) :=
  match raw with
  | .dict items =>
    match Items.lookup (py "choices") items with
    | none => .error (.key (py "choices"))
    | some (.list [.dict choice]) =>
      match Items.lookup (py "message") choice with
      | some (.dict message) =>
        match Items.lookup (py "content") message with
        | some (.str content) => .ok (items, content)
        | _ => .error (.type (py "content"))
      | _ => .error (.type (py "message"))
    | some (.list [_]) => .error (.type (py "message"))
    | some _ => .error (.type (py "choices"))
  | _ => .error (.type (py "root"))

/-- `_usage_count` -/
def usageCount (usage : List (PyStr × Value F)) (name : String) : Except ResponseError ℕ :=
  match (Items.lookup (py name) usage).getD (.int 0) with
  | .int n => if n < 0 then .error (.type (py name)) else .ok n.toNat
  | _ => .error (.type (py name))

/-- `raw.get("usage", {})` -/
def readUsage (items : List (PyStr × Value F)) : Except ResponseError (List (PyStr × Value F)) :=
  match (Items.lookup (py "usage") items).getD (.dict []) with
  | .dict usage => .ok usage
  | _ => .error (.type (py "usage"))

variable [Floats F]

/-- `loads` of the content -/
def readOutput (content : PyStr) : Except ResponseError (Value F) :=
  match Worker.loads (.str content) with
  | .error error => .error (.worker error)
  | .ok output => .ok output

/-- The body of the `try` of `_result`. -/
def readCompletion (contract : ContractAST) (raw : Value F) :
    Except ResponseError (Completion F) := do
  let (items, content) ← readContent raw
  let output ← readOutput content
  if validateOutput output contract ≠ [] then .error (.value (py "contract"))
  let usage ← readUsage items
  let promptTokens ← usageCount usage "prompt_tokens"
  let completionTokens ← usageCount usage "completion_tokens"
  .ok ⟨items, output, promptTokens, completionTokens⟩

/-- What stands for a result or an event when a step raises. -/
inductive Failure where
  | managed (error : ManagedBackendError)
  | raised (exc : PyException)
  deriving DecidableEq

structure Usage where
  promptTokens : ℕ
  reasoningTokens : ℕ := 0
  finalTokens : ℕ
  sampledTokens : ℕ
  cachedPromptTokens : ℕ := 0
  cacheHit : Bool := false
  contextLimit : ℕ
  contextHeadroom : ℤ

structure Timing where
  queueMs : ℚ
  promptDecodeMs : ℚ := 0
  generationMs : ℚ
  totalMs : ℚ

structure ModelIdentity where
  id : PyStr
  backend : PyStr
  providerFingerprint : Option PyStr

structure GenerateResult (F : Type) where
  requestId : PyStr
  attemptId : PyStr
  termination : PyStr := py "completed"
  protocolValid : Bool := true
  outputValid : Bool := true
  output : Value F
  usage : Usage
  timing : Timing
  model : ModelIdentity

namespace ManagedBackend

variable (b : ManagedBackend F)

/-- `str(value)` -/
def str : Value F → Except PyException PyStr
  | .str s => .ok s
  | v =>
    if v.all Value.shortNumber then .ok (b.text v)
    else .error (.builtin "ValueError" "Exceeds the limit (4300 digits) for integer string conversion")

/-- `str(raw.get("id") or ...)` -/
def attemptId (inputs : GenerateInputs F) (items : List (PyStr × Value F)) :
    Except PyException PyStr :=
  let id := (Items.lookup (py "id") items).getD .null
  if id.truthy then b.str id else .ok (py "managed-" ++ inputs.requestId)

/-- The model the answer names, or the one of the request. -/
def answeredModel (inputs : GenerateInputs F) (items : List (PyStr × Value F)) : PyStr :=
  match Items.lookup (py "model") items with
  | some (.str model) => if model = [] then inputs.request.request.modelId else model
  | _ => inputs.request.request.modelId

def providerFingerprint (items : List (PyStr × Value F)) : Option PyStr :=
  match Items.lookup (py "system_fingerprint") items with
  | some (.str identity) => some identity
  | _ => none

def usage (inputs : GenerateInputs F) (completion : Completion F) : Usage where
  promptTokens := completion.promptTokens
  finalTokens := completion.completionTokens
  sampledTokens := completion.completionTokens
  contextLimit := b.maxContextTokens
  contextHeadroom := max 0
    (b.maxContextTokens - completion.promptTokens - inputs.request.request.limits.totalTokens)

def timing (admittedAt startedAt endedAt : ℚ) : Timing where
  queueMs := max 0 (startedAt - admittedAt) * 1000
  generationMs := max 0 (endedAt - startedAt) * 1000
  totalMs := max 0 (endedAt - admittedAt) * 1000

/-- `_result` -/
def result (inputs : GenerateInputs F) (admittedAt startedAt : ℚ) (raw : Value F) :
    Except Failure (GenerateResult F) :=
  match readCompletion inputs.request.contract raw with
  | .error (.worker _) => .error (.raised (.builtin "WorkerError" ""))
  | .error error =>
    .error (.managed ⟨py "provider_protocol_error",
      py "invalid completion response: " ++ error.text, false⟩)
  | .ok completion =>
    match now (inputs.clock .ended) with
    | .error exc => .error (.raised exc)
    | .ok endedAt =>
      match b.attemptId inputs completion.items with
      | .error exc => .error (.raised exc)
      | .ok attemptId => .ok
        { requestId := inputs.requestId
          attemptId := attemptId
          output := completion.output
          usage := b.usage inputs completion
          timing := timing admittedAt startedAt endedAt
          model :=
            { id := answeredModel inputs completion.items
              backend := b.backendId
              providerFingerprint := providerFingerprint completion.items } }

end ManagedBackend

/-! ### A call -/

/-- How a call ends. -/
inductive Outcome (F : Type) where
  | returned (result : GenerateResult F)
  | raised (error : ManagedBackendError)
  /-- by any other exception -/
  | failed (exc : PyException)

/-- Where a call stands. -/
inductive Phase (F : Type) where
  | entered
  /-- in `acquire` of the semaphore -/
  | queued (admittedAt queueTimeout : ℚ)
  | acquired (admittedAt : ℚ)
  | started (admittedAt startedAt : ℚ)
  /-- the id has been entered, and `ADMITTED` is to be published -/
  | registered (admittedAt startedAt : ℚ)
  /-- at the head of the `try` -/
  | admitted (admittedAt startedAt : ℚ)
  /-- in `post_json` -/
  | dispatched (admittedAt startedAt timeout : ℚ)
  /-- the last event is to be published -/
  | settled (outcome : Except ManagedBackendError (GenerateResult F))
  /-- in the `finally` -/
  | leaving (outcome : Outcome F)
  | releasing (outcome : Outcome F)
  | exited (outcome : Outcome F)

structure Call (F : Type) where
  inputs : GenerateInputs F
  phase : Phase F := .entered
  /-- the events the sink has been handed -/
  published : List SchedulerEvent := []
  /-- what the transport has returned -/
  response : Option (Value F) := none

/-- What the calls share: the value of `_capacity`, `_active` and `_event_failures`. -/
structure Slots where
  free : ℕ
  active : List PyStr := []
  eventFailures : ℕ := 0

/-- Building an event and handing it to the sink: what the sink is handed, and what is raised. -/
def hand (kind : SchedulerEventKind) (requestId : PyStr) (errorCode : Option PyStr)
    (clock : ClockReading) (sink : Option PyException) : List SchedulerEvent × Option PyException :=
  match now clock with
  | .error exc => ([], some exc)
  | .ok t =>
    match SchedulerEvent.make ⟨kind, requestId, t, none, none, errorCode⟩ with
    | .error _ => ([], some (.builtin "ContractValidationError" "scheduler event"))
    | .ok event => ([event], sink)

/-- `_publish`; what it raises itself is no `Exception`. -/
def publish (kind : SchedulerEventKind) (errorCode : Option PyStr) (clock : ClockReading)
    (sink : Option PyException) (c : Call F) (s : Slots) : Option PyException × Call F × Slots :=
  let (events, raised) := hand kind c.inputs.requestId errorCode clock sink
  let c := { c with published := c.published ++ events }
  match raised with
  | none => (none, c, s)
  | some exc =>
    if exc.isException then (none, c, { s with eventFailures := s.eventFailures + 1 })
    else (some exc, c, s)

/-- The clauses of the `try`. -/
def settle : Except Failure (GenerateResult F) → Phase F
  | .ok result => .settled (.ok result)
  | .error (.managed error) => .settled (.error error)
  | .error (.raised exc) =>
    if exc.isException then .settled (.error ⟨py "provider_adapter_failed", exc.typeName, false⟩)
    else .leaving (.failed exc)

/-- The kind and the error code of the last event. -/
def lastEvent : Except ManagedBackendError (GenerateResult F) → SchedulerEventKind × Option PyStr
  | .ok _ => (.REQUEST_COMPLETED, none)
  | .error error => (.REQUEST_FAILED, some error.code)

def Outcome.of : Except ManagedBackendError (GenerateResult F) → Outcome F
  | .ok result => .returned result
  | .error error => .raised error

/-- How the wait for a slot ends while none is free. -/
inductive QueueAnswer where
  | waits
  | expires
  | raises (exc : PyException)

namespace ManagedBackend

variable (b : ManagedBackend F)

/-- `_payload` -/
def payload (request : Worker.PreflightedRequest F) : Value F :=
  .dict ([(py "model", .str request.request.modelId),
      (py "messages", .list (request.modelMessages.map fun message =>
        .dict [(py "role", .str message.role), (py "content", .str message.content)])),
      (py "max_tokens", .int (min request.request.limits.totalTokens b.maxOutputTokens)),
      (py "stream", .bool false)] ++
    if b.responseFormatJsonSchema then
      [(py "response_format", .dict [(py "type", .str (py "json_schema")),
        (py "json_schema", .dict [(py "name", .str (py "model_worker_output")),
          (py "strict", .bool true), (py "schema", .dict request.request.outputContract.schema)])])]
    else [])

/-- The timeout of `acquire` -/
def queueTimeout (inputs : GenerateInputs F) (admittedAt : ℚ) : Except PyException ℚ :=
  match seconds inputs.request.request.limits.queueTimeoutMs with
  | .error exc => .error exc
  | .ok limit =>
    match inputs.scheduling.deadlineMonotonic with
    | none => .ok limit
    | some deadline => .ok (min limit (max 0 (deadline - admittedAt)))

/-- The test of the timeout before the dispatch. -/
def positive (timeout : ℚ) : Except Failure ℚ :=
  if timeout ≤ 0 then
    .error (.managed ⟨py "deadline_exceeded",
      py "request deadline elapsed before provider dispatch", false⟩)
  else .ok timeout

/-- The timeout of `post_json` -/
def dispatchTimeout (inputs : GenerateInputs F) : Except Failure ℚ :=
  match seconds inputs.request.request.limits.executionTimeoutMs with
  | .error exc => .error (.raised exc)
  | .ok limit =>
    match inputs.scheduling.deadlineMonotonic with
    | none => positive (min b.requestTimeout limit)
    | some deadline =>
      match now (inputs.clock .dispatch) with
      | .error exc => .error (.raised exc)
      | .ok t => positive (min (min b.requestTimeout limit) (deadline - t))

/-- The call is over with its slot given back. -/
def giveBack (outcome : Outcome F) (c : Call F) (s : Slots) : Call F × Slots :=
  if s.free < b.maxConcurrentRequests then
    ({ c with phase := .exited outcome }, { s with free := s.free + 1 })
  else
    ({ c with phase := .exited (.failed (.builtin "ValueError" "Semaphore released too many times")) },
      s)

/-- The checks of `generate`, up to `acquire`. -/
def enter (c : Call F) (s : Slots) : Call F × Slots :=
  if c.inputs.request.request.modelId ∉ b.models then
    ({ c with phase := .exited (.raised
      ⟨py "model_not_supported", c.inputs.request.request.modelId, false⟩) }, s)
  else
    match now (c.inputs.clock .admitted) with
    | .error exc => ({ c with phase := .exited (.failed exc) }, s)
    | .ok admittedAt =>
      match queueTimeout c.inputs admittedAt with
      | .error exc => ({ c with phase := .exited (.failed exc) }, s)
      | .ok timeout => ({ c with phase := .queued admittedAt timeout }, s)

/-- `acquire` -/
def acquire (admittedAt : ℚ) (queue : QueueAnswer) (c : Call F) (s : Slots) : Call F × Slots :=
  if 0 < s.free then
    ({ c with phase := .acquired admittedAt }, { s with free := s.free - 1 })
  else
    match queue with
    | .waits => (c, s)
    | .expires =>
      ({ c with phase := .exited (.raised ⟨py "backend_capacity_exhausted",
        py "managed backend concurrency limit reached", true⟩) }, s)
    | .raises exc => ({ c with phase := .exited (.failed exc) }, s)

/-- The first locked block. -/
def enterId (admittedAt startedAt : ℚ) (c : Call F) (s : Slots) : Call F × Slots :=
  if c.inputs.requestId ∈ s.active then
    b.giveBack (.raised ⟨py "duplicate_request", c.inputs.requestId, false⟩) c s
  else
    ({ c with phase := .registered admittedAt startedAt },
      { s with active := s.active ++ [c.inputs.requestId] })

def publishAdmitted (admittedAt startedAt : ℚ) (c : Call F) (s : Slots) : Call F × Slots :=
  match publish .ADMITTED none (c.inputs.clock .admittedEvent) c.inputs.admittedSink c s with
  | (none, c, s) => ({ c with phase := .admitted admittedAt startedAt }, s)
  | (some exc, c, s) => ({ c with phase := .exited (.failed exc) }, s)

/-- The answer of the transport is read. -/
def answer (admittedAt startedAt timeout : ℚ) (c : Call F) : Call F :=
  match c.inputs.transport b.endpoint (b.payload c.inputs.request) timeout c.inputs.requestId with
  | .returns raw =>
    { c with
      response := some raw
      phase := settle (b.result c.inputs admittedAt startedAt raw) }
  | .fails error => { c with phase := settle (.error (.managed error)) }
  | .raises exc => { c with phase := settle (.error (.raised exc)) }

def publishTerminal (outcome : Except ManagedBackendError (GenerateResult F)) (c : Call F)
    (s : Slots) : Call F × Slots :=
  match publish (lastEvent outcome).1 (lastEvent outcome).2 (c.inputs.clock .terminalEvent)
      c.inputs.terminalSink c s with
  | (none, c, s) => ({ c with phase := .leaving (.of outcome) }, s)
  | (some exc, c, s) => ({ c with phase := .leaving (.failed exc) }, s)

/-- The next step of a call. -/
def callStep (queue : QueueAnswer) (c : Call F) (s : Slots) : Call F × Slots :=
  match c.phase with
  | .entered => b.enter c s
  | .queued admittedAt _ => acquire admittedAt queue c s
  | .acquired admittedAt =>
    match now (c.inputs.clock .started) with
    | .error exc => ({ c with phase := .exited (.failed exc) }, s)
    | .ok startedAt => ({ c with phase := .started admittedAt startedAt }, s)
  | .started admittedAt startedAt => b.enterId admittedAt startedAt c s
  | .registered admittedAt startedAt => publishAdmitted admittedAt startedAt c s
  | .admitted admittedAt startedAt =>
    match b.dispatchTimeout c.inputs with
    | .error failure => ({ c with phase := settle (.error failure) }, s)
    | .ok timeout => ({ c with phase := .dispatched admittedAt startedAt timeout }, s)
  | .dispatched admittedAt startedAt timeout => (b.answer admittedAt startedAt timeout c, s)
  | .settled outcome => publishTerminal outcome c s
  | .leaving outcome =>
    ({ c with phase := .releasing outcome },
      { s with active := s.active.filter fun id => id ≠ c.inputs.requestId })
  | .releasing outcome => b.giveBack outcome c s
  | .exited _ => (c, s)

end ManagedBackend

/-! ### The calls together -/

structure ManagedState (F : Type) where
  slots : Slots
  calls : List (Call F) := []

inductive ManagedMove (F : Type) where
  | generate (inputs : GenerateInputs F)
  | step (i : ℕ) (queue : QueueAnswer)

namespace ManagedBackend

variable (b : ManagedBackend F)

def start : ManagedState F := { slots := { free := b.maxConcurrentRequests } }

def step (s : ManagedState F) : ManagedMove F → ManagedState F
  | .generate inputs => { s with calls := s.calls ++ [{ inputs := inputs }] }
  | .step i queue =>
    match s.calls[i]? with
    | none => s
    | some c =>
      let (c, slots) := b.callStep queue c s.slots
      { slots := slots, calls := s.calls.set i c }

def run (moves : List (ManagedMove F)) : ManagedState F := moves.foldl b.step b.start

end ManagedBackend

end Managed
