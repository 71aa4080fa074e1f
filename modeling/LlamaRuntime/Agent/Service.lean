/-
The service that drives a run.

* `appendPlain`, `appendRecord`, `consumeBudget` — the ways it appends an event;
* `executeTurn` — one turn of a run, in the parts `openTurn`, `decide`,
  `recordInference`, `proposeCall`, `authorizeCall`, `dispatchCall`,
  `recordResult` and `concludeCall`;
* `recover` — what may be done with a run that is found;
* `runTurns` — calls of `execute_turn` one after the other, each of which may
  end anywhere.
-/
import LlamaRuntime.Agent.Normalization

open Json

namespace Agent

variable {F : Type} [Host F]

/-- `AtomicAgentService`, with the limits of its executor and its normalizer. -/
structure Service (F : Type) [Host F] where
  connection : Connection
  catalog : Catalog F
  /-- the catalog of the compiler -/
  compilerCatalog : Catalog F
  adapters : Dict PyStr Adapter
  resultByteCap : ℕ
  observationByteCap : ℕ
  resultByteCap_pos : 0 < resultByteCap

structure TurnContext where
  runId : PyStr
  turnId : PyStr
  inferenceRequestId : PyStr
  inferenceAttemptId : PyStr
  deadlineUtc : Option PyStr

/-- `ToolResultEnvelope | AcceptanceVerdict` -/
inductive TurnResult where
  | envelope (result : ToolResultEnvelope)
  | verdict (verdict : AcceptanceVerdict)

/-- What the identifier of an event or of a record is derived from. -/
def eventIdentity (state : AgentRunState F) (kind : EventKind) (payload : List (PyStr × Value F)) :
    Value F :=
  .dict
    [(py "run_id", .str state.runId),
      (py "sequence", .int (state.version + 1)),
      (py "kind", .str kind.value),
      (py "payload", .dict payload)]

/-- `new_event`; a `dict` object has distinct keys. -/
def newEvent (eventId : PyStr) (kind : EventKind) (payload : List (PyStr × Value F))
    (utcNow : PyStr) : Except Raised (AgentEvent F) :=
  if hwf : (Value.dict payload).WellFormed then
    AgentEvent.make eventId kind.value (.dict payload) hwf utcNow eventSchemaVersion none
  else .error (.builtin .valueError)

def textOrNone : Option PyStr → Value F
  | some text => .str text
  | none => .null

namespace Service

variable (service : Service F)

/-! ### Appending events -/

/-- `_state` -/
def state (runId : PyStr) : Act F (AgentRunState F) :=
  .atomic fun w _ => (w.db.load service.connection runId >>= replay runId, w)

/-- `self.store.append(state.run_id, state.version, [new_event(...)])` -/
def append (state : AgentRunState F) (eventId : PyStr) (kind : EventKind)
    (payload : List (PyStr × Value F)) : Act F Unit :=
  .atomic fun w reply =>
    match newEvent eventId kind payload reply.utcNow with
    | .error e => (.error e, w)
    | .ok event =>
      let call : Call F :=
        { connection := service.connection
          lockTaken := reply.lockTaken
          runId := state.runId
          expectedVersion := state.version
          events := [event] }
      let result := Agent.append w.db call
      (result.1.map fun _ => (),
        { w with db := result.2, happened := w.happened ++ [.appended call result.1] })

/-- `_append_plain` -/
def appendPlain (state : AgentRunState F) (kind : EventKind) (payload : List (PyStr × Value F)) :
    Act F (AgentRunState F) := do
  let eventId ← Act.lift (stableId "evt" (eventIdentity state kind payload))
  service.append state eventId kind payload
  service.state state.runId

/-- `_append` -/
def appendRecord (state : AgentRunState F) (kind : EventKind) (payload : List (PyStr × Value F)) :
    Act F (AgentRunState F) := do
  let recordId ← Act.lift (stableId "rec" (eventIdentity state kind payload))
  service.appendPlain state kind
    ((py "record_version", .str (py "h1.v1")) :: (py "record_id", .str recordId) :: payload)

/-- `_consume_budget` -/
def consumeBudget (state : AgentRunState F) (nameSpace : PyStr) (category : BudgetCategory)
    (amount : ℤ) : Act F (AgentRunState F) :=
  if state.budgets.amount category < amount then
    .raise (.agent .agentRuntimeError (py "budget_exhausted")
      (category.value ++ py " budget exhausted"))
  else do
    let claimId ← Act.lift (stableId "budget" (Value.dict
      [(py "run_id", (.str state.runId : Value F)),
        (py "namespace", .str nameSpace),
        (py "category", .str category.value)]))
    service.appendPlain state .budgetConsumed
      [(py "claim_id", .str claimId),
        (py "category", .str category.value),
        (py "amount", .int amount)]

/-- A `run_transition` without further fields. -/
def transition (state : AgentRunState F) (target : AgentRunLifecycle) : Act F (AgentRunState F) :=
  service.appendPlain state .runTransition [(py "target", .str target.value)]

/-- A `tool_transition`. -/
def toolTransition (state : AgentRunState F) (invocationId : PyStr)
    (target : ToolInvocationLifecycle) : Act F (AgentRunState F) :=
  service.appendPlain state .toolTransition
    [(py "invocation_id", .str invocationId), (py "target", .str target.value)]

/-! ### The decision -/

/-- Up to the request. -/
def openTurn (turn : TurnContext) (task : AtomicTask F) :
    Act F (AgentRunState F × DecisionRequest) := do
  let state ← service.state turn.runId
  if state.lifecycle ≠ .deciding then
    .raise (.runtime "illegal_state" "run must be deciding at turn start")
  else if ← deadlinePassed turn.deadlineUtc then
    .raise (.runtime "deadline_exhausted" "agent turn deadline expired")
  else if state.budgets.amount .turns < 1 then
    .raise (.runtime "budget_exhausted" "no decision turns remain")
  else do
    let cards ← Act.lift (cards service.catalog)
    let digest ← Act.lift (buildContext task cards service.catalog.digest)
    pure (state,
      { requestId := turn.inferenceRequestId
        attemptId := turn.inferenceAttemptId
        contextDigest := digest
        catalogDigest := service.catalog.digest
        toolIds := cards.map ToolCard.toolId })

/-- `DecisionEngine.decide`; the catalog of a service is not replaced meanwhile. -/
def decide (runId : PyStr) (request : DecisionRequest) :
    Act F (ToolIntent × DecisionResponse) := do
  .modify fun w =>
    let stream := (w.db.load service.connection runId).toOption.getD []
    { w with happened := w.happened ++ [.inferring runId stream] }
  let response ← Act.ask Reply.inference
  match response with
  | none => .raise (.runtime "inference_invalid" "inference returned an invalid response")
  | some response => do
    let bytes ← Act.lift response.output.encoded
    if maxDecisionBytes < bytes.length then
      .raise (.contract "contract_too_large" (py "decision exceeds byte cap"))
    else do
      let intent ← Act.lift (ToolIntent.parse F response.output request.toolIds)
      pure (intent, response)

/-- A debit of an amount that is not zero. -/
def consumeUsage (state : AgentRunState F) (nameSpace : PyStr) (category : BudgetCategory)
    (amount : ℤ) : Act F (AgentRunState F) :=
  if amount = 0 then pure state else service.consumeBudget state nameSpace category amount

/-- The record of an inference and its debits. -/
def recordInference (state : AgentRunState F) (turn : TurnContext) (request : DecisionRequest)
    (response : DecisionResponse) : Act F (AgentRunState F) := do
  let state ← service.appendRecord state .inferenceCompleted
    [(py "request_id", .str request.requestId),
      (py "attempt_id", .str request.attemptId),
      (py "context_digest", .str request.contextDigest),
      (py "tool_catalog_digest", .str service.catalog.digest),
      (py "input_tokens", .int response.inputTokens),
      (py "output_tokens", .int response.outputTokens),
      (py "inference_ms", .int response.inferenceMs)]
  let state ← service.consumeBudget state turn.turnId .turns 1
  let state ← service.consumeUsage state request.attemptId .inferenceTokens
    (response.inputTokens + response.outputTokens)
  service.consumeUsage state request.attemptId .inferenceMs response.inferenceMs

def recordDecision (state : AgentRunState F) (turn : TurnContext) (request : DecisionRequest)
    (intent : ToolIntent) : Act F (AgentRunState F) :=
  service.appendRecord state .decisionRecorded
    [(py "turn_id", .str turn.turnId),
      (py "action", .str intent.action.value),
      (py "tool_id", textOrNone intent.toolId),
      (py "input_hint", textOrNone intent.inputHint),
      (py "tool_catalog_digest", .str service.catalog.digest),
      (py "context_digest", .str request.contextDigest)]

/-- `_handle_non_tool` -/
def handleNonTool (state : AgentRunState F) (action : DecisionAction) (message : PyStr) :
    Act F AcceptanceVerdict :=
  match action with
  | .askUser => do
    let _ ← service.appendPlain state .runTransition
      [(py "target", .str AgentRunLifecycle.waitingUser.value), (py "reason", .str message)]
    pure ⟨false, py "waiting for user"⟩
  | .blocked => do
    let _ ← service.appendPlain state .runTransition
      [(py "target", .str AgentRunLifecycle.blocked.value), (py "reason", .str message)]
    pure ⟨false, py "model proposed blocked; code terminalized"⟩
  | _ => do
    let verdict : AcceptanceVerdict := ⟨false, py "submit has no deterministic tool evidence"⟩
    let state ← service.appendRecord state .acceptanceDecided
      [(py "accepted", .bool false),
        (py "authority", .str (py "acceptance_gate")),
        (py "reason", .str verdict.reason)]
    let _ ← service.appendPlain state .runTransition
      [(py "target", .str AgentRunLifecycle.blocked.value),
        (py "authority", .str (py "acceptance_gate"))]
    pure verdict

/-! ### The call of a tool -/

/-- The proposal of a compiled call, up to its arguments. -/
def proposeCall (state : AgentRunState F) (call : CompiledToolCall F) :
    Act F (AgentRunState F) := do
  let state ← service.transition state .waitingTool
  let state ← service.appendPlain state .toolProposed
    [(py "action_id", .str call.actionId),
      (py "invocation_id", .str call.invocationId),
      (py "tool_catalog_digest", .str service.catalog.digest)]
  let digest ← Act.lift (argumentsDigest call.nativeArguments)
  match service.catalog.get? call.toolId with
  | none => .raise (.builtin .keyError)
  | some definition => do
    let state ← service.appendRecord state .argumentsCompiled
      [(py "invocation_id", .str call.invocationId),
        (py "action_id", .str call.actionId),
        (py "arguments_digest", .str digest),
        (py "compiler_revision", .str definition.revision.compilerRevision)]
    service.toolTransition state call.invocationId .argsReady

/-- The permission of a call; a call that is not allowed ends the turn. -/
def authorizeCall (state : AgentRunState F) (turn : TurnContext) (request : DecisionRequest)
    (call : CompiledToolCall F) : Act F (AgentRunState F) := do
  let authorization ← authorize call turn.deadlineUtc request.toolIds service.catalog.digest
    request.catalogDigest
  let digest ← Act.lift (argumentsDigest call.nativeArguments)
  let state ← service.appendRecord state .authorizationRecorded
    [(py "invocation_id", .str call.invocationId),
      (py "decision", .str authorization.decision.value),
      (py "policy_id", .str permissionPolicyId),
      (py "arguments_digest", .str digest),
      (py "idempotency_key", .str call.idempotencyKey)]
  match authorization.decision with
  | .requireApproval => do
    let _ ← service.toolTransition state call.invocationId .waitingApproval
    .raise (.agent .agentRuntimeError (py "approval_required") authorization.reason)
  | .deny => do
    let _ ← service.toolTransition state call.invocationId .denied
    .raise (.agent .agentRuntimeError (py "permission_denied") authorization.reason)
  | .allow => service.toolTransition state call.invocationId .authorized

/-- The durable boundary before the tool is executed. -/
def dispatchCall (state : AgentRunState F) (call : CompiledToolCall F) :
    Act F (AgentRunState F) := do
  let state ← service.consumeBudget state call.invocationId .toolCalls 1
  let attemptId ← Act.lift (stableId "toolatt" (Value.dict
    [(py "invocation_id", (.str call.invocationId : Value F)), (py "attempt", .int 1)]))
  let state ← service.appendRecord state .dispatchStarted
    [(py "invocation_id", .str call.invocationId),
      (py "attempt_id", .str attemptId),
      (py "idempotency_key", .str call.idempotencyKey),
      (py "effect_class", .str call.effectClass.value),
      (py "side_effect_state", .str SideEffectState.notDispatched.value)]
  let state ← service.toolTransition state call.invocationId .dispatched
  service.consumeBudget state call.invocationId .toolAttempts 1

/-- The raw result that stands for an error of the executor. -/
def failedResult (invocationId : PyStr) (code message : PyStr) : RawToolResult :=
  { invocationId
    status := if (py "post_dispatch").isPrefixOf code then .unknownOutcome else .failed
    payload := []
    summary := message
    sideEffectState := if (py "post_dispatch").isPrefixOf code then .unknown else .none
    errorCode := some code
    truncated := false }

/-- The call of the executor, with its `except AgentRuntimeError`. -/
def executeCall (runId : PyStr) (call : CompiledToolCall F) (token : Bool) :
    Act F RawToolResult := do
  Act.note (.executing runId call.invocationId)
  Thread.tryCatch (execute service.resultByteCap call token) fun e => do
    Act.note (.failing call.invocationId e)
    match e with
    | .agent _ code message => pure (failedResult call.invocationId code message)
    | e => .raise e

def recordResult (state : AgentRunState F) (call : CompiledToolCall F)
    (result : ToolResultEnvelope) : Act F (AgentRunState F) := do
  let state ← service.appendRecord state .resultRecorded
    [(py "invocation_id", .str call.invocationId),
      (py "status", .str result.status.value),
      (py "data_ref", textOrNone result.dataRef),
      (py "data_hash", textOrNone result.dataHash),
      (py "truncated", .bool result.truncated),
      (py "side_effect_state", .str result.sideEffectState.value)]
  service.toolTransition state call.invocationId result.status

/-- From the recorded result to the end of the turn. -/
def concludeCall (state : AgentRunState F) (task : AtomicTask F) (call : CompiledToolCall F)
    (result : ToolResultEnvelope) : Act F TurnResult := do
  let state ← service.transition state .observing
  let flow := decideFlow result
  let state ← service.appendRecord state .flowDecided
    [(py "invocation_id", .str call.invocationId),
      (py "policy", .str flow.1.value),
      (py "target", .str flow.2.value)]
  let state ← service.transition state flow.2
  if flow.2 = .verifying then do
    let verdict := evaluate result task.acceptance
    let state ← service.appendRecord state .acceptanceDecided
      [(py "accepted", .bool verdict.accepted),
        (py "authority", .str (py "acceptance_gate")),
        (py "invocation_id", .str call.invocationId),
        (py "reason", .str verdict.reason)]
    let target : AgentRunLifecycle := if verdict.accepted then .succeeded else .blocked
    let _ ← service.appendPlain state .runTransition
      [(py "target", .str target.value), (py "authority", .str (py "acceptance_gate"))]
    pure (.envelope result)
  else pure (.envelope result)

/-- From a dispatched call to the end of the turn. -/
def completeCall (state : AgentRunState F) (turn : TurnContext) (task : AtomicTask F)
    (call : CompiledToolCall F) (token : Bool) : Act F TurnResult := do
  let raw ← service.executeCall turn.runId call token
  let result ← normalize service.observationByteCap raw call.toolId call.toolVersion
  let state ← service.recordResult state call result
  service.concludeCall state task call result

/-- The decision to call a tool. -/
def callTool (state : AgentRunState F) (turn : TurnContext) (task : AtomicTask F)
    (request : DecisionRequest) (intent : ToolIntent) (token : Bool) : Act F TurnResult := do
  let call ← compile service.compilerCatalog service.adapters intent
    ⟨turn.runId, turn.turnId, service.catalog.digest, task.bindings⟩
  let state ← service.proposeCall state call
  let state ← service.authorizeCall state turn request call
  let state ← service.dispatchCall state call
  service.completeCall state turn task call token

/-- `execute_turn`; `token` tells whether a cancellation token was given. -/
def executeTurn (turn : TurnContext) (task : AtomicTask F) (token : Bool) : Act F TurnResult := do
  let (state, request) ← service.openTurn turn task
  let (intent, response) ← service.decide turn.runId request
  let state ← service.recordInference state turn request response
  let state ← service.recordDecision state turn request intent
  if intent.action = .callTool then service.callTool state turn task request intent token
  else do
    let verdict ← service.handleNonTool state intent.action (intent.message.getD [])
    pure (.verdict verdict)

/-! ### Recovery -/

inductive Recovery where
  | reconcileOnly | safeRetry | terminalOrPaused
  deriving DecidableEq

end Service

/-- What `recover` answers for a replayed run. -/
def recoverState (state : AgentRunState F) : Service.Recovery :=
  if ∃ id ∈ state.dispatchedInvocations, id ∉ state.terminalResults then .reconcileOnly
  else if state.lifecycle ∈ [AgentRunLifecycle.deciding, .ready] then .safeRetry
  else .terminalOrPaused

/-- `recover` -/
def Service.recover (service : Service F) (runId : PyStr) : Act F Service.Recovery := do
  let state ← service.state runId
  pure (recoverState state)

/-! ### Sequences of turns -/

/-- One call of `execute_turn`.  It is cut where the replies end. -/
structure TurnCall (F : Type) [Host F] where
  service : Service F
  /-- the process was started anew before the call -/
  restarted : Bool
  turn : TurnContext
  task : AtomicTask F
  token : Bool
  replies : List Reply

/-- A new process: the memory of the executor is empty, and a transaction that
was left open is gone. -/
def World.restart (w : World F) : World F :=
  { w with db := { w.db with transaction := none }, completed := ∅ }

/-- The world and the outcome after a call; no outcome if the call was cut. -/
def runTurn (w : World F) (call : TurnCall F) : World F × Option (Except Raised TurnResult) :=
  (call.service.executeTurn call.turn call.task call.token).exec
    (if call.restarted then w.restart else w) call.replies

def runTurns (w : World F) : List (TurnCall F) → World F
  | [] => w
  | call :: rest => runTurns (runTurn w call).1 rest

end Agent
