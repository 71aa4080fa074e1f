/-
The reducer: what a stream of agent events means.

* `RUN_TERMINAL`, `RUN_TRANSITIONS`, `TOOL_TRANSITIONS` are `runTerminal`,
  `runTransitions`, `toolTransitions`;
* `BudgetState`, `AgentRunState` — the state of a run;
* `applyEvent` — the body of the loop of `replay`, one function for each
  branch; `replay` is the loop.

A payload may be any JSON value here, as in the source: the exceptions that no
branch turns into an `IntegrityViolation` are part of the result.
-/
import LlamaRuntime.Agent.Events

open Json

namespace Agent

variable {F : Type}

/-! ### Transition tables -/

def runTerminal : List AgentRunLifecycle :=
  [.succeeded, .blocked, .failed, .cancelled, .timedOut, .budgetExhausted]

def runTransitions : AgentRunLifecycle → List AgentRunLifecycle
  | .ready => [.deciding, .cancelled, .timedOut]
  | .deciding => [.waitingTool, .waitingUser, .paused, .blocked, .failed, .cancelled, .timedOut,
      .budgetExhausted]
  | .waitingTool => [.observing, .paused, .failed, .cancelled, .timedOut, .budgetExhausted]
  | .observing => [.deciding, .synthesizing, .verifying, .paused, .blocked, .failed, .cancelled,
      .timedOut, .budgetExhausted]
  | .synthesizing => [.deciding, .succeeded, .blocked, .failed, .cancelled, .timedOut,
      .budgetExhausted]
  | .verifying => [.deciding, .succeeded, .blocked, .failed, .cancelled, .timedOut,
      .budgetExhausted]
  | .waitingUser => [.deciding, .cancelled, .timedOut]
  | .paused => [.deciding, .cancelled, .timedOut]
  | _ => []

def toolTransitions : ToolInvocationLifecycle → List ToolInvocationLifecycle
  | .proposed => [.argsReady, .needsResolution]
  | .needsResolution => [.argsReady, .failed]
  | .argsReady => [.authorized, .waitingApproval, .denied]
  | .waitingApproval => [.authorized, .denied]
  | .authorized => [.dispatched]
  | .dispatched => [.succeeded, .partialResult, .failed, .unknownOutcome]
  | _ => []

/-! ### The state of a run -/

/-- The fields of `BudgetState` that hold an amount. -/
inductive BudgetCategory where
  | turns | inferenceTokens | inferenceMs | toolCalls | toolAttempts | resolverCalls | retries
  | resultBytes | contextBytes
  deriving DecidableEq

namespace BudgetCategory

def value : BudgetCategory → PyStr
  | turns => py "turns"
  | inferenceTokens => py "inference_tokens"
  | inferenceMs => py "inference_ms"
  | toolCalls => py "tool_calls"
  | toolAttempts => py "tool_attempts"
  | resolverCalls => py "resolver_calls"
  | retries => py "retries"
  | resultBytes => py "result_bytes"
  | contextBytes => py "context_bytes"

def members : List BudgetCategory :=
  [turns, inferenceTokens, inferenceMs, toolCalls, toolAttempts, resolverCalls, retries,
    resultBytes, contextBytes]

theorem mem_members (c : BudgetCategory) : c ∈ members := by cases c <;> decide

def ofValue (text : PyStr) : Option BudgetCategory := members.find? fun c => c.value = text

theorem ofValue_value (c : BudgetCategory) : ofValue c.value = some c := by
  cases c <;> rfl

end BudgetCategory

def deadlineField : PyStr := py "deadline_utc"

/-- The attributes that an instance of a dataclass with slots has besides its
fields, on CPython 3.11. -/
def objectAttributes : List PyStr :=
  [py "__annotations__", py "__class__", py "__dataclass_fields__", py "__dataclass_params__",
    py "__delattr__", py "__dir__", py "__doc__", py "__eq__", py "__format__", py "__ge__",
    py "__getattribute__", py "__getstate__", py "__gt__", py "__hash__", py "__init__",
    py "__init_subclass__", py "__le__", py "__lt__", py "__match_args__", py "__module__",
    py "__ne__", py "__new__", py "__reduce__", py "__reduce_ex__", py "__repr__",
    py "__setattr__", py "__sizeof__", py "__slots__", py "__str__", py "__subclasshook__"]

/-- `hasattr(state.budgets, category)` -/
def hasAttribute (category : PyStr) : Prop :=
  (BudgetCategory.ofValue category).isSome = true ∨ category = deadlineField ∨
    category ∈ objectAttributes

instance (category : PyStr) : Decidable (hasAttribute category) :=
  inferInstanceAs (Decidable (_ ∨ _ ∨ _))

structure BudgetState (F : Type) where
  amount : BudgetCategory → ℤ
  deadlineUtc : Value F

/-- `setattr(budgets, category, value)` -/
def BudgetState.set (budgets : BudgetState F) (category : BudgetCategory) (value : ℤ) :
    BudgetState F :=
  { budgets with amount := fun c => if c = category then value else budgets.amount c }

structure AgentRunState (F : Type) where
  runId : PyStr
  lifecycle : AgentRunLifecycle
  version : ℕ
  budgets : BudgetState F
  toolInvocations : Dict PyStr ToolInvocationLifecycle
  actionClaims : List PyStr
  budgetClaims : List PyStr
  catalogDigests : Dict PyStr PyStr
  h1Records : Dict PyStr (Value F)
  dispatchedInvocations : List PyStr
  terminalResults : List PyStr
  acceptanceVerdict : Option Bool

/-! ### Branches of the loop -/

def illegalStream (message : PyStr) : Raised :=
  .agent .integrityViolation (py "illegal_event_stream") message

/-- `if not condition: _fail(message)` -/
def require (condition : Prop) [Decidable condition] (message : PyStr) : Except Raised Unit :=
  if condition then .ok () else .error (illegalStream message)

/-- `if not isinstance(value, str): _fail(message)` -/
def requireStr (value : Value F) (message : PyStr) : Except Raised PyStr :=
  match value.str? with
  | some s => .ok s
  | none => .error (illegalStream message)

/-- The items of a payload; on a payload that is no object the attempt to read
one raises a built-in error. -/
def payloadItems (payload : Value F) (error : Builtin) :
    Except Raised (List (PyStr × Value F)) :=
  match payload.dict? with
  | some items => .ok items
  | none => .error (.builtin error)

/-- `payload.get(key)` -/
def field (items : List (PyStr × Value F)) (key : String) : Value F :=
  (Items.lookup (py key) items).getD .null

/-- The names of the fields of `BudgetState`. -/
def budgetFields : List PyStr := BudgetCategory.members.map BudgetCategory.value ++ [deadlineField]

/-- `payload["budgets"]`, if `BudgetState(**raw_budgets)` accepts its keys. -/
def rawBudgets (payload : Value F) : Option (List (PyStr × Value F)) :=
  (payload.dict?.bind fun items =>
    (Items.lookup (py "budgets") items).bind Value.dict?).filter fun raw =>
      (raw.all fun f => f.1 ∈ budgetFields) && budgetFields.all fun k => k ∈ raw.map Prod.fst

/-- The amounts of the raw budgets, if they are non-negative integers. -/
def rawAmount (raw : List (PyStr × Value F)) (category : BudgetCategory) : Option ℤ :=
  ((Items.lookup category.value raw).bind Value.int?).filter fun n => 0 ≤ n

/-- The branch of `run_created`. -/
def applyRunCreated (runId : PyStr) (version : ℕ) (payload : Value F) :
    Except Raised (AgentRunState F) :=
  match rawBudgets payload with
  | none => .error (.integrity "invalid_event_payload" "invalid run budget payload")
  | some raw => do
    require (BudgetCategory.members.all fun c => (rawAmount raw c).isSome)
      (py "budget values must be non-negative integers")
    .ok
      { runId
        lifecycle := .ready
        version
        budgets := ⟨fun c => (rawAmount raw c).getD 0,
          (Items.lookup deadlineField raw).getD .null⟩
        toolInvocations := ∅
        actionClaims := []
        budgetClaims := []
        catalogDigests := ∅
        h1Records := ∅
        dispatchedInvocations := []
        terminalResults := []
        acceptanceVerdict := none }

/-- The branch of `run_transition`; `payload["target"]` raises a `TypeError`
that is not caught when the payload is no object. -/
def applyRunTransition (state : AgentRunState F) (version : ℕ) (payload : Value F) :
    Except Raised (AgentRunState F) := do
  let items ← payloadItems payload .typeError
  match (Items.lookup (py "target") items).bind fun v => v.str?.bind AgentRunLifecycle.ofValue with
  | none => .error (.integrity "invalid_event_payload" "invalid run target")
  | some target =>
    require (target ∈ runTransitions state.lifecycle)
      (py "illegal run transition " ++ state.lifecycle.value ++ py "->" ++ target.value)
    require (target = .succeeded → (field items "authority").str? = some (py "acceptance_gate"))
      (py "only deterministic acceptance may succeed a run")
    .ok { state with lifecycle := target, version }

/-- The branch of `tool_proposed`. -/
def applyToolProposed (state : AgentRunState F) (version : ℕ) (payload : Value F) :
    Except Raised (AgentRunState F) := do
  let items ← payloadItems payload .attributeError
  let invocationId ← requireStr (field items "invocation_id") (py "invalid tool proposal")
  let actionId ← requireStr (field items "action_id") (py "invalid tool proposal")
  let digest ← requireStr (field items "tool_catalog_digest") (py "invalid tool proposal")
  require (state.lifecycle = .waitingTool) (py "invalid tool proposal")
  validateIdentifier invocationId "invocation_id"
  validateIdentifier actionId "action_id"
  require (state.toolInvocations.get? invocationId = none ∧ actionId ∉ state.actionClaims)
    (py "duplicate action or invocation claim")
  .ok
    { state with
      toolInvocations := state.toolInvocations.set invocationId .proposed
      actionClaims := state.actionClaims ++ [actionId]
      catalogDigests := state.catalogDigests.set actionId digest
      version }

/-- The branch of `tool_transition`. -/
def applyToolTransition (state : AgentRunState F) (version : ℕ) (payload : Value F) :
    Except Raised (AgentRunState F) := do
  let items ← payloadItems payload .attributeError
  let invocationId ← requireStr (field items "invocation_id") (py "invalid invocation identifier")
  match state.toolInvocations.get? invocationId,
    (Items.lookup (py "target") items).bind fun v =>
      v.str?.bind ToolInvocationLifecycle.ofValue with
  | some current, some target =>
    require (target ∈ toolTransitions current)
      (py "illegal tool transition " ++ current.value ++ py "->" ++ target.value)
    .ok { state with toolInvocations := state.toolInvocations.set invocationId target, version }
  | _, _ => .error (.integrity "invalid_event_payload" "invalid invocation transition")

/-- The branch of `budget_consumed`.  A category that is an attribute but no
amount passes every check up to the comparison, which raises a `TypeError`. -/
def applyBudgetConsumed [Host F] (state : AgentRunState F) (version : ℕ) (payload : Value F) :
    Except Raised (AgentRunState F) := do
  let items ← payloadItems payload .attributeError
  let claimId ← requireStr (field items "claim_id") (py "invalid or duplicate budget claim")
  let category ← requireStr (field items "category") (py "invalid or duplicate budget claim")
  require (claimId ∉ state.budgetClaims ∧ hasAttribute category)
    (py "invalid or duplicate budget claim")
  validateIdentifier claimId "claim_id"
  require (category ≠ deadlineField ∧ 0 < ((field items "amount").int?.getD 0))
    (py "invalid budget decrement")
  match BudgetCategory.ofValue category with
  | none => .error (.builtin .typeError)
  | some category =>
    let amount := (field items "amount").int?.getD 0
    let remaining := state.budgets.amount category
    require (amount ≤ remaining) (py "budget cannot become negative")
    require ((field items "terminalize").truthy = true → state.lifecycle ∉ runTerminal)
      (py "terminalization may occur only once")
    .ok
      { state with
        budgets := state.budgets.set category (remaining - amount)
        budgetClaims := state.budgetClaims ++ [claimId]
        lifecycle :=
          if (field items "terminalize").truthy then .budgetExhausted else state.lifecycle
        version }

/-- The H1 records that must name a proposed invocation. -/
def EventKind.namesInvocation : EventKind → Bool
  | .argumentsCompiled | .authorizationRecorded | .dispatchStarted | .resultRecorded => true
  | _ => false

/-- What the particular kinds of H1 records check and change. -/
def applyRecordKind (state : AgentRunState F) (kind : EventKind)
    (items : List (PyStr × Value F)) : Except Raised (AgentRunState F) :=
  let invocationId := (field items "invocation_id").str?.getD []
  match kind with
  | .dispatchStarted => do
    require (state.toolInvocations.get? invocationId = some .authorized)
      (py "dispatch boundary requires an authorized invocation")
    require (invocationId ∉ state.dispatchedInvocations)
      (py "dispatch boundary may be persisted only once")
    .ok { state with dispatchedInvocations := state.dispatchedInvocations ++ [invocationId] }
  | .resultRecorded => do
    require (invocationId ∈ state.dispatchedInvocations)
      (py "terminal result requires a persisted dispatch boundary")
    require (invocationId ∉ state.terminalResults)
      (py "terminal result may be persisted only once")
    .ok { state with terminalResults := state.terminalResults ++ [invocationId] }
  | .acceptanceDecided => do
    require ((field items "accepted").bool?.isSome = true ∧
        (field items "authority").str? = some (py "acceptance_gate"))
      (py "acceptance verdict requires deterministic authority")
    .ok { state with acceptanceVerdict := (field items "accepted").bool? }
  | _ => .ok state

/-- The branch of the H1 records. -/
def applyRecord (state : AgentRunState F) (version : ℕ) (kind : EventKind) (payload : Value F) :
    Except Raised (AgentRunState F) := do
  let items ← payloadItems payload .attributeError
  require ((field items "record_version").str? = some (py "h1.v1"))
    (kind.value ++ py " has an unsupported record version")
  let recordId ← requireStr (field items "record_id") (py "invalid or duplicate H1 record")
  require (state.h1Records.get? recordId = none) (py "invalid or duplicate H1 record")
  validateIdentifier recordId "record_id"
  require (kind.namesInvocation = true →
      ∃ id ∈ (field items "invocation_id").str?, id ∈ state.toolInvocations.keys)
    (py "H1 invocation record does not reference a proposal")
  let state ← applyRecordKind state kind items
  .ok { state with h1Records := state.h1Records.set recordId payload, version }

/-- The branches of the loop, for every event but the first. -/
def applyEvent [Host F] (state : AgentRunState F) (version : ℕ) (event : AgentEvent F) :
    Except Raised (AgentRunState F) :=
  match event.eventKind with
  | .runCreated => .error (illegalStream (py "run_created may occur only once"))
  | .runTransition => applyRunTransition state version event.payload
  | .toolProposed => applyToolProposed state version event.payload
  | .toolTransition => applyToolTransition state version event.payload
  | .budgetConsumed => applyBudgetConsumed state version event.payload
  | kind => applyRecord state version kind event.payload

/-- The loop of `replay` after the first event; `expected` is the next sequence number. -/
def replayFrom [Host F] (state : AgentRunState F) (expected : ℕ) :
    List (AgentEvent F) → Except Raised (AgentRunState F)
  | [] => .ok state
  | event :: rest =>
    if event.sequence ≠ some expected then
      .error (illegalStream (py "event sequence is not contiguous"))
    else (applyEvent state expected event).bind fun state => replayFrom state (expected + 1) rest

def replay [Host F] (runId : PyStr) (events : List (AgentEvent F)) :
    Except Raised (AgentRunState F) :=
  (validateIdentifier runId "run_id").bind fun _ =>
    match events with
    | [] => .error (illegalStream (py "stream must begin with run_created"))
    | first :: rest =>
      if first.eventKind ≠ .runCreated then
        .error (illegalStream (py "stream must begin with run_created"))
      else if first.sequence ≠ some 1 then
        .error (illegalStream (py "event sequence is not contiguous"))
      else (applyRunCreated runId 1 first.payload).bind fun state => replayFrom state 2 rest

end Agent
