/-
From a decision to a permitted call, and from a result to the next lifecycle.

* `Adapter.compile`, `compile` — the native arguments of a call and its identity;
* `authorize`, `decideFlow`, `evaluate` — the permission gate, the flow
  controller and the acceptance gate.
-/
import LlamaRuntime.Agent.World

open Json

namespace Agent

variable {F : Type} [Host F]

/-! ### The compiler -/

structure CompiledToolCall (F : Type) where
  actionId : PyStr
  invocationId : PyStr
  toolId : PyStr
  toolVersion : PyStr
  nativeArguments : List (PyStr × Value F)
  idempotencyKey : PyStr
  effectClass : EffectClass

/-- The adapters, with the refs that their scope allows. -/
inductive Adapter where
  | readFile (files : List PyStr)
  | searchText (roots : List PyStr)

def maxPatternBytes : ℕ := 512

/-- `AllowlistedPathScope.resolve_file`, `resolve_root` -/
def resolve (allowed : List PyStr) (ref : PyStr) (message : String) : Act F PyStr :=
  if ref ∉ allowed then .raise (.runtime "scope_violation" message)
  else Act.ask Reply.resolved

/-- `ReadFileAdapter.compile` -/
def compileReadFile (files : List PyStr) (inputHint : PyStr) (bindings : Dict PyStr (Value F)) :
    Act F (List (PyStr × Value F)) :=
  match bindings.get? inputHint with
  | some (.str ref) => do
    let path ← resolve files ref "file ref is not allowlisted"
    pure [(py "path", .str path), (py "ref", .str ref)]
  | _ => .raise (.builtin .keyError)

/-- `SearchTextAdapter.compile` -/
def compileSearchText (roots : List PyStr) (inputHint : PyStr)
    (bindings : Dict PyStr (Value F)) : Act F (List (PyStr × Value F)) :=
  match (bindings.get? inputHint).bind Value.dict? with
  | none => .raise (.builtin .keyError)
  | some value =>
    match (field value "root_ref").str?, (field value "pattern").str? with
    | some ref, some pattern =>
      if pattern = [] then .raise (.builtin .keyError)
      else do
        let bytes ← Act.lift (encode pattern)
        if maxPatternBytes < bytes.length ∨ pattern.any fun c => c.val < 0x20 then
          .raise (.runtime "invalid_arguments" "search pattern is not bounded text")
        else do
          let root ← resolve roots ref "root ref is not allowlisted"
          pure [(py "root", .str root), (py "root_ref", .str ref), (py "pattern", .str pattern)]
    | _, _ => .raise (.builtin .keyError)

def Adapter.compile (adapter : Adapter) (inputHint : PyStr) (bindings : Dict PyStr (Value F)) :
    Act F (List (PyStr × Value F)) :=
  match adapter with
  | .readFile files => compileReadFile files inputHint bindings
  | .searchText roots => compileSearchText roots inputHint bindings

/-- `arguments_digest` -/
def argumentsDigest (arguments : List (PyStr × Value F)) : Except Raised PyStr := do
  let text ← canonicalJson (.dict arguments)
  let bytes ← encode text
  .ok (shaDigest bytes)

structure CompileContext (F : Type) where
  runId : PyStr
  turnId : PyStr
  catalogDigest : PyStr
  bindings : Dict PyStr (Value F)

/-- The identity of a call, from which its identifiers are derived. -/
def callIdentity (context : CompileContext F) (toolId version inputHint digest : PyStr) :
    List (PyStr × Value F) :=
  [(py "run_id", .str context.runId),
    (py "turn_id", .str context.turnId),
    (py "catalog_digest", .str context.catalogDigest),
    (py "tool_id", .str toolId),
    (py "tool_version", .str version),
    (py "input_hint", .str inputHint),
    (py "arguments_digest", .str digest)]

/-- The identifiers of a call; `CompiledToolCall` checks them. -/
def identifyCall (definition : ToolDefinition F) (toolId inputHint : PyStr)
    (native : List (PyStr × Value F)) (context : CompileContext F) :
    Except Raised (CompiledToolCall F) := do
  let digest ← argumentsDigest native
  let identity := callIdentity context toolId definition.revision.version inputHint digest
  let actionId ← stableId "act" (Value.dict identity)
  let invocationId ← stableId "inv" (Value.dict (identity ++ [(py "action_id", .str actionId)]))
  let _ ← stableId "call" (Value.dict [(py "invocation_id", (.str invocationId : Value F))])
  let idempotencyKey ← stableId "idem"
    (Value.dict (identity ++ [(py "effect", .str definition.revision.effectClass.value)]))
  validateIdentifier toolId "tool_id"
  validateIdentifier definition.revision.version "tool_version"
  .ok
    { actionId, invocationId, toolId
      toolVersion := definition.revision.version
      nativeArguments := native
      idempotencyKey
      effectClass := definition.revision.effectClass }

/-- `except KeyError` around the adapter -/
def orNeedsResolution {α : Type} (act : Act F α) : Act F α :=
  act.tryCatch fun e =>
    if e = .builtin .keyError then .raise (.runtime "needs_resolution" "semantic binding is missing")
    else .raise e

/-- `DeterministicCompiler.compile` -/
def compile (catalog : Catalog F) (adapters : Dict PyStr Adapter) (intent : ToolIntent)
    (context : CompileContext F) : Act F (CompiledToolCall F) :=
  match intent.toolId, intent.inputHint with
  | some toolId, some inputHint =>
    if intent.action ≠ .callTool then
      .raise (.runtime "not_tool_action" "only call_tool decisions can be compiled")
    else if context.catalogDigest ≠ catalog.digest then
      .raise (.runtime "catalog_changed" "catalog changed before compilation")
    else
      match catalog.get? toolId, adapters.get? toolId with
      | some definition, some adapter => do
        let native ← orNeedsResolution (adapter.compile inputHint context.bindings)
        Act.lift (identifyCall definition toolId inputHint native context)
      | _, _ => .raise (.runtime "unknown_tool" "tool has no allowlisted adapter")
  | _, _ => .raise (.runtime "not_tool_action" "only call_tool decisions can be compiled")

/-! ### The permission gate -/

structure AuthorizationResult where
  decision : AuthorizationDecision
  reason : PyStr

/-- `DeterministicPermissionGate.policy_id` -/
def permissionPolicyId : PyStr := py "atomic-readonly.v1"

/-- `_check_deadline` and the gate ask whether a deadline has passed. -/
def deadlinePassed (deadlineUtc : Option PyStr) : Act F Bool :=
  match deadlineUtc with
  | none => pure false
  | some _ => Act.ask Reply.deadlinePassed

/-- `DeterministicPermissionGate.authorize`, of arguments that are not tainted -/
def authorize (call : CompiledToolCall F) (deadlineUtc : Option PyStr)
    (allowedTools : List PyStr) (catalogDigest expectedCatalogDigest : PyStr) :
    Act F AuthorizationResult :=
  if catalogDigest ≠ expectedCatalogDigest then pure ⟨.deny, py "catalog changed"⟩
  else do
    let passed ← deadlinePassed deadlineUtc
    if passed = true then pure ⟨.deny, py "deadline expired"⟩
    else if call.toolId ∉ allowedTools then pure ⟨.deny, py "tool denied by scope"⟩
    else if call.effectClass ≠ .readOnly then
      pure ⟨.requireApproval, py "mutation requires bound one-shot approval"⟩
    else pure ⟨.allow, py "read-only scope allowed"⟩

/-! ### Results -/

structure AgentError where
  code : PyStr
  message : PyStr
  retryScope : RetryScope
  sideEffectState : SideEffectState

/-- `ToolResultEnvelope`, with its provenance and trust label left out, which are the same
for all of them. -/
structure ToolResultEnvelope where
  invocationId : PyStr
  toolId : PyStr
  toolVersion : PyStr
  status : ToolInvocationLifecycle
  summary : PyStr
  dataRef : Option PyStr
  dataHash : Option PyStr
  truncated : Bool
  sideEffectState : SideEffectState
  error : Option AgentError

/-- `CodeOwnedFlowController.decide`, with `verify=True` -/
def decideFlow (result : ToolResultEnvelope) : FlowPolicy × AgentRunLifecycle :=
  if result.status = .unknownOutcome then (.handoff, .paused)
  else if result.status = .failed then (.replanWithObservation, .deciding)
  else (.verifyThenReplan, .verifying)

structure AcceptanceVerdict where
  accepted : Bool
  reason : PyStr

/-- `DeterministicAcceptanceGate.evaluate` -/
def evaluate (result : ToolResultEnvelope) (criteria : Dict PyStr PyStr) : AcceptanceVerdict :=
  if result.status ≠ .succeeded ∨ result.dataHash = none then
    ⟨false, py "tool result is not a verified success"⟩
  else if ∃ expected ∈ criteria.get? (py "data_hash"), some expected ≠ result.dataHash then
    ⟨false, py "artifact hash does not match acceptance criteria"⟩
  else if ∃ required ∈ criteria.get? (py "tool_id"), required ≠ result.toolId then
    ⟨false, py "tool does not match acceptance criteria"⟩
  else ⟨true, py "deterministic acceptance criteria passed"⟩

end Agent
