/-
The process adapter of the llama.cpp runtime.

`LlamaCppSteppableBackend` writes commands to a native process and reads one line for each.
It keeps three tables of handles, under the handles it gives out: what is open, what it has
reserved, and what was released lately.

* `start`, `command` — a process that answers, and one command with its line;
* `openSequence`, `release`, `shutdown` — the commands that write to the tables;
* `inquire` — the others, which only look at the response;
* `Op`, `perform` — a call, and what it gives.

Each call is one step: the scheduler makes one at a time.
-/
import LlamaRuntime.Json.PyEquality
import LlamaRuntime.Worker.StrictJson
import LlamaRuntime.Inference.Contracts

open Json Inference

namespace LlamaCpp

variable {F : Type}

/-! ### What a call raises -/

inductive Raised where
  /-- `BackendCommandError(code, detail)` -/
  | command (code detail : PyStr)
  | worker (error : Worker.WorkerError)
  | contract (error : ContractError)
  | builtin (error : BuiltinError)
  deriving DecidableEq

def protocolViolation (detail : String) : Raised := .command (py "protocol_violation") (py detail)

/-- The errors after which a process is given up: three codes of `BackendCommandError`, and
what the pipes raise. -/
def Raised.fatal : Raised → Bool
  | .command code _ =>
    code = py "worker_crashed" || code = py "worker_timeout" || code = py "protocol_violation"
  | .builtin .osError => true
  | .builtin .valueError => true
  | _ => false

/-- The pipes' own errors become a `BackendCommandError`. -/
def Raised.transported : Raised → Raised
  | .builtin .osError => .command (py "worker_crashed") (py "runtime command transport failed")
  | .builtin .valueError => .command (py "worker_crashed") (py "runtime command transport failed")
  | e => e

/-! ### The adapter -/

inductive SupervisorState where
  | STOPPED
  | READY
  | DEGRADED
  | DRAINING
  deriving DecidableEq

/-- What the adapter takes from the manifests. -/
structure RuntimeManifest (F : Type) where
  backendId : PyStr
  modelId : PyStr
  modelDigest : PyStr
  maxSequences : ℕ
  cpuThreads : ℕ
  kvTokens : ℕ
  sequenceContextTokens : ℕ
  prefillChunkTokens : ℕ
  maxDecodeBatch : ℕ
  decodeQuantumTokens : ℕ
  tickTokenBudget : ℕ
  cacheEnabled : Bool
  cacheByteBudget : ℕ
  cacheMaxEntries : ℕ
  cacheTtlSeconds : Value F

structure Config (F : Type) where
  manifest : RuntimeManifest F
  releasedHandleCapacity : ℕ
  capacity_pos : 0 < releasedHandleCapacity

structure Backend (F : Type) where
  /-- `_process is not None` -/
  process : Bool := false
  commandId : ℕ := 0
  processGeneration : ℕ := 0
  state : SupervisorState := .STOPPED
  active : Dict SequenceHandle (Value F) := ∅
  reservedTokens : Dict SequenceHandle ℤ := ∅
  /-- an `OrderedDict`, the oldest first -/
  released : Dict SequenceHandle (Value F) := ∅

/-- What the operating system and the native process make of a command. -/
structure Answer where
  /-- `process.poll() is None` -/
  alive : Bool
  /-- the first line of a new process -/
  launch : Except Raised PyStr
  /-- the line that is read after the command was written -/
  line : Except Raised PyStr

/-- A command that was written to the process. -/
structure Sent (F : Type) where
  type : String
  commandId : ℕ
  payload : List (PyStr × Value F)

/-- What a call gives: its result, what it has written, and the adapter after it. -/
structure Ran (F α : Type) where
  result : Except Raised α
  sent : List (Sent F)
  backend : Backend F

def Ran.andThen {α β : Type} (ran : Ran F α)
    (next : α → Backend F → Except Raised β × Backend F) : Ran F β :=
  match ran.result with
  | .error e => ⟨.error e, ran.sent, ran.backend⟩
  | .ok a => ⟨(next a ran.backend).1, ran.sent, (next a ran.backend).2⟩

namespace Backend

def clearTables (s : Backend F) : Backend F :=
  { s with active := ∅, reservedTokens := ∅, released := ∅ }

/-- `_fail_process_locked` -/
def failProcess (s : Backend F) : Backend F :=
  { s.clearTables with process := false, state := .DEGRADED }

/-- `_protocol_failure` -/
def protocolFailure {α : Type} (s : Backend F) (detail : String) : Except Raised α × Backend F :=
  (.error (protocolViolation detail), if s.process then s.failProcess else s)

end Backend

/-! ### Responses -/

def ipcVersion : String := "inference-runtime-ipc.v1"

/-- `response[key]` -/
def field (response : List (PyStr × Value F)) (key : String) : Value F :=
  (Items.lookup (py key) response).getD .null

/-- `set(response) == keys`, of distinct keys -/
def hasKeys (response : List (PyStr × Value F)) (keys : List String) : Bool :=
  (response.all fun item => decide (item.1 ∈ keys.map py)) &&
    keys.all fun key => decide (py key ∈ response.map Prod.fst)

def commonKeys : List String := ["protocol_version", "type", "command_id"]

variable [PyNumbers F]

/-- What `_verify_ready` compares with: it asks for the same keys and equal values. -/
def RuntimeManifest.readyFrame (m : RuntimeManifest F) : Value F :=
  .dict [(py "protocol_version", .str (py ipcVersion)), (py "type", .str (py "ready")),
    (py "sequence", .int 0), (py "backend_id", .str m.backendId), (py "model_id", .str m.modelId),
    (py "model_manifest_digest", .str m.modelDigest), (py "max_sequences", .int m.maxSequences),
    (py "cpu_threads", .int m.cpuThreads), (py "kv_tokens", .int m.kvTokens),
    (py "sequence_context_tokens", .int m.sequenceContextTokens),
    (py "prefill_chunk_tokens", .int m.prefillChunkTokens),
    (py "max_decode_batch", .int m.maxDecodeBatch),
    (py "decode_quantum_tokens", .int m.decodeQuantumTokens),
    (py "tick_token_budget", .int m.tickTokenBudget),
    (py "cache", .dict [(py "enabled", .bool m.cacheEnabled),
      (py "byte_budget", .int m.cacheByteBudget), (py "max_entries", .int m.cacheMaxEntries),
      (py "ttl_seconds", m.cacheTtlSeconds)])]

/-- The first line of a process, read and verified. -/
def verifyReady (cfg : Config F) (line : PyStr) : Except Raised Unit :=
  match Worker.loads (.str line) with
  | .error e => .error (.worker e)
  | .ok ready =>
    if cfg.manifest.readyFrame.pyEq ready then .ok ()
    else .error (.command (py "worker_not_ready") (py "invalid runtime ready frame"))

/-- `start` -/
def start (cfg : Config F) (answer : Answer) (s : Backend F) : Except Raised Unit × Backend F :=
  if s.process ∧ answer.alive ∧ s.state = .READY then (.ok (), s)
  else
    match answer.launch.bind (verifyReady cfg) with
    | .error e => (.error e, { s with process := false, state := .DEGRADED })
    | .ok _ =>
      (.ok (), { s.clearTables with
        process := true, processGeneration := s.processGeneration + 1, commandId := 0
        state := .READY })

/-- The response has the version and the number of the command, and a type. -/
def correlated (commandId : ℕ) (response : List (PyStr × Value F)) : Bool :=
  (field response "protocol_version").pyEq (.str (py ipcVersion)) &&
    (field response "command_id").pyEq (.int commandId) && (field response "type").str?.isSome

/-- What `_command` makes of the line it has read. -/
def respond (commandId : ℕ) (line : PyStr) : Except Raised (List (PyStr × Value F)) :=
  match Worker.loads (.str line) with
  | .error e => .error (.worker e)
  | .ok value =>
    match value.dict? with
    | none => .error (protocolViolation "invalid or uncorrelated runtime response")
    | some response =>
      if ¬ correlated commandId response then
        .error (protocolViolation "invalid or uncorrelated runtime response")
      else if (field response "type").str? = some (py "command_error") then
        if ¬ hasKeys response (commonKeys ++ ["error_code", "detail"]) then
          .error (protocolViolation "malformed runtime error response")
        else .error (.command (field response "error_code").toText (field response "detail").toText)
      else .ok response

/-- `_command` -/
def command (cfg : Config F) (type : String) (payload : List (PyStr × Value F)) (answer : Answer)
    (s : Backend F) : Ran F (List (PyStr × Value F)) :=
  match start cfg answer s with
  | (.error e, s) => ⟨.error e, [], s⟩
  | (.ok _, s) =>
    let s := { s with commandId := s.commandId + 1 }
    let sent := [⟨type, s.commandId, payload⟩]
    match answer.line.bind (respond s.commandId) with
    | .ok response => ⟨.ok response, sent, s⟩
    | .error e =>
      if e.fatal then ⟨.error e.transported, sent, s.failProcess⟩ else ⟨.error e, sent, s⟩

/-! ### Opening -/

def openedKeys : List String :=
  commonKeys ++ ["handle", "prompt_tokens", "reserved_tokens", "cache_hit", "cached_prompt_tokens"]

/-- `_bounded_text` -/
def boundedField (value : Value F) (name : String) : Option PyStr :=
  value.str?.bind fun s => (boundedText s name maxIdentifierBytes).toOption

/-- `_non_negative_int` -/
def nonNegativeInt (value : Value F) : Option ℕ :=
  value.int?.bind fun n => if 0 ≤ n then some n.toNat else none

/-- `_parse_native_handle`, with the detail of its failure -/
def parseNativeHandle (cfg : Config F) (value : Value F) : Except String SequenceHandle :=
  match value.dict? with
  | none => .error "invalid native sequence handle"
  | some items =>
    if ¬ hasKeys items ["backend", "model", "sequence", "generation"] then
      .error "invalid native sequence handle"
    else
      match boundedField (field items "backend") "backend", boundedField (field items "model") "model",
        boundedField (field items "sequence") "sequence",
        nonNegativeInt (field items "generation") with
      | some backend, some model, some sequence, some generation =>
        if backend ≠ cfg.manifest.backendId ∨ model ≠ cfg.manifest.modelId then
          .error "native sequence identity mismatch"
        else .ok ⟨backend, model, sequence, generation⟩
      | _, _, _, _ => .error "invalid native sequence handle"

/-- The handle that is given out for a native one. -/
def publicHandle (processGeneration : ℕ) (native : SequenceHandle) : SequenceHandle :=
  { native with generation := (processGeneration <<< 32) ||| native.generation }

namespace Backend

/-- The end of `open_sequence`: the tables are written one after the other. -/
def register (s : Backend F) (native : SequenceHandle) (handle reserved : Value F) :
    Except Raised SequenceHandle × Backend F :=
  let opened := publicHandle s.processGeneration native
  if opened ∈ s.active.keys then s.protocolFailure "runtime reused an active sequence handle"
  else
    let s := { s with active := s.active.set opened handle }
    match reserved.toInt with
    | .error e => (.error (.builtin e), s)
    | .ok n => (.ok opened, { s with reservedTokens := s.reservedTokens.set opened n })

/-- What `open_sequence` makes of a response. -/
def opened (cfg : Config F) (response : List (PyStr × Value F)) (s : Backend F) :
    Except Raised SequenceHandle × Backend F :=
  if ¬ hasKeys response openedKeys ∨ (field response "type").str? ≠ some (py "sequence_opened") then
    s.protocolFailure "invalid sequence_opened response"
  else
    match parseNativeHandle cfg (field response "handle") with
    | .error detail => s.protocolFailure detail
    | .ok native => s.register native (field response "handle") (field response "reserved_tokens")

end Backend

/-- `open_sequence`, of a request with its scheduling -/
def openSequence (cfg : Config F) (payload : List (PyStr × Value F)) (answer : Answer)
    (s : Backend F) : Ran F SequenceHandle :=
  (command cfg "open_sequence" payload answer s).andThen fun response s => s.opened cfg response

/-- `reservation_tokens` -/
def reservationTokens (handle : SequenceHandle) (s : Backend F) : Except Raised ℤ :=
  match s.reservedTokens.get? handle with
  | some n => .ok n
  | none => .error (.command (py "stale_handle") (py "sequence is not active"))

/-! ### Releasing -/

structure ReleaseOutcome where
  handle : SequenceHandle
  status : ReleaseStatus
  releasedBytes : ℕ
  bytes_ok : status ≠ .RELEASED → releasedBytes = 0

/-- `ReleaseStatus(value)` -/
def releaseStatus (value : Value F) : Option ReleaseStatus :=
  value.str?.bind fun s =>
    [ReleaseStatus.RELEASED, .ALREADY_RELEASED, .STALE_HANDLE, .NOT_FOUND].find? fun status =>
      s = py status.value

/-- `ReleaseOutcome(handle, ReleaseStatus(...), ...)` -/
def releaseOutcome (handle : SequenceHandle) (response : List (PyStr × Value F)) :
    Option ReleaseOutcome :=
  match releaseStatus (field response "status"), nonNegativeInt (field response "released_bytes") with
  | some status, some n =>
    if h : status ≠ .RELEASED → n = 0 then some ⟨handle, status, n, h⟩ else none
  | _, _ => none

/-- The response is about the native handle that is active under the public one. -/
def correlates (s : Backend F) (handle : SequenceHandle) (native : Value F) : Bool :=
  ((s.active.get? handle).getD .null).pyEq native

/-- `popitem(last=False)` while there are too many -/
def trim (capacity : ℕ) (d : Dict SequenceHandle (Value F)) : Dict SequenceHandle (Value F) :=
  ⟨d.items.drop (d.items.length - capacity), by
    rw [List.map_drop]
    exact d.nodup.sublist (List.drop_sublist _ _)⟩

namespace Backend

/-- The tables after a release that the process has answered. -/
def settle (cfg : Config F) (handle : SequenceHandle) (native : Value F) (status : ReleaseStatus)
    (s : Backend F) : Backend F :=
  let removed := (s.active.get? handle).getD native
  let s' := { s with
    active := s.active.pop handle
    reservedTokens := s.reservedTokens.pop handle }
  match status with
  | .RELEASED | .ALREADY_RELEASED =>
    { s' with
      released := trim cfg.releasedHandleCapacity ((s.released.pop handle).set handle removed) }
  | .STALE_HANDLE => s'
  | .NOT_FOUND => s

/-- What `release` makes of a response. -/
def releasedBy (cfg : Config F) (handle : SequenceHandle) (native : Value F)
    (response : List (PyStr × Value F)) (s : Backend F) : Except Raised ReleaseOutcome × Backend F :=
  if ¬ hasKeys response (commonKeys ++ ["handle", "status", "released_bytes"]) ∨
      (field response "type").str? ≠ some (py "sequence_released") then
    s.protocolFailure "invalid release response"
  else if ¬ correlates s handle (field response "handle") then
    s.protocolFailure "native outcome handle mismatch"
  else
    match releaseOutcome handle response with
    | none => s.protocolFailure "invalid release outcome"
    | some outcome => (.ok outcome, s.settle cfg handle native outcome.status)

end Backend

/-- `release` -/
def release (cfg : Config F) (handle : SequenceHandle) (answer : Answer) (s : Backend F) :
    Ran F ReleaseOutcome :=
  match s.active.get? handle with
  | none =>
    if handle ∈ s.released.keys then ⟨.ok ⟨handle, .ALREADY_RELEASED, 0, fun _ => rfl⟩, [], s⟩
    else ⟨.ok ⟨handle, .STALE_HANDLE, 0, fun _ => rfl⟩, [], s⟩
  | some native =>
    (command cfg "release_sequence" [(py "handle", native)] answer s).andThen fun response s =>
      s.releasedBy cfg handle native response

/-! ### The other commands -/

/-- What a command makes of its response, with the tables as they are. -/
inductive Inspection (α : Type) where
  | accepted (a : α)
  /-- `_protocol_failure` -/
  | violated (detail : String)
  /-- any exception that is not handled -/
  | raised (e : Raised)

/-- A command that only looks at its response -/
def inquire {α : Type} (cfg : Config F) (type : String) (payload : List (PyStr × Value F))
    (inspect : Dict SequenceHandle (Value F) → List (PyStr × Value F) → Inspection α)
    (answer : Answer) (s : Backend F) : Ran F α :=
  (command cfg type payload answer s).andThen fun response s =>
    match inspect s.active response with
    | .accepted a => (.ok a, s)
    | .violated detail => s.protocolFailure detail
    | .raised e => (.error e, s)

/-- `_native_steps` -/
def nativeSteps (active : Dict SequenceHandle (Value F)) :
    List SequenceStep → Except Raised (List (Value F))
  | [] => .ok []
  | step :: steps =>
    match active.get? step.handle with
    | none => .error (.command (py "stale_handle") (py "sequence is not active"))
    | some native => (nativeSteps active steps).map fun natives =>
      .dict [(py "handle", native), (py "token_budget", .int step.tokenBudget)] :: natives

/-- The checks that `prefill_batch` and `decode_batch` make on their steps -/
def checkSteps (cfg : Config F) (maxTokensPerStep : ℕ) (steps : List SequenceStep) :
    Except Raised Unit :=
  match validateSequenceBatch steps cfg.manifest.maxDecodeBatch maxTokensPerStep with
  | .error e => .error (.contract e)
  | .ok _ =>
    if cfg.manifest.tickTokenBudget < (steps.map SequenceStep.tokenBudget).sum then
      .error (.builtin .valueError)
    else .ok ()

/-- `prefill_batch` and `decode_batch`, which differ in a limit and in what they inspect -/
def stepBatch {α : Type} (cfg : Config F) (type : String) (maxTokensPerStep : ℕ)
    (steps : List SequenceStep)
    (inspect : Dict SequenceHandle (Value F) → List (PyStr × Value F) → Inspection α)
    (answer : Answer) (s : Backend F) : Ran F α :=
  match (checkSteps cfg maxTokensPerStep steps).bind fun _ => nativeSteps s.active steps with
  | .error e => ⟨.error e, [], s⟩
  | .ok natives => inquire cfg type [(py "steps", .list natives)] inspect answer s

/-- `supervisor_state` -/
def supervisorState (alive : Bool) (s : Backend F) : Backend F :=
  if s.state = .READY ∧ ¬ (s.process ∧ alive) then { s with state := .DEGRADED } else s

/-! ### Shutting down -/

/-- What the wait for `shutdown_complete` raises, as far as it is not caught -/
def shutdownError (line : Except Raised PyStr) : Option Raised :=
  match line with
  | .error (.command _ _) => none
  | .error (.builtin .osError) => none
  | .error e => some e
  | .ok line =>
    match (Worker.loads (.str line) : Except Worker.WorkerError (Value F)) with
    | .error e => some (.worker e)
    | .ok response => if response.dict?.isSome then none else some (.builtin .attributeError)

/-- `shutdown`; `stopped` is what `_terminate_process` returns. -/
def shutdown (line : Except Raised PyStr) (stopped : Bool) (s : Backend F) : Ran F Unit :=
  if ¬ s.process then ⟨.ok (), [], { s.clearTables with state := .STOPPED }⟩
  else
    let s := { s with state := .DRAINING, commandId := s.commandId + 1 }
    let sent := [⟨"shutdown", s.commandId, []⟩]
    match shutdownError (F := F) line with
    | some e => ⟨.error e, sent, s⟩
    | none =>
      ⟨.ok (), sent, { s.clearTables with
        process := false, state := if stopped then .STOPPED else .DEGRADED }⟩

/-! ### Calls -/

inductive Op (F : Type) where
  | start (answer : Answer)
  | supervisorState (alive : Bool)
  | openSequence (payload : List (PyStr × Value F)) (answer : Answer)
  | stepBatch (type : String) (maxTokensPerStep : ℕ) (steps : List SequenceStep)
      (inspect : Dict SequenceHandle (Value F) → List (PyStr × Value F) → Inspection Unit)
      (answer : Answer)
  | inquire (type : String)
      (inspect : Dict SequenceHandle (Value F) → List (PyStr × Value F) → Inspection Unit)
      (answer : Answer)
  | release (handle : SequenceHandle) (answer : Answer)
  | shutdown (line : Except Raised PyStr) (stopped : Bool)

inductive Reply where
  | done
  | opened (handle : SequenceHandle)
  | released (outcome : ReleaseOutcome)

def Ran.map {α β : Type} (f : α → β) (ran : Ran F α) : Ran F β :=
  ⟨ran.result.map f, ran.sent, ran.backend⟩

def perform (cfg : Config F) (s : Backend F) : Op F → Ran F Reply
  | .start answer =>
    let started := LlamaCpp.start cfg answer s
    ⟨started.1.map fun _ => .done, [], started.2⟩
  | .supervisorState alive => ⟨.ok .done, [], LlamaCpp.supervisorState alive s⟩
  | .openSequence payload answer => (LlamaCpp.openSequence cfg payload answer s).map .opened
  | .stepBatch type limit steps inspect answer =>
    (LlamaCpp.stepBatch cfg type limit steps inspect answer s).map fun _ => .done
  | .inquire type inspect answer =>
    (LlamaCpp.inquire cfg type [] inspect answer s).map fun _ => .done
  | .release handle answer => (LlamaCpp.release cfg handle answer s).map .released
  | .shutdown line stopped => (LlamaCpp.shutdown line stopped s).map fun _ => .done

end LlamaCpp
