/-
The SQLite event store.

* `Row`, `conflicts` — a row of `agent_run_events`, and when the primary key or
  a unique index refuses a second one;
* `Database` — the committed rows, and the write transaction if one is open;
* `loadFrom`, `append` — `load` and `append`.  From BEGIN IMMEDIATE to COMMIT or
  ROLLBACK the connection holds the write lock of the database, so an append is
  one step; it fails at BEGIN while the lock is taken.
-/
import LlamaRuntime.Agent.ReducerSteps

open Json

namespace Agent

variable {F : Type} [Host F]

/-! ### Rows and indexes -/

/-- A row of `agent_run_events`.  The action, invocation and claim columns are
inserted only after the reducer has found strings in them. -/
structure Row (F : Type) [Host F] where
  runId : PyStr
  sequence : ℕ
  eventId : PyStr
  eventVersion : ℤ
  eventKind : PyStr
  occurredAtUtc : PyStr
  payloadJson : PyStr
  payloadSha256 : PyStr
  actionId : Option PyStr
  invocationId : Option PyStr
  budgetClaimId : Option PyStr
  /-- `json_extract(payload_json, '$.idempotency_key')` -/
  idempotencyKey : Option (Host.IndexKey F)

/-- Both columns hold the same key; an SQL NULL is no key. -/
def sameKey {α : Type} [DecidableEq α] (a b : Option α) : Bool := a.isSome && a = b

/-- The primary key or a unique index refuses one row beside the other. -/
def conflicts (a b : Row F) : Bool :=
  (a.runId = b.runId && a.sequence = b.sequence) || a.eventId = b.eventId ||
    sameKey a.actionId b.actionId ||
    (a.eventKind = EventKind.toolProposed.value && b.eventKind = EventKind.toolProposed.value &&
      sameKey a.invocationId b.invocationId) ||
    sameKey a.budgetClaimId b.budgetClaimId ||
    (a.eventKind = EventKind.authorizationRecorded.value &&
      b.eventKind = EventKind.authorizationRecorded.value &&
      sameKey a.idempotencyKey b.idempotencyKey)

/-- A column that is filled from the payload for some kinds of events. -/
def columnOf (event : AgentEvent F) (key : String) (kinds : List EventKind) :
    Except Raised (Option PyStr) :=
  if event.eventKind ∈ kinds then
    (payloadItems event.payload .attributeError).map fun items => (field items key).str?
  else .ok none

/-- The row of an event, as `append` builds it before it opens the transaction. -/
def rowOf (runId : PyStr) (sequence : ℕ) (event : AgentEvent F) : Except Raised (Row F) := do
  let payloadJson ← canonicalJson event.payload
  let payloadSha256 ← payloadDigest payloadJson
  let actionId ← columnOf event "action_id" [.toolProposed]
  let invocationId ← columnOf event "invocation_id" [.toolProposed, .toolTransition]
  let budgetClaimId ← columnOf event "claim_id" [.budgetConsumed]
  .ok
    { runId, sequence
      eventId := event.eventId
      eventVersion := eventSchemaVersion
      eventKind := event.eventKind.value
      occurredAtUtc := event.occurredAtUtc
      payloadJson, payloadSha256, actionId, invocationId, budgetClaimId
      idempotencyKey := (Items.lookup (py "idempotency_key") (event.payload.dict?.getD [])).bind
        Host.indexKey }

/-- The rows of the events of one call, numbered after `version`. -/
def rowsOf (runId : PyStr) : ℕ → List (AgentEvent F) → Except Raised (List (Row F))
  | _, [] => .ok []
  | version, event :: rest => do
    let row ← rowOf runId (version + 1) event
    let rows ← rowsOf runId (version + 1) rest
    .ok (row :: rows)

/-- `replace(event, sequence=expected_version + offset)`, for the events of one call. -/
def numbered : ℕ → List (AgentEvent F) → List (AgentEvent F)
  | _, [] => []
  | version, event :: rest =>
    event.withSequence (version + 1) (Nat.succ_pos version) :: numbered (version + 1) rest

/-! ### Reading -/

/-- A value parsed from a stored payload has distinct keys, as it was read. -/
theorem parseCanonicalPayload_wellFormed {text : PyStr} {payload : Value F}
    (h : parseCanonicalPayload text = .ok payload) : payload.WellFormed := by
  unfold parseCanonicalPayload at h
  split at h
  · exact absurd h (by simp)
  · exact absurd h (by simp)
  · next value hvalue =>
    split at h
    · exact absurd h (by simp)
    · obtain ⟨text', -, h⟩ := bind_ok.mp h
      split_ifs at h
      exact Except.ok.inj h ▸ loads_wellFormed hvalue

/-- The `except AgentRuntimeError` clause of `load`. -/
def orInvalidEvent {α : Type} (result : Except Raised α) : Except Raised α :=
  match result with
  | .error e =>
    if e.isAgentError then
      .error (.integrity "invalid_persisted_event" "persisted event is invalid")
    else .error e
  | .ok a => .ok a

/-- The payload and the event of a stored row. -/
def eventOfRow (row : Row F) : Except Raised (AgentEvent F) :=
  let parsed : Except Raised (Value F) := parseCanonicalPayload row.payloadJson
  match h : parsed with
  | .error e => .error e
  | .ok payload =>
    AgentEvent.make row.eventId row.eventKind payload (parseCanonicalPayload_wellFormed h)
      row.occurredAtUtc row.eventVersion (some row.sequence)

/-- The body of the loop of `load`. -/
def loadRow (expected : ℕ) (row : Row F) : Except Raised (AgentEvent F) :=
  if row.sequence ≠ expected then
    .error (.integrity "event_gap" "event sequence is not contiguous")
  else
    (payloadDigest row.payloadJson).bind fun digest =>
      if digest ≠ row.payloadSha256 then
        .error (.integrity "hash_mismatch" "event payload hash does not match")
      else if row.eventVersion ≠ eventSchemaVersion then
        .error (.integrity "unknown_event_version" "unsupported event schema version")
      else orInvalidEvent (eventOfRow row)

def loadRows : ℕ → List (Row F) → Except Raised (List (AgentEvent F))
  | _, [] => .ok []
  | expected, row :: rest => do
    let event ← loadRow expected row
    let events ← loadRows (expected + 1) rest
    .ok (event :: events)

/-- `SELECT ... WHERE run_id=? ORDER BY sequence` -/
def selectRun (view : List (Row F)) (runId : PyStr) : List (Row F) :=
  (view.filter fun r => r.runId = runId).insertionSort fun a b => a.sequence ≤ b.sequence

/-- `load`, on the rows the connection sees. -/
def loadFrom (view : List (Row F)) (runId : PyStr) : Except Raised (List (AgentEvent F)) := do
  validateIdentifier runId "run_id"
  loadRows 1 (selectRun view runId)

/-! ### Writing -/

abbrev Connection := ℕ

structure Database (F : Type) [Host F] where
  rows : List (Row F)
  /-- the connection that holds the write lock, and the rows as it sees them -/
  transaction : Option (Connection × List (Row F))

def Database.empty : Database F := ⟨[], none⟩

/-- The rows a connection sees: its own transaction, or what is committed. -/
def Database.view (db : Database F) (connection : Connection) : List (Row F) :=
  match db.transaction with
  | some (owner, rows) => if owner = connection then rows else db.rows
  | none => db.rows

def Database.load (db : Database F) (connection : Connection) (runId : PyStr) :
    Except Raised (List (AgentEvent F)) := loadFrom (db.view connection) runId

/-- `SELECT COALESCE(MAX(sequence),0) ... WHERE run_id=?` -/
def maxSequence (view : List (Row F)) (runId : PyStr) : ℕ :=
  ((view.filter fun r => r.runId = runId).map Row.sequence).foldr max 0

/-- The texts of a row can be encoded, so that they can be bound to the statement. -/
def Row.bindable (row : Row F) : Bool :=
  ([row.runId, row.eventId, row.eventKind, row.occurredAtUtc, row.payloadJson,
      row.payloadSha256] ++ row.actionId.toList ++ row.invocationId.toList ++
    row.budgetClaimId.toList).all fun text => (encodeUtf8 text).isSome

/-- `executemany("INSERT ...")`: the rows before a refused one are in the transaction. -/
def insertAll : List (Row F) → List (Row F) → Except Raised Unit × List (Row F)
  | view, [] => (.ok (), view)
  | view, row :: rest =>
    if row.bindable = false then (.error (.builtin .unicodeEncodeError), view)
    else if view.any fun r => conflicts r row then (.error .sqliteIntegrity, view)
    else insertAll (view ++ [row]) rest

/-- One call of `append`.  `lockTaken` tells that the write lock could not be
had within the busy timeout. -/
structure Call (F : Type) [Host F] where
  connection : Connection
  lockTaken : Bool
  runId : PyStr
  expectedVersion : ℤ
  events : List (AgentEvent F)

/-- What the transaction checks before it inserts. -/
def checkAppend (view : List (Row F)) (call : Call F) : Except Raised Unit :=
  if (maxSequence view call.runId : ℤ) ≠ call.expectedVersion then
    .error (.agent .concurrencyConflict (py "version_conflict") (py "expected another version"))
  else do
    let existing ← loadFrom view call.runId
    let _ ← replay call.runId (existing ++ numbered call.expectedVersion.toNat call.events)
    .ok ()

/-- The rows of a call, built before the transaction is opened. -/
def prepare (call : Call F) : Except Raised (List (Row F)) := do
  validateIdentifier call.runId "run_id"
  if call.expectedVersion < 0 ∨ call.events = [] then .error (.builtin .valueError)
  else rowsOf call.runId call.expectedVersion.toNat call.events

/-- The exceptions whose `except` clause rolls the transaction back. -/
def Raised.rollsBack (e : Raised) : Bool := e.isAgentError || e = .sqliteIntegrity

/-- What the caller sees of a uniqueness violation. -/
def Raised.reported : Raised → Raised
  | .sqliteIntegrity => .integrity "duplicate_claim"
      "event, action, invocation, or budget claim already exists"
  | e => e

/-- The statements between BEGIN and COMMIT, with the rows as they leave them. -/
def inTransaction (view : List (Row F)) (call : Call F) (rows : List (Row F)) :
    Except Raised Unit × List (Row F) :=
  match checkAppend view call with
  | .error e => (.error e, view)
  | .ok () => insertAll view rows

/-- The transaction of `append`, from BEGIN to COMMIT, ROLLBACK or an exception
that no clause catches. -/
def transact (db : Database F) (call : Call F) (rows : List (Row F)) :
    Except Raised ℕ × Database F :=
  if db.transaction.isSome ∨ call.lockTaken then (.error .sqliteOperational, db)
  else
    let attempt := inTransaction db.rows call rows
    match attempt.1 with
    | .ok () => (.ok (call.expectedVersion.toNat + call.events.length), ⟨attempt.2, none⟩)
    | .error e =>
      if e.rollsBack then (.error e.reported, db)
      else (.error e, { db with transaction := some (call.connection, attempt.2) })

/-- `append` -/
def append (db : Database F) (call : Call F) : Except Raised ℕ × Database F :=
  match prepare call with
  | .error e => (.error e, db)
  | .ok rows => transact db call rows

/-- A sequence of calls by any number of writers. -/
def appendAll (db : Database F) : List (Call F) → Database F
  | [] => db
  | call :: rest => appendAll (append db call).2 rest

end Agent
