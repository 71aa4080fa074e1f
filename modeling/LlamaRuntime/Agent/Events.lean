/-
Agent events and the canonical text of their payloads.

* `Host` — what the model leaves to the interpreter and to SQLite: floats,
  which texts are read as UTC times, `str` of a value that is no string, and the
  key SQLite indexes a value by;
* `canonicalJson`, `parseCanonicalPayload` — the text of a payload and the way
  back; `parseCanonicalPayload_canonicalJson` closes the circle;
* `AgentEvent` — an event that passed the checks of its constructor, with
  these checks as fields; `AgentEvent.make` is the constructor.
-/
import LlamaRuntime.Json.RoundTrip
import LlamaRuntime.Python.Sha256
import LlamaRuntime.Agent.Contracts

open Json

/-- The parts of the interpreter and of SQLite that only matter through a few laws. -/
class Host (F : Type) extends Floats F where
  /-- `datetime.fromisoformat(text.replace("Z", "+00:00"))` is a time in UTC. -/
  readsAsUtc : PyStr → Bool
  /-- `str(value)` of a value that is no string -/
  strOf : Value F → PyStr
  /-- Keys of an index on `json_extract`. -/
  IndexKey : Type
  decEqKey : DecidableEq IndexKey
  /-- The key of a value; a JSON null is extracted as an SQL NULL, which has none. -/
  indexKey : Value F → Option IndexKey
  indexKey_eq_none : ∀ v, indexKey v = none ↔ v = .null
  /-- A value read back is the value SQLite saw in the text. -/
  indexKey_normal : ∀ v, indexKey v.normal = indexKey v

attribute [reducible, instance] Host.decEqKey

namespace Agent

variable {F : Type} [Host F]

/-! ### Payload texts -/

/-- `canonical_json`: the non-finite numbers are refused first, then `json.dumps`
refuses integers beyond the interpreter's limit. -/
def canonicalJson (value : Value F) : Except Raised PyStr :=
  if ¬ value.all Value.finiteNumber then
    .error (.contract "invalid_contract" (py "non-finite number"))
  else if ¬ value.all Value.shortNumber then
    .error (.contract "invalid_event" (py "event payload is not canonical JSON data"))
  else .ok (dumps value)

theorem canonicalJson_of_writable {value : Value F} (h : value.Writable) :
    canonicalJson value = .ok (dumps value) := by
  obtain ⟨hf, hs, -⟩ := Value.writable_iff.mp h
  rw [canonicalJson, if_neg (by simp [hf]), if_neg (by simp [hs])]

theorem writable_of_canonicalJson {value : Value F} (hwf : value.WellFormed) {text : PyStr}
    (h : canonicalJson value = .ok text) : value.Writable ∧ text = dumps value := by
  unfold canonicalJson at h
  split_ifs at h with hf hs
  exact ⟨Value.writable_iff.mpr ⟨hf, hs, hwf⟩, (Except.ok.inj h).symm⟩

theorem canonicalJson_error {value : Value F} {e : Raised} (h : canonicalJson value = .error e) :
    e.isAgentError = true := by
  unfold canonicalJson at h
  split_ifs at h <;> cases h <;> rfl

/-- `payload_digest` -/
def payloadDigest (payloadJson : PyStr) : Except Raised PyStr :=
  match encodeUtf8 payloadJson with
  | none => .error (.builtin .unicodeEncodeError)
  | some bytes => .ok (py "sha256:" ++ Sha256.hexdigest bytes)

/-- `parse_canonical_payload`: strict JSON, an object, and its own canonical text. -/
def parseCanonicalPayload (payloadJson : PyStr) : Except Raised (Value F) :=
  match loads payloadJson with
  | .error .digits => .error (.builtin .valueError)
  | .error _ =>
    .error (.contract "invalid_event" (py "persisted payload is not strict JSON"))
  | .ok value =>
    match value.dict? with
    | none => .error (.contract "invalid_event" (py "persisted payload is not canonical JSON"))
    | some _ =>
      (canonicalJson value).bind fun text =>
        if text ≠ payloadJson then
          .error (.contract "invalid_event" (py "persisted payload is not canonical JSON"))
        else .ok value

theorem normal_writable {v : Value F} (h : v.Writable) : v.normal.Writable := by
  obtain ⟨hf, hs, hwf⟩ := Value.writable_iff.mp h
  exact Value.writable_iff.mpr ⟨(Value.all_normal Value.finiteNumber_normal v).trans hf,
    (Value.all_normal Value.shortNumber_normal v).trans hs, hwf.normal⟩

/-- A canonical text of an object is parsed to the object, in normal form. -/
theorem parseCanonicalPayload_dumps {v : Value F} (h : v.Writable)
    (hd : (v.dict?).isSome = true) : parseCanonicalPayload (dumps v) = .ok v.normal := by
  obtain ⟨items, hitems⟩ := Option.isSome_iff_exists.mp hd
  have hn : v.normal.dict? = some (sortKeys (items.map fun f => (f.1, f.2.normal))) := by
    rw [Value.dict?_normal, hitems, Option.map_some]
  rw [parseCanonicalPayload, loads_dumps h]
  simp only [hn, canonicalJson_of_writable (normal_writable h), dumps_normal, Except.bind]
  rw [if_neg (not_not.mpr rfl)]

/-! ### Events -/

def eventSchemaVersion : ℤ := 1

/-- `KNOWN_EVENT_KINDS` -/
inductive EventKind where
  | runCreated | runTransition | toolProposed | toolTransition | budgetConsumed
  | decisionRecorded | inferenceCompleted | argumentsCompiled | authorizationRecorded
  | dispatchStarted | resultRecorded | flowDecided | acceptanceDecided
  deriving DecidableEq

namespace EventKind

def value : EventKind → PyStr
  | runCreated => py "run_created"
  | runTransition => py "run_transition"
  | toolProposed => py "tool_proposed"
  | toolTransition => py "tool_transition"
  | budgetConsumed => py "budget_consumed"
  | decisionRecorded => py "decision_recorded"
  | inferenceCompleted => py "inference_completed"
  | argumentsCompiled => py "arguments_compiled"
  | authorizationRecorded => py "authorization_recorded"
  | dispatchStarted => py "dispatch_started"
  | resultRecorded => py "result_recorded"
  | flowDecided => py "flow_decided"
  | acceptanceDecided => py "acceptance_decided"

def members : List EventKind :=
  [runCreated, runTransition, toolProposed, toolTransition, budgetConsumed, decisionRecorded,
    inferenceCompleted, argumentsCompiled, authorizationRecorded, dispatchStarted,
    resultRecorded, flowDecided, acceptanceDecided]

def ofValue (text : PyStr) : Option EventKind := members.find? fun k => k.value = text

theorem ofValue_value (k : EventKind) : ofValue k.value = some k := by
  cases k <;> rfl

end EventKind

/-- An event that its constructor accepts.  The schema version, which is the
same for all of them, is kept in the stored rows only. -/
structure AgentEvent (F : Type) [Host F] where
  eventId : PyStr
  eventKind : EventKind
  payload : Value F
  occurredAtUtc : PyStr
  sequence : Option ℕ
  id_ok : IsIdentifier eventId
  payload_ok : payload.Writable
  utc_ok : Host.readsAsUtc F occurredAtUtc = true
  sequence_ok : ∀ n ∈ sequence, 0 < n

namespace AgentEvent

/-- `AgentEvent(...)` with the checks of `__post_init__`, in their order. -/
def make (eventId eventKind : PyStr) (payload : Value F) (hwf : payload.WellFormed)
    (occurredAtUtc : PyStr) (eventVersion : ℤ) (sequence : Option ℕ) :
    Except Raised (AgentEvent F) :=
  match hid : validateIdentifier eventId "event_id" with
  | .error e => .error e
  | .ok () =>
    match EventKind.ofValue eventKind with
    | none =>
      .error (.contract "unknown_event_kind" (py "unknown event kind: " ++ eventKind))
    | some kind =>
      if eventVersion ≠ eventSchemaVersion then
        .error (.contract "unknown_event_version" (py "unsupported event schema version"))
      else if hseq : ∃ n ∈ sequence, n = 0 then
        .error (.contract "invalid_event" (py "sequence must be a positive integer"))
      else if hutc : Host.readsAsUtc F occurredAtUtc = true then
        match hjson : canonicalJson payload with
        | .error e => .error e
        | .ok _ => .ok
            { eventId, eventKind := kind, payload, occurredAtUtc, sequence
              id_ok := validateIdentifier_ok.mp hid
              payload_ok := (writable_of_canonicalJson hwf hjson).1
              utc_ok := hutc
              sequence_ok := fun n hn => Nat.pos_of_ne_zero fun h => hseq ⟨n, hn, h⟩ }
      else .error (.contract "invalid_event" (py "occurred_at_utc must be UTC"))

/-- `replace(event, sequence=n)`: the checks are made again, on fields that passed them. -/
def withSequence (event : AgentEvent F) (n : ℕ) (h : 0 < n) : AgentEvent F :=
  { event with sequence := some n, sequence_ok := fun _ hm => Option.some_inj.mp hm ▸ h }

/-- The event read back from the store: its payload in normal form. -/
def normal (event : AgentEvent F) : AgentEvent F :=
  { event with payload := event.payload.normal, payload_ok := normal_writable event.payload_ok }

@[simp] theorem withSequence_eventId (event : AgentEvent F) {n : ℕ} (h : 0 < n) :
    (event.withSequence n h).eventId = event.eventId := rfl

@[simp] theorem withSequence_eventKind (event : AgentEvent F) {n : ℕ} (h : 0 < n) :
    (event.withSequence n h).eventKind = event.eventKind := rfl

@[simp] theorem withSequence_payload (event : AgentEvent F) {n : ℕ} (h : 0 < n) :
    (event.withSequence n h).payload = event.payload := rfl

@[simp] theorem withSequence_occurredAtUtc (event : AgentEvent F) {n : ℕ} (h : 0 < n) :
    (event.withSequence n h).occurredAtUtc = event.occurredAtUtc := rfl

@[simp] theorem withSequence_sequence (event : AgentEvent F) {n : ℕ} (h : 0 < n) :
    (event.withSequence n h).sequence = some n := rfl

@[simp] theorem normal_eventId (event : AgentEvent F) : event.normal.eventId = event.eventId := rfl

@[simp] theorem normal_eventKind (event : AgentEvent F) :
    event.normal.eventKind = event.eventKind := rfl

@[simp] theorem normal_payload (event : AgentEvent F) :
    event.normal.payload = event.payload.normal := rfl

@[simp] theorem normal_occurredAtUtc (event : AgentEvent F) :
    event.normal.occurredAtUtc = event.occurredAtUtc := rfl

@[simp] theorem normal_sequence (event : AgentEvent F) :
    event.normal.sequence = event.sequence := rfl

theorem ext_fields {a b : AgentEvent F} (hid : a.eventId = b.eventId)
    (hkind : a.eventKind = b.eventKind) (hpayload : a.payload = b.payload)
    (hutc : a.occurredAtUtc = b.occurredAtUtc) (hseq : a.sequence = b.sequence) : a = b := by
  cases a
  cases b
  dsimp only at hid hkind hpayload hutc hseq
  subst hid hkind hpayload hutc hseq
  rfl

@[simp] theorem normal_normal (event : AgentEvent F) : event.normal.normal = event.normal :=
  ext_fields rfl rfl (Value.normal_normal _) rfl rfl

@[simp] theorem normal_withSequence (event : AgentEvent F) {n : ℕ} (h : 0 < n) :
    (event.withSequence n h).normal = event.normal.withSequence n h := rfl

/-- The constructor accepts the fields of an event, and gives that event. -/
theorem make_fields (event : AgentEvent F) :
    make event.eventId event.eventKind.value event.payload event.payload_ok.wellFormed
      event.occurredAtUtc eventSchemaVersion event.sequence = .ok event := by
  have hid : validateIdentifier event.eventId "event_id" = .ok () :=
    validateIdentifier_ok.mpr event.id_ok
  have hseq : ¬ ∃ n ∈ event.sequence, n = 0 := by
    rintro ⟨n, hn, rfl⟩
    exact absurd (event.sequence_ok 0 hn) (Nat.lt_irrefl 0)
  have hjson := canonicalJson_of_writable event.payload_ok
  unfold make
  split
  · next e he =>
    rw [hid] at he
    exact absurd he (by simp)
  · rw [EventKind.ofValue_value]
    dsimp only
    rw [if_neg (not_not.mpr rfl), dif_neg hseq, dif_pos event.utc_ok]
    split
    · next e he =>
      rw [hjson] at he
      exact absurd he (by simp)
    · rfl

end AgentEvent

/-! ### A small host

One float, one time: enough to run the definitions on payloads of texts, integers
and truth values. -/

/-- The time of every sample event. -/
def sampleTime : PyStr := py "2026-01-01T00:00:00Z"

/-- A time that is read although it has no encoding: any character may separate
the date from the hour. -/
def unencodableTime : PyStr := py "2026-01-01" ++ 0xD800 :: py "00:00:00Z"

/-- The keys of strings; other values than null have one key in common. -/
def sampleKey : Value Unit → Option PyStr
  | .null => none
  | .str s => some s
  | _ => some []

instance : Host Unit where
  isFinite _ := true
  isZero _ := true
  repr _ := zeroText
  ofText _ := ()
  ofText_repr _ _ := rfl
  readsAsUtc text := text = sampleTime ∨ text = unencodableTime
  strOf _ := []
  IndexKey := PyStr
  decEqKey := inferInstance
  indexKey := sampleKey
  indexKey_eq_none v := by cases v <;> simp [sampleKey]
  indexKey_normal v := by cases v <;> simp [sampleKey]

/-- The event that stands in for a sample whose fields are refused. -/
def refusedSample : AgentEvent Unit where
  eventId := py "refused"
  eventKind := .runCreated
  payload := .null
  occurredAtUtc := sampleTime
  sequence := none
  id_ok := by decide
  payload_ok := rfl
  utc_ok := decide_eq_true (.inl rfl)
  sequence_ok := fun _ h => (nomatch h)

/-- An event on the small host. -/
def sampleEvent (eventId : String) (kind : EventKind) (items : List (String × Value Unit))
    (sequence : Option ℕ) : AgentEvent Unit :=
  let payload : Value Unit := .dict (items.map fun f => (py f.1, f.2))
  if hwf : payload.WellFormed then
    match AgentEvent.make (py eventId) kind.value payload hwf sampleTime eventSchemaVersion
      sequence with
    | .ok event => event
    | .error _ => refusedSample
  else refusedSample

/-- Sample events, numbered from `n`. -/
def sampleStream (n : ℕ) : List (EventKind × List (String × Value Unit)) → List (AgentEvent Unit)
  | [] => []
  | (kind, items) :: rest =>
    sampleEvent s!"e{n}" kind items (some n) :: sampleStream (n + 1) rest

/-- The payload of a `run_created` with the same amount in every budget. -/
def sampleBudgets (amount : ℤ) : List (String × Value Unit) :=
  [("budgets", .dict
    [(py "turns", .int amount), (py "inference_tokens", .int amount),
      (py "inference_ms", .int amount), (py "tool_calls", .int amount),
      (py "tool_attempts", .int amount), (py "resolver_calls", .int amount),
      (py "retries", .int amount), (py "result_bytes", .int amount),
      (py "context_bytes", .int amount), (py "deadline_utc", .null)])]

def sampleText (s : String) : Value Unit := .str (py s)

end Agent
