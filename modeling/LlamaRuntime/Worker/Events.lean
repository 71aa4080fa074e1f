/-
Inference events, as the model worker streams them.

An event is built only where its ids, its sequence number and its payload pass
their checks and its text can be written; the structure carries all of that, and
the size of the text.

* `InferenceEvent.make` — the checks of `__post_init__`;
* `fromIpcFrame` — the event of a frame of the worker's pipe.
-/
import LlamaRuntime.Inference.Contracts
import LlamaRuntime.Worker.Ipc

namespace Worker

open Json
open Inference (IsBoundedText)

/-- `EVENT_PROTOCOL_VERSION` -/
def eventProtocolVersion : String := "inference-event.v1"

def maxCorrelationIdBytes : ℕ := 128
def maxPhaseBytes : ℕ := 64

inductive InferenceEventType where
  | STARTED
  | PHASE
  | FINAL_DELTA
  | PROGRESS
  | HEARTBEAT
  deriving DecidableEq

def InferenceEventType.value : InferenceEventType → String
  | STARTED => "started"
  | PHASE => "phase"
  | FINAL_DELTA => "final_delta"
  | PROGRESS => "progress"
  | HEARTBEAT => "heartbeat"

inductive EventValidationCode where
  | INVALID_EVENT
  | CORRELATION_MISMATCH
  | SEQUENCE_MISMATCH
  deriving DecidableEq

/-- What the code of this module raises. -/
inductive EventFault where
  /-- `EventValidationError(code, message)` -/
  | validation (code : EventValidationCode) (message : PyStr)
  /-- any other `ValueError`: a text that cannot be encoded, an integer above the
  interpreter's limit of digits, a limit or a timeout out of range -/
  | valueError (message : String)
  deriving DecidableEq

/-- `_invalid` -/
def invalid (message : String) : EventFault := .validation .INVALID_EVENT (py message)

/-- What an event carries. -/
inductive EventPayload where
  | started
  | phase (phase : PyStr)
  | finalDelta (delta : PyStr)
  | progress (phase : PyStr) (tokens : ℕ)
  | heartbeat (tokens : ℕ)
  deriving DecidableEq

namespace EventPayload

def eventType : EventPayload → InferenceEventType
  | started => .STARTED
  | phase _ => .PHASE
  | finalDelta _ => .FINAL_DELTA
  | progress _ _ => .PROGRESS
  | heartbeat _ => .HEARTBEAT

/-- The payloads `_validate_payload` lets through. -/
def Valid : EventPayload → Prop
  | started => True
  | .phase name => IsBoundedText name maxPhaseBytes
  | finalDelta delta => delta ≠ []
  | progress name _ => IsBoundedText name maxPhaseBytes
  | heartbeat _ => True

instance (p : EventPayload) : Decidable p.Valid := by
  cases p <;> unfold Valid <;> infer_instance

/-- The integers among the values of `as_dict`. -/
def numbers : EventPayload → List ℕ
  | progress _ tokens => [tokens]
  | heartbeat tokens => [tokens]
  | _ => []

/-- The fields of `as_dict` after the common ones, with the texts of their values. -/
def fields : EventPayload → List (PyStr × PyStr)
  | started => []
  | .phase name => [(py "phase", quote name)]
  | finalDelta delta => [(py "delta", quote delta)]
  | progress name tokens => [(py "phase", quote name), (py "tokens", intText tokens)]
  | heartbeat tokens => [(py "sampled_tokens", intText tokens)]

end EventPayload

/-- `to_json_bytes` -/
def eventBytes (requestId attemptId : PyStr) (sequence : ℕ) (payload : EventPayload) :
    Except EventFault (List UInt8) :=
  if (sequence :: payload.numbers).any fun n => Value.maxStrDigits < digitCount n then
    .error (.valueError "Exceeds the limit for integer string conversion")
  else
    let fields :=
      [(py "protocol_version", quote (py eventProtocolVersion)),
        (py "type", quote (py payload.eventType.value)),
        (py "request_id", quote requestId), (py "attempt_id", quote attemptId),
        (py "sequence", intText sequence)] ++ payload.fields
    match encodeUtf8 (openBrace :: commaJoin (fields.map fieldText) ++ [closeBrace]) with
    | none => .error (.valueError "surrogates not allowed")
    | some bytes => .ok bytes

structure InferenceEvent where
  requestId : PyStr
  attemptId : PyStr
  sequence : ℕ
  payload : EventPayload
  /-- `to_json_bytes()`, whose length is kept in `_encoded_size` -/
  encoded : List UInt8
  requestId_bounded : IsBoundedText requestId maxCorrelationIdBytes
  attemptId_bounded : IsBoundedText attemptId maxCorrelationIdBytes
  payload_valid : payload.Valid
  encoded_eq : eventBytes requestId attemptId sequence payload = .ok encoded
  deriving DecidableEq

namespace InferenceEvent

def eventType (event : InferenceEvent) : InferenceEventType := event.payload.eventType

def encodedSize (event : InferenceEvent) : ℕ := event.encoded.length

/-- `is_coalescible` -/
def isCoalescible (event : InferenceEvent) : Bool :=
  event.eventType = .PROGRESS ∨ event.eventType = .HEARTBEAT

/-- The text of a `final_delta` event. -/
def delta (event : InferenceEvent) : PyStr :=
  match event.payload with
  | .finalDelta delta => delta
  | _ => []

end InferenceEvent

section

variable {F : Type}

/-- `_validate_bounded_text` -/
def validateBoundedText (value : Value F) (name : String) (maxBytes : ℕ) :
    Except EventFault PyStr :=
  match value with
  | .str [] => .error (invalid s!"{name} must be a non-empty string of at most {maxBytes} bytes")
  | .str s =>
    match encodeUtf8 s with
    | none => .error (.valueError "surrogates not allowed")
    | some bytes =>
      if maxBytes < bytes.length then
        .error (invalid s!"{name} must be a non-empty string of at most {maxBytes} bytes")
      else if s.any fun c => CodePoint.IsControl c then
        .error (invalid s!"{name} must not contain control characters")
      else .ok s
  | _ => .error (invalid s!"{name} must be a non-empty string of at most {maxBytes} bytes")

/-- `_validate_non_negative_integer` -/
def validateNonNegativeInteger (value : Value F) (name : String) : Except EventFault ℕ :=
  match value with
  | .int n =>
    if n < 0 then .error (invalid s!"{name} must be a non-negative integer") else .ok n.toNat
  | _ => .error (invalid s!"{name} must be a non-negative integer")

/-- The arguments of the constructor; an argument that is left out is `None`. -/
structure EventFields (F : Type) where
  eventType : InferenceEventType
  requestId : Value F
  attemptId : Value F
  sequence : Value F
  phase : Value F := .null
  tokens : Value F := .null
  delta : Value F := .null

/-- `value is not None` -/
def given : Value F → Bool
  | .null => false
  | _ => true

/-- `_validate_payload` -/
def validatePayload (fields : EventFields F) : Except EventFault EventPayload :=
  match fields.eventType with
  | .STARTED =>
    if given fields.phase ∨ given fields.tokens ∨ given fields.delta then
      .error (invalid "started event must not carry a payload")
    else .ok .started
  | .PHASE => do
    let phase ← validateBoundedText fields.phase "phase" maxPhaseBytes
    if given fields.tokens ∨ given fields.delta then
      .error (invalid "phase event may only carry phase")
    else .ok (.phase phase)
  | .FINAL_DELTA =>
    match fields.delta with
    | .str delta =>
      if delta = [] then .error (invalid "final_delta event requires a non-empty delta string")
      else if given fields.phase ∨ given fields.tokens then
        .error (invalid "final_delta event may only carry delta")
      else .ok (.finalDelta delta)
    | _ => .error (invalid "final_delta event requires a non-empty delta string")
  | .PROGRESS => do
    let phase ← validateBoundedText fields.phase "phase" maxPhaseBytes
    let tokens ← validateNonNegativeInteger fields.tokens "tokens"
    if given fields.delta then .error (invalid "progress event must not carry delta")
    else .ok (.progress phase tokens)
  | .HEARTBEAT => do
    let tokens ← validateNonNegativeInteger fields.tokens "tokens"
    if given fields.phase ∨ given fields.delta then
      .error (invalid "heartbeat event may only carry tokens")
    else .ok (.heartbeat tokens)

theorem validateBoundedText_ok {value : Value F} {name : String} {maxBytes : ℕ} {s : PyStr}
    (h : validateBoundedText value name maxBytes = .ok s) :
    value = .str s ∧ IsBoundedText s maxBytes := by
  unfold validateBoundedText at h
  split at h
  · exact nomatch h
  · next s' hne =>
    cases hbytes : encodeUtf8 s' with
    | none =>
      rw [hbytes] at h
      exact nomatch h
    | some bytes =>
      rw [hbytes] at h
      dsimp only at h
      obtain ⟨hsurrogate, rfl⟩ := encodeUtf8_eq_some.mp hbytes
      by_cases hlong : maxBytes < (s'.flatMap CodePoint.utf8Bytes).length
      · rw [if_pos hlong] at h
        exact nomatch h
      rw [if_neg hlong] at h
      by_cases hcontrol : (s'.any fun c => CodePoint.IsControl c) = true
      · rw [if_pos hcontrol] at h
        exact nomatch h
      rw [if_neg hcontrol] at h
      obtain rfl := Except.ok.inj h
      refine ⟨rfl, fun hnil => hne hnil, hsurrogate, Nat.le_of_not_lt hlong, fun c hc hcc => ?_⟩
      exact hcontrol (List.any_eq_true.mpr ⟨c, hc, by simpa using hcc⟩)
  · exact nomatch h

theorem validateBoundedText_str {name : String} {maxBytes : ℕ} {s : PyStr}
    (h : IsBoundedText s maxBytes) : validateBoundedText (.str s : Value F) name maxBytes = .ok s := by
  obtain ⟨hne, hsurrogate, hlong, hcontrol⟩ := h
  have hbytes : encodeUtf8 s = some (s.flatMap CodePoint.utf8Bytes) :=
    encodeUtf8_eq_some.mpr ⟨hsurrogate, rfl⟩
  have hany : ¬ (s.any fun c => CodePoint.IsControl c) = true := by
    intro hcc
    obtain ⟨c, hc, hcc⟩ := List.any_eq_true.mp hcc
    exact hcontrol c hc (by simpa using hcc)
  cases s with
  | nil => exact absurd rfl hne
  | cons c rest =>
    rw [validateBoundedText, hbytes]
    · dsimp only
      rw [if_neg (Nat.not_lt.mpr hlong), if_neg hany]
    · exact nofun

theorem validatePayload_valid {fields : EventFields F} {payload : EventPayload}
    (h : validatePayload fields = .ok payload) : payload.Valid := by
  unfold validatePayload at h
  cases htype : fields.eventType with
  | STARTED =>
    rw [htype] at h
    dsimp only at h
    split at h
    · exact nomatch h
    · obtain rfl := Except.ok.inj h
      trivial
  | PHASE =>
    rw [htype] at h
    dsimp only at h
    cases hphase : validateBoundedText fields.phase "phase" maxPhaseBytes with
    | error e =>
      rw [hphase] at h
      exact nomatch h
    | ok phase =>
      rw [hphase] at h
      simp only [bind, Except.bind] at h
      split at h
      · exact nomatch h
      · obtain rfl := Except.ok.inj h
        exact (validateBoundedText_ok hphase).2
  | FINAL_DELTA =>
    rw [htype] at h
    dsimp only at h
    split at h
    · next delta hdelta =>
      by_cases hempty : delta = []
      · rw [if_pos hempty] at h
        exact nomatch h
      rw [if_neg hempty] at h
      split at h
      · exact nomatch h
      · obtain rfl := Except.ok.inj h
        exact hempty
    · exact nomatch h
  | PROGRESS =>
    rw [htype] at h
    dsimp only at h
    cases hphase : validateBoundedText fields.phase "phase" maxPhaseBytes with
    | error e =>
      rw [hphase] at h
      exact nomatch h
    | ok phase =>
      rw [hphase] at h
      cases htokens : validateNonNegativeInteger fields.tokens "tokens" with
      | error e =>
        rw [htokens] at h
        exact nomatch h
      | ok tokens =>
        rw [htokens] at h
        simp only [bind, Except.bind] at h
        split at h
        · exact nomatch h
        · obtain rfl := Except.ok.inj h
          exact (validateBoundedText_ok hphase).2
  | HEARTBEAT =>
    rw [htype] at h
    dsimp only at h
    cases htokens : validateNonNegativeInteger fields.tokens "tokens" with
    | error e =>
      rw [htokens] at h
      exact nomatch h
    | ok tokens =>
      rw [htokens] at h
      simp only [bind, Except.bind] at h
      split at h
      · exact nomatch h
      · obtain rfl := Except.ok.inj h
        trivial

/-- `InferenceEvent(...)`: the checks of `__post_init__`. -/
def InferenceEvent.make (fields : EventFields F) : Except EventFault InferenceEvent :=
  match hrequest : validateBoundedText fields.requestId "request_id" maxCorrelationIdBytes with
  | .error e => .error e
  | .ok requestId =>
    match hattempt : validateBoundedText fields.attemptId "attempt_id" maxCorrelationIdBytes with
    | .error e => .error e
    | .ok attemptId =>
      match validateNonNegativeInteger fields.sequence "sequence" with
      | .error e => .error e
      | .ok sequence =>
        match hpayload : validatePayload fields with
        | .error e => .error e
        | .ok payload =>
          match hbytes : eventBytes requestId attemptId sequence payload with
          | .error e => .error e
          | .ok encoded =>
            .ok ⟨requestId, attemptId, sequence, payload, encoded,
              (validateBoundedText_ok hrequest).2, (validateBoundedText_ok hattempt).2,
              validatePayload_valid hpayload, hbytes⟩

/-! ### Events of frames -/

/-- `InferenceEventType(value)` -/
def eventTypeOf (value : Option (Value F)) : Option InferenceEventType :=
  match value.bind Value.str? with
  | none => none
  | some s =>
    [.STARTED, .PHASE, .FINAL_DELTA, .PROGRESS, .HEARTBEAT].find? fun (t : InferenceEventType) =>
      s = py t.value

def commonKeys : List String := ["protocol_version", "type", "request_id", "attempt_id", "sequence"]

def payloadKeys : InferenceEventType → List String
  | .STARTED => []
  | .PHASE => ["phase"]
  | .FINAL_DELTA => ["delta"]
  | .PROGRESS => ["phase", "tokens"]
  | .HEARTBEAT => ["sampled_tokens"]

/-- `set(frame) == keys` -/
def hasKeys (frame : Frame F) (keys : List String) : Bool :=
  (frame.items.all fun item => decide (item.1 ∈ keys.map py)) ∧
    keys.all fun key => decide (py key ∈ frame.items.map Prod.fst)

/-- `from_ipc_frame` -/
def fromIpcFrame (frame : Frame F) : Except EventFault InferenceEvent :=
  if frame.text "protocol_version" ≠ py ipcVersion then
    .error (invalid "invalid IPC event frame or protocol version")
  else
    match eventTypeOf (frame.get "type") with
    | none => .error (invalid "IPC frame is not a supported inference event")
    | some eventType =>
      if ¬ hasKeys frame (commonKeys ++ payloadKeys eventType) then
        .error (invalid "IPC event frame has missing or unknown fields")
      else
        InferenceEvent.make
          { eventType := eventType
            requestId := (frame.get "request_id").getD .null
            attemptId := (frame.get "attempt_id").getD .null
            sequence := (frame.get "sequence").getD .null
            phase := (frame.get "phase").getD .null
            tokens := (frame.get "tokens").getD ((frame.get "sampled_tokens").getD .null)
            delta := (frame.get "delta").getD .null }

end

end Worker
