/-
The normalizer of tool results.

* `redact` — the substitution of `SECRET_PATTERN`;
* `checkEnvelope` — the checks of `ToolResultEnvelope` and of the `AgentError` in it;
* `normalize` — `DeterministicResultNormalizer.normalize`.
-/
import LlamaRuntime.Agent.Executor

open Json

namespace Agent

variable {F : Type} [Host F]

/-! ### Secrets -/

/-- `str.isspace` of a character, as `\s` matches it. -/
def isSpace (c : CodePoint) : Bool :=
  (0x09 ≤ c.val && c.val ≤ 0x0D) || (0x1C ≤ c.val && c.val ≤ 0x20) || c.val = 0x85 ||
    c.val = 0xA0 || c.val = 0x1680 || (0x2000 ≤ c.val && c.val ≤ 0x200A) || c.val = 0x2028 ||
    c.val = 0x2029 || c.val = 0x202F || c.val = 0x205F || c.val = 0x3000

/-- A letter of the pattern matches a character without regard to case: the i
with and without a dot, the Kelvin sign and the long s are cases of i, k and s. -/
def matchesLetter (letter c : CodePoint) : Bool :=
  c = letter || c.val + 0x20 = letter.val ||
    (letter.val = 0x69 && (c.val = 0x130 || c.val = 0x131)) ||
    (letter.val = 0x6B && c.val = 0x212A) || (letter.val = 0x73 && c.val = 0x17F)

/-- A word of small letters at the head of the text: the characters that match
it, and what follows them. -/
def matchWord : PyStr → PyStr → Option (PyStr × PyStr)
  | [], text => some ([], text)
  | _ :: _, [] => none
  | letter :: word, c :: text =>
    if matchesLetter letter c then
      (matchWord word text).map fun (matched, rest) => (c :: matched, rest)
    else none

/-- `api[_-]?key` -/
def matchApiKey (text : PyStr) : Option (PyStr × PyStr) :=
  (matchWord (py "api") text).bind fun (api, rest) =>
    match rest with
    | c :: rest' =>
      if c.val = 0x5F ∨ c.val = 0x2D then
        (matchWord (py "key") rest').map fun (key, rest) => (api ++ c :: key, rest)
      else (matchWord (py "key") rest).map fun (key, rest) => (api ++ key, rest)
    | [] => none

/-- `(api[_-]?key|password|secret|token)` -/
def matchName (text : PyStr) : Option (PyStr × PyStr) :=
  (matchApiKey text).or ((matchWord (py "password") text).or
    ((matchWord (py "secret") text).or (matchWord (py "token") text)))

/-- `\s*[:=]\s*([^\s]+)`: what follows the match. -/
def matchValue (text : PyStr) : Option PyStr :=
  match text.dropWhile isSpace with
  | c :: rest =>
    if c.val = 0x3A ∨ c.val = 0x3D then
      match rest.dropWhile isSpace with
      | [] => none
      | value => some (value.dropWhile fun d => !isSpace d)
    else none
  | [] => none

/-- `SECRET_PATTERN` at the head of the text: the name, and what follows the match. -/
def matchSecret (text : PyStr) : Option (PyStr × PyStr) :=
  (matchName text).bind fun (name, rest) => (matchValue rest).map fun rest => (name, rest)

/-- The substitution, from the left; the length of the text is fuel enough. -/
def redactFrom : ℕ → PyStr → PyStr
  | fuel + 1, c :: text =>
    match matchSecret (c :: text) with
    | some (name, rest) => name ++ py "=[REDACTED]" ++ redactFrom fuel rest
    | none => c :: redactFrom fuel text
  | _, _ => []

/-- `SECRET_PATTERN.sub(...)` -/
def redact (text : PyStr) : PyStr := redactFrom text.length text

/-! ### Envelopes -/

/-- `json.dumps({"summary": summary, "preview": preview}, ensure_ascii=False)` -/
def previewText (summary preview : PyStr) : PyStr :=
  py "\x7b\"summary\": " ++ quote summary ++ py ", \"preview\": " ++ quote preview ++ py "\x7d"

/-- `AgentError(...)` -/
def checkAgentError (error : AgentError) : Except Raised Unit := do
  validateIdentifier error.code "code"
  checkText error.message "message"

/-- `ToolResultEnvelope(...)`; the statuses that no result may have come last. -/
def checkEnvelope (envelope : ToolResultEnvelope) : Except Raised Unit := do
  validateIdentifier envelope.invocationId "invocation_id"
  validateIdentifier envelope.toolId "tool_id"
  validateIdentifier envelope.toolVersion "tool_version"
  checkText envelope.summary "summary"
  if envelope.status ∉ [.succeeded, .partialResult, .failed, .unknownOutcome] then
    .error (.contract "invalid_contract" (py "result status must be terminal"))
  else if envelope.status ∈ [.failed, .unknownOutcome] ∧ envelope.error = none then
    .error (.contract "invalid_contract" (py "failed results require a typed error"))
  else .ok ()

/-- The error of a raw result that failed. -/
def errorOf (raw : RawToolResult) : Option AgentError :=
  if raw.status = .failed ∨ raw.status = .unknownOutcome then
    some
      { code := (raw.errorCode.filter fun code => code ≠ []).getD (py "tool_failed")
        message := raw.summary
        retryScope := if raw.status = .unknownOutcome then .reconcileOnly else .never
        sideEffectState := raw.sideEffectState }
  else none

/-- The summary of a result, with a preview of its payload if there is any. -/
def summaryOf (raw : RawToolResult) (bounded : List UInt8) : PyStr :=
  if bounded = [] then raw.summary else previewText raw.summary (decodeUtf8Ignore bounded)

/-- The envelope of a raw result, with its redacted payload. -/
def envelopeOf (observationByteCap : ℕ) (raw : RawToolResult) (payload : List UInt8)
    (toolId toolVersion : PyStr) : ToolResultEnvelope :=
  { invocationId := raw.invocationId
    toolId, toolVersion
    status := raw.status
    summary := summaryOf raw (payload.take observationByteCap)
    dataRef := some (py "artifact://sha256/" ++ Sha256.hexdigest payload)
    dataHash := some (shaDigest payload)
    truncated := raw.truncated || decide ((payload.take observationByteCap).length < payload.length)
    sideEffectState := raw.sideEffectState
    error := errorOf raw }

/-- `DeterministicResultNormalizer.normalize`, with this `observation_byte_cap` -/
def normalize (observationByteCap : ℕ) (raw : RawToolResult) (toolId toolVersion : PyStr) :
    Act F ToolResultEnvelope :=
  match decodeUtf8 raw.payload with
  | none => .raise (.runtime "result_schema_invalid" "tool output is not UTF-8")
  | some text => do
    let payload ← Act.lift (encode (redact text))
    -- the artifact is written and verified
    Act.ask Reply.artifact
    let envelope := envelopeOf observationByteCap raw payload toolId toolVersion
    Act.lift ((errorOf raw).elim (.ok ()) checkAgentError)
    Act.lift (checkEnvelope envelope)
    pure envelope

end Agent
