/-
Errors, identifiers and lifecycles of the agent runtime.

* `Raised` — what its functions raise: the runtime's own errors with their
  codes, and the built-in exceptions that no check turned into one of them;
* `validateIdentifier`, `checkText` — the checks of identifiers and texts, and
  the texts that pass them;
* `AgentRunLifecycle`, `ToolInvocationLifecycle` and the smaller enumerations,
  with the strings that stand for them in event payloads.
-/
import LlamaRuntime.Inference.Contracts

namespace Agent

open Inference (IsBoundedText)

/-! ### Errors -/

/-- The classes of `errors.py`; each is an `AgentRuntimeError`. -/
inductive ErrorClass where
  | agentRuntimeError
  | contractError
  | concurrencyConflict
  | integrityViolation
  deriving DecidableEq

/-- The built-in exceptions that can escape the runtime's own checks. -/
inductive Builtin where
  | typeError
  | attributeError
  | keyError
  | valueError
  | unicodeEncodeError
  | osError
  deriving DecidableEq

inductive Raised where
  | agent (cls : ErrorClass) (code message : PyStr)
  /-- `sqlite3.IntegrityError` -/
  | sqliteIntegrity
  /-- `sqlite3.OperationalError` -/
  | sqliteOperational
  | builtin (name : Builtin)
  deriving DecidableEq

namespace Raised

/-- `isinstance(error, AgentRuntimeError)` -/
def isAgentError : Raised → Bool
  | agent .. => true
  | _ => false

def runtime (code message : String) : Raised := agent .agentRuntimeError (py code) (py message)

def contract (code : String) (message : PyStr) : Raised :=
  agent .contractError (py code) message

def integrity (code message : String) : Raised :=
  agent .integrityViolation (py code) (py message)

@[simp] theorem isAgentError_runtime (code message : String) :
    (runtime code message).isAgentError = true := rfl

@[simp] theorem isAgentError_contract (code : String) (message : PyStr) :
    (contract code message).isAgentError = true := rfl

@[simp] theorem isAgentError_integrity (code message : String) :
    (integrity code message).isAgentError = true := rfl

end Raised

theorem bind_ok {α β : Type} {x : Except Raised α} {f : α → Except Raised β} {b : β} :
    (x >>= f) = .ok b ↔ ∃ a, x = .ok a ∧ f a = .ok b := by
  cases x with
  | error e => exact ⟨fun h => (nomatch h), fun ⟨_, h, _⟩ => (nomatch h)⟩
  | ok a => exact ⟨fun h => ⟨a, rfl, h⟩, fun ⟨_, h, hf⟩ => Except.ok.inj h ▸ hf⟩

/-! ### Bounded texts -/

/-- The common shape of `validate_identifier` and `_text`: a non-empty text of
at most `maxBytes` UTF-8 bytes without control characters.  `str.encode` raises
its own error at a surrogate. -/
def checkBounded (value : PyStr) (field : String) (maxBytes : ℕ)
    (code longCode longMessage : String) : Except Raised Unit :=
  if value = [] then .error (.contract code (py s!"{field} must be a non-empty string"))
  else
    match encodeUtf8 value with
    | none => .error (.builtin .unicodeEncodeError)
    | some bytes =>
      if maxBytes < bytes.length then .error (.contract longCode (py s!"{field} {longMessage}"))
      else if value.any fun c => CodePoint.IsControl c then
        .error (.contract code (py s!"{field} contains a control character"))
      else .ok ()

theorem checkBounded_ok {value : PyStr} {field : String} {maxBytes : ℕ}
    {code longCode longMessage : String} :
    checkBounded value field maxBytes code longCode longMessage = .ok () ↔
      IsBoundedText value maxBytes := by
  unfold checkBounded IsBoundedText
  by_cases hempty : value = []
  · simp [hempty]
  · rw [if_neg hempty]
    cases h : encodeUtf8 value with
    | none =>
      have hsur : ¬ ∀ c ∈ value, ¬ c.IsSurrogate := fun hall => by
        have := encodeUtf8_eq_some.mpr ⟨hall, rfl⟩
        rw [h] at this
        exact absurd this (by simp)
      simp [hsur]
    | some bytes =>
      obtain ⟨hsur, hbytes⟩ := encodeUtf8_eq_some.mp h
      subst hbytes
      dsimp only
      split_ifs with hlen hctl
      · refine ⟨fun h => (nomatch h), fun h => absurd h.2.2.1 (not_le.mpr hlen)⟩
      · have hsome : ∃ c ∈ value, c.IsControl := by simpa using hctl
        obtain ⟨c, hc, hcc⟩ := hsome
        exact ⟨fun h => (nomatch h), fun h => absurd hcc (h.2.2.2 c hc)⟩
      · have hnone : ∀ c ∈ value, ¬ c.IsControl := by simpa using hctl
        exact ⟨fun _ => ⟨hempty, hsur, not_lt.mp hlen, hnone⟩, fun _ => rfl⟩

/-- A text check raises a contract error or stops at a surrogate. -/
theorem checkBounded_error {value : PyStr} {field : String} {maxBytes : ℕ}
    {code longCode longMessage : String} {e : Raised}
    (h : checkBounded value field maxBytes code longCode longMessage = .error e) :
    e.isAgentError = true ∨
      (e = .builtin .unicodeEncodeError ∧ ∃ c ∈ value, CodePoint.IsSurrogate c) := by
  unfold checkBounded at h
  by_cases hempty : value = []
  · rw [if_pos hempty] at h
    cases h
    exact .inl rfl
  · rw [if_neg hempty] at h
    cases henc : encodeUtf8 value with
    | none =>
      rw [henc] at h
      cases h
      refine .inr ⟨rfl, ?_⟩
      by_contra hall
      have : encodeUtf8 value = some _ :=
        encodeUtf8_eq_some.mpr ⟨fun c hc hs => hall ⟨c, hc, hs⟩, rfl⟩
      rw [henc] at this
      exact absurd this (by simp)
    | some bytes =>
      rw [henc] at h
      dsimp only at h
      split_ifs at h
      · cases h
        exact .inl rfl
      · cases h
        exact .inl rfl

def maxIdBytes : ℕ := 128

def maxTextBytes : ℕ := 8192

/-- `validate_identifier` of a string -/
def validateIdentifier (value : PyStr) (field : String) : Except Raised Unit :=
  checkBounded value field maxIdBytes "invalid_identifier" "invalid_identifier"
    s!"exceeds {maxIdBytes} UTF-8 bytes"

/-- `_text` of a string -/
def checkText (value : PyStr) (field : String) : Except Raised Unit :=
  checkBounded value field maxTextBytes "invalid_contract" "contract_too_large"
    "exceeds its UTF-8 byte cap"

abbrev IsIdentifier (value : PyStr) : Prop := IsBoundedText value maxIdBytes

abbrev IsText (value : PyStr) : Prop := IsBoundedText value maxTextBytes

theorem validateIdentifier_ok {value : PyStr} {field : String} :
    validateIdentifier value field = .ok () ↔ IsIdentifier value := checkBounded_ok

theorem checkText_ok {value : PyStr} {field : String} :
    checkText value field = .ok () ↔ IsText value := checkBounded_ok

/-! ### Enumerations -/

inductive AgentRunLifecycle where
  | ready | deciding | waitingTool | observing | synthesizing | verifying | succeeded | blocked
  | failed | waitingUser | paused | cancelled | timedOut | budgetExhausted
  deriving DecidableEq

namespace AgentRunLifecycle

def value : AgentRunLifecycle → PyStr
  | ready => py "ready"
  | deciding => py "deciding"
  | waitingTool => py "waiting_tool"
  | observing => py "observing"
  | synthesizing => py "synthesizing"
  | verifying => py "verifying"
  | succeeded => py "succeeded"
  | blocked => py "blocked"
  | failed => py "failed"
  | waitingUser => py "waiting_user"
  | paused => py "paused"
  | cancelled => py "cancelled"
  | timedOut => py "timed_out"
  | budgetExhausted => py "budget_exhausted"

def members : List AgentRunLifecycle :=
  [ready, deciding, waitingTool, observing, synthesizing, verifying, succeeded, blocked, failed,
    waitingUser, paused, cancelled, timedOut, budgetExhausted]

/-- `AgentRunLifecycle(text)` -/
def ofValue (text : PyStr) : Option AgentRunLifecycle := members.find? fun l => l.value = text

theorem ofValue_value (l : AgentRunLifecycle) : ofValue l.value = some l := by
  cases l <;> rfl

end AgentRunLifecycle

inductive ToolInvocationLifecycle where
  | proposed | argsReady | needsResolution | authorized | waitingApproval | denied | dispatched
  | succeeded | partialResult | failed | unknownOutcome
  deriving DecidableEq

namespace ToolInvocationLifecycle

def value : ToolInvocationLifecycle → PyStr
  | proposed => py "proposed"
  | argsReady => py "args_ready"
  | needsResolution => py "needs_resolution"
  | authorized => py "authorized"
  | waitingApproval => py "waiting_approval"
  | denied => py "denied"
  | dispatched => py "dispatched"
  | succeeded => py "succeeded"
  | partialResult => py "partial"
  | failed => py "failed"
  | unknownOutcome => py "unknown_outcome"

def members : List ToolInvocationLifecycle :=
  [proposed, argsReady, needsResolution, authorized, waitingApproval, denied, dispatched,
    succeeded, partialResult, failed, unknownOutcome]

/-- `ToolInvocationLifecycle(text)` -/
def ofValue (text : PyStr) : Option ToolInvocationLifecycle :=
  members.find? fun l => l.value = text

theorem ofValue_value (l : ToolInvocationLifecycle) : ofValue l.value = some l := by
  cases l <;> rfl

end ToolInvocationLifecycle

inductive SideEffectState where
  | none | notDispatched | applied | partialEffect | unknown
  deriving DecidableEq

def SideEffectState.value : SideEffectState → PyStr
  | none => py "none"
  | notDispatched => py "not_dispatched"
  | applied => py "applied"
  | partialEffect => py "partial"
  | unknown => py "unknown"

inductive EffectClass where
  | readOnly | idempotentMutation | nonIdempotentMutation
  deriving DecidableEq

def EffectClass.value : EffectClass → PyStr
  | readOnly => py "read_only"
  | idempotentMutation => py "idempotent_mutation"
  | nonIdempotentMutation => py "non_idempotent_mutation"

inductive AuthorizationDecision where
  | allow | deny | requireApproval
  deriving DecidableEq

def AuthorizationDecision.value : AuthorizationDecision → PyStr
  | allow => py "allow"
  | deny => py "deny"
  | requireApproval => py "require_approval"

inductive FlowPolicy where
  | directReturnSafe | synthesizeNoTools | replanWithObservation | verifyThenReplan
  | pauseForApproval | persistAndStop | handoff
  deriving DecidableEq

def FlowPolicy.value : FlowPolicy → PyStr
  | directReturnSafe => py "direct_return_safe"
  | synthesizeNoTools => py "synthesize_no_tools"
  | replanWithObservation => py "replan_with_observation"
  | verifyThenReplan => py "verify_then_replan"
  | pauseForApproval => py "pause_for_approval"
  | persistAndStop => py "persist_and_stop"
  | handoff => py "handoff"

inductive DecisionAction where
  | callTool | askUser | submit | blocked
  deriving DecidableEq

def DecisionAction.value : DecisionAction → PyStr
  | callTool => py "call_tool"
  | askUser => py "ask_user"
  | submit => py "submit"
  | blocked => py "blocked"

end Agent
