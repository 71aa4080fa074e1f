/-
The typed contracts between the scheduler and its backends.

Every value that crosses the boundary validates its own fields when it is
built.  The checks the scheduler relies on are carried by the structures here,
and the one constructor the scheduler calls with data it does not control,
`SchedulerEvent`, is the partial function `SchedulerEvent.make`.
-/
import LlamaRuntime.Python.Str
import Mathlib.Data.Rat.Defs
import Mathlib.Algebra.Order.Ring.Rat

namespace Inference

def maxIdentifierBytes : ℕ := 256
def maxServiceClassBytes : ℕ := 64
def maxErrorCodeBytes : ℕ := 128
def maxSchedulingWeight : ℕ := 1000000

theorem one_le_maxSchedulingWeight : 1 ≤ maxSchedulingWeight := by decide

/-- Why a contract value could not be built. -/
inductive ContractError where
  /-- `ContractValidationError(field, message)` -/
  | validation (field message : String)
  /-- `str.encode("utf-8")` met a surrogate. -/
  | unicodeEncode
  deriving DecidableEq

/-- `_bounded_text`: the text itself, or the first check it fails. -/
def boundedText (value : PyStr) (field : String) (maxBytes : ℕ) : Except ContractError PyStr :=
  if value = [] then .error (.validation field "must be a non-empty string")
  else
    match encodeUtf8 value with
    | none => .error .unicodeEncode
    | some bytes =>
      if maxBytes < bytes.length then
        .error (.validation field s!"must be at most {maxBytes} UTF-8 bytes")
      else if value.any fun c => CodePoint.IsControl c then
        .error (.validation field "must not contain control characters")
      else .ok value

/-- The texts `_bounded_text` lets through. -/
def IsBoundedText (value : PyStr) (maxBytes : ℕ) : Prop :=
  value ≠ [] ∧ (∀ c ∈ value, ¬ CodePoint.IsSurrogate c) ∧
    (value.flatMap CodePoint.utf8Bytes).length ≤ maxBytes ∧
    ∀ c ∈ value, ¬ CodePoint.IsControl c

instance (value : PyStr) (maxBytes : ℕ) : Decidable (IsBoundedText value maxBytes) :=
  -- over the characters of the text, not over all code points
  have : Decidable (∀ c ∈ value, ¬ CodePoint.IsSurrogate c) := List.decidableBAll _ _
  have : Decidable (∀ c ∈ value, ¬ CodePoint.IsControl c) := List.decidableBAll _ _
  inferInstanceAs (Decidable (_ ∧ _ ∧ _ ∧ _))

theorem boundedText_ok {value : PyStr} {field : String} {maxBytes : ℕ} {result : PyStr} :
    boundedText value field maxBytes = .ok result ↔
      IsBoundedText value maxBytes ∧ result = value := by
  unfold boundedText IsBoundedText
  by_cases hempty : value = []
  · simp [hempty]
  rw [if_neg hempty]
  cases henc : encodeUtf8 value with
  | none =>
    have hsur : ¬ ∀ c ∈ value, ¬ CodePoint.IsSurrogate c := by
      intro h
      rw [encodeUtf8_eq_some.mpr ⟨h, rfl⟩] at henc
      exact absurd henc (by simp)
    simp only [reduceCtorEq, false_iff]
    exact fun h => hsur h.1.2.1
  | some bytes =>
    obtain ⟨hsur, rfl⟩ := encodeUtf8_eq_some.mp henc
    dsimp only
    split_ifs with hlen hctl
    · simp only [false_iff]
      exact fun h => absurd h.1.2.2.1 (by omega)
    · simp only [false_iff]
      obtain ⟨c, hc, hcc⟩ := List.any_eq_true.mp hctl
      exact fun h => h.1.2.2.2 c hc (by simpa using hcc)
    · simp only [Except.ok.injEq]
      constructor
      · rintro rfl
        exact ⟨⟨hempty, hsur, by omega, fun c hc hcc =>
          hctl (List.any_eq_true.mpr ⟨c, hc, by simpa using hcc⟩)⟩, rfl⟩
      · exact fun h => h.2.symm

/-- Printable ASCII, the alphabet of the codes the runtime writes itself. -/
def IsPrintable (c : Char) : Bool := 0x20 ≤ c.toNat && c.toNat < 0x7F

theorem isBoundedText_py {s : String} {n : ℕ} (hne : s.toList ≠ []) (hlen : s.toList.length ≤ n)
    (hall : s.toList.all IsPrintable = true) : IsBoundedText (py s) n := by
  have hc : ∀ c ∈ py s, 0x20 ≤ c.val ∧ c.val < 0x7F := by
    intro c hc
    obtain ⟨d, hd, rfl⟩ := List.mem_map.mp hc
    have := List.all_eq_true.mp hall d hd
    simpa [IsPrintable, CodePoint.ofChar] using this
  have hsize : ∀ t : PyStr, (∀ c ∈ t, 0x20 ≤ c.val ∧ c.val < 0x7F) →
      (t.flatMap CodePoint.utf8Bytes).length = t.length := by
    intro t
    induction t with
    | nil => exact fun _ => rfl
    | cons c t ih =>
      intro h
      have h1 := h c (by simp)
      have hb : c.utf8Bytes.length = 1 := by
        rw [CodePoint.length_utf8Bytes, CodePoint.utf8Size, if_pos (by omega)]
      rw [List.flatMap_cons, List.length_append, hb, ih fun d hd => h d (List.mem_cons_of_mem _ hd),
        List.length_cons, Nat.add_comm]
  refine ⟨by simpa [py] using hne, ?_, ?_, ?_⟩
  · intro c h hs
    have := hc c h
    unfold CodePoint.IsSurrogate at hs
    omega
  · rw [hsize _ hc]
    simpa [py] using hlen
  · intro c h hs
    have := hc c h
    unfold CodePoint.IsControl at hs
    omega

/-- An error names the field it checks, unless the text cannot be encoded. -/
theorem boundedText_error {value : PyStr} {field : String} {maxBytes : ℕ} {e : ContractError}
    (h : boundedText value field maxBytes = .error e) :
    e = .unicodeEncode ∨ ∃ message, e = .validation field message := by
  unfold boundedText at h
  by_cases hempty : value = []
  · rw [if_pos hempty] at h
    exact .inr ⟨_, (Except.error.inj h).symm⟩
  rw [if_neg hempty] at h
  cases henc : encodeUtf8 value with
  | none =>
    rw [henc] at h
    exact .inl (Except.error.inj h).symm
  | some bytes =>
    rw [henc] at h
    dsimp only at h
    split_ifs at h
    · exact .inr ⟨_, (Except.error.inj h).symm⟩
    · exact .inr ⟨_, (Except.error.inj h).symm⟩

/-- Opaque identity of a sequence within one backend process generation. -/
structure SequenceHandle where
  backend : PyStr
  model : PyStr
  sequence : PyStr
  generation : ℕ
  deriving DecidableEq

/-- The promises of a backend that steps batches of sequences, with the limits
`require_batch_steppable_backend` and `BackendCapabilities` check. -/
structure BackendCapabilities where
  backend : PyStr
  maxContextTokens : ℕ
  maxConcurrentSequences : ℕ
  maxPrefillTokensPerStep : ℕ
  maxDecodeTokensPerStep : ℕ
  maxSequencesPerStep : ℕ
  context_pos : 0 < maxContextTokens
  prefill_pos : 0 < maxPrefillTokensPerStep
  decode_pos : 0 < maxDecodeTokensPerStep
  batches : 2 ≤ maxSequencesPerStep
  sequences_le : maxSequencesPerStep ≤ maxConcurrentSequences

/-- Policy metadata of a request; the identifiers stay opaque. -/
structure SchedulingMetadata where
  requestId : PyStr
  workflowId : PyStr
  agentId : PyStr
  serviceClass : PyStr
  weight : ℕ
  deadlineMonotonic : Option ℚ
  request_bounded : IsBoundedText requestId maxIdentifierBytes
  weight_pos : 0 < weight
  weight_le : weight ≤ maxSchedulingWeight

/-- One sequence's contribution to a batch. -/
structure SequenceStep where
  handle : SequenceHandle
  tokenBudget : ℕ
  deriving DecidableEq

/-- `validate_sequence_batch`, the check backends make on a batch they receive. -/
def validateSequenceBatch (steps : List SequenceStep) (maxSequences maxTokensPerStep : ℕ) :
    Except ContractError (List SequenceStep) :=
  if steps = [] then .error (.validation "steps" "must be a non-empty tuple")
  else if maxSequences < steps.length then
    .error (.validation "steps" "exceeds the backend sequence batch limit")
  else if ¬ (steps.map SequenceStep.handle).Nodup then
    .error (.validation "steps" "must not contain duplicate sequence handles")
  else if ∃ step ∈ steps, maxTokensPerStep < step.tokenBudget then
    .error (.validation "steps[].token_budget" "exceeds the backend step limit")
  else .ok steps

inductive PrefillStatus where
  | PARTIAL
  | READY
  deriving DecidableEq

structure PrefillOutcome where
  handle : SequenceHandle
  status : PrefillStatus
  processedTokens : ℕ
  remainingTokens : ℕ
  deriving DecidableEq

inductive DecodeStatus where
  | PROGRESSED
  | FINISHED
  | FAILED
  deriving DecidableEq

inductive FinishReason where
  | STOP
  | LENGTH
  | CANCELLED
  deriving DecidableEq

structure SequenceCompletion where
  finalText : PyStr
  promptTokens : ℕ
  reasoningTokens : ℕ
  finalTokens : ℕ
  sampledTokens : ℕ
  promptDecodeMs : ℚ
  generationMs : ℚ
  cachedPromptTokens : ℕ
  cacheHit : Bool
  firstSampleMs : ℚ
  firstFinalMs : ℚ
  sampleItlMs : List ℚ
  finalItlMs : List ℚ
  grammarEngine : PyStr
  cacheMatch : PyStr
  sessionId : Option PyStr
  sessionParentGeneration : Option ℕ
  sessionGeneration : Option ℕ
  sessionCopyOnWrite : Bool
  deriving DecidableEq

/-- What `DecodeOutcome.__post_init__` demands of each status. -/
def DecodeOutcome.Valid (status : DecodeStatus) (tokenIds : List ℕ)
    (finishReason : Option FinishReason) (completion : Option SequenceCompletion)
    (errorCode : Option PyStr) : Prop :=
  match status with
  | .PROGRESSED => tokenIds ≠ [] ∧ finishReason = none ∧ completion = none ∧ errorCode = none
  | .FINISHED => finishReason ≠ none ∧ completion ≠ none ∧ errorCode = none
  | .FAILED => finishReason = none ∧ completion = none ∧
      ∃ code ∈ errorCode, IsBoundedText code maxErrorCodeBytes

instance (status tokenIds finishReason completion errorCode) :
    Decidable (DecodeOutcome.Valid status tokenIds finishReason completion errorCode) := by
  unfold DecodeOutcome.Valid
  cases status <;> infer_instance

structure DecodeOutcome where
  handle : SequenceHandle
  status : DecodeStatus
  tokenIds : List ℕ
  textDelta : PyStr
  finishReason : Option FinishReason
  completion : Option SequenceCompletion
  errorCode : Option PyStr
  valid : DecodeOutcome.Valid status tokenIds finishReason completion errorCode

inductive ReleaseStatus where
  | RELEASED
  | ALREADY_RELEASED
  | STALE_HANDLE
  | NOT_FOUND
  deriving DecidableEq

def ReleaseStatus.value : ReleaseStatus → String
  | .RELEASED => "released"
  | .ALREADY_RELEASED => "already_released"
  | .STALE_HANDLE => "stale_handle"
  | .NOT_FOUND => "not_found"

/-! ### Scheduler events -/

inductive SchedulerEventKind where
  | ADMITTED
  | SEQUENCE_OPENED
  | PREFILL_COMPLETED
  | DECODE_COMPLETED
  | SEQUENCE_RELEASED
  | REQUEST_COMPLETED
  | REQUEST_FAILED
  deriving DecidableEq

namespace SchedulerEventKind

/-- `_SEQUENCE_EVENT_KINDS` -/
def isSequenceKind : SchedulerEventKind → Bool
  | SEQUENCE_OPENED | PREFILL_COMPLETED | DECODE_COMPLETED | SEQUENCE_RELEASED => true
  | _ => false

/-- `_TOKEN_EVENT_KINDS` -/
def isTokenKind : SchedulerEventKind → Bool
  | PREFILL_COMPLETED | DECODE_COMPLETED => true
  | _ => false

end SchedulerEventKind

structure SchedulerEvent where
  kind : SchedulerEventKind
  requestId : PyStr
  atMonotonic : ℚ
  handle : Option SequenceHandle
  tokens : Option ℕ
  errorCode : Option PyStr
  deriving DecidableEq

/-- The check of `error_code` in `SchedulerEvent.__post_init__`. -/
def checkErrorCode : SchedulerEventKind → Option PyStr → Except ContractError Unit
  | .REQUEST_FAILED, some code => (boundedText code "error_code" maxErrorCodeBytes).map fun _ => ()
  | .REQUEST_FAILED, none => .error (.validation "error_code" "must be a non-empty string")
  | _, some _ =>
    .error (.validation "error_code" "only request_failed events may carry an error code")
  | _, none => .ok ()

/-- `SchedulerEvent(...)` with the checks of `__post_init__`, in their order. -/
def SchedulerEvent.make (event : SchedulerEvent) : Except ContractError SchedulerEvent :=
  match boundedText event.requestId "request_id" maxIdentifierBytes with
  | .error e => .error e
  | .ok _ =>
    if event.atMonotonic < 0 then
      .error (.validation "at_monotonic" "must be a finite non-negative monotonic timestamp")
    else if event.kind.isSequenceKind ∧ event.handle = none then
      .error (.validation "handle" "sequence events require a SequenceHandle")
    else if event.kind.isTokenKind ∧ event.tokens = none then
      .error (.validation "tokens" "prefill/decode events require a token count")
    else if ¬ event.kind.isTokenKind ∧ event.tokens ≠ none then
      .error (.validation "tokens" "this event kind must not carry a token count")
    else (checkErrorCode event.kind event.errorCode).map fun _ => event

/-- The fields a `SchedulerEvent` may have. -/
def SchedulerEvent.WellFormed (event : SchedulerEvent) : Prop :=
  IsBoundedText event.requestId maxIdentifierBytes ∧ 0 ≤ event.atMonotonic ∧
  (event.kind.isSequenceKind = true → event.handle ≠ none) ∧
  (event.kind.isTokenKind = true ↔ event.tokens ≠ none) ∧
  match event.kind with
  | .REQUEST_FAILED => ∃ code ∈ event.errorCode, IsBoundedText code maxErrorCodeBytes
  | _ => event.errorCode = none

theorem checkErrorCode_ok {kind : SchedulerEventKind} {errorCode : Option PyStr} :
    checkErrorCode kind errorCode = .ok () ↔
      match kind with
      | .REQUEST_FAILED => ∃ code ∈ errorCode, IsBoundedText code maxErrorCodeBytes
      | _ => errorCode = none := by
  cases kind <;> cases errorCode with
  | none => simp [checkErrorCode]
  | some code =>
    first
    | simp [checkErrorCode]; done
    | simp only [checkErrorCode, Option.mem_def, Option.some.injEq, exists_eq_left']
      cases h : boundedText code "error_code" maxErrorCodeBytes with
      | error e =>
        simp only [Except.map, reduceCtorEq, false_iff]
        intro hb
        rw [boundedText_ok.mpr ⟨hb, rfl⟩] at h
        exact absurd h (by simp)
      | ok r => simpa [Except.map] using (boundedText_ok.mp h).1

theorem SchedulerEvent.make_ok {event result : SchedulerEvent} :
    event.make = .ok result ↔ event.WellFormed ∧ result = event := by
  unfold make WellFormed
  cases hid : boundedText event.requestId "request_id" maxIdentifierBytes with
  | error e =>
    simp only [reduceCtorEq, false_iff]
    rintro ⟨⟨hb, -⟩, -⟩
    rw [boundedText_ok.mpr ⟨hb, rfl⟩] at hid
    exact absurd hid (by simp)
  | ok r =>
    have hb := (boundedText_ok.mp hid).1
    have hcode := @checkErrorCode_ok event.kind event.errorCode
    dsimp only
    split_ifs with h1 h2 h3 h4
    · simp [not_le.mpr h1]
    · simp [h2]
    · simp [h3]
    · simp [h4]
    · cases herr : checkErrorCode event.kind event.errorCode with
      | error e =>
        rw [herr] at hcode
        simp only [Except.map, reduceCtorEq, false_iff]
        exact fun h => absurd (hcode.mpr h.1.2.2.2.2) (by simp)
      | ok u =>
        have := hcode.mp herr
        simp only [Except.map, Except.ok.injEq]
        constructor
        · rintro rfl
          exact ⟨⟨hb, not_lt.mp h1, by tauto, by tauto, this⟩, rfl⟩
        · exact fun h => h.2.symm

end Inference
