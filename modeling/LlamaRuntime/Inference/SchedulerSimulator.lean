/-
The reference scheduler.

`DeterministicSchedulerSimulator` serves one request at a time: a tick ends what has passed
its deadline, and then takes one step of the request with the best key.

* `Entry` — a request, from its admission to its terminal event;
* `terminalize`, `step` — what is done for one entry, with what the backend answers;
* `admitRequest`, `cancel`, `tick` — the calls;
* `Trace` — what the backend is asked and what the sink is told, in order.

The sink does not raise, and the clock only advances.
-/
import LlamaRuntime.Inference.Contracts
import LlamaRuntime.Python.Exception
import Mathlib.Data.List.Sort
import Mathlib.Data.Rat.Floor

namespace Inference.Simulator

/-- The promises of a backend that the simulator looks at. -/
structure Capabilities where
  backend : PyStr
  models : List PyStr
  maxConcurrentRequests : ℕ
  maxConcurrentSequences : ℕ
  maxPrefillTokensPerStep : ℕ
  maxDecodeTokensPerStep : ℕ

structure Policy where
  serviceClassPriorities : List (PyStr × ℤ)
  agingInterval : ℚ
  aging_pos : 0 < agingInterval

inductive AdmissionError where
  | unknownServiceClass (serviceClass : PyStr)
  | duplicateRequest (requestId : PyStr)
  | deadlineElapsed (requestId : PyStr)
  | capacity (requestId : PyStr)
  deriving DecidableEq

def Policy.priorityFor (policy : Policy) (serviceClass : PyStr) : Except AdmissionError ℤ :=
  match policy.serviceClassPriorities.find? fun item => item.1 = serviceClass with
  | some item => .ok item.2
  | none => .error (.unknownServiceClass serviceClass)

inductive Lifecycle where
  | ADMITTED
  | PREFILLING
  | DECODING
  | TERMINAL
  deriving DecidableEq

inductive Termination where
  | COMPLETED
  | CANCELLED
  | DEADLINE_EXCEEDED
  | BACKEND_ERROR
  deriving DecidableEq

def Termination.value : Termination → String
  | .COMPLETED => "completed"
  | .CANCELLED => "cancelled"
  | .DEADLINE_EXCEEDED => "deadline_exceeded"
  | .BACKEND_ERROR => "backend_error"

structure Entry where
  scheduling : SchedulingMetadata
  order : ℕ
  admittedAt : ℚ
  lifecycle : Lifecycle := .ADMITTED
  termination : Option Termination := none
  handle : Option SequenceHandle := none
  serviceSteps : ℕ := 0
  releaseAttempted : Bool := false
  releaseStatus : Option ReleaseStatus := none
  terminalAt : Option ℚ := none

def Entry.requestId (entry : Entry) : PyStr := entry.scheduling.requestId

/-- What the backend is asked, for a request, and what the sink is told of it -/
inductive Trace where
  /-- `open_sequence` has returned a handle. -/
  | returned (requestId : PyStr) (handle : SequenceHandle)
  /-- `release` is called. -/
  | release (requestId : PyStr) (handle : SequenceHandle)
  | event (event : SchedulerEvent)
  deriving DecidableEq

def Trace.requestId : Trace → PyStr
  | .returned requestId _ => requestId
  | .release requestId _ => requestId
  | .event told => told.requestId

/-- What a method of the backend gives. -/
inductive Answer (α : Type) where
  | returned (a : α)
  /-- a value of another type -/
  | other
  /-- a raised object, with whether it is an `Exception` -/
  | raised (isException : Bool)

structure Answers where
  openSequence : Answer SequenceHandle
  prefill : Answer PrefillOutcome
  decode : Answer DecodeOutcome
  release : SequenceHandle → Answer (SequenceHandle × ReleaseStatus)

inductive TickAction where
  | IDLE
  | OPEN_SEQUENCE
  | PREFILL
  | DECODE
  | BACKEND_FAILED
  deriving DecidableEq

/-- What was done for an entry: the entry after it, and what it adds to the trace. -/
structure Served where
  /-- a `BaseException` has gone through that is no `Exception` -/
  escaped : Bool := false
  entry : Entry
  trace : List Trace := []
  action : TickAction := .IDLE

/-- `_publish` -/
def published (now : ℚ) (entry : Entry) (kind : SchedulerEventKind) (tokens : Option ℕ := none)
    (errorCode : Option PyStr := none) : Trace :=
  .event ⟨kind, entry.requestId, now, entry.handle, tokens, errorCode⟩

def confirmed (status : ReleaseStatus) : Bool := status = .RELEASED || status = .ALREADY_RELEASED

/-! ### One entry -/

variable (caps : Capabilities) (answers : Answers) (now : ℚ)

/-- `_release`, with whether it is confirmed -/
def release (entry : Entry) : Bool × Served :=
  match entry.handle with
  | none => (true, { entry })
  | some handle =>
    if entry.releaseAttempted then (entry.releaseStatus.any confirmed, { entry })
    else
      let entry := { entry with releaseAttempted := true }
      let called := [Trace.release entry.requestId handle]
      match answers.release handle with
      | .raised true => (false, { entry, trace := called })
      | .raised false => (false, { escaped := true, entry, trace := called })
      | .other => (false, { entry, trace := called })
      | .returned (about, status) =>
        if about ≠ handle then (false, { entry, trace := called })
        else
          let entry := { entry with releaseStatus := some status }
          if confirmed status then
            (true, { entry, trace := called ++ [published now entry .SEQUENCE_RELEASED] })
          else (false, { entry, trace := called })

/-- The end of `_terminalize`, with its terminal event -/
def conclude (termination : Termination) (errorCode : Option PyStr) (entry : Entry) :
    Entry × Trace :=
  let entry := { entry with
    lifecycle := .TERMINAL, termination := some termination, terminalAt := some now }
  if termination = .COMPLETED then (entry, published now entry .REQUEST_COMPLETED)
  else
    (entry, published now entry .REQUEST_FAILED none
      (some ((errorCode.filter fun code => code ≠ []).getD (py termination.value))))

/-- `_terminalize` -/
def terminalize (termination : Termination) (errorCode : Option PyStr) (entry : Entry) : Served :=
  if entry.lifecycle = .TERMINAL then { entry }
  else
    match release answers now entry with
    | (confirmed, released) =>
      if released.escaped then released
      else
        let failed := released.entry.handle.isSome && !confirmed
        let concluded := conclude now (if failed then .BACKEND_ERROR else termination)
          (if failed then some (py "backend_release_failed") else errorCode) released.entry
        { entry := concluded.1, trace := released.trace ++ [concluded.2] }

/-- What a step makes of an exception -/
def fail (entry : Entry) (trace : List Trace) : Served :=
  let ended := terminalize answers now .BACKEND_ERROR (some (py "backend_operation_failed")) entry
  { ended with trace := trace ++ ended.trace, action := .BACKEND_FAILED }

/-- The end of a step that has raised nothing -/
def advance (served : Served) (action : TickAction) : Served :=
  if served.escaped then served
  else
    { served with
      entry := { served.entry with serviceSteps := served.entry.serviceSteps + 1 }
      action }

/-- The handle is one of this backend, for one of its models. -/
def Capabilities.matches (handle : SequenceHandle) : Prop :=
  handle.backend = caps.backend ∧ handle.model ∈ caps.models

instance (handle : SequenceHandle) : Decidable (caps.matches handle) :=
  inferInstanceAs (Decidable (_ ∧ _))

/-- `_open_sequence`, in `_step`; `inUse` tells the handles of the other active entries. -/
def openSequence (inUse : SequenceHandle → Bool) (entry : Entry) : Served :=
  match answers.openSequence with
  | .raised false => { escaped := true, entry }
  | .raised true => fail answers now entry []
  | .other => fail answers now entry []
  | .returned handle =>
    let opened := [Trace.returned entry.requestId handle]
    if ¬ caps.matches handle ∨ inUse handle then fail answers now entry opened
    else
      let entry := { entry with handle := some handle, lifecycle := .PREFILLING }
      advance { entry, trace := opened ++ [published now entry .SEQUENCE_OPENED] }
        .OPEN_SEQUENCE

/-- `_prefill`, in `_step` -/
def prefill (entry : Entry) : Served :=
  match entry.handle with
  | none => fail answers now entry []
  | some handle =>
    match answers.prefill with
    | .raised false => { escaped := true, entry }
    | .raised true => fail answers now entry []
    | .other => fail answers now entry []
    | .returned outcome =>
      if outcome.handle ≠ handle ∨ caps.maxPrefillTokensPerStep < outcome.processedTokens then
        fail answers now entry []
      else
        let told := published now entry .PREFILL_COMPLETED (some outcome.processedTokens)
        let lifecycle := if outcome.status = .READY then .DECODING else entry.lifecycle
        advance { entry := { entry with lifecycle }, trace := [told] } .PREFILL

/-- The end of `_decode` -/
def finish (outcome : DecodeOutcome) (entry : Entry) : Served :=
  match outcome.status with
  | .PROGRESSED => { entry }
  | .FINISHED => terminalize answers now .COMPLETED none entry
  | .FAILED =>
    terminalize answers now .BACKEND_ERROR
      (some ((outcome.errorCode.filter fun code => code ≠ []).getD (py "backend_decode_failed")))
      entry

/-- `_decode`, in `_step` -/
def decode (entry : Entry) : Served :=
  match entry.handle with
  | none => fail answers now entry []
  | some handle =>
    match answers.decode with
    | .raised false => { escaped := true, entry }
    | .raised true => fail answers now entry []
    | .other => fail answers now entry []
    | .returned outcome =>
      if outcome.handle ≠ handle ∨ caps.maxDecodeTokensPerStep < outcome.tokenIds.length then
        fail answers now entry []
      else
        let told := published now entry .DECODE_COMPLETED (some outcome.tokenIds.length)
        let finished := finish answers now outcome entry
        advance { finished with trace := told :: finished.trace } .DECODE

/-- `_step` -/
def step (inUse : SequenceHandle → Bool) (entry : Entry) : Served :=
  match entry.lifecycle with
  | .ADMITTED => openSequence caps answers now inUse entry
  | .PREFILLING => prefill caps answers now entry
  | .DECODING => decode caps answers now entry
  | .TERMINAL => fail answers now entry []

end Inference.Simulator

/-! ### The scheduler -/

namespace Inference

structure Simulator where
  now : ℚ := 0
  entries : List Simulator.Entry := []
  nextOrder : ℕ := 0
  /-- history: what the backend was asked and the sink was told -/
  trace : List Simulator.Trace := []

namespace Simulator

/-- The entry after it was served, in its place. -/
def replace (s : Simulator) (served : Served) : Simulator :=
  { s with
    entries := s.entries.map fun entry =>
      if entry.requestId = served.entry.requestId then served.entry else entry
    trace := s.trace ++ served.trace }

/-- `_active_entries` -/
def activeEntries (s : Simulator) : List Entry :=
  s.entries.filter fun entry => entry.lifecycle ≠ .TERMINAL

/-- Sorted by their order -/
def inOrder (entries : List Entry) : List Entry := entries.insertionSort fun a b => a.order ≤ b.order

/-- `admit` -/
def admitRequest (caps : Capabilities) (policy : Policy) (scheduling : SchedulingMetadata)
    (s : Simulator) : Except AdmissionError Entry × Simulator :=
  if scheduling.requestId ∈ s.entries.map Entry.requestId then
    (.error (.duplicateRequest scheduling.requestId), s)
  else
    match policy.priorityFor scheduling.serviceClass with
    | .error e => (.error e, s)
    | .ok _ =>
      if scheduling.deadlineMonotonic.any fun deadline => deadline ≤ s.now then
        (.error (.deadlineElapsed scheduling.requestId), s)
      else if caps.maxConcurrentRequests ≤ s.activeEntries.length then
        (.error (.capacity scheduling.requestId), s)
      else
        let entry : Entry := { scheduling, order := s.nextOrder, admittedAt := s.now }
        (.ok entry, { s with
          entries := s.entries ++ [entry]
          nextOrder := s.nextOrder + 1
          trace := s.trace ++ [published s.now entry .ADMITTED] })

/-- `cancel`; `none` where an exception goes through it -/
def cancel (answers : Answers) (requestId : PyStr) (s : Simulator) : Option Bool × Simulator :=
  match s.entries.find? fun entry => entry.requestId = requestId with
  | none => (some false, s)
  | some entry =>
    if entry.lifecycle = .TERMINAL then (some false, s)
    else
      let served := terminalize answers s.now .CANCELLED (some (py "cancelled")) entry
      (if served.escaped then none else some true, s.replace served)

/-- `advance` of the clock -/
def advanceClock (seconds : ℚ) (s : Simulator) : Simulator :=
  if seconds < 0 then s else { s with now := s.now + seconds }

/-- The loop over the deadlines: the requests that have expired, `none` where an exception
goes through it. -/
def expire (answers : Answers) : List Entry → Simulator → Option (List PyStr) × Simulator
  | [], s => (some [], s)
  | entry :: entries, s =>
    if entry.scheduling.deadlineMonotonic.any fun deadline => deadline ≤ s.now then
      let served := terminalize answers s.now .DEADLINE_EXCEEDED (some (py "deadline_exceeded")) entry
      if served.escaped then (none, s.replace served)
      else
        let rest := expire answers entries (s.replace served)
        (rest.1.map fun expired => entry.requestId :: expired, rest.2)
    else expire answers entries s

/-- How many handles are open, as `_eligible_entries` counts them -/
def activeHandles (s : Simulator) : ℕ :=
  s.activeEntries.countP fun entry => entry.handle.isSome && !entry.releaseAttempted

/-- `_eligible_entries` -/
def eligibleEntries (caps : Capabilities) (s : Simulator) : List Entry :=
  s.activeEntries.filter fun entry =>
    entry.lifecycle ≠ .ADMITTED ∨ s.activeHandles < caps.maxConcurrentSequences

/-- The score of `_selection_key`; the class of an entry has a priority, since it was admitted. -/
def score (policy : Policy) (now : ℚ) (entry : Entry) : ℚ :=
  let base := (policy.priorityFor entry.scheduling.serviceClass).toOption.getD 0
  let age := ((now - entry.admittedAt) / policy.agingInterval).floor
  (base + age : ℤ) - entry.serviceSteps / entry.scheduling.weight

/-- A deadline comes before none. -/
def deadlineBefore : Option ℚ → Option ℚ → Bool
  | some a, some b => a < b
  | some _, none => true
  | none, _ => false

/-- The comparison of two selection keys -/
def selectedBefore (policy : Policy) (now : ℚ) (a b : Entry) : Bool :=
  score policy now b < score policy now a ||
    (score policy now a = score policy now b &&
      (deadlineBefore a.scheduling.deadlineMonotonic b.scheduling.deadlineMonotonic ||
        (a.scheduling.deadlineMonotonic = b.scheduling.deadlineMonotonic && a.order < b.order)))

/-- `min(eligible, key=...)` -/
def select (policy : Policy) (now : ℚ) : List Entry → Option Entry
  | [] => none
  | entry :: entries =>
    some (entries.foldl (fun best e => if selectedBefore policy now e best then e else best) entry)

/-- Another active entry has the handle. -/
def inUse (s : Simulator) (entry : Entry) (handle : SequenceHandle) : Bool :=
  s.activeEntries.any fun other => other.requestId ≠ entry.requestId && other.handle = some handle

structure TickOutcome where
  atMonotonic : ℚ
  action : TickAction
  selectedRequestId : Option PyStr
  expiredRequestIds : List PyStr

/-- `tick`; `none` where an exception goes through it -/
def tick (caps : Capabilities) (policy : Policy) (answers : Answers) (s : Simulator) :
    Option TickOutcome × Simulator :=
  match expire answers (inOrder s.activeEntries) s with
  | (none, s) => (none, s)
  | (some expired, s) =>
    match select policy s.now (s.eligibleEntries caps) with
    | none => (some ⟨s.now, .IDLE, none, expired⟩, s)
    | some entry =>
      let served := step caps answers s.now (s.inUse entry) entry
      (if served.escaped then none else some ⟨s.now, served.action, some entry.requestId, expired⟩,
        s.replace served)

/-! ### Runs -/

inductive Op where
  | admission (scheduling : SchedulingMetadata)
  | cancel (requestId : PyStr) (answers : Answers)
  | tick (answers : Answers)
  | advance (seconds : ℚ)

def perform (caps : Capabilities) (policy : Policy) (s : Simulator) : Op → Simulator
  | .admission scheduling => (s.admitRequest caps policy scheduling).2
  | .cancel requestId answers => (s.cancel answers requestId).2
  | .tick answers => (s.tick caps policy answers).2
  | .advance seconds => s.advanceClock seconds

def run (caps : Capabilities) (policy : Policy) (ops : List Op) : Simulator :=
  ops.foldl (perform caps policy) {}

end Simulator

end Inference
