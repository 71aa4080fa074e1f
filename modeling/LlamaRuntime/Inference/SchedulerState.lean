/-
State of the continuous batch scheduler.

Entries are objects: the worker holds references to them after the dictionary
has forgotten their request id, so they live in a heap indexed by the order of
their creation, and `entries` maps the ids of registered requests to
them.  The fields after `nextOrder` are history: what the sinks and the backend
have been handed, where each `infer` call stands, and the requests `_fail_all`
set out to terminate.
-/
import LlamaRuntime.Inference.Governance

namespace Inference

inductive RuntimeRequestState where
  | QUEUED
  | OPENING
  | PREFILL
  | PREFILL_INFLIGHT
  | DECODE
  | DECODE_INFLIGHT
  | RELEASING
  | TERMINAL
  deriving DecidableEq

structure InferenceRuntimeError where
  code : PyStr
  detail : PyStr
  retryable : Bool
  deriving DecidableEq

/-- A request after preflight, as far as the scheduler reads it. -/
structure PreflightedRequest where
  modelId : PyStr
  /-- role and content of the model messages -/
  modelMessages : List (PyStr × PyStr)
  queueTimeoutMs : ℕ
  executionTimeoutMs : ℕ
  totalTokens : ℕ
  /-- `loads` and then `validate_output` against the request's contract -/
  checkOutput : PyStr → Except PyException Unit

structure GenerateResult where
  requestId : PyStr
  attemptId : PyStr
  termination : PyStr
  output : PyStr
  completion : SequenceCompletion
  queueMs : ℚ
  totalMs : ℚ
  contextLimit : ℕ
  contextHeadroom : ℕ
  modelId : PyStr
  backend : PyStr

/-- `_RequestEntry` -/
structure RequestEntry where
  request : PreflightedRequest
  scheduling : SchedulingMetadata
  attemptId : PyStr
  admittedAt : ℚ
  queueDeadline : ℚ
  order : ℕ
  estimatedTokens : ℕ
  state : RuntimeRequestState := .QUEUED
  handle : Option SequenceHandle := none
  executionDeadline : Option ℚ := none
  openedAt : Option ℚ := none
  cancelRequested : Bool := false
  result : Option GenerateResult := none
  error : Option InferenceRuntimeError := none
  terminalAt : Option ℚ := none
  admittedEventSent : Bool := false
  terminalizing : Bool := false
  resourceReleaseConfirmed : Bool := false
  finalDeltas : List PyStr := []

instance : Inhabited RequestEntry where
  default :=
    { request := ⟨[], [], 0, 0, 0, fun _ => .ok ()⟩
      scheduling := ⟨py "?", [], [], [], 1, none, isBoundedText_py (by decide) (by decide) (by decide),
        Nat.one_pos, one_le_maxSchedulingWeight⟩
      attemptId := []
      admittedAt := 0
      queueDeadline := 0
      order := 0
      estimatedTokens := 0 }

/-- A call the scheduler has made to its backend. -/
inductive BackendCall where
  | openSequence (e : ℕ)
  | prefillBatch (steps : List SequenceStep)
  | decodeBatch (steps : List SequenceStep)
  | release (handle : SequenceHandle)
  deriving DecidableEq

/-- Where the `infer` call of an entry stands: blocked in `wait`, notified and
about to look at its entry again, or over. -/
inductive Caller where
  | blocked
  | woken
  | returned (result : GenerateResult)
  | raised (error : InferenceRuntimeError)

/-- A waiting caller is notified. -/
def Caller.notify : Caller → Caller
  | .blocked => .woken
  | c => c

structure SchedulerConfig where
  capabilities : BackendCapabilities
  tickTokenBudget : ℕ
  maxPendingRequests : ℕ
  maxDecodeBurst : ℕ
  policy : RuntimeSchedulingPolicy
  limits : AdmissionLimits
  tick_covers : capabilities.maxSequencesPerStep ≤ tickTokenBudget
  burst_pos : 0 < maxDecodeBurst

structure SchedulerState where
  heap : List RequestEntry := []
  entries : Dict PyStr ℕ := ∅
  queued : List PyStr := []
  prefill : List PyStr := []
  decode : List PyStr := []
  decodeBurst : ℕ := 0
  stopping : Bool := false
  stopped : Bool := false
  fatalError : Option InferenceRuntimeError := none
  eventFailures : ℕ := 0
  nextOrder : ℕ := 0
  admission : ResourceAdmissionController := {}
  selector : HierarchicalFairSelector := {}
  published : List (ℕ × SchedulerEvent) := []
  backendCalls : List BackendCall := []
  callers : List Caller := []
  cleanup : Option (List ℕ) := none

/-- The three deques of request ids. -/
inductive Queue where
  | queued
  | prefill
  | decode
  deriving DecidableEq

namespace SchedulerState

variable (s : SchedulerState)

def entry (e : ℕ) : RequestEntry := s.heap.getD e default

def modifyEntry (e : ℕ) (f : RequestEntry → RequestEntry) : SchedulerState :=
  { s with heap := s.heap.modify e f }

def deque : Queue → List PyStr
  | .queued => s.queued
  | .prefill => s.prefill
  | .decode => s.decode

def setDeque (q : Queue) (ids : List PyStr) : SchedulerState :=
  match q with
  | .queued => { s with queued := ids }
  | .prefill => { s with prefill := ids }
  | .decode => { s with decode := ids }

def requestId (e : ℕ) : PyStr := (s.entry e).scheduling.requestId

/-- `entry.state is not RuntimeRequestState.TERMINAL` -/
def live (e : ℕ) : Bool := (s.entry e).state ≠ .TERMINAL

/-- The registered entries that are not terminal, in the dictionary's order. -/
def liveEntries : List ℕ := s.entries.values.filter s.live

/-- `self._condition.notify_all()` -/
def notifyAll : SchedulerState :=
  { s with callers := s.callers.map Caller.notify }

/-- The events a sink has been handed for an entry, oldest first. -/
def eventsOf (e : ℕ) : List SchedulerEvent :=
  (s.published.filter fun p => p.1 = e).map Prod.snd

/-! What an update leaves alone. -/

variable {s} {s' : SchedulerState} {e e' : ℕ} {f : RequestEntry → RequestEntry}

theorem entry_congr (h : s'.heap = s.heap) : s'.entry e = s.entry e := by rw [entry, entry, h]

theorem entry_modify (h : s'.heap = s.heap.modify e f) :
    s'.entry e' = if e = e' ∧ e < s.heap.length then f (s.entry e) else s.entry e' := by
  rw [entry, entry, entry, h, List.getD_eq_getElem?_getD, List.getD_eq_getElem?_getD,
    List.getD_eq_getElem?_getD, List.getElem?_modify]
  by_cases heq : e = e'
  · subst heq
    by_cases hlt : e < s.heap.length
    · simp [hlt]
    · simp [hlt]
  · simp [heq]

theorem entry_modifyEntry (s : SchedulerState) (e : ℕ) (f : RequestEntry → RequestEntry) (e' : ℕ) :
    (s.modifyEntry e f).entry e' = if e = e' ∧ e < s.heap.length then f (s.entry e) else s.entry e' :=
  entry_modify rfl

theorem entry_modify_self (h : s'.heap = s.heap.modify e f) (he : e < s.heap.length) :
    s'.entry e = f (s.entry e) := by rw [entry_modify h, if_pos ⟨rfl, he⟩]

theorem entry_modifyEntry_self (he : e < s.heap.length) (f : RequestEntry → RequestEntry) :
    (s.modifyEntry e f).entry e = f (s.entry e) := by rw [entry_modifyEntry, if_pos ⟨rfl, he⟩]

theorem entry_modify_ne (h : s'.heap = s.heap.modify e f) (hne : e ≠ e') :
    s'.entry e' = s.entry e' := by rw [entry_modify h, if_neg fun hc => hne hc.1]

/-- Updating an entry by a function of it, or by the value of the function. -/
theorem heap_modify_const (s : SchedulerState) (e : ℕ) (f : RequestEntry → RequestEntry) :
    s.heap.modify e f = s.heap.modify e fun _ => f (s.entry e) := by
  refine List.ext_getElem (by simp) fun i h1 h2 => ?_
  rw [List.getElem_modify, List.getElem_modify]
  split_ifs with heq
  · subst heq
    have hlt : e < s.heap.length := by simpa using h1
    rw [entry, List.getD_eq_getElem?_getD, List.getElem?_eq_getElem hlt, Option.getD_some]
  · rfl

theorem length_modify (h : s'.heap = s.heap.modify e f) : s'.heap.length = s.heap.length := by
  rw [h, List.length_modify]

@[simp] theorem deque_setDeque_self (q : Queue) (ids : List PyStr) :
    (s.setDeque q ids).deque q = ids := by cases q <;> rfl

@[simp] theorem heap_setDeque (q : Queue) (ids : List PyStr) :
    (s.setDeque q ids).heap = s.heap := by cases q <;> rfl

@[simp] theorem entries_setDeque (q : Queue) (ids : List PyStr) :
    (s.setDeque q ids).entries = s.entries := by cases q <;> rfl

@[simp] theorem callers_setDeque (q : Queue) (ids : List PyStr) :
    (s.setDeque q ids).callers = s.callers := by cases q <;> rfl

@[simp] theorem published_setDeque (q : Queue) (ids : List PyStr) :
    (s.setDeque q ids).published = s.published := by cases q <;> rfl

@[simp] theorem backendCalls_setDeque (q : Queue) (ids : List PyStr) :
    (s.setDeque q ids).backendCalls = s.backendCalls := by cases q <;> rfl

end SchedulerState

end Inference
