/-
The protocol of a turn: which events it appends, in which order.

* `Stage` — where a turn stands between two appends;
* `Next` — the events that lead from one stage to the next, with the fields they
  must have; `Path` — the events of a turn so far;
* `Agrees` — what the reducer knows about a run at a stage (`Path.agrees`);
* `Path.evidence` — a turn ends in success only behind a verified result.
-/
import LlamaRuntime.Agent.Lifecycles
import LlamaRuntime.Agent.Service

open Json

namespace Agent

variable {F : Type} [Host F]

/-! ### Accepted events, by kind -/

section Accepted

variable {s s' : AgentRunState F} {n : ℕ} {e : AgentEvent F} (h : Applied s n e s')

include h

theorem Applied.lifecycle_eq (hrun : e.eventKind ≠ .runTransition)
    (hbudget : e.eventKind ≠ .budgetConsumed) : s'.lifecycle = s.lifecycle := by
  cases h with
  | runTransition kind => exact absurd kind hrun
  | budgetConsumed kind => exact absurd kind hbudget
  | _ => rfl

theorem Applied.invocations_eq (hproposed : e.eventKind ≠ .toolProposed)
    (htool : e.eventKind ≠ .toolTransition) : s'.toolInvocations = s.toolInvocations := by
  cases h with
  | toolProposed kind => exact absurd kind hproposed
  | toolTransition kind => exact absurd kind htool
  | _ => rfl

theorem Applied.dispatched_eq (hkind : e.eventKind ≠ .dispatchStarted) :
    s'.dispatchedInvocations = s.dispatchedInvocations := by
  rw [h.dispatched.1, named, if_neg hkind]
  exact List.append_nil _

theorem Applied.results_eq (hkind : e.eventKind ≠ .resultRecorded) :
    s'.terminalResults = s.terminalResults := by
  rw [h.results.1, named, if_neg hkind]
  exact List.append_nil _

theorem Applied.target_eq (hkind : e.eventKind = .runTransition) {l : AgentRunLifecycle}
    (htarget : e.field "target" = .str l.value) : s'.lifecycle = l := by
  cases h with
  | @runTransition items target kind payload target_eq =>
    rw [AgentEvent.field_eq payload, target_eq] at htarget
    have hl := AgentRunLifecycle.ofValue_value target
    rw [Value.str.inj htarget, AgentRunLifecycle.ofValue_value] at hl
    exact (Option.some_inj.mp hl).symm
  | plainRecord kind | invocationRecord kind => simp [hkind] at kind
  | toolProposed kind | toolTransition kind | budgetConsumed kind | dispatchStarted kind
  | resultRecorded kind | acceptanceDecided kind => simp [hkind] at kind

theorem Applied.proposed_eq (hkind : e.eventKind = .toolProposed) {id : PyStr}
    (hid : e.field "invocation_id" = .str id) :
    s.toolInvocations.get? id = none ∧
      s'.toolInvocations = s.toolInvocations.set id .proposed := by
  cases h with
  | toolProposed kind payload invocation_eq _ _ _ _ _ fresh =>
    rw [AgentEvent.field_eq payload, invocation_eq] at hid
    obtain rfl := Value.str.inj hid
    exact ⟨fresh, rfl⟩
  | plainRecord kind | invocationRecord kind => simp [hkind] at kind
  | runTransition kind | toolTransition kind | budgetConsumed kind | dispatchStarted kind
  | resultRecorded kind | acceptanceDecided kind => simp [hkind] at kind

theorem Applied.invocation_eq (hkind : e.eventKind = .toolTransition) {id : PyStr}
    {l : ToolInvocationLifecycle} (hid : e.field "invocation_id" = .str id)
    (htarget : e.field "target" = .str l.value) :
    s'.toolInvocations = s.toolInvocations.set id l := by
  cases h with
  | @toolTransition items _ current target kind payload invocation_eq _ target_eq =>
    rw [AgentEvent.field_eq payload, invocation_eq] at hid
    obtain rfl := Value.str.inj hid
    rw [AgentEvent.field_eq payload, target_eq] at htarget
    have hl := ToolInvocationLifecycle.ofValue_value target
    rw [Value.str.inj htarget, ToolInvocationLifecycle.ofValue_value] at hl
    rw [Option.some_inj.mp hl]
  | plainRecord kind | invocationRecord kind => simp [hkind] at kind
  | runTransition kind | toolProposed kind | budgetConsumed kind | dispatchStarted kind
  | resultRecorded kind | acceptanceDecided kind => simp [hkind] at kind

/-- A consumption that does not terminalize leaves the run where it is. -/
theorem Applied.consumed_lifecycle (hkind : e.eventKind = .budgetConsumed)
    (hterminalize : e.field "terminalize" = .null) : s'.lifecycle = s.lifecycle := by
  cases h with
  | budgetConsumed kind payload =>
    rw [AgentEvent.field_eq payload] at hterminalize
    show (if _ then _ else _) = _
    rw [hterminalize]
    rfl
  | plainRecord kind | invocationRecord kind => simp [hkind] at kind
  | runTransition kind | toolProposed kind | toolTransition kind | dispatchStarted kind
  | resultRecorded kind | acceptanceDecided kind => simp [hkind] at kind

end Accepted

/-! ### Stages -/

/-- The stages of a call before its result. -/
inductive CallPhase where
  | proposed | compiled | ready
  | checked (decision : AuthorizationDecision)
  | stopped (target : ToolInvocationLifecycle)
  | authorized | charged | dispatching | dispatched | attempted

/-- The stages of a call with a result. -/
inductive OutcomePhase where
  | recorded | closed | observing | directed | verifying
  | judged (accepted : Bool)

/-- Where a turn stands. -/
inductive Stage where
  | idle
  /-- an inference is recorded, and none of its debits -/
  | inferred (tokens ms : ℤ)
  /-- the turn is debited; these amounts are not -/
  | paying (tokens ms : ℤ)
  | decided
  /-- a submission was refused -/
  | refused
  /-- the run waits for a tool that is not yet proposed -/
  | waiting
  | call (invocationId : PyStr) (phase : CallPhase)
  | outcome (invocationId : PyStr) (result : ToolResultEnvelope) (phase : OutcomePhase)
  | ended (lifecycle : AgentRunLifecycle)

namespace CallPhase

def lifecycle : CallPhase → ToolInvocationLifecycle
  | proposed | compiled => .proposed
  | ready | checked _ => .argsReady
  | stopped target => target
  | authorized | charged | dispatching => .authorized
  | dispatched | attempted => .dispatched

/-- The dispatch boundary is durable. -/
def begun : CallPhase → Bool
  | dispatching | dispatched | attempted => true
  | _ => false

end CallPhase

namespace OutcomePhase

def lifecycle : OutcomePhase → AgentRunLifecycle
  | recorded | closed => .waitingTool
  | observing | directed => .observing
  | verifying | judged _ => .verifying

def toolLifecycle (result : ToolResultEnvelope) : OutcomePhase → ToolInvocationLifecycle
  | recorded => .dispatched
  | _ => result.status

end OutcomePhase

namespace Stage

/-- The lifecycle of the run. -/
def lifecycle : Stage → AgentRunLifecycle
  | waiting | call .. => .waitingTool
  | outcome _ _ phase => phase.lifecycle
  | ended l => l
  | _ => .deciding

/-- The invocation of the turn, and its lifecycle. -/
def invocation : Stage → Option (PyStr × ToolInvocationLifecycle)
  | call id phase => some (id, phase.lifecycle)
  | outcome id result phase => some (id, phase.toolLifecycle result)
  | _ => none

/-- The invocation that is dispatched and has no result. -/
def inFlight : Stage → Option PyStr
  | call id phase => if phase.begun then some id else none
  | _ => none

/-- The invocation that is not dispatched. -/
def awaiting : Stage → Option PyStr
  | call id phase => if phase.begun then none else some id
  | _ => none

end Stage

/-! ### The protocol -/

/-- The kind of an event, and some of its fields. -/
def AgentEvent.Says (e : AgentEvent F) (kind : EventKind) (fields : List (String × Value F)) :
    Prop :=
  e.eventKind = kind ∧ ∀ f ∈ fields, e.field f.1 = f.2

/-- A debit. -/
abbrev AgentEvent.Debits (e : AgentEvent F) (category : BudgetCategory) (amount : ℤ) : Prop :=
  e.Says .budgetConsumed
    [("category", .str category.value), ("amount", .int amount), ("terminalize", .null)]

abbrev AgentEvent.Moves (e : AgentEvent F) (target : AgentRunLifecycle) : Prop :=
  e.Says .runTransition [("target", .str target.value)]

abbrev AgentEvent.MovesTool (e : AgentEvent F) (id : PyStr) (target : ToolInvocationLifecycle) :
    Prop :=
  e.Says .toolTransition [("invocation_id", .str id), ("target", .str target.value)]

/-- A record about an invocation. -/
abbrev AgentEvent.Records (e : AgentEvent F) (kind : EventKind) (id : PyStr) : Prop :=
  e.Says kind [("invocation_id", .str id)]

/-- Where a permission leads that does not allow the call. -/
def refusedTarget : AuthorizationDecision → Option ToolInvocationLifecycle
  | .requireApproval => some .waitingApproval
  | .deny => some .denied
  | .allow => none

/-- The event leads from one stage of a turn to the next. -/
inductive Next (criteria : Dict PyStr PyStr) (e : AgentEvent F) : Stage → Stage → Prop
  | infer {input output ms : ℤ}
      (event : e.Says .inferenceCompleted
        [("input_tokens", .int input), ("output_tokens", .int output), ("inference_ms", .int ms)]) :
      Next criteria e .idle (.inferred (input + output) ms)
  | payTurn {tokens ms : ℤ} (event : e.Debits .turns 1) :
      Next criteria e (.inferred tokens ms) (.paying tokens ms)
  | payTokens {tokens ms : ℤ} (owed : tokens ≠ 0) (event : e.Debits .inferenceTokens tokens) :
      Next criteria e (.paying tokens ms) (.paying 0 ms)
  | payTime {ms : ℤ} (owed : ms ≠ 0) (event : e.Debits .inferenceMs ms) :
      Next criteria e (.paying 0 ms) (.paying 0 0)
  | decide (event : e.Says .decisionRecorded []) : Next criteria e (.paying 0 0) .decided
  | stop {target : AgentRunLifecycle} (event : e.Moves target)
      (target_ok : target = .waitingUser ∨ target = .blocked) :
      Next criteria e .decided (.ended target)
  | refuse (event : e.Says .acceptanceDecided [("accepted", .bool false)]) :
      Next criteria e .decided .refused
  | block (event : e.Moves .blocked) : Next criteria e .refused (.ended .blocked)
  | wait (event : e.Moves .waitingTool) : Next criteria e .decided .waiting
  | propose {id : PyStr} (event : e.Records .toolProposed id) :
      Next criteria e .waiting (.call id .proposed)
  | compile {id : PyStr} (event : e.Records .argumentsCompiled id) :
      Next criteria e (.call id .proposed) (.call id .compiled)
  | prepare {id : PyStr} (event : e.MovesTool id .argsReady) :
      Next criteria e (.call id .compiled) (.call id .ready)
  | check {id : PyStr} {decision : AuthorizationDecision}
      (event : e.Records .authorizationRecorded id) :
      Next criteria e (.call id .ready) (.call id (.checked decision))
  | forbid {id : PyStr} {decision : AuthorizationDecision} {target : ToolInvocationLifecycle}
      (target_eq : refusedTarget decision = some target) (event : e.MovesTool id target) :
      Next criteria e (.call id (.checked decision)) (.call id (.stopped target))
  | allow {id : PyStr} (event : e.MovesTool id .authorized) :
      Next criteria e (.call id (.checked .allow)) (.call id .authorized)
  | charge {id : PyStr} (event : e.Debits .toolCalls 1) :
      Next criteria e (.call id .authorized) (.call id .charged)
  | dispatch {id : PyStr} (event : e.Records .dispatchStarted id) :
      Next criteria e (.call id .charged) (.call id .dispatching)
  | enter {id : PyStr} (event : e.MovesTool id .dispatched) :
      Next criteria e (.call id .dispatching) (.call id .dispatched)
  | attempt {id : PyStr} (event : e.Debits .toolAttempts 1) :
      Next criteria e (.call id .dispatched) (.call id .attempted)
  | record {id : PyStr} {result : ToolResultEnvelope}
      (event : e.Says .resultRecorded
        [("invocation_id", .str id), ("status", .str result.status.value),
          ("data_hash", textOrNone result.dataHash),
          ("side_effect_state", .str result.sideEffectState.value)]) :
      Next criteria e (.call id .attempted) (.outcome id result .recorded)
  | close {id : PyStr} {result : ToolResultEnvelope} (event : e.MovesTool id result.status) :
      Next criteria e (.outcome id result .recorded) (.outcome id result .closed)
  | observe {id : PyStr} {result : ToolResultEnvelope} (event : e.Moves .observing) :
      Next criteria e (.outcome id result .closed) (.outcome id result .observing)
  | direct {id : PyStr} {result : ToolResultEnvelope} (event : e.Records .flowDecided id) :
      Next criteria e (.outcome id result .observing) (.outcome id result .directed)
  | verify {id : PyStr} {result : ToolResultEnvelope} (flow : (decideFlow result).2 = .verifying)
      (event : e.Moves .verifying) :
      Next criteria e (.outcome id result .directed) (.outcome id result .verifying)
  | leave {id : PyStr} {result : ToolResultEnvelope} (flow : (decideFlow result).2 ≠ .verifying)
      (event : e.Moves (decideFlow result).2) :
      Next criteria e (.outcome id result .directed) (.ended (decideFlow result).2)
  | judge {id : PyStr} {result : ToolResultEnvelope}
      (event : e.Says .acceptanceDecided
        [("invocation_id", .str id), ("accepted", .bool (evaluate result criteria).accepted)]) :
      Next criteria e (.outcome id result .verifying)
        (.outcome id result (.judged (evaluate result criteria).accepted))
  | conclude {id : PyStr} {result : ToolResultEnvelope} {accepted : Bool}
      (event : e.Moves (if accepted then .succeeded else .blocked)) :
      Next criteria e (.outcome id result (.judged accepted))
        (.ended (if accepted then .succeeded else .blocked))

/-- The events of a turn up to a stage. -/
inductive Path (criteria : Dict PyStr PyStr) : List (AgentEvent F) → Stage → Prop
  | nil : Path criteria [] .idle
  | snoc {events : List (AgentEvent F)} {e : AgentEvent F} {stage stage' : Stage}
      (path : Path criteria events stage) (next : Next criteria e stage stage') :
      Path criteria (events ++ [e]) stage'

/-! ### What the reducer knows -/

/-- Dispatched invocations were proposed, and results belong to dispatched ones. -/
structure Known (s : AgentRunState F) : Prop where
  dispatched : ∀ id ∈ s.dispatchedInvocations, id ∈ s.toolInvocations.keys
  results : ∀ id ∈ s.terminalResults, id ∈ s.dispatchedInvocations

theorem Known.step {s s' : AgentRunState F} {n : ℕ} {e : AgentEvent F} (h : Known s)
    (happ : Applied s n e s') : Known s' := by
  obtain ⟨hd, hdnew⟩ := happ.dispatched
  obtain ⟨hr, hrnew⟩ := happ.results
  -- an invocation that is known stays known
  have hkeys : ∀ id ∈ s.toolInvocations.keys, id ∈ s'.toolInvocations.keys := by
    intro id hid
    obtain ⟨l, hl⟩ := Dict.mem_keys_iff.mp hid
    have hstep : InvocationStep (some l) (s'.toolInvocations.get? id) := hl ▸ happ.invocation id
    rcases hstep with hl' | ⟨l', -, hl'⟩
    · exact Dict.mem_keys_iff.mpr ⟨l, hl'⟩
    · exact Dict.mem_keys_iff.mpr ⟨l', hl'⟩
  refine ⟨fun id hid => ?_, fun id hid => ?_⟩
  · rw [hd] at hid
    rcases List.mem_append.mp hid with hid | hid
    · exact hkeys id (h.dispatched id hid)
    · have hname := Option.mem_toList.mp hid
      exact hkeys id (Dict.mem_keys_iff.mpr ⟨_, (hdnew id hname).1⟩)
  · rw [hr] at hid
    rw [hd]
    rcases List.mem_append.mp hid with hid | hid
    · exact List.mem_append_left _ (h.results id hid)
    · exact List.mem_append_left _ (hrnew id (Option.mem_toList.mp hid)).1

theorem replay_known {runId : PyStr} {events : List (AgentEvent F)} {s : AgentRunState F}
    (h : replay runId events = .ok s) : Known s := by
  refine replay_induction (P := fun _ s => Known s) ?_ ?_ h
  · intro e s hc
    obtain ⟨raw, -, -, rfl⟩ := applyRunCreated_ok hc.state
    exact ⟨fun _ h => absurd h List.not_mem_nil, fun _ h => absurd h List.not_mem_nil⟩
  · intro events s e s' _ ih _ happ
    exact ih.step happ

/-- The invocation is dispatched and has no result. -/
def AgentRunState.Pending (s : AgentRunState F) (id : PyStr) : Prop :=
  id ∈ s.dispatchedInvocations ∧ id ∉ s.terminalResults

/-- What the reducer knows about a run at a stage of a turn; `before` are the
invocations that were pending when the turn began. -/
structure Agrees (before : PyStr → Prop) (stage : Stage) (s : AgentRunState F) : Prop where
  lifecycle : s.lifecycle = stage.lifecycle
  invocation : ∀ id l, stage.invocation = some (id, l) → s.toolInvocations.get? id = some l
  inFlight : ∀ id, stage.inFlight = some id → s.Pending id
  awaiting : ∀ id, stage.awaiting = some id → id ∉ s.dispatchedInvocations
  pending : ∀ id, s.Pending id → stage.inFlight = some id ∨ before id

theorem AgentEvent.Says.field {e : AgentEvent F} {kind : EventKind}
    {fields : List (String × Value F)} (h : e.Says kind fields) {key : String} {v : Value F}
    (hf : (key, v) ∈ fields) : e.field key = v := h.2 (key, v) hf

namespace Agrees

variable {before : PyStr → Prop} {stage stage' : Stage} {s s' : AgentRunState F} {n : ℕ}
  {e : AgentEvent F}

/-- An event that is neither about a dispatch nor about a result. -/
theorem quiet (h : Agrees before stage s) (happ : Applied s n e s')
    (hdispatch : e.eventKind ≠ .dispatchStarted) (hresult : e.eventKind ≠ .resultRecorded)
    (hlife : s'.lifecycle = stage'.lifecycle)
    (hinv : ∀ id l, stage'.invocation = some (id, l) → s'.toolInvocations.get? id = some l)
    (hflight : stage'.inFlight = stage.inFlight) (hawait : ∀ id, stage'.awaiting = some id →
      id ∉ s.dispatchedInvocations) : Agrees before stage' s' := by
  have hd := happ.dispatched_eq hdispatch
  have hr := happ.results_eq hresult
  have hpending : ∀ id, s'.Pending id ↔ s.Pending id := by
    intro id
    rw [AgentRunState.Pending, AgentRunState.Pending, hd, hr]
  refine ⟨hlife, hinv, fun id hid => ?_, fun id hid => ?_, fun id hid => ?_⟩
  · exact (hpending id).mpr (h.inFlight id (hflight ▸ hid))
  · exact hd ▸ hawait id hid
  · exact hflight ▸ h.pending id ((hpending id).mp hid)

/-- A record without an effect on lifecycles. -/
theorem recorded (h : Agrees before stage s) (happ : Applied s n e s')
    (hkind : e.eventKind = .inferenceCompleted ∨ e.eventKind = .decisionRecorded ∨
      e.eventKind = .acceptanceDecided ∨ e.eventKind = .argumentsCompiled ∨
      e.eventKind = .authorizationRecorded ∨ e.eventKind = .flowDecided)
    (hlife : stage'.lifecycle = stage.lifecycle) (hinv : stage'.invocation = stage.invocation)
    (hflight : stage'.inFlight = stage.inFlight) (hawait : stage'.awaiting = stage.awaiting) :
    Agrees before stage' s' := by
  have htools : s'.toolInvocations = s.toolInvocations := by
    refine happ.invocations_eq ?_ ?_ <;> rcases hkind with hk | hk | hk | hk | hk | hk <;> simp [hk]
  have hlife' : s'.lifecycle = s.lifecycle := by
    refine happ.lifecycle_eq ?_ ?_ <;> rcases hkind with hk | hk | hk | hk | hk | hk <;> simp [hk]
  refine h.quiet happ ?_ ?_ ?_ (fun id l hid => ?_) hflight fun id hid => ?_
  · rcases hkind with hk | hk | hk | hk | hk | hk <;> simp [hk]
  · rcases hkind with hk | hk | hk | hk | hk | hk <;> simp [hk]
  · rw [hlife', h.lifecycle, hlife]
  · exact htools ▸ h.invocation id l (hinv ▸ hid)
  · exact h.awaiting id (hawait ▸ hid)

theorem debited (h : Agrees before stage s) (happ : Applied s n e s') {category : BudgetCategory}
    {amount : ℤ} (event : e.Debits category amount) (hlife : stage'.lifecycle = stage.lifecycle)
    (hinv : stage'.invocation = stage.invocation) (hflight : stage'.inFlight = stage.inFlight)
    (hawait : stage'.awaiting = stage.awaiting) : Agrees before stage' s' := by
  have htools : s'.toolInvocations = s.toolInvocations :=
    happ.invocations_eq (by simp [event.1]) (by simp [event.1])
  have hlife' := happ.consumed_lifecycle event.1 (event.field (by simp))
  refine h.quiet happ (by simp [event.1]) (by simp [event.1]) ?_ (fun id l hid => ?_) hflight
    fun id hid => ?_
  · rw [hlife', h.lifecycle, hlife]
  · exact htools ▸ h.invocation id l (hinv ▸ hid)
  · exact h.awaiting id (hawait ▸ hid)

/-- A transition of the run, after which the turn may have lost its invocation. -/
theorem moved (h : Agrees before stage s) (happ : Applied s n e s') {target : AgentRunLifecycle}
    (event : e.Moves target) (hlife : stage'.lifecycle = target)
    (hinv : ∀ p, stage'.invocation = some p → stage.invocation = some p)
    (hflight : stage'.inFlight = stage.inFlight) (hawait : stage'.awaiting = stage.awaiting) :
    Agrees before stage' s' := by
  have htools : s'.toolInvocations = s.toolInvocations :=
    happ.invocations_eq (by simp [event.1]) (by simp [event.1])
  refine h.quiet happ (by simp [event.1]) (by simp [event.1]) ?_ (fun id l hid => ?_) hflight
    fun id hid => ?_
  · rw [hlife]
    exact happ.target_eq event.1 (event.field (by simp))
  · exact htools ▸ h.invocation id l (hinv (id, l) hid)
  · exact h.awaiting id (hawait ▸ hid)

theorem movedTool (h : Agrees before stage s) (happ : Applied s n e s') {id : PyStr}
    {target : ToolInvocationLifecycle} (event : e.MovesTool id target)
    (hlife : stage'.lifecycle = stage.lifecycle)
    (hinv : stage'.invocation = some (id, target)) (hflight : stage'.inFlight = stage.inFlight)
    (hawait : stage'.awaiting = stage.awaiting) : Agrees before stage' s' := by
  have htools := happ.invocation_eq event.1 (event.field (v := .str id) (by simp))
    (event.field (v := .str target.value) (by simp))
  have hlife' : s'.lifecycle = s.lifecycle :=
    happ.lifecycle_eq (by simp [event.1]) (by simp [event.1])
  refine h.quiet happ (by simp [event.1]) (by simp [event.1]) ?_ (fun id' l hid => ?_) hflight
    fun id' hid => ?_
  · rw [hlife', h.lifecycle, hlife]
  · rw [hinv] at hid
    obtain ⟨rfl, rfl⟩ := Prod.mk.inj (Option.some_inj.mp hid)
    rw [htools, Dict.get?_set, if_pos rfl]
  · exact h.awaiting id' (hawait ▸ hid)

/-- **One event of a turn keeps the agreement.** -/
theorem step {criteria : Dict PyStr PyStr} (h : Agrees before stage s) (hknown : Known s)
    (happ : Applied s n e s') (next : Next criteria e stage stage') :
    Agrees before stage' s' := by
  cases next with
  | infer event => exact h.recorded happ (.inl event.1) rfl rfl rfl rfl
  | payTurn event | payTokens _ event | payTime _ event | charge event | attempt event =>
    exact h.debited happ event rfl rfl rfl rfl
  | decide event => exact h.recorded happ (.inr (.inl event.1)) rfl rfl rfl rfl
  | refuse event | judge event =>
    exact h.recorded happ (.inr (.inr (.inl event.1))) rfl rfl rfl rfl
  | compile event => exact h.recorded happ (.inr (.inr (.inr (.inl event.1)))) rfl rfl rfl rfl
  | check event =>
    exact h.recorded happ (.inr (.inr (.inr (.inr (.inl event.1))))) rfl rfl rfl rfl
  | direct event =>
    exact h.recorded happ (.inr (.inr (.inr (.inr (.inr event.1))))) rfl rfl rfl rfl
  | stop event | block event | wait event | observe event | verify _ event =>
    exact h.moved happ event rfl (fun _ hp => hp) rfl rfl
  | leave _ event | conclude event => exact h.moved happ event rfl (fun _ hp => (by cases hp)) rfl rfl
  | prepare event | forbid _ event | allow event | enter event | close event =>
    exact h.movedTool happ event rfl rfl rfl rfl
  | @propose id event =>
    have hid : e.field "invocation_id" = .str id := event.field (by simp)
    obtain ⟨hfresh, htools⟩ := happ.proposed_eq event.1 hid
    have hlife := happ.lifecycle_eq (by simp [event.1]) (by simp [event.1])
    refine h.quiet happ (by simp [event.1]) (by simp [event.1]) ?_ (fun id' l hl => ?_) rfl
      fun id' hid' => ?_
    · rw [hlife, h.lifecycle]
      rfl
    · obtain ⟨rfl, rfl⟩ := Prod.mk.inj (Option.some_inj.mp hl)
      rw [htools, Dict.get?_set, if_pos rfl]
      rfl
    · -- an invocation that is proposed now was not dispatched before
      obtain rfl := Option.some_inj.mp hid'
      intro hdispatched
      obtain ⟨l, hl⟩ := Dict.mem_keys_iff.mp (hknown.dispatched _ hdispatched)
      rw [hfresh] at hl
      exact absurd hl (by simp)
  | @dispatch id event =>
    have hname : named .dispatchStarted e = some id := by
      rw [named, if_pos event.1, event.field (v := .str id) (by simp)]
      rfl
    obtain ⟨hd, -⟩ := happ.dispatched
    rw [hname] at hd
    have hr := happ.results_eq (by simp [event.1])
    have htools := happ.invocations_eq (by simp [event.1]) (by simp [event.1])
    have hlife := happ.lifecycle_eq (by simp [event.1]) (by simp [event.1])
    have hfresh := h.awaiting id rfl
    refine ⟨by rw [hlife, h.lifecycle]; rfl, ?_, ?_, fun _ hid => (by cases hid), ?_⟩
    · rw [htools]
      exact h.invocation
    · intro id' hid'
      obtain rfl := Option.some_inj.mp hid'
      refine ⟨by simp [hd], ?_⟩
      rw [hr]
      exact fun hmem => hfresh (hknown.results _ hmem)
    · rintro id' ⟨hmem, hnot⟩
      rw [hd] at hmem
      rw [hr] at hnot
      rcases List.mem_append.mp hmem with hmem | hmem
      · exact (h.pending id' ⟨hmem, hnot⟩).imp_left fun hno => (by cases hno)
      · exact .inl (congrArg some (List.mem_singleton.mp hmem).symm)
  | @record id result event =>
    have hname : named .resultRecorded e = some id := by
      rw [named, if_pos event.1, event.field (v := .str id) (by simp)]
      rfl
    obtain ⟨hr, -⟩ := happ.results
    rw [hname] at hr
    have hd := happ.dispatched_eq (by simp [event.1])
    have htools := happ.invocations_eq (by simp [event.1]) (by simp [event.1])
    have hlife := happ.lifecycle_eq (by simp [event.1]) (by simp [event.1])
    refine ⟨by rw [hlife, h.lifecycle]; rfl, ?_, fun _ hid => (by cases hid),
      fun _ hid => (by cases hid), ?_⟩
    · rw [htools]
      exact h.invocation
    · rintro id' ⟨hmem, hnot⟩
      rw [hd] at hmem
      rw [hr] at hnot
      rcases h.pending id' ⟨hmem, fun hin => hnot (List.mem_append_left _ hin)⟩ with hid' | hid'
      · obtain rfl := Option.some_inj.mp hid'
        exact absurd (List.mem_append_right _ (List.mem_singleton_self id)) hnot
      · exact .inr hid'

end Agrees

/-! ### The events of a turn -/

variable {criteria : Dict PyStr PyStr} {events : List (AgentEvent F)} {stage : Stage}

/-- **What the reducer knows along a turn** that starts where the run decides. -/
theorem Path.agrees {runId : PyStr} {base : List (AgentEvent F)} {s₀ s : AgentRunState F}
    (path : Path criteria events stage) (hbase : replay runId base = .ok s₀)
    (hdeciding : s₀.lifecycle = .deciding) (h : replay runId (base ++ events) = .ok s) :
    Agrees s₀.Pending stage s := by
  induction path generalizing s with
  | nil =>
    rw [List.append_nil] at h
    obtain rfl := Except.ok.inj (hbase.symm.trans h)
    exact ⟨hdeciding, fun _ _ h => (nomatch h), fun _ h => (nomatch h), fun _ h => (nomatch h),
      fun _ h => .inr h⟩
  | @snoc events e stage stage' path next ih =>
    have hne : base ++ events ≠ [] := List.append_ne_nil_of_left_ne_nil (replay_ne_nil hbase) _
    rw [← List.append_assoc] at h
    obtain ⟨s₁, hs₁, -, happ⟩ := (replay_concat hne).mp h
    exact (ih hs₁).step (replay_known hs₁) happ next

/-- The recorded result of an invocation. -/
def RecordedResult (events : List (AgentEvent F)) (id : PyStr) (status : ToolInvocationLifecycle)
    (dataHash : Option PyStr) : Prop :=
  ∃ e ∈ events, e.Says .resultRecorded
    [("invocation_id", .str id), ("status", .str status.value), ("data_hash", textOrNone dataHash)]

/-- The verdict about an invocation. -/
def Judged (events : List (AgentEvent F)) (id : PyStr) (accepted : Bool) : Prop :=
  ∃ e ∈ events, e.Says .acceptanceDecided
    [("invocation_id", .str id), ("accepted", .bool accepted)]

/-- An invocation of the run was accepted; its recorded result is a success, with
the hash that the criteria ask for if they do. -/
def Evidence (criteria : Dict PyStr PyStr) (events : List (AgentEvent F)) : Prop :=
  ∃ id hash, id ∈ namedIn .toolProposed events ∧
    RecordedResult events id .succeeded (some hash) ∧ Judged events id true ∧
    ∀ expected ∈ criteria.get? (py "data_hash"), expected = hash

theorem RecordedResult.append {id : PyStr} {status : ToolInvocationLifecycle}
    {dataHash : Option PyStr} (h : RecordedResult events id status dataHash)
    (more : List (AgentEvent F)) : RecordedResult (events ++ more) id status dataHash :=
  let ⟨e, he, hsays⟩ := h
  ⟨e, List.mem_append_left more he, hsays⟩

theorem Judged.append {id : PyStr} {accepted : Bool} (h : Judged events id accepted)
    (more : List (AgentEvent F)) : Judged (events ++ more) id accepted :=
  let ⟨e, he, hsays⟩ := h
  ⟨e, List.mem_append_left more he, hsays⟩

theorem mem_namedIn_append {kind : EventKind} {id : PyStr} (h : id ∈ namedIn kind events)
    (more : List (AgentEvent F)) : id ∈ namedIn kind (events ++ more) := by
  rw [namedIn, List.filterMap_append]
  exact List.mem_append_left _ h

theorem mem_namedIn_concat {kind : EventKind} {id : PyStr} {e : AgentEvent F}
    (h : e.Records kind id) : id ∈ namedIn kind (events ++ [e]) := by
  have hname : named kind e = some id := by
    rw [named, if_pos h.1, h.field (v := .str id) (by simp)]
    rfl
  rw [namedIn_append, hname]
  simp

/-- What the events of a turn say about its stage. -/
def Told (criteria : Dict PyStr PyStr) (events : List (AgentEvent F)) : Stage → Prop
  | .call id phase =>
    id ∈ namedIn .toolProposed events ∧
      (phase.begun = true → id ∈ namedIn .dispatchStarted events)
  | .outcome id result phase =>
    id ∈ namedIn .toolProposed events ∧ id ∈ namedIn .dispatchStarted events ∧
      RecordedResult events id result.status result.dataHash ∧
      ∀ accepted, phase = .judged accepted →
        accepted = (evaluate result criteria).accepted ∧ Judged events id accepted
  | .ended lifecycle => lifecycle = .succeeded → Evidence criteria events
  | _ => True

omit [Host F] in
theorem evaluate_accepted {result : ToolResultEnvelope}
    (h : (evaluate result criteria).accepted = true) :
    result.status = .succeeded ∧ ∃ hash, result.dataHash = some hash ∧
      ∀ expected ∈ criteria.get? (py "data_hash"), expected = hash := by
  unfold evaluate at h
  split_ifs at h with hverified hhash htool
  obtain ⟨hstatus, hsome⟩ := not_or.mp hverified
  obtain ⟨hash, hash_eq⟩ := Option.ne_none_iff_exists'.mp hsome
  refine ⟨not_not.mp hstatus, hash, hash_eq, fun expected hmem => ?_⟩
  by_contra hne
  exact hhash ⟨expected, hmem, fun heq => hne (Option.some_inj.mp (heq.trans hash_eq))⟩

theorem Told.step {e : AgentEvent F} {stage' : Stage} (h : Told criteria events stage)
    (next : Next criteria e stage stage') : Told criteria (events ++ [e]) stage' := by
  cases next with
  | infer | payTurn | payTokens | payTime | decide | refuse | wait => trivial
  | stop event target_ok =>
    rintro rfl
    rcases target_ok with h | h <;> exact absurd h (by decide)
  | block event => exact fun h => absurd h (by decide)
  | propose event => exact ⟨mem_namedIn_concat event, fun h => absurd h (by decide)⟩
  | compile | prepare | check | forbid | allow | charge =>
    exact ⟨mem_namedIn_append h.1 _, fun h => absurd h (by simp [CallPhase.begun])⟩
  | dispatch event => exact ⟨mem_namedIn_append h.1 _, fun _ => mem_namedIn_concat event⟩
  | enter event | attempt event =>
    exact ⟨mem_namedIn_append h.1 _, fun _ => mem_namedIn_append (h.2 rfl) _⟩
  | @record id result event =>
    refine ⟨mem_namedIn_append h.1 _, mem_namedIn_append (h.2 rfl) _, ?_,
      fun _ h => absurd h (by simp)⟩
    refine ⟨e, List.mem_append_right events (List.mem_singleton_self e), event.1, fun f hf => ?_⟩
    refine event.2 f ?_
    simp only [List.mem_cons, List.not_mem_nil, or_false] at hf ⊢
    rcases hf with hf | hf | hf
    · exact .inl hf
    · exact .inr (.inl hf)
    · exact .inr (.inr (.inl hf))
  | close | observe | direct | verify =>
    exact ⟨mem_namedIn_append h.1 _, mem_namedIn_append h.2.1 _, h.2.2.1.append _,
      fun _ h => absurd h (by simp)⟩
  | leave flow event =>
    intro hsucceeded
    unfold decideFlow at hsucceeded
    split_ifs at hsucceeded
  | judge event =>
    refine ⟨mem_namedIn_append h.1 _, mem_namedIn_append h.2.1 _, h.2.2.1.append _,
      fun accepted haccepted => ?_⟩
    obtain rfl := OutcomePhase.judged.inj haccepted
    exact ⟨rfl, e, List.mem_append_right events (List.mem_singleton_self e), event⟩
  | @conclude id result accepted event =>
    intro hsucceeded
    cases accepted with
    | false => exact absurd hsucceeded (by decide)
    | true =>
      obtain ⟨hproposed, -, hrecorded, hjudged⟩ := h
      obtain ⟨haccepted, hverdict⟩ := hjudged true rfl
      obtain ⟨hstatus, hash, hash_eq, hcriterion⟩ := evaluate_accepted haccepted.symm
      rw [hstatus, hash_eq] at hrecorded
      exact ⟨id, hash, mem_namedIn_append hproposed _, hrecorded.append _, hverdict.append _,
        hcriterion⟩

theorem Path.told (path : Path criteria events stage) : Told criteria events stage := by
  induction path with
  | nil => trivial
  | snoc _ next ih => exact ih.step next

/-! ### Usage -/

/-- What an event reports in a category that inferences use. -/
def reportedAmount (category : BudgetCategory) (e : AgentEvent F) : ℤ :=
  if e.eventKind ≠ .inferenceCompleted then 0
  else
    match category with
    | .inferenceTokens =>
      (e.field "input_tokens").int?.getD 0 + (e.field "output_tokens").int?.getD 0
    | .inferenceMs => (e.field "inference_ms").int?.getD 0
    | _ => 0

def reported (events : List (AgentEvent F)) (category : BudgetCategory) : ℤ :=
  (events.map (reportedAmount category)).sum

/-- The categories that inferences use. -/
def inferenceCategories : List BudgetCategory := [.inferenceTokens, .inferenceMs]

/-- What a turn has reported and not debited. -/
def Stage.owed : Stage → BudgetCategory → ℤ
  | .inferred tokens _, .inferenceTokens => tokens
  | .paying tokens _, .inferenceTokens => tokens
  | .inferred _ ms, .inferenceMs => ms
  | .paying _ ms, .inferenceMs => ms
  | _, _ => 0

theorem reported_append (pre post : List (AgentEvent F)) (category : BudgetCategory) :
    reported (pre ++ post) category = reported pre category + reported post category := by
  simp [reported]

theorem consumed_append_list (pre post : List (AgentEvent F)) (category : BudgetCategory) :
    consumed (pre ++ post) category = consumed pre category + consumed post category := by
  simp [consumed]

theorem consumedAmount_debits {e : AgentEvent F} {category : BudgetCategory} {amount : ℤ}
    (event : e.Debits category amount) (c : BudgetCategory) :
    consumedAmount c e = if c = category then amount else 0 := by
  have hcategory : e.field "category" = .str category.value := event.field (by simp)
  have hamount : e.field "amount" = .int amount := event.field (by simp)
  have hvalue : category.value = c.value ↔ c = category := by
    constructor
    · intro h
      have hc := BudgetCategory.ofValue_value c
      rw [← h, BudgetCategory.ofValue_value] at hc
      exact (Option.some_inj.mp hc).symm
    · rintro rfl
      rfl
  rw [consumedAmount, hcategory, hamount]
  simp [AgentEvent.consumes, event.1, Value.str?, Value.int?, hvalue]

theorem consumedAmount_eq_zero {e : AgentEvent F} (h : e.eventKind ≠ .budgetConsumed)
    (c : BudgetCategory) : consumedAmount c e = 0 := by
  rw [consumedAmount, if_neg]
  simp [AgentEvent.consumes, h]

/-- One event of a turn changes what is owed by what it reports and debits. -/
theorem Next.owed {e : AgentEvent F} {stage' : Stage} (next : Next criteria e stage stage')
    {c : BudgetCategory} (hc : c ∈ inferenceCategories) :
    stage'.owed c = stage.owed c + reportedAmount c e - consumedAmount c e := by
  -- an event of another kind than these two changes nothing
  have hother (hinferred : e.eventKind ≠ .inferenceCompleted)
      (hdebit : e.eventKind ≠ .budgetConsumed) :
      reportedAmount c e = 0 ∧ consumedAmount c e = 0 :=
    ⟨if_pos hinferred, consumedAmount_eq_zero hdebit c⟩
  have hdebits {category : BudgetCategory} {amount : ℤ} (event : e.Debits category amount) :
      reportedAmount c e = 0 ∧ consumedAmount c e = if c = category then amount else 0 :=
    ⟨if_pos (by simp [event.1]), consumedAmount_debits event c⟩
  simp only [inferenceCategories, List.mem_cons, List.not_mem_nil, or_false] at hc
  cases next with
  | @infer input output ms event =>
    have hinput : e.field "input_tokens" = .int input := event.field (by simp)
    have houtput : e.field "output_tokens" = .int output := event.field (by simp)
    have hms : e.field "inference_ms" = .int ms := event.field (by simp)
    rw [consumedAmount_eq_zero (by simp [event.1])]
    rcases hc with rfl | rfl <;>
      simp [Stage.owed, reportedAmount, event.1, hinput, houtput, hms, Value.int?]
  | payTurn event | payTokens _ event | payTime _ event | charge event | attempt event =>
    obtain ⟨hreported, hconsumed⟩ := hdebits event
    rw [hreported, hconsumed]
    rcases hc with rfl | rfl <;> simp [Stage.owed]
  | decide event | stop event | refuse event | block event | wait event | propose event
  | compile event | prepare event | check event | forbid _ event | allow event | dispatch event
  | enter event | record event | close event | observe event | direct event | verify _ event
  | leave _ event | judge event | conclude event =>
    obtain ⟨hreported, hconsumed⟩ := hother (by simp [event.1]) (by simp [event.1])
    rw [hreported, hconsumed]
    rcases hc with rfl | rfl <;> simp [Stage.owed]

/-- **What a turn owes at a stage.** -/
theorem Path.owed (path : Path criteria events stage) {c : BudgetCategory}
    (hc : c ∈ inferenceCategories) :
    stage.owed c = reported events c - consumed events c := by
  induction path with
  | nil => rcases c with _ | _ | _ | _ | _ | _ | _ | _ | _ <;> rfl
  | snoc _ next ih =>
    rw [next.owed hc, ih, reported_append, consumed_append]
    simp only [reported, List.map_cons, List.map_nil, List.sum_singleton]
    omega

end Agent
