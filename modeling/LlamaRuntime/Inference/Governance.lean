/-
Scheduling policy: the weighted fair selector and the admission ledger.

* `HierarchicalFairSelector` — service ledgers by workflow, agent and request;
  `select` takes the first candidate of least key, `charge` and `forget` keep
  the ledgers;
* `ResourceAdmissionController` — one reservation per request, pending until
  `activate` gives it its KV tokens.
-/
import LlamaRuntime.Inference.Contracts
import LlamaRuntime.Python.Dict
import LlamaRuntime.Python.Exception
import Mathlib.Data.Prod.Lex
import Mathlib.Algebra.Order.Floor.Ring
import Mathlib.Data.Rat.Floor
import Mathlib.Order.WithBot

namespace Inference

structure ServiceClassPolicy where
  name : PyStr
  priority : ℤ
  emergency : Bool
  deriving DecidableEq

structure RuntimeSchedulingPolicy where
  serviceClasses : List ServiceClassPolicy
  agingIntervalSeconds : ℚ
  deadlineUrgencyWindowSeconds : ℚ
  deadlinePriorityBoost : ℕ
  emergencyBurstCap : ℕ
  aging_pos : 0 < agingIntervalSeconds
  window_pos : 0 < deadlineUrgencyWindowSeconds
  burst_pos : 0 < emergencyBurstCap
  names_nodup : (serviceClasses.map ServiceClassPolicy.name).Nodup
  one_emergency : (serviceClasses.filter ServiceClassPolicy.emergency).length ≤ 1

/-- One service class, without an emergency class, for runs on fixed inputs. -/
def interactiveOnly : RuntimeSchedulingPolicy :=
  ⟨[⟨py "interactive", 0, false⟩], 1, 1, 1, 1, by decide, by decide, Nat.one_pos, by decide,
    by decide⟩

structure AdmissionRejection where
  code : PyStr
  detail : PyStr
  retryable : Bool
  deriving DecidableEq

def AdmissionRejection.toException (r : AdmissionRejection) : PyException :=
  .coded "AdmissionRejection" r.code r.detail

/-- `class_policy` -/
def RuntimeSchedulingPolicy.classPolicy (policy : RuntimeSchedulingPolicy) (name : PyStr) :
    Except AdmissionRejection ServiceClassPolicy :=
  match policy.serviceClasses.find? fun item => item.name = name with
  | some item => .ok item
  | none => .error ⟨py "unknown_service_class",
      py "service class " ++ name ++ py " is not configured", false⟩

/-! ### The fair selector -/

/-- The mutable ledgers of the selector. -/
structure HierarchicalFairSelector where
  workflowService : Dict PyStr ℕ := ∅
  agentService : Dict (PyStr × PyStr) ℕ := ∅
  requestService : Dict PyStr ℕ := ∅
  workflowWeight : Dict PyStr ℕ := ∅
  agentWeight : Dict (PyStr × PyStr) ℕ := ∅
  consecutiveEmergency : ℕ := 0

/-- What the selector reads of an entry. -/
class SchedulableEntry (α : Type) where
  scheduling : α → SchedulingMetadata
  admittedAt : α → ℚ
  order : α → ℕ

export SchedulableEntry (scheduling admittedAt order)

/-- Selection keys, compared lexicographically. -/
abbrev SelectionKey := ℤ ×ₗ ℚ ×ₗ ℚ ×ₗ ℚ ×ₗ WithTop ℚ ×ₗ ℕ

/-- `min(candidates, key=...)` over `best :: rest`: the first of least key. -/
def minByKey {α K : Type} [LT K] [DecidableLT K] (key : α → K) : α → List α → α
  | best, [] => best
  | best, x :: rest => if key x < key best then minByKey key x rest else minByKey key best rest

theorem minByKey_mem {α K : Type} [LT K] [DecidableLT K] (key : α → K) :
    ∀ (best : α) (rest : List α), minByKey key best rest ∈ best :: rest
  | best, [] => by simp [minByKey]
  | best, x :: rest => by
    rw [minByKey]
    split_ifs
    · exact List.mem_cons_of_mem _ (minByKey_mem key x rest)
    · have := minByKey_mem key best rest
      rw [List.mem_cons] at this ⊢
      exact this.imp_right (List.mem_cons_of_mem _)

namespace HierarchicalFairSelector

variable {α : Type} [SchedulableEntry α]

def agentOf (s : SchedulingMetadata) : PyStr × PyStr := (s.workflowId, s.agentId)

/-- The weights `select` notes down before it compares. -/
def noteWeights (sel : HierarchicalFairSelector) (s : SchedulingMetadata) :
    HierarchicalFairSelector :=
  { sel with
    workflowWeight := sel.workflowWeight.set s.workflowId
      (max ((sel.workflowWeight.get? s.workflowId).getD 1) s.weight)
    agentWeight := sel.agentWeight.set (agentOf s)
      (max ((sel.agentWeight.get? (agentOf s)).getD 1) s.weight) }

/-- The first loop of `select`: every candidate's class must be configured. -/
def noteAll (policy : RuntimeSchedulingPolicy) (sel : HierarchicalFairSelector) :
    List α → Except AdmissionRejection Unit × HierarchicalFairSelector
  | [] => (.ok (), sel)
  | entry :: rest =>
    match policy.classPolicy (scheduling entry).serviceClass with
    | .error e => (.error e, sel)
    | .ok _ => noteAll policy (sel.noteWeights (scheduling entry)) rest

/-- The class of an entry that `noteAll` has let through. -/
def classOf (policy : RuntimeSchedulingPolicy) (entry : α) : ServiceClassPolicy :=
  match policy.classPolicy (scheduling entry).serviceClass with
  | .ok item => item
  | .error _ => ⟨[], 0, false⟩

/-- `_is_emergency` -/
def isEmergency (policy : RuntimeSchedulingPolicy) (entry : α) : Bool :=
  (classOf policy entry).emergency

/-- The service over weight ratios of `_key`. -/
def debt {κ : Type} [DecidableEq κ] (service weight : Dict κ ℕ) (k : κ) (fallback : ℕ) : ℚ :=
  ((service.get? k).getD 0 : ℚ) / ((weight.get? k).getD fallback : ℚ)

/-- `effective_priority` of `_key` -/
def effectivePriority (policy : RuntimeSchedulingPolicy) (entry : α) (now : ℚ) : ℤ :=
  let waited := max 0 (now - admittedAt entry)
  let aging := ⌊waited / policy.agingIntervalSeconds⌋
  let deadlineBoost : ℤ :=
    match (scheduling entry).deadlineMonotonic with
    | none => 0
    | some deadline =>
      if deadline - now ≤ policy.deadlineUrgencyWindowSeconds
      then (policy.deadlinePriorityBoost : ℤ) else 0
  (classOf policy entry).priority + aging + deadlineBoost

/-- `_key` -/
def key (policy : RuntimeSchedulingPolicy) (sel : HierarchicalFairSelector) (now : ℚ)
    (entry : α) : SelectionKey :=
  let s := scheduling entry
  toLex (-effectivePriority policy entry now,
    toLex (debt sel.workflowService sel.workflowWeight s.workflowId s.weight,
    toLex (debt sel.agentService sel.agentWeight (agentOf s) s.weight,
    toLex (((sel.requestService.get? s.requestId).getD 0 : ℚ) / s.weight,
    toLex ((match s.deadlineMonotonic with | none => ⊤ | some d => (d : WithTop ℚ)),
      order entry)))))

/-- The lane the selection is made in. -/
def lane (policy : RuntimeSchedulingPolicy) (sel : HierarchicalFairSelector) (entries : List α) :
    List α :=
  let emergency := entries.filter fun e => isEmergency policy e
  let normal := entries.filter fun e => ¬ isEmergency policy e
  if emergency ≠ [] ∧ (normal = [] ∨ sel.consecutiveEmergency < policy.emergencyBurstCap)
  then emergency
  else if normal ≠ [] then normal else entries

/-- `select` -/
def select (policy : RuntimeSchedulingPolicy) (sel : HierarchicalFairSelector) (entries : List α)
    (now : ℚ) : Except AdmissionRejection (Option α) × HierarchicalFairSelector :=
  match entries with
  | [] => (.ok none, sel)
  | _ :: _ =>
    match noteAll policy sel entries with
    | (.error e, sel) => (.error e, sel)
    | (.ok _, sel) =>
      match lane policy sel entries with
      | [] => (.ok none, sel)
      | first :: rest =>
        let selected := minByKey (key policy sel now) first rest
        (.ok (some selected), { sel with
          consecutiveEmergency :=
            if isEmergency policy selected then sel.consecutiveEmergency + 1 else 0 })

/-- `charge`; a number of tokens that is not positive is a `ValueError`, which
the scheduler excludes before it calls. -/
def charge (sel : HierarchicalFairSelector) (s : SchedulingMetadata) (tokens : ℕ) :
    HierarchicalFairSelector :=
  { sel with
    workflowService := sel.workflowService.set s.workflowId
      ((sel.workflowService.get? s.workflowId).getD 0 + tokens)
    agentService := sel.agentService.set (agentOf s)
      ((sel.agentService.get? (agentOf s)).getD 0 + tokens)
    requestService := sel.requestService.set s.requestId
      ((sel.requestService.get? s.requestId).getD 0 + tokens) }

/-- `forget` -/
def forget (sel : HierarchicalFairSelector) (s : SchedulingMetadata) (dropAgent dropWorkflow : Bool) :
    HierarchicalFairSelector :=
  { sel with
    requestService := sel.requestService.pop s.requestId
    agentService := if dropAgent then sel.agentService.pop (agentOf s) else sel.agentService
    agentWeight := if dropAgent then sel.agentWeight.pop (agentOf s) else sel.agentWeight
    workflowService :=
      if dropWorkflow then sel.workflowService.pop s.workflowId else sel.workflowService
    workflowWeight :=
      if dropWorkflow then sel.workflowWeight.pop s.workflowId else sel.workflowWeight }

theorem mem_of_mem_lane {policy : RuntimeSchedulingPolicy} {sel : HierarchicalFairSelector}
    {entries : List α} {e : α} (h : e ∈ lane policy sel entries) : e ∈ entries := by
  unfold lane at h
  dsimp only at h
  split_ifs at h
  · exact List.mem_of_mem_filter h
  · exact List.mem_of_mem_filter h
  · exact h

/-- What is selected is one of the candidates. -/
theorem select_mem {policy : RuntimeSchedulingPolicy} {sel : HierarchicalFairSelector}
    {entries : List α} {now : ℚ} {e : α} (h : (select policy sel entries now).1 = .ok (some e)) :
    e ∈ entries := by
  unfold select at h
  cases entries with
  | nil => exact absurd (Except.ok.inj h) (by simp)
  | cons x xs =>
    dsimp only at h
    rcases hn : noteAll policy sel (x :: xs) with ⟨r, sel'⟩
    rw [hn] at h
    cases r with
    | error e => exact absurd h (by simp)
    | ok u =>
      dsimp only at h
      cases hl : lane policy sel' (x :: xs) with
      | nil =>
        rw [hl] at h
        exact absurd (Except.ok.inj h) (by simp)
      | cons first rest =>
        rw [hl] at h
        have he := Option.some_inj.mp (Except.ok.inj h)
        exact mem_of_mem_lane (hl ▸ he ▸ minByKey_mem _ first rest)

end HierarchicalFairSelector

/-! ### The admission ledger -/

structure AdmissionLimits where
  maxPending : ℕ
  maxSequences : ℕ
  kvTokenBudget : ℕ
  maxPendingPerWorkflow : ℕ
  maxPendingPerAgent : ℕ
  maxSequencesPerWorkflow : ℕ
  maxSequencesPerAgent : ℕ
  maxKvTokensPerWorkflow : ℕ
  maxKvTokensPerAgent : ℕ
  loadShedPendingThreshold : ℕ
  loadShedMinPriority : ℤ

/-- `_Reservation` -/
structure Reservation where
  scheduling : SchedulingMetadata
  estimatedTokens : ℕ
  reservedTokens : Option ℕ := none

/-- The ledger of the controller: one reservation per request id. -/
structure ResourceAdmissionController where
  reservations : Dict PyStr Reservation := ∅

namespace ResourceAdmissionController

def pending (c : ResourceAdmissionController) : List Reservation :=
  c.reservations.values.filter fun item => item.reservedTokens.isNone

def active (c : ResourceAdmissionController) : List Reservation :=
  c.reservations.values.filter fun item => item.reservedTokens.isSome

private def reject {α : Type} (code detail : String) (retryable : Bool) :
    Except AdmissionRejection α :=
  .error ⟨py code, py detail, retryable⟩

/-- `admit` -/
def admitRequest (limits : AdmissionLimits) (policy : RuntimeSchedulingPolicy)
    (c : ResourceAdmissionController) (s : SchedulingMetadata) (estimatedTokens : ℕ) :
    Except AdmissionRejection ResourceAdmissionController :=
  if limits.kvTokenBudget < estimatedTokens then
    reject "context_overflow" "request estimate exceeds the runtime KV budget" false
  else if limits.maxKvTokensPerWorkflow < estimatedTokens then
    reject "workflow_kv_quota" "request estimate exceeds the per-workflow KV quota" false
  else if limits.maxKvTokensPerAgent < estimatedTokens then
    reject "agent_kv_quota" "request estimate exceeds the per-agent KV quota" false
  else
    match policy.classPolicy s.serviceClass with
    | .error e => .error e
    | .ok classPolicy =>
      let pending := c.pending
      if c.reservations.contains s.requestId then
        reject "duplicate_request" "request is already registered" false
      else if limits.maxPending ≤ pending.length then
        reject "queue_full" "inference admission queue is full" true
      else if limits.loadShedPendingThreshold ≤ pending.length
          ∧ classPolicy.priority < limits.loadShedMinPriority ∧ ¬ classPolicy.emergency then
        reject "overloaded" "low-priority work is being shed under saturation" true
      else if limits.maxPendingPerWorkflow ≤
          pending.countP fun item => item.scheduling.workflowId = s.workflowId then
        reject "workflow_queue_quota" "workflow pending quota is exhausted" true
      else if limits.maxPendingPerAgent ≤
          pending.countP fun item => item.scheduling.workflowId = s.workflowId
            ∧ item.scheduling.agentId = s.agentId then
        reject "agent_queue_quota" "agent pending quota is exhausted" true
      else .ok ⟨c.reservations.set s.requestId ⟨s, estimatedTokens, none⟩⟩

private def kvTokens (items : List Reservation) : ℕ :=
  (items.map fun item => item.reservedTokens.getD 0).sum

/-- `can_activate` -/
def canActivate (limits : AdmissionLimits) (c : ResourceAdmissionController) (requestId : PyStr) :
    Bool :=
  match c.reservations.get? requestId with
  | none => false
  | some item =>
    let active := c.active
    let workflowActive := active.filter fun current =>
      current.scheduling.workflowId = item.scheduling.workflowId
    let agentActive := workflowActive.filter fun current =>
      current.scheduling.agentId = item.scheduling.agentId
    item.reservedTokens.isNone
      ∧ active.length < limits.maxSequences
      ∧ workflowActive.length < limits.maxSequencesPerWorkflow
      ∧ agentActive.length < limits.maxSequencesPerAgent
      ∧ kvTokens active + item.estimatedTokens ≤ limits.kvTokenBudget
      ∧ kvTokens workflowActive + item.estimatedTokens ≤ limits.maxKvTokensPerWorkflow
      ∧ kvTokens agentActive + item.estimatedTokens ≤ limits.maxKvTokensPerAgent

/-- `activate`; `reservedTokens = none` stands for a backend without a
`reservation_tokens` method. -/
def activate (c : ResourceAdmissionController) (requestId : PyStr) (reservedTokens : Option ℤ) :
    Except PyException ResourceAdmissionController :=
  let reject (code detail : String) : Except PyException ResourceAdmissionController :=
    .error (AdmissionRejection.toException ⟨py code, py detail, false⟩)
  match c.reservations.get? requestId with
  | none => reject "unknown_request" "request is not registered"
  | some item =>
    if item.reservedTokens.isSome then
      reject "state_conflict" "request already owns a sequence reservation"
    else
      let actual := reservedTokens.getD item.estimatedTokens
      if actual ≤ 0 then .error (.builtin "ValueError" "reserved_tokens must be a positive integer")
      else if item.estimatedTokens < actual then
        reject "reservation_underestimated" "backend reservation exceeds the admission estimate"
      else .ok ⟨c.reservations.set requestId { item with reservedTokens := some actual.toNat }⟩

/-- `release` -/
def release (c : ResourceAdmissionController) (requestId : PyStr) : ResourceAdmissionController :=
  ⟨c.reservations.pop requestId⟩

end ResourceAdmissionController

end Inference
