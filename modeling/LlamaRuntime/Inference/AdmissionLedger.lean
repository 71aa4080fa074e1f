/-
The admission ledger under its clients and one scheduler.

* `QuotaScope` — the runtime, a workflow, an agent: where limits are set;
* `SharedLedger` — the ledger with the grant of the scheduler, and the operations on it;
* `Reached` — the ledgers that clients and the scheduler reach in any order;
* `limits_hold` — none of them exceeds a limit, and what is rejected changes nothing.
-/
import LlamaRuntime.Inference.Governance

namespace Inference

/-! ### Scopes -/

/-- Where limits are set. -/
inductive QuotaScope where
  | runtime
  | workflow (workflowId : PyStr)
  | agent (workflowId agentId : PyStr)

namespace QuotaScope

/-- A request counts in a scope. -/
def Covers : QuotaScope → SchedulingMetadata → Prop
  | .runtime, _ => True
  | .workflow w, s => s.workflowId = w
  | .agent w a, s => s.workflowId = w ∧ s.agentId = a

instance (scope : QuotaScope) (s : SchedulingMetadata) : Decidable (scope.Covers s) :=
  match scope with
  | .runtime => inferInstanceAs (Decidable True)
  | .workflow _ => inferInstanceAs (Decidable (_ = _))
  | .agent _ _ => inferInstanceAs (Decidable (_ ∧ _))

end QuotaScope

namespace AdmissionLimits

variable (limits : AdmissionLimits)

/-- How many requests of a scope may be pending. -/
def pendingIn : QuotaScope → ℕ
  | .runtime => limits.maxPending
  | .workflow _ => limits.maxPendingPerWorkflow
  | .agent _ _ => limits.maxPendingPerAgent

/-- How many sequences of a scope may be active. -/
def sequencesIn : QuotaScope → ℕ
  | .runtime => limits.maxSequences
  | .workflow _ => limits.maxSequencesPerWorkflow
  | .agent _ _ => limits.maxSequencesPerAgent

/-- How many KV tokens a scope may reserve. -/
def kvTokensIn : QuotaScope → ℕ
  | .runtime => limits.kvTokenBudget
  | .workflow _ => limits.maxKvTokensPerWorkflow
  | .agent _ _ => limits.maxKvTokensPerAgent

end AdmissionLimits

namespace ResourceAdmissionController

variable (c : ResourceAdmissionController)

/-- The pending requests of a scope. -/
def pendingIn (scope : QuotaScope) : ℕ :=
  c.pending.countP fun item => scope.Covers item.scheduling

/-- The active sequences of a scope. -/
def activeIn (scope : QuotaScope) : ℕ :=
  c.active.countP fun item => scope.Covers item.scheduling

/-- The KV tokens that a scope has reserved. -/
def kvTokensIn (scope : QuotaScope) : ℕ :=
  ((c.active.filter fun item => scope.Covers item.scheduling).map
    fun item => item.reservedTokens.getD 0).sum

/-- A ledger within its limits. -/
structure WithinLimits (limits : AdmissionLimits) : Prop where
  pending : ∀ scope, c.pendingIn scope ≤ limits.pendingIn scope
  sequences : ∀ scope, c.activeIn scope ≤ limits.sequencesIn scope
  kvTokens : ∀ scope, c.kvTokensIn scope ≤ limits.kvTokensIn scope
  estimated : ∀ item ∈ c.reservations.values, ∀ reserved ∈ item.reservedTokens,
    reserved ≤ item.estimatedTokens

/-! ### Weights of a reservation -/

/-- What a reservation adds to the pending requests of a scope. -/
def pendingWeight (scope : QuotaScope) (item : Reservation) : ℕ :=
  if item.reservedTokens.isNone ∧ scope.Covers item.scheduling then 1 else 0

/-- What it adds to the active sequences. -/
def activeWeight (scope : QuotaScope) (item : Reservation) : ℕ :=
  if item.reservedTokens.isSome ∧ scope.Covers item.scheduling then 1 else 0

/-- What it adds to the reserved tokens. -/
def kvWeight (scope : QuotaScope) (item : Reservation) : ℕ :=
  if item.reservedTokens.isSome ∧ scope.Covers item.scheduling then item.reservedTokens.getD 0 else 0

theorem sum_weight {α : Type} (p q : α → Bool) (f : α → ℕ) (l : List α) :
    (((l.filter p).filter q).map f).sum = (l.map fun a => if p a ∧ q a then f a else 0).sum := by
  induction l with
  | nil => rfl
  | cons a rest ih =>
    rw [List.map_cons, List.sum_cons, ← ih]
    by_cases hp : p a = true
    · rw [List.filter_cons_of_pos hp]
      by_cases hq : q a = true
      · rw [List.filter_cons_of_pos hq, if_pos ⟨hp, hq⟩, List.map_cons, List.sum_cons]
      · rw [List.filter_cons_of_neg hq, if_neg fun h => hq h.2, Nat.zero_add]
    · rw [List.filter_cons_of_neg hp, if_neg fun h => hp h.1, Nat.zero_add]

theorem count_weight {α : Type} (p q : α → Bool) (l : List α) :
    (l.filter p).countP q = (l.map fun a => if p a ∧ q a then 1 else 0).sum := by
  have hsum := sum_weight p q (fun _ => 1) l
  rw [← hsum, List.countP_eq_length_filter]
  simp

theorem pendingIn_eq (scope : QuotaScope) :
    c.pendingIn scope = c.reservations.total (pendingWeight scope) := by
  refine (count_weight _ _ _).trans (congrArg List.sum (List.map_congr_left fun item _ => ?_))
  simp [pendingWeight]

theorem activeIn_eq (scope : QuotaScope) :
    c.activeIn scope = c.reservations.total (activeWeight scope) := by
  refine (count_weight _ _ _).trans (congrArg List.sum (List.map_congr_left fun item _ => ?_))
  simp [activeWeight]

theorem kvTokensIn_eq (scope : QuotaScope) :
    c.kvTokensIn scope = c.reservations.total (kvWeight scope) := by
  refine (sum_weight _ _ _ _).trans (congrArg List.sum (List.map_congr_left fun item _ => ?_))
  simp [kvWeight]

/-! ### The operations -/

/-- A reservation is entered, in place of another one or not. -/
theorem counts_set (scope : QuotaScope) (requestId : PyStr) (item : Reservation) :
    (ResourceAdmissionController.mk (c.reservations.set requestId item)).pendingIn scope
        + (c.reservations.get? requestId).elim 0 (pendingWeight scope)
        = c.pendingIn scope + pendingWeight scope item ∧
      (ResourceAdmissionController.mk (c.reservations.set requestId item)).activeIn scope
        + (c.reservations.get? requestId).elim 0 (activeWeight scope)
        = c.activeIn scope + activeWeight scope item ∧
      (ResourceAdmissionController.mk (c.reservations.set requestId item)).kvTokensIn scope
        + (c.reservations.get? requestId).elim 0 (kvWeight scope)
        = c.kvTokensIn scope + kvWeight scope item := by
  simp only [pendingIn_eq, activeIn_eq, kvTokensIn_eq]
  exact ⟨Dict.total_set _ _ _ _, Dict.total_set _ _ _ _, Dict.total_set _ _ _ _⟩

/-- A request that was not registered becomes pending. -/
theorem counts_admitted {s : SchedulingMetadata} (new : c.reservations.get? s.requestId = none)
    (estimated : ℕ) (scope : QuotaScope) :
    (ResourceAdmissionController.mk
        (c.reservations.set s.requestId ⟨s, estimated, none⟩)).pendingIn scope
        = c.pendingIn scope + (if scope.Covers s then 1 else 0) ∧
      (ResourceAdmissionController.mk
        (c.reservations.set s.requestId ⟨s, estimated, none⟩)).activeIn scope = c.activeIn scope ∧
      (ResourceAdmissionController.mk
        (c.reservations.set s.requestId ⟨s, estimated, none⟩)).kvTokensIn scope
        = c.kvTokensIn scope := by
  have hcounts := c.counts_set scope s.requestId ⟨s, estimated, none⟩
  rw [new] at hcounts
  simpa [pendingWeight, activeWeight, kvWeight] using hcounts

/-- A pending request becomes an active sequence. -/
theorem counts_activated {requestId : PyStr} {item : Reservation}
    (registered : c.reservations.get? requestId = some item) (pending : item.reservedTokens = none)
    (actual : ℕ) (scope : QuotaScope) :
    (ResourceAdmissionController.mk
        (c.reservations.set requestId { item with reservedTokens := some actual })).pendingIn scope
        ≤ c.pendingIn scope ∧
      (ResourceAdmissionController.mk
        (c.reservations.set requestId { item with reservedTokens := some actual })).activeIn scope
        = c.activeIn scope + (if scope.Covers item.scheduling then 1 else 0) ∧
      (ResourceAdmissionController.mk
        (c.reservations.set requestId { item with reservedTokens := some actual })).kvTokensIn scope
        = c.kvTokensIn scope + (if scope.Covers item.scheduling then actual else 0) := by
  have hcounts := c.counts_set scope requestId { item with reservedTokens := some actual }
  rw [registered] at hcounts
  simp only [Option.elim_some, pendingWeight, activeWeight, kvWeight, pending, Option.isNone_none,
    Option.isSome_none, Option.isNone_some, Option.isSome_some, Option.getD_some, true_and,
    false_and, Bool.false_eq_true, if_false, Nat.add_zero] at hcounts
  obtain ⟨hpending, hactive, hkv⟩ := hcounts
  exact ⟨by omega, hactive, hkv⟩

/-- A reservation is removed. -/
theorem counts_pop (scope : QuotaScope) (requestId : PyStr) :
    (c.release requestId).pendingIn scope ≤ c.pendingIn scope ∧
      (c.release requestId).activeIn scope ≤ c.activeIn scope ∧
      (c.release requestId).kvTokensIn scope ≤ c.kvTokensIn scope := by
  have hpending := Dict.total_pop (pendingWeight scope) c.reservations requestId
  have hactive := Dict.total_pop (activeWeight scope) c.reservations requestId
  have hkv := Dict.total_pop (kvWeight scope) c.reservations requestId
  simp only [pendingIn_eq, activeIn_eq, kvTokensIn_eq, release]
  refine ⟨?_, ?_, ?_⟩
  · omega
  · omega
  · omega

/-- What an admission checks and does. -/
theorem admitRequest_ok {limits : AdmissionLimits} {policy : RuntimeSchedulingPolicy}
    {c c' : ResourceAdmissionController} {s : SchedulingMetadata} {estimated : ℕ}
    (h : admitRequest limits policy c s estimated = .ok c') :
    c.reservations.get? s.requestId = none ∧
      (∀ scope : QuotaScope, scope.Covers s → c.pendingIn scope < limits.pendingIn scope) ∧
      c' = ⟨c.reservations.set s.requestId ⟨s, estimated, none⟩⟩ := by
  unfold admitRequest at h
  by_cases hkv : limits.kvTokenBudget < estimated
  · rw [if_pos hkv] at h
    exact nomatch h
  rw [if_neg hkv] at h
  by_cases hworkflow : limits.maxKvTokensPerWorkflow < estimated
  · rw [if_pos hworkflow] at h
    exact nomatch h
  rw [if_neg hworkflow] at h
  by_cases hagent : limits.maxKvTokensPerAgent < estimated
  · rw [if_pos hagent] at h
    exact nomatch h
  rw [if_neg hagent] at h
  cases hclass : policy.classPolicy s.serviceClass with
  | error e =>
    rw [hclass] at h
    exact nomatch h
  | ok classPolicy =>
    rw [hclass] at h
    dsimp only at h
    by_cases hduplicate : c.reservations.contains s.requestId = true
    · rw [if_pos hduplicate] at h
      exact nomatch h
    rw [if_neg hduplicate] at h
    split_ifs at h with hfull hload hworkflowQueue hagentQueue
    · exact nomatch h
    · exact nomatch h
    · exact nomatch h
    · exact nomatch h
    · refine ⟨?_, fun scope hscope => ?_, (Except.ok.inj h).symm⟩
      · simpa [Dict.contains] using hduplicate
      · cases scope with
        | runtime =>
          have hall : c.pendingIn .runtime = c.pending.length :=
            List.countP_eq_length.mpr fun _ _ => decide_eq_true trivial
          rw [hall]
          exact Nat.lt_of_not_le hfull
        | workflow w =>
          have hw : s.workflowId = w := hscope
          subst hw
          exact Nat.lt_of_not_le hworkflowQueue
        | agent w a =>
          obtain ⟨rfl, rfl⟩ : s.workflowId = w ∧ s.agentId = a := hscope
          exact Nat.lt_of_not_le hagentQueue

/-- What a grant promises of a request. -/
structure Grantable (limits : AdmissionLimits) (item : Reservation) : Prop where
  pending : item.reservedTokens = none
  room : ∀ scope : QuotaScope, scope.Covers item.scheduling →
    c.activeIn scope < limits.sequencesIn scope ∧
      c.kvTokensIn scope + item.estimatedTokens ≤ limits.kvTokensIn scope

theorem canActivate_ok {limits : AdmissionLimits} {c : ResourceAdmissionController}
    {requestId : PyStr} (h : canActivate limits c requestId = true) :
    ∃ item, c.reservations.get? requestId = some item ∧ c.Grantable limits item := by
  unfold canActivate at h
  cases hitem : c.reservations.get? requestId with
  | none =>
    rw [hitem] at h
    exact absurd h (by simp)
  | some item =>
    rw [hitem] at h
    dsimp only at h
    obtain ⟨hpending, hlength, hworkflow, hagent, hkv, hworkflowKv, hagentKv⟩ := of_decide_eq_true h
    refine ⟨item, rfl, Option.isNone_iff_eq_none.mp hpending, fun scope hscope => ?_⟩
    cases scope with
    | runtime =>
      have hall : c.active.filter (fun item => QuotaScope.runtime.Covers item.scheduling)
          = c.active := List.filter_eq_self.mpr fun _ _ => decide_eq_true trivial
      unfold activeIn kvTokensIn
      rw [List.countP_eq_length_filter, hall]
      exact ⟨hlength, hkv⟩
    | workflow w =>
      have hw : item.scheduling.workflowId = w := hscope
      subst hw
      unfold activeIn
      rw [List.countP_eq_length_filter]
      exact ⟨hworkflow, hworkflowKv⟩
    | agent w a =>
      obtain ⟨rfl, rfl⟩ : item.scheduling.workflowId = w ∧ item.scheduling.agentId = a := hscope
      rw [List.filter_filter] at hagent hagentKv
      have hboth : c.active.filter (fun current =>
            (QuotaScope.agent item.scheduling.workflowId item.scheduling.agentId).Covers
              current.scheduling)
          = c.active.filter fun current =>
            (decide (current.scheduling.agentId = item.scheduling.agentId) &&
              decide (current.scheduling.workflowId = item.scheduling.workflowId)) := by
        refine List.filter_congr fun current _ => ?_
        rw [Bool.eq_iff_iff, Bool.and_eq_true, decide_eq_true_iff, decide_eq_true_iff,
          decide_eq_true_iff]
        exact and_comm
      unfold activeIn kvTokensIn
      rw [List.countP_eq_length_filter, hboth]
      exact ⟨hagent, hagentKv⟩

/-- What an activation checks and does. -/
theorem activate_ok {c c' : ResourceAdmissionController} {requestId : PyStr}
    {reservedTokens : Option ℤ} (h : activate c requestId reservedTokens = .ok c') :
    ∃ item actual, c.reservations.get? requestId = some item ∧ item.reservedTokens = none ∧
      actual ≤ item.estimatedTokens ∧
      c' = ⟨c.reservations.set requestId { item with reservedTokens := some actual }⟩ := by
  unfold activate at h
  cases hitem : c.reservations.get? requestId with
  | none =>
    rw [hitem] at h
    exact nomatch h
  | some item =>
    rw [hitem] at h
    dsimp only at h
    split_ifs at h with howned hpositive hestimate
    · refine ⟨item, (reservedTokens.getD item.estimatedTokens).toNat, rfl, ?_, ?_,
        (Except.ok.inj h).symm⟩
      · simpa using howned
      · omega

end ResourceAdmissionController

/-! ### The ledger under its clients and one scheduler -/

open ResourceAdmissionController

/-- The ledger, and the request that the scheduler was told it can activate. -/
structure SharedLedger where
  controller : ResourceAdmissionController := {}
  granted : Option PyStr := none

/-- `admit` is called by clients, the others by the scheduler. -/
inductive LedgerOp where
  | admitRequest (scheduling : SchedulingMetadata) (estimatedTokens : ℤ)
  | canActivate (requestId : PyStr)
  | activate (requestId : PyStr) (reservedTokens : Option ℤ)
  | release (requestId : PyStr)

inductive LedgerReply where
  | raised (exc : PyException)
  | returned
  | answered (value : Bool)

/-- `admit` with its checks of types -/
def admitEstimate (limits : AdmissionLimits) (policy : RuntimeSchedulingPolicy)
    (c : ResourceAdmissionController) (scheduling : SchedulingMetadata) (estimatedTokens : ℤ) :
    Except PyException ResourceAdmissionController :=
  if estimatedTokens ≤ 0 then
    .error (.builtin "ValueError" "estimated_tokens must be a positive integer")
  else
    match admitRequest limits policy c scheduling estimatedTokens.toNat with
    | .error rejection => .error rejection.toException
    | .ok c => .ok c

namespace SharedLedger

variable (limits : AdmissionLimits) (policy : RuntimeSchedulingPolicy)

/-- One call of a method of the controller. -/
def step (l : SharedLedger) : LedgerOp → LedgerReply × SharedLedger
  | .admitRequest scheduling estimatedTokens =>
    match admitEstimate limits policy l.controller scheduling estimatedTokens with
    | .error exc => (.raised exc, l)
    | .ok controller => (.returned, { l with controller })
  | .canActivate requestId =>
    (.answered (l.controller.canActivate limits requestId),
      { l with granted := if l.controller.canActivate limits requestId then some requestId else none })
  | .activate requestId reservedTokens =>
    match l.controller.activate requestId reservedTokens with
    | .error exc => (.raised exc, { l with granted := none })
    | .ok controller => (.returned, { controller, granted := none })
  | .release requestId =>
    (.answered (l.controller.reservations.contains requestId),
      { controller := l.controller.release requestId
        granted := if l.granted = some requestId then none else l.granted })

/-- The scheduler activates only what it was told it can. -/
def Allowed (l : SharedLedger) : LedgerOp → Prop
  | .activate requestId _ => l.granted = some requestId
  | _ => True

/-- The ledgers of all interleavings. -/
inductive Reached : SharedLedger → Prop
  | start : Reached {}
  | next {l : SharedLedger} (before : Reached l) (op : LedgerOp) (allowed : l.Allowed op) :
      Reached (l.step limits policy op).2

variable {limits policy}

/-- The request that was granted can be activated still. -/
structure Kept (limits : AdmissionLimits) (l : SharedLedger) : Prop where
  within : l.controller.WithinLimits limits
  granted : ∀ requestId ∈ l.granted, ∃ item,
    l.controller.reservations.get? requestId = some item ∧ l.controller.Grantable limits item

theorem kept_start (limits : AdmissionLimits) : Kept limits {} := by
  refine ⟨⟨fun _ => Nat.zero_le _, fun _ => Nat.zero_le _, fun _ => Nat.zero_le _, ?_⟩, ?_⟩
  · exact fun item hitem => absurd hitem (List.not_mem_nil)
  · exact fun requestId hgranted => absurd hgranted (by simp)

/-- The reservations after one was entered. -/
theorem estimated_set {c : ResourceAdmissionController} {requestId : PyStr} {item : Reservation}
    (h : ∀ item ∈ c.reservations.values, ∀ reserved ∈ item.reservedTokens,
      reserved ≤ item.estimatedTokens)
    (new : ∀ reserved ∈ item.reservedTokens, reserved ≤ item.estimatedTokens) :
    ∀ other ∈ (c.reservations.set requestId item).values, ∀ reserved ∈ other.reservedTokens,
      reserved ≤ other.estimatedTokens := by
  intro other hother
  obtain ⟨⟨id, value⟩, hmem, rfl⟩ := List.mem_map.mp hother
  have hget := Dict.mem_items_iff.mp hmem
  rw [Dict.get?_set] at hget
  split_ifs at hget
  · obtain rfl := Option.some_inj.mp hget
    exact new
  · exact h value (List.mem_map.mpr ⟨(id, value), Dict.mem_items_iff.mpr hget, rfl⟩)

theorem Kept.admitted {l : SharedLedger} (h : Kept limits l) {c' : ResourceAdmissionController}
    {s : SchedulingMetadata} {estimated : ℕ}
    (hentered : admitRequest limits policy l.controller s estimated = .ok c') :
    Kept limits { l with controller := c' } := by
  obtain ⟨hnew, hroom, rfl⟩ := admitRequest_ok hentered
  have hcounts := l.controller.counts_admitted hnew estimated
  refine ⟨⟨fun scope => ?_, fun scope => ?_, fun scope => ?_, ?_⟩, fun requestId hgranted => ?_⟩
  · obtain ⟨hcount, -, -⟩ := hcounts scope
    have hbefore := h.within.pending scope
    rw [hcount]
    split_ifs with hscope
    · exact hroom scope hscope
    · exact hbefore
  · obtain ⟨-, hcount, -⟩ := hcounts scope
    exact hcount.trans_le (h.within.sequences scope)
  · obtain ⟨-, -, hcount⟩ := hcounts scope
    exact hcount.trans_le (h.within.kvTokens scope)
  · exact estimated_set h.within.estimated fun reserved hreserved => absurd hreserved (by simp)
  · -- the granted request is registered, and another one was admitted
    obtain ⟨item, hitem, hgrant⟩ := h.granted requestId hgranted
    have hne : s.requestId ≠ requestId := by
      rintro rfl
      exact absurd (hnew.symm.trans hitem) (by simp)
    refine ⟨item, (Dict.get?_set_ne hne).trans hitem, hgrant.pending, fun scope hscope => ?_⟩
    obtain ⟨-, hactive, hkv⟩ := hcounts scope
    rw [hactive, hkv]
    exact hgrant.room scope hscope

theorem Kept.activate {l : SharedLedger} (h : Kept limits l) {requestId : PyStr}
    (granted : l.granted = some requestId) {c' : ResourceAdmissionController}
    {reservedTokens : Option ℤ} (hactivate : l.controller.activate requestId reservedTokens = .ok c') :
    Kept limits { controller := c', granted := none } := by
  obtain ⟨item, actual, hitem, howned, hle, rfl⟩ := activate_ok hactivate
  obtain ⟨found, hfound, hgrant⟩ := h.granted requestId granted
  obtain rfl := Option.some_inj.mp (hitem.symm.trans hfound)
  have hcounts := l.controller.counts_activated hitem howned actual
  refine ⟨⟨fun scope => ?_, fun scope => ?_, fun scope => ?_, ?_⟩,
    fun requestId hgranted => absurd hgranted (by simp)⟩
  · exact (hcounts scope).1.trans (h.within.pending scope)
  · obtain ⟨-, hcount, -⟩ := hcounts scope
    have hbefore := h.within.sequences scope
    rw [hcount]
    split_ifs with hscope
    · exact (hgrant.room scope hscope).1
    · exact hbefore
  · obtain ⟨-, -, hcount⟩ := hcounts scope
    have hbefore := h.within.kvTokens scope
    rw [hcount]
    split_ifs with hscope
    · -- what is reserved is at most what was estimated
      have hkv := (hgrant.room scope hscope).2
      omega
    · exact hbefore
  · refine estimated_set h.within.estimated fun reserved hreserved => ?_
    obtain rfl := Option.some_inj.mp hreserved
    exact hle

theorem Kept.release {l : SharedLedger} (h : Kept limits l) (requestId : PyStr) :
    Kept limits
      { controller := l.controller.release requestId
        granted := if l.granted = some requestId then none else l.granted } := by
  have hcounts : ∀ scope : QuotaScope, _ := fun scope => l.controller.counts_pop scope requestId
  refine ⟨⟨fun scope => (hcounts scope).1.trans (h.within.pending scope),
    fun scope => (hcounts scope).2.1.trans (h.within.sequences scope),
    fun scope => (hcounts scope).2.2.trans (h.within.kvTokens scope), fun item hmem => ?_⟩,
    fun other hgranted => ?_⟩
  · obtain ⟨⟨id, value⟩, hitem, rfl⟩ := List.mem_map.mp hmem
    have hget := Dict.mem_items_iff.mp hitem
    unfold ResourceAdmissionController.release at hget
    rw [Dict.get?_pop] at hget
    split_ifs at hget
    exact h.within.estimated value
      (List.mem_map.mpr ⟨(id, value), Dict.mem_items_iff.mpr hget, rfl⟩)
  · dsimp only at hgranted
    split_ifs at hgranted with hsame
    · exact absurd hgranted (by simp)
    · obtain ⟨item, hitem, hgrant⟩ := h.granted other hgranted
      have hne : requestId ≠ other := by
        rintro rfl
        exact hsame hgranted
      refine ⟨item, ?_, hgrant.pending, fun scope hscope => ?_⟩
      · unfold ResourceAdmissionController.release
        rw [Dict.get?_pop, if_neg hne]
        exact hitem
      · obtain ⟨hlt, hle⟩ := hgrant.room scope hscope
        obtain ⟨-, hactive, hkv⟩ := hcounts scope
        constructor
        · exact hactive.trans_lt hlt
        · dsimp only
          omega

theorem admitEstimate_ok {c c' : ResourceAdmissionController} {s : SchedulingMetadata}
    {estimated : ℤ} (h : admitEstimate limits policy c s estimated = .ok c') :
    admitRequest limits policy c s estimated.toNat = .ok c' := by
  unfold admitEstimate at h
  split_ifs at h
  cases hresult : admitRequest limits policy c s estimated.toNat with
  | error rejection =>
    rw [hresult] at h
    exact nomatch h
  | ok found =>
    rw [hresult] at h
    exact congrArg Except.ok (Except.ok.inj h)

/-- Every call keeps the ledger. -/
theorem Kept.step {l : SharedLedger} (h : Kept limits l) {op : LedgerOp} (allowed : l.Allowed op) :
    Kept limits (l.step limits policy op).2 := by
  cases op with
  | admitRequest scheduling estimatedTokens =>
    unfold SharedLedger.step
    dsimp only
    cases hresult : admitEstimate limits policy l.controller scheduling estimatedTokens with
    | error exc => exact h
    | ok controller => exact h.admitted (admitEstimate_ok hresult)
  | canActivate requestId =>
    refine ⟨h.within, fun other hgranted => ?_⟩
    unfold SharedLedger.step at hgranted
    dsimp only at hgranted
    split_ifs at hgranted with hcan
    · obtain rfl := Option.some_inj.mp hgranted
      exact canActivate_ok hcan
    · exact absurd hgranted (by simp)
  | activate requestId reservedTokens =>
    unfold SharedLedger.step
    dsimp only
    cases hactivate : l.controller.activate requestId reservedTokens with
    | error exc => exact ⟨h.within, fun _ hgranted => absurd hgranted (by simp)⟩
    | ok controller => exact h.activate allowed hactivate
  | release requestId => exact h.release requestId

/-- A call that raises changes nothing in the ledger. -/
theorem step_raised {l : SharedLedger} {op : LedgerOp} {exc : PyException}
    (h : (l.step limits policy op).1 = .raised exc) :
    (l.step limits policy op).2.controller = l.controller := by
  unfold SharedLedger.step at h ⊢
  cases op with
  | admitRequest scheduling estimatedTokens =>
    dsimp only at h ⊢
    cases hresult : admitEstimate limits policy l.controller scheduling estimatedTokens with
    | error exc => rfl
    | ok controller =>
      rw [hresult] at h
      exact nomatch h
  | activate requestId reservedTokens =>
    dsimp only at h ⊢
    cases hactivate : l.controller.activate requestId reservedTokens with
    | error exc => rfl
    | ok controller =>
      rw [hactivate] at h
      exact nomatch h
  | canActivate requestId => exact nomatch h
  | release requestId => exact nomatch h

/-- **No limit is exceeded.**  In every ledger that clients and the scheduler reach, in any order of
their calls, the pending requests, the active sequences and the reserved tokens of the runtime, of
every workflow and of every agent are within their limits, no reservation exceeds its estimate, and a
call that is rejected leaves the ledger as it is. -/
theorem limits_hold (limits : AdmissionLimits) (policy : RuntimeSchedulingPolicy) {l : SharedLedger}
    (reached : Reached limits policy l) :
    l.controller.WithinLimits limits ∧
      ∀ op exc, (l.step limits policy op).1 = .raised exc →
        (l.step limits policy op).2.controller = l.controller := by
  have hkept : Kept limits l := by
    induction reached with
    | start => exact kept_start limits
    | next before op allowed ih => exact ih.step allowed
  exact ⟨hkept.within, fun op exc hraised => step_raised hraised⟩

/-- Limits of two pending requests and one sequence. -/
def smallLimits : AdmissionLimits := ⟨2, 1, 64, 2, 2, 1, 1, 64, 64, 2, 0⟩

def oneClass : RuntimeSchedulingPolicy := interactiveOnly

def oneRequest : SchedulingMetadata :=
  ⟨py "r", py "workflow", py "agent", py "interactive", 1, none,
    isBoundedText_py (by decide) (by decide) (by decide), Nat.one_pos, one_le_maxSchedulingWeight⟩

/-- A request is admitted, and activated when it can be. -/
theorem limits_hold_sample : ∃ l : SharedLedger, l.controller.activeIn .runtime = 1 ∧
    l.controller.WithinLimits smallLimits := by
  have hstart : Reached smallLimits oneClass {} := .start
  have hadmitted := hstart.next (.admitRequest oneRequest 16) trivial
  have hgranted := hadmitted.next (.canActivate (py "r")) trivial
  have hactive := hgranted.next (.activate (py "r") (some 12)) rfl
  exact ⟨_, rfl, (limits_hold smallLimits oneClass hactive).1⟩

end SharedLedger

end Inference
