/-
What one event can do to a run.

* `Applied` — the accepted events, one case for each branch of the reducer,
  with the facts the branch checked and the state it leaves;
* `applyEvent_ok` — `applyEvent` accepts exactly these;
* `Accepted` — the streams `replay` accepts, as runs of `Applied` from the state
  of their `run_created` (`replay_ok`), with the induction over them.
-/
import LlamaRuntime.Agent.Reducer

open Json

namespace Agent

variable {F : Type}

/-! ### Inversion of the small checks -/

theorem require_ok {condition : Prop} [Decidable condition] {message : PyStr} {u : Unit} :
    require condition message = .ok u ↔ condition := by
  unfold require
  split_ifs with h
  · exact ⟨fun _ => h, fun _ => rfl⟩
  · exact ⟨fun h => (nomatch h), fun hc => absurd hc h⟩

theorem requireStr_ok {value : Value F} {message s : PyStr} :
    requireStr value message = .ok s ↔ value = .str s := by
  cases value <;> simp [requireStr, Value.str?]

theorem payloadItems_ok {payload : Value F} {error : Builtin} {items : List (PyStr × Value F)} :
    payloadItems payload error = .ok items ↔ payload = .dict items := by
  cases payload <;> simp [payloadItems, Value.dict?]

theorem AgentRunLifecycle.ofValue_eq_some {text : PyStr} {l : AgentRunLifecycle} :
    ofValue text = some l ↔ text = l.value := by
  constructor
  · intro h
    have := List.find?_some h
    exact (of_decide_eq_true this).symm
  · rintro rfl
    exact ofValue_value l

theorem ToolInvocationLifecycle.ofValue_eq_some {text : PyStr} {l : ToolInvocationLifecycle} :
    ofValue text = some l ↔ text = l.value := by
  constructor
  · intro h
    have := List.find?_some h
    exact (of_decide_eq_true this).symm
  · rintro rfl
    exact ofValue_value l

theorem BudgetCategory.ofValue_eq_some {text : PyStr} {c : BudgetCategory} :
    ofValue text = some c ↔ text = c.value := by
  constructor
  · intro h
    have := List.find?_some h
    exact (of_decide_eq_true this).symm
  · rintro rfl
    exact ofValue_value c

/-- `payload["target"]`, as a member of an enumeration. -/
theorem target_eq_some {α : Type} {ofValue : PyStr → Option α} {value : α → PyStr}
    (hof : ∀ {text l}, ofValue text = some l ↔ text = value l) {items : List (PyStr × Value F)}
    {l : α} :
    ((Items.lookup (py "target") items).bind fun v => v.str?.bind ofValue) = some l ↔
      field items "target" = .str (value l) := by
  unfold field
  cases Items.lookup (py "target") items with
  | none => simp
  | some v => cases v <;> simp [Value.str?, hof]

/-! ### Accepted events -/

/-- The part of an H1 record that every kind of record checks. -/
structure RecordHeader (s : AgentRunState F) (items : List (PyStr × Value F))
    (recordId : PyStr) : Prop where
  version : field items "record_version" = .str (py "h1.v1")
  id : field items "record_id" = .str recordId
  fresh : s.h1Records.get? recordId = none
  id_ok : IsIdentifier recordId

/-- The state with one more H1 record. -/
def AgentRunState.record (s : AgentRunState F) (version : ℕ) (recordId : PyStr)
    (payload : Value F) : AgentRunState F :=
  { s with h1Records := s.h1Records.set recordId payload, version }

section Applied

variable [Host F]

/-- The event is accepted in state `s` as number `n` of the stream and leaves the last state. -/
inductive Applied (s : AgentRunState F) (n : ℕ) (e : AgentEvent F) : AgentRunState F → Prop
  | runTransition {items : List (PyStr × Value F)} {target : AgentRunLifecycle}
      (kind : e.eventKind = .runTransition) (payload : e.payload = .dict items)
      (target_eq : field items "target" = .str target.value)
      (allowed : target ∈ runTransitions s.lifecycle)
      (authority : target = .succeeded →
        field items "authority" = .str (py "acceptance_gate")) :
      Applied s n e { s with lifecycle := target, version := n }
  | toolProposed {items : List (PyStr × Value F)} {invocationId actionId digest : PyStr}
      (kind : e.eventKind = .toolProposed) (payload : e.payload = .dict items)
      (invocation_eq : field items "invocation_id" = .str invocationId)
      (action_eq : field items "action_id" = .str actionId)
      (digest_eq : field items "tool_catalog_digest" = .str digest)
      (waiting : s.lifecycle = .waitingTool)
      (invocation_ok : IsIdentifier invocationId) (action_ok : IsIdentifier actionId)
      (invocation_fresh : s.toolInvocations.get? invocationId = none)
      (action_fresh : actionId ∉ s.actionClaims) :
      Applied s n e
        { s with
          toolInvocations := s.toolInvocations.set invocationId .proposed
          actionClaims := s.actionClaims ++ [actionId]
          catalogDigests := s.catalogDigests.set actionId digest
          version := n }
  | toolTransition {items : List (PyStr × Value F)} {invocationId : PyStr}
      {current target : ToolInvocationLifecycle}
      (kind : e.eventKind = .toolTransition) (payload : e.payload = .dict items)
      (invocation_eq : field items "invocation_id" = .str invocationId)
      (current_eq : s.toolInvocations.get? invocationId = some current)
      (target_eq : field items "target" = .str target.value)
      (allowed : target ∈ toolTransitions current) :
      Applied s n e
        { s with toolInvocations := s.toolInvocations.set invocationId target, version := n }
  | budgetConsumed {items : List (PyStr × Value F)} {claimId : PyStr}
      {category : BudgetCategory} {amount : ℤ}
      (kind : e.eventKind = .budgetConsumed) (payload : e.payload = .dict items)
      (claim_eq : field items "claim_id" = .str claimId)
      (category_eq : field items "category" = .str category.value)
      (amount_eq : field items "amount" = .int amount)
      (claim_fresh : claimId ∉ s.budgetClaims) (claim_ok : IsIdentifier claimId)
      (amount_pos : 0 < amount) (enough : amount ≤ s.budgets.amount category)
      (terminal : (field items "terminalize").truthy = true → s.lifecycle ∉ runTerminal) :
      Applied s n e
        { s with
          budgets := s.budgets.set category (s.budgets.amount category - amount)
          budgetClaims := s.budgetClaims ++ [claimId]
          lifecycle :=
            if (field items "terminalize").truthy then .budgetExhausted else s.lifecycle
          version := n }
  | plainRecord {items : List (PyStr × Value F)} {recordId : PyStr}
      (kind : e.eventKind = .decisionRecorded ∨ e.eventKind = .inferenceCompleted ∨
        e.eventKind = .flowDecided)
      (payload : e.payload = .dict items) (header : RecordHeader s items recordId) :
      Applied s n e (s.record n recordId e.payload)
  | invocationRecord {items : List (PyStr × Value F)} {recordId invocationId : PyStr}
      (kind : e.eventKind = .argumentsCompiled ∨ e.eventKind = .authorizationRecorded)
      (payload : e.payload = .dict items) (header : RecordHeader s items recordId)
      (invocation_eq : field items "invocation_id" = .str invocationId)
      (proposed : invocationId ∈ s.toolInvocations.keys) :
      Applied s n e (s.record n recordId e.payload)
  | dispatchStarted {items : List (PyStr × Value F)} {recordId invocationId : PyStr}
      (kind : e.eventKind = .dispatchStarted)
      (payload : e.payload = .dict items) (header : RecordHeader s items recordId)
      (invocation_eq : field items "invocation_id" = .str invocationId)
      (authorized : s.toolInvocations.get? invocationId = some .authorized)
      (fresh : invocationId ∉ s.dispatchedInvocations) :
      Applied s n e
        ({ s with dispatchedInvocations := s.dispatchedInvocations ++ [invocationId] }.record n
          recordId e.payload)
  | resultRecorded {items : List (PyStr × Value F)} {recordId invocationId : PyStr}
      (kind : e.eventKind = .resultRecorded)
      (payload : e.payload = .dict items) (header : RecordHeader s items recordId)
      (invocation_eq : field items "invocation_id" = .str invocationId)
      (proposed : invocationId ∈ s.toolInvocations.keys)
      (dispatched : invocationId ∈ s.dispatchedInvocations)
      (fresh : invocationId ∉ s.terminalResults) :
      Applied s n e
        ({ s with terminalResults := s.terminalResults ++ [invocationId] }.record n recordId
          e.payload)
  | acceptanceDecided {items : List (PyStr × Value F)} {recordId : PyStr} {accepted : Bool}
      (kind : e.eventKind = .acceptanceDecided)
      (payload : e.payload = .dict items) (header : RecordHeader s items recordId)
      (accepted_eq : field items "accepted" = .bool accepted)
      (authority : field items "authority" = .str (py "acceptance_gate")) :
      Applied s n e
        ({ s with acceptanceVerdict := some accepted }.record n recordId e.payload)

variable {s s' : AgentRunState F} {n : ℕ} {e : AgentEvent F}

/-! ### The branches accept these events only -/

theorem applied_runTransition (kind : e.eventKind = .runTransition)
    (h : applyRunTransition s n e.payload = .ok s') : Applied s n e s' := by
  obtain ⟨items, hitems, h⟩ := bind_ok.mp h
  split at h
  · exact absurd h (by simp)
  · next target htarget =>
    obtain ⟨_, hallowed, h⟩ := bind_ok.mp h
    obtain ⟨_, hauth, h⟩ := bind_ok.mp h
    obtain rfl := Except.ok.inj h
    refine .runTransition kind (payloadItems_ok.mp hitems)
      ((target_eq_some AgentRunLifecycle.ofValue_eq_some).mp htarget)
      (require_ok.mp hallowed) fun ht => ?_
    simpa using require_ok.mp hauth ht

theorem applied_toolProposed (kind : e.eventKind = .toolProposed)
    (h : applyToolProposed s n e.payload = .ok s') : Applied s n e s' := by
  obtain ⟨items, hitems, h⟩ := bind_ok.mp h
  obtain ⟨invocationId, hinv, h⟩ := bind_ok.mp h
  obtain ⟨actionId, hact, h⟩ := bind_ok.mp h
  obtain ⟨digest, hdig, h⟩ := bind_ok.mp h
  obtain ⟨_, hwait, h⟩ := bind_ok.mp h
  obtain ⟨_, hinvOk, h⟩ := bind_ok.mp h
  obtain ⟨_, hactOk, h⟩ := bind_ok.mp h
  obtain ⟨_, hfresh, h⟩ := bind_ok.mp h
  obtain rfl := Except.ok.inj h
  obtain ⟨hfreshInv, hfreshAct⟩ := require_ok.mp hfresh
  exact .toolProposed kind (payloadItems_ok.mp hitems) (requireStr_ok.mp hinv)
    (requireStr_ok.mp hact) (requireStr_ok.mp hdig) (require_ok.mp hwait)
    (validateIdentifier_ok.mp hinvOk) (validateIdentifier_ok.mp hactOk) hfreshInv hfreshAct

theorem applied_toolTransition (kind : e.eventKind = .toolTransition)
    (h : applyToolTransition s n e.payload = .ok s') : Applied s n e s' := by
  obtain ⟨items, hitems, h⟩ := bind_ok.mp h
  obtain ⟨invocationId, hinv, h⟩ := bind_ok.mp h
  split at h
  · next current target hcurrent htarget =>
    obtain ⟨_, hallowed, h⟩ := bind_ok.mp h
    obtain rfl := Except.ok.inj h
    exact .toolTransition kind (payloadItems_ok.mp hitems) (requireStr_ok.mp hinv) hcurrent
      ((target_eq_some ToolInvocationLifecycle.ofValue_eq_some).mp htarget)
      (require_ok.mp hallowed)
  · exact absurd h (by simp)

omit [Host F] in
theorem int_of_pos {v : Value F} (h : 0 < v.int?.getD 0) : v = .int (v.int?.getD 0) := by
  cases v <;> simp [Value.int?] at h ⊢

theorem applied_budgetConsumed (kind : e.eventKind = .budgetConsumed)
    (h : applyBudgetConsumed s n e.payload = .ok s') : Applied s n e s' := by
  obtain ⟨items, hitems, h⟩ := bind_ok.mp h
  obtain ⟨claimId, hclaim, h⟩ := bind_ok.mp h
  obtain ⟨category, hcategory, h⟩ := bind_ok.mp h
  obtain ⟨_, hfresh, h⟩ := bind_ok.mp h
  obtain ⟨_, hclaimOk, h⟩ := bind_ok.mp h
  obtain ⟨_, hamount, h⟩ := bind_ok.mp h
  split at h
  · exact absurd h (by simp)
  · next c hc =>
    obtain ⟨_, henough, h⟩ := bind_ok.mp h
    obtain ⟨_, hterminal, h⟩ := bind_ok.mp h
    obtain rfl := Except.ok.inj h
    obtain rfl := BudgetCategory.ofValue_eq_some.mp hc
    have hpos := (require_ok.mp hamount).2
    exact .budgetConsumed kind (payloadItems_ok.mp hitems) (requireStr_ok.mp hclaim)
      (requireStr_ok.mp hcategory) (int_of_pos hpos) (require_ok.mp hfresh).1
      (validateIdentifier_ok.mp hclaimOk) hpos (require_ok.mp henough)
      (require_ok.mp hterminal)

omit [Host F] in
theorem applyRecord_ok {k : EventKind} {payload : Value F} (h : applyRecord s n k payload = .ok s') :
    ∃ items recordId s₁, payload = .dict items ∧ RecordHeader s items recordId ∧
      (k.namesInvocation = true →
        ∃ id, field items "invocation_id" = .str id ∧ id ∈ s.toolInvocations.keys) ∧
      applyRecordKind s k items = .ok s₁ ∧ s' = s₁.record n recordId payload := by
  obtain ⟨items, hitems, h⟩ := bind_ok.mp h
  obtain ⟨_, hversion, h⟩ := bind_ok.mp h
  obtain ⟨recordId, hrecord, h⟩ := bind_ok.mp h
  obtain ⟨_, hfresh, h⟩ := bind_ok.mp h
  obtain ⟨_, hrecordOk, h⟩ := bind_ok.mp h
  obtain ⟨_, hnames, h⟩ := bind_ok.mp h
  obtain ⟨s₁, hkind, h⟩ := bind_ok.mp h
  refine ⟨items, recordId, s₁, payloadItems_ok.mp hitems, ?_, fun hn => ?_, hkind,
    (Except.ok.inj h).symm⟩
  · exact ⟨by simpa using require_ok.mp hversion, requireStr_ok.mp hrecord,
      require_ok.mp hfresh, validateIdentifier_ok.mp hrecordOk⟩
  · obtain ⟨id, hid, hmem⟩ := require_ok.mp hnames hn
    exact ⟨id, by simpa using hid, hmem⟩

theorem applied_record {k : EventKind} (kind : e.eventKind = k)
    (hk : k ≠ .runCreated ∧ k ≠ .runTransition ∧ k ≠ .toolProposed ∧ k ≠ .toolTransition ∧
      k ≠ .budgetConsumed) (h : applyRecord s n k e.payload = .ok s') : Applied s n e s' := by
  obtain ⟨items, recordId, s₁, hitems, header, hnames, hkind, rfl⟩ := applyRecord_ok h
  cases k with
  | runCreated | runTransition | toolProposed | toolTransition | budgetConsumed => simp at hk
  | decisionRecorded =>
    obtain rfl := Except.ok.inj hkind
    exact .plainRecord (.inl kind) hitems header
  | inferenceCompleted =>
    obtain rfl := Except.ok.inj hkind
    exact .plainRecord (.inr (.inl kind)) hitems header
  | flowDecided =>
    obtain rfl := Except.ok.inj hkind
    exact .plainRecord (.inr (.inr kind)) hitems header
  | argumentsCompiled =>
    obtain rfl := Except.ok.inj hkind
    obtain ⟨id, hid, hmem⟩ := hnames rfl
    exact .invocationRecord (.inl kind) hitems header hid hmem
  | authorizationRecorded =>
    obtain rfl := Except.ok.inj hkind
    obtain ⟨id, hid, hmem⟩ := hnames rfl
    exact .invocationRecord (.inr kind) hitems header hid hmem
  | dispatchStarted =>
    obtain ⟨id, hid, -⟩ := hnames rfl
    obtain ⟨_, hauth, hkind⟩ := bind_ok.mp hkind
    obtain ⟨_, hfresh, hkind⟩ := bind_ok.mp hkind
    obtain rfl := Except.ok.inj hkind
    simp only [hid, Value.str?, Option.getD_some] at hauth hfresh ⊢
    exact .dispatchStarted kind hitems header hid (require_ok.mp hauth) (require_ok.mp hfresh)
  | resultRecorded =>
    obtain ⟨id, hid, hmem⟩ := hnames rfl
    obtain ⟨_, hdisp, hkind⟩ := bind_ok.mp hkind
    obtain ⟨_, hfresh, hkind⟩ := bind_ok.mp hkind
    obtain rfl := Except.ok.inj hkind
    simp only [hid, Value.str?, Option.getD_some] at hdisp hfresh ⊢
    exact .resultRecorded kind hitems header hid hmem (require_ok.mp hdisp)
      (require_ok.mp hfresh)
  | acceptanceDecided =>
    obtain ⟨_, hacc, hkind⟩ := bind_ok.mp hkind
    obtain rfl := Except.ok.inj hkind
    obtain ⟨hbool, hauth⟩ := require_ok.mp hacc
    obtain ⟨b, hb⟩ := Option.isSome_iff_exists.mp hbool
    have hval : field items "accepted" = .bool b := by
      cases hf : field items "accepted" <;> simp [hf, Value.bool?] at hb
      rw [hb]
    rw [hb]
    exact .acceptanceDecided kind hitems header hval (by simpa using hauth)

theorem applied_of_applyEvent (h : applyEvent s n e = .ok s') : Applied s n e s' := by
  unfold applyEvent at h
  cases kind : e.eventKind with
  | runCreated => simp [kind] at h
  | runTransition => exact applied_runTransition kind (by simpa only [kind] using h)
  | toolProposed => exact applied_toolProposed kind (by simpa only [kind] using h)
  | toolTransition => exact applied_toolTransition kind (by simpa only [kind] using h)
  | budgetConsumed => exact applied_budgetConsumed kind (by simpa only [kind] using h)
  | decisionRecorded | inferenceCompleted | argumentsCompiled | authorizationRecorded
  | dispatchStarted | resultRecorded | flowDecided | acceptanceDecided =>
    exact applied_record kind (by simp) (by simpa only [kind] using h)

/-! ### The branches accept all of these events -/

omit [Host F] in
theorem applyRecord_of_header {k : EventKind} {items : List (PyStr × Value F)} {recordId : PyStr}
    (header : RecordHeader s items recordId)
    (hnames : k.namesInvocation = true →
      ∃ id, field items "invocation_id" = .str id ∧ id ∈ s.toolInvocations.keys)
    {s₁ : AgentRunState F} (hkind : applyRecordKind s k items = .ok s₁) :
    applyRecord s n k (.dict items) = .ok (s₁.record n recordId (.dict items)) := by
  refine bind_ok.mpr ⟨items, payloadItems_ok.mpr rfl, ?_⟩
  refine bind_ok.mpr ⟨(), require_ok.mpr (by simpa using header.version), ?_⟩
  refine bind_ok.mpr ⟨recordId, requireStr_ok.mpr header.id, ?_⟩
  refine bind_ok.mpr ⟨(), require_ok.mpr header.fresh, ?_⟩
  refine bind_ok.mpr ⟨(), validateIdentifier_ok.mpr header.id_ok, ?_⟩
  refine bind_ok.mpr ⟨(), require_ok.mpr fun hn => ?_, ?_⟩
  · obtain ⟨id, hid, hmem⟩ := hnames hn
    exact ⟨id, by simpa using hid, hmem⟩
  · exact bind_ok.mpr ⟨s₁, hkind, rfl⟩

theorem Applied.applyEvent (h : Applied s n e s') : applyEvent s n e = .ok s' := by
  unfold Agent.applyEvent
  cases h with
  | @runTransition items target kind payload target_eq allowed authority =>
    simp only [kind]
    refine bind_ok.mpr ⟨items, payloadItems_ok.mpr payload, ?_⟩
    rw [(target_eq_some AgentRunLifecycle.ofValue_eq_some).mpr target_eq]
    refine bind_ok.mpr ⟨(), require_ok.mpr allowed, bind_ok.mpr ⟨(), require_ok.mpr ?_, rfl⟩⟩
    exact fun ht => by simpa using authority ht
  | @toolProposed items inv act dig kind payload hi ha hd waiting iok aok ifresh afresh =>
    simp only [kind]
    refine bind_ok.mpr ⟨items, payloadItems_ok.mpr payload, ?_⟩
    refine bind_ok.mpr ⟨inv, requireStr_ok.mpr hi, ?_⟩
    refine bind_ok.mpr ⟨act, requireStr_ok.mpr ha, ?_⟩
    refine bind_ok.mpr ⟨dig, requireStr_ok.mpr hd, ?_⟩
    refine bind_ok.mpr ⟨(), require_ok.mpr waiting, ?_⟩
    refine bind_ok.mpr ⟨(), validateIdentifier_ok.mpr iok, ?_⟩
    refine bind_ok.mpr ⟨(), validateIdentifier_ok.mpr aok, ?_⟩
    exact bind_ok.mpr ⟨(), require_ok.mpr ⟨ifresh, afresh⟩, rfl⟩
  | @toolTransition items inv current target kind payload hi hcurrent htarget allowed =>
    simp only [kind]
    refine bind_ok.mpr ⟨items, payloadItems_ok.mpr payload, ?_⟩
    refine bind_ok.mpr ⟨inv, requireStr_ok.mpr hi, ?_⟩
    rw [hcurrent, (target_eq_some ToolInvocationLifecycle.ofValue_eq_some).mpr htarget]
    exact bind_ok.mpr ⟨(), require_ok.mpr allowed, rfl⟩
  | @budgetConsumed items claim category amount kind payload hclaim hcategory hamount fresh ok pos
      enough terminal =>
    have hattr : hasAttribute category.value := .inl (by rw [BudgetCategory.ofValue_value]; rfl)
    have hdeadline : category.value ≠ deadlineField := by cases category <;> decide
    simp only [kind]
    refine bind_ok.mpr ⟨items, payloadItems_ok.mpr payload, ?_⟩
    refine bind_ok.mpr ⟨claim, requireStr_ok.mpr hclaim, ?_⟩
    refine bind_ok.mpr ⟨category.value, requireStr_ok.mpr hcategory, ?_⟩
    refine bind_ok.mpr ⟨(), require_ok.mpr ⟨fresh, hattr⟩, ?_⟩
    refine bind_ok.mpr ⟨(), validateIdentifier_ok.mpr ok, ?_⟩
    simp only [hamount, Value.int?, Option.getD_some]
    refine bind_ok.mpr ⟨(), require_ok.mpr ⟨hdeadline, pos⟩, ?_⟩
    rw [BudgetCategory.ofValue_value]
    refine bind_ok.mpr ⟨(), require_ok.mpr enough, ?_⟩
    exact bind_ok.mpr ⟨(), require_ok.mpr terminal, rfl⟩
  | plainRecord kind payload header =>
    rcases kind with kind | kind | kind <;>
      (simp only [kind, payload]
       exact applyRecord_of_header header (by simp [EventKind.namesInvocation]) rfl)
  | invocationRecord kind payload header hinv hmem =>
    rcases kind with kind | kind <;>
      (simp only [kind, payload]
       exact applyRecord_of_header header (fun _ => ⟨_, hinv, hmem⟩) rfl)
  | dispatchStarted kind payload header hinv authorized fresh =>
    simp only [kind, payload]
    refine applyRecord_of_header header
      (fun _ => ⟨_, hinv, Dict.mem_keys_iff.mpr ⟨_, authorized⟩⟩) ?_
    simp only [applyRecordKind, hinv, Value.str?, Option.getD_some]
    exact bind_ok.mpr ⟨(), require_ok.mpr authorized, bind_ok.mpr ⟨(), require_ok.mpr fresh, rfl⟩⟩
  | resultRecorded kind payload header hinv hmem dispatched fresh =>
    simp only [kind, payload]
    refine applyRecord_of_header header (fun _ => ⟨_, hinv, hmem⟩) ?_
    simp only [applyRecordKind, hinv, Value.str?, Option.getD_some]
    exact bind_ok.mpr ⟨(), require_ok.mpr dispatched, bind_ok.mpr ⟨(), require_ok.mpr fresh, rfl⟩⟩
  | acceptanceDecided kind payload header haccepted authority =>
    simp only [kind, payload]
    refine applyRecord_of_header header (by simp [EventKind.namesInvocation]) ?_
    simp only [applyRecordKind, haccepted, authority, Value.str?, Value.bool?]
    exact bind_ok.mpr ⟨(), require_ok.mpr (by simp), rfl⟩

/-- **The branches accept exactly the events of `Applied`.** -/
theorem applyEvent_ok : applyEvent s n e = .ok s' ↔ Applied s n e s' :=
  ⟨applied_of_applyEvent, Applied.applyEvent⟩

/-! ### Streams -/

variable {runId : PyStr} {events : List (AgentEvent F)}

theorem replayFrom_append (pre post : List (AgentEvent F)) : ∀ (s : AgentRunState F) (n : ℕ),
    replayFrom s n (pre ++ post)
      = (replayFrom s n pre).bind fun s => replayFrom s (n + pre.length) post := by
  induction pre with
  | nil =>
    intro s n
    simp [replayFrom, Except.bind]
  | cons e pre ih =>
    intro s n
    rw [List.cons_append, replayFrom, replayFrom]
    split_ifs with hseq
    · rfl
    · cases applyEvent s n e with
      | error x => rfl
      | ok s₁ =>
        have hlen : n + (e :: pre).length = n + 1 + pre.length := by
          rw [List.length_cons]
          omega
        simp only [Except.bind, ih, hlen]

/-- What `replay` checks of the first event. -/
structure Created (runId : PyStr) (e : AgentEvent F) (s : AgentRunState F) : Prop where
  id_ok : IsIdentifier runId
  kind : e.eventKind = .runCreated
  sequence : e.sequence = some 1
  state : applyRunCreated runId 1 e.payload = .ok s

theorem replay_cons {e : AgentEvent F} {rest : List (AgentEvent F)} :
    replay runId (e :: rest) = .ok s' ↔ ∃ s, Created runId e s ∧ replayFrom s 2 rest = .ok s' := by
  have hbind : replay runId (e :: rest) = .ok s' ↔
      ∃ u, validateIdentifier runId "run_id" = .ok u ∧
        (if e.eventKind ≠ .runCreated then
          .error (illegalStream (py "stream must begin with run_created"))
        else if e.sequence ≠ some 1 then
          .error (illegalStream (py "event sequence is not contiguous"))
        else (applyRunCreated runId 1 e.payload).bind fun state => replayFrom state 2 rest)
          = .ok s' := bind_ok
  rw [hbind]
  constructor
  · rintro ⟨_, hid, h⟩
    split_ifs at h with hkind hseq
    obtain ⟨s, hs, h⟩ := bind_ok.mp h
    exact ⟨s, ⟨validateIdentifier_ok.mp hid, not_not.mp hkind, not_not.mp hseq, hs⟩, h⟩
  · rintro ⟨s, hc, h⟩
    refine ⟨(), validateIdentifier_ok.mpr hc.id_ok, ?_⟩
    rw [if_neg (not_not.mpr hc.kind), if_neg (not_not.mpr hc.sequence)]
    exact bind_ok.mpr ⟨s, hc.state, h⟩

theorem replay_ne_nil (h : replay runId events = .ok s) : events ≠ [] := by
  rintro rfl
  obtain ⟨_, _, h⟩ := bind_ok.mp h
  exact absurd h (by simp)

/-- A stream is accepted from its front. -/
theorem replay_append {pre post : List (AgentEvent F)} (hne : pre ≠ []) :
    replay runId (pre ++ post) = .ok s' ↔
      ∃ s, replay runId pre = .ok s ∧ replayFrom s (pre.length + 1) post = .ok s' := by
  obtain ⟨e, pre, rfl⟩ := List.exists_cons_of_ne_nil hne
  have hlen : (e :: pre).length + 1 = 2 + pre.length := by
    rw [List.length_cons]
    omega
  simp only [List.cons_append, replay_cons, replayFrom_append, hlen]
  constructor
  · rintro ⟨s₀, hc, h⟩
    obtain ⟨s, hs, h⟩ := bind_ok.mp h
    exact ⟨s, ⟨s₀, hc, hs⟩, h⟩
  · rintro ⟨s, ⟨s₀, hc, hs⟩, h⟩
    exact ⟨s₀, hc, bind_ok.mpr ⟨s, hs, h⟩⟩

theorem replayFrom_cons {rest : List (AgentEvent F)} :
    replayFrom s n (e :: rest) = .ok s' ↔
      ∃ s₁, e.sequence = some n ∧ Applied s n e s₁ ∧ replayFrom s₁ (n + 1) rest = .ok s' := by
  rw [replayFrom]
  split_ifs with hseq
  · simp [hseq]
  · constructor
    · intro h
      obtain ⟨s₁, hs₁, h⟩ := bind_ok.mp h
      exact ⟨s₁, not_not.mp hseq, applyEvent_ok.mp hs₁, h⟩
    · rintro ⟨s₁, -, hs₁, h⟩
      exact bind_ok.mpr ⟨s₁, applyEvent_ok.mpr hs₁, h⟩

/-- A stream with one more event is accepted where that event is applied to the
state of the stream before it. -/
theorem replay_concat (hne : events ≠ []) :
    replay runId (events ++ [e]) = .ok s' ↔
      ∃ s, replay runId events = .ok s ∧ e.sequence = some (events.length + 1) ∧
        Applied s (events.length + 1) e s' := by
  rw [replay_append hne]
  constructor
  · rintro ⟨s, hs, h⟩
    obtain ⟨s₁, hseq, happ, h⟩ := replayFrom_cons.mp h
    obtain rfl := Except.ok.inj h
    exact ⟨s, hs, hseq, happ⟩
  · rintro ⟨s, hs, hseq, happ⟩
    exact ⟨s, hs, replayFrom_cons.mpr ⟨s', hseq, happ, rfl⟩⟩

/-- **Induction over accepted streams**: what holds after `run_created` and is
kept by every accepted event holds of every accepted stream. -/
theorem replay_induction {P : List (AgentEvent F) → AgentRunState F → Prop}
    (created : ∀ e s, Created runId e s → P [e] s)
    (step : ∀ events s e s', replay runId events = .ok s → P events s →
      e.sequence = some (events.length + 1) → Applied s (events.length + 1) e s' →
      P (events ++ [e]) s')
    (h : replay runId events = .ok s) : P events s := by
  induction events using List.reverseRecOn generalizing s with
  | nil => exact absurd rfl (replay_ne_nil h)
  | append_singleton events e ih =>
    by_cases hne : events = []
    · subst hne
      obtain ⟨s₀, hc, h⟩ := replay_cons.mp h
      obtain rfl := Except.ok.inj h
      exact created e _ hc
    · obtain ⟨s₁, hs₁, hseq, happ⟩ := (replay_concat hne).mp h
      exact step events s₁ e s hs₁ (ih hs₁) hseq happ

/-- **Every non-empty front part of an accepted stream is accepted.** -/
theorem replay_prefix {pre post : List (AgentEvent F)} (hne : pre ≠ [])
    (h : replay runId (pre ++ post) = .ok s') : ∃ s, replay runId pre = .ok s :=
  let ⟨s, hs, _⟩ := (replay_append hne).mp h
  ⟨s, hs⟩

theorem Applied.version (h : Applied s n e s') : s'.version = n := by
  cases h <;> rfl

theorem Applied.runId_eq (h : Applied s n e s') : s'.runId = s.runId := by
  cases h <;> rfl

omit [Host F] in
theorem applyRunCreated_ok {version : ℕ} {payload : Value F}
    (h : applyRunCreated runId version payload = .ok s) :
    ∃ raw, rawBudgets payload = some raw ∧ (∀ c, (rawAmount raw c).isSome = true) ∧
      s = { runId, lifecycle := .ready, version
            budgets := ⟨fun c => (rawAmount raw c).getD 0,
              (Items.lookup deadlineField raw).getD .null⟩
            toolInvocations := ∅, actionClaims := [], budgetClaims := [], catalogDigests := ∅
            h1Records := ∅, dispatchedInvocations := [], terminalResults := []
            acceptanceVerdict := none } := by
  unfold applyRunCreated at h
  split at h
  · exact absurd h (by simp)
  · next raw hraw =>
    obtain ⟨_, hall, h⟩ := bind_ok.mp h
    have hall := List.all_eq_true.mp (require_ok.mp hall)
    exact ⟨raw, hraw, fun c => hall c (BudgetCategory.mem_members c), (Except.ok.inj h).symm⟩

/-- The version of a run is the length of its stream. -/
theorem replay_version (h : replay runId events = .ok s) : s.version = events.length := by
  refine replay_induction (P := fun events s => s.version = events.length) ?_ ?_ h
  · intro e s hc
    obtain ⟨raw, -, -, rfl⟩ := applyRunCreated_ok hc.state
    rfl
  · intro events s e s' _ _ _ happ
    simpa using happ.version

theorem replay_runId (h : replay runId events = .ok s) : s.runId = runId := by
  refine replay_induction (P := fun _ s => s.runId = runId) ?_ ?_ h
  · intro e s hc
    obtain ⟨raw, -, -, rfl⟩ := applyRunCreated_ok hc.state
    rfl
  · intro events s e s' _ ih _ happ
    rw [happ.runId_eq, ih]

end Applied

end Agent
