/-
Budget conservation in accepted streams.

* `createdAmount`, `consumed` — what a stream gives to a category and takes
  from it, read off the payloads;
* `budgets_conserved` — in every stream that `replay` accepts the remaining
  amount is the difference and is never negative, every claim is counted once,
  and a consumption that terminalizes finds the run not terminal.
-/
import LlamaRuntime.Agent.ReducerSteps

open Json

namespace Agent

variable {F : Type} [Host F]

/-! ### Reading a stream -/

/-- A field of the payload of an event. -/
def AgentEvent.field (e : AgentEvent F) (key : String) : Value F :=
  Agent.field (e.payload.dict?.getD []) key

theorem AgentEvent.field_eq {e : AgentEvent F} {items : List (PyStr × Value F)}
    (h : e.payload = .dict items) (key : String) : e.field key = Agent.field items key := by
  rw [AgentEvent.field, h]
  rfl

/-- The amount that `run_created` gives to a category. -/
def createdAmount (events : List (AgentEvent F)) (category : BudgetCategory) : ℤ :=
  ((events.head?.bind fun e => rawBudgets e.payload).bind fun raw =>
    rawAmount raw category).getD 0

def AgentEvent.consumes (e : AgentEvent F) : Bool := e.eventKind = .budgetConsumed

/-- The amount that an event takes from a category. -/
def consumedAmount (category : BudgetCategory) (e : AgentEvent F) : ℤ :=
  if e.consumes = true ∧ (e.field "category").str? = some category.value then
    (e.field "amount").int?.getD 0
  else 0

def consumed (events : List (AgentEvent F)) (category : BudgetCategory) : ℤ :=
  (events.map (consumedAmount category)).sum

/-- The claims of the budget events of a stream, in their order. -/
def claims (events : List (AgentEvent F)) : List (Option PyStr) :=
  (events.filter AgentEvent.consumes).map fun e => (e.field "claim_id").str?

theorem consumed_append (events : List (AgentEvent F)) (e : AgentEvent F)
    (category : BudgetCategory) :
    consumed (events ++ [e]) category = consumed events category + consumedAmount category e := by
  simp [consumed]

theorem createdAmount_append {events : List (AgentEvent F)} (hne : events ≠ []) (e : AgentEvent F)
    (category : BudgetCategory) :
    createdAmount (events ++ [e]) category = createdAmount events category := by
  obtain ⟨first, rest, rfl⟩ := List.exists_cons_of_ne_nil hne
  rfl

theorem claims_append (events : List (AgentEvent F)) (e : AgentEvent F) :
    claims (events ++ [e])
      = claims events ++ if e.consumes then [(e.field "claim_id").str?] else [] := by
  rw [claims, List.filter_append, List.map_append]
  cases he : e.consumes <;> simp [claims, he]

/-! ### One event -/

/-- What the reducer knows about budgets is what the stream says. -/
structure BudgetsAgree (events : List (AgentEvent F)) (s : AgentRunState F) : Prop where
  amount : ∀ c, s.budgets.amount c = createdAmount events c - consumed events c
  nonneg : ∀ c, 0 ≤ s.budgets.amount c
  claims_eq : claims events = s.budgetClaims.map some
  nodup : s.budgetClaims.Nodup

variable {runId : PyStr} {events : List (AgentEvent F)} {s s' : AgentRunState F}
  {e : AgentEvent F} {n : ℕ}

theorem budgetsAgree_created (hc : Created runId e s) : BudgetsAgree [e] s := by
  obtain ⟨raw, hraw, hall, rfl⟩ := applyRunCreated_ok hc.state
  have hcons : e.consumes = false := by simp [AgentEvent.consumes, hc.kind]
  refine ⟨fun c => ?_, fun c => ?_, by simp [claims, hcons], List.nodup_nil⟩
  · simp [createdAmount, hraw, consumed, consumedAmount, hcons]
  · obtain ⟨a, ha⟩ := Option.isSome_iff_exists.mp (hall c)
    have hpos : 0 ≤ a := of_decide_eq_true (Option.filter_eq_some_iff.mp ha).2
    simpa [ha] using hpos

/-- Only consumption events touch the budgets and the claims. -/
theorem Applied.budgets_unchanged (h : Applied s n e s') (hkind : e.consumes = false) :
    s'.budgets = s.budgets ∧ s'.budgetClaims = s.budgetClaims := by
  cases h with
  | budgetConsumed kind => simp [AgentEvent.consumes, kind] at hkind
  | _ => exact ⟨rfl, rfl⟩

/-- **One event keeps the agreement.** -/
theorem budgetsAgree_step (hne : events ≠ []) (ih : BudgetsAgree events s)
    (happ : Applied s n e s') : BudgetsAgree (events ++ [e]) s' := by
  cases hcons : e.consumes with
  | false =>
    obtain ⟨hb, hc⟩ := happ.budgets_unchanged hcons
    have hzero (c : BudgetCategory) : consumedAmount c e = 0 := by simp [consumedAmount, hcons]
    refine ⟨fun c => ?_, fun c => hb ▸ ih.nonneg c, ?_, hc ▸ ih.nodup⟩
    · rw [hb, ih.amount c, createdAmount_append hne, consumed_append, hzero, add_zero]
    · rw [claims_append, hcons, hc]
      simpa using ih.claims_eq
  | true =>
    have hkind : e.eventKind = .budgetConsumed := by simpa [AgentEvent.consumes] using hcons
    cases happ with
    | plainRecord kind | invocationRecord kind => simp [hkind] at kind
    | runTransition kind | toolProposed kind | toolTransition kind | dispatchStarted kind
    | resultRecorded kind | acceptanceDecided kind => simp [hkind] at kind
    | @budgetConsumed items claimId category amount kind payload claim_eq category_eq amount_eq
        claim_fresh claim_ok amount_pos enough terminal =>
      have hfield := fun key => AgentEvent.field_eq payload key
      have hamount (c : BudgetCategory) :
          consumedAmount c e = if c = category then amount else 0 := by
        have hinj : category.value = c.value ↔ c = category := by
          constructor
          · intro h
            exact Option.some_inj.mp
              ((BudgetCategory.ofValue_value c).symm.trans
                (h ▸ BudgetCategory.ofValue_value category))
          · rintro rfl
            rfl
        simp [consumedAmount, hcons, hfield, category_eq, amount_eq, Value.str?, Value.int?, hinj]
      refine ⟨fun c => ?_, fun c => ?_, ?_, ?_⟩
      · have := ih.amount c
        rw [createdAmount_append hne, consumed_append, hamount]
        simp only [BudgetState.set]
        split_ifs with hc
        · subst hc
          omega
        · omega
      · have := ih.nonneg c
        simp only [BudgetState.set]
        split_ifs with hc
        · omega
        · exact this
      · rw [claims_append, hcons, if_pos rfl, ih.claims_eq, List.map_append, hfield, claim_eq]
        rfl
      · exact List.nodup_append.mpr ⟨ih.nodup, List.nodup_singleton _,
          fun a ha b hb hab => claim_fresh (List.mem_singleton.mp hb ▸ hab ▸ ha)⟩

/-- The agreement holds of every accepted stream. -/
theorem budgetsAgree (h : replay runId events = .ok s) : BudgetsAgree events s :=
  replay_induction (P := BudgetsAgree) (fun _ _ => budgetsAgree_created)
    (fun _ _ _ _ hs ih _ happ => budgetsAgree_step (replay_ne_nil hs) ih happ) h

/-! ### The law -/

/-- **Budgets are conserved** in every stream that `replay` accepts. -/
theorem budgets_conserved (h : replay runId events = .ok s) :
    (∀ c, s.budgets.amount c = createdAmount events c - consumed events c ∧
      0 ≤ s.budgets.amount c) ∧
    claims events = s.budgetClaims.map some ∧ (claims events).Nodup ∧
    ∀ pre e post, events = pre ++ e :: post → e.eventKind = .budgetConsumed →
      (e.field "terminalize").truthy = true →
        ∃ s₀, replay runId pre = .ok s₀ ∧ s₀.lifecycle ∉ runTerminal := by
  have hagree := budgetsAgree h
  refine ⟨fun c => ⟨hagree.amount c, hagree.nonneg c⟩, hagree.claims_eq, ?_, ?_⟩
  · rw [hagree.claims_eq]
    exact hagree.nodup.map (Option.some_injective _)
  · rintro pre e post rfl hkind hterm
    have hne : pre ≠ [] := by
      rintro rfl
      obtain ⟨s₀, hc, -⟩ := replay_cons.mp h
      exact absurd hc.kind (by simp [hkind])
    obtain ⟨s₀, hs₀, hrest⟩ := (replay_append hne).mp h
    obtain ⟨s₁, -, happ, -⟩ := replayFrom_cons.mp hrest
    refine ⟨s₀, hs₀, ?_⟩
    cases happ with
    | plainRecord kind | invocationRecord kind => simp [hkind] at kind
    | runTransition kind | toolProposed kind | toolTransition kind | dispatchStarted kind
    | resultRecorded kind | acceptanceDecided kind => simp [hkind] at kind
    | budgetConsumed kind payload claim_eq category_eq amount_eq fresh ok pos enough terminal =>
      exact terminal (by rw [← AgentEvent.field_eq payload]; exact hterm)

/-- A run that spends one turn and then, with its last turn, ends. -/
def spentStream : List (AgentEvent Unit) :=
  sampleStream 1
    [(.runCreated, sampleBudgets 2),
      (.budgetConsumed, [("claim_id", sampleText "b1"), ("category", sampleText "turns"),
        ("amount", .int 1)]),
      (.budgetConsumed, [("claim_id", sampleText "b2"), ("category", sampleText "turns"),
        ("amount", .int 1), ("terminalize", .bool true)])]

theorem spentStream_conserved : ∃ s, replay (py "run-1") spentStream = .ok s ∧
    s.budgets.amount .turns = createdAmount spentStream .turns - consumed spentStream .turns ∧
    createdAmount spentStream .turns = 2 ∧ consumed spentStream .turns = 2 := by
  cases h : replay (py "run-1") spentStream with
  | error e =>
    have hok : (replay (py "run-1") spentStream).toBool = true := by decide +kernel
    rw [h] at hok
    exact absurd hok (by simp [Except.toBool])
  | ok s =>
    exact ⟨s, rfl, ((budgets_conserved h).1 .turns).1, by decide +kernel, by decide +kernel⟩

end Agent
