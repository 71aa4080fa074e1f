/-
Replaying events that were read back.

An event read back from the store has its payload in normal form.  The reducer
does not see the difference: the states it reaches are `Similar`, they differ in
payloads that are kept and never looked at again.

* `Applied.normal` — one event; `replay_normal` — a stream.
-/
import LlamaRuntime.Agent.ReducerSteps

open Json

namespace Agent

variable {F : Type}

/-- The states differ in kept payloads only: the deadline and the H1 records. -/
def Similar (s t : AgentRunState F) : Prop :=
  ∃ (records : Dict PyStr (Value F)) (deadline : Value F),
    t = { s with h1Records := records, budgets := { s.budgets with deadlineUtc := deadline } } ∧
      ∀ k, records.get? k = none ↔ s.h1Records.get? k = none

theorem Similar.refl (s : AgentRunState F) : Similar s s :=
  ⟨s.h1Records, s.budgets.deadlineUtc, rfl, fun _ => Iff.rfl⟩

theorem Similar.tools {s t : AgentRunState F} (h : Similar s t) :
    t.toolInvocations = s.toolInvocations := by
  obtain ⟨_, _, rfl, _⟩ := h
  rfl

theorem Similar.dispatched {s t : AgentRunState F} (h : Similar s t) :
    t.dispatchedInvocations = s.dispatchedInvocations := by
  obtain ⟨_, _, rfl, _⟩ := h
  rfl

theorem Similar.results {s t : AgentRunState F} (h : Similar s t) :
    t.terminalResults = s.terminalResults := by
  obtain ⟨_, _, rfl, _⟩ := h
  rfl

/-- A field of a payload read back is the field read back. -/
theorem field_normal {items : List (PyStr × Value F)} (h : (items.map Prod.fst).Nodup)
    (key : String) :
    field (sortKeys (items.map fun f => (f.1, f.2.normal))) key = (field items key).normal := by
  rw [field, field, Value.lookup_normal h]
  cases Items.lookup (py key) items with
  | none => exact Value.normal_null.symm
  | some v => rfl

variable [Host F]

theorem AgentEvent.nodup_keys {e : AgentEvent F} {items : List (PyStr × Value F)}
    (h : e.payload = .dict items) : (items.map Prod.fst).Nodup := by
  have hwf := (Value.writable_iff.mp e.payload_ok).2.2
  rw [h] at hwf
  exact hwf.nodup

theorem AgentEvent.normal_payload_eq {e : AgentEvent F} {items : List (PyStr × Value F)}
    (h : e.payload = .dict items) :
    e.normal.payload = .dict (sortKeys (items.map fun f => (f.1, f.2.normal))) := by
  rw [normal_payload, h, Value.normal_dict]

variable {s s' t : AgentRunState F} {n : ℕ} {e : AgentEvent F}

omit [Host F] in
theorem Similar.record (h : Similar s t) (n : ℕ) (recordId : PyStr) (p q : Value F) :
    Similar (s.record n recordId p) (t.record n recordId q) := by
  obtain ⟨records, deadline, rfl, hkeys⟩ := h
  refine ⟨records.set recordId q, deadline, rfl, fun k => ?_⟩
  show (records.set recordId q).get? k = none ↔ (s.h1Records.set recordId p).get? k = none
  rw [Dict.get?_set, Dict.get?_set]
  split_ifs
  · simp
  · exact hkeys k

omit [Host F] in
theorem RecordHeader.normal {items : List (PyStr × Value F)} {recordId : PyStr}
    (h : RecordHeader s items recordId) (hnodup : (items.map Prod.fst).Nodup)
    (hst : Similar s t) :
    RecordHeader t (sortKeys (items.map fun f => (f.1, f.2.normal))) recordId := by
  obtain ⟨records, deadline, rfl, hkeys⟩ := hst
  refine ⟨?_, ?_, (hkeys recordId).mpr h.fresh, h.id_ok⟩
  · rw [field_normal hnodup, h.version, Value.normal_str]
  · rw [field_normal hnodup, h.id, Value.normal_str]

/-- **An event read back is accepted where the event was**, with the same effect. -/
theorem Applied.normal (h : Applied s n e s') (hst : Similar s t) :
    ∃ t', Applied t n e.normal t' ∧ Similar s' t' := by
  -- a field that holds a string, an integer or a truth value is read back as it is
  have hread {items : List (PyStr × Value F)} (hp : e.payload = .dict items) (key : String) :
      field (sortKeys (items.map fun f => (f.1, f.2.normal))) key = (field items key).normal :=
    field_normal (AgentEvent.nodup_keys hp) key
  cases h with
  | runTransition kind payload target_eq allowed authority =>
    obtain ⟨records, deadline, rfl, hkeys⟩ := hst
    refine ⟨_, .runTransition kind (AgentEvent.normal_payload_eq payload) ?_ allowed
      fun ht => ?_, records, deadline, rfl, hkeys⟩
    · rw [hread payload, target_eq, Value.normal_str]
    · rw [hread payload, authority ht, Value.normal_str]
  | toolProposed kind payload invocation_eq action_eq digest_eq waiting invocation_ok action_ok
      invocation_fresh action_fresh =>
    obtain ⟨records, deadline, rfl, hkeys⟩ := hst
    refine ⟨_, .toolProposed kind (AgentEvent.normal_payload_eq payload) ?_ ?_ ?_ waiting
      invocation_ok action_ok invocation_fresh action_fresh, records, deadline, rfl, hkeys⟩
    · rw [hread payload, invocation_eq, Value.normal_str]
    · rw [hread payload, action_eq, Value.normal_str]
    · rw [hread payload, digest_eq, Value.normal_str]
  | toolTransition kind payload invocation_eq current_eq target_eq allowed =>
    obtain ⟨records, deadline, rfl, hkeys⟩ := hst
    refine ⟨_, .toolTransition kind (AgentEvent.normal_payload_eq payload) ?_ current_eq ?_
      allowed, records, deadline, rfl, hkeys⟩
    · rw [hread payload, invocation_eq, Value.normal_str]
    · rw [hread payload, target_eq, Value.normal_str]
  | @budgetConsumed items _ category amount kind payload claim_eq category_eq amount_eq
      claim_fresh claim_ok amount_pos enough terminal =>
    obtain ⟨records, deadline, rfl, hkeys⟩ := hst
    have htruthy : (field (sortKeys (items.map fun f => (f.1, f.2.normal))) "terminalize").truthy
        = (field items "terminalize").truthy := by rw [hread payload, Value.truthy_normal]
    refine ⟨_, .budgetConsumed kind (AgentEvent.normal_payload_eq payload) ?_
      (?_ : _ = Value.str category.value) (?_ : _ = Value.int amount) claim_fresh claim_ok amount_pos
      enough
      (htruthy ▸ terminal), records, deadline, ?_, hkeys⟩
    · rw [hread payload, claim_eq, Value.normal_str]
    · rw [hread payload, category_eq, Value.normal_str]
    · rw [hread payload, amount_eq, Value.normal_int]
    · rw [htruthy]
      rfl
  | plainRecord kind payload header =>
    exact ⟨_, .plainRecord kind (AgentEvent.normal_payload_eq payload)
      (header.normal (AgentEvent.nodup_keys payload) hst), hst.record _ _ _ _⟩
  | invocationRecord kind payload header invocation_eq proposed =>
    have hinv := (hread payload "invocation_id").trans (by rw [invocation_eq, Value.normal_str])
    exact ⟨_, .invocationRecord kind (AgentEvent.normal_payload_eq payload)
      (header.normal (AgentEvent.nodup_keys payload) hst) hinv (hst.tools ▸ proposed),
      hst.record _ _ _ _⟩
  | @dispatchStarted items recordId invocationId kind payload header invocation_eq authorized
      fresh =>
    have hinv := (hread payload "invocation_id").trans (by rw [invocation_eq, Value.normal_str])
    have hsim : Similar
        { s with dispatchedInvocations := s.dispatchedInvocations ++ [invocationId] }
        { t with dispatchedInvocations := t.dispatchedInvocations ++ [invocationId] } := by
      obtain ⟨records, deadline, rfl, hkeys⟩ := hst
      exact ⟨records, deadline, rfl, hkeys⟩
    exact ⟨_, .dispatchStarted kind (AgentEvent.normal_payload_eq payload)
      (header.normal (AgentEvent.nodup_keys payload) hst) hinv (hst.tools ▸ authorized)
      (hst.dispatched ▸ fresh), hsim.record _ _ _ _⟩
  | @resultRecorded items recordId invocationId kind payload header invocation_eq proposed
      dispatched fresh =>
    have hinv := (hread payload "invocation_id").trans (by rw [invocation_eq, Value.normal_str])
    have hsim : Similar
        { s with terminalResults := s.terminalResults ++ [invocationId] }
        { t with terminalResults := t.terminalResults ++ [invocationId] } := by
      obtain ⟨records, deadline, rfl, hkeys⟩ := hst
      exact ⟨records, deadline, rfl, hkeys⟩
    exact ⟨_, .resultRecorded kind (AgentEvent.normal_payload_eq payload)
      (header.normal (AgentEvent.nodup_keys payload) hst) hinv (hst.tools ▸ proposed)
      (hst.dispatched ▸ dispatched) (hst.results ▸ fresh), hsim.record _ _ _ _⟩
  | @acceptanceDecided items recordId accepted kind payload header accepted_eq authority =>
    have haccepted := (hread payload "accepted").trans (by rw [accepted_eq, Value.normal_bool])
    have hauthority := (hread payload "authority").trans (by rw [authority, Value.normal_str])
    have hsim : Similar { s with acceptanceVerdict := some accepted }
        { t with acceptanceVerdict := some accepted } := by
      obtain ⟨records, deadline, rfl, hkeys⟩ := hst
      exact ⟨records, deadline, rfl, hkeys⟩
    exact ⟨_, .acceptanceDecided kind (AgentEvent.normal_payload_eq payload)
      (header.normal (AgentEvent.nodup_keys payload) hst) haccepted hauthority,
      hsim.record _ _ _ _⟩

theorem replayFrom_normal {events : List (AgentEvent F)} (hst : Similar s t)
    (h : replayFrom s n events = .ok s') :
    ∃ t', replayFrom t n (events.map AgentEvent.normal) = .ok t' ∧ Similar s' t' := by
  induction events generalizing s t n with
  | nil =>
    obtain rfl := Except.ok.inj h
    exact ⟨t, rfl, hst⟩
  | cons e rest ih =>
    obtain ⟨s₁, hseq, happ, h⟩ := replayFrom_cons.mp h
    obtain ⟨t₁, happ', hst₁⟩ := happ.normal hst
    obtain ⟨t', ht', hst'⟩ := ih hst₁ h
    refine ⟨t', ?_, hst'⟩
    rw [List.map_cons]
    exact replayFrom_cons.mpr ⟨t₁, hseq, happ', ht'⟩

/-! ### The first event -/

omit [Host F] in
/-- The raw budgets of a payload read back are the raw budgets, read back. -/
theorem rawBudgets_normal {payload : Value F} (hwf : payload.WellFormed)
    {raw : List (PyStr × Value F)} (h : rawBudgets payload = some raw) :
    rawBudgets payload.normal = some (sortKeys (raw.map fun f => (f.1, f.2.normal))) ∧
      (raw.map Prod.fst).Nodup := by
  obtain ⟨hraw, hkeys⟩ := Option.filter_eq_some_iff.mp h
  obtain ⟨items, hitems, hlookup⟩ := Option.bind_eq_some_iff.mp hraw
  obtain ⟨budgets, hbudgets, hdict⟩ := Option.bind_eq_some_iff.mp hlookup
  rw [Value.dict?_eq_some] at hitems hdict
  subst hitems hdict
  have hinner : (Value.dict raw).WellFormed := by
    rw [Value.WellFormed, Value.all_dict, Bool.and_eq_true] at hwf
    exact List.all_eq_true.mp hwf.2 _ (Items.mem_of_lookup hbudgets)
  refine ⟨Option.filter_eq_some_iff.mpr ⟨?_, ?_⟩, hinner.nodup⟩
  · simp only [Value.normal_dict, Value.dict?, Option.bind_some]
    rw [Value.lookup_normal hwf.nodup, hbudgets, Option.map_some, Option.bind_some,
      Value.normal_dict, Value.dict?]
  · have hperm := perm_sortKeys (raw.map fun f => (f.1, f.2.normal))
    have hmap : (raw.map fun f => (f.1, f.2.normal)).map Prod.fst = raw.map Prod.fst := by simp
    rw [Bool.and_eq_true] at hkeys ⊢
    refine ⟨?_, ?_⟩
    · rw [hperm.all_eq, List.all_map]
      exact hkeys.1
    · have hmem (k : PyStr) : k ∈ (sortKeys (raw.map fun f => (f.1, f.2.normal))).map Prod.fst
          ↔ k ∈ raw.map Prod.fst := by
        rw [(hperm.map Prod.fst).mem_iff, hmap]
      simpa only [hmem] using hkeys.2

omit [Host F] in
theorem applyRunCreated_normal {runId : PyStr} {payload : Value F} (hwf : payload.WellFormed)
    (h : applyRunCreated runId n payload = .ok s) :
    ∃ t, applyRunCreated runId n payload.normal = .ok t ∧ Similar s t := by
  obtain ⟨raw, hraw, hall, rfl⟩ := applyRunCreated_ok h
  obtain ⟨hraw', hnodup⟩ := rawBudgets_normal hwf hraw
  have hamount (c : BudgetCategory) :
      rawAmount (sortKeys (raw.map fun f => (f.1, f.2.normal))) c = rawAmount raw c := by
    rw [rawAmount, rawAmount, Value.lookup_normal hnodup]
    cases Items.lookup c.value raw <;> simp
  rw [applyRunCreated, hraw']
  simp only [hamount]
  refine ⟨_, bind_ok.mpr ⟨(), require_ok.mpr (List.all_eq_true.mpr fun c _ => hall c), rfl⟩, ?_⟩
  exact ⟨∅, _, rfl, fun _ => Iff.rfl⟩

/-- **A stream read back is accepted if the stream is.** -/
theorem replay_normal {runId : PyStr} {events : List (AgentEvent F)}
    (h : replay runId events = .ok s) :
    ∃ t, replay runId (events.map AgentEvent.normal) = .ok t ∧ Similar s t := by
  obtain ⟨e, rest, rfl⟩ := List.exists_cons_of_ne_nil (replay_ne_nil h)
  obtain ⟨s₀, hc, h⟩ := replay_cons.mp h
  obtain ⟨t₀, ht₀, hst₀⟩ := applyRunCreated_normal (Value.writable_iff.mp e.payload_ok).2.2 hc.state
  obtain ⟨t, ht, hst⟩ := replayFrom_normal hst₀ h
  refine ⟨t, ?_, hst⟩
  rw [List.map_cons]
  exact replay_cons.mpr ⟨t₀, ⟨hc.id_ok, hc.kind, hc.sequence, ht₀⟩, ht⟩

end Agent
