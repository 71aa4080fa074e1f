/-
What the fair selector guarantees.

* `noteAll_ok`, `select_least` — a selection notes the largest weight of each
  workflow and agent, and takes a candidate of the least key;
* `aging_bounds_starvation` — a candidate that has waited long enough is not
  passed over by a later one, whatever the service debts are;
* `weighted_fairness` — among candidates of one priority no workflow, agent or
  request gets ahead of another by more than one charge over its weight.
-/
import LlamaRuntime.Fairness.WeightedService
import LlamaRuntime.Inference.EmergencyService

namespace Inference

namespace HierarchicalFairSelector

open WeightedService ContinuousBatchScheduler

variable {α : Type} [SchedulableEntry α] {policy : RuntimeSchedulingPolicy}

/-! ### The candidate of least key -/

omit [SchedulableEntry α] in
theorem minByKey_le {K : Type} [LinearOrder K] (key : α → K) :
    ∀ (best : α) (rest : List α), ∀ x ∈ best :: rest, key (minByKey key best rest) ≤ key x
  | best, [], x, hx => by
    rw [List.mem_singleton.mp hx]
    exact le_rfl
  | best, y :: rest, x, hx => by
    have hrest (z : α) (hz : key z ≤ key best) (hz' : key z ≤ key y) :
        key (minByKey key z rest) ≤ key x := by
      have hleast := minByKey_le key z rest
      rcases List.mem_cons.mp hx with rfl | hx
      · exact (hleast z List.mem_cons_self).trans hz
      rcases List.mem_cons.mp hx with rfl | hx
      · exact (hleast z List.mem_cons_self).trans hz'
      · exact hleast x (List.mem_cons_of_mem z hx)
    rw [minByKey]
    by_cases hlt : key y < key best
    · rw [if_pos hlt]
      exact hrest y hlt.le le_rfl
    · rw [if_neg hlt]
      exact hrest best le_rfl (not_lt.mp hlt)

section Lex

variable {β γ : Type} [LinearOrder β] [LinearOrder γ] {a c : β} {b d : γ}

theorem lex_fst_le (h : toLex (a, b) ≤ toLex (c, d)) : a ≤ c := by
  rcases Prod.Lex.toLex_le_toLex.mp h with hlt | ⟨heq, -⟩
  · exact hlt.le
  · exact heq.le

theorem lex_snd_le (heq : a = c) (h : toLex (a, b) ≤ toLex (c, d)) : b ≤ d := by
  rcases Prod.Lex.toLex_le_toLex.mp h with hlt | ⟨-, hle⟩
  · exact absurd heq hlt.ne
  · exact hle

end Lex

/-! ### The weights that are noted -/

section Weights

variable {κ : Type} [DecidableEq κ]

/-- A ledger of weights after one more candidate. -/
def noteWeight (weights : Dict κ ℕ) (k : κ) (weight : ℕ) : Dict κ ℕ :=
  weights.set k (max ((weights.get? k).getD 1) weight)

/-- The largest weight of the candidates that belong to `k`. -/
def largestWeight (belongs : α → κ) (entries : List α) (k : κ) : ℕ :=
  (entries.filter fun e => belongs e = k).foldr (fun e w => max (scheduling e).weight w) 0

theorem largestWeight_cons (belongs : α → κ) (e : α) (entries : List α) (k : κ) :
    largestWeight belongs (e :: entries) k =
      if belongs e = k then max (scheduling e).weight (largestWeight belongs entries k)
      else largestWeight belongs entries k := by
  unfold largestWeight
  rw [List.filter_cons]
  by_cases h : belongs e = k
  · rw [if_pos (by simpa using h), if_pos h, List.foldr_cons]
  · rw [if_neg (by simpa using h), if_neg h]

theorem le_largestWeight (belongs : α → κ) {entries : List α} {e : α} (he : e ∈ entries) :
    (scheduling e).weight ≤ largestWeight belongs entries (belongs e) := by
  induction entries with
  | nil => exact absurd he List.not_mem_nil
  | cons x rest ih =>
    rw [largestWeight_cons]
    rcases List.mem_cons.mp he with rfl | he
    · rw [if_pos rfl]
      exact le_max_left _ _
    · have hrest := ih he
      by_cases h : belongs x = belongs e
      · rw [if_pos h]
        exact hrest.trans (le_max_right _ _)
      · rw [if_neg h]
        exact hrest

/-- The ledger after all candidates: of those that had a weight before, or belong to one. -/
theorem get?_noteWeights (belongs : α → κ) (k : κ) : ∀ (entries : List α) (weights : Dict κ ℕ),
    ((entries.foldl (fun d e => noteWeight d (belongs e) (scheduling e).weight) weights).get?
      k).getD 1 = max ((weights.get? k).getD 1) (largestWeight belongs entries k)
  | [], weights => by simp [largestWeight]
  | e :: rest, weights => by
    rw [List.foldl_cons, get?_noteWeights belongs k rest, largestWeight_cons, noteWeight,
      Dict.get?_set]
    by_cases h : belongs e = k
    · subst h
      rw [if_pos rfl, if_pos rfl, Option.getD_some, max_assoc]
    · rw [if_neg h, if_neg h]

theorem isSome_noteWeights (belongs : α → κ) {k : κ} (entries : List α) (weights : Dict κ ℕ)
    (h : (weights.get? k).isSome ∨ (∃ e ∈ entries, belongs e = k)) :
    ((entries.foldl (fun d e => noteWeight d (belongs e) (scheduling e).weight) weights).get?
      k).isSome := by
  induction entries generalizing weights with
  | nil => simpa using h
  | cons e rest ih =>
    rw [List.foldl_cons]
    refine ih _ ?_
    rw [noteWeight, Dict.get?_set]
    by_cases hk : belongs e = k
    · exact .inl (by rw [if_pos hk]; rfl)
    · rw [if_neg hk]
      rcases h with h | ⟨x, hx, hxk⟩
      · exact .inl h
      · rcases List.mem_cons.mp hx with rfl | hx
        · exact absurd hxk hk
        · exact .inr ⟨x, hx, hxk⟩

end Weights

def workflowOf (e : α) : PyStr := (scheduling e).workflowId

/-- What the first loop of `select` leaves behind. -/
theorem noteAll_ok : ∀ {entries : List α} {sel noted : HierarchicalFairSelector},
    noteAll policy sel entries = (.ok (), noted) → noted =
      { sel with
        workflowWeight := entries.foldl
          (fun d e => noteWeight d (workflowOf e) (scheduling e).weight) sel.workflowWeight
        agentWeight := entries.foldl
          (fun d e => noteWeight d (agentOf (scheduling e)) (scheduling e).weight) sel.agentWeight }
  | [], sel, noted, h => (Prod.mk.inj h).2.symm
  | e :: rest, sel, noted, h => by
    rw [noteAll] at h
    cases hclass : policy.classPolicy (scheduling e).serviceClass with
    | error rejection =>
      rw [hclass] at h
      exact absurd (Prod.mk.inj h).1 (by simp)
    | ok item =>
      rw [hclass] at h
      have hrest := noteAll_ok h
      exact hrest

/-- **A selection** takes a candidate of its lane with the least key. -/
theorem select_least {sel sel' : HierarchicalFairSelector} {entries : List α} {now : ℚ} {e : α}
    (h : select policy sel entries now = (.ok (some e), sel')) :
    ∃ noted count, noteAll policy sel entries = (.ok (), noted) ∧
      sel' = { noted with consecutiveEmergency := count } ∧ e ∈ lane policy noted entries ∧
      ∀ x ∈ lane policy noted entries, key policy noted now e ≤ key policy noted now x := by
  unfold select at h
  cases entries with
  | nil => exact absurd (Except.ok.inj (Prod.mk.inj h).1) (by simp)
  | cons first rest =>
    dsimp only at h
    rcases hnote : noteAll policy sel (first :: rest) with ⟨result, noted⟩
    rw [hnote] at h
    cases result with
    | error rejection => exact absurd (Prod.mk.inj h).1 (by simp)
    | ok _ =>
      dsimp only at h
      cases hlane : lane policy noted (first :: rest) with
      | nil =>
        rw [hlane] at h
        exact absurd (Except.ok.inj (Prod.mk.inj h).1) (by simp)
      | cons best others =>
        rw [hlane] at h
        obtain ⟨he, rfl⟩ := Prod.mk.inj h
        obtain rfl := Option.some_inj.mp (Except.ok.inj he)
        refine ⟨noted, _, rfl, rfl, ?_, ?_⟩
        · rw [hlane]
          exact minByKey_mem _ best others
        · rw [hlane]
          exact minByKey_le _ best others

/-- All candidates belong to the same lane. -/
def OneLane (policy : RuntimeSchedulingPolicy) (entries : List α) : Prop :=
  ∀ a ∈ entries, ∀ b ∈ entries, isEmergency policy a = isEmergency policy b

theorem lane_eq {sel : HierarchicalFairSelector} {entries : List α} (h : OneLane policy entries) :
    lane policy sel entries = entries := by
  by_cases hall : ∀ x ∈ entries, isEmergency policy x = true
  · have hnormal : (entries.filter fun x => ¬ isEmergency policy x) = [] := by
      rw [List.filter_eq_nil_iff]
      intro x hx
      simp [hall x hx]
    have hemergency : (entries.filter fun x => isEmergency policy x) = entries :=
      List.filter_eq_self.mpr hall
    unfold lane
    dsimp only
    rw [hnormal, hemergency]
    by_cases hnil : entries = []
    · subst hnil
      rfl
    · rw [if_pos ⟨hnil, .inl rfl⟩]
  · have hnone : ∀ x ∈ entries, isEmergency policy x = false := by
      intro x hx
      obtain ⟨y, hy⟩ := not_forall.mp hall
      obtain ⟨hmem, hy⟩ := Classical.not_imp.mp hy
      rw [h x hx y hmem]
      simpa using hy
    have hemergency : (entries.filter fun x => isEmergency policy x) = [] := by
      rw [List.filter_eq_nil_iff]
      intro x hx
      simp [hnone x hx]
    have hnormal : (entries.filter fun x => ¬ isEmergency policy x) = entries := by
      rw [List.filter_eq_self]
      intro x hx
      simp [hnone x hx]
    unfold lane
    dsimp only
    rw [hemergency, hnormal, if_neg (fun hc => hc.1 rfl)]
    by_cases hnil : entries = []
    · rw [if_neg (not_not_intro hnil)]
    · rw [if_pos hnil]

/-! ### Two requests -/

/-- A request of a workflow of its own, admitted at the given time. -/
def sampleCandidate (id workflow : PyStr) (weight : ℕ) (admittedAt : ℚ)
    (hid : IsBoundedText id maxIdentifierBytes) (hpos : 0 < weight)
    (hle : weight ≤ maxSchedulingWeight) : Candidate where
  id := 0
  entry :=
    { request := sampleRequest
      scheduling := ⟨id, workflow, py "agent", py "interactive", weight, none, hid, hpos, hle⟩
      attemptId := []
      admittedAt
      queueDeadline := 100
      order := 0
      estimatedTokens := 1 }

theorem bounded_one : IsBoundedText (py "1") maxIdentifierBytes :=
  isBoundedText_py (by decide) (by decide) (by decide)

theorem bounded_two : IsBoundedText (py "2") maxIdentifierBytes :=
  isBoundedText_py (by decide) (by decide) (by decide)

theorem two_le_maxSchedulingWeight : 2 ≤ maxSchedulingWeight := by decide

def sampleEarly : Candidate :=
  sampleCandidate (py "1") (py "w1") 2 0 bounded_one Nat.two_pos two_le_maxSchedulingWeight

def sampleLate : Candidate :=
  sampleCandidate (py "2") (py "w2") 1 10 bounded_two Nat.one_pos one_le_maxSchedulingWeight

/-! ### Aging -/

/-- The priority of the class of an entry. -/
def classPriority (policy : RuntimeSchedulingPolicy) (e : α) : ℤ := (classOf policy e).priority

/-- The aging intervals by which `a` has to precede `b`. -/
def agingLead (policy : RuntimeSchedulingPolicy) (a b : α) : ℤ :=
  max 0 (classPriority policy b + policy.deadlinePriorityBoost - classPriority policy a + 1)

/-- How far the effective priority exceeds that of the class. -/
theorem effectivePriority_bounds (e : α) {now : ℚ} (hnow : admittedAt e ≤ now) :
    classPriority policy e + ⌊(now - admittedAt e) / policy.agingIntervalSeconds⌋ ≤
        effectivePriority policy e now ∧
      effectivePriority policy e now ≤ classPriority policy e +
        ⌊(now - admittedAt e) / policy.agingIntervalSeconds⌋ + policy.deadlinePriorityBoost := by
  have hwaited : max 0 (now - admittedAt e) = now - admittedAt e :=
    max_eq_right (sub_nonneg.mpr hnow)
  unfold effectivePriority classPriority
  dsimp only
  rw [hwaited]
  cases (scheduling e).deadlineMonotonic with
  | none => constructor <;> simp
  | some deadline =>
    dsimp only
    split_ifs
    · constructor <;> omega
    · constructor <;> omega

/-- Whoever precedes another by that many intervals has the higher priority. -/
theorem effectivePriority_lt {a b : α} {now : ℚ}
    (hlead : admittedAt a + agingLead policy a b * policy.agingIntervalSeconds ≤ admittedAt b)
    (hnow : admittedAt b ≤ now) :
    effectivePriority policy b now < effectivePriority policy a now := by
  have hinterval := policy.aging_pos
  have hnonneg : 0 ≤ agingLead policy a b := le_max_left _ _
  have hpositive : (0 : ℚ) ≤ agingLead policy a b * policy.agingIntervalSeconds :=
    mul_nonneg (by exact_mod_cast hnonneg) hinterval.le
  obtain ⟨-, hb⟩ := @effectivePriority_bounds α _ policy b now hnow
  obtain ⟨ha, -⟩ := @effectivePriority_bounds α _ policy a now (by linarith)
  have hfloor : ⌊(now - admittedAt b) / policy.agingIntervalSeconds⌋ + agingLead policy a b ≤
      ⌊(now - admittedAt a) / policy.agingIntervalSeconds⌋ := by
    rw [← Int.floor_add_intCast]
    refine Int.floor_le_floor ?_
    rw [le_div_iff₀ hinterval, add_mul, div_mul_cancel₀ _ hinterval.ne']
    linarith
  have hneeded : classPriority policy b + policy.deadlinePriorityBoost -
      classPriority policy a + 1 ≤ agingLead policy a b := le_max_right _ _
  omega

theorem key_lt_of_priority {sel : HierarchicalFairSelector} {a b : α} {now : ℚ}
    (h : effectivePriority policy b now < effectivePriority policy a now) :
    key policy sel now a < key policy sel now b :=
  Prod.Lex.toLex_lt_toLex.mpr (.inl (neg_lt_neg h))

/-- **Aging bounds starvation**: in any state of the selector, a candidate that
precedes another of its lane by enough aging intervals is preferred to it. -/
theorem aging_bounds_starvation (sel : HierarchicalFairSelector) {entries : List α} {now : ℚ}
    {a b : α} (hlane : OneLane policy entries) (ha : a ∈ entries)
    (hlead : admittedAt a + agingLead policy a b * policy.agingIntervalSeconds ≤ admittedAt b)
    (hnow : admittedAt b ≤ now) :
    (select policy sel entries now).1 ≠ .ok (some b) := by
  intro hselected
  have hselect : select policy sel entries now =
      (.ok (some b), (select policy sel entries now).2) := Prod.ext hselected rfl
  obtain ⟨noted, count, -, -, -, hleast⟩ := select_least hselect
  rw [lane_eq hlane] at hleast
  exact absurd (hleast a ha) (not_le.mpr (key_lt_of_priority (effectivePriority_lt hlead hnow)))

/-- The later request is not chosen as long as the earlier one is there. -/
theorem aging_bounds_starvation_sample :
    (select sampleConfig.policy {} [sampleEarly, sampleLate] 20).1 ≠ .ok (some sampleLate) :=
  aging_bounds_starvation {} (by unfold OneLane; decide +kernel) List.mem_cons_self
    (by decide +kernel) (by decide +kernel)

/-! ### Weighted service -/

/-- Selections at the given times, each of which is charged with the given tokens. -/
def serve (policy : RuntimeSchedulingPolicy) (entries : List α) (sel : HierarchicalFairSelector) :
    List (ℚ × ℕ) → HierarchicalFairSelector
  | [] => sel
  | (now, tokens) :: rest =>
    match select policy sel entries now with
    | (.ok (some e), sel) => serve policy entries (sel.charge (scheduling e) tokens) rest
    | (_, sel) => serve policy entries sel rest

/-- The tokens a ledger has for `k`. -/
def serviceOf {κ : Type} [DecidableEq κ] (service : Dict κ ℕ) (k : κ) : ℕ :=
  (service.get? k).getD 0

/-- The workflows that have candidates. -/
def workflows (entries : List α) : Set PyStr := { k | ∃ e ∈ entries, workflowOf e = k }

/-- The agents of a workflow that have candidates. -/
def agents (entries : List α) (workflow : PyStr) : Set (PyStr × PyStr) :=
  { k | k.1 = workflow ∧ ∃ e ∈ entries, agentOf (scheduling e) = k }

/-- The candidates of an agent. -/
def requests (entries : List α) (agent : PyStr × PyStr) : Set α :=
  { e | e ∈ entries ∧ agentOf (scheduling e) = agent }

/-- Nobody is ahead by more than one charge of at most `q` tokens over the own weight: no
workflow, no agent of a workflow and no request of an agent. -/
structure Fair (q : ℕ) (entries : List α) (sel : HierarchicalFairSelector) : Prop where
  workflows : Balanced q (largestWeight workflowOf entries) (serviceOf sel.workflowService)
    (workflows entries)
  agents : ∀ workflow, Balanced q (largestWeight (fun e => agentOf (scheduling e)) entries)
    (serviceOf sel.agentService) (agents entries workflow)
  requests : ∀ agent, Balanced q (fun e => (scheduling e).weight)
    (fun e => serviceOf sel.requestService (scheduling e).requestId) (requests entries agent)

/-- No weight above that of a candidate was noted. -/
structure Noted (entries : List α) (sel : HierarchicalFairSelector) : Prop where
  workflows : ∀ k, (sel.workflowWeight.get? k).getD 1 ≤ max 1 (largestWeight workflowOf entries k)
  agents : ∀ k, (sel.agentWeight.get? k).getD 1 ≤
    max 1 (largestWeight (fun e => agentOf (scheduling e)) entries k)

theorem noteWeight_le {κ : Type} [DecidableEq κ] {weights : Dict κ ℕ} {bound : κ → ℕ}
    (h : ∀ k, (weights.get? k).getD 1 ≤ max 1 (bound k)) {k : κ} {weight : ℕ}
    (hweight : weight ≤ bound k) (k' : κ) :
    ((noteWeight weights k weight).get? k').getD 1 ≤ max 1 (bound k') := by
  rw [noteWeight, Dict.get?_set]
  by_cases hk : k = k'
  · subst hk
    rw [if_pos rfl, Option.getD_some]
    exact max_le (h k) (hweight.trans (le_max_right _ _))
  · rw [if_neg hk]
    exact h k'

/-- The ledgers of service of two selectors are the same. -/
def SameService (sel sel' : HierarchicalFairSelector) : Prop :=
  sel'.workflowService = sel.workflowService ∧ sel'.agentService = sel.agentService ∧
    sel'.requestService = sel.requestService

theorem noteAll_kept {all : List α} : ∀ {entries : List α} {sel : HierarchicalFairSelector},
    (∀ e ∈ entries, e ∈ all) → Noted all sel →
      Noted all (noteAll policy sel entries).2 ∧ SameService sel (noteAll policy sel entries).2
  | [], _, _, h => ⟨h, rfl, rfl, rfl⟩
  | e :: rest, sel, hall, h => by
    rw [noteAll]
    cases policy.classPolicy (scheduling e).serviceClass with
    | error rejection => exact ⟨h, rfl, rfl, rfl⟩
    | ok item =>
      have he := hall e List.mem_cons_self
      have hnoted : Noted all (sel.noteWeights (scheduling e)) :=
        ⟨noteWeight_le h.workflows (le_largestWeight workflowOf he),
          noteWeight_le h.agents (le_largestWeight (fun e => agentOf (scheduling e)) he)⟩
      exact noteAll_kept (fun x hx => hall x (List.mem_cons_of_mem e hx)) hnoted

/-- Whatever a selection answers, it charges nobody. -/
theorem select_kept {entries : List α} {sel : HierarchicalFairSelector} (h : Noted entries sel)
    (now : ℚ) : Noted entries (select policy sel entries now).2 ∧
      SameService sel (select policy sel entries now).2 := by
  unfold select
  cases entries with
  | nil => exact ⟨h, rfl, rfl, rfl⟩
  | cons first rest =>
    have hkept := @noteAll_kept α _ policy _ (first :: rest) _ (fun _ he => he) h
    rcases hnote : noteAll policy sel (first :: rest) with ⟨result, noted⟩
    rw [hnote] at hkept
    cases result with
    | error rejection => exact hkept
    | ok _ =>
      dsimp only at hkept ⊢
      cases lane policy noted (first :: rest) with
      | nil => exact hkept
      | cons best others => exact ⟨⟨hkept.1.workflows, hkept.1.agents⟩, hkept.2⟩

theorem Fair.congr {q : ℕ} {entries : List α} {sel sel' : HierarchicalFairSelector}
    (h : Fair q entries sel) (hsame : SameService sel sel') : Fair q entries sel' := by
  obtain ⟨hworkflows, hagents, hrequests⟩ := hsame
  exact ⟨hworkflows ▸ h.workflows, hagents ▸ h.agents, hrequests ▸ h.requests⟩

/-- The debt of a candidate counts over the largest weight, once the weights are noted. -/
theorem debt_eq {κ : Type} [DecidableEq κ] {belongs : α → κ} {entries : List α}
    {weights service : Dict κ ℕ}
    (hbound : ∀ k, (weights.get? k).getD 1 ≤ max 1 (largestWeight belongs entries k))
    {e : α} (he : e ∈ entries) (fallback : ℕ) :
    debt service (entries.foldl (fun d e => noteWeight d (belongs e) (scheduling e).weight) weights)
        (belongs e) fallback =
      normalized (serviceOf service) (largestWeight belongs entries) (belongs e) := by
  have hvalue := get?_noteWeights belongs (belongs e) entries weights
  have hsome := isSome_noteWeights belongs entries weights (.inr ⟨e, he, rfl⟩)
  have hpos : 1 ≤ largestWeight belongs entries (belongs e) :=
    (scheduling e).weight_pos.trans_le (le_largestWeight belongs he)
  have hweight := hbound (belongs e)
  obtain ⟨weight, hget⟩ := Option.isSome_iff_exists.mp hsome
  rw [hget, Option.getD_some] at hvalue
  unfold debt normalized serviceOf
  rw [hget, Option.getD_some, hvalue, max_eq_right (by omega)]

/-- What the selected candidate has least: the normalized service of its workflow, of its
agent within the workflow, and its own within the agent. -/
structure Least (entries : List α) (sel : HierarchicalFairSelector) (e : α) : Prop where
  workflow : ∀ x ∈ entries,
    normalized (serviceOf sel.workflowService) (largestWeight workflowOf entries) (workflowOf e) ≤
      normalized (serviceOf sel.workflowService) (largestWeight workflowOf entries) (workflowOf x)
  agent : ∀ x ∈ entries, workflowOf x = workflowOf e →
    normalized (serviceOf sel.agentService)
        (largestWeight (fun e => agentOf (scheduling e)) entries) (agentOf (scheduling e)) ≤
      normalized (serviceOf sel.agentService)
        (largestWeight (fun e => agentOf (scheduling e)) entries) (agentOf (scheduling x))
  request : ∀ x ∈ entries, agentOf (scheduling x) = agentOf (scheduling e) →
    (serviceOf sel.requestService (scheduling e).requestId : ℚ) / (scheduling e).weight ≤
      serviceOf sel.requestService (scheduling x).requestId / (scheduling x).weight

/-- **What is selected** among candidates of one lane and one priority. -/
theorem select_fair {entries : List α} {sel sel' : HierarchicalFairSelector} {now : ℚ} {e : α}
    (h : select policy sel entries now = (.ok (some e), sel')) (hnoted : Noted entries sel)
    (hlane : OneLane policy entries)
    (hpriority : ∀ a ∈ entries, ∀ b ∈ entries,
      effectivePriority policy a now = effectivePriority policy b now) :
    e ∈ entries ∧ Least entries sel e := by
  obtain ⟨noted, count, hnote, -, hmem, hleast⟩ := select_least h
  rw [lane_eq hlane] at hmem hleast
  obtain rfl := noteAll_ok hnote
  have hworkflow (x : α) (hx : x ∈ entries) := @debt_eq α _ _ _ workflowOf _ _
    sel.workflowService hnoted.workflows x hx (scheduling x).weight
  have hagent (x : α) (hx : x ∈ entries) := @debt_eq α _ _ _ (fun e => agentOf (scheduling e)) _ _
    sel.agentService hnoted.agents x hx (scheduling x).weight
  -- the key behind the priority
  have hdebts (x : α) (hx : x ∈ entries) := lex_snd_le (by rw [hpriority e hmem x hx]) (hleast x hx)
  refine ⟨hmem, fun x hx => ?_, fun x hx hsame => ?_, fun x hx hsame => ?_⟩
  · have hle := lex_fst_le (hdebts x hx)
    exact (hworkflow e hmem).ge.trans (hle.trans (hworkflow x hx).le)
  · have hdebt := (hworkflow e hmem).trans ((congrArg _ hsame.symm).trans (hworkflow x hx).symm)
    have hle := lex_fst_le (lex_snd_le hdebt (hdebts x hx))
    exact (hagent e hmem).ge.trans (hle.trans (hagent x hx).le)
  · have hworkflows : workflowOf e = workflowOf x := congrArg Prod.fst hsame.symm
    have hdebt := (hworkflow e hmem).trans ((congrArg _ hworkflows).trans (hworkflow x hx).symm)
    have hdebt' := (hagent e hmem).trans ((congrArg _ hsame.symm).trans (hagent x hx).symm)
    exact lex_fst_le (lex_snd_le hdebt' (lex_snd_le hdebt (hdebts x hx)))

theorem serviceOf_set {κ : Type} [DecidableEq κ] (service : Dict κ ℕ) (k : κ) (tokens : ℕ)
    (k' : κ) : serviceOf (service.set k (serviceOf service k + tokens)) k' =
      if k = k' then serviceOf service k + tokens else serviceOf service k' := by
  unfold serviceOf
  rw [Dict.get?_set]
  by_cases hk : k = k'
  · rw [if_pos hk, if_pos hk]
    rfl
  · rw [if_neg hk, if_neg hk]

/-- Every candidate is a request of its own. -/
def DistinctRequests (entries : List α) : Prop :=
  (entries.map fun e => (scheduling e).requestId).Nodup

/-- **One charge** of the selected candidate. -/
theorem Fair.charge {q : ℕ} {entries : List α} {sel : HierarchicalFairSelector}
    (h : Fair q entries sel) (hids : DistinctRequests entries) {e : α} (he : e ∈ entries)
    (hleast : Least entries sel e) {tokens : ℕ} (htokens : tokens ≤ q) :
    Fair q entries (sel.charge (scheduling e) tokens) := by
  have hworkflow := serviceOf_set sel.workflowService (workflowOf e) tokens
  have hagent := serviceOf_set sel.agentService (agentOf (scheduling e)) tokens
  have hrequest := serviceOf_set sel.requestService (scheduling e).requestId tokens
  have hother : ∀ x ∈ entries, x ≠ e → (scheduling e).requestId ≠ (scheduling x).requestId :=
    fun x hx hne heq => hne (List.inj_on_of_nodup_map hids hx he heq.symm)
  refine ⟨?_, fun workflow => ?_, fun agent => ?_⟩
  · refine h.workflows.serve (k := workflowOf e) ?_ htokens ((hworkflow _).trans (if_pos rfl))
      fun k _ hne => (hworkflow k).trans (if_neg hne.symm)
    rintro k ⟨x, hx, rfl⟩
    exact hleast.workflow x hx
  · by_cases hsame : workflow = workflowOf e
    · refine (h.agents workflow).serve (k := agentOf (scheduling e)) ?_ htokens
        ((hagent _).trans (if_pos rfl)) fun k _ hne => (hagent k).trans (if_neg hne.symm)
      rintro k ⟨hk, x, hx, rfl⟩
      exact hleast.agent x hx (hk.trans hsame)
    · -- none of its agents is charged
      refine (h.agents workflow).congr fun k hk => (hagent k).trans (if_neg ?_)
      rintro rfl
      exact hsame hk.1.symm
  · by_cases hsame : agent = agentOf (scheduling e)
    · refine (h.requests agent).serve (k := e) ?_ htokens ((hrequest _).trans (if_pos rfl))
        fun x hx hne => (hrequest _).trans (if_neg (hother x hx.1 hne))
      rintro x ⟨hx, hxa⟩
      exact hleast.request x hx (hxa.trans hsame)
    · refine (h.requests agent).congr fun x hx => (hrequest _).trans (if_neg (hother x hx.1 ?_))
      rintro rfl
      exact hsame hx.2.symm

theorem Noted.charge {entries : List α} {sel : HierarchicalFairSelector} (h : Noted entries sel)
    (s : SchedulingMetadata) (tokens : ℕ) : Noted entries (sel.charge s tokens) :=
  ⟨h.workflows, h.agents⟩

theorem fair_start (q : ℕ) (entries : List α) : Fair q entries {} :=
  ⟨balanced_zero q _ _, fun _ => balanced_zero q _ _, fun _ => balanced_zero q _ _⟩

theorem noted_start (entries : List α) : Noted entries {} :=
  ⟨fun _ => le_max_left _ _, fun _ => le_max_left _ _⟩

/-- All candidates have the same effective priority. -/
def OnePriority (policy : RuntimeSchedulingPolicy) (entries : List α) (now : ℚ) : Prop :=
  ∀ a ∈ entries, ∀ b ∈ entries, effectivePriority policy a now = effectivePriority policy b now

theorem serve_fair {q : ℕ} {entries : List α} (hlane : OneLane policy entries)
    (hids : DistinctRequests entries) : ∀ {steps : List (ℚ × ℕ)} {sel : HierarchicalFairSelector},
      (∀ step ∈ steps, OnePriority policy entries step.1 ∧ 1 ≤ step.2 ∧ step.2 ≤ q) →
        Fair q entries sel → Noted entries sel → Fair q entries (serve policy entries sel steps)
  | [], _, _, hfair, _ => hfair
  | (now, tokens) :: rest, sel, hsteps, hfair, hnoted => by
    obtain ⟨hpriority, -, htokens⟩ := hsteps (now, tokens) List.mem_cons_self
    have hrest := fun step hstep => hsteps step (List.mem_cons_of_mem _ hstep)
    obtain ⟨hkept, hsame⟩ := @select_kept α _ policy _ _ hnoted now
    rw [serve]
    rcases hselect : select policy sel entries now with ⟨result, sel'⟩
    rw [hselect] at hkept hsame
    have hfair' := hfair.congr hsame
    match result, hselect with
    | .error rejection, _ => exact serve_fair hlane hids hrest hfair' hkept
    | .ok none, _ => exact serve_fair hlane hids hrest hfair' hkept
    | .ok (some e), hselect =>
      obtain ⟨he, hleast⟩ := select_fair hselect hnoted hlane hpriority
      obtain ⟨hworkflows, hagents, hrequests⟩ := hsame
      have hleast' : Least entries sel' e :=
        ⟨hworkflows ▸ hleast.workflow, hagents ▸ hleast.agent, hrequests ▸ hleast.request⟩
      exact serve_fair hlane hids hrest (hfair'.charge hids he hleast' htokens)
        (hkept.charge (scheduling e) tokens)

/-- **Weighted fairness**: while the candidates of a lane are selected and charged, with
one effective priority at every selection and at most `q` tokens a charge, no workflow, no
agent and no request is ahead of another by more than `q` tokens over its own weight. -/
theorem weighted_fairness (q : ℕ) (entries : List α) (steps : List (ℚ × ℕ))
    (hlane : OneLane policy entries) (hids : DistinctRequests entries)
    (hsteps : ∀ step ∈ steps, OnePriority policy entries step.1 ∧ 1 ≤ step.2 ∧ step.2 ≤ q) :
    Fair q entries (serve policy entries {} steps) :=
  serve_fair hlane hids hsteps (fair_start q entries) (noted_start entries)

def sampleCharges : List (ℚ × ℕ) := [(0, 8), (0, 8), (0, 3)]

theorem weighted_fairness_sample :
    Fair 8 [sampleEarly, sampleLate]
      (serve sampleConfig.policy [sampleEarly, sampleLate] {} sampleCharges) ∧
    serviceOf (serve sampleConfig.policy [sampleEarly, sampleLate] {} sampleCharges).workflowService
      (py "w1") = 11 :=
  ⟨weighted_fairness 8 [sampleEarly, sampleLate] sampleCharges (by unfold OneLane; decide +kernel)
    (by unfold DistinctRequests; decide +kernel) (by unfold OnePriority; decide +kernel),
    by decide +kernel⟩

end HierarchicalFairSelector

end Inference
