/-
Lifecycles in accepted streams.

* `lifecycles_sound` — run and invocation lifecycles follow the transition
  tables, a dispatch is recorded at most once and only while the invocation is
  authorized, a result at most once and only after the dispatch, and front
  parts of accepted streams are accepted;
* `succeeded_by_authority` — what a run that succeeded shows about its stream;
* `finished_runs_start_nothing` — a finished run can start a tool exactly when
  it ended with an invocation on its way to the dispatch.
-/
import LlamaRuntime.Agent.Budgets

open Json

namespace Agent

variable {F : Type} [Host F] {runId : PyStr} {events : List (AgentEvent F)}
  {s s' : AgentRunState F} {e : AgentEvent F} {n : ℕ}

/-! ### One event -/

/-- What an event may do to the lifecycle of the run. -/
def LifecycleStep (before after : AgentRunLifecycle) : Prop :=
  after = before ∨ after ∈ runTransitions before ∨
    (before ∉ runTerminal ∧ after = .budgetExhausted)

/-- What an event may do to an invocation. -/
def InvocationStep : Option ToolInvocationLifecycle → Option ToolInvocationLifecycle → Prop
  | none, after => after = none ∨ after = some .proposed
  | some before, after => after = some before ∨ ∃ target ∈ toolTransitions before, after = some target

theorem InvocationStep.refl (o : Option ToolInvocationLifecycle) : InvocationStep o o := by
  cases o with
  | none => exact .inl rfl
  | some l => exact .inl rfl

theorem runTransitions_terminal {l : AgentRunLifecycle} (h : l ∈ runTerminal) :
    runTransitions l = [] := by
  cases l <;> first | rfl | simp [runTerminal] at h

theorem Applied.lifecycle (h : Applied s n e s') : LifecycleStep s.lifecycle s'.lifecycle := by
  cases h with
  | runTransition kind payload target_eq allowed => exact .inr (.inl allowed)
  | @budgetConsumed items _ _ _ kind payload _ _ _ _ _ _ _ terminal =>
    cases hterm : (field items "terminalize").truthy with
    | false => exact .inl (by simp)
    | true => exact .inr (.inr ⟨terminal hterm, by simp⟩)
  | _ => exact .inl rfl

/-- A finished run stays as it ended. -/
theorem Applied.terminal (h : Applied s n e s') (hterm : s.lifecycle ∈ runTerminal) :
    s'.lifecycle = s.lifecycle := by
  rcases h.lifecycle with heq | htarget | ⟨hnot, -⟩
  · exact heq
  · rw [runTransitions_terminal hterm] at htarget
    exact absurd htarget (by simp)
  · exact absurd hterm hnot

theorem Applied.invocation (h : Applied s n e s') (id : PyStr) :
    InvocationStep (s.toolInvocations.get? id) (s'.toolInvocations.get? id) := by
  cases h with
  | @toolProposed _ invocationId _ _ kind payload _ _ _ waiting _ _ fresh _ =>
    rw [Dict.get?_set]
    split_ifs with hid
    · subst hid
      rw [fresh]
      exact .inr rfl
    · exact .refl _
  | @toolTransition _ invocationId current target kind payload _ current_eq _ allowed =>
    rw [Dict.get?_set]
    split_ifs with hid
    · subst hid
      rw [current_eq]
      exact .inr ⟨target, allowed, rfl⟩
    · exact .refl _
  | _ => exact .refl _

/-- The invocation that an event of the given kind names. -/
def named (kind : EventKind) (e : AgentEvent F) : Option PyStr :=
  if e.eventKind = kind then (e.field "invocation_id").str? else none

/-- The invocations named by the events of a kind, in the order of the stream. -/
def namedIn (kind : EventKind) (events : List (AgentEvent F)) : List PyStr :=
  events.filterMap (named kind)

theorem namedIn_append (kind : EventKind) (events : List (AgentEvent F)) (e : AgentEvent F) :
    namedIn kind (events ++ [e]) = namedIn kind events ++ (named kind e).toList := by
  rw [namedIn, List.filterMap_append]
  cases h : named kind e <;> simp [namedIn, h]

/-- An event records a dispatch when it is accepted as one. -/
theorem Applied.dispatched (h : Applied s n e s') :
    s'.dispatchedInvocations = s.dispatchedInvocations ++ (named .dispatchStarted e).toList ∧
      ∀ id, named .dispatchStarted e = some id →
        s.toolInvocations.get? id = some .authorized ∧ id ∉ s.dispatchedInvocations := by
  cases h with
  | @dispatchStarted items _ id kind payload header hid authorized fresh =>
    have hname : named .dispatchStarted e = some id := by
      simp [named, kind, AgentEvent.field_eq payload, hid]
    rw [hname]
    refine ⟨rfl, ?_⟩
    intro id' hid'
    obtain rfl := Option.some_inj.mp hid'
    exact ⟨authorized, fresh⟩
  | plainRecord kind => rcases kind with kind | kind | kind <;> simp [named, kind, AgentRunState.record]
  | invocationRecord kind => rcases kind with kind | kind <;> simp [named, kind, AgentRunState.record]
  | runTransition kind | toolProposed kind | toolTransition kind | budgetConsumed kind
  | resultRecorded kind | acceptanceDecided kind => simp [named, kind, AgentRunState.record]

/-- An event records a result when it is accepted as one. -/
theorem Applied.results (h : Applied s n e s') :
    s'.terminalResults = s.terminalResults ++ (named .resultRecorded e).toList ∧
      ∀ id, named .resultRecorded e = some id →
        id ∈ s.dispatchedInvocations ∧ id ∉ s.terminalResults := by
  cases h with
  | @resultRecorded items _ id kind payload header hid proposed dispatched fresh =>
    have hname : named .resultRecorded e = some id := by
      simp [named, kind, AgentEvent.field_eq payload, hid]
    rw [hname]
    refine ⟨rfl, ?_⟩
    intro id' hid'
    obtain rfl := Option.some_inj.mp hid'
    exact ⟨dispatched, fresh⟩
  | plainRecord kind => rcases kind with kind | kind | kind <;> simp [named, kind, AgentRunState.record]
  | invocationRecord kind => rcases kind with kind | kind <;> simp [named, kind, AgentRunState.record]
  | runTransition kind | toolProposed kind | toolTransition kind | budgetConsumed kind
  | dispatchStarted kind | acceptanceDecided kind => simp [named, kind, AgentRunState.record]

/-! ### Streams -/

/-- What the reducer knows about dispatches and results is what the stream says. -/
structure DispatchesAgree (events : List (AgentEvent F)) (s : AgentRunState F) : Prop where
  dispatched : s.dispatchedInvocations = namedIn .dispatchStarted events
  results : s.terminalResults = namedIn .resultRecorded events
  dispatched_once : s.dispatchedInvocations.Nodup
  results_once : s.terminalResults.Nodup

theorem nodup_append_option {l : List PyStr} {o : Option PyStr} (hl : l.Nodup)
    (h : ∀ a, o = some a → a ∉ l) : (l ++ o.toList).Nodup := by
  cases o with
  | none => simpa using hl
  | some a =>
    refine List.nodup_append.mpr ⟨hl, List.nodup_singleton a, ?_⟩
    intro b hb c hc hbc
    obtain rfl := List.mem_singleton.mp hc
    exact h c rfl (hbc ▸ hb)

theorem dispatchesAgree (h : replay runId events = .ok s) : DispatchesAgree events s := by
  refine replay_induction (P := DispatchesAgree) ?_ ?_ h
  · intro e s hc
    obtain ⟨raw, -, -, rfl⟩ := applyRunCreated_ok hc.state
    exact ⟨by simp [namedIn, named, hc.kind], by simp [namedIn, named, hc.kind], List.nodup_nil,
      List.nodup_nil⟩
  · intro events s e s' _ ih _ happ
    obtain ⟨hd, hdnew⟩ := happ.dispatched
    obtain ⟨hr, hrnew⟩ := happ.results
    refine ⟨?_, ?_, ?_, ?_⟩
    · rw [hd, ih.dispatched, namedIn_append]
    · rw [hr, ih.results, namedIn_append]
    · rw [hd]
      exact nodup_append_option ih.dispatched_once fun id hid => (hdnew id hid).2
    · rw [hr]
      exact nodup_append_option ih.results_once fun id hid => (hrnew id hid).2

/-- An event of an accepted stream, with the states around it. -/
theorem replay_split {pre post : List (AgentEvent F)} (hne : pre ≠ [])
    (h : replay runId (pre ++ e :: post) = .ok s') :
    ∃ s₀ s₁, replay runId pre = .ok s₀ ∧ replay runId (pre ++ [e]) = .ok s₁ ∧
      Applied s₀ (pre.length + 1) e s₁ := by
  obtain ⟨s₀, hs₀, hrest⟩ := (replay_append hne).mp h
  obtain ⟨s₁, hseq, happ, -⟩ := replayFrom_cons.mp hrest
  exact ⟨s₀, s₁, hs₀, (replay_concat hne).mpr ⟨s₀, hs₀, hseq, happ⟩, happ⟩

/-- Later events than the first are not at the front. -/
theorem pre_ne_nil {pre post : List (AgentEvent F)} (h : replay runId (pre ++ e :: post) = .ok s')
    (hkind : e.eventKind ≠ .runCreated) : pre ≠ [] := by
  rintro rfl
  obtain ⟨s₀, hc, -⟩ := replay_cons.mp h
  exact hkind hc.kind

/-- The laws of lifecycles, for one stream. -/
structure SoundLifecycles (runId : PyStr) (events : List (AgentEvent F)) : Prop where
  /-- Every non-empty front part is accepted. -/
  accepted : ∀ pre post, pre ≠ [] → events = pre ++ post → ∃ s, replay runId pre = .ok s
  /-- The run starts ready, without invocations. -/
  start : ∀ e s, events.head? = some e → replay runId [e] = .ok s →
    s.lifecycle = .ready ∧ ∀ id, s.toolInvocations.get? id = none
  /-- Run lifecycles follow their table, but for an exhausted budget. -/
  run_path : ∀ pre e post s₀ s₁, events = pre ++ e :: post → replay runId pre = .ok s₀ →
    replay runId (pre ++ [e]) = .ok s₁ → LifecycleStep s₀.lifecycle s₁.lifecycle
  /-- A terminal lifecycle is the last one. -/
  run_terminal : ∀ pre post s₀ s₁, events = pre ++ post → replay runId pre = .ok s₀ →
    replay runId events = .ok s₁ → s₀.lifecycle ∈ runTerminal → s₁.lifecycle = s₀.lifecycle
  /-- Invocations start proposed and follow their table. -/
  invocation_path : ∀ pre e post s₀ s₁ id, events = pre ++ e :: post →
    replay runId pre = .ok s₀ → replay runId (pre ++ [e]) = .ok s₁ →
    InvocationStep (s₀.toolInvocations.get? id) (s₁.toolInvocations.get? id)
  /-- No invocation is dispatched twice or has two results. -/
  dispatched_once : (namedIn .dispatchStarted events).Nodup
  results_once : (namedIn .resultRecorded events).Nodup
  /-- A dispatch finds its invocation authorized. -/
  dispatch_authorized : ∀ pre e post, events = pre ++ e :: post →
    e.eventKind = .dispatchStarted → ∃ id s₀, (e.field "invocation_id") = .str id ∧
      replay runId pre = .ok s₀ ∧ s₀.toolInvocations.get? id = some .authorized
  /-- A result comes after the dispatch of its invocation. -/
  result_dispatched : ∀ pre e post, events = pre ++ e :: post →
    e.eventKind = .resultRecorded → ∃ id, (e.field "invocation_id") = .str id ∧
      id ∈ namedIn .dispatchStarted pre

theorem terminal_stays {pre post : List (AgentEvent F)} {s₀ : AgentRunState F}
    (h₀ : replay runId pre = .ok s₀) (h : replay runId (pre ++ post) = .ok s)
    (hterm : s₀.lifecycle ∈ runTerminal) : s.lifecycle = s₀.lifecycle := by
  induction post using List.reverseRecOn generalizing s with
  | nil =>
    rw [List.append_nil, h₀] at h
    rw [Except.ok.inj h]
  | append_singleton post e ih =>
    have hne : pre ++ post ≠ [] := List.append_ne_nil_of_left_ne_nil (replay_ne_nil h₀) _
    rw [← List.append_assoc] at h
    obtain ⟨s₁, hs₁, -, happ⟩ := (replay_concat hne).mp h
    have hlife := ih hs₁
    rw [happ.terminal (hlife ▸ hterm), hlife]

/-- **Lifecycles are sound** in every stream that `replay` accepts. -/
theorem lifecycles_sound (h : replay runId events = .ok s) : SoundLifecycles runId events where
  accepted := by
    rintro pre post hne rfl
    exact replay_prefix hne h
  start := by
    intro e s _ hs
    obtain ⟨s₀, hc, hs⟩ := replay_cons.mp hs
    obtain rfl := Except.ok.inj hs
    obtain ⟨raw, -, -, rfl⟩ := applyRunCreated_ok hc.state
    exact ⟨rfl, fun _ => rfl⟩
  run_path := by
    rintro pre e post s₀ s₁ rfl hs₀ hs₁
    obtain ⟨s, hs, -, happ⟩ := (replay_concat (replay_ne_nil hs₀)).mp hs₁
    obtain rfl := Except.ok.inj (hs₀.symm.trans hs)
    exact happ.lifecycle
  run_terminal := by
    rintro pre post s₀ s₁ rfl hs₀ hs₁ hterm
    exact terminal_stays hs₀ hs₁ hterm
  invocation_path := by
    rintro pre e post s₀ s₁ id rfl hs₀ hs₁
    obtain ⟨s, hs, -, happ⟩ := (replay_concat (replay_ne_nil hs₀)).mp hs₁
    obtain rfl := Except.ok.inj (hs₀.symm.trans hs)
    exact happ.invocation id
  dispatched_once := (dispatchesAgree h).dispatched ▸ (dispatchesAgree h).dispatched_once
  results_once := (dispatchesAgree h).results ▸ (dispatchesAgree h).results_once
  dispatch_authorized := by
    rintro pre e post rfl hkind
    obtain ⟨s₀, s₁, hs₀, -, happ⟩ := replay_split (pre_ne_nil h (by simp [hkind])) h
    cases happ with
    | plainRecord kind | invocationRecord kind => simp [hkind] at kind
    | runTransition kind | toolProposed kind | toolTransition kind | budgetConsumed kind
    | resultRecorded kind | acceptanceDecided kind => simp [hkind] at kind
    | dispatchStarted kind payload header hid authorized fresh =>
      exact ⟨_, s₀, by rw [AgentEvent.field_eq payload, hid], hs₀, authorized⟩
  result_dispatched := by
    rintro pre e post rfl hkind
    obtain ⟨s₀, s₁, hs₀, -, happ⟩ := replay_split (pre_ne_nil h (by simp [hkind])) h
    cases happ with
    | plainRecord kind | invocationRecord kind => simp [hkind] at kind
    | runTransition kind | toolProposed kind | toolTransition kind | budgetConsumed kind
    | dispatchStarted kind | acceptanceDecided kind => simp [hkind] at kind
    | resultRecorded kind payload header hid proposed dispatched fresh =>
      exact ⟨_, by rw [AgentEvent.field_eq payload, hid],
        (dispatchesAgree hs₀).dispatched ▸ dispatched⟩

/-- A run that calls one tool and succeeds. -/
def toolStream : List (AgentEvent Unit) :=
  sampleStream 1
    [(.runCreated, sampleBudgets 5),
      (.runTransition, [("target", sampleText "deciding")]),
      (.runTransition, [("target", sampleText "waiting_tool")]),
      (.toolProposed, [("action_id", sampleText "a1"), ("invocation_id", sampleText "i1"),
        ("tool_catalog_digest", sampleText "sha256:catalog")]),
      (.toolTransition, [("invocation_id", sampleText "i1"), ("target", sampleText "args_ready")]),
      (.toolTransition, [("invocation_id", sampleText "i1"), ("target", sampleText "authorized")]),
      (.dispatchStarted, [("record_version", sampleText "h1.v1"), ("record_id", sampleText "r1"),
        ("invocation_id", sampleText "i1")]),
      (.toolTransition, [("invocation_id", sampleText "i1"), ("target", sampleText "dispatched")]),
      (.resultRecorded, [("record_version", sampleText "h1.v1"), ("record_id", sampleText "r2"),
        ("invocation_id", sampleText "i1")]),
      (.toolTransition, [("invocation_id", sampleText "i1"), ("target", sampleText "succeeded")]),
      (.runTransition, [("target", sampleText "observing")]),
      (.runTransition, [("target", sampleText "verifying")]),
      (.runTransition, [("target", sampleText "succeeded"),
        ("authority", sampleText "acceptance_gate")])]

omit [Host F] in
/-- The state of an accepted stream, from its lifecycle. -/
theorem exists_of_lifecycle {x : Except Raised (AgentRunState F)} {l : AgentRunLifecycle}
    (h : (x.toOption.map fun s => s.lifecycle) = some l) : ∃ s, x = .ok s ∧ s.lifecycle = l := by
  cases x with
  | error e => exact absurd h (by simp [Except.toOption])
  | ok s => exact ⟨s, rfl, by simpa [Except.toOption] using h⟩

theorem exists_of_toBool {α : Type} {x : Except Raised α} (h : x.toBool = true) :
    ∃ a, x = .ok a := by
  cases x with
  | error e => exact absurd h (by simp [Except.toBool])
  | ok a => exact ⟨a, rfl⟩

/-- The sample stream replays, to success. -/
theorem toolStream_replays :
    ((replay (py "run-1") toolStream).toOption.map fun s => s.lifecycle) = some .succeeded := by
  decide +kernel

theorem toolStream_sound : SoundLifecycles (py "run-1") toolStream ∧
    namedIn .dispatchStarted toolStream = [py "i1"] := by
  obtain ⟨s, hs, -⟩ := exists_of_lifecycle toolStream_replays
  exact ⟨lifecycles_sound hs, by decide +kernel⟩

/-! ### Success -/

/-- A `run_transition` to SUCCEEDED. -/
def AgentEvent.succeeds (e : AgentEvent F) : Prop :=
  e.eventKind = .runTransition ∧ e.field "target" = .str AgentRunLifecycle.succeeded.value

/-- The verdict of an acceptance decision. -/
def verdict (e : AgentEvent F) : Option Bool :=
  if e.eventKind = .acceptanceDecided then (e.field "accepted").bool? else none

/-- The verdict of the latest acceptance decision. -/
def latestVerdict (events : List (AgentEvent F)) : Option Bool :=
  (events.filterMap verdict).getLast?

theorem latestVerdict_append (events : List (AgentEvent F)) (e : AgentEvent F) :
    latestVerdict (events ++ [e])
      = if (verdict e).isSome then verdict e else latestVerdict events := by
  rw [latestVerdict, List.filterMap_append]
  cases h : verdict e <;> simp [latestVerdict, h]

theorem Applied.verdict (h : Applied s n e s') :
    s'.acceptanceVerdict = if (verdict e).isSome then verdict e else s.acceptanceVerdict := by
  cases h with
  | @acceptanceDecided _ _ accepted kind payload header haccepted authority =>
    have hv : Agent.verdict e = some accepted := by
      rw [Agent.verdict, if_pos kind, AgentEvent.field_eq payload, haccepted]
      rfl
    rw [hv]
    rfl
  | plainRecord kind =>
    rcases kind with kind | kind | kind <;> simp [Agent.verdict, kind, AgentRunState.record]
  | invocationRecord kind =>
    rcases kind with kind | kind <;> simp [Agent.verdict, kind, AgentRunState.record]
  | runTransition kind | toolProposed kind | toolTransition kind | budgetConsumed kind
  | resultRecorded kind | dispatchStarted kind => simp [Agent.verdict, kind, AgentRunState.record]

/-- The replayed verdict is the latest one of the stream. -/
theorem replay_verdict (h : replay runId events = .ok s) :
    s.acceptanceVerdict = latestVerdict events := by
  refine replay_induction (P := fun events s => s.acceptanceVerdict = latestVerdict events) ?_ ?_ h
  · intro e s hc
    obtain ⟨raw, -, -, rfl⟩ := applyRunCreated_ok hc.state
    simp [latestVerdict, verdict, hc.kind]
  · intro events s e s' _ ih _ happ
    rw [latestVerdict_append, happ.verdict, ih]

/-- An event that makes a run succeed is a transition naming the acceptance gate. -/
theorem Applied.success (h : Applied s n e s') (hbefore : s.lifecycle ≠ .succeeded)
    (hafter : s'.lifecycle = .succeeded) :
    e.succeeds ∧ e.field "authority" = .str (py "acceptance_gate") ∧
      (s.lifecycle = .verifying ∨ s.lifecycle = .synthesizing) := by
  cases h with
  | @runTransition items target kind payload target_eq allowed authority =>
    obtain rfl : target = .succeeded := hafter
    refine ⟨⟨kind, by rw [AgentEvent.field_eq payload, target_eq]⟩,
      by rw [AgentEvent.field_eq payload, authority rfl], ?_⟩
    cases hl : s.lifecycle <;> simp [hl, runTransitions] at allowed ⊢
  | @budgetConsumed items =>
    dsimp only at hafter
    split_ifs at hafter
    exact absurd hafter hbefore
  | _ => exact absurd hafter hbefore

/-- The point of an accepted stream at which its run succeeded. -/
theorem success_point (h : replay runId events = .ok s) (hs : s.lifecycle = .succeeded) :
    ∃ pre e post s₀, events = pre ++ e :: post ∧ replay runId pre = .ok s₀ ∧
      s₀.lifecycle ≠ .succeeded ∧ e.succeeds ∧
      e.field "authority" = .str (py "acceptance_gate") ∧
      (s₀.lifecycle = .verifying ∨ s₀.lifecycle = .synthesizing) := by
  refine replay_induction (P := fun events s => s.lifecycle = .succeeded →
    ∃ pre e post s₀, events = pre ++ e :: post ∧ replay runId pre = .ok s₀ ∧
      s₀.lifecycle ≠ .succeeded ∧ e.succeeds ∧
      e.field "authority" = .str (py "acceptance_gate") ∧
      (s₀.lifecycle = .verifying ∨ s₀.lifecycle = .synthesizing)) ?_ ?_ h hs
  · intro e s hc hs
    obtain ⟨raw, -, -, rfl⟩ := applyRunCreated_ok hc.state
    exact absurd hs (by simp)
  · intro events s e s' hreplay ih _ happ hs
    by_cases hbefore : s.lifecycle = .succeeded
    · obtain ⟨pre, e', post, s₀, rfl, hrest⟩ := ih hbefore
      exact ⟨pre, e', post ++ [e], s₀, by simp, hrest⟩
    · obtain ⟨hsucc, hauth, hl⟩ := happ.success hbefore hs
      exact ⟨events, e, [], s, rfl, hreplay, hbefore, hsucc, hauth, hl⟩

/-- An accepted transition to SUCCEEDED, with the lifecycles around it. -/
theorem succeeds_lifecycles {pre post : List (AgentEvent F)} (he : e.succeeds)
    (h : replay runId (pre ++ e :: post) = .ok s) :
    ∃ s₀ s₁, replay runId pre = .ok s₀ ∧ replay runId (pre ++ [e]) = .ok s₁ ∧
      s₀.lifecycle ≠ .succeeded ∧ s₁.lifecycle = .succeeded := by
  obtain ⟨s₀, s₁, hs₀, hs₁, happ⟩ := replay_split (pre_ne_nil h (by simp [he.1])) h
  refine ⟨s₀, s₁, hs₀, hs₁, ?_⟩
  obtain ⟨hkind, htarget⟩ := he
  cases happ with
  | plainRecord kind | invocationRecord kind => simp [hkind] at kind
  | toolProposed kind | toolTransition kind | budgetConsumed kind | resultRecorded kind
  | dispatchStarted kind | acceptanceDecided kind => simp [hkind] at kind
  | @runTransition items target kind payload target_eq allowed authority =>
    rw [AgentEvent.field_eq payload, target_eq] at htarget
    have hvalue : target.value = AgentRunLifecycle.succeeded.value := by simpa using htarget
    obtain rfl : target = .succeeded := Option.some_inj.mp
      ((AgentRunLifecycle.ofValue_value target).symm.trans
        (hvalue ▸ AgentRunLifecycle.ofValue_value .succeeded))
    refine ⟨fun hl => ?_, rfl⟩
    rw [hl] at allowed
    exact absurd allowed (by simp [runTransitions])

/-- A run does not succeed again. -/
theorem succeeds_once {pre post pre' post' : List (AgentEvent F)} {e' : AgentEvent F}
    (h : replay runId (pre ++ e :: post) = .ok s) (he : e.succeeds) (he' : e'.succeeds)
    (heq : pre ++ e :: post = pre' ++ e' :: post') : ¬ pre.length < pre'.length := by
  intro hlt
  obtain ⟨s₀, s₁, hs₀, hs₁, -, hsucc⟩ := succeeds_lifecycles he h
  rw [heq] at h
  obtain ⟨t₀, t₁, ht₀, -, hnot, -⟩ := succeeds_lifecycles he' h
  -- the first transition lies within the part of the stream before the second one
  have hpre : pre ++ [e] <+: pre' := by
    have hleft : pre ++ [e] <+: pre ++ e :: post := ⟨post, by simp⟩
    have hright : pre' <+: pre ++ e :: post := ⟨e' :: post', heq.symm⟩
    refine List.prefix_of_prefix_length_le hleft hright ?_
    simpa using hlt
  obtain ⟨mid, rfl⟩ := hpre
  have hlife := terminal_stays hs₁ ht₀ (by rw [hsucc]; decide)
  exact hnot (hlife.trans hsucc)

/-- **A run succeeds by authority**: its stream holds exactly one transition to
SUCCEEDED, accepted from VERIFYING or SYNTHESIZING, and this one names the
acceptance gate; the replayed verdict is the one of the latest acceptance
decision, and every such decision names the gate as well. -/
theorem succeeded_by_authority (h : replay runId events = .ok s)
    (hs : s.lifecycle = .succeeded) :
    (∃ pre e post s₀, events = pre ++ e :: post ∧ e.succeeds ∧ replay runId pre = .ok s₀ ∧
      (s₀.lifecycle = .verifying ∨ s₀.lifecycle = .synthesizing) ∧
      e.field "authority" = .str (py "acceptance_gate") ∧
      ∀ pre' e' post', events = pre' ++ e' :: post' → e'.succeeds → pre' = pre) ∧
    (∀ e ∈ events, e.eventKind = .acceptanceDecided →
      e.field "authority" = .str (py "acceptance_gate")) ∧
    s.acceptanceVerdict = latestVerdict events := by
  refine ⟨?_, ?_, replay_verdict h⟩
  · obtain ⟨pre, e, post, s₀, rfl, hs₀, -, he, hauth, hl⟩ := success_point h hs
    refine ⟨pre, e, post, s₀, rfl, he, hs₀, hl, hauth, ?_⟩
    intro pre' e' post' heq he'
    have hle := succeeds_once h he he' heq
    have hge := succeeds_once (heq ▸ h) he' he heq.symm
    exact (List.append_inj_left heq (by omega)).symm
  · intro e hmem hkind
    obtain ⟨pre, post, rfl⟩ := List.append_of_mem hmem
    obtain ⟨s₀, s₁, -, -, happ⟩ := replay_split (pre_ne_nil h (by simp [hkind])) h
    cases happ with
    | plainRecord kind | invocationRecord kind => simp [hkind] at kind
    | runTransition kind | toolProposed kind | toolTransition kind | budgetConsumed kind
    | resultRecorded kind | dispatchStarted kind => simp [hkind] at kind
    | acceptanceDecided kind payload header haccepted authority =>
      rw [AgentEvent.field_eq payload, authority]

theorem toolStream_by_authority : ∃ s, replay (py "run-1") toolStream = .ok s ∧
    s.lifecycle = .succeeded ∧ s.acceptanceVerdict = latestVerdict toolStream := by
  obtain ⟨s, hs, hl⟩ := exists_of_lifecycle toolStream_replays
  exact ⟨s, hs, hl, (succeeded_by_authority hs hl).2.2⟩

/-- A run can succeed without any acceptance decision in its stream. -/
theorem success_without_verdict : ¬ ∀ (runId : PyStr) (events : List (AgentEvent Unit))
    (s : AgentRunState Unit), replay runId events = .ok s → s.lifecycle = .succeeded →
      ∃ pre e post, events = pre ++ e :: post ∧ e.succeeds ∧ latestVerdict pre = some true := by
  intro hall
  obtain ⟨s, hs, hl⟩ := exists_of_lifecycle toolStream_replays
  obtain ⟨pre, e, post, heq, -, hverdict⟩ := hall _ _ s hs hl
  have hnone : toolStream.all (fun e => (verdict e).isNone) = true := by decide +kernel
  have hpre : pre.filterMap verdict = [] := by
    refine List.filterMap_eq_nil_iff.mpr fun e he => ?_
    have hmem : e ∈ toolStream := heq ▸ List.mem_append_left _ he
    simpa using List.all_eq_true.mp hnone e hmem
  rw [latestVerdict, hpre] at hverdict
  exact absurd hverdict (by simp)

/-! ### Finished runs -/

/-- An event that starts a tool: the dispatch record, or the transition to DISPATCHED. -/
def AgentEvent.startsTool (e : AgentEvent F) : Prop :=
  e.eventKind = .dispatchStarted ∨
    (e.eventKind = .toolTransition ∧
      e.field "target" = .str ToolInvocationLifecycle.dispatched.value)

/-- The states of an invocation from which it can still be dispatched. -/
def dispatchable : List ToolInvocationLifecycle :=
  [.proposed, .needsResolution, .argsReady, .waitingApproval, .authorized]

/-- No invocation of the run can be dispatched any more. -/
def AgentRunState.Settled (s : AgentRunState F) : Prop :=
  ∀ id l, s.toolInvocations.get? id = some l → l ∉ dispatchable

theorem toolTransitions_settled {l target : ToolInvocationLifecycle} (h : l ∉ dispatchable)
    (ht : target ∈ toolTransitions l) : target ∉ dispatchable ∧ target ≠ .dispatched := by
  cases l <;> simp [dispatchable, toolTransitions] at h ht ⊢
  rcases ht with rfl | rfl | rfl | rfl <;> simp

/-- In a finished run without dispatchable invocations no event starts a tool
or makes an invocation dispatchable. -/
theorem Applied.settled (h : Applied s n e s') (hterm : s.lifecycle ∈ runTerminal)
    (hs : s.Settled) : s'.Settled ∧ ¬ e.startsTool := by
  cases h with
  | toolProposed kind payload _ _ _ waiting =>
    rw [waiting] at hterm
    exact absurd hterm (by decide)
  | @toolTransition items id current target kind payload hid current_eq target_eq allowed =>
    obtain ⟨hnot, hne⟩ := toolTransitions_settled (hs id current current_eq) allowed
    constructor
    · intro id' l hl
      rw [Dict.get?_set] at hl
      split_ifs at hl with heq
      · obtain rfl := Option.some_inj.mp hl
        exact hnot
      · exact hs id' l hl
    · rintro (hk | ⟨-, ht⟩)
      · simp [kind] at hk
      · rw [AgentEvent.field_eq payload, target_eq] at ht
        have hvalue : target.value = ToolInvocationLifecycle.dispatched.value := by simpa using ht
        exact hne (Option.some_inj.mp ((ToolInvocationLifecycle.ofValue_value target).symm.trans
          (hvalue ▸ ToolInvocationLifecycle.ofValue_value .dispatched)))
  | dispatchStarted kind payload header hid authorized fresh =>
    exact absurd (hs _ _ authorized) (by decide)
  | plainRecord kind =>
    refine ⟨hs, ?_⟩
    rcases kind with kind | kind | kind <;> simp [AgentEvent.startsTool, kind]
  | invocationRecord kind =>
    refine ⟨hs, ?_⟩
    rcases kind with kind | kind <;> simp [AgentEvent.startsTool, kind]
  | runTransition kind | budgetConsumed kind | resultRecorded kind | acceptanceDecided kind =>
    exact ⟨hs, by simp [AgentEvent.startsTool, kind]⟩

theorem settled_stays {pre post : List (AgentEvent F)} {s₀ : AgentRunState F}
    (h₀ : replay runId pre = .ok s₀) (hterm : s₀.lifecycle ∈ runTerminal) (hs : s₀.Settled)
    (h : replay runId (pre ++ post) = .ok s) : s.Settled := by
  induction post using List.reverseRecOn generalizing s with
  | nil =>
    rw [List.append_nil, h₀] at h
    exact Except.ok.inj h ▸ hs
  | append_singleton post e ih =>
    have hne : pre ++ post ≠ [] := List.append_ne_nil_of_left_ne_nil (replay_ne_nil h₀) _
    rw [← List.append_assoc] at h
    obtain ⟨s₁, hs₁, -, happ⟩ := (replay_concat hne).mp h
    have hlife := terminal_stays h₀ hs₁ hterm
    exact (happ.settled (hlife ▸ hterm) (ih hs₁)).1

theorem pos_of_mem_some {n : ℕ} (hn : 0 < n) : ∀ m ∈ some n, 0 < m :=
  fun _ h => Option.some_inj.mp h ▸ hn

/-- The event that takes an invocation to a lifecycle. -/
def transitionEvent (model : AgentEvent F) (id : PyStr) (target : ToolInvocationLifecycle)
    (n : ℕ) (hn : 0 < n) : AgentEvent F where
  eventId := model.eventId
  eventKind := .toolTransition
  payload := .dict [(py "invocation_id", .str id), (py "target", .str target.value)]
  occurredAtUtc := model.occurredAtUtc
  sequence := some n
  id_ok := model.id_ok
  payload_ok := rfl
  utc_ok := model.utc_ok
  sequence_ok := pos_of_mem_some hn

/-- An allowed transition of an invocation can be appended whatever the run does. -/
theorem replay_transitionEvent {id : PyStr} {l target : ToolInvocationLifecycle}
    (model : AgentEvent F) (h : replay runId events = .ok s)
    (hl : s.toolInvocations.get? id = some l) (ht : target ∈ toolTransitions l) :
    ∃ s', replay runId (events ++
        [transitionEvent model id target (events.length + 1) (Nat.succ_pos _)]) = .ok s' ∧
      s'.toolInvocations.get? id = some target := by
  refine ⟨_, (replay_concat (replay_ne_nil h)).mpr ⟨s, h, rfl,
    .toolTransition rfl rfl rfl hl rfl ht⟩, ?_⟩
  exact Dict.get?_set_self

/-- An event that starts a tool can follow the stream. -/
def CanStartTool (runId : PyStr) (events : List (AgentEvent F)) : Prop :=
  ∃ post e s', replay runId (events ++ post ++ [e]) = .ok s' ∧ e.startsTool

theorem CanStartTool.of_append {post : List (AgentEvent F)}
    (h : CanStartTool runId (events ++ post)) : CanStartTool runId events := by
  obtain ⟨post', e, s', hreplay, he⟩ := h
  exact ⟨post ++ post', e, s', by rwa [← List.append_assoc], he⟩

theorem canStartTool_step {id : PyStr} {l target : ToolInvocationLifecycle}
    (h : replay runId events = .ok s) (hl : s.toolInvocations.get? id = some l)
    (ht : target ∈ toolTransitions l)
    (hnext : ∀ (events : List (AgentEvent F)) s, replay runId events = .ok s →
      s.toolInvocations.get? id = some target → CanStartTool runId events) :
    CanStartTool runId events := by
  obtain ⟨first, rest, rfl⟩ := List.exists_cons_of_ne_nil (replay_ne_nil h)
  obtain ⟨s', hs', hl'⟩ := replay_transitionEvent first h hl ht
  exact (hnext _ s' hs' hl').of_append

/-- The way of a dispatchable invocation to its dispatch. -/
theorem canStartTool_of_dispatchable {id : PyStr} {l : ToolInvocationLifecycle}
    (hl : l ∈ dispatchable) : ∀ events s, replay runId events = .ok s →
      s.toolInvocations.get? id = some l → CanStartTool (F := F) runId events := by
  have hauthorized : ∀ events s, replay runId events = .ok s →
      s.toolInvocations.get? id = some .authorized → CanStartTool (F := F) runId events := by
    intro events s h hl
    obtain ⟨first, rest, rfl⟩ := List.exists_cons_of_ne_nil (replay_ne_nil h)
    have hdispatched : ToolInvocationLifecycle.dispatched ∈ toolTransitions .authorized := by decide
    obtain ⟨s', hs', -⟩ := replay_transitionEvent first h hl hdispatched
    exact ⟨[], _, s', by simpa using hs', .inr ⟨rfl, rfl⟩⟩
  have hready : ∀ events s, replay runId events = .ok s →
      s.toolInvocations.get? id = some .argsReady → CanStartTool (F := F) runId events :=
    fun events s h hl => canStartTool_step h hl (by decide) hauthorized
  intro events s h hstate
  simp only [dispatchable, List.mem_cons, List.not_mem_nil, or_false] at hl
  rcases hl with rfl | rfl | rfl | rfl | rfl
  · exact canStartTool_step h hstate (by decide) hready
  · exact canStartTool_step h hstate (by decide) hready
  · exact hready events s h hstate
  · exact canStartTool_step h hstate (by decide) hauthorized
  · exact hauthorized events s h hstate

/-- **A finished run starts no tool exactly when it ended settled**: no event
that starts a tool can follow, if and only if no invocation was on its way to
the dispatch when the run ended. -/
theorem finished_runs_start_nothing (h : replay runId events = .ok s)
    (hterm : s.lifecycle ∈ runTerminal) :
    (∀ post e s', replay runId (events ++ post ++ [e]) = .ok s' → ¬ e.startsTool) ↔
      s.Settled := by
  constructor
  · intro hnone id l hl hdisp
    obtain ⟨post, e, s', hreplay, he⟩ := canStartTool_of_dispatchable hdisp events s h hl
    exact hnone post e s' hreplay he
  · intro hsettled post e s' hreplay
    have hne : events ++ post ≠ [] := List.append_ne_nil_of_left_ne_nil (replay_ne_nil h) _
    obtain ⟨s₁, hs₁, -, happ⟩ := (replay_concat hne).mp hreplay
    have hlife := terminal_stays h hs₁ hterm
    exact (happ.settled (hlife ▸ hterm) (settled_stays h hterm hsettled hs₁)).2

/-- A run that is cancelled while an invocation is authorized. -/
def cancelledStream : List (AgentEvent Unit) :=
  toolStream.take 6 ++ sampleStream 7 [(.runTransition, [("target", sampleText "cancelled")])]

/-- The dispatch of that invocation. -/
def lateDispatch : AgentEvent Unit :=
  sampleEvent "e8" .dispatchStarted
    [("record_version", sampleText "h1.v1"), ("record_id", sampleText "r1"),
      ("invocation_id", sampleText "i1")] (some 8)

theorem toolStream_starts_nothing : ∃ s, replay (py "run-1") toolStream = .ok s ∧
    ((∀ post e s', replay (py "run-1") (toolStream ++ post ++ [e]) = .ok s' → ¬ e.startsTool) ↔
      s.Settled) := by
  obtain ⟨s, hs, hl⟩ := exists_of_lifecycle toolStream_replays
  exact ⟨s, hs, finished_runs_start_nothing hs (by rw [hl]; decide)⟩

/-- A tool can start after its run was cancelled. -/
theorem tool_starts_after_cancel : ¬ ∀ (runId : PyStr) (pre post : List (AgentEvent Unit))
    (e : AgentEvent Unit) (s s' : AgentRunState Unit), replay runId pre = .ok s →
      s.lifecycle ∈ runTerminal → replay runId (pre ++ post ++ [e]) = .ok s' →
        ¬ e.startsTool := by
  intro hall
  have hpre : ((replay (py "run-1") cancelledStream).toOption.map fun s => s.lifecycle)
      = some .cancelled := by decide +kernel
  have hpost : (replay (py "run-1") (cancelledStream ++ [] ++ [lateDispatch])).toBool = true := by
    decide +kernel
  have hkind : lateDispatch.eventKind = .dispatchStarted := by decide +kernel
  obtain ⟨s', hs'⟩ := exists_of_toBool hpost
  obtain ⟨s, hs, hl⟩ := exists_of_lifecycle hpre
  exact hall _ _ _ _ s s' hs (by rw [hl]; decide) hs' (.inl hkind)

end Agent
