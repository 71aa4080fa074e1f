/-
Sequences of turns.

* `World.opening` — a process starts on a store that any calls have written;
* `runTurn_extends`, `runTurns_induction` — what one call keeps, a sequence keeps;
* `effects_once` — the executor is entered once for an invocation, behind its
  dispatch, and recovery asks to reconcile what has no result;
* `success_needs_evidence` — a run succeeds on a verified result only.
-/
import LlamaRuntime.Agent.TurnContract

open Json

namespace Agent

variable {F : Type} [Host F]

/-! ### Where sequences start -/

/-- A process starts on a store; no transaction of another process is open. -/
def World.opening (appends : List (Call F)) : World F :=
  { db := { appendAll .empty appends with transaction := none }, completed := ∅, happened := [] }

theorem consistent_idle {log : List (Call F)} {db : Database F} (h : Represents log db) :
    Consistent { db with transaction := none } :=
  ⟨⟨log, h.rows, h.all, h.apart, h.replays, h.identifiers, h.versions, h.below⟩, fun _ => rfl⟩

theorem consistent_opening (appends : List (Call F)) :
    Consistent (World.opening appends).db := consistent_idle (appendAll_represents appends)

/-- A stream that is not empty replays. -/
theorem Consistent.replays {db : Database F} (h : Consistent db) {runId : PyStr}
    {events : List (AgentEvent F)} (hstream : db.stream runId = .ok events) (hne : events ≠ []) :
    ∃ s, replay runId events = .ok s := by
  obtain ⟨log, hlog⟩ := h.represented
  obtain ⟨hid, rfl⟩ := hlog.stream_eq hstream
  refine hlog.replays runId fun hnil => hne ?_
  rw [hnil]
  rfl

/-- The world in which a call begins. -/
def TurnCall.start (call : TurnCall F) (w : World F) : World F :=
  if call.restarted then w.restart else w

theorem TurnCall.start_stream (call : TurnCall F) (w : World F) (runId : PyStr) :
    (call.start w).db.stream runId = w.db.stream runId := by
  unfold TurnCall.start
  split_ifs <;> rfl

theorem TurnCall.start_happened (call : TurnCall F) (w : World F) :
    (call.start w).happened = w.happened := by
  unfold TurnCall.start
  split_ifs <;> rfl

theorem TurnCall.start_consistent (call : TurnCall F) {w : World F} (h : Consistent w.db) :
    Consistent (call.start w).db := by
  unfold TurnCall.start
  split_ifs
  · obtain ⟨log, hlog⟩ := h.represented
    exact consistent_idle hlog
  · exact h

/-- **What a call does to the world**: it adds a part of a turn to the stream of
its run. -/
theorem runTurn_extends {w : World F} (h : Consistent w.db) (call : TurnCall F) :
    (∃ stage entered, Extends (call.start w) call.turn.runId call.task.acceptance stage entered
      (runTurn w call).1) ∧
      ∀ r, (runTurn w call).2 = some (.ok r) →
        Ended (call.start w) call.turn.runId call.task.acceptance (runTurn w call).1 :=
  Service.executeTurn_contract (call.start_consistent h)

theorem runTurns_append (w : World F) (pre post : List (TurnCall F)) :
    runTurns w (pre ++ post) = runTurns (runTurns w pre) post := by
  induction pre generalizing w with
  | nil => rfl
  | cons call pre ih => exact ih _

/-- What holds at the start and is kept by every call holds after every sequence. -/
theorem runTurns_induction {P : List (TurnCall F) → World F → Prop} {w : World F}
    (start : P [] w)
    (step : ∀ calls call, P calls (runTurns w calls) →
      P (calls ++ [call]) (runTurn (runTurns w calls) call).1) (calls : List (TurnCall F)) :
    P calls (runTurns w calls) := by
  induction calls using List.reverseRecOn with
  | nil => exact start
  | append_singleton calls call ih =>
    rw [runTurns_append]
    exact step calls call ih

theorem runTurns_consistent {w : World F} (h : Consistent w.db) (calls : List (TurnCall F)) :
    Consistent (runTurns w calls).db := by
  refine runTurns_induction (P := fun _ w => Consistent w.db) h (fun calls call ih => ?_) calls
  obtain ⟨⟨stage, entered, hext⟩, -⟩ := runTurn_extends ih call
  exact hext.consistent

/-- `recover` of a run that replays answers by its state. -/
theorem Service.recover_eq (service : Service F) {w : World F} (h : Consistent w.db)
    {runId : PyStr} {s : AgentRunState F} (hs : w.db.runState runId = .ok s) (reply : Reply) :
    (service.recover runId).exec w [reply] = (w, some (.ok (recoverState s))) := by
  have hload : (w.db.load service.connection runId >>= replay runId) = .ok s := by
    rw [h.load_eq]
    exact hs
  exact Thread.exec_atomic hload

/-! ### Side effects -/

/-- The invocation for which the executor is entered. -/
def Happening.entered : Happening F → Option PyStr
  | .executing _ id => some id
  | _ => none

/-- Tool side effects are not repeated, whatever calls were made. -/
structure EffectsOnce (w : World F) : Prop where
  /-- The executor is entered once for an invocation at most. -/
  once : (w.happened.filterMap Happening.entered).Nodup
  /-- The dispatch is committed before. -/
  dispatched : ∀ pre runId id post, w.happened = pre ++ .executing runId id :: post →
    DispatchCommitted pre runId id
  /-- An invocation without a recorded result is to be reconciled. -/
  reconciled : ∀ runId id events, .executing runId id ∈ w.happened →
    w.db.stream runId = .ok events → id ∉ namedIn .resultRecorded events →
      ∀ (service : Service F) (reply : Reply),
        ((service.recover runId).exec w [reply]).2 = some (.ok .reconcileOnly)

/-- What was executed is dispatched in the stream of its run. -/
structure Executed (w : World F) : Prop where
  once : (w.happened.filterMap Happening.entered).Nodup
  dispatched : ∀ pre runId id post, w.happened = pre ++ .executing runId id :: post →
    DispatchCommitted pre runId id
  stored : ∀ runId id, .executing runId id ∈ w.happened →
    ∃ events, w.db.stream runId = .ok events ∧ id ∈ namedIn .dispatchStarted events

/-- A dispatched invocation was proposed. -/
theorem proposed_of_dispatched {runId : PyStr} {events : List (AgentEvent F)}
    {s : AgentRunState F} (h : replay runId events = .ok s) {id : PyStr}
    (hid : id ∈ namedIn .dispatchStarted events) : id ∈ namedIn .toolProposed events := by
  have hproposed : ∀ id ∈ s.toolInvocations.keys, id ∈ namedIn .toolProposed events := by
    refine replay_induction (P := fun events s => ∀ id ∈ s.toolInvocations.keys,
      id ∈ namedIn .toolProposed events) ?_ ?_ h
    · intro e s hc id hid
      obtain ⟨raw, -, -, rfl⟩ := applyRunCreated_ok hc.state
      exact absurd hid List.not_mem_nil
    · intro events s e s' _ ih _ happ id hid
      rw [namedIn_append]
      by_cases hkey : id ∈ s.toolInvocations.keys
      · exact List.mem_append_left _ (ih id hkey)
      · -- a new key was proposed by this event
        refine List.mem_append_right _ (Option.mem_toList.mpr ?_)
        cases happ with
        | @toolProposed items inv act digest kind payload invocation_eq =>
          obtain ⟨l, hl⟩ := Dict.mem_keys_iff.mp hid
          rw [Dict.get?_set] at hl
          split_ifs at hl with heq
          · rw [named, if_pos kind, AgentEvent.field_eq payload, invocation_eq, heq]
            rfl
          · exact absurd (Dict.mem_keys_iff.mpr ⟨l, hl⟩) hkey
        | @toolTransition items inv current target kind payload _ current_eq =>
          obtain ⟨l, hl⟩ := Dict.mem_keys_iff.mp hid
          rw [Dict.get?_set] at hl
          split_ifs at hl with heq
          · exact absurd (Dict.mem_keys_iff.mpr ⟨current, heq ▸ current_eq⟩) hkey
          · exact absurd (Dict.mem_keys_iff.mpr ⟨l, hl⟩) hkey
        | _ => exact absurd hid hkey
  refine hproposed id ((replay_known h).dispatched id ?_)
  rw [(dispatchesAgree h).dispatched]
  exact hid

theorem entered_eq_nil {happened : List (Happening F)}
    (h : ∀ runId id, .executing runId id ∉ happened) :
    happened.filterMap Happening.entered = [] := by
  refine List.filterMap_eq_nil_iff.mpr fun happening hmem => ?_
  cases happening with
  | executing runId id => exact absurd hmem (h runId id)
  | _ => rfl

/-- The executor is entered once in a turn at most. -/
theorem Chronicle.entered_once {start : World F} {runId : PyStr} {events : List (AgentEvent F)}
    {entered : Bool} {happened : List (Happening F)}
    (h : Chronicle start runId events entered happened) :
    (∀ runId id, .executing runId id ∉ happened) ∨
      ∃ pre id post, happened = pre ++ .executing runId id :: post ∧
        id ∈ namedIn .dispatchStarted events ∧ DispatchCommitted pre runId id ∧
        happened.filterMap Happening.entered = [id] := by
  by_cases hnone : ∀ runId id, .executing runId id ∉ happened
  · exact .inl hnone
  · simp only [not_forall, not_not] at hnone
    obtain ⟨runId', id, hmem⟩ := hnone
    obtain ⟨pre, post, rfl⟩ := List.append_of_mem hmem
    obtain ⟨rfl, hid, hcommitted, hpre⟩ := h.executing pre runId' id post rfl
    have hpost : ∀ runId'' id'', .executing runId'' id'' ∉ post := by
      intro runId'' id'' hmem''
      obtain ⟨pre', post', rfl⟩ := List.append_of_mem hmem''
      -- then the first execution stands before the second one
      have hsecond := h.executing (pre ++ .executing runId' id :: pre') runId'' id'' post' (by simp)
      exact hsecond.2.2.2 runId' id (by simp)
    refine .inr ⟨pre, id, post, rfl, hid, hcommitted, ?_⟩
    rw [List.filterMap_append, entered_eq_nil hpre, List.nil_append,
      List.filterMap_cons_some (by rfl), entered_eq_nil hpost]

theorem mem_entered {happened : List (Happening F)} {id : PyStr} :
    id ∈ happened.filterMap Happening.entered ↔ ∃ runId, .executing runId id ∈ happened := by
  constructor
  · intro h
    obtain ⟨happening, hmem, hentered⟩ := List.mem_filterMap.mp h
    cases happening with
    | executing runId id' =>
      obtain rfl := Option.some_inj.mp hentered
      exact ⟨runId, hmem⟩
    | _ => exact absurd hentered (by simp [Happening.entered])
  · rintro ⟨runId, hmem⟩
    exact List.mem_filterMap.mpr ⟨_, hmem, rfl⟩

/-- The stream of the run of a call, in the world after it. -/
theorem Extends.stream_ok {start w : World F} {runId : PyStr} {criteria : Dict PyStr PyStr}
    {stage : Stage} {entered : Bool} (h : Extends start runId criteria stage entered w) :
    ∃ events happened, Path criteria events stage ∧ w.happened = start.happened ++ happened ∧
      Chronicle start runId events entered happened ∧
      (∀ base, start.db.stream runId = .ok base → w.db.stream runId = .ok (base ++ events)) ∧
      (events ≠ [] → start.Decides runId) := by
  obtain ⟨-, -, hbegun, events, happened, hpath, hturn, hhap, hchron⟩ := h
  refine ⟨events, happened, hpath, hhap, hchron, fun base hbase => ?_, fun hne => ?_⟩
  · rw [hturn, hbase]
    rfl
  · rcases hbegun with rfl | hdecides
    · exact absurd hpath.eq_nil hne
    · exact hdecides

theorem World.Decides.stream_ok {w : World F} {runId : PyStr} (h : w.Decides runId) :
    ∃ base, w.db.stream runId = .ok base :=
  let ⟨_, hs, _⟩ := h
  let ⟨base, hbase, _⟩ := runState_ok.mp hs
  ⟨base, hbase⟩

/-- **What was executed stays dispatched**, and no call executes it again. -/
theorem Executed.extend {w w' start : World F} {runId : PyStr} {criteria : Dict PyStr PyStr}
    {stage : Stage} {entered : Bool} (h : Executed w)
    (hext : Extends start runId criteria stage entered w')
    (hstream : ∀ runId, start.db.stream runId = w.db.stream runId)
    (hhap : start.happened = w.happened) : Executed w' := by
  obtain ⟨events, new, hpath, hnew, hchron, hown, hbegun⟩ := hext.stream_ok
  rw [hhap] at hnew
  have hown : ∀ base, w.db.stream runId = .ok base → w'.db.stream runId = .ok (base ++ events) :=
    fun base hbase => hown base ((hstream runId).trans hbase)
  -- what was executed before is dispatched in a stream that has grown, if at all
  have hgrown : ∀ runId' id, .executing runId' id ∈ w.happened →
      ∃ base more, w.db.stream runId' = .ok base ∧ id ∈ namedIn .dispatchStarted base ∧
        w'.db.stream runId' = .ok (base ++ more) := by
    intro runId' id hmem
    obtain ⟨base, hbase, hid⟩ := h.stored runId' id hmem
    by_cases hrun : runId' = runId
    · subst hrun
      exact ⟨base, events, hbase, hid, hown base hbase⟩
    · refine ⟨base, [], hbase, hid, ?_⟩
      rw [hext.others runId' hrun, hstream, hbase, List.append_nil]
  refine ⟨?_, fun pre runId' id post heq => ?_, fun runId' id hmem => ?_⟩
  · rw [hnew, List.filterMap_append]
    rcases hchron.entered_once with hnone | ⟨pre, id, post, -, hid, -, hone⟩
    · rw [entered_eq_nil hnone, List.append_nil]
      exact h.once
    · rw [hone]
      refine List.nodup_append.mpr ⟨h.once, List.nodup_singleton id, fun id' hid' b hb heq => ?_⟩
      obtain rfl := List.mem_singleton.mp hb
      obtain rfl := heq
      -- an earlier execution is dispatched in this stream too, or in that of another run
      obtain ⟨runId', hmem⟩ := mem_entered.mp hid'
      obtain ⟨base', more, hbase', hearlier, hmore⟩ := hgrown runId' id' hmem
      have hne : events ≠ [] := by
        rintro rfl
        exact absurd hid List.not_mem_nil
      obtain ⟨base, hbase⟩ := (hbegun hne).stream_ok
      have hafter := hown base ((hstream runId).symm.trans hbase)
      obtain ⟨s, hs⟩ := hext.consistent.replays hafter (List.append_ne_nil_of_right_ne_nil _ hne)
      obtain ⟨s', hs'⟩ := hext.consistent.replays hmore (by
        rintro hnil
        rw [(List.append_eq_nil_iff.mp hnil).1] at hearlier
        exact absurd hearlier List.not_mem_nil)
      have hnew' : id' ∈ namedIn .dispatchStarted (base ++ events) := by
        rw [namedIn, List.filterMap_append]
        exact List.mem_append_right _ hid
      obtain rfl := proposals_apart hext.consistent hmore hafter
        (proposed_of_dispatched hs' (mem_namedIn_append hearlier more))
        (proposed_of_dispatched hs hnew')
      obtain rfl := Except.ok.inj (hbase'.symm.trans ((hstream runId').symm.trans hbase))
      have hnodup := (dispatchesAgree hs).dispatched ▸ (dispatchesAgree hs).dispatched_once
      rw [namedIn, List.filterMap_append] at hnodup
      exact (List.nodup_append.mp hnodup).2.2 id' hearlier id' hid rfl
  · rw [hnew] at heq
    rcases List.append_eq_append_iff.mp heq with ⟨more, rfl, hmore⟩ | ⟨more, hw, hmore⟩
    · obtain ⟨rfl, -, hcommitted, -⟩ := hchron.executing more runId' id post hmore
      exact hcommitted.prepend _
    · cases more with
      | nil =>
        rw [List.append_nil] at hw
        obtain ⟨rfl, -, hcommitted, -⟩ := hchron.executing [] runId' id post hmore.symm
        have hprepended := hcommitted.prepend w.happened
        rw [List.append_nil] at hprepended
        exact hw ▸ hprepended
      | cons happening more =>
        obtain ⟨rfl, -⟩ := List.cons.inj hmore
        exact h.dispatched pre runId' id more hw
  · rw [hnew] at hmem
    rcases List.mem_append.mp hmem with hmem | hmem
    · obtain ⟨base, more, -, hid, hmore⟩ := hgrown runId' id hmem
      exact ⟨base ++ more, hmore, mem_namedIn_append hid more⟩
    · obtain ⟨pre, post, rfl⟩ := List.append_of_mem hmem
      obtain ⟨rfl, hid, -⟩ := hchron.executing pre runId' id post rfl
      have hne : events ≠ [] := by
        rintro rfl
        exact absurd hid List.not_mem_nil
      obtain ⟨base, hbase⟩ := (hbegun hne).stream_ok
      refine ⟨base ++ events, hown base ((hstream runId').symm.trans hbase), ?_⟩
      rw [namedIn, List.filterMap_append]
      exact List.mem_append_right _ hid

theorem runTurns_executed (appends : List (Call F)) (calls : List (TurnCall F)) :
    Executed (runTurns (World.opening appends) calls) := by
  refine runTurns_induction (P := fun _ w => Executed w) ?_ (fun calls call ih => ?_) calls
  · exact ⟨List.nodup_nil, fun pre _ _ _ h => absurd h (by simp [World.opening]),
      fun _ _ h => absurd h List.not_mem_nil⟩
  · have hconsistent := runTurns_consistent (consistent_opening appends) calls
    obtain ⟨⟨stage, entered, hext⟩, -⟩ := runTurn_extends hconsistent call
    exact ih.extend hext (call.start_stream _) (call.start_happened _)

/-- **Tool side effects are never repeated.**  After any calls of `execute_turn`,
on any runs and each cut anywhere, the executor was entered once for an
invocation at most and behind its committed dispatch; if the result of an
invocation it was entered for is not recorded, recovery is to reconcile. -/
theorem effects_once (appends : List (Call F)) (calls : List (TurnCall F)) :
    EffectsOnce (runTurns (World.opening appends) calls) := by
  have h := runTurns_executed appends calls
  have hconsistent := runTurns_consistent (consistent_opening appends) calls
  refine ⟨h.once, h.dispatched, fun runId id events hmem hstream hresult service reply => ?_⟩
  obtain ⟨events', hevents, hid⟩ := h.stored runId id hmem
  obtain rfl := Except.ok.inj (hstream.symm.trans hevents)
  have hne : events ≠ [] := by
    rintro rfl
    exact absurd hid List.not_mem_nil
  obtain ⟨s, hs⟩ := hconsistent.replays hstream hne
  have hagree := dispatchesAgree hs
  have hpending : ∃ id ∈ s.dispatchedInvocations, id ∉ s.terminalResults :=
    ⟨id, hagree.dispatched ▸ hid, hagree.results ▸ hresult⟩
  have hrecover : recoverState s = .reconcileOnly := if_pos hpending
  rw [service.recover_eq hconsistent (runState_ok.mpr ⟨events, hstream, hs⟩) reply, hrecover]

/-! ### Success -/

/-- A run that was not successful at the start succeeds on a verified result only. -/
def SuccessNeedsEvidence (start : World F) (calls : List (TurnCall F)) (runId : PyStr) : Prop :=
  (∀ s, start.db.runState runId = .ok s → s.lifecycle ≠ .succeeded) →
    ∀ events s, (runTurns start calls).db.stream runId = .ok events →
      replay runId events = .ok s → s.lifecycle = .succeeded →
        ∃ call ∈ calls, call.turn.runId = runId ∧ Evidence call.task.acceptance events

theorem mem_namedIn_prepend {kind : EventKind} {id : PyStr} {events : List (AgentEvent F)}
    (h : id ∈ namedIn kind events) (base : List (AgentEvent F)) :
    id ∈ namedIn kind (base ++ events) := by
  rw [namedIn, List.filterMap_append]
  exact List.mem_append_right _ h

theorem Evidence.prepend {criteria : Dict PyStr PyStr} {events : List (AgentEvent F)}
    (h : Evidence criteria events) (base : List (AgentEvent F)) :
    Evidence criteria (base ++ events) := by
  obtain ⟨id, hash, hproposed, ⟨recorded, hrecorded, hresult⟩, ⟨decided, hdecided, hverdict⟩,
    hcriterion⟩ := h
  exact ⟨id, hash, mem_namedIn_prepend hproposed base,
    ⟨recorded, List.mem_append_right base hrecorded, hresult⟩,
    ⟨decided, List.mem_append_right base hdecided, hverdict⟩, hcriterion⟩

/-- A stage with a successful run is the end of a turn. -/
theorem Path.succeeded {criteria : Dict PyStr PyStr} {events : List (AgentEvent F)} {stage : Stage}
    (path : Path criteria events stage) (h : stage.lifecycle = .succeeded) :
    Evidence criteria events := by
  have htold := path.told
  cases stage with
  | ended lifecycle => exact htold h
  | outcome id result phase => cases phase <;> exact absurd h (by simp [Stage.lifecycle,
      OutcomePhase.lifecycle])
  | _ => exact absurd h (by simp [Stage.lifecycle])

/-- The state of a run after a call that added events to it. -/
theorem Extends.agrees {start w : World F} {runId : PyStr} {criteria : Dict PyStr PyStr}
    {stage : Stage} {entered : Bool} (h : Extends start runId criteria stage entered w) :
    w.db.stream runId = start.db.stream runId ∧ stage = .idle ∨
      ∃ base events s₀, start.db.stream runId = .ok base ∧ replay runId base = .ok s₀ ∧
        s₀.lifecycle = .deciding ∧ w.db.stream runId = .ok (base ++ events) ∧
        Path criteria events stage ∧
        ∀ s, w.db.runState runId = .ok s → Agrees s₀.Pending stage s := by
  rcases h.begun with rfl | ⟨s₀, hs₀, hdeciding⟩
  · exact .inl ⟨h.stream_eq, rfl⟩
  · obtain ⟨events, -, hpath, -, -, hown, -⟩ := h.stream_ok
    obtain ⟨base, hbase, hreplay⟩ := runState_ok.mp hs₀
    refine .inr ⟨base, events, s₀, hbase, hreplay, hdeciding, hown base hbase, hpath,
      fun s hs => ?_⟩
    obtain ⟨events', hevents', hs⟩ := runState_ok.mp hs
    obtain rfl := Except.ok.inj ((hown base hbase).symm.trans hevents')
    exact hpath.agrees hreplay hdeciding hs

/-- **Success rests on tool evidence.** -/
theorem success_needs_evidence (appends : List (Call F)) (calls : List (TurnCall F))
    (runId : PyStr) : SuccessNeedsEvidence (World.opening appends) calls runId := by
  intro hstart
  refine runTurns_induction (P := fun calls w => ∀ events s, w.db.stream runId = .ok events →
    replay runId events = .ok s → s.lifecycle = .succeeded →
      ∃ call ∈ calls, call.turn.runId = runId ∧ Evidence call.task.acceptance events) ?_ ?_ calls
  · intro events s hevents hs hsucceeded
    exact absurd hsucceeded (hstart s (runState_ok.mpr ⟨events, hevents, hs⟩))
  · intro calls call ih events s hevents hs hsucceeded
    have hearlier (h : (runTurns (World.opening appends) calls).db.stream runId = .ok events) :
        ∃ c ∈ calls ++ [call], c.turn.runId = runId ∧ Evidence c.task.acceptance events := by
      obtain ⟨c, hc, hrest⟩ := ih events s h hs hsucceeded
      exact ⟨c, List.mem_append_left _ hc, hrest⟩
    have hconsistent := runTurns_consistent (consistent_opening appends) calls
    obtain ⟨⟨stage, entered, hext⟩, -⟩ := runTurn_extends hconsistent call
    by_cases hrun : call.turn.runId = runId
    · subst hrun
      rcases hext.agrees with ⟨hsame, -⟩ | ⟨base, new, s₀, -, -, -, hafter, hpath, hagrees⟩
      · rw [hsame, call.start_stream] at hevents
        exact hearlier hevents
      · obtain rfl := Except.ok.inj (hafter.symm.trans hevents)
        have hlife := (hagrees s (runState_ok.mpr ⟨_, hafter, hs⟩)).lifecycle
        exact ⟨call, List.mem_append_right _ (List.mem_singleton_self call), rfl,
          (hpath.succeeded (hlife.symm.trans hsucceeded)).prepend base⟩
    · rw [hext.others runId (Ne.symm hrun), call.start_stream] at hevents
      exact hearlier hevents

/-! ### A sample service -/

def sampleRevision : ToolRevision Unit where
  version := py "1"
  semanticSchema := []
  nativeInputSchema := []
  nativeOutputSchema := []
  compilerRevision := py "c"
  effectClass := .readOnly
  permissionPolicyId := py "p"
  scopePolicyId := py "s"
  defaultFlowPolicy := .verifyThenReplan
  timeoutMs := 1
  resultByteCap := 1
  resultTokenCap := 1
  retryScope := .never
  ids_ok := by decide
  caps_ok := by decide

def sampleTool : ToolDefinition Unit where
  toolId := py "read_file"
  revision := sampleRevision
  description := py "d"
  id_ok := by decide
  description_ok := by decide

def sampleCatalog : Catalog Unit where
  tools := [sampleTool]
  nodup := by decide
  bytes := (catalogBytes [sampleTool]).toOption.getD []
  bytes_ok := by decide +kernel

def sampleService : Service Unit where
  connection := 0
  catalog := sampleCatalog
  compilerCatalog := sampleCatalog
  adapters := Dict.empty.set (py "read_file") (.readFile [py "a"])
  resultByteCap := 100
  observationByteCap := 100
  resultByteCap_pos := by decide

/-- The answers of a model that asks for the file, at a cost. -/
def sampleAnswer (tokens : ℤ) : DecisionResponse where
  output := .text (py "\x7b\"action\":\"call_tool\",\"tool_id\":\"read_file\",\"objective\":\"o\",\"input_hint\":\"h\",\"message\":null\x7d")
  inputTokens := tokens
  outputTokens := 0
  inferenceMs := 0

def sampleReply (tokens : ℤ) : Reply where
  lockTaken := false
  utcNow := sampleTime
  deadlinePassed := .ok false
  inference := .ok (some (sampleAnswer tokens))
  resolved := .ok (py "p")
  cancelled := false
  timedOut := false
  content := .ok []
  paths := .ok []
  entry := .other
  artifact := .ok ()

def sampleTask : AtomicTask Unit where
  objective := py "o"
  acceptanceCriteria := []
  stateRefs := ∅
  bindings := Dict.empty.set (py "h") (.str (py "a"))
  acceptance := ∅

def sampleTurn : TurnContext := ⟨py "r", py "t", py "q", py "a", none⟩

/-- A run is created with five of everything, and is deciding. -/
def sampleOpening : List (Call Unit) :=
  [{ connection := 0
     lockTaken := false
     runId := py "r"
     expectedVersion := 0
     events := [sampleEvent "e1" .runCreated (sampleBudgets 5) none,
       sampleEvent "e2" .runTransition [("target", sampleText "deciding")] none] }]

end Agent
