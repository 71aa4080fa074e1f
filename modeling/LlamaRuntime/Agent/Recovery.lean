/-
What recovery finds.

* `movesOf`, `LeftMidway` — the transitions of a turn, and the turns that were
  left where nothing is in flight and the run has not come to rest;
* `Path.traced` — the events of a turn at each stage;
* `recovery_exact` — recovery takes a run for one at rest wrongly exactly if a
  call on it was left midway.
-/
import LlamaRuntime.Agent.TurnRuns

open Json

namespace Agent

variable {F : Type} [Host F]

/-! ### The transitions of a turn -/

/-- The lifecycle an event moves its run to. -/
def moveOf (e : AgentEvent F) : Option AgentRunLifecycle :=
  if e.eventKind = .runTransition then (e.field "target").str?.bind AgentRunLifecycle.ofValue
  else none

def movesOf (events : List (AgentEvent F)) : List AgentRunLifecycle := events.filterMap moveOf

/-- Where a turn that called a tool may come to rest. -/
def restingPlaces : List AgentRunLifecycle := [.deciding, .paused, .blocked, .succeeded]

/-- The run was moved to `waiting_tool`, and the turn ended before the dispatch
of its call, or behind the result and before it came to rest. -/
def LeftMidway (events : List (AgentEvent F)) : Prop :=
  .waitingTool ∈ movesOf events ∧
    (namedIn .dispatchStarted events = [] ∨
      namedIn .resultRecorded events ≠ [] ∧ ∀ l ∈ movesOf events, l ∉ restingPlaces)

namespace Stage

/-- The stages at which a turn is left midway. -/
def midway : Stage → Bool
  | waiting | outcome .. => true
  | call _ phase => !phase.begun
  | _ => false

/-- The transitions of the run up to a stage; the last one is left out. -/
def moves : Stage → List AgentRunLifecycle
  | waiting | call .. => [.waitingTool]
  | outcome _ _ .recorded | outcome _ _ .closed => [.waitingTool]
  | outcome _ _ .observing | outcome _ _ .directed => [.waitingTool, .observing]
  | outcome _ _ .verifying | outcome _ _ (.judged _) => [.waitingTool, .observing, .verifying]
  | _ => []

/-- The invocations that were dispatched, and those with a result. -/
def dispatches : Stage → List PyStr
  | call id phase => if phase.begun then [id] else []
  | outcome id _ _ => [id]
  | _ => []

def results : Stage → List PyStr
  | outcome id _ _ => [id]
  | _ => []

end Stage

/-- What the events of a turn are about, at a stage. -/
def Traced (events : List (AgentEvent F)) : Stage → Prop
  | .ended l =>
    (movesOf events = [l] ∧ (l = .waitingUser ∨ l = .blocked)) ∨
      (namedIn .dispatchStarted events ≠ [] ∧ l ∈ movesOf events ∧ l ∈ restingPlaces)
  | stage => movesOf events = stage.moves ∧ namedIn .dispatchStarted events = stage.dispatches ∧
      namedIn .resultRecorded events = stage.results

variable {criteria : Dict PyStr PyStr} {events : List (AgentEvent F)} {stage stage' : Stage}

theorem movesOf_append (pre post : List (AgentEvent F)) :
    movesOf (pre ++ post) = movesOf pre ++ movesOf post := by
  rw [movesOf, List.filterMap_append]
  rfl

theorem moveOf_moves {e : AgentEvent F} {l : AgentRunLifecycle} (event : e.Moves l) :
    movesOf [e] = [l] ∧ namedIn .dispatchStarted [e] = [] ∧ namedIn .resultRecorded [e] = [] := by
  have htarget : e.field "target" = .str l.value := event.field (by simp)
  refine ⟨?_, by simp [namedIn, named, event.1], by simp [namedIn, named, event.1]⟩
  simp [movesOf, moveOf, event.1, htarget, Value.str?, AgentRunLifecycle.ofValue_value]

/-- An event that is about none of these. -/
theorem traced_other {e : AgentEvent F} (hmove : e.eventKind ≠ .runTransition)
    (hdispatch : e.eventKind ≠ .dispatchStarted) (hresult : e.eventKind ≠ .resultRecorded) :
    movesOf [e] = [] ∧ namedIn .dispatchStarted [e] = [] ∧ namedIn .resultRecorded [e] = [] := by
  refine ⟨?_, ?_, ?_⟩
  · simp [movesOf, moveOf, hmove]
  · simp [namedIn, named, hdispatch]
  · simp [namedIn, named, hresult]

theorem namedIn_append_list (kind : EventKind) (pre post : List (AgentEvent F)) :
    namedIn kind (pre ++ post) = namedIn kind pre ++ namedIn kind post := by
  rw [namedIn, List.filterMap_append]
  rfl

/-- The events of a stage that is not the last one, with one more event. -/
theorem traced_step {e : AgentEvent F} {moves : List AgentRunLifecycle} {ids ids' : List PyStr}
    {m : List AgentRunLifecycle} {d r : List PyStr}
    (h : movesOf events = moves ∧ namedIn .dispatchStarted events = ids ∧
      namedIn .resultRecorded events = ids')
    (he : movesOf [e] = m ∧ namedIn .dispatchStarted [e] = d ∧ namedIn .resultRecorded [e] = r) :
    movesOf (events ++ [e]) = moves ++ m ∧ namedIn .dispatchStarted (events ++ [e]) = ids ++ d ∧
      namedIn .resultRecorded (events ++ [e]) = ids' ++ r := by
  rw [movesOf_append, namedIn_append_list, namedIn_append_list, h.1, h.2.1, h.2.2, he.1, he.2.1,
    he.2.2]
  exact ⟨rfl, rfl, rfl⟩

theorem Path.traced (path : Path criteria events stage) : Traced events stage := by
  induction path with
  | nil => exact ⟨rfl, rfl, rfl⟩
  | @snoc events e stage stage' path next ih =>
    cases next with
    | infer event | payTurn event | payTokens _ event | payTime _ event | decide event
    | refuse event | propose event | compile event | prepare event | check event | forbid _ event
    | allow event | charge event | enter event | attempt event | close event | direct event
    | judge event =>
      have hother := traced_other (e := e) (by simp [event.1]) (by simp [event.1])
        (by simp [event.1])
      simpa [Traced, Stage.moves, Stage.dispatches, Stage.results, CallPhase.begun] using
        traced_step ih hother
    | wait event | observe event | verify _ event =>
      simpa [Traced, Stage.moves, Stage.dispatches, Stage.results] using
        traced_step ih (moveOf_moves event)
    | stop event target_ok =>
      refine .inl ⟨?_, target_ok⟩
      simpa [Stage.moves] using (traced_step ih (moveOf_moves event)).1
    | block event =>
      refine .inl ⟨?_, .inr rfl⟩
      simpa [Stage.moves] using (traced_step ih (moveOf_moves event)).1
    | @dispatch id event =>
      have hid : e.field "invocation_id" = .str id := event.field (by simp)
      have hdispatch : movesOf [e] = [] ∧ namedIn .dispatchStarted [e] = [id] ∧
          namedIn .resultRecorded [e] = [] := by
        refine ⟨by simp [movesOf, moveOf, event.1], ?_, by simp [namedIn, named, event.1]⟩
        simp [namedIn, named, event.1, hid, Value.str?]
      simpa [Traced, Stage.moves, Stage.dispatches, Stage.results, CallPhase.begun] using
        traced_step ih hdispatch
    | @record id result event =>
      have hid : e.field "invocation_id" = .str id := event.field (by simp)
      have hresult : movesOf [e] = [] ∧ namedIn .dispatchStarted [e] = [] ∧
          namedIn .resultRecorded [e] = [id] := by
        refine ⟨by simp [movesOf, moveOf, event.1], by simp [namedIn, named, event.1], ?_⟩
        simp [namedIn, named, event.1, hid, Value.str?]
      simpa [Traced, Stage.moves, Stage.dispatches, Stage.results, CallPhase.begun] using
        traced_step ih hresult
    | @leave id result flow event =>
      have hstep := traced_step ih (moveOf_moves event)
      refine .inr ⟨by simp [hstep.2.1, Stage.dispatches], by simp [hstep.1], ?_⟩
      unfold decideFlow at flow ⊢
      split_ifs at flow ⊢
      · exact List.mem_cons_of_mem _ List.mem_cons_self
      · exact List.mem_cons_self
      · exact absurd rfl flow
    | @conclude id result accepted event =>
      have hstep := traced_step ih (moveOf_moves event)
      refine .inr ⟨by simp [hstep.2.1, Stage.dispatches], by simp [hstep.1], ?_⟩
      cases accepted <;> simp [restingPlaces]

/-- **A turn is left midway at these stages.** -/
theorem Path.leftMidway (path : Path criteria events stage) :
    LeftMidway events ↔ stage.midway = true := by
  have htraced := path.traced
  cases stage with
  | idle | inferred | paying | decided | refused =>
    simp [LeftMidway, htraced.1, Stage.moves, Stage.midway]
  | waiting =>
    simp [LeftMidway, htraced.1, htraced.2.1, Stage.moves, Stage.midway, Stage.dispatches]
  | call id phase =>
    obtain ⟨hmoves, hdispatches, hresults⟩ := htraced
    cases hbegun : phase.begun <;>
      simp [LeftMidway, hmoves, hdispatches, hresults, Stage.moves, Stage.midway,
        Stage.dispatches, Stage.results, hbegun]
  | outcome id result phase =>
    obtain ⟨hmoves, hdispatches, hresults⟩ := htraced
    cases phase <;>
      simp [LeftMidway, hmoves, hdispatches, hresults, Stage.moves, Stage.midway,
        Stage.dispatches, Stage.results, restingPlaces]
  | ended l =>
    have hnot : ¬ LeftMidway events := by
      rintro ⟨hwaiting, hleft⟩
      rcases htraced with ⟨hmoves, hl⟩ | ⟨hdispatched, hl, hresting⟩
      · rw [hmoves, List.mem_singleton] at hwaiting
        rcases hl with rfl | rfl <;> exact absurd hwaiting (by simp)
      · rcases hleft with hnone | ⟨-, hleft⟩
        · exact hdispatched hnone
        · exact hleft l hl hresting
    simp [hnot, Stage.midway]

/-! ### The answer of recovery -/

/-- Where a run is at rest. -/
def atRest : List AgentRunLifecycle := runTerminal ++ [.paused, .waitingUser]

/-- Recovery takes a run for one at rest only if it is. -/
def RecoveryExact (w : World F) (runId : PyStr) : Prop :=
  ∀ (service : Service F) (reply : Reply),
    ((service.recover runId).exec w [reply]).2 = some (.ok .terminalOrPaused) →
      ∃ s, w.db.runState runId = .ok s ∧ s.lifecycle ∈ atRest

/-- The events of a call leave its turn midway. -/
def LeavesMidway (w : World F) (call : TurnCall F) : Prop :=
  ∃ base events, w.db.stream call.turn.runId = .ok base ∧
    (runTurn w call).1.db.stream call.turn.runId = .ok (base ++ events) ∧ LeftMidway events

/-- The run is created and at most moved to `deciding`, as a run is before its first turn. -/
def Opened (w : World F) (runId : PyStr) : Prop :=
  ∀ events, w.db.stream runId = .ok events → ∀ e ∈ events, e.eventKind = .runCreated ∨ e.Moves .deciding

/-- Nothing is in flight, and the run is not at rest. -/
structure Stuck (s : AgentRunState F) : Prop where
  settled : ∀ id, ¬ s.Pending id
  lifecycle : s.lifecycle ∈ [AgentRunLifecycle.waitingTool, .observing, .verifying]

/-- Something is in flight, or the run is where a turn may begin or has come to rest. -/
inductive Calm (s : AgentRunState F) : Prop
  | pending {id : PyStr} (pending : s.Pending id) (lifecycle : s.lifecycle = .waitingTool)
  | settled (settled : ∀ id, ¬ s.Pending id)
    (lifecycle : s.lifecycle ∈ AgentRunLifecycle.ready :: .waitingUser :: restingPlaces)

omit [Host F] in
theorem recoverState_stuck {s : AgentRunState F} (h : Stuck s) :
    recoverState s = .terminalOrPaused ∧ s.lifecycle ∉ atRest := by
  have hnone : ¬ ∃ id ∈ s.dispatchedInvocations, id ∉ s.terminalResults :=
    fun ⟨id, hid, hresult⟩ => h.settled id ⟨hid, hresult⟩
  have hlife := h.lifecycle
  simp only [List.mem_cons, List.not_mem_nil, or_false] at hlife
  rw [recoverState, if_neg hnone]
  rcases hlife with hl | hl | hl <;> rw [hl] <;> decide

omit [Host F] in
theorem recoverState_calm {s : AgentRunState F} (h : Calm s)
    (hrecover : recoverState s = .terminalOrPaused) : s.lifecycle ∈ atRest := by
  cases h with
  | @pending id pending =>
    rw [recoverState, if_pos ⟨id, pending⟩] at hrecover
    exact absurd hrecover (by decide)
  | settled settled lifecycle =>
    have hnone : ¬ ∃ id ∈ s.dispatchedInvocations, id ∉ s.terminalResults :=
      fun ⟨id, hid, hresult⟩ => settled id ⟨hid, hresult⟩
    rw [recoverState, if_neg hnone] at hrecover
    revert hrecover lifecycle
    generalize s.lifecycle = l
    cases l <;> decide

theorem Path.calm {events : List (AgentEvent F)} {before : PyStr → Prop} {s : AgentRunState F}
    (path : Path criteria events stage) (h : Agrees before stage s) (hbefore : ∀ id, ¬ before id) :
    (LeftMidway events → Stuck s) ∧ (¬ LeftMidway events → Calm s) := by
  rw [path.leftMidway]
  have hsettled : stage.inFlight = none → ∀ id, ¬ s.Pending id := by
    intro hnone id hid
    rcases h.pending id hid with hflight | hearlier
    · rw [hnone] at hflight
      exact absurd hflight (by simp)
    · exact hbefore id hearlier
  have hlife := h.lifecycle
  cases stage with
  | idle | inferred | paying | decided | refused =>
    exact ⟨fun hm => absurd hm (by simp [Stage.midway]), fun _ =>
      .settled (hsettled rfl) (by rw [hlife]; simp [Stage.lifecycle, restingPlaces])⟩
  | waiting =>
    exact ⟨fun _ => ⟨hsettled rfl, by rw [hlife]; simp [Stage.lifecycle]⟩,
      fun hm => absurd rfl hm⟩
  | call id phase =>
    cases hbegun : phase.begun with
    | false =>
      refine ⟨fun _ => ⟨hsettled (by simp [Stage.inFlight, hbegun]), ?_⟩,
        fun hm => absurd (by simp [Stage.midway, hbegun]) hm⟩
      rw [hlife]
      simp [Stage.lifecycle]
    | true =>
      refine ⟨fun hm => absurd hm (by simp [Stage.midway, hbegun]), fun _ => ?_⟩
      exact .pending (h.inFlight id (by simp [Stage.inFlight, hbegun])) hlife
  | outcome id result phase =>
    refine ⟨fun _ => ⟨hsettled rfl, ?_⟩, fun hm => absurd rfl hm⟩
    rw [hlife]
    cases phase <;> simp [Stage.lifecycle, OutcomePhase.lifecycle]
  | ended l =>
    refine ⟨fun hm => absurd hm (by simp [Stage.midway]), fun _ => .settled (hsettled rfl) ?_⟩
    rw [hlife]
    rcases path.traced with ⟨-, rfl | rfl⟩ | ⟨-, -, hl⟩
    · simp [Stage.lifecycle]
    · simp [Stage.lifecycle, restingPlaces]
    · exact List.mem_cons_of_mem _ (List.mem_cons_of_mem _ hl)

/-! ### Runs -/

theorem Opened.calm {w : World F} {runId : PyStr} (h : Opened w runId) {s : AgentRunState F}
    (hs : w.db.runState runId = .ok s) : Calm s := by
  obtain ⟨events, hevents, hreplay⟩ := runState_ok.mp hs
  have hopened := h events hevents
  clear h hs hevents
  have hstate : s.lifecycle ∈ [AgentRunLifecycle.ready, .deciding] ∧ s.dispatchedInvocations = [] := by
    refine replay_induction (P := fun events s => (∀ e ∈ events, e.eventKind = .runCreated ∨
      e.Moves .deciding) → s.lifecycle ∈ [AgentRunLifecycle.ready, .deciding] ∧
        s.dispatchedInvocations = []) ?_ ?_ hreplay hopened
    · intro e s hc _
      obtain ⟨raw, -, -, rfl⟩ := applyRunCreated_ok hc.state
      exact ⟨List.mem_cons_self, rfl⟩
    · intro events s e s' _ ih _ happ hall
      obtain ⟨-, hnone⟩ := ih fun e he => hall e (List.mem_append_left _ he)
      rcases hall e (List.mem_append_right _ (List.mem_singleton_self e)) with hkind | event
      · cases happ with
        | plainRecord kind | invocationRecord kind => simp [hkind] at kind
        | runTransition kind | toolProposed kind | toolTransition kind | budgetConsumed kind
        | dispatchStarted kind | resultRecorded kind | acceptanceDecided kind =>
          simp [hkind] at kind
      · refine ⟨?_, by rw [happ.dispatched_eq (by simp [event.1]), hnone]⟩
        have htarget : e.field "target" = .str AgentRunLifecycle.deciding.value :=
          event.field (by simp)
        rw [happ.target_eq event.1 htarget]
        simp
  obtain ⟨hlife, hnone⟩ := hstate
  refine .settled (fun id hid => ?_) ?_
  · rw [AgentRunState.Pending, hnone] at hid
    exact absurd hid.1 List.not_mem_nil
  · simp only [List.mem_cons, List.not_mem_nil, or_false] at hlife
    rcases hlife with hl | hl <;> rw [hl] <;> simp [restingPlaces]

/-- Some call on the run leaves its turn midway. -/
def SomeLeftMidway (start : World F) (calls : List (TurnCall F)) (runId : PyStr) : Prop :=
  ∃ pre call post, calls = pre ++ call :: post ∧ call.turn.runId = runId ∧
    LeavesMidway (runTurns start pre) call

theorem someLeftMidway_concat {start : World F} {calls : List (TurnCall F)} {call : TurnCall F}
    {runId : PyStr} : SomeLeftMidway start (calls ++ [call]) runId ↔
      SomeLeftMidway start calls runId ∨
        call.turn.runId = runId ∧ LeavesMidway (runTurns start calls) call := by
  constructor
  · rintro ⟨pre, c, post, heq, hrun, hleft⟩
    rcases List.eq_nil_or_concat post with rfl | ⟨post', z, rfl⟩
    · obtain ⟨rfl, hlast⟩ := List.append_inj' heq rfl
      obtain rfl := List.singleton_inj.mp hlast
      exact .inr ⟨hrun, hleft⟩
    · rw [List.concat_eq_append, ← List.cons_append, ← List.append_assoc] at heq
      exact .inl ⟨pre, c, post', List.append_inj_left' heq rfl, hrun, hleft⟩
  · rintro (⟨pre, c, post, rfl, hrun, hleft⟩ | ⟨hrun, hleft⟩)
    · exact ⟨pre, c, post ++ [call], by simp, hrun, hleft⟩
    · exact ⟨calls, call, [], rfl, hrun, hleft⟩

/-- A run is stuck or calm, and it is stuck if a call left it midway. -/
structure Classified (w : World F) (runId : PyStr) (left : Prop) : Prop where
  stuck : left → ∃ s, w.db.runState runId = .ok s ∧ Stuck s
  calm : ¬ left → ∀ s, w.db.runState runId = .ok s → Calm s

omit [Host F] in
theorem Calm.not_pending {s : AgentRunState F} (h : Calm s) (hdeciding : s.lifecycle = .deciding) :
    ∀ id, ¬ s.Pending id := by
  cases h with
  | pending _ lifecycle =>
    rw [lifecycle] at hdeciding
    exact absurd hdeciding (by simp)
  | settled settled => exact settled

/-- **One call** leaves a run stuck exactly if it leaves its turn midway. -/
theorem Classified.step {w : World F} {runId : PyStr} {left : Prop} (h : Classified w runId left)
    (hconsistent : Consistent w.db) (call : TurnCall F) :
    Classified (runTurn w call).1 runId
      (left ∨ call.turn.runId = runId ∧ LeavesMidway w call) := by
  obtain ⟨⟨stage, entered, hext⟩, -⟩ := runTurn_extends hconsistent call
  have hsame (heq : (runTurn w call).1.db.stream runId = w.db.stream runId)
      (hnot : ¬ (call.turn.runId = runId ∧ LeavesMidway w call)) :
      Classified (runTurn w call).1 runId
        (left ∨ call.turn.runId = runId ∧ LeavesMidway w call) := by
    have hstate : (runTurn w call).1.db.runState runId = w.db.runState runId := by
      rw [Database.runState, heq]
      rfl
    refine ⟨fun hleft => ?_, fun hleft s hs => ?_⟩
    · rw [hstate]
      exact h.stuck (hleft.resolve_right hnot)
    · exact h.calm (fun hl => hleft (.inl hl)) s (hstate ▸ hs)
  by_cases hrun : call.turn.runId = runId
  · subst hrun
    rcases hext.agrees with ⟨heq, -⟩ | ⟨base, events, s₀, hbase, hs₀, hdeciding, hafter, hpath,
      hagrees⟩
    · rw [call.start_stream] at heq
      refine hsame heq ?_
      rintro ⟨-, base, events, hbase, hafter, hleft⟩
      -- nothing was added
      rw [heq, hbase] at hafter
      obtain rfl : events = [] := by
        have hlength := congrArg List.length (Except.ok.inj hafter)
        rw [List.length_append] at hlength
        exact List.length_eq_zero_iff.mp (by omega)
      exact absurd hleft.1 List.not_mem_nil
    · rw [call.start_stream] at hbase
      have hs₀' := runState_ok.mpr ⟨base, hbase, hs₀⟩
      have hnotleft : ¬ left := by
        intro hleft
        obtain ⟨s, hs, hstuck⟩ := h.stuck hleft
        obtain rfl := Except.ok.inj (hs.symm.trans hs₀')
        have hlife := hstuck.lifecycle
        rw [hdeciding] at hlife
        exact absurd hlife (by decide)
      have hnone := (h.calm hnotleft s₀ hs₀').not_pending hdeciding
      have hmidway : LeavesMidway w call ↔ LeftMidway events := by
        constructor
        · rintro ⟨base', events', hbase', hafter', hleft⟩
          obtain rfl := Except.ok.inj (hbase.symm.trans hbase')
          rw [List.append_cancel_left (Except.ok.inj (hafter.symm.trans hafter'))]
          exact hleft
        · exact fun hleft => ⟨base, events, hbase, hafter, hleft⟩
      obtain ⟨s, hs⟩ : ∃ s, (runTurn w call).1.db.runState call.turn.runId = .ok s := by
        by_cases hnil : events = []
        · subst hnil
          rw [List.append_nil] at hafter
          exact ⟨s₀, runState_ok.mpr ⟨base, hafter, hs₀⟩⟩
        · obtain ⟨s, hs⟩ := hext.consistent.replays hafter
            (List.append_ne_nil_of_right_ne_nil _ hnil)
          exact ⟨s, runState_ok.mpr ⟨_, hafter, hs⟩⟩
      obtain ⟨hstuck, hcalm⟩ := hpath.calm (hagrees s hs) hnone
      refine ⟨fun hleft => ⟨s, hs, ?_⟩, fun hleft s' hs' => ?_⟩
      · exact hstuck (hmidway.mp (hleft.resolve_left hnotleft).2)
      · obtain rfl := Except.ok.inj (hs.symm.trans hs')
        exact hcalm fun hm => hleft (.inr ⟨rfl, hmidway.mpr hm⟩)
  · refine hsame ?_ fun hcall => hrun hcall.1
    rw [hext.others runId (Ne.symm hrun), call.start_stream]

/-- Some answer of the outside; recovery looks at none. -/
def Reply.any : Reply where
  lockTaken := false
  utcNow := []
  deadlinePassed := .ok false
  inference := .ok none
  resolved := .ok []
  cancelled := false
  timedOut := false
  content := .ok []
  paths := .ok []
  entry := .other
  artifact := .ok ()

/-- Recovery of a run that does not replay raises. -/
theorem Service.recover_error (service : Service F) {w : World F} (h : Consistent w.db)
    {runId : PyStr} {e : Raised} (hs : w.db.runState runId = .error e) (reply : Reply) :
    ((service.recover runId).exec w [reply]).2 = some (.error e) := by
  have hload : (w.db.load service.connection runId >>= replay runId) = .error e := by
    rw [h.load_eq]
    exact hs
  show (Thread.exec (Thread.bind (service.state runId) _) w [reply]).2 = _
  simp only [Service.state, Thread.atomic, Thread.bind, Thread.exec, hload]

/-- **Recovery is exact unless a call was left midway.**  For a run that only
calls of `execute_turn` write to, recovery never takes it for one at rest when it
is not, if and only if no call was left between its transition to `waiting_tool`
and its dispatch, or between its recorded result and the transition that brings
the run to rest. -/
theorem recovery_exact (appends : List (Call F)) (calls : List (TurnCall F)) (runId : PyStr)
    (hopened : Opened (World.opening appends) runId) :
    RecoveryExact (runTurns (World.opening appends) calls) runId ↔
      ¬ SomeLeftMidway (World.opening appends) calls runId := by
  have hconsistent := fun calls => runTurns_consistent (consistent_opening appends) calls
  have hclass : Classified (runTurns (World.opening appends) calls) runId
      (SomeLeftMidway (World.opening appends) calls runId) := by
    refine runTurns_induction (P := fun calls w => Classified w runId
      (SomeLeftMidway (World.opening appends) calls runId)) ?_ (fun calls call ih => ?_) calls
    · refine ⟨fun ⟨pre, call, post, heq, _⟩ => absurd heq (by simp), fun _ s hs => hopened.calm hs⟩
    · rw [someLeftMidway_concat]
      exact ih.step (hconsistent calls) call
  constructor
  · intro hexact hleft
    obtain ⟨s, hs, hstuck⟩ := hclass.stuck hleft
    obtain ⟨hrecover, hnot⟩ := recoverState_stuck hstuck
    obtain ⟨pre, call, post, -⟩ := hleft
    have hanswer := call.service.recover_eq (hconsistent calls) hs Reply.any
    obtain ⟨s', hs', hrest⟩ := hexact call.service Reply.any (by rw [hanswer, hrecover])
    obtain rfl := Except.ok.inj (hs.symm.trans hs')
    exact hnot hrest
  · intro hleft service reply hanswer
    cases hs : (runTurns (World.opening appends) calls).db.runState runId with
    | error e =>
      rw [service.recover_error (hconsistent calls) hs reply] at hanswer
      exact absurd hanswer (by simp)
    | ok s =>
      rw [service.recover_eq (hconsistent calls) hs reply] at hanswer
      obtain hrecover := Except.ok.inj (Option.some_inj.mp hanswer)
      exact ⟨s, rfl, recoverState_calm (hclass.calm hleft s hs) hrecover⟩

/-- A turn that is cut behind so many steps. -/
def sampleCut (steps : ℕ) : TurnCall Unit where
  service := sampleService
  restarted := false
  turn := sampleTurn
  task := sampleTask
  token := false
  replies := List.replicate steps (sampleReply 0)

theorem sampleOpening_opened : Opened (World.opening sampleOpening) (py "r") := by
  have hall : (((World.opening sampleOpening).db.stream (py "r")).toOption.map fun events =>
      events.map fun e => (e.eventKind, (e.field "target").str?)) =
        some [(.runCreated, none), (.runTransition, some (py "deciding"))] := by decide +kernel
  intro events hevents
  rw [hevents] at hall
  have hkinds : events.map (fun e => (e.eventKind, (e.field "target").str?)) =
      [(.runCreated, none), (.runTransition, some (py "deciding"))] := Option.some_inj.mp hall
  intro e he
  have hmem : (e.eventKind, (e.field "target").str?) ∈
      [(EventKind.runCreated, none), (.runTransition, some (py "deciding"))] :=
    hkinds ▸ List.mem_map_of_mem he
  rw [List.mem_cons, List.mem_singleton] at hmem
  rcases hmem with hcreated | hmoved
  · exact .inl (congrArg Prod.fst hcreated)
  · obtain ⟨hkind, htarget⟩ := Prod.mk.inj hmoved
    refine .inr ⟨hkind, fun f hf => ?_⟩
    obtain rfl := List.mem_singleton.mp hf
    exact Value.str?_eq_some.mp htarget

theorem recovery_exact_cut :
    RecoveryExact (runTurns (World.opening sampleOpening) [sampleCut 11]) (py "r") ↔
      ¬ SomeLeftMidway (World.opening sampleOpening) [sampleCut 11] (py "r") :=
  recovery_exact sampleOpening [sampleCut 11] (py "r") sampleOpening_opened

end Agent
