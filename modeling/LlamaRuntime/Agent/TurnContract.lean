/-
What one call of `execute_turn` does to the world.

* `Extends` — the stream of the run is the old one with the events of a turn up
  to a stage behind it, and the record of what happened goes with them;
* `Service.appendPlain_spec`, `appendRecord_spec`, `consumeBudget_spec` — an
  append leads to the next stage or nowhere;
* `executeTurn_contract` — wherever the call is cut, the world extends the one it
  began in; a call that returns has ended its turn.
-/
import LlamaRuntime.Agent.Streams
import LlamaRuntime.Agent.TurnProtocol

open Json Thread

namespace Agent

variable {F : Type} [Host F]

/-! ### Steps of a service -/

section Rules

variable {α : Type} {inv : World F → Prop} {allow : World F → Reply → World F → Prop}
  {P : World F → Prop} {Q : α → World F → Prop} {E : Raised → World F → Prop}

theorem Act.triple_lift {result : Except Raised α}
    (hok : ∀ a, result = .ok a → ∀ w, inv w → P w → Q a w)
    (herror : ∀ e, result = .error e → ∀ w, inv w → P w → E e w) :
    Triple (.alone inv allow) P (Act.lift result : Act F α) Q E := by
  cases result with
  | ok a => exact Triple.pure (stable_alone _) (hok a rfl)
  | error e => exact Triple.raise (stable_alone _) (herror e rfl)

theorem Act.triple_ask {question : Reply → Except Raised α}
    (hok : ∀ w reply, inv w → P w → allow w reply w → ∀ a, question reply = .ok a → Q a w)
    (herror : ∀ w reply, inv w → P w → allow w reply w → ∀ e, question reply = .error e → E e w) :
    Triple (.alone inv allow) P (Act.ask question : Act F α) Q E :=
  Triple.atomic (stable_alone _) (fun _ => stable_alone _) (fun _ => stable_alone _)
    fun w reply hi hp ha => ⟨hi, hok w reply hi hp ha, herror w reply hi hp ha⟩

theorem Act.triple_note {happening : Happening F} {Q : Unit → World F → Prop}
    (h : ∀ w, inv w → P w → inv { w with happened := w.happened ++ [happening] } ∧
      Q () { w with happened := w.happened ++ [happening] }) :
    Triple (.alone inv allow) P (Act.note happening) Q E :=
  Triple.modify (stable_alone _) (stable_alone _) fun w _ hi hp _ => h w hi hp

end Rules

/-! ### What is written -/

/-- The event was read back from one with this kind and payload. -/
structure Wrote (e : AgentEvent F) (kind : EventKind) (items : List (PyStr × Value F)) :
    Prop where
  kind_eq : e.eventKind = kind
  payload_eq : e.payload = (Value.dict items).normal
  nodup : (items.map Prod.fst).Nodup

theorem newEvent_ok {eventId utcNow : PyStr} {kind : EventKind} {items : List (PyStr × Value F)}
    {event : AgentEvent F} (h : newEvent eventId kind items utcNow = .ok event) (n : ℕ) :
    event.eventKind = kind ∧ event.payload = .dict items ∧ Wrote (event.readBack n) kind items := by
  unfold newEvent at h
  split_ifs at h with hwf
  unfold AgentEvent.make at h
  split at h
  · exact absurd h (by simp)
  · rw [EventKind.ofValue_value] at h
    dsimp only at h
    split_ifs at h
    split at h
    · exact absurd h (by simp)
    · obtain rfl := Except.ok.inj h
      exact ⟨rfl, rfl, rfl, rfl, hwf.nodup⟩

theorem AgentEvent.field_readBack (event : AgentEvent F) (n : ℕ) (key : String) :
    (event.readBack n).field key = (event.field key).normal := by
  cases hd : event.payload.dict? with
  | none =>
    have hnormal : (event.readBack n).payload.dict? = none := by
      rw [readBack_payload, Value.dict?_normal, hd]
      rfl
    rw [AgentEvent.field, AgentEvent.field, hnormal, hd]
    exact Value.normal_null.symm
  | some items =>
    have hpayload := Value.dict?_eq_some.mp hd
    rw [AgentEvent.field_eq (e := event.readBack n) (by rw [readBack_payload, hpayload,
      Value.normal_dict]), AgentEvent.field_eq hpayload, field_normal (nodup_keys hpayload)]

theorem named_readBack (kind : EventKind) (event : AgentEvent F) (n : ℕ) :
    named kind (event.readBack n) = named kind event := by
  rw [named, named, AgentEvent.readBack_eventKind, AgentEvent.field_readBack, Value.str?_normal]

/-- The fields of a written event. -/
theorem Wrote.field_eq {e : AgentEvent F} {kind : EventKind} {items : List (PyStr × Value F)}
    (h : Wrote e kind items) (key : String) : e.field key = (field items key).normal := by
  rw [AgentEvent.field_eq (by rw [h.payload_eq, Value.normal_dict]), field_normal h.nodup]

theorem Wrote.reads {e : AgentEvent F} {kind : EventKind} {items : List (PyStr × Value F)}
    (h : Wrote e kind items) {fields : List (String × Value F)}
    (hfields : fields.map (fun f => field items f.1) = fields.map Prod.snd)
    (hnormal : ∀ f ∈ fields, f.2.normal = f.2) : e.Says kind fields := by
  refine ⟨h.kind_eq, fun f hf => ?_⟩
  have heq : field items f.1 = f.2 := List.map_inj_left.mp hfields f hf
  rw [h.field_eq, heq, hnormal f hf]

omit [Host F] in
@[simp] theorem normal_textOrNone (text : Option PyStr) :
    (textOrNone text : Value F).normal = textOrNone text := by
  cases text <;> simp [textOrNone]

/-! ### The world during a turn -/

/-- The dispatch of an invocation is committed. -/
def DispatchCommitted (happened : List (Happening F)) (runId id : PyStr) : Prop :=
  ∃ call n event, .appended call (.ok n) ∈ happened ∧ call.runId = runId ∧
    call.events = [event] ∧ named .dispatchStarted event = some id

/-- The run is deciding, so that a turn may begin. -/
def World.Decides (w : World F) (runId : PyStr) : Prop :=
  ∃ s, w.db.runState runId = .ok s ∧ s.lifecycle = .deciding

/-- What happened during a turn so far; `entered` tells that the executor was entered. -/
structure Chronicle (start : World F) (runId : PyStr) (events : List (AgentEvent F))
    (entered : Bool) (happened : List (Happening F)) : Prop where
  inferring : ∀ runId' stream, .inferring runId' stream ∈ happened →
    runId' = runId ∧ start.db.stream runId = .ok stream ∧ start.Decides runId
  committed : ∀ id ∈ namedIn .dispatchStarted events, DispatchCommitted happened runId id
  executing : ∀ pre runId' id post, happened = pre ++ .executing runId' id :: post →
    runId' = runId ∧ id ∈ namedIn .dispatchStarted events ∧ DispatchCommitted pre runId id ∧
      ∀ runId' id', .executing runId' id' ∉ pre
  entered_eq : entered = false → ∀ runId' id, .executing runId' id ∉ happened

structure Extends (start : World F) (runId : PyStr) (criteria : Dict PyStr PyStr) (stage : Stage)
    (entered : Bool) (w : World F) : Prop where
  consistent : Consistent w.db
  others : ∀ runId', runId' ≠ runId → w.db.stream runId' = start.db.stream runId'
  begun : stage = .idle ∨ start.Decides runId
  turn : ∃ events happened, Path criteria events stage ∧
    w.db.stream runId = (start.db.stream runId).map (fun base => base ++ events) ∧
    w.happened = start.happened ++ happened ∧ Chronicle start runId events entered happened

theorem DispatchCommitted.append {happened : List (Happening F)} {runId id : PyStr}
    (h : DispatchCommitted happened runId id) (more : List (Happening F)) :
    DispatchCommitted (happened ++ more) runId id :=
  let ⟨call, n, event, hmem, hrest⟩ := h
  ⟨call, n, event, List.mem_append_left more hmem, hrest⟩

theorem DispatchCommitted.prepend {happened : List (Happening F)} {runId id : PyStr}
    (h : DispatchCommitted happened runId id) (more : List (Happening F)) :
    DispatchCommitted (more ++ happened) runId id :=
  let ⟨call, n, event, hmem, hrest⟩ := h
  ⟨call, n, event, List.mem_append_right more hmem, hrest⟩

/-- Where an element other than the last one stands. -/
theorem eq_of_concat_eq {β : Type} {l pre post : List β} {x y : β}
    (h : l ++ [x] = pre ++ y :: post) (hne : x ≠ y) : ∃ post', l = pre ++ y :: post' := by
  rcases List.eq_nil_or_concat post with rfl | ⟨post', z, rfl⟩
  · have hlast := List.append_inj_right' h rfl
    exact absurd (List.singleton_inj.mp hlast) hne
  · rw [List.concat_eq_append, ← List.cons_append, ← List.append_assoc] at h
    exact ⟨post', List.append_inj_left' h rfl⟩

namespace Chronicle

variable {start : World F} {runId : PyStr} {events : List (AgentEvent F)} {entered : Bool}
  {happened : List (Happening F)}

theorem nil (start : World F) (runId : PyStr) : Chronicle start runId [] false [] where
  inferring _ _ h := absurd h List.not_mem_nil
  committed _ h := absurd h List.not_mem_nil
  executing pre runId' id post h := absurd h (by simp)
  entered_eq _ _ _ h := absurd h List.not_mem_nil

/-- A happening that is neither an inference nor an execution. -/
theorem other (h : Chronicle start runId events entered happened) {happening : Happening F}
    (hinferring : ∀ runId stream, happening ≠ .inferring runId stream)
    (hexecuting : ∀ runId id, happening ≠ .executing runId id) :
    Chronicle start runId events entered (happened ++ [happening]) where
  inferring runId' stream hmem := by
    rcases List.mem_append.mp hmem with hmem | hmem
    · exact h.inferring runId' stream hmem
    · exact absurd (List.mem_singleton.mp hmem).symm (hinferring runId' stream)
  committed id hid := (h.committed id hid).append _
  executing pre runId' id post heq := by
    obtain ⟨post', hpre⟩ := eq_of_concat_eq heq (hexecuting runId' id)
    exact h.executing pre runId' id post' hpre
  entered_eq hfalse runId' id hmem := by
    rcases List.mem_append.mp hmem with hmem | hmem
    · exact h.entered_eq hfalse runId' id hmem
    · exact absurd (List.mem_singleton.mp hmem).symm (hexecuting runId' id)

/-- An event is committed. -/
theorem commit (h : Chronicle start runId events entered happened) {call : Call F} {n : ℕ}
    {event : AgentEvent F} (hrun : call.runId = runId) (hcall : call.events = [event]) (k : ℕ) :
    Chronicle start runId (events ++ [event.readBack k]) entered
      (happened ++ [.appended call (.ok n)]) := by
  have hother : Chronicle start runId events entered (happened ++ [.appended call (.ok n)]) :=
    h.other (fun _ _ h => (nomatch h)) fun _ _ h => (nomatch h)
  refine ⟨hother.inferring, fun id hid => ?_, fun pre runId' id post heq => ?_, hother.entered_eq⟩
  · rw [namedIn_append, named_readBack] at hid
    rcases List.mem_append.mp hid with hid | hid
    · exact (h.committed id hid).append _
    · exact ⟨call, n, event, List.mem_append_right _ (List.mem_singleton_self _), hrun, hcall,
        Option.mem_toList.mp hid⟩
  · obtain ⟨hrun', hid, hrest⟩ := hother.executing pre runId' id post heq
    exact ⟨hrun', mem_namedIn_append hid _, hrest⟩

/-- The executor is entered. -/
theorem enter (h : Chronicle start runId events false happened) {id : PyStr}
    (hid : id ∈ namedIn .dispatchStarted events) :
    Chronicle start runId events true (happened ++ [.executing runId id]) where
  inferring runId' stream hmem := by
    rcases List.mem_append.mp hmem with hmem | hmem
    · exact h.inferring runId' stream hmem
    · exact absurd (List.mem_singleton.mp hmem) (by simp)
  committed id hid := (h.committed id hid).append _
  executing pre runId' id' post heq := by
    rcases List.eq_nil_or_concat post with rfl | ⟨post', z, rfl⟩
    · obtain rfl := List.append_inj_left' heq rfl
      obtain ⟨rfl, rfl⟩ := Happening.executing.inj
        (List.singleton_inj.mp (List.append_inj_right' heq rfl))
      exact ⟨rfl, hid, h.committed id hid, h.entered_eq rfl⟩
    · -- the executor was not entered before
      rw [List.concat_eq_append, ← List.cons_append, ← List.append_assoc] at heq
      have hpre := List.append_inj_left' heq rfl
      exact absurd (hpre ▸ List.mem_append_right pre List.mem_cons_self)
        (h.entered_eq rfl runId' id')
  entered_eq h := absurd h (by simp)

end Chronicle

/-! ### One append of a turn -/

section Contract

variable (start : World F) (runId : PyStr) (criteria : Dict PyStr PyStr)

/-- Nobody interferes with a call, and it may be cut anywhere. -/
def contract : Protocol (World F) Reply :=
  .alone (fun w => ∃ stage entered, Extends start runId criteria stage entered w)
    fun _ _ _ => True

/-- The turn stands at a stage, and the run in a state. -/
structure At (stage : Stage) (entered : Bool) (s : AgentRunState F) (w : World F) : Prop where
  extends_ : Extends start runId criteria stage entered w
  state : w.db.runState runId = .ok s

end Contract

variable {start : World F} {runId : PyStr} {criteria : Dict PyStr PyStr} {stage stage' : Stage}
  {entered : Bool} {s : AgentRunState F} {service : Service F}

theorem At.runId_eq {w : World F} (h : At start runId criteria stage entered s w) :
    s.runId = runId := by
  obtain ⟨events, -, hs⟩ := runState_ok.mp h.state
  exact replay_runId hs

/-- **An append of a turn** leads to the next stage, or it leaves the streams alone. -/
theorem At.append {w : World F} {db' : Database F} {call : Call F} {event : AgentEvent F}
    {outcome : Except Raised ℕ} (h : At start runId criteria stage entered s w)
    (hdecides : start.Decides runId) (hrun : call.runId = runId) (hcall : call.events = [event])
    (hnext : ∀ n, Next criteria (event.readBack n) stage stage')
    (hone : AppendedOne w.db call event outcome db') :
    (∀ e, outcome = .error e → At start runId criteria stage entered s
        { w with db := db', happened := w.happened ++ [.appended call outcome] }) ∧
      ∀ n, outcome = .ok n → ∃ s' m, Applied s (m + 1) (event.readBack m) s' ∧
        At start runId criteria stage' entered s'
          { w with db := db', happened := w.happened ++ [.appended call outcome] } := by
  obtain ⟨⟨hconsistent, hothers, hbegun, events, happened, hpath, hstream, hhap, hchron⟩, hstate⟩ :=
    h
  cases hone with
  | @unchanged e db' rows consistent =>
    have hsame : ∀ runId, db'.stream runId = w.db.stream runId := by
      intro runId
      rw [Database.stream, rows]
      rfl
    refine ⟨fun _ _ => ⟨⟨consistent, fun R hR => (hsame R).trans (hothers R hR), hbegun, events,
      happened ++ [.appended call (.error e)], hpath, (hsame runId).trans hstream, ?_, ?_⟩, ?_⟩,
      fun n hn => absurd hn (by simp)⟩
    · rw [hhap, List.append_assoc]
    · exact hchron.other (fun _ _ h => (by cases h)) fun _ _ h => (by cases h)
    · show db'.stream runId >>= replay runId = .ok s
      rw [hsame]
      exact hstate
  | @added db' stream s' n before version after replayed others consistent =>
    subst hrun
    have happ : Applied s (stream.length + 1) (event.readBack stream.length) s' := by
      obtain ⟨stream', hstream', hs⟩ := runState_ok.mp hstate
      obtain rfl := Except.ok.inj (before.symm.trans hstream')
      obtain ⟨s₁, hs₁, -, happ⟩ := (replay_concat (replay_ne_nil hs)).mp replayed
      obtain rfl := Except.ok.inj (hs.symm.trans hs₁)
      exact happ
    refine ⟨fun e he => absurd he (by simp), fun _ _ => ⟨s', stream.length, happ, ⟨consistent,
      fun R hR => ?_, .inr hdecides, events ++ [event.readBack stream.length], happened ++ [.appended call (.ok n)],
      hpath.snoc (hnext _), ?_, ?_, ?_⟩, runState_ok.mpr ⟨_, after, replayed⟩⟩⟩
    · exact (others R hR).trans (hothers R hR)
    · -- the stream read before the append is the base with the events of the turn
      rw [before] at hstream
      cases hbase : start.db.stream call.runId with
      | error e =>
        rw [hbase] at hstream
        exact absurd hstream (by simp [Except.map])
      | ok base =>
        rw [hbase] at hstream
        have heq : stream = base ++ events := Except.ok.inj hstream
        show db'.stream call.runId = _
        rw [after, heq, List.append_assoc]
        rfl
    · rw [hhap, List.append_assoc]
    · exact hchron.commit rfl hcall _

/-! ### The ways of appending -/

/-- `_state` reads the state that the run is in. -/
theorem Service.state_spec (P : World F → Prop) (hP : ∀ w, P w → Consistent w.db) :
    Triple (contract start runId criteria) P (service.state runId)
      (fun s w => P w ∧ w.db.runState runId = .ok s) (fun _ _ => True) := by
  refine Triple.atomic (stable_alone _) (fun _ => stable_alone _) (fun _ => stable_alone _)
    fun w _ hi hw _ => ⟨hi, fun s hs => ⟨hw, ?_⟩, fun _ _ => trivial⟩
  rw [(hP w hw).load_eq] at hs
  exact hs

theorem Service.append_spec {eventId : PyStr} {kind : EventKind} {items : List (PyStr × Value F)}
    (hdecides : start.Decides runId)
    (hnext : ∀ e, Wrote e kind items → Next criteria e stage stage') :
    Triple (contract start runId criteria) (At start runId criteria stage entered s)
      (service.append s eventId kind items)
      (fun _ w => ∃ s', At start runId criteria stage' entered s' w) (fun _ _ => True) := by
  refine Triple.atomic (stable_alone _) (fun _ => stable_alone _) (fun _ => stable_alone _)
    fun w reply hi hw _ => ?_
  cases hnew : newEvent eventId kind items reply.utcNow with
  | error e =>
    dsimp only [hnew]
    exact ⟨hi, fun _ h => absurd h (by simp), fun _ _ => trivial⟩
  | ok event =>
    dsimp only [hnew]
    let call : Call F :=
      { connection := service.connection, lockTaken := reply.lockTaken, runId := s.runId
        expectedVersion := s.version, events := [event] }
    have hrun : call.runId = runId := hw.runId_eq
    have hcall : call.events = [event] := rfl
    obtain ⟨herror, hok⟩ := hw.append hdecides hrun hcall
      (fun n => hnext _ (newEvent_ok hnew n).2.2) (append_one hw.extends_.consistent hcall)
    revert herror hok
    generalize Agent.append w.db call = result
    intro herror hok
    refine ⟨?_, fun _ hres => ?_, fun _ _ => trivial⟩
    · cases hres : result.1 with
      | error e =>
        exact ⟨stage, entered, hres ▸ (herror e hres).extends_⟩
      | ok n =>
        obtain ⟨s', _, -, hs'⟩ := hok n hres
        exact ⟨stage', entered, hres ▸ hs'.extends_⟩
    · cases hres' : result.1 with
      | error e =>
        rw [hres'] at hres
        exact absurd hres (by simp [Except.map])
      | ok n =>
        obtain ⟨s', _, -, hs'⟩ := hok n hres'
        exact ⟨s', hres' ▸ hs'⟩

theorem Service.appendPlain_spec {kind : EventKind} {items : List (PyStr × Value F)}
    (hdecides : start.Decides runId)
    (hnext : ∀ e, Wrote e kind items → Next criteria e stage stage') :
    Triple (contract start runId criteria) (At start runId criteria stage entered s)
      (service.appendPlain s kind items)
      (At start runId criteria stage' entered) (fun _ _ => True) := by
  intro w hi hw
  have hrun : s.runId = runId := hw.runId_eq
  refine Triple.bind (Act.triple_lift (fun _ _ _ _ h => h) fun _ _ _ _ _ => trivial)
    (fun eventId => Triple.bind (Service.append_spec hdecides hnext) fun _ => ?_) w hi hw
  rw [hrun]
  refine (Service.state_spec _ ?_).conseq (fun _ _ h => h) ?_ fun _ _ _ h => h
  · exact fun w ⟨s', hs'⟩ => hs'.extends_.consistent
  · rintro s' w - ⟨⟨s'', hs''⟩, hs'⟩
    exact ⟨hs''.extends_, hs'⟩

theorem Service.appendRecord_spec {kind : EventKind} {items : List (PyStr × Value F)}
    (hdecides : start.Decides runId)
    (hnext : ∀ e recordId, Wrote e kind ((py "record_version", .str (py "h1.v1")) ::
      (py "record_id", .str recordId) :: items) → Next criteria e stage stage') :
    Triple (contract start runId criteria) (At start runId criteria stage entered s)
      (service.appendRecord s kind items)
      (At start runId criteria stage' entered) (fun _ _ => True) :=
  Triple.bind (Act.triple_lift (fun _ _ _ _ h => h) fun _ _ _ _ _ => trivial) fun recordId =>
    Service.appendPlain_spec hdecides fun e he => hnext e recordId he

theorem Service.consumeBudget_spec {nameSpace : PyStr} {category : BudgetCategory} {amount : ℤ}
    (hdecides : start.Decides runId)
    (hnext : ∀ e : AgentEvent F, e.Debits category amount → Next criteria e stage stage') :
    Triple (contract start runId criteria) (At start runId criteria stage entered s)
      (service.consumeBudget s nameSpace category amount)
      (At start runId criteria stage' entered) (fun _ _ => True) := by
  refine Triple.ite (fun _ => Triple.raise (stable_alone _) fun _ _ _ => trivial) fun _ => ?_
  exact Triple.bind (Act.triple_lift (fun _ _ _ _ h => h) fun _ _ _ _ _ => trivial) fun claimId =>
    Service.appendPlain_spec hdecides fun e he => hnext e (he.reads (by simp [field, Items.lookup]) (by simp))

theorem Service.transition_spec {target : AgentRunLifecycle} (hdecides : start.Decides runId)
    (hnext : ∀ e : AgentEvent F, e.Moves target → Next criteria e stage stage') :
    Triple (contract start runId criteria) (At start runId criteria stage entered s)
      (service.transition s target)
      (At start runId criteria stage' entered) (fun _ _ => True) :=
  Service.appendPlain_spec hdecides fun e he => hnext e (he.reads (by simp [field, Items.lookup]) (by simp))

theorem Service.toolTransition_spec {id : PyStr} {target : ToolInvocationLifecycle}
    (hdecides : start.Decides runId)
    (hnext : ∀ e : AgentEvent F, e.MovesTool id target → Next criteria e stage stage') :
    Triple (contract start runId criteria) (At start runId criteria stage entered s)
      (service.toolTransition s id target)
      (At start runId criteria stage' entered) (fun _ _ => True) :=
  Service.appendPlain_spec hdecides fun e he => hnext e (he.reads (by simp [field, Items.lookup]) (by simp))

/-! ### Steps beside the store -/

/-- A change that concerns neither a stream nor the order of inferences and executions. -/
inductive Aside (w : World F) : World F → Prop
  | completed (completed : Dict PyStr RawToolResult) : Aside w { w with completed }
  | touching (id : PyStr) : Aside w { w with happened := w.happened ++ [.touching id] }
  | failing (id : PyStr) (e : Raised) :
    Aside w { w with happened := w.happened ++ [.failing id e] }

theorem Extends.aside {w w' : World F} (h : Extends start runId criteria stage entered w)
    (ha : Aside w w') : Extends start runId criteria stage entered w' := by
  obtain ⟨hconsistent, hothers, hbegun, events, happened, hpath, hstream, hhap, hchron⟩ := h
  cases ha with
  | completed => exact ⟨hconsistent, hothers, hbegun, events, happened, hpath, hstream, hhap, hchron⟩
  | touching id =>
    refine ⟨hconsistent, hothers, hbegun, events, happened ++ [.touching id], hpath, hstream, ?_,
      hchron.other (fun _ _ h => (nomatch h)) fun _ _ h => (nomatch h)⟩
    rw [hhap, List.append_assoc]
  | failing id e =>
    refine ⟨hconsistent, hothers, hbegun, events, happened ++ [.failing id e], hpath, hstream, ?_,
      hchron.other (fun _ _ h => (nomatch h)) fun _ _ h => (nomatch h)⟩
    rw [hhap, List.append_assoc]

theorem At.aside {w w' : World F} (h : At start runId criteria stage entered s w)
    (ha : Aside w w') : At start runId criteria stage entered s w' := by
  refine ⟨h.extends_.aside ha, ?_⟩
  cases ha <;> exact h.state

/-- The world stays as it is, or changes aside. -/
def Beside (w w' : World F) : Prop := w' = w ∨ Aside w w'

/-- Code that makes no other changes, whatever it returns or raises. -/
abbrev Act.Quiet {α : Type} (act : Act F α) : Prop :=
  Thread.Confined Beside (fun _ => True) (fun _ => True) act

namespace Act.Quiet

variable {α β : Type}

theorem pure (a : α) : Quiet (Pure.pure a : Act F α) := Confined.pure trivial

theorem raise (e : Raised) : Quiet (.raise e : Act F α) := Confined.raise trivial

theorem lift (result : Except Raised α) : Quiet (Act.lift result : Act F α) := by
  cases result with
  | ok a => exact pure a
  | error e => exact raise e

theorem ask (question : Reply → Except Raised α) : Quiet (Act.ask question : Act F α) :=
  Confined.atomic (fun _ _ => .inl rfl) (fun _ _ _ _ => trivial) fun _ _ _ _ => trivial

theorem bind {act : Act F α} {k : α → Act F β} (h : Quiet act) (hk : ∀ a, Quiet (k a)) :
    Quiet (act >>= k) :=
  Confined.bind h fun a _ => hk a

theorem ite {c : Prop} [Decidable c] {act act' : Act F α} (h : Quiet act) (h' : Quiet act') :
    Quiet (if c then act else act') :=
  Confined.ite (fun _ => h) fun _ => h'

theorem read (f : World F → α) : Quiet (.read f : Act F α) :=
  Confined.read (fun _ => .inl rfl) fun _ => trivial

theorem tryCatch {act : Act F α} {k : Raised → Act F α} (h : Quiet act)
    (hk : ∀ e, Quiet (k e)) : Quiet (Thread.tryCatch act k) :=
  Confined.tryCatch h fun e _ => hk e

/-- A change that is aside. -/
theorem modify {f : World F → World F} (h : ∀ w, Aside w (f w)) :
    Quiet (.modify f : Act F Unit) :=
  Confined.modify (fun w => .inr (h w)) trivial

end Act.Quiet

theorem quiet_resolve (allowed : List PyStr) (ref : PyStr) (message : String) :
    Act.Quiet (resolve allowed ref message : Act F PyStr) :=
  .ite (.raise _) (.ask _)

theorem quiet_compileReadFile (files : List PyStr) (inputHint : PyStr)
    (bindings : Dict PyStr (Value F)) :
    Act.Quiet (compileReadFile files inputHint bindings) := by
  unfold compileReadFile
  split
  · exact .bind (quiet_resolve _ _ _) fun _ => .pure _
  · exact .raise _

theorem quiet_compileSearchText (roots : List PyStr) (inputHint : PyStr)
    (bindings : Dict PyStr (Value F)) :
    Act.Quiet (compileSearchText roots inputHint bindings) := by
  unfold compileSearchText
  split
  · exact .raise _
  · split
    · refine .ite (.raise _) (.bind (.lift _) fun _ => .ite (.raise _) ?_)
      exact .bind (quiet_resolve _ _ _) fun _ => .pure _
    · exact .raise _

theorem quiet_compile (catalog : Catalog F) (adapters : Dict PyStr Adapter) (intent : ToolIntent)
    (context : CompileContext F) :
    Act.Quiet (compile catalog adapters intent context) := by
  unfold compile
  split
  · refine .ite (.raise _) (.ite (.raise _) ?_)
    split
    · next definition adapter _ _ =>
      refine .bind (.tryCatch ?_ fun e => .ite (.raise _) (.raise _)) fun _ => .lift _
      cases adapter with
      | readFile files => exact quiet_compileReadFile _ _ _
      | searchText roots => exact quiet_compileSearchText _ _ _
    · exact .raise _
  · exact .raise _

theorem quiet_deadlinePassed (deadlineUtc : Option PyStr) :
    Act.Quiet (deadlinePassed deadlineUtc : Act F Bool) := by
  cases deadlineUtc with
  | none => exact .pure _
  | some _ => exact .ask _

theorem quiet_authorize (call : CompiledToolCall F) (deadlineUtc : Option PyStr)
    (allowedTools : List PyStr) (catalogDigest expected : PyStr) :
    Act.Quiet
      (authorize call deadlineUtc allowedTools catalogDigest expected) := by
  refine .ite (.pure _) (.bind (quiet_deadlinePassed _) fun _ => ?_)
  exact .ite (.pure _) (.ite (.pure _) (.ite (.pure _) (.pure _)))

theorem quiet_cancelled (token : Bool) :
    Act.Quiet (cancelled token : Act F Bool) := .ite (.ask _) (.pure _)

theorem quiet_searchPaths (token : Bool) (pattern : PyStr) (paths : List PyStr) :
    Act.Quiet (searchPaths token pattern paths : Act F (List PyStr)) := by
  induction paths with
  | nil => exact .pure _
  | cons path rest ih =>
    refine .bind (quiet_cancelled token) fun _ => .ite (.raise _) ?_
    refine .bind (.ask _) fun _ => .ite (.raise _) (.bind (.ask _) fun _ => ?_)
    exact .bind ih fun _ => .pure _

theorem quiet_runTool (token : Bool) (call : CompiledToolCall F) :
    Act.Quiet (runTool token call) := by
  have htouch : Act.Quiet (Act.note (.touching call.invocationId) : Act F Unit) :=
    .modify fun _ => .touching _
  refine .ite (.bind (.lift _) fun _ => .bind htouch fun _ => .bind (.ask _) fun _ => .pure _) ?_
  refine .ite (.bind ?_ fun _ => .pure _) (.raise _)
  refine .bind (.lift _) fun _ => .bind (.lift _) fun _ => .bind htouch fun _ => ?_
  exact .bind (.ask _) fun _ => .bind (quiet_searchPaths _ _ _) fun _ => .bind (.lift _) fun _ => .pure _

theorem quiet_execute (resultByteCap : ℕ) (call : CompiledToolCall F) (token : Bool) :
    Act.Quiet (execute resultByteCap call token) := by
  refine .bind (.read _) fun completed => ?_
  cases completed with
  | some result => exact .pure _
  | none =>
    refine .bind (quiet_cancelled token) fun _ => .ite (.raise _) (.bind (quiet_runTool _ _) ?_)
    refine fun _ => .bind (quiet_cancelled token) fun _ => .ite (.raise _) ?_
    refine .bind (.ask _) fun _ => .ite (.raise _) ?_
    exact .bind (.modify fun _ => .completed _) fun _ => .pure _

theorem quiet_normalize (observationByteCap : ℕ) (raw : RawToolResult)
    (toolId toolVersion : PyStr) :
    Act.Quiet
      (normalize observationByteCap raw toolId toolVersion : Act F ToolResultEnvelope) := by
  unfold normalize
  split
  · exact .raise _
  · refine .bind (.lift _) fun _ => .bind (.ask _) fun _ => .bind (.lift _) fun _ => ?_
    exact .bind (.lift _) fun _ => .pure _

/-! ### The parts of a turn -/

variable {turn : TurnContext} {task : AtomicTask F} {request : DecisionRequest} {token : Bool}
  {call : CompiledToolCall F} {result : ToolResultEnvelope}

theorem At.beside {w w' : World F} (h : At start runId criteria stage entered s w)
    (hb : Beside w w') : At start runId criteria stage entered s w' := by
  rcases hb with rfl | ha
  · exact h
  · exact h.aside ha

theorem Extends.beside {w w' : World F} (h : Extends start runId criteria stage entered w)
    (hb : Beside w w') : Extends start runId criteria stage entered w' := by
  rcases hb with rfl | ha
  · exact h
  · exact h.aside ha

/-- Quiet code keeps the stage, and may end in any exception. -/
theorem Act.Quiet.at {α : Type} {act : Act F α} (h : Act.Quiet act) :
    Triple (contract start runId criteria) (At start runId criteria stage entered s) act
      (fun _ => At start runId criteria stage entered s) (fun _ _ => True) :=
  (h.triple (fun _ _ hb ⟨stage, entered, hw⟩ => ⟨stage, entered, hw.beside hb⟩)
    fun _ _ hb hw => hw.beside hb).conseq (fun _ _ h => h) (fun _ _ _ h => h.1)
    fun _ _ _ _ => trivial

theorem Path.eq_nil {events : List (AgentEvent F)} (path : Path criteria events .idle) :
    events = [] := by
  cases path with
  | nil => rfl
  | snoc _ next => cases next

/-- Before the first append the stream is the one the turn began with. -/
theorem Extends.stream_eq {w : World F} (h : Extends start runId criteria .idle entered w) :
    w.db.stream runId = start.db.stream runId := by
  obtain ⟨-, -, -, events, -, hpath, hstream, -⟩ := h
  rw [hstream, hpath.eq_nil]
  cases start.db.stream runId with
  | error e => rfl
  | ok base => exact congrArg Except.ok (List.append_nil base)

theorem Service.openTurn_spec (hrun : turn.runId = runId) :
    Triple (contract start runId criteria) (Extends start runId criteria .idle false)
      (service.openTurn turn task)
      (fun a w => At start runId criteria .idle false a.1 w ∧ start.Decides runId)
      (fun _ _ => True) := by
  unfold Service.openTurn
  rw [hrun]
  refine Triple.bind (Service.state_spec _ fun w hw => hw.consistent) fun s => ?_
  refine Triple.conseq (P := At start runId criteria .idle false s) ?_
    (fun _ _ h => ⟨h.1, h.2⟩) (fun _ _ _ h => h) fun _ _ _ h => h
  refine Triple.ite (fun _ => Triple.raise (stable_alone _) fun _ _ _ => trivial) fun hdeciding => ?_
  refine Triple.bind (quiet_deadlinePassed _).at fun _ => ?_
  refine Triple.ite (fun _ => Triple.raise (stable_alone _) fun _ _ _ => trivial) fun _ => ?_
  refine Triple.ite (fun _ => Triple.raise (stable_alone _) fun _ _ _ => trivial) fun _ => ?_
  refine Triple.bind (Act.Quiet.lift _).at fun cards => ?_
  refine Triple.bind (Act.Quiet.lift _).at fun digest => ?_
  refine Triple.pure (stable_alone _) fun w _ hw => ⟨hw, s, ?_, not_not.mp hdeciding⟩
  rw [Database.runState, ← hw.extends_.stream_eq]
  exact hw.state

/-- An inference starts on the stream the turn began with. -/
theorem At.infer {w : World F} (h : At start runId criteria .idle false s w)
    (hdecides : start.Decides runId) {stream : List (AgentEvent F)}
    (hstream : start.db.stream runId = .ok stream) :
    At start runId criteria .idle false s
      { w with happened := w.happened ++ [.inferring runId stream] } := by
  obtain ⟨⟨hconsistent, hothers, hbegun, events, happened, hpath, hturn, hhap, hchron⟩, hstate⟩ := h
  refine ⟨⟨hconsistent, hothers, hbegun, events, happened ++ [.inferring runId stream], hpath, hturn,
    by rw [hhap, List.append_assoc], ?_⟩, hstate⟩
  refine ⟨fun runId' stream' hmem => ?_, fun id hid => (hchron.committed id hid).append _,
    fun pre runId' id post heq => ?_, fun hfalse runId' id hmem => ?_⟩
  · rcases List.mem_append.mp hmem with hmem | hmem
    · exact hchron.inferring runId' stream' hmem
    · obtain ⟨rfl, rfl⟩ := Happening.inferring.inj (List.mem_singleton.mp hmem)
      exact ⟨rfl, hstream, hdecides⟩
  · obtain ⟨post', hpre⟩ := eq_of_concat_eq heq (by simp)
    exact hchron.executing pre runId' id post' hpre
  · rcases List.mem_append.mp hmem with hmem | hmem
    · exact hchron.entered_eq hfalse runId' id hmem
    · exact absurd (List.mem_singleton.mp hmem) (by simp)

theorem Service.decide_spec (hdecides : start.Decides runId) :
    Triple (contract start runId criteria) (At start runId criteria .idle false s)
      (service.decide runId request)
      (fun _ => At start runId criteria .idle false s) (fun _ _ => True) := by
  unfold Service.decide
  refine Triple.bind (Q := fun _ => At start runId criteria .idle false s)
    (Triple.modify (stable_alone _) (stable_alone _) fun w _ _ hw _ => ?_) fun _ => ?_
  · obtain ⟨stream, hstream, -⟩ := runState_ok.mp hw.state
    have hload : (w.db.load service.connection runId).toOption.getD [] = stream := by
      rw [hw.extends_.consistent.load_eq, hstream]
      rfl
    have hstart : start.db.stream runId = .ok stream := hw.extends_.stream_eq ▸ hstream
    have hinfer := hw.infer hdecides hstart
    rw [hload]
    exact ⟨⟨.idle, false, hinfer.extends_⟩, hinfer⟩
  · refine Triple.bind (Act.Quiet.ask _).at fun response => ?_
    cases response with
    | none => exact (Act.Quiet.raise _).at
    | some response =>
      refine Triple.bind (Act.Quiet.lift _).at fun bytes => ?_
      exact (Act.Quiet.ite (.raise _) (.bind (.lift _) fun _ => .pure _)).at

theorem Service.recordInference_spec {response : DecisionResponse}
    (hdecides : start.Decides runId) :
    Triple (contract start runId criteria) (At start runId criteria .idle entered s)
      (service.recordInference s turn request response)
      (At start runId criteria (.paying 0 0) entered) (fun _ _ => True) := by
  unfold Service.recordInference
  refine Triple.bind (Q := At start runId criteria
    (.inferred (response.inputTokens + response.outputTokens) response.inferenceMs) entered)
    (Service.appendRecord_spec hdecides fun e _ he =>
      .infer (he.reads (by simp [field, Items.lookup]) (by simp))) fun s => ?_
  refine Triple.bind (Service.consumeBudget_spec hdecides fun e => .payTurn) fun s => ?_
  refine Triple.bind (Q := At start runId criteria (.paying 0 response.inferenceMs) entered)
    ?_ fun s => ?_
  · unfold Service.consumeUsage
    refine Triple.ite (fun hzero => ?_) fun howed =>
      Service.consumeBudget_spec hdecides fun e => .payTokens howed
    rw [hzero]
    exact Triple.pure (stable_alone _) fun _ _ h => h
  · unfold Service.consumeUsage
    refine Triple.ite (fun hzero => ?_) fun howed =>
      Service.consumeBudget_spec hdecides fun e => .payTime howed
    rw [hzero]
    exact Triple.pure (stable_alone _) fun _ _ h => h

theorem Service.recordDecision_spec {intent : ToolIntent} (hdecides : start.Decides runId) :
    Triple (contract start runId criteria) (At start runId criteria (.paying 0 0) entered s)
      (service.recordDecision s turn request intent)
      (At start runId criteria .decided entered) (fun _ _ => True) :=
  Service.appendRecord_spec hdecides fun e _ he => .decide (he.reads rfl (by simp))

/-- The turn has ended. -/
def Ended (start : World F) (runId : PyStr) (criteria : Dict PyStr PyStr) (w : World F) : Prop :=
  ∃ lifecycle entered, Extends start runId criteria (.ended lifecycle) entered w

theorem Service.handleNonTool_spec {action : DecisionAction} {message : PyStr}
    (hdecides : start.Decides runId) :
    Triple (contract start runId criteria) (At start runId criteria .decided entered s)
      (service.handleNonTool s action message)
      (fun _ => Ended start runId criteria) (fun _ _ => True) := by
  have hdone {l : AgentRunLifecycle} {s' : AgentRunState F} (verdict : AcceptanceVerdict) :
      Triple (contract start runId criteria) (At start runId criteria (.ended l) entered s')
        (Pure.pure verdict : Act F AcceptanceVerdict) (fun _ => Ended start runId criteria)
        (fun _ _ => True) :=
    Triple.pure (stable_alone _) fun _ _ h => ⟨l, entered, h.extends_⟩
  have hrefuse : Triple (contract start runId criteria)
      (At start runId criteria .decided entered s)
      (service.handleNonTool s .submit message)
      (fun _ => Ended start runId criteria) (fun _ _ => True) := by
    refine Triple.bind (Service.appendRecord_spec hdecides fun e _ he =>
      .refuse (he.reads (by simp [field, Items.lookup]) (by simp))) fun s => ?_
    exact Triple.bind (Service.appendPlain_spec hdecides fun e he =>
      .block (he.reads (by simp [field, Items.lookup]) (by simp))) fun _ => hdone _
  cases action with
  | askUser =>
    exact Triple.bind (Service.appendPlain_spec hdecides fun e he =>
      .stop (he.reads (by simp [field, Items.lookup]) (by simp)) (.inl rfl)) fun _ => hdone _
  | blocked =>
    exact Triple.bind (Service.appendPlain_spec hdecides fun e he =>
      .stop (he.reads (by simp [field, Items.lookup]) (by simp)) (.inr rfl)) fun _ => hdone _
  | submit => exact hrefuse
  | callTool => exact hrefuse

theorem Service.proposeCall_spec (hdecides : start.Decides runId) :
    Triple (contract start runId criteria) (At start runId criteria .decided entered s)
      (service.proposeCall s call)
      (At start runId criteria (.call call.invocationId .ready) entered) (fun _ _ => True) := by
  unfold Service.proposeCall
  refine Triple.bind (Service.transition_spec hdecides fun e => .wait) fun s => ?_
  refine Triple.bind (Q := At start runId criteria (.call call.invocationId .proposed) entered)
    (Service.appendPlain_spec hdecides fun e he =>
      .propose (he.reads (by simp [field, Items.lookup]) (by simp))) fun s => ?_
  refine Triple.bind (Act.Quiet.lift _).at fun digest => ?_
  split
  · exact Triple.raise (stable_alone _) fun _ _ _ => trivial
  · refine Triple.bind (Service.appendRecord_spec hdecides fun e _ he =>
      .compile (he.reads (by simp [field, Items.lookup]) (by simp))) fun s => ?_
    exact Service.toolTransition_spec hdecides fun e => .prepare

theorem Service.authorizeCall_spec (hdecides : start.Decides runId) :
    Triple (contract start runId criteria)
      (At start runId criteria (.call call.invocationId .ready) entered s)
      (service.authorizeCall s turn request call)
      (At start runId criteria (.call call.invocationId .authorized) entered)
      (fun _ _ => True) := by
  unfold Service.authorizeCall
  refine Triple.bind (quiet_authorize _ _ _ _ _).at fun authorization => ?_
  refine Triple.bind (Act.Quiet.lift _).at fun digest => ?_
  refine Triple.bind (Q := At start runId criteria
      (.call call.invocationId (.checked authorization.decision)) entered)
    (Service.appendRecord_spec hdecides fun e _ he =>
      .check (he.reads (by simp [field, Items.lookup]) (by simp))) fun s => ?_
  cases hdecision : authorization.decision with
  | requireApproval =>
    exact Triple.bind (Service.toolTransition_spec hdecides fun e => .forbid rfl) fun _ =>
      Triple.raise (stable_alone _) fun _ _ _ => trivial
  | deny =>
    exact Triple.bind (Service.toolTransition_spec hdecides fun e => .forbid rfl) fun _ =>
      Triple.raise (stable_alone _) fun _ _ _ => trivial
  | allow => exact Service.toolTransition_spec hdecides fun e => .allow

theorem Service.dispatchCall_spec (hdecides : start.Decides runId) :
    Triple (contract start runId criteria)
      (At start runId criteria (.call call.invocationId .authorized) entered s)
      (service.dispatchCall s call)
      (At start runId criteria (.call call.invocationId .attempted) entered)
      (fun _ _ => True) := by
  unfold Service.dispatchCall
  refine Triple.bind (Service.consumeBudget_spec hdecides fun e => .charge) fun s => ?_
  refine Triple.bind (Act.Quiet.lift _).at fun attemptId => ?_
  refine Triple.bind (Q := At start runId criteria (.call call.invocationId .dispatching) entered)
    (Service.appendRecord_spec hdecides fun e _ he =>
      .dispatch (he.reads (by simp [field, Items.lookup]) (by simp))) fun s => ?_
  refine Triple.bind (Service.toolTransition_spec hdecides fun e => .enter) fun s => ?_
  exact Service.consumeBudget_spec hdecides fun e => .attempt

/-- The executor is entered for an invocation whose dispatch is committed. -/
theorem At.enter {w : World F} {id : PyStr} {phase : CallPhase} (hphase : phase.begun = true)
    (h : At start runId criteria (.call id phase) false s w) :
    At start runId criteria (.call id phase) true s
      { w with happened := w.happened ++ [.executing runId id] } := by
  obtain ⟨⟨hconsistent, hothers, hbegun, events, happened, hpath, hturn, hhap, hchron⟩, hstate⟩ := h
  refine ⟨⟨hconsistent, hothers, hbegun, events, happened ++ [.executing runId id], hpath, hturn,
    by rw [hhap, List.append_assoc], hchron.enter (hpath.told.2 hphase)⟩, hstate⟩

theorem Service.executeCall_spec :
    Triple (contract start runId criteria)
      (At start runId criteria (.call call.invocationId .attempted) false s)
      (service.executeCall runId call token)
      (fun _ => At start runId criteria (.call call.invocationId .attempted) true s)
      (fun _ _ => True) := by
  unfold Service.executeCall
  refine Triple.bind (Q := fun _ => At start runId criteria (.call call.invocationId .attempted)
    true s) (Act.triple_note fun w _ hw => ?_) fun _ => ?_
  · have hentered := hw.enter rfl
    exact ⟨⟨_, true, hentered.extends_⟩, hentered⟩
  · refine (Act.Quiet.tryCatch (quiet_execute _ _ _) fun e => ?_).at
    refine .bind (.modify fun w => .failing _ _) fun _ => ?_
    cases e <;> first | exact .pure _ | exact .raise _

theorem Service.recordResult_spec (hdecides : start.Decides runId) :
    Triple (contract start runId criteria)
      (At start runId criteria (.call call.invocationId .attempted) entered s)
      (service.recordResult s call result)
      (At start runId criteria (.outcome call.invocationId result .closed) entered)
      (fun _ _ => True) := by
  unfold Service.recordResult
  refine Triple.bind (Q := At start runId criteria (.outcome call.invocationId result .recorded)
    entered) (Service.appendRecord_spec hdecides fun e _ he =>
      .record (he.reads (by simp [field, Items.lookup]) (by simp))) fun s => ?_
  exact Service.toolTransition_spec hdecides fun e => .close

theorem Service.concludeCall_spec (hdecides : start.Decides runId)
    (hcriteria : task.acceptance = criteria) :
    Triple (contract start runId criteria)
      (At start runId criteria (.outcome call.invocationId result .closed) entered s)
      (service.concludeCall s task call result)
      (fun _ => Ended start runId criteria) (fun _ _ => True) := by
  have hdone {l : AgentRunLifecycle} {s' : AgentRunState F} :
      Triple (contract start runId criteria) (At start runId criteria (.ended l) entered s')
        (Pure.pure (.envelope result) : Act F TurnResult) (fun _ => Ended start runId criteria)
        (fun _ _ => True) :=
    Triple.pure (stable_alone _) fun _ _ h => ⟨l, entered, h.extends_⟩
  unfold Service.concludeCall
  refine Triple.bind (Service.transition_spec hdecides fun e => .observe) fun s => ?_
  dsimp only
  refine Triple.bind (Q := At start runId criteria (.outcome call.invocationId result .directed)
    entered) (Service.appendRecord_spec hdecides fun e _ he =>
      .direct (he.reads (by simp [field, Items.lookup]) (by simp))) fun s => ?_
  by_cases hflow : (decideFlow result).2 = .verifying
  · -- the verdict of the gate decides how the run ends
    rw [hflow, hcriteria]
    refine Triple.bind (Service.transition_spec hdecides fun e => .verify hflow) fun s => ?_
    rw [if_pos rfl]
    refine Triple.bind (Q := At start runId criteria (.outcome call.invocationId result
        (.judged (evaluate result criteria).accepted)) entered)
      (Service.appendRecord_spec hdecides fun e _ he =>
        .judge (he.reads (by simp [field, Items.lookup]) (by simp))) fun s => ?_
    exact Triple.bind (Service.appendPlain_spec hdecides fun e he =>
      .conclude (he.reads (by simp [field, Items.lookup]) (by simp))) fun _ => hdone
  · refine Triple.bind (Service.transition_spec hdecides fun e => .leave hflow) fun s => ?_
    rw [if_neg hflow]
    exact hdone

theorem Service.callTool_spec {intent : ToolIntent} (hdecides : start.Decides runId)
    (hrun : turn.runId = runId) (hcriteria : task.acceptance = criteria) :
    Triple (contract start runId criteria) (At start runId criteria .decided false s)
      (service.callTool s turn task request intent token)
      (fun _ => Ended start runId criteria) (fun _ _ => True) := by
  unfold Service.callTool
  refine Triple.bind (quiet_compile _ _ _ _).at fun call => ?_
  refine Triple.bind (Service.proposeCall_spec hdecides) fun s => ?_
  refine Triple.bind (Service.authorizeCall_spec hdecides) fun s => ?_
  refine Triple.bind (Service.dispatchCall_spec hdecides) fun s => ?_
  unfold Service.completeCall
  rw [hrun]
  refine Triple.bind Service.executeCall_spec fun raw => ?_
  refine Triple.bind (quiet_normalize _ _ _ _).at fun result => ?_
  refine Triple.bind (Service.recordResult_spec hdecides) fun s => ?_
  exact Service.concludeCall_spec hdecides hcriteria

theorem Service.executeTurn_spec (hrun : turn.runId = runId)
    (hcriteria : task.acceptance = criteria) :
    Triple (contract start runId criteria) (Extends start runId criteria .idle false)
      (service.executeTurn turn task token)
      (fun _ => Ended start runId criteria) (fun _ _ => True) := by
  unfold Service.executeTurn
  refine Triple.bind (Service.openTurn_spec hrun) fun ⟨s, request⟩ => ?_
  refine Triple.of_fact fun hdecides => ?_
  rw [hrun]
  refine Triple.bind (Service.decide_spec hdecides) fun ⟨intent, response⟩ => ?_
  refine Triple.bind (Service.recordInference_spec hdecides) fun s => ?_
  refine Triple.bind (Service.recordDecision_spec hdecides) fun s => ?_
  refine Triple.ite (fun _ => Service.callTool_spec hdecides hrun hcriteria) fun _ => ?_
  refine Triple.bind (Service.handleNonTool_spec hdecides) fun verdict => ?_
  exact Triple.pure (stable_alone _) fun _ _ h => h

theorem Extends.refl (hstart : Consistent start.db) :
    Extends start runId criteria .idle false start := by
  refine ⟨hstart, fun _ _ => rfl, .inl rfl, [], [], .nil, ?_, (List.append_nil _).symm, .nil _ _⟩
  cases start.db.stream runId with
  | error e => rfl
  | ok base => exact congrArg Except.ok (List.append_nil base).symm

/-- **The contract of a call**: wherever it is cut, the world extends the one it
began in by a part of a turn; a call that returns has ended its turn. -/
theorem Service.executeTurn_contract {replies : List Reply} (hstart : Consistent start.db) :
    let result := (service.executeTurn turn task token).exec start replies
    (∃ stage entered, Extends start turn.runId task.acceptance stage entered result.1) ∧
      ∀ r, result.2 = some (.ok r) → Ended start turn.runId task.acceptance result.1 := by
  have hidle : Extends start turn.runId task.acceptance .idle false start := .refl hstart
  have hspec : (∃ stage entered, Extends start turn.runId task.acceptance stage entered
      ((service.executeTurn turn task token).exec start replies).1) ∧
      Ends _ _ ((service.executeTurn turn task token).exec start replies) :=
    Triple.exec (Service.executeTurn_spec rfl rfl) ⟨.idle, false, hidle⟩ hidle allowed_true
  exact ⟨hspec.1, fun r hr => hspec.2.ok hr⟩

end Agent
