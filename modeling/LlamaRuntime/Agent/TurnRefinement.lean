/-
The turn driver refines the reducer.

* `Rested` — a turn that nothing obstructed, where it may be left: the run is
  deciding, it has come to rest, or its call was refused;
* `Service.beginTurn`, `Service.endTurn` — a turn up to the result of its call,
  and the rest of it;
* `turn_refines_reducer` — every event a fair turn appends is accepted, and the
  turn ends where it may be left.
-/
import LlamaRuntime.Agent.TurnProgress

open Json Thread

namespace Agent

variable {F : Type} [Host F]

variable {start : World F} {runId : PyStr} {criteria : Dict PyStr PyStr} {stage stage' : Stage}
  {entered : Bool} {s : AgentRunState F} {service : Service F}

/-! ### Code beside the store -/

/-- A happening that is no append. -/
theorem Fine.note {w : World F} (h : Fine start w) {happening : Happening F}
    (hne : ∀ call outcome, happening ≠ .appended call outcome) :
    Fine start { w with happened := w.happened ++ [happening] } := by
  obtain ⟨hidle, new, hnew, hall⟩ := h
  refine ⟨hidle, new ++ [happening], by rw [hnew, List.append_assoc], fun call outcome hmem => ?_⟩
  rcases List.mem_append.mp hmem with hmem | hmem
  · exact hall call outcome hmem
  · exact absurd (List.mem_singleton.mp hmem).symm (hne call outcome)

theorem Fine.beside {w w' : World F} (h : Fine start w) (hb : Beside w w') : Fine start w' := by
  rcases hb with rfl | ha
  · exact h
  · cases ha with
    | completed => exact ⟨h.idle, h.accepted⟩
    | touching id => exact h.note fun _ _ h => (nomatch h)
    | failing id e => exact h.note fun _ _ h => (nomatch h)

theorem Ready.beside {w w' : World F} (h : Ready start runId criteria stage entered s w)
    (hb : Beside w w') : Ready start runId criteria stage entered s w' :=
  ⟨h.toAt.beside hb, h.fine.beside hb, h.affords⟩

/-- Code that is confined to changes beside the store keeps a turn where it is. -/
theorem Ready.confined {α : Type} {act : Act F α} {V : α → Prop} {X : Raised → Prop}
    (h : act.Confined Beside V X) :
    Triple (fair start runId criteria) (Ready start runId criteria stage entered s) act
      (fun a w => Ready start runId criteria stage entered s w ∧ V a)
      (fun e w => Ready start runId criteria stage entered s w ∧ X e) :=
  h.triple (fun _ _ hb ⟨⟨stage, entered, hw⟩, hfine⟩ =>
    ⟨⟨stage, entered, hw.beside hb⟩, hfine.beside hb⟩) fun _ _ hb hw => hw.beside hb

/-- A payload that can be written is not refused. -/
theorem Ready.of_tidy {α : Type} {act : Act F α} {P : World F → Prop} {Q : α → World F → Prop}
    {R : Raised → World F → Prop} {T : Prop}
    (h : Triple (fair start runId criteria) P act Q (fun e w => R e w ∧ ¬ T)) (hT : T) :
    Triple (fair start runId criteria) P act Q (fun _ _ => False) :=
  h.conseq (fun _ _ h => h) (fun _ _ _ h => h) fun _ _ _ h => h.2 hT

/-! ### Events of each kind -/

theorem AgentRunLifecycle.clean_value (l : AgentRunLifecycle) : Clean l.value := by
  cases l <;> decide

theorem ToolInvocationLifecycle.clean_value (l : ToolInvocationLifecycle) : Clean l.value := by
  cases l <;> decide

theorem AuthorizationDecision.clean_value (d : AuthorizationDecision) : Clean d.value := by
  cases d <;> decide

theorem EffectClass.clean_value (c : EffectClass) : Clean c.value := by cases c <;> decide

theorem SideEffectState.clean_value (s : SideEffectState) : Clean s.value := by
  cases s <;> decide

theorem FlowPolicy.clean_value (p : FlowPolicy) : Clean p.value := by cases p <;> decide

theorem clean_reason (result : ToolResultEnvelope) (criteria : Dict PyStr PyStr) :
    Clean (evaluate result criteria).reason := by
  unfold evaluate
  split_ifs <;> decide

/-- A transition of the run. -/
theorem Service.move_fair {items : List (PyStr × Value F)} (target : AgentRunLifecycle)
    (hopening : Opening start runId) (hnodup : (items.map Prod.fst).Nodup)
    (hflat : ∀ f ∈ items, IsFlat f.2) (htarget : field items "target" = .str target.value)
    (hallowed : target ∈ runTransitions stage.lifecycle)
    (hauthority : target = .succeeded → field items "authority" = .str (py "acceptance_gate"))
    (hnext : ∀ e : AgentEvent F, e.Moves target → Next criteria e stage stage') :
    Triple (fair start runId criteria) (Ready start runId criteria stage entered s)
      (service.appendPlain s .runTransition items) (Ready start runId criteria stage' entered)
      (fun _ w => Ready start runId criteria stage entered s w ∧ ¬ (Value.dict items).Tidy) := by
  refine Service.appendPlain_fair hopening (wellFormed_flat hnodup hflat) ?_ fun e he =>
    hnext e (he.reads (by simp [htarget]) (by simp))
  intro w e events hw hstream hs kind payload hfree
  obtain ⟨before, hagree⟩ := hw.agrees hopening.decides
  exact ⟨_, .runTransition kind payload htarget (hagree.lifecycle ▸ hallowed) hauthority⟩

theorem Service.transition_fair {target : AgentRunLifecycle} (hopening : Opening start runId)
    (hallowed : target ∈ runTransitions stage.lifecycle) (hne : target ≠ .succeeded)
    (hnext : ∀ e : AgentEvent F, e.Moves target → Next criteria e stage stage') :
    Triple (fair start runId criteria) (Ready start runId criteria stage entered s)
      (service.transition s target) (Ready start runId criteria stage' entered)
      (fun _ _ => False) := by
  refine Ready.of_tidy (Service.move_fair target hopening (by simp) (by simp [IsFlat])
    (by simp [field, Items.lookup]) hallowed (fun h => absurd h hne) hnext) ?_
  refine Value.tidy_dict (by simp) (by simp only [List.map_cons, List.map_nil]; decide) ?_
  simpa using target.clean_value

theorem Service.toolTransition_fair {id : PyStr} {current target : ToolInvocationLifecycle}
    (hopening : Opening start runId) (hid : Clean id)
    (hcurrent : stage.invocation = some (id, current)) (hallowed : target ∈ toolTransitions current)
    (hnext : ∀ e : AgentEvent F, e.MovesTool id target → Next criteria e stage stage') :
    Triple (fair start runId criteria) (Ready start runId criteria stage entered s)
      (service.toolTransition s id target) (Ready start runId criteria stage' entered)
      (fun _ _ => False) := by
  refine Ready.of_tidy (Service.appendPlain_fair hopening
    (wellFormed_flat (by simp) (by simp [IsFlat])) ?_ fun e he =>
      hnext e (he.reads (by simp [field, Items.lookup]) (by simp))) ?_
  · intro w e events hw hstream hs kind payload hfree
    obtain ⟨before, hagree⟩ := hw.agrees hopening.decides
    exact ⟨_, .toolTransition kind payload (by simp [field, Items.lookup])
      (hagree.invocation id current hcurrent) (by simp [field, Items.lookup]) hallowed⟩
  · refine Value.tidy_dict (by simp) (by simp only [List.map_cons, List.map_nil]; decide) ?_
    simpa using ⟨hid, target.clean_value⟩

section Records

variable {kind : EventKind} {items : List (PyStr × Value F)} (hopening : Opening start runId)
  (hnodup : ∀ recordId, ((recordItems recordId items).map Prod.fst).Nodup)
  (hflat : ∀ f ∈ items, IsFlat f.2)
  (hnext : ∀ e recordId, Wrote e kind (recordItems recordId items) → Next criteria e stage stage')

include hopening hnodup hflat hnext

/-- A record that every run accepts. -/
theorem Service.plainRecord_fair
    (hkind : kind = .decisionRecorded ∨ kind = .inferenceCompleted ∨ kind = .flowDecided) :
    Triple (fair start runId criteria) (Ready start runId criteria stage entered s)
      (service.appendRecord s kind items) (Ready start runId criteria stage' entered)
      (fun _ w => Ready start runId criteria stage entered s w ∧ ¬ (Value.dict items).Tidy) := by
  refine Service.appendRecord_fair hopening hnodup hflat ?_ hnext
  intro recordId hrecord w e events hw hstream hs hk payload hfree
  have header := hfree.recordHeader hstream hs payload hrecord
  exact ⟨_, .plainRecord (hk ▸ hkind) payload header⟩

/-- A record of the acceptance gate. -/
theorem Service.verdict_fair (accepted : Bool) (hkind : kind = .acceptanceDecided)
    (haccepted : ∀ recordId, field (recordItems recordId items) "accepted" = .bool accepted)
    (hauthority : ∀ recordId, field (recordItems recordId items) "authority"
      = .str (py "acceptance_gate")) :
    Triple (fair start runId criteria) (Ready start runId criteria stage entered s)
      (service.appendRecord s kind items) (Ready start runId criteria stage' entered)
      (fun _ w => Ready start runId criteria stage entered s w ∧ ¬ (Value.dict items).Tidy) := by
  refine Service.appendRecord_fair hopening hnodup hflat ?_ hnext
  intro recordId hrecord w e events hw hstream hs hk payload hfree
  have header := hfree.recordHeader hstream hs payload hrecord
  exact ⟨_, .acceptanceDecided (hk.trans hkind) payload header (haccepted recordId)
    (hauthority recordId)⟩

variable {id : PyStr} {l : ToolInvocationLifecycle}
  (hinvocation : ∀ recordId, field (recordItems recordId items) "invocation_id" = .str id)
  (hstage : stage.invocation = some (id, l))

include hinvocation hstage

/-- A record about the invocation of the turn. -/
theorem Service.invocationRecord_fair
    (hkind : kind = .argumentsCompiled ∨ kind = .authorizationRecorded) :
    Triple (fair start runId criteria) (Ready start runId criteria stage entered s)
      (service.appendRecord s kind items) (Ready start runId criteria stage' entered)
      (fun _ w => Ready start runId criteria stage entered s w ∧ ¬ (Value.dict items).Tidy) := by
  refine Service.appendRecord_fair hopening hnodup hflat ?_ hnext
  intro recordId hrecord w e events hw hstream hs hk payload hfree
  obtain ⟨before, hagree⟩ := hw.agrees hopening.decides
  have header := hfree.recordHeader hstream hs payload hrecord
  exact ⟨_, .invocationRecord (hk ▸ hkind) payload header (hinvocation recordId)
    (Dict.mem_keys_iff.mpr ⟨l, hagree.invocation id l hstage⟩)⟩

/-- The dispatch of the invocation of the turn. -/
theorem Service.dispatch_fair (hkind : kind = .dispatchStarted) (hl : l = .authorized)
    (hawaiting : stage.awaiting = some id) :
    Triple (fair start runId criteria) (Ready start runId criteria stage entered s)
      (service.appendRecord s kind items) (Ready start runId criteria stage' entered)
      (fun _ w => Ready start runId criteria stage entered s w ∧ ¬ (Value.dict items).Tidy) := by
  refine Service.appendRecord_fair hopening hnodup hflat ?_ hnext
  intro recordId hrecord w e events hw hstream hs hk payload hfree
  obtain ⟨before, hagree⟩ := hw.agrees hopening.decides
  have header := hfree.recordHeader hstream hs payload hrecord
  exact ⟨_, .dispatchStarted (hk.trans hkind) payload header (hinvocation recordId)
    (hl ▸ hagree.invocation id l hstage) (hagree.awaiting id hawaiting)⟩

/-- The result of the invocation of the turn. -/
theorem Service.result_fair (hkind : kind = .resultRecorded) (hflight : stage.inFlight = some id) :
    Triple (fair start runId criteria) (Ready start runId criteria stage entered s)
      (service.appendRecord s kind items) (Ready start runId criteria stage' entered)
      (fun _ w => Ready start runId criteria stage entered s w ∧ ¬ (Value.dict items).Tidy) := by
  refine Service.appendRecord_fair hopening hnodup hflat ?_ hnext
  intro recordId hrecord w e events hw hstream hs hk payload hfree
  obtain ⟨before, hagree⟩ := hw.agrees hopening.decides
  have header := hfree.recordHeader hstream hs payload hrecord
  obtain ⟨hdispatched, hopen⟩ := hagree.inFlight id hflight
  exact ⟨_, .resultRecorded (hk.trans hkind) payload header (hinvocation recordId)
    (Dict.mem_keys_iff.mpr ⟨l, hagree.invocation id l hstage⟩) hdispatched hopen⟩

end Records

/-! ### What the parts of a call give -/

/-- A call that the compiler made of a decision. -/
structure Compiled (intent : ToolIntent) (call : CompiledToolCall F) : Prop where
  tool : intent.toolId = some call.toolId
  action_ok : IsIdentifier call.actionId
  invocation_ok : IsIdentifier call.invocationId
  key_ok : IsIdentifier call.idempotencyKey
  digest : ∃ message, argumentsDigest call.nativeArguments = .ok (shaDigest message)

theorem Act.confined_lift {α : Type} {result : Except Raised α} {V : α → Prop} {X : Raised → Prop}
    (hV : ∀ a, result = .ok a → V a) (hX : ∀ e, result = .error e → X e) :
    (Act.lift result : Act F α).Confined Beside V X := by
  cases result with
  | ok a => exact Confined.pure (hV a rfl)
  | error e => exact Confined.raise (hX e rfl)

theorem argumentsDigest_ok {arguments : List (PyStr × Value F)} {digest : PyStr}
    (h : argumentsDigest arguments = .ok digest) : ∃ message, digest = shaDigest message := by
  obtain ⟨text, -, h⟩ := bind_ok.mp h
  obtain ⟨bytes, -, h⟩ := bind_ok.mp h
  exact ⟨bytes, (Except.ok.inj h).symm⟩

theorem identifyCall_ok {definition : ToolDefinition F} {intent : ToolIntent}
    {toolId inputHint : PyStr} {native : List (PyStr × Value F)} {context : CompileContext F}
    {call : CompiledToolCall F} (htool : intent.toolId = some toolId)
    (h : identifyCall definition toolId inputHint native context = .ok call) :
    Compiled intent call := by
  obtain ⟨digest, hdigest, h⟩ := bind_ok.mp h
  obtain ⟨actionId, haction, h⟩ := bind_ok.mp h
  obtain ⟨invocationId, hinvocation, h⟩ := bind_ok.mp h
  obtain ⟨_, -, h⟩ := bind_ok.mp h
  obtain ⟨key, hkey, h⟩ := bind_ok.mp h
  obtain ⟨_, -, h⟩ := bind_ok.mp h
  obtain ⟨_, -, h⟩ := bind_ok.mp h
  obtain rfl := Except.ok.inj h
  obtain ⟨message, rfl⟩ := argumentsDigest_ok hdigest
  exact ⟨htool, isIdentifier_stableId haction (by decide) (by decide),
    isIdentifier_stableId hinvocation (by decide) (by decide),
    isIdentifier_stableId hkey (by decide) (by decide), message, hdigest⟩

theorem compile_confined (catalog : Catalog F) (adapters : Dict PyStr Adapter) (intent : ToolIntent)
    (context : CompileContext F) :
    (compile catalog adapters intent context).Confined Beside (Compiled intent)
      (fun _ => True) := by
  unfold compile
  split
  · next toolId inputHint htool hhint =>
    refine .ite (fun _ => .raise trivial) fun _ => .ite (fun _ => .raise trivial) fun _ => ?_
    split
    · next definition adapter _ _ =>
      refine .bind (V := fun _ => True) (.tryCatch ?_ fun e (_ : True) =>
        .ite (fun _ => .raise trivial) fun _ => .raise trivial) fun native _ =>
          Act.confined_lift (fun call hcall => identifyCall_ok htool hcall) fun _ _ => trivial
      cases adapter with
      | readFile files => exact quiet_compileReadFile _ _ _
      | searchText roots => exact quiet_compileSearchText _ _ _
    · exact .raise trivial
  · exact .raise trivial

/-- A result whose record can be written. -/
structure Recordable (result : ToolResultEnvelope) : Prop where
  status : result.status ∈
    [ToolInvocationLifecycle.succeeded, .partialResult, .failed, .unknownOutcome]
  dataRef : ∀ text ∈ result.dataRef, Clean text
  dataHash : ∀ text ∈ result.dataHash, Clean text

theorem checkEnvelope_ok {envelope : ToolResultEnvelope} (h : checkEnvelope envelope = .ok ()) :
    envelope.status ∈
      [ToolInvocationLifecycle.succeeded, .partialResult, .failed, .unknownOutcome] := by
  obtain ⟨_, -, h⟩ := bind_ok.mp h
  obtain ⟨_, -, h⟩ := bind_ok.mp h
  obtain ⟨_, -, h⟩ := bind_ok.mp h
  obtain ⟨_, -, h⟩ := bind_ok.mp h
  by_contra hstatus
  rw [if_pos hstatus] at h
  exact absurd h (by simp)

theorem normalize_confined (observationByteCap : ℕ) (raw : RawToolResult)
    (toolId toolVersion : PyStr) :
    (normalize observationByteCap raw toolId toolVersion : Act F ToolResultEnvelope).Confined
      Beside Recordable (fun _ => True) := by
  unfold normalize
  split
  · exact .raise trivial
  · next text _ =>
    refine .bind (V := fun _ => True) (Act.Quiet.lift _) fun payload _ => ?_
    refine .bind (V := fun _ => True) (Act.Quiet.ask _) fun _ _ => ?_
    refine .bind (V := fun _ => True) (Act.Quiet.lift _) fun _ _ => ?_
    refine .bind (V := fun _ => checkEnvelope (envelopeOf observationByteCap raw payload toolId
      toolVersion) = .ok ()) (Act.confined_lift (fun _ h => h) fun _ _ => trivial) fun _ hcheck => ?_
    refine .pure ⟨checkEnvelope_ok hcheck, fun text htext => ?_, fun text htext => ?_⟩
    · obtain rfl := Option.some_inj.mp htext
      exact Clean.append (by decide) (isPlain_hexdigest payload).clean
    · obtain rfl := Option.some_inj.mp htext
      exact clean_shaDigest payload

/-- The tools that a request offers are in the catalog. -/
def Offered (service : Service F) (request : DecisionRequest) : Prop :=
  ∀ id ∈ request.toolIds, ∃ definition, service.catalog.get? id = some definition

theorem cards_ok {catalog : Catalog F} {l : List (ToolCard F)} (h : cards catalog = .ok l) :
    ∀ card ∈ l, ∃ definition, catalog.get? card.toolId = some definition := by
  have hmap : ∀ (tools : List (ToolDefinition F)) (l : List (ToolCard F)),
      tools.mapM cardOf = .ok l → ∀ card ∈ l, ∃ tool ∈ tools, tool.toolId = card.toolId := by
    intro tools
    induction tools with
    | nil =>
      intro l h
      obtain rfl := Except.ok.inj h
      exact fun _ h => absurd h List.not_mem_nil
    | cons tool tools ih =>
      intro l h card hcard
      rw [List.mapM_cons] at h
      obtain ⟨first, hfirst, h⟩ := bind_ok.mp h
      obtain ⟨rest, hrest, h⟩ := bind_ok.mp h
      obtain rfl := Except.ok.inj h
      rcases List.mem_cons.mp hcard with rfl | hcard
      · obtain ⟨slots, -, hcardOf⟩ := bind_ok.mp hfirst
        obtain rfl := Except.ok.inj hcardOf
        exact ⟨tool, List.mem_cons_self, rfl⟩
      · obtain ⟨t, ht, heq⟩ := ih rest hrest card hcard
        exact ⟨t, List.mem_cons_of_mem tool ht, heq⟩
  intro card hcard
  obtain ⟨tool, htool, heq⟩ := hmap _ l h card hcard
  have hmem : tool ∈ catalog.tools := Catalog.mem_all.mp htool
  cases hget : catalog.get? card.toolId with
  | some definition => exact ⟨definition, rfl⟩
  | none =>
    have hnone := List.find?_eq_none.mp hget tool hmem
    exact absurd (decide_eq_true heq) hnone

/-! ### The parts of a turn -/

namespace Stage

/-- Where a turn may be left: before it has called a tool, when its call was
refused, and at its end. -/
def MayRest : Stage → Prop
  | waiting => False
  | call _ (.stopped target) => target = .denied ∨ target = .waitingApproval
  | call .. => False
  | outcome .. => False
  | ended l => l ∈ AgentRunLifecycle.deciding :: .waitingUser :: .paused :: runTerminal
  | _ => True

end Stage

section Parts

variable (start runId criteria) in
/-- A turn that nothing obstructed, where it may be left. -/
def Rested (w : World F) : Prop :=
  ∃ stage entered s, Ready start runId criteria stage entered s w ∧ stage.MayRest

theorem Ready.rested {w : World F} (h : Ready start runId criteria stage entered s w)
    (hrest : stage.MayRest) : Rested start runId criteria w := ⟨stage, entered, s, h, hrest⟩

variable {turn : TurnContext} {task : AtomicTask F} {request : DecisionRequest}
  {intent : ToolIntent} {response : DecisionResponse} {call : CompiledToolCall F}
  {result : ToolResultEnvelope} {token : Bool}

theorem deadlinePassed_fair (deadlineUtc : Option PyStr) :
    Triple (fair start runId criteria) (Ready start runId criteria stage entered s)
      (deadlinePassed deadlineUtc : Act F Bool)
      (fun _ => Ready start runId criteria stage entered s) (fun _ _ => False) := by
  cases deadlineUtc with
  | none => exact Triple.pure (stable_alone _) fun _ _ h => h
  | some text =>
    refine Act.triple_ask (fun w reply _ hw _ _ _ => hw) fun w reply _ hw hallow e he => ?_
    obtain ⟨passed, hpassed⟩ := hallow.reply.deadline
    rw [hpassed] at he
    exact absurd he (by simp)

theorem Service.openTurn_fair (hrun : turn.runId = runId) :
    Triple (fair start runId criteria) (Ready start runId criteria .idle false s)
      (service.openTurn turn task)
      (fun a w => Ready start runId criteria .idle false a.1 w ∧ Offered service a.2)
      (fun _ => Rested start runId criteria) := by
  unfold Service.openTurn
  rw [hrun]
  refine Triple.bind (Q := fun s' w => Ready start runId criteria .idle false s' w) ?_ fun s' => ?_
  · refine (Service.state_fair _ (fun w hw => hw.extends_.consistent)
      fun w hw => ⟨s, hw.state⟩).conseq (fun _ _ h => h) (fun s' w _ h => ?_) fun _ _ _ h => h.elim
    obtain ⟨hw, hs'⟩ := h
    obtain rfl := Except.ok.inj (hw.state.symm.trans hs')
    exact hw
  have hraise {α : Type} (e : Raised) :
      Triple (fair start runId criteria) (Ready start runId criteria .idle false s')
        (.raise e : Act F α) (fun _ _ => False) (fun _ => Rested start runId criteria) :=
    Triple.raise (stable_alone _) fun _ _ hw => hw.rested trivial
  have helim {α : Type} {act : Act F α} {Q : α → World F → Prop}
      (h : Triple (fair start runId criteria) (Ready start runId criteria .idle false s') act
        (fun _ _ => False) (fun _ => Rested start runId criteria)) :
      Triple (fair start runId criteria) (Ready start runId criteria .idle false s') act
        Q (fun _ => Rested start runId criteria) :=
    h.conseq (fun _ _ h => h) (fun _ _ _ h => h.elim) fun _ _ _ h => h
  refine Triple.ite (fun _ => helim (hraise _)) fun _ => ?_
  refine Triple.bind ((deadlinePassed_fair _).conseq (fun _ _ h => h) (fun _ _ _ h => h)
    fun _ _ _ h => h.elim) fun passed => ?_
  refine Triple.ite (fun _ => helim (hraise _)) fun _ => ?_
  refine Triple.ite (fun _ => helim (hraise _)) fun _ => ?_
  refine Triple.bind (Q := fun l w => Ready start runId criteria .idle false s' w ∧
    cards service.catalog = .ok l) (Act.triple_lift (fun l hl w _ hw => ⟨hw, hl⟩)
      fun _ _ w _ hw => hw.rested trivial) fun l => Triple.of_fact fun hl => ?_
  refine Triple.bind (Act.triple_lift (fun _ _ w _ hw => hw)
    fun _ _ w _ hw => hw.rested trivial) fun digest => ?_
  refine Triple.pure (stable_alone _) fun w _ hw => ⟨hw, fun id hid => ?_⟩
  obtain ⟨card, hcard, rfl⟩ := List.mem_map.mp hid
  exact cards_ok hl card hcard

/-- What is raised where a turn may be left. -/
theorem Ready.resting {α : Type} {act : Act F α} {P : World F → Prop} {Q : α → World F → Prop}
    {R : Raised → World F → Prop}
    (h : Triple (fair start runId criteria) P act Q
      (fun e w => Ready start runId criteria stage entered s w ∧ R e w)) (hrest : stage.MayRest) :
    Triple (fair start runId criteria) P act Q (fun _ => Rested start runId criteria) :=
  h.conseq (fun _ _ h => h) (fun _ _ _ h => h) fun _ _ _ h => h.1.rested hrest

theorem Service.decide_fair (hopening : Opening start runId) :
    Triple (fair start runId criteria) (Ready start runId criteria .idle false s)
      (service.decide runId request)
      (fun a w => Ready start runId criteria .idle false s w ∧
        (a.1.action = .callTool → ∃ id ∈ request.toolIds, a.1.toolId = some id) ∧
        0 ≤ a.2.inputTokens ∧ 0 ≤ a.2.outputTokens ∧ 0 ≤ a.2.inferenceMs)
      (fun _ => Rested start runId criteria) := by
  have hrested : ∀ w, Ready start runId criteria .idle false s w → Rested start runId criteria w :=
    fun w hw => hw.rested trivial
  unfold Service.decide
  refine Triple.bind (Q := fun _ => Ready start runId criteria .idle false s)
    (Triple.modify (stable_alone _) (stable_alone _) fun w _ hi hw _ => ?_) fun _ => ?_
  · obtain ⟨stream, hstream, -⟩ := runState_ok.mp hw.state
    have hload : (w.db.load service.connection runId).toOption.getD [] = stream := by
      rw [hw.extends_.consistent.load_eq, hstream]
      rfl
    have hstart : start.db.stream runId = .ok stream := hw.extends_.stream_eq ▸ hstream
    rw [hload]
    have hinfer := hw.infer hopening.decides hstart
    have hfine : Fine start { w with happened := w.happened ++ [.inferring runId stream] } :=
      hw.fine.note fun _ _ h => (nomatch h)
    exact ⟨⟨⟨.idle, false, hinfer.extends_⟩, hfine⟩, hinfer, hfine, hw.affords⟩
  -- the usage of a fair answer is not negative
  refine Triple.bind (Q := fun response w => Ready start runId criteria .idle false s w ∧
      ∀ r, response = some r → 0 ≤ r.inputTokens ∧ 0 ≤ r.outputTokens ∧ 0 ≤ r.inferenceMs)
    (Act.triple_ask (fun w reply _ hw hallow response hresponse => ⟨hw, fun r hr => ?_⟩)
      fun w _ _ hw _ _ _ => hrested w hw) fun response => Triple.of_fact fun husage => ?_
  · exact hallow.reply.usage r (hr ▸ hresponse)
  cases response with
  | none => exact Triple.raise (stable_alone _) fun w _ hw => hrested w hw
  | some response =>
    refine Triple.bind (Act.triple_lift (fun _ _ _ _ hw => hw) fun _ _ w _ hw => hrested w hw)
      fun bytes => ?_
    refine Triple.ite (fun _ => Triple.raise (stable_alone _) fun w _ hw => hrested w hw) fun _ => ?_
    refine Triple.bind (Q := fun intent w => Ready start runId criteria .idle false s w ∧
        ToolIntent.parse F response.output request.toolIds = .ok intent)
      (Act.triple_lift (fun intent hintent w _ hw => ⟨hw, hintent⟩)
        fun _ _ w _ hw => hrested w hw) fun intent => Triple.of_fact fun hintent => ?_
    exact Triple.pure (stable_alone _) fun w _ hw =>
      ⟨hw, fun haction => ToolIntent.mem_allowed hintent haction, husage response rfl⟩

theorem Service.recordInference_fair (hopening : Opening start runId)
    (hinput : 0 ≤ response.inputTokens) (houtput : 0 ≤ response.outputTokens)
    (hms : 0 ≤ response.inferenceMs) :
    Triple (fair start runId criteria) (Ready start runId criteria .idle entered s)
      (service.recordInference s turn request response)
      (Ready start runId criteria (.paying 0 0) entered) (fun _ => Rested start runId criteria) := by
  unfold Service.recordInference
  refine Triple.bind (Q := Ready start runId criteria
      (.inferred (response.inputTokens + response.outputTokens) response.inferenceMs) entered)
    (Ready.resting (Service.plainRecord_fair hopening (by simp) (by simp [IsFlat])
      (fun e _ he => .infer (he.reads (by simp [field, Items.lookup]) (by simp))) (by simp)) trivial)
    fun s => ?_
  refine Triple.bind (Ready.resting (Service.consumeBudget_fair hopening (by omega)
    fun e => .payTurn) trivial) fun s => ?_
  refine Triple.bind (Q := Ready start runId criteria (.paying 0 response.inferenceMs) entered)
    ?_ fun s => ?_
  · unfold Service.consumeUsage
    refine Triple.ite (fun hzero => ?_) fun howed => ?_
    · rw [hzero]
      exact Triple.pure (stable_alone _) fun _ _ h => h
    · exact Ready.resting
        (Service.consumeBudget_fair hopening (by omega) fun e => .payTokens howed) trivial
  · unfold Service.consumeUsage
    refine Triple.ite (fun hzero => ?_) fun howed => ?_
    · rw [hzero]
      exact Triple.pure (stable_alone _) fun _ _ h => h
    · exact Ready.resting
        (Service.consumeBudget_fair hopening (by omega) fun e => .payTime howed) trivial

theorem Service.recordDecision_fair (hopening : Opening start runId) :
    Triple (fair start runId criteria) (Ready start runId criteria (.paying 0 0) entered s)
      (service.recordDecision s turn request intent)
      (Ready start runId criteria .decided entered) (fun _ => Rested start runId criteria) := by
  refine Ready.resting (Service.plainRecord_fair hopening (by simp) ?_
    (fun e _ he => .decide (he.reads rfl (by simp))) (by simp)) trivial
  simp only [List.forall_mem_cons]
  exact ⟨trivial, trivial, isFlat_textOrNone _, isFlat_textOrNone _, trivial, trivial,
    fun _ h => absurd h List.not_mem_nil⟩

theorem Service.handleNonTool_fair {action : DecisionAction} {message : PyStr}
    (hopening : Opening start runId) :
    Triple (fair start runId criteria) (Ready start runId criteria .decided entered s)
      (service.handleNonTool s action message)
      (fun _ => Rested start runId criteria) (fun _ => Rested start runId criteria) := by
  have hdone {l : AgentRunLifecycle} {s' : AgentRunState F} (hl : l = .waitingUser ∨ l = .blocked)
      (verdict : AcceptanceVerdict) :
      Triple (fair start runId criteria) (Ready start runId criteria (.ended l) entered s')
        (Pure.pure verdict : Act F AcceptanceVerdict) (fun _ => Rested start runId criteria)
        (fun _ => Rested start runId criteria) := by
    refine Triple.pure (stable_alone _) fun _ _ h => h.rested ?_
    rcases hl with rfl | rfl <;> simp [Stage.MayRest, runTerminal]
  have hrefuse : Triple (fair start runId criteria)
      (Ready start runId criteria .decided entered s) (service.handleNonTool s .submit message)
      (fun _ => Rested start runId criteria) (fun _ => Rested start runId criteria) := by
    refine Triple.bind (Q := Ready start runId criteria .refused entered)
      (Ready.resting (Service.verdict_fair hopening (by simp) (by simp [IsFlat])
        (fun e _ he => .refuse (he.reads (by simp [field, Items.lookup]) (by simp))) false rfl
        (fun _ => by simp [field, Items.lookup]) fun _ => by simp [field, Items.lookup]) trivial)
      fun s => ?_
    exact Triple.bind (Ready.resting (Service.move_fair .blocked hopening (by simp)
      (by simp [IsFlat]) (by simp [field, Items.lookup]) (by decide)
      (fun h => by simp [field, Items.lookup]) fun e => .block) trivial) fun _ => hdone (.inr rfl) _
  cases action with
  | askUser =>
    exact Triple.bind (Ready.resting (Service.move_fair .waitingUser hopening (by simp)
      (by simp [IsFlat]) (by simp [field, Items.lookup]) (by decide) (fun h => (by cases h))
      fun e he => .stop he (.inl rfl)) trivial) fun _ => hdone (.inl rfl) _
  | blocked =>
    exact Triple.bind (Ready.resting (Service.move_fair .blocked hopening (by simp)
      (by simp [IsFlat]) (by simp [field, Items.lookup]) (by decide) (fun h => (by cases h))
      fun e he => .stop he (.inr rfl)) trivial) fun _ => hdone (.inr rfl) _
  | submit => exact hrefuse
  | callTool => exact hrefuse

/-- The payload of a proposal. -/
abbrev proposalItems (actionId invocationId digest : PyStr) : List (PyStr × Value F) :=
  [(py "action_id", .str actionId), (py "invocation_id", .str invocationId),
    (py "tool_catalog_digest", .str digest)]

/-- The proposal of the call of the turn. -/
theorem Service.propose_fair {actionId invocationId : PyStr} (hopening : Opening start runId)
    (haction : IsIdentifier actionId) (hinvocation : IsIdentifier invocationId) :
    Triple (fair start runId criteria) (Ready start runId criteria .waiting entered s)
      (service.appendPlain s .toolProposed
        (proposalItems actionId invocationId service.catalog.digest))
      (Ready start runId criteria (.call invocationId .proposed) entered) (fun _ _ => False) := by
  refine Ready.of_tidy (Service.appendPlain_fair hopening
    (wellFormed_flat (by simp) (by simp [IsFlat])) ?_ fun e he =>
      .propose (he.reads (by simp [field, Items.lookup]) (by simp))) ?_
  · intro w e events hw hstream hs kind payload hfree
    obtain ⟨before, hagree⟩ := hw.agrees hopening.decides
    have hinvocation_eq : field (proposalItems actionId invocationId service.catalog.digest)
        "invocation_id" = (.str invocationId : Value F) := by simp [field, Items.lookup]
    have haction_eq : field (proposalItems actionId invocationId service.catalog.digest)
        "action_id" = (.str actionId : Value F) := by simp [field, Items.lookup]
    have hdigest_eq : field (proposalItems actionId invocationId service.catalog.digest)
        "tool_catalog_digest" = (.str service.catalog.digest : Value F) := by
      simp [field, Items.lookup]
    exact ⟨_, .toolProposed kind payload hinvocation_eq haction_eq hdigest_eq hagree.lifecycle
      hinvocation haction (hfree.invocation hstream hs payload kind hinvocation_eq)
      (hfree.action hstream hs payload kind haction_eq)⟩
  · refine Value.tidy_dict (by simp) (by simp only [List.map_cons, List.map_nil]; decide) ?_
    simp only [List.forall_mem_cons]
    exact ⟨Value.tidy_str.mpr (clean_of_isBounded haction),
      Value.tidy_str.mpr (clean_of_isBounded hinvocation), Value.tidy_str.mpr (clean_shaDigest _),
      fun _ h => absurd h List.not_mem_nil⟩

theorem Service.proposeCall_fair (hopening : Opening start runId) (hcall : Compiled intent call)
    (hoffered : ∃ definition, service.catalog.get? call.toolId = some definition) :
    Triple (fair start runId criteria) (Ready start runId criteria .decided entered s)
      (service.proposeCall s call)
      (Ready start runId criteria (.call call.invocationId .ready) entered) (fun _ _ => False) := by
  have hinvocation : Clean call.invocationId := clean_of_isBounded hcall.invocation_ok
  have haction : Clean call.actionId := clean_of_isBounded hcall.action_ok
  unfold Service.proposeCall
  refine Triple.bind (Service.transition_fair hopening (by decide) (by decide) fun e => .wait)
    fun s => ?_
  refine Triple.bind (Service.propose_fair hopening hcall.action_ok hcall.invocation_ok) fun s => ?_
  obtain ⟨message, hdigest⟩ := hcall.digest
  obtain ⟨definition, hdefinition⟩ := hoffered
  rw [hdigest, hdefinition]
  refine Triple.bind (Q := fun digest w =>
      Ready start runId criteria (.call call.invocationId .proposed) entered s w ∧
        digest = shaDigest message)
    (Act.triple_lift (fun _ hd w _ hw => ⟨hw, (Except.ok.inj hd).symm⟩)
      fun _ he => absurd he (by simp)) fun digest => Triple.of_fact fun hd => ?_
  have hrevision : Clean definition.revision.compilerRevision :=
    clean_of_isBounded (definition.revision.ids_ok _ (by simp))
  refine Triple.bind (Q := Ready start runId criteria (.call call.invocationId .compiled) entered)
    (Ready.of_tidy (Service.invocationRecord_fair hopening (by simp) (by simp [IsFlat])
      (fun e _ he => .compile (he.reads (by simp [field, Items.lookup]) (by simp)))
      (fun _ => by simp [field, Items.lookup]) rfl (by simp)) ?_) fun s => ?_
  · refine Value.tidy_dict (by simp) (by simp only [List.map_cons, List.map_nil]; decide) ?_
    simp only [List.forall_mem_cons]
    exact ⟨Value.tidy_str.mpr hinvocation, Value.tidy_str.mpr haction,
      Value.tidy_str.mpr (hd ▸ clean_shaDigest _), Value.tidy_str.mpr hrevision,
      fun _ h => absurd h List.not_mem_nil⟩
  · exact Service.toolTransition_fair hopening hinvocation rfl (by decide) fun e => .prepare

theorem authorize_fair (deadlineUtc : Option PyStr) (allowedTools : List PyStr)
    (catalogDigest expected : PyStr) :
    Triple (fair start runId criteria) (Ready start runId criteria stage entered s)
      (authorize call deadlineUtc allowedTools catalogDigest expected)
      (fun _ => Ready start runId criteria stage entered s) (fun _ _ => False) := by
  have hpure (result : AuthorizationResult) :
      Triple (fair start runId criteria) (Ready start runId criteria stage entered s)
        (Pure.pure result : Act F AuthorizationResult)
        (fun _ => Ready start runId criteria stage entered s) (fun _ _ => False) :=
    Triple.pure (stable_alone _) fun _ _ h => h
  refine Triple.ite (fun _ => hpure _) fun _ => ?_
  refine Triple.bind (deadlinePassed_fair _) fun passed => ?_
  refine Triple.ite (fun _ => hpure _) fun _ => ?_
  exact Triple.ite (fun _ => hpure _) fun _ => Triple.ite (fun _ => hpure _) fun _ => hpure _

/-- A call that is not allowed is left where it was refused. -/
theorem Service.authorizeCall_fair (hopening : Opening start runId) (hcall : Compiled intent call) :
    Triple (fair start runId criteria)
      (Ready start runId criteria (.call call.invocationId .ready) entered s)
      (service.authorizeCall s turn request call)
      (Ready start runId criteria (.call call.invocationId .authorized) entered)
      (fun _ => Rested start runId criteria) := by
  have hinvocation : Clean call.invocationId := clean_of_isBounded hcall.invocation_ok
  obtain ⟨message, hdigest⟩ := hcall.digest
  have hnever {α : Type} {P : World F → Prop} {act : Act F α} {Q : α → World F → Prop}
      (h : Triple (fair start runId criteria) P act Q (fun _ _ => False)) :
      Triple (fair start runId criteria) P act Q (fun _ => Rested start runId criteria) :=
    h.conseq (fun _ _ h => h) (fun _ _ _ h => h) fun _ _ _ h => h.elim
  unfold Service.authorizeCall
  rw [hdigest]
  refine Triple.bind (hnever (authorize_fair _ _ _ _)) fun authorization => ?_
  refine Triple.bind (Q := fun digest w =>
      Ready start runId criteria (.call call.invocationId .ready) entered s w ∧
        digest = shaDigest message)
    (Act.triple_lift (fun _ hd w _ hw => ⟨hw, (Except.ok.inj hd).symm⟩)
      fun _ he => absurd he (by simp)) fun digest => Triple.of_fact fun hd => ?_
  refine Triple.bind (Q := Ready start runId criteria
      (.call call.invocationId (.checked authorization.decision)) entered)
    (hnever (Ready.of_tidy (Service.invocationRecord_fair hopening (by simp) (by simp [IsFlat])
      (fun e _ he => .check (he.reads (by simp [field, Items.lookup]) (by simp)))
      (fun _ => by simp [field, Items.lookup]) rfl (by simp)) ?_)) fun s => ?_
  · refine Value.tidy_dict (by simp) (by simp only [List.map_cons, List.map_nil]; decide) ?_
    simp only [List.forall_mem_cons]
    exact ⟨Value.tidy_str.mpr hinvocation, Value.tidy_str.mpr authorization.decision.clean_value,
      Value.tidy_str.mpr (by decide), Value.tidy_str.mpr (hd ▸ clean_shaDigest _),
      Value.tidy_str.mpr (clean_of_isBounded hcall.key_ok), fun _ h => absurd h List.not_mem_nil⟩
  cases authorization.decision with
  | requireApproval =>
    refine Triple.bind (hnever (Service.toolTransition_fair hopening hinvocation rfl (by decide)
      fun e => .forbid rfl)) fun s => Triple.raise (stable_alone _) fun _ _ h => h.rested (.inr rfl)
  | deny =>
    refine Triple.bind (hnever (Service.toolTransition_fair hopening hinvocation rfl (by decide)
      fun e => .forbid rfl)) fun s => Triple.raise (stable_alone _) fun _ _ h => h.rested (.inl rfl)
  | allow =>
    exact hnever (Service.toolTransition_fair hopening hinvocation rfl (by decide) fun e => .allow)

/-- A call that is allowed is dispatched: the run can pay for it. -/
theorem Service.dispatchCall_fair (hopening : Opening start runId) (hcall : Compiled intent call) :
    Triple (fair start runId criteria)
      (Ready start runId criteria (.call call.invocationId .authorized) entered s)
      (service.dispatchCall s call)
      (Ready start runId criteria (.call call.invocationId .attempted) entered)
      (fun _ _ => False) := by
  have hinvocation : Clean call.invocationId := clean_of_isBounded hcall.invocation_ok
  have hone : digitCount 1 ≤ Value.maxStrDigits := by decide
  have hattempt : (Value.dict [(py "invocation_id", (.str call.invocationId : Value F)),
      (py "attempt", .int 1)]).Tidy := by
    refine Value.tidy_dict (by simp) (by simp only [List.map_cons, List.map_nil]; decide) ?_
    simp only [List.forall_mem_cons]
    exact ⟨Value.tidy_str.mpr hinvocation, Value.tidy_int.mpr hone,
      fun _ h => absurd h List.not_mem_nil⟩
  obtain ⟨attempt, hid⟩ := stableId_of_tidy "toolatt" hattempt
  have hidentifier : IsIdentifier attempt := isIdentifier_stableId hid (by decide) (by decide)
  unfold Service.dispatchCall
  refine Triple.bind ((Service.consumeBudget_fair hopening (by omega) fun e => .charge).conseq
    (fun _ _ h => h) (fun _ _ _ h => h) fun _ w _ h => h.2 ?_) fun s => ?_
  · exact ⟨h.1.affords.calls rfl, hinvocation, hone⟩
  rw [hid]
  refine Triple.bind (Q := fun attemptId w =>
      Ready start runId criteria (.call call.invocationId .charged) entered s w ∧
        attemptId = attempt)
    (Act.triple_lift (fun _ hd w _ hw => ⟨hw, (Except.ok.inj hd).symm⟩)
      fun _ he => absurd he (by simp)) fun attemptId => Triple.of_fact fun hd => ?_
  subst hd
  refine Triple.bind (Q := Ready start runId criteria (.call call.invocationId .dispatching) entered)
    (Ready.of_tidy (Service.dispatch_fair hopening (by simp) (by simp [IsFlat])
      (fun e _ he => .dispatch (he.reads (by simp [field, Items.lookup]) (by simp)))
      (fun _ => by simp [field, Items.lookup]) rfl rfl rfl rfl) ?_) fun s => ?_
  · refine Value.tidy_dict (by simp) (by simp only [List.map_cons, List.map_nil]; decide) ?_
    simp only [List.forall_mem_cons]
    exact ⟨Value.tidy_str.mpr hinvocation, Value.tidy_str.mpr (clean_of_isBounded hidentifier),
      Value.tidy_str.mpr (clean_of_isBounded hcall.key_ok),
      Value.tidy_str.mpr call.effectClass.clean_value, Value.tidy_str.mpr (by decide),
      fun _ h => absurd h List.not_mem_nil⟩
  refine Triple.bind (Service.toolTransition_fair hopening hinvocation rfl (by decide)
    fun e => .enter) fun s => ?_
  refine (Service.consumeBudget_fair hopening (by omega) fun e => .attempt).conseq
    (fun _ _ h => h) (fun _ _ _ h => h) fun _ w _ h => h.2 ?_
  exact ⟨h.1.affords.attempts rfl, hinvocation, hone⟩

/-- The executor was entered. -/
def Executes (start w : World F) : Prop :=
  ∃ happened runId id, w.happened = start.happened ++ happened ∧ .executing runId id ∈ happened

theorem Executes.beside {w w' : World F} (h : Executes start w) (hb : Beside w w') :
    Executes start w' := by
  obtain ⟨happened, R, id, heq, hmem⟩ := h
  rcases hb with rfl | ha
  · exact ⟨happened, R, id, heq, hmem⟩
  · cases ha with
    | completed => exact ⟨happened, R, id, heq, hmem⟩
    | touching id' =>
      exact ⟨happened ++ [.touching id'], R, id, by rw [heq, List.append_assoc],
        List.mem_append_left _ hmem⟩
    | failing id' e =>
      exact ⟨happened ++ [.failing id' e], R, id, by rw [heq, List.append_assoc],
        List.mem_append_left _ hmem⟩

/-- The turn stands at a call that is being executed. -/
def Executing (start : World F) (runId : PyStr) (criteria : Dict PyStr PyStr) (id : PyStr)
    (s : AgentRunState F) (w : World F) : Prop :=
  Ready start runId criteria (.call id .attempted) true s w ∧ Executes start w

theorem Executing.confined {α : Type} {act : Act F α} {id : PyStr} {V : α → Prop}
    {X : Raised → Prop} (h : act.Confined Beside V X) :
    Triple (fair start runId criteria) (Executing start runId criteria id s) act
      (fun a w => Executing start runId criteria id s w ∧ V a)
      (fun _ => Executing start runId criteria id s) :=
  (h.triple (fun _ _ hb ⟨⟨stage, entered, hw⟩, hfine⟩ =>
    ⟨⟨stage, entered, hw.beside hb⟩, hfine.beside hb⟩) fun _ _ hb hw =>
      (⟨hw.1.beside hb, hw.2.beside hb⟩ : Executing start runId criteria id s _)).conseq
    (fun _ _ h => h) (fun _ _ _ h => h) fun _ _ _ h => h.1

theorem Service.executeCall_fair :
    Triple (fair start runId criteria)
      (Ready start runId criteria (.call call.invocationId .attempted) false s)
      (service.executeCall runId call token)
      (fun _ => Executing start runId criteria call.invocationId s)
      (fun _ => Executing start runId criteria call.invocationId s) := by
  unfold Service.executeCall
  refine Triple.bind (Q := fun _ => Executing start runId criteria call.invocationId s)
    (Act.triple_note fun w _ hw => ?_) fun _ => ?_
  · have hentered := hw.enter rfl
    have hfine : Fine start
        { w with happened := w.happened ++ [.executing runId call.invocationId] } :=
      hw.fine.note fun _ _ h => (by cases h)
    obtain ⟨new, hnew, -⟩ := hw.fine.accepted
    exact ⟨⟨⟨_, true, hentered.extends_⟩, hfine⟩, ⟨hentered, hfine, hw.affords⟩,
      new ++ [.executing runId call.invocationId], runId, call.invocationId,
      by rw [hnew, List.append_assoc], List.mem_append_right _ (List.mem_singleton_self _)⟩
  · refine Triple.conseq (Executing.confined (Act.Quiet.tryCatch (quiet_execute _ _ _) fun e => ?_))
      (fun _ _ h => h) (fun _ _ _ h => h.1) fun _ _ _ h => h
    refine .bind (.modify fun w => .failing _ _) fun _ => ?_
    cases e <;> first | exact .pure _ | exact .raise _

theorem Service.recordResult_fair (hopening : Opening start runId) (hcall : Compiled intent call)
    (hresult : Recordable result) :
    Triple (fair start runId criteria)
      (Ready start runId criteria (.call call.invocationId .attempted) entered s)
      (service.recordResult s call result)
      (Ready start runId criteria (.outcome call.invocationId result .closed) entered)
      (fun _ _ => False) := by
  have hinvocation : Clean call.invocationId := clean_of_isBounded hcall.invocation_ok
  have htidy (text : Option PyStr) (h : ∀ t ∈ text, Clean t) :
      (textOrNone text : Value F).Tidy := by
    cases text with
    | none => exact Value.tidy_null
    | some t => exact Value.tidy_str.mpr (h t rfl)
  unfold Service.recordResult
  refine Triple.bind (Q := Ready start runId criteria (.outcome call.invocationId result .recorded)
    entered) (Ready.of_tidy (Service.result_fair hopening (by simp) ?_
      (fun e _ he => .record (he.reads (by simp [field, Items.lookup]) (by simp)))
      (fun _ => by simp [field, Items.lookup]) rfl rfl rfl) ?_) fun s => ?_
  · simp only [List.forall_mem_cons]
    exact ⟨trivial, trivial, isFlat_textOrNone _, isFlat_textOrNone _, trivial, trivial,
      fun _ h => absurd h List.not_mem_nil⟩
  · refine Value.tidy_dict (by simp) (by simp only [List.map_cons, List.map_nil]; decide) ?_
    simp only [List.forall_mem_cons]
    exact ⟨Value.tidy_str.mpr hinvocation, Value.tidy_str.mpr result.status.clean_value,
      htidy _ hresult.dataRef, htidy _ hresult.dataHash, Value.tidy_bool _,
      Value.tidy_str.mpr result.sideEffectState.clean_value, fun _ h => absurd h List.not_mem_nil⟩
  · refine Service.toolTransition_fair hopening hinvocation rfl ?_ fun e => .close
    have hstatus := hresult.status
    simp only [List.mem_cons, List.not_mem_nil, or_false] at hstatus
    show result.status ∈ toolTransitions .dispatched
    rcases hstatus with h | h | h | h <;> rw [h] <;> decide

theorem decideFlow_target (result : ToolResultEnvelope) :
    (decideFlow result).2 ∈ [AgentRunLifecycle.paused, .deciding, .verifying] := by
  unfold decideFlow
  split_ifs <;> decide

theorem Service.concludeCall_fair (hopening : Opening start runId) (hcall : Compiled intent call)
    (hcriteria : task.acceptance = criteria) :
    Triple (fair start runId criteria)
      (Ready start runId criteria (.outcome call.invocationId result .closed) entered s)
      (service.concludeCall s task call result)
      (fun _ => Rested start runId criteria) (fun _ _ => False) := by
  have hinvocation : Clean call.invocationId := clean_of_isBounded hcall.invocation_ok
  have hflow := decideFlow_target result
  have hdone {l : AgentRunLifecycle} {s' : AgentRunState F} (hl : (Stage.ended l).MayRest) :
      Triple (fair start runId criteria) (Ready start runId criteria (.ended l) entered s')
        (Pure.pure (.envelope result) : Act F TurnResult) (fun _ => Rested start runId criteria)
        (fun _ _ => False) :=
    Triple.pure (stable_alone _) fun _ _ h => h.rested hl
  unfold Service.concludeCall
  refine Triple.bind (Service.transition_fair hopening (List.mem_cons_self ..) (by decide)
    fun e => .observe) fun s => ?_
  dsimp only
  refine Triple.bind (Q := Ready start runId criteria (.outcome call.invocationId result .directed)
    entered) (Ready.of_tidy (Service.plainRecord_fair hopening (by simp) (by simp [IsFlat])
      (fun e _ he => .direct (he.reads (by simp [field, Items.lookup]) (by simp))) (by simp)) ?_)
    fun s => ?_
  · refine Value.tidy_dict (by simp) (by simp only [List.map_cons, List.map_nil]; decide) ?_
    simp only [List.forall_mem_cons]
    exact ⟨Value.tidy_str.mpr hinvocation, Value.tidy_str.mpr (FlowPolicy.clean_value _),
      Value.tidy_str.mpr (AgentRunLifecycle.clean_value _), fun _ h => absurd h List.not_mem_nil⟩
  by_cases hverify : (decideFlow result).2 = .verifying
  · -- the verdict of the gate decides how the run ends
    rw [hverify, hcriteria]
    have hallowed : AgentRunLifecycle.verifying ∈ runTransitions .observing := by decide
    refine Triple.bind (Service.transition_fair hopening hallowed (by decide)
      fun e => .verify hverify) fun s => ?_
    rw [if_pos rfl]
    refine Triple.bind (Q := Ready start runId criteria (.outcome call.invocationId result
        (.judged (evaluate result criteria).accepted)) entered)
      (Ready.of_tidy (Service.verdict_fair hopening (by simp) (by simp [IsFlat])
        (fun e _ he => .judge (he.reads (by simp [field, Items.lookup]) (by simp)))
        (evaluate result criteria).accepted rfl (fun _ => by simp [field, Items.lookup])
        fun _ => by simp [field, Items.lookup]) ?_) fun s => ?_
    · refine Value.tidy_dict (by simp) (by simp only [List.map_cons, List.map_nil]; decide) ?_
      simp only [List.forall_mem_cons]
      exact ⟨Value.tidy_bool _, Value.tidy_str.mpr (by decide), Value.tidy_str.mpr hinvocation,
        Value.tidy_str.mpr (clean_reason _ _), fun _ h => absurd h List.not_mem_nil⟩
    · let target : AgentRunLifecycle :=
        if (evaluate result criteria).accepted then .succeeded else .blocked
      have htarget : target = .succeeded ∨ target = .blocked := by
        by_cases h : (evaluate result criteria).accepted = true
        · exact .inl (if_pos h)
        · exact .inr (if_neg h)
      refine Triple.bind (Ready.of_tidy (Service.move_fair target hopening (by simp)
        (by simp [IsFlat]) (by simp [field, Items.lookup, target]) ?_
        (fun h => by simp [field, Items.lookup]) fun e => .conclude) ?_) fun _ => hdone ?_
      · rcases htarget with h | h <;> rw [h] <;> simp [Stage.lifecycle, OutcomePhase.lifecycle, runTransitions]
      · refine Value.tidy_dict (by simp) (by simp only [List.map_cons, List.map_nil]; decide) ?_
        simp only [List.forall_mem_cons]
        exact ⟨Value.tidy_str.mpr (AgentRunLifecycle.clean_value _),
          Value.tidy_str.mpr (by decide), fun _ h => absurd h List.not_mem_nil⟩
      · show target ∈ _
        rcases htarget with h | h <;> rw [h] <;> decide
  · have htarget : (decideFlow result).2 = .paused ∨ (decideFlow result).2 = .deciding := by
      simpa [hverify] using hflow
    refine Triple.bind (Service.transition_fair hopening ?_ ?_ fun e => .leave hverify) fun s => ?_
    · show (decideFlow result).2 ∈ runTransitions .observing
      rcases htarget with h | h <;> rw [h] <;> decide
    · rcases htarget with h | h <;> rw [h] <;> decide
    · rw [if_neg hverify]
      refine hdone ?_
      show (decideFlow result).2 ∈ _
      rcases htarget with h | h <;> rw [h] <;> decide

end Parts

/-! ### Whole turns -/

/-- Where a turn stands when its call has returned: at its end if it called no
tool, and otherwise at the envelope of its call. -/
inductive Halfway (F : Type) where
  | done (result : TurnResult)
  | called (state : AgentRunState F) (call : CompiledToolCall F) (result : ToolResultEnvelope)

/-- A turn up to the envelope of its call. -/
def Service.beginTurn (service : Service F) (turn : TurnContext) (task : AtomicTask F)
    (token : Bool) : Act F (Halfway F) := do
  let (state, request) ← service.openTurn turn task
  let (intent, response) ← service.decide turn.runId request
  let state ← service.recordInference state turn request response
  let state ← service.recordDecision state turn request intent
  if intent.action = .callTool then do
    let call ← compile service.compilerCatalog service.adapters intent
      ⟨turn.runId, turn.turnId, service.catalog.digest, task.bindings⟩
    let state ← service.proposeCall state call
    let state ← service.authorizeCall state turn request call
    let state ← service.dispatchCall state call
    let raw ← service.executeCall turn.runId call token
    let result ← normalize service.observationByteCap raw call.toolId call.toolVersion
    Pure.pure (.called state call result)
  else do
    let verdict ← service.handleNonTool state intent.action (intent.message.getD [])
    Pure.pure (.done (.verdict verdict))

/-- The rest of a turn. -/
def Service.endTurn (service : Service F) (task : AtomicTask F) : Halfway F → Act F TurnResult
  | .done result => Pure.pure result
  | .called state call result => do
    let state ← service.recordResult state call result
    service.concludeCall state task call result

theorem Service.executeTurn_eq (service : Service F) (turn : TurnContext) (task : AtomicTask F)
    (token : Bool) : service.executeTurn turn task token =
      service.beginTurn turn task token >>= service.endTurn task := by
  unfold Service.executeTurn Service.beginTurn
  rw [Thread.bind_assoc]
  refine congrArg _ (funext fun ⟨state, request⟩ => ?_)
  dsimp only
  rw [Thread.bind_assoc]
  refine congrArg _ (funext fun ⟨intent, response⟩ => ?_)
  dsimp only
  rw [Thread.bind_assoc]
  refine congrArg _ (funext fun state => ?_)
  rw [Thread.bind_assoc]
  refine congrArg _ (funext fun state => ?_)
  by_cases haction : intent.action = .callTool
  · rw [if_pos haction, if_pos haction]
    unfold Service.callTool Service.completeCall
    simp only [Thread.bind_assoc]
    rfl
  · rw [if_neg haction, if_neg haction, Thread.bind_assoc]
    rfl

section Whole

variable {turn : TurnContext} {task : AtomicTask F} {token : Bool}

/-- Where a turn halfway stands. -/
def AtHalf (start : World F) (runId : PyStr) (criteria : Dict PyStr PyStr) :
    Halfway F → World F → Prop
  | .done _, w => Rested start runId criteria w
  | .called s call result, w => ∃ intent, Compiled intent call ∧ Recordable result ∧
      Ready start runId criteria (.call call.invocationId .attempted) true s w

theorem Service.beginTurn_fair (hopening : Opening start runId) (hrun : turn.runId = runId) :
    Triple (fair start runId criteria) (Ready start runId criteria .idle false s)
      (service.beginTurn turn task token) (AtHalf start runId criteria)
      (fun _ w => Rested start runId criteria w ∨ Executes start w) := by
  have hrested {α : Type} {P : World F → Prop} {act : Act F α} {Q : α → World F → Prop}
      (h : Triple (fair start runId criteria) P act Q (fun _ => Rested start runId criteria)) :
      Triple (fair start runId criteria) P act Q
        (fun _ w => Rested start runId criteria w ∨ Executes start w) :=
    h.conseq (fun _ _ h => h) (fun _ _ _ h => h) fun _ _ _ h => .inl h
  have hnever {α : Type} {P : World F → Prop} {act : Act F α} {Q : α → World F → Prop}
      (h : Triple (fair start runId criteria) P act Q (fun _ _ => False)) :
      Triple (fair start runId criteria) P act Q
        (fun _ w => Rested start runId criteria w ∨ Executes start w) :=
    h.conseq (fun _ _ h => h) (fun _ _ _ h => h) fun _ _ _ h => h.elim
  unfold Service.beginTurn
  refine Triple.bind (hrested (Service.openTurn_fair hrun)) fun ⟨s, request⟩ => ?_
  refine Triple.of_fact fun hoffered => ?_
  rw [hrun]
  refine Triple.bind (hrested (Service.decide_fair hopening)) fun ⟨intent, response⟩ => ?_
  refine Triple.of_fact fun ⟨htool, hinput, houtput, hms⟩ => ?_
  refine Triple.bind (hrested (Service.recordInference_fair hopening hinput houtput hms))
    fun s => ?_
  refine Triple.bind (hrested (Service.recordDecision_fair hopening)) fun s => ?_
  refine Triple.ite (fun haction => ?_) fun _ => ?_
  · obtain ⟨id, hid, hintent⟩ := htool haction
    refine Triple.bind (hrested ((Ready.confined (compile_confined _ _ intent _)).conseq
      (fun _ _ h => h) (fun _ _ _ h => h) fun _ _ _ h => h.1.rested trivial)) fun call =>
      Triple.of_fact fun hcall => ?_
    have htoolId : call.toolId = id := Option.some_inj.mp (hcall.tool.symm.trans hintent)
    refine Triple.bind (hnever (Service.proposeCall_fair hopening hcall
      (htoolId ▸ hoffered id hid))) fun s => ?_
    refine Triple.bind (hrested (Service.authorizeCall_fair hopening hcall)) fun s => ?_
    refine Triple.bind (hnever (Service.dispatchCall_fair hopening hcall)) fun s => ?_
    refine Triple.bind (Service.executeCall_fair.conseq (fun _ _ h => h) (fun _ _ _ h => h)
      fun _ w _ h => .inr h.2) fun raw => ?_
    refine Triple.bind ((Executing.confined (normalize_confined _ _ _ _)).conseq
      (fun _ _ h => h) (fun _ _ _ h => h) fun _ w _ h => .inr h.2) fun result =>
      Triple.of_fact fun hresult => ?_
    exact Triple.pure (stable_alone _) fun w _ h => ⟨intent, hcall, hresult, h.1⟩
  · refine Triple.bind (hrested (Service.handleNonTool_fair hopening)) fun verdict => ?_
    exact Triple.pure (stable_alone _) fun _ _ h => h

theorem Service.endTurn_fair (hopening : Opening start runId)
    (hcriteria : task.acceptance = criteria) (half : Halfway F) :
    Triple (fair start runId criteria) (AtHalf start runId criteria half)
      (service.endTurn task half) (fun _ => Rested start runId criteria) (fun _ _ => False) := by
  cases half with
  | done result =>
    show Triple _ _ (Pure.pure result) _ _
    exact Triple.pure (stable_alone _) fun _ _ h => h
  | called s call result =>
    intro w hi ⟨intent, hcall, hresult, hw⟩
    exact Triple.bind (Service.recordResult_fair hopening hcall hresult)
      (fun s => Service.concludeCall_fair hopening hcall hcriteria) w hi hw

/-- The last event of the run forbids the call of the turn. -/
def RefusedLast (db : Database F) (runId : PyStr) : Prop :=
  ∃ events e id target, db.stream runId = .ok (events ++ [e]) ∧ e.MovesTool id target ∧
    (target = .denied ∨ target = .waitingApproval)

/-- Where a turn may leave a run: deciding, at rest, or waiting for a call that
was refused. -/
def MayStand (db : Database F) (runId : PyStr) : Prop :=
  ∃ s, db.runState runId = .ok s ∧
    (s.lifecycle ∈ AgentRunLifecycle.deciding :: .waitingUser :: .paused :: runTerminal ∨
      s.lifecycle = .waitingTool ∧ RefusedLast db runId)

theorem Path.refused {events : List (AgentEvent F)} {id : PyStr} {target : ToolInvocationLifecycle}
    (path : Path criteria events (.call id (.stopped target))) :
    ∃ before e, events = before ++ [e] ∧ e.MovesTool id target := by
  cases path with
  | @snoc before e _ _ path next =>
    cases next with
    | forbid _ event => exact ⟨before, e, rfl, event⟩

theorem Rested.mayStand {w : World F} (hopening : Opening start runId)
    (h : Rested start runId criteria w) : MayStand w.db runId := by
  obtain ⟨stage, entered, s, hready, hrest⟩ := h
  obtain ⟨base, events, -, hstream, hpath, -⟩ := hready.stream hopening.decides
  obtain ⟨before, hagree⟩ := hready.agrees hopening.decides
  have hlife := hagree.lifecycle
  refine ⟨s, hready.state, ?_⟩
  cases stage with
  | waiting => exact hrest.elim
  | outcome => exact hrest.elim
  | ended l => exact .inl (hlife ▸ hrest)
  | call id phase =>
    cases phase with
    | stopped target =>
      obtain ⟨before, e, rfl, event⟩ := hpath.refused
      exact .inr ⟨hlife, base ++ before, e, id, target, by rw [hstream, List.append_assoc], event,
        hrest⟩
    | _ => exact hrest.elim
  | _ => exact .inl (hlife ▸ List.mem_cons_self ..)

/-- The call of the turn, if it comes to be executed, is executed to an envelope. -/
def Normalizes (service : Service F) (turn : TurnContext) (task : AtomicTask F) (token : Bool)
    (start : World F) (replies : List Reply) : Prop :=
  ∀ e, ((service.beginTurn turn task token).exec start replies).2 = some (.error e) →
    ¬ Executes start ((service.beginTurn turn task token).exec start replies).1

end Whole

end Agent
