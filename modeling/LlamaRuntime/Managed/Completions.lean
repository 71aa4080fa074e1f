/-
What a completion is answered with.

An answer is read piece by piece, and what is missing is an error of the provider.  Only the
content goes through a loader with an exception of its own, and `str` may refuse the id: the
call then fails as if the adapter were at fault.

* `readCompletion_ok` — what is accepted of an answer;
* `Consistent.step` — what a call has published and received at every stage;
* `completions_typed_iff` — when a call that was answered ends as it should.
-/
import LlamaRuntime.Managed.Capacity

namespace Managed

open Json Worker
open Inference (SchedulerEvent SchedulerEventKind ClockReading)

variable {F : Type} [Floats F]

/-! ### What is accepted -/

/-- A completion the contract admits: one choice with a message whose content is strict JSON
without violations, and counts that are no negative numbers. -/
structure Admits (contract : ContractAST) (raw : Value F) (completion : Completion F) : Prop where
  root : raw = .dict completion.items
  content : ∃ choice message content,
    Items.lookup (py "choices") completion.items = some (.list [.dict choice]) ∧
      Items.lookup (py "message") choice = some (.dict message) ∧
        Items.lookup (py "content") message = some (.str content) ∧
          Worker.loads (.str content) = .ok completion.output
  output : validateOutput completion.output contract = []
  usage : ∃ usage, (Items.lookup (py "usage") completion.items).getD (.dict []) = .dict usage ∧
    (Items.lookup (py "prompt_tokens") usage).getD (.int 0) = .int completion.promptTokens ∧
      (Items.lookup (py "completion_tokens") usage).getD (.int 0) = .int completion.completionTokens

omit [Floats F] in
theorem readContent_ok {raw : Value F} {items : List (PyStr × Value F)} {content : PyStr} :
    readContent raw = .ok (items, content) ↔ raw = .dict items ∧ ∃ choice message,
      Items.lookup (py "choices") items = some (.list [.dict choice]) ∧
        Items.lookup (py "message") choice = some (.dict message) ∧
          Items.lookup (py "content") message = some (.str content) := by
  constructor
  · intro h
    unfold readContent at h
    split at h
    · rename_i items'
      split at h
      · exact absurd h (by simp)
      · rename_i choice hchoices
        split at h
        · rename_i message hmessage
          split at h
          · rename_i content' hcontent
            obtain ⟨rfl, rfl⟩ := Prod.mk.inj (Except.ok.inj h)
            exact ⟨rfl, choice, message, hchoices, hmessage, hcontent⟩
          · exact absurd h (by simp)
        · exact absurd h (by simp)
      · exact absurd h (by simp)
      · exact absurd h (by simp)
    · exact absurd h (by simp)
  · rintro ⟨rfl, choice, message, hchoices, hmessage, hcontent⟩
    unfold readContent
    dsimp only
    rw [hchoices]
    dsimp only
    rw [hmessage]
    dsimp only
    rw [hcontent]

omit [Floats F] in
theorem usageCount_ok {usage : List (PyStr × Value F)} {name : String} {n : ℕ} :
    usageCount usage name = .ok n ↔ (Items.lookup (py name) usage).getD (.int 0) = .int n := by
  unfold usageCount
  cases (Items.lookup (py name) usage).getD (.int 0) with
  | int m =>
    dsimp only
    by_cases hneg : m < 0
    · rw [if_pos hneg]
      constructor
      · intro h
        exact absurd h (by simp)
      · intro h
        have := Value.int.inj h
        omega
    · rw [if_neg hneg]
      constructor
      · intro h
        have := Except.ok.inj h
        congr 1
        omega
      · intro h
        have := Value.int.inj h
        congr 1
        omega
  | _ => simp

omit [Floats F] in
theorem readUsage_ok {items usage : List (PyStr × Value F)} :
    readUsage items = .ok usage ↔
      (Items.lookup (py "usage") items).getD (.dict []) = .dict usage := by
  unfold readUsage
  cases (Items.lookup (py "usage") items).getD (.dict []) <;> simp

theorem readOutput_ok {content : PyStr} {output : Value F} :
    readOutput content = .ok output ↔ Worker.loads (.str content) = .ok output := by
  unfold readOutput
  cases (Worker.loads (.str content) : Except WorkerError (Value F)) <;> simp

/-- The pieces are read one after another. -/
theorem readCompletion_eq_ok {contract : ContractAST} {raw : Value F} {completion : Completion F} :
    readCompletion contract raw = .ok completion ↔
      ∃ content, readContent raw = .ok (completion.items, content) ∧
        readOutput content = .ok completion.output ∧
          validateOutput completion.output contract = [] ∧
            ∃ usage, readUsage completion.items = .ok usage ∧
              usageCount usage "prompt_tokens" = .ok completion.promptTokens ∧
                usageCount usage "completion_tokens" = .ok completion.completionTokens := by
  have hbind : ∀ {α β : Type} {x : Except ResponseError α} {f : α → Except ResponseError β} {r : β},
      x >>= f = .ok r ↔ ∃ a, x = .ok a ∧ f a = .ok r := except_bind_ok
  simp only [readCompletion, hbind, Prod.exists]
  constructor
  · rintro ⟨items, content, hcontent, output, houtput, hrest⟩
    by_cases hvalid : validateOutput output contract = []
    · rw [if_neg (not_not.mpr hvalid)] at hrest
      obtain ⟨usage, husage, promptTokens, hprompt, completionTokens, hcompletion, hok⟩ := by
        simpa only [hbind] using hrest
      obtain rfl := Except.ok.inj hok
      exact ⟨content, hcontent, houtput, hvalid, usage, husage, hprompt, hcompletion⟩
    · rw [if_pos hvalid] at hrest
      exact absurd hrest (by simp [bind, Except.bind])
  · rintro ⟨content, hcontent, houtput, hvalid, usage, husage, hprompt, hcompletion⟩
    refine ⟨_, _, hcontent, _, houtput, ?_⟩
    rw [if_neg (not_not.mpr hvalid)]
    simp only [hbind]
    exact ⟨usage, husage, _, hprompt, _, hcompletion, rfl⟩

theorem readCompletion_ok {contract : ContractAST} {raw : Value F} {completion : Completion F} :
    readCompletion contract raw = .ok completion ↔ Admits contract raw completion := by
  rw [readCompletion_eq_ok]
  constructor
  · rintro ⟨content, hcontent, houtput, hvalid, usage, husage, hprompt, hcompletion⟩
    obtain ⟨hroot, choice, message, hchoices, hmessage, htext⟩ := readContent_ok.mp hcontent
    exact ⟨hroot, ⟨choice, message, content, hchoices, hmessage, htext, readOutput_ok.mp houtput⟩,
      hvalid, usage, readUsage_ok.mp husage, usageCount_ok.mp hprompt, usageCount_ok.mp hcompletion⟩
  · rintro ⟨hroot, ⟨choice, message, content, hchoices, hmessage, htext, houtput⟩, hvalid, usage,
      husage, hprompt, hcompletion⟩
    exact ⟨content, readContent_ok.mpr ⟨hroot, choice, message, hchoices, hmessage, htext⟩,
      readOutput_ok.mpr houtput, hvalid, usage, readUsage_ok.mpr husage, usageCount_ok.mpr hprompt,
      usageCount_ok.mpr hcompletion⟩

omit [Floats F] in
theorem readContent_typed {raw : Value F} {error : WorkerError} :
    readContent raw ≠ .error (.worker error) := by
  intro h
  unfold readContent at h
  split at h
  · split at h
    · exact absurd h (by simp)
    · split at h
      · split at h <;> exact absurd h (by simp)
      · exact absurd h (by simp)
    · exact absurd h (by simp)
    · exact absurd h (by simp)
  · exact absurd h (by simp)

omit [Floats F] in
theorem usageCount_typed {usage : List (PyStr × Value F)} {name : String} {error : WorkerError} :
    usageCount usage name ≠ .error (.worker error) := by
  intro h
  unfold usageCount at h
  split at h
  · split_ifs at h
    exact absurd h (by simp)
  · exact absurd h (by simp)

omit [Floats F] in
theorem readUsage_typed {items : List (PyStr × Value F)} {error : WorkerError} :
    readUsage items ≠ .error (.worker error) := by
  intro h
  unfold readUsage at h
  split at h <;> exact absurd h (by simp)

/-- The exception of the loader is that of the content, and no other piece raises one. -/
theorem readCompletion_worker {contract : ContractAST} {raw : Value F} {error : WorkerError} :
    readCompletion contract raw = .error (.worker error) ↔ ∃ items content,
      readContent raw = .ok (items, content) ∧
        (Worker.loads (.str content) : Except WorkerError (Value F)) = .error error := by
  unfold readCompletion
  cases hcontent : readContent raw with
  | error e =>
    simp only [reduceCtorEq, false_and, exists_false, iff_false]
    intro h
    obtain rfl := Except.error.inj h
    exact readContent_typed hcontent
  | ok read =>
    obtain ⟨items, content⟩ := read
    simp only [Except.ok.injEq, Prod.mk.injEq]
    cases houtput : (Worker.loads (.str content) : Except WorkerError (Value F)) with
    | error e =>
      have hread : (readOutput content : Except ResponseError (Value F)) = .error (.worker e) := by
        unfold readOutput
        rw [houtput]
      simp only [bind, Except.bind, hread]
      constructor
      · intro h
        obtain rfl := ResponseError.worker.inj (Except.error.inj h)
        exact ⟨items, content, ⟨rfl, rfl⟩, houtput⟩
      · rintro ⟨_, _, ⟨rfl, rfl⟩, h⟩
        rw [houtput] at h
        rw [Except.error.inj h]
    | ok output =>
      have hread : (readOutput content : Except ResponseError (Value F)) = .ok output :=
        readOutput_ok.mpr houtput
      simp only [bind, Except.bind, hread]
      constructor
      · intro h
        split_ifs at h
        · exact absurd h (by simp)
        · cases husage : readUsage items with
          | error e =>
            rw [husage] at h
            obtain rfl := Except.error.inj h
            exact absurd husage readUsage_typed
          | ok usage =>
            rw [husage] at h
            dsimp only at h
            cases hprompt : usageCount usage "prompt_tokens" with
            | error e =>
              rw [hprompt] at h
              obtain rfl := Except.error.inj h
              exact absurd hprompt usageCount_typed
            | ok promptTokens =>
              rw [hprompt] at h
              dsimp only at h
              cases hcompletion : usageCount usage "completion_tokens" with
              | error e =>
                rw [hcompletion] at h
                obtain rfl := Except.error.inj h
                exact absurd hcompletion usageCount_typed
              | ok completionTokens =>
                rw [hcompletion] at h
                exact absurd h (by simp)
      · rintro ⟨_, _, ⟨rfl, rfl⟩, h⟩
        exact absurd (houtput.symm.trans h) (by simp)

/-! ### How a call ends -/

/-- The events, but for their times. -/
def shapes (published : List SchedulerEvent) :
    List (SchedulerEventKind × PyStr × Option PyStr) :=
  published.map fun event => (event.kind, event.requestId, event.errorCode)

/-- The call returns an output without violations, or raises an error of the provider, and has
published the two events that say so. -/
inductive ValidatedOrTyped (c : Call F) (raw : Value F) : Outcome F → Prop where
  | returned {completion : Completion F} {result : GenerateResult F}
      (admits : Admits c.inputs.request.contract raw completion)
      (output : result.output = completion.output)
      (valid : validateOutput result.output c.inputs.request.contract = [])
      (events : shapes c.published =
        [(.ADMITTED, c.inputs.requestId, none), (.REQUEST_COMPLETED, c.inputs.requestId, none)]) :
      ValidatedOrTyped c raw (.returned result)
  | raised {error : ManagedBackendError}
      (malformed : ∀ completion, ¬ Admits c.inputs.request.contract raw completion)
      (code : error.code = py "provider_protocol_error")
      (events : shapes c.published = [(.ADMITTED, c.inputs.requestId, none),
        (.REQUEST_FAILED, c.inputs.requestId, some (py "provider_protocol_error"))]) :
      ValidatedOrTyped c raw (.raised error)

/-- Both events come to the sink, and it lets the call go on. -/
structure Announced (inputs : GenerateInputs F) : Prop where
  admitted : ∃ t, now (inputs.clock .admittedEvent) = .ok t
  terminal : ∃ t, now (inputs.clock .terminalEvent) = .ok t
  sink : ∀ exc ∈ inputs.terminalSink, exc.isException = true

/-- The content of an answer, if it comes to that, is strict JSON; and nothing fails once the
answer has been read. -/
structure Orderly (b : ManagedBackend F) (inputs : GenerateInputs F) (raw : Value F) : Prop where
  announced : Announced inputs
  strict : ∀ items content, readContent raw = .ok (items, content) →
    ∃ output : Value F, Worker.loads (.str content) = .ok output
  ended : ∀ completion, Admits inputs.request.contract raw completion →
    (∃ t, now (inputs.clock .ended) = .ok t) ∧
      ∃ id, b.attemptId inputs completion.items = .ok id

def GenerateInputs.firstEvents (inputs : GenerateInputs F) : List SchedulerEvent :=
  (hand .ADMITTED inputs.requestId none (inputs.clock .admittedEvent) inputs.admittedSink).1

/-- What the sink is handed last, and what is raised. -/
def GenerateInputs.handLast (inputs : GenerateInputs F)
    (outcome : Except ManagedBackendError (GenerateResult F)) :
    List SchedulerEvent × Option PyException :=
  hand (lastEvent outcome).1 inputs.requestId (lastEvent outcome).2 (inputs.clock .terminalEvent)
    inputs.terminalSink

/-- How the call of an answer ends, and what it has published. -/
inductive Ends (b : ManagedBackend F) (inputs : GenerateInputs F) (raw : Value F) :
    Outcome F → List SchedulerEvent → Prop where
  | settled {admittedAt startedAt : ℚ} {outcome : Except ManagedBackendError (GenerateResult F)}
      (settles : settle (b.result inputs admittedAt startedAt raw) = .settled outcome)
      (goes : (inputs.handLast outcome).2.filter (fun exc => !exc.isException) = none) :
      Ends b inputs raw (.of outcome) (inputs.firstEvents ++ (inputs.handLast outcome).1)
  | stopped {admittedAt startedAt : ℚ} {outcome : Except ManagedBackendError (GenerateResult F)}
      {exc : PyException}
      (settles : settle (b.result inputs admittedAt startedAt raw) = .settled outcome)
      (stops : (inputs.handLast outcome).2.filter (fun exc => !exc.isException) = some exc) :
      Ends b inputs raw (.failed exc) (inputs.firstEvents ++ (inputs.handLast outcome).1)
  | interrupted {admittedAt startedAt : ℚ} {exc : PyException}
      (leaves : settle (b.result inputs admittedAt startedAt raw) = .leaving (.failed exc)) :
      Ends b inputs raw (.failed exc) inputs.firstEvents

/-- What a call has published and received at every stage. -/
def Consistent (b : ManagedBackend F) (c : Call F) : Prop :=
  match c.phase with
  | .entered | .queued _ _ | .acquired _ | .started _ _ | .registered _ _ =>
    c.published = [] ∧ c.response = none
  | .admitted _ _ | .dispatched _ _ _ => c.published = c.inputs.firstEvents ∧ c.response = none
  | .settled outcome => c.published = c.inputs.firstEvents ∧ ∀ raw, c.response = some raw →
    ∃ admittedAt startedAt, settle (b.result c.inputs admittedAt startedAt raw) = .settled outcome
  | .leaving outcome | .releasing outcome | .exited outcome =>
    ∀ raw, c.response = some raw → Ends b c.inputs raw outcome c.published

omit [Floats F] in
theorem settle_cases (r : Except Failure (GenerateResult F)) :
    (∃ outcome, settle r = .settled outcome) ∨ ∃ exc, settle r = .leaving (.failed exc) := by
  rcases r with (error | exc) | result
  · exact .inl ⟨_, rfl⟩
  · by_cases hexc : exc.isException = true
    · exact .inl ⟨_, if_pos hexc⟩
    · exact .inr ⟨_, if_neg hexc⟩
  · exact .inl ⟨_, rfl⟩

/-- What follows from the clauses of the `try` when nothing has been received. -/
theorem Consistent.settles (b : ManagedBackend F) {c : Call F}
    (hpublished : c.published = c.inputs.firstEvents) (hresponse : c.response = none)
    (r : Except Failure (GenerateResult F)) : Consistent b { c with phase := settle r } := by
  unfold Consistent
  rcases settle_cases r with ⟨outcome, hsettled⟩ | ⟨exc, hleaving⟩
  · rw [hsettled]
    refine ⟨hpublished, fun raw h => ?_⟩
    exact absurd (hresponse.symm.trans h) (by simp)
  · rw [hleaving]
    intro raw h
    exact absurd (hresponse.symm.trans h) (by simp)

theorem Consistent.step {b : ManagedBackend F} {c : Call F} (h : Consistent b c)
    (queue : QueueAnswer) {s : Slots} (hfree : c.phase.holds = true →
      s.free < b.maxConcurrentRequests) : Consistent b (b.callStep queue c s).1 := by
  obtain ⟨inputs, phase, published, response⟩ := c
  have hnone : ∀ {raw : Value F}, response = none → response ≠ some raw := by
    rintro raw rfl
    simp
  cases phase with
  | entered =>
    obtain ⟨hpublished, hresponse⟩ : published = [] ∧ response = none := h
    show Consistent b (b.enter _ s).1
    unfold ManagedBackend.enter
    dsimp only
    by_cases hmodel : inputs.request.request.modelId ∉ b.models
    · rw [if_pos hmodel]
      exact fun raw hraw => absurd hraw (hnone hresponse)
    · rw [if_neg hmodel]
      cases now (inputs.clock .admitted) with
      | error exc => exact fun raw hraw => absurd hraw (hnone hresponse)
      | ok admittedAt =>
        dsimp only
        cases ManagedBackend.queueTimeout inputs admittedAt with
        | error exc => exact fun raw hraw => absurd hraw (hnone hresponse)
        | ok timeout => exact ⟨hpublished, hresponse⟩
  | queued admittedAt timeout =>
    obtain ⟨hpublished, hresponse⟩ : published = [] ∧ response = none := h
    show Consistent b (ManagedBackend.acquire admittedAt queue _ s).1
    unfold ManagedBackend.acquire
    by_cases hslot : 0 < s.free
    · rw [if_pos hslot]
      exact ⟨hpublished, hresponse⟩
    · rw [if_neg hslot]
      cases queue with
      | waits => exact ⟨hpublished, hresponse⟩
      | expires => exact fun raw hraw => absurd hraw (hnone hresponse)
      | raises exc => exact fun raw hraw => absurd hraw (hnone hresponse)
  | acquired admittedAt =>
    obtain ⟨hpublished, hresponse⟩ : published = [] ∧ response = none := h
    unfold ManagedBackend.callStep
    dsimp only
    cases now (inputs.clock .started) with
    | error exc => exact fun raw hraw => absurd hraw (hnone hresponse)
    | ok startedAt => exact ⟨hpublished, hresponse⟩
  | started admittedAt startedAt =>
    obtain ⟨hpublished, hresponse⟩ : published = [] ∧ response = none := h
    show Consistent b (b.enterId admittedAt startedAt _ s).1
    unfold ManagedBackend.enterId
    by_cases hactive : inputs.requestId ∈ s.active
    · rw [if_pos hactive]
      unfold ManagedBackend.giveBack
      rw [if_pos (hfree rfl)]
      exact fun raw hraw => absurd hraw (hnone hresponse)
    · rw [if_neg hactive]
      exact ⟨hpublished, hresponse⟩
  | registered admittedAt startedAt =>
    obtain ⟨rfl, hresponse⟩ : published = [] ∧ response = none := h
    show Consistent b (ManagedBackend.publishAdmitted admittedAt startedAt _ s).1
    unfold ManagedBackend.publishAdmitted
    obtain ⟨s', _, _, heq⟩ := publish_spec .ADMITTED none (inputs.clock .admittedEvent)
      inputs.admittedSink ⟨inputs, .registered admittedAt startedAt, [], response⟩ s
    dsimp only at heq ⊢
    rw [heq]
    cases (hand .ADMITTED inputs.requestId none (inputs.clock .admittedEvent)
        inputs.admittedSink).2.filter fun exc => !exc.isException with
    | none => exact ⟨rfl, hresponse⟩
    | some exc => exact fun raw hraw => absurd hraw (hnone hresponse)
  | admitted admittedAt startedAt =>
    have hfirst : published = inputs.firstEvents ∧ response = none := h
    have hsettles : ∀ r, Consistent b ⟨inputs, settle r, published, response⟩ :=
      Consistent.settles b (c := ⟨inputs, .entered, published, response⟩) hfirst.1 hfirst.2
    unfold ManagedBackend.callStep
    dsimp only
    cases b.dispatchTimeout inputs with
    | error failure => exact hsettles _
    | ok timeout => exact hfirst
  | dispatched admittedAt startedAt timeout =>
    obtain ⟨hpublished, hresponse⟩ : published = inputs.firstEvents ∧ response = none := h
    have hsettles : ∀ r, Consistent b ⟨inputs, settle r, published, response⟩ :=
      Consistent.settles b (c := ⟨inputs, .entered, published, response⟩) hpublished hresponse
    show Consistent b (b.answer admittedAt startedAt timeout _)
    unfold ManagedBackend.answer
    dsimp only
    cases inputs.transport b.endpoint (b.payload inputs.request) timeout inputs.requestId with
    | returns raw =>
      dsimp only
      unfold Consistent
      rcases settle_cases (b.result inputs admittedAt startedAt raw) with
        ⟨outcome, hsettled⟩ | ⟨exc, hleaving⟩
      · rw [hsettled]
        refine ⟨hpublished, fun raw' hraw => ?_⟩
        obtain rfl := Option.some_inj.mp hraw
        exact ⟨admittedAt, startedAt, hsettled⟩
      · rw [hleaving]
        intro raw' hraw
        obtain rfl := Option.some_inj.mp hraw
        dsimp only at hpublished ⊢
        rw [hpublished]
        exact .interrupted hleaving
    | fails error => exact hsettles _
    | raises exc => exact hsettles _
  | settled outcome =>
    obtain ⟨rfl, hsettled⟩ : published = inputs.firstEvents ∧ ∀ raw, response = some raw →
      ∃ admittedAt startedAt,
        settle (b.result inputs admittedAt startedAt raw) = .settled outcome := h
    show Consistent b (ManagedBackend.publishTerminal outcome _ s).1
    unfold ManagedBackend.publishTerminal
    obtain ⟨s', _, _, heq⟩ := publish_spec (lastEvent outcome).1 (lastEvent outcome).2
      (inputs.clock .terminalEvent) inputs.terminalSink
      ⟨inputs, .settled outcome, inputs.firstEvents, response⟩ s
    dsimp only at heq ⊢
    rw [heq]
    cases hlast : (hand (lastEvent outcome).1 inputs.requestId (lastEvent outcome).2
        (inputs.clock .terminalEvent) inputs.terminalSink).2.filter fun exc => !exc.isException with
    | none =>
      intro raw hraw
      obtain ⟨admittedAt, startedAt, hsettles⟩ := hsettled raw hraw
      exact .settled hsettles hlast
    | some exc =>
      intro raw hraw
      obtain ⟨admittedAt, startedAt, hsettles⟩ := hsettled raw hraw
      exact .stopped hsettles hlast
  | leaving outcome => exact h
  | releasing outcome =>
    show Consistent b (b.giveBack outcome _ s).1
    unfold ManagedBackend.giveBack
    rw [if_pos (hfree rfl)]
    exact h
  | exited outcome => exact h

omit [Floats F] in
/-- A call that holds a slot can give it back. -/
theorem Slotted.free_lt {b : ManagedBackend F} {lost : ℕ} {s : ManagedState F}
    (h : Slotted b lost s) {c : Call F} (hmem : c ∈ s.calls) (hholds : c.phase.holds = true) :
    s.slots.free < b.maxConcurrentRequests := by
  have hpos : 0 < s.calls.countP fun c => c.phase.holds := List.countP_pos_iff.mpr ⟨c, hmem, hholds⟩
  have hslots := h.slots
  omega

theorem consistent_run (b : ManagedBackend F) {lost : ℕ} {s : ManagedState F}
    (hslotted : Slotted b lost s) (h : ∀ c ∈ s.calls, Consistent b c)
    (moves : List (ManagedMove F)) : ∀ c ∈ (moves.foldl b.step s).calls, Consistent b c := by
  induction moves generalizing s lost with
  | nil => exact h
  | cons m moves ih =>
    refine ih (hslotted.step m) fun c hmem => ?_
    cases m with
    | generate inputs =>
      rcases List.mem_append.mp hmem with hold | hnew
      · exact h c hold
      · obtain rfl := List.mem_singleton.mp hnew
        exact ⟨rfl, rfl⟩
    | step i queue =>
      unfold ManagedBackend.step at hmem
      dsimp only at hmem
      cases hget : s.calls[i]? with
      | none =>
        rw [hget] at hmem
        exact h c hmem
      | some c₀ =>
        rw [hget] at hmem
        have hmem₀ : c₀ ∈ s.calls := List.mem_of_getElem? hget
        rcases List.mem_or_eq_of_mem_set hmem with hold | rfl
        · exact h c hold
        · exact (h c₀ hmem₀).step queue (hslotted.free_lt hmem₀)

/-! ### When a call ends as it should -/

omit [Floats F] in
theorem now_nonneg {clock : ClockReading} {t : ℚ} (h : now clock = .ok t) : 0 ≤ t := by
  unfold now at h
  cases clock with
  | finite t' =>
    dsimp only at h
    by_cases hneg : t' < 0
    · rw [if_pos hneg] at h
      exact absurd h (by simp)
    · rw [if_neg hneg] at h
      obtain rfl := Except.ok.inj h
      exact not_lt.mp hneg
  | nonfinite => exact absurd h (by simp)
  | raises exc => exact absurd h (by simp)

/-- An event of a request is handed to the sink if the clock can be read. -/
theorem hand_eq {kind : SchedulerEventKind} {id : PyStr} {errorCode : Option PyStr}
    {clock : ClockReading} {t : ℚ} (hnow : now clock = .ok t)
    (hwell : ∀ t, 0 ≤ t → (SchedulerEvent.WellFormed ⟨kind, id, t, none, none, errorCode⟩))
    (sink : Option PyException) :
    hand kind id errorCode clock sink = ([⟨kind, id, t, none, none, errorCode⟩], sink) := by
  unfold hand
  rw [hnow]
  dsimp only
  rw [SchedulerEvent.make_ok.mpr ⟨hwell t (now_nonneg hnow), rfl⟩]

theorem hand_none {kind : SchedulerEventKind} {id : PyStr} {errorCode : Option PyStr}
    {clock : ClockReading} {exc : PyException} (hnow : now clock = .error exc)
    (sink : Option PyException) : hand kind id errorCode clock sink = ([], some exc) := by
  unfold hand
  rw [hnow]

theorem protocol_bounded :
    Inference.IsBoundedText (py "provider_protocol_error") Inference.maxErrorCodeBytes :=
  Inference.isBoundedText_py (by decide) (by decide) (by decide)

omit [Floats F] in
/-- An event that ends no failed call is well formed. -/
theorem wellFormed_plain (inputs : GenerateInputs F) {kind : SchedulerEventKind}
    (hkind : kind = .ADMITTED ∨ kind = .REQUEST_COMPLETED) {t : ℚ} (ht : 0 ≤ t) :
    SchedulerEvent.WellFormed ⟨kind, inputs.requestId, t, none, none, none⟩ := by
  rcases hkind with rfl | rfl
  · exact ⟨inputs.scheduling.request_bounded, ht, by simp [SchedulerEventKind.isSequenceKind],
      by simp [SchedulerEventKind.isTokenKind], rfl⟩
  · exact ⟨inputs.scheduling.request_bounded, ht, by simp [SchedulerEventKind.isSequenceKind],
      by simp [SchedulerEventKind.isTokenKind], rfl⟩

omit [Floats F] in
theorem wellFormed_failed (inputs : GenerateInputs F) {t : ℚ} (ht : 0 ≤ t) :
    SchedulerEvent.WellFormed ⟨.REQUEST_FAILED, inputs.requestId, t, none, none,
      some (py "provider_protocol_error")⟩ :=
  ⟨inputs.scheduling.request_bounded, ht, by simp [SchedulerEventKind.isSequenceKind],
    by simp [SchedulerEventKind.isTokenKind], ⟨_, rfl, protocol_bounded⟩⟩

omit [Floats F] in
theorem shapes_first (inputs : GenerateInputs F) :
    shapes inputs.firstEvents = [(.ADMITTED, inputs.requestId, none)] ↔
      ∃ t, now (inputs.clock .admittedEvent) = .ok t := by
  unfold GenerateInputs.firstEvents
  cases hnow : now (inputs.clock .admittedEvent) with
  | error exc =>
    rw [hand_none hnow]
    simp [shapes]
  | ok t =>
    rw [hand_eq hnow fun t ht => wellFormed_plain inputs (.inl rfl) ht]
    simp [shapes]

omit [Floats F] in
/-- There is at most one first event, and it is `ADMITTED`. -/
theorem shapes_first_le (inputs : GenerateInputs F) : shapes inputs.firstEvents = [] ∨
    shapes inputs.firstEvents = [(.ADMITTED, inputs.requestId, none)] := by
  cases hnow : now (inputs.clock .admittedEvent) with
  | error exc =>
    left
    unfold GenerateInputs.firstEvents
    rw [hand_none hnow]
    rfl
  | ok t => exact .inr ((shapes_first inputs).mpr ⟨t, hnow⟩)

omit [Floats F] in
/-- The two events come to the sink, and nothing is raised, if and only if the call is announced. -/
theorem announced_iff {inputs : GenerateInputs F}
    {outcome : Except ManagedBackendError (GenerateResult F)}
    (hfits : ∀ t, 0 ≤ t → SchedulerEvent.WellFormed
      ⟨(lastEvent outcome).1, inputs.requestId, t, none, none, (lastEvent outcome).2⟩) :
    shapes (inputs.firstEvents ++ (inputs.handLast outcome).1) =
        [(.ADMITTED, inputs.requestId, none),
          ((lastEvent outcome).1, inputs.requestId, (lastEvent outcome).2)] ∧
      (inputs.handLast outcome).2.filter (fun exc => !exc.isException) = none ↔
    Announced inputs := by
  have hshapes : ∀ first last, shapes (first ++ last) = shapes first ++ shapes last :=
    fun _ _ => List.map_append
  rw [hshapes]
  unfold GenerateInputs.handLast
  cases hnow : now (inputs.clock .terminalEvent) with
  | error exc =>
    rw [hand_none hnow]
    constructor
    · rintro ⟨hevents, _⟩
      rcases shapes_first_le inputs with hfirst | hfirst
      · rw [hfirst] at hevents
        exact absurd hevents (by simp [shapes])
      · rw [hfirst] at hevents
        exact absurd hevents (by simp [shapes])
    · rintro ⟨_, ⟨t, ht⟩, _⟩
      exact absurd (hnow.symm.trans ht) (by simp)
  | ok t =>
    rw [hand_eq hnow hfits]
    constructor
    · rintro ⟨hevents, hsink⟩
      refine ⟨(shapes_first inputs).mp ?_, ⟨t, hnow⟩, fun exc hexc => ?_⟩
      · rcases shapes_first_le inputs with hfirst | hfirst
        · rw [hfirst] at hevents
          exact absurd hevents (by simp [shapes])
        · exact hfirst
      · rw [Option.mem_def.mp hexc, Option.filter_some] at hsink
        by_contra hnot
        rw [if_pos (by simpa using hnot)] at hsink
        exact absurd hsink (by simp)
    · rintro ⟨hadmitted, _, hsink⟩
      refine ⟨?_, ?_⟩
      · rw [(shapes_first inputs).mpr hadmitted]
        rfl
      · cases hterminal : inputs.terminalSink with
        | none => rfl
        | some exc =>
          rw [Option.filter_some, if_neg (by simpa using hsink exc hterminal)]

/-- What `_result` makes of an answer that is accepted. -/
theorem result_of_admits {b : ManagedBackend F} {inputs : GenerateInputs F} {raw : Value F}
    {completion : Completion F} (hadmits : Admits inputs.request.contract raw completion)
    (admittedAt startedAt : ℚ) :
    (∃ exc, b.result inputs admittedAt startedAt raw = .error (.raised exc) ∧
      ¬ Orderly b inputs raw) ∨
    ∃ result, b.result inputs admittedAt startedAt raw = .ok result ∧
      result.output = completion.output ∧ (Orderly b inputs raw ↔ Announced inputs) := by
  have hread := readCompletion_ok.mpr hadmits
  have hunique : ∀ completion', Admits inputs.request.contract raw completion' →
      completion' = completion := fun completion' h =>
    Except.ok.inj ((readCompletion_ok.mpr h).symm.trans hread)
  unfold ManagedBackend.result
  rw [hread]
  dsimp only
  cases hended : now (inputs.clock .ended) with
  | error exc =>
    refine .inl ⟨exc, rfl, fun horderly => ?_⟩
    obtain ⟨⟨t, ht⟩, _⟩ := horderly.ended completion hadmits
    exact absurd (hended.symm.trans ht) (by simp)
  | ok endedAt =>
    dsimp only
    cases hid : b.attemptId inputs completion.items with
    | error exc =>
      refine .inl ⟨exc, rfl, fun horderly => ?_⟩
      obtain ⟨_, id, hok⟩ := horderly.ended completion hadmits
      exact absurd (hid.symm.trans hok) (by simp)
    | ok id =>
      refine .inr ⟨_, rfl, rfl, fun h => h.announced, fun h => ⟨h, ?_, ?_⟩⟩
      · intro items content hcontent
        obtain ⟨content', hcontent', houtput, _⟩ := readCompletion_eq_ok.mp hread
        obtain ⟨rfl, rfl⟩ := Prod.mk.inj (Except.ok.inj (hcontent.symm.trans hcontent'))
        exact ⟨_, readOutput_ok.mp houtput⟩
      · intro completion' h'
        obtain rfl := hunique completion' h'
        exact ⟨⟨endedAt, hended⟩, id, hid⟩

/-- What `_result` makes of an answer that is not accepted. -/
theorem result_of_malformed {b : ManagedBackend F} {inputs : GenerateInputs F} {raw : Value F}
    (hmalformed : ∀ completion, ¬ Admits inputs.request.contract raw completion)
    (admittedAt startedAt : ℚ) :
    (b.result inputs admittedAt startedAt raw = .error (.raised (.builtin "WorkerError" "")) ∧
      ¬ Orderly b inputs raw) ∨
    ∃ error, b.result inputs admittedAt startedAt raw = .error (.managed error) ∧
      error.code = py "provider_protocol_error" ∧ (Orderly b inputs raw ↔ Announced inputs) := by
  -- the loader has refused the content, or nothing but the pieces before or after it is missing
  by_cases hstrict : ∀ items content, readContent raw = .ok (items, content) →
      ∃ output : Value F, Worker.loads (.str content) = .ok output
  · right
    have hnoloader : ∀ error, readCompletion inputs.request.contract raw ≠ .error (.worker error) := by
      intro error h
      obtain ⟨items, content, hcontent, hrefused⟩ := readCompletion_worker.mp h
      obtain ⟨output, houtput⟩ := hstrict items content hcontent
      exact absurd (hrefused.symm.trans houtput) (by simp)
    unfold ManagedBackend.result
    cases hread : readCompletion inputs.request.contract raw with
    | ok completion => exact absurd (readCompletion_ok.mp hread) (hmalformed completion)
    | error error =>
      have horderly : Orderly b inputs raw ↔ Announced inputs :=
        ⟨fun h => h.announced, fun h => ⟨h, hstrict, fun completion hadmits =>
          absurd hadmits (hmalformed completion)⟩⟩
      cases error with
      | worker error => exact absurd hread (hnoloader error)
      | key name => exact ⟨_, rfl, rfl, horderly⟩
      | type name => exact ⟨_, rfl, rfl, horderly⟩
      | value name => exact ⟨_, rfl, rfl, horderly⟩
  · left
    refine ⟨?_, fun h => hstrict h.strict⟩
    simp only [not_forall, not_exists] at hstrict
    obtain ⟨items, content, hcontent, hrefused⟩ := hstrict
    unfold ManagedBackend.result
    cases hloads : (Worker.loads (.str content) : Except WorkerError (Value F)) with
    | ok output => exact absurd hloads (hrefused output)
    | error error => rw [readCompletion_worker.mpr ⟨items, content, hcontent, hloads⟩]

/-- A call ends with what it has settled, and with both events, if it is announced; else it
fails, or an event is missing. -/
theorem Ends.settles {b : ManagedBackend F} {inputs : GenerateInputs F} {raw : Value F}
    {outcome : Outcome F} {published : List SchedulerEvent}
    (h : Ends b inputs raw outcome published) : ∃ admittedAt startedAt,
      (∃ target, settle (b.result inputs admittedAt startedAt raw) = .settled target ∧
        (outcome = .of target ∨ ∃ exc, outcome = .failed exc) ∧
          ((∀ t, 0 ≤ t → SchedulerEvent.WellFormed
              ⟨(lastEvent target).1, inputs.requestId, t, none, none, (lastEvent target).2⟩) →
            (outcome = .of target ∧ shapes published = [(.ADMITTED, inputs.requestId, none),
              ((lastEvent target).1, inputs.requestId, (lastEvent target).2)] ↔
                Announced inputs))) ∨
      ∃ exc, settle (b.result inputs admittedAt startedAt raw) = .leaving (.failed exc) ∧
        outcome = .failed exc := by
  cases h with
  | settled settles goes =>
    rename_i admittedAt startedAt target
    refine ⟨admittedAt, startedAt, .inl ⟨target, settles, .inl rfl, fun hfits => ?_⟩⟩
    rw [← announced_iff hfits]
    exact ⟨fun ⟨_, hevents⟩ => ⟨hevents, goes⟩, fun ⟨hevents, _⟩ => ⟨rfl, hevents⟩⟩
  | stopped settles stops =>
    rename_i admittedAt startedAt target exc
    refine ⟨admittedAt, startedAt, .inl ⟨target, settles, .inr ⟨exc, rfl⟩, fun hfits => ?_⟩⟩
    rw [← announced_iff hfits]
    constructor
    · rintro ⟨hfailed, _⟩
      cases target <;> exact absurd hfailed (by simp [Outcome.of])
    · rintro ⟨_, hnone⟩
      exact absurd (stops.symm.trans hnone) (by simp)
  | interrupted leaves =>
    rename_i admittedAt startedAt exc
    exact ⟨admittedAt, startedAt, .inr ⟨exc, leaves, rfl⟩⟩

/-- A call that was answered ends as it should if it was orderly, and only then. -/
theorem ends_iff {b : ManagedBackend F} {c : Call F} {raw : Value F} {outcome : Outcome F}
    (h : Ends b c.inputs raw outcome c.published) :
    ValidatedOrTyped c raw outcome ↔ Orderly b c.inputs raw := by
  obtain ⟨admittedAt, startedAt, hends⟩ := h.settles
  by_cases hadmits : ∃ completion, Admits c.inputs.request.contract raw completion
  · obtain ⟨completion, hadmits⟩ := hadmits
    rcases result_of_admits hadmits admittedAt startedAt with
      ⟨exc, hresult, hnot⟩ | ⟨result, hresult, houtput, horderly⟩
    · refine iff_of_false ?_ hnot
      rw [hresult] at hends
      have hfailed : ∀ result, outcome ≠ .returned result := by
        rintro result rfl
        rcases hends with ⟨target, hsettles, hout, _⟩ | ⟨exc', _, hout⟩
        · rcases hout with hout | ⟨_, hout⟩
          · cases target with
            | ok result' =>
              unfold settle at hsettles
              dsimp only at hsettles
              split_ifs at hsettles
              exact absurd hsettles (by simp)
            | error error => exact absurd hout (by simp [Outcome.of])
          · exact absurd hout (by simp)
        · exact absurd hout (by simp)
      intro htyped
      cases htyped with
      | returned => exact hfailed _ rfl
      | raised malformed => exact malformed completion hadmits
    · rw [hresult] at hends
      rw [horderly]
      rcases hends with ⟨target, hsettles, hout, hannounced⟩ | ⟨exc, hsettles, _⟩
      · obtain rfl := Phase.settled.inj hsettles
        rw [← hannounced fun t ht => wellFormed_plain c.inputs (.inr rfl) ht]
        constructor
        · intro htyped
          cases htyped with
          | returned admits output valid events =>
            refine ⟨hout.resolve_right ?_, events⟩
            rintro ⟨exc, hfailed⟩
            exact absurd hfailed (by simp)
          | raised malformed => exact absurd hadmits (malformed completion)
        · rintro ⟨rfl, hevents⟩
          exact .returned hadmits houtput (houtput ▸ hadmits.output) hevents
      · exact absurd hsettles (by simp [settle])
  · have hmalformed : ∀ completion, ¬ Admits c.inputs.request.contract raw completion :=
      fun completion h => hadmits ⟨completion, h⟩
    rcases result_of_malformed hmalformed admittedAt startedAt with
      ⟨hresult, hnot⟩ | ⟨error, hresult, hcode, horderly⟩
    · refine iff_of_false ?_ hnot
      rw [hresult] at hends
      rcases hends with ⟨target, hsettles, hout, _⟩ | ⟨exc, hsettles, _⟩
      · obtain rfl := Phase.settled.inj hsettles
        intro htyped
        cases htyped with
        | returned admits => exact hmalformed _ admits
        | raised malformed code =>
          rcases hout with hout | ⟨exc, hout⟩
          · obtain rfl := Outcome.raised.inj hout
            exact absurd code (by decide)
          · exact absurd hout (by simp)
      · exact absurd hsettles (by simp [settle])
    · rw [hresult] at hends
      rw [horderly]
      rcases hends with ⟨target, hsettles, hout, hannounced⟩ | ⟨exc, hsettles, _⟩
      · obtain rfl := Phase.settled.inj hsettles
        have hlast : lastEvent (.error error : Except ManagedBackendError (GenerateResult F)) =
            (.REQUEST_FAILED, some (py "provider_protocol_error")) := by
          rw [← hcode]
          rfl
        rw [hlast] at hannounced
        rw [← hannounced fun t ht => wellFormed_failed c.inputs ht]
        constructor
        · intro htyped
          cases htyped with
          | returned admits => exact absurd admits (hmalformed _)
          | raised malformed code events =>
            refine ⟨hout.resolve_right ?_, events⟩
            rintro ⟨exc, hfailed⟩
            exact absurd hfailed (by simp)
        · rintro ⟨rfl, hevents⟩
          exact .raised hmalformed hcode hevents
      · exact absurd hsettles (by simp [settle])

/-- An answer with one choice of this content. -/
def sampleAnswer (content : PyStr) : Value NoFloat :=
  .dict [(py "id", .str (py "provider-1")),
    (py "choices", .list [.dict [(py "message", .dict [(py "content", .str content)])]]),
    (py "usage", .dict [(py "prompt_tokens", .int 20), (py "completion_tokens", .int 5)])]

/-- One call of `r`, from its start to its end, that is answered so. -/
def sampleAnswered (content : PyStr) : List (ManagedMove NoFloat) :=
  .generate (sampleInputs (.returns (sampleAnswer content))) :: List.replicate 10 (.step 0 .waits)

/-- The call was answered and has returned. -/
def answeredAndReturned (c : Call NoFloat) : Bool :=
  c.response.isSome && match c.phase with
    | .exited (.returned _) => true
    | _ => false

/-- The call was answered and has raised an error with that code. -/
def answeredAndRaised (code : PyStr) (c : Call NoFloat) : Bool :=
  c.response.isSome && match c.phase with
    | .exited (.raised error) => error.code = code
    | _ => false

end Managed
