/-
Turns that nothing outside the service obstructs.

* `Reply.Fair`, `FairStep` — what the outside must say, and the identifiers that
  must be new;
* `Ready` — a turn at a stage that nothing has obstructed;
* `Service.appendPlain_fair` and the rules beside it — an append of a turn leads
  to the next stage, or its payload cannot be written.
-/
import LlamaRuntime.Agent.Acceptance
import LlamaRuntime.Agent.TurnRuns

open Json Thread

namespace Agent

variable {F : Type} [Host F]

/-! ### The outside -/

variable (F) in
/-- The lock is free, the clocks can be read, and no usage is negative. -/
structure Reply.Fair (reply : Reply) : Prop where
  lock : reply.lockTaken = false
  utc : Host.readsAsUtc F reply.utcNow = true
  utc_clean : Clean reply.utcNow
  deadline : ∃ passed, reply.deadlinePassed = .ok passed
  usage : ∀ response, reply.inference = .ok (some response) →
    0 ≤ response.inputTokens ∧ 0 ≤ response.outputTokens ∧ 0 ≤ response.inferenceMs

/-- A step with a fair answer; an event it appends has no identifier that is taken. -/
structure FairStep (w : World F) (reply : Reply) (w' : World F) : Prop where
  reply : reply.Fair F
  unclaimed : ∀ call outcome event, w'.happened = w.happened ++ [.appended call outcome] →
    call.events = [event] → Unclaimed w.db call.runId event

/-- Nothing that was appended since the start was refused, and no transaction is open. -/
structure Fine (start w : World F) : Prop where
  idle : w.db.transaction = none
  accepted : ∃ new, w.happened = start.happened ++ new ∧
    ∀ call outcome, .appended call outcome ∈ new → ∃ n, outcome = .ok n

theorem Fine.of_idle {start : World F} (h : start.db.transaction = none) : Fine start start :=
  ⟨h, [], (List.append_nil _).symm, fun _ _ h => absurd h List.not_mem_nil⟩

/-! ### Stages and budgets -/

namespace Stage

/-- How many events a turn has appended at most. -/
def rank : Stage → ℕ
  | idle => 0
  | inferred .. => 1
  | paying tokens ms => 2 + (if tokens = 0 then 1 else 0) + (if ms = 0 then 1 else 0)
  | decided => 5
  | refused | waiting => 6
  | call _ .proposed => 7
  | call _ .compiled => 8
  | call _ .ready => 9
  | call _ (.checked _) => 10
  | call _ (.stopped _) | call _ .authorized => 11
  | call _ .charged => 12
  | call _ .dispatching => 13
  | call _ .dispatched => 14
  | call _ .attempted => 15
  | outcome _ _ .recorded => 16
  | outcome _ _ .closed => 17
  | outcome _ _ .observing => 18
  | outcome _ _ .directed => 19
  | outcome _ _ .verifying => 20
  | outcome _ _ (.judged _) => 21
  | ended _ => 22

/-- The call of a tool is not yet debited. -/
def uncharged : Stage → Bool
  | call _ .charged | call _ .dispatching | call _ .dispatched | call _ .attempted => false
  | outcome .. | ended _ => false
  | _ => true

/-- The attempt of a call is not yet debited. -/
def unattempted : Stage → Bool
  | call _ .attempted | outcome .. | ended _ => false
  | _ => true

end Stage

section Path

variable {criteria : Dict PyStr PyStr} {events : List (AgentEvent F)} {e : AgentEvent F}
  {stage stage' : Stage}

theorem Next.rank (next : Next criteria e stage stage') : stage.rank + 1 ≤ stage'.rank := by
  cases next with
  | payTokens owed => simp [Stage.rank, owed]
  | payTime owed => simp [Stage.rank, owed]
  | payTurn =>
    simp only [Stage.rank]
    omega
  | forbid _ _ => simp [Stage.rank]
  | _ => simp [Stage.rank]

theorem Path.length_le (path : Path criteria events stage) : events.length ≤ stage.rank := by
  induction path with
  | nil => exact Nat.zero_le _
  | snoc _ next ih =>
    have hrank := next.rank
    rw [List.length_append, List.length_singleton]
    omega

theorem Stage.rank_le (stage : Stage) : stage.rank ≤ 22 := by
  cases stage with
  | paying tokens ms =>
    simp only [Stage.rank]
    split_ifs <;> omega
  | call id phase => cases phase <;> simp [Stage.rank]
  | outcome id result phase => cases phase <;> simp [Stage.rank]
  | _ => simp [Stage.rank]

end Path

/-- An event takes from a category what its payload says. -/
theorem Applied.amount_eq {s s' : AgentRunState F} {n : ℕ} {e : AgentEvent F}
    (h : Applied s n e s') (c : BudgetCategory) :
    s'.budgets.amount c = s.budgets.amount c - consumedAmount c e := by
  cases hcons : e.consumes with
  | false => rw [(h.budgets_unchanged hcons).1, consumedAmount, hcons]; simp
  | true =>
    have hkind : e.eventKind = .budgetConsumed := by simpa [AgentEvent.consumes] using hcons
    cases h with
    | plainRecord kind | invocationRecord kind => simp [hkind] at kind
    | runTransition kind | toolProposed kind | toolTransition kind | dispatchStarted kind
    | resultRecorded kind | acceptanceDecided kind => simp [hkind] at kind
    | @budgetConsumed items claimId category amount kind payload claim_eq category_eq amount_eq =>
      have hfield := fun key => AgentEvent.field_eq payload key
      have hinj : category.value = c.value ↔ c = category := by
        constructor
        · intro heq
          have hc := BudgetCategory.ofValue_value c
          rw [← heq, BudgetCategory.ofValue_value] at hc
          exact (Option.some_inj.mp hc).symm
        · rintro rfl
          rfl
      simp only [BudgetState.set, consumedAmount, hcons, hfield, category_eq, amount_eq, Value.str?,
        Value.int?, Option.some_inj, hinj, true_and, Option.getD_some]
      split_ifs with hc
      · rw [hc]
      · omega

/-- A run can pay for the call of the turn, as far as it is not paid. -/
structure Affords (stage : Stage) (s : AgentRunState F) : Prop where
  calls : stage.uncharged = true → 1 ≤ s.budgets.amount .toolCalls
  attempts : stage.unattempted = true → 1 ≤ s.budgets.amount .toolAttempts

theorem Affords.step {criteria : Dict PyStr PyStr} {stage stage' : Stage}
    {s s' : AgentRunState F} {n : ℕ} {e : AgentEvent F} (h : Affords stage s)
    (next : Next criteria e stage stage') (happ : Applied s n e s') : Affords stage' s' := by
  have hkeep (hcalls : stage'.uncharged = true → stage.uncharged = true ∧
        consumedAmount .toolCalls e = 0)
      (hattempts : stage'.unattempted = true → stage.unattempted = true ∧
        consumedAmount .toolAttempts e = 0) : Affords stage' s' := by
    refine ⟨fun hstage => ?_, fun hstage => ?_⟩
    · rw [happ.amount_eq, (hcalls hstage).2, sub_zero]
      exact h.calls (hcalls hstage).1
    · rw [happ.amount_eq, (hattempts hstage).2, sub_zero]
      exact h.attempts (hattempts hstage).1
  cases next with
  | payTurn event | payTokens _ event | payTime _ event | charge event | attempt event =>
    refine hkeep (fun hstage => ?_) fun hstage => ?_
    · exact ⟨by simp_all [Stage.uncharged], by rw [consumedAmount_debits event]; simp_all [Stage.uncharged]⟩
    · exact ⟨by simp_all [Stage.unattempted], by rw [consumedAmount_debits event]; simp_all [Stage.unattempted]⟩
  | infer event | decide event | stop event | refuse event | block event | wait event
  | propose event | compile event | prepare event | check event | forbid _ event | allow event
  | dispatch event | enter event | record event | close event | observe event | direct event
  | verify _ event | leave _ event | judge event | conclude event =>
    have hzero := consumedAmount_eq_zero (e := e) (by simp [event.1])
    exact hkeep (fun hstage => ⟨by simp_all [Stage.uncharged], hzero _⟩)
      fun hstage => ⟨by simp_all [Stage.unattempted], hzero _⟩

/-! ### Identifiers that are new to the reducer -/

section New

variable {db : Database F} {runId : PyStr} {events : List (AgentEvent F)} {s : AgentRunState F}
  {e : AgentEvent F} {items : List (PyStr × Value F)} {id : PyStr} (hfree : Unclaimed db runId e)
  (hstream : db.stream runId = .ok events) (hs : replay runId events = .ok s)
  (payload : e.payload = .dict items)

include hfree hstream hs payload

theorem Unclaimed.header (version : field items "record_version" = .str (py "h1.v1"))
    (id_eq : field items "record_id" = .str id) (id_ok : IsIdentifier id) :
    RecordHeader s items id := by
  refine ⟨version, id_eq, ?_, id_ok⟩
  by_contra hne
  obtain ⟨v, hv⟩ := Option.ne_none_iff_exists'.mp hne
  obtain ⟨e', he', hfield⟩ := (replay_accounted hs).records id (Dict.mem_keys_iff.mpr ⟨v, hv⟩)
  exact hfree.record events hstream e' he' id ((AgentEvent.field_eq payload _).trans id_eq) hfield

theorem Unclaimed.claim (kind : e.eventKind = .budgetConsumed)
    (claim_eq : field items "claim_id" = .str id) : id ∉ s.budgetClaims := by
  intro hid
  obtain ⟨e', he', hkind, hfield⟩ := (replay_accounted hs).claims id hid
  refine hfree.claims runId events hstream e' he' (.budgetConsumed, "claim_id") (by decide) kind
    hkind ?_
  rw [hfield, AgentEvent.field_eq payload, claim_eq]

theorem Unclaimed.invocation (kind : e.eventKind = .toolProposed)
    (invocation_eq : field items "invocation_id" = .str id) : s.toolInvocations.get? id = none := by
  by_contra hne
  obtain ⟨l, hl⟩ := Option.ne_none_iff_exists'.mp hne
  obtain ⟨e', he', hkind, hfield⟩ :=
    (replay_accounted hs).invocations id (Dict.mem_keys_iff.mpr ⟨l, hl⟩)
  refine hfree.claims runId events hstream e' he' (.toolProposed, "invocation_id") (by decide) kind
    hkind ?_
  rw [hfield, AgentEvent.field_eq payload, invocation_eq]

theorem Unclaimed.action (kind : e.eventKind = .toolProposed)
    (action_eq : field items "action_id" = .str id) : id ∉ s.actionClaims := by
  intro hid
  obtain ⟨e', he', hkind, hfield⟩ := (replay_accounted hs).actions id hid
  refine hfree.claims runId events hstream e' he' (.toolProposed, "action_id") (by decide) kind
    hkind ?_
  rw [hfield, AgentEvent.field_eq payload, action_eq]

end New

/-! ### Turns that nothing obstructs -/

section Fair

variable (start : World F) (runId : PyStr) (criteria : Dict PyStr PyStr)

/-- Nobody interferes with a call, and every step is fair. -/
def fair : Protocol (World F) Reply :=
  .alone (fun w => (∃ stage entered, Extends start runId criteria stage entered w) ∧ Fine start w)
    FairStep

/-- A turn at a stage, in a run that can pay for the rest of it. -/
structure Ready (stage : Stage) (entered : Bool) (s : AgentRunState F) (w : World F) : Prop
    extends At start runId criteria stage entered s w where
  fine : Fine start w
  affords : Affords stage s

/-- A turn may begin, and the numbers of its events can be written. -/
structure Opening : Prop where
  decides : start.Decides runId
  short : ∀ base, start.db.stream runId = .ok base →
    digitCount ((base.length + 24 : ℕ) : ℤ) ≤ Value.maxStrDigits

end Fair

variable {start : World F} {runId : PyStr} {criteria : Dict PyStr PyStr} {stage stage' : Stage}
  {entered : Bool} {s : AgentRunState F} {service : Service F}

/-- The stream of the run at a stage. -/
theorem At.stream {w : World F} (h : At start runId criteria stage entered s w)
    (hdecides : start.Decides runId) :
    ∃ base events, start.db.stream runId = .ok base ∧ w.db.stream runId = .ok (base ++ events) ∧
      Path criteria events stage ∧ replay runId (base ++ events) = .ok s := by
  obtain ⟨base, hbase⟩ := hdecides.stream_ok
  obtain ⟨events, -, hpath, -, -, hown, -⟩ := h.extends_.stream_ok
  obtain ⟨events', hevents', hs⟩ := runState_ok.mp h.state
  obtain rfl := Except.ok.inj ((hown base hbase).symm.trans hevents')
  exact ⟨base, events, hbase, hevents', hpath, hs⟩

/-- What the reducer knows at a stage. -/
theorem At.agrees {w : World F} (h : At start runId criteria stage entered s w)
    (hdecides : start.Decides runId) : ∃ before, Agrees before stage s := by
  obtain ⟨base, events, hbase, -, hpath, hs⟩ := h.stream hdecides
  obtain ⟨s₀, hs₀, hdeciding⟩ := hdecides
  obtain ⟨base', hbase', hreplay⟩ := runState_ok.mp hs₀
  obtain rfl := Except.ok.inj (hbase.symm.trans hbase')
  exact ⟨s₀.Pending, hpath.agrees hreplay hdeciding hs⟩

theorem digitCount_mono {m n : ℕ} (h : m ≤ n) : digitCount m ≤ digitCount n := by
  have hpos (n : ℕ) (hn : n ≠ 0) : (decimal n).length = (Nat.digits 10 n).length := by
    simp [decimal, hn]
  show (decimal m).length ≤ (decimal n).length
  rcases Nat.eq_zero_or_pos m with rfl | hm
  · have hhead := IntegerPart.head (integerPart_decimal n)
    obtain ⟨c, rest, heq, -⟩ := hhead
    rw [heq]
    simp [decimal]
  · rw [hpos m (by omega), hpos n (by omega)]
    exact Nat.le_length_digits_le 10 m n h

/-- The number of the next event can be written. -/
theorem Opening.version {w : World F} (hopening : Opening start runId)
    (h : At start runId criteria stage entered s w) :
    digitCount ((s.version : ℤ) + 1) ≤ Value.maxStrDigits := by
  obtain ⟨base, events, hbase, -, hpath, hs⟩ := h.stream hopening.decides
  have hversion := replay_version hs
  have hlength := hpath.length_le
  have hrank := stage.rank_le
  rw [List.length_append] at hversion
  have hle : s.version + 1 ≤ base.length + 24 := by omega
  exact (digitCount_mono hle).trans (hopening.short base hbase)

/-- The reducer accepts an event of this kind and payload at a stage. -/
def Admits (P : World F → Prop) (runId : PyStr) (s : AgentRunState F) (kind : EventKind)
    (items : List (PyStr × Value F)) : Prop :=
  ∀ (w : World F) (e : AgentEvent F) (events : List (AgentEvent F)), P w →
    w.db.stream runId = .ok events → replay runId events = .ok s → e.eventKind = kind →
      e.payload = .dict items → Unclaimed w.db runId e →
        ∃ s', Applied s (events.length + 1) e s'

theorem Service.append_fair {eventId : PyStr} {kind : EventKind} {items : List (PyStr × Value F)}
    (hopening : Opening start runId) (hid : IsIdentifier eventId)
    (htidy : (Value.dict items).Tidy)
    (hadmits : Admits (Ready start runId criteria stage entered s) runId s kind items)
    (hnext : ∀ e, Wrote e kind items → Next criteria e stage stage') :
    Triple (fair start runId criteria) (Ready start runId criteria stage entered s)
      (service.append s eventId kind items)
      (fun _ w => ∃ s', Ready start runId criteria stage' entered s' w) (fun _ _ => False) := by
  refine Triple.atomic (stable_alone _) (fun _ => stable_alone _) (fun _ => stable_alone _)
    fun w reply hi hw hallow => ?_
  obtain ⟨events, hstream, hs⟩ := runState_ok.mp hw.state
  have hrun : s.runId = runId := hw.runId_eq
  obtain ⟨event, hnew, hevent, hkind, hpayload, hutc⟩ :=
    newEvent_of_tidy hid htidy hallow.reply.utc
  let call : Call F :=
    { connection := service.connection, lockTaken := reply.lockTaken, runId := s.runId
      expectedVersion := s.version, events := [event] }
  have hcall : call.events = [event] := rfl
  have hrun' : call.runId = runId := hrun
  have hfree : Unclaimed w.db call.runId event :=
    hallow.unclaimed call (Agent.append w.db call).1 event (by rw [hnew]) hcall
  rw [hrun'] at hfree
  obtain ⟨s', happ⟩ := hadmits w (event.withSequence (events.length + 1) (Nat.succ_pos _)) events
    hw hstream hs hkind hpayload ⟨hfree.event_id, hfree.claims, hfree.key, hfree.record⟩
  have hversion : call.expectedVersion = events.length := congrArg Nat.cast (replay_version hs)
  have haccepted : ∃ n, (Agent.append w.db call).1 = .ok n ∧
      (Agent.append w.db call).2.transaction = none :=
    append_accepted hw.extends_.consistent hw.fine.idle hallow.reply.lock hcall
      (hrun'.symm ▸ hstream) (hrun'.symm ▸ hs) hversion happ (hpayload ▸ htidy)
      (hutc ▸ hallow.reply.utc_clean) (hrun'.symm ▸ hfree)
  obtain ⟨n, hok, hidle⟩ := haccepted
  obtain ⟨-, hadded⟩ := hw.append hopening.decides hrun' hcall
    (fun n => hnext _ (newEvent_ok hnew n).2.2) (append_one hw.extends_.consistent hcall)
  obtain ⟨s₁, m, happ₁, hat⟩ := hadded n hok
  have hready : Ready start runId criteria stage' entered s₁
      { w with db := (Agent.append w.db call).2
               happened := w.happened ++ [.appended call (Agent.append w.db call).1] } := by
    refine ⟨hat, ⟨hidle, ?_⟩, hw.affords.step (hnext _ (newEvent_ok hnew m).2.2) happ₁⟩
    obtain ⟨new, hnew, hall⟩ := hw.fine.accepted
    refine ⟨new ++ [.appended call (Agent.append w.db call).1], ?_, fun c outcome hmem => ?_⟩
    · rw [hnew, List.append_assoc]
    · rcases List.mem_append.mp hmem with hmem | hmem
      · exact hall c outcome hmem
      · obtain ⟨-, rfl⟩ := Happening.appended.inj (List.mem_singleton.mp hmem)
        exact ⟨n, hok⟩
  rw [hnew]
  refine ⟨⟨⟨stage', entered, hready.extends_⟩, hready.fine⟩, fun _ _ => ⟨s₁, hready⟩, fun e he => ?_⟩
  have hraised : (Agent.append w.db call).1.map (fun _ => ()) = .error e := he
  rw [show (Agent.append w.db call).1 = .ok n from hok] at hraised
  exact absurd hraised (by simp [Except.map])

theorem Service.state_fair (P : World F → Prop) (hP : ∀ w, P w → Consistent w.db)
    (hruns : ∀ w, P w → ∃ s, w.db.runState runId = .ok s) :
    Triple (fair start runId criteria) P (service.state runId)
      (fun s w => P w ∧ w.db.runState runId = .ok s) (fun _ _ => False) := by
  refine Triple.atomic (stable_alone _) (fun _ => stable_alone _) (fun _ => stable_alone _)
    fun w _ hi hw _ => ?_
  have hload : (w.db.load service.connection runId >>= replay runId) = w.db.runState runId := by
    rw [(hP w hw).load_eq]
    rfl
  obtain ⟨s, hs⟩ := hruns w hw
  refine ⟨hi, fun s hs => ⟨hw, hload ▸ hs⟩, fun e he => ?_⟩
  rw [hload, hs] at he
  exact absurd he (by simp)

/-- The flat values that the payloads of a service consist of. -/
def IsFlat : Value F → Prop
  | .null => True
  | .bool _ => True
  | .int _ => True
  | .str _ => True
  | _ => False

omit [Host F] in
theorem wellFormed_flat {items : List (PyStr × Value F)} (hnodup : (items.map Prod.fst).Nodup)
    (hflat : ∀ f ∈ items, IsFlat f.2) : (Value.dict items).WellFormed := by
  rw [Value.WellFormed, Value.all_dict, Bool.and_eq_true]
  refine ⟨decide_eq_true hnodup, List.all_eq_true.mpr fun f hf => ?_⟩
  have hvalue := hflat f hf
  cases hv : f.2 with
  | null | bool | int | str => rfl
  | float | list | tuple | dict =>
    rw [hv] at hvalue
    exact hvalue.elim

omit [Host F] in
@[simp] theorem isFlat_textOrNone (text : Option PyStr) : IsFlat (textOrNone text : Value F) := by
  cases text <;> trivial

/-- What an event is derived from can be written if its payload can. -/
theorem tidy_eventIdentity {kind : EventKind} {items : List (PyStr × Value F)}
    (hrun : Clean s.runId) (hversion : digitCount ((s.version : ℤ) + 1) ≤ Value.maxStrDigits)
    (htidy : (Value.dict items).Tidy) : (eventIdentity s kind items).Tidy := by
  have hkind : Clean kind.value := by cases kind <;> decide
  refine Value.tidy_dict (by simp) (by simp only [List.map_cons, List.map_nil]; decide) ?_
  simp only [List.forall_mem_cons]
  exact ⟨Value.tidy_str.mpr hrun, Value.tidy_int.mpr hversion, Value.tidy_str.mpr hkind, htidy,
    fun _ h => absurd h List.not_mem_nil⟩

theorem tidy_of_eventIdentity {kind : EventKind} {items : List (PyStr × Value F)}
    (h : (eventIdentity s kind items).Tidy) : (Value.dict items).Tidy :=
  h.field (f := (py "payload", .dict items)) (by simp)

omit [Host F] in
theorem wellFormed_eventIdentity {kind : EventKind} {items : List (PyStr × Value F)}
    (h : (Value.dict items).WellFormed) : (eventIdentity s kind items).WellFormed := by
  rw [Value.WellFormed, eventIdentity, Value.all_dict, Bool.and_eq_true]
  refine ⟨by simp [Value.distinctKeys], List.all_eq_true.mpr ?_⟩
  simp only [List.forall_mem_cons]
  exact ⟨rfl, rfl, rfl, h, fun _ h => absurd h List.not_mem_nil⟩

/-- An identifier is derived from an event exactly if its payload can be written. -/
theorem Ready.stableId {w : World F} (h : Ready start runId criteria stage entered s w)
    (hopening : Opening start runId) (label : String) {kind : EventKind}
    {items : List (PyStr × Value F)} (hwf : (Value.dict items).WellFormed) :
    (∃ id, Agent.stableId label (eventIdentity s kind items) = .ok id) ↔
      (Value.dict items).Tidy := by
  obtain ⟨base, events, -, -, -, hs⟩ := h.stream hopening.decides
  have hrun : Clean s.runId := by
    obtain ⟨_, hid, -⟩ := bind_ok.mp hs
    rw [h.runId_eq]
    exact clean_of_isBounded (validateIdentifier_ok.mp hid)
  constructor
  · rintro ⟨id, hid⟩
    exact tidy_of_eventIdentity (tidy_of_stableId (wellFormed_eventIdentity hwf) hid)
  · exact fun htidy =>
      stableId_of_tidy label (tidy_eventIdentity hrun (hopening.version h.toAt) htidy)

/-- **A plain append** leads to the next stage, or its payload cannot be written. -/
theorem Service.appendPlain_fair {kind : EventKind} {items : List (PyStr × Value F)}
    (hopening : Opening start runId) (hwf : (Value.dict items).WellFormed)
    (hadmits : Admits (Ready start runId criteria stage entered s) runId s kind items)
    (hnext : ∀ e, Wrote e kind items → Next criteria e stage stage') :
    Triple (fair start runId criteria) (Ready start runId criteria stage entered s)
      (service.appendPlain s kind items) (Ready start runId criteria stage' entered)
      (fun _ w => Ready start runId criteria stage entered s w ∧ ¬ (Value.dict items).Tidy) := by
  intro w hi hw
  have hrun : s.runId = runId := hw.runId_eq
  refine Triple.bind (Q := fun id w => Ready start runId criteria stage entered s w ∧
      Agent.stableId "evt" (eventIdentity s kind items) = .ok id)
    (Act.triple_lift (fun id hid w _ hw => ⟨hw, hid⟩) fun e he w _ hw => ⟨hw, fun htidy => ?_⟩)
    (fun eventId => Triple.of_fact fun hid => ?_) w hi hw
  · have htidy := tidy_of_eventIdentity (tidy_of_stableId (wellFormed_eventIdentity hwf) hid)
    have hidentifier : IsIdentifier eventId :=
      isIdentifier_stableId hid (by decide) (by decide)
    refine Triple.bind ((Service.append_fair hopening hidentifier htidy hadmits hnext).conseq
      (fun _ _ h => h) (fun _ _ _ h => h) fun _ _ _ h => h.elim) fun _ => ?_
    rw [hrun]
    refine (Service.state_fair _ ?_ ?_).conseq (fun _ _ h => h) ?_ fun _ _ _ h => h.elim
    · exact fun w ⟨s', hs'⟩ => hs'.extends_.consistent
    · exact fun w ⟨s', hs'⟩ => ⟨s', hs'.state⟩
    · rintro s' w - ⟨⟨s'', hs''⟩, hs'⟩
      obtain rfl := Except.ok.inj (hs''.state.symm.trans hs')
      exact hs''
  · obtain ⟨id, hid⟩ := (hw.stableId hopening "evt" hwf).mpr htidy
    rw [he] at hid
    exact absurd hid (by simp)

/-- The payload of an H1 record. -/
abbrev recordItems (recordId : PyStr) (items : List (PyStr × Value F)) : List (PyStr × Value F) :=
  (py "record_version", .str (py "h1.v1")) :: (py "record_id", .str recordId) :: items

theorem tidy_recordItems {recordId : PyStr} {items : List (PyStr × Value F)}
    (hid : IsIdentifier recordId) (hnodup : ((recordItems recordId items).map Prod.fst).Nodup)
    (h : (Value.dict items).Tidy) : (Value.dict (recordItems recordId items)).Tidy := by
  refine Value.tidy_dict hnodup ?_ ?_
  · simp only [recordItems, List.map_cons, List.forall_mem_cons]
    exact ⟨by decide, by decide, h.keys⟩
  · simp only [recordItems, List.forall_mem_cons]
    exact ⟨Value.tidy_str.mpr (by decide), Value.tidy_str.mpr (clean_of_isBounded hid),
      fun f hf => h.field hf⟩

theorem Unclaimed.recordHeader {db : Database F} {runId recordId : PyStr}
    {events : List (AgentEvent F)} {s : AgentRunState F} {e : AgentEvent F}
    {items : List (PyStr × Value F)} (hfree : Unclaimed db runId e)
    (hstream : db.stream runId = .ok events) (hs : replay runId events = .ok s)
    (payload : e.payload = .dict (recordItems recordId items)) (hrecord : IsIdentifier recordId) :
    RecordHeader s (recordItems recordId items) recordId :=
  hfree.header hstream hs payload (by simp [field, Items.lookup]) (by simp [field, Items.lookup])
    hrecord

/-- **A record** leads to the next stage, or its payload cannot be written. -/
theorem Service.appendRecord_fair {kind : EventKind} {items : List (PyStr × Value F)}
    (hopening : Opening start runId)
    (hnodup : ∀ recordId, ((recordItems recordId items).map Prod.fst).Nodup)
    (hflat : ∀ f ∈ items, IsFlat f.2)
    (hadmits : ∀ recordId, IsIdentifier recordId →
      Admits (Ready start runId criteria stage entered s) runId s kind (recordItems recordId items))
    (hnext : ∀ e recordId, Wrote e kind (recordItems recordId items) →
      Next criteria e stage stage') :
    Triple (fair start runId criteria) (Ready start runId criteria stage entered s)
      (service.appendRecord s kind items) (Ready start runId criteria stage' entered)
      (fun _ w => Ready start runId criteria stage entered s w ∧ ¬ (Value.dict items).Tidy) := by
  have hwf : (Value.dict items).WellFormed :=
    wellFormed_flat (List.nodup_cons.mp (List.nodup_cons.mp (hnodup [])).2).2 hflat
  refine Triple.bind (Q := fun id w => Ready start runId criteria stage entered s w ∧
      Agent.stableId "rec" (eventIdentity s kind items) = .ok id)
    (Act.triple_lift (fun id hid w _ hw => ⟨hw, hid⟩) fun e he w _ hw => ⟨hw, fun htidy => ?_⟩)
    (fun recordId => Triple.of_fact fun hid => ?_)
  · obtain ⟨id, hid⟩ := (hw.stableId hopening "rec" hwf).mpr htidy
    rw [he] at hid
    exact absurd hid (by simp)
  · have htidy := tidy_of_eventIdentity (tidy_of_stableId (wellFormed_eventIdentity hwf) hid)
    have hidentifier : IsIdentifier recordId := isIdentifier_stableId hid (by decide) (by decide)
    have hwf' : (Value.dict (recordItems recordId items)).WellFormed := by
      refine wellFormed_flat (hnodup recordId) ?_
      simp only [recordItems, List.forall_mem_cons]
      exact ⟨trivial, trivial, hflat⟩
    refine (Service.appendPlain_fair hopening hwf' (hadmits recordId hidentifier)
      fun e => hnext e recordId).conseq (fun _ _ h => h) (fun _ _ _ h => h) ?_
    exact fun _ w _ h => absurd (tidy_recordItems hidentifier (hnodup recordId) htidy) h.2

/-- The value a claim is derived from. -/
abbrev claimValue (runId nameSpace : PyStr) (category : BudgetCategory) : Value F :=
  .dict
    [(py "run_id", .str runId), (py "namespace", .str nameSpace),
      (py "category", .str category.value)]

omit [Host F] in
theorem BudgetCategory.clean_value (category : BudgetCategory) : Clean category.value := by
  cases category <;> decide

/-- **A debit** leads to the next stage, unless the budget is too small for it or
its payload cannot be written. -/
theorem Service.consumeBudget_fair {nameSpace : PyStr} {category : BudgetCategory} {amount : ℤ}
    (hopening : Opening start runId) (hpositive : 0 < amount)
    (hnext : ∀ e : AgentEvent F, e.Debits category amount → Next criteria e stage stage') :
    Triple (fair start runId criteria) (Ready start runId criteria stage entered s)
      (service.consumeBudget s nameSpace category amount)
      (Ready start runId criteria stage' entered)
      (fun _ w => Ready start runId criteria stage entered s w ∧
        ¬ (amount ≤ s.budgets.amount category ∧ Clean nameSpace ∧
          digitCount amount ≤ Value.maxStrDigits)) := by
  intro w hi hw
  have hclean : Clean s.runId := by
    obtain ⟨base, events, -, -, -, hs⟩ := hw.stream hopening.decides
    obtain ⟨_, hid, -⟩ := bind_ok.mp hs
    rw [hw.runId_eq]
    exact clean_of_isBounded (validateIdentifier_ok.mp hid)
  revert w
  refine Triple.ite (fun hshort => ?_) fun henough => ?_
  · refine Triple.raise (stable_alone _) fun w _ hw => ⟨hw, fun hcan => ?_⟩
    omega
  refine Triple.bind (Q := fun id w => Ready start runId criteria stage entered s w ∧
      Agent.stableId "budget" (claimValue s.runId nameSpace category : Value F) = .ok id)
    (Act.triple_lift (fun id hid w _ hw => ⟨hw, hid⟩) fun e he w _ hw => ⟨hw, fun hcan => ?_⟩)
    (fun claimId => Triple.of_fact fun hid => ?_)
  · have htidy : (claimValue s.runId nameSpace category : Value F).Tidy := by
      refine Value.tidy_dict (by simp) (by simp only [List.map_cons, List.map_nil]; decide) ?_
      simp only [List.forall_mem_cons]
      exact ⟨Value.tidy_str.mpr hclean, Value.tidy_str.mpr hcan.2.1,
        Value.tidy_str.mpr category.clean_value, fun _ h => absurd h List.not_mem_nil⟩
    obtain ⟨id, hid⟩ := stableId_of_tidy "budget" htidy
    rw [he] at hid
    exact absurd hid (by simp)
  · have hidentifier : IsIdentifier claimId := isIdentifier_stableId hid (by decide) (by decide)
    refine (Service.appendPlain_fair hopening (wellFormed_flat (by simp) ?_) ?_ fun e he =>
      hnext e (he.reads (by simp [field, Items.lookup]) (by simp))).conseq (fun _ _ h => h)
      (fun _ _ _ h => h) ?_
    · simp [IsFlat]
    · intro w e events hw hstream hs kind payload hfree
      have hclaim : field [(py "claim_id", .str claimId), (py "category", .str category.value),
          (py "amount", .int amount)] "claim_id" = (.str claimId : Value F) := by
        simp [field, Items.lookup]
      refine ⟨_, .budgetConsumed kind payload hclaim (by simp [field, Items.lookup])
        (by simp [field, Items.lookup]) (hfree.claim hstream hs payload kind hclaim) hidentifier
        hpositive (not_lt.mp henough) fun hterminalize => ?_⟩
      exact absurd hterminalize (by simp [field, Items.lookup, Value.truthy])
    · refine fun _ w _ h => ⟨h.1, fun hcan => h.2 ?_⟩
      refine Value.tidy_dict (by simp) (by simp only [List.map_cons, List.map_nil]; decide) ?_
      simp only [List.forall_mem_cons]
      exact ⟨Value.tidy_str.mpr (clean_of_isBounded hidentifier),
        Value.tidy_str.mpr category.clean_value, Value.tidy_int.mpr hcan.2.2,
        fun _ h => absurd h List.not_mem_nil⟩

end Agent
