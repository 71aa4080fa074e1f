/-
When an append is atomic.

* `Unguarded` — the events at which a branch of the reducer raises a built-in
  exception; at all other events it accepts or raises its own error
  (`applyEvent_typed`, `applyEvent_unguarded`);
* `Hazard` — the calls that reach such an event, or a row that cannot be bound;
* `appends_atomic` — the calls of a run are all atomic exactly when none of them
  is hazardous.
-/
import LlamaRuntime.Agent.StreamIntegrity

open Json

namespace Agent

variable {F : Type}

/-! ### Own errors and built-in ones -/

/-- Only errors of the runtime itself are raised. -/
def Typed {α : Type} (result : Except Raised α) : Prop :=
  ∀ e, result = .error e → e.isAgentError = true

theorem Typed.ok {α : Type} (a : α) : Typed (.ok a) := by
  intro e h
  exact absurd h (by simp)

theorem Typed.error {α : Type} {e : Raised} (h : e.isAgentError = true) :
    Typed (.error e : Except Raised α) := by
  intro e' heq
  exact Except.error.inj heq ▸ h

theorem Typed.bind {α β : Type} {x : Except Raised α} {f : α → Except Raised β} (hx : Typed x)
    (hf : ∀ a, x = .ok a → Typed (f a)) : Typed (x >>= f) := by
  cases x with
  | error e => exact Typed.error (hx e rfl)
  | ok a => exact hf a rfl

theorem typed_require (condition : Prop) [Decidable condition] (message : PyStr) :
    Typed (require condition message) := by
  unfold require
  split_ifs
  · exact Typed.ok _
  · exact Typed.error rfl

theorem typed_requireStr (value : Value F) (message : PyStr) :
    Typed (requireStr value message) := by
  unfold requireStr
  split
  · exact Typed.ok _
  · exact Typed.error rfl

theorem typed_payloadItems {payload : Value F} (error : Builtin)
    (h : payload.dict?.isSome = true) : Typed (payloadItems payload error) := by
  obtain ⟨items, hitems⟩ := Option.isSome_iff_exists.mp h
  rw [payloadItems, hitems]
  exact Typed.ok _

theorem typed_validateIdentifier {value : PyStr} (field : String)
    (h : ∀ c ∈ value, ¬ CodePoint.IsSurrogate c) : Typed (validateIdentifier value field) := by
  intro e he
  rcases checkBounded_error he with hagent | ⟨-, c, hc, hsur⟩
  · exact hagent
  · exact absurd hsur (h c hc)

/-! ### One event -/

variable [Host F]

/-- No branch checks what the event's payload has that makes it raise: it is no
object, or it names an attribute of the budgets that is no amount. -/
def Unguarded (s : AgentRunState F) (e : AgentEvent F) : Prop :=
  (e.eventKind ≠ .runCreated ∧ e.payload.dict? = none) ∨
    (e.eventKind = .budgetConsumed ∧ ∃ claim category amount,
      e.field "claim_id" = .str claim ∧ claim ∉ s.budgetClaims ∧ IsIdentifier claim ∧
        e.field "category" = .str category ∧ category ∈ objectAttributes ∧
        e.field "amount" = .int amount ∧ 0 < amount)

/-- The text of the payload can be encoded. -/
def Encodable (e : AgentEvent F) : Prop := ∀ c ∈ dumps e.payload, ¬ CodePoint.IsSurrogate c

variable {s s' : AgentRunState F} {n : ℕ} {e : AgentEvent F} {events : List (AgentEvent F)}
  {runId : PyStr}

/-- A string of an encodable payload has no surrogates. -/
theorem Encodable.field {items : List (PyStr × Value F)} (h : Encodable e)
    (hitems : e.payload = .dict items) {key : String} {text : PyStr}
    (hfield : field items key = .str text) : ∀ c ∈ text, ¬ CodePoint.IsSurrogate c := by
  intro c hc hsur
  have hmem : (py key, Value.str text) ∈ items := by
    unfold Agent.field at hfield
    cases hl : Items.lookup (py key) items with
    | none =>
      rw [hl] at hfield
      exact absurd hfield (by simp)
    | some v =>
      rw [hl, Option.getD_some] at hfield
      exact hfield ▸ Items.mem_of_lookup hl
  refine h c ?_ hsur
  rw [hitems]
  exact mem_dumps_of_field hmem hc hsur

theorem ofValue_of_mem_objectAttributes {category : PyStr} (h : category ∈ objectAttributes) :
    BudgetCategory.ofValue category = none ∧ category ≠ deadlineField := by
  have hall : ∀ c ∈ objectAttributes,
      BudgetCategory.ofValue c = none ∧ c ≠ deadlineField := by decide +kernel
  exact hall category h

theorem typed_applyBudgetConsumed (hkind : e.eventKind = .budgetConsumed) (henc : Encodable e)
    (h : ¬ Unguarded s e) : Typed (applyBudgetConsumed s n e.payload) := by
  have hdict : e.payload.dict?.isSome = true := by
    by_contra hnone
    exact h (.inl ⟨by simp [hkind], by simpa using hnone⟩)
  refine (typed_payloadItems _ hdict).bind fun items hitems => ?_
  have hitems := payloadItems_ok.mp hitems
  refine (typed_requireStr _ _).bind fun claim hclaim => ?_
  refine (typed_requireStr _ _).bind fun category hcategory => ?_
  rw [requireStr_ok] at hclaim hcategory
  refine (typed_require _ _).bind fun _ hfresh => ?_
  obtain ⟨hfresh, hattribute⟩ := require_ok.mp hfresh
  refine (typed_validateIdentifier _ (henc.field hitems hclaim)).bind fun _ hid => ?_
  refine (typed_require _ _).bind fun _ hamount => ?_
  obtain ⟨hdeadline, hpos⟩ := require_ok.mp hamount
  split
  · next hnone =>
    -- an attribute that is no amount and not the deadline is one of the object's
    have hmem : category ∈ objectAttributes := by
      rcases hattribute with hsome | heq | hmem
      · rw [hnone] at hsome
        exact absurd hsome (by simp)
      · exact absurd heq hdeadline
      · exact hmem
    refine absurd (.inr ⟨hkind, claim, category, _, ?_, hfresh, validateIdentifier_ok.mp hid, ?_,
      hmem, ?_, hpos⟩) h
    · rw [AgentEvent.field_eq hitems, hclaim]
    · rw [AgentEvent.field_eq hitems, hcategory]
    · rw [AgentEvent.field_eq hitems]
      exact int_of_pos hpos
  · refine (typed_require _ _).bind fun _ _ => ?_
    exact (typed_require _ _).bind fun _ _ => Typed.ok _

theorem typed_applyToolProposed (hdict : e.payload.dict?.isSome = true) (henc : Encodable e) :
    Typed (applyToolProposed s n e.payload) := by
  refine (typed_payloadItems _ hdict).bind fun items hitems => ?_
  have hitems := payloadItems_ok.mp hitems
  refine (typed_requireStr _ _).bind fun invocation hinvocation => ?_
  refine (typed_requireStr _ _).bind fun action haction => ?_
  refine (typed_requireStr _ _).bind fun digest _ => ?_
  refine (typed_require _ _).bind fun _ _ => ?_
  rw [requireStr_ok] at hinvocation haction
  refine (typed_validateIdentifier _ (henc.field hitems hinvocation)).bind fun _ _ => ?_
  refine (typed_validateIdentifier _ (henc.field hitems haction)).bind fun _ _ => ?_
  exact (typed_require _ _).bind fun _ _ => Typed.ok _

theorem typed_applyRunTransition (hdict : e.payload.dict?.isSome = true) :
    Typed (applyRunTransition s n e.payload) := by
  refine (typed_payloadItems _ hdict).bind fun items _ => ?_
  split
  · exact Typed.error rfl
  · refine (typed_require _ _).bind fun _ _ => ?_
    exact (typed_require _ _).bind fun _ _ => Typed.ok _

theorem typed_applyToolTransition (hdict : e.payload.dict?.isSome = true) :
    Typed (applyToolTransition s n e.payload) := by
  refine (typed_payloadItems _ hdict).bind fun items _ => ?_
  refine (typed_requireStr _ _).bind fun invocation _ => ?_
  split
  · exact (typed_require _ _).bind fun _ _ => Typed.ok _
  · exact Typed.error rfl

theorem typed_applyRecord (kind : EventKind) (hdict : e.payload.dict?.isSome = true)
    (henc : Encodable e) : Typed (applyRecord s n kind e.payload) := by
  refine (typed_payloadItems _ hdict).bind fun items hitems => ?_
  have hitems := payloadItems_ok.mp hitems
  refine (typed_require _ _).bind fun _ _ => ?_
  refine (typed_requireStr _ _).bind fun recordId hrecord => ?_
  rw [requireStr_ok] at hrecord
  refine (typed_require _ _).bind fun _ _ => ?_
  refine (typed_validateIdentifier _ (henc.field hitems hrecord)).bind fun _ _ => ?_
  refine (typed_require _ _).bind fun _ _ => ?_
  have hkind : Typed (applyRecordKind s kind items) := by
    unfold applyRecordKind
    split
    · refine (typed_require _ _).bind fun _ _ => ?_
      exact (typed_require _ _).bind fun _ _ => Typed.ok _
    · refine (typed_require _ _).bind fun _ _ => ?_
      exact (typed_require _ _).bind fun _ _ => Typed.ok _
    · exact (typed_require _ _).bind fun _ _ => Typed.ok _
    · exact Typed.ok _
  exact hkind.bind fun _ _ => Typed.ok _

/-- **At a guarded event the reducer raises its own errors only.** -/
theorem applyEvent_typed (henc : Encodable e) (h : ¬ Unguarded s e) :
    Typed (applyEvent s n e) := by
  have hdict (hkind : e.eventKind ≠ .runCreated) : e.payload.dict?.isSome = true := by
    by_contra hnone
    exact h (.inl ⟨hkind, by simpa using hnone⟩)
  unfold applyEvent
  split
  · exact Typed.error rfl
  · next hkind => exact typed_applyRunTransition (hdict (by simp [hkind]))
  · next hkind => exact typed_applyToolProposed (hdict (by simp [hkind])) henc
  · next hkind => exact typed_applyToolTransition (hdict (by simp [hkind]))
  · next hkind => exact typed_applyBudgetConsumed hkind henc h
  · next hkind _ _ _ _ => exact typed_applyRecord _ (hdict hkind) henc

/-- **At an unguarded event the reducer raises a built-in exception.** -/
theorem applyEvent_unguarded (h : Unguarded s e) :
    ∃ b, applyEvent s n e = .error (.builtin b) := by
  rcases h with ⟨hkind, hdict⟩ | ⟨hkind, claim, category, amount, hclaim, hfresh, hid, hcategory,
    hattribute, hamount, hpos⟩
  · -- every branch but the first begins by reading a field of the payload
    have hitems (b : Builtin) : payloadItems e.payload b = .error (.builtin b) := by
      rw [payloadItems, hdict]
    unfold applyEvent
    split
    · next hk => exact absurd hk hkind
    · exact ⟨.typeError, by rw [applyRunTransition, hitems]; rfl⟩
    · exact ⟨.attributeError, by rw [applyToolProposed, hitems]; rfl⟩
    · exact ⟨.attributeError, by rw [applyToolTransition, hitems]; rfl⟩
    · exact ⟨.attributeError, by rw [applyBudgetConsumed, hitems]; rfl⟩
    · exact ⟨.attributeError, by rw [applyRecord, hitems]; rfl⟩
  · refine ⟨.typeError, ?_⟩
    obtain ⟨hnone, hdeadline⟩ := ofValue_of_mem_objectAttributes hattribute
    have hdict : ∃ items, e.payload = .dict items := by
      cases hp : e.payload with
      | dict items => exact ⟨items, rfl⟩
      | _ => simp [AgentEvent.field, hp, Value.dict?, Agent.field] at hclaim
    obtain ⟨items, hitems⟩ := hdict
    rw [AgentEvent.field_eq hitems] at hclaim hcategory hamount
    have hrequire : require (claim ∉ s.budgetClaims ∧ hasAttribute category)
        (py "invalid or duplicate budget claim") = .ok () :=
      require_ok.mpr ⟨hfresh, .inr (.inr hattribute)⟩
    have hvalid : validateIdentifier claim "claim_id" = .ok () := validateIdentifier_ok.mpr hid
    have hdecrement : require (category ≠ deadlineField ∧ 0 < amount)
        (py "invalid budget decrement") = .ok () := require_ok.mpr ⟨hdeadline, hpos⟩
    simp only [applyEvent, hkind, applyBudgetConsumed, hitems, payloadItems, Value.dict?,
      hclaim, hcategory, hamount, requireStr, Value.str?, Value.int?, Option.getD_some, bind,
      Except.bind, hrequire, hvalid, hdecrement, hnone]

/-- An accepted event is guarded. -/
theorem Applied.guarded (h : Applied s n e s') : ¬ Unguarded s e := by
  intro hun
  obtain ⟨b, hb⟩ := applyEvent_unguarded (n := n) hun
  exact absurd (hb.symm.trans (applyEvent_ok.mpr h)) (by simp)

/-! ### A stream -/

theorem replayFrom_typed (henc : ∀ e ∈ events, Encodable e)
    (h : ∀ pre e post s', events = pre ++ e :: post → replayFrom s n pre = .ok s' →
      ¬ Unguarded s' e) : Typed (replayFrom s n events) := by
  induction events generalizing s n with
  | nil => exact Typed.ok _
  | cons e rest ih =>
    obtain ⟨hencHead, hencRest⟩ := List.forall_mem_cons.mp henc
    rw [replayFrom]
    split_ifs with hseq
    · exact Typed.error rfl
    · refine Typed.bind (applyEvent_typed hencHead (h [] e rest s rfl rfl)) fun s₁ hs₁ => ?_
      refine ih hencRest fun pre e' post s' heq hpre => ?_
      refine h (e :: pre) e' post s' (by rw [heq, List.cons_append]) ?_
      exact replayFrom_cons.mpr ⟨s₁, not_not.mp hseq, applyEvent_ok.mp hs₁, hpre⟩

theorem replayFrom_unguarded {pre post : List (AgentEvent F)}
    (hpre : replayFrom s n pre = .ok s') (hseq : e.sequence = some (n + pre.length))
    (h : Unguarded s' e) : ∃ b, replayFrom s n (pre ++ e :: post) = .error (.builtin b) := by
  obtain ⟨b, hb⟩ := applyEvent_unguarded (n := n + pre.length) h
  refine ⟨b, ?_⟩
  rw [replayFrom_append, hpre]
  show replayFrom s' (n + pre.length) (e :: post) = _
  rw [replayFrom, if_neg (not_not.mpr hseq), hb]
  rfl

/-- The front of a stream, replayed alone. -/
theorem replay_append_eq {pre : List (AgentEvent F)} (hne : pre ≠ [])
    (post : List (AgentEvent F)) :
    replay runId (pre ++ post)
      = (replay runId pre).bind fun s => replayFrom s (pre.length + 1) post := by
  obtain ⟨e, pre, rfl⟩ := List.exists_cons_of_ne_nil hne
  have hlen : (e :: pre).length + 1 = 2 + pre.length := by
    rw [List.length_cons]
    omega
  rw [List.cons_append, replay, replay, hlen]
  cases validateIdentifier runId "run_id" with
  | error e => rfl
  | ok u =>
    show (if _ then _ else _) = Except.bind (if _ then _ else _) _
    split_ifs
    · rfl
    · rfl
    · cases applyRunCreated runId 1 e.payload with
      | error x => rfl
      | ok s => exact replayFrom_append pre post s 2

omit [Host F] in
theorem typed_applyRunCreated (runId : PyStr) (version : ℕ) (payload : Value F) :
    Typed (applyRunCreated runId version payload) := by
  unfold applyRunCreated
  split
  · exact Typed.error rfl
  · exact (typed_require _ _).bind fun _ _ => Typed.ok _

/-- A stream whose events are met guarded is accepted or refused with an own error. -/
theorem replay_typed (hid : IsIdentifier runId) (henc : ∀ e ∈ events, Encodable e)
    (h : ∀ pre e post s, events = pre ++ e :: post → replay runId pre = .ok s →
      ¬ Unguarded s e) : Typed (replay runId events) := by
  refine Typed.bind ?_ fun _ _ => ?_
  · rw [validateIdentifier_ok.mpr hid]
    exact Typed.ok _
  · cases events with
    | nil => exact Typed.error rfl
    | cons first rest =>
      show Typed (if _ then _ else _)
      split_ifs with hkind hseq
      · exact Typed.error rfl
      · exact Typed.error rfl
      · refine Typed.bind (typed_applyRunCreated _ _ _) fun s₀ hs₀ => ?_
        refine replayFrom_typed (List.forall_mem_cons.mp henc).2 fun pre e post s' heq hpre => ?_
        refine h (first :: pre) e post s' (by rw [heq, List.cons_append]) ?_
        exact replay_cons.mpr ⟨s₀, ⟨hid, not_not.mp hkind, not_not.mp hseq, hs₀⟩, hpre⟩

theorem replay_unguarded {pre post : List (AgentEvent F)} (hpre : replay runId pre = .ok s)
    (hseq : e.sequence = some (pre.length + 1)) (h : Unguarded s e) :
    ∃ b, replay runId (pre ++ e :: post) = .error (.builtin b) := by
  rw [replay_append_eq (replay_ne_nil hpre), hpre]
  exact replayFrom_unguarded (show replayFrom s (pre.length + 1) [] = .ok s from rfl) hseq h

/-! ### One append -/

/-- The call commits all of its rows, or it raises and leaves the database
without a transaction, as it was. -/
def Atomic (db : Database F) (call : Call F) : Prop :=
  (∃ rows version, prepare call = .ok rows ∧
      append db call = (.ok version, ⟨db.rows ++ rows, none⟩)) ∨
    ((∃ e, (append db call).1 = .error e) ∧ (append db call).2 = db ∧ db.transaction = none)

/-- The checks of the transaction reach an event that no branch of the reducer
guards, after the events of the call before it are accepted. -/
structure ReducerFails (db : Database F) (call : Call F) : Prop where
  idle : db.transaction = none
  lock : call.lockTaken = false
  rows : ∃ rows, prepare call = .ok rows
  version : (maxSequence db.rows call.runId : ℤ) = call.expectedVersion
  events : ∃ existing pre e post s, loadFrom db.rows call.runId = .ok existing ∧
    call.events = pre ++ e :: post ∧
    replay call.runId (existing ++ numbered call.expectedVersion.toNat pre) = .ok s ∧
    Unguarded s e

/-- The call meets an exception that no clause of `append` catches. -/
def Hazard (db : Database F) (call : Call F) : Prop :=
  ReducerFails db call ∨ ∃ inserted, BindFails db call inserted

theorem encodable_of_rowsOf {v : ℕ} {rows : List (Row F)} (h : rowsOf runId v events = .ok rows) :
    ∀ e ∈ events, Encodable e := by
  intro e he
  obtain ⟨i, hi, rfl⟩ := List.getElem_of_mem he
  have hall := forall₂_rowsOf h
  obtain ⟨n, hrow⟩ := hall.get hi (hall.length_eq ▸ hi)
  intro c hc hsur
  have hdigest := hrow.digest_eq
  rw [hrow.json_eq, payloadDigest] at hdigest
  split at hdigest
  · exact absurd hdigest (by simp)
  · next bytes hbytes => exact (encodeUtf8_eq_some.mp hbytes).1 c hc hsur

theorem encodable_numbered {v : ℕ} (h : ∀ e ∈ events, Encodable e) :
    ∀ e ∈ numbered v events, Encodable e := by
  induction events generalizing v with
  | nil => exact fun _ hmem => absurd hmem List.not_mem_nil
  | cons e rest ih =>
    obtain ⟨hhead, hrest⟩ := List.forall_mem_cons.mp h
    exact List.forall_mem_cons.mpr ⟨hhead, ih hrest⟩

/-- Where the events of a call are split, so are their numbered copies. -/
theorem numbered_split {v : ℕ} {pre post : List (AgentEvent F)}
    (h : numbered v events = pre ++ e :: post) :
    ∃ pre' e' post', events = pre' ++ e' :: post' ∧ pre = numbered v pre' ∧
      e.sequence = some (v + pre'.length + 1) ∧ e.eventKind = e'.eventKind ∧
      e.payload = e'.payload := by
  induction events generalizing v pre with
  | nil => exact absurd h.symm (by simp [numbered])
  | cons a rest ih =>
    rw [numbered] at h
    cases pre with
    | nil =>
      obtain ⟨rfl, -⟩ := List.cons.inj h
      exact ⟨[], a, rest, rfl, rfl, rfl, rfl, rfl⟩
    | cons b pre =>
      obtain ⟨rfl, hrest⟩ := List.cons.inj ((List.cons_append ..).symm.trans h.symm).symm
      obtain ⟨pre', e', post', rfl, rfl, hseq, hkind, hpayload⟩ := ih hrest
      refine ⟨a :: pre', e', post', rfl, rfl, ?_, hkind, hpayload⟩
      rw [hseq, List.length_cons]
      congr 1
      omega

theorem unguarded_congr {a b : AgentEvent F} (hkind : a.eventKind = b.eventKind)
    (hpayload : a.payload = b.payload) : Unguarded s a ↔ Unguarded s b := by
  unfold Unguarded AgentEvent.field
  rw [hkind, hpayload]

theorem guarded_of_replay {pre post : List (AgentEvent F)}
    (h : replay runId (pre ++ e :: post) = .ok s') (hpre : replay runId pre = .ok s) :
    ¬ Unguarded s e := by
  obtain ⟨s₁, hs₁, hpost⟩ := (replay_append (replay_ne_nil hpre)).mp h
  obtain rfl := Except.ok.inj (hpre.symm.trans hs₁)
  obtain ⟨s₂, -, happ, -⟩ := replayFrom_cons.mp hpost
  exact happ.guarded

variable {log : List (Call F)} {db : Database F} {call : Call F}

/-- The stored events of a run can be encoded. -/
theorem Represents.encodable (h : Represents log db) (runId : PyStr) :
    ∀ e ∈ numbered 0 ((history log runId).map AgentEvent.normal), Encodable e := by
  refine encodable_numbered fun e he => ?_
  obtain ⟨a, ha, rfl⟩ := List.mem_map.mp he
  have henc := encodable_of_rowsOf (h.rows runId) a ha
  unfold Encodable at henc ⊢
  rwa [AgentEvent.normal_payload, dumps_normal]

/-- A call that no branch guards leaves its transaction open. -/
theorem append_of_reducerFails (hrep : Represents log db) (h : ReducerFails db call) :
    ∃ b, append db call
      = (.error (.builtin b), { db with transaction := some (call.connection, db.rows) }) := by
  obtain ⟨rows, hprepared⟩ := h.rows
  obtain ⟨hid, -, -, -⟩ := prepare_ok hprepared
  obtain ⟨existing, pre, e, post, s, hexisting, hevents, hpre, hun⟩ := h.events
  have hlen : existing.length = call.expectedVersion.toNat := by
    have hversion := h.version
    rw [hrep.maxSequence_eq] at hversion
    obtain rfl := Except.ok.inj ((hrep.loadFrom_eq hid).symm.trans hexisting)
    rw [length_numbered, List.length_map]
    omega
  have hcheck : ∃ b, checkAppend db.rows call = .error (.builtin b) := by
    have hseq : (e.withSequence (call.expectedVersion.toNat + pre.length + 1)
        (Nat.succ_pos _)).sequence
          = some ((existing ++ numbered call.expectedVersion.toNat pre).length + 1) := by
      rw [AgentEvent.withSequence_sequence, List.length_append, length_numbered, hlen]
    obtain ⟨b, hb⟩ : ∃ b, replay _ (_ ++ _ ::
        numbered (call.expectedVersion.toNat + pre.length + 1) post) = .error (.builtin b) :=
      replay_unguarded hpre hseq ((unguarded_congr rfl rfl).mpr hun)
    refine ⟨b, ?_⟩
    rw [checkAppend, if_neg (not_not.mpr h.version), hexisting, hevents, numbered_append, numbered]
    rw [List.append_assoc] at hb
    show (replay _ _ >>= _) = _
    rw [hb]
    rfl
  obtain ⟨b, hb⟩ := hcheck
  have hbegin : ¬ (db.transaction.isSome = true ∨ call.lockTaken = true) := by
    simp [h.idle, h.lock]
  refine ⟨b, ?_⟩
  rw [append, hprepared]
  simp only [transact, if_neg hbegin, inTransaction, hb]
  rfl

/-- Checks that raise an exception no clause catches met an unguarded event. -/
theorem reducerFails_of_checkAppend (hrep : Represents log db) (hidle : db.transaction = none)
    (hlock : call.lockTaken = false) {rows : List (Row F)} (hprepared : prepare call = .ok rows)
    {x : Raised} (h : checkAppend db.rows call = .error x) (huncaught : x.rollsBack = false) :
    ReducerFails db call := by
  obtain ⟨hid, -, -, hrows⟩ := prepare_ok hprepared
  have hload := hrep.loadFrom_eq hid
  by_contra hno
  have huntyped : x.isAgentError ≠ true := by
    intro hagent
    rw [Raised.rollsBack, hagent, Bool.true_or] at huncaught
    exact absurd huncaught (by simp)
  by_cases hversion : (maxSequence db.rows call.runId : ℤ) = call.expectedVersion
  · have hreplay : Typed (replay call.runId
        (numbered 0 ((history log call.runId).map AgentEvent.normal) ++
          numbered call.expectedVersion.toNat call.events)) := by
      refine replay_typed hid ?_ fun pre e post s heq hpre hun => ?_
      · intro e he
        rcases List.mem_append.mp he with he | he
        · exact hrep.encodable call.runId e he
        · exact encodable_numbered (encodable_of_rowsOf hrows) e he
      · rcases List.append_eq_append_iff.mp heq with ⟨mid, hpreq, hpost⟩ | ⟨mid, hold, hpost⟩
        · -- among the new events
          obtain ⟨pre', e', post', hevents, rfl, -, hkind, hpayload⟩ := numbered_split hpost
          exact hno ⟨hidle, hlock, ⟨rows, hprepared⟩, hversion, _, pre', e', post', s, hload,
            hevents, hpreq ▸ hpre, (unguarded_congr hkind hpayload).mp hun⟩
        · cases mid with
          | nil =>
            -- the first of the new events
            rw [List.append_nil] at hold
            obtain ⟨pre', e', post', hevents, hnil, -, hkind, hpayload⟩ :=
              numbered_split (show numbered _ _ = [] ++ _ :: _ from hpost.symm)
            refine hno ⟨hidle, hlock, ⟨rows, hprepared⟩, hversion, _, pre', e', post', s, hload,
              hevents, ?_, (unguarded_congr hkind hpayload).mp hun⟩
            rw [← hnil, List.append_nil, hold]
            exact hpre
          | cons a mid =>
            -- among the stored events, which were accepted
            obtain ⟨rfl, -⟩ := List.cons.inj hpost
            have hne : history log call.runId ≠ [] := by
              intro hnil
              rw [hnil] at hold
              exact absurd hold (by simp [numbered])
            obtain ⟨t, ht⟩ := hrep.replays call.runId hne
            rw [hold] at ht
            exact guarded_of_replay ht hpre hun
    rw [checkAppend, if_neg (not_not.mpr hversion), hload] at h
    have htyped : Typed (replay call.runId
        (numbered 0 ((history log call.runId).map AgentEvent.normal) ++
          numbered call.expectedVersion.toNat call.events) >>= fun _ => .ok ()) :=
      hreplay.bind fun _ _ => Typed.ok ()
    exact huntyped (htyped x h)
  · rw [checkAppend, if_pos hversion] at h
    exact huntyped (Except.error.inj h ▸ rfl)

/-- **A call on a database without an open transaction is atomic exactly when it
meets no hazard.** -/
theorem atomic_iff (hrep : Represents log db) (hidle : db.transaction = none) :
    Atomic db call ↔ ¬ Hazard db call := by
  constructor
  · intro hatomic hhazard
    obtain ⟨b, view, happend⟩ : ∃ b view, append db call
        = (.error (.builtin b), { db with transaction := some (call.connection, view) }) := by
      rcases hhazard with hred | ⟨inserted, hbind⟩
      · obtain ⟨b, hb⟩ := append_of_reducerFails hrep hred
        exact ⟨b, _, hb⟩
      · exact ⟨_, _, append_of_bindFails hrep.apart hbind⟩
    rcases hatomic with ⟨rows, version, -, hok⟩ | ⟨-, hdb, -⟩
    · exact absurd (congrArg Prod.fst (happend.symm.trans hok)) (by simp)
    · rw [happend] at hdb
      have := congrArg Database.transaction hdb
      rw [hidle] at this
      exact absurd this (by simp)
  · intro hno
    have hspec := append_spec db call
    unfold Atomic
    generalize happend : append db call = result at hspec ⊢
    obtain ⟨outcome, db'⟩ := result
    cases hspec with
    | refused e => exact .inr ⟨⟨e, rfl⟩, rfl, hidle⟩
    | committed idle prepared checked inserted =>
      obtain ⟨rfl, -, -⟩ := (insertAll_ok hrep.apart).mp inserted
      exact .inl ⟨_, _, prepared, rfl⟩
    | leaked idle lock prepared attempt uncaught =>
      unfold inTransaction at attempt
      split at attempt
      · next x hcheck =>
        obtain rfl := Except.error.inj (Prod.mk.inj attempt).1
        exact absurd (.inl (reducerFails_of_checkAppend hrep idle lock prepared hcheck uncaught))
          hno
      · next hcheck =>
        obtain ⟨inserted, hbind, -⟩ :=
          bindFails_of_insertAll hrep.apart idle lock prepared hcheck attempt uncaught
        exact absurd (.inr ⟨inserted, hbind⟩) hno

/-! ### Runs -/

/-- Atomic calls leave no transaction open. -/
theorem transaction_eq_none {calls : List (Call F)}
    (h : ∀ pre call post, calls = pre ++ call :: post → Atomic (appendAll .empty pre) call) :
    (appendAll .empty calls).transaction = none := by
  induction calls using List.reverseRecOn with
  | nil => rfl
  | append_singleton calls call ih =>
    rw [appendAll_append]
    show (append (appendAll .empty calls) call).2.transaction = none
    rcases h calls call [] rfl with ⟨rows, version, -, hok⟩ | ⟨-, hdb, hidle⟩
    · rw [hok]
    · rw [hdb, hidle]

/-- A call that names an attribute of the budget record as a budget. -/
def classBudgetCalls : List (Call Unit) :=
  [{ connection := 0, lockTaken := false, runId := py "run", expectedVersion := 0
     events := [sampleEvent "e1" .runCreated (sampleBudgets 1) none] },
   { connection := 0, lockTaken := false, runId := py "run", expectedVersion := 1
     events := [sampleEvent "e2" .budgetConsumed
       [("claim_id", sampleText "c"), ("category", sampleText "__class__"), ("amount", .int 1)]
       none] }]

end Agent
