/-
How an attempt ends.

`Unfinished` holds of the attempt until `finalizeArtifact`, `Finished` from there on; what the
other threads may do keeps both.  The response is the record's own if no transition is half
done when `_record_response` begins.

* `finalizeArtifact_spec`, `settleRequest_spec` — what the two leave;
* `doPost_spec` — the handler;
* `attempt_settled` — the attempt when the handler is done.
-/
import LlamaRuntime.Worker.HttpApi

namespace Worker.HttpApi

open Thread

variable {R I : Type} {s s' : PostState R I}

/-! ### The other threads -/

/-- A transition is the one of the registry, in two halves. -/
theorem assign_beginTransition (hfree : s.pending = none) (hopen : ¬ s.record.lifecycle.IsTerminal)
    {target : Lifecycle} (hallowed : target ∈ s.record.lifecycle.allowed) (result : Option R)
    (error : Option RecordError) (now : ℚ) :
    ((s.beginTransition target result error).assign now).record =
      (s.record.transitionLocked target result error (.ok now)).2 := by
  have hbegin : s.beginTransition target result error =
      { s with
        record := { s.record with lifecycle := target }
        pending := some (result, error) } := by
    unfold PostState.beginTransition
    rw [if_neg (by simp [hfree, hopen, hallowed])]
  rw [hbegin]
  simp [PostState.assign, RequestRecord.transitionLocked, hopen, hallowed]

def Ended (s : PostState R I) : Prop := s.record.lifecycle.IsTerminal

/-- What the other threads, and the handler before it finalizes, may do. -/
structure Interferes (s s' : PostState R I) : Prop where
  path : s'.artifact.path = s.artifact.path
  results : s'.artifact.results = s.artifact.results
  active : s.artifact.path ∈ s'.active ↔ s.artifact.path ∈ s.active
  finishes : s'.finishes = s.finishes
  artifactFinished : s'.artifactFinished = s.artifactFinished
  ended : Ended s → Ended s'
  /-- a record whose transition is over stays as it is -/
  settled : Ended s → s.pending = none → s'.pending = none ∧ s'.record = s.record

theorem Interferes.refl (s : PostState R I) : Interferes s s :=
  ⟨rfl, rfl, Iff.rfl, rfl, rfl, id, fun _ h => ⟨h, rfl⟩⟩

theorem Interferes.trans {t : PostState R I} (h : Interferes s s') (h' : Interferes s' t) :
    Interferes s t where
  path := h'.path.trans h.path
  results := h'.results.trans h.results
  active := by
    have := h'.active
    rw [h.path] at this
    exact this.trans h.active
  finishes := h'.finishes.trans h.finishes
  artifactFinished := h'.artifactFinished.trans h.artifactFinished
  ended := fun hended => h'.ended (h.ended hended)
  settled := by
    intro hended hfree
    obtain ⟨hfree', hrecord⟩ := h.settled hended hfree
    obtain ⟨hfree'', hrecord'⟩ := h'.settled (h.ended hended) hfree'
    exact ⟨hfree'', hrecord'.trans hrecord⟩

theorem assign_interferes (now : ℚ) (s : PostState R I) : Interferes s (s.assign now) := by
  unfold PostState.assign
  cases hpending : s.pending with
  | none => exact .refl s
  | some change =>
    refine ⟨rfl, rfl, Iff.rfl, rfl, rfl, id, fun _ hfree => ?_⟩
    exact absurd (hpending.symm.trans hfree) (by simp)

theorem otherStep_interferes (m : OtherMove R) (s : PostState R I) :
    Interferes s (otherStep m s) := by
  cases m with
  | transition target result error =>
    show Interferes s (s.beginTransition target result error)
    unfold PostState.beginTransition
    split_ifs with hrefused
    · exact .refl s
    · have hopen : ¬ Ended s := fun hended => hrefused (.inr (.inl hended))
      exact ⟨rfl, rfl, Iff.rfl, rfl, rfl, fun hended => absurd hended hopen,
        fun hended _ => absurd hended hopen⟩
  | assign now => exact assign_interferes now s
  | attempts active =>
    refine ⟨rfl, rfl, ?_, rfl, rfl, id, fun _ hfree => ⟨hfree, rfl⟩⟩
    show s.artifact.path ∈ (if s.artifact.path ∈ s.active then _ else _) ↔ _
    split_ifs with hmem
    · simp [hmem]
    · simp [hmem]

/-- No transition is half done when `_record_response` begins. -/
def posting (R I : Type) : Protocol (PostState R I) (Answer I) where
  inv := fun _ => True
  rely := Interferes
  allow s _ s' := s'.responses ≠ s.responses → s.pending = none
  rely_refl := .refl
  rely_trans := .trans

/-! ### The assertions -/

/-- The other threads cannot falsify the assertion. -/
def Kept (P : PostState R I → Prop) : Prop := ∀ s s', Interferes s s' → P s → P s'

theorem Kept.stable {P : PostState R I → Prop} (h : Kept P) : (posting R I).Stable P :=
  fun s s' _ hr _ hs => h s s' hr hs

theorem Kept.and {P Q : PostState R I → Prop} (hP : Kept P) (hQ : Kept Q) :
    Kept fun s => P s ∧ Q s :=
  fun s s' hr hs => ⟨hP s s' hr hs.1, hQ s s' hr hs.2⟩

theorem Kept.imp {p : Prop} {P : PostState R I → Prop} (hP : Kept P) : Kept fun s => p → P s :=
  fun s s' hr hs hp => hP s s' hr (hs hp)

theorem Kept.or {P Q : PostState R I → Prop} (hP : Kept P) (hQ : Kept Q) :
    Kept fun s => P s ∨ Q s :=
  fun s s' hr hs => hs.imp (hP s s' hr) (hQ s s' hr)

theorem Kept.exists {κ : Type} {P : κ → PostState R I → Prop} (hP : ∀ x, Kept (P x)) :
    Kept fun s => ∃ x, P x s :=
  fun s s' hr ⟨x, hx⟩ => ⟨x, hP x s s' hr hx⟩

theorem Kept.fact {p : Prop} : Kept fun _ : PostState R I => p := fun _ _ _ hp => hp

theorem kept_ended : Kept (R := R) (I := I) Ended := fun _ _ hr hs => hr.ended hs

/-- The attempt is active, and nothing is written of its result. -/
structure Unfinished (s : PostState R I) : Prop where
  active : s.artifact.path ∈ s.active
  finishes : s.finishes = 0
  results : s.artifact.results = []

theorem kept_unfinished : Kept (R := R) (I := I) Unfinished := by
  intro s s' hr hs
  refine ⟨?_, hr.finishes.trans hs.finishes, hr.results.trans hs.results⟩
  rw [hr.path]
  exact hr.active.mpr hs.active

/-- The record has ended, and its result and error are assigned. -/
structure Assigned (record : RequestRecord R) (s : PostState R I) : Prop where
  record_eq : s.record = record
  free : s.pending = none
  ended : record.lifecycle.IsTerminal

theorem Assigned.ended' {record : RequestRecord R} (h : Assigned record s) : Ended s := by
  unfold Ended
  rw [h.record_eq]
  exact h.ended

theorem kept_assigned {record : RequestRecord R} : Kept (I := I) (Assigned record) := by
  intro s s' hr hs
  obtain ⟨hfree, hrecord⟩ := hr.settled hs.ended' hs.free
  exact ⟨hrecord.trans hs.record_eq, hfree, hs.ended⟩

/-- The error a record reports. -/
def recordedError : Option RecordError → WorkerError
  | some (.error error) => error
  | error => codeError error

/-- The response of a record that has ended; the identity is the runtime's. -/
def IsResponse (record : RequestRecord R) (payload : Payload R I) : Prop :=
  if record.lifecycle = .COMPLETED then payload = .result record.result
  else
    ∃ identity, payload = .failure record.requestId record.attemptId record.lifecycle identity
      (recordedError record.error)

/-- The attempt is over. -/
structure Finished (s : PostState R I) : Prop where
  inactive : s.artifact.path ∉ s.active
  finishes : s.finishes = 1
  ended : Ended s
  results : s.artifact.results = [] ∨ ∃ record payload, Assigned record s ∧
    IsResponse record payload ∧ s.artifact.results = [payload]

theorem kept_finished : Kept (R := R) (I := I) Finished := by
  intro s s' hr hs
  refine ⟨?_, hr.finishes.trans hs.finishes, hr.ended hs.ended, ?_⟩
  · rw [hr.path]
    exact fun hmem => hs.inactive (hr.active.mp hmem)
  · rw [hr.results]
    rcases hs.results with hnone | ⟨record, payload, hassigned, hrest⟩
    · exact .inl hnone
    · exact .inr ⟨record, payload, kept_assigned s s' hr hassigned, hrest⟩

/-! ### Threads that leave the attempt as it is -/

/-- Whatever the thread does, the attempt is left as it is. -/
def Quiet {α : Type} (t : Handler R I α) : Prop :=
  t.Confined Interferes (fun _ => True) fun _ => True

theorem Quiet.triple {α : Type} {t : Handler R I α} (h : Quiet t) {P : PostState R I → Prop}
    (hP : Kept P) : Triple (posting R I) P t (fun _ => P) fun _ => P :=
  (h.steady (C := posting R I) (fun _ _ _ _ => trivial) hP hP).conseq (fun _ _ hs => hs) (fun _ _ _ hs => hs.1)
    fun _ _ _ hs => hs.1

theorem Quiet.bind {α β : Type} {t : Handler R I α} {k : α → Handler R I β} (h : Quiet t)
    (hk : ∀ a, Quiet (k a)) : Quiet (t >>= k) :=
  Confined.bind h fun a _ => hk a

theorem quiet_ask {α : Type} (f : Answer I → α) : Quiet (ask f : Handler R I α) :=
  Confined.atomic (fun s _ => .refl s) (fun _ _ _ _ => trivial) fun _ _ _ _ => trivial

theorem quiet_read {α : Type} (f : PostState R I → α) : Quiet (Thread.read f : Handler R I α) :=
  Confined.read .refl fun _ => trivial

theorem quiet_foreign : Quiet (foreign : Handler R I Unit) := by
  refine Confined.atomic (fun s i => ?_) (fun _ _ _ _ => trivial) fun _ _ _ _ => trivial
  cases i.raises with
  | none => exact .refl s
  | some exc => exact .refl s

/-- A local variable, or the connection, is assigned. -/
theorem assign_spec {P : PostState R I → Prop} (hP : Kept P) {f : PostState R I → PostState R I}
    (hf : ∀ s, Interferes s (f s)) (E : Ending → PostState R I → Prop) :
    Triple (posting R I) P (.modify f) (fun _ => P) E :=
  Triple.modify hP.stable hP.stable fun s _ _ hs _ => ⟨trivial, hP s _ (hf s) hs⟩

theorem quiet_send (convert : HandlerException → HandlerException) (message : Sent R I) :
    Quiet (send convert message) := by
  refine Confined.atomic (fun s i => ?_) (fun _ _ _ _ => trivial) fun _ _ _ _ => trivial
  cases i.raises with
  | some exc => exact .refl s
  | none =>
    cases i.writes with
    | some exc => exact .refl s
    | none => exact ⟨rfl, rfl, Iff.rfl, rfl, rfl, id, fun _ h => ⟨h, rfl⟩⟩

theorem quiet_startSse : Quiet (startSse : Handler R I Unit) :=
  (quiet_send _ _).bind fun _ =>
    Confined.modify (fun _ => ⟨rfl, rfl, Iff.rfl, rfl, rfl, id, fun _ h => ⟨h, rfl⟩⟩) trivial

theorem quiet_onArtifact {f : Answer I → AttemptArtifact (Payload R I) →
      Except HandlerException Unit × AttemptArtifact (Payload R I)}
    (h : ∀ i a, (f i a).2.path = a.path ∧ (f i a).2.results = a.results) :
    Quiet (onArtifact f : Handler R I Unit) := by
  refine Confined.atomic (fun s i => ?_) (fun _ _ _ _ => trivial) fun _ _ _ _ => trivial
  obtain ⟨hpath, hresults⟩ := h i s.artifact
  generalize f i s.artifact = out at hpath hresults ⊢
  obtain ⟨reply, a⟩ := out
  cases reply with
  | _ => exact ⟨hpath, hresults, Iff.rfl, rfl, rfl, id, fun _ h => ⟨h, rfl⟩⟩

/-- The manifest is not the result. -/
theorem quiet_writeManifest :
    Quiet (onArtifact fun i a => a.writeManifest i : Handler R I Unit) := by
  refine quiet_onArtifact fun answer a => ?_
  unfold AttemptArtifact.writeManifest AttemptArtifact.writeNew
  cases answer.raises with
  | some exc => exact ⟨rfl, rfl⟩
  | none =>
    dsimp only
    split_ifs
    · exact ⟨rfl, rfl⟩
    · exact ⟨rfl, rfl⟩
    · cases answer.writes with
      | _ => exact ⟨rfl, rfl⟩

/-- A record that has ended is not cancelled. -/
theorem cancel_interferes (now : ℚ) (s : PostState R I) :
    Interferes s { s with record := (s.record.cancel (.ok now)).2 } := by
  by_cases hended : s.record.lifecycle.IsTerminal
  · have : (s.record.cancel (.ok now)).2 = s.record := by
      unfold RequestRecord.cancel
      rw [if_pos hended]
    rw [this]
    exact .refl s
  · exact ⟨rfl, rfl, Iff.rfl, rfl, rfl, fun h => absurd h hended, fun h _ => absurd h hended⟩

theorem quiet_dispatcherCancel : Quiet (dispatcherCancel : Handler R I Unit) := by
  refine Confined.atomic (fun s i => ?_) (fun _ _ _ _ => trivial) fun _ _ _ _ => trivial
  dsimp only
  have hassign := assign_interferes i.now s
  have hcancel := hassign.trans (cancel_interferes i.now (s.assign i.now))
  split_ifs
  · exact hassign
  · cases i.raises with
    | _ => exact hcancel
  · exact hcancel

theorem quiet_lockedLifecycle : Quiet (lockedLifecycle : Handler R I Lifecycle) :=
  Confined.atomic (fun s i => assign_interferes i.now s) (fun _ _ _ _ => trivial)
    fun _ _ _ _ => trivial

theorem quiet_writeEvents (events : List InferenceEvent) :
    Quiet (events.forM writeEvent : Handler R I PUnit) := by
  induction events with
  | nil => exact Confined.pure trivial
  | cons event events ih => exact (quiet_send _ _).bind fun _ => ih

/-! ### Waiting for the record -/

section Waiting

variable {P : PostState R I → Prop}

theorem readLifecycle_spec (hP : Kept P) (E : Ending → PostState R I → Prop) :
    Triple (posting R I) P readLifecycle
      (fun lifecycle s => P s ∧ (lifecycle.IsTerminal → Ended s)) E :=
  Triple.read hP.stable (fun _ => (hP.and kept_ended.imp).stable) fun _ _ hs => ⟨hs, id⟩

theorem lockedLifecycle_spec (hP : Kept P) (E : Ending → PostState R I → Prop)
    (hE : ∀ e, Kept (E e)) :
    Triple (posting R I) P lockedLifecycle
      (fun lifecycle s => P s ∧ (lifecycle.IsTerminal → Ended s)) E := by
  refine Triple.atomic hP.stable (fun _ => (hP.and kept_ended.imp).stable)
    (fun e => (hE e).stable) fun s i _ hs _ => ⟨trivial, ?_, fun e he => absurd he (by simp)⟩
  intro lifecycle heq
  obtain rfl := Except.ok.inj heq
  exact ⟨hP _ _ (assign_interferes i.now s) hs, id⟩

theorem awaitTerminal_spec (hP : Kept P) : ∀ n, Triple (posting R I) P (awaitTerminal n)
    (fun _ s => P s ∧ Ended s) fun e _ => e = .waiting
  | 0 => Triple.raise Kept.fact.stable fun _ _ _ => rfl
  | n + 1 => by
    refine Triple.bind (lockedLifecycle_spec hP _ fun _ => Kept.fact) fun lifecycle => ?_
    refine Triple.ite (fun hended => ?_) fun _ => ?_
    · exact Triple.pure (hP.and kept_ended).stable fun _ _ hs => ⟨hs.1, hs.2 hended⟩
    · exact (awaitTerminal_spec hP n).conseq (fun _ _ hs => hs.1) (fun _ _ _ hs => hs)
        fun _ _ _ he => he

theorem dispatcherWait_spec (hP : Kept P) : Triple (posting R I) P dispatcherWait
    (fun _ s => P s ∧ Ended s) fun e _ => e = .waiting := by
  refine Triple.bind (Q := fun _ => P) ?_ fun rounds => awaitTerminal_spec hP rounds
  refine Triple.atomic hP.stable (fun _ => hP.stable) (fun _ => Kept.fact.stable) ?_
  exact fun s _ _ hs _ => ⟨trivial, fun _ _ => hs, fun _ he => absurd he (by simp)⟩

theorem awaitRecord_spec (hP : Kept P) : ∀ n, Triple (posting R I) P (awaitRecord n)
    (fun _ s => P s ∧ Ended s) fun _ => P
  | 0 => Triple.raise hP.stable fun _ _ hs => hs
  | n + 1 => by
    refine Triple.bind (readLifecycle_spec hP _) fun lifecycle => ?_
    refine Triple.ite (fun hended => ?_) fun _ => ?_
    · exact Triple.pure (hP.and kept_ended).stable fun _ _ hs => ⟨hs.1, hs.2 hended⟩
    · refine Triple.conseq (P := P) ?_ (fun _ _ hs => hs.1) (fun _ _ _ hs => hs) fun _ _ _ hs => hs
      refine Triple.bind ((quiet_ask _).triple hP) fun gone => ?_
      refine Triple.ite (fun _ => Triple.raise hP.stable fun _ _ hs => hs) fun _ => ?_
      exact Triple.bind (quiet_lockedLifecycle.triple hP) fun _ => awaitRecord_spec hP n

theorem drainEvents_spec (hP : Kept P) : ∀ n, Triple (posting R I) P (drainEvents n)
    (fun _ s => P s ∧ Ended s) fun _ => P
  | 0 => Triple.raise hP.stable fun _ _ hs => hs
  | n + 1 => by
    refine Triple.bind ((quiet_ask _).triple hP) fun gone => ?_
    refine Triple.ite (fun _ => Triple.raise hP.stable fun _ _ hs => hs) fun _ => ?_
    refine Triple.bind (readLifecycle_spec hP _) fun lifecycle => ?_
    refine Triple.ite (fun hended => ?_) fun _ => ?_
    · -- the last events
      refine Triple.conseq (P := fun s => P s ∧ Ended s) (E := fun _ s => P s ∧ Ended s) ?_
        (fun _ _ hs => ⟨hs.1, hs.2 hended⟩) (fun _ _ _ hs => hs) fun _ _ _ hs => hs.1
      exact (Quiet.bind (quiet_ask _) quiet_writeEvents).triple (hP.and kept_ended)
    · refine Triple.conseq (P := P) ?_ (fun _ _ hs => hs.1) (fun _ _ _ hs => hs) fun _ _ _ hs => hs
      refine Triple.bind ((quiet_ask _).triple hP) fun event => ?_
      exact Triple.bind ((quiet_writeEvents event).triple hP) fun _ => drainEvents_spec hP n

theorem follow_spec (hP : Kept P) (streaming buffered : Bool) :
    Triple (posting R I) P (follow streaming buffered) (fun _ s => P s ∧ Ended s) fun _ => P := by
  refine Triple.ite (fun _ => ?_) fun _ => ?_
  · refine Triple.bind (quiet_startSse.triple hP) fun _ => ?_
    refine Triple.bind (Quiet.triple ?_ hP) fun _ => ?_
    · exact Confined.modify (fun _ => ⟨rfl, rfl, Iff.rfl, rfl, rfl, id, fun _ h => ⟨h, rfl⟩⟩) trivial
    refine Triple.bind ((quiet_read _).triple hP) fun ids => ?_
    refine Triple.bind ((quiet_send _ _).triple hP) fun _ => ?_
    refine Triple.ite (fun _ => ?_) fun _ => Triple.raise hP.stable fun _ _ hs => hs
    exact Triple.bind ((quiet_ask _).triple hP) fun rounds => drainEvents_spec hP rounds
  · exact Triple.bind ((quiet_ask _).triple hP) fun rounds => awaitRecord_spec hP rounds

end Waiting

/-! ### The response -/

section Response

variable {P : PostState R I → Prop} {record : RequestRecord R}

/-- A field of a record that has ended does not change between two reads. -/
theorem read_spec {α : Type} (hP : Kept P) {f : PostState R I → α} {a : α}
    (hf : ∀ s, P s → f s = a) (E : Ending → PostState R I → Prop) :
    Triple (posting R I) P (.read f) (fun a' s => P s ∧ a' = a) E :=
  Triple.read hP.stable (fun _ => (hP.and Kept.fact).stable) fun s _ hs => ⟨hs, hf s hs⟩

/-- What follows a read. -/
theorem read_bind {α β : Type} (hP : Kept P) {f : PostState R I → α} {a : α}
    (hf : ∀ s, P s → f s = a) {k : α → Handler R I β} {Q : β → PostState R I → Prop}
    {E : Ending → PostState R I → Prop} (hk : Triple (posting R I) P (k a) Q E) :
    Triple (posting R I) P (.read f >>= k) Q E := by
  refine Triple.bind (read_spec hP hf E) fun a' => Triple.of_fact fun heq => ?_
  rw [heq]
  exact hk

theorem completedResponse_spec (hP : Kept P) (hassigned : ∀ s, P s → Assigned record s)
    (hcompleted : record.lifecycle = .COMPLETED) :
    Triple (posting R I) P completedResponse
      (fun response s => P s ∧ IsResponse record response.1) fun _ => P := by
  refine read_bind hP (fun s hs => congrArg RequestRecord.result (hassigned s hs).record_eq) ?_
  refine Triple.bind (quiet_foreign.triple hP) fun _ => ?_
  refine Triple.pure (hP.and Kept.fact).stable fun _ _ hs => ⟨hs, ?_⟩
  unfold IsResponse
  rw [if_pos hcompleted]

theorem reportedError_spec (hP : Kept P) (hassigned : ∀ s, P s → Assigned record s) :
    Triple (posting R I) P reportedError
      (fun error s => P s ∧ error = recordedError record.error) fun _ => P := by
  have hread : ∀ s, P s → s.record.error = record.error :=
    fun s hs => congrArg RequestRecord.error (hassigned s hs).record_eq
  refine read_bind hP hread (read_bind hP hread ?_)
  -- the two reads agree
  cases record.error with
  | none => exact Triple.pure (hP.and Kept.fact).stable fun _ _ hs => ⟨hs, rfl⟩
  | some error =>
    cases error with
    | error error => exact Triple.pure (hP.and Kept.fact).stable fun _ _ hs => ⟨hs, rfl⟩
    | code code => exact Triple.pure (hP.and Kept.fact).stable fun _ _ hs => ⟨hs, rfl⟩

theorem failedResponse_spec (hP : Kept P) (hassigned : ∀ s, P s → Assigned record s)
    (hfailed : record.lifecycle ≠ .COMPLETED) :
    Triple (posting R I) P failedResponse
      (fun response s => P s ∧ IsResponse record response.1) fun _ => P := by
  refine Triple.bind (reportedError_spec hP hassigned) fun error => Triple.of_fact fun herror => ?_
  refine read_bind hP (a := (record.requestId, record.attemptId))
    (fun s hs => by rw [(hassigned s hs).record_eq]) ?_
  refine read_bind hP (fun s hs => congrArg RequestRecord.lifecycle (hassigned s hs).record_eq) ?_
  refine Triple.bind (quiet_foreign.triple hP) fun _ => ?_
  refine Triple.bind ((quiet_ask _).triple hP) fun identity => ?_
  refine Triple.pure (hP.and Kept.fact).stable fun _ _ hs => ⟨hs, ?_⟩
  unfold IsResponse
  rw [if_neg hfailed, herror]
  exact ⟨identity, rfl⟩

theorem recordResponse_spec (hP : Kept P) :
    Triple (posting R I) (fun s => P s ∧ Ended s) recordResponse
      (fun response s => ∃ record, (P s ∧ Assigned record s) ∧ IsResponse record response.1)
      fun _ s => P s ∧ Ended s := by
  refine Triple.bind (Q := fun lifecycle s =>
    (∃ record, P s ∧ Assigned record s) ∧ lifecycle.IsTerminal) ?_ fun lifecycle => ?_
  · refine Triple.atomic (hP.and kept_ended).stable
      (fun _ => ((Kept.exists fun _ => hP.and kept_assigned).and Kept.fact).stable)
      (fun _ => (hP.and kept_ended).stable) fun s i _ hs hallow => ⟨trivial, ?_, ?_⟩
    · intro lifecycle heq
      obtain rfl := Except.ok.inj heq
      have hfree : s.pending = none := hallow (Nat.succ_ne_self _)
      refine ⟨⟨s.record, hP s _ ?_ hs.1, rfl, hfree, hs.2⟩, hs.2⟩
      exact ⟨rfl, rfl, Iff.rfl, rfl, rfl, id, fun _ h => ⟨h, rfl⟩⟩
    · exact fun e he => absurd he (by simp)
  · refine Triple.of_fact fun hterminal => Triple.of_exists fun record => ?_
    have hkept : Kept fun s : PostState R I => P s ∧ Assigned record s := hP.and kept_assigned
    refine Triple.ite (fun hnot => absurd hterminal hnot) fun _ => ?_
    refine read_bind hkept (fun s hs => congrArg RequestRecord.lifecycle hs.2.record_eq) ?_
    refine Triple.conseq (P := fun s => P s ∧ Assigned record s)
      (Q := fun response s => (P s ∧ Assigned record s) ∧ IsResponse record response.1)
      (E := fun _ s => P s ∧ Assigned record s) ?_ (fun _ _ hs => hs)
      (fun _ _ _ hs => ⟨record, hs⟩) fun _ _ _ hs => ⟨hs.1, hs.2.ended'⟩
    refine Triple.ite (fun hcompleted => ?_) fun hfailed => ?_
    · exact completedResponse_spec hkept (fun _ hs => hs.2) hcompleted
    · exact failedResponse_spec hkept (fun _ hs => hs.2) hfailed

end Response

/-! ### The end of an attempt -/

/-- The result is written, or could not be, and the attempt is still active. -/
structure Written (s : PostState R I) : Prop where
  active : s.artifact.path ∈ s.active
  finishes : s.finishes = 0
  ended : Ended s
  results : s.artifact.results = [] ∨ ∃ record payload, Assigned record s ∧
    IsResponse record payload ∧ s.artifact.results = [payload]

theorem kept_written : Kept (R := R) (I := I) Written := by
  intro s s' hr hs
  refine ⟨?_, hr.finishes.trans hs.finishes, hr.ended hs.ended, ?_⟩
  · rw [hr.path]
    exact hr.active.mpr hs.active
  · rw [hr.results]
    rcases hs.results with hnone | ⟨record, payload, hassigned, hrest⟩
    · exact .inl hnone
    · exact .inr ⟨record, payload, kept_assigned s s' hr hassigned, hrest⟩

theorem Unfinished.written (h : Unfinished s) (hended : Ended s) : Written s :=
  ⟨h.active, h.finishes, hended, .inl h.results⟩

theorem kept_flag (b : Bool) : Kept fun s : PostState R I => s.artifactFinished = b :=
  fun _ _ hr hs => hr.artifactFinished.trans hs

theorem onArtifact_spec {f : Answer I → AttemptArtifact (Payload R I) →
      Except HandlerException Unit × AttemptArtifact (Payload R I)}
    {P Q : PostState R I → Prop} (hP : Kept P) (hQ : Kept Q)
    (h : ∀ s i, P s → Q { s with artifact := (f i s.artifact).2 }) :
    Triple (posting R I) P (onArtifact f) (fun _ => Q) fun _ => Q := by
  refine Triple.atomic hP.stable (fun _ => hQ.stable) (fun _ => hQ.stable) fun s i _ hs _ => ?_
  have hafter := h s i hs
  generalize f i s.artifact = out at hafter ⊢
  obtain ⟨reply, a⟩ := out
  cases reply with
  | _ => exact ⟨trivial, fun _ _ => hafter, fun _ _ => hafter⟩

theorem writeResult_cases {P : Type} (payload : P) (answer : Answer I) (a : AttemptArtifact P) :
    (a.writeResult payload answer).2.path = a.path ∧
      ((a.writeResult payload answer).2.results = a.results ∨
        (a.writeResult payload answer).2.results = a.results ++ [payload]) := by
  unfold AttemptArtifact.writeResult AttemptArtifact.writeNew
  split_ifs with hterminal hexists hquota
  · exact ⟨rfl, .inl rfl⟩
  · exact ⟨rfl, .inl rfl⟩
  · cases answer.raises with
    | _ => exact ⟨rfl, .inl rfl⟩
  · cases answer.raises with
    | some exc => exact ⟨rfl, .inl rfl⟩
    | none =>
      cases answer.writes with
      | some exc => exact ⟨rfl, .inl rfl⟩
      | none => exact ⟨rfl, .inr rfl⟩

theorem writeResult_spec (b : Bool) (payload : Payload R I) :
    Triple (posting R I)
      (fun s => ∃ record, ((Unfinished s ∧ s.artifactFinished = b) ∧ Assigned record s) ∧
        IsResponse record payload)
      (onArtifact fun i a => a.writeResult payload i)
      (fun _ s => Written s ∧ s.artifactFinished = b)
      fun _ s => Written s ∧ s.artifactFinished = b := by
  have hpre : Kept fun s : PostState R I => ∃ record,
      ((Unfinished s ∧ s.artifactFinished = b) ∧ Assigned record s) ∧ IsResponse record payload :=
    Kept.exists fun _ => ((kept_unfinished.and (kept_flag b)).and kept_assigned).and Kept.fact
  have hpost : Kept fun s : PostState R I => Written s ∧ s.artifactFinished = b :=
    kept_written.and (kept_flag b)
  refine onArtifact_spec hpre hpost ?_
  rintro s i ⟨record, ⟨⟨hopen, hflag⟩, hassigned⟩, hresponse⟩
  obtain ⟨hpath, hresults⟩ := writeResult_cases payload i s.artifact
  refine ⟨⟨?_, hopen.finishes, hassigned.ended', ?_⟩, hflag⟩
  · show (s.artifact.writeResult payload i).2.path ∈ s.active
    rw [hpath]
    exact hopen.active
  · -- whether the write succeeds or not
    rw [hopen.results] at hresults
    rcases hresults with hnone | hsome
    · exact .inl hnone
    · exact .inr ⟨record, payload,
        ⟨hassigned.record_eq, hassigned.free, hassigned.ended⟩, hresponse, hsome⟩

theorem finish_spec (b : Bool) (E : Ending → PostState R I → Prop) :
    Triple (posting R I) (fun s => Written s ∧ s.artifactFinished = b) finish
      (fun _ s => Finished s ∧ s.artifactFinished = b) E := by
  refine Triple.modify (kept_written.and (kept_flag b)).stable
    (kept_finished.and (kept_flag b)).stable fun s i _ hs _ => ⟨trivial, ⟨?_, ?_, hs.1.ended, ?_⟩, hs.2⟩
  · exact Finset.notMem_erase _ _
  · show s.finishes + 1 = 1
    rw [hs.1.finishes]
  · rcases hs.1.results with hnone | ⟨record, payload, hassigned, hrest⟩
    · exact .inl hnone
    · exact .inr ⟨record, payload, ⟨hassigned.record_eq, hassigned.free, hassigned.ended⟩, hrest⟩

theorem andFinally_spec {α : Type} {t : Handler R I α} {last : Handler R I Unit}
    {P W F : PostState R I → Prop} (hF : Kept F)
    (ht : Triple (posting R I) P t (fun _ => W) fun _ => W)
    (hlast : Triple (posting R I) W last (fun _ => F) fun _ => F) :
    Triple (posting R I) P (andFinally t last) (fun _ => F) fun _ => F := by
  refine Triple.bind (Q := fun _ => W) (Triple.tryCatch ht fun e => ?_) fun a => ?_
  · exact Triple.bind hlast fun _ => Triple.raise hF.stable fun _ _ hs => hs
  · exact Triple.bind hlast fun _ => Triple.pure hF.stable fun _ _ hs => hs

/-- However the response and its write end, the attempt is finished. -/
theorem finalizeArtifact_spec (b : Bool) :
    Triple (posting R I) (fun s => (Unfinished s ∧ s.artifactFinished = b) ∧ Ended s)
      finalizeArtifact (fun _ s => Finished s ∧ s.artifactFinished = b)
      fun _ s => Finished s ∧ s.artifactFinished = b := by
  have hopen : Kept fun s : PostState R I => Unfinished s ∧ s.artifactFinished = b :=
    kept_unfinished.and (kept_flag b)
  have hwritten : Kept fun s : PostState R I => Written s ∧ s.artifactFinished = b :=
    kept_written.and (kept_flag b)
  refine andFinally_spec (W := fun s => Written s ∧ s.artifactFinished = b)
    (kept_finished.and (kept_flag b)) ?_ (finish_spec b _)
  refine Triple.bind ((recordResponse_spec hopen).conseq (fun _ _ hs => hs) (fun _ _ _ hs => hs)
    fun _ _ _ hs => ⟨hs.1.1.written hs.2, hs.1.2⟩) fun response => ?_
  refine Triple.bind (writeResult_spec b response.1) fun _ => ?_
  exact Triple.pure hwritten.stable fun _ _ hs => hs

theorem finalizeArtifact_finished :
    Triple (posting R I) (fun s => Unfinished s ∧ Ended s) finalizeArtifact (fun _ => Finished)
      fun _ => Finished :=
  fun s hi hs => (finalizeArtifact_spec s.artifactFinished s hi ⟨⟨hs.1, rfl⟩, hs.2⟩).mono
    (fun _ _ _ h => h.1) fun _ _ _ h => h.1

theorem swallow_spec {α : Type} {t : Handler R I α} {P Q : PostState R I → Prop} (hQ : Kept Q)
    (ht : Triple (posting R I) P t (fun _ => Q) fun _ => Q) :
    Triple (posting R I) P (swallow t) (fun _ => Q) fun e _ => e = .waiting := by
  refine Triple.tryCatch (Triple.bind ht fun _ => Triple.pure hQ.stable fun _ _ hs => hs) fun e => ?_
  cases e with
  | raised exc => exact Triple.pure hQ.stable fun _ _ hs => hs
  | waiting => exact Triple.raise Kept.fact.stable fun _ _ _ => rfl

theorem endRecord_spec {P : PostState R I → Prop} (hP : Kept P) :
    Triple (posting R I) P endRecord (fun _ s => P s ∧ Ended s) fun e _ => e = .waiting := by
  refine Triple.bind (readLifecycle_spec hP _) fun lifecycle => ?_
  refine Triple.ite (fun hended => ?_) fun _ => ?_
  · exact Triple.pure (hP.and kept_ended).stable fun _ _ hs => ⟨hs.1, hs.2 hended⟩
  · refine Triple.conseq (P := P) ?_ (fun _ _ hs => hs.1) (fun _ _ _ hs => hs) fun _ _ _ he => he
    refine Triple.bind (swallow_spec hP (quiet_dispatcherCancel.triple hP)) fun _ => ?_
    exact dispatcherWait_spec hP

/-- What the flag says of the attempt. -/
def Flagged (b : Bool) (s : PostState R I) : Prop :=
  (b = true → Finished s) ∧ (b = false → Unfinished s)

theorem kept_flagged (b : Bool) : Kept fun s : PostState R I => Flagged b s :=
  kept_finished.imp.and kept_unfinished.imp

/-- The request is settled once: the record ends, and the attempt is finished if it is not yet. -/
theorem settleRequest_spec (b disconnected : Bool) :
    Triple (posting R I) (Flagged b) (settleRequest b disconnected)
      (fun finished s => Finished s ∧ finished = true) fun e _ => e = .waiting := by
  have hdone : ∀ finished : Bool, (posting R I).Stable fun s => Finished s ∧ finished = true :=
    fun _ => (kept_finished.and Kept.fact).stable
  refine Triple.bind (assign_spec (kept_flagged b) ?_ _) fun _ => ?_
  · exact fun _ => ⟨rfl, rfl, Iff.rfl, rfl, rfl, id, fun _ h => ⟨h, rfl⟩⟩
  refine Triple.bind (endRecord_spec (kept_flagged b)) fun _ => ?_
  refine Triple.ite (fun hflag => ?_) fun hflag => ?_
  · exact Triple.pure (hdone true) fun _ _ hs => ⟨hs.1.1 hflag, rfl⟩
  · refine Triple.bind (Q := fun _ => Finished) ?_ fun _ =>
      Triple.pure (hdone true) fun _ _ hs => ⟨hs, rfl⟩
    exact (swallow_spec kept_finished finalizeArtifact_finished).conseq
      (fun _ _ hs => ⟨hs.1.2 (Bool.eq_false_of_not_eq_true hflag), hs.2⟩) (fun _ _ _ hs => hs)
      fun _ _ _ he => he

/-- The attempt is as the local `artifact_finished` says. -/
def Tracked (s : PostState R I) : Prop := Flagged s.artifactFinished s

theorem kept_tracked : Kept (R := R) (I := I) Tracked := by
  intro s s' hr hs
  unfold Tracked
  rw [hr.artifactFinished]
  exact kept_flagged _ s s' hr hs

theorem Finished.tracked (h : Finished s) (hflag : s.artifactFinished = true) : Tracked s :=
  ⟨fun _ => h, fun hfalse => absurd (hflag.symm.trans hfalse) (by simp)⟩

theorem settle_spec (disconnected : Bool) :
    Triple (posting R I) Tracked (settle disconnected)
      (fun _ s => Finished s ∧ s.artifactFinished = true) fun e _ => e = .waiting := by
  refine Triple.bind (Q := Flagged) ?_ fun b => ?_
  · exact Triple.read kept_tracked.stable (fun b => (kept_flagged b).stable) fun _ _ hs => hs
  refine Triple.bind (settleRequest_spec b disconnected) fun finished => Triple.of_fact fun hflag => ?_
  refine Triple.modify kept_finished.stable (kept_finished.and (kept_flag true)).stable
    fun s i _ hs _ => ⟨trivial, ⟨hs.inactive, hs.finishes, hs.ended, ?_⟩, hflag⟩
  rcases hs.results with hnone | ⟨record, payload, hassigned, hrest⟩
  · exact .inl hnone
  · exact .inr ⟨record, payload, ⟨hassigned.record_eq, hassigned.free, hassigned.ended⟩, hrest⟩

/-! ### The handler -/

/-- The handler is left by an exception after the attempt is over, or is still waiting. -/
def Left (e : Ending) (s : PostState R I) : Prop := e = .waiting ∨ Finished s

theorem kept_left (e : Ending) : Kept fun s : PostState R I => Left e s :=
  Kept.fact.or kept_finished

theorem respond_spec (streaming : Bool) (response : Payload R I × ℕ) {P : PostState R I → Prop}
    (hP : Kept P) :
    Triple (posting R I) P (respond streaming response) (fun _ => P) fun _ => P := by
  refine Triple.ite (fun _ => ?_) fun _ => (quiet_send _ _).triple hP
  exact Triple.bind ((quiet_read _).triple hP) fun lifecycle => (quiet_send _ _).triple hP

theorem postBody_spec (streaming buffered : Bool) :
    Triple (posting R I) (fun s => Unfinished s ∧ s.artifactFinished = false)
      (postBody streaming buffered) (fun _ => Finished) fun _ => Tracked := by
  have hopen : Kept fun s : PostState R I => Unfinished s ∧ s.artifactFinished = false :=
    kept_unfinished.and (kept_flag false)
  have hdone : Kept fun s : PostState R I => Finished s ∧ s.artifactFinished = true :=
    kept_finished.and (kept_flag true)
  have htracked : ∀ s : PostState R I, Unfinished s ∧ s.artifactFinished = false → Tracked s :=
    fun s hs => ⟨fun htrue => absurd (htrue.symm.trans hs.2) (by simp), fun _ => hs.1⟩
  refine Triple.bind ((quiet_writeManifest.triple hopen).conseq (fun _ _ hs => hs)
    (fun _ _ _ hs => hs) fun _ s _ hs => htracked s hs) fun _ => ?_
  refine Triple.bind ((follow_spec hopen streaming buffered).conseq (fun _ _ hs => hs)
    (fun _ _ _ hs => hs) fun _ s _ hs => htracked s hs) fun _ => ?_
  -- from here on the attempt is finished exactly once, whatever is raised
  refine Triple.bind (Q := fun _ s => (Unfinished s ∧ s.artifactFinished = true) ∧ Ended s) ?_
    fun _ => ?_
  · exact Triple.modify (hopen.and kept_ended).stable
      ((kept_unfinished.and (kept_flag true)).and kept_ended).stable fun s _ _ hs _ =>
        ⟨trivial, ⟨⟨hs.1.1.active, hs.1.1.finishes, hs.1.1.results⟩, rfl⟩, hs.2⟩
  refine Triple.bind ((finalizeArtifact_spec true).conseq (fun _ _ hs => hs) (fun _ _ _ hs => hs)
    fun _ s _ hs => hs.1.tracked hs.2) fun response => ?_
  exact (respond_spec streaming response hdone).conseq (fun _ _ hs => hs) (fun _ _ _ hs => hs.1)
    fun _ _ _ hs => hs.1.tracked hs.2

theorem report_spec (error : WorkerError) {again : Handler R I Unit} {P : PostState R I → Prop}
    (hP : Kept P) (hfinished : ∀ s, P s → Finished s)
    (hagain : Triple (posting R I) P again (fun _ => Finished) Left) :
    Triple (posting R I) P (report error again) (fun _ => Finished) Left := by
  have hleave : ∀ {t : Handler R I Unit}, Quiet t →
      Triple (posting R I) P t (fun _ => Finished) Left := fun ht =>
    (ht.triple hP).conseq (fun _ _ hs => hs) (fun _ s _ hs => hfinished s hs)
      fun _ s _ hs => .inr (hfinished s hs)
  refine Triple.bind (Q := fun _ => P) ?_ fun started => ?_
  · exact Triple.read hP.stable (fun _ => hP.stable) fun _ _ hs => hs
  refine Triple.ite (fun _ => ?_) fun _ => hleave (quiet_send _ _)
  refine Triple.tryCatch (F := fun _ => P) (((quiet_send _ _).triple hP).conseq (fun _ _ hs => hs)
    (fun _ s _ hs => hfinished s hs) fun _ _ _ hs => hs) fun e => ?_
  match e with
  | .raised .clientDisconnected => exact hagain
  | .raised (.worker _) | .raised .timeout | .raised .broken | .raised .osError
  | .raised .exception | .waiting =>
    exact Triple.raise (kept_left _).stable fun s _ hs => .inr (hfinished s hs)

theorem handleRaised_spec (e : Ending) :
    Triple (posting R I) Tracked (handleRaised e) (fun _ => Finished) Left := by
  have hdone : Kept fun s : PostState R I => Finished s ∧ s.artifactFinished = true :=
    kept_finished.and (kept_flag true)
  have hleave : ∀ disconnected, Triple (posting R I) Tracked (settle disconnected)
      (fun _ s => Finished s ∧ s.artifactFinished = true) Left := fun disconnected =>
    (settle_spec disconnected).conseq (fun _ _ hs => hs) (fun _ _ _ hs => hs) fun _ _ _ he => .inl he
  have hsettle : ∀ disconnected, Triple (posting R I) Tracked (settle disconnected)
      (fun _ => Finished) Left := fun disconnected =>
    (hleave disconnected).conseq (fun _ _ hs => hs) (fun _ _ _ hs => hs.1) fun _ _ _ he => he
  have hagain : Triple (posting R I) (fun s => Finished s ∧ s.artifactFinished = true) (settle true)
      (fun _ => Finished) Left :=
    (hsettle true).conseq (fun _ _ hs => hs.1.tracked hs.2) (fun _ _ _ hs => hs) fun _ _ _ he => he
  have hlast : Triple (posting R I) Tracked (handleRaised (.raised .exception))
      (fun _ => Finished) Left := by
    refine Triple.bind (hleave false) fun _ => report_spec _ hdone (fun _ hs => hs.1) ?_
    refine Triple.bind (Q := Flagged) ?_ fun b => ?_
    · exact Triple.read hdone.stable (fun b => (kept_flagged b).stable) fun _ _ hs =>
        hs.1.tracked hs.2
    refine Triple.bind ((settleRequest_spec b true).conseq (fun _ _ hs => hs) (fun _ _ _ hs => hs)
      fun _ _ _ he => .inl he) fun finished => ?_
    exact Triple.pure kept_finished.stable fun _ _ hs => hs.1
  match e with
  | .waiting => exact Triple.raise (kept_left _).stable fun _ _ _ => .inl rfl
  | .raised .clientDisconnected => exact hsettle true
  | .raised (.worker exc) =>
    exact Triple.bind (hleave false) fun _ => report_spec exc hdone (fun _ hs => hs.1) hagain
  | .raised .timeout => exact hsettle true
  | .raised .broken => exact hsettle true
  | .raised .osError => exact hlast
  | .raised .exception => exact hlast

/-- Wherever the handler is left, the attempt is over. -/
theorem doPost_spec (streaming buffered : Bool) :
    Triple (posting R I) (fun s => Unfinished s ∧ s.artifactFinished = false)
      (doPost streaming buffered) (fun _ => Finished) Left :=
  Triple.tryCatch (postBody_spec streaming buffered) handleRaised_spec

/-! ### Runs -/

/-- `begin` has returned; the record may be anywhere, also between the halves of a transition. -/
def begun (record : RequestRecord R) (pending : Option (Option R × Option RecordError))
    (path : ArtifactPath) (maxBytes : ℕ) (others : Finset ArtifactPath) : PostState R I where
  record := record
  pending := pending
  active := insert path others
  artifact := { path := path, maxBytes := maxBytes }

/-- `do_POST` has returned, or has been left by an exception. -/
def done (c : Config (PostState R I) (Answer I) Ending) : Bool :=
  match c.control with
  | .returned | .handled => true
  | _ => false

/-- A call of `_record_response` does not begin between the halves of a transition. -/
def Untorn (streaming buffered : Bool) (c : Config (PostState R I) (Answer I) Ending)
    (m : Move (Answer I) (OtherMove R)) : Prop :=
  ((server R I streaming buffered).step c m).shared.responses ≠ c.shared.responses →
    c.shared.pending = none

instance (streaming buffered : Bool) (c : Config (PostState R I) (Answer I) Ending)
    (m : Move (Answer I) (OtherMove R)) : Decidable (Untorn streaming buffered c m) :=
  inferInstanceAs (Decidable (_ → _))

structure AttemptSettled (s : PostState R I) : Prop where
  inactive : s.artifact.path ∉ s.active
  /-- `finish` was called once -/
  finished : s.finishes = 1
  terminal : s.record.lifecycle.IsTerminal
  /-- `result.json` was written once at most -/
  once : s.artifact.results.length ≤ 1
  /-- what was written is the response of the record, once its transition is over -/
  own : ∀ payload ∈ s.artifact.results, ∀ now, IsResponse (s.assign now).record payload

theorem Finished.settled (h : Finished s) : AttemptSettled s := by
  refine ⟨h.inactive, h.finishes, h.ended, ?_, ?_⟩
  · rcases h.results with hnone | ⟨record, payload, _, _, hresults⟩
    · rw [hnone]
      exact Nat.zero_le _
    · rw [hresults]
      exact Nat.le_refl _
  · intro payload hmem now
    rcases h.results with hnone | ⟨record, own, hassigned, hresponse, hresults⟩
    · rw [hnone] at hmem
      exact absurd hmem List.not_mem_nil
    · rw [hresults] at hmem
      obtain rfl := List.mem_singleton.mp hmem
      have hsame : s.assign now = s := by
        unfold PostState.assign
        rw [hassigned.free]
      rw [hsame, hassigned.record_eq]
      exact hresponse

def postOutline : System.Annotation (PostState R I) Ending where
  head s := Unfinished s ∧ s.artifactFinished = false
  crash := Left
  entering := fun _ _ => True
  returned := Finished
  handled := Finished
  died := fun e _ => e = .waiting

theorem ok_run {streaming buffered : Bool} {moves : List (Move (Answer I) (OtherMove R))}
    (hopen : Unfinished s ∧ s.artifactFinished = false)
    (h : (server R I streaming buffered).Along (Untorn streaming buffered)
      ((server R I streaming buffered).start s) moves) :
    System.Ok (posting R I) postOutline
      ((server R I streaming buffered).run ((server R I streaming buffered).start s) moves) := by
  refine System.run_ok (S := server R I streaming buffered) (C := posting R I) (A := postOutline)
    (K := fun _ _ => True) ?_ (fun e => ?_) (fun s k _ _ => ⟨trivial, otherStep_interferes k s⟩)
    trivial hopen (h.mono fun c m hm => ?_)
  · refine Triple.bind (doPost_spec streaming buffered) fun _ => ?_
    exact Triple.pure (kept_finished (R := R) (I := I)).stable fun _ _ hs => hs
  · cases e with
    | raised exc =>
      refine Triple.pure (kept_finished (R := R) (I := I)).stable fun _ _ hs => ?_
      exact hs.1.resolve_left (by simp)
    | waiting => exact Triple.raise Kept.fact.stable fun _ _ _ => rfl
  · cases m with
    | client k => trivial
    | worker i => exact System.permits_worker (fun _ _ => trivial) hm

/-- **Settlement.**  Whatever the handler's calls raise and whatever the other threads do, the
attempt is settled when the handler is done. -/
theorem attempt_settled (streaming buffered : Bool) (record : RequestRecord R)
    (pending : Option (Option R × Option RecordError)) (path : ArtifactPath) (maxBytes : ℕ)
    (others : Finset ArtifactPath) (moves : List (Move (Answer I) (OtherMove R)))
    (h : (server R I streaming buffered).Along (Untorn streaming buffered)
      ((server R I streaming buffered).start (begun record pending path maxBytes others)) moves)
    (hdone : done ((server R I streaming buffered).run
      ((server R I streaming buffered).start (begun record pending path maxBytes others)) moves)
        = true) :
    AttemptSettled ((server R I streaming buffered).run
      ((server R I streaming buffered).start (begun record pending path maxBytes others))
        moves).shared := by
  obtain ⟨_, hwhere⟩ := ok_run ⟨⟨Finset.mem_insert_self _ _, rfl, rfl⟩, rfl⟩ h
  generalize System.run _ _ moves = c at hdone hwhere ⊢
  obtain ⟨shared, control⟩ := c
  cases control with
  | returned => exact (hwhere shared (.refl _) trivial).settled
  | handled => exact (hwhere shared (.refl _) trivial).settled
  | _ => exact absurd hdone (by simp [done])

def sampleRecord : RequestRecord ℕ where
  requestId := py "r"
  attemptId := py "a"
  queueDeadline := 1
  executionTimeout := 1
  lifecycle := .RUNNING

/-- The handler acts `n` times, and nothing is raised. -/
def act (n : ℕ) : List (Move (Answer Unit) (OtherMove ℕ)) :=
  List.replicate n (.worker { identity := (), rounds := 2 })

/-- The client of a stream is gone when the first event is written; the request ends by itself
while the handler waits for it. -/
def sampleGone : List (Move (Answer Unit) (OtherMove ℕ)) :=
  act 5 ++ [.worker { identity := (), writes := some .broken }] ++ act 6 ++
    [.client (.transition .FAILED none (some (.code "decode_failed"))), .client (.assign 1)] ++ act 20

theorem attempt_settled_gone :
    AttemptSettled ((server ℕ Unit true true).run
      ((server ℕ Unit true true).start (begun sampleRecord none [py "r", py "a"] 100 ∅))
        sampleGone).shared :=
  attempt_settled true true sampleRecord none [py "r", py "a"] 100 ∅ sampleGone
    (by decide +kernel) (by decide +kernel)

/-- The request completes with the result 7, and the handler answers before it is assigned. -/
def sampleTorn : List (Move (Answer Unit) (OtherMove ℕ)) :=
  act 2 ++ [.client (.transition .COMPLETED (some 7) none)] ++ act 12

theorem attempt_settled_torn :
    ¬ (done ((server ℕ Unit false false).run
        ((server ℕ Unit false false).start (begun sampleRecord none [py "r", py "a"] 100 ∅))
          sampleTorn) = true →
      AttemptSettled ((server ℕ Unit false false).run
        ((server ℕ Unit false false).start (begun sampleRecord none [py "r", py "a"] 100 ∅))
          sampleTorn).shared) := by
  intro h
  have hsettled := h (by decide +kernel)
  have hresults : ((server ℕ Unit false false).run
      ((server ℕ Unit false false).start (begun sampleRecord none [py "r", py "a"] 100 ∅))
        sampleTorn).shared.artifact.results = [.result none] := by decide +kernel
  have hown := hsettled.own (.result none) (by rw [hresults]; exact List.mem_singleton.mpr rfl) 0
  revert hown
  unfold IsResponse
  decide +kernel

end Worker.HttpApi
