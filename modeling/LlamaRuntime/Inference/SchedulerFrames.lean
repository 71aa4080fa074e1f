/-
What the actions of the scheduler leave alone.

Opening and the two batches begin with a selection.  Every other action of the
worker, in whatever state it is taken, leaves the admission queue and the selector's
count of emergency picks alone, and changes an entry by a relation `E` at most.

* `Framed` — what such an action may change;
* `Aside` — what an action outside the batches may change: the deques, the burst
  and the calls of batches stay as they are too;
* `Tolerant` — the relations that the common updates of an entry belong to;
* `Changes`, `Frames`, `FramesAfter` — the threads of the worker, as a whole and
  after their selection.
-/
import LlamaRuntime.Inference.LoopInvariant

namespace Inference

open RuntimeRequestState SchedulerState

/-- The call hands a batch to the backend. -/
def BackendCall.IsBatch : BackendCall → Prop
  | .prefillBatch _ | .decodeBatch _ => True
  | .openSequence _ | .release _ => False

namespace ContinuousBatchScheduler

variable {cfg : SchedulerConfig} {s s' s'' : SchedulerState}
  {E : RequestEntry → RequestEntry → Prop}

/-- Entries change by `E`, and the selections find the queue and the count as they
were. -/
structure Framed (E : RequestEntry → RequestEntry → Prop) (s s' : SchedulerState) : Prop where
  length : s'.heap.length = s.heap.length
  entry : ∀ e, E (s.entry e) (s'.entry e)
  queued : s'.queued = s.queued
  emergency : s'.selector.consecutiveEmergency = s.selector.consecutiveEmergency

/-- Besides, the batches find everything as it was, and none is handed out. -/
structure Aside (E : RequestEntry → RequestEntry → Prop) (s s' : SchedulerState) : Prop
    extends Framed E s s' where
  entries : s'.entries = s.entries
  prefill : s'.prefill = s.prefill
  decode : s'.decode = s.decode
  burst : s'.decodeBurst = s.decodeBurst
  calls : ∀ c ∈ s'.backendCalls, c ∈ s.backendCalls ∨ ¬ c.IsBatch

/-- An entry without its marks. -/
def RequestEntry.unmarked (x : RequestEntry) : RequestEntry :=
  { x with
    admittedEventSent := false
    terminalizing := false
    resourceReleaseConfirmed := false
    terminalAt := none }

/-- The relation allows what the worker does to an entry that it neither opens nor
prefills again nor decodes nor completes. -/
structure Tolerant (E : RequestEntry → RequestEntry → Prop) : Prop where
  trans : ∀ {x y z}, E x y → E y z → E x z
  marks : ∀ {x y}, RequestEntry.unmarked y = RequestEntry.unmarked x → E x y
  moves : ∀ x {state : RuntimeRequestState} error, state ≠ QUEUED → state ≠ PREFILL →
    E x { x with state := state, error := error }
  fails : ∀ x err, E x (terminated (.error err) x)

theorem Tolerant.refl (h : Tolerant E) (x : RequestEntry) : E x x := h.marks rfl

namespace Framed

theorem trans (hE : Tolerant E) (h : Framed E s s') (h' : Framed E s' s'') : Framed E s s'' where
  length := h'.length.trans h.length
  entry := fun e => hE.trans (h.entry e) (h'.entry e)
  queued := h'.queued.trans h.queued
  emergency := h'.emergency.trans h.emergency

/-- An action that touches no entry. -/
theorem of_heap (hE : Tolerant E) (hheap : s'.heap = s.heap) (hqueued : s'.queued = s.queued)
    (hemergency : s'.selector.consecutiveEmergency = s.selector.consecutiveEmergency) :
    Framed E s s' where
  length := by rw [hheap]
  entry := fun e => by rw [entry_congr hheap]; exact hE.refl _
  queued := hqueued
  emergency := hemergency

theorem refl (hE : Tolerant E) (s : SchedulerState) : Framed E s s := of_heap hE rfl rfl rfl

/-- An update of an entry. -/
theorem modify_entry (hE : Tolerant E) (s : SchedulerState) (e : ℕ)
    {f : RequestEntry → RequestEntry} (hf : E (s.entry e) (f (s.entry e))) :
    Framed E s (s.modifyEntry e f) where
  length := List.length_modify ..
  entry := by
    intro e'
    rw [entry_modifyEntry]
    split_ifs with hc
    · exact hc.1 ▸ hf
    · exact hE.refl _
  queued := rfl
  emergency := rfl

theorem modify (hE : Tolerant E) (s : SchedulerState) (e : ℕ) {f : RequestEntry → RequestEntry}
    (hf : ∀ x, E x (f x)) : Framed E s (s.modifyEntry e f) := modify_entry hE s e (hf _)

end Framed

namespace Aside

theorem trans (hE : Tolerant E) (h : Aside E s s') (h' : Aside E s' s'') : Aside E s s'' where
  toFramed := h.toFramed.trans hE h'.toFramed
  entries := h'.entries.trans h.entries
  prefill := h'.prefill.trans h.prefill
  decode := h'.decode.trans h.decode
  burst := h'.burst.trans h.burst
  calls := by
    intro c hc
    rcases h'.calls c hc with hc | hc
    · exact h.calls c hc
    · exact .inr hc

/-- An action that touches only the history, the selector and the admission. -/
theorem of_heap (hE : Tolerant E) (hheap : s'.heap = s.heap) (hentries : s'.entries = s.entries)
    (hdeque : ∀ q, s'.deque q = s.deque q) (hburst : s'.decodeBurst = s.decodeBurst)
    (hemergency : s'.selector.consecutiveEmergency = s.selector.consecutiveEmergency)
    (hcalls : s'.backendCalls = s.backendCalls) : Aside E s s' where
  toFramed := .of_heap hE hheap (hdeque .queued) hemergency
  entries := hentries
  prefill := hdeque .prefill
  decode := hdeque .decode
  burst := hburst
  calls := fun _ hc => .inl (hcalls ▸ hc)

theorem refl (hE : Tolerant E) (s : SchedulerState) : Aside E s s :=
  of_heap hE rfl rfl (fun _ => rfl) rfl rfl rfl

theorem modify (hE : Tolerant E) (s : SchedulerState) (e : ℕ) {f : RequestEntry → RequestEntry}
    (hf : ∀ x, E x (f x)) : Aside E s (s.modifyEntry e f) :=
  ⟨.modify hE s e hf, rfl, rfl, rfl, rfl, fun _ hc => .inl hc⟩

/-- A sequence is opened or handed back. -/
theorem call (hE : Tolerant E) (s : SchedulerState) {c : BackendCall} (hc : ¬ c.IsBatch) :
    Aside E s { s with backendCalls := s.backendCalls ++ [c] } := by
  refine ⟨.of_heap hE rfl rfl rfl, rfl, rfl, rfl, rfl, fun c' hc' => ?_⟩
  rcases List.mem_append.mp hc' with hc' | hc'
  · exact .inl hc'
  · exact .inr (List.mem_singleton.mp hc' ▸ hc)

end Aside

/-! ### Threads -/

section threads

open Thread hiding pure bind tryCatch

variable {R R' : SchedulerState → SchedulerState → Prop} {α β : Type} {t : Worker α}
  {k : α → Worker β}

/-- Every action of the thread changes the state by `R`. -/
abbrev Changes (R : SchedulerState → SchedulerState → Prop) {α : Type} (t : Worker α) : Prop :=
  t.Confined R (fun _ => True) fun _ => True

/-- Every action of the thread is framed. -/
abbrev Frames (E : RequestEntry → RequestEntry → Prop) {α : Type} (t : Worker α) : Prop :=
  Changes (Framed E) t

/-- Every action of the thread but the first is framed. -/
def FramesAfter (E : RequestEntry → RequestEntry → Prop) {α : Type} : Worker α → Prop
  | .act _ next => ∀ s i, Frames E (next s i)
  | _ => True

theorem changes_pure (a : α) : Changes R (pure a : Worker α) := Confined.pure trivial

theorem Changes.bind (h : Changes R t) (hk : ∀ a, Changes R (k a)) : Changes R (t >>= k) :=
  Confined.bind h fun a _ => hk a

theorem changes_atomic {block : SchedulerState → Answer → Except PyException α × SchedulerState}
    (h : ∀ s ans, R s (block s ans).2) : Changes R (.atomic block) :=
  Confined.atomic h (fun _ _ _ _ => trivial) fun _ _ _ _ => trivial

theorem changes_modify {f : SchedulerState → SchedulerState} (h : ∀ s, R s (f s)) :
    Changes R (.modify f : Worker Unit) := Confined.modify h trivial

theorem Changes.catching (h : Changes R t) : Changes R (catching t) := by
  refine Confined.tryCatch (Confined.bind h fun a _ => Confined.pure trivial) fun exc _ => ?_
  refine Confined.ite (fun _ => Confined.pure trivial) fun _ => Confined.raise trivial

theorem changes_forM {f : β → Worker PUnit} (h : ∀ x, Changes R (f x)) :
    ∀ xs : List β, Changes R (xs.forM f)
  | [] => changes_pure _
  | x :: rest => (h x).bind fun _ => changes_forM h rest

/-- After a selection comes what is done with it. -/
theorem framesAfter_bind {block : SchedulerState → Answer → Except PyException α × SchedulerState}
    (h : ∀ a, Frames E (k a)) : FramesAfter E (Thread.atomic block >>= k) := by
  intro s i
  dsimp only
  cases (block s i).1 with
  | ok a => exact h a
  | error exc => exact Confined.raise trivial

/-- A thread outside the batches is framed. -/
theorem Changes.frames (h : Changes (Aside E) t) : Frames E t :=
  Confined.weaken h fun _ _ ha => ha.toFramed

variable (hE : Tolerant E)

include hE

theorem frames_read (f : SchedulerState → α) : Frames E (.read f) :=
  Confined.read (Framed.refl hE) fun _ => trivial

theorem aside_read (f : SchedulerState → α) : Changes (Aside E) (.read f) :=
  Confined.read (Aside.refl hE) fun _ => trivial

theorem aside_publish (e : ℕ) (kind : SchedulerEventKind) (handle : Option SequenceHandle)
    (tokens : Option ℕ) (errorCode : Option PyStr) :
    Changes (Aside E) (publish e kind handle tokens errorCode) := by
  refine Confined.tryCatch (changes_atomic fun s ans => ?_) fun exc _ => ?_
  · rcases publishBlock_cases e kind handle tokens errorCode s ans with
      ⟨exc, heq⟩ | ⟨event, _, _, heq⟩
    · rw [heq]
      exact .refl hE s
    · rw [heq]
      exact .of_heap hE rfl rfl (fun _ => rfl) rfl rfl rfl
  · refine Confined.ite (fun _ => changes_modify fun s => ?_) fun _ => Confined.raise trivial
    exact .of_heap hE rfl rfl (fun _ => rfl) rfl rfl rfl

theorem aside_ensureAdmitted (e : ℕ) : Changes (Aside E) (ensureAdmitted e) := by
  refine (aside_read hE _).bind fun sent => ?_
  exact Confined.ite (fun _ => changes_pure _) fun _ =>
    (aside_publish hE e _ _ _ _).bind fun _ =>
      changes_modify fun s => .modify hE s e fun x => hE.marks rfl

theorem aside_commitTerminal (e : ℕ) {outcome : Except InferenceRuntimeError GenerateResult}
    (hfinal : ∀ x, E x (terminated outcome x)) (s : SchedulerState) (ans : Answer) :
    Aside E s (commitTerminal e outcome s ans).2 := by
  have hdone : Aside E s (s.modifyEntry e (terminated outcome)) := .modify hE s e hfinal
  unfold commitTerminal
  cases (ans.clock 0).now with
  | error exc => exact hdone
  | ok now =>
    have hstamp : Aside E (s.modifyEntry e (terminated outcome))
        ((s.modifyEntry e (terminated outcome)).modifyEntry e
          fun x => { x with terminalAt := some now }) := .modify hE _ e fun x => hE.marks rfl
    refine (hdone.trans hE hstamp).trans hE ?_
    exact .of_heap hE rfl rfl (fun _ => rfl) rfl rfl rfl

theorem aside_publishOutcome (e : ℕ) (outcome : Except InferenceRuntimeError GenerateResult) :
    Changes (Aside E) (publishOutcome e outcome) := by
  cases outcome with
  | ok result => exact aside_publish hE e _ _ _ _
  | error err => exact aside_publish hE e _ _ _ _

theorem aside_terminalize (e : ℕ) (result : Option GenerateResult)
    (error : Option InferenceRuntimeError)
    (hfinal : ∀ x, E x (terminated (settle result error) x)) :
    Changes (Aside E) (terminalize e result error) := by
  refine (aside_ensureAdmitted hE e).bind fun _ => ?_
  refine Changes.bind (changes_modify fun s => ?_) fun _ => ?_
  · split_ifs
    · exact .modify hE s e fun x => hE.marks rfl
    · exact .refl hE s
  -- the outcome that is claimed is the one that is committed
  refine Confined.bind (V := fun claimed => ∀ outcome, claimed = some outcome →
    outcome = settle result error) (Confined.atomic (fun s ans => ?_) (fun s ans claimed h => ?_)
      fun _ _ _ _ => trivial) fun claimed hclaimed => ?_
  · unfold claimTerminal
    split_ifs
    · exact .refl hE s
    · exact .modify hE s e fun x => hE.marks rfl
  · unfold claimTerminal at h
    rintro outcome rfl
    split_ifs at h
    · exact nomatch h
    · exact (Option.some_inj.mp (Except.ok.inj h)).symm
  cases claimed with
  | none => exact changes_pure _
  | some outcome =>
    obtain rfl := hclaimed outcome rfl
    refine Changes.bind (changes_modify fun s => ?_) fun _ =>
      (aside_publishOutcome hE e _).bind fun _ =>
        (changes_atomic fun s ans => aside_commitTerminal hE e hfinal s ans).bind fun _ =>
          changes_pure _
    split_ifs
    · exact .of_heap hE rfl rfl (fun _ => rfl) rfl rfl rfl
    · exact .refl hE s

theorem fails_settle (error : Option InferenceRuntimeError) (x : RequestEntry) :
    E x (terminated (settle none error) x) := by
  cases error with
  | none => exact hE.fails x _
  | some err => exact hE.fails x err

theorem aside_releaseAndTerminalize (e : ℕ) (result : Option GenerateResult)
    (error : Option InferenceRuntimeError)
    (hfinal : ∀ x, E x (terminated (settle result error) x)) :
    Changes (Aside E) (releaseAndTerminalize e result error) := by
  refine (aside_read hE _).bind fun handle => ?_
  cases handle with
  | none =>
    refine Changes.bind (changes_modify fun s => .modify hE s e fun x => hE.marks rfl) fun _ => ?_
    exact (aside_terminalize hE e result error hfinal).bind fun _ => changes_pure _
  | some handle =>
    refine (Changes.catching ?_).bind fun released => ?_
    · refine (changes_atomic fun s ans => ?_).bind fun _ =>
        Changes.bind (changes_modify fun s => .modify hE s e fun x => hE.marks rfl) fun _ =>
          aside_publish hE e _ _ _ _
      rw [releaseBlock_state]
      exact .call hE s id
    · cases released with
      | ok _ => exact (aside_terminalize hE e result error hfinal).bind fun _ => changes_pure _
      | error exc =>
        exact (aside_terminalize hE e none _ (fails_settle hE _)).bind fun _ => changes_pure _

/-- An entry is ended without a result. -/
theorem aside_end (e : ℕ) (error : Option InferenceRuntimeError) :
    Changes (Aside E) (releaseAndTerminalize e none error) :=
  aside_releaseAndTerminalize hE e none error (fails_settle hE error)

theorem aside_readClock : Changes (Aside E) readClock := changes_atomic fun s _ => .refl hE s

theorem aside_processTerminalBoundaries : Changes (Aside E) processTerminalBoundaries := by
  refine (aside_readClock hE).bind fun now => (changes_atomic fun s ans => ?_).bind fun found => ?_
  · unfold boundaryBlock
    cases s.entries.values.findSome? fun e => (boundaryError s now e).map fun err => (e, err) with
    | none => exact .refl hE s
    | some p => exact .modify hE s p.1 fun x => hE.moves x x.error (by simp) (by simp)
  · match found with
    | none => exact changes_pure _
    | some (e, err) => exact (aside_end hE e _).bind fun _ => changes_pure _

theorem aside_completeEntry (hcomplete : ∀ x result, E x (terminated (.ok result) x)) (e : ℕ)
    (completion : Option SequenceCompletion) : Changes (Aside E) (completeEntry cfg e completion) := by
  cases completion with
  | none => exact aside_end hE e _
  | some completion =>
    refine (aside_read hE _).bind fun x => Confined.ite (fun _ => aside_end hE e _) fun _ => ?_
    cases x.request.checkOutput completion.finalText with
    | error exc =>
      exact Confined.ite (fun _ => aside_end hE e _) fun _ => Confined.raise trivial
    | ok _ =>
      exact (aside_readClock hE).bind fun now =>
        aside_releaseAndTerminalize hE e _ none fun x => hcomplete x _

/-- A step of a batch is charged to the entry and published. -/
theorem aside_chargeAndPublish (e n : ℕ) (wanted : Prop) [Decidable wanted] (kind : SchedulerEventKind)
    (tokens : Option ℕ) : Changes (Aside E) (do
      .modify fun s =>
        if wanted then { s with selector := s.selector.charge (s.entry e).scheduling n } else s
      let handle ← .read fun s => (s.entry e).handle
      publish e kind handle tokens none) := by
  refine Changes.bind (changes_modify fun s => ?_) fun _ => (aside_read hE _).bind fun handle =>
    aside_publish hE e _ _ _ _
  split_ifs
  · exact .of_heap hE rfl rfl (fun _ => rfl) rfl rfl rfl
  · exact .refl hE s

/-- An entry whose outcome was no outcome for it is released. -/
theorem aside_endReleasing (e : ℕ) : Changes (Aside E) (do
    let x ← .read fun s : SchedulerState => s.entry e
    if x.state = RELEASING then releaseAndTerminalize e none x.error else pure ()) :=
  (aside_read hE _).bind fun x => Confined.ite (fun _ => aside_end hE e x.error)
    fun _ => changes_pure _

theorem aside_crashHandler (exc : PyException) : Changes (Aside E) (crashHandler exc) := by
  refine Changes.bind (changes_modify fun s => .of_heap hE rfl rfl (fun _ => rfl) rfl rfl rfl)
    fun _ => ?_
  refine Changes.bind ?_ fun _ =>
    changes_modify fun s => .of_heap hE rfl rfl (fun _ => rfl) rfl rfl rfl
  refine (changes_atomic fun s ans => .of_heap hE rfl rfl (fun _ => rfl) rfl rfl rfl).bind
    fun entries => ?_
  exact changes_forM (fun e => aside_end hE e _) entries

theorem aside_openSequence (e : ℕ) : Changes (Aside E) (.atomic (openSequenceBlock e)) :=
  changes_atomic fun s _ => .call hE s id

theorem aside_activate (e : ℕ) : Changes (Aside E) (.atomic (activateBlock e)) := by
  refine changes_atomic fun s ans => ?_
  obtain ⟨admission, heq⟩ := activateBlock_spec e s ans
  rw [heq]
  exact .of_heap hE rfl rfl (fun _ => rfl) rfl rfl rfl

/-! ### Opening -/

/-- After the entry is picked, the sequence that is opened is stored and committed;
the rest of an opening is aside. -/
theorem openOne_after (haside : ∀ s s', Aside E s s' → R s s')
    (hstore : ∀ x handle, E x { x with handle := some handle })
    (hcommit : ∀ e handle s ans, R s (openCommitBlock e handle s ans).2) :
    ∃ k : Option ℕ → Worker Bool, openOne cfg = Thread.atomic (openPickBlock cfg) >>= k ∧
      ∀ picked, Changes R (k picked) := by
  refine ⟨_, rfl, fun picked => ?_⟩
  cases picked with
  | none => exact changes_pure _
  | some e =>
    refine Changes.bind (Confined.weaken (aside_ensureAdmitted hE e) haside) fun _ => ?_
    refine Changes.bind (Confined.weaken (aside_openSequence hE e).catching haside)
      fun sequence => ?_
    cases sequence with
    | error exc =>
      exact Changes.bind (Confined.weaken (aside_terminalize hE e none _ (fails_settle hE _))
        haside) fun _ => changes_pure _
    | ok handle =>
      have hopened : Changes R (publish e .SEQUENCE_OPENED (some handle) none none) :=
        Confined.weaken (aside_publish hE e _ _ _ _) haside
      refine Changes.bind (Confined.weaken (aside_activate hE e).catching haside)
        fun activated => ?_
      cases activated with
      | error exc =>
        refine Changes.bind (changes_modify fun s => haside _ _ ?_) fun _ => hopened.bind fun _ =>
          Changes.bind (Confined.weaken (aside_end hE e _) haside) fun _ => changes_pure _
        refine Aside.trans hE (.modify hE s e fun x => ?_)
          (.of_heap hE rfl rfl (fun _ => rfl) rfl rfl rfl)
        exact hE.trans (hstore x handle) (hE.moves _ x.error (by simp) (by simp))
      | ok _ =>
        refine Changes.bind (changes_modify fun s => haside _ _ ?_) fun _ => ?_
        · exact .of_heap hE rfl rfl (fun _ => rfl) rfl rfl rfl
        refine (changes_atomic (hcommit e handle)).bind fun releaseImmediately =>
          hopened.bind fun _ => Confined.ite (fun _ => ?_) fun _ => changes_pure _
        have hread := aside_read hE fun s : SchedulerState => (s.entry e).cancelRequested
        exact Changes.bind (Confined.weaken hread haside) fun _ =>
          Changes.bind (Confined.weaken (aside_end hE e _) haside) fun _ => changes_pure _

/-- The rest of an opening, for a relation that allows it to the entry. -/
theorem framesAfter_openOne
    (hstore : ∀ x handle, E x { x with handle := some handle })
    (hopen : ∀ x handle now deadline, ∀ state ≠ QUEUED, E x (opened handle now deadline state x)) :
    FramesAfter E (openOne cfg) := by
  have hcommit : ∀ e handle s ans, Framed E s (openCommitBlock e handle s ans).2 := by
    intro e handle s ans
    rcases openCommitBlock_spec e handle s ans with
      ⟨exc, _, heq⟩ | ⟨now, deadline, _, heq | heq⟩
    · rw [heq]
      exact .modify hE s e fun x => hstore x handle
    · rw [heq]
      exact Framed.trans hE (.modify hE s e fun x => hopen x handle now deadline _ (by simp))
        (.of_heap hE rfl rfl rfl)
    · rw [heq]
      exact Framed.trans hE (.modify hE s e fun x => hopen x handle now deadline _ (by simp))
        (.of_heap hE rfl rfl rfl)
  obtain ⟨k, heq, hk⟩ := @openOne_after cfg E (Framed E) hE (fun _ _ h => h.toFramed) hstore hcommit
  rw [heq]
  exact framesAfter_bind hk

/-! ### Batches -/

theorem framed_outcome {e : ℕ} {y : RequestEntry} (h : Outcome s s' e y)
    (hy : E (s.entry e) y) : Framed E s s' := by
  have hentry : Framed E s (s.modifyEntry e fun _ => y) := .modify_entry hE s e hy
  refine hentry.trans hE (.of_heap hE h.heap ?_ ?_)
  · rw [h.frame]
    rfl
  · rw [h.frame]
    rfl

theorem framed_applyPrefill (htaken : ∀ x, E x { x with state := PREFILL }) : ∀ (pairs : List (ℕ × PrefillOutcome)) (s : SchedulerState),
    Framed E s (pairs.foldl (fun s p => applyPrefillOutcome s p.1 p.2) s)
  | [], s => .refl hE s
  | (e, outcome) :: rest, s => by
    refine Framed.trans hE (framed_outcome hE (applyPrefillOutcome_spec s e outcome) ?_)
      (framed_applyPrefill htaken rest _)
    unfold afterPrefill
    split_ifs
    · exact hE.moves _ _ (by simp) (by simp)
    · cases outcome.status with
      | READY => exact hE.moves (s.entry e) (s.entry e).error (by simp) (by simp)
      | PARTIAL => exact htaken _

/-- After the selection of a prefill batch come the call of the backend and the
outcomes; the rest is aside. -/
theorem runPrefillBatch_after (haside : ∀ s s', Aside E s s' → R s s')
    (happly : ∀ selected outcomes s ans, R s (applyPrefill selected outcomes s ans).2) :
    ∃ k : List (ℕ × SequenceStep) → Worker Unit,
      runPrefillBatch cfg = Thread.atomic (prefillTakeBlock cfg) >>= k ∧
      ∀ picked, (∀ s ans, R s (prefillCallBlock (picked.map Prod.snd) s ans).2) →
        Changes R (k picked) := by
  refine ⟨_, rfl, fun picked hcall => Confined.ite (fun _ => changes_pure _) fun _ => ?_⟩
  refine Changes.bind (Changes.catching (changes_atomic hcall)) fun called => ?_
  cases called with
  | error exc =>
    exact changes_forM (fun e => Confined.weaken (aside_end hE e _) haside) _
  | ok outcomes =>
    refine (changes_atomic (happly _ outcomes)).bind fun published =>
      (changes_forM (fun p => Confined.weaken ?_ haside) published).bind fun _ =>
        changes_forM (fun e => Confined.weaken (aside_endReleasing hE e) haside) _
    exact aside_chargeAndPublish hE p.1 _ (p.2.processedTokens ≠ 0) _ _

/-- The prefill batch, after its selection. -/
theorem framesAfter_runPrefillBatch (htaken : ∀ x, E x { x with state := PREFILL }) :
    FramesAfter E (runPrefillBatch cfg) := by
  obtain ⟨k, heq, hk⟩ := @runPrefillBatch_after cfg E (Framed E) hE (fun _ _ h => h.toFramed)
    fun selected outcomes s _ => Framed.trans hE (framed_applyPrefill hE htaken _ s)
      (.of_heap hE rfl rfl rfl)
  rw [heq]
  refine framesAfter_bind fun picked => hk picked fun s ans => ?_
  rw [prefillCallBlock_state]
  exact .of_heap hE rfl rfl rfl

theorem framed_applyDecodeLoop (hdelta : ∀ x outcome, E x (afterDecode x outcome)) :
    ∀ (pairs : List (ℕ × DecodeOutcome)) (s : SchedulerState),
      Framed E s (applyDecodeLoop pairs s).2
  | [], s => .refl hE s
  | (e, outcome) :: rest, s => by
    rw [applyDecodeLoop]
    cases checkedOutcome (s.entry e) outcome with
    | error exc => exact .refl hE s
    | ok counted =>
      have hone : Framed E s (applyDecodeOutcome s e counted) :=
        framed_outcome hE (applyDecodeOutcome_spec s e counted) (hdelta _ _)
      have hrest := framed_applyDecodeLoop hdelta rest (applyDecodeOutcome s e counted)
      dsimp only
      rcases hloop : applyDecodeLoop rest (applyDecodeOutcome s e counted) with ⟨result, t⟩
      rw [hloop] at hrest
      cases result <;> exact hone.trans hE hrest

/-- After the selection of a decode batch come the call of the backend and the
outcomes; the rest is aside. -/
theorem runDecodeBatch_after (hcomplete : ∀ x result, E x (terminated (.ok result) x))
    (haside : ∀ s s', Aside E s s' → R s s')
    (happly : ∀ selected outcomes s ans, R s (applyDecode selected outcomes s ans).2) :
    ∃ k : List ℕ × List SequenceStep → Worker Unit,
      runDecodeBatch cfg = Thread.atomic (decodeTakeBlock cfg) >>= k ∧
      ∀ picked, (∀ s ans, R s (decodeCallBlock picked.1 picked.2 s ans).2) →
        Changes R (k picked) := by
  refine ⟨_, rfl, fun picked hcall => Confined.ite (fun _ => changes_pure _) fun _ => ?_⟩
  refine Changes.bind (Changes.catching (changes_atomic hcall)) fun called => ?_
  cases called with
  | error exc =>
    exact changes_forM (fun e => Confined.weaken (aside_end hE e _) haside) _
  | ok outcomes =>
    refine (changes_atomic (happly _ outcomes)).bind fun done =>
      (changes_forM (fun p => Confined.weaken ?_ haside) done).bind fun _ =>
        changes_forM (fun p => Confined.ite (fun _ => ?_) fun _ => ?_) _
    · exact aside_chargeAndPublish hE p.1 _ (p.2.tokenIds ≠ []) _ _
    · exact Confined.weaken (aside_end hE p.1 _) haside
    · exact Confined.weaken (aside_completeEntry hE hcomplete p.1 _) haside

/-- The decode batch, after its selection. -/
theorem framesAfter_runDecodeBatch (hdelta : ∀ x outcome, E x (afterDecode x outcome))
    (hcomplete : ∀ x result, E x (terminated (.ok result) x)) :
    FramesAfter E (runDecodeBatch cfg) := by
  have happly : ∀ selected outcomes s ans,
      Framed E s (applyDecode selected outcomes s ans).2 := by
    intro selected outcomes s ans
    have hloop := framed_applyDecodeLoop hE hdelta (selected.zip outcomes) s
    unfold applyDecode
    generalize applyDecodeLoop (selected.zip outcomes) s = result at hloop
    rcases result with ⟨exc | done, t⟩
    · exact hloop
    · exact hloop.trans hE (.of_heap hE rfl rfl rfl)
  obtain ⟨k, heq, hk⟩ := @runDecodeBatch_after cfg E (Framed E) hE hcomplete
    (fun _ _ h => h.toFramed) happly
  rw [heq]
  refine framesAfter_bind fun picked => hk picked fun s ans => ?_
  rw [decodeCallBlock_state]
  exact .of_heap hE rfl rfl rfl

/-! ### The rest of the loop -/

theorem framed_queueHas (queue : Queue) (state : RuntimeRequestState) (hq : queue ≠ .queued)
    (s : SchedulerState) : Framed E s (queueHasStateLocked queue state s).2 := by
  cases queue with
  | queued => exact absurd rfl hq
  | prefill => exact .of_heap hE rfl rfl rfl
  | decode => exact .of_heap hE rfl rfl rfl

theorem framed_chooseBatch (s : SchedulerState) (ans : Answer) :
    Framed E s (chooseBatchBlock cfg s ans).2 :=
  (framed_queueHas hE .decode DECODE (by simp) s).trans hE
    (framed_queueHas hE .prefill PREFILL (by simp) _)

theorem framed_hasImmediateWork (now : ℚ) (s : SchedulerState) :
    Framed E s (hasImmediateWorkLocked cfg now s).2 := by
  have hprefill := framed_queueHas hE .prefill PREFILL (by simp) s
  have hdecode := hprefill.trans hE
    (framed_queueHas hE .decode DECODE (by simp) _)
  unfold hasImmediateWorkLocked
  dsimp only
  split_ifs
  · exact .refl hE s
  · exact hprefill
  · exact hdecode
  · exact hdecode

theorem framed_idleBlock (s : SchedulerState) (ans : Answer) :
    Framed E s (idleBlock cfg s ans).2 := by
  unfold idleBlock
  split_ifs
  · exact .of_heap hE rfl rfl rfl
  · cases (ans.clock 0).now with
    | error exc => exact .refl hE s
    | ok now =>
      have hlook : Framed E s (hasImmediateWorkLocked cfg now s).2 := framed_hasImmediateWork hE now s
      dsimp only
      rcases hresult : hasImmediateWorkLocked cfg now s with ⟨work, t⟩
      rw [hresult] at hlook
      cases work with
      | true => exact hlook
      | false =>
        dsimp only
        cases (ans.clock 1).now <;> exact hlook

end threads

end ContinuousBatchScheduler

end Inference
