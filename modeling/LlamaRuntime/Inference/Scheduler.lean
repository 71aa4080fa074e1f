/-
The continuous batch scheduler.

The worker thread of `ContinuousBatchScheduler` as a `Thread`: every block the
source runs under its condition is one atomic action, and so is every call to
the backend, every event handed to a sink and every unlocked access to an entry.
Clients (`infer`, `cancel`, `shutdown`, the return of a woken `infer`) act on the
same state between any two of these actions.

* `iteration` — one pass through the loop of `_run`;
* `crashHandler` — the `except BaseException` clause around the loop;
* `scheduler` — the two together with the clients' operations, as a `System`.
-/
import LlamaRuntime.Concurrency.Thread
import LlamaRuntime.Inference.SchedulerState

namespace Inference

/-- What `self._clock()` does when it is called. -/
inductive ClockReading where
  | finite (t : ℚ)
  | nonfinite
  | raises (exc : PyException)

/-- `_now` -/
def ClockReading.now : ClockReading → Except PyException ℚ
  | .finite t =>
    if t < 0 then
      .error (.builtin "RuntimeError" "scheduler clock must be finite and non-negative")
    else .ok t
  | .nonfinite => .error (.builtin "RuntimeError" "scheduler clock must be finite and non-negative")
  | .raises exc => .error exc

/-- The answers an action may ask for: the clock and the selector answer once
for each selection a block makes, the backend and the sink once. -/
structure Answer where
  clock : ℕ → ClockReading := fun _ => .finite 0
  selector : ℕ → Option PyException := fun _ => none
  openSequence : Except PyException SequenceHandle := .error (.builtin "RuntimeError" "")
  /-- `reservation_tokens(handle)`, or `none` for a backend without that method -/
  reservationTokens : Except PyException (Option ℤ) := .ok none
  prefillBatch : Except PyException (List PrefillOutcome) := .ok []
  decodeBatch : Except PyException (List DecodeOutcome) := .ok []
  release : Except PyException ReleaseStatus := .ok .RELEASED
  sink : Option PyException := none

abbrev Worker (α : Type) := Thread SchedulerState Answer PyException α

namespace ContinuousBatchScheduler

open SchedulerState RuntimeRequestState

variable (cfg : SchedulerConfig)

/-- `try: ... except Exception as exc: ...`: other exceptions pass through. -/
def catching {α : Type} (t : Worker α) : Worker (Except PyException α) :=
  (t >>= fun a => pure (.ok a)).tryCatch fun exc =>
    if exc.isException then pure (.error exc) else .raise exc

def mkError (code detail : String) (retryable : Bool) : InferenceRuntimeError :=
  ⟨py code, py detail, retryable⟩

/-- `_backend_error` -/
def backendError (code : String) (exc : PyException) : InferenceRuntimeError :=
  let detail := exc.detail.getD (if exc.message = [] then exc.typeName else exc.message)
  let nativeCode :=
    match exc.code with
    | some value => if value.truthy then value.text else py code
    | none => py code
  ⟨nativeCode.take 128, detail, true⟩

/-! ### The queues -/

/-- The entry a queued id stands for, if it is registered and in `state`. -/
def liveMember (s : SchedulerState) (state : RuntimeRequestState) (id : PyStr) : Option ℕ :=
  match s.entries.get? id with
  | none => none
  | some e => if (s.entry e).state = state then some e else none

/-- An entry offered to the selector. -/
structure Candidate where
  id : ℕ
  entry : RequestEntry

instance : SchedulableEntry Candidate where
  scheduling c := c.entry.scheduling
  admittedAt c := c.entry.admittedAt
  order c := c.entry.order

/-- `_pop_state_locked` -/
def popStateLocked (queue : Queue) (state : RuntimeRequestState)
    (predicate : RequestEntry → Bool) (clock : ClockReading) (fault : Option PyException)
    (s : SchedulerState) : Except PyException (Option ℕ) × SchedulerState :=
  let validIds := (s.deque queue).filter fun id => (liveMember s state id).isSome
  let candidates := (((s.deque queue).filterMap (liveMember s state)).filter
    fun e => predicate (s.entry e)).map fun e => Candidate.mk e (s.entry e)
  let s := s.setDeque queue validIds
  match clock.now with
  | .error exc => (.error exc, s)
  | .ok now =>
    match fault with
    | some exc => (.error exc, s)
    | none =>
      match s.selector.select cfg.policy candidates now with
      | (.error rejection, sel) => (.error rejection.toException, { s with selector := sel })
      | (.ok none, sel) => (.ok none, { s with selector := sel })
      | (.ok (some selected), sel) =>
        (.ok (some selected.id), { s with selector := sel }.setDeque queue
          (validIds.erase selected.entry.scheduling.requestId))

/-- `_take_state_locked`; `k` counts the selections the block has made. -/
def takeStateLocked (queue : Queue) (state : RuntimeRequestState) (ans : Answer) :
    ℕ → ℕ → SchedulerState → Except PyException (List ℕ) × SchedulerState
  | 0, _, s => (.ok [], s)
  | limit + 1, k, s =>
    match popStateLocked cfg queue state (fun _ => true) (ans.clock k) (ans.selector k) s with
    | (.error exc, s) => (.error exc, s)
    | (.ok none, s) => (.ok [], s)
    | (.ok (some e), s) =>
      match takeStateLocked queue state ans limit (k + 1) s with
      | (.error exc, s) => (.error exc, s)
      | (.ok es, s) => (.ok (e :: es), s)

/-- `_queue_has_state_locked` -/
def queueHasStateLocked (queue : Queue) (state : RuntimeRequestState) (s : SchedulerState) :
    Bool × SchedulerState :=
  let rest := (s.deque queue).dropWhile fun id => (liveMember s state id).isNone
  (rest ≠ [], s.setDeque queue rest)

/-! ### Events -/

/-- Building one event and handing it to the sink of the entry. -/
def publishBlock (e : ℕ) (kind : SchedulerEventKind) (handle : Option SequenceHandle)
    (tokens : Option ℕ) (errorCode : Option PyStr) (s : SchedulerState) (ans : Answer) :
    Except PyException Unit × SchedulerState :=
  match (ans.clock 0).now with
  | .error exc => (.error exc, s)
  | .ok now =>
    match SchedulerEvent.make ⟨kind, s.requestId e, now, handle, tokens, errorCode⟩ with
    | .error _ => (.error (.builtin "ContractValidationError" "scheduler event"), s)
    | .ok event =>
      match ans.sink with
      | some exc => (.error exc, s)
      | none => (.ok (), { s with published := s.published ++ [(e, event)] })

/-- `_publish` -/
def publish (e : ℕ) (kind : SchedulerEventKind) (handle : Option SequenceHandle)
    (tokens : Option ℕ) (errorCode : Option PyStr) : Worker Unit :=
  (Thread.atomic (publishBlock e kind handle tokens errorCode)).tryCatch fun exc =>
    if exc.isException then
      .modify fun s => { s with eventFailures := s.eventFailures + 1 }
    else .raise exc

/-- `if not entry.admitted_event_sent: ...` -/
def ensureAdmitted (e : ℕ) : Worker Unit := do
  let sent ← .read fun s => (s.entry e).admittedEventSent
  if sent then pure () else do
    publish e .ADMITTED none none none
    .modify fun s => s.modifyEntry e fun x => { x with admittedEventSent := true }

/-! ### Release and terminalization -/

/-- Exactly one of a result and an error. -/
def settle (result : Option GenerateResult) (error : Option InferenceRuntimeError) :
    Except InferenceRuntimeError GenerateResult :=
  match result, error with
  | some r, none => .ok r
  | none, some err => .error err
  | _, _ => .error (mkError "scheduler_invariant"
      "terminalization requires exactly one result or error" false)

/-- The first locked block of `_terminalize`: claim the entry. -/
def claimTerminal (e : ℕ) (result : Option GenerateResult)
    (error : Option InferenceRuntimeError) (s : SchedulerState) (_ : Answer) :
    Except PyException (Option (Except InferenceRuntimeError GenerateResult)) × SchedulerState :=
  if (s.entry e).state = TERMINAL ∨ (s.entry e).terminalizing then (.ok none, s)
  else (.ok (some (settle result error)),
    s.modifyEntry e fun x => { x with terminalizing := true })

/-- Whether other work of the same scope is left, as `forget` wants to know. -/
def forgetEntry (e : ℕ) (s : SchedulerState) : SchedulerState :=
  let x := s.entry e
  let others := s.liveEntries.filter fun current => current ≠ e
  let sameAgent := others.any fun current =>
    (s.entry current).scheduling.workflowId = x.scheduling.workflowId
      ∧ (s.entry current).scheduling.agentId = x.scheduling.agentId
  let sameWorkflow := others.any fun current =>
    (s.entry current).scheduling.workflowId = x.scheduling.workflowId
  { s with selector := s.selector.forget x.scheduling (!sameAgent) (!sameWorkflow) }

/-- The last locked block of `_terminalize`. -/
def commitTerminal (e : ℕ) (outcome : Except InferenceRuntimeError GenerateResult)
    (s : SchedulerState) (ans : Answer) : Except PyException Unit × SchedulerState :=
  let s := s.modifyEntry e fun x =>
    { x with
      state := TERMINAL
      result := outcome.toOption
      error := (match outcome with | .ok _ => none | .error err => some err) }
  match (ans.clock 0).now with
  | .error exc => (.error exc, s)
  | .ok now =>
    let s := s.modifyEntry e fun x => { x with terminalAt := some now }
    (.ok (), (forgetEntry e s).notifyAll)

/-- The last event of a request. -/
def publishOutcome (e : ℕ) : Except InferenceRuntimeError GenerateResult → Worker Unit
  | .ok _ => publish e .REQUEST_COMPLETED none none none
  | .error err => publish e .REQUEST_FAILED none none (some (err.code.take 128))

/-- `_terminalize` -/
def terminalize (e : ℕ) (result : Option GenerateResult)
    (error : Option InferenceRuntimeError) : Worker Bool := do
  ensureAdmitted e
  .modify fun s =>
    if (s.entry e).handle = none then
      s.modifyEntry e fun x => { x with resourceReleaseConfirmed := true }
    else s
  match ← .atomic (claimTerminal e result error) with
  | none => pure false
  | some outcome => do
    .modify fun s =>
      if (s.entry e).resourceReleaseConfirmed then
        { s with admission := s.admission.release (s.requestId e) }
      else s
    publishOutcome e outcome
    .atomic (commitTerminal e outcome)
    pure true

/-- The call of `backend.release` with the check of its answer. -/
def releaseBlock (handle : SequenceHandle) (s : SchedulerState) (ans : Answer) :
    Except PyException Unit × SchedulerState :=
  let s := { s with backendCalls := s.backendCalls ++ [.release handle] }
  match ans.release with
  | .error exc => (.error exc, s)
  | .ok status =>
    if status.value = "released" ∨ status.value = "already_released" then (.ok (), s)
    else (.error (.builtin "RuntimeError" s!"release returned {status.value}"), s)

/-- `_release_and_terminalize` -/
def releaseAndTerminalize (e : ℕ) (result : Option GenerateResult)
    (error : Option InferenceRuntimeError) : Worker Unit := do
  match ← .read fun s => (s.entry e).handle with
  | none => do
    .modify fun s => s.modifyEntry e fun x => { x with resourceReleaseConfirmed := true }
    let _ ← terminalize e result error
  | some handle => do
    let released ← catching do
      .atomic (releaseBlock handle)
      .modify fun s => s.modifyEntry e fun x => { x with resourceReleaseConfirmed := true }
      publish e .SEQUENCE_RELEASED (some handle) none none
    match released with
    | .ok _ => do let _ ← terminalize e result error
    | .error exc => do
      let _ ← terminalize e none (some (backendError "backend_release_failed" exc))

/-! ### Boundaries -/

/-- The deadline that applies to an entry now. -/
def deadlineOf (x : RequestEntry) : Option ℚ :=
  match x.handle with
  | none => some x.queueDeadline
  | some _ => x.executionDeadline

/-- Whether an entry has reached a boundary at `now`, and the error it ends in. -/
def boundaryError (s : SchedulerState) (now : ℚ) (e : ℕ) : Option InferenceRuntimeError :=
  let x := s.entry e
  if x.state = TERMINAL then none
  else if s.stopping ∨ x.cancelRequested then
    some (if s.stopping then mkError "shutdown" "scheduler shutdown" true
      else mkError "cancelled" "request cancelled" false)
  else
    match deadlineOf x with
    | none => none
    | some deadline =>
      if deadline ≤ now then
        some (match x.handle with
          | none => mkError "queue_timeout" "queue deadline exceeded" true
          | some _ => mkError "deadline_exceeded" "execution deadline exceeded" true)
      else none

/-- The locked block of `_process_terminal_boundaries`. -/
def boundaryBlock (now : ℚ) (s : SchedulerState) (_ : Answer) :
    Except PyException (Option (ℕ × InferenceRuntimeError)) × SchedulerState :=
  match s.entries.values.findSome? fun e => (boundaryError s now e).map fun err => (e, err) with
  | none => (.ok none, s)
  | some (e, err) => (.ok (some (e, err)), s.modifyEntry e fun x => { x with state := RELEASING })

/-- `self._now()` outside any other block. -/
def readClock : Worker ℚ := .atomic fun s ans => ((ans.clock 0).now, s)

/-- `_process_terminal_boundaries` -/
def processTerminalBoundaries : Worker Bool := do
  let now ← readClock
  match ← .atomic (boundaryBlock now) with
  | none => pure false
  | some (e, err) => do
    releaseAndTerminalize e none (some err)
    pure true

/-! ### Opening a sequence -/

def activeSequences (s : SchedulerState) : ℕ :=
  s.entries.values.countP fun e => (s.entry e).handle.isSome ∧ s.live e

/-- The first locked block of `_open_one`. -/
def openPickBlock (s : SchedulerState) (ans : Answer) :
    Except PyException (Option ℕ) × SchedulerState :=
  if cfg.capabilities.maxConcurrentSequences ≤ activeSequences s then (.ok none, s)
  else
    match popStateLocked cfg .queued QUEUED
        (fun x => s.admission.canActivate cfg.limits x.scheduling.requestId)
        (ans.clock 0) (ans.selector 0) s with
    | (.error exc, s) => (.error exc, s)
    | (.ok none, s) => (.ok none, s)
    | (.ok (some e), s) => (.ok (some e), s.modifyEntry e fun x => { x with state := OPENING })

def openSequenceBlock (e : ℕ) (s : SchedulerState) (ans : Answer) :
    Except PyException SequenceHandle × SchedulerState :=
  (ans.openSequence, { s with backendCalls := s.backendCalls ++ [.openSequence e] })

/-- `reservation_tokens` and then `_admission.activate` -/
def activateBlock (e : ℕ) (s : SchedulerState) (ans : Answer) :
    Except PyException Unit × SchedulerState :=
  match ans.reservationTokens with
  | .error exc => (.error exc, s)
  | .ok reserved =>
    match s.admission.activate (s.requestId e) reserved with
    | .error exc => (.error exc, s)
    | .ok admission => (.ok (), { s with admission := admission })

/-- The execution deadline of a sequence opened at `now`. -/
def executionDeadline (x : RequestEntry) (now : ℚ) : ℚ :=
  let deadline := now + (x.request.executionTimeoutMs : ℚ) / 1000
  match x.scheduling.deadlineMonotonic with
  | none => deadline
  | some d => min deadline d

/-- The locked block that makes an opened sequence runnable; it answers whether
the sequence has to be released at once. -/
def openCommitBlock (e : ℕ) (handle : SequenceHandle) (s : SchedulerState) (ans : Answer) :
    Except PyException Bool × SchedulerState :=
  let s := s.modifyEntry e fun x => { x with handle := some handle }
  match (ans.clock 0).now with
  | .error exc => (.error exc, s)
  | .ok now =>
    let deadline := executionDeadline (s.entry e) now
    let s := s.modifyEntry e fun x =>
      { x with openedAt := some now, executionDeadline := some deadline }
    if (s.entry e).cancelRequested ∨ s.stopping ∨ deadline ≤ now then
      (.ok true, (s.modifyEntry e fun x => { x with state := RELEASING }).notifyAll)
    else
      let s := s.modifyEntry e fun x => { x with state := PREFILL }
      (.ok false, { s with prefill := s.prefill ++ [s.requestId e] }.notifyAll)

/-- `_open_one` -/
def openOne : Worker Bool := do
  match ← .atomic (openPickBlock cfg) with
  | none => pure false
  | some e => do
    ensureAdmitted e
    match ← catching (.atomic (openSequenceBlock e)) with
    | .error exc => do
      let _ ← terminalize e none (some (backendError "open_sequence_failed" exc))
      pure true
    | .ok handle =>
      match ← catching (.atomic (activateBlock e)) with
      | .error exc => do
        .modify fun s => (s.modifyEntry e fun x =>
          { x with handle := some handle, state := RELEASING }).notifyAll
        publish e .SEQUENCE_OPENED (some handle) none none
        releaseAndTerminalize e none (some (backendError "resource_admission_failed" exc))
        pure true
      | .ok _ => do
        .modify fun s => { s with selector := s.selector.charge (s.entry e).scheduling 1 }
        let releaseImmediately ← .atomic (openCommitBlock e handle)
        publish e .SEQUENCE_OPENED (some handle) none none
        if releaseImmediately then do
          let cancelled ← .read fun s => (s.entry e).cancelRequested
          releaseAndTerminalize e none (some (
            if cancelled then
              mkError "cancelled" "request cancelled during sequence admission" false
            else mkError "deadline_exceeded"
              "execution deadline exceeded during sequence admission" true))
          pure true
        else pure true

/-! ### Batches -/

inductive BatchAction where
  | decode
  | prefill
  deriving DecidableEq

/-- `_choose_batch_action` -/
def chooseBatchBlock (s : SchedulerState) (_ : Answer) :
    Except PyException (Option BatchAction) × SchedulerState :=
  let (hasDecode, s) := queueHasStateLocked .decode DECODE s
  let (hasPrefill, s) := queueHasStateLocked .prefill PREFILL s
  (.ok (if hasDecode ∧ (¬ hasPrefill ∨ s.decodeBurst < cfg.maxDecodeBurst) then some .decode
    else if hasPrefill then some .prefill
    else if hasDecode then some .decode
    else none), s)

/-- The loop that shares the tick's tokens among the candidates of a prefill
batch: `slots` candidates are left, `remaining` tokens. -/
def prefillSteps (maxTokens : ℕ) (s : SchedulerState) :
    List ℕ → ℤ → List (ℕ × SequenceStep)
  | [], _ => []
  | e :: rest, remaining =>
    match (s.entry e).handle with
    | none => prefillSteps maxTokens s rest remaining
    | some handle =>
      let slotsLeft : ℤ := max 1 ((rest.length : ℤ) + 1)
      let budget : ℤ := min maxTokens (max 1 (remaining / slotsLeft))
      (e, ⟨handle, budget.toNat⟩) :: prefillSteps maxTokens s rest (remaining - budget)

def setStates (state : RuntimeRequestState) (es : List ℕ) (s : SchedulerState) :
    SchedulerState :=
  es.foldl (fun s e => s.modifyEntry e fun x => { x with state := state }) s

/-- The first locked block of `_run_prefill_batch`. -/
def prefillTakeBlock (s : SchedulerState) (ans : Answer) :
    Except PyException (List (ℕ × SequenceStep)) × SchedulerState :=
  match takeStateLocked cfg .prefill PREFILL ans cfg.capabilities.maxSequencesPerStep 0 s with
  | (.error exc, s) => (.error exc, s)
  | (.ok candidates, s) =>
    let steps := prefillSteps cfg.capabilities.maxPrefillTokensPerStep s candidates
      cfg.tickTokenBudget
    (.ok steps, setStates PREFILL_INFLIGHT (steps.map Prod.fst) s)

def prefillCallBlock (steps : List SequenceStep) (s : SchedulerState) (ans : Answer) :
    Except PyException (List PrefillOutcome) × SchedulerState :=
  let s := { s with backendCalls := s.backendCalls ++ [.prefillBatch steps] }
  match ans.prefillBatch with
  | .error exc => (.error exc, s)
  | .ok outcomes =>
    if outcomes.length ≠ steps.length then
      (.error (.builtin "RuntimeError" "prefill outcome cardinality mismatch"), s)
    else (.ok outcomes, s)

def applyPrefillOutcome (s : SchedulerState) (e : ℕ) (outcome : PrefillOutcome) :
    SchedulerState :=
  if (s.entry e).handle ≠ some outcome.handle then
    s.modifyEntry e fun x =>
      { x with
        state := RELEASING
        error := some (mkError "protocol_violation" "prefill outcome handle mismatch" true) }
  else
    match outcome.status with
    | .READY =>
      let s := s.modifyEntry e fun x => { x with state := DECODE }
      { s with decode := s.decode ++ [s.requestId e] }
    | .PARTIAL =>
      let s := s.modifyEntry e fun x => { x with state := PREFILL }
      { s with prefill := s.prefill ++ [s.requestId e] }

/-- The second locked block of `_run_prefill_batch`: it answers the outcomes
that are to be published. -/
def applyPrefill (selected : List ℕ) (outcomes : List PrefillOutcome) (s : SchedulerState)
    (_ : Answer) : Except PyException (List (ℕ × PrefillOutcome)) × SchedulerState :=
  let pairs := selected.zip outcomes
  let published := pairs.filter fun p => (s.entry p.1).handle = some p.2.handle
  let s := pairs.foldl (fun s p => applyPrefillOutcome s p.1 p.2) s
  (.ok published, { s with decodeBurst := 0 }.notifyAll)

/-- `_run_prefill_batch` -/
def runPrefillBatch : Worker Unit := do
  let picked ← .atomic (prefillTakeBlock cfg)
  if picked = [] then pure () else do
    let selected := picked.map Prod.fst
    match ← catching (.atomic (prefillCallBlock (picked.map Prod.snd))) with
    | .error exc =>
      selected.forM fun e =>
        releaseAndTerminalize e none (some (backendError "prefill_batch_failed" exc))
    | .ok outcomes => do
      let published ← .atomic (applyPrefill selected outcomes)
      published.forM fun (e, outcome) => do
        .modify fun s =>
          if outcome.processedTokens ≠ 0 then
            { s with selector :=
                s.selector.charge (s.entry e).scheduling outcome.processedTokens }
          else s
        let handle ← .read fun s => (s.entry e).handle
        publish e .PREFILL_COMPLETED handle (some outcome.processedTokens) none
      selected.forM fun e => do
        let x ← .read fun s => s.entry e
        if x.state = RELEASING then releaseAndTerminalize e none x.error else pure ()

/-- The first locked block of `_run_decode_batch`. -/
def decodeTakeBlock (s : SchedulerState) (ans : Answer) :
    Except PyException (List ℕ × List SequenceStep) × SchedulerState :=
  let limit := min cfg.capabilities.maxSequencesPerStep cfg.tickTokenBudget
  match takeStateLocked cfg .decode DECODE ans limit 0 s with
  | (.error exc, s) => (.error exc, s)
  | (.ok selected, s) =>
    let quantum := min cfg.capabilities.maxDecodeTokensPerStep
      (max 1 (cfg.tickTokenBudget / max 1 selected.length))
    let withHandle := selected.filter fun e => (s.entry e).handle.isSome
    let steps := selected.filterMap fun e => (s.entry e).handle.map fun h => ⟨h, quantum⟩
    (.ok (selected, steps), setStates DECODE_INFLIGHT withHandle s)

def decodeCallBlock (selected : List ℕ) (steps : List SequenceStep) (s : SchedulerState)
    (ans : Answer) : Except PyException (List DecodeOutcome) × SchedulerState :=
  let s := { s with backendCalls := s.backendCalls ++ [.decodeBatch steps] }
  match ans.decodeBatch with
  | .error exc => (.error exc, s)
  | .ok outcomes =>
    if outcomes.length ≠ selected.length then
      (.error (.builtin "RuntimeError" "decode outcome cardinality mismatch"), s)
    else (.ok outcomes, s)

/-- The outcome the scheduler puts in place of one for another sequence. -/
def protocolViolation (handle : SequenceHandle) : DecodeOutcome where
  handle := handle
  status := .FAILED
  tokenIds := []
  textDelta := []
  finishReason := none
  completion := none
  errorCode := some (py "protocol_violation")
  valid := ⟨rfl, rfl, _, rfl, isBoundedText_py (by decide) (by decide) (by decide)⟩

/-- The outcome that counts for an entry; building the replacement raises when
the entry has no handle. -/
def checkedOutcome (x : RequestEntry) (outcome : DecodeOutcome) : Except PyException DecodeOutcome :=
  match x.handle with
  | none => .error (.builtin "ContractValidationError" "handle: must be a SequenceHandle")
  | some handle => .ok (if outcome.handle = handle then outcome else protocolViolation handle)

def applyDecodeOutcome (s : SchedulerState) (e : ℕ) (outcome : DecodeOutcome) :
    SchedulerState :=
  let s :=
    if outcome.textDelta = [] then s
    else s.modifyEntry e fun x => { x with finalDeltas := x.finalDeltas ++ [outcome.textDelta] }
  match outcome.status with
  | .PROGRESSED =>
    let s := s.modifyEntry e fun x => { x with state := DECODE }
    { s with decode := s.decode ++ [s.requestId e] }
  | _ => s.modifyEntry e fun x => { x with state := RELEASING }

/-- The loop of the second locked block of `_run_decode_batch`. -/
def applyDecodeLoop : List (ℕ × DecodeOutcome) → SchedulerState →
    Except PyException (List (ℕ × DecodeOutcome)) × SchedulerState
  | [], s => (.ok [], s)
  | (e, outcome) :: rest, s =>
    match checkedOutcome (s.entry e) outcome with
    | .error exc => (.error exc, s)
    | .ok outcome =>
      match applyDecodeLoop rest (applyDecodeOutcome s e outcome) with
      | (.error exc, s) => (.error exc, s)
      | (.ok done, s) => (.ok ((e, outcome) :: done), s)

def applyDecode (selected : List ℕ) (outcomes : List DecodeOutcome) (s : SchedulerState)
    (_ : Answer) : Except PyException (List (ℕ × DecodeOutcome)) × SchedulerState :=
  match applyDecodeLoop (selected.zip outcomes) s with
  | (.error exc, s) => (.error exc, s)
  | (.ok done, s) => (.ok done, { s with decodeBurst := s.decodeBurst + 1 }.notifyAll)

/-- The `GenerateResult` of `_complete_entry`. -/
def buildResult (x : RequestEntry) (completion : SequenceCompletion) (now : ℚ) : GenerateResult :=
  -- `entry.opened_at or now`: zero counts as absent
  let opened :=
    match x.openedAt with
    | some t => if t = 0 then now else t
    | none => now
  { requestId := x.scheduling.requestId
    attemptId := x.attemptId
    termination := py "completed"
    output := completion.finalText
    completion := completion
    queueMs := max 0 (opened - x.admittedAt) * 1000
    totalMs := max 0 (now - x.admittedAt) * 1000
    contextLimit := cfg.capabilities.maxContextTokens
    contextHeadroom :=
      cfg.capabilities.maxContextTokens - completion.promptTokens - x.request.totalTokens
    modelId := x.request.modelId
    backend := cfg.capabilities.backend }

/-- `_complete_entry` -/
def completeEntry (e : ℕ) (completion : Option SequenceCompletion) : Worker Unit :=
  match completion with
  | none => releaseAndTerminalize e none (some
      (mkError "protocol_violation" "finished sequence omitted completion data" true))
  | some completion => do
    let x ← .read fun s => s.entry e
    if x.finalDeltas.flatten ≠ completion.finalText then
      releaseAndTerminalize e none (some
        (mkError "protocol_violation" "decode deltas do not match final completion text" true))
    else
      match x.request.checkOutput completion.finalText with
      | .error exc =>
        if exc.isException then
          releaseAndTerminalize e none (some
            ⟨py "output_invalid", py "native final output is invalid: " ++ exc.typeName, false⟩)
        else .raise exc
      | .ok _ => do
        let now ← readClock
        releaseAndTerminalize e (some (buildResult cfg x completion now)) none

/-- The error a failed decode ends in. -/
def decodeError (errorCode : Option PyStr) : InferenceRuntimeError :=
  let code :=
    match errorCode with
    | some c => if c = [] then py "decode_failed" else c
    | none => py "decode_failed"
  ⟨code, py "native sequence decode failed",
    (py "backend_").isPrefixOf (errorCode.getD [])⟩

/-- `_run_decode_batch` -/
def runDecodeBatch : Worker Unit := do
  let (selected, steps) ← .atomic (decodeTakeBlock cfg)
  if steps = [] then pure () else do
    match ← catching (.atomic (decodeCallBlock selected steps)) with
    | .error exc =>
      selected.forM fun e =>
        releaseAndTerminalize e none (some (backendError "decode_batch_failed" exc))
    | .ok outcomes => do
      let done ← .atomic (applyDecode selected outcomes)
      done.forM fun (e, outcome) => do
        .modify fun s =>
          if outcome.tokenIds ≠ [] then
            { s with selector :=
                s.selector.charge (s.entry e).scheduling outcome.tokenIds.length }
          else s
        let handle ← .read fun s => (s.entry e).handle
        publish e .DECODE_COMPLETED handle (some outcome.tokenIds.length) none
      (done.filter fun p => p.2.status ≠ .PROGRESSED).forM fun (e, outcome) =>
        if outcome.status = .FAILED then
          releaseAndTerminalize e none (some (decodeError outcome.errorCode))
        else completeEntry cfg e outcome.completion

/-! ### The loop -/

/-- `_has_immediate_work_locked` -/
def hasImmediateWorkLocked (now : ℚ) (s : SchedulerState) : Bool × SchedulerState :=
  if s.entries.values.any fun e => (boundaryError s now e).isSome then (true, s)
  else
    let (hasPrefill, s) := queueHasStateLocked .prefill PREFILL s
    if hasPrefill then (true, s)
    else
      let (hasDecode, s) := queueHasStateLocked .decode DECODE s
      if hasDecode then (true, s)
      else (s.queued.any fun id =>
        (liveMember s QUEUED id).isSome ∧ s.admission.canActivate cfg.limits id, s)

/-- The block at the end of the loop: return, continue or wait.  Waiting ends
whenever the thread is scheduled again. -/
def idleBlock (s : SchedulerState) (ans : Answer) : Except PyException Bool × SchedulerState :=
  if s.stopping ∧ s.liveEntries = [] then (.ok false, { s with stopped := true }.notifyAll)
  else
    match (ans.clock 0).now with
    | .error exc => (.error exc, s)
    | .ok now =>
      match hasImmediateWorkLocked cfg now s with
      | (true, s) => (.ok true, s)
      | (false, s) =>
        -- `_next_deadline_wait_locked` reads the clock again for its timeout
        match (ans.clock 1).now with
        | .error exc => (.error exc, s)
        | .ok _ => (.ok true, s)

/-- One pass through the loop of `_run`; `false` is its `return`. -/
def iteration : Worker Bool := do
  if ← processTerminalBoundaries then pure true
  else if ← openOne cfg then pure true
  else
    match ← .atomic (chooseBatchBlock cfg) with
    | some .decode => do
      runDecodeBatch cfg
      pure true
    | some .prefill => do
      runPrefillBatch cfg
      pure true
    | none => .atomic (idleBlock cfg)

/-- `_fail_all` -/
def failAll (error : InferenceRuntimeError) : Worker Unit := do
  let entries ← .atomic fun s _ =>
    (.ok s.liveEntries, { s with cleanup := some s.liveEntries })
  entries.forM fun e => releaseAndTerminalize e none (some error)

def crashError (exc : PyException) : InferenceRuntimeError :=
  ⟨py "scheduler_crashed",
    py "scheduler loop failed: " ++ exc.typeName ++ py ": " ++ exc.message.take 384, true⟩

/-- The `except BaseException` clause of `_run`. -/
def crashHandler (exc : PyException) : Worker Unit := do
  .modify fun s => { s with fatalError := some (crashError exc) }
  failAll (crashError exc)
  .modify fun s => { s with stopped := true }.notifyAll

/-! ### Clients -/

/-- `_estimate_reservation`; `none` where a message cannot be encoded. -/
def estimateReservation (request : PreflightedRequest) : Option ℕ := do
  let sizes ← request.modelMessages.mapM fun m => do
    let content ← encodeUtf8 m.2
    let role ← encodeUtf8 m.1
    return content.length + role.length
  return min cfg.capabilities.maxContextTokens (max 1 (sizes.sum + request.totalTokens + 64))

/-- Why an `infer` call ends before it is admitted. -/
inductive InferRefusal where
  | error (err : InferenceRuntimeError)
  | exception (exc : PyException)

/-- The queue deadline `infer` computes. -/
def queueDeadline (request : PreflightedRequest) (metadata : SchedulingMetadata) (now : ℚ) : ℚ :=
  let deadline := now + (request.queueTimeoutMs : ℚ) / 1000
  match metadata.deadlineMonotonic with
  | none => deadline
  | some d => min deadline d

/-- A new entry enters the tables, its caller waits, and the others are notified. -/
def register (x : RequestEntry) (s : SchedulerState) : SchedulerState :=
  { s with
    nextOrder := s.nextOrder + 1
    heap := s.heap ++ [x]
    entries := s.entries.set x.scheduling.requestId s.heap.length
    queued := s.queued ++ [x.scheduling.requestId]
    callers := s.notifyAll.callers ++ [.blocked] }

/-- `infer` up to its first wait: the call is refused, or an entry is created on
which the caller blocks. -/
def infer (request : PreflightedRequest) (metadata : SchedulingMetadata) (attemptId : PyStr)
    (clock : ClockReading) (s : SchedulerState) : Except InferRefusal ℕ × SchedulerState :=
  let refuse (code detail : String) (retryable : Bool) :
      Except InferRefusal ℕ × SchedulerState :=
    (.error (.error (mkError code detail retryable)), s)
  match clock.now with
  | .error exc => (.error (.exception exc), s)
  | .ok now =>
    let deadline := queueDeadline request metadata now
    if deadline ≤ now then
      refuse "deadline_exceeded" "request deadline elapsed before admission" true
    else
      match estimateReservation cfg request with
      | none => (.error (.exception (.builtin "UnicodeEncodeError" "surrogates not allowed")), s)
      | some estimated =>
        if s.stopped then
          (.error (.error (s.fatalError.getD
            (mkError "shutdown" "inference scheduler is stopped" true))), s)
        else if s.stopping then refuse "shutdown" "inference scheduler is draining" true
        else if s.entries.contains metadata.requestId then
          refuse "duplicate_request" "request_id is already registered" false
        else if cfg.maxPendingRequests ≤ s.liveEntries.length then
          refuse "queue_full" "inference scheduler queue is full" true
        else
          match s.admission.admitRequest cfg.limits cfg.policy metadata estimated with
          | .error r => (.error (.error ⟨r.code, r.detail, r.retryable⟩), s)
          | .ok admission =>
            let x : RequestEntry :=
              { request := request, scheduling := metadata, attemptId := attemptId,
                admittedAt := now, queueDeadline := deadline, order := s.nextOrder,
                estimatedTokens := estimated }
            (.ok s.heap.length, register x { s with admission := admission })

/-- A notified `infer` call looks at its entry again: it leaves with the entry's
outcome, or waits on. -/
def wake (e : ℕ) (s : SchedulerState) : SchedulerState :=
  match s.callers[e]? with
  | some .woken =>
    let x := s.entry e
    if x.state = TERMINAL then
      let outcome : Caller :=
        match x.error, x.result with
        | some err, _ => .raised err
        | none, some r => .returned r
        | none, none => .raised
            (mkError "scheduler_invariant" "terminal request has no result or error" false)
      { s with
        entries := s.entries.pop (s.requestId e)
        callers := s.callers.set e outcome }
    else { s with callers := s.callers.set e .blocked }
  | _ => s

/-- `cancel` -/
def cancel (requestId : PyStr) (s : SchedulerState) : Bool × SchedulerState :=
  match s.entries.get? requestId with
  | none => (false, s)
  | some e =>
    if s.live e then
      (true, (s.modifyEntry e fun x => { x with cancelRequested := true }).notifyAll)
    else (false, s)

/-- The locked block of `shutdown`. -/
def shutdown (s : SchedulerState) : SchedulerState :=
  (s.liveEntries.foldl
    (fun t e => SchedulerState.modifyEntry t e fun x => { x with cancelRequested := true })
    { s with stopping := true }).notifyAll

inductive ClientOp where
  | infer (request : PreflightedRequest) (metadata : SchedulingMetadata) (attemptId : PyStr)
      (clock : ClockReading)
  | wake (e : ℕ)
  | cancel (requestId : PyStr)
  | shutdown

def clientStep : ClientOp → SchedulerState → SchedulerState
  | .infer request metadata attemptId clock, s => (infer cfg request metadata attemptId clock s).2
  | .wake e, s => wake e s
  | .cancel requestId, s => (cancel requestId s).2
  | .shutdown, s => shutdown s

/-- The scheduler with its clients. -/
def scheduler : System SchedulerState Answer PyException ClientOp where
  body := iteration cfg
  handler := crashHandler
  client := clientStep cfg

/-- The scheduler with nothing to do. -/
def initial : Config SchedulerState Answer PyException := (scheduler cfg).start {}

/-! ### A small installation, for runs on fixed inputs -/

def sampleConfig : SchedulerConfig where
  capabilities := ⟨py "native", 4096, 4, 64, 8, 4, by decide, by decide, by decide, by decide,
    by decide⟩
  tickTokenBudget := 64
  maxPendingRequests := 8
  maxDecodeBurst := 2
  policy := interactiveOnly
  limits := ⟨8, 4, 4096, 8, 8, 4, 4, 4096, 4096, 8, 0⟩
  tick_covers := by decide
  burst_pos := Nat.two_pos

def sampleRequest : PreflightedRequest := ⟨py "model", [], 1000, 1000, 16, fun _ => .ok ()⟩

/-- A client asks for a generation under the given request id. -/
def sampleInfer (id : String) (hne : id.toList ≠ []) (hlen : id.toList.length ≤ 256)
    (hall : id.toList.all IsPrintable = true) : Move Answer ClientOp :=
  .client (.infer sampleRequest
    ⟨py id, py "workflow", py "agent", py "interactive", 1, none, isBoundedText_py hne hlen hall,
      Nat.one_pos, one_le_maxSchedulingWeight⟩ [] (.finite 0))

def sampleHandle (generation : ℕ) : SequenceHandle :=
  ⟨py "native", py "model", py "0", generation⟩

/-- The worker acts `k` times; a sequence opened meanwhile gets this generation. -/
def sampleWork (k generation : ℕ) : List (Move Answer ClientOp) :=
  List.replicate k (.worker { openSequence := .ok (sampleHandle generation) })

end ContinuousBatchScheduler

end Inference
