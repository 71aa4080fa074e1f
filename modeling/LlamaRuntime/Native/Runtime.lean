/-
The command loop of the native runtime.

* `SequenceState`, `Runtime` — the state of a sequence, and that of the process
  with the KV memory and the samplers of its context;
* `openSequence`, `prefillBatch`, `decodeBatch`, `releaseSequence` — the commands,
  with what the clock and the model answer to each as an argument;
* `step` — one line of the input.

An exception leaves what the command did before it.  The log of a `Runtime` is
written to and never read by the commands.
-/
import Mathlib.Data.Rat.Defs
import Mathlib.Algebra.Order.Ring.Rat
import LlamaRuntime.Native.SequenceEngine
import LlamaRuntime.Native.Commands

namespace Native

open Json

/-! ### The state -/

/-- `cache_match` -/
inductive CacheMatch where
  | none | exact | leading | session
  deriving DecidableEq

/-- `NativeSequenceState`, whose samplers belong to the model. -/
structure SequenceState (n : ℕ) where
  internal : Handle n
  prompt : List Token
  logicalPrefillProcessed : ℕ
  physicalPromptDecoded : ℕ
  pendingToken : Token
  nPast : ℕ
  phase : PhaseController
  finalGrammarEngine : PyStr
  backendReasoningSampler : Bool
  cacheIdentity : PyStr
  cacheHit : Bool
  cacheMatch : CacheMatch
  cachedPromptTokens : ℕ
  session : Option SessionControl
  sessionPrefix : List Token
  sessionCommitKey : PyStr
  committedSessionGeneration : Option ℕ
  sessionCopyOnWrite : Bool
  finalPhase : Bool
  utf8 : Utf8Accumulator
  finalBytes : List UInt8
  promptDecodeMs : ℚ
  generationMs : ℚ
  openedAt : ℚ
  lastSampleAt : Option ℚ
  lastFinalAt : Option ℚ
  firstSampleMs : ℚ
  firstFinalMs : ℚ
  sampleItlMs : List ℚ
  finalItlMs : List ℚ
  terminal : Bool
  failed : Bool
  errorCode : PyStr

/-- What happened at the border of the process. -/
inductive LogEntry (n : ℕ) where
  /-- A sequence was opened in this slot. -/
  | opened (slot : Fin n)
  /-- `llama_decode` was called with this batch, when the memory held so many cells. -/
  | decoded (held : ℕ) (batch : List (Fin n × Cell))
  /-- `store_session` returned a generation for these tokens of a sequence. -/
  | committed (slot : Fin n) (tokens : List Token) (generation : ℕ)
  /-- This text was sent for a sequence. -/
  | sent (slot : Fin n) (text : List UInt8)
  /-- A prefill or decode command that names these live sequences got a `command_error`. -/
  | refused (slots : List (Fin n))

/-- The engine, the states, the cache, and the memory and samplers of the context. -/
structure Runtime (n : ℕ) where
  engine : Engine n
  states : Fin n → Option (SequenceState n)
  cache : PromptCache
  memory : Fin n → List Cell
  samplers : Fin n → Bool
  log : List (LogEntry n)

/-- The state a process starts with. -/
def Runtime.initial (config : Setup) : Runtime config.maxSequences where
  engine := Engine.initial config.maxSequences config.kvTokens
  states := fun _ => none
  cache :=
    { enabled := config.cacheEnabled
      byteBudget := config.cacheByteBudget
      maxEntries := config.cacheMaxEntries
      ttl := config.cacheTtl
      entries := []
      bytesUsed := 0 }
  memory := fun _ => []
  samplers := fun _ => false
  log := []

variable {n : ℕ} {F : Type}

namespace Runtime

def putState (r : Runtime n) (i : Fin n) (s : SequenceState n) : Runtime n :=
  { r with states := Function.update r.states i (some s) }

def record (r : Runtime n) (entry : LogEntry n) : Runtime n := { r with log := r.log ++ [entry] }

/-- How many cells the memory holds. -/
def held (r : Runtime n) : ℕ := ∑ i, (r.memory i).length

end Runtime

/-! ### What the outside answers -/

/-- What `llama_decode` says; a call that fails leaves some cells of the batch. -/
inductive DecodeAnswer where
  | success
  | failure (kept : ℕ → Bool)

structure OpenReply where
  rootAt : ℤ
  openedAt : ℚ
  restore : RestoreReply

structure PrefillReply (n : ℕ) where
  decoded : DecodeAnswer
  elapsed : ℚ
  captures : Fin n → CaptureReply

/-- One round of decoding: the token sampled for a sequence, or what stopped the
sampling; when it was sampled; and whether a sampler could be detached. -/
structure RoundReply (n : ℕ) where
  decoded : DecodeAnswer
  samples : Fin n → Except PyStr Token
  sampledAt : Fin n → ℚ
  detached : Fin n → Bool
  elapsed : ℚ

structure ReleaseReply where
  memorySize : ℕ
  samplerCleared : Bool
  memoryCleared : Bool

structure Outside (n : ℕ) where
  opening : OpenReply
  prefill : PrefillReply n
  rounds : ℕ → RoundReply n
  releasing : ReleaseReply
  statsAt : ℤ

/-! ### The answers of the process -/

structure PrefillOutcome (F : Type) where
  handle : Value F
  ready : Bool
  processedTokens : ℕ
  remainingTokens : ℕ

/-- The `completion` of a finished sequence. -/
structure Completion where
  finalText : List UInt8
  promptTokens : ℕ
  reasoningTokens : ℕ
  finalTokens : ℕ
  sampledTokens : ℕ
  cachedPromptTokens : ℕ
  cacheHit : Bool
  cacheMatch : CacheMatch
  sessionId : Option PyStr
  sessionParentGeneration : Option ℕ
  sessionGeneration : Option ℕ
  sessionCopyOnWrite : Bool
  promptDecodeMs : ℚ
  generationMs : ℚ
  firstSampleMs : ℚ
  firstFinalMs : ℚ
  sampleItlMs : List ℚ
  finalItlMs : List ℚ
  grammarEngine : PyStr

inductive DecodeResult where
  | progressed
  | finished (completion : Completion)
  | failed (errorCode : PyStr)

structure DecodeOutcome (F : Type) where
  handle : Value F
  tokenIds : List Token
  textDelta : List UInt8
  result : DecodeResult

inductive Reply (n : ℕ) (F : Type) where
  | commandError (refusal : Refusal)
  | sequenceOpened (handle : Handle n) (promptTokens reservedTokens : ℕ) (cacheHit : Bool)
      (cachedPromptTokens : ℕ)
  | prefillCompleted (outcomes : List (PrefillOutcome F))
  | decodeCompleted (outcomes : List (DecodeOutcome F))
  | sequenceReleased (handle : Value F) (status : ReleaseStatus) (releasedBytes : ℕ)
  | cacheStats (entries bytesUsed : ℕ)
  | cacheCleared (removedEntries : ℕ)
  | shutdownComplete

def Reply.fault (fault : Fault) : Reply n F := .commandError (invalidCommand fault)

/-! ### Decoding -/

/-- The cells of consecutive tokens. -/
def cellsFrom : ℕ → List Token → List Cell
  | _, [] => []
  | position, token :: rest => ⟨position, token⟩ :: cellsFrom (position + 1) rest

/-- The cells of a batch that belong to a sequence. -/
def cellsFor (i : Fin n) (batch : List (Fin n × Cell)) : List Cell :=
  (batch.filter fun cell => cell.1 = i).map Prod.snd

/-- The cells of a batch that a call leaves in the memory. -/
def DecodeAnswer.written (answer : DecodeAnswer) (batch : List (Fin n × Cell)) :
    List (Fin n × Cell) :=
  match answer with
  | .success => batch
  | .failure kept => (batch.zipIdx.filter fun cell => kept cell.2).map Prod.fst

namespace Runtime

/-- `llama_decode` -/
def decode (r : Runtime n) (batch : List (Fin n × Cell)) (answer : DecodeAnswer) : Runtime n :=
  { r with
    memory := fun i => r.memory i ++ cellsFor i (answer.written batch)
    log := r.log ++ [.decoded r.held batch] }

end Runtime

/-! ### Opening a sequence -/

/-- The state of a new sequence. -/
def OpenRequest.state (config : Setup) (q : OpenRequest) (internal : Handle n) (openedAt : ℚ) :
    SequenceState n where
  internal
  prompt := q.prompt
  logicalPrefillProcessed := 0
  physicalPromptDecoded := 0
  pendingToken := q.prompt.getLast?.getD 0
  nPast := 0
  phase := q.phase
  finalGrammarEngine := q.grammarEngine
  backendReasoningSampler := false
  cacheIdentity := q.cacheIdentity config
  cacheHit := false
  cacheMatch := .none
  cachedPromptTokens := 0
  session := q.session
  sessionPrefix := q.sessionPrefix
  sessionCommitKey := q.requestId
  committedSessionGeneration := none
  sessionCopyOnWrite := false
  finalPhase := false
  utf8 := .empty
  finalBytes := []
  promptDecodeMs := 0
  generationMs := 0
  openedAt
  lastSampleAt := none
  lastFinalAt := none
  firstSampleMs := 0
  firstFinalMs := 0
  sampleItlMs := []
  finalItlMs := []
  terminal := false
  failed := false
  errorCode := []

/-- The parent generation of a session. -/
def SequenceState.parent (s : SequenceState n) : Option (SessionControl × ℕ) :=
  s.session.bind fun control => control.parentGeneration.map fun generation => (control, generation)

/-- `admission_code` -/
def admissionCode : AdmissionStatus → String
  | .duplicate => "duplicate_sequence"
  | .sequenceCapacity => "sequence_capacity"
  | .tokenCapacity => "token_capacity"
  | _ => "invalid_sequence_request"

/-- The restore operation of a new sequence. -/
def SequenceState.restoreOp (s : SequenceState n) (reply : RestoreReply) : CacheOp :=
  match s.parent with
  | some (control, generation) =>
    .restoreSession s.cacheIdentity control.sessionId generation s.prompt reply
  | none => .restore s.cacheIdentity s.prompt reply

/-- What a restore operation returns, and the snapshot it gave to the sequence. -/
def PromptCache.restoreWith (c : PromptCache) : CacheOp → Option CacheRestore
  | .restore identity tokens reply => (c.restore identity tokens reply).2.1
  | .restoreSession identity sessionId generation tokens reply =>
    (c.restoreSession identity sessionId generation tokens reply).2.1
  | _ => none

/-- The state of a sequence after a snapshot was restored. -/
def SequenceState.restored (s : SequenceState n) (found : CacheRestore) : SequenceState n :=
  { s with
    cacheHit := true
    cacheMatch := if s.parent.isSome then .session else if found.exact then .exact else .leading
    logicalPrefillProcessed := found.cachedTokens
    physicalPromptDecoded := found.cachedTokens
    nPast := found.cachedTokens
    cachedPromptTokens := found.cachedTokens }

namespace Runtime

/-- The cells that a restore operation leaves: those of the snapshot, or none if it
could not be restored. -/
def restoreCells (r : Runtime n) (i : Fin n) (op : CacheOp) : Fin n → List Cell :=
  match r.cache.loaded op, r.cache.restoreWith op with
  | some e, some _ => Function.update r.memory i e.state.cells
  | some _, none => Function.update r.memory i []
  | none, _ => r.memory

/-- The answer to a sequence that was opened. -/
def openedReply (s : SequenceState n) (reservation : ℕ) : Reply n F :=
  .sequenceOpened s.internal s.prompt.length reservation s.cacheHit s.cachedPromptTokens

/-- `open_sequence`, once the sequence has a slot in the engine and in the table. -/
def restoreSequence (r : Runtime n) (i : Fin n) (s : SequenceState n) (reservation : ℕ)
    (reply : RestoreReply) : Runtime n × Reply n F :=
  if s.cacheIdentity = [] then (r.record (.opened i), openedReply s reservation)
  else
    let op := s.restoreOp reply
    let found := r.cache.restoreWith op
    let r := { r with cache := r.cache.after op, memory := r.restoreCells i op }
    match found with
    | none =>
      if s.parent.isSome then
        let cancelled := (r.engine.cancel s.internal).2
        ({ r with
            engine := (cancelled.release s.internal).2
            states := Function.update r.states i none },
          .commandError
            (rejected "session_snapshot_missing" "session parent is missing or not a prompt prefix"))
      else (r.record (.opened i), openedReply s reservation)
    | some found =>
      let s := s.restored found
      let advanced := r.engine.advancePrefill s.internal found.cachedTokens
      let r := { r.putState i s with engine := advanced.2 }
      if advanced.1 = .applied then (r.record (.opened i), openedReply s reservation)
      else (r, .fault (.error (py "sequence_state_invalid")))

/-- `open_sequence`, of a request that passed its checks. -/
def admitSequence (config : Setup) (r : Runtime n) (q : OpenRequest) (out : OpenReply) :
    Runtime n × Reply n F :=
  let admitted := r.engine.admitSequence q.requestId q.attemptId q.prompt.length q.totalTokens
  match admitted.2.2 with
  | none => (r, .commandError (rejected (admissionCode admitted.2.1) "sequence admission rejected"))
  | some internal =>
    let started := admitted.1.startPrefill internal
    if started.1 = .applied then
      let s := q.state config internal out.openedAt
      ({ r with engine := started.2 }.putState internal.slot s).restoreSequence internal.slot s
        (q.prompt.length + q.totalTokens) out.restore
    else ({ r with engine := started.2 }, .fault (.error (py "sequence_state_invalid")))

/-- `open_sequence` -/
def openSequence (config : Setup) (model : LlamaModel F) (r : Runtime n) (command : Value F)
    (out : OpenReply) : Runtime n × Reply n F :=
  match openRequest config model command with
  | .error refusal => (r, .commandError refusal)
  | .ok q =>
    match q.session with
    | some ⟨sessionId, none, _⟩ =>
      let allowed := r.cache.sessionRootAllowed (q.cacheIdentity config) sessionId q.requestId
        out.rootAt
      let r := { r with cache := allowed.1 }
      if allowed.2 then r.admitSequence config q out
      else
        (r, .commandError (rejected "session_conflict" "session already has a root snapshot"))
    | _ => r.admitSequence config q out

end Runtime

/-! ### Prefilling -/

def prefixCacheCheckpointTokens : ℕ := 64

namespace SequenceState

/-- The tokens of the prompt that are not accounted yet. -/
def remaining (s : SequenceState n) : ℕ := s.prompt.length - s.logicalPrefillProcessed

/-- A snapshot of the session prefix is still to be stored. -/
def CommitPending (s : SequenceState n) : Prop :=
  ∃ control ∈ s.session, control.commit = true ∧ s.committedSessionGeneration = none

instance (s : SequenceState n) : Decidable s.CommitPending :=
  match h : s.session with
  | none => .isFalse fun ⟨_, hmem, _⟩ => by simp [h] at hmem
  | some control =>
    decidable_of_iff (control.commit = true ∧ s.committedSessionGeneration = none)
      ⟨fun hc => ⟨control, h, hc⟩, fun ⟨_, hmem, hc⟩ => by
        obtain rfl := Option.some_inj.mp (h.symm.trans hmem)
        exact hc⟩

/-- The tokens a step accounts: no more than the budget, and up to the end of the
session prefix or the next checkpoint. -/
def logicalTokens (s : SequenceState n) (budget : ℕ) : ℕ :=
  let logical := min budget s.remaining
  if s.cacheIdentity = [] then logical
  else if s.CommitPending ∧ s.physicalPromptDecoded < s.sessionPrefix.length then
    min logical (s.sessionPrefix.length - s.physicalPromptDecoded)
  else if s.session = none then
    min logical
      (prefixCacheCheckpointTokens - s.physicalPromptDecoded % prefixCacheCheckpointTokens)
  else logical

/-- The tokens a step decodes; the last one of the prompt is left for `decode_batch`. -/
def physicalTokens (s : SequenceState n) (logical : ℕ) : ℕ :=
  if logical = s.remaining ∧ 0 < logical then logical - 1 else logical

/-- The cells that a step decodes. -/
def promptCells (s : SequenceState n) (physical : ℕ) : List Cell :=
  cellsFrom s.physicalPromptDecoded ((s.prompt.drop s.physicalPromptDecoded).take physical)

/-- The counters after a step. -/
def prefilled (s : SequenceState n) (logical physical : ℕ) (elapsed : ℚ) : SequenceState n :=
  { s with
    physicalPromptDecoded := s.physicalPromptDecoded + physical
    logicalPrefillProcessed := s.logicalPrefillProcessed + logical
    nPast := s.physicalPromptDecoded + physical
    promptDecodeMs := if 0 < physical then s.promptDecodeMs + elapsed else s.promptDecodeMs }

end SequenceState

/-- What a step was found to ask for. -/
structure PrefillWork (F : Type) (n : ℕ) where
  slot : Fin n
  handle : Value F
  logicalTokens : ℕ
  physicalTokens : ℕ

/-- The lifecycle that the engine has for a sequence. -/
def Runtime.lifecycle (r : Runtime n) (s : SequenceState n) : Option Lifecycle :=
  (r.engine.snapshot s.internal).map Slot.lifecycle

section Batches

variable (config : Setup)

/-- The sequence that a handle names. -/
def Runtime.named (r : Runtime config.maxSequences) (handle : Value F) :
    Option (Fin config.maxSequences × SequenceState config.maxSequences) :=
  match parsePublicHandle config handle with
  | none => none
  | some (slot, generation) =>
    match r.states slot with
    | none => none
    | some s => if s.internal.generation = generation then some (slot, s) else none

/-- One step of `prefill_batch`. -/
def prefillStep (r : Runtime config.maxSequences) (seen : List (Fin config.maxSequences))
    (step : Value F) : Except Fault (PrefillWork F config.maxSequences) := do
  requireExact step ["handle", "token_budget"]
  let handle ← field step "handle"
  match parsePublicHandle config handle with
  | none => refuse "stale_handle"
  | some (slot, _) =>
    check (slot ∉ seen) "duplicate_sequence_step"
    match r.named config handle with
    | none => refuse "stale_handle"
    | some (_, s) =>
      check (r.lifecycle s = some .prefill) "stale_handle"
      let budget ← positiveSize (← field step "token_budget") "prefill_budget_invalid"
      check (budget ≤ config.prefillChunkTokens) "prefill_budget_invalid"
      .ok ⟨slot, handle, s.logicalTokens budget, s.physicalTokens (s.logicalTokens budget)⟩

/-- The steps of `prefill_batch`. -/
def prefillWork (r : Runtime config.maxSequences) :
    List (Fin config.maxSequences) → List (Value F) →
      Except Fault (List (PrefillWork F config.maxSequences))
  | _, [] => .ok []
  | seen, step :: rest => do
    let work ← prefillStep config r seen step
    let others ← prefillWork r (work.slot :: seen) rest
    .ok (work :: others)

end Batches

/-- The batch of the steps. -/
def Runtime.prefillCells (r : Runtime n) (work : List (PrefillWork F n)) :
    List (Fin n × Cell) :=
  work.flatMap fun w =>
    (r.states w.slot).elim [] fun s => (s.promptCells w.physicalTokens).map fun cell => (w.slot, cell)

/-- What is stored after a step: the snapshot of the session prefix when it ends
there, or one of the prompt so far. -/
def Runtime.storePrefix (r : Runtime n) (i : Fin n) (s : SequenceState n) (reply : CaptureReply) :
    Runtime n × Except Fault Unit :=
  if s.cacheIdentity = [] then (r, .ok ())
  else
    match s.session with
    | some control =>
      if control.commit = true ∧ s.committedSessionGeneration = none ∧
          s.physicalPromptDecoded = s.sessionPrefix.length then
        let stored := r.cache.storeSession s.cacheIdentity control.sessionId
          control.parentGeneration s.sessionCommitKey s.sessionPrefix (r.memory i) reply
        let r := { r with cache := stored.1 }
        match stored.2 with
        | none => (r, refuse "session_commit_failed")
        | some committed =>
          ((r.putState i
              { s with
                committedSessionGeneration := some committed.generation
                sessionCopyOnWrite := committed.copyOnWrite }).record
              (.committed i s.sessionPrefix committed.generation), .ok ())
      else (r, .ok ())
    | none =>
      if 0 < s.physicalPromptDecoded then
        ({ r with cache := (r.cache.store s.cacheIdentity (s.prompt.take s.physicalPromptDecoded)
            (r.memory i) reply).1 }, .ok ())
      else (r, .ok ())

/-- What follows the decoding of a batch, for one of its steps. -/
def Runtime.prefillOne (r : Runtime n) (elapsed : ℚ) (captures : Fin n → CaptureReply)
    (w : PrefillWork F n) : Runtime n × Except Fault (PrefillOutcome F) :=
  match r.states w.slot with
  | none => (r, refuse "sequence_state_invalid")
  | some s =>
    let s := s.prefilled w.logicalTokens w.physicalTokens elapsed
    let advanced := r.engine.advancePrefill s.internal w.logicalTokens
    let r := { r.putState w.slot s with engine := advanced.2 }
    if advanced.1 ≠ .applied then (r, refuse "sequence_state_invalid")
    else
      match r.storePrefix w.slot s (captures w.slot) with
      | (r, .error fault) => (r, .error fault)
      | (r, .ok ()) => (r, .ok ⟨w.handle, s.remaining = 0, w.logicalTokens, s.remaining⟩)

/-- What follows the decoding of a batch; an exception stops it. -/
def Runtime.prefillAll (elapsed : ℚ) (captures : Fin n → CaptureReply) :
    Runtime n → List (PrefillWork F n) → Runtime n × Except Fault (List (PrefillOutcome F))
  | r, [] => (r, .ok [])
  | r, w :: rest =>
    match r.prefillOne elapsed captures w with
    | (r, .error fault) => (r, .error fault)
    | (r, .ok outcome) =>
      match Runtime.prefillAll elapsed captures r rest with
      | (r, .error fault) => (r, .error fault)
      | (r, .ok outcomes) => (r, .ok (outcome :: outcomes))

/-- `prefill_batch`, of the work its steps ask for. -/
def Runtime.runPrefill (config : Setup) (r : Runtime n) (work : List (PrefillWork F n))
    (out : PrefillReply n) : Runtime n × Except Fault (List (PrefillOutcome F)) :=
  let batch := r.prefillCells work
  let tokens := (work.map PrefillWork.physicalTokens).sum
  if config.tickTokenBudget < tokens ∨ config.nBatch < tokens then
    (r, refuse "tick_token_budget_exceeded")
  else if batch = [] then Runtime.prefillAll out.elapsed out.captures r work
  else
    let r := r.decode batch out.decoded
    match out.decoded with
    | .failure _ => (r, refuse "decode_failed")
    | .success => Runtime.prefillAll out.elapsed out.captures r work

/-- The steps of a command. -/
def stepsOf (command : Value F) (most : ℕ) (what : String) : Except Fault (List (Value F)) := do
  requireExact command ["protocol_version", "type", "command_id", "steps"]
  match ← field command "steps" with
  | .list steps =>
    check (steps ≠ [] ∧ steps.length ≤ most) what
    .ok steps
  | _ => refuse what

/-- `prefill_batch` -/
def Runtime.prefillBatch (config : Setup) (r : Runtime config.maxSequences) (command : Value F)
    (out : PrefillReply config.maxSequences) :
    Runtime config.maxSequences × Reply config.maxSequences F :=
  match (do
      let steps ← stepsOf command config.maxSequences "prefill_steps_invalid"
      prefillWork config r [] steps) with
  | .error fault => (r, .fault fault)
  | .ok work =>
    match r.runPrefill config work out with
    | (r, .error fault) => (r, .fault fault)
    | (r, .ok outcomes) => (r, .prefillCompleted outcomes)

/-! ### Decoding a reply -/

namespace SequenceState

/-- The time of a sample. -/
def sampled (s : SequenceState n) (sampledAt : ℚ) : SequenceState n :=
  match s.lastSampleAt with
  | some last =>
    { s with sampleItlMs := s.sampleItlMs ++ [sampledAt - last], lastSampleAt := some sampledAt }
  | none => { s with firstSampleMs := sampledAt - s.openedAt, lastSampleAt := some sampledAt }

/-- The time of a token of the final text. -/
def finalSampled (s : SequenceState n) (sampledAt : ℚ) : SequenceState n :=
  match s.lastFinalAt with
  | some last =>
    { s with finalItlMs := s.finalItlMs ++ [sampledAt - last], lastFinalAt := some sampledAt }
  | none => { s with firstFinalMs := sampledAt - s.openedAt, lastFinalAt := some sampledAt }

/-- The bytes of a token of the final text, and the characters they complete. -/
def appended (s : SequenceState n) (bytes : List UInt8) : SequenceState n × List UInt8 :=
  let s := { s with finalBytes := s.finalBytes ++ bytes }
  match s.utf8.append bytes with
  | (utf8, none) => ({ s with utf8, failed := true, errorCode := py "invalid_utf8" }, [])
  | (utf8, some completed) => ({ s with utf8 }, completed)

def failWith (s : SequenceState n) (code : PyStr) : SequenceState n :=
  { s with failed := true, errorCode := code }

end SequenceState

/-- How a sequence stands after a token: whether it ended, and why. -/
def SequenceState.settled (s : SequenceState n) (action : ControllerAction) (token : Token) :
    SequenceState n × Option FinishReason :=
  if s.failed then ({ s with terminal := true }, some .failed)
  else if action = .completed then
    if s.utf8.finish then ({ s with terminal := true }, some .stop)
    else (({ s with terminal := true }).failWith (py "incomplete_utf8"), some .failed)
  else ({ s with pendingToken := token }, none)

/-- The sampler of a sequence is detached when its final phase begins. -/
def Runtime.detach (r : Runtime n) (i : Fin n) (s : SequenceState n) (detached : Bool) :
    Runtime n × Except Fault (SequenceState n) :=
  if s.backendReasoningSampler then
    if detached then
      ({ r with samplers := Function.update r.samplers i false },
        .ok { s with backendReasoningSampler := false, finalPhase := true })
    else (r, refuse "backend_sampler_detach_failed")
  else (r, .ok { s with finalPhase := true })

/-- The text of a token that was sampled in the final phase. -/
def SequenceState.withText (s : SequenceState n) (model : LlamaModel F) (final : Bool)
    (token : Token) : SequenceState n × List UInt8 :=
  if final then s.appended (model.piece token) else (s, [])

/-- A token that was sampled in the final phase and is part of its text. -/
def SequenceState.finalToken (s : SequenceState n) (model : LlamaModel F) (token : Token) : Bool :=
  s.phase.phase = .final ∧ model.isEog token = false

/-- A token is counted, and the phase controller consumes it. -/
def SequenceState.counted (s : SequenceState n) (model : LlamaModel F) (token : Token)
    (sampledAt : ℚ) : SequenceState n × ControllerResult :=
  let eog := model.isEog token
  let timed := { s with nPast := s.nPast + 1 }.sampled sampledAt
  let timed := if s.finalToken model token then timed.finalSampled sampledAt else timed
  let transition := timed.phase.consume token eog (grammarAcceptanceProven eog timed.finalPhase)
  ({ timed with phase := transition.1 }, transition.2)

/-- A sequence fails if its controller did. -/
def SequenceState.rejected (s : SequenceState n) (result : ControllerResult) : SequenceState n :=
  if result.action = .failed then s.failWith result.error else s

/-- A sequence fails if its budget is spent and it is not complete. -/
def SequenceState.exhausted (s : SequenceState n) (result : ControllerResult) (spent : Bool) :
    SequenceState n :=
  if s.failed = false ∧ result.action ≠ .completed ∧ spent = true then
    s.failWith (py "total_budget_exhausted")
  else s

/-- The end of what is done with a sampled token. -/
def Runtime.conclude (r : Runtime n) (i : Fin n) (s : SequenceState n) (result : ControllerResult)
    (token : Token) (text : List UInt8) : Runtime n × Except Fault (List UInt8) :=
  let s := s.rejected result
  match r.engine.snapshot s.internal with
  | none => (r.putState i s, refuse "sequence_state_invalid")
  | some slot =>
    let s := s.exhausted result (slot.decodedTokens = slot.outputTokenBudget)
    let settled := s.settled result.action token
    let engine :=
      match settled.2 with
      | some reason => (r.engine.finish s.internal reason).2
      | none => r.engine
    ({ r.putState i settled.1 with engine }, .ok text)

/-- One sampled token of a sequence: the text it completes. -/
def Runtime.consume (model : LlamaModel F) (r : Runtime n) (i : Fin n) (s : SequenceState n)
    (token : Token) (sampledAt : ℚ) (detached : Bool) : Runtime n × Except Fault (List UInt8) :=
  let counted := s.counted model token sampledAt
  let advanced := r.engine.advanceDecode counted.1.internal 1
  let r := { r.putState i counted.1 with engine := advanced.2 }
  if advanced.1 ≠ .applied then (r, refuse "sequence_state_invalid")
  else
    let text := counted.1.withText model (s.finalToken model token) token
    let started :=
      if counted.2.action = .activateFinalGrammar then
        (r.putState i text.1).detach i text.1 detached
      else (r, .ok text.1)
    match started with
    | (r, .error fault) => (r, .error fault)
    | (r, .ok s) => r.conclude i s counted.2 token text.2

structure DecodeWork (F : Type) (n : ℕ) where
  slot : Fin n
  handle : Value F
  tokenBudget : ℕ
  tokenIds : List Token
  textDelta : List UInt8

/-- The sequence of a step takes another token. -/
def Runtime.takes (r : Runtime n) (w : DecodeWork F n) : Bool :=
  (r.states w.slot).any (fun s => s.terminal = false) && w.tokenIds.length < w.tokenBudget

/-- One step of `decode_batch`. -/
def decodeStep (config : Setup) (r : Runtime config.maxSequences)
    (seen : List (Fin config.maxSequences)) (step : Value F) :
    Except Fault (DecodeWork F config.maxSequences) := do
  requireExact step ["handle", "token_budget"]
  let budget ← positiveSize (← field step "token_budget") "decode_budget_invalid"
  check (budget ≤ config.decodeQuantumTokens) "decode_budget_invalid"
  let handle ← field step "handle"
  match parsePublicHandle config handle with
  | none => refuse "stale_handle"
  | some (slot, _) =>
    check (slot ∉ seen) "duplicate_sequence_step"
    match r.named config handle with
    | none => refuse "stale_handle"
    | some (_, s) =>
      check (s.terminal = false ∧ r.lifecycle s = some .decode) "stale_handle"
      .ok ⟨slot, handle, budget, [], []⟩

/-- The steps of `decode_batch`. -/
def decodeWork (config : Setup) (r : Runtime config.maxSequences) :
    List (Fin config.maxSequences) → List (Value F) →
      Except Fault (List (DecodeWork F config.maxSequences))
  | _, [] => .ok []
  | seen, step :: rest => do
    let work ← decodeStep config r seen step
    let others ← decodeWork config r (work.slot :: seen) rest
    .ok (work :: others)

/-- The cell of the token that a sequence decodes next. -/
def SequenceState.nextCell (s : SequenceState n) : Cell := ⟨s.nPast, s.pendingToken⟩

/-- The batch of a round. -/
def Runtime.roundCells (r : Runtime n) (work : List (DecodeWork F n)) : List (Fin n × Cell) :=
  (work.filter r.takes).filterMap fun w => (r.states w.slot).map fun s => (w.slot, s.nextCell)

/-- The tokens of a round are consumed one after the other; an exception stops it. -/
def Runtime.consumeAll (model : LlamaModel F) (out : RoundReply n) :
    Runtime n → List (DecodeWork F n × Bool) → Runtime n × Except Fault (List (DecodeWork F n))
  | r, [] => (r, .ok [])
  | r, (w, takes) :: rest =>
    let consumed : Runtime n × Except Fault (DecodeWork F n) :=
      match takes, r.states w.slot, out.samples w.slot with
      | true, some s, .ok token =>
        match r.consume model w.slot s token (out.sampledAt w.slot) (out.detached w.slot) with
        | (r, .error fault) => (r, .error fault)
        | (r, .ok text) =>
          (r, .ok { w with tokenIds := w.tokenIds ++ [token], textDelta := w.textDelta ++ text })
      | _, _, _ => (r, .ok w)
    match consumed with
    | (r, .error fault) => (r, .error fault)
    | (r, .ok w) =>
      match Runtime.consumeAll model out r rest with
      | (r, .error fault) => (r, .error fault)
      | (r, .ok others) => (r, .ok (w :: others))

/-- The time of a round counts for the sequences that took part. -/
def Runtime.spend (r : Runtime n) (slots : List (Fin n)) (elapsed : ℚ) : Runtime n :=
  { r with
    states := fun i =>
      if i ∈ slots then
        (r.states i).map fun s => { s with generationMs := s.generationMs + elapsed }
      else r.states i }

/-- The first of these sequences for which sampling throws. -/
def samplingFault (out : RoundReply n) : List (Fin n) → Option PyStr
  | [] => none
  | i :: rest =>
    match out.samples i with
    | .error what => some what
    | .ok _ => samplingFault out rest

/-- One round of the loop of `decode_batch`. -/
def Runtime.decodeRound (model : LlamaModel F) (r : Runtime n) (work : List (DecodeWork F n))
    (out : RoundReply n) : Runtime n × Except Fault (List (DecodeWork F n)) :=
  let slots := (work.filter r.takes).map DecodeWork.slot
  let flagged := work.map fun w => (w, r.takes w)
  let r := r.decode (r.roundCells work) out.decoded
  match out.decoded with
  | .failure _ => (r, refuse "decode_failed")
  | .success =>
    -- every token is sampled before the first is consumed
    match samplingFault out slots with
    | some what => (r, .error (.error what))
    | none =>
      match r.consumeAll model out flagged with
      | (r, .error fault) => (r, .error fault)
      | (r, .ok work) => (r.spend slots out.elapsed, .ok work)

/-- The loop of `decode_batch`; every step asks for at most a quantum of tokens, so that
as many rounds are enough. -/
def Runtime.decodeLoop (model : LlamaModel F) (rounds : ℕ → RoundReply n) :
    ℕ → ℕ → Runtime n → List (DecodeWork F n) → Runtime n × Except Fault (List (DecodeWork F n))
  | 0, _, r, work => (r, .ok work)
  | fuel + 1, round, r, work =>
    if work.any r.takes then
      match r.decodeRound model work (rounds round) with
      | (r, .error fault) => (r, .error fault)
      | (r, .ok work) => Runtime.decodeLoop model rounds fuel (round + 1) r work
    else (r, .ok work)

/-- The `completion` of a sequence. -/
def SequenceState.completion (s : SequenceState n) : Completion where
  finalText := s.finalBytes
  promptTokens := s.prompt.length
  reasoningTokens := s.phase.reasoning
  finalTokens := s.phase.final
  sampledTokens := s.phase.sampled
  cachedPromptTokens := s.cachedPromptTokens
  cacheHit := s.cacheHit
  cacheMatch := s.cacheMatch
  sessionId := s.session.map SessionControl.sessionId
  sessionParentGeneration := s.parent.map Prod.snd
  sessionGeneration := s.committedSessionGeneration
  sessionCopyOnWrite := s.sessionCopyOnWrite
  promptDecodeMs := s.promptDecodeMs
  generationMs := s.generationMs
  firstSampleMs := s.firstSampleMs
  firstFinalMs := s.firstFinalMs
  sampleItlMs := s.sampleItlMs
  finalItlMs := s.finalItlMs
  grammarEngine := s.finalGrammarEngine

/-- What is said of a sequence after decoding. -/
def SequenceState.result (s : SequenceState n) : DecodeResult :=
  if s.failed then .failed (py "protocol_violation:" ++ s.errorCode)
  else if s.terminal then .finished s.completion
  else .progressed

def Runtime.decodeOutcome (r : Runtime n) (w : DecodeWork F n) : DecodeOutcome F :=
  ⟨w.handle, w.tokenIds, w.textDelta,
    (r.states w.slot).elim .progressed SequenceState.result⟩

/-- `decode_batch`, of the work its steps ask for. -/
def Runtime.runDecode (config : Setup) (model : LlamaModel F) (r : Runtime n)
    (work : List (DecodeWork F n)) (rounds : ℕ → RoundReply n) :
    Runtime n × Except Fault (List (DecodeWork F n)) :=
  if config.tickTokenBudget < (work.map DecodeWork.tokenBudget).sum then
    (r, refuse "tick_token_budget_exceeded")
  else r.decodeLoop model rounds config.decodeQuantumTokens 0 work

/-- The texts that an answer sends. -/
def sentEntries (work : List (DecodeWork F n)) : List (LogEntry n) :=
  work.map fun w => .sent w.slot w.textDelta

/-- `decode_batch` -/
def Runtime.decodeBatch (config : Setup) (model : LlamaModel F) (r : Runtime config.maxSequences)
    (command : Value F) (rounds : ℕ → RoundReply config.maxSequences) :
    Runtime config.maxSequences × Reply config.maxSequences F :=
  match (do
      let steps ← stepsOf command config.maxDecodeBatch "decode_steps_invalid"
      decodeWork config r [] steps) with
  | .error fault => (r, .fault fault)
  | .ok work =>
    match r.runDecode config model work rounds with
    | (r, .error fault) => (r, .fault fault)
    | (r, .ok work) =>
      ({ r with log := r.log ++ sentEntries work }, .decodeCompleted (work.map r.decodeOutcome))

/-! ### Releasing a sequence -/

/-- The sampler and the cells of a slot are removed. -/
def Runtime.clearSlot (r : Runtime n) (i : Fin n) (s : SequenceState n) (out : ReleaseReply) :
    Runtime n × Except Fault Unit :=
  if out.samplerCleared = false then (r, refuse "backend_sampler_release_failed")
  else
    let r :=
      { r.putState i { s with backendReasoningSampler := false } with
        samplers := Function.update r.samplers i false }
    if out.memoryCleared = false then (r, refuse "sequence_memory_release_failed")
    else ({ r with memory := Function.update r.memory i [] }, .ok ())

/-- The end of `release_sequence`. -/
def Runtime.releaseSlot (r : Runtime n) (internal : Handle n) (handle : Value F)
    (memorySize : ℕ) : Runtime n × Reply n F :=
  let released := r.engine.release internal
  let r := { r with engine := released.2 }
  match released.1 with
  | .released =>
    ({ r with states := Function.update r.states internal.slot none },
      .sequenceReleased handle .released memorySize)
  | status => (r, .sequenceReleased handle status 0)

/-- `release_sequence` -/
def Runtime.releaseSequence (config : Setup) (r : Runtime config.maxSequences) (command : Value F)
    (out : ReleaseReply) : Runtime config.maxSequences × Reply config.maxSequences F :=
  match (do
      requireExact command ["protocol_version", "type", "command_id", "handle"]
      field command "handle") with
  | .error fault => (r, .fault fault)
  | .ok handle =>
    match parsePublicHandle config handle with
    | none => (r, .fault (.error (py "stale_handle")))
    | some (slot, generation) =>
      match r.states slot with
      | none => r.releaseSlot ⟨slot, generation, [], []⟩ handle 0
      | some s =>
        let named := s.internal.generation = generation
        let internal : Handle config.maxSequences :=
          if named then s.internal else ⟨slot, generation, [], []⟩
        let cancels := named ∧ (r.lifecycle s).any (· ≠ .terminal)
        let r := if cancels then { r with engine := (r.engine.cancel internal).2 } else r
        -- the handle is not compared with the slot again
        match r.clearSlot slot s out with
        | (r, .error fault) => (r, .fault fault)
        | (r, .ok ()) => r.releaseSlot internal handle out.memorySize

/-! ### One line of the input -/

/-- The `command_id` and the `type` of a command. -/
def commandType (command : Value F) : Except Fault PyStr := do
  check (contains command "command_id") "command_id_invalid"
  match ← field command "command_id" with
  | .int n => check (IsInteger n) "command_id_invalid"
  | _ => refuse "command_id_invalid"
  let version ←
    if contains command "protocol_version" then getString (← field command "protocol_version")
    else .ok []
  check (version = py "inference-runtime-ipc.v1") "protocol_version_mismatch"
  if contains command "type" then getString (← field command "type") else .ok []

/-- The live sequence that a step names. -/
def Runtime.stepSlot (config : Setup) (r : Runtime config.maxSequences) (step : Value F) :
    Option (Fin config.maxSequences) :=
  match field step "handle" with
  | .ok handle => (r.named config handle).map Prod.fst
  | .error _ => none

/-- The live sequences that the steps of a command name. -/
def Runtime.stepSlots (config : Setup) (r : Runtime config.maxSequences) (command : Value F) :
    List (Fin config.maxSequences) :=
  match field command "steps" with
  | .ok (.list steps) => steps.filterMap (r.stepSlot config)
  | _ => []

/-- A refused command is put down with the sequences its steps name. -/
def refusedEntry {α : Type} (slots : List (Fin n)) (result : Runtime n × Reply n α) :
    Runtime n × Reply n α :=
  match result with
  | (r, .commandError refusal) => (r.record (.refused slots), .commandError refusal)
  | result => result

/-- A command of this type. -/
def Runtime.perform (config : Setup) (model : LlamaModel F) (r : Runtime config.maxSequences)
    (type : PyStr) (command : Value F) (out : Outside config.maxSequences) :
    Runtime config.maxSequences × Reply config.maxSequences F :=
  let bare : Except Fault Unit := requireExact command ["protocol_version", "type", "command_id"]
  if type = py "shutdown" then
    match bare with
    | .error fault => (r, .fault fault)
    | .ok () => (r, .shutdownComplete)
  else if type = py "cache_stats" then
    match bare with
    | .error fault => (r, .fault fault)
    | .ok () =>
      let cache := r.cache.after (.stats out.statsAt)
      ({ r with cache }, .cacheStats cache.entries.length cache.bytesUsed)
  else if type = py "cache_clear" then
    match bare with
    | .error fault => (r, .fault fault)
    | .ok () => ({ r with cache := r.cache.after .clear }, .cacheCleared r.cache.entries.length)
  else if type = py "open_sequence" then r.openSequence config model command out.opening
  else if type = py "prefill_batch" then
    refusedEntry (r.stepSlots config command) (r.prefillBatch config command out.prefill)
  else if type = py "decode_batch" then
    refusedEntry (r.stepSlots config command) (r.decodeBatch config model command out.rounds)
  else if type = py "release_sequence" then r.releaseSequence config command out.releasing
  else (r, .fault (.error (py "unknown_command")))

/-- A line of the input, as it was parsed, and what the outside answers to it. -/
structure Input (F : Type) (n : ℕ) where
  line : Option (Value F)
  out : Outside n

/-- One round of the loop; the loop ends after `shutdownComplete`. -/
def step (config : Setup) (model : LlamaModel F) (r : Runtime config.maxSequences)
    (input : Input F config.maxSequences) :
    Runtime config.maxSequences × Reply config.maxSequences F :=
  match input.line with
  | none => (r, .fault .json)
  | some command =>
    match commandType command with
    | .error fault => (r, .fault fault)
    | .ok type => r.perform config model type command input.out

/-- The state after some lines of the input. -/
def run (config : Setup) (model : LlamaModel F) (inputs : List (Input F config.maxSequences)) :
    Runtime config.maxSequences :=
  inputs.foldl (fun r input => (step config model r input).1) (Runtime.initial config)

theorem run_concat (config : Setup) (model : LlamaModel F)
    (inputs : List (Input F config.maxSequences)) (input : Input F config.maxSequences) :
    run config model (inputs ++ [input]) = (step config model (run config model inputs) input).1 := by
  rw [run, List.foldl_append]
  rfl

end Native
