/-
The native model worker, `model_worker_main.cpp`.

A job is a `generate` frame that the main thread has taken.  What llama.cpp, the clock and the
thread that reads the control pipe do meanwhile is an arbitrary `Outside`; an exception is its
text.

* `emit` — a frame on the pipe, numbered by the frames before it;
* `decodePrompt`, `samplePass`, `sampleLoop` — the two loops of `generate`;
* `serve` — the frames of a job, from `started` to `completed` or `failed`.
-/
import LlamaRuntime.Json.Tidy
import LlamaRuntime.Native.Utf8Splits
import LlamaRuntime.Worker.Ipc

namespace ModelWorker

open Json Native Worker

/-- A job, by what `generate` reads of its frame; the texts have come out of JSON. -/
structure Job where
  requestId : PyStr
  attemptId : PyStr
  reasoningTokens : ℕ
  finalTokens : ℕ
  totalTokens : ℕ
  request_clean : Clean requestId
  attempt_clean : Clean attemptId

/-- The manifest and the vocabulary of the model. -/
structure Model where
  /-- `n_ctx` -/
  contextLimit : ℕ
  /-- `n_batch` -/
  batch : ℕ
  /-- the tokens of `start_text` and `end_text` -/
  startMarker : List Token
  endMarker : List Token
  isEog : Token → Bool
  piece : Token → List UInt8
  batch_pos : 0 < batch
  /-- it is an `int32_t` -/
  limit_lt : contextLimit < 2 ^ 31

/-- One pass of the sampling loop: whether `cancel` is set, whether `llama_decode` succeeds, the
token that is sampled, and the seconds of the clock. -/
structure Pass where
  cancelled : Bool := false
  decoded : Bool := true
  token : Except PyStr Token
  now : ℚ

structure Outside (F : Type) [Floats F] where
  /-- the tokens of the prompt, behind the chat template -/
  prompt : Except PyStr (List Token)
  context : Except PyStr Unit
  /-- `cancel` and `llama_decode` at a part of the prompt -/
  chunkCancelled : ℕ → Bool
  chunkDecoded : ℕ → Bool
  samplers : Except PyStr Unit
  startedAt : ℚ
  passes : ℕ → Pass
  promptMs : F
  generationMs : F
  prompt_finite : Floats.isFinite promptMs = true
  generation_finite : Floats.isFinite generationMs = true
  /-- the texts of exceptions, as the writer of a frame leaves them -/
  clean : ∀ message, prompt = .error message ∨ context = .error message ∨
    samplers = .error message ∨ (∃ k, (passes k).token = .error message) → Clean message

/-! ### The pipe -/

/-- `sequence`, and the frames that were written. -/
structure Pipe (F : Type) where
  sequence : ℕ := 0
  frames : List (Frame F) := []

section

variable {F : Type}

/-- What `emit` adds to a payload. -/
def header (job : Job) (type : String) (sequence : ℕ) : List (PyStr × Value F) :=
  [(py "protocol_version", .str (py ipcVersion)), (py "type", .str (py type)),
    (py "request_id", .str job.requestId), (py "attempt_id", .str job.attemptId),
    (py "sequence", .int sequence)]

/-- `emit(type, active_request, active_attempt, sequence++, payload)` -/
def emit (job : Job) (pipe : Pipe F) (type : String) (payload : List (PyStr × Value F)) : Pipe F :=
  ⟨pipe.sequence + 1, pipe.frames ++ [⟨header job type pipe.sequence ++ payload⟩]⟩

/-- The text of bytes, as the writer of the frame replaces what is no UTF-8. -/
def textOf (bytes : List UInt8) : PyStr :=
  (scanUtf8 bytes.length bytes).map fun c => c.getD 0xFFFD

variable (model : Model) (job : Job)

/-! ### The prompt -/

/-- The loop over the parts of the prompt, of which the last may be short.  A pass for each token
is enough. -/
def decodePrompt [Floats F] (outside : Outside F) (size : ℕ) :
    ℕ → ℕ → ℕ → Pipe F → Pipe F × Except PyStr Unit
  | 0, _, _, pipe => (pipe, .ok ())
  | passes + 1, chunk, offset, pipe =>
    if size ≤ offset then (pipe, .ok ())
    else if outside.chunkCancelled chunk then (pipe, .error (py "cancelled"))
    else if ¬ outside.chunkDecoded chunk then (pipe, .error (py "decode_failed"))
    else
      let decoded := offset + min model.batch (size - offset)
      decodePrompt outside size passes (chunk + 1) (offset + model.batch)
        (emit job pipe "progress"
          [(py "phase", .str (py "prompt_decode")), (py "tokens", .int decoded)])

/-! ### Sampling -/

/-- The locals of the sampling loop. -/
structure Sampling (F : Type) where
  phase : PhaseController
  /-- `active == final` -/
  finalGrammar : Bool := false
  finalBytes : List UInt8 := []
  utf8 : Utf8Accumulator := .empty
  lastHeartbeat : ℚ
  pipe : Pipe F

/-- How a pass ends. -/
inductive Passed (F : Type) where
  | next (s : Sampling F)
  | completed (s : Sampling F)
  | thrown (pipe : Pipe F) (message : PyStr)

/-- The bytes of a token of the final phase. -/
def takePiece (s : Sampling F) (token : Token) : Except PyStr (Sampling F) :=
  let bytes := model.piece token
  match s.utf8.append bytes with
  | (_, none) => .error (py "protocol_violation:invalid_utf8")
  | (utf8, some completed) =>
    let s := { s with finalBytes := s.finalBytes ++ bytes, utf8 := utf8 }
    .ok (if completed = [] then s
      else { s with pipe := emit job s.pipe "final_delta" [(py "delta", .str (textOf completed))] })

/-- `progress` after every sixteenth token, and `heartbeat` once a second. -/
def reportPass (s : Sampling F) (before : Phase) (now : ℚ) : Sampling F :=
  let s :=
    if s.phase.sampled % 16 = 0 then
      { s with
        pipe := emit job s.pipe "progress"
          [(py "phase", .str (py (if before = .final then "final" else "reasoning"))),
            (py "tokens", .int s.phase.sampled)] }
    else s
  if 1 ≤ now - s.lastHeartbeat then
    { s with
      pipe := emit job s.pipe "heartbeat" [(py "sampled_tokens", .int s.phase.sampled)]
      lastHeartbeat := now }
  else s

/-- What a pass makes of the action of the controller. -/
def actOn (s : Sampling F) (before : Phase) (transition : ControllerResult) (now : ℚ) : Passed F :=
  let s :=
    if transition.action = .activateFinalGrammar then
      { s with
        finalGrammar := true
        pipe := emit job s.pipe "phase" [(py "phase", .str (py "final"))] }
    else s
  if transition.action = .failed then
    .thrown s.pipe (py "protocol_violation:" ++ transition.error)
  else if transition.action = .completed then .completed s
  else .next (reportPass job s before now)

/-- One pass of the sampling loop; the last token of the prompt is decoded already. -/
def samplePass (s : Sampling F) (first : Bool) (p : Pass) : Passed F :=
  if p.cancelled then .thrown s.pipe (py "cancelled")
  else if ¬ first ∧ ¬ p.decoded then .thrown s.pipe (py "decode_failed")
  else
    match p.token with
    | .error message => .thrown s.pipe message
    | .ok token =>
      let before := s.phase.phase
      let eog := model.isEog token
      let (phase, transition) :=
        s.phase.consume token eog (grammarAcceptanceProven eog s.finalGrammar)
      let s := { s with phase := phase }
      if before = .final ∧ ¬ eog then
        match takePiece model job s token with
        | .error message => .thrown s.pipe message
        | .ok s => actOn job s before transition p.now
      else actOn job s before transition p.now

/-- The loop, with as many passes left as tokens may still be sampled: every pass that comes back
to its head has sampled one. -/
def sampleLoop (passes : ℕ → Pass) : ℕ → ℕ → Sampling F → Pipe F × Except PyStr (Sampling F)
  | 0, _, s => (s.pipe, .ok s)
  | left + 1, k, s =>
    match samplePass model job s (k = 0) (passes k) with
    | .thrown pipe message => (pipe, .error message)
    | .completed s => (s.pipe, .ok s)
    | .next s => sampleLoop passes left (k + 1) s

/-! ### The job -/

variable [Floats F]

/-- The object that `generate` returns. -/
def resultOf (outside : Outside F) (promptTokens : ℕ) (s : Sampling F) : List (PyStr × Value F) :=
  [(py "final_text", .str (textOf s.finalBytes)),
    (py "usage", .dict
      [(py "prompt_tokens", .int promptTokens), (py "reasoning_tokens", .int s.phase.reasoning),
        (py "final_tokens", .int s.phase.final), (py "sampled_tokens", .int s.phase.sampled),
        (py "context_limit", .int model.contextLimit),
        (py "context_headroom",
          .int (model.contextLimit - promptTokens - job.totalTokens - 8 : ℕ))]),
    (py "timing", .dict
      [(py "prompt_decode_ms", .float outside.promptMs),
        (py "generation_ms", .float outside.generationMs)])]

/-- `generate` behind the decoding of the prompt -/
def generateReply (outside : Outside F) (promptTokens : ℕ) (pipe : Pipe F) :
    Pipe F × Except PyStr (List (PyStr × Value F)) :=
  match PhaseController.make model.startMarker model.endMarker job.reasoningTokens job.finalTokens
      job.totalTokens with
  | .error message => (pipe, .error message)
  | .ok phase =>
    match outside.samplers with
    | .error message => (pipe, .error message)
    | .ok _ =>
      let start : Sampling F :=
        { phase := phase, lastHeartbeat := outside.startedAt, pipe := pipe }
      match sampleLoop model job outside.passes job.totalTokens 0 start with
      | (pipe, .error message) => (pipe, .error message)
      | (pipe, .ok s) =>
        if s.phase.phase ≠ .done ∨ s.utf8.finish = false then
          (pipe, .error (py "protocol_violation:incomplete_final"))
        else (pipe, .ok (resultOf model job outside promptTokens s))

/-- `generate` -/
def generate (outside : Outside F) (pipe : Pipe F) :
    Pipe F × Except PyStr (List (PyStr × Value F)) :=
  match outside.prompt with
  | .error message => (pipe, .error message)
  | .ok prompt =>
    if model.contextLimit < prompt.length + job.totalTokens + 8 then
      (pipe, .error (py "context_overflow"))
    else
      match outside.context with
      | .error message => (pipe, .error message)
      | .ok _ =>
        match decodePrompt model job outside prompt.length prompt.length 0 0 pipe with
        | (pipe, .error message) => (pipe, .error message)
        | (pipe, .ok _) => generateReply model job outside prompt.length pipe

/-- The code of an exception. -/
def failureCode (message : PyStr) : String :=
  if message = py "cancelled" then "cancelled"
  else if message = py "context_overflow" then "context_overflow"
  else if py "protocol_violation" <+: message then "protocol_violation"
  else "decode_failed"

/-- What the main thread does with a job. -/
def serve (outside : Outside F) : Pipe F :=
  let pipe := emit job {} "started" []
  match generate model job outside pipe with
  | (pipe, .ok result) => emit job pipe "completed" result
  | (pipe, .error message) =>
    emit job pipe "failed"
      [(py "error", .str (py (failureCode message))), (py "detail", .str message)]

end

end ModelWorker
