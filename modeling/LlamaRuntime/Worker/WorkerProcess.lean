/-
One request in the native worker process.

`NativeWorkerProcess.execute` reads the lines that the process writes, verifies
each, hands its event to the request's sink and ends with a result or an error; a
broken protocol makes it kill and restart the process.

* `Execution` — what the loop keeps between two lines;
* `takeLine` — a line up to the event it stands for;
* `settle` — what a frame means once its event has been handed over;
* `crash_recovery_iff` — which frames end in the recovery of the process.
-/
import LlamaRuntime.Worker.EventBuffer
import LlamaRuntime.Worker.FrameProtocol
import LlamaRuntime.Worker.OutputContract

namespace Worker

open Json

section

variable {F : Type}

structure GenerateResult (F : Type) where
  requestId : PyStr
  attemptId : PyStr
  termination : PyStr
  protocolValid : Bool
  outputValid : Bool
  output : Value F
  usage : Frame F
  timing : List (PyStr × Value F)
  model : List (PyStr × Value F)

/-- The locals of `execute`; `accepted` is history: the frames verified so far. -/
structure Execution (F : Type) where
  verifier : FrameVerifier
  finalDeltas : List PyStr := []
  slowConsumer : Bool := false
  cancelSent : Bool := false
  accepted : List (Frame F) := []

def Execution.start (requestId attemptId : PyStr) : Execution F :=
  { verifier := .start requestId attemptId }

/-- The `except WorkerError` clause of `execute`: whether it recovers the process. -/
def recovers : Raised → Bool
  | .worker error => error.code = .worker_crashed
  | _ => false

/-- What the loop of `execute` does after a block. -/
inductive Ended (F : Type) where
  /-- it returns, or raises -/
  | finished (outcome : Except Raised (GenerateResult F)) (recovery : Bool)
  /-- it goes on with the next line -/
  | next (x : Execution F)

/-- An exception leaves the `try` of `execute`. -/
def raiseInside (e : Raised) : Ended F := .finished (.error e) (recovers e)

def raiseWorker (code : ErrorCode) (message : String) : Ended F :=
  raiseInside (.worker ⟨code, py message, []⟩)

/-- `_EVENT_FRAME_TYPES` -/
def eventFrameTypes : List String := ["started", "phase", "final_delta", "progress", "heartbeat"]

/-- `frame["type"] in _EVENT_FRAME_TYPES` -/
def Frame.IsEvent (frame : Frame F) : Prop := ∃ name ∈ eventFrameTypes, frame.text "type" = py name

instance (frame : Frame F) : Decidable frame.IsEvent :=
  inferInstanceAs (Decidable (∃ name ∈ eventFrameTypes, _))

/-- What a line has become. -/
inductive Taken (F : Type) where
  | raised (e : Raised)
  /-- a frame whose event is to be published -/
  | event (x : Execution F) (frame : Frame F) (event : InferenceEvent)
  /-- a frame that is no event -/
  | plain (x : Execution F) (frame : Frame F)

/-- From `verifier.verify(line)` to the event of the frame. -/
def takeLine [Floats F] (x : Execution F) (line : PyStr) : Taken F :=
  match x.verifier.verify (.text (.str line)) with
  | (.error e, _) => .raised e
  | (.ok frame, verifier) =>
    let x :=
      { x with
        verifier := verifier
        accepted := x.accepted ++ [frame]
        finalDeltas :=
          if frame.text "type" = py "final_delta" then
            x.finalDeltas ++ [(frame.text "delta").getD []]
          else x.finalDeltas }
    if frame.IsEvent then
      match fromIpcFrame frame with
      | .error (.validation _ _) =>
        .raised (crashed "native worker emitted an invalid inference event")
      | .error (.valueError message) => .raised (.other (py message))
      | .ok event => .event x frame event
    else .plain x frame

/-- What `_reject_extra_terminal_frame` finds in the queue of lines. -/
inductive Extra where
  | empty
  | closed
  | line

/-- `code = frame.get("error", "decode_failed")`, restricted to the known codes -/
def failureCode (error : PyStr) : ErrorCode :=
  if error = py "cancelled" then .cancelled
  else if error = py "context_overflow" then .context_overflow
  else if error = py "protocol_violation" then .protocol_violation
  else .decode_failed

/-- What the process is known by: `id`, `manifest_digest`, `runtime_build` and the
identity of the runtime with its generation. -/
abbrev Identity (F : Type) := List (PyStr × Value F)

/-- The `GenerateResult` of a completed frame. -/
def resultOf (x : Execution F) (frame : Frame F) (identity : Identity F) (output : Value F)
    (elapsed : Value F) : GenerateResult F :=
  let timing := (frame.dict "timing").getD ⟨[]⟩
  { requestId := x.verifier.requestId
    attemptId := x.verifier.attemptId
    termination := py "completed"
    protocolValid := true
    outputValid := true
    output := output
    usage := (frame.dict "usage").getD ⟨[]⟩
    timing :=
      [(py "queue_ms", .int 0),
        (py "prompt_decode_ms", (timing.get "prompt_decode_ms").getD (.int 0)),
        (py "generation_ms", (timing.get "generation_ms").getD elapsed),
        (py "total_ms", elapsed)]
    model := identity }

/-- The end of the loop's body. -/
def settle [Floats F] (contract : ContractAST) (identity : Identity F) (x : Execution F)
    (frame : Frame F) (extra : Extra) (elapsed : Value F) : Ended F :=
  if frame.text "type" = py "completed" then
    match extra with
    | .line => raiseWorker .worker_crashed "duplicate or trailing IPC frame after terminal"
    | _ =>
      let finalText := (frame.text "final_text").getD []
      if x.finalDeltas.flatten ≠ finalText then
        raiseWorker .worker_crashed "IPC final deltas do not match completed final_text"
      else if x.slowConsumer then
        raiseWorker .slow_consumer "stream consumer did not keep up with model output"
      else
        match loads (.str finalText) with
        | .error _ => raiseWorker .output_invalid "final output is not strict JSON"
        | .ok output =>
          match validateOutput output contract with
          | [] => .finished (.ok (resultOf x frame identity output elapsed)) false
          | errors =>
            raiseInside (.worker ⟨.output_invalid,
              py "final output violates normalized contract", errors⟩)
  else if frame.text "type" = py "failed" then
    match extra with
    | .line => raiseWorker .worker_crashed "duplicate or trailing IPC frame after terminal"
    | _ =>
      if x.slowConsumer then
        raiseWorker .slow_consumer "stream consumer did not keep up with model output"
      else
        raiseInside (.worker ⟨failureCode ((frame.text "error").getD []),
          (frame.text "detail").getD [], []⟩)
  else .next x

/-! ### Recovery after a broken protocol -/

/-- The verifier lets the value through as a frame, or raises the error that makes
`execute` recover the process. -/
def Handled (v : FrameVerifier) (value : Value F) : Prop :=
  (∃ frame : Frame F, value = .dict frame.items ∧ (v.verifyFrame value).1 = .ok frame) ∨
    ∃ message, (v.verifyFrame value).1 = .error (crashed message) ∧
      recovers (crashed message) = true

theorem handled_iff (v : FrameVerifier) (value : Value F) :
    Handled v value ↔ ¬ v.Unhashable value := by
  have hverdict := v.verdict value
  unfold Handled
  generalize v.verifyFrame value = result at hverdict
  cases hverdict with
  | accepted frame k t object isFrame next =>
    refine iff_of_true (.inl ⟨frame, object, rfl⟩) ?_
    rintro ⟨f, hf, -, htype | hphase⟩
    · obtain ⟨type, hget, hhash⟩ := htype
      have hmember := memberOf_text isFrame.type frameTypes
      have hsame : frame = f := (Frame.mk_eq_of_dict (object.symm.trans hf)).symm
      rw [hsame, memberOf_unhashable.mpr ⟨type, hget, hhash⟩] at hmember
      exact nomatch hmember
    · have hsame : frame = f := (Frame.mk_eq_of_dict (object.symm.trans hf)).symm
      have hraised := FrameVerifier.verifyRequestFrame_unhashable hphase
      rw [← hsame, FrameVerifier.verifyRequestFrame_accepts isFrame.type isFrame.payload next]
        at hraised
      exact nomatch hraised
  | crashed message hashable => exact iff_of_true (.inr ⟨message, rfl, rfl⟩) hashable
  | unhashable unhashable =>
    refine iff_of_false ?_ (not_not_intro unhashable)
    rintro (⟨frame, -, h⟩ | ⟨message, h, -⟩)
    · exact nomatch h
    · exact nomatch h

end

/-- **A malformed frame is recovered from, but for values that cannot be hashed**:
whatever a verifier has been fed, a decoded line is let through or ends in the
recovery of the process exactly when it is no frame with the right stamp whose type
is a list or an object, or whose phase is where a progress may come. -/
theorem crash_recovery_iff {F : Type} [Floats F] (requestId attemptId : PyStr)
    (fed : List (Raw F)) (value : Value F) :
    Handled ((FrameVerifier.start requestId attemptId).run fed).2 value ↔
      ¬ ((FrameVerifier.start requestId attemptId).run fed).2.Unhashable value :=
  handled_iff _ _

/-- A frame whose type is a list. -/
def listTypeLine : PyStr :=
  py "\x7b\"protocol_version\":\"model-worker-ipc.v1\",\"request_id\":\"r\",\"attempt_id\":\"a\",\"sequence\":0,\"type\":[]\x7d"

/-- Its check raises `TypeError`, and nothing is recovered. -/
theorem crash_not_recovered :
    ((loads (.str listTypeLine) : Except WorkerError (Value NoFloat)).toOption.isSome = true) ∧
    ((FrameVerifier.start (py "r") (py "a")).verify
      (.text (.str listTypeLine) : Raw NoFloat)).1 = .error .unhashable ∧
    recovers .unhashable = false :=
  ⟨by decide +kernel, errorOf_eq_some.mp (by decide +kernel), rfl⟩

end Worker
