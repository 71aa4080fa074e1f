/-
The frames of the model worker's pipe and their verifier.

`FrameVerifier` follows the frames of one request.  A frame is whatever JSON the
worker process has written on a line, so every field is looked at before its type
is known; a value that cannot be hashed makes a test of membership raise.

* `verify`, `verifyRequestFrame` — what the verifier does with a frame, and the
  state it leaves behind, also where it raises;
* `run` — a list of frames fed to a verifier one after the other.
-/
import LlamaRuntime.Worker.StrictJson

namespace Worker

open Json

/-- A decoded object. -/
structure Frame (F : Type) where
  items : List (PyStr × Value F)

section

variable {F : Type}

/-- `frame.get(key)` -/
def Frame.get (frame : Frame F) (key : String) : Option (Value F) :=
  Items.lookup (py key) frame.items

/-- `frame.get(key)`, where it is a string -/
def Frame.text (frame : Frame F) (key : String) : Option PyStr := (frame.get key).bind Value.str?

/-- `frame.get(key)`, where its type is `int` -/
def Frame.int (frame : Frame F) (key : String) : Option ℤ := (frame.get key).bind Value.int?

/-- `frame.get(key)`, where its type is `dict` -/
def Frame.dict (frame : Frame F) (key : String) : Option (Frame F) :=
  ((frame.get key).bind Value.dict?).map Frame.mk

theorem Frame.mk_eq_of_dict {items : List (PyStr × Value F)} {frame : Frame F}
    (h : (Value.dict items : Value F) = .dict frame.items) : frame = ⟨items⟩ := by
  obtain ⟨items'⟩ := frame
  obtain rfl := Value.dict.inj h
  rfl

/-- `hash(value)` does not raise. -/
def hashable (value : Value F) : Bool :=
  value.all fun
    | .list _ => false
    | .dict _ => false
    | _ => true

/-- `value in {...}`, for a set of strings and a value that may be missing -/
def memberOf (value : Option (Value F)) (texts : List String) : Except Raised Bool :=
  match value with
  | none => .ok false
  | some v =>
    if hashable v then .ok (v.str?.any fun s => decide (s ∈ texts.map py)) else .error .unhashable

theorem memberOf_none (texts : List String) :
    memberOf (none : Option (Value F)) texts = .ok false := rfl

theorem memberOf_some (v : Value F) (texts : List String) : memberOf (some v) texts =
    if hashable v then .ok (v.str?.any fun s => decide (s ∈ texts.map py))
    else .error .unhashable := rfl

theorem memberOf_str (s : PyStr) (texts : List String) :
    memberOf (some (.str s : Value F)) texts = .ok (decide (s ∈ texts.map py)) := rfl

theorem memberOf_text {frame : Frame F} {key : String} {s : PyStr} (h : frame.text key = some s) (texts : List String) :
    memberOf (frame.get key) texts = .ok (decide (s ∈ texts.map py)) := by
  obtain ⟨v, hv, hs⟩ := Option.bind_eq_some_iff.mp h
  obtain rfl := Value.str?_eq_some.mp hs
  rw [hv, memberOf_str]

/-- The answer of a test of membership that does not raise. -/
theorem memberOf_ok {value : Option (Value F)} {texts : List String} {b : Bool}
    (h : memberOf value texts = .ok b) :
    b = true ↔ ∃ s, value.bind Value.str? = some s ∧ s ∈ texts.map py := by
  cases value with
  | none =>
    obtain rfl := Except.ok.inj h
    simp
  | some v =>
    unfold memberOf at h
    dsimp only at h
    by_cases hv : hashable v = true
    · rw [if_pos hv] at h
      obtain rfl := Except.ok.inj h
      show _ ↔ ∃ s, v.str? = some s ∧ s ∈ texts.map py
      cases v.str? with
      | none => simp
      | some s => simp
    · rw [if_neg hv] at h
      exact nomatch h

theorem memberOf_error {value : Option (Value F)} {texts : List String} {e : Raised}
    (h : memberOf value texts = .error e) :
    e = .unhashable ∧ ∃ v, value = some v ∧ hashable v = false := by
  cases value with
  | none => exact nomatch h
  | some v =>
    unfold memberOf at h
    dsimp only at h
    by_cases hv : hashable v = true
    · rw [if_pos hv] at h
      exact nomatch h
    · rw [if_neg hv] at h
      exact ⟨(Except.error.inj h).symm, v, rfl, by simpa using hv⟩

theorem memberOf_unhashable {value : Option (Value F)} {texts : List String} :
    memberOf value texts = .error .unhashable ↔ ∃ v, value = some v ∧ hashable v = false := by
  refine ⟨fun h => (memberOf_error h).2, ?_⟩
  rintro ⟨v, rfl, hv⟩
  unfold memberOf
  dsimp only
  rw [if_neg (by simp [hv])]

end

/-- `IPC_VERSION` -/
def ipcVersion : String := "model-worker-ipc.v1"

/-- `FRAME_TYPES` -/
def frameTypes : List String :=
  ["ready", "started", "phase", "final_delta", "heartbeat", "progress", "completed", "failed"]

/-- The phases a `progress` frame may name. -/
def progressPhases : List String := ["prompt_decode", "reasoning", "final"]

def workerCrashed (message : String) : WorkerError := ⟨.worker_crashed, py message, []⟩

/-- `WorkerError("worker_crashed", message)`, raised -/
def crashed (message : String) : Raised := .worker (workerCrashed message)

structure FrameVerifier where
  requestId : PyStr
  attemptId : PyStr
  nextSequence : ℕ := 0
  started : Bool := false
  finalPhase : Bool := false
  terminal : Bool := false

/-- `FrameVerifier(request_id, attempt_id)` -/
def FrameVerifier.start (requestId attemptId : PyStr) : FrameVerifier :=
  { requestId := requestId, attemptId := attemptId }

/-- What `verify` takes: a text, or a frame that has been decoded already. -/
inductive Raw (F : Type) where
  | text (data : Data)
  | object (frame : Frame F)

section

variable {F : Type}

def Raw.decode [Floats F] : Raw F → Except WorkerError (Value F)
  | .text data => loads data
  | .object frame => .ok (.dict frame.items)

namespace FrameVerifier

/-- `raise` where the frame is refused; else the flags are moved. -/
def refuseIf (v : FrameVerifier) (refused : Prop) [Decidable refused] (message : String)
    (moved : FrameVerifier) : Except Raised Unit × FrameVerifier :=
  if refused then (.error (crashed message), v) else (.ok (), moved)

/-- `_verify_request_frame` of a request that has started -/
def verifyStartedFrame (v : FrameVerifier) (frame : Frame F) :
    Except Raised Unit × FrameVerifier :=
  let frameType := frame.text "type"
  if frameType = py "started" then (.error (crashed "duplicate IPC started frame"), v)
  else if frameType = py "phase" then
    v.refuseIf (frame.text "phase" ≠ py "final" ∨ v.finalPhase) "invalid IPC phase transition"
      { v with finalPhase := true }
  else if frameType = py "final_delta" then
    v.refuseIf (¬ v.finalPhase ∨ frame.text "delta" = none ∨ frame.text "delta" = some [])
      "invalid IPC final delta" v
  else if frameType = py "progress" then
    match memberOf (frame.get "phase") progressPhases with
    | .error e => (.error e, v)
    | .ok isPhase =>
      v.refuseIf (¬ isPhase ∨ frame.int "tokens" = none ∨ (frame.int "tokens").any fun n => n < 0)
        "invalid IPC progress payload" v
  else if frameType = py "heartbeat" then
    v.refuseIf (frame.int "sampled_tokens" = none ∨
        (frame.int "sampled_tokens").any fun n => n < 0)
      "invalid IPC heartbeat payload" v
  else if frameType = py "completed" then
    if frame.text "final_text" = none ∨ frame.dict "usage" = none ∨ frame.dict "timing" = none then
      (.error (crashed "invalid IPC completed payload"), v)
    else
      v.refuseIf (¬ v.finalPhase) "IPC completed before final phase" { v with terminal := true }
  else if frameType = py "failed" then
    v.refuseIf (frame.text "error" = none ∨ frame.text "detail" = none)
      "invalid IPC failed payload" { v with terminal := true }
  else (.ok (), v)

/-- `_verify_request_frame` -/
def verifyRequestFrame (v : FrameVerifier) (frame : Frame F) :
    Except Raised Unit × FrameVerifier :=
  let frameType := frame.text "type"
  if frameType = py "ready" then
    (.error (crashed "unexpected ready frame during request"), v)
  else if v.terminal then (.error (crashed "IPC frame received after terminal"), v)
  else if ¬ v.started then
    v.refuseIf (frameType ≠ py "started") "IPC request did not start with started frame"
      { v with started := true }
  else v.verifyStartedFrame frame

/-- `verify` from the check of the version on. -/
def verifyFrame (v : FrameVerifier) (value : Value F) : Except Raised (Frame F) × FrameVerifier :=
  match value with
  | .dict items =>
    let frame : Frame F := ⟨items⟩
    if frame.text "protocol_version" ≠ py ipcVersion then
      (.error (crashed "invalid IPC version or frame"), v)
    else if frame.text "request_id" ≠ v.requestId ∨ frame.text "attempt_id" ≠ v.attemptId then
      (.error (crashed "IPC request/attempt identity mismatch"), v)
    else if frame.int "sequence" ≠ some (v.nextSequence : ℤ) then
      (.error (crashed "IPC sequence desynchronization"), v)
    else
      match memberOf (frame.get "type") frameTypes with
      | .error e => (.error e, v)
      | .ok false => (.error (crashed "unknown IPC frame type"), v)
      | .ok true =>
        match v.verifyRequestFrame frame with
        | (.error e, v) => (.error e, v)
        | (.ok _, v) => (.ok frame, { v with nextSequence := v.nextSequence + 1 })
  | _ => (.error (crashed "invalid IPC version or frame"), v)

variable [Floats F]

/-- `verify` -/
def verify (v : FrameVerifier) (raw : Raw F) : Except Raised (Frame F) × FrameVerifier :=
  match raw.decode with
  | .error _ => (.error (crashed "malformed IPC JSON"), v)
  | .ok value => v.verifyFrame value

/-- The frames that are accepted of those fed to the verifier, and its state at the
end; what is rejected is skipped. -/
def run (v : FrameVerifier) : List (Raw F) → List (Frame F) × FrameVerifier
  | [] => ([], v)
  | raw :: rest =>
    match v.verify raw with
    | (.error _, v) => v.run rest
    | (.ok frame, v) => (frame :: (v.run rest).1, (v.run rest).2)

end FrameVerifier

end

end Worker
