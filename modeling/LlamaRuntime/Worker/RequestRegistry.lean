/-
The life of a request record.

Only `transitionLocked` changes the lifecycle of a record; `compareAndTransition`
and `cancel` call it under the lock of the registry and the condition of the
record, so each of them is one atomic step.
-/
import LlamaRuntime.Worker.StrictJson
import LlamaRuntime.Python.Dict
import LlamaRuntime.Python.Exception
import Mathlib.Data.Rat.Defs

namespace Worker

inductive Lifecycle where
  | RECEIVED
  | PREFLIGHTED
  | QUEUED
  | RUNNING
  | COMPLETED
  | FAILED
  | CANCELLED
  | TIMED_OUT
  deriving DecidableEq

namespace Lifecycle

/-- `TERMINAL` -/
def IsTerminal : Lifecycle → Prop
  | COMPLETED | FAILED | CANCELLED | TIMED_OUT => True
  | _ => False

instance (l : Lifecycle) : Decidable l.IsTerminal := by
  cases l <;> unfold IsTerminal <;> infer_instance

/-- `ALLOWED` -/
def allowed : Lifecycle → List Lifecycle
  | RECEIVED => [PREFLIGHTED, FAILED]
  | PREFLIGHTED => [QUEUED, FAILED]
  | QUEUED => [RUNNING, CANCELLED, TIMED_OUT, FAILED]
  | RUNNING => [COMPLETED, FAILED, CANCELLED, TIMED_OUT]
  | _ => []

end Lifecycle

/-- What is kept as the error of a record: a `WorkerError`, or the code of one. -/
inductive RecordError where
  | error (error : WorkerError)
  | code (code : String)
  deriving DecidableEq

structure RequestRecord (R : Type) where
  requestId : PyStr
  attemptId : PyStr
  queueDeadline : ℚ
  executionTimeout : ℚ
  lifecycle : Lifecycle := .RECEIVED
  timestamps : Dict Lifecycle ℚ := ∅
  cancelEvent : Bool := false
  result : Option R := none
  error : Option RecordError := none

namespace RequestRecord

variable {R : Type}

/-- `_transition_locked`; `clock` is what `_now` answers or raises. -/
def transitionLocked (record : RequestRecord R) (target : Lifecycle) (result : Option R)
    (error : Option RecordError) (clock : Except PyException ℚ) :
    Except PyException Bool × RequestRecord R :=
  if record.lifecycle.IsTerminal then (.ok false, record)
  else if target ∉ record.lifecycle.allowed then
    (.error (.builtin "RuntimeError" "invalid lifecycle transition"), record)
  else
    let record := { record with lifecycle := target }
    match clock with
    | .error exc => (.error exc, record)
    | .ok now =>
      (.ok true,
        { record with
          timestamps := record.timestamps.set target now
          result := result
          error := error })

/-- `compare_and_transition`; a missing predicate is one that holds. -/
def compareAndTransition (record : RequestRecord R) (expected target : Lifecycle)
    (predicate : Except PyException Bool) (result : Option R) (error : Option RecordError)
    (clock : Except PyException ℚ) : Except PyException Bool × RequestRecord R :=
  if record.lifecycle ≠ expected then (.ok false, record)
  else
    match predicate with
    | .error exc => (.error exc, record)
    | .ok false => (.ok false, record)
    | .ok true => record.transitionLocked target result error clock

/-- `RequestRegistry.cancel`, of a record that is registered. -/
def cancel (record : RequestRecord R) (clock : Except PyException ℚ) :
    Except PyException Bool × RequestRecord R :=
  if record.lifecycle.IsTerminal then (.ok false, record)
  else
    let record := { record with cancelEvent := true }
    if record.lifecycle = .QUEUED then
      match record.transitionLocked .CANCELLED none (some (.code "cancelled")) clock with
      | (.error exc, record) => (.error exc, record)
      | (.ok _, record) => (.ok true, record)
    else (.ok true, record)

/-- The record after a transition of the dispatcher: its clock is `time.monotonic`,
which always answers. -/
def moved (record : RequestRecord R) (expected target : Lifecycle) (result : Option R)
    (error : Option RecordError) (now : ℚ) : RequestRecord R :=
  (record.compareAndTransition expected target (.ok true) result error (.ok now)).2

theorem moved_of_eq {record : RequestRecord R} {expected target : Lifecycle} {result : Option R}
    {error : Option RecordError} {now : ℚ} (h : record.lifecycle = expected)
    (hopen : ¬ expected.IsTerminal) (hallowed : target ∈ expected.allowed) :
    record.moved expected target result error now =
      { record with
        lifecycle := target
        timestamps := record.timestamps.set target now
        result := result
        error := error } := by
  subst h
  simp [moved, compareAndTransition, transitionLocked, hopen, hallowed]

theorem moved_of_ne {record : RequestRecord R} {expected target : Lifecycle} {result : Option R}
    {error : Option RecordError} {now : ℚ} (h : record.lifecycle ≠ expected) :
    record.moved expected target result error now = record := by
  simp [moved, compareAndTransition, h]

end RequestRecord

end Worker
