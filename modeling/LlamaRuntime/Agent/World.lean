/-
The surroundings of a service.

* `World` — what outlives one step of a service: the database, the results its
  executor remembers, and a record of what happened, which no code reads;
* `Reply` — what the outside says to one step: clocks, the model, the file
  system, a cancellation token, the lock of the database;
* `Act` — code that takes such steps.  A process may stop between any two.
-/
import LlamaRuntime.Concurrency.Thread
import LlamaRuntime.Agent.Decision
import LlamaRuntime.Agent.EventStore

open Json

namespace Agent

variable {F : Type} [Host F] {α : Type}

structure RawToolResult where
  invocationId : PyStr
  status : ToolInvocationLifecycle
  payload : List UInt8
  summary : PyStr
  sideEffectState : SideEffectState
  errorCode : Option PyStr
  truncated : Bool

/-- What is recorded of the steps of a service. -/
inductive Happening (F : Type) [Host F] where
  /-- an inference starts, for a run with this stream -/
  | inferring (runId : PyStr) (stream : List (AgentEvent F))
  | appended (call : Call F) (outcome : Except Raised ℕ)
  /-- `executor.execute` is entered -/
  | executing (runId invocationId : PyStr)
  /-- the I/O of a tool begins -/
  | touching (invocationId : PyStr)
  /-- `executor.execute` raises -/
  | failing (invocationId : PyStr) (error : Raised)

structure World (F : Type) [Host F] where
  db : Database F
  /-- `_completed` of the executor -/
  completed : Dict PyStr RawToolResult
  happened : List (Happening F)

/-- A path below the root of a search. -/
inductive Entry where
  /-- a symbolic link, or no file -/
  | other
  /-- a file whose reading raises `OSError` -/
  | unreadable
  | file (content : List UInt8)

/-- What the outside says; a step looks at the parts that concern it. -/
structure Reply where
  /-- the write lock of the database could not be had -/
  lockTaken : Bool
  /-- `datetime.now(timezone.utc).isoformat().replace("+00:00", "Z")` -/
  utcNow : PyStr
  /-- `datetime.now(timezone.utc) >= datetime.fromisoformat(...)` -/
  deadlinePassed : Except Raised Bool
  /-- `inference.infer(request)`; `none` is an answer of another type -/
  inference : Except Raised (Option DecisionResponse)
  /-- the text of the path that a scope resolves a ref to -/
  resolved : Except Raised PyStr
  /-- `cancellation.cancelled` -/
  cancelled : Bool
  /-- `(time.monotonic() - started) * 1000 > timeout_ms` -/
  timedOut : Bool
  /-- `Path.read_bytes` -/
  content : Except Raised (List UInt8)
  /-- `sorted(root.rglob("*"))`, as the relative paths -/
  paths : Except Raised (List PyStr)
  /-- what is at one of these paths -/
  entry : Entry
  /-- an artifact is written and verified -/
  artifact : Except Raised Unit

abbrev Act (F : Type) [Host F] (α : Type) : Type := Thread (World F) Reply Raised α

namespace Act

/-- A computation without effects. -/
def lift (result : Except Raised α) : Act F α :=
  match result with
  | .ok a => .pure a
  | .error e => .raise e

/-- A question to the outside. -/
def ask (question : Reply → Except Raised α) : Act F α :=
  .atomic fun w reply => (question reply, w)

def note (happening : Happening F) : Act F Unit :=
  .modify fun w => { w with happened := w.happened ++ [happening] }

end Act

end Agent
