/-
The registry of the backends.

Callers acquire and release leases, unload backends and sweep the idle ones.  What happens
under the condition of the registry is one step; the factories and the shutdowns of the
backends run between such steps, and so do the two halves of the test of `_released`.

* `acquireStep`, `unloadStep`, `releaseStep` — the next step of each thread;
* `run` — an interleaving.

The clock is valid.
-/
import LlamaRuntime.Python.Dict
import LlamaRuntime.Python.Exception
import Mathlib.Algebra.Order.Ring.Rat
import Mathlib.Order.Fin.Basic
import Mathlib.Data.Prod.Lex
import Mathlib.Data.List.Lex

namespace Inference

inductive BackendMode where
  | STEPPABLE
  | MANAGED
  deriving DecidableEq

inductive BackendLifecycle where
  | UNLOADED
  | LOADING
  | READY
  | DRAINING
  | FAILED
  deriving DecidableEq

/-- A descriptor, with what the registry reads of its capabilities. -/
structure BackendDescriptor where
  name : PyStr
  mode : BackendMode
  models : List PyStr
  supportsStreaming : Bool
  supportsCancellation : Bool
  priority : ℤ
  keepaliveSeconds : ℚ

structure Entry where
  descriptor : BackendDescriptor
  lifecycle : BackendLifecycle := .UNLOADED
  generation : ℕ := 0
  /-- the identity of `instance`, if it is not `None` -/
  target : Option ℕ := none
  activeLeases : ℕ := 0
  lastUsed : ℚ
  failure : Option PyStr := none

structure BackendRegistryError where
  code : PyStr
  detail : PyStr
  deriving DecidableEq

structure BackendLease where
  name : PyStr
  generation : ℕ
  /-- the identity of `instance` -/
  target : Option ℕ
  /-- `_released` -/
  released : Bool := false
  /-- the registry has been told -/
  returned : Bool := false

/-- Where a call of `acquire` stands. -/
inductive AcquireState where
  /-- at the head of the loop over the candidates -/
  | trying
  /-- in the factory -/
  | loading (name : PyStr)
  | loaded (name : PyStr) (target : Option ℕ)
  | failed (name failure code : PyStr)
  | leased (lease : ℕ)
  | raised (error : BackendRegistryError)
  | interrupted

structure Acquirer where
  /-- the model as `repr` writes it -/
  quoted : PyStr
  state : AcquireState := .trying
  /-- the candidates that are left -/
  names : List PyStr
  failures : List PyStr := []

/-- How the factory ends. -/
inductive FactoryAnswer where
  | returns (target : Option ℕ)
  /-- the capabilities are not those of the descriptor; the name as `repr` writes it -/
  | mismatches (quoted : PyStr)
  /-- the type and the text of the exception, and the code if it is a `BackendRegistryError` -/
  | raises (failure : PyStr) (code : Option PyStr)
  /-- by an exception that is not an `Exception` -/
  | interrupts

/-- Where a call of `unload` stands, alone or in the loop of a `sweep`. -/
inductive UnloadState where
  | checking
  | draining (name : PyStr) (target : Option ℕ)
  /-- in `shutdown` -/
  | stopping (name : PyStr) (target : ℕ)
  | stopped (name : PyStr) (succeeded : Bool)
  | interrupted
  deriving DecidableEq

structure Unloader where
  state : UnloadState := .checking
  /-- the backends that are left -/
  names : List PyStr
  replies : List (Except BackendRegistryError Bool) := []

/-- How a shutdown ends. -/
inductive ShutdownAnswer where
  | returns (outcome : Bool)
  | raises
  | interrupts

/-- Where a call of `BackendLease.release` stands. -/
inductive Releaser where
  /-- `_released` has been read, and is false -/
  | read (lease : ℕ)
  /-- `_released` has been set -/
  | marked (lease : ℕ)
  | done (reply : Bool)
  deriving DecidableEq

structure BackendRegistry where
  entries : Dict PyStr Entry := ∅
  leases : List BackendLease := []
  acquirers : List Acquirer := []
  unloaders : List Unloader := []
  releasers : List Releaser := []
  /-- what the factories have returned, by name and generation -/
  loads : List (PyStr × ℕ × Option ℕ) := []

namespace BackendRegistry

def setEntry (name : PyStr) (entry : Entry) (s : BackendRegistry) : BackendRegistry :=
  { s with entries := s.entries.set name entry }

/-- `register` -/
def register (descriptor : BackendDescriptor) (now : ℚ) (s : BackendRegistry) :
    Except BackendRegistryError Unit × BackendRegistry :=
  if s.entries.contains descriptor.name then
    (.error ⟨py "duplicate_backend", descriptor.name⟩, s)
  else (.ok (), s.setEntry descriptor.name { descriptor := descriptor, lastUsed := now })

/-- What a caller requires of a backend. -/
structure Requirements where
  model : PyStr
  /-- the model as `repr` writes it -/
  quoted : PyStr
  mode : Option BackendMode := none
  streaming : Bool := false
  cancellation : Bool := false

def Requirements.admits (r : Requirements) (d : BackendDescriptor) : Bool :=
  r.model ∈ d.models && (r.mode = none || r.mode = some d.mode) &&
    (!r.streaming || d.supportsStreaming) && (!r.cancellation || d.supportsCancellation)

/-- What the candidates are sorted by. -/
def routeKey (d : BackendDescriptor) : Lex (ℤ × PyStr) := toLex (-d.priority, d.name)

/-- `_candidate_names` -/
def candidateNames (r : Requirements) (s : BackendRegistry) : List PyStr :=
  (((s.entries.values.map Entry.descriptor).filter r.admits).mergeSort
    fun a b => routeKey a ≤ routeKey b).map BackendDescriptor.name

/-- The error at the end of `acquire`. -/
def routeError (a : Acquirer) : BackendRegistryError :=
  if a.failures = [] then ⟨py "no_route", py "no backend capability route for model " ++ a.quoted⟩
  else ⟨py "all_backends_failed", List.intercalate (py ", ") a.failures⟩

/-- The lease of the instance of an entry. -/
def lend (name : PyStr) (entry : Entry) (target : Option ℕ) (s : BackendRegistry) :
    ℕ × BackendRegistry :=
  (s.leases.length,
    { s.setEntry name entry with
      leases := s.leases ++ [{ name := name, generation := entry.generation, target := target }] })

/-- The next candidate after a failure. -/
def nextCandidate (a : Acquirer) (name code : PyStr) : Acquirer :=
  { a with state := .trying, failures := a.failures ++ [name ++ py "=" ++ code] }

/-- `_acquire_name`, up to the factory. -/
def tryName (a : Acquirer) (name : PyStr) (names : List PyStr) (now : ℚ) (s : BackendRegistry) :
    Acquirer × BackendRegistry :=
  match s.entries.get? name with
  | none => ({ a with state := .interrupted }, s)
  | some entry =>
    match entry.lifecycle with
    | .LOADING => (a, s)
    | .DRAINING => (nextCandidate { a with names := names } name (py "backend_draining"), s)
    | .READY =>
      match entry.target with
      | none => ({ a with state := .interrupted }, s)
      | some target =>
        let (lease, s) := s.lend name
          { entry with activeLeases := entry.activeLeases + 1, lastUsed := now }
            (some target)
        ({ a with state := .leased lease, names := names }, s)
    | _ =>
      ({ a with state := .loading name, names := names },
        s.setEntry name { entry with lifecycle := .LOADING, failure := none })

/-- The factory ends. -/
def factoryEnds (name : PyStr) : FactoryAnswer → AcquireState
  | .returns target => .loaded name target
  | .mismatches quoted =>
    .failed name (py "BackendRegistryError: capability_mismatch: loaded backend " ++ quoted ++
      py " differs from its declaration") (py "capability_mismatch")
  | .raises failure code => .failed name failure (code.getD (py "backend_load_failed"))
  | .interrupts => .interrupted

/-- The instance is entered, and leased. -/
def enterInstance (a : Acquirer) (name : PyStr) (target : Option ℕ) (now : ℚ)
    (s : BackendRegistry) : Acquirer × BackendRegistry :=
  match s.entries.get? name with
  | none => ({ a with state := .interrupted }, s)
  | some entry =>
    let generation := entry.generation + 1
    let (lease, s) := s.lend name
      { entry with
        target := target
        generation := generation
        activeLeases := 1
        lastUsed := now
        lifecycle := .READY } target
    ({ a with state := .leased lease }, { s with loads := s.loads ++ [(name, generation, target)] })

/-- The failure is entered, and the next candidate is tried. -/
def enterFailure (a : Acquirer) (name failure code : PyStr) (s : BackendRegistry) :
    Acquirer × BackendRegistry :=
  match s.entries.get? name with
  | none => ({ a with state := .interrupted }, s)
  | some entry =>
    (nextCandidate a name code, s.setEntry name { entry with
      lifecycle := .FAILED, failure := some (failure.take 512), target := none })

/-- The next step of an `acquire`. -/
def acquireNext (a : Acquirer) (answer : FactoryAnswer) (now : ℚ) (s : BackendRegistry) :
    Acquirer × BackendRegistry :=
  match a.state with
  | .trying =>
    match a.names with
    | [] => ({ a with state := .raised (routeError a) }, s)
    | name :: names => s.tryName a name names now
  | .loading name => ({ a with state := factoryEnds name answer }, s)
  | .loaded name target => s.enterInstance a name target now
  | .failed name failure code => s.enterFailure a name failure code
  | _ => (a, s)

def acquireStep (i : ℕ) (answer : FactoryAnswer) (now : ℚ) (s : BackendRegistry) :
    BackendRegistry :=
  match s.acquirers[i]? with
  | none => s
  | some a =>
    let (a, s) := s.acquireNext a answer now
    { s with acquirers := s.acquirers.set i a }

/-- `release` of the registry. -/
def release (lease : BackendLease) (now : ℚ) (s : BackendRegistry) : Bool × BackendRegistry :=
  match s.entries.get? lease.name with
  | none => (false, s)
  | some entry =>
    if entry.generation ≠ lease.generation ∨ entry.activeLeases = 0 then (false, s)
    else
      (true, s.setEntry lease.name { entry with
        activeLeases := entry.activeLeases - 1, lastUsed := now })

/-- The registry is told of the release of a lease. -/
def tell (l : ℕ) (lease : BackendLease) (now : ℚ) (s : BackendRegistry) : Bool × BackendRegistry :=
  let (reply, s) := s.release lease now
  (reply, { s with leases := s.leases.set l { lease with returned := true } })

/-- A caller calls `release` of the registry itself. -/
def tellDirectly (l : ℕ) (now : ℚ) (s : BackendRegistry) : BackendRegistry :=
  match s.leases[l]? with
  | none => s
  | some lease => (s.tell l lease now).2

/-- A caller enters `BackendLease.release`. -/
def beginRelease (l : ℕ) (s : BackendRegistry) : BackendRegistry :=
  match s.leases[l]? with
  | none => s
  | some lease =>
    { s with releasers := s.releasers ++ [if lease.released then .done false else .read l] }

/-- The next step of a `BackendLease.release`. -/
def releaseStep (i : ℕ) (now : ℚ) (s : BackendRegistry) : BackendRegistry :=
  match s.releasers[i]? with
  | some (.read l) =>
    match s.leases[l]? with
    | none => s
    | some lease =>
      { s with
        leases := s.leases.set l { lease with released := true }
        releasers := s.releasers.set i (.marked l) }
  | some (.marked l) =>
    match s.leases[l]? with
    | none => s
    | some lease =>
      let (reply, s) := s.tell l lease now
      { s with releasers := s.releasers.set i (.done reply) }
  | _ => s

def replied (u : Unloader) (reply : Except BackendRegistryError Bool) : Unloader :=
  { u with state := .checking, replies := u.replies ++ [reply] }

/-- The first half of `unload`. -/
def beginUnload (u : Unloader) (name : PyStr) (s : BackendRegistry) : Unloader × BackendRegistry :=
  match s.entries.get? name with
  | none => (replied u (.error ⟨py "unknown_backend", name⟩), s)
  | some entry =>
    if entry.lifecycle = .UNLOADED then (replied u (.ok false), s)
    else if entry.activeLeases ≠ 0 then (replied u (.error ⟨py "backend_busy", name⟩), s)
    else if entry.lifecycle ≠ .READY ∧ entry.lifecycle ≠ .FAILED then
      (replied u (.error ⟨py "backend_state_conflict", name⟩), s)
    else
      ({ u with state := .draining name entry.target },
        s.setEntry name { entry with lifecycle := .DRAINING })

/-- The second half of `unload`. -/
def endUnload (u : Unloader) (name : PyStr) (succeeded : Bool) (now : ℚ) (s : BackendRegistry) :
    Unloader × BackendRegistry :=
  match s.entries.get? name with
  | none => ({ u with state := .interrupted }, s)
  | some entry =>
    (replied u (.ok succeeded), s.setEntry name { entry with
      target := none
      lifecycle := if succeeded then .UNLOADED else .FAILED
      failure := if succeeded then none else some (py "shutdown_failed")
      lastUsed := now })

/-- The shutdown ends. -/
def shutdownEnds (name : PyStr) : ShutdownAnswer → UnloadState
  | .returns outcome => .stopped name outcome
  | .raises => .stopped name false
  | .interrupts => .interrupted

/-- The next step of an `unload` or `sweep`; `callable` says whether the instance has a
`shutdown`. -/
def unloadNext (u : Unloader) (callable : Bool) (answer : ShutdownAnswer) (now : ℚ)
    (s : BackendRegistry) : Unloader × BackendRegistry :=
  match u.state with
  | .checking =>
    match u.names with
    | [] => (u, s)
    | name :: names => s.beginUnload { u with names := names } name
  | .draining name none => ({ u with state := .stopped name true }, s)
  | .draining name (some target) =>
    ({ u with state := if callable then .stopping name target else .stopped name true }, s)
  | .stopping name _ => ({ u with state := shutdownEnds name answer }, s)
  | .stopped name succeeded => s.endUnload u name succeeded now
  | .interrupted => (u, s)

def unloadStep (i : ℕ) (callable : Bool) (answer : ShutdownAnswer) (now : ℚ) (s : BackendRegistry) :
    BackendRegistry :=
  match s.unloaders[i]? with
  | none => s
  | some u =>
    let (u, s) := s.unloadNext u callable answer now
    { s with unloaders := s.unloaders.set i u }

/-- The backends `sweep` finds idle. -/
def sweepTargets (now : ℚ) (s : BackendRegistry) : List PyStr :=
  (s.entries.values.filter fun entry =>
    entry.lifecycle = .READY && entry.activeLeases = 0 &&
      entry.descriptor.keepaliveSeconds ≤ now - entry.lastUsed).map fun entry =>
        entry.descriptor.name

end BackendRegistry

/-- What a run may do next. -/
inductive RegistryMove where
  | register (descriptor : BackendDescriptor) (now : ℚ)
  | acquire (requirements : BackendRegistry.Requirements)
  | acquireStep (i : ℕ) (answer : FactoryAnswer) (now : ℚ)
  | release (lease : ℕ)
  | releaseStep (i : ℕ) (now : ℚ)
  | tellDirectly (lease : ℕ) (now : ℚ)
  | unload (name : PyStr)
  | sweep (now : ℚ)
  | unloadStep (i : ℕ) (callable : Bool) (answer : ShutdownAnswer) (now : ℚ)

namespace BackendRegistry

def step (s : BackendRegistry) : RegistryMove → BackendRegistry
  | .register descriptor now => (s.register descriptor now).2
  | .acquire requirements =>
    { s with
      acquirers := s.acquirers ++
        [{ quoted := requirements.quoted, names := s.candidateNames requirements }] }
  | .acquireStep i answer now => s.acquireStep i answer now
  | .release lease => s.beginRelease lease
  | .releaseStep i now => s.releaseStep i now
  | .tellDirectly lease now => s.tellDirectly lease now
  | .unload name => { s with unloaders := s.unloaders ++ [{ names := [name] }] }
  | .sweep now => { s with unloaders := s.unloaders ++ [{ names := s.sweepTargets now }] }
  | .unloadStep i callable answer now => s.unloadStep i callable answer now

def run (moves : List RegistryMove) : BackendRegistry := moves.foldl step {}

end BackendRegistry

end Inference
