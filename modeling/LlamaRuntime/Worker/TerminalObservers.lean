/-
The request registry and its observers.

Each method of `RequestRegistry` runs under its lock and is one step; the call that
has won the terminal transition of a record then calls the observers, one after
another and outside the locks, from the list it has read under the lock.

* `transition`, `compareAndTransition`, `cancel`, `pruneTerminal` — the methods;
* `notifyNext` — the next step of a call that tells the observers;
* `registry_terminality` — what any interleaving of such steps makes of a record.
-/
import LlamaRuntime.Worker.RequestRegistry
import Mathlib.Data.List.Lex
import Mathlib.Data.Prod.Lex
import Mathlib.Algebra.Order.Ring.Unbundled.Rat

namespace Worker

/-- What an observer does when it is called. -/
inductive ObserverOutcome where
  | returns
  /-- an instance of `Exception` -/
  | raises
  /-- a `BaseException`, which `except Exception` lets through -/
  | interrupts

/-- A call in `_notify_terminal`: the observers still to be called. -/
structure Notification where
  record : ℕ
  rest : List ℕ
  /-- the last observer has raised, and is to be counted -/
  raised : Bool := false
  /-- the call has been left by a `BaseException` -/
  interrupted : Bool := false

/-- `RequestRegistry`: records are named by their place in the order of creation, and
observers by their identity. -/
structure Registry (R : Type) where
  heap : List (RequestRecord R) := []
  records : Dict PyStr ℕ := ∅
  terminalObservers : List ℕ := []
  terminalObserverFailures : ℕ := 0
  notifications : List Notification := []
  /-- the observers that have been called, each with its record -/
  calls : List (ℕ × ℕ) := []

structure RegistryPruneStats where
  scannedRecords : ℕ
  terminalRecords : ℕ
  eligibleRecords : ℕ
  removedRecords : ℕ
  remainingRecords : ℕ
  eligibleRemaining : ℕ
  maxRecords : ℤ
  limitReached : Bool

namespace Registry

variable {R : Type}

/-- `create` -/
def create (requestId attemptId : PyStr) (queueTimeoutMs executionTimeoutMs : ℕ) (now : ℚ)
    (s : Registry R) : ℕ × Registry R :=
  let record : RequestRecord R :=
    { requestId := requestId
      attemptId := attemptId
      queueDeadline := now + queueTimeoutMs / 1000
      executionTimeout := executionTimeoutMs / 1000
      timestamps := (∅ : Dict Lifecycle ℚ).set .RECEIVED now }
  (s.heap.length, { s with
    heap := s.heap ++ [record]
    records := s.records.set requestId s.heap.length })

/-- `_transition_locked`, with the observers it returns. -/
def transitionLocked (e : ℕ) (record : RequestRecord R) (target : Lifecycle) (result : Option R)
    (error : Option RecordError) (now : ℚ) (s : Registry R) :
    (Except PyException Bool × List ℕ) × Registry R :=
  match record.transitionLocked target result error (.ok now) with
  | (.ok true, record) =>
    ((.ok true, if target.IsTerminal then s.terminalObservers else []),
      { s with heap := s.heap.set e record })
  | (reply, record) => ((reply, []), { s with heap := s.heap.set e record })

/-- `_notify_terminal` is entered. -/
def notifyTerminal (e : ℕ) (observers : List ℕ) (s : Registry R) : Registry R :=
  if observers = [] then s
  else { s with notifications := s.notifications ++ [{ record := e, rest := observers }] }

/-- `transition` -/
def transition (e : ℕ) (target : Lifecycle) (result : Option R) (error : Option RecordError)
    (now : ℚ) (s : Registry R) : Except PyException Bool × Registry R :=
  match s.heap[e]? with
  | none => (.ok false, s)
  | some record =>
    let ((reply, observers), s) := s.transitionLocked e record target result error now
    (reply, s.notifyTerminal e observers)

/-- `compare_and_transition`; a missing predicate is one that holds. -/
def compareAndTransition (e : ℕ) (expected target : Lifecycle) (predicate : Except PyException Bool)
    (result : Option R) (error : Option RecordError) (now : ℚ) (s : Registry R) :
    Except PyException Bool × Registry R :=
  match s.heap[e]? with
  | none => (.ok false, s)
  | some record =>
    if record.lifecycle ≠ expected then (.ok false, s)
    else
      match predicate with
      | .error exc => (.error exc, s)
      | .ok false => (.ok false, s)
      | .ok true =>
        let ((reply, observers), s) := s.transitionLocked e record target result error now
        (reply, s.notifyTerminal e observers)

/-- `cancel` -/
def cancel (requestId : PyStr) (now : ℚ) (s : Registry R) : Except PyException Bool × Registry R :=
  match s.records.get? requestId with
  | none => (.ok false, s)
  | some e =>
    match s.heap[e]? with
    | none => (.ok false, s)
    | some record =>
      if record.lifecycle.IsTerminal then (.ok false, s)
      else
        let record := { record with cancelEvent := true }
        if record.lifecycle = .QUEUED then
          match s.transitionLocked e record .CANCELLED none (some (.code "cancelled")) now with
          | ((.error exc, _), s) => (.error exc, s)
          | ((.ok _, observers), s) => (.ok true, s.notifyTerminal e observers)
        else (.ok true, { s with heap := s.heap.set e record })

/-- `add_terminal_observer` -/
def addTerminalObserver (observer : ℕ) (s : Registry R) : Bool × Registry R :=
  if observer ∈ s.terminalObservers then (false, s)
  else (true, { s with terminalObservers := s.terminalObservers ++ [observer] })

/-- `remove_terminal_observer` -/
def removeTerminalObserver (observer : ℕ) (s : Registry R) : Bool × Registry R :=
  if observer ∈ s.terminalObservers then
    (true, { s with terminalObservers := s.terminalObservers.erase observer })
  else (false, s)

/-- The expired terminal records, with the time and the id they are sorted by. -/
def pruneCandidates (ttlSeconds current : ℚ) (s : Registry R) : List (Lex (ℚ × PyStr) × ℕ) :=
  s.records.items.filterMap fun (requestId, e) =>
    s.heap[e]?.bind fun record =>
      if record.lifecycle.IsTerminal then
        (record.timestamps.get? record.lifecycle).bind fun terminalAt =>
          if ttlSeconds ≤ current - terminalAt then some (toLex (terminalAt, requestId), e) else none
      else none

/-- `prune_terminal`; `now` is what it has been given, or `_now()`. -/
def pruneTerminal (ttlSeconds : ℚ) (maxRecords : ℤ) (now : ℚ) (s : Registry R) :
    Except PyException RegistryPruneStats × Registry R :=
  if ttlSeconds < 0 then
    (.error (.builtin "ValueError" "ttl_seconds must be a finite non-negative number"), s)
  else if maxRecords < 0 then
    (.error (.builtin "ValueError" "max_records must be a non-negative integer"), s)
  else
    let candidates := (s.pruneCandidates ttlSeconds now).mergeSort fun a b => a.1 ≤ b.1
    let (removed, records) := (candidates.take maxRecords.toNat).foldl
      (fun (removed, records) candidate =>
        let requestId := (ofLex candidate.1).2
        if records.get? requestId = some candidate.2 then (removed + 1, records.pop requestId)
        else (removed, records)) (0, s.records)
    let eligibleRemaining := candidates.length - removed
    (.ok
      { scannedRecords := s.records.items.length
        terminalRecords := s.records.values.countP fun e =>
          (s.heap[e]?.map fun record => decide record.lifecycle.IsTerminal).getD false
        eligibleRecords := candidates.length
        removedRecords := removed
        remainingRecords := records.items.length
        eligibleRemaining := eligibleRemaining
        maxRecords := maxRecords
        limitReached := 0 < eligibleRemaining ∧ maxRecords ≤ removed },
      { s with records := records })

/-- The next step of the `i`-th call that tells the observers. -/
def notifyNext (i : ℕ) (outcome : ObserverOutcome) (s : Registry R) : Registry R :=
  match s.notifications[i]? with
  | none => s
  | some call =>
    if call.raised then
      { s with
        terminalObserverFailures := s.terminalObserverFailures + 1
        notifications := s.notifications.set i { call with raised := false } }
    else
      match call.rest with
      | [] => s
      | observer :: rest =>
        let next : Notification :=
          match outcome with
          | .returns => { call with rest := rest }
          | .raises => { call with rest := rest, raised := true }
          | .interrupts => { call with rest := [], interrupted := true }
        { s with
          calls := s.calls ++ [(observer, call.record)]
          notifications := s.notifications.set i next }

end Registry

/-- A call of any thread, or the next step of one that tells the observers. -/
inductive RegistryCall (R : Type) where
  | create (requestId attemptId : PyStr) (queueTimeoutMs executionTimeoutMs : ℕ) (now : ℚ)
  | transition (e : ℕ) (target : Lifecycle) (result : Option R) (error : Option RecordError)
      (now : ℚ)
  | compareAndTransition (e : ℕ) (expected target : Lifecycle) (predicate : Except PyException Bool)
      (result : Option R) (error : Option RecordError) (now : ℚ)
  | cancel (requestId : PyStr) (now : ℚ)
  | addTerminalObserver (observer : ℕ)
  | removeTerminalObserver (observer : ℕ)
  | pruneTerminal (ttlSeconds : ℚ) (maxRecords : ℤ) (now : ℚ)
  | notifyNext (i : ℕ) (outcome : ObserverOutcome)

namespace Registry

variable {R : Type}

def step (s : Registry R) : RegistryCall R → Registry R
  | .create requestId attemptId queueTimeoutMs executionTimeoutMs now =>
    (s.create requestId attemptId queueTimeoutMs executionTimeoutMs now).2
  | .transition e target result error now => (s.transition e target result error now).2
  | .compareAndTransition e expected target predicate result error now =>
    (s.compareAndTransition e expected target predicate result error now).2
  | .cancel requestId now => (s.cancel requestId now).2
  | .addTerminalObserver observer => (s.addTerminalObserver observer).2
  | .removeTerminalObserver observer => (s.removeTerminalObserver observer).2
  | .pruneTerminal ttlSeconds maxRecords now => (s.pruneTerminal ttlSeconds maxRecords now).2
  | .notifyNext i outcome => s.notifyNext i outcome

/-- An interleaving of calls, from an empty registry. -/
def run (calls : List (RegistryCall R)) : Registry R := calls.foldl step {}

/-! ### What a step does -/

/-- A record has kept what it says, or has gone on by an allowed transition. -/
inductive RecordChange (r r' : RequestRecord R) : Prop where
  | kept (lifecycle : r'.lifecycle = r.lifecycle) (timestamps : r'.timestamps = r.timestamps)
      (result : r'.result = r.result) (error : r'.error = r.error) : RecordChange r r'
  | moved (allowed : r'.lifecycle ∈ r.lifecycle.allowed) : RecordChange r r'

theorem RecordChange.refl (r : RequestRecord R) : RecordChange r r := .kept rfl rfl rfl rfl

theorem not_terminal_of_allowed {l l' : Lifecycle} (h : l' ∈ l.allowed) : ¬ l.IsTerminal := by
  intro hterminal
  cases l <;> simp [Lifecycle.allowed, Lifecycle.IsTerminal] at h hterminal

/-- A terminal record says what it has said. -/
theorem RecordChange.of_terminal {r r' : RequestRecord R} (h : RecordChange r r')
    (hterminal : r.lifecycle.IsTerminal) :
    r'.lifecycle = r.lifecycle ∧ r'.timestamps = r.timestamps ∧ r'.result = r.result ∧
      r'.error = r.error := by
  cases h with
  | kept lifecycle timestamps result error => exact ⟨lifecycle, timestamps, result, error⟩
  | moved allowed => exact absurd hterminal (not_terminal_of_allowed allowed)

variable {s s' : Registry R}

/-- No record has become terminal, and no observer has been called. -/
structure Quiet (s s' : Registry R) : Prop where
  change : ∀ (e : ℕ) (r : RequestRecord R), s.heap[e]? = some r → ∃ r', s'.heap[e]? = some r' ∧
    RecordChange r r' ∧ (r'.lifecycle.IsTerminal → r.lifecycle.IsTerminal)
  fresh : ∀ (e : ℕ) (r : RequestRecord R), s.heap[e]? = none → s'.heap[e]? = some r →
    r.lifecycle = .RECEIVED
  notifications : s'.notifications = s.notifications
  calls : s'.calls = s.calls
  observers : s.terminalObservers.Nodup → s'.terminalObservers.Nodup

/-- The record has become terminal. -/
structure Won (e : ℕ) (s s' : Registry R) : Prop where
  change : ∃ r r', s.heap[e]? = some r ∧ r'.lifecycle ∈ r.lifecycle.allowed ∧
    r'.lifecycle.IsTerminal ∧ s'.heap = s.heap.set e r'
  notifications : (s.terminalObservers = [] ∧ s'.notifications = s.notifications) ∨
    s'.notifications = s.notifications ++ [{ record := e, rest := s.terminalObservers }]
  calls : s'.calls = s.calls
  observers : s'.terminalObservers = s.terminalObservers

/-- A call that tells the observers has gone on. -/
structure Tells (s s' : Registry R) : Prop where
  heap : s'.heap = s.heap
  observers : s'.terminalObservers = s.terminalObservers
  call : ∃ i call next, s.notifications[i]? = some call ∧ next.record = call.record ∧
    s'.notifications = s.notifications.set i next ∧
      ((s'.calls = s.calls ∧ next.rest = call.rest ∧ next.interrupted = call.interrupted) ∨
      ∃ observer rest, call.rest = observer :: rest ∧
        s'.calls = s.calls ++ [(observer, call.record)] ∧
        ((next.rest = rest ∧ next.interrupted = call.interrupted) ∨
          next.rest = [] ∧ next.interrupted = true))

theorem Quiet.of_heap (hheap : s'.heap = s.heap) (hnotifications : s'.notifications = s.notifications)
    (hcalls : s'.calls = s.calls)
    (hobservers : s.terminalObservers.Nodup → s'.terminalObservers.Nodup) : Quiet s s' := by
  refine ⟨fun e r hget => ⟨r, by rw [hheap]; exact hget, .refl r, id⟩, fun e r hnone hget => ?_,
    hnotifications, hcalls, hobservers⟩
  rw [hheap, hnone] at hget
  exact absurd hget (by simp)

theorem Quiet.refl (s : Registry R) : Quiet s s := .of_heap rfl rfl rfl id

/-- One record keeps its lifecycle, or goes on to one that is not terminal. -/
theorem quiet_set {e : ℕ} {r r' : RequestRecord R} (hget : s.heap[e]? = some r)
    (hchange : RecordChange r r') (hopen : r'.lifecycle.IsTerminal → r.lifecycle.IsTerminal) :
    Quiet s { s with heap := s.heap.set e r' } := by
  have he : e < s.heap.length := (List.getElem?_eq_some_iff.mp hget).1
  refine ⟨fun e' r₁ hget' => ?_, fun e' r₁ hnone hget' => ?_, rfl, rfl, id⟩
  · show ∃ r₂, (s.heap.set e r')[e']? = some r₂ ∧ _
    by_cases heq : e = e'
    · subst heq
      obtain rfl := Option.some_inj.mp (hget.symm.trans hget')
      exact ⟨r', List.getElem?_set_self he, hchange, hopen⟩
    · exact ⟨r₁, (List.getElem?_set_ne heq).trans hget', .refl r₁, id⟩
  · have hlength : s.heap.length ≤ e' := List.getElem?_eq_none_iff.mp hnone
    have hget' : (s.heap.set e r')[e']? = some r₁ := hget'
    rw [List.getElem?_set_ne (by omega), hnone] at hget'
    exact absurd hget' (by simp)

/-- `_transition_locked` and what `_notify_terminal` makes of its observers. -/
theorem transitionLocked_effect {e : ℕ} {r record : RequestRecord R} (hget : s.heap[e]? = some r)
    (hkept : record.lifecycle = r.lifecycle ∧ record.timestamps = r.timestamps ∧
      record.result = r.result ∧ record.error = r.error) (target : Lifecycle) (result : Option R)
    (error : Option RecordError) (now : ℚ) :
    let out := s.transitionLocked e record target result error now
    Quiet s (out.2.notifyTerminal e out.1.2) ∨ Won e s (out.2.notifyTerminal e out.1.2) := by
  obtain ⟨hlifecycle, htimestamps, hresult, herror⟩ := hkept
  have hsame : Quiet s { s with heap := s.heap.set e record } :=
    quiet_set hget (.kept hlifecycle htimestamps hresult herror) (by rw [hlifecycle]; exact id)
  unfold transitionLocked RequestRecord.transitionLocked
  by_cases hterminal : record.lifecycle.IsTerminal
  · rw [if_pos hterminal]
    exact .inl hsame
  rw [if_neg hterminal]
  by_cases hallowed : target ∉ record.lifecycle.allowed
  · rw [if_pos hallowed]
    exact .inl hsame
  rw [if_neg hallowed]
  have hallowed : target ∈ r.lifecycle.allowed := hlifecycle ▸ not_not.mp hallowed
  dsimp only
  by_cases hwins : target.IsTerminal
  · -- the one transition into a terminal lifecycle
    refine .inr ?_
    rw [if_pos hwins]
    unfold notifyTerminal
    by_cases hnone : s.terminalObservers = []
    · rw [if_pos hnone]
      exact ⟨⟨r, _, hget, hallowed, hwins, rfl⟩, .inl ⟨hnone, rfl⟩, rfl, rfl⟩
    · rw [if_neg hnone]
      exact ⟨⟨r, _, hget, hallowed, hwins, rfl⟩, .inr rfl, rfl, rfl⟩
  · rw [if_neg hwins]
    exact .inl (quiet_set hget (.moved hallowed) fun hc => absurd hc hwins)

theorem notifyNext_effect (i : ℕ) (outcome : ObserverOutcome) :
    Quiet s (s.notifyNext i outcome) ∨ Tells s (s.notifyNext i outcome) := by
  unfold notifyNext
  cases hcall : s.notifications[i]? with
  | none => exact .inl (.refl s)
  | some call =>
    dsimp only
    by_cases hraised : call.raised = true
    · rw [if_pos hraised]
      exact .inr ⟨rfl, rfl, i, call, { call with raised := false }, hcall, rfl, rfl,
        .inl ⟨rfl, rfl, rfl⟩⟩
    · rw [if_neg hraised]
      cases hrest : call.rest with
      | nil => exact .inl (.refl s)
      | cons observer rest =>
        refine .inr ⟨rfl, rfl, i, call, _, hcall, ?_, rfl, .inr ⟨observer, rest, hrest, rfl, ?_⟩⟩
        · cases outcome <;> rfl
        · cases outcome with
          | returns => exact .inl ⟨rfl, rfl⟩
          | raises => exact .inl ⟨rfl, rfl⟩
          | interrupts => exact .inr ⟨rfl, rfl⟩

theorem transition_effect (e : ℕ) (target : Lifecycle) (result : Option R)
    (error : Option RecordError) (now : ℚ) :
    Quiet s (s.transition e target result error now).2 ∨
      Won e s (s.transition e target result error now).2 := by
  unfold transition
  cases hget : s.heap[e]? with
  | none => exact .inl (.refl s)
  | some record => exact transitionLocked_effect hget ⟨rfl, rfl, rfl, rfl⟩ target result error now

theorem compareAndTransition_effect (e : ℕ) (expected target : Lifecycle)
    (predicate : Except PyException Bool) (result : Option R) (error : Option RecordError) (now : ℚ) :
    Quiet s (s.compareAndTransition e expected target predicate result error now).2 ∨
      Won e s (s.compareAndTransition e expected target predicate result error now).2 := by
  unfold compareAndTransition
  cases hget : s.heap[e]? with
  | none => exact .inl (.refl s)
  | some record =>
    dsimp only
    by_cases hexpected : record.lifecycle ≠ expected
    · rw [if_pos hexpected]
      exact .inl (.refl s)
    rw [if_neg hexpected]
    match predicate with
    | .error exc => exact .inl (.refl s)
    | .ok false => exact .inl (.refl s)
    | .ok true =>
      exact transitionLocked_effect hget ⟨rfl, rfl, rfl, rfl⟩ target result error now

theorem cancel_effect (requestId : PyStr) (now : ℚ) :
    Quiet s (s.cancel requestId now).2 ∨ ∃ e, Won e s (s.cancel requestId now).2 := by
  unfold cancel
  cases hid : s.records.get? requestId with
  | none => exact .inl (.refl s)
  | some e =>
    dsimp only
    cases hget : s.heap[e]? with
    | none => exact .inl (.refl s)
    | some record =>
      dsimp only
      by_cases hterminal : record.lifecycle.IsTerminal
      · rw [if_pos hterminal]
        exact .inl (.refl s)
      rw [if_neg hterminal]
      by_cases hqueued : record.lifecycle = .QUEUED
      · rw [if_pos hqueued]
        let flagged : RequestRecord R := { record with cancelEvent := true }
        have hkept : flagged.lifecycle = record.lifecycle ∧ flagged.timestamps = record.timestamps ∧
            flagged.result = record.result ∧ flagged.error = record.error := ⟨rfl, rfl, rfl, rfl⟩
        have heffect := transitionLocked_effect hget hkept .CANCELLED none
          (some (.code "cancelled")) now
        dsimp only [flagged] at heffect
        rcases hout : s.transitionLocked e { record with cancelEvent := true } .CANCELLED none
          (some (.code "cancelled")) now with ⟨⟨reply, observers⟩, s'⟩
        rw [hout] at heffect
        cases reply with
        | ok changed => exact heffect.imp_right fun hwon => ⟨e, hwon⟩
        | error exc =>
          -- no observers come with an error
          have hnone : observers = [] := by
            unfold transitionLocked at hout
            split at hout <;> simp_all
          rw [hnone] at heffect
          exact heffect.imp_right fun hwon => ⟨e, hwon⟩
      · rw [if_neg hqueued]
        exact .inl (quiet_set hget (.kept rfl rfl rfl rfl) id)

theorem pruneTerminal_effect (ttlSeconds : ℚ) (maxRecords : ℤ) (now : ℚ) :
    Quiet s (s.pruneTerminal ttlSeconds maxRecords now).2 := by
  unfold pruneTerminal
  split_ifs
  · exact .refl s
  · exact .refl s
  · exact .of_heap rfl rfl rfl id

/-- What a call does that does not go on telling the observers. -/
theorem call_effect (s : Registry R) (c : RegistryCall R)
    (hcall : ∀ i outcome, c ≠ .notifyNext i outcome) :
    Quiet s (s.step c) ∨ ∃ e, Won e s (s.step c) := by
  cases c with
  | create requestId attemptId queueTimeoutMs executionTimeoutMs now =>
    refine .inl ⟨fun e r hget => ⟨r, ?_, .refl r, id⟩, fun e r hnone hget => ?_, rfl, rfl, id⟩
    · exact (List.getElem?_append_left (List.getElem?_eq_some_iff.mp hget).1).trans hget
    · have hget : (s.heap ++ [_])[e]? = some r := hget
      rw [List.getElem?_append_right (List.getElem?_eq_none_iff.mp hnone)] at hget
      obtain rfl := List.mem_singleton.mp (List.mem_of_getElem? hget)
      rfl
  | transition e target result error now =>
    exact (transition_effect e target result error now).imp_right fun hwon => ⟨e, hwon⟩
  | compareAndTransition e expected target predicate result error now =>
    exact (compareAndTransition_effect e expected target predicate result error now).imp_right
      fun hwon => ⟨e, hwon⟩
  | cancel requestId now => exact cancel_effect requestId now
  | addTerminalObserver observer =>
    show Quiet s (s.addTerminalObserver observer).2 ∨ _
    unfold addTerminalObserver
    split_ifs with hmem
    · exact .inl (.refl s)
    · refine .inl (.of_heap rfl rfl rfl fun hnodup => ?_)
      show (s.terminalObservers ++ [observer]).Nodup
      rw [← List.concat_eq_append]
      exact hnodup.concat hmem
  | removeTerminalObserver observer =>
    show Quiet s (s.removeTerminalObserver observer).2 ∨ _
    unfold removeTerminalObserver
    split_ifs
    · exact .inl (.of_heap rfl rfl rfl fun hnodup => hnodup.erase observer)
    · exact .inl (.refl s)
  | pruneTerminal ttlSeconds maxRecords now =>
    exact .inl (pruneTerminal_effect ttlSeconds maxRecords now)
  | notifyNext i outcome => exact absurd rfl (hcall i outcome)

theorem step_effect (s : Registry R) (c : RegistryCall R) :
    Quiet s (s.step c) ∨ (∃ e, Won e s (s.step c)) ∨ Tells s (s.step c) := by
  cases c with
  | notifyNext i outcome => exact (notifyNext_effect i outcome).imp_right .inr
  | _ => exact (call_effect s _ (fun i outcome h => by cases h)).imp_right .inl

/-! ### What the steps keep -/

theorem Won.other {e e' : ℕ} (h : Won e s s') (hne : e ≠ e') : s'.heap[e']? = s.heap[e']? := by
  obtain ⟨r, r', _, _, _, hheap⟩ := h.change
  rw [hheap, List.getElem?_set_ne hne]

theorem Won.self {e : ℕ} (h : Won e s s') : ∃ r r', s.heap[e]? = some r ∧ s'.heap[e]? = some r' ∧
    r'.lifecycle ∈ r.lifecycle.allowed ∧ r'.lifecycle.IsTerminal := by
  obtain ⟨r, r', hget, hallowed, hterminal, hheap⟩ := h.change
  refine ⟨r, r', hget, ?_, hallowed, hterminal⟩
  rw [hheap, List.getElem?_set_self (List.getElem?_eq_some_iff.mp hget).1]

theorem step_change (s : Registry R) (c : RegistryCall R) {e : ℕ} {r : RequestRecord R}
    (hget : s.heap[e]? = some r) : ∃ r', (s.step c).heap[e]? = some r' ∧ RecordChange r r' := by
  rcases step_effect s c with hquiet | ⟨e', hwon⟩ | htells
  · obtain ⟨r', hget', hchange, _⟩ := hquiet.change e r hget
    exact ⟨r', hget', hchange⟩
  · by_cases heq : e' = e
    · subst heq
      obtain ⟨r₁, r', hget₁, hget', hallowed, _⟩ := hwon.self
      obtain rfl := Option.some_inj.mp (hget.symm.trans hget₁)
      exact ⟨r', hget', .moved hallowed⟩
    · exact ⟨r, (hwon.other heq).trans hget, .refl r⟩
  · exact ⟨r, by rw [htells.heap]; exact hget, .refl r⟩

/-- The lifecycle of the record, where there is one. -/
def lifecycleOf (e : ℕ) (s : Registry R) : Option Lifecycle := s.heap[e]?.map RequestRecord.lifecycle

/-- The record is there, and terminal. -/
def Ended (l : Option Lifecycle) : Prop := ∃ l', l = some l' ∧ l'.IsTerminal

instance (l : Option Lifecycle) : Decidable (Ended l) :=
  match l with
  | none => isFalse fun ⟨_, h, _⟩ => absurd h (by simp)
  | some l => decidable_of_iff l.IsTerminal (by simp [Ended])

theorem ended_iff {e : ℕ} : Ended (s.lifecycleOf e) ↔
    ∃ r, s.heap[e]? = some r ∧ r.lifecycle.IsTerminal := by
  constructor
  · rintro ⟨l, hl, hterminal⟩
    obtain ⟨r, hget, rfl⟩ := Option.map_eq_some_iff.mp hl
    exact ⟨r, hget, hterminal⟩
  · rintro ⟨r, hget, hterminal⟩
    exact ⟨r.lifecycle, by rw [lifecycleOf, hget]; rfl, hterminal⟩

theorem Ended.step {e : ℕ} (h : Ended (s.lifecycleOf e)) (c : RegistryCall R) :
    Ended ((s.step c).lifecycleOf e) := by
  obtain ⟨r, hget, hterminal⟩ := ended_iff.mp h
  obtain ⟨r', hget', hchange⟩ := step_change s c hget
  refine ended_iff.mpr ⟨r', hget', ?_⟩
  rw [(hchange.of_terminal hterminal).1]
  exact hterminal

/-- The observers that have been called for the record. -/
def callsOf (e : ℕ) (s : Registry R) : List ℕ :=
  (s.calls.filter fun call => call.2 = e).map Prod.fst

/-- The observers that are still to be called for the record. -/
def due (e : ℕ) (s : Registry R) : List ℕ :=
  (s.notifications.filter fun call => call.record = e).flatMap Notification.rest

/-- An observer of the record has raised what is no `Exception`. -/
def Interrupted (e : ℕ) (s : Registry R) : Prop :=
  ∃ call ∈ s.notifications, call.record = e ∧ call.interrupted = true

/-- Only terminal records are told of, each by one call. -/
structure Sound (s : Registry R) : Prop where
  told : ∀ call ∈ s.notifications, Ended (s.lifecycleOf call.record)
  called : ∀ call ∈ s.calls, Ended (s.lifecycleOf call.2)
  unique : (s.notifications.map Notification.record).Nodup
  observers : s.terminalObservers.Nodup

theorem sound_empty : Sound ({} : Registry R) :=
  ⟨fun _ h => absurd h List.not_mem_nil, fun _ h => absurd h List.not_mem_nil, List.nodup_nil,
    List.nodup_nil⟩

theorem map_set {calls : List Notification} {i : ℕ} {call next : Notification}
    (hcall : calls[i]? = some call) (hrecord : next.record = call.record) :
    (calls.set i next).map Notification.record = calls.map Notification.record := by
  obtain ⟨hi, hcall⟩ := List.getElem?_eq_some_iff.mp hcall
  rw [List.map_set, hrecord, ← hcall, ← List.getElem_map Notification.record (h := by simpa)]
  exact List.set_getElem_self _

theorem Sound.step (h : Sound s) (c : RegistryCall R) : Sound (s.step c) := by
  have hended : ∀ e, Ended (s.lifecycleOf e) → Ended ((s.step c).lifecycleOf e) :=
    fun e he => he.step c
  rcases step_effect s c with hquiet | ⟨e, hwon⟩ | htells
  · refine ⟨fun call hcall => ?_, fun call hcall => ?_, ?_, hquiet.observers h.observers⟩
    · exact hended _ (h.told call (hquiet.notifications ▸ hcall))
    · exact hended _ (h.called call (hquiet.calls ▸ hcall))
    · rw [hquiet.notifications]
      exact h.unique
  · obtain ⟨r, r', hget, hget', hallowed, hterminal⟩ := hwon.self
    have hopen : ¬ Ended (s.lifecycleOf e) := by
      intro hc
      obtain ⟨r₁, hget₁, hterminal₁⟩ := ended_iff.mp hc
      obtain rfl := Option.some_inj.mp (hget.symm.trans hget₁)
      exact not_terminal_of_allowed hallowed hterminal₁
    have hnow : Ended ((s.step c).lifecycleOf e) := ended_iff.mpr ⟨r', hget', hterminal⟩
    refine ⟨fun call hcall => ?_, fun call hcall => ?_, ?_, ?_⟩
    · rcases hwon.notifications with ⟨_, heq⟩ | heq
      · exact hended _ (h.told call (heq ▸ hcall))
      · rw [heq] at hcall
        rcases List.mem_append.mp hcall with hcall | hcall
        · exact hended _ (h.told call hcall)
        · obtain rfl := List.mem_singleton.mp hcall
          exact hnow
    · exact hended _ (h.called call (hwon.calls ▸ hcall))
    · rcases hwon.notifications with ⟨_, heq⟩ | heq
      · rw [heq]
        exact h.unique
      · -- nobody has told of the record yet
        rw [heq, List.map_append, List.map_singleton, ← List.concat_eq_append]
        refine h.unique.concat fun hmem => hopen ?_
        obtain ⟨call, hcall, hrecord⟩ := List.mem_map.mp hmem
        have hrecord : call.record = e := hrecord
        exact hrecord ▸ h.told call hcall
    · rw [hwon.observers]
      exact h.observers
  · obtain ⟨i, call, next, hcall, hrecord, hnotifications, hcalls⟩ := htells.call
    have hmem : call ∈ s.notifications := List.mem_of_getElem? hcall
    refine ⟨fun call' hcall' => ?_, fun call' hcall' => ?_, ?_, ?_⟩
    · rw [hnotifications] at hcall'
      rcases List.mem_or_eq_of_mem_set hcall' with hcall' | rfl
      · exact hended _ (h.told call' hcall')
      · rw [hrecord]
        exact hended _ (h.told call hmem)
    · rcases hcalls with ⟨heq, _⟩ | ⟨observer, rest, _, heq, _⟩
      · exact hended _ (h.called call' (heq ▸ hcall'))
      · rw [heq] at hcall'
        rcases List.mem_append.mp hcall' with hcall' | hcall'
        · exact hended _ (h.called call' hcall')
        · obtain rfl := List.mem_singleton.mp hcall'
          exact hended _ (h.told call hmem)
    · rw [hnotifications, map_set hcall hrecord]
      exact h.unique
    · rw [htells.observers]
      exact h.observers

/-! ### Telling the observers -/

/-- The observers of the snapshot are called in turn; what is lost is lost by an
interruption. -/
def Telling (e : ℕ) (snapshot : List ℕ) (s : Registry R) : Prop :=
  ∃ lost, s.callsOf e ++ s.due e ++ lost = snapshot ∧ (lost ≠ [] → s.Interrupted e)

theorem Telling.congr {e : ℕ} {snapshot : List ℕ} (h : Telling e snapshot s)
    (hcalls : s'.callsOf e = s.callsOf e) (hdue : s'.due e = s.due e)
    (hinterrupted : s.Interrupted e → s'.Interrupted e) : Telling e snapshot s' := by
  obtain ⟨lost, heq, hlost⟩ := h
  exact ⟨lost, by rw [hcalls, hdue]; exact heq, fun hne => hinterrupted (hlost hne)⟩

/-- One call in the middle of the others. -/
theorem split_set {calls : List Notification} {i : ℕ} {call : Notification}
    (hcall : calls[i]? = some call) (next : Notification) :
    ∃ before after, calls = before ++ call :: after ∧ calls.set i next = before ++ next :: after := by
  obtain ⟨hi, hcall⟩ := List.getElem?_eq_some_iff.mp hcall
  obtain ⟨before, after, heq, _, hset⟩ := @List.exists_of_set _ i next calls hi
  rw [hcall] at heq
  exact ⟨before, after, heq, hset⟩

/-- A call that tells the observers calls `more` of them, and drops others: those that were called
for a record and those that are due are the same as before, without the dropped ones. -/
theorem told_set (hs : Sound s) {i : ℕ} {call next : Notification} (more dropped : List ℕ)
    (hcall : s.notifications[i]? = some call) (hrecord : next.record = call.record)
    (hnotifications : s'.notifications = s.notifications.set i next)
    (hcalls : s'.calls = s.calls ++ more.map fun observer => (observer, call.record))
    (hrest : call.rest = more ++ next.rest ++ dropped) (e : ℕ) :
    s'.callsOf e ++ s'.due e ++ (if call.record = e then dropped else []) =
      s.callsOf e ++ s.due e := by
  obtain ⟨before, after, hsplit, hset⟩ := split_set hcall next
  rw [hset] at hnotifications
  by_cases heq : call.record = e
  · -- no other call tells of the record
    have hunique := hs.unique
    rw [hsplit, List.map_append, List.map_cons, List.nodup_middle, List.nodup_cons,
      ← List.map_append] at hunique
    have hnone : ∀ other ∈ before ++ after, ¬ other.record = e := by
      intro other hother hc
      exact hunique.1 (List.mem_map.mpr ⟨other, hother, hc.trans heq.symm⟩)
    have hbefore : before.filter (fun other => other.record = e) = [] :=
      List.filter_eq_nil_iff.mpr fun other hother hc =>
        hnone other (List.mem_append_left _ hother) (of_decide_eq_true hc)
    have hafter : after.filter (fun other => other.record = e) = [] :=
      List.filter_eq_nil_iff.mpr fun other hother hc =>
        hnone other (List.mem_append_right _ hother) (of_decide_eq_true hc)
    have hdue : ∀ {calls : Registry R} {one : Notification},
        calls.notifications = before ++ one :: after → one.record = e → calls.due e = one.rest := by
      intro calls one hcalls hone
      rw [due, hcalls, List.filter_append, List.filter_cons, if_pos (decide_eq_true hone), hbefore,
        hafter]
      simp
    have hcalled : s'.callsOf e = s.callsOf e ++ more := by
      rw [callsOf, hcalls, List.filter_append, List.map_append, callsOf]
      simp [heq, List.filter_map, Function.comp_def]
    rw [if_pos heq, hcalled, hdue hsplit heq, hdue hnotifications (hrecord.trans heq), hrest]
    simp
  · have hnext : ¬ next.record = e := fun hc => heq (hrecord.symm.trans hc)
    have hcalled : s'.callsOf e = s.callsOf e := by
      rw [callsOf, hcalls, List.filter_append, callsOf]
      simp [heq]
    rw [if_neg heq, hcalled, due, hnotifications, List.filter_append,
      List.filter_cons_of_neg (by simpa using hnext), due, hsplit, List.filter_append,
      List.filter_cons_of_neg (by simpa using heq), List.append_nil]

theorem Interrupted.set {e i : ℕ} {call next : Notification} (h : s.Interrupted e)
    (hcall : s.notifications[i]? = some call) (hrecord : next.record = call.record)
    (hnotifications : s'.notifications = s.notifications.set i next)
    (hkeeps : call.interrupted = true → next.interrupted = true) : s'.Interrupted e := by
  obtain ⟨before, after, hsplit, hset⟩ := split_set hcall next
  obtain ⟨other, hother, hrecord', hinterrupted⟩ := h
  rw [hset] at hnotifications
  rw [hsplit] at hother
  rcases List.mem_append.mp hother with hmem | hmem
  · exact ⟨other, by simp [hnotifications, hmem], hrecord', hinterrupted⟩
  · rcases List.mem_cons.mp hmem with rfl | hmem
    · exact ⟨next, by simp [hnotifications], hrecord.trans hrecord', hkeeps hinterrupted⟩
    · exact ⟨other, by simp [hnotifications, hmem], hrecord', hinterrupted⟩

theorem Telling.tells {e : ℕ} {snapshot : List ℕ} (h : Telling e snapshot s) (hs : Sound s)
    (htells : Tells s s') : Telling e snapshot s' := by
  obtain ⟨i, call, next, hcall, hrecord, hnotifications, hcalls⟩ := htells.call
  obtain ⟨lost, htotal, hlost⟩ := h
  rcases hcalls with ⟨hsame, hrest, hinterrupted⟩ | ⟨observer, rest, hrest, hmore, hnext⟩
  · have hset := told_set hs [] [] hcall hrecord hnotifications
      (by rw [hsame]; exact (List.append_nil _).symm) (by simp [hrest]) e
    rw [ite_self, List.append_nil] at hset
    exact ⟨lost, by rw [hset]; exact htotal, fun hne => (hlost hne).set hcall hrecord hnotifications
      fun h => hinterrupted.trans h⟩
  · rcases hnext with ⟨hnext, hinterrupted⟩ | ⟨hnext, hinterrupted⟩
    · have hset := told_set hs [observer] [] hcall hrecord hnotifications
        hmore (by rw [hrest, hnext]; simp) e
      rw [ite_self, List.append_nil] at hset
      exact ⟨lost, by rw [hset]; exact htotal, fun hne => (hlost hne).set hcall hrecord
        hnotifications fun h => hinterrupted.trans h⟩
    · -- what was due is lost by the interruption
      have hset := told_set hs [observer] rest hcall hrecord hnotifications
        hmore (by rw [hrest, hnext]; rfl) e
      refine ⟨(if call.record = e then rest else []) ++ lost, ?_, fun hne => ?_⟩
      · rw [← List.append_assoc, hset]
        exact htotal
      · by_cases heq : call.record = e
        · refine ⟨next, ?_, hrecord.trans heq, hinterrupted⟩
          rw [hnotifications]
          exact List.mem_set (List.getElem?_eq_some_iff.mp hcall).1 next
        · rw [if_neg heq, List.nil_append] at hne
          exact (hlost hne).set hcall hrecord hnotifications fun _ => hinterrupted

/-- Other calls leave what is told of a terminal record as it is. -/
theorem told_effect {e : ℕ} (hended : Ended (s.lifecycleOf e))
    (heffect : Quiet s s' ∨ ∃ e', Won e' s s') :
    s'.callsOf e = s.callsOf e ∧ s'.due e = s.due e ∧ (s.Interrupted e → s'.Interrupted e) := by
  rcases heffect with hquiet | ⟨e', hwon⟩
  · refine ⟨?_, ?_, ?_⟩
    · rw [callsOf, hquiet.calls, callsOf]
    · rw [due, hquiet.notifications, due]
    · rw [Interrupted, Interrupted, hquiet.notifications]
      exact id
  · -- another record has become terminal
    have hne : ¬ e' = e := by
      rintro rfl
      obtain ⟨r, r', hget, _, hallowed, _⟩ := hwon.self
      obtain ⟨r₁, hget₁, hterminal⟩ := ended_iff.mp hended
      obtain rfl := Option.some_inj.mp (hget.symm.trans hget₁)
      exact not_terminal_of_allowed hallowed hterminal
    refine ⟨by rw [callsOf, hwon.calls, callsOf], ?_, ?_⟩
    · rcases hwon.notifications with ⟨_, heq⟩ | heq
      · rw [due, heq, due]
      · rw [due, heq, List.filter_append, List.filter_cons_of_neg (by simpa using hne),
          List.filter_nil, List.append_nil, due]
    · rintro ⟨call, hcall, hrest⟩
      refine ⟨call, ?_, hrest⟩
      rcases hwon.notifications with ⟨_, heq⟩ | heq
      · exact heq ▸ hcall
      · rw [heq]
        exact List.mem_append_left _ hcall

theorem Telling.step {e : ℕ} {snapshot : List ℕ} (h : Telling e snapshot s) (hs : Sound s)
    (hended : Ended (s.lifecycleOf e)) (c : RegistryCall R) : Telling e snapshot (s.step c) := by
  rcases step_effect s c with hquiet | hwon | htells
  · obtain ⟨hcalls, hdue, hinterrupted⟩ := told_effect hended (.inl hquiet)
    exact h.congr hcalls hdue hinterrupted
  · obtain ⟨hcalls, hdue, hinterrupted⟩ := told_effect hended (.inr hwon)
    exact h.congr hcalls hdue hinterrupted
  · exact h.tells hs htells

/-- The step in which a record becomes terminal takes the snapshot. -/
theorem told_of_ended (hs : Sound s) {e : ℕ} {c : RegistryCall R}
    (hopen : ¬ Ended (s.lifecycleOf e)) (hended : Ended ((s.step c).lifecycleOf e)) :
    (s.step c).callsOf e ++ (s.step c).due e = s.terminalObservers := by
  have hcalls : s.callsOf e = [] := by
    rw [callsOf, List.map_eq_nil_iff, List.filter_eq_nil_iff]
    intro call hcall hc
    exact hopen (of_decide_eq_true hc ▸ hs.called call hcall)
  have hdue : s.notifications.filter (fun call => call.record = e) = [] := by
    rw [List.filter_eq_nil_iff]
    intro call hcall hc
    exact hopen (of_decide_eq_true hc ▸ hs.told call hcall)
  obtain ⟨r', hget', hterminal⟩ := ended_iff.mp hended
  rcases step_effect s c with hquiet | ⟨e', hwon⟩ | htells
  · cases hget : s.heap[e]? with
    | none =>
      have hreceived := hquiet.fresh e r' hget hget'
      rw [hreceived] at hterminal
      exact absurd hterminal (by simp [Lifecycle.IsTerminal])
    | some r =>
      obtain ⟨r₁, hget₁, _, hback⟩ := hquiet.change e r hget
      obtain rfl := Option.some_inj.mp (hget'.symm.trans hget₁)
      exact absurd (ended_iff.mpr ⟨r, hget, hback hterminal⟩) hopen
  · have heq : e' = e := by
      by_contra hne
      rw [hwon.other hne] at hget'
      exact hopen (ended_iff.mpr ⟨r', hget', hterminal⟩)
    subst heq
    have hcalled : (s.step c).callsOf e' = [] := by rw [callsOf, hwon.calls]; exact hcalls
    rw [hcalled]
    rcases hwon.notifications with ⟨hnone, heq⟩ | heq
    · rw [due, heq, hdue, hnone]
      rfl
    · rw [due, heq, List.filter_append, hdue]
      simp
  · rw [htells.heap] at hget'
    exact absurd (ended_iff.mpr ⟨r', hget', hterminal⟩) hopen

theorem telling_of_ended (hs : Sound s) {e : ℕ} {c : RegistryCall R}
    (hopen : ¬ Ended (s.lifecycleOf e)) (hended : Ended ((s.step c).lifecycleOf e)) :
    Telling e s.terminalObservers (s.step c) :=
  ⟨[], (List.append_nil _).trans (told_of_ended hs hopen hended), fun hne => absurd rfl hne⟩

/-! ### Runs -/

/-- What becomes of a lifecycle in one step: nothing, the creation of the record, or an
allowed transition. -/
def Follows (a b : Option Lifecycle) : Prop :=
  a = b ∨ (a = none ∧ b = some .RECEIVED) ∨ ∃ l l', a = some l ∧ b = some l' ∧ l' ∈ l.allowed

/-- The lifecycle of the record before each step, and at the end. -/
def trail (e : ℕ) : Registry R → List (RegistryCall R) → List (Option Lifecycle)
  | s, [] => [s.lifecycleOf e]
  | s, c :: rest => s.lifecycleOf e :: trail e (s.step c) rest

/-- How often a terminal lifecycle is entered. -/
def terminalEntries : List (Option Lifecycle) → ℕ
  | a :: b :: rest => (if ¬ Ended a ∧ Ended b then 1 else 0) + terminalEntries (b :: rest)
  | _ => 0

theorem follows_step (s : Registry R) (c : RegistryCall R) (e : ℕ) :
    Follows (s.lifecycleOf e) ((s.step c).lifecycleOf e) := by
  cases hget : s.heap[e]? with
  | some r =>
    obtain ⟨r', hget', hchange⟩ := step_change s c hget
    rw [lifecycleOf, lifecycleOf, hget, hget']
    cases hchange with
    | kept lifecycle _ _ _ => exact .inl (congrArg some lifecycle.symm)
    | moved allowed => exact .inr (.inr ⟨_, _, rfl, rfl, allowed⟩)
  | none =>
    cases hget' : (s.step c).heap[e]? with
    | none =>
      rw [lifecycleOf, lifecycleOf, hget, hget']
      exact .inl rfl
    | some r' =>
      have hreceived : r'.lifecycle = .RECEIVED := by
        rcases step_effect s c with hquiet | ⟨e', hwon⟩ | htells
        · exact hquiet.fresh e r' hget hget'
        · by_cases heq : e' = e
          · subst heq
            obtain ⟨r, _, hsome, _⟩ := hwon.self
            exact absurd (hget.symm.trans hsome) (by simp)
          · exact absurd (hget.symm.trans ((hwon.other heq).symm.trans hget')) (by simp)
        · exact absurd (hget.symm.trans (htells.heap ▸ hget')) (by simp)
      rw [lifecycleOf, lifecycleOf, hget, hget']
      exact .inr (.inl ⟨rfl, congrArg some hreceived⟩)

theorem trail_chain (e : ℕ) : ∀ (calls : List (RegistryCall R)) (s : Registry R),
    (trail e s calls).IsChain Follows
  | [], _ => List.isChain_singleton _
  | c :: [], s => by
    show [s.lifecycleOf e, (s.step c).lifecycleOf e].IsChain Follows
    exact List.isChain_pair.mpr (follows_step s c e)
  | c :: c' :: rest, s => by
    have hrest := trail_chain e (c' :: rest) (s.step c)
    rw [trail] at hrest
    show (s.lifecycleOf e :: (s.step c).lifecycleOf e :: _).IsChain Follows
    exact List.isChain_cons_cons.mpr ⟨follows_step s c e, hrest⟩

/-- An allowed path enters a terminal lifecycle once, and none from a terminal one. -/
theorem terminalEntries_le : ∀ {path : List (Option Lifecycle)}, path.IsChain Follows →
    terminalEntries path ≤ 1 ∧ ∀ a rest, path = a :: rest → Ended a → terminalEntries path = 0
  | [], _ => ⟨Nat.zero_le _, fun _ _ _ _ => rfl⟩
  | [_], _ => ⟨Nat.zero_le _, fun _ _ _ _ => rfl⟩
  | a :: b :: rest, h => by
    obtain ⟨hfollows, hrest⟩ := List.isChain_cons_cons.mp h
    obtain ⟨hle, hzero⟩ := terminalEntries_le hrest
    have hb := hzero b rest rfl
    rw [terminalEntries]
    have hended : Ended a → Ended b := by
      intro ha
      rcases hfollows with rfl | ⟨rfl, _⟩ | ⟨l, l', rfl, rfl, hallowed⟩
      · exact ha
      · obtain ⟨l, hl, _⟩ := ha
        exact absurd hl (by simp)
      · obtain ⟨l₁, hl₁, hterminal⟩ := ha
        obtain rfl := Option.some_inj.mp hl₁
        exact absurd hterminal (not_terminal_of_allowed hallowed)
    constructor
    · by_cases henters : ¬ Ended a ∧ Ended b
      · rw [if_pos henters, hb henters.2]
      · rw [if_neg henters]
        omega
    · intro a' rest' heq ha
      obtain ⟨rfl, _⟩ := List.cons.inj heq
      rw [if_neg fun hc => hc.1 ha, hb (hended ha)]

theorem run_append (calls more : List (RegistryCall R)) :
    run (calls ++ more) = more.foldl step (run calls) := List.foldl_append

theorem sound_run (calls : List (RegistryCall R)) : Sound (run calls) := by
  induction calls using List.reverseRecOn with
  | nil => exact sound_empty
  | append_singleton calls c ih =>
    rw [run_append]
    exact ih.step c

theorem frozen_run {e : ℕ} {r : RequestRecord R} (hterminal : r.lifecycle.IsTerminal) :
    ∀ (calls : List (RegistryCall R)) {s : Registry R}, s.heap[e]? = some r →
      ∃ r', (calls.foldl step s).heap[e]? = some r' ∧ r'.lifecycle = r.lifecycle ∧
        r'.timestamps = r.timestamps ∧ r'.result = r.result ∧ r'.error = r.error := by
  intro calls
  induction calls using List.reverseRecOn with
  | nil => exact fun hget => ⟨r, hget, rfl, rfl, rfl, rfl⟩
  | append_singleton calls c ih =>
    intro s hget
    obtain ⟨r₁, hget₁, hlifecycle, htimestamps, hresult, herror⟩ := ih hget
    rw [List.foldl_append]
    obtain ⟨r₂, hget₂, hchange⟩ := step_change _ c hget₁
    obtain ⟨h1, h2, h3, h4⟩ := hchange.of_terminal (hlifecycle ▸ hterminal)
    exact ⟨r₂, hget₂, h1.trans hlifecycle, h2.trans htimestamps, h3.trans hresult,
      h4.trans herror⟩

theorem telling_run {e : ℕ} {snapshot : List ℕ} : ∀ (calls : List (RegistryCall R)) {s : Registry R},
    Sound s → Ended (s.lifecycleOf e) → Telling e snapshot s →
      Telling e snapshot (calls.foldl step s)
  | [], _, _, _, h => h
  | c :: rest, _, hs, hended, h => telling_run rest (hs.step c) (hended.step c) (h.step hs hended c)

/-- **Terminality of the registry.**  In every interleaving the lifecycle of a record
follows the allowed transitions and enters a terminal one at most once; from then on
the record says what it said.  The observers that were registered at that step, and
no others, are called for the record, each at most once and in turn; when their call
is over and none has interrupted it, each has been called. -/
theorem registry_terminality (calls : List (RegistryCall R)) (e : ℕ) :
    (trail e {} calls).IsChain Follows ∧
    terminalEntries (trail e {} calls) ≤ 1 ∧
    (∀ before after, calls = before ++ after → ∀ r, (run before).heap[e]? = some r →
      r.lifecycle.IsTerminal → ∃ r', (run calls).heap[e]? = some r' ∧
        r'.lifecycle = r.lifecycle ∧ r'.timestamps = r.timestamps ∧ r'.result = r.result ∧
        r'.error = r.error) ∧
    (∀ before c after, calls = before ++ c :: after → ¬ Ended ((run before).lifecycleOf e) →
      Ended ((run (before ++ [c])).lifecycleOf e) →
        (run before).terminalObservers.Nodup ∧
        (run calls).callsOf e <+: (run before).terminalObservers ∧
        ((run calls).due e = [] → ¬ (run calls).Interrupted e →
          (run calls).callsOf e = (run before).terminalObservers)) ∧
    (¬ Ended ((run calls).lifecycleOf e) → (run calls).callsOf e = []) := by
  have hchain := trail_chain e calls {}
  refine ⟨hchain, (terminalEntries_le hchain).1, ?_, ?_, fun hopen => ?_⟩
  · rintro before after rfl r hget hterminal
    rw [run_append]
    exact frozen_run hterminal after hget
  · rintro before c after rfl hopen hended
    have hbefore := sound_run before
    rw [run_append] at hended
    have hsnapshot := telling_of_ended hbefore hopen hended
    have htold := telling_run after (hbefore.step c) hended hsnapshot
    rw [run_append]
    obtain ⟨lost, htotal, hlost⟩ := htold
    refine ⟨hbefore.observers, ⟨_, (List.append_assoc ..).symm.trans htotal⟩, fun hdue hgoes => ?_⟩
    have hnone : lost = [] := by
      by_contra hne
      exact hgoes (hlost hne)
    have hdue : (after.foldl step ((run before).step c)).due e = [] := hdue
    rw [hnone, hdue, List.append_nil, List.append_nil] at htotal
    exact htotal
  · rw [callsOf, List.map_eq_nil_iff, List.filter_eq_nil_iff]
    intro call hcall hc
    exact hopen (of_decide_eq_true hc ▸ (sound_run calls).called call hcall)

/-- Two observers, the first of which raises what is no `Exception`. -/
def interruptedCalls : List (RegistryCall Unit) :=
  [.addTerminalObserver 0, .addTerminalObserver 1, .create (py "request") (py "attempt") 100 200 0,
    .transition 0 .PREFLIGHTED none none 0, .transition 0 .QUEUED none none 0]

/-- The second is not called, although the call of the first is over. -/
theorem interrupted_observers : ¬ ∀ (calls : List (RegistryCall Unit)) (e : ℕ) before c after,
    calls = before ++ c :: after → ¬ Ended ((run before).lifecycleOf e) →
      Ended ((run (before ++ [c])).lifecycleOf e) → (run calls).due e = [] →
        (run calls).callsOf e = (run before).terminalObservers := by
  intro hall
  have hcalled : (run (interruptedCalls ++ .cancel (py "request") 1 ::
      [.notifyNext 0 .interrupts])).callsOf 0 = (run interruptedCalls).terminalObservers :=
    hall _ 0 interruptedCalls (.cancel (py "request") 1) [.notifyNext 0 .interrupts] rfl
      (by decide +kernel) (by decide +kernel) (by decide +kernel)
  exact absurd hcalled (by decide +kernel)

end Registry

end Worker
