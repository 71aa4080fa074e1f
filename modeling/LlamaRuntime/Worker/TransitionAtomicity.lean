/-
Transitions of the registry with a clock that may fail.

`_transition_locked` sets the lifecycle of the record before it reads the clock of the
registry.  Where the clock raises, the record keeps its new lifecycle without the time,
the result and the error of it, nobody who waits for it is notified, and no observer hears
of it.

* `WaitedRegistry` — the registry, and the records that threads wait for;
* `Atomic` — a call that raises leaves every record as it was;
* `Slips` — the calls whose clock raises after the lifecycle has been set;
* `Settled` — a terminal record has its time, nobody waits for it, and its observers are told;
* `transitions_atomic` — the calls that are atomic are those that do not slip, and runs of such
  calls settle their records.
-/
import LlamaRuntime.Worker.TerminalObservers

namespace Worker

structure WaitedRegistry (R : Type) where
  registry : Registry R := {}
  /-- the records for whose condition a thread waits, one entry for each thread -/
  waiting : List ℕ := []

/-- A call of any thread; `clock` is what `_now` answers or raises. -/
inductive WaitedCall (R : Type) where
  | create (requestId attemptId : PyStr) (queueTimeoutMs executionTimeoutMs : ℕ)
      (clock : Except PyException ℚ)
  | transition (e : ℕ) (target : Lifecycle) (result : Option R) (error : Option RecordError)
      (clock : Except PyException ℚ)
  | compareAndTransition (e : ℕ) (expected target : Lifecycle) (predicate : Except PyException Bool)
      (result : Option R) (error : Option RecordError) (clock : Except PyException ℚ)
  | cancel (requestId : PyStr) (clock : Except PyException ℚ)
  /-- `condition.wait`, of a record that is not terminal -/
  | wait (e : ℕ)
  /-- the time of a wait is over -/
  | leave (e : ℕ)
  | addTerminalObserver (observer : ℕ)
  | removeTerminalObserver (observer : ℕ)
  | pruneTerminal (ttlSeconds : ℚ) (maxRecords : ℤ) (clock : Except PyException ℚ)
  | notifyNext (i : ℕ) (outcome : ObserverOutcome)

namespace WaitedRegistry

variable {R : Type}

/-- `_transition_locked`, with the observers it returns. -/
def transitionLocked (e : ℕ) (record : RequestRecord R) (target : Lifecycle) (result : Option R)
    (error : Option RecordError) (clock : Except PyException ℚ) (s : WaitedRegistry R) :
    (Except PyException Bool × List ℕ) × WaitedRegistry R :=
  match record.transitionLocked target result error clock with
  | (.ok true, record) =>
    ((.ok true, if target.IsTerminal then s.registry.terminalObservers else []),
      { registry := { s.registry with heap := s.registry.heap.set e record }
        -- `condition.notify_all()`
        waiting := s.waiting.filter fun e' => e' ≠ e })
  | (reply, record) =>
    ((reply, []), { s with registry := { s.registry with heap := s.registry.heap.set e record } })

/-- `_notify_terminal` is entered. -/
def notifyTerminal (e : ℕ) (observers : List ℕ) (s : WaitedRegistry R) : WaitedRegistry R :=
  { s with registry := s.registry.notifyTerminal e observers }

/-- `transition`; where it raises, there are no observers to tell. -/
def transition (e : ℕ) (target : Lifecycle) (result : Option R) (error : Option RecordError)
    (clock : Except PyException ℚ) (s : WaitedRegistry R) :
    Except PyException Bool × WaitedRegistry R :=
  match s.registry.heap[e]? with
  | none => (.ok false, s)
  | some record =>
    let ((reply, observers), s) := s.transitionLocked e record target result error clock
    (reply, s.notifyTerminal e observers)

/-- `compare_and_transition` -/
def compareAndTransition (e : ℕ) (expected target : Lifecycle) (predicate : Except PyException Bool)
    (result : Option R) (error : Option RecordError) (clock : Except PyException ℚ)
    (s : WaitedRegistry R) : Except PyException Bool × WaitedRegistry R :=
  match s.registry.heap[e]? with
  | none => (.ok false, s)
  | some record =>
    if record.lifecycle ≠ expected then (.ok false, s)
    else
      match predicate with
      | .error exc => (.error exc, s)
      | .ok false => (.ok false, s)
      | .ok true =>
        let ((reply, observers), s) := s.transitionLocked e record target result error clock
        (reply, s.notifyTerminal e observers)

/-- `cancel` -/
def cancel (requestId : PyStr) (clock : Except PyException ℚ) (s : WaitedRegistry R) :
    Except PyException Bool × WaitedRegistry R :=
  match s.registry.records.get? requestId with
  | none => (.ok false, s)
  | some e =>
    match s.registry.heap[e]? with
    | none => (.ok false, s)
    | some record =>
      if record.lifecycle.IsTerminal then (.ok false, s)
      else
        let record := { record with cancelEvent := true }
        if record.lifecycle = .QUEUED then
          match s.transitionLocked e record .CANCELLED none (some (.code "cancelled")) clock with
          | ((.error exc, _), s) => (.error exc, s)
          | ((.ok _, observers), s) => (.ok true, s.notifyTerminal e observers)
        else (.ok true, { s with registry := { s.registry with heap := s.registry.heap.set e record } })

/-- What a call returns or raises, and the registry after it. -/
def step (s : WaitedRegistry R) : WaitedCall R → Except PyException Bool × WaitedRegistry R
  | .create requestId attemptId queueTimeoutMs executionTimeoutMs clock =>
    match clock with
    | .error exc => (.error exc, s)
    | .ok now => (.ok true,
        { s with registry :=
            (s.registry.create requestId attemptId queueTimeoutMs executionTimeoutMs now).2 })
  | .transition e target result error clock => s.transition e target result error clock
  | .compareAndTransition e expected target predicate result error clock =>
    s.compareAndTransition e expected target predicate result error clock
  | .cancel requestId clock => s.cancel requestId clock
  | .wait e =>
    match s.registry.heap[e]? with
    | none => (.ok false, s)
    | some record =>
      if record.lifecycle.IsTerminal then (.ok false, s)
      else (.ok true, { s with waiting := e :: s.waiting })
  | .leave e => (.ok true, { s with waiting := s.waiting.erase e })
  | .addTerminalObserver observer =>
    (.ok (s.registry.addTerminalObserver observer).1,
      { s with registry := (s.registry.addTerminalObserver observer).2 })
  | .removeTerminalObserver observer =>
    (.ok (s.registry.removeTerminalObserver observer).1,
      { s with registry := (s.registry.removeTerminalObserver observer).2 })
  | .pruneTerminal ttlSeconds maxRecords clock =>
    match clock with
    | .error exc => (.error exc, s)
    | .ok now => ((s.registry.pruneTerminal ttlSeconds maxRecords now).1.map fun _ => true,
        { s with registry := (s.registry.pruneTerminal ttlSeconds maxRecords now).2 })
  | .notifyNext i outcome => (.ok true, { s with registry := s.registry.notifyNext i outcome })

/-- An interleaving of calls, from an empty registry. -/
def run (calls : List (WaitedCall R)) : WaitedRegistry R := calls.foldl (fun s c => (s.step c).2) {}

theorem run_append (calls more : List (WaitedCall R)) :
    run (calls ++ more) = more.foldl (fun s c => (s.step c).2) (run calls) := List.foldl_append

theorem run_concat (calls : List (WaitedCall R)) (c : WaitedCall R) :
    run (calls ++ [c]) = ((run calls).step c).2 := run_append calls [c]

/-! ### One call -/

/-- The record says what it has said. -/
def Says (r r' : RequestRecord R) : Prop :=
  r'.lifecycle = r.lifecycle ∧ r'.timestamps = r.timestamps ∧ r'.result = r.result ∧
    r'.error = r.error

theorem Says.refl (r : RequestRecord R) : Says r r := ⟨rfl, rfl, rfl, rfl⟩

/-- A call that raises leaves every record as it was. -/
def Atomic (s : WaitedRegistry R) (c : WaitedCall R) : Prop :=
  (∃ exc, (s.step c).1 = .error exc) → ∀ (e : ℕ) (r : RequestRecord R), s.registry.heap[e]? = some r →
    ∃ r', (s.step c).2.registry.heap[e]? = some r' ∧ Says r r'

/-- The transition is allowed and its guard holds, and the clock raises. -/
def Slips (s : WaitedRegistry R) : WaitedCall R → Prop
  | .transition e target _ _ (.error _) =>
      ∃ r, s.registry.heap[e]? = some r ∧ target ∈ r.lifecycle.allowed
  | .compareAndTransition e expected target (.ok true) _ _ (.error _) =>
      ∃ r, s.registry.heap[e]? = some r ∧ r.lifecycle = expected ∧ target ∈ expected.allowed
  | .cancel requestId (.error _) =>
      ∃ e r, s.registry.records.get? requestId = some e ∧ s.registry.heap[e]? = some r ∧
        r.lifecycle = .QUEUED
  | _ => False

/-- Everything `_transition_locked` can do to a record. -/
inductive Locked (record : RequestRecord R) (target : Lifecycle) (result : Option R)
    (error : Option RecordError) (clock : Except PyException ℚ) :
    Except PyException Bool × RequestRecord R → Prop
  | refused (reply : Except PyException Bool) (unmoved : reply ≠ .ok true)
      (forbidden : target ∉ record.lifecycle.allowed) :
      Locked record target result error clock (reply, record)
  | slipped (exc : PyException) (allowed : target ∈ record.lifecycle.allowed)
      (raises : clock = .error exc) :
      Locked record target result error clock (.error exc, { record with lifecycle := target })
  | moved (now : ℚ) (allowed : target ∈ record.lifecycle.allowed) (answers : clock = .ok now) :
      Locked record target result error clock (.ok true,
        { record with
          lifecycle := target
          timestamps := record.timestamps.set target now
          result := result
          error := error })

theorem locked (record : RequestRecord R) (target : Lifecycle) (result : Option R)
    (error : Option RecordError) (clock : Except PyException ℚ) :
    Locked record target result error clock
      (record.transitionLocked target result error clock) := by
  unfold RequestRecord.transitionLocked
  by_cases hterminal : record.lifecycle.IsTerminal
  · rw [if_pos hterminal]
    exact .refused _ nofun fun hallowed => Registry.not_terminal_of_allowed hallowed hterminal
  rw [if_neg hterminal]
  by_cases hallowed : target ∉ record.lifecycle.allowed
  · rw [if_pos hallowed]
    exact .refused _ nofun hallowed
  rw [if_neg hallowed]
  rw [not_not] at hallowed
  cases clock with
  | error exc => exact .slipped exc hallowed rfl
  | ok now => exact .moved now hallowed rfl

/-- What a call does to the records and to those who wait for them. -/
inductive Changed (s : WaitedRegistry R) (c : WaitedCall R) :
    Except PyException Bool × WaitedRegistry R → Prop
  | kept (reply : Except PyException Bool) (s' : WaitedRegistry R)
      (heap : s'.registry.heap = s.registry.heap)
      (waiting : ∀ e ∈ s'.waiting, e ∈ s.waiting ∨
        ∃ r, s.registry.heap[e]? = some r ∧ ¬ r.lifecycle.IsTerminal) : Changed s c (reply, s')
  | flagged (e : ℕ) (r : RequestRecord R) (get : s.registry.heap[e]? = some r)
      (s' : WaitedRegistry R)
      (heap : s'.registry.heap = s.registry.heap.set e { r with cancelEvent := true })
      (waiting : s'.waiting = s.waiting) : Changed s c (.ok true, s')
  | created (r : RequestRecord R) (received : r.lifecycle = .RECEIVED)
      (stamped : ∃ t, r.timestamps.get? r.lifecycle = some t) (s' : WaitedRegistry R)
      (heap : s'.registry.heap = s.registry.heap ++ [r]) (waiting : s'.waiting = s.waiting) :
      Changed s c (.ok true, s')
  | moved (e : ℕ) (r r' : RequestRecord R) (get : s.registry.heap[e]? = some r)
      (stamped : ∃ t, r'.timestamps.get? r'.lifecycle = some t) (s' : WaitedRegistry R)
      (heap : s'.registry.heap = s.registry.heap.set e r')
      (waiting : s'.waiting = s.waiting.filter fun e' => e' ≠ e) : Changed s c (.ok true, s')
  | slipped (result : Except PyException Bool × WaitedRegistry R) (slips : s.Slips c) :
      Changed s c result

variable {s : WaitedRegistry R}

@[simp] theorem heap_notifyTerminal (e : ℕ) (observers : List ℕ) (s : WaitedRegistry R) :
    (s.notifyTerminal e observers).registry.heap = s.registry.heap := by
  show (s.registry.notifyTerminal e observers).heap = _
  unfold Registry.notifyTerminal
  split_ifs <;> rfl

/-- A record that is set to what it was. -/
theorem set_same {e : ℕ} {r : RequestRecord R} (hget : s.registry.heap[e]? = some r) :
    s.registry.heap.set e r = s.registry.heap := by
  obtain ⟨he, hget⟩ := List.getElem?_eq_some_iff.mp hget
  rw [← hget]
  exact List.set_getElem_self he

/-- `_transition_locked` of a record that is there, with what follows it. -/
theorem changed_transitionLocked {e : ℕ} {r record : RequestRecord R} {target : Lifecycle}
    {result : Option R} {error : Option RecordError} {clock : Except PyException ℚ}
    {c : WaitedCall R} (hget : s.registry.heap[e]? = some r)
    (hrecord : record = r) (hslips : ∀ exc, clock = .error exc → target ∈ r.lifecycle.allowed →
      s.Slips c) :
    let out := s.transitionLocked e record target result error clock
    Changed s c (out.1.1, out.2.notifyTerminal e out.1.2) := by
  subst hrecord
  have hlocked := locked record target result error clock
  unfold transitionLocked
  generalize record.transitionLocked target result error clock = after at hlocked
  cases hlocked with
  | refused reply unmoved forbidden =>
    match reply, unmoved with
    | .error exc, _ =>
      refine .kept _ _ ?_ fun e' he' => .inl he'
      rw [heap_notifyTerminal]
      exact set_same hget
    | .ok false, _ =>
      refine .kept _ _ ?_ fun e' he' => .inl he'
      rw [heap_notifyTerminal]
      exact set_same hget
    | .ok true, unmoved => exact absurd rfl unmoved
  | slipped exc allowed raises => exact .slipped _ (hslips exc raises allowed)
  | moved now allowed answers =>
    exact .moved e record _ hget ⟨now, Dict.get?_set_self⟩ _ (heap_notifyTerminal _ _ _) rfl

theorem changed_cancel (requestId : PyStr) (clock : Except PyException ℚ) (s : WaitedRegistry R) :
    Changed s (.cancel requestId clock) (s.cancel requestId clock) := by
  have hkept (reply : Except PyException Bool) : Changed s (.cancel requestId clock) (reply, s) :=
    .kept reply s rfl fun e he => .inl he
  unfold cancel
  cases hid : s.registry.records.get? requestId with
  | none => exact hkept _
  | some e =>
    dsimp only
    cases hget : s.registry.heap[e]? with
    | none => exact hkept _
    | some record =>
      dsimp only
      by_cases hterminal : record.lifecycle.IsTerminal
      · rw [if_pos hterminal]
        exact hkept _
      rw [if_neg hterminal]
      by_cases hqueued : record.lifecycle = .QUEUED
      · rw [if_pos hqueued]
        have hlocked := locked { record with cancelEvent := true } .CANCELLED none
          (some (.code "cancelled")) clock
        unfold transitionLocked
        generalize RequestRecord.transitionLocked { record with cancelEvent := true } .CANCELLED none
          (some (.code "cancelled")) clock = after at hlocked
        cases hlocked with
        | refused reply unmoved forbidden =>
          -- a queued record may be cancelled
          have hallowed : Lifecycle.CANCELLED ∈ record.lifecycle.allowed := by
            rw [hqueued]
            decide
          exact absurd hallowed forbidden
        | slipped exc allowed raises =>
          exact .slipped _ (by rw [raises]; exact ⟨e, record, hid, hget, hqueued⟩)
        | moved now allowed answers =>
          exact .moved e record _ hget ⟨now, Dict.get?_set_self⟩ _ (heap_notifyTerminal _ _ _) rfl
      · rw [if_neg hqueued]
        exact .flagged e record hget _ rfl rfl

theorem changed (s : WaitedRegistry R) (c : WaitedCall R) : Changed s c (s.step c) := by
  cases c with
  | create requestId attemptId queueTimeoutMs executionTimeoutMs clock =>
    cases clock with
    | error exc => exact .kept _ s rfl fun e he => .inl he
    | ok now => exact .created _ rfl ⟨now, Dict.get?_set_self⟩ _ rfl rfl
  | transition e target result error clock =>
    show Changed s _ (s.transition e target result error clock)
    unfold transition
    cases hget : s.registry.heap[e]? with
    | none => exact .kept _ s rfl fun e he => .inl he
    | some record =>
      exact changed_transitionLocked hget rfl fun exc hclock hallowed => by
        rw [hclock]
        exact ⟨record, hget, hallowed⟩
  | compareAndTransition e expected target predicate result error clock =>
    show Changed s _ (s.compareAndTransition e expected target predicate result error clock)
    unfold compareAndTransition
    cases hget : s.registry.heap[e]? with
    | none => exact .kept _ s rfl fun e he => .inl he
    | some record =>
      dsimp only
      by_cases hexpected : record.lifecycle ≠ expected
      · rw [if_pos hexpected]
        exact .kept _ s rfl fun e he => .inl he
      rw [if_neg hexpected]
      rw [not_not] at hexpected
      match predicate with
      | .error exc => exact .kept _ s rfl fun e he => .inl he
      | .ok false => exact .kept _ s rfl fun e he => .inl he
      | .ok true =>
        exact changed_transitionLocked hget rfl fun exc hclock hallowed => by
          rw [hclock]
          exact ⟨record, hget, hexpected, hexpected ▸ hallowed⟩
  | cancel requestId clock => exact changed_cancel requestId clock s
  | wait e =>
    show Changed s _ (match s.registry.heap[e]? with | none => _ | some record => _)
    cases hget : s.registry.heap[e]? with
    | none => exact .kept _ s rfl fun e he => .inl he
    | some record =>
      dsimp only
      by_cases hterminal : record.lifecycle.IsTerminal
      · rw [if_pos hterminal]
        exact .kept _ s rfl fun e he => .inl he
      · rw [if_neg hterminal]
        refine .kept _ _ rfl fun e' he' => ?_
        rcases List.mem_cons.mp he' with rfl | he'
        · exact .inr ⟨record, hget, hterminal⟩
        · exact .inl he'
  | leave e => exact .kept _ _ rfl fun e' he' => .inl (List.mem_of_mem_erase he')
  | addTerminalObserver observer =>
    refine .kept _ _ ?_ fun e he => .inl he
    show (s.registry.addTerminalObserver observer).2.heap = _
    unfold Registry.addTerminalObserver
    split_ifs <;> rfl
  | removeTerminalObserver observer =>
    refine .kept _ _ ?_ fun e he => .inl he
    show (s.registry.removeTerminalObserver observer).2.heap = _
    unfold Registry.removeTerminalObserver
    split_ifs <;> rfl
  | pruneTerminal ttlSeconds maxRecords clock =>
    cases clock with
    | error exc => exact .kept _ s rfl fun e he => .inl he
    | ok now =>
      refine .kept _ _ ?_ fun e he => .inl he
      show (s.registry.pruneTerminal ttlSeconds maxRecords now).2.heap = _
      unfold Registry.pruneTerminal
      split_ifs <;> rfl
  | notifyNext i outcome =>
    refine .kept _ _ ?_ fun e he => .inl he
    show (s.registry.notifyNext i outcome).heap = _
    unfold Registry.notifyNext
    split
    · rfl
    · split_ifs
      · rfl
      · split <;> rfl

theorem atomic_of_not_slips {c : WaitedCall R} (hslips : ¬ s.Slips c) : s.Atomic c := by
  rintro ⟨exc, hraises⟩ e r hget
  have hchanged := changed s c
  generalize s.step c = result at hchanged hraises ⊢
  cases hchanged with
  | kept reply s' heap waiting => exact ⟨r, by rw [heap]; exact hget, .refl r⟩
  | slipped _ slips => exact absurd slips hslips
  | _ => exact nomatch hraises

/-- The lifecycle is set, and the clock raises. -/
theorem transitionLocked_slips {record : RequestRecord R} {target : Lifecycle} (result : Option R)
    (error : Option RecordError) (exc : PyException) (hallowed : target ∈ record.lifecycle.allowed) :
    record.transitionLocked target result error (.error exc) =
      (.error exc, { record with lifecycle := target }) := by
  unfold RequestRecord.transitionLocked
  rw [if_neg (Registry.not_terminal_of_allowed hallowed), if_neg (not_not.mpr hallowed)]

theorem not_atomic_of_slips {c : WaitedCall R} (hslips : s.Slips c) : ¬ s.Atomic c := by
  -- the record has gone on, and the call has raised
  have hmoved {e : ℕ} {r record : RequestRecord R} {target : Lifecycle} {exc : PyException}
      (hget : s.registry.heap[e]? = some r) (hallowed : target ∈ r.lifecycle.allowed)
      (hraises : (s.step c).1 = .error exc)
      (hheap : (s.step c).2.registry.heap = s.registry.heap.set e { record with lifecycle := target }) :
      ¬ s.Atomic c := by
    intro hatomic
    obtain ⟨r', hget', hlifecycle, -⟩ := hatomic ⟨exc, hraises⟩ e r hget
    rw [hheap, List.getElem?_set_self (List.getElem?_eq_some_iff.mp hget).1] at hget'
    obtain rfl := Option.some.inj hget'
    have hsame : target = r.lifecycle := hlifecycle
    rw [hsame] at hallowed
    revert hallowed
    cases r.lifecycle <;> decide
  cases c with
  | transition e target result error clock =>
    cases clock with
    | ok now => exact hslips.elim
    | error exc =>
      obtain ⟨r, hget, hallowed⟩ := hslips
      have hstep : s.step (.transition e target result error (.error exc)) =
          (.error exc, notifyTerminal e [] { s with registry := { s.registry with
            heap := s.registry.heap.set e { r with lifecycle := target } } }) := by
        show s.transition e target result error (.error exc) = _
        unfold transition transitionLocked
        rw [hget]
        dsimp only
        rw [transitionLocked_slips result error exc hallowed]
      exact hmoved hget hallowed (by rw [hstep]) (by rw [hstep, heap_notifyTerminal])
  | compareAndTransition e expected target predicate result error clock =>
    match predicate, clock, hslips with
    | .ok true, .error exc, ⟨r, hget, hexpected, hallowed⟩ =>
      rw [← hexpected] at hallowed
      have hstep : s.step (.compareAndTransition e expected target (.ok true) result error
          (.error exc)) = (.error exc, notifyTerminal e [] { s with registry := { s.registry with
            heap := s.registry.heap.set e { r with lifecycle := target } } }) := by
        show s.compareAndTransition e expected target (.ok true) result error (.error exc) = _
        unfold compareAndTransition transitionLocked
        rw [hget]
        dsimp only
        rw [if_neg (not_not.mpr hexpected), transitionLocked_slips result error exc hallowed]
      exact hmoved hget hallowed (by rw [hstep]) (by rw [hstep, heap_notifyTerminal])
  | cancel requestId clock =>
    cases clock with
    | ok now => exact hslips.elim
    | error exc =>
      obtain ⟨e, r, hid, hget, hqueued⟩ := hslips
      have hallowed : Lifecycle.CANCELLED ∈ r.lifecycle.allowed := by
        rw [hqueued]
        decide
      have hopen := Registry.not_terminal_of_allowed hallowed
      have hflagged : RequestRecord.transitionLocked { r with cancelEvent := true } .CANCELLED none
          (some (.code "cancelled")) (.error exc) =
            (.error exc, { { r with cancelEvent := true } with lifecycle := .CANCELLED }) :=
        transitionLocked_slips none _ exc hallowed
      have hstep : s.step (.cancel requestId (.error exc)) =
          (.error exc, { s with registry := { s.registry with
            heap := s.registry.heap.set e
              { { r with cancelEvent := true } with lifecycle := .CANCELLED } } }) := by
        show s.cancel requestId (.error exc) = _
        unfold cancel transitionLocked
        rw [hid]
        dsimp only
        rw [hget]
        dsimp only
        rw [if_neg hopen, if_pos hqueued, hflagged]
      exact hmoved hget hallowed (by rw [hstep]) (by rw [hstep])
  | _ => exact hslips.elim

/-! ### Whole runs -/

/-- Every record has the time of its lifecycle, and nobody waits for a terminal one. -/
structure Stamped (s : WaitedRegistry R) : Prop where
  stamped : ∀ (e : ℕ) (r : RequestRecord R), s.registry.heap[e]? = some r →
    ∃ t, r.timestamps.get? r.lifecycle = some t
  waiting : ∀ e ∈ s.waiting, ∃ r, s.registry.heap[e]? = some r ∧ ¬ r.lifecycle.IsTerminal

theorem Stamped.step (h : s.Stamped) {c : WaitedCall R} (hslips : ¬ s.Slips c) :
    (s.step c).2.Stamped := by
  have hchanged := changed s c
  generalize s.step c = result at hchanged
  cases hchanged with
  | kept reply s' heap waiting =>
    refine ⟨fun e r hget => h.stamped e r (heap ▸ hget), fun e he => ?_⟩
    rw [heap]
    exact (waiting e he).elim (h.waiting e) id
  | flagged e r get s' heap waiting =>
    have he := (List.getElem?_eq_some_iff.mp get).1
    refine ⟨fun e' r' hget => ?_, fun e' he' => ?_⟩
    · rw [heap] at hget
      by_cases hsame : e = e'
      · subst hsame
        obtain rfl := Option.some.inj ((List.getElem?_set_self he).symm.trans hget)
        exact h.stamped e r get
      · rw [List.getElem?_set_ne hsame] at hget
        exact h.stamped e' r' hget
    · rw [waiting] at he'
      obtain ⟨r', hget, hopen⟩ := h.waiting e' he'
      rw [heap]
      by_cases hsame : e = e'
      · subst hsame
        obtain rfl := Option.some.inj (get.symm.trans hget)
        exact ⟨_, List.getElem?_set_self he, hopen⟩
      · exact ⟨r', (List.getElem?_set_ne hsame).trans hget, hopen⟩
  | created r received stamped s' heap waiting =>
    refine ⟨fun e r' hget => ?_, fun e he => ?_⟩
    · rw [heap] at hget
      by_cases hold : e < s.registry.heap.length
      · rw [List.getElem?_append_left hold] at hget
        exact h.stamped e r' hget
      · rw [List.getElem?_append_right (by omega)] at hget
        obtain rfl := List.mem_singleton.mp (List.mem_of_getElem? hget)
        exact stamped
    · rw [waiting] at he
      obtain ⟨r', hget, hopen⟩ := h.waiting e he
      rw [heap]
      exact ⟨r', (List.getElem?_append_left (List.getElem?_eq_some_iff.mp hget).1).trans hget, hopen⟩
  | moved e r r' get stamped s' heap waiting =>
    refine ⟨fun e' r₁ hget => ?_, fun e' he' => ?_⟩
    · rw [heap] at hget
      by_cases hsame : e = e'
      · subst hsame
        rw [List.getElem?_set_self (List.getElem?_eq_some_iff.mp get).1] at hget
        obtain rfl := Option.some.inj hget
        exact stamped
      · rw [List.getElem?_set_ne hsame] at hget
        exact h.stamped e' r₁ hget
    · -- those that waited for the record have been notified
      rw [waiting] at he'
      obtain ⟨hmem, hother⟩ := List.mem_filter.mp he'
      obtain ⟨r₁, hget, hopen⟩ := h.waiting e' hmem
      have hother : ¬ e = e' := Ne.symm (of_decide_eq_true hother)
      rw [heap]
      exact ⟨r₁, (List.getElem?_set_ne hother).trans hget, hopen⟩
  | slipped _ slips => exact absurd slips hslips

/-! ### The observers -/

/-- The time of a clock that answers. -/
def time : Except PyException ℚ → ℚ
  | .ok now => now
  | .error _ => 0

/-- The call as one of a registry whose clock answers, if it gets to the registry at all. -/
def translate : WaitedCall R → Option (RegistryCall R)
  | .create requestId attemptId queueTimeoutMs executionTimeoutMs (.ok now) =>
    some (.create requestId attemptId queueTimeoutMs executionTimeoutMs now)
  | .transition e target result error clock =>
    some (.transition e target result error (time clock))
  | .compareAndTransition e expected target predicate result error clock =>
    some (.compareAndTransition e expected target predicate result error (time clock))
  | .cancel requestId clock => some (.cancel requestId (time clock))
  | .addTerminalObserver observer => some (.addTerminalObserver observer)
  | .removeTerminalObserver observer => some (.removeTerminalObserver observer)
  | .pruneTerminal ttlSeconds maxRecords (.ok now) => some (.pruneTerminal ttlSeconds maxRecords now)
  | .notifyNext i outcome => some (.notifyNext i outcome)
  | _ => none

/-- The registry after a call that is perhaps not made. -/
def stepIf (g : Registry R) : Option (RegistryCall R) → Registry R
  | some c => g.step c
  | none => g

/-- Up to a slip, `_transition_locked` is that of a registry whose clock answers. -/
theorem registry_transitionLocked {e : ℕ} {record : RequestRecord R} {target : Lifecycle}
    {clock : Except PyException ℚ} (result : Option R) (error : Option RecordError)
    (hslips : ∀ exc, clock = .error exc → target ∉ record.lifecycle.allowed) :
    let out := s.transitionLocked e record target result error clock
    let out' := s.registry.transitionLocked e record target result error (time clock)
    out.1 = out'.1 ∧ out.2.registry = out'.2 := by
  have hlocked : record.transitionLocked target result error clock =
      record.transitionLocked target result error (.ok (time clock)) := by
    cases clock with
    | ok now => rfl
    | error exc =>
      unfold RequestRecord.transitionLocked
      by_cases hterminal : record.lifecycle.IsTerminal
      · rw [if_pos hterminal, if_pos hterminal]
      · rw [if_neg hterminal, if_neg hterminal, if_pos (hslips exc rfl), if_pos (hslips exc rfl)]
  unfold transitionLocked Registry.transitionLocked
  rw [hlocked]
  generalize record.transitionLocked target result error (.ok (time clock)) = after
  match after with
  | (.ok true, record) => exact ⟨rfl, rfl⟩
  | (.ok false, record) => exact ⟨rfl, rfl⟩
  | (.error exc, record) => exact ⟨rfl, rfl⟩

/-- A call that does not slip does to the registry what the calls of `Registry` do. -/
theorem step_registry {c : WaitedCall R} (hslips : ¬ s.Slips c) :
    (s.step c).2.registry = stepIf s.registry (translate c) := by
  -- both registries go on from the same step
  have hgoes {e : ℕ} {record : RequestRecord R} {target : Lifecycle} {result : Option R}
      {error : Option RecordError} {clock : Except PyException ℚ}
      (hnot : ∀ exc, clock = .error exc → target ∉ record.lifecycle.allowed) :
      let out := s.transitionLocked e record target result error clock
      let out' := s.registry.transitionLocked e record target result error (time clock)
      (out.2.notifyTerminal e out.1.2).registry = out'.2.notifyTerminal e out'.1.2 := by
    obtain ⟨hreply, hregistry⟩ := registry_transitionLocked (s := s) (e := e) result error hnot
    show Registry.notifyTerminal e _ _ = _
    rw [hreply, hregistry]
  cases c with
  | create requestId attemptId queueTimeoutMs executionTimeoutMs clock => cases clock <;> rfl
  | transition e target result error clock =>
    show (s.transition e target result error clock).2.registry =
      (s.registry.transition e target result error (time clock)).2
    unfold transition Registry.transition
    cases hget : s.registry.heap[e]? with
    | none => rfl
    | some record =>
      exact hgoes fun exc hclock hallowed => hslips (by rw [hclock]; exact ⟨record, hget, hallowed⟩)
  | compareAndTransition e expected target predicate result error clock =>
    show (s.compareAndTransition e expected target predicate result error clock).2.registry =
      (s.registry.compareAndTransition e expected target predicate result error (time clock)).2
    unfold compareAndTransition Registry.compareAndTransition
    cases hget : s.registry.heap[e]? with
    | none => rfl
    | some record =>
      dsimp only
      by_cases hexpected : record.lifecycle ≠ expected
      · rw [if_pos hexpected, if_pos hexpected]
      rw [if_neg hexpected, if_neg hexpected]
      rw [not_not] at hexpected
      match predicate with
      | .error exc => rfl
      | .ok false => rfl
      | .ok true =>
        exact hgoes fun exc hclock hallowed => hslips (by
          rw [hclock]
          exact ⟨record, hget, hexpected, hexpected ▸ hallowed⟩)
  | cancel requestId clock =>
    show (s.cancel requestId clock).2.registry = (s.registry.cancel requestId (time clock)).2
    unfold cancel Registry.cancel
    cases hid : s.registry.records.get? requestId with
    | none => rfl
    | some e =>
      dsimp only
      cases hget : s.registry.heap[e]? with
      | none => rfl
      | some record =>
        dsimp only
        by_cases hterminal : record.lifecycle.IsTerminal
        · rw [if_pos hterminal, if_pos hterminal]
        rw [if_neg hterminal, if_neg hterminal]
        by_cases hqueued : record.lifecycle = .QUEUED
        · rw [if_pos hqueued, if_pos hqueued]
          have hsame := @registry_transitionLocked R s e { record with cancelEvent := true }
            .CANCELLED clock none (some (.code "cancelled")) fun exc hclock _ => hslips (by
              rw [hclock]
              exact ⟨e, record, hid, hget, hqueued⟩)
          obtain ⟨hreply, hregistry⟩ := hsame
          revert hreply hregistry
          generalize s.transitionLocked e { record with cancelEvent := true } .CANCELLED none
            (some (.code "cancelled")) clock = out
          generalize s.registry.transitionLocked e { record with cancelEvent := true } .CANCELLED none
            (some (.code "cancelled")) (time clock) = out'
          obtain ⟨⟨reply, observers⟩, s'⟩ := out
          obtain ⟨⟨reply', observers'⟩, g'⟩ := out'
          rintro ⟨⟩ ⟨⟩
          cases reply with
          | error exc => rfl
          | ok changed => rfl
        · rw [if_neg hqueued, if_neg hqueued]
  | wait e =>
    show (WaitedRegistry.step s (.wait e)).2.registry = s.registry
    unfold step
    dsimp only
    split
    · rfl
    · split_ifs <;> rfl
  | leave e => rfl
  | addTerminalObserver observer => rfl
  | removeTerminalObserver observer => rfl
  | pruneTerminal ttlSeconds maxRecords clock => cases clock <;> rfl
  | notifyNext i outcome => rfl

theorem registry_run {calls : List (WaitedCall R)}
    (hslips : ∀ before c after, calls = before ++ c :: after → ¬ (run before).Slips c) :
    (run calls).registry = Registry.run (calls.filterMap translate) := by
  induction calls using List.reverseRecOn with
  | nil => rfl
  | append_singleton calls c ih =>
    have hbefore := ih fun before c' after hcalls =>
      hslips before c' (after ++ [c]) (by rw [hcalls]; simp)
    rw [run_concat, step_registry (hslips calls c [] rfl), hbefore, List.filterMap_append,
      Registry.run_append]
    cases htranslate : translate c with
    | none =>
      rw [List.filterMap_cons_none htranslate]
      rfl
    | some c' =>
      rw [List.filterMap_cons_some htranslate]
      rfl

/-- An observer raises what is no `Exception` before others that are still to be called. -/
def Drops (g : Registry R) : RegistryCall R → Prop
  | .notifyNext i .interrupts => ∃ call observer rest, g.notifications[i]? = some call ∧
      call.raised = false ∧ call.rest = observer :: rest ∧ rest ≠ []
  | _ => False

section

open Registry

variable {g : Registry R} {e : ℕ}

theorem told_notifyNext (hg : g.Sound) {i : ℕ} {outcome : ObserverOutcome}
    (hdrops : ¬ Drops g (.notifyNext i outcome)) :
    (g.notifyNext i outcome).callsOf e ++ (g.notifyNext i outcome).due e =
      g.callsOf e ++ g.due e := by
  have hset {call next : Notification} {g' : Registry R} (more : List ℕ)
      (hcall : g.notifications[i]? = some call) (hrecord : next.record = call.record)
      (hnotifications : g'.notifications = g.notifications.set i next)
      (hcalls : g'.calls = g.calls ++ more.map fun observer => (observer, call.record))
      (hrest : call.rest = more ++ next.rest) :
      g'.callsOf e ++ g'.due e = g.callsOf e ++ g.due e := by
    have htold := told_set hg more [] hcall hrecord hnotifications hcalls (by simp [hrest]) e
    rwa [ite_self, List.append_nil] at htold
  unfold notifyNext
  cases hcall : g.notifications[i]? with
  | none => rfl
  | some call =>
    dsimp only
    by_cases hraised : call.raised = true
    · rw [if_pos hraised]
      exact hset [] hcall (by rfl) rfl (List.append_nil _).symm rfl
    rw [if_neg hraised]
    cases hrest : call.rest with
    | nil => rfl
    | cons observer rest =>
      refine hset [observer] hcall ?_ rfl rfl ?_
      · cases outcome <;> rfl
      · rw [hrest]
        cases outcome with
        | returns => rfl
        | raises => rfl
        | interrupts =>
          -- nobody else was to be called
          have hlast : rest = [] := by
            by_contra hmore
            exact hdrops ⟨call, observer, rest, hcall, Bool.not_eq_true _ ▸ hraised, hrest, hmore⟩
          rw [hlast]
          rfl

/-- What is told of a terminal record, step by step. -/
theorem told_step (hg : g.Sound) (hended : Ended (g.lifecycleOf e)) {c : RegistryCall R}
    (hdrops : ¬ Drops g c) :
    (g.step c).callsOf e ++ (g.step c).due e = g.callsOf e ++ g.due e := by
  by_cases hcall : ∃ i outcome, c = .notifyNext i outcome
  · obtain ⟨i, outcome, rfl⟩ := hcall
    exact told_notifyNext hg hdrops
  · obtain ⟨hcalls, hdue, -⟩ := told_effect hended
      (call_effect g c fun i outcome h => hcall ⟨i, outcome, h⟩)
    rw [hcalls, hdue]

theorem told_run (calls : List (RegistryCall R)) (hg : g.Sound) (hended : Ended (g.lifecycleOf e))
    (hdrops : ∀ before c after, calls = before ++ c :: after → ¬ Drops (before.foldl Registry.step g) c) :
    (calls.foldl Registry.step g).callsOf e ++ (calls.foldl Registry.step g).due e =
      g.callsOf e ++ g.due e := by
  induction calls generalizing g with
  | nil => rfl
  | cons c rest ih =>
    have hrest := ih (hg.step c) (hended.step c) fun before c' after hrest =>
      hdrops (c :: before) c' after (by rw [hrest]; rfl)
    exact hrest.trans (told_step hg hended (hdrops [] c rest rfl))

end

/-- The states of a run are settled: terminal records have their times, nobody waits for them, and
the observers of the step that ended them have been called, or are still to be called by it. -/
structure Settled (calls : List (WaitedCall R)) : Prop where
  stamped : ∀ (e : ℕ) (r : RequestRecord R), (run calls).registry.heap[e]? = some r →
    r.lifecycle.IsTerminal → ∃ t, r.timestamps.get? r.lifecycle = some t
  notified : ∀ (e : ℕ) (r : RequestRecord R), (run calls).registry.heap[e]? = some r →
    r.lifecycle.IsTerminal → e ∉ (run calls).waiting
  observed : ∀ (before : List (WaitedCall R)) (c : WaitedCall R) (after : List (WaitedCall R)) (e : ℕ),
    calls = before ++ c :: after → ¬ Registry.Ended ((run before).registry.lifecycleOf e) →
      Registry.Ended ((run (before ++ [c])).registry.lifecycleOf e) →
      (run calls).registry.callsOf e ++ (run calls).registry.due e =
        (run before).registry.terminalObservers

/-- The step loses nothing: its clock answers where it is read, and its observer does not interrupt
the call of others. -/
def Regular (s : WaitedRegistry R) (c : WaitedCall R) : Prop :=
  ¬ s.Slips c ∧ ∀ c' ∈ translate c, ¬ Drops s.registry c'

theorem stamped_run {calls : List (WaitedCall R)}
    (hslips : ∀ before c after, calls = before ++ c :: after → ¬ (run before).Slips c) :
    (run calls).Stamped := by
  induction calls using List.reverseRecOn with
  | nil => exact ⟨fun e r hget => (nomatch hget), fun e he => absurd he List.not_mem_nil⟩
  | append_singleton calls c ih =>
    rw [run_concat]
    refine Stamped.step (ih fun before c' after hcalls => ?_) (hslips calls c [] rfl)
    exact hslips before c' (after ++ [c]) (by rw [hcalls]; simp)

theorem settled_run {calls : List (WaitedCall R)}
    (hregular : ∀ before c after, calls = before ++ c :: after → (run before).Regular c) :
    Settled calls := by
  have hslips : ∀ before c after, calls = before ++ c :: after → ¬ (run before).Slips c :=
    fun before c after hcalls => (hregular before c after hcalls).1
  have hstamped := stamped_run hslips
  refine ⟨fun e r hget _ => hstamped.stamped e r hget, fun e r hget hterminal hwaits => ?_,
    fun before c after e hcalls hopen hended => ?_⟩
  · obtain ⟨r', hget', hnot⟩ := hstamped.waiting e hwaits
    obtain rfl := Option.some.inj (hget.symm.trans hget')
    exact hnot hterminal
  · -- the calls as those of a registry whose clock answers
    have hregistry (some_calls : List (WaitedCall R)) (rest : List (WaitedCall R))
        (hsplit : calls = some_calls ++ rest) :
        (run some_calls).registry = Registry.run (some_calls.filterMap translate) :=
      registry_run fun before' c' after' h => hslips before' c' (after' ++ rest) (by
        rw [hsplit, h]
        simp)
    have hbefore := hregistry before (c :: after) hcalls
    have hsound := Registry.sound_run (before.filterMap translate)
    rw [run_concat, step_registry (hslips before c after hcalls)] at hended
    cases htranslate : translate c with
    | none =>
      rw [htranslate] at hended
      exact absurd hended hopen
    | some c' =>
      rw [htranslate, hbefore] at hended
      rw [hbefore] at hopen ⊢
      have hall : (run calls).registry = (after.filterMap translate).foldl Registry.step
          ((Registry.run (before.filterMap translate)).step c') := by
        rw [hregistry calls [] (List.append_nil _).symm, hcalls, List.filterMap_append,
          List.filterMap_cons_some htranslate, Registry.run_append]
        rfl
      rw [hall]
      refine (told_run _ (hsound.step c') hended fun pre d post hsplit => ?_).trans
        (Registry.told_of_ended hsound hopen hended)
      obtain ⟨l₁, l₂, rfl, rfl, hrest⟩ := List.filterMap_eq_append_iff.mp hsplit
      obtain ⟨l₃, x, l₄, rfl, hskip, hx, -⟩ := List.filterMap_eq_cons_iff.mp hrest
      have hpath : calls = (before ++ c :: (l₁ ++ l₃)) ++ x :: l₄ := by
        rw [hcalls]
        simp
      have hdrops := (hregular _ x l₄ hpath).2 d hx
      rw [hregistry _ _ hpath, List.filterMap_append, List.filterMap_cons_some htranslate,
        List.filterMap_append, List.filterMap_eq_nil_iff.mpr hskip, List.append_nil,
        Registry.run_append] at hdrops
      exact hdrops

/-- **Transitions are atomic unless the clock slips**: the calls that leave the records as they
were where they raise are those whose clock does not raise after the lifecycle has been set; and in
a run of such calls, none of whose observers interrupts the call of others, every state that is
reached is settled. -/
theorem transitions_atomic :
    (∀ (s : WaitedRegistry R) (c : WaitedCall R), s.Atomic c ↔ ¬ s.Slips c) ∧
    ∀ calls : List (WaitedCall R),
      (∀ before c after, calls = before ++ c :: after → (run before).Regular c) →
      ∀ reached rest, calls = reached ++ rest → Settled reached := by
  refine ⟨fun s c => ⟨fun hatomic hslips => not_atomic_of_slips hslips hatomic,
    atomic_of_not_slips⟩, fun calls hregular reached rest hcalls => ?_⟩
  exact settled_run fun before c after h => hregular before c (after ++ rest) (by rw [hcalls, h]; simp)

/-- A request is being waited for when it fails. -/
def settledCalls : List (WaitedCall Unit) :=
  [.addTerminalObserver 0, .create (py "request") (py "attempt") 100 200 (.ok 0), .wait 0,
    .transition 0 .FAILED none (some (.code "failed")) (.ok 1)]

theorem transitions_atomic_settles :
    Registry.Ended ((run settledCalls).registry.lifecycleOf 0) ∧ Settled settledCalls := by
  refine ⟨by decide +kernel, transitions_atomic.2 settledCalls (fun before c after hcalls => ?_)
    settledCalls [] rfl⟩
  have hmem : c ∈ settledCalls := by simp [hcalls]
  -- every clock of these calls answers
  simp only [settledCalls, List.mem_cons, List.not_mem_nil, or_false] at hmem
  rcases hmem with rfl | rfl | rfl | rfl
  · exact ⟨id, fun c' hc' => by obtain rfl := Option.some.inj hc'; exact id⟩
  · exact ⟨id, fun c' hc' => by obtain rfl := Option.some.inj hc'; exact id⟩
  · exact ⟨id, fun c' hc' => by cases hc'⟩
  · exact ⟨id, fun c' hc' => by obtain rfl := Option.some.inj hc'; exact id⟩

/-- A request is being waited for, and its failure is to be recorded at a time that the clock does
not give. -/
def slippedCalls : List (WaitedCall Unit) :=
  [.addTerminalObserver 0, .create (py "request") (py "attempt") 100 200 (.ok 0), .wait 0,
    .transition 0 .FAILED none (some (.code "failed"))
      (.error (.builtin "RuntimeError" "registry clock must return a finite number"))]

/-- The call raises, and the record is terminal: without a time, with somebody who waits for it,
and with an observer that does not hear of it. -/
theorem transitions_atomic_fails :
    ¬ (∀ (before : List (WaitedCall Unit)) c after, slippedCalls = before ++ c :: after →
      (run before).Atomic c) ∧ ¬ Settled slippedCalls := by
  refine ⟨fun h => ?_, fun h => ?_⟩
  · refine not_atomic_of_slips ?_ (h (slippedCalls.take 3) _ [] rfl)
    exact ⟨_, rfl, by decide⟩
  · exact h.notified 0 _ rfl trivial List.mem_cons_self

end WaitedRegistry

end Worker
