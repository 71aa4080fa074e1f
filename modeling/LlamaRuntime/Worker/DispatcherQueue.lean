/-
The queue of the dispatcher.

`Disciplined` says where each record is: in the queue, in the hands of the
dispatcher's thread, started, or terminal.  Every step keeps it, those of the
shutdown included.

* `Disciplined.step` — where the records are after a step;
* `step_record` — what a step does to one record.
-/
import LlamaRuntime.Worker.Dispatcher

namespace Worker

namespace Registry

variable {R : Type} {g g' : Registry R}

/-! ### What the registry does to one record -/

/-- One record has been replaced. -/
structure Replaced (e : ℕ) (r r' : RequestRecord R) (g g' : Registry R) : Prop where
  get : g.heap[e]? = some r
  heap : g'.heap = g.heap.set e r'
  records : g'.records = g.records
  id : r'.requestId = r.requestId

theorem Replaced.self {e : ℕ} {r r' : RequestRecord R} (h : Replaced e r r' g g') :
    g'.heap[e]? = some r' := by
  rw [h.heap, List.getElem?_set_self (List.getElem?_eq_some_iff.mp h.get).1]

theorem Replaced.other {e e' : ℕ} {r r' : RequestRecord R} (h : Replaced e r r' g g')
    (hne : e ≠ e') : g'.heap[e']? = g.heap[e']? := by
  rw [h.heap, List.getElem?_set_ne hne]

theorem Replaced.length {e : ℕ} {r r' : RequestRecord R} (h : Replaced e r r' g g') :
    g'.heap.length = g.heap.length := by
  rw [h.heap, List.length_set]

theorem lifecycleOf_eq {e : ℕ} {r : RequestRecord R} (hget : g.heap[e]? = some r) :
    g.lifecycleOf e = some r.lifecycle := by
  rw [lifecycleOf, hget, Option.map_some]

theorem notifyTerminal_heap (e : ℕ) (observers : List ℕ) :
    (g.notifyTerminal e observers).heap = g.heap ∧
      (g.notifyTerminal e observers).records = g.records := by
  unfold notifyTerminal
  split_ifs <;> exact ⟨rfl, rfl⟩

/-- An allowed transition of a record that is in the expected lifecycle. -/
theorem transitionLocked_allowed {e : ℕ} {record : RequestRecord R} {target : Lifecycle}
    (hallowed : target ∈ record.lifecycle.allowed) (result : Option R) (error : Option RecordError)
    (now : ℚ) :
    (g.transitionLocked e record target result error now).1.1 = .ok true ∧
      (g.transitionLocked e record target result error now).2 = { g with
        heap := g.heap.set e { record with
          lifecycle := target, timestamps := record.timestamps.set target now, result := result,
          error := error } } := by
  have hopen := not_terminal_of_allowed hallowed
  have htransition : record.transitionLocked target result error (.ok now) =
      (.ok true, { record with
        lifecycle := target, timestamps := record.timestamps.set target now, result := result,
        error := error }) := by
    unfold RequestRecord.transitionLocked
    rw [if_neg hopen, if_neg (not_not.mpr hallowed)]
  unfold transitionLocked
  rw [htransition]
  exact ⟨rfl, rfl⟩

theorem transition_allowed {e : ℕ} {r : RequestRecord R} {target : Lifecycle}
    (hget : g.heap[e]? = some r) (hallowed : target ∈ r.lifecycle.allowed) (result : Option R)
    (error : Option RecordError) (now : ℚ) :
    ∃ r', Replaced e r r' g (g.transition e target result error now).2 ∧ r'.lifecycle = target := by
  obtain ⟨hreply, hstate⟩ := transitionLocked_allowed (g := g) (e := e) hallowed result error now
  unfold transition
  rw [hget]
  dsimp only
  rcases hout : g.transitionLocked e r target result error now with ⟨⟨reply, observers⟩, g'⟩
  rw [hout] at hstate
  dsimp only at hstate
  subst hstate
  obtain ⟨hheap, hrecords⟩ := notifyTerminal_heap (g := { g with
    heap := g.heap.set e { r with
      lifecycle := target, timestamps := r.timestamps.set target now, result := result,
      error := error } }) e observers
  exact ⟨_, ⟨hget, hheap, hrecords, rfl⟩, rfl⟩

/-- The transition is made, or the record is elsewhere or the predicate fails. -/
theorem compareAndTransition_cases {expected target : Lifecycle}
    (hallowed : target ∈ expected.allowed) (g : Registry R) (e : ℕ) (predicate : Bool)
    (result : Option R) (error : Option RecordError) (now : ℚ) :
    (∃ r r', Replaced e r r' g
        (g.compareAndTransition e expected target (.ok predicate) result error now).2 ∧
      (g.compareAndTransition e expected target (.ok predicate) result error now).1 = .ok true ∧
      predicate = true ∧ r.lifecycle = expected ∧ r'.lifecycle = target ∧ r'.error = error) ∨
    g.compareAndTransition e expected target (.ok predicate) result error now = (.ok false, g) ∧
      ∀ r, g.heap[e]? = some r → r.lifecycle = expected → predicate = false := by
  unfold compareAndTransition
  cases hget : g.heap[e]? with
  | none => exact .inr ⟨rfl, fun r hc => absurd hc (by simp)⟩
  | some record =>
    dsimp only
    by_cases hexpected : record.lifecycle ≠ expected
    · rw [if_pos hexpected]
      refine .inr ⟨rfl, fun r hr hlifecycle => ?_⟩
      obtain rfl := Option.some_inj.mp hr
      exact absurd hlifecycle hexpected
    rw [if_neg hexpected]
    have hlifecycle : record.lifecycle = expected := not_not.mp hexpected
    cases predicate with
    | false => exact .inr ⟨rfl, fun _ _ _ => rfl⟩
    | true =>
      have hrecord : target ∈ record.lifecycle.allowed := hlifecycle ▸ hallowed
      obtain ⟨hreply, hstate⟩ := transitionLocked_allowed (g := g) (e := e) hrecord result error now
      rcases hout : g.transitionLocked e record target result error now with ⟨⟨reply, observers⟩, g'⟩
      rw [hout] at hreply hstate
      dsimp only at hreply hstate
      subst hreply hstate
      obtain ⟨hheap, hrecords⟩ := notifyTerminal_heap (g := { g with
        heap := g.heap.set e { record with
          lifecycle := target, timestamps := record.timestamps.set target now, result := result,
          error := error } }) e observers
      exact .inl ⟨record, _, ⟨hget, hheap, hrecords, rfl⟩, rfl, rfl, hlifecycle, rfl, rfl⟩

theorem cancel_cases (g : Registry R) (requestId : PyStr) (now : ℚ) :
    (∃ e r r', g.records.get? requestId = some e ∧ Replaced e r r' g (g.cancel requestId now).2 ∧
      (g.cancel requestId now).1 = .ok true ∧ ¬ r.lifecycle.IsTerminal ∧
      ((r.lifecycle = .QUEUED ∧ r'.lifecycle = .CANCELLED) ∨
        r.lifecycle ≠ .QUEUED ∧ r'.lifecycle = r.lifecycle ∧ r'.error = r.error)) ∨
    g.cancel requestId now = (.ok false, g) ∧ ∀ e r, g.records.get? requestId = some e →
      g.heap[e]? = some r → r.lifecycle.IsTerminal := by
  unfold cancel
  cases hid : g.records.get? requestId with
  | none => exact .inr ⟨rfl, fun e _ hc => absurd hc (by simp)⟩
  | some e =>
    dsimp only
    cases hget : g.heap[e]? with
    | none =>
      refine .inr ⟨rfl, fun e' r hc hr => ?_⟩
      obtain rfl := Option.some_inj.mp hc
      exact absurd (hget.symm.trans hr) (by simp)
    | some record =>
      dsimp only
      by_cases hterminal : record.lifecycle.IsTerminal
      · rw [if_pos hterminal]
        refine .inr ⟨rfl, fun e' r hc hr => ?_⟩
        obtain rfl := Option.some_inj.mp hc
        obtain rfl := Option.some_inj.mp (hget.symm.trans hr)
        exact hterminal
      rw [if_neg hterminal]
      by_cases hqueued : record.lifecycle = .QUEUED
      · rw [if_pos hqueued]
        have hallowed : Lifecycle.CANCELLED ∈
            ({ record with cancelEvent := true } : RequestRecord R).lifecycle.allowed := by
          show _ ∈ record.lifecycle.allowed
          rw [hqueued]
          decide
        obtain ⟨hreply, hstate⟩ := transitionLocked_allowed (g := g) (e := e) hallowed none
          (some (.code "cancelled")) now
        rcases hout : g.transitionLocked e { record with cancelEvent := true } .CANCELLED none
          (some (.code "cancelled")) now with ⟨⟨reply, observers⟩, g'⟩
        rw [hout] at hreply hstate
        dsimp only at hreply hstate
        subst hreply hstate
        obtain ⟨hheap, hrecords⟩ := notifyTerminal_heap (g := { g with
          heap := g.heap.set e { record with
            cancelEvent := true, lifecycle := .CANCELLED,
            timestamps := record.timestamps.set .CANCELLED now, result := none,
            error := some (.code "cancelled") } }) e observers
        exact .inl ⟨e, record, _, rfl, ⟨hget, hheap, hrecords, rfl⟩, rfl, hterminal,
          .inl ⟨hqueued, rfl⟩⟩
      · rw [if_neg hqueued]
        exact .inl ⟨e, record, _, rfl, ⟨hget, rfl, rfl, rfl⟩, rfl, hterminal,
          .inr ⟨hqueued, rfl, rfl⟩⟩

theorem addTerminalObserver_keeps (g : Registry R) (observer : ℕ) :
    (g.addTerminalObserver observer).2.heap = g.heap ∧
      (g.addTerminalObserver observer).2.records = g.records := by
  unfold addTerminalObserver
  split_ifs <;> exact ⟨rfl, rfl⟩

theorem removeTerminalObserver_keeps (g : Registry R) (observer : ℕ) :
    (g.removeTerminalObserver observer).2.heap = g.heap ∧
      (g.removeTerminalObserver observer).2.records = g.records := by
  unfold removeTerminalObserver
  split_ifs <;> exact ⟨rfl, rfl⟩

theorem notifyNext_keeps (g : Registry R) (i : ℕ) (outcome : ObserverOutcome) :
    (g.notifyNext i outcome).heap = g.heap ∧ (g.notifyNext i outcome).records = g.records := by
  unfold notifyNext
  split
  · exact ⟨rfl, rfl⟩
  split_ifs
  · exact ⟨rfl, rfl⟩
  split <;> exact ⟨rfl, rfl⟩

/-- Only terminal records are pruned. -/
theorem pruneTerminal_keeps (g : Registry R) (ttlSeconds : ℚ) (maxRecords : ℤ) (now : ℚ) :
    (g.pruneTerminal ttlSeconds maxRecords now).2.heap = g.heap ∧
    (∀ id e, (g.pruneTerminal ttlSeconds maxRecords now).2.records.get? id = some e →
      g.records.get? id = some e) ∧
    ∀ id e, g.records.get? id = some e → ¬ Ended (g.lifecycleOf e) →
      (g.pruneTerminal ttlSeconds maxRecords now).2.records.get? id = some e := by
  unfold pruneTerminal
  split_ifs
  · exact ⟨rfl, fun _ _ => id, fun _ _ h _ => h⟩
  · exact ⟨rfl, fun _ _ => id, fun _ _ h _ => h⟩
  have hcandidates : ∀ c ∈ (g.pruneCandidates ttlSeconds now).mergeSort fun a b => a.1 ≤ b.1,
      Ended (g.lifecycleOf c.2) := by
    intro c hc
    obtain ⟨⟨id, e⟩, _, hsome⟩ := List.mem_filterMap.mp ((List.mergeSort_perm _ _).mem_iff.mp hc)
    obtain ⟨r, hget, hsome⟩ := Option.bind_eq_some_iff.mp hsome
    split_ifs at hsome with hterminal
    obtain ⟨at', _, hsome⟩ := Option.bind_eq_some_iff.mp hsome
    split_ifs at hsome
    obtain rfl := Option.some_inj.mp hsome
    exact ended_iff.mpr ⟨r, hget, hterminal⟩
  have hfold : ∀ (candidates : List (Lex (ℚ × PyStr) × ℕ)) (acc : ℕ × Dict PyStr ℕ),
      (∀ c ∈ candidates, Ended (g.lifecycleOf c.2)) →
      (∀ id e, (candidates.foldl (fun (acc : ℕ × Dict PyStr ℕ) candidate =>
          if acc.2.get? (ofLex candidate.1).2 = some candidate.2 then
            (acc.1 + 1, acc.2.pop (ofLex candidate.1).2)
          else (acc.1, acc.2)) acc).2.get? id = some e → acc.2.get? id = some e) ∧
      ∀ id e, acc.2.get? id = some e → ¬ Ended (g.lifecycleOf e) →
        (candidates.foldl (fun (acc : ℕ × Dict PyStr ℕ) candidate =>
          if acc.2.get? (ofLex candidate.1).2 = some candidate.2 then
            (acc.1 + 1, acc.2.pop (ofLex candidate.1).2)
          else (acc.1, acc.2)) acc).2.get? id = some e := by
    intro candidates
    induction candidates with
    | nil => exact fun _ _ => ⟨fun _ _ => id, fun _ _ h _ => h⟩
    | cons c rest ih =>
      intro acc hended
      rw [List.foldl_cons]
      by_cases hfound : acc.2.get? (ofLex c.1).2 = some c.2
      · rw [if_pos hfound]
        obtain ⟨hback, hkeep⟩ := ih (acc.1 + 1, acc.2.pop (ofLex c.1).2)
          fun c' hc' => hended c' (List.mem_cons_of_mem _ hc')
        refine ⟨fun id e hget => ?_, fun id e hget hopen => hkeep id e ?_ hopen⟩
        · have hpop := hback id e hget
          rw [Dict.get?_pop] at hpop
          split_ifs at hpop
          exact hpop
        · rw [Dict.get?_pop, if_neg]
          · exact hget
          · -- the entry that is popped is terminal
            rintro rfl
            obtain rfl := Option.some_inj.mp (hfound.symm.trans hget)
            exact hopen (hended c List.mem_cons_self)
      · rw [if_neg hfound]
        exact ih acc fun c' hc' => hended c' (List.mem_cons_of_mem _ hc')
  obtain ⟨hback, hkeep⟩ := hfold _ (0, g.records) fun c hc =>
    hcandidates c (List.mem_of_mem_take hc)
  exact ⟨rfl, hback, hkeep⟩

end Registry

/-- `worker.execute` has been called. -/
def Task.begun (task : Task R) : Bool :=
  match task.state with
  | .launched => false
  | _ => true

/-- The choice is a terminal lifecycle, and no expiry of the queue. -/
theorem finalTransition_spec {R : Type} (cancelled : Bool) (outcome : Except Raised R) :
    (finalTransition cancelled outcome).1 ∈ Lifecycle.RUNNING.allowed ∧
      (finalTransition cancelled outcome).2.2 ≠ some (.code "queue_timeout") := by
  have hstored : ∀ e : Raised, Stream.storedError e ≠ .code "queue_timeout" := by
    intro e
    cases e with
    | worker error => exact fun hc => absurd hc (by simp [Stream.storedError])
    | unhashable => decide
    | other message => exact fun hc => absurd hc (by simp [Stream.storedError])
  unfold finalTransition
  cases cancelled <;> rcases outcome with (error | _ | message) | result <;> dsimp only <;>
    split_ifs <;> simp [Lifecycle.allowed, hstored]

namespace Dispatcher

variable {R : Type} {cfg : DispatcherConfig} {s s' : Dispatcher R}

/-! ### Where a record is -/

/-- The record `_run` has taken from the queue and not started. -/
def held : Runner R → List ℕ
  | .taken e | .expired e => [e]
  | _ => []

/-- The record whose thread is about to be started. -/
def toLaunch : Runner R → List ℕ
  | .starting e => [e]
  | _ => []

/-- The thread `_run` looks at is the one of its record. -/
def Watches (tasks : List (Task R)) : Runner R → Prop
  | .watching e i | .left e i | .deciding e i | .overdue e i =>
    ∃ task : Task R, tasks[i]? = some task ∧ task.record = e
  | .ending _ target _ _ => target ∈ Lifecycle.RUNNING.allowed
  | _ => True

/-- A queued record is in the queue or in the hands of `_run`, and a running one has been
started. -/
def Placed (s : Dispatcher R) (e : ℕ) : Lifecycle → Prop
  | .RECEIVED | .PREFLIGHTED => False
  | .QUEUED => e ∈ held s.runner ∨ e ∈ s.pending
  | .RUNNING => e ∈ s.startedOrder
  | _ => True

theorem placed_of_terminal {e : ℕ} {l : Lifecycle} (h : l.IsTerminal) : Placed s e l := by
  cases l <;> trivial

structure Disciplined (cfg : DispatcherConfig) (s : Dispatcher R) : Prop where
  order : (s.startedOrder ++ held s.runner ++ s.pending).Pairwise (· < ·)
  known : ∀ e ∈ s.startedOrder ++ held s.runner ++ s.pending, e < s.registry.heap.length
  capacity : s.pending.length ≤ cfg.capacity
  ids : ∀ (e : ℕ) (r : RequestRecord R), s.registry.heap[e]? = some r →
    r.requestId = cfg.uuid4 (2 * e)
  placed : ∀ (e : ℕ) (r : RequestRecord R), s.registry.heap[e]? = some r → Placed s e r.lifecycle
  registered : ∀ (e : ℕ) (r : RequestRecord R), s.registry.heap[e]? = some r →
    ¬ r.lifecycle.IsTerminal → s.registry.records.get? r.requestId = some e
  entries : ∀ id e, s.registry.records.get? id = some e → e < s.registry.heap.length
  tasks : s.startedOrder = s.tasks.map Task.record ++ toLaunch s.runner
  executions : s.executions.Perm ((s.tasks.filter Task.begun).map Task.record)
  watched : Watches s.tasks s.runner

theorem disciplined_start : Disciplined cfg ({} : Dispatcher R) where
  order := List.Pairwise.nil
  known := fun _ he => absurd he List.not_mem_nil
  capacity := Nat.zero_le _
  ids := fun _ _ h => absurd h (by simp)
  placed := fun _ _ h => absurd h (by simp)
  registered := fun _ _ h => absurd h (by simp)
  entries := fun _ _ h => absurd h (by simp)
  tasks := rfl
  executions := .refl _
  watched := trivial

/-- The flags, the progress of the shutdown and the observers do not matter. -/
theorem Disciplined.congr (h : Disciplined cfg s) (hheap : s'.registry.heap = s.registry.heap)
    (hrecords : s'.registry.records = s.registry.records) (hpending : s'.pending = s.pending)
    (hrunner : s'.runner = s.runner) (htasks : s'.tasks = s.tasks)
    (hstarted : s'.startedOrder = s.startedOrder) (hexecutions : s'.executions = s.executions) :
    Disciplined cfg s' where
  order := by rw [hstarted, hrunner, hpending]; exact h.order
  known := by rw [hstarted, hrunner, hpending, hheap]; exact h.known
  capacity := by rw [hpending]; exact h.capacity
  ids := by rw [hheap]; exact h.ids
  placed := by
    intro e r hget
    rw [hheap] at hget
    have hplaced := h.placed e r hget
    unfold Placed at hplaced ⊢
    rw [hrunner, hpending, hstarted]
    exact hplaced
  registered := by rw [hheap, hrecords]; exact h.registered
  entries := by rw [hheap, hrecords]; exact h.entries
  tasks := by rw [hstarted, htasks, hrunner]; exact h.tasks
  executions := by rw [hexecutions, htasks]; exact h.executions
  watched := by rw [htasks, hrunner]; exact h.watched

/-- A record becomes terminal, or stays where it is. -/
theorem Disciplined.replace (h : Disciplined cfg s) {registry : Registry R} {e : ℕ}
    {r r' : RequestRecord R} (hreplaced : Registry.Replaced e r r' s.registry registry)
    (hlifecycle : r'.lifecycle.IsTerminal ∨ r'.lifecycle = r.lifecycle) :
    Disciplined cfg (s.setRegistry registry) := by
  have hcases : ∀ {e' : ℕ} {r₁ : RequestRecord R}, registry.heap[e']? = some r₁ →
      (e' = e ∧ r₁ = r') ∨ s.registry.heap[e']? = some r₁ := by
    intro e' r₁ hget
    by_cases heq : e = e'
    · subst heq
      exact .inl ⟨rfl, Option.some_inj.mp (hget.symm.trans hreplaced.self)⟩
    · exact .inr ((hreplaced.other heq).symm.trans hget)
  refine ⟨h.order, fun e' he' => ?_, h.capacity, fun e' r₁ hget => ?_, fun e' r₁ hget => ?_,
    fun e' r₁ hget hopen => ?_, fun id e' hid => ?_, h.tasks, h.executions, h.watched⟩
  · show e' < registry.heap.length
    rw [hreplaced.length]
    exact h.known e' he'
  · rcases hcases hget with ⟨rfl, rfl⟩ | hget
    · rw [hreplaced.id]
      exact h.ids _ _ hreplaced.get
    · exact h.ids e' r₁ hget
  · rcases hcases hget with ⟨rfl, rfl⟩ | hget
    · rcases hlifecycle with hterminal | hsame
      · exact placed_of_terminal hterminal
      · rw [hsame]
        exact h.placed _ _ hreplaced.get
    · exact h.placed e' r₁ hget
  · show registry.records.get? r₁.requestId = some e'
    rw [hreplaced.records]
    rcases hcases hget with ⟨rfl, rfl⟩ | hget
    · rcases hlifecycle with hterminal | hsame
      · exact absurd hterminal hopen
      · rw [hreplaced.id]
        exact h.registered _ _ hreplaced.get (hsame ▸ hopen)
    · exact h.registered e' r₁ hget hopen
  · show e' < registry.heap.length
    rw [hreplaced.length]
    exact h.entries id e' (hreplaced.records ▸ hid)

theorem Disciplined.nodup_pending (h : Disciplined cfg s) : s.pending.Nodup :=
  (List.pairwise_append.mp h.order).2.1.imp Nat.ne_of_lt

/-- A record that is not queued leaves the queue. -/
theorem Disciplined.removePending (h : Disciplined cfg s) {e : ℕ}
    (hnot : s.registry.lifecycleOf e ≠ some .QUEUED) : Disciplined cfg (s.removePending e) := by
  have hsub : (s.startedOrder ++ held s.runner ++ s.pending.erase e).Sublist
      (s.startedOrder ++ held s.runner ++ s.pending) :=
    (List.Sublist.refl _).append List.erase_sublist
  refine ⟨h.order.sublist hsub, fun e' he' => h.known e' (hsub.subset he'),
    le_trans List.length_erase_le h.capacity, h.ids, fun e' r hget => ?_, h.registered, h.entries,
    h.tasks, h.executions, h.watched⟩
  have hplaced := h.placed e' r hget
  cases hlifecycle : r.lifecycle with
  | QUEUED =>
    rw [hlifecycle] at hplaced
    refine hplaced.imp_right fun hmem => (List.mem_erase_of_ne ?_).mpr hmem
    rintro rfl
    exact hnot ((Registry.lifecycleOf_eq hget).trans (congrArg some hlifecycle))
  | _ =>
    rw [hlifecycle] at hplaced
    exact hplaced

/-- `_run` goes on with nothing new in its hands. -/
theorem Disciplined.setRunner (h : Disciplined cfg s) {runner : Runner R}
    (hheld : held runner = held s.runner ∨ (held runner = [] ∧
      ∀ e ∈ held s.runner, s.registry.lifecycleOf e ≠ some .QUEUED))
    (hlaunch : toLaunch runner = toLaunch s.runner) (hwatched : Watches s.tasks runner) :
    Disciplined cfg { s with runner := runner } := by
  have hsub : (s.startedOrder ++ held runner ++ s.pending).Sublist
      (s.startedOrder ++ held s.runner ++ s.pending) := by
    rcases hheld with heq | ⟨hnone, _⟩
    · rw [heq]
    · rw [hnone, List.append_nil]
      exact (List.sublist_append_left ..).append (.refl _)
  refine ⟨h.order.sublist hsub, fun e he => h.known e (hsub.subset he), h.capacity, h.ids,
    fun e r hget => ?_, h.registered, h.entries, ?_, h.executions, hwatched⟩
  · have hplaced := h.placed e r hget
    cases hlifecycle : r.lifecycle with
    | QUEUED =>
      rw [hlifecycle] at hplaced
      rcases hheld with heq | ⟨_, hnot⟩
      · show e ∈ held runner ∨ e ∈ s.pending
        rw [heq]
        exact hplaced
      · refine .inr (hplaced.resolve_left fun hmem => hnot e hmem ?_)
        exact (Registry.lifecycleOf_eq hget).trans (congrArg some hlifecycle)
    | _ =>
      rw [hlifecycle] at hplaced
      exact hplaced
  · show s.startedOrder = s.tasks.map Task.record ++ toLaunch runner
    rw [hlaunch]
    exact h.tasks

/-! ### The steps -/

theorem queued_timedOut : Lifecycle.TIMED_OUT ∈ Lifecycle.QUEUED.allowed := by decide

theorem queued_running : Lifecycle.RUNNING ∈ Lifecycle.QUEUED.allowed := by decide

theorem running_timedOut : Lifecycle.TIMED_OUT ∈ Lifecycle.RUNNING.allowed := by decide

theorem running_cancelled : Lifecycle.CANCELLED ∈ Lifecycle.RUNNING.allowed := by decide

/-- A transition from the queue or of a running record into a terminal lifecycle. -/
theorem Disciplined.compare (h : Disciplined cfg s) {expected target : Lifecycle}
    (hallowed : target ∈ expected.allowed) (hterminal : target.IsTerminal) (e : ℕ)
    (result : Option R) (error : Option RecordError) (now : ℚ) :
    Disciplined cfg (s.setRegistry
      (s.registry.compareAndTransition e expected target (.ok true) result error now).2) ∧
    (s.registry.compareAndTransition e expected target (.ok true) result error now).2.lifecycleOf e ≠
      some expected := by
  rcases Registry.compareAndTransition_cases hallowed s.registry e true result error now with
    ⟨r, r', hreplaced, _, _, hfrom, hto, _⟩ | ⟨heq, hother⟩
  · refine ⟨h.replace hreplaced (.inl (hto ▸ hterminal)), ?_⟩
    rw [Registry.lifecycleOf_eq hreplaced.self, hto]
    intro hc
    have hsame := Option.some_inj.mp hc
    exact Registry.not_terminal_of_allowed hallowed (hsame ▸ hterminal)
  · rw [heq]
    refine ⟨h, fun hc => ?_⟩
    obtain ⟨r, hget, hlifecycle⟩ := Option.map_eq_some_iff.mp hc
    exact absurd (hother r hget hlifecycle) (by simp)

theorem Disciplined.registryCancel (h : Disciplined cfg s) (requestId : PyStr) (now : ℚ) :
    Disciplined cfg (s.setRegistry (s.registry.cancel requestId now).2) := by
  rcases Registry.cancel_cases s.registry requestId now with
    ⟨e, r, r', _, hreplaced, _, _, hmoved⟩ | ⟨heq, _⟩
  · refine h.replace hreplaced ?_
    rcases hmoved with ⟨_, hto⟩ | ⟨_, hsame, _⟩
    · exact .inl (hto ▸ trivial)
    · exact .inr hsame
  · rw [heq]
    exact h

theorem Disciplined.cancel (h : Disciplined cfg s) (requestId : PyStr) (now : ℚ) :
    Disciplined cfg (s.cancel requestId now).2 := by
  unfold Dispatcher.cancel
  cases s.registry.records.get? requestId with
  | none => exact h
  | some e =>
    have hcancelled := h.registryCancel requestId now
    dsimp only
    split_ifs with hlifecycle
    · refine hcancelled.removePending fun hc => ?_
      have hsame := hlifecycle.symm.trans hc
      exact absurd hsame (by decide)
    · exact hcancelled

theorem Disciplined.expireNext (h : Disciplined cfg s) (now : ℚ) :
    Disciplined cfg (s.expireNext now) := by
  unfold Dispatcher.expireNext
  cases s.expiring with
  | nil => exact h
  | cons e rest =>
    obtain ⟨hkept, hnot⟩ := h.compare queued_timedOut trivial e none
      (some (.code "queue_timeout")) now
    exact (hkept.removePending hnot).congr rfl rfl rfl rfl rfl rfl rfl

theorem Disciplined.setCancelEvent (h : Disciplined cfg s) (e : ℕ) :
    Disciplined cfg (s.setCancelEvent e) := by
  unfold Dispatcher.setCancelEvent
  cases hget : s.registry.heap[e]? with
  | none => exact h
  | some record =>
    have hreplaced : Registry.Replaced e record { record with cancelEvent := true } s.registry
        { s.registry with heap := s.registry.heap.set e { record with cancelEvent := true } } :=
      ⟨hget, rfl, rfl, rfl⟩
    exact h.replace hreplaced (.inr rfl)

/-- A record is accepted at the end of the queue, or nothing happens. -/
theorem submit_cases (cfg : DispatcherConfig) (queueTimeoutMs executionTimeoutMs : ℕ) (t₁ t₂ t₃ : ℚ)
    (s : Dispatcher R) :
    (s.accepting = true ∧ s.pending.length < cfg.capacity ∧ ∃ registry r,
      s.submit cfg queueTimeoutMs executionTimeoutMs t₁ t₂ t₃ = (.ok s.registry.heap.length,
        { s with registry := registry, pending := s.pending ++ [s.registry.heap.length] }) ∧
      registry.heap = s.registry.heap ++ [r] ∧ r.lifecycle = .QUEUED ∧
      r.requestId = cfg.uuid4 (2 * s.registry.heap.length) ∧
      registry.records = s.registry.records.set r.requestId s.registry.heap.length) ∨
    ∃ error, s.submit cfg queueTimeoutMs executionTimeoutMs t₁ t₂ t₃ = (.error error, s) := by
  unfold submit
  by_cases haccepting : s.accepting = false
  · rw [if_pos haccepting]
    exact .inr ⟨_, rfl⟩
  rw [if_neg haccepting]
  by_cases hfull : cfg.capacity ≤ s.pending.length
  · rw [if_pos hfull]
    exact .inr ⟨_, rfl⟩
  rw [if_neg hfull]
  dsimp only
  set n := s.registry.heap.length with hn
  rcases hcreate : s.registry.create (cfg.uuid4 (2 * n)) (cfg.uuid4 (2 * n + 1)) queueTimeoutMs
    executionTimeoutMs t₁ with ⟨e, g⟩
  unfold Registry.create at hcreate
  dsimp only at hcreate
  obtain ⟨rfl, rfl⟩ := Prod.mk.inj hcreate
  dsimp only
  set r : RequestRecord R :=
    { requestId := cfg.uuid4 (2 * n), attemptId := cfg.uuid4 (2 * n + 1),
      queueDeadline := t₁ + queueTimeoutMs / 1000, executionTimeout := executionTimeoutMs / 1000,
      timestamps := (∅ : Dict Lifecycle ℚ).set .RECEIVED t₁ } with hr
  set g : Registry R := { s.registry with
    heap := s.registry.heap ++ [r], records := s.registry.records.set r.requestId n } with hg
  have hget : g.heap[n]? = some r := by
    show (s.registry.heap ++ [r])[n]? = some r
    rw [List.getElem?_append_right (le_of_eq hn.symm), ← hn, Nat.sub_self]
    rfl
  have hreceived : Lifecycle.PREFLIGHTED ∈ r.lifecycle.allowed := by
    show _ ∈ Lifecycle.RECEIVED.allowed
    decide
  obtain ⟨r₁, hfirst, hpreflighted⟩ := Registry.transition_allowed hget hreceived none none t₂
  have hthen : Lifecycle.QUEUED ∈ r₁.lifecycle.allowed := by
    rw [hpreflighted]
    decide
  obtain ⟨r₂, hsecond, hqueued⟩ := Registry.transition_allowed hfirst.self hthen none none t₃
  refine .inl ⟨by simpa using haccepting, not_le.mp hfull, _, r₂, rfl, ?_, hqueued, ?_, ?_⟩
  · rw [hsecond.heap, hfirst.heap, List.set_set]
    show (s.registry.heap ++ [r]).set n r₂ = s.registry.heap ++ [r₂]
    rw [List.set_append_right _ _ (le_of_eq hn.symm), ← hn, Nat.sub_self]
    rfl
  · rw [hsecond.id, hfirst.id]
  · rw [hsecond.records, hfirst.records, hsecond.id, hfirst.id]

theorem Disciplined.submit (h : Disciplined cfg s) (queueTimeoutMs executionTimeoutMs : ℕ)
    (t₁ t₂ t₃ : ℚ) :
    Disciplined cfg (s.submit cfg queueTimeoutMs executionTimeoutMs t₁ t₂ t₃).2 := by
  rcases submit_cases cfg queueTimeoutMs executionTimeoutMs t₁ t₂ t₃ s with
    ⟨_, hroom, registry, r, heq, hheap, hqueued, hid, hrecords⟩ | ⟨error, heq⟩
  swap
  · rw [heq]
    exact h
  rw [heq]
  set n := s.registry.heap.length with hn
  have hlength : registry.heap.length = n + 1 := by rw [hheap, List.length_append, ← hn]; rfl
  have hcases : ∀ {e : ℕ} {r₁ : RequestRecord R}, registry.heap[e]? = some r₁ →
      (e = n ∧ r₁ = r) ∨ e < n ∧ s.registry.heap[e]? = some r₁ := by
    intro e r₁ hget
    rw [hheap] at hget
    by_cases hlt : e < n
    · exact .inr ⟨hlt, (List.getElem?_append_left (hn ▸ hlt)).symm.trans hget⟩
    · rw [List.getElem?_append_right (by omega)] at hget
      obtain ⟨hsmall, heq⟩ := List.getElem?_eq_some_iff.mp hget
      have hzero : e - s.registry.heap.length = 0 := by
        have hone : e - s.registry.heap.length < 1 := hsmall
        omega
      refine .inl ⟨by omega, ?_⟩
      rw [hzero] at hget
      exact (Option.some_inj.mp hget).symm
  refine ⟨?_, fun e he => ?_, ?_, fun e r₁ hget => ?_, fun e r₁ hget => ?_, fun e r₁ hget hopen => ?_,
    fun id e hget => ?_, h.tasks, h.executions, h.watched⟩
  · show (s.startedOrder ++ held s.runner ++ (s.pending ++ [n])).Pairwise (· < ·)
    rw [← List.append_assoc]
    refine List.pairwise_append.mpr ⟨h.order, List.pairwise_singleton _ _, fun e he e' he' => ?_⟩
    obtain rfl := List.mem_singleton.mp he'
    exact h.known e he
  · show e < registry.heap.length
    have he : e ∈ s.startedOrder ++ held s.runner ++ (s.pending ++ [n]) := he
    rw [← List.append_assoc] at he
    rcases List.mem_append.mp he with he | he
    · have hlt := h.known e he
      omega
    · obtain rfl := List.mem_singleton.mp he
      omega
  · show (s.pending ++ [n]).length ≤ cfg.capacity
    rw [List.length_append]
    exact hroom
  · rcases hcases hget with ⟨rfl, rfl⟩ | ⟨_, hget⟩
    · exact hid
    · exact h.ids e r₁ hget
  · rcases hcases hget with ⟨rfl, rfl⟩ | ⟨_, hget⟩
    · rw [hqueued]
      exact .inr (List.mem_append_right _ (List.mem_singleton.mpr rfl))
    · have hplaced := h.placed e r₁ hget
      cases hlifecycle : r₁.lifecycle with
      | QUEUED =>
        rw [hlifecycle] at hplaced
        exact hplaced.imp_right (List.mem_append_left _)
      | _ =>
        rw [hlifecycle] at hplaced
        exact hplaced
  · show registry.records.get? r₁.requestId = some e
    rw [hrecords, Dict.get?_set]
    rcases hcases hget with ⟨rfl, rfl⟩ | ⟨hlt, hget⟩
    · rw [if_pos rfl]
    · -- the ids of two records differ
      rw [if_neg, h.registered e r₁ hget hopen]
      rw [hid, h.ids e r₁ hget]
      intro hc
      have hsame := cfg.uuid4_injective hc
      omega
  · show e < registry.heap.length
    have hget : registry.records.get? id = some e := hget
    rw [hrecords, Dict.get?_set] at hget
    split_ifs at hget
    · obtain rfl := Option.some_inj.mp hget
      omega
    · have hlt := h.entries id e hget
      omega

/-- One thread among the others. -/
theorem split_task {tasks : List (Task R)} {i : ℕ} {task : Task R} (hget : tasks[i]? = some task)
    (next : Task R) :
    ∃ before after, tasks = before ++ task :: after ∧ tasks.set i next = before ++ next :: after := by
  obtain ⟨hi, hget⟩ := List.getElem?_eq_some_iff.mp hget
  obtain ⟨before, after, heq, _, hset⟩ := @List.exists_of_set _ i next tasks hi
  rw [hget] at heq
  exact ⟨before, after, heq, hset⟩

theorem Watches.set {tasks : List (Task R)} {i : ℕ} {task next : Task R} {runner : Runner R}
    (h : Watches tasks runner) (hget : tasks[i]? = some task) (hrecord : next.record = task.record) :
    Watches (tasks.set i next) runner := by
  have hkept : ∀ e j : ℕ, (∃ task : Task R, tasks[j]? = some task ∧ task.record = e) →
      ∃ task : Task R, (tasks.set i next)[j]? = some task ∧ task.record = e := by
    rintro e j ⟨other, hother, hsame⟩
    by_cases heq : i = j
    · subst heq
      obtain rfl := Option.some_inj.mp (hget.symm.trans hother)
      refine ⟨next, ?_, hrecord.trans hsame⟩
      rw [List.getElem?_set_self (List.getElem?_eq_some_iff.mp hget).1]
    · exact ⟨other, (List.getElem?_set_ne heq).trans hother, hsame⟩
  cases runner with
  | watching e j => exact hkept e j h
  | left e j => exact hkept e j h
  | deciding e j => exact hkept e j h
  | overdue e j => exact hkept e j h
  | ending e target result error => exact h
  | _ => trivial

/-- The thread of a request goes on. -/
theorem Disciplined.setTask (h : Disciplined cfg s) {i : ℕ} {task next : Task R}
    (hget : s.tasks[i]? = some task) (hrecord : next.record = task.record) {executions : List ℕ}
    (hexecutions : (next.begun = task.begun ∧ executions = s.executions) ∨
      (task.begun = false ∧ next.begun = true ∧ executions = s.executions ++ [task.record])) :
    Disciplined cfg { s with tasks := s.tasks.set i next, executions := executions } := by
  obtain ⟨before, after, hsplit, hset⟩ := split_task hget next
  refine ⟨h.order, h.known, h.capacity, h.ids, h.placed, h.registered, h.entries, ?_, ?_,
    h.watched.set hget hrecord⟩
  · show s.startedOrder = (s.tasks.set i next).map Task.record ++ toLaunch s.runner
    rw [h.tasks, hset, hsplit]
    simp [hrecord]
  · show executions.Perm (((s.tasks.set i next).filter Task.begun).map Task.record)
    have hbefore := h.executions
    rw [hsplit, List.filter_append, List.filter_cons] at hbefore
    rw [hset, List.filter_append, List.filter_cons]
    rcases hexecutions with ⟨hsame, rfl⟩ | ⟨hnot, hbegun, rfl⟩
    · rw [hsame]
      refine hbefore.trans (.of_eq ?_)
      split_ifs
      · simp [hrecord]
      · rfl
    · rw [hnot, if_neg (by simp), List.map_append] at hbefore
      rw [hbegun, if_pos rfl, List.map_append, List.map_cons, hrecord]
      refine (List.perm_append_singleton _ _).trans ((hbefore.cons task.record).trans ?_)
      exact List.perm_middle.symm

theorem Disciplined.taskStep (h : Disciplined cfg s) (i : ℕ) (outcome : Except Raised R) :
    Disciplined cfg (s.taskStep i outcome) := by
  unfold Dispatcher.taskStep
  split
  · next e hget =>
    let next : Task R := ⟨e, .executing⟩
    have hrecord : next.record = e := rfl
    exact h.setTask hget hrecord (.inr ⟨rfl, rfl, rfl⟩)
  · next e hget =>
    let next : Task R := ⟨e, .ended outcome⟩
    have hrecord : next.record = e := rfl
    exact h.setTask hget hrecord (.inl ⟨rfl, rfl⟩)
  · exact h

/-- The record in the hands of `_run` starts. -/
theorem Disciplined.start (h : Disciplined cfg s) {e : ℕ} {registry : Registry R}
    {r r' : RequestRecord R} (hrunner : s.runner = .taken e)
    (hreplaced : Registry.Replaced e r r' s.registry registry) (hto : r'.lifecycle = .RUNNING)
    (hfrom : r.lifecycle = .QUEUED) :
    Disciplined cfg { s.setRegistry registry with
      runner := .starting e, startedOrder := s.startedOrder ++ [e] } := by
  have hheld : held s.runner = [e] := by rw [hrunner]; rfl
  have hlaunch : toLaunch s.runner = [] := by rw [hrunner]; rfl
  have horder := h.order
  have hknown := h.known
  rw [hheld] at horder hknown
  have hopen : ¬ r.lifecycle.IsTerminal := by
    rw [hfrom]
    exact id
  have hcases : ∀ {e' : ℕ} {r₁ : RequestRecord R}, registry.heap[e']? = some r₁ →
      (e' = e ∧ r₁ = r') ∨ e ≠ e' ∧ s.registry.heap[e']? = some r₁ := by
    intro e' r₁ hget
    by_cases heq : e = e'
    · subst heq
      exact .inl ⟨rfl, Option.some_inj.mp (hget.symm.trans hreplaced.self)⟩
    · exact .inr ⟨heq, (hreplaced.other heq).symm.trans hget⟩
  refine ⟨?_, fun e' he' => ?_, h.capacity, fun e' r₁ hget => ?_, fun e' r₁ hget => ?_,
    fun e' r₁ hget hopen' => ?_, fun id e' hid => ?_, ?_, h.executions, trivial⟩
  · show (s.startedOrder ++ [e] ++ [] ++ s.pending).Pairwise (· < ·)
    rw [List.append_nil]
    exact horder
  · show e' < registry.heap.length
    rw [hreplaced.length]
    have he' : e' ∈ s.startedOrder ++ [e] ++ [] ++ s.pending := he'
    rw [List.append_nil] at he'
    exact hknown e' he'
  · rcases hcases hget with ⟨rfl, rfl⟩ | ⟨_, hget⟩
    · rw [hreplaced.id]
      exact h.ids _ _ hreplaced.get
    · exact h.ids e' r₁ hget
  · rcases hcases hget with ⟨rfl, rfl⟩ | ⟨hne, hget⟩
    · rw [hto]
      exact List.mem_append_right _ (List.mem_singleton.mpr rfl)
    · have hplaced := h.placed e' r₁ hget
      cases hlifecycle : r₁.lifecycle with
      | QUEUED =>
        rw [hlifecycle] at hplaced
        refine .inr (hplaced.resolve_left fun hmem => hne ?_)
        rw [hheld] at hmem
        exact (List.mem_singleton.mp hmem).symm
      | RUNNING =>
        rw [hlifecycle] at hplaced
        exact List.mem_append_left _ hplaced
      | _ =>
        rw [hlifecycle] at hplaced
        exact hplaced
  · show registry.records.get? r₁.requestId = some e'
    rw [hreplaced.records]
    rcases hcases hget with ⟨rfl, rfl⟩ | ⟨_, hget⟩
    · rw [hreplaced.id]
      exact h.registered _ _ hreplaced.get hopen
    · exact h.registered e' r₁ hget hopen'
  · show e' < registry.heap.length
    rw [hreplaced.length]
    exact h.entries id e' (hreplaced.records ▸ hid)
  · show s.startedOrder ++ [e] = s.tasks.map Task.record ++ [e]
    rw [h.tasks, hlaunch, List.append_nil]

theorem Disciplined.runStep (h : Disciplined cfg s) (answer : RunAnswer) :
    Disciplined cfg (s.runStep answer) := by
  -- `_run` goes on without a record in its hands
  have hfree : ∀ {s : Dispatcher R} {runner : Runner R}, Disciplined cfg s → held s.runner = [] →
      toLaunch s.runner = [] → held runner = [] → toLaunch runner = [] → Watches s.tasks runner →
        Disciplined cfg { s with runner := runner } :=
    fun h hheld hlaunch hheld' hlaunch' hwatched =>
      h.setRunner (.inl (hheld'.trans hheld.symm)) (hlaunch'.trans hlaunch.symm) hwatched
  have hwatched := h.watched
  unfold Dispatcher.runStep
  cases hrunner : s.runner with
  | waiting =>
    dsimp only
    split_ifs
    · exact hfree h (by rw [hrunner]; rfl) (by rw [hrunner]; rfl) rfl rfl trivial
    · exact h
    · exact hfree h (by rw [hrunner]; rfl) (by rw [hrunner]; rfl) rfl rfl trivial
  | polling =>
    dsimp only
    split_ifs
    · exact hfree h (by rw [hrunner]; rfl) (by rw [hrunner]; rfl) rfl rfl trivial
    cases hpending : s.pending with
    | nil => exact h
    | cons e rest =>
      have horder := h.order
      have hknown := h.known
      have hcapacity := h.capacity
      rw [hrunner, hpending] at horder hknown
      rw [hpending] at hcapacity
      have hsame : s.startedOrder ++ [e] ++ rest = s.startedOrder ++ [] ++ e :: rest := by simp
      refine ⟨?_, ?_, Nat.le_of_succ_le hcapacity, h.ids, fun e' r hget => ?_, h.registered,
        h.entries, ?_, h.executions, trivial⟩
      · show (s.startedOrder ++ [e] ++ rest).Pairwise (· < ·)
        rw [hsame]
        exact horder
      · show ∀ e' ∈ s.startedOrder ++ [e] ++ rest, _
        rw [hsame]
        exact hknown
      · have hplaced := h.placed e' r hget
        cases hlifecycle : r.lifecycle with
        | QUEUED =>
          rw [hlifecycle] at hplaced
          have hmem : e' ∈ s.pending := hplaced.resolve_left fun hc => by
            rw [hrunner] at hc
            exact absurd hc List.not_mem_nil
          rw [hpending] at hmem
          exact (List.mem_cons.mp hmem).imp_left List.mem_singleton.mpr
        | _ =>
          rw [hlifecycle] at hplaced
          exact hplaced
      · show s.startedOrder = s.tasks.map Task.record ++ []
        rw [h.tasks, hrunner]
        rfl
  | taken e =>
    dsimp only
    rcases Registry.compareAndTransition_cases queued_running s.registry e _ none none answer.now
      with ⟨r, r', hreplaced, hreply, _, hfrom, hto, _⟩ | ⟨heq, _⟩
    · rcases hout : s.registry.compareAndTransition e .QUEUED .RUNNING _ none none answer.now
        with ⟨reply, registry⟩
      rw [hout] at hreplaced hreply
      dsimp only at hreply
      subst hreply
      exact h.start hrunner hreplaced hto hfrom
    · rw [heq]
      exact h.setRunner (.inl (by rw [hrunner]; rfl)) (by rw [hrunner]; rfl) trivial
  | expired e =>
    obtain ⟨hkept, hnot⟩ := h.compare queued_timedOut trivial e none
      (some (.code "queue_timeout")) answer.now
    refine hkept.setRunner (.inr ⟨rfl, fun e' he' => ?_⟩) ?_ trivial
    · have he' : e' ∈ held s.runner := he'
      rw [hrunner] at he'
      obtain rfl := List.mem_singleton.mp he'
      exact hnot
    · show _ = toLaunch s.runner
      rw [hrunner]
      rfl
  | starting e =>
    have htasks := h.tasks
    have horder := h.order
    have hknown := h.known
    rw [hrunner] at htasks horder hknown
    refine ⟨horder, hknown, h.capacity, h.ids, fun e' r hget => ?_, h.registered, h.entries, ?_, ?_,
      ?_⟩
    · have hplaced := h.placed e' r hget
      cases hlifecycle : r.lifecycle with
      | QUEUED =>
        rw [hlifecycle] at hplaced
        refine .inr (hplaced.resolve_left fun hc => ?_)
        rw [hrunner] at hc
        exact absurd hc List.not_mem_nil
      | _ =>
        rw [hlifecycle] at hplaced
        exact hplaced
    · show s.startedOrder = (s.tasks ++ [({ record := e } : Task R)]).map Task.record ++ []
      rw [htasks, List.map_append, List.append_nil]
      rfl
    · show s.executions.Perm
        (((s.tasks ++ [({ record := e } : Task R)]).filter Task.begun).map Task.record)
      rw [List.filter_append, List.filter_cons_of_neg (by simp [Task.begun]), List.filter_nil,
        List.append_nil]
      exact h.executions
    · exact ⟨_, List.getElem?_concat_length, rfl⟩
  | watching e i =>
    rw [hrunner] at hwatched
    dsimp only
    split_ifs
    · exact hfree h (by rw [hrunner]; rfl) (by rw [hrunner]; rfl) rfl rfl hwatched
    · exact h
    · exact hfree h (by rw [hrunner]; rfl) (by rw [hrunner]; rfl) rfl rfl hwatched
  | left e i =>
    rw [hrunner] at hwatched
    dsimp only
    split_ifs
    · exact hfree h (by rw [hrunner]; rfl) (by rw [hrunner]; rfl) rfl rfl trivial
    · exact hfree h (by rw [hrunner]; rfl) (by rw [hrunner]; rfl) rfl rfl hwatched
  | deciding e i =>
    rw [hrunner] at hwatched
    dsimp only
    split
    · exact hfree h (by rw [hrunner]; rfl) (by rw [hrunner]; rfl) rfl rfl
        (finalTransition_spec _ _).1
    · have hrun : (s.setCancelEvent e).runner = s.runner ∧
          (s.setCancelEvent e).tasks = s.tasks := by
        unfold Dispatcher.setCancelEvent
        split <;> exact ⟨rfl, rfl⟩
      refine hfree (h.setCancelEvent e) ?_ ?_ rfl rfl ?_
      · rw [hrun.1, hrunner]
        rfl
      · rw [hrun.1, hrunner]
        rfl
      · rw [hrun.2]
        exact hwatched
  | overdue e i => exact hfree h (by rw [hrunner]; rfl) (by rw [hrunner]; rfl) rfl rfl trivial
  | timingOut e restartRequired =>
    obtain ⟨hkept, _⟩ := h.compare running_timedOut trivial e none
      (some (.code "deadline_exceeded")) answer.now
    have hheld : held s.runner = [] := by rw [hrunner]; rfl
    have hlaunch : toLaunch s.runner = [] := by rw [hrunner]; rfl
    cases restartRequired with
    | true => exact hfree hkept hheld hlaunch rfl rfl trivial
    | false => exact hfree hkept hheld hlaunch rfl rfl trivial
  | restarting =>
    dsimp only
    split_ifs
    · exact hfree h (by rw [hrunner]; rfl) (by rw [hrunner]; rfl) rfl rfl trivial
    · have hwaits : Disciplined cfg { s with runner := .waiting } :=
        hfree h (by rw [hrunner]; rfl) (by rw [hrunner]; rfl) rfl rfl trivial
      exact hwaits.congr rfl rfl rfl rfl rfl rfl rfl
  | ending e target result error =>
    rw [hrunner] at hwatched
    have hterminal : target.IsTerminal := by
      have hallowed : target ∈ Lifecycle.RUNNING.allowed := hwatched
      cases target <;> simp [Lifecycle.allowed, Lifecycle.IsTerminal] at hallowed ⊢
    obtain ⟨hkept, _⟩ := h.compare hwatched hterminal e result error answer.now
    have hheld : held s.runner = [] := by rw [hrunner]; rfl
    have hlaunch : toLaunch s.runner = [] := by rw [hrunner]; rfl
    exact hfree hkept hheld hlaunch rfl rfl trivial
  | stopped => exact h

theorem Disciplined.prune (h : Disciplined cfg s) (ttlSeconds : ℚ) (maxRecords : ℤ) (now : ℚ) :
    Disciplined cfg (s.setRegistry (s.registry.pruneTerminal ttlSeconds maxRecords now).2) := by
  obtain ⟨hheap, hback, hkeep⟩ := Registry.pruneTerminal_keeps s.registry ttlSeconds maxRecords now
  generalize (s.registry.pruneTerminal ttlSeconds maxRecords now).2 = registry
    at hheap hback hkeep ⊢
  refine ⟨h.order, fun e he => ?_, h.capacity, fun e r hget => ?_, fun e r hget => ?_,
    fun e r hget hopen => ?_, fun id e hid => ?_, h.tasks, h.executions, h.watched⟩
  · show e < registry.heap.length
    rw [hheap]
    exact h.known e he
  · exact h.ids e r (hheap ▸ hget)
  · exact h.placed e r (hheap ▸ hget)
  · have hget : s.registry.heap[e]? = some r := hheap ▸ hget
    refine hkeep _ e (h.registered e r hget hopen) fun hc => ?_
    obtain ⟨r', hget', hterminal⟩ := Registry.ended_iff.mp hc
    obtain rfl := Option.some_inj.mp (hget.symm.trans hget')
    exact hopen hterminal
  · show e < registry.heap.length
    rw [hheap]
    exact h.entries id e (hback id e hid)

theorem Disciplined.shutdownStep (h : Disciplined cfg s) (now : ℚ)
    (hremoving : ∀ e rest, s.shutdown = .removing e rest →
      s.registry.lifecycleOf e ≠ some .QUEUED) : Disciplined cfg (s.shutdownStep now) := by
  unfold Dispatcher.shutdownStep
  cases hshutdown : s.shutdown with
  | idle => exact h.congr rfl rfl rfl rfl rfl rfl rfl
  | refusing => exact h.congr rfl rfl rfl rfl rfl rfl rfl
  | started => exact h.congr rfl rfl rfl rfl rfl rfl rfl
  | stopping => exact h.congr rfl rfl rfl rfl rfl rfl rfl
  | walking rest =>
    cases rest with
    | nil => exact h.congr rfl rfl rfl rfl rfl rfl rfl
    | cons e rest =>
      dsimp only
      split_ifs
      · exact h.congr rfl rfl rfl rfl rfl rfl rfl
      · exact h.congr rfl rfl rfl rfl rfl rfl rfl
  | cancelling e rest =>
    dsimp only
    cases s.registry.heap[e]? with
    | none => exact h.congr rfl rfl rfl rfl rfl rfl rfl
    | some record =>
      have hcancelled := h.registryCancel record.requestId now
      dsimp only
      generalize s.registry.cancel record.requestId now = cancelled at hcancelled ⊢
      obtain ⟨reply, registry⟩ := cancelled
      match reply with
      | .ok true => exact hcancelled.congr rfl rfl rfl rfl rfl rfl rfl
      | .ok false => exact hcancelled.congr rfl rfl rfl rfl rfl rfl rfl
      | .error exc => exact hcancelled.congr rfl rfl rfl rfl rfl rfl rfl
  | cancelled e rest =>
    dsimp only
    split_ifs
    · exact h.congr rfl rfl rfl rfl rfl rfl rfl
    · exact h.congr rfl rfl rfl rfl rfl rfl rfl
  | removing e rest =>
    exact (h.removePending (hremoving e rest hshutdown)).congr rfl rfl rfl rfl rfl rfl rfl
  | transiting e rest =>
    exact (h.compare running_cancelled trivial e none (some (.code "shutdown")) now).1.congr
      rfl rfl rfl rfl rfl rfl rfl
  | done => exact h

theorem Disciplined.step (h : Disciplined cfg s) (m : DispatcherMove R)
    (hremoving : ∀ e rest, s.shutdown = .removing e rest →
      s.registry.lifecycleOf e ≠ some .QUEUED) : Disciplined cfg (s.step cfg m) := by
  unfold Dispatcher.step
  cases m with
  | submit queueTimeoutMs executionTimeoutMs t₁ t₂ t₃ =>
    dsimp only
    split_ifs
    · exact h.submit queueTimeoutMs executionTimeoutMs t₁ t₂ t₃
    · exact h
  | cancel requestId now =>
    dsimp only
    split_ifs
    · exact h.cancel requestId now
    · exact h
  | expire now =>
    dsimp only
    unfold Dispatcher.expire
    split_ifs
    · exact h
    · exact h.congr rfl rfl rfl rfl rfl rfl rfl
    · exact h
  | expireNext now => exact h.expireNext now
  | run answer =>
    dsimp only
    split_ifs
    · exact h
    · exact h.runStep answer
  | task i outcome => exact h.taskStep i outcome
  | setCancelEvent e => exact h.setCancelEvent e
  | restartEnds => exact h.congr rfl rfl rfl rfl rfl rfl rfl
  | shutdown now =>
    dsimp only
    split_ifs
    · exact h
    · exact h.shutdownStep now hremoving
  | addTerminalObserver observer =>
    obtain ⟨hheap, hrecords⟩ := Registry.addTerminalObserver_keeps s.registry observer
    exact h.congr hheap hrecords rfl rfl rfl rfl rfl
  | removeTerminalObserver observer =>
    obtain ⟨hheap, hrecords⟩ := Registry.removeTerminalObserver_keeps s.registry observer
    exact h.congr hheap hrecords rfl rfl rfl rfl rfl
  | pruneTerminal ttlSeconds maxRecords now => exact h.prune ttlSeconds maxRecords now
  | notifyNext i outcome =>
    obtain ⟨hheap, hrecords⟩ := Registry.notifyNext_keeps s.registry i outcome
    exact h.congr hheap hrecords rfl rfl rfl rfl rfl

/-! ### What becomes of a record -/

/-- The registry has taken one step, or a record has been asked to cancel. -/
inductive Reaches (g g' : Registry R) : Prop where
  | same (eq : g' = g) : Reaches g g'
  | call (c : RegistryCall R) (eq : g' = g.step c) : Reaches g g'
  | flagged (e : ℕ) (r : RequestRecord R) (get : g.heap[e]? = some r)
      (heap : g'.heap = g.heap.set e { r with cancelEvent := true }) : Reaches g g'

theorem Reaches.change {g g' : Registry R} (h : Reaches g g') {e : ℕ} {r : RequestRecord R}
    (hget : g.heap[e]? = some r) : ∃ r', g'.heap[e]? = some r' ∧ Registry.RecordChange r r' := by
  cases h with
  | same eq => exact ⟨r, eq ▸ hget, .refl r⟩
  | call c eq =>
    rw [eq]
    exact Registry.step_change g c hget
  | flagged e₀ r₀ get heap =>
    rw [heap]
    by_cases heq : e₀ = e
    · subst heq
      obtain rfl := Option.some_inj.mp (get.symm.trans hget)
      exact ⟨_, List.getElem?_set_self (List.getElem?_eq_some_iff.mp hget).1, .kept rfl rfl rfl rfl⟩
    · exact ⟨r, (List.getElem?_set_ne heq).trans hget, .refl r⟩

theorem setCancelEvent_reaches (s : Dispatcher R) (e : ℕ) :
    Reaches s.registry (s.setCancelEvent e).registry := by
  unfold Dispatcher.setCancelEvent
  cases hget : s.registry.heap[e]? with
  | none => exact .same rfl
  | some record => exact .flagged e record hget rfl

theorem compare_reaches (g : Registry R) (e : ℕ) (expected target : Lifecycle) (predicate : Bool)
    (result : Option R) (error : Option RecordError) (now : ℚ) :
    Reaches g (g.compareAndTransition e expected target (.ok predicate) result error now).2 :=
  .call (.compareAndTransition e expected target (.ok predicate) result error now) rfl

theorem cancel_reaches (s : Dispatcher R) (requestId : PyStr) (now : ℚ) :
    Reaches s.registry (s.cancel requestId now).2.registry := by
  unfold Dispatcher.cancel
  cases s.registry.records.get? requestId with
  | none => exact .same rfl
  | some e =>
    dsimp only
    split_ifs
    · exact .call (.cancel requestId now) rfl
    · exact .call (.cancel requestId now) rfl

theorem expireNext_reaches (s : Dispatcher R) (now : ℚ) :
    Reaches s.registry (s.expireNext now).registry := by
  unfold Dispatcher.expireNext
  cases s.expiring with
  | nil => exact .same rfl
  | cons e rest => exact compare_reaches ..

theorem runStep_reaches (s : Dispatcher R) (answer : RunAnswer) :
    Reaches s.registry (s.runStep answer).registry := by
  unfold Dispatcher.runStep
  cases s.runner with
  | taken e =>
    dsimp only
    have hreaches := compare_reaches s.registry e .QUEUED .RUNNING
      ((s.registry.heap[e]?.map fun record => decide (answer.now < record.queueDeadline)).getD false)
      none none answer.now
    generalize s.registry.compareAndTransition e .QUEUED .RUNNING _ none none answer.now = out
      at hreaches ⊢
    obtain ⟨reply, registry⟩ := out
    match reply with
    | .ok true => exact hreaches
    | .ok false => exact hreaches
    | .error exc => exact hreaches
  | expired e => exact compare_reaches ..
  | timingOut e restartRequired => exact compare_reaches ..
  | ending e target result error => exact compare_reaches ..
  | deciding e i =>
    dsimp only
    split
    · exact .same rfl
    · exact setCancelEvent_reaches s e
  | polling =>
    dsimp only
    split_ifs
    · exact .same rfl
    · split <;> exact .same rfl
  | starting e => exact .same rfl
  | overdue e i => exact .same rfl
  | stopped => exact .same rfl
  | _ =>
    dsimp only
    split_ifs <;> exact .same rfl

theorem shutdownStep_reaches (s : Dispatcher R) (now : ℚ) :
    Reaches s.registry (s.shutdownStep now).registry := by
  unfold Dispatcher.shutdownStep
  cases s.shutdown with
  | walking rest =>
    cases rest with
    | nil => exact .same rfl
    | cons e rest =>
      dsimp only
      split_ifs <;> exact .same rfl
  | cancelling e rest =>
    dsimp only
    cases s.registry.heap[e]? with
    | none => exact .same rfl
    | some record =>
      have hreaches : Reaches s.registry (s.registry.cancel record.requestId now).2 :=
        .call (.cancel record.requestId now) rfl
      dsimp only
      generalize s.registry.cancel record.requestId now = cancelled at hreaches ⊢
      obtain ⟨reply, registry⟩ := cancelled
      match reply with
      | .ok true => exact hreaches
      | .ok false => exact hreaches
      | .error exc => exact hreaches
  | cancelled e rest =>
    dsimp only
    split_ifs <;> exact .same rfl
  | transiting e rest => exact compare_reaches ..
  | _ => exact .same rfl

theorem submit_record (cfg : DispatcherConfig) (queueTimeoutMs executionTimeoutMs : ℕ)
    (t₁ t₂ t₃ : ℚ) (s : Dispatcher R) {e : ℕ} {r : RequestRecord R}
    (hget : s.registry.heap[e]? = some r) :
    (s.submit cfg queueTimeoutMs executionTimeoutMs t₁ t₂ t₃).2.registry.heap[e]? = some r := by
  rcases submit_cases cfg queueTimeoutMs executionTimeoutMs t₁ t₂ t₃ s with
    ⟨_, _, registry, r₁, heq, hheap, _⟩ | ⟨error, heq⟩
  · rw [heq]
    show registry.heap[e]? = some r
    rw [hheap, List.getElem?_append_left (List.getElem?_eq_some_iff.mp hget).1]
    exact hget
  · rw [heq]
    exact hget

/-- Whatever the step, a record is kept or goes on by an allowed transition. -/
theorem step_record (cfg : DispatcherConfig) (s : Dispatcher R) (m : DispatcherMove R) {e : ℕ}
    {r : RequestRecord R} (hget : s.registry.heap[e]? = some r) :
    ∃ r', (s.step cfg m).registry.heap[e]? = some r' ∧ Registry.RecordChange r r' := by
  have hsame : Reaches s.registry s.registry := .same rfl
  unfold Dispatcher.step
  cases m with
  | submit queueTimeoutMs executionTimeoutMs t₁ t₂ t₃ =>
    dsimp only
    split_ifs
    · exact ⟨r, submit_record cfg queueTimeoutMs executionTimeoutMs t₁ t₂ t₃ s hget, .refl r⟩
    · exact hsame.change hget
  | cancel requestId now =>
    dsimp only
    split_ifs
    · exact (cancel_reaches s requestId now).change hget
    · exact hsame.change hget
  | expire now =>
    dsimp only
    unfold Dispatcher.expire
    split_ifs <;> exact hsame.change hget
  | expireNext now => exact (expireNext_reaches s now).change hget
  | run answer =>
    dsimp only
    split_ifs
    · exact hsame.change hget
    · exact (runStep_reaches s answer).change hget
  | task i outcome =>
    dsimp only
    unfold Dispatcher.taskStep
    split <;> exact hsame.change hget
  | setCancelEvent e' => exact (setCancelEvent_reaches s e').change hget
  | restartEnds => exact hsame.change hget
  | shutdown now =>
    dsimp only
    split_ifs
    · exact hsame.change hget
    · exact (shutdownStep_reaches s now).change hget
  | addTerminalObserver observer =>
    exact Registry.step_change s.registry (.addTerminalObserver observer) hget
  | removeTerminalObserver observer =>
    exact Registry.step_change s.registry (.removeTerminalObserver observer) hget
  | pruneTerminal ttlSeconds maxRecords now =>
    exact Registry.step_change s.registry (.pruneTerminal ttlSeconds maxRecords now) hget
  | notifyNext i outcome => exact Registry.step_change s.registry (.notifyNext i outcome) hget

theorem step_ended (cfg : DispatcherConfig) (s : Dispatcher R) (m : DispatcherMove R) {e : ℕ}
    (h : Registry.Ended (s.registry.lifecycleOf e)) :
    Registry.Ended ((s.step cfg m).registry.lifecycleOf e) := by
  obtain ⟨r, hget, hterminal⟩ := Registry.ended_iff.mp h
  obtain ⟨r', hget', hchange⟩ := step_record cfg s m hget
  refine Registry.ended_iff.mpr ⟨r', hget', ?_⟩
  rw [(hchange.of_terminal hterminal).1]
  exact hterminal

end Dispatcher

end Worker
