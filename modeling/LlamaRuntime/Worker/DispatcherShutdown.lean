/-
The shutdown of the dispatcher.

`_begin_shutdown` walks over the records it has found, while the other threads go on.
`Walks` says at each of its steps which records may still be open.

* `shutdown_complete` — when it has walked over its records every record is terminal
  and stays so, and no request is accepted.
-/
import LlamaRuntime.Worker.QueueDiscipline

namespace Worker

namespace Registry

variable {R : Type}

theorem transitionLocked_length (g : Registry R) (e : ℕ) (record : RequestRecord R)
    (target : Lifecycle) (result : Option R) (error : Option RecordError) (now : ℚ) :
    (g.transitionLocked e record target result error now).2.heap.length = g.heap.length := by
  unfold transitionLocked
  split <;> exact List.length_set

theorem compareAndTransition_length (g : Registry R) (e : ℕ) (expected target : Lifecycle)
    (predicate : Bool) (result : Option R) (error : Option RecordError) (now : ℚ) :
    (g.compareAndTransition e expected target (.ok predicate) result error now).2.heap.length =
      g.heap.length := by
  unfold compareAndTransition
  cases g.heap[e]? with
  | none => rfl
  | some record =>
    dsimp only
    by_cases hexpected : record.lifecycle ≠ expected
    · rw [if_pos hexpected]
    rw [if_neg hexpected]
    cases predicate with
    | false => rfl
    | true =>
      have hlength := transitionLocked_length g e record target result error now
      dsimp only
      rw [(notifyTerminal_heap e _).1]
      exact hlength

theorem cancel_length (g : Registry R) (requestId : PyStr) (now : ℚ) :
    (g.cancel requestId now).2.heap.length = g.heap.length := by
  rcases cancel_cases g requestId now with ⟨_, _, _, _, hreplaced, _⟩ | ⟨heq, _⟩
  · exact hreplaced.length
  · rw [heq]

end Registry

namespace Dispatcher

variable {R : Type} {cfg : DispatcherConfig} {s s' : Dispatcher R}

/-! ### The steps of the others -/

/-- Nothing is accepted that was not before, and the shutdown stands where it stood. -/
structure Aside (s s' : Dispatcher R) : Prop where
  shutdown : s'.shutdown = s.shutdown
  accepting : s'.accepting = s.accepting
  length : s.accepting = false → s'.registry.heap.length = s.registry.heap.length

theorem Aside.of_length (hshutdown : s'.shutdown = s.shutdown) (haccepting : s'.accepting = s.accepting)
    (hlength : s'.registry.heap.length = s.registry.heap.length) : Aside s s' :=
  ⟨hshutdown, haccepting, fun _ => hlength⟩

theorem setCancelEvent_aside (s : Dispatcher R) (e : ℕ) : Aside s (s.setCancelEvent e) := by
  unfold Dispatcher.setCancelEvent
  split
  · exact .of_length rfl rfl rfl
  · exact .of_length rfl rfl List.length_set

theorem runStep_aside (s : Dispatcher R) (answer : RunAnswer) : Aside s (s.runStep answer) := by
  have hsame : Aside s s := .of_length rfl rfl rfl
  unfold Dispatcher.runStep
  cases s.runner with
  | taken e =>
    dsimp only
    have hlength := Registry.compareAndTransition_length s.registry e .QUEUED .RUNNING
      ((s.registry.heap[e]?.map fun record => decide (answer.now < record.queueDeadline)).getD false)
      none none answer.now
    generalize s.registry.compareAndTransition e .QUEUED .RUNNING _ none none answer.now = out
      at hlength ⊢
    obtain ⟨reply, registry⟩ := out
    match reply with
    | .ok true => exact .of_length rfl rfl hlength
    | .ok false => exact .of_length rfl rfl hlength
    | .error exc => exact .of_length rfl rfl hlength
  | expired e => exact .of_length rfl rfl (Registry.compareAndTransition_length ..)
  | timingOut e restartRequired =>
    exact .of_length rfl rfl (Registry.compareAndTransition_length ..)
  | ending e target result error =>
    exact .of_length rfl rfl (Registry.compareAndTransition_length ..)
  | deciding e i =>
    dsimp only
    split
    · exact .of_length rfl rfl rfl
    · have haside := setCancelEvent_aside s e
      exact ⟨haside.shutdown, haside.accepting, haside.length⟩
  | polling =>
    dsimp only
    split_ifs
    · exact .of_length rfl rfl rfl
    · split <;> exact .of_length rfl rfl rfl
  | starting e => exact .of_length rfl rfl rfl
  | overdue e i => exact .of_length rfl rfl rfl
  | stopped => exact hsame
  | _ =>
    dsimp only
    split_ifs <;> exact .of_length rfl rfl rfl

theorem submit_refused (h : s.accepting = false) (queueTimeoutMs executionTimeoutMs : ℕ)
    (t₁ t₂ t₃ : ℚ) : s.submit cfg queueTimeoutMs executionTimeoutMs t₁ t₂ t₃ =
      (.error ⟨.shutdown, py "service is draining", []⟩, s) := by
  unfold Dispatcher.submit
  rw [if_pos h]

theorem step_aside (cfg : DispatcherConfig) (s : Dispatcher R) (m : DispatcherMove R)
    (hother : ∀ now, m ≠ .shutdown now) : Aside s (s.step cfg m) := by
  have hsame : Aside s s := .of_length rfl rfl rfl
  unfold Dispatcher.step
  cases m with
  | submit queueTimeoutMs executionTimeoutMs t₁ t₂ t₃ =>
    dsimp only
    split_ifs
    · refine ⟨(submit_started cfg queueTimeoutMs executionTimeoutMs t₁ t₂ t₃ s).2.2, ?_, fun h => ?_⟩
      · rcases submit_cases cfg queueTimeoutMs executionTimeoutMs t₁ t₂ t₃ s with
          ⟨_, _, _, _, heq, _⟩ | ⟨_, heq⟩ <;> rw [heq]
      · rw [submit_refused h]
    · exact hsame
  | cancel requestId now =>
    dsimp only
    split_ifs
    · unfold Dispatcher.cancel
      cases s.registry.records.get? requestId with
      | none => exact hsame
      | some e =>
        dsimp only
        split_ifs <;> exact .of_length rfl rfl (Registry.cancel_length ..)
    · exact hsame
  | expire now =>
    dsimp only
    unfold Dispatcher.expire
    split_ifs <;> exact .of_length rfl rfl rfl
  | expireNext now =>
    dsimp only
    unfold Dispatcher.expireNext
    cases s.expiring with
    | nil => exact hsame
    | cons e rest => exact .of_length rfl rfl (Registry.compareAndTransition_length ..)
  | run answer =>
    dsimp only
    split_ifs
    · exact hsame
    · exact runStep_aside s answer
  | task i outcome =>
    dsimp only
    unfold Dispatcher.taskStep
    split <;> exact .of_length rfl rfl rfl
  | setCancelEvent e => exact setCancelEvent_aside s e
  | restartEnds => exact .of_length rfl rfl rfl
  | shutdown now => exact absurd rfl (hother now)
  | addTerminalObserver observer =>
    have hheap := (Registry.addTerminalObserver_keeps s.registry observer).1
    exact .of_length rfl rfl (congrArg List.length hheap)
  | removeTerminalObserver observer =>
    have hheap := (Registry.removeTerminalObserver_keeps s.registry observer).1
    exact .of_length rfl rfl (congrArg List.length hheap)
  | pruneTerminal ttlSeconds maxRecords now =>
    have hheap := (Registry.pruneTerminal_keeps s.registry ttlSeconds maxRecords now).1
    exact .of_length rfl rfl (congrArg List.length hheap)
  | notifyNext i outcome =>
    have hheap := (Registry.notifyNext_keeps s.registry i outcome).1
    exact .of_length rfl rfl (congrArg List.length hheap)

/-! ### The walk -/

/-- No request is accepted, and only the given records may be open. -/
structure Remaining (rest : List ℕ) (s : Dispatcher R) : Prop where
  accepting : s.accepting = false
  ended : ∀ e < s.registry.heap.length, e ∉ rest → Registry.Ended (s.registry.lifecycleOf e)

/-- What the records are at each step of the walk. -/
def Walks (s : Dispatcher R) : Prop :=
  match s.shutdown with
  | .idle => True
  | .refusing | .started | .stopping => s.accepting = false
  | .walking rest => Remaining rest s
  | .cancelling e rest => Remaining (e :: rest) s
  | .cancelled e rest | .transiting e rest =>
    Remaining (e :: rest) s ∧ s.registry.lifecycleOf e ≠ some .QUEUED
  | .removing e rest => Remaining rest s ∧ Registry.Ended (s.registry.lifecycleOf e)
  | .done => Remaining [] s

theorem Remaining.step {rest : List ℕ} (h : Remaining rest s) (m : DispatcherMove R)
    (hother : ∀ now, m ≠ .shutdown now) : Remaining rest (s.step cfg m) := by
  have haside := step_aside cfg s m hother
  refine ⟨haside.accepting.trans h.accepting, fun e he hnot => step_ended cfg s m ?_⟩
  exact h.ended e (haside.length h.accepting ▸ he) hnot

/-- A record that is not queued does not get into the queue again. -/
theorem Disciplined.not_queued (h : Disciplined cfg s) {e : ℕ}
    (hnot : s.registry.lifecycleOf e ≠ some .QUEUED) (m : DispatcherMove R)
    (hlength : (s.step cfg m).registry.heap.length = s.registry.heap.length) :
    (s.step cfg m).registry.lifecycleOf e ≠ some .QUEUED := by
  by_cases hlt : e < s.registry.heap.length
  swap
  · have hnone : (s.step cfg m).registry.heap[e]? = none :=
      List.getElem?_eq_none (by omega)
    rw [Registry.lifecycleOf, hnone]
    exact fun h => by cases h
  have hget : s.registry.heap[e]? = some s.registry.heap[e] := List.getElem?_eq_getElem hlt
  rw [Registry.lifecycleOf_eq hget] at hnot
  obtain ⟨r', hget', hchange⟩ := step_record cfg s m hget
  rw [Registry.lifecycleOf_eq hget']
  intro hc
  have hqueued := Option.some_inj.mp hc
  cases hchange with
  | kept lifecycle _ _ _ => exact hnot (lifecycle ▸ hc)
  | moved allowed =>
    have hplaced := h.placed e _ hget
    rw [hqueued] at allowed
    -- only a preflighted record gets there, and there is none
    cases hlifecycle : (s.registry.heap[e]).lifecycle with
    | PREFLIGHTED =>
      rw [hlifecycle] at hplaced
      exact hplaced
    | _ =>
      rw [hlifecycle] at allowed
      exact absurd allowed (by decide)

/-- Whatever the others do, the walk goes on. -/
theorem Walks.aside (h : Walks s) (hs : Disciplined cfg s) (m : DispatcherMove R)
    (hother : ∀ now, m ≠ .shutdown now) : Walks (s.step cfg m) := by
  have haside := step_aside cfg s m hother
  have hnot : ∀ {rest : List ℕ} {e : ℕ}, Remaining rest s →
      s.registry.lifecycleOf e ≠ some .QUEUED →
        (s.step cfg m).registry.lifecycleOf e ≠ some .QUEUED :=
    fun hremaining hnot => hs.not_queued hnot m (haside.length hremaining.accepting)
  unfold Walks at h ⊢
  rw [haside.shutdown]
  cases hshutdown : s.shutdown with
  | idle => trivial
  | refusing =>
    rw [hshutdown] at h
    exact haside.accepting.trans h
  | started =>
    rw [hshutdown] at h
    exact haside.accepting.trans h
  | stopping =>
    rw [hshutdown] at h
    exact haside.accepting.trans h
  | walking rest =>
    rw [hshutdown] at h
    exact h.step m hother
  | cancelling e rest =>
    rw [hshutdown] at h
    exact h.step m hother
  | cancelled e rest =>
    rw [hshutdown] at h
    exact ⟨h.1.step m hother, hnot h.1 h.2⟩
  | transiting e rest =>
    rw [hshutdown] at h
    exact ⟨h.1.step m hother, hnot h.1 h.2⟩
  | removing e rest =>
    rw [hshutdown] at h
    exact ⟨h.1.step m hother, step_ended cfg s m h.2⟩
  | done =>
    rw [hshutdown] at h
    exact h.step m hother

theorem Remaining.congr {rest rest' : List ℕ} (h : Remaining rest s)
    (haccepting : s'.accepting = s.accepting) (hheap : s'.registry.heap = s.registry.heap)
    (hrest : ∀ e ∈ rest, e ∈ rest' ∨ Registry.Ended (s.registry.lifecycleOf e)) :
    Remaining rest' s' := by
  refine ⟨haccepting.trans h.accepting, fun e he hnot => ?_⟩
  unfold Registry.lifecycleOf
  rw [hheap] at he ⊢
  by_cases hmem : e ∈ rest
  · exact (hrest e hmem).resolve_left hnot
  · exact h.ended e he hmem

/-- The registry goes on. -/
theorem Remaining.reaches {rest : List ℕ} (h : Remaining rest s) {registry : Registry R}
    (hreaches : Reaches s.registry registry)
    (hlength : registry.heap.length = s.registry.heap.length) :
    Remaining rest (s.setRegistry registry) := by
  refine ⟨h.accepting, fun e he hnot => ?_⟩
  have he : e < registry.heap.length := he
  obtain ⟨r, hget, hterminal⟩ := Registry.ended_iff.mp (h.ended e (hlength ▸ he) hnot)
  obtain ⟨r', hget', hchange⟩ := hreaches.change hget
  refine Registry.ended_iff.mpr ⟨r', hget', ?_⟩
  rw [(hchange.of_terminal hterminal).1]
  exact hterminal

/-- A record that is neither queued nor running is terminal. -/
theorem Disciplined.ended (h : Disciplined cfg s) {e : ℕ} {r : RequestRecord R}
    (hget : s.registry.heap[e]? = some r) (hqueued : r.lifecycle ≠ .QUEUED)
    (hrunning : r.lifecycle ≠ .RUNNING) : r.lifecycle.IsTerminal := by
  have hplaced := h.placed e r hget
  cases hlifecycle : r.lifecycle with
  | RECEIVED =>
    rw [hlifecycle] at hplaced
    exact absurd hplaced id
  | PREFLIGHTED =>
    rw [hlifecycle] at hplaced
    exact absurd hplaced id
  | QUEUED => exact absurd hlifecycle hqueued
  | RUNNING => exact absurd hlifecycle hrunning
  | _ => trivial

/-- The record is asked to cancel: it is no longer queued, or it was terminal. -/
theorem Remaining.cancel {e : ℕ} {rest : List ℕ} (h : Remaining (e :: rest) s)
    (hs : Disciplined cfg s) {record : RequestRecord R} (hget : s.registry.heap[e]? = some record)
    (now : ℚ) :
    ((s.registry.cancel record.requestId now).1 = .ok true ∧
      Remaining (e :: rest) (s.setRegistry (s.registry.cancel record.requestId now).2) ∧
      (s.registry.cancel record.requestId now).2.lifecycleOf e ≠ some .QUEUED) ∨
    (s.registry.cancel record.requestId now).1 = .ok false ∧
      Remaining rest (s.setRegistry (s.registry.cancel record.requestId now).2) := by
  rcases Registry.cancel_cases s.registry record.requestId now with
    ⟨e', r, r', hid, hreplaced, hreply, hopen, hmoved⟩ | ⟨heq, hended⟩
  · have hreaches : Reaches s.registry (s.registry.cancel record.requestId now).2 :=
      .call (.cancel record.requestId now) rfl
    refine .inl ⟨hreply, h.reaches hreaches (Registry.cancel_length ..), ?_⟩
    by_cases hterminal : record.lifecycle.IsTerminal
    · -- another record has the id
      obtain ⟨record', hget', hchange⟩ := hreaches.change hget
      rw [Registry.lifecycleOf_eq hget', (hchange.of_terminal hterminal).1]
      intro hc
      rw [Option.some_inj.mp hc] at hterminal
      exact hterminal
    · have hregistered := hs.registered e record hget hterminal
      obtain rfl := Option.some_inj.mp (hregistered.symm.trans hid)
      rw [Registry.lifecycleOf_eq hreplaced.self]
      rcases hmoved with ⟨_, hcancelled⟩ | ⟨hnot, hsame, _⟩
      · rw [hcancelled]
        decide
      · rw [hsame]
        exact fun hc => hnot (Option.some_inj.mp hc)
  · rw [heq]
    refine .inr ⟨rfl, h.congr rfl rfl fun e' he' => ?_⟩
    rcases List.mem_cons.mp he' with rfl | he'
    · refine .inr (Registry.ended_iff.mpr ⟨record, hget, by_contra fun hopen => ?_⟩)
      exact hopen (hended e' record (hs.registered e' record hget hopen) hget)
    · exact .inl he'

/-- A running record is cancelled, or it was terminal. -/
theorem Remaining.transition {e : ℕ} {rest : List ℕ} (h : Remaining (e :: rest) s)
    (hs : Disciplined cfg s) (hnot : s.registry.lifecycleOf e ≠ some .QUEUED) (now : ℚ) :
    Remaining rest (s.setRegistry (s.registry.compareAndTransition e .RUNNING .CANCELLED (.ok true)
      none (some (.code "shutdown")) now).2) := by
  rcases Registry.compareAndTransition_cases running_cancelled s.registry e true none
      (some (.code "shutdown")) now with ⟨r, r', hreplaced, _, _, _, hto, _⟩ | ⟨heq, hother⟩
  · have hkept : Remaining (e :: rest) (s.setRegistry (s.registry.compareAndTransition e .RUNNING
        .CANCELLED (.ok true) none (some (.code "shutdown")) now).2) :=
      h.reaches (compare_reaches ..) hreplaced.length
    refine hkept.congr rfl rfl fun e' he' => ?_
    rcases List.mem_cons.mp he' with rfl | he'
    · refine .inr (Registry.ended_iff.mpr ⟨r', hreplaced.self, ?_⟩)
      rw [hto]
      trivial
    · exact .inl he'
  · rw [heq]
    refine ⟨h.accepting, fun e' he' hrest => ?_⟩
    by_cases hsame : e' = e
    · subst hsame
      have hlt : e' < s.registry.heap.length := he'
      have hget : s.registry.heap[e']? = some s.registry.heap[e'] := List.getElem?_eq_getElem hlt
      rw [Registry.lifecycleOf_eq hget] at hnot
      refine Registry.ended_iff.mpr ⟨_, hget, hs.ended hget (fun hc => hnot (congrArg some hc)) ?_⟩
      exact fun hc => absurd (hother _ hget hc) (by simp)
    · exact h.ended e' he' (List.not_mem_cons_of_ne_of_not_mem hsame hrest)

theorem Walks.shutdownStep (h : Walks s) (hs : Disciplined cfg s) (now : ℚ) :
    Walks (s.shutdownStep now) := by
  unfold Dispatcher.shutdownStep
  unfold Walks at h
  cases hshutdown : s.shutdown with
  | idle => exact rfl
  | refusing =>
    rw [hshutdown] at h
    exact h
  | started =>
    rw [hshutdown] at h
    exact h
  | stopping =>
    rw [hshutdown] at h
    refine ⟨h, fun e he hnot => ?_⟩
    have hlt : e < s.registry.heap.length := he
    have hget : s.registry.heap[e]? = some s.registry.heap[e] := List.getElem?_eq_getElem hlt
    refine Registry.ended_iff.mpr ⟨_, hget, by_contra fun hopen => hnot ?_⟩
    -- an open record is in the snapshot
    exact List.mem_map.mpr ⟨_, Dict.mem_items_iff.mpr (hs.registered e _ hget hopen), rfl⟩
  | walking rest =>
    rw [hshutdown] at h
    cases rest with
    | nil => exact Remaining.congr h rfl rfl fun e' he' => .inl he'
    | cons e rest =>
      dsimp only
      split_ifs with hended
      · refine Remaining.congr h rfl rfl fun e' he' => ?_
        rcases List.mem_cons.mp he' with rfl | he'
        · exact .inr hended
        · exact .inl he'
      · exact Remaining.congr h rfl rfl fun e' he' => .inl he'
  | cancelling e rest =>
    rw [hshutdown] at h
    dsimp only
    cases hget : s.registry.heap[e]? with
    | none =>
      refine ⟨h.accepting, fun e' he' hrest =>
        h.ended e' he' (List.not_mem_cons_of_ne_of_not_mem ?_ hrest)⟩
      rintro rfl
      have hge := List.getElem?_eq_none_iff.mp hget
      exact absurd he' (not_lt.mpr hge)
    | some record =>
      dsimp only
      have hcancelled := Remaining.cancel h hs hget now
      generalize s.registry.cancel record.requestId now = out at hcancelled ⊢
      obtain ⟨reply, registry⟩ := out
      rcases hcancelled with ⟨hreply, hremaining, hnot⟩ | ⟨hreply, hremaining⟩
      · dsimp only at hreply
        subst hreply
        exact ⟨hremaining.congr rfl rfl fun e' he' => .inl he', hnot⟩
      · dsimp only at hreply
        subst hreply
        exact hremaining.congr rfl rfl fun e' he' => .inl he'
  | cancelled e rest =>
    rw [hshutdown] at h
    obtain ⟨hremaining, hnot⟩ := h
    dsimp only
    split_ifs with hcancelled
    · have hended : Registry.Ended (s.registry.lifecycleOf e) := ⟨_, hcancelled, trivial⟩
      refine ⟨hremaining.congr rfl rfl fun e' he' => ?_, hended⟩
      rcases List.mem_cons.mp he' with rfl | he'
      · exact .inr hended
      · exact .inl he'
    · exact ⟨hremaining.congr rfl rfl fun e' he' => .inl he', hnot⟩
  | removing e rest =>
    rw [hshutdown] at h
    exact h.1.congr rfl rfl fun e' he' => .inl he'
  | transiting e rest =>
    rw [hshutdown] at h
    exact (h.1.transition hs h.2 now).congr rfl rfl fun e' he' => .inl he'
  | done =>
    rw [hshutdown] at h
    unfold Walks
    rw [hshutdown]
    exact h

theorem Walks.step (h : Walks s) (hs : Disciplined cfg s) (m : DispatcherMove R) :
    Walks (s.step cfg m) := by
  by_cases hother : ∀ now, m ≠ .shutdown now
  · exact h.aside hs m hother
  push Not at hother
  obtain ⟨now, rfl⟩ := hother
  show Walks (if s.ShutdownNeedsQueue ∧ s.expiring ≠ [] then s else s.shutdownStep now)
  split_ifs
  · exact h
  · exact h.shutdownStep hs now

theorem Walks.removing (h : Walks s) : ∀ e rest, s.shutdown = .removing e rest →
    s.registry.lifecycleOf e ≠ some .QUEUED := by
  intro e rest hshutdown
  unfold Walks at h
  rw [hshutdown] at h
  obtain ⟨_, l, heq, hterminal⟩ := h
  rintro hqueued
  rw [Option.some_inj.mp (heq.symm.trans hqueued)] at hterminal
  exact hterminal

theorem walks_run (moves : List (DispatcherMove R)) :
    Disciplined cfg (run cfg moves) ∧ Walks (run cfg moves) := by
  induction moves using List.reverseRecOn with
  | nil => exact ⟨disciplined_start, trivial⟩
  | append_singleton moves m ih =>
    rw [run_append]
    obtain ⟨hs, hwalks⟩ := ih
    exact ⟨hs.step m hwalks.removing, hwalks.step hs m⟩

/-- The walk stays at its end. -/
theorem step_done (cfg : DispatcherConfig) (m : DispatcherMove R) (h : s.shutdown = .done) :
    (s.step cfg m).shutdown = .done := by
  by_cases hother : ∀ now, m ≠ .shutdown now
  · rw [(step_aside cfg s m hother).shutdown, h]
  push Not at hother
  obtain ⟨now, rfl⟩ := hother
  show Dispatcher.shutdown (if s.ShutdownNeedsQueue ∧ s.expiring ≠ [] then s else s.shutdownStep now) = _
  split_ifs
  · exact h
  · unfold Dispatcher.shutdownStep
    rw [h]
    exact h

theorem done_run (more : List (DispatcherMove R)) (s : Dispatcher R) (h : s.shutdown = .done) :
    (more.foldl (step cfg) s).shutdown = .done := by
  induction more generalizing s with
  | nil => exact h
  | cons m more ih => exact ih (s.step cfg m) (step_done cfg m h)

/-- When the records have been walked over they are terminal, none is running from then on,
and every submission is refused and leaves the state as it is. -/
theorem shutdown_complete (cfg : DispatcherConfig) (moves more : List (DispatcherMove R))
    (hdone : (run cfg moves).shutdown = .done) :
    (∀ id e, (run cfg moves).registry.records.get? id = some e →
      Registry.Ended ((run cfg moves).registry.lifecycleOf e)) ∧
    (∀ e, (run cfg (moves ++ more)).registry.lifecycleOf e ≠ some .RUNNING) ∧
    ∀ (queueTimeoutMs executionTimeoutMs : ℕ) (t₁ t₂ t₃ : ℚ),
      (run cfg (moves ++ more)).submit cfg queueTimeoutMs executionTimeoutMs t₁ t₂ t₃ =
        (.error ⟨.shutdown, py "service is draining", []⟩, run cfg (moves ++ more)) := by
  have hremaining : ∀ {s : Dispatcher R}, Walks s → s.shutdown = .done → Remaining [] s := by
    intro s h hdone
    unfold Walks at h
    rw [hdone] at h
    exact h
  have hlater : (run cfg (moves ++ more)).shutdown = .done := by
    rw [run_append]
    exact done_run more _ hdone
  obtain ⟨hs, hwalks⟩ : Disciplined cfg (run cfg moves) ∧ Walks (run cfg moves) := walks_run moves
  have hended := hremaining (walks_run (moves ++ more)).2 hlater
  refine ⟨fun id e hget => ?_, fun e hrunning => ?_, fun queueTimeoutMs executionTimeoutMs t₁ t₂ t₃ =>
    submit_refused hended.accepting queueTimeoutMs executionTimeoutMs t₁ t₂ t₃⟩
  · exact (hremaining hwalks hdone).ended e (hs.entries id e hget) List.not_mem_nil
  · obtain ⟨r, hget, hlifecycle⟩ := Option.map_eq_some_iff.mp hrunning
    obtain ⟨l, heq, hterminal⟩ :=
      hended.ended e (List.getElem?_eq_some_iff.mp hget).1 List.not_mem_nil
    rw [← Option.some_inj.mp (hrunning.symm.trans heq)] at hterminal
    exact hterminal

/-- One request is queued and one running when the shutdown begins. -/
def sampleShutdown : List (DispatcherMove Unit) :=
  [.submit 1000 1000 0 0 0, .submit 1000 1000 0 0 0, .run {}, .run {}, .run {}, .run {}] ++
    List.replicate 13 (.shutdown 0)

theorem shutdown_complete_running :
    (run sampleDispatcher sampleShutdown).shutdown = .done ∧
    (run sampleDispatcher sampleShutdown).startedOrder = [0] ∧
    ∀ e, (run sampleDispatcher (sampleShutdown ++ sampleSubmits)).registry.lifecycleOf e ≠
      some .RUNNING := by
  have hdone : (run sampleDispatcher sampleShutdown).shutdown = .done := by decide +kernel
  refine ⟨hdone, by decide +kernel, ?_⟩
  exact (shutdown_complete sampleDispatcher sampleShutdown sampleSubmits hdone).2.1

end Dispatcher

end Worker
