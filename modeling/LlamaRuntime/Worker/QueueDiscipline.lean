/-
The discipline of the dispatcher's queue before a shutdown.

As long as no shutdown has begun the queue holds queued records only, and a started
record is cancelled only when its execution has been called (`Calm`).

* `queue_discipline` — the queue, the order of the starts and the executions in every
  state a run leads to.
-/
import LlamaRuntime.Worker.DispatcherQueue

namespace Worker.Dispatcher

variable {R : Type} {cfg : DispatcherConfig} {s s' : Dispatcher R}

/-! ### What a step starts and executes -/

theorem submit_started (cfg : DispatcherConfig) (queueTimeoutMs executionTimeoutMs : ℕ)
    (t₁ t₂ t₃ : ℚ) (s : Dispatcher R) :
    (s.submit cfg queueTimeoutMs executionTimeoutMs t₁ t₂ t₃).2.startedOrder = s.startedOrder ∧
    (s.submit cfg queueTimeoutMs executionTimeoutMs t₁ t₂ t₃).2.executions = s.executions ∧
    (s.submit cfg queueTimeoutMs executionTimeoutMs t₁ t₂ t₃).2.shutdown = s.shutdown := by
  rcases submit_cases cfg queueTimeoutMs executionTimeoutMs t₁ t₂ t₃ s with
    ⟨_, _, _, _, heq, _⟩ | ⟨_, heq⟩
  · rw [heq]
    exact ⟨rfl, rfl, rfl⟩
  · rw [heq]
    exact ⟨rfl, rfl, rfl⟩

theorem cancel_started (s : Dispatcher R) (requestId : PyStr) (now : ℚ) :
    (s.cancel requestId now).2.startedOrder = s.startedOrder ∧
    (s.cancel requestId now).2.executions = s.executions ∧
    (s.cancel requestId now).2.shutdown = s.shutdown := by
  unfold Dispatcher.cancel
  cases s.registry.records.get? requestId with
  | none => exact ⟨rfl, rfl, rfl⟩
  | some e =>
    dsimp only
    split_ifs <;> exact ⟨rfl, rfl, rfl⟩

theorem expireNext_started (s : Dispatcher R) (now : ℚ) :
    (s.expireNext now).startedOrder = s.startedOrder ∧
    (s.expireNext now).executions = s.executions ∧
    (s.expireNext now).shutdown = s.shutdown := by
  unfold Dispatcher.expireNext
  cases s.expiring with
  | nil => exact ⟨rfl, rfl, rfl⟩
  | cons e rest => exact ⟨rfl, rfl, rfl⟩

theorem setCancelEvent_started (s : Dispatcher R) (e : ℕ) :
    (s.setCancelEvent e).startedOrder = s.startedOrder ∧
    (s.setCancelEvent e).executions = s.executions ∧
    (s.setCancelEvent e).shutdown = s.shutdown := by
  unfold Dispatcher.setCancelEvent
  split <;> exact ⟨rfl, rfl, rfl⟩

/-- What has been started is a queued record. -/
theorem runStep_started (s : Dispatcher R) (answer : RunAnswer) :
    (s.runStep answer).executions = s.executions ∧ (s.runStep answer).shutdown = s.shutdown ∧
    ((s.runStep answer).startedOrder = s.startedOrder ∨ ∃ e r,
      (s.runStep answer).startedOrder = s.startedOrder ++ [e] ∧ s.registry.heap[e]? = some r ∧
        r.lifecycle = .QUEUED) := by
  unfold Dispatcher.runStep
  cases s.runner with
  | taken e =>
    dsimp only
    rcases Registry.compareAndTransition_cases queued_running s.registry e
        ((s.registry.heap[e]?.map fun record =>
          decide (answer.now < record.queueDeadline)).getD false) none none answer.now with
      ⟨r, _, hreplaced, hreply, _, hfrom, _⟩ | ⟨heq, _⟩
    · generalize s.registry.compareAndTransition e .QUEUED .RUNNING _ none none answer.now = out
        at hreply ⊢
      obtain ⟨reply, registry⟩ := out
      dsimp only at hreply
      subst hreply
      exact ⟨rfl, rfl, .inr ⟨e, r, rfl, hreplaced.get, hfrom⟩⟩
    · rw [heq]
      exact ⟨rfl, rfl, .inl rfl⟩
  | deciding e i =>
    dsimp only
    split
    · exact ⟨rfl, rfl, .inl rfl⟩
    · obtain ⟨hstarted, hexecutions, hshutdown⟩ := setCancelEvent_started s e
      exact ⟨hexecutions, hshutdown, .inl hstarted⟩
  | polling =>
    dsimp only
    split_ifs
    · exact ⟨rfl, rfl, .inl rfl⟩
    · split <;> exact ⟨rfl, rfl, .inl rfl⟩
  | expired e => exact ⟨rfl, rfl, .inl rfl⟩
  | timingOut e restartRequired => exact ⟨rfl, rfl, .inl rfl⟩
  | ending e target result error => exact ⟨rfl, rfl, .inl rfl⟩
  | starting e => exact ⟨rfl, rfl, .inl rfl⟩
  | overdue e i => exact ⟨rfl, rfl, .inl rfl⟩
  | stopped => exact ⟨rfl, rfl, .inl rfl⟩
  | _ =>
    dsimp only
    split_ifs <;> exact ⟨rfl, rfl, .inl rfl⟩

theorem shutdownStep_started (s : Dispatcher R) (now : ℚ) :
    (s.shutdownStep now).startedOrder = s.startedOrder ∧
    (s.shutdownStep now).executions = s.executions ∧
    (s.shutdownStep now).shutdown ≠ .idle := by
  unfold Dispatcher.shutdownStep
  cases hshutdown : s.shutdown with
  | walking rest =>
    cases rest with
    | nil => exact ⟨rfl, rfl, by simp⟩
    | cons e rest =>
      dsimp only
      split_ifs <;> exact ⟨rfl, rfl, by simp⟩
  | cancelling e rest =>
    dsimp only
    cases s.registry.heap[e]? with
    | none => exact ⟨rfl, rfl, by simp⟩
    | some record =>
      dsimp only
      generalize s.registry.cancel record.requestId now = cancelled
      obtain ⟨reply, registry⟩ := cancelled
      match reply with
      | .ok true => exact ⟨rfl, rfl, by simp⟩
      | .ok false => exact ⟨rfl, rfl, by simp⟩
      | .error exc => exact ⟨rfl, rfl, by simp⟩
  | cancelled e rest =>
    dsimp only
    split_ifs <;> exact ⟨rfl, rfl, by simp⟩
  | done => exact ⟨rfl, rfl, by simp [hshutdown]⟩
  | _ => exact ⟨rfl, rfl, by simp⟩

/-- The executions of a step, and its starts. -/
structure Advances (s s' : Dispatcher R) : Prop where
  executions : s.executions <+: s'.executions
  started : s'.startedOrder = s.startedOrder ∨ ∃ e r,
    s'.startedOrder = s.startedOrder ++ [e] ∧ s.registry.heap[e]? = some r ∧ r.lifecycle = .QUEUED
  idle : s'.shutdown = .idle → s.shutdown = .idle

theorem Advances.of_eq (h : s'.startedOrder = s.startedOrder ∧ s'.executions = s.executions ∧
    s'.shutdown = s.shutdown) : Advances s s' :=
  ⟨h.2.1 ▸ List.prefix_rfl, .inl h.1, fun hidle => h.2.2 ▸ hidle⟩

theorem step_advances (cfg : DispatcherConfig) (s : Dispatcher R) (m : DispatcherMove R) :
    Advances s (s.step cfg m) := by
  have hsame : Advances s s := .of_eq ⟨rfl, rfl, rfl⟩
  unfold Dispatcher.step
  cases m with
  | submit queueTimeoutMs executionTimeoutMs t₁ t₂ t₃ =>
    dsimp only
    split_ifs
    · exact .of_eq (submit_started cfg queueTimeoutMs executionTimeoutMs t₁ t₂ t₃ s)
    · exact hsame
  | cancel requestId now =>
    dsimp only
    split_ifs
    · exact .of_eq (cancel_started s requestId now)
    · exact hsame
  | expire now =>
    dsimp only
    unfold Dispatcher.expire
    split_ifs <;> exact .of_eq ⟨rfl, rfl, rfl⟩
  | expireNext now => exact .of_eq (expireNext_started s now)
  | run answer =>
    dsimp only
    split_ifs
    · exact hsame
    · obtain ⟨hexecutions, hshutdown, hstarted⟩ := runStep_started s answer
      exact ⟨hexecutions ▸ List.prefix_rfl, hstarted, fun hidle => hshutdown ▸ hidle⟩
  | task i outcome =>
    dsimp only
    unfold Dispatcher.taskStep
    split
    · exact ⟨List.prefix_append _ _, .inl rfl, id⟩
    · exact .of_eq ⟨rfl, rfl, rfl⟩
    · exact hsame
  | setCancelEvent e => exact .of_eq (setCancelEvent_started s e)
  | shutdown now =>
    dsimp only
    split_ifs
    · exact hsame
    · obtain ⟨hstarted, hexecutions, hbegun⟩ := shutdownStep_started s now
      exact ⟨hexecutions ▸ List.prefix_rfl, .inl hstarted, fun hidle => absurd hidle hbegun⟩
  | _ => exact .of_eq ⟨rfl, rfl, rfl⟩

/-! ### Before a shutdown -/

/-- What is said of a started record. -/
def Begun (executions : List ℕ) (e : ℕ) (r : RequestRecord R) : Prop :=
  r.lifecycle ≠ .QUEUED ∧ (r.lifecycle = .CANCELLED → e ∈ executions) ∧
    r.error ≠ some (.code "queue_timeout")

structure Calm (s : Dispatcher R) : Prop where
  pending : ∀ (e : ℕ) (r : RequestRecord R), e ∈ s.pending → s.registry.heap[e]? = some r →
    r.lifecycle = .QUEUED
  started : ∀ (e : ℕ) (r : RequestRecord R), e ∈ s.startedOrder →
    s.registry.heap[e]? = some r → Begun s.executions e r
  ending : ∀ e target result error, s.runner = .ending e target result error →
    e ∈ s.executions ∧ error ≠ some (.code "queue_timeout")

theorem calm_start : Calm ({} : Dispatcher R) where
  pending := fun _ _ he => absurd he List.not_mem_nil
  started := fun _ _ he => absurd he List.not_mem_nil
  ending := fun _ _ _ _ h => nomatch h

theorem Begun.mono {executions executions' : List ℕ} {e : ℕ} {r : RequestRecord R}
    (h : Begun executions e r) (hsub : executions ⊆ executions') : Begun executions' e r :=
  ⟨h.1, fun hcancelled => hsub (h.2.1 hcancelled), h.2.2⟩

theorem Calm.congr (h : Calm s) (hheap : s'.registry.heap = s.registry.heap)
    (hpending : s'.pending ⊆ s.pending) (hstarted : s'.startedOrder = s.startedOrder)
    (hexecutions : s.executions ⊆ s'.executions)
    (hending : ∀ e target result error, s'.runner = .ending e target result error →
      s'.runner = s.runner ∨ e ∈ s'.executions ∧ error ≠ some (.code "queue_timeout")) :
    Calm s' where
  pending := fun e r he hget => h.pending e r (hpending he) (hheap ▸ hget)
  started := fun e r he hget => (h.started e r (hstarted ▸ he) (hheap ▸ hget)).mono hexecutions
  ending := by
    intro e target result error hrunner
    rcases hending e target result error hrunner with hsame | hspec
    · obtain ⟨hmem, herror⟩ := h.ending e target result error (hsame ▸ hrunner)
      exact ⟨hexecutions hmem, herror⟩
    · exact hspec

/-- A record that is not in the queue goes on. -/
theorem Calm.replace (h : Calm s) {registry : Registry R} {e : ℕ} {r r' : RequestRecord R}
    (hreplaced : Registry.Replaced e r r' s.registry registry)
    (hpending : e ∈ s.pending → r'.lifecycle = .QUEUED)
    (hstarted : e ∈ s.startedOrder → Begun s.executions e r') : Calm (s.setRegistry registry) := by
  have hcases : ∀ {e' : ℕ} {r₁ : RequestRecord R}, registry.heap[e']? = some r₁ →
      (e' = e ∧ r₁ = r') ∨ s.registry.heap[e']? = some r₁ := by
    intro e' r₁ hget
    by_cases heq : e = e'
    · subst heq
      exact .inl ⟨rfl, Option.some_inj.mp (hget.symm.trans hreplaced.self)⟩
    · exact .inr ((hreplaced.other heq).symm.trans hget)
  refine ⟨fun e' r₁ he' hget => ?_, fun e' r₁ he' hget => ?_, h.ending⟩
  · rcases hcases hget with ⟨rfl, rfl⟩ | hget
    · exact hpending he'
    · exact h.pending e' r₁ he' hget
  · rcases hcases hget with ⟨rfl, rfl⟩ | hget
    · exact hstarted he'
    · exact h.started e' r₁ he' hget

theorem Disciplined.not_mem_erase (h : Disciplined cfg s) (e : ℕ) : e ∉ s.pending.erase e :=
  fun he => (List.Nodup.mem_erase_iff h.nodup_pending).mp he |>.1 rfl

/-- A queued record that is taken from the queue has not been started. -/
theorem Calm.not_started (h : Calm s) {e : ℕ} {r : RequestRecord R}
    (hget : s.registry.heap[e]? = some r) (hqueued : r.lifecycle = .QUEUED) :
    e ∉ s.startedOrder :=
  fun he => (h.started e r he hget).1 hqueued

theorem Calm.setCancelEvent (h : Calm s) (e : ℕ) : Calm (s.setCancelEvent e) := by
  unfold Dispatcher.setCancelEvent
  cases hget : s.registry.heap[e]? with
  | none => exact h
  | some record =>
    have hreplaced : Registry.Replaced e record { record with cancelEvent := true } s.registry
        { s.registry with heap := s.registry.heap.set e { record with cancelEvent := true } } :=
      ⟨hget, rfl, rfl, rfl⟩
    exact h.replace hreplaced (fun he => h.pending e record he hget)
      fun he => h.started e record he hget

theorem Calm.submit (h : Calm s) (hs : Disciplined cfg s) (queueTimeoutMs executionTimeoutMs : ℕ)
    (t₁ t₂ t₃ : ℚ) : Calm (s.submit cfg queueTimeoutMs executionTimeoutMs t₁ t₂ t₃).2 := by
  rcases submit_cases cfg queueTimeoutMs executionTimeoutMs t₁ t₂ t₃ s with
    ⟨_, _, registry, r, heq, hheap, hqueued, _⟩ | ⟨error, heq⟩
  swap
  · rw [heq]
    exact h
  rw [heq]
  have hknown : ∀ e ∈ s.startedOrder ++ held s.runner ++ s.pending, ∀ r₁ : RequestRecord R,
      registry.heap[e]? = some r₁ → s.registry.heap[e]? = some r₁ := by
    intro e he r₁ hget
    rw [hheap, List.getElem?_append_left (hs.known e he)] at hget
    exact hget
  refine ⟨fun e r₁ he hget => ?_, fun e r₁ he hget => ?_, h.ending⟩
  · have he : e ∈ s.pending ++ [s.registry.heap.length] := he
    rcases List.mem_append.mp he with he | he
    · exact h.pending e r₁ he (hknown e (List.mem_append_right _ he) r₁ hget)
    · obtain rfl := List.mem_singleton.mp he
      have hget : registry.heap[s.registry.heap.length]? = some r₁ := hget
      rw [hheap, List.getElem?_concat_length] at hget
      obtain rfl := Option.some_inj.mp hget
      exact hqueued
  · have hmem : e ∈ s.startedOrder ++ held s.runner ++ s.pending :=
      List.mem_append_left _ (List.mem_append_left _ he)
    exact h.started e r₁ he (hknown e hmem r₁ hget)

theorem Calm.cancel (h : Calm s) (hs : Disciplined cfg s) (requestId : PyStr) (now : ℚ) :
    Calm (s.cancel requestId now).2 := by
  unfold Dispatcher.cancel
  cases hid : s.registry.records.get? requestId with
  | none => exact h
  | some e =>
    dsimp only
    rcases Registry.cancel_cases s.registry requestId now with
      ⟨e', r, r', hid', hreplaced, _, hopen, hmoved⟩ | ⟨heq, _⟩
    · obtain rfl := Option.some_inj.mp (hid.symm.trans hid')
      rw [Registry.lifecycleOf_eq hreplaced.self]
      rcases hmoved with ⟨hqueued, hcancelled⟩ | ⟨_, hsame, herror⟩
      · -- it leaves the queue under the same lock
        rw [if_pos (congrArg some hcancelled)]
        have hremoved : Calm (s.removePending e) :=
          h.congr rfl List.erase_subset rfl (List.Subset.refl _) fun _ _ _ _ _ => .inl rfl
        have hgone : e ∈ (s.removePending e).pending → r'.lifecycle = .QUEUED :=
          fun he => absurd he (hs.not_mem_erase e)
        have hfresh : e ∈ (s.removePending e).startedOrder → Begun s.executions e r' :=
          fun he => absurd he (h.not_started hreplaced.get hqueued)
        exact hremoved.replace hreplaced hgone hfresh
      · have hnot : ¬ some r'.lifecycle = some Lifecycle.CANCELLED := by
          rw [hsame]
          rintro hc
          rw [Option.some_inj.mp hc] at hopen
          exact hopen trivial
        rw [if_neg hnot]
        refine h.replace hreplaced (fun he => ?_) fun he => ?_
        · rw [hsame]
          exact h.pending e r he hreplaced.get
        · obtain ⟨hbegun, hexecuted, hkept⟩ := h.started e r he hreplaced.get
          exact ⟨hsame ▸ hbegun, fun hc => hexecuted (hsame ▸ hc), herror ▸ hkept⟩
    · rw [heq]
      dsimp only
      split_ifs
      · exact h.congr rfl List.erase_subset rfl (List.Subset.refl _) fun _ _ _ _ _ => .inl rfl
      · exact h

theorem Calm.expireNext (h : Calm s) (hs : Disciplined cfg s) (now : ℚ) :
    Calm (s.expireNext now) := by
  unfold Dispatcher.expireNext
  cases s.expiring with
  | nil => exact h
  | cons e rest =>
    dsimp only
    have hremoved : Calm (s.removePending e) :=
      h.congr rfl List.erase_subset rfl (List.Subset.refl _) fun _ _ _ _ _ => .inl rfl
    have hexpired : Calm ((s.removePending e).setRegistry
        (s.registry.compareAndTransition e .QUEUED .TIMED_OUT (.ok true) none
          (some (.code "queue_timeout")) now).2) := by
      rcases Registry.compareAndTransition_cases queued_timedOut s.registry e true none
          (some (.code "queue_timeout")) now with ⟨r, r', hreplaced, _, _, hfrom, _⟩ | ⟨heq, _⟩
      · have hgone : e ∈ (s.removePending e).pending → r'.lifecycle = .QUEUED :=
          fun he => absurd he (hs.not_mem_erase e)
        have hfresh : e ∈ (s.removePending e).startedOrder → Begun s.executions e r' :=
          fun he => absurd he (h.not_started hreplaced.get hfrom)
        exact hremoved.replace hreplaced hgone hfresh
      · rw [heq]
        exact hremoved
    exact hexpired.congr rfl (List.Subset.refl _) rfl (List.Subset.refl _) fun _ _ _ _ _ => .inl rfl

/-- A transition of a record that is not in the queue. -/
theorem Calm.compare (h : Calm s) {expected target : Lifecycle}
    (hallowed : target ∈ expected.allowed) (e : ℕ) (result : Option R) (error : Option RecordError)
    (now : ℚ)
    (hpending : ∀ r, s.registry.heap[e]? = some r → r.lifecycle = expected → e ∉ s.pending)
    (hspec : expected = .QUEUED ∨ target ≠ .QUEUED ∧ (target = .CANCELLED → e ∈ s.executions) ∧
      error ≠ some (.code "queue_timeout")) :
    Calm (s.setRegistry
      (s.registry.compareAndTransition e expected target (.ok true) result error now).2) := by
  rcases Registry.compareAndTransition_cases hallowed s.registry e true result error now with
    ⟨r, r', hreplaced, _, _, hfrom, hto, herror⟩ | ⟨heq, _⟩
  · refine h.replace hreplaced (fun he => absurd he (hpending r hreplaced.get hfrom)) fun he => ?_
    rcases hspec with hqueued | ⟨hleft, hexecuted, hkept⟩
    · exact absurd he (h.not_started hreplaced.get (hfrom.trans hqueued))
    · exact ⟨hto ▸ hleft, fun hc => hexecuted (hto ▸ hc), herror ▸ hkept⟩
  · rw [heq]
    exact h

theorem Disciplined.held_not_pending (h : Disciplined cfg s) {e : ℕ} (he : e ∈ held s.runner) :
    e ∉ s.pending := by
  intro hpending
  have hlt := (List.pairwise_append.mp h.order).2.2 e (List.mem_append_right _ he) e hpending
  exact Nat.lt_irrefl e hlt

theorem Calm.not_pending (h : Calm s) {e : ℕ} {r : RequestRecord R}
    (hget : s.registry.heap[e]? = some r) (hrunning : r.lifecycle = .RUNNING) : e ∉ s.pending := by
  intro he
  have hqueued := h.pending e r he hget
  rw [hrunning] at hqueued
  exact absurd hqueued (by decide)

/-- The thread of a request that has ended has executed it. -/
theorem Disciplined.mem_executions (h : Disciplined cfg s) {i : ℕ} {task : Task R}
    (hget : s.tasks[i]? = some task) (hbegun : task.begun = true) :
    task.record ∈ s.executions :=
  h.executions.symm.subset
    (List.mem_map_of_mem (List.mem_filter.mpr ⟨List.mem_of_getElem? hget, hbegun⟩))

theorem Calm.start (h : Calm s) (hs : Disciplined cfg s) {e : ℕ} {registry : Registry R}
    {r r' : RequestRecord R} (hrunner : s.runner = .taken e)
    (hreplaced : Registry.Replaced e r r' s.registry registry) (hto : r'.lifecycle = .RUNNING)
    (herror : r'.error = none) (hfrom : r.lifecycle = .QUEUED) :
    Calm { s.setRegistry registry with
      runner := .starting e, startedOrder := s.startedOrder ++ [e] } := by
  have hnot : e ∉ s.pending := hs.held_not_pending (by rw [hrunner]; exact List.mem_singleton.mpr rfl)
  have hmoved : Calm (s.setRegistry registry) :=
    h.replace hreplaced (fun he => absurd he hnot)
      fun he => absurd he (h.not_started hreplaced.get hfrom)
  refine ⟨hmoved.pending, fun e' r₁ he' hget => ?_, fun _ _ _ _ hc => nomatch hc⟩
  have he' : e' ∈ s.startedOrder ++ [e] := he'
  rcases List.mem_append.mp he' with he' | he'
  · exact hmoved.started e' r₁ he' hget
  · obtain rfl := List.mem_singleton.mp he'
    obtain rfl := Option.some_inj.mp (hreplaced.self.symm.trans hget)
    refine ⟨?_, fun hc => ?_, ?_⟩
    · rw [hto]
      decide
    · rw [hto] at hc
      exact absurd hc (by decide)
    · rw [herror]
      exact nofun

/-- `_run` goes on, and no transition has been chosen. -/
theorem Calm.goesOn (h : Calm s) {runner : Runner R}
    (hrunner : ∀ e target result error, runner ≠ .ending e target result error) :
    Calm { s with runner := runner } :=
  h.congr rfl (List.Subset.refl _) rfl (List.Subset.refl _)
    fun e target result error hc => absurd hc (hrunner e target result error)

theorem Calm.runStep (h : Calm s) (hs : Disciplined cfg s) (answer : RunAnswer) :
    Calm (s.runStep answer) := by
  unfold Dispatcher.runStep
  cases hrunner : s.runner with
  | waiting =>
    dsimp only
    split_ifs
    · exact h.goesOn (by simp)
    · exact h
    · exact h.goesOn (by simp)
  | polling =>
    dsimp only
    split_ifs
    · exact h.goesOn (by simp)
    cases hpending : s.pending with
    | nil => exact h
    | cons e rest =>
      have hrest : rest ⊆ s.pending := by
        rw [hpending]
        exact List.subset_cons_self e rest
      exact h.congr rfl hrest rfl (List.Subset.refl _) fun _ _ _ _ hc => absurd hc (by simp)
  | taken e =>
    dsimp only
    rcases Registry.compareAndTransition_cases queued_running s.registry e
        ((s.registry.heap[e]?.map fun record =>
          decide (answer.now < record.queueDeadline)).getD false) none none answer.now with
      ⟨r, r', hreplaced, hreply, _, hfrom, hto, herror⟩ | ⟨heq, _⟩
    · generalize s.registry.compareAndTransition e .QUEUED .RUNNING _ none none answer.now = out
        at hreplaced hreply ⊢
      obtain ⟨reply, registry⟩ := out
      dsimp only at hreply
      subst hreply
      exact h.start hs hrunner hreplaced hto herror hfrom
    · rw [heq]
      exact h.goesOn (by simp)
  | expired e =>
    dsimp only
    have hnot : e ∉ s.pending :=
      hs.held_not_pending (by rw [hrunner]; exact List.mem_singleton.mpr rfl)
    have hmoved := h.compare queued_timedOut e none (some (.code "queue_timeout")) answer.now
      (fun _ _ _ => hnot) (.inl rfl)
    exact hmoved.goesOn (by simp)
  | starting e =>
    dsimp only
    exact h.congr rfl (List.Subset.refl _) rfl (List.Subset.refl _) fun _ _ _ _ hc => absurd hc (by simp)
  | watching e i =>
    dsimp only
    split_ifs
    · exact h.goesOn (by simp)
    · exact h
    · exact h.goesOn (by simp)
  | left e i =>
    dsimp only
    split_ifs
    · exact h.goesOn (by simp)
    · exact h.goesOn (by simp)
  | deciding e i =>
    dsimp only
    split
    · next record outcome hget =>
      have hwatched := hs.watched
      rw [hrunner] at hwatched
      obtain ⟨task, htask, hrecord⟩ := hwatched
      obtain rfl := Option.some_inj.mp (htask.symm.trans hget)
      have hexecuted := hs.mem_executions hget rfl
      refine h.congr rfl (List.Subset.refl _) rfl (List.Subset.refl _) fun e' target result error hc => .inr ?_
      obtain ⟨rfl, rfl, rfl, rfl⟩ := Runner.ending.inj hc
      exact ⟨hrecord ▸ hexecuted, (finalTransition_spec _ _).2⟩
    · have hset := h.setCancelEvent e
      exact hset.goesOn (by simp)
  | overdue e i =>
    dsimp only
    exact h.goesOn (by simp)
  | timingOut e restartRequired =>
    dsimp only
    have hmoved := h.compare running_timedOut e none (some (.code "deadline_exceeded")) answer.now
      (fun r hget hrunning => h.not_pending hget hrunning)
      (.inr ⟨by decide, fun hc => absurd hc (by decide), by decide⟩)
    cases restartRequired with
    | true => exact hmoved.goesOn (by simp)
    | false => exact hmoved.goesOn (by simp)
  | restarting =>
    dsimp only
    split_ifs
    · exact h.goesOn (by simp)
    · exact h.congr rfl (List.Subset.refl _) rfl (List.Subset.refl _) fun _ _ _ _ hc => absurd hc (by simp)
  | ending e target result error =>
    dsimp only
    have hallowed : target ∈ Lifecycle.RUNNING.allowed := by
      have hwatched := hs.watched
      rw [hrunner] at hwatched
      exact hwatched
    obtain ⟨hexecuted, herror⟩ := h.ending e target result error hrunner
    have hleft : target ≠ .QUEUED := by
      rintro rfl
      exact absurd hallowed (by decide)
    have hmoved := h.compare hallowed e result error answer.now
      (fun r hget hrunning => h.not_pending hget hrunning) (.inr ⟨hleft, fun _ => hexecuted, herror⟩)
    exact hmoved.goesOn (by simp)
  | stopped => exact h

theorem Calm.step (h : Calm s) (hs : Disciplined cfg s) (m : DispatcherMove R)
    (hidle : (s.step cfg m).shutdown = .idle) : Calm (s.step cfg m) := by
  have hall := List.Subset.refl s.pending
  -- nothing but the observers and the flags has changed
  have hkept : ∀ {s' : Dispatcher R}, s'.registry.heap = s.registry.heap → s'.pending = s.pending →
      s'.startedOrder = s.startedOrder → s.executions ⊆ s'.executions → s'.runner = s.runner →
        Calm s' :=
    fun hheap hpending hstarted hexecutions hrunner =>
      h.congr hheap (hpending ▸ hall) hstarted hexecutions fun _ _ _ _ _ => .inl hrunner
  unfold Dispatcher.step at hidle ⊢
  cases m with
  | submit queueTimeoutMs executionTimeoutMs t₁ t₂ t₃ =>
    dsimp only
    split_ifs
    · exact h.submit hs queueTimeoutMs executionTimeoutMs t₁ t₂ t₃
    · exact h
  | cancel requestId now =>
    dsimp only
    split_ifs
    · exact h.cancel hs requestId now
    · exact h
  | expire now =>
    dsimp only
    unfold Dispatcher.expire
    split_ifs
    · exact h
    · exact hkept rfl rfl rfl (List.Subset.refl _) rfl
    · exact h
  | expireNext now => exact h.expireNext hs now
  | run answer =>
    dsimp only
    split_ifs
    · exact h
    · exact h.runStep hs answer
  | task i outcome =>
    dsimp only
    unfold Dispatcher.taskStep
    split
    · exact hkept rfl rfl rfl (List.subset_append_left _ _) rfl
    · exact hkept rfl rfl rfl (List.Subset.refl _) rfl
    · exact h
  | setCancelEvent e => exact h.setCancelEvent e
  | restartEnds => exact hkept rfl rfl rfl (List.Subset.refl _) rfl
  | shutdown now =>
    dsimp only at hidle ⊢
    split_ifs at hidle ⊢
    · exact h
    · exact absurd hidle (shutdownStep_started s now).2.2
  | addTerminalObserver observer =>
    have hheap := (Registry.addTerminalObserver_keeps s.registry observer).1
    exact hkept hheap rfl rfl (List.Subset.refl _) rfl
  | removeTerminalObserver observer =>
    have hheap := (Registry.removeTerminalObserver_keeps s.registry observer).1
    exact hkept hheap rfl rfl (List.Subset.refl _) rfl
  | pruneTerminal ttlSeconds maxRecords now =>
    have hheap := (Registry.pruneTerminal_keeps s.registry ttlSeconds maxRecords now).1
    exact hkept hheap rfl rfl (List.Subset.refl _) rfl
  | notifyNext i outcome =>
    have hheap := (Registry.notifyNext_keeps s.registry i outcome).1
    exact hkept hheap rfl rfl (List.Subset.refl _) rfl

/-! ### Runs -/

theorem run_append (before after : List (DispatcherMove R)) :
    run cfg (before ++ after) = after.foldl (step cfg) (run cfg before) := List.foldl_append

theorem advances_run (after : List (DispatcherMove R)) (s : Dispatcher R) :
    s.executions <+: (after.foldl (step cfg) s).executions ∧
      ((after.foldl (step cfg) s).shutdown = .idle → s.shutdown = .idle) := by
  induction after generalizing s with
  | nil => exact ⟨List.prefix_rfl, id⟩
  | cons m after ih =>
    have hstep := step_advances cfg s m
    obtain ⟨hgrown, hidle⟩ := ih (s.step cfg m)
    exact ⟨hstep.executions.trans hgrown, fun hdone => hstep.idle (hidle hdone)⟩

/-- A terminal record that has not been started never is. -/
theorem not_started_run {e : ℕ} (after : List (DispatcherMove R)) (s : Dispatcher R)
    (hended : Registry.Ended (s.registry.lifecycleOf e)) (hnot : e ∉ s.startedOrder) :
    e ∉ (after.foldl (step cfg) s).startedOrder := by
  induction after generalizing s with
  | nil => exact hnot
  | cons m after ih =>
    refine ih (s.step cfg m) (step_ended cfg s m hended) fun he => ?_
    rcases (step_advances cfg s m).started with heq | ⟨e', r, heq, hget, hqueued⟩
    · exact hnot (heq ▸ he)
    · rw [heq] at he
      rcases List.mem_append.mp he with he | he
      · exact hnot he
      · obtain rfl := List.mem_singleton.mp he
        obtain ⟨r', hget', hterminal⟩ := Registry.ended_iff.mp hended
        obtain rfl := Option.some_inj.mp (hget.symm.trans hget')
        rw [hqueued] at hterminal
        exact hterminal

theorem calm_run (moves : List (DispatcherMove R)) (hidle : (run cfg moves).shutdown = .idle) :
    Disciplined cfg (run cfg moves) ∧ Calm (run cfg moves) := by
  induction moves using List.reverseRecOn with
  | nil => exact ⟨disciplined_start, calm_start⟩
  | append_singleton moves m ih =>
    rw [run_append] at hidle ⊢
    have hbefore := (step_advances cfg _ m).idle hidle
    obtain ⟨hs, hcalm⟩ := ih hbefore
    refine ⟨hs.step m fun e rest hremoving => ?_, hcalm.step hs m hidle⟩
    rw [hbefore] at hremoving
    exact absurd hremoving nofun

/-- The thread of the record is yet to call `worker.execute`. -/
def Launching (s : Dispatcher R) (e : ℕ) : Prop :=
  e ∈ toLaunch s.runner ∨ ∃ task ∈ s.tasks, task.record = e ∧ task.begun = false

/-- The records are numbered in the order they are submitted. -/
structure QueueDiscipline (cfg : DispatcherConfig) (s : Dispatcher R) : Prop where
  once : s.executions.Nodup
  executed_started : s.executions ⊆ s.startedOrder
  submission_order : s.startedOrder.Pairwise (· < ·)
  capacity : s.pending.length ≤ cfg.capacity
  nodup : s.pending.Nodup
  queue : ∀ e, e ∈ s.pending ↔
    s.registry.lifecycleOf e = some .QUEUED ∧ e ∉ held s.runner
  left : ∀ e < s.registry.heap.length, e ∉ s.pending → e ∉ held s.runner →
    Registry.Ended (s.registry.lifecycleOf e) ∨ e ∈ s.executions ∨ Launching s e

theorem Disciplined.executions_subset (h : Disciplined cfg s) : s.executions ⊆ s.startedOrder := by
  intro e he
  obtain ⟨task, htask, rfl⟩ := List.mem_map.mp (h.executions.subset he)
  rw [h.tasks]
  exact List.mem_append_left _ (List.mem_map_of_mem (List.mem_filter.mp htask).1)

theorem Disciplined.started_order (h : Disciplined cfg s) : s.startedOrder.Pairwise (· < ·) :=
  (List.pairwise_append.mp (List.pairwise_append.mp h.order).1).1

theorem Disciplined.executions_nodup (h : Disciplined cfg s) : s.executions.Nodup := by
  have hstarted : s.startedOrder.Nodup := h.started_order.imp Nat.ne_of_lt
  rw [h.tasks] at hstarted
  have hbegun : ((s.tasks.filter Task.begun).map Task.record).Sublist (s.tasks.map Task.record) :=
    List.filter_sublist.map _
  exact h.executions.nodup_iff.mpr (hstarted.of_append_left.sublist hbegun)

/-- A started record has been executed, or its thread is yet to do it. -/
theorem Disciplined.launching (h : Disciplined cfg s) {e : ℕ} (he : e ∈ s.startedOrder) :
    e ∈ s.executions ∨ Launching s e := by
  rw [h.tasks] at he
  rcases List.mem_append.mp he with he | he
  · obtain ⟨task, htask, rfl⟩ := List.mem_map.mp he
    cases hbegun : task.begun with
    | true =>
      refine .inl (h.executions.symm.subset (List.mem_map_of_mem ?_))
      exact List.mem_filter.mpr ⟨htask, hbegun⟩
    | false => exact .inr (.inr ⟨task, htask, rfl, hbegun⟩)
  · exact .inr (.inl he)

theorem discipline_of (hs : Disciplined cfg s) (h : Calm s) : QueueDiscipline cfg s where
  once := hs.executions_nodup
  executed_started := hs.executions_subset
  submission_order := hs.started_order
  capacity := hs.capacity
  nodup := hs.nodup_pending
  queue := by
    intro e
    constructor
    · intro he
      have hlt := hs.known e (List.mem_append_right _ he)
      have hget : s.registry.heap[e]? = some s.registry.heap[e] := List.getElem?_eq_getElem hlt
      refine ⟨?_, fun hheld => hs.held_not_pending hheld he⟩
      rw [Registry.lifecycleOf_eq hget, h.pending e _ he hget]
    · rintro ⟨hqueued, hnot⟩
      obtain ⟨r, hget, hlifecycle⟩ := Option.map_eq_some_iff.mp hqueued
      have hplaced := hs.placed e r hget
      rw [hlifecycle] at hplaced
      exact hplaced.resolve_left hnot
  left := by
    intro e hlt hpending hheld
    have hget : s.registry.heap[e]? = some s.registry.heap[e] := List.getElem?_eq_getElem hlt
    have hplaced := hs.placed e _ hget
    by_cases hterminal : (s.registry.heap[e]).lifecycle.IsTerminal
    · exact .inl (Registry.ended_iff.mpr ⟨_, hget, hterminal⟩)
    · cases hlifecycle : (s.registry.heap[e]).lifecycle with
      | RUNNING =>
        rw [hlifecycle] at hplaced
        exact .inr (hs.launching hplaced)
      | QUEUED =>
        rw [hlifecycle] at hplaced
        exact absurd hplaced (not_or.mpr ⟨hheld, hpending⟩)
      | RECEIVED =>
        rw [hlifecycle] at hplaced
        exact absurd hplaced id
      | PREFLIGHTED =>
        rw [hlifecycle] at hplaced
        exact absurd hplaced id
      | _ =>
        rw [hlifecycle] at hterminal
        exact absurd trivial hterminal

/-- The cancellation of the record or its expiry in the queue has won. -/
def Withdrawn (r : RequestRecord R) : Prop :=
  r.lifecycle = .CANCELLED ∨ r.lifecycle = .TIMED_OUT ∧ r.error = some (.code "queue_timeout")

/-- Before a shutdown the queue is disciplined in every state a run leads to, and a record
that has been withdrawn is not executed from then on. -/
theorem queue_discipline (cfg : DispatcherConfig) (before after : List (DispatcherMove R))
    (hidle : (run cfg (before ++ after)).shutdown = .idle) :
    QueueDiscipline cfg (run cfg (before ++ after)) ∧
    ∀ (e : ℕ) (r : RequestRecord R), (run cfg before).registry.heap[e]? = some r → Withdrawn r →
      (run cfg (before ++ after)).executions.count e = (run cfg before).executions.count e := by
  obtain ⟨hlast, hcalm⟩ := calm_run (before ++ after) hidle
  refine ⟨discipline_of hlast hcalm, fun e r hget hwithdrawn => ?_⟩
  rw [run_append] at hidle hlast ⊢
  obtain ⟨hgrown, hback⟩ : (run cfg before).executions <+:
      (after.foldl (step cfg) (run cfg before)).executions ∧ _ := advances_run after (run cfg before)
  obtain ⟨hfirst, hcalm⟩ := calm_run before (hback hidle)
  by_cases he : e ∈ (run cfg before).executions
  · rw [List.count_eq_one_of_mem hfirst.executions_nodup he,
      List.count_eq_one_of_mem hlast.executions_nodup (hgrown.subset he)]
  · -- it has not been started, and never will be
    have hnot : e ∉ (run cfg before).startedOrder := by
      intro hstarted
      obtain ⟨_, hcancelled, herror⟩ := hcalm.started e r hstarted hget
      rcases hwithdrawn with hlifecycle | ⟨_, hexpired⟩
      · exact he (hcancelled hlifecycle)
      · exact herror hexpired
    have hended : Registry.Ended ((run cfg before).registry.lifecycleOf e) := by
      refine Registry.ended_iff.mpr ⟨r, hget, ?_⟩
      rcases hwithdrawn with hlifecycle | ⟨hlifecycle, _⟩ <;> rw [hlifecycle] <;> trivial
    have hnever : e ∉ (after.foldl (step cfg) (run cfg before)).startedOrder :=
      not_started_run after _ hended hnot
    rw [List.count_eq_zero_of_not_mem he,
      List.count_eq_zero_of_not_mem fun hc => hnever (hlast.executions_subset hc)]

theorem sampleUuids_injective :
    Function.Injective fun n : ℕ => (List.replicate n (CodePoint.ofChar 'a') : PyStr) :=
  fun a b h => by simpa using congrArg List.length h

def sampleDispatcher : DispatcherConfig where
  capacity := 2
  uuid4 := fun n => List.replicate n (CodePoint.ofChar 'a')
  capacity_pos := Nat.two_pos
  uuid4_injective := sampleUuids_injective

/-- Two requests are submitted, and the second is cancelled. -/
def sampleSubmits : List (DispatcherMove Unit) :=
  [.submit 1000 1000 0 0 0, .submit 1000 1000 0 0 0, .cancel (sampleDispatcher.uuid4 2) 0]

/-- The first is executed. -/
def sampleDispatch : List (DispatcherMove Unit) :=
  [.run {}, .run {}, .run {}, .run {}, .task 0 (.ok ()), .task 0 (.ok ()), .run {}, .run {}, .run {},
    .run {}, .run {}, .run {}]

theorem queue_discipline_cancelled :
    (run sampleDispatcher (sampleSubmits ++ sampleDispatch)).shutdown = .idle ∧
    QueueDiscipline sampleDispatcher (run sampleDispatcher (sampleSubmits ++ sampleDispatch)) ∧
    (run sampleDispatcher (sampleSubmits ++ sampleDispatch)).executions = [0] ∧
    (run sampleDispatcher (sampleSubmits ++ sampleDispatch)).executions.count 1 =
      (run sampleDispatcher sampleSubmits).executions.count 1 := by
  have hidle : (run sampleDispatcher (sampleSubmits ++ sampleDispatch)).shutdown = .idle := by
    decide +kernel
  obtain ⟨hdiscipline, hwithdrawn⟩ :=
    queue_discipline sampleDispatcher sampleSubmits sampleDispatch hidle
  refine ⟨hidle, hdiscipline, by decide +kernel, ?_⟩
  have hcancelled : ∃ r, (run sampleDispatcher sampleSubmits).registry.heap[1]? = some r ∧
      r.lifecycle = .CANCELLED := by
    refine Option.map_eq_some_iff.mp ?_
    decide +kernel
  obtain ⟨r, hget, hlifecycle⟩ := hcancelled
  exact hwithdrawn 1 r hget (.inl hlifecycle)

end Worker.Dispatcher
