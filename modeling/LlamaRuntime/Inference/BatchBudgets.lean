/-
The tokens of a tick.

A prefill batch divides what is left of the tick's tokens by the candidates that
are left, and gives each at least one; a decode batch gives everybody the same
share.  The constructor asks for one inequality only, that the tick covers a token
for each sequence of the largest batch.

* `prefillSteps_within` — the loop of a prefill batch: as long as a token is left
  for each candidate, the shares stay positive and their sum within the rest;
* `decodeSteps_within` — the shares of a decode batch;
* `tick_budgets` — in every run, every batch handed to the backend is within the
  limits of the backend and within the tick.
-/
import LlamaRuntime.Concurrency.Extension
import LlamaRuntime.Inference.SchedulerFrames

namespace Inference

open RuntimeRequestState SchedulerState

/-- A batch within a bound for each step, for their number and for their sum. -/
structure StepsWithin (maxTokens maxSequences tick : ℕ) (steps : List SequenceStep) : Prop where
  positive : ∀ step ∈ steps, 1 ≤ step.tokenBudget
  share : ∀ step ∈ steps, step.tokenBudget ≤ maxTokens
  count : steps.length ≤ maxSequences
  total : (steps.map SequenceStep.tokenBudget).sum ≤ tick

/-- A batch handed to the backend is within the limits of the scheduler. -/
def BackendCall.WithinBudgets (cfg : SchedulerConfig) : BackendCall → Prop
  | .prefillBatch steps => StepsWithin cfg.capabilities.maxPrefillTokensPerStep
      cfg.capabilities.maxSequencesPerStep cfg.tickTokenBudget steps
  | .decodeBatch steps => StepsWithin cfg.capabilities.maxDecodeTokensPerStep
      cfg.capabilities.maxSequencesPerStep cfg.tickTokenBudget steps
  | .openSequence _ | .release _ => True

namespace ContinuousBatchScheduler

variable {cfg : SchedulerConfig} {s s' : SchedulerState}

/-! ### The shares -/

theorem length_takeStateLocked {queue : Queue} {state : RuntimeRequestState} {ans : Answer} :
    ∀ (limit k : ℕ) (s : SchedulerState) {es : List ℕ},
      (takeStateLocked cfg queue state ans limit k s).1 = .ok es → es.length ≤ limit := by
  intro limit
  induction limit with
  | zero =>
    intro k s es h
    obtain rfl : [] = es := Except.ok.inj h
    exact le_rfl
  | succ limit ih =>
    intro k s es h
    rw [takeStateLocked] at h
    generalize popStateLocked cfg queue state (fun _ => true) (ans.clock k) (ans.selector k) s
      = popped at h
    rcases popped with ⟨exc | _ | e, t⟩
    · exact absurd h (by simp)
    · obtain rfl : [] = es := Except.ok.inj h
      exact Nat.zero_le _
    have hrest := @ih (k + 1) t
    dsimp only at h
    generalize takeStateLocked cfg queue state ans limit (k + 1) t = taken at h hrest
    rcases taken with ⟨exc | es', u⟩
    · exact absurd h (by simp)
    · obtain rfl : e :: es' = es := Except.ok.inj h
      exact Nat.succ_le_succ (hrest rfl)

/-- One share of what is left: it leaves a token for each of the other candidates. -/
theorem share_spec {maxTokens n : ℕ} (hmax : 0 < maxTokens) {remaining : ℤ}
    (h : (n : ℤ) + 1 ≤ remaining) :
    let budget : ℤ := min maxTokens (max 1 (remaining / max 1 ((n : ℤ) + 1)))
    1 ≤ budget ∧ budget ≤ maxTokens ∧ (n : ℤ) ≤ remaining - budget := by
  have hslots : max 1 ((n : ℤ) + 1) = (n : ℤ) + 1 := by omega
  rw [hslots]
  have hpos : (0 : ℤ) < n + 1 := by omega
  have hone : 1 ≤ remaining / ((n : ℤ) + 1) := (Int.le_ediv_iff_mul_le hpos).mpr (by omega)
  have hmul : remaining / ((n : ℤ) + 1) * (n + 1) ≤ remaining := Int.ediv_mul_le _ (by omega)
  -- the other candidates could be given as much
  have hrest : (n : ℤ) ≤ remaining / ((n : ℤ) + 1) * n := by nlinarith
  have hsplit : remaining / ((n : ℤ) + 1) * (n + 1) =
      remaining / ((n : ℤ) + 1) * n + remaining / ((n : ℤ) + 1) := by ring
  have hmax' : (1 : ℤ) ≤ maxTokens := by omega
  refine ⟨?_, ?_, ?_⟩ <;> omega

/-- **The loop of a prefill batch.**  A token is left for each candidate that is
left. -/
theorem prefillSteps_within {maxTokens : ℕ} (hmax : 0 < maxTokens) (s : SchedulerState) :
    ∀ (candidates : List ℕ) (remaining : ℤ), (candidates.length : ℤ) ≤ remaining →
      StepsWithin maxTokens candidates.length remaining.toNat
        ((prefillSteps maxTokens s candidates remaining).map Prod.snd) := by
  intro candidates
  induction candidates with
  | nil =>
    intro remaining _
    exact ⟨fun _ h => absurd h (by simp [prefillSteps]), fun _ h => absurd h (by simp [prefillSteps]),
      by simp [prefillSteps], by simp [prefillSteps]⟩
  | cons e rest ih =>
    intro remaining h
    rw [List.length_cons, Nat.cast_succ] at h
    rw [prefillSteps]
    cases (s.entry e).handle with
    | none =>
      have hrest := ih remaining (by omega)
      exact ⟨hrest.positive, hrest.share, hrest.count.trans (Nat.le_succ _), hrest.total⟩
    | some handle =>
      dsimp only
      obtain ⟨hpos, hle, hleft⟩ := share_spec hmax h
      generalize min (maxTokens : ℤ) (max 1 (remaining / max 1 ((rest.length : ℤ) + 1))) = budget
        at hpos hle hleft
      have hrest := ih (remaining - budget) hleft
      refine ⟨fun step hstep => ?_, fun step hstep => ?_, ?_, ?_⟩
      · rcases List.mem_cons.mp hstep with rfl | hstep
        · show 1 ≤ budget.toNat
          omega
        · exact hrest.positive step hstep
      · rcases List.mem_cons.mp hstep with rfl | hstep
        · show budget.toNat ≤ maxTokens
          omega
        · exact hrest.share step hstep
      · exact Nat.succ_le_succ hrest.count
      · have htotal := hrest.total
        rw [List.map_cons, List.map_cons, List.sum_cons]
        show budget.toNat + _ ≤ _
        omega

/-- The shares of a decode batch. -/
theorem decodeSteps_within {maxTokens maxSequences tick : ℕ} (hmax : 0 < maxTokens)
    {selected : List ℕ} (hcount : selected.length ≤ min maxSequences tick) (t : SchedulerState) :
    StepsWithin maxTokens maxSequences tick (selected.filterMap fun e =>
      (t.entry e).handle.map fun h =>
        ⟨h, min maxTokens (max 1 (tick / max 1 selected.length))⟩) := by
  generalize hquantum : min maxTokens (max 1 (tick / max 1 selected.length)) = quantum
  have hone : 1 ≤ quantum := by omega
  -- everybody has the same share
  have hall : ∀ step ∈ selected.filterMap (fun e => (t.entry e).handle.map fun h =>
      (⟨h, quantum⟩ : SequenceStep)), step.tokenBudget = quantum := by
    intro step hstep
    obtain ⟨e, _, he⟩ := List.mem_filterMap.mp hstep
    obtain ⟨handle, _, rfl⟩ := Option.map_eq_some_iff.mp he
    rfl
  have hlength : (selected.filterMap fun e => (t.entry e).handle.map fun h =>
      (⟨h, quantum⟩ : SequenceStep)).length ≤ selected.length := List.length_filterMap_le ..
  generalize (selected.filterMap fun e => (t.entry e).handle.map fun h =>
    (⟨h, quantum⟩ : SequenceStep)) = steps at hall hlength
  refine ⟨fun step hstep => (hall step hstep).ge.trans' hone, fun step hstep => ?_, ?_, ?_⟩
  · rw [hall step hstep]
    omega
  · omega
  · have hsum : (steps.map SequenceStep.tokenBudget).sum = steps.length * quantum := by
      rw [List.eq_replicate_of_mem (a := quantum) (l := steps.map SequenceStep.tokenBudget) ?_]
      · simp
      · intro budget hbudget
        obtain ⟨step, hstep, rfl⟩ := List.mem_map.mp hbudget
        exact hall step hstep
    rw [hsum]
    rcases Nat.eq_zero_or_pos selected.length with hzero | hpos
    · have hnone : steps.length = 0 := by omega
      rw [hnone, Nat.zero_mul]
      exact Nat.zero_le _
    · have hslots : max 1 selected.length = selected.length := by omega
      have hshare : 1 ≤ tick / selected.length :=
        (Nat.le_div_iff_mul_le hpos).mpr (by omega)
      calc steps.length * quantum
          ≤ selected.length * (tick / selected.length) := by
            refine Nat.mul_le_mul hlength ?_
            rw [← hquantum, hslots]
            omega
        _ ≤ tick := Nat.mul_div_le tick selected.length

theorem prefillTakeBlock_within {ans : Answer} {picked : List (ℕ × SequenceStep)}
    (h : (prefillTakeBlock cfg s ans).1 = .ok picked) :
    BackendCall.WithinBudgets cfg (.prefillBatch (picked.map Prod.snd)) := by
  have hlength := @length_takeStateLocked cfg .prefill PREFILL ans
    cfg.capabilities.maxSequencesPerStep 0 s
  unfold prefillTakeBlock at h
  generalize takeStateLocked cfg .prefill PREFILL ans cfg.capabilities.maxSequencesPerStep 0 s
    = taken at h hlength
  rcases taken with ⟨exc | candidates, t⟩
  · exact absurd h (by simp)
  obtain rfl := Except.ok.inj h
  have hcount := hlength rfl
  have htick := cfg.tick_covers
  have hsteps := prefillSteps_within cfg.capabilities.prefill_pos t candidates
    cfg.tickTokenBudget (by omega)
  rw [Int.toNat_natCast] at hsteps
  exact ⟨hsteps.positive, hsteps.share, hsteps.count.trans hcount, hsteps.total⟩

theorem decodeTakeBlock_within {ans : Answer} {picked : List ℕ × List SequenceStep}
    (h : (decodeTakeBlock cfg s ans).1 = .ok picked) :
    BackendCall.WithinBudgets cfg (.decodeBatch picked.2) := by
  have hlength := @length_takeStateLocked cfg .decode DECODE ans
    (min cfg.capabilities.maxSequencesPerStep cfg.tickTokenBudget) 0 s
  unfold decodeTakeBlock at h
  dsimp only at h
  generalize takeStateLocked cfg .decode DECODE ans
    (min cfg.capabilities.maxSequencesPerStep cfg.tickTokenBudget) 0 s = taken at h hlength
  rcases taken with ⟨exc | selected, t⟩
  · exact absurd h (by simp)
  obtain rfl := Except.ok.inj h
  exact decodeSteps_within cfg.capabilities.decode_pos (hlength rfl) t

/-! ### The runs -/

/-- Every batch the action hands out is within the limits. -/
def Budgeted (cfg : SchedulerConfig) (s s' : SchedulerState) : Prop :=
  ∀ c ∈ s'.backendCalls, c ∈ s.backendCalls ∨ c.WithinBudgets cfg

theorem Budgeted.of_calls (h : s'.backendCalls = s.backendCalls) : Budgeted cfg s s' :=
  fun _ hc => .inl (h ▸ hc)

theorem Budgeted.call (s : SchedulerState) {c : BackendCall} (hc : c.WithinBudgets cfg) :
    Budgeted cfg s { s with backendCalls := s.backendCalls ++ [c] } := by
  intro c' hc'
  rcases List.mem_append.mp hc' with hc' | hc'
  · exact .inl hc'
  · exact .inr (List.mem_singleton.mp hc' ▸ hc)

/-- The entries may change as they like. -/
def AnyEntry (_ _ : RequestEntry) : Prop := True

theorem tolerant_anyEntry : Tolerant AnyEntry where
  trans := fun _ _ => trivial
  marks := fun _ => trivial
  moves := fun _ _ _ _ _ => trivial
  fails := fun _ _ => trivial

theorem budgeted_aside (s s' : SchedulerState) (h : Aside AnyEntry s s') : Budgeted cfg s s' := by
  intro c hc
  rcases h.calls c hc with hc | hc
  · exact .inl hc
  · refine .inr ?_
    cases c with
    | openSequence e => trivial
    | release handle => trivial
    | prefillBatch steps => exact absurd trivial hc
    | decodeBatch steps => exact absurd trivial hc

section threads

open Thread hiding pure bind tryCatch

/-- Every batch the thread hands out is within the limits. -/
abbrev Budgets (cfg : SchedulerConfig) {α : Type} (t : Worker α) : Prop :=
  Changes (Budgeted cfg) t

theorem budgets_aside {α : Type} {t : Worker α} (h : Changes (Aside AnyEntry) t) :
    Budgets cfg t := Confined.weaken h budgeted_aside

theorem budgets_openOne : Budgets cfg (openOne cfg) := by
  have hcommit : ∀ e handle s ans, Budgeted cfg s (openCommitBlock e handle s ans).2 := by
    intro e handle s ans
    rcases openCommitBlock_spec e handle s ans with
      ⟨exc, _, heq⟩ | ⟨now, deadline, _, heq | heq⟩
    · rw [heq]
      exact .of_calls rfl
    · rw [heq]
      exact .of_calls rfl
    · rw [heq]
      exact .of_calls rfl
  obtain ⟨k, heq, hk⟩ := @openOne_after cfg AnyEntry (Budgeted cfg) tolerant_anyEntry
    budgeted_aside (fun _ _ => trivial) hcommit
  rw [heq]
  refine Changes.bind (changes_atomic fun s ans => .of_calls ?_) hk
  unfold openPickBlock
  split_ifs
  · rfl
  have hpop := (@popStateLocked_spec cfg .queued QUEUED
    (fun x => s.admission.canActivate cfg.limits x.scheduling.requestId) (ans.clock 0)
    (ans.selector 0) s).1.calls
  generalize popStateLocked cfg .queued QUEUED
    (fun x => s.admission.canActivate cfg.limits x.scheduling.requestId) (ans.clock 0)
    (ans.selector 0) s = popped at hpop
  rcases popped with ⟨exc | _ | e, t⟩ <;> exact hpop

theorem budgets_runPrefillBatch : Budgets cfg (runPrefillBatch cfg) := by
  have happly : ∀ selected outcomes s ans,
      Budgeted cfg s (applyPrefill selected outcomes s ans).2 := by
    intro selected outcomes s ans
    have hloop := congrArg SchedulerState.backendCalls
      (foldl_applyPrefill_frame (selected.zip outcomes) s)
    exact .of_calls hloop
  obtain ⟨k, heq, hk⟩ := @runPrefillBatch_after cfg AnyEntry (Budgeted cfg) tolerant_anyEntry
    budgeted_aside happly
  rw [heq]
  refine Confined.bind (V := fun picked =>
    BackendCall.WithinBudgets cfg (.prefillBatch (picked.map Prod.snd)))
    (Confined.atomic (fun s ans => .of_calls ?_) (fun s ans picked => prefillTakeBlock_within)
      fun _ _ _ _ => trivial) fun picked hpicked => hk picked fun s ans => ?_
  · have htake := (@takeStateLocked_spec cfg .prefill PREFILL ans
      cfg.capabilities.maxSequencesPerStep 0 s).1.calls
    unfold prefillTakeBlock
    generalize takeStateLocked cfg .prefill PREFILL ans cfg.capabilities.maxSequencesPerStep 0 s
      = taken at htake
    rcases taken with ⟨exc | candidates, t⟩
    · exact htake
    · dsimp only
      rw [setStates_eq]
      exact htake
  · rw [prefillCallBlock_state]
    exact .call s hpicked

theorem budgets_runDecodeBatch : Budgets cfg (runDecodeBatch cfg) := by
  have happly : ∀ selected outcomes s ans,
      Budgeted cfg s (applyDecode selected outcomes s ans).2 := by
    intro selected outcomes s ans
    have hloop := congrArg SchedulerState.backendCalls
      (applyDecodeLoop_frame (selected.zip outcomes) s)
    unfold applyDecode
    generalize applyDecodeLoop (selected.zip outcomes) s = result at hloop
    rcases result with ⟨exc | done, t⟩
    · exact .of_calls hloop
    · exact .of_calls hloop
  obtain ⟨k, heq, hk⟩ := @runDecodeBatch_after cfg AnyEntry (Budgeted cfg) tolerant_anyEntry
    (fun _ _ => trivial) budgeted_aside happly
  rw [heq]
  refine Confined.bind (V := fun picked => BackendCall.WithinBudgets cfg (.decodeBatch picked.2))
    (Confined.atomic (fun s ans => .of_calls ?_) (fun s ans picked => decodeTakeBlock_within)
      fun _ _ _ _ => trivial) fun picked hpicked => hk picked fun s ans => ?_
  · have htake := (@takeStateLocked_spec cfg .decode DECODE ans
      (min cfg.capabilities.maxSequencesPerStep cfg.tickTokenBudget) 0 s).1.calls
    unfold decodeTakeBlock
    dsimp only
    generalize takeStateLocked cfg .decode DECODE ans
      (min cfg.capabilities.maxSequencesPerStep cfg.tickTokenBudget) 0 s = taken at htake
    rcases taken with ⟨exc | selected, t⟩
    · exact htake
    · dsimp only
      rw [setStates_eq]
      exact htake
  · rw [decodeCallBlock_state]
    exact .call s hpicked

theorem budgets_iteration : Budgets cfg (iteration cfg) := by
  refine Changes.bind (budgets_aside (aside_processTerminalBoundaries tolerant_anyEntry))
    fun ended => Confined.ite (fun _ => changes_pure _) fun _ => ?_
  refine budgets_openOne.bind fun opened => Confined.ite (fun _ => changes_pure _) fun _ => ?_
  refine Changes.bind (changes_atomic fun s ans => .of_calls (chooseBatchBlock_spec s ans).calls)
    fun action => ?_
  match action with
  | some .decode => exact budgets_runDecodeBatch.bind fun _ => changes_pure _
  | some .prefill => exact budgets_runPrefillBatch.bind fun _ => changes_pure _
  | none =>
    refine changes_atomic fun s ans => .of_calls ?_
    rcases @idleBlock_spec cfg s ans with ⟨_, heq⟩ | hprune
    · rw [heq]
      rfl
    · exact hprune.calls

/-- Clients hand nothing to the backend, and leave the burst alone. -/
theorem client_worker (k : ClientOp) (s : SchedulerState) :
    (clientStep cfg k s).backendCalls = s.backendCalls ∧
      (clientStep cfg k s).decodeBurst = s.decodeBurst := by
  cases k with
  | infer request metadata attemptId clock =>
    show (infer cfg request metadata attemptId clock s).2.backendCalls = _ ∧
      (infer cfg request metadata attemptId clock s).2.decodeBurst = _
    rcases @infer_cases cfg request metadata attemptId clock s with ⟨_, heq⟩ | ⟨x, _, heq, _⟩
    · rw [heq]
      exact ⟨rfl, rfl⟩
    · rw [heq]
      exact ⟨rfl, rfl⟩
  | wake e =>
    show (wake e s).backendCalls = _ ∧ (wake e s).decodeBurst = _
    unfold wake
    split
    · dsimp only
      split_ifs <;> exact ⟨rfl, rfl⟩
    · exact ⟨rfl, rfl⟩
  | cancel requestId =>
    show (cancel requestId s).2.backendCalls = _ ∧ (cancel requestId s).2.decodeBurst = _
    unfold cancel
    cases s.entries.get? requestId with
    | none => exact ⟨rfl, rfl⟩
    | some e =>
      dsimp only
      split_ifs <;> exact ⟨rfl, rfl⟩
  | shutdown =>
    have hmarks : ∀ (es : List ℕ) (s : SchedulerState),
        (es.foldl (fun t e => t.modifyEntry e fun x => { x with cancelRequested := true })
          s).backendCalls = s.backendCalls ∧
        (es.foldl (fun t e => t.modifyEntry e fun x => { x with cancelRequested := true })
          s).decodeBurst = s.decodeBurst := by
      intro es
      induction es with
      | nil => exact fun _ => ⟨rfl, rfl⟩
      | cons e es ih => exact fun s => ih (s.modifyEntry e fun x => { x with cancelRequested := true })
    exact hmarks s.liveEntries { s with stopping := true }

/-- **Tick budgets**: every batch the scheduler hands to its backend is within the
limits of the backend and within the tick. -/
theorem tick_budgets (cfg : SchedulerConfig) (moves : List (Move Answer ClientOp)) :
    ∀ c ∈ ((scheduler cfg).run (initial cfg) moves).shared.backendCalls, c.WithinBudgets cfg := by
  let C : Protocol SchedulerState Answer :=
    { inv := fun s => ∀ c ∈ s.backendCalls, c.WithinBudgets cfg
      rely := fun _ _ => True
      allow := fun _ _ _ => True
      rely_refl := fun _ => trivial
      rely_trans := fun _ _ => trivial }
  have hkeep : ∀ s s', Budgeted cfg s s' → C.inv s → C.inv s' :=
    fun s s' h hs c hc => (h c hc).elim (hs c) id
  refine System.run_kept (U := scheduler cfg) (C := C) (E := fun _ _ => True)
    (fun _ _ _ => trivial) ?_ (fun exc => ?_) (fun s k hs => ⟨?_, trivial⟩) ?_ moves
  · exact (budgets_iteration.steady (P := fun _ => True) hkeep (fun _ _ _ h => h)
      fun _ _ _ h => h).conseq (fun _ _ h => h) (fun _ _ _ _ => trivial) fun _ _ _ _ => trivial
  · have hcrash := @budgets_aside cfg _ _ (aside_crashHandler tolerant_anyEntry exc)
    exact (hcrash.steady (P := fun _ => True) hkeep (fun _ _ _ h => h)
      fun _ _ _ h => h).conseq (fun _ _ h => h) (fun _ _ _ _ => trivial) fun _ _ _ _ => trivial
  · show ∀ c ∈ (clientStep cfg k s).backendCalls, c.WithinBudgets cfg
    rw [(client_worker k s).1]
    exact hs
  · exact fun c hc => absurd hc (by simp)

/-- One request is opened, and prefilled alone. -/
def aloneRun : List (Move Answer ClientOp) :=
  [sampleInfer "alone" (by decide) (by decide) (by decide)] ++ sampleWork 12 1 ++ sampleWork 6 2

theorem tick_budgets_alone :
    (BackendCall.prefillBatch [⟨sampleHandle 1, 64⟩]).WithinBudgets sampleConfig :=
  tick_budgets sampleConfig aloneRun _ (by decide +kernel)

end threads

end ContinuousBatchScheduler

end Inference
