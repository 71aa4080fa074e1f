/-
How long emergency work may pass over a queued request.

The selector counts the emergency picks in a row, and past the cap of the policy the
normal lane comes first.  There is one count for the three deques, so that a pick for
a batch may set it back to zero while a request waits to be opened.

* `Selection`, `selecting` — the loop with the log of its selections;
* `emergency_bounded` — the cap bounds the emergency openings in a row past a waiting
  request, in a run whose batches do not set the count back while it waits;
* `emergency_not_bounded` — a decode batch that does.
-/
import LlamaRuntime.Concurrency.Extension
import LlamaRuntime.Inference.IdleWait
import LlamaRuntime.Inference.SchedulerFrames

namespace Inference

open RuntimeRequestState SchedulerState

/-! ### The count of the selector -/

namespace HierarchicalFairSelector

variable {α : Type} [SchedulableEntry α] {policy : RuntimeSchedulingPolicy}

theorem noteAll_count : ∀ (entries : List α) (sel : HierarchicalFairSelector),
    (noteAll policy sel entries).2.consecutiveEmergency = sel.consecutiveEmergency
  | [], _ => rfl
  | entry :: rest, sel => by
    rw [noteAll]
    cases policy.classPolicy (scheduling entry).serviceClass with
    | error rejection => rfl
    | ok item => exact noteAll_count rest (sel.noteWeights (scheduling entry))

/-- The selector is in the normal lane: there is normal work, and no emergency work or
the cap is reached. -/
def NormalLane (policy : RuntimeSchedulingPolicy) (count : ℕ) (entries : List α) : Prop :=
  (∃ x ∈ entries, isEmergency policy x = false) ∧
    ((∀ x ∈ entries, isEmergency policy x = false) ∨ policy.emergencyBurstCap ≤ count)

/-- The lane of an entry that has been picked. -/
theorem lane_of_mem {sel : HierarchicalFairSelector} {entries : List α} {e : α}
    (h : e ∈ lane policy sel entries) :
    if isEmergency policy e then
      (∃ x ∈ entries, isEmergency policy x = false) →
        sel.consecutiveEmergency < policy.emergencyBurstCap
    else NormalLane policy sel.consecutiveEmergency entries := by
  have hmem := mem_of_mem_lane h
  have hnone : (entries.filter fun x => isEmergency policy x) = [] ↔
      ∀ x ∈ entries, isEmergency policy x = false := by simp
  have hsome : (entries.filter fun x => ¬ isEmergency policy x) ≠ [] ↔
      ∃ x ∈ entries, isEmergency policy x = false := by simp
  unfold lane at h
  dsimp only at h
  by_cases hemergency : (entries.filter fun x => isEmergency policy x) ≠ [] ∧
      ((entries.filter fun x => ¬ isEmergency policy x) = [] ∨
        sel.consecutiveEmergency < policy.emergencyBurstCap)
  · rw [if_pos hemergency] at h
    have he : isEmergency policy e = true := by simpa using (List.mem_filter.mp h).2
    rw [if_pos he]
    intro hnormal
    rcases hemergency.2 with hempty | hlt
    · exact absurd hempty (hsome.mpr hnormal)
    · exact hlt
  · rw [if_neg hemergency] at h
    by_cases hnormal : (entries.filter fun x => ¬ isEmergency policy x) ≠ []
    · rw [if_pos hnormal] at h
      have he : ¬ isEmergency policy e = true := by simpa using (List.mem_filter.mp h).2
      rw [if_neg he]
      refine ⟨hsome.mp hnormal, ?_⟩
      by_cases hall : ∀ x ∈ entries, isEmergency policy x = false
      · exact .inl hall
      · refine .inr (not_lt.mp fun hlt => hemergency ⟨fun hempty => ?_, .inr hlt⟩)
        exact hall (hnone.mp hempty)
    · -- neither lane has work
      have hall : ∀ x ∈ entries, isEmergency policy x = true := by
        intro x hx
        by_contra hc
        exact hnormal (hsome.mpr ⟨x, hx, by simpa using hc⟩)
      refine absurd ⟨fun hempty => ?_, .inl (not_not.mp hnormal)⟩ hemergency
      have hfalse := hnone.mp hempty e hmem
      rw [hall e hmem] at hfalse
      exact absurd hfalse (by simp)

/-- What a pick says of the lane, and what it does to the count. -/
theorem select_some {sel : HierarchicalFairSelector} {entries : List α} {now : ℚ} {e : α}
    (h : (select policy sel entries now).1 = .ok (some e)) :
    if isEmergency policy e then
      (select policy sel entries now).2.consecutiveEmergency = sel.consecutiveEmergency + 1 ∧
        ((∃ x ∈ entries, isEmergency policy x = false) →
          sel.consecutiveEmergency < policy.emergencyBurstCap)
    else
      (select policy sel entries now).2.consecutiveEmergency = 0 ∧
        NormalLane policy sel.consecutiveEmergency entries := by
  unfold select at h ⊢
  cases entries with
  | nil => exact absurd (Except.ok.inj h) (by simp)
  | cons x xs =>
    dsimp only at h ⊢
    have hcount : (noteAll policy sel (x :: xs)).2.consecutiveEmergency = sel.consecutiveEmergency :=
      noteAll_count (x :: xs) sel
    rcases hnote : noteAll policy sel (x :: xs) with ⟨result, noted⟩
    rw [hnote] at h hcount
    cases result with
    | error rejection => exact nomatch h
    | ok _ =>
      dsimp only at h hcount ⊢
      cases hlane : lane policy noted (x :: xs) with
      | nil =>
        rw [hlane] at h
        exact absurd (Except.ok.inj h) (by simp)
      | cons first rest =>
        rw [hlane] at h
        have he : minByKey (key policy noted now) first rest = e :=
          Option.some_inj.mp (Except.ok.inj h)
        have hpicked : e ∈ lane policy noted (x :: xs) := by
          rw [hlane, ← he]
          exact minByKey_mem _ first rest
        have hwhy := lane_of_mem hpicked
        rw [hcount] at hwhy
        dsimp only
        rw [he]
        by_cases hemergency : isEmergency policy e = true
        · rw [if_pos hemergency] at hwhy ⊢
          exact ⟨by rw [if_pos hemergency, hcount], hwhy⟩
        · rw [if_neg hemergency] at hwhy ⊢
          exact ⟨if_neg hemergency, hwhy⟩

/-- Without a pick the count stays. -/
theorem select_none {sel : HierarchicalFairSelector} {entries : List α} {now : ℚ}
    (h : ∀ e, (select policy sel entries now).1 ≠ .ok (some e)) :
    (select policy sel entries now).2.consecutiveEmergency = sel.consecutiveEmergency := by
  unfold select at h ⊢
  cases entries with
  | nil => rfl
  | cons x xs =>
    dsimp only at h ⊢
    have hcount : (noteAll policy sel (x :: xs)).2.consecutiveEmergency = sel.consecutiveEmergency :=
      noteAll_count (x :: xs) sel
    rcases hnote : noteAll policy sel (x :: xs) with ⟨result, noted⟩
    rw [hnote] at h hcount
    cases result with
    | error rejection => exact hcount
    | ok _ =>
      dsimp only at h hcount ⊢
      cases hlane : lane policy noted (x :: xs) with
      | nil => exact hcount
      | cons first rest =>
        rw [hlane] at h
        exact absurd rfl (h _)

end HierarchicalFairSelector

namespace ContinuousBatchScheduler

open HierarchicalFairSelector

variable (cfg : SchedulerConfig)

/-! ### Selections -/

/-- What a selection chooses among. -/
def candidates (queue : Queue) (state : RuntimeRequestState) (predicate : RequestEntry → Bool)
    (s : SchedulerState) : List Candidate :=
  (((s.deque queue).filterMap (liveMember s state)).filter
    fun e => predicate (s.entry e)).map fun e => Candidate.mk e (s.entry e)

/-- `_is_emergency` of an entry -/
def emergency (s : SchedulerState) (e : ℕ) : Bool :=
  isEmergency cfg.policy (Candidate.mk e (s.entry e))

/-- A pick that sets a positive count back to zero. -/
def Interrupts (queue : Queue) (state : RuntimeRequestState) (s : SchedulerState) : Prop :=
  0 < s.selector.consecutiveEmergency ∧ NormalLane cfg.policy s.selector.consecutiveEmergency
    (candidates queue state (fun _ => true) s)

/-- No pick of a batch interrupts; the recursion is that of `takeStateLocked`. -/
def NoneInterrupts (queue : Queue) (state : RuntimeRequestState) (ans : Answer) :
    ℕ → ℕ → SchedulerState → Prop
  | 0, _, _ => True
  | limit + 1, k, s =>
    match popStateLocked cfg queue state (fun _ => true) (ans.clock k) (ans.selector k) s with
    | (.ok (some _), t) =>
      ¬ Interrupts cfg queue state s ∧ NoneInterrupts queue state ans limit (k + 1) t
    | _ => True

/-- The beginning of `_open_one`, `_run_prefill_batch` or `_run_decode_batch`, in the
state it finds. -/
structure Selection where
  queue : Queue
  state : SchedulerState
  answer : Answer

namespace Selection

variable (sel : Selection)

/-- The entry that is to be opened. -/
def opened : Option ℕ :=
  match sel.queue with
  | .queued => (openPickBlock cfg sel.state sel.answer).1.toOption.join
  | .prefill => none
  | .decode => none

def after : SchedulerState :=
  match sel.queue with
  | .queued => (openPickBlock cfg sel.state sel.answer).2
  | .prefill => (prefillTakeBlock cfg sel.state sel.answer).2
  | .decode => (decodeTakeBlock cfg sel.state sel.answer).2

/-- The selection, if it is for a batch, leaves a positive count positive. -/
def KeepsCount : Prop :=
  match sel.queue with
  | .queued => True
  | .prefill =>
    NoneInterrupts cfg .prefill PREFILL sel.answer cfg.capabilities.maxSequencesPerStep 0 sel.state
  | .decode =>
    NoneInterrupts cfg .decode DECODE sel.answer
      (min cfg.capabilities.maxSequencesPerStep cfg.tickTokenBudget) 0 sel.state

end Selection

/-- An entry, in the state in which it is picked for opening. -/
structure OpenPick where
  state : SchedulerState
  entry : ℕ

def openings (log : List Selection) : List OpenPick :=
  log.filterMap fun sel => (sel.opened cfg).map fun e => ⟨sel.state, e⟩

abbrev SelectingState := SchedulerState × List Selection

/-- The first action is a selection from the queue. -/
def logged {α : Type} (queue : Queue) (t : Worker α) :
    Thread SelectingState Answer PyException α :=
  t.noteFirst fun s ans log => log ++ [⟨queue, s, ans⟩]

/-- The loop, with the log of its selections. -/
def selectingIteration : Thread SelectingState Answer PyException Bool := do
  if ← processTerminalBoundaries.within _ then pure true
  else if ← logged .queued (openOne cfg) then pure true
  else
    match ← Thread.within _ (.atomic (chooseBatchBlock cfg)) with
    | some .decode => do
      logged .decode (runDecodeBatch cfg)
      pure true
    | some .prefill => do
      logged .prefill (runPrefillBatch cfg)
      pure true
    | none => Thread.within _ (.atomic (idleBlock cfg))

/-- The scheduler with its clients, and with the log. -/
def selecting : System SelectingState Answer PyException ClientOp where
  body := selectingIteration cfg
  handler exc := (crashHandler exc).within _
  client k p := (clientStep cfg k p.1, p.2)

/-- The selections of a run. -/
def selections (moves : List (Move Answer ClientOp)) : List Selection :=
  ((selecting cfg).run ((selecting cfg).start ({}, [])) moves).shared.2

variable {cfg}

/-- Without the log this is the scheduler. -/
theorem selecting_erases : System.SystemErases (selecting cfg) (scheduler cfg) where
  body := by
    refine Thread.Erases.bind (Thread.erases_within _) fun ended => ?_
    refine Thread.Erases.ite (.pure _) ?_
    refine Thread.Erases.bind (Thread.erases_noteFirst _ _) fun opened => ?_
    refine Thread.Erases.ite (.pure _) ?_
    refine Thread.Erases.bind (Thread.erases_within _) fun action => ?_
    match action with
    | some .decode => exact Thread.Erases.bind (Thread.erases_noteFirst _ _) fun _ => .pure _
    | some .prefill => exact Thread.Erases.bind (Thread.erases_noteFirst _ _) fun _ => .pure _
    | none => exact Thread.erases_within _
  handler := fun exc => Thread.erases_within _
  client := fun _ _ => rfl

/-- The log is one of a run of the scheduler itself. -/
theorem selecting_run (moves : List (Move Answer ClientOp)) :
    ((selecting cfg).run ((selecting cfg).start ({}, [])) moves).shared.1 =
      ((scheduler cfg).run (initial cfg) moves).shared :=
  System.run_erases selecting_erases {} [] moves

variable {s : SchedulerState} {e w : ℕ}

/-! ### What a selection does to the count -/

theorem popStateLocked_picks {queue : Queue} {state : RuntimeRequestState}
    {predicate : RequestEntry → Bool} {clock : ClockReading} {fault : Option PyException}
    {t : SchedulerState}
    (h : popStateLocked cfg queue state predicate clock fault s = (.ok (some e), t)) :
    if emergency cfg s e then
      t.selector.consecutiveEmergency = s.selector.consecutiveEmergency + 1 ∧
        ((∃ c ∈ candidates queue state predicate s, isEmergency cfg.policy c = false) →
          s.selector.consecutiveEmergency < cfg.policy.emergencyBurstCap)
    else
      t.selector.consecutiveEmergency = 0 ∧ NormalLane cfg.policy s.selector.consecutiveEmergency
        (candidates queue state predicate s) := by
  have hsel : (s.setDeque queue ((s.deque queue).filter
      fun id => (liveMember s state id).isSome)).selector = s.selector := by cases queue <;> rfl
  unfold popStateLocked at h
  dsimp only at h
  cases hnow : clock.now with
  | error exc =>
    rw [hnow] at h
    exact absurd (congrArg Prod.fst h) (by simp)
  | ok now =>
    rw [hnow] at h
    cases fault with
    | some exc => exact absurd (congrArg Prod.fst h) (by simp)
    | none =>
      dsimp only at h
      rw [hsel] at h
      rcases hpick : s.selector.select cfg.policy (candidates queue state predicate s) now
        with ⟨result, sel⟩
      have hpick' := hpick
      unfold candidates at hpick'
      rw [hpick'] at h
      match result with
      | .error rejection => exact absurd (congrArg Prod.fst h) (by simp)
      | .ok none => exact absurd (congrArg Prod.fst h) (by simp)
      | .ok (some selected) =>
        obtain rfl : selected.id = e := by simpa using congrArg Prod.fst h
        have hfound := select_some (e := selected) (congrArg Prod.fst hpick)
        rw [hpick] at hfound
        have ht : t.selector = sel := by
          have hsnd := congrArg (fun r => r.2.selector) h
          cases queue <;> exact hsnd.symm
        have hentry : isEmergency cfg.policy selected = emergency cfg s selected.id := by
          have hmem := select_mem (congrArg Prod.fst hpick)
          obtain ⟨e, _, rfl⟩ := List.mem_map.mp hmem
          rfl
        rw [ht, ← hentry]
        exact hfound

theorem popStateLocked_idle {queue : Queue} {state : RuntimeRequestState}
    {predicate : RequestEntry → Bool} {clock : ClockReading} {fault : Option PyException}
    (h : ∀ e, (popStateLocked cfg queue state predicate clock fault s).1 ≠ .ok (some e)) :
    (popStateLocked cfg queue state predicate clock fault s).2.selector.consecutiveEmergency =
      s.selector.consecutiveEmergency := by
  have hsel : (s.setDeque queue ((s.deque queue).filter
      fun id => (liveMember s state id).isSome)).selector = s.selector := by cases queue <;> rfl
  unfold popStateLocked at h ⊢
  dsimp only at h ⊢
  cases hnow : clock.now with
  | error exc => rw [hsel]
  | ok now =>
    rw [hnow] at h
    cases fault with
    | some exc =>
      dsimp only
      rw [hsel]
    | none =>
      dsimp only at h ⊢
      rw [hsel] at h ⊢
      have hnone : (∀ e, (s.selector.select cfg.policy (candidates queue state predicate s) now).1 ≠
            .ok (some e)) →
          (s.selector.select cfg.policy (candidates queue state predicate s)
            now).2.consecutiveEmergency = s.selector.consecutiveEmergency := select_none
      rcases hpick : s.selector.select cfg.policy (candidates queue state predicate s) now
        with ⟨result, sel⟩
      rw [hpick] at hnone
      unfold candidates at hpick
      rw [hpick] at h ⊢
      match result with
      | .error rejection => exact hnone fun _ he => absurd he (by simp)
      | .ok none => exact hnone fun _ he => absurd he (by simp)
      | .ok (some selected) => exact absurd rfl (h selected.id)

/-- A batch that does not interrupt leaves a positive count positive. -/
theorem takeStateLocked_count {queue : Queue} {state : RuntimeRequestState} {ans : Answer} :
    ∀ (limit k : ℕ) (s : SchedulerState), NoneInterrupts cfg queue state ans limit k s →
      0 < s.selector.consecutiveEmergency → s.selector.consecutiveEmergency ≤
        (takeStateLocked cfg queue state ans limit k s).2.selector.consecutiveEmergency := by
  intro limit
  induction limit with
  | zero => exact fun _ _ _ _ => le_rfl
  | succ limit ih =>
    intro k s hnone hpos
    have hidle := @popStateLocked_idle cfg s queue state (fun _ => true) (ans.clock k)
      (ans.selector k)
    rw [NoneInterrupts] at hnone
    rw [takeStateLocked]
    rcases hpop : popStateLocked cfg queue state (fun _ => true) (ans.clock k) (ans.selector k) s
      with ⟨result, t⟩
    rw [hpop] at hnone hidle
    rcases result with exc | (_ | e)
    · exact (hidle fun _ he => absurd he (by simp)).ge
    · exact (hidle fun _ he => absurd he (by simp)).ge
    · obtain ⟨hlane, hrest⟩ := hnone
      have hpick := popStateLocked_picks hpop
      by_cases hemergency : emergency cfg s e = true
      · rw [if_pos hemergency] at hpick
        have hle := ih (k + 1) t hrest (by omega)
        dsimp only
        rcases htake : takeStateLocked cfg queue state ans limit (k + 1) t with ⟨result', u⟩
        rw [htake] at hle
        have hstep : s.selector.consecutiveEmergency ≤ u.selector.consecutiveEmergency := by
          dsimp only at hle
          omega
        cases result' <;> exact hstep
      · rw [if_neg hemergency] at hpick
        exact absurd ⟨hpos, hpick.2⟩ hlane

theorem selector_setStates (state : RuntimeRequestState) (es : List ℕ) (s : SchedulerState) :
    (setStates state es s).selector = s.selector := by rw [setStates_eq]

namespace Selection

variable {sel : Selection}

theorem opened_eq_some (h : sel.opened cfg = some e) : sel.queue = .queued ∧
    (openPickBlock cfg sel.state sel.answer).1 = .ok (some e) := by
  obtain ⟨queue, s, ans⟩ := sel
  cases queue with
  | queued =>
    refine ⟨rfl, ?_⟩
    have h : (openPickBlock cfg s ans).1.toOption.join = some e := h
    show (openPickBlock cfg s ans).1 = .ok (some e)
    rcases hpick : (openPickBlock cfg s ans).1 with exc | picked
    · rw [hpick] at h
      exact nomatch h
    · rw [hpick] at h
      exact congrArg Except.ok (by simpa [Except.toOption] using h)
  | prefill => exact nomatch h
  | decode => exact nomatch h

/-- An opening counts, and past normal work only below the cap. -/
theorem count_opened (h : sel.opened cfg = some e) :
    if emergency cfg sel.state e then
      (sel.after cfg).selector.consecutiveEmergency =
          sel.state.selector.consecutiveEmergency + 1 ∧
        ((∃ c ∈ candidates .queued QUEUED
            (fun x => sel.state.admission.canActivate cfg.limits x.scheduling.requestId) sel.state,
            isEmergency cfg.policy c = false) →
          sel.state.selector.consecutiveEmergency < cfg.policy.emergencyBurstCap)
    else (sel.after cfg).selector.consecutiveEmergency = 0 := by
  obtain ⟨hqueue, hopen⟩ := opened_eq_some h
  obtain ⟨queue, s, ans⟩ := sel
  dsimp only at hqueue hopen
  subst hqueue
  show if emergency cfg s e then
    (openPickBlock cfg s ans).2.selector.consecutiveEmergency = _ ∧ _ else
    (openPickBlock cfg s ans).2.selector.consecutiveEmergency = 0
  unfold openPickBlock at hopen ⊢
  by_cases hfull : cfg.capabilities.maxConcurrentSequences ≤ activeSequences s
  · rw [if_pos hfull] at hopen
    exact absurd hopen (by simp)
  rw [if_neg hfull] at hopen ⊢
  rcases hpop : popStateLocked cfg .queued QUEUED
      (fun x => s.admission.canActivate cfg.limits x.scheduling.requestId) (ans.clock 0)
      (ans.selector 0) s with ⟨result, t⟩
  rw [hpop] at hopen
  match result with
  | .error exc => exact absurd hopen (by simp)
  | .ok none => exact absurd hopen (by simp)
  | .ok (some e') =>
    obtain rfl : e' = e := by simpa using hopen
    have hpick := popStateLocked_picks hpop
    by_cases hemergency : emergency cfg s e' = true
    · rw [if_pos hemergency] at hpick ⊢
      exact hpick
    · rw [if_neg hemergency] at hpick ⊢
      exact hpick.1

/-- Any other selection leaves a positive count positive, if it keeps the count. -/
theorem count_kept (h : sel.opened cfg = none) (hkeeps : sel.KeepsCount cfg)
    (hpos : 0 < sel.state.selector.consecutiveEmergency) :
    sel.state.selector.consecutiveEmergency ≤ (sel.after cfg).selector.consecutiveEmergency := by
  obtain ⟨queue, s, ans⟩ := sel
  cases queue with
  | queued =>
    show s.selector.consecutiveEmergency ≤ (openPickBlock cfg s ans).2.selector.consecutiveEmergency
    have h : (openPickBlock cfg s ans).1.toOption.join = none := h
    unfold openPickBlock at h ⊢
    by_cases hfull : cfg.capabilities.maxConcurrentSequences ≤ activeSequences s
    · rw [if_pos hfull]
    rw [if_neg hfull] at h ⊢
    have hidle := @popStateLocked_idle cfg s .queued QUEUED
      (fun x => s.admission.canActivate cfg.limits x.scheduling.requestId) (ans.clock 0)
      (ans.selector 0)
    rcases hpop : popStateLocked cfg .queued QUEUED
        (fun x => s.admission.canActivate cfg.limits x.scheduling.requestId) (ans.clock 0)
        (ans.selector 0) s with ⟨result, t⟩
    rw [hpop] at h hidle
    match result with
    | .error exc => exact (hidle fun _ he => absurd he (by simp)).ge
    | .ok none => exact (hidle fun _ he => absurd he (by simp)).ge
    | .ok (some e) => exact absurd h (by simp [Except.toOption])
  | prefill =>
    show s.selector.consecutiveEmergency ≤
      (prefillTakeBlock cfg s ans).2.selector.consecutiveEmergency
    have hle := takeStateLocked_count _ 0 s hkeeps hpos
    unfold prefillTakeBlock
    rcases htake : takeStateLocked cfg .prefill PREFILL ans cfg.capabilities.maxSequencesPerStep 0 s
      with ⟨result, t⟩
    rw [htake] at hle
    cases result with
    | error exc => exact hle
    | ok es =>
      dsimp only
      rw [selector_setStates]
      exact hle
  | decode =>
    show s.selector.consecutiveEmergency ≤
      (decodeTakeBlock cfg s ans).2.selector.consecutiveEmergency
    have hle := takeStateLocked_count _ 0 s hkeeps hpos
    unfold decodeTakeBlock
    dsimp only
    rcases htake : takeStateLocked cfg .decode DECODE ans
        (min cfg.capabilities.maxSequencesPerStep cfg.tickTokenBudget) 0 s with ⟨result, t⟩
    rw [htake] at hle
    cases result with
    | error exc => exact hle
    | ok es =>
      dsimp only
      rw [selector_setStates]
      exact hle

end Selection

/-! ### The queue -/

/-- What is queued stands in the admission queue. -/
def Enqueued (s : SchedulerState) : Prop :=
  ∀ e < s.heap.length, (s.entry e).state = QUEUED → s.requestId e ∈ s.queued

/-- Nothing becomes queued again. -/
structure Since (s s' : SchedulerState) : Prop where
  length_le : s.heap.length ≤ s'.heap.length
  queued : ∀ e, (s'.entry e).state = QUEUED → (s.entry e).state = QUEUED

theorem Since.refl (s : SchedulerState) : Since s s := ⟨le_rfl, fun _ h => h⟩

theorem Since.trans {s' s'' : SchedulerState} (h : Since s s') (h' : Since s' s'') : Since s s'' :=
  ⟨h.length_le.trans h'.length_le, fun e he => h.queued e (h'.queued e he)⟩

theorem since_setStates {state : RuntimeRequestState} (hstate : state ≠ QUEUED) (es : List ℕ)
    (s : SchedulerState) : Since s (setStates state es s) := by
  refine ⟨(length_setStates state es s).ge, fun e he => ?_⟩
  rw [entry_setStates] at he
  split_ifs at he with hc
  · exact absurd he hstate
  · exact he

theorem since_pruned {t : SchedulerState} (h : Pruned s t) : Since s t :=
  ⟨(congrArg List.length h.heap).ge, fun e he => by rwa [entry_congr h.heap] at he⟩

theorem Enqueued.of_since {t : SchedulerState} (h : Enqueued s) (hsince : Since s t)
    (hlength : t.heap.length = s.heap.length) (hid : ∀ e, t.requestId e = s.requestId e)
    (hqueued : t.queued = s.queued) : Enqueued t := by
  intro e he hstate
  rw [hid, hqueued]
  exact h e (hlength ▸ he) (hsince.queued e hstate)

namespace Selection

variable {sel : Selection}

theorem since (h : Coherent sel.state) : Since sel.state (sel.after cfg) := by
  obtain ⟨queue, s, ans⟩ := sel
  cases queue with
  | queued =>
    show Since s (openPickBlock cfg s ans).2
    rcases @openPickBlock_spec cfg s h ans with ⟨hprune, _⟩ | ⟨e, t, heq, hprune, _, _⟩
    · exact since_pruned hprune
    · rw [heq]
      refine (since_pruned hprune).trans ⟨(List.length_modify ..).ge, fun e' he' => ?_⟩
      rw [entry_modifyEntry] at he'
      split_ifs at he' with hc
      exact he'
  | prefill =>
    show Since s (prefillTakeBlock cfg s ans).2
    rcases @prefillTakeBlock_spec cfg s h ans with ⟨exc, t, heq, hprune⟩ | ⟨_, t, heq, hpicked⟩
    · rw [heq]
      exact since_pruned hprune
    · rw [heq]
      exact (since_pruned hpicked.pruned).trans (since_setStates (by simp) _ _)
  | decode =>
    show Since s (decodeTakeBlock cfg s ans).2
    rcases @decodeTakeBlock_spec cfg s h ans with
      ⟨exc, t, heq, hprune⟩ | ⟨_, _, t, heq, hpicked⟩
    · rw [heq]
      exact since_pruned hprune
    · rw [heq]
      exact (since_pruned hpicked.pruned).trans (since_setStates (by simp) _ _)

/-- What stays queued stays in the admission queue. -/
theorem enqueued (hcoherent : Coherent sel.state) (h : Enqueued sel.state) :
    Enqueued (sel.after cfg) := by
  have hsince : Since sel.state (sel.after cfg) := since hcoherent
  obtain ⟨queue, s, ans⟩ := sel
  -- a batch leaves the admission queue alone
  have hbatch : ∀ {t : SchedulerState} {state : RuntimeRequestState} {es : List ℕ},
      t.heap = s.heap → t.queued = s.queued → Since s (setStates state es t) →
        Enqueued (setStates state es t) := by
    intro t state es hheap hqueued hsince
    refine h.of_since hsince (by rw [length_setStates, hheap]) (fun e => ?_) ?_
    · rw [requestId, entry_setStates, entry_congr hheap]
      split_ifs <;> rfl
    · rw [setStates_eq]
      exact hqueued
  have hpruned : ∀ {t : SchedulerState}, Pruned s t → t.queued = s.queued → Enqueued t :=
    fun hprune hqueued => h.of_since (since_pruned hprune) (congrArg List.length hprune.heap)
      (fun e => by rw [requestId, entry_congr hprune.heap]; rfl) hqueued
  cases queue with
  | queued =>
    show Enqueued (openPickBlock cfg s ans).2
    have hsince : Since s (openPickBlock cfg s ans).2 := hsince
    unfold openPickBlock at hsince ⊢
    by_cases hfull : cfg.capabilities.maxConcurrentSequences ≤ activeSequences s
    · rw [if_pos hfull]
      exact h
    rw [if_neg hfull] at hsince ⊢
    obtain ⟨hprune, hsel⟩ := @popStateLocked_spec cfg .queued QUEUED
      (fun x => s.admission.canActivate cfg.limits x.scheduling.requestId) (ans.clock 0)
      (ans.selector 0) s
    have hstays := fun id => @popStateLocked_keeps cfg s .queued QUEUED
      (fun x => s.admission.canActivate cfg.limits x.scheduling.requestId) (ans.clock 0)
      (ans.selector 0) id
    rcases hpop : popStateLocked cfg .queued QUEUED
        (fun x => s.admission.canActivate cfg.limits x.scheduling.requestId) (ans.clock 0)
        (ans.selector 0) s with ⟨result, t⟩
    rw [hpop] at hprune hsel hstays hsince
    have hkept : ∀ e < s.heap.length, (s.entry e).state = QUEUED →
        (∀ e', result = .ok (some e') → e' ≠ e) → s.requestId e ∈ t.queued := by
      intro e he hstate hne
      have hget := hcoherent.get?_of_live he (by rw [hstate]; simp)
      have hlive : liveMember s QUEUED (s.requestId e) = some e :=
        liveMember_eq_some.mpr ⟨hget, hstate⟩
      refine hstays _ (h e he hstate) (by rw [hlive]; rfl) fun e' he' hid => ?_
      obtain ⟨⟨id, _, hget', hstate'⟩, _⟩ := hsel e' he'
      have hlt' := (hcoherent.registered id e' hget').1
      exact hne e' he' (hcoherent.requestId_inj hlt' he (by rw [hstate']; simp)
        (by rw [hstate]; simp) hid.symm)
    have hid : ∀ e, t.requestId e = s.requestId e :=
      fun e => by rw [requestId, entry_congr hprune.heap]; rfl
    rcases result with exc | (_ | picked)
    · intro e he hstate
      rw [hid]
      exact hkept e (by rwa [hprune.heap] at he) (hsince.queued e hstate)
        fun _ he' => absurd he' (by simp)
    · intro e he hstate
      rw [hid]
      exact hkept e (by rwa [hprune.heap] at he) (hsince.queued e hstate)
        fun _ he' => absurd he' (by simp)
    · intro e he hstate
      dsimp only at he hstate hsince ⊢
      have hlt : e < s.heap.length := by
        have hlength : e < (t.heap.modify picked _).length := he
        rwa [List.length_modify, hprune.heap] at hlength
      -- the entry is another one, since the picked one is not queued any more
      have hne : picked ≠ e := by
        rintro rfl
        rw [entry_modifyEntry, if_pos ⟨rfl, by rwa [hprune.heap]⟩] at hstate
        exact absurd hstate (by simp)
      have hother : (t.modifyEntry picked fun x => { x with state := OPENING }).requestId e =
          s.requestId e := by rw [requestId, entry_modify_ne rfl hne, ← hid e]; rfl
      rw [hother]
      refine hkept e hlt (hsince.queued e hstate) fun e' he' => ?_
      obtain rfl : picked = e' := by simpa using he'
      exact hne
  | prefill =>
    show Enqueued (prefillTakeBlock cfg s ans).2
    have hsince : Since s (prefillTakeBlock cfg s ans).2 := hsince
    unfold prefillTakeBlock at hsince ⊢
    have hqueued := congrArg SchedulerState.queued (@takeStateLocked_frame cfg .prefill PREFILL ans
      cfg.capabilities.maxSequencesPerStep 0 s)
    have hprune := (@takeStateLocked_spec cfg .prefill PREFILL ans
      cfg.capabilities.maxSequencesPerStep 0 s).1
    rcases htake : takeStateLocked cfg .prefill PREFILL ans cfg.capabilities.maxSequencesPerStep 0 s
      with ⟨result, t⟩
    rw [htake] at hqueued hprune hsince
    cases result with
    | error exc => exact hpruned hprune hqueued
    | ok es => exact hbatch hprune.heap hqueued hsince
  | decode =>
    show Enqueued (decodeTakeBlock cfg s ans).2
    have hsince : Since s (decodeTakeBlock cfg s ans).2 := hsince
    unfold decodeTakeBlock at hsince ⊢
    dsimp only at hsince ⊢
    have hqueued := congrArg SchedulerState.queued (@takeStateLocked_frame cfg .decode DECODE ans
      (min cfg.capabilities.maxSequencesPerStep cfg.tickTokenBudget) 0 s)
    have hprune := (@takeStateLocked_spec cfg .decode DECODE ans
      (min cfg.capabilities.maxSequencesPerStep cfg.tickTokenBudget) 0 s).1
    rcases htake : takeStateLocked cfg .decode DECODE ans
        (min cfg.capabilities.maxSequencesPerStep cfg.tickTokenBudget) 0 s with ⟨result, t⟩
    rw [htake] at hqueued hprune hsince
    cases result with
    | error exc => exact hpruned hprune hqueued
    | ok es => exact hbatch hprune.heap hqueued hsince

end Selection

/-! ### The log of a run -/

/-- The state the last selection has left. -/
def lastState (cfg : SchedulerConfig) (log : List Selection) : SchedulerState :=
  match log.getLast? with
  | none => {}
  | some sel => sel.after cfg

theorem lastState_concat (log : List Selection) (sel : Selection) :
    lastState cfg (log ++ [sel]) = sel.after cfg := by simp [lastState]

/-- From one selection to the next the count stays, and nothing becomes queued again. -/
inductive Linked (cfg : SchedulerConfig) : List Selection → Prop where
  | nil : Linked cfg []
  | concat {log : List Selection} {sel : Selection} (before : Linked cfg log)
      (coherent : Coherent sel.state) (enqueued : Enqueued sel.state)
      (since : Since (lastState cfg log) sel.state)
      (count : sel.state.selector.consecutiveEmergency =
        (lastState cfg log).selector.consecutiveEmergency) : Linked cfg (log ++ [sel])

/-- What holds of the state and the log. -/
structure Logged (cfg : SchedulerConfig) (p : SelectingState) : Prop where
  sound : Sound anyRun p.1
  enqueued : Enqueued p.1
  linked : Linked cfg p.2
  since : Since (lastState cfg p.2) p.1
  count : p.1.selector.consecutiveEmergency =
    (lastState cfg p.2).selector.consecutiveEmergency

/-- A selection joins the log. -/
theorem Logged.select {p : SelectingState} (h : Logged cfg p) (queue : Queue) (ans : Answer)
    (hsound : Sound anyRun (Selection.after cfg ⟨queue, p.1, ans⟩)) :
    Logged cfg (Selection.after cfg ⟨queue, p.1, ans⟩, p.2 ++ [⟨queue, p.1, ans⟩]) where
  sound := hsound
  enqueued := @Selection.enqueued cfg ⟨queue, p.1, ans⟩ h.sound.coherent h.enqueued
  linked := .concat h.linked h.sound.coherent h.enqueued h.since h.count
  since := by rw [lastState_concat]; exact .refl _
  count := by rw [lastState_concat]

/-- An entry keeps its scheduling data, and is not queued again. -/
def KeepsPlace (x y : RequestEntry) : Prop :=
  y.scheduling = x.scheduling ∧ (y.state = QUEUED → x.state = QUEUED)

theorem tolerant_keepsPlace : Tolerant KeepsPlace where
  trans := fun h h' => ⟨h'.1.trans h.1, fun hq => h.2 (h'.2 hq)⟩
  marks := by
    intro x y h
    have hscheduling := congrArg RequestEntry.scheduling h
    have hstate := congrArg RequestEntry.state h
    exact ⟨hscheduling, fun hq => hstate.symm.trans hq⟩
  moves := fun _ _ _ hne _ => ⟨rfl, fun hq => absurd hq hne⟩
  fails := fun _ _ => ⟨rfl, fun hq => absurd hq (by simp [terminated])⟩

/-- Any other action leaves the log as true as it was. -/
theorem Logged.framed {p : SelectingState} (h : Logged cfg p) {s' : SchedulerState}
    (hframed : Framed KeepsPlace p.1 s') (hsound : Sound anyRun s') : Logged cfg (s', p.2) := by
  have hsince : Since p.1 s' := ⟨hframed.length.ge, fun e => (hframed.entry e).2⟩
  refine ⟨hsound, ?_, h.linked, h.since.trans hsince, hframed.emergency.trans h.count⟩
  refine h.enqueued.of_since hsince hframed.length (fun e => ?_) hframed.queued
  exact congrArg SchedulingMetadata.requestId (hframed.entry e).1

theorem enqueued_register {x : RequestEntry} {admission : ResourceAdmissionController}
    (h : Enqueued s) : Enqueued (register x { s with admission := admission }) := by
  intro e he hstate
  have hqueued : (register x { s with admission := admission }).queued =
      s.queued ++ [x.scheduling.requestId] := rfl
  have hentry : (register x { s with admission := admission }).entry e =
      if e = s.heap.length then x else s.entry e := entry_register e
  rw [hqueued, requestId, hentry]
  rw [hentry] at hstate
  by_cases hnew : e = s.heap.length
  · rw [if_pos hnew]
    exact List.mem_append_right _ List.mem_cons_self
  · rw [if_neg hnew] at hstate ⊢
    have hlt : e < s.heap.length := by
      have hlength : e < (s.heap ++ [x]).length := he
      rw [List.length_append, List.length_singleton] at hlength
      omega
    exact List.mem_append_left _ (h e hlt hstate)

theorem foldl_cancel : ∀ (es : List ℕ) (s : SchedulerState),
    (es.foldl (fun t e => t.modifyEntry e fun x => { x with cancelRequested := true }) s).queued =
        s.queued ∧
      (es.foldl (fun t e => t.modifyEntry e fun x => { x with cancelRequested := true })
        s).selector = s.selector
  | [], _ => ⟨rfl, rfl⟩
  | e :: es, s => foldl_cancel es (s.modifyEntry e fun x => { x with cancelRequested := true })

/-- No client picks, and a new request joins the admission queue. -/
theorem client_queued (k : ClientOp) (hcoherent : Coherent s) :
    (Enqueued s → Enqueued (clientStep cfg k s)) ∧
      (clientStep cfg k s).selector = s.selector := by
  have hmarks : ∀ {s' : SchedulerState}, Marks s s' → s'.queued = s.queued → Enqueued s →
      Enqueued s' := by
    intro s' hm hqueued h
    refine h.of_since ⟨hm.length.ge, fun e he => ?_⟩ hm.length (fun e => ?_) hqueued
    · exact (congrArg RequestEntry.state (hm.owned e)).symm.trans he
    · exact congrArg (fun x => x.scheduling.requestId) (hm.owned e)
  cases k with
  | infer request metadata attemptId clock =>
    show (_ → Enqueued (infer cfg request metadata attemptId clock s).2) ∧
      (infer cfg request metadata attemptId clock s).2.selector = _
    rcases @infer_cases cfg request metadata attemptId clock s with ⟨_, heq⟩ | ⟨x, _, heq, _⟩
    · rw [heq]
      exact ⟨id, rfl⟩
    · rw [heq]
      exact ⟨enqueued_register, rfl⟩
  | wake e =>
    show (_ → Enqueued (wake e s)) ∧ (wake e s).selector = _
    rcases wake_cases e s hcoherent with heq | ⟨_, _, heq⟩ | ⟨_, _, _, _, _, heq⟩
    · rw [heq]
      exact ⟨id, rfl⟩
    · rw [heq]
      exact ⟨id, rfl⟩
    · rw [heq]
      exact ⟨id, rfl⟩
  | cancel requestId =>
    show (_ → Enqueued (cancel requestId s).2) ∧ (cancel requestId s).2.selector = _
    have hframe : (cancel requestId s).2.queued = s.queued ∧
        (cancel requestId s).2.selector = s.selector := by
      unfold cancel
      cases s.entries.get? requestId with
      | none => exact ⟨rfl, rfl⟩
      | some e =>
        dsimp only
        split_ifs <;> exact ⟨rfl, rfl⟩
    rcases cancel_spec requestId s with heq | hm
    · exact ⟨fun h => by rw [heq]; exact h, hframe.2⟩
    · exact ⟨hmarks hm hframe.1, hframe.2⟩
  | shutdown =>
    obtain ⟨hqueued, hselector⟩ := foldl_cancel s.liveEntries { s with stopping := true }
    exact ⟨hmarks (shutdown_spec s) hqueued, hselector⟩

/-! ### The runs -/

section threads

open Thread hiding pure bind tryCatch

/-- The log is the worker's; clients neither pick nor log. -/
def selectingProtocol (cfg : SchedulerConfig) : Protocol SelectingState Answer where
  inv := Logged cfg
  rely p p' := ClientChange p.1 p'.1
  allow _ _ _ := True
  rely_refl p := .refl p.1
  rely_trans := .trans

theorem selectingProtocol_extends :
    Extends (selectingProtocol cfg) (protocol anyRun) (fun _ => True) (Framed KeepsPlace) where
  inv := fun _ h => h.sound
  rely := fun _ _ h => h
  allow := fun p ans p' _ => anyRun_allows p.1 ans p'.1
  keep := fun _ _ _ h _ hframed hsound => h.framed hframed hsound
  stable := fun _ _ _ _ => trivial

/-- What the threads of the loop are shown to keep. -/
abbrev KeepsLog (cfg : SchedulerConfig) {α : Type}
    (t : Thread SelectingState Answer PyException α) : Prop :=
  Triple (selectingProtocol cfg) (fun _ => True) t (fun _ _ => True) fun _ _ => True

theorem keepsLog_pure {α : Type} (a : α) :
    KeepsLog cfg (pure a : Thread SelectingState Answer PyException α) :=
  Triple.pure (fun _ _ _ _ _ _ => trivial) fun _ _ _ => trivial

theorem keepsLog_within {α : Type} {t : Worker α} (h : Keeps anyRun (fun _ => True) t)
    (hframes : Frames KeepsPlace t) : KeepsLog cfg (t.within _) :=
  Triple.conseq (Triple.within selectingProtocol_extends h hframes)
    (fun _ _ _ => ⟨trivial, trivial⟩) (fun _ _ _ _ => trivial) fun _ _ _ _ => trivial

/-- A thread that begins with a selection. -/
theorem keepsLog_logged {α : Type} {queue : Queue} {upd : SchedulerState → Answer → SchedulerState}
    {next : SchedulerState → Answer → Worker α}
    (hupd : ∀ s ans, upd s ans = Selection.after cfg ⟨queue, s, ans⟩)
    (h : Keeps anyRun (fun _ => True) (.act upd next : Worker α))
    (hframes : FramesAfter KeepsPlace (.act upd next : Worker α)) :
    KeepsLog cfg (logged queue (.act upd next)) := by
  refine Triple.conseq (Triple.noteFirst selectingProtocol_extends (fun p ans hp hsound => ?_) h
    hframes) (fun _ _ _ => trivial) (fun _ _ _ _ => trivial) fun _ _ _ _ => trivial
  rw [hupd] at hsound ⊢
  exact ⟨hp.select queue ans hsound, trivial⟩

theorem keepsLog_iteration : KeepsLog cfg (selectingIteration cfg) := by
  have hE := tolerant_keepsPlace
  have hopen : KeepsLog cfg (logged .queued (openOne cfg)) :=
    keepsLog_logged (fun _ _ => rfl) keeps_openOne (framesAfter_openOne hE (fun _ _ => ⟨rfl, id⟩)
      fun _ _ _ _ _ hne => ⟨rfl, fun hq => absurd hq hne⟩)
  have hprefill : KeepsLog cfg (logged .prefill (runPrefillBatch cfg)) :=
    keepsLog_logged (fun _ _ => rfl) keeps_runPrefillBatch (framesAfter_runPrefillBatch hE fun x =>
      ⟨rfl, fun hq => absurd hq (by simp)⟩)
  have hdecode : KeepsLog cfg (logged .decode (runDecodeBatch cfg)) := by
    refine keepsLog_logged (fun _ _ => rfl) keeps_runDecodeBatch
      (framesAfter_runDecodeBatch hE (fun x outcome => ?_) fun x result => ?_)
    · exact ⟨rfl, fun hq => absurd hq (by cases h : outcome.status <;> simp [afterDecode, h])⟩
    · exact ⟨rfl, fun hq => absurd hq (by simp [terminated])⟩
  refine Triple.bind (keepsLog_within keeps_processTerminalBoundaries
    (aside_processTerminalBoundaries hE).frames) fun ended => Triple.ite (fun _ => keepsLog_pure _)
      fun _ => ?_
  refine Triple.bind hopen fun opened => Triple.ite (fun _ => keepsLog_pure _) fun _ => ?_
  have hchoose : Keeps anyRun (fun _ => True) (.atomic (chooseBatchBlock cfg)) :=
    keeps_plain stable_true fun s ans _ _ => ⟨(chooseBatchBlock_spec s ans).plain, trivial⟩
  refine Triple.bind (keepsLog_within hchoose (changes_atomic (framed_chooseBatch hE)))
    fun action => ?_
  cases action with
  | none => exact keepsLog_within keeps_idleBlock (changes_atomic (framed_idleBlock hE))
  | some action =>
    cases action with
    | decode => exact Triple.bind hdecode fun _ => keepsLog_pure _
    | prefill => exact Triple.bind hprefill fun _ => keepsLog_pure _

theorem logged_run (cfg : SchedulerConfig) (moves : List (Move Answer ClientOp)) :
    Logged cfg ((selecting cfg).run ((selecting cfg).start ({}, [])) moves).shared := by
  have hempty : Logged cfg ({}, []) :=
    ⟨sound_empty, fun _ he => absurd he (by simp), .nil, .refl _, rfl⟩
  refine System.run_kept (U := selecting cfg) (C := selectingProtocol cfg) (fun _ _ _ => trivial)
    keepsLog_iteration (fun exc => keepsLog_within (keeps_crashHandler exc)
      (aside_crashHandler tolerant_keepsPlace exc).frames) (fun p k hp => ?_) hempty moves
  have hallowed : anyRun.AllowsClient p.1 k := by
    cases k with
    | infer request metadata attemptId clock => exact False.elim
    | _ => trivial
  obtain ⟨hqueued, hselector⟩ := @client_queued cfg p.1 k hp.sound.coherent
  have hchange := (@client_spec cfg p.1 k hp.sound.coherent).2
  have hsince : Since p.1 (clientStep cfg k p.1) :=
    ⟨hchange.length_le, fun e he => (hchange.state e).symm.trans he⟩
  refine ⟨⟨hp.sound.client hallowed, hqueued hp.enqueued, hp.linked, hp.since.trans hsince, ?_⟩,
    hchange⟩
  exact (congrArg HierarchicalFairSelector.consecutiveEmergency hselector).trans hp.count

end threads

/-! ### The bound -/

/-- The request is queued. -/
structure Queued (w : ℕ) (s : SchedulerState) : Prop where
  inHeap : w < s.heap.length
  state : (s.entry w).state = QUEUED

/-- The request is normal work that could be opened. -/
structure Waits (cfg : SchedulerConfig) (w : ℕ) (s : SchedulerState) : Prop extends Queued w s where
  normal : emergency cfg s w = false
  activatable : s.admission.canActivate cfg.limits (s.requestId w) = true

/-- An emergency request is opened while the other one waits. -/
structure OpenPick.Passes (cfg : SchedulerConfig) (w : ℕ) (o : OpenPick) : Prop where
  waits : Waits cfg w o.state
  emergency : emergency cfg o.state o.entry = true

instance (cfg : SchedulerConfig) (w : ℕ) (o : OpenPick) : Decidable (o.Passes cfg w) :=
  decidable_of_iff
    (((w < o.state.heap.length ∧ (o.state.entry w).state = QUEUED) ∧
      emergency cfg o.state w = false ∧
        o.state.admission.canActivate cfg.limits (o.state.requestId w) = true) ∧
      emergency cfg o.state o.entry = true)
    ⟨fun h => ⟨⟨⟨h.1.1.1, h.1.1.2⟩, h.1.2.1, h.1.2.2⟩, h.2⟩,
      fun h => ⟨⟨⟨h.waits.inHeap, h.waits.state⟩, h.waits.normal, h.waits.activatable⟩,
        h.emergency⟩⟩

/-- What waits is among the candidates. -/
theorem Waits.candidate (h : Waits cfg w s) (hcoherent : Coherent s) (henqueued : Enqueued s) :
    ∃ c ∈ candidates .queued QUEUED
      (fun x => s.admission.canActivate cfg.limits x.scheduling.requestId) s,
      isEmergency cfg.policy c = false := by
  have hget := hcoherent.get?_of_live h.inHeap (by rw [h.state]; simp)
  have hlive : liveMember s QUEUED (s.requestId w) = some w :=
    liveMember_eq_some.mpr ⟨hget, h.state⟩
  refine ⟨⟨w, s.entry w⟩, List.mem_map_of_mem (List.mem_filter.mpr ⟨?_, h.activatable⟩), h.normal⟩
  exact List.mem_filterMap.mpr ⟨s.requestId w, henqueued w h.inHeap h.state, hlive⟩

theorem openings_concat (log : List Selection) (sel : Selection) :
    openings cfg (log ++ [sel]) =
      openings cfg log ++ ((sel.opened cfg).map fun e => ⟨sel.state, e⟩).toList := by
  rw [openings, openings, List.filterMap_append]
  congr 1

/-- The batches selected while the request is queued keep the count. -/
def Undisturbed (cfg : SchedulerConfig) (w : ℕ) (log : List Selection) : Prop :=
  ∀ sel ∈ log, Queued w sel.state → sel.KeepsCount cfg

/-- The emergency openings past a waiting request are counted as long as it is queued,
and the count they meet is below the cap. -/
theorem Linked.counted {log : List Selection} (h : Linked cfg log) (hkeeps : Undisturbed cfg w log) :
    ∀ passed, passed <:+ openings cfg log → (∀ o ∈ passed, o.Passes cfg w) →
      passed.length ≤ cfg.policy.emergencyBurstCap ∧ (passed ≠ [] →
        w < (lastState cfg log).heap.length ∧ (((lastState cfg log).entry w).state = QUEUED →
          passed.length ≤ (lastState cfg log).selector.consecutiveEmergency)) := by
  induction h with
  | nil =>
    intro passed hsuffix _
    obtain rfl : passed = [] := List.suffix_nil.mp hsuffix
    exact ⟨Nat.zero_le _, fun hne => absurd rfl hne⟩
  | concat before hcoherent henqueued hsince hcount ih =>
    rename_i log sel
    have hbefore := ih fun sel' hsel' => hkeeps sel' (List.mem_append_left _ hsel')
    have hafter : Since sel.state (sel.after cfg) := Selection.since hcoherent
    intro passed hsuffix hpassed
    rw [lastState_concat]
    rw [openings_concat] at hsuffix
    cases hopened : sel.opened cfg with
    | none =>
      -- nothing is opened, and the count is kept
      rw [hopened] at hsuffix
      obtain ⟨hcap, hrest⟩ := hbefore passed (by simpa using hsuffix) hpassed
      refine ⟨hcap, fun hne => ?_⟩
      obtain ⟨hlt, hle⟩ := hrest hne
      have hlt' : w < sel.state.heap.length := hlt.trans_le hsince.length_le
      refine ⟨hlt'.trans_le hafter.length_le, fun hqueued => ?_⟩
      have hqueued' := hafter.queued w hqueued
      have hle' := hle (hsince.queued w hqueued')
      have hpos : 0 < passed.length := List.length_pos_iff.mpr hne
      have hkept := Selection.count_kept hopened
        (hkeeps sel (List.mem_append_right _ List.mem_cons_self) ⟨hlt', hqueued'⟩) (by omega)
      omega
    | some e =>
      rw [hopened] at hsuffix
      rcases List.eq_nil_or_concat passed with rfl | ⟨earlier, o, rfl⟩
      · exact ⟨Nat.zero_le _, fun hne => absurd rfl hne⟩
      rw [List.concat_eq_append] at hsuffix hpassed ⊢
      have hlast : earlier <:+ openings cfg log ∧ o = ⟨sel.state, e⟩ := by
        obtain ⟨others, heq⟩ := hsuffix
        rw [← List.append_assoc] at heq
        obtain ⟨hinit, hlast⟩ := List.append_inj' heq rfl
        exact ⟨⟨others, hinit⟩, by simpa using hlast⟩
      obtain ⟨hearlier, rfl⟩ := hlast
      obtain ⟨hwaits, hemergency⟩ := hpassed _ (List.mem_append_right _ List.mem_cons_self)
      have hcounted := Selection.count_opened hopened
      rw [if_pos hemergency] at hcounted
      obtain ⟨hnext, hlane⟩ := hcounted
      have hbelow := hlane (hwaits.candidate hcoherent henqueued)
      obtain ⟨_, hrest⟩ := hbefore earlier hearlier
        fun o' ho' => hpassed o' (List.mem_append_left _ ho')
      have hle : earlier.length ≤ sel.state.selector.consecutiveEmergency := by
        by_cases hne : earlier = []
        · rw [hne]
          exact Nat.zero_le _
        · have hle := (hrest hne).2 (hsince.queued w hwaits.state)
          omega
      rw [List.length_append, List.length_singleton]
      refine ⟨by omega, fun _ => ⟨hwaits.inHeap.trans_le hafter.length_le, fun _ => by omega⟩⟩

theorem Linked.of_prefix {log : List Selection} (h : Linked cfg log) :
    ∀ {earlier : List Selection}, earlier <+: log → Linked cfg earlier := by
  induction h with
  | nil =>
    intro earlier hprefix
    obtain rfl : earlier = [] := List.prefix_nil.mp hprefix
    exact .nil
  | concat before hcoherent henqueued hsince hcount ih =>
    intro earlier hprefix
    rcases List.prefix_concat_iff.mp hprefix with rfl | hprefix
    · exact .concat before hcoherent henqueued hsince hcount
    · exact ih hprefix

/-- **Emergency service is bounded**: in every interleaving of the loop with its
clients, if the batches selected while a request is queued keep the count of emergency
picks, then of the openings at most `emergency_burst_cap` in a row pass it over. -/
theorem emergency_bounded (cfg : SchedulerConfig) (moves : List (Move Answer ClientOp)) (w : ℕ)
    (hkeeps : Undisturbed cfg w (selections cfg moves)) (passed : List OpenPick)
    (hsegment : passed <:+: openings cfg (selections cfg moves))
    (hpassed : ∀ o ∈ passed, o.Passes cfg w) :
    passed.length ≤ cfg.policy.emergencyBurstCap := by
  have hlinked := (logged_run cfg moves).linked
  -- the log up to the last of the openings
  obtain ⟨before, later, heq⟩ := hsegment
  obtain ⟨early, rest, hlog, hearly, _⟩ := List.filterMap_eq_append_iff.mp heq.symm
  have hearlier : early <+: selections cfg moves := ⟨rest, hlog.symm⟩
  refine (Linked.counted (hlinked.of_prefix hearlier) (fun sel hsel => ?_) passed ?_ hpassed).1
  · exact hkeeps sel (hearlier.subset hsel)
  · exact ⟨before, hearly.symm⟩

/-- Two sequences at a time, and one emergency pick in a row. -/
def burstConfig : SchedulerConfig where
  capabilities :=
    { sampleConfig.capabilities with
      maxConcurrentSequences := 2
      maxSequencesPerStep := 2
      batches := Nat.le_refl 2
      sequences_le := Nat.le_refl 2 }
  tickTokenBudget := 64
  maxPendingRequests := 8
  maxDecodeBurst := 2
  policy :=
    { interactiveOnly with
      serviceClasses := [⟨py "interactive", 0, false⟩, ⟨py "emergency", 9, true⟩]
      names_nodup := by decide
      one_emergency := by decide }
  limits := ⟨8, 4, 4096, 8, 8, 4, 4, 4096, 4096, 8, 0⟩
  tick_covers := by decide
  burst_pos := Nat.two_pos

def burstInfer (id serviceClass : String) (hne : id.toList ≠ []) (hlen : id.toList.length ≤ 256)
    (hall : id.toList.all IsPrintable = true) : Move Answer ClientOp :=
  .client (.infer sampleRequest
    ⟨py id, py "workflow", py "agent", py serviceClass, 1, none, isBoundedText_py hne hlen hall,
      Nat.one_pos, one_le_maxSchedulingWeight⟩ [] (.finite 0))

/-- The worker acts `k` times; the first sequence gets on, and a sequence opened
meanwhile gets this generation. -/
def burstWork (k generation : ℕ) : List (Move Answer ClientOp) :=
  List.replicate k (.worker
    { openSequence := .ok (sampleHandle generation)
      prefillBatch := .ok [⟨sampleHandle 1, .READY, 4, 0⟩]
      decodeBatch := .ok
        [⟨sampleHandle 1, .PROGRESSED, [7], py "a", none, none, none, by decide⟩] })

/-- An emergency request is opened before a normal one. -/
def calmRun : List (Move Answer ClientOp) :=
  [burstInfer "waiting" "interactive" (by decide) (by decide) (by decide),
    burstInfer "urgent" "emergency" (by decide) (by decide) (by decide)] ++ burstWork 8 1

theorem emergency_bounded_calm :
    (openings burstConfig (selections burstConfig calmRun)).length = 1 ∧
      (openings burstConfig (selections burstConfig calmRun)).length ≤ 1 := by
  refine ⟨by decide +kernel, emergency_bounded burstConfig calmRun 0 (fun sel hsel _ => ?_) _
    List.infix_rfl (by decide +kernel)⟩
  have hall : (selections burstConfig calmRun).all fun sel => sel.queue = .queued := by
    decide +kernel
  have hqueue : sel.queue = .queued := of_decide_eq_true (List.all_eq_true.mp hall sel hsel)
  obtain ⟨queue, s, ans⟩ := sel
  subst hqueue
  trivial

/-- An emergency request is opened past a normal one; a decode batch picks the only
sequence there is to decode, which is normal; the emergency request is cancelled, and the
next one is opened past the normal one, too. -/
def interruptedRun : List (Move Answer ClientOp) :=
  [burstInfer "served" "interactive" (by decide) (by decide) (by decide)] ++ burstWork 23 1 ++
  [burstInfer "waiting" "interactive" (by decide) (by decide) (by decide),
    burstInfer "urgent" "emergency" (by decide) (by decide) (by decide)] ++ burstWork 20 2 ++
  [.client (.cancel (py "urgent")),
    burstInfer "pressing" "emergency" (by decide) (by decide) (by decide)] ++ burstWork 40 3

theorem emergency_not_bounded :
    ∃ passed, passed <:+: openings burstConfig (selections burstConfig interruptedRun) ∧
      (∀ o ∈ passed, o.Passes burstConfig 1) ∧
      burstConfig.policy.emergencyBurstCap < passed.length :=
  ⟨(openings burstConfig (selections burstConfig interruptedRun)).drop 1,
    (List.drop_suffix _ _).isInfix, by decide +kernel, by decide +kernel⟩

end ContinuousBatchScheduler

end Inference
