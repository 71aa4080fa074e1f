/-
The scheduler's idle wait.

The loop waits on the condition when a last look, under the condition, finds
nothing to do.  The state is extended by what the worker waits with, from the
block that enters the wait to the worker's next action; `notify_all` marks it.

* `parkBlock` — the block at the end of the loop, with the timeout of its wait;
* `Dormant` — none of the three steps of the loop would find anything to do;
* `parking_erases` — without the mark this is the scheduler;
* `never_sleeps_on_work` — in every run, a worker that waits and has not been
  notified has nothing to do.
-/
import LlamaRuntime.Concurrency.Extension
import LlamaRuntime.Inference.LoopInvariant

namespace Inference

open RuntimeRequestState SchedulerState

namespace ContinuousBatchScheduler

variable (cfg : SchedulerConfig)

/-- What the worker waits with. -/
structure Parked where
  /-- the clock value of the last look -/
  checkedAt : ℚ
  /-- the clock value the timeout starts from -/
  timedAt : ℚ
  timeout : Option ℚ
  /-- `notify_all` has been called since -/
  notified : Bool := false
  deriving DecidableEq

/-- `_next_deadline_wait_locked` -/
def nextDeadlineWaitLocked (now : ℚ) (s : SchedulerState) : Option ℚ :=
  ((s.liveEntries.filterMap fun e => deadlineOf (s.entry e)).min?).map fun deadline =>
    max 0 (deadline - now)

abbrev ParkingState := SchedulerState × Option Parked

/-- The block at the end of the loop, with what it waits with. -/
def parkBlock (p : ParkingState) (ans : Answer) : Except PyException Bool × ParkingState :=
  let s := p.1
  if s.stopping ∧ s.liveEntries = [] then
    (.ok false, { s with stopped := true }.notifyAll, none)
  else
    match (ans.clock 0).now with
    | .error exc => (.error exc, s, none)
    | .ok now =>
      match hasImmediateWorkLocked cfg now s with
      | (true, s) => (.ok true, s, none)
      | (false, s) =>
        match (ans.clock 1).now with
        | .error exc => (.error exc, s, none)
        | .ok now' =>
          (.ok true, s, some
            { checkedAt := now, timedAt := now', timeout := nextDeadlineWaitLocked now' s })

/-- The loop; with its first action the worker has left the wait. -/
def parkingIteration : Thread ParkingState Answer PyException Bool := do
  if ← (processTerminalBoundaries.noteFirst fun _ _ _ => none) then pure true
  else if ← (openOne cfg).within _ then pure true
  else
    match ← Thread.within _ (.atomic (chooseBatchBlock cfg)) with
    | some .decode => do
      (runDecodeBatch cfg).within _
      pure true
    | some .prefill => do
      (runPrefillBatch cfg).within _
      pure true
    | none => .atomic (parkBlock cfg)

/-- Whether the operation calls `notify_all`. -/
def notifies (s : SchedulerState) : ClientOp → Bool
  | .infer request metadata attemptId clock =>
    match (infer cfg request metadata attemptId clock s).1 with
    | .ok _ => true
    | .error _ => false
  | .wake _ => false
  | .cancel requestId => (cancel requestId s).1
  | .shutdown => true

def parkingClient (k : ClientOp) (p : ParkingState) : ParkingState :=
  (clientStep cfg k p.1, p.2.map fun parked =>
    { parked with notified := parked.notified || notifies cfg p.1 k })

/-- The scheduler with its clients, and with the mark of the wait. -/
def parking : System ParkingState Answer PyException ClientOp where
  body := parkingIteration cfg
  handler exc := (crashHandler exc).within _
  client := parkingClient cfg

variable {cfg}

theorem parkBlock_idleBlock (p : ParkingState) (ans : Answer) :
    (parkBlock cfg p ans).1 = (idleBlock cfg p.1 ans).1 ∧
      (parkBlock cfg p ans).2.1 = (idleBlock cfg p.1 ans).2 := by
  unfold parkBlock idleBlock
  dsimp only
  split
  · exact ⟨rfl, rfl⟩
  cases (ans.clock 0).now with
  | error exc => exact ⟨rfl, rfl⟩
  | ok now =>
    dsimp only
    rcases hasImmediateWorkLocked cfg now p.1 with ⟨work, s⟩
    cases work with
    | true => exact ⟨rfl, rfl⟩
    | false =>
      cases (ans.clock 1).now with
      | error exc => exact ⟨rfl, rfl⟩
      | ok now' => exact ⟨rfl, rfl⟩

/-- Without the mark this is the scheduler. -/
theorem parking_erases : System.SystemErases (parking cfg) (scheduler cfg) where
  body := by
    refine Thread.Erases.bind (Thread.erases_noteFirst _ _) fun ended => ?_
    refine Thread.Erases.ite (.pure _) ?_
    refine Thread.Erases.bind (Thread.erases_within _) fun opened => ?_
    refine Thread.Erases.ite (.pure _) ?_
    refine Thread.Erases.bind (Thread.erases_within _) fun action => ?_
    match action with
    | some .decode => exact Thread.Erases.bind (Thread.erases_within _) fun _ => .pure _
    | some .prefill => exact Thread.Erases.bind (Thread.erases_within _) fun _ => .pure _
    | none =>
      exact Thread.Erases.atomic (fun p ans => (parkBlock_idleBlock p ans).1)
        fun p ans => (parkBlock_idleBlock p ans).2
  handler := fun exc => Thread.erases_within _
  client := fun _ _ => rfl

/-! ### Nothing to do -/

variable {s : SchedulerState} {now : ℚ}

/-- At this clock value none of the three steps of the loop finds anything to do. -/
structure Dormant (cfg : SchedulerConfig) (now : ℚ) (s : SchedulerState) : Prop where
  processTerminalBoundaries : ∀ ans, (boundaryBlock now s ans).1 = .ok none
  openOne : ∀ ans, (ans.clock 0).now = .ok now → ans.selector 0 = none →
    (openPickBlock cfg s ans).1 = .ok none
  chooseBatchAction : ∀ ans, (chooseBatchBlock cfg s ans).1 = .ok none

theorem queueHas_false {queue : Queue} {state : RuntimeRequestState} {s' : SchedulerState}
    (h : queueHasStateLocked queue state s = (false, s')) : s' = s.setDeque queue [] := by
  obtain ⟨hrest, hs'⟩ := Prod.mk.inj h
  have hempty : (s.deque queue).dropWhile (fun id => (liveMember s state id).isNone) = [] := by
    simpa using hrest
  rw [← hs', hempty]

theorem queueHas_nil {queue : Queue} {state : RuntimeRequestState} (h : s.deque queue = []) :
    queueHasStateLocked queue state s = (false, s) := by
  have hsame : s.setDeque queue [] = s := by
    cases queue with
    | queued => rw [← show s.queued = [] from h]; rfl
    | prefill => rw [← show s.prefill = [] from h]; rfl
    | decode => rw [← show s.decode = [] from h]; rfl
  simp [queueHasStateLocked, h, hsame]

/-- What the last look has found of the tables. -/
structure Idle (cfg : SchedulerConfig) (now : ℚ) (s : SchedulerState) : Prop where
  boundaries : ∀ e ∈ s.entries.values, boundaryError s now e = none
  queued : ∀ id ∈ s.queued, ∀ e, Stands s QUEUED id e →
    s.admission.canActivate cfg.limits id = false
  prefill : s.prefill = []
  decode : s.decode = []

theorem Idle.dormant (h : Idle cfg now s) (hcoherent : Coherent s) : Dormant cfg now s where
  processTerminalBoundaries := by
    intro ans
    have hnone : (s.entries.values.findSome? fun e => (boundaryError s now e).map fun err =>
        (e, err)) = none := by
      rw [List.findSome?_eq_none_iff]
      intro e he
      rw [h.boundaries e he]
      rfl
    unfold boundaryBlock
    rw [hnone]
  openOne := by
    intro ans hclock hfault
    unfold openPickBlock
    split
    · rfl
    -- no queued entry may be activated, so the selector is offered none
    have hcandidates : (((s.deque .queued).filterMap (liveMember s QUEUED)).filter fun e =>
        s.admission.canActivate cfg.limits (s.entry e).scheduling.requestId) = [] := by
      rw [List.filter_eq_nil_iff]
      intro e he
      obtain ⟨id, hid, hmember⟩ := List.mem_filterMap.mp he
      have hstands := liveMember_eq_some.mp hmember
      have hrequest : (s.entry e).scheduling.requestId = id :=
        (hcoherent.registered id e hstands.1).2
      rw [hrequest, h.queued id hid e hstands]
      exact Bool.false_ne_true
    unfold popStateLocked
    dsimp only
    rw [hcandidates, hclock, hfault]
    rfl
  chooseBatchAction := by
    intro ans
    have hdecode : queueHasStateLocked .decode DECODE s = (false, s) := queueHas_nil h.decode
    have hprefill : queueHasStateLocked .prefill PREFILL s = (false, s) := queueHas_nil h.prefill
    simp [chooseBatchBlock, hdecode, hprefill]

/-- The timeout reaches no further than to any deadline of a live request. -/
def Timely (p : Parked) (s : SchedulerState) : Prop :=
  ∀ e ∈ s.liveEntries, ∀ deadline, deadlineOf (s.entry e) = some deadline →
    ∃ t, p.timeout = some t ∧ t ≤ max 0 (deadline - p.timedAt)

theorem nextDeadlineWait_le {e : ℕ} {deadline : ℚ} (he : e ∈ s.liveEntries)
    (hdeadline : deadlineOf (s.entry e) = some deadline) :
    ∃ t, nextDeadlineWaitLocked now s = some t ∧ t ≤ max 0 (deadline - now) := by
  have hmem : deadline ∈ s.liveEntries.filterMap fun e => deadlineOf (s.entry e) :=
    List.mem_filterMap.mpr ⟨e, he, hdeadline⟩
  unfold nextDeadlineWaitLocked
  cases hmin : (s.liveEntries.filterMap fun e => deadlineOf (s.entry e)).min? with
  | none =>
    rw [List.min?_eq_none_iff.mp hmin] at hmem
    exact absurd hmem List.not_mem_nil
  | some d =>
    have hle : d ≤ deadline := (List.min?_eq_some_iff.mp hmin).2 deadline hmem
    exact ⟨_, rfl, max_le_max le_rfl (sub_le_sub_right hle now)⟩

/-- What holds while the worker waits. -/
structure Rests (cfg : SchedulerConfig) (p : Parked) (s : SchedulerState) : Prop where
  idle : Idle cfg p.checkedAt s
  timely : Timely p s

/-- The last look misses nothing. -/
theorem idle_of_look {s' : SchedulerState}
    (h : hasImmediateWorkLocked cfg now s = (false, s')) : Idle cfg now s' := by
  unfold hasImmediateWorkLocked at h
  by_cases hboundary : (s.entries.values.any fun e => (boundaryError s now e).isSome) = true
  · rw [if_pos hboundary] at h
    exact absurd (congrArg Prod.fst h) (by simp)
  rw [if_neg hboundary] at h
  rcases hprefill : queueHasStateLocked .prefill PREFILL s with ⟨hasPrefill, s₁⟩
  rw [hprefill] at h
  cases hasPrefill with
  | true => exact absurd (congrArg Prod.fst h) (by simp)
  | false =>
    obtain rfl := queueHas_false hprefill
    dsimp only at h
    rw [if_neg Bool.false_ne_true] at h
    rcases hdecode : queueHasStateLocked .decode DECODE (s.setDeque .prefill []) with
      ⟨hasDecode, s₂⟩
    rw [hdecode] at h
    cases hasDecode with
    | true => exact absurd (congrArg Prod.fst h) (by simp)
    | false =>
      obtain rfl := queueHas_false hdecode
      dsimp only at h
      rw [if_neg Bool.false_ne_true] at h
      obtain ⟨hqueued, rfl⟩ := Prod.mk.inj h
      refine ⟨fun e he => ?_, fun id hid e hstands => ?_, rfl, rfl⟩
      · rw [← Option.not_isSome_iff_eq_none]
        intro herror
        exact hboundary (List.any_eq_true.mpr ⟨e, he, herror⟩)
      · rw [← Bool.not_eq_true]
        intro hactivate
        rw [← Bool.not_eq_true] at hqueued
        refine hqueued (List.any_eq_true.mpr ⟨id, hid, decide_eq_true ⟨?_, hactivate⟩⟩)
        rw [liveMember_eq_some.mpr hstands]
        rfl

/-- The block that enters the wait. -/
theorem parkBlock_rests {p : ParkingState} {ans : Answer} {parked : Parked}
    (h : (parkBlock cfg p ans).2.2 = some parked) :
    Rests cfg parked (parkBlock cfg p ans).2.1 := by
  unfold parkBlock at h ⊢
  dsimp only at h ⊢
  split at h
  · exact nomatch h
  · next hstop =>
    rw [if_neg hstop]
    cases hclock : (ans.clock 0).now with
    | error exc =>
      rw [hclock] at h
      exact nomatch h
    | ok now =>
      rw [hclock] at h
      dsimp only at h ⊢
      rcases hlook : hasImmediateWorkLocked cfg now p.1 with ⟨work, s'⟩
      rw [hlook] at h
      cases work with
      | true => exact nomatch h
      | false =>
        cases hclock' : (ans.clock 1).now with
        | error exc =>
          rw [hclock'] at h
          exact nomatch h
        | ok now' =>
          rw [hclock'] at h
          obtain rfl := Option.some_inj.mp h
          exact ⟨idle_of_look hlook, fun e he deadline hd => nextDeadlineWait_le he hd⟩

theorem parkBlock_error {p : ParkingState} {ans : Answer} {exc : PyException}
    (h : (parkBlock cfg p ans).1 = .error exc) : (parkBlock cfg p ans).2.2 = none := by
  unfold parkBlock at h ⊢
  dsimp only at h ⊢
  split at h
  · exact nomatch h
  · next hstop =>
    rw [if_neg hstop]
    cases hclock : (ans.clock 0).now with
    | error exc => rfl
    | ok now =>
      rw [hclock] at h
      dsimp only at h ⊢
      rcases hlook : hasImmediateWorkLocked cfg now p.1 with ⟨work, s'⟩
      rw [hlook] at h
      cases work with
      | true => exact nomatch h
      | false =>
        cases hclock' : (ans.clock 1).now with
        | error exc => rfl
        | ok now' =>
          rw [hclock'] at h
          exact nomatch h

theorem parkBlock_sound {r : Regime} {p : ParkingState} (h : Sound r p.1) (ans : Answer) :
    Sound r (parkBlock cfg p ans).2.1 := by
  rw [(parkBlock_idleBlock p ans).2]
  rcases @idleBlock_spec cfg p.1 ans with ⟨_, heq⟩ | hprune
  · rw [heq]
    exact h.plain (.of_heap rfl rfl (.inr rfl) rfl rfl rfl)
  · exact h.plain hprune.plain

/-! ### Clients -/

/-- A client that does not notify creates no work. -/
theorem Rests.client {parked : Parked} {k : ClientOp} (h : Rests cfg parked s)
    (hcoherent : Coherent s) (hk : notifies cfg s k = false) :
    Rests cfg parked (clientStep cfg k s) := by
  cases k with
  | infer request metadata attemptId clock =>
    -- a refused call changes nothing
    show Rests cfg parked (infer cfg request metadata attemptId clock s).2
    rcases @infer_cases cfg request metadata attemptId clock s with ⟨refusal, heq⟩ | ⟨x, _, heq, _⟩
    · rw [heq]
      exact h
    · rw [notifies, heq] at hk
      cases hk
  | wake e =>
    show Rests cfg parked (wake e s)
    rcases wake_cases e s hcoherent with heq | ⟨_, _, heq⟩ | ⟨outcome, _, _, _, _, heq⟩
    · rw [heq]
      exact h
    · rw [heq]
      exact ⟨⟨h.idle.boundaries, h.idle.queued, h.idle.prefill, h.idle.decode⟩, h.timely⟩
    · -- an entry leaves the tables
      have hvalues : ∀ e' ∈ (s.entries.pop (s.requestId e)).values, e' ∈ s.entries.values := by
        intro e' he'
        obtain ⟨item, hitem, rfl⟩ := List.mem_map.mp he'
        exact List.mem_map_of_mem (List.mem_of_mem_filter hitem)
      rw [heq]
      refine ⟨⟨fun e' he' => h.idle.boundaries e' (hvalues e' he'), fun id hid e' hstands => ?_,
        h.idle.prefill, h.idle.decode⟩, fun e' he' => h.timely e' ?_⟩
      · obtain ⟨hget, hstate⟩ := hstands
        have hget : (s.entries.pop (s.requestId e)).get? id = some e' := hget
        rw [Dict.get?_pop] at hget
        split_ifs at hget
        exact h.idle.queued id hid e' ⟨hget, hstate⟩
      · obtain ⟨hmem, hlive⟩ := List.mem_filter.mp he'
        exact List.mem_filter.mpr ⟨hvalues e' hmem, hlive⟩
  | cancel requestId =>
    show Rests cfg parked (cancel requestId s).2
    have hk : (cancel requestId s).1 = false := hk
    unfold cancel at hk ⊢
    cases hget : s.entries.get? requestId with
    | none => exact h
    | some e =>
      rw [hget] at hk
      dsimp only at hk ⊢
      by_cases hlive : s.live e = true
      · rw [if_pos hlive] at hk
        cases hk
      · rw [if_neg hlive]
        exact h
  | shutdown => cases hk

/-! ### The runs -/

section threads

open Thread hiding pure bind tryCatch

/-- Nothing is assumed of a run. -/
def anyRun : Regime := ⟨False, False, False, id⟩

/-- The worker waits only where it has nothing to do, unless it has been notified. -/
def parkingProtocol (cfg : SchedulerConfig) : Protocol ParkingState Answer where
  inv p := Sound anyRun p.1 ∧
    ∀ parked, p.2 = some parked → parked.notified = false → Rests cfg parked p.1
  rely p p' := ClientChange p.1 p'.1 ∧ (p.2 = none → p'.2 = none)
  allow _ _ _ := True
  rely_refl p := ⟨.refl p.1, id⟩
  rely_trans h h' := ⟨h.1.trans h'.1, fun hp => h'.2 (h.2 hp)⟩

/-- The worker is not in the wait. -/
abbrev Awake (parked : Option Parked) : Prop := parked = none

theorem anyRun_allows (s : SchedulerState) (ans : Answer) (s' : SchedulerState) :
    anyRun.Allows s ans s' := ⟨nofun, nofun⟩

theorem parkingProtocol_extends :
    Extends (parkingProtocol cfg) (protocol anyRun) Awake fun _ _ => True where
  inv := fun _ h => h.1
  rely := fun _ _ h => h.1
  allow := fun s i s' _ => anyRun_allows s.1 i s'.1
  keep := fun s s' x _ hx _ hs =>
    ⟨hs, fun parked hparked => absurd (hparked.symm.trans hx) (by simp)⟩
  stable := fun _ _ h hx => h.2 hx

theorem stable_awake : (parkingProtocol cfg).Stable fun p => True ∧ Awake p.2 :=
  fun _ _ _ hr _ h => ⟨trivial, hr.2 h.2⟩

/-- The loop takes the worker from one look to the next. -/
theorem triple_parkingIteration :
    Triple (parkingProtocol cfg) (fun _ => True) (parkingIteration cfg) (fun _ _ => True)
      fun _ p => True ∧ Awake p.2 := by
  have hwithin {α : Type} {t : Worker α} (h : Keeps anyRun (fun _ => True) t) :
      Triple (parkingProtocol cfg) (fun p => True ∧ Awake p.2) (t.within _)
        (fun _ p => True ∧ Awake p.2) fun _ p => True ∧ Awake p.2 :=
    Triple.within parkingProtocol_extends h (confined_true t)
  have hpure {b : Bool} : Triple (parkingProtocol cfg) (fun p => True ∧ Awake p.2)
      (pure b : Thread ParkingState Answer PyException Bool) (fun _ _ => True)
        fun _ p => True ∧ Awake p.2 :=
    Triple.pure (fun _ _ _ _ _ _ => trivial) fun _ _ _ => trivial
  refine Triple.bind (Triple.noteFirst parkingProtocol_extends
    (fun _ _ _ hs => ⟨⟨hs, fun _ hparked => absurd hparked (by simp)⟩, rfl⟩)
    (keeps_processTerminalBoundaries (r := anyRun)) fun _ _ => confined_true _) fun ended =>
      Triple.ite (fun _ => hpure) fun _ => ?_
  refine Triple.bind (hwithin keeps_openOne) fun opened => Triple.ite (fun _ => hpure) fun _ => ?_
  refine Triple.bind (hwithin (keeps_plain stable_true fun s ans _ _ =>
    ⟨(chooseBatchBlock_spec s ans).plain, trivial⟩)) fun action => ?_
  match action with
  | some .decode => exact Triple.bind (hwithin keeps_runDecodeBatch) fun _ => hpure
  | some .prefill => exact Triple.bind (hwithin keeps_runPrefillBatch) fun _ => hpure
  | none =>
    refine Triple.atomic stable_awake (fun _ _ _ _ _ _ _ => trivial) (fun _ => stable_awake)
      fun p ans hp _ _ => ⟨⟨parkBlock_sound hp.1 ans, fun parked hparked _ => ?_⟩,
        fun _ _ => trivial, fun exc hexc => ⟨trivial, parkBlock_error hexc⟩⟩
    exact parkBlock_rests hparked

/-- The operations of clients. -/
theorem parkingProtocol_client {p : ParkingState} {k : ClientOp}
    (h : (parkingProtocol cfg).inv p) :
    (parkingProtocol cfg).inv (parkingClient cfg k p) ∧
      (parkingProtocol cfg).rely p (parkingClient cfg k p) := by
  obtain ⟨hsound, hrests⟩ := h
  have hallowed : anyRun.AllowsClient p.1 k := by
    cases k with
    | infer request metadata attemptId clock => exact False.elim
    | _ => trivial
  refine ⟨⟨hsound.client hallowed, fun parked' hparked' hquiet => ?_⟩,
    (client_spec k hsound.coherent).2, fun hp => ?_⟩
  · obtain ⟨parked, hparked, rfl⟩ := Option.map_eq_some_iff.mp hparked'
    obtain ⟨hbefore, hk⟩ := Bool.or_eq_false_iff.mp hquiet
    have hrest := (hrests parked hparked hbefore).client hsound.coherent hk
    exact ⟨hrest.idle, hrest.timely⟩
  · show p.2.map _ = none
    rw [hp]
    rfl

theorem parking_run (moves : List (Move Answer ClientOp)) :
    (parkingProtocol cfg).inv
      ((parking cfg).run ((parking cfg).start ({}, none)) moves).shared := by
  have hempty : (parkingProtocol cfg).inv ({}, none) := ⟨sound_empty, nofun⟩
  refine System.run_kept (U := parking cfg) (C := parkingProtocol cfg) (fun _ _ _ => trivial)
    triple_parkingIteration (fun exc => ?_) (fun p k hp => parkingProtocol_client hp) hempty moves
  exact Triple.conseq (Triple.within parkingProtocol_extends (keeps_crashHandler exc)
    (confined_true _)) (fun _ _ h => h) (fun _ _ _ _ => trivial) fun _ _ _ _ => trivial

end threads

/-- The worker finds nothing to do, and a client cancels a request nobody has made. -/
def sampleIdle : List (Move Answer ClientOp) :=
  List.replicate 5 (.worker {}) ++ [.client (.cancel (py "r"))]

end ContinuousBatchScheduler

end Inference
