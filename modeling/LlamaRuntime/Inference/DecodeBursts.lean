/-
Bounded decode bursts.

The burst counter is reset by a prefill batch and advanced by a decode batch, in
two blocks that are reached only when the backend has answered.  The loop is run
with a log of its batch decisions, of the prefill batches it starts and of the
decode batches that complete.

* `Awaited` — whoever is in state PREFILL is in the deque of prefills, with a handle;
* `Counted` — the invariant at the loop head: the counter is at least the number of
  decode batches completed since the last decision that found nobody in PREFILL, or
  the last prefill batch;
* `decode_bursts_bounded` — over any stretch of the log without a prefill batch, at
  each decision of which somebody is in PREFILL, at most `max_decode_burst` decode
  batches complete.
-/
import LlamaRuntime.Inference.BatchBudgets
import LlamaRuntime.Inference.IdleWait

namespace Inference

open RuntimeRequestState SchedulerState

namespace ContinuousBatchScheduler

variable {cfg : SchedulerConfig} {s s' : SchedulerState}

/-- At least one request is in state PREFILL. -/
def Prefilling (s : SchedulerState) : Prop := ∃ e, (s.entry e).state = PREFILL

theorem prefilling_iff : Prefilling s ↔ ∃ e < s.heap.length, (s.entry e).state = PREFILL := by
  constructor
  · rintro ⟨e, he⟩
    exact ⟨e, lt_length_of_state (by rw [he]; simp), he⟩
  · rintro ⟨e, _, he⟩
    exact ⟨e, he⟩

instance : Decidable (Prefilling s) := decidable_of_iff' _ prefilling_iff

/-! ### The log -/

/-- What the loop does about batches: it decides, in the state it finds, it starts a
prefill batch, and a decode batch completes. -/
inductive BatchEvent where
  | decided (s : SchedulerState)
  | prefillStarted
  | decodeCompleted

namespace BatchEvent

def isCompletion : BatchEvent → Bool
  | .decodeCompleted => true
  | _ => false

/-- No prefill batch is started, and a decision finds somebody in state PREFILL. -/
def Waits : BatchEvent → Prop
  | .decided s => Prefilling s
  | .prefillStarted => False
  | .decodeCompleted => True

instance (event : BatchEvent) : Decidable event.Waits := by
  cases event <;> unfold Waits <;> infer_instance

end BatchEvent

abbrev BurstState := SchedulerState × List BatchEvent

/-- The clause `except Exception`, around a block that writes the log. -/
def catchingNoted {α : Type} (t : Thread BurstState Answer PyException α) :
    Thread BurstState Answer PyException (Except PyException α) :=
  (t >>= fun a => pure (.ok a)).tryCatch fun exc =>
    if exc.isException then pure (.error exc) else .raise exc

variable (cfg) in
/-- `_run_prefill_batch`, with the log. -/
def notedPrefillBatch : Thread BurstState Answer PyException Unit := do
  let picked ← Thread.within _ (.atomic (prefillTakeBlock cfg))
  if picked = [] then pure () else do
    let selected := picked.map Prod.fst
    match ← catchingNoted (.atomic (Thread.noted (fun _ _ log => log ++ [.prefillStarted])
        (prefillCallBlock (picked.map Prod.snd)))) with
    | .error exc => Thread.within _ (selected.forM fun e =>
        releaseAndTerminalize e none (some (backendError "prefill_batch_failed" exc)))
    | .ok outcomes => do
      let published ← Thread.within _ (.atomic (applyPrefill selected outcomes))
      Thread.within _ (published.forM fun (e, outcome) => do
        .modify fun s =>
          if outcome.processedTokens ≠ 0 then
            { s with selector :=
                s.selector.charge (s.entry e).scheduling outcome.processedTokens }
          else s
        let handle ← .read fun s => (s.entry e).handle
        publish e .PREFILL_COMPLETED handle (some outcome.processedTokens) none)
      Thread.within _ (selected.forM fun e => do
        let x ← .read fun s => s.entry e
        if x.state = RELEASING then releaseAndTerminalize e none x.error else pure ())

/-- A decode batch completes when the backend has answered for all its sequences. -/
def noteDecode (selected : List ℕ) (steps : List SequenceStep) (s : SchedulerState) (ans : Answer)
    (log : List BatchEvent) : List BatchEvent :=
  match (decodeCallBlock selected steps s ans).1 with
  | .ok _ => log ++ [.decodeCompleted]
  | .error _ => log

variable (cfg) in
/-- `_run_decode_batch`, with the log. -/
def notedDecodeBatch : Thread BurstState Answer PyException Unit := do
  let (selected, steps) ← Thread.within _ (.atomic (decodeTakeBlock cfg))
  if steps = [] then pure () else do
    match ← catchingNoted (.atomic (Thread.noted (noteDecode selected steps)
        (decodeCallBlock selected steps))) with
    | .error exc => Thread.within _ (selected.forM fun e =>
        releaseAndTerminalize e none (some (backendError "decode_batch_failed" exc)))
    | .ok outcomes => do
      let done ← Thread.within _ (.atomic (applyDecode selected outcomes))
      Thread.within _ (done.forM fun (e, outcome) => do
        .modify fun s =>
          if outcome.tokenIds ≠ [] then
            { s with selector :=
                s.selector.charge (s.entry e).scheduling outcome.tokenIds.length }
          else s
        let handle ← .read fun s => (s.entry e).handle
        publish e .DECODE_COMPLETED handle (some outcome.tokenIds.length) none)
      Thread.within _ ((done.filter fun p => p.2.status ≠ .PROGRESSED).forM fun (e, outcome) =>
        if outcome.status = .FAILED then
          releaseAndTerminalize e none (some (decodeError outcome.errorCode))
        else completeEntry cfg e outcome.completion)

variable (cfg) in
/-- The loop, with the log. -/
def notedIteration : Thread BurstState Answer PyException Bool := do
  if ← processTerminalBoundaries.within _ then pure true
  else if ← (openOne cfg).within _ then pure true
  else
    match ← Thread.atomic (Thread.noted (fun s _ log => log ++ [.decided s])
        (chooseBatchBlock cfg)) with
    | some .decode => do
      notedDecodeBatch cfg
      pure true
    | some .prefill => do
      notedPrefillBatch cfg
      pure true
    | none => Thread.within _ (.atomic (idleBlock cfg))

variable (cfg) in
/-- The scheduler with its clients, and with the log. -/
def bursting : System BurstState Answer PyException ClientOp where
  body := notedIteration cfg
  handler exc := (crashHandler exc).within _
  client k p := (clientStep cfg k p.1, p.2)

variable (cfg) in
/-- The log of a run. -/
def batchEvents (moves : List (Move Answer ClientOp)) : List BatchEvent :=
  ((bursting cfg).run ((bursting cfg).start ({}, [])) moves).shared.2

theorem erases_catchingNoted {α : Type} {t' : Thread BurstState Answer PyException α}
    {t : Worker α} (h : t'.Erases t) : (catchingNoted t').Erases (catching t) :=
  (h.bind fun _ => .pure _).tryCatch fun _ => .ite (.pure _) (.raise _)

theorem erases_prefillBatch : (notedPrefillBatch cfg).Erases (runPrefillBatch cfg) := by
  refine (Thread.erases_within _).bind fun picked => .ite (.pure _) ?_
  refine (erases_catchingNoted (Thread.erases_noted _ _)).bind fun called => ?_
  match called with
  | .error exc => exact Thread.erases_within _
  | .ok outcomes =>
    exact (Thread.erases_within _).bind fun published => (Thread.erases_within _).bind fun _ =>
      Thread.erases_within _

theorem erases_decodeBatch : (notedDecodeBatch cfg).Erases (runDecodeBatch cfg) := by
  refine (Thread.erases_within _).bind fun picked => .ite (.pure _) ?_
  refine (erases_catchingNoted (Thread.erases_noted _ _)).bind fun called => ?_
  match called with
  | .error exc => exact Thread.erases_within _
  | .ok outcomes =>
    exact (Thread.erases_within _).bind fun done => (Thread.erases_within _).bind fun _ =>
      Thread.erases_within _

/-- Without the log this is the scheduler. -/
theorem bursting_erases : System.SystemErases (bursting cfg) (scheduler cfg) where
  body := by
    refine (Thread.erases_within _).bind fun ended => .ite (.pure _) ?_
    refine (Thread.erases_within _).bind fun opened => .ite (.pure _) ?_
    refine (Thread.erases_noted _ _).bind fun action => ?_
    match action with
    | some .decode => exact erases_decodeBatch.bind fun _ => .pure _
    | some .prefill => exact erases_prefillBatch.bind fun _ => .pure _
    | none => exact Thread.erases_within _
  handler := fun _ => Thread.erases_within _
  client := fun _ _ => rfl

/-! ### Whoever awaits a prefill -/

/-- Whoever is in state PREFILL is in the deque of prefills, with a handle. -/
def Awaited (s : SchedulerState) : Prop :=
  ∀ e, (s.entry e).state = PREFILL → s.requestId e ∈ s.prefill ∧ (s.entry e).handle.isSome

/-- An entry does not come to await a prefill, and keeps its handle. -/
structure StaysOut (x y : RequestEntry) : Prop where
  scheduling : y.scheduling = x.scheduling
  state : y.state = PREFILL → x.state = PREFILL
  handle : x.handle.isSome → y.handle.isSome

theorem StaysOut.refl (x : RequestEntry) : StaysOut x x := ⟨rfl, id, id⟩

theorem tolerant_staysOut : Tolerant StaysOut where
  trans := fun h h' => ⟨h'.scheduling.trans h.scheduling, fun hs => h.state (h'.state hs),
    fun hh => h'.handle (h.handle hh)⟩
  marks := by
    intro x y h
    have hscheduling := congrArg RequestEntry.scheduling h
    have hstate := congrArg RequestEntry.state h
    have hhandle := congrArg RequestEntry.handle h
    exact ⟨hscheduling, fun hs => hstate.symm.trans hs, fun hh => by
      rw [show y.handle = x.handle from hhandle]
      exact hh⟩
  moves := fun _ _ _ _ hne => ⟨rfl, fun hs => absurd hs hne, id⟩
  fails := fun _ _ => ⟨rfl, fun hs => absurd hs (by simp [terminated]), id⟩

/-- Nobody new awaits a prefill, and whoever does stays in the deque. -/
theorem Awaited.of_staysOut (h : Awaited s) (hentry : ∀ e, StaysOut (s.entry e) (s'.entry e))
    (hprefill : ∀ e, (s.entry e).state = PREFILL → (s'.entry e).state = PREFILL →
      s.requestId e ∈ s.prefill → s.requestId e ∈ s'.prefill) : Awaited s' := by
  intro e he
  have hbefore := (hentry e).state he
  obtain ⟨hid, hhandle⟩ := h e hbefore
  have hsame : s'.requestId e = s.requestId e := by
    rw [requestId, (hentry e).scheduling]
    rfl
  rw [hsame]
  exact ⟨hprefill e hbefore he hid, (hentry e).handle hhandle⟩

theorem Awaited.of_heap (h : Awaited s) (hheap : s'.heap = s.heap)
    (hprefill : s'.prefill = s.prefill) : Awaited s' :=
  h.of_staysOut (fun e => by rw [entry_congr hheap]; exact .refl _)
    fun _ _ _ hid => hprefill ▸ hid

theorem Awaited.client (h : Awaited s) (hc : ClientChange s s') : Awaited s' := by
  refine fun e he => ?_
  rw [hc.state] at he
  have hlt : e < s.heap.length := lt_length_of_state (by rw [he]; simp)
  rw [hc.requestId hlt, hc.prefill, hc.handle hlt]
  exact h e he

/-- An action that keeps the burst, and whoever awaits a prefill in the deque. -/
structure Steady (s s' : SchedulerState) : Prop where
  burst : s'.decodeBurst = s.decodeBurst
  awaited : Coherent s → Awaited s → Awaited s'

theorem steady_aside (s s' : SchedulerState) (h : Aside StaysOut s s') : Steady s s' :=
  ⟨h.burst, fun _ ha => ha.of_staysOut h.entry fun _ _ _ hid => h.prefill ▸ hid⟩

/-- Stale members are cleaned away; an id that stands for somebody is not stale. -/
theorem mem_dropWhile {α : Type} {p : α → Bool} {a : α} (ha : p a = false) :
    ∀ {l : List α}, a ∈ l → a ∈ l.dropWhile p
  | b :: l, h => by
    rw [List.dropWhile_cons]
    split_ifs with hb
    · rcases List.mem_cons.mp h with rfl | h
      · exact absurd hb (by rw [ha]; simp)
      · exact mem_dropWhile ha h
    · exact h

theorem Awaited.found (h : Awaited s) (hcoh : Coherent s) {e : ℕ}
    (he : (s.entry e).state = PREFILL) :
    s.requestId e ∈ (queueHasStateLocked .prefill PREFILL s).2.prefill := by
  have hlt : e < s.heap.length := lt_length_of_state (by rw [he]; simp)
  have hget := hcoh.get?_of_live hlt (by rw [he]; simp)
  refine mem_dropWhile ?_ (h e he).1
  rw [liveMember_eq_some.mpr ⟨hget, he⟩]
  rfl

theorem steady_queueHas (s : SchedulerState) :
    Steady s (queueHasStateLocked .prefill PREFILL s).2 :=
  ⟨rfl, fun hcoh ha => ha.of_staysOut (fun _ => .refl _) fun _ he _ _ => ha.found hcoh he⟩

/-- The look at the deque of decodes is none at the deque of prefills. -/
theorem steady_queueHasDecode (s : SchedulerState) :
    Steady s (queueHasStateLocked .decode DECODE s).2 :=
  ⟨rfl, fun _ ha => ha.of_heap rfl rfl⟩

theorem Steady.trans {s'' : SchedulerState} (h : Steady s s') (h' : Steady s' s'')
    (hcoh : Coherent s → Coherent s') : Steady s s'' :=
  ⟨h'.burst.trans h.burst, fun hc ha => h'.awaited (hcoh hc) (h.awaited hc ha)⟩

theorem steady_chooseBatch (s : SchedulerState) (ans : Answer) :
    Steady s (chooseBatchBlock cfg s ans).2 :=
  (steady_queueHasDecode s).trans (steady_queueHas _)
    fun hcoh => hcoh.advance (queueHasStateLocked_spec .decode DECODE s).plain.toAdvance

/-- **The decision.**  While somebody awaits a prefill, a decode batch is chosen only
below the bound. -/
theorem chooseBatch_decode {ans : Answer} (hcoh : Coherent s) (h : Awaited s) (hp : Prefilling s)
    (hchoice : (chooseBatchBlock cfg s ans).1 = .ok (some .decode)) :
    s.decodeBurst < cfg.maxDecodeBurst := by
  obtain ⟨e, he⟩ := hp
  have hprune := queueHasStateLocked_spec .decode DECODE s
  have hmid : Coherent (queueHasStateLocked .decode DECODE s).2 :=
    hcoh.advance hprune.plain.toAdvance
  have hmem := ((steady_queueHasDecode s).awaited hcoh h).found hmid (e := e)
    (by rw [entry_congr hprune.heap]; exact he)
  have hhas : (queueHasStateLocked .prefill PREFILL
      (queueHasStateLocked .decode DECODE s).2).1 = true :=
    decide_eq_true (List.ne_nil_of_mem hmem)
  have hburst : (queueHasStateLocked .prefill PREFILL
      (queueHasStateLocked .decode DECODE s).2).2.decodeBurst = s.decodeBurst := rfl
  unfold chooseBatchBlock at hchoice
  dsimp only at hchoice
  rw [hhas, hburst] at hchoice
  by_contra hge
  simp [hge] at hchoice

theorem steady_openPick (s : SchedulerState) (ans : Answer) :
    Steady s (openPickBlock cfg s ans).2 := by
  unfold openPickBlock
  by_cases hfull : cfg.capabilities.maxConcurrentSequences ≤ activeSequences s
  · rw [if_pos hfull]
    exact ⟨rfl, fun _ ha => ha⟩
  rw [if_neg hfull]
  have hframe := @popStateLocked_frame cfg .queued QUEUED
    (fun x => s.admission.canActivate cfg.limits x.scheduling.requestId) (ans.clock 0)
    (ans.selector 0) s
  generalize popStateLocked cfg .queued QUEUED
    (fun x => s.admission.canActivate cfg.limits x.scheduling.requestId) (ans.clock 0)
    (ans.selector 0) s = popped at hframe
  obtain ⟨result, t⟩ := popped
  dsimp only at hframe
  have hpop : Steady s t := by
    rw [hframe]
    exact ⟨rfl, fun _ ha => ha.of_heap rfl rfl⟩
  rcases result with exc | _ | e
  · exact hpop
  · exact hpop
  refine ⟨hpop.burst, fun hcoh ha => (hpop.awaited hcoh ha).of_staysOut (fun e' => ?_)
    fun _ _ _ hid => hid⟩
  rw [entry_modifyEntry]
  split_ifs with hc
  · rw [← hc.1]
    exact ⟨rfl, fun hs => absurd hs (by simp), id⟩
  · exact .refl _

/-- Storing a handle. -/
theorem Awaited.store (h : Awaited s) (e : ℕ) {f : RequestEntry → RequestEntry}
    (hf : ∀ x, (f x).scheduling = x.scheduling ∧ (f x).handle.isSome ∧
      ((f x).state = PREFILL → x.state = PREFILL)) : Awaited (s.modifyEntry e f) := by
  refine h.of_staysOut (fun e' => ?_) fun _ _ _ hid => hid
  rw [entry_modifyEntry]
  split_ifs with hc
  · obtain ⟨h1, h2, h3⟩ := hf (s.entry e)
    rw [← hc.1]
    exact ⟨h1, h3, fun _ => h2⟩
  · exact .refl _

theorem steady_openCommit (e : ℕ) (handle : SequenceHandle) (s : SchedulerState) (ans : Answer) :
    Steady s (openCommitBlock e handle s ans).2 := by
  rcases openCommitBlock_spec e handle s ans with
    ⟨exc, _, heq⟩ | ⟨now, deadline, _, heq | heq⟩
  · rw [heq]
    exact ⟨rfl, fun _ ha => ha.store e fun x => ⟨rfl, rfl, id⟩⟩
  · rw [heq]
    refine ⟨rfl, fun _ ha => ?_⟩
    exact Awaited.of_heap (ha.store e (f := opened handle now deadline RELEASING) fun x =>
      ⟨rfl, rfl, fun hs => absurd hs (by simp [opened])⟩) rfl rfl
  · rw [heq]
    refine ⟨rfl, fun _ ha e' he' => ?_⟩
    -- the opened entry joins the deque
    show (s.modifyEntry e (opened handle now deadline PREFILL)).requestId e' ∈
        s.prefill ++ [s.requestId e] ∧
      ((s.modifyEntry e (opened handle now deadline PREFILL)).entry e').handle.isSome
    have hstate : ((s.modifyEntry e (opened handle now deadline PREFILL)).entry e').state
        = PREFILL := he'
    have hsame : (s.modifyEntry e (opened handle now deadline PREFILL)).requestId e'
        = s.requestId e' := by
      rw [requestId, entry_modifyEntry]
      split_ifs with hc
      · rw [hc.1]
        rfl
      · rfl
    rw [hsame]
    rw [entry_modifyEntry] at hstate ⊢
    by_cases hc : e = e' ∧ e < s.heap.length
    · rw [if_pos hc, ← hc.1]
      exact ⟨List.mem_append_right _ List.mem_cons_self, rfl⟩
    · rw [if_neg hc] at hstate ⊢
      obtain ⟨hid, hhandle⟩ := ha e' hstate
      exact ⟨List.mem_append_left _ hid, hhandle⟩

theorem steady_idleBlock (s : SchedulerState) (ans : Answer) : Steady s (idleBlock cfg s ans).2 := by
  have hwork : ∀ now, Steady s (hasImmediateWorkLocked cfg now s).2 := by
    intro now
    have hprefill := steady_queueHas s
    have hboth := hprefill.trans (steady_queueHasDecode _)
      fun hcoh => hcoh.advance (queueHasStateLocked_spec .prefill PREFILL s).plain.toAdvance
    unfold hasImmediateWorkLocked
    dsimp only
    split_ifs
    · exact ⟨rfl, fun _ ha => ha⟩
    · exact hprefill
    · exact hboth
    · exact hboth
  unfold idleBlock
  by_cases hstop : s.stopping ∧ s.liveEntries = []
  · rw [if_pos hstop]
    exact ⟨rfl, fun _ ha => ha.of_heap rfl rfl⟩
  rw [if_neg hstop]
  cases (ans.clock 0).now with
  | error exc => exact ⟨rfl, fun _ ha => ha⟩
  | ok now =>
    have hlook := hwork now
    dsimp only
    generalize hasImmediateWorkLocked cfg now s = looked at hlook
    obtain ⟨work, t⟩ := looked
    cases work with
    | true => exact hlook
    | false =>
      dsimp only
      cases (ans.clock 1).now with
      | error exc => exact hlook
      | ok _ => exact hlook

theorem steady_openOne : Changes Steady (openOne cfg) := by
  obtain ⟨k, heq, hk⟩ := @openOne_after cfg StaysOut Steady tolerant_staysOut steady_aside
    (fun x handle => ⟨rfl, id, fun _ => rfl⟩) steady_openCommit
  rw [heq]
  exact (changes_atomic steady_openPick).bind hk

/-! ### Batches -/

theorem prefillSteps_all {maxTokens : ℕ} (s : SchedulerState) : ∀ (candidates : List ℕ)
    (remaining : ℤ), (∀ e ∈ candidates, (s.entry e).handle.isSome) →
      (prefillSteps maxTokens s candidates remaining).map Prod.fst = candidates
  | [], _, _ => rfl
  | e :: rest, remaining, h => by
    obtain ⟨handle, hhandle⟩ := Option.isSome_iff_exists.mp (h e List.mem_cons_self)
    rw [prefillSteps, hhandle]
    dsimp only
    rw [List.map_cons, prefillSteps_all s rest _ fun e' he' => h e' (List.mem_cons_of_mem _ he')]

/-- Everybody who is taken has a handle, and awaits the prefill no more. -/
theorem awaited_prefillTake {ans : Answer} (hcoh : Coherent s) (h : Awaited s)
    {picked : List (ℕ × SequenceStep)} (hok : (prefillTakeBlock cfg s ans).1 = .ok picked) :
    Awaited (prefillTakeBlock cfg s ans).2 ∧
      (prefillTakeBlock cfg s ans).2.decodeBurst = s.decodeBurst := by
  obtain ⟨hprune, hsel⟩ := @takeStateLocked_spec cfg .prefill PREFILL ans
    cfg.capabilities.maxSequencesPerStep 0 s
  have hframe := @takeStateLocked_frame cfg .prefill PREFILL ans
    cfg.capabilities.maxSequencesPerStep 0 s
  have hkeeps := fun id e es => @takeStateLocked_keeps cfg .prefill PREFILL ans id e
    cfg.capabilities.maxSequencesPerStep 0 s es hcoh
  unfold prefillTakeBlock at hok ⊢
  generalize takeStateLocked cfg .prefill PREFILL ans cfg.capabilities.maxSequencesPerStep 0 s
    = taken at hprune hsel hframe hkeeps hok ⊢
  rcases taken with ⟨exc | candidates, t⟩
  · exact absurd hok (by simp)
  obtain ⟨hstands, _⟩ := hsel candidates rfl
  dsimp only at hprune hframe hkeeps ⊢
  have hentry : ∀ e, t.entry e = s.entry e := fun e => entry_congr hprune.heap
  have hall := @prefillSteps_all cfg.capabilities.maxPrefillTokensPerStep t candidates
    cfg.tickTokenBudget fun e he => by
      obtain ⟨_, _, _, hstate⟩ := hstands e he
      rw [hentry]
      exact (h e hstate).2
  have hburst : t.decodeBurst = s.decodeBurst := by
    rw [hframe]
    rfl
  rw [hall]
  refine ⟨h.of_staysOut (fun e => ?_) fun e he he' hid => ?_, ?_⟩
  · rw [entry_setStates, hentry]
    split_ifs
    · exact ⟨rfl, fun hs => absurd hs (by simp), id⟩
    · exact .refl _
  · have hlt : e < s.heap.length := lt_length_of_state (by rw [he]; simp)
    have hne : e ∉ candidates := by
      intro hmem
      rw [entry_setStates, if_pos ⟨hmem, by rw [hprune.heap]; exact hlt⟩] at he'
      exact absurd he' (by simp)
    rw [setStates_eq]
    exact hkeeps _ e candidates rfl hid ⟨hcoh.get?_of_live hlt (by rw [he]; simp), he⟩ hne
  · rw [setStates_eq]
    exact hburst

theorem steady_decodeTake (s : SchedulerState) (ans : Answer) :
    Steady s (decodeTakeBlock cfg s ans).2 := by
  have hframe := @takeStateLocked_frame cfg .decode DECODE ans
    (min cfg.capabilities.maxSequencesPerStep cfg.tickTokenBudget) 0 s
  unfold decodeTakeBlock
  dsimp only
  generalize takeStateLocked cfg .decode DECODE ans
    (min cfg.capabilities.maxSequencesPerStep cfg.tickTokenBudget) 0 s = taken at hframe
  obtain ⟨result, t⟩ := taken
  dsimp only at hframe
  have htake : Steady s t := by
    rw [hframe]
    exact ⟨rfl, fun _ ha => ha.of_heap rfl rfl⟩
  cases result with
  | error exc => exact htake
  | ok selected =>
    dsimp only
    generalize selected.filter _ = withHandle
    have hset := setStates_eq DECODE_INFLIGHT withHandle t
    refine ⟨?_, fun hcoh ha => (htake.awaited hcoh ha).of_staysOut (fun e => ?_)
      fun e _ _ hid => ?_⟩
    · rw [hset]
      exact htake.burst
    · rw [entry_setStates]
      split_ifs
      · exact ⟨rfl, fun hs => absurd hs (by simp), id⟩
      · exact .refl _
    · rw [hset]
      exact hid

/-- An outcome puts its entry into the deque its state asks for. -/
theorem Awaited.outcome (h : Awaited s) {e : ℕ} {y : RequestEntry} (ho : Outcome s s' e y)
    (hs : y.scheduling = (s.entry e).scheduling) (hh : y.state = PREFILL → y.handle.isSome) :
    Awaited s' := by
  have hid : ∀ e', s'.requestId e' = s.requestId e' := by
    intro e'
    rw [requestId, entry_modify ho.heap]
    split_ifs with hc
    · rw [hs, hc.1]
      rfl
    · rfl
  have hsub : ∀ id ∈ s.prefill, id ∈ s'.prefill := by
    intro id hmem
    rcases ho.deques with ⟨h1, _, _⟩ | ⟨_, h1, _⟩ | ⟨_, h1, _⟩
    · exact h1 ▸ hmem
    · exact h1 ▸ hmem
    · rw [h1]
      exact List.mem_append_left _ hmem
  intro e' he'
  rw [hid]
  rw [entry_modify ho.heap] at he' ⊢
  by_cases hc : e = e' ∧ e < s.heap.length
  · rw [if_pos hc] at he' ⊢
    rcases ho.deques with ⟨_, _, h3⟩ | ⟨h3, _, _⟩ | ⟨_, h1, _⟩
    · exact absurd (h3.symm.trans he') (by simp)
    · exact absurd (h3.symm.trans he') (by simp)
    · rw [h1, ← hc.1]
      exact ⟨List.mem_append_right _ List.mem_cons_self, hh he'⟩
  · rw [if_neg hc] at he' ⊢
    exact ⟨hsub _ (h e' he').1, (h e' he').2⟩

theorem awaited_applyPrefill : ∀ (pairs : List (ℕ × PrefillOutcome)) (s : SchedulerState),
    Awaited s → Awaited (pairs.foldl (fun s p => applyPrefillOutcome s p.1 p.2) s)
  | [], _, h => h
  | (e, outcome) :: rest, s, h => by
    refine awaited_applyPrefill rest _ (h.outcome (applyPrefillOutcome_spec s e outcome)
      (afterPrefill_spec _ outcome).1 fun hs => ?_)
    unfold afterPrefill at hs ⊢
    by_cases hhandle : (s.entry e).handle ≠ some outcome.handle
    · rw [if_pos hhandle] at hs
      exact absurd hs (by simp)
    · rw [if_neg hhandle]
      rw [not_not] at hhandle
      show (s.entry e).handle.isSome
      rw [hhandle]
      rfl

theorem awaited_applyDecodeLoop : ∀ (pairs : List (ℕ × DecodeOutcome)) (s : SchedulerState),
    Awaited s → Awaited (applyDecodeLoop pairs s).2
  | [], _, h => h
  | (e, outcome) :: rest, s, h => by
    rw [applyDecodeLoop]
    cases checkedOutcome (s.entry e) outcome with
    | error exc => exact h
    | ok counted =>
      have hone := h.outcome (applyDecodeOutcome_spec s e counted)
        (afterDecode_spec _ counted).1 fun hs => absurd hs
          (by cases hst : counted.status <;> simp [afterDecode, hst])
      have hrest := awaited_applyDecodeLoop rest (applyDecodeOutcome s e counted) hone
      dsimp only
      generalize applyDecodeLoop rest (applyDecodeOutcome s e counted) = loop at hrest
      rcases loop with ⟨exc | done, t⟩
      · exact hrest
      · exact hrest

/-! ### Counting -/

/-- In every stretch that ends the log and waits throughout, at most `n` decode
batches complete. -/
def CountedBy (n : ℕ) (log : List BatchEvent) : Prop :=
  ∀ stretch, stretch <:+ log → (∀ event ∈ stretch, event.Waits) →
    stretch.countP BatchEvent.isCompletion ≤ n

/-- The same of every stretch of the log. -/
def Bounded (n : ℕ) (log : List BatchEvent) : Prop :=
  ∀ stretch, stretch <:+: log → (∀ event ∈ stretch, event.Waits) →
    stretch.countP BatchEvent.isCompletion ≤ n

variable {m n : ℕ} {log : List BatchEvent} {event : BatchEvent}

theorem CountedBy.mono (h : CountedBy m log) (hle : m ≤ n) : CountedBy n log :=
  fun stretch hs hw => (h stretch hs hw).trans hle

theorem Bounded.counted (h : Bounded n log) : CountedBy n log :=
  fun stretch hs => h stretch hs.isInfix

theorem Bounded.concat (h : Bounded n log) (hc : CountedBy n (log ++ [event])) :
    Bounded n (log ++ [event]) := by
  intro stretch hs hw
  rcases List.infix_concat_iff.mp hs with hs | hs
  · exact hc stretch hs hw
  · exact h stretch hs hw

/-- One event more in the stretch. -/
theorem CountedBy.concat (hwait : event.Waits → CountedBy m log)
    (hle : m + (if event.isCompletion then 1 else 0) ≤ n) : CountedBy n (log ++ [event]) := by
  intro stretch hs hw
  rcases List.suffix_concat_iff.mp hs with rfl | ⟨before, rfl, hbefore⟩
  · exact Nat.zero_le _
  · have hcount := hwait (hw event (by simp)) before hbefore
      fun event he => hw event (List.mem_append_left _ he)
    rw [List.countP_append, List.countP_singleton]
    omega

theorem CountedBy.decided (h : CountedBy n log) : CountedBy n (log ++ [.decided s]) :=
  .concat (fun _ => h) le_rfl

/-- A decision that finds nobody in state PREFILL begins the count anew. -/
theorem countedBy_idle (hidle : ¬ Prefilling s) : CountedBy 0 (log ++ [.decided s]) :=
  .concat (m := 0) (fun hwait => absurd hwait hidle) le_rfl

/-- So does a prefill batch. -/
theorem countedBy_started : CountedBy 0 (log ++ [.prefillStarted]) :=
  .concat (m := 0) (fun hwait => absurd hwait id) le_rfl

theorem CountedBy.completed (h : CountedBy n log) : CountedBy (n + 1) (log ++ [.decodeCompleted]) :=
  .concat (fun _ => h) le_rfl

/-! ### The runs -/

section threads

open Thread hiding pure bind tryCatch

/-- The log is the worker's, and its states are coherent. -/
def burstProtocol (cfg : SchedulerConfig) : Protocol BurstState Answer where
  inv p := Bounded cfg.maxDecodeBurst p.2
  rely p p' := (Awaited p.1 → Awaited p'.1) ∧ p'.1.decodeBurst = p.1.decodeBurst ∧ p'.2 = p.2
  allow p _ _ := Coherent p.1
  rely_refl _ := ⟨id, rfl, rfl⟩
  rely_trans h h' := ⟨fun ha => h'.1 (h.1 ha), h'.2.1.trans h.2.1, h'.2.2.trans h.2.2⟩

/-- What the worker knows: whoever awaits a prefill is in the deque, and a relation
between the counter and the log. -/
structure Holds (L : ℕ → List BatchEvent → Prop) (p : BurstState) : Prop where
  awaited : Awaited p.1
  counted : L p.1.decodeBurst p.2

variable {L M : ℕ → List BatchEvent → Prop} {α : Type}

theorem stable_holds (L : ℕ → List BatchEvent → Prop) : (burstProtocol cfg).Stable (Holds L) := by
  intro p p' _ hr _ h
  obtain ⟨hawaited, hburst, hlog⟩ := hr
  exact ⟨hawaited h.awaited, by rw [hburst, hlog]; exact h.counted⟩

theorem stable_anything : (burstProtocol cfg).Stable fun _ => True := fun _ _ _ _ _ _ => trivial

/-- `L` holds before the thread, and `M` when it returns. -/
abbrev Turns (cfg : SchedulerConfig) (L : ℕ → List BatchEvent → Prop)
    (t : Thread BurstState Answer PyException α) (M : α → ℕ → List BatchEvent → Prop) : Prop :=
  Triple (burstProtocol cfg) (Holds L) t (fun a => Holds (M a)) fun _ _ => True

theorem turns_pure (a : α) :
    Turns cfg L (pure a : Thread BurstState Answer PyException α) fun _ => L :=
  Triple.pure (stable_holds L) fun _ _ h => h

theorem Turns.weaken {t : Thread BurstState Answer PyException α}
    {K : ℕ → List BatchEvent → Prop} {K' M : α → ℕ → List BatchEvent → Prop}
    (h : Turns cfg K t K') (hL : ∀ n log, L n log → K n log) (hM : ∀ a n log, K' a n log → M a n log) :
    Turns cfg L t M :=
  Triple.conseq h (fun _ _ hp => ⟨hp.awaited, hL _ _ hp.counted⟩)
    (fun a _ _ hp => ⟨hp.awaited, hM a _ _ hp.counted⟩) fun _ _ _ hp => hp

/-- A steady thread keeps whatever is known. -/
theorem turns_within {t : Worker α} (h : Changes Steady t) :
    Turns cfg L (t.within _) fun _ => L := by
  refine (Confined.within h (stable_holds L) fun s ans s' log hi hcoh hsteady hp => ?_).conseq
    (fun _ _ hp => hp) (fun _ _ _ hp => hp.1) fun _ _ _ _ => trivial
  exact ⟨hi, hsteady.awaited hcoh hp.awaited, by rw [hsteady.burst]; exact hp.counted⟩

theorem turns_aside {t : Worker α} (h : Changes (Aside StaysOut) t) :
    Turns cfg L (t.within _) fun _ => L := turns_within (Confined.weaken h steady_aside)

/-- A block that may change the counter, or lose an id when it raises. -/
theorem turns_block {block : SchedulerState → Answer → Except PyException α × SchedulerState}
    (h : ∀ s ans a, Coherent s → Awaited s → (block s ans).1 = .ok a →
      Awaited (block s ans).2 ∧ ∀ log, L s.decodeBurst log → M (block s ans).2.decodeBurst log) :
    Turns cfg L (Thread.within _ (.atomic block)) fun _ => M := by
  intro p hi hp p' hr hi' ans hcoh
  have hp' := stable_holds L p p' hi hr hi' hp
  have hblock := h p'.1 ans
  refine ⟨hi', ?_⟩
  dsimp only
  cases hres : (block p'.1 ans).1 with
  | ok a =>
    obtain ⟨hawaited, hcounted⟩ := hblock a hcoh hp'.awaited hres
    exact fun u hu hiu => stable_holds M ((block p'.1 ans).2, p'.2) u hi' hu hiu
      ⟨hawaited, hcounted _ hp'.counted⟩
  | error exc => exact fun _ _ _ => trivial

/-- A call of the backend, with what is logged. -/
theorem turns_call {block : SchedulerState → Answer → Except PyException α × SchedulerState}
    {note : SchedulerState → Answer → List BatchEvent → List BatchEvent}
    {K : Except PyException α → ℕ → List BatchEvent → Prop} {c : BackendCall}
    (hblock : ∀ s ans, (block s ans).2 = { s with backendCalls := s.backendCalls ++ [c] })
    (h : ∀ s ans log, Bounded cfg.maxDecodeBurst log → L s.decodeBurst log →
      Bounded cfg.maxDecodeBurst (note s ans log) ∧
        (∀ a, (block s ans).1 = .ok a → K (.ok a) s.decodeBurst (note s ans log)) ∧
        ∀ exc exc', (block s ans).1 = .error exc → K (.error exc') s.decodeBurst (note s ans log)) :
    Turns cfg L (catchingNoted (.atomic (Thread.noted note block))) K := by
  have hatomic : Triple (burstProtocol cfg) (Holds L) (.atomic (Thread.noted note block))
      (fun a => Holds (K (.ok a))) fun _ p => ∀ exc', Holds (K (.error exc')) p := by
    refine Triple.atomic (stable_holds L) (fun a => stable_holds _)
      (fun _ p p' hi hr hi' hp exc' => stable_holds _ p p' hi hr hi' (hp exc'))
      fun p ans hi hp _ => ?_
    obtain ⟨hbounded, hok, herror⟩ := h p.1 ans p.2 hi hp.counted
    have hburst : (block p.1 ans).2.decodeBurst = p.1.decodeBurst := by rw [hblock]
    have hawaited : Awaited (block p.1 ans).2 := by
      rw [hblock]
      exact hp.awaited.of_heap rfl rfl
    refine ⟨hbounded, fun a ha => ⟨hawaited, ?_⟩, fun exc hexc exc' => ⟨hawaited, ?_⟩⟩
    · show K (.ok a) (block p.1 ans).2.decodeBurst _
      rw [hburst]
      exact hok a ha
    · show K (.error exc') (block p.1 ans).2.decodeBurst _
      rw [hburst]
      exact herror exc exc' hexc
  refine Triple.tryCatch (F := fun _ p => ∀ exc', Holds (K (.error exc')) p) ?_ fun exc => ?_
  · exact Triple.bind (R := fun res => Holds (K res)) hatomic fun a =>
      Triple.pure (stable_holds _) fun _ _ hp => hp
  · exact Triple.ite (fun _ => Triple.pure (stable_holds _) fun _ _ hp => hp exc)
      fun _ _ _ _ _ _ _ => trivial

/-- The counter is at least the number of decode batches completed while it counted. -/
abbrev Counted : ℕ → List BatchEvent → Prop := CountedBy

/-- Another decode batch may complete. -/
def MayDecode (cfg : SchedulerConfig) (burst : ℕ) (log : List BatchEvent) : Prop :=
  CountedBy burst log ∧ ∃ n < cfg.maxDecodeBurst, CountedBy n log

theorem turns_prefillBatch : Turns cfg Counted (notedPrefillBatch cfg) fun _ => Counted := by
  have hE := tolerant_staysOut
  refine Triple.bind (turns_block (M := Counted) fun s ans picked hcoh ha hok => ?_)
    fun picked => Triple.ite (fun _ => turns_pure _) fun _ => ?_
  · obtain ⟨hawaited, hburst⟩ := awaited_prefillTake hcoh ha hok
    exact ⟨hawaited, fun log hl => by rw [hburst]; exact hl⟩
  refine Triple.bind (Q := fun _ => Holds fun _ log => CountedBy 0 log)
    (turns_call (fun s ans => prefillCallBlock_state _ s ans) fun s ans log hb _ => ?_)
    fun called => ?_
  · exact ⟨hb.concat (countedBy_started.mono (Nat.zero_le _)), fun _ _ => countedBy_started,
      fun _ _ _ => countedBy_started⟩
  match called with
  | .error exc =>
    exact (turns_aside (changes_forM (fun e => aside_end hE e _) _)).weaken (fun _ _ h => h)
      fun _ _ _ h => h.mono (Nat.zero_le _)
  | .ok outcomes =>
    refine Triple.bind (turns_block (M := Counted) fun s ans published _ ha _ => ?_)
      fun published => ?_
    · have happlied := awaited_applyPrefill ((picked.map Prod.fst).zip outcomes) s ha
      exact ⟨happlied.of_heap rfl rfl, fun log hl => hl.mono (Nat.zero_le _)⟩
    · refine Triple.bind (turns_aside (changes_forM (fun p => ?_) published)) fun _ =>
        turns_aside (changes_forM (fun e => aside_endReleasing hE e) _)
      exact aside_chargeAndPublish hE p.1 _ (p.2.processedTokens ≠ 0) _ _

theorem turns_decodeBatch : Turns cfg (MayDecode cfg) (notedDecodeBatch cfg) fun _ => Counted := by
  have hE := tolerant_staysOut
  refine Triple.bind (turns_within (changes_atomic steady_decodeTake)) fun picked => Triple.ite
    (fun _ => (turns_pure _).weaken (fun _ _ h => h.1) fun _ _ _ h => h) fun _ => ?_
  refine Triple.bind (turns_call (K := fun res burst log => match res with
      | .ok _ => CountedBy (burst + 1) log
      | .error _ => CountedBy burst log)
    (fun s ans => decodeCallBlock_state _ _ s ans) fun s ans log hb hl => ?_) fun called => ?_
  · obtain ⟨hcounted, n, hn, hcount⟩ := hl
    unfold noteDecode
    cases (decodeCallBlock picked.1 picked.2 s ans).1 with
    | ok outcomes =>
      exact ⟨hb.concat (hcount.completed.mono hn), fun _ _ => hcounted.completed,
        fun _ _ h => absurd h (by simp)⟩
    | error exc => exact ⟨hb, fun _ h => absurd h (by simp), fun _ _ _ => hcounted⟩
  match called with
  | .error exc => exact turns_aside (changes_forM (fun e => aside_end hE e _) _)
  | .ok outcomes =>
    refine Triple.bind (turns_block (M := Counted) fun s ans done _ ha hok => ?_) fun done => ?_
    · have hloop := awaited_applyDecodeLoop (picked.1.zip outcomes) s ha
      have hframe := congrArg SchedulerState.decodeBurst
        (applyDecodeLoop_frame (picked.1.zip outcomes) s)
      unfold applyDecode at hok ⊢
      generalize applyDecodeLoop (picked.1.zip outcomes) s = loop at hloop hframe hok
      rcases loop with ⟨exc | done', t⟩
      · exact absurd hok (by simp)
      · refine ⟨hloop.of_heap rfl rfl, fun log hl => ?_⟩
        show CountedBy (t.decodeBurst + 1) log
        rw [show t.decodeBurst = s.decodeBurst from hframe]
        exact hl
    · refine Triple.bind (turns_aside (changes_forM (fun p => ?_) done)) fun _ =>
        turns_aside (changes_forM (fun p => Confined.ite (fun _ => aside_end hE p.1 _)
          fun _ => aside_completeEntry hE (fun _ _ => ?_) p.1 _) _)
      · exact aside_chargeAndPublish hE p.1 _ (p.2.tokenIds ≠ []) _ _
      · exact ⟨rfl, fun hs => absurd hs (by simp [terminated]), id⟩

/-- What the decision leaves for a decode batch. -/
theorem turns_decision : Turns cfg Counted
    (.atomic (noted (fun s _ log => log ++ [.decided s]) (chooseBatchBlock cfg)))
    fun action burst log => CountedBy burst log ∧
      (action = some .decode → ∃ n < cfg.maxDecodeBurst, CountedBy n log) := by
  refine Triple.atomic (stable_holds _) (fun _ => stable_holds _) (fun _ => stable_anything)
    fun p ans hi hp hcoh => ⟨?_, fun action haction => ⟨?_, ?_, ?_⟩, fun _ _ => trivial⟩
  · exact Bounded.concat hi hi.counted.decided
  · exact (@steady_chooseBatch cfg p.1 ans).awaited hcoh hp.awaited
  · show CountedBy (chooseBatchBlock cfg p.1 ans).2.decodeBurst _
    rw [(@steady_chooseBatch cfg p.1 ans).burst]
    exact hp.counted.decided
  · rintro rfl
    -- below the bound while somebody waits, and counted anew while nobody does
    by_cases hwait : Prefilling p.1
    · exact ⟨p.1.decodeBurst, @chooseBatch_decode cfg p.1 ans hcoh hp.awaited hwait
        haction,
        hp.counted.decided⟩
    · exact ⟨0, cfg.burst_pos, countedBy_idle hwait⟩

/-- One pass through the loop. -/
theorem turns_iteration : Turns cfg Counted (notedIteration cfg) fun _ => Counted := by
  have hE := tolerant_staysOut
  refine Triple.bind (turns_aside (aside_processTerminalBoundaries hE)) fun ended => Triple.ite
    (fun _ => turns_pure _) fun _ => ?_
  refine Triple.bind (turns_within steady_openOne) fun opened => Triple.ite
    (fun _ => turns_pure _) fun _ => ?_
  refine Triple.bind turns_decision fun action => ?_
  match action with
  | some .decode =>
    refine Triple.bind (turns_decodeBatch.weaken (fun _ _ h => ?_) fun _ _ _ h => h)
      fun _ => turns_pure _
    exact ⟨h.1, h.2 rfl⟩
  | some .prefill =>
    exact Triple.bind (turns_prefillBatch.weaken (fun _ _ h => h.1) fun _ _ _ h => h)
      fun _ => turns_pure _
  | none =>
    exact (turns_within (changes_atomic steady_idleBlock)).weaken (fun _ _ h => h.1)
      fun _ _ _ h => h

/-- Every state of a run with the log is one of the scheduler. -/
theorem coherent_bursting (moves : List (Move Answer ClientOp)) :
    Coherent ((bursting cfg).run ((bursting cfg).start ({}, [])) moves).shared.1 := by
  have hallows : ∀ (moves : List (Move Answer ClientOp)) c,
      (scheduler cfg).Along (anyRun.AllowsMove cfg) c moves := by
    intro moves
    induction moves with
    | nil => exact fun _ => trivial
    | cons m rest ih =>
      refine fun c => ⟨?_, ih _⟩
      cases m with
      | worker ans => exact anyRun_allows c.shared ans _
      | client k =>
        cases k with
        | infer request metadata attemptId clock => exact False.elim
        | _ => trivial
  rw [System.run_erases bursting_erases {} [] moves]
  exact (sound_run (hallows moves (initial cfg))).coherent

/-- The clients neither log nor batch. -/
theorem client_burst (p : BurstState) (k : ClientOp) (hcoh : Coherent p.1) :
    (burstProtocol cfg).rely p ((bursting cfg).client k p) :=
  ⟨fun ha => ha.client (client_spec k hcoh).2, (client_worker k p.1).2, rfl⟩

/-- Every stretch of the log of a run is bounded. -/
theorem bounded_run (moves : List (Move Answer ClientOp)) :
    Bounded cfg.maxDecodeBurst (batchEvents cfg moves) := by
  let A : System.Annotation BurstState PyException :=
    { head := Holds Counted
      crash := fun _ _ => True
      entering := fun _ _ => True
      returned := fun _ => True
      handled := fun _ => True
      died := fun _ _ => True }
  have hpermits : ∀ (moves : List (Move Answer ClientOp)) c,
      (∀ ms, Coherent ((bursting cfg).run c ms).shared.1) →
        (bursting cfg).Along (System.Permits (burstProtocol cfg) A fun p _ => Coherent p.1) c
          moves := by
    intro moves
    induction moves with
    | nil => exact fun _ _ => trivial
    | cons m rest ih =>
      refine fun c hcoh => ⟨?_, ih _ fun ms => hcoh (m :: ms)⟩
      cases m with
      | client k => exact hcoh []
      | worker ans => exact System.permits_worker (S := bursting cfg) (fun _ _ => trivial) (hcoh [])
  have hempty : Bounded cfg.maxDecodeBurst [] := by
    intro stretch hs _
    rw [List.infix_nil.mp hs]
    exact Nat.zero_le _
  have hstart : Holds Counted ({}, []) := by
    refine ⟨fun e he => ?_, fun stretch hs _ => ?_⟩
    · rw [state_of_length_le (Nat.zero_le e)] at he
      exact absurd he (by simp)
    · rw [List.suffix_nil.mp hs]
      exact Nat.zero_le _
  refine (System.run_ok (S := bursting cfg) (C := burstProtocol cfg) (A := A)
    (K := fun p _ => Coherent p.1) (s := (({}, []) : BurstState)) ?_ (fun exc => ?_)
    (fun p k hi hcoh => ⟨hi, ?_⟩) hempty hstart (hpermits moves _ coherent_bursting)).1
  · refine turns_iteration.conseq (fun _ _ h => h) (fun again p _ h => ?_) fun _ _ _ h => h
    cases again with
    | true => exact h
    | false => trivial
  · -- the handler starts no batch
    refine (Confined.within (aside_crashHandler tolerant_staysOut exc) stable_anything
      fun s ans s' log hi _ _ _ => ⟨hi, trivial⟩).conseq (fun _ _ _ => trivial)
        (fun _ _ _ _ => trivial) fun _ _ _ _ => trivial
  · exact client_burst p k hcoh

end threads

/-- **Decode bursts are bounded**: over any stretch of a run that starts no prefill
batch, and at each batch decision of which a request is in state PREFILL, at most
`max_decode_burst` decode batches complete. -/
theorem decode_bursts_bounded (cfg : SchedulerConfig) (moves : List (Move Answer ClientOp))
    (stretch : List BatchEvent) (hstretch : stretch <:+: batchEvents cfg moves)
    (hwait : ∀ event ∈ stretch, event.Waits) :
    stretch.countP BatchEvent.isCompletion ≤ cfg.maxDecodeBurst :=
  bounded_run moves stretch hstretch hwait

/-! The prompt of the first request is done while that of the second is not, and both
decode batches that the bound allows complete before the next prefill batch. -/

theorem burst_progressed : DecodeOutcome.Valid .PROGRESSED [1] none none none := by decide

def burstAnswer (generation : ℕ) : Answer where
  openSequence := .ok (sampleHandle generation)
  prefillBatch := .ok [⟨sampleHandle 0, .READY, 8, 0⟩, ⟨sampleHandle 1, .PARTIAL, 8, 8⟩]
  decodeBatch := .ok [⟨sampleHandle 0, .PROGRESSED, [1], py "x", none, none, none, burst_progressed⟩]

def burstRun : List (Move Answer ClientOp) :=
  sampleInfer "a" (by decide) (by decide) (by decide) ::
  sampleInfer "b" (by decide) (by decide) (by decide) ::
  (List.replicate 14 (.worker (burstAnswer 0)) ++ List.replicate 54 (.worker (burstAnswer 1)))

theorem decode_bursts_bounded_reached :
    (((batchEvents sampleConfig burstRun).drop 2).take 5).countP BatchEvent.isCompletion = 2 ∧
    (((batchEvents sampleConfig burstRun).drop 2).take 5).countP BatchEvent.isCompletion ≤
      sampleConfig.maxDecodeBurst := by
  have hstretch : ((batchEvents sampleConfig burstRun).drop 2).take 5 <:+:
      batchEvents sampleConfig burstRun :=
    (List.take_prefix ..).isInfix.trans (List.drop_suffix ..).isInfix
  exact ⟨by decide +kernel, decode_bursts_bounded sampleConfig burstRun _ hstretch
    (by decide +kernel)⟩

end ContinuousBatchScheduler

end Inference
