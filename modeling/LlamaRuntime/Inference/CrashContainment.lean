/-
Containment of a crash of the scheduler loop.

The `except BaseException` clause of `_run` ends every request that is left and
then marks the scheduler as stopped.  It runs the code that may just have
failed, outside any further handler.

* `AllEnded` — what the clause is there for: the scheduler is stopped, every
  request is terminal with one outcome, nobody waits, later calls are refused;
* `crash_not_contained` — a clock that stays invalid ends the clause itself;
* `crash_contained` — the clause reaches `AllEnded` if it finds no request half
  terminalized, is not interrupted by what it calls, and no request slips in
  between its list of requests and the mark.
-/
import LlamaRuntime.Inference.LoopInvariant

namespace Inference

open RuntimeRequestState SchedulerState

namespace ContinuousBatchScheduler

variable {cfg : SchedulerConfig} {s s' : SchedulerState}

/-! ### What is assumed of the cleanup -/

/-- An action of the cleanup gets no exception that an `except Exception` clause
lets through, and a valid clock where it makes an entry terminal. -/
structure Harmless (s : SchedulerState) (ans : Answer) (s' : SchedulerState) : Prop where
  clock : ∀ exc, ans.clock 0 = .raises exc → exc.isException = true
  sink : ∀ exc, ans.sink = some exc → exc.isException = true
  release : ∀ exc, ans.release = .error exc → exc.isException = true
  terminal : (∃ e, (s.entry e).state ≠ TERMINAL ∧ (s'.entry e).state = TERMINAL) →
    ∃ now, (ans.clock 0).now = .ok now

/-- No live entry has been claimed for terminalization. -/
def Unclaimed (s : SchedulerState) : Prop :=
  ∀ e, (s.entry e).state ≠ TERMINAL → (s.entry e).terminalizing = false

/-- The moves under which a crash stays contained. -/
def Contains (cfg : SchedulerConfig) (c : Config SchedulerState Answer PyException) :
    Move Answer ClientOp → Prop
  | .client k =>
    -- from the cleanup's list of requests on, none is admitted
    c.shared.cleanup.isSome → (clientStep cfg k c.shared).heap.length = c.shared.heap.length
  | .worker ans =>
    (∀ exc, c.control = .looping (.raise exc) → Unclaimed c.shared) ∧
    (c.shared.cleanup.isSome →
      Harmless c.shared ans ((scheduler cfg).step c (.worker ans)).shared)

/-- What the cleanup is for. -/
structure AllEnded (cfg : SchedulerConfig) (s : SchedulerState) : Prop where
  stopped : s.stopped = true
  terminal : ∀ e < s.heap.length, (s.entry e).state = TERMINAL ∧ (s.entry e).Settled
  unblocked : ∀ e < s.heap.length, s.callers[e]? ≠ some .blocked
  returns : ∀ (e : ℕ) c, (wake e s).callers[e]? = some c → ¬ c.Waiting
  refused : ∀ request metadata attemptId clock, ∃ refusal,
    infer cfg request metadata attemptId clock s = (.error refusal, s)

/-! ### Rely and assumptions -/

/-- The run keeps the state coherent by itself; this group of results adds what
is assumed of the cleanup. -/
def containment : Thread.Protocol SchedulerState Answer where
  inv := fun _ => True
  rely s s' := ClientChange s s' ∧ (s.cleanup.isSome → s'.heap.length = s.heap.length)
  allow s ans s' := Coherent s ∧ (s.cleanup.isSome → Harmless s ans s')
  rely_refl := fun s => ⟨.refl s, fun _ => rfl⟩
  rely_trans := fun h h' => ⟨h.1.trans h'.1, fun hc =>
    (h'.2 (h.1.cleanup ▸ hc)).trans (h.2 hc)⟩

/-- The cleanup still has to end the entries `rest`; it has claimed `claimed`. -/
structure Ending (claimed : Option ℕ) (rest : List ℕ) (s : SchedulerState) : Prop where
  cleanup : s.cleanup.isSome = true
  unclaimed : ∀ e, some e ≠ claimed → (s.entry e).state ≠ TERMINAL →
    (s.entry e).terminalizing = false
  left : ∀ e < s.heap.length, (s.entry e).state ≠ TERMINAL → e ∈ rest
  inHeap : ∀ e ∈ rest, e < s.heap.length
  live : ∀ e, claimed = some e → (s.entry e).state ≠ TERMINAL

variable {claimed : Option ℕ} {rest : List ℕ} {e : ℕ}

theorem ClientChange.unclaimed (hc : ClientChange s s') {e : ℕ}
    (h : (s.entry e).state ≠ TERMINAL → (s.entry e).terminalizing = false) :
    (s'.entry e).state ≠ TERMINAL → (s'.entry e).terminalizing = false := by
  intro hl
  rw [hc.state] at hl
  by_cases he : e < s.heap.length
  · rw [hc.terminalizing he]
    exact h hl
  · by_cases he' : e < s'.heap.length
    · exact (hc.fresh e (not_lt.mp he) he').terminalizing
    · rw [entry, List.getD_eq_getElem?_getD, List.getElem?_eq_none (not_lt.mp he')]
      rfl

theorem stable_unclaimed : containment.Stable Unclaimed :=
  fun _ _ _ hc _ h e => ClientChange.unclaimed hc.1 (h e)

theorem stable_ending : containment.Stable (Ending claimed rest) := by
  intro s s' _ hc _ h
  have hlen : s'.heap.length = s.heap.length := hc.2 h.cleanup
  refine ⟨hc.1.cleanup ▸ h.cleanup, fun e he => ClientChange.unclaimed hc.1 (h.unclaimed e he),
    fun e he hl => h.left e (by omega) (hc.1.state e ▸ hl), fun e he => ?_, fun e he => ?_⟩
  · have := h.inHeap e he
    omega
  · rw [hc.1.state]
    exact h.live e he

theorem Ending.of_heap (h : Ending claimed rest s) (hheap : s'.heap = s.heap)
    (hcleanup : s'.cleanup = s.cleanup) : Ending claimed rest s' := by
  have hentry : ∀ e, s'.entry e = s.entry e := fun e => entry_congr hheap
  refine ⟨hcleanup ▸ h.cleanup, fun e => ?_, fun e => ?_, fun e => ?_, fun e => ?_⟩
  · rw [hentry]
    exact h.unclaimed e
  · rw [hentry, hheap]
    exact h.left e
  · rw [hheap]
    exact h.inHeap e
  · rw [hentry]
    exact h.live e

/-- An update of other fields of an entry. -/
theorem Ending.modify (h : Ending claimed rest s) (e : ℕ) {f : RequestEntry → RequestEntry}
    (hf : ∀ x, (f x).state = x.state ∧ (f x).terminalizing = x.terminalizing) :
    Ending claimed rest (s.modifyEntry e f) := by
  have hentry : ∀ e', ((s.modifyEntry e f).entry e').state = (s.entry e').state ∧
      ((s.modifyEntry e f).entry e').terminalizing = (s.entry e').terminalizing := by
    intro e'
    rw [entry_modifyEntry]
    split_ifs with hc
    · exact hc.1 ▸ hf _
    · exact ⟨rfl, rfl⟩
  have hlen : (s.modifyEntry e f).heap.length = s.heap.length := List.length_modify ..
  refine ⟨h.cleanup, fun e' he' => ?_, fun e' he' => ?_, fun e' he' => ?_, fun e' he' => ?_⟩
  · rw [(hentry e').1, (hentry e').2]
    exact h.unclaimed e' he'
  · rw [(hentry e').1]
    exact h.left e' (hlen ▸ he')
  · rw [hlen]
    exact h.inHeap e' he'
  · rw [(hentry e').1]
    exact h.live e' he'

/-- The entry is not live, so it need not be ended. -/
theorem Ending.skip (h : Ending none (e :: rest) s) (ht : (s.entry e).state = TERMINAL) :
    Ending none rest s := by
  refine ⟨h.cleanup, h.unclaimed, fun e' he' hl => ?_,
    fun e' he' => h.inHeap e' (List.mem_cons_of_mem _ he'), h.live⟩
  rcases List.mem_cons.mp (h.left e' he' hl) with rfl | hmem
  · exact absurd ht hl
  · exact hmem

/-- The entry is claimed. -/
theorem Ending.claim (h : Ending none (e :: rest) s) (hl : (s.entry e).state ≠ TERMINAL) :
    Ending (some e) (e :: rest) (s.modifyEntry e fun x => { x with terminalizing := true }) := by
  have hstate : ∀ e', ((s.modifyEntry e fun x => { x with terminalizing := true }).entry e').state
      = (s.entry e').state := by
    intro e'
    rw [entry_modifyEntry]
    split_ifs with hc
    · rw [hc.1]
    · rfl
  have hlen : (s.modifyEntry e fun x => { x with terminalizing := true }).heap.length
      = s.heap.length := List.length_modify ..
  refine ⟨h.cleanup, fun e' he' hl' => ?_, fun e' he' hl' => ?_, fun e' he' => ?_, fun e' he' => ?_⟩
  · rw [hstate] at hl'
    have hne : e ≠ e' := fun heq => he' (congrArg some heq.symm)
    rw [entry_modify_ne rfl hne]
    exact h.unclaimed e' (by simp) hl'
  · rw [hstate] at hl'
    exact h.left e' (hlen ▸ he') hl'
  · rw [hlen]
    exact h.inHeap e' he'
  · obtain rfl := Option.some_inj.mp he'
    rw [hstate]
    exact hl

/-- The claimed entry is terminal now. -/
theorem Ending.commit (h : Ending (some e) (e :: rest) s) {f : RequestEntry → RequestEntry}
    (hf : ∀ x, (f x).state = TERMINAL) : Ending none rest (s.modifyEntry e f) := by
  have he : e < s.heap.length := h.inHeap e List.mem_cons_self
  have hself : ((s.modifyEntry e f).entry e).state = TERMINAL := by
    rw [entry_modifyEntry_self he, hf]
  have hlen : (s.modifyEntry e f).heap.length = s.heap.length := List.length_modify ..
  refine ⟨h.cleanup, fun e' _ hl => ?_, fun e' he' hl => ?_, fun e' he' => ?_,
    fun e' he' => absurd he' (by simp)⟩
  · have hne : e ≠ e' := by
      rintro rfl
      exact hl hself
    rw [entry_modify_ne rfl hne] at hl ⊢
    exact h.unclaimed e' (fun heq => hne (Option.some_inj.mp heq).symm) hl
  · have hne : e ≠ e' := by
      rintro rfl
      exact hl hself
    rw [entry_modify_ne rfl hne] at hl
    rcases List.mem_cons.mp (h.left e' (hlen ▸ he') hl) with heq | hmem
    · exact absurd heq.symm hne
    · exact hmem
  · rw [hlen]
    exact h.inHeap e' (List.mem_cons_of_mem _ he')

/-! ### The cleanup, block by block -/

section cleanup

open Thread hiding pure bind tryCatch

variable {ans : Answer}

/-- No exception escapes, and the cleanup is as far as before. -/
abbrev Quiet (P : SchedulerState → Prop) {α : Type} (t : Worker α) (Q : SchedulerState → Prop) :
    Prop :=
  Triple containment P t (fun _ => Q) fun _ _ => False

theorem Harmless.now (h : Harmless s ans s') {exc : PyException}
    (hnow : (ans.clock 0).now = .error exc) : exc.isException = true := by
  cases hclock : ans.clock 0 with
  | finite t =>
    rw [hclock, ClockReading.now] at hnow
    split_ifs at hnow
    obtain rfl := Except.error.inj hnow
    rfl
  | nonfinite =>
    rw [hclock] at hnow
    obtain rfl := Except.error.inj hnow
    rfl
  | raises exc' =>
    rw [hclock] at hnow
    obtain rfl := Except.error.inj hnow
    exact h.clock _ hclock

theorem Harmless.publishBlock (h : Harmless s ans s') {kind : SchedulerEventKind}
    {handle : Option SequenceHandle} {tokens : Option ℕ} {errorCode : Option PyStr}
    {exc : PyException}
    (hexc : (publishBlock e kind handle tokens errorCode s ans).1 = .error exc) :
    exc.isException = true := by
  unfold ContinuousBatchScheduler.publishBlock at hexc
  cases hnow : (ans.clock 0).now with
  | error exc' =>
    rw [hnow] at hexc
    obtain rfl := Except.error.inj hexc
    exact h.now hnow
  | ok now =>
    rw [hnow] at hexc
    dsimp only at hexc
    split at hexc
    · obtain rfl := Except.error.inj hexc
      rfl
    · split at hexc
      · rename_i hsink
        obtain rfl := Except.error.inj hexc
        exact h.sink _ hsink
      · exact absurd hexc (by simp)

theorem Harmless.releaseBlock (h : Harmless s ans s') {handle : SequenceHandle}
    {exc : PyException} (hexc : (releaseBlock handle s ans).1 = .error exc) :
    exc.isException = true := by
  unfold ContinuousBatchScheduler.releaseBlock at hexc
  cases hrelease : ans.release with
  | error exc' =>
    rw [hrelease] at hexc
    obtain rfl := Except.error.inj hexc
    exact h.release _ hrelease
  | ok status =>
    rw [hrelease] at hexc
    dsimp only at hexc
    split_ifs at hexc
    obtain rfl := Except.error.inj hexc
    rfl

theorem stable_raised {P : SchedulerState → Prop} (hP : containment.Stable P) (exc : PyException) :
    containment.Stable fun s => exc.isException = true ∧ P s :=
  fun s s' hi hc hi' h => ⟨h.1, hP s s' hi hc hi' h.2⟩

theorem stable_false : containment.Stable fun _ => False := fun _ _ _ _ _ h => h

theorem quiet_modify {P Q : SchedulerState → Prop} {f : SchedulerState → SchedulerState}
    (hP : containment.Stable P) (hQ : containment.Stable Q) (h : ∀ s, P s → Q (f s)) :
    Quiet P (.modify f : Worker Unit) Q :=
  Triple.modify hP hQ fun s _ _ hp _ => ⟨trivial, h s hp⟩

theorem quiet_keep {P : SchedulerState → Prop} {f : SchedulerState → SchedulerState}
    (hP : containment.Stable P) (h : ∀ s, P s → P (f s)) : Quiet P (.modify f : Worker Unit) P :=
  quiet_modify hP hP h

theorem quiet_publish (e : ℕ) (kind : SchedulerEventKind) (handle : Option SequenceHandle)
    (tokens : Option ℕ) (errorCode : Option PyStr) :
    Quiet (Ending claimed rest) (publish e kind handle tokens errorCode) (Ending claimed rest) := by
  refine Triple.tryCatch (F := fun exc s => exc.isException = true ∧ Ending claimed rest s)
    (Triple.atomic stable_ending (fun _ => stable_ending) (stable_raised stable_ending)
      fun s ans _ h ha => ?_) fun exc => ?_
  · have hkeep : Ending claimed rest (publishBlock e kind handle tokens errorCode s ans).2 := by
      rcases publishBlock_cases e kind handle tokens errorCode s ans with
        ⟨_, heq⟩ | ⟨_, _, _, heq⟩ <;> rw [heq]
      · exact h
      · exact h.of_heap rfl rfl
    exact ⟨trivial, fun _ _ => hkeep,
      fun exc hexc => ⟨(ha.2 h.cleanup).publishBlock hexc, hkeep⟩⟩
  · refine Triple.ite (fun _ => ?_) fun hexc s _ h => absurd h.1 hexc
    refine quiet_modify (stable_raised stable_ending exc) stable_ending fun s h => ?_
    exact h.2.of_heap rfl rfl

theorem quiet_ensureAdmitted (e : ℕ) :
    Quiet (Ending claimed rest) (ensureAdmitted e) (Ending claimed rest) := by
  refine Triple.bind (Q := fun _ => Ending claimed rest)
    (Triple.read stable_ending (fun _ => stable_ending) fun _ _ h => h) fun sent => ?_
  refine Triple.ite (fun _ => Triple.pure stable_ending fun _ _ h => h) fun _ => ?_
  refine Triple.bind (quiet_publish e _ _ _ _) fun _ => ?_
  exact quiet_keep stable_ending fun s h => h.modify e fun _ => ⟨rfl, rfl⟩

/-- The claimed entry is ended. -/
theorem quiet_commitTerminal (e : ℕ) (outcome : Except InferenceRuntimeError GenerateResult) :
    Quiet (Ending (some e) (e :: rest)) (.atomic (commitTerminal e outcome)) (Ending none rest) := by
  refine Triple.atomic stable_ending (fun _ => stable_ending) (fun _ => stable_false)
    fun s ans _ h ha => ⟨trivial, ?_⟩
  have he : e < s.heap.length := h.inHeap e List.mem_cons_self
  have hharmless := ha.2 h.cleanup
  rcases commitTerminal_spec e outcome s ans with ⟨exc, hclock, heq⟩ | ⟨now, sel, _, heq⟩
  · -- the clock is valid when an entry becomes terminal
    rw [heq] at hharmless
    obtain ⟨now, hnow⟩ := hharmless.terminal ⟨e, h.live e rfl, by
      rw [entry_modifyEntry_self he]
      rfl⟩
    rw [hclock] at hnow
    exact absurd hnow (by simp)
  · rw [heq]
    refine ⟨fun _ _ => ?_, fun exc hexc => absurd hexc (by simp)⟩
    have hdone := (h.commit (f := terminated outcome) fun _ => rfl).modify e
      (f := fun x => { x with terminalAt := some now }) fun _ => ⟨rfl, rfl⟩
    exact hdone.of_heap rfl rfl

theorem quiet_terminalize (e : ℕ) (result : Option GenerateResult)
    (error : Option InferenceRuntimeError) :
    Quiet (Ending none (e :: rest)) (terminalize e result error) (Ending none rest) := by
  refine Triple.bind (quiet_ensureAdmitted e) fun _ => Triple.bind
    (quiet_keep stable_ending fun s h => ?_) fun _ => ?_
  · split_ifs
    · exact h.modify e fun _ => ⟨rfl, rfl⟩
    · exact h
  -- no live entry has been claimed, so an entry that cannot be claimed is terminal
  refine Triple.bind (Q := fun answer s => answer.elim (Ending none rest s) fun _ =>
      Ending (some e) (e :: rest) s) ?_ fun answer => ?_
  · refine Triple.atomic stable_ending (fun answer => ?_) (fun _ => stable_false)
      fun s ans _ h _ => ⟨trivial, ?_⟩
    · cases answer with
      | none => exact stable_ending
      | some _ => exact stable_ending
    rcases claimTerminal_spec e result error s ans with ⟨heq, hdone⟩ | ⟨heq, hl, _⟩
    · rw [heq]
      refine ⟨fun answer hans => ?_, fun exc hexc => absurd hexc (by simp)⟩
      obtain rfl := Except.ok.inj hans
      refine h.skip (hdone.elim id fun hflag => ?_)
      by_contra hl
      rw [h.unclaimed e (by simp) hl] at hflag
      exact absurd hflag (by simp)
    · rw [heq]
      refine ⟨fun answer hans => ?_, fun exc hexc => absurd hexc (by simp)⟩
      obtain rfl := Except.ok.inj hans
      exact h.claim hl
  cases answer with
  | none => exact Triple.pure stable_ending fun _ _ h => h
  | some outcome =>
    refine Triple.bind (quiet_keep stable_ending fun s h => ?_) fun _ => ?_
    · split_ifs
      · exact h.of_heap rfl rfl
      · exact h
    have hpublish : Quiet (Ending (some e) (e :: rest)) (publishOutcome e outcome)
        (Ending (some e) (e :: rest)) := by
      cases outcome with
      | ok _ => exact quiet_publish e _ _ _ _
      | error _ => exact quiet_publish e _ _ _ _
    exact Triple.bind hpublish fun _ => Triple.bind (quiet_commitTerminal e outcome) fun _ =>
      Triple.pure stable_ending fun _ _ h => h

/-- The next entry of the list is ended. -/
theorem quiet_releaseAndTerminalize (e : ℕ) (error : Option InferenceRuntimeError) :
    Quiet (Ending none (e :: rest)) (releaseAndTerminalize e none error) (Ending none rest) := by
  refine Triple.bind (Q := fun _ => Ending none (e :: rest))
    (Triple.read stable_ending (fun _ => stable_ending) fun _ _ h => h) fun handle => ?_
  have hflag : Quiet (Ending none (e :: rest)) (.modify fun s => s.modifyEntry e
      fun x => { x with resourceReleaseConfirmed := true } : Worker Unit)
      (Ending none (e :: rest)) :=
    quiet_keep stable_ending fun s h => h.modify e fun _ => ⟨rfl, rfl⟩
  have hend : ∀ err, Quiet (Ending none (e :: rest))
      (do let _ ← terminalize e none err : Worker Unit) (Ending none rest) := fun err =>
    Triple.bind (quiet_terminalize e none err) fun _ => Triple.pure stable_ending fun _ _ h => h
  cases handle with
  | none => exact Triple.bind hflag fun _ => hend error
  | some handle =>
    refine Triple.bind (triple_catching (Q := fun _ => Ending none (e :: rest))
      (E := fun exc s => exc.isException = true ∧ Ending none (e :: rest) s)
      (fun _ => stable_ending) (stable_raised stable_ending)
      (fun exc s hexc h => absurd h.1 (by simp [hexc])) ?_) fun released => ?_
    · refine Triple.bind (Q := fun _ => Ending none (e :: rest)) (Triple.atomic stable_ending
        (fun _ => stable_ending) (stable_raised stable_ending) fun s ans _ h ha => ?_) fun _ => ?_
      · have hkeep : Ending none (e :: rest) (releaseBlock handle s ans).2 := by
          rw [releaseBlock_state]
          exact h.of_heap rfl rfl
        exact ⟨trivial, fun _ _ => hkeep,
          fun exc hexc => ⟨(ha.2 h.cleanup).releaseBlock hexc, hkeep⟩⟩
      · exact Triple.conseq (Triple.bind hflag fun _ => quiet_publish e _ _ _ _)
          (fun _ _ h => h) (fun _ _ _ h => h) fun _ _ _ h => h.elim
    · cases released with
      | ok _ =>
        exact hend error
      | error exc =>
        exact Triple.conseq (hend _) (fun _ _ h => h.1.2) (fun _ _ _ h => h) fun _ _ _ h => h

/-- Everything has been ended, and every caller has been told so. -/
structure Ended (s : SchedulerState) : Prop where
  stopped : s.stopped = true
  terminal : ∀ e < s.heap.length, (s.entry e).state = TERMINAL
  unblocked : ∀ e < s.heap.length, s.callers[e]? ≠ some .blocked

theorem stable_ended : containment.Stable Ended := by
  intro s s' _ hc _ h
  have hlen : s'.heap.length = s.heap.length := hc.1.refused h.stopped
  refine ⟨hc.1.stopped.trans h.stopped, fun e he => ?_, fun e he => ?_⟩
  · rw [hc.1.state]
    exact h.terminal e (hlen ▸ he)
  · exact hc.1.unblocked e (hlen ▸ he) (h.terminal e (hlen ▸ he)) (h.unblocked e (hlen ▸ he))

/-- The cleanup's list holds every live entry. -/
theorem Ending.start (hcoh : Coherent s) (h : Unclaimed s) :
    Ending none s.liveEntries { s with cleanup := some s.liveEntries } := by
  refine ⟨rfl, fun e _ hl => h e hl, fun e he hl => ?_, fun e he => ?_,
    fun e he => absurd he (by simp)⟩
  · have hget := hcoh.get?_of_live he hl
    refine List.mem_filter.mpr ⟨?_, live_iff.mpr hl⟩
    exact List.mem_map.mpr ⟨_, Dict.mem_items_iff.mpr hget, rfl⟩
  · exact (mem_heap_of_values hcoh (List.mem_of_mem_filter he)).1

theorem quiet_failAll (error : InferenceRuntimeError) :
    Quiet Unclaimed (failAll error) (Ending none []) := by
  refine Triple.bind (Q := fun entries => Ending none entries) (Triple.atomic stable_unclaimed
    (fun _ => stable_ending) (fun _ => stable_false) fun s ans _ h ha => ?_) fun entries => ?_
  · refine ⟨trivial, fun entries hent => ?_, fun exc hexc => absurd hexc (by simp)⟩
    obtain rfl := Except.ok.inj hent
    exact Ending.start ha.1 h
  · exact Triple.forM (P := fun rest => Ending none rest) stable_ending
      (fun e rest => quiet_releaseAndTerminalize e (some error)) entries

/-- The clause ends every request it finds. -/
theorem quiet_crashHandler (exc : PyException) : Quiet Unclaimed (crashHandler exc) Ended := by
  refine Triple.bind (quiet_keep stable_unclaimed fun s h => h) fun _ => Triple.bind (quiet_failAll _) fun _ => ?_
  refine quiet_modify stable_ending stable_ended fun s h => ⟨rfl, fun e he => ?_, fun e _ hb => ?_⟩
  · by_contra hl
    exact absurd (h.left e he hl) (by simp)
  · rw [notifyAll, List.getElem?_map] at hb
    obtain ⟨c, _, hc⟩ := Option.map_eq_some_iff.mp hb
    cases c <;> exact absurd hc (by simp [Caller.notify])

end cleanup

/-! ### What the callers and later calls see -/

theorem wake_not_waiting (hcoh : Coherent s) (hlt : e < s.heap.length)
    (ht : (s.entry e).state = TERMINAL) (hb : s.callers[e]? ≠ some .blocked) {c : Caller}
    (hc : (wake e s).callers[e]? = some c) : ¬ c.Waiting := by
  rcases wake_cases e s hcoh with heq | ⟨_, hl, _⟩ | ⟨outcome, hw, _, hout, _, heq⟩
  · -- a notified caller of a terminal entry would have left
    cases c with
    | blocked =>
      rw [heq] at hc
      exact absurd hc hb
    | woken =>
      have hwoken : s.callers[e]? = some .woken := heq ▸ hc
      have hlen : e < s.callers.length := hcoh.callers_length ▸ hlt
      have hset : (wake e s).callers[e]? ≠ some .woken := by
        rw [wake, hwoken]
        dsimp only
        rw [if_pos ht, List.getElem?_set_self hlen]
        cases (s.entry e).error with
        | some err => simp
        | none => cases (s.entry e).result <;> simp
      exact absurd hc hset
    | returned _ => exact id
    | raised _ => exact id
  · exact absurd ht hl
  · have hlen : e < s.callers.length := (List.getElem?_eq_some_iff.mp hw).1
    rw [heq] at hc
    have hc' : (s.callers.set e outcome)[e]? = some c := hc
    rw [List.getElem?_set_self hlen] at hc'
    obtain rfl := Option.some_inj.mp hc'
    exact hout

theorem Ended.allEnded (h : Ended s) (hcoh : Coherent s) : AllEnded cfg s where
  stopped := h.stopped
  terminal := fun e he => ⟨h.terminal e he, hcoh.settled e he (h.terminal e he)⟩
  unblocked := h.unblocked
  returns := by
    intro e c hc
    by_cases he : e < s.heap.length
    · exact wake_not_waiting hcoh he (h.terminal e he) (h.unblocked e he) hc
    · have hnone : s.callers[e]? = none :=
        List.getElem?_eq_none (by rw [hcoh.callers_length]; omega)
      rw [wake, hnone] at hc
      exact absurd (hnone ▸ hc) (by simp)
  refused := by
    intro request metadata attemptId clock
    rcases @infer_cases cfg request metadata attemptId clock s with
      hrefused | ⟨_, _, _, _, _, _, hrunning, _⟩
    · exact hrefused
    · exact absurd h.stopped (by simp [hrunning])

/-! ### Runs -/

section runs

variable {moves : ℕ → Move Answer ClientOp}

theorem coherent_trace (n : ℕ) :
    Coherent ((scheduler cfg).trace (initial cfg) moves n).shared := by
  refine (sound_run (r := ⟨False, False, False, False.elim⟩)
    (System.along_trace (fun n => ?_) n)).coherent
  cases moves n with
  | worker ans => exact ⟨False.elim, False.elim⟩
  | client k => cases k <;> first | exact False.elim | trivial

def cleanupOutline : System.Annotation SchedulerState PyException where
  head := fun _ => True
  crash := fun _ _ => True
  entering := fun _ => Unclaimed
  returned := fun _ => True
  handled := Ended
  died := fun _ _ => False

theorem ok_trace (hm : ∀ n, Contains cfg ((scheduler cfg).trace (initial cfg) moves n) (moves n))
    (n : ℕ) :
    System.Ok containment cleanupOutline ((scheduler cfg).trace (initial cfg) moves n) := by
  refine System.run_ok (S := scheduler cfg) (C := containment) (A := cleanupOutline)
    (K := fun s k => Coherent s ∧
      (s.cleanup.isSome → (clientStep cfg k s).heap.length = s.heap.length))
    ?_ (fun exc => ?_) (fun s k _ hk => ?_) trivial trivial (System.along_trace (fun n => ?_) n)
  · -- nothing is asked of the loop
    refine Thread.Triple.trivial (fun _ => trivial) (fun again s => ?_) fun _ _ => trivial
    cases again <;> trivial
  · exact Thread.Triple.conseq (quiet_crashHandler exc) (fun _ _ h => h.2) (fun _ _ _ h => h)
      fun _ _ _ h => h
  · exact ⟨trivial, (client_spec k hk.1).2, hk.2⟩
  · have hn := hm n
    cases hmv : moves n with
    | client k =>
      rw [hmv] at hn
      exact ⟨coherent_trace n, hn⟩
    | worker ans =>
      rw [hmv] at hn
      exact System.permits_worker hn.1 ⟨coherent_trace n, hn.2⟩

/-- **Containment.**  Whatever ended the loop, the scheduler comes to rest with
every request ended, every caller told, and later calls refused. -/
theorem crash_contained (hfair : ∀ n, ∃ m, n ≤ m ∧ System.IsWorker (moves m))
    (hm : ∀ n, Contains cfg ((scheduler cfg).trace (initial cfg) moves n) (moves n))
    {n : ℕ} {exc : PyException}
    (hcrash : ((scheduler cfg).trace (initial cfg) moves n).control = .looping (.raise exc)) :
    ∃ m, n ≤ m ∧ ∀ k, m ≤ k →
      AllEnded cfg ((scheduler cfg).trace (initial cfg) moves k).shared := by
  obtain ⟨m₁, hle₁, hhandling⟩ := System.enters_handling hfair hcrash
  obtain ⟨m₂, hle₂, hover⟩ := System.leaves_handling hfair _ m₁ hhandling
  have hhandled : ((scheduler cfg).trace (initial cfg) moves m₂).control = .handled := by
    rcases hover with hhandled | ⟨exc', hdied⟩
    · exact hhandled
    · -- no exception escapes from the clause
      obtain ⟨_, hok⟩ := ok_trace hm m₂
      rw [hdied] at hok
      exact (hok _ (containment.rely_refl _) trivial).elim
  refine ⟨m₂, by omega, fun k hk => ?_⟩
  have hrest := System.trace_induction (P := fun c => c.control = .handled)
    (fun c m hc => by
      cases m with
      | client _ => exact hc
      | worker _ =>
        rw [System.step]
        simp only [hc]) hhandled k hk
  obtain ⟨_, hok⟩ := ok_trace hm k
  rw [hrest] at hok
  exact (hok _ (containment.rely_refl _) trivial).allEnded (coherent_trace k)

end runs

/-! ### Runs on a clock that fails -/

instance (c : Option Caller) : Decidable (c = some .blocked) :=
  match c with
  | some .blocked => isTrue rfl
  | none => isFalse (by simp)
  | some .woken => isFalse (by simp)
  | some (.returned _) => isFalse (by simp)
  | some (.raised _) => isFalse (by simp)

/-- A request is admitted; the next reading of the clock is invalid. -/
def clockFailsOnce : ℕ → Move Answer ClientOp
  | 0 => sampleInfer "kept" (by decide) (by decide) (by decide)
  | 1 => .worker { clock := fun _ => .nonfinite }
  | _ + 2 => .worker {}

/-- The worker has left the loop. -/
def pastLoop (c : Config SchedulerState Answer PyException) : Bool :=
  match c.control with
  | .looping _ => false
  | _ => true

theorem pastLoop_step (c : Config SchedulerState Answer PyException) (m : Move Answer ClientOp)
    (h : pastLoop c = true) : pastLoop ((scheduler cfg).step c m) = true := by
  obtain ⟨s, control⟩ := c
  cases m with
  | client _ => exact h
  | worker ans =>
    match control, h with
    | .handling (.pure _), _ => rfl
    | .handling (.raise _), _ => rfl
    | .handling (.act _ _), _ => rfl
    | .returned, _ => rfl
    | .handled, _ => rfl
    | .died _, _ => rfl

theorem clockFailsOnce_contained : ∃ m, 2 ≤ m ∧ ∀ k, m ≤ k →
    AllEnded sampleConfig
      ((scheduler sampleConfig).trace (initial sampleConfig) clockFailsOnce k).shared := by
  have hfair : ∀ n, ∃ m, n ≤ m ∧ System.IsWorker (clockFailsOnce m) :=
    fun n => ⟨n + 2, by omega, by cases n <;> exact trivial⟩
  refine crash_contained hfair (fun n => ?_)
    (show ((scheduler sampleConfig).trace (initial sampleConfig) clockFailsOnce 2).control =
      .looping (.raise (.builtin "RuntimeError"
        "scheduler clock must be finite and non-negative")) from rfl)
  match n with
  | 0 => exact fun h => absurd h (by decide)
  | 1 => exact ⟨fun exc h => absurd h (by rintro ⟨⟩), fun h => absurd h (by decide +kernel)⟩
  | 2 =>
    refine ⟨fun _ _ e _ => ?_, fun h => absurd h (by decide +kernel)⟩
    have hlen : ((scheduler sampleConfig).trace (initial sampleConfig) clockFailsOnce
        2).shared.heap.length = 1 := by decide +kernel
    match e with
    | 0 => decide +kernel
    | e + 1 =>
      rw [entry, List.getD_eq_getElem?_getD, List.getElem?_eq_none (by omega)]
      rfl
  | n + 3 =>
    have hpast : pastLoop ((scheduler sampleConfig).trace (initial sampleConfig) clockFailsOnce
        (n + 3)) = true :=
      System.trace_induction (P := fun c => pastLoop c = true) pastLoop_step (n := 3)
        (by decide +kernel) (n + 3) (by omega)
    refine ⟨fun exc h => ?_, fun _ => ⟨fun _ h => absurd h (by simp), fun _ h => absurd h (by simp),
      fun _ h => absurd h (by simp), fun _ => ⟨0, rfl⟩⟩⟩
    rw [pastLoop, h] at hpast
    exact absurd hpast (by simp)

/-- A request is admitted, and the clock is invalid from then on. -/
def clockFails : ℕ → Move Answer ClientOp
  | 0 => sampleInfer "lost" (by decide) (by decide) (by decide)
  | _ + 1 => .worker { clock := fun _ => .nonfinite }

/-- The clause ends in an exception of its own: the scheduler is never marked as
stopped, the caller stays blocked, and another request is admitted. -/
theorem crash_not_contained :
    ((scheduler sampleConfig).trace (initial sampleConfig) clockFails 2).control =
      .looping (.raise (.builtin "RuntimeError" "scheduler clock must be finite and non-negative")) ∧
    ∀ k, 20 ≤ k →
      let s := ((scheduler sampleConfig).trace (initial sampleConfig) clockFails k).shared
      s.stopped = false ∧ s.callers[0]? = some .blocked ∧
        (infer sampleConfig sampleRequest ⟨py "next", py "workflow", py "agent", py "interactive", 1,
          none, isBoundedText_py (by decide) (by decide) (by decide), Nat.one_pos,
          one_le_maxSchedulingWeight⟩ []
          (.finite 0) s).1.toOption = some 1 := by
  refine ⟨rfl, fun k hk => ?_⟩
  -- the worker is gone, so nothing changes any more
  have hsame : (scheduler sampleConfig).trace (initial sampleConfig) clockFails k
      = (scheduler sampleConfig).trace (initial sampleConfig) clockFails 20 := by
    induction k, hk using Nat.le_induction with
    | base => rfl
    | succ k hk ih =>
      rw [System.trace_succ, ih]
      obtain ⟨j, rfl⟩ := Nat.exists_eq_add_of_le hk
      have hdied : ((scheduler sampleConfig).trace (initial sampleConfig) clockFails
          20).control.hasDied = true := by decide +kernel
      generalize (scheduler sampleConfig).trace (initial sampleConfig) clockFails 20 = c at hdied ⊢
      obtain ⟨s, control⟩ := c
      rw [show 20 + j = (19 + j) + 1 by omega]
      match control, hdied with
      | .died _, _ => rfl
  dsimp only
  rw [hsame]
  exact ⟨by decide +kernel, by decide +kernel, by decide +kernel⟩

end ContinuousBatchScheduler

end Inference
