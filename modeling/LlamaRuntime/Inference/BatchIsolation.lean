/-
Batches of pairwise distinct sequences.

`_process_terminal_boundaries` ends a request without taking its id out of the
deques, and the id can be reused as soon as its `infer` call has returned.  An
entry that joins a deque in which its id is still waiting is in there twice, and
`_take_state_locked` selects it twice.

* `reused_id_not_isolated` — a run in which this happens: the batch holds the
  new request twice, next to the unrelated request in front of it;
* `batches_isolated` — as long as no entry joins a deque that holds its id, and
  the backend does not hand out a handle that is in use, every batch of every
  run consists of pairwise distinct sequences.
-/
import LlamaRuntime.Inference.LoopInvariant

namespace Inference

open RuntimeRequestState SchedulerState

namespace ContinuousBatchScheduler

variable {cfg : SchedulerConfig} {s s' : SchedulerState}

/-- An action of the worker appends no id to a deque that holds it, and opens no
sequence under a handle in use. -/
def KeepsOrder (cfg : SchedulerConfig) (c : Config SchedulerState Answer PyException) :
    Move Answer ClientOp → Prop
  | .client _ => True
  | .worker ans =>
    Requeues c.shared ((scheduler cfg).step c (.worker ans)).shared ∧
      FreshHandle c.shared ans ((scheduler cfg).step c (.worker ans)).shared

/-! Only entries that exist are opening or in flight, so the condition can be
tested on a run. -/

theorem requeues_iff : Requeues s s' ↔
    (∀ e < s.heap.length, (s.entry e).state = OPENING → (s'.entry e).state = PREFILL →
      s.requestId e ∉ s.prefill) ∧
    ∀ e < s.heap.length, (s.entry e).state = PREFILL_INFLIGHT → (s'.entry e).state = DECODE →
      s.requestId e ∉ s.decode := by
  constructor
  · exact fun h => ⟨fun e _ => h.1 e, fun e _ => h.2 e⟩
  · rintro ⟨h1, h2⟩
    refine ⟨fun e ho => ?_, fun e hi => ?_⟩
    · exact h1 e (lt_length_of_state (by rw [ho]; decide)) ho
    · exact h2 e (lt_length_of_state (by rw [hi]; decide)) hi

instance : Decidable (Requeues s s') := decidable_of_iff' _ requeues_iff

/-- The last call, if the action has added one that opens a sequence. -/
def openedNow (s s' : SchedulerState) : Prop :=
  match s'.backendCalls.getLast? with
  | some (.openSequence e) => s'.backendCalls = s.backendCalls ++ [.openSequence e]
  | _ => False

instance : Decidable (openedNow s s') := by
  unfold openedNow
  split <;> infer_instance

theorem openedNow_iff :
    openedNow s s' ↔ ∃ e, s'.backendCalls = s.backendCalls ++ [.openSequence e] := by
  unfold openedNow
  constructor
  · intro h
    split at h
    · exact ⟨_, h⟩
    · exact h.elim
  · rintro ⟨e, h⟩
    rw [h]
    simp

theorem freshHandle_iff {ans : Answer} : FreshHandle s ans s' ↔
    match ans.openSequence with
    | .error _ => True
    | .ok handle => openedNow s s' → ∀ e' < s.heap.length,
        (s.entry e').state ≠ TERMINAL → (s.entry e').handle ≠ some handle := by
  unfold FreshHandle
  cases hans : ans.openSequence with
  | error exc => simp
  | ok handle =>
    dsimp only
    rw [openedNow_iff]
    constructor
    · rintro h ⟨e, he⟩
      exact h e handle he rfl
    · intro h e handle' he heq
      obtain rfl := Except.ok.inj heq
      exact h ⟨e, he⟩

instance {ans : Answer} : Decidable (FreshHandle s ans s') :=
  have : Decidable (match ans.openSequence with
    | .error _ => True
    | .ok handle => openedNow s s' → ∀ e' < s.heap.length,
        (s.entry e').state ≠ TERMINAL → (s.entry e').handle ≠ some handle) := by
    split <;> infer_instance
  decidable_of_iff' _ freshHandle_iff

instance (c : Config SchedulerState Answer PyException) (m : Move Answer ClientOp) :
    Decidable (KeepsOrder cfg c m) := by
  cases m <;> unfold KeepsOrder <;> infer_instance

/-! ### The property and the run that breaks it -/

/-- **Batch isolation.**  In a run that keeps the order of the deques every batch
the backend gets consists of pairwise distinct sequences. -/
theorem batches_isolated {moves : List (Move Answer ClientOp)}
    (h : (scheduler cfg).Along (KeepsOrder cfg) (initial cfg) moves) :
    ∀ call ∈ ((scheduler cfg).run (initial cfg) moves).shared.backendCalls, call.Isolated := by
  have hregime : (scheduler cfg).Along
      (Regime.AllowsMove ⟨True, True, False, False.elim⟩ cfg) (initial cfg) moves := by
    refine h.mono fun c m hm => ?_
    cases m with
    | client k =>
      cases k with
      | infer _ _ _ _ => exact fun hd => hd.elim
      | wake _ => trivial
      | cancel _ => trivial
      | shutdown => trivial
    | worker ans => exact ⟨fun _ => .inr hm.1, fun _ => hm.2⟩
  exact (sound_run hregime).batches trivial trivial

/-- Two requests, opened one after the other, are prefilled together. -/
def pairRun : List (Move Answer ClientOp) :=
  [sampleInfer "left" (by decide) (by decide) (by decide),
    sampleInfer "right" (by decide) (by decide) (by decide)] ++
  sampleWork 12 1 ++ sampleWork 12 2 ++ sampleWork 6 3

theorem pairRun_isolated :
    (.prefillBatch [⟨sampleHandle 1, 32⟩, ⟨sampleHandle 2, 32⟩] : BackendCall) ∈
      ((scheduler sampleConfig).run (initial sampleConfig) pairRun).shared.backendCalls ∧
    ∀ call ∈ ((scheduler sampleConfig).run (initial sampleConfig) pairRun).shared.backendCalls,
      call.Isolated :=
  ⟨by decide +kernel, batches_isolated (by decide +kernel)⟩

/-- A request is cancelled while its id waits behind another one; the id is used
again after its `infer` call has returned. -/
def reusedIdRun : List (Move Answer ClientOp) :=
  [sampleInfer "head" (by decide) (by decide) (by decide)] ++ sampleWork 12 1 ++
  [sampleInfer "reused" (by decide) (by decide) (by decide)] ++ sampleWork 12 2 ++
  [.client (.cancel (py "reused"))] ++ sampleWork 13 0 ++
  [.client (.wake 1), sampleInfer "reused" (by decide) (by decide) (by decide)] ++
  sampleWork 12 3 ++ sampleWork 6 4

/-- The batch of the last action holds the sequence of the new request twice, and
the backend's check turns it down as a whole. -/
theorem reused_id_not_isolated :
    ∃ steps, (.prefillBatch steps : BackendCall) ∈
        ((scheduler sampleConfig).run (initial sampleConfig) reusedIdRun).shared.backendCalls ∧
      ¬ BackendCall.Isolated (.prefillBatch steps) ∧
      validateSequenceBatch steps 4 64
        = .error (.validation "steps" "must not contain duplicate sequence handles") :=
  ⟨[⟨sampleHandle 1, 21⟩, ⟨sampleHandle 3, 21⟩, ⟨sampleHandle 3, 22⟩], by decide +kernel,
    by decide +kernel, by decide +kernel⟩

end ContinuousBatchScheduler

end Inference
