/-
What the reference scheduler opens and releases for one request.

* `returnedIn`, `releasedIn` — the handles that the backend has given and been given back;
* `Recorded`, `Owned` — what the trace of a request says of its entry;
* `terminalize_owned`, `step_owned` — what is done for one entry keeps it;
* `step_returned` — only the step of an admitted entry asks for a sequence.
-/
import LlamaRuntime.Inference.SchedulerSimulator

namespace Inference.Simulator

/-! ### Traces -/

def Trace.returned? : Trace → Option SequenceHandle
  | .returned _ handle => some handle
  | _ => none

def Trace.released? : Trace → Option SequenceHandle
  | .release _ handle => some handle
  | _ => none

/-- The event is the last of its request. -/
def Trace.terminal : Trace → Bool
  | .event told => told.kind = .REQUEST_COMPLETED || told.kind = .REQUEST_FAILED
  | _ => false

/-- What `open_sequence` has returned -/
def returnedIn (trace : List Trace) : List SequenceHandle := trace.filterMap Trace.returned?

/-- What was passed to `release` -/
def releasedIn (trace : List Trace) : List SequenceHandle := trace.filterMap Trace.released?

def itemsOf (requestId : PyStr) (trace : List Trace) : List Trace :=
  trace.filter fun item => item.requestId = requestId

@[simp] theorem returnedIn_append (l m : List Trace) :
    returnedIn (l ++ m) = returnedIn l ++ returnedIn m := List.filterMap_append

@[simp] theorem releasedIn_append (l m : List Trace) :
    releasedIn (l ++ m) = releasedIn l ++ releasedIn m := List.filterMap_append

@[simp] theorem itemsOf_append (requestId : PyStr) (l m : List Trace) :
    itemsOf requestId (l ++ m) = itemsOf requestId l ++ itemsOf requestId m := List.filter_append ..

/-- An event that ends nothing -/
structure Told (requestId : PyStr) (item : Trace) : Prop where
  requestId : item.requestId = requestId
  returned : item.returned? = none
  released : item.released? = none
  open_ : item.terminal = false

theorem told_published {now : ℚ} {entry : Entry} {kind : SchedulerEventKind} {tokens : Option ℕ}
    {requestId : PyStr} (hrequest : entry.requestId = requestId) (h : kind ≠ .REQUEST_COMPLETED)
    (h' : kind ≠ .REQUEST_FAILED) :
    ∀ item ∈ [published now entry kind tokens], Told requestId item := by
  intro item hitem
  rw [List.mem_singleton.mp hitem]
  refine ⟨hrequest, rfl, rfl, ?_⟩
  show (decide (kind = .REQUEST_COMPLETED) || decide (kind = .REQUEST_FAILED)) = false
  rw [decide_eq_false h, decide_eq_false h']
  rfl

variable {caps : Capabilities} {answers : Answers} {now : ℚ} {entry : Entry} {l m : List Trace}

/-! ### What the trace of a request says -/

/-- The trace ends with a terminal event, and has no other. -/
def Ended (l : List Trace) : Prop :=
  ∃ pre last, l = pre ++ [last] ∧ last.terminal = true ∧ ∀ item ∈ pre, item.terminal = false

/-- The entry is what its trace says, also while a handle is being refused. -/
structure Recorded (caps : Capabilities) (entry : Entry) (l : List Trace) : Prop where
  own : ∀ item ∈ l, item.requestId = entry.requestId
  stored : ∀ h, entry.handle = some h → caps.matches h ∧ returnedIn l = [h]
  refused : entry.handle = none → ∀ h ∈ returnedIn l, ¬ caps.matches h
  released : releasedIn l = if entry.releaseAttempted then entry.handle.toList else []
  attempted : entry.releaseAttempted = true → entry.handle.isSome = true
  admitted : entry.lifecycle = .ADMITTED → entry.handle = none
  opened : entry.lifecycle ≠ .ADMITTED → entry.lifecycle ≠ .TERMINAL → entry.handle.isSome = true
  live : entry.lifecycle ≠ .TERMINAL → ∀ item ∈ l, item.terminal = false
  ended : entry.lifecycle = .TERMINAL → Ended l
  settled : entry.lifecycle = .TERMINAL → entry.handle.isSome = true → entry.releaseAttempted = true

/-- Between two calls: an entry that is still admitted has been given no handle. -/
structure Owned (caps : Capabilities) (entry : Entry) (l : List Trace) : Prop
    extends Recorded caps entry l where
  fresh : entry.lifecycle = .ADMITTED → returnedIn l = []

theorem Recorded.owned (h : Recorded caps entry l) (hlifecycle : entry.lifecycle ≠ .ADMITTED) :
    Owned caps entry l := ⟨h, fun hadmitted => absurd hadmitted hlifecycle⟩

/-- Events that end nothing may be told of an entry that lives, and its steps counted. -/
theorem Recorded.tell (h : Recorded caps entry l) (hlive : entry.lifecycle ≠ .TERMINAL)
    (hm : ∀ item ∈ m, Told entry.requestId item) : Recorded caps entry (l ++ m) := by
  have hreturned : returnedIn m = [] :=
    List.filterMap_eq_nil_iff.mpr fun item hitem => (hm item hitem).returned
  have hreleased : releasedIn m = [] :=
    List.filterMap_eq_nil_iff.mpr fun item hitem => (hm item hitem).released
  constructor
  · intro item hitem
    rcases List.mem_append.mp hitem with hitem | hitem
    · exact h.own item hitem
    · exact (hm item hitem).requestId
  · rw [returnedIn_append, hreturned, List.append_nil]
    exact h.stored
  · rw [returnedIn_append, hreturned, List.append_nil]
    exact h.refused
  · rw [releasedIn_append, hreleased, List.append_nil]
    exact h.released
  · exact h.attempted
  · exact h.admitted
  · exact h.opened
  · intro _ item hitem
    rcases List.mem_append.mp hitem with hitem | hitem
    · exact h.live hlive item hitem
    · exact (hm item hitem).open_
  · exact fun hterminal => absurd hterminal hlive
  · exact h.settled

/-! ### Releasing -/

/-- What `release` does to an entry and adds to its trace. -/
theorem release_cases (answers : Answers) (now : ℚ) (entry : Entry) :
    ((release answers now entry).2.entry = entry ∧ (release answers now entry).2.trace = [] ∧
      (release answers now entry).2.escaped = false ∧
      (entry.handle.isSome = true → entry.releaseAttempted = true)) ∨
    ∃ handle status told, entry.handle = some handle ∧ entry.releaseAttempted = false ∧
      (release answers now entry).2.entry =
        { entry with releaseAttempted := true, releaseStatus := status } ∧
      (release answers now entry).2.trace = .release entry.requestId handle :: told ∧
      ∀ item ∈ told, Told entry.requestId item := by
  unfold release
  cases hhandle : entry.handle with
  | none => exact .inl ⟨rfl, rfl, rfl, fun h => (nomatch h)⟩
  | some handle =>
    dsimp only
    cases hattempted : entry.releaseAttempted with
    | true => exact .inl ⟨rfl, rfl, rfl, fun _ => rfl⟩
    | false =>
      refine .inr ⟨handle, ?_⟩
      rw [if_neg Bool.false_ne_true]
      have hquiet : ∀ item ∈ ([] : List Trace), Told entry.requestId item :=
        fun item hitem => (nomatch hitem)
      cases answers.release handle with
      | raised isException =>
        cases isException
        · exact ⟨entry.releaseStatus, [], rfl, rfl, rfl, rfl, hquiet⟩
        · exact ⟨entry.releaseStatus, [], rfl, rfl, rfl, rfl, hquiet⟩
      | other => exact ⟨entry.releaseStatus, [], rfl, rfl, rfl, rfl, hquiet⟩
      | returned answer =>
        obtain ⟨about, status⟩ := answer
        dsimp only
        split_ifs with habout hconfirmed
        · exact ⟨entry.releaseStatus, [], rfl, rfl, rfl, rfl, hquiet⟩
        · refine ⟨some status, [_], rfl, rfl, rfl, rfl, told_published rfl ?_ ?_⟩
          · decide
          · decide
        · exact ⟨some status, [], rfl, rfl, rfl, rfl, hquiet⟩

/-- A release is recorded, and the handle of an entry is released with it. -/
theorem recorded_release (h : Recorded caps entry l) (hlive : entry.lifecycle ≠ .TERMINAL)
    (answers : Answers) (now : ℚ) :
    Recorded caps (release answers now entry).2.entry (l ++ (release answers now entry).2.trace) ∧
      (release answers now entry).2.entry.lifecycle = entry.lifecycle ∧
      (release answers now entry).2.entry.handle = entry.handle ∧
      (release answers now entry).2.entry.requestId = entry.requestId ∧
      ((release answers now entry).2.entry.handle.isSome = true →
        (release answers now entry).2.entry.releaseAttempted = true) := by
  rcases release_cases answers now entry with ⟨hentry, htrace, -, hattempted⟩ |
    ⟨handle, status, told, hhandle, hattempted, hentry, htrace, htold⟩
  · rw [hentry, htrace, List.append_nil]
    exact ⟨h, rfl, rfl, rfl, hattempted⟩
  · rw [hentry, htrace]
    refine ⟨?_, rfl, rfl, rfl, fun _ => rfl⟩
    have hcalled : Recorded caps { entry with releaseAttempted := true, releaseStatus := status }
        (l ++ [.release entry.requestId handle]) := by
      have hreleased := h.released
      rw [hattempted] at hreleased
      constructor
      · intro item hitem
        rcases List.mem_append.mp hitem with hitem | hitem
        · exact h.own item hitem
        · rw [List.mem_singleton.mp hitem]
          rfl
      · intro k hk
        obtain ⟨hmatches, hreturned⟩ := h.stored k hk
        refine ⟨hmatches, ?_⟩
        rw [returnedIn_append, hreturned]
        rfl
      · intro hnone
        exact absurd (hhandle.symm.trans hnone) (by simp)
      · rw [releasedIn_append, hreleased]
        show [handle] = entry.handle.toList
        rw [hhandle]
        rfl
      · intro _
        exact Option.isSome_of_eq_some hhandle
      · exact h.admitted
      · exact h.opened
      · intro hne item hitem
        rcases List.mem_append.mp hitem with hitem | hitem
        · exact h.live hne item hitem
        · rw [List.mem_singleton.mp hitem]
          rfl
      · exact fun hterminal => absurd hterminal hlive
      · exact fun _ _ => rfl
    rw [List.append_cons]
    exact hcalled.tell hlive htold

/-! ### Terminal events -/

theorem conclude_cases (now : ℚ) (termination : Termination) (errorCode : Option PyStr)
    (entry : Entry) : (conclude now termination errorCode entry).1 = { entry with
        lifecycle := .TERMINAL, termination := some termination, terminalAt := some now } ∧
      (conclude now termination errorCode entry).2.requestId = entry.requestId ∧
      (conclude now termination errorCode entry).2.returned? = none ∧
      (conclude now termination errorCode entry).2.released? = none ∧
      (conclude now termination errorCode entry).2.terminal = true := by
  unfold conclude
  dsimp only
  split_ifs
  · exact ⟨rfl, rfl, rfl, rfl, rfl⟩
  · exact ⟨rfl, rfl, rfl, rfl, rfl⟩

/-- The last event of an entry whose handle was released. -/
theorem recorded_conclude (h : Recorded caps entry l) (hlive : entry.lifecycle ≠ .TERMINAL)
    (hreleased : entry.handle.isSome = true → entry.releaseAttempted = true) (now : ℚ)
    (termination : Termination) (errorCode : Option PyStr) :
    Owned caps (conclude now termination errorCode entry).1
      (l ++ [(conclude now termination errorCode entry).2]) := by
  obtain ⟨hentry, hrequest, hreturned, hreleased?, hterminal⟩ :=
    conclude_cases now termination errorCode entry
  have hreturnedIn : returnedIn [(conclude now termination errorCode entry).2] = [] := by
    simp [returnedIn, hreturned]
  have hreleasedIn : releasedIn [(conclude now termination errorCode entry).2] = [] := by
    simp [releasedIn, hreleased?]
  rw [hentry]
  refine Recorded.owned ⟨?_, ?_, ?_, ?_, h.attempted, ?_, ?_, ?_, ?_, ?_⟩ (by simp)
  · intro item hitem
    rcases List.mem_append.mp hitem with hitem | hitem
    · exact h.own item hitem
    · rw [List.mem_singleton.mp hitem]
      exact hrequest
  · rw [returnedIn_append, hreturnedIn, List.append_nil]
    exact h.stored
  · rw [returnedIn_append, hreturnedIn, List.append_nil]
    exact h.refused
  · rw [releasedIn_append, hreleasedIn, List.append_nil]
    exact h.released
  · exact fun hadmitted => (nomatch hadmitted)
  · exact fun _ hne => absurd rfl hne
  · exact fun hne => absurd rfl hne
  · exact fun _ => ⟨l, _, rfl, hterminal, h.live hlive⟩
  · exact fun _ => hreleased

/-- Whatever is refused or fails, the request ends with its handle released. -/
theorem terminalize_owned (h : Recorded caps entry l) (answers : Answers) (now : ℚ)
    (termination : Termination) (errorCode : Option PyStr) :
    Owned caps (terminalize answers now termination errorCode entry).entry
      (l ++ (terminalize answers now termination errorCode entry).trace) ∧
    (terminalize answers now termination errorCode entry).entry.requestId = entry.requestId := by
  unfold terminalize
  by_cases hterminal : entry.lifecycle = .TERMINAL
  · rw [if_pos hterminal]
    dsimp only
    rw [List.append_nil]
    exact ⟨h.owned (by rw [hterminal]; decide), rfl⟩
  · rw [if_neg hterminal]
    obtain ⟨hrecorded, hlifecycle, hhandle, hrequest, hattempted⟩ := recorded_release h hterminal answers now
    dsimp only
    by_cases hescaped : (release answers now entry).2.escaped = true
    · rw [if_pos hescaped]
      refine ⟨hrecorded.owned fun hadmitted => ?_, hrequest⟩
      -- only the release of a handle can raise, and an admitted entry has none
      rcases release_cases answers now entry with ⟨-, -, hquiet, -⟩ | ⟨handle, _, _, hsome, -⟩
      · rw [hquiet] at hescaped
        cases hescaped
      · have hnone := h.admitted (hlifecycle.symm.trans hadmitted)
        rw [hsome] at hnone
        cases hnone
    · rw [if_neg hescaped]
      dsimp only
      rw [← List.append_assoc]
      refine ⟨recorded_conclude hrecorded ?_ hattempted _ _ _, ?_⟩
      · rw [hlifecycle]
        exact hterminal
      · rw [(conclude_cases _ _ _ _).1]
        exact hrequest

/-! ### One step -/

theorem fail_owned (h : Recorded caps entry (l ++ m)) (answers : Answers) (now : ℚ) :
    Owned caps (fail answers now entry m).entry (l ++ (fail answers now entry m).trace) ∧
      (fail answers now entry m).entry.requestId = entry.requestId := by
  have hended := terminalize_owned h answers now .BACKEND_ERROR
    (some (py "backend_operation_failed"))
  unfold fail
  dsimp only
  rw [← List.append_assoc]
  exact hended

/-- Counting a step changes nothing that is recorded. -/
theorem advance_owned {served : Served} (h : Owned caps served.entry (l ++ served.trace))
    (action : TickAction) :
    Owned caps (advance served action).entry (l ++ (advance served action).trace) ∧
      (advance served action).entry.requestId = served.entry.requestId := by
  unfold advance
  split_ifs
  · exact ⟨h, rfl⟩
  · exact ⟨⟨⟨h.own, h.stored, h.refused, h.released, h.attempted, h.admitted, h.opened, h.live,
      h.ended, h.settled⟩, h.fresh⟩, rfl⟩

/-- A handle that is not in use is stored, or it is refused and the request ends. -/
theorem openSequence_owned (h : Owned caps entry l) (hadmitted : entry.lifecycle = .ADMITTED)
    {inUse : SequenceHandle → Bool}
    (hfree : ∀ handle, answers.openSequence = .returned handle → inUse handle = false) :
    Owned caps (openSequence caps answers now inUse entry).entry
        (l ++ (openSequence caps answers now inUse entry).trace) ∧
      (openSequence caps answers now inUse entry).entry.requestId = entry.requestId := by
  have hrecorded : Recorded caps entry (l ++ []) := by
    rw [List.append_nil]
    exact h.toRecorded
  have hnone := h.admitted hadmitted
  have hattempted : entry.releaseAttempted = false := by
    by_contra htrue
    have hsome := h.attempted (by simpa using htrue)
    rw [hnone] at hsome
    cases hsome
  unfold openSequence
  cases hanswer : answers.openSequence with
  | other => exact fail_owned hrecorded answers now
  | raised isException =>
    cases isException
    · dsimp only
      rw [List.append_nil]
      exact ⟨h, rfl⟩
    · exact fail_owned hrecorded answers now
  | returned handle =>
    dsimp only
    rw [hfree handle hanswer]
    have hown : ∀ item ∈ l ++ [.returned entry.requestId handle],
        item.requestId = entry.requestId := by
      intro item hitem
      rcases List.mem_append.mp hitem with hitem | hitem
      · exact h.own item hitem
      · rw [List.mem_singleton.mp hitem]
        rfl
    have hreturned : returnedIn (l ++ [.returned entry.requestId handle]) = [handle] := by
      rw [returnedIn_append, h.fresh hadmitted]
      rfl
    have hreleased : releasedIn (l ++ [.returned entry.requestId handle]) = [] := by
      rw [releasedIn_append, h.released, hattempted]
      rfl
    have hlive : ∀ item ∈ l ++ [.returned entry.requestId handle], item.terminal = false := by
      intro item hitem
      rcases List.mem_append.mp hitem with hitem | hitem
      · exact h.live (by rw [hadmitted]; decide) item hitem
      · rw [List.mem_singleton.mp hitem]
        rfl
    by_cases hmatches : caps.matches handle
    · rw [if_neg (by simp [hmatches])]
      have hstored : Recorded caps { entry with handle := some handle, lifecycle := .PREFILLING }
          (l ++ [.returned entry.requestId handle]) := by
        refine ⟨hown, ?_, fun h => (nomatch h), ?_, fun _ => rfl, fun h => (nomatch h),
          fun _ _ => rfl, fun _ => hlive, fun h => (nomatch h), fun h => (nomatch h)⟩
        · intro k hk
          obtain rfl := Option.some_inj.mp hk
          exact ⟨hmatches, hreturned⟩
        · rw [hreleased, hattempted]
          rfl
      have hopened := hstored.tell (fun h => (nomatch h))
        (@told_published now _ .SEQUENCE_OPENED none _ rfl (by decide) (by decide))
      rw [List.append_assoc] at hopened
      exact advance_owned (hopened.owned fun h => (nomatch h)) _
    · rw [if_pos (.inl hmatches)]
      refine fail_owned ⟨hown, ?_, ?_, ?_, h.attempted, h.admitted, h.opened, fun _ => hlive, ?_, h.settled⟩
        answers now
      · intro k hk
        rw [hnone] at hk
        cases hk
      · intro _ k hk
        rw [hreturned] at hk
        rwa [List.mem_singleton.mp hk]
      · rw [hreleased, hattempted]
        rfl
      · intro hterminal
        rw [hadmitted] at hterminal
        cases hterminal

/-- What a step makes of an exception, where nothing was written before it -/
theorem fail_recorded (h : Recorded caps entry l) (answers : Answers) (now : ℚ) :
    Owned caps (fail answers now entry []).entry (l ++ (fail answers now entry []).trace) ∧
      (fail answers now entry []).entry.requestId = entry.requestId :=
  fail_owned (by rwa [List.append_nil]) answers now

/-- From one phase to another -/
theorem Recorded.relabel (h : Recorded caps entry l) (hadmitted : entry.lifecycle ≠ .ADMITTED)
    (hlive : entry.lifecycle ≠ .TERMINAL) {lifecycle : Lifecycle} (hadmitted' : lifecycle ≠ .ADMITTED)
    (hlive' : lifecycle ≠ .TERMINAL) : Recorded caps { entry with lifecycle } l :=
  ⟨h.own, h.stored, h.refused, h.released, h.attempted, fun heq => absurd heq hadmitted',
    fun _ _ => h.opened hadmitted hlive, fun _ => h.live hlive, fun heq => absurd heq hlive',
    fun heq => absurd heq hlive'⟩

theorem prefill_owned (h : Owned caps entry l) (hprefilling : entry.lifecycle = .PREFILLING) :
    Owned caps (prefill caps answers now entry).entry
        (l ++ (prefill caps answers now entry).trace) ∧
      (prefill caps answers now entry).entry.requestId = entry.requestId := by
  have hfail := fail_recorded h.toRecorded answers now
  have hadmitted : entry.lifecycle ≠ .ADMITTED := by
    rw [hprefilling]
    decide
  have hlive : entry.lifecycle ≠ .TERMINAL := by
    rw [hprefilling]
    decide
  unfold prefill
  split
  · exact hfail
  · next handle hhandle =>
    split
    · rw [List.append_nil]
      exact ⟨h, rfl⟩
    · exact hfail
    · exact hfail
    · next outcome houtcome =>
      split
      · exact hfail
      · have htold : ∀ item ∈ [published now entry .PREFILL_COMPLETED
            (some outcome.processedTokens)], Told entry.requestId item := by
          refine told_published rfl ?_ ?_
          · decide
          · decide
        have hrecorded := h.toRecorded.tell hlive htold
        refine advance_owned (Recorded.owned ?_ ?_) _
        · dsimp only
          split
          · exact hrecorded.relabel hadmitted hlive (fun h => (nomatch h)) (fun h => (nomatch h))
          · exact hrecorded
        · dsimp only
          split
          · exact fun h => (nomatch h)
          · exact hadmitted

theorem finish_owned (h : Recorded caps entry l) (answers : Answers) (now : ℚ)
    (hadmitted : entry.lifecycle ≠ .ADMITTED) (outcome : DecodeOutcome) :
    Owned caps (finish answers now outcome entry).entry
        (l ++ (finish answers now outcome entry).trace) ∧
      (finish answers now outcome entry).entry.requestId = entry.requestId := by
  unfold finish
  split
  · rw [List.append_nil]
    exact ⟨h.owned hadmitted, rfl⟩
  · exact terminalize_owned h answers now _ _
  · exact terminalize_owned h answers now _ _

theorem decode_owned (h : Owned caps entry l) (hdecoding : entry.lifecycle = .DECODING) :
    Owned caps (decode caps answers now entry).entry
        (l ++ (decode caps answers now entry).trace) ∧
      (decode caps answers now entry).entry.requestId = entry.requestId := by
  have hfail := fail_recorded h.toRecorded answers now
  have hadmitted : entry.lifecycle ≠ .ADMITTED := by
    rw [hdecoding]
    decide
  have hlive : entry.lifecycle ≠ .TERMINAL := by
    rw [hdecoding]
    decide
  unfold decode
  split
  · exact hfail
  · next handle hhandle =>
    split
    · rw [List.append_nil]
      exact ⟨h, rfl⟩
    · exact hfail
    · exact hfail
    · next outcome houtcome =>
      split
      · exact hfail
      · have htold : ∀ item ∈ [published now entry .DECODE_COMPLETED
            (some outcome.tokenIds.length)], Told entry.requestId item := by
          refine told_published rfl ?_ ?_
          · decide
          · decide
        have hrecorded := h.toRecorded.tell hlive htold
        obtain ⟨howned, hrequest⟩ := finish_owned hrecorded answers now hadmitted outcome
        rw [List.append_assoc] at howned
        have hserved : ∀ {served : Served}, Owned caps served.entry (l ++ served.trace) →
            served.entry.requestId = entry.requestId →
            Owned caps (advance served .DECODE).entry (l ++ (advance served .DECODE).trace) ∧
              (advance served .DECODE).entry.requestId = entry.requestId := by
          intro served howned hrequest
          obtain ⟨hadvanced, hsame⟩ := advance_owned howned .DECODE
          exact ⟨hadvanced, hsame.trans hrequest⟩
        exact hserved howned hrequest

/-- **One step keeps what is recorded of an entry.** -/
theorem step_owned (h : Owned caps entry l) (now : ℚ) {inUse : SequenceHandle → Bool}
    (hfree : entry.lifecycle = .ADMITTED →
      ∀ handle, answers.openSequence = .returned handle → inUse handle = false) :
    Owned caps (step caps answers now inUse entry).entry
        (l ++ (step caps answers now inUse entry).trace) ∧
      (step caps answers now inUse entry).entry.requestId = entry.requestId := by
  unfold step
  split
  · next hlifecycle => exact openSequence_owned h hlifecycle (hfree hlifecycle)
  · next hlifecycle => exact prefill_owned h hlifecycle
  · next hlifecycle => exact decode_owned h hlifecycle
  · exact fail_recorded h.toRecorded answers now

/-! ### What is returned -/

/-- What the backend offers, where it is asked for a sequence. -/
def Answers.offered (answers : Answers) : List SequenceHandle :=
  match answers.openSequence with
  | .returned handle => [handle]
  | _ => []

theorem Answers.offered_length (answers : Answers) : answers.offered.length ≤ 1 := by
  unfold offered
  split <;> simp

theorem terminalize_returned (answers : Answers) (now : ℚ) (termination : Termination)
    (errorCode : Option PyStr) (entry : Entry) :
    returnedIn (terminalize answers now termination errorCode entry).trace = [] := by
  have hrelease : returnedIn (release answers now entry).2.trace = [] := by
    rcases release_cases answers now entry with ⟨-, htrace, -⟩ |
      ⟨handle, status, told, -, -, -, htrace, htold⟩
    · rw [htrace]
      rfl
    · rw [htrace]
      exact List.filterMap_eq_nil_iff.mpr fun item hitem => by
        rcases List.mem_cons.mp hitem with rfl | hitem
        · rfl
        · exact (htold item hitem).returned
  unfold terminalize
  dsimp only
  split
  · rfl
  · split
    · exact hrelease
    · dsimp only
      rw [returnedIn_append, hrelease, List.nil_append]
      simp [returnedIn, (conclude_cases _ _ _ _).2.2.1]

theorem fail_returned (answers : Answers) (now : ℚ) (entry : Entry) (trace : List Trace) :
    returnedIn (fail answers now entry trace).trace = returnedIn trace := by
  unfold fail
  dsimp only
  rw [returnedIn_append, terminalize_returned, List.append_nil]

theorem advance_trace (served : Served) (action : TickAction) :
    (advance served action).trace = served.trace := by
  unfold advance
  split_ifs
  · rfl
  · rfl

theorem openSequence_returned (inUse : SequenceHandle → Bool) (entry : Entry) :
    returnedIn (openSequence caps answers now inUse entry).trace = answers.offered := by
  unfold openSequence Answers.offered
  cases answers.openSequence with
  | other => exact fail_returned ..
  | raised isException =>
    cases isException
    · rfl
    · exact fail_returned ..
  | returned handle =>
    dsimp only
    split_ifs
    · exact fail_returned ..
    · rw [advance_trace]
      rfl

theorem prefill_returned (entry : Entry) :
    returnedIn (prefill caps answers now entry).trace = [] := by
  unfold prefill
  split
  · exact fail_returned ..
  · split
    · rfl
    · exact fail_returned ..
    · exact fail_returned ..
    · split
      · exact fail_returned ..
      · dsimp only
        rw [advance_trace]
        rfl

theorem finish_returned (outcome : DecodeOutcome) (entry : Entry) :
    returnedIn (finish answers now outcome entry).trace = [] := by
  unfold finish
  split
  · rfl
  · exact terminalize_returned ..
  · exact terminalize_returned ..

theorem decode_returned (entry : Entry) :
    returnedIn (decode caps answers now entry).trace = [] := by
  unfold decode
  split
  · exact fail_returned ..
  · split
    · rfl
    · exact fail_returned ..
    · exact fail_returned ..
    · next outcome _ =>
      split_ifs
      · exact fail_returned ..
      · rw [advance_trace]
        show returnedIn (finish answers now outcome entry).trace = []
        exact finish_returned ..

/-- Only the step of an admitted entry asks for a sequence. -/
theorem step_returned (inUse : SequenceHandle → Bool) (entry : Entry) :
    returnedIn (step caps answers now inUse entry).trace =
      if entry.lifecycle = .ADMITTED then answers.offered else [] := by
  unfold step
  cases entry.lifecycle with
  | ADMITTED => exact openSequence_returned ..
  | PREFILLING => exact prefill_returned ..
  | DECODING => exact decode_returned ..
  | TERMINAL => exact fail_returned ..

end Inference.Simulator
