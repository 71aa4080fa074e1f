/-
The text that a streamed request writes to its client.

The deltas pass from the frames of the worker to the events of the buffer, from
there into the hands of the connection's handler, and from there to the client.

* `deltaText` — the text of a list of events;
* `passed` — the events that have gone through the buffer or are still in it;
* `Flowing` — what holds of the three threads and of what they share;
* `text_delivered` — what a completed request has written and returned.
-/
import LlamaRuntime.Worker.Streaming

namespace Worker

open Json

/-- The deltas of the events, one after another. -/
def deltaText (events : List InferenceEvent) : PyStr := events.flatMap InferenceEvent.delta

theorem deltaText_append (xs ys : List InferenceEvent) :
    deltaText (xs ++ ys) = deltaText xs ++ deltaText ys := List.flatMap_append ..

theorem deltaText_singleton (event : InferenceEvent) : deltaText [event] = event.delta :=
  List.flatMap_singleton ..

/-- Telemetry has no text. -/
theorem delta_of_coalescible {event : InferenceEvent} (h : event.isCoalescible = true) :
    event.delta = [] := by
  unfold InferenceEvent.isCoalescible InferenceEvent.eventType at h
  unfold InferenceEvent.delta
  cases hpayload : event.payload with
  | finalDelta delta =>
    rw [hpayload] at h
    exact absurd h (by simp [EventPayload.eventType])
  | _ => rfl

theorem deltaText_essential (events : List InferenceEvent) :
    deltaText (BoundedRequestEventBuffer.essential events) = deltaText events := by
  induction events with
  | nil => rfl
  | cons event rest ih =>
    show deltaText (List.filter _ (event :: rest)) = event.delta ++ deltaText rest
    by_cases htelemetry : event.isCoalescible = true
    · rw [List.filter_cons_of_neg (by simp [htelemetry]), delta_of_coalescible htelemetry]
      exact ih
    · rw [List.filter_cons_of_pos (by simp [htelemetry])]
      show event.delta ++ deltaText (List.filter _ rest) = _
      rw [← ih]
      rfl

/-! ### The buffer -/

namespace BoundedRequestEventBuffer

variable {b : BoundedRequestEventBuffer} {event : InferenceEvent}

theorem enqueue_closed (b : BoundedRequestEventBuffer) (event : InferenceEvent) (coalesced : Bool) :
    (b.enqueue event coalesced).2.closed = b.closed := by
  unfold enqueue
  split_ifs <;> rfl

/-- What is not refused for being slow adds its text to the queue. -/
theorem enqueue_text {coalesced : Bool} (h : (b.enqueue event coalesced).1 ≠ .SLOW_CONSUMER) :
    deltaText (b.enqueue event coalesced).2.events = deltaText b.events ++ event.delta := by
  unfold enqueue at h ⊢
  by_cases hfits : b.Fits event
  · rw [if_pos hfits]
    show deltaText (b.events ++ [event]) = _
    rw [deltaText_append, deltaText_singleton]
  rw [if_neg hfits] at h ⊢
  by_cases htelemetry : event.isCoalescible = true
  · rw [if_pos htelemetry, delta_of_coalescible htelemetry, List.append_nil]
  · rw [if_neg htelemetry] at h
    exact absurd rfl h

theorem publish_closed (b : BoundedRequestEventBuffer) (event : InferenceEvent) :
    (b.publish event).2.closed = b.closed := by
  have hpublished := b.published event
  generalize b.publish event = result at hpublished
  cases hpublished with
  | refused => rfl
  | slow => rfl
  | taken b' coalesced slow sequence thinned telemetry =>
    have hclosed := congrArg BoundedRequestEventBuffer.closed thinned.others
    exact (b'.enqueue_closed event coalesced).trans hclosed

theorem publish_text {result : PublishResult} (h : (b.publish event).1 = .ok result)
    (hslow : result ≠ .SLOW_CONSUMER) (hclosed : b.closed = false) :
    deltaText (b.publish event).2.events = deltaText b.events ++ event.delta := by
  have hnot : result ≠ .CLOSED := by
    rintro rfl
    unfold publish at h
    rw [if_neg (by simp [hclosed])] at h
    cases hposition : b.validateStreamPosition event with
    | error e =>
      rw [hposition] at h
      exact nomatch h
    | ok u =>
      rw [hposition] at h
      dsimp only at h
      by_cases hb : b.slowConsumer = true
      · rw [if_pos hb] at h
        exact nomatch h
      · rw [if_neg hb] at h
        have hresult := Except.ok.inj h
        unfold enqueue at hresult
        split_ifs at hresult
  have hpublished := b.published event
  generalize b.publish event = r at hpublished h
  cases hpublished with
  | refused r quiet =>
    rcases quiet with rfl | ⟨e, rfl⟩
    · exact absurd (Except.ok.inj h).symm hnot
    · exact nomatch h
  | slow => exact absurd (Except.ok.inj h).symm hslow
  | taken b' coalesced slow sequence thinned telemetry =>
    obtain rfl := Except.ok.inj h
    show deltaText (b'.enqueue event coalesced).2.events = _
    rw [enqueue_text hslow, ← deltaText_essential b'.events, thinned.essential, deltaText_essential]

end BoundedRequestEventBuffer

/-! ### The frames -/

section

variable {F : Type}

theorem eventTypeOf_eq {frame : Frame F} {t : InferenceEventType}
    (h : eventTypeOf (frame.get "type") = some t) : frame.text "type" = py t.value := by
  unfold eventTypeOf at h
  show (frame.get "type").bind Value.str? = _
  cases htext : (frame.get "type").bind Value.str? with
  | none =>
    rw [htext] at h
    exact nomatch h
  | some s =>
    rw [htext] at h
    have hs := List.find?_some h
    rw [decide_eq_true_iff] at hs
    rw [hs]

theorem make_payload {fields : EventFields F} {event : InferenceEvent}
    (h : InferenceEvent.make fields = .ok event) : validatePayload fields = .ok event.payload := by
  unfold InferenceEvent.make at h
  split at h
  · exact nomatch h
  split at h
  · exact nomatch h
  split at h
  · exact nomatch h
  split at h
  · exact nomatch h
  split at h
  · exact nomatch h
  · next _ hpayload _ _ =>
    obtain rfl := Except.ok.inj h
    exact hpayload

theorem validatePayload_type {fields : EventFields F} {payload : EventPayload}
    (h : validatePayload fields = .ok payload) : payload.eventType = fields.eventType := by
  unfold validatePayload at h
  cases htype : fields.eventType with
  | STARTED =>
    rw [htype] at h
    dsimp only at h
    split at h
    · exact nomatch h
    · rw [← Except.ok.inj h]
      rfl
  | PHASE =>
    rw [htype] at h
    dsimp only [bind, Except.bind] at h
    split at h
    · exact nomatch h
    split at h
    · exact nomatch h
    · rw [← Except.ok.inj h]
      rfl
  | FINAL_DELTA =>
    rw [htype] at h
    dsimp only at h
    split at h
    · split at h
      · exact nomatch h
      split at h
      · exact nomatch h
      · rw [← Except.ok.inj h]
        rfl
    · exact nomatch h
  | PROGRESS =>
    rw [htype] at h
    dsimp only [bind, Except.bind] at h
    split at h
    · exact nomatch h
    split at h
    · exact nomatch h
    split at h
    · exact nomatch h
    · rw [← Except.ok.inj h]
      rfl
  | HEARTBEAT =>
    rw [htype] at h
    dsimp only [bind, Except.bind] at h
    split at h
    · exact nomatch h
    split at h
    · exact nomatch h
    · rw [← Except.ok.inj h]
      rfl

theorem validatePayload_finalDelta {fields : EventFields F} {payload : EventPayload}
    (h : validatePayload fields = .ok payload) (htype : fields.eventType = .FINAL_DELTA) :
    ∃ delta, fields.delta = .str delta ∧ payload = .finalDelta delta := by
  unfold validatePayload at h
  rw [htype] at h
  dsimp only at h
  split at h
  · next delta hdelta =>
    split at h
    · exact nomatch h
    split at h
    · exact nomatch h
    · exact ⟨delta, hdelta, (Except.ok.inj h).symm⟩
  · exact nomatch h

/-- The event of a frame has the text of its delta, and the events of other frames
have none. -/
theorem fromIpcFrame_delta {frame : Frame F} {event : InferenceEvent}
    (h : fromIpcFrame frame = .ok event) :
    event.delta =
      if frame.text "type" = py "final_delta" then (frame.text "delta").getD [] else [] := by
  unfold fromIpcFrame at h
  split at h
  · exact nomatch h
  cases htype : eventTypeOf (frame.get "type") with
  | none =>
    rw [htype] at h
    exact nomatch h
  | some t =>
    rw [htype] at h
    dsimp only at h
    split at h
    · exact nomatch h
    have hpayload := make_payload h
    have ht := validatePayload_type hpayload
    rw [eventTypeOf_eq htype]
    unfold InferenceEvent.delta
    by_cases hdelta : t = .FINAL_DELTA
    · obtain ⟨delta, hfield, hevent⟩ := validatePayload_finalDelta hpayload hdelta
      rw [if_pos (by rw [hdelta]; rfl), hevent]
      -- the field is the frame's, if it is a text at all
      have htext : frame.text "delta" = some delta := by
        show (frame.get "delta").bind Value.str? = _
        cases hget : frame.get "delta" with
        | none =>
          rw [hget] at hfield
          exact nomatch hfield
        | some value =>
          rw [hget] at hfield
          obtain rfl : value = .str delta := hfield
          rfl
      rw [htext]
      rfl
    · rw [if_neg]
      · cases hevent : event.payload with
        | finalDelta delta =>
          rw [hevent] at ht
          exact absurd ht.symm hdelta
        | _ => rfl
      · intro hname
        have hvalue : t.value = "final_delta" := py_inj.mp (Option.some_inj.mp hname)
        cases t with
        | FINAL_DELTA => exact hdelta rfl
        | _ => exact absurd hvalue (by decide)

variable [Floats F]

/-- The frame is the last of those accepted, and a text comes with its completion. -/
def Execution.Holds (x : Execution F) (frame : Frame F) : Prop :=
  x.accepted.getLast? = some frame ∧
    (frame.text "type" = py "completed" → ∃ text, frame.text "final_text" = some text)

/-- Everything a line can be taken for. -/
inductive TakenAs (x : Execution F) : Taken F → Prop where
  | raised (e : Raised) : TakenAs x (.raised e)
  | event (x' : Execution F) (frame : Frame F) (event : InferenceEvent)
      (slow : x'.slowConsumer = x.slowConsumer) (holds : x'.Holds frame)
      (text : x'.finalDeltas.flatten = x.finalDeltas.flatten ++ event.delta) :
      TakenAs x (.event x' frame event)
  | plain (x' : Execution F) (frame : Frame F) (slow : x'.slowConsumer = x.slowConsumer)
      (holds : x'.Holds frame) (text : x'.finalDeltas = x.finalDeltas) :
      TakenAs x (.plain x' frame)

theorem takenAs (x : Execution F) (line : PyStr) : TakenAs x (takeLine x line) := by
  unfold takeLine
  rcases x.verifier.verify_cases (.text (.str line) : Raw F) with
    ⟨frame, k, t, -, hframe, -, hverify⟩ | ⟨e, hverify⟩
  · rw [hverify]
    dsimp only
    generalize hx : ({ x with
      verifier := x.verifier.accept k
      accepted := x.accepted ++ [frame]
      finalDeltas :=
        if frame.text "type" = py "final_delta" then
          x.finalDeltas ++ [(frame.text "delta").getD []]
        else x.finalDeltas } : Execution F) = x'
    have hlast : x'.accepted.getLast? = some frame := by
      rw [← hx]
      exact List.getLast?_concat
    have hholds : x'.Holds frame := by
      refine ⟨hlast, fun htype => ?_⟩
      have hk : k = .completed :=
        FrameKind.name_inj (py_inj.mp (Option.some_inj.mp (hframe.type.symm.trans htype)))
      have hpayload := hframe.payload
      rw [hk] at hpayload
      exact Option.isSome_iff_exists.mp hpayload.1
    have hslow : x'.slowConsumer = x.slowConsumer := by rw [← hx]
    have hdeltas : x'.finalDeltas =
        if frame.text "type" = py "final_delta" then
          x.finalDeltas ++ [(frame.text "delta").getD []]
        else x.finalDeltas := by rw [← hx]
    by_cases hevent : frame.IsEvent
    · rw [if_pos hevent]
      cases hconverted : fromIpcFrame frame with
      | error fault => cases fault <;> exact .raised _
      | ok event =>
        refine .event x' frame event hslow hholds ?_
        rw [hdeltas, fromIpcFrame_delta hconverted]
        by_cases htype : frame.text "type" = py "final_delta"
        · rw [if_pos htype, if_pos htype, List.flatten_append, List.flatten_singleton]
        · rw [if_neg htype, if_neg htype, List.append_nil]
    · rw [if_neg hevent]
      refine .plain x' frame hslow hholds ?_
      rw [hdeltas, if_neg]
      exact fun htype => hevent ⟨"final_delta", by simp [eventFrameTypes], htype⟩
  · rw [hverify]
    exact .raised e

/-- The result is that of a completed frame, whose text is that of the deltas. -/
structure Execution.Completed (contract : ContractAST) (x : Execution F)
    (result : GenerateResult F) (frame : Frame F) (text : PyStr) : Prop where
  last : x.accepted.getLast? = some frame
  type : frame.text "type" = py "completed"
  final : frame.text "final_text" = some text
  deltas : x.finalDeltas.flatten = text
  parsed : loads (.str text) = .ok result.output
  satisfied : validateOutput result.output contract = []

/-- Everything the end of the loop's body can do. -/
inductive Settled (contract : ContractAST) (x : Execution F) : Ended F → Prop where
  | raised (e : Raised) (recovery : Bool) : Settled contract x (.finished (.error e) recovery)
  | returned (result : GenerateResult F) (frame : Frame F) (text : PyStr)
      (slow : x.slowConsumer = false) (completed : x.Completed contract result frame text) :
      Settled contract x (.finished (.ok result) false)
  | next : Settled contract x (.next x)

theorem settled {contract : ContractAST} {identity : Identity F} {x : Execution F}
    {frame : Frame F} (h : x.Holds frame) (extra : Extra) (elapsed : Value F) :
    Settled contract x (settle contract identity x frame extra elapsed) := by
  obtain ⟨hlast, hfinal⟩ := h
  unfold settle
  by_cases hcompleted : frame.text "type" = py "completed"
  · rw [if_pos hcompleted]
    obtain ⟨text, htext⟩ := hfinal hcompleted
    rw [htext]
    cases extra with
    | line => exact .raised _ _
    | empty | closed =>
      simp only [Option.getD_some]
      by_cases hdeltas : x.finalDeltas.flatten ≠ text
      · rw [if_pos hdeltas]
        exact .raised _ _
      rw [if_neg hdeltas]
      by_cases hslow : x.slowConsumer = true
      · rw [if_pos hslow]
        exact .raised _ _
      rw [if_neg hslow]
      cases hparsed : (loads (.str text) : Except WorkerError (Value F)) with
      | error e => exact .raised _ _
      | ok output =>
        dsimp only
        cases hvalid : validateOutput output contract with
        | nil =>
          exact .returned _ frame text (Bool.not_eq_true _ ▸ hslow)
            ⟨hlast, hcompleted, htext, not_not.mp hdeltas, hparsed, hvalid⟩
        | cons error errors => exact .raised _ _
  rw [if_neg hcompleted]
  by_cases hfailed : frame.text "type" = py "failed"
  · rw [if_pos hfailed]
    cases extra with
    | line => exact .raised _ _
    | empty =>
      dsimp only
      split <;> exact .raised _ _
    | closed =>
      dsimp only
      split <;> exact .raised _ _
  · rw [if_neg hfailed]
    exact .next

end

/-! ### The threads -/

/-- The events that the handler has in hand. -/
def HandlerThread.inHand : HandlerThread → List InferenceEvent
  | .writing rest _ => rest
  | .stopped unwritten => unwritten
  | _ => []

namespace Stream

variable {F : Type}

/-- The events that have left the buffer, and those that are in it. -/
def passed (s : Stream F) : List InferenceEvent :=
  s.written ++ s.handler.inHand ++ s.buffer.events

/-- The list of deltas of `execute` is the text that has passed and what is still to
be published, but for a slow consumer and a closed buffer. -/
def Level (text : PyStr) (closed : Bool) (x : Execution F) (pending : PyStr) : Prop :=
  x.slowConsumer = false → closed = false → text ++ pending = x.finalDeltas.flatten

/-- The request's thread, where this text has passed. -/
def Carries [Floats F] (contract : ContractAST) (text : PyStr) (closed : Bool) :
    RequestThread F → Prop
  | .unstarted | .entering | .starting | .sending => text = []
  | .sent x | .polling x | .receiving x => Level text closed x []
  | .publishing x frame event => x.Holds frame ∧ Level text closed x event.delta
  | .stopping x frame => x.Holds frame ∧ x.slowConsumer = true
  | .settling x frame => x.Holds frame ∧ Level text closed x []
  | .finished x (.ok result) _ => x.slowConsumer = false ∧ Level text closed x [] ∧
      ∃ frame final, x.Completed contract result frame final
  | .finished _ (.error _) _ => True

/-- The dispatcher, where the record and the request's thread are so. -/
def Watches (l : Lifecycle) (request : RequestThread F) : DispatcherThread F → Prop
  | .pending | .expiring => request = .unstarted ∧ (l = .QUEUED ∨ l.IsTerminal)
  | .watching | .left | .deciding | .timingOut => l = .RUNNING ∨ l.IsTerminal
  | .ending target result _ => (l = .RUNNING ∨ l.IsTerminal) ∧ target.IsTerminal ∧
      (target = .COMPLETED → ∃ x r recovery, request = .finished x (.ok r) recovery ∧
        result = some r)
  | .closing | .done => l.IsTerminal

/-- The handler, where the record is so and these events are in the buffer. -/
def Drains (l : Lifecycle) (events : List InferenceEvent) : HandlerThread → Prop
  | .draining => l.IsTerminal
  | .writing _ true | .returned => l.IsTerminal ∧ (l = .COMPLETED → events = [])
  | _ => True

/-- What holds of a stream in every interleaving. -/
structure Flowing [Floats F] (contract : ContractAST) (s : Stream F) : Prop where
  carries : Carries contract (deltaText s.passed) s.buffer.closed s.request
  watches : Watches s.record.lifecycle s.request s.dispatcher
  drains : Drains s.record.lifecycle s.buffer.events s.handler
  closed : s.buffer.closed = true → s.record.lifecycle.IsTerminal
  completed : s.record.lifecycle = .COMPLETED → ∃ x result recovery,
    s.request = .finished x (.ok result) recovery ∧ s.record.result = some result ∧
      deltaText s.passed = x.finalDeltas.flatten

theorem Carries.close [Floats F] {contract : ContractAST} {text : PyStr} {closed : Bool}
    {request : RequestThread F} (h : Carries contract text closed request) :
    Carries contract text true request := by
  cases request with
  | unstarted => exact h
  | entering => exact h
  | starting => exact h
  | sending => exact h
  | sent x => exact fun _ => nofun
  | polling x => exact fun _ => nofun
  | receiving x => exact fun _ => nofun
  | publishing x frame event => exact ⟨h.1, fun _ => nofun⟩
  | stopping x frame => exact h
  | settling x frame => exact ⟨h.1, fun _ => nofun⟩
  | finished x outcome recovery =>
    cases outcome with
    | error e => trivial
    | ok result => exact ⟨h.1, fun _ => nofun, h.2.2⟩

theorem Watches.terminal {l l' : Lifecycle} {request : RequestThread F}
    {dispatcher : DispatcherThread F} (h : Watches l request dispatcher) (hl : l'.IsTerminal) :
    Watches l' request dispatcher := by
  cases dispatcher with
  | pending => exact ⟨h.1, .inr hl⟩
  | expiring => exact ⟨h.1, .inr hl⟩
  | watching => exact .inr hl
  | left => exact .inr hl
  | deciding => exact .inr hl
  | timingOut => exact .inr hl
  | ending target result error => exact ⟨.inr hl, h.2⟩
  | closing => exact hl
  | done => exact hl

theorem Drains.of_open {l l' : Lifecycle} {events : List InferenceEvent} {handler : HandlerThread}
    (h : Drains l events handler) (hl : ¬ l.IsTerminal) : Drains l' events handler := by
  cases handler with
  | draining => exact absurd h hl
  | writing rest last =>
    cases last with
    | true => exact absurd h.1 hl
    | false => trivial
  | returned => exact absurd h.1 hl
  | _ => trivial

theorem Drains.of_ne {l : Lifecycle} {events events' : List InferenceEvent}
    {handler : HandlerThread} (h : Drains l events handler) (hl : l ≠ .COMPLETED) :
    Drains l events' handler := by
  cases handler with
  | writing rest last =>
    cases last with
    | true => exact ⟨h.1, fun hc => absurd hc hl⟩
    | false => trivial
  | returned => exact ⟨h.1, fun hc => absurd hc hl⟩
  | draining => exact h
  | _ => trivial

/-! ### The thread of the request -/

/-- A thread of a request that has not begun, or has ended. -/
def Idle : RequestThread F → Prop
  | .unstarted | .finished _ _ _ => True
  | _ => False

theorem Watches.request {l : Lifecycle} {request request' : RequestThread F}
    {dispatcher : DispatcherThread F} (h : Watches l request dispatcher)
    (hsame : Idle request → request' = request) : Watches l request' dispatcher := by
  cases dispatcher with
  | pending =>
    obtain ⟨rfl, hl⟩ := h
    exact ⟨hsame trivial, hl⟩
  | expiring =>
    obtain ⟨rfl, hl⟩ := h
    exact ⟨hsame trivial, hl⟩
  | ending target result error =>
    refine ⟨h.1, h.2.1, fun htarget => ?_⟩
    obtain ⟨x, r, recovery, rfl, hresult⟩ := h.2.2 htarget
    exact ⟨x, r, recovery, hsame trivial, hresult⟩
  | _ => exact h

/-! ### The record -/

/-- A change of the record that ends the request, but does not complete it, or
leaves its lifecycle and its result. -/
def Stopped (record record' : RequestRecord (GenerateResult F)) : Prop :=
  record'.lifecycle = record.lifecycle ∧ record'.result = record.result ∨
    ¬ record.lifecycle.IsTerminal ∧ record'.lifecycle.IsTerminal ∧ record'.lifecycle ≠ .COMPLETED

theorem stopped_moved {record : RequestRecord (GenerateResult F)} {expected target : Lifecycle}
    {result : Option (GenerateResult F)} {error : Option RecordError} {now : ℚ}
    (hopen : ¬ expected.IsTerminal) (hallowed : target ∈ expected.allowed)
    (htarget : target.IsTerminal) (hne : target ≠ .COMPLETED) :
    Stopped record (record.moved expected target result error now) := by
  by_cases hexpected : record.lifecycle = expected
  · rw [RequestRecord.moved_of_eq hexpected hopen hallowed]
    exact .inr ⟨hexpected ▸ hopen, htarget, hne⟩
  · rw [RequestRecord.moved_of_ne hexpected]
    exact .inl ⟨rfl, rfl⟩

theorem moved_terminal {record : RequestRecord (GenerateResult F)} {expected target : Lifecycle}
    {result : Option (GenerateResult F)} {error : Option RecordError} {now : ℚ}
    (h : record.lifecycle = expected ∨ record.lifecycle.IsTerminal)
    (hopen : ¬ expected.IsTerminal) (hallowed : target ∈ expected.allowed)
    (htarget : target.IsTerminal) :
    (record.moved expected target result error now).lifecycle.IsTerminal := by
  by_cases hexpected : record.lifecycle = expected
  · rw [RequestRecord.moved_of_eq hexpected hopen hallowed]
    exact htarget
  · rw [RequestRecord.moved_of_ne hexpected]
    exact h.resolve_left hexpected

theorem stopped_cancel (record : RequestRecord (GenerateResult F)) (now : ℚ) :
    Stopped record (record.cancel (.ok now)).2 := by
  unfold RequestRecord.cancel
  by_cases hterminal : record.lifecycle.IsTerminal
  · rw [if_pos hterminal]
    exact .inl ⟨rfl, rfl⟩
  rw [if_neg hterminal]
  by_cases hqueued : record.lifecycle = .QUEUED
  · rw [if_pos hqueued]
    unfold RequestRecord.transitionLocked
    dsimp only
    rw [if_neg hterminal, if_neg (by rw [hqueued]; simp [Lifecycle.allowed])]
    exact .inr ⟨hterminal, trivial, by simp⟩
  · rw [if_neg hqueued]
    exact .inl ⟨rfl, rfl⟩

/-- The transition chosen for a thread that has ended. -/
theorem ending_watches {x : Execution F} {outcome : Except Raised (GenerateResult F)}
    {recovery : Bool} {l : Lifecycle} (cancelled : Bool) (hl : l = .RUNNING ∨ l.IsTerminal) :
    Watches l (.finished x outcome recovery) (ending cancelled outcome) := by
  unfold ending
  cases outcome with
  | error e =>
    cases e with
    | worker error =>
      dsimp only
      split
      · exact ⟨hl, trivial, nofun⟩
      · split
        · exact ⟨hl, trivial, nofun⟩
        · exact ⟨hl, trivial, nofun⟩
    | unhashable =>
      dsimp only
      split
      · exact ⟨hl, trivial, nofun⟩
      · exact ⟨hl, trivial, nofun⟩
    | other message =>
      dsimp only
      split
      · exact ⟨hl, trivial, nofun⟩
      · exact ⟨hl, trivial, nofun⟩
  | ok result =>
    dsimp only
    split
    · exact ⟨hl, trivial, nofun⟩
    · exact ⟨hl, trivial, fun _ => ⟨x, result, recovery, rfl, rfl⟩⟩

theorem running_allows {target : Lifecycle} (h : target.IsTerminal) :
    target ∈ Lifecycle.RUNNING.allowed := by
  cases target with
  | COMPLETED | FAILED | CANCELLED | TIMED_OUT => simp [Lifecycle.allowed]
  | _ => exact h.elim

theorem compareAndTransition_running (record : RequestRecord (GenerateResult F)) (waiting : Bool)
    (now : ℚ) :
    record.lifecycle = .QUEUED ∧
      record.compareAndTransition .QUEUED .RUNNING (.ok waiting) none none (.ok now) =
        (.ok true, { record with
          lifecycle := .RUNNING
          timestamps := record.timestamps.set .RUNNING now
          result := none
          error := none }) ∨
      record.compareAndTransition .QUEUED .RUNNING (.ok waiting) none none (.ok now) =
        (.ok false, record) := by
  unfold RequestRecord.compareAndTransition
  by_cases hqueued : record.lifecycle ≠ .QUEUED
  · rw [if_pos hqueued]
    exact .inr rfl
  rw [if_neg hqueued]
  rw [not_not] at hqueued
  cases waiting with
  | false => exact .inr rfl
  | true =>
    refine .inl ⟨hqueued, ?_⟩
    unfold RequestRecord.transitionLocked
    dsimp only
    rw [if_neg (by rw [hqueued]; exact id), if_neg (by rw [hqueued]; simp [Lifecycle.allowed])]

/-! ### The steps of `execute` -/

section

variable [Floats F] {contract : ContractAST} {identity : Identity F} {s : Stream F}

/-- Everything a step of `execute` changes. -/
structure RequestMoved (contract : ContractAST) (s s' : Stream F) : Prop where
  others : s' = { s with
    request := s'.request
    buffer := s'.buffer
    record := { s.record with cancelEvent := s'.record.cancelEvent } }
  closed : s'.buffer.closed = s.buffer.closed
  carries : Carries contract (deltaText s'.passed) s'.buffer.closed s'.request

theorem moved_request {request : RequestThread F}
    (h : Carries contract (deltaText s.passed) s.buffer.closed request) :
    RequestMoved contract s { s with request := request } := ⟨rfl, rfl, h⟩

theorem leave_moved (s : Stream F) (x : Execution F) (e : Raised) :
    RequestMoved contract s (s.leave x e) := ⟨rfl, rfl, trivial⟩

/-- A control frame for the cancellation changes no text. -/
theorem sendCancel_moved {x : Execution F} {after : Execution F → RequestThread F} (writes : Bool)
    (h : ∀ sent, Carries contract (deltaText s.passed) s.buffer.closed
      (after { x with cancelSent := sent })) :
    RequestMoved contract s (s.sendCancel x writes after) := by
  unfold sendCancel
  by_cases hcancel : s.record.cancelEvent ∧ ¬ x.cancelSent
  · rw [if_pos hcancel]
    by_cases hwrites : writes = true
    · rw [if_pos hwrites]
      exact moved_request (h true)
    · rw [if_neg hwrites]
      exact s.leave_moved x _
  · rw [if_neg hcancel]
    exact moved_request (h x.cancelSent)

theorem publishStep_moved {x : Execution F} {frame : Frame F} {event : InferenceEvent}
    (hholds : x.Holds frame)
    (hlevel : Level (deltaText s.passed) s.buffer.closed x event.delta) :
    RequestMoved contract s (s.publishStep x frame event) := by
  have hclosed := s.buffer.publish_closed event
  unfold publishStep
  cases hpublish : s.buffer.publish event with
  | mk result buffer =>
    rw [hpublish] at hclosed
    have hleave (e : Raised) : RequestMoved contract s (leave { s with buffer := buffer } x e) :=
      ⟨rfl, hclosed, trivial⟩
    dsimp only
    match result, hpublish with
    | .error (.validation code message), _ => exact hleave _
    | .error (.valueError message), _ => exact hleave _
    | .ok result, hpublish =>
      dsimp only
      by_cases hslow : result = .SLOW_CONSUMER ∧ ¬ x.slowConsumer
      · rw [if_pos hslow]
        exact ⟨rfl, hclosed, hholds, rfl⟩
      · rw [if_neg hslow]
        refine ⟨rfl, hclosed, hholds, fun hx hopen => ?_⟩
        have hopen : s.buffer.closed = false := hclosed ▸ hopen
        have htext := s.buffer.publish_text (congrArg Prod.fst hpublish)
          (fun h => hslow ⟨h, by simp [hx]⟩) hopen
        rw [hpublish] at htext
        show deltaText (s.written ++ s.handler.inHand ++ buffer.events) ++ [] = _
        rw [List.append_nil, deltaText_append, htext, ← List.append_assoc, ← deltaText_append]
        exact hlevel hx hopen

theorem requestStep_idle (h : Idle s.request) (answer : RequestAnswer F) :
    s.requestStep contract identity answer = s := by
  unfold requestStep
  cases hrequest : s.request with
  | unstarted => rfl
  | finished => rfl
  | _ =>
    rw [hrequest] at h
    exact h.elim

theorem requestStep_moved (h : Carries contract (deltaText s.passed) s.buffer.closed s.request)
    (answer : RequestAnswer F) : RequestMoved contract s (s.requestStep contract identity answer) := by
  unfold requestStep
  cases hrequest : s.request with
  | unstarted => exact ⟨rfl, rfl, h⟩
  | entering =>
    rw [hrequest] at h
    dsimp only
    split
    · exact moved_request trivial
    · exact moved_request h
  | starting =>
    rw [hrequest] at h
    dsimp only
    split
    · exact moved_request trivial
    · exact moved_request h
  | sending =>
    rw [hrequest] at h
    dsimp only
    split
    · refine moved_request fun _ _ => ?_
      have h : deltaText s.passed = [] := h
      rw [h]
      rfl
    · exact s.leave_moved _ _
  | sent x =>
    rw [hrequest] at h
    exact sendCancel_moved _ fun _ => h
  | polling x =>
    rw [hrequest] at h
    exact sendCancel_moved _ fun _ => h
  | receiving x =>
    rw [hrequest] at h
    dsimp only
    cases answer.polled with
    | empty alive =>
      cases alive with
      | true => exact moved_request h
      | false => exact s.leave_moved _ _
    | closed => exact s.leave_moved _ _
    | line text =>
      dsimp only
      have htaken := takenAs x text
      generalize takeLine x text = taken at htaken
      cases htaken with
      | raised e => exact s.leave_moved _ _
      | event x' frame event slow holds text =>
        refine moved_request ⟨holds, fun hx hopen => ?_⟩
        rw [text, ← h (slow ▸ hx) hopen, List.append_nil]
      | plain x' frame slow holds text =>
        refine moved_request ⟨holds, fun hx hopen => ?_⟩
        rw [text, ← h (slow ▸ hx) hopen]
  | publishing x frame event =>
    rw [hrequest] at h
    exact publishStep_moved h.1 h.2
  | stopping x frame =>
    rw [hrequest] at h
    obtain ⟨hholds, hslow⟩ := h
    have hmoved : RequestMoved contract { s with record := { s.record with cancelEvent := true } }
        (sendCancel { s with record := { s.record with cancelEvent := true } } x answer.writes
          fun x => .settling x frame) :=
      sendCancel_moved _ fun _ => ⟨hholds, fun hx => nomatch hslow.symm.trans hx⟩
    exact ⟨hmoved.others, hmoved.closed, hmoved.carries⟩
  | settling x frame =>
    rw [hrequest] at h
    obtain ⟨hholds, hlevel⟩ := h
    dsimp only
    have hsettled : Settled contract x (settle contract identity x frame answer.extra
        answer.elapsed) := settled hholds answer.extra answer.elapsed
    generalize settle contract identity x frame answer.extra answer.elapsed = ended at hsettled
    cases hsettled with
    | raised e recovery => exact moved_request trivial
    | returned result frame final slow completed =>
      exact moved_request ⟨slow, hlevel, frame, final, completed⟩
    | next => exact moved_request hlevel
  | finished => exact ⟨rfl, rfl, h⟩

/-- The steps of `execute`. -/
theorem Flowing.request (h : Flowing contract s) (answer : RequestAnswer F) :
    Flowing contract (s.requestStep contract identity answer) := by
  by_cases hidle : Idle s.request
  · rw [requestStep_idle hidle]
    exact h
  -- a thread that still runs has not completed the request
  have hopen : s.record.lifecycle ≠ .COMPLETED := by
    intro hc
    obtain ⟨x, result, recovery, hfinished, -⟩ := h.completed hc
    rw [hfinished] at hidle
    exact hidle trivial
  have hmoved : RequestMoved contract s (s.requestStep contract identity answer) :=
    requestStep_moved h.carries answer
  generalize s.requestStep contract identity answer = s' at hmoved
  obtain ⟨hothers, hclosed, hcarries⟩ := hmoved
  have hlifecycle : s'.record.lifecycle = s.record.lifecycle := by rw [hothers]
  have hdispatcher : s'.dispatcher = s.dispatcher := by rw [hothers]
  have hhandler : s'.handler = s.handler := by rw [hothers]
  refine ⟨hcarries, ?_, ?_, ?_, ?_⟩
  · rw [hlifecycle, hdispatcher]
    exact h.watches.request fun hi => absurd hi hidle
  · rw [hlifecycle, hhandler]
    exact h.drains.of_ne hopen
  · rw [hlifecycle, hclosed]
    exact h.closed
  · rw [hlifecycle]
    exact fun hc => absurd hc hopen

theorem Flowing.record (h : Flowing contract s) {record : RequestRecord (GenerateResult F)}
    (hrecord : Stopped s.record record) : Flowing contract { s with record := record } := by
  rcases hrecord with ⟨hlifecycle, hresult⟩ | ⟨hopen, hterminal, hne⟩
  · refine ⟨h.carries, ?_, ?_, ?_, ?_⟩
    · show Watches record.lifecycle _ _
      rw [hlifecycle]
      exact h.watches
    · show Drains record.lifecycle _ _
      rw [hlifecycle]
      exact h.drains
    · show _ → record.lifecycle.IsTerminal
      rw [hlifecycle]
      exact h.closed
    · show record.lifecycle = _ → ∃ x result recovery, s.request = _ ∧ record.result = _ ∧ _
      rw [hlifecycle, hresult]
      exact h.completed
  · exact ⟨h.carries, h.watches.terminal hterminal, h.drains.of_open hopen, fun _ => hterminal,
      fun hc => absurd hc hne⟩

theorem Flowing.cancelEvent (h : Flowing contract s) :
    Flowing contract { s with record := { s.record with cancelEvent := true } } :=
  h.record (.inl ⟨rfl, rfl⟩)

theorem Flowing.close (h : Flowing contract s) (hterminal : s.record.lifecycle.IsTerminal) :
    Flowing contract { s with buffer := s.buffer.close } :=
  ⟨h.carries.close, h.watches, h.drains, fun _ => hterminal, h.completed⟩

/-! ### The dispatcher -/

theorem Flowing.dispatch (h : Flowing contract s) {dispatcher : DispatcherThread F}
    (hwatches : Watches s.record.lifecycle s.request dispatcher) :
    Flowing contract { s with dispatcher := dispatcher } :=
  ⟨h.carries, hwatches, h.drains, h.closed, h.completed⟩

/-- The completion: all the text has passed before it. -/
theorem Flowing.complete (h : Flowing contract s) {x : Execution F} {result : GenerateResult F}
    {recovery : Bool} {error : Option RecordError} (now : ℚ)
    (hrequest : s.request = .finished x (.ok result) recovery)
    (hlifecycle : s.record.lifecycle = .RUNNING) :
    Flowing contract { s with
      record := s.record.moved .RUNNING .COMPLETED (some result) error now } := by
  have hopen : ¬ s.record.lifecycle.IsTerminal := by rw [hlifecycle]; exact id
  have hmember : Lifecycle.COMPLETED ∈ Lifecycle.RUNNING.allowed := running_allows trivial
  rw [RequestRecord.moved_of_eq hlifecycle id hmember]
  refine ⟨h.carries, h.watches.terminal trivial, h.drains.of_open hopen, fun _ => trivial,
    fun _ => ⟨x, result, recovery, hrequest, rfl, ?_⟩⟩
  -- the buffer is still open, since the request had not ended
  have hbuffer : s.buffer.closed = false := by
    rw [← Bool.not_eq_true]
    exact fun hclosed => hopen (h.closed hclosed)
  have hcarries := h.carries
  rw [hrequest] at hcarries
  have hlevel := hcarries.2.1 hcarries.1 hbuffer
  rw [List.append_nil] at hlevel
  exact hlevel

/-- The steps of `_run`. -/
theorem Flowing.dispatcher (h : Flowing contract s) (answer : DispatcherAnswer) :
    Flowing contract (s.dispatcherStep answer) := by
  have hwatches := h.watches
  unfold dispatcherStep
  cases hdispatcher : s.dispatcher with
  | pending =>
    rw [hdispatcher] at hwatches
    obtain ⟨hrequest, hl⟩ := hwatches
    dsimp only
    rcases compareAndTransition_running s.record (decide (answer.now < s.record.queueDeadline))
      answer.now with ⟨hqueued, hstarted⟩ | hrefused
    · rw [hstarted]
      have hopen : ¬ s.record.lifecycle.IsTerminal := by rw [hqueued]; exact id
      have hcarries := h.carries
      rw [hrequest] at hcarries
      exact ⟨hcarries, .inl rfl, h.drains.of_open hopen, fun hc => absurd (h.closed hc) hopen,
        nofun⟩
    · rw [hrefused]
      exact h.dispatch ⟨hrequest, hl⟩
  | expiring =>
    rw [hdispatcher] at hwatches
    obtain ⟨hrequest, hl⟩ := hwatches
    have hmember : Lifecycle.TIMED_OUT ∈ Lifecycle.QUEUED.allowed := by simp [Lifecycle.allowed]
    exact (h.record (stopped_moved id hmember trivial nofun)).dispatch
      (moved_terminal hl id hmember trivial)
  | watching =>
    rw [hdispatcher] at hwatches
    dsimp only
    split
    · exact h.dispatch hwatches
    · split
      · exact h.dispatch hwatches
      · exact h
  | left =>
    rw [hdispatcher] at hwatches
    dsimp only
    split
    · next hterminal => exact h.dispatch hterminal
    · exact h.dispatch hwatches
  | deciding =>
    rw [hdispatcher] at hwatches
    dsimp only
    split
    · next x outcome recovery hrequest =>
      refine h.dispatch ?_
      rw [hrequest]
      exact ending_watches _ hwatches
    · exact h.cancelEvent.dispatch hwatches
  | timingOut =>
    rw [hdispatcher] at hwatches
    have hmember : Lifecycle.TIMED_OUT ∈ Lifecycle.RUNNING.allowed := running_allows trivial
    exact (h.record (stopped_moved id hmember trivial nofun)).dispatch
      (moved_terminal hwatches id hmember trivial)
  | ending target result error =>
    rw [hdispatcher] at hwatches
    obtain ⟨hl, htarget, hresult⟩ := hwatches
    have hterminal :
        (s.record.moved .RUNNING target result error answer.now).lifecycle.IsTerminal :=
      moved_terminal hl id (running_allows htarget) htarget
    dsimp only
    by_cases hcompleted : target = .COMPLETED ∧ s.record.lifecycle = .RUNNING
    · obtain ⟨rfl, hrunning⟩ := hcompleted
      obtain ⟨x, r, recovery, hrequest, rfl⟩ := hresult rfl
      exact (h.complete answer.now hrequest hrunning).dispatch hterminal
    · have hstopped :
          Stopped s.record (s.record.moved .RUNNING target result error answer.now) := by
        by_cases htarget' : target = .COMPLETED
        · rw [RequestRecord.moved_of_ne fun hr => hcompleted ⟨htarget', hr⟩]
          exact .inl ⟨rfl, rfl⟩
        · exact stopped_moved id (running_allows htarget) htarget htarget'
      exact (h.record hstopped).dispatch hterminal
  | closing =>
    rw [hdispatcher] at hwatches
    exact (h.close hwatches).dispatch hwatches
  | done => exact h

/-! ### The handler -/

theorem Flowing.hand (h : Flowing contract s) {buffer : BoundedRequestEventBuffer}
    {handler : HandlerThread} {written : List InferenceEvent}
    (hpassed : written ++ handler.inHand ++ buffer.events = s.passed)
    (hclosed : buffer.closed = s.buffer.closed)
    (hdrains : Drains s.record.lifecycle buffer.events handler) :
    Flowing contract { s with buffer := buffer, handler := handler, written := written } := by
  refine ⟨?_, h.watches, hdrains, ?_, ?_⟩
  · show Carries contract (deltaText (written ++ handler.inHand ++ buffer.events)) buffer.closed _
    rw [hpassed, hclosed]
    exact h.carries
  · show buffer.closed = true → _
    rw [hclosed]
    exact h.closed
  · show _ → ∃ (x : Execution F) (result : GenerateResult F) (recovery : Bool), _ ∧ _ ∧
      deltaText (written ++ handler.inHand ++ buffer.events) = x.finalDeltas.flatten
    rw [hpassed]
    exact h.completed

/-- The steps of the handler: it hands the events on, one after another. -/
theorem Flowing.handler (h : Flowing contract s) (answer : HandlerAnswer) :
    Flowing contract (s.handlerStep answer) := by
  have hdrains := h.drains
  have hwhole : s.passed = s.written ++ s.handler.inHand ++ s.buffer.events := rfl
  unfold handlerStep
  cases hhandler : s.handler with
  | preparing =>
    rw [hhandler] at hwhole
    dsimp only
    split
    · exact h.hand hwhole.symm rfl trivial
    · exact h.hand hwhole.symm rfl trivial
  | checking =>
    rw [hhandler] at hwhole
    dsimp only
    split
    · exact h.hand hwhole.symm rfl trivial
    · exact h.hand hwhole.symm rfl trivial
  | reading =>
    rw [hhandler] at hwhole
    dsimp only
    split
    · next hterminal => exact h.hand hwhole.symm rfl hterminal
    · exact h.hand hwhole.symm rfl trivial
  | getting =>
    rw [hhandler] at hwhole
    dsimp only
    rcases s.buffer.get_cases (some (1 / 50)) answer.elapsed with
      ⟨result, hget, hnone⟩ | ⟨event, rest, hevents, hget⟩
    · rw [hget]
      match result, hnone with
      | .error e, _ => exact h.hand hwhole.symm rfl trivial
      | .ok .waits, _ => exact h
      | .ok .nothing, _ => exact h.hand hwhole.symm rfl trivial
      | .ok (.event event), hnone => exact absurd rfl (hnone event)
    · rw [hget]
      refine h.hand ?_ rfl trivial
      rw [hwhole, hevents]
      simp [HandlerThread.inHand]
  | draining =>
    rw [hhandler] at hwhole hdrains
    refine h.hand ?_ rfl ⟨hdrains, fun _ => rfl⟩
    rw [hwhole]
    simp [HandlerThread.inHand, BoundedRequestEventBuffer.drain]
  | writing rest last =>
    rw [hhandler] at hwhole hdrains
    cases rest with
    | nil =>
      cases last with
      | true => exact h.hand hwhole.symm rfl hdrains
      | false => exact h.hand hwhole.symm rfl trivial
    | cons event rest =>
      dsimp only
      split
      · refine h.hand ?_ rfl ?_
        · rw [hwhole]
          simp [HandlerThread.inHand]
        · cases last with
          | true => exact hdrains
          | false => trivial
      · exact h.hand hwhole.symm rfl trivial
  | returned => exact h
  | stopped unwritten => exact h

/-! ### Every interleaving -/

/-- **Step lemma.** -/
theorem Flowing.step (h : Flowing contract s) (action : Action F) :
    Flowing contract (s.step contract identity action) := by
  cases action with
  | request answer => exact h.request answer
  | dispatcher answer => exact h.dispatcher answer
  | handler answer => exact h.handler answer
  | cancel now => exact h.record (stopped_cancel s.record now)
  | cancelEvent => exact h.cancelEvent
  | expire now => exact h.record (stopped_moved id (by simp [Lifecycle.allowed]) trivial nofun)
  | shutdown now => exact h.record (stopped_moved id (by simp [Lifecycle.allowed]) trivial nofun)
  | closeTerminal =>
    show Flowing contract (if s.record.lifecycle.IsTerminal then _ else _)
    split
    · next hterminal => exact h.close hterminal
    · exact h

/-- **Run lemma.** -/
theorem Flowing.run (h : Flowing contract s) (actions : List (Action F)) :
    Flowing contract (s.run contract identity actions) := by
  induction actions generalizing s with
  | nil => exact h
  | cons action rest ih => exact ih (h.step action)

theorem start_flowing (requestId attemptId : PyStr) (maxEvents maxBytes : ℕ)
    (queueDeadline executionTimeout : ℚ) :
    Flowing contract
      (start requestId attemptId maxEvents maxBytes queueDeadline executionTimeout : Stream F) :=
  ⟨rfl, ⟨rfl, .inl rfl⟩, trivial, nofun, nofun⟩

/-- What a completed request has returned, and written to its client. -/
structure Delivered (contract : ContractAST) (s : Stream F) (x : Execution F)
    (result : GenerateResult F) (frame : Frame F) (text : PyStr) : Prop where
  finished : ∃ recovery, s.request = .finished x (.ok result) recovery
  /-- the completed frame is the last one of the worker's, and this is its text -/
  completed : x.Completed contract result frame text
  returned : s.record.result = some result
  written : deltaText s.written <+: text
  drained : s.handler = .returned → deltaText s.written = text

end

/-- **The text reaches the client whole and in order**: in every interleaving of a
request's threads, whatever lines the worker writes, once the request is completed
the deltas written to the client are a prefix of the final text of the worker's
completed frame, and all of it when the client's stream has been drained; the strict
parse of that text is the output returned, and satisfies the contract. -/
theorem text_delivered [Floats F] (contract : ContractAST) (identity : Identity F)
    (requestId attemptId : PyStr) (maxEvents maxBytes : ℕ) (queueDeadline executionTimeout : ℚ)
    (actions : List (Action F))
    (h : ((start requestId attemptId maxEvents maxBytes queueDeadline executionTimeout).run contract
      identity actions).record.lifecycle = .COMPLETED) :
    ∃ x result frame text,
      Delivered contract ((start requestId attemptId maxEvents maxBytes queueDeadline
        executionTimeout).run contract identity actions) x result frame text := by
  have hflowing : Flowing contract ((start requestId attemptId maxEvents maxBytes queueDeadline
      executionTimeout).run contract identity actions) := (start_flowing ..).run actions
  generalize (start requestId attemptId maxEvents maxBytes queueDeadline executionTimeout).run
    contract identity actions = s at h hflowing
  obtain ⟨x, result, recovery, hrequest, hresult, hpassed⟩ := hflowing.completed h
  have hcarries := hflowing.carries
  rw [hrequest] at hcarries
  obtain ⟨-, -, frame, text, hcompleted⟩ := hcarries
  rw [hcompleted.deltas] at hpassed
  refine ⟨x, result, frame, text, ⟨recovery, hrequest⟩, hcompleted, hresult, ?_, fun hreturned => ?_⟩
  · refine ⟨deltaText (s.handler.inHand ++ s.buffer.events), ?_⟩
    rw [← deltaText_append, ← List.append_assoc]
    exact hpassed
  · have hdrains := hflowing.drains
    rw [hreturned] at hdrains
    have hpassed : deltaText (s.written ++ s.handler.inHand ++ s.buffer.events) = text := hpassed
    rw [hreturned, hdrains.2 h] at hpassed
    simpa [HandlerThread.inHand] using hpassed

/-! ### Two runs -/

/-- A contract with one flag. -/
def sampleContract : ContractAST := ⟨py "v1", [⟨py "a", [.boolean], none⟩]⟩

/-- The line of a frame with these fields after the common ones. -/
def sampleLine (sequence type fields : String) : PyStr :=
  py ("\x7b\"protocol_version\":\"model-worker-ipc.v1\",\"request_id\":\"r\"," ++
    "\"attempt_id\":\"a\",\"sequence\":" ++ sequence ++ ",\"type\":\"" ++ type ++ "\"" ++ fields ++
    "\x7d")

/-- The worker answers with a flag. -/
def sampleLines : List PyStr :=
  [sampleLine "0" "started" "",
    sampleLine "1" "phase" ",\"phase\":\"final\"",
    sampleLine "2" "final_delta" ",\"delta\":\"\x7b\\\"a\\\":true\x7d\"",
    sampleLine "3" "completed"
      ",\"final_text\":\"\x7b\\\"a\\\":true\x7d\",\"usage\":\x7b\x7d,\"timing\":\x7b\x7d"]

/-- The request's thread takes a line, and hands its event over. -/
def sampleTurn (line : PyStr) : List (Action NoFloat) :=
  [.request {}, .request { polled := .line line }, .request {}, .request {}]

/-- From the queue to the completion. -/
def sampleWork : List (Action NoFloat) :=
  .dispatcher {} :: List.replicate 4 (.request {}) ++ sampleLines.flatMap sampleTurn ++
    List.replicate 5 (.dispatcher {})

def sampleRun (actions : List (Action NoFloat)) : Stream NoFloat :=
  (start (py "r") (py "a") 8 10000 1 1).run sampleContract [] actions

/-- The handler begins late, and writes all of it. -/
def sampleDrained : List (Action NoFloat) := sampleWork ++ List.replicate 8 (.handler {})

/-- The client has gone before the first write. -/
def sampleGone : List (Action NoFloat) := sampleWork ++ [.handler { connected := false }]

def sampleText : PyStr := py "\x7b\"a\":true\x7d"

/-- The text of the frame that `execute` has accepted last. -/
def finalText (s : Stream NoFloat) : Option PyStr :=
  match s.request with
  | .finished x _ _ => x.accepted.getLast?.bind fun frame => frame.text "final_text"
  | _ => none

theorem text_delivered_drained :
    (sampleRun sampleDrained).record.lifecycle = .COMPLETED ∧
      deltaText (sampleRun sampleDrained).written = sampleText ∧
      ∃ x result frame text,
        Delivered sampleContract (sampleRun sampleDrained) x result frame text := by
  have h : (sampleRun sampleDrained).record.lifecycle = .COMPLETED ∧
      deltaText (sampleRun sampleDrained).written = sampleText := by decide +kernel
  refine ⟨h.1, h.2, ?_⟩
  unfold sampleRun at h ⊢
  exact text_delivered sampleContract [] (py "r") (py "a") 8 10000 1 1 sampleDrained h.1

/-- The client does not stay: the request is completed, and nothing of its text has
been written. -/
theorem text_not_written :
    (sampleRun sampleGone).record.lifecycle = .COMPLETED ∧
      finalText (sampleRun sampleGone) = some sampleText ∧
      deltaText (sampleRun sampleGone).written ≠ sampleText := by
  decide +kernel

end Stream

end Worker
