/-
The events of accepted frames, in the buffer of their request.

The verifier of a request and the buffer of its events count on their own, and each
has its own rules for a payload.  What the verifier accepts has to pass the buffer,
since `execute` takes a refused event for a crash of the worker.

* `Relay` — a verifier and a buffer, as frames, gets and drains come to them;
* `fromIpcFrame_accepted` — an accepted frame with the fields of its event is
  converted, as far as the event can be written;
* `InStep` — the two count alike until the request has ended;
* `events_follow` — no event is refused, and the buffer counts all of them.
-/
import LlamaRuntime.Worker.Preflight
import LlamaRuntime.Worker.WorkerProcess

namespace Worker

open Json
open Inference (IsBoundedText)

section

variable {F : Type}

/-- A frame of an event has the fields that are documented for it, and no others. -/
def Frame.Documented (frame : Frame F) : Prop :=
  ∀ eventType ∈ eventTypeOf (frame.get "type"),
    hasKeys frame (commonKeys ++ payloadKeys eventType) = true

instance (frame : Frame F) : Decidable frame.Documented :=
  inferInstanceAs (Decidable (∀ eventType ∈ eventTypeOf (frame.get "type"), _))

/-- The delta of the frame has no lone surrogate, and its integers are short enough
for a text. -/
structure Frame.Writable (frame : Frame F) : Prop where
  delta : ∀ delta, frame.text "delta" = some delta → Clean delta
  numbers : ∀ key n, frame.int key = some n → digitCount n ≤ Value.maxStrDigits

/-- The verifier of a request with the buffer of its events. -/
structure Relay (F : Type) where
  verifier : FrameVerifier
  buffer : BoundedRequestEventBuffer
  /-- history: the frames whose events were published, with what has come of it -/
  published : List (Frame F × Except EventFault PublishResult) := []

namespace Relay

/-- A fresh verifier, and the buffer. -/
def start (requestId attemptId : PyStr) (buffer : BoundedRequestEventBuffer) : Relay F :=
  { verifier := .start requestId attemptId, buffer := buffer }

/-- What comes to the verifier and the buffer. -/
inductive Move (F : Type) where
  | frame (raw : Raw F)
  | get (timeout : Option ℚ) (elapsed : ℚ)
  | drain

/-- `record.event_sink.publish(InferenceEvent.from_ipc_frame(frame))` -/
def publishFrame (b : BoundedRequestEventBuffer) (frame : Frame F) :
    Except EventFault PublishResult × BoundedRequestEventBuffer :=
  match fromIpcFrame frame with
  | .error e => (.error e, b)
  | .ok event => b.publish event

/-- A frame that is not accepted, or is no event, stops at the verifier. -/
def step [Floats F] (s : Relay F) : Move F → Relay F
  | .frame raw =>
    match s.verifier.verify raw with
    | (.error _, verifier) => { s with verifier := verifier }
    | (.ok frame, verifier) =>
      if frame.IsEvent then
        { verifier := verifier
          buffer := (publishFrame s.buffer frame).2
          published := s.published ++ [(frame, (publishFrame s.buffer frame).1)] }
      else { s with verifier := verifier }
  | .get timeout elapsed => { s with buffer := (s.buffer.get timeout elapsed).2 }
  | .drain => { s with buffer := s.buffer.drain.2 }

def run [Floats F] (s : Relay F) (moves : List (Move F)) : Relay F := moves.foldl step s

/-- What is fed to the verifier. -/
def Move.fed : Move F → List (Raw F)
  | .frame raw => [raw]
  | _ => []

/-- The frames the verifier accepts of the moves. -/
def accepted [Floats F] (s : Relay F) (moves : List (Move F)) : List (Frame F) :=
  (s.verifier.run (moves.flatMap Move.fed)).1

end Relay

/-! ### Events that can be written -/

/-- The event of a kind of frame. -/
def FrameKind.eventType : FrameKind → Option InferenceEventType
  | .started => some .STARTED
  | .phase => some .PHASE
  | .finalDelta => some .FINAL_DELTA
  | .progress => some .PROGRESS
  | .heartbeat => some .HEARTBEAT
  | .completed | .failed => none

variable {frame : Frame F} {k : FrameKind}

theorem eventTypeOf_kind (htype : frame.text "type" = py k.name) :
    eventTypeOf (frame.get "type") = k.eventType := by
  have hget : (frame.get "type").bind Value.str? = some (py k.name) := htype
  unfold eventTypeOf
  rw [hget]
  cases k <;> rfl

theorem isEvent_iff (htype : frame.text "type" = py k.name) :
    frame.IsEvent ↔ k.isTerminal = false := by
  show (∃ name ∈ eventFrameTypes, frame.text "type" = some (py name)) ↔ _
  simp only [htype, Option.some_inj, py_inj]
  cases k <;> simp [eventFrameTypes, FrameKind.name, FrameKind.isTerminal]

theorem eventType_eq_some (h : k.isTerminal = false) : ∃ t, k.eventType = some t := by
  cases k with
  | completed | failed => exact nomatch h
  | _ => exact ⟨_, rfl⟩

/-- A key that is not documented is not there. -/
theorem Frame.get_eq_none {keys : List String} {key : String} (h : hasKeys frame keys = true)
    (hkey : key ∉ keys) : frame.get key = none := by
  refine Items.lookup_eq_none.mpr fun hmem => hkey ?_
  obtain ⟨item, hitem, hname⟩ := List.mem_map.mp hmem
  have hall := (of_decide_eq_true h).1
  have hin := of_decide_eq_true (List.all_eq_true.mp hall item hitem)
  obtain ⟨name, hmem, heq⟩ := List.mem_map.mp hin
  rw [hname, py_inj] at heq
  exact heq ▸ hmem

theorem Frame.get_of_text {key : String} {s : PyStr} (h : frame.text key = some s) :
    frame.get key = some (.str s) := by
  obtain ⟨v, hv, hs⟩ := Option.bind_eq_some_iff.mp h
  rw [hv, Value.str?_eq_some.mp hs]

theorem Frame.get_of_int {key : String} {n : ℤ} (h : frame.int key = some n) :
    frame.get key = some (.int n) := by
  obtain ⟨v, hv, hn⟩ := Option.bind_eq_some_iff.mp h
  rw [hv]
  cases v with
  | int m =>
    obtain rfl := Option.some_inj.mp hn
    rfl
  | _ => exact nomatch hn

/-- Its integers are short, and its texts can be encoded. -/
structure EventPayload.Writable (payload : EventPayload) : Prop where
  numbers : ∀ n ∈ payload.numbers, digitCount n ≤ Value.maxStrDigits
  fields : ∀ field ∈ payload.fields, Clean field.1 ∧ Clean field.2

theorem clean_fieldText {field : PyStr × PyStr} (h : Clean field.1 ∧ Clean field.2) :
    Clean (fieldText field) := (clean_quote h.1).append (.cons (by decide) h.2)

/-- The bytes of an event whose parts can be written. -/
theorem eventBytes_ok {requestId attemptId : PyStr} {n : ℕ} {payload : EventPayload}
    (hrequest : Clean requestId) (hattempt : Clean attemptId)
    (hn : digitCount n ≤ Value.maxStrDigits) (hpayload : payload.Writable) :
    ∃ bytes, eventBytes requestId attemptId n payload = .ok bytes := by
  have hshort : ¬ ((n :: payload.numbers).any fun n => Value.maxStrDigits < digitCount n) = true := by
    intro hany
    obtain ⟨m, hm, hlong⟩ := List.any_eq_true.mp hany
    have hlong := of_decide_eq_true hlong
    rcases List.mem_cons.mp hm with rfl | hm
    · omega
    · have := hpayload.numbers m hm
      omega
  have hcommon : ∀ field ∈ [(py "protocol_version", quote (py eventProtocolVersion)),
      (py "type", quote (py payload.eventType.value)), (py "request_id", quote requestId),
      (py "attempt_id", quote attemptId), (py "sequence", intText n)],
      Clean field.1 ∧ Clean field.2 := by
    have hvalue : Clean (py payload.eventType.value) := by
      cases payload.eventType <;> decide
    simp only [List.forall_mem_cons]
    exact ⟨⟨by decide, clean_quote (by decide)⟩, ⟨by decide, clean_quote hvalue⟩,
      ⟨by decide, clean_quote hrequest⟩, ⟨by decide, clean_quote hattempt⟩,
      ⟨by decide, clean_intText n⟩, nofun⟩
  unfold eventBytes
  rw [if_neg hshort]
  dsimp only
  rw [encodeUtf8_of_clean]
  · exact ⟨_, rfl⟩
  · refine (Clean.cons (by decide) (clean_commaJoin fun part hpart => ?_)).append (by decide)
    obtain ⟨field, hfield, rfl⟩ := List.mem_map.mp hpart
    rcases List.mem_append.mp hfield with hfield | hfield
    · exact clean_fieldText (hcommon field hfield)
    · exact clean_fieldText (hpayload.fields field hfield)

/-- The phases of frames are short names. -/
theorem isBoundedText_phase {phase : String} (h : phase ∈ progressPhases) :
    IsBoundedText (py phase) maxPhaseBytes := by
  simp only [progressPhases, List.mem_cons, List.not_mem_nil, or_false] at h
  rcases h with rfl | rfl | rfl <;> decide

/-- The arguments that the event of a frame is made of. -/
def Frame.eventFields (frame : Frame F) (eventType : InferenceEventType) : EventFields F :=
  { eventType := eventType
    requestId := (frame.get "request_id").getD .null
    attemptId := (frame.get "attempt_id").getD .null
    sequence := (frame.get "sequence").getD .null
    phase := (frame.get "phase").getD .null
    tokens := (frame.get "tokens").getD ((frame.get "sampled_tokens").getD .null)
    delta := (frame.get "delta").getD .null }

theorem validateNonNegativeInteger_natCast (n : ℕ) (name : String) :
    validateNonNegativeInteger (.int n : Value F) name = .ok n := by
  rw [validateNonNegativeInteger, if_neg (by omega)]
  rfl

/-- The payload that the verifier asks for passes the check of the event. -/
theorem validatePayload_kind {t : InferenceEventType} (hkind : k.eventType = some t)
    (hpayload : PayloadOf frame k) (hkeys : hasKeys frame (commonKeys ++ payloadKeys t) = true)
    (hwritable : frame.Writable) :
    ∃ payload, validatePayload (frame.eventFields t) = .ok payload ∧ payload.Writable := by
  have habsent : ∀ key, key ∉ commonKeys ++ payloadKeys t → frame.get key = none :=
    fun key h => Frame.get_eq_none hkeys h
  cases k with
  | started =>
    obtain rfl := Option.some_inj.mp hkind
    refine ⟨.started, ?_, nofun, nofun⟩
    simp only [validatePayload, Frame.eventFields, habsent "phase" (by decide),
      habsent "tokens" (by decide), habsent "sampled_tokens" (by decide),
      habsent "delta" (by decide)]
    rfl
  | phase =>
    obtain rfl := Option.some_inj.mp hkind
    have hbounded : IsBoundedText (py "final") maxPhaseBytes := isBoundedText_phase (by decide)
    refine ⟨.phase (py "final"), ?_, nofun, ?_⟩
    · simp only [validatePayload, Frame.eventFields, Frame.get_of_text hpayload,
        Option.getD_some, validateBoundedText_str hbounded, habsent "tokens" (by decide),
        habsent "sampled_tokens" (by decide), habsent "delta" (by decide)]
      rfl
    · simp only [EventPayload.fields, List.forall_mem_singleton]
      exact ⟨by decide, clean_quote hbounded.2.1⟩
  | finalDelta =>
    obtain rfl := Option.some_inj.mp hkind
    obtain ⟨delta, hdelta, hne⟩ := hpayload
    refine ⟨.finalDelta delta, ?_, nofun, ?_⟩
    · simp only [validatePayload, Frame.eventFields, Frame.get_of_text hdelta,
        Option.getD_some, if_neg hne, habsent "phase" (by decide), habsent "tokens" (by decide),
        habsent "sampled_tokens" (by decide)]
      rfl
    · simp only [EventPayload.fields, List.forall_mem_singleton]
      exact ⟨by decide, clean_quote (hwritable.delta delta hdelta)⟩
  | progress =>
    obtain rfl := Option.some_inj.mp hkind
    obtain ⟨⟨phase, hphase, htext⟩, tokens, htokens⟩ := hpayload
    have hbounded := isBoundedText_phase hphase
    refine ⟨.progress (py phase) tokens, ?_, ?_, ?_⟩
    · simp only [validatePayload, Frame.eventFields, Frame.get_of_text htext,
        Frame.get_of_int htokens, Option.getD_some, validateBoundedText_str hbounded,
        validateNonNegativeInteger_natCast, habsent "delta" (by decide)]
      rfl
    · simp only [EventPayload.numbers, List.forall_mem_singleton]
      exact hwritable.numbers "tokens" tokens htokens
    · simp only [EventPayload.fields, List.forall_mem_cons]
      exact ⟨⟨by decide, clean_quote hbounded.2.1⟩, ⟨by decide, clean_intText tokens⟩, nofun⟩
  | heartbeat =>
    obtain rfl := Option.some_inj.mp hkind
    obtain ⟨tokens, htokens⟩ := hpayload
    refine ⟨.heartbeat tokens, ?_, ?_, ?_⟩
    · simp only [validatePayload, Frame.eventFields, Frame.get_of_int htokens,
        Option.getD_some, Option.getD_none, validateNonNegativeInteger_natCast,
        habsent "tokens" (by decide), habsent "phase" (by decide), habsent "delta" (by decide)]
      rfl
    · simp only [EventPayload.numbers, List.forall_mem_singleton]
      exact hwritable.numbers "sampled_tokens" tokens htokens
    · simp only [EventPayload.fields, List.forall_mem_singleton]
      exact ⟨by decide, clean_intText tokens⟩
  | completed | failed => exact nomatch hkind

/-- Arguments that pass their checks make an event. -/
theorem InferenceEvent.make_ok {fields : EventFields F} {requestId attemptId : PyStr} {n : ℕ}
    {payload : EventPayload} (hrequest : fields.requestId = .str requestId)
    (hrequestId : IsBoundedText requestId maxCorrelationIdBytes)
    (hattempt : fields.attemptId = .str attemptId)
    (hattemptId : IsBoundedText attemptId maxCorrelationIdBytes)
    (hsequence : fields.sequence = .int n) (hn : digitCount n ≤ Value.maxStrDigits)
    (hpayload : validatePayload fields = .ok payload) (hwritable : payload.Writable) :
    ∃ event, InferenceEvent.make fields = .ok event ∧ event.requestId = requestId ∧
      event.attemptId = attemptId ∧ event.sequence = n := by
  obtain ⟨bytes, hbytes⟩ := eventBytes_ok hrequestId.2.1 hattemptId.2.1 hn hwritable
  have hfirst : validateBoundedText fields.requestId "request_id" maxCorrelationIdBytes =
      .ok requestId := by rw [hrequest, validateBoundedText_str hrequestId]
  have hsecond : validateBoundedText fields.attemptId "attempt_id" maxCorrelationIdBytes =
      .ok attemptId := by rw [hattempt, validateBoundedText_str hattemptId]
  have hthird : validateNonNegativeInteger fields.sequence "sequence" = .ok n := by
    rw [hsequence, validateNonNegativeInteger_natCast]
  unfold InferenceEvent.make
  split
  · next e he => exact absurd (he.symm.trans hfirst) nofun
  next r hr =>
  obtain rfl := Except.ok.inj (hr.symm.trans hfirst)
  split
  · next e he => exact absurd (he.symm.trans hsecond) nofun
  next a ha =>
  obtain rfl := Except.ok.inj (ha.symm.trans hsecond)
  split
  · next e he => exact absurd (he.symm.trans hthird) nofun
  next m hm =>
  obtain rfl := Except.ok.inj (hm.symm.trans hthird)
  split
  · next e he => exact absurd (he.symm.trans hpayload) nofun
  next p hp =>
  obtain rfl := Except.ok.inj (hp.symm.trans hpayload)
  split
  · next e he => exact absurd (he.symm.trans hbytes) nofun
  · exact ⟨_, rfl, rfl, rfl, rfl⟩

/-- **An accepted frame is converted**, where it has the fields of its event and can be
written. -/
theorem fromIpcFrame_accepted {requestId attemptId : PyStr} {n : ℕ}
    (hrequest : IsBoundedText requestId maxCorrelationIdBytes)
    (hattempt : IsBoundedText attemptId maxCorrelationIdBytes)
    (hframe : IsFrame requestId attemptId n frame k) (hk : k.isTerminal = false)
    (hfields : frame.Documented) (hwritable : frame.Writable) :
    ∃ event, fromIpcFrame frame = .ok event ∧ event.requestId = requestId ∧
      event.attemptId = attemptId ∧ event.sequence = n := by
  obtain ⟨t, ht⟩ := eventType_eq_some hk
  have htype := (eventTypeOf_kind hframe.type).trans ht
  have hkeys := hfields t htype
  obtain ⟨payload, hpayload, hencodable⟩ := validatePayload_kind ht hframe.payload hkeys hwritable
  have hrequestId : (frame.eventFields t).requestId = .str requestId := by
    rw [Frame.eventFields, Frame.get_of_text hframe.request, Option.getD_some]
  have hattemptId : (frame.eventFields t).attemptId = .str attemptId := by
    rw [Frame.eventFields, Frame.get_of_text hframe.attempt, Option.getD_some]
  have hsequence : (frame.eventFields t).sequence = .int n := by
    rw [Frame.eventFields, Frame.get_of_int hframe.sequence, Option.getD_some]
  have hmake := InferenceEvent.make_ok hrequestId hrequest hattemptId hattempt hsequence
    (hwritable.numbers "sequence" n hframe.sequence) hpayload hencodable
  unfold fromIpcFrame
  rw [if_neg (not_not_intro hframe.version), htype]
  dsimp only
  rw [if_neg (not_not_intro hkeys)]
  exact hmake

end

/-! ### The position of the stream -/

namespace BoundedRequestEventBuffer

variable {b : BoundedRequestEventBuffer} {event : InferenceEvent}

/-- What `publish` looks at before it looks at the queue: the ids, the next sequence
number, and whether the buffer is closed. -/
def position (b : BoundedRequestEventBuffer) : PyStr × PyStr × ℕ × Bool :=
  (b.requestId, b.attemptId, b.nextSequence, b.closed)

theorem enqueue_position (b : BoundedRequestEventBuffer) (event : InferenceEvent)
    (coalesced : Bool) : (b.enqueue event coalesced).2.position = b.position := by
  unfold enqueue
  split_ifs <;> rfl

theorem removeOlderTelemetry_position (b : BoundedRequestEventBuffer) (event : InferenceEvent) :
    (b.removeOlderTelemetry event).2.position = b.position := by
  unfold removeOlderTelemetry
  split <;> rfl

theorem get_position (b : BoundedRequestEventBuffer) (timeout : Option ℚ) (elapsed : ℚ) :
    (b.get timeout elapsed).2.position = b.position := by
  rcases b.get_cases timeout elapsed with ⟨result, h, -⟩ | ⟨event, rest, -, h⟩
  · rw [h]
  · rw [h]
    rfl

/-- The event that is next is not refused, however full the buffer is. -/
theorem publish_next (hrequest : event.requestId = b.requestId)
    (hattempt : event.attemptId = b.attemptId) (hsequence : event.sequence = b.nextSequence)
    (hopen : b.closed = false) :
    (∃ result, (b.publish event).1 = .ok result) ∧
      (b.publish event).2.position = (b.requestId, b.attemptId, b.nextSequence + 1, false) := by
  have hvalid : b.validateStreamPosition event = .ok () := by
    unfold validateStreamPosition
    rw [if_neg (not_or.mpr ⟨not_not_intro hrequest, not_not_intro hattempt⟩),
      if_neg (not_not_intro hsequence)]
  have hmoved : position { b with nextSequence := b.nextSequence + 1 } =
      (b.requestId, b.attemptId, b.nextSequence + 1, false) := by
    rw [position, hopen]
  unfold publish
  rw [if_neg (by rw [hopen]; exact Bool.false_ne_true), hvalid]
  dsimp only
  by_cases hslow : b.slowConsumer = true
  · rw [if_pos hslow]
    exact ⟨⟨_, rfl⟩, hmoved⟩
  rw [if_neg hslow]
  refine ⟨⟨_, rfl⟩, ?_⟩
  show ((ite _ _ _ : Bool × BoundedRequestEventBuffer).2.enqueue event _).2.position = _
  rw [enqueue_position, ← hmoved]
  by_cases htelemetry : event.isCoalescible = true
  · rw [if_pos htelemetry]
    exact removeOlderTelemetry_position _ event
  · rw [if_neg htelemetry]

/-- A fresh buffer is at the start of the stream of its ids. -/
theorem make_position {requestId attemptId : PyStr} {maxEvents maxBytes : ℤ}
    (h : make requestId attemptId maxEvents maxBytes 0 = .ok b) :
    b.position = (requestId, attemptId, 0, false) ∧
      IsBoundedText requestId maxCorrelationIdBytes ∧
      IsBoundedText attemptId maxCorrelationIdBytes := by
  unfold make at h
  cases hrequest : validateBoundedText (.str requestId : Value Unit) "request_id"
      maxCorrelationIdBytes with
  | error e =>
    rw [hrequest] at h
    exact nomatch h
  | ok r =>
    cases hattempt : validateBoundedText (.str attemptId : Value Unit) "attempt_id"
        maxCorrelationIdBytes with
    | error e =>
      rw [hrequest, hattempt] at h
      exact nomatch h
    | ok a =>
      obtain ⟨hr, hrequestId⟩ := validateBoundedText_ok hrequest
      obtain ⟨ha, hattemptId⟩ := validateBoundedText_ok hattempt
      obtain rfl := Value.str.inj hr
      obtain rfl := Value.str.inj ha
      rw [hrequest, hattempt] at h
      simp only [bind, Except.bind] at h
      by_cases hevents : maxEvents ≤ 0
      · rw [if_pos hevents] at h
        exact nomatch h
      rw [if_neg hevents] at h
      by_cases hbytes : maxBytes ≤ 0
      · rw [if_pos hbytes] at h
        exact nomatch h
      rw [if_neg hbytes] at h
      obtain rfl := Except.ok.inj h
      exact ⟨rfl, hrequestId, hattemptId⟩

end BoundedRequestEventBuffer

/-! ### In step -/

section

variable {F : Type} [ComparedFloats F]

omit [ComparedFloats F] in
/-- A frame of clean texts and short integers can be written. -/
theorem Frame.writable_of_loaded {frame : Frame F}
    (h : (Value.dict frame.items).all loadedNode = true) : frame.Writable := by
  refine ⟨fun delta hdelta => ?_, fun key n hn => ?_⟩
  · exact clean_of_surrogateFree (surrogateFree_of_all (all_of_lookup h (get_of_text hdelta)))
  · have hnode : (cleanStrings (.int n : Value F) && (Value.int n : Value F).shortNumber) = true :=
      all_of_lookup h (get_of_int hn)
    exact of_decide_eq_true (Bool.and_eq_true_iff.mp hnode).2

/-- The frames given as objects can be written, where they are events. -/
def Writes (moves : List (Relay.Move F)) : Prop :=
  ∀ frame : Frame F, .frame (.object frame) ∈ moves → frame.IsEvent → frame.Writable

namespace Relay

/-- Nothing was refused, and the two counters agree until the request has ended. -/
structure InStep (requestId attemptId : PyStr) (s : Relay F) : Prop where
  request : s.verifier.requestId = requestId
  attempt : s.verifier.attemptId = attemptId
  ordered : s.verifier.Ordered
  position : s.buffer.position = (requestId, attemptId, s.published.length, false)
  sequence : s.verifier.stage ≠ .ended → s.verifier.nextSequence = s.published.length
  results : ∀ entry ∈ s.published, ∃ result, entry.2 = .ok result

variable {requestId attemptId : PyStr} {s : Relay F}

/-- What is decoded can be written, if it is an event. -/
theorem writable_of_decode {raw : Raw F} {frame : Frame F}
    (hraw : raw.decode = .ok (.dict frame.items)) (hevent : frame.IsEvent)
    (h : ∀ object : Frame F, raw = .object object → object.IsEvent → object.Writable) :
    frame.Writable := by
  cases raw with
  | text data => exact Frame.writable_of_loaded (loaded_of_loads hraw)
  | object object =>
    obtain rfl := Frame.mk_eq_of_dict (Except.ok.inj hraw)
    exact h _ rfl hevent

/-- A frame leaves the two in step. -/
theorem InStep.frame (h : InStep requestId attemptId s)
    (hrequest : IsBoundedText requestId maxCorrelationIdBytes)
    (hattempt : IsBoundedText attemptId maxCorrelationIdBytes) {raw : Raw F}
    (hfields : ∀ frame, (s.verifier.verify raw).1 = .ok frame → frame.Documented)
    (hwritable : ∀ frame : Frame F, raw = .object frame → frame.IsEvent → frame.Writable) :
    InStep requestId attemptId (s.step (.frame raw)) := by
  rcases s.verifier.verify_cases raw with ⟨frame, k, t, hraw, hframe, hnext, hverify⟩ | ⟨e, hverify⟩
  · have hdocumented := hfields frame (by rw [hverify])
    obtain ⟨hstage, hordered⟩ := FrameVerifier.stage_advance h.ordered hnext
    have hrunning : s.verifier.stage ≠ .ended := by
      intro hended
      rw [hended, Stage.next_ended] at hnext
      exact nomatch hnext
    have hsequence := h.sequence hrunning
    have hids : (s.verifier.accept k).requestId = requestId ∧
        (s.verifier.accept k).attemptId = attemptId :=
      ⟨(s.verifier.advance_requestId k).trans h.request,
        (s.verifier.advance_attemptId k).trans h.attempt⟩
    have hverifier : (s.verifier.accept k).stage = t := hstage
    cases hk : k.isTerminal with
    | true =>
      -- the request ends, and the buffer does not hear of it
      have hplain : ¬ frame.IsEvent := by
        rw [isEvent_iff hframe.type, hk]
        exact nofun
      have hstep : s.step (.frame raw) = { s with verifier := s.verifier.accept k } := by
        rw [step, hverify]
        exact if_neg hplain
      rw [hstep]
      exact ⟨hids.1, hids.2, hordered, h.position,
        fun hne => absurd (hverifier.trans ((Stage.next_terminal hnext).mpr hk)) hne, h.results⟩
    | false =>
      have hevent : frame.IsEvent := (isEvent_iff hframe.type).mpr hk
      rw [h.request, h.attempt, hsequence] at hframe
      obtain ⟨event, hconverted, hr, ha, hn⟩ := fromIpcFrame_accepted hrequest hattempt hframe hk
        hdocumented (writable_of_decode hraw hevent hwritable)
      obtain ⟨hbr, hba, hbn, hopen⟩ : s.buffer.requestId = requestId ∧
          s.buffer.attemptId = attemptId ∧ s.buffer.nextSequence = s.published.length ∧
          s.buffer.closed = false := by simpa [BoundedRequestEventBuffer.position] using h.position
      obtain ⟨⟨result, hresult⟩, hposition⟩ := BoundedRequestEventBuffer.publish_next
        (hr.trans hbr.symm) (ha.trans hba.symm) (hn.trans hbn.symm) hopen
      have hpublish : publishFrame s.buffer frame = s.buffer.publish event := by
        rw [publishFrame, hconverted]
      have hstep : s.step (.frame raw) =
          { verifier := s.verifier.accept k
            buffer := (s.buffer.publish event).2
            published := s.published ++ [(frame, .ok result)] } := by
        rw [step, hverify, ← hresult, ← hpublish]
        exact if_pos hevent
      rw [hstep]
      refine ⟨hids.1, hids.2, hordered, ?_, fun _ => ?_, ?_⟩
      · rw [hposition, hbr, hba, hbn, List.length_append, List.length_singleton]
      · show s.verifier.nextSequence + 1 = _
        rw [hsequence, List.length_append, List.length_singleton]
      · intro entry hentry
        rcases List.mem_append.mp hentry with hentry | hentry
        · exact h.results entry hentry
        · rw [List.mem_singleton.mp hentry]
          exact ⟨result, rfl⟩
  · have hstep : s.step (.frame raw) = s := by
      rw [step, hverify]
    rw [hstep]
    exact h

omit [ComparedFloats F] in
/-- Gets and drains move nothing but the queue. -/
theorem InStep.queue (h : InStep requestId attemptId s) {buffer : BoundedRequestEventBuffer}
    (hbuffer : buffer.position = s.buffer.position) :
    InStep requestId attemptId { s with buffer := buffer } :=
  ⟨h.request, h.attempt, h.ordered, hbuffer.trans h.position, h.sequence, h.results⟩

theorem accepted_frame (s : Relay F) (raw : Raw F) (rest : List (Move F)) :
    s.accepted (.frame raw :: rest) =
      (match (s.verifier.verify raw).1 with | .ok frame => [frame] | .error _ => []) ++
        (s.step (.frame raw)).accepted rest := by
  have hverifier : (s.step (.frame raw)).verifier = (s.verifier.verify raw).2 := by
    rw [step]
    rcases s.verifier.verify raw with ⟨e | frame, v⟩
    · rfl
    · dsimp only
      split_ifs <;> rfl
  have hrest : (s.step (.frame raw)).accepted rest =
      ((s.verifier.verify raw).2.run (rest.flatMap Move.fed)).1 := by rw [accepted, hverifier]
  rw [hrest, accepted, List.flatMap_cons]
  exact congrArg Prod.fst (s.verifier.run_cons raw (rest.flatMap Move.fed))

/-- The two are in step after every run. -/
theorem InStep.run (h : InStep requestId attemptId s)
    (hrequest : IsBoundedText requestId maxCorrelationIdBytes)
    (hattempt : IsBoundedText attemptId maxCorrelationIdBytes) (moves : List (Move F))
    (hfields : ∀ frame ∈ s.accepted moves, frame.Documented) (hwritable : Writes moves) :
    InStep requestId attemptId (s.run moves) := by
  induction moves generalizing s with
  | nil => exact h
  | cons move rest ih =>
    have hrest : Writes rest := fun frame hmem => hwritable frame (List.mem_cons_of_mem _ hmem)
    show InStep requestId attemptId ((s.step move).run rest)
    cases move with
    | frame raw =>
      rw [accepted_frame] at hfields
      refine ih (h.frame hrequest hattempt (fun frame hok => hfields frame ?_) fun frame hraw =>
        hwritable frame (hraw ▸ List.mem_cons_self)) (fun frame hmem => hfields frame ?_) hrest
      · rw [hok]
        exact List.mem_append_left _ (List.mem_singleton.mpr rfl)
      · exact List.mem_append_right _ hmem
    | get timeout elapsed =>
      exact ih (h.queue (s.buffer.get_position timeout elapsed)) hfields hrest
    | drain => exact ih (h.queue rfl) hfields hrest

omit [ComparedFloats F] in
theorem start_inStep {buffer : BoundedRequestEventBuffer}
    (h : buffer.position = (requestId, attemptId, 0, false)) :
    InStep requestId attemptId (start requestId attemptId buffer : Relay F) :=
  ⟨rfl, rfl, nofun, h, fun _ => rfl, nofun⟩

end Relay

end

/-- **The buffer follows the verifier**: whatever a fresh verifier is fed and whatever is
taken from a fresh buffer of the same ids in between, no event of an accepted frame is
refused, and the buffer counts the events that were published.  The frames have the
fields that are documented for them, and those that are not read from a text can be
written to one. -/
theorem events_follow {F : Type} [ComparedFloats F] {requestId attemptId : PyStr}
    {maxEvents maxBytes : ℤ} {buffer : BoundedRequestEventBuffer}
    (hbuffer : BoundedRequestEventBuffer.make requestId attemptId maxEvents maxBytes 0 = .ok buffer)
    (moves : List (Relay.Move F))
    (hfields : ∀ frame ∈ (Relay.start requestId attemptId buffer).accepted moves, frame.Documented)
    (hwritable : Writes moves) :
    let s := (Relay.start requestId attemptId buffer).run moves
    (∀ entry ∈ s.published, ∃ result, entry.2 = .ok result) ∧
      s.buffer.nextSequence = s.published.length := by
  obtain ⟨hposition, hrequest, hattempt⟩ := BoundedRequestEventBuffer.make_position hbuffer
  have h := (Relay.start_inStep hposition).run hrequest hattempt moves hfields hwritable
  exact ⟨h.results, congrArg (fun p => p.2.2.1) h.position⟩

/-- The `n`-th frame of a request. -/
def sampleFrame (n : ℕ) (type : String) (payload : List (PyStr × Value NoFloat)) : Frame NoFloat :=
  ⟨[(py "protocol_version", .str (py ipcVersion)), (py "type", .str (py type)),
    (py "request_id", .str (py "r")), (py "attempt_id", .str (py "a")),
    (py "sequence", .int n)] ++ payload⟩

/-- A line of the worker, a get and three decoded frames. -/
def sampleMoves : List (Relay.Move NoFloat) :=
  [.frame (.text (.str (py
      "\x7b\"protocol_version\":\"model-worker-ipc.v1\",\"type\":\"started\",\"request_id\":\"r\",\"attempt_id\":\"a\",\"sequence\":0\x7d"))),
    .get none 0,
    .frame (.object (sampleFrame 1 "heartbeat" [(py "sampled_tokens", .int 1)])),
    .frame (.object (sampleFrame 2 "phase" [(py "phase", .str (py "final"))])),
    .frame (.object (sampleFrame 3 "final_delta" [(py "delta", .str (py "x"))]))]

theorem sampleMoves_written : Writes sampleMoves := by
  intro frame hmem _
  refine Frame.writable_of_loaded ?_
  simp only [sampleMoves, List.mem_cons, List.not_mem_nil, or_false, reduceCtorEq, false_or,
    Relay.Move.frame.injEq, Raw.object.injEq] at hmem
  rcases hmem with rfl | rfl | rfl <;> decide +kernel

/-- With room for one event, the last two find the buffer full. -/
theorem events_follow_slow :
    ∃ buffer, BoundedRequestEventBuffer.make (py "r") (py "a") 1 1000 0 = .ok buffer ∧
      (let s := (Relay.start (py "r") (py "a") buffer).run sampleMoves
      (s.published.length = 4 ∧ s.buffer.slowConsumer = true) ∧
        (∀ entry ∈ s.published, ∃ result, entry.2 = .ok result) ∧
        s.buffer.nextSequence = s.published.length) := by
  have hbuffer : BoundedRequestEventBuffer.make (py "r") (py "a") 1 1000 0 =
      .ok ⟨py "r", py "a", 1, 1000, 0, [], 0, false, false, 0, 0⟩ := rfl
  have hrun : ∀ (s : Relay NoFloat) (moves : List (Relay.Move NoFloat)),
      @Relay.run NoFloat ComparedFloats.toFloats s moves = s.run moves := fun s moves => rfl
  have hfollow := events_follow hbuffer sampleMoves (by decide +kernel) sampleMoves_written
  dsimp only at hfollow
  rw [hrun] at hfollow
  exact ⟨_, hbuffer, by decide +kernel, hfollow⟩

/-- A delta that is half of a pair of surrogates. -/
def surrogateMoves : List (Relay.Move NoFloat) :=
  [.frame (.object (sampleFrame 0 "started" [])),
    .frame (.object (sampleFrame 1 "phase" [(py "phase", .str (py "final"))])),
    .frame (.object (sampleFrame 2 "final_delta" [(py "delta", .str [(0xD800 : CodePoint)])]))]

/-- The verifier accepts it, and its event cannot be made. -/
theorem events_not_followed :
    ∃ buffer, BoundedRequestEventBuffer.make (py "r") (py "a") 8 1000 0 = .ok buffer ∧
      (let start := Relay.start (py "r") (py "a") buffer
      (start.accepted surrogateMoves).length = 3 ∧
        (∀ frame ∈ start.accepted surrogateMoves, frame.Documented) ∧
        (start.run surrogateMoves).published.map (fun entry => entry.2.toOption.isSome) =
          [true, true, false] ∧
        (start.run surrogateMoves).buffer.nextSequence = 2) := by
  have hbuffer : BoundedRequestEventBuffer.make (py "r") (py "a") 8 1000 0 =
      .ok ⟨py "r", py "a", 8, 1000, 0, [], 0, false, false, 0, 0⟩ := rfl
  exact ⟨_, hbuffer, by decide +kernel⟩

end Worker
