/-
The bounded event buffer of a streamed request.

The blocks that `publish`, `get`, `drain` and `close` run under the condition of
the buffer are its atomic steps; `get` is one pass through its loop, since it lets
go of the condition where it waits.

* `step`, `run` — the steps, and what a list of them has returned;
* `Kept` — what holds of the buffer and of everything that has been returned;
* `buffer_kept` — it does, from the construction of the buffer on.
-/
import LlamaRuntime.Worker.Events

namespace Worker

inductive PublishResult where
  | ENQUEUED
  | COALESCED
  | DROPPED_TELEMETRY
  | SLOW_CONSUMER
  | CLOSED
  deriving DecidableEq

structure BoundedRequestEventBuffer where
  requestId : PyStr
  attemptId : PyStr
  maxEvents : ℕ
  maxBytes : ℕ
  nextSequence : ℕ := 0
  events : List InferenceEvent := []
  queuedBytes : ℤ := 0
  closed : Bool := false
  slowConsumer : Bool := false
  coalescedTotal : ℕ := 0
  droppedTelemetryTotal : ℕ := 0

namespace BoundedRequestEventBuffer

/-- `BoundedRequestEventBuffer(...)` -/
def make (requestId attemptId : PyStr) (maxEvents maxBytes nextSequence : ℤ) :
    Except EventFault BoundedRequestEventBuffer := do
  let requestId ← validateBoundedText (.str requestId : Json.Value Unit) "request_id"
    maxCorrelationIdBytes
  let attemptId ← validateBoundedText (.str attemptId : Json.Value Unit) "attempt_id"
    maxCorrelationIdBytes
  if maxEvents ≤ 0 then .error (.valueError "max_events must be a positive integer")
  else if maxBytes ≤ 0 then .error (.valueError "max_bytes must be a positive integer")
  else do
    let nextSequence ← validateNonNegativeInteger (.int nextSequence : Json.Value Unit)
      "next_sequence"
    .ok
      { requestId := requestId
        attemptId := attemptId
        maxEvents := maxEvents.toNat
        maxBytes := maxBytes.toNat
        nextSequence := nextSequence }

/-- `_validate_stream_position` -/
def validateStreamPosition (b : BoundedRequestEventBuffer) (event : InferenceEvent) :
    Except EventFault Unit :=
  if event.requestId ≠ b.requestId ∨ event.attemptId ≠ b.attemptId then
    .error (.validation .CORRELATION_MISMATCH
      (py "event request/attempt identity does not match the buffer"))
  else if event.sequence ≠ b.nextSequence then
    .error (.validation .SEQUENCE_MISMATCH
      (py s!"expected event sequence {b.nextSequence}, got {event.sequence}"))
  else .ok ()

/-- `_remove_older_telemetry` -/
def removeOlderTelemetry (b : BoundedRequestEventBuffer) (event : InferenceEvent) :
    Bool × BoundedRequestEventBuffer :=
  match b.events.find? fun queued => queued.eventType = event.eventType with
  | none => (false, b)
  | some queued =>
    (true, { b with
      events := b.events.erase queued
      queuedBytes := b.queuedBytes - queued.encodedSize })

/-- `_fits` -/
def Fits (b : BoundedRequestEventBuffer) (event : InferenceEvent) : Prop :=
  b.events.length < b.maxEvents ∧ b.queuedBytes + event.encodedSize ≤ b.maxBytes

instance (b : BoundedRequestEventBuffer) (event : InferenceEvent) : Decidable (b.Fits event) :=
  inferInstanceAs (Decidable (_ ∧ _))

/-- The end of `publish`, after older telemetry of the same type has been removed. -/
def enqueue (b : BoundedRequestEventBuffer) (event : InferenceEvent) (coalesced : Bool) :
    PublishResult × BoundedRequestEventBuffer :=
  if b.Fits event then
    (if coalesced then .COALESCED else .ENQUEUED,
      { b with
        events := b.events ++ [event]
        queuedBytes := b.queuedBytes + event.encodedSize
        coalescedTotal := b.coalescedTotal + if coalesced then 1 else 0 })
  else if event.isCoalescible then
    (.DROPPED_TELEMETRY, { b with droppedTelemetryTotal := b.droppedTelemetryTotal + 1 })
  else (.SLOW_CONSUMER, { b with slowConsumer := true })

/-- `publish` -/
def publish (b : BoundedRequestEventBuffer) (event : InferenceEvent) :
    Except EventFault PublishResult × BoundedRequestEventBuffer :=
  if b.closed then (.ok .CLOSED, b)
  else
    match b.validateStreamPosition event with
    | .error e => (.error e, b)
    | .ok _ =>
      let b := { b with nextSequence := b.nextSequence + 1 }
      if b.slowConsumer then (.ok .SLOW_CONSUMER, b)
      else
        let (coalesced, b) :=
          if event.isCoalescible then b.removeOlderTelemetry event else (false, b)
        let (result, b) := b.enqueue event coalesced
        (.ok result, b)

/-- What a pass through the loop of `get` ends in. -/
inductive Got where
  /-- it waits for a notification -/
  | waits
  /-- `return None` -/
  | nothing
  | event (event : InferenceEvent)
  deriving DecidableEq

/-- `get`, `elapsed` seconds after it was called. -/
def get (b : BoundedRequestEventBuffer) (timeout : Option ℚ) (elapsed : ℚ) :
    Except EventFault Got × BoundedRequestEventBuffer :=
  if timeout.any fun t => t < 0 then (.error (.valueError "timeout must be non-negative"), b)
  else
    match b.events with
    | [] =>
      if b.closed ∨ b.slowConsumer then (.ok .nothing, b)
      else if timeout.any fun t => t - elapsed ≤ 0 then (.ok .nothing, b)
      else (.ok .waits, b)
    | event :: rest =>
      (.ok (.event event),
        { b with events := rest, queuedBytes := b.queuedBytes - event.encodedSize })

/-- `drain` -/
def drain (b : BoundedRequestEventBuffer) : List InferenceEvent × BoundedRequestEventBuffer :=
  (b.events, { b with events := [], queuedBytes := 0 })

/-- `close` -/
def close (b : BoundedRequestEventBuffer) : BoundedRequestEventBuffer := { b with closed := true }

inductive Operation where
  | publish (event : InferenceEvent)
  | get (timeout : Option ℚ) (elapsed : ℚ)
  | drain
  | close

/-- An operation with what it has returned. -/
inductive Returned where
  | published (event : InferenceEvent) (result : Except EventFault PublishResult)
  | got (result : Except EventFault Got)
  | drained (events : List InferenceEvent)
  | closed

def step (b : BoundedRequestEventBuffer) : Operation → Returned × BoundedRequestEventBuffer
  | .publish event => (.published event (b.publish event).1, (b.publish event).2)
  | .get timeout elapsed => (.got (b.get timeout elapsed).1, (b.get timeout elapsed).2)
  | .drain => (.drained b.drain.1, b.drain.2)
  | .close => (.closed, b.close)

def run (b : BoundedRequestEventBuffer) : List Operation → List Returned × BoundedRequestEventBuffer
  | [] => ([], b)
  | op :: rest =>
    ((b.step op).1 :: ((b.step op).2.run rest).1, ((b.step op).2.run rest).2)

/-! ### What has been returned -/

/-- The events an operation has delivered. -/
def Returned.delivered : Returned → List InferenceEvent
  | .got (.ok (.event event)) => [event]
  | .drained events => events
  | _ => []

/-- The event whose `publish` has returned `ENQUEUED`. -/
def Returned.enqueued : Returned → List InferenceEvent
  | .published event (.ok .ENQUEUED) => [event]
  | _ => []

/-- A `publish` has returned `SLOW_CONSUMER`. -/
def Returned.IsSlow : Returned → Prop
  | .published _ (.ok .SLOW_CONSUMER) => True
  | _ => False

/-- A `publish` has put its event into the queue. -/
def Returned.IsQueued : Returned → Prop
  | .published _ (.ok .ENQUEUED) => True
  | .published _ (.ok .COALESCED) => True
  | _ => False

/-- Everything delivered so far. -/
def delivered (log : List Returned) : List InferenceEvent := log.flatMap Returned.delivered

/-- The events that no other event may take the place of. -/
def essential (events : List InferenceEvent) : List InferenceEvent :=
  events.filter fun event => !event.isCoalescible

def totalSize (events : List InferenceEvent) : ℕ := (events.map InferenceEvent.encodedSize).sum

/-- What holds of the buffer after the operations of the log. -/
structure Kept (log : List Returned) (b : BoundedRequestEventBuffer) : Prop where
  count : b.events.length ≤ b.maxEvents
  bytes : b.queuedBytes = totalSize b.events
  room : b.queuedBytes ≤ b.maxBytes
  /-- sequence numbers rise from what has been delivered to what is queued -/
  rising : ((delivered log ++ b.events).map InferenceEvent.sequence).Pairwise (· < ·)
  below : ∀ event ∈ delivered log ++ b.events, event.sequence < b.nextSequence
  conserved : essential (delivered log ++ b.events) =
    essential (log.flatMap Returned.enqueued)
  /-- once slow, the buffer stays slow -/
  slow : (∃ r ∈ log, r.IsSlow) → b.slowConsumer = true

theorem delivered_append (log : List Returned) (r : Returned) :
    delivered (log ++ [r]) = delivered log ++ r.delivered := by
  simp [delivered]

theorem enqueued_append (log : List Returned) (r : Returned) :
    (log ++ [r]).flatMap Returned.enqueued = log.flatMap Returned.enqueued ++ r.enqueued := by
  simp

theorem essential_append (xs ys : List InferenceEvent) :
    essential (xs ++ ys) = essential xs ++ essential ys := List.filter_append ..

theorem essential_telemetry {event : InferenceEvent} (h : event.isCoalescible = true) :
    essential [event] = [] := by
  simp [essential, h]

theorem totalSize_append (xs ys : List InferenceEvent) :
    totalSize (xs ++ ys) = totalSize xs + totalSize ys := by
  simp [totalSize]

theorem totalSize_singleton (event : InferenceEvent) : totalSize [event] = event.encodedSize := by
  simp [totalSize]

theorem totalSize_cons (event : InferenceEvent) (rest : List InferenceEvent) :
    totalSize (event :: rest) = event.encodedSize + totalSize rest := by
  simp [totalSize]

/-- The queue has lost telemetry at most, and nothing else has changed. -/
structure Thinned (b b' : BoundedRequestEventBuffer) : Prop where
  events : b'.events.Sublist b.events
  essential : essential b'.events = essential b.events
  size : totalSize b'.events ≤ totalSize b.events
  bytes : b.queuedBytes = totalSize b.events → b'.queuedBytes = totalSize b'.events
  others : b' = { b with events := b'.events, queuedBytes := b'.queuedBytes }

theorem thinned_refl (b : BoundedRequestEventBuffer) : Thinned b b :=
  ⟨List.Sublist.refl _, rfl, Nat.le_refl _, id, rfl⟩

/-- What `_remove_older_telemetry` takes away is one event of the same type. -/
theorem removeOlderTelemetry_thinned (b : BoundedRequestEventBuffer) {event : InferenceEvent}
    (h : event.isCoalescible = true) : Thinned b (b.removeOlderTelemetry event).2 := by
  unfold removeOlderTelemetry
  cases hfind : b.events.find? fun queued => queued.eventType = event.eventType with
  | none => exact thinned_refl b
  | some queued =>
    have htype : queued.eventType = event.eventType := by simpa using List.find?_some hfind
    have hqueued : queued.isCoalescible = true := by
      rw [InferenceEvent.isCoalescible] at h ⊢
      rw [htype]
      exact h
    obtain ⟨before, after, -, hevents, herase⟩ :=
      List.exists_erase_eq (List.mem_of_find?_eq_some hfind)
    have hsize : totalSize b.events = totalSize (b.events.erase queued) + queued.encodedSize := by
      rw [herase, hevents, totalSize_append, totalSize_cons, totalSize_append]
      omega
    refine ⟨List.erase_sublist, ?_, ?_, fun hbytes => ?_, rfl⟩
    · show essential (b.events.erase queued) = _
      rw [herase, hevents, essential_append, essential_append]
      simp [essential, hqueued]
    · show totalSize (b.events.erase queued) ≤ _
      omega
    · show b.queuedBytes - queued.encodedSize = (totalSize (b.events.erase queued) : ℤ)
      omega

/-- Everything `publish` can do. -/
inductive Published (b : BoundedRequestEventBuffer) (event : InferenceEvent) :
    Except EventFault PublishResult × BoundedRequestEventBuffer → Prop where
  | refused (result : Except EventFault PublishResult)
      (quiet : result = .ok .CLOSED ∨ ∃ e, result = .error e) : Published b event (result, b)
  | slow (slow : b.slowConsumer = true) :
      Published b event (.ok .SLOW_CONSUMER, { b with nextSequence := b.nextSequence + 1 })
  | taken (b' : BoundedRequestEventBuffer) (coalesced : Bool) (slow : b.slowConsumer = false)
      (sequence : event.sequence = b.nextSequence)
      (thinned : Thinned { b with nextSequence := b.nextSequence + 1 } b')
      (telemetry : coalesced = true → event.isCoalescible = true) :
      Published b event (.ok (b'.enqueue event coalesced).1, (b'.enqueue event coalesced).2)

theorem published (b : BoundedRequestEventBuffer) (event : InferenceEvent) :
    Published b event (b.publish event) := by
  unfold publish
  by_cases hclosed : b.closed = true
  · rw [if_pos hclosed]
    exact .refused _ (.inl rfl)
  rw [if_neg hclosed]
  cases hposition : b.validateStreamPosition event with
  | error e => exact .refused _ (.inr ⟨e, rfl⟩)
  | ok u =>
    have hsequence : event.sequence = b.nextSequence := by
      unfold validateStreamPosition at hposition
      by_contra hne
      split_ifs at hposition
    dsimp only
    by_cases hslow : b.slowConsumer = true
    · rw [if_pos hslow]
      exact .slow hslow
    rw [if_neg hslow]
    rw [Bool.not_eq_true] at hslow
    by_cases htelemetry : event.isCoalescible = true
    · rw [if_pos htelemetry]
      exact .taken _ _ hslow hsequence (removeOlderTelemetry_thinned _ htelemetry)
        fun _ => htelemetry
    · rw [if_neg htelemetry]
      exact .taken _ false hslow hsequence (thinned_refl _) nofun

/-- Everything a pass of `get` can do: it takes the oldest event, or nothing. -/
theorem get_cases (b : BoundedRequestEventBuffer) (timeout : Option ℚ) (elapsed : ℚ) :
    (∃ result, b.get timeout elapsed = (result, b) ∧ ∀ event, result ≠ .ok (.event event)) ∨
    ∃ event rest, b.events = event :: rest ∧ b.get timeout elapsed = (.ok (.event event),
      { b with events := rest, queuedBytes := b.queuedBytes - event.encodedSize }) := by
  unfold get
  by_cases hnegative : (timeout.any fun t => t < 0) = true
  · rw [if_pos hnegative]
    exact .inl ⟨_, rfl, nofun⟩
  rw [if_neg hnegative]
  cases hevents : b.events with
  | nil =>
    dsimp only
    by_cases hover : b.closed = true ∨ b.slowConsumer = true
    · rw [if_pos hover]
      exact .inl ⟨_, rfl, nofun⟩
    rw [if_neg hover]
    by_cases hlate : (timeout.any fun t => t - elapsed ≤ 0) = true
    · rw [if_pos hlate]
      exact .inl ⟨_, rfl, nofun⟩
    · rw [if_neg hlate]
      exact .inl ⟨_, rfl, nofun⟩
  | cons event rest => exact .inr ⟨event, rest, rfl, rfl⟩

theorem Kept.thin {log : List Returned} {b b' : BoundedRequestEventBuffer} (h : Kept log b)
    (hthin : Thinned b b') : Kept log b' := by
  have hsub : (delivered log ++ b'.events).Sublist (delivered log ++ b.events) :=
    hthin.events.append_left _
  have hbytes := hthin.bytes h.bytes
  have hsize := hthin.size
  obtain ⟨hcount, hold, hroom, hrising, hbelow, hconserved, hslow⟩ := h
  have hothers := hthin.others
  refine ⟨?_, hbytes, ?_, hrising.sublist (hsub.map _), fun event hevent => ?_, ?_, fun hex => ?_⟩
  · rw [hothers]
    exact hthin.events.length_le.trans hcount
  · rw [hothers]
    show b'.queuedBytes ≤ (b.maxBytes : ℤ)
    omega
  · rw [hothers]
    exact hbelow event (hsub.subset hevent)
  · rw [← hconserved, essential_append, essential_append, hthin.essential]
  · rw [hothers]
    exact hslow hex

/-- The sequence number that comes next. -/
theorem Kept.advance {log : List Returned} {b : BoundedRequestEventBuffer} (h : Kept log b) :
    Kept log { b with nextSequence := b.nextSequence + 1 } :=
  ⟨h.count, h.bytes, h.room, h.rising, fun event hevent => (h.below event hevent).trans
    (Nat.lt_succ_self _), h.conserved, h.slow⟩

/-- An operation that delivers and enqueues nothing. -/
theorem Kept.quiet {log : List Returned} {b : BoundedRequestEventBuffer} {r : Returned}
    (h : Kept log b) (hdelivered : r.delivered = []) (henqueued : r.enqueued = [])
    (hslow : r.IsSlow → b.slowConsumer = true) : Kept (log ++ [r]) b := by
  have hlog : delivered (log ++ [r]) = delivered log := by
    rw [delivered_append, hdelivered, List.append_nil]
  refine ⟨h.count, h.bytes, h.room, ?_, ?_, ?_, ?_⟩
  · rw [hlog]
    exact h.rising
  · rw [hlog]
    exact h.below
  · rw [hlog, enqueued_append, henqueued, List.append_nil]
    exact h.conserved
  · rintro ⟨r', hmem, hr'⟩
    rcases List.mem_append.mp hmem with hmem | hmem
    · exact h.slow ⟨r', hmem, hr'⟩
    · exact hslow (List.mem_singleton.mp hmem ▸ hr')

/-- An event goes to the end of the queue. -/
theorem Kept.append {log : List Returned} {b : BoundedRequestEventBuffer} {event : InferenceEvent}
    {result : PublishResult} (h : Kept log b) (hfits : b.Fits event)
    (hlast : ∀ e ∈ delivered log ++ b.events, e.sequence < event.sequence)
    (hnext : event.sequence < b.nextSequence) (total : ℕ)
    (hresult : result = .ENQUEUED ∨ result = .COALESCED ∧ event.isCoalescible = true) :
    Kept (log ++ [.published event (.ok result)])
      { b with
        events := b.events ++ [event]
        queuedBytes := b.queuedBytes + event.encodedSize
        coalescedTotal := total } := by
  have hlog : delivered (log ++ [Returned.published event (.ok result)]) = delivered log := by
    rw [delivered_append]
    exact List.append_nil _
  obtain ⟨hlength, hroom⟩ := hfits
  have hbytes := h.bytes
  refine ⟨?_, ?_, hroom, ?_, fun e he => ?_, ?_, ?_⟩
  · show (b.events ++ [event]).length ≤ b.maxEvents
    rw [List.length_append, List.length_singleton]
    omega
  · show b.queuedBytes + event.encodedSize = (totalSize (b.events ++ [event]) : ℤ)
    rw [totalSize_append, totalSize_singleton]
    omega
  · show ((delivered _ ++ (b.events ++ [event])).map InferenceEvent.sequence).Pairwise (· < ·)
    rw [hlog, ← List.append_assoc, List.map_append, List.pairwise_append]
    refine ⟨h.rising, by simp, fun n hn m hm => ?_⟩
    obtain ⟨e, he, rfl⟩ := List.mem_map.mp hn
    obtain rfl : m = event.sequence := by simpa using hm
    exact hlast e he
  · rw [hlog] at he
    have he : e ∈ delivered log ++ (b.events ++ [event]) := he
    rw [← List.append_assoc] at he
    rcases List.mem_append.mp he with he | he
    · exact h.below e he
    · obtain rfl := List.mem_singleton.mp he
      exact hnext
  · show essential (delivered _ ++ (b.events ++ [event])) = _
    rw [hlog, ← List.append_assoc, essential_append, h.conserved, enqueued_append,
      essential_append]
    rcases hresult with rfl | ⟨rfl, htelemetry⟩
    · rfl
    · rw [essential_telemetry htelemetry]
      rfl
  · rintro ⟨r, hmem, hr⟩
    rcases List.mem_append.mp hmem with hmem | hmem
    · exact h.slow ⟨r, hmem, hr⟩
    · obtain rfl := List.mem_singleton.mp hmem
      rcases hresult with rfl | ⟨rfl, -⟩ <;> exact hr.elim

/-- The end of `publish`. -/
theorem Kept.enqueue {log : List Returned} {b : BoundedRequestEventBuffer}
    {event : InferenceEvent} {coalesced : Bool} (h : Kept log b)
    (hlast : ∀ e ∈ delivered log ++ b.events, e.sequence < event.sequence)
    (hnext : event.sequence < b.nextSequence)
    (hcoalesced : coalesced = true → event.isCoalescible = true) :
    Kept (log ++ [.published event (.ok (b.enqueue event coalesced).1)])
      (b.enqueue event coalesced).2 := by
  unfold BoundedRequestEventBuffer.enqueue
  by_cases hfits : b.Fits event
  · rw [if_pos hfits]
    refine h.append hfits hlast hnext _ ?_
    cases coalesced with
    | true => exact .inr ⟨rfl, hcoalesced rfl⟩
    | false => exact .inl rfl
  rw [if_neg hfits]
  by_cases htelemetry : event.isCoalescible = true
  · rw [if_pos htelemetry]
    have hquiet : Kept (log ++ [.published event (.ok .DROPPED_TELEMETRY)]) b :=
      h.quiet rfl rfl nofun
    exact ⟨hquiet.count, hquiet.bytes, hquiet.room, hquiet.rising, hquiet.below, hquiet.conserved,
      hquiet.slow⟩
  · rw [if_neg htelemetry]
    have hslow : Kept log { b with slowConsumer := true } :=
      ⟨h.count, h.bytes, h.room, h.rising, h.below, h.conserved, fun _ => rfl⟩
    exact hslow.quiet rfl rfl fun _ => rfl

theorem Kept.publish {log : List Returned} {b : BoundedRequestEventBuffer} (h : Kept log b)
    (event : InferenceEvent) :
    Kept (log ++ [.published event (b.publish event).1]) (b.publish event).2 := by
  have hpublished := b.published event
  generalize b.publish event = result at hpublished
  cases hpublished with
  | refused result quiet =>
    rcases quiet with rfl | ⟨e, rfl⟩
    · exact h.quiet rfl rfl nofun
    · exact h.quiet rfl rfl nofun
  | slow slow => exact h.advance.quiet rfl rfl fun _ => slow
  | taken b' coalesced slow sequence thinned telemetry =>
    have hnext : b'.nextSequence = b.nextSequence + 1 :=
      congrArg BoundedRequestEventBuffer.nextSequence thinned.others
    refine (h.advance.thin thinned).enqueue (fun e he => ?_) (by omega) telemetry
    -- every event seen so far comes before this one
    rw [sequence]
    exact h.below e ((thinned.events.append_left _).subset he)

/-- The queue goes over into what has been delivered, from its head on. -/
theorem Kept.deliver {log : List Returned} {b : BoundedRequestEventBuffer} {r : Returned}
    {rest : List InferenceEvent} {bytes : ℤ} (h : Kept log b) (hevents : b.events = r.delivered ++ rest)
    (hbytes : bytes = totalSize rest) (henqueued : r.enqueued = []) (hslow : ¬ r.IsSlow) :
    Kept (log ++ [r]) { b with events := rest, queuedBytes := bytes } := by
  have hall : delivered (log ++ [r]) ++ rest = delivered log ++ b.events := by
    rw [delivered_append, hevents, List.append_assoc]
  have hsize := h.bytes
  have hroom := h.room
  have hcount := h.count
  rw [hevents, totalSize_append] at hsize
  rw [hevents, List.length_append] at hcount
  refine ⟨?_, hbytes, ?_, ?_, ?_, ?_, ?_⟩
  · show rest.length ≤ b.maxEvents
    omega
  · show bytes ≤ (b.maxBytes : ℤ)
    omega
  · show ((delivered (log ++ [r]) ++ rest).map InferenceEvent.sequence).Pairwise (· < ·)
    rw [hall]
    exact h.rising
  · show ∀ event ∈ delivered (log ++ [r]) ++ rest, event.sequence < b.nextSequence
    rw [hall]
    exact h.below
  · show essential (delivered (log ++ [r]) ++ rest) = _
    rw [hall, enqueued_append, henqueued, List.append_nil]
    exact h.conserved
  · rintro ⟨r', hmem, hr'⟩
    rcases List.mem_append.mp hmem with hmem | hmem
    · exact h.slow ⟨r', hmem, hr'⟩
    · exact absurd (List.mem_singleton.mp hmem ▸ hr') hslow

theorem Kept.get {log : List Returned} {b : BoundedRequestEventBuffer} (h : Kept log b)
    (timeout : Option ℚ) (elapsed : ℚ) :
    Kept (log ++ [.got (b.get timeout elapsed).1]) (b.get timeout elapsed).2 := by
  rcases b.get_cases timeout elapsed with ⟨result, hget, hnone⟩ | ⟨event, rest, hevents, hget⟩
  · rw [hget]
    refine h.quiet ?_ rfl nofun
    match result, hnone with
    | .error e, _ => rfl
    | .ok .waits, _ => rfl
    | .ok .nothing, _ => rfl
    | .ok (.event event), hnone => exact absurd rfl (hnone event)
  · rw [hget]
    have hbytes := h.bytes
    rw [hevents, totalSize_cons] at hbytes
    exact h.deliver hevents (by omega) rfl nofun

/-- **Step lemma.** -/
theorem Kept.step {log : List Returned} {b : BoundedRequestEventBuffer} (h : Kept log b)
    (op : Operation) : Kept (log ++ [(b.step op).1]) (b.step op).2 := by
  cases op with
  | publish event => exact h.publish event
  | get timeout elapsed => exact h.get timeout elapsed
  | drain => exact h.deliver (List.append_nil _).symm rfl rfl nofun
  | close =>
    have hclosed : Kept log b.close :=
      ⟨h.count, h.bytes, h.room, h.rising, h.below, h.conserved, h.slow⟩
    exact hclosed.quiet rfl rfl nofun

/-- **Run lemma.** -/
theorem Kept.run {log : List Returned} {b : BoundedRequestEventBuffer} (h : Kept log b)
    (ops : List Operation) : Kept (log ++ (b.run ops).1) (b.run ops).2 := by
  induction ops generalizing log b with
  | nil => simpa [BoundedRequestEventBuffer.run] using h
  | cons op rest ih =>
    have hrest := ih (h.step op)
    rwa [List.append_assoc] at hrest

theorem make_kept {requestId attemptId : PyStr} {maxEvents maxBytes nextSequence : ℤ}
    {b : BoundedRequestEventBuffer}
    (h : make requestId attemptId maxEvents maxBytes nextSequence = .ok b) :
    Kept [] b ∧ (b.maxEvents : ℤ) = maxEvents ∧ (b.maxBytes : ℤ) = maxBytes := by
  unfold make at h
  simp only [bind, Except.bind] at h
  split at h
  · exact nomatch h
  split at h
  · exact nomatch h
  by_cases hevents : maxEvents ≤ 0
  · rw [if_pos hevents] at h
    exact nomatch h
  rw [if_neg hevents] at h
  by_cases hbytes : maxBytes ≤ 0
  · rw [if_pos hbytes] at h
    exact nomatch h
  rw [if_neg hbytes] at h
  split at h
  · exact nomatch h
  obtain rfl := Except.ok.inj h
  refine ⟨⟨Nat.zero_le _, rfl, Int.natCast_nonneg _, List.Pairwise.nil, nofun, rfl, nofun⟩, ?_, ?_⟩
  · show (maxEvents.toNat : ℤ) = maxEvents
    omega
  · show (maxBytes.toNat : ℤ) = maxBytes
    omega

theorem enqueue_others (b : BoundedRequestEventBuffer) (event : InferenceEvent) (coalesced : Bool) :
    (b.enqueue event coalesced).2.maxEvents = b.maxEvents ∧
      (b.enqueue event coalesced).2.maxBytes = b.maxBytes := by
  unfold enqueue
  split_ifs <;> exact ⟨rfl, rfl⟩

theorem step_limits (b : BoundedRequestEventBuffer) (op : Operation) :
    (b.step op).2.maxEvents = b.maxEvents ∧ (b.step op).2.maxBytes = b.maxBytes := by
  cases op with
  | publish event =>
    show (b.publish event).2.maxEvents = _ ∧ (b.publish event).2.maxBytes = _
    have hpublished := b.published event
    generalize b.publish event = result at hpublished
    cases hpublished with
    | refused => exact ⟨rfl, rfl⟩
    | slow => exact ⟨rfl, rfl⟩
    | taken b' coalesced slow sequence thinned telemetry =>
      obtain ⟨hcount, hbytes⟩ := b'.enqueue_others event coalesced
      have hcount' := congrArg BoundedRequestEventBuffer.maxEvents thinned.others
      have hbytes' := congrArg BoundedRequestEventBuffer.maxBytes thinned.others
      exact ⟨hcount.trans hcount', hbytes.trans hbytes'⟩
  | get timeout elapsed =>
    show (b.get timeout elapsed).2.maxEvents = _ ∧ (b.get timeout elapsed).2.maxBytes = _
    rcases b.get_cases timeout elapsed with ⟨result, hget, -⟩ | ⟨event, rest, -, hget⟩
    · rw [hget]
      exact ⟨rfl, rfl⟩
    · rw [hget]
      exact ⟨rfl, rfl⟩
  | drain => exact ⟨rfl, rfl⟩
  | close => exact ⟨rfl, rfl⟩

theorem run_limits (b : BoundedRequestEventBuffer) (ops : List Operation) :
    (b.run ops).2.maxEvents = b.maxEvents ∧ (b.run ops).2.maxBytes = b.maxBytes := by
  induction ops generalizing b with
  | nil => exact ⟨rfl, rfl⟩
  | cons op rest ih =>
    obtain ⟨hcount, hbytes⟩ := ih (b.step op).2
    obtain ⟨hcount', hbytes'⟩ := b.step_limits op
    exact ⟨hcount.trans hcount', hbytes.trans hbytes'⟩

/-- A slow buffer takes no event, and stays slow. -/
theorem step_slow {b : BoundedRequestEventBuffer} (h : b.slowConsumer = true) (op : Operation) :
    (b.step op).2.slowConsumer = true ∧ ¬ (b.step op).1.IsQueued := by
  cases op with
  | publish event =>
    show (b.publish event).2.slowConsumer = true ∧
      ¬ (Returned.published event (b.publish event).1).IsQueued
    have hpublished := b.published event
    generalize b.publish event = result at hpublished
    cases hpublished with
    | refused result quiet =>
      rcases quiet with rfl | ⟨e, rfl⟩
      · exact ⟨h, id⟩
      · exact ⟨h, id⟩
    | slow slow => exact ⟨h, id⟩
    | taken b' coalesced slow sequence thinned telemetry =>
      rw [h] at slow
      exact nomatch slow
  | get timeout elapsed =>
    refine ⟨?_, id⟩
    show (b.get timeout elapsed).2.slowConsumer = true
    rcases b.get_cases timeout elapsed with ⟨result, hget, -⟩ | ⟨event, rest, -, hget⟩
    · rw [hget]
      exact h
    · rw [hget]
      exact h
  | drain => exact ⟨h, id⟩
  | close => exact ⟨h, id⟩

theorem run_slow {b : BoundedRequestEventBuffer} (h : b.slowConsumer = true)
    (ops : List Operation) : ∀ r ∈ (b.run ops).1, ¬ r.IsQueued := by
  induction ops generalizing b with
  | nil => exact nofun
  | cons op rest ih =>
    obtain ⟨hslow, hqueued⟩ := step_slow h op
    intro r hr
    rcases List.mem_cons.mp hr with rfl | hr
    · exact hqueued
    · exact ih hslow r hr

/-- After a slow consumer nothing is queued any more. -/
theorem Kept.slow_final {log : List Returned} {b : BoundedRequestEventBuffer} (h : Kept log b)
    {ops : List Operation} {before after : List Returned} {r : Returned}
    (hlog : (b.run ops).1 = before ++ r :: after) (hr : r.IsSlow) :
    ∀ r' ∈ after, ¬ r'.IsQueued := by
  induction ops generalizing log b before with
  | nil =>
    have hlog : [] = before ++ r :: after := hlog
    exact absurd hlog (by simp)
  | cons op rest ih =>
    have hlog : (b.step op).1 :: ((b.step op).2.run rest).1 = before ++ r :: after := hlog
    cases before with
    | nil =>
      obtain ⟨hhead, htail⟩ := List.cons.inj hlog
      rw [← htail]
      exact run_slow ((h.step op).slow ⟨r, by simp [hhead], hr⟩) rest
    | cons first before => exact ih (h.step op) (List.cons.inj hlog).2

/-- **The buffer is bounded and loses nothing essential**: after any operations on
a new buffer, its queue is within both limits and its count of bytes is right; the
delivered events come in rising order; the essential events delivered, followed by
those still queued, are the ones whose `publish` has returned `ENQUEUED`; and after
a slow consumer no event is queued any more. -/
theorem buffer_kept {requestId attemptId : PyStr} {maxEvents maxBytes nextSequence : ℤ}
    {b : BoundedRequestEventBuffer}
    (h : make requestId attemptId maxEvents maxBytes nextSequence = .ok b)
    (ops : List Operation) :
    ((b.run ops).2.events.length : ℤ) ≤ maxEvents ∧
    (b.run ops).2.queuedBytes = ((b.run ops).2.events.map InferenceEvent.encodedSize).sum ∧
    (b.run ops).2.queuedBytes ≤ maxBytes ∧
    ((delivered (b.run ops).1).map InferenceEvent.sequence).Pairwise (· < ·) ∧
    essential (delivered (b.run ops).1) ++ essential (b.run ops).2.events =
      essential ((b.run ops).1.flatMap Returned.enqueued) ∧
    ∀ before r after, (b.run ops).1 = before ++ r :: after → r.IsSlow →
      ∀ r' ∈ after, ¬ r'.IsQueued := by
  obtain ⟨hnew, hmaxEvents, hmaxBytes⟩ := make_kept h
  have hkept := hnew.run ops
  rw [List.nil_append] at hkept
  obtain ⟨hcount, hbytes⟩ := b.run_limits ops
  have hevents := hkept.count
  have hroom := hkept.room
  refine ⟨by omega, hkept.bytes, by omega, ?_, ?_, fun before r after => hnew.slow_final⟩
  · have hrising := hkept.rising
    rw [List.map_append] at hrising
    exact (List.pairwise_append.mp hrising).1
  · rw [← essential_append]
    exact hkept.conserved

/-- Four deltas published by the worker. -/
def sampleOperations : List Operation :=
  [0, 1, 2, 3].filterMap fun n =>
    ((InferenceEvent.make
      { eventType := .FINAL_DELTA
        requestId := .str (py "r")
        attemptId := .str (py "a")
        sequence := .int n
        delta := .str (py "x") : EventFields Unit }).map Operation.publish).toOption

/-- A buffer with room for two events: the third is too much. -/
theorem buffer_kept_full :
    ∃ b, make (py "r") (py "a") 2 1000 0 = .ok b ∧
      (b.run sampleOperations).2.events.map InferenceEvent.sequence = [0, 1] ∧
      (b.run sampleOperations).2.slowConsumer = true ∧
      ((b.run sampleOperations).2.events.length : ℤ) ≤ 2 :=
  have h : make (py "r") (py "a") 2 1000 0 =
      .ok ⟨py "r", py "a", 2, 1000, 0, [], 0, false, false, 0, 0⟩ := rfl
  ⟨_, h, by decide +kernel, by decide +kernel, (buffer_kept h sampleOperations).1⟩

end BoundedRequestEventBuffer

end Worker
