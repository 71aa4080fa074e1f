/-
The telemetry of the event buffer.

A progress or heartbeat event takes the place of an older one of its type.  The older one
is taken out of the queue before it is known whether the newer one fits, and where it does
not, the older one is lost as well: only the newer one is counted as dropped.

* `Conserved` — every telemetry event that was published is delivered, queued or counted;
* `Loses` — the publications that lose an event;
* `telemetry_conserved_iff` — runs conserve telemetry unless one of them loses an event.
-/
import LlamaRuntime.Worker.EventBuffer

namespace Worker

namespace BoundedRequestEventBuffer

/-- The telemetry events among these. -/
def telemetryOf (events : List InferenceEvent) : ℕ :=
  events.countP fun event => event.isCoalescible

/-- How many telemetry events the operation has published while the buffer was open. -/
def Returned.telemetry : Returned → ℕ
  | .published event (.ok result) => if event.isCoalescible ∧ result ≠ .CLOSED then 1 else 0
  | _ => 0

def telemetryPublished (log : List Returned) : ℕ := (log.map Returned.telemetry).sum

/-- The telemetry that was published has been delivered, is queued, or has been counted. -/
def Conserved (log : List Returned) (b : BoundedRequestEventBuffer) : Prop :=
  telemetryPublished log = telemetryOf (delivered log) + telemetryOf b.events + b.coalescedTotal +
    b.droppedTelemetryTotal

/-- The queue is left as it is where telemetry is dropped. -/
def DropsQuietly (b : BoundedRequestEventBuffer) (event : InferenceEvent) : Prop :=
  (b.publish event).1 = .ok .DROPPED_TELEMETRY → (b.publish event).2.events = b.events

/-- Telemetry is conserved all along the operations, up to a slow consumer. -/
def TelemetryConserved (b : BoundedRequestEventBuffer) (ops : List Operation) : Prop :=
  ∀ before after, ops = before ++ after → (b.run before).2.slowConsumer = false →
    Conserved (b.run before).1 (b.run before).2 ∧
      ∀ event rest, after = .publish event :: rest → (b.run before).2.DropsQuietly event

/-- The event is telemetry in its place, and too large even for the room that the older event
of its type leaves. -/
def Loses (b : BoundedRequestEventBuffer) (event : InferenceEvent) : Prop :=
  b.closed = false ∧ b.slowConsumer = false ∧ b.validateStreamPosition event = .ok () ∧
    event.isCoalescible = true ∧
    ∃ queued, (b.events.find? fun queued => queued.eventType = event.eventType) = some queued ∧
      b.maxBytes < b.queuedBytes - queued.encodedSize + event.encodedSize

theorem telemetryOf_append (xs ys : List InferenceEvent) :
    telemetryOf (xs ++ ys) = telemetryOf xs + telemetryOf ys := List.countP_append ..

theorem telemetryOf_cons (event : InferenceEvent) (rest : List InferenceEvent) :
    telemetryOf (event :: rest) = telemetryOf rest + if event.isCoalescible then 1 else 0 :=
  List.countP_cons ..

theorem telemetryPublished_append (log : List Returned) (r : Returned) :
    telemetryPublished (log ++ [r]) = telemetryPublished log + r.telemetry := by
  simp [telemetryPublished]

/-- What `publish` does with an event in its place, in a buffer that is open and not slow. -/
theorem publish_open {b : BoundedRequestEventBuffer} {event : InferenceEvent}
    (hopen : b.closed = false) (hslow : b.slowConsumer = false)
    (hposition : b.validateStreamPosition event = .ok ()) :
    b.publish event =
      let next := { b with nextSequence := b.nextSequence + 1 }
      let taken := if event.isCoalescible then next.removeOlderTelemetry event else (false, next)
      (.ok (taken.2.enqueue event taken.1).1, (taken.2.enqueue event taken.1).2) := by
  unfold publish
  rw [if_neg (by rw [hopen]; exact Bool.false_ne_true), hposition]
  dsimp only
  rw [if_neg (by rw [hslow]; exact Bool.false_ne_true)]

/-- The older event of the type is taken out, where there is one. -/
theorem removeOlderTelemetry_cases (b : BoundedRequestEventBuffer) (event : InferenceEvent) :
    (b.events.find? (fun queued => queued.eventType = event.eventType) = none ∧
      b.removeOlderTelemetry event = (false, b)) ∨
    ∃ queued, b.events.find? (fun queued => queued.eventType = event.eventType) = some queued ∧
      b.removeOlderTelemetry event = (true, { b with
        events := b.events.erase queued
        queuedBytes := b.queuedBytes - queued.encodedSize }) := by
  unfold removeOlderTelemetry
  cases hfind : b.events.find? fun queued => queued.eventType = event.eventType with
  | none => exact .inl ⟨rfl, rfl⟩
  | some queued => exact .inr ⟨queued, rfl, rfl⟩

/-- The event that is taken out is telemetry. -/
theorem telemetryOf_erase {b : BoundedRequestEventBuffer} {event queued : InferenceEvent}
    (htelemetry : event.isCoalescible = true)
    (hfind : b.events.find? (fun queued => queued.eventType = event.eventType) = some queued) :
    telemetryOf b.events = telemetryOf (b.events.erase queued) + 1 ∧
      b.events.length = (b.events.erase queued).length + 1 := by
  have htype : queued.eventType = event.eventType := by simpa using List.find?_some hfind
  have hqueued : queued.isCoalescible = true := by
    rw [InferenceEvent.isCoalescible] at htelemetry ⊢
    rw [htype]
    exact htelemetry
  obtain ⟨before, after, -, hevents, herase⟩ :=
    List.exists_erase_eq (List.mem_of_find?_eq_some hfind)
  constructor
  · rw [herase, hevents, telemetryOf_append, telemetryOf_cons, telemetryOf_append, if_pos hqueued]
    omega
  · rw [herase, hevents, List.length_append, List.length_cons, List.length_append]
    omega

/-- Where a queue that has been coalesced has room for the event, `enqueue` counts everything. -/
theorem conserved_enqueue {log : List Returned} {b b' : BoundedRequestEventBuffer}
    {event : InferenceEvent} {coalesced : Bool} (h : Conserved log b)
    (hevents : telemetryOf b.events = telemetryOf b'.events + if coalesced then 1 else 0)
    (hcoalescedTotal : b'.coalescedTotal = b.coalescedTotal)
    (hdropped : b'.droppedTelemetryTotal = b.droppedTelemetryTotal)
    (hfits : coalesced = true → b'.Fits event)
    (hslow : (b'.enqueue event coalesced).2.slowConsumer = false) :
    Conserved (log ++ [.published event (.ok (b'.enqueue event coalesced).1)])
      (b'.enqueue event coalesced).2 := by
  have hdelivered (result : PublishResult) :
      delivered (log ++ [Returned.published event (.ok result)]) = delivered log := by
    rw [delivered_append]
    exact List.append_nil _
  unfold Conserved at h ⊢
  rw [telemetryPublished_append, hdelivered]
  revert hslow
  unfold BoundedRequestEventBuffer.enqueue
  by_cases hroom : b'.Fits event
  · rw [if_pos hroom]
    intro _
    have hpublished : (Returned.published event
        (.ok (if coalesced then .COALESCED else .ENQUEUED))).telemetry =
          if event.isCoalescible then 1 else 0 := by
      cases coalesced <;> simp [Returned.telemetry]
    show _ + (Returned.published event _).telemetry =
      _ + telemetryOf (b'.events ++ [event]) + (b'.coalescedTotal + _) + b'.droppedTelemetryTotal
    have hlast : telemetryOf [event] = if event.isCoalescible then 1 else 0 := by
      rw [telemetryOf_cons]
      exact Nat.zero_add _
    rw [hpublished, telemetryOf_append, hlast]
    omega
  · rw [if_neg hroom]
    -- the queue is as it was, since nothing has been taken out of it
    have hkept : coalesced = false := by
      rw [← Bool.not_eq_true]
      exact fun hcoalesced => hroom (hfits hcoalesced)
    rw [if_neg (by rw [hkept]; exact Bool.false_ne_true)] at hevents
    by_cases htelemetry : event.isCoalescible = true
    · rw [if_pos htelemetry]
      intro _
      have hpublished : (Returned.published event (.ok .DROPPED_TELEMETRY)).telemetry = 1 := by
        simp [Returned.telemetry, htelemetry]
      show _ + (Returned.published event _).telemetry =
        _ + telemetryOf b'.events + b'.coalescedTotal + (b'.droppedTelemetryTotal + 1)
      rw [hpublished]
      omega
    · rw [if_neg htelemetry]
      intro hslow
      exact nomatch hslow

/-- An event that is not lost finds room once the older event of its type is out of the queue. -/
theorem fits_of_not_loses {log : List Returned} {b : BoundedRequestEventBuffer}
    {event queued : InferenceEvent} (hkept : Kept log b) (hopen : b.closed = false)
    (hslow : b.slowConsumer = false) (hposition : b.validateStreamPosition event = .ok ())
    (htelemetry : event.isCoalescible = true)
    (hfind : b.events.find? (fun queued => queued.eventType = event.eventType) = some queued)
    (hloses : ¬ b.Loses event) :
    Fits { b with
      nextSequence := b.nextSequence + 1
      events := b.events.erase queued
      queuedBytes := b.queuedBytes - queued.encodedSize } event := by
  obtain ⟨-, hlength⟩ := telemetryOf_erase htelemetry hfind
  constructor
  · have hbound := hkept.count
    show (b.events.erase queued).length < b.maxEvents
    omega
  · show b.queuedBytes - queued.encodedSize + event.encodedSize ≤ b.maxBytes
    by_contra hlarge
    exact hloses ⟨hopen, hslow, hposition, htelemetry, queued, hfind, by omega⟩

theorem conserved_publish {log : List Returned} {b : BoundedRequestEventBuffer}
    {event : InferenceEvent} (hkept : Kept log b) (h : Conserved log b)
    (hslow : (b.publish event).2.slowConsumer = false) (hloses : ¬ b.Loses event) :
    Conserved (log ++ [.published event (b.publish event).1]) (b.publish event).2 := by
  have hquiet {result : Except EventFault PublishResult}
      (hresult : (Returned.published event result).telemetry = 0) :
      Conserved (log ++ [.published event result]) b := by
    unfold Conserved at h ⊢
    rw [telemetryPublished_append, delivered_append, hresult, Nat.add_zero, h]
    exact congrArg (fun events => telemetryOf events + _ + _ + _) (List.append_nil _).symm
  cases hclosed : b.closed with
  | true =>
    have hpublish : b.publish event = (.ok .CLOSED, b) := by
      unfold publish
      rw [if_pos hclosed]
    rw [hpublish]
    exact hquiet (by simp [Returned.telemetry])
  | false =>
    cases hposition : b.validateStreamPosition event with
    | error e =>
      have hpublish : b.publish event = (.error e, b) := by
        unfold publish
        rw [if_neg (by rw [hclosed]; exact Bool.false_ne_true), hposition]
      rw [hpublish]
      exact hquiet rfl
    | ok u =>
      have hnotSlow : b.slowConsumer = false := by
        rw [← Bool.not_eq_true] at hslow ⊢
        exact fun h => hslow (step_slow h (.publish event)).1
      rw [publish_open hclosed hnotSlow hposition] at hslow ⊢
      dsimp only at hslow ⊢
      by_cases htelemetry : event.isCoalescible = true
      · rw [if_pos htelemetry] at hslow ⊢
        rcases removeOlderTelemetry_cases { b with nextSequence := b.nextSequence + 1 } event with
          ⟨hfind, hremove⟩ | ⟨queued, hfind, hremove⟩
        · rw [hremove] at hslow ⊢
          exact conserved_enqueue h rfl rfl rfl nofun hslow
        · rw [hremove] at hslow ⊢
          have hroom := fits_of_not_loses hkept hclosed hnotSlow hposition htelemetry hfind hloses
          exact conserved_enqueue h (telemetryOf_erase htelemetry hfind).1 rfl rfl (fun _ => hroom)
            hslow
      · rw [if_neg htelemetry] at hslow ⊢
        exact conserved_enqueue h rfl rfl rfl nofun hslow

/-- The queue is left as it is where telemetry is dropped and nothing is lost. -/
theorem dropsQuietly_of_not_loses {log : List Returned} {b : BoundedRequestEventBuffer}
    {event : InferenceEvent} (hkept : Kept log b) (hslow : b.slowConsumer = false)
    (hloses : ¬ b.Loses event) : b.DropsQuietly event := by
  unfold DropsQuietly
  cases hclosed : b.closed with
  | true =>
    unfold publish
    rw [if_pos hclosed]
    exact nofun
  | false =>
    cases hposition : b.validateStreamPosition event with
    | error e =>
      unfold publish
      rw [if_neg (by rw [hclosed]; exact Bool.false_ne_true), hposition]
      exact nofun
    | ok u =>
      rw [publish_open hclosed hslow hposition]
      dsimp only
      by_cases htelemetry : event.isCoalescible = true
      · rw [if_pos htelemetry]
        rcases removeOlderTelemetry_cases { b with nextSequence := b.nextSequence + 1 } event with
          ⟨hfind, hremove⟩ | ⟨queued, hfind, hremove⟩
        · rw [hremove]
          unfold enqueue
          split_ifs <;> intro hdropped <;> first | rfl | exact nomatch hdropped
        · rw [hremove]
          have hroom := fits_of_not_loses hkept hclosed hslow hposition htelemetry hfind hloses
          unfold enqueue
          dsimp only
          rw [if_pos hroom]
          exact nofun
      · rw [if_neg htelemetry]
        unfold enqueue
        dsimp only
        split_ifs <;> exact nofun

/-- Telemetry goes over from the queue into what has been delivered. -/
theorem conserved_deliver {log : List Returned} {b b' : BoundedRequestEventBuffer} {r : Returned}
    (h : Conserved log b) (hevents : b.events = r.delivered ++ b'.events)
    (hcoalesced : b'.coalescedTotal = b.coalescedTotal)
    (hdropped : b'.droppedTelemetryTotal = b.droppedTelemetryTotal) (hr : r.telemetry = 0) :
    Conserved (log ++ [r]) b' := by
  unfold Conserved at h ⊢
  rw [hevents, telemetryOf_append] at h
  rw [telemetryPublished_append, delivered_append, telemetryOf_append, hr]
  omega

/-- **Step lemma.** -/
theorem conserved_step {log : List Returned} {b : BoundedRequestEventBuffer} (hkept : Kept log b)
    (h : Conserved log b) {op : Operation} (hslow : (b.step op).2.slowConsumer = false)
    (hloses : ∀ event, op = .publish event → ¬ b.Loses event) :
    Conserved (log ++ [(b.step op).1]) (b.step op).2 := by
  cases op with
  | publish event => exact conserved_publish hkept h hslow (hloses event rfl)
  | get timeout elapsed =>
    show Conserved (log ++ [.got (b.get timeout elapsed).1]) (b.get timeout elapsed).2
    rcases b.get_cases timeout elapsed with ⟨result, hget, hnone⟩ | ⟨event, rest, hevents, hget⟩
    · rw [hget]
      refine conserved_deliver h ?_ rfl rfl rfl
      match result, hnone with
      | .error e, _ => rfl
      | .ok .waits, _ => rfl
      | .ok .nothing, _ => rfl
      | .ok (.event event), hnone => exact absurd rfl (hnone event)
    · rw [hget]
      exact conserved_deliver h hevents rfl rfl rfl
  | drain => exact conserved_deliver h (List.append_nil _).symm rfl rfl rfl
  | close => exact conserved_deliver h rfl rfl rfl rfl

theorem run_stays_slow {b : BoundedRequestEventBuffer} (h : b.slowConsumer = true)
    (ops : List Operation) : (b.run ops).2.slowConsumer = true := by
  induction ops generalizing b with
  | nil => exact h
  | cons op rest ih => exact ih (step_slow h op).1

/-- **Run lemma.** -/
theorem conserved_run {log : List Returned} {b : BoundedRequestEventBuffer} (hkept : Kept log b)
    (h : Conserved log b) (ops : List Operation) (hslow : (b.run ops).2.slowConsumer = false)
    (hloses : ∀ before event rest, ops = before ++ .publish event :: rest →
      ¬ (b.run before).2.Loses event) :
    Conserved (log ++ (b.run ops).1) (b.run ops).2 := by
  induction ops generalizing log b with
  | nil => simpa [BoundedRequestEventBuffer.run] using h
  | cons op rest ih =>
    have hslow : ((b.step op).2.run rest).2.slowConsumer = false := hslow
    have hstep : (b.step op).2.slowConsumer = false := by
      rw [← Bool.not_eq_true] at hslow ⊢
      exact fun h => hslow (run_stays_slow h rest)
    have hhead := conserved_step hkept h hstep fun event hop => hloses [] event rest (by rw [hop]; rfl)
    have hrest := ih (hkept.step op) hhead hslow fun before event after hafter =>
      hloses (op :: before) event after (by rw [hafter]; rfl)
    rwa [List.append_assoc] at hrest

/-- A publication that loses an event says that it has dropped telemetry, and the older event is
gone. -/
theorem not_dropsQuietly_of_loses {b : BoundedRequestEventBuffer} {event : InferenceEvent}
    (h : b.Loses event) : ¬ b.DropsQuietly event := by
  obtain ⟨hopen, hslow, hposition, htelemetry, queued, hfind, hlarge⟩ := h
  have hremove : removeOlderTelemetry { b with nextSequence := b.nextSequence + 1 } event =
      (true, { b with
        nextSequence := b.nextSequence + 1
        events := b.events.erase queued
        queuedBytes := b.queuedBytes - queued.encodedSize }) := by
    unfold removeOlderTelemetry
    rw [show List.find? _ ({ b with nextSequence := b.nextSequence + 1 } :
      BoundedRequestEventBuffer).events = some queued from hfind]
  intro hquiet
  unfold DropsQuietly at hquiet
  rw [publish_open hopen hslow hposition] at hquiet
  dsimp only at hquiet
  rw [if_pos htelemetry, hremove] at hquiet
  unfold enqueue at hquiet
  rw [if_neg (fun hfits => by have hbytes := hfits.2; dsimp only at hbytes; omega),
    if_pos htelemetry] at hquiet
  have herased : b.events.erase queued = b.events := hquiet rfl
  have hlength := (telemetryOf_erase htelemetry hfind).2
  rw [herased] at hlength
  omega

theorem make_counts {requestId attemptId : PyStr} {maxEvents maxBytes nextSequence : ℤ}
    {b : BoundedRequestEventBuffer}
    (h : make requestId attemptId maxEvents maxBytes nextSequence = .ok b) :
    b.events = [] ∧ b.coalescedTotal = 0 ∧ b.droppedTelemetryTotal = 0 := by
  unfold make at h
  simp only [bind, Except.bind] at h
  split at h
  · exact nomatch h
  split at h
  · exact nomatch h
  split_ifs at h
  split at h
  · exact nomatch h
  obtain rfl := Except.ok.inj h
  exact ⟨rfl, rfl, rfl⟩

/-- **Telemetry is conserved** exactly in the runs none of whose publications loses an event: one
that is too large for the room that the older event of its type leaves. -/
theorem telemetry_conserved_iff {requestId attemptId : PyStr} {maxEvents maxBytes nextSequence : ℤ}
    {b : BoundedRequestEventBuffer}
    (hmake : make requestId attemptId maxEvents maxBytes nextSequence = .ok b)
    (ops : List Operation) :
    TelemetryConserved b ops ↔ ∀ before event rest, ops = before ++ .publish event :: rest →
      ¬ (b.run before).2.Loses event := by
  constructor
  · intro h before event rest hops hloses
    have hquiet := (h before (.publish event :: rest) hops hloses.2.1).2 event rest rfl
    exact not_dropsQuietly_of_loses hloses hquiet
  · intro h before after hops hslow
    have hkept := (make_kept hmake).1
    have hnew : Conserved [] b := by
      obtain ⟨hevents, hcoalesced, hdropped⟩ := make_counts hmake
      rw [Conserved, hevents, hcoalesced, hdropped]
      rfl
    refine ⟨?_, fun event rest hafter => ?_⟩
    · refine conserved_run hkept hnew before hslow fun earlier event rest hbefore => ?_
      exact h earlier event (rest ++ after) (by rw [hops, hbefore]; simp)
    · exact dropsQuietly_of_not_loses (hkept.run before) hslow
        (h before event rest (by rw [hops, hafter]))

/-- Two heartbeats of a request, of which the second takes one byte more. -/
def sampleHeartbeats : List Operation :=
  [(0, 9), (1, 10)].filterMap fun (n, tokens) =>
    ((InferenceEvent.make
      { eventType := .HEARTBEAT
        requestId := .str (py "r")
        attemptId := .str (py "a")
        sequence := .int n
        tokens := .int tokens : EventFields Unit }).map Operation.publish).toOption

/-- With room for the two of them, nothing is lost. -/
theorem telemetry_conserved_wide :
    ∃ b, make (py "r") (py "a") 2 1000 0 = .ok b ∧ (TelemetryConserved b sampleHeartbeats ↔
      ∀ before event rest, sampleHeartbeats = before ++ .publish event :: rest →
        ¬ (b.run before).2.Loses event) :=
  have h : make (py "r") (py "a") 2 1000 0 =
      .ok ⟨py "r", py "a", 2, 1000, 0, [], 0, false, false, 0, 0⟩ := rfl
  ⟨_, h, telemetry_conserved_iff h sampleHeartbeats⟩

/-- With room for the first of them only, both are gone and one of them is counted. -/
theorem telemetry_conserved_fails :
    ∃ b, make (py "r") (py "a") 2 126 0 = .ok b ∧ (b.run sampleHeartbeats).2.slowConsumer = false ∧
      ¬ TelemetryConserved b sampleHeartbeats := by
  refine ⟨⟨py "r", py "a", 2, 126, 0, [], 0, false, false, 0, 0⟩, rfl, by decide +kernel,
    fun h => ?_⟩
  have hconserved := (h sampleHeartbeats [] (List.append_nil _).symm (by decide +kernel)).1
  revert hconserved
  unfold Conserved
  decide +kernel

end BoundedRequestEventBuffer

end Worker
