/-
What the clients and the worker can do to the scheduler's state.

* `ClientChange` — an operation of a client leaves alone everything the loop
  owns: entries get a cancellation mark at most, and new ones are queued;
* `Advance` — an action of the worker moves entries forward only, and settles
  an entry at the moment it becomes terminal;
* `Coherent` — entries, tables and callers fit together.  It holds in every
  reachable state, whatever the backend, the clock and the sinks do.
-/
import LlamaRuntime.Inference.Scheduler

namespace Inference

open RuntimeRequestState

/-! ### Entries -/

namespace RuntimeRequestState

/-- The entry has left the admission queue and has been opened. -/
def Started : RuntimeRequestState → Prop
  | QUEUED | OPENING => False
  | _ => True

/-- The entry has left the prefill phase. -/
def PastPrefill : RuntimeRequestState → Prop
  | QUEUED | OPENING | PREFILL | PREFILL_INFLIGHT => False
  | _ => True

end RuntimeRequestState

namespace RequestEntry

/-- The part of an entry only the worker writes. -/
def owned (x : RequestEntry) : RequestEntry := { x with cancelRequested := false }

/-- As `infer` creates it. -/
structure Fresh (x : RequestEntry) : Prop where
  state : x.state = QUEUED
  handle : x.handle = none
  admittedEventSent : x.admittedEventSent = false
  terminalizing : x.terminalizing = false

theorem Fresh.of_owned {x y : RequestEntry} (h : x.Fresh) (ho : y.owned = x.owned) : y.Fresh := by
  have h1 := congrArg RequestEntry.state ho
  have h2 := congrArg RequestEntry.handle ho
  have h3 := congrArg RequestEntry.admittedEventSent ho
  have h4 := congrArg RequestEntry.terminalizing ho
  exact ⟨Eq.trans h1 h.state, Eq.trans h2 h.handle, Eq.trans h3 h.admittedEventSent,
    Eq.trans h4 h.terminalizing⟩

/-- Exactly one of result and error is set. -/
def Settled (x : RequestEntry) : Prop :=
  (x.result.isSome ∧ x.error = none) ∨ (x.result = none ∧ x.error.isSome)

/-- How the worker may change an entry. -/
structure Advances (x y : RequestEntry) : Prop where
  scheduling : y.scheduling = x.scheduling
  terminal : x.state = TERMINAL → y.state = TERMINAL ∧ y.result = x.result ∧ y.error = x.error
  settled : x.state ≠ TERMINAL → y.state = TERMINAL → y.Settled

/-- The entry does not fall back to an earlier phase either. -/
structure Proceeds (x y : RequestEntry) : Prop extends Advances x y where
  started : x.state.Started → y.state.Started
  pastPrefill : x.state.PastPrefill → y.state.PastPrefill

theorem Advances.refl (x : RequestEntry) : x.Advances x :=
  ⟨rfl, fun h => ⟨h, rfl, rfl⟩, fun h h' => absurd h' h⟩

theorem Proceeds.refl (x : RequestEntry) : x.Proceeds x := ⟨.refl x, id, id⟩

theorem Advances.trans {x y z : RequestEntry} (h : x.Advances y) (h' : y.Advances z) :
    x.Advances z where
  scheduling := h'.scheduling.trans h.scheduling
  terminal := by
    intro hx
    obtain ⟨hy, hr, he⟩ := h.terminal hx
    obtain ⟨hz, hr', he'⟩ := h'.terminal hy
    exact ⟨hz, hr'.trans hr, he'.trans he⟩
  settled := by
    intro hx hz
    by_cases hy : y.state = TERMINAL
    · obtain ⟨_, hr, he⟩ := h'.terminal hy
      have hs := h.settled hx hy
      rwa [Settled, ← hr, ← he] at hs
    · exact h'.settled hy hz

theorem Proceeds.trans {x y z : RequestEntry} (h : x.Proceeds y) (h' : y.Proceeds z) :
    x.Proceeds z :=
  ⟨h.toAdvances.trans h'.toAdvances, fun hx => h'.started (h.started hx),
    fun hx => h'.pastPrefill (h.pastPrefill hx)⟩

/-- An update that leaves state, result and error alone. -/
theorem Advances.of_state {x y : RequestEntry} (hs : y.scheduling = x.scheduling)
    (hstate : y.state = x.state) (hr : y.result = x.result) (he : y.error = x.error) :
    x.Advances y :=
  ⟨hs, fun h => ⟨hstate.trans h, hr, he⟩, fun h h' => absurd (hstate ▸ h') h⟩

theorem Proceeds.of_state {x y : RequestEntry} (hs : y.scheduling = x.scheduling)
    (hstate : y.state = x.state) (hr : y.result = x.result) (he : y.error = x.error) :
    x.Proceeds y :=
  ⟨.of_state hs hstate hr he, by rw [hstate]; exact id, by rw [hstate]; exact id⟩

/-- A live entry moves on to another state that is not terminal. -/
theorem Advances.of_live {x y : RequestEntry} (hs : y.scheduling = x.scheduling)
    (hx : x.state ≠ TERMINAL) (hy : y.state ≠ TERMINAL) : x.Advances y :=
  ⟨hs, fun h => absurd h hx, fun _ h => absurd h hy⟩

end RequestEntry

namespace Caller

/-- The `infer` call is still in its wait. -/
def Waiting : Caller → Prop
  | .blocked | .woken => True
  | _ => False

/-- A call that is over has handed out the outcome of its entry. -/
def Agrees (x : RequestEntry) : Caller → Prop
  | .returned result => x.state = TERMINAL ∧ x.result = some result ∧ x.error = none
  | .raised error => x.state = TERMINAL ∧ x.error = some error
  | _ => True

@[simp] theorem waiting_notify {c : Caller} : c.notify.Waiting ↔ c.Waiting := by
  cases c <;> rfl

@[simp] theorem agrees_notify {c : Caller} {x : RequestEntry} : c.notify.Agrees x ↔ c.Agrees x := by
  cases c <;> rfl

@[simp] theorem notify_notify (c : Caller) : c.notify.notify = c.notify := by cases c <;> rfl

theorem Agrees.advance {c : Caller} {x y : RequestEntry} (h : c.Agrees x) (ha : x.Advances y) :
    c.Agrees y := by
  cases c with
  | blocked => trivial
  | woken => trivial
  | returned result =>
    obtain ⟨hx, hr, he⟩ := h
    obtain ⟨hy, hr', he'⟩ := ha.terminal hx
    exact ⟨hy, hr'.trans hr, he'.trans he⟩
  | raised error =>
    obtain ⟨hx, he⟩ := h
    obtain ⟨hy, _, he'⟩ := ha.terminal hx
    exact ⟨hy, he'.trans he⟩

end Caller

namespace SchedulerState

theorem live_iff {s : SchedulerState} {e : ℕ} :
    s.live e = true ↔ (s.entry e).state ≠ TERMINAL := by simp [live]

theorem state_of_length_le {s : SchedulerState} {e : ℕ} (h : s.heap.length ≤ e) :
    (s.entry e).state = QUEUED := by
  rw [entry, List.getD_eq_getElem?_getD, List.getElem?_eq_none h]
  rfl

theorem lt_length_of_state {s : SchedulerState} {e : ℕ} (h : (s.entry e).state ≠ QUEUED) :
    e < s.heap.length := by
  by_contra hge
  exact h (state_of_length_le (not_lt.mp hge))

/-! ### Coherence -/

/-- Entries, tables and callers fit together. -/
structure Coherent (s : SchedulerState) : Prop where
  callers_length : s.callers.length = s.heap.length
  registered : ∀ id e, s.entries.get? id = some e → e < s.heap.length ∧ s.requestId e = id
  waiting : ∀ (e : ℕ) c, s.callers[e]? = some c → c.Waiting →
    s.entries.get? (s.requestId e) = some e
  live_waits : ∀ (e : ℕ) c, s.callers[e]? = some c → (s.entry e).state ≠ TERMINAL → c.Waiting
  settled : ∀ e < s.heap.length, (s.entry e).state = TERMINAL → (s.entry e).Settled
  agrees : ∀ (e : ℕ) c, s.callers[e]? = some c → c.Agrees (s.entry e)

theorem coherent_empty : Coherent {} where
  callers_length := rfl
  registered := fun id e h => absurd h (by simp)
  waiting := fun e c h => absurd h (by simp)
  live_waits := fun _ _ h => absurd h (by simp)
  settled := fun e h => absurd h (by simp)
  agrees := fun e c h => absurd h (by simp)

variable {s s' s'' : SchedulerState}

/-- A live entry is the one its request id is registered for. -/
theorem Coherent.get?_of_live (h : Coherent s) {e : ℕ} (he : e < s.heap.length)
    (hlive : (s.entry e).state ≠ TERMINAL) : s.entries.get? (s.requestId e) = some e := by
  have hc : e < s.callers.length := by rw [h.callers_length]; exact he
  have hget : s.callers[e]? = some s.callers[e] := List.getElem?_eq_getElem hc
  exact h.waiting e _ hget (h.live_waits e _ hget hlive)

/-- Live entries have different request ids. -/
theorem Coherent.requestId_inj (h : Coherent s) {e e' : ℕ} (he : e < s.heap.length)
    (he' : e' < s.heap.length) (hlive : (s.entry e).state ≠ TERMINAL)
    (hlive' : (s.entry e').state ≠ TERMINAL) (heq : s.requestId e = s.requestId e') : e = e' := by
  have h1 := h.get?_of_live he hlive
  have h2 := h.get?_of_live he' hlive'
  rw [heq, h2] at h1
  exact (Option.some_inj.mp h1).symm

/-- An action of the worker. -/
structure Advance (s s' : SchedulerState) : Prop where
  length : s'.heap.length = s.heap.length
  entry : ∀ e, (s.entry e).Advances (s'.entry e)
  entries : s'.entries = s.entries
  callers : s'.callers = s.callers ∨ s'.callers = s.callers.map Caller.notify

namespace Advance

theorem refl (s : SchedulerState) : Advance s s :=
  ⟨rfl, fun _ => .refl _, rfl, .inl rfl⟩

theorem trans (h : Advance s s') (h' : Advance s' s'') : Advance s s'' where
  length := h'.length.trans h.length
  entry := fun e => (h.entry e).trans (h'.entry e)
  entries := h'.entries.trans h.entries
  callers := by
    rcases h.callers with h1 | h1 <;> rcases h'.callers with h2 | h2
    · exact .inl (h2.trans h1)
    · exact .inr (by rw [h2, h1])
    · exact .inr (h2.trans h1)
    · refine .inr ?_
      rw [h2, h1, List.map_map]
      exact List.map_congr_left fun c _ => Caller.notify_notify c

theorem requestId (h : Advance s s') (e : ℕ) : s'.requestId e = s.requestId e := by
  rw [SchedulerState.requestId, (h.entry e).scheduling, SchedulerState.requestId]

theorem live_of_live (h : Advance s s') {e : ℕ} (hl : (s'.entry e).state ≠ TERMINAL) :
    (s.entry e).state ≠ TERMINAL :=
  fun ht => hl ((h.entry e).terminal ht).1

/-- A caller after the action is a caller from before, possibly notified. -/
theorem caller (h : Advance s s') {e : ℕ} {c : Caller} (hc : s'.callers[e]? = some c) :
    ∃ c₀, s.callers[e]? = some c₀ ∧ (c = c₀ ∨ c = c₀.notify) := by
  rcases h.callers with h1 | h1
  · exact ⟨c, h1 ▸ hc, .inl rfl⟩
  · rw [h1, List.getElem?_map] at hc
    obtain ⟨c₀, hc₀, rfl⟩ := Option.map_eq_some_iff.mp hc
    exact ⟨c₀, hc₀, .inr rfl⟩

end Advance

/-- Every action of the worker keeps the state coherent. -/
theorem Coherent.advance (h : Coherent s) (ha : Advance s s') : Coherent s' where
  callers_length := by
    rw [ha.length, ← h.callers_length]
    rcases ha.callers with hc | hc
    · rw [hc]
    · rw [hc, List.length_map]
  registered := by
    intro id e he
    rw [ha.entries] at he
    obtain ⟨hlt, hid⟩ := h.registered id e he
    exact ⟨ha.length ▸ hlt, (ha.requestId e).trans hid⟩
  waiting := by
    intro e c hc hw
    obtain ⟨c₀, hc₀, heq⟩ := ha.caller hc
    have hw₀ : c₀.Waiting := by
      rcases heq with rfl | rfl
      · exact hw
      · exact Caller.waiting_notify.mp hw
    rw [ha.entries, ha.requestId]
    exact h.waiting e c₀ hc₀ hw₀
  live_waits := by
    intro e c hc hl
    obtain ⟨c₀, hc₀, heq⟩ := ha.caller hc
    have hw₀ := h.live_waits e c₀ hc₀ (ha.live_of_live hl)
    rcases heq with rfl | rfl
    · exact hw₀
    · exact Caller.waiting_notify.mpr hw₀
  settled := by
    intro e he ht
    by_cases hl : (s.entry e).state = TERMINAL
    · obtain ⟨_, hr, herr⟩ := (ha.entry e).terminal hl
      have hs := h.settled e (ha.length ▸ he) hl
      rwa [RequestEntry.Settled, ← hr, ← herr] at hs
    · exact (ha.entry e).settled hl ht
  agrees := by
    intro e c hc
    obtain ⟨c₀, hc₀, heq⟩ := ha.caller hc
    have hag := (h.agrees e c₀ hc₀).advance (ha.entry e)
    rcases heq with rfl | rfl
    · exact hag
    · exact Caller.agrees_notify.mpr hag

/-- One entry is rewritten; the tables stay. -/
theorem Advance.modify {e : ℕ} {f : RequestEntry → RequestEntry}
    (hheap : s'.heap = s.heap.modify e f) (hentries : s'.entries = s.entries)
    (hcallers : s'.callers = s.callers ∨ s'.callers = s.callers.map Caller.notify)
    (hf : (s.entry e).Advances (f (s.entry e))) :
    Advance s s' where
  length := length_modify hheap
  entry := by
    intro e'
    rw [entry_modify hheap]
    split_ifs with hc
    · exact hc.1 ▸ hf
    · exact .refl _
  entries := hentries
  callers := hcallers

/-- No entry is rewritten. -/
theorem Advance.of_heap (hheap : s'.heap = s.heap) (hentries : s'.entries = s.entries)
    (hcallers : s'.callers = s.callers ∨ s'.callers = s.callers.map Caller.notify) :
    Advance s s' where
  length := by rw [hheap]
  entry := fun e => by rw [entry_congr hheap]; exact .refl _
  entries := hentries
  callers := hcallers

/-! ### Clients -/

/-- What the operations of the clients may change. -/
structure ClientChange (s s' : SchedulerState) : Prop where
  length_le : s.heap.length ≤ s'.heap.length
  owned : ∀ e < s.heap.length, (s'.entry e).owned = (s.entry e).owned
  fresh : ∀ e, s.heap.length ≤ e → e < s'.heap.length → (s'.entry e).Fresh
  prefill : s'.prefill = s.prefill
  decode : s'.decode = s.decode
  published : s'.published = s.published
  backendCalls : s'.backendCalls = s.backendCalls
  cleanup : s'.cleanup = s.cleanup
  stopped : s'.stopped = s.stopped
  refused : s.stopped = true → s'.heap.length = s.heap.length
  unblocked : ∀ e < s.heap.length, (s.entry e).state = TERMINAL →
    s.callers[e]? ≠ some .blocked → s'.callers[e]? ≠ some .blocked

namespace ClientChange

theorem refl (s : SchedulerState) : ClientChange s s :=
  ⟨le_rfl, fun _ _ => rfl, fun _ h h' => absurd h' (not_lt.mpr h), rfl, rfl, rfl, rfl, rfl, rfl,
    fun _ => rfl, fun _ _ _ h => h⟩

variable {e : ℕ}

/-- Where there was no entry, the new one is queued. -/
theorem state (h : ClientChange s s') (e : ℕ) : (s'.entry e).state = (s.entry e).state := by
  by_cases he : e < s.heap.length
  · have ho := congrArg RequestEntry.state (h.owned e he)
    exact ho
  · rw [state_of_length_le (not_lt.mp he)]
    by_cases he' : e < s'.heap.length
    · exact (h.fresh e (not_lt.mp he) he').state
    · exact state_of_length_le (not_lt.mp he')

theorem handle (h : ClientChange s s') (he : e < s.heap.length) :
    (s'.entry e).handle = (s.entry e).handle := by
  have ho := congrArg RequestEntry.handle (h.owned e he)
  exact ho

theorem terminalizing (h : ClientChange s s') (he : e < s.heap.length) :
    (s'.entry e).terminalizing = (s.entry e).terminalizing := by
  have ho := congrArg RequestEntry.terminalizing (h.owned e he)
  exact ho

theorem requestId (h : ClientChange s s') (he : e < s.heap.length) :
    s'.requestId e = s.requestId e := by
  have ho := congrArg (fun x : RequestEntry => x.scheduling.requestId) (h.owned e he)
  exact ho

theorem trans (h : ClientChange s s') (h' : ClientChange s' s'') : ClientChange s s'' where
  length_le := h.length_le.trans h'.length_le
  owned := fun e he => (h'.owned e (he.trans_le h.length_le)).trans (h.owned e he)
  fresh := by
    intro e hge hlt
    by_cases hmid : e < s'.heap.length
    · exact (h.fresh e hge hmid).of_owned (h'.owned e hmid)
    · exact h'.fresh e (not_lt.mp hmid) hlt
  prefill := h'.prefill.trans h.prefill
  decode := h'.decode.trans h.decode
  published := h'.published.trans h.published
  backendCalls := h'.backendCalls.trans h.backendCalls
  cleanup := h'.cleanup.trans h.cleanup
  stopped := h'.stopped.trans h.stopped
  refused := fun hs => (h'.refused (h.stopped.trans hs)).trans (h.refused hs)
  unblocked := fun e he ht hb => h'.unblocked e (he.trans_le h.length_le)
    ((h.state e).trans ht) (h.unblocked e he ht hb)

end ClientChange

end SchedulerState

namespace ContinuousBatchScheduler

open SchedulerState

variable {cfg : SchedulerConfig} {s : SchedulerState}

/-- An `infer` call that is admitted finds a running scheduler that does not know
its request id; any other leaves the state alone. -/
theorem infer_cases (request : PreflightedRequest) (metadata : SchedulingMetadata)
    (attemptId : PyStr) (clock : ClockReading) (s : SchedulerState) :
    (∃ refusal, infer cfg request metadata attemptId clock s = (.error refusal, s)) ∨
    ∃ x admission, infer cfg request metadata attemptId clock s
        = (.ok s.heap.length, register x { s with admission := admission })
      ∧ x.scheduling = metadata ∧ x.Fresh ∧ x.cancelRequested = false ∧ s.stopped = false
      ∧ s.entries.get? metadata.requestId = none := by
  unfold infer
  cases clock.now with
  | error exc => exact .inl ⟨_, rfl⟩
  | ok now =>
    dsimp only
    by_cases hdead : queueDeadline request metadata now ≤ now
    · rw [if_pos hdead]
      exact .inl ⟨_, rfl⟩
    rw [if_neg hdead]
    cases estimateReservation cfg request with
    | none => exact .inl ⟨_, rfl⟩
    | some estimated =>
      dsimp only
      by_cases hstopped : s.stopped = true
      · rw [if_pos hstopped]
        exact .inl ⟨_, rfl⟩
      rw [if_neg hstopped]
      by_cases hstopping : s.stopping = true
      · rw [if_pos hstopping]
        exact .inl ⟨_, rfl⟩
      rw [if_neg hstopping]
      by_cases hdup : s.entries.contains metadata.requestId = true
      · rw [if_pos hdup]
        exact .inl ⟨_, rfl⟩
      rw [if_neg hdup]
      by_cases hfull : cfg.maxPendingRequests ≤ s.liveEntries.length
      · rw [if_pos hfull]
        exact .inl ⟨_, rfl⟩
      rw [if_neg hfull]
      cases s.admission.admitRequest cfg.limits cfg.policy metadata estimated with
      | error r => exact .inl ⟨_, rfl⟩
      | ok admission =>
        refine .inr ⟨_, admission, rfl, rfl, ⟨rfl, rfl, rfl, rfl⟩, rfl, by simpa using hstopped, ?_⟩
        simpa [Dict.contains] using hdup

/-! The three kinds of change a client can make. -/

section register

variable {x : RequestEntry} {admission : ResourceAdmissionController}

theorem entry_register (e : ℕ) :
    (register x s).entry e = if e = s.heap.length then x else s.entry e := by
  show (s.heap ++ [x]).getD e default = _
  rw [List.getD_eq_getElem?_getD]
  rcases lt_trichotomy e s.heap.length with hlt | rfl | hgt
  · rw [List.getElem?_append_left hlt, if_neg (by omega), entry, List.getD_eq_getElem?_getD]
  · simp
  · have hnone : (s.heap ++ [x])[e]? = none := List.getElem?_eq_none (by simp; omega)
    rw [hnone, if_neg (by omega), entry, List.getD_eq_getElem?_getD,
      List.getElem?_eq_none (by omega)]

theorem entry_register_old {e : ℕ} (he : e < s.heap.length) :
    (register x s).entry e = s.entry e := by rw [entry_register, if_neg (by omega)]

theorem callers_register (hlen : s.callers.length = s.heap.length) {e : ℕ} {c : Caller}
    (h : (register x s).callers[e]? = some c) :
    (e = s.heap.length ∧ c = .blocked)
      ∨ e < s.heap.length ∧ ∃ c₀, s.callers[e]? = some c₀ ∧ c = c₀.notify := by
  have h' : (s.callers.map Caller.notify ++ [.blocked])[e]? = some c := h
  by_cases he : e < s.heap.length
  · rw [List.getElem?_append_left (by rw [List.length_map]; omega), List.getElem?_map] at h'
    obtain ⟨c₀, hc₀, rfl⟩ := Option.map_eq_some_iff.mp h'
    exact .inr ⟨he, c₀, hc₀, rfl⟩
  · have hlt : e < (s.callers.map Caller.notify ++ [Caller.blocked]).length := by
      by_contra hge
      rw [List.getElem?_eq_none (by omega)] at h'
      exact absurd h' (by simp)
    simp only [List.length_append, List.length_map, List.length_singleton] at hlt
    obtain rfl : e = s.heap.length := by omega
    rw [List.getElem?_append_right (by simp [hlen])] at h'
    simp only [List.length_map, hlen, Nat.sub_self, List.getElem?_cons_zero,
      Option.some.injEq] at h'
    exact .inl ⟨rfl, h'.symm⟩

theorem coherent_register (h : Coherent s) (hx : x.Fresh)
    (hnew : s.entries.get? x.scheduling.requestId = none) : Coherent (register x s) where
  callers_length := by
    show (s.callers.map Caller.notify ++ [Caller.blocked]).length = (s.heap ++ [x]).length
    simp [h.callers_length]
  registered := by
    intro id e he
    have he' : (s.entries.set x.scheduling.requestId s.heap.length).get? id = some e := he
    have hlen : (register x s).heap.length = s.heap.length + 1 := by
      show (s.heap ++ [x]).length = _
      simp
    rw [Dict.get?_set] at he'
    split_ifs at he' with hid
    · obtain rfl := Option.some_inj.mp he'
      refine ⟨by omega, ?_⟩
      rw [requestId, entry_register, if_pos rfl]
      exact hid
    · obtain ⟨hlt, hreq⟩ := h.registered id e he'
      refine ⟨by omega, ?_⟩
      rw [requestId, entry_register_old hlt]
      exact hreq
  waiting := by
    intro e c hc hw
    show (s.entries.set x.scheduling.requestId s.heap.length).get? _ = some e
    rcases callers_register h.callers_length hc with ⟨rfl, rfl⟩ | ⟨he, c₀, hc₀, rfl⟩
    · rw [requestId, entry_register, if_pos rfl, Dict.get?_set_self]
    · have hold := h.waiting e c₀ hc₀ (Caller.waiting_notify.mp hw)
      rw [requestId, entry_register_old he, Dict.get?_set_ne]
      · exact hold
      · intro heq
        rw [requestId, ← heq, hnew] at hold
        exact absurd hold (by simp)
  live_waits := by
    intro e c hc hl
    rcases callers_register h.callers_length hc with ⟨rfl, rfl⟩ | ⟨he, c₀, hc₀, rfl⟩
    · trivial
    · rw [entry_register_old he] at hl
      exact Caller.waiting_notify.mpr (h.live_waits e c₀ hc₀ hl)
  settled := by
    intro e he ht
    rw [entry_register] at ht ⊢
    split_ifs at ht ⊢ with heq
    · exact absurd ht (by rw [hx.state]; decide)
    · have hlen : (register x s).heap.length = s.heap.length + 1 := by
        show (s.heap ++ [x]).length = _
        simp
      exact h.settled e (by omega) ht
  agrees := by
    intro e c hc
    rcases callers_register h.callers_length hc with ⟨rfl, rfl⟩ | ⟨he, c₀, hc₀, rfl⟩
    · trivial
    · rw [entry_register_old he]
      exact Caller.agrees_notify.mpr (h.agrees e c₀ hc₀)

theorem clientChange_register (h : Coherent s) (hx : x.Fresh) (hrun : s.stopped = false) :
    ClientChange s (register x s) where
  length_le := by
    show s.heap.length ≤ (s.heap ++ [x]).length
    simp
  owned := fun e he => by rw [entry_register_old he]
  fresh := by
    intro e hge hlt
    have hlen : (register x s).heap.length = s.heap.length + 1 := by
      show (s.heap ++ [x]).length = _
      simp
    obtain rfl : e = s.heap.length := by omega
    rw [entry_register, if_pos rfl]
    exact hx
  prefill := rfl
  decode := rfl
  published := rfl
  backendCalls := rfl
  cleanup := rfl
  stopped := rfl
  refused := fun hs => absurd hs (by simp [hrun])
  unblocked := by
    intro e he _ hb hb'
    rcases callers_register h.callers_length hb' with ⟨rfl, _⟩ | ⟨_, c₀, _, hc⟩
    · omega
    · cases c₀ <;> exact absurd hc (by simp [Caller.notify])

end register

/-- Entries get cancellation marks, and all callers are notified. -/
structure Marks (s s' : SchedulerState) : Prop where
  length : s'.heap.length = s.heap.length
  owned : ∀ e, (s'.entry e).owned = (s.entry e).owned
  entries : s'.entries = s.entries
  callers : s'.callers = s.callers.map Caller.notify
  prefill : s'.prefill = s.prefill
  decode : s'.decode = s.decode
  published : s'.published = s.published
  backendCalls : s'.backendCalls = s.backendCalls
  cleanup : s'.cleanup = s.cleanup
  stopped : s'.stopped = s.stopped

theorem Marks.coherent {s' : SchedulerState} (hm : Marks s s') (h : Coherent s) : Coherent s' := by
  refine h.advance ⟨hm.length, fun e => ?_, hm.entries, .inr hm.callers⟩
  have h1 := congrArg RequestEntry.scheduling (hm.owned e)
  have h2 := congrArg RequestEntry.state (hm.owned e)
  have h3 := congrArg RequestEntry.result (hm.owned e)
  have h4 := congrArg RequestEntry.error (hm.owned e)
  exact .of_state h1 h2 h3 h4

theorem Marks.clientChange {s' : SchedulerState} (hm : Marks s s') : ClientChange s s' where
  length_le := hm.length.ge
  owned := fun e _ => hm.owned e
  fresh := fun e hge hlt => absurd hlt (by have := hm.length; omega)
  prefill := hm.prefill
  decode := hm.decode
  published := hm.published
  backendCalls := hm.backendCalls
  cleanup := hm.cleanup
  stopped := hm.stopped
  refused := fun _ => hm.length
  unblocked := by
    intro e _ _ _ hb
    rw [hm.callers, List.getElem?_map] at hb
    obtain ⟨c, _, hc⟩ := Option.map_eq_some_iff.mp hb
    cases c <;> exact absurd hc (by simp [Caller.notify])

theorem owned_modify_cancel (s : SchedulerState) (e e' : ℕ) :
    ((s.modifyEntry e fun x => { x with cancelRequested := true }).entry e').owned
      = (s.entry e').owned := by
  rw [entry_modifyEntry]
  split_ifs with hc
  · rw [hc.1]
    rfl
  · rfl

theorem cancel_spec (requestId : PyStr) (s : SchedulerState) :
    (cancel requestId s).2 = s ∨ Marks s (cancel requestId s).2 := by
  unfold cancel
  cases s.entries.get? requestId with
  | none => exact .inl rfl
  | some e =>
    dsimp only
    split_ifs
    · exact .inr ⟨List.length_modify .., owned_modify_cancel s e, rfl, rfl, rfl, rfl, rfl, rfl, rfl,
        rfl⟩
    · exact .inl rfl

theorem shutdown_spec (s : SchedulerState) : Marks s (shutdown s) := by
  -- what marking the entries one after the other keeps
  have hfold : ∀ (es : List ℕ) (t : SchedulerState), Marks t (es.foldl
      (fun t e => t.modifyEntry e fun x => { x with cancelRequested := true }) t).notifyAll := by
    intro es
    induction es with
    | nil => exact fun t => ⟨rfl, fun _ => rfl, rfl, rfl, rfl, rfl, rfl, rfl, rfl, rfl⟩
    | cons e es ih =>
      intro t
      have h := ih (t.modifyEntry e fun x => { x with cancelRequested := true })
      exact ⟨h.length.trans (List.length_modify ..),
        fun e' => (h.owned e').trans (owned_modify_cancel t e e'), h.entries, h.callers, h.prefill,
        h.decode, h.published, h.backendCalls, h.cleanup, h.stopped⟩
  have h := hfold s.liveEntries { s with stopping := true }
  exact ⟨h.length, h.owned, h.entries, h.callers, h.prefill, h.decode, h.published, h.backendCalls,
    h.cleanup, h.stopped⟩

/-! ### The return of an `infer` call -/

section wake

variable {e : ℕ}

/-- A notified call leaves with what its entry holds, or waits on. -/
theorem wake_cases (e : ℕ) (s : SchedulerState) (h : Coherent s) : wake e s = s ∨
    (s.callers[e]? = some .woken ∧ (s.entry e).state ≠ TERMINAL ∧
      wake e s = { s with callers := s.callers.set e .blocked }) ∨
    ∃ outcome : Caller, s.callers[e]? = some .woken ∧ (s.entry e).state = TERMINAL ∧
      ¬ outcome.Waiting ∧ outcome.Agrees (s.entry e) ∧
      wake e s = { s with entries := s.entries.pop (s.requestId e),
                          callers := s.callers.set e outcome } := by
  unfold wake
  split
  · rename_i hc
    dsimp only
    split_ifs with ht
    · have he : e < s.heap.length := by
        have := (List.getElem?_eq_some_iff.mp hc).1
        rwa [h.callers_length] at this
      refine .inr (.inr ?_)
      rcases h.settled e he ht with ⟨hr, herr⟩ | ⟨hr, herr⟩
      · obtain ⟨r, hr⟩ := Option.isSome_iff_exists.mp hr
        exact ⟨.returned r, hc, ht, id, ⟨ht, hr, herr⟩, by rw [hr, herr]⟩
      · obtain ⟨err, herr⟩ := Option.isSome_iff_exists.mp herr
        exact ⟨.raised err, hc, ht, id, ⟨ht, herr⟩, by rw [herr]⟩
    · exact .inr (.inl ⟨hc, ht, rfl⟩)
  · exact .inl rfl

theorem caller_set {c c' : Caller} {e' : ℕ} (h : (s.callers.set e c)[e']? = some c') :
    (e = e' ∧ c' = c) ∨ (e ≠ e' ∧ s.callers[e']? = some c') := by
  rw [List.getElem?_set] at h
  split_ifs at h with heq hlt
  · exact .inl ⟨heq, (Option.some_inj.mp h).symm⟩
  · exact .inr ⟨heq, h⟩

theorem coherent_wake (h : Coherent s) : Coherent (wake e s) := by
  rcases wake_cases e s h with heq | ⟨hc, hl, heq⟩ | ⟨outcome, hc, ht, hnw, hag, heq⟩
  · rw [heq]
    exact h
  · rw [heq]
    refine ⟨(List.length_set ..).trans h.callers_length, h.registered, ?_, ?_, h.settled, ?_⟩
    · intro e' c hc' hw
      rcases caller_set hc' with ⟨rfl, _⟩ | ⟨_, hc'⟩
      · exact h.waiting e _ hc trivial
      · exact h.waiting e' c hc' hw
    · intro e' c hc' hl'
      rcases caller_set hc' with ⟨_, rfl⟩ | ⟨_, hc'⟩
      · trivial
      · exact h.live_waits e' c hc' hl'
    · intro e' c hc'
      rcases caller_set hc' with ⟨_, rfl⟩ | ⟨_, hc'⟩
      · trivial
      · exact h.agrees e' c hc'
  · rw [heq]
    refine ⟨(List.length_set ..).trans h.callers_length, ?_, ?_, ?_, h.settled, ?_⟩
    · intro id e' he'
      have hpop : (s.entries.pop (s.requestId e)).get? id = some e' := he'
      rw [Dict.get?_pop] at hpop
      split_ifs at hpop
      exact h.registered id e' hpop
    · intro e' c hc' hw
      show (s.entries.pop (s.requestId e)).get? (s.requestId e') = some e'
      rcases caller_set hc' with ⟨_, rfl⟩ | ⟨hne, hc'⟩
      · exact absurd hw hnw
      · have hold := h.waiting e' c hc' hw
        rw [Dict.get?_pop, if_neg]
        · exact hold
        · intro hid
          have hself := h.waiting e _ hc trivial
          rw [hid, hold] at hself
          exact hne (Option.some_inj.mp hself).symm
    · intro e' c hc' hl'
      rcases caller_set hc' with ⟨rfl, _⟩ | ⟨_, hc'⟩
      · exact absurd ht hl'
      · exact h.live_waits e' c hc' hl'
    · intro e' c hc'
      rcases caller_set hc' with ⟨rfl, rfl⟩ | ⟨_, hc'⟩
      · exact hag
      · exact h.agrees e' c hc'

theorem clientChange_wake (h : Coherent s) : ClientChange s (wake e s) := by
  rcases wake_cases e s h with heq | ⟨hc, hl, heq⟩ | ⟨outcome, hc, ht, hnw, hag, heq⟩
  · rw [heq]
    exact .refl s
  · rw [heq]
    refine ⟨le_rfl, fun _ _ => rfl, fun _ hge hlt => absurd hlt (not_lt.mpr hge), rfl, rfl, rfl, rfl,
      rfl, rfl, fun _ => rfl, ?_⟩
    intro e' _ ht hb hb'
    rcases caller_set hb' with ⟨rfl, _⟩ | ⟨_, hb'⟩
    · exact hl ht
    · exact hb hb'
  · rw [heq]
    refine ⟨le_rfl, fun _ _ => rfl, fun _ hge hlt => absurd hlt (not_lt.mpr hge), rfl, rfl, rfl, rfl,
      rfl, rfl, fun _ => rfl, ?_⟩
    intro e' _ _ hb hb'
    rcases caller_set hb' with ⟨_, rfl⟩ | ⟨_, hb'⟩
    · exact hnw trivial
    · exact hb hb'

end wake

/-- **Clients.**  Whatever a client does, the state stays coherent and the loop
finds what it owns as it left it. -/
theorem client_spec (k : ClientOp) (h : Coherent s) :
    Coherent (clientStep cfg k s) ∧ ClientChange s (clientStep cfg k s) := by
  cases k with
  | infer request metadata attemptId clock =>
    show Coherent (infer cfg request metadata attemptId clock s).2
      ∧ ClientChange s (infer cfg request metadata attemptId clock s).2
    rcases @infer_cases cfg request metadata attemptId clock s with
      ⟨refusal, heq⟩ | ⟨x, admission, heq, hmeta, hx, _, hrun, hnew⟩
    · rw [heq]
      exact ⟨h, .refl s⟩
    · rw [heq]
      have hadm : Coherent { s with admission := admission } :=
        ⟨h.callers_length, h.registered, h.waiting, h.live_waits, h.settled, h.agrees⟩
      have hc := clientChange_register hadm hx hrun
      refine ⟨coherent_register hadm hx (hmeta ▸ hnew), ?_⟩
      exact ⟨hc.length_le, hc.owned, hc.fresh, hc.prefill, hc.decode, hc.published, hc.backendCalls,
        hc.cleanup, hc.stopped, hc.refused, hc.unblocked⟩
  | wake e => exact ⟨coherent_wake h, clientChange_wake h⟩
  | cancel requestId =>
    show Coherent (cancel requestId s).2 ∧ ClientChange s (cancel requestId s).2
    rcases cancel_spec requestId s with heq | hm
    · rw [heq]
      exact ⟨h, .refl s⟩
    · exact ⟨hm.coherent h, hm.clientChange⟩
  | shutdown => exact ⟨(shutdown_spec s).coherent h, (shutdown_spec s).clientChange⟩

/-- Only an admitted `infer` call adds an entry, with the id of its request. -/
theorem client_length (k : ClientOp) (h : Coherent s) :
    (clientStep cfg k s).heap.length = s.heap.length ∨
    ∃ request metadata attemptId clock, k = .infer request metadata attemptId clock ∧
      (clientStep cfg k s).heap.length = s.heap.length + 1 ∧
      (clientStep cfg k s).requestId s.heap.length = metadata.requestId := by
  cases k with
  | infer request metadata attemptId clock =>
    show (infer cfg request metadata attemptId clock s).2.heap.length = s.heap.length ∨ _
    rcases @infer_cases cfg request metadata attemptId clock s with
      ⟨refusal, heq⟩ | ⟨x, admission, heq, hmeta, _⟩
    · rw [heq]
      exact .inl rfl
    · refine .inr ⟨request, metadata, attemptId, clock, rfl, ?_, ?_⟩
      · show (infer cfg request metadata attemptId clock s).2.heap.length = _
        rw [heq]
        show (s.heap ++ [x]).length = _
        simp
      · show (infer cfg request metadata attemptId clock s).2.requestId _ = _
        rw [heq]
        show ((register x _).entry s.heap.length).scheduling.requestId = _
        rw [entry_register, if_pos rfl, hmeta]
  | wake e =>
    left
    show (wake e s).heap.length = s.heap.length
    rcases wake_cases e s h with heq | ⟨_, _, heq⟩ | ⟨_, _, _, _, _, heq⟩ <;> rw [heq]
  | cancel requestId =>
    left
    show (cancel requestId s).2.heap.length = s.heap.length
    rcases cancel_spec requestId s with heq | hm
    · rw [heq]
    · exact hm.length
  | shutdown => exact .inl (shutdown_spec s).length

end ContinuousBatchScheduler

end Inference
