/-
The events of every request follow the protocol.

Events are published from a dozen places outside the lock.  The proof follows
the entry the worker is busy with: what the worker knows of it exactly (`At`),
and that all the others are between two steps of the protocol (`Calm`).

* `Calm` — how the state of an entry and the phase of its events fit together;
* `events_follow_protocol` — in every run with distinct ids, a valid clock and
  quiet sinks the events of a terminal request form a word of `eventProtocol`,
  if the codes of the backend's exceptions can be published;
* `lost_terminal_event` — a run with an exception whose code cannot.
-/
import LlamaRuntime.Inference.EventLanguage
import LlamaRuntime.Inference.LoopInvariant

namespace Inference

open RuntimeRequestState SchedulerState

namespace ContinuousBatchScheduler

variable {cfg : SchedulerConfig} {s s' : SchedulerState}

/-! ### Entries and phases -/

/-- The kinds of the events published for an entry. -/
def kindsOf (s : SchedulerState) (e : ℕ) : List SchedulerEventKind :=
  (s.eventsOf e).map SchedulerEvent.kind

def phaseOf (s : SchedulerState) (e : ℕ) : Phase := phases.eval (kindsOf s e)

theorem phaseOf_congr (h : s'.published = s.published) (e : ℕ) : phaseOf s' e = phaseOf s e := by
  rw [phaseOf, phaseOf, kindsOf, kindsOf, eventsOf, eventsOf, h]

/-- One more event of an entry. -/
theorem phaseOf_publish {e : ℕ} {event : SchedulerEvent}
    (h : s'.published = s.published ++ [(e, event)]) (e' : ℕ) :
    phaseOf s' e' = if e = e' then (phaseOf s e').next event.kind else phaseOf s e' := by
  rw [phaseOf, phaseOf, kindsOf, kindsOf, eventsOf, eventsOf, h]
  split_ifs with heq
  · subst heq
    rw [List.filter_append, List.map_append, List.map_append]
    simpa using eval_append _ event.kind
  · simp [heq]

/-- A result goes with a completed word, an error with a failed one. -/
def Concludes (x : RequestEntry) (p : Phase) : Prop :=
  (x.result.isSome ∧ x.error = none ∧ p = .completed) ∨
    (x.result = none ∧ x.error.isSome ∧ p = .failed)

/-- No sequence has been opened for the entry. -/
def Unopened : RuntimeRequestState → Prop
  | QUEUED | OPENING | RELEASING => True
  | _ => False

/-- The entry is between two steps of the protocol. -/
structure Calm (x : RequestEntry) (p : Phase) : Prop where
  concludes : x.state = TERMINAL → Concludes x p
  unclaimed : x.state ≠ TERMINAL → x.terminalizing = false
  unopened : x.state ≠ TERMINAL → x.handle = none →
    Unopened x.state ∧ p = if x.admittedEventSent then .admitted else .fresh
  opened : x.state ≠ TERMINAL → x.handle.isSome → x.admittedEventSent = true ∧
    x.state.Started ∧ (p = .opened ∨ p = .decoding ∧ x.state.PastPrefill)

theorem Calm.of_owned {x y : RequestEntry} {p : Phase} (h : Calm x p) (ho : y.owned = x.owned) :
    Calm y p := by
  have hx : Calm x.owned p := ⟨h.concludes, h.unclaimed, h.unopened, h.opened⟩
  rw [← ho] at hx
  exact ⟨hx.concludes, hx.unclaimed, hx.unopened, hx.opened⟩

theorem calm_owned {x : RequestEntry} {p : Phase} : Calm x.owned p ↔ Calm x p :=
  ⟨fun h => h.of_owned rfl, fun h => h.of_owned rfl⟩

theorem RequestEntry.Fresh.calm {x : RequestEntry} (h : x.Fresh) : Calm x .fresh := by
  refine ⟨fun ht => ?_, fun _ => h.terminalizing, fun _ _ => ?_, fun _ hs => ?_⟩
  · rw [h.state] at ht
    exact absurd ht (by decide)
  · rw [h.state, h.admittedEventSent]
    exact ⟨trivial, rfl⟩
  · rw [h.handle] at hs
    exact absurd hs (by simp)

/-! ### Assertions about all entries -/

/-- What is known of the entries of a list. -/
abbrev Knowledge := RequestEntry → Phase → Prop

/-- All entries are calm; `R` holds of those in `L`. -/
structure AllCalm (R : Knowledge) (L : List ℕ) (s : SchedulerState) : Prop where
  calm : ∀ e < s.heap.length, Calm (s.entry e) (phaseOf s e)
  listed : ∀ e ∈ L, e < s.heap.length ∧ R (s.entry e).owned (phaseOf s e)
  inRange : ∀ p ∈ s.published, p.1 < s.heap.length

/-- The worker is busy with the live entry `e`, which is `v` in phase `q`. -/
structure At (e : ℕ) (v : RequestEntry) (q : Phase) (R : Knowledge) (L : List ℕ)
    (s : SchedulerState) : Prop where
  lt : e < s.heap.length
  entry : (s.entry e).owned = v
  phase : phaseOf s e = q
  live : v.state ≠ TERMINAL
  calm : ∀ e' < s.heap.length, e' ≠ e → Calm (s.entry e') (phaseOf s e')
  listed : ∀ e' ∈ L, e' ≠ e → e' < s.heap.length ∧ R (s.entry e').owned (phaseOf s e')
  inRange : ∀ p ∈ s.published, p.1 < s.heap.length

/-- The events of every terminal entry are complete. -/
def Concluded (s : SchedulerState) : Prop :=
  ∀ e < s.heap.length, (s.entry e).state = TERMINAL → Concludes (s.entry e) (phaseOf s e)

variable {e : ℕ} {v : RequestEntry} {q : Phase} {R R' : Knowledge} {L L' : List ℕ}

theorem AllCalm.concluded (h : AllCalm R L s) : Concluded s :=
  fun e he => (h.calm e he).concludes

theorem At.concluded (h : At e v q R L s) : Concluded s := by
  intro e' he' ht
  by_cases heq : e' = e
  · subst heq
    have hl := h.live
    rw [← h.entry] at hl
    exact absurd ht hl
  · exact (h.calm e' he' heq).concludes ht

/-- The worker turns to a live entry. -/
theorem AllCalm.focus (h : AllCalm R L s) (he : e < s.heap.length)
    (hl : (s.entry e).state ≠ TERMINAL) :
    At e (s.entry e).owned (phaseOf s e) R L s ∧ Calm (s.entry e).owned (phaseOf s e) :=
  ⟨⟨he, rfl, rfl, hl, fun e' he' _ => h.calm e' he', fun e' he' _ => h.listed e' he', h.inRange⟩,
    calm_owned.mpr (h.calm e he)⟩

/-- The worker is done with an entry. -/
theorem At.unfocus (h : At e v q R L s) (hc : Calm v q) (hR : e ∈ L → R v q) : AllCalm R L s := by
  have hcalm : Calm (s.entry e) (phaseOf s e) := by
    rw [h.phase]
    exact calm_owned.mp (h.entry ▸ hc)
  refine ⟨fun e' he' => ?_, fun e' he' => ?_, h.inRange⟩
  · by_cases heq : e' = e
    · exact heq ▸ hcalm
    · exact h.calm e' he' heq
  · by_cases heq : e' = e
    · subst heq
      rw [h.phase, h.entry]
      exact ⟨h.lt, hR he'⟩
    · exact h.listed e' he' heq

theorem AllCalm.weaken (h : AllCalm R L s) (hL : ∀ e ∈ L', e ∈ L)
    (hR : ∀ x p, R x p → R' x p) : AllCalm R' L' s :=
  ⟨h.calm, fun e he => ⟨(h.listed e (hL e he)).1, hR _ _ (h.listed e (hL e he)).2⟩, h.inRange⟩

/-- Nothing is known of the entries of the empty list. -/
theorem AllCalm.forget (h : AllCalm R L s) : AllCalm R' [] s :=
  ⟨h.calm, fun e he => absurd he (by simp), h.inRange⟩

/-! ### Changes of the state -/

theorem At.of_heap (h : At e v q R L s) (hheap : s'.heap = s.heap)
    (hpub : s'.published = s.published) : At e v q R L s' := by
  have hentry : ∀ e', s'.entry e' = s.entry e' := fun e' => entry_congr hheap
  have hphase : ∀ e', phaseOf s' e' = phaseOf s e' := fun e' => phaseOf_congr hpub e'
  obtain ⟨h1, h2, h3, h4, h5, h6, h7⟩ := h
  refine ⟨hheap ▸ h1, hentry e ▸ h2, hphase e ▸ h3, h4, fun e' he' hne => ?_, fun e' he' hne => ?_, ?_⟩
  · rw [hentry, hphase]
    exact h5 e' (hheap ▸ he') hne
  · rw [hentry, hphase, hheap]
    exact h6 e' he' hne
  · rw [hheap, hpub]
    exact h7

theorem AllCalm.of_heap (h : AllCalm R L s) (hheap : s'.heap = s.heap)
    (hpub : s'.published = s.published) : AllCalm R L s' := by
  have hentry : ∀ e', s'.entry e' = s.entry e' := fun e' => entry_congr hheap
  have hphase : ∀ e', phaseOf s' e' = phaseOf s e' := fun e' => phaseOf_congr hpub e'
  refine ⟨fun e' he' => ?_, fun e' he' => ?_, ?_⟩
  · rw [hentry, hphase]
    exact h.calm e' (hheap ▸ he')
  · rw [hentry, hphase, hheap]
    exact h.listed e' he'
  · rw [hheap, hpub]
    exact h.inRange

/-- The worker changes the entry it is busy with. -/
theorem At.modify (h : At e v q R L s) {f : RequestEntry → RequestEntry}
    (hheap : s'.heap = s.heap.modify e f) (hpub : s'.published = s.published)
    (hf : ∀ x, (f x).owned = f x.owned) (hl : (f v).state ≠ TERMINAL) :
    At e (f v) q R L s' := by
  have hne : ∀ e', e' ≠ e → s'.entry e' = s.entry e' := fun e' hne => entry_modify_ne hheap hne.symm
  have hlen : s'.heap.length = s.heap.length := length_modify hheap
  have hphase : ∀ e', phaseOf s' e' = phaseOf s e' := fun e' => phaseOf_congr hpub e'
  refine ⟨hlen ▸ h.lt, ?_, hphase e ▸ h.phase, hl, fun e' he' hne' => ?_, fun e' he' hne' => ?_, ?_⟩
  · rw [entry_modify_self hheap h.lt, hf, h.entry]
  · rw [hne e' hne', hphase]
    exact h.calm e' (hlen ▸ he') hne'
  · rw [hne e' hne', hphase, hlen]
    exact h.listed e' he' hne'
  · rw [hlen, hpub]
    exact h.inRange

/-- An event of the entry the worker is busy with is published. -/
theorem At.publish (h : At e v q R L s) (event : SchedulerEvent) :
    At e v (q.next event.kind) R L { s with published := s.published ++ [(e, event)] } := by
  have hphase := fun e' => @phaseOf_publish s { s with published := s.published ++ [(e, event)] } e
    event rfl e'
  refine ⟨h.lt, h.entry, ?_, h.live, fun e' he' hne => ?_, fun e' he' hne => ?_, fun p hp => ?_⟩
  · rw [hphase, if_pos rfl, h.phase]
  · rw [hphase, if_neg (Ne.symm hne)]
    exact h.calm e' he' hne
  · rw [hphase, if_neg (Ne.symm hne)]
    exact h.listed e' he' hne
  · rcases List.mem_append.mp hp with hp | hp
    · exact h.inRange p hp
    · rw [List.mem_singleton.mp hp]
      exact h.lt

/-- The worker ends the entry it is busy with. -/
theorem At.terminate (h : At e v q R L s) (he : e ∉ L) {f : RequestEntry → RequestEntry}
    (hheap : s'.heap = s.heap.modify e f) (hpub : s'.published = s.published)
    (hf : ∀ x, (f x).state = TERMINAL ∧ Concludes (f x) q) : AllCalm R L s' := by
  have hne : ∀ e', e' ≠ e → s'.entry e' = s.entry e' := fun e' hne => entry_modify_ne hheap hne.symm
  have hlen : s'.heap.length = s.heap.length := length_modify hheap
  have hphase : ∀ e', phaseOf s' e' = phaseOf s e' := fun e' => phaseOf_congr hpub e'
  refine ⟨fun e' he' => ?_, fun e' he' => ?_, ?_⟩
  · rw [hphase]
    by_cases heq : e' = e
    · subst heq
      rw [entry_modify_self hheap h.lt, h.phase]
      obtain ⟨ht, hc⟩ := hf (s.entry e')
      exact ⟨fun _ => hc, fun hl => absurd ht hl, fun hl => absurd ht hl, fun hl => absurd ht hl⟩
    · rw [hne e' heq]
      exact h.calm e' (hlen ▸ he') heq
  · have heq : e' ≠ e := fun heq => he (heq ▸ he')
    rw [hne e' heq, hphase, hlen]
    exact h.listed e' he' heq
  · rw [hlen, hpub]
    exact h.inRange

/-! ### What is assumed of a run -/

/-- An exception with a `code` attribute has one that an event can carry. -/
def PlainCode (exc : PyException) : Prop :=
  ∀ value ∈ exc.code, value.truthy = true →
    IsBoundedText (value.text.take 128) maxErrorCodeBytes

/-- The clock is valid, the sinks do not raise, and no exception the scheduler
turns into an error has a code that cannot be published. -/
structure Regular (ans : Answer) : Prop where
  clock : ∀ k, ∃ t, 0 ≤ t ∧ ans.clock k = .finite t
  sink : ans.sink = none
  openSequence : ∀ exc, ans.openSequence = .error exc → exc.isException = true → PlainCode exc
  reservationTokens : ∀ exc, ans.reservationTokens = .error exc → exc.isException = true →
    PlainCode exc
  prefillBatch : ∀ exc, ans.prefillBatch = .error exc → exc.isException = true → PlainCode exc
  decodeBatch : ∀ exc, ans.decodeBatch = .error exc → exc.isException = true → PlainCode exc
  release : ∀ exc, ans.release = .error exc → exc.isException = true → PlainCode exc

/-- Request ids are distinct; the deques are in order by themselves then. -/
abbrev distinctIds : Regime := ⟨True, False, True, fun _ => trivial⟩

/-- What holds in every reachable state may be assumed of it. -/
def eventing : Thread.Protocol SchedulerState Answer where
  inv := Concluded
  rely := ClientChange
  allow s ans _ := Sound distinctIds s ∧ Regular ans
  rely_refl := .refl
  rely_trans := .trans

theorem Regular.now {ans : Answer} (h : Regular ans) (k : ℕ) :
    ∃ t, 0 ≤ t ∧ (ans.clock k).now = .ok t := by
  obtain ⟨t, ht, hclock⟩ := h.clock k
  refine ⟨t, ht, ?_⟩
  rw [hclock, ClockReading.now, if_neg (not_lt.mpr ht)]

/-- The error made of such an exception can be published. -/
theorem PlainCode.backendError {exc : PyException} (h : PlainCode exc) {code : String}
    (hcode : IsBoundedText (py code) maxErrorCodeBytes) (hlen : (py code).length ≤ 128) :
    IsBoundedText ((backendError code exc).code.take 128) maxErrorCodeBytes := by
  have hdefault : IsBoundedText ((py code).take 128) maxErrorCodeBytes := by
    rwa [List.take_of_length_le hlen]
  unfold ContinuousBatchScheduler.backendError
  dsimp only
  rw [List.take_take, min_self]
  cases hvalue : exc.code with
  | none => exact hdefault
  | some value =>
    dsimp only
    split_ifs with ht
    · exact h value hvalue ht
    · exact hdefault

theorem plainCode_builtin (typeName message : String) : PlainCode (.builtin typeName message) :=
  fun _ h => absurd h (by simp [PyException.builtin])

/-! ### Assertions that the clients keep -/

theorem ClientChange.phase (hc : ClientChange s s') (e : ℕ) : phaseOf s' e = phaseOf s e :=
  phaseOf_congr hc.published e

/-- No event has been published for an entry that did not exist. -/
theorem phaseOf_new (h : ∀ p ∈ s.published, p.1 < s.heap.length) (he : s.heap.length ≤ e) :
    phaseOf s e = .fresh := by
  have hnone : s.eventsOf e = [] := by
    rw [eventsOf, List.filter_eq_nil_iff.mpr]
    · rfl
    · intro p hp heq
      have := h p hp
      have : p.1 = e := by simpa using heq
      omega
  rw [ContinuousBatchScheduler.phaseOf, kindsOf, hnone]
  rfl

/-- A calm entry stays calm, a new one is calm. -/
theorem ClientChange.calm (hc : ClientChange s s') (hr : ∀ p ∈ s.published, p.1 < s.heap.length)
    (he : e < s'.heap.length) (h : e < s.heap.length → Calm (s.entry e) (phaseOf s e)) :
    Calm (s'.entry e) (phaseOf s' e) := by
  rw [ClientChange.phase hc]
  by_cases hlt : e < s.heap.length
  · exact (h hlt).of_owned (hc.owned e hlt)
  · rw [phaseOf_new hr (not_lt.mp hlt)]
    exact RequestEntry.Fresh.calm (hc.fresh e (not_lt.mp hlt) he)

theorem ClientChange.listed (hc : ClientChange s s')
    (h : e < s.heap.length ∧ R (s.entry e).owned (phaseOf s e)) :
    e < s'.heap.length ∧ R (s'.entry e).owned (phaseOf s' e) := by
  rw [ClientChange.phase hc, hc.owned e h.1]
  exact ⟨h.1.trans_le hc.length_le, h.2⟩

theorem ClientChange.inRange (hc : ClientChange s s')
    (h : ∀ p ∈ s.published, p.1 < s.heap.length) : ∀ p ∈ s'.published, p.1 < s'.heap.length := by
  rw [hc.published]
  exact fun p hp => (h p hp).trans_le hc.length_le

theorem ClientChange.concluded (hc : ClientChange s s') (h : Concluded s) : Concluded s' := by
  intro e he ht
  rw [hc.state] at ht
  have hlt : e < s.heap.length := lt_length_of_state (by rw [ht]; decide)
  have hdone := h e hlt ht
  have hresult := congrArg RequestEntry.result (hc.owned e hlt)
  have herror := congrArg RequestEntry.error (hc.owned e hlt)
  rw [ClientChange.phase hc]
  rw [Concludes] at hdone ⊢
  rw [show (s'.entry e).result = (s.entry e).result from hresult,
    show (s'.entry e).error = (s.entry e).error from herror]
  exact hdone

/-- An assertion that the clients keep, and that leaves no terminal entry with
an incomplete word. -/
structure Firm (P : SchedulerState → Prop) : Prop where
  stable : eventing.Stable P
  concluded : ∀ s, P s → Concluded s

theorem firm_allCalm : Firm (AllCalm R L) :=
  ⟨fun _ _ _ hc _ h => ⟨fun e he => ClientChange.calm hc h.inRange he (h.calm e),
    fun e he => ClientChange.listed hc (h.listed e he), ClientChange.inRange hc h.inRange⟩,
    fun _ h => h.concluded⟩

theorem firm_at : Firm (At e v q R L) := by
  refine ⟨fun s s' _ hc _ h => ?_, fun _ h => h.concluded⟩
  have hc' : ClientChange s s' := hc
  refine ⟨h.lt.trans_le hc'.length_le, ?_, ?_, h.live,
    fun e' he' hne => ClientChange.calm hc' h.inRange he' fun hlt => h.calm e' hlt hne,
    fun e' he' hne => ClientChange.listed hc' (h.listed e' he' hne),
    ClientChange.inRange hc' h.inRange⟩
  · rw [hc'.owned e h.lt, h.entry]
  · rw [ClientChange.phase hc', h.phase]

theorem Firm.fact {P : SchedulerState → Prop} (h : Firm P) (g : Prop) : Firm fun s => P s ∧ g :=
  ⟨fun s s' hi hc hi' hp => ⟨h.stable s s' hi hc hi' hp.1, hp.2⟩, fun s hp => h.concluded s hp.1⟩

theorem Firm.exists {κ : Type} {P : κ → SchedulerState → Prop} (h : ∀ x, Firm (P x)) :
    Firm fun s => ∃ x, P x s :=
  ⟨fun s s' hi hc hi' ⟨x, hx⟩ => ⟨x, (h x).stable s s' hi hc hi' hx⟩,
    fun s ⟨x, hx⟩ => (h x).concluded s hx⟩

theorem firm_false : Firm fun _ => False := ⟨fun _ _ _ _ _ h => h, fun _ h => h.elim⟩

/-! ### Rules -/

section threads

open Thread hiding pure bind tryCatch

variable {P Q : SchedulerState → Prop} {E : PyException → SchedulerState → Prop} {α : Type}

theorem evt_modify {f : SchedulerState → SchedulerState} (hP : Firm P) (hQ : Firm Q)
    (h : ∀ s, P s → Q (f s)) : Triple eventing P (.modify f : Worker Unit) (fun _ => Q) E :=
  Triple.modify hP.stable hQ.stable fun s _ _ hp _ => ⟨hQ.concluded _ (h s hp), h s hp⟩

theorem evt_atomic {Q : α → SchedulerState → Prop}
    {block : SchedulerState → Answer → Except PyException α × SchedulerState} (hP : Firm P)
    (hQ : ∀ a, Firm (Q a)) (hE : ∀ exc, Firm (E exc))
    (h : ∀ s ans, Sound distinctIds s → Regular ans → P s →
      (∀ a, (block s ans).1 = .ok a → Q a (block s ans).2) ∧
      ∀ exc, (block s ans).1 = .error exc → E exc (block s ans).2) :
    Triple eventing P (.atomic block) Q E := by
  refine Triple.atomic hP.stable (fun a => (hQ a).stable) (fun exc => (hE exc).stable)
    fun s ans _ hp ha => ?_
  obtain ⟨hok, herr⟩ := h s ans ha.1 ha.2 hp
  refine ⟨?_, hok, herr⟩
  cases hres : (block s ans).1 with
  | ok a => exact (hQ a).concluded _ (hok a hres)
  | error exc => exact (hE exc).concluded _ (herr exc hres)

/-- What is read is a function of what is known. -/
theorem evt_read {f : SchedulerState → α} {G : α → Prop} (hP : Firm P)
    (h : ∀ s, P s → G (f s)) :
    Triple eventing P (.read f : Worker α) (fun a s => P s ∧ G a) E :=
  Triple.read hP.stable (fun a => (hP.fact (G a)).stable) fun s _ hp => ⟨hp, h s hp⟩

theorem evt_pure {Q : α → SchedulerState → Prop} {a : α} (hQ : Firm (Q a)) (h : ∀ s, P s → Q a s) :
    Triple eventing P (pure a : Worker α) Q E :=
  Triple.pure hQ.stable fun s _ hp => h s hp

/-- An update of the entry the worker is busy with. -/
theorem at_modify {f : RequestEntry → RequestEntry} (hf : ∀ x, (f x).owned = f x.owned)
    (hl : v.state ≠ TERMINAL → (f v).state ≠ TERMINAL) : Triple eventing (At e v q R L)
      (.modify fun s => s.modifyEntry e f : Worker Unit) (fun _ => At e (f v) q R L) E :=
  evt_modify firm_at firm_at fun _ h => h.modify rfl rfl hf (hl h.live)

/-- An update of the books of selector, admission or failures. -/
theorem at_keep {f : SchedulerState → SchedulerState}
    (h : ∀ s, (f s).heap = s.heap ∧ (f s).published = s.published) :
    Triple eventing (At e v q R L) (.modify f : Worker Unit) (fun _ => At e v q R L) E :=
  evt_modify firm_at firm_at fun s hp => hp.of_heap (h s).1 (h s).2

/-- A well-formed event is published, and nothing is raised. -/
theorem at_publish {kind : SchedulerEventKind} {handle : Option SequenceHandle}
    {tokens : Option ℕ} {errorCode : Option PyStr}
    (hwf : ∀ now : ℚ, 0 ≤ now → SchedulerEvent.WellFormed
      ⟨kind, v.scheduling.requestId, now, handle, tokens, errorCode⟩) :
    Triple eventing (At e v q R L) (publish e kind handle tokens errorCode)
      (fun _ => At e v (q.next kind) R L) E := by
  refine Triple.tryCatch (F := fun _ _ => False) (evt_atomic firm_at (fun _ => firm_at)
    (fun _ => firm_false) fun s ans _ hans h => ?_) fun exc s _ hf => hf.elim
  obtain ⟨now, hnow, hclock⟩ := hans.now 0
  have hid : s.requestId e = v.scheduling.requestId := by
    rw [← h.entry]
    rfl
  have hblock : publishBlock e kind handle tokens errorCode s ans = (.ok (),
      { s with published := s.published ++
        [(e, ⟨kind, v.scheduling.requestId, now, handle, tokens, errorCode⟩)] }) := by
    unfold publishBlock
    rw [hclock]
    dsimp only
    rw [hid, SchedulerEvent.make_ok.mpr ⟨hwf now hnow, rfl⟩]
    dsimp only
    rw [hans.sink]
  rw [hblock]
  exact ⟨fun _ _ => h.publish ⟨kind, v.scheduling.requestId, now, handle, tokens, errorCode⟩,
    fun _ hexc => absurd hexc (by simp)⟩

theorem at_ensureAdmitted : Triple eventing (At e v q R L) (ensureAdmitted e)
    (fun _ => At e { v with admittedEventSent := true }
      (if v.admittedEventSent then q else q.next .ADMITTED) R L) E := by
  refine Triple.bind (evt_read (G := fun sent => sent = v.admittedEventSent) firm_at fun s h => ?_)
    fun sent => Triple.of_fact fun hsent => ?_
  · rw [← h.entry]
    rfl
  subst hsent
  refine Triple.ite (fun hsent => ?_) fun hsent => ?_
  · rw [if_pos hsent]
    have hv : { v with admittedEventSent := true } = v := by
      cases v
      simp_all
    rw [hv]
    exact evt_pure firm_at fun _ h => h
  · rw [if_neg hsent]
    refine Triple.bind (at_publish fun now hnow => ?_) fun _ => ?_
    · exact ⟨v.scheduling.request_bounded, hnow, fun h => absurd h (by simp [SchedulerEventKind.isSequenceKind]),
        by simp [SchedulerEventKind.isTokenKind], rfl⟩
    · exact at_modify (f := fun x => { x with admittedEventSent := true }) (fun _ => rfl) id

/-! ### Ending a request -/

/-- From this phase the request can end with this outcome. -/
def Ends (p : Phase) : Except InferenceRuntimeError GenerateResult → Prop
  | .ok _ => p = .released
  | .error err => p.Open ∧ IsBoundedText (err.code.take 128) maxErrorCodeBytes

def finalPhase : Except InferenceRuntimeError GenerateResult → Phase
  | .ok _ => .completed
  | .error _ => .failed

theorem concludes_terminated (outcome : Except InferenceRuntimeError GenerateResult)
    (x : RequestEntry) (t : ℚ) :
    Concludes { terminated outcome x with terminalAt := some t } (finalPhase outcome) := by
  cases outcome with
  | ok r => exact .inl ⟨rfl, rfl, rfl⟩
  | error err => exact .inr ⟨rfl, rfl, rfl⟩

theorem at_publishOutcome {outcome : Except InferenceRuntimeError GenerateResult}
    (hend : Ends q outcome) : Triple eventing (At e v q R L) (publishOutcome e outcome)
      (fun _ => At e v (finalPhase outcome) R L) E := by
  cases outcome with
  | ok r =>
    have hnext : q.next .REQUEST_COMPLETED = .completed := by
      rw [show q = .released from hend]
      rfl
    rw [finalPhase, ← hnext]
    exact at_publish fun now hnow => ⟨v.scheduling.request_bounded, hnow,
      fun h => absurd h (by simp [SchedulerEventKind.isSequenceKind]),
      by simp [SchedulerEventKind.isTokenKind], rfl⟩
  | error err =>
    rw [finalPhase, ← Phase.next_failed_of_open hend.1]
    exact at_publish fun now hnow => ⟨v.scheduling.request_bounded, hnow,
      fun h => absurd h (by simp [SchedulerEventKind.isSequenceKind]),
      by simp [SchedulerEventKind.isTokenKind], _, rfl, hend.2⟩

/-- The entry is made terminal. -/
theorem at_commitTerminal {outcome : Except InferenceRuntimeError GenerateResult} (he : e ∉ L)
    (hE : ∀ exc, Firm (E exc)) :
    Triple eventing (At e v (finalPhase outcome) R L) (.atomic (commitTerminal e outcome))
      (fun _ => AllCalm R L) E := by
  refine evt_atomic firm_at (fun _ => firm_allCalm) hE fun s ans _ hans h => ?_
  obtain ⟨now, _, hclock⟩ := hans.now 0
  rcases commitTerminal_spec e outcome s ans with ⟨exc, hexc, _⟩ | ⟨now', sel, _, heq⟩
  · rw [hclock] at hexc
    exact absurd hexc (by simp)
  rw [heq]
  refine ⟨fun _ _ => ?_, fun exc hexc => absurd hexc (by simp)⟩
  refine h.terminate (f := fun x => { terminated outcome x with terminalAt := some now' }) he ?_ rfl
    fun x => ⟨rfl, concludes_terminated outcome x now'⟩
  show ((s.heap.modify e (terminated outcome)).modify e _) = _
  rw [List.modify_modify_eq]
  rfl

/-- A live entry that nobody has claimed is ended. -/
theorem at_terminalize {result : Option GenerateResult} {error : Option InferenceRuntimeError}
    (he : e ∉ L) (hclaim : v.terminalizing = false)
    (hend : Ends (if v.admittedEventSent then q else q.next .ADMITTED) (settle result error))
    (hE : ∀ exc, Firm (E exc)) :
    Triple eventing (At e v q R L) (terminalize e result error) (fun _ => AllCalm R L) E := by
  refine Triple.bind at_ensureAdmitted fun _ => ?_
  generalize (if v.admittedEventSent = true then q else q.next .ADMITTED) = p at hend ⊢
  have hclaim' : ({ v with admittedEventSent := true } : RequestEntry).terminalizing = false := hclaim
  generalize ({ v with admittedEventSent := true } : RequestEntry) = u at hclaim' ⊢
  -- the flag of the reservation is of no concern here
  refine Triple.bind (Q := fun _ s => ∃ w : RequestEntry, At e w p R L s ∧ w.terminalizing = false)
    (evt_modify firm_at (Firm.exists fun w => firm_at.fact _) fun s h => ?_) fun _ =>
      Triple.of_exists fun w => Triple.of_fact fun hw => ?_
  · split_ifs
    · exact ⟨_, h.modify (f := fun x => { x with resourceReleaseConfirmed := true }) rfl rfl
        (fun _ => rfl) h.live, hclaim'⟩
    · exact ⟨u, h, hclaim'⟩
  refine Triple.bind (Q := fun answer s =>
      At e { w with terminalizing := true } p R L s ∧ answer = some (settle result error))
    (evt_atomic firm_at (fun _ => firm_at.fact _) hE fun s ans _ _ h => ?_)
    fun answer => Triple.of_fact fun hanswer => ?_
  · have hstate : (s.entry e).state = w.state := by
      rw [← h.entry]
      rfl
    have hflag : (s.entry e).terminalizing = w.terminalizing := by
      rw [← h.entry]
      rfl
    rcases claimTerminal_spec e result error s ans with ⟨_, ht | hc⟩ | ⟨heq, _, _⟩
    · exact absurd (hstate.symm.trans ht) h.live
    · exact absurd (hflag.symm.trans hc) (by simp [hw])
    · rw [heq]
      refine ⟨fun answer ha => ⟨?_, (Except.ok.inj ha).symm⟩, fun exc hexc => absurd hexc (by simp)⟩
      exact h.modify (f := fun x => { x with terminalizing := true }) rfl rfl (fun _ => rfl) h.live
  · subst hanswer
    refine Triple.bind (at_keep fun s => ?_) fun _ => Triple.bind (at_publishOutcome hend)
      fun _ => Triple.bind (at_commitTerminal he hE) fun _ => evt_pure firm_allCalm fun _ h => h
    split_ifs <;> exact ⟨rfl, rfl⟩

/-- No entry is in the middle of a step. -/
abbrev Quiescent : SchedulerState → Prop := AllCalm (fun _ _ => True) []

/-- The outcome is an error that can be published, or the result of a sequence. -/
def Outcomes (v : RequestEntry) (result : Option GenerateResult)
    (error : Option InferenceRuntimeError) : Prop :=
  (result = none ∧ ∃ err, error = some err ∧
    IsBoundedText (err.code.take 128) maxErrorCodeBytes) ∨
  (result.isSome ∧ error = none ∧ v.handle.isSome)

/-- The phase of a calm live entry once its admission has been announced. -/
theorem Calm.phase {v : RequestEntry} (h : Calm v q) (hl : v.state ≠ TERMINAL) :
    (v.handle = none → (if v.admittedEventSent then q else q.next .ADMITTED) = .admitted) ∧
    (v.handle.isSome → v.admittedEventSent = true ∧ q.Open ∧ q.next .SEQUENCE_RELEASED = .released) := by
  refine ⟨fun hnone => ?_, fun hsome => ?_⟩
  · obtain ⟨_, hq⟩ := h.unopened hl hnone
    split_ifs at hq ⊢
    · exact hq
    · rw [hq]
      rfl
  · obtain ⟨hsent, _, rfl | ⟨rfl, _⟩⟩ := h.opened hl hsome
    · exact ⟨hsent, trivial, rfl⟩
    · exact ⟨hsent, trivial, rfl⟩

theorem at_releaseAndTerminalize {result : Option GenerateResult}
    {error : Option InferenceRuntimeError} (he : e ∉ L) (hcalm : Calm v q)
    (hout : Outcomes v result error) :
    Triple eventing (At e v q R L) (releaseAndTerminalize e result error) (fun _ => AllCalm R L)
      fun _ => Quiescent := by
  by_cases hl : v.state ≠ TERMINAL
  swap
  · exact fun s _ h => absurd h.live hl
  obtain ⟨hnone, hsome⟩ := hcalm.phase hl
  have hend : ∀ {w : RequestEntry} {p : Phase} {result error}, w.terminalizing = false →
      Ends (if w.admittedEventSent then p else p.next .ADMITTED) (settle result error) →
      Triple eventing (At e w p R L) (do let _ ← terminalize e result error : Worker Unit)
        (fun _ => AllCalm R L) fun _ => Quiescent := fun hw hends =>
    Triple.bind (at_terminalize he hw hends fun _ => firm_allCalm) fun _ =>
      evt_pure firm_allCalm fun _ h => h
  refine Triple.bind (evt_read (G := fun handle => handle = v.handle) firm_at fun s h => ?_)
    fun handle => Triple.of_fact fun hhandle => ?_
  · rw [← h.entry]
    rfl
  cases handle with
  | none =>
    refine Triple.bind (at_modify (f := fun x => { x with resourceReleaseConfirmed := true })
      (fun _ => rfl) id) fun _ => hend (hcalm.unclaimed hl) ?_
    rcases hout with ⟨rfl, err, rfl, hcode⟩ | ⟨_, _, hs⟩
    · refine ⟨?_, hcode⟩
      show (if v.admittedEventSent then q else q.next .ADMITTED).Open
      rw [hnone hhandle.symm]
      trivial
    · rw [← hhandle] at hs
      exact absurd hs (by simp)
  | some handle =>
    obtain ⟨hsent, hopen, hnext⟩ := hsome (by rw [← hhandle]; rfl)
    refine Triple.bind (triple_catching
      (Q := fun _ => At e { v with resourceReleaseConfirmed := true } .released R L)
      (E := fun exc s => At e v q R L s ∧ (exc.isException = true → PlainCode exc))
      (fun _ => firm_at.stable) (fun _ => (firm_at.fact _).stable)
      (fun exc s _ h => (h.1.unfocus hcalm fun hmem => absurd hmem he).forget) ?_) fun released => ?_
    · refine Triple.bind (Q := fun _ => At e v q R L) (evt_atomic firm_at (fun _ => firm_at)
        (fun _ => firm_at.fact _) fun s ans _ hans h => ?_) fun _ => Triple.bind
        (at_modify (f := fun x => { x with resourceReleaseConfirmed := true }) (fun _ => rfl) id)
        fun _ => ?_
      · have hkeep : At e v q R L (releaseBlock handle s ans).2 := by
          rw [releaseBlock_state]
          exact h.of_heap rfl rfl
        refine ⟨fun _ _ => hkeep, fun exc hexc => ⟨hkeep, fun hexception => ?_⟩⟩
        unfold releaseBlock at hexc
        cases hrelease : ans.release with
        | error exc' =>
          rw [hrelease] at hexc
          obtain rfl := Except.error.inj hexc
          exact hans.release _ hrelease hexception
        | ok status =>
          rw [hrelease] at hexc
          dsimp only at hexc
          split_ifs at hexc
          obtain rfl := Except.error.inj hexc
          exact plainCode_builtin _ _
      · rw [← hnext]
        exact at_publish fun now hnow => ⟨v.scheduling.request_bounded, hnow, fun _ => by simp,
          by simp [SchedulerEventKind.isTokenKind], rfl⟩
    · cases released with
      | ok _ =>
        refine hend (w := { v with resourceReleaseConfirmed := true }) (hcalm.unclaimed hl) ?_
        rw [if_pos hsent]
        rcases hout with ⟨rfl, err, rfl, hcode⟩ | ⟨hs, rfl, _⟩
        · exact ⟨trivial, hcode⟩
        · obtain ⟨r, rfl⟩ := Option.isSome_iff_exists.mp hs
          rfl
      | error exc =>
        refine Triple.of_fact fun hexception => Triple.of_fact fun hplain =>
          hend (hcalm.unclaimed hl) ?_
        rw [if_pos hsent]
        exact ⟨hopen, (hplain hexception).backendError (by decide) (by decide)⟩

/-- The worker turns to an entry of the list. -/
theorem evt_focus {t : Worker α} {Q : α → SchedulerState → Prop} (he : e ∈ L)
    (hsub : ∀ e' ∈ L', e' ∈ L) (hR : ∀ x p, R x p → x.state ≠ TERMINAL)
    (h : ∀ v q, R v q → v.state ≠ TERMINAL → Calm v q → Triple eventing (At e v q R L') t Q E) :
    Triple eventing (AllCalm R L) t Q E := by
  intro s hi hp
  obtain ⟨hlt, hknown⟩ := hp.listed e he
  have hl := hR _ _ hknown
  obtain ⟨hat, hcalm⟩ := hp.focus hlt hl
  exact h _ _ hknown hl hcalm s hi ⟨hat.lt, hat.entry, hat.phase, hat.live, hat.calm,
    fun e' he' hne => hat.listed e' (hsub e' he') hne, hat.inRange⟩

/-- A list of live entries is ended with the same error. -/
theorem evt_endAll {err : InferenceRuntimeError}
    (hcode : IsBoundedText (err.code.take 128) maxErrorCodeBytes)
    (hR : ∀ x p, R x p → x.state ≠ TERMINAL) (es : List ℕ) (hes : es.Nodup) :
    Triple eventing (AllCalm R es)
      (es.forM fun e => releaseAndTerminalize e none (some err)) (fun _ => Quiescent)
      fun _ => Quiescent := by
  refine Triple.conseq (Triple.forM (P := fun rest s => AllCalm R rest s ∧ rest.Nodup)
    (firm_allCalm.fact _).stable (fun e rest => Triple.of_fact fun hnd => ?_) es)
    (fun _ _ h => ⟨h, hes⟩) (fun _ _ _ h => h.1.forget) fun _ _ _ h => h
  obtain ⟨he, hrest⟩ := List.nodup_cons.mp hnd
  refine evt_focus List.mem_cons_self (fun _ h => List.mem_cons_of_mem _ h) hR
    fun v q _ _ hcalm => ?_
  exact Triple.conseq (at_releaseAndTerminalize he hcalm (.inl ⟨rfl, err, rfl, hcode⟩))
    (fun _ _ h => h) (fun _ _ _ h => ⟨h, hrest⟩) fun _ _ _ h => h

theorem evt_readClock : Triple eventing Quiescent readClock (fun _ => Quiescent) E := by
  intro s hi h s' hc hi' ans ha
  obtain ⟨now, _, hclock⟩ := ha.2.now 0
  refine ⟨hi', ?_⟩
  dsimp only
  rw [hclock]
  exact fun u hu hiu => (firm_allCalm.stable s' u hi' hu hiu (firm_allCalm.stable s s' hi hc hi' h))

/-! ### Boundaries -/

theorem boundaryError_plain {now : ℚ} {err : InferenceRuntimeError}
    (h : boundaryError s now e = some err) :
    IsBoundedText (err.code.take 128) maxErrorCodeBytes := by
  unfold boundaryError at h
  dsimp only at h
  split_ifs at h
  · obtain rfl := Option.some_inj.mp h
    decide
  · obtain rfl := Option.some_inj.mp h
    decide
  · split at h
    · exact absurd h (by simp)
    · split_ifs at h
      obtain rfl := Option.some_inj.mp h
      split <;> decide

/-- An entry is released. -/
theorem Calm.releasing {x : RequestEntry} (h : Calm x q) (hl : x.state ≠ TERMINAL) :
    Calm { x with state := RELEASING } q := by
  refine ⟨fun ht => absurd ht (by simp), fun _ => h.unclaimed hl, fun _ hnone => ?_,
    fun _ hsome => ?_⟩
  · exact ⟨trivial, (h.unopened hl hnone).2⟩
  · obtain ⟨hsent, _, hq⟩ := h.opened hl hsome
    exact ⟨hsent, trivial, hq.imp id fun hd => ⟨hd.1, trivial⟩⟩

theorem evt_processTerminalBoundaries : Triple eventing Quiescent processTerminalBoundaries
    (fun _ => Quiescent) fun _ => Quiescent := by
  refine Triple.bind evt_readClock fun now => ?_
  refine Triple.bind (Q := fun target s => target.elim (Quiescent s) fun p =>
      ∃ v q, (At p.1 v q (fun _ _ => True) [] s ∧ Calm v q) ∧
        IsBoundedText (p.2.code.take 128) maxErrorCodeBytes) ?_ fun target => ?_
  · refine evt_atomic firm_allCalm (fun target => ?_) (fun _ => firm_allCalm)
      fun s ans hs _ h => ?_
    · cases target with
      | none => exact firm_allCalm
      | some p => exact Firm.exists fun v => Firm.exists fun q => (firm_at.fact _).fact _
    rcases boundaryBlock_spec hs.coherent now ans with heq | ⟨e, err, he, hl, herr, heq⟩
    · rw [heq]
      refine ⟨fun target ht => ?_, fun exc hexc => absurd hexc (by simp)⟩
      obtain rfl := Except.ok.inj ht
      exact h
    · rw [heq]
      refine ⟨fun target ht => ?_, fun exc hexc => absurd hexc (by simp)⟩
      obtain rfl := Except.ok.inj ht
      obtain ⟨hat, hcalm⟩ := h.focus he hl
      exact ⟨_, _, ⟨hat.modify (f := fun x => { x with state := RELEASING }) rfl rfl (fun _ => rfl)
        (by simp), hcalm.releasing hl⟩, boundaryError_plain herr⟩
  · cases target with
    | none => exact evt_pure firm_allCalm fun _ h => h
    | some p =>
      refine Triple.of_exists fun v => Triple.of_exists fun q => Triple.of_fact fun hcode =>
        Triple.of_fact fun hcalm => ?_
      exact Triple.bind (at_releaseAndTerminalize (by simp) hcalm (.inl ⟨rfl, _, rfl, hcode⟩))
        fun _ => evt_pure firm_allCalm fun _ h => h

/-! ### Opening -/

theorem activate_plain {c : ResourceAdmissionController} {id : PyStr} {reserved : Option ℤ}
    {exc : PyException} (h : c.activate id reserved = .error exc) : PlainCode exc := by
  have hcoded : ∀ {code detail : String}, IsBoundedText ((py code).take 128) maxErrorCodeBytes →
      PlainCode (AdmissionRejection.toException ⟨py code, py detail, false⟩) := by
    intro code detail hcode value hvalue _
    obtain rfl := Option.some_inj.mp hvalue
    exact hcode
  unfold ResourceAdmissionController.activate at h
  dsimp only at h
  cases hitem : c.reservations.get? id with
  | none =>
    rw [hitem] at h
    obtain rfl := Except.error.inj h
    exact hcoded (by decide)
  | some item =>
    rw [hitem] at h
    dsimp only at h
    split_ifs at h
    · obtain rfl := Except.error.inj h
      exact hcoded (by decide)
    · obtain rfl := Except.error.inj h
      exact plainCode_builtin _ _
    · obtain rfl := Except.error.inj h
      exact hcoded (by decide)

/-- An entry for which a sequence is being opened. -/
structure OpeningEntry (v : RequestEntry) : Prop where
  state : v.state = OPENING
  handle : v.handle = none
  sent : v.admittedEventSent = true
  unclaimed : v.terminalizing = false

theorem OpeningEntry.calm (h : OpeningEntry v) : Calm v .admitted := by
  refine ⟨fun ht => ?_, fun _ => h.unclaimed, fun _ _ => ?_, fun _ hs => ?_⟩
  · rw [h.state] at ht
    exact absurd ht (by decide)
  · rw [h.state, h.sent]
    exact ⟨trivial, rfl⟩
  · rw [h.handle] at hs
    exact absurd hs (by simp)

/-- An entry whose sequence has been opened. -/
structure OpenedEntry (v : RequestEntry) : Prop where
  started : v.state.Started
  handle : v.handle.isSome
  sent : v.admittedEventSent = true
  unclaimed : v.terminalizing = false

theorem OpenedEntry.calm (h : OpenedEntry v) (hl : v.state ≠ TERMINAL) : Calm v .opened := by
  refine ⟨fun ht => absurd ht hl, fun _ => h.unclaimed, fun _ hnone => ?_,
    fun _ _ => ⟨h.sent, h.started, .inl rfl⟩⟩
  have := h.handle
  rw [hnone] at this
  exact absurd this (by simp)

/-- The opening of its sequence is announced. -/
theorem at_publishOpened {handle : SequenceHandle} (hv : OpenedEntry v) :
    Triple eventing (At e v .admitted R L) (publish e .SEQUENCE_OPENED (some handle) none none)
      (fun _ s => At e v .opened R L s ∧ Calm v .opened) E := by
  intro s hi h
  have hcalm := hv.calm h.live
  refine Triple.conseq (at_publish (E := E) fun now hnow => ?_) (fun _ _ h => h)
    (fun _ s _ h => ⟨h, hcalm⟩) (fun _ _ _ h => h) s hi h
  exact ⟨v.scheduling.request_bounded, hnow, fun _ => by simp,
    by simp [SchedulerEventKind.isTokenKind], rfl⟩

/-- The picked entry is being opened. -/
theorem evt_openPick : Triple eventing Quiescent (.atomic (openPickBlock cfg) : Worker (Option ℕ))
    (fun picked s => picked.elim (Quiescent s) fun e =>
        ∃ v q, At e v q (fun _ _ => True) [] s ∧ (Calm v q ∧ v.state = OPENING ∧
          v.handle = none)) fun _ => Quiescent := by
  refine evt_atomic firm_allCalm (fun picked => ?_) (fun _ => firm_allCalm) fun s ans hs _ h => ?_
  · cases picked with
    | none => exact firm_allCalm
    | some e => exact Firm.exists fun v => Firm.exists fun q => firm_at.fact _
  rcases openPickBlock_spec hs.coherent ans with ⟨hprune, hno⟩ | ⟨e, t, heq, hprune, he, hst⟩
  · have h' := h.of_heap hprune.heap hprune.published
    refine ⟨fun picked hpicked => ?_, fun _ _ => h'⟩
    cases picked with
    | none => exact h'
    | some e => exact absurd hpicked (hno e)
  · have h' := h.of_heap hprune.heap hprune.published
    have hst' : (t.entry e).state = QUEUED := by rw [entry_congr hprune.heap, hst]
    have hl' : (t.entry e).state ≠ TERMINAL := by rw [hst']; decide
    obtain ⟨hat, hcalm⟩ := h'.focus (hprune.heap.symm ▸ he) hl'
    -- a queued entry has no handle
    have hnone : (t.entry e).owned.handle = none := by
      by_contra hsome
      have hstarted := (hcalm.opened hl' (Option.isSome_iff_ne_none.mpr hsome)).2.1
      rw [show (t.entry e).owned.state = QUEUED from hst'] at hstarted
      exact hstarted
    rw [heq]
    refine ⟨fun picked hpicked => ?_, fun exc hexc => absurd hexc (by simp)⟩
    obtain rfl := Except.ok.inj hpicked
    refine ⟨_, _, hat.modify (f := fun x => { x with state := OPENING }) rfl rfl (fun _ => rfl)
      (by simp), ⟨fun ht => absurd ht (by simp), fun _ => hcalm.unclaimed hl', fun _ hn => ?_,
      fun _ hs => ?_⟩, rfl, hnone⟩
    · exact ⟨trivial, (hcalm.unopened hl' hn).2⟩
    · have hs' : (t.entry e).owned.handle.isSome := hs
      rw [hnone] at hs'
      exact absurd hs' (by simp)

/-- The opened sequence is made runnable, or is to be released at once. -/
theorem at_openCommit {handle : SequenceHandle} (hv : OpeningEntry v) :
    Triple eventing (At e v .admitted R L) (.atomic (openCommitBlock e handle) : Worker Bool)
      (fun _ s => ∃ w : RequestEntry, At e w .admitted R L s ∧ OpenedEntry w)
      fun _ => Quiescent := by
  refine evt_atomic firm_at (fun _ => Firm.exists fun w => firm_at.fact _) (fun _ => firm_allCalm)
    fun s ans _ hans h => ?_
  obtain ⟨t, _, hclock⟩ := hans.now 0
  have hmove : ∀ now deadline, ∀ state : RuntimeRequestState, state ≠ TERMINAL → state.Started →
      ∀ s' : SchedulerState, s'.heap = s.heap.modify e (opened handle now deadline state) →
      s'.published = s.published →
      ∃ w : RequestEntry, At e w .admitted R L s' ∧ OpenedEntry w := by
    intro now deadline state hl hst s' hheap hpub
    exact ⟨_, h.modify hheap hpub (fun _ => rfl) hl, hst, rfl, hv.sent, hv.unclaimed⟩
  rcases openCommitBlock_spec e handle s ans with ⟨exc, hexc, _⟩ | ⟨now, deadline, _, heq | heq⟩
  · rw [hclock] at hexc
    exact absurd hexc (by simp)
  · rw [heq]
    exact ⟨fun _ _ => hmove now deadline RELEASING (by decide) trivial _ rfl rfl,
      fun exc hexc => absurd hexc (by simp)⟩
  · rw [heq]
    exact ⟨fun _ _ => hmove now deadline PREFILL (by decide) trivial _ rfl rfl,
      fun exc hexc => absurd hexc (by simp)⟩

theorem evt_openOne :
    Triple eventing Quiescent (openOne cfg) (fun _ => Quiescent) fun _ => Quiescent := by
  refine Triple.bind evt_openPick fun picked => ?_
  cases picked with
  | none => exact evt_pure firm_allCalm fun _ h => h
  | some e =>
  refine Triple.of_exists fun v => Triple.of_exists fun q => Triple.of_fact fun hv => ?_
  obtain ⟨hcalm, hstate, hhandle⟩ := hv
  have hl : v.state ≠ TERMINAL := by rw [hstate]; decide
  have hphase := (hcalm.phase hl).1 hhandle
  refine Triple.bind at_ensureAdmitted fun _ => ?_
  rw [hphase]
  have hopening : OpeningEntry { v with admittedEventSent := true } :=
    ⟨hstate, hhandle, rfl, hcalm.unclaimed hl⟩
  generalize ({ v with admittedEventSent := true } : RequestEntry) = u at hopening
  have hidle : ∀ s, At e u .admitted (fun _ _ => True) [] s → Quiescent s :=
    fun s h => h.unfocus hopening.calm fun _ => trivial
  have hpure : ∀ b : Bool, Triple eventing Quiescent (pure b : Worker Bool) (fun _ => Quiescent)
      fun _ => Quiescent := fun b => evt_pure firm_allCalm fun _ h => h
  refine Triple.bind (triple_catching (Q := fun _ => At e u .admitted (fun _ _ => True) [])
    (E := fun exc s => At e u .admitted (fun _ _ => True) [] s ∧
      (exc.isException = true → PlainCode exc))
    (fun _ => firm_at.stable) (fun _ => (firm_at.fact _).stable) (fun _ s _ h => hidle s h.1)
    (evt_atomic firm_at (fun _ => firm_at) (fun _ => firm_at.fact _) fun s ans _ hans h => ?_))
    fun res => ?_
  · exact ⟨fun _ _ => h.of_heap rfl rfl, fun exc hexc => ⟨h.of_heap rfl rfl, hans.openSequence exc hexc⟩⟩
  cases res with
  | error exc =>
    refine Triple.of_fact fun hexception => Triple.of_fact fun hplain => Triple.bind
      (at_terminalize (by simp) hopening.unclaimed ?_ fun _ => firm_allCalm) fun _ => hpure true
    rw [if_pos hopening.sent]
    exact ⟨trivial, (hplain hexception).backendError (by decide) (by decide)⟩
  | ok handle =>
  refine Triple.bind (triple_catching (Q := fun _ => At e u .admitted (fun _ _ => True) [])
    (E := fun exc s => At e u .admitted (fun _ _ => True) [] s ∧
      (exc.isException = true → PlainCode exc))
    (fun _ => firm_at.stable) (fun _ => (firm_at.fact _).stable) (fun _ s _ h => hidle s h.1)
    (evt_atomic firm_at (fun _ => firm_at) (fun _ => firm_at.fact _) fun s ans _ hans h => ?_))
    fun res => ?_
  · obtain ⟨admission, hstate⟩ := activateBlock_spec e s ans
    rw [hstate]
    refine ⟨fun _ _ => h.of_heap rfl rfl, fun exc hexc => ⟨h.of_heap rfl rfl, fun hexception => ?_⟩⟩
    unfold activateBlock at hexc
    cases hreserve : ans.reservationTokens with
    | error exc' =>
      rw [hreserve] at hexc
      obtain rfl := Except.error.inj hexc
      exact hans.reservationTokens _ hreserve hexception
    | ok reserved =>
      rw [hreserve] at hexc
      dsimp only at hexc
      split at hexc
      · rename_i hactivate
        obtain rfl := Except.error.inj hexc
        exact activate_plain hactivate
      · exact absurd hexc (by simp)
  cases res with
  | error exc =>
    refine Triple.of_fact fun hexception => Triple.of_fact fun hplain => ?_
    have hopened : OpenedEntry { u with handle := some handle, state := RELEASING } :=
      ⟨trivial, rfl, hopening.sent, hopening.unclaimed⟩
    refine Triple.bind (evt_modify firm_at firm_at fun s h => h.modify
      (f := fun x => { x with handle := some handle, state := RELEASING }) rfl rfl (fun _ => rfl)
      (by simp)) fun _ => Triple.bind (at_publishOpened hopened) fun _ =>
        Triple.of_fact fun hcalm => ?_
    exact Triple.bind (at_releaseAndTerminalize (by simp) hcalm (.inl ⟨rfl, _, rfl,
      (hplain hexception).backendError (by decide) (by decide)⟩)) fun _ => hpure true
  | ok _ =>
    refine Triple.bind (at_keep fun s => ⟨rfl, rfl⟩) fun _ => Triple.bind (at_openCommit hopening)
      fun releaseImmediately => Triple.of_exists fun w => Triple.of_fact fun hw => ?_
    refine Triple.bind (at_publishOpened hw) fun _ => Triple.of_fact fun hcalm => ?_
    refine Triple.ite (fun _ => ?_) fun _ =>
      evt_pure firm_allCalm fun _ h => h.unfocus hcalm fun _ => trivial
    refine Triple.bind (evt_read (G := fun _ => True) firm_at fun _ _ => trivial) fun cancelled =>
      Triple.of_fact fun _ => ?_
    refine Triple.bind (at_releaseAndTerminalize (by simp) hcalm (.inl ⟨rfl, _, rfl, ?_⟩))
      fun _ => hpure true
    split_ifs <;> decide

/-! ### Prefill -/

/-- In a prefill batch. -/
def InPrefill : Knowledge := fun x _ => x.state = PREFILL_INFLIGHT ∧ x.handle.isSome

/-- After its prefill outcome: where the entry is to be released, it says why. -/
def AfterPrefill : Knowledge := fun x p =>
  x.state ≠ TERMINAL ∧ x.handle.isSome ∧ p = .opened ∧
    (x.state = RELEASING → ∃ err, x.error = some err ∧
      IsBoundedText (err.code.take 128) maxErrorCodeBytes)

/-- The entries of a batch go in flight together. -/
theorem AllCalm.inFlight (h : AllCalm R' L' s) {state : RuntimeRequestState} {es : List ℕ}
    (hes : ∀ e ∈ es, e < s.heap.length ∧ Calm { s.entry e with state := state } (phaseOf s e) ∧
      R { (s.entry e).owned with state := state } (phaseOf s e)) :
    AllCalm R es (setStates state es s) := by
  have hpub : (setStates state es s).published = s.published := by rw [setStates_eq]
  have hlen := length_setStates state es s
  refine ⟨fun e he => ?_, fun e he => ?_, ?_⟩
  · rw [phaseOf_congr hpub, entry_setStates]
    split_ifs with hc
    · exact (hes e hc.1).2.1
    · exact h.calm e (hlen ▸ he)
  · obtain ⟨hlt, _, hR⟩ := hes e he
    rw [phaseOf_congr hpub, entry_setStates, if_pos ⟨he, hlt⟩, hlen]
    exact ⟨hlt, hR⟩
  · rw [hpub, hlen]
    exact h.inRange

theorem evt_prefillTake : Triple eventing Quiescent (.atomic (prefillTakeBlock cfg))
    (fun picked s => AllCalm InPrefill (picked.map Prod.fst) s ∧ (picked.map Prod.fst).Nodup)
    fun _ => Quiescent := by
  refine evt_atomic firm_allCalm (fun _ => firm_allCalm.fact _) (fun _ => firm_allCalm)
    fun s ans hs _ h => ?_
  rcases @prefillTakeBlock_spec cfg s hs.coherent ans with
    ⟨exc, t, heq, hprune⟩ | ⟨picked, t, heq, hpick⟩
  · rw [heq]
    exact ⟨fun a ha => absurd ha (by simp), fun _ _ => h.of_heap hprune.heap hprune.published⟩
  · rw [heq]
    refine ⟨fun a ha => ?_, fun exc hexc => absurd hexc (by simp)⟩
    obtain rfl := Except.ok.inj ha
    have ht := h.of_heap hpick.pruned.heap hpick.pruned.published
    refine ⟨ht.inFlight fun e he => ?_, (hpick.nodup (hs.prefill_nodup trivial)).1⟩
    obtain ⟨p, hp, rfl⟩ := List.mem_map.mp he
    have hentry : t.entry p.1 = s.entry p.1 := entry_congr hpick.pruned.heap
    have hlt : p.1 < t.heap.length := hpick.pruned.heap.symm ▸ hpick.inHeap p.1 he
    have hstate : (t.entry p.1).state = PREFILL := by rw [hentry, hpick.state p.1 he]
    have hsome : (t.entry p.1).handle.isSome := by
      rw [hentry, hpick.handle p hp]
      rfl
    have hl : (t.entry p.1).state ≠ TERMINAL := by rw [hstate]; decide
    have hcalm := ht.calm p.1 hlt
    obtain ⟨hsent, _, hq⟩ := hcalm.opened hl hsome
    refine ⟨hlt, ⟨fun hterm => absurd hterm (by simp), fun _ => hcalm.unclaimed hl,
      fun _ hnone => ?_, fun _ _ => ⟨hsent, trivial, .inl ?_⟩⟩, rfl, hsome⟩
    · have hnone' : (t.entry p.1).handle = none := hnone
      rw [hnone'] at hsome
      exact absurd hsome (by simp)
    · -- no token has been decoded before the prefill is over
      rcases hq with hq | ⟨_, hpast⟩
      · exact hq
      · rw [hstate] at hpast
        exact hpast.elim

/-- A batch is handed to the backend; the list stays as it is. -/
theorem evt_call {β : Type} {c : BackendCall}
    {block : SchedulerState → Answer → Except PyException α × SchedulerState}
    (hblock : ∀ s ans, (block s ans).2 = { s with backendCalls := s.backendCalls ++ [c] })
    (hplain : ∀ s ans exc, Regular ans → (block s ans).1 = .error exc → exc.isException = true →
      PlainCode exc)
    {k : Except PyException α → Worker β} {Q : β → SchedulerState → Prop}
    (herr : ∀ exc, PlainCode exc →
      Triple eventing (AllCalm R L) (k (.error exc)) Q fun _ => Quiescent)
    (hok : ∀ a, Triple eventing (AllCalm R L) (k (.ok a)) Q fun _ => Quiescent) :
    Triple eventing (AllCalm R L) (catching (.atomic block) >>= k) Q fun _ => Quiescent := by
  refine Triple.bind (triple_catching (Q := fun _ => AllCalm R L)
    (E := fun exc s => AllCalm R L s ∧ (exc.isException = true → PlainCode exc))
    (fun _ => firm_allCalm.stable) (fun _ => (firm_allCalm.fact _).stable)
    (fun _ s _ h => h.1.forget) (evt_atomic firm_allCalm (fun _ => firm_allCalm)
      (fun _ => firm_allCalm.fact _) fun s ans _ hans h => ?_)) fun res => ?_
  · rw [hblock]
    exact ⟨fun _ _ => h.of_heap rfl rfl,
      fun exc hexc => ⟨h.of_heap rfl rfl, hplain s ans exc hans hexc⟩⟩
  · cases res with
    | error exc =>
      exact Triple.of_fact fun hexception => Triple.of_fact fun h => herr exc (h hexception)
    | ok a => exact hok a

theorem prefillCallBlock_plain {steps : List SequenceStep} {ans : Answer} {exc : PyException}
    (hans : Regular ans) (h : (prefillCallBlock steps s ans).1 = .error exc)
    (hexception : exc.isException = true) : PlainCode exc := by
  unfold prefillCallBlock at h
  cases hres : ans.prefillBatch with
  | error exc' =>
    rw [hres] at h
    obtain rfl := Except.error.inj h
    exact hans.prefillBatch _ hres hexception
  | ok outcomes =>
    rw [hres] at h
    dsimp only at h
    split_ifs at h
    obtain rfl := Except.error.inj h
    exact plainCode_builtin _ _

/-- What a prefill outcome makes of an entry of the batch. -/
theorem afterPrefill_calm {x : RequestEntry} {p : Phase} (hx : InPrefill x.owned p)
    (hcalm : Calm x p) (outcome : PrefillOutcome) :
    Calm (afterPrefill x outcome) p ∧ AfterPrefill (afterPrefill x outcome).owned p := by
  have hstate : x.state = PREFILL_INFLIGHT := hx.1
  have hl : x.state ≠ TERMINAL := by rw [hstate]; decide
  obtain ⟨hsent, _, hq⟩ := hcalm.opened hl hx.2
  have hopened : p = .opened := by
    rcases hq with hq | ⟨_, hpast⟩
    · exact hq
    · rw [hstate] at hpast
      exact hpast.elim
  obtain ⟨_, hhandle, hstarted, hlive⟩ := afterPrefill_spec x outcome
  have hsome : (afterPrefill x outcome).handle.isSome := hhandle ▸ hx.2
  have hflags : (afterPrefill x outcome).terminalizing = x.terminalizing ∧
      (afterPrefill x outcome).admittedEventSent = x.admittedEventSent := by
    unfold afterPrefill
    split_ifs <;> exact ⟨rfl, rfl⟩
  refine ⟨⟨fun ht => absurd ht hlive, fun _ => hflags.1 ▸ hcalm.unclaimed hl, fun _ hnone => ?_,
    fun _ _ => ⟨hflags.2 ▸ hsent, hstarted, .inl hopened⟩⟩, hlive, hsome, hopened, fun hrel => ?_⟩
  · rw [hnone] at hsome
    exact absurd hsome (by simp)
  · have hrel' : (afterPrefill x outcome).state = RELEASING := hrel
    show ∃ err, (afterPrefill x outcome).error = some err ∧ _
    unfold afterPrefill at hrel' ⊢
    split_ifs at hrel' ⊢
    · exact ⟨_, rfl, by decide⟩
    · exact absurd hrel' (by cases outcome.status <;> simp)

theorem applyPrefill_published : ∀ (pairs : List (ℕ × PrefillOutcome)) (s : SchedulerState),
    (pairs.foldl (fun s p => applyPrefillOutcome s p.1 p.2) s).published = s.published
  | [], _ => rfl
  | p :: rest, s => by
    have hone := (applyPrefillOutcome_spec s p.1 p.2).frame
    rw [List.foldl_cons, applyPrefill_published rest, hone]

theorem evt_applyPrefill (selected : List ℕ) (outcomes : List PrefillOutcome)
    (hnd : selected.Nodup) : Triple eventing (AllCalm InPrefill selected)
      (.atomic (applyPrefill selected outcomes) : Worker (List (ℕ × PrefillOutcome)))
      (fun published s => AllCalm AfterPrefill selected s ∧ ∀ p ∈ published, p.1 ∈ selected)
      fun _ => Quiescent := by
  refine evt_atomic firm_allCalm (fun _ => firm_allCalm.fact _) (fun _ => firm_allCalm)
    fun s ans _ _ h => ?_
  have hsub := map_fst_zip_sublist selected outcomes
  obtain ⟨hin, hout, hlen⟩ := entry_foldl_applyPrefill (selected.zip outcomes) s
    (hsub.nodup hnd) fun p hp => (h.listed p.1 (List.of_mem_zip hp).1).1
  have hpub := applyPrefill_published (selected.zip outcomes) s
  generalize hfold : (selected.zip outcomes).foldl (fun s p => applyPrefillOutcome s p.1 p.2) s = t
    at hin hout hlen hpub
  have hcalm : AllCalm AfterPrefill selected t := by
    -- an entry without outcome is still in flight
    have hboth : ∀ e ∈ selected, Calm (t.entry e) (phaseOf t e) ∧
        AfterPrefill (t.entry e).owned (phaseOf t e) := by
      intro e he
      obtain ⟨hlt, hR⟩ := h.listed e he
      have hold := h.calm e hlt
      rw [phaseOf_congr hpub]
      by_cases hmem : e ∈ (selected.zip outcomes).map Prod.fst
      · obtain ⟨p, hp, rfl⟩ := List.mem_map.mp hmem
        rw [hin p hp]
        exact afterPrefill_calm hR hold p.2
      · rw [hout e hmem]
        have hstate : (s.entry e).state = PREFILL_INFLIGHT := hR.1
        refine ⟨hold, ?_, hR.2, ?_, fun hrel => ?_⟩
        · show (s.entry e).state ≠ TERMINAL
          rw [hstate]
          decide
        · rcases (hold.opened (by rw [hstate]; decide) hR.2).2.2 with hq | ⟨_, hpast⟩
          · exact hq
          · rw [hstate] at hpast
            exact hpast.elim
        · exact absurd (hstate.symm.trans hrel) (by decide)
    refine ⟨fun e he => ?_, fun e he => ⟨?_, (hboth e he).2⟩, ?_⟩
    · by_cases hmem : e ∈ selected
      · exact (hboth e hmem).1
      · rw [phaseOf_congr hpub, hout e fun hm => hmem (hsub.subset hm)]
        exact h.calm e (hlen ▸ he)
    · rw [hlen]
      exact (h.listed e he).1
    · rw [hpub, hlen]
      exact h.inRange
  refine ⟨fun published hp => ⟨?_, fun p hmem => ?_⟩, fun exc hexc => nomatch hexc⟩
  · rw [← hfold] at hcalm
    exact hcalm.of_heap rfl rfl
  · obtain rfl := Except.ok.inj hp
    exact (List.of_mem_zip (List.mem_of_mem_filter hmem)).1

/-- Events that count tokens are announced for live entries. -/
theorem at_publishTokens {kind : SchedulerEventKind} {n : ℕ} (hkind : kind.isTokenKind = true)
    (hsome : v.handle.isSome) :
    Triple eventing (At e v q R L) (do
      let handle ← Thread.read fun s => (s.entry e).handle
      publish e kind handle (some n) none) (fun _ => At e v (q.next kind) R L) E := by
  refine Triple.bind (evt_read (G := fun handle => handle = v.handle) firm_at fun s h => ?_)
    fun handle => Triple.of_fact fun hhandle => at_publish fun now hnow => ?_
  · rw [← h.entry]
    rfl
  · refine ⟨v.scheduling.request_bounded, hnow, fun _ => ?_, ?_, ?_⟩
    · rw [hhandle]
      exact Option.isSome_iff_ne_none.mp hsome
    · simp [hkind]
    · cases kind <;> first | rfl | exact absurd hkind (by decide)

theorem evt_runPrefillBatch :
    Triple eventing Quiescent (runPrefillBatch cfg) (fun _ => Quiescent) fun _ => Quiescent := by
  refine Triple.bind evt_prefillTake fun picked => Triple.of_fact fun hnd => ?_
  refine Triple.ite (fun _ => evt_pure firm_allCalm fun _ h => h.forget) fun _ => ?_
  refine evt_call (fun s ans => prefillCallBlock_state _ s ans)
    (fun s ans exc hans hexc => prefillCallBlock_plain hans hexc) (fun exc hplain => ?_)
    fun outcomes => ?_
  · exact evt_endAll (hplain.backendError (by decide) (by decide))
      (fun x _ h => by rw [h.1]; decide) _ hnd
  refine Triple.bind (evt_applyPrefill _ outcomes hnd) fun published => Triple.of_fact fun hpub => ?_
  refine Triple.bind (Q := fun _ => AllCalm AfterPrefill (picked.map Prod.fst)) ?_ fun _ => ?_
  · -- the counts are announced; the entries stay as they are
    refine Triple.conseq (Triple.forM (P := fun rest s =>
        AllCalm AfterPrefill (picked.map Prod.fst) s ∧ ∀ p ∈ rest, p.1 ∈ picked.map Prod.fst)
      (firm_allCalm.fact _).stable (fun p rest => Triple.of_fact fun hrest => ?_) published)
      (fun _ _ h => ⟨h, hpub⟩) (fun _ _ _ h => h.1) fun _ _ _ h => h
    refine evt_focus (hrest p List.mem_cons_self) (fun _ h => h) (fun _ _ h => h.1)
      fun v q hv hl hcalm => ?_
    refine Triple.bind (at_keep fun s => ?_) fun _ => Triple.conseq
      (at_publishTokens rfl hv.2.1) (fun _ _ h => h) (fun _ s _ h => ⟨?_, fun p' hp' =>
        hrest p' (List.mem_cons_of_mem _ hp')⟩) fun _ _ _ h => h
    · split_ifs <;> exact ⟨rfl, rfl⟩
    · have hnext : q.next .PREFILL_COMPLETED = q := by
        rw [hv.2.2.1]
        rfl
      rw [hnext] at h
      exact h.unfocus hcalm fun _ => hv
  · refine Triple.conseq (Triple.forM (P := fun rest s => AllCalm AfterPrefill rest s ∧ rest.Nodup)
      (firm_allCalm.fact _).stable (fun e rest => Triple.of_fact fun hrest => ?_) _)
      (fun _ _ h => ⟨h, hnd⟩) (fun _ _ _ h => h.1.forget) fun _ _ _ h => h
    obtain ⟨he, hrest⟩ := List.nodup_cons.mp hrest
    refine evt_focus List.mem_cons_self (fun _ h => List.mem_cons_of_mem _ h) (fun _ _ h => h.1)
      fun v q hv hl hcalm => ?_
    refine Triple.bind (evt_read (G := fun x => x.state = v.state ∧ x.error = v.error) firm_at
      fun s h => ?_) fun x => Triple.of_fact fun hx => ?_
    · rw [← h.entry]
      exact ⟨rfl, rfl⟩
    refine Triple.ite (fun hrel => ?_) fun _ => ?_
    · obtain ⟨err, herr, hcode⟩ := hv.2.2.2 (hx.1 ▸ hrel)
      exact Triple.conseq (at_releaseAndTerminalize he hcalm
        (.inl ⟨rfl, err, hx.2.trans herr, hcode⟩)) (fun _ _ h => h) (fun _ _ _ h => ⟨h, hrest⟩)
        fun _ _ _ h => h
    · exact evt_pure (firm_allCalm.fact _) fun s h =>
        ⟨h.unfocus hcalm fun hmem => absurd hmem he, hrest⟩

/-! ### Decode -/

/-- In a decode batch. -/
def InDecode : Knowledge := fun x _ => x.state = DECODE_INFLIGHT ∧ x.handle.isSome

/-- After its decode outcome. -/
def AfterDecode : Knowledge := fun x _ =>
  x.state ≠ TERMINAL ∧ x.handle.isSome ∧ x.state.PastPrefill

theorem evt_decodeTake : Triple eventing Quiescent (.atomic (decodeTakeBlock cfg))
    (fun picked s => AllCalm InDecode picked.1 s ∧ picked.1.Nodup) fun _ => Quiescent := by
  refine evt_atomic firm_allCalm (fun _ => firm_allCalm.fact _) (fun _ => firm_allCalm)
    fun s ans hs _ h => ?_
  rcases @decodeTakeBlock_spec cfg s hs.coherent ans with
    ⟨exc, t, heq, hprune⟩ | ⟨selected, pairs, t, heq, hpick⟩
  · rw [heq]
    exact ⟨fun a ha => absurd ha (by simp), fun _ _ => h.of_heap hprune.heap hprune.published⟩
  · rw [heq]
    refine ⟨fun a ha => ?_, fun exc hexc => absurd hexc (by simp)⟩
    obtain rfl := Except.ok.inj ha
    have ht := h.of_heap hpick.pruned.heap hpick.pruned.published
    have hentry : ∀ e, t.entry e = s.entry e := fun e => entry_congr hpick.pruned.heap
    -- an entry that is decoding has a handle
    have hsome : ∀ e ∈ selected, (s.entry e).handle.isSome := by
      intro e he
      have hstate := hpick.state e he
      by_contra hnone
      have hcalm := (h.calm e (hpick.inHeap e he)).unopened (by rw [hstate]; decide)
        (by simpa using hnone)
      rw [hstate] at hcalm
      exact hcalm.1
    have hall : selected.filter (fun e => (s.entry e).handle.isSome) = selected :=
      List.filter_eq_self.mpr hsome
    show AllCalm InDecode selected (setStates DECODE_INFLIGHT _ t) ∧ selected.Nodup
    rw [hall]
    refine ⟨ht.inFlight fun e he => ?_, (hpick.nodup (hs.decode_nodup trivial)).1⟩
    have hlt : e < t.heap.length := hpick.pruned.heap.symm ▸ hpick.inHeap e he
    have hstate : (t.entry e).state = DECODE := by rw [hentry, hpick.state e he]
    have hsome' : (t.entry e).handle.isSome := hentry e ▸ hsome e he
    have hl : (t.entry e).state ≠ TERMINAL := by rw [hstate]; decide
    have hcalm := ht.calm e hlt
    obtain ⟨hsent, _, hq⟩ := hcalm.opened hl hsome'
    refine ⟨hlt, ⟨fun hterm => absurd hterm (by simp), fun _ => hcalm.unclaimed hl,
      fun _ hnone => ?_, fun _ _ => ⟨hsent, trivial, hq.imp id fun hd => ⟨hd.1, trivial⟩⟩⟩, rfl,
      hsome'⟩
    have hnone' : (t.entry e).handle = none := hnone
    rw [hnone'] at hsome'
    exact absurd hsome' (by simp)

theorem decodeCallBlock_plain {selected : List ℕ} {steps : List SequenceStep} {ans : Answer}
    {exc : PyException} (hans : Regular ans)
    (h : (decodeCallBlock selected steps s ans).1 = .error exc)
    (hexception : exc.isException = true) : PlainCode exc := by
  unfold decodeCallBlock at h
  cases hres : ans.decodeBatch with
  | error exc' =>
    rw [hres] at h
    obtain rfl := Except.error.inj h
    exact hans.decodeBatch _ hres hexception
  | ok outcomes =>
    rw [hres] at h
    dsimp only at h
    split_ifs at h
    obtain rfl := Except.error.inj h
    exact plainCode_builtin _ _

/-- What a decode outcome makes of an entry of the batch. -/
theorem afterDecode_calm {x : RequestEntry} {p : Phase} (hx : InDecode x.owned p)
    (hcalm : Calm x p) (outcome : DecodeOutcome) :
    Calm (afterDecode x outcome) p ∧ AfterDecode (afterDecode x outcome).owned p := by
  have hstate : x.state = DECODE_INFLIGHT := hx.1
  have hl : x.state ≠ TERMINAL := by rw [hstate]; decide
  obtain ⟨hsent, _, hq⟩ := hcalm.opened hl hx.2
  obtain ⟨_, hhandle, hstarted, hpast, hlive⟩ := afterDecode_spec x outcome
  have hsome : (afterDecode x outcome).handle.isSome := hhandle ▸ hx.2
  refine ⟨⟨fun ht => absurd ht hlive, fun _ => hcalm.unclaimed hl, fun _ hnone => ?_,
    fun _ _ => ⟨hsent, hstarted, hq.imp id fun hd => ⟨hd.1, hpast⟩⟩⟩, hlive, hsome, hpast⟩
  rw [hnone] at hsome
  exact absurd hsome (by simp)

/-- One outcome of a decode batch is applied to an entry in flight. -/
theorem AllCalm.outcome (h : AllCalm InDecode L s) (he : e ∈ L) {outcome : DecodeOutcome}
    {t : SchedulerState} (ho : Outcome s t e (afterDecode (s.entry e) outcome)) :
    Calm (t.entry e) (phaseOf t e) ∧ AfterDecode (t.entry e).owned (phaseOf t e) := by
  obtain ⟨hlt, hR⟩ := h.listed e he
  have hpub : t.published = s.published := by rw [ho.frame]
  rw [phaseOf_congr hpub, entry_modify_self ho.heap hlt]
  exact afterDecode_calm hR (h.calm e hlt) outcome

/-- Some entries of a batch, `done`, have got their outcomes; `rest` have not. -/
structure Decoded (done rest : List ℕ) (s : SchedulerState) : Prop where
  after : AllCalm AfterDecode done s
  before : AllCalm InDecode rest s

theorem Decoded.step {done rest : List ℕ} (h : Decoded done (e :: rest) s) (he : e ∉ rest)
    (hd : e ∉ done) {outcome : DecodeOutcome} {t : SchedulerState}
    (ho : Outcome s t e (afterDecode (s.entry e) outcome)) : Decoded (done ++ [e]) rest t := by
  have hpub : t.published = s.published := by rw [ho.frame]
  have hself := h.before.outcome List.mem_cons_self ho
  have hne : ∀ e', e' ≠ e → t.entry e' = s.entry e' := fun e' hne => ho.entry_ne hne.symm
  have hcalm : ∀ e' < t.heap.length, Calm (t.entry e') (phaseOf t e') := by
    intro e' he'
    by_cases heq : e' = e
    · exact heq ▸ hself.1
    · rw [hne e' heq, phaseOf_congr hpub]
      exact h.after.calm e' (ho.length ▸ he')
  have hrange : ∀ p ∈ t.published, p.1 < t.heap.length := by
    rw [hpub, ho.length]
    exact h.after.inRange
  refine ⟨⟨hcalm, fun e' he' => ?_, hrange⟩, ⟨hcalm, fun e' he' => ?_, hrange⟩⟩
  · rw [ho.length]
    rcases List.mem_append.mp he' with he' | he'
    · have heq : e' ≠ e := fun heq => hd (heq ▸ he')
      rw [hne e' heq, phaseOf_congr hpub]
      exact h.after.listed e' he'
    · obtain rfl := List.mem_singleton.mp he'
      exact ⟨(h.before.listed e' List.mem_cons_self).1, hself.2⟩
  · have heq : e' ≠ e := fun heq => he (heq ▸ he')
    rw [ho.length, hne e' heq, phaseOf_congr hpub]
    exact h.before.listed e' (List.mem_cons_of_mem _ he')

/-- Every entry of the batch has a handle, so every outcome is applied. -/
theorem applyDecodeLoop_calm : ∀ (pairs : List (ℕ × DecodeOutcome)) (done : List ℕ)
    (s : SchedulerState), (done ++ pairs.map Prod.fst).Nodup →
    Decoded done (pairs.map Prod.fst) s →
    ∃ out t, applyDecodeLoop pairs s = (.ok out, t) ∧ out.map Prod.fst = pairs.map Prod.fst ∧
      AllCalm AfterDecode (done ++ pairs.map Prod.fst) t
  | [], done, s, _, h => ⟨[], s, rfl, rfl, by simpa using h.after⟩
  | (e, outcome) :: rest, done, s, hnd, h => by
    rw [List.map_cons] at hnd h ⊢
    rw [List.nodup_append] at hnd
    obtain ⟨hnd₁, hnd₂, hdisj⟩ := hnd
    obtain ⟨he, hnd₂⟩ := List.nodup_cons.mp hnd₂
    have hd : e ∉ done := fun hmem => hdisj e hmem e List.mem_cons_self rfl
    obtain ⟨hlt, hstate, hsome⟩ := h.before.listed e List.mem_cons_self
    obtain ⟨handle, hhandle⟩ := Option.isSome_iff_exists.mp hsome
    have hchecked : checkedOutcome (s.entry e) outcome
        = .ok (if outcome.handle = handle then outcome else protocolViolation handle) := by
      have hhandle' : (s.entry e).handle = some handle := hhandle
      rw [checkedOutcome, hhandle']
    generalize (if outcome.handle = handle then outcome else protocolViolation handle) = counted
      at hchecked
    have hstep := h.step he hd (applyDecodeOutcome_spec s e counted)
    obtain ⟨out, t, heq, hout, hcalm⟩ := applyDecodeLoop_calm rest (done ++ [e])
      (applyDecodeOutcome s e counted) (by
        rw [List.append_assoc]
        exact List.nodup_append.mpr ⟨hnd₁, List.nodup_cons.mpr ⟨he, hnd₂⟩, hdisj⟩) hstep
    refine ⟨(e, counted) :: out, t, ?_, by rw [List.map_cons, hout], ?_⟩
    · rw [applyDecodeLoop, hchecked]
      dsimp only
      rw [heq]
    · rw [List.append_assoc] at hcalm
      exact hcalm

theorem evt_applyDecode (selected : List ℕ) (outcomes : List DecodeOutcome)
    (hnd : selected.Nodup) : Triple eventing (AllCalm InDecode selected)
      (.atomic (applyDecode selected outcomes) : Worker (List (ℕ × DecodeOutcome)))
      (fun done s => AllCalm AfterDecode (done.map Prod.fst) s ∧ (done.map Prod.fst).Nodup)
      fun _ => Quiescent := by
  refine evt_atomic firm_allCalm (fun _ => firm_allCalm.fact _) (fun _ => firm_allCalm)
    fun s ans _ _ h => ?_
  have hsub := map_fst_zip_sublist selected outcomes
  obtain ⟨out, t, heq, hout, hcalm⟩ := applyDecodeLoop_calm (selected.zip outcomes) [] s
    (by simpa using hsub.nodup hnd) ⟨h.forget, h.weaken (fun e he => hsub.subset he) fun _ _ h => h⟩
  have hblock : applyDecode selected outcomes s ans
      = (.ok out, { t with decodeBurst := t.decodeBurst + 1 }.notifyAll) := by
    rw [applyDecode, heq]
  rw [hblock]
  refine ⟨fun done hdone => ?_, fun exc hexc => nomatch hexc⟩
  obtain rfl := Except.ok.inj hdone
  rw [hout]
  exact ⟨hcalm.of_heap rfl rfl, hsub.nodup hnd⟩

theorem decodeError_plain {outcome : DecodeOutcome} (h : outcome.status = .FAILED) :
    IsBoundedText ((decodeError outcome.errorCode).code.take 128) maxErrorCodeBytes := by
  have hvalid := outcome.valid
  rw [h] at hvalid
  obtain ⟨_, _, code, hcode, hbounded⟩ := hvalid
  have hlen : code.length ≤ 128 := by
    have hbytes := List.length_le_sum_of_one_le (code.map fun c => c.utf8Bytes.length) fun n hn => by
      obtain ⟨c, _, rfl⟩ := List.mem_map.mp hn
      rw [CodePoint.length_utf8Bytes]
      exact c.utf8Size_pos
    rw [List.length_map, ← List.length_flatMap] at hbytes
    exact hbytes.trans hbounded.2.2.1
  have hcode' : (decodeError outcome.errorCode).code = code := by
    rw [show outcome.errorCode = some code from hcode]
    exact if_neg hbounded.1
  rw [hcode', List.take_of_length_le hlen]
  exact hbounded

theorem at_completeEntry {completion : Option SequenceCompletion} (he : e ∉ L) (hcalm : Calm v q)
    (hsome : v.handle.isSome) :
    Triple eventing (At e v q R L) (completeEntry cfg e completion) (fun _ => AllCalm R L)
      fun _ => Quiescent := by
  have hfail : ∀ err : InferenceRuntimeError, IsBoundedText (err.code.take 128) maxErrorCodeBytes →
      Triple eventing (At e v q R L) (releaseAndTerminalize e none (some err))
        (fun _ => AllCalm R L) fun _ => Quiescent :=
    fun err hcode => at_releaseAndTerminalize he hcalm (.inl ⟨rfl, err, rfl, hcode⟩)
  cases completion with
  | none => exact hfail _ (by decide)
  | some completion =>
    refine Triple.bind (evt_read (G := fun _ => True) firm_at fun _ _ => trivial) fun x =>
      Triple.of_fact fun _ => ?_
    refine Triple.ite (fun _ => hfail _ (by decide)) fun _ => ?_
    cases x.request.checkOutput completion.finalText with
    | error exc =>
      have hinvalid : IsBoundedText ((py "output_invalid").take 128) maxErrorCodeBytes := by decide
      refine Triple.ite (fun _ => hfail _ hinvalid) fun _ => ?_
      refine Triple.raise firm_allCalm.stable fun s _ h => ?_
      exact (h.unfocus hcalm fun hmem => absurd hmem he).forget
    | ok _ =>
      refine Triple.bind (Q := fun _ => At e v q R L) (evt_atomic firm_at (fun _ => firm_at)
        (fun _ => firm_allCalm) fun s ans _ _ h => ⟨fun _ _ => h, fun _ _ => ?_⟩) fun now => ?_
      · exact (h.unfocus hcalm fun hmem => absurd hmem he).forget
      · exact at_releaseAndTerminalize he hcalm (.inr ⟨rfl, rfl, hsome⟩)

theorem evt_runDecodeBatch :
    Triple eventing Quiescent (runDecodeBatch cfg) (fun _ => Quiescent) fun _ => Quiescent := by
  refine Triple.bind evt_decodeTake fun picked => Triple.of_fact fun hnd => ?_
  obtain ⟨selected, steps⟩ := picked
  refine Triple.ite (fun _ => evt_pure firm_allCalm fun _ h => h.forget) fun _ => ?_
  refine evt_call (fun s ans => decodeCallBlock_state selected steps s ans)
    (fun s ans exc hans hexc => decodeCallBlock_plain hans hexc) (fun exc hplain => ?_)
    fun outcomes => ?_
  · exact evt_endAll (hplain.backendError (by decide) (by decide))
      (fun x _ h => by rw [h.1]; decide) _ hnd
  refine Triple.bind (evt_applyDecode _ outcomes hnd) fun done => Triple.of_fact fun hdone => ?_
  refine Triple.bind (Q := fun _ => AllCalm AfterDecode (done.map Prod.fst)) ?_ fun _ => ?_
  · refine Triple.conseq (Triple.forM (P := fun rest s =>
        AllCalm AfterDecode (done.map Prod.fst) s ∧ ∀ p ∈ rest, p.1 ∈ done.map Prod.fst)
      (firm_allCalm.fact _).stable (fun p rest => Triple.of_fact fun hrest => ?_) done)
      (fun _ _ h => ⟨h, fun p hp => List.mem_map.mpr ⟨p, hp, rfl⟩⟩) (fun _ _ _ h => h.1)
      fun _ _ _ h => h
    refine evt_focus (hrest p List.mem_cons_self) (fun _ h => h) (fun _ _ h => h.1)
      fun v q hv hl hcalm => ?_
    refine Triple.bind (at_keep fun s => ?_) fun _ => Triple.conseq
      (at_publishTokens rfl hv.2.1) (fun _ _ h => h) (fun _ s _ h => ⟨?_, fun p' hp' =>
        hrest p' (List.mem_cons_of_mem _ hp')⟩) fun _ _ _ h => h
    · split_ifs <;> exact ⟨rfl, rfl⟩
    · -- a decoded token takes the entry to the phase of decoding
      obtain ⟨hsent, hstarted, hq⟩ := hcalm.opened hl hv.2.1
      have hnext : q.next .DECODE_COMPLETED = .decoding := by
        rcases hq with rfl | ⟨rfl, _⟩ <;> rfl
      rw [hnext] at h
      refine h.unfocus ⟨fun ht => absurd ht hl, hcalm.unclaimed, fun _ hnone => ?_,
        fun _ _ => ⟨hsent, hstarted, .inr ⟨rfl, hv.2.2⟩⟩⟩ fun _ => hv
      have hsome := hv.2.1
      rw [hnone] at hsome
      exact absurd hsome (by simp)
  · have hsub : ((done.filter fun p => p.2.status ≠ .PROGRESSED).map Prod.fst).Sublist
        (done.map Prod.fst) := List.filter_sublist.map _
    refine Triple.conseq (Triple.forM (P := fun (rest : List (ℕ × DecodeOutcome)) s =>
        AllCalm AfterDecode (rest.map Prod.fst) s ∧ (rest.map Prod.fst).Nodup)
      (firm_allCalm.fact _).stable (fun p rest => Triple.of_fact fun hrest => ?_) _)
      (fun _ _ h => ⟨h.weaken (fun e he => hsub.subset he) fun _ _ h => h, hsub.nodup hdone⟩)
      (fun _ _ _ h => h.1.forget) fun _ _ _ h => h
    rw [List.map_cons] at hrest
    obtain ⟨he, hrest⟩ := List.nodup_cons.mp hrest
    refine evt_focus List.mem_cons_self (fun _ h => List.mem_cons_of_mem _ h) (fun _ _ h => h.1)
      fun v q hv hl hcalm => ?_
    refine Triple.ite (fun hfailed => ?_) fun _ => ?_
    · exact Triple.conseq (at_releaseAndTerminalize he hcalm
        (.inl ⟨rfl, _, rfl, decodeError_plain hfailed⟩)) (fun _ _ h => h)
        (fun _ _ _ h => ⟨h, hrest⟩) fun _ _ _ h => h
    · exact Triple.conseq (at_completeEntry he hcalm hv.2.1) (fun _ _ h => h)
        (fun _ _ _ h => ⟨h, hrest⟩) fun _ _ _ h => h

/-! ### The loop and its handler -/

theorem evt_keep {block : SchedulerState → Answer → Except PyException α × SchedulerState}
    (h : ∀ s ans, Sound distinctIds s →
      (block s ans).2.heap = s.heap ∧ (block s ans).2.published = s.published) :
    Triple eventing Quiescent (.atomic block : Worker α) (fun _ => Quiescent) fun _ => Quiescent :=
  evt_atomic firm_allCalm (fun _ => firm_allCalm) (fun _ => firm_allCalm) fun s ans hs _ hp =>
    ⟨fun _ _ => hp.of_heap (h s ans hs).1 (h s ans hs).2,
      fun _ _ => hp.of_heap (h s ans hs).1 (h s ans hs).2⟩

theorem evt_iteration :
    Triple eventing Quiescent (iteration cfg) (fun _ => Quiescent) fun _ => Quiescent := by
  have hpure : ∀ b : Bool, Triple eventing Quiescent (pure b : Worker Bool) (fun _ => Quiescent)
      fun _ => Quiescent := fun b => evt_pure firm_allCalm fun _ h => h
  refine Triple.bind evt_processTerminalBoundaries fun ended => Triple.ite (fun _ => hpure true)
    fun _ => Triple.bind evt_openOne fun opened => Triple.ite (fun _ => hpure true) fun _ => ?_
  refine Triple.bind (evt_keep fun s ans _ => ?_) fun action => ?_
  · exact ⟨(chooseBatchBlock_spec s ans).heap, (chooseBatchBlock_spec s ans).published⟩
  match action with
  | some .decode => exact Triple.bind evt_runDecodeBatch fun _ => hpure true
  | some .prefill => exact Triple.bind evt_runPrefillBatch fun _ => hpure true
  | none =>
    refine evt_keep fun s ans _ => ?_
    rcases @idleBlock_spec cfg s ans with ⟨_, heq⟩ | hprune
    · rw [heq]
      exact ⟨rfl, rfl⟩
    · exact ⟨hprune.heap, hprune.published⟩

/-- Live entries are registered once. -/
theorem liveEntries_nodup (h : Coherent s) : s.liveEntries.Nodup := by
  refine List.Nodup.filter _ ?_
  have hitems : s.entries.items.Nodup := List.Nodup.of_map Prod.fst s.entries.nodup
  refine List.Nodup.map_on (fun p hp p' hp' heq => ?_) hitems
  have hp₁ := (h.registered p.1 p.2 (Dict.mem_items_iff.mp hp)).2
  have hp₂ := (h.registered p'.1 p'.2 (Dict.mem_items_iff.mp hp')).2
  refine Prod.ext ?_ heq
  rw [← hp₁, ← hp₂, heq]

theorem evt_crashHandler (exc : PyException) :
    Triple eventing Quiescent (crashHandler exc) (fun _ => Quiescent) fun _ => Quiescent := by
  have hcode : IsBoundedText ((py "scheduler_crashed").take 128) maxErrorCodeBytes := by decide
  refine Triple.bind (Q := fun _ => Quiescent) (evt_modify firm_allCalm firm_allCalm fun s h =>
    h.of_heap rfl rfl) fun _ => Triple.bind (Q := fun _ => Quiescent) ?_ fun _ =>
      evt_modify firm_allCalm firm_allCalm fun s h => h.of_heap rfl rfl
  refine Triple.bind (Q := fun entries s => AllCalm (fun x _ => x.state ≠ TERMINAL) entries s ∧
      entries.Nodup) (evt_atomic firm_allCalm (fun _ => firm_allCalm.fact _) (fun _ => firm_allCalm)
    fun s ans hs _ h => ⟨fun entries hentries => ?_, fun exc hexc => nomatch hexc⟩) fun entries =>
      Triple.of_fact fun hnd => evt_endAll hcode (fun _ _ h => h) entries hnd
  obtain rfl := Except.ok.inj hentries
  have hlisted : AllCalm (fun x _ => x.state ≠ TERMINAL) s.liveEntries s := by
    refine ⟨h.calm, fun e he => ⟨?_, ?_⟩, h.inRange⟩
    · exact (mem_heap_of_values hs.coherent (List.mem_of_mem_filter he)).1
    · exact live_iff.mp (List.mem_filter.mp he).2
  exact ⟨hlisted.of_heap rfl rfl, liveEntries_nodup hs.coherent⟩

end threads

/-! ### Runs -/

/-- What the protocol of events is about: request ids are not used twice, the
clock is valid, the sinks do not raise, and the codes of the exceptions that the
backend raises can be published. -/
def Observable (c : Config SchedulerState Answer PyException) : Move Answer ClientOp → Prop
  | .client k => distinctIds.AllowsClient c.shared k
  | .worker ans => Regular ans

def eventOutline : System.Annotation SchedulerState PyException where
  head := Quiescent
  crash := fun _ => Quiescent
  entering := fun _ _ => True
  returned := Quiescent
  handled := Quiescent
  died := fun _ => Quiescent

/-- With distinct ids the deques need no assumption of their own. -/
theorem observable_sound {moves : List (Move Answer ClientOp)}
    (h : (scheduler cfg).Along Observable (initial cfg) moves) :
    Sound distinctIds ((scheduler cfg).run (initial cfg) moves).shared := by
  refine sound_run (h.mono fun c m hm => ?_)
  cases m with
  | client k => exact hm
  | worker ans => exact ⟨fun _ => .inl trivial, False.elim⟩

theorem concluded_run {moves : List (Move Answer ClientOp)}
    (h : (scheduler cfg).Along Observable (initial cfg) moves) :
    Concluded ((scheduler cfg).run (initial cfg) moves).shared := by
  refine (System.run_ok (S := scheduler cfg) (C := eventing) (A := eventOutline)
    (K := fun s k => Coherent s) ?_ (fun exc => ?_) (fun s k hs hk => ?_) ?_ ?_
    ((h.and_reached (J := fun c => Sound distinctIds c.shared) fun ms hms =>
      observable_sound hms).mono fun c m hm => ?_)).1
  · refine Thread.Triple.conseq evt_iteration (fun _ _ h => h) (fun again s _ h => ?_)
      fun _ _ _ h => h
    cases again <;> exact h
  · exact Thread.Triple.conseq (evt_crashHandler exc) (fun _ _ h => h.1) (fun _ _ _ h => h)
      fun _ _ _ h => h
  · have hc := (@client_spec cfg s k hk).2
    exact ⟨ClientChange.concluded hc hs, hc⟩
  · exact fun e he => absurd he (by simp)
  · exact ⟨fun e he => absurd he (by simp), fun e he => absurd he (by simp),
      fun p hp => absurd hp (by simp)⟩
  · cases m with
    | client k => exact hm.2.coherent
    | worker ans =>
      exact System.permits_worker (S := scheduler cfg) (fun _ _ => trivial) ⟨hm.2, hm.1⟩

/-- What the events of a terminal request say. -/
structure FollowsProtocol (s : SchedulerState) (e : ℕ) : Prop where
  word : kindsOf s e ∈ eventProtocol.matches'
  last : ∃ w k, kindsOf s e = w ++ [k] ∧ k.isTerminalKind = true ∧
    ∀ k' ∈ w, k'.isTerminalKind = false
  released : .REQUEST_COMPLETED ∈ kindsOf s e →
    ∃ w, kindsOf s e = w ++ [.SEQUENCE_RELEASED, .REQUEST_COMPLETED]
  completed : .REQUEST_COMPLETED ∈ kindsOf s e ↔ (s.entry e).result.isSome
  failed : .REQUEST_FAILED ∈ kindsOf s e ↔ (s.entry e).error.isSome
  returned : ∀ result, s.callers[e]? = some (.returned result) →
    .REQUEST_COMPLETED ∈ kindsOf s e
  raised : ∀ error, s.callers[e]? = some (.raised error) → .REQUEST_FAILED ∈ kindsOf s e

/-- A terminal event other than the last one would be a second one. -/
theorem last_of_terminal {w : List SchedulerEventKind} {k k' : SchedulerEventKind}
    (hw : ∀ k' ∈ w, k'.isTerminalKind = false) (hk' : k'.isTerminalKind = true) :
    k' ∈ w ++ [k] ↔ k' = k := by
  rw [List.mem_append, List.mem_singleton]
  constructor
  · rintro (hmem | rfl)
    · rw [hw k' hmem] at hk'
      exact absurd hk' (by simp)
    · rfl
  · exact .inr

theorem Concludes.follows (hcoh : Coherent s) (h : Concludes (s.entry e) (phaseOf s e)) :
    FollowsProtocol s e := by
  have hend : phases.eval (kindsOf s e) = .completed ∨ phases.eval (kindsOf s e) = .failed :=
    h.imp (fun h => h.2.2) fun h => h.2.2
  obtain ⟨w, k, hword, hk, hw⟩ := one_terminal_of_eval hend
  have hboth : (.REQUEST_COMPLETED ∈ kindsOf s e ↔ (s.entry e).result.isSome) ∧
      (.REQUEST_FAILED ∈ kindsOf s e ↔ (s.entry e).error.isSome) := by
    rw [Concludes, phaseOf, hword] at h
    rw [hword, last_of_terminal hw rfl, last_of_terminal hw rfl]
    rcases h with ⟨hr, herr, hq⟩ | ⟨hr, herr, hq⟩
    · simp [last_of_completed hq, hr, herr]
    · simp [last_of_failed hq, hr, herr]
  obtain ⟨hcompleted, hfailed⟩ := hboth
  refine ⟨accepts_le_eventProtocol hend, ⟨w, k, hword, hk, hw⟩, fun hmem => ?_, hcompleted, hfailed,
    fun result hc => ?_, fun error hc => ?_⟩
  · rcases h with ⟨_, _, hq⟩ | ⟨hr, _, _⟩
    · exact eval_completed hq
    · rw [hcompleted, hr] at hmem
      exact absurd hmem (by simp)
  · -- the caller was handed what the entry holds
    obtain ⟨_, hr, _⟩ := hcoh.agrees e _ hc
    rw [hcompleted, hr]
    rfl
  · obtain ⟨_, herr⟩ := hcoh.agrees e _ hc
    rw [hfailed, herr]
    rfl

/-- **The event protocol.**  In every run the events of a terminal request form a
word of the protocol that ends as its `infer` call does. -/
theorem events_follow_protocol {moves : List (Move Answer ClientOp)}
    (h : (scheduler cfg).Along Observable (initial cfg) moves) :
    ∀ e < ((scheduler cfg).run (initial cfg) moves).shared.heap.length,
      (((scheduler cfg).run (initial cfg) moves).shared.entry e).state = TERMINAL →
      FollowsProtocol ((scheduler cfg).run (initial cfg) moves).shared e :=
  fun e he ht => (concluded_run h e he ht).follows (observable_sound h).coherent

/-! ### A request that is completed, and one whose last event is lost -/

def sampleCompletion : SequenceCompletion :=
  ⟨py "done", 4, 0, 1, 1, 1, 1, 0, false, 1, 1, [], [], py "none", py "none", none, none, none,
    false⟩

/-- A backend that needs one prefill and one decode. -/
def quickBackend : Answer where
  openSequence := .ok (sampleHandle 1)
  prefillBatch := .ok [⟨sampleHandle 1, .READY, 4, 0⟩]
  decodeBatch := .ok [⟨sampleHandle 1, .FINISHED, [7], py "done", some .STOP,
    some sampleCompletion, none, by decide⟩]

def quickRun : List (Move Answer ClientOp) :=
  sampleInfer "quick" (by decide) (by decide) (by decide) ::
    List.replicate 60 (.worker quickBackend)

theorem quickRun_observable :
    (scheduler sampleConfig).Along Observable (initial sampleConfig) quickRun := by
  have hregular : Regular quickBackend :=
    ⟨fun _ => ⟨0, le_rfl, rfl⟩, rfl, (fun _ h => nomatch h), (fun _ h => nomatch h),
      (fun _ h => nomatch h), (fun _ h => nomatch h), (fun _ h => nomatch h)⟩
  have hwork : ∀ (k : ℕ) c, (scheduler sampleConfig).Along Observable c
      (List.replicate k (.worker quickBackend)) := by
    intro k
    induction k with
    | zero => exact fun _ => trivial
    | succ k ih => exact fun c => ⟨hregular, ih _⟩
  exact ⟨fun _ e he => absurd he (by simp [initial, System.start]), hwork 60 _⟩

theorem quickRun_follows :
    kindsOf ((scheduler sampleConfig).run (initial sampleConfig) quickRun).shared 0 =
      [.ADMITTED, .SEQUENCE_OPENED, .PREFILL_COMPLETED, .DECODE_COMPLETED, .SEQUENCE_RELEASED,
        .REQUEST_COMPLETED] ∧
    FollowsProtocol ((scheduler sampleConfig).run (initial sampleConfig) quickRun).shared 0 :=
  ⟨by decide +kernel,
    events_follow_protocol quickRun_observable 0 (by decide +kernel) (by decide +kernel)⟩

/-- The backend refuses to open a sequence, with a line break in its error code. -/
def unprintableCode : PyException :=
  ⟨py "BackendError", py "sequence refused", true, some ⟨true, py "open\nrefused"⟩, none⟩

def refusedRun : List (Move Answer ClientOp) :=
  sampleInfer "refused" (by decide) (by decide) (by decide) ::
    List.replicate 40 (.worker { openSequence := .error unprintableCode })

/-- The request has failed and its caller has been told, but `REQUEST_FAILED` was
never published. -/
theorem lost_terminal_event :
    let s := ((scheduler sampleConfig).run (initial sampleConfig) refusedRun).shared
    (s.entry 0).state = TERMINAL ∧ (s.entry 0).error.isSome = true ∧ s.eventFailures = 1 ∧
      kindsOf s 0 = [.ADMITTED] ∧ kindsOf s 0 ∉ eventProtocol.matches' := by
  have hkinds : kindsOf ((scheduler sampleConfig).run (initial sampleConfig) refusedRun).shared 0
      = [.ADMITTED] := by decide +kernel
  refine ⟨by decide +kernel, by decide +kernel, by decide +kernel, hkinds, ?_⟩
  rw [hkinds]
  decide

end ContinuousBatchScheduler

end Inference
