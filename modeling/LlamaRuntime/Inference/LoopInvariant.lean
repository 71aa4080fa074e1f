/-
The invariant of the scheduler's runs.

`Sound` holds in every reachable state (`sound_run`).  What it says beyond
`Coherent` depends on what a run is assumed to do, its `Regime`:

* `orderly` — an entry that joins a deque is not in it already: then the deques
  hold each id once, and no batch selects an entry twice;
* `handles` — the backend opens a sequence under a handle that no live request
  holds: then live entries have different handles;
* `distinct` — no two requests share an id: then runs are orderly by themselves,
  since an id in a deque belongs to an entry that has already been there.
-/
import LlamaRuntime.Inference.SchedulerBlocks

namespace Inference

open RuntimeRequestState SchedulerState

namespace ContinuousBatchScheduler

variable {cfg : SchedulerConfig} {s s' : SchedulerState}

/-- What a run is assumed to do. -/
structure Regime where
  orderly : Prop
  handles : Prop
  distinct : Prop
  orderly_of_distinct : distinct → orderly

/-- Entries that are not terminal hold different handles. -/
def DistinctHandles (s : SchedulerState) : Prop :=
  ∀ e e' handle, e < s.heap.length → e' < s.heap.length → (s.entry e).state ≠ TERMINAL →
    (s.entry e').state ≠ TERMINAL → (s.entry e).handle = some handle →
    (s.entry e').handle = some handle → e = e'

/-- Request ids are not reused, and an id in a deque belongs to an entry that has
reached the phase of this deque. -/
structure Passed (s : SchedulerState) : Prop where
  ids : ∀ e e', e < s.heap.length → e' < s.heap.length → s.requestId e = s.requestId e' → e = e'
  prefill : ∀ id ∈ s.prefill, ∃ e < s.heap.length, s.requestId e = id ∧ (s.entry e).state.Started
  decode : ∀ id ∈ s.decode, ∃ e < s.heap.length, s.requestId e = id ∧ (s.entry e).state.PastPrefill

/-- **The loop invariant.** -/
structure Sound (r : Regime) (s : SchedulerState) : Prop where
  coherent : Coherent s
  prefill_nodup : r.orderly → s.prefill.Nodup
  decode_nodup : r.orderly → s.decode.Nodup
  handles : r.handles → DistinctHandles s
  batches : r.orderly → r.handles → ∀ c ∈ s.backendCalls, c.Isolated
  passed : r.distinct → Passed s

/-- The two steps by which an entry joins a deque: it must not be there yet. -/
def Requeues (s s' : SchedulerState) : Prop :=
  (∀ e, (s.entry e).state = OPENING → (s'.entry e).state = PREFILL →
    s.requestId e ∉ s.prefill) ∧
  ∀ e, (s.entry e).state = PREFILL_INFLIGHT → (s'.entry e).state = DECODE →
    s.requestId e ∉ s.decode

/-- The answer to a call of `open_sequence` is a handle no live request holds. -/
def FreshHandle (s : SchedulerState) (ans : Answer) (s' : SchedulerState) : Prop :=
  ∀ e handle, s'.backendCalls = s.backendCalls ++ [.openSequence e] →
    ans.openSequence = .ok handle →
    ∀ e' < s.heap.length, (s.entry e').state ≠ TERMINAL → (s.entry e').handle ≠ some handle

/-- The actions of the worker a regime allows. -/
structure Regime.Allows (r : Regime) (s : SchedulerState) (ans : Answer) (s' : SchedulerState) :
    Prop where
  requeues : r.orderly → r.distinct ∨ Requeues s s'
  freshHandle : r.handles → FreshHandle s ans s'

/-- The operations of clients a regime allows. -/
def Regime.AllowsClient (r : Regime) (s : SchedulerState) : ClientOp → Prop
  | .infer _ metadata _ _ =>
    r.distinct → ∀ e < s.heap.length, s.requestId e ≠ metadata.requestId
  | _ => True

def protocol (r : Regime) : Thread.Protocol SchedulerState Answer where
  inv := Sound r
  rely := ClientChange
  allow := r.Allows
  rely_refl := .refl
  rely_trans := .trans

variable {r : Regime}

/-! ### Steps that keep the invariant -/

theorem Passed.advance (h : Passed s) (ha : Advance s s')
    (hf : ∀ e, (s.entry e).Proceeds (s'.entry e))
    (hprefill : ∀ id ∈ s'.prefill, id ∈ s.prefill ∨
      ∃ e < s.heap.length, s.requestId e = id ∧ (s'.entry e).state.Started)
    (hdecode : ∀ id ∈ s'.decode, id ∈ s.decode ∨
      ∃ e < s.heap.length, s.requestId e = id ∧ (s'.entry e).state.PastPrefill) : Passed s' where
  ids := by
    intro e e' he he' heq
    rw [ha.length] at he he'
    rw [ha.requestId, ha.requestId] at heq
    exact h.ids e e' he he' heq
  prefill := by
    intro id hid
    rw [ha.length]
    rcases hprefill id hid with hid | ⟨e, he, hreq, hst⟩
    · obtain ⟨e, he, hreq, hst⟩ := h.prefill id hid
      exact ⟨e, he, (ha.requestId e).trans hreq, (hf e).started hst⟩
    · exact ⟨e, he, (ha.requestId e).trans hreq, hst⟩
  decode := by
    intro id hid
    rw [ha.length]
    rcases hdecode id hid with hid | ⟨e, he, hreq, hst⟩
    · obtain ⟨e, he, hreq, hst⟩ := h.decode id hid
      exact ⟨e, he, (ha.requestId e).trans hreq, (hf e).pastPrefill hst⟩
    · exact ⟨e, he, (ha.requestId e).trans hreq, hst⟩

theorem DistinctHandles.advance (h : DistinctHandles s) (ha : Advance s s')
    (hh : ∀ e, (s'.entry e).handle = (s.entry e).handle) : DistinctHandles s' := by
  intro e e' handle he he' hl hl' hhe hhe'
  rw [ha.length] at he he'
  exact h e e' handle he he' (ha.live_of_live hl) (ha.live_of_live hl') (hh e ▸ hhe) (hh e' ▸ hhe')

/-- A plain action. -/
theorem Sound.plain (h : Sound r s) (hp : Plain s s') : Sound r s' where
  coherent := h.coherent.advance hp.toAdvance
  prefill_nodup := fun ho => hp.prefill.nodup (h.prefill_nodup ho)
  decode_nodup := fun ho => hp.decode.nodup (h.decode_nodup ho)
  handles := fun hr => (h.handles hr).advance hp.toAdvance hp.handle
  batches := by
    intro ho hr c hc
    rcases hp.calls c hc with hc | hc
    · exact h.batches ho hr c hc
    · exact hc
  passed := fun hd => (h.passed hd).advance hp.toAdvance hp.proceeds
    (fun _ hid => .inl (hp.prefill.subset hid)) fun _ hid => .inl (hp.decode.subset hid)

/-- A batch is handed out. -/
theorem Sound.call (h : Sound r s) {c : BackendCall} (hc : r.orderly → r.handles → c.Isolated) :
    Sound r { s with backendCalls := s.backendCalls ++ [c] } where
  coherent := h.coherent.advance (.of_heap rfl rfl (.inl rfl))
  prefill_nodup := h.prefill_nodup
  decode_nodup := h.decode_nodup
  handles := fun hr => (h.handles hr).advance (.of_heap rfl rfl (.inl rfl)) fun _ => rfl
  batches := by
    intro ho hr c' hc'
    rcases List.mem_append.mp hc' with hc' | hc'
    · exact h.batches ho hr c' hc'
    · rw [List.mem_singleton.mp hc']
      exact hc ho hr
  passed := fun hd => (h.passed hd).advance (.of_heap rfl rfl (.inl rfl)) (fun _ => .refl _)
    (fun _ hid => .inl hid) fun _ hid => .inl hid

/-- An entry takes the handle of the sequence opened for it. -/
theorem Sound.store (h : Sound r s) {e : ℕ} {handle : SequenceHandle}
    (hfresh : r.handles → ∀ e' < s.heap.length, (s.entry e').state ≠ TERMINAL →
      (s.entry e').handle ≠ some handle) :
    Sound r (s.modifyEntry e fun x => { x with handle := some handle }) := by
  have ha : Advance s (s.modifyEntry e fun x => { x with handle := some handle }) :=
    .modify rfl rfl (.inl rfl) (.of_state rfl rfl rfl rfl)
  refine ⟨h.coherent.advance ha, h.prefill_nodup, h.decode_nodup, fun hr => ?_, h.batches,
    fun hd => (h.passed hd).advance ha (fun e' => ?_) (fun _ hid => .inl hid)
      fun _ hid => .inl hid⟩
  rotate_left
  · rw [entry_modifyEntry]
    split_ifs with hc
    · exact hc.1 ▸ .of_state rfl rfl rfl rfl
    · exact .refl _
  intro e₁ e₂ handle' he₁ he₂ hl₁ hl₂ hh₁ hh₂
  have hl₁' := ha.live_of_live hl₁
  have hl₂' := ha.live_of_live hl₂
  rw [ha.length] at he₁ he₂
  rw [entry_modifyEntry] at hh₁ hh₂
  split_ifs at hh₁ hh₂ with h1 h2 h2
  · exact h1.1.symm.trans h2.1
  · obtain rfl := Option.some_inj.mp hh₁
    exact absurd hh₂ (hfresh hr e₂ he₂ hl₂')
  · obtain rfl := Option.some_inj.mp hh₂
    exact absurd hh₁ (hfresh hr e₁ he₁ hl₁')
  · exact h.handles hr e₁ e₂ handle' he₁ he₂ hl₁' hl₂' hh₁ hh₂

theorem nodup_concat {ids : List PyStr} {id : PyStr} (h : ids.Nodup) (hid : id ∉ ids) :
    (ids ++ [id]).Nodup := by
  refine List.nodup_append.mpr ⟨h, List.nodup_singleton id, ?_⟩
  intro a ha b hb
  rw [List.mem_singleton.mp hb]
  rintro rfl
  exact hid ha

/-- An entry joins the deque of prefills. -/
theorem Sound.joinPrefill (h : Sound r s) {e : ℕ} (he : e < s.heap.length)
    (hid : r.orderly → s.requestId e ∉ s.prefill) (hst : (s.entry e).state.Started) :
    Sound r { s with prefill := s.prefill ++ [s.requestId e] } where
  coherent := h.coherent.advance (.of_heap rfl rfl (.inl rfl))
  prefill_nodup := fun ho => nodup_concat (h.prefill_nodup ho) (hid ho)
  decode_nodup := h.decode_nodup
  handles := h.handles
  batches := h.batches
  passed := by
    refine fun hd => (h.passed hd).advance (.of_heap rfl rfl (.inl rfl)) (fun _ => .refl _) (fun id hmem => ?_)
      fun _ hmem => .inl hmem
    rcases List.mem_append.mp hmem with hmem | hmem
    · exact .inl hmem
    · exact .inr ⟨e, he, (List.mem_singleton.mp hmem).symm, hst⟩

/-- An entry joins the deque of decodes. -/
theorem Sound.joinDecode (h : Sound r s) {e : ℕ} (he : e < s.heap.length)
    (hid : r.orderly → s.requestId e ∉ s.decode) (hst : (s.entry e).state.PastPrefill) :
    Sound r { s with decode := s.decode ++ [s.requestId e] } where
  coherent := h.coherent.advance (.of_heap rfl rfl (.inl rfl))
  prefill_nodup := h.prefill_nodup
  decode_nodup := fun ho => nodup_concat (h.decode_nodup ho) (hid ho)
  handles := h.handles
  batches := h.batches
  passed := by
    refine fun hd => (h.passed hd).advance (.of_heap rfl rfl (.inl rfl)) (fun _ => .refl _) (fun _ hmem => .inl hmem)
      fun id hmem => ?_
    rcases List.mem_append.mp hmem with hmem | hmem
    · exact .inl hmem
    · exact .inr ⟨e, he, (List.mem_singleton.mp hmem).symm, hst⟩

/-- An entry takes a new value, under the same handle. -/
theorem Sound.replace (h : Sound r s) (e : ℕ) {y : RequestEntry}
    (hy : (s.entry e).Advances y) (hproceeds : r.distinct → (s.entry e).Proceeds y)
    (hh : y.handle = (s.entry e).handle) : Sound r (s.modifyEntry e fun _ => y) := by
  have ha : Advance s (s.modifyEntry e fun _ => y) := .modify rfl rfl (.inl rfl) hy
  refine ⟨h.coherent.advance ha, h.prefill_nodup, h.decode_nodup,
    fun hr => (h.handles hr).advance ha fun e' => ?_, h.batches,
    fun hd => (h.passed hd).advance ha (fun e' => ?_) (fun _ hid => .inl hid)
      fun _ hid => .inl hid⟩
  · rw [entry_modifyEntry]
    split_ifs with hc
    · exact hc.1 ▸ hh
    · rfl
  · rw [entry_modifyEntry]
    split_ifs with hc
    · exact hc.1 ▸ hproceeds hd
    · exact .refl _

/-- A batch outcome is applied to an entry. -/
theorem Sound.outcome (h : Sound r s) {e : ℕ} {y : RequestEntry} (ho : Outcome s s' e y)
    (he : e < s.heap.length) (hy : (s.entry e).Advances y)
    (hproceeds : r.distinct → (s.entry e).Proceeds y) (hh : y.handle = (s.entry e).handle)
    (hprefill : y.state = PREFILL → r.orderly → s.requestId e ∉ s.prefill)
    (hdecode : y.state = DECODE → r.orderly → s.requestId e ∉ s.decode) : Sound r s' := by
  -- first the entry, then the deque
  have hmid := h.replace e hy hproceeds hh
  have hentry : (s.modifyEntry e fun _ => y).entry e = y := entry_modifyEntry_self he _
  have hlen : (s.modifyEntry e fun _ => y).heap.length = s.heap.length := List.length_modify ..
  have hreq : (s.modifyEntry e fun _ => y).requestId e = s.requestId e := by
    rw [requestId, hentry, hy.scheduling]
    rfl
  have hheap : s'.heap = (s.modifyEntry e fun _ => y).heap := ho.heap
  rw [ho.frame, hheap]
  rcases ho.deques with ⟨h1, h2, _⟩ | ⟨hst, h1, h2⟩ | ⟨hst, h1, h2⟩
  · rw [h1, h2]
    exact hmid
  · rw [h1, h2, ← hreq]
    refine hmid.joinDecode (hlen ▸ he) (fun hord => hreq ▸ hdecode hst hord) ?_
    rw [hentry, hst]
    trivial
  · rw [h1, h2, ← hreq]
    refine hmid.joinPrefill (hlen ▸ he) (fun hord => hreq ▸ hprefill hst hord) ?_
    rw [hentry, hst]
    trivial

/-! ### Clients -/

theorem Sound.client {k : ClientOp} (h : Sound r s) (hk : r.AllowsClient s k) :
    Sound r (clientStep cfg k s) := by
  obtain ⟨hcoh, hc⟩ := @client_spec cfg s k h.coherent
  refine ⟨hcoh, fun ho => hc.prefill ▸ h.prefill_nodup ho, fun ho => hc.decode ▸ h.decode_nodup ho,
    fun hr => ?_, fun ho hr => hc.backendCalls ▸ h.batches ho hr, fun hd => ?_⟩
  · -- a new entry has no handle yet
    have hold : ∀ e handle, e < (clientStep cfg k s).heap.length →
        ((clientStep cfg k s).entry e).handle = some handle → e < s.heap.length := by
      intro e handle he hh
      by_contra hge
      have hf := (hc.fresh e (not_lt.mp hge) he).handle
      rw [hf] at hh
      exact absurd hh (by simp)
    intro e e' handle he he' hl hl' hh hh'
    have h1 := hold e handle he hh
    have h2 := hold e' handle he' hh'
    rw [hc.state e] at hl
    rw [hc.state e'] at hl'
    rw [hc.handle h1] at hh
    rw [hc.handle h2] at hh'
    exact h.handles hr e e' handle h1 h2 hl hl' hh hh'
  · have hp := h.passed hd
    refine ⟨?_, ?_, ?_⟩
    · have hold : ∀ e < s.heap.length, (clientStep cfg k s).requestId e = s.requestId e :=
        fun e he => hc.requestId he
      rcases @client_length cfg s k h.coherent with hlen | ⟨_, metadata, _, _, rfl, hlen, hnew⟩
      · intro e e' he he' hid
        rw [hlen] at he he'
        rw [hold e he, hold e' he'] at hid
        exact hp.ids e e' he he' hid
      · -- only `infer` adds an entry, and its id is new
        have hk' := hk hd
        intro e e' he he' hid
        rw [hlen] at he he'
        rcases Nat.lt_succ_iff_lt_or_eq.mp he with h1 | rfl <;>
          rcases Nat.lt_succ_iff_lt_or_eq.mp he' with h2 | rfl
        · rw [hold e h1, hold e' h2] at hid
          exact hp.ids e e' h1 h2 hid
        · rw [hold e h1, hnew] at hid
          exact absurd hid (hk' e h1)
        · rw [hold e' h2, hnew] at hid
          exact absurd hid.symm (hk' e' h2)
        · rfl
    · intro id hid
      rw [hc.prefill] at hid
      obtain ⟨e, he, hreq, hst⟩ := hp.prefill id hid
      exact ⟨e, he.trans_le hc.length_le, (hc.requestId he).trans hreq, hc.state e ▸ hst⟩
    · intro id hid
      rw [hc.decode] at hid
      obtain ⟨e, he, hreq, hst⟩ := hp.decode id hid
      exact ⟨e, he.trans_le hc.length_le, (hc.requestId he).trans hreq, hc.state e ▸ hst⟩

/-! ### Threads

Between two actions the clients leave the states of the entries alone, so what
the worker knows of them stays true. -/

section threads

open Thread hiding pure bind tryCatch

/-- What is known where an `except Exception` clause ends. -/
def Caught {α : Type} (Q : α → SchedulerState → Prop) (E : PyException → SchedulerState → Prop)
    (res : Except PyException α) (s : SchedulerState) : Prop :=
  match res with
  | .ok a => Q a s
  | .error exc => E exc s ∧ exc.isException = true

/-- The clause that turns exceptions into values; only those that are no
`Exception` escape from it. -/
theorem triple_catching {C : Protocol SchedulerState Answer} {P : SchedulerState → Prop} {α : Type}
    {t : Worker α} {Q : α → SchedulerState → Prop} {E E' : PyException → SchedulerState → Prop}
    (hQ : ∀ a, C.Stable (Q a)) (hE : ∀ exc, C.Stable (E exc))
    (hesc : ∀ exc s, exc.isException = false → E exc s → E' exc s) (h : Triple C P t Q E) :
    Triple C P (catching t) (Caught Q E) E' := by
  refine Triple.tryCatch (F := E) (Triple.bind (Q := Q) (R := Caught Q E) h fun a => ?_)
    fun exc => ?_
  · exact Triple.pure (hQ a) fun s _ hq => hq
  · refine Triple.ite (fun hexc => Triple.pure (fun s s' hi hc hi' hq => ?_) fun s _ hq => ?_)
      fun hexc s hi hq s' hc hi' => hesc exc s' (by simpa using hexc) (hE exc s s' hi hc hi' hq)
    · exact ⟨hE exc s s' hi hc hi' hq.1, hq.2⟩
    · exact ⟨hq, hexc⟩

variable {e : ℕ}

/-- What the worker knows of the state of an entry. -/
def InState (S : RuntimeRequestState → Prop) (e : ℕ) (s : SchedulerState) : Prop :=
  S (s.entry e).state

theorem InState.of_heap {S : RuntimeRequestState → Prop} (h : InState S e s)
    (hheap : s'.heap = s.heap) : InState S e s' := by
  rw [InState, entry_congr hheap]
  exact h

/-- An update of another field. -/
theorem InState.modify {S : RuntimeRequestState → Prop} (h : InState S e s) (e' : ℕ)
    {f : RequestEntry → RequestEntry} (hf : ∀ x, (f x).state = x.state) :
    InState S e (s.modifyEntry e' f) := by
  rw [InState, entry_modifyEntry]
  split_ifs with hc
  · rw [hf, hc.1]
    exact h
  · exact h

theorem stable_inState (S : RuntimeRequestState → Prop) (e : ℕ) :
    (protocol r).Stable (InState S e) := by
  intro s s' _ hc _ h
  rw [InState, ClientChange.state hc e]
  exact h

theorem stable_true : (protocol r).Stable fun _ => True := fun _ _ _ _ _ _ => trivial

/-- `P` holds before the thread, and after it however it ends. -/
abbrev Keeps (r : Regime) (P : SchedulerState → Prop) {α : Type} (t : Worker α) : Prop :=
  Triple (protocol r) P t (fun _ => P) fun _ => P

abbrev Live : RuntimeRequestState → Prop := fun state => state ≠ TERMINAL

theorem keeps_plain {P : SchedulerState → Prop} {α : Type}
    {block : SchedulerState → Answer → Except PyException α × SchedulerState}
    (hP : (protocol r).Stable P)
    (h : ∀ s ans, Sound r s → P s → Plain s (block s ans).2 ∧ P (block s ans).2) :
    Keeps r P (.atomic block) := by
  refine Triple.atomic hP (fun _ => hP) (fun _ => hP) fun s ans hs hp _ => ?_
  obtain ⟨hplain, hp'⟩ := h s ans hs hp
  exact ⟨hs.plain hplain, fun _ _ => hp', fun _ _ => hp'⟩

theorem keeps_modify {P : SchedulerState → Prop} {f : SchedulerState → SchedulerState}
    (hP : (protocol r).Stable P) (h : ∀ s, Sound r s → P s → Plain s (f s) ∧ P (f s)) :
    Keeps r P (.modify f : Worker Unit) := by
  refine Triple.modify hP hP fun s _ hs hp _ => ?_
  obtain ⟨hplain, hp'⟩ := h s hs hp
  exact ⟨hs.plain hplain, hp'⟩

theorem keeps_read {P : SchedulerState → Prop} {α : Type} {f : SchedulerState → α}
    (hP : (protocol r).Stable P) : Keeps r P (.read f) :=
  Triple.read hP (fun _ => hP) fun _ _ hp => hp

theorem keeps_pure {P : SchedulerState → Prop} {α : Type} {a : α}
    (hP : (protocol r).Stable P) : Keeps r P (pure a : Worker α) :=
  Triple.pure hP fun _ _ hp => hp

theorem Keeps.weaken {P P' R : SchedulerState → Prop} {α : Type} {t : Worker α}
    (h : Keeps r P t) (hP : ∀ s, P' s → P s) (hR : ∀ s, P s → R s) :
    Triple (protocol r) P' t (fun _ => R) fun _ => R :=
  Triple.conseq h (fun s _ hs => hP s hs) (fun _ s _ hs => hR s hs) fun _ s _ hs => hR s hs

/-- Nothing is asked of the state in which an exception escapes. -/
theorem Keeps.loose {P : SchedulerState → Prop} {α : Type} {t : Worker α} (h : Keeps r P t) :
    Triple (protocol r) P t (fun _ => P) fun _ _ => True :=
  Triple.conseq h (fun _ _ hs => hs) (fun _ _ _ hs => hs) fun _ _ _ _ => trivial

theorem keeps_publish (S : RuntimeRequestState → Prop) (e : ℕ) (kind : SchedulerEventKind)
    (handle : Option SequenceHandle) (tokens : Option ℕ) (errorCode : Option PyStr) :
    Keeps r (InState S e) (publish e kind handle tokens errorCode) := by
  refine Triple.tryCatch (F := fun _ => InState S e)
    (keeps_plain (stable_inState S e) fun s ans _ hp => ?_) fun exc => ?_
  · obtain ⟨hplain, hheap⟩ := plain_publishBlock e kind handle tokens errorCode s ans
    exact ⟨hplain, hp.of_heap hheap⟩
  · refine Triple.ite (fun _ => keeps_modify (stable_inState S e) fun s _ hp => ?_)
      fun _ => Triple.raise (stable_inState S e) fun _ _ hp => hp
    exact ⟨.of_heap rfl rfl (.inl rfl) rfl rfl rfl, hp.of_heap rfl⟩

/-- Setting a flag of an entry. -/
theorem keeps_flag (S : RuntimeRequestState → Prop) (e : ℕ) {f : RequestEntry → RequestEntry}
    (hf : ∀ x, x.Proceeds (f x) ∧ (f x).handle = x.handle ∧ (f x).state = x.state) :
    Keeps r (InState S e) (.modify fun s => s.modifyEntry e f : Worker Unit) :=
  keeps_modify (stable_inState S e) fun s _ hp =>
    ⟨.modify s e (hf _).1 fun x => (hf x).2.1, hp.modify e fun x => (hf x).2.2⟩

theorem keeps_ensureAdmitted (S : RuntimeRequestState → Prop) (e : ℕ) :
    Keeps r (InState S e) (ensureAdmitted e) := by
  refine Triple.bind (keeps_read (stable_inState S e)) fun sent => Triple.ite
    (fun _ => keeps_pure (stable_inState S e)) fun _ => ?_
  refine Triple.bind (keeps_publish S e _ _ _ _) fun _ => keeps_flag S e fun x => ?_
  exact ⟨.of_state rfl rfl rfl rfl, rfl, rfl⟩

theorem keeps_terminalize (e : ℕ) (result : Option GenerateResult)
    (error : Option InferenceRuntimeError) :
    Keeps r (fun _ => True) (terminalize e result error) := by
  have hensure : Keeps r (fun _ => True) (ensureAdmitted e) :=
    keeps_ensureAdmitted (fun _ => True) e
  refine Triple.bind hensure fun _ => Triple.bind (keeps_modify stable_true fun s _ _ => ?_)
    fun _ => ?_
  · split_ifs
    · exact ⟨.modify s e (.of_state rfl rfl rfl rfl) fun _ => rfl, trivial⟩
    · exact ⟨.refl s, trivial⟩
  -- whoever claims the entry finds it live until it is committed
  refine Triple.bind (Q := fun claimed s => claimed.isSome → InState Live e s) ?_ fun claimed => ?_
  · refine Triple.atomic stable_true (fun claimed s s' _ hc _ h hsome => ?_)
      (fun _ => stable_true) fun s ans hs _ _ => ?_
    · exact stable_inState Live e s s' ‹_› hc ‹_› (h hsome)
    · rcases claimTerminal_spec e result error s ans with ⟨heq, _⟩ | ⟨heq, hl, _⟩
      · rw [heq]
        refine ⟨hs, fun a ha => ?_, fun _ _ => trivial⟩
        obtain rfl := Except.ok.inj ha
        exact fun hsome => absurd hsome (by simp)
      · rw [heq]
        refine ⟨hs.plain (.modify s e (.of_state rfl rfl rfl rfl) fun _ => rfl), fun _ _ _ => ?_,
          fun _ _ => trivial⟩
        exact InState.modify (S := Live) hl e fun _ => rfl
  · cases claimed with
    | none => exact (keeps_pure stable_true).weaken (fun _ _ => trivial) fun _ h => h
    | some outcome =>
      have hlive : Triple (protocol r) (InState Live e) (do
          .modify fun s =>
            if (s.entry e).resourceReleaseConfirmed then
              { s with admission := s.admission.release (s.requestId e) }
            else s
          publishOutcome e outcome
          .atomic (commitTerminal e outcome)
          pure true) (fun _ _ => True) fun _ _ => True := by
        refine Triple.bind (Q := fun _ => InState Live e) (Keeps.loose
          (keeps_modify (stable_inState Live e) fun s _ hp => ?_)) fun _ => ?_
        · split_ifs
          · exact ⟨.of_heap rfl rfl (.inl rfl) rfl rfl rfl, hp.of_heap rfl⟩
          · exact ⟨.refl s, hp⟩
        have hpublish : Keeps r (InState Live e) (publishOutcome e outcome) := by
          cases outcome with
          | ok _ => exact keeps_publish Live e _ _ _ _
          | error _ => exact keeps_publish Live e _ _ _ _
        refine Triple.bind hpublish.loose fun _ => Triple.bind (Q := fun _ _ => True) ?_
          fun _ => keeps_pure stable_true
        refine Triple.atomic (stable_inState Live e) (fun _ => stable_true)
          (fun _ => stable_true) fun s ans hs hp _ => ?_
        exact ⟨hs.plain (plain_commitTerminal hp outcome ans), fun _ _ => trivial,
          fun _ _ => trivial⟩
      exact hlive.conseq (fun _ _ h => h rfl) (fun _ _ _ h => h) fun _ _ _ h => h

theorem keeps_releaseAndTerminalize (e : ℕ) (result : Option GenerateResult)
    (error : Option InferenceRuntimeError) :
    Keeps r (fun _ => True) (releaseAndTerminalize e result error) := by
  refine Triple.bind (keeps_read stable_true) fun handle => ?_
  cases handle with
  | none =>
    refine Triple.bind (keeps_modify stable_true fun s _ _ =>
      ⟨.modify s e (.of_state rfl rfl rfl rfl) fun _ => rfl, trivial⟩) fun _ => ?_
    exact Triple.bind (keeps_terminalize e result error) fun _ => keeps_pure stable_true
  | some handle =>
    refine Triple.bind (Q := fun _ _ => True) ?_ fun released => ?_
    · refine (triple_catching (Q := fun _ _ => True) (E := fun _ _ => True) (fun _ => stable_true)
        (fun _ => stable_true) (fun _ _ _ h => h) ?_).conseq (fun _ _ h => h) (fun _ _ _ _ => trivial) fun _ _ _ h => h
      have hpublish : Keeps r (fun _ => True)
          (publish e .SEQUENCE_RELEASED (some handle) none none) :=
        keeps_publish (fun _ => True) e _ _ _ _
      refine Triple.bind (keeps_plain stable_true fun s ans _ _ => ?_) fun _ => Triple.bind
        (keeps_modify stable_true fun s _ _ => ?_) fun _ => hpublish
      · exact ⟨(plain_releaseBlock handle s ans).1, trivial⟩
      · exact ⟨.modify s e (.of_state rfl rfl rfl rfl) fun _ => rfl, trivial⟩
    · cases released with
      | ok _ => exact Triple.bind (keeps_terminalize e result error) fun _ => keeps_pure stable_true
      | error exc => exact Triple.bind (keeps_terminalize e none _) fun _ => keeps_pure stable_true

theorem keeps_readClock : Keeps r (fun _ => True) readClock :=
  keeps_plain stable_true fun s _ _ _ => ⟨.refl s, trivial⟩

theorem keeps_processTerminalBoundaries : Keeps r (fun _ => True) processTerminalBoundaries := by
  refine Triple.bind keeps_readClock fun now => Triple.bind (keeps_plain stable_true
    fun s ans hs _ => ⟨?_, trivial⟩) fun target => ?_
  · rcases boundaryBlock_spec hs.coherent now ans with heq | ⟨e, err, _, hl, _, heq⟩
    · rw [heq]
      exact .refl s
    · rw [heq]
      exact plain_releasing hl
  · cases target with
    | none => exact keeps_pure stable_true
    | some p => exact Triple.bind (keeps_releaseAndTerminalize p.1 none _) fun _ =>
        keeps_pure stable_true

/-! ### Opening -/

abbrev Opening : RuntimeRequestState → Prop := fun state => state = OPENING

/-- A sequence has been opened for the entry; its handle is not stored yet. -/
structure Opened (r : Regime) (e : ℕ) (handle : SequenceHandle) (s : SchedulerState) : Prop where
  opening : InState Opening e s
  fresh : r.handles → ∀ e' < s.heap.length, (s.entry e').state ≠ TERMINAL →
    (s.entry e').handle ≠ some handle

theorem stable_opened (e : ℕ) (handle : SequenceHandle) :
    (protocol r).Stable (Opened r e handle) := by
  intro s s' hi hc hi' h
  refine ⟨stable_inState Opening e s s' hi hc hi' h.opening, fun hr e' he' hl hh => ?_⟩
  have hc' : ClientChange s s' := hc
  by_cases hlt : e' < s.heap.length
  · rw [hc'.state] at hl
    rw [hc'.handle hlt] at hh
    exact h.fresh hr e' hlt hl hh
  · rw [(hc'.fresh e' (not_lt.mp hlt) he').handle] at hh
    exact absurd hh (by simp)

theorem Opened.of_heap {e : ℕ} {handle : SequenceHandle} (h : Opened r e handle s)
    (hheap : s'.heap = s.heap) : Opened r e handle s' := by
  refine ⟨h.opening.of_heap hheap, ?_⟩
  rw [hheap]
  simp only [entry_congr hheap]
  exact h.fresh

/-- The opened entry takes its handle and moves on. -/
theorem Opened.sound {e : ℕ} {handle : SequenceHandle} (h : Opened r e handle s) (hs : Sound r s)
    {f : RequestEntry → RequestEntry} {state : RuntimeRequestState}
    (hf : ∀ x, (f x).scheduling = x.scheduling ∧ (f x).handle = some handle ∧ (f x).state = state)
    (hstate : state ≠ TERMINAL) : Sound r (s.modifyEntry e f) := by
  -- the handle first, then the rest
  have hstore := hs.store (e := e) h.fresh
  have hcomp : s.modifyEntry e f
      = (s.modifyEntry e fun x => { x with handle := some handle }).modifyEntry e
          fun _ => f (s.entry e) := by
    rw [modifyEntry, heap_modify_const s e f]
    simp only [modifyEntry, List.modify_modify_eq]
    rfl
  have hself : (s.modifyEntry e fun x => { x with handle := some handle }).entry e
      = { s.entry e with handle := some handle } :=
    entry_modifyEntry_self (lt_length_of_state (by rw [h.opening]; decide)) _
  have hopening : ({ s.entry e with handle := some handle } : RequestEntry).state = OPENING :=
    h.opening
  obtain ⟨h1, h2, h3⟩ := hf (s.entry e)
  have hy : ({ s.entry e with handle := some handle } : RequestEntry).Advances (f (s.entry e)) :=
    .of_live h1 (by rw [hopening]; decide) (h3 ▸ hstate)
  rw [hcomp]
  refine hstore.replace e (hself ▸ hy) (fun _ => ?_) (hself ▸ h2)
  rw [hself]
  refine ⟨hy, fun hst => ?_, fun hst => ?_⟩
  · rw [hopening] at hst
    exact hst.elim
  · rw [hopening] at hst
    exact hst.elim

theorem triple_openCommit (e : ℕ) (handle : SequenceHandle) :
    Triple (protocol r) (Opened r e handle) (.atomic (openCommitBlock e handle) : Worker Bool)
      (fun _ _ => True) fun _ _ => True := by
  refine Triple.atomic (stable_opened e handle) (fun _ => stable_true) (fun _ => stable_true)
    fun s ans hs h ha => ⟨?_, fun _ _ => trivial, fun _ _ => trivial⟩
  rcases openCommitBlock_spec e handle s ans with
    ⟨exc, _, heq⟩ | ⟨now, deadline, _, heq | heq⟩
  · rw [heq]
    exact hs.store h.fresh
  · rw [heq]
    refine (h.sound hs (f := opened handle now deadline RELEASING) (fun _ => ⟨rfl, rfl, rfl⟩)
      (by decide)).plain (.notifyAll _)
  · have hlt : e < s.heap.length := lt_length_of_state (by rw [h.opening]; decide)
    have hmid := h.sound hs (f := opened handle now deadline PREFILL) (fun _ => ⟨rfl, rfl, rfl⟩)
      (by decide)
    have hentry : (s.modifyEntry e (opened handle now deadline PREFILL)).entry e
        = opened handle now deadline PREFILL (s.entry e) := entry_modifyEntry_self hlt _
    have hreq : (s.modifyEntry e (opened handle now deadline PREFILL)).requestId e
        = s.requestId e := requestId_modifyEntry s e fun _ => rfl
    -- the id is not in the deque: by assumption, or since ids are not reused
    have hid : r.orderly → s.requestId e ∉ s.prefill := by
      intro ho hmem
      rcases ha.requeues ho with hd | hreq
      · obtain ⟨e', he', hid', hst⟩ := (hs.passed hd).prefill _ hmem
        obtain rfl := (hs.passed hd).ids e' e he' hlt hid'
        rw [h.opening] at hst
        exact hst
      · refine hreq.1 e h.opening ?_ hmem
        rw [heq]
        show ((s.modifyEntry e (opened handle now deadline PREFILL)).entry e).state = PREFILL
        rw [hentry]
        rfl
    have hjoin := hmid.joinPrefill (e := e) ((List.length_modify ..).symm ▸ hlt)
      (fun ho => hreq ▸ hid ho) (by rw [hentry]; trivial)
    rw [heq]
    rw [hreq] at hjoin
    exact hjoin.plain (.notifyAll _)

theorem keeps_openOne : Keeps r (fun _ => True) (openOne cfg) := by
  refine Triple.bind (Q := fun picked s => ∀ e, picked = some e → InState Opening e s) ?_
    fun picked => ?_
  · refine Triple.atomic stable_true (fun picked s s' hi hc hi' h e he =>
      stable_inState Opening e s s' hi hc hi' (h e he)) (fun _ => stable_true) fun s ans hs _ _ => ?_
    rcases openPickBlock_spec hs.coherent ans with ⟨hprune, hnone⟩ | ⟨e, t, heq, hprune, he, hst⟩
    · refine ⟨hs.plain hprune.plain, fun a ha e he => ?_, fun _ _ => trivial⟩
      exact absurd (he ▸ ha) (hnone e)
    · have hst' : (t.entry e).state = QUEUED := by rw [entry_congr hprune.heap, hst]
      rw [heq]
      refine ⟨(hs.plain hprune.plain).plain (plain_opening hst'), fun a ha e' he' => ?_,
        fun _ _ => trivial⟩
      subst he'
      obtain rfl : e = e' := by simpa using ha
      rw [InState, entry_modifyEntry, if_pos ⟨rfl, by rw [hprune.heap]; exact he⟩]
  cases picked with
  | none => exact (keeps_pure stable_true).weaken (fun _ _ => trivial) fun _ h => h
  | some e =>
    refine Triple.conseq (P := InState Opening e) ?_ (fun _ _ h => h e rfl) (fun _ _ _ h => h)
      fun _ _ _ h => h
    refine Triple.bind (keeps_ensureAdmitted Opening e).loose fun _ => ?_
    refine Triple.bind (triple_catching (Q := Opened r e) (E := fun _ _ => True)
      (stable_opened e) (fun _ => stable_true) (fun _ _ _ h => h) ?_) fun opened => ?_
    · -- the call of the backend
      refine Triple.atomic (stable_inState Opening e) (stable_opened e) (fun _ => stable_true)
        fun s ans hs h ha => ⟨hs.call fun _ _ => trivial, fun handle hok => ?_, fun _ _ => trivial⟩
      refine ⟨h.of_heap rfl, fun hr e' he' hl hh => ?_⟩
      exact ha.freshHandle hr e handle rfl hok e' he' hl hh
    cases opened with
    | error exc =>
      refine Keeps.weaken (Triple.bind (keeps_terminalize e none _) fun _ => keeps_pure stable_true)
        (fun _ _ => trivial) fun _ h => h
    | ok handle =>
      refine Triple.conseq (P := Opened r e handle) ?_ (fun _ _ h => h)
        (fun _ _ _ h => h) fun _ _ _ h => h
      have hactivate : Keeps r (Opened r e handle) (.atomic (activateBlock e)) := by
        refine keeps_plain (stable_opened e handle) fun s ans _ h => ?_
        obtain ⟨admission, heq⟩ := activateBlock_spec e s ans
        rw [heq]
        exact ⟨.of_heap rfl rfl (.inl rfl) rfl rfl rfl, h.of_heap rfl⟩
      refine Triple.bind (R := fun _ _ => True) (E := fun _ _ => True)
        (triple_catching (fun _ => stable_opened e handle) (fun _ => stable_opened e handle)
          (fun _ _ _ _ => trivial) hactivate) fun activated => ?_
      cases activated with
      | error exc =>
        refine Triple.conseq (P := Opened r e handle) ?_ (fun _ _ h => h.1)
          (fun _ _ _ h => h) fun _ _ _ h => h
        refine Triple.bind (Q := fun _ _ => True) ?_ fun _ => ?_
        · refine Triple.modify (stable_opened e handle) stable_true fun s _ hs h _ => ⟨?_, trivial⟩
          exact (h.sound hs (f := fun x => { x with handle := some handle, state := RELEASING })
            (fun _ => ⟨rfl, rfl, rfl⟩) (by decide)).plain (.notifyAll _)
        · have hpublish : Keeps r (fun _ => True)
              (publish e .SEQUENCE_OPENED (some handle) none none) :=
            keeps_publish (fun _ => True) e _ _ _ _
          exact Triple.bind hpublish fun _ => Triple.bind
            (keeps_releaseAndTerminalize e none _) fun _ => keeps_pure stable_true
      | ok _ =>
        refine Triple.conseq (P := Opened r e handle) ?_ (fun _ _ h => h)
          (fun _ _ _ h => h) fun _ _ _ h => h
        refine Triple.bind (Q := fun _ => Opened r e handle) (Keeps.loose ?_) fun _ => ?_
        · exact keeps_modify (stable_opened e handle) fun s _ h =>
            ⟨.of_heap rfl rfl (.inl rfl) rfl rfl rfl, h.of_heap rfl⟩
        refine Triple.bind (triple_openCommit e handle) fun now => ?_
        have hpublish : Keeps r (fun _ => True)
            (publish e .SEQUENCE_OPENED (some handle) none none) :=
          keeps_publish (fun _ => True) e _ _ _ _
        refine Triple.bind hpublish fun _ => Triple.ite (fun _ => ?_) fun _ => keeps_pure stable_true
        exact Triple.bind (keeps_read stable_true) fun _ => Triple.bind
          (keeps_releaseAndTerminalize e none _) fun _ => keeps_pure stable_true

/-! ### Batches -/

/-- The entries of a batch: none occurs twice, and none is in the deque any more. -/
structure Selected (r : Regime) (S : RuntimeRequestState → Prop) (queue : Queue) (es : List ℕ)
    (s : SchedulerState) : Prop where
  inState : ∀ e ∈ es, InState S e s
  nodup : r.orderly → es.Nodup ∧ ∀ e ∈ es, s.requestId e ∉ s.deque queue

/-- The states of a batch's entries are neither the first nor the last. -/
def Between (S : RuntimeRequestState → Prop) : Prop := ∀ st, S st → st ≠ QUEUED ∧ st ≠ TERMINAL

variable {S : RuntimeRequestState → Prop} {queue : Queue} {es : List ℕ}

theorem Selected.lt (h : Selected r S queue es s) (hS : Between S) {e : ℕ} (he : e ∈ es) :
    e < s.heap.length := lt_length_of_state (hS _ (h.inState e he)).1

theorem stable_selected (hS : Between S) (hq : queue ≠ .queued) :
    (protocol r).Stable (Selected r S queue es) := by
  intro s s' hi hc hi' h
  have hc' : ClientChange s s' := hc
  have hdeque : s'.deque queue = s.deque queue := by
    cases queue with
    | queued => exact absurd rfl hq
    | prefill => exact hc'.prefill
    | decode => exact hc'.decode
  refine ⟨fun e he => stable_inState S e s s' hi hc hi' (h.inState e he), fun ho => ?_⟩
  obtain ⟨hnd, hout⟩ := h.nodup ho
  refine ⟨hnd, fun e he => ?_⟩
  rw [hdeque, hc'.requestId (h.lt hS he)]
  exact hout e he

theorem Selected.call (h : Selected r S queue es s) (c : BackendCall) :
    Selected r S queue es { s with backendCalls := s.backendCalls ++ [c] } := by
  refine ⟨fun e he => (h.inState e he).of_heap rfl, fun ho => ?_⟩
  cases queue <;> exact h.nodup ho

/-- Taking a batch. -/
theorem Picked.sound {t : SchedulerState} {state inflight : RuntimeRequestState}
    {pairs : List (ℕ × SequenceStep)} (h : Picked s t queue state es pairs) (hs : Sound r s)
    {marked : List ℕ} (hmarked : ∀ e ∈ marked, e ∈ es) (hne : state ≠ TERMINAL)
    (hinflight : inflight ≠ TERMINAL) (hstarted : state.Started → inflight.Started)
    (hpast : state.PastPrefill → inflight.PastPrefill) :
    Sound r (setStates inflight marked t) := by
  refine (hs.plain h.pruned.plain).plain (plain_setStates (fun e he => ?_) hinflight)
  rw [entry_congr h.pruned.heap, h.state e (hmarked e he)]
  exact ⟨hne, hstarted, hpast⟩

theorem Picked.selected {t : SchedulerState} {state inflight : RuntimeRequestState}
    {pairs : List (ℕ × SequenceStep)} (h : Picked s t queue state es pairs) (hs : Sound r s)
    (hq : queue ≠ .queued) {marked : List ℕ}
    (hS : S inflight ∧ ((∀ e ∈ es, e ∈ marked) ∨ S state)) :
    Selected r S queue es (setStates inflight marked t) := by
  have hlen : t.heap.length = s.heap.length := by rw [h.pruned.heap]
  refine ⟨fun e he => ?_, fun ho => ?_⟩
  · rw [InState, entry_setStates, hlen]
    split_ifs with hc
    · exact hS.1
    · rcases hS.2 with hall | hst
      · exact absurd ⟨hall e he, h.inHeap e he⟩ hc
      · rw [entry_congr h.pruned.heap, h.state e he]
        exact hst
  · have hnodup : (s.deque queue).Nodup := by
      cases queue with
      | queued => exact absurd rfl hq
      | prefill => exact hs.prefill_nodup ho
      | decode => exact hs.decode_nodup ho
    obtain ⟨hnd, hout⟩ := h.nodup hnodup
    have hframe := setStates_eq inflight marked t
    refine ⟨hnd, fun e he => ?_⟩
    have hreq : (setStates inflight marked t).requestId e = s.requestId e := by
      rw [requestId, entry_setStates, entry_congr h.pruned.heap]
      split_ifs <;> rfl
    rw [hreq, hframe]
    have := hout e he
    cases queue <;> exact this

/-- The sequences of a batch are distinct: its entries are, and handles are not
shared. -/
theorem Picked.isolated {t : SchedulerState} {state : RuntimeRequestState}
    {pairs : List (ℕ × SequenceStep)} (h : Picked s t queue state es pairs) (hs : Sound r s)
    (hne : state ≠ TERMINAL) (hq : queue ≠ .queued) (ho : r.orderly) (hr : r.handles) :
    ((pairs.map Prod.snd).map SequenceStep.handle).Nodup := by
  have hnodup : (s.deque queue).Nodup := by
    cases queue with
    | queued => exact absurd rfl hq
    | prefill => exact hs.prefill_nodup ho
    | decode => exact hs.decode_nodup ho
  have hpairs : (pairs.map Prod.fst).Nodup := h.pairs_sub.nodup (h.nodup hnodup).1
  rw [List.map_map]
  refine List.Nodup.map_on (fun p hp q hq heq => ?_) hpairs.of_map
  have hmem : ∀ p ∈ pairs, p.1 ∈ es := fun p hp => h.pairs_sub.subset (List.mem_map_of_mem hp)
  have hlive : ∀ p ∈ pairs, (s.entry p.1).state ≠ TERMINAL := by
    intro p hp
    rw [h.state _ (hmem p hp)]
    exact hne
  have hq' : (s.entry q.1).handle = some p.2.handle := by
    rw [h.handle q hq]
    exact congrArg some heq.symm
  have hfst := hs.handles hr p.1 q.1 p.2.handle (h.inHeap _ (hmem p hp)) (h.inHeap _ (hmem q hq))
    (hlive p hp) (hlive q hq) (h.handle p hp) hq'
  exact List.inj_on_of_nodup_map hpairs hp hq hfst

/-- What applying the outcomes of a batch asks of its entries. -/
structure Ready (r : Regime) (deque : SchedulerState → List PyStr) (es : List ℕ)
    (s : SchedulerState) : Prop where
  live : ∀ e ∈ es, e < s.heap.length ∧ (s.entry e).state ≠ TERMINAL
  nodup : r.orderly → es.Nodup ∧ ∀ e ∈ es, s.requestId e ∉ deque s

/-- After one outcome the other entries are as ready as before. -/
theorem Ready.step {deque : SchedulerState → List PyStr} {e : ℕ} {y : RequestEntry}
    (h : Ready r deque (e :: es) s) (hs : Sound r s) (ho : Outcome s s' e y)
    (hy : y.scheduling = (s.entry e).scheduling) (hlive : y.state ≠ TERMINAL)
    (hdeque : deque s' = deque s ∨ deque s' = deque s ++ [s.requestId e]) :
    Ready r deque es s' := by
  have hentry : ∀ e', s'.entry e' = if e = e' ∧ e < s.heap.length then y else s.entry e' :=
    fun e' => entry_modify ho.heap
  have hreq : ∀ e', s'.requestId e' = s.requestId e' := by
    intro e'
    rw [requestId, hentry]
    split_ifs with hc
    · rw [hy, hc.1]
      rfl
    · rfl
  refine ⟨fun e' he' => ?_, fun hord => ?_⟩
  · obtain ⟨hlt, hl⟩ := h.live e' (List.mem_cons_of_mem _ he')
    refine ⟨ho.length.symm ▸ hlt, ?_⟩
    rw [hentry]
    split_ifs
    · exact hlive
    · exact hl
  · obtain ⟨hnd, hout⟩ := h.nodup hord
    rw [List.nodup_cons] at hnd
    refine ⟨hnd.2, fun e' he' hmem => ?_⟩
    rw [hreq] at hmem
    obtain ⟨hlt, hl⟩ := h.live e List.mem_cons_self
    obtain ⟨hlt', hl'⟩ := h.live e' (List.mem_cons_of_mem _ he')
    rcases hdeque with hd | hd
    · rw [hd] at hmem
      exact hout e' (List.mem_cons_of_mem _ he') hmem
    · rw [hd] at hmem
      rcases List.mem_append.mp hmem with hmem | hmem
      · exact hout e' (List.mem_cons_of_mem _ he') hmem
      · have heq := hs.coherent.requestId_inj hlt' hlt hl' hl (List.mem_singleton.mp hmem)
        exact hnd.1 (heq ▸ he')

theorem Sound.applyPrefill : ∀ (pairs : List (ℕ × PrefillOutcome)) (s : SchedulerState),
    Sound r s → Ready r prefill (pairs.map Prod.fst) s →
    (r.orderly → ∀ p ∈ pairs, (s.entry p.1).state = PREFILL_INFLIGHT ∧
      ((afterPrefill (s.entry p.1) p.2).state = DECODE → s.requestId p.1 ∉ s.decode)) →
    Sound r (pairs.foldl (fun s p => applyPrefillOutcome s p.1 p.2) s)
  | [], _, hs, _, _ => hs
  | (e, outcome) :: rest, s, hs, hready, hout => by
    have hone := applyPrefillOutcome_spec s e outcome
    obtain ⟨h1, h2, h3, h4⟩ := afterPrefill_spec (s.entry e) outcome
    obtain ⟨hlt, hl⟩ := hready.live e List.mem_cons_self
    have hy : (s.entry e).Advances (afterPrefill (s.entry e) outcome) := .of_live h1 hl h4
    have hs' : Sound r (applyPrefillOutcome s e outcome) := by
      refine hs.outcome hone hlt hy (fun hd => ⟨hy, fun _ => h3, fun hpast => ?_⟩) h2
        (fun _ ho => (hready.nodup ho).2 e List.mem_cons_self)
        fun hst ho => (hout ho _ List.mem_cons_self).2 hst
      have hinfl := (hout (r.orderly_of_distinct hd) _ List.mem_cons_self).1
      rw [hinfl] at hpast
      exact hpast.elim
    have hready' : Ready r prefill (rest.map Prod.fst) (applyPrefillOutcome s e outcome) := by
      refine hready.step hs hone h1 h4 ?_
      rcases hone.deques with ⟨h, _⟩ | ⟨_, h, _⟩ | ⟨_, h, _⟩
      · exact .inl h
      · exact .inl h
      · exact .inr h
    refine Sound.applyPrefill rest _ hs' hready' fun ho p hp => ?_
    -- the entry of `p` is another one, with another id
    obtain ⟨hnd, _⟩ := hready.nodup ho
    rw [List.map_cons, List.nodup_cons] at hnd
    have hne : e ≠ p.1 := fun heq => hnd.1 (heq ▸ List.mem_map.mpr ⟨p, hp, rfl⟩)
    obtain ⟨hinfl, hdec⟩ := hout ho p (List.mem_cons_of_mem _ hp)
    have hp1 : p.1 ∈ ((e, outcome) :: rest).map Prod.fst :=
      List.mem_cons_of_mem _ (List.mem_map_of_mem hp)
    obtain ⟨hlt', hl'⟩ := hready.live p.1 hp1
    rw [requestId, hone.entry_ne hne]
    refine ⟨hinfl, fun hst hmem => ?_⟩
    rcases hone.deques with ⟨_, h, _⟩ | ⟨_, _, h⟩ | ⟨_, _, h⟩
    · exact hdec hst (h ▸ hmem)
    · rw [h] at hmem
      rcases List.mem_append.mp hmem with hmem | hmem
      · exact hdec hst hmem
      · exact hne (hs.coherent.requestId_inj hlt hlt' hl hl' (List.mem_singleton.mp hmem).symm)
    · exact hdec hst (h ▸ hmem)

theorem Sound.applyDecodeLoop : ∀ (pairs : List (ℕ × DecodeOutcome)) (s : SchedulerState),
    Sound r s → Ready r decode (pairs.map Prod.fst) s →
    Sound r (applyDecodeLoop pairs s).2
  | [], _, hs, _ => hs
  | (e, outcome) :: rest, s, hs, hready => by
    rw [ContinuousBatchScheduler.applyDecodeLoop]
    cases checkedOutcome (s.entry e) outcome with
    | error exc => exact hs
    | ok counted =>
      have hone := applyDecodeOutcome_spec s e counted
      obtain ⟨h1, h2, h3, h4, h5⟩ := afterDecode_spec (s.entry e) counted
      obtain ⟨hlt, hl⟩ := hready.live e List.mem_cons_self
      have hy : (s.entry e).Advances (afterDecode (s.entry e) counted) := .of_live h1 hl h5
      have hs' : Sound r (applyDecodeOutcome s e counted) := by
        refine hs.outcome hone hlt hy (fun _ => ⟨hy, fun _ => h3, fun _ => h4⟩) h2
          (fun hst _ => ?_) fun _ ho => (hready.nodup ho).2 e List.mem_cons_self
        rw [hst] at h4
        exact h4.elim
      have hready' : Ready r decode (rest.map Prod.fst) (applyDecodeOutcome s e counted) := by
        refine hready.step hs hone h1 h5 ?_
        rcases hone.deques with ⟨_, h, _⟩ | ⟨_, _, h⟩ | ⟨_, _, h⟩
        · exact .inl h
        · exact .inr h
        · exact .inl h
      have ih := Sound.applyDecodeLoop rest _ hs' hready'
      dsimp only
      rcases hr : ContinuousBatchScheduler.applyDecodeLoop rest (applyDecodeOutcome s e counted)
        with ⟨res, t⟩
      rw [hr] at ih
      cases res <;> exact ih

abbrev PrefillInflight : RuntimeRequestState → Prop := fun state => state = PREFILL_INFLIGHT

/-- An entry without handle is left out of the batch, in state `DECODE`. -/
abbrev Decoding : RuntimeRequestState → Prop :=
  fun state => state = DECODE_INFLIGHT ∨ state = DECODE

theorem between_prefillInflight : Between PrefillInflight := by
  rintro _ rfl
  exact ⟨by decide, by decide⟩

theorem between_decoding : Between Decoding := by
  rintro _ (rfl | rfl) <;> exact ⟨by decide, by decide⟩

theorem keeps_forM {α : Type} {f : α → Worker Unit} (xs : List α)
    (h : ∀ x, Keeps r (fun _ => True) (f x)) : Keeps r (fun _ => True) (xs.forM f) :=
  Triple.forM (P := fun _ _ => True) stable_true (fun x _ => h x) xs

/-- The call of the backend for a batch. -/
theorem triple_call {α β : Type} {S : RuntimeRequestState → Prop} {queue : Queue} {es : List ℕ}
    (hS : Between S) (hq : queue ≠ .queued) {c : BackendCall}
    (hc : r.orderly → r.handles → c.Isolated)
    {block : SchedulerState → Answer → Except PyException α × SchedulerState}
    (hblock : ∀ s ans, (block s ans).2 = { s with backendCalls := s.backendCalls ++ [c] })
    {k : Except PyException α → Worker β}
    (hk : ∀ res, Triple (protocol r) (Selected r S queue es) (k res) (fun _ _ => True)
      fun _ _ => True) :
    Triple (protocol r) (Selected r S queue es) (catching (.atomic block) >>= k)
      (fun _ _ => True) fun _ _ => True := by
  have hstable := @stable_selected r S queue es hS hq
  refine Triple.bind (R := fun _ _ => True) (E := fun _ _ => True) (triple_catching
    (Q := fun _ => Selected r S queue es) (E := fun _ => Selected r S queue es) (fun _ => hstable)
    (fun _ => hstable) (fun _ _ _ _ => trivial)
    (Triple.atomic hstable (fun _ => hstable) (fun _ => hstable) ?_)) fun res => ?_
  · intro s ans hs h _
    rw [hblock]
    exact ⟨hs.call hc, fun _ _ => h.call c, fun _ _ => h.call c⟩
  · refine (hk res).conseq (fun _ _ h => ?_) (fun _ _ _ h => h) fun _ _ _ h => h
    cases res with
    | ok _ => exact h
    | error exc => exact h.1

theorem prefillCallBlock_state (steps : List SequenceStep) (s : SchedulerState) (ans : Answer) :
    (prefillCallBlock steps s ans).2
      = { s with backendCalls := s.backendCalls ++ [.prefillBatch steps] } := by
  unfold prefillCallBlock
  cases ans.prefillBatch with
  | error exc => rfl
  | ok outcomes =>
    dsimp only
    split_ifs <;> rfl

theorem decodeCallBlock_state (selected : List ℕ) (steps : List SequenceStep)
    (s : SchedulerState) (ans : Answer) : (decodeCallBlock selected steps s ans).2
      = { s with backendCalls := s.backendCalls ++ [.decodeBatch steps] } := by
  unfold decodeCallBlock
  cases ans.decodeBatch with
  | error exc => rfl
  | ok outcomes =>
    dsimp only
    split_ifs <;> rfl

/-- The entries of a prefill batch take their outcomes. -/
theorem triple_applyPrefill (selected : List ℕ) (outcomes : List PrefillOutcome) :
    Triple (protocol r) (Selected r PrefillInflight .prefill selected)
      (.atomic (applyPrefill selected outcomes) : Worker (List (ℕ × PrefillOutcome)))
      (fun _ _ => True) fun _ _ => True := by
  refine Triple.atomic (stable_selected between_prefillInflight (by decide)) (fun _ => stable_true)
    (fun _ => stable_true) fun s ans hs h ha => ⟨?_, fun _ _ => trivial, fun _ _ => trivial⟩
  have hmem : ∀ p ∈ selected.zip outcomes, p.1 ∈ selected := fun p hp => (List.of_mem_zip hp).1
  have hsub := map_fst_zip_sublist selected outcomes
  have hlt : ∀ e ∈ selected, e < s.heap.length := fun e he => h.lt between_prefillInflight he
  have hinfl : ∀ e ∈ selected, (s.entry e).state = PREFILL_INFLIGHT := h.inState
  refine (Sound.applyPrefill (selected.zip outcomes) s hs ⟨fun e he => ?_, fun ho => ?_⟩
    fun ho p hp => ⟨hinfl _ (hmem p hp), fun hst hdecode => ?_⟩).plain
      (.of_heap rfl rfl (.inr rfl) rfl rfl rfl)
  · have he' := hsub.subset he
    exact ⟨hlt e he', by rw [hinfl e he']; decide⟩
  · obtain ⟨hnd, hout⟩ := h.nodup ho
    exact ⟨hsub.nodup hnd, fun e he => hout e (hsub.subset he)⟩
  · -- the entry goes on to `DECODE`, where its id must not be queued yet
    have hlt' := hlt _ (hmem p hp)
    rcases ha.requeues ho with hd | hreq
    · obtain ⟨e', he', hid', hpast⟩ := (hs.passed hd).decode _ hdecode
      obtain rfl := (hs.passed hd).ids e' p.1 he' hlt' hid'
      rw [hinfl _ (hmem p hp)] at hpast
      exact hpast
    · obtain ⟨hfinal, _, _⟩ := entry_foldl_applyPrefill (selected.zip outcomes) s
        (hsub.nodup (h.nodup ho).1) fun p hp => hlt _ (hmem p hp)
      refine hreq.2 p.1 (hinfl _ (hmem p hp)) ?_ hdecode
      show (((selected.zip outcomes).foldl (fun s p => applyPrefillOutcome s p.1 p.2) s).entry
        p.1).state = DECODE
      rw [hfinal p hp]
      exact hst

theorem keeps_runPrefillBatch : Keeps r (fun _ => True) (runPrefillBatch cfg) := by
  refine Triple.bind (Q := fun picked s =>
      Selected r PrefillInflight .prefill (picked.map Prod.fst) s ∧
      (r.orderly → r.handles → BackendCall.Isolated (.prefillBatch (picked.map Prod.snd))))
    ?_ fun picked => ?_
  · refine Triple.atomic stable_true (fun picked s s' hi hc hi' h =>
      ⟨stable_selected between_prefillInflight (by decide) s s' hi hc hi' h.1, h.2⟩)
      (fun _ => stable_true) fun s ans hs _ _ => ?_
    rcases @prefillTakeBlock_spec cfg s hs.coherent ans with
      ⟨exc, t, heq, hprune⟩ | ⟨picked, t, heq, hpick⟩
    · rw [heq]
      exact ⟨hs.plain hprune.plain, fun a ha => absurd ha (by simp), fun _ _ => trivial⟩
    · rw [heq]
      refine ⟨hpick.sound hs (fun _ h => h) (by decide) (by decide) (fun h => h) (fun h => h),
        fun a ha => ?_, fun _ _ => trivial⟩
      obtain rfl := Except.ok.inj ha
      exact ⟨hpick.selected hs (by decide) ⟨rfl, .inl fun _ h => h⟩,
        hpick.isolated hs (by decide) (by decide)⟩
  refine Triple.ite (fun _ => (keeps_pure stable_true).weaken (fun _ _ => trivial) fun _ h => h)
    fun _ => ?_
  by_cases hiso : r.orderly → r.handles → BackendCall.Isolated (.prefillBatch (picked.map Prod.snd))
  swap
  · exact fun s _ h => absurd h.2 hiso
  refine Triple.conseq (P := Selected r PrefillInflight .prefill (picked.map Prod.fst)) ?_
    (fun _ _ h => h.1) (fun _ _ _ h => h) fun _ _ _ h => h
  refine triple_call between_prefillInflight (by decide) hiso
    (fun s ans => prefillCallBlock_state _ s ans) fun res => ?_
  cases res with
  | error exc =>
    exact (keeps_forM _ fun e => keeps_releaseAndTerminalize e none _).weaken (fun _ _ => trivial)
      fun _ h => h
  | ok outcomes =>
    refine Triple.bind (triple_applyPrefill _ outcomes) fun published => Triple.bind
      (keeps_forM _ fun p => ?_) fun _ => keeps_forM _ fun e => ?_
    · refine Triple.bind (keeps_modify stable_true fun s _ _ => ?_) fun _ => Triple.bind
        (keeps_read stable_true) fun handle => keeps_publish (fun _ => True) p.1 _ _ _ _
      split_ifs
      · exact ⟨.of_heap rfl rfl (.inl rfl) rfl rfl rfl, trivial⟩
      · exact ⟨.refl s, trivial⟩
    · exact Triple.bind (keeps_read stable_true) fun x => Triple.ite
        (fun _ => keeps_releaseAndTerminalize e none _) fun _ => keeps_pure stable_true

theorem keeps_completeEntry (e : ℕ) (completion : Option SequenceCompletion) :
    Keeps r (fun _ => True) (completeEntry cfg e completion) := by
  cases completion with
  | none => exact keeps_releaseAndTerminalize e none _
  | some completion =>
    refine Triple.bind (keeps_read stable_true) fun x => Triple.ite
      (fun _ => keeps_releaseAndTerminalize e none _) fun _ => ?_
    cases hcheck : x.request.checkOutput completion.finalText with
    | error exc =>
      refine Triple.ite (fun _ => keeps_releaseAndTerminalize e none _) fun _ =>
        Triple.raise stable_true fun _ _ _ => trivial
    | ok _ =>
      exact Triple.bind keeps_readClock fun now => keeps_releaseAndTerminalize e _ none

theorem keeps_runDecodeBatch : Keeps r (fun _ => True) (runDecodeBatch cfg) := by
  refine Triple.bind (Q := fun picked s => Selected r Decoding .decode picked.1 s ∧
      (r.orderly → r.handles → BackendCall.Isolated (.decodeBatch picked.2))) ?_ fun picked => ?_
  · refine Triple.atomic stable_true (fun picked s s' hi hc hi' h =>
      ⟨stable_selected between_decoding (by decide) s s' hi hc hi' h.1, h.2⟩)
      (fun _ => stable_true) fun s ans hs _ _ => ?_
    rcases @decodeTakeBlock_spec cfg s hs.coherent ans with
      ⟨exc, t, heq, hprune⟩ | ⟨selected, pairs, t, heq, hpick⟩
    · rw [heq]
      exact ⟨hs.plain hprune.plain, fun a ha => absurd ha (by simp), fun _ _ => trivial⟩
    · rw [heq]
      refine ⟨hpick.sound hs (fun _ h => List.mem_of_mem_filter h) (by decide) (by decide)
        (fun h => h) (fun h => h), fun a ha => ?_, fun _ _ => trivial⟩
      obtain rfl := Except.ok.inj ha
      exact ⟨hpick.selected hs (by decide) ⟨.inl rfl, .inr (.inr rfl)⟩,
        hpick.isolated hs (by decide) (by decide)⟩
  obtain ⟨selected, steps⟩ := picked
  refine Triple.ite (fun _ => (keeps_pure stable_true).weaken (fun _ _ => trivial) fun _ h => h)
    fun _ => ?_
  by_cases hiso : r.orderly → r.handles → BackendCall.Isolated (.decodeBatch steps)
  swap
  · exact fun s _ h => absurd h.2 hiso
  refine Triple.conseq (P := Selected r Decoding .decode selected) ?_ (fun _ _ h => h.1)
    (fun _ _ _ h => h) fun _ _ _ h => h
  refine triple_call between_decoding (by decide) hiso
    (fun s ans => decodeCallBlock_state selected steps s ans) fun res => ?_
  cases res with
  | error exc =>
    exact (keeps_forM _ fun e => keeps_releaseAndTerminalize e none _).weaken (fun _ _ => trivial)
      fun _ h => h
  | ok outcomes =>
    refine Triple.bind (Q := fun _ _ => True) ?_ fun done => Triple.bind
      (keeps_forM _ fun p => ?_) fun _ => keeps_forM _ fun p => ?_
    · refine Triple.atomic (stable_selected between_decoding (by decide)) (fun _ => stable_true)
        (fun _ => stable_true) fun s ans hs h _ => ⟨?_, fun _ _ => trivial, fun _ _ => trivial⟩
      have hsub := map_fst_zip_sublist selected outcomes
      have hloop := Sound.applyDecodeLoop (selected.zip outcomes) s hs ⟨fun e he => ?_, fun ho => ?_⟩
      · unfold applyDecode
        rcases hr : applyDecodeLoop (selected.zip outcomes) s with ⟨res, t⟩
        rw [hr] at hloop
        cases res with
        | error exc => exact hloop
        | ok done => exact hloop.plain (.of_heap rfl rfl (.inr rfl) rfl rfl rfl)
      · have he' := hsub.subset he
        exact ⟨h.lt between_decoding he', (between_decoding _ (h.inState e he')).2⟩
      · obtain ⟨hnd, hout⟩ := h.nodup ho
        exact ⟨hsub.nodup hnd, fun e he => hout e (hsub.subset he)⟩
    · refine Triple.bind (keeps_modify stable_true fun s _ _ => ?_) fun _ => Triple.bind
        (keeps_read stable_true) fun handle => keeps_publish (fun _ => True) p.1 _ _ _ _
      split_ifs
      · exact ⟨.of_heap rfl rfl (.inl rfl) rfl rfl rfl, trivial⟩
      · exact ⟨.refl s, trivial⟩
    · exact Triple.ite (fun _ => keeps_releaseAndTerminalize p.1 none _) fun _ =>
        keeps_completeEntry p.1 p.2.completion

/-! ### The loop and its handler -/

theorem keeps_idleBlock : Keeps r (fun _ => True) (.atomic (idleBlock cfg)) := by
  refine keeps_plain stable_true fun s ans _ _ => ⟨?_, trivial⟩
  rcases @idleBlock_spec cfg s ans with ⟨_, heq⟩ | hprune
  · rw [heq]
    exact .of_heap rfl rfl (.inr rfl) rfl rfl rfl
  · exact hprune.plain

theorem keeps_iteration : Keeps r (fun _ => True) (iteration cfg) := by
  refine Triple.bind keeps_processTerminalBoundaries fun ended => Triple.ite
    (fun _ => keeps_pure stable_true) fun _ => ?_
  refine Triple.bind keeps_openOne fun opened => Triple.ite
    (fun _ => keeps_pure stable_true) fun _ => ?_
  refine Triple.bind (keeps_plain stable_true fun s ans _ _ =>
    ⟨(chooseBatchBlock_spec s ans).plain, trivial⟩) fun action => ?_
  match action with
  | some .decode => exact Triple.bind keeps_runDecodeBatch fun _ => keeps_pure stable_true
  | some .prefill => exact Triple.bind keeps_runPrefillBatch fun _ => keeps_pure stable_true
  | none => exact keeps_idleBlock

theorem keeps_crashHandler (exc : PyException) : Keeps r (fun _ => True) (crashHandler exc) := by
  refine Triple.bind (keeps_modify stable_true fun s _ _ =>
    ⟨.of_heap rfl rfl (.inl rfl) rfl rfl rfl, trivial⟩) fun _ => Triple.bind ?_ fun _ =>
      keeps_modify stable_true fun s _ _ => ⟨.of_heap rfl rfl (.inr rfl) rfl rfl rfl, trivial⟩
  exact Triple.bind (keeps_plain stable_true fun s _ _ _ =>
    ⟨.of_heap rfl rfl (.inl rfl) rfl rfl rfl, trivial⟩) fun entries =>
      keeps_forM _ fun e => keeps_releaseAndTerminalize e none _

end threads

theorem sound_empty : Sound r {} where
  coherent := coherent_empty
  prefill_nodup := fun _ => List.nodup_nil
  decode_nodup := fun _ => List.nodup_nil
  handles := fun _ e _ _ he => absurd he (by simp)
  batches := fun _ _ c hc => absurd hc (by simp)
  passed := fun _ => ⟨fun e _ he => absurd he (by simp), fun id hid => absurd hid (by simp),
    fun id hid => absurd hid (by simp)⟩

/-- The moves of a run that a regime allows. -/
def Regime.AllowsMove (r : Regime) (cfg : SchedulerConfig)
    (c : Config SchedulerState Answer PyException) : Move Answer ClientOp → Prop
  | .worker ans => r.Allows c.shared ans ((scheduler cfg).step c (.worker ans)).shared
  | .client k => r.AllowsClient c.shared k

def nothingAsked : System.Annotation SchedulerState PyException where
  head := fun _ => True
  crash := fun _ _ => True
  entering := fun _ _ => True
  returned := fun _ => True
  handled := fun _ => True
  died := fun _ _ => True

/-- **The invariant holds in every reachable state.** -/
theorem sound_run {moves : List (Move Answer ClientOp)}
    (h : (scheduler cfg).Along (r.AllowsMove cfg) (initial cfg) moves) :
    Sound r ((scheduler cfg).run (initial cfg) moves).shared := by
  refine (System.run_ok (S := scheduler cfg) (C := protocol r) (A := nothingAsked)
    (K := r.AllowsClient) ?_ (fun exc => ?_) (fun s k hs hk => ⟨hs.client hk, ?_⟩) sound_empty
    trivial (h.mono fun c m hm => ?_)).1
  · refine Thread.Triple.conseq keeps_iteration (fun _ _ h => h) (fun again s _ _ => ?_)
      fun _ _ _ _ => trivial
    cases again <;> trivial
  · exact (keeps_crashHandler exc).weaken (fun _ _ => trivial) fun _ h => h
  · exact (client_spec k hs.coherent).2
  · cases m with
    | client k => exact hm
    | worker ans => exact System.permits_worker (fun _ _ => trivial) hm

end ContinuousBatchScheduler

end Inference
