/-
What the blocks of the worker do.

* `Pruned` — the queue operations: stale ids leave a deque, nothing else moves;
* `Plain` — an action that neither appends to a deque nor stores a handle;
* `popStateLocked_spec`, `takeStateLocked_spec` — what is selected, and what is
  left of the deque;
* one lemma for each block of the remaining code, under the block's name.
-/
import LlamaRuntime.Inference.SchedulerSteps

namespace Inference

open RuntimeRequestState SchedulerState

/-- The sequences of a batch are pairwise distinct. -/
def BackendCall.Isolated : BackendCall → Prop
  | .prefillBatch steps | .decodeBatch steps => (steps.map SequenceStep.handle).Nodup
  | _ => True

instance (c : BackendCall) : Decidable c.Isolated := by
  cases c <;> unfold BackendCall.Isolated <;> infer_instance

variable {cfg : SchedulerConfig} {s s' s'' : SchedulerState}

/-! ### Plain actions -/

/-- An action that neither appends to a deque nor stores a handle, and hands no
batch out. -/
structure Plain (s s' : SchedulerState) : Prop extends Advance s s' where
  proceeds : ∀ e, (s.entry e).Proceeds (s'.entry e)
  handle : ∀ e, (s'.entry e).handle = (s.entry e).handle
  prefill : s'.prefill.Sublist s.prefill
  decode : s'.decode.Sublist s.decode
  calls : ∀ c ∈ s'.backendCalls, c ∈ s.backendCalls ∨ c.Isolated

namespace Plain

theorem refl (s : SchedulerState) : Plain s s :=
  ⟨.refl s, fun _ => .refl _, fun _ => rfl, .refl _, .refl _, fun _ hc => .inl hc⟩

theorem trans (h : Plain s s') (h' : Plain s' s'') : Plain s s'' where
  toAdvance := h.toAdvance.trans h'.toAdvance
  proceeds := fun e => (h.proceeds e).trans (h'.proceeds e)
  handle := fun e => (h'.handle e).trans (h.handle e)
  prefill := h'.prefill.trans h.prefill
  decode := h'.decode.trans h.decode
  calls := by
    intro c hc
    rcases h'.calls c hc with hc | hc
    · exact h.calls c hc
    · exact .inr hc

theorem of_heap (hheap : s'.heap = s.heap) (hentries : s'.entries = s.entries)
    (hcallers : s'.callers = s.callers ∨ s'.callers = s.callers.map Caller.notify)
    (hprefill : s'.prefill = s.prefill) (hdecode : s'.decode = s.decode) (hcalls : s'.backendCalls = s.backendCalls) : Plain s s' where
  toAdvance := .of_heap hheap hentries hcallers
  proceeds := fun e => by rw [entry_congr hheap]; exact .refl _
  handle := fun e => by rw [entry_congr hheap]
  prefill := hprefill ▸ .refl _
  decode := hdecode ▸ .refl _
  calls := fun c hc => .inl (hcalls ▸ hc)

/-- An update of one entry that does not touch its handle. -/
theorem modify (s : SchedulerState) (e : ℕ) {f : RequestEntry → RequestEntry}
    (hf : (s.entry e).Proceeds (f (s.entry e))) (hh : ∀ x, (f x).handle = x.handle) :
    Plain s (s.modifyEntry e f) where
  toAdvance := .modify rfl rfl (.inl rfl) hf.toAdvances
  proceeds := by
    intro e'
    rw [entry_modifyEntry]
    split_ifs with hc
    · exact hc.1 ▸ hf
    · exact .refl _
  handle := by
    intro e'
    rw [entry_modifyEntry]
    split_ifs with hc
    · rw [hh, hc.1]
    · rfl
  prefill := .refl _
  decode := .refl _
  calls := fun _ hc => .inl hc

theorem notifyAll (s : SchedulerState) : Plain s s.notifyAll :=
  .of_heap rfl rfl (.inr rfl) rfl rfl rfl

end Plain

/-! ### The queue operations -/

/-- Ids leave the deques, and the selector may change. -/
structure Pruned (s s' : SchedulerState) : Prop where
  heap : s'.heap = s.heap
  entries : s'.entries = s.entries
  callers : s'.callers = s.callers
  published : s'.published = s.published
  calls : s'.backendCalls = s.backendCalls
  deque : ∀ q, (s'.deque q).Sublist (s.deque q)

namespace Pruned

theorem refl (s : SchedulerState) : Pruned s s := ⟨rfl, rfl, rfl, rfl, rfl, fun _ => .refl _⟩

theorem trans (h : Pruned s s') (h' : Pruned s' s'') : Pruned s s'' :=
  ⟨h'.heap.trans h.heap, h'.entries.trans h.entries, h'.callers.trans h.callers,
    h'.published.trans h.published, h'.calls.trans h.calls,
    fun q => (h'.deque q).trans (h.deque q)⟩

theorem setDeque {q : Queue} {ids : List PyStr} (h : ids.Sublist (s.deque q)) :
    Pruned s (s.setDeque q ids) := by
  refine ⟨heap_setDeque q ids, entries_setDeque q ids, callers_setDeque q ids,
    published_setDeque q ids, backendCalls_setDeque q ids, fun q' => ?_⟩
  cases q <;> cases q' <;> first | exact h | exact .refl _

theorem plain (h : Pruned s s') : Plain s s' where
  toAdvance := .of_heap h.heap h.entries (.inl h.callers)
  proceeds := fun e => by rw [entry_congr h.heap]; exact .refl _
  handle := fun e => by rw [entry_congr h.heap]
  prefill := h.deque .prefill
  decode := h.deque .decode
  calls := fun c hc => .inl (h.calls ▸ hc)

end Pruned

namespace ContinuousBatchScheduler

/-- A queued id stands for the registered entry `e`, which is in `state`. -/
def Stands (s : SchedulerState) (state : RuntimeRequestState) (id : PyStr) (e : ℕ) : Prop :=
  s.entries.get? id = some e ∧ (s.entry e).state = state

theorem liveMember_eq_some {state : RuntimeRequestState} {id : PyStr} {e : ℕ} :
    liveMember s state id = some e ↔ Stands s state id e := by
  unfold liveMember Stands
  cases s.entries.get? id with
  | none => simp
  | some e' =>
    dsimp only
    split_ifs with h
    · constructor
      · rintro ⟨⟩
        exact ⟨rfl, h⟩
      · rintro ⟨⟨⟩, _⟩
        rfl
    · constructor
      · intro h'
        exact absurd h' (by simp)
      · rintro ⟨⟨⟩, h'⟩
        exact absurd h' h

/-- The id of what is selected leaves the deque, once. -/
theorem popStateLocked_spec (queue : Queue) (state : RuntimeRequestState)
    (predicate : RequestEntry → Bool) (clock : ClockReading) (fault : Option PyException)
    (s : SchedulerState) :
    Pruned s (popStateLocked cfg queue state predicate clock fault s).2 ∧
    ∀ e, (popStateLocked cfg queue state predicate clock fault s).1 = .ok (some e) →
      (∃ id ∈ s.deque queue, Stands s state id e) ∧
      ∃ ids : List PyStr, ids.Sublist (s.deque queue) ∧
        (popStateLocked cfg queue state predicate clock fault s).2.deque queue
          = ids.erase (s.requestId e) := by
  have hvalid : ((s.deque queue).filter fun id => (liveMember s state id).isSome).Sublist
      (s.deque queue) := List.filter_sublist
  have hprune := Pruned.setDeque hvalid
  -- a change of the selector prunes nothing
  have hsel : ∀ (t : SchedulerState) sel, Pruned s t → Pruned s { t with selector := sel } :=
    fun t sel ht => ⟨ht.heap, ht.entries, ht.callers, ht.published, ht.calls,
      fun q => by
        cases q
        exacts [ht.deque .queued, ht.deque .prefill, ht.deque .decode]⟩
  unfold popStateLocked
  dsimp only
  cases clock.now with
  | error exc => exact ⟨hprune, fun e h => absurd h (by simp)⟩
  | ok now =>
    cases fault with
    | some exc => exact ⟨hprune, fun e h => absurd h (by simp)⟩
    | none =>
      dsimp only
      generalize hc : (((s.deque queue).filterMap (liveMember s state)).filter _).map _ = candidates
      generalize hr : HierarchicalFairSelector.select cfg.policy _ candidates now = r
      rcases r with ⟨res, sel⟩
      rcases res with rejection | selected
      · exact ⟨hsel _ _ hprune, fun e h => absurd h (by simp)⟩
      rcases selected with _ | selected
      · exact ⟨hsel _ _ hprune, fun e h => absurd h (by simp)⟩
      -- the selected candidate is one of those the deque stands for
      have hmem : selected ∈ candidates :=
        HierarchicalFairSelector.select_mem (congrArg Prod.fst hr)
      rw [← hc] at hmem
      obtain ⟨e, he, rfl⟩ := List.mem_map.mp hmem
      obtain ⟨id, hid, hlive⟩ := List.mem_filterMap.mp (List.mem_of_mem_filter he)
      refine ⟨(hsel _ sel hprune).trans (Pruned.setDeque ?_), ?_⟩
      · cases queue <;> exact List.erase_sublist
      · intro e' heq
        obtain rfl : e = e' := by simpa using heq
        refine ⟨⟨id, hid, liveMember_eq_some.mp hlive⟩, _, hvalid, ?_⟩
        rw [deque_setDeque_self]
        rfl

theorem takeStateLocked_spec (queue : Queue) (state : RuntimeRequestState) (ans : Answer) :
    ∀ (limit k : ℕ) (s : SchedulerState),
      Pruned s (takeStateLocked cfg queue state ans limit k s).2 ∧
      ∀ es, (takeStateLocked cfg queue state ans limit k s).1 = .ok es →
        (∀ e ∈ es, ∃ id ∈ s.deque queue, Stands s state id e) ∧
        (Coherent s → (s.deque queue).Nodup → es.Nodup ∧ ∀ e ∈ es, s.requestId e ∉
          (takeStateLocked cfg queue state ans limit k s).2.deque queue) := by
  intro limit
  induction limit with
  | zero =>
    intro k s
    refine ⟨.refl s, fun es h => ?_⟩
    obtain rfl : [] = es := Except.ok.inj h
    simp
  | succ limit ih =>
    intro k s
    obtain ⟨hpop, hsel⟩ := @popStateLocked_spec cfg queue state (fun _ => true) (ans.clock k)
      (ans.selector k) s
    rw [takeStateLocked]
    rcases hr : popStateLocked cfg queue state (fun _ => true) (ans.clock k) (ans.selector k) s
      with ⟨res, t⟩
    rw [hr] at hpop hsel
    rcases res with exc | _ | e
    · exact ⟨hpop, fun es h => absurd h (by simp)⟩
    · refine ⟨hpop, fun es h => ?_⟩
      obtain rfl : [] = es := Except.ok.inj h
      simp
    obtain ⟨hstands, ids, hsub, hdeque⟩ := hsel e rfl
    obtain ⟨htake, hrest⟩ := ih (k + 1) t
    dsimp only
    rcases hr' : takeStateLocked cfg queue state ans limit (k + 1) t with ⟨res', u⟩
    rw [hr'] at htake hrest
    rcases res' with exc | es'
    · exact ⟨hpop.trans htake, fun es h => absurd h (by simp)⟩
    obtain ⟨hes', hnodup'⟩ := hrest es' rfl
    have hentry : ∀ e', t.entry e' = s.entry e' := fun e' => entry_congr hpop.heap
    -- what stands in the rest of the deque stood in all of it
    have hback : ∀ e' ∈ es', ∃ id ∈ t.deque queue, Stands s state id e' := by
      intro e' he'
      obtain ⟨id, hid, hget, hstate⟩ := hes' e' he'
      exact ⟨id, hid, hpop.entries ▸ hget, hentry e' ▸ hstate⟩
    refine ⟨hpop.trans htake, fun es h => ?_⟩
    obtain rfl : e :: es' = es := Except.ok.inj h
    refine ⟨?_, fun hcoh hnd => ?_⟩
    · intro e' he'
      rcases List.mem_cons.mp he' with rfl | he'
      · exact hstands
      · obtain ⟨id, hid, hst⟩ := hback e' he'
        exact ⟨id, (hpop.deque queue).subset hid, hst⟩
    · have hcoh' : Coherent t := hcoh.advance hpop.plain.toAdvance
      obtain ⟨hnd', hout⟩ := hnodup' hcoh' ((hpop.deque queue).nodup hnd)
      have hgone : s.requestId e ∉ t.deque queue := by
        rw [hdeque]
        exact (hsub.nodup hnd).not_mem_erase
      refine ⟨List.nodup_cons.mpr ⟨fun hmem => ?_, hnd'⟩, ?_⟩
      · obtain ⟨id, hid, hget, _⟩ := hback e hmem
        exact hgone ((hcoh.registered id e hget).2 ▸ hid)
      · intro e' he'
        rcases List.mem_cons.mp he' with rfl | he'
        · exact fun hmem => hgone ((htake.deque queue).subset hmem)
        · have := hout e' he'
          rwa [requestId, hentry] at this

/-- A selection changes its deque and the selector. -/
theorem popStateLocked_frame (queue : Queue) (state : RuntimeRequestState)
    (predicate : RequestEntry → Bool) (clock : ClockReading) (fault : Option PyException)
    (s : SchedulerState) :
    let t := (popStateLocked cfg queue state predicate clock fault s).2
    t = { s with selector := t.selector }.setDeque queue (t.deque queue) := by
  unfold popStateLocked
  dsimp only
  cases clock.now with
  | error exc => cases queue <;> rfl
  | ok now =>
    cases fault with
    | some exc => cases queue <;> rfl
    | none =>
      dsimp only
      rcases HierarchicalFairSelector.select cfg.policy _ _ now with ⟨rejection | _ | selected, sel⟩
      · cases queue <;> rfl
      · cases queue <;> rfl
      · cases queue <;> rfl

theorem takeStateLocked_frame (queue : Queue) (state : RuntimeRequestState) (ans : Answer) :
    ∀ (limit k : ℕ) (s : SchedulerState),
      let t := (takeStateLocked cfg queue state ans limit k s).2
      t = { s with selector := t.selector }.setDeque queue (t.deque queue) := by
  intro limit
  induction limit with
  | zero =>
    intro _ s
    cases queue <;> rfl
  | succ limit ih =>
    intro k s
    have hone := @popStateLocked_frame cfg queue state (fun _ => true) (ans.clock k)
      (ans.selector k) s
    rw [takeStateLocked]
    generalize popStateLocked cfg queue state (fun _ => true) (ans.clock k) (ans.selector k) s
      = popped at hone
    rcases popped with ⟨exc | _ | e, t⟩
    · exact hone
    · exact hone
    have hrest := ih (k + 1) t
    dsimp only at hone hrest ⊢
    generalize takeStateLocked cfg queue state ans limit (k + 1) t = taken at hrest
    -- a deque that is set twice is set once
    have htwice : taken.2 = { s with selector := taken.2.selector }.setDeque queue
        (taken.2.deque queue) := by
      rw [hone] at hrest
      cases queue <;> exact hrest
    rcases taken with ⟨exc | es, u⟩
    · exact htwice
    · exact htwice

/-- An id that is not selected stays, if it stands for an entry in the state asked for. -/
theorem popStateLocked_keeps {queue : Queue} {state : RuntimeRequestState}
    {predicate : RequestEntry → Bool} {clock : ClockReading} {fault : Option PyException}
    {id : PyStr} (hid : id ∈ s.deque queue) (hlive : (liveMember s state id).isSome)
    (hother : ∀ e, (popStateLocked cfg queue state predicate clock fault s).1 = .ok (some e) →
      id ≠ s.requestId e) :
    id ∈ (popStateLocked cfg queue state predicate clock fault s).2.deque queue := by
  have hvalid : id ∈ (s.deque queue).filter fun id => (liveMember s state id).isSome :=
    List.mem_filter.mpr ⟨hid, hlive⟩
  have hset : ∀ (t : SchedulerState) sel ids, id ∈ ids →
      id ∈ ({ t with selector := sel }.setDeque queue ids).deque queue := by
    intro t sel ids h
    rwa [deque_setDeque_self]
  unfold popStateLocked at hother ⊢
  dsimp only at hother ⊢
  cases hnow : clock.now with
  | error exc => exact hset s s.selector _ hvalid
  | ok now =>
    rw [hnow] at hother
    cases fault with
    | some exc => exact hset s s.selector _ hvalid
    | none =>
      dsimp only at hother ⊢
      generalize hc : (((s.deque queue).filterMap (liveMember s state)).filter _).map _ =
        members at hother ⊢
      rcases hpick : HierarchicalFairSelector.select cfg.policy _ members now with
        ⟨rejection | _ | selected, sel⟩
      · cases queue <;> exact hvalid
      · cases queue <;> exact hvalid
      rw [hpick] at hother
      have hmem := HierarchicalFairSelector.select_mem (congrArg Prod.fst hpick)
      rw [← hc] at hmem
      obtain ⟨e, _, rfl⟩ := List.mem_map.mp hmem
      exact hset _ sel _ ((List.mem_erase_of_ne (hother e rfl)).mpr hvalid)

/-- What is not taken stays in the deque. -/
theorem takeStateLocked_keeps {queue : Queue} {state : RuntimeRequestState} {ans : Answer}
    {id : PyStr} {e : ℕ} : ∀ (limit k : ℕ) (s : SchedulerState) {es : List ℕ}, Coherent s →
      (takeStateLocked cfg queue state ans limit k s).1 = .ok es → id ∈ s.deque queue →
        Stands s state id e → e ∉ es →
          id ∈ (takeStateLocked cfg queue state ans limit k s).2.deque queue := by
  intro limit
  induction limit with
  | zero => exact fun _ _ _ _ _ hid _ _ => hid
  | succ limit ih =>
    intro k s es hcoh hok hid hst hne
    obtain ⟨hpop, hsel⟩ := @popStateLocked_spec cfg queue state (fun _ => true) (ans.clock k)
      (ans.selector k) s
    have hkeeps := @popStateLocked_keeps cfg s queue state (fun _ => true) (ans.clock k)
      (ans.selector k) id hid (Option.isSome_iff_exists.mpr ⟨e, liveMember_eq_some.mpr hst⟩)
    rw [takeStateLocked] at hok ⊢
    generalize popStateLocked cfg queue state (fun _ => true) (ans.clock k) (ans.selector k) s
      = popped at hpop hsel hkeeps hok ⊢
    rcases popped with ⟨exc | _ | picked, t⟩
    · exact absurd hok (by simp)
    · exact hkeeps fun _ h => absurd h (by simp)
    obtain ⟨⟨id', _, hst'⟩, _⟩ := hsel picked rfl
    have hrest := @ih (k + 1) t
    dsimp only at hpop hkeeps hok hrest ⊢
    generalize takeStateLocked cfg queue state ans limit (k + 1) t = taken at hok hrest ⊢
    rcases taken with ⟨exc | es', u⟩
    · exact absurd hok (by simp)
    obtain rfl : picked :: es' = es := Except.ok.inj hok
    rw [List.mem_cons, not_or] at hne
    -- the picked entry has another id
    have hother : id ≠ s.requestId picked := by
      rintro rfl
      have hreg := (hcoh.registered id' picked hst'.1).2
      rw [← hreg] at hst'
      exact hne.1 (Option.some_inj.mp (hst.1.symm.trans hst'.1))
    have hmem : id ∈ t.deque queue := by
      refine hkeeps fun e' he' => ?_
      obtain rfl : picked = e' := by simpa using he'
      exact hother
    refine hrest (hcoh.advance hpop.plain.toAdvance) rfl hmem ⟨hpop.entries ▸ hst.1, ?_⟩ hne.2
    rw [entry_congr hpop.heap]
    exact hst.2

theorem queueHasStateLocked_spec (queue : Queue) (state : RuntimeRequestState)
    (s : SchedulerState) : Pruned s (queueHasStateLocked queue state s).2 :=
  Pruned.setDeque (List.dropWhile_sublist _)

/-! ### Events, release and terminalization -/

/-- An event is handed over whole, or not at all. -/
theorem publishBlock_cases (e : ℕ) (kind : SchedulerEventKind) (handle : Option SequenceHandle)
    (tokens : Option ℕ) (errorCode : Option PyStr) (s : SchedulerState) (ans : Answer) :
    (∃ exc, publishBlock e kind handle tokens errorCode s ans = (.error exc, s)) ∨
    ∃ event, event.kind = kind ∧ event.WellFormed ∧
      publishBlock e kind handle tokens errorCode s ans
        = (.ok (), { s with published := s.published ++ [(e, event)] }) := by
  unfold publishBlock
  cases (ans.clock 0).now with
  | error exc => exact .inl ⟨exc, rfl⟩
  | ok now =>
    dsimp only
    rcases hm : SchedulerEvent.make ⟨kind, s.requestId e, now, handle, tokens, errorCode⟩
      with err | event
    · exact .inl ⟨_, rfl⟩
    · dsimp only
      cases ans.sink with
      | some exc => exact .inl ⟨exc, rfl⟩
      | none =>
        obtain ⟨hwf, rfl⟩ := SchedulerEvent.make_ok.mp hm
        exact .inr ⟨_, rfl, hwf, rfl⟩

theorem plain_publishBlock (e : ℕ) (kind : SchedulerEventKind)
    (handle : Option SequenceHandle) (tokens : Option ℕ) (errorCode : Option PyStr)
    (s : SchedulerState) (ans : Answer) : Plain s (publishBlock e kind handle tokens errorCode s ans).2
      ∧ (publishBlock e kind handle tokens errorCode s ans).2.heap = s.heap := by
  rcases publishBlock_cases e kind handle tokens errorCode s ans with
    ⟨exc, heq⟩ | ⟨event, _, _, heq⟩
  · rw [heq]
    exact ⟨.refl s, rfl⟩
  · rw [heq]
    exact ⟨.of_heap rfl rfl (.inl rfl) rfl rfl rfl, rfl⟩

/-- An entry is claimed once, while it is live. -/
theorem claimTerminal_spec (e : ℕ) (result : Option GenerateResult)
    (error : Option InferenceRuntimeError) (s : SchedulerState) (ans : Answer) :
    claimTerminal e result error s ans = (.ok none, s)
      ∧ ((s.entry e).state = TERMINAL ∨ (s.entry e).terminalizing = true) ∨
    claimTerminal e result error s ans = (.ok (some (settle result error)),
        s.modifyEntry e fun x => { x with terminalizing := true })
      ∧ (s.entry e).state ≠ TERMINAL ∧ (s.entry e).terminalizing = false := by
  unfold claimTerminal
  by_cases hc : (s.entry e).state = TERMINAL ∨ (s.entry e).terminalizing
  · rw [if_pos hc]
    exact .inl ⟨rfl, hc⟩
  · rw [if_neg hc]
    push Not at hc
    exact .inr ⟨rfl, hc.1, by simpa using hc.2⟩

/-- The entry as `_terminalize` leaves it. -/
def terminated (outcome : Except InferenceRuntimeError GenerateResult) (x : RequestEntry) :
    RequestEntry :=
  { x with
    state := TERMINAL
    result := outcome.toOption
    error := (match outcome with | .ok _ => none | .error err => some err) }

theorem settled_terminated (outcome : Except InferenceRuntimeError GenerateResult)
    (x : RequestEntry) : (terminated outcome x).Settled := by
  cases outcome with
  | ok r => exact .inl ⟨rfl, rfl⟩
  | error err => exact .inr ⟨rfl, rfl⟩

/-- The entry is settled also when reading the clock for `terminal_at` fails;
its callers are notified only when it does not. -/
theorem commitTerminal_spec (e : ℕ) (outcome : Except InferenceRuntimeError GenerateResult)
    (s : SchedulerState) (ans : Answer) :
    (∃ exc, (ans.clock 0).now = .error exc ∧
      commitTerminal e outcome s ans = (.error exc, s.modifyEntry e (terminated outcome))) ∨
    ∃ now sel, (ans.clock 0).now = .ok now ∧ commitTerminal e outcome s ans
      = (.ok (), { (s.modifyEntry e (terminated outcome)).modifyEntry e
          (fun x => { x with terminalAt := some now }) with selector := sel }.notifyAll) := by
  unfold commitTerminal
  cases (ans.clock 0).now with
  | error exc => exact .inl ⟨exc, rfl, rfl⟩
  | ok now => exact .inr ⟨now, _, rfl, rfl⟩

theorem plain_commitTerminal {e : ℕ} (hl : (s.entry e).state ≠ TERMINAL)
    (outcome : Except InferenceRuntimeError GenerateResult) (ans : Answer) :
    Plain s (commitTerminal e outcome s ans).2 := by
  have hdone : Plain s (s.modifyEntry e (terminated outcome)) := by
    refine .modify s e ⟨⟨rfl, fun h => absurd h hl, fun _ _ => settled_terminated outcome _⟩,
      fun _ => trivial, fun _ => trivial⟩ fun _ => rfl
  rcases commitTerminal_spec e outcome s ans with ⟨exc, _, heq⟩ | ⟨now, sel, _, heq⟩
  · rw [heq]
    exact hdone
  · rw [heq]
    have hstamp := Plain.modify (s.modifyEntry e (terminated outcome)) e
      (f := fun x => { x with terminalAt := some now }) (.of_state rfl rfl rfl rfl) fun _ => rfl
    refine (hdone.trans hstamp).trans ?_
    exact .of_heap rfl rfl (.inr rfl) rfl rfl rfl

theorem releaseBlock_state (handle : SequenceHandle) (s : SchedulerState) (ans : Answer) :
    (releaseBlock handle s ans).2
      = { s with backendCalls := s.backendCalls ++ [.release handle] } := by
  unfold releaseBlock
  cases ans.release with
  | error exc => rfl
  | ok status =>
    dsimp only
    split_ifs <;> rfl

theorem plain_releaseBlock (handle : SequenceHandle) (s : SchedulerState) (ans : Answer) :
    Plain s (releaseBlock handle s ans).2 ∧ (releaseBlock handle s ans).2.heap = s.heap := by
  rw [releaseBlock_state]
  refine ⟨⟨.of_heap rfl rfl (.inl rfl), fun _ => .refl _, fun _ => rfl, .refl _, .refl _,
    fun c hc => ?_⟩, rfl⟩
  rcases List.mem_append.mp hc with hc | hc
  · exact .inl hc
  · rw [List.mem_singleton.mp hc]
    exact .inr trivial

/-! ### Boundaries and opening -/

theorem mem_heap_of_values (h : Coherent s) {e : ℕ} (he : e ∈ s.entries.values) :
    e < s.heap.length ∧ s.entries.get? (s.requestId e) = some e := by
  obtain ⟨⟨id, e'⟩, hmem, rfl⟩ := List.mem_map.mp he
  have hget := Dict.mem_items_iff.mp hmem
  obtain ⟨hlt, hid⟩ := h.registered id e' hget
  exact ⟨hlt, hid ▸ hget⟩

theorem boundaryBlock_spec (h : Coherent s) (now : ℚ) (ans : Answer) :
    boundaryBlock now s ans = (.ok none, s) ∨
    ∃ e err, e < s.heap.length ∧ (s.entry e).state ≠ TERMINAL ∧
      boundaryError s now e = some err ∧
      boundaryBlock now s ans
        = (.ok (some (e, err)), s.modifyEntry e fun x => { x with state := RELEASING }) := by
  unfold boundaryBlock
  rcases hf : s.entries.values.findSome? _ with _ | ⟨e, err⟩
  · exact .inl rfl
  · obtain ⟨e', he', hmap⟩ := List.exists_of_findSome?_eq_some hf
    obtain ⟨err', herr, heq⟩ := Option.map_eq_some_iff.mp hmap
    obtain ⟨rfl, rfl⟩ := Prod.mk.inj heq
    refine .inr ⟨e', err', (mem_heap_of_values h he').1, fun ht => ?_, herr, rfl⟩
    rw [boundaryError, if_pos ht] at herr
    exact absurd herr (by simp)

theorem plain_releasing {e : ℕ} (hl : (s.entry e).state ≠ TERMINAL) :
    Plain s (s.modifyEntry e fun x => { x with state := RELEASING }) :=
  .modify s e ⟨.of_live rfl hl (by simp), fun _ => trivial, fun _ => trivial⟩ fun _ => rfl

/-- What is picked for opening was queued. -/
theorem openPickBlock_spec (h : Coherent s) (ans : Answer) :
    (Pruned s (openPickBlock cfg s ans).2 ∧ ∀ e, (openPickBlock cfg s ans).1 ≠ .ok (some e)) ∨
    ∃ e t, (openPickBlock cfg s ans)
        = (.ok (some e), t.modifyEntry e fun x => { x with state := OPENING })
      ∧ Pruned s t ∧ e < s.heap.length ∧ (s.entry e).state = QUEUED := by
  unfold openPickBlock
  split_ifs
  · exact .inl ⟨.refl s, fun e he => absurd he (by simp)⟩
  obtain ⟨hpop, hsel⟩ := @popStateLocked_spec cfg .queued QUEUED
    (fun x => s.admission.canActivate cfg.limits x.scheduling.requestId) (ans.clock 0)
    (ans.selector 0) s
  rcases hr : popStateLocked cfg .queued QUEUED
      (fun x => s.admission.canActivate cfg.limits x.scheduling.requestId) (ans.clock 0)
      (ans.selector 0) s with ⟨res, t⟩
  rw [hr] at hpop hsel
  rcases res with exc | _ | e
  · exact .inl ⟨hpop, fun e he => absurd he (by simp)⟩
  · exact .inl ⟨hpop, fun e he => absurd he (by simp)⟩
  · obtain ⟨⟨id, _, hget, hstate⟩, _⟩ := hsel e rfl
    exact .inr ⟨e, t, rfl, hpop, (h.registered id e hget).1, hstate⟩

theorem plain_opening {e : ℕ} (hq : (s.entry e).state = QUEUED) :
    Plain s (s.modifyEntry e fun x => { x with state := OPENING }) := by
  refine .modify s e ⟨.of_live rfl (by rw [hq]; decide) (by simp), ?_, ?_⟩ fun _ => rfl
  · rw [hq]
    exact fun h => h
  · rw [hq]
    exact fun h => h

theorem activateBlock_spec (e : ℕ) (s : SchedulerState) (ans : Answer) :
    ∃ admission, (activateBlock e s ans).2 = { s with admission := admission } := by
  unfold activateBlock
  cases ans.reservationTokens with
  | error exc => exact ⟨s.admission, rfl⟩
  | ok reserved =>
    dsimp only
    cases s.admission.activate (s.requestId e) reserved with
    | error exc => exact ⟨s.admission, rfl⟩
    | ok admission => exact ⟨admission, rfl⟩

/-- The entry of a sequence that has been opened. -/
def opened (handle : SequenceHandle) (now deadline : ℚ) (state : RuntimeRequestState)
    (x : RequestEntry) : RequestEntry :=
  { x with
    handle := some handle
    openedAt := some now
    executionDeadline := some deadline
    state := state }

/-- An opened entry is released at once, or made ready for its prefill.  A
failing clock leaves just the handle stored. -/
theorem openCommitBlock_spec (e : ℕ) (handle : SequenceHandle) (s : SchedulerState)
    (ans : Answer) :
    (∃ exc, (ans.clock 0).now = .error exc ∧ openCommitBlock e handle s ans
      = (.error exc, s.modifyEntry e fun x => { x with handle := some handle })) ∨
    ∃ now deadline, (ans.clock 0).now = .ok now ∧
      (openCommitBlock e handle s ans = (.ok true,
          (s.modifyEntry e (opened handle now deadline RELEASING)).notifyAll) ∨
        openCommitBlock e handle s ans = (.ok false,
          { s.modifyEntry e (opened handle now deadline PREFILL) with
              prefill := s.prefill ++ [s.requestId e] }.notifyAll)) := by
  unfold openCommitBlock
  cases (ans.clock 0).now with
  | error exc => exact .inl ⟨exc, rfl, rfl⟩
  | ok now =>
    dsimp only
    generalize executionDeadline _ now = deadline
    refine .inr ⟨now, deadline, rfl, ?_⟩
    -- three updates of one entry make one
    have hcomp : ∀ state, (((s.modifyEntry e fun x => { x with handle := some handle }).modifyEntry e
        fun x => { x with openedAt := some now, executionDeadline := some deadline }).modifyEntry e
        fun x => { x with state := state }) = s.modifyEntry e (opened handle now deadline state) := by
      intro state
      simp only [modifyEntry, List.modify_modify_eq]
      rfl
    have hid : (s.modifyEntry e (opened handle now deadline PREFILL)).requestId e
        = s.requestId e := by
      rw [requestId, entry_modifyEntry]
      split_ifs <;> rfl
    rw [hcomp, hcomp, hid]
    split_ifs
    · exact .inl rfl
    · exact .inr rfl

theorem chooseBatchBlock_spec (s : SchedulerState) (ans : Answer) :
    Pruned s (chooseBatchBlock cfg s ans).2 :=
  (queueHasStateLocked_spec .decode DECODE s).trans (queueHasStateLocked_spec .prefill PREFILL _)

/-! ### Batches -/

theorem setStates_eq (state : RuntimeRequestState) : ∀ (es : List ℕ) (s : SchedulerState),
    setStates state es s = { s with heap := (setStates state es s).heap }
  | [], _ => rfl
  | e :: es, s => setStates_eq state es (s.modifyEntry e fun x => { x with state := state })

theorem length_setStates (state : RuntimeRequestState) : ∀ (es : List ℕ) (s : SchedulerState),
    (setStates state es s).heap.length = s.heap.length
  | [], _ => rfl
  | e :: es, s =>
    (length_setStates state es (s.modifyEntry e fun x => { x with state := state })).trans
      (List.length_modify ..)

theorem entry_setStates (state : RuntimeRequestState) : ∀ (es : List ℕ) (s : SchedulerState) (e : ℕ),
    (setStates state es s).entry e
      = if e ∈ es ∧ e < s.heap.length then { s.entry e with state := state } else s.entry e
  | [], _, _ => by simp [setStates]
  | e' :: es, s, e => by
    have ih := entry_setStates state es (s.modifyEntry e' fun x => { x with state := state }) e
    have hlen : (s.modifyEntry e' fun x => { x with state := state }).heap.length = s.heap.length :=
      List.length_modify ..
    show (setStates state es (s.modifyEntry e' fun x => { x with state := state })).entry e = _
    rw [ih, entry_modifyEntry, hlen]
    by_cases heq : e' = e
    · subst heq
      by_cases hlt : e' < s.heap.length
      · simp [hlt]
      · simp [hlt]
    · simp [heq, Ne.symm heq]

theorem plain_setStates {state : RuntimeRequestState} {es : List ℕ}
    (h : ∀ e ∈ es, (s.entry e).state ≠ TERMINAL ∧
      ((s.entry e).state.Started → state.Started) ∧
      ((s.entry e).state.PastPrefill → state.PastPrefill)) (hstate : state ≠ TERMINAL) :
    Plain s (setStates state es s) := by
  have hframe := setStates_eq state es s
  have hentry : ∀ e, (s.entry e).Proceeds ((setStates state es s).entry e) := by
    intro e
    rw [entry_setStates]
    split_ifs with hc
    · obtain ⟨hl, hst, hpast⟩ := h e hc.1
      exact ⟨.of_live rfl hl hstate, hst, hpast⟩
    · exact .refl _
  refine ⟨⟨length_setStates state es s, fun e => (hentry e).toAdvances, ?_, ?_⟩, hentry,
    fun e => ?_, ?_, ?_, ?_⟩
  · rw [hframe]
  · rw [hframe]
    exact .inl rfl
  · rw [entry_setStates]
    split_ifs <;> rfl
  · rw [hframe]
  · rw [hframe]
  · rw [hframe]
    exact fun c hc => .inl hc

theorem prefillSteps_spec (maxTokens : ℕ) (s : SchedulerState) :
    ∀ (candidates : List ℕ) (remaining : ℤ),
      ((prefillSteps maxTokens s candidates remaining).map Prod.fst).Sublist candidates ∧
      ∀ p ∈ prefillSteps maxTokens s candidates remaining,
        (s.entry p.1).handle = some p.2.handle := by
  intro candidates
  induction candidates with
  | nil => exact fun _ => ⟨.refl _, fun p hp => absurd hp (by simp [prefillSteps])⟩
  | cons e rest ih =>
    intro remaining
    rw [prefillSteps]
    cases hh : (s.entry e).handle with
    | none =>
      obtain ⟨hsub, hmem⟩ := ih remaining
      exact ⟨hsub.cons e, hmem⟩
    | some handle =>
      dsimp only
      obtain ⟨hsub, hmem⟩ := ih (remaining - min (maxTokens : ℤ)
        (max 1 (remaining / max 1 ((rest.length : ℤ) + 1))))
      refine ⟨hsub.cons_cons e, fun p hp => ?_⟩
      rcases List.mem_cons.mp hp with rfl | hp
      · exact hh
      · exact hmem p hp

/-- What a batch is made of: entries the deque stood for, with their handles. -/
structure Picked (s t : SchedulerState) (queue : Queue) (state : RuntimeRequestState)
    (selected : List ℕ) (pairs : List (ℕ × SequenceStep)) : Prop where
  pruned : Pruned s t
  inHeap : ∀ e ∈ selected, e < s.heap.length
  state : ∀ e ∈ selected, (s.entry e).state = state
  nodup : (s.deque queue).Nodup → selected.Nodup ∧ ∀ e ∈ selected, s.requestId e ∉ t.deque queue
  pairs_sub : (pairs.map Prod.fst).Sublist selected
  handle : ∀ p ∈ pairs, (s.entry p.1).handle = some p.2.handle

theorem prefillTakeBlock_spec (h : Coherent s) (ans : Answer) :
    (∃ exc t, prefillTakeBlock cfg s ans = (.error exc, t) ∧ Pruned s t) ∨
    ∃ picked t, prefillTakeBlock cfg s ans
        = (.ok picked, setStates PREFILL_INFLIGHT (picked.map Prod.fst) t) ∧
      Picked s t .prefill PREFILL (picked.map Prod.fst) picked := by
  unfold prefillTakeBlock
  obtain ⟨hprune, hok⟩ := @takeStateLocked_spec cfg .prefill PREFILL ans
    cfg.capabilities.maxSequencesPerStep 0 s
  rcases hr : takeStateLocked cfg .prefill PREFILL ans cfg.capabilities.maxSequencesPerStep 0 s
    with ⟨res, t⟩
  rw [hr] at hprune hok
  rcases res with exc | candidates
  · exact .inl ⟨exc, t, rfl, hprune⟩
  obtain ⟨hstands, hnd⟩ := hok candidates rfl
  obtain ⟨hsub, hhandle⟩ := prefillSteps_spec cfg.capabilities.maxPrefillTokensPerStep t candidates
    (cfg.tickTokenBudget : ℤ)
  refine .inr ⟨_, t, rfl, hprune, ?_, ?_, ?_, .refl _, ?_⟩
  · intro e he
    obtain ⟨id, _, hget, _⟩ := hstands e (hsub.subset he)
    exact (h.registered id e hget).1
  · intro e he
    obtain ⟨id, _, _, hstate⟩ := hstands e (hsub.subset he)
    exact hstate
  · intro hdeque
    obtain ⟨hnodup, hout⟩ := hnd h hdeque
    exact ⟨hsub.nodup hnodup, fun e he => hout e (hsub.subset he)⟩
  · intro p hp
    rw [← entry_congr hprune.heap]
    exact hhandle p hp

theorem decodeTakeBlock_spec (h : Coherent s) (ans : Answer) :
    (∃ exc t, decodeTakeBlock cfg s ans = (.error exc, t) ∧ Pruned s t) ∨
    ∃ selected pairs t, decodeTakeBlock cfg s ans = (.ok (selected, pairs.map Prod.snd),
        setStates DECODE_INFLIGHT (selected.filter fun e => (s.entry e).handle.isSome) t) ∧
      Picked s t .decode DECODE selected pairs := by
  unfold decodeTakeBlock
  dsimp only
  generalize min cfg.capabilities.maxSequencesPerStep cfg.tickTokenBudget = limit
  obtain ⟨hprune, hok⟩ := @takeStateLocked_spec cfg .decode DECODE ans limit 0 s
  rcases hr : takeStateLocked cfg .decode DECODE ans limit 0 s with ⟨res, t⟩
  rw [hr] at hprune hok
  rcases res with exc | selected
  · exact .inl ⟨exc, t, rfl, hprune⟩
  obtain ⟨hstands, hnd⟩ := hok selected rfl
  dsimp only
  generalize min cfg.capabilities.maxDecodeTokensPerStep _ = quantum
  have hentry : ∀ e, t.entry e = s.entry e := fun e => entry_congr hprune.heap
  let pair : ℕ → Option (ℕ × SequenceStep) :=
    fun e => (s.entry e).handle.map fun handle => (e, ⟨handle, quantum⟩)
  refine .inr ⟨selected, selected.filterMap pair, t, ?_, hprune, ?_, ?_, fun hdeque => hnd h hdeque,
    ?_, ?_⟩
  · have hsteps : selected.filterMap (fun e => (t.entry e).handle.map
        fun handle => (⟨handle, quantum⟩ : SequenceStep))
        = (selected.filterMap pair).map Prod.snd := by
      rw [List.map_filterMap]
      refine List.filterMap_congr fun e _ => ?_
      rw [hentry, Option.map_map]
      rfl
    rw [hsteps]
    simp only [hentry]
  · intro e he
    obtain ⟨id, _, hget, _⟩ := hstands e he
    exact (h.registered id e hget).1
  · intro e he
    obtain ⟨id, _, _, hstate⟩ := hstands e he
    exact hstate
  · rw [List.map_filterMap]
    have hfst : (fun e => (pair e).map Prod.fst)
        = Option.guard fun e => (s.entry e).handle.isSome := by
      funext e
      cases hh : (s.entry e).handle <;> simp [pair, hh, Option.guard]
    rw [hfst, List.filterMap_eq_filter]
    exact List.filter_sublist
  · intro p hp
    obtain ⟨e, _, he⟩ := List.mem_filterMap.mp hp
    obtain ⟨handle, hh, rfl⟩ := Option.map_eq_some_iff.mp he
    exact hh

/-! ### Outcomes -/

/-- An entry takes a new value, and joins the deque its state asks for or none. -/
structure Outcome (s t : SchedulerState) (e : ℕ) (y : RequestEntry) : Prop where
  heap : t.heap = s.heap.modify e fun _ => y
  frame : t = { s with heap := t.heap, prefill := t.prefill, decode := t.decode }
  deques : (t.prefill = s.prefill ∧ t.decode = s.decode ∧ y.state = RELEASING) ∨
    (y.state = DECODE ∧ t.prefill = s.prefill ∧ t.decode = s.decode ++ [s.requestId e]) ∨
    (y.state = PREFILL ∧ t.prefill = s.prefill ++ [s.requestId e] ∧ t.decode = s.decode)

theorem requestId_modifyEntry (s : SchedulerState) (e : ℕ) {f : RequestEntry → RequestEntry}
    (hf : ∀ x, (f x).scheduling = x.scheduling) :
    (s.modifyEntry e f).requestId e = s.requestId e := by
  rw [requestId, entry_modifyEntry]
  split_ifs
  · rw [hf]
    rfl
  · rfl

/-- The entry after its outcome of a prefill batch. -/
def afterPrefill (x : RequestEntry) (outcome : PrefillOutcome) : RequestEntry :=
  if x.handle ≠ some outcome.handle then
    { x with
      state := RELEASING
      error := some (mkError "protocol_violation" "prefill outcome handle mismatch" true) }
  else { x with state := match outcome.status with | .READY => DECODE | .PARTIAL => PREFILL }

theorem applyPrefillOutcome_spec (s : SchedulerState) (e : ℕ) (outcome : PrefillOutcome) :
    Outcome s (applyPrefillOutcome s e outcome) e (afterPrefill (s.entry e) outcome) := by
  by_cases hh : (s.entry e).handle ≠ some outcome.handle
  · rw [applyPrefillOutcome, if_pos hh, afterPrefill, if_pos hh]
    exact ⟨heap_modify_const s e _, rfl, .inl ⟨rfl, rfl, rfl⟩⟩
  · have hid : ∀ state, (s.modifyEntry e fun x => { x with state := state }).requestId e
        = s.requestId e := fun state => requestId_modifyEntry s e fun _ => rfl
    cases hst : outcome.status with
    | READY =>
      rw [applyPrefillOutcome, if_neg hh, afterPrefill, if_neg hh, hst]
      refine ⟨heap_modify_const s e _, rfl, .inr (.inl ⟨rfl, rfl, ?_⟩)⟩
      exact congrArg (fun id => s.decode ++ [id]) (hid DECODE)
    | PARTIAL =>
      rw [applyPrefillOutcome, if_neg hh, afterPrefill, if_neg hh, hst]
      refine ⟨heap_modify_const s e _, rfl, .inr (.inr ⟨rfl, ?_, rfl⟩)⟩
      exact congrArg (fun id => s.prefill ++ [id]) (hid PREFILL)

/-- The entry after the outcome of a decode batch that counts for it. -/
def afterDecode (x : RequestEntry) (outcome : DecodeOutcome) : RequestEntry :=
  { x with
    finalDeltas :=
      if outcome.textDelta = [] then x.finalDeltas else x.finalDeltas ++ [outcome.textDelta]
    state := match outcome.status with | .PROGRESSED => DECODE | _ => RELEASING }

theorem applyDecodeOutcome_spec (s : SchedulerState) (e : ℕ) (outcome : DecodeOutcome) :
    Outcome s (applyDecodeOutcome s e outcome) e (afterDecode (s.entry e) outcome) := by
  -- the deltas and the state in one update
  have hcomp : ∀ state, (if outcome.textDelta = [] then s else s.modifyEntry e fun x =>
        { x with finalDeltas := x.finalDeltas ++ [outcome.textDelta] }).modifyEntry e
        (fun x => { x with state := state })
      = s.modifyEntry e fun x => { x with
          finalDeltas := if outcome.textDelta = [] then x.finalDeltas
            else x.finalDeltas ++ [outcome.textDelta]
          state := state } := by
    intro state
    by_cases ht : outcome.textDelta = []
    · simp only [if_pos ht]
    · simp only [if_neg ht, modifyEntry, List.modify_modify_eq]
      rfl
  have hdecode : (if outcome.textDelta = [] then s else s.modifyEntry e fun x =>
      { x with finalDeltas := x.finalDeltas ++ [outcome.textDelta] }).decode = s.decode := by
    split_ifs <;> rfl
  unfold applyDecodeOutcome
  cases hst : outcome.status with
  | PROGRESSED =>
    dsimp only
    rw [hcomp]
    have hval : afterDecode (s.entry e) outcome = { s.entry e with
        finalDeltas := if outcome.textDelta = [] then (s.entry e).finalDeltas
          else (s.entry e).finalDeltas ++ [outcome.textDelta]
        state := DECODE } := by rw [afterDecode, hst]
    rw [hval]
    refine ⟨heap_modify_const s e _, rfl, .inr (.inl ⟨rfl, rfl, ?_⟩)⟩
    exact congrArg (fun id => s.decode ++ [id]) (requestId_modifyEntry s e fun _ => rfl)
  | FINISHED =>
    dsimp only
    rw [hcomp, afterDecode, hst]
    exact ⟨heap_modify_const s e _, rfl, .inl ⟨rfl, rfl, rfl⟩⟩
  | FAILED =>
    dsimp only
    rw [hcomp, afterDecode, hst]
    exact ⟨heap_modify_const s e _, rfl, .inl ⟨rfl, rfl, rfl⟩⟩

/-- Applying one outcome leaves the other entries alone. -/
theorem Outcome.entry_ne {s t : SchedulerState} {e e' : ℕ} {y : RequestEntry}
    (h : Outcome s t e y) (hne : e ≠ e') : t.entry e' = s.entry e' := entry_modify_ne h.heap hne

theorem Outcome.length {s t : SchedulerState} {e : ℕ} {y : RequestEntry} (h : Outcome s t e y) :
    t.heap.length = s.heap.length := length_modify h.heap

/-- Two outcomes touch what one touches. -/
theorem Outcome.frame_trans {s t u : SchedulerState} {e : ℕ} {y : RequestEntry}
    (h : Outcome s t e y)
    (hrest : u = { t with heap := u.heap, prefill := u.prefill, decode := u.decode }) :
    u = { s with heap := u.heap, prefill := u.prefill, decode := u.decode } := by
  rw [h.frame] at hrest
  exact hrest

theorem foldl_applyPrefill_frame : ∀ (pairs : List (ℕ × PrefillOutcome)) (s : SchedulerState),
    let t := pairs.foldl (fun s p => applyPrefillOutcome s p.1 p.2) s
    t = { s with heap := t.heap, prefill := t.prefill, decode := t.decode }
  | [], _ => rfl
  | (e, outcome) :: rest, s =>
    (applyPrefillOutcome_spec s e outcome).frame_trans (foldl_applyPrefill_frame rest _)

theorem applyDecodeLoop_frame : ∀ (pairs : List (ℕ × DecodeOutcome)) (s : SchedulerState),
    let t := (applyDecodeLoop pairs s).2
    t = { s with heap := t.heap, prefill := t.prefill, decode := t.decode }
  | [], _ => rfl
  | (e, outcome) :: rest, s => by
    rw [applyDecodeLoop]
    cases checkedOutcome (s.entry e) outcome with
    | error exc => rfl
    | ok counted =>
      have hrest := applyDecodeLoop_frame rest (applyDecodeOutcome s e counted)
      dsimp only at hrest ⊢
      generalize applyDecodeLoop rest (applyDecodeOutcome s e counted) = loop at hrest ⊢
      rcases loop with ⟨exc | done, t⟩
      · exact (applyDecodeOutcome_spec s e counted).frame_trans hrest
      · exact (applyDecodeOutcome_spec s e counted).frame_trans hrest

theorem afterPrefill_spec (x : RequestEntry) (outcome : PrefillOutcome) :
    (afterPrefill x outcome).scheduling = x.scheduling ∧
    (afterPrefill x outcome).handle = x.handle ∧
    (afterPrefill x outcome).state.Started ∧ (afterPrefill x outcome).state ≠ TERMINAL := by
  unfold afterPrefill
  split_ifs
  · exact ⟨rfl, rfl, trivial, by simp⟩
  · refine ⟨rfl, rfl, ?_, ?_⟩
    · cases outcome.status <;> trivial
    · cases outcome.status <;> simp

theorem afterDecode_spec (x : RequestEntry) (outcome : DecodeOutcome) :
    (afterDecode x outcome).scheduling = x.scheduling ∧
    (afterDecode x outcome).handle = x.handle ∧
    (afterDecode x outcome).state.Started ∧ (afterDecode x outcome).state.PastPrefill ∧
    (afterDecode x outcome).state ≠ TERMINAL := by
  refine ⟨rfl, rfl, ?_, ?_, ?_⟩ <;> unfold afterDecode <;> cases outcome.status <;>
    first | trivial | simp

/-- Outcomes are paired with the entries of a batch in order. -/
theorem map_fst_zip_sublist {α : Type} : ∀ (es : List ℕ) (outcomes : List α),
    ((es.zip outcomes).map Prod.fst).Sublist es
  | [], _ => .refl _
  | _ :: _, [] => List.nil_sublist _
  | e :: es, _ :: outcomes => (map_fst_zip_sublist es outcomes).cons_cons e

/-- Each entry of a prefill batch gets its own outcome. -/
theorem entry_foldl_applyPrefill : ∀ (pairs : List (ℕ × PrefillOutcome)) (s : SchedulerState),
    (pairs.map Prod.fst).Nodup → (∀ p ∈ pairs, p.1 < s.heap.length) →
    let t := pairs.foldl (fun s p => applyPrefillOutcome s p.1 p.2) s
    (∀ p ∈ pairs, t.entry p.1 = afterPrefill (s.entry p.1) p.2) ∧
      (∀ e ∉ pairs.map Prod.fst, t.entry e = s.entry e) ∧ t.heap.length = s.heap.length
  | [], _, _, _ => ⟨fun _ h => absurd h (by simp), fun _ _ => rfl, rfl⟩
  | (e, outcome) :: rest, s, hnd, hlt => by
    have hone := applyPrefillOutcome_spec s e outcome
    rw [List.map_cons, List.nodup_cons] at hnd
    obtain ⟨h1, h2, h3⟩ := entry_foldl_applyPrefill rest (applyPrefillOutcome s e outcome) hnd.2
      fun p hp => hone.length.symm ▸ hlt p (List.mem_cons_of_mem _ hp)
    refine ⟨fun p hp => ?_, fun e' he' => ?_, h3.trans hone.length⟩
    · rcases List.mem_cons.mp hp with rfl | hp
      · exact (h2 e hnd.1).trans (entry_modify_self hone.heap (hlt _ List.mem_cons_self))
      · have hne : e ≠ p.1 := fun heq => hnd.1 (heq ▸ List.mem_map.mpr ⟨p, hp, rfl⟩)
        exact (h1 p hp).trans (by rw [hone.entry_ne hne])
    · rw [List.map_cons, List.mem_cons, not_or] at he'
      exact (h2 e' he'.2).trans (hone.entry_ne (Ne.symm he'.1))

/-! ### The end of the loop -/

theorem hasImmediateWorkLocked_spec (now : ℚ) (s : SchedulerState) :
    Pruned s (hasImmediateWorkLocked cfg now s).2 := by
  have hprefill := queueHasStateLocked_spec .prefill PREFILL s
  have hdecode := queueHasStateLocked_spec .decode DECODE (queueHasStateLocked .prefill PREFILL s).2
  unfold hasImmediateWorkLocked
  dsimp only
  split_ifs
  · exact .refl s
  · exact hprefill
  · exact hprefill.trans hdecode
  · exact hprefill.trans hdecode

theorem idleBlock_spec (s : SchedulerState) (ans : Answer) :
    (s.liveEntries = [] ∧ idleBlock cfg s ans = (.ok false, { s with stopped := true }.notifyAll)) ∨
    Pruned s (idleBlock cfg s ans).2 := by
  unfold idleBlock
  by_cases hstop : s.stopping ∧ s.liveEntries = []
  · rw [if_pos hstop]
    exact .inl ⟨hstop.2, rfl⟩
  rw [if_neg hstop]
  refine .inr ?_
  cases (ans.clock 0).now with
  | error exc => exact .refl s
  | ok now =>
    have hwork := @hasImmediateWorkLocked_spec cfg now s
    dsimp only
    rcases hr : hasImmediateWorkLocked cfg now s with ⟨work, t⟩
    rw [hr] at hwork
    cases work with
    | true => exact hwork
    | false =>
      cases (ans.clock 1).now with
      | error exc => exact hwork
      | ok _ => exact hwork

end ContinuousBatchScheduler

end Inference
