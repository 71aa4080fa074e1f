/-
What the reference scheduler releases, in a run.

* `Consistent`, `run_consistent` — every entry is what its trace says, and the handles that
  are held are counted;
* `ReleasesAll` — every handle is released once, before the terminal event of its request, and
  few are held;
* `releases_iff` — it holds if and only if the backend gives no handle that is refused.
-/
import LlamaRuntime.Inference.SimulatorReleases
import Mathlib.Data.List.Induction
import Mathlib.Data.List.Pairwise

namespace Inference.Simulator

variable {caps : Capabilities} {policy : Policy} {answers : Answers} {s : Simulator}
  {entry : Entry} {l m trace : List Trace}

/-- The handles that were returned and not passed to `release`. -/
def held (trace : List Trace) : List SequenceHandle :=
  (returnedIn trace).filter fun handle => handle ∉ releasedIn trace

theorem mem_returnedIn {handle : SequenceHandle} :
    handle ∈ returnedIn trace ↔ ∃ requestId, .returned requestId handle ∈ trace := by
  unfold returnedIn
  rw [List.mem_filterMap]
  constructor
  · rintro ⟨item, hitem, hreturned⟩
    cases item with
    | returned requestId k =>
      obtain rfl := Option.some_inj.mp hreturned
      exact ⟨requestId, hitem⟩
    | release => cases hreturned
    | event => cases hreturned
  · rintro ⟨requestId, hitem⟩
    exact ⟨_, hitem, rfl⟩

theorem mem_itemsOf {item : Trace} (h : item ∈ trace) : item ∈ itemsOf item.requestId trace :=
  List.mem_filter.mpr ⟨h, by simp⟩

/-- More is held only by what was returned since. -/
theorem held_append_le (l m : List Trace) :
    (held (l ++ m)).length ≤ (held l).length + (returnedIn m).length := by
  unfold held
  rw [returnedIn_append, List.filter_append, List.length_append]
  have hbefore : ((returnedIn l).filter fun handle => handle ∉ releasedIn (l ++ m)).Sublist
      ((returnedIn l).filter fun handle => handle ∉ releasedIn l) := by
    refine List.monotone_filter_right _ fun handle hnot => ?_
    rw [releasedIn_append] at hnot
    simp only [List.mem_append, not_or, decide_eq_true_eq] at hnot ⊢
    exact hnot.1
  have hafter := List.length_filter_le (fun handle => decide (handle ∉ releasedIn (l ++ m)))
    (returnedIn m)
  have := hbefore.length_le
  omega

/-- At every moment of the trace. -/
def HeldAtMost (cap : ℕ) (trace : List Trace) : Prop :=
  ∀ pre, pre <+: trace → (held pre).length ≤ cap

theorem HeldAtMost.append {cap : ℕ} (h : HeldAtMost cap l)
    (hm : (held l).length + (returnedIn m).length ≤ cap) : HeldAtMost cap (l ++ m) := by
  intro pre hpre
  obtain ⟨rest, hrest⟩ := hpre
  rcases List.append_eq_append_iff.mp hrest with ⟨p, hl, -⟩ | ⟨p, rfl, rfl⟩
  · exact h pre ⟨p, hl.symm⟩
  · have hlength := held_append_le l p
    rw [returnedIn_append, List.length_append] at hm
    omega

/-! ### Every entry -/

structure Consistent (caps : Capabilities) (s : Simulator) : Prop where
  distinct : (s.entries.map Entry.requestId).Nodup
  owned : ∀ entry ∈ s.entries, Owned caps entry (itemsOf entry.requestId s.trace)
  known : ∀ item ∈ s.trace, item.requestId ∈ s.entries.map Entry.requestId
  bounded : (∀ handle ∈ returnedIn s.trace, caps.matches handle) →
    HeldAtMost caps.maxConcurrentSequences s.trace

namespace Consistent

theorem entry_of (h : Consistent caps s) {requestId : PyStr} {handle : SequenceHandle}
    (hitem : .returned requestId handle ∈ s.trace) : ∃ entry ∈ s.entries,
      entry.requestId = requestId ∧ handle ∈ returnedIn (itemsOf requestId s.trace) := by
  obtain ⟨entry, hentry, hrequest⟩ := List.mem_map.mp (h.known _ hitem)
  exact ⟨entry, hentry, hrequest, mem_returnedIn.mpr ⟨requestId, mem_itemsOf hitem⟩⟩

/-- The handle of an entry is one that was returned for it. -/
theorem returned_of (h : Consistent caps s) (hentry : entry ∈ s.entries) {handle : SequenceHandle}
    (hhandle : entry.handle = some handle) : .returned entry.requestId handle ∈ s.trace := by
  have hreturned := ((h.owned entry hentry).stored handle hhandle).2
  have hmem : handle ∈ returnedIn (itemsOf entry.requestId s.trace) := by
    rw [hreturned]
    exact List.mem_singleton_self handle
  obtain ⟨requestId, hitem⟩ := mem_returnedIn.mp hmem
  have hown : requestId = entry.requestId := of_decide_eq_true (List.mem_filter.mp hitem).2
  rw [← hown]
  exact (List.mem_filter.mp hitem).1

/-- A handle that was not returned before is not in use. -/
theorem not_inUse (h : Consistent caps s) {handle : SequenceHandle}
    (hnew : handle ∉ returnedIn s.trace) (entry : Entry) : s.inUse entry handle = false := by
  unfold inUse
  rw [List.any_eq_false]
  intro other hother hused
  have hmem : other ∈ s.entries := (List.mem_filter.mp hother).1
  simp only [Bool.and_eq_true, decide_eq_true_eq] at hused
  exact hnew (mem_returnedIn.mpr ⟨_, h.returned_of hmem hused.2⟩)

/-- What is held is what the scheduler counts as active. -/
theorem held_le (h : Consistent caps s) (hnodup : (returnedIn s.trace).Nodup)
    (hmatches : ∀ handle ∈ returnedIn s.trace, caps.matches handle) :
    (held s.trace).length ≤ s.activeHandles := by
  have hsubset : held s.trace ⊆
      (s.activeEntries.filter fun entry => entry.handle.isSome && !entry.releaseAttempted).filterMap
        Entry.handle := by
    intro handle hheld
    obtain ⟨hreturned, hnot⟩ := List.mem_filter.mp hheld
    obtain ⟨requestId, hitem⟩ := mem_returnedIn.mp hreturned
    obtain ⟨entry, hentry, rfl, hown⟩ := h.entry_of hitem
    have howned := h.owned entry hentry
    have hhandle : entry.handle = some handle := by
      cases hstored : entry.handle with
      | none => exact absurd (hmatches handle hreturned) (howned.refused hstored handle hown)
      | some k =>
        rw [(howned.stored k hstored).2, List.mem_singleton] at hown
        rw [hown]
    have hattempted : entry.releaseAttempted = false := by
      by_contra hattempted
      have hreleased := howned.released
      rw [if_pos (by simpa using hattempted), hhandle] at hreleased
      have hmem : handle ∈ releasedIn (itemsOf entry.requestId s.trace) := by
        rw [hreleased]
        exact List.mem_singleton_self handle
      exact of_decide_eq_true hnot ((List.filter_sublist.filterMap Trace.released?).subset hmem)
    have hlive : entry.lifecycle ≠ .TERMINAL := by
      intro hterminal
      have hsettled := howned.settled hterminal (Option.isSome_of_eq_some hhandle)
      rw [hattempted] at hsettled
      cases hsettled
    refine List.mem_filterMap.mpr ⟨entry, List.mem_filter.mpr ⟨List.mem_filter.mpr ⟨hentry, ?_⟩, ?_⟩, hhandle⟩
    · simpa using hlive
    · simp [hhandle, hattempted]
  have hheld : (held s.trace).Nodup := hnodup.filter _
  have hlength := hheld.length_le_of_subset hsubset
  unfold activeHandles
  rw [List.countP_eq_length_filter]
  exact hlength.trans (List.length_filterMap_le _ _)

end Consistent

/-! ### The calls -/

theorem itemsOf_eq_self {requestId : PyStr} (h : ∀ item ∈ m, item.requestId = requestId) :
    itemsOf requestId m = m :=
  List.filter_eq_self.mpr fun item hitem => decide_eq_true (h item hitem)

theorem itemsOf_eq_nil {requestId requestId' : PyStr} (h : ∀ item ∈ m, item.requestId = requestId)
    (hne : requestId ≠ requestId') : itemsOf requestId' m = [] :=
  List.filter_eq_nil_iff.mpr fun item hitem hown =>
    hne ((h item hitem).symm.trans (of_decide_eq_true hown))

theorem replace_requestIds (s : Simulator) (served : Served) :
    (s.replace served).entries.map Entry.requestId = s.entries.map Entry.requestId := by
  show (s.entries.map _).map Entry.requestId = _
  rw [List.map_map]
  refine List.map_congr_left fun other _ => ?_
  dsimp only [Function.comp_apply]
  split_ifs with hsame
  · exact hsame.symm
  · rfl

/-- What was done for one entry leaves the others as they are. -/
theorem Consistent.replace (h : Consistent caps s) (hentry : entry ∈ s.entries) {served : Served}
    (howned : Owned caps served.entry (itemsOf entry.requestId s.trace ++ served.trace))
    (hrequest : served.entry.requestId = entry.requestId)
    (hbounded : (∀ handle ∈ returnedIn s.trace, caps.matches handle) →
      (held s.trace).length + (returnedIn served.trace).length ≤ caps.maxConcurrentSequences) :
    Consistent caps (s.replace served) := by
  have hown : ∀ item ∈ served.trace, item.requestId = entry.requestId := fun item hitem =>
    (howned.own item (List.mem_append_right _ hitem)).trans hrequest
  constructor
  · rw [replace_requestIds]
    exact h.distinct
  · intro other hother
    obtain ⟨before, hbefore, hother⟩ := List.mem_map.mp hother
    show Owned caps other (itemsOf other.requestId (s.trace ++ served.trace))
    rw [itemsOf_append]
    split_ifs at hother with hsame
    · rw [← hother, hrequest, itemsOf_eq_self hown]
      exact howned
    · rw [← hother, itemsOf_eq_nil hown fun heq => hsame (heq.symm.trans hrequest.symm),
        List.append_nil]
      exact h.owned before hbefore
  · intro item hitem
    rw [replace_requestIds]
    rcases List.mem_append.mp hitem with hitem | hitem
    · exact h.known item hitem
    · rw [hown item hitem]
      exact List.mem_map_of_mem hentry
  · intro hmatches
    have hbefore : ∀ handle ∈ returnedIn s.trace, caps.matches handle := fun handle hhandle =>
      hmatches handle (by
        show handle ∈ returnedIn (s.trace ++ served.trace)
        rw [returnedIn_append]
        exact List.mem_append_left _ hhandle)
    exact (h.bounded hbefore).append (hbounded hbefore)

theorem Consistent.held_le_cap (h : Consistent caps s)
    (hmatches : ∀ handle ∈ returnedIn s.trace, caps.matches handle) :
    (held s.trace).length ≤ caps.maxConcurrentSequences :=
  h.bounded hmatches s.trace (List.prefix_refl _)

/-- Ending a request, as `cancel` and the deadlines do -/
theorem consistent_terminalize (h : Consistent caps s) (hentry : entry ∈ s.entries)
    (answers : Answers) (termination : Termination) (errorCode : Option PyStr) :
    Consistent caps (s.replace (terminalize answers s.now termination errorCode entry)) := by
  obtain ⟨howned, hrequest⟩ :=
    terminalize_owned (h.owned entry hentry).toRecorded answers s.now termination errorCode
  refine h.replace hentry howned hrequest fun hmatches => ?_
  rw [terminalize_returned]
  exact h.held_le_cap hmatches

/-- A new entry, of which events are told that end nothing -/
theorem owned_new (hadmitted : entry.lifecycle = .ADMITTED) (hnone : entry.handle = none)
    (hattempted : entry.releaseAttempted = false) (hm : ∀ item ∈ m, Told entry.requestId item) :
    Owned caps entry m := by
  have hlive : entry.lifecycle ≠ .TERMINAL := by
    rw [hadmitted]
    decide
  have hrecorded : Recorded caps entry [] := by
    constructor
    · exact fun item hitem => (nomatch hitem)
    · intro handle hhandle
      rw [hnone] at hhandle
      cases hhandle
    · exact fun _ handle hhandle => (nomatch hhandle)
    · rw [hattempted]
      rfl
    · intro htrue
      rw [hattempted] at htrue
      cases htrue
    · exact fun _ => hnone
    · exact fun hne => absurd hadmitted hne
    · exact fun _ item hitem => (nomatch hitem)
    · exact fun hterminal => absurd hterminal hlive
    · exact fun hterminal => absurd hterminal hlive
  refine ⟨hrecorded.tell hlive hm, fun _ => ?_⟩
  exact List.filterMap_eq_nil_iff.mpr fun item hitem => (hm item hitem).returned

theorem Consistent.add (h : Consistent caps s) {s' : Simulator}
    (hnew : entry.requestId ∉ s.entries.map Entry.requestId)
    (howned : Owned caps entry m) (hm : ∀ item ∈ m, Told entry.requestId item)
    (hentries : s'.entries = s.entries ++ [entry]) (htrace : s'.trace = s.trace ++ m) :
    Consistent caps s' := by
  have hreturned : returnedIn m = [] :=
    List.filterMap_eq_nil_iff.mpr fun item hitem => (hm item hitem).returned
  constructor
  · rw [hentries, List.map_append]
    refine h.distinct.append (List.nodup_singleton _) fun requestId hold hadded => ?_
    rw [List.mem_singleton.mp hadded] at hold
    exact hnew hold
  · intro other hother
    rw [hentries] at hother
    rw [htrace, itemsOf_append]
    rcases List.mem_append.mp hother with hother | hother
    · rw [itemsOf_eq_nil (fun item hitem => (hm item hitem).requestId), List.append_nil]
      · exact h.owned other hother
      · intro heq
        rw [heq] at hnew
        exact hnew (List.mem_map_of_mem hother)
    · obtain rfl := List.mem_singleton.mp hother
      have hnone : itemsOf other.requestId s.trace = [] := by
        refine List.filter_eq_nil_iff.mpr fun item hitem hown => hnew ?_
        rw [← of_decide_eq_true hown]
        exact h.known item hitem
      rw [hnone, List.nil_append, itemsOf_eq_self fun item hitem => (hm item hitem).requestId]
      exact howned
  · intro item hitem
    rw [htrace] at hitem
    rw [hentries, List.map_append]
    rcases List.mem_append.mp hitem with hitem | hitem
    · exact List.mem_append_left _ (h.known item hitem)
    · rw [(hm item hitem).requestId]
      exact List.mem_append_right _ (List.mem_singleton_self _)
  · intro hmatches
    rw [htrace, returnedIn_append, hreturned, List.append_nil] at hmatches
    rw [htrace]
    refine (h.bounded hmatches).append ?_
    rw [hreturned]
    exact h.held_le_cap hmatches

theorem consistent_admit (h : Consistent caps s) (scheduling : SchedulingMetadata) :
    Consistent caps (s.admitRequest caps policy scheduling).2 := by
  unfold admitRequest
  split
  · exact h
  · next hnew =>
    split
    · exact h
    · split_ifs
      · exact h
      · exact h
      · have htold := @told_published s.now { scheduling, order := s.nextOrder, admittedAt := s.now }
          .ADMITTED none scheduling.requestId rfl (by decide) (by decide)
        have howned : Owned caps { scheduling, order := s.nextOrder, admittedAt := s.now } _ :=
          owned_new rfl rfl rfl htold
        refine h.add ?_ howned htold rfl rfl
        exact hnew

/-- The deadlines: each entry is there to be ended, since those before it were others. -/
theorem consistent_expire (answers : Answers) {entries : List Entry}
    (hdistinct : (entries.map Entry.requestId).Nodup) (h : Consistent caps s)
    (hentries : ∀ entry ∈ entries, entry ∈ s.entries) :
    Consistent caps (expire answers entries s).2 := by
  induction entries generalizing s with
  | nil => exact h
  | cons entry entries ih =>
    rw [List.map_cons, List.nodup_cons] at hdistinct
    have hentry := hentries entry List.mem_cons_self
    have hrest := fun other hother => hentries other (List.mem_cons_of_mem _ hother)
    unfold expire
    split_ifs
    · have hended := consistent_terminalize h hentry answers .DEADLINE_EXCEEDED
        (some (py "deadline_exceeded"))
      have hrequest := (terminalize_owned (h.owned entry hentry).toRecorded answers s.now
        .DEADLINE_EXCEEDED (some (py "deadline_exceeded"))).2
      dsimp only
      split_ifs
      · exact hended
      · refine ih hdistinct.2 hended fun other hother => ?_
        refine List.mem_map.mpr ⟨other, hrest other hother, if_neg fun hsame => ?_⟩
        rw [hrequest] at hsame
        exact hdistinct.1 (hsame ▸ List.mem_map_of_mem hother)
    · exact ih hdistinct.2 h hrest

theorem consistent_cancel (h : Consistent caps s) (requestId : PyStr) (answers : Answers) :
    Consistent caps (s.cancel answers requestId).2 := by
  unfold cancel
  split
  · exact h
  · next entry hfind =>
    split_ifs
    · exact h
    · exact consistent_terminalize h (List.mem_of_find?_eq_some hfind) answers _ _

theorem select_mem {now : ℚ} {entries : List Entry} (h : select policy now entries = some entry) :
    entry ∈ entries := by
  cases entries with
  | nil => cases h
  | cons first rest =>
    obtain rfl := Option.some_inj.mp h
    induction rest generalizing first with
    | nil => exact List.mem_cons_self
    | cons other rest ih =>
      rw [List.foldl_cons]
      split_ifs
      · exact List.mem_cons_of_mem _ (ih other rfl)
      · rcases List.mem_cons.mp (ih first rfl) with hfirst | hrest
        · rw [hfirst]
          exact List.mem_cons_self
        · exact List.mem_cons_of_mem _ (List.mem_cons_of_mem _ hrest)

/-- The step of a tick: a handle that was never returned is not in use, and an admitted entry
is chosen only where few handles are active. -/
theorem consistent_step (h : Consistent caps s) (hentry : entry ∈ s.eligibleEntries caps)
    (answers : Answers)
    (hnodup : (returnedIn (s.replace
      (step caps answers s.now (s.inUse entry) entry)).trace).Nodup) :
    Consistent caps (s.replace (step caps answers s.now (s.inUse entry) entry)) := by
  obtain ⟨hactive, heligible⟩ := List.mem_filter.mp hentry
  have hmem : entry ∈ s.entries := (List.mem_filter.mp hactive).1
  change (returnedIn (s.trace ++ (step caps answers s.now (s.inUse entry) entry).trace)).Nodup
    at hnodup
  rw [returnedIn_append, step_returned, List.nodup_append'] at hnodup
  obtain ⟨hbefore, -, hdisjoint⟩ := hnodup
  have hfree : entry.lifecycle = .ADMITTED → ∀ handle, answers.openSequence = .returned handle →
      s.inUse entry handle = false := by
    intro hadmitted handle hreturned
    refine h.not_inUse (fun hold => hdisjoint hold ?_) entry
    rw [if_pos hadmitted]
    unfold Answers.offered
    rw [hreturned]
    exact List.mem_singleton_self handle
  obtain ⟨howned, hrequest⟩ := step_owned (h.owned entry hmem) s.now hfree
  refine h.replace hmem howned hrequest fun hmatches => ?_
  rw [step_returned]
  split_ifs with hadmitted
  · have hheld := h.held_le hbefore hmatches
    have hfew : s.activeHandles < caps.maxConcurrentSequences := by
      simpa [hadmitted] using heligible
    have hone := answers.offered_length
    omega
  · exact h.held_le_cap hmatches

theorem consistent_tick (h : Consistent caps s) (answers : Answers)
    (hnodup : (returnedIn (s.tick caps policy answers).2.trace).Nodup) :
    Consistent caps (s.tick caps policy answers).2 := by
  have hperm : (inOrder s.activeEntries).Perm s.activeEntries := List.perm_insertionSort _ _
  have hdistinct : ((inOrder s.activeEntries).map Entry.requestId).Nodup := by
    rw [(hperm.map _).nodup_iff]
    exact h.distinct.sublist (List.filter_sublist.map _)
  have hexpired := consistent_expire answers hdistinct h fun entry hentry =>
    (List.mem_filter.mp (hperm.subset hentry)).1
  unfold tick at hnodup ⊢
  split at hnodup
  · next s' hs' =>
    rw [hs'] at hexpired
    exact hexpired
  · next expired s' hs' =>
    rw [hs'] at hexpired
    split at hnodup
    · exact hexpired
    · next entry hselect => exact consistent_step hexpired (select_mem hselect) answers hnodup

/-! ### Runs -/

theorem expire_trace (answers : Answers) (entries : List Entry) (s : Simulator) :
    s.trace <+: (expire answers entries s).2.trace := by
  induction entries generalizing s with
  | nil => exact List.prefix_refl _
  | cons entry entries ih =>
    unfold expire
    split_ifs
    · dsimp only
      split_ifs
      · exact List.prefix_append _ _
      · have hreplaced : s.trace <+: (s.replace (terminalize answers s.now .DEADLINE_EXCEEDED
            (some (py "deadline_exceeded")) entry)).trace := List.prefix_append _ _
        exact hreplaced.trans (ih _)
    · exact ih s

/-- Nothing is forgotten. -/
theorem perform_trace (caps : Capabilities) (policy : Policy) (s : Simulator) (op : Op) :
    s.trace <+: (perform caps policy s op).trace := by
  cases op with
  | admission scheduling =>
    show s.trace <+: (s.admitRequest caps policy scheduling).2.trace
    unfold admitRequest
    split
    · exact List.prefix_refl _
    · split
      · exact List.prefix_refl _
      · split_ifs
        · exact List.prefix_refl _
        · exact List.prefix_refl _
        · exact List.prefix_append _ _
  | cancel requestId answers =>
    show s.trace <+: (s.cancel answers requestId).2.trace
    unfold cancel
    split
    · exact List.prefix_refl _
    · split_ifs
      · exact List.prefix_refl _
      · exact List.prefix_append _ _
  | tick answers =>
    show s.trace <+: (s.tick caps policy answers).2.trace
    have hexpired := expire_trace answers (inOrder s.activeEntries) s
    unfold tick
    split
    · next s' hs' =>
      rw [hs'] at hexpired
      exact hexpired
    · next expired s' hs' =>
      rw [hs'] at hexpired
      split
      · exact hexpired
      · exact hexpired.trans (List.prefix_append _ _)
  | advance seconds =>
    show s.trace <+: (s.advanceClock seconds).trace
    unfold advanceClock
    split_ifs
    · exact List.prefix_refl _
    · exact List.prefix_refl _

theorem consistent_perform (h : Consistent caps s) (op : Op)
    (hnodup : (returnedIn (perform caps policy s op).trace).Nodup) :
    Consistent caps (perform caps policy s op) := by
  cases op with
  | admission scheduling => exact consistent_admit h scheduling
  | cancel requestId answers => exact consistent_cancel h requestId answers
  | tick answers => exact consistent_tick h answers hnodup
  | advance seconds =>
    show Consistent caps (s.advanceClock seconds)
    unfold advanceClock
    split_ifs
    · exact h
    · exact ⟨h.distinct, h.owned, h.known, h.bounded⟩

theorem run_consistent (caps : Capabilities) (policy : Policy) (ops : List Op)
    (h : (returnedIn (run caps policy ops).trace).Nodup) :
    Consistent caps (run caps policy ops) := by
  induction ops using List.reverseRecOn with
  | nil =>
    refine ⟨List.nodup_nil, fun entry hentry => (nomatch hentry),
      fun item hitem => (nomatch hitem), fun _ pre hpre => ?_⟩
    rw [List.prefix_nil.mp hpre]
    exact Nat.zero_le _
  | append_singleton ops op ih =>
    have hrun : run caps policy (ops ++ [op]) = perform caps policy (run caps policy ops) op := by
      simp [run]
    rw [hrun] at h ⊢
    have hbefore := (perform_trace caps policy (run caps policy ops) op).sublist.filterMap
      Trace.returned?
    exact consistent_perform (ih (h.sublist hbefore)) op h

/-! ### What is released -/

/-- What the scheduler owes a backend for the handles it has returned. -/
structure ReleasesAll (cap : ℕ) (trace : List Trace) : Prop where
  once : ∀ handle, (releasedIn trace).count handle ≤ 1
  /-- The handle of a request was released when its terminal event is told. -/
  before : ∀ pre told post, trace = pre ++ .event told :: post →
    (Trace.event told).terminal = true → ∀ handle, .returned told.requestId handle ∈ trace →
      (releasedIn pre).count handle = 1
  single : ∀ requestId, (itemsOf requestId trace).countP Trace.terminal ≤ 1
  held : HeldAtMost cap trace

namespace Consistent

/-- What is released is the handle of an entry. -/
theorem released_of (h : Consistent caps s) {requestId : PyStr} {handle : SequenceHandle}
    (hitem : .release requestId handle ∈ s.trace) :
    ∃ entry ∈ s.entries, entry.requestId = requestId ∧ entry.handle = some handle := by
  obtain ⟨entry, hentry, hrequest⟩ := List.mem_map.mp (h.known _ hitem)
  change entry.requestId = requestId at hrequest
  have hreleased := (h.owned entry hentry).released
  have hmem : handle ∈ releasedIn (itemsOf entry.requestId s.trace) := by
    rw [hrequest]
    exact List.mem_filterMap.mpr ⟨_, mem_itemsOf hitem, rfl⟩
  rw [hreleased] at hmem
  split_ifs at hmem
  · exact ⟨entry, hentry, hrequest, Option.mem_toList.mp hmem⟩
  · cases hmem

/-- A handle belongs to one request. -/
theorem requestId_unique (hnodup : (returnedIn trace).Nodup) {requestId requestId' : PyStr}
    {handle : SequenceHandle} (h : .returned requestId handle ∈ trace)
    (h' : .returned requestId' handle ∈ trace) : requestId = requestId' := by
  by_contra hne
  have hpairs := List.pairwise_filterMap.mp hnodup
  have : Std.Symm fun a b : Trace => ∀ x, a.returned? = some x → ∀ y, b.returned? = some y → x ≠ y :=
    ⟨fun a b hab x hx y hy => (hab y hy x hx).symm⟩
  exact hpairs.forall h h' (fun heq => hne (Trace.returned.inj heq).1) handle rfl handle rfl rfl

/-- Two releases of one handle would be of one request, whose entry has one handle. -/
theorem released_nodup (h : Consistent caps s) (hnodup : (returnedIn s.trace).Nodup) :
    (releasedIn s.trace).Nodup := by
  refine List.pairwise_filterMap.mpr (List.pairwise_iff_forall_sublist.mpr ?_)
  intro a b hsublist handle ha handle' hb heq
  obtain rfl := heq
  cases a with
  | returned => cases ha
  | event => cases ha
  | release requestId k =>
    obtain rfl := Option.some_inj.mp ha
    cases b with
    | returned => cases hb
    | event => cases hb
    | release requestId' k' =>
      obtain rfl := Option.some_inj.mp hb
      obtain ⟨entry, hentry, rfl, hhandle⟩ := h.released_of (hsublist.subset List.mem_cons_self)
      obtain ⟨other, hother, rfl, hhandle'⟩ :=
        h.released_of (hsublist.subset (List.mem_cons_of_mem _ List.mem_cons_self))
      have hsame := requestId_unique hnodup (h.returned_of hentry hhandle)
        (h.returned_of hother hhandle')
      have htwice := (hsublist.filter fun item => item.requestId = entry.requestId).filterMap
        Trace.released?
      change List.Sublist _ (releasedIn (itemsOf entry.requestId s.trace)) at htwice
      rw [(h.owned entry hentry).released, ← hsame] at htwice
      have htwo : 2 ≤ (if entry.releaseAttempted then entry.handle.toList else []).length := by
        simpa [Trace.requestId, Trace.released?] using htwice.length_le
      have hone : (if entry.releaseAttempted then entry.handle.toList else []).length ≤ 1 := by
        split_ifs
        · cases entry.handle <;> simp
        · exact Nat.zero_le _
      omega

/-- A request with a terminal event has ended. -/
theorem terminal_of (h : Consistent caps s) {told : SchedulerEvent}
    (hitem : .event told ∈ s.trace) (hterminal : (Trace.event told).terminal = true) :
    ∃ entry ∈ s.entries, entry.requestId = told.requestId ∧ entry.lifecycle = .TERMINAL := by
  obtain ⟨entry, hentry, hrequest⟩ := List.mem_map.mp (h.known _ hitem)
  refine ⟨entry, hentry, hrequest, ?_⟩
  by_contra hlive
  have hmem : .event told ∈ itemsOf entry.requestId s.trace := by
    rw [hrequest]
    exact mem_itemsOf hitem
  have hopen := (h.owned entry hentry).live hlive _ hmem
  rw [hterminal] at hopen
  cases hopen

/-- The terminal event is the last item of its request. -/
theorem last_of {pre post : List Trace} {told : SchedulerEvent} (hended : Ended l)
    (hl : l = pre ++ .event told :: post) (hterminal : (Trace.event told).terminal = true) :
    post = [] := by
  obtain ⟨before, last, rfl, -, hbefore⟩ := hended
  rcases List.eq_nil_or_concat post with hnil | ⟨rest, final, rfl⟩
  · exact hnil
  · rw [List.concat_eq_append, ← List.cons_append, ← List.append_assoc] at hl
    have hopen := hbefore (.event told) (by
      rw [(List.append_inj' hl rfl).1]
      exact List.mem_append_right _ List.mem_cons_self)
    rw [hterminal] at hopen
    cases hopen

theorem single (h : Consistent caps s) (requestId : PyStr) :
    (itemsOf requestId s.trace).countP Trace.terminal ≤ 1 := by
  by_cases hnone : itemsOf requestId s.trace = []
  · rw [hnone]
    exact Nat.zero_le _
  · obtain ⟨item, hitem⟩ := List.exists_mem_of_ne_nil _ hnone
    obtain ⟨hmem, hown⟩ := List.mem_filter.mp hitem
    obtain ⟨entry, hentry, hrequest⟩ := List.mem_map.mp (h.known _ hmem)
    rw [of_decide_eq_true hown] at hrequest
    have howned := h.owned entry hentry
    rw [hrequest] at howned
    by_cases hterminal : entry.lifecycle = .TERMINAL
    · obtain ⟨pre, last, heq, -, hpre⟩ := howned.ended hterminal
      have hopen : pre.countP Trace.terminal = 0 :=
        List.countP_eq_zero.mpr fun item hitem => by simp [hpre item hitem]
      rw [heq, List.countP_append, hopen, Nat.zero_add]
      exact List.countP_le_length
    · have hopen : (itemsOf requestId s.trace).countP Trace.terminal = 0 :=
        List.countP_eq_zero.mpr fun item hitem => by simp [howned.live hterminal item hitem]
      omega

/-- The handle of a request was released when its terminal event is told. -/
theorem before (h : Consistent caps s) (hnodup : (returnedIn s.trace).Nodup)
    (hmatches : ∀ handle ∈ returnedIn s.trace, caps.matches handle) {pre post : List Trace}
    {told : SchedulerEvent} (heq : s.trace = pre ++ .event told :: post)
    (hterminal : (Trace.event told).terminal = true) {handle : SequenceHandle}
    (hreturned : .returned told.requestId handle ∈ s.trace) :
    (releasedIn pre).count handle = 1 := by
  have hitem : .event told ∈ s.trace := by
    rw [heq]
    exact List.mem_append_right _ List.mem_cons_self
  obtain ⟨entry, hentry, hrequest, hlifecycle⟩ := h.terminal_of hitem hterminal
  have howned := h.owned entry hentry
  rw [hrequest] at howned
  have hmem : handle ∈ returnedIn (itemsOf told.requestId s.trace) :=
    mem_returnedIn.mpr ⟨_, mem_itemsOf hreturned⟩
  have hhandle : entry.handle = some handle := by
    cases hstored : entry.handle with
    | none =>
      exact absurd (hmatches handle (mem_returnedIn.mpr ⟨_, hreturned⟩))
        (howned.refused hstored handle hmem)
    | some k =>
      rw [(howned.stored k hstored).2, List.mem_singleton] at hmem
      rw [hmem]
  have hreleased := howned.released
  rw [if_pos (howned.settled hlifecycle (Option.isSome_of_eq_some hhandle)), hhandle] at hreleased
  have hparts : itemsOf told.requestId s.trace =
      itemsOf told.requestId pre ++ .event told :: itemsOf told.requestId post := by
    rw [heq, itemsOf_append]
    congr 1
    exact List.filter_cons_of_pos (decide_eq_true rfl)
  rw [hparts, last_of (howned.ended hlifecycle) hparts hterminal, releasedIn_append] at hreleased
  change releasedIn (itemsOf told.requestId pre) ++ [] = [handle] at hreleased
  rw [List.append_nil] at hreleased
  refine List.count_eq_one_of_mem ?_ ?_
  · refine (h.released_nodup hnodup).sublist ?_
    rw [heq]
    exact (List.sublist_append_left _ _).filterMap _
  · have hsub : (releasedIn (itemsOf told.requestId pre)).Sublist (releasedIn pre) :=
      List.filter_sublist.filterMap _
    refine hsub.subset ?_
    rw [hreleased]
    exact List.mem_singleton_self handle

/-- A handle that is refused is never released. -/
theorem matches_of_released (h : Consistent caps s) {handle : SequenceHandle}
    (hreleased : handle ∈ releasedIn s.trace) : caps.matches handle := by
  obtain ⟨item, hitem, hhandle⟩ := List.mem_filterMap.mp hreleased
  cases item with
  | returned => cases hhandle
  | event => cases hhandle
  | release requestId k =>
    obtain rfl := Option.some_inj.mp hhandle
    obtain ⟨entry, hentry, -, hstored⟩ := h.released_of hitem
    exact ((h.owned entry hentry).stored k hstored).1

/-- The request of a handle that is refused has ended. -/
theorem terminal_of_refused (h : Consistent caps s) {handle : SequenceHandle}
    (hreturned : handle ∈ returnedIn s.trace) (hrefused : ¬ caps.matches handle) :
    ∃ told, .event told ∈ s.trace ∧ (Trace.event told).terminal = true ∧
      .returned told.requestId handle ∈ s.trace := by
  obtain ⟨requestId, hitem⟩ := mem_returnedIn.mp hreturned
  obtain ⟨entry, hentry, rfl, hown⟩ := h.entry_of hitem
  have howned := h.owned entry hentry
  have hnone : entry.handle = none := by
    cases hstored : entry.handle with
    | none => rfl
    | some k =>
      obtain ⟨hmatches, hk⟩ := howned.stored k hstored
      rw [hk, List.mem_singleton] at hown
      rw [hown] at hrefused
      exact absurd hmatches hrefused
  have hadmitted : entry.lifecycle ≠ .ADMITTED := by
    intro hadmitted
    rw [howned.fresh hadmitted] at hown
    cases hown
  have hterminal : entry.lifecycle = .TERMINAL := by
    by_contra hlive
    have hsome := howned.opened hadmitted hlive
    rw [hnone] at hsome
    cases hsome
  obtain ⟨pre, last, heq, hlast, -⟩ := howned.ended hterminal
  have hmem : last ∈ itemsOf entry.requestId s.trace := by
    rw [heq]
    exact List.mem_append_right _ (List.mem_singleton_self _)
  obtain ⟨hlast', hrequest⟩ := List.mem_filter.mp hmem
  cases last with
  | returned => cases hlast
  | release => cases hlast
  | event told =>
    refine ⟨told, hlast', hlast, ?_⟩
    rw [show told.requestId = entry.requestId from of_decide_eq_true hrequest]
    exact hitem

theorem matches_of_releasesAll (h : Consistent caps s) {cap : ℕ} (hall : ReleasesAll cap s.trace) :
    ∀ handle ∈ returnedIn s.trace, caps.matches handle := by
  intro handle hreturned
  by_contra hrefused
  obtain ⟨told, hevent, hterminal, hitem⟩ := h.terminal_of_refused hreturned hrefused
  obtain ⟨pre, post, heq⟩ := List.append_of_mem hevent
  have hone := hall.before pre told post heq hterminal handle hitem
  have hreleased : handle ∈ releasedIn pre := List.count_pos_iff.mp (by omega)
  refine hrefused (h.matches_of_released ?_)
  rw [heq, releasedIn_append]
  exact List.mem_append_left _ hreleased

end Consistent

/-- **The reference scheduler releases what it opens, once and before the terminal event, in
exactly the runs where the backend returns no handle of another backend or model.** -/
theorem releases_iff (caps : Capabilities) (policy : Policy) (ops : List Op)
    (h : (returnedIn (run caps policy ops).trace).Nodup) :
    ReleasesAll caps.maxConcurrentSequences (run caps policy ops).trace ↔
      ∀ handle ∈ returnedIn (run caps policy ops).trace, caps.matches handle := by
  have hconsistent := run_consistent caps policy ops h
  constructor
  · exact hconsistent.matches_of_releasesAll
  · intro hmatches
    constructor
    · exact List.nodup_iff_count_le_one.mp (hconsistent.released_nodup h)
    · intro pre told post heq hterminal handle hreturned
      exact hconsistent.before h hmatches heq hterminal hreturned
    · exact hconsistent.single
    · exact hconsistent.bounded hmatches

/-! ### Two runs -/

def sampleCapabilities : Capabilities := ⟨py "b", [py "m"], 1, 1, 1, 1⟩

def samplePolicy : Policy := ⟨[(py "c", 0)], 1, one_pos⟩

def sampleScheduling : SchedulingMetadata :=
  ⟨py "1", py "w", py "a", py "c", 1, none, isBoundedText_py (by decide) (by decide) (by decide),
    Nat.one_pos, by decide⟩

/-- A backend that opens sequences of one model -/
def sampleAnswers (model : PyStr) : Answers where
  openSequence := .returned ⟨py "b", model, py "s", 1⟩
  prefill := .raised true
  decode := .raised true
  release := fun handle => .returned (handle, .RELEASED)

def sampleOps (model : PyStr) : List Op :=
  [.admission sampleScheduling, .tick (sampleAnswers model), .tick (sampleAnswers model)]

theorem releases_iff_sample :
    (returnedIn (run sampleCapabilities samplePolicy (sampleOps (py "m"))).trace).Nodup ∧
      (ReleasesAll 1 (run sampleCapabilities samplePolicy (sampleOps (py "m"))).trace ↔
        ∀ handle ∈ returnedIn (run sampleCapabilities samplePolicy (sampleOps (py "m"))).trace,
          sampleCapabilities.matches handle) :=
  ⟨by decide +kernel, releases_iff sampleCapabilities samplePolicy (sampleOps (py "m")) (by decide +kernel)⟩

/-- A sequence of another model is never released. -/
theorem releases_fails :
    (returnedIn (run sampleCapabilities samplePolicy (sampleOps (py "n"))).trace).Nodup ∧
      ¬ ReleasesAll sampleCapabilities.maxConcurrentSequences
        (run sampleCapabilities samplePolicy (sampleOps (py "n"))).trace := by
  have hnodup : (returnedIn (run sampleCapabilities samplePolicy (sampleOps (py "n"))).trace).Nodup := by
    decide +kernel
  refine ⟨hnodup, fun hall => ?_⟩
  have hmatches := (run_consistent _ _ _ hnodup).matches_of_releasesAll hall
    ⟨py "b", py "n", py "s", 1⟩ (by decide +kernel)
  exact absurd hmatches (by decide +kernel)

end Inference.Simulator
