/-
The snapshot of a session is stored while its sequence is prefilled.

* `Lands` — the prompt is prefilled from before the end of the session prefix;
* `Committing` — what was stored for a sequence as far as it was prefilled;
* `session_committed` — a sequence that asked for it and was prefilled has its snapshot
  exactly if it lands.
-/
import LlamaRuntime.Native.PromptDecoding

namespace Native

open Json

variable {n : ℕ} {F : Type}

/-- The restored tokens end before the session prefix does; or where it does, and one token of the
prompt is left. -/
def SequenceState.Lands (s : SequenceState n) : Prop :=
  s.cachedPromptTokens < s.sessionPrefix.length ∨
    s.cachedPromptTokens = s.sessionPrefix.length ∧ s.prompt.length = s.sessionPrefix.length + 1

/-- The snapshot of a sequence is to be stored. -/
def SequenceState.WantsCommit (s : SequenceState n) : Prop :=
  ∃ control ∈ s.session, control.commit = true

/-- What was stored for a sequence: nothing as long as the steps end before the session prefix
does, or if they began behind it; and the session prefix once. -/
structure Committing (s : SequenceState n) (commits : List (List Token × ℕ)) : Prop where
  restored : s.cachedPromptTokens ≤ s.physicalPromptDecoded
  pending : s.committedSessionGeneration = none → commits = [] ∧
    (s.physicalPromptDecoded < s.sessionPrefix.length ∨
      s.sessionPrefix.length < s.physicalPromptDecoded ∧
        s.sessionPrefix.length ≤ s.cachedPromptTokens ∨
      s.logicalPrefillProcessed = s.cachedPromptTokens)
  done : ∀ generation, s.committedSessionGeneration = some generation →
    commits = [(s.sessionPrefix, generation)] ∧ s.Lands

/-- A step of a sequence whose snapshot is still to be stored ends at the session prefix or
before it. -/
theorem logicalTokens_pending {s : SequenceState n} {control : SessionControl}
    (session : s.session = some control) (commit : control.commit = true)
    (hidentity : s.cacheIdentity ≠ []) (hpending : s.committedSessionGeneration = none)
    (hbefore : s.physicalPromptDecoded < s.sessionPrefix.length) (budget : ℕ) :
    s.physicalPromptDecoded + s.logicalTokens budget ≤ s.sessionPrefix.length := by
  have hcommit : s.CommitPending := ⟨control, session, commit, hpending⟩
  unfold SequenceState.logicalTokens
  dsimp only
  rw [if_neg hidentity, if_pos ⟨hcommit, hbefore⟩]
  omega

section Step

variable {config : Setup} {r r' : Runtime n} {w : PrefillWork F n} {s s' : SequenceState n}
  {commits : List (List Token × ℕ)}

/-- A step of a batch that is done. -/
theorem Committing.prefilled (h : Committing s commits) (hvalid : r.Valid config) (hw : w.Valid r s)
    (wants : s.WantsCommit) {elapsed : ℚ} {new : List (List Token × ℕ)}
    (hstep : StepResult elapsed r r' w s true new) (hs' : r'.states w.slot = some s') :
    Committing s' (commits ++ new) := by
  have hstate := hvalid.state hw.state
  obtain ⟨control, session, commit⟩ := wants
  obtain ⟨hidentity, -, hle, -⟩ := hstate.sessionPrefix (by rw [session]; simp)
  obtain ⟨hremaining, hpos, hbound⟩ := hw.bounds hvalid
  obtain ⟨budget, -, hlogical⟩ := hw.budget
  have hclamp := fun hpending hbefore =>
    logicalTokens_pending session commit hidentity hpending hbefore budget
  have hphysical := hw.physical
  have hcounted := hstate.physical
  have hcached := h.restored
  unfold SequenceState.remaining at hremaining hbound
  unfold SequenceState.physicalTokens SequenceState.remaining at hphysical
  have hsteps : w.physicalTokens ≤ w.logicalTokens ∧ w.logicalTokens ≤ w.physicalTokens + 1 := by
    split_ifs at hphysical
    · omega
    · omega
  cases hstep with
  | advanced _ idle state slot =>
    obtain rfl := Option.some_inj.mp (state.symm.trans hs')
    rw [List.append_nil]
    refine ⟨?_, fun hpending => ?_, h.done⟩
    · show s.cachedPromptTokens ≤ s.physicalPromptDecoded + w.physicalTokens
      omega
    · obtain ⟨hnone, hwhere⟩ := h.pending hpending
      -- the step does not end where the session prefix does
      have hmiss : s.physicalPromptDecoded + w.physicalTokens ≠ s.sessionPrefix.length :=
        fun heq => idle ⟨hidentity, ⟨control, session, commit, hpending⟩, heq⟩
      refine ⟨hnone, ?_⟩
      show s.physicalPromptDecoded + w.physicalTokens < s.sessionPrefix.length ∨
        s.sessionPrefix.length < s.physicalPromptDecoded + w.physicalTokens ∧
          s.sessionPrefix.length ≤ s.cachedPromptTokens ∨
        s.logicalPrefillProcessed + w.logicalTokens = s.cachedPromptTokens
      by_cases hbefore : s.physicalPromptDecoded < s.sessionPrefix.length
      · have hclamped := hclamp hpending hbefore
        omega
      · omega
  | committed _ hcommits stored state slot =>
    obtain rfl := Option.some_inj.mp (state.symm.trans hs')
    obtain ⟨-, ⟨control', hsession', -, hpending⟩, hends⟩ := hcommits
    change s.committedSessionGeneration = none at hpending
    change s.physicalPromptDecoded + w.physicalTokens = s.sessionPrefix.length at hends
    obtain ⟨hnone, hwhere⟩ := h.pending hpending
    refine ⟨?_, fun hnot => absurd hnot (by simp), fun generation hgeneration => ?_⟩
    · show s.cachedPromptTokens ≤ s.physicalPromptDecoded + w.physicalTokens
      omega
    · obtain rfl := Option.some_inj.mp hgeneration
      refine ⟨by rw [hnone]; rfl, ?_⟩
      show s.cachedPromptTokens < s.sessionPrefix.length ∨
        s.cachedPromptTokens = s.sessionPrefix.length ∧ s.prompt.length = s.sessionPrefix.length + 1
      split_ifs at hphysical
      · omega
      · omega

end Step

/-- A sequence that was prefilled has its snapshot exactly if it lands. -/
theorem Committing.lands_iff {slot : Slot} {i : Fin n} {s : SequenceState n}
    {commits : List (List Token × ℕ)} (h : Committing s commits) (hstate : StateValid slot i s)
    (wants : s.WantsCommit) (reached : s.remaining = 0) :
    (∃ generation, s.committedSessionGeneration = some generation) ↔ s.Lands := by
  obtain ⟨control, session, -⟩ := wants
  obtain ⟨-, hne, hle, -⟩ := hstate.sessionPrefix (by rw [session]; simp)
  have hpositive := List.length_pos_iff.mpr hne
  have hcounted := hstate.physical
  have hcached := h.restored
  unfold SequenceState.remaining at reached
  constructor
  · rintro ⟨generation, hdone⟩
    exact (h.done generation hdone).2
  · intro hlands
    cases hdone : s.committedSessionGeneration with
    | some generation => exact ⟨generation, rfl⟩
    | none =>
      obtain ⟨-, hwhere⟩ := h.pending hdone
      unfold SequenceState.Lands at hlands
      omega

/-! ### Runs -/

section Runs

variable {config : Setup} {model : LlamaModel F} {i : Fin config.maxSequences}
  {s s' : SequenceState config.maxSequences}

/-- Some line of the input left the snapshot of a session prefix in the cache. -/
def SnapshotStored (config : Setup) (model : LlamaModel F)
    (inputs : List (Input F config.maxSequences)) (i : Fin config.maxSequences)
    (s : SequenceState config.maxSequences) (generation : ℕ) : Prop :=
  ∃ earlier input later, inputs = earlier ++ input :: later ∧
    StoresSnapshot config (run config model earlier) input i s generation

theorem SnapshotStored.append {inputs : List (Input F config.maxSequences)} {generation : ℕ}
    (h : SnapshotStored config model inputs i s generation) (input : Input F config.maxSequences) :
    SnapshotStored config model (inputs ++ [input]) i s generation := by
  obtain ⟨earlier, x, later, rfl, hstores⟩ := h
  exact ⟨earlier, x, later ++ [input], by simp, hstores⟩

/-- Only what the request says of the session matters. -/
structure SameSession (s s' : SequenceState n) : Prop where
  session : s'.session = s.session
  sessionPrefix : s'.sessionPrefix = s.sessionPrefix
  identity : s'.cacheIdentity = s.cacheIdentity
  key : s'.sessionCommitKey = s.sessionCommitKey

theorem SameSession.stores {r : Runtime config.maxSequences} {input : Input F config.maxSequences}
    {generation : ℕ} (h : SameSession s s') (hstores : StoresSnapshot config r input i s generation) :
    StoresSnapshot config r input i s' generation := by
  obtain ⟨found, hmem, hslot, hsnapshot⟩ := hstores
  refine ⟨found, hmem, hslot, ?_⟩
  unfold SequenceState.SnapshotIn at hsnapshot ⊢
  rw [h.session, h.sessionPrefix, h.identity, h.key]
  exact hsnapshot

theorem SameSession.stored {inputs : List (Input F config.maxSequences)} {generation : ℕ}
    (h : SameSession s s') (hstored : SnapshotStored config model inputs i s generation) :
    SnapshotStored config model inputs i s' generation := by
  obtain ⟨earlier, x, later, heq, hstores⟩ := hstored
  exact ⟨earlier, x, later, heq, h.stores hstores⟩

/-- What was stored for a sequence during a run. -/
structure SessionRun (config : Setup) (model : LlamaModel F)
    (inputs : List (Input F config.maxSequences)) (i : Fin config.maxSequences)
    (s : SequenceState config.maxSequences) : Prop where
  committing : Committing s (commitsFor i (sinceOpened i (run config model inputs).log))
  stored : ∀ generation, s.committedSessionGeneration = some generation →
    SnapshotStored config model inputs i s generation

theorem not_refusedSince {log entries : List (LogEntry n)} {i : Fin n}
    (hopens : ∀ e ∈ entries, ¬ e.Opens i) (h : ¬ RefusedSince i (log ++ entries)) :
    ¬ RefusedSince i log :=
  fun hrefused => h ((refusedSince_append hopens log).mpr (.inl hrefused))

theorem sessionRun_step {inputs : List (Input F config.maxSequences)}
    {input : Input F config.maxSequences}
    (hs' : (step config model (run config model inputs) input).1.states i = some s')
    (wants : s'.WantsCommit)
    (answered : ¬ RefusedSince i (step config model (run config model inputs) input).1.log)
    (ih : ∀ s, (run config model inputs).states i = some s → s.WantsCommit →
      ¬ RefusedSince i (run config model inputs).log → SessionRun config model inputs i s) :
    SessionRun config model (inputs ++ [input]) i s' := by
  have hvalid := valid_run config model inputs
  have hslot := slotStep model hvalid input i
  have hrun := run_concat config model inputs input
  revert hslot hs' answered hrun
  generalize (step config model (run config model inputs) input).1 = r'
  intro hs' answered hslot hrun
  cases hslot with
  | free gone => exact absurd (gone.symm.trans hs') (by simp)
  | opened vacant q cached s memory begins state slot log =>
    obtain rfl := Option.some_inj.mp (state.symm.trans hs')
    refine ⟨?_, fun generation hdone => ?_⟩
    · rw [hrun, log]
      cases begins with
      | plain openedAt =>
        exact ⟨le_rfl, fun _ => ⟨rfl, .inr (.inr rfl)⟩, fun generation hg => absurd hg (by simp [OpenRequest.state])⟩
      | restored openedAt e =>
        exact ⟨le_rfl, fun _ => ⟨rfl, .inr (.inr rfl)⟩,
          fun generation hg => absurd hg (by simp [OpenRequest.state, SequenceState.restored])⟩
    · cases begins with
      | plain openedAt => exact absurd hdone (by simp [OpenRequest.state])
      | restored openedAt e =>
        exact absurd hdone (by simp [OpenRequest.state, SequenceState.restored])
  | rested s state state' tokens quiet =>
    obtain rfl := Option.some_inj.mp (state'.symm.trans hs')
    obtain ⟨entries, hlog, hquiet⟩ := quiet
    rw [hlog] at answered
    have hbefore := ih s state wants (not_refusedSince (fun e he => (hquiet e he).opens) answered)
    refine ⟨?_, fun generation hdone => (hbefore.stored generation hdone).append input⟩
    rw [hrun, (Runtime.QuietFor.since ⟨entries, hlog, hquiet⟩).2.1]
    exact hbefore.committing
  | undecoded s state state' slot failure refused => exact absurd refused answered
  | prefilled w s slot work completes entries opens log cells text result refused cut snapshot =>
    subst slot
    have hcompletes : completes = true := by
      by_contra hfail
      exact answered (refused (by simpa using hfail))
    subst hcompletes
    rw [log] at answered
    have hsame : SameSession s s' := by
      generalize commitsFor w.slot entries = commits at result
      cases result with
      | advanced _ _ state _ =>
        obtain rfl := Option.some_inj.mp (state.symm.trans hs')
        exact ⟨rfl, rfl, rfl, rfl⟩
      | committed _ _ _ state _ =>
        obtain rfl := Option.some_inj.mp (state.symm.trans hs')
        exact ⟨rfl, rfl, rfl, rfl⟩
    have hwants : s.WantsCommit := by
      obtain ⟨control, hsession, hcommit⟩ := wants
      exact ⟨control, hsame.session ▸ hsession, hcommit⟩
    have hbefore := ih s work.state hwants (not_refusedSince opens answered)
    refine ⟨?_, fun generation hdone => ?_⟩
    · rw [hrun, log, sinceOpened_append opens, commitsFor_append]
      exact hbefore.committing.prefilled hvalid work hwants result hs'
    · cases hpending : s.committedSessionGeneration with
      | none =>
        exact ⟨inputs, input, [], rfl, hsame.stores (snapshot hpending s' hs' generation hdone)⟩
      | some earlier =>
        -- it was committed before, and nothing was committed since
        have hkept : s'.committedSessionGeneration = some earlier := by
          generalize commitsFor w.slot entries = commits at result
          cases result with
          | advanced _ _ state _ =>
            obtain rfl := Option.some_inj.mp (state.symm.trans hs')
            exact hpending
          | committed _ hcommits _ _ _ =>
            obtain ⟨-, ⟨_, -, -, hnone⟩, -⟩ := hcommits
            exact absurd (hpending.symm.trans hnone) (by simp)
        obtain rfl := Option.some_inj.mp (hkept.symm.trans hdone)
        exact hsame.stored ((hbefore.stored earlier hpending).append input)
  | decoded work w mem slot begins result run states slots entries log rest =>
    subst slot
    obtain ⟨s, hs, -⟩ := (begins w mem).opened
    obtain ⟨s'', rounds, hrounds⟩ := run.roundsOf hs (List.mem_map_of_mem mem)
    rw [states, hrounds.state] at hs'
    obtain rfl := Option.some_inj.mp hs'
    obtain ⟨-, hprompt, hlogical, hphysical, hcached, hsession, hprefix, hcommitted, hidentity,
      hkey⟩ := fixed_fields hrounds.fixed
    have hlast : (∀ e ∈ entries, ¬ e.Opens w.slot) ∧ commitsFor w.slot entries = [] := by
      rcases rest with ⟨work', -, rfl⟩ | ⟨-, named, -, rfl⟩
      · exact ⟨(cellsOf_sent _ work').1, (cellsOf_sent _ work').2.2⟩
      · refine ⟨fun e he => ?_, rfl⟩
        obtain rfl := List.mem_singleton.mp he
        exact id
    rw [log, hrounds.log] at answered
    have hwants : s.WantsCommit := by
      obtain ⟨control, hmem, hcommit⟩ := wants
      exact ⟨control, hsession ▸ hmem, hcommit⟩
    have hbefore := ih s hs hwants
      (not_refusedSince hrounds.opens (not_refusedSince hlast.1 answered))
    refine ⟨?_, fun generation hdone => ?_⟩
    · rw [hrun, log, sinceOpened_append hlast.1, hrounds.log, sinceOpened_append hrounds.opens,
        commitsFor_append, commitsFor_append, hlast.2, hrounds.commits, List.append_nil,
        List.append_nil]
      have hcommitting := hbefore.committing
      refine ⟨by rw [hcached, hphysical]; exact hcommitting.restored, ?_, ?_⟩
      · rw [hcommitted, hphysical, hprefix, hcached, hlogical]
        exact hcommitting.pending
      · rw [hcommitted, hprefix]
        unfold SequenceState.Lands
        rw [hcached, hprefix, hprompt]
        exact hcommitting.done
    · have hstored := (hbefore.stored generation (hcommitted ▸ hdone)).append input
      exact SameSession.stored ⟨hsession, hprefix, hidentity, hkey⟩ hstored

theorem sessionRun (inputs : List (Input F config.maxSequences))
    (hs : (run config model inputs).states i = some s) (wants : s.WantsCommit)
    (answered : ¬ RefusedSince i (run config model inputs).log) :
    SessionRun config model inputs i s := by
  induction inputs using List.reverseRecOn generalizing s with
  | nil => exact absurd hs (by simp [run, Runtime.initial])
  | append_singleton inputs input ih =>
    rw [run_concat] at hs answered
    exact sessionRun_step hs wants answered fun s₀ hs₀ hwants hanswered => ih hs₀ hwants hanswered

end Runs

/-- The snapshot of a sequence was stored, once, and its generation is reported when it ends. -/
structure SessionCommitted (config : Setup) (model : LlamaModel F)
    (inputs : List (Input F config.maxSequences)) (i : Fin config.maxSequences)
    (s : SequenceState config.maxSequences) (generation : ℕ) : Prop where
  reported : s.completion.sessionGeneration = some generation
  once : commitsFor i (sinceOpened i (run config model inputs).log) = [(s.sessionPrefix, generation)]
  stored : SnapshotStored config model inputs i s generation

/-- **A snapshot that was asked for is stored exactly if the sequence lands.**  Of every sequence
whose session control asks for a commit, once it reached decoding without a refused command: a
snapshot of its session prefix was stored, or found under its key, once, and its generation is
reported, if and only if the restored tokens end before the session prefix does, or with it just
before the last token of the prompt. -/
theorem session_committed (config : Setup) (model : LlamaModel F)
    (inputs : List (Input F config.maxSequences)) {i : Fin config.maxSequences}
    {s : SequenceState config.maxSequences} (occupied : (run config model inputs).states i = some s)
    (wants : s.WantsCommit) (reached : s.remaining = 0)
    (answered : ¬ RefusedSince i (run config model inputs).log) :
    (∃ generation, SessionCommitted config model inputs i s generation) ↔ s.Lands := by
  have hvalid := valid_run config model inputs
  have hsession := sessionRun inputs occupied wants answered
  have hiff := hsession.committing.lands_iff (hvalid.state occupied) wants reached
  rw [← hiff]
  constructor
  · rintro ⟨generation, hcommitted⟩
    exact ⟨generation, hcommitted.reported⟩
  · rintro ⟨generation, hdone⟩
    exact ⟨generation, hdone, (hsession.committing.done generation hdone).1,
      hsession.stored generation hdone⟩

/-- A sequence of a session is prefilled. -/
def sessionInputs : List (Input Empty sampleSetup.maxSequences) :=
  [openCommand "r" "hello" "v" sessionScope rootSession,
    prefillCommand [stepOf (slotHandle "slot-0" 1) 9],
    prefillCommand [stepOf (slotHandle "slot-0" 1) 9]].map sampleInput

instance (s : SequenceState n) : Decidable s.Lands := inferInstanceAs (Decidable (_ ∨ _))

instance (s : SequenceState n) : Decidable s.WantsCommit :=
  inferInstanceAs (Decidable (∃ control ∈ s.session, control.commit = true))

/-- Its snapshot is stored. -/
theorem session_committed_root : ∃ s generation,
    SessionCommitted sampleSetup sampleModel sessionInputs firstSlot s generation := by
  have hrun : ((run sampleSetup sampleModel sessionInputs).states firstSlot).any
        (fun s => s.WantsCommit ∧ s.remaining = 0 ∧ s.Lands) = true ∧
      ¬ RefusedSince firstSlot (run sampleSetup sampleModel sessionInputs).log := by decide +kernel
  obtain ⟨s, hs, hcounted⟩ := (Option.any_eq_true _ _).mp hrun.1
  obtain ⟨hwants, hreached, hlands⟩ := of_decide_eq_true hcounted
  obtain ⟨generation, hcommitted⟩ :=
    (session_committed sampleSetup sampleModel sessionInputs hs hwants hreached hrun.2).mpr hlands
  exact ⟨s, generation, hcommitted⟩

/-- A model whose replies open with two tokens. -/
def longOpening : LlamaModel Empty :=
  { sampleModel with
    render := fun messages opens =>
      .ok (messages.flatMap (fun message => message.2.map Fin.val) ++ if opens then [3, 3] else []) }

/-- The prompt of a sequence is cached, and a session begins with the same one. -/
def restoredBehind : List (Input Empty sampleSetup.maxSequences) :=
  [openCommand "r" "a message of many" "v" sessionScope .null,
    prefillCommand [stepOf (slotHandle "slot-0" 1) 64],
    openCommand "s" "a message of many" "v" sessionScope rootSession,
    prefillCommand [stepOf (slotHandle "slot-1" 1) 64]].map sampleInput

def secondSlot : Fin sampleSetup.maxSequences := ⟨1, by decide⟩

/-- The restored tokens end behind the session prefix, and its snapshot is never stored. -/
theorem session_not_committed : ∃ i s,
    (run sampleSetup longOpening restoredBehind).states i = some s ∧ s.WantsCommit ∧
      s.remaining = 0 ∧ ¬ RefusedSince i (run sampleSetup longOpening restoredBehind).log ∧
      ¬ ∃ generation, SessionCommitted sampleSetup longOpening restoredBehind i s generation := by
  have hrun : ((run sampleSetup longOpening restoredBehind).states secondSlot).any
        (fun s => s.WantsCommit ∧ s.remaining = 0 ∧ s.committedSessionGeneration = none) = true ∧
      ¬ RefusedSince secondSlot (run sampleSetup longOpening restoredBehind).log := by
    decide +kernel
  obtain ⟨s, hs, hcounted⟩ := (Option.any_eq_true _ _).mp hrun.1
  obtain ⟨hwants, hreached, hnone⟩ := of_decide_eq_true hcounted
  refine ⟨_, s, hs, hwants, hreached, hrun.2, ?_⟩
  rintro ⟨generation, hcommitted⟩
  exact absurd (hnone.symm.trans hcommitted.reported) (by simp)

end Native
