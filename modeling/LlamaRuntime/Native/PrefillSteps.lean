/-
What `prefill_batch` does.

* `Storing`, `Prefilling` — one step of a batch: the counters advance, and a snapshot
  may be stored;
* `PrefillRun` — the steps follow one another until one is refused;
* `PrefillBatch` — a command is refused, its batch is not decoded, or its steps
  follow (`prefillBatch`).
-/
import LlamaRuntime.Native.RuntimeInvariant

namespace Native

open Json

variable {n : ℕ} {F : Type}

/-- A step of a batch asks for tokens of a sequence that is being prefilled. -/
structure PrefillWork.Valid (r : Runtime n) (w : PrefillWork F n) (s : SequenceState n) : Prop where
  state : r.states w.slot = some s
  prefilling : (r.engine.slots w.slot).lifecycle = .prefill
  budget : ∃ budget, 0 < budget ∧ w.logicalTokens = s.logicalTokens budget
  physical : w.physicalTokens = s.physicalTokens w.logicalTokens

theorem PrefillWork.Valid.frame {r r' : Runtime n} {w : PrefillWork F n} {s : SequenceState n}
    (h : w.Valid r s) {i : Fin n} (hframe : r.Frame i r') (hi : w.slot ≠ i) : w.Valid r' s :=
  ⟨(hframe.states _ hi).trans h.state, by rw [hframe.slots _ hi]; exact h.prefilling, h.budget,
    h.physical⟩

/-- A step accounts a token at least, and no more than there are. -/
theorem logicalTokens_bounds (s : SequenceState n) {budget : ℕ} (hbudget : 0 < budget)
    (hremaining : 0 < s.remaining) :
    0 < s.logicalTokens budget ∧ s.logicalTokens budget ≤ s.remaining ∧
      s.logicalTokens budget ≤ budget := by
  unfold SequenceState.logicalTokens prefixCacheCheckpointTokens
  dsimp only
  split_ifs with h₁ h₂ h₃
  · omega
  · have hbefore := h₂.2
    omega
  · have hmod := Nat.mod_lt s.physicalPromptDecoded (by omega : 0 < 64)
    omega
  · omega

/-- The slot of a sequence after a step. -/
def prefilledSlot (slot : Slot) (logical : ℕ) : Slot :=
  { slot with
    promptTokensProcessed := slot.promptTokensProcessed + logical
    lifecycle :=
      if slot.promptTokensProcessed + logical = slot.promptTokens then .decode else slot.lifecycle }

section

variable {config : Setup} {r : Runtime n} {w : PrefillWork F n} {s : SequenceState n}

theorem PrefillWork.Valid.bounds (hw : w.Valid r s) (h : r.Valid config) :
    0 < s.remaining ∧ 0 < w.logicalTokens ∧ w.logicalTokens ≤ s.remaining := by
  have hstate := h.state hw.state
  have hslot := (h.engine.slot w.slot).prefilling hw.prefilling
  have hremaining : 0 < s.remaining := by
    unfold SequenceState.remaining
    rw [hstate.prompt, hstate.logical]
    omega
  obtain ⟨budget, hbudget, hlogical⟩ := hw.budget
  obtain ⟨hpos, hle, -⟩ := logicalTokens_bounds s hbudget hremaining
  exact ⟨hremaining, hlogical ▸ hpos, hlogical ▸ hle⟩

/-- The engine accounts what a step asks for. -/
theorem PrefillWork.Valid.advances (hw : w.Valid r s) (h : r.Valid config) :
    r.engine.advancePrefill s.internal w.logicalTokens
      = (.applied,
        r.engine.put w.slot (prefilledSlot (r.engine.slots w.slot) w.logicalTokens)) := by
  have hstate := h.state hw.state
  obtain ⟨-, hpos, hle⟩ := hw.bounds h
  unfold SequenceState.remaining at hle
  rw [hstate.prompt, hstate.logical] at hle
  rw [hstate.internal]
  refine (Engine.onSlot_handle hstate.ne_released _).trans ?_
  rw [if_neg (not_not.mpr hw.prefilling), if_neg (by omega)]
  rfl

/-- The counters of a sequence after a step. -/
theorem PrefillWork.Valid.counts (hw : w.Valid r s) (h : r.Valid config) (elapsed : ℚ) :
    StateValid (prefilledSlot (r.engine.slots w.slot) w.logicalTokens) w.slot
      (s.prefilled w.logicalTokens w.physicalTokens elapsed) := by
  have hstate := h.state hw.state
  obtain ⟨hremaining, hpos, hle⟩ := hw.bounds h
  have hphysical := hstate.physical
  have hnPast := hstate.nPast
  have hfresh := hstate.prefilling hw.prefilling
  have hprompt := hstate.prompt
  have hlogical := hstate.logical
  have hbudget := ((h.engine.slot w.slot).sized hstate.ne_released).2
  have htokens := hw.physical
  unfold SequenceState.physicalTokens at htokens
  unfold SequenceState.remaining at hremaining hle htokens
  refine ⟨hstate.internal, ?_, hprompt, ?_, ?_, ?_, fun _ => hfresh, ?_, hstate.pending, hstate.sampler,
    fun ht => ?_, hstate.sessionPrefix⟩
  · by_cases hend : (r.engine.slots w.slot).promptTokensProcessed + w.logicalTokens
        = (r.engine.slots w.slot).promptTokens
    · exact .inr (.inl (if_pos hend))
    · exact .inl ((if_neg hend).trans hw.prefilling)
  · show s.logicalPrefillProcessed + w.logicalTokens
      = (r.engine.slots w.slot).promptTokensProcessed + w.logicalTokens
    rw [hlogical]
  · show s.physicalPromptDecoded + w.physicalTokens
      = min (s.logicalPrefillProcessed + w.logicalTokens) (s.prompt.length - 1)
    split_ifs at htokens with hend
    · omega
    · omega
  · show s.physicalPromptDecoded + w.physicalTokens
      = s.physicalPromptDecoded + w.physicalTokens + (r.engine.slots w.slot).decodedTokens
    omega
  · intro hdecode
    change (if (r.engine.slots w.slot).promptTokensProcessed + w.logicalTokens
      = (r.engine.slots w.slot).promptTokens then Lifecycle.decode
      else (r.engine.slots w.slot).lifecycle) = .decode at hdecode
    rw [hw.prefilling] at hdecode
    split_ifs at hdecode with hend
    refine ⟨?_, ?_⟩
    · show s.logicalPrefillProcessed + w.logicalTokens = s.prompt.length
      omega
    · show (r.engine.slots w.slot).decodedTokens < (r.engine.slots w.slot).outputTokenBudget
      omega
  · -- a sequence that ended is not prefilled
    have hterminal := hstate.ended ht
    rw [hw.prefilling] at hterminal
    exact absurd hterminal (by simp)

end

/-- The operation that stores the session prefix of a sequence. -/
def SequenceState.commitOp (s : SequenceState n) (control : SessionControl) (cells : List Cell)
    (reply : CaptureReply) : CacheOp :=
  .storeSession s.cacheIdentity control.sessionId control.parentGeneration s.sessionCommitKey
    s.sessionPrefix cells reply

/-- The operation that stores the prompt of a sequence as far as it was decoded. -/
def SequenceState.storeOp (s : SequenceState n) (cells : List Cell) (reply : CaptureReply) :
    CacheOp :=
  .store s.cacheIdentity (s.prompt.take s.physicalPromptDecoded) cells reply

/-- The session prefix of a sequence ends where the prompt was decoded to, and is to be stored. -/
def SequenceState.Commits (s : SequenceState n) : Prop :=
  s.cacheIdentity ≠ [] ∧ s.CommitPending ∧ s.physicalPromptDecoded = s.sessionPrefix.length

/-- What is stored after a step. -/
inductive Storing (r : Runtime n) (i : Fin n) (s : SequenceState n) (reply : CaptureReply) :
    Runtime n × Except Fault Unit → Prop
  | nothing (idle : ¬ s.Commits) : Storing r i s reply (r, .ok ())
  | stored (plain : s.session = none) :
      Storing r i s reply
        ({ r with cache := r.cache.after (s.storeOp (r.memory i) reply) }, .ok ())
  | refused (control : SessionControl) (session : s.session = some control) (commits : s.Commits)
      (refusal : (r.cache.storeSession s.cacheIdentity control.sessionId control.parentGeneration
        s.sessionCommitKey s.sessionPrefix (r.memory i) reply).2 = none) :
      Storing r i s reply
        ({ r with cache := r.cache.after (s.commitOp control (r.memory i) reply) },
          refuse "session_commit_failed")
  | committed (control : SessionControl) (session : s.session = some control) (commits : s.Commits)
      (committed : SessionStore)
      (stored : (r.cache.storeSession s.cacheIdentity control.sessionId control.parentGeneration
        s.sessionCommitKey s.sessionPrefix (r.memory i) reply).2 = some committed) :
      Storing r i s reply
        ((({ r with cache := r.cache.after (s.commitOp control (r.memory i) reply) } :
              Runtime n).putState i
            { s with
              committedSessionGeneration := some committed.generation
              sessionCopyOnWrite := committed.copyOnWrite }).record
          (.committed i s.sessionPrefix committed.generation), .ok ())

theorem storing (r : Runtime n) (i : Fin n) (s : SequenceState n) (reply : CaptureReply) :
    Storing r i s reply (r.storePrefix i s reply) := by
  unfold Runtime.storePrefix
  by_cases hidentity : s.cacheIdentity = []
  · rw [if_pos hidentity]
    exact .nothing fun hcommits => hcommits.1 hidentity
  rw [if_neg hidentity]
  split
  · next control hsession =>
    by_cases hcommit : control.commit = true ∧ s.committedSessionGeneration = none ∧
        s.physicalPromptDecoded = s.sessionPrefix.length
    · rw [if_pos hcommit]
      have hcommits : s.Commits :=
        ⟨hidentity, ⟨control, hsession, hcommit.1, hcommit.2.1⟩, hcommit.2.2⟩
      dsimp only
      split
      · next hrefusal => exact .refused control hsession hcommits hrefusal
      · next committed hstored => exact .committed control hsession hcommits committed hstored
    · rw [if_neg hcommit]
      refine .nothing fun ⟨_, ⟨control', hmem, hpending⟩, hends⟩ => hcommit ?_
      obtain rfl := Option.some_inj.mp (hsession.symm.trans hmem)
      exact ⟨hpending.1, hpending.2, hends⟩
  · next hsession =>
    split_ifs
    · exact .stored hsession
    · refine .nothing fun ⟨_, ⟨control, hmem, _⟩, _⟩ => ?_
      rw [hsession] at hmem
      exact absurd hmem (by simp)

/-- The process after the counters of a step have advanced. -/
def Runtime.counted (r : Runtime n) (w : PrefillWork F n) (s : SequenceState n) : Runtime n :=
  { r.putState w.slot s with
    engine := r.engine.put w.slot (prefilledSlot (r.engine.slots w.slot) w.logicalTokens) }

/-- What one step of a batch does once the batch is decoded. -/
inductive Prefilling (r : Runtime n) (captures : Fin n → CaptureReply) (w : PrefillWork F n)
    (s : SequenceState n) : Runtime n × Except Fault (PrefillOutcome F) → Prop
  | done (r' : Runtime n)
      (stored : Storing (r.counted w s) w.slot s (captures w.slot) (r', .ok ())) :
      Prefilling r captures w s
        (r', .ok ⟨w.handle, s.remaining = 0, w.logicalTokens, s.remaining⟩)
  | refused (r' : Runtime n) (fault : Fault)
      (stored : Storing (r.counted w s) w.slot s (captures w.slot) (r', .error fault)) :
      Prefilling r captures w s (r', .error fault)

/-- The state of a sequence after a step, before anything is stored. -/
abbrev PrefillWork.next (w : PrefillWork F n) (s : SequenceState n) (elapsed : ℚ) :
    SequenceState n :=
  s.prefilled w.logicalTokens w.physicalTokens elapsed

theorem prefilling {config : Setup} {r : Runtime n} {w : PrefillWork F n} {s : SequenceState n}
    (hw : w.Valid r s) (h : r.Valid config) (elapsed : ℚ) (captures : Fin n → CaptureReply) :
    Prefilling r captures w (w.next s elapsed) (r.prefillOne elapsed captures w) := by
  unfold Runtime.prefillOne
  rw [hw.state]
  have hinternal : (w.next s elapsed).internal = s.internal := rfl
  have hstoring := storing (r.counted w (w.next s elapsed)) w.slot (w.next s elapsed)
    (captures w.slot)
  have hadvanced : ({ r.putState w.slot (w.next s elapsed) with
      engine := (r.engine.advancePrefill s.internal w.logicalTokens).2 } : Runtime n)
        = r.counted w (w.next s elapsed) := by
    rw [hw.advances h]
    rfl
  dsimp only
  rw [hinternal, hadvanced, if_neg (by rw [hw.advances h]; simp)]
  revert hstoring
  generalize (r.counted w (w.next s elapsed)).storePrefix w.slot (w.next s elapsed)
    (captures w.slot) = result
  intro hstoring
  obtain ⟨r', outcome⟩ := result
  cases outcome with
  | error fault => exact .refused r' fault hstoring
  | ok u => exact .done r' hstoring

/-- What a step leaves in the tables. -/
structure Counted (r r' : Runtime n) (w : PrefillWork F n) (s : SequenceState n) : Prop where
  frame : r.Frame w.slot r'
  slot : r'.engine.slots w.slot = prefilledSlot (r.engine.slots w.slot) w.logicalTokens
  state : ∃ generation copyOnWrite, r'.states w.slot = some { s with
    committedSessionGeneration := generation, sessionCopyOnWrite := copyOnWrite }

/-- Storing leaves the tables as they are, but for what is noted of the session. -/
theorem Storing.counted {r r' : Runtime n} {w : PrefillWork F n} {s : SequenceState n}
    {reply : CaptureReply} {outcome : Except Fault Unit}
    (h : Storing (r.counted w s) w.slot s reply (r', outcome)) : Counted r r' w s := by
  have hframe : r.Frame w.slot (r.counted w s) :=
    ⟨fun j hj => Function.update_of_ne hj _ _, fun j hj => Function.update_of_ne hj _ _, rfl⟩
  have hslot : (r.counted w s).engine.slots w.slot
      = prefilledSlot (r.engine.slots w.slot) w.logicalTokens := Function.update_self _ _ _
  have hstate : (r.counted w s).states w.slot = some s := Function.update_self _ _ _
  rcases h with _ | _ | _ | ⟨_, _, _, committed⟩
  · exact ⟨hframe, hslot, s.committedSessionGeneration, s.sessionCopyOnWrite, hstate⟩
  · exact ⟨⟨hframe.states, hframe.slots, hframe.memory⟩, hslot, s.committedSessionGeneration,
      s.sessionCopyOnWrite, hstate⟩
  · exact ⟨⟨hframe.states, hframe.slots, hframe.memory⟩, hslot, s.committedSessionGeneration,
      s.sessionCopyOnWrite, hstate⟩
  · refine ⟨⟨fun j hj => ?_, hframe.slots, hframe.memory⟩, hslot, some committed.generation,
      committed.copyOnWrite, Function.update_self _ _ _⟩
    exact (Function.update_of_ne hj _ _).trans (hframe.states j hj)

/-- A step keeps what holds. -/
theorem Storing.valid {config : Setup} {r r' : Runtime n} {w : PrefillWork F n}
    {s₀ s : SequenceState n} (hw : w.Valid r s₀) (h : r.Valid config)
    (hs : StateValid (prefilledSlot (r.engine.slots w.slot) w.logicalTokens) w.slot s)
    {reply : CaptureReply} {outcome : Except Fault Unit}
    (stored : Storing (r.counted w s) w.slot s reply (r', outcome)) : r'.Valid config := by
  have hengine : (r.counted w s).engine.Valid := by
    have hadvance := h.engine.advancePrefill s₀.internal w.logicalTokens
    rw [hw.advances h] at hadvance
    exact hadvance
  have hcounted := stored.counted
  have hrest : r'.engine = (r.counted w s).engine ∧ r'.samplers = r.samplers ∧
      CacheHistory config r'.cache := by
    have history : CacheHistory config (r.counted w s).cache := h.cache
    cases stored with
    | nothing => exact ⟨rfl, rfl, history⟩
    | stored => exact ⟨rfl, rfl, history.after (s.storeOp _ reply)⟩
    | refused control => exact ⟨rfl, rfl, history.after (s.commitOp control _ reply)⟩
    | committed control => exact ⟨rfl, rfl, history.after (s.commitOp control _ reply)⟩
  obtain ⟨hsame, hsamplers, history⟩ := hrest
  refine h.replace w.slot (hsame ▸ hengine) (by rw [hsame]; rfl) hcounted.frame.slots
    hcounted.frame.states ?_ (by rw [hsamplers]; exact h.samplers) history
  obtain ⟨generation, copyOnWrite, hstate⟩ := hcounted.state
  rw [hcounted.slot, hstate]
  exact ⟨hs.internal, hs.live, hs.prompt, hs.logical, hs.physical, hs.nPast, hs.prefilling,
    hs.decoding, hs.pending, hs.sampler, hs.ended, hs.sessionPrefix⟩

/-- The steps of a batch name distinct sequences that are being prefilled. -/
structure Runtime.Prefills (r : Runtime n) (work : List (PrefillWork F n)) : Prop where
  distinct : (work.map PrefillWork.slot).Nodup
  valid : ∀ w ∈ work, ∃ s, w.Valid r s

theorem Runtime.Prefills.tail {r r' : Runtime n} {w : PrefillWork F n} {rest : List (PrefillWork F n)}
    (h : r.Prefills (w :: rest)) (hframe : r.Frame w.slot r') : r'.Prefills rest := by
  have hdistinct := List.nodup_cons.mp (List.map_cons ▸ h.distinct)
  refine ⟨hdistinct.2, fun w' hw' => ?_⟩
  obtain ⟨s, hs⟩ := h.valid w' (List.mem_cons_of_mem w hw')
  refine ⟨s, hs.frame hframe fun heq => hdistinct.1 ?_⟩
  exact heq ▸ List.mem_map_of_mem hw'

/-- What follows the decoding of a batch: its steps are done one after the other until one
is refused. -/
inductive PrefillRun (config : Setup) (elapsed : ℚ) (captures : Fin n → CaptureReply) :
    Runtime n → List (PrefillWork F n) → Runtime n × Except Fault (List (PrefillOutcome F)) → Prop
  | nil {r : Runtime n} (valid : r.Valid config) : PrefillRun config elapsed captures r [] (r, .ok [])
  | refused {r r' : Runtime n} {w : PrefillWork F n} {rest : List (PrefillWork F n)}
      {s : SequenceState n} {fault : Fault} (valid : r.Valid config)
      (prefills : r.Prefills (w :: rest)) (work : w.Valid r s) (valid' : r'.Valid config)
      (one : Prefilling r captures w (w.next s elapsed) (r', .error fault)) :
      PrefillRun config elapsed captures r (w :: rest) (r', .error fault)
  | next {r r' : Runtime n} {w : PrefillWork F n} {rest : List (PrefillWork F n)}
      {s : SequenceState n} {outcome : PrefillOutcome F}
      {result : Runtime n × Except Fault (List (PrefillOutcome F))} (valid : r.Valid config)
      (prefills : r.Prefills (w :: rest)) (work : w.Valid r s)
      (one : Prefilling r captures w (w.next s elapsed) (r', .ok outcome))
      (later : PrefillRun config elapsed captures r' rest result) :
      PrefillRun config elapsed captures r (w :: rest)
        (result.1, result.2.map fun outcomes => outcome :: outcomes)

theorem Prefilling.counted {r r' : Runtime n} {captures : Fin n → CaptureReply}
    {w : PrefillWork F n} {s : SequenceState n} {outcome : Except Fault (PrefillOutcome F)}
    (h : Prefilling r captures w s (r', outcome)) : Counted r r' w s := by
  rcases h with ⟨_, stored⟩ | ⟨_, fault, stored⟩
  · exact stored.counted
  · exact stored.counted

theorem Prefilling.valid {config : Setup} {r r' : Runtime n} {captures : Fin n → CaptureReply}
    {w : PrefillWork F n} {s : SequenceState n} {elapsed : ℚ} (hw : w.Valid r s)
    (h : r.Valid config) {outcome : Except Fault (PrefillOutcome F)}
    (hone : Prefilling r captures w (w.next s elapsed) (r', outcome)) : r'.Valid config := by
  have hcounts := hw.counts h elapsed
  rcases hone with ⟨_, stored⟩ | ⟨_, fault, stored⟩
  · exact stored.valid hw h hcounts
  · exact stored.valid hw h hcounts

theorem prefillRun {config : Setup} (elapsed : ℚ) (captures : Fin n → CaptureReply)
    (work : List (PrefillWork F n)) {r : Runtime n} (hwork : r.Prefills work)
    (h : r.Valid config) :
    PrefillRun config elapsed captures r work (Runtime.prefillAll elapsed captures r work) := by
  induction work generalizing r with
  | nil => exact .nil h
  | cons w rest ih =>
    obtain ⟨s, hw⟩ := hwork.valid w List.mem_cons_self
    have hone := prefilling hw h elapsed captures
    unfold Runtime.prefillAll
    revert hone
    generalize r.prefillOne elapsed captures w = result
    intro hone
    obtain ⟨r', outcome⟩ := result
    have hvalid := hone.valid hw h
    cases outcome with
    | error fault => exact .refused h hwork hw hvalid hone
    | ok outcome =>
      have hlater := ih (hwork.tail hone.counted.frame) hvalid
      have hnext := PrefillRun.next h hwork hw hone hlater
      revert hnext
      dsimp only
      generalize Runtime.prefillAll elapsed captures r' rest = result
      intro hnext
      obtain ⟨r'', outcomes⟩ := result
      cases outcomes with
      | error fault => exact hnext
      | ok outcomes => exact hnext

theorem PrefillRun.valid {config : Setup} {elapsed : ℚ} {captures : Fin n → CaptureReply}
    {r : Runtime n} {work : List (PrefillWork F n)}
    {result : Runtime n × Except Fault (List (PrefillOutcome F))}
    (h : PrefillRun config elapsed captures r work result) : result.1.Valid config := by
  induction h with
  | nil valid => exact valid
  | refused _ _ _ valid' _ => exact valid'
  | next _ _ _ _ _ ih => exact ih

section Batch

variable {config : Setup} {r : Runtime config.maxSequences}

theorem prefillStep_ok (h : r.Valid config) {seen : List (Fin config.maxSequences)} {step : Value F}
    {w : PrefillWork F config.maxSequences} (hstep : prefillStep config r seen step = .ok w) :
    w.slot ∉ seen ∧ ∃ s, w.Valid r s ∧ StepFor config r step w.handle w.slot s := by
  unfold prefillStep at hstep
  obtain ⟨_, -, hstep⟩ := bind_eq_ok.mp hstep
  obtain ⟨handle, hhandle, hstep⟩ := bind_eq_ok.mp hstep
  split at hstep
  · exact absurd hstep (by simp [refuse])
  · next slot generation hparse =>
    obtain ⟨_, hseen, hstep⟩ := bind_eq_ok.mp hstep
    split at hstep
    · exact absurd hstep (by simp [refuse])
    · next i s hnamed =>
      obtain ⟨_, hlifecycle, hstep⟩ := bind_eq_ok.mp hstep
      obtain ⟨raw, hraw, hstep⟩ := bind_eq_ok.mp hstep
      obtain ⟨budget, hbudget, hstep⟩ := bind_eq_ok.mp hstep
      obtain ⟨_, -, hstep⟩ := bind_eq_ok.mp hstep
      obtain rfl := Except.ok.inj hstep
      obtain ⟨generation', hparse', hs, hgeneration⟩ := Runtime.named_eq_some.mp hnamed
      obtain ⟨rfl, rfl⟩ := Prod.mk.inj (Option.some_inj.mp (hparse.symm.trans hparse'))
      rw [check_eq_ok] at hseen hlifecycle
      rw [h.lifecycle hs] at hlifecycle
      exact ⟨hseen, s, ⟨hs, Option.some_inj.mp hlifecycle, ⟨budget, positiveSize_pos hbudget, rfl⟩, rfl⟩,
        hhandle, hnamed⟩

theorem prefillWork_ok (h : r.Valid config) {steps : List (Value F)}
    {seen : List (Fin config.maxSequences)} {work : List (PrefillWork F config.maxSequences)}
    (hwork : prefillWork config r seen steps = .ok work) :
    r.Prefills work ∧ (∀ w ∈ work, w.slot ∉ seen) ∧
      List.Forall₂ (fun step w => ∃ s, StepFor config r step w.handle w.slot s) steps work := by
  induction steps generalizing seen work with
  | nil =>
    obtain rfl := Except.ok.inj hwork
    exact ⟨⟨List.nodup_nil, by simp⟩, by simp, .nil⟩
  | cons step rest ih =>
    unfold prefillWork at hwork
    obtain ⟨w, hstep, hwork⟩ := bind_eq_ok.mp hwork
    obtain ⟨others, hothers, hwork⟩ := bind_eq_ok.mp hwork
    obtain rfl := Except.ok.inj hwork
    obtain ⟨hseen, s, hw, hfor⟩ := prefillStep_ok h hstep
    obtain ⟨hprefills, hfresh, hsteps⟩ := ih hothers
    refine ⟨⟨?_, ?_⟩, ?_, .cons ⟨s, hfor⟩ hsteps⟩
    · rw [List.map_cons, List.nodup_cons]
      refine ⟨fun hmem => ?_, hprefills.distinct⟩
      obtain ⟨w', hw', heq⟩ := List.mem_map.mp hmem
      exact hfresh w' hw' (heq ▸ List.mem_cons_self)
    · intro w' hw'
      rcases List.mem_cons.mp hw' with rfl | hw'
      · exact ⟨s, hw⟩
      · exact hprefills.valid w' hw'
    · intro w' hw'
      rcases List.mem_cons.mp hw' with rfl | hw'
      · exact hseen
      · exact fun hmem => hfresh w' hw' (List.mem_cons_of_mem _ hmem)

end Batch

/-- The process once the batch of the steps is decoded; an empty one is not. -/
def Runtime.prefillDecoded (r : Runtime n) (work : List (PrefillWork F n)) (answer : DecodeAnswer) :
    Runtime n :=
  if r.prefillCells work = [] then r else r.decode (r.prefillCells work) answer

theorem Runtime.Prefills.tables {r r' : Runtime n} {work : List (PrefillWork F n)}
    (h : r.Prefills work) (hengine : r'.engine = r.engine) (hstates : r'.states = r.states) :
    r'.Prefills work := by
  refine ⟨h.distinct, fun w hw => ?_⟩
  obtain ⟨s, hs⟩ := h.valid w hw
  exact ⟨s, hstates ▸ hs.state, hengine ▸ hs.prefilling, hs.budget, hs.physical⟩

theorem Runtime.prefillDecoded_tables (r : Runtime n) (work : List (PrefillWork F n))
    (answer : DecodeAnswer) :
    (r.prefillDecoded work answer).engine = r.engine ∧
      (r.prefillDecoded work answer).states = r.states ∧
      (r.prefillDecoded work answer).cache = r.cache ∧
      (r.prefillDecoded work answer).samplers = r.samplers := by
  unfold Runtime.prefillDecoded
  split_ifs
  · exact ⟨rfl, rfl, rfl, rfl⟩
  · exact ⟨rfl, rfl, rfl, rfl⟩

/-- What `prefill_batch` does: it is refused and changes nothing; the batch is not decoded;
or the steps follow until one is refused. -/
inductive PrefillBatch (config : Setup) (r : Runtime config.maxSequences) (command : Value F)
    (out : PrefillReply config.maxSequences) :
    Runtime config.maxSequences × Reply config.maxSequences F → Prop
  | rejected (fault : Fault) : PrefillBatch config r command out (r, .fault fault)
  | undecoded (steps : List (Value F)) (work : List (PrefillWork F config.maxSequences))
      (prefills : r.Prefills work) (command_steps : field command "steps" = .ok (.list steps))
      (steps_for : List.Forall₂ (fun step w => ∃ s, StepFor config r step w.handle w.slot s)
        steps work) (kept : ℕ → Bool) (failure : out.decoded = .failure kept) :
      PrefillBatch config r command out
        (r.decode (r.prefillCells work) (.failure kept), .fault (.error (py "decode_failed")))
  | followed (steps : List (Value F)) (work : List (PrefillWork F config.maxSequences))
      (prefills : r.Prefills work) (command_steps : field command "steps" = .ok (.list steps))
      (steps_for : List.Forall₂ (fun step w => ∃ s, StepFor config r step w.handle w.slot s)
        steps work)
      (result : Runtime config.maxSequences × Except Fault (List (PrefillOutcome F)))
      (run : PrefillRun config out.elapsed out.captures (r.prefillDecoded work .success) work
        result) :
      PrefillBatch config r command out
        (result.1, result.2.casesOn (fun fault => .fault fault) .prefillCompleted)

theorem prefillBatch {config : Setup} {r : Runtime config.maxSequences} (h : r.Valid config)
    (command : Value F) (out : PrefillReply config.maxSequences) :
    PrefillBatch config r command out (r.prefillBatch config command out) := by
  unfold Runtime.prefillBatch
  split
  · exact .rejected _
  · next work hok =>
    obtain ⟨steps, hsteps, hwork⟩ := bind_eq_ok.mp hok
    obtain ⟨hprefills, -, hfor⟩ := prefillWork_ok h hwork
    have hcommand := stepsOf_ok hsteps
    unfold Runtime.runPrefill
    dsimp only
    by_cases hbudget : config.tickTokenBudget < (work.map PrefillWork.physicalTokens).sum ∨
        config.nBatch < (work.map PrefillWork.physicalTokens).sum
    · rw [if_pos hbudget]
      exact .rejected _
    rw [if_neg hbudget]
    have hfollowed : ∀ r' : Runtime config.maxSequences, r' = r.prefillDecoded work .success →
        PrefillBatch config r command out
          ((Runtime.prefillAll out.elapsed out.captures r' work).1,
            (Runtime.prefillAll out.elapsed out.captures r' work).2.casesOn
              (fun fault => .fault fault) .prefillCompleted) := by
      rintro _ rfl
      obtain ⟨hengine, hstates, hcache, hsamplers⟩ := r.prefillDecoded_tables work .success
      have hrun := prefillRun out.elapsed out.captures work (hprefills.tables hengine hstates)
        (h.tables hengine hstates hcache hsamplers)
      exact PrefillBatch.followed steps work hprefills hcommand.1 hfor _ hrun
    by_cases hempty : r.prefillCells work = []
    · rw [if_pos hempty]
      have hresult := hfollowed r (by unfold Runtime.prefillDecoded; rw [if_pos hempty])
      revert hresult
      generalize Runtime.prefillAll out.elapsed out.captures r work = result
      rcases result with ⟨r', fault | outcomes⟩
      · exact id
      · exact id
    · rw [if_neg hempty]
      cases hdecoded : out.decoded with
      | failure kept => exact .undecoded steps work hprefills hcommand.1 hfor kept hdecoded
      | success =>
        have hresult := hfollowed _ (by unfold Runtime.prefillDecoded; rw [if_neg hempty])
        revert hresult
        dsimp only
        generalize Runtime.prefillAll out.elapsed out.captures _ work = result
        rcases result with ⟨r', fault | outcomes⟩
        · exact id
        · exact id

end Native
