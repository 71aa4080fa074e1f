/-
The order of the steps of a prefill batch.

* `PrefillAsked` — the work that a command asks for, and `prefillBatch_cases` — the
  command is refused as a whole, or its batch is decoded and its steps follow;
* `CommitRefused` — the commit of a step is refused, which stops the batch;
* `cutOff` — the steps after that one, whose tokens are decoded and not accounted;
* `followed` — the others, each of which finds the snapshot of its session in the cache
  if it commits.
-/
import LlamaRuntime.Native.BatchCells

namespace Native

open Json

variable {n : ℕ} {F : Type}

/-! ### What a command asks for -/

/-- The work that the steps of a command ask for. -/
structure PrefillAsked (config : Setup) (r : Runtime config.maxSequences) (command : Value F)
    (steps : List (Value F)) (work : List (PrefillWork F config.maxSequences)) : Prop where
  asked : stepsOf command config.maxSequences "prefill_steps_invalid" = .ok steps
  found : prefillWork config r [] steps = .ok work

/-- How many tokens of the prompts some work decodes. -/
def decodedTokens (work : List (PrefillWork F n)) : ℕ := (work.map PrefillWork.physicalTokens).sum

/-- The work fits into one call. -/
def Fits (config : Setup) (work : List (PrefillWork F n)) : Prop :=
  decodedTokens work ≤ config.tickTokenBudget ∧ decodedTokens work ≤ config.nBatch

instance (config : Setup) (work : List (PrefillWork F n)) : Decidable (Fits config work) :=
  inferInstanceAs (Decidable (_ ∧ _))

/-- The answer to steps that were followed. -/
def prefillReply (result : Runtime n × Except Fault (List (PrefillOutcome F))) :
    Runtime n × Reply n F :=
  (result.1, result.2.casesOn (fun fault => .fault fault) .prefillCompleted)

section Asked

variable {config : Setup} {r : Runtime config.maxSequences} {command : Value F}
  {steps : List (Value F)} {work : List (PrefillWork F config.maxSequences)}
  {out : PrefillReply config.maxSequences}

/-- A command that asks for work is that work. -/
theorem PrefillAsked.batch_eq (h : PrefillAsked config r command steps work) :
    r.prefillBatch config command out = prefillReply (r.runPrefill config work out) := by
  have hasked : (do
      let steps ← stepsOf command config.maxSequences "prefill_steps_invalid"
      prefillWork config r [] steps) = Except.ok work := by
    rw [h.asked]
    exact h.found
  unfold Runtime.prefillBatch
  rw [hasked]
  dsimp only
  generalize r.runPrefill config work out = result
  obtain ⟨r', outcome⟩ := result
  cases outcome with
  | error fault => rfl
  | ok outcomes => rfl

theorem PrefillAsked.prefills (h : PrefillAsked config r command steps work)
    (hvalid : r.Valid config) : r.Prefills work := (prefillWork_ok hvalid h.found).1

theorem PrefillAsked.steps_for (h : PrefillAsked config r command steps work)
    (hvalid : r.Valid config) :
    List.Forall₂ (fun step w => ∃ s, StepFor config r step w.handle w.slot s) steps work :=
  (prefillWork_ok hvalid h.found).2.2

theorem runPrefill_within (r : Runtime config.maxSequences) (out : PrefillReply config.maxSequences)
    (hfits : Fits config work) :
    r.runPrefill config work out =
      if r.prefillCells work = [] then Runtime.prefillAll out.elapsed out.captures r work
      else
        match out.decoded with
        | .failure kept => (r.decode (r.prefillCells work) (.failure kept), refuse "decode_failed")
        | .success => Runtime.prefillAll out.elapsed out.captures
            (r.decode (r.prefillCells work) .success) work := by
  have hbudget : ¬ (config.tickTokenBudget < decodedTokens work ∨
      config.nBatch < decodedTokens work) := by
    have htick := hfits.1
    have hbatch := hfits.2
    omega
  refine (if_neg hbudget).trans ?_
  dsimp only
  cases out.decoded with
  | success => rfl
  | failure kept => rfl

/-- The steps of a batch are followed if it fits and is decoded. -/
theorem runPrefill_fits (r : Runtime config.maxSequences) (hfits : Fits config work)
    (hdecoded : out.decoded = .success) :
    r.runPrefill config work out
      = Runtime.prefillAll out.elapsed out.captures (r.prefillDecoded work .success) work := by
  rw [runPrefill_within r out hfits, hdecoded]
  unfold Runtime.prefillDecoded
  split_ifs
  · rfl
  · rfl

theorem runPrefill_exceeds (r : Runtime config.maxSequences)
    (out : PrefillReply config.maxSequences) (hfits : ¬ Fits config work) :
    r.runPrefill config work out = (r, refuse "tick_token_budget_exceeded") := by
  have hbudget : config.tickTokenBudget < decodedTokens work ∨ config.nBatch < decodedTokens work := by
    unfold Fits at hfits
    omega
  exact if_pos hbudget

/-- A command is refused as a whole; its batch is not decoded; or its steps follow. -/
theorem prefillBatch_cases (r : Runtime config.maxSequences) (command : Value F)
    (out : PrefillReply config.maxSequences) :
    (∃ fault, r.prefillBatch config command out = (r, .fault fault)) ∨
      ∃ steps work, PrefillAsked config r command steps work ∧
        ((∃ kept, out.decoded = .failure kept ∧ r.prefillBatch config command out
            = (r.decode (r.prefillCells work) (.failure kept), .fault (.error (py "decode_failed")))) ∨
          Fits config work ∧ r.prefillBatch config command out
            = prefillReply (Runtime.prefillAll out.elapsed out.captures
                (r.prefillDecoded work .success) work)) := by
  cases hasked : (do
      let steps ← stepsOf command config.maxSequences "prefill_steps_invalid"
      prefillWork config r [] steps) with
  | error fault =>
    refine .inl ⟨fault, ?_⟩
    unfold Runtime.prefillBatch
    rw [hasked]
  | ok work =>
    obtain ⟨steps, hsteps, hwork⟩ := bind_eq_ok.mp hasked
    have hasks : PrefillAsked config r command steps work := ⟨hsteps, hwork⟩
    rw [hasks.batch_eq]
    by_cases hfits : Fits config work
    · refine .inr ⟨steps, work, hasks, ?_⟩
      rw [runPrefill_within r out hfits]
      unfold Runtime.prefillDecoded
      split_ifs
      · exact .inr ⟨hfits, rfl⟩
      · cases out.decoded with
        | success => exact .inr ⟨hfits, rfl⟩
        | failure kept => exact .inl ⟨kept, rfl, rfl⟩
    · rw [runPrefill_exceeds r out hfits]
      exact .inl ⟨_, rfl⟩

end Asked

/-! ### Refused commits -/

instance (s : SequenceState n) : Decidable s.Commits := inferInstanceAs (Decidable (_ ∧ _))

/-- The commit that a step of a batch makes is refused. -/
def Runtime.CommitRefused (r : Runtime n) (captures : Fin n → CaptureReply) (w : PrefillWork F n) :
    Prop :=
  ∃ s ∈ r.states w.slot, ∃ control ∈ s.session, (w.next s 0).Commits ∧
    (r.cache.storeSession s.cacheIdentity control.sessionId control.parentGeneration
      s.sessionCommitKey s.sessionPrefix (r.memory w.slot) (captures w.slot)).2.isNone = true

instance (r : Runtime n) (captures : Fin n → CaptureReply) (w : PrefillWork F n) :
    Decidable (r.CommitRefused captures w) := by
  unfold Runtime.CommitRefused
  infer_instance

/-- The steps that come after a refused commit. -/
def Runtime.cutOff (elapsed : ℚ) (captures : Fin n → CaptureReply) :
    Runtime n → List (PrefillWork F n) → List (PrefillWork F n)
  | _, [] => []
  | r, w :: rest =>
    if r.CommitRefused captures w then rest
    else Runtime.cutOff elapsed captures (r.prefillOne elapsed captures w).1 rest

/-- A step is refused exactly if its commit is. -/
theorem commitRefused_iff {config : Setup} {r : Runtime n} {w : PrefillWork F n}
    {s : SequenceState n} (hw : w.Valid r s) (h : r.Valid config) (elapsed : ℚ)
    (captures : Fin n → CaptureReply) :
    r.CommitRefused captures w ↔ (r.prefillOne elapsed captures w).2.isOk = false := by
  have hone := prefilling hw h elapsed captures
  revert hone
  generalize r.prefillOne elapsed captures w = result
  intro hone
  have hstored : ∀ (r' : Runtime n) (outcome : Except Fault Unit),
      Storing (r.counted w (w.next s elapsed)) w.slot (w.next s elapsed) (captures w.slot)
        (r', outcome) → (r.CommitRefused captures w ↔ outcome.isOk = false) := by
    intro r' outcome hstoring
    have hrefused : r.CommitRefused captures w → ∃ control ∈ s.session, (w.next s 0).Commits ∧
        (r.cache.storeSession s.cacheIdentity control.sessionId control.parentGeneration
          s.sessionCommitKey s.sessionPrefix (r.memory w.slot) (captures w.slot)).2.isNone = true := by
      rintro ⟨s', hs', hrefused⟩
      obtain rfl := Option.some_inj.mp (hw.state.symm.trans hs')
      exact hrefused
    cases hstoring with
    | nothing idle =>
      refine ⟨fun hr => ?_, fun herror => absurd herror (by simp [Except.isOk, Except.toBool])⟩
      obtain ⟨control, -, hcommits, -⟩ := hrefused hr
      exact absurd hcommits idle
    | stored plain =>
      refine ⟨fun hr => ?_, fun herror => absurd herror (by simp [Except.isOk, Except.toBool])⟩
      obtain ⟨control, hsession, -⟩ := hrefused hr
      exact absurd (plain.symm.trans hsession) (by simp)
    | refused control session commits refusal =>
      exact ⟨fun _ => rfl, fun _ => ⟨s, hw.state, control, session, commits,
        Option.isNone_iff_eq_none.mpr refusal⟩⟩
    | committed control session commits committed stored =>
      refine ⟨fun hr => ?_, fun herror => absurd herror (by simp [Except.isOk, Except.toBool])⟩
      obtain ⟨control', hsession, -, hnone⟩ := hrefused hr
      obtain rfl := Option.some_inj.mp (session.symm.trans hsession)
      exact absurd ((Option.isNone_iff_eq_none.mp hnone).symm.trans stored) (by simp)
  rcases hone with ⟨r', stored⟩ | ⟨r', fault, stored⟩
  · exact hstored r' _ stored
  · exact hstored r' _ stored

/-- The process after the steps of a batch, one after the other. -/
theorem prefillAll_cons (elapsed : ℚ) (captures : Fin n → CaptureReply) (r : Runtime n)
    (w : PrefillWork F n) (rest : List (PrefillWork F n)) :
    (∃ r' fault, r.prefillOne elapsed captures w = (r', .error fault) ∧
        Runtime.prefillAll elapsed captures r (w :: rest) = (r', .error fault)) ∨
      ∃ r' outcome, r.prefillOne elapsed captures w = (r', .ok outcome) ∧
        Runtime.prefillAll elapsed captures r (w :: rest)
          = ((Runtime.prefillAll elapsed captures r' rest).1,
            (Runtime.prefillAll elapsed captures r' rest).2.map fun outcomes => outcome :: outcomes) := by
  rw [Runtime.prefillAll]
  obtain ⟨r', outcome⟩ := r.prefillOne elapsed captures w
  cases outcome with
  | error fault => exact .inl ⟨r', fault, rfl, rfl⟩
  | ok outcome =>
    refine .inr ⟨r', outcome, rfl, ?_⟩
    dsimp only
    obtain ⟨r'', outcomes⟩ := Runtime.prefillAll elapsed captures r' rest
    cases outcomes with
    | error fault => rfl
    | ok outcomes => rfl

theorem prefilledSlot_ne {slot : Slot} {logical : ℕ} (hpos : 0 < logical) :
    prefilledSlot slot logical ≠ slot := by
  intro heq
  have hfield := congrArg Slot.promptTokensProcessed heq
  change slot.promptTokensProcessed + logical = slot.promptTokensProcessed at hfield
  omega

/-- A step whose slot is as before comes after a refused commit. -/
theorem mem_cutOff {config : Setup} {elapsed : ℚ} {captures : Fin n → CaptureReply}
    {work : List (PrefillWork F n)} {r : Runtime n} (h : r.Valid config) (hwork : r.Prefills work)
    {w : PrefillWork F n} (hw : w ∈ work)
    (hsame : (Runtime.prefillAll elapsed captures r work).1.engine.slots w.slot
      = r.engine.slots w.slot) :
    w ∈ Runtime.cutOff elapsed captures r work := by
  induction work generalizing r with
  | nil => exact absurd hw List.not_mem_nil
  | cons x rest ih =>
    obtain ⟨s, hx⟩ := hwork.valid x List.mem_cons_self
    obtain ⟨-, hpos, -⟩ := hx.bounds h
    have hdistinct := (List.nodup_cons.mp (List.map_cons ▸ hwork.distinct)).1
    have hone := prefilling hx h elapsed captures
    have hrefused := commitRefused_iff hx h elapsed captures
    unfold Runtime.cutOff
    rcases prefillAll_cons elapsed captures r x rest with ⟨r', fault, hstep, hall⟩ |
      ⟨r', outcome, hstep, hall⟩
    · rw [hstep] at hone hrefused
      rw [hall] at hsame
      rw [if_pos (hrefused.mpr rfl)]
      rcases List.mem_cons.mp hw with rfl | hw
      · exact absurd (hone.counted.slot.symm.trans hsame) (prefilledSlot_ne hpos)
      · exact hw
    · rw [hstep] at hone hrefused
      rw [hall] at hsame
      have hok : ¬ r.CommitRefused captures x := fun hr =>
        absurd (hrefused.mp hr) (by simp [Except.isOk, Except.toBool])
      have hframe := hone.counted.frame
      have hvalid := hone.valid hx h
      have htail := hwork.tail hframe
      rw [if_neg hok, hstep]
      rcases List.mem_cons.mp hw with rfl | hw
      · obtain ⟨entries, hspec⟩ := (prefillRun elapsed captures rest htail hvalid).spec
        have hslot := (hspec.others w.slot hdistinct).2.1.trans hone.counted.slot
        exact absurd (hslot.symm.trans hsame) (prefilledSlot_ne hpos)
      · have hne : w.slot ≠ x.slot := fun heq => hdistinct (heq ▸ List.mem_map_of_mem hw)
        exact ih hvalid htail hw (hsame.trans (hframe.slots _ hne).symm)

/-! ### Snapshots -/

/-- The steps that are followed, and the process as each finds it. -/
def Runtime.followed (elapsed : ℚ) (captures : Fin n → CaptureReply) :
    Runtime n → List (PrefillWork F n) → List (Runtime n × PrefillWork F n)
  | _, [] => []
  | r, w :: rest =>
    (r, w) ::
      if r.CommitRefused captures w then []
      else Runtime.followed elapsed captures (r.prefillOne elapsed captures w).1 rest

/-- The cache holds the snapshot of the session prefix of a sequence under its generation. -/
def SequenceState.SnapshotIn (s : SequenceState n) (c : PromptCache) (generation : ℕ) : Prop :=
  ∃ control ∈ s.session, ∃ e ∈ c.entries, PromptCache.InSession s.cacheIdentity control.sessionId e ∧
    e.generation = generation ∧ e.parentGeneration = control.parentGeneration ∧
    e.commitKey = s.sessionCommitKey ∧ e.tokens = s.sessionPrefix

/-- A step that commits leaves the snapshot in the cache. -/
theorem Prefilling.snapshot {r r' : Runtime n} {captures : Fin n → CaptureReply}
    {w : PrefillWork F n} {s s' : SequenceState n} {elapsed : ℚ}
    {outcome : Except Fault (PrefillOutcome F)}
    (h : Prefilling r captures w (w.next s elapsed) (r', outcome))
    (hpending : s.committedSessionGeneration = none) (hs' : r'.states w.slot = some s')
    {generation : ℕ} (hdone : s'.committedSessionGeneration = some generation) :
    s.SnapshotIn r'.cache generation := by
  have hnext : (r.counted w (w.next s elapsed)).states w.slot = some (w.next s elapsed) :=
    Function.update_self _ _ _
  have hsame : ∀ r₁ : Runtime n, r₁.states = (r.counted w (w.next s elapsed)).states →
      r₁.states w.slot ≠ some s' := by
    intro r₁ hstates heq
    rw [hstates, hnext] at heq
    obtain rfl := Option.some_inj.mp heq
    exact absurd (hpending.symm.trans hdone) (by simp)
  have hstored : ∀ outcome : Except Fault Unit,
      Storing (r.counted w (w.next s elapsed)) w.slot (w.next s elapsed) (captures w.slot)
        (r', outcome) → s.SnapshotIn r'.cache generation := by
    intro outcome hstoring
    cases hstoring with
    | nothing idle => exact absurd hs' (hsame _ rfl)
    | stored plain => exact absurd hs' (hsame _ rfl)
    | refused control session commits refusal => exact absurd hs' (hsame _ rfl)
    | committed control session commits committed stored =>
      obtain ⟨e, he, hsession, hgeneration, hparent, hkey, htokens⟩ :=
        PromptCache.storeSession_leaves stored
      obtain rfl := Option.some_inj.mp ((Function.update_self w.slot _ _).symm.trans hs')
      obtain rfl := Option.some_inj.mp hdone
      exact ⟨control, session, e, he, hsession, hgeneration, hparent, hkey, htokens⟩
  rcases h with ⟨_, stored⟩ | ⟨_, fault, stored⟩
  · exact hstored _ stored
  · exact hstored _ stored

/-- A step whose sequence is committed after it was followed, and left the snapshot. -/
theorem mem_followed {config : Setup} {elapsed : ℚ} {captures : Fin n → CaptureReply}
    {work : List (PrefillWork F n)} {r : Runtime n} (h : r.Valid config) (hwork : r.Prefills work)
    {w : PrefillWork F n} (hw : w ∈ work) {s s' : SequenceState n} (hs : r.states w.slot = some s)
    (hpending : s.committedSessionGeneration = none)
    (hs' : (Runtime.prefillAll elapsed captures r work).1.states w.slot = some s')
    {generation : ℕ} (hdone : s'.committedSessionGeneration = some generation) :
    ∃ r₁, (r₁, w) ∈ Runtime.followed elapsed captures r work ∧
      s.SnapshotIn (r₁.prefillOne elapsed captures w).1.cache generation := by
  induction work generalizing r with
  | nil => exact absurd hw List.not_mem_nil
  | cons x rest ih =>
    obtain ⟨s₀, hx⟩ := hwork.valid x List.mem_cons_self
    have hdistinct := (List.nodup_cons.mp (List.map_cons ▸ hwork.distinct)).1
    have hone := prefilling hx h elapsed captures
    have hrefused := commitRefused_iff hx h elapsed captures
    unfold Runtime.followed
    have hhead : ∀ r' outcome, r.prefillOne elapsed captures x = (r', outcome) → w = x →
        r'.states w.slot = some s' →
        s.SnapshotIn (r.prefillOne elapsed captures w).1.cache generation := by
      rintro r' outcome hstep rfl hstate
      rw [hstep] at hone ⊢
      obtain rfl := Option.some_inj.mp (hx.state.symm.trans hs)
      exact hone.snapshot hpending hstate hdone
    rcases prefillAll_cons elapsed captures r x rest with ⟨r', fault, hstep, hall⟩ |
      ⟨r', outcome, hstep, hall⟩
    · rw [hall] at hs'
      rcases List.mem_cons.mp hw with rfl | hw
      · exact ⟨r, List.mem_cons_self, hhead r' _ hstep rfl hs'⟩
      · -- a step behind a refused one is not followed
        rw [hstep] at hone
        have hne : w.slot ≠ x.slot := fun heq => hdistinct (heq ▸ List.mem_map_of_mem hw)
        change r'.states w.slot = some s' at hs'
        rw [hone.counted.frame.states _ hne, hs] at hs'
        obtain rfl := Option.some_inj.mp hs'
        exact absurd (hpending.symm.trans hdone) (by simp)
    · rw [hall] at hs'
      rw [hstep] at hone hrefused
      have hok : ¬ r.CommitRefused captures x := fun hr =>
        absurd (hrefused.mp hr) (by simp [Except.isOk, Except.toBool])
      have hframe := hone.counted.frame
      have hvalid := hone.valid hx h
      have htail := hwork.tail hframe
      rw [if_neg hok]
      rcases List.mem_cons.mp hw with rfl | hw
      · obtain ⟨entries, hspec⟩ := (prefillRun elapsed captures rest htail hvalid).spec
        have hstate := (hspec.others w.slot hdistinct).1
        exact ⟨r, List.mem_cons_self, hhead r' _ hstep rfl (hstate.symm.trans hs')⟩
      · have hne : w.slot ≠ x.slot := fun heq => hdistinct (heq ▸ List.mem_map_of_mem hw)
        obtain ⟨r₁, hmem, hsnapshot⟩ := ih hvalid htail hw ((hframe.states _ hne).trans hs) hs'
        exact ⟨r₁, List.mem_cons_of_mem _ (by rw [hstep]; exact hmem), hsnapshot⟩

end Native
