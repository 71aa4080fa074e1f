/-
The KV memory of the native runtime.

* `release_isolated` — a late `release_sequence` and the sequence that has the slot since;
* `Follows`, `ProtocolRun` — the runs of a scheduler that only releases a sequence whose
  command was refused;
* `Runtime.Cells` — in such a run the cells of a sequence stay within its reservation
  (`cells_within`).
-/
import LlamaRuntime.Native.OpenSequence
import LlamaRuntime.Native.BatchCells

namespace Native

open Json

variable {n : ℕ} {F : Type}

/-! ### A late release -/

/-- A slot is the same in the engine, the states, the samplers and the memory. -/
structure Runtime.Untouched (i : Fin n) (r r' : Runtime n) : Prop where
  slot : r'.engine.slots i = r.engine.slots i
  state : r'.states i = r.states i
  sampler : r'.samplers i = r.samplers i
  memory : r'.memory i = r.memory i

/-- A `release_sequence`, and what it asks to release. -/
structure ReleaseOf (config : Setup) (input : Input F config.maxSequences) (command : Value F)
    (i : Fin config.maxSequences) (generation : ℕ) : Prop where
  line : input.line = some command
  type : commandType command = .ok (py "release_sequence")
  exact : requireExact command ["protocol_version", "type", "command_id", "handle"] = .ok ()
  handle : ∃ handle, field command "handle" = .ok handle ∧
    parsePublicHandle config handle = some (i, generation)
  cleared : input.out.releasing.samplerCleared = true ∧ input.out.releasing.memoryCleared = true

/-- **A late release leaves the next sequence alone exactly if that has no cells.** -/
theorem release_isolated (config : Setup) (model : LlamaModel F)
    (inputs : List (Input F config.maxSequences)) (input : Input F config.maxSequences)
    {command : Value F} {i : Fin config.maxSequences} {generation : ℕ}
    (asks : ReleaseOf config input command i generation)
    {s : SequenceState config.maxSequences}
    (occupied : (run config model inputs).states i = some s)
    (stale : s.internal.generation ≠ generation) :
    (run config model inputs).Untouched i (run config model (inputs ++ [input])) ↔
      (run config model inputs).memory i = [] := by
  have hvalid := valid_run config model inputs
  rw [run_concat]
  generalize run config model inputs = r at *
  obtain ⟨handle, hfield, hparse⟩ := asks.handle
  have hstate := hvalid.state occupied
  have hother : (r.engine.slots i).generation ≠ generation := by
    rw [hstate.internal] at stale
    exact stale
  -- the cells of the slot are removed, and nothing else happens
  have hstep : (step config model r input).1
      = { r with memory := Function.update r.memory i [] } := by
    have hperform : step config model r input
        = r.releaseSequence config command input.out.releasing := by
      unfold step
      rw [asks.line]
      dsimp only
      rw [asks.type]
      rfl
    have hrequest : (do
        requireExact command ["protocol_version", "type", "command_id", "handle"]
        field command "handle") = Except.ok handle := by
      rw [asks.exact]
      exact hfield
    obtain ⟨status, -, -, hreleased⟩ := releaseSlot_other
      (r := { r with memory := Function.update r.memory i [] }) handle
      input.out.releasing.memorySize fun _ => hother
    rw [hperform]
    unfold Runtime.releaseSequence
    rw [hrequest]
    dsimp only
    rw [hparse]
    dsimp only
    rw [occupied]
    dsimp only
    rw [if_neg (fun hc => stale hc.1), if_neg stale,
      clearSlot_eq occupied hstate.sampler (hvalid.samplers i), asks.cleared.1, asks.cleared.2,
      if_neg (by simp), if_neg (by simp)]
    dsimp only
    rw [hreleased]
  rw [hstep]
  constructor
  · intro huntouched
    have hmemory := huntouched.memory
    rw [← hmemory]
    exact Function.update_self _ _ _
  · intro hempty
    refine ⟨rfl, rfl, rfl, ?_⟩
    show Function.update r.memory i [] i = r.memory i
    rw [Function.update_self, hempty]

/-- The first slot of the process. -/
def firstSlot : Fin sampleSetup.maxSequences := ⟨0, by decide⟩

/-- A handle of the first slot. -/
def sampleHandle (generation : ℤ) : Value Empty :=
  record
    [("backend", text "llama"), ("model", text "m"), ("sequence", text "slot-0"),
      ("generation", .int generation)]

def sampleRelease (generation : ℤ) : Value Empty :=
  record
    [("protocol_version", text "inference-runtime-ipc.v1"), ("type", text "release_sequence"),
      ("command_id", .int 1), ("handle", sampleHandle generation)]

/-- A batch of one step. -/
def sampleBatch (type : String) (generation budget : ℤ) : Value Empty :=
  record
    [("protocol_version", text "inference-runtime-ipc.v1"), ("type", text type),
      ("command_id", .int 1),
      ("steps",
        .list [record [("handle", sampleHandle generation), ("token_budget", .int budget)]])]

theorem sampleRelease_asks :
    ReleaseOf sampleSetup (sampleInput (sampleRelease 1)) (sampleRelease 1) firstSlot 1 :=
  ⟨rfl, by decide +kernel, by decide +kernel, ⟨sampleHandle 1, by rfl, by decide +kernel⟩, rfl, rfl⟩

/-- A sequence is released, and another one has its slot. -/
def reopened : List (Input Empty sampleSetup.maxSequences) :=
  [openCommand "r" "hello" "v" .null .null, sampleRelease 1,
    openCommand "s" "hello" "v" .null .null].map sampleInput

/-- The other sequence has not been prefilled when the first one is released once more. -/
theorem release_isolated_reopened : (run sampleSetup sampleModel reopened).Untouched firstSlot
    (run sampleSetup sampleModel (reopened ++ [sampleInput (sampleRelease 1)])) := by
  have hstate : ((run sampleSetup sampleModel reopened).states firstSlot).any
      (fun s => s.internal.generation ≠ 1) = true := by decide +kernel
  obtain ⟨s, hs, hstale⟩ := (Option.any_eq_true _ _).mp hstate
  exact (release_isolated sampleSetup sampleModel reopened (sampleInput (sampleRelease 1))
    sampleRelease_asks hs (by simpa using hstale)).mpr (by decide +kernel)

/-- Once the other sequence has been prefilled, its cells are gone. -/
theorem release_isolated_fails :
    ((run sampleSetup sampleModel (reopened ++ [sampleInput (sampleBatch "prefill_batch" 2 9)])).states
        firstSlot).any (fun s => s.internal.generation ≠ 1) = true ∧
      ReleaseOf sampleSetup (sampleInput (sampleRelease 1)) (sampleRelease 1) firstSlot 1 ∧
      ¬ (run sampleSetup sampleModel
          (reopened ++ [sampleInput (sampleBatch "prefill_batch" 2 9)])).Untouched firstSlot
        (run sampleSetup sampleModel ((reopened ++ [sampleInput (sampleBatch "prefill_batch" 2 9)]) ++
          [sampleInput (sampleRelease 1)])) := by
  refine ⟨by decide +kernel, sampleRelease_asks, fun huntouched => ?_⟩
  exact absurd huntouched.memory (by decide +kernel)

/-! ### Reservations -/

/-- The snapshots of a cache hold a cell for each of their tokens. -/
def Measured (c : PromptCache) : Prop := c.Holds fun _ tokens cells => cells.length = tokens.length

/-- The cells of every slot are within its reservation; those of a sequence that no refused command
named are as many as its position says; and no batch asked for more cells than there are. -/
structure Runtime.Cells (config : Setup) (r : Runtime n) (sound : Fin n → Prop) : Prop where
  measured : Measured r.cache
  within : r.Within
  exact : ∀ i, sound i → ∀ s, r.states i = some s → (r.memory i).length = s.nPast
  asked : ∀ held batch, .decoded held batch ∈ r.log → held + batch.length ≤ config.kvTokens

theorem Runtime.Cells.mono {config : Setup} {r : Runtime n} {sound sound' : Fin n → Prop}
    (h : r.Cells config sound) (hsub : ∀ i, sound' i → sound i) : r.Cells config sound' :=
  ⟨h.measured, h.within, fun i hi => h.exact i (hsub i hi), h.asked⟩

/-- Entries of the log that are not of a batch do not matter. -/
theorem Runtime.Cells.logged {config : Setup} {r : Runtime n} {sound : Fin n → Prop}
    (h : r.Cells config sound) {entries : List (LogEntry n)}
    (hentries : ∀ held batch, .decoded held batch ∉ entries) :
    ({ r with log := r.log ++ entries } : Runtime n).Cells config sound := by
  refine ⟨h.measured, h.within, h.exact, fun held batch hmem => ?_⟩
  rcases List.mem_append.mp hmem with hmem | hmem
  · exact h.asked held batch hmem
  · exact absurd hmem (hentries held batch)

/-- A batch is decoded that leaves every sequence within its reservation. -/
theorem Runtime.Cells.decode {config : Setup} {r : Runtime n} (hvalid : r.Valid config)
    {sound sound' : Fin n → Prop} (h : r.Cells config sound) {batch : List (Fin n × Cell)}
    (hfits : ∀ i, (r.memory i).length + (cellsFor i batch).length ≤ (r.engine.slots i).reservation)
    (hsub : ∀ i, sound' i → sound i ∧ cellsFor i batch = []) (answer : DecodeAnswer) :
    (r.decode batch answer).Cells config sound' := by
  refine ⟨h.measured, fun i => ?_, fun i hi s hs => ?_, fun held batch' hmem => ?_⟩
  · have hwritten := cellsFor_written_le i answer batch
    have hfit := hfits i
    show (r.memory i ++ cellsFor i (answer.written batch)).length ≤ (r.engine.slots i).reservation
    rw [List.length_append]
    omega
  · obtain ⟨hsound, hnone⟩ := hsub i hi
    have hwritten := cellsFor_written_le i answer batch
    have hexact := h.exact i hsound s hs
    show (r.memory i ++ cellsFor i (answer.written batch)).length = s.nPast
    rw [hnone] at hwritten
    rw [List.length_append, hexact, Nat.le_zero.mp hwritten]
    rfl
  · rcases List.mem_append.mp hmem with hmem | hmem
    · exact h.asked held batch' hmem
    · obtain ⟨rfl, rfl⟩ := LogEntry.decoded.inj (List.mem_singleton.mp hmem)
      exact asked_le hvalid hfits

/-! ### Prefilling within reservations -/

section Prefilling

variable {config : Setup} {r : Runtime n} {work : List (PrefillWork F n)}

/-- The tokens that a step decodes are in the prompt. -/
theorem PrefillWork.Valid.physical_le {w : PrefillWork F n} {s : SequenceState n}
    (hw : w.Valid r s) (h : r.Valid config) :
    s.physicalPromptDecoded + w.physicalTokens ≤ s.prompt.length ∧
      s.nPast = s.physicalPromptDecoded := by
  have hstate := h.state hw.state
  obtain ⟨-, -, hle⟩ := hw.bounds h
  have hphysical := hw.physical
  have hfresh := hstate.prefilling hw.prefilling
  have hposition := hstate.nPast
  have hcounted := hstate.physical
  unfold SequenceState.physicalTokens at hphysical
  unfold SequenceState.remaining at hle hphysical
  split_ifs at hphysical
  · omega
  · omega

theorem length_promptCells {s : SequenceState n} {physical : ℕ}
    (h : s.physicalPromptDecoded + physical ≤ s.prompt.length) :
    (s.promptCells physical).length = physical := by
  unfold SequenceState.promptCells
  rw [length_cellsFrom, List.length_take, List.length_drop]
  omega

theorem length_stepCells (h : r.Valid config) {w : PrefillWork F n} {s : SequenceState n}
    (hw : w.Valid r s) : (r.stepCells w).length = w.physicalTokens := by
  unfold Runtime.stepCells
  rw [hw.state]
  exact length_promptCells (hw.physical_le h).1

/-- A prefill batch leaves every sequence within its reservation. -/
theorem prefillCells_fit (h : r.Valid config) (hwork : r.Prefills work) {sound : Fin n → Prop}
    (hcells : r.Cells config sound) (hsound : ∀ w ∈ work, sound w.slot) (i : Fin n) :
    (r.memory i).length + (cellsFor i (r.prefillCells work)).length
      ≤ (r.engine.slots i).reservation := by
  by_cases hi : i ∈ work.map PrefillWork.slot
  · obtain ⟨w, hmem, rfl⟩ := List.mem_map.mp hi
    obtain ⟨s, hw⟩ := hwork.valid w hmem
    obtain ⟨hle, hposition⟩ := hw.physical_le h
    have hexact := hcells.exact w.slot (hsound w hmem) s hw.state
    have hprompt := (h.state hw.state).prompt
    rw [cellsFor_prefillCells r hwork.distinct hmem, length_stepCells h hw, hexact, hposition]
    unfold Slot.reservation
    omega
  · rw [cellsFor_prefillCells_of_notMem r hi]
    exact hcells.within i

/-- The memory once the batch is decoded. -/
theorem prefillDecoded_memory (r : Runtime n) (work : List (PrefillWork F n)) (i : Fin n) :
    (r.prefillDecoded work .success).memory i = r.memory i ++ cellsFor i (r.prefillCells work) := by
  unfold Runtime.prefillDecoded
  split_ifs with hempty
  · rw [hempty, cellsFor_nil, List.append_nil]
  · rfl

/-- The memory holds the cells of a step that is still to be accounted. -/
def Decoded (r : Runtime n) (w : PrefillWork F n) : Prop :=
  ∀ s, r.states w.slot = some s →
    (r.memory w.slot).length = s.physicalPromptDecoded + w.physicalTokens

/-- What is stored after a step has a cell for each token. -/
theorem Storing.measured {r r' : Runtime n} {w : PrefillWork F n} {s : SequenceState n}
    {reply : CaptureReply} {outcome : Except Fault Unit}
    (h : Storing (r.counted w s) w.slot s reply (r', outcome)) (hmeasured : Measured r.cache)
    (hcells : (r.memory w.slot).length = s.physicalPromptDecoded)
    (hle : s.physicalPromptDecoded ≤ s.prompt.length) : Measured r'.cache := by
  have hcounted : Measured (r.counted w s).cache := hmeasured
  have hcommit : ∀ control, s.Commits →
      Measured ((r.counted w s).cache.after (s.commitOp control (r.memory w.slot) reply)) := by
    intro control hcommits
    refine hcounted.after fun identity tokens cells hcaptures => ?_
    obtain ⟨-, rfl, rfl⟩ := hcaptures
    exact hcells.trans hcommits.2.2
  cases h with
  | nothing => exact hmeasured
  | stored =>
    refine hcounted.after fun identity tokens cells hcaptures => ?_
    obtain ⟨-, rfl, rfl⟩ := hcaptures
    rw [List.length_take, min_eq_left hle]
    exact hcells
  | refused control session commits => exact hcommit control commits
  | committed control session commits => exact hcommit control commits

theorem PrefillRun.measured {elapsed : ℚ} {captures : Fin n → CaptureReply}
    {result : Runtime n × Except Fault (List (PrefillOutcome F))}
    (h : PrefillRun config elapsed captures r work result) (hmeasured : Measured r.cache)
    (hdecoded : ∀ w ∈ work, Decoded r w) : Measured result.1.cache := by
  have hone : ∀ (r r' : Runtime n) (w : PrefillWork F n) (s : SequenceState n)
      (outcome : Except Fault (PrefillOutcome F)), r.Valid config → w.Valid r s → Decoded r w →
      Measured r.cache → Prefilling r captures w (w.next s elapsed) (r', outcome) →
      Measured r'.cache := by
    intro r r' w s outcome hvalid hw hcells hmeasured hone
    have hlength := hcells s hw.state
    have hle := (hw.physical_le hvalid).1
    rcases hone with ⟨_, stored⟩ | ⟨_, fault, stored⟩
    · exact stored.measured hmeasured hlength hle
    · exact stored.measured hmeasured hlength hle
  induction h with
  | nil => exact hmeasured
  | refused valid prefills work valid' one =>
    exact hone _ _ _ _ _ valid work (hdecoded _ List.mem_cons_self) hmeasured one
  | @next r r' w rest s outcome result valid prefills work one later ih =>
    have hframe := one.counted.frame
    have hdistinct := (List.nodup_cons.mp (List.map_cons ▸ prefills.distinct)).1
    refine ih (hone _ _ _ _ _ valid work (hdecoded _ List.mem_cons_self) hmeasured one)
      fun w' hw' s' hs' => ?_
    have hne : w'.slot ≠ w.slot := fun heq => hdistinct (heq ▸ List.mem_map_of_mem hw')
    rw [hframe.states _ hne] at hs'
    rw [hframe.memory]
    exact hdecoded w' (List.mem_cons_of_mem _ hw') s' hs'

/-- The steps of a batch change no reservation. -/
theorem PrefillSpec.reservation {elapsed : ℚ} {r' : Runtime n} {completes : Bool}
    {entries : List (LogEntry n)} (h : PrefillSpec elapsed r r' work completes entries) (i : Fin n) :
    (r'.engine.slots i).reservation = (r.engine.slots i).reservation := by
  by_cases hi : i ∈ work.map PrefillWork.slot
  · obtain ⟨w, hmem, rfl⟩ := List.mem_map.mp hi
    obtain ⟨s, -, hresult⟩ := h.steps w hmem
    generalize commitsFor w.slot entries = commits at hresult
    cases hresult with
    | advanced _ _ _ slot => rw [slot]; rfl
    | committed _ _ _ _ slot => rw [slot]; rfl
    | refused _ _ slot => rw [slot]; rfl
    | untouched _ slot => rw [slot]
  · rw [(h.others i hi).2.1]

/-- The sequences that a prefill command names are still sound after it, unless it stopped. -/
theorem prefill_cells (h : r.Valid config) (hwork : r.Prefills work) {sound sound' : Fin n → Prop}
    (hcells : r.Cells config sound) (hsound : ∀ w ∈ work, sound w.slot) {elapsed : ℚ}
    {captures : Fin n → CaptureReply}
    {result : Runtime n × Except Fault (List (PrefillOutcome F))}
    (hrun : PrefillRun config elapsed captures (r.prefillDecoded work .success) work result)
    (hsub : ∀ i, sound' i → sound i ∧ (i ∈ work.map PrefillWork.slot → result.2.isOk = true)) :
    result.1.Cells config sound' := by
  have hfits := prefillCells_fit h hwork hcells hsound
  obtain ⟨hengine, hstates, hcache, -⟩ := r.prefillDecoded_tables work .success
  obtain ⟨entries, hspec⟩ := hrun.spec
  have hmemory : ∀ i, result.1.memory i = r.memory i ++ cellsFor i (r.prefillCells work) := by
    intro i
    rw [hspec.memory, prefillDecoded_memory]
  have hcells₁ : (r.prefillDecoded work .success).Cells config fun i =>
      sound i ∧ cellsFor i (r.prefillCells work) = [] := by
    unfold Runtime.prefillDecoded
    split_ifs with hempty
    · exact hcells.mono fun i hi => hi.1
    · exact hcells.decode h hfits (fun i hi => hi) .success
  have hdecoded : ∀ w ∈ work, Decoded (r.prefillDecoded work .success) w := by
    intro w hw s hs
    obtain ⟨s', hvalid⟩ := hwork.valid w hw
    rw [hstates] at hs
    obtain rfl := Option.some_inj.mp (hvalid.state.symm.trans hs)
    have hexact := hcells.exact w.slot (hsound w hw) s' hvalid.state
    rw [prefillDecoded_memory, List.length_append, cellsFor_prefillCells r hwork.distinct hw,
      length_stepCells h hvalid, hexact, (hvalid.physical_le h).2]
  refine ⟨hrun.measured (hcache ▸ hcells.measured) hdecoded, fun i => ?_, fun i hi s hs => ?_,
    fun held batch hmem => ?_⟩
  · rw [hspec.reservation, hspec.memory]
    exact hcells₁.within i
  · obtain ⟨hsound', hcompletes⟩ := hsub i hi
    by_cases hmem : i ∈ work.map PrefillWork.slot
    · obtain ⟨w, hw, rfl⟩ := List.mem_map.mp hmem
      have hnext : ∀ s', w.Valid (r.prefillDecoded work .success) s' →
          (result.1.memory w.slot).length = (w.next s' elapsed).nPast := by
        intro s' hvalid
        rw [hspec.memory]
        exact hdecoded w hw s' hvalid.state
      obtain ⟨s', hvalid, hresult⟩ := hspec.steps w hw
      have hlength := hnext s' hvalid
      rw [hcompletes hmem] at hresult
      generalize commitsFor w.slot entries = commits at hresult
      cases hresult with
      | advanced _ _ state _ =>
        obtain rfl := Option.some_inj.mp (state.symm.trans hs)
        exact hlength
      | committed _ _ _ state _ =>
        obtain rfl := Option.some_inj.mp (state.symm.trans hs)
        exact hlength
    · obtain ⟨hsame, -, -⟩ := hspec.others i hmem
      rw [hsame, hstates] at hs
      rw [hmemory, cellsFor_prefillCells_of_notMem r hmem, List.append_nil]
      exact hcells.exact i hsound' s hs
  · rw [hspec.log] at hmem
    rcases List.mem_append.mp hmem with hmem | hmem
    · exact hcells₁.asked held batch hmem
    · obtain ⟨j, t, g, heq⟩ := hspec.committed _ hmem
      exact absurd heq (by simp)

end Prefilling

/-! ### Decoding within reservations -/

section Decoding

variable {config : Setup} {model : LlamaModel F} {r : Runtime n} {work : List (DecodeWork F n)}
  {sound sound' : Fin n → Prop}

/-- A token of a sequence that takes one is within its reservation. -/
theorem nPast_lt {w : DecodeWork F n} (h : r.Valid config) (hwork : r.Decodes work) (hw : w ∈ work)
    (htakes : r.takes w = true) {s : SequenceState n} (hs : r.states w.slot = some s) :
    s.nPast + 1 ≤ (r.engine.slots w.slot).reservation ∧ s.terminal = false ∧
      (r.engine.slots w.slot).lifecycle = .decode := by
  obtain ⟨⟨s', hs', hopen⟩, -⟩ := Runtime.takes_iff.mp htakes
  obtain rfl := Option.some_inj.mp (hs.symm.trans hs')
  obtain ⟨s', hs', hdecode⟩ := hwork.valid w hw
  obtain rfl := Option.some_inj.mp (hs.symm.trans hs')
  have hstate := h.state hs
  obtain ⟨hlogical, hbudget⟩ := hstate.decoding (hdecode hopen)
  have hsized := (h.engine.slot w.slot).sized hstate.ne_released
  have hposition := hstate.nPast
  have hphysical := hstate.physical
  have hprompt := hstate.prompt
  refine ⟨?_, hopen, hdecode hopen⟩
  unfold Slot.reservation
  omega

theorem roundCells_fit (h : r.Valid config) (hwork : r.Decodes work)
    (hcells : r.Cells config sound) (hsound : ∀ w ∈ work, sound w.slot) (i : Fin n) :
    (r.memory i).length + (cellsFor i (r.roundCells work)).length
      ≤ (r.engine.slots i).reservation := by
  by_cases hi : i ∈ work.map DecodeWork.slot
  · obtain ⟨w, hmem, rfl⟩ := List.mem_map.mp hi
    obtain ⟨s, hs, -⟩ := hwork.valid w hmem
    rw [cellsFor_roundCells r hwork.distinct hmem hs]
    split_ifs with htakes
    · have hexact := hcells.exact w.slot (hsound w hmem) s hs
      rw [hexact]
      exact (nPast_lt h hwork hmem htakes hs).1
    · exact hcells.within w.slot
  · rw [cellsFor_roundCells_of_notMem r hi]
    exact hcells.within i

/-- One round: the cells stay exact, unless it stops. -/
theorem round_cells (h : r.Valid config) (hwork : r.Decodes work) (hcells : r.Cells config sound)
    (hsound : ∀ w ∈ work, sound w.slot) {out : RoundReply n}
    {result : Runtime n × Except Fault (List (DecodeWork F n))}
    (hround : Round model r work out result)
    (hsub : ∀ i, sound' i → sound i ∧ (i ∈ work.map DecodeWork.slot → result.2.isOk = true)) :
    result.1.Cells config sound' := by
  have hfits := roundCells_fit h hwork hcells hsound
  have hrest : ∀ answer, (r.decode (r.roundCells work) answer).Cells config fun i =>
      sound i ∧ i ∉ work.map DecodeWork.slot := fun answer =>
    hcells.decode h hfits (fun i hi => ⟨hi.1, cellsFor_roundCells_of_notMem r hi.2⟩) answer
  cases hround with
  | undecoded kept failure =>
    refine (hrest _).mono fun i hi => ⟨(hsub i hi).1, fun hmem => ?_⟩
    exact absurd ((hsub i hi).2 hmem) (by simp [refuse, Except.isOk, Except.toBool])
  | unsampled what =>
    refine (hrest _).mono fun i hi => ⟨(hsub i hi).1, fun hmem => ?_⟩
    exact absurd ((hsub i hi).2 hmem) (by simp [Except.isOk, Except.toBool])
  | taken r₂ work' still moved =>
    have hmemory : ∀ i, r₂.memory i = r.memory i ++ cellsFor i (r.roundCells work) := by
      intro i
      rw [still.memory]
      rfl
    have hslots : ∀ i, (r₂.engine.slots i).reservation = (r.engine.slots i).reservation := by
      intro i
      by_cases hi : i ∈ work.map DecodeWork.slot
      · obtain ⟨w, hmem, rfl⟩ := List.mem_map.mp hi
        obtain ⟨x, -, hmoved⟩ := moved_of_left moved hmem
        unfold Moved at hmoved
        split_ifs at hmoved
        · obtain ⟨s, token, htaken⟩ := hmoved
          rw [htaken.slot']
          exact (slotValid_consumedSlot (h.engine.slot _) htaken.decode
            ((h.state htaken.state).decoding htaken.decode).2 _).2.1
        · rw [hmoved.2.2]
      · rw [still.slots i hi]
        rfl
    refine ⟨?_, fun i => ?_, fun i hi s hs => ?_, fun held batch hmem => ?_⟩
    · have hcache : r₂.cache = r.cache := still.cache
      show Measured r₂.cache
      rw [hcache]
      exact hcells.measured
    · have hfit := hfits i
      show (r₂.memory i).length ≤ (r₂.engine.slots i).reservation
      rw [hslots, hmemory, List.length_append]
      exact hfit
    · obtain ⟨hsound', -⟩ := hsub i hi
      show (r₂.memory i).length = s.nPast
      rw [hmemory, List.length_append]
      rw [Runtime.spend_states] at hs
      obtain ⟨s₂, hs₂, rfl⟩ := Option.map_eq_some_iff.mp hs
      show _ = s₂.nPast
      by_cases hmem : i ∈ work.map DecodeWork.slot
      · obtain ⟨w, hw, rfl⟩ := List.mem_map.mp hmem
        obtain ⟨s₀, hs₀, -⟩ := hwork.valid w hw
        have hexact := hcells.exact w.slot hsound' s₀ hs₀
        obtain ⟨x, -, hmoved⟩ := moved_of_left moved hw
        rw [cellsFor_roundCells r hwork.distinct hw hs₀, hexact]
        unfold Moved at hmoved
        split_ifs at hmoved with htakes
        · obtain ⟨s', token, htaken⟩ := hmoved
          obtain rfl := Option.some_inj.mp (htaken.state.symm.trans hs₀)
          obtain ⟨-, hopen, -⟩ := nPast_lt h hwork hw htakes hs₀
          obtain rfl := Option.some_inj.mp (htaken.state'.symm.trans hs₂)
          rw [if_pos htakes]
          exact (s'.consumed_spec model token _ _ hopen).1.symm
        · rw [hmoved.2.1] at hs₂
          obtain rfl := Option.some_inj.mp (hs₀.symm.trans hs₂)
          rw [if_neg htakes]
          rfl
      · have hstates : r₂.states i = r.states i := still.states i hmem
        rw [cellsFor_roundCells_of_notMem r hmem]
        exact hcells.exact i hsound' s₂ (hstates.symm.trans hs₂)
    · have hlog : r₂.log = (r.decode (r.roundCells work) .success).log := still.log
      have hmem' : LogEntry.decoded held batch ∈ r₂.log := hmem
      rw [hlog] at hmem'
      exact (hrest .success).asked held batch hmem'

/-- The rounds of a command. -/
theorem decodeRun_cells {rounds : ℕ → RoundReply n} {k : ℕ}
    {result : Runtime n × Except Fault (List (DecodeWork F n))}
    (hrun : DecodeRun config model rounds k r work result) (hcells : r.Cells config sound)
    (hsound : ∀ w ∈ work, sound w.slot)
    (hsub : ∀ i, sound' i → sound i ∧ (i ∈ work.map DecodeWork.slot → result.2.isOk = true)) :
    result.1.Cells config sound' := by
  induction hrun with
  | done valid decodes rest => exact hcells.mono fun i hi => (hsub i hi).1
  | stopped valid decodes goes valid' one => exact round_cells valid decodes hcells hsound one hsub
  | @next k r r' work work' result valid decodes goes one later ih =>
    have hslots : work'.map DecodeWork.slot = work.map DecodeWork.slot := by
      cases one with
      | taken r₂ _ still moved => exact moved_slots moved
    refine ih (round_cells valid decodes hcells hsound one fun i hi => ⟨hi, fun _ => rfl⟩)
      (fun w' hw' => ?_) fun i hi => ?_
    · have hmem : w'.slot ∈ work.map DecodeWork.slot := hslots ▸ List.mem_map_of_mem hw'
      obtain ⟨w, hw, heq⟩ := List.mem_map.mp hmem
      exact heq ▸ hsound w hw
    · rw [hslots]
      exact hsub i hi

end Decoding

/-! ### Runs of a scheduler -/

/-- What a scheduler does: it names no sequence in a batch that a refused command named before, and
releases sequences that are there. -/
structure Follows (config : Setup) (r : Runtime config.maxSequences)
    (input : Input F config.maxSequences) : Prop where
  batches : ∀ command, input.line = some command → ∀ type ∈ batchTypes,
    commandType command = .ok type → ∀ i ∈ r.stepSlots config command, ¬ RefusedSince i r.log
  releases : ∀ command, input.line = some command →
    commandType command = .ok (py "release_sequence") → ∀ handle, field command "handle" = .ok handle →
    ∃ i s, r.named config handle = some (i, s)

/-- A run in which a sequence whose command was refused is only released. -/
def ProtocolRun (config : Setup) (model : LlamaModel F)
    (inputs : List (Input F config.maxSequences)) : Prop :=
  ∀ earlier input later, inputs = earlier ++ input :: later →
    Follows config (run config model earlier) input

theorem ProtocolRun.init {config : Setup} {model : LlamaModel F}
    {inputs : List (Input F config.maxSequences)} {input : Input F config.maxSequences}
    (h : ProtocolRun config model (inputs ++ [input])) :
    ProtocolRun config model inputs ∧ Follows config (run config model inputs) input := by
  refine ⟨fun earlier x later heq => h earlier x (later ++ [input]) ?_, h inputs input [] rfl⟩
  rw [heq, List.append_assoc]
  rfl

/-- Nothing was opened since. -/
def Grows (r r' : Runtime n) : Prop :=
  ∃ entries, r'.log = r.log ++ entries ∧ ∀ e ∈ entries, ∀ i, ¬ e.Opens i

theorem Grows.refl (r : Runtime n) : Grows r r := ⟨[], (List.append_nil _).symm, by simp⟩

theorem Grows.trans {r r' r'' : Runtime n} (h : Grows r r') (h' : Grows r' r'') : Grows r r'' := by
  obtain ⟨entries, heq, hopens⟩ := h
  obtain ⟨others, heq', hopens'⟩ := h'
  refine ⟨entries ++ others, by rw [heq', heq, List.append_assoc], fun e he => ?_⟩
  exact (List.mem_append.mp he).elim (hopens e) (hopens' e)

theorem Grows.refusedSince {r r' : Runtime n} (h : Grows r r') {i : Fin n}
    (hrefused : RefusedSince i r.log) : RefusedSince i r'.log := by
  obtain ⟨entries, heq, hopens⟩ := h
  rw [heq, refusedSince_append fun e he => hopens e he i]
  exact .inl hrefused

theorem grows_decode (r : Runtime n) (batch : List (Fin n × Cell)) (answer : DecodeAnswer) :
    Grows r (r.decode batch answer) := by
  refine ⟨[.decoded r.held batch], rfl, fun e he i => ?_⟩
  obtain rfl := List.mem_singleton.mp he
  exact id

theorem grows_record (r : Runtime n) (slots : List (Fin n)) : Grows r (r.record (.refused slots)) := by
  refine ⟨[.refused slots], rfl, fun e he i => ?_⟩
  obtain rfl := List.mem_singleton.mp he
  exact id

theorem PrefillSpec.grows {elapsed : ℚ} {r r' : Runtime n} {work : List (PrefillWork F n)}
    {completes : Bool} {entries : List (LogEntry n)}
    (h : PrefillSpec elapsed r r' work completes entries) : Grows r r' := by
  refine ⟨entries, h.log, fun e he i => ?_⟩
  obtain ⟨j, t, g, rfl⟩ := h.committed e he
  exact id

theorem grows_prefillDecoded (r : Runtime n) (work : List (PrefillWork F n)) (answer : DecodeAnswer) :
    Grows r (r.prefillDecoded work answer) := by
  unfold Runtime.prefillDecoded
  split_ifs
  · exact .refl r
  · exact grows_decode r _ _

theorem DecodeRun.grows {config : Setup} {model : LlamaModel F} {rounds : ℕ → RoundReply n} {k : ℕ}
    {r : Runtime n} {work : List (DecodeWork F n)}
    {result : Runtime n × Except Fault (List (DecodeWork F n))}
    (h : DecodeRun config model rounds k r work result) : Grows r result.1 := by
  have hround : ∀ (r r' : Runtime n) (work : List (DecodeWork F n)) (out : RoundReply n)
      (outcome : Except Fault (List (DecodeWork F n))),
      Round model r work out (r', outcome) → Grows r r' := by
    intro r r' work out outcome hround
    cases hround with
    | undecoded => exact grows_decode r _ _
    | unsampled => exact grows_decode r _ _
    | taken r₂ work' still moved =>
      obtain ⟨entries, heq, hopens⟩ := grows_decode r (r.roundCells work) .success
      exact ⟨entries, still.log.trans heq, hopens⟩
  induction h with
  | done => exact .refl _
  | stopped _ _ _ _ one => exact hround _ _ _ _ _ one
  | next _ _ _ one _ ih => exact (hround _ _ _ _ _ one).trans ih

theorem grows_sent (r : Runtime n) (work : List (DecodeWork F n)) :
    Grows r { r with log := r.log ++ sentEntries work } := by
  refine ⟨sentEntries work, rfl, fun e he i => ?_⟩
  obtain ⟨w, -, rfl⟩ := List.mem_map.mp he
  exact id

/-- The steps of a command name the sequences of its work. -/
theorem mem_stepSlots {W : Type} {config : Setup} {r : Runtime config.maxSequences}
    {command : Value F} {steps : List (Value F)} {work : List W} {handle : W → Value F}
    {slot : W → Fin config.maxSequences} (hsteps : field command "steps" = .ok (.list steps))
    (hfor : List.Forall₂ (fun step w => ∃ s, StepFor config r step (handle w) (slot w) s) steps work)
    {w : W} (hw : w ∈ work) : slot w ∈ r.stepSlots config command := by
  unfold Runtime.stepSlots
  rw [hsteps]
  dsimp only
  clear hsteps
  induction hfor with
  | nil => exact absurd hw List.not_mem_nil
  | @cons step x steps work hone _ ih =>
    obtain ⟨s, hfor⟩ := hone
    have hfound : r.stepSlot config step = some (slot x) := by
      unfold Runtime.stepSlot
      rw [hfor.field]
      dsimp only
      rw [hfor.named]
      rfl
    rw [List.filterMap_cons_some hfound]
    rcases List.mem_cons.mp hw with rfl | hw
    · exact List.mem_cons_self
    · exact List.mem_cons_of_mem _ (ih hw)

/-! ### What a step keeps -/

section Steps

variable {config : Setup} {r : Runtime config.maxSequences}

/-- The sequences that no refused command named since they were opened. -/
def Sound (r : Runtime n) (i : Fin n) : Prop := ¬ RefusedSince i r.log

instance (r : Runtime n) (i : Fin n) : Decidable (Sound r i) :=
  inferInstanceAs (Decidable (¬ _))

theorem Grows.sound {r r' : Runtime n} (h : Grows r r') {i : Fin n} (hi : Sound r' i) : Sound r i :=
  fun hrefused => hi (h.refusedSince hrefused)

/-- A refused command makes the sequences unsound that it names. -/
theorem not_sound_record {r : Runtime n} {slots : List (Fin n)} {i : Fin n} (hi : i ∈ slots) :
    ¬ Sound (r.record (.refused slots)) i := by
  refine fun hsound => hsound ?_
  have hopens : ∀ e ∈ [LogEntry.refused slots], ¬ e.Opens i := by
    intro e he
    obtain rfl := List.mem_singleton.mp he
    exact id
  refine (refusedSince_append hopens r.log).mpr (.inr ⟨_, List.mem_singleton_self _, hi⟩)

theorem Runtime.Cells.record {r : Runtime n} {sound : Fin n → Prop} (h : r.Cells config sound)
    (slots : List (Fin n)) : (r.record (.refused slots)).Cells config sound := by
  refine h.logged fun held batch hmem => ?_
  exact absurd (List.mem_singleton.mp hmem) (by simp)

theorem cells_opening {model : LlamaModel F} {command : Value F}
    {result : Runtime config.maxSequences × Reply config.maxSequences F} (h : r.Valid config)
    (hcells : r.Cells config (Sound r)) (hopening : Opening config model r command result) :
    result.1.Cells config (Sound result.1) := by
  rcases hopening with ⟨cache, -, kept, refusal⟩ |
    ⟨i, free, generation, cache, -, kept, memory, cleared, refusal⟩ |
    ⟨i, free, q, request, fits, cached, s, memory, begins, cache, -, kept⟩
  · exact ⟨hcells.measured.kept kept, hcells.within, hcells.exact, hcells.asked⟩
  · have hempty := hcells.within.free h free
    have hmemory : memory = r.memory := by
      rcases cleared with rfl | rfl
      · rfl
      · rw [← hempty, Function.update_eq_self]
    subst hmemory
    refine ⟨hcells.measured.kept kept, fun j => ?_, hcells.exact, hcells.asked⟩
    show (r.memory j).length ≤ (Function.update r.engine.slots i (Slot.empty generation) j).reservation
    by_cases hj : j = i
    · rw [hj, hempty]
      exact Nat.zero_le _
    · rw [Function.update_of_ne hj]
      exact hcells.within j
  · have hempty := hcells.within.free h free
    obtain ⟨hcached, hstate⟩ := begins.state (openRequest_ok request)
    -- a new sequence has the cells of its snapshot
    have hown : (memory i).length = cached ∧ s.nPast = cached := by
      have hposition := hstate.nPast
      have hphysical := hstate.physical
      have hlogical : s.logicalPrefillProcessed = cached := hstate.logical
      have hprompt : s.prompt.length = q.prompt.length := hstate.prompt
      have hfresh : s.nPast = s.physicalPromptDecoded := hposition
      refine ⟨?_, by omega⟩
      rcases begins with ⟨openedAt, _, cleared⟩ | ⟨openedAt, e, mem, -, -, -, -, -, exact⟩
      · rcases cleared with rfl | rfl
        · rw [hempty]
          rfl
        · rw [Function.update_self]
          rfl
      · rw [Function.update_self]
        exact (hcells.measured e mem).2
    have hothers : ∀ j ≠ i, memory j = r.memory j := by
      intro j hj
      rcases begins with ⟨openedAt, _, cleared⟩ | ⟨openedAt, e, mem, -, -, -, -, -, exact⟩
      · rcases cleared with rfl | rfl
        · rfl
        · exact Function.update_of_ne hj _ _
      · exact Function.update_of_ne hj _ _
    refine ⟨hcells.measured.kept kept, fun j => ?_, fun j hj s' hs' => ?_, fun held batch hmem => ?_⟩
    · show (memory j).length ≤ (Function.update r.engine.slots i _ j).reservation
      by_cases hj : j = i
      · rw [hj, Function.update_self, hown.1]
        show cached ≤ q.prompt.length + q.totalTokens
        omega
      · rw [Function.update_of_ne hj, hothers j hj]
        exact hcells.within j
    · change Function.update r.states i (some s) j = some s' at hs'
      show (memory j).length = s'.nPast
      by_cases hi : j = i
      · rw [hi, Function.update_self] at hs'
        obtain rfl := Option.some_inj.mp hs'
        rw [hi, hown.1, hown.2]
      · rw [Function.update_of_ne hi] at hs'
        rw [hothers j hi]
        refine hcells.exact j (fun hrefused => hj ?_) s' hs'
        have hopens : ∀ e ∈ [LogEntry.opened i], ¬ e.Opens j := by
          intro e he hopens
          obtain rfl := List.mem_singleton.mp he
          exact hi hopens.symm
        exact (refusedSince_append hopens r.log).mpr (.inl hrefused)
    · rcases List.mem_append.mp hmem with hmem | hmem
      · exact hcells.asked held batch hmem
      · exact absurd (List.mem_singleton.mp hmem) (by simp)

theorem cells_prefilling {command : Value F} {out : PrefillReply config.maxSequences}
    {result : Runtime config.maxSequences × Reply config.maxSequences F} (h : r.Valid config)
    (hcells : r.Cells config (Sound r))
    (hnamed : ∀ i ∈ r.stepSlots config command, Sound r i)
    (hbatch : PrefillBatch config r command out result) :
    (refusedEntry (r.stepSlots config command) result).1.Cells config
      (Sound (refusedEntry (r.stepSlots config command) result).1) := by
  cases hbatch with
  | rejected fault =>
    exact (hcells.record _).mono fun i hi => (grows_record r _).sound hi
  | undecoded steps work prefills command_steps steps_for kept failure =>
    have hsound : ∀ w ∈ work, Sound r w.slot := fun w hw =>
      hnamed _ (mem_stepSlots command_steps steps_for hw)
    have hfits := prefillCells_fit h prefills hcells hsound
    refine (hcells.decode h hfits (fun i hi => ?_) (.failure kept)).record _
    refine ⟨((grows_decode r _ _).trans (grows_record _ _)).sound hi,
      cellsFor_prefillCells_of_notMem r fun hmem => ?_⟩
    obtain ⟨w, hw, rfl⟩ := List.mem_map.mp hmem
    exact not_sound_record (mem_stepSlots command_steps steps_for hw) hi
  | followed steps work prefills command_steps steps_for result run =>
    have hsound : ∀ w ∈ work, Sound r w.slot := fun w hw =>
      hnamed _ (mem_stepSlots command_steps steps_for hw)
    obtain ⟨entries, hspec⟩ := run.spec
    have hgrows := (grows_prefillDecoded r work .success).trans hspec.grows
    obtain ⟨r', outcome⟩ := result
    cases outcome with
    | ok outcomes =>
      exact prefill_cells h prefills hcells hsound run fun i hi => ⟨hgrows.sound hi, fun _ => rfl⟩
    | error fault =>
      refine (prefill_cells h prefills hcells hsound run fun i hi => ?_).record _
      refine ⟨(hgrows.trans (grows_record _ _)).sound hi, fun hmem => ?_⟩
      obtain ⟨w, hw, rfl⟩ := List.mem_map.mp hmem
      exact absurd hi (not_sound_record (mem_stepSlots command_steps steps_for hw))

theorem cells_decoding {model : LlamaModel F} {command : Value F}
    {rounds : ℕ → RoundReply config.maxSequences}
    {result : Runtime config.maxSequences × Reply config.maxSequences F}
    (hcells : r.Cells config (Sound r))
    (hnamed : ∀ i ∈ r.stepSlots config command, Sound r i)
    (hbatch : DecodeBatch config model r command rounds result) :
    (refusedEntry (r.stepSlots config command) result).1.Cells config
      (Sound (refusedEntry (r.stepSlots config command) result).1) := by
  cases hbatch with
  | rejected fault =>
    exact (hcells.record _).mono fun i hi => (grows_record r _).sound hi
  | stopped steps work begins command_steps steps_for r' fault run =>
    have hsound : ∀ w ∈ work, Sound r w.slot := fun w hw =>
      hnamed _ (mem_stepSlots command_steps steps_for hw)
    refine (decodeRun_cells run hcells hsound fun i hi => ?_).record _
    refine ⟨(run.grows.trans (grows_record _ _)).sound hi, fun hmem => ?_⟩
    obtain ⟨w, hw, rfl⟩ := List.mem_map.mp hmem
    exact absurd hi (not_sound_record (mem_stepSlots command_steps steps_for hw))
  | completed steps work begins command_steps steps_for r' work' run =>
    have hsound : ∀ w ∈ work, Sound r w.slot := fun w hw =>
      hnamed _ (mem_stepSlots command_steps steps_for hw)
    have hlogged : ∀ held batch, LogEntry.decoded held batch ∉ sentEntries work' := by
      intro held batch hmem
      obtain ⟨w, -, heq⟩ := List.mem_map.mp hmem
      exact absurd heq (by simp)
    refine (decodeRun_cells run hcells hsound fun i hi => ?_).logged hlogged
    exact ⟨(run.grows.trans (grows_sent r' work')).sound hi, fun _ => rfl⟩

theorem cells_releasing {command : Value F} {out : ReleaseReply}
    {result : Runtime config.maxSequences × Reply config.maxSequences F}
    (hcells : r.Cells config (Sound r))
    (hlive : ∀ handle, field command "handle" = .ok handle → ∃ i s, r.named config handle = some (i, s))
    (hreleasing : Releasing config r command out result) :
    result.1.Cells config (Sound result.1) := by
  rcases hreleasing with ⟨fault⟩ | ⟨handle, field, i, generation, parsed, free, status, gone⟩ |
    ⟨handle, field, i, generation, parsed, s, occupied, other⟩ | ⟨handle, -, i, s, named, fault⟩ |
    ⟨handle, -, i, s, named⟩
  · exact hcells
  · exact hcells
  · -- such a release names no sequence that is there
    obtain ⟨j, s', hnamed⟩ := hlive handle field
    obtain ⟨_, hparsed, hs', hgeneration⟩ := Runtime.named_eq_some.mp hnamed
    obtain ⟨rfl, rfl⟩ := Prod.mk.inj (Option.some_inj.mp (parsed.symm.trans hparsed))
    obtain rfl := Option.some_inj.mp (occupied.symm.trans hs')
    exact absurd hgeneration other
  · obtain ⟨hslot, hothers, -⟩ := r.engine.cancelledAt_slots i
    refine ⟨hcells.measured, fun j => ?_, hcells.exact, hcells.asked⟩
    show (r.memory j).length ≤ ((r.engine.cancelledAt i).slots j).reservation
    by_cases hj : j = i
    · rw [hj, hslot]
      exact hcells.within i
    · rw [hothers j hj]
      exact hcells.within j
  · refine ⟨hcells.measured, fun j => ?_, fun j hj s' hs' => ?_, hcells.asked⟩
    · show (Function.update r.memory i [] j).length
        ≤ (Function.update r.engine.slots i (Slot.empty (r.engine.slots i).generation) j).reservation
      by_cases hj : j = i
      · rw [hj, Function.update_self]
        exact Nat.zero_le _
      · rw [Function.update_of_ne hj, Function.update_of_ne hj]
        exact hcells.within j
    · change Function.update r.states i none j = some s' at hs'
      show (Function.update r.memory i [] j).length = s'.nPast
      by_cases hi : j = i
      · rw [hi, Function.update_self] at hs'
        exact absurd hs' (by simp)
      · rw [Function.update_of_ne hi] at hs' ⊢
        exact hcells.exact j hj s' hs'

/-- What one line of the input keeps. -/
theorem cells_step (model : LlamaModel F) (h : r.Valid config) (hcells : r.Cells config (Sound r))
    {input : Input F config.maxSequences} (hfollows : Follows config r input) :
    (step config model r input).1.Cells config (Sound (step config model r input).1) := by
  have hstepped := stepped model h input
  revert hstepped
  generalize step config model r input = result
  intro hstepped
  cases hstepped with
  | rejected => exact hcells
  | stopped => exact hcells
  | stats =>
    exact ⟨hcells.measured.kept (PromptCache.kept_prune _ _), hcells.within, hcells.exact,
      hcells.asked⟩
  | cleared =>
    exact ⟨fun e he => absurd he List.not_mem_nil, hcells.within, hcells.exact, hcells.asked⟩
  | opening command line type result handled opening => exact cells_opening h hcells opening
  | prefilling command line type result handled batch =>
    exact cells_prefilling h hcells (hfollows.batches command line _ (by simp [batchTypes]) type) batch
  | decoding command line type result handled batch =>
    exact cells_decoding hcells (hfollows.batches command line _ (by simp [batchTypes]) type) batch
  | releasing command line type result handled releasing =>
    exact cells_releasing hcells (hfollows.releases command line type) releasing

/-- What a run keeps. -/
theorem cells_run (model : LlamaModel F) {inputs : List (Input F config.maxSequences)}
    (h : ProtocolRun config model inputs) :
    (run config model inputs).Cells config (Sound (run config model inputs)) := by
  induction inputs using List.reverseRecOn with
  | nil =>
    exact ⟨fun e he => absurd he List.not_mem_nil, fun i => Nat.zero_le _,
      fun i _ s hs => absurd hs (by simp [run, Runtime.initial]),
      fun held batch hmem => absurd hmem List.not_mem_nil⟩
  | append_singleton inputs input ih =>
    obtain ⟨hinit, hfollows⟩ := h.init
    rw [run_concat]
    exact cells_step model (valid_run config model inputs) (ih hinit) hfollows

end Steps

/-- **The KV cells stay within the reservations.**  In a run in which a sequence that a refused
prefill or decode command named is only released, and in which releases name sequences that are
there, a sequence never has more cells than its engine slot reserved, a released slot has none, all
of them fit into `kv_tokens`, and `llama_decode` was never asked for more. -/
theorem cells_within (config : Setup) (model : LlamaModel F)
    (inputs : List (Input F config.maxSequences)) (protocol : ProtocolRun config model inputs) :
    (∀ i, ((run config model inputs).memory i).length
        ≤ ((run config model inputs).engine.slots i).reservation) ∧
      (∀ i, ((run config model inputs).engine.slots i).lifecycle = .released →
        (run config model inputs).memory i = []) ∧
      (run config model inputs).held ≤ config.kvTokens ∧
      ∀ held batch, .decoded held batch ∈ (run config model inputs).log →
        held + batch.length ≤ config.kvTokens := by
  have hvalid := valid_run config model inputs
  have hcells := cells_run model protocol
  exact ⟨hcells.within, fun i hreleased => hcells.within.free hvalid ((hvalid.released_iff i).mp hreleased),
    held_le hvalid hcells.within, hcells.asked⟩

theorem ProtocolRun.concat {config : Setup} {model : LlamaModel F}
    {inputs : List (Input F config.maxSequences)} {input : Input F config.maxSequences}
    (h : ProtocolRun config model inputs) (hfollows : Follows config (run config model inputs) input) :
    ProtocolRun config model (inputs ++ [input]) := by
  intro earlier x later heq
  rcases List.eq_nil_or_concat later with rfl | ⟨later, last, rfl⟩
  · obtain ⟨rfl, hlast⟩ := List.append_inj' heq rfl
    obtain rfl := List.singleton_inj.mp hlast
    exact hfollows
  · rw [List.concat_eq_append, ← List.cons_append, ← List.append_assoc] at heq
    exact h earlier x later (List.append_inj' heq rfl).1

theorem follows_sample {inputs : List (Input Empty sampleSetup.maxSequences)} (command : Value Empty)
    (hbatch : ∀ i ∈ (run sampleSetup sampleModel inputs).stepSlots sampleSetup command,
      Sound (run sampleSetup sampleModel inputs) i)
    (hother : commandType command ≠ .ok (py "release_sequence")) :
    Follows sampleSetup (run sampleSetup sampleModel inputs) (sampleInput command) := by
  refine ⟨fun command' hline type _ _ => ?_, fun command' hline htype => ?_⟩
  · obtain rfl := Option.some_inj.mp hline
    exact hbatch
  · obtain rfl := Option.some_inj.mp hline
    exact absurd htype hother

/-- A sequence is opened, prefilled and decoded. -/
def sampleRun : List (Input Empty sampleSetup.maxSequences) :=
  [openCommand "r" "hello" "v" .null .null, sampleBatch "prefill_batch" 1 9,
    sampleBatch "decode_batch" 1 4].map sampleInput

theorem cells_within_sample :
    ((run sampleSetup sampleModel sampleRun).memory firstSlot).length ≤ 15 := by
  have hsound : (∀ i ∈ (run sampleSetup sampleModel []).stepSlots sampleSetup
        (openCommand "r" "hello" "v" .null .null), Sound (run sampleSetup sampleModel []) i) ∧
      (∀ i ∈ (run sampleSetup sampleModel (sampleRun.take 1)).stepSlots sampleSetup
        (sampleBatch "prefill_batch" 1 9), Sound (run sampleSetup sampleModel (sampleRun.take 1)) i) ∧
      (∀ i ∈ (run sampleSetup sampleModel (sampleRun.take 2)).stepSlots sampleSetup
        (sampleBatch "decode_batch" 1 4), Sound (run sampleSetup sampleModel (sampleRun.take 2)) i) ∧
      ((run sampleSetup sampleModel sampleRun).engine.slots firstSlot).reservation = 15 := by
    decide +kernel
  have hstart : ProtocolRun sampleSetup sampleModel [] := fun _ _ _ h => absurd h (by simp)
  have hopen := hstart.concat (follows_sample _ hsound.1 (by decide +kernel))
  have hprefill := hopen.concat (follows_sample _ hsound.2.1 (by decide +kernel))
  have hdecode := hprefill.concat (follows_sample _ hsound.2.2.1 (by decide +kernel))
  rw [← hsound.2.2.2]
  exact (cells_within sampleSetup sampleModel sampleRun hdecode).1 firstSlot

end Native
