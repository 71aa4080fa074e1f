/-
The prompt of a sequence is decoded once.

* `PromptDecoded` — what was decoded for a sequence since it was opened: the prompt
  behind the restored tokens, in order, and then its last token;
* `Uncut` — no step of the sequence came after a refused commit of its batch;
* `prompt_decoded_once` — in a run like that, however the prompt was cut into steps.
-/
import LlamaRuntime.Native.SequenceSteps

namespace Native

open Json

variable {n : ℕ} {F : Type}

/-! ### What decoding does to a sequence -/

/-- What the rounds of a command do to a sequence that a step names. -/
structure RoundsOf (r r' : Runtime n) (i : Fin n) (s s' : SequenceState n)
    (entries : List (LogEntry n)) : Prop where
  state : r'.states i = some s'
  fixed : s'.fixed = s.fixed
  log : r'.log = r.log ++ entries
  opens : ∀ e ∈ entries, ¬ e.Opens i
  commits : commitsFor i entries = []
  text : textOf i entries = []
  cells : cellsOf i entries = [] ∧
      (r'.engine.slots i).decodedTokens = (r.engine.slots i).decodedTokens ∨
    (r.engine.slots i).lifecycle = .decode ∧ ∃ rest, cellsOf i entries = s.nextCell :: rest

theorem RoundsOf.refl {r : Runtime n} {i : Fin n} {s : SequenceState n} (hs : r.states i = some s) :
    RoundsOf r r i s s [] :=
  ⟨hs, rfl, (List.append_nil _).symm, by simp, rfl, rfl, .inl ⟨rfl, rfl⟩⟩

theorem Round.roundsOf {config : Setup} {model : LlamaModel F} {r r' : Runtime n}
    {work : List (DecodeWork F n)} {out : RoundReply n}
    {outcome : Except Fault (List (DecodeWork F n))} (h : r.Valid config) (hwork : r.Decodes work)
    (hround : Round model r work out (r', outcome)) {i : Fin n} {s : SequenceState n}
    (hs : r.states i = some s) (hi : i ∈ work.map DecodeWork.slot) :
    ∃ s' entries, RoundsOf r r' i s s' entries ∧
      (cellsOf i entries = [] → s' = s ∧ r'.engine.slots i = r.engine.slots i) := by
  obtain ⟨w, hw, rfl⟩ := List.mem_map.mp hi
  have hcells := cellsFor_roundCells r hwork.distinct hw hs
  have hdecode : r.takes w = true → (r.engine.slots w.slot).lifecycle = .decode := fun htakes =>
    (nPast_lt h hwork hw htakes hs).2.2
  -- the batch of the round is logged in each case
  have hlogged : ∀ r₂ : Runtime n,
      r₂.log = r.log ++ [.decoded r.held (r.roundCells work)] → ∀ s' : SequenceState n,
      r₂.states w.slot = some s' → s'.fixed = s.fixed →
      (r.takes w = false → s' = s ∧ r₂.engine.slots w.slot = r.engine.slots w.slot) →
      ∃ s' entries, RoundsOf r r₂ w.slot s s' entries ∧
        (cellsOf w.slot entries = [] → s' = s ∧ r₂.engine.slots w.slot = r.engine.slots w.slot) := by
    intro r₂ hlog s' hs' hfixed hrest
    have hown : cellsOf w.slot [.decoded r.held (r.roundCells work)]
        = if r.takes w then [s.nextCell] else [] := (List.append_nil _).trans hcells
    refine ⟨s', [.decoded r.held (r.roundCells work)], ⟨hs', hfixed, hlog, fun e he => ?_, rfl, rfl, ?_⟩,
      fun hnone => ?_⟩
    · obtain rfl := List.mem_singleton.mp he
      exact id
    · by_cases htakes : r.takes w = true
      · rw [if_pos htakes] at hown
        exact .inr ⟨hdecode htakes, [], hown⟩
      · rw [if_neg htakes] at hown
        exact .inl ⟨hown, by rw [(hrest (by simpa using htakes)).2]⟩
    · refine hrest ?_
      by_contra htakes
      rw [if_pos (by simpa using htakes)] at hown
      exact absurd (hnone.symm.trans hown) (by simp)
  cases hround with
  | undecoded => exact hlogged _ rfl s hs rfl fun _ => ⟨rfl, rfl⟩
  | unsampled => exact hlogged _ rfl s hs rfl fun _ => ⟨rfl, rfl⟩
  | taken r₂ work' still moved =>
    have hlog : r₂.log = r.log ++ [.decoded r.held (r.roundCells work)] := still.log
    obtain ⟨w', -, hmoved⟩ := moved_of_left moved hw
    unfold Moved at hmoved
    have hspent := r₂.spend_states (r.takers work) out.elapsed w.slot
    by_cases htakes : r.takes w = true
    · rw [if_pos htakes] at hmoved
      obtain ⟨s₀, token, htaken⟩ := hmoved
      obtain rfl := Option.some_inj.mp (htaken.state.symm.trans hs)
      rw [htaken.state'] at hspent
      refine hlogged _ hlog _ hspent ?_ fun hno => absurd (htakes.symm.trans hno) (by simp)
      exact s₀.fixed_consumed model token _ _
    · rw [if_neg htakes] at hmoved
      obtain ⟨-, hsame, hslot⟩ := hmoved
      have htaker : w.slot ∉ r.takers work := by
        intro hmem
        obtain ⟨x, hx, heq⟩ := List.mem_map.mp hmem
        obtain ⟨hx, hxtakes⟩ := List.mem_filter.mp hx
        obtain rfl := List.inj_on_of_nodup_map hwork.distinct hx hw heq
        exact htakes hxtakes
      rw [hsame, hs] at hspent
      simp only [htaker, if_false, Option.map_some] at hspent
      exact hlogged _ hlog _ hspent rfl fun _ => ⟨rfl, hslot⟩

/-- The rounds of a command, for a sequence that a step names. -/
theorem DecodeRun.roundsOf {config : Setup} {model : LlamaModel F} {rounds : ℕ → RoundReply n}
    {k : ℕ} {r : Runtime n} {work : List (DecodeWork F n)}
    {result : Runtime n × Except Fault (List (DecodeWork F n))}
    (h : DecodeRun config model rounds k r work result) {i : Fin n} {s : SequenceState n}
    (hs : r.states i = some s) (hi : i ∈ work.map DecodeWork.slot) :
    ∃ s' entries, RoundsOf r result.1 i s s' entries := by
  induction h generalizing s with
  | done => exact ⟨s, [], .refl hs⟩
  | stopped valid decodes goes valid' one =>
    obtain ⟨s', entries, hone, -⟩ := one.roundsOf valid decodes hs hi
    exact ⟨s', entries, hone⟩
  | @next k r r' work work' result valid decodes goes one later ih =>
    have hslots : work'.map DecodeWork.slot = work.map DecodeWork.slot := by
      cases one with
      | taken r₂ _ still moved => exact moved_slots moved
    obtain ⟨s₁, first, hone, hrest⟩ := one.roundsOf valid decodes hs hi
    obtain ⟨s', entries, hlater⟩ := ih hone.state (hslots ▸ hi)
    refine ⟨s', first ++ entries, hlater.state, hlater.fixed.trans hone.fixed, ?_, fun e he => ?_,
      ?_, ?_, ?_⟩
    · rw [hlater.log, hone.log, List.append_assoc]
    · exact (List.mem_append.mp he).elim (hone.opens e) (hlater.opens e)
    · rw [commitsFor_append, hone.commits, hlater.commits]
      rfl
    · rw [textOf_append, hone.text, hlater.text]
      rfl
    · rw [cellsOf_append]
      rcases hone.cells with ⟨hnone, htokens⟩ | ⟨hdecode, rest, hcells⟩
      · obtain ⟨rfl, hslot⟩ := hrest hnone
        rw [hnone, List.nil_append, ← hslot]
        exact hlater.cells
      · rw [hcells]
        exact .inr ⟨hdecode, rest ++ cellsOf i entries, rfl⟩

/-- Decoding leaves what belongs to the request and to its prompt. -/
theorem fixed_fields {s s' : SequenceState n} (h : s'.fixed = s.fixed) :
    s'.internal = s.internal ∧ s'.prompt = s.prompt ∧
      s'.logicalPrefillProcessed = s.logicalPrefillProcessed ∧
      s'.physicalPromptDecoded = s.physicalPromptDecoded ∧
      s'.cachedPromptTokens = s.cachedPromptTokens ∧ s'.session = s.session ∧
      s'.sessionPrefix = s.sessionPrefix ∧
      s'.committedSessionGeneration = s.committedSessionGeneration ∧
      s'.cacheIdentity = s.cacheIdentity ∧ s'.sessionCommitKey = s.sessionCommitKey := by
  have hinternal := congrArg SequenceState.internal h
  have hprompt := congrArg SequenceState.prompt h
  have hlogical := congrArg SequenceState.logicalPrefillProcessed h
  have hphysical := congrArg SequenceState.physicalPromptDecoded h
  have hcached := congrArg SequenceState.cachedPromptTokens h
  have hsession := congrArg SequenceState.session h
  have hprefix := congrArg SequenceState.sessionPrefix h
  have hcommitted := congrArg SequenceState.committedSessionGeneration h
  have hidentity := congrArg SequenceState.cacheIdentity h
  have hkey := congrArg SequenceState.sessionCommitKey h
  exact ⟨hinternal, hprompt, hlogical, hphysical, hcached, hsession, hprefix, hcommitted, hidentity,
    hkey⟩

/-! ### What was decoded for a sequence -/

/-- What was decoded for a sequence: the prompt behind the restored tokens as far as it was
accounted, but for the last token of the prompt; and when all of it was accounted, its last token
at its position, and what follows. -/
structure PromptDecoded (s : SequenceState n) (cells : List Cell) : Prop where
  physical : s.physicalPromptDecoded = min s.logicalPrefillProcessed (s.prompt.length - 1)
  restored : s.cachedPromptTokens ≤ s.physicalPromptDecoded
  cells : ∃ fed, cells = cellsFrom s.cachedPromptTokens
        ((s.prompt.take s.physicalPromptDecoded).drop s.cachedPromptTokens) ++ fed ∧
      (fed ≠ [] → s.logicalPrefillProcessed = s.prompt.length) ∧
      ∀ cell ∈ fed.head?, cell.position = s.prompt.length - 1 ∧
        s.prompt[s.prompt.length - 1]? = some cell.token

/-- What was decoded, and how far the slot of the sequence counted. -/
structure Fed (slot : Slot) (s : SequenceState n) (cells : List Cell) : Prop where
  restored : s.cachedPromptTokens ≤ s.physicalPromptDecoded
  cells : ∃ fed, cells = cellsFrom s.cachedPromptTokens
        ((s.prompt.take s.physicalPromptDecoded).drop s.cachedPromptTokens) ++ fed ∧
      (fed = [] → slot.decodedTokens = 0) ∧
      (fed ≠ [] → s.logicalPrefillProcessed = s.prompt.length) ∧
      ∀ cell ∈ fed.head?, cell = ⟨s.prompt.length - 1, s.prompt.getLast?.getD 0⟩

theorem Fed.promptDecoded {slot : Slot} {i : Fin n} {s : SequenceState n} {cells : List Cell}
    (h : Fed slot s cells) (hstate : StateValid slot i s) (hprompt : 0 < slot.promptTokens) :
    PromptDecoded s cells := by
  obtain ⟨fed, heq, -, hdone, hhead⟩ := h.cells
  refine ⟨hstate.physical, h.restored, fed, heq, hdone, fun cell hcell => ?_⟩
  have hlength := hstate.prompt
  have hcell' := hhead cell hcell
  have hne : s.prompt ≠ [] := by
    rintro hnil
    rw [hnil, List.length_nil] at hlength
    omega
  rw [hcell']
  refine ⟨rfl, ?_⟩
  rw [← List.getLast?_eq_getElem?, List.getLast?_eq_some_getLast hne]
  rfl

/-- The tokens of the prompt from one position on, and those behind them. -/
theorem take_append_step (prompt : List Token) {cached physical step : ℕ} (hcached : cached ≤ physical)
    (hphysical : physical ≤ prompt.length) :
    cellsFrom cached ((prompt.take (physical + step)).drop cached)
      = cellsFrom cached ((prompt.take physical).drop cached) ++
        cellsFrom physical ((prompt.drop physical).take step) := by
  have hsplit : (prompt.take (physical + step)).drop cached
      = (prompt.take physical).drop cached ++ (prompt.drop physical).take step := by
    have hlength : (prompt.take physical).length = physical := by
      rw [List.length_take]
      omega
    rw [List.take_add, List.drop_append_of_le_length (by omega)]
  rw [hsplit, cellsFrom_append]
  congr 2
  rw [List.length_drop, List.length_take]
  omega

/-- A step of a batch that is accounted. -/
theorem Fed.prefilled {config : Setup} {r : Runtime n} {w : PrefillWork F n} {s : SequenceState n}
    {cells : List Cell} (h : Fed (r.engine.slots w.slot) s cells) (hvalid : r.Valid config)
    (hw : w.Valid r s) (elapsed : ℚ) :
    Fed (prefilledSlot (r.engine.slots w.slot) w.logicalTokens) (w.next s elapsed)
      (cells ++ s.promptCells w.physicalTokens) := by
  have hstate := hvalid.state hw.state
  obtain ⟨hle, -⟩ := hw.physical_le hvalid
  obtain ⟨hremaining, -, -⟩ := hw.bounds hvalid
  obtain ⟨fed, heq, -, hdone, -⟩ := h.cells
  -- nothing but the prompt was decoded yet
  have hnone : fed = [] := by
    by_contra hfed
    have hall := hdone hfed
    unfold SequenceState.remaining at hremaining
    omega
  subst hnone
  have hcached := h.restored
  have hsplit : cellsFrom s.cachedPromptTokens
        ((s.prompt.take (s.physicalPromptDecoded + w.physicalTokens)).drop s.cachedPromptTokens)
      = cellsFrom s.cachedPromptTokens ((s.prompt.take s.physicalPromptDecoded).drop s.cachedPromptTokens)
        ++ cellsFrom s.physicalPromptDecoded ((s.prompt.drop s.physicalPromptDecoded).take w.physicalTokens) :=
    take_append_step s.prompt hcached (by omega)
  refine ⟨?_, [], ?_, fun _ => ?_, fun hne => absurd rfl hne, fun cell hcell => ?_⟩
  · show s.cachedPromptTokens ≤ s.physicalPromptDecoded + w.physicalTokens
    omega
  · rw [List.append_nil] at heq ⊢
    show cells ++ s.promptCells w.physicalTokens
      = cellsFrom s.cachedPromptTokens
        ((s.prompt.take (s.physicalPromptDecoded + w.physicalTokens)).drop s.cachedPromptTokens)
    rw [hsplit, heq]
    rfl
  · exact hstate.prefilling hw.prefilling
  · exact absurd hcell (by simp)

/-- The rounds of a command. -/
theorem Fed.decoded {config : Setup} {r r' : Runtime n} {i : Fin n} {s s' : SequenceState n}
    {cells : List Cell} {entries : List (LogEntry n)} (h : Fed (r.engine.slots i) s cells)
    (hvalid : r.Valid config) (hs : r.states i = some s) (hrounds : RoundsOf r r' i s s' entries) :
    Fed (r'.engine.slots i) s' (cells ++ cellsOf i entries) := by
  have hstate := hvalid.state hs
  obtain ⟨fed, heq, hfresh, hdone, hhead⟩ := h.cells
  obtain ⟨-, hprompt, hlogical, hphysical, hcached, -⟩ := fixed_fields hrounds.fixed
  refine ⟨by rw [hcached, hphysical]; exact h.restored, fed ++ cellsOf i entries, ?_, ?_, ?_, ?_⟩
  · rw [hprompt, hphysical, hcached, heq, List.append_assoc]
  · intro hnil
    obtain ⟨hfed, hcells⟩ := List.append_eq_nil_iff.mp hnil
    rcases hrounds.cells with ⟨-, htokens⟩ | ⟨-, rest, hcells'⟩
    · rw [htokens]
      exact hfresh hfed
    · exact absurd (hcells.symm.trans hcells') (by simp)
  · intro hne
    rw [hlogical, hprompt]
    by_cases hfed : fed = []
    · rcases hrounds.cells with ⟨hnone, -⟩ | ⟨hdecode, -⟩
      · rw [hfed, hnone] at hne
        exact absurd rfl hne
      · exact (hstate.decoding hdecode).1
    · exact hdone hfed
  · intro cell hcell
    rw [hprompt]
    by_cases hfed : fed = []
    · subst hfed
      rcases hrounds.cells with ⟨hnone, -⟩ | ⟨hdecode, rest, hcells⟩
      · rw [hnone] at hcell
        exact absurd hcell (by simp)
      · -- the first token that is decoded after the prompt is its last one
        rw [hcells] at hcell
        obtain rfl : s.nextCell = cell := by simpa using hcell
        have htokens := hfresh rfl
        have hall := (hstate.decoding hdecode).1
        have hposition := hstate.nPast
        have hlast := hstate.physical
        have hpending := hstate.pending htokens
        have hpast : s.nPast = s.prompt.length - 1 := by omega
        unfold SequenceState.nextCell
        rw [hpast, hpending]
    · obtain ⟨first, rest, rfl⟩ := List.exists_cons_of_ne_nil hfed
      exact hhead cell hcell

/-- A sequence that was just opened. -/
theorem OpenedAs.fed {config : Setup} {r : Runtime n} {i : Fin n} {q : OpenRequest} {cached : ℕ}
    {s : SequenceState n} {memory : Fin n → List Cell} (h : OpenedAs config r i q cached s memory) :
    Fed (openSlot (r.engine.slots i) q cached) s [] := by
  have hnone : ∀ (prompt : List Token) (physical : ℕ),
      cellsFrom physical ((prompt.take physical).drop physical) = [] := by
    intro prompt physical
    rw [List.drop_eq_nil_of_le (List.length_take_le _ _)]
    rfl
  cases h with
  | plain openedAt =>
    exact ⟨le_rfl, [], by rw [List.append_nil]; exact (hnone _ _).symm, fun _ => rfl,
      fun hne => absurd rfl hne, by simp⟩
  | restored openedAt e =>
    exact ⟨le_rfl, [], by rw [List.append_nil]; exact (hnone _ _).symm, fun _ => rfl,
      fun hne => absurd rfl hne, by simp⟩

/-! ### Runs -/

/-- No command decoded tokens of a sequence without accounting them: none of its steps came after a
step whose commit was refused. -/
def Uncut (config : Setup) (model : LlamaModel F) (inputs : List (Input F config.maxSequences))
    (i : Fin config.maxSequences) (internal : Handle config.maxSequences) : Prop :=
  ∀ earlier input later, inputs = earlier ++ input :: later → ∀ s,
    (run config model earlier).states i = some s → s.internal = internal →
    i ∉ (run config model earlier).cutSlots config input

theorem Uncut.init {config : Setup} {model : LlamaModel F}
    {inputs : List (Input F config.maxSequences)} {input : Input F config.maxSequences}
    {i : Fin config.maxSequences} {internal : Handle config.maxSequences}
    (h : Uncut config model (inputs ++ [input]) i internal) : Uncut config model inputs i internal := by
  intro earlier x later heq
  refine h earlier x (later ++ [input]) ?_
  rw [heq, List.append_assoc]
  rfl

theorem Fed.slot {slot slot' : Slot} {s : SequenceState n} {cells : List Cell} (h : Fed slot s cells)
    (htokens : slot'.decodedTokens = slot.decodedTokens) : Fed slot' s cells := by
  obtain ⟨fed, heq, hfresh, hrest⟩ := h.cells
  exact ⟨h.restored, fed, heq, fun hnil => htokens.trans (hfresh hnil), hrest⟩

/-- The entries at the end of a command that decodes name no cells. -/
theorem cellsOf_sent (i : Fin n) (work : List (DecodeWork F n)) :
    (∀ e ∈ sentEntries work, ¬ e.Opens i) ∧ cellsOf i (sentEntries work) = [] ∧
      commitsFor i (sentEntries work) = [] := by
  refine ⟨fun e he => ?_, List.flatMap_eq_nil_iff.mpr fun e he => ?_,
    List.flatMap_eq_nil_iff.mpr fun e he => ?_⟩
  all_goals obtain ⟨w, -, rfl⟩ := List.mem_map.mp he
  · exact id
  · rfl
  · rfl

/-- What the last line of the input does to what was decoded for a sequence. -/
theorem fed_step {config : Setup} {model : LlamaModel F} {r : Runtime config.maxSequences}
    {input : Input F config.maxSequences} {i : Fin config.maxSequences}
    {s' : SequenceState config.maxSequences} (h : r.Valid config)
    (decodes : input.out.prefill.decoded = .success)
    (hs' : (step config model r input).1.states i = some s')
    (uncut : ∀ s, r.states i = some s → s.internal = s'.internal → i ∉ r.cutSlots config input)
    (hfed : ∀ s, r.states i = some s → s.internal = s'.internal →
      Fed (r.engine.slots i) s (cellsOf i (sinceOpened i r.log))) :
    Fed ((step config model r input).1.engine.slots i) s'
      (cellsOf i (sinceOpened i (step config model r input).1.log)) := by
  have hslot := slotStep model h input i
  revert hslot hs'
  generalize (step config model r input).1 = r'
  intro hs' hslot
  cases hslot with
  | free gone => exact absurd (gone.symm.trans hs') (by simp)
  | opened vacant q cached s memory begins state slot log =>
    obtain rfl := Option.some_inj.mp (state.symm.trans hs')
    rw [log, slot]
    exact begins.fed
  | rested s state state' tokens quiet =>
    obtain rfl := Option.some_inj.mp (state'.symm.trans hs')
    rw [quiet.since.1]
    exact (hfed s state rfl).slot tokens
  | undecoded s state state' slot failure refused => exact absurd decodes failure
  | prefilled w s slot work completes entries opens log cells text result refused cut snapshot =>
    subst slot
    rw [log, sinceOpened_append opens, cellsOf_append, cells]
    generalize commitsFor w.slot entries = commits at result
    have hnext : s.internal = s'.internal → Fed (prefilledSlot (r.engine.slots w.slot) w.logicalTokens)
        (w.next s input.out.prefill.elapsed)
        (cellsOf w.slot (sinceOpened w.slot r.log) ++ s.promptCells w.physicalTokens) :=
      fun hinternal => (hfed s work.state hinternal).prefilled h work _
    cases result with
    | advanced _ idle state slot =>
      obtain rfl := Option.some_inj.mp (state.symm.trans hs')
      rw [slot]
      exact hnext rfl
    | committed _ hcommits stored state slot =>
      obtain rfl := Option.some_inj.mp (state.symm.trans hs')
      rw [slot]
      have hsame := hnext rfl
      exact ⟨hsame.restored, hsame.cells⟩
    | refused hcommits state slot =>
      obtain rfl := Option.some_inj.mp (state.symm.trans hs')
      rw [slot]
      exact hnext rfl
    | untouched state slot =>
      obtain rfl := Option.some_inj.mp (state.symm.trans hs')
      exact absurd (cut slot) (uncut s work.state rfl)
  | decoded work w mem slot begins result run states slots entries log rest =>
    subst slot
    obtain ⟨s, hs, -⟩ := (begins w mem).opened
    obtain ⟨s'', rounds, hrounds⟩ := run.roundsOf hs (List.mem_map_of_mem mem)
    rw [states, hrounds.state] at hs'
    obtain rfl := Option.some_inj.mp hs'
    have hinternal := (fixed_fields hrounds.fixed).1
    have hlast : (∀ e ∈ entries, ¬ e.Opens w.slot) ∧ cellsOf w.slot entries = [] := by
      rcases rest with ⟨work', -, rfl⟩ | ⟨-, named, -, rfl⟩
      · exact ⟨(cellsOf_sent _ work').1, (cellsOf_sent _ work').2.1⟩
      · refine ⟨fun e he => ?_, rfl⟩
        obtain rfl := List.mem_singleton.mp he
        exact id
    rw [log, sinceOpened_append hlast.1, hrounds.log, sinceOpened_append hrounds.opens, slots,
      cellsOf_append, cellsOf_append, hlast.2, List.append_nil]
    exact (hfed s hs hinternal.symm).decoded h hs hrounds

/-- What a run keeps. -/
theorem fed_run (config : Setup) (model : LlamaModel F) (inputs : List (Input F config.maxSequences))
    (decodes : ∀ input ∈ inputs, input.out.prefill.decoded = .success) {i : Fin config.maxSequences}
    {s : SequenceState config.maxSequences} (hs : (run config model inputs).states i = some s)
    (uncut : Uncut config model inputs i s.internal) :
    Fed ((run config model inputs).engine.slots i) s
      (cellsOf i (sinceOpened i (run config model inputs).log)) := by
  induction inputs using List.reverseRecOn generalizing s with
  | nil => exact absurd hs (by simp [run, Runtime.initial])
  | append_singleton inputs input ih =>
    rw [run_concat] at hs ⊢
    refine fed_step (valid_run config model inputs) (decodes input (by simp)) hs
      (fun s₀ hs₀ hinternal => uncut inputs input [] rfl s₀ hs₀ hinternal) fun s₀ hs₀ hinternal => ?_
    exact ih (fun x hx => decodes x (List.mem_append_left _ hx)) hs₀ (hinternal ▸ uncut.init)

/-! ### Outcomes -/

/-- The outcomes of a batch say how much of each prompt is left. -/
theorem PrefillRun.outcomes {config : Setup} {elapsed : ℚ} {captures : Fin n → CaptureReply}
    {r : Runtime n} {work : List (PrefillWork F n)}
    {result : Runtime n × Except Fault (List (PrefillOutcome F))}
    (h : PrefillRun config elapsed captures r work result) {outcomes : List (PrefillOutcome F)}
    (hok : result.2 = .ok outcomes) :
    List.Forall₂ (fun w o => ∃ s, w.Valid r s ∧
      o = ⟨w.handle, (w.next s elapsed).remaining = 0, w.logicalTokens,
        (w.next s elapsed).remaining⟩) work outcomes := by
  induction h generalizing outcomes with
  | nil =>
    obtain rfl := Except.ok.inj hok
    exact .nil
  | refused => exact absurd hok (by simp)
  | @next r r' w rest s outcome result valid prefills work one later ih =>
    obtain ⟨r'', others⟩ := result
    cases others with
    | error fault => exact absurd hok (by simp [Except.map])
    | ok others =>
      obtain rfl := Except.ok.inj hok
      have hframe := one.counted.frame
      have hdistinct := (List.nodup_cons.mp (List.map_cons ▸ prefills.distinct)).1
      have hhead : outcome = ⟨w.handle, (w.next s elapsed).remaining = 0, w.logicalTokens,
          (w.next s elapsed).remaining⟩ := by
        cases one with
        | done => rfl
      refine .cons ⟨s, work, hhead⟩ ((List.forall₂_and_left _ _).mpr ⟨fun w' hw' => hw', ih rfl⟩ |>.imp ?_)
      rintro w' o ⟨hw', s', hs', ho⟩
      obtain ⟨s'', hs''⟩ := prefills.valid w' (List.mem_cons_of_mem _ hw')
      have hne : w'.slot ≠ w.slot := fun heq => hdistinct (heq ▸ List.mem_map_of_mem hw')
      obtain rfl := Option.some_inj.mp ((hs'.state.symm.trans (hframe.states _ hne)).trans hs''.state)
      exact ⟨s', hs'', ho⟩

/-- The sequences of a batch that was answered with outcomes. -/
theorem PrefillBatch.answered {config : Setup} {r : Runtime config.maxSequences}
    {command : Value F} {out : PrefillReply config.maxSequences} {r' : Runtime config.maxSequences}
    {outcomes : List (PrefillOutcome F)}
    (hbatch : PrefillBatch config r command out (r', .prefillCompleted outcomes)) :
    ∀ o ∈ outcomes, ∃ i s w s', r.named config o.handle = some (i, s) ∧
      r'.named config o.handle = some (i, s') ∧ w.slot = i ∧ w.Valid r s ∧
      o = ⟨w.handle, (w.next s out.elapsed).remaining = 0, w.logicalTokens,
        (w.next s out.elapsed).remaining⟩ ∧
      ∃ commits, StepResult out.elapsed r r' w s true commits ∧ r'.states i = some s' := by
  generalize hresult : (r', Reply.prefillCompleted outcomes) = result at hbatch
  cases hbatch with
  | rejected => exact absurd (congrArg Prod.snd hresult) (by simp [Reply.fault])
  | undecoded => exact absurd (congrArg Prod.snd hresult) (by simp [Reply.fault])
  | followed steps work prefills command_steps steps_for result run =>
    obtain ⟨r'', outcome⟩ := result
    cases outcome with
    | error fault => exact absurd (congrArg Prod.snd hresult) (by simp [Reply.fault])
    | ok others =>
      obtain ⟨rfl, hreply⟩ := Prod.mk.inj hresult
      obtain rfl := Reply.prefillCompleted.inj hreply
      obtain ⟨hengine, hstates, -, -⟩ := r.prefillDecoded_tables work .success
      obtain ⟨entries, hspec⟩ := run.spec
      intro o ho
      obtain ⟨w, hw, s, hs, heq⟩ := exists_of_mem_right (run.outcomes rfl) ho
      obtain ⟨step, -, s₁, hfor⟩ := exists_of_mem_right steps_for hw
      obtain ⟨generation, hparse, hs₁, hgeneration⟩ := Runtime.named_eq_some.mp hfor.named
      have hstate : r.states w.slot = some s := hstates ▸ hs.state
      obtain rfl := Option.some_inj.mp (hstate.symm.trans hs₁)
      have hvalid : w.Valid r s := ⟨hstate, hengine ▸ hs.prefilling, hs.budget, hs.physical⟩
      obtain ⟨s₂, hs₂, hstep⟩ := hspec.steps w hw
      obtain rfl := Option.some_inj.mp (hs₂.state.symm.trans hs.state)
      have hstep' := hstep.frame (r := r) (by rw [hengine])
      have hleft : ∃ s', r'.states w.slot = some s' ∧ s'.internal = s₂.internal := by
        generalize commitsFor w.slot entries = commits at hstep
        cases hstep with
        | advanced _ _ state _ => exact ⟨_, state, rfl⟩
        | committed _ _ _ state _ => exact ⟨_, state, rfl⟩
      obtain ⟨s', hs', hinternal⟩ := hleft
      refine ⟨w.slot, s₂, w, s', ?_, ?_, rfl, hvalid, heq, _, hstep', hs'⟩
      · rw [heq]
        exact hfor.named
      · rw [heq]
        exact Runtime.named_eq_some.mpr ⟨generation, hparse, hs', by rw [hinternal]; exact hgeneration⟩

/-- Only a prefill command is answered with the outcomes of one. -/
theorem Stepped.prefillCompleted {config : Setup} {model : LlamaModel F}
    {r r' : Runtime config.maxSequences} {input : Input F config.maxSequences}
    {outcomes : List (PrefillOutcome F)} (h : Stepped config model r input (r', .prefillCompleted outcomes)) :
    ∃ command, input.line = some command ∧
      PrefillBatch config r command input.out.prefill (r', .prefillCompleted outcomes) := by
  generalize hresult : (r', Reply.prefillCompleted outcomes) = result at h
  cases h with
  | rejected => exact absurd (congrArg Prod.snd hresult) (by simp)
  | stopped => exact absurd (congrArg Prod.snd hresult) (by simp)
  | stats => exact absurd (congrArg Prod.snd hresult) (by simp)
  | cleared => exact absurd (congrArg Prod.snd hresult) (by simp)
  | opening command line type result handled opening =>
    subst hresult
    generalize hreply : (r', Reply.prefillCompleted outcomes) = result at opening
    cases opening with
    | refused => exact absurd (congrArg Prod.snd hreply) (by simp)
    | missing => exact absurd (congrArg Prod.snd hreply) (by simp)
    | opened => exact absurd (congrArg Prod.snd hreply) (by simp [Runtime.openedReply])
  | prefilling command line type result handled batch =>
    obtain ⟨r'', reply⟩ := result
    cases reply with
    | prefillCompleted others =>
      have hpair : (r', Reply.prefillCompleted outcomes) = (r'', Reply.prefillCompleted others) := hresult
      obtain ⟨rfl, hreply⟩ := Prod.mk.inj hpair
      obtain rfl := Reply.prefillCompleted.inj hreply
      exact ⟨command, line, batch⟩
    | _ => exact absurd (congrArg Prod.snd hresult) (by simp [refusedEntry])
  | decoding command line type result handled batch =>
    cases batch with
    | rejected => exact absurd (congrArg Prod.snd hresult) (by simp [refusedEntry, Reply.fault])
    | stopped => exact absurd (congrArg Prod.snd hresult) (by simp [refusedEntry, Reply.fault])
    | completed => exact absurd (congrArg Prod.snd hresult) (by simp [refusedEntry])
  | releasing command line type result handled releasing =>
    subst hresult
    generalize hreply : (r', Reply.prefillCompleted outcomes) = result at releasing
    cases releasing with
    | rejected => exact absurd (congrArg Prod.snd hreply) (by simp [Reply.fault])
    | vacant => exact absurd (congrArg Prod.snd hreply) (by simp)
    | stale => exact absurd (congrArg Prod.snd hreply) (by simp)
    | stopped => exact absurd (congrArg Prod.snd hreply) (by simp [Reply.fault])
    | released => exact absurd (congrArg Prod.snd hreply) (by simp)

theorem Uncut.concat {config : Setup} {model : LlamaModel F}
    {inputs : List (Input F config.maxSequences)} {input : Input F config.maxSequences}
    {i : Fin config.maxSequences} {internal : Handle config.maxSequences}
    (h : Uncut config model inputs i internal)
    (hlast : i ∉ (run config model inputs).cutSlots config input) :
    Uncut config model (inputs ++ [input]) i internal := by
  intro earlier x later heq
  rcases List.eq_nil_or_concat later with rfl | ⟨later, last, rfl⟩
  · obtain ⟨rfl, hsame⟩ := List.append_inj' heq rfl
    obtain rfl := List.singleton_inj.mp hsame
    exact fun _ _ _ => hlast
  · rw [List.concat_eq_append, ← List.cons_append, ← List.append_assoc] at heq
    exact h earlier x later (List.append_inj' heq rfl).1

/-- **The prompt is decoded once, however it is cut into steps.**  In a run in which `llama_decode`
succeeds, what was decoded for a sequence since it was opened is its prompt behind the restored
tokens, each token at its position and but for the last one, and then, when the whole prompt was
accounted, its last token at its position; unless a step of the sequence came after one whose commit
was refused.  An outcome says ready exactly if the whole prompt is accounted. -/
theorem prompt_decoded_once (config : Setup) (model : LlamaModel F)
    (inputs : List (Input F config.maxSequences))
    (decodes : ∀ input ∈ inputs, input.out.prefill.decoded = .success) :
    (∀ i s, (run config model inputs).states i = some s → Uncut config model inputs i s.internal →
        PromptDecoded s (cellsOf i (sinceOpened i (run config model inputs).log))) ∧
      ∀ input outcomes, (step config model (run config model inputs) input).2
          = .prefillCompleted outcomes →
        ∀ o ∈ outcomes, ∃ i s,
          (step config model (run config model inputs) input).1.named config o.handle = some (i, s) ∧
          (o.ready = true ↔ s.logicalPrefillProcessed = s.prompt.length) := by
  have hvalid := valid_run config model inputs
  constructor
  · intro i s hs uncut
    have hstate := hvalid.state hs
    have hsized := ((hvalid.engine.slot i).sized hstate.ne_released).1
    exact (fed_run config model inputs decodes hs uncut).promptDecoded hstate hsized
  · intro input outcomes hreply o ho
    have hstepped := stepped model hvalid input
    revert hstepped hreply
    generalize step config model (run config model inputs) input = result
    intro hreply hstepped
    obtain ⟨r', reply⟩ := result
    change reply = _ at hreply
    subst hreply
    obtain ⟨command, -, hbatch⟩ := hstepped.prefillCompleted
    obtain ⟨i, s, w, s', -, hnamed, rfl, hw, heq, commits, hstep, hs'⟩ := hbatch.answered o ho
    refine ⟨w.slot, s', hnamed, ?_⟩
    -- the state is the one that the outcome was made of, but for what is noted of its session
    have hleft : s'.logicalPrefillProcessed = s.logicalPrefillProcessed + w.logicalTokens ∧
        s'.prompt = s.prompt := by
      cases hstep with
      | advanced _ _ state _ =>
        obtain rfl := Option.some_inj.mp (state.symm.trans hs')
        exact ⟨rfl, rfl⟩
      | committed _ _ _ state _ =>
        obtain rfl := Option.some_inj.mp (state.symm.trans hs')
        exact ⟨rfl, rfl⟩
    obtain ⟨hremaining, -, hle⟩ := hw.bounds hvalid
    have hready : o.ready = decide (s.prompt.length - (s.logicalPrefillProcessed + w.logicalTokens) = 0) := by
      rw [heq]
      rfl
    unfold SequenceState.remaining at hremaining hle
    rw [hready, decide_eq_true_iff, hleft.1, hleft.2]
    omega

/-- A sequence is opened, prefilled and decoded: its cells are those of its prompt, once. -/
theorem prompt_decoded_once_sample : ∃ s,
    (run sampleSetup sampleModel sampleRun).states firstSlot = some s ∧
      PromptDecoded s (cellsOf firstSlot
        (sinceOpened firstSlot (run sampleSetup sampleModel sampleRun).log)) := by
  have huncut : firstSlot ∉ (run sampleSetup sampleModel []).cutSlots sampleSetup
        (sampleInput (openCommand "r" "hello" "v" .null .null)) ∧
      firstSlot ∉ (run sampleSetup sampleModel (sampleRun.take 1)).cutSlots sampleSetup
        (sampleInput (sampleBatch "prefill_batch" 1 9)) ∧
      firstSlot ∉ (run sampleSetup sampleModel (sampleRun.take 2)).cutSlots sampleSetup
        (sampleInput (sampleBatch "decode_batch" 1 4)) ∧
      ((run sampleSetup sampleModel sampleRun).states firstSlot).isSome = true := by
    decide +kernel
  obtain ⟨hopen, hprefill, hdecode, hsome⟩ := huncut
  obtain ⟨s, hs⟩ := Option.isSome_iff_exists.mp hsome
  have hstart : Uncut sampleSetup sampleModel [] firstSlot s.internal :=
    fun _ _ _ heq => absurd heq (by simp)
  have hdecodes : ∀ input ∈ sampleRun, input.out.prefill.decoded = .success := by
    intro input hmem
    obtain ⟨command, -, rfl⟩ := List.mem_map.mp hmem
    rfl
  have hrun := (prompt_decoded_once sampleSetup sampleModel sampleRun hdecodes).1 firstSlot s hs
  exact ⟨s, hs, hrun (((hstart.concat hopen).concat hprefill).concat hdecode)⟩

/-! ### A batch that is cut off -/

/-- A scope that allows sessions. -/
def sessionScope : Value Empty :=
  record
    [("tenant_id", text "t"), ("workflow_id", text "w"), ("agent_id", text "a"),
      ("visibility", text "private")]

/-- A session whose first snapshot is to be stored. -/
def rootSession : Value Empty :=
  record [("session_id", text "s"), ("parent_generation", .null), ("commit", .bool true)]

/-- The handle of a sequence of a slot. -/
def slotHandle (slot : String) (generation : ℤ) : Value Empty :=
  record
    [("backend", text "llama"), ("model", text "m"), ("sequence", text slot),
      ("generation", .int generation)]

def stepOf (handle : Value Empty) (budget : ℤ) : Value Empty :=
  record [("handle", handle), ("token_budget", .int budget)]

def prefillCommand (steps : List (Value Empty)) : Value Empty :=
  record
    [("protocol_version", text "inference-runtime-ipc.v1"), ("type", text "prefill_batch"),
      ("command_id", .int 1), ("steps", .list steps)]

/-- Two sequences begin one session, and the first stores its snapshot; that of the second is
refused, in a batch with a third sequence, which is then prefilled again. -/
def cutRun : List (Input Empty sampleSetup.maxSequences) :=
  [openCommand "r" "hello" "v" sessionScope rootSession,
    openCommand "s" "hello" "v" sessionScope rootSession,
    prefillCommand [stepOf (slotHandle "slot-0" 1) 9], sampleRelease 1,
    openCommand "t" "plain" "v" .null .null,
    prefillCommand [stepOf (slotHandle "slot-1" 1) 9, stepOf (slotHandle "slot-0" 2) 9],
    prefillCommand [stepOf (slotHandle "slot-0" 2) 9]].map sampleInput

/-- The prompt of the third sequence is decoded twice. -/
theorem prompt_decoded_twice : (∀ input ∈ cutRun, input.out.prefill.decoded = .success) ∧ ∃ s,
    (run sampleSetup sampleModel cutRun).states firstSlot = some s ∧
      ¬ PromptDecoded s (cellsOf firstSlot
        (sinceOpened firstSlot (run sampleSetup sampleModel cutRun).log)) := by
  have hrun : ((run sampleSetup sampleModel cutRun).states firstSlot).any
        (fun s => s.cachedPromptTokens = 0 ∧ s.physicalPromptDecoded = 5 ∧ s.prompt.length = 6) = true ∧
      (cellsOf firstSlot (sinceOpened firstSlot (run sampleSetup sampleModel cutRun).log))[5]?
        = some ⟨0, 112⟩ := by decide +kernel
  obtain ⟨s, hs, hcounted⟩ := (Option.any_eq_true _ _).mp hrun.1
  obtain ⟨hcached, hphysical, hlength⟩ := of_decide_eq_true hcounted
  refine ⟨fun input hmem => ?_, s, hs, fun hdecoded => ?_⟩
  · obtain ⟨command, -, rfl⟩ := List.mem_map.mp hmem
    rfl
  · obtain ⟨fed, heq, -, hhead⟩ := hdecoded.cells
    have hsixth := hrun.2
    have hlong : (cellsFrom 0 (s.prompt.take 5)).length = 5 := by
      rw [length_cellsFrom, List.length_take, hlength]
      rfl
    rw [heq, hcached, hphysical, List.drop_zero, List.getElem?_append_right (by omega), hlong] at hsixth
    have hmem : (⟨0, 112⟩ : Cell) ∈ fed.head? := List.head?_eq_getElem?.trans hsixth
    have hposition : (0 : ℕ) = s.prompt.length - 1 := (hhead _ hmem).1
    omega

end Native
