/-
One line of the input, as one slot sees it.

* `CutOff` — a command decodes tokens of a sequence and does not account them;
* `SlotStep` — the slot is free, a sequence is opened in it, or its sequence rests, is
  prefilled or is decoded (`slotStep`).
-/
import LlamaRuntime.Native.KvCells
import LlamaRuntime.Native.PrefillBatches

namespace Native

open Json

variable {n : ℕ} {F : Type}

/-! ### Entries that say nothing of a slot -/

/-- An entry of the log that is not about the sequence of a slot. -/
structure LogEntry.Quiet (i : Fin n) (e : LogEntry n) : Prop where
  opens : ¬ e.Opens i
  decoded : e.decodedFor i = []
  committed : e.committedFor i = []
  sent : e.sentFor i = []

/-- The log grew by entries that are not about a slot. -/
def Runtime.QuietFor (i : Fin n) (r r' : Runtime n) : Prop :=
  ∃ entries, r'.log = r.log ++ entries ∧ ∀ e ∈ entries, e.Quiet i

theorem Runtime.QuietFor.refl (i : Fin n) (r : Runtime n) : r.QuietFor i r :=
  ⟨[], (List.append_nil _).symm, by simp⟩

theorem Runtime.QuietFor.trans {i : Fin n} {r r' r'' : Runtime n} (h : r.QuietFor i r')
    (h' : r'.QuietFor i r'') : r.QuietFor i r'' := by
  obtain ⟨entries, heq, hquiet⟩ := h
  obtain ⟨others, heq', hquiet'⟩ := h'
  refine ⟨entries ++ others, by rw [heq', heq, List.append_assoc], fun e he => ?_⟩
  exact (List.mem_append.mp he).elim (hquiet e) (hquiet' e)

/-- The cells that were decoded for a slot. -/
def cellsOf (i : Fin n) (entries : List (LogEntry n)) : List Cell :=
  entries.flatMap (LogEntry.decodedFor i)

/-- The text that was sent for a slot. -/
def textOf (i : Fin n) (entries : List (LogEntry n)) : List UInt8 :=
  entries.flatMap (LogEntry.sentFor i)

theorem cellsOf_append (i : Fin n) (entries others : List (LogEntry n)) :
    cellsOf i (entries ++ others) = cellsOf i entries ++ cellsOf i others := List.flatMap_append

theorem textOf_append (i : Fin n) (entries others : List (LogEntry n)) :
    textOf i (entries ++ others) = textOf i entries ++ textOf i others := List.flatMap_append

theorem quiet_entries {i : Fin n} {entries : List (LogEntry n)} (h : ∀ e ∈ entries, e.Quiet i) :
    cellsOf i entries = [] ∧ commitsFor i entries = [] ∧ textOf i entries = [] :=
  ⟨List.flatMap_eq_nil_iff.mpr fun e he => (h e he).decoded,
    List.flatMap_eq_nil_iff.mpr fun e he => (h e he).committed,
    List.flatMap_eq_nil_iff.mpr fun e he => (h e he).sent⟩

/-- What was logged of a sequence since it was opened, where the entries do not matter to it. -/
theorem Runtime.QuietFor.since {i : Fin n} {r r' : Runtime n} (h : r.QuietFor i r') :
    cellsOf i (sinceOpened i r'.log) = cellsOf i (sinceOpened i r.log) ∧
      commitsFor i (sinceOpened i r'.log) = commitsFor i (sinceOpened i r.log) ∧
      textOf i (sinceOpened i r'.log) = textOf i (sinceOpened i r.log) := by
  obtain ⟨entries, heq, hquiet⟩ := h
  obtain ⟨hcells, hcommits, htext⟩ := quiet_entries hquiet
  rw [heq, sinceOpened_append fun e he => (hquiet e he).opens]
  rw [cellsOf_append, commitsFor_append, textOf_append, hcells, hcommits, htext]
  simp only [List.append_nil, and_self]

theorem quiet_refused (i : Fin n) (slots : List (Fin n)) : (LogEntry.refused slots).Quiet i :=
  ⟨id, rfl, rfl, rfl⟩

theorem quiet_decoded {i : Fin n} {held : ℕ} {batch : List (Fin n × Cell)}
    (h : cellsFor i batch = []) : (LogEntry.decoded held batch).Quiet i := ⟨id, h, rfl, rfl⟩

theorem quietFor_record (i : Fin n) (r : Runtime n) (slots : List (Fin n)) :
    r.QuietFor i (r.record (.refused slots)) := by
  refine ⟨[.refused slots], rfl, fun e he => ?_⟩
  obtain rfl := List.mem_singleton.mp he
  exact quiet_refused i slots

theorem quietFor_decode {i : Fin n} (r : Runtime n) {batch : List (Fin n × Cell)}
    (h : cellsFor i batch = []) (answer : DecodeAnswer) : r.QuietFor i (r.decode batch answer) := by
  refine ⟨[.decoded r.held batch], rfl, fun e he => ?_⟩
  obtain rfl := List.mem_singleton.mp he
  exact quiet_decoded h

/-- The rounds of a command keep its steps. -/
theorem DecodeRun.slots {config : Setup} {model : LlamaModel F} {rounds : ℕ → RoundReply n} {k : ℕ}
    {r r' : Runtime n} {work work' : List (DecodeWork F n)}
    (h : DecodeRun config model rounds k r work (r', .ok work')) :
    work'.map DecodeWork.slot = work.map DecodeWork.slot := by
  generalize hresult : (r', Except.ok work') = result at h
  induction h with
  | done =>
    obtain ⟨-, hwork⟩ := Prod.mk.inj hresult
    rw [Except.ok.inj hwork]
  | stopped =>
    obtain ⟨-, hwork⟩ := Prod.mk.inj hresult
    exact absurd hwork (by simp)
  | next _ _ _ one _ ih =>
    cases one with
    | taken r₂ _ still moved => exact (ih hresult).trans (moved_slots moved)

/-- The rounds of a command leave the sequences alone that its steps do not name. -/
theorem DecodeRun.others {config : Setup} {model : LlamaModel F} {rounds : ℕ → RoundReply n} {k : ℕ}
    {r : Runtime n} {work : List (DecodeWork F n)}
    {result : Runtime n × Except Fault (List (DecodeWork F n))}
    (h : DecodeRun config model rounds k r work result) {i : Fin n}
    (hi : i ∉ work.map DecodeWork.slot) :
    result.1.states i = r.states i ∧ result.1.engine.slots i = r.engine.slots i ∧
      r.QuietFor i result.1 := by
  have hround : ∀ (r r' : Runtime n) (work : List (DecodeWork F n)) (out : RoundReply n)
      (outcome : Except Fault (List (DecodeWork F n))), i ∉ work.map DecodeWork.slot →
      Round model r work out (r', outcome) → r'.states i = r.states i ∧
        r'.engine.slots i = r.engine.slots i ∧ r.QuietFor i r' := by
    intro r r' work out outcome hi hround
    have hquiet := fun answer => quietFor_decode r (cellsFor_roundCells_of_notMem r hi) answer
    cases hround with
    | undecoded => exact ⟨rfl, rfl, hquiet _⟩
    | unsampled => exact ⟨rfl, rfl, hquiet _⟩
    | taken r₂ work' still moved =>
      obtain ⟨entries, heq, hentries⟩ := hquiet .success
      refine ⟨?_, still.slots i hi, entries, still.log.trans heq, hentries⟩
      rw [Runtime.spend_states, still.states i hi]
      have htaker : i ∉ r.takers work := by
        intro hmem
        obtain ⟨w, hw, rfl⟩ := List.mem_map.mp hmem
        exact hi (List.mem_map_of_mem (List.mem_of_mem_filter hw))
      show (r.states i).map _ = r.states i
      simp only [htaker, if_false, Option.map_id']
  induction h with
  | done => exact ⟨rfl, rfl, .refl i _⟩
  | stopped _ _ _ _ one => exact hround _ _ _ _ _ hi one
  | @next k r r' work work' result _ _ _ one _ ih =>
    obtain ⟨hstates, hslots, hquiet⟩ := hround _ _ _ _ _ hi one
    have hslots' : work'.map DecodeWork.slot = work.map DecodeWork.slot := by
      cases one with
      | taken r₂ _ still moved => exact moved_slots moved
    obtain ⟨hstates', hsame', hquiet'⟩ := ih (hslots' ▸ hi)
    exact ⟨hstates'.trans hstates, hsame'.trans hslots, hquiet.trans hquiet'⟩

/-! ### Steps of one sequence -/

section Steps

variable (config : Setup) (model : LlamaModel F) (r : Runtime config.maxSequences)
  (input : Input F config.maxSequences)

/-- The work of a prefill command that fits into one call. -/
def Runtime.prefillWorkOf : List (PrefillWork F config.maxSequences) :=
  match input.line with
  | none => []
  | some command =>
    match commandType command, (do
        let steps ← stepsOf command config.maxSequences "prefill_steps_invalid"
        prefillWork config r [] steps) with
    | .ok type, .ok work => if type = py "prefill_batch" ∧ Fits config work then work else []
    | _, _ => []

/-- The sequences of a prefill command whose steps come after a refused commit. -/
def Runtime.cutSlots : List (Fin config.maxSequences) :=
  let work := r.prefillWorkOf config input
  (Runtime.cutOff input.out.prefill.elapsed input.out.prefill.captures
    (r.prefillDecoded work .success) work).map PrefillWork.slot

/-- The steps of a prefill command that are followed. -/
def Runtime.followedSteps :
    List (Runtime config.maxSequences × PrefillWork F config.maxSequences) :=
  let work := r.prefillWorkOf config input
  Runtime.followed input.out.prefill.elapsed input.out.prefill.captures
    (r.prefillDecoded work .success) work

/-- A step of a line of the input leaves the snapshot of a session prefix in the cache. -/
def StoresSnapshot (i : Fin config.maxSequences) (s : SequenceState config.maxSequences)
    (generation : ℕ) : Prop :=
  ∃ found ∈ r.followedSteps config input, found.2.slot = i ∧
    s.SnapshotIn (found.1.prefillOne input.out.prefill.elapsed input.out.prefill.captures
      found.2).1.cache generation

variable {config model r input}

theorem prefillWorkOf_eq {command : Value F} (line : input.line = some command)
    (type : commandType command = .ok (py "prefill_batch")) {steps : List (Value F)}
    {work : List (PrefillWork F config.maxSequences)}
    (hasked : PrefillAsked config r command steps work) (hfits : Fits config work) :
    r.prefillWorkOf config input = work := by
  have hwork : (do
      let steps ← stepsOf command config.maxSequences "prefill_steps_invalid"
      prefillWork config r [] steps) = Except.ok work := by
    rw [hasked.asked]
    exact hasked.found
  unfold Runtime.prefillWorkOf
  rw [line]
  dsimp only
  rw [type, hwork]
  exact if_pos ⟨rfl, hfits⟩

variable (config model r input)

/-- One line of the input, as a slot sees it. -/
inductive SlotStep (r' : Runtime config.maxSequences) (i : Fin config.maxSequences) : Prop
  | free (gone : r'.states i = none)
  | opened (vacant : r.states i = none) (q : OpenRequest) (cached : ℕ)
      (s : SequenceState config.maxSequences) (memory : Fin config.maxSequences → List Cell)
      (begins : OpenedAs config r i q cached s memory) (state : r'.states i = some s)
      (slot : r'.engine.slots i = openSlot (r.engine.slots i) q cached)
      (log : sinceOpened i r'.log = [])
  | rested (s : SequenceState config.maxSequences) (state : r.states i = some s)
      (state' : r'.states i = some s)
      (tokens : (r'.engine.slots i).decodedTokens = (r.engine.slots i).decodedTokens)
      (quiet : r.QuietFor i r')
  | undecoded (s : SequenceState config.maxSequences) (state : r.states i = some s)
      (state' : r'.states i = some s) (slot : r'.engine.slots i = r.engine.slots i)
      (failure : input.out.prefill.decoded ≠ .success) (refused : RefusedSince i r'.log)
  | prefilled (w : PrefillWork F config.maxSequences) (s : SequenceState config.maxSequences)
      (slot : w.slot = i) (work : w.Valid r s) (completes : Bool)
      (entries : List (LogEntry config.maxSequences)) (opens : ∀ e ∈ entries, ¬ e.Opens i)
      (log : r'.log = r.log ++ entries) (cells : cellsOf i entries = s.promptCells w.physicalTokens)
      (text : textOf i entries = [])
      (result : StepResult input.out.prefill.elapsed r r' w s completes (commitsFor i entries))
      (refused : completes = false → RefusedSince i r'.log)
      (cut : (r'.engine.slots i = r.engine.slots i) → i ∈ r.cutSlots config input)
      (snapshot : s.committedSessionGeneration = none → ∀ s', r'.states i = some s' →
        ∀ generation, s'.committedSessionGeneration = some generation →
        StoresSnapshot config r input i s generation)
  | decoded (work : List (DecodeWork F config.maxSequences)) (w : DecodeWork F config.maxSequences)
      (mem : w ∈ work) (slot : w.slot = i) (begins : ∀ w ∈ work, w.Begins config r)
      (result : Runtime config.maxSequences × Except Fault (List (DecodeWork F config.maxSequences)))
      (run : DecodeRun config model input.out.rounds 0 r work result)
      (states : r'.states = result.1.states) (slots : r'.engine = result.1.engine)
      (entries : List (LogEntry config.maxSequences)) (log : r'.log = result.1.log ++ entries)
      (rest : (∃ work', result.2 = .ok work' ∧ entries = sentEntries work') ∨
        result.2.isOk = false ∧ ∃ slots, i ∈ slots ∧ entries = [.refused slots])

end Steps

section Slots

variable {config : Setup} {model : LlamaModel F} {r : Runtime config.maxSequences}
  {input : Input F config.maxSequences} {i : Fin config.maxSequences}

/-- A slot that a command leaves as it is. -/
theorem SlotStep.of_same {r' : Runtime config.maxSequences} (hstates : r'.states i = r.states i)
    (htokens : (r'.engine.slots i).decodedTokens = (r.engine.slots i).decodedTokens)
    (hquiet : r.QuietFor i r') : SlotStep config model r input r' i := by
  cases hs : r.states i with
  | none => exact .free (hstates.trans hs)
  | some s => exact .rested s hs (hstates.trans hs) htokens hquiet

theorem slotStep_opening {command : Value F}
    {result : Runtime config.maxSequences × Reply config.maxSequences F} (h : r.Valid config)
    (hopening : Opening config model r command result) : SlotStep config model r input result.1 i := by
  rcases hopening with ⟨cache, -, -, refusal⟩ |
    ⟨j, free, generation, cache, -, -, memory, -, refusal⟩ |
    ⟨j, free, q, request, fits, cached, s, memory, begins, cache, -, kept⟩
  · exact .of_same rfl rfl (.refl i _)
  · refine .of_same rfl ?_ (.refl i _)
    show (Function.update r.engine.slots j (Slot.empty generation) i).decodedTokens = _
    by_cases hi : i = j
    · have hempty := (h.engine.slot j).released ((h.released_iff j).mpr free)
      rw [hi, Function.update_self, hempty]
      rfl
    · rw [Function.update_of_ne hi]
  · have hlog : ∀ k, sinceOpened k (r.log ++ [.opened j])
        = if j = k then [] else sinceOpened k r.log ++ [.opened j] := fun k => sinceOpened_concat k _ _
    by_cases hi : i = j
    · subst hi
      refine .opened free q cached s memory begins (Function.update_self _ _ _)
        (Function.update_self _ _ _) ?_
      exact (hlog i).trans (if_pos rfl)
    · refine .of_same (Function.update_of_ne hi _ _) ?_ ⟨[.opened j], rfl, fun e he => ?_⟩
      · exact congrArg Slot.decodedTokens (Function.update_of_ne hi _ _)
      · obtain rfl := List.mem_singleton.mp he
        exact ⟨fun heq => hi heq.symm, rfl, rfl, rfl⟩

/-- What the log gains when the batch of the steps is decoded. -/
theorem prefillDecoded_log (r : Runtime n) (work : List (PrefillWork F n)) (answer : DecodeAnswer) :
    ∃ entries, (r.prefillDecoded work answer).log = r.log ++ entries ∧
      (∀ e ∈ entries, ∀ i, ¬ e.Opens i) ∧ ∀ i, cellsOf i entries = cellsFor i (r.prefillCells work) ∧
        commitsFor i entries = [] ∧ textOf i entries = [] := by
  unfold Runtime.prefillDecoded
  split_ifs with hempty
  · refine ⟨[], (List.append_nil _).symm, by simp, fun i => ?_⟩
    rw [hempty]
    exact ⟨rfl, rfl, rfl⟩
  · refine ⟨[.decoded r.held (r.prefillCells work)], rfl, fun e he i => ?_, fun i => ?_⟩
    · obtain rfl := List.mem_singleton.mp he
      exact id
    · exact ⟨List.append_nil _, rfl, rfl⟩

/-- The entries that the steps of a batch log. -/
theorem PrefillSpec.entries {elapsed : ℚ} {r r' : Runtime n} {work : List (PrefillWork F n)}
    {completes : Bool} {entries : List (LogEntry n)}
    (h : PrefillSpec elapsed r r' work completes entries) (i : Fin n) :
    (∀ e ∈ entries, ¬ e.Opens i) ∧ cellsOf i entries = [] ∧ textOf i entries = [] := by
  refine ⟨fun e he => ?_, List.flatMap_eq_nil_iff.mpr fun e he => ?_,
    List.flatMap_eq_nil_iff.mpr fun e he => ?_⟩
  all_goals obtain ⟨j, t, g, rfl⟩ := h.committed e he
  · exact id
  · rfl
  · rfl

/-- A refused command is logged with the sequences that its steps name. -/
theorem refusedSince_record (r : Runtime n) {slots : List (Fin n)} {i : Fin n} (hi : i ∈ slots) :
    RefusedSince i (r.record (.refused slots)).log :=
  not_not.mp (not_sound_record hi)

theorem slotStep_followed {command : Value F} (line : input.line = some command)
    (type : commandType command = .ok (py "prefill_batch")) {steps : List (Value F)}
    {work : List (PrefillWork F config.maxSequences)} (h : r.Valid config)
    (hasked : PrefillAsked config r command steps work) (hfits : Fits config work)
    (i : Fin config.maxSequences) :
    SlotStep config model r input
      (refusedEntry (r.stepSlots config command)
        (prefillReply (Runtime.prefillAll input.out.prefill.elapsed input.out.prefill.captures
          (r.prefillDecoded work .success) work))).1 i := by
  have hprefills := hasked.prefills h
  obtain ⟨hengine, hstates, hcache, hsamplers⟩ := r.prefillDecoded_tables work .success
  have hvalid := h.tables hengine hstates hcache hsamplers
  have hwork := hprefills.tables hengine hstates
  have hrun := prefillRun input.out.prefill.elapsed input.out.prefill.captures work hwork hvalid
  revert hrun
  generalize hresult : Runtime.prefillAll input.out.prefill.elapsed input.out.prefill.captures
    (r.prefillDecoded work .success) work = result
  intro hrun
  obtain ⟨entries, hspec⟩ := hrun.spec
  obtain ⟨first, hfirst, hopens, hdecoded⟩ := prefillDecoded_log r work .success
  obtain ⟨hothers, hcells, htext⟩ := hspec.entries i
  -- a refused command is logged last
  have hlast : ∃ last, (refusedEntry (r.stepSlots config command) (prefillReply result)).1.log
      = r.log ++ (first ++ entries ++ last) ∧ (∀ e ∈ last, e.Quiet i) ∧
      (result.2.isOk = false → i ∈ r.stepSlots config command →
        RefusedSince i (refusedEntry (r.stepSlots config command) (prefillReply result)).1.log) := by
    have hlog := hspec.log
    rw [hfirst] at hlog
    obtain ⟨r', outcome⟩ := result
    cases outcome with
    | ok outcomes =>
      refine ⟨[], ?_, by simp, fun hfail => absurd hfail (by simp [Except.isOk, Except.toBool])⟩
      rw [List.append_nil, ← List.append_assoc]
      exact hlog
    | error fault =>
      refine ⟨[.refused (r.stepSlots config command)], ?_, fun e he => ?_, fun _ hi => ?_⟩
      · rw [← List.append_assoc, ← List.append_assoc, ← hlog]
        rfl
      · obtain rfl := List.mem_singleton.mp he
        exact quiet_refused i _
      · exact refusedSince_record r' hi
  obtain ⟨last, hlog, hquiet, hrefused⟩ := hlast
  obtain ⟨hlastCells, hlastCommits, hlastText⟩ := quiet_entries hquiet
  have htables := refusedEntry_tables (r.stepSlots config command) (prefillReply result)
  have hopens' : ∀ e ∈ first ++ entries ++ last, ¬ e.Opens i := by
    intro e he
    rcases List.mem_append.mp he with he | he
    · exact (List.mem_append.mp he).elim (fun he => hopens e he i) (hothers e)
    · exact (hquiet e he).opens
  by_cases hi : i ∈ work.map PrefillWork.slot
  · obtain ⟨w, hw, rfl⟩ := List.mem_map.mp hi
    obtain ⟨s, hvalidStep, hstep⟩ := hspec.steps w hw
    have hstate : r.states w.slot = some s := by
      rw [← hstates]
      exact hvalidStep.state
    obtain ⟨s', hs'⟩ := hprefills.valid w hw
    obtain rfl := Option.some_inj.mp (hs'.state.symm.trans hstate)
    have hown := cellsFor_prefillCells r hprefills.distinct hw
    have hstepCells : r.stepCells w = s'.promptCells w.physicalTokens := by
      unfold Runtime.stepCells
      rw [hstate]
      rfl
    have hstep' : StepResult input.out.prefill.elapsed r
        (refusedEntry (r.stepSlots config command) (prefillReply result)).1 w s' result.2.isOk
        (commitsFor w.slot entries) := by
      have hframe := hstep.frame (r := r) (by rw [hengine])
      refine hframe.tables ?_ ?_
      · rw [htables.2.1]
        rfl
      · rw [htables.1]
        rfl
    refine .prefilled w s' rfl hs' result.2.isOk (first ++ entries ++ last) hopens' hlog ?_ ?_ ?_
      (fun hfail => hrefused hfail (mem_stepSlots (stepsOf_ok hasked.asked).1 (hasked.steps_for h) hw))
      (fun hsame => ?_) fun hpending s'' hs' generation hdone => ?_
    · rw [cellsOf_append, cellsOf_append, (hdecoded w.slot).1, hcells, hlastCells, hown, hstepCells,
        List.append_nil, List.append_nil]
    · rw [textOf_append, textOf_append, (hdecoded w.slot).2.2, htext, hlastText]
      rfl
    · rw [commitsFor_append, commitsFor_append, (hdecoded w.slot).2.1, hlastCommits, List.nil_append,
        List.append_nil]
      exact hstep'
    · unfold Runtime.cutSlots
      rw [prefillWorkOf_eq line type hasked hfits]
      refine List.mem_map_of_mem (mem_cutOff hvalid hwork hw ?_)
      rw [htables.1] at hsame
      rw [hengine, hresult]
      exact hsame
    · rw [htables.2.1] at hs'
      have hleft : (Runtime.prefillAll input.out.prefill.elapsed input.out.prefill.captures
          (r.prefillDecoded work .success) work).1.states w.slot = some s'' := by
        rw [hresult]
        exact hs'
      obtain ⟨r₁, hmem, hsnapshot⟩ :=
        mem_followed hvalid hwork hw hvalidStep.state hpending hleft hdone
      unfold StoresSnapshot Runtime.followedSteps
      rw [prefillWorkOf_eq line type hasked hfits]
      exact ⟨(r₁, w), hmem, rfl, hsnapshot⟩
  · obtain ⟨hsameState, hsameSlot, hnone⟩ := hspec.others i hi
    refine .of_same ?_ ?_ ⟨first ++ entries ++ last, hlog, fun e he => ?_⟩
    · rw [htables.2.1, ← hstates]
      exact hsameState
    · rw [htables.1, ← hengine]
      exact congrArg Slot.decodedTokens hsameSlot
    · rcases List.mem_append.mp he with he' | he'
      · rcases List.mem_append.mp he' with he' | he'
        · obtain ⟨hnoCells, hnoCommits, hnoText⟩ := hdecoded i
          rw [cellsFor_prefillCells_of_notMem r hi] at hnoCells
          exact ⟨hopens' e he, List.flatMap_eq_nil_iff.mp hnoCells e he',
            List.flatMap_eq_nil_iff.mp hnoCommits e he', List.flatMap_eq_nil_iff.mp hnoText e he'⟩
        · exact ⟨hopens' e he, List.flatMap_eq_nil_iff.mp hcells e he',
            List.flatMap_eq_nil_iff.mp hnone e he', List.flatMap_eq_nil_iff.mp htext e he'⟩
      · exact hquiet e he'

theorem slotStep_prefilling {command : Value F} (line : input.line = some command)
    (type : commandType command = .ok (py "prefill_batch")) (h : r.Valid config)
    (i : Fin config.maxSequences) :
    SlotStep config model r input
      (refusedEntry (r.stepSlots config command)
        (r.prefillBatch config command input.out.prefill)).1 i := by
  rcases prefillBatch_cases r command input.out.prefill with ⟨fault, heq⟩ |
    ⟨steps, work, hasked, ⟨kept, hfailure, heq⟩ | ⟨hfits, heq⟩⟩
  · rw [heq]
    exact .of_same rfl rfl (quietFor_record i r _)
  · rw [heq]
    by_cases hi : i ∈ work.map PrefillWork.slot
    · obtain ⟨w, hw, rfl⟩ := List.mem_map.mp hi
      obtain ⟨s, hs⟩ := (hasked.prefills h).valid w hw
      refine .undecoded s hs.state hs.state rfl (by rw [hfailure]; simp) ?_
      exact refusedSince_record _ (mem_stepSlots (stepsOf_ok hasked.asked).1 (hasked.steps_for h) hw)
    · have hquiet := quietFor_decode r (cellsFor_prefillCells_of_notMem r hi) (.failure kept)
      exact .of_same rfl rfl (hquiet.trans (quietFor_record i _ _))
  · rw [heq]
    exact slotStep_followed line type h hasked hfits i

theorem slotStep_decoding {command : Value F}
    {result : Runtime config.maxSequences × Reply config.maxSequences F}
    (hbatch : DecodeBatch config model r command input.out.rounds result)
    (i : Fin config.maxSequences) :
    SlotStep config model r input (refusedEntry (r.stepSlots config command) result).1 i := by
  cases hbatch with
  | rejected fault => exact .of_same rfl rfl (quietFor_record i r _)
  | stopped steps work begins command_steps steps_for r' fault run =>
    by_cases hi : i ∈ work.map DecodeWork.slot
    · obtain ⟨w, hw, rfl⟩ := List.mem_map.mp hi
      exact .decoded work w hw rfl begins _ run rfl rfl [.refused (r.stepSlots config command)] rfl
        (.inr ⟨rfl, _, mem_stepSlots command_steps steps_for hw, rfl⟩)
    · obtain ⟨hstates, hslots, hquiet⟩ := run.others hi
      exact .of_same hstates (congrArg Slot.decodedTokens hslots)
        (hquiet.trans (quietFor_record i _ _))
  | completed steps work begins command_steps steps_for r' work' run =>
    by_cases hi : i ∈ work.map DecodeWork.slot
    · obtain ⟨w, hw, rfl⟩ := List.mem_map.mp hi
      exact .decoded work w hw rfl begins _ run rfl rfl (sentEntries work') rfl (.inl ⟨work', rfl, rfl⟩)
    · obtain ⟨hstates, hslots, hquiet⟩ := run.others hi
      refine .of_same hstates (congrArg Slot.decodedTokens hslots) (hquiet.trans ?_)
      refine ⟨sentEntries work', rfl, fun e he => ?_⟩
      obtain ⟨w', hw', rfl⟩ := List.mem_map.mp he
      refine ⟨id, rfl, rfl, if_neg fun heq => hi ?_⟩
      rw [← heq, ← run.slots]
      exact List.mem_map_of_mem hw'

theorem slotStep_releasing {command : Value F}
    {result : Runtime config.maxSequences × Reply config.maxSequences F}
    (hreleasing : Releasing config r command input.out.releasing result)
    (i : Fin config.maxSequences) : SlotStep config model r input result.1 i := by
  rcases hreleasing with ⟨fault⟩ | ⟨handle, -, j, generation, -, free, status, -⟩ |
    ⟨handle, -, j, generation, -, s, occupied, -⟩ | ⟨handle, -, j, s, named, fault⟩ |
    ⟨handle, -, j, s, named⟩
  · exact .of_same rfl rfl (.refl i _)
  · exact .of_same rfl rfl (.refl i _)
  · exact .of_same rfl rfl (.refl i _)
  · refine .of_same rfl ?_ (.refl i _)
    obtain ⟨hslot, hothers, -⟩ := r.engine.cancelledAt_slots j
    by_cases hi : i = j
    · rw [hi, hslot]
    · rw [hothers i hi]
  · by_cases hi : i = j
    · subst hi
      exact .free (Function.update_self _ _ _)
    · exact .of_same (Function.update_of_ne hi _ _)
        (congrArg Slot.decodedTokens (Function.update_of_ne hi _ _)) (.refl i _)

/-- **What one line of the input does to a slot.** -/
theorem slotStep (model : LlamaModel F) (h : r.Valid config)
    (input : Input F config.maxSequences) (i : Fin config.maxSequences) :
    SlotStep config model r input (step config model r input).1 i := by
  have hstepped := stepped model h input
  revert hstepped
  generalize step config model r input = result
  intro hstepped
  cases hstepped with
  | rejected => exact .of_same rfl rfl (.refl i _)
  | stopped => exact .of_same rfl rfl (.refl i _)
  | stats => exact .of_same rfl rfl (.refl i _)
  | cleared => exact .of_same rfl rfl (.refl i _)
  | opening command line type result handled opening => exact slotStep_opening h opening
  | prefilling command line type result handled batch =>
    rw [handled]
    exact slotStep_prefilling line type h i
  | decoding command line type result handled batch => exact slotStep_decoding batch i
  | releasing command line type result handled releasing => exact slotStep_releasing releasing i

end Slots

end Native
