/-
A prefill batch and its steps as commands of their own.

* `Alike` — two processes that differ in what a prefill batch has decoded ahead and in
  times;
* `SameOutcome` — a batch and its single steps end alike and are answered alike;
* `prefill_isolated` — they do if the batch fits and none of its commits is refused, and
  otherwise only if it is a single step.
-/
import LlamaRuntime.Native.PromptDecoding

namespace Native

open Json

variable {n : ℕ} {F : Type}

/-! ### One step in two processes -/

/-- A state but for the time that its prompt took. -/
def SequenceState.timeless (s : SequenceState n) : SequenceState n := { s with promptDecodeMs := 0 }

/-- What is stored after a step does not depend on the time it took. -/
theorem storePrefix_alike {r r' : Runtime n} {i : Fin n} {s s' : SequenceState n}
    (hs : r.states i = some s) (hs' : r'.states i = some s') (htimeless : s.timeless = s'.timeless)
    (hcache : r.cache = r'.cache) (hmemory : r.memory i = r'.memory i) (reply : CaptureReply) :
    (r.storePrefix i s reply).2 = (r'.storePrefix i s' reply).2 ∧
      (r.storePrefix i s reply).1.cache = (r'.storePrefix i s' reply).1.cache ∧
      (r.storePrefix i s reply).1.engine = r.engine ∧
      (r'.storePrefix i s' reply).1.engine = r'.engine ∧
      ((r.storePrefix i s reply).1.states i).map SequenceState.timeless
        = ((r'.storePrefix i s' reply).1.states i).map SequenceState.timeless := by
  obtain ⟨m, rfl⟩ : ∃ m, s' = { s with promptDecodeMs := m } := by
    refine ⟨s'.promptDecodeMs, ?_⟩
    have hput := congrArg (fun t : SequenceState n => { t with promptDecodeMs := s'.promptDecodeMs })
      htimeless
    exact hput.symm
  have hleft : (r.states i).map SequenceState.timeless = (r'.states i).map SequenceState.timeless := by
    rw [hs, hs']
    rfl
  unfold Runtime.storePrefix
  dsimp only
  rw [hcache, hmemory]
  by_cases hidentity : s.cacheIdentity = []
  · rw [if_pos hidentity, if_pos hidentity]
    exact ⟨rfl, hcache, rfl, rfl, hleft⟩
  rw [if_neg hidentity, if_neg hidentity]
  cases hsession : s.session with
  | none =>
    dsimp only
    split_ifs
    · exact ⟨rfl, rfl, rfl, rfl, hleft⟩
    · exact ⟨rfl, hcache, rfl, rfl, hleft⟩
  | some control =>
    dsimp only
    split_ifs
    · generalize r'.cache.storeSession s.cacheIdentity control.sessionId control.parentGeneration
        s.sessionCommitKey s.sessionPrefix (r'.memory i) reply = stored
      obtain ⟨cache, stored⟩ := stored
      cases stored with
      | none => exact ⟨rfl, rfl, rfl, rfl, hleft⟩
      | some committed =>
        refine ⟨rfl, rfl, rfl, rfl, ?_⟩
        show (Function.update r.states i _ i).map _ = (Function.update r'.states i _ i).map _
        rw [Function.update_self, Function.update_self]
        rfl
    · exact ⟨rfl, hcache, rfl, rfl, hleft⟩

/-- One step of a batch, in two processes that agree on its sequence. -/
theorem prefillOne_alike {r r' : Runtime n} {w : PrefillWork F n} {s : SequenceState n}
    (hs : r.states w.slot = some s) (hs' : r'.states w.slot = some s) (hengine : r.engine = r'.engine)
    (hcache : r.cache = r'.cache) (hmemory : r.memory w.slot = r'.memory w.slot) (elapsed elapsed' : ℚ)
    (captures : Fin n → CaptureReply) :
    (r.prefillOne elapsed captures w).2 = (r'.prefillOne elapsed' captures w).2 ∧
      (r.prefillOne elapsed captures w).1.cache = (r'.prefillOne elapsed' captures w).1.cache ∧
      (r.prefillOne elapsed captures w).1.engine = (r'.prefillOne elapsed' captures w).1.engine ∧
      ((r.prefillOne elapsed captures w).1.states w.slot).map SequenceState.timeless
        = ((r'.prefillOne elapsed' captures w).1.states w.slot).map SequenceState.timeless := by
  have hput : ∀ (r : Runtime n) (elapsed : ℚ) (engine : Engine n),
      ({ r.putState w.slot (w.next s elapsed) with engine } : Runtime n).states w.slot
        = some (w.next s elapsed) := fun r elapsed engine => Function.update_self _ _ _
  have hinternal : ∀ elapsed, (w.next s elapsed).internal = s.internal := fun _ => rfl
  unfold Runtime.prefillOne
  rw [hs, hs']
  dsimp only
  rw [hengine, hinternal, hinternal]
  split_ifs
  · refine ⟨rfl, hcache, rfl, ?_⟩
    rw [hput, hput]
    rfl
  · have halike := storePrefix_alike
      (hput r elapsed (r'.engine.advancePrefill s.internal w.logicalTokens).2)
      (hput r' elapsed' (r'.engine.advancePrefill s.internal w.logicalTokens).2)
      rfl hcache hmemory (captures w.slot)
    revert halike
    dsimp only
    generalize Runtime.storePrefix _ w.slot (w.next s elapsed) (captures w.slot) = result
    generalize Runtime.storePrefix _ w.slot (w.next s elapsed') (captures w.slot) = result'
    obtain ⟨r₁, outcome⟩ := result
    obtain ⟨r₂, outcome'⟩ := result'
    rintro ⟨heq, hcache', hengine₁, hengine₂, hstates⟩
    obtain rfl : outcome = outcome' := heq
    cases outcome with
    | error fault => exact ⟨rfl, hcache', hengine₁.trans hengine₂.symm, hstates⟩
    | ok u => exact ⟨rfl, hcache', hengine₁.trans hengine₂.symm, hstates⟩

/-! ### Commands of one step -/

section Singles

variable {config : Setup} {r r' : Runtime config.maxSequences}

/-- A step asks for the same work in a command of its own, as long as its sequence is as it was. -/
theorem prefillStep_alone (h : r.Valid config) (h' : r'.Valid config)
    {seen : List (Fin config.maxSequences)} {step : Value F}
    {w : PrefillWork F config.maxSequences} (hstep : prefillStep config r seen step = .ok w)
    (hstates : r'.states w.slot = r.states w.slot)
    (hslots : r'.engine.slots w.slot = r.engine.slots w.slot) :
    prefillStep config r' [] step = .ok w ∧ w.physicalTokens ≤ config.prefillChunkTokens := by
  obtain ⟨-, s₀, hw, -⟩ := prefillStep_ok h hstep
  unfold prefillStep at hstep
  obtain ⟨_, hexact, hstep⟩ := bind_eq_ok.mp hstep
  obtain ⟨handle, hhandle, hstep⟩ := bind_eq_ok.mp hstep
  split at hstep
  · exact absurd hstep (by simp [refuse])
  · next slot generation hparse =>
    obtain ⟨_, hseen, hstep⟩ := bind_eq_ok.mp hstep
    split at hstep
    · exact absurd hstep (by simp [refuse])
    · next i s hnamed =>
      obtain ⟨_, hlifecycle, hstep⟩ := bind_eq_ok.mp hstep
      obtain ⟨raw, hraw, hstep⟩ := bind_eq_ok.mp hstep
      obtain ⟨budget, hbudget, hstep⟩ := bind_eq_ok.mp hstep
      obtain ⟨_, hchunk, hstep⟩ := bind_eq_ok.mp hstep
      obtain rfl := Except.ok.inj hstep
      obtain ⟨generation', hparse', hs, hgeneration⟩ := Runtime.named_eq_some.mp hnamed
      obtain ⟨rfl, rfl⟩ := Prod.mk.inj (Option.some_inj.mp (hparse.symm.trans hparse'))
      have hs' : r'.states slot = some s := hstates.trans hs
      have hnamed' : r'.named config handle = some (slot, s) :=
        Runtime.named_eq_some.mpr ⟨generation, hparse, hs', hgeneration⟩
      have hlifecycle' : r'.lifecycle s = some .prefill := by
        rw [h'.lifecycle hs', hslots, ← h.lifecycle hs]
        exact check_eq_ok.mp hlifecycle
      have hlogical := hw.bounds h
      constructor
      · unfold prefillStep
        refine bind_eq_ok.mpr ⟨_, hexact, bind_eq_ok.mpr ⟨handle, hhandle, ?_⟩⟩
        rw [hparse]
        refine bind_eq_ok.mpr ⟨(), check_eq_ok.mpr (by simp), ?_⟩
        rw [hnamed']
        exact bind_eq_ok.mpr ⟨(), check_eq_ok.mpr hlifecycle', bind_eq_ok.mpr ⟨raw, hraw,
          bind_eq_ok.mpr ⟨budget, hbudget, bind_eq_ok.mpr ⟨(), hchunk, rfl⟩⟩⟩⟩
      · have hstate := hw.state
        obtain rfl := Option.some_inj.mp (hs.symm.trans hstate)
        have hle := (logicalTokens_bounds s (positiveSize_pos hbudget) hlogical.1).2.2
        have hmost := check_eq_ok.mp hchunk
        show s.physicalTokens (s.logicalTokens budget) ≤ config.prefillChunkTokens
        unfold SequenceState.physicalTokens
        split_ifs
        · omega
        · omega

/-- The steps of a batch, each with the work it asks for. -/
theorem prefillWork_steps {steps : List (Value F)} {seen : List (Fin config.maxSequences)}
    {work : List (PrefillWork F config.maxSequences)}
    (hwork : prefillWork config r seen steps = .ok work) :
    List.Forall₂ (fun step w => ∃ seen, prefillStep config r seen step = .ok w) steps work := by
  induction steps generalizing seen work with
  | nil =>
    obtain rfl := Except.ok.inj hwork
    exact .nil
  | cons step rest ih =>
    unfold prefillWork at hwork
    obtain ⟨w, hstep, hwork⟩ := bind_eq_ok.mp hwork
    obtain ⟨others, hothers, hwork⟩ := bind_eq_ok.mp hwork
    obtain rfl := Except.ok.inj hwork
    exact .cons ⟨seen, hstep⟩ (ih hothers)

/-- A line with a prefill command of one step; the calls and the captures are answered as for
the batch. -/
structure SingleStep (batch single : Input F config.maxSequences) (step : Value F) : Prop where
  command : ∃ command, single.line = some command ∧
    commandType command = .ok (py "prefill_batch") ∧
    stepsOf command config.maxSequences "prefill_steps_invalid" = .ok [step]
  decoded : single.out.prefill.decoded = .success
  captures : single.out.prefill.captures = batch.out.prefill.captures

theorem step_prefill (model : LlamaModel F) {input : Input F config.maxSequences} {command : Value F}
    (line : input.line = some command) (type : commandType command = .ok (py "prefill_batch")) :
    step config model r input = refusedEntry (r.stepSlots config command)
      (r.prefillBatch config command input.out.prefill) := by
  unfold step
  rw [line]
  dsimp only
  rw [type]
  rfl

/-- The outcomes of the steps of a command; a refused command has none. -/
def Reply.stepOutcomes (steps : ℕ) : Reply n F → List (Option (PrefillOutcome F))
  | .prefillCompleted outcomes => outcomes.map some
  | _ => List.replicate steps none

/-- What a single step of a command does. -/
structure SingleDone (r r' : Runtime n) (elapsed : ℚ) (captures : Fin n → CaptureReply)
    (w : PrefillWork F n) (reply : Reply n F) : Prop where
  engine : r'.engine = ((r.prefillDecoded [w] .success).prefillOne elapsed captures w).1.engine
  states : r'.states = ((r.prefillDecoded [w] .success).prefillOne elapsed captures w).1.states
  cache : r'.cache = ((r.prefillDecoded [w] .success).prefillOne elapsed captures w).1.cache
  memory : r'.memory = ((r.prefillDecoded [w] .success).prefillOne elapsed captures w).1.memory
  outcomes : reply.stepOutcomes 1
    = [((r.prefillDecoded [w] .success).prefillOne elapsed captures w).2.toOption]

theorem singleDone (model : LlamaModel F) (chunk : config.prefillChunkTokens ≤ config.tickTokenBudget)
    (tick : config.tickTokenBudget ≤ config.nBatch) {batch single : Input F config.maxSequences}
    {step : Value F} {w : PrefillWork F config.maxSequences} (hsingle : SingleStep batch single step)
    (hstep : prefillStep config r [] step = .ok w)
    (hphysical : w.physicalTokens ≤ config.prefillChunkTokens) :
    SingleDone r (Native.step config model r single).1 single.out.prefill.elapsed
      batch.out.prefill.captures w (Native.step config model r single).2 := by
  obtain ⟨command, line, type, hsteps⟩ := hsingle.command
  have hasked : PrefillAsked config r command [step] [w] := by
    refine ⟨hsteps, bind_eq_ok.mpr ⟨w, hstep, ?_⟩⟩
    rfl
  have hfits : Fits config [w] := by
    have hsum : decodedTokens [w] = w.physicalTokens := by simp [decodedTokens]
    unfold Fits
    omega
  rw [step_prefill model line type, hasked.batch_eq, runPrefill_fits r hfits hsingle.decoded,
    hsingle.captures]
  rw [Runtime.prefillAll]
  generalize hone : (r.prefillDecoded [w] .success).prefillOne single.out.prefill.elapsed
    batch.out.prefill.captures w = result
  obtain ⟨r', outcome⟩ := result
  constructor
  all_goals
    rw [hone]
    cases outcome with
    | error fault => rfl
    | ok outcome => rfl

end Singles

/-! ### The batch and its single steps -/

/-- The replies to some lines of the input, and the process after them. -/
def stepAll (config : Setup) (model : LlamaModel F) : Runtime config.maxSequences →
    List (Input F config.maxSequences) →
      Runtime config.maxSequences × List (Reply config.maxSequences F)
  | r, [] => (r, [])
  | r, input :: rest =>
    ((stepAll config model (step config model r input).1 rest).1,
      (step config model r input).2 :: (stepAll config model (step config model r input).1 rest).2)

/-- A batch and its single steps end alike, but for times, and are answered alike. -/
structure SameOutcome (config : Setup) (model : LlamaModel F) (r : Runtime config.maxSequences)
    (batch : Input F config.maxSequences) (singles : List (Input F config.maxSequences)) : Prop where
  states : ∀ i, ((step config model r batch).1.states i).map SequenceState.timeless
    = ((stepAll config model r singles).1.states i).map SequenceState.timeless
  slots : ∀ i, (step config model r batch).1.engine.slots i
    = (stepAll config model r singles).1.engine.slots i
  outcomes : (step config model r batch).2.stepOutcomes singles.length
    = (stepAll config model r singles).2.flatMap (Reply.stepOutcomes 1)

/-- A process that decoded the tokens of some steps ahead, and one that did not. -/
structure Alike (rb rs : Runtime n) (rest : List (PrefillWork F n)) : Prop where
  engine : rb.engine = rs.engine
  cache : rb.cache = rs.cache
  states : ∀ i, (rb.states i).map SequenceState.timeless = (rs.states i).map SequenceState.timeless
  ahead : ∀ w ∈ rest, rb.states w.slot = rs.states w.slot
  memory : ∀ i, rb.memory i = rs.memory i ++ cellsFor i (rs.prefillCells rest)

theorem prefillCells_congr {r r' : Runtime n} {work : List (PrefillWork F n)}
    (h : ∀ w ∈ work, r.states w.slot = r'.states w.slot) :
    r.prefillCells work = r'.prefillCells work := by
  induction work with
  | nil => rfl
  | cons w rest ih =>
    have hone : r.stepCells w = r'.stepCells w := by
      unfold Runtime.stepCells
      rw [h w List.mem_cons_self]
    rw [prefillCells_cons, prefillCells_cons, hone, ih fun x hx => h x (List.mem_cons_of_mem _ hx)]

/-- The process with the whole batch decoded, and the one before. -/
theorem alike_decoded (r : Runtime n) (work : List (PrefillWork F n)) :
    Alike (r.prefillDecoded work .success) r work := by
  obtain ⟨hengine, hstates, hcache, -⟩ := r.prefillDecoded_tables work .success
  exact ⟨hengine, hcache, fun i => by rw [hstates], fun w _ => by rw [hstates],
    fun i => prefillDecoded_memory r work i⟩

section Isolation

variable {config : Setup} {r : Runtime config.maxSequences}
  {batch : Input F config.maxSequences}

/-- What a command of one step leaves alone, and how its slot counts. -/
theorem SingleDone.counted {r r' : Runtime n} {elapsed : ℚ} {captures : Fin n → CaptureReply}
    {w : PrefillWork F n} {reply : Reply n F} (h : SingleDone r r' elapsed captures w reply)
    (hvalid : r.Valid config) {s : SequenceState n} (hw : w.Valid r s) :
    (∀ j ≠ w.slot, r'.states j = r.states j) ∧
      (∀ j ≠ w.slot, r'.engine.slots j = r.engine.slots j) ∧
      r'.engine.slots w.slot = prefilledSlot (r.engine.slots w.slot) w.logicalTokens ∧
      r'.memory = (r.prefillDecoded [w] .success).memory := by
  obtain ⟨hengine, hstates, hcache, hsamplers⟩ := r.prefillDecoded_tables [w] .success
  have hvalid' := hvalid.tables hengine hstates hcache hsamplers
  have hw' : w.Valid (r.prefillDecoded [w] .success) s :=
    ⟨hstates ▸ hw.state, hengine ▸ hw.prefilling, hw.budget, hw.physical⟩
  have hone := prefilling hw' hvalid' elapsed captures
  have hengine' := h.engine
  have hstates' := h.states
  have hmemory' := h.memory
  revert hone hengine' hstates' hmemory'
  generalize (r.prefillDecoded [w] .success).prefillOne elapsed captures w = result
  intro hone hengine' hstates' hmemory'
  obtain ⟨r₁, outcome⟩ := result
  have hcounted := hone.counted
  refine ⟨fun j hj => ?_, fun j hj => ?_, ?_, hmemory'.trans hcounted.frame.memory⟩
  · rw [hstates', ← hstates]
    exact hcounted.frame.states j hj
  · rw [hengine', ← hengine]
    exact hcounted.frame.slots j hj
  · rw [hengine', ← hengine]
    exact hcounted.slot

/-- One step in the batch, and as a command of its own. -/
theorem Alike.next {rb rs rs' : Runtime config.maxSequences} {w : PrefillWork F config.maxSequences}
    {rest : List (PrefillWork F config.maxSequences)} {elapsed' : ℚ}
    {captures : Fin config.maxSequences → CaptureReply} {reply : Reply config.maxSequences F}
    (h : Alike rb rs (w :: rest)) (hb : rb.Valid config) (hs : rs.Valid config)
    (hwork : rs.Prefills (w :: rest)) (hdone : SingleDone rs rs' elapsed' captures w reply)
    (elapsed : ℚ) :
    Alike (rb.prefillOne elapsed captures w).1 rs' rest ∧
      reply.stepOutcomes 1 = [(rb.prefillOne elapsed captures w).2.toOption] := by
  obtain ⟨s, hw⟩ := hwork.valid w List.mem_cons_self
  have hdistinct := (List.nodup_cons.mp (List.map_cons ▸ hwork.distinct)).1
  have hfresh : ∀ x ∈ rest, x.slot ≠ w.slot := fun x hx heq =>
    hdistinct (heq ▸ List.mem_map_of_mem hx)
  obtain ⟨hstates, hslots, hslot, hmemory⟩ := hdone.counted hs hw
  obtain ⟨hengine₁, hstates₁, hcache₁, -⟩ := rs.prefillDecoded_tables [w] .success
  have hnone : rs.prefillCells ([] : List (PrefillWork F config.maxSequences)) = [] := rfl
  have hstate : rb.states w.slot = some s := (h.ahead w List.mem_cons_self).trans hw.state
  have hown : rb.memory w.slot = (rs.prefillDecoded [w] .success).memory w.slot := by
    rw [h.memory, prefillDecoded_memory, prefillCells_cons, prefillCells_cons, cellsFor_append,
      cellsFor_append, cellsFor_prefillCells_of_notMem rs hdistinct, hnone, cellsFor_nil]
  obtain ⟨houtcome, hcache, hengine, hsame⟩ := prefillOne_alike hstate (hstates₁ ▸ hw.state)
    (h.engine.trans hengine₁.symm) (h.cache.trans hcache₁.symm) hown elapsed elapsed' captures
  have hwb : w.Valid rb s := ⟨hstate, h.engine ▸ hw.prefilling, hw.budget, hw.physical⟩
  have hframe : rb.Frame w.slot (rb.prefillOne elapsed captures w).1 := by
    have hone := prefilling hwb hb elapsed captures
    revert hone
    generalize rb.prefillOne elapsed captures w = result
    intro hone
    obtain ⟨r₁, outcome⟩ := result
    exact hone.counted.frame
  refine ⟨⟨hengine.trans hdone.engine.symm, hcache.trans hdone.cache.symm, fun i => ?_, fun x hx => ?_,
    fun i => ?_⟩, by rw [hdone.outcomes, houtcome]⟩
  · by_cases hi : i = w.slot
    · rw [hi, hsame, hdone.states]
    · rw [hframe.states i hi, hstates i hi]
      exact h.states i
  · rw [hframe.states _ (hfresh x hx), hstates _ (hfresh x hx)]
    exact h.ahead x (List.mem_cons_of_mem _ hx)
  · have hcells : rs'.prefillCells rest = rs.prefillCells rest :=
      prefillCells_congr fun x hx => hstates _ (hfresh x hx)
    rw [hframe.memory, h.memory, hmemory, prefillDecoded_memory, hcells, prefillCells_cons,
      prefillCells_cons, cellsFor_append, cellsFor_append, List.append_assoc, hnone, cellsFor_nil,
      List.append_nil]

/-- The single steps of a batch, with the work of each. -/
inductive Singles (config : Setup) (r : Runtime config.maxSequences)
    (batch : Input F config.maxSequences) : List (PrefillWork F config.maxSequences) →
      List (Input F config.maxSequences) → Prop
  | nil : Singles config r batch [] []
  | cons {w : PrefillWork F config.maxSequences} {rest : List (PrefillWork F config.maxSequences)}
      {single : Input F config.maxSequences} {others : List (Input F config.maxSequences)}
      (step : Value F) (seen : List (Fin config.maxSequences))
      (single_step : SingleStep batch single step) (asked : prefillStep config r seen step = .ok w)
      (later : Singles config r batch rest others) :
      Singles config r batch (w :: rest) (single :: others)

theorem singles_of {steps : List (Value F)} {work : List (PrefillWork F config.maxSequences)}
    {singles : List (Input F config.maxSequences)}
    (hwork : List.Forall₂ (fun step w => ∃ seen, prefillStep config r seen step = .ok w) steps work)
    (hsingles : List.Forall₂ (SingleStep batch) singles steps) : Singles config r batch work singles := by
  induction hwork generalizing singles with
  | nil =>
    cases hsingles
    exact .nil
  | cons hone _ ih =>
    obtain ⟨seen, hstep⟩ := hone
    cases hsingles with
    | cons hsingle hothers => exact .cons _ seen hsingle hstep (ih hothers)

/-- The sequences of some work are as they were. -/
def Untaken (r rs : Runtime n) (work : List (PrefillWork F n)) : Prop :=
  ∀ w ∈ work, rs.states w.slot = r.states w.slot ∧ rs.engine.slots w.slot = r.engine.slots w.slot

theorem Untaken.prefills {r rs : Runtime n} {work : List (PrefillWork F n)} (h : Untaken r rs work)
    (hwork : r.Prefills work) : rs.Prefills work := by
  refine ⟨hwork.distinct, fun w hw => ?_⟩
  obtain ⟨s, hs⟩ := hwork.valid w hw
  obtain ⟨hstates, hslots⟩ := h w hw
  exact ⟨s, hstates.trans hs.state, by rw [hslots]; exact hs.prefilling, hs.budget, hs.physical⟩

/-- After its first single step, the rest of a batch is as it was. -/
theorem Untaken.next {rs rs' : Runtime config.maxSequences} {w : PrefillWork F config.maxSequences}
    {rest : List (PrefillWork F config.maxSequences)} {elapsed : ℚ}
    {captures : Fin config.maxSequences → CaptureReply} {reply : Reply config.maxSequences F}
    (h : Untaken r rs (w :: rest)) (hs : rs.Valid config) (hwork : rs.Prefills (w :: rest))
    (hdone : SingleDone rs rs' elapsed captures w reply) : Untaken r rs' rest := by
  obtain ⟨s, hw⟩ := hwork.valid w List.mem_cons_self
  have hdistinct := (List.nodup_cons.mp (List.map_cons ▸ hwork.distinct)).1
  obtain ⟨hstates, hslots, -⟩ := hdone.counted hs hw
  intro x hx
  have hne : x.slot ≠ w.slot := fun heq => hdistinct (heq ▸ List.mem_map_of_mem hx)
  obtain ⟨hstates', hslots'⟩ := h x (List.mem_cons_of_mem _ hx)
  exact ⟨(hstates _ hne).trans hstates', (hslots _ hne).trans hslots'⟩

section Loaded

variable (chunk : config.prefillChunkTokens ≤ config.tickTokenBudget)
  (tick : config.tickTokenBudget ≤ config.nBatch)
include chunk tick

theorem Singles.first (model : LlamaModel F) {rs : Runtime config.maxSequences}
    {w : PrefillWork F config.maxSequences} {rest : List (PrefillWork F config.maxSequences)}
    {single : Input F config.maxSequences} {step : Value F} {seen : List (Fin config.maxSequences)}
    (h : r.Valid config) (hs : rs.Valid config) (huntaken : Untaken r rs (w :: rest))
    (hsingle : SingleStep batch single step) (hstep : prefillStep config r seen step = .ok w) :
    SingleDone rs (Native.step config model rs single).1 single.out.prefill.elapsed
      batch.out.prefill.captures w (Native.step config model rs single).2 := by
  obtain ⟨hstates, hslots⟩ := huntaken w List.mem_cons_self
  obtain ⟨halone, hphysical⟩ := prefillStep_alone h hs hstep hstates hslots
  exact singleDone model chunk tick hsingle halone hphysical

/-- Every single step advances its slot, and only that. -/
theorem singles_advance (model : LlamaModel F) (h : r.Valid config)
    {work : List (PrefillWork F config.maxSequences)} {singles : List (Input F config.maxSequences)}
    (hsingles : Singles config r batch work singles) (hwork : r.Prefills work)
    {rs : Runtime config.maxSequences} (hs : rs.Valid config) (huntaken : Untaken r rs work) :
    (∀ i ∉ work.map PrefillWork.slot,
        (stepAll config model rs singles).1.engine.slots i = rs.engine.slots i) ∧
      ∀ w ∈ work, (stepAll config model rs singles).1.engine.slots w.slot
        = prefilledSlot (r.engine.slots w.slot) w.logicalTokens := by
  induction hsingles generalizing rs with
  | nil => exact ⟨fun _ _ => rfl, fun w hw => absurd hw List.not_mem_nil⟩
  | @cons w rest single others step seen hsingle hstep _ ih =>
    have hwork' := huntaken.prefills hwork
    obtain ⟨s, hw⟩ := hwork'.valid w List.mem_cons_self
    have hdistinct := List.nodup_cons.mp (List.map_cons ▸ hwork.distinct)
    have hdone := Singles.first chunk tick model h hs huntaken hsingle hstep
    obtain ⟨-, hslots, hslot, -⟩ := hdone.counted hs hw
    have hrest : r.Prefills rest :=
      ⟨hdistinct.2, fun x hx => hwork.valid x (List.mem_cons_of_mem _ hx)⟩
    obtain ⟨hothers, hadvanced⟩ :=
      ih hrest (hs.step model single) (huntaken.next hs hwork' hdone)
    unfold stepAll
    refine ⟨fun i hi => ?_, fun x hx => ?_⟩
    · rw [List.map_cons, List.mem_cons, not_or] at hi
      exact (hothers i hi.2).trans (hslots i hi.1)
    · rcases List.mem_cons.mp hx with rfl | hx
      · have hsame := (huntaken x List.mem_cons_self).2
        exact (hothers _ hdistinct.1).trans (hslot.trans (by rw [hsame]))
      · exact hadvanced x hx

/-- As long as no commit is refused, the batch and its single steps go together. -/
theorem singles_follow (model : LlamaModel F) (h : r.Valid config)
    {work : List (PrefillWork F config.maxSequences)} {singles : List (Input F config.maxSequences)}
    (hsingles : Singles config r batch work singles) (hwork : r.Prefills work) {elapsed : ℚ}
    {rb rs : Runtime config.maxSequences} (hb : rb.Valid config) (hs : rs.Valid config)
    (huntaken : Untaken r rs work) (halike : Alike rb rs work)
    (hrefused : ∀ found ∈ Runtime.followed elapsed batch.out.prefill.captures rb work,
      ¬ found.1.CommitRefused batch.out.prefill.captures found.2) :
    ∃ rb' outcomes, Runtime.prefillAll elapsed batch.out.prefill.captures rb work
        = (rb', .ok outcomes) ∧
      Alike rb' (stepAll config model rs singles).1 ([] : List (PrefillWork F config.maxSequences)) ∧
      (stepAll config model rs singles).2.flatMap (Reply.stepOutcomes 1) = outcomes.map some := by
  induction hsingles generalizing rb rs with
  | nil => exact ⟨rb, [], rfl, halike, rfl⟩
  | @cons w rest single others step seen hsingle hstep _ ih =>
    have hwork' := huntaken.prefills hwork
    obtain ⟨s, hw⟩ := hwork'.valid w List.mem_cons_self
    have hdistinct := List.nodup_cons.mp (List.map_cons ▸ hwork.distinct)
    have hdone := Singles.first chunk tick model h hs huntaken hsingle hstep
    obtain ⟨hnext, hreply⟩ := halike.next hb hs hwork' hdone elapsed
    have hwb : w.Valid rb s :=
      ⟨(halike.ahead w List.mem_cons_self).trans hw.state, halike.engine ▸ hw.prefilling, hw.budget,
        hw.physical⟩
    have hone := prefilling hwb hb elapsed batch.out.prefill.captures
    have hok := commitRefused_iff hwb hb elapsed batch.out.prefill.captures
    unfold Runtime.followed at hrefused
    have hfirst := hrefused _ List.mem_cons_self
    rw [if_neg hfirst] at hrefused
    rcases prefillAll_cons elapsed batch.out.prefill.captures rb w rest with
      ⟨r', fault, hfound, -⟩ | ⟨r', outcome, hfound, hall⟩
    · rw [hfound] at hok
      exact absurd (hok.mpr rfl) hfirst
    · rw [hfound] at hone hnext hreply hrefused
      have hrest : r.Prefills rest :=
        ⟨hdistinct.2, fun x hx => hwork.valid x (List.mem_cons_of_mem _ hx)⟩
      obtain ⟨rb', outcomes, hlater, hend, hanswers⟩ :=
        ih hrest (hone.valid hwb hb) (hs.step model single) (huntaken.next hs hwork' hdone) hnext
          fun found hmem => hrefused found (List.mem_cons_of_mem _ hmem)
      refine ⟨rb', outcome :: outcomes, ?_, hend, ?_⟩
      · rw [hall, hlater]
        rfl
      · rw [stepAll, List.flatMap_cons, hreply, hanswers]
        rfl

end Loaded

/-- The steps of a batch are all done exactly if no commit is refused. -/
theorem prefillAll_ok {r : Runtime n} {elapsed : ℚ} {captures : Fin n → CaptureReply}
    {work : List (PrefillWork F n)} (h : r.Valid config) (hwork : r.Prefills work)
    (hok : (Runtime.prefillAll elapsed captures r work).2.isOk = true) :
    ∀ found ∈ Runtime.followed elapsed captures r work, ¬ found.1.CommitRefused captures found.2 := by
  induction work generalizing r with
  | nil => exact fun found hmem => absurd hmem List.not_mem_nil
  | cons w rest ih =>
    obtain ⟨s, hw⟩ := hwork.valid w List.mem_cons_self
    have hone := prefilling hw h elapsed captures
    have hrefused := commitRefused_iff hw h elapsed captures
    intro found hmem
    unfold Runtime.followed at hmem
    rcases prefillAll_cons elapsed captures r w rest with ⟨r', fault, hfound, hall⟩ |
      ⟨r', outcome, hfound, hall⟩
    · rw [hall] at hok
      exact absurd hok (by simp [Except.isOk, Except.toBool])
    · rw [hfound] at hone hrefused hmem
      have hfirst : ¬ r.CommitRefused captures w := fun hr =>
        absurd (hrefused.mp hr) (by simp [Except.isOk, Except.toBool])
      rw [if_neg hfirst] at hmem
      rcases List.mem_cons.mp hmem with rfl | hmem
      · exact hfirst
      · refine ih (hone.valid hw h) (hwork.tail hone.counted.frame) ?_ found hmem
        rw [hall] at hok
        revert hok
        generalize Runtime.prefillAll elapsed captures r' rest = result
        obtain ⟨r'', outcomes⟩ := result
        cases outcomes with
        | ok outcomes => exact fun _ => rfl
        | error fault => exact id

end Isolation

/-- A command of one step, done at another time. -/
theorem SingleDone.same {config : Setup} {r r₁ r₂ : Runtime config.maxSequences} {elapsed elapsed' : ℚ}
    {captures : Fin config.maxSequences → CaptureReply} {w : PrefillWork F config.maxSequences}
    {reply reply' : Reply config.maxSequences F} (h : SingleDone r r₁ elapsed captures w reply)
    (h' : SingleDone r r₂ elapsed' captures w reply') (hvalid : r.Valid config)
    {s : SequenceState config.maxSequences} (hw : w.Valid r s) :
    (∀ i, (r₁.states i).map SequenceState.timeless = (r₂.states i).map SequenceState.timeless) ∧
      (∀ i, r₁.engine.slots i = r₂.engine.slots i) ∧ reply.stepOutcomes 1 = reply'.stepOutcomes 1 := by
  obtain ⟨hengine, hstates, hcache, -⟩ := r.prefillDecoded_tables [w] .success
  have hstate : (r.prefillDecoded [w] .success).states w.slot = some s := hstates ▸ hw.state
  obtain ⟨houtcome, -, -, hsame⟩ :=
    prefillOne_alike hstate hstate rfl rfl rfl elapsed elapsed' captures
  obtain ⟨hstates₁, hslots₁, hslot₁, -⟩ := h.counted hvalid hw
  obtain ⟨hstates₂, hslots₂, hslot₂, -⟩ := h'.counted hvalid hw
  refine ⟨fun i => ?_, fun i => ?_, ?_⟩
  · by_cases hi : i = w.slot
    · rw [hi, h.states, h'.states]
      exact hsame
    · rw [hstates₁ i hi, hstates₂ i hi]
  · by_cases hi : i = w.slot
    · rw [hi, hslot₁, hslot₂]
    · rw [hslots₁ i hi, hslots₂ i hi]
  · rw [h.outcomes, h'.outcomes, houtcome]

/-- The batch of a command: it names distinct sequences that are being prefilled, with valid
budgets, and is decoded. -/
structure BatchOf (config : Setup) (r : Runtime config.maxSequences)
    (batch : Input F config.maxSequences) (steps : List (Value F))
    (work : List (PrefillWork F config.maxSequences)) : Prop where
  command : ∃ command, batch.line = some command ∧ commandType command = .ok (py "prefill_batch") ∧
    stepsOf command config.maxSequences "prefill_steps_invalid" = .ok steps
  work : prefillWork config r [] steps = .ok work
  decoded : batch.out.prefill.decoded = .success

/-- The commit of a step of a batch is refused. -/
def RefusesCommit (r : Runtime n) (out : PrefillReply n) (work : List (PrefillWork F n)) : Prop :=
  ∃ found ∈ Runtime.followed out.elapsed out.captures (r.prefillDecoded work .success) work,
    found.1.CommitRefused out.captures found.2

instance (r : Runtime n) (out : PrefillReply n) (work : List (PrefillWork F n)) :
    Decidable (RefusesCommit r out work) :=
  inferInstanceAs (Decidable (∃ found ∈ _, _))

/-- **When a batch is its steps one after the other.**  A batch of prefill steps leaves every sequence
and answers every step as commands of the single steps do, if and only if it is a single step, or all
its tokens fit into one call and no step's commit is refused. -/
theorem prefill_isolated (config : Setup)
    (chunk : config.prefillChunkTokens ≤ config.tickTokenBudget)
    (tick : config.tickTokenBudget ≤ config.nBatch) (model : LlamaModel F)
    (inputs : List (Input F config.maxSequences)) (batch : Input F config.maxSequences)
    {steps : List (Value F)} {work : List (PrefillWork F config.maxSequences)}
    (asks : BatchOf config (run config model inputs) batch steps work)
    (singles : List (Input F config.maxSequences))
    (alone : List.Forall₂ (SingleStep batch) singles steps) :
    SameOutcome config model (run config model inputs) batch singles ↔
      steps.length = 1 ∨
        Fits config work ∧ ¬ RefusesCommit (run config model inputs) batch.out.prefill work := by
  have h := valid_run config model inputs
  revert asks h
  generalize run config model inputs = r
  intro asks h
  obtain ⟨command, line, type, hsteps⟩ := asks.command
  have hasked : PrefillAsked config r command steps work := ⟨hsteps, asks.work⟩
  have hprefills := hasked.prefills h
  have hsingles := singles_of (prefillWork_steps asks.work) alone
  have hlengths : steps.length = work.length ∧ singles.length = steps.length :=
    ⟨(prefillWork_steps asks.work).length_eq, alone.length_eq⟩
  have huntaken : Untaken r r work := fun w _ => ⟨rfl, rfl⟩
  have hbatch := step_prefill (r := r) model line type
  rw [hasked.batch_eq] at hbatch
  obtain ⟨hengine, hstates, hcache, hsamplers⟩ := r.prefillDecoded_tables work .success
  have hvalid := h.tables hengine hstates hcache hsamplers
  have hwork := hprefills.tables hengine hstates
  have hadvance := (singles_advance chunk tick model h hsingles hprefills h huntaken).2
  -- a step that the batch leaves out is done by its single command
  have hleftOut : SameOutcome config model r batch singles → ∀ w ∈ work,
      (step config model r batch).1.engine.slots w.slot ≠ r.engine.slots w.slot := by
    intro hsame w hw heq
    obtain ⟨s, hvalidStep⟩ := hprefills.valid w hw
    have hslot := (hsame.slots w.slot).trans (hadvance w hw)
    exact prefilledSlot_ne (hvalidStep.bounds h).2.1 (hslot.symm.trans heq)
  constructor
  · intro hsame
    by_cases hone : steps.length = 1
    · exact .inl hone
    have hnonempty := List.length_pos_iff.mpr (stepsOf_ok hsteps).2.1
    have hfits : Fits config work := by
      by_contra hnot
      rw [runPrefill_exceeds r _ hnot] at hbatch
      obtain ⟨w, hw⟩ := List.exists_mem_of_length_pos (show 0 < work.length by omega)
      refine hleftOut hsame w hw ?_
      rw [hbatch]
      rfl
    refine .inr ⟨hfits, ?_⟩
    rintro ⟨found, hmem, hrefused⟩
    rw [runPrefill_fits r hfits asks.decoded] at hbatch
    cases hsingles with
    | nil => simp at hlengths; omega
    | @cons x rest single others stepx seen hsingle hstep later =>
      have hdone := Singles.first chunk tick model h h huntaken hsingle hstep
      obtain ⟨-, hreply⟩ :=
        (alike_decoded r (x :: rest)).next hvalid h hprefills hdone batch.out.prefill.elapsed
      obtain ⟨y, rest, rfl⟩ : ∃ y others, rest = y :: others := by
        refine List.exists_cons_of_ne_nil fun hnil => hone ?_
        rw [hlengths.1, hnil]
        rfl
      obtain ⟨s, hx⟩ := hwork.valid x List.mem_cons_self
      have hfirst := prefilling hx hvalid batch.out.prefill.elapsed batch.out.prefill.captures
      have hall : (Runtime.prefillAll batch.out.prefill.elapsed batch.out.prefill.captures
            (r.prefillDecoded (x :: y :: rest) .success) (x :: y :: rest)).2.isOk = true →
          ∀ found ∈ Runtime.followed batch.out.prefill.elapsed batch.out.prefill.captures
            (r.prefillDecoded (x :: y :: rest) .success) (x :: y :: rest),
            ¬ found.1.CommitRefused batch.out.prefill.captures found.2 := prefillAll_ok hvalid hwork
      rcases prefillAll_cons batch.out.prefill.elapsed batch.out.prefill.captures
          (r.prefillDecoded (x :: y :: rest) .success) x (y :: rest) with
        ⟨r', fault, hfound, hresult⟩ | ⟨r', outcome, hfound, hresult⟩
      · -- the batch stops at its first step
        rw [hfound] at hfirst
        rw [hresult] at hbatch
        have hne : y.slot ≠ x.slot := by
          intro heq
          have hdistinct := (List.nodup_cons.mp (List.map_cons ▸ hprefills.distinct)).1
          exact hdistinct (heq ▸ List.mem_map_of_mem List.mem_cons_self)
        refine hleftOut hsame y (by simp) ?_
        rw [hbatch]
        show r'.engine.slots y.slot = r.engine.slots y.slot
        rw [hfirst.counted.frame.slots _ hne, hengine]
      · -- its first step was done, and is not answered
        have hfail : (Runtime.prefillAll batch.out.prefill.elapsed batch.out.prefill.captures
            (r.prefillDecoded (x :: y :: rest) .success) (x :: y :: rest)).2.isOk ≠ true :=
          fun hok => hall hok found hmem hrefused
        revert hbatch hfail
        generalize Runtime.prefillAll batch.out.prefill.elapsed batch.out.prefill.captures
          (r.prefillDecoded (x :: y :: rest) .success) (x :: y :: rest) = result
        intro hbatch hfail
        obtain ⟨r'', outcomes⟩ := result
        cases outcomes with
        | ok outcomes => exact absurd rfl hfail
        | error fault =>
          have houtcomes := hsame.outcomes
          rw [hbatch, stepAll, List.flatMap_cons, hreply, hfound] at houtcomes
          exact absurd (List.cons.inj houtcomes).1 (by simp [Except.toOption])
  · rintro (hone | ⟨hfits, hno⟩)
    · cases hsingles with
      | nil => simp at hlengths; omega
      | @cons w rest single others stepw seen hsingle hstep later =>
        obtain rfl : rest = [] := by
          rw [← List.length_eq_zero_iff]
          simp at hlengths
          omega
        cases later
        obtain ⟨stepb, rfl⟩ := List.length_eq_one_iff.mp hone
        -- the batch is itself a command of one step
        have hdone := Singles.first chunk tick model h h huntaken hsingle hstep
        obtain ⟨w', hstepb, hw'⟩ := bind_eq_ok.mp asks.work
        obtain rfl : w' = w := (List.cons.inj (Except.ok.inj hw')).1
        have hitself : SingleStep batch batch stepb := ⟨⟨command, line, type, hsteps⟩, asks.decoded, rfl⟩
        have hbatchDone := singleDone model chunk tick hitself hstepb
          (prefillStep_alone h h hstepb rfl rfl).2
        obtain ⟨s, hvalidStep⟩ := hprefills.valid w' List.mem_cons_self
        obtain ⟨hstates', hslots', houtcomes'⟩ := hbatchDone.same hdone h hvalidStep
        refine ⟨hstates', hslots', ?_⟩
        show (step config model r batch).2.stepOutcomes 1
          = Reply.stepOutcomes 1 (step config model r single).2 ++ []
        rw [List.append_nil]
        exact houtcomes'
    · obtain ⟨rb', outcomes, hresult, hend, hanswers⟩ :=
        singles_follow chunk tick model h hsingles hprefills hvalid h huntaken (alike_decoded r work)
          fun found hmem hrefused => hno ⟨found, hmem, hrefused⟩
      rw [runPrefill_fits r hfits asks.decoded, hresult] at hbatch
      refine ⟨fun i => ?_, fun i => ?_, ?_⟩
      · rw [hbatch]
        exact hend.states i
      · rw [hbatch]
        show rb'.engine.slots i = _
        rw [hend.engine]
      · rw [hbatch, hanswers]
        rfl

/-- Two plain sequences are prefilled in one batch. -/
def plainPair : List (Input Empty sampleSetup.maxSequences) :=
  [openCommand "r" "hello" "v" .null .null, openCommand "s" "plain" "v" .null .null].map sampleInput

def pairSteps : List (Value Empty) :=
  [stepOf (slotHandle "slot-0" 1) 9, stepOf (slotHandle "slot-1" 1) 9]

/-- The steps of a batch as commands of their own. -/
def pairSingles (steps : List (Value Empty)) : List (Input Empty sampleSetup.maxSequences) :=
  steps.map fun step => sampleInput (prefillCommand [step])

/-- They end as if they were prefilled one after the other. -/
theorem prefill_isolated_pair : SameOutcome sampleSetup sampleModel
    (run sampleSetup sampleModel plainPair) (sampleInput (prefillCommand pairSteps))
    (pairSingles pairSteps) := by
  have hrun : (prefillWork sampleSetup (run sampleSetup sampleModel plainPair) [] pairSteps).toOption.any
      (fun work => Fits sampleSetup work ∧ ¬ RefusesCommit (run sampleSetup sampleModel plainPair)
        (sampleInput (prefillCommand pairSteps)).out.prefill work) = true := by decide +kernel
  obtain ⟨work, hwork, hfits⟩ := (Option.any_eq_true _ _).mp hrun
  have alone : List.Forall₂ (SingleStep (sampleInput (prefillCommand pairSteps)))
      (pairSingles pairSteps) pairSteps :=
    .cons ⟨⟨_, rfl, rfl, rfl⟩, rfl, rfl⟩ (.cons ⟨⟨_, rfl, rfl, rfl⟩, rfl, rfl⟩ .nil)
  have asks : BatchOf sampleSetup (run sampleSetup sampleModel plainPair)
      (sampleInput (prefillCommand pairSteps)) pairSteps work := by
    refine ⟨⟨prefillCommand pairSteps, rfl, rfl, rfl⟩, ?_, rfl⟩
    revert hwork
    generalize prefillWork sampleSetup (run sampleSetup sampleModel plainPair) [] pairSteps = result
    intro hwork
    cases result with
    | error fault => exact absurd hwork (by simp [Except.toOption])
    | ok found => exact congrArg Except.ok (Option.some_inj.mp hwork)
  exact (prefill_isolated sampleSetup (by decide) (by decide) sampleModel plainPair _ asks _
    alone).mpr (.inr (of_decide_eq_true hfits))

/-- The refused commit of the first step keeps the second sequence from being prefilled. -/
theorem prefill_not_isolated : ∃ steps work,
    BatchOf sampleSetup (run sampleSetup sampleModel (cutRun.take 5))
        (sampleInput (prefillCommand steps)) steps work ∧
      List.Forall₂ (SingleStep (sampleInput (prefillCommand steps))) (pairSingles steps) steps ∧
      ¬ SameOutcome sampleSetup sampleModel (run sampleSetup sampleModel (cutRun.take 5))
        (sampleInput (prefillCommand steps)) (pairSingles steps) := by
  have hrun : (prefillWork sampleSetup (run sampleSetup sampleModel (cutRun.take 5)) []
        [stepOf (slotHandle "slot-1" 1) 9, stepOf (slotHandle "slot-0" 2) 9]).isOk = true ∧
      (step sampleSetup sampleModel (run sampleSetup sampleModel (cutRun.take 5))
          (sampleInput (prefillCommand
            [stepOf (slotHandle "slot-1" 1) 9, stepOf (slotHandle "slot-0" 2) 9]))).1.engine.slots
            firstSlot
        ≠ (stepAll sampleSetup sampleModel (run sampleSetup sampleModel (cutRun.take 5))
          (pairSingles
            [stepOf (slotHandle "slot-1" 1) 9, stepOf (slotHandle "slot-0" 2) 9])).1.engine.slots
            firstSlot := by decide +kernel
  obtain ⟨hok, hslots⟩ := hrun
  revert hok
  generalize hwork : prefillWork sampleSetup (run sampleSetup sampleModel (cutRun.take 5)) []
    [stepOf (slotHandle "slot-1" 1) 9, stepOf (slotHandle "slot-0" 2) 9] = result
  intro hok
  cases result with
  | error fault => exact absurd hok (by simp [Except.isOk, Except.toBool])
  | ok work =>
    refine ⟨_, work, ⟨⟨_, rfl, rfl, rfl⟩, hwork, rfl⟩,
      .cons ⟨⟨_, rfl, rfl, rfl⟩, rfl, rfl⟩ (.cons ⟨⟨_, rfl, rfl, rfl⟩, rfl, rfl⟩ .nil), fun hsame => ?_⟩
    exact hslots (hsame.slots firstSlot)

end Native
