/-
What `decode_batch` does.

* `SequenceState.consumed`, `consume_eq` — a sampled token as a function of the state of
  its sequence;
* `Round` — one round of the loop: every sequence that takes part gets one token;
* `DecodeRun` — rounds until no sequence takes another token, or one that stops;
* `DecodeBatch` — a command is refused, or its rounds follow (`decodeBatch`).
-/
import LlamaRuntime.Native.RuntimeInvariant

namespace Native

open Json

variable {n : ℕ} {F : Type}

/-! ### One token -/

/-- A state but for what decoding changes. -/
def SequenceState.fixed (s : SequenceState n) : SequenceState n :=
  { s with
    pendingToken := 0
    nPast := 0
    phase := ⟨[], [], [], 0, 0, 0, .done, 0, 0, 0⟩
    finalPhase := false
    utf8 := .empty
    finalBytes := []
    generationMs := 0
    lastSampleAt := none
    lastFinalAt := none
    firstSampleMs := 0
    firstFinalMs := 0
    sampleItlMs := []
    finalItlMs := []
    terminal := false
    failed := false
    errorCode := [] }

/-- The final phase begins with its grammar. -/
def SequenceState.started (s : SequenceState n) (result : ControllerResult) : SequenceState n :=
  if result.action = .activateFinalGrammar then { s with finalPhase := true } else s

/-- A sequence fails if its controller did, or if its budget is spent too early. -/
def SequenceState.judged (s : SequenceState n) (result : ControllerResult) (spent : Bool) :
    SequenceState n :=
  (s.rejected result).exhausted result spent

/-- The state of a sequence before it is seen whether a token ends it; `spent` says that
the token was the last of the budget. -/
def SequenceState.unsettled (s : SequenceState n) (model : LlamaModel F) (token : Token)
    (sampledAt : ℚ) (spent : Bool) : SequenceState n :=
  let counted := s.counted model token sampledAt
  ((counted.1.withText model (s.finalToken model token) token).1.started counted.2).judged counted.2
    spent

/-- The state of a sequence after a sampled token, why it ended if it did, and the text
that the token completes. -/
def SequenceState.consumed (s : SequenceState n) (model : LlamaModel F) (token : Token)
    (sampledAt : ℚ) (spent : Bool) : (SequenceState n × Option FinishReason) × List UInt8 :=
  let counted := s.counted model token sampledAt
  ((s.unsettled model token sampledAt spent).settled counted.2.action token,
    (counted.1.withText model (s.finalToken model token) token).2)

/-- The engine slot of a sequence after a token. -/
def consumedSlot (slot : Slot) : Option FinishReason → Slot
  | none => { slot with decodedTokens := slot.decodedTokens + 1 }
  | some reason =>
    { slot with
      decodedTokens := slot.decodedTokens + 1, lifecycle := .terminal, finishReason := reason }

/-- A state but for its position, its phase and its times. -/
def SequenceState.untimed (s : SequenceState n) : SequenceState n :=
  { s with
    nPast := 0
    phase := ⟨[], [], [], 0, 0, 0, .done, 0, 0, 0⟩
    lastSampleAt := none
    lastFinalAt := none
    firstSampleMs := 0
    firstFinalMs := 0
    sampleItlMs := []
    finalItlMs := [] }

theorem SequenceState.sampled_spec (s : SequenceState n) (sampledAt : ℚ) :
    (s.sampled sampledAt).untimed = s.untimed ∧ (s.sampled sampledAt).nPast = s.nPast := by
  unfold sampled
  split
  · exact ⟨rfl, rfl⟩
  · exact ⟨rfl, rfl⟩

theorem SequenceState.finalSampled_spec (s : SequenceState n) (sampledAt : ℚ) :
    (s.finalSampled sampledAt).untimed = s.untimed ∧ (s.finalSampled sampledAt).nPast = s.nPast := by
  unfold finalSampled
  split
  · exact ⟨rfl, rfl⟩
  · exact ⟨rfl, rfl⟩

theorem SequenceState.counted_spec (s : SequenceState n) (model : LlamaModel F) (token : Token)
    (sampledAt : ℚ) :
    (s.counted model token sampledAt).1.untimed = s.untimed ∧
      (s.counted model token sampledAt).1.nPast = s.nPast + 1 := by
  obtain ⟨hsampled, hposition⟩ := sampled_spec { s with nPast := s.nPast + 1 } sampledAt
  unfold counted
  dsimp only
  split_ifs
  · obtain ⟨hfinal, hposition'⟩ :=
      finalSampled_spec ({ s with nPast := s.nPast + 1 }.sampled sampledAt) sampledAt
    exact ⟨hfinal.trans hsampled, hposition'.trans hposition⟩
  · exact ⟨hsampled, hposition⟩

theorem SequenceState.fixed_counted (s : SequenceState n) (model : LlamaModel F) (token : Token)
    (sampledAt : ℚ) : (s.counted model token sampledAt).1.fixed = s.fixed := by
  have hsame := congrArg fixed (s.counted_spec model token sampledAt).1
  exact hsame

theorem SequenceState.fixed_appended (s : SequenceState n) (bytes : List UInt8) :
    (s.appended bytes).1.fixed = s.fixed := by
  unfold appended
  dsimp only
  split
  · rfl
  · rfl

theorem SequenceState.fixed_withText (s : SequenceState n) (model : LlamaModel F) (final : Bool)
    (token : Token) : (s.withText model final token).1.fixed = s.fixed := by
  unfold withText
  split_ifs
  · exact s.fixed_appended _
  · rfl

theorem SequenceState.started_cases (s : SequenceState n) (result : ControllerResult) :
    s.started result = s ∨ s.started result = { s with finalPhase := true } := by
  unfold started
  split_ifs
  · exact .inr rfl
  · exact .inl rfl

/-- A sequence is judged as it is or as a failed one. -/
theorem SequenceState.judged_cases (s : SequenceState n) (result : ControllerResult) (spent : Bool) :
    (s.judged result spent = s ∧ result.action ≠ .failed ∧
        (s.failed = false → result.action ≠ .completed → spent = false)) ∨
      (∃ code, s.judged result spent = s.failWith code) ∧
        (result.action = .failed ∨ result.action ≠ .completed ∧ spent = true) := by
  unfold judged rejected exhausted
  by_cases hfailed : result.action = .failed
  · refine .inr ⟨⟨result.error, ?_⟩, .inl hfailed⟩
    rw [if_pos hfailed, if_neg (by simp [failWith])]
  · rw [if_neg hfailed]
    by_cases hspent : s.failed = false ∧ result.action ≠ .completed ∧ spent = true
    · rw [if_pos hspent]
      exact .inr ⟨⟨_, rfl⟩, .inr hspent.2⟩
    · rw [if_neg hspent]
      refine .inl ⟨rfl, hfailed, fun hf hc => ?_⟩
      by_contra hs
      exact hspent ⟨hf, hc, by simpa using hs⟩

theorem SequenceState.fixed_unsettled (s : SequenceState n) (model : LlamaModel F) (token : Token)
    (sampledAt : ℚ) (spent : Bool) :
    (s.unsettled model token sampledAt spent).fixed = s.fixed := by
  have hcounted := s.fixed_counted model token sampledAt
  have htext := fixed_withText (s.counted model token sampledAt).1 model (s.finalToken model token)
    token
  unfold unsettled
  dsimp only
  generalize s.counted model token sampledAt = counted at hcounted htext ⊢
  generalize counted.1.withText model (s.finalToken model token) token = text at htext ⊢
  have hstarted : (text.1.started counted.2).fixed = s.fixed := by
    rcases text.1.started_cases counted.2 with h | h
    · rw [h, htext, hcounted]
    · rw [h]
      exact htext.trans hcounted
  rcases (text.1.started counted.2).judged_cases counted.2 spent with ⟨h, -⟩ | ⟨⟨code, h⟩, -⟩
  · rw [h, hstarted]
  · rw [h]
    exact hstarted

theorem SequenceState.fixed_settled (s : SequenceState n) (action : ControllerAction)
    (token : Token) : (s.settled action token).1.fixed = s.fixed := by
  unfold settled
  split_ifs
  · rfl
  · rfl
  · rfl
  · rfl

/-- A token changes nothing that belongs to the request. -/
theorem SequenceState.fixed_consumed (s : SequenceState n) (model : LlamaModel F) (token : Token)
    (sampledAt : ℚ) (spent : Bool) :
    (s.consumed model token sampledAt spent).1.1.fixed = s.fixed :=
  (fixed_settled _ _ _).trans (s.fixed_unsettled model token sampledAt spent)

theorem SequenceState.withText_spec (s : SequenceState n) (model : LlamaModel F) (final : Bool)
    (token : Token) :
    (s.withText model final token).1.nPast = s.nPast ∧
      (s.withText model final token).1.terminal = s.terminal := by
  unfold withText appended
  split_ifs
  · dsimp only
    split
    · exact ⟨rfl, rfl⟩
    · exact ⟨rfl, rfl⟩
  · exact ⟨rfl, rfl⟩

theorem SequenceState.unsettled_spec (s : SequenceState n) (model : LlamaModel F) (token : Token)
    (sampledAt : ℚ) (spent : Bool) :
    (s.unsettled model token sampledAt spent).nPast = s.nPast + 1 ∧
      (s.unsettled model token sampledAt spent).terminal = s.terminal ∧
      ((s.unsettled model token sampledAt spent).failed = false →
        (s.counted model token sampledAt).2.action ≠ .completed → spent = false) := by
  obtain ⟨hsame, hposition⟩ := s.counted_spec model token sampledAt
  have hterminal : (s.counted model token sampledAt).1.terminal = s.terminal := by
    have hfield := congrArg SequenceState.terminal hsame
    exact hfield
  obtain ⟨htext, htextual⟩ := withText_spec (s.counted model token sampledAt).1 model
    (s.finalToken model token) token
  unfold unsettled
  dsimp only
  generalize s.counted model token sampledAt = counted at hposition hterminal htext htextual ⊢
  generalize counted.1.withText model (s.finalToken model token) token = text at htext htextual ⊢
  have hstarted : (text.1.started counted.2).nPast = s.nPast + 1 ∧
      (text.1.started counted.2).terminal = s.terminal := by
    rcases text.1.started_cases counted.2 with h | h
    · rw [h]
      exact ⟨htext.trans hposition, htextual.trans hterminal⟩
    · rw [h]
      exact ⟨htext.trans hposition, htextual.trans hterminal⟩
  rcases (text.1.started counted.2).judged_cases counted.2 spent with
    ⟨h, -, hspent⟩ | ⟨⟨code, h⟩, -⟩
  · rw [h]
    exact ⟨hstarted.1, hstarted.2, hspent⟩
  · rw [h]
    exact ⟨hstarted.1, hstarted.2, fun hf => absurd hf (by simp [failWith])⟩

/-- How a sequence stands after a token: it goes on if and only if it has no reason to end. -/
theorem SequenceState.settled_spec (s : SequenceState n) (action : ControllerAction) (token : Token) :
    (s.settled action token).1.nPast = s.nPast ∧
      ((s.settled action token).2 = none ∧ s.failed = false ∧ action ≠ .completed ∧
          (s.settled action token).1 = { s with pendingToken := token } ∨
        (∃ reason, (s.settled action token).2 = some reason ∧ (reason = .stop ∨ reason = .failed)) ∧
          (s.settled action token).1.terminal = true) := by
  unfold settled
  split_ifs with hfailed hcompleted hfinish
  · exact ⟨rfl, .inr ⟨⟨_, rfl, .inr rfl⟩, rfl⟩⟩
  · exact ⟨rfl, .inr ⟨⟨_, rfl, .inl rfl⟩, rfl⟩⟩
  · exact ⟨rfl, .inr ⟨⟨_, rfl, .inr rfl⟩, rfl⟩⟩
  · exact ⟨rfl, .inl ⟨rfl, by simpa using hfailed, hcompleted, rfl⟩⟩

/-- A token: the position advances; the sequence ends, or it goes on with this token and
the budget is not spent. -/
theorem SequenceState.consumed_spec (s : SequenceState n) (model : LlamaModel F) (token : Token)
    (sampledAt : ℚ) (spent : Bool) (hopen : s.terminal = false) :
    (s.consumed model token sampledAt spent).1.1.nPast = s.nPast + 1 ∧
      ((s.consumed model token sampledAt spent).1.2 = none ∧ spent = false ∧
          (s.consumed model token sampledAt spent).1.1.terminal = false ∧
          (s.consumed model token sampledAt spent).1.1.pendingToken = token ∨
        (∃ reason, (s.consumed model token sampledAt spent).1.2 = some reason ∧
          (reason = .stop ∨ reason = .failed)) ∧
          (s.consumed model token sampledAt spent).1.1.terminal = true) := by
  obtain ⟨hposition, hterminal, hspent⟩ := s.unsettled_spec model token sampledAt spent
  obtain ⟨hsettled, hends⟩ := (s.unsettled model token sampledAt spent).settled_spec
    (s.counted model token sampledAt).2.action token
  refine ⟨hsettled.trans hposition, ?_⟩
  rcases hends with ⟨hnone, hgood, haction, hstate⟩ | hends
  · have hstate : (s.consumed model token sampledAt spent).1.1
        = { s.unsettled model token sampledAt spent with pendingToken := token } := hstate
    rw [hstate]
    exact .inl ⟨hnone, hspent hgood haction, hterminal.trans hopen, rfl⟩
  · exact .inr hends

/-! ### A token of a sequence in the tables -/

theorem Engine.put_put (e : Engine n) (i : Fin n) (s s' : Slot) :
    (e.put i s).put i s' = e.put i s' := by
  unfold Engine.put
  simp only [Function.update_idem]

/-- The budget of a sequence is spent with its next token. -/
def Runtime.spends (r : Runtime n) (i : Fin n) : Bool :=
  (r.engine.slots i).decodedTokens + 1 = (r.engine.slots i).outputTokenBudget

/-- What a token does to a sequence of the tables. -/
abbrev Runtime.consumption (r : Runtime n) (model : LlamaModel F) (i : Fin n)
    (s : SequenceState n) (token : Token) (sampledAt : ℚ) :
    (SequenceState n × Option FinishReason) × List UInt8 :=
  s.consumed model token sampledAt (r.spends i)

/-- No sampler is attached, so that none is detached. -/
theorem detach_none {s : SequenceState n} (h : s.backendReasoningSampler = false) (r : Runtime n)
    (i : Fin n) (detached : Bool) :
    r.detach i s detached = (r, .ok { s with finalPhase := true }) := by
  unfold Runtime.detach
  rw [if_neg (by simp [h])]

/-- The engine ends a sequence that has a reason to end. -/
theorem finish_put (e : Engine n) (i : Fin n) (slot : Slot) (hdecode : slot.lifecycle = .decode)
    {reason : FinishReason} (hreason : reason = .stop ∨ reason = .failed) :
    ((e.put i slot).finish (slot.handle i) reason).2
      = e.put i { slot with lifecycle := .terminal, finishReason := reason } := by
  have hslot : (e.put i slot).slots i = slot := Function.update_self _ _ _
  have hlive : ((e.put i slot).slots i).lifecycle ≠ .released := by
    rw [hslot, hdecode]
    simp
  have hmem : reason ∈ [FinishReason.stop, .length, .failed] := by
    rcases hreason with rfl | rfl
    · simp
    · simp
  have hfinish : (e.put i slot).finish (((e.put i slot).slots i).handle i) reason = _ :=
    Engine.onSlot_handle hlive _
  rw [hslot, if_neg (not_not.mpr hdecode), if_neg (not_not.mpr hmem), Engine.put_put] at hfinish
  rw [hfinish]

theorem conclude_eq {r : Runtime n} (e : Engine n) {i : Fin n} (slot : Slot) {s : SequenceState n}
    (hengine : r.engine = e.put i { slot with decodedTokens := slot.decodedTokens + 1 })
    (hdecode : slot.lifecycle = .decode) (hinternal : s.internal = slot.handle i)
    (result : ControllerResult) (token : Token) (text : List UInt8) :
    r.conclude i s result token text =
      ({ r.putState i ((s.judged result (slot.decodedTokens + 1 = slot.outputTokenBudget)).settled
            result.action token).1 with
          engine := e.put i (consumedSlot slot
            ((s.judged result (slot.decodedTokens + 1 = slot.outputTokenBudget)).settled
              result.action token).2) },
        .ok text) := by
  have hslot : r.engine.slots i = { slot with decodedTokens := slot.decodedTokens + 1 } := by
    rw [hengine]
    exact Function.update_self _ _ _
  have hrejected : (s.rejected result).internal = slot.handle i := by
    unfold SequenceState.rejected
    split_ifs
    · exact hinternal
    · exact hinternal
  have hfind : r.engine.snapshot (s.rejected result).internal
      = some { slot with decodedTokens := slot.decodedTokens + 1 } := by
    have hlive : (r.engine.slots i).lifecycle ≠ .released := by
      rw [hslot, hdecode]
      simp
    have hfound := Engine.find_handle hlive
    rw [hslot] at hfound
    rw [hrejected]
    exact hfound
  have hjudged : ((s.rejected result).exhausted result
      (slot.decodedTokens + 1 = slot.outputTokenBudget)).internal = slot.handle i := by
    unfold SequenceState.exhausted
    split_ifs
    · exact hrejected
    · exact hrejected
  unfold Runtime.conclude SequenceState.judged
  dsimp only
  rw [hfind]
  dsimp only
  rw [hjudged]
  obtain ⟨-, hends⟩ := ((s.rejected result).exhausted result
    (slot.decodedTokens + 1 = slot.outputTokenBudget)).settled_spec result.action token
  rcases hends with ⟨hnone, -⟩ | ⟨⟨reason, hreason, hgood⟩, -⟩
  · rw [hnone, hengine]
    rfl
  · rw [hreason, hengine]
    have hfinish := finish_put e i { slot with decodedTokens := slot.decodedTokens + 1 } hdecode hgood
    have hfinish' : ((e.put i { slot with decodedTokens := slot.decodedTokens + 1 }).finish
        (slot.handle i) reason).2 = _ := hfinish
    dsimp only
    rw [hfinish']
    rfl

theorem consume_eq {config : Setup} {r : Runtime n} (h : r.Valid config) {i : Fin n}
    {s : SequenceState n} (hs : r.states i = some s)
    (hdecode : (r.engine.slots i).lifecycle = .decode) (model : LlamaModel F) (token : Token)
    (sampledAt : ℚ) (detached : Bool) :
    r.consume model i s token sampledAt detached =
      ({ r.putState i (r.consumption model i s token sampledAt).1.1 with
          engine := r.engine.put i
            (consumedSlot (r.engine.slots i) (r.consumption model i s token sampledAt).1.2) },
        .ok (r.consumption model i s token sampledAt).2) := by
  have hstate := h.state hs
  obtain ⟨-, hbudget⟩ := hstate.decoding hdecode
  have hadvance : r.engine.advanceDecode s.internal 1 = (.applied, r.engine.put i
      { r.engine.slots i with decodedTokens := (r.engine.slots i).decodedTokens + 1 }) := by
    rw [hstate.internal]
    refine (Engine.onSlot_handle hstate.ne_released _).trans ?_
    rw [if_neg (not_not.mpr hdecode), if_neg (by omega)]
  have hfixed := s.fixed_counted model token sampledAt
  have hinternal : (s.counted model token sampledAt).1.internal = s.internal := by
    have hfield := congrArg SequenceState.internal hfixed
    exact hfield
  have htext := SequenceState.fixed_withText (s.counted model token sampledAt).1 model
    (s.finalToken model token) token
  unfold Runtime.consume Runtime.consumption SequenceState.consumed SequenceState.unsettled
  dsimp only
  rw [hinternal, hadvance]
  generalize s.counted model token sampledAt = counted at hfixed htext ⊢
  generalize counted.1.withText model (s.finalToken model token) token = text at htext ⊢
  rw [hfixed] at htext
  have hsampler : text.1.backendReasoningSampler = false := by
    have hfield := congrArg SequenceState.backendReasoningSampler htext
    exact hfield.trans hstate.sampler
  have hinternal' : text.1.internal = (r.engine.slots i).handle i := by
    have hfield := congrArg SequenceState.internal htext
    exact hfield.trans hstate.internal
  have hengine := Engine.put_slots r.engine i
    { r.engine.slots i with decodedTokens := (r.engine.slots i).decodedTokens + 1 }
  rw [if_neg (by simp)]
  unfold SequenceState.started
  split_ifs
  · rw [detach_none hsampler]
    dsimp only
    refine (conclude_eq r.engine (r.engine.slots i) ?_ hdecode ?_ _ _ _).trans ?_
    · rfl
    · exact hinternal'
    simp only [Runtime.putState, Function.update_idem]
    rfl
  · dsimp only
    refine (conclude_eq r.engine (r.engine.slots i) ?_ hdecode ?_ _ _ _).trans ?_
    · rfl
    · exact hinternal'
    simp only [Runtime.putState, Function.update_idem]
    rfl

/-- A token keeps what holds of a sequence and its slot. -/
theorem StateValid.consumed {slot : Slot} {i : Fin n} {s : SequenceState n} (h : StateValid slot i s)
    (hdecode : slot.lifecycle = .decode) (model : LlamaModel F) (token : Token) (sampledAt : ℚ) :
    StateValid
      (consumedSlot slot (s.consumed model token sampledAt
        (slot.decodedTokens + 1 = slot.outputTokenBudget)).1.2) i
      (s.consumed model token sampledAt (slot.decodedTokens + 1 = slot.outputTokenBudget)).1.1 := by
  have hopen : s.terminal = false := by
    by_contra hterminal
    have hended := h.ended (by simpa using hterminal)
    rw [hdecode] at hended
    exact absurd hended (by simp)
  obtain ⟨hlogical, hbudget⟩ := h.decoding hdecode
  have hfixed := s.fixed_consumed model token sampledAt
    (slot.decodedTokens + 1 = slot.outputTokenBudget)
  obtain ⟨hposition, hends⟩ := s.consumed_spec model token sampledAt
    (slot.decodedTokens + 1 = slot.outputTokenBudget) hopen
  generalize s.consumed model token sampledAt (slot.decodedTokens + 1 = slot.outputTokenBudget)
    = taken at *
  obtain ⟨⟨s', reason⟩, text⟩ := taken
  dsimp only at *
  have hinternal : s'.internal = s.internal := by
    have hfield := congrArg SequenceState.internal hfixed
    exact hfield
  have hprompt : s'.prompt = s.prompt := by
    have hfield := congrArg SequenceState.prompt hfixed
    exact hfield
  have hlogical' : s'.logicalPrefillProcessed = s.logicalPrefillProcessed := by
    have hfield := congrArg SequenceState.logicalPrefillProcessed hfixed
    exact hfield
  have hphysical : s'.physicalPromptDecoded = s.physicalPromptDecoded := by
    have hfield := congrArg SequenceState.physicalPromptDecoded hfixed
    exact hfield
  have hsampler : s'.backendReasoningSampler = s.backendReasoningSampler := by
    have hfield := congrArg SequenceState.backendReasoningSampler hfixed
    exact hfield
  have hsession : s'.session = s.session ∧ s'.cacheIdentity = s.cacheIdentity ∧
      s'.sessionPrefix = s.sessionPrefix := by
    have hfield := congrArg SequenceState.session hfixed
    have hidentity := congrArg SequenceState.cacheIdentity hfixed
    have htokens := congrArg SequenceState.sessionPrefix hfixed
    exact ⟨hfield, hidentity, htokens⟩
  have hslot : (consumedSlot slot reason).handle i = slot.handle i ∧
      (consumedSlot slot reason).promptTokens = slot.promptTokens ∧
      (consumedSlot slot reason).outputTokenBudget = slot.outputTokenBudget ∧
      (consumedSlot slot reason).promptTokensProcessed = slot.promptTokensProcessed ∧
      (consumedSlot slot reason).decodedTokens = slot.decodedTokens + 1 := by
    cases reason with
    | none => exact ⟨rfl, rfl, rfl, rfl, rfl⟩
    | some reason => exact ⟨rfl, rfl, rfl, rfl, rfl⟩
  obtain ⟨hhandle, htokens, hbudget', hprocessed, hdecoded⟩ := hslot
  have hlife : (consumedSlot slot reason).lifecycle = .decode ∧ reason = none ∨
      (consumedSlot slot reason).lifecycle = .terminal := by
    cases reason with
    | none => exact .inl ⟨hdecode, rfl⟩
    | some reason => exact .inr rfl
  refine ⟨?_, ?_, ?_, ?_, ?_, ?_, ?_, ?_, ?_, ?_, ?_, ?_⟩
  · rw [hinternal, hhandle, h.internal]
  · exact .inr (hlife.imp And.left id)
  · rw [hprompt, htokens, h.prompt]
  · rw [hlogical', hprocessed, h.logical]
  · rw [hphysical, hlogical', hprompt, h.physical]
  · rw [hposition, hphysical, hdecoded, h.nPast]
    omega
  · intro hp
    rcases hlife with ⟨hl, -⟩ | hl
    · exact absurd (hl.symm.trans hp) (by simp)
    · exact absurd (hl.symm.trans hp) (by simp)
  · intro hd
    rw [hlogical', hprompt, hdecoded, hbudget']
    rcases hlife with ⟨-, rfl⟩ | hl
    · rcases hends with ⟨-, hspent, -⟩ | ⟨⟨reason, hreason, -⟩, -⟩
      · exact ⟨hlogical, by have := of_decide_eq_false hspent; omega⟩
      · exact absurd hreason (by simp)
    · exact absurd (hl.symm.trans hd) (by simp)
  · intro hzero
    omega
  · rw [hsampler, h.sampler]
  · intro hterminal
    rcases hends with ⟨-, -, hgoes, -⟩ | ⟨⟨reason', rfl, -⟩, -⟩
    · exact absurd (hgoes.symm.trans hterminal) (by simp)
    · rfl
  · rw [hsession.1, hsession.2.1, hsession.2.2, hprompt]
    exact h.sessionPrefix

/-- A step of `decode_batch` once its sequence got a token. -/
def DecodeWork.taken (w : DecodeWork F n) (token : Token) (text : List UInt8) : DecodeWork F n :=
  { w with tokenIds := w.tokenIds ++ [token], textDelta := w.textDelta ++ text }

/-- A step of a round whose sequence gets a token. -/
structure Taken (model : LlamaModel F) (out : RoundReply n) (r r' : Runtime n)
    (w w' : DecodeWork F n) (s : SequenceState n) (token : Token) : Prop where
  state : r.states w.slot = some s
  decode : (r.engine.slots w.slot).lifecycle = .decode
  sample : out.samples w.slot = .ok token
  state' : r'.states w.slot = some (r.consumption model w.slot s token (out.sampledAt w.slot)).1.1
  slot' : r'.engine.slots w.slot = consumedSlot (r.engine.slots w.slot)
    (r.consumption model w.slot s token (out.sampledAt w.slot)).1.2
  work' : w' = w.taken token (r.consumption model w.slot s token (out.sampledAt w.slot)).2

/-- What a round does with a step: its sequence gets a token, or it is left alone. -/
def Moved (model : LlamaModel F) (out : RoundReply n) (r r' : Runtime n) (takes : Bool)
    (w w' : DecodeWork F n) : Prop :=
  if takes then ∃ s token, Taken model out r r' w w' s token
  else w' = w ∧ r'.states w.slot = r.states w.slot ∧ r'.engine.slots w.slot = r.engine.slots w.slot

/-- The sequences that no step names are left alone, and so is what does not belong to one. -/
structure Runtime.Still (slots : List (Fin n)) (r r' : Runtime n) : Prop where
  states : ∀ j ∉ slots, r'.states j = r.states j
  slots : ∀ j ∉ slots, r'.engine.slots j = r.engine.slots j
  memory : r'.memory = r.memory
  cache : r'.cache = r.cache
  log : r'.log = r.log

theorem slotValid_consumedSlot {slot : Slot} (h : Engine.SlotValid slot)
    (hdecode : slot.lifecycle = .decode) (hbudget : slot.decodedTokens < slot.outputTokenBudget)
    (reason : Option FinishReason) :
    Engine.SlotValid (consumedSlot slot reason) ∧
      (consumedSlot slot reason).reservation = slot.reservation ∧
      (consumedSlot slot reason).lifecycle ≠ .released := by
  have hlive : slot.lifecycle ≠ .released := by
    rw [hdecode]
    simp
  cases reason with
  | none =>
    refine ⟨⟨fun hr => absurd hr hlive, fun _ => h.named hlive, fun _ => h.sized hlive, h.processed,
      ?_, fun hp => absurd (hdecode.symm.trans hp) (by simp)⟩, rfl, hlive⟩
    show slot.decodedTokens + 1 ≤ slot.outputTokenBudget
    omega
  | some reason =>
    refine ⟨⟨fun hr => absurd hr (by simp [consumedSlot]), fun _ => h.named hlive,
      fun _ => h.sized hlive, h.processed, ?_, fun hp => absurd hp (by simp [consumedSlot])⟩, rfl,
      by simp [consumedSlot]⟩
    show slot.decodedTokens + 1 ≤ slot.outputTokenBudget
    omega

/-- The process after a token of one sequence. -/
theorem consumed_valid {config : Setup} {r : Runtime n} (h : r.Valid config) {i : Fin n}
    {s : SequenceState n} (hs : r.states i = some s)
    (hdecode : (r.engine.slots i).lifecycle = .decode) (model : LlamaModel F) (token : Token)
    (sampledAt : ℚ) (detached : Bool) :
    (r.consume model i s token sampledAt detached).1.Valid config ∧
      r.Still [i] (r.consume model i s token sampledAt detached).1 := by
  have hstate := (h.state hs).consumed hdecode model token sampledAt
  have heq := consume_eq h hs hdecode model token sampledAt detached
  have hengine : (r.engine.put i (consumedSlot (r.engine.slots i)
      (r.consumption model i s token sampledAt).1.2)).Valid := by
    obtain ⟨hvalid, hreservation, hlive⟩ := slotValid_consumedSlot (h.engine.slot i) hdecode
      ((h.state hs).decoding hdecode).2 (r.consumption model i s token sampledAt).1.2
    exact h.engine.put hvalid hreservation
      ⟨fun hr => absurd hr hlive, fun hr => absurd hr (h.state hs).ne_released⟩
  rw [heq]
  refine ⟨h.replace i hengine rfl (fun j hj => Function.update_of_ne hj _ _)
    (fun j hj => Function.update_of_ne hj _ _) ?_ h.samplers h.cache, ?_⟩
  · show SlotState (Function.update r.engine.slots i _ i) i (Function.update r.states i _ i)
    rw [Function.update_self, Function.update_self]
    exact hstate
  · refine ⟨fun j hj => ?_, fun j hj => ?_, rfl, rfl, rfl⟩
    · exact Function.update_of_ne (by simpa using hj) _ _
    · exact Function.update_of_ne (by simpa using hj) _ _

theorem Moved.frame {model : LlamaModel F} {out : RoundReply n} {r r₁ r' : Runtime n}
    {takes : Bool} {w w' : DecodeWork F n} (h : Moved model out r₁ r' takes w w')
    (hstates : r₁.states w.slot = r.states w.slot)
    (hslots : r₁.engine.slots w.slot = r.engine.slots w.slot) : Moved model out r r' takes w w' := by
  unfold Moved at h ⊢
  split_ifs at h ⊢
  · obtain ⟨s, token, htaken⟩ := h
    have hspends : r₁.spends w.slot = r.spends w.slot := by
      unfold Runtime.spends
      rw [hslots]
    have hconsumption : r₁.consumption model w.slot s token (out.sampledAt w.slot)
        = r.consumption model w.slot s token (out.sampledAt w.slot) := by
      unfold Runtime.consumption
      rw [hspends]
    refine ⟨s, token, hstates ▸ htaken.state, hslots ▸ htaken.decode, htaken.sample, ?_, ?_, ?_⟩
    · rw [htaken.state', hconsumption]
    · rw [htaken.slot', hconsumption, hslots]
    · rw [htaken.work', hconsumption]
  · exact ⟨h.1, h.2.1.trans hstates, h.2.2.trans hslots⟩

/-- What a round does with a step is seen in what follows. -/
theorem Moved.later {model : LlamaModel F} {out : RoundReply n} {r r₁ r' : Runtime n}
    {takes : Bool} {w w' : DecodeWork F n} (h : Moved model out r r₁ takes w w')
    (hstates : r'.states w.slot = r₁.states w.slot)
    (hslots : r'.engine.slots w.slot = r₁.engine.slots w.slot) : Moved model out r r' takes w w' := by
  unfold Moved at h ⊢
  split_ifs at h ⊢
  · obtain ⟨s, token, htaken⟩ := h
    exact ⟨s, token, htaken.state, htaken.decode, htaken.sample, hstates.trans htaken.state',
      hslots.trans htaken.slot', htaken.work'⟩
  · exact ⟨h.1, hstates.trans h.2.1, hslots.trans h.2.2⟩

/-- The sequence of a step can take a token. -/
def Ready (out : RoundReply n) (r : Runtime n) (w : DecodeWork F n) : Prop :=
  ∃ s token, r.states w.slot = some s ∧ (r.engine.slots w.slot).lifecycle = .decode ∧
    out.samples w.slot = .ok token

/-- The tokens of a round are all consumed. -/
theorem consuming {config : Setup} (model : LlamaModel F) (out : RoundReply n)
    (flagged : List (DecodeWork F n × Bool)) {r : Runtime n} (h : r.Valid config)
    (hdistinct : (flagged.map fun p => p.1.slot).Nodup)
    (hready : ∀ p ∈ flagged, p.2 = true → Ready out r p.1) :
    ∃ r' work', Runtime.consumeAll model out r flagged = (r', .ok work') ∧ r'.Valid config ∧
      r.Still (flagged.map fun p => p.1.slot) r' ∧
      List.Forall₂ (fun p w' => Moved model out r r' p.2 p.1 w') flagged work' := by
  induction flagged generalizing r with
  | nil => exact ⟨r, [], rfl, h, ⟨fun _ _ => rfl, fun _ _ => rfl, rfl, rfl, rfl⟩, .nil⟩
  | cons p rest ih =>
    obtain ⟨w, takes⟩ := p
    obtain ⟨hfresh, hdistinct'⟩ := List.nodup_cons.mp (List.map_cons ▸ hdistinct)
    have hother : ∀ q ∈ rest, q.1.slot ≠ w.slot := fun q hq heq =>
      hfresh (heq ▸ List.mem_map_of_mem hq)
    -- the first step alone
    have hfirst : ∃ r₁ w', (∀ result, result = Runtime.consumeAll model out r₁ rest →
        Runtime.consumeAll model out r ((w, takes) :: rest)
          = (result.1, result.2.map fun others => w' :: others)) ∧
        r₁.Valid config ∧ r.Still [w.slot] r₁ ∧ Moved model out r r₁ takes w w' := by
      cases takes with
      | false =>
        refine ⟨r, w, ?_, h, ⟨fun _ _ => rfl, fun _ _ => rfl, rfl, rfl, rfl⟩, rfl, rfl, rfl⟩
        rintro _ rfl
        simp only [Runtime.consumeAll]
        generalize Runtime.consumeAll model out r rest = result
        obtain ⟨r', outcome⟩ := result
        cases outcome with
        | error fault => rfl
        | ok others => rfl
      | true =>
        obtain ⟨s, token, hs, hdecode, hsample⟩ : Ready out r w :=
          hready (w, true) List.mem_cons_self rfl
        have heq := consume_eq h hs hdecode model token (out.sampledAt w.slot) (out.detached w.slot)
        obtain ⟨hvalid, hstill⟩ := consumed_valid h hs hdecode model token (out.sampledAt w.slot)
          (out.detached w.slot)
        rw [heq] at hvalid hstill
        refine ⟨_, w.taken token (r.consumption model w.slot s token (out.sampledAt w.slot)).2, ?_,
          hvalid, hstill, s, token, hs, hdecode, hsample, Function.update_self _ _ _,
          Function.update_self _ _ _, rfl⟩
        rintro _ rfl
        simp only [Runtime.consumeAll, hs, hsample, heq]
        generalize Runtime.consumeAll model out _ rest = result
        obtain ⟨r', outcome⟩ := result
        cases outcome with
        | error fault => rfl
        | ok others => rfl
    obtain ⟨r₁, w', hcons, hvalid, hstill, hmoved⟩ := hfirst
    have hready' : ∀ q ∈ rest, q.2 = true → Ready out r₁ q.1 := by
      intro q hq htakes
      obtain ⟨s, token, hs, hdecode, hsample⟩ := hready q (List.mem_cons_of_mem _ hq) htakes
      have hne : q.1.slot ∉ [w.slot] := by simpa using hother q hq
      exact ⟨s, token, (hstill.states _ hne).trans hs, by rw [hstill.slots _ hne]; exact hdecode,
        hsample⟩
    obtain ⟨r', work', heq, hvalid', hstill', hall⟩ := ih hvalid hdistinct' hready'
    refine ⟨r', w' :: work', ?_, hvalid', ⟨fun j hj => ?_, fun j hj => ?_, ?_, ?_, ?_⟩, .cons ?_ ?_⟩
    · rw [hcons _ rfl, heq]
      rfl
    · rw [List.map_cons, List.mem_cons, not_or] at hj
      exact (hstill'.states j hj.2).trans (hstill.states j (by simpa using hj.1))
    · rw [List.map_cons, List.mem_cons, not_or] at hj
      exact (hstill'.slots j hj.2).trans (hstill.slots j (by simpa using hj.1))
    · exact hstill'.memory.trans hstill.memory
    · exact hstill'.cache.trans hstill.cache
    · exact hstill'.log.trans hstill.log
    · exact hmoved.later (hstill'.states _ hfresh) (hstill'.slots _ hfresh)
    · refine ((List.forall₂_and_left rest work').mpr ⟨hother, hall⟩).imp fun q x hmoved' => ?_
      obtain ⟨hne, hmoved'⟩ := hmoved'
      have hne : q.1.slot ∉ [w.slot] := by simpa using hne
      exact hmoved'.frame (hstill.states _ hne) (hstill.slots _ hne)

/-! ### Rounds -/

/-- The steps of a batch name distinct sequences; those that have not ended are decoding. -/
structure Runtime.Decodes (r : Runtime n) (work : List (DecodeWork F n)) : Prop where
  distinct : (work.map DecodeWork.slot).Nodup
  valid : ∀ w ∈ work, ∃ s, r.states w.slot = some s ∧
    (s.terminal = false → (r.engine.slots w.slot).lifecycle = .decode)

/-- A sequence takes another token if it has not ended and its step asks for more. -/
theorem Runtime.takes_iff {r : Runtime n} {w : DecodeWork F n} :
    r.takes w = true ↔ (∃ s, r.states w.slot = some s ∧ s.terminal = false) ∧
      w.tokenIds.length < w.tokenBudget := by
  unfold Runtime.takes
  rw [Bool.and_eq_true, Option.any_eq_true, decide_eq_true_iff]
  simp only [decide_eq_true_eq]

/-- The sequences that take part in a round. -/
def Runtime.takers (r : Runtime n) (work : List (DecodeWork F n)) : List (Fin n) :=
  (work.filter r.takes).map DecodeWork.slot

/-- One round of the loop: the batch is not decoded; a token cannot be sampled; or every
sequence that takes part gets its token. -/
inductive Round (model : LlamaModel F) (r : Runtime n) (work : List (DecodeWork F n))
    (out : RoundReply n) : Runtime n × Except Fault (List (DecodeWork F n)) → Prop
  | undecoded (kept : ℕ → Bool) (failure : out.decoded = .failure kept) :
      Round model r work out
        (r.decode (r.roundCells work) (.failure kept), refuse "decode_failed")
  | unsampled (what : PyStr) :
      Round model r work out (r.decode (r.roundCells work) .success, .error (.error what))
  | taken (r₂ : Runtime n) (work' : List (DecodeWork F n))
      (still : (r.decode (r.roundCells work) .success).Still (work.map DecodeWork.slot) r₂)
      (moved : List.Forall₂ (fun w w' => Moved model out r r₂ (r.takes w) w w') work work') :
      Round model r work out (r₂.spend (r.takers work) out.elapsed, .ok work')

theorem StateValid.spend {slot : Slot} {i : Fin n} {s : SequenceState n} (h : StateValid slot i s)
    (generationMs : ℚ) : StateValid slot i { s with generationMs } :=
  ⟨h.internal, h.live, h.prompt, h.logical, h.physical, h.nPast, h.prefilling, h.decoding, h.pending,
    h.sampler, h.ended, h.sessionPrefix⟩

theorem Runtime.Valid.spend {config : Setup} {r : Runtime n} (h : r.Valid config)
    (slots : List (Fin n)) (elapsed : ℚ) : (r.spend slots elapsed).Valid config := by
  refine ⟨h.engine, h.capacity, fun i => ?_, h.samplers, h.cache⟩
  have hslot := h.slots i
  show SlotState (r.engine.slots i) i (if i ∈ slots then _ else _)
  split_ifs
  · cases hs : r.states i with
    | none =>
      rw [hs] at hslot
      exact hslot
    | some s =>
      rw [hs] at hslot
      exact hslot.spend _
  · exact hslot

/-- A sequence after a round whose time was counted. -/
theorem Runtime.spend_states (r : Runtime n) (slots : List (Fin n)) (elapsed : ℚ) (i : Fin n) :
    (r.spend slots elapsed).states i =
      (r.states i).map fun s =>
        { s with generationMs := if i ∈ slots then s.generationMs + elapsed else s.generationMs } := by
  unfold Runtime.spend
  dsimp only
  by_cases hi : i ∈ slots
  · simp only [hi, if_true]
  · simp only [hi, if_false]
    cases r.states i with
    | none => rfl
    | some s => rfl

theorem samplingFault_none {out : RoundReply n} {slots : List (Fin n)}
    (h : samplingFault out slots = none) : ∀ i ∈ slots, ∃ token, out.samples i = .ok token := by
  induction slots with
  | nil => exact fun i hi => absurd hi List.not_mem_nil
  | cons j rest ih =>
    unfold samplingFault at h
    intro i hi
    split at h
    · exact absurd h (by simp)
    · next token hsample =>
      rcases List.mem_cons.mp hi with rfl | hi
      · exact ⟨token, hsample⟩
      · exact ih h i hi

theorem round {config : Setup} (model : LlamaModel F) {r : Runtime n} (h : r.Valid config)
    {work : List (DecodeWork F n)} (hwork : r.Decodes work) (out : RoundReply n) :
    Round model r work out (r.decodeRound model work out) ∧
      (r.decodeRound model work out).1.Valid config := by
  unfold Runtime.decodeRound
  dsimp only
  cases hdecoded : out.decoded with
  | failure kept => exact ⟨.undecoded kept hdecoded, h.decode _ _⟩
  | success =>
    dsimp only
    cases hfault : samplingFault out ((work.filter r.takes).map DecodeWork.slot) with
    | some what => exact ⟨.unsampled what, h.decode _ _⟩
    | none =>
      have hready : ∀ p ∈ work.map (fun w => (w, r.takes w)), p.2 = true →
          Ready out (r.decode (r.roundCells work) .success) p.1 := by
        intro p hp htakes
        obtain ⟨w, hw, rfl⟩ := List.mem_map.mp hp
        obtain ⟨s, hs, hdecode⟩ := hwork.valid w hw
        obtain ⟨⟨s', hs', hopen⟩, -⟩ := Runtime.takes_iff.mp htakes
        obtain rfl := Option.some_inj.mp (hs.symm.trans hs')
        have hmem : w.slot ∈ (work.filter r.takes).map DecodeWork.slot :=
          List.mem_map_of_mem (List.mem_filter.mpr ⟨hw, htakes⟩)
        obtain ⟨token, hsample⟩ := samplingFault_none hfault _ hmem
        exact ⟨s, token, hs, hdecode hopen, hsample⟩
      have hslots : (work.map (fun w => (w, r.takes w))).map (fun p => p.1.slot)
          = work.map DecodeWork.slot := by
        rw [List.map_map]
        rfl
      obtain ⟨r₂, work', heq, hvalid, hstill, hmoved⟩ := consuming model out
        (work.map fun w => (w, r.takes w)) (h.decode (r.roundCells work) .success)
        (hslots ▸ hwork.distinct) hready
      rw [hslots] at hstill
      rw [List.forall₂_map_left_iff] at hmoved
      dsimp only
      rw [heq]
      refine ⟨.taken r₂ work' hstill (hmoved.imp fun w w' hone => ?_), hvalid.spend _ _⟩
      exact hone.frame rfl rfl

/-- The steps go on with distinct sequences. -/
theorem Moved.slot {model : LlamaModel F} {out : RoundReply n} {r r' : Runtime n} {takes : Bool}
    {w w' : DecodeWork F n} (h : Moved model out r r' takes w w') :
    w'.slot = w.slot ∧ w'.handle = w.handle ∧ w'.tokenBudget = w.tokenBudget := by
  unfold Moved at h
  split_ifs at h
  · obtain ⟨s, token, htaken⟩ := h
    rw [htaken.work']
    exact ⟨rfl, rfl, rfl⟩
  · rw [h.1]
    exact ⟨rfl, rfl, rfl⟩

/-- A sequence that has not ended after its token is still decoding. -/
theorem consumedSlot_decode {s : SequenceState n} {slot : Slot} (hdecode : slot.lifecycle = .decode)
    (model : LlamaModel F) (token : Token) (sampledAt : ℚ) (spent : Bool) (hopen : s.terminal = false)
    (hgoes : (s.consumed model token sampledAt spent).1.1.terminal = false) :
    (consumedSlot slot (s.consumed model token sampledAt spent).1.2).lifecycle = .decode := by
  obtain ⟨-, hends⟩ := s.consumed_spec model token sampledAt spent hopen
  rcases hends with ⟨hnone, -⟩ | ⟨-, hterminal⟩
  · rw [hnone]
    exact hdecode
  · exact absurd (hgoes.symm.trans hterminal) (by simp)

section Rounds

variable {config : Setup} {model : LlamaModel F} {out : RoundReply n} {r r₂ : Runtime n}
  {work work' : List (DecodeWork F n)}

/-- What a round says of a step of the next one. -/
theorem moved_of_mem (hmoved : List.Forall₂ (fun w w' => Moved model out r r₂ (r.takes w) w w')
    work work') {w' : DecodeWork F n} (hw' : w' ∈ work') :
    ∃ w ∈ work, Moved model out r r₂ (r.takes w) w w' := by
  induction hmoved with
  | nil => exact absurd hw' List.not_mem_nil
  | @cons w x work rest hone _ ih =>
    rcases List.mem_cons.mp hw' with rfl | hw'
    · exact ⟨w, List.mem_cons_self, hone⟩
    · obtain ⟨w₀, hw₀, hmoved⟩ := ih hw'
      exact ⟨w₀, List.mem_cons_of_mem _ hw₀, hmoved⟩

/-- What a round does with one of its steps. -/
theorem moved_of_left (hmoved : List.Forall₂ (fun w w' => Moved model out r r₂ (r.takes w) w w')
    work work') {w : DecodeWork F n} (hw : w ∈ work) :
    ∃ w' ∈ work', Moved model out r r₂ (r.takes w) w w' := by
  induction hmoved with
  | nil => exact absurd hw List.not_mem_nil
  | @cons x w' rest work' hone _ ih =>
    rcases List.mem_cons.mp hw with rfl | hw
    · exact ⟨w', List.mem_cons_self, hone⟩
    · obtain ⟨w₀, hw₀, hmoved⟩ := ih hw
      exact ⟨w₀, List.mem_cons_of_mem _ hw₀, hmoved⟩

theorem moved_slots (hmoved : List.Forall₂ (fun w w' => Moved model out r r₂ (r.takes w) w w')
    work work') : work'.map DecodeWork.slot = work.map DecodeWork.slot := by
  induction hmoved with
  | nil => rfl
  | cons hone _ ih => rw [List.map_cons, List.map_cons, hone.slot.1, ih]

/-- A sequence that takes another token after a round took one in it. -/
theorem Moved.takes {w w' : DecodeWork F n} (hwork : r.Decodes work) (hw : w ∈ work)
    (h : Moved model out r r₂ (r.takes w) w w') {slots : List (Fin n)} {elapsed : ℚ}
    (hnext : (r₂.spend slots elapsed).takes w' = true) :
    r.takes w = true ∧ w'.tokenIds.length = w.tokenIds.length + 1 := by
  obtain ⟨⟨s', hs', hopen'⟩, hmore⟩ := Runtime.takes_iff.mp hnext
  rw [Runtime.spend_states, h.slot.1] at hs'
  have hslot := h.slot
  unfold Moved at h
  by_cases htakes : r.takes w = true
  · rw [if_pos htakes] at h
    obtain ⟨s, token, htaken⟩ := h
    refine ⟨htakes, ?_⟩
    rw [htaken.work']
    exact List.length_append
  · rw [if_neg htakes] at h
    obtain ⟨hsame, hstate, -⟩ := h
    refine absurd (Runtime.takes_iff.mpr ⟨?_, ?_⟩) htakes
    · obtain ⟨s, hs, -⟩ := hwork.valid w hw
      rw [hstate, hs] at hs'
      obtain rfl := Option.some_inj.mp hs'
      exact ⟨s, hs, hopen'⟩
    · rw [hsame] at hmore
      exact hmore

theorem Runtime.Decodes.next (hwork : r.Decodes work)
    (hmoved : List.Forall₂ (fun w w' => Moved model out r r₂ (r.takes w) w w') work work')
    (slots : List (Fin n)) (elapsed : ℚ) : (r₂.spend slots elapsed).Decodes work' := by
  refine ⟨by rw [moved_slots hmoved]; exact hwork.distinct, fun w' hw' => ?_⟩
  obtain ⟨w, hw, hone⟩ := moved_of_mem hmoved hw'
  obtain ⟨s, hs, hdecode⟩ := hwork.valid w hw
  have hslot := hone.slot.1
  unfold Moved at hone
  rw [hslot, Runtime.spend_states]
  show ∃ s' : SequenceState n, _ = some s' ∧
    (s'.terminal = false → (r₂.engine.slots w.slot).lifecycle = .decode)
  by_cases htakes : r.takes w = true
  · rw [if_pos htakes] at hone
    obtain ⟨s', token, htaken⟩ := hone
    obtain ⟨⟨s₀, hs₀, hopen⟩, -⟩ := Runtime.takes_iff.mp htakes
    obtain rfl := Option.some_inj.mp (htaken.state.symm.trans hs₀)
    rw [htaken.state']
    refine ⟨_, rfl, fun hgoes => ?_⟩
    rw [htaken.slot']
    exact consumedSlot_decode htaken.decode model token _ _ hopen hgoes
  · rw [if_neg htakes] at hone
    rw [hone.2.1, hs]
    refine ⟨_, rfl, fun hgoes => ?_⟩
    rw [hone.2.2]
    exact hdecode hgoes

end Rounds

/-- The loop of `decode_batch`: rounds follow one another until no sequence takes another token,
or one of them stops. -/
inductive DecodeRun (config : Setup) (model : LlamaModel F) (rounds : ℕ → RoundReply n) :
    ℕ → Runtime n → List (DecodeWork F n) →
      Runtime n × Except Fault (List (DecodeWork F n)) → Prop
  | done {k : ℕ} {r : Runtime n} {work : List (DecodeWork F n)} (valid : r.Valid config)
      (decodes : r.Decodes work) (rest : work.any r.takes = false) :
      DecodeRun config model rounds k r work (r, .ok work)
  | stopped {k : ℕ} {r r' : Runtime n} {work : List (DecodeWork F n)} {fault : Fault}
      (valid : r.Valid config) (decodes : r.Decodes work) (goes : work.any r.takes = true)
      (valid' : r'.Valid config) (one : Round model r work (rounds k) (r', .error fault)) :
      DecodeRun config model rounds k r work (r', .error fault)
  | next {k : ℕ} {r r' : Runtime n} {work work' : List (DecodeWork F n)}
      {result : Runtime n × Except Fault (List (DecodeWork F n))} (valid : r.Valid config)
      (decodes : r.Decodes work) (goes : work.any r.takes = true)
      (one : Round model r work (rounds k) (r', .ok work'))
      (later : DecodeRun config model rounds (k + 1) r' work' result) :
      DecodeRun config model rounds k r work result

/-- The loop ends: every round gives a token to every sequence that takes one, and no step
asks for more than the quantum. -/
theorem decodeRun {config : Setup} (model : LlamaModel F) (rounds : ℕ → RoundReply n) (fuel k : ℕ)
    {r : Runtime n} (h : r.Valid config) {work : List (DecodeWork F n)} (hwork : r.Decodes work)
    (hfuel : ∀ w ∈ work, r.takes w = true → w.tokenBudget ≤ w.tokenIds.length + fuel) :
    DecodeRun config model rounds k r work (Runtime.decodeLoop model rounds fuel k r work) := by
  induction fuel generalizing k r work with
  | zero =>
    refine .done h hwork (List.any_eq_false.mpr fun w hw htakes => ?_)
    have hbudget := hfuel w hw htakes
    have hmore := (Runtime.takes_iff.mp htakes).2
    omega
  | succ fuel ih =>
    unfold Runtime.decodeLoop
    by_cases hgoes : work.any r.takes = true
    · rw [if_pos hgoes]
      obtain ⟨hround, hvalid⟩ := round model h hwork (rounds k)
      revert hround hvalid
      generalize r.decodeRound model work (rounds k) = result
      intro hround hvalid
      obtain ⟨r', outcome⟩ := result
      cases outcome with
      | error fault => exact .stopped h hwork hgoes hvalid hround
      | ok work' =>
        refine .next h hwork hgoes hround ?_
        have hround' := hround
        cases hround with
        | taken r₂ _ still moved =>
          have hmoved : List.Forall₂ (fun w w' => Moved model (rounds k) r r₂ (r.takes w) w w') work
              work' := moved
          refine ih (k + 1) hvalid (hwork.next hmoved _ _) fun w' hw' hnext => ?_
          obtain ⟨w, hw, hone⟩ := moved_of_mem hmoved hw'
          obtain ⟨htakes, hlength⟩ := hone.takes hwork hw hnext
          have hbudget := hfuel w hw htakes
          have hsame := hone.slot.2.2
          omega
    · rw [if_neg hgoes]
      exact .done h hwork (by simpa using hgoes)

theorem DecodeRun.valid {config : Setup} {model : LlamaModel F} {rounds : ℕ → RoundReply n} {k : ℕ}
    {r : Runtime n} {work : List (DecodeWork F n)}
    {result : Runtime n × Except Fault (List (DecodeWork F n))}
    (h : DecodeRun config model rounds k r work result) : result.1.Valid config := by
  induction h with
  | done valid _ _ => exact valid
  | stopped _ _ _ valid' _ => exact valid'
  | next _ _ _ _ _ ih => exact ih

/-! ### The command -/

section Batch

variable {config : Setup} {r : Runtime config.maxSequences}

/-- A step of `decode_batch` as it begins. -/
structure DecodeWork.Begins (config : Setup) (r : Runtime config.maxSequences)
    (w : DecodeWork F config.maxSequences) : Prop where
  empty : w.tokenIds = [] ∧ w.textDelta = []
  budget : 0 < w.tokenBudget ∧ w.tokenBudget ≤ config.decodeQuantumTokens
  opened : ∃ s, r.states w.slot = some s ∧ s.terminal = false ∧
    (r.engine.slots w.slot).lifecycle = .decode

theorem decodeStep_ok (h : r.Valid config) {seen : List (Fin config.maxSequences)} {step : Value F}
    {w : DecodeWork F config.maxSequences} (hstep : decodeStep config r seen step = .ok w) :
    w.slot ∉ seen ∧ w.Begins config r ∧ ∃ s, StepFor config r step w.handle w.slot s := by
  unfold decodeStep at hstep
  obtain ⟨_, -, hstep⟩ := bind_eq_ok.mp hstep
  obtain ⟨raw, hraw, hstep⟩ := bind_eq_ok.mp hstep
  obtain ⟨budget, hbudget, hstep⟩ := bind_eq_ok.mp hstep
  obtain ⟨_, hquantum, hstep⟩ := bind_eq_ok.mp hstep
  obtain ⟨handle, hhandle, hstep⟩ := bind_eq_ok.mp hstep
  split at hstep
  · exact absurd hstep (by simp [refuse])
  · next slot generation hparse =>
    obtain ⟨_, hseen, hstep⟩ := bind_eq_ok.mp hstep
    split at hstep
    · exact absurd hstep (by simp [refuse])
    · next i s hnamed =>
      obtain ⟨_, hopen, hstep⟩ := bind_eq_ok.mp hstep
      obtain rfl := Except.ok.inj hstep
      obtain ⟨generation', hparse', hs, hgeneration⟩ := Runtime.named_eq_some.mp hnamed
      obtain ⟨rfl, rfl⟩ := Prod.mk.inj (Option.some_inj.mp (hparse.symm.trans hparse'))
      rw [check_eq_ok] at hseen hopen hquantum
      rw [h.lifecycle hs] at hopen
      exact ⟨hseen, ⟨⟨rfl, rfl⟩, ⟨positiveSize_pos hbudget, hquantum⟩, s, hs, hopen.1,
        Option.some_inj.mp hopen.2⟩, s, hhandle, hnamed⟩

theorem decodeWork_ok (h : r.Valid config) {steps : List (Value F)}
    {seen : List (Fin config.maxSequences)} {work : List (DecodeWork F config.maxSequences)}
    (hwork : decodeWork config r seen steps = .ok work) :
    (work.map DecodeWork.slot).Nodup ∧ (∀ w ∈ work, w.slot ∉ seen) ∧
      (∀ w ∈ work, w.Begins config r) ∧
      List.Forall₂ (fun step w => ∃ s, StepFor config r step w.handle w.slot s) steps work := by
  induction steps generalizing seen work with
  | nil =>
    obtain rfl := Except.ok.inj hwork
    exact ⟨List.nodup_nil, by simp, by simp, .nil⟩
  | cons step rest ih =>
    unfold decodeWork at hwork
    obtain ⟨w, hstep, hwork⟩ := bind_eq_ok.mp hwork
    obtain ⟨others, hothers, hwork⟩ := bind_eq_ok.mp hwork
    obtain rfl := Except.ok.inj hwork
    obtain ⟨hseen, hbegins, hfor⟩ := decodeStep_ok h hstep
    obtain ⟨hdistinct, hfresh, hall, hsteps⟩ := ih hothers
    refine ⟨?_, ?_, ?_, .cons hfor hsteps⟩
    · rw [List.map_cons, List.nodup_cons]
      refine ⟨fun hmem => ?_, hdistinct⟩
      obtain ⟨w', hw', heq⟩ := List.mem_map.mp hmem
      exact hfresh w' hw' (heq ▸ List.mem_cons_self)
    · intro w' hw'
      rcases List.mem_cons.mp hw' with rfl | hw'
      · exact hseen
      · exact fun hmem => hfresh w' hw' (List.mem_cons_of_mem _ hmem)
    · intro w' hw'
      rcases List.mem_cons.mp hw' with rfl | hw'
      · exact hbegins
      · exact hall w' hw'

/-- What `decode_batch` does: it is refused and changes nothing; a round stops; or the rounds
follow to the end. -/
inductive DecodeBatch (config : Setup) (model : LlamaModel F) (r : Runtime config.maxSequences)
    (command : Value F) (rounds : ℕ → RoundReply config.maxSequences) :
    Runtime config.maxSequences × Reply config.maxSequences F → Prop
  | rejected (fault : Fault) : DecodeBatch config model r command rounds (r, .fault fault)
  | stopped (steps : List (Value F)) (work : List (DecodeWork F config.maxSequences))
      (begins : ∀ w ∈ work, w.Begins config r) (command_steps : field command "steps" = .ok (.list steps))
      (steps_for : List.Forall₂ (fun step w => ∃ s, StepFor config r step w.handle w.slot s)
        steps work) (r' : Runtime config.maxSequences) (fault : Fault)
      (run : DecodeRun config model rounds 0 r work (r', .error fault)) :
      DecodeBatch config model r command rounds (r', .fault fault)
  | completed (steps : List (Value F)) (work : List (DecodeWork F config.maxSequences))
      (begins : ∀ w ∈ work, w.Begins config r) (command_steps : field command "steps" = .ok (.list steps))
      (steps_for : List.Forall₂ (fun step w => ∃ s, StepFor config r step w.handle w.slot s)
        steps work) (r' : Runtime config.maxSequences)
      (work' : List (DecodeWork F config.maxSequences))
      (run : DecodeRun config model rounds 0 r work (r', .ok work')) :
      DecodeBatch config model r command rounds
        ({ r' with log := r'.log ++ sentEntries work' }, .decodeCompleted (work'.map r'.decodeOutcome))

theorem decodeBatch (model : LlamaModel F) (h : r.Valid config) (command : Value F)
    (rounds : ℕ → RoundReply config.maxSequences) :
    DecodeBatch config model r command rounds (r.decodeBatch config model command rounds) := by
  unfold Runtime.decodeBatch
  split
  · exact .rejected _
  · next work hok =>
    obtain ⟨steps, hsteps, hwork⟩ := bind_eq_ok.mp hok
    obtain ⟨hdistinct, -, hbegins, hfor⟩ := decodeWork_ok h hwork
    have hcommand := (stepsOf_ok hsteps).1
    have hdecodes : r.Decodes work := by
      refine ⟨hdistinct, fun w hw => ?_⟩
      obtain ⟨s, hs, -, hdecode⟩ := (hbegins w hw).opened
      exact ⟨s, hs, fun _ => hdecode⟩
    have hrun := decodeRun model rounds config.decodeQuantumTokens 0 h hdecodes fun w hw _ => by
      have hbudget := (hbegins w hw).budget.2
      omega
    unfold Runtime.runDecode
    split_ifs with hbudget
    · exact .rejected _
    · revert hrun
      generalize Runtime.decodeLoop model rounds config.decodeQuantumTokens 0 r work = result
      intro hrun
      obtain ⟨r', outcome⟩ := result
      cases outcome with
      | error fault => exact .stopped steps work hbegins hcommand hfor r' fault hrun
      | ok work' => exact .completed steps work hbegins hcommand hfor r' work' hrun

end Batch

end Native
