/-
What `open_sequence` does.

* `OpenedAs` — how a sequence begins: with no token, or with those of a snapshot;
* `Opening` — a request is refused, gives up the slot it was given, or opens a
  sequence in a slot (`opening`);
* `Runtime.Valid.opening` — the invariant is kept.
-/
import LlamaRuntime.Native.RuntimeInvariant

namespace Native

open Json

variable {n : ℕ} {F : Type}

/-- A slot that a sequence was given. -/
def openSlot (slot : Slot) (q : OpenRequest) (cached : ℕ) : Slot where
  generation := nextGeneration slot.generation
  requestId := q.requestId
  attemptId := q.attemptId
  lifecycle := .prefill
  finishReason := .none
  promptTokens := q.prompt.length
  outputTokenBudget := q.totalTokens
  promptTokensProcessed := cached
  decodedTokens := 0

/-- The handle of a sequence that a request gets in this slot. -/
def openHandle (slot : Slot) (i : Fin n) (q : OpenRequest) : Handle n :=
  ⟨i, nextGeneration slot.generation, q.requestId, q.attemptId⟩

/-- How a sequence begins: with no token, or with those of a snapshot. -/
inductive OpenedAs (config : Setup) (r : Runtime n) (i : Fin n) (q : OpenRequest) :
    ℕ → SequenceState n → (Fin n → List Cell) → Prop
  | plain (openedAt : ℚ) (memory : Fin n → List Cell)
      (cleared : memory = r.memory ∨ memory = Function.update r.memory i []) :
      OpenedAs config r i q 0 (q.state config (openHandle (r.engine.slots i) i q) openedAt) memory
  | restored (openedAt : ℚ) (e : CacheEntry) (mem : e ∈ r.cache.entries)
      (identity : e.identity = q.cacheIdentity config) (shares : q.cacheIdentity config ≠ [])
      (nonempty : e.tokens ≠ []) (leading : e.tokens <+: q.prompt)
      (proper : e.tokens.length < q.prompt.length) (exact : Bool) :
      OpenedAs config r i q e.tokens.length
        ((q.state config (openHandle (r.engine.slots i) i q) openedAt).restored
          ⟨e.tokens.length, exact⟩)
        (Function.update r.memory i e.state.cells)

/-- The process with a new sequence. -/
def Runtime.withSequence (r : Runtime n) (i : Fin n) (slot : Slot) (s : SequenceState n)
    (cache : PromptCache) (memory : Fin n → List Cell) : Runtime n where
  engine := r.engine.enter i slot slot.reservation
  states := Function.update r.states i (some s)
  cache
  memory
  samplers := r.samplers
  log := r.log ++ [.opened i]

/-- What `open_sequence` does: it is refused and leaves both tables; it takes a slot and
gives it up again; or it opens a sequence in a slot. -/
inductive Opening (config : Setup) (model : LlamaModel F) (r : Runtime n) (command : Value F) :
    Runtime n × Reply n F → Prop
  | refused (cache : PromptCache) (history : CacheHistory config cache)
      (kept : PromptCache.Kept r.cache cache) (refusal : Refusal) :
      Opening config model r command ({ r with cache }, .commandError refusal)
  | missing (i : Fin n) (free : r.states i = none) (generation : ℕ) (cache : PromptCache)
      (history : CacheHistory config cache) (kept : PromptCache.Kept r.cache cache)
      (memory : Fin n → List Cell)
      (cleared : memory = r.memory ∨ memory = Function.update r.memory i [])
      (refusal : Refusal) :
      Opening config model r command
        ({ r with engine := r.engine.put i (Slot.empty generation), cache, memory },
          .commandError refusal)
  | opened (i : Fin n) (free : r.states i = none) (q : OpenRequest)
      (request : openRequest config model command = .ok q)
      (fits : q.prompt.length + q.totalTokens ≤ r.engine.tokenCapacity - r.engine.reservedTokens)
      (cached : ℕ) (s : SequenceState n) (memory : Fin n → List Cell)
      (begins : OpenedAs config r i q cached s memory) (cache : PromptCache)
      (history : CacheHistory config cache) (kept : PromptCache.Kept r.cache cache) :
      Opening config model r command
        (r.withSequence i (openSlot (r.engine.slots i) q cached) s cache memory,
          Runtime.openedReply s (q.prompt.length + q.totalTokens))

/-- What a restore operation returns is the length of what it loads. -/
theorem restoreWith_some {c : PromptCache} {op : CacheOp} {found : CacheRestore}
    (h : c.restoreWith op = some found) :
    ∃ e, c.loaded op = some e ∧ found.cachedTokens = e.tokens.length := by
  cases op with
  | restore identity tokens reply =>
    change (c.restore identity tokens reply).2.1 = some found at h
    show ∃ e, (c.restore identity tokens reply).2.2 = some e ∧ _
    unfold PromptCache.restore at h ⊢
    by_cases henabled : c.enabled = false ∨ tokens.length ≤ 1
    · rw [if_pos henabled] at h
      exact absurd h (by simp)
    rw [if_neg henabled] at h ⊢
    dsimp only at h ⊢
    split at h
    · exact absurd h (by simp)
    · next e place hbest =>
      by_cases hrestored : reply.restored = false
      · rw [if_pos hrestored] at h
        exact absurd h (by simp)
      · rw [if_neg hrestored] at h ⊢
        obtain rfl := Option.some_inj.mp h
        exact ⟨e, rfl, rfl⟩
  | restoreSession identity sessionId generation tokens reply =>
    change (c.restoreSession identity sessionId generation tokens reply).2.1 = some found at h
    show ∃ e, (c.restoreSession identity sessionId generation tokens reply).2.2 = some e ∧ _
    unfold PromptCache.restoreSession at h ⊢
    by_cases henabled : c.enabled = false ∨ tokens.length ≤ 1
    · rw [if_pos henabled] at h
      exact absurd h (by simp)
    rw [if_neg henabled] at h ⊢
    dsimp only at h ⊢
    split at h
    · exact absurd h (by simp)
    · next e place hfind =>
      by_cases hlength : tokens.length - 1 < e.tokens.length ∨ ¬ e.tokens <+: tokens
      · rw [if_pos hlength] at h
        exact absurd h (by simp)
      rw [if_neg hlength] at h ⊢
      by_cases hrestored : reply.restored = false
      · rw [if_pos hrestored] at h
        exact absurd h (by simp)
      · rw [if_neg hrestored] at h ⊢
        obtain rfl := Option.some_inj.mp h
        exact ⟨e, rfl, rfl⟩
  | _ => exact absurd h (by simp [PromptCache.restoreWith])

/-- The restore operation of a sequence is for its identity and its prompt. -/
theorem restoresFor_restoreOp {s : SequenceState n} {reply : RestoreReply} {identity : PyStr}
    {prompt : List Token}
    (h : PromptCache.RestoresFor identity prompt (s.restoreOp reply)) :
    identity = s.cacheIdentity ∧ prompt = s.prompt := by
  unfold SequenceState.restoreOp at h
  split at h
  · exact ⟨h.1.symm, h.2.symm⟩
  · exact ⟨h.1.symm, h.2.symm⟩

theorem kept_restoreOp (c : PromptCache) (s : SequenceState n) (reply : RestoreReply) :
    PromptCache.Kept c (c.after (s.restoreOp reply)) := by
  unfold SequenceState.restoreOp
  split
  · exact PromptCache.kept_restoreSession c _ _ _ _ _
  · exact PromptCache.kept_restore c _ _ _

/-- What is loaded into a new sequence. -/
theorem loaded_restoreOp {config : Setup} {c : PromptCache} (history : CacheHistory config c)
    {s : SequenceState n} {reply : RestoreReply} {e : CacheEntry}
    (h : c.loaded (s.restoreOp reply) = some e) :
    e ∈ c.entries ∧ e.identity = s.cacheIdentity ∧ e.tokens ≠ [] ∧ e.tokens <+: s.prompt ∧
      e.tokens.length < s.prompt.length := by
  obtain ⟨hmem, prompt, hfor, hleading, hlength, hlong⟩ := PromptCache.loaded_cases h
  obtain ⟨hidentity, rfl⟩ := restoresFor_restoreOp hfor
  obtain ⟨ops, rfl⟩ := history
  exact ⟨hmem, hidentity, (PromptCache.provenance_run rfl ops e hmem).1, hleading, by omega⟩

/-- A new sequence takes over the tokens of a snapshot. -/
theorem advancePrefill_enter (e : Engine n) (i : Fin n) (slot : Slot) (q : OpenRequest)
    {cached : ℕ} (hpos : 0 < cached) (hlt : cached < q.prompt.length) (reservation : ℕ) :
    (e.enter i (openSlot slot q 0) reservation).advancePrefill (openHandle slot i q) cached
      = (.applied, e.enter i (openSlot slot q cached) reservation) := by
  have hlive : (openSlot slot q 0).lifecycle ≠ .released := by simp [openSlot]
  refine (Engine.onSlot_enter hlive reservation _).trans ?_
  have hamount : ¬ (cached = 0 ∨ (openSlot slot q 0).promptTokens -
      (openSlot slot q 0).promptTokensProcessed < cached) := by
    simp only [openSlot]
    omega
  have hpartial : ¬ (openSlot slot q 0).promptTokensProcessed + cached
      = (openSlot slot q 0).promptTokens := by
    simp only [openSlot]
    omega
  have hprefill : ¬ (openSlot slot q 0).lifecycle ≠ .prefill := by simp [openSlot]
  rw [if_neg hprefill, if_neg hamount, if_neg hpartial]
  simp [openSlot]

/-- A new sequence whose parent is missing leaves its slot. -/
theorem leave_enter (e : Engine n) (i : Fin n) (slot : Slot) (q : OpenRequest) :
    ((e.enter i (openSlot slot q 0) (openSlot slot q 0).reservation).cancel
        (openHandle slot i q)).2.release (openHandle slot i q)
      = (.released, e.put i (Slot.empty (nextGeneration slot.generation))) := by
  have hlive : (openSlot slot q 0).lifecycle ≠ .released := by simp [openSlot]
  have hcancel := Engine.onSlot_enter (e := e) (i := i) hlive (openSlot slot q 0).reservation
    fun s => if s.lifecycle ∉ [Lifecycle.admitted, .prefill, .decode] then (.invalidState, s)
      else (.applied, { s with lifecycle := .terminal, finishReason := .cancelled })
  have hprefill : ¬ (openSlot slot q 0).lifecycle ∉ [Lifecycle.admitted, .prefill, .decode] := by
    simp [openSlot]
  rw [if_neg hprefill] at hcancel
  have heq : (e.enter i (openSlot slot q 0) (openSlot slot q 0).reservation).cancel
      (openHandle slot i q) = _ := hcancel
  rw [heq]
  exact Engine.release_enter (e := e) (i := i) rfl

/-- A sequence that has its slot is restored. -/
theorem restoring {config : Setup} {model : LlamaModel F} {r : Runtime n} {i : Fin n}
    (free : r.states i = none) (history : CacheHistory config r.cache) {q : OpenRequest}
    {command : Value F} (request : openRequest config model command = .ok q)
    (fits : q.prompt.length + q.totalTokens ≤ r.engine.tokenCapacity - r.engine.reservedTokens)
    (openedAt : ℚ) (reply : RestoreReply) {slot : Slot}
    (hslot : slot = openSlot (r.engine.slots i) q 0) {s : SequenceState n}
    (hs : s = q.state config (openHandle (r.engine.slots i) i q) openedAt) :
    Opening config model r command
      (({ r with engine := r.engine.enter i slot slot.reservation }.putState i s).restoreSequence i s
        (q.prompt.length + q.totalTokens) reply) := by
  have hcache : s.cacheIdentity = q.cacheIdentity config := by rw [hs]; rfl
  have hprompt : s.prompt = q.prompt := by rw [hs]; rfl
  have hinternal : s.internal = openHandle (r.engine.slots i) i q := by rw [hs]; rfl
  unfold Runtime.restoreSequence
  by_cases hshares : s.cacheIdentity = []
  · rw [if_pos hshares, hslot]
    subst hs
    exact .opened i free q request fits 0 _ r.memory (.plain openedAt _ (.inl rfl)) r.cache history
      (.refl _)
  rw [if_neg hshares]
  dsimp only [Runtime.putState]
  generalize hop : s.restoreOp reply = op
  have hafter : CacheHistory config (r.cache.after op) := history.after op
  have hkept : PromptCache.Kept r.cache (r.cache.after op) := by
    rw [← hop]
    exact kept_restoreOp r.cache s reply
  cases hfound : r.cache.restoreWith op with
  | none =>
    have hcells : ({ r with
        engine := r.engine.enter i slot slot.reservation
        states := Function.update r.states i (some s) } : Runtime n).restoreCells i op = r.memory ∨
        ({ r with
          engine := r.engine.enter i slot slot.reservation
          states := Function.update r.states i (some s) } : Runtime n).restoreCells i op
          = Function.update r.memory i [] := by
      unfold Runtime.restoreCells
      dsimp only
      rw [hfound]
      cases r.cache.loaded op with
      | none => exact .inl rfl
      | some e => exact .inr rfl
    dsimp only
    by_cases hparent : s.parent.isSome = true
    · have hstates : Function.update (Function.update r.states i (some s)) i none = r.states := by
        rw [Function.update_idem, ← free, Function.update_eq_self]
      rw [if_pos hparent, hinternal, hslot, leave_enter, hstates]
      rw [hslot] at hcells
      exact .missing i free _ _ hafter hkept _ hcells _
    · rw [if_neg hparent, hslot]
      rw [hslot] at hcells
      subst hs
      exact .opened i free q request fits 0 _ _ (.plain openedAt _ hcells) _ hafter hkept
  | some found =>
    obtain ⟨e, hloaded, hlength⟩ := restoreWith_some hfound
    obtain ⟨hmem, hidentity, hnonempty, hleading, hproper⟩ :=
      loaded_restoreOp history (hop ▸ hloaded)
    have hpos := List.length_pos_of_ne_nil hnonempty
    have hcells : ({ r with
        engine := r.engine.enter i slot slot.reservation
        states := Function.update r.states i (some s) } : Runtime n).restoreCells i op
          = Function.update r.memory i e.state.cells := by
      unfold Runtime.restoreCells
      dsimp only
      rw [hfound, hloaded]
    have hadvance : (r.engine.enter i slot slot.reservation).advancePrefill s.internal
        found.cachedTokens = (.applied,
          r.engine.enter i (openSlot (r.engine.slots i) q e.tokens.length) slot.reservation) := by
      rw [hslot, hinternal, hlength]
      exact advancePrefill_enter _ _ _ _ hpos (hprompt ▸ hproper) _
    have hsame : (s.restored found).internal = s.internal := rfl
    obtain ⟨cachedTokens, exact⟩ := found
    dsimp only at hlength ⊢
    subst hlength
    simp only [hsame, hadvance, hcells, if_true, Function.update_idem]
    subst hs hslot
    exact .opened i free q request fits e.tokens.length _ _
      (.restored openedAt e hmem hidentity hshares hnonempty hleading hproper exact)
      _ hafter hkept

/-- The cache a process had before does not matter to what is done. -/
theorem Opening.of_cache {config : Setup} {model : LlamaModel F} {r : Runtime n} {command : Value F}
    {cache : PromptCache} (sub : ∀ e ∈ cache.entries, e ∈ r.cache.entries)
    {result : Runtime n × Reply n F} (h : Opening config model { r with cache } command result) :
    Opening config model r command result := by
  have hfirst : PromptCache.Kept r.cache cache := fun e he => ⟨e, sub e he, .refl e⟩
  rcases h with ⟨cache', history, kept, refusal⟩ |
    ⟨i, free, generation, cache', history, kept, memory, cleared, refusal⟩ |
    ⟨i, free, q, request, fits, cached, s, memory, begins, cache', history, kept⟩
  · exact .refused (r := r) cache' history (hfirst.trans kept) refusal
  · exact .missing (r := r) i free generation cache' history (hfirst.trans kept) memory cleared refusal
  · refine .opened (r := r) i free q request fits cached s memory ?_ cache' history
      (hfirst.trans kept)
    rcases begins with ⟨openedAt, _, cleared⟩ |
      ⟨openedAt, e, mem, identity, shares, nonempty, leading, proper, exact⟩
    · exact .plain openedAt memory cleared
    · exact .restored openedAt e (sub e mem) identity shares nonempty leading proper exact

/-- The engine starts what it admitted. -/
theorem startPrefill_enter (e : Engine n) (i : Fin n) (slot : Slot) (q : OpenRequest)
    (reservation : ℕ) :
    (e.enter i (Engine.admittedSlot slot q.requestId q.attemptId q.prompt.length q.totalTokens)
        reservation).startPrefill (openHandle slot i q)
      = (.applied, e.enter i (openSlot slot q 0) reservation) := by
  have hlive : (Engine.admittedSlot slot q.requestId q.attemptId q.prompt.length q.totalTokens).lifecycle
      ≠ .released := by
    simp [Engine.admittedSlot]
  refine (Engine.onSlot_enter hlive reservation _).trans ?_
  rw [if_neg (by simp [Engine.admittedSlot])]
  rfl

theorem admitting {config : Setup} {model : LlamaModel F} {r : Runtime n} (h : r.Valid config)
    {cache : PromptCache} (history : CacheHistory config cache)
    (sub : ∀ e ∈ cache.entries, e ∈ r.cache.entries) {q : OpenRequest} {command : Value F}
    (request : openRequest config model command = .ok q) (out : OpenReply) :
    Opening config model r command (({ r with cache } : Runtime n).admitSequence config q out) := by
  unfold Runtime.admitSequence
  have hadmission :=
    r.engine.admission q.requestId q.attemptId q.prompt.length q.totalTokens
  dsimp only
  generalize r.engine.admitSequence q.requestId q.attemptId q.prompt.length q.totalTokens
    = admitted at hadmission
  rcases hadmission with status | ⟨i, free, named, sized, fits⟩
  · exact .refused cache history (fun e he => ⟨e, sub e he, .refl e⟩) _
  · have hstates := (h.released_iff i).mp free
    have hstart := startPrefill_enter r.engine i (r.engine.slots i) q
      (q.prompt.length + q.totalTokens)
    have hhandle : (Engine.admittedSlot (r.engine.slots i) q.requestId q.attemptId q.prompt.length
        q.totalTokens).handle i = openHandle (r.engine.slots i) i q := rfl
    dsimp only
    rw [hhandle]
    simp only [hstart, if_true]
    exact (restoring (r := { r with cache }) hstates history request fits out.openedAt out.restore
      rfl rfl).of_cache sub

/-- **What `open_sequence` does.** -/
theorem opening {config : Setup} (model : LlamaModel F) {r : Runtime n} (h : r.Valid config)
    (command : Value F) (out : OpenReply) :
    Opening config model r command (r.openSequence config model command out) := by
  unfold Runtime.openSequence
  cases hrequest : openRequest config model command with
  | error refusal => exact .refused r.cache h.cache (.refl _) refusal
  | ok q =>
    dsimp only
    split
    · next sessionId _ _ =>
      have hchecked : CacheHistory config (r.cache.sessionRootAllowed (q.cacheIdentity config)
          sessionId q.requestId out.rootAt).1 :=
        h.cache.after (.sessionRootAllowed (q.cacheIdentity config) sessionId q.requestId out.rootAt)
      have hsub : ∀ e ∈ (r.cache.sessionRootAllowed (q.cacheIdentity config) sessionId q.requestId
          out.rootAt).1.entries, e ∈ r.cache.entries := fun e he => List.mem_of_mem_filter he
      split_ifs
      · exact admitting h hchecked hsub hrequest out
      · exact .refused _ hchecked (fun e he => ⟨e, hsub e he, .refl e⟩) _
    · exact admitting h h.cache (fun _ he => he) hrequest out

theorem slotValid_openSlot {config : Setup} {model : LlamaModel F} {q : OpenRequest}
    (valid : q.Valid config model) (slot : Slot) {cached : ℕ} (h : cached < q.prompt.length) :
    Engine.SlotValid (openSlot slot q cached) := by
  have hlength := List.length_pos_of_ne_nil valid.prompt
  exact ⟨fun hr => absurd hr (by simp [openSlot]), fun _ => valid.named, fun _ => ⟨hlength, valid.total⟩,
    h.le, Nat.zero_le _, fun _ => h⟩

/-- How a sequence begins: it counts the tokens that were cached. -/
theorem OpenedAs.state {config : Setup} {model : LlamaModel F} {r : Runtime n} {i : Fin n}
    {q : OpenRequest} (valid : q.Valid config model) {cached : ℕ} {s : SequenceState n}
    {memory : Fin n → List Cell} (h : OpenedAs config r i q cached s memory) :
    cached < q.prompt.length ∧ StateValid (openSlot (r.engine.slots i) q cached) i s := by
  have hlength := List.length_pos_of_ne_nil valid.prompt
  have hprefix : q.session ≠ none → q.cacheIdentity config ≠ [] ∧ q.sessionPrefix ≠ [] ∧
      q.sessionPrefix.length ≤ q.prompt.length - 1 ∧ q.sessionPrefix <+: q.prompt := by
    intro hsession
    refine ⟨?_, valid.sessionPrefix hsession⟩
    obtain ⟨control, hcontrol⟩ := Option.ne_none_iff_exists'.mp hsession
    obtain ⟨-, henabled, hscope⟩ := valid.session control hcontrol
    obtain ⟨scope, hscope⟩ := Option.ne_none_iff_exists'.mp hscope
    unfold OpenRequest.cacheIdentity cacheIdentity
    rw [henabled, hscope]
    simp
  rcases h with ⟨openedAt, _, -⟩ | ⟨openedAt, e, -, -, -, -, -, proper, exact⟩
  · exact ⟨hlength, rfl, .inl rfl, rfl, rfl, by simp [OpenRequest.state], rfl, fun _ => rfl,
      fun hd => absurd hd (by simp [openSlot]), fun _ => rfl, rfl,
      fun ht => absurd ht (by simp [OpenRequest.state]), hprefix⟩
  · refine ⟨proper, rfl, .inl rfl, rfl, rfl, ?_, rfl, fun _ => rfl,
      fun hd => absurd hd (by simp [openSlot]), fun _ => rfl, rfl,
      fun ht => absurd ht (by simp [OpenRequest.state, SequenceState.restored]), hprefix⟩
    show e.tokens.length = min e.tokens.length (q.prompt.length - 1)
    omega

theorem Runtime.Valid.opening {config : Setup} {model : LlamaModel F} {r : Runtime n}
    (h : r.Valid config) {command : Value F} {result : Runtime n × Reply n F}
    (hopening : Opening config model r command result) : result.1.Valid config := by
  rcases hopening with ⟨cache, history, -, refusal⟩ |
    ⟨i, free, generation, cache, history, -, memory, -, refusal⟩ |
    ⟨i, free, q, request, fits, cached, s, memory, begins, cache, history, -⟩
  · exact ⟨h.engine, h.capacity, h.slots, h.samplers, history⟩
  · have hreleased := (h.released_iff i).mpr free
    refine h.replace i (h.engine.put_empty hreleased generation) rfl
      (fun j hj => Function.update_of_ne hj _ _) (fun j _ => rfl) ?_ h.samplers history
    show SlotState (Function.update r.engine.slots i (Slot.empty generation) i) i (r.states i)
    rw [Function.update_self, free]
    rfl
  · have hreleased := (h.released_iff i).mpr free
    have valid := openRequest_ok request
    obtain ⟨hcached, hstate⟩ := begins.state valid
    have hslot := slotValid_openSlot valid (r.engine.slots i) hcached
    refine h.replace i (h.engine.enter hreleased hslot (by simp [openSlot]) rfl fits) rfl
      (fun j hj => Function.update_of_ne hj _ _) (fun j hj => Function.update_of_ne hj _ _) ?_
      h.samplers history
    show SlotState (Function.update r.engine.slots i _ i) i (Function.update r.states i (some s) i)
    rw [Function.update_self, Function.update_self]
    exact hstate

end Native
