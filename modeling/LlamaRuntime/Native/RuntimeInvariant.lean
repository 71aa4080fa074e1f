/-
What holds of the native runtime between two commands.

* `StateValid` — the engine slot of a sequence and its state count the same
  tokens;
* `Runtime.Valid` — every slot is empty in both tables or holds such a sequence, no
  sampler is attached, and the cache comes from a sequence of cache operations;
* `StepFor` — what the steps of a command are about.
-/
import LlamaRuntime.Native.Runtime

namespace Native

open Json

variable {n : ℕ} {F : Type}

/-- A sequence and the slot that the engine has for it. -/
structure StateValid (slot : Slot) (i : Fin n) (s : SequenceState n) : Prop where
  internal : s.internal = slot.handle i
  live : slot.lifecycle = .prefill ∨ slot.lifecycle = .decode ∨ slot.lifecycle = .terminal
  prompt : s.prompt.length = slot.promptTokens
  logical : s.logicalPrefillProcessed = slot.promptTokensProcessed
  physical : s.physicalPromptDecoded = min s.logicalPrefillProcessed (s.prompt.length - 1)
  nPast : s.nPast = s.physicalPromptDecoded + slot.decodedTokens
  prefilling : slot.lifecycle = .prefill → slot.decodedTokens = 0
  decoding : slot.lifecycle = .decode →
    s.logicalPrefillProcessed = s.prompt.length ∧ slot.decodedTokens < slot.outputTokenBudget
  pending : slot.decodedTokens = 0 → s.pendingToken = s.prompt.getLast?.getD 0
  sampler : s.backendReasoningSampler = false
  ended : s.terminal = true → slot.lifecycle = .terminal
  sessionPrefix : s.session ≠ none → s.cacheIdentity ≠ [] ∧ s.sessionPrefix ≠ [] ∧
    s.sessionPrefix.length ≤ s.prompt.length - 1 ∧ s.sessionPrefix <+: s.prompt

theorem StateValid.ne_released {slot : Slot} {i : Fin n} {s : SequenceState n}
    (h : StateValid slot i s) : slot.lifecycle ≠ .released := by
  rcases h.live with hl | hl | hl
  all_goals
    rw [hl]
    simp

/-- A slot of both tables. -/
def SlotState (slot : Slot) (i : Fin n) : Option (SequenceState n) → Prop
  | none => slot.lifecycle = .released
  | some s => StateValid slot i s

/-- A cache that comes from operations on the empty one. -/
def CacheHistory (config : Setup) (c : PromptCache) : Prop :=
  ∃ ops, c = (Runtime.initial config).cache.run ops

theorem CacheHistory.after {config : Setup} {c : PromptCache} (h : CacheHistory config c)
    (op : CacheOp) : CacheHistory config (c.after op) := by
  obtain ⟨ops, rfl⟩ := h
  exact ⟨ops ++ [op], (PromptCache.run_concat _ _ _).symm⟩

structure Runtime.Valid (config : Setup) (r : Runtime n) : Prop where
  engine : r.engine.Valid
  capacity : r.engine.tokenCapacity = config.kvTokens
  slots : ∀ i, SlotState (r.engine.slots i) i (r.states i)
  samplers : ∀ i, r.samplers i = false
  cache : CacheHistory config r.cache

theorem valid_initial (config : Setup) : (Runtime.initial config).Valid config :=
  ⟨Engine.valid_initial _ _, rfl, fun _ => rfl, fun _ => rfl, [], rfl⟩

namespace Runtime.Valid

variable {config : Setup} {r : Runtime n}

theorem state (h : r.Valid config) {i : Fin n} {s : SequenceState n} (hs : r.states i = some s) :
    StateValid (r.engine.slots i) i s := by
  have hslot := h.slots i
  rw [hs] at hslot
  exact hslot

theorem released_iff (h : r.Valid config) (i : Fin n) :
    (r.engine.slots i).lifecycle = .released ↔ r.states i = none := by
  have hslot := h.slots i
  cases hs : r.states i with
  | none =>
    rw [hs] at hslot
    exact ⟨fun _ => rfl, fun _ => hslot⟩
  | some s =>
    rw [hs] at hslot
    exact ⟨fun hr => absurd hr hslot.ne_released, fun hn => absurd hn (by simp)⟩

/-- One slot is replaced in both tables. -/
theorem replace (h : r.Valid config) {r' : Runtime n} (i : Fin n) (hengine : r'.engine.Valid)
    (hcapacity : r'.engine.tokenCapacity = r.engine.tokenCapacity)
    (hslots : ∀ j ≠ i, r'.engine.slots j = r.engine.slots j)
    (hstates : ∀ j ≠ i, r'.states j = r.states j)
    (hslot : SlotState (r'.engine.slots i) i (r'.states i))
    (hsamplers : ∀ j, r'.samplers j = false) (hcache : CacheHistory config r'.cache) :
    r'.Valid config := by
  refine ⟨hengine, hcapacity.trans h.capacity, fun j => ?_, hsamplers, hcache⟩
  by_cases hj : j = i
  · exact hj ▸ hslot
  · rw [hslots j hj, hstates j hj]
    exact h.slots j

end Runtime.Valid

/-- Only the memory and the log change. -/
theorem Runtime.Valid.tables {config : Setup} {r r' : Runtime n} (h : r.Valid config)
    (hengine : r'.engine = r.engine) (hstates : r'.states = r.states) (hcache : r'.cache = r.cache)
    (hsamplers : r'.samplers = r.samplers) : r'.Valid config := by
  refine ⟨hengine ▸ h.engine, hengine ▸ h.capacity, fun i => ?_, fun i => ?_, hcache ▸ h.cache⟩
  · rw [hengine, hstates]
    exact h.slots i
  · rw [hsamplers]
    exact h.samplers i

theorem Runtime.Valid.decode {config : Setup} {r : Runtime n} (h : r.Valid config)
    (batch : List (Fin n × Cell)) (answer : DecodeAnswer) : (r.decode batch answer).Valid config :=
  h.tables rfl rfl rfl rfl

theorem Runtime.named_eq_some {config : Setup} {r : Runtime config.maxSequences} {handle : Value F}
    {i : Fin config.maxSequences} {s : SequenceState config.maxSequences} :
    r.named config handle = some (i, s) ↔ ∃ generation,
      parsePublicHandle config handle = some (i, generation) ∧ r.states i = some s ∧
        s.internal.generation = generation := by
  unfold Runtime.named
  cases hparse : parsePublicHandle config handle with
  | none => simp
  | some found =>
    obtain ⟨slot, generation⟩ := found
    dsimp only
    constructor
    · intro h
      split at h
      · exact absurd h (by simp)
      · next s' hs =>
        split_ifs at h with hgeneration
        obtain ⟨rfl, rfl⟩ := Prod.mk.inj (Option.some_inj.mp h)
        exact ⟨generation, rfl, hs, hgeneration⟩
    · rintro ⟨_, heq, hs, hgeneration⟩
      obtain ⟨rfl, rfl⟩ := Prod.mk.inj (Option.some_inj.mp heq)
      rw [hs]
      exact if_pos hgeneration

/-- The engine knows the sequences of the table. -/
theorem Runtime.Valid.lifecycle {config : Setup} {r : Runtime n} (h : r.Valid config) {i : Fin n}
    {s : SequenceState n} (hs : r.states i = some s) :
    r.lifecycle s = some (r.engine.slots i).lifecycle := by
  have hstate := h.state hs
  unfold Runtime.lifecycle
  rw [hstate.internal, Engine.snapshot, Engine.find_handle hstate.ne_released]
  rfl

/-! ### The steps of a command -/

theorem stepsOf_ok {command : Value F} {most : ℕ} {what : String} {steps : List (Value F)}
    (h : stepsOf command most what = .ok steps) :
    field command "steps" = .ok (.list steps) ∧ steps ≠ [] ∧ steps.length ≤ most := by
  unfold stepsOf at h
  obtain ⟨_, -, h⟩ := bind_eq_ok.mp h
  obtain ⟨raw, hraw, h⟩ := bind_eq_ok.mp h
  split at h
  · obtain ⟨_, hlength, h⟩ := bind_eq_ok.mp h
    obtain rfl := Except.ok.inj h
    exact ⟨hraw, check_eq_ok.mp hlength⟩
  · exact absurd h (by simp [refuse])

theorem exists_of_mem_right {α β : Type} {R : α → β → Prop} {l : List α} {u : List β}
    (h : List.Forall₂ R l u) {b : β} (hb : b ∈ u) : ∃ a ∈ l, R a b := by
  obtain ⟨i, hi, rfl⟩ := List.mem_iff_getElem.mp hb
  have hlength : i < l.length := by
    rw [h.length_eq]
    exact hi
  exact ⟨l[i], List.getElem_mem hlength, h.get hlength hi⟩

/-- What a step of a command is about. -/
structure StepFor (config : Setup) (r : Runtime config.maxSequences) (step handle : Value F)
    (i : Fin config.maxSequences) (s : SequenceState config.maxSequences) : Prop where
  field : field step "handle" = .ok handle
  named : r.named config handle = some (i, s)

/-- Only one slot of both tables changes, and the memory does not. -/
structure Runtime.Frame (i : Fin n) (r r' : Runtime n) : Prop where
  states : ∀ j ≠ i, r'.states j = r.states j
  slots : ∀ j ≠ i, r'.engine.slots j = r.engine.slots j
  memory : r'.memory = r.memory

theorem Runtime.Frame.refl (i : Fin n) (r : Runtime n) : r.Frame i r :=
  ⟨fun _ _ => rfl, fun _ _ => rfl, rfl⟩

theorem Runtime.Frame.trans {i : Fin n} {r r' r'' : Runtime n} (h : r.Frame i r')
    (h' : r'.Frame i r'') : r.Frame i r'' :=
  ⟨fun j hj => (h'.states j hj).trans (h.states j hj),
    fun j hj => (h'.slots j hj).trans (h.slots j hj), h'.memory.trans h.memory⟩

end Native
