/-
Opening a sequence, as a whole.

* `AtomicOpen`, `open_atomic` — a refused `open_sequence` leaves the tables as they were,
  and one that is answered with a sequence changed one slot;
* `cache_isolated` — what requests share their cache identity, and what is loaded
  into a sequence.
-/
import LlamaRuntime.Native.ReachableStates

namespace Native

open Json

variable {n : ℕ} {F : Type}

/-! ### Atomicity -/

/-- The tables are as they were, but for the generations of free slots. -/
structure Runtime.SameTables (r r' : Runtime n) : Prop where
  active : r'.engine.activeSequences = r.engine.activeSequences
  reserved : r'.engine.reservedTokens = r.engine.reservedTokens
  states : r'.states = r.states
  lifecycle : ∀ i, (r'.engine.slots i).lifecycle = (r.engine.slots i).lifecycle
  slots : ∀ i, r'.engine.slots i = r.engine.slots i ∨
    r.states i = none ∧ ∃ generation, r'.engine.slots i = Slot.empty generation

/-- One slot was free and is being prefilled, for a request of so many tokens. -/
structure Runtime.OneOpened (r r' : Runtime n) (i : Fin n) (amount : ℕ) : Prop where
  free : (r.engine.slots i).lifecycle = .released ∧ r.states i = none
  prefill : (r'.engine.slots i).lifecycle = .prefill ∧ ∃ s, r'.states i = some s
  reservation : (r'.engine.slots i).reservation = amount
  reserved : r'.engine.reservedTokens = r.engine.reservedTokens + amount
  active : r'.engine.activeSequences = r.engine.activeSequences + 1
  others : ∀ j ≠ i, r'.engine.slots j = r.engine.slots j ∧ r'.states j = r.states j

/-- What an answer to `open_sequence` says of the tables. -/
def AtomicOpen (config : Setup) (model : LlamaModel F) (r r' : Runtime n) (command : Value F) :
    Reply n F → Prop
  | .commandError _ => r.SameTables r'
  | .sequenceOpened handle prompt reserved _ _ => ∃ q, openRequest config model command = .ok q ∧
      prompt = q.prompt.length ∧ reserved = q.prompt.length + q.totalTokens ∧
      r.OneOpened r' handle.slot reserved
  | _ => False

theorem Opening.atomic {config : Setup} {model : LlamaModel F} {r : Runtime n} (h : r.Valid config)
    {command : Value F} {result : Runtime n × Reply n F}
    (hopening : Opening config model r command result) :
    AtomicOpen config model r result.1 command result.2 := by
  rcases hopening with ⟨cache, -, -, refusal⟩ |
    ⟨i, free, generation, cache, -, -, memory, -, refusal⟩ |
    ⟨i, free, q, request, fits, cached, s, memory, begins, cache, -, -⟩
  · exact ⟨rfl, rfl, rfl, fun _ => rfl, fun _ => .inl rfl⟩
  · -- the slot was free before, and is free again
    have hreleased := (h.released_iff i).mpr free
    have hslots : ∀ j, Function.update r.engine.slots i (Slot.empty generation) j = r.engine.slots j ∨
        j = i ∧ Function.update r.engine.slots i (Slot.empty generation) j = Slot.empty generation := by
      intro j
      by_cases hj : j = i
      · subst hj
        exact .inr ⟨rfl, Function.update_self _ _ _⟩
      · exact .inl (Function.update_of_ne hj _ _)
    refine ⟨rfl, rfl, rfl, fun j => ?_, fun j => ?_⟩
    · show (Function.update r.engine.slots i (Slot.empty generation) j).lifecycle = _
      rcases hslots j with hsame | ⟨rfl, hempty⟩
      · rw [hsame]
      · rw [hempty, hreleased]
        rfl
    · rcases hslots j with hsame | ⟨rfl, hempty⟩
      · exact .inl hsame
      · exact .inr ⟨free, generation, hempty⟩
  · have hstate := (begins.state (openRequest_ok request)).2
    have hinternal : s.internal.slot = i := by
      rw [hstate.internal]
      rfl
    have hprompt : s.prompt.length = q.prompt.length := hstate.prompt
    refine ⟨q, request, hprompt, rfl, ?_⟩
    rw [hinternal]
    refine ⟨⟨(h.released_iff i).mpr free, free⟩, ⟨?_, s, Function.update_self _ _ _⟩, ?_, rfl, rfl,
      fun j hj => ⟨Function.update_of_ne hj _ _, Function.update_of_ne hj _ _⟩⟩
    · show (Function.update r.engine.slots i _ i).lifecycle = .prefill
      rw [Function.update_self]
      rfl
    · show (Function.update r.engine.slots i _ i).reservation = _
      rw [Function.update_self]
      rfl

/-- **`open_sequence` is atomic.**  In every reachable state, an `open_sequence` that is answered
with `command_error` leaves the counters, the lifecycles and the states as they were; one that is
answered with `sequence_opened` changed one slot, from released to prefill, which reserves the
prompt and `total_tokens`; and it is answered in one of these two ways. -/
theorem open_atomic (config : Setup) (model : LlamaModel F)
    (inputs : List (Input F config.maxSequences)) (input : Input F config.maxSequences)
    (command : Value F) (line : input.line = some command)
    (type : commandType command = .ok (py "open_sequence")) :
    AtomicOpen config model (run config model inputs) (run config model (inputs ++ [input])) command
      (step config model (run config model inputs) input).2 := by
  have hvalid := valid_run config model inputs
  have hstepped : step config model (run config model inputs) input
      = (run config model inputs).openSequence config model command input.out.opening := by
    unfold step
    rw [line]
    dsimp only
    rw [type]
    rfl
  rw [run_concat, hstepped]
  exact (opening model hvalid command input.out.opening).atomic hvalid

/-! ### A process to run -/

/-- A process with two slots. -/
def sampleSetup : Setup where
  backendId := py "llama"
  modelId := py "m"
  modelManifestDigest := py
    "sha256:0000000000000000000000000000000000000000000000000000000000000000"
  maxSequences := 2
  kvTokens := 200
  prefillChunkTokens := 64
  maxDecodeBatch := 2
  decodeQuantumTokens := 4
  tickTokenBudget := 64
  cacheEnabled := true
  cacheByteBudget := 100
  cacheMaxEntries := 4
  cacheTtl := 10
  nBatch := 64
  perSequenceContext := 100

/-- A model whose tokens are characters; the reply opens with a token of its own. -/
def sampleModel : LlamaModel Empty where
  render messages opens :=
    .ok (messages.flatMap (fun message => message.2.map Fin.val) ++ if opens then [3] else [])
  grammarEngine _ _ := some (py "xgrammar")
  isEog token := token = 0
  piece token := [UInt8.ofNat token]
  startMarker := [1]
  endMarker := [2]

def text (s : String) : Value Empty := .str (py s)

def record (items : List (String × Value Empty)) : Value Empty :=
  .dict (items.map fun item => (py item.1, item.2))

def sampleDigest : Value Empty :=
  text "sha256:0000000000000000000000000000000000000000000000000000000000000000"

/-- An `open_sequence` of a chat of one message. -/
def openCommand (requestId message version : String) (scope session : Value Empty) : Value Empty :=
  record
    [("protocol_version", text "inference-runtime-ipc.v1"), ("type", text "open_sequence"),
      ("command_id", .int 1), ("request_id", text requestId), ("attempt_id", text "a"),
      ("request", record
        [("request", record
            [("limits", record
                [("total_tokens", .int 9), ("reasoning_tokens", .int 5), ("final_tokens", .int 5)]),
              ("output_contract", record [("schema", record [])])]),
          ("grammar", text "root"),
          ("model_messages",
            .list [record [("role", text "user"), ("content", text message)]]),
          ("prompt_hash", text "h"), ("prompt_version", text version), ("cache_scope", scope),
          ("session_cache", session),
          ("cache_namespace", record
            [("model_digest", sampleDigest), ("template_digest", sampleDigest),
              ("tokenizer_digest", sampleDigest), ("adapter_digest", sampleDigest),
              ("context_digest", sampleDigest)])])]

/-- A process whose cache is empty and whose calls succeed. -/
def sampleOutside (n : ℕ) : Outside n where
  opening := ⟨0, 0, ⟨0, true⟩⟩
  prefill := ⟨.success, 1, fun _ => ⟨0, 1, 1⟩⟩
  rounds := fun round =>
    { decoded := .success
      samples := fun _ => .ok 4
      sampledAt := fun _ => round + 1
      detached := fun _ => true
      elapsed := 1 }
  releasing := ⟨0, true, true⟩
  statsAt := 0

def sampleInput (command : Value Empty) : Input Empty sampleSetup.maxSequences :=
  ⟨some command, sampleOutside _⟩

/-- What can be evaluated of a result. -/
def okAnd {ε α : Type} (x : Except ε α) (p : α → Bool) : Bool :=
  match x with
  | .ok a => p a
  | .error _ => false

theorem exists_of_okAnd {ε α : Type} {x : Except ε α} {p : α → Bool} (h : okAnd x p = true) :
    ∃ a, x = .ok a ∧ p a = true := by
  cases x with
  | error e => exact absurd h (by simp [okAnd])
  | ok a => exact ⟨a, rfl, h⟩

/-- A first request gets the first slot. -/
theorem open_atomic_first :
    AtomicOpen sampleSetup sampleModel (run sampleSetup sampleModel [])
      (run sampleSetup sampleModel ([] ++ [sampleInput (openCommand "r" "hello" "v" .null .null)]))
      (openCommand "r" "hello" "v" .null .null)
      (step sampleSetup sampleModel (run sampleSetup sampleModel [])
        (sampleInput (openCommand "r" "hello" "v" .null .null))).2 :=
  open_atomic sampleSetup sampleModel [] (sampleInput (openCommand "r" "hello" "v" .null .null))
    (openCommand "r" "hello" "v" .null .null) rfl (by decide +kernel)

/-! ### What sequences share -/

/-- Two requests that may share what is cached: the same scope, as far as its visibility
tells, the same digests and version, and the same sizes. -/
structure OpenRequest.SharesWith (q : OpenRequest) (config : Setup) (q' : OpenRequest)
    (config' : Setup) : Prop where
  scope : ∃ scope ∈ q.scope, ∃ scope' ∈ q'.scope, scope.SameAs scope'
  space : q.space = q'.space
  version : q.promptVersion = q'.promptVersion
  context : config.sequenceContextTokens = config'.sequenceContextTokens
  kvTokens : config.kvTokens = config'.kvTokens
  maxSequences : config.maxSequences = config'.maxSequences

theorem OpenRequest.cacheIdentity_eq_nil {config : Setup} {q : OpenRequest} :
    q.cacheIdentity config = [] ↔ config.cacheEnabled = false ∨ q.scope = none := by
  unfold OpenRequest.cacheIdentity
  split
  · next scope henabled hscope =>
    rw [henabled, hscope]
    simp [Native.cacheIdentity]
  · next hnot =>
    refine ⟨fun _ => ?_, fun _ => rfl⟩
    by_contra hboth
    rw [not_or] at hboth
    obtain ⟨scope, hscope⟩ := Option.ne_none_iff_exists'.mp hboth.2
    exact hnot scope (by simpa using hboth.1) hscope

/-- A request that shares has a cache and a scope. -/
theorem OpenRequest.cacheIdentity_of_ne {config : Setup} {q : OpenRequest}
    (h : q.cacheIdentity config ≠ []) : ∃ scope, q.scope = some scope ∧
      q.cacheIdentity config = Native.cacheIdentity config scope q.space q.promptVersion := by
  rw [ne_eq, cacheIdentity_eq_nil, not_or] at h
  obtain ⟨scope, hscope⟩ := Option.ne_none_iff_exists'.mp h.2
  have henabled : config.cacheEnabled = true := by simpa using h.1
  refine ⟨scope, hscope, ?_⟩
  unfold OpenRequest.cacheIdentity
  rw [henabled, hscope]

/-- **Only what is of the same identity is shared.**  A request has no identity if and only if the
cache is off or the request has no scope; two requests with identities have the same one if and only
if they agree in the scope, the digests, the version and the sizes; and after any operations on the
cache, what is loaded into a sequence was captured under its identity, of tokens that are a proper
part of its prompt from its start. -/
theorem cache_isolated {config config' : Setup} {model model' : LlamaModel F}
    {command command' : Value F} {q q' : OpenRequest}
    (request : openRequest config model command = .ok q)
    (request' : openRequest config' model' command' = .ok q') (ops : List CacheOp) (op : CacheOp) :
    (q.cacheIdentity config = [] ↔ config.cacheEnabled = false ∨ q.scope = none) ∧
      (q.cacheIdentity config ≠ [] → q'.cacheIdentity config' ≠ [] →
        (q.cacheIdentity config = q'.cacheIdentity config' ↔ q.SharesWith config q' config')) ∧
      ∀ e, ((Runtime.initial config).cache.run ops).loaded op = some e →
        ∃ prompt, PromptCache.RestoresFor e.identity prompt op ∧ e.tokens <+: prompt ∧
          e.tokens.length < prompt.length ∧
          ∃ earlier ∈ ops, PromptCache.Captures e.identity e.tokens e.state.cells earlier := by
  have hvalid := openRequest_ok request
  have hvalid' := openRequest_ok request'
  refine ⟨OpenRequest.cacheIdentity_eq_nil, fun hq hq' => ?_, fun e hload => ?_⟩
  · obtain ⟨scope, hscope, heq⟩ := OpenRequest.cacheIdentity_of_ne hq
    obtain ⟨scope', hscope', heq'⟩ := OpenRequest.cacheIdentity_of_ne hq'
    rw [heq, heq', cacheIdentity_inj (hvalid.scope scope hscope) (hvalid'.scope scope' hscope')
      hvalid.space hvalid'.space hvalid.version hvalid'.version]
    constructor
    · rintro ⟨hsame, hspace, hversion, hcontext, hkv, hsequences⟩
      exact ⟨⟨scope, hscope, scope', hscope', hsame⟩, hspace, hversion, hcontext, hkv, hsequences⟩
    · rintro ⟨⟨found, hfound, found', hfound', hsame⟩, hspace, hversion, hcontext, hkv, hsequences⟩
      obtain rfl := Option.some_inj.mp (hscope.symm.trans hfound)
      obtain rfl := Option.some_inj.mp (hscope'.symm.trans hfound')
      exact ⟨hsame, hspace, hversion, hcontext, hkv, hsequences⟩
  · exact PromptCache.loaded_from_store rfl ops hload

/-- The scope of a tenant. -/
def tenantScope (tenant : String) : Value Empty :=
  record
    [("tenant_id", text tenant), ("workflow_id", text "w"), ("agent_id", text "a"),
      ("visibility", text "tenant")]

/-- A snapshot that is stored, and the operation that loads it. -/
def sampleStore : CacheOp := .store (py "i") (List.replicate 16 4) [] ⟨0, 1, 1⟩

def sampleRestore : CacheOp := .restore (py "i") (List.replicate 17 4) ⟨0, true⟩

/-- The requests of two tenants do not share, and what is loaded was stored. -/
theorem cache_isolated_tenants :
    (∃ q q' : OpenRequest,
      openRequest sampleSetup sampleModel (openCommand "r" "hello" "v" (tenantScope "t") .null) = .ok q ∧
        openRequest sampleSetup sampleModel (openCommand "r" "hello" "v" (tenantScope "u") .null)
          = .ok q' ∧ q.cacheIdentity sampleSetup ≠ q'.cacheIdentity sampleSetup) ∧
      ∃ e, ((Runtime.initial sampleSetup).cache.run [sampleStore]).loaded sampleRestore = some e ∧
        ∃ prompt, PromptCache.RestoresFor e.identity prompt sampleRestore ∧ e.tokens <+: prompt := by
  have hshown : okAnd (openRequest sampleSetup sampleModel
        (openCommand "r" "hello" "v" (tenantScope "t") .null))
      (fun q => q.scope = some ⟨.tenant, py "t", py "w", py "a"⟩ ∧
        q.cacheIdentity sampleSetup ≠ []) = true := by decide +kernel
  have hshown' : okAnd (openRequest sampleSetup sampleModel
        (openCommand "r" "hello" "v" (tenantScope "u") .null))
      (fun q => q.scope = some ⟨.tenant, py "u", py "w", py "a"⟩ ∧
        q.cacheIdentity sampleSetup ≠ []) = true := by decide +kernel
  have hloaded : (((Runtime.initial sampleSetup).cache.run [sampleStore]).loaded
      sampleRestore).isSome = true := by decide +kernel
  obtain ⟨q, hq, hq₂⟩ := exists_of_okAnd hshown
  obtain ⟨q', hq', hq₂'⟩ := exists_of_okAnd hshown'
  obtain ⟨hscope, hid⟩ := of_decide_eq_true hq₂
  obtain ⟨hscope', hid'⟩ := of_decide_eq_true hq₂'
  obtain ⟨e, he⟩ := Option.isSome_iff_exists.mp hloaded
  obtain ⟨-, hshares, hloads⟩ := cache_isolated hq hq' [sampleStore] sampleRestore
  refine ⟨⟨q, q', hq, hq', fun heq => ?_⟩, e, he, ?_⟩
  · obtain ⟨scope, hs, scope', hs', hsame⟩ := ((hshares hid hid').mp heq).scope
    obtain rfl := Option.some_inj.mp (hscope.symm.trans hs)
    obtain rfl := Option.some_inj.mp (hscope'.symm.trans hs')
    exact absurd hsame.2.1 (by decide)
  · obtain ⟨prompt, hfor, hleading, -⟩ := hloads e he
    exact ⟨prompt, hfor, hleading⟩

/-- Two requests without a scope have the same, empty identity, although their versions differ. -/
theorem cache_identity_without_scope : ∃ q q',
    openRequest sampleSetup sampleModel (openCommand "r" "hello" "v" .null .null) = .ok q ∧
      openRequest sampleSetup sampleModel (openCommand "r" "hello" "w" .null .null) = .ok q' ∧
      q.cacheIdentity sampleSetup = q'.cacheIdentity sampleSetup ∧
      q.promptVersion ≠ q'.promptVersion := by
  have hshown : okAnd (openRequest sampleSetup sampleModel (openCommand "r" "hello" "v" .null .null))
      (fun q => q.cacheIdentity sampleSetup = [] ∧ q.promptVersion = py "v") = true := by
    decide +kernel
  have hshown' : okAnd (openRequest sampleSetup sampleModel (openCommand "r" "hello" "w" .null .null))
      (fun q => q.cacheIdentity sampleSetup = [] ∧ q.promptVersion = py "w") = true := by
    decide +kernel
  obtain ⟨q, hq, hq₂⟩ := exists_of_okAnd hshown
  obtain ⟨q', hq', hq₂'⟩ := exists_of_okAnd hshown'
  obtain ⟨hid, hversion⟩ := of_decide_eq_true hq₂
  obtain ⟨hid', hversion'⟩ := of_decide_eq_true hq₂'
  refine ⟨q, q', hq, hq', hid.trans hid'.symm, ?_⟩
  rw [hversion, hversion']
  decide

end Native
