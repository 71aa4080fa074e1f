/-
The commands of the native runtime.

* `field`, `requireExact`, `positiveSize`, … — how a command is taken apart;
* `parsePublicHandle` — the slot and the generation that a handle names;
* `CacheScope`, `CacheNamespace`, `cacheIdentity` — the identity of what a sequence
  may share, which tells all its parts apart (`cacheIdentity_inj`);
* `OpenRequest`, `openRequest` — the checks of `open_sequence` up to the state of
  the new sequence.

The chat template, the tokenizer, the grammar engine and the vocabulary belong to
the model and are taken as they are, as a `LlamaModel`.
-/
import LlamaRuntime.Json.Value
import LlamaRuntime.Native.PromptCache

namespace Native

open Json

/-- What stops a command: `what()` of an exception, or one of the `json` library. -/
inductive Fault where
  | error (what : PyStr)
  | json
  deriving DecidableEq

/-- `throw std::runtime_error(what)` -/
def refuse {α : Type} (what : String) : Except Fault α := .error (.error (py what))

/-- Go on if this holds. -/
def check (p : Prop) [Decidable p] (what : String) : Except Fault Unit :=
  if p then .ok () else refuse what

theorem check_eq_ok {p : Prop} [Decidable p] {what : String} {u : Unit} :
    check p what = .ok u ↔ p := by
  unfold check
  split_ifs with h
  · exact ⟨fun _ => h, fun _ => rfl⟩
  · exact ⟨fun hr => absurd hr (by simp [refuse]), fun hp => absurd hp h⟩

theorem bind_eq_ok {α β : Type} {x : Except Fault α} {f : α → Except Fault β} {b : β} :
    (x >>= f) = .ok b ↔ ∃ a, x = .ok a ∧ f a = .ok b := by
  cases x with
  | error e => exact ⟨fun h => absurd h (by simp [bind, Except.bind]), fun ⟨_, h, _⟩ => absurd h (by simp)⟩
  | ok a => exact ⟨fun h => ⟨a, rfl, h⟩, fun ⟨_, h, h'⟩ => Except.ok.inj h ▸ h'⟩

section Fields

variable {F : Type}

/-- `object.at(key)` -/
def field (v : Value F) (key : String) : Except Fault (Value F) :=
  match v with
  | .dict items => (Items.lookup (py key) items).elim (.error .json) .ok
  | _ => .error .json

/-- `object.contains(key)` -/
def contains (v : Value F) (key : String) : Bool :=
  match v with
  | .dict items => (Items.lookup (py key) items).isSome
  | _ => false

/-- `require_exact` -/
def requireExact (v : Value F) (fields : List String) : Except Fault Unit :=
  match v with
  | .dict items =>
    if items.length = fields.length ∧ fields.all (contains v) then .ok ()
    else refuse "invalid_command_shape"
  | _ => refuse "invalid_command_shape"

/-- `get<std::string>()` -/
def getString : Value F → Except Fault PyStr
  | .str s => .ok s
  | _ => .error .json

/-- `is_number_integer()`; what is out of this range is read as a float. -/
def IsInteger (n : ℤ) : Prop := -2 ^ 63 ≤ n ∧ n < 2 ^ 64

instance (n : ℤ) : Decidable (IsInteger n) := inferInstanceAs (Decidable (_ ∧ _))

/-- `get<std::int64_t>()` -/
def getInt64 (n : ℤ) : ℤ := if n < 2 ^ 63 then n else n - 2 ^ 64

/-- `get<std::uint64_t>()` -/
def getUint64 (n : ℤ) : ℕ := (n % 2 ^ 64).toNat

/-- A positive integer, as `positive_size` and `session_cache_control` read it. -/
def positiveInteger (v : Value F) : Option ℕ :=
  match v with
  | .int n => if IsInteger n ∧ 0 < getInt64 n then some (getInt64 n).toNat else none
  | _ => none

/-- `positive_size` -/
def positiveSize (v : Value F) (error : String) : Except Fault ℕ :=
  match positiveInteger v with
  | some n => .ok n
  | none => refuse error

/-- The number of bytes of a string. -/
def byteSize (s : PyStr) : ℕ := (s.flatMap CodePoint.utf8Bytes).length

/-- `bounded_cache_field` -/
def boundedCacheField (v : Value F) (name : String) : Except Fault PyStr :=
  match v with
  | .str s =>
    if s = [] ∨ 256 < byteSize s ∨ s.any fun c => CodePoint.IsControl c then refuse name else .ok s
  | _ => refuse name

def isHexDigit (c : CodePoint) : Bool :=
  0x30 ≤ c.val && c.val ≤ 0x39 || 0x61 ≤ c.val && c.val ≤ 0x66

/-- `cache_digest_field` -/
def cacheDigestField (v : Value F) (name : String) : Except Fault PyStr := do
  let digest ← boundedCacheField v name
  if byteSize digest = 71 ∧ py "sha256:" <+: digest ∧ (digest.drop 7).all isHexDigit then .ok digest
  else refuse name

end Fields

/-! ### Handles -/

/-- `isspace` -/
def isSpace (c : CodePoint) : Bool := c.val = 0x20 || 0x09 ≤ c.val && c.val ≤ 0x0D

/-- `std::stoull`: the number and how many characters were read; `none` where it throws. -/
def stoull (text : PyStr) : Option (ℕ × ℕ) :=
  let unsigned := text.dropWhile isSpace
  let negative := unsigned.head? = some minusSign
  let digits :=
    (if negative ∨ unsigned.head? = some plusSign then unsigned.tail else unsigned).takeWhile isDigit
  let rest :=
    (if negative ∨ unsigned.head? = some plusSign then unsigned.tail else unsigned).dropWhile isDigit
  if digits = [] ∨ 2 ^ 64 ≤ natOfDigits digits then none
  else
    some (if negative then (2 ^ 64 - natOfDigits digits) % 2 ^ 64 else natOfDigits digits,
      text.length - rest.length)

/-- What a process is started with: its manifest and what it reads of the model's. -/
structure Setup where
  backendId : PyStr
  modelId : PyStr
  modelManifestDigest : PyStr
  maxSequences : ℕ
  kvTokens : ℕ
  prefillChunkTokens : ℕ
  maxDecodeBatch : ℕ
  decodeQuantumTokens : ℕ
  tickTokenBudget : ℕ
  cacheEnabled : Bool
  cacheByteBudget : ℕ
  cacheMaxEntries : ℕ
  cacheTtl : ℤ
  nBatch : ℕ
  perSequenceContext : ℕ

namespace Setup

def sequenceContextTokens (config : Setup) : ℕ :=
  min config.perSequenceContext (config.kvTokens / config.maxSequences)

end Setup

variable {F : Type}

/-- `parse_public_handle` -/
def parsePublicHandle (config : Setup) (raw : Value F) : Option (Fin config.maxSequences × ℕ) :=
  match requireExact raw ["backend", "model", "sequence", "generation"],
    field raw "backend", field raw "model", field raw "sequence", field raw "generation" with
  | .ok (), .ok (.str backend), .ok (.str model), .ok (.str sequence), .ok (.int generation) =>
    if backend ≠ config.backendId ∨ model ≠ config.modelId then none
    else if ¬ py "slot-" <+: sequence ∨ sequence.length ≤ 5 then none
    else
      match stoull (sequence.drop 5) with
      | none => none
      | some (slot, consumed) =>
        if hslot : slot < config.maxSequences then
          if consumed ≠ sequence.length - 5 then none
          else if ¬ IsInteger generation ∨ getUint64 generation = 0 then none
          else some (⟨slot, hslot⟩, getUint64 generation)
        else none
  | _, _, _, _, _ => none

/-! ### What a sequence may share -/

inductive Visibility where
  | tenant | workflow | agent
  deriving DecidableEq

/-- The scope of a request, as `cache_scope_identity` reads it. -/
structure CacheScope where
  visibility : Visibility
  tenant : PyStr
  workflow : PyStr
  agent : PyStr
  deriving DecidableEq

def unitSeparator : CodePoint := 0x1F
def recordSeparator : CodePoint := 0x1E

/-- The text of a scope. -/
def CacheScope.identity (s : CacheScope) : PyStr :=
  match s.visibility with
  | .tenant => py "tenant" ++ unitSeparator :: s.tenant
  | .workflow => py "workflow" ++ unitSeparator :: s.tenant ++ unitSeparator :: s.workflow
  | .agent =>
    py "private" ++ unitSeparator :: s.tenant ++ unitSeparator :: s.workflow ++
      unitSeparator :: s.agent

/-- `cache_scope_identity`, up to the text. -/
def cacheScope (v : Value F) : Except Fault (Option CacheScope) :=
  match v with
  | .null => .ok none
  | v => do
    requireExact v ["tenant_id", "workflow_id", "agent_id", "visibility"]
    let tenant ← boundedCacheField (← field v "tenant_id") "cache_tenant_invalid"
    let workflow ← boundedCacheField (← field v "workflow_id") "cache_workflow_invalid"
    let agent ← boundedCacheField (← field v "agent_id") "cache_agent_invalid"
    let visibility ← boundedCacheField (← field v "visibility") "cache_visibility_invalid"
    if visibility = py "tenant" then .ok (some ⟨.tenant, tenant, workflow, agent⟩)
    else if visibility = py "workflow" then .ok (some ⟨.workflow, tenant, workflow, agent⟩)
    else if visibility = py "private" then .ok (some ⟨.agent, tenant, workflow, agent⟩)
    else refuse "cache_visibility_invalid"

/-- The digests of `cache_namespace`. -/
structure CacheNamespace where
  model : PyStr
  template : PyStr
  tokenizer : PyStr
  adapter : PyStr
  context : PyStr
  deriving DecidableEq

/-- The `cache_identity` of a sequence with a scope. -/
def cacheIdentity (config : Setup) (scope : CacheScope) (space : CacheNamespace)
    (promptVersion : PyStr) : PyStr :=
  scope.identity ++ recordSeparator :: space.model ++ recordSeparator :: space.template ++
    recordSeparator :: space.tokenizer ++ recordSeparator :: space.adapter ++
    recordSeparator :: space.context ++ recordSeparator :: promptVersion ++
    recordSeparator :: decimal config.sequenceContextTokens ++
    recordSeparator :: decimal config.kvTokens ++ recordSeparator :: decimal config.maxSequences

/-! ### Sessions -/

/-- `NativeSessionControl` -/
structure SessionControl where
  sessionId : PyStr
  parentGeneration : Option ℕ
  commit : Bool
  deriving DecidableEq

/-- The `parent_generation` of a session. -/
def parentGeneration (v : Value F) : Except Fault (Option ℕ) :=
  match v with
  | .null => .ok none
  | v => (positiveInteger v).elim (refuse "session_generation_invalid") fun n => .ok (some n)

/-- A comparison with a string. -/
def isString (v : Value F) (s : PyStr) : Bool :=
  match v with
  | .str t => t = s
  | _ => false

/-- `session_cache_control` -/
def sessionCacheControl (v scope : Value F) (cacheEnabled : Bool) :
    Except Fault (Option SessionControl) :=
  match v, scope with
  | .null, _ => .ok none
  | _, .null => refuse "session_cache_unavailable"
  | v, scope =>
    if cacheEnabled = false then refuse "session_cache_unavailable"
    else do
      requireExact v ["session_id", "parent_generation", "commit"]
      let visibility ← field scope "visibility"
      check (isString visibility (py "private")) "session_cache_scope_invalid"
      let sessionId ← boundedCacheField (← field v "session_id") "session_id_invalid"
      let parent ← parentGeneration (← field v "parent_generation")
      match ← field v "commit" with
      | .bool commit => .ok (some ⟨sessionId, parent, commit⟩)
      | _ => refuse "session_commit_invalid"

/-! ### Requests -/

/-- What the model says: the tokens of a rendered chat, the grammar engine, which
tokens end a generation, the bytes of a token, and the reasoning markers. -/
structure LlamaModel (F : Type) where
  render : List (PyStr × PyStr) → Bool → Except PyStr (List Token)
  grammarEngine : Value F → PyStr → Option PyStr
  isEog : Token → Bool
  piece : Token → List UInt8
  startMarker : List Token
  endMarker : List Token

/-- The role and the content of a message. -/
def chatMessage (v : Value F) : Except Fault (PyStr × PyStr) := do
  requireExact v ["role", "content"]
  .ok (← getString (← field v "role"), ← getString (← field v "content"))

/-- `build_prompt` -/
def buildPrompt (model : LlamaModel F) (messages : Value F) (addGenerationPrompt : Bool) :
    Except Fault (List Token) :=
  match messages with
  | .list [] => refuse "model_messages_invalid"
  | .list items => do
    let messages ← items.mapM chatMessage
    match model.render messages addGenerationPrompt with
    | .ok tokens => .ok tokens
    | .error what => .error (.error what)
  | _ => refuse "model_messages_invalid"

/-- The code and the detail of a `command_error`. -/
abbrev Refusal := PyStr × Fault

/-- What an exception is answered with. -/
def invalidCommand (fault : Fault) : Refusal := (py "invalid_command", fault)

def rejected (code detail : String) : Refusal := (py code, .error (py detail))

/-- What `open_sequence` takes from a command. -/
structure OpenFields (F : Type) where
  requestId : PyStr
  attemptId : PyStr
  request : Value F
  envelope : Value F
  totalTokens : ℕ
  reasoningTokens : ℕ
  finalTokens : ℕ
  prompt : List Token
  scope : Option CacheScope
  session : Option SessionControl
  sessionPrefix : List Token
  promptVersion : PyStr
  space : CacheNamespace

/-- The prompt of a session without the opening of the reply. -/
def sessionPrefixOf (model : LlamaModel F) (messages : Value F) (prompt : List Token) :
    Option SessionControl → Except Fault (List Token)
  | none => .ok []
  | some _ => do
    let sessionPrefix ← buildPrompt model messages false
    -- with an empty prompt the comparison reads past its end
    if sessionPrefix = [] ∨ prompt.length - 1 < sessionPrefix.length ∨
        ¬ sessionPrefix <+: prompt then refuse "session_prefix_invalid"
    else .ok sessionPrefix

/-- The digests of a request. -/
def cacheNamespace (config : Setup) (v : Value F) : Except Fault CacheNamespace := do
  requireExact v
    ["model_digest", "template_digest", "tokenizer_digest", "adapter_digest", "context_digest"]
  let model ← cacheDigestField (← field v "model_digest") "cache_model_digest_invalid"
  check (model = config.modelManifestDigest) "cache_model_digest_mismatch"
  let template ← cacheDigestField (← field v "template_digest") "cache_template_digest_invalid"
  let tokenizer ← cacheDigestField (← field v "tokenizer_digest") "cache_tokenizer_digest_invalid"
  let adapter ← cacheDigestField (← field v "adapter_digest") "cache_adapter_digest_invalid"
  let context ← cacheDigestField (← field v "context_digest") "cache_context_digest_invalid"
  .ok ⟨model, template, tokenizer, adapter, context⟩

/-- The checks of `open_sequence` up to the length of the prompt. -/
def openFields (config : Setup) (model : LlamaModel F) (command : Value F) :
    Except Fault (OpenFields F) := do
  requireExact command
    ["protocol_version", "type", "command_id", "request_id", "attempt_id", "request"]
  let requestId ← getString (← field command "request_id")
  let attemptId ← getString (← field command "attempt_id")
  check (requestId ≠ [] ∧ attemptId ≠ []) "request_identity_invalid"
  let envelope ← field command "request"
  check (["request", "grammar", "model_messages", "prompt_hash", "prompt_version", "cache_scope",
    "session_cache", "cache_namespace"].all (contains envelope)) "request_envelope_invalid"
  let request ← field envelope "request"
  let limits ← field request "limits"
  let totalTokens ← positiveSize (← field limits "total_tokens") "total_tokens_invalid"
  let reasoningTokens ← positiveSize (← field limits "reasoning_tokens") "reasoning_tokens_invalid"
  let finalTokens ← positiveSize (← field limits "final_tokens") "final_tokens_invalid"
  let messages ← field envelope "model_messages"
  let prompt ← buildPrompt model messages true
  let scopeValue ← field envelope "cache_scope"
  let scope ← cacheScope scopeValue
  let session ← sessionCacheControl (← field envelope "session_cache") scopeValue config.cacheEnabled
  let sessionPrefix ← sessionPrefixOf model messages prompt session
  let _ ← boundedCacheField (← field envelope "prompt_hash") "prompt_hash_invalid"
  let promptVersion ← boundedCacheField (← field envelope "prompt_version") "prompt_version_invalid"
  let space ← cacheNamespace config (← field envelope "cache_namespace")
  .ok { requestId, attemptId, request, envelope, totalTokens, reasoningTokens, finalTokens, prompt,
        scope, session, sessionPrefix, promptVersion, space }

/-- A request that passed its checks. -/
structure OpenRequest where
  requestId : PyStr
  attemptId : PyStr
  totalTokens : ℕ
  prompt : List Token
  scope : Option CacheScope
  session : Option SessionControl
  sessionPrefix : List Token
  promptVersion : PyStr
  space : CacheNamespace
  phase : PhaseController
  grammarEngine : PyStr

/-- The controller and the grammar of a new sequence. -/
def newControls (model : LlamaModel F) (fields : OpenFields F) :
    Except Fault (PhaseController × PyStr) := do
  let phase ←
    (PhaseController.make model.startMarker model.endMarker fields.reasoningTokens
      fields.finalTokens fields.totalTokens).mapError .error
  let contract ← field fields.request "output_contract"
  let schema ← field contract "schema"
  let grammar ← getString (← field fields.envelope "grammar")
  match model.grammarEngine schema grammar with
  | none => refuse "grammar_init_failed"
  | some engine => .ok (phase, engine)

/-- The checks of `open_sequence`. -/
def openRequest (config : Setup) (model : LlamaModel F) (command : Value F) :
    Except Refusal OpenRequest :=
  match openFields config model command with
  | .error fault => .error (invalidCommand fault)
  | .ok fields =>
    if fields.prompt = [] ∨
        config.sequenceContextTokens < fields.prompt.length + fields.totalTokens + 8 then
      .error (rejected "context_overflow" "per-sequence context exceeded")
    else
      match newControls model fields with
      | .error fault => .error (invalidCommand fault)
      | .ok (phase, grammarEngine) =>
        .ok
          { requestId := fields.requestId
            attemptId := fields.attemptId
            totalTokens := fields.totalTokens
            prompt := fields.prompt
            scope := fields.scope
            session := fields.session
            sessionPrefix := fields.sessionPrefix
            promptVersion := fields.promptVersion
            space := fields.space
            phase
            grammarEngine }

/-- `cache_identity`; empty if the sequence shares nothing. -/
def OpenRequest.cacheIdentity (config : Setup) (r : OpenRequest) : PyStr :=
  match config.cacheEnabled, r.scope with
  | true, some scope => Native.cacheIdentity config scope r.space r.promptVersion
  | _, _ => []

/-! ### What the checks say -/

theorem positiveInteger_pos {v : Value F} {n : ℕ} (h : positiveInteger v = some n) : 0 < n := by
  unfold positiveInteger at h
  split at h
  · split_ifs at h with hn
    obtain rfl := Option.some_inj.mp h
    omega
  · exact absurd h (by simp)

theorem positiveSize_pos {v : Value F} {error : String} {n : ℕ}
    (h : positiveSize v error = .ok n) : 0 < n := by
  unfold positiveSize at h
  split at h
  · next hn =>
    obtain rfl := Except.ok.inj h
    exact positiveInteger_pos hn
  · exact absurd h (by simp [refuse])

/-- A text that `bounded_cache_field` lets through. -/
def CacheField (s : PyStr) : Prop :=
  s ≠ [] ∧ byteSize s ≤ 256 ∧ ∀ c ∈ s, ¬ c.IsControl

theorem boundedCacheField_ok {v : Value F} {name : String} {s : PyStr}
    (h : boundedCacheField v name = .ok s) : v = .str s ∧ CacheField s := by
  unfold boundedCacheField at h
  split at h
  · next t =>
    split_ifs at h with hbad
    · exact absurd h (by simp [refuse])
    · obtain rfl := Except.ok.inj h
      simp only [not_or, not_lt] at hbad
      refine ⟨rfl, hbad.1, hbad.2.1, fun c hc hcontrol => hbad.2.2 ?_⟩
      exact List.any_eq_true.mpr ⟨c, hc, by simpa using hcontrol⟩
  · exact absurd h (by simp [refuse])

theorem cacheDigestField_ok {v : Value F} {name : String} {s : PyStr}
    (h : cacheDigestField v name = .ok s) : v = .str s ∧ CacheField s := by
  obtain ⟨digest, hdigest, h⟩ := bind_eq_ok.mp h
  split_ifs at h with hgood
  · obtain rfl := Except.ok.inj h
    exact boundedCacheField_ok hdigest
  · exact absurd h (by simp [refuse])

/-- The separators are control characters. -/
theorem CacheField.not_mem {s : PyStr} (h : CacheField s) :
    unitSeparator ∉ s ∧ recordSeparator ∉ s :=
  ⟨fun hmem => h.2.2 _ hmem (by decide), fun hmem => h.2.2 _ hmem (by decide)⟩

structure CacheScope.Valid (s : CacheScope) : Prop where
  tenant : CacheField s.tenant
  workflow : CacheField s.workflow
  agent : CacheField s.agent

theorem cacheScope_ok {v : Value F} {scope : CacheScope} (h : cacheScope v = .ok (some scope)) :
    scope.Valid := by
  unfold cacheScope at h
  split at h
  · exact absurd (Except.ok.inj h) (by simp)
  · obtain ⟨-, -, h⟩ := bind_eq_ok.mp h
    obtain ⟨_, -, h⟩ := bind_eq_ok.mp h
    obtain ⟨tenant, htenant, h⟩ := bind_eq_ok.mp h
    obtain ⟨_, -, h⟩ := bind_eq_ok.mp h
    obtain ⟨workflow, hworkflow, h⟩ := bind_eq_ok.mp h
    obtain ⟨_, -, h⟩ := bind_eq_ok.mp h
    obtain ⟨agent, hagent, h⟩ := bind_eq_ok.mp h
    obtain ⟨_, -, h⟩ := bind_eq_ok.mp h
    obtain ⟨visibility, -, h⟩ := bind_eq_ok.mp h
    have hvalid : ∀ kind, CacheScope.Valid ⟨kind, tenant, workflow, agent⟩ := fun kind =>
      ⟨(boundedCacheField_ok htenant).2, (boundedCacheField_ok hworkflow).2,
        (boundedCacheField_ok hagent).2⟩
    split_ifs at h
    · exact Option.some_inj.mp (Except.ok.inj h) ▸ hvalid _
    · exact Option.some_inj.mp (Except.ok.inj h) ▸ hvalid _
    · exact Option.some_inj.mp (Except.ok.inj h) ▸ hvalid _
    · exact absurd h (by simp [refuse])

structure CacheNamespace.Valid (s : CacheNamespace) : Prop where
  model : CacheField s.model
  template : CacheField s.template
  tokenizer : CacheField s.tokenizer
  adapter : CacheField s.adapter
  context : CacheField s.context

theorem cacheNamespace_ok {config : Setup} {v : Value F} {space : CacheNamespace}
    (h : cacheNamespace config v = .ok space) : space.Valid := by
  obtain ⟨-, -, h⟩ := bind_eq_ok.mp h
  obtain ⟨_, -, h⟩ := bind_eq_ok.mp h
  obtain ⟨model, hmodel, h⟩ := bind_eq_ok.mp h
  obtain ⟨-, -, h⟩ := bind_eq_ok.mp h
  obtain ⟨_, -, h⟩ := bind_eq_ok.mp h
  obtain ⟨template, htemplate, h⟩ := bind_eq_ok.mp h
  obtain ⟨_, -, h⟩ := bind_eq_ok.mp h
  obtain ⟨tokenizer, htokenizer, h⟩ := bind_eq_ok.mp h
  obtain ⟨_, -, h⟩ := bind_eq_ok.mp h
  obtain ⟨adapter, hadapter, h⟩ := bind_eq_ok.mp h
  obtain ⟨_, -, h⟩ := bind_eq_ok.mp h
  obtain ⟨context, hcontext, h⟩ := bind_eq_ok.mp h
  obtain rfl := Except.ok.inj h
  exact ⟨(cacheDigestField_ok hmodel).2, (cacheDigestField_ok htemplate).2,
    (cacheDigestField_ok htokenizer).2, (cacheDigestField_ok hadapter).2,
    (cacheDigestField_ok hcontext).2⟩

structure SessionControl.Valid (s : SessionControl) : Prop where
  sessionId : CacheField s.sessionId
  parent : ∀ generation ∈ s.parentGeneration, 0 < generation

theorem parentGeneration_pos {v : Value F} {parent : Option ℕ}
    (h : parentGeneration v = .ok parent) : ∀ generation ∈ parent, 0 < generation := by
  unfold parentGeneration at h
  split at h
  · obtain rfl := Except.ok.inj h
    exact fun _ hg => absurd hg (by simp)
  · cases hv : positiveInteger v with
    | none =>
      rw [hv] at h
      exact absurd h (by simp [refuse])
    | some n =>
      rw [hv] at h
      obtain rfl := Except.ok.inj h
      rintro generation hg
      obtain rfl := Option.some_inj.mp hg
      exact positiveInteger_pos hv

theorem sessionCacheControl_ok {v scope : Value F} {enabled : Bool} {control : SessionControl}
    (h : sessionCacheControl v scope enabled = .ok (some control)) :
    control.Valid ∧ enabled = true ∧ scope ≠ .null := by
  unfold sessionCacheControl at h
  split at h
  · exact absurd (Except.ok.inj h) (by simp)
  · exact absurd h (by simp [refuse])
  · next hscope =>
    split_ifs at h with henabled
    · exact absurd h (by simp [refuse])
    obtain ⟨-, -, h⟩ := bind_eq_ok.mp h
    obtain ⟨_, -, h⟩ := bind_eq_ok.mp h
    obtain ⟨-, -, h⟩ := bind_eq_ok.mp h
    obtain ⟨_, -, h⟩ := bind_eq_ok.mp h
    obtain ⟨sessionId, hsession, h⟩ := bind_eq_ok.mp h
    obtain ⟨_, -, h⟩ := bind_eq_ok.mp h
    obtain ⟨parent, hparent, h⟩ := bind_eq_ok.mp h
    obtain ⟨commit, -, h⟩ := bind_eq_ok.mp h
    split at h
    · obtain rfl := Option.some_inj.mp (Except.ok.inj h)
      exact ⟨⟨(boundedCacheField_ok hsession).2, parentGeneration_pos hparent⟩, by simpa using henabled,
        fun hnull => hscope hnull⟩
    · exact absurd h (by simp [refuse])

/-- What a request that passed its checks satisfies. -/
structure OpenRequest.Valid (config : Setup) (model : LlamaModel F) (r : OpenRequest) : Prop where
  named : r.requestId ≠ [] ∧ r.attemptId ≠ []
  total : 0 < r.totalTokens
  prompt : r.prompt ≠ []
  fits : r.prompt.length + r.totalTokens + 8 ≤ config.sequenceContextTokens
  scope : ∀ scope ∈ r.scope, scope.Valid
  space : r.space.Valid
  version : CacheField r.promptVersion
  session : ∀ control ∈ r.session, control.Valid ∧ config.cacheEnabled = true ∧ r.scope ≠ none
  sessionPrefix : r.session ≠ none → r.sessionPrefix ≠ [] ∧
    r.sessionPrefix.length ≤ r.prompt.length - 1 ∧ r.sessionPrefix <+: r.prompt
  phase : ∃ reasoning final, PhaseController.make model.startMarker model.endMarker reasoning final
    r.totalTokens = .ok r.phase
  grammar : ∃ schema text, model.grammarEngine schema text = some r.grammarEngine

theorem cacheScope_ne_none {v : Value F} {scope : Option CacheScope} (h : cacheScope v = .ok scope)
    (hv : v ≠ .null) : scope ≠ none := by
  unfold cacheScope at h
  split at h
  · exact absurd rfl hv
  · rintro rfl
    obtain ⟨-, -, h⟩ := bind_eq_ok.mp h
    obtain ⟨_, -, h⟩ := bind_eq_ok.mp h
    obtain ⟨_, -, h⟩ := bind_eq_ok.mp h
    obtain ⟨_, -, h⟩ := bind_eq_ok.mp h
    obtain ⟨_, -, h⟩ := bind_eq_ok.mp h
    obtain ⟨_, -, h⟩ := bind_eq_ok.mp h
    obtain ⟨_, -, h⟩ := bind_eq_ok.mp h
    obtain ⟨_, -, h⟩ := bind_eq_ok.mp h
    obtain ⟨_, -, h⟩ := bind_eq_ok.mp h
    split_ifs at h
    all_goals exact absurd h (by simp [refuse])

theorem sessionPrefixOf_ok {model : LlamaModel F} {messages : Value F}
    {prompt sessionPrefix : List Token} {session : Option SessionControl}
    (h : sessionPrefixOf model messages prompt session = .ok sessionPrefix) :
    session ≠ none → sessionPrefix ≠ [] ∧ sessionPrefix.length ≤ prompt.length - 1 ∧
      sessionPrefix <+: prompt := by
  intro hsession
  cases session with
  | none => exact absurd rfl hsession
  | some control =>
    obtain ⟨found, -, h⟩ := bind_eq_ok.mp h
    split_ifs at h with hbad
    · exact absurd h (by simp [refuse])
    · obtain rfl := Except.ok.inj h
      rw [not_or, not_or, not_not] at hbad
      exact ⟨hbad.1, by omega, hbad.2.2⟩

/-- What the fields of a command satisfy. -/
structure OpenFields.Valid (config : Setup) (f : OpenFields F) : Prop where
  named : f.requestId ≠ [] ∧ f.attemptId ≠ []
  total : 0 < f.totalTokens
  scope : ∀ scope ∈ f.scope, scope.Valid
  space : f.space.Valid
  version : CacheField f.promptVersion
  session : ∀ control ∈ f.session, control.Valid ∧ config.cacheEnabled = true ∧ f.scope ≠ none
  sessionPrefix : f.session ≠ none → f.sessionPrefix ≠ [] ∧
    f.sessionPrefix.length ≤ f.prompt.length - 1 ∧ f.sessionPrefix <+: f.prompt

theorem openFields_ok {config : Setup} {model : LlamaModel F} {command : Value F}
    {f : OpenFields F} (h : openFields config model command = .ok f) : f.Valid config := by
  obtain ⟨-, -, h⟩ := bind_eq_ok.mp h
  obtain ⟨_, -, h⟩ := bind_eq_ok.mp h
  obtain ⟨requestId, -, h⟩ := bind_eq_ok.mp h
  obtain ⟨_, -, h⟩ := bind_eq_ok.mp h
  obtain ⟨attemptId, -, h⟩ := bind_eq_ok.mp h
  obtain ⟨_, hnamed, h⟩ := bind_eq_ok.mp h
  obtain ⟨envelope, -, h⟩ := bind_eq_ok.mp h
  obtain ⟨-, -, h⟩ := bind_eq_ok.mp h
  obtain ⟨request, -, h⟩ := bind_eq_ok.mp h
  obtain ⟨limits, -, h⟩ := bind_eq_ok.mp h
  obtain ⟨_, -, h⟩ := bind_eq_ok.mp h
  obtain ⟨totalTokens, htotal, h⟩ := bind_eq_ok.mp h
  obtain ⟨_, -, h⟩ := bind_eq_ok.mp h
  obtain ⟨reasoningTokens, -, h⟩ := bind_eq_ok.mp h
  obtain ⟨_, -, h⟩ := bind_eq_ok.mp h
  obtain ⟨finalTokens, -, h⟩ := bind_eq_ok.mp h
  obtain ⟨messages, -, h⟩ := bind_eq_ok.mp h
  obtain ⟨prompt, -, h⟩ := bind_eq_ok.mp h
  obtain ⟨scopeValue, -, h⟩ := bind_eq_ok.mp h
  obtain ⟨scope, hscope, h⟩ := bind_eq_ok.mp h
  obtain ⟨_, -, h⟩ := bind_eq_ok.mp h
  obtain ⟨session, hsession, h⟩ := bind_eq_ok.mp h
  obtain ⟨sessionPrefix, hprefix, h⟩ := bind_eq_ok.mp h
  obtain ⟨_, -, h⟩ := bind_eq_ok.mp h
  obtain ⟨_, -, h⟩ := bind_eq_ok.mp h
  obtain ⟨_, -, h⟩ := bind_eq_ok.mp h
  obtain ⟨version, hversion, h⟩ := bind_eq_ok.mp h
  obtain ⟨_, -, h⟩ := bind_eq_ok.mp h
  obtain ⟨space, hspace, h⟩ := bind_eq_ok.mp h
  obtain rfl := Except.ok.inj h
  refine ⟨check_eq_ok.mp hnamed, positiveSize_pos htotal, ?_, cacheNamespace_ok hspace,
    (boundedCacheField_ok hversion).2, ?_, sessionPrefixOf_ok hprefix⟩
  · intro s hs
    obtain rfl : scope = some s := hs
    exact cacheScope_ok hscope
  · intro control hcontrol
    obtain rfl : session = some control := hcontrol
    obtain ⟨hvalid, henabled, hnull⟩ := sessionCacheControl_ok hsession
    exact ⟨hvalid, henabled, cacheScope_ne_none hscope hnull⟩

theorem newControls_ok {model : LlamaModel F} {f : OpenFields F} {phase : PhaseController}
    {engine : PyStr} (h : newControls model f = .ok (phase, engine)) :
    PhaseController.make model.startMarker model.endMarker f.reasoningTokens f.finalTokens
        f.totalTokens = .ok phase ∧
      ∃ schema text, model.grammarEngine schema text = some engine := by
  obtain ⟨made, hmade, h⟩ := bind_eq_ok.mp h
  obtain ⟨_, -, h⟩ := bind_eq_ok.mp h
  obtain ⟨schema, -, h⟩ := bind_eq_ok.mp h
  obtain ⟨_, -, h⟩ := bind_eq_ok.mp h
  obtain ⟨text, -, h⟩ := bind_eq_ok.mp h
  split at h
  · exact absurd h (by simp [refuse])
  · next found hgrammar =>
    obtain ⟨rfl, rfl⟩ := Prod.mk.inj (Except.ok.inj h)
    refine ⟨?_, schema, text, hgrammar⟩
    cases hmake : PhaseController.make model.startMarker model.endMarker f.reasoningTokens
        f.finalTokens f.totalTokens with
    | error what =>
      rw [hmake] at hmade
      exact absurd hmade (by simp [Except.mapError])
    | ok phase =>
      rw [hmake] at hmade
      rw [Except.ok.inj hmade]

theorem openRequest_ok {config : Setup} {model : LlamaModel F} {command : Value F}
    {r : OpenRequest} (h : openRequest config model command = .ok r) : r.Valid config model := by
  unfold openRequest at h
  cases hfields : openFields config model command with
  | error fault =>
    rw [hfields] at h
    exact absurd h (by simp)
  | ok f =>
    rw [hfields] at h
    dsimp only at h
    have hvalid := openFields_ok hfields
    by_cases hlength : f.prompt = [] ∨
        config.sequenceContextTokens < f.prompt.length + f.totalTokens + 8
    · rw [if_pos hlength] at h
      exact absurd h (by simp)
    rw [if_neg hlength] at h
    rw [not_or, not_lt] at hlength
    split at h
    · exact absurd h (by simp)
    · next phase engine hcontrols =>
      obtain ⟨hphase, hgrammar⟩ := newControls_ok hcontrols
      obtain rfl := Except.ok.inj h
      exact ⟨hvalid.named, hvalid.total, hlength.1, hlength.2, hvalid.scope, hvalid.space,
        hvalid.version, hvalid.session, hvalid.sessionPrefix, ⟨_, _, hphase⟩, hgrammar⟩

/-! ### An identity tells its parts apart -/

/-- Two texts that are cut at their first separator. -/
theorem cut_inj {separator : CodePoint} {a a' b b' : PyStr} (ha : separator ∉ a)
    (ha' : separator ∉ a') : a ++ separator :: b = a' ++ separator :: b' ↔ a = a' ∧ b = b' := by
  constructor
  · intro h
    induction a generalizing a' with
    | nil =>
      cases a' with
      | nil => exact ⟨rfl, (List.cons.inj h).2⟩
      | cons c a' =>
        have hc : separator = c := (List.cons.inj h).1
        exact absurd (hc ▸ List.mem_cons_self) ha'
    | cons c a ih =>
      cases a' with
      | nil =>
        have hc : c = separator := (List.cons.inj h).1
        exact absurd (hc ▸ List.mem_cons_self) ha
      | cons c' a' =>
        obtain ⟨rfl, htail⟩ := List.cons.inj h
        obtain ⟨rfl, rfl⟩ := ih (fun hm => ha (List.mem_cons_of_mem _ hm))
          (fun hm => ha' (List.mem_cons_of_mem _ hm)) htail
        exact ⟨rfl, rfl⟩
  · rintro ⟨rfl, rfl⟩
    rfl

theorem decimal_inj {m n : ℕ} : decimal m = decimal n ↔ m = n := by
  refine ⟨fun h => ?_, fun h => h ▸ rfl⟩
  rw [← natOfDigits_decimal m, h, natOfDigits_decimal]

theorem recordSeparator_notMem_decimal (n : ℕ) : recordSeparator ∉ decimal n := by
  intro h
  have hdigit := isDigit_of_mem_decimal h
  exact absurd hdigit (by decide)

/-- The same scope, as far as its visibility tells. -/
def CacheScope.SameAs (s s' : CacheScope) : Prop :=
  s.visibility = s'.visibility ∧ s.tenant = s'.tenant ∧
    (s.visibility ≠ .tenant → s.workflow = s'.workflow) ∧
    (s.visibility = .agent → s.agent = s'.agent)

theorem unitSeparator_notMem (word : String) (h : word.toList.all (0x20 ≤ ·.toNat) = true) :
    unitSeparator ∉ py word := by
  intro hmem
  obtain ⟨c, hc, heq⟩ := List.mem_map.mp hmem
  have hge : 0x20 ≤ c.toNat := by simpa using List.all_eq_true.mp h c hc
  have hval : c.toNat = 0x1F := congrArg Fin.val heq
  omega

theorem CacheScope.identity_inj {s s' : CacheScope} (h : s.Valid) (h' : s'.Valid) :
    s.identity = s'.identity ↔ s.SameAs s' := by
  have htenant : unitSeparator ∉ py "tenant" := unitSeparator_notMem _ (by decide)
  have hworkflow : unitSeparator ∉ py "workflow" := unitSeparator_notMem _ (by decide)
  have hprivate : unitSeparator ∉ py "private" := unitSeparator_notMem _ (by decide)
  have ht := h.tenant.not_mem.1
  have ht' := h'.tenant.not_mem.1
  have hw := h.workflow.not_mem.1
  have hw' := h'.workflow.not_mem.1
  unfold identity SameAs
  cases hs : s.visibility <;> cases hs' : s'.visibility
  · simp [cut_inj htenant htenant]
  · simp [cut_inj htenant hworkflow]
  · simp [cut_inj htenant hprivate]
  · simp [cut_inj hworkflow htenant]
  · simp [cut_inj hworkflow hworkflow, cut_inj ht ht']
  · simp [cut_inj hworkflow hprivate]
  · simp [cut_inj hprivate htenant]
  · simp [cut_inj hprivate hworkflow]
  · simp [cut_inj hprivate hprivate, cut_inj ht ht', cut_inj hw hw']

theorem CacheScope.Valid.identity {s : CacheScope} (h : s.Valid) :
    recordSeparator ∉ s.identity := by
  have hword : ∀ word ∈ [py "tenant", py "workflow", py "private"], recordSeparator ∉ word := by
    decide
  have hunit : recordSeparator ≠ unitSeparator := by decide
  unfold CacheScope.identity
  cases s.visibility
  · simp [hword, hunit, h.tenant.not_mem.2]
  · simp [hword, hunit, h.tenant.not_mem.2, h.workflow.not_mem.2]
  · simp [hword, hunit, h.tenant.not_mem.2, h.workflow.not_mem.2, h.agent.not_mem.2]

/-- **An identity tells its parts apart.** -/
theorem cacheIdentity_inj {config config' : Setup} {s s' : CacheScope} {n n' : CacheNamespace}
    {v v' : PyStr} (hs : s.Valid) (hs' : s'.Valid) (hn : n.Valid) (hn' : n'.Valid)
    (hv : CacheField v) (hv' : CacheField v') :
    cacheIdentity config s n v = cacheIdentity config' s' n' v' ↔
      s.SameAs s' ∧ n = n' ∧ v = v' ∧
        config.sequenceContextTokens = config'.sequenceContextTokens ∧
        config.kvTokens = config'.kvTokens ∧ config.maxSequences = config'.maxSequences := by
  have hspace : n = n' ↔ n.model = n'.model ∧ n.template = n'.template ∧
      n.tokenizer = n'.tokenizer ∧ n.adapter = n'.adapter ∧ n.context = n'.context := by
    cases n
    cases n'
    simp
  unfold cacheIdentity
  simp only [List.append_assoc, List.cons_append]
  rw [cut_inj hs.identity hs'.identity, cut_inj hn.model.not_mem.2 hn'.model.not_mem.2,
    cut_inj hn.template.not_mem.2 hn'.template.not_mem.2,
    cut_inj hn.tokenizer.not_mem.2 hn'.tokenizer.not_mem.2,
    cut_inj hn.adapter.not_mem.2 hn'.adapter.not_mem.2,
    cut_inj hn.context.not_mem.2 hn'.context.not_mem.2, cut_inj hv.not_mem.2 hv'.not_mem.2,
    cut_inj (recordSeparator_notMem_decimal _) (recordSeparator_notMem_decimal _),
    cut_inj (recordSeparator_notMem_decimal _) (recordSeparator_notMem_decimal _),
    decimal_inj, decimal_inj, decimal_inj, CacheScope.identity_inj hs hs', hspace]
  tauto

end Native
