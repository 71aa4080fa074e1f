/-
What is asked of the model, and what it may answer.

* `buildContext` — the context of a decision, as far as its digest goes;
* `ToolIntent` — a decision that passed the checks of its constructor;
  `ToolIntent.parse` reads it from the output of an inference.
-/
import LlamaRuntime.Agent.Catalog
import LlamaRuntime.Python.Utf8

open Json

namespace Agent

variable {F : Type} [Host F]

def maxDecisionBytes : ℕ := 16384

def maxContextBytes : ℕ := 32768

def maxStateRefs : ℕ := 32

def maxToolCards : ℕ := 8

/-! ### The context of a decision -/

structure AtomicTask (F : Type) where
  objective : PyStr
  acceptanceCriteria : List PyStr
  stateRefs : Dict PyStr PyStr
  bindings : Dict PyStr (Value F)
  acceptance : Dict PyStr PyStr

/-- `SemanticToolCard` -/
structure ToolCard (F : Type) where
  toolId : PyStr
  version : PyStr
  description : PyStr
  inputSlots : List (Value F)
  effectClass : PyStr
  resultShape : PyStr

/-- `tuple(value)` -/
def tupleOf : Value F → Except Raised (List (Value F))
  | .list items => .ok items
  | .tuple items => .ok items
  | .str s => .ok (s.map fun c => .str [c])
  | .dict items => .ok (items.map fun f => .str f.1)
  | _ => .error (.builtin .typeError)

/-- `str(value)` -/
def strOf : Value F → PyStr
  | .str s => s
  | v => Host.strOf v

def cardOf (tool : ToolDefinition F) : Except Raised (ToolCard F) := do
  let inputSlots ← tupleOf
    ((Items.lookup (py "required") tool.revision.semanticSchema).getD (.tuple []))
  .ok
    { toolId := tool.toolId
      version := tool.revision.version
      description := tool.description
      inputSlots
      effectClass := tool.revision.effectClass.value
      resultShape := strOf ((Items.lookup (py "type") tool.revision.nativeOutputSchema).getD
        (.str (py "object"))) }

/-- `_cards` -/
def cards (catalog : Catalog F) : Except Raised (List (ToolCard F)) := catalog.all.mapM cardOf

def ToolCard.plain (card : ToolCard F) : Value F :=
  .dict
    [(py "tool_id", .str card.toolId),
      (py "version", .str card.version),
      (py "description", .str card.description),
      (py "input_slots", .list card.inputSlots),
      (py "effect_class", .str card.effectClass),
      (py "result_shape", .str card.resultShape)]

def contextValue (task : AtomicTask F) (cards : List (ToolCard F)) (catalogDigest : PyStr) :
    Value F :=
  .dict
    [(py "instruction_version", .str (py "atomic-tool-decision.v1")),
      (py "task", .dict
        [(py "objective", .str task.objective),
          (py "acceptance_criteria", .list (task.acceptanceCriteria.map .str))]),
      (py "state_refs", .dict (task.stateRefs.items.map fun f => (f.1, .str f.2))),
      (py "tool_cards", .list (cards.map ToolCard.plain)),
      (py "latest_observation", .null),
      (py "tool_catalog_digest", .str catalogDigest)]

/-- `DecisionContextBuilder.build`: the digest of the context it builds. -/
def buildContext (task : AtomicTask F) (cards : List (ToolCard F)) (catalogDigest : PyStr) :
    Except Raised PyStr :=
  if maxStateRefs < task.stateRefs.items.length then
    .error (.contract "context_too_large" (py "too many state references"))
  else if cards.length < 1 ∨ maxToolCards < cards.length then
    .error (.contract "invalid_shortlist" (py "decision context requires 1-8 tools"))
  else if ¬ (cards.map ToolCard.toolId).Nodup then
    .error (.contract "invalid_shortlist" (py "tool shortlist must contain 1-8 unique tools"))
  else do
    let text ← canonicalJson (contextValue task cards catalogDigest)
    let encoded ← encode text
    if maxContextBytes < encoded.length then
      .error (.contract "context_too_large" (py "decision context exceeds byte cap"))
    else .ok (shaDigest encoded)

/-- `DecisionRequest`, without the parts that only the model sees. -/
structure DecisionRequest where
  requestId : PyStr
  attemptId : PyStr
  contextDigest : PyStr
  catalogDigest : PyStr
  /-- the tools in the output schema -/
  toolIds : List PyStr

/-! ### The answer -/

/-- `str | bytes` -/
inductive Output where
  | text (s : PyStr)
  | bytes (b : List UInt8)

structure DecisionResponse where
  output : Output
  inputTokens : ℤ
  outputTokens : ℤ
  inferenceMs : ℤ

def Output.encoded : Output → Except Raised (List UInt8)
  | .text s => encode s
  | .bytes b => .ok b

/-- `_strict_object`; the message of a refused text also names the repeated key
or the constant. -/
def strictObject (raw : Output) (maxBytes : ℕ) : Except Raised (List (PyStr × Value F)) := do
  let encoded ← raw.encoded
  if maxBytes < encoded.length then
    .error (.contract "contract_too_large" (py "JSON exceeds its UTF-8 byte cap"))
  else
    match decodeUtf8 encoded with
    | none => .error (.contract "invalid_json" (py "invalid canonical JSON input"))
    | some text =>
      match (loads text : Except Fault (Value F)) with
      | .error .digits => .error (.builtin .valueError)
      | .error .refused => .error (.contract "invalid_json" (py "duplicate key or constant"))
      | .error .malformed =>
        .error (.contract "invalid_json" (py "invalid canonical JSON input"))
      | .ok value =>
        match value.dict? with
        | none => .error (.contract "invalid_contract" (py "root must be an object"))
        | some items => .ok items

namespace DecisionAction

def members : List DecisionAction := [callTool, askUser, submit, blocked]

/-- `DecisionAction(text)` -/
def ofValue (text : PyStr) : Option DecisionAction := members.find? fun a => a.value = text

end DecisionAction

/-- The fields that go with an action. -/
def intentShape (action : DecisionAction) (toolId objective inputHint message : Option PyStr) :
    Bool :=
  if action = .callTool then
    toolId.isSome && objective.isSome && inputHint.isSome && message.isNone
  else toolId.isNone && objective.isNone && inputHint.isNone && message.isSome

/-- A decision that its constructor accepts. -/
structure ToolIntent where
  action : DecisionAction
  toolId : Option PyStr
  objective : Option PyStr
  inputHint : Option PyStr
  message : Option PyStr
  texts_ok : ∀ field ∈ [toolId, objective, inputHint, message], ∀ text ∈ field, IsText text
  shape_ok : intentShape action toolId objective inputHint message = true

/-- A text field of a decision, which may be absent. -/
abbrev NullableText := { text : Option PyStr // ∀ t ∈ text, IsText t }

/-- `_text(value, field, nullable=True)` -/
def nullableText (items : List (PyStr × Value F)) (field : String) : Except Raised NullableText :=
  match (Items.lookup (py field) items).getD .null with
  | .null => .ok ⟨none, fun _ h => (nomatch h)⟩
  | .str s =>
    match h : checkText s field with
    | .ok () => .ok ⟨some s, fun _ ht => Option.some_inj.mp ht ▸ checkText_ok.mp h⟩
    | .error e => .error e
  | _ => .error (.contract "invalid_contract" (py s!"{field} must be a non-empty string"))

/-- `ToolIntent(...)` of checked texts: `_validate_shape` -/
def ToolIntent.make (action : DecisionAction) (toolId objective inputHint message : NullableText) :
    Except Raised ToolIntent :=
  if hshape : intentShape action toolId objective inputHint message = true then
    .ok
      { action, toolId, objective, inputHint, message
        texts_ok := by
          simp only [List.mem_cons, List.not_mem_nil, or_false, forall_eq_or_imp, forall_eq]
          exact ⟨toolId.2, objective.2, inputHint.2, message.2⟩
        shape_ok := hshape }
  else
    .error (.contract "invalid_contract" (action.value ++ py " fields violate the v1 invariant"))

def intentFields : List PyStr :=
  [py "action", py "tool_id", py "objective", py "input_hint", py "message"]

/-- `ToolIntent.parse` -/
def ToolIntent.parse (F : Type) [Host F] (raw : Output) (allowed : List PyStr) :
    Except Raised ToolIntent := do
  let items : List (PyStr × Value F) ← strictObject raw maxDecisionBytes
  if ¬ (items.length = 5 ∧ ∀ k ∈ intentFields, k ∈ items.map Prod.fst) then
    .error (.contract "invalid_contract" (py "ToolIntent must contain exactly five fields"))
  else
    match ((Items.lookup (py "action") items).bind Value.str?).bind DecisionAction.ofValue with
    | none => .error (.contract "invalid_contract" (py "unknown ToolIntent action"))
    | some action => do
      let toolId ← nullableText items "tool_id"
      let objective ← nullableText items "objective"
      let inputHint ← nullableText items "input_hint"
      let message ← nullableText items "message"
      let intent ← ToolIntent.make action toolId objective inputHint message
      if intent.action = .callTool ∧ ∀ id ∈ intent.toolId, id ∉ allowed then
        .error (.contract "unknown_tool" (py "tool_id is not in the authorized shortlist"))
      else .ok intent

theorem ToolIntent.callTool_fields {intent : ToolIntent} (h : intent.action = .callTool) :
    ∃ toolId inputHint, intent.toolId = some toolId ∧ intent.inputHint = some inputHint := by
  have hshape := intent.shape_ok
  rw [intentShape, if_pos h] at hshape
  simp only [Bool.and_eq_true] at hshape
  obtain ⟨toolId, htool⟩ := Option.isSome_iff_exists.mp hshape.1.1.1
  obtain ⟨inputHint, hhint⟩ := Option.isSome_iff_exists.mp hshape.1.2
  exact ⟨toolId, inputHint, htool, hhint⟩

theorem ToolIntent.mem_allowed {raw : Output} {allowed : List PyStr} {intent : ToolIntent}
    (h : ToolIntent.parse F raw allowed = .ok intent) (haction : intent.action = .callTool) :
    ∃ id ∈ allowed, intent.toolId = some id := by
  obtain ⟨items, -, h⟩ := bind_ok.mp h
  split_ifs at h
  split at h
  · exact absurd h (by simp)
  · obtain ⟨toolId, -, h⟩ := bind_ok.mp h
    obtain ⟨objective, -, h⟩ := bind_ok.mp h
    obtain ⟨inputHint, -, h⟩ := bind_ok.mp h
    obtain ⟨message, -, h⟩ := bind_ok.mp h
    obtain ⟨made, -, h⟩ := bind_ok.mp h
    split_ifs at h with hallowed
    obtain rfl := Except.ok.inj h
    obtain ⟨id, hint, hid, -⟩ := ToolIntent.callTool_fields haction
    refine ⟨id, ?_, hid⟩
    by_contra hno
    refine hallowed ⟨haction, fun id' hid' => ?_⟩
    rw [hid] at hid'
    exact Option.some_inj.mp hid' ▸ hno

end Agent
