/-
The catalog of tools.

* `stableId`, `shaDigest` — identifiers and digests derived from a JSON value;
* `ToolRevision`, `ToolDefinition` — the tools, with the checks of their
  constructors as fields;
* `Catalog` — distinct tools whose description can be digested.
-/
import LlamaRuntime.Agent.Events

open Json

namespace Agent

variable {F : Type} [Host F]

/-! ### Identifiers and digests -/

/-- `text.encode("utf-8")` -/
def encode (text : PyStr) : Except Raised (List UInt8) :=
  match encodeUtf8 text with
  | none => .error (.builtin .unicodeEncodeError)
  | some bytes => .ok bytes

/-- `"sha256:" + hashlib.sha256(message).hexdigest()` -/
def shaDigest (message : List UInt8) : PyStr := py "sha256:" ++ Sha256.hexdigest message

/-- `_id` and `_stable_id`: a prefix and forty digits of the digest of the canonical text. -/
def stableId (kind : String) (value : Value F) : Except Raised PyStr := do
  let text ← canonicalJson value
  let bytes ← encode text
  .ok (py kind ++ py "_" ++ (Sha256.hexdigest bytes).take 40)

/-! ### Tools -/

inductive RetryScope where
  | never | transient | idempotent | reconcileOnly
  deriving DecidableEq

def RetryScope.value : RetryScope → PyStr
  | never => py "never"
  | transient => py "transient"
  | idempotent => py "idempotent"
  | reconcileOnly => py "reconcile_only"

structure ToolRevision (F : Type) [Host F] where
  version : PyStr
  semanticSchema : List (PyStr × Value F)
  nativeInputSchema : List (PyStr × Value F)
  nativeOutputSchema : List (PyStr × Value F)
  compilerRevision : PyStr
  effectClass : EffectClass
  permissionPolicyId : PyStr
  scopePolicyId : PyStr
  defaultFlowPolicy : FlowPolicy
  timeoutMs : ℤ
  resultByteCap : ℤ
  resultTokenCap : ℤ
  retryScope : RetryScope
  ids_ok : ∀ id ∈ [version, compilerRevision, permissionPolicyId, scopePolicyId], IsIdentifier id
  caps_ok : 0 < timeoutMs ∧ 0 < resultByteCap ∧ 0 < resultTokenCap

structure ToolDefinition (F : Type) [Host F] where
  toolId : PyStr
  revision : ToolRevision F
  description : PyStr
  id_ok : IsIdentifier toolId
  description_ok : IsText description

/-- `_plain` of a revision -/
def ToolRevision.plain (r : ToolRevision F) : Value F :=
  .dict
    [(py "version", .str r.version),
      (py "semantic_schema", .dict r.semanticSchema),
      (py "native_input_schema", .dict r.nativeInputSchema),
      (py "native_output_schema", .dict r.nativeOutputSchema),
      (py "compiler_revision", .str r.compilerRevision),
      (py "effect_class", .str r.effectClass.value),
      (py "permission_policy_id", .str r.permissionPolicyId),
      (py "scope_policy_id", .str r.scopePolicyId),
      (py "default_flow_policy", .str r.defaultFlowPolicy.value),
      (py "timeout_ms", .int r.timeoutMs),
      (py "result_byte_cap", .int r.resultByteCap),
      (py "result_token_cap", .int r.resultTokenCap),
      (py "retry_scope", .str r.retryScope.value)]

/-- `_plain` of a tool -/
def ToolDefinition.plain (t : ToolDefinition F) : Value F :=
  .dict
    [(py "tool_id", .str t.toolId),
      (py "revision", t.revision.plain),
      (py "description", .str t.description)]

/-- The bytes a catalog is digested from. -/
def catalogBytes (tools : List (ToolDefinition F)) : Except Raised (List UInt8) := do
  let text ← canonicalJson (.dict (tools.map fun t => (t.toolId, t.plain)))
  encode text

/-- `ImmutableToolCatalog`: a repeated tool or a tool that cannot be digested is
refused when the catalog is built. -/
structure Catalog (F : Type) [Host F] where
  tools : List (ToolDefinition F)
  nodup : (tools.map ToolDefinition.toolId).Nodup
  bytes : List UInt8
  bytes_ok : catalogBytes tools = .ok bytes

namespace Catalog

def digest (c : Catalog F) : PyStr := shaDigest c.bytes

/-- `get`, which raises `KeyError` -/
def get? (c : Catalog F) (toolId : PyStr) : Option (ToolDefinition F) :=
  c.tools.find? fun t => t.toolId = toolId

/-- `all`: the tools in the order of their names -/
def all (c : Catalog F) : List (ToolDefinition F) :=
  c.tools.insertionSort fun a b => a.toolId ≤ b.toolId

end Catalog

theorem Catalog.toolId_of_get? {c : Catalog F} {toolId : PyStr} {t : ToolDefinition F}
    (h : c.get? toolId = some t) : t.toolId = toolId := by
  have := List.find?_some h
  exact of_decide_eq_true this

theorem Catalog.mem_all {c : Catalog F} {t : ToolDefinition F} : t ∈ c.all ↔ t ∈ c.tools :=
  (List.perm_insertionSort _ _).mem_iff

/-! ### Derived identifiers are identifiers -/

/-- A short text of printable ASCII characters. -/
def IsPlain (text : PyStr) : Prop := ∀ c ∈ text, 0x20 ≤ c.val ∧ c.val < 0x7F

instance (text : PyStr) : Decidable (IsPlain text) :=
  List.decidableBAll (fun c : CodePoint => 0x20 ≤ c.val ∧ c.val < 0x7F) text

theorem IsPlain.append {a b : PyStr} (ha : IsPlain a) (hb : IsPlain b) : IsPlain (a ++ b) := by
  intro c hc
  rcases List.mem_append.mp hc with hc | hc
  · exact ha c hc
  · exact hb c hc

theorem IsPlain.utf8Size {text : PyStr} (h : IsPlain text) :
    (text.flatMap CodePoint.utf8Bytes).length = text.length := by
  induction text with
  | nil => rfl
  | cons c rest ih =>
    obtain ⟨hc, hrest⟩ := List.forall_mem_cons.mp h
    have hsize : c.utf8Size = 1 := if_pos (by omega)
    rw [List.flatMap_cons, List.length_append, CodePoint.length_utf8Bytes, hsize, ih hrest,
      List.length_cons]
    omega

theorem IsPlain.isIdentifier {text : PyStr} (h : IsPlain text) (hne : text ≠ [])
    (hlen : text.length ≤ maxIdBytes) : IsIdentifier text := by
  refine ⟨hne, fun c hc hsur => ?_, by rw [h.utf8Size]; exact hlen, fun c hc hctl => ?_⟩
  · have hplain := h c hc
    have hlow : 0xD800 ≤ c.val := hsur.1
    omega
  · have hplain := h c hc
    rcases hctl with hlt | heq <;> omega

theorem isPlain_hexdigest (message : List UInt8) : IsPlain (Sha256.hexdigest message) := by
  intro c hc
  rcases Sha256.isHex_of_mem_hexdigest hc with h | h <;> omega

theorem stableId_ok {kind : String} {value : Value F} {id : PyStr}
    (h : stableId kind value = .ok id) :
    ∃ bytes, id = py kind ++ py "_" ++ (Sha256.hexdigest bytes).take 40 := by
  obtain ⟨text, -, h⟩ := bind_ok.mp h
  obtain ⟨bytes, -, h⟩ := bind_ok.mp h
  exact ⟨bytes, (Except.ok.inj h).symm⟩

/-- An identifier derived with a short plain prefix passes the check of identifiers. -/
theorem isIdentifier_stableId {kind : String} {value : Value F} {id : PyStr}
    (h : stableId kind value = .ok id) (hkind : IsPlain (py kind))
    (hlen : (py kind).length ≤ 40) : IsIdentifier id := by
  obtain ⟨bytes, rfl⟩ := stableId_ok h
  have hbar : IsPlain (py "_") := by decide
  have hplain : IsPlain (py kind ++ py "_" ++ (Sha256.hexdigest bytes).take 40) :=
    (hkind.append hbar).append fun c hc => isPlain_hexdigest bytes c (List.mem_of_mem_take hc)
  refine hplain.isIdentifier (by simp [py]) ?_
  have h40 : ((Sha256.hexdigest bytes).take 40).length = 40 := by simp
  have h1 : (py "_").length = 1 := rfl
  rw [List.length_append, List.length_append, h40, h1]
  show _ ≤ 128
  omega

end Agent
