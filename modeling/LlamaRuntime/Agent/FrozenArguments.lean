/-
The arguments of a compiled call, before and after it freezes them.

`CompiledToolCall` turns the native arguments of an adapter into read-only mappings and
tuples; `arguments_digest` undoes that, as far as it has to, before it writes them.

* `Frozen`, `freeze` — what a call keeps of its arguments;
* `plain`, `Frozen.plain` — what is written of native arguments and of frozen ones;
* `Same` — equality of frozen arguments, where a mapping has no order;
* `digest_frozen` — freezing keeps the digest, also where there is none;
* `digests_survive` — so one digest is bound into the identity of a call and recorded
  of it, and only a collision gives it to other arguments.
-/
import LlamaRuntime.Agent.Tools
import LlamaRuntime.Agent.CanonicalPayloads
import LlamaRuntime.Text.Utf8Codes

open Json

namespace Agent

variable {F : Type}

/-- A tree that `_freeze` has made: `MappingProxyType`s and tuples. -/
inductive Frozen (F : Type) where
  | null
  | bool (b : Bool)
  | int (n : ℤ)
  | float (x : F)
  | str (s : PyStr)
  | tuple (items : List (Frozen F))
  | proxy (items : List (PyStr × Frozen F))

mutual

/-- `_freeze` -/
def freeze : Value F → Frozen F
  | .null => .null
  | .bool b => .bool b
  | .int n => .int n
  | .float x => .float x
  | .str s => .str s
  | .list items => .tuple (freezeItems items)
  | .tuple items => .tuple (freezeItems items)
  | .dict items => .proxy (freezeFields items)

def freezeItems : List (Value F) → List (Frozen F)
  | [] => []
  | v :: rest => freeze v :: freezeItems rest

def freezeFields : List (PyStr × Value F) → List (PyStr × Frozen F)
  | [] => []
  | (k, v) :: rest => (k, freeze v) :: freezeFields rest

end

mutual

/-- `plain` of native arguments: it does not look into lists. -/
def plain : Value F → Value F
  | .dict items => .dict (plainFields items)
  | .tuple items => .list (plainItems items)
  | v => v

def plainItems : List (Value F) → List (Value F)
  | [] => []
  | v :: rest => plain v :: plainItems rest

def plainFields : List (PyStr × Value F) → List (PyStr × Value F)
  | [] => []
  | (k, v) :: rest => (k, plain v) :: plainFields rest

end

mutual

/-- `plain` of frozen arguments -/
def Frozen.plain : Frozen F → Value F
  | .null => .null
  | .bool b => .bool b
  | .int n => .int n
  | .float x => .float x
  | .str s => .str s
  | .tuple items => .list (Frozen.plainItems items)
  | .proxy items => .dict (Frozen.plainFields items)

def Frozen.plainItems : List (Frozen F) → List (Value F)
  | [] => []
  | v :: rest => v.plain :: Frozen.plainItems rest

def Frozen.plainFields : List (PyStr × Frozen F) → List (PyStr × Value F)
  | [] => []
  | (k, v) :: rest => (k, v.plain) :: Frozen.plainFields rest

end

theorem freezeItems_eq (items : List (Value F)) : freezeItems items = items.map freeze := by
  induction items with
  | nil => rfl
  | cons v rest ih => rw [freezeItems, List.map_cons, ih]

theorem freezeFields_eq (items : List (PyStr × Value F)) :
    freezeFields items = items.map fun f => (f.1, freeze f.2) := by
  induction items with
  | nil => rfl
  | cons f rest ih => rw [freezeFields, List.map_cons, ih]

theorem plainItems_eq (items : List (Value F)) : plainItems items = items.map plain := by
  induction items with
  | nil => rfl
  | cons v rest ih => rw [plainItems, List.map_cons, ih]

theorem plainFields_eq (items : List (PyStr × Value F)) :
    plainFields items = items.map fun f => (f.1, plain f.2) := by
  induction items with
  | nil => rfl
  | cons f rest ih => rw [plainFields, List.map_cons, ih]

theorem Frozen.plainItems_freeze (items : List (Value F)) :
    Frozen.plainItems (freezeItems items) = items.map fun v => (freeze v).plain := by
  induction items with
  | nil => rfl
  | cons v rest ih => rw [freezeItems, Frozen.plainItems, List.map_cons, ih]

theorem Frozen.plainFields_freeze (items : List (PyStr × Value F)) :
    Frozen.plainFields (freezeFields items) = items.map fun f => (f.1, (freeze f.2).plain) := by
  induction items with
  | nil => rfl
  | cons f rest ih => rw [freezeFields, Frozen.plainFields, List.map_cons, ih]

/-! ### What is written -/

/-- What `plain` does not look into is a list already. -/
theorem plain_alike (v : Value F) : v.Alike (plain v) := by
  induction v using Value.induction with
  | null | bool | int | float | str | list =>
    rw [plain.eq_def]
    exact .refl _
  | tuple items ih =>
    rw [plain, plainItems_eq]
    exact (Value.Alike.asList items).trans (Value.alike_items [] ih)
  | dict items ih =>
    rw [plain, plainFields_eq]
    exact Value.alike_fields [] ih

theorem freeze_alike (v : Value F) : v.Alike (freeze v).plain := by
  induction v using Value.induction with
  | null | bool | int | float | str =>
    rw [freeze, Frozen.plain]
    exact .refl _
  | list items ih =>
    rw [freeze, Frozen.plain, Frozen.plainItems_freeze]
    exact Value.alike_items [] ih
  | tuple items ih =>
    rw [freeze, Frozen.plain, Frozen.plainItems_freeze]
    exact (Value.Alike.asList items).trans (Value.alike_items [] ih)
  | dict items ih =>
    rw [freeze, Frozen.plain, Frozen.plainFields_freeze]
    exact Value.alike_fields (f := fun v => (freeze v).plain) [] ih

/-! ### Equal frozen arguments -/

/-- Equality of frozen trees: two mappings are equal in any order of their items. -/
inductive Frozen.Same : Frozen F → Frozen F → Prop
  | refl (v : Frozen F) : Same v v
  | symm {v w : Frozen F} (h : Same v w) : Same w v
  | trans {u v w : Frozen F} (h : Same u v) (h' : Same v w) : Same u w
  | reorder {items items' : List (PyStr × Frozen F)} (h : items.Perm items') :
      Same (.proxy items) (.proxy items')
  | item {v w : Frozen F} (before after : List (Frozen F)) (h : Same v w) :
      Same (.tuple (before ++ v :: after)) (.tuple (before ++ w :: after))
  | field {v w : Frozen F} (before after : List (PyStr × Frozen F)) (k : PyStr) (h : Same v w) :
      Same (.proxy (before ++ (k, v) :: after)) (.proxy (before ++ (k, w) :: after))

theorem freeze_same {v w : Value F} (h : v.Alike w) : (freeze v).Same (freeze w) := by
  induction h with
  | refl v => exact .refl _
  | symm h ih => exact ih.symm
  | trans h h' ih ih' => exact ih.trans ih'
  | asList items =>
    rw [freeze, freeze]
    exact .refl _
  | reorder hperm =>
    rw [freeze, freeze, freezeFields_eq, freezeFields_eq]
    exact .reorder (hperm.map _)
  | item before after h ih =>
    rw [freeze, freeze, freezeItems_eq, freezeItems_eq, List.map_append, List.map_append,
      List.map_cons, List.map_cons]
    exact .item _ _ ih
  | field before after k h ih =>
    rw [freeze, freeze, freezeFields_eq, freezeFields_eq, List.map_append, List.map_append,
      List.map_cons, List.map_cons]
    exact .field _ _ k ih

/-! ### Digests -/

variable [Host F] {v w : Value F}

/-- The bytes that `arguments_digest` hashes, of what `plain` has given -/
def hashedOf (value : Value F) : Except Raised (List UInt8) := do
  let text ← canonicalJson value
  encode text

def digestOf (value : Value F) : Except Raised PyStr := do
  let bytes ← hashedOf value
  .ok (shaDigest bytes)

/-- `arguments_digest` of frozen arguments -/
def Frozen.argumentsDigest (arguments : Frozen F) : Except Raised PyStr := digestOf arguments.plain

/-- `_mapping`: what a `CompiledToolCall` keeps of its arguments. -/
def mapping (items : List (PyStr × Value F)) : Except Raised (Frozen F) :=
  if ¬ (Value.dict items).all Value.finiteNumber then
    .error (.contract "invalid_contract" (py "non-finite number"))
  else .ok (freeze (.dict items))

theorem canonicalJson_normal (v : Value F) : canonicalJson v.normal = canonicalJson v := by
  unfold canonicalJson
  rw [Value.all_normal Value.finiteNumber_normal, Value.all_normal Value.shortNumber_normal,
    dumps_normal]

theorem digestOf_alike (hwf : v.WellFormed) (h : v.Alike w) : digestOf v = digestOf w := by
  have hnormal := h.wellFormed.2 hwf
  have htext : canonicalJson v = canonicalJson w := by
    rw [← canonicalJson_normal v, hnormal, canonicalJson_normal]
  rw [digestOf, digestOf, hashedOf, hashedOf, htext]

theorem encode_ok {text : PyStr} {bytes : List UInt8} (h : encode text = .ok bytes) :
    encodeUtf8 text = some bytes := by
  unfold encode at h
  split at h
  · cases h
  · next taken htaken => rw [htaken, Except.ok.inj h]

theorem hashedOf_alike {bytes : List UInt8} (hv : v.WellFormed) (hw : w.WellFormed)
    (h : hashedOf v = .ok bytes) (h' : hashedOf w = .ok bytes) : v.Alike w := by
  obtain ⟨text, htext, hbytes⟩ := bind_ok.mp h
  obtain ⟨text', htext', hbytes'⟩ := bind_ok.mp h'
  have hsame : text = text' := encodeUtf8_inj (encode_ok hbytes) (encode_ok hbytes')
  exact (canonicalJson_alike hv hw htext).mp (hsame ▸ htext')

theorem shaDigest_inj {bytes bytes' : List UInt8} (h : shaDigest bytes = shaDigest bytes') :
    Sha256.hexdigest bytes = Sha256.hexdigest bytes' := List.append_cancel_left h

/-! ### Native arguments -/

/-- What an adapter gives: a `dict` of finite numbers, with no key twice. -/
structure NativeArguments (F : Type) [Host F] where
  items : List (PyStr × Value F)
  wellFormed : (Value.dict items).WellFormed
  finite : (Value.dict items).all Value.finiteNumber = true

namespace NativeArguments

variable (arguments other : NativeArguments F)

def tree : Value F := .dict arguments.items

/-- `arguments_digest` of native arguments -/
def argumentsDigest : Except Raised PyStr := digestOf (plain arguments.tree)

def frozen : Frozen F := freeze arguments.tree

theorem mapping_eq : mapping arguments.items = .ok arguments.frozen :=
  if_neg (not_not.mpr arguments.finite)

/-- `plain` makes no difference to what is hashed. -/
theorem argumentsDigest_eq : arguments.argumentsDigest = Agent.argumentsDigest arguments.items := by
  rw [argumentsDigest, ← digestOf_alike arguments.wellFormed (plain_alike arguments.tree)]
  simp only [digestOf, hashedOf, Agent.argumentsDigest, bind_assoc]

/-- Freezing keeps the digest, also where there is none. -/
theorem digest_frozen : arguments.frozen.argumentsDigest = arguments.argumentsDigest := by
  rw [Frozen.argumentsDigest, argumentsDigest, frozen,
    ← digestOf_alike arguments.wellFormed (freeze_alike arguments.tree),
    digestOf_alike arguments.wellFormed (plain_alike arguments.tree)]

theorem frozen_wellFormed : (arguments.frozen.plain).WellFormed :=
  (freeze_alike arguments.tree).wellFormed.1.mp arguments.wellFormed

variable {arguments other}

/-- Equal digests of arguments that do not freeze to the same are a collision. -/
theorem same_or_collision {digest : PyStr} (h : arguments.frozen.argumentsDigest = .ok digest)
    (hother : other.frozen.argumentsDigest = .ok digest) :
    arguments.frozen.Same other.frozen ∨ ∃ bytes bytes',
      hashedOf arguments.frozen.plain = .ok bytes ∧ hashedOf other.frozen.plain = .ok bytes' ∧
        bytes ≠ bytes' ∧ Sha256.hexdigest bytes = Sha256.hexdigest bytes' := by
  obtain ⟨bytes, hbytes, hdigest⟩ := bind_ok.mp h
  obtain ⟨bytes', hbytes', hdigest'⟩ := bind_ok.mp hother
  have hsha := shaDigest_inj ((Except.ok.inj hdigest).trans (Except.ok.inj hdigest').symm)
  by_cases heq : bytes = bytes'
  · have halike := hashedOf_alike arguments.frozen_wellFormed other.frozen_wellFormed hbytes
      (heq ▸ hbytes')
    have htrees := (freeze_alike arguments.tree).trans
      (halike.trans (freeze_alike other.tree).symm)
    exact .inl (freeze_same htrees)
  · exact .inr ⟨bytes, bytes', hbytes, hbytes', heq, hsha⟩

/-- The digest in the identity of a call is that of its frozen arguments. -/
theorem identifyCall_digest {definition : ToolDefinition F} {toolId inputHint : PyStr}
    {context : CompileContext F} {call : CompiledToolCall F}
    (h : identifyCall definition toolId inputHint arguments.items context = .ok call) :
    ∃ digest, arguments.frozen.argumentsDigest = .ok digest ∧
      Agent.argumentsDigest call.nativeArguments = .ok digest ∧
      stableId "inv" (Value.dict (callIdentity context toolId definition.revision.version
        inputHint digest ++ [(py "action_id", (.str call.actionId : Value F))])) =
          .ok call.invocationId := by
  obtain ⟨digest, hdigest, h⟩ := bind_ok.mp h
  obtain ⟨actionId, -, h⟩ := bind_ok.mp h
  obtain ⟨invocationId, hinvocation, h⟩ := bind_ok.mp h
  obtain ⟨_, -, h⟩ := bind_ok.mp h
  obtain ⟨_, -, h⟩ := bind_ok.mp h
  obtain ⟨_, -, h⟩ := bind_ok.mp h
  obtain ⟨_, -, h⟩ := bind_ok.mp h
  obtain rfl := Except.ok.inj h
  refine ⟨digest, ?_, hdigest, hinvocation⟩
  rw [digest_frozen, argumentsDigest_eq, hdigest]

/-- **A call is bound to the arguments it keeps**: their digest is the one in its identity, and
only a collision gives it to arguments that do not freeze to the same. -/
theorem digests_survive (arguments : NativeArguments F) :
    mapping arguments.items = .ok arguments.frozen ∧
    arguments.frozen.argumentsDigest = arguments.argumentsDigest ∧
    (∀ definition toolId inputHint context call,
      identifyCall definition toolId inputHint arguments.items context = .ok call →
      ∃ digest, arguments.frozen.argumentsDigest = .ok digest ∧
        Agent.argumentsDigest call.nativeArguments = .ok digest ∧
        stableId "inv" (Value.dict (callIdentity context toolId definition.revision.version
          inputHint digest ++ [(py "action_id", (.str call.actionId : Value F))])) =
            .ok call.invocationId) ∧
    ∀ (other : NativeArguments F) digest, arguments.argumentsDigest = .ok digest →
      other.argumentsDigest = .ok digest → arguments.frozen.Same other.frozen ∨
        ∃ bytes bytes', hashedOf arguments.frozen.plain = .ok bytes ∧
          hashedOf other.frozen.plain = .ok bytes' ∧ bytes ≠ bytes' ∧
            Sha256.hexdigest bytes = Sha256.hexdigest bytes' := by
  refine ⟨arguments.mapping_eq, arguments.digest_frozen, fun _ _ _ _ _ => identifyCall_digest, ?_⟩
  intro other digest h hother
  exact same_or_collision (arguments.digest_frozen.trans h) (other.digest_frozen.trans hother)

end NativeArguments

end Agent
