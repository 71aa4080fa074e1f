/-
The generate request of the HTTP boundary, from the JSON value of its body.

* `Tame` — a call returns or raises `WorkerError`, and nothing else;
* `exactObject`, `strictInt` — the checks of objects and of integers;
* `GenerateRequest.parse` — the request, with the first message whose role is looked at;
* `tame_parse` — it is tame unless it comes to a role that cannot be hashed;
* `parse_ok` — the fields of a request that is returned.
-/
import LlamaRuntime.Worker.Ipc

namespace Worker

open Json

/-! ### What a call may raise -/

/-- The call returns or raises `WorkerError`. -/
def Tame {α : Type} (r : Except Raised α) : Prop := ∀ e, r = .error e → ∃ w, e = .worker w

section

variable {α β : Type}

@[simp] theorem tame_ok (a : α) : Tame (.ok a) := fun _ h => nomatch h

@[simp] theorem tame_worker (w : WorkerError) : Tame (.error (.worker w) : Except Raised α) := by
  intro e h
  exact ⟨w, (Except.error.inj h).symm⟩

theorem not_tame_unhashable : ¬ Tame (.error .unhashable : Except Raised α) := by
  intro h
  obtain ⟨w, hw⟩ := h _ rfl
  cases hw

theorem not_tame_other (message : PyStr) : ¬ Tame (.error (.other message) : Except Raised α) := by
  intro h
  obtain ⟨w, hw⟩ := h _ rfl
  cases hw

theorem Tame.cases {r : Except Raised α} (h : Tame r) :
    (∃ w, r = .error (.worker w)) ∨ ∃ a, r = .ok a := by
  cases r with
  | ok a => exact .inr ⟨a, rfl⟩
  | error e =>
    obtain ⟨w, rfl⟩ := h e rfl
    exact .inl ⟨w, rfl⟩

/-- A call after another is reached where the first returns. -/
theorem tame_bind {r : Except Raised α} {f : α → Except Raised β} :
    Tame (r >>= f) ↔ Tame r ∧ ∀ a, r = .ok a → Tame (f a) := by
  cases r with
  | ok a =>
    constructor
    · intro h
      exact ⟨tame_ok a, fun b hb => Except.ok.inj hb ▸ h⟩
    · rintro ⟨-, h⟩
      exact h a rfl
  | error e =>
    have hsame : Tame (.error e >>= f) ↔ Tame (.error e : Except Raised α) :=
      ⟨fun h e' he' => h e' (by cases he'; rfl), fun h e' he' => h e' (by cases he'; rfl)⟩
    rw [hsame]
    exact ⟨fun h => ⟨h, fun a ha => nomatch ha⟩, And.left⟩

theorem bind_ok {r : Except Raised α} {f : α → Except Raised β} {b : β} :
    r >>= f = .ok b ↔ ∃ a, r = .ok a ∧ f a = .ok b := by
  cases r with
  | ok a => exact ⟨fun h => ⟨a, rfl, h⟩, fun ⟨a', ha, h⟩ => Except.ok.inj ha ▸ h⟩
  | error e => exact ⟨fun h => (nomatch h), fun ⟨_, ha, _⟩ => (nomatch ha)⟩

end

/-! ### Objects and integers -/

section

variable {F : Type}

/-- `raise WorkerError("invalid_request", message, details=details)` -/
def invalidRequest {α : Type} (message : PyStr) (details : List ErrorDetail := []) :
    Except Raised α := .error (.worker ⟨.invalid_request, message, details⟩)

/-- `sorted(names)` -/
def sortNames (names : List PyStr) : List PyStr := names.insertionSort (· ≤ ·)

/-- `_exact_object` -/
def exactObject (value : Value F) (path : PyStr) (allowed required : List String) :
    Except Raised (List (PyStr × Value F)) :=
  match value with
  | .dict items =>
    let keys := items.map Prod.fst
    let unknown := keys.filter fun key => key ∉ allowed.map py
    let missing := (required.map py).filter fun key => key ∉ keys
    let details :=
      (sortNames unknown).map (fun key => ⟨path ++ py "." ++ key, py "unknown field"⟩) ++
        (sortNames missing).map fun key => ⟨path ++ py "." ++ key, py "required field missing"⟩
    if details ≠ [] then invalidRequest (py "invalid fields at " ++ path) details else .ok items
  | _ => invalidRequest (path ++ py " must be an object")

/-- `items[key]` -/
def subscript (items : List (PyStr × Value F)) (key : String) : Except Raised (Value F) :=
  match Items.lookup (py key) items with
  | some value => .ok value
  | none => .error (.other (py "KeyError"))

/-- `_strict_int`, with its default bound -/
def strictInt (value : Value F) (path : PyStr) : Except Raised ℤ :=
  match value with
  | .int n => if n < 1 then invalidRequest (path ++ py " must be an integer >= 1") else .ok n
  | _ => invalidRequest (path ++ py " must be an integer >= 1")

/-! ### Requests -/

structure Message where
  role : PyStr
  content : PyStr

structure OutputContract (F : Type) where
  version : PyStr
  schema : List (PyStr × Value F)
  instructions : PyStr

structure Limits where
  reasoningTokens : ℤ
  finalTokens : ℤ
  totalTokens : ℤ
  queueTimeoutMs : ℤ
  executionTimeoutMs : ℤ

structure StreamOptions where
  enabled : Bool
  includeReasoning : Bool

structure GenerateRequest (F : Type) where
  protocolVersion : PyStr
  modelId : PyStr
  messages : List Message
  outputContract : OutputContract F
  limits : Limits
  stream : StreamOptions
  clientRequestId : Option PyStr

/-- `PROTOCOL_VERSION` -/
def protocolVersion : PyStr := py "model-worker.v1"

/-- `ALLOWED_ROLES` -/
def allowedRoles : List String := ["system", "user", "assistant"]

/-- The fields of `Limits` -/
def limitNames : List String :=
  ["reasoning_tokens", "final_tokens", "total_tokens", "queue_timeout_ms", "execution_timeout_ms"]

/-- `$.messages[index]` -/
def messagePath (index : ℕ) : PyStr := py "$.messages[" ++ decimal index ++ py "]"

/-- One round of the loop over the messages. -/
def parseMessage (index : ℕ) (item : Value F) : Except Raised Message := do
  let obj ← exactObject item (messagePath index) ["role", "content"] ["role", "content"]
  let role ← subscript obj "role"
  if ¬ (← memberOf (some role) allowedRoles) then
    invalidRequest (py "invalid role at " ++ messagePath index ++ py ".role")
  else
    match (← subscript obj "content"), role with
    | .str content, .str role =>
      if content = [] then
        invalidRequest (py "content must be a non-empty string at " ++ messagePath index)
      else .ok ⟨role, content⟩
    | _, _ => invalidRequest (py "content must be a non-empty string at " ++ messagePath index)

def parseMessages (index : ℕ) : List (Value F) → Except Raised (List Message)
  | [] => .ok []
  | item :: rest => do
    let message ← parseMessage index item
    let messages ← parseMessages (index + 1) rest
    .ok (message :: messages)

/-- The fields a request must have -/
def bodyKeys : List String := ["protocol_version", "model_id", "messages", "output_contract", "limits"]

/-- What is checked before the messages: the body, and its messages. -/
def parseHeader (value : Value F) :
    Except Raised (List (PyStr × Value F) × PyStr × List (Value F)) := do
  let body ← exactObject value (py "$") (bodyKeys ++ ["stream", "metadata"]) bodyKeys
  if (← subscript body "protocol_version").str? ≠ some protocolVersion then
    invalidRequest (py "protocol_version must be " ++ protocolVersion)
  else
    match (← subscript body "model_id").str? with
    | none => invalidRequest (py "model_id must be a non-empty string")
    | some modelId =>
      if modelId = [] then invalidRequest (py "model_id must be a non-empty string")
      else
        match (← subscript body "messages") with
        | .list (item :: items) => .ok (body, modelId, item :: items)
        | _ => invalidRequest (py "messages must be a non-empty array")

/-- `output_contract` -/
def parseOutputContract (value : Value F) : Except Raised (OutputContract F) := do
  let contract ← exactObject value (py "$.output_contract")
    ["version", "schema", "instructions"] ["version", "schema"]
  let version ← subscript contract "version"
  match (← subscript contract "schema") with
  | .dict schema =>
    if version.str? ≠ some (py "structured-output.v1") then
      invalidRequest (py "invalid output contract version or schema type")
    else
      match (Items.lookup (py "instructions") contract).getD (.str []) with
      | .str instructions => .ok ⟨py "structured-output.v1", schema, instructions⟩
      | _ => invalidRequest (py "output_contract.instructions must be a string")
  | _ => invalidRequest (py "invalid output contract version or schema type")

/-- `_strict_int` of every limit, in the order of the object. -/
def strictInts : List (PyStr × Value F) → Except Raised (List (PyStr × ℤ))
  | [] => .ok []
  | (name, value) :: rest => do
    let n ← strictInt value (py "$.limits." ++ name)
    let ints ← strictInts rest
    .ok ((name, n) :: ints)

/-- A keyword argument of `Limits`. -/
def argument (ints : List (PyStr × ℤ)) (name : String) : Except Raised ℤ :=
  match Items.lookup (py name) ints with
  | some n => .ok n
  | none => .error (.other (py "TypeError"))

/-- `limits` -/
def parseLimits (value : Value F) : Except Raised Limits := do
  let raw ← exactObject value (py "$.limits") limitNames limitNames
  let ints ← strictInts raw
  let limits : Limits :=
    { reasoningTokens := ← argument ints "reasoning_tokens"
      finalTokens := ← argument ints "final_tokens"
      totalTokens := ← argument ints "total_tokens"
      queueTimeoutMs := ← argument ints "queue_timeout_ms"
      executionTimeoutMs := ← argument ints "execution_timeout_ms" }
  if limits.totalTokens < limits.reasoningTokens ∨ limits.totalTokens < limits.finalTokens ∨
      limits.reasoningTokens + limits.finalTokens < limits.totalTokens then
    invalidRequest (py "token budgets violate reasoning/final/total invariants")
  else .ok limits

/-- A flag of the stream options. -/
def parseFlag (stream : List (PyStr × Value F)) (name : String) : Except Raised Bool :=
  match Items.lookup (py name) stream with
  | none => .ok false
  | some (.bool b) => .ok b
  | some _ => invalidRequest (py "$.stream." ++ py name ++ py " must be a boolean")

/-- `stream` -/
def parseStream (value : Value F) : Except Raised StreamOptions := do
  let stream ← exactObject value (py "$.stream") ["enabled", "include_reasoning"] []
  let enabled ← parseFlag stream "enabled"
  let includeReasoning ← parseFlag stream "include_reasoning"
  .ok ⟨enabled, includeReasoning⟩

/-- `metadata` -/
def parseMetadata (value : Value F) : Except Raised (Option PyStr) := do
  let metadata ← exactObject value (py "$.metadata") ["client_request_id"] []
  match (Items.lookup (py "client_request_id") metadata).getD .null with
  | .null => .ok none
  | .str clientId => .ok (some clientId)
  | _ => invalidRequest (py "metadata.client_request_id must be a string")

/-- `GenerateRequest.parse` -/
def GenerateRequest.parse (value : Value F) : Except Raised (GenerateRequest F) := do
  let (body, modelId, items) ← parseHeader value
  let messages ← parseMessages 0 items
  let contract ← parseOutputContract (← subscript body "output_contract")
  let limits ← parseLimits (← subscript body "limits")
  let stream ← parseStream ((Items.lookup (py "stream") body).getD (.dict []))
  let clientId ← parseMetadata ((Items.lookup (py "metadata") body).getD (.dict []))
  .ok ⟨Worker.protocolVersion, modelId, messages, contract, limits, stream, clientId⟩

/-! ### What they return -/

theorem tame_invalidRequest {α : Type} (message : PyStr) (details : List ErrorDetail) :
    Tame (invalidRequest message details : Except Raised α) := tame_worker _

theorem invalidRequest_ne_ok {α : Type} {message : PyStr} {details : List ErrorDetail} {a : α} :
    (invalidRequest message details : Except Raised α) ≠ .ok a := nofun

theorem sortNames_eq_nil {names : List PyStr} : sortNames names = [] ↔ names = [] := by
  rw [← List.length_eq_zero_iff, sortNames, List.length_insertionSort, List.length_eq_zero_iff]

theorem tame_exactObject (value : Value F) (path : PyStr) (allowed required : List String) :
    Tame (exactObject value path allowed required) := by
  unfold exactObject
  cases value with
  | dict items =>
    dsimp only
    split_ifs
    · exact tame_invalidRequest _ _
    · exact tame_ok _
  | _ => exact tame_invalidRequest _ _

/-- An object that was taken has the required keys. -/
theorem exactObject_ok {value : Value F} {path : PyStr} {allowed required : List String}
    {items : List (PyStr × Value F)} (h : exactObject value path allowed required = .ok items) :
    value = .dict items ∧ ∀ key ∈ required, ∃ v, Items.lookup (py key) items = some v := by
  unfold exactObject at h
  cases value with
  | dict items' =>
    dsimp only at h
    split_ifs at h with hdetails
    · exact absurd h invalidRequest_ne_ok
    obtain rfl := Except.ok.inj h
    refine ⟨rfl, fun key hkey => ?_⟩
    rw [not_not, List.append_eq_nil_iff, List.map_eq_nil_iff, List.map_eq_nil_iff,
      sortNames_eq_nil, sortNames_eq_nil] at hdetails
    have hmissing := List.filter_eq_nil_iff.mp hdetails.2 (py key) (List.mem_map_of_mem hkey)
    rw [← Option.isSome_iff_exists, Option.isSome_iff_ne_none, Ne, Items.lookup_eq_none]
    simpa using hmissing
  | _ => cases h

theorem subscript_ok {items : List (PyStr × Value F)} {key : String} {v : Value F}
    (h : Items.lookup (py key) items = some v) : subscript items key = .ok v := by
  unfold subscript
  rw [h]

/-- A key that is there is looked up. -/
theorem subscript_bind {α : Type} {items : List (PyStr × Value F)} {key : String} {v : Value F}
    (h : Items.lookup (py key) items = some v) (f : Value F → Except Raised α) :
    subscript items key >>= f = f v := by
  rw [subscript_ok h]
  rfl

theorem tame_strictInt (value : Value F) (path : PyStr) : Tame (strictInt value path) := by
  unfold strictInt
  cases value with
  | int n =>
    dsimp only
    split_ifs
    · exact tame_invalidRequest _ _
    · exact tame_ok _
  | _ => exact tame_invalidRequest _ _

theorem tame_strictInts : ∀ items : List (PyStr × Value F), Tame (strictInts items)
  | [] => tame_ok _
  | (name, value) :: rest => by
    rw [strictInts, tame_bind]
    refine ⟨tame_strictInt value _, fun n _ => ?_⟩
    rw [tame_bind]
    exact ⟨tame_strictInts rest, fun ints _ => tame_ok _⟩

/-- Every limit of the object is an argument. -/
theorem strictInts_ok : ∀ {items : List (PyStr × Value F)} {ints : List (PyStr × ℤ)},
    strictInts items = .ok ints → ints.map Prod.fst = items.map Prod.fst
  | [], _, h => by
    obtain rfl := Except.ok.inj h
    rfl
  | (name, value) :: rest, ints, h => by
    rw [strictInts, bind_ok] at h
    obtain ⟨n, -, h⟩ := h
    obtain ⟨rest', hrest, h⟩ := bind_ok.mp h
    obtain rfl := Except.ok.inj h
    rw [List.map_cons, List.map_cons, strictInts_ok hrest]

theorem argument_ok {items : List (PyStr × Value F)} {ints : List (PyStr × ℤ)} {name : String}
    {v : Value F} (h : strictInts items = .ok ints) (hv : Items.lookup (py name) items = some v) :
    ∃ n, argument ints name = .ok n := by
  unfold argument
  cases hn : Items.lookup (py name) ints with
  | some n => exact ⟨n, rfl⟩
  | none =>
    rw [Items.lookup_eq_none, strictInts_ok h] at hn
    exact absurd (List.mem_map_of_mem (Items.mem_of_lookup hv)) hn

theorem tame_parseLimits (value : Value F) : Tame (parseLimits value) := by
  unfold parseLimits
  rw [tame_bind]
  refine ⟨tame_exactObject _ _ _ _, fun raw hraw => ?_⟩
  obtain ⟨-, hkeys⟩ := exactObject_ok hraw
  rw [tame_bind]
  refine ⟨tame_strictInts raw, fun ints hints => ?_⟩
  have harg : ∀ name ∈ limitNames, ∃ n, argument ints name = .ok n := by
    intro name hname
    obtain ⟨v, hv⟩ := hkeys name hname
    exact argument_ok hints hv
  obtain ⟨n₁, h₁⟩ := harg "reasoning_tokens" (by simp [limitNames])
  obtain ⟨n₂, h₂⟩ := harg "final_tokens" (by simp [limitNames])
  obtain ⟨n₃, h₃⟩ := harg "total_tokens" (by simp [limitNames])
  obtain ⟨n₄, h₄⟩ := harg "queue_timeout_ms" (by simp [limitNames])
  obtain ⟨n₅, h₅⟩ := harg "execution_timeout_ms" (by simp [limitNames])
  rw [h₁, h₂, h₃, h₄, h₅]
  show Tame (ite _ _ _)
  split_ifs
  · exact tame_invalidRequest _ _
  · exact tame_ok _

theorem tame_parseFlag (stream : List (PyStr × Value F)) (name : String) :
    Tame (parseFlag stream name) := by
  unfold parseFlag
  cases Items.lookup (py name) stream with
  | none => exact tame_ok _
  | some v =>
    cases v with
    | bool b => exact tame_ok _
    | _ => exact tame_invalidRequest _ _

theorem tame_parseStream (value : Value F) : Tame (parseStream value) := by
  unfold parseStream
  simp only [tame_bind]
  exact ⟨tame_exactObject _ _ _ _, fun stream _ => ⟨tame_parseFlag _ _, fun enabled _ =>
    ⟨tame_parseFlag _ _, fun includeReasoning _ => tame_ok _⟩⟩⟩

theorem tame_parseMetadata (value : Value F) : Tame (parseMetadata value) := by
  unfold parseMetadata
  rw [tame_bind]
  refine ⟨tame_exactObject _ _ _ _, fun metadata _ => ?_⟩
  cases (Items.lookup (py "client_request_id") metadata).getD .null with
  | null => exact tame_ok _
  | str clientId => exact tame_ok _
  | _ => exact tame_invalidRequest _ _

theorem tame_parseOutputContract (value : Value F) : Tame (parseOutputContract value) := by
  unfold parseOutputContract
  rw [tame_bind]
  refine ⟨tame_exactObject _ _ _ _, fun contract hcontract => ?_⟩
  obtain ⟨-, hkeys⟩ := exactObject_ok hcontract
  obtain ⟨version, hversion⟩ := hkeys "version" (by simp)
  obtain ⟨schema, hschema⟩ := hkeys "schema" (by simp)
  rw [subscript_bind hversion, subscript_bind hschema]
  cases schema with
  | dict schema =>
    dsimp only
    by_cases hother : version.str? ≠ some (py "structured-output.v1")
    · rw [if_pos hother]
      exact tame_invalidRequest _ _
    · rw [if_neg hother]
      cases (Items.lookup (py "instructions") contract).getD (.str []) with
      | str instructions => exact tame_ok _
      | _ => exact tame_invalidRequest _ _
  | _ => exact tame_invalidRequest _ _

theorem tame_parseHeader (value : Value F) : Tame (parseHeader value) := by
  unfold parseHeader
  rw [tame_bind]
  refine ⟨tame_exactObject _ _ _ _, fun body hbody => ?_⟩
  obtain ⟨-, hkeys⟩ := exactObject_ok hbody
  obtain ⟨version, hversion⟩ := hkeys "protocol_version" (by simp [bodyKeys])
  obtain ⟨model, hmodel⟩ := hkeys "model_id" (by simp [bodyKeys])
  obtain ⟨messages, hmessages⟩ := hkeys "messages" (by simp [bodyKeys])
  rw [subscript_bind hversion]
  by_cases hother : version.str? ≠ some protocolVersion
  · rw [if_pos hother]
    exact tame_invalidRequest _ _
  rw [if_neg hother, subscript_bind hmodel]
  cases model.str? with
  | none => exact tame_invalidRequest _ _
  | some modelId =>
    dsimp only
    by_cases hempty : modelId = []
    · rw [if_pos hempty]
      exact tame_invalidRequest _ _
    · rw [if_neg hempty, subscript_bind hmessages]
      cases messages with
      | list items =>
        cases items with
        | nil => exact tame_invalidRequest _ _
        | cons item items => exact tame_ok _
      | _ => exact tame_invalidRequest _ _

theorem parseHeader_ok {value : Value F} {body : List (PyStr × Value F)} {modelId : PyStr}
    {items : List (Value F)} (h : parseHeader value = .ok (body, modelId, items)) :
    value = .dict body ∧ (∀ key ∈ bodyKeys, ∃ v, Items.lookup (py key) body = some v) ∧
      modelId ≠ [] ∧ items ≠ [] ∧ Items.lookup (py "messages") body = some (.list items) := by
  obtain ⟨body', hbody, h⟩ := bind_ok.mp h
  obtain ⟨hvalue, hkeys⟩ := exactObject_ok hbody
  obtain ⟨version, hversion⟩ := hkeys "protocol_version" (by simp [bodyKeys])
  obtain ⟨model, hmodel⟩ := hkeys "model_id" (by simp [bodyKeys])
  obtain ⟨messages, hmessages⟩ := hkeys "messages" (by simp [bodyKeys])
  rw [subscript_bind hversion] at h
  by_cases hother : version.str? ≠ some protocolVersion
  · rw [if_pos hother] at h
    exact absurd h invalidRequest_ne_ok
  rw [if_neg hother, subscript_bind hmodel] at h
  cases hid : model.str? with
  | none =>
    rw [hid] at h
    exact absurd h invalidRequest_ne_ok
  | some modelId' =>
    rw [hid] at h
    dsimp only at h
    by_cases hempty : modelId' = []
    · rw [if_pos hempty] at h
      exact absurd h invalidRequest_ne_ok
    · rw [if_neg hempty, subscript_bind hmessages] at h
      split at h
      · obtain ⟨rfl, rfl, rfl⟩ : body' = body ∧ modelId' = modelId ∧ _ = items := by
          simpa using h
        exact ⟨hvalue, hkeys, hempty, List.cons_ne_nil _ _, hmessages⟩
      · exact absurd h invalidRequest_ne_ok

/-- The role of a message is a list or an object. -/
def RoleUnhashable (index : ℕ) (item : Value F) : Prop :=
  ∃ obj role, exactObject item (messagePath index) ["role", "content"] ["role", "content"] = .ok obj ∧
    Items.lookup (py "role") obj = some role ∧ hashable role = false

theorem tame_parseMessage {index : ℕ} {item : Value F} :
    Tame (parseMessage index item) ↔ ¬ RoleUnhashable index item := by
  unfold parseMessage RoleUnhashable
  rw [tame_bind]
  constructor
  · rintro ⟨-, hrest⟩ ⟨obj, role, hobj, hrole, hhash⟩
    have htame := hrest obj hobj
    rw [subscript_bind hrole, tame_bind, memberOf_some, hhash] at htame
    exact not_tame_unhashable htame.1
  · intro hno
    refine ⟨tame_exactObject _ _ _ _, fun obj hobj => ?_⟩
    obtain ⟨-, hkeys⟩ := exactObject_ok hobj
    obtain ⟨role, hrole⟩ := hkeys "role" (by simp)
    obtain ⟨content, hcontent⟩ := hkeys "content" (by simp)
    have hhash : hashable role = true := by
      by_contra hbad
      exact hno ⟨obj, role, hobj, hrole, Bool.eq_false_of_not_eq_true hbad⟩
    rw [subscript_bind hrole, tame_bind, memberOf_some, if_pos hhash]
    refine ⟨tame_ok _, fun member _ => ?_⟩
    by_cases hmember : member = true
    swap
    · rw [if_pos hmember]
      exact tame_invalidRequest _ _
    · rw [if_neg (not_not.mpr hmember), subscript_bind hcontent]
      cases content with
      | str content =>
        cases role with
        | str role =>
          dsimp only
          split_ifs
          · exact tame_invalidRequest _ _
          · exact tame_ok _
        | _ => exact tame_invalidRequest _ _
      | _ => exact tame_invalidRequest _ _

/-- The messages up to the first that is refused are looked at. -/
theorem tame_parseMessages : ∀ {index : ℕ} {items : List (Value F)},
    Tame (parseMessages index items) ↔ ∀ k item, items[k]? = some item →
      (∀ i earlier, i < k → items[i]? = some earlier → ∃ m, parseMessage (index + i) earlier = .ok m) →
      ¬ RoleUnhashable (index + k) item
  | index, [] => by
    constructor
    · intro _ k item hitem
      simp at hitem
    · exact fun _ => tame_ok _
  | index, first :: rest => by
    rw [parseMessages, tame_bind, tame_parseMessage]
    constructor
    · rintro ⟨hfirst, hrest⟩ k item hitem hbefore
      cases k with
      | zero =>
        obtain rfl := Option.some_inj.mp hitem
        exact hfirst
      | succ k =>
        obtain ⟨message, hmessage⟩ := hbefore 0 first (Nat.succ_pos k) rfl
        have htail := (tame_bind.mp (hrest message hmessage)).1
        have hno := tame_parseMessages.mp htail k item hitem fun i earlier hi hearlier => by
          rw [Nat.add_assoc, Nat.add_comm 1 i]
          exact hbefore (i + 1) earlier (Nat.succ_lt_succ hi) hearlier
        rwa [Nat.add_assoc, Nat.add_comm 1 k] at hno
    · intro h
      refine ⟨h 0 first rfl fun i _ hi => absurd hi (Nat.not_lt_zero i), fun message hmessage => ?_⟩
      rw [tame_bind]
      refine ⟨tame_parseMessages.mpr fun k item hitem hbefore => ?_, fun _ _ => tame_ok _⟩
      rw [Nat.add_assoc, Nat.add_comm 1 k]
      refine h (k + 1) item hitem fun i earlier hi hearlier => ?_
      cases i with
      | zero =>
        obtain rfl := Option.some_inj.mp hearlier
        exact ⟨message, hmessage⟩
      | succ i =>
        have hok := hbefore i earlier (Nat.lt_of_succ_lt_succ hi) hearlier
        rwa [Nat.add_assoc, Nat.add_comm 1 i] at hok

/-- The messages are come to, and the first that is not a message has a list or an object for
its role. -/
def ReachesUnhashable (value : Value F) : Prop :=
  ∃ body modelId items k item, parseHeader value = .ok (body, modelId, items) ∧
    items[k]? = some item ∧
    (∀ i earlier, i < k → items[i]? = some earlier → ∃ m, parseMessage i earlier = .ok m) ∧
    RoleUnhashable k item

/-- **Parsing is total** unless it comes to a role that cannot be hashed. -/
theorem tame_parse {value : Value F} :
    Tame (GenerateRequest.parse value) ↔ ¬ ReachesUnhashable value := by
  unfold GenerateRequest.parse
  rw [tame_bind]
  constructor
  · rintro ⟨-, hrest⟩ ⟨body, modelId, items, k, item, hheader, hitem, hbefore, hrole⟩
    have hmessages := (tame_bind.mp (hrest _ hheader)).1
    have hno := tame_parseMessages.mp hmessages k item hitem fun i earlier hi hearlier => by
      rw [Nat.zero_add]
      exact hbefore i earlier hi hearlier
    rw [Nat.zero_add] at hno
    exact hno hrole
  · intro hno
    refine ⟨tame_parseHeader value, ?_⟩
    rintro ⟨body, modelId, items⟩ hheader
    obtain ⟨-, hkeys, -⟩ := parseHeader_ok hheader
    obtain ⟨contract, hcontract⟩ := hkeys "output_contract" (by simp [bodyKeys])
    obtain ⟨limits, hlimits⟩ := hkeys "limits" (by simp [bodyKeys])
    dsimp only
    rw [tame_bind]
    refine ⟨tame_parseMessages.mpr fun k item hitem hbefore hrole => ?_, fun messages _ => ?_⟩
    · rw [Nat.zero_add] at hrole
      refine hno ⟨body, modelId, items, k, item, hheader, hitem, fun i earlier hi hearlier => ?_, hrole⟩
      have hok := hbefore i earlier hi hearlier
      rwa [Nat.zero_add] at hok
    · rw [subscript_bind hcontract, tame_bind]
      refine ⟨tame_parseOutputContract _, fun contract _ => ?_⟩
      rw [subscript_bind hlimits]
      simp only [tame_bind]
      exact ⟨tame_parseLimits _, fun _ _ => ⟨tame_parseStream _, fun _ _ =>
        ⟨tame_parseMetadata _, fun _ _ => tame_ok _⟩⟩⟩

/-! ### The fields of a request -/

/-- A request that was returned. -/
structure GenerateRequest.Sound (request : GenerateRequest F) : Prop where
  protocolVersion : request.protocolVersion = Worker.protocolVersion
  modelId_ne : request.modelId ≠ []
  messages_ne : request.messages ≠ []
  roles : ∀ m ∈ request.messages, m.role ∈ allowedRoles.map py
  contents : ∀ m ∈ request.messages, m.content ≠ []
  version : request.outputContract.version = py "structured-output.v1"
  reasoning_le : request.limits.reasoningTokens ≤ request.limits.totalTokens
  final_le : request.limits.finalTokens ≤ request.limits.totalTokens
  total_le : request.limits.totalTokens ≤
    request.limits.reasoningTokens + request.limits.finalTokens

/-- A string or an integer that `loads` may return. -/
def loadedNode (v : Value F) : Bool := cleanStrings v && v.shortNumber

/-- The texts of the request can be encoded, and its schema can be written. -/
structure GenerateRequest.Encodable (request : GenerateRequest F) : Prop where
  contents : ∀ m ∈ request.messages, surrogateFree m.content = true
  instructions : surrogateFree request.outputContract.instructions = true
  schema : (Value.dict request.outputContract.schema).all loadedNode = true
  clientRequestId : ∀ s ∈ request.clientRequestId, surrogateFree s = true

theorem all_of_lookup {p : Value F → Bool} {items : List (PyStr × Value F)} {key : PyStr} {v : Value F}
    (h : (Value.dict items).all p = true) (hv : Items.lookup key items = some v) : v.all p = true := by
  rw [Value.all_dict, Bool.and_eq_true, List.all_eq_true] at h
  exact h.2 _ (Items.mem_of_lookup hv)

theorem surrogateFree_of_all {s : PyStr} (h : (Value.str s : Value F).all loadedNode = true) :
    surrogateFree s = true := (Bool.and_eq_true_iff.mp h).1

theorem all_getD_lookup {p : Value F → Bool} {items : List (PyStr × Value F)} {key : PyStr}
    {fallback : Value F} (h : (Value.dict items).all p = true) (hfallback : fallback.all p = true) :
    ((Items.lookup key items).getD fallback).all p = true := by
  cases hv : Items.lookup key items with
  | none => exact hfallback
  | some v => exact all_of_lookup h hv

theorem parseMessage_ok {index : ℕ} {item : Value F} {m : Message}
    (h : parseMessage index item = .ok m) : m.role ∈ allowedRoles.map py ∧ m.content ≠ [] ∧
      (item.all loadedNode = true → surrogateFree m.content = true) := by
  obtain ⟨obj, hobj, hrest⟩ := bind_ok.mp h
  obtain ⟨rfl, hkeys⟩ := exactObject_ok hobj
  obtain ⟨role, hrole⟩ := hkeys "role" (by simp)
  obtain ⟨content, hcontent⟩ := hkeys "content" (by simp)
  rw [subscript_bind hrole] at hrest
  obtain ⟨member, hmember, hrest⟩ := bind_ok.mp hrest
  by_cases hin : member = true
  swap
  · rw [if_pos hin] at hrest
    exact absurd hrest invalidRequest_ne_ok
  rw [if_neg (not_not.mpr hin), subscript_bind hcontent] at hrest
  obtain ⟨s, hs, hallowed⟩ := (memberOf_ok hmember).mp hin
  obtain rfl := Value.str?_eq_some.mp hs
  cases content with
  | str content =>
    dsimp only at hrest
    by_cases hempty : content = []
    · rw [if_pos hempty] at hrest
      exact absurd hrest invalidRequest_ne_ok
    · rw [if_neg hempty] at hrest
      obtain rfl := Except.ok.inj hrest
      exact ⟨hallowed, hempty, fun hall => surrogateFree_of_all (all_of_lookup hall hcontent)⟩
  | _ => exact absurd hrest invalidRequest_ne_ok

theorem parseMessages_ok : ∀ {index : ℕ} {items : List (Value F)} {messages : List Message},
    parseMessages index items = .ok messages → (items ≠ [] → messages ≠ []) ∧
      ∀ m ∈ messages, m.role ∈ allowedRoles.map py ∧ m.content ≠ [] ∧
        ((∀ item ∈ items, item.all loadedNode = true) → surrogateFree m.content = true)
  | _, [], _, h => by
    obtain rfl := Except.ok.inj h
    exact ⟨fun hne => absurd rfl hne, fun m hm => absurd hm List.not_mem_nil⟩
  | index, item :: rest, messages, h => by
    obtain ⟨first, hfirst, h⟩ := bind_ok.mp h
    obtain ⟨later, hlater, h⟩ := bind_ok.mp h
    obtain rfl := Except.ok.inj h
    refine ⟨fun _ => List.cons_ne_nil _ _, fun m hm => ?_⟩
    rcases List.mem_cons.mp hm with rfl | hm
    · obtain ⟨hrole, hcontent, hclean⟩ := parseMessage_ok hfirst
      exact ⟨hrole, hcontent, fun hall => hclean (hall item List.mem_cons_self)⟩
    · obtain ⟨hrole, hcontent, hclean⟩ := (parseMessages_ok hlater).2 m hm
      exact ⟨hrole, hcontent, fun hall => hclean fun i hi => hall i (List.mem_cons_of_mem _ hi)⟩

theorem parseLimits_ok {value : Value F} {limits : Limits} (h : parseLimits value = .ok limits) :
    limits.reasoningTokens ≤ limits.totalTokens ∧ limits.finalTokens ≤ limits.totalTokens ∧
      limits.totalTokens ≤ limits.reasoningTokens + limits.finalTokens := by
  obtain ⟨raw, -, h⟩ := bind_ok.mp h
  obtain ⟨ints, -, h⟩ := bind_ok.mp h
  obtain ⟨n₁, -, h⟩ := bind_ok.mp h
  obtain ⟨n₂, -, h⟩ := bind_ok.mp h
  obtain ⟨n₃, -, h⟩ := bind_ok.mp h
  obtain ⟨n₄, -, h⟩ := bind_ok.mp h
  obtain ⟨n₅, -, h⟩ := bind_ok.mp h
  dsimp only at h
  split_ifs at h with hbudgets
  · exact absurd h invalidRequest_ne_ok
  obtain rfl := Except.ok.inj h
  dsimp only
  omega

theorem parseOutputContract_ok {value : Value F} {contract : OutputContract F}
    (h : parseOutputContract value = .ok contract) :
    contract.version = py "structured-output.v1" ∧ (value.all loadedNode = true →
      surrogateFree contract.instructions = true ∧
        (Value.dict contract.schema).all loadedNode = true) := by
  obtain ⟨obj, hobj, hrest⟩ := bind_ok.mp h
  obtain ⟨rfl, hkeys⟩ := exactObject_ok hobj
  obtain ⟨version, hversion⟩ := hkeys "version" (by simp)
  obtain ⟨schema, hschema⟩ := hkeys "schema" (by simp)
  rw [subscript_bind hversion, subscript_bind hschema] at hrest
  cases schema with
  | dict schema =>
    dsimp only at hrest
    by_cases hother : version.str? ≠ some (py "structured-output.v1")
    · rw [if_pos hother] at hrest
      exact absurd hrest invalidRequest_ne_ok
    rw [if_neg hother] at hrest
    cases hinstructions : (Items.lookup (py "instructions") obj).getD (.str []) with
    | str instructions =>
      rw [hinstructions] at hrest
      obtain rfl := Except.ok.inj hrest
      refine ⟨rfl, fun hall => ⟨?_, all_of_lookup hall hschema⟩⟩
      refine @surrogateFree_of_all F _ ?_
      rw [← hinstructions]
      exact all_getD_lookup hall rfl
    | _ =>
      rw [hinstructions] at hrest
      exact absurd hrest invalidRequest_ne_ok
  | _ => exact absurd hrest invalidRequest_ne_ok

theorem parseMetadata_ok {value : Value F} {clientId : Option PyStr}
    (h : parseMetadata value = .ok clientId) (hall : value.all loadedNode = true) :
    ∀ s ∈ clientId, surrogateFree s = true := by
  obtain ⟨metadata, hmetadata, hrest⟩ := bind_ok.mp h
  obtain ⟨rfl, -⟩ := exactObject_ok hmetadata
  cases hid : (Items.lookup (py "client_request_id") metadata).getD .null with
  | null =>
    rw [hid] at hrest
    obtain rfl := Except.ok.inj hrest
    exact fun s hs => by cases hs
  | str s =>
    rw [hid] at hrest
    obtain rfl := Except.ok.inj hrest
    intro s' hs'
    obtain rfl := Option.some_inj.mp hs'
    refine @surrogateFree_of_all F _ ?_
    rw [← hid]
    exact all_getD_lookup hall rfl
  | _ =>
    rw [hid] at hrest
    exact absurd hrest invalidRequest_ne_ok

/-- The fields of a request are as they should be, and those of one that was loaded can be
encoded. -/
theorem parse_ok {value : Value F} {request : GenerateRequest F}
    (h : GenerateRequest.parse value = .ok request) :
    request.Sound ∧ (value.all loadedNode = true → request.Encodable) := by
  obtain ⟨⟨body, modelId, items⟩, hheader, h⟩ := bind_ok.mp h
  obtain ⟨hvalue, hkeys, hid, hitems, hlist⟩ := parseHeader_ok hheader
  obtain ⟨contract, hcontract⟩ := hkeys "output_contract" (by simp [bodyKeys])
  obtain ⟨limits, hlimits⟩ := hkeys "limits" (by simp [bodyKeys])
  obtain ⟨messages, hmessages, h⟩ := bind_ok.mp h
  rw [subscript_bind hcontract] at h
  obtain ⟨outputContract, houtput, h⟩ := bind_ok.mp h
  rw [subscript_bind hlimits] at h
  obtain ⟨limits', hlimits', h⟩ := bind_ok.mp h
  obtain ⟨stream, -, h⟩ := bind_ok.mp h
  obtain ⟨clientId, hclient, h⟩ := bind_ok.mp h
  obtain rfl := Except.ok.inj h
  obtain ⟨hne, hall⟩ := parseMessages_ok hmessages
  obtain ⟨hversion, hencodable⟩ := parseOutputContract_ok houtput
  obtain ⟨hreasoning, hfinal, htotal⟩ := parseLimits_ok hlimits'
  refine ⟨⟨rfl, hid, hne hitems, fun m hm => (hall m hm).1, fun m hm => (hall m hm).2.1, hversion,
    hreasoning, hfinal, htotal⟩, fun hloaded => ?_⟩
  rw [hvalue] at hloaded
  obtain ⟨hinstructions, hschema⟩ := hencodable (all_of_lookup hloaded hcontract)
  have hmessage := all_of_lookup hloaded hlist
  rw [Value.all_list, Bool.and_eq_true, List.all_eq_true] at hmessage
  exact ⟨fun m hm => (hall m hm).2.2 hmessage.2, hinstructions, hschema,
    parseMetadata_ok hclient (all_getD_lookup hloaded rfl)⟩

end

end Worker
