/-
The manifest of the resident model, and the limits that requests are held to.

* `loadManifest` — `load_manifest`: what is looked at of a manifest, which the limits are not;
* `enforceRequestEnvelope` — the limits of a request;
* `enforceRequestEnvelope_eq` — for a request that can be encoded it is one check after another;
* `tame_checkAll`, `checkAll_ok` — when checks are tame, and when they pass.
-/
import LlamaRuntime.Json.Tidy
import LlamaRuntime.Worker.ContractParser

namespace Worker

open Json

/-! ### Loading -/

/-- What a request is held to of a manifest; the limits are as they were loaded. -/
structure ModelManifest (F : Type) where
  id : PyStr
  limits : Value F

/-- `REQUIRED_TOP` -/
def requiredTop : List String :=
  ["manifest_version", "id", "gguf_path", "gguf_sha256", "runtime_build", "runtime", "context",
    "gpu", "sampling", "reasoning", "limits"]

/-- `raise WorkerError("worker_not_ready", message)` -/
def notReady {α : Type} (message : String) : Except Raised α :=
  .error (.worker ⟨.worker_not_ready, py message, []⟩)

section

variable {F : Type}

/-- A positive integer of the context -/
def contextLength (context : List (PyStr × Value F)) (name : String) : Option ℤ :=
  ((Items.lookup (py name) context).bind Value.int?).filter fun n => 0 < n

/-- `{"profile": "greedy-v1"}` -/
def isGreedy : Value F → Bool
  | .dict [(key, .str profile)] => key = py "profile" && profile = py "greedy-v1"
  | _ => false

/-- The checks of `reasoning` -/
def checkReasoning (reasoning : Value F) : Except Raised Unit :=
  match reasoning with
  | .dict items =>
    let text := fun key => (Items.lookup (py key) items).bind Value.str?
    if text "mode" ≠ some (py "required_marker_sequence") then
      notReady "model-manifest.v1 requires reasoning marker sequences"
    else if ["start_text", "end_text"].any fun key => (text key).getD [] = [] then
      notReady "reasoning markers must be non-empty strings"
    else if (Items.lookup (py "require_start") items).bind Value.bool? ≠ some true then
      notReady "reasoning.require_start must be exactly true"
    else .ok ()
  | _ => notReady "model-manifest.v1 requires reasoning marker sequences"

variable [Floats F]

/-- The checks of `context` -/
def checkContext (context : Value F) : Except Raised Unit :=
  match context with
  | .dict items =>
    let length := contextLength items
    match length "n_ctx", length "n_batch", length "n_ubatch", length "training_context" with
    | some ctx, some batch, some ubatch, some training =>
      if batch < ubatch ∨ ctx < batch then notReady "n_ubatch <= n_batch <= n_ctx is required"
      else if training < ctx ∧ ¬ ((Items.lookup (py "rope_scaling") items).any Value.truthy) then
        notReady "context above training context requires explicit rope_scaling"
      else .ok ()
    | _, _, _, _ => notReady "invalid context envelope"
  | _ => notReady "invalid context envelope"

/-- `load_manifest`, with what came of verifying the files. -/
def loadManifest (data : Value F) (verified : Except Raised Unit) :
    Except Raised (ModelManifest F) :=
  match data with
  | .dict items =>
    let keys := items.map Prod.fst
    if (keys.any fun key => key ∉ requiredTop.map py) ∨ (requiredTop.map py).any (· ∉ keys) then
      notReady "manifest has missing or unknown top-level fields"
    else do
      if (← subscript items "manifest_version").str? ≠ some (py "model-manifest.v1") ∨
          (← subscript items "runtime_build").str? ≠ some (py "b10012") then
        notReady "unsupported manifest or runtime build"
      else
        let id := ((← subscript items "id").str?).getD []
        if id = [] then notReady "manifest id must be non-empty"
        else do
          checkContext (← subscript items "context")
          if ¬ isGreedy (← subscript items "sampling") then
            notReady "only greedy-v1 sampling is supported"
          else do
            checkReasoning (← subscript items "reasoning")
            verified
            .ok ⟨id, ← subscript items "limits"⟩
  | _ => notReady "manifest has missing or unknown top-level fields"

end

/-! ### Limits -/

section

variable {F : Type}

/-- `limits[name]` -/
def ModelManifest.limit (manifest : ModelManifest F) (name : String) : Except Raised (Value F) :=
  match manifest.limits with
  | .dict items => subscript items name
  | _ => .error (.other (py "TypeError"))

/-- An amount that is held to a limit -/
structure Guard where
  name : String
  amount : ℤ
  error : WorkerError

def requestTooLarge (message : String) : WorkerError := ⟨.request_too_large, py message, []⟩

/-- `len(s.encode("utf-8"))` -/
def encodedLength (s : PyStr) : Except Raised ℕ :=
  match encodeUtf8 s with
  | some bytes => .ok bytes.length
  | none => .error (.other (py "UnicodeEncodeError"))

def maxMessages (n : ℕ) : Guard := ⟨"max_messages", n, requestTooLarge "too many messages"⟩

def messageBytes (n : ℕ) : Guard :=
  ⟨"message_bytes", n, requestTooLarge "message exceeds byte limit"⟩

def inputBytes (n : ℕ) : Guard := ⟨"input_bytes", n, requestTooLarge "input exceeds byte limit"⟩

def instructionsBytes (n : ℕ) : Guard :=
  ⟨"instructions_bytes", n, requestTooLarge "contract instructions exceed byte limit"⟩

def schemaBytes (n : ℕ) : Guard := ⟨"schema_bytes", n, requestTooLarge "schema exceeds byte limit"⟩

def clientRequestIdBytes (n : ℕ) : Guard :=
  ⟨"client_request_id_bytes", n, requestTooLarge "client_request_id exceeds byte limit"⟩

/-- A token budget -/
def maxTokens (name : String) (n : ℤ) : Guard :=
  ⟨name, n, ⟨.invalid_request, py "requested token budget exceeds manifest policy", []⟩⟩

/-- The token budgets of a request -/
def tokenGuards (limits : Limits) : List Guard :=
  [maxTokens "max_reasoning_tokens" limits.reasoningTokens,
    maxTokens "max_final_tokens" limits.finalTokens,
    maxTokens "max_total_tokens" limits.totalTokens]

variable [ComparedFloats F]

/-- The text of a float in `json.dumps`, where `allow_nan` is not turned off -/
def floatText (x : F) : PyStr :=
  if Floats.isFinite x then (Floats.repr x).text
  else
    match ComparedFloats.nonFinite x with
    | .nan => py "NaN"
    | .infinity => py "Infinity"
    | .negativeInfinity => py "-Infinity"

mutual

/-- `json.dumps(value, ensure_ascii=False)` -/
def dumpsSpaced : Value F → PyStr
  | .null => py "null"
  | .bool true => py "true"
  | .bool false => py "false"
  | .int n => intText n
  | .float x => floatText x
  | .str s => quote s
  | .list items => openBracket :: (py ", ").intercalate (dumpsSpacedItems items) ++ [closeBracket]
  | .tuple items => openBracket :: (py ", ").intercalate (dumpsSpacedItems items) ++ [closeBracket]
  | .dict items => openBrace :: (py ", ").intercalate (dumpsSpacedFields items) ++ [closeBrace]

def dumpsSpacedItems : List (Value F) → List PyStr
  | [] => []
  | v :: rest => dumpsSpaced v :: dumpsSpacedItems rest

def dumpsSpacedFields : List (PyStr × Value F) → List PyStr
  | [] => []
  | (k, v) :: rest => (quote k ++ py ": " ++ dumpsSpaced v) :: dumpsSpacedFields rest

end

/-- Writing a schema, which raises at an integer of too many digits. -/
def schemaText (schema : List (PyStr × Value F)) : Except Raised PyStr :=
  if (Value.dict schema).all Value.shortNumber then .ok (dumpsSpaced (.dict schema))
  else .error (.other (py "ValueError"))

/-- `if amount > limits[name]: raise error` -/
def ModelManifest.check (manifest : ModelManifest F) (g : Guard) : Except Raised Unit := do
  let limit ← manifest.limit g.name
  if ← exceeds g.amount limit then .error (.worker g.error) else .ok ()

def ModelManifest.checkAll (manifest : ModelManifest F) : List Guard → Except Raised Unit
  | [] => .ok ()
  | g :: rest => do
    manifest.check g
    manifest.checkAll rest

/-- The loop over the messages, with the bytes so far. -/
def enforceMessageBytes (manifest : ModelManifest F) : ℕ → List Message → Except Raised ℕ
  | total, [] => .ok total
  | total, message :: rest => do
    let size ← encodedLength message.content
    manifest.check (messageBytes size)
    enforceMessageBytes manifest (total + size) rest

/-- `enforce_message_envelope` -/
def enforceMessageEnvelope (messages : List Message) (manifest : ModelManifest F) :
    Except Raised Unit := do
  manifest.check (maxMessages messages.length)
  let total ← enforceMessageBytes manifest 0 messages
  manifest.check (inputBytes total)

/-- `enforce_request_envelope` -/
def enforceRequestEnvelope (request : GenerateRequest F) (manifest : ModelManifest F) :
    Except Raised Unit :=
  if request.modelId ≠ manifest.id then
    invalidRequest (py "model_id does not match resident model")
  else do
    enforceMessageEnvelope request.messages manifest
    manifest.check (instructionsBytes (← encodedLength request.outputContract.instructions))
    let text ← schemaText request.outputContract.schema
    manifest.check (schemaBytes (← encodedLength text))
    match request.clientRequestId with
    | some (c :: cs) => manifest.check (clientRequestIdBytes (← encodedLength (c :: cs)))
    | _ => .ok ()
    manifest.checkAll (tokenGuards request.limits)

end

/-! ### Lengths in bytes -/

/-- The length of the encoding of a text that has one -/
def byteLength (s : PyStr) : ℕ := (s.flatMap CodePoint.utf8Bytes).length

theorem encodedLength_of_clean {s : PyStr} (h : Clean s) : encodedLength s = .ok (byteLength s) := by
  unfold encodedLength
  rw [encodeUtf8_of_clean h]
  rfl

theorem clean_of_surrogateFree {s : PyStr} (h : surrogateFree s = true) : Clean s :=
  fun c hc => by simpa using List.all_eq_true.mp h c hc

theorem clean_intercalate {separator : PyStr} (hseparator : Clean separator) {parts : List PyStr}
    (h : ∀ part ∈ parts, Clean part) : Clean (separator.intercalate parts) := by
  induction parts with
  | nil => exact fun c hc => absurd hc List.not_mem_nil
  | cons part rest ih =>
    obtain ⟨hpart, hrest⟩ := List.forall_mem_cons.mp h
    cases rest with
    | nil => simpa [List.intercalate] using hpart
    | cons next rest =>
      rw [List.intercalate_cons_cons]
      exact (hpart.append hseparator).append (ih hrest)

section

variable {F : Type} [ComparedFloats F]

theorem clean_floatRepr (x : F) : Clean (floatText x) := by
  unfold floatText
  split_ifs
  · exact clean_floatText _
  · cases ComparedFloats.nonFinite x with
    | nan => decide
    | infinity => decide
    | negativeInfinity => decide

theorem dumpsSpacedItems_eq (items : List (Value F)) :
    dumpsSpacedItems items = items.map dumpsSpaced := by
  induction items with
  | nil => rfl
  | cons v rest ih => rw [dumpsSpacedItems, List.map_cons, ih]

theorem dumpsSpacedFields_eq (items : List (PyStr × Value F)) :
    dumpsSpacedFields items = items.map fun f => quote f.1 ++ py ": " ++ dumpsSpaced f.2 := by
  induction items with
  | nil => rfl
  | cons f rest ih => rw [dumpsSpacedFields, List.map_cons, ih]

/-- The text of a value without unpaired surrogates has an encoding. -/
theorem clean_dumpsSpaced {v : Value F} (h : v.all cleanStrings = true) : Clean (dumpsSpaced v) := by
  have hitems : ∀ items : List (Value F), items.all (Value.all cleanStrings) = true →
      (∀ v ∈ items, v.all cleanStrings = true → Clean (dumpsSpaced v)) →
      Clean ((py ", ").intercalate (items.map dumpsSpaced)) := by
    intro items hall ih
    refine clean_intercalate (by decide) fun part hpart => ?_
    obtain ⟨v, hv, rfl⟩ := List.mem_map.mp hpart
    exact ih v hv (List.all_eq_true.mp hall v hv)
  induction v using Value.induction with
  | null => exact (by decide : Clean (py "null"))
  | bool b => cases b <;> (rw [dumpsSpaced]; decide)
  | int n =>
    rw [dumpsSpaced]
    exact clean_intText n
  | float x =>
    rw [dumpsSpaced]
    exact clean_floatRepr x
  | str s =>
    rw [dumpsSpaced]
    exact clean_quote (clean_of_surrogateFree h)
  | list items ih =>
    rw [Value.all_list, Bool.and_eq_true] at h
    rw [dumpsSpaced, dumpsSpacedItems_eq]
    exact (Clean.cons (by decide) (hitems items h.2 ih)).append (by decide)
  | tuple items ih =>
    rw [Value.all_tuple, Bool.and_eq_true] at h
    rw [dumpsSpaced, dumpsSpacedItems_eq]
    exact (Clean.cons (by decide) (hitems items h.2 ih)).append (by decide)
  | dict items ih =>
    rw [Value.all_dict, Bool.and_eq_true] at h
    rw [dumpsSpaced, dumpsSpacedFields_eq]
    refine (Clean.cons (by decide) (clean_intercalate (by decide) fun part hpart => ?_)).append
      (by decide)
    obtain ⟨f, hf, rfl⟩ := List.mem_map.mp hpart
    have hkey := clean_of_surrogateFree (List.all_eq_true.mp h.1 f hf)
    have hvalue := ih f hf (List.all_eq_true.mp h.2 f hf)
    exact ((clean_quote hkey).append (by decide)).append hvalue

end

/-! ### One check after another -/

section

variable {F : Type} [ComparedFloats F] {manifest : ModelManifest F}

/-- The limit is there, and it is a number. -/
def ModelManifest.HasNumber (manifest : ModelManifest F) (name : String) : Prop :=
  ∃ limit, manifest.limit name = .ok limit ∧ IsNumber limit

/-- The amount is within the limit. -/
def ModelManifest.Within (manifest : ModelManifest F) (g : Guard) : Prop :=
  ∃ limit, manifest.limit g.name = .ok limit ∧ exceeds g.amount limit = .ok false

/-- Each limit that is looked up, up to the first that is exceeded, is a number. -/
def ModelManifest.Answers (manifest : ModelManifest F) : List Guard → Prop
  | [] => True
  | g :: rest => manifest.HasNumber g.name ∧ (manifest.Within g → manifest.Answers rest)

theorem ModelManifest.Within.hasNumber {g : Guard} (h : manifest.Within g) :
    manifest.HasNumber g.name := by
  obtain ⟨limit, hlimit, hwithin⟩ := h
  exact ⟨limit, hlimit, exceeds_isOk.mp ⟨false, hwithin⟩⟩

omit [ComparedFloats F] in
theorem limit_not_tame {name : String} (h : ¬ ∃ limit, manifest.limit name = .ok limit) :
    ¬ Tame (manifest.limit name) := by
  unfold ModelManifest.limit at h ⊢
  cases hlimits : manifest.limits with
  | dict items =>
    rw [hlimits] at h
    dsimp only at h ⊢
    unfold subscript at h ⊢
    cases hlookup : Items.lookup (py name) items with
    | some v =>
      rw [hlookup] at h
      exact absurd ⟨v, rfl⟩ h
    | none => exact not_tame_other _
  | _ => exact not_tame_other _

theorem tame_check {g : Guard} : Tame (manifest.check g) ↔ manifest.HasNumber g.name := by
  unfold ModelManifest.check
  rw [tame_bind]
  constructor
  · rintro ⟨hlimit, hrest⟩
    obtain ⟨limit, hok⟩ : ∃ limit, manifest.limit g.name = .ok limit := by
      by_contra hno
      exact limit_not_tame hno hlimit
    exact ⟨limit, hok, tame_exceeds.mp (tame_bind.mp (hrest limit hok)).1⟩
  · rintro ⟨limit, hok, hnumber⟩
    refine ⟨hok ▸ tame_ok limit, fun limit' hok' => ?_⟩
    obtain rfl := Except.ok.inj (hok.symm.trans hok')
    rw [tame_bind]
    refine ⟨tame_exceeds.mpr hnumber, fun isOver _ => ?_⟩
    split_ifs
    · exact tame_worker _
    · exact tame_ok _

theorem check_ok {g : Guard} {u : Unit} : manifest.check g = .ok u ↔ manifest.Within g := by
  unfold ModelManifest.check
  rw [bind_ok]
  refine exists_congr fun limit => and_congr_right fun _ => ?_
  rw [bind_ok]
  constructor
  · rintro ⟨isOver, hexceeds, hrest⟩
    cases isOver with
    | true => exact nomatch hrest
    | false => exact hexceeds
  · exact fun hexceeds => ⟨false, hexceeds, rfl⟩

theorem tame_checkAll : ∀ {gs : List Guard}, Tame (manifest.checkAll gs) ↔ manifest.Answers gs
  | [] => ⟨fun _ => trivial, fun _ => tame_ok _⟩
  | g :: rest => by
    rw [ModelManifest.checkAll, tame_bind, tame_check, ModelManifest.Answers]
    refine and_congr_right fun _ => ?_
    constructor
    · exact fun h hwithin => tame_checkAll.mp (h () (check_ok.mpr hwithin))
    · exact fun h u hu => tame_checkAll.mpr (h (check_ok.mp hu))

theorem checkAll_ok : ∀ {gs : List Guard} {u : Unit},
    manifest.checkAll gs = .ok u ↔ ∀ g ∈ gs, manifest.Within g
  | [], _ => ⟨fun _ g hg => absurd hg List.not_mem_nil, fun _ => rfl⟩
  | g :: rest, u => by
    rw [ModelManifest.checkAll, bind_ok, List.forall_mem_cons]
    constructor
    · rintro ⟨u', hg, hrest⟩
      exact ⟨check_ok.mp hg, checkAll_ok.mp hrest⟩
    · rintro ⟨hg, hrest⟩
      exact ⟨(), check_ok.mpr hg, checkAll_ok.mpr hrest⟩

theorem answers_of_numbers : ∀ {gs : List Guard}, (∀ g ∈ gs, manifest.HasNumber g.name) →
    manifest.Answers gs
  | [], _ => trivial
  | _ :: _, h => ⟨h _ List.mem_cons_self,
      fun _ => answers_of_numbers fun g hg => h g (List.mem_cons_of_mem _ hg)⟩

theorem checkAll_append (first second : List Guard) : manifest.checkAll (first ++ second) =
    manifest.checkAll first >>= fun _ => manifest.checkAll second := by
  induction first with
  | nil => rfl
  | cons g rest ih =>
    rw [List.cons_append, ModelManifest.checkAll, ModelManifest.checkAll, ih, bind_assoc]

/-! ### The envelopes -/

/-- The lengths of the messages -/
def messageSizes (messages : List Message) : List ℕ := messages.map fun m => byteLength m.content

/-- The checks of messages, in their order -/
def messageGuards (messages : List Message) : List Guard :=
  maxMessages messages.length ::
    ((messageSizes messages).map messageBytes ++ [inputBytes (messageSizes messages).sum])

/-- The checks of a request after those of its messages -/
def contractGuards (request : GenerateRequest F) : List Guard :=
  instructionsBytes (byteLength request.outputContract.instructions) ::
    schemaBytes (byteLength (dumpsSpaced (.dict request.outputContract.schema))) ::
    ((request.clientRequestId.filter (· ≠ [])).toList.map fun s =>
      clientRequestIdBytes (byteLength s)) ++ tokenGuards request.limits

theorem clientRequestIdBytes_mem {request : GenerateRequest F} {s : PyStr}
    (hs : request.clientRequestId = some s) (hne : s ≠ []) :
    clientRequestIdBytes (byteLength s) ∈ contractGuards request := by
  have hfilter : request.clientRequestId.filter (· ≠ []) = some s := by
    rw [hs, Option.filter_some, if_pos (decide_eq_true hne)]
  unfold contractGuards
  rw [hfilter]
  exact List.mem_append_left _ (List.mem_cons_of_mem _ (List.mem_cons_of_mem _
    (List.mem_singleton.mpr rfl)))

theorem enforceMessageBytes_eq : ∀ {messages : List Message},
    (∀ m ∈ messages, Clean m.content) → ∀ total,
    enforceMessageBytes manifest total messages =
      manifest.checkAll ((messageSizes messages).map messageBytes) >>= fun _ =>
        .ok (total + (messageSizes messages).sum)
  | [], _, _ => rfl
  | message :: rest, hclean, total => by
    obtain ⟨hfirst, hrest⟩ := List.forall_mem_cons.mp hclean
    have hlength := encodedLength_of_clean hfirst
    rw [enforceMessageBytes, hlength]
    show manifest.check _ >>= _ = (manifest.check _ >>= fun _ => _) >>= _
    rw [bind_assoc]
    congr 1
    funext _
    rw [enforceMessageBytes_eq hrest, Nat.add_assoc]
    rfl

/-- Messages that can be encoded are checked one limit after another. -/
theorem enforceMessageEnvelope_eq {messages : List Message} (hclean : ∀ m ∈ messages, Clean m.content) :
    enforceMessageEnvelope messages manifest = manifest.checkAll (messageGuards messages) := by
  unfold enforceMessageEnvelope messageGuards
  rw [ModelManifest.checkAll, checkAll_append, enforceMessageBytes_eq hclean]
  congr 1
  funext _
  rw [bind_assoc]
  congr 1
  funext _
  show manifest.check (inputBytes (0 + _)) = manifest.check _ >>= fun _ => .ok ()
  rw [Nat.zero_add]
  cases manifest.check (inputBytes (messageSizes messages).sum) <;> rfl

/-- A request that can be encoded is checked one limit after another. -/
theorem enforceRequestEnvelope_eq {request : GenerateRequest F} (h : request.Encodable) :
    enforceRequestEnvelope request manifest =
      if request.modelId ≠ manifest.id then
        invalidRequest (py "model_id does not match resident model")
      else manifest.checkAll (messageGuards request.messages ++ contractGuards request) := by
  unfold enforceRequestEnvelope
  split_ifs
  · rfl
  have hmessages : enforceMessageEnvelope request.messages manifest =
      manifest.checkAll (messageGuards request.messages) :=
    enforceMessageEnvelope_eq fun m hm => clean_of_surrogateFree (h.contents m hm)
  have hinstructions := encodedLength_of_clean (clean_of_surrogateFree h.instructions)
  have hschema : schemaText request.outputContract.schema =
      .ok (dumpsSpaced (.dict request.outputContract.schema)) :=
    if_pos (Value.all_mono (fun v hv => (Bool.and_eq_true_iff.mp hv).2) h.schema)
  have hsize := encodedLength_of_clean
    (clean_dumpsSpaced (Value.all_mono (fun v hv => (Bool.and_eq_true_iff.mp hv).1) h.schema))
  rw [checkAll_append, hmessages, hinstructions, hschema]
  congr 1
  funext _
  show manifest.check _ >>= _ = manifest.check _ >>= _
  congr 1
  funext _
  show encodedLength _ >>= _ = manifest.check _ >>= _
  rw [hsize]
  show manifest.check _ >>= _ = manifest.check _ >>= _
  congr 1
  funext _
  have hid := h.clientRequestId
  cases hclient : request.clientRequestId with
  | none => rfl
  | some id =>
    rw [hclient] at hid
    cases id with
    | nil => rfl
    | cons c cs =>
      have hlength := encodedLength_of_clean (clean_of_surrogateFree (hid _ rfl))
      dsimp only
      rw [hlength]
      rfl

end

end Worker
