/-
Preflight: what is checked of a request before it is queued.

The body is JSON of any shape.  Two shapes are not foreseen: a role that is a list or an
object cannot be looked up in the set of roles, and the limits of a manifest are not looked
at when it is loaded, so that one may be missing or be no number.

* `preflight` — the request, its contract and grammar, and the messages for the model;
* `PreflightedRequest.Sound` — what is promised of its result;
* `tame_preflight` — it raises nothing but `WorkerError` unless one of the two is come to;
* `preflight_total_iff` — the same of the values that strict JSON returns.
-/
import LlamaRuntime.Python.Sha256
import LlamaRuntime.Worker.Manifest
import LlamaRuntime.Worker.StrictDocuments

namespace Worker

open Json

section

variable {F : Type} [ComparedFloats F]

/-! ### The prompt -/

/-- `PROMPT_CONTRACT_VERSION` -/
def promptContractVersion : PyStr := py "model-worker-prompt.v1"

/-- `contract_instruction` -/
def contractInstruction (request : GenerateRequest F) (names : List PyStr) : PyStr :=
  let instructions := request.outputContract.instructions
  (py "\n").intercalate
    ([py "<model-worker-output-contract-v1>",
      py "Return exactly one JSON object matching structured-output.v1.",
      py "Canonical fields: " ++ (py ", ").intercalate names ++ py "."] ++
    (if instructions ≠ [] then [py "Field semantics:", instructions] else []) ++
    [py "</model-worker-output-contract-v1>"])

/-- `build_model_messages` -/
def buildModelMessages (request : GenerateRequest F) (names : List PyStr) : List Message :=
  ⟨py "system", contractInstruction request names⟩ :: request.messages

/-- What is hashed of the messages -/
def promptValue (messages : List Message) : Value F :=
  .dict [(py "version", .str promptContractVersion),
    (py "messages", .list (messages.map fun m =>
      .dict [(py "role", .str m.role), (py "content", .str m.content)]))]

variable (F) in
/-- `model_prompt_hash` -/
def modelPromptHash (messages : List Message) : Except Raised PyStr :=
  match encodeUtf8 (dumps (promptValue messages : Value F)) with
  | some bytes => .ok (py "sha256:" ++ Sha256.hexdigest bytes)
  | none => .error (.other (py "UnicodeEncodeError"))

/-! ### Preflight -/

structure PreflightedRequest (F : Type) where
  request : GenerateRequest F
  contract : ContractAST
  grammar : PyStr
  modelMessages : List Message
  promptHash : PyStr
  promptVersion : PyStr

/-- `preflight` -/
def preflight (value : Value F) (manifest : ModelManifest F) :
    Except Raised (PreflightedRequest F) := do
  let request ← GenerateRequest.parse value
  enforceRequestEnvelope request manifest
  let maxProperties ← manifest.limit "max_properties"
  let contract ← parseContract request.outputContract.schema maxProperties
  let grammar := compileGbnf contract
  let modelMessages := buildModelMessages request (contract.properties.map PrimitiveRule.name)
  enforceMessageEnvelope modelMessages manifest
  let promptHash ← modelPromptHash F modelMessages
  .ok ⟨request, contract, grammar, modelMessages, promptHash, promptContractVersion⟩

/-- The result of preflight is what it should be. -/
structure PreflightedRequest.Sound (result : PreflightedRequest F) (manifest : ModelManifest F) :
    Prop where
  request : result.request.Sound
  modelId : result.request.modelId = manifest.id
  tokens : ∀ g ∈ tokenGuards result.request.limits, manifest.Within g
  instructions :
    manifest.Within (instructionsBytes (byteLength result.request.outputContract.instructions))
  schema : manifest.Within
    (schemaBytes (byteLength (dumpsSpaced (.dict result.request.outputContract.schema))))
  clientRequestId : ∀ s ∈ result.request.clientRequestId, s ≠ [] →
    manifest.Within (clientRequestIdBytes (byteLength s))
  messages : ∀ g ∈ messageGuards result.request.messages, manifest.Within g
  modelMessages : ∀ g ∈ messageGuards result.modelMessages, manifest.Within g
  contractVersion : result.contract.version = py "structured-output.v1"
  properties : ∃ limit, manifest.limit "max_properties" = .ok limit ∧
    exceeds result.contract.properties.length limit = .ok false
  promptVersion : result.promptVersion = promptContractVersion

/-- A call of preflight raises `WorkerError` or returns what it should. -/
def Total (manifest : ModelManifest F) (value : Value F) : Prop :=
  (∃ e, preflight value manifest = .error (.worker e)) ∨
    ∃ result, preflight value manifest = .ok result ∧ result.Sound manifest

variable (F) in
/-- Preflight is total on what strict JSON returns, for every manifest that is loaded. -/
def PreflightTotal : Prop :=
  ∀ (data : Data) (tooLarge : Option ℕ) (value source : Value F) (verified : Except Raised Unit)
    (manifest : ModelManifest F), loads data tooLarge = .ok value →
      loadManifest source verified = .ok manifest → Total manifest value

/-- Each limit that the request comes to is a number. -/
def ModelManifest.LimitsAnswer (manifest : ModelManifest F) (request : GenerateRequest F) : Prop :=
  let guards := messageGuards request.messages ++ contractGuards request
  manifest.Answers guards ∧ ((∀ g ∈ guards, manifest.Within g) →
    ∃ limit, manifest.limit "max_properties" = .ok limit ∧
      ((∃ properties, countedProperties request.outputContract.schema = .ok properties) →
        IsNumber limit))

/-- No role that is a list or an object is come to, and each limit that is come to is a number. -/
def Foreseen (manifest : ModelManifest F) (value : Value F) : Prop :=
  ¬ ReachesUnhashable value ∧ ∀ request, GenerateRequest.parse value = .ok request →
    request.modelId = manifest.id → manifest.LimitsAnswer request

/-! ### What is encoded -/

theorem loaded_of_loads {data : Data} {tooLarge : Option ℕ} {value : Value F}
    (h : loads data tooLarge = .ok value) : value.all loadedNode = true := by
  have hclean := clean_of_loads h
  obtain ⟨doc, -, haccepted, -, rfl⟩ := loads_eq_ok.mp h
  have hshort : doc.all (fun d => (d.value : Value F).shortNumber) = true := by
    refine Document.all_mono (fun d hd => ?_) haccepted
    have hconvertible := (Bool.and_eq_true_iff.mp hd).1
    cases d with
    | number token =>
      unfold Document.convertible at hconvertible
      rw [Document.value]
      cases hfloat : token.isFloat with
      | true => rfl
      | false => simpa [hfloat, Value.shortNumber] using hconvertible
    | list items => rw [Document.value_list]; rfl
    | object fields => rw [Document.value_object]; rfl
    | null | bool | constant | str => rfl
  rw [← Document.all_value fun d => rfl] at hshort
  have hboth := Value.all_and cleanStrings Value.shortNumber (doc.value : Value F)
  rw [hclean, hshort] at hboth
  exact hboth

omit [ComparedFloats F] in
theorem clean_contractInstruction {request : GenerateRequest F} {names : List PyStr}
    (hrequest : request.Encodable) (hnames : ∀ name ∈ names, Clean name) :
    Clean (contractInstruction request names) := by
  have hfields : Clean ((py ", ").intercalate names) := clean_intercalate (by decide) hnames
  have hinstructions := clean_of_surrogateFree hrequest.instructions
  refine clean_intercalate (by decide) fun part hpart => ?_
  rcases List.mem_append.mp hpart with hpart | hpart
  · rcases List.mem_append.mp hpart with hpart | hpart
    · rcases List.mem_cons.mp hpart with rfl | hpart
      · decide
      rcases List.mem_cons.mp hpart with rfl | hpart
      · decide
      obtain rfl := List.mem_singleton.mp hpart
      exact (Clean.append (by decide) hfields).append (by decide)
    · split_ifs at hpart
      · rcases List.mem_cons.mp hpart with rfl | hpart
        · decide
        obtain rfl := List.mem_singleton.mp hpart
        exact hinstructions
      · exact absurd hpart List.not_mem_nil
  · obtain rfl := List.mem_singleton.mp hpart
    decide

theorem modelPromptHash_ok {messages : List Message} (hroles : ∀ m ∈ messages, Clean m.role)
    (hcontents : ∀ m ∈ messages, Clean m.content) : ∃ hash, modelPromptHash F messages = .ok hash := by
  have htidy : (promptValue messages : Value F).Tidy := by
    refine Value.tidy_dict (show [py "version", py "messages"].Nodup by decide)
      (show ∀ key ∈ [py "version", py "messages"], Clean key by decide) fun f hf => ?_
    rcases List.mem_cons.mp hf with rfl | hf
    · exact Value.tidy_str.mpr (by decide)
    obtain rfl := List.mem_singleton.mp hf
    rw [Value.Tidy, Value.all_list, Bool.and_eq_true, List.all_eq_true]
    refine ⟨rfl, fun v hv => ?_⟩
    obtain ⟨m, hm, rfl⟩ := List.mem_map.mp hv
    refine Value.tidy_dict (show [py "role", py "content"].Nodup by decide)
      (show ∀ key ∈ [py "role", py "content"], Clean key by decide) fun f hf => ?_
    rcases List.mem_cons.mp hf with rfl | hf
    · exact Value.tidy_str.mpr (hroles m hm)
    obtain rfl := List.mem_singleton.mp hf
    exact Value.tidy_str.mpr (hcontents m hm)
  unfold modelPromptHash
  rw [encodeUtf8_of_clean htidy.clean_dumps]
  exact ⟨_, rfl⟩

/-! ### What preflight raises and returns -/

theorem clean_role {role : PyStr} (h : role ∈ allowedRoles.map py) : Clean role := by
  have hall : ∀ role ∈ allowedRoles.map py, Clean role := by decide
  exact hall role h

omit [ComparedFloats F] in
/-- The messages for the model have an encoding. -/
theorem clean_modelMessages {request : GenerateRequest F} {names : List PyStr}
    (hsound : request.Sound) (hrequest : request.Encodable) (hnames : ∀ name ∈ names, Clean name) :
    ∀ m ∈ buildModelMessages request names, Clean m.role ∧ Clean m.content := by
  intro m hm
  rcases List.mem_cons.mp hm with rfl | hm
  · exact ⟨(by decide : Clean (py "system")), clean_contractInstruction hrequest hnames⟩
  · exact ⟨clean_role (hsound.roles m hm), clean_of_surrogateFree (hrequest.contents m hm)⟩

/-- The names in a contract are keys of the schema. -/
theorem clean_ruleNames {schema : List (PyStr × Value F)} {maxProperties : Value F}
    {contract : ContractAST} (hschema : (Value.dict schema).all loadedNode = true)
    (h : parseContract schema maxProperties = .ok contract) :
    ∀ name ∈ contract.properties.map PrimitiveRule.name, Clean name := by
  obtain ⟨-, properties, hlookup, hnames, -⟩ := parseContract_ok h
  have hall := all_of_lookup hschema hlookup
  rw [Value.all_dict, Bool.and_eq_true] at hall
  have hkeys := (Bool.and_eq_true_iff.mp hall.1).1
  rw [hnames]
  intro name hname
  obtain ⟨property, hproperty, rfl⟩ := List.mem_map.mp hname
  exact clean_of_surrogateFree (List.all_eq_true.mp hkeys property hproperty)

/-- Messages are checked against three limits. -/
theorem messageGuards_names {messages : List Message} (hne : messages ≠ []) {P : String → Prop} :
    (∀ g ∈ messageGuards messages, P g.name) ↔
      P "max_messages" ∧ P "message_bytes" ∧ P "input_bytes" := by
  unfold messageGuards
  rw [List.forall_mem_cons, List.forall_mem_append, List.forall_mem_singleton]
  refine and_congr_right fun _ => and_congr_left fun _ => ?_
  constructor
  · intro h
    obtain ⟨m, hm⟩ := List.exists_mem_of_ne_nil messages hne
    exact h (messageBytes (byteLength m.content))
      (List.mem_map_of_mem (List.mem_map_of_mem (f := fun m => byteLength m.content) hm))
  · intro h g hg
    obtain ⟨n, -, rfl⟩ := List.mem_map.mp hg
    exact h

/-- **Preflight raises nothing but `WorkerError`** unless it comes to one of the shapes that are
not foreseen. -/
theorem tame_preflight {value : Value F} {manifest : ModelManifest F}
    (hloaded : value.all loadedNode = true) :
    Tame (preflight value manifest) ↔ Foreseen manifest value := by
  unfold preflight Foreseen
  rw [tame_bind, tame_parse]
  refine and_congr_right fun _ => forall₂_congr fun request hparse => ?_
  obtain ⟨hsound, hencodable⟩ := parse_ok hparse
  have hencodable := hencodable hloaded
  rw [enforceRequestEnvelope_eq hencodable]
  by_cases hid : request.modelId ≠ manifest.id
  · rw [if_pos hid, tame_bind]
    exact ⟨fun _ hsame => absurd hsame hid,
      fun _ => ⟨tame_invalidRequest _ _, fun _ h => absurd h invalidRequest_ne_ok⟩⟩
  rw [if_neg hid, tame_bind, tame_checkAll]
  rw [not_not] at hid
  unfold ModelManifest.LimitsAnswer
  rw [forall_prop_of_true hid]
  refine and_congr_right fun _ => ?_
  constructor
  · intro h hwithin
    have hrest := h () (checkAll_ok.mpr hwithin)
    rw [tame_bind] at hrest
    obtain ⟨limit, hlimit⟩ : ∃ limit, manifest.limit "max_properties" = .ok limit := by
      by_contra hno
      exact limit_not_tame hno hrest.1
    have hcontract := (tame_bind.mp (hrest.2 limit hlimit)).1
    exact ⟨limit, hlimit, (tame_parseContract hencodable.schema).mp hcontract⟩
  · rintro h u hchecks
    have hwithin := checkAll_ok.mp hchecks
    obtain ⟨limit, hlimit, hnumber⟩ := h hwithin
    rw [hlimit]
    show Tame (parseContract _ _ >>= _)
    rw [tame_bind]
    refine ⟨(tame_parseContract hencodable.schema).mpr hnumber, fun contract hcontract => ?_⟩
    have hnames := clean_ruleNames hencodable.schema hcontract
    have hclean := clean_modelMessages hsound hencodable hnames
    rw [tame_bind, enforceMessageEnvelope_eq fun m hm => (hclean m hm).2, tame_checkAll]
    -- the limits were numbers when the messages of the request were held to them
    have hnumbers := (messageGuards_names hsound.messages_ne (P := manifest.HasNumber)).mp
      fun g hg => (hwithin g (List.mem_append_left _ hg)).hasNumber
    refine ⟨answers_of_numbers ((messageGuards_names (List.cons_ne_nil _ _)).mpr hnumbers),
      fun _ _ => ?_⟩
    obtain ⟨hash, hhash⟩ := modelPromptHash_ok (F := F) (fun m hm => (hclean m hm).1)
      fun m hm => (hclean m hm).2
    rw [hhash]
    exact tame_ok _

/-- **What preflight returns** is what it should be. -/
theorem sound_of_preflight {value : Value F} {manifest : ModelManifest F}
    (hloaded : value.all loadedNode = true) {result : PreflightedRequest F}
    (h : preflight value manifest = .ok result) : result.Sound manifest := by
  obtain ⟨request, hparse, h⟩ := bind_ok.mp h
  obtain ⟨hsound, hencodable⟩ := parse_ok hparse
  have hencodable := hencodable hloaded
  rw [enforceRequestEnvelope_eq hencodable] at h
  obtain ⟨u, hchecks, h⟩ := bind_ok.mp h
  by_cases hid : request.modelId ≠ manifest.id
  · rw [if_pos hid] at hchecks
    exact absurd hchecks invalidRequest_ne_ok
  rw [if_neg hid] at hchecks
  obtain ⟨limit, hlimit, h⟩ := bind_ok.mp h
  obtain ⟨contract, hcontract, h⟩ := bind_ok.mp h
  have hclean := clean_modelMessages hsound hencodable (clean_ruleNames hencodable.schema hcontract)
  obtain ⟨v, hmodel, h⟩ := bind_ok.mp h
  rw [enforceMessageEnvelope_eq fun m hm => (hclean m hm).2] at hmodel
  obtain ⟨hash, -, h⟩ := bind_ok.mp h
  obtain rfl := Except.ok.inj h
  have hwithin := checkAll_ok.mp hchecks
  have hafter : ∀ g ∈ contractGuards request, manifest.Within g :=
    fun g hg => hwithin g (List.mem_append_right _ hg)
  obtain ⟨hversion, properties, -, -, hproperties⟩ := parseContract_ok hcontract
  exact {
    request := hsound
    modelId := not_not.mp hid
    tokens := fun g hg => hafter g (List.mem_append_right _ hg)
    instructions := hafter _ (by simp [contractGuards])
    schema := hafter _ (by simp [contractGuards])
    clientRequestId := fun s hs hne => hafter _ (clientRequestIdBytes_mem hs hne)
    messages := fun g hg => hwithin g (List.mem_append_left _ hg)
    modelMessages := checkAll_ok.mp hmodel
    contractVersion := hversion
    properties := ⟨limit, hlimit, hproperties⟩
    promptVersion := rfl }

theorem Total.tame {manifest : ModelManifest F} {value : Value F} (h : Total manifest value) :
    Tame (preflight value manifest) := by
  rcases h with ⟨e, he⟩ | ⟨result, hresult, -⟩
  · rw [he]
    exact tame_worker e
  · rw [hresult]
    exact tame_ok result

end

/-! ### A role that is a list -/

instance : ComparedFloats NoFloat where
  ltInt _ n := 0 < n
  nonFinite _ := .nan

/-- A request whose one message has a list for its role -/
def listRoleData : Data := .str (py
  "\x7b\"protocol_version\":\"model-worker.v1\",\"model_id\":\"m\",\"messages\":[\x7b\"role\":[],\"content\":\"c\"\x7d],\"output_contract\":0,\"limits\":0\x7d")

/-- A manifest with the limits that are given -/
def manifestSource (limits : Value NoFloat) : Value NoFloat := .dict [
  (py "manifest_version", .str (py "model-manifest.v1")), (py "id", .str (py "m")),
  (py "gguf_path", .null), (py "gguf_sha256", .null), (py "runtime_build", .str (py "b10012")),
  (py "runtime", .null),
  (py "context", .dict [(py "n_ctx", .int 1), (py "n_batch", .int 1), (py "n_ubatch", .int 1),
    (py "training_context", .int 1)]),
  (py "gpu", .null), (py "sampling", .dict [(py "profile", .str (py "greedy-v1"))]),
  (py "reasoning", .dict [(py "mode", .str (py "required_marker_sequence")),
    (py "start_text", .str (py "a")), (py "end_text", .str (py "b")),
    (py "require_start", .bool true)]),
  (py "limits", limits)]

/-- No limits are refused. -/
theorem loadManifest_manifestSource (limits : Value NoFloat) :
    loadManifest (manifestSource limits) (.ok ()) = .ok ⟨py "m", limits⟩ := by
  rfl

/-- The call raises something that is not `WorkerError`. -/
def raisesOther {α : Type} (r : Except Raised α) : Bool :=
  errorOf r matches some .unhashable | some (.other _)

theorem not_tame_of_raisesOther {α : Type} {r : Except Raised α} (h : raisesOther r = true) :
    ¬ Tame r := by
  intro htame
  rcases htame.cases with ⟨w, rfl⟩ | ⟨a, rfl⟩
  · cases h
  · cases h

theorem listRole_raises : ((loads listRoleData : Except WorkerError (Value NoFloat)).toOption.any
    fun value => raisesOther (GenerateRequest.parse value)) = true := by
  decide +kernel

theorem loads_listRoleData : ∃ value : Value NoFloat, loads listRoleData = .ok value ∧
    ¬ Tame (GenerateRequest.parse value) := by
  have hraises := listRole_raises
  cases hload : (loads listRoleData : Except WorkerError (Value NoFloat)) with
  | error e =>
    rw [hload] at hraises
    cases hraises
  | ok value =>
    rw [hload] at hraises
    exact ⟨value, rfl, not_tame_of_raisesOther hraises⟩

/-- The role that is a list is looked up, and what is raised is no `WorkerError`. -/
theorem preflight_total_fails : ¬ PreflightTotal NoFloat := by
  intro h
  obtain ⟨value, hload, hraises⟩ := loads_listRoleData
  have htotal := h _ _ _ _ _ _ hload (loadManifest_manifestSource (.dict []))
  exact hraises (tame_bind.mp htotal.tame).1

/-- **Preflight is total** on the values of strict JSON, but for the shapes that are not
foreseen. -/
theorem preflight_total_iff {F : Type} [ComparedFloats F] {data : Data} {tooLarge : Option ℕ}
    {value : Value F} (hload : loads data tooLarge = .ok value) (manifest : ModelManifest F) :
    Total manifest value ↔ Foreseen manifest value := by
  have hloaded := loaded_of_loads hload
  rw [← tame_preflight hloaded]
  constructor
  · exact Total.tame
  · intro htame
    rcases htame.cases with herror | ⟨result, hresult⟩
    · exact .inl herror
    · exact .inr ⟨result, hresult, sound_of_preflight hloaded hresult⟩

theorem preflight_total_iff_sample : ∃ value : Value NoFloat, loads listRoleData = .ok value ∧
    (Total ⟨py "m", .dict []⟩ value ↔ Foreseen ⟨py "m", .dict []⟩ value) := by
  obtain ⟨value, hload, -⟩ := loads_listRoleData
  exact ⟨value, hload, preflight_total_iff hload _⟩

end Worker
