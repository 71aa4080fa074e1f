/-
From the schema of a request to its contract, and from the contract to a grammar.

* `parseContract` — `parse_contract`: the supported subset of JSON Schema;
* `compileGbnf` — `compile_gbnf`: the grammar of the outputs;
* `tame_parseContract` — the parser is tame if the bound on the properties is a number
  where they are counted;
* `parseContract_ok` — a contract has as many properties as the bound allows, with the
  names of the schema.
-/
import LlamaRuntime.Worker.OutputContract
import LlamaRuntime.Worker.Requests

namespace Json

/-- A float that is not finite, as `json.dumps` tells them apart. -/
inductive NonFinite where
  | nan
  | infinity
  | negativeInfinity

/-- Floats as they are compared with integers and written. -/
class ComparedFloats (F : Type) extends Floats F where
  /-- `x < n` -/
  ltInt : F → ℤ → Bool
  nonFinite : F → NonFinite

end Json

namespace Worker

open Json

section

variable {F : Type} [ComparedFloats F]

/-- `n > limit`; what is no number raises. -/
def exceeds (n : ℤ) (limit : Value F) : Except Raised Bool :=
  match limit with
  | .int m => .ok (m < n)
  | .bool b => .ok (b.toInt < n)
  | .float x => .ok (ComparedFloats.ltInt x n)
  | _ => .error (.other (py "TypeError"))

/-- `_fail` -/
def unsupported {α : Type} (path : PyStr) (message : String) : Except Raised α :=
  .error (.worker ⟨.unsupported_contract, py message, [⟨path, py message⟩]⟩)

/-- `ROOT_KEYS` -/
def rootKeys : List String := ["type", "properties", "required", "additionalProperties"]

/-- `PROPERTY_KEYS` -/
def propertyKeys : List String := ["type", "enum"]

/-! ### Rules -/

/-- The name of a supported type -/
def RuleType.name : RuleType → String
  | .string => "string"
  | .integer => "integer"
  | .boolean => "boolean"
  | .null => "null"

def RuleType.named (name : PyStr) : Option RuleType :=
  [RuleType.string, .integer, .boolean, .null].find? fun t => py t.name = name

/-- The names in `type`: one, or a list of them. -/
def declaredTypes (path : PyStr) (raw : Option (Value F)) : Except Raised (List PyStr) :=
  match raw with
  | some (.str name) => .ok [name]
  | some (.list items) =>
    match items.mapM Value.str? with
    | some (name :: names) => .ok (name :: names)
    | _ => unsupported (path ++ py ".type") "type is required"
  | _ => unsupported (path ++ py ".type") "type is required"

/-- A primitive type, possibly with null. -/
def supportedTypes (path : PyStr) (names : List PyStr) : Except Raised (List RuleType) :=
  match names.mapM RuleType.named with
  | none => unsupported (path ++ py ".type") "duplicate or unsupported type"
  | some types =>
    if ¬ names.Nodup then unsupported (path ++ py ".type") "duplicate or unsupported type"
    else if 2 < types.length ∨ types.length = 2 ∧ RuleType.null ∉ types then
      unsupported (path ++ py ".type") "only a primitive optionally unioned with null is supported"
    else .ok types

/-- A value of an `enum`, if it is of a declared type. -/
def enumValue (path : PyStr) (types : List RuleType) (value : Value F) : Except Raised Scalar :=
  let mismatch : Except Raised Scalar :=
    unsupported (path ++ py ".enum") "enum value does not match declared type"
  match value with
  | .float x =>
    if ¬ Floats.isFinite x then unsupported (path ++ py ".enum") "non-finite enum value"
    else mismatch
  | .str s => if RuleType.string ∈ types then .ok (.str s) else mismatch
  | .int n => if RuleType.integer ∈ types then .ok (.int n) else mismatch
  | .bool b => if RuleType.boolean ∈ types then .ok (.bool b) else mismatch
  | .null => if RuleType.null ∈ types then .ok .null else mismatch
  | _ => mismatch

def enumValues (path : PyStr) (types : List RuleType) : List (Value F) → Except Raised (List Scalar)
  | [] => .ok []
  | value :: rest => do
    let item ← enumValue path types value
    let items ← enumValues path types rest
    .ok (item :: items)

/-- `repr` of the value does not raise. -/
def Scalar.short : Scalar → Bool
  | .int n => digitCount n ≤ Value.maxStrDigits
  | _ => true

/-- `enum`; two values of the supported types have the same `repr` only if they are the same. -/
def parseEnum (path : PyStr) (types : List RuleType) (enum : Value F) :
    Except Raised (List Scalar) :=
  match enum with
  | .list (value :: values) => do
    let items ← enumValues path types (value :: values)
    if ¬ items.all Scalar.short then .error (.other (py "ValueError"))
    else if ¬ items.Nodup then unsupported (path ++ py ".enum") "duplicate enum value"
    else .ok items
  | _ => unsupported (path ++ py ".enum") "enum must be non-empty"

/-- One round of the loop over the properties. -/
def parseRule (name : PyStr) (spec : Value F) : Except Raised PrimitiveRule :=
  let path := py "$.properties." ++ name
  match spec with
  | .dict spec =>
    if name = [] then unsupported path "property name and rule must be valid"
    else if (spec.map Prod.fst).any fun key => key ∉ propertyKeys.map py then
      unsupported path "unsupported property keyword"
    else do
      let names ← declaredTypes path (Items.lookup (py "type") spec)
      let types ← supportedTypes path names
      match Items.lookup (py "enum") spec with
      | none => .ok ⟨name, types, none⟩
      | some enum => do
        let items ← parseEnum path types enum
        .ok ⟨name, types, some items⟩
  | _ => unsupported path "property name and rule must be valid"

def parseRules : List (PyStr × Value F) → Except Raised (List PrimitiveRule)
  | [] => .ok []
  | (name, spec) :: rest => do
    let rule ← parseRule name spec
    let rules ← parseRules rest
    .ok (rule :: rules)

/-! ### Contracts -/

/-- `required`, if it is a list of strings -/
def requiredNames (required : Option (Value F)) : Option (List PyStr) :=
  match required with
  | some (.list items) => items.mapM Value.str?
  | _ => none

/-- The properties that are counted: those of a schema whose root is as it should be. -/
def countedProperties (schema : List (PyStr × Value F)) :
    Except Raised (List (PyStr × Value F)) :=
  match sortNames ((schema.map Prod.fst).filter fun key => key ∉ rootKeys.map py) with
  | key :: _ => unsupported (py "$." ++ key) "unsupported schema keyword"
  | [] =>
    if (Items.lookup (py "type") schema).bind Value.str? ≠ some (py "object") ∨
        (Items.lookup (py "additionalProperties") schema).bind Value.bool? ≠ some false then
      unsupported (py "$") "root must be object with additionalProperties=false"
    else
      match (Items.lookup (py "properties") schema).bind Value.dict? with
      | some (property :: properties) => .ok (property :: properties)
      | _ => unsupported (py "$.properties") "properties must be a bounded non-empty object"

/-- `parse_contract` of an object -/
def parseContract (schema : List (PyStr × Value F)) (maxProperties : Value F) :
    Except Raised ContractAST := do
  let properties ← countedProperties schema
  if ← exceeds properties.length maxProperties then
    unsupported (py "$.properties") "properties must be a bounded non-empty object"
  else
    match requiredNames (Items.lookup (py "required") schema) with
    | none => unsupported (py "$.required") "required must contain unique strings"
    | some names =>
      if ¬ names.Nodup then unsupported (py "$.required") "required must contain unique strings"
      else if names ≠ properties.map Prod.fst then
        unsupported (py "$.required") "all properties must be required in canonical property order"
      else do
        let rules ← parseRules properties
        .ok ⟨py "structured-output.v1", rules⟩

end

/-! ### What the parser returns -/

section

variable {F : Type}

theorem tame_unsupported {α : Type} (path : PyStr) (message : String) :
    Tame (unsupported path message : Except Raised α) := tame_worker _

theorem unsupported_ne_ok {α : Type} {path : PyStr} {message : String} {a : α} :
    (unsupported path message : Except Raised α) ≠ .ok a := nofun

theorem tame_declaredTypes (path : PyStr) (raw : Option (Value F)) :
    Tame (declaredTypes path raw) := by
  unfold declaredTypes
  split
  · exact tame_ok _
  · split
    · exact tame_ok _
    · exact tame_unsupported _ _
  · exact tame_unsupported _ _

theorem tame_supportedTypes (path : PyStr) (names : List PyStr) :
    Tame (supportedTypes path names) := by
  unfold supportedTypes
  cases names.mapM RuleType.named with
  | none => exact tame_unsupported _ _
  | some types =>
    dsimp only
    split_ifs
    · exact tame_unsupported _ _
    · exact tame_ok _
    · exact tame_unsupported _ _

end

section

variable {F : Type} [ComparedFloats F]

theorem tame_enumValue (path : PyStr) (types : List RuleType) (value : Value F) :
    Tame (enumValue path types value) := by
  unfold enumValue
  cases value with
  | list items | tuple items | dict items => exact tame_unsupported _ _
  | float x =>
    dsimp only
    split_ifs
    · exact tame_unsupported _ _
    · exact tame_unsupported _ _
  | _ =>
    dsimp only
    split_ifs
    · exact tame_ok _
    · exact tame_unsupported _ _

theorem tame_enumValues (path : PyStr) (types : List RuleType) :
    ∀ values : List (Value F), Tame (enumValues path types values)
  | [] => tame_ok _
  | value :: rest => by
    simp only [enumValues, tame_bind]
    exact ⟨tame_enumValue path types value, fun _ _ => ⟨tame_enumValues path types rest,
      fun _ _ => tame_ok _⟩⟩

/-- An integer of an `enum` is one of the schema. -/
theorem enumValue_short {path : PyStr} {types : List RuleType} {value : Value F} {item : Scalar}
    (h : enumValue path types value = .ok item) (hvalue : value.shortNumber = true) :
    item.short = true := by
  unfold enumValue at h
  cases value with
  | list items | tuple items | dict items => exact absurd h unsupported_ne_ok
  | float x =>
    dsimp only at h
    split_ifs at h
    · exact absurd h unsupported_ne_ok
    · exact absurd h unsupported_ne_ok
  | int n =>
    dsimp only at h
    split_ifs at h
    · obtain rfl := Except.ok.inj h
      exact hvalue
    · exact absurd h unsupported_ne_ok
  | _ =>
    dsimp only at h
    split_ifs at h
    · obtain rfl := Except.ok.inj h
      rfl
    · exact absurd h unsupported_ne_ok

theorem enumValues_short {path : PyStr} {types : List RuleType} :
    ∀ {values : List (Value F)} {items : List Scalar}, enumValues path types values = .ok items →
      (∀ v ∈ values, v.shortNumber = true) → items.all Scalar.short = true
  | [], _, h, _ => by
    obtain rfl := Except.ok.inj h
    rfl
  | value :: rest, _, h, hshort => by
    obtain ⟨item, hitem, h⟩ := bind_ok.mp h
    obtain ⟨items, hitems, h⟩ := bind_ok.mp h
    obtain rfl := Except.ok.inj h
    rw [List.all_cons, Bool.and_eq_true]
    exact ⟨enumValue_short hitem (hshort value List.mem_cons_self),
      enumValues_short hitems fun v hv => hshort v (List.mem_cons_of_mem _ hv)⟩

omit [ComparedFloats F] in
/-- A value that was loaded is itself a string or an integer that may be. -/
theorem loadedNode_of_all {v : Value F} (h : v.all loadedNode = true) : loadedNode v = true := by
  cases v with
  | list items =>
    rw [Value.all_list, Bool.and_eq_true] at h
    exact h.1
  | tuple items =>
    rw [Value.all_tuple, Bool.and_eq_true] at h
    exact h.1
  | dict items =>
    rw [Value.all_dict, Bool.and_eq_true] at h
    exact h.1
  | _ => exact h

theorem tame_parseEnum {path : PyStr} {types : List RuleType} {enum : Value F}
    (hloaded : enum.all loadedNode = true) : Tame (parseEnum path types enum) := by
  unfold parseEnum
  split
  · rename_i value values
    rw [tame_bind]
    refine ⟨tame_enumValues _ _ _, fun items hitems => ?_⟩
    rw [Value.all_list, Bool.and_eq_true, List.all_eq_true] at hloaded
    have hshort := enumValues_short hitems fun v hv =>
      (Bool.and_eq_true_iff.mp (loadedNode_of_all (hloaded.2 v hv))).2
    rw [if_neg (not_not.mpr hshort)]
    split_ifs
    · exact tame_ok _
    · exact tame_unsupported _ _
  · exact tame_unsupported _ _

theorem tame_parseRule {name : PyStr} {spec : Value F} (hloaded : spec.all loadedNode = true) :
    Tame (parseRule name spec) := by
  unfold parseRule
  cases spec with
  | dict spec =>
    dsimp only
    split_ifs
    · exact tame_unsupported _ _
    · exact tame_unsupported _ _
    simp only [tame_bind]
    refine ⟨tame_declaredTypes _ _, fun names _ => ⟨tame_supportedTypes _ _, fun types _ => ?_⟩⟩
    cases henum : Items.lookup (py "enum") spec with
    | none => exact tame_ok _
    | some enum =>
      rw [tame_bind]
      exact ⟨tame_parseEnum (all_of_lookup hloaded henum), fun _ _ => tame_ok _⟩
  | _ => exact tame_unsupported _ _

theorem tame_parseRules : ∀ {properties : List (PyStr × Value F)},
    (∀ p ∈ properties, p.2.all loadedNode = true) → Tame (parseRules properties)
  | [], _ => tame_ok _
  | (name, spec) :: rest, hloaded => by
    simp only [parseRules, tame_bind]
    exact ⟨tame_parseRule (hloaded _ List.mem_cons_self), fun _ _ =>
      ⟨tame_parseRules fun p hp => hloaded p (List.mem_cons_of_mem _ hp), fun _ _ => tame_ok _⟩⟩

theorem parseRule_name {name : PyStr} {spec : Value F} {rule : PrimitiveRule}
    (h : parseRule name spec = .ok rule) : rule.name = name := by
  unfold parseRule at h
  cases spec with
  | dict spec =>
    dsimp only at h
    split_ifs at h
    · exact absurd h unsupported_ne_ok
    · exact absurd h unsupported_ne_ok
    obtain ⟨names, -, h⟩ := bind_ok.mp h
    obtain ⟨types, -, h⟩ := bind_ok.mp h
    cases henum : Items.lookup (py "enum") spec with
    | none =>
      rw [henum] at h
      obtain rfl := Except.ok.inj h
      rfl
    | some enum =>
      rw [henum] at h
      obtain ⟨items, -, h⟩ := bind_ok.mp h
      obtain rfl := Except.ok.inj h
      rfl
  | _ => exact absurd h unsupported_ne_ok

theorem parseRules_names : ∀ {properties : List (PyStr × Value F)} {rules : List PrimitiveRule},
    parseRules properties = .ok rules → rules.map PrimitiveRule.name = properties.map Prod.fst
  | [], _, h => by
    obtain rfl := Except.ok.inj h
    rfl
  | (name, spec) :: rest, _, h => by
    obtain ⟨rule, hrule, h⟩ := bind_ok.mp h
    obtain ⟨rules, hrules, h⟩ := bind_ok.mp h
    obtain rfl := Except.ok.inj h
    rw [List.map_cons, List.map_cons, parseRule_name hrule, parseRules_names hrules]

omit [ComparedFloats F] in
theorem tame_countedProperties (schema : List (PyStr × Value F)) :
    Tame (countedProperties schema) := by
  unfold countedProperties
  split
  · exact tame_unsupported _ _
  · split_ifs
    · exact tame_unsupported _ _
    · split
      · exact tame_ok _
      · exact tame_unsupported _ _

omit [ComparedFloats F] in
theorem countedProperties_ok {schema properties : List (PyStr × Value F)}
    (h : countedProperties schema = .ok properties) :
    Items.lookup (py "properties") schema = some (.dict properties) := by
  unfold countedProperties at h
  split at h
  · exact absurd h unsupported_ne_ok
  · split_ifs at h
    · exact absurd h unsupported_ne_ok
    · split at h
      · rename_i hlookup
        obtain rfl := Except.ok.inj h
        obtain ⟨v, hv, hdict⟩ := Option.bind_eq_some_iff.mp hlookup
        rw [hv, Value.dict?_eq_some.mp hdict]
      · exact absurd h unsupported_ne_ok

/-- A value that integers are compared with. -/
def IsNumber : Value F → Prop
  | .int _ => True
  | .bool _ => True
  | .float _ => True
  | _ => False

theorem exceeds_isOk {n : ℤ} {limit : Value F} :
    (∃ b, exceeds n limit = .ok b) ↔ IsNumber limit := by
  cases limit with
  | int m => exact ⟨fun _ => trivial, fun _ => ⟨_, rfl⟩⟩
  | bool b => exact ⟨fun _ => trivial, fun _ => ⟨_, rfl⟩⟩
  | float x => exact ⟨fun _ => trivial, fun _ => ⟨_, rfl⟩⟩
  | _ => exact ⟨fun ⟨_, h⟩ => (nomatch h), fun h => h.elim⟩

theorem tame_exceeds {n : ℤ} {limit : Value F} : Tame (exceeds n limit) ↔ IsNumber limit := by
  rw [← @exceeds_isOk F _ n]
  constructor
  · intro h
    rcases h.cases with ⟨w, hw⟩ | hok
    · cases limit <;> cases hw
    · exact hok
  · rintro ⟨b, hb⟩
    rw [hb]
    exact tame_ok b

/-- **The parser** is tame but for the comparison with its bound. -/
theorem tame_parseContract {schema : List (PyStr × Value F)} {maxProperties : Value F}
    (hloaded : (Value.dict schema).all loadedNode = true) :
    Tame (parseContract schema maxProperties) ↔
      ((∃ properties, countedProperties schema = .ok properties) → IsNumber maxProperties) := by
  unfold parseContract
  rw [tame_bind]
  constructor
  · rintro ⟨-, h⟩ ⟨properties, hproperties⟩
    exact tame_exceeds.mp (tame_bind.mp (h properties hproperties)).1
  · intro h
    refine ⟨tame_countedProperties schema, fun properties hproperties => ?_⟩
    rw [tame_bind]
    refine ⟨tame_exceeds.mpr (h ⟨properties, hproperties⟩), fun isOver _ => ?_⟩
    split_ifs
    · exact tame_unsupported _ _
    cases requiredNames (Items.lookup (py "required") schema) with
    | none => exact tame_unsupported _ _
    | some names =>
      dsimp only
      split_ifs
      · exact tame_unsupported _ _
      · have hall := all_of_lookup hloaded (countedProperties_ok hproperties)
        rw [Value.all_dict, Bool.and_eq_true, List.all_eq_true] at hall
        rw [tame_bind]
        exact ⟨tame_parseRules hall.2, fun _ _ => tame_ok _⟩
      · exact tame_unsupported _ _

theorem parseContract_ok {schema : List (PyStr × Value F)} {maxProperties : Value F}
    {contract : ContractAST} (h : parseContract schema maxProperties = .ok contract) :
    contract.version = py "structured-output.v1" ∧ ∃ properties,
      Items.lookup (py "properties") schema = some (.dict properties) ∧
      contract.properties.map PrimitiveRule.name = properties.map Prod.fst ∧
      exceeds contract.properties.length maxProperties = .ok false := by
  obtain ⟨properties, hproperties, h⟩ := bind_ok.mp h
  obtain ⟨isOver, hexceeds, h⟩ := bind_ok.mp h
  cases isOver with
  | true => exact absurd h unsupported_ne_ok
  | false =>
    rw [if_neg Bool.false_ne_true] at h
    cases hrequired : requiredNames (Items.lookup (py "required") schema) with
    | none =>
      rw [hrequired] at h
      exact absurd h unsupported_ne_ok
    | some names =>
      rw [hrequired] at h
      dsimp only at h
      split_ifs at h
      · exact absurd h unsupported_ne_ok
      rotate_left
      · exact absurd h unsupported_ne_ok
      obtain ⟨rules, hrules, h⟩ := bind_ok.mp h
      obtain rfl := Except.ok.inj h
      have hnames := parseRules_names hrules
      have hlength := congrArg List.length hnames
      rw [List.length_map, List.length_map] at hlength
      refine ⟨rfl, properties, countedProperties_ok hproperties, hnames, ?_⟩
      rw [hlength]
      exact hexceeds

end

/-! ### The grammar -/

/-- `json.dumps` of a value of an `enum` -/
def Scalar.json : Scalar → PyStr
  | .str s => quote s
  | .int n => intText n
  | .bool true => py "true"
  | .bool false => py "false"
  | .null => py "null"

/-- The rule of a type -/
def RuleType.grammar : RuleType → PyStr
  | .string => py "json-string"
  | .integer => py "json-integer"
  | .boolean => py "(\"true\" | \"false\")"
  | .null => py "\"null\""

/-- `_value` -/
def ruleGrammar (rule : PrimitiveRule) : PyStr :=
  match rule.enum, rule.types.map RuleType.grammar with
  | some items, _ => (py " | ").intercalate (items.map fun item => quote item.json)
  | none, [option] => option
  | none, options => py "(" ++ (py " | ").intercalate options ++ py ")"

/-- A character that stays in the name of a rule -/
def isRuleChar (c : CodePoint) : Bool :=
  (0x61 ≤ c.val && c.val ≤ 0x7A) || (0x41 ≤ c.val && c.val ≤ 0x5A) ||
    (0x30 ≤ c.val && c.val ≤ 0x39) || c.val = 0x2D

def dash : CodePoint := 0x2D

/-- `lower` of a letter of ASCII -/
def lowerChar (c : CodePoint) : CodePoint :=
  if h : 0x41 ≤ c.val ∧ c.val ≤ 0x5A then ⟨c.val + 0x20, by omega⟩ else c

/-- `re.sub(r"[^a-zA-Z0-9-]", "-", name).strip("-").lower() or "field"` -/
def ruleSlug (name : PyStr) : PyStr :=
  let dashed := name.map fun c => if isRuleChar c then c else dash
  let stripped := ((dashed.dropWhile (· = dash)).reverse.dropWhile (· = dash)).reverse
  if stripped = [] then py "field" else stripped.map lowerChar

/-- `"value-%d-%s"` -/
def ruleName (index : ℕ) (rule : PrimitiveRule) : PyStr :=
  py "value-" ++ decimal index ++ py "-" ++ ruleSlug rule.name

def memberGrammar (index : ℕ) (rule : PrimitiveRule) : PyStr :=
  quote (quote rule.name) ++ py " ws \":\" ws " ++ ruleName index rule

/-- The rules that every grammar ends with -/
def commonGrammar : List PyStr :=
  [py "json-integer ::= \"-\"? (\"0\" | [1-9] [0-9]*)",
    py "json-string ::= \"\\\"\" json-char* \"\\\"\"",
    py "json-char ::= [^\"\\\\\\x7F\\x00-\\x1F] | \"\\\\\" ([\"\\\\/bfnrt] | \"u\" [0-9a-fA-F]\x7b4\x7d)",
    py "ws ::= [ \\t\\n\\r]*"]

/-- `compile_gbnf` -/
def compileGbnf (contract : ContractAST) : PyStr :=
  let members := contract.properties.mapIdx memberGrammar
  let rules := contract.properties.mapIdx fun index rule =>
    ruleName index rule ++ py " ::= " ++ ruleGrammar rule
  let root := py "root ::= \"\x7b\" ws " ++ (py " \",\" ws ").intercalate members ++ py " \"\x7d\" ws"
  (py "\n").intercalate ([root] ++ rules ++ commonGrammar ++ [[]])

end Worker
