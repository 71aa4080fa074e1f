/-
The structured-output contract and the check of an output against it.
-/
import LlamaRuntime.Worker.StrictJson

namespace Worker

open Json

/-- `SUPPORTED_TYPES` -/
inductive RuleType where
  | string
  | integer
  | boolean
  | null
  deriving DecidableEq

/-- A value of an `enum`: of the supported types, no other has any. -/
inductive Scalar where
  | str (s : PyStr)
  | int (n : ℤ)
  | bool (b : Bool)
  | null
  deriving DecidableEq

structure PrimitiveRule where
  name : PyStr
  types : List RuleType
  enum : Option (List Scalar)

structure ContractAST where
  version : PyStr
  properties : List PrimitiveRule

section

variable {F : Type}

/-- `checks[item]()` -/
def RuleType.check (value : Value F) : RuleType → Bool
  | .string => match value with | .str _ => true | _ => false
  | .integer => match value with | .int _ => true | _ => false
  | .boolean => match value with | .bool _ => true | _ => false
  | .null => match value with | .null => true | _ => false

/-- `value == item`, where the value is of a supported type: Python's `True` and
`False` are equal to one and zero. -/
def Scalar.eq (value : Value F) (item : Scalar) : Bool :=
  match value, item with
  | .str s, .str s' => s = s'
  | .int n, .int n' => n = n'
  | .bool b, .bool b' => b = b'
  | .int n, .bool b => n = b.toInt
  | .bool b, .int n => b.toInt = n
  | .null, .null => true
  | _, _ => false

/-- `_matches` -/
def PrimitiveRule.Matches (rule : PrimitiveRule) (value : Value F) : Prop :=
  (rule.types.any fun item => item.check value) = true ∧
    ∀ items ∈ rule.enum, (items.any fun item => item.eq value) = true

instance (rule : PrimitiveRule) (value : Value F) : Decidable (rule.Matches value) :=
  inferInstanceAs (Decidable (_ ∧ _))

/-- `validate_output` -/
def validateOutput (value : Value F) (contract : ContractAST) : List ErrorDetail :=
  match value with
  | .dict items =>
    if items.map Prod.fst ≠ contract.properties.map PrimitiveRule.name then
      [⟨py "$", py "output keys must exactly match canonical contract order"⟩]
    else
      (contract.properties.filter fun rule =>
        ¬ rule.Matches ((Items.lookup rule.name items).getD .null)).map fun rule =>
          ⟨py "$." ++ rule.name, py "value violates type or enum"⟩
  | _ => [⟨py "$", py "output must be an object"⟩]

/-- An output without violations is an object with the properties of the contract
in their order, each of which matches its rule. -/
theorem validateOutput_eq_nil {value : Value F} {contract : ContractAST} :
    validateOutput value contract = [] ↔ ∃ items, value = .dict items ∧
      items.map Prod.fst = contract.properties.map PrimitiveRule.name ∧
      ∀ rule ∈ contract.properties, rule.Matches ((Items.lookup rule.name items).getD .null) := by
  constructor
  · intro h
    cases value with
    | dict items =>
      unfold validateOutput at h
      dsimp only at h
      by_cases hkeys : items.map Prod.fst ≠ contract.properties.map PrimitiveRule.name
      · rw [if_pos hkeys] at h
        exact absurd h (by simp)
      · rw [if_neg hkeys, List.map_eq_nil_iff, List.filter_eq_nil_iff] at h
        exact ⟨items, rfl, not_not.mp hkeys, fun rule hrule => by simpa using h rule hrule⟩
    | _ => exact absurd h (by simp [validateOutput])
  · rintro ⟨items, rfl, hkeys, hrules⟩
    unfold validateOutput
    dsimp only
    rw [if_neg (not_not_intro hkeys), List.map_eq_nil_iff, List.filter_eq_nil_iff]
    exact fun rule hrule => by simpa using hrules rule hrule

end

end Worker
