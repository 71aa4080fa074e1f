/-
What Python's operators make of data that `json` has read.

* `Value.pyEq` — `==`: numbers are compared by value, whatever their type, and
  dictionaries in any order;
* `Value.toInt` — `int(value)`.
-/
import LlamaRuntime.Json.Value

namespace Json

/-- Numbers as the built-in functions convert and compare them. -/
class PyNumbers (F : Type) extends Floats F where
  eq : F → F → Bool
  /-- `x == n` -/
  eqInt : F → ℤ → Bool
  /-- `int(x)`, `none` where it raises `OverflowError` -/
  truncate : F → Option ℤ
  /-- `int(text)`, `none` where it raises `ValueError` -/
  parseInt : PyStr → Option ℤ
  /-- `str(value)` of what is no string -/
  text : Value F → PyStr

/-- What the built-in functions raise. -/
inductive BuiltinError where
  | osError
  | valueError
  | typeError
  | overflowError
  | attributeError
  | keyError
  deriving DecidableEq

namespace Value

variable {F : Type} [PyNumbers F]

/-- `value == n` -/
def eqInt (n : ℤ) : Value F → Bool
  | .bool b => b.toInt = n
  | .int m => m = n
  | .float x => PyNumbers.eqInt x n
  | _ => false

/-- `value == x` -/
def eqFloat (x : F) : Value F → Bool
  | .bool b => PyNumbers.eqInt x b.toInt
  | .int n => PyNumbers.eqInt x n
  | .float y => PyNumbers.eq x y
  | _ => false

mutual

/-- `value == other` -/
def pyEq : Value F → Value F → Bool
  | .null, .null => true
  | .bool b, other => other.eqInt b.toInt
  | .int n, other => other.eqInt n
  | .float x, other => other.eqFloat x
  | .str s, .str t => s = t
  | .list items, .list others => pyEqItems items others
  | .tuple items, .tuple others => pyEqItems items others
  | .dict items, .dict others => items.length = others.length && pyEqFields items others
  | _, _ => false

def pyEqItems : List (Value F) → List (Value F) → Bool
  | [], [] => true
  | v :: rest, w :: others => pyEq v w && pyEqItems rest others
  | _, _ => false

def pyEqFields : List (PyStr × Value F) → List (PyStr × Value F) → Bool
  | [], _ => true
  | (k, v) :: rest, others =>
    (match Items.lookup k others with
      | some w => pyEq v w
      | none => false) && pyEqFields rest others

end

/-- `int(value)` -/
def toInt : Value F → Except BuiltinError ℤ
  | .bool b => .ok b.toInt
  | .int n => .ok n
  | .float x => (PyNumbers.truncate x).elim (.error .overflowError) .ok
  | .str s => (PyNumbers.parseInt F s).elim (.error .valueError) .ok
  | _ => .error .typeError

/-- `str(value)` -/
def toText : Value F → PyStr
  | .str s => s
  | value => PyNumbers.text value

end Value

end Json
