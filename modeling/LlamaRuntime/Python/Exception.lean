/-
Raised Python objects, as far as the runtime looks at them.
-/
import LlamaRuntime.Python.Str

/-- An attribute value: its truth value and its `str()`. -/
structure PyAttribute where
  truthy : Bool
  text : PyStr
  deriving DecidableEq

/-- A raised object: `isException` tells the instances of `Exception` from the
other `BaseException`s, which an `except Exception` clause lets through. -/
structure PyException where
  typeName : PyStr
  message : PyStr
  isException : Bool
  /-- `getattr(exc, "code", None)` -/
  code : Option PyAttribute
  /-- `str(getattr(exc, "detail", ...))`, where the attribute exists -/
  detail : Option PyStr
  deriving DecidableEq

namespace PyException

/-- An instance of a built-in exception class, which has neither attribute. -/
def builtin (typeName message : String) : PyException :=
  ⟨py typeName, py message, true, none, none⟩

/-- An exception with `code` and `detail` attributes, as the runtime's own
error classes have: its `str()` is `code: detail`. -/
def coded (typeName : String) (code detail : PyStr) : PyException :=
  ⟨py typeName, code ++ py ": " ++ detail, true, some ⟨code ≠ [], code⟩, some detail⟩

@[simp] theorem builtin_isException (typeName message : String) :
    (builtin typeName message).isException = true := rfl

@[simp] theorem coded_isException (typeName : String) (code detail : PyStr) :
    (coded typeName code detail).isException = true := rfl

end PyException
