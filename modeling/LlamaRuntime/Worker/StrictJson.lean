/-
Strict JSON of the model worker, and the errors of its boundary.

* `WorkerError` — the typed errors; only the codes of `ERROR_HTTP_STATUS` can be
  built;
* `loads` — the reader of `strict_json`: besides what the `json` hooks refuse, no
  string may hold a surrogate.
-/
import LlamaRuntime.Json.Text
import LlamaRuntime.Python.Utf8

namespace Worker

open Json

/-- The keys of `ERROR_HTTP_STATUS` -/
inductive ErrorCode where
  | invalid_request
  | request_too_large
  | unsupported_contract
  | context_overflow
  | queue_full
  | slow_consumer
  | queue_timeout
  | cancelled
  | deadline_exceeded
  | protocol_violation
  | output_invalid
  | decode_failed
  | worker_crashed
  | worker_not_ready
  | shutdown
  deriving DecidableEq

structure ErrorDetail where
  path : PyStr
  message : PyStr
  deriving DecidableEq

structure WorkerError where
  code : ErrorCode
  message : PyStr
  details : List ErrorDetail := []
  deriving DecidableEq

/-- What the worker's code raises. -/
inductive Raised where
  | worker (error : WorkerError)
  /-- `TypeError`, of a value that cannot be hashed -/
  | unhashable
  /-- any other exception -/
  | other (message : PyStr)
  deriving DecidableEq

/-- The error of a call that has raised. -/
def errorOf {ε α : Type} : Except ε α → Option ε
  | .error e => some e
  | .ok _ => none

theorem errorOf_eq_some {ε α : Type} {r : Except ε α} {e : ε} :
    errorOf r = some e ↔ r = .error e := by
  cases r <;> simp [errorOf]

/-- `bytes` or `str` -/
inductive Data where
  | bytes (data : List UInt8)
  | str (data : PyStr)

def Data.raw : Data → Option (List UInt8)
  | .bytes data => some data
  | .str data => encodeUtf8 data

section

variable {F : Type}

def surrogateFree (s : PyStr) : Bool := s.all fun c => ¬ c.IsSurrogate

/-- The strings of a value itself: those of its parts are not looked at. -/
def cleanStrings : Value F → Bool
  | .str s => surrogateFree s
  | .dict items => items.all fun item => surrogateFree item.1
  | _ => true

/-- `_has_unpaired_surrogate` -/
def hasUnpairedSurrogate (value : Value F) : Bool := !value.all cleanStrings

def invalidJson (reason : String) : WorkerError :=
  ⟨.invalid_request, py "invalid JSON: " ++ py reason, []⟩

variable [Floats F]

/-- `loads`; what `json` says about a text it does not read is not told apart. -/
def loads (data : Data) (tooLarge : Option ℕ := none) : Except WorkerError (Value F) :=
  match data.raw with
  | none => .error ⟨.invalid_request, py "invalid JSON Unicode scalar", []⟩
  | some raw =>
    if tooLarge.any fun limit => limit < raw.length then
      .error ⟨.request_too_large, py "request body exceeds byte limit", []⟩
    else
      match decodeUtf8 raw with
      | none => .error (invalidJson "not UTF-8")
      | some text =>
        match Json.loads text with
        | .error _ => .error (invalidJson "not strict JSON")
        | .ok value =>
          if hasUnpairedSurrogate value then
            .error (invalidJson "unpaired Unicode surrogate is forbidden")
          else .ok value

/-- What a text without floats is read over. -/
inductive NoFloat where
  | zero

instance : Floats NoFloat where
  isFinite _ := true
  isZero _ := true
  repr _ := zeroText
  ofText _ := .zero
  ofText_repr x _ := by cases x; rfl

theorem clean_of_loads {data : Data} {tooLarge : Option ℕ} {value : Value F}
    (h : loads data tooLarge = .ok value) : value.all cleanStrings = true := by
  unfold loads at h
  cases hraw : data.raw with
  | none =>
    rw [hraw] at h
    exact nomatch h
  | some raw =>
    rw [hraw] at h
    dsimp only at h
    by_cases hlarge : (tooLarge.any fun limit => limit < raw.length) = true
    · rw [if_pos hlarge] at h
      exact nomatch h
    rw [if_neg hlarge] at h
    cases htext : decodeUtf8 raw with
    | none =>
      rw [htext] at h
      exact nomatch h
    | some text =>
      rw [htext] at h
      dsimp only at h
      cases hvalue : (Json.loads text : Except Fault (Value F)) with
      | error fault =>
        rw [hvalue] at h
        exact nomatch h
      | ok read =>
        rw [hvalue] at h
        dsimp only at h
        by_cases hbad : hasUnpairedSurrogate read = true
        · rw [if_pos hbad] at h
          exact nomatch h
        · rw [if_neg hbad] at h
          obtain rfl := Except.ok.inj h
          simpa [hasUnpairedSurrogate] using hbad

end

end Worker
