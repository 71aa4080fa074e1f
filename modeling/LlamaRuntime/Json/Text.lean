/-
Writing and reading JSON, as `json.dumps` and `json.loads` do.

* `dumps` — the text with sorted keys, without blanks and with every character
  that need not be escaped as it is (`ensure_ascii=False`);
* `scanOnce` — the value at the head of a text, with its strings, numbers,
  lists and objects;
* `loads` — the strict reader: an object with a repeated key and the constants
  `NaN` and `Infinity` are refused.
-/
import LlamaRuntime.Json.Value

namespace Json

abbrev quoteMark : CodePoint := 0x22
abbrev backslash : CodePoint := 0x5C
abbrev comma : CodePoint := 0x2C
abbrev colon : CodePoint := 0x3A
abbrev openBracket : CodePoint := 0x5B
abbrev closeBracket : CodePoint := 0x5D
abbrev openBrace : CodePoint := 0x7B
abbrev closeBrace : CodePoint := 0x7D

/-! ### Writing -/

/-- A digit of `"0123456789abcdef"` -/
def hexDigit (d : ℕ) : CodePoint :=
  if d % 16 < 10 then ⟨0x30 + d % 16, by omega⟩ else ⟨0x57 + d % 16, by omega⟩

/-- The character as it stands inside a string literal. -/
def escape (c : CodePoint) : PyStr :=
  if c = quoteMark then [backslash, quoteMark]
  else if c = backslash then [backslash, backslash]
  else if c = 0x0A then [backslash, 0x6E] -- \n
  else if c = 0x0D then [backslash, 0x72] -- \r
  else if c = 0x09 then [backslash, 0x74] -- \t
  else if c = 0x0C then [backslash, 0x66] -- \f
  else if c = 0x08 then [backslash, 0x62] -- \b
  else if c.val < 0x20 then
    [backslash, 0x75, 0x30, 0x30, hexDigit (c.val / 16), hexDigit c.val] -- \u00XX
  else [c]

/-- `encode_basestring` -/
def quote (s : PyStr) : PyStr := quoteMark :: s.flatMap escape ++ [quoteMark]

/-- `",".join(parts)` -/
def commaJoin : List PyStr → PyStr
  | [] => []
  | [part] => part
  | part :: rest => part ++ comma :: commaJoin rest

def fieldText (field : PyStr × PyStr) : PyStr := quote field.1 ++ colon :: field.2

section

variable {F : Type} [Floats F]

mutual

/-- `json.dumps(value, ensure_ascii=False, sort_keys=True, separators=(",", ":"))` -/
def dumps : Value F → PyStr
  | .null => py "null"
  | .bool true => py "true"
  | .bool false => py "false"
  | .int n => intText n
  | .float x => (Floats.repr x).text
  | .str s => quote s
  | .list items => openBracket :: commaJoin (dumpsItems items) ++ [closeBracket]
  | .tuple items => openBracket :: commaJoin (dumpsItems items) ++ [closeBracket]
  | .dict items =>
    openBrace :: commaJoin ((sortKeys (dumpsFields items)).map fieldText) ++ [closeBrace]

def dumpsItems : List (Value F) → List PyStr
  | [] => []
  | v :: rest => dumps v :: dumpsItems rest

def dumpsFields : List (PyStr × Value F) → List (PyStr × PyStr)
  | [] => []
  | (k, v) :: rest => (k, dumps v) :: dumpsFields rest

end

theorem dumpsItems_eq (items : List (Value F)) : dumpsItems items = items.map dumps := by
  induction items with
  | nil => rfl
  | cons v rest ih => rw [dumpsItems, List.map_cons, ih]

theorem dumpsFields_eq (items : List (PyStr × Value F)) :
    dumpsFields items = items.map fun f => (f.1, dumps f.2) := by
  induction items with
  | nil => rfl
  | cons f rest ih => rw [dumpsFields, List.map_cons, ih]

theorem dumps_list (items : List (Value F)) :
    dumps (.list items) = openBracket :: commaJoin (items.map dumps) ++ [closeBracket] := by
  rw [dumps, dumpsItems_eq]

theorem dumps_tuple (items : List (Value F)) :
    dumps (.tuple items) = openBracket :: commaJoin (items.map dumps) ++ [closeBracket] := by
  rw [dumps, dumpsItems_eq]

theorem dumps_dict (items : List (PyStr × Value F)) :
    dumps (.dict items) = openBrace ::
      commaJoin ((sortKeys (items.map fun f => (f.1, dumps f.2))).map fieldText)
        ++ [closeBrace] := by
  rw [dumps, dumpsFields_eq]

/-- A surrogate is written as it is. -/
theorem escape_of_isSurrogate {c : CodePoint} (h : c.IsSurrogate) : escape c = [c] := by
  have hlow : 0xD800 ≤ c.val := h.1
  have hne {d : CodePoint} (hd : d.val < 0x80) : c ≠ d := by
    rintro rfl
    omega
  unfold escape
  rw [if_neg (hne (by decide)), if_neg (hne (by decide)), if_neg (hne (by decide)),
    if_neg (hne (by decide)), if_neg (hne (by decide)), if_neg (hne (by decide)),
    if_neg (hne (by decide)), if_neg (by omega)]

theorem mem_quote_of_isSurrogate {c : CodePoint} {s : PyStr} (hc : c ∈ s) (h : c.IsSurrogate) :
    c ∈ quote s := by
  have hmem : c ∈ s.flatMap escape :=
    List.mem_flatMap.mpr ⟨c, hc, by rw [escape_of_isSurrogate h]; exact List.mem_singleton_self c⟩
  exact List.mem_append_left _ (List.mem_cons_of_mem _ hmem)

theorem mem_commaJoin {c : CodePoint} {part : PyStr} (hc : c ∈ part) :
    ∀ {parts : List PyStr}, part ∈ parts → c ∈ commaJoin parts
  | [_], h => List.mem_singleton.mp h ▸ hc
  | next :: after :: rest, h => by
    rw [show commaJoin (next :: after :: rest) = next ++ comma :: commaJoin (after :: rest)
      from rfl]
    rcases List.mem_cons.mp h with rfl | h
    · exact List.mem_append_left _ hc
    · exact List.mem_append_right _ (List.mem_cons_of_mem _ (mem_commaJoin hc h))

/-- A surrogate in a string of a payload is in the text of the payload. -/
theorem mem_dumps_of_field {items : List (PyStr × Value F)} {k s : PyStr} {c : CodePoint}
    (hf : (k, .str s) ∈ items) (hc : c ∈ s) (h : c.IsSurrogate) : c ∈ dumps (.dict items) := by
  have hmem : fieldText (k, quote s)
      ∈ (sortKeys (items.map fun f => (f.1, dumps f.2))).map fieldText := by
    refine List.mem_map.mpr ⟨(k, quote s), mem_sortKeys.mpr ?_, rfl⟩
    exact List.mem_map.mpr ⟨(k, .str s), hf, by rw [dumps]⟩
  have hin : c ∈ fieldText (k, quote s) :=
    List.mem_append_right _ (List.mem_cons_of_mem _ (mem_quote_of_isSurrogate hc h))
  rw [dumps_dict]
  exact List.mem_append_left _ (List.mem_cons_of_mem _ (mem_commaJoin hin hmem))

/-- A value and its normal form are written alike. -/
theorem dumps_normal (v : Value F) : dumps v.normal = dumps v := by
  induction v using Value.induction with
  | null | bool | int | float | str => simp
  | list items ih =>
    rw [Value.normal_list, dumps_list, dumps_list, List.map_map]
    exact congrArg (fun parts => openBracket :: commaJoin parts ++ [closeBracket])
      (List.map_congr_left ih)
  | tuple items ih =>
    rw [Value.normal_tuple, dumps_list, dumps_tuple, List.map_map]
    exact congrArg (fun parts => openBracket :: commaJoin parts ++ [closeBracket])
      (List.map_congr_left ih)
  | dict items ih =>
    rw [Value.normal_dict, dumps_dict, dumps_dict, map_sortKeys, sortKeys_sortKeys, List.map_map]
    have h : items.map ((fun f => (f.1, dumps f.2)) ∘ fun f => (f.1, f.2.normal))
        = items.map fun f => (f.1, dumps f.2) :=
      List.map_congr_left fun f hf => by simp [ih f hf]
    rw [h]

/-! ### Reading -/

/-- Why a text is not read. -/
inductive Fault where
  /-- `json.JSONDecodeError` -/
  | malformed
  /-- raised by the hooks: a repeated key, or a constant that is no number -/
  | refused
  /-- `ValueError`: an integer above the interpreter's limit of digits -/
  | digits
  deriving DecidableEq

end

def isBlank (c : CodePoint) : Bool := c = 0x20 || c = 0x09 || c = 0x0A || c = 0x0D

def skipBlanks (text : PyStr) : PyStr := text.dropWhile isBlank

def hexValue (c : CodePoint) : Option ℕ :=
  if 0x30 ≤ c.val ∧ c.val ≤ 0x39 then some (c.val - 0x30)
  else if 0x61 ≤ c.val ∧ c.val ≤ 0x66 then some (c.val - 0x57)
  else if 0x41 ≤ c.val ∧ c.val ≤ 0x46 then some (c.val - 0x37)
  else none

/-- The code unit of the four digits of a `\u` escape. -/
def hexUnit (a b c d : CodePoint) : Option CodePoint := do
  let a ← hexValue a
  let b ← hexValue b
  let c ← hexValue c
  let d ← hexValue d
  let n := ((a * 16 + b) * 16 + c) * 16 + d
  if h : n < 0x110000 then some ⟨n, h⟩ else none

/-- The character a backslash and this one stand for. -/
def shortEscape (c : CodePoint) : Option CodePoint :=
  if c = quoteMark then some quoteMark
  else if c = backslash then some backslash
  else if c = 0x2F then some 0x2F
  else if c = 0x62 then some 0x08
  else if c = 0x66 then some 0x0C
  else if c = 0x6E then some 0x0A
  else if c = 0x72 then some 0x0D
  else if c = 0x74 then some 0x09
  else none

/-- The code units of a string literal after its opening quote, each with the
mark of a `\u` escape, and what follows the closing quote. -/
def scanUnits : PyStr → Option (List (CodePoint × Bool) × PyStr)
  | [] => none
  | c :: rest =>
    if c = quoteMark then some ([], rest)
    else if c = backslash then
      match rest with
      | [] => none
      | e :: rest =>
        if e = 0x75 then
          match rest with
          | h₁ :: h₂ :: h₃ :: h₄ :: rest =>
            (hexUnit h₁ h₂ h₃ h₄).bind fun u =>
              (scanUnits rest).map fun (units, rest) => ((u, true) :: units, rest)
          | _ => none
        else
          (shortEscape e).bind fun u =>
            (scanUnits rest).map fun (units, rest) => ((u, false) :: units, rest)
    -- control characters must be escaped
    else if c.val < 0x20 then none
    else (scanUnits rest).map fun (units, rest) => ((c, false) :: units, rest)

def isHighSurrogate (c : CodePoint) : Bool := 0xD800 ≤ c.val && c.val ≤ 0xDBFF

def isLowSurrogate (c : CodePoint) : Bool := 0xDC00 ≤ c.val && c.val ≤ 0xDFFF

def joinPair (high low : CodePoint) : CodePoint :=
  ⟨(0x10000 + (high.val - 0xD800) % 0x400 * 0x400 + (low.val - 0xDC00) % 0x400), by omega⟩

/-- Two `\u` escapes that are a surrogate pair stand for one character. -/
def joinSurrogates : List (CodePoint × Bool) → PyStr
  | (high, true) :: (low, true) :: rest =>
    if isHighSurrogate high && isLowSurrogate low then joinPair high low :: joinSurrogates rest
    else high :: joinSurrogates ((low, true) :: rest)
  | (c, _) :: rest => c :: joinSurrogates rest
  | [] => []

/-- `scanstring`, after the opening quote. -/
def scanString (text : PyStr) : Option (PyStr × PyStr) :=
  (scanUnits text).map fun (units, rest) => (joinSurrogates units, rest)

section

variable {F : Type} [Floats F]

/-- The number of a token; the interpreter converts no more than its limit of digits. -/
def numberOfToken (token : NumberToken) : Except Fault (Value F) :=
  if token.isFloat then .ok (.float (Floats.ofText token.text))
  else if digitCount (intOfText token.text) ≤ Value.maxStrDigits then
    .ok (.int (intOfText token.text))
  else .error .digits

/-- `pairs`: the object of the items, unless a key is repeated. -/
def objectOfPairs (items : List (PyStr × Value F)) : Except Fault (Value F) :=
  if (items.map Prod.fst).Nodup then .ok (.dict items) else .error .refused

/-- What is read after a word of letters: a constant, or a word the hooks refuse. -/
def scanWord (text : PyStr) : Except Fault (Value F × PyStr) :=
  if py "null" <+: text then .ok (.null, text.drop 4)
  else if py "true" <+: text then .ok (.bool true, text.drop 4)
  else if py "false" <+: text then .ok (.bool false, text.drop 5)
  else if py "NaN" <+: text ∨ py "Infinity" <+: text ∨ py "-Infinity" <+: text then
    .error .refused
  else
    match scanNumber text with
    | some (token, rest) => (numberOfToken token).map fun v => (v, rest)
    | none => .error .malformed

mutual

/-- `scan_once`: the value at the head of the text and what follows it.  The
fuel bounds the depth of the calls; twice the length of the text is enough. -/
def scanOnce : ℕ → PyStr → Except Fault (Value F × PyStr)
  | fuel + 1, c :: rest =>
    if c = quoteMark then
      match scanString rest with
      | some (s, rest) => .ok (.str s, rest)
      | none => .error .malformed
    else if c = openBracket then
      match skipBlanks rest with
      | [] => .error .malformed
      | d :: rest =>
        if d = closeBracket then .ok (.list [], rest)
        else (scanItems fuel (d :: rest)).map fun (items, rest) => (.list items, rest)
    else if c = openBrace then
      match skipBlanks rest with
      | [] => .error .malformed
      | d :: rest =>
        if d = closeBrace then .ok (.dict [], rest)
        else (scanFields fuel (d :: rest)).bind fun (items, rest) =>
          (objectOfPairs items).map fun v => (v, rest)
    else scanWord (c :: rest)
  | _, _ => .error .malformed

/-- The items of a list, up to its closing bracket. -/
def scanItems : ℕ → PyStr → Except Fault (List (Value F) × PyStr)
  | fuel + 1, text =>
    (scanOnce fuel text).bind fun (v, rest) =>
      match skipBlanks rest with
      | [] => .error .malformed
      | d :: rest =>
        if d = closeBracket then .ok ([v], rest)
        else if d = comma then
          (scanItems fuel (skipBlanks rest)).map fun (items, rest) => (v :: items, rest)
        else .error .malformed
  | 0, _ => .error .malformed

/-- The members of an object, up to its closing brace. -/
def scanFields : ℕ → PyStr → Except Fault (List (PyStr × Value F) × PyStr)
  | fuel + 1, c :: rest =>
    if c = quoteMark then
      match scanString rest with
      | none => .error .malformed
      | some (k, rest) =>
        match skipBlanks rest with
        | [] => .error .malformed
        | d :: rest =>
          if d = colon then
            (scanOnce fuel (skipBlanks rest)).bind fun (v, rest) =>
              match skipBlanks rest with
              | [] => .error .malformed
              | d :: rest =>
                if d = closeBrace then .ok ([(k, v)], rest)
                else if d = comma then
                  (scanFields fuel (skipBlanks rest)).map fun (items, rest) =>
                    ((k, v) :: items, rest)
                else .error .malformed
          else .error .malformed
    else .error .malformed
  | _, _ => .error .malformed

end

/-- `json.loads` with the strict hooks. -/
def loads (text : PyStr) : Except Fault (Value F) :=
  (scanOnce (2 * text.length) (skipBlanks text)).bind fun (v, rest) =>
    if skipBlanks rest = [] then .ok v else .error .malformed

end

end Json
