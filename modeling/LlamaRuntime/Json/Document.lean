/-
A JSON text as the document it is, before any hook has seen it.

The strict reader refuses while it reads.  Here the same grammar is read to a tree that
keeps repeated keys, the constants `NaN` and `Infinity` and the text of each number, so
that what the hooks did can be said of the text.

* `Document` — the tree; `Document.all` — a check made at every node;
* `document` — the tree of a text;
* `loads_eq` — the strict reader takes the texts whose documents are `accepted` at every
  node, and its value is that of the document.
-/
import LlamaRuntime.Json.RoundTrip

namespace Json

inductive Document where
  | null
  | bool (b : Bool)
  /-- `NaN`, `Infinity` or `-Infinity` -/
  | constant
  | number (token : NumberToken)
  | str (s : PyStr)
  | list (items : List Document)
  | object (fields : List (PyStr × Document))

/-! ### The reading -/

/-- A word of letters, or a number. -/
def readWord (text : PyStr) : Option (Document × PyStr) :=
  if py "null" <+: text then some (.null, text.drop 4)
  else if py "true" <+: text then some (.bool true, text.drop 4)
  else if py "false" <+: text then some (.bool false, text.drop 5)
  else if py "NaN" <+: text then some (.constant, text.drop 3)
  else if py "Infinity" <+: text then some (.constant, text.drop 8)
  else if py "-Infinity" <+: text then some (.constant, text.drop 9)
  else (scanNumber text).map fun (token, rest) => (.number token, rest)

mutual

/-- The document at the head of the text and what follows it. -/
def readOnce : ℕ → PyStr → Option (Document × PyStr)
  | fuel + 1, c :: rest =>
    if c = quoteMark then (scanString rest).map fun (s, rest) => (.str s, rest)
    else if c = openBracket then
      match skipBlanks rest with
      | [] => none
      | d :: rest =>
        if d = closeBracket then some (.list [], rest)
        else (readItems fuel (d :: rest)).map fun (items, rest) => (.list items, rest)
    else if c = openBrace then
      match skipBlanks rest with
      | [] => none
      | d :: rest =>
        if d = closeBrace then some (.object [], rest)
        else (readFields fuel (d :: rest)).map fun (fields, rest) => (.object fields, rest)
    else readWord (c :: rest)
  | _, _ => none

def readItems : ℕ → PyStr → Option (List Document × PyStr)
  | fuel + 1, text =>
    (readOnce fuel text).bind fun (doc, rest) =>
      match skipBlanks rest with
      | [] => none
      | d :: rest =>
        if d = closeBracket then some ([doc], rest)
        else if d = comma then
          (readItems fuel (skipBlanks rest)).map fun (items, rest) => (doc :: items, rest)
        else none
  | 0, _ => none

def readFields : ℕ → PyStr → Option (List (PyStr × Document) × PyStr)
  | fuel + 1, c :: rest =>
    if c = quoteMark then
      (scanString rest).bind fun (k, rest) =>
        match skipBlanks rest with
        | [] => none
        | d :: rest =>
          if d = colon then
            (readOnce fuel (skipBlanks rest)).bind fun (doc, rest) =>
              match skipBlanks rest with
              | [] => none
              | d :: rest =>
                if d = closeBrace then some ([(k, doc)], rest)
                else if d = comma then
                  (readFields fuel (skipBlanks rest)).map fun (fields, rest) =>
                    ((k, doc) :: fields, rest)
                else none
          else none
    else none
  | _, _ => none

end

/-- The document of a text; `none` if it is no JSON. -/
def document (text : PyStr) : Option Document :=
  (readOnce (2 * text.length) (skipBlanks text)).bind fun (doc, rest) =>
    if skipBlanks rest = [] then some doc else none

/-! ### Its value -/

namespace Document

mutual

/-- The check `p` at every node. -/
def all (p : Document → Bool) : Document → Bool
  | .list items => p (.list items) && allItems p items
  | .object fields => p (.object fields) && allFields p fields
  | d => p d

def allItems (p : Document → Bool) : List Document → Bool
  | [] => true
  | d :: rest => d.all p && allItems p rest

def allFields (p : Document → Bool) : List (PyStr × Document) → Bool
  | [] => true
  | (_, d) :: rest => d.all p && allFields p rest

end

section

variable {F : Type} [Floats F]

mutual

/-- The value of a document; there is none for a constant. -/
def value : Document → Value F
  | .null => .null
  | .bool b => .bool b
  | .constant => .null
  | .number token =>
    if token.isFloat then .float (Floats.ofText token.text) else .int (intOfText token.text)
  | .str s => .str s
  | .list items => .list (valueItems items)
  | .object fields => .dict (valueFields fields)

def valueItems : List Document → List (Value F)
  | [] => []
  | d :: rest => d.value :: valueItems rest

def valueFields : List (PyStr × Document) → List (PyStr × Value F)
  | [] => []
  | (k, d) :: rest => (k, d.value) :: valueFields rest

end

end

/-- No member of an object repeats a key. -/
def distinctKeys : Document → Bool
  | object fields => decide (fields.map Prod.fst).Nodup
  | _ => true

/-- No constant, and no integer of too many digits. -/
def convertible : Document → Bool
  | constant => false
  | number token => token.isFloat || decide (digitCount (intOfText token.text) ≤ Value.maxStrDigits)
  | _ => true

/-- What the hooks and the conversion of integers let pass. -/
def accepted (d : Document) : Bool := d.convertible && d.distinctKeys

/-- No number with a fraction or an exponent overflows. -/
def finiteLiteral (F : Type) [Floats F] : Document → Bool
  | number token => !token.isFloat || Floats.isFinite (Floats.ofText token.text : F)
  | _ => true

end Document

/-! ### The strict reader -/

variable {F : Type} [Floats F]

/-- What was read, whatever a failure was. -/
def whenOk {α : Type} : Except Fault α → Option α
  | .ok a => some a
  | .error _ => none

@[simp] theorem whenOk_ok {α : Type} (a : α) : whenOk (.ok a) = some a := rfl

@[simp] theorem whenOk_error {α : Type} (fault : Fault) :
    whenOk (.error fault : Except Fault α) = none := rfl

theorem whenOk_bind {α β : Type} (x : Except Fault α) (f : α → Except Fault β) :
    whenOk (x.bind f) = (whenOk x).bind fun a => whenOk (f a) := by
  cases x <;> rfl

theorem whenOk_map {α β : Type} (x : Except Fault α) (f : α → β) :
    whenOk (x.map f) = (whenOk x).map f := by
  cases x <;> rfl

namespace Document

section

variable (p : Document → Bool)

theorem allItems_eq (items : List Document) : allItems p items = items.all (all p) := by
  induction items with
  | nil => rfl
  | cons d rest ih => rw [allItems, List.all_cons, ih]

theorem allFields_eq (fields : List (PyStr × Document)) :
    allFields p fields = fields.all fun f => f.2.all p := by
  induction fields with
  | nil => rfl
  | cons f rest ih => rw [allFields, List.all_cons, ih]

theorem all_list (items : List Document) :
    (list items).all p = (p (list items) && items.all (all p)) := by rw [all, allItems_eq]

theorem all_object (fields : List (PyStr × Document)) :
    (object fields).all p = (p (object fields) && fields.all fun f => f.2.all p) := by
  rw [all, allFields_eq]

end

theorem valueItems_eq (items : List Document) :
    (valueItems items : List (Value F)) = items.map value := by
  induction items with
  | nil => rfl
  | cons d rest ih => rw [valueItems, List.map_cons, ih]

theorem valueFields_eq (fields : List (PyStr × Document)) :
    (valueFields fields : List (PyStr × Value F)) = fields.map fun f => (f.1, f.2.value) := by
  induction fields with
  | nil => rfl
  | cons f rest ih => rw [valueFields, List.map_cons, ih]

theorem value_list (items : List Document) :
    ((list items).value : Value F) = .list (items.map value) := by rw [value, valueItems_eq]

theorem value_object (fields : List (PyStr × Document)) :
    ((object fields).value : Value F) = .dict (fields.map fun f => (f.1, f.2.value)) := by
  rw [value, valueFields_eq]

/-- The value of a document that is accepted. -/
def taken (d : Document) : Option (Value F) := if d.all accepted then some d.value else none

/-- The values of documents that are accepted. -/
def takenItems (items : List Document) : Option (List (Value F)) :=
  if items.all (all accepted) then some (items.map value) else none

def takenFields (fields : List (PyStr × Document)) : Option (List (PyStr × Value F)) :=
  if fields.all (fun f => f.2.all accepted) then some (fields.map fun f => (f.1, f.2.value))
  else none

theorem taken_list (items : List Document) :
    (taken (list items) : Option (Value F)) = (takenItems items).map .list := by
  unfold taken takenItems
  rw [all_list, value_list]
  show (if items.all (all accepted) = true then _ else _) = _
  split_ifs <;> rfl

/-- An object is made of its members if no key is repeated. -/
theorem taken_object (fields : List (PyStr × Document)) :
    (taken (object fields) : Option (Value F)) =
      (takenFields fields).bind fun items => whenOk (objectOfPairs items) := by
  unfold taken takenFields
  rw [all_object, value_object]
  have hkeys : (fields.map fun f => (f.1, (f.2.value : Value F))).map Prod.fst =
      fields.map Prod.fst := by simp
  by_cases hall : (fields.all fun f => f.2.all accepted) = true
  · rw [hall, if_pos rfl, Option.bind_some, Bool.and_true, objectOfPairs, hkeys]
    show (if decide (fields.map Prod.fst).Nodup = true then _ else _) = _
    by_cases hnodup : (fields.map Prod.fst).Nodup
    · rw [if_pos (decide_eq_true hnodup), if_pos hnodup]
      rfl
    · rw [if_neg (by simpa using hnodup), if_neg hnodup]
      rfl
  · rw [if_neg hall, if_neg]
    · rfl
    · rw [Bool.and_eq_true]
      exact fun h => hall h.2

theorem takenItems_nil : (takenItems [] : Option (List (Value F))) = some [] := rfl

theorem takenFields_nil : (takenFields [] : Option (List (PyStr × Value F))) = some [] := rfl

theorem takenItems_cons (d : Document) (rest : List Document) :
    (takenItems (d :: rest) : Option (List (Value F))) =
      d.taken.bind fun v => (takenItems rest).map fun items => v :: items := by
  unfold takenItems taken
  rw [List.all_cons, List.map_cons]
  by_cases hd : d.all accepted = true
  · rw [hd, if_pos rfl, Bool.true_and, Option.bind_some]
    split_ifs <;> rfl
  · rw [if_neg hd, if_neg]
    · rfl
    · rw [Bool.and_eq_true]
      exact fun h => hd h.1

theorem takenFields_cons (k : PyStr) (d : Document) (rest : List (PyStr × Document)) :
    (takenFields ((k, d) :: rest) : Option (List (PyStr × Value F))) =
      d.taken.bind fun v => (takenFields rest).map fun items => (k, v) :: items := by
  unfold takenFields taken
  rw [List.all_cons, List.map_cons]
  by_cases hd : d.all accepted = true
  · rw [hd, if_pos rfl, Bool.true_and, Option.bind_some]
    split_ifs <;> rfl
  · rw [if_neg hd, if_neg]
    · rfl
    · rw [Bool.and_eq_true]
      exact fun h => hd h.1

theorem taken_number (token : NumberToken) :
    (taken (number token) : Option (Value F)) = whenOk (numberOfToken token) := by
  unfold taken numberOfToken
  have hall : (number token).all accepted =
      (token.isFloat || decide (digitCount (intOfText token.text) ≤ Value.maxStrDigits)) := by
    rw [all.eq_def]
    show (_ && true) = _
    rw [Bool.and_true]
    rfl
  rw [hall]
  show (if _ then some (if token.isFloat = true then Value.float (Floats.ofText token.text) else
    Value.int (intOfText token.text)) else none) = _
  cases token.isFloat with
  | true => rfl
  | false =>
    by_cases hshort : digitCount (intOfText token.text) ≤ Value.maxStrDigits
    · rw [Bool.false_or, if_pos (decide_eq_true hshort), if_neg Bool.false_ne_true,
        if_neg Bool.false_ne_true, if_pos hshort]
      rfl
    · rw [Bool.false_or, if_neg (by simpa using hshort), if_neg Bool.false_ne_true,
        if_neg hshort]
      rfl

end Document

theorem whenOk_scanWord (text : PyStr) : whenOk (scanWord text : Except Fault (Value F × PyStr)) =
    (readWord text).bind fun (doc, rest) => doc.taken.map fun v => (v, rest) := by
  unfold scanWord readWord
  by_cases hnull : py "null" <+: text
  · rw [if_pos hnull, if_pos hnull]
    rfl
  rw [if_neg hnull, if_neg hnull]
  by_cases htrue : py "true" <+: text
  · rw [if_pos htrue, if_pos htrue]
    rfl
  rw [if_neg htrue, if_neg htrue]
  by_cases hfalse : py "false" <+: text
  · rw [if_pos hfalse, if_pos hfalse]
    rfl
  rw [if_neg hfalse, if_neg hfalse]
  by_cases hconstant : py "NaN" <+: text ∨ py "Infinity" <+: text ∨ py "-Infinity" <+: text
  · rw [if_pos hconstant]
    split_ifs with hnan hinfinity hminus
    · rfl
    · rfl
    · rfl
    · exact absurd hconstant (not_or.mpr ⟨hnan, not_or.mpr ⟨hinfinity, hminus⟩⟩)
  rw [if_neg hconstant]
  rw [not_or, not_or] at hconstant
  rw [if_neg hconstant.1, if_neg hconstant.2.1, if_neg hconstant.2.2]
  cases scanNumber text with
  | none => rfl
  | some found =>
    obtain ⟨token, rest⟩ := found
    dsimp only [Option.map_some, Option.bind_some]
    rw [whenOk_map]
    rw [Document.taken_number]

/-- What is done after a member: the last one is followed by the closing character, any
other by a comma. -/
def afterMember {γ : Type} (close : CodePoint) (rest : PyStr) (last more : PyStr → γ) (bad : γ) : γ :=
  match skipBlanks rest with
  | [] => bad
  | d :: rest => if d = close then last rest else if d = comma then more (skipBlanks rest) else bad

theorem afterMember_apply {γ δ : Type} (f : γ → δ) (close : CodePoint) (rest : PyStr)
    (last more : PyStr → γ) (bad : γ) : f (afterMember close rest last more bad) =
      afterMember close rest (fun r => f (last r)) (fun r => f (more r)) (f bad) := by
  unfold afterMember
  cases skipBlanks rest with
  | nil => rfl
  | cons d rest =>
    dsimp only
    rw [apply_ite f, apply_ite f]

theorem afterMember_const {γ : Type} (close : CodePoint) (rest : PyStr) (bad : γ) :
    afterMember close rest (fun _ => bad) (fun _ => bad) bad = bad := by
  unfold afterMember
  cases skipBlanks rest with
  | nil => rfl
  | cons d rest =>
    dsimp only
    rw [ite_self, ite_self]

omit [Floats F] in
/-- A member and those after it are scanned to the values of what is read. -/
theorem whenOk_members {α β : Type} {close : CodePoint} {taken : Option (Value F)} {node : β}
    {entry : Value F → α} {takenAll : List β → Option (List α)} (hnil : takenAll [] = some [])
    (hcons : ∀ nodes, takenAll (node :: nodes) =
      taken.bind fun v => (takenAll nodes).map fun items => entry v :: items)
    {scan : PyStr → Except Fault (List α × PyStr)} {read : PyStr → Option (List β × PyStr)}
    (ih : ∀ text, whenOk (scan text) =
      (read text).bind fun found => (takenAll found.1).map fun items => (items, found.2))
    (rest : PyStr) :
    ((taken.map fun v => (v, rest)).bind fun found =>
      whenOk (afterMember close found.2 (fun r => .ok ([entry found.1], r))
        (fun r => (scan r).map fun items => (entry found.1 :: items.1, items.2))
        (.error .malformed))) =
    (afterMember close rest (fun r => some ([node], r))
      (fun r => (read r).map fun nodes => (node :: nodes.1, nodes.2)) none).bind fun found =>
        (takenAll found.1).map fun items => (items, found.2) := by
  have hone : takenAll [node] = taken.map fun v => [entry v] := by
    rw [hcons, hnil]
    cases taken <;> rfl
  rw [afterMember_apply fun found : Option (List β × PyStr) =>
    found.bind fun found => (takenAll found.1).map fun items => (items, found.2)]
  dsimp only [Option.bind_some, Option.bind_none]
  rw [hone]
  cases taken with
  | none =>
    -- a member that is refused spoils all of them
    have hmore : ∀ r, ((read r).map fun nodes => (node :: nodes.1, nodes.2)).bind
        (fun found => (takenAll found.1).map fun items => (items, found.2)) = none := by
      intro r
      cases read r with
      | none => rfl
      | some nodes =>
        dsimp only [Option.map_some, Option.bind_some]
        rw [hcons]
        rfl
    simp only [hmore, Option.map_none, Option.bind_none]
    exact (afterMember_const close rest none).symm
  | some v =>
    dsimp only [Option.map_some, Option.bind_some]
    rw [afterMember_apply whenOk]
    congr 1
    funext r
    rw [whenOk_map, ih]
    cases read r with
    | none => rfl
    | some nodes =>
      dsimp only [Option.map_some, Option.bind_some]
      rw [hcons, Option.bind_some, Option.map_map, Option.map_map]
      rfl

/-- **The hooks**: what is scanned is the value of the document that is read, if it is
accepted.  The induction is on the fuel, over the three scanners at once. -/
theorem scan_eq (fuel : ℕ) :
    (∀ text, whenOk (scanOnce fuel text : Except Fault (Value F × PyStr)) =
      (readOnce fuel text).bind fun found => found.1.taken.map fun v => (v, found.2)) ∧
    (∀ text, whenOk (scanItems fuel text : Except Fault (List (Value F) × PyStr)) =
      (readItems fuel text).bind fun found =>
        (Document.takenItems found.1).map fun items => (items, found.2)) ∧
    (∀ text, whenOk (scanFields fuel text : Except Fault (List (PyStr × Value F) × PyStr)) =
      (readFields fuel text).bind fun found =>
        (Document.takenFields found.1).map fun items => (items, found.2)) := by
  induction fuel with
  | zero =>
    refine ⟨?_, ?_, ?_⟩
    · intro text
      rw [scanOnce.eq_def, readOnce.eq_def]
      rfl
    · intro text
      rw [scanItems, readItems]
      rfl
    · intro text
      rw [scanFields.eq_def, readFields.eq_def]
      rfl
  | succ fuel ih =>
    obtain ⟨ihOnce, ihItems, ihFields⟩ := ih
    refine ⟨?_, ?_, ?_⟩
    · intro text
      cases text with
      | nil =>
        rw [scanOnce.eq_def, readOnce.eq_def]
        rfl
      | cons c text =>
        rw [scanOnce, readOnce]
        by_cases hquote : c = quoteMark
        · rw [if_pos hquote, if_pos hquote]
          cases scanString text with
          | none => rfl
          | some found => rfl
        rw [if_neg hquote, if_neg hquote]
        by_cases hlist : c = openBracket
        · rw [if_pos hlist, if_pos hlist]
          cases skipBlanks text with
          | nil => rfl
          | cons d rest =>
            dsimp only
            by_cases hempty : d = closeBracket
            · rw [if_pos hempty, if_pos hempty]
              rfl
            · rw [if_neg hempty, if_neg hempty, whenOk_map, ihItems]
              cases readItems fuel (d :: rest) with
              | none => rfl
              | some found =>
                dsimp only [Option.bind_some, Option.map_some]
                rw [Document.taken_list, Option.map_map, Option.map_map]
                rfl
        rw [if_neg hlist, if_neg hlist]
        by_cases hobject : c = openBrace
        · rw [if_pos hobject, if_pos hobject]
          cases skipBlanks text with
          | nil => rfl
          | cons d rest =>
            dsimp only
            by_cases hempty : d = closeBrace
            · rw [if_pos hempty, if_pos hempty]
              rfl
            · rw [if_neg hempty, if_neg hempty, whenOk_bind, ihFields]
              cases readFields fuel (d :: rest) with
              | none => rfl
              | some found =>
                dsimp only [Option.bind_some, Option.map_some]
                rw [Document.taken_object]
                cases (Document.takenFields found.1 : Option (List (PyStr × Value F))) with
                | none => rfl
                | some items =>
                  dsimp only [Option.bind_some, Option.map_some]
                  rw [whenOk_map]
        rw [if_neg hobject, if_neg hobject]
        exact whenOk_scanWord (c :: text)
    · intro text
      rw [scanItems, readItems, whenOk_bind, ihOnce]
      cases readOnce fuel text with
      | none => rfl
      | some found =>
        exact whenOk_members Document.takenItems_nil (Document.takenItems_cons found.1) ihItems found.2
    · intro text
      cases text with
      | nil =>
        rw [scanFields.eq_def, readFields.eq_def]
        rfl
      | cons c text =>
        rw [scanFields, readFields]
        by_cases hquote : c = quoteMark
        swap
        · rw [if_neg hquote, if_neg hquote]
          rfl
        rw [if_pos hquote, if_pos hquote]
        cases scanString text with
        | none => rfl
        | some found =>
          obtain ⟨k, rest⟩ := found
          dsimp only [Option.bind_some]
          cases skipBlanks rest with
          | nil => rfl
          | cons d rest =>
            dsimp only
            by_cases hcolon : d = colon
            swap
            · rw [if_neg hcolon, if_neg hcolon]
              rfl
            rw [if_pos hcolon, if_pos hcolon, whenOk_bind, ihOnce]
            cases readOnce fuel (skipBlanks rest) with
            | none => rfl
            | some found =>
              exact whenOk_members Document.takenFields_nil (Document.takenFields_cons k found.1) ihFields found.2

/-- The strict reader takes the documents that are accepted. -/
theorem loads_eq (text : PyStr) :
    whenOk (loads text : Except Fault (Value F)) = (document text).bind Document.taken := by
  unfold loads document
  rw [whenOk_bind, (scan_eq _).1]
  cases readOnce (2 * text.length) (skipBlanks text) with
  | none => rfl
  | some found =>
    obtain ⟨doc, rest⟩ := found
    dsimp only [Option.bind_some]
    by_cases hrest : skipBlanks rest = []
    · rw [if_pos hrest, Option.bind_some]
      cases (doc.taken : Option (Value F)) with
      | none => rfl
      | some v =>
        dsimp only [Option.map_some, Option.bind_some]
        rw [if_pos hrest]
        rfl
    · rw [if_neg hrest]
      cases (doc.taken : Option (Value F)) with
      | none => rfl
      | some v =>
        dsimp only [Option.map_some, Option.bind_some]
        rw [if_neg hrest]
        rfl

theorem loads_eq_ok {text : PyStr} {v : Value F} : loads text = .ok v ↔
    ∃ doc, document text = some doc ∧ doc.all Document.accepted = true ∧ doc.value = v := by
  have hok : loads text = .ok v ↔ whenOk (loads text : Except Fault (Value F)) = some v := by
    cases (loads text : Except Fault (Value F)) with
    | ok w => simp
    | error fault => simp
  rw [hok, loads_eq, Option.bind_eq_some_iff]
  refine exists_congr fun doc => and_congr_right fun _ => ?_
  unfold Document.taken
  split_ifs with hall
  · simp [hall]
  · simp [hall]

end Json
