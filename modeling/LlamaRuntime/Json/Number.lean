/-
Number texts of JSON.

* `decimal` / `natOfDigits` — `str(n)` and `int(text)`, inverse to each other
  (`natOfDigits_decimal`);
* `scanNumber` — the scanner of the `json` module: an integer part, then a
  fraction and an exponent if they are there;
* `scanNumber_int`, `scanNumber_float` — it takes the whole of a written
  integer or float and stops at what follows.
-/
import Mathlib.Data.Nat.Digits.Lemmas
import LlamaRuntime.Python.Str

namespace Json

/-! ### Characters -/

abbrev minusSign : CodePoint := 0x2D
abbrev plusSign : CodePoint := 0x2B
abbrev point : CodePoint := 0x2E
abbrev zeroDigit : CodePoint := 0x30

def isDigit (c : CodePoint) : Bool := 0x30 ≤ c.val && c.val ≤ 0x39

def isExponentMark (c : CodePoint) : Bool := c = 0x45 || c = 0x65

def digitChar (d : ℕ) : CodePoint := ⟨0x30 + d % 10, by omega⟩

def digitValue (c : CodePoint) : ℕ := c.val - 0x30

theorem isDigit_digitChar (d : ℕ) : isDigit (digitChar d) = true := by
  have h : d % 10 < 10 := Nat.mod_lt _ (by omega)
  have hlow : 0x30 ≤ 0x30 + d % 10 := by omega
  have hhigh : 0x30 + d % 10 ≤ 0x39 := by omega
  exact Bool.and_eq_true_iff.mpr ⟨decide_eq_true hlow, decide_eq_true hhigh⟩

theorem digitValue_digitChar {d : ℕ} (h : d < 10) : digitValue (digitChar d) = d := by
  simp only [digitValue, digitChar, Nat.mod_eq_of_lt h]
  omega

/-! ### Integers -/

/-- `str(n)` -/
def decimal (n : ℕ) : PyStr :=
  if n = 0 then [zeroDigit] else (Nat.digits 10 n).reverse.map digitChar

/-- `int(text)` on a text of digits -/
def natOfDigits (text : PyStr) : ℕ := Nat.ofDigits 10 (text.reverse.map digitValue)

theorem natOfDigits_decimal (n : ℕ) : natOfDigits (decimal n) = n := by
  unfold natOfDigits decimal
  split_ifs with h
  · subst h
    decide
  · have hd : ((Nat.digits 10 n).reverse.map digitChar).reverse.map digitValue
        = Nat.digits 10 n := by
      rw [← List.map_reverse, List.reverse_reverse, List.map_map]
      refine (List.map_congr_left fun d hd => ?_).trans (List.map_id _)
      exact digitValue_digitChar (Nat.digits_lt_base (by omega) hd)
    rw [hd, Nat.ofDigits_digits]

theorem isDigit_of_mem_decimal {n : ℕ} {c : CodePoint} (h : c ∈ decimal n) :
    isDigit c = true := by
  unfold decimal at h
  split_ifs at h with hn
  · obtain rfl := List.mem_singleton.mp h
    decide
  · obtain ⟨d, -, rfl⟩ := List.mem_map.mp h
    exact isDigit_digitChar d

/-- An integer part: a single zero, or digits that do not start with one. -/
def IntegerPart (text : PyStr) : Prop :=
  text = [zeroDigit] ∨
    ∃ c rest, text = c :: rest ∧ isDigit c = true ∧ c ≠ zeroDigit ∧ ∀ d ∈ rest, isDigit d = true

theorem integerPart_decimal (n : ℕ) : IntegerPart (decimal n) := by
  by_cases hn : n = 0
  · exact .inl (by simp [decimal, hn])
  · have hne : Nat.digits 10 n ≠ [] := Nat.digits_ne_nil_iff_ne_zero.mpr hn
    obtain ⟨ds, d, hds⟩ := List.eq_nil_or_concat (Nat.digits 10 n) |>.resolve_left hne
    have hlast : d ≠ 0 := by
      have h := Nat.getLast_digit_ne_zero 10 hn
      simpa [hds] using h
    have hlt : d < 10 := Nat.digits_lt_base (by omega) (m := n) (by simp [hds])
    refine .inr ⟨digitChar d, ds.reverse.map digitChar, ?_, isDigit_digitChar d, ?_, ?_⟩
    · simp [decimal, hn, hds]
    · intro h
      have := congrArg digitValue h
      rw [digitValue_digitChar hlt] at this
      exact hlast this
    · intro c hc
      obtain ⟨d', -, rfl⟩ := List.mem_map.mp hc
      exact isDigit_digitChar d'

def intText : ℤ → PyStr
  | .ofNat n => decimal n
  | .negSucc n => minusSign :: decimal (n + 1)

/-- `int(text)`, where the text may have a sign -/
def intOfText : PyStr → ℤ
  | [] => 0
  | c :: rest => if c = minusSign then -(natOfDigits rest : ℤ) else natOfDigits (c :: rest)

/-- How many digits an integer has: what the interpreter's limit on conversions counts. -/
def digitCount (n : ℤ) : ℕ := (decimal n.natAbs).length

theorem IntegerPart.head {text : PyStr} (h : IntegerPart text) :
    ∃ c rest, text = c :: rest ∧ isDigit c = true := by
  rcases h with rfl | ⟨c, rest, rfl, hc, -⟩
  · exact ⟨zeroDigit, [], rfl, by decide⟩
  · exact ⟨c, rest, rfl, hc⟩

theorem ne_minusSign_of_isDigit {c : CodePoint} (h : isDigit c = true) : c ≠ minusSign := by
  rintro rfl
  exact absurd h (by decide)

theorem intOfText_intText (n : ℤ) : intOfText (intText n) = n := by
  cases n with
  | ofNat n =>
    obtain ⟨c, rest, hc, hd⟩ := (integerPart_decimal n).head
    have h := natOfDigits_decimal n
    rw [hc] at h
    simp only [intText, hc, intOfText, if_neg (ne_minusSign_of_isDigit hd), h]
    rfl
  | negSucc n =>
    simp only [intText, intOfText, if_pos, natOfDigits_decimal]
    omega

/-! ### The scanner -/

/-- The leading digits and what follows them. -/
def spanDigits : PyStr → PyStr × PyStr
  | [] => ([], [])
  | c :: rest =>
    if isDigit c then (c :: (spanDigits rest).1, (spanDigits rest).2) else ([], c :: rest)

/-- The integer part at the head of the text, without its sign. -/
def scanInteger : PyStr → Option (PyStr × PyStr)
  | [] => none
  | c :: rest =>
    if c = zeroDigit then some ([c], rest)
    else if isDigit c then some (c :: (spanDigits rest).1, (spanDigits rest).2)
    else none

/-- The fraction at the head of the text: empty unless a point and a digit are there. -/
def scanFraction : PyStr → PyStr × PyStr
  | c :: d :: rest =>
    if c = point && isDigit d then (c :: (spanDigits (d :: rest)).1, (spanDigits (d :: rest)).2)
    else ([], c :: d :: rest)
  | text => ([], text)

def scanSign : PyStr → PyStr × PyStr
  | [] => ([], [])
  | c :: rest => if c = plusSign || c = minusSign then ([c], rest) else ([], c :: rest)

/-- The exponent at the head of the text: empty unless its digits are there. -/
def scanExponent : PyStr → PyStr × PyStr
  | [] => ([], [])
  | c :: rest =>
    if isExponentMark c && (spanDigits (scanSign rest).2).1 ≠ [] then
      (c :: (scanSign rest).1 ++ (spanDigits (scanSign rest).2).1,
        (spanDigits (scanSign rest).2).2)
    else ([], c :: rest)

/-- What the scanner found: the text of the number, and whether it had a
fraction or an exponent. -/
structure NumberToken where
  text : PyStr
  isFloat : Bool

/-- A number without its sign. -/
def scanUnsigned (text : PyStr) : Option (NumberToken × PyStr) :=
  (scanInteger text).map fun (int, rest) =>
    let (fraction, rest) := scanFraction rest
    let (exponent, rest) := scanExponent rest
    (⟨int ++ fraction ++ exponent, fraction ≠ [] || exponent ≠ []⟩, rest)

/-- `_match_number`: the number at the head of the text and what follows it. -/
def scanNumber : PyStr → Option (NumberToken × PyStr)
  | [] => none
  | c :: rest =>
    if c = minusSign then
      (scanUnsigned rest).map fun (token, rest) => (⟨minusSign :: token.text, token.isFloat⟩, rest)
    else scanUnsigned (c :: rest)

/-- A text at which no number that ends before it could go on. -/
def EndsNumber (rest : PyStr) : Prop :=
  ∀ c ∈ rest.head?, isDigit c = false ∧ c ≠ point ∧ isExponentMark c = false

theorem endsNumber_nil : EndsNumber [] := by simp [EndsNumber]

theorem endsNumber_cons {c : CodePoint} {rest : PyStr} (hd : isDigit c = false)
    (hp : c ≠ point) (he : isExponentMark c = false) : EndsNumber (c :: rest) := by
  simp [EndsNumber, hd, hp, he]

/-- A text that does not start with a digit. -/
def EndsDigits (rest : PyStr) : Prop := ∀ c ∈ rest.head?, isDigit c = false

theorem EndsNumber.endsDigits {rest : PyStr} (h : EndsNumber rest) : EndsDigits rest :=
  fun c hc => (h c hc).1

theorem spanDigits_append {ds : PyStr} (hds : ∀ d ∈ ds, isDigit d = true) {rest : PyStr}
    (h : EndsDigits rest) : spanDigits (ds ++ rest) = (ds, rest) := by
  induction ds with
  | nil =>
    cases rest with
    | nil => rfl
    | cons c rest => simp [spanDigits, h c (by simp)]
  | cons d ds ih =>
    have hd := hds d (by simp)
    have ih := ih fun x hx => hds x (List.mem_cons_of_mem _ hx)
    simp only [List.cons_append, spanDigits, hd, if_pos, ih]

theorem scanInteger_append {int : PyStr} (hint : IntegerPart int) {rest : PyStr}
    (h : EndsDigits rest) : scanInteger (int ++ rest) = some (int, rest) := by
  rcases hint with rfl | ⟨c, ds, rfl, hc, hz, hds⟩
  · rfl
  · simp only [List.cons_append, scanInteger, if_neg hz, hc, if_pos, spanDigits_append hds h]

theorem scanFraction_nil {rest : PyStr} (h : EndsNumber rest) :
    scanFraction rest = ([], rest) := by
  match rest with
  | [] => rfl
  | [c] => rfl
  | c :: d :: rest =>
    have hc : c ≠ point := (h c (by simp)).2.1
    simp [scanFraction, hc]

theorem scanExponent_nil {rest : PyStr} (h : EndsNumber rest) :
    scanExponent rest = ([], rest) := by
  cases rest with
  | nil => rfl
  | cons c rest => simp [scanExponent, (h c (by simp)).2.2]

/-! ### Floats -/

/-- Digits, at least one. -/
def Digits (text : PyStr) : Prop := text ≠ [] ∧ ∀ d ∈ text, isDigit d = true

/-- A fraction, possibly empty. -/
def FractionPart (text : PyStr) : Prop := text = [] ∨ ∃ ds, Digits ds ∧ text = point :: ds

/-- An exponent, possibly empty. -/
def ExponentPart (text : PyStr) : Prop :=
  text = [] ∨ ∃ mark sign ds, isExponentMark mark = true ∧
    (sign = [] ∨ sign = [plusSign] ∨ sign = [minusSign]) ∧ Digits ds ∧ text = mark :: sign ++ ds

/-- The text of a float: a number with a fraction or an exponent. -/
structure FloatText where
  negative : Bool
  int : PyStr
  fraction : PyStr
  exponent : PyStr
  int_ok : IntegerPart int
  fraction_ok : FractionPart fraction
  exponent_ok : ExponentPart exponent
  some_part : fraction ≠ [] ∨ exponent ≠ []

def FloatText.text (t : FloatText) : PyStr :=
  (if t.negative then [minusSign] else []) ++ t.int ++ t.fraction ++ t.exponent

/-- `0.0` -/
def zeroText : FloatText where
  negative := false
  int := [zeroDigit]
  fraction := [point, zeroDigit]
  exponent := []
  int_ok := .inl rfl
  fraction_ok := .inr ⟨[zeroDigit], ⟨by simp, by simp [isDigit]⟩, rfl⟩
  exponent_ok := .inl rfl
  some_part := .inl (by simp)

theorem Digits.head {ds : PyStr} (h : Digits ds) : ∃ d rest, ds = d :: rest ∧ isDigit d = true := by
  obtain ⟨hne, hall⟩ := h
  cases ds with
  | nil => exact absurd rfl hne
  | cons d rest => exact ⟨d, rest, rfl, hall d (by simp)⟩

theorem scanFraction_append {fraction : PyStr} (hf : FractionPart fraction) (hne : fraction ≠ [])
    {rest : PyStr} (h : EndsDigits rest) : scanFraction (fraction ++ rest) = (fraction, rest) := by
  obtain ⟨ds, hds, rfl⟩ := hf.resolve_left hne
  obtain ⟨d, ds', rfl, hd⟩ := hds.head
  have hspan := spanDigits_append hds.2 h
  simp only [List.cons_append] at hspan
  simp [scanFraction, hd, hspan]

theorem scanSign_append {sign ds : PyStr}
    (hs : sign = [] ∨ sign = [plusSign] ∨ sign = [minusSign]) (hds : Digits ds) (rest : PyStr) :
    scanSign (sign ++ ds ++ rest) = (sign, ds ++ rest) := by
  obtain ⟨d, ds', rfl, hd⟩ := hds.head
  rcases hs with rfl | rfl | rfl
  · have hp : d ≠ plusSign := by
      rintro rfl
      exact absurd hd (by decide)
    simp [scanSign, hp, ne_minusSign_of_isDigit hd]
  · rfl
  · rfl

theorem scanExponent_append {exponent : PyStr} (he : ExponentPart exponent)
    (hne : exponent ≠ []) {rest : PyStr} (h : EndsDigits rest) :
    scanExponent (exponent ++ rest) = (exponent, rest) := by
  obtain ⟨mark, sign, ds, hm, hs, hds, rfl⟩ := he.resolve_left hne
  have hsign := scanSign_append hs hds rest
  have hspan := spanDigits_append hds.2 h
  simp only [List.append_assoc] at hsign
  simp [scanExponent, hm, hsign, hspan, hds.1]

theorem ExponentPart.endsDigits {exponent : PyStr} (he : ExponentPart exponent) {rest : PyStr}
    (h : EndsDigits rest) : EndsDigits (exponent ++ rest) := by
  rcases he with rfl | ⟨mark, sign, ds, hm, -, -, rfl⟩
  · exact h
  · intro c hc
    obtain rfl : mark = c := by simpa using hc
    simp only [isExponentMark, Bool.or_eq_true, decide_eq_true_eq] at hm
    rcases hm with rfl | rfl <;> decide

theorem FractionPart.endsDigits {fraction : PyStr} (hf : FractionPart fraction) {rest : PyStr}
    (h : EndsDigits rest) : EndsDigits (fraction ++ rest) := by
  rcases hf with rfl | ⟨ds, -, rfl⟩
  · exact h
  · intro c hc
    obtain rfl : point = c := by simpa using hc
    decide

theorem scanFraction_of_part {fraction exponent : PyStr} (hf : FractionPart fraction)
    (he : ExponentPart exponent) {rest : PyStr} (h : EndsNumber rest) :
    scanFraction (fraction ++ (exponent ++ rest)) = (fraction, exponent ++ rest) := by
  by_cases hne : fraction = []
  · subst hne
    rcases he with rfl | ⟨mark, sign, ds, hm, -, -, rfl⟩
    · exact scanFraction_nil h
    · -- an exponent mark is not a point
      have hp : mark ≠ point := by
        rintro rfl
        exact absurd hm (by decide)
      cases hr : sign ++ ds ++ rest with
      | nil => simp only [List.append_assoc] at hr; simp [hr, scanFraction]
      | cons c r => simp only [List.append_assoc] at hr; simp [hr, scanFraction, hp]
  · exact scanFraction_append hf hne (he.endsDigits h.endsDigits)

theorem scanExponent_of_part {exponent : PyStr} (he : ExponentPart exponent) {rest : PyStr}
    (h : EndsNumber rest) : scanExponent (exponent ++ rest) = (exponent, rest) := by
  by_cases hne : exponent = []
  · subst hne
    exact scanExponent_nil h
  · exact scanExponent_append he hne h.endsDigits

theorem scanUnsigned_append {int fraction exponent : PyStr} (hint : IntegerPart int)
    (hf : FractionPart fraction) (he : ExponentPart exponent) {rest : PyStr}
    (h : EndsNumber rest) :
    scanUnsigned (int ++ fraction ++ exponent ++ rest)
      = some (⟨int ++ fraction ++ exponent, fraction ≠ [] || exponent ≠ []⟩, rest) := by
  have hi := scanInteger_append hint (hf.endsDigits (he.endsDigits h.endsDigits))
  simp only [List.append_assoc] at hi ⊢
  simp only [scanUnsigned, hi, Option.map_some, scanFraction_of_part hf he h,
    scanExponent_of_part he h, List.append_assoc]

theorem scanNumber_minus (text : PyStr) :
    scanNumber (minusSign :: text) = (scanUnsigned text).map fun (token, rest) =>
      (⟨minusSign :: token.text, token.isFloat⟩, rest) := by
  rw [scanNumber, if_pos rfl]

theorem scanNumber_unsigned {int : PyStr} (hint : IntegerPart int) (rest : PyStr) :
    scanNumber (int ++ rest) = scanUnsigned (int ++ rest) := by
  obtain ⟨c, ds, rfl, hd⟩ := hint.head
  exact if_neg (ne_minusSign_of_isDigit hd)

/-- A written integer is scanned whole. -/
theorem scanNumber_int (n : ℤ) {rest : PyStr} (h : EndsNumber rest) :
    scanNumber (intText n ++ rest) = some (⟨intText n, false⟩, rest) := by
  have hdec (m : ℕ) : scanUnsigned (decimal m ++ rest) = some (⟨decimal m, false⟩, rest) := by
    simpa using scanUnsigned_append (integerPart_decimal m) (.inl rfl) (.inl rfl) h
  cases n with
  | ofNat n => exact (scanNumber_unsigned (integerPart_decimal n) rest).trans (hdec n)
  | negSucc n =>
    rw [intText, List.cons_append, scanNumber_minus, hdec]
    rfl

/-- A written float is scanned whole. -/
theorem scanNumber_float (t : FloatText) {rest : PyStr} (h : EndsNumber rest) :
    scanNumber (t.text ++ rest) = some (⟨t.text, true⟩, rest) := by
  have hscan := scanUnsigned_append t.int_ok t.fraction_ok t.exponent_ok h
  have hpart : (decide (t.fraction ≠ []) || decide (t.exponent ≠ [])) = true := by
    simpa using t.some_part
  rw [hpart] at hscan
  cases hneg : t.negative with
  | false =>
    have hs := scanNumber_unsigned t.int_ok (t.fraction ++ t.exponent ++ rest)
    simp only [← List.append_assoc] at hs
    simpa [FloatText.text, hneg] using hs.trans hscan
  | true =>
    simp only [FloatText.text, hneg, if_pos, List.cons_append, List.nil_append,
      scanNumber_minus, hscan, Option.map_some]

end Json
