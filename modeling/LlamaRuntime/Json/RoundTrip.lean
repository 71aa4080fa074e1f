/-
Reading back what was written.

* `scanString_quote` — a written string literal is read whole;
* `scanOnce_dumps` — a written value is read whole, as its normal form;
* `loads_dumps` — `json.loads(json.dumps(value))` is the normal form of the
  value, for every value that can be written;
* `dumps_inj` — the text determines the value up to its normal form.
-/
import LlamaRuntime.Json.Text

namespace Json

variable {F : Type} [Floats F]

namespace Value

/-- `dumps` is defined at the value itself: its number has a text, its keys are distinct. -/
def writable (v : Value F) : Bool := v.finiteNumber && v.shortNumber && v.distinctKeys

/-- `dumps` is defined everywhere in the value. -/
abbrev Writable (v : Value F) : Prop := v.all writable = true

omit [Floats F] in
theorem all_and (p q : Value F → Bool) (v : Value F) :
    v.all (fun w => p w && q w) = (v.all p && v.all q) := by
  have hlist {α : Type} {f g h : α → Bool} {l : List α} (hl : ∀ a ∈ l, f a = (g a && h a)) :
      l.all f = (l.all g && l.all h) := by
    rw [Bool.eq_iff_iff]
    simp only [List.all_eq_true, Bool.and_eq_true]
    constructor
    · intro hf
      exact ⟨fun a ha => (Bool.and_eq_true_iff.mp (hl a ha ▸ hf a ha)).1,
        fun a ha => (Bool.and_eq_true_iff.mp (hl a ha ▸ hf a ha)).2⟩
    · rintro ⟨hg, hh⟩ a ha
      rw [hl a ha, hg a ha, hh a ha]
      rfl
  induction v using Value.induction with
  | null | bool | int | float | str => simp only [all]
  | list items ih => simp only [all_list, hlist ih]; grind
  | tuple items ih => simp only [all_tuple, hlist ih]; grind
  | dict items ih => simp only [all_dict, hlist ih]; grind

theorem writable_iff {v : Value F} : v.Writable ↔
    v.all finiteNumber = true ∧ v.all shortNumber = true ∧ v.WellFormed := by
  have h : v.all writable = (v.all finiteNumber && v.all shortNumber && v.all distinctKeys) := by
    rw [show (writable : Value F → Bool)
      = fun w => (fun u => u.finiteNumber && u.shortNumber) w && w.distinctKeys from rfl,
      all_and, all_and]
  rw [Writable, h, Bool.and_eq_true, Bool.and_eq_true, and_assoc]

theorem Writable.of_list {items : List (Value F)} (h : (list items).Writable) :
    ∀ v ∈ items, v.Writable := by
  rw [Writable, all_list, Bool.and_eq_true] at h
  exact List.all_eq_true.mp h.2

theorem Writable.of_tuple {items : List (Value F)} (h : (tuple items).Writable) :
    ∀ v ∈ items, v.Writable := by
  rw [Writable, all_tuple, Bool.and_eq_true] at h
  exact List.all_eq_true.mp h.2

theorem Writable.of_dict {items : List (PyStr × Value F)} (h : (dict items).Writable) :
    ∀ f ∈ items, f.2.Writable := by
  rw [Writable, all_dict, Bool.and_eq_true] at h
  exact List.all_eq_true.mp h.2

theorem Writable.wellFormed {v : Value F} (h : v.Writable) : v.WellFormed := (writable_iff.mp h).2.2

end Value

/-! ### Strings -/

theorem joinSurrogates_cons {c : CodePoint} {escaped : Bool} (h : escaped = true → c.val < 0x20)
    (units : List (CodePoint × Bool)) :
    joinSurrogates ((c, escaped) :: units) = c :: joinSurrogates units := by
  match escaped, units with
  | false, _ => rw [joinSurrogates]; simp
  | true, [] => rfl
  | true, (d, false) :: rest => rw [joinSurrogates]; simp
  | true, (d, true) :: rest =>
    have hc : isHighSurrogate c = false := by
      have := h rfl
      simp only [isHighSurrogate, Bool.and_eq_false_iff, decide_eq_false_iff_not]
      omega
    rw [joinSurrogates, hc, Bool.false_and, if_neg Bool.false_ne_true]

theorem hexUnit_hexDigit : ∀ n < 32, ∀ h : n < 0x110000,
    hexUnit 0x30 0x30 (hexDigit (n / 16)) (hexDigit n) = some ⟨n, h⟩ := by decide

/-- The rest of a literal after one code unit. -/
def afterUnit (u : CodePoint) (escaped : Bool) (text : PyStr) :
    Option (List (CodePoint × Bool) × PyStr) :=
  (scanUnits text).map fun (units, rest) => ((u, escaped) :: units, rest)

theorem scanUnits_plain {c : CodePoint} (hq : c ≠ quoteMark) (hb : c ≠ backslash)
    (hctl : ¬ c.val < 0x20) (text : PyStr) : scanUnits (c :: text) = afterUnit c false text := by
  rw [scanUnits.eq_def]
  simp only [if_neg hq, if_neg hb, if_neg hctl]
  rfl

theorem scanUnits_short {e u : CodePoint} (he : e ≠ 0x75) (hs : shortEscape e = some u)
    (text : PyStr) : scanUnits (backslash :: e :: text) = afterUnit u false text := by
  have hq : backslash ≠ quoteMark := by decide
  rw [scanUnits.eq_def]
  simp only [if_neg hq, if_neg he, hs, Option.bind_some]
  rfl

theorem scanUnits_hex {h₁ h₂ h₃ h₄ u : CodePoint} (hu : hexUnit h₁ h₂ h₃ h₄ = some u)
    (text : PyStr) :
    scanUnits (backslash :: 0x75 :: h₁ :: h₂ :: h₃ :: h₄ :: text) = afterUnit u true text := by
  have hq : backslash ≠ quoteMark := by decide
  rw [scanUnits.eq_def]
  simp only [if_neg hq, hu, Option.bind_some]
  rfl

theorem scanUnits_quoteMark (text : PyStr) : scanUnits (quoteMark :: text) = some ([], text) := by
  rw [scanUnits.eq_def]
  rfl

/-- One written character is read as one code unit; only control characters
are written as `\u` escapes. -/
theorem scanUnits_escape (c : CodePoint) : ∃ escaped : Bool, (escaped = true → c.val < 0x20) ∧
    ∀ text, scanUnits (escape c ++ text) = afterUnit c escaped text := by
  have hshort {e u : CodePoint} (he : e ≠ 0x75) (hs : shortEscape e = some u) :
      ∃ escaped : Bool, (escaped = true → u.val < 0x20) ∧
        ∀ text, scanUnits ([backslash, e] ++ text) = afterUnit u escaped text :=
    ⟨false, by simp, scanUnits_short he hs⟩
  unfold escape
  split_ifs with hq hb hn hr ht hf hbs hctl
  · exact hshort (by decide) (by rw [hq]; decide)
  · exact hshort (by decide) (by rw [hb]; decide)
  · exact hshort (by decide) (by rw [hn]; decide)
  · exact hshort (by decide) (by rw [hr]; decide)
  · exact hshort (by decide) (by rw [ht]; decide)
  · exact hshort (by decide) (by rw [hf]; decide)
  · exact hshort (by decide) (by rw [hbs]; decide)
  · exact ⟨true, fun _ => hctl, scanUnits_hex (hexUnit_hexDigit c.val hctl c.isLt)⟩
  · exact ⟨false, by simp, scanUnits_plain hq hb hctl⟩

theorem scanString_body (s rest : PyStr) :
    ∃ units, scanUnits (s.flatMap escape ++ quoteMark :: rest) = some (units, rest) ∧
      joinSurrogates units = s := by
  induction s with
  | nil => exact ⟨[], scanUnits_quoteMark rest, rfl⟩
  | cons c s ih =>
    obtain ⟨units, hscan, hjoin⟩ := ih
    obtain ⟨escaped, hsmall, hc⟩ := scanUnits_escape c
    refine ⟨(c, escaped) :: units, ?_, ?_⟩
    · rw [List.flatMap_cons, List.append_assoc, hc, afterUnit, hscan]
      rfl
    · rw [joinSurrogates_cons hsmall, hjoin]

/-- A written string literal is read whole. -/
theorem scanString_quote (s rest : PyStr) :
    scanString (s.flatMap escape ++ quoteMark :: rest) = some (s, rest) := by
  obtain ⟨units, hscan, hjoin⟩ := scanString_body s rest
  rw [scanString, hscan, Option.map_some]
  exact congrArg (fun t => some (t, rest)) hjoin

/-! ### Values -/

/-- A character a written value can start with. -/
def StartsValue (c : CodePoint) : Prop := isBlank c = false ∧ c ≠ closeBracket ∧ c ≠ closeBrace

theorem startsValue_of_isDigit {c : CodePoint} (h : isDigit c = true) : StartsValue c := by
  refine ⟨?_, ?_, ?_⟩
  · by_contra hb
    simp only [isBlank, Bool.not_eq_false, Bool.or_eq_true, decide_eq_true_eq] at hb
    rcases hb with ((rfl | rfl) | rfl) | rfl <;> exact absurd h (by decide)
  · rintro rfl
    exact absurd h (by decide)
  · rintro rfl
    exact absurd h (by decide)

theorem intText_head (n : ℤ) : ∃ c rest, intText n = c :: rest ∧
    (isDigit c = true ∨ c = minusSign) := by
  cases n with
  | ofNat n =>
    obtain ⟨c, rest, h, hd⟩ := (integerPart_decimal n).head
    exact ⟨c, rest, h, .inl hd⟩
  | negSucc n => exact ⟨minusSign, decimal (n + 1), rfl, .inr rfl⟩

theorem FloatText.head (t : FloatText) : ∃ c rest, t.text = c :: rest ∧
    (isDigit c = true ∨ c = minusSign) := by
  cases hneg : t.negative with
  | false =>
    obtain ⟨c, rest, h, hd⟩ := t.int_ok.head
    exact ⟨c, rest ++ t.fraction ++ t.exponent, by simp [FloatText.text, hneg, h], .inl hd⟩
  | true => exact ⟨minusSign, _, by simp [FloatText.text, hneg]; rfl, .inr rfl⟩

theorem startsValue_minusSign : StartsValue minusSign := by
  refine ⟨?_, ?_, ?_⟩ <;> decide

theorem dumps_head (v : Value F) : ∃ c rest, dumps v = c :: rest ∧ StartsValue c := by
  have hnum {c : CodePoint} (h : isDigit c = true ∨ c = minusSign) : StartsValue c :=
    h.elim startsValue_of_isDigit fun h => h ▸ startsValue_minusSign
  cases v with
  | null => exact ⟨_, _, by rw [dumps]; rfl, by refine ⟨?_, ?_, ?_⟩ <;> decide⟩
  | bool b =>
    cases b with
    | false => exact ⟨_, _, by rw [dumps]; rfl, by refine ⟨?_, ?_, ?_⟩ <;> decide⟩
    | true => exact ⟨_, _, by rw [dumps]; rfl, by refine ⟨?_, ?_, ?_⟩ <;> decide⟩
  | int n =>
    obtain ⟨c, rest, h, hc⟩ := intText_head n
    exact ⟨c, rest, by rw [dumps, h], hnum hc⟩
  | float x =>
    obtain ⟨c, rest, h, hc⟩ := (Floats.repr x).head
    exact ⟨c, rest, by rw [dumps, h], hnum hc⟩
  | str s => exact ⟨_, _, by rw [dumps, quote]; rfl, by refine ⟨?_, ?_, ?_⟩ <;> decide⟩
  | list items => exact ⟨_, _, by rw [dumps]; rfl, by refine ⟨?_, ?_, ?_⟩ <;> decide⟩
  | tuple items => exact ⟨_, _, by rw [dumps]; rfl, by refine ⟨?_, ?_, ?_⟩ <;> decide⟩
  | dict items => exact ⟨_, _, by rw [dumps]; rfl, by refine ⟨?_, ?_, ?_⟩ <;> decide⟩

theorem skipBlanks_cons {c : CodePoint} (h : isBlank c = false) (rest : PyStr) :
    skipBlanks (c :: rest) = c :: rest := by
  rw [skipBlanks, List.dropWhile_cons, h, if_neg Bool.false_ne_true]

theorem skipBlanks_dumps (v : Value F) (rest : PyStr) :
    skipBlanks (dumps v ++ rest) = dumps v ++ rest := by
  obtain ⟨c, text, h, hc⟩ := dumps_head v
  rw [h, List.cons_append, skipBlanks_cons hc.1]

/-- What may follow a value inside a list or an object, or at the end. -/
def EndsValue (rest : PyStr) : Prop :=
  rest = [] ∨ ∃ c tail, rest = c :: tail ∧ (c = comma ∨ c = closeBracket ∨ c = closeBrace)

theorem EndsValue.endsNumber {rest : PyStr} (h : EndsValue rest) : EndsNumber rest := by
  rcases h with rfl | ⟨c, tail, rfl, rfl | rfl | rfl⟩
  · exact endsNumber_nil
  all_goals exact endsNumber_cons (by decide) (by decide) (by decide)

theorem scanOnce_word {fuel : ℕ} {c : CodePoint} (hq : c ≠ quoteMark) (hl : c ≠ openBracket)
    (ho : c ≠ openBrace) (rest : PyStr) :
    scanOnce (fuel + 1) (c :: rest) = (scanWord (c :: rest) : Except Fault (Value F × PyStr)) := by
  rw [scanOnce, if_neg hq, if_neg hl, if_neg ho]

/-- A number's text starts no constant. -/
theorem scanWord_number {c : CodePoint} {text : PyStr} (hc : isDigit c = true ∨ c = minusSign)
    (hinf : ¬ py "-Infinity" <+: c :: text) {token : NumberToken} {rest : PyStr}
    (hn : scanNumber (c :: text) = some (token, rest)) :
    scanWord (c :: text)
      = ((numberOfToken token).map fun v => (v, rest) : Except Fault (Value F × PyStr)) := by
  have hne {word : String} {w : CodePoint} {ws : PyStr} (hw : py word = w :: ws)
      (hd : isDigit w = false) (hm : w ≠ minusSign) : ¬ py word <+: c :: text := by
    rw [hw]
    intro hp
    obtain rfl := (List.cons_prefix_cons.mp hp).1
    rcases hc with hc | hc
    · exact absurd hc (by simp [hd])
    · exact hm hc
  have hnull : ¬ py "null" <+: c :: text := hne rfl (by decide) (by decide)
  have htrue : ¬ py "true" <+: c :: text := hne rfl (by decide) (by decide)
  have hfalse : ¬ py "false" <+: c :: text := hne rfl (by decide) (by decide)
  have hconst : ¬ (py "NaN" <+: c :: text ∨ py "Infinity" <+: c :: text
      ∨ py "-Infinity" <+: c :: text) := by
    rintro (h | h | h)
    · exact hne rfl (by decide) (by decide) h
    · exact hne rfl (by decide) (by decide) h
    · exact hinf h
  rw [scanWord, if_neg hnull, if_neg htrue, if_neg hfalse, if_neg hconst, hn]

theorem not_infinity_of_integerPart {int : PyStr} (h : IntegerPart int) (rest : PyStr) :
    ¬ py "-Infinity" <+: minusSign :: int ++ rest := by
  obtain ⟨d, ds, rfl, hd⟩ := h.head
  intro hp
  have hp' : py "Infinity" <+: d :: ds ++ rest := (List.cons_prefix_cons.mp hp).2
  obtain rfl := (List.cons_prefix_cons.mp hp').1
  exact absurd hd (by decide)

theorem scanOnce_number {fuel : ℕ} {c : CodePoint} {text : PyStr}
    (hc : isDigit c = true ∨ c = minusSign) (hinf : ¬ py "-Infinity" <+: c :: text)
    {token : NumberToken} {rest : PyStr} (hn : scanNumber (c :: text) = some (token, rest)) :
    scanOnce (fuel + 1) (c :: text)
      = ((numberOfToken token).map fun v => (v, rest) : Except Fault (Value F × PyStr)) := by
  have hne {d : CodePoint} (hd : isDigit d = false) (hm : d ≠ minusSign) : c ≠ d := by
    rintro rfl
    rcases hc with hc | hc
    · exact absurd hc (by simp [hd])
    · exact hm hc
  rw [scanOnce_word (hne (by decide) (by decide)) (hne (by decide) (by decide))
    (hne (by decide) (by decide)), scanWord_number hc hinf hn]

theorem scanOnce_int {n : ℤ} (hn : digitCount n ≤ Value.maxStrDigits) (fuel : ℕ) {rest : PyStr}
    (h : EndsNumber rest) :
    scanOnce (fuel + 1) (intText n ++ rest) = .ok ((.int n : Value F), rest) := by
  obtain ⟨c, text, hc, hd⟩ := intText_head n
  have hinf : ¬ py "-Infinity" <+: intText n ++ rest := by
    cases n with
    | ofNat n =>
      obtain ⟨d, ds, hds, hd⟩ := (integerPart_decimal n).head
      rw [intText, hds]
      intro hp
      obtain rfl := (List.cons_prefix_cons.mp hp).1
      exact absurd hd (by decide)
    | negSucc n => exact not_infinity_of_integerPart (integerPart_decimal _) rest
  have hscan := scanNumber_int n h
  rw [hc, List.cons_append] at hinf hscan ⊢
  rw [scanOnce_number hd hinf hscan, numberOfToken, ← hc]
  simp [intOfText_intText, hn, Except.map]

theorem scanOnce_float {x : F} (hx : Floats.isFinite x = true) (fuel : ℕ) {rest : PyStr}
    (h : EndsNumber rest) :
    scanOnce (fuel + 1) ((Floats.repr x).text ++ rest) = .ok (.float x, rest) := by
  obtain ⟨c, text, hc, hd⟩ := (Floats.repr x).head
  have hinf : ¬ py "-Infinity" <+: (Floats.repr x).text ++ rest := by
    have hint := (Floats.repr x).int_ok
    cases hneg : (Floats.repr x).negative with
    | false =>
      obtain ⟨d, ds, hds, hd⟩ := hint.head
      simp only [FloatText.text, hneg, hds, Bool.false_eq_true, if_false, List.nil_append]
      intro hp
      obtain rfl := (List.cons_prefix_cons.mp hp).1
      exact absurd hd (by decide)
    | true =>
      have := not_infinity_of_integerPart hint
        ((Floats.repr x).fraction ++ ((Floats.repr x).exponent ++ rest))
      simpa [FloatText.text, hneg] using this
  have hscan := scanNumber_float (Floats.repr x) h
  rw [hc, List.cons_append] at hinf hscan ⊢
  rw [scanOnce_number hd hinf hscan, numberOfToken, ← hc]
  simp [Floats.ofText_repr x hx, Except.map]

/-- Written values are read whole, as their normal forms. -/
def ReadsBack (v : Value F) : Prop :=
  ∀ fuel rest, 2 * (dumps v).length ≤ fuel → EndsValue rest →
    scanOnce fuel (dumps v ++ rest) = .ok (v.normal, rest)

theorem dumps_ne_nil (v : Value F) : dumps v ≠ [] := by
  obtain ⟨c, rest, h, -⟩ := dumps_head v
  simp [h]

theorem dumps_length_pos (v : Value F) : 0 < (dumps v).length :=
  List.length_pos_of_ne_nil (dumps_ne_nil v)

theorem commaJoin_cons_cons (part next : PyStr) (rest : List PyStr) :
    commaJoin (part :: next :: rest) = part ++ comma :: commaJoin (next :: rest) := rfl

theorem scanItems_dumps {items : List (Value F)} (hne : items ≠ [])
    (ih : ∀ v ∈ items, ReadsBack v) : ∀ fuel rest,
    2 * (commaJoin (items.map dumps)).length + 1 ≤ fuel →
    scanItems fuel (commaJoin (items.map dumps) ++ closeBracket :: rest)
      = .ok (items.map Value.normal, rest) := by
  induction items with
  | nil => exact absurd rfl hne
  | cons v items ihl =>
    intro fuel rest hfuel
    obtain ⟨fuel, rfl⟩ : ∃ n, fuel = n + 1 := ⟨fuel - 1, by omega⟩
    have hv := ih v List.mem_cons_self
    cases items with
    | nil =>
      simp only [List.map_cons, List.map_nil, commaJoin] at hfuel ⊢
      have hread := hv fuel (closeBracket :: rest) (by omega)
        (.inr ⟨_, _, rfl, .inr (.inl rfl)⟩)
      rw [scanItems, hread]
      rfl
    | cons w items =>
      simp only [List.map_cons, commaJoin_cons_cons, List.length_append,
        List.length_cons] at hfuel
      simp only [List.map_cons, commaJoin_cons_cons, List.append_assoc, List.cons_append]
      have hread := hv fuel (comma :: (commaJoin (dumps w :: items.map dumps)
        ++ closeBracket :: rest)) (by omega) (.inr ⟨_, _, rfl, .inl rfl⟩)
      have hrest := ihl (by simp) (fun u hu => ih u (List.mem_cons_of_mem _ hu)) fuel rest
        (by simp only [List.map_cons]; omega)
      have hskip : skipBlanks (commaJoin (dumps w :: items.map dumps) ++ closeBracket :: rest)
          = commaJoin (dumps w :: items.map dumps) ++ closeBracket :: rest := by
        cases items with
        | nil => exact skipBlanks_dumps w _
        | cons u items =>
          simp only [List.map_cons, commaJoin_cons_cons, List.append_assoc]
          exact skipBlanks_dumps w _
      simp only [List.map_cons] at hrest
      rw [scanItems, hread]
      simp only [Except.bind, skipBlanks_cons (show isBlank comma = false from by decide)]
      rw [if_neg (by decide), if_true, hskip, hrest]
      rfl

theorem quote_append (k text : PyStr) :
    quote k ++ text = quoteMark :: (k.flatMap escape ++ quoteMark :: text) := by
  simp [quote]

theorem scanFields_dumps {items : List (PyStr × Value F)} (hne : items ≠ [])
    (ih : ∀ f ∈ items, ReadsBack f.2) : ∀ fuel rest,
    2 * (commaJoin ((items.map fun f => (f.1, dumps f.2)).map fieldText)).length + 1 ≤ fuel →
    scanFields fuel (commaJoin ((items.map fun f => (f.1, dumps f.2)).map fieldText)
        ++ closeBrace :: rest)
      = .ok (items.map fun f => (f.1, f.2.normal), rest) := by
  induction items with
  | nil => exact absurd rfl hne
  | cons f items ihl =>
    intro fuel rest hfuel
    obtain ⟨fuel, rfl⟩ : ∃ n, fuel = n + 1 := ⟨fuel - 1, by omega⟩
    obtain ⟨k, v⟩ := f
    have hv : ReadsBack v := ih (k, v) List.mem_cons_self
    have hcolon : isBlank colon = false := by decide
    have hlen (text : PyStr) : (fieldText (k, text)).length
        = 3 + (k.flatMap escape).length + text.length := by
      simp [fieldText, quote]
      omega
    cases items with
    | nil =>
      simp only [List.map_cons, List.map_nil, commaJoin, hlen] at hfuel ⊢
      have hread := hv fuel (closeBrace :: rest) (by omega) (.inr ⟨_, _, rfl, .inr (.inr rfl)⟩)
      simp only [fieldText, List.append_assoc, quote_append, List.cons_append]
      rw [scanFields, if_pos rfl, scanString_quote]
      simp only [skipBlanks_cons hcolon, if_true, skipBlanks_dumps, hread]
      rfl
    | cons g items =>
      simp only [List.map_cons, commaJoin_cons_cons, List.length_append,
        List.length_cons, hlen] at hfuel
      have hrest := ihl (by simp) (fun u hu => ih u (List.mem_cons_of_mem _ hu)) fuel rest
        (by simp only [List.map_cons]; omega)
      simp only [List.map_cons] at hrest ⊢
      simp only [commaJoin_cons_cons, List.append_assoc, List.cons_append]
      generalize htail : commaJoin (fieldText (g.1, dumps g.2)
        :: (items.map fun f => (f.1, dumps f.2)).map fieldText) ++ closeBrace :: rest = tail
        at hrest ⊢
      have hread := hv fuel (comma :: tail) (by omega) (.inr ⟨_, _, rfl, .inl rfl⟩)
      have hskip : skipBlanks tail = tail := by
        obtain ⟨t, ht⟩ : ∃ t, tail = quoteMark :: t := by
          rw [← htail]
          cases items <;> exact ⟨_, rfl⟩
        rw [ht, skipBlanks_cons (by decide)]
      simp only [fieldText, List.append_assoc, quote_append, List.cons_append]
      rw [scanFields, if_pos rfl, scanString_quote]
      simp only [skipBlanks_cons hcolon, if_true, skipBlanks_dumps, hread]
      simp only [Except.bind, skipBlanks_cons (show isBlank comma = false from by decide)]
      rw [if_neg (by decide), if_true, hskip, hrest]
      rfl

theorem scanOnce_cons_word {word : String} {c : CodePoint} {cs : PyStr} (hw : py word = c :: cs)
    (hq : c ≠ quoteMark) (hl : c ≠ openBracket) (ho : c ≠ openBrace) (fuel : ℕ) (rest : PyStr) :
    scanOnce (fuel + 1) (py word ++ rest)
      = (scanWord (py word ++ rest) : Except Fault (Value F × PyStr)) := by
  rw [hw]
  exact scanOnce_word hq hl ho _

theorem scanOnce_quote (fuel : ℕ) (s rest : PyStr) :
    scanOnce (fuel + 1) (quote s ++ rest) = .ok ((.str s : Value F), rest) := by
  rw [quote_append, scanOnce, if_pos rfl, scanString_quote]

theorem scanOnce_list {items : List (Value F)} (ih : ∀ v ∈ items, ReadsBack v) (fuel : ℕ)
    (rest : PyStr) (hfuel : 2 * (commaJoin (items.map dumps)).length + 1 ≤ fuel) :
    scanOnce (fuel + 1) (openBracket :: commaJoin (items.map dumps) ++ closeBracket :: rest)
      = .ok (.list (items.map Value.normal), rest) := by
  have hq : openBracket ≠ quoteMark := by decide
  rw [List.cons_append, scanOnce, if_neg hq, if_pos rfl]
  by_cases hne : items = []
  · subst hne
    rfl
  · have hitems := scanItems_dumps hne ih fuel rest hfuel
    obtain ⟨c, text, htext, hc⟩ : ∃ c text, commaJoin (items.map dumps) = c :: text ∧
        StartsValue c := by
      match items with
      | [v] => exact dumps_head v
      | v :: w :: items =>
        obtain ⟨c, text, hv, hc⟩ := dumps_head v
        refine ⟨c, text ++ comma :: commaJoin (dumps w :: items.map dumps), ?_, hc⟩
        rw [List.map_cons, List.map_cons, commaJoin_cons_cons, hv, List.cons_append]
    rw [htext, List.cons_append] at hitems ⊢
    simp only [skipBlanks_cons hc.1, if_neg hc.2.1, hitems]
    rfl

theorem scanOnce_dict {items : List (PyStr × Value F)} (ih : ∀ f ∈ items, ReadsBack f.2)
    (hnd : (items.map Prod.fst).Nodup) (fuel : ℕ) (rest : PyStr)
    (hfuel : 2 * (commaJoin ((items.map fun f => (f.1, dumps f.2)).map fieldText)).length + 1
      ≤ fuel) :
    scanOnce (fuel + 1) (openBrace ::
        commaJoin ((items.map fun f => (f.1, dumps f.2)).map fieldText) ++ closeBrace :: rest)
      = .ok (.dict (items.map fun f => (f.1, f.2.normal)), rest) := by
  have hq : openBrace ≠ quoteMark := by decide
  have hl : openBrace ≠ openBracket := by decide
  rw [List.cons_append, scanOnce, if_neg hq, if_neg hl, if_pos rfl]
  by_cases hne : items = []
  · subst hne
    rfl
  · have hfields := scanFields_dumps hne ih fuel rest hfuel
    obtain ⟨text, htext⟩ : ∃ text,
        commaJoin ((items.map fun f => (f.1, dumps f.2)).map fieldText) = quoteMark :: text := by
      match items with
      | [f] => exact ⟨_, rfl⟩
      | f :: g :: items => exact ⟨_, rfl⟩
    have hb : isBlank quoteMark = false := by decide
    have hc : quoteMark ≠ closeBrace := by decide
    have hkeys : (items.map fun f => (f.1, f.2.normal)).map Prod.fst = items.map Prod.fst := by
      simp
    rw [htext, List.cons_append] at hfields ⊢
    simp only [skipBlanks_cons hb, if_neg hc, hfields, Except.bind, objectOfPairs, hkeys, hnd]
    rfl

/-- Some fuel is there to start with, since no value is written as nothing. -/
theorem readsBack_of_succ {v : Value F} (h : ∀ fuel rest, 2 * (dumps v).length ≤ fuel + 1 →
      EndsValue rest → scanOnce (fuel + 1) (dumps v ++ rest) = .ok (v.normal, rest)) :
    ReadsBack v := by
  intro fuel rest hfuel hrest
  have hpos := dumps_length_pos v
  obtain ⟨n, rfl⟩ : ∃ n, fuel = n + 1 := ⟨fuel - 1, by omega⟩
  exact h n rest hfuel hrest

/-- **A written value is read whole**, as its normal form. -/
theorem scanOnce_dumps {v : Value F} (h : v.Writable) : ReadsBack v := by
  have hword {word : String} {c : CodePoint} {cs : PyStr} (hw : py word = c :: cs)
      (hq : c ≠ quoteMark) (hl : c ≠ openBracket) (ho : c ≠ openBrace) (fuel : ℕ) (rest : PyStr) :
      scanOnce (fuel + 1) (py word ++ rest)
        = (scanWord (py word ++ rest) : Except Fault (Value F × PyStr)) := by
    rw [hw]
    exact scanOnce_word hq hl ho _
  induction v using Value.induction with
  | null =>
    refine readsBack_of_succ fun fuel rest _ _ => ?_
    rw [dumps, hword rfl (by decide) (by decide) (by decide)]
    simp [scanWord, py]
  | bool b =>
    refine readsBack_of_succ fun fuel rest _ _ => ?_
    cases b with
    | false =>
      rw [dumps, hword rfl (by decide) (by decide) (by decide)]
      rfl
    | true =>
      rw [dumps, hword rfl (by decide) (by decide) (by decide)]
      rfl
  | int n =>
    refine readsBack_of_succ fun fuel rest _ hrest => ?_
    have hn : digitCount n ≤ Value.maxStrDigits := by
      simpa [Value.Writable, Value.all, Value.writable, Value.finiteNumber, Value.shortNumber,
        Value.distinctKeys] using h
    rw [dumps, Value.normal_int]
    exact scanOnce_int hn fuel hrest.endsNumber
  | float x =>
    refine readsBack_of_succ fun fuel rest _ hrest => ?_
    have hx : Floats.isFinite x = true := by
      simpa [Value.Writable, Value.all, Value.writable, Value.finiteNumber, Value.shortNumber,
        Value.distinctKeys] using h
    rw [dumps, Value.normal_float]
    exact scanOnce_float hx fuel hrest.endsNumber
  | str s =>
    refine readsBack_of_succ fun fuel rest _ _ => ?_
    rw [dumps, Value.normal_str]
    exact scanOnce_quote fuel s rest
  | list items ih =>
    refine readsBack_of_succ fun fuel rest hfuel _ => ?_
    rw [dumps_list] at hfuel ⊢
    simp only [List.length_append, List.length_cons, List.length_nil] at hfuel
    rw [Value.normal_list, List.append_assoc]
    exact scanOnce_list (fun v hv => ih v hv (h.of_list v hv)) fuel rest (by omega)
  | tuple items ih =>
    refine readsBack_of_succ fun fuel rest hfuel _ => ?_
    rw [dumps_tuple] at hfuel ⊢
    simp only [List.length_append, List.length_cons, List.length_nil] at hfuel
    rw [Value.normal_tuple, List.append_assoc]
    exact scanOnce_list (fun v hv => ih v hv (h.of_tuple v hv)) fuel rest (by omega)
  | dict items ih =>
    refine readsBack_of_succ fun fuel rest hfuel _ => ?_
    rw [dumps_dict, ← map_sortKeys] at hfuel ⊢
    simp only [List.length_append, List.length_cons, List.length_nil] at hfuel
    have hnd : ((sortKeys items).map Prod.fst).Nodup :=
      ((perm_sortKeys items).map _).nodup_iff.mpr h.wellFormed.nodup
    have hread (f : PyStr × Value F) (hf : f ∈ sortKeys items) : ReadsBack f.2 :=
      ih f (mem_sortKeys.mp hf) (h.of_dict f (mem_sortKeys.mp hf))
    rw [Value.normal_dict, ← map_sortKeys, List.append_assoc]
    exact scanOnce_dict hread hnd fuel rest (by omega)

/-- **Reading what was written gives the value back**, in normal form. -/
theorem loads_dumps {v : Value F} (h : v.Writable) : loads (dumps v) = .ok v.normal := by
  have hread := scanOnce_dumps h (2 * (dumps v).length) [] le_rfl (.inl rfl)
  have hskip := skipBlanks_dumps v []
  rw [List.append_nil] at hread hskip
  rw [loads, hskip, hread]
  rfl

/-- The text tells two values apart, up to their normal forms. -/
theorem dumps_inj {v w : Value F} (hv : v.Writable) (hw : w.Writable) :
    dumps v = dumps w ↔ v.normal = w.normal := by
  constructor
  · intro h
    have := loads_dumps hv
    rw [h, loads_dumps hw] at this
    exact (Except.ok.inj this).symm
  · intro h
    rw [← dumps_normal v, h, dumps_normal]

/-! ### What the reader gives -/

theorem except_bind_ok {ε α β : Type} {x : Except ε α} {f : α → Except ε β} {b : β} :
    x.bind f = .ok b ↔ ∃ a, x = .ok a ∧ f a = .ok b := by
  cases x with
  | error e => exact ⟨fun h => (nomatch h), fun ⟨_, h, _⟩ => (nomatch h)⟩
  | ok a => exact ⟨fun h => ⟨a, rfl, h⟩, fun ⟨_, h, hf⟩ => Except.ok.inj h ▸ hf⟩

theorem except_map_ok {ε α β : Type} {x : Except ε α} {f : α → β} {b : β} :
    x.map f = .ok b ↔ ∃ a, x = .ok a ∧ f a = b := by
  cases x with
  | error e => exact ⟨fun h => (nomatch h), fun ⟨_, h, _⟩ => (nomatch h)⟩
  | ok a => exact ⟨fun h => ⟨a, rfl, Except.ok.inj h⟩,
      fun ⟨_, h, hf⟩ => congrArg Except.ok (Except.ok.inj h ▸ hf)⟩

omit [Floats F] in
theorem wellFormed_list {items : List (Value F)} (h : ∀ v ∈ items, v.WellFormed) :
    (Value.list items).WellFormed := by
  rw [Value.WellFormed, Value.all_list, Bool.and_eq_true]
  exact ⟨rfl, List.all_eq_true.mpr h⟩

omit [Floats F] in
theorem objectOfPairs_wellFormed {items : List (PyStr × Value F)} {v : Value F}
    (h : objectOfPairs items = .ok v) (hall : ∀ f ∈ items, f.2.WellFormed) : v.WellFormed := by
  unfold objectOfPairs at h
  split_ifs at h with hnd
  obtain rfl := Except.ok.inj h
  rw [Value.WellFormed, Value.all_dict, Bool.and_eq_true]
  exact ⟨decide_eq_true hnd, List.all_eq_true.mpr hall⟩

theorem scanWord_wellFormed {text rest : PyStr} {v : Value F}
    (h : scanWord text = .ok (v, rest)) : v.WellFormed := by
  unfold scanWord at h
  split_ifs at h
  · obtain ⟨rfl, -⟩ := Prod.mk.inj (Except.ok.inj h)
    rfl
  · obtain ⟨rfl, -⟩ := Prod.mk.inj (Except.ok.inj h)
    rfl
  · obtain ⟨rfl, -⟩ := Prod.mk.inj (Except.ok.inj h)
    rfl
  · split at h
    · obtain ⟨w, hw, heq⟩ := except_map_ok.mp h
      obtain ⟨rfl, -⟩ := Prod.mk.inj heq
      unfold numberOfToken at hw
      split_ifs at hw <;> obtain rfl := Except.ok.inj hw <;> rfl
    · exact absurd h (by simp)

/-- What is scanned has distinct keys everywhere: the induction is on the fuel. -/
theorem scan_wellFormed (fuel : ℕ) :
    (∀ text (v : Value F) rest, scanOnce fuel text = .ok (v, rest) → v.WellFormed) ∧
    (∀ text (items : List (Value F)) rest, scanItems fuel text = .ok (items, rest) →
      ∀ v ∈ items, v.WellFormed) ∧
    (∀ text (items : List (PyStr × Value F)) rest, scanFields fuel text = .ok (items, rest) →
      ∀ f ∈ items, f.2.WellFormed) := by
  induction fuel with
  | zero =>
    refine ⟨?_, ?_, ?_⟩
    · intro text v rest h
      exact absurd h (by simp [scanOnce])
    · intro text items rest h
      exact absurd h (by simp [scanItems])
    · intro text items rest h
      exact absurd h (by simp [scanFields])
  | succ fuel ih =>
    obtain ⟨ihOnce, ihItems, ihFields⟩ := ih
    refine ⟨?_, ?_, ?_⟩
    · intro text v rest h
      match text with
      | [] => exact absurd h (by simp [scanOnce])
      | c :: text =>
        rw [scanOnce] at h
        split_ifs at h
        · split at h
          · obtain ⟨rfl, -⟩ := Prod.mk.inj (Except.ok.inj h)
            rfl
          · exact absurd h (by simp)
        · split at h
          · exact absurd h (by simp)
          · split_ifs at h
            · obtain ⟨rfl, -⟩ := Prod.mk.inj (Except.ok.inj h)
              rfl
            · obtain ⟨⟨items, tail⟩, hitems, heq⟩ := except_map_ok.mp h
              obtain ⟨rfl, -⟩ := Prod.mk.inj heq
              exact wellFormed_list (ihItems _ _ _ hitems)
        · split at h
          · exact absurd h (by simp)
          · split_ifs at h
            · obtain ⟨rfl, -⟩ := Prod.mk.inj (Except.ok.inj h)
              rfl
            · obtain ⟨⟨items, tail⟩, hitems, h⟩ := except_bind_ok.mp h
              obtain ⟨w, hw, heq⟩ := except_map_ok.mp h
              obtain ⟨rfl, -⟩ := Prod.mk.inj heq
              exact objectOfPairs_wellFormed hw (ihFields _ _ _ hitems)
        · exact scanWord_wellFormed h
    · intro text items rest h
      rw [scanItems] at h
      obtain ⟨⟨v, tail⟩, hv, h⟩ := except_bind_ok.mp h
      have hwf := ihOnce _ _ _ hv
      dsimp only at h
      split at h
      · exact absurd h (by simp)
      · split_ifs at h
        · obtain ⟨rfl, -⟩ := Prod.mk.inj (Except.ok.inj h)
          simpa using hwf
        · obtain ⟨⟨items', tail'⟩, hitems, heq⟩ := except_map_ok.mp h
          obtain ⟨rfl, -⟩ := Prod.mk.inj heq
          exact List.forall_mem_cons.mpr ⟨hwf, ihItems _ _ _ hitems⟩
    · intro text items rest h
      match text with
      | [] => exact absurd h (by simp [scanFields])
      | c :: text =>
        rw [scanFields] at h
        split_ifs at h
        split at h
        · exact absurd h (by simp)
        · split at h
          · exact absurd h (by simp)
          · split_ifs at h
            obtain ⟨⟨v, tail⟩, hv, h⟩ := except_bind_ok.mp h
            have hwf := ihOnce _ _ _ hv
            dsimp only at h
            split at h
            · exact absurd h (by simp)
            · split_ifs at h
              · obtain ⟨rfl, -⟩ := Prod.mk.inj (Except.ok.inj h)
                simpa using hwf
              · obtain ⟨⟨items', tail'⟩, hitems, heq⟩ := except_map_ok.mp h
                obtain ⟨rfl, -⟩ := Prod.mk.inj heq
                exact List.forall_mem_cons.mpr ⟨hwf, ihFields _ _ _ hitems⟩

/-- A value that was read has distinct keys everywhere. -/
theorem loads_wellFormed {text : PyStr} {v : Value F} (h : loads text = .ok v) : v.WellFormed := by
  obtain ⟨⟨w, rest⟩, hw, h⟩ := except_bind_ok.mp h
  dsimp only at h
  split_ifs at h
  obtain rfl := Except.ok.inj h
  exact (scan_wellFormed _).1 _ _ _ hw

end Json
