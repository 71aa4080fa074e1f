/-
Values whose text can be written and encoded.

* `Clean` — texts without surrogates, which is what `str.encode` asks for;
* `Value.Tidy` — values of clean texts, short numbers and distinct keys;
* `Value.tidy_iff` — these are the values that have a text with an encoding.
-/
import LlamaRuntime.Json.RoundTrip

/-- The text has an encoding in UTF-8. -/
def Clean (text : PyStr) : Prop := ∀ c ∈ text, ¬ c.IsSurrogate

instance (text : PyStr) : Decidable (Clean text) :=
  List.decidableBAll (fun c : CodePoint => ¬ c.IsSurrogate) text

theorem encodeUtf8_of_clean {text : PyStr} (h : Clean text) :
    encodeUtf8 text = some (text.flatMap CodePoint.utf8Bytes) := encodeUtf8_eq_some.mpr ⟨h, rfl⟩

theorem clean_of_encodeUtf8 {text : PyStr} {bytes : List UInt8}
    (h : encodeUtf8 text = some bytes) : Clean text := (encodeUtf8_eq_some.mp h).1

namespace Clean

theorem append {a b : PyStr} (ha : Clean a) (hb : Clean b) : Clean (a ++ b) := by
  intro c hc
  rcases List.mem_append.mp hc with hc | hc
  · exact ha c hc
  · exact hb c hc

theorem cons {c : CodePoint} {a : PyStr} (hc : ¬ c.IsSurrogate) (ha : Clean a) :
    Clean (c :: a) := by
  intro d hd
  rcases List.mem_cons.mp hd with rfl | hd
  · exact hc
  · exact ha d hd

/-- A character of the first part of the code is no surrogate. -/
theorem not_isSurrogate {c : CodePoint} (h : c.val < 0xD800) : ¬ c.IsSurrogate := by
  rintro ⟨hlow, -⟩
  omega

theorem of_small {text : PyStr} (h : ∀ c ∈ text, c.val < 0xD800) : Clean text :=
  fun c hc => not_isSurrogate (h c hc)

end Clean

namespace Json

variable {F : Type} [Floats F]

/-! ### Texts of values -/

theorem clean_escape {c : CodePoint} (h : ¬ c.IsSurrogate) : Clean (escape c) := by
  have hhex : ∀ d : ℕ, ¬ (hexDigit d).IsSurrogate := by
    intro d
    unfold hexDigit
    split_ifs
    · exact Clean.not_isSurrogate (show 0x30 + d % 16 < 0xD800 by omega)
    · exact Clean.not_isSurrogate (show 0x57 + d % 16 < 0xD800 by omega)
  unfold escape
  split_ifs
  · decide
  · decide
  · decide
  · decide
  · decide
  · decide
  · decide
  · have hlead : Clean [backslash, (0x75 : CodePoint), 0x30, 0x30] := by decide
    exact hlead.append (.cons (hhex _) (.cons (hhex _) fun _ hd => absurd hd List.not_mem_nil))
  · intro d hd
    rwa [List.mem_singleton.mp hd]

theorem clean_quote {s : PyStr} (h : Clean s) : Clean (quote s) := by
  have hbody : Clean (s.flatMap escape) := by
    intro c hc
    obtain ⟨d, hd, hc⟩ := List.mem_flatMap.mp hc
    exact clean_escape (h d hd) c hc
  exact (Clean.cons (by decide) hbody).append (by decide)

theorem clean_commaJoin {parts : List PyStr} (h : ∀ part ∈ parts, Clean part) :
    Clean (commaJoin parts) := by
  induction parts with
  | nil => exact fun c hc => absurd hc List.not_mem_nil
  | cons part rest ih =>
    obtain ⟨hpart, hrest⟩ := List.forall_mem_cons.mp h
    cases rest with
    | nil => exact hpart
    | cons next rest => exact hpart.append (.cons (by decide) (ih hrest))

theorem clean_digits {text : PyStr} (h : ∀ c ∈ text, isDigit c = true) : Clean text := by
  refine Clean.of_small fun c hc => ?_
  have hdigit := h c hc
  rw [isDigit, Bool.and_eq_true, decide_eq_true_eq, decide_eq_true_eq] at hdigit
  omega

theorem clean_intText (n : ℤ) : Clean (intText n) := by
  have hdecimal : ∀ n : ℕ, Clean (decimal n) :=
    fun n => clean_digits fun c hc => isDigit_of_mem_decimal hc
  cases n with
  | ofNat n => exact hdecimal n
  | negSucc n => exact .cons (by decide) (hdecimal _)

theorem clean_floatText (t : FloatText) : Clean t.text := by
  have hint : Clean t.int := by
    rcases t.int_ok with h | ⟨c, rest, h, hc, -, hrest⟩
    · rw [h]
      decide
    · rw [h]
      exact clean_digits (List.forall_mem_cons.mpr ⟨hc, hrest⟩)
  have hfraction : Clean t.fraction := by
    rcases t.fraction_ok with h | ⟨ds, hds, h⟩
    · rw [h]
      decide
    · rw [h]
      exact .cons (by decide) (clean_digits hds.2)
  have hexponent : Clean t.exponent := by
    rcases t.exponent_ok with h | ⟨mark, sign, ds, hmark, hsign, hds, h⟩
    · rw [h]
      decide
    · have hmark' : ¬ mark.IsSurrogate := by
        rw [isExponentMark, Bool.or_eq_true, decide_eq_true_eq, decide_eq_true_eq] at hmark
        rcases hmark with rfl | rfl <;> decide
      have hsign' : Clean sign := by rcases hsign with rfl | rfl | rfl <;> decide
      rw [h]
      exact .cons hmark' (hsign'.append (clean_digits hds.2))
  have hsign : Clean (if t.negative then [minusSign] else []) := by split_ifs <;> decide
  exact ((hsign.append hint).append hfraction).append hexponent

namespace Value

/-- The check of a tidy value at the value itself. -/
def tidy : Value F → Bool
  | null => true
  | bool _ => true
  | int n => digitCount n ≤ maxStrDigits
  | float x => Floats.isFinite x
  | str s => decide (Clean s)
  | list _ => true
  | tuple _ => true
  | dict items => decide (items.map Prod.fst).Nodup && items.all fun f => decide (Clean f.1)

/-- Clean texts, short integers, finite floats and distinct keys, everywhere in the value. -/
abbrev Tidy (v : Value F) : Prop := v.all tidy = true

omit [Floats F] in
theorem all_mono {p q : Value F → Bool} (hpq : ∀ v, p v = true → q v = true) {v : Value F}
    (h : v.all p = true) : v.all q = true := by
  induction v using induction with
  | null | bool | int | float | str => exact hpq _ h
  | list items ih =>
    rw [all_list, Bool.and_eq_true] at h ⊢
    exact ⟨hpq _ h.1, List.all_eq_true.mpr fun v hv => ih v hv (List.all_eq_true.mp h.2 v hv)⟩
  | tuple items ih =>
    rw [all_tuple, Bool.and_eq_true] at h ⊢
    exact ⟨hpq _ h.1, List.all_eq_true.mpr fun v hv => ih v hv (List.all_eq_true.mp h.2 v hv)⟩
  | dict items ih =>
    rw [all_dict, Bool.and_eq_true] at h ⊢
    exact ⟨hpq _ h.1, List.all_eq_true.mpr fun f hf => ih f hf (List.all_eq_true.mp h.2 f hf)⟩

theorem Tidy.writable {v : Value F} (h : v.Tidy) : v.Writable := by
  refine all_mono (fun v hv => ?_) h
  cases v with
  | float x => simpa [Value.writable, finiteNumber, shortNumber, distinctKeys, tidy] using hv
  | int n => simpa [Value.writable, finiteNumber, shortNumber, distinctKeys, tidy] using hv
  | dict items =>
    have hnodup := (Bool.and_eq_true_iff.mp hv).1
    simpa [Value.writable, finiteNumber, shortNumber, distinctKeys] using hnodup
  | _ => rfl

/-- **The text of a tidy value has an encoding.** -/
theorem Tidy.clean_dumps {v : Value F} (h : v.Tidy) : Clean (dumps v) := by
  induction v using induction with
  | null => exact (by decide : Clean (py "null"))
  | bool b => cases b <;> (rw [dumps]; decide)
  | int n =>
    rw [dumps]
    exact clean_intText n
  | float x =>
    rw [dumps]
    exact clean_floatText _
  | str s =>
    rw [dumps]
    exact clean_quote (of_decide_eq_true h)
  | list items ih =>
    rw [Tidy, all_list, Bool.and_eq_true] at h
    rw [dumps_list]
    refine (Clean.cons (by decide) (clean_commaJoin fun part hpart => ?_)).append (by decide)
    obtain ⟨v, hv, rfl⟩ := List.mem_map.mp hpart
    exact ih v hv (List.all_eq_true.mp h.2 v hv)
  | tuple items ih =>
    rw [Tidy, all_tuple, Bool.and_eq_true] at h
    rw [dumps_tuple]
    refine (Clean.cons (by decide) (clean_commaJoin fun part hpart => ?_)).append (by decide)
    obtain ⟨v, hv, rfl⟩ := List.mem_map.mp hpart
    exact ih v hv (List.all_eq_true.mp h.2 v hv)
  | dict items ih =>
    rw [Tidy, all_dict, Bool.and_eq_true] at h
    have hkeys := (Bool.and_eq_true_iff.mp h.1).2
    rw [dumps_dict]
    refine (Clean.cons (by decide) (clean_commaJoin fun part hpart => ?_)).append (by decide)
    obtain ⟨g, hg, rfl⟩ := List.mem_map.mp hpart
    obtain ⟨f, hf, rfl⟩ := List.mem_map.mp (mem_sortKeys.mp hg)
    have hkey : Clean f.1 := of_decide_eq_true (List.all_eq_true.mp hkeys f hf)
    exact (clean_quote hkey).append (.cons (by decide) (ih f hf (List.all_eq_true.mp h.2 f hf)))

theorem Clean.of_commaJoin {parts : List PyStr} (h : Clean (commaJoin parts)) :
    ∀ part ∈ parts, Clean part :=
  fun _ hpart c hc => h c (mem_commaJoin hc hpart)

theorem Clean.of_quote {s : PyStr} (h : Clean (quote s)) : Clean s :=
  fun c hc hsurrogate => h c (mem_quote_of_isSurrogate hc hsurrogate) hsurrogate

theorem Clean.of_bracketed {a b : CodePoint} {text : PyStr} (h : Clean (a :: text ++ [b])) :
    Clean text :=
  fun c hc => h c (List.mem_append_left _ (List.mem_cons_of_mem a hc))

/-- **The tidy values are those that have a text with an encoding.** -/
theorem tidy_iff {v : Value F} : v.Tidy ↔ v.Writable ∧ Clean (dumps v) := by
  constructor
  · exact fun h => ⟨h.writable, h.clean_dumps⟩
  rintro ⟨hwritable, hclean⟩
  induction v using induction with
  | null | bool => rfl
  | int n => exact (writable_iff.mp hwritable).2.1
  | float x => exact (writable_iff.mp hwritable).1
  | str s =>
    rw [dumps] at hclean
    exact decide_eq_true (Clean.of_quote hclean)
  | list items ih =>
    rw [dumps_list] at hclean
    have hparts := Clean.of_commaJoin (Clean.of_bracketed hclean)
    rw [Tidy, all_list, Bool.and_eq_true]
    refine ⟨rfl, List.all_eq_true.mpr fun v hv => ?_⟩
    exact ih v hv (hwritable.of_list v hv) (hparts _ (List.mem_map_of_mem hv))
  | tuple items ih =>
    rw [dumps_tuple] at hclean
    have hparts := Clean.of_commaJoin (Clean.of_bracketed hclean)
    rw [Tidy, all_tuple, Bool.and_eq_true]
    refine ⟨rfl, List.all_eq_true.mpr fun v hv => ?_⟩
    exact ih v hv (hwritable.of_tuple v hv) (hparts _ (List.mem_map_of_mem hv))
  | dict items ih =>
    rw [dumps_dict] at hclean
    have hparts := Clean.of_commaJoin (Clean.of_bracketed hclean)
    have hfield : ∀ f ∈ items, Clean (quote f.1) ∧ Clean (dumps f.2) := by
      intro f hf
      have hmem : fieldText (f.1, dumps f.2)
          ∈ (sortKeys (items.map fun f => (f.1, dumps f.2))).map fieldText :=
        List.mem_map_of_mem (mem_sortKeys.mpr (List.mem_map_of_mem hf))
      have htext := hparts _ hmem
      exact ⟨fun c hc => htext c (List.mem_append_left _ hc),
        fun c hc => htext c (List.mem_append_right _ (List.mem_cons_of_mem _ hc))⟩
    rw [Tidy, all_dict, Bool.and_eq_true]
    refine ⟨Bool.and_eq_true_iff.mpr ⟨decide_eq_true hwritable.wellFormed.nodup, ?_⟩, ?_⟩
    · exact List.all_eq_true.mpr fun f hf => decide_eq_true (Clean.of_quote (hfield f hf).1)
    · exact List.all_eq_true.mpr fun f hf =>
        ih f hf (hwritable.of_dict f hf) (hfield f hf).2

theorem tidy_dict {items : List (PyStr × Value F)} (hnodup : (items.map Prod.fst).Nodup)
    (hkeys : ∀ k ∈ items.map Prod.fst, Clean k) (hvalues : ∀ f ∈ items, f.2.Tidy) :
    (dict items).Tidy := by
  rw [Tidy, all_dict, Bool.and_eq_true]
  refine ⟨Bool.and_eq_true_iff.mpr ⟨decide_eq_true hnodup, ?_⟩, List.all_eq_true.mpr hvalues⟩
  exact List.all_eq_true.mpr fun f hf => decide_eq_true (hkeys f.1 (List.mem_map_of_mem hf))

@[simp] theorem tidy_null : (null : Value F).Tidy := rfl

@[simp] theorem tidy_bool (b : Bool) : (bool b : Value F).Tidy := rfl

@[simp] theorem tidy_str {s : PyStr} : (str s : Value F).Tidy ↔ Clean s := decide_eq_true_iff

@[simp] theorem tidy_int {n : ℤ} : (int n : Value F).Tidy ↔ digitCount n ≤ maxStrDigits :=
  decide_eq_true_iff

theorem Tidy.keys {items : List (PyStr × Value F)} (h : (dict items).Tidy) :
    ∀ k ∈ items.map Prod.fst, Clean k := by
  intro k hk
  obtain ⟨f, hf, rfl⟩ := List.mem_map.mp hk
  rw [Tidy, all_dict, Bool.and_eq_true] at h
  exact of_decide_eq_true (List.all_eq_true.mp (Bool.and_eq_true_iff.mp h.1).2 f hf)

theorem Tidy.field {items : List (PyStr × Value F)} (h : (dict items).Tidy)
    {f : PyStr × Value F} (hf : f ∈ items) : f.2.Tidy := by
  rw [Tidy, all_dict, Bool.and_eq_true] at h
  exact List.all_eq_true.mp h.2 f hf

end Value

end Json
