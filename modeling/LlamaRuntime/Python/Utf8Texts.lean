/-
Decoding the UTF-8 of a text.

* `utf8Char_utf8Bytes` — the decoder reads back one character, whatever follows it;
* `decodeUtf8_text` — the bytes of a text without surrogates decode to the text.
-/
import LlamaRuntime.Python.Utf8

/-- The bytes of a character are those of a lead byte and of its tail. -/
theorem utf8Char_utf8Bytes {c : CodePoint} (hc : ¬ c.IsSurrogate) (rest : List UInt8) :
    ∃ b tail, c.utf8Bytes = b :: tail ∧ utf8Char b (tail ++ rest) = (some c, rest) := by
  have hlt := c.isLt
  have hmake : ∀ v : ℕ, v = c.val → (if h : v < 0x110000 then some (⟨v, h⟩ : CodePoint) else none)
      = some c := by
    rintro v rfl
    rw [dif_pos hlt]
  have hbyte : ∀ n < 256, (UInt8.ofNat n).toNat = n := fun n hn => by
    rw [UInt8.toNat_ofNat']
    omega
  have hsurrogate : ¬ (0xD800 ≤ c.val ∧ c.val ≤ 0xDFFF) := hc
  unfold CodePoint.utf8Bytes
  split_ifs with h₁ h₂ h₃
  · refine ⟨_, [], rfl, ?_⟩
    have hlead : utf8Lead (UInt8.ofNat c.val).toNat = some (c.val, 0x80, 0xBF, 0) := by
      rw [hbyte _ (by omega)]
      exact if_pos h₁
    rw [utf8Char, hlead]
    simp only [utf8Tail, Option.bind_some, List.nil_append, hmake c.val rfl]
  · refine ⟨_, [_], rfl, ?_⟩
    have hlead : utf8Lead (UInt8.ofNat (0xC0 + c.val / 0x40)).toNat
        = some (c.val / 0x40, 0x80, 0xBF, 1) := by
      rw [hbyte _ (by omega), utf8Lead, if_neg (by omega), if_neg (by omega), if_pos (by omega),
        show 0xC0 + c.val / 0x40 - 0xC0 = c.val / 0x40 by omega]
    rw [utf8Char, hlead]
    simp only [utf8Tail, List.cons_append, List.nil_append]
    rw [hbyte _ (by omega), if_pos (by omega)]
    simp only [Option.bind_some]
    rw [hmake _ (by omega)]
  · refine ⟨_, [_, _], rfl, ?_⟩
    obtain ⟨low, high, hlead, hlow, hhigh⟩ : ∃ low high,
        utf8Lead (UInt8.ofNat (0xE0 + c.val / 0x1000)).toNat
          = some (c.val / 0x1000, low, high, 2) ∧
        low ≤ 0x80 + c.val / 0x40 % 0x40 ∧ 0x80 + c.val / 0x40 % 0x40 ≤ high := by
      rw [hbyte _ (by omega), utf8Lead, if_neg (by omega), if_neg (by omega), if_neg (by omega)]
      by_cases hzero : c.val / 0x1000 = 0
      · rw [if_pos (by omega)]
        exact ⟨0xA0, 0xBF, by rw [hzero], by omega, by omega⟩
      by_cases hd : c.val / 0x1000 = 0xD
      · rw [if_neg (by omega), if_pos (by omega)]
        exact ⟨0x80, 0x9F, by rw [hd], by omega, by omega⟩
      · rw [if_neg (by omega), if_neg (by omega), if_pos (by omega)]
        rw [show 0xE0 + c.val / 0x1000 - 0xE0 = c.val / 0x1000 by omega]
        exact ⟨0x80, 0xBF, rfl, by omega, by omega⟩
    rw [utf8Char, hlead]
    simp only [utf8Tail, List.cons_append, List.nil_append]
    rw [hbyte (0x80 + c.val / 0x40 % 0x40) (by omega), if_pos ⟨hlow, hhigh⟩]
    rw [hbyte (0x80 + c.val % 0x40) (by omega), if_pos (by omega)]
    simp only [Option.bind_some]
    rw [hmake _ (by omega)]
  · refine ⟨_, [_, _, _], rfl, ?_⟩
    obtain ⟨low, high, hlead, hlow, hhigh⟩ : ∃ low high,
        utf8Lead (UInt8.ofNat (0xF0 + c.val / 0x40000)).toNat
          = some (c.val / 0x40000, low, high, 3) ∧
        low ≤ 0x80 + c.val / 0x1000 % 0x40 ∧ 0x80 + c.val / 0x1000 % 0x40 ≤ high := by
      rw [hbyte _ (by omega), utf8Lead, if_neg (by omega), if_neg (by omega), if_neg (by omega),
        if_neg (by omega), if_neg (by omega), if_neg (by omega)]
      by_cases hzero : c.val / 0x40000 = 0
      · rw [if_pos (by omega)]
        exact ⟨0x90, 0xBF, by rw [hzero], by omega, by omega⟩
      by_cases hfour : c.val / 0x40000 = 4
      · rw [if_neg (by omega), if_neg (by omega), if_pos (by omega)]
        exact ⟨0x80, 0x8F, by rw [hfour], by omega, by omega⟩
      · rw [if_neg (by omega), if_pos (by omega)]
        rw [show 0xF0 + c.val / 0x40000 - 0xF0 = c.val / 0x40000 by omega]
        exact ⟨0x80, 0xBF, rfl, by omega, by omega⟩
    rw [utf8Char, hlead]
    simp only [utf8Tail, List.cons_append, List.nil_append]
    rw [hbyte (0x80 + c.val / 0x1000 % 0x40) (by omega), if_pos ⟨hlow, hhigh⟩]
    rw [hbyte (0x80 + c.val / 0x40 % 0x40) (by omega), if_pos (by omega)]
    rw [hbyte (0x80 + c.val % 0x40) (by omega), if_pos (by omega)]
    simp only [Option.bind_some]
    rw [hmake _ (by omega)]

/-- The characters of a text, in its bytes. -/
theorem scanUtf8_text : ∀ {text : PyStr} {fuel : ℕ}, (∀ c ∈ text, ¬ c.IsSurrogate) →
    (text.flatMap CodePoint.utf8Bytes).length ≤ fuel →
    scanUtf8 fuel (text.flatMap CodePoint.utf8Bytes) = text.map some
  | [], fuel, _, _ => by cases fuel <;> rfl
  | c :: text, fuel, hclean, hfuel => by
    obtain ⟨b, tail, hbytes, hchar⟩ :=
      utf8Char_utf8Bytes (hclean c List.mem_cons_self) (text.flatMap CodePoint.utf8Bytes)
    rw [List.flatMap_cons, hbytes] at hfuel ⊢
    obtain ⟨fuel, rfl⟩ : ∃ k, fuel = k + 1 := Nat.exists_eq_succ_of_ne_zero (by
      rintro rfl
      simp at hfuel)
    have hrest : (text.flatMap CodePoint.utf8Bytes).length ≤ fuel := by
      simp only [List.cons_append, List.length_cons, List.length_append] at hfuel
      omega
    rw [List.cons_append, scanUtf8, hchar, List.map_cons,
      scanUtf8_text (fun d hd => hclean d (List.mem_cons_of_mem c hd)) hrest]

theorem mapM_id_some {α : Type} (xs : List α) : (xs.map some).mapM id = some xs := by
  induction xs with
  | nil => rfl
  | cons x xs ih =>
    rw [List.map_cons, List.mapM_cons, ih]
    rfl

/-- **The UTF-8 of a text decodes to the text.** -/
theorem decodeUtf8_text {text : PyStr} (hclean : ∀ c ∈ text, ¬ c.IsSurrogate) :
    decodeUtf8 (text.flatMap CodePoint.utf8Bytes) = some text := by
  rw [decodeUtf8, scanUtf8_text hclean le_rfl, mapM_id_some]
