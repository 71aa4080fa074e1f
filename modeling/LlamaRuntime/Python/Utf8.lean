/-
Decoding UTF-8.

* `scanUtf8` — the characters of a byte string, with a mark where the decoder
  meets bytes that are none; it goes on after the bytes it could use;
* `decodeUtf8` — `bytes.decode("utf-8")`, `none` where it raises;
* `decodeUtf8Ignore` — `bytes.decode("utf-8", errors="ignore")`.

No decoded text holds a surrogate, so it can be encoded again.
-/
import Mathlib.Algebra.Order.Ring.Nat
import Mathlib.Tactic.Positivity
import Mathlib.Tactic.SplitIfs
import LlamaRuntime.Python.Str

/-- What the first byte of a character says: the bits it holds, the least and
the greatest second byte, and the number of bytes that follow. -/
def utf8Lead (b : ℕ) : Option (ℕ × ℕ × ℕ × ℕ) :=
  if b < 0x80 then some (b, 0x80, 0xBF, 0)
  else if b < 0xC2 then none
  else if b < 0xE0 then some (b - 0xC0, 0x80, 0xBF, 1)
  else if b = 0xE0 then some (0, 0xA0, 0xBF, 2)
  else if b = 0xED then some (0xD, 0x80, 0x9F, 2)
  else if b < 0xF0 then some (b - 0xE0, 0x80, 0xBF, 2)
  else if b = 0xF0 then some (0, 0x90, 0xBF, 3)
  else if b < 0xF4 then some (b - 0xF0, 0x80, 0xBF, 3)
  else if b = 0xF4 then some (4, 0x80, 0x8F, 3)
  else none

/-- The bytes after the first: the value they complete, and what follows them. -/
def utf8Tail : ℕ → ℕ → ℕ → ℕ → List UInt8 → Option ℕ × List UInt8
  | 0, _, _, value, rest => (some value, rest)
  | _ + 1, _, _, _, [] => (none, [])
  | n + 1, low, high, value, b :: rest =>
    if low ≤ b.toNat ∧ b.toNat ≤ high then
      utf8Tail n 0x80 0xBF (value * 0x40 + (b.toNat - 0x80)) rest
    else (none, b :: rest)

/-- The character at the head of the bytes, and what follows it. -/
def utf8Char (b : UInt8) (rest : List UInt8) : Option CodePoint × List UInt8 :=
  match utf8Lead b.toNat with
  | none => (none, rest)
  | some (value, low, high, n) =>
    let scanned := utf8Tail n low high value rest
    (scanned.1.bind fun v => if h : v < 0x110000 then some ⟨v, h⟩ else none, scanned.2)

/-- The characters of a byte string; as much fuel as there are bytes is enough. -/
def scanUtf8 : ℕ → List UInt8 → List (Option CodePoint)
  | fuel + 1, b :: rest => (utf8Char b rest).1 :: scanUtf8 fuel (utf8Char b rest).2
  | _, _ => []

/-- `bytes.decode("utf-8")`; `none` where it raises `UnicodeDecodeError`. -/
def decodeUtf8 (bytes : List UInt8) : Option PyStr := (scanUtf8 bytes.length bytes).mapM id

/-- `bytes.decode("utf-8", errors="ignore")` -/
def decodeUtf8Ignore (bytes : List UInt8) : PyStr :=
  (scanUtf8 bytes.length bytes).filterMap id

/-! ### Decoded characters are no surrogates -/

theorem utf8Tail_bounds {n low high value : ℕ} {bytes rest : List UInt8} {v : ℕ}
    (hlow : 0x80 ≤ low) (h : utf8Tail (n + 1) low high value bytes = (some v, rest)) :
    (value * 0x40 + (low - 0x80)) * 0x40 ^ n ≤ v ∧
      v < (value * 0x40 + (high - 0x80) + 1) * 0x40 ^ n := by
  induction n generalizing low high value bytes with
  | zero =>
    cases bytes with
    | nil => exact absurd (Prod.mk.inj h).1 (by simp)
    | cons b bytes =>
      rw [utf8Tail] at h
      split_ifs at h with hb
      · obtain ⟨hv, -⟩ := Prod.mk.inj h
        obtain rfl := Option.some_inj.mp hv
        omega
      · exact absurd (Prod.mk.inj h).1 (by simp)
  | succ n ih =>
    cases bytes with
    | nil => exact absurd (Prod.mk.inj h).1 (by simp)
    | cons b bytes =>
      rw [utf8Tail] at h
      split_ifs at h with hb
      · obtain ⟨hle, hlt⟩ := ih (by omega) h
        have hpow : 0x40 ^ (n + 1) = 0x40 * 0x40 ^ n := by rw [pow_succ, mul_comm]
        have hpos : 0 < 0x40 ^ n := by positivity
        constructor
        · calc (value * 0x40 + (low - 0x80)) * 0x40 ^ (n + 1)
              = (value * 0x40 + (low - 0x80)) * 0x40 * 0x40 ^ n := by rw [hpow, mul_assoc]
            _ ≤ ((value * 0x40 + (b.toNat - 0x80)) * 0x40 + (0x80 - 0x80)) * 0x40 ^ n :=
              Nat.mul_le_mul_right _ (by omega)
            _ ≤ v := hle
        · calc v < ((value * 0x40 + (b.toNat - 0x80)) * 0x40 + (0xBF - 0x80) + 1) * 0x40 ^ n := hlt
            _ ≤ (value * 0x40 + (high - 0x80) + 1) * 0x40 * 0x40 ^ n :=
              Nat.mul_le_mul_right _ (by omega)
            _ = (value * 0x40 + (high - 0x80) + 1) * 0x40 ^ (n + 1) := by rw [hpow, mul_assoc]
      · exact absurd (Prod.mk.inj h).1 (by simp)

theorem not_isSurrogate_of_utf8Char {b : UInt8} {rest : List UInt8} {c : CodePoint}
    (h : (utf8Char b rest).1 = some c) : ¬ c.IsSurrogate := by
  unfold utf8Char at h
  cases hlead : utf8Lead b.toNat with
  | none =>
    rw [hlead] at h
    exact absurd h (by simp)
  | some lead =>
    obtain ⟨value, low, high, n⟩ := lead
    rw [hlead] at h
    obtain ⟨v, hv, hc⟩ := Option.bind_eq_some_iff.mp h
    split_ifs at hc with hlt
    obtain rfl := Option.some_inj.mp hc
    -- one case for each kind of first byte; the bounds keep clear of D800..DFFF
    have htail {m : ℕ} (hn : n = m + 1) (hlow : 0x80 ≤ low) :=
      utf8Tail_bounds hlow (hn ▸ Prod.ext hv rfl : utf8Tail (m + 1) low high value rest
        = (some v, (utf8Tail n low high value rest).2))
    show ¬ (0xD800 ≤ v ∧ v ≤ 0xDFFF)
    unfold utf8Lead at hlead
    have hparts {x l u m : ℕ} (hsome : some (x, l, u, m) = some (value, low, high, n)) :
        x = value ∧ l = low ∧ u = high ∧ m = n := by
      simpa only [Option.some.injEq, Prod.mk.injEq] using hsome
    by_cases h₁ : b.toNat < 0x80
    · rw [if_pos h₁] at hlead
      obtain ⟨rfl, rfl, rfl, rfl⟩ := hparts hlead
      obtain rfl : b.toNat = v := Option.some_inj.mp hv
      omega
    rw [if_neg h₁] at hlead
    by_cases h₂ : b.toNat < 0xC2
    · rw [if_pos h₂] at hlead
      exact absurd hlead (by simp)
    rw [if_neg h₂] at hlead
    by_cases h₃ : b.toNat < 0xE0
    · rw [if_pos h₃] at hlead
      obtain ⟨rfl, rfl, rfl, rfl⟩ := hparts hlead
      have := htail (m := 0) rfl (by omega)
      omega
    rw [if_neg h₃] at hlead
    by_cases h₄ : b.toNat = 0xE0
    · rw [if_pos h₄] at hlead
      obtain ⟨rfl, rfl, rfl, rfl⟩ := hparts hlead
      have := htail (m := 1) rfl (by omega)
      omega
    rw [if_neg h₄] at hlead
    by_cases h₅ : b.toNat = 0xED
    · rw [if_pos h₅] at hlead
      obtain ⟨rfl, rfl, rfl, rfl⟩ := hparts hlead
      have := htail (m := 1) rfl (by omega)
      omega
    rw [if_neg h₅] at hlead
    by_cases h₆ : b.toNat < 0xF0
    · rw [if_pos h₆] at hlead
      obtain ⟨rfl, rfl, rfl, rfl⟩ := hparts hlead
      have := htail (m := 1) rfl (by omega)
      omega
    rw [if_neg h₆] at hlead
    by_cases h₇ : b.toNat = 0xF0
    · rw [if_pos h₇] at hlead
      obtain ⟨rfl, rfl, rfl, rfl⟩ := hparts hlead
      have := htail (m := 2) rfl (by omega)
      omega
    rw [if_neg h₇] at hlead
    by_cases h₈ : b.toNat < 0xF4
    · rw [if_pos h₈] at hlead
      obtain ⟨rfl, rfl, rfl, rfl⟩ := hparts hlead
      have := htail (m := 2) rfl (by omega)
      omega
    rw [if_neg h₈] at hlead
    by_cases h₉ : b.toNat = 0xF4
    · rw [if_pos h₉] at hlead
      obtain ⟨rfl, rfl, rfl, rfl⟩ := hparts hlead
      have := htail (m := 2) rfl (by omega)
      omega
    rw [if_neg h₉] at hlead
    exact absurd hlead (by simp)

theorem not_isSurrogate_of_scanUtf8 {fuel : ℕ} {bytes : List UInt8} {c : CodePoint}
    (h : some c ∈ scanUtf8 fuel bytes) : ¬ c.IsSurrogate := by
  induction fuel generalizing bytes with
  | zero => exact absurd h (by simp [scanUtf8])
  | succ fuel ih =>
    cases bytes with
    | nil => exact absurd h (by simp [scanUtf8])
    | cons b rest =>
      rw [scanUtf8] at h
      rcases List.mem_cons.mp h with h | h
      · exact not_isSurrogate_of_utf8Char h.symm
      · exact ih h

theorem not_isSurrogate_of_decodeUtf8Ignore {bytes : List UInt8} :
    ∀ c ∈ decodeUtf8Ignore bytes, ¬ CodePoint.IsSurrogate c := by
  intro c hc
  obtain ⟨o, ho, rfl⟩ := List.mem_filterMap.mp hc
  exact not_isSurrogate_of_scanUtf8 ho

theorem mem_of_mapM_id {α : Type} {l : List (Option α)} {xs : List α} (h : l.mapM id = some xs) :
    ∀ x ∈ xs, some x ∈ l := by
  induction l generalizing xs with
  | nil =>
    obtain rfl : [] = xs := by simpa using h
    exact fun _ hx => absurd hx List.not_mem_nil
  | cons o l ih =>
    rw [List.mapM_cons] at h
    obtain ⟨x, hx, h⟩ := Option.bind_eq_some_iff.mp h
    obtain ⟨ys, hys, h⟩ := Option.bind_eq_some_iff.mp h
    obtain rfl := Option.some_inj.mp h
    intro y hy
    rcases List.mem_cons.mp hy with rfl | hy
    · exact List.mem_cons.mpr (.inl hx.symm)
    · exact List.mem_cons_of_mem _ (ih hys y hy)

/-- A decoded text can be encoded. -/
theorem not_isSurrogate_of_decodeUtf8 {bytes : List UInt8} {text : PyStr}
    (h : decodeUtf8 bytes = some text) : ∀ c ∈ text, ¬ CodePoint.IsSurrogate c :=
  fun c hc => not_isSurrogate_of_scanUtf8 (mem_of_mapM_id h c hc)
