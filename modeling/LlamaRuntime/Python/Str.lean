/-
Python strings as sequences of code points.

A `str` may hold any code point up to U+10FFFF, surrogates included, so it is
not a Lean `String`: the difference shows as soon as a string is encoded, since
UTF-8 has no encoding for a surrogate and `str.encode` raises there.

* `py` — the string a literal denotes; injective (`py_inj`);
* `encodeUtf8` — `str.encode("utf-8")`, `none` where it raises
  `UnicodeEncodeError`.
-/
import Mathlib.Data.List.Basic
import Mathlib.Data.Fin.Basic
import Mathlib.Algebra.GroupWithZero.Nat

abbrev CodePoint := Fin 0x110000

instance CodePoint.count_ne_zero : NeZero 0x110000 := ⟨by decide⟩

abbrev PyStr := List CodePoint

instance (s : PyStr) (texts : List PyStr) : Decidable (s ∈ texts) := inferInstance

/-- The code point of a Lean character. -/
def CodePoint.ofChar (c : Char) : CodePoint :=
  ⟨c.toNat, by
    have h := c.valid
    simp only [UInt32.isValidChar, Nat.isValidChar] at h
    have : c.toNat = c.val.toNat := rfl
    omega⟩

/-- The Python string written as a literal. -/
def py (s : String) : PyStr := s.toList.map CodePoint.ofChar

theorem CodePoint.ofChar_inj {c d : Char} : CodePoint.ofChar c = CodePoint.ofChar d ↔ c = d := by
  constructor
  · intro h
    have hn := congrArg Fin.val h
    exact Char.toNat_inj.mp (by simpa only [CodePoint.ofChar] using hn)
  · rintro rfl
    rfl

@[simp] theorem py_inj {a b : String} : py a = py b ↔ a = b := by
  constructor
  · intro h
    exact String.toList_injective
      (List.map_injective_iff.mpr (fun _ _ hcd => CodePoint.ofChar_inj.mp hcd) h)
  · rintro rfl
    rfl

namespace CodePoint

def IsSurrogate (c : CodePoint) : Prop := 0xD800 ≤ c.val ∧ c.val ≤ 0xDFFF

instance (c : CodePoint) : Decidable c.IsSurrogate := inferInstanceAs (Decidable (_ ∧ _))

/-- The ASCII control characters every text field of the runtime refuses. -/
def IsControl (c : CodePoint) : Prop := c.val < 0x20 ∨ c.val = 0x7F

instance (c : CodePoint) : Decidable c.IsControl := inferInstanceAs (Decidable (_ ∨ _))

/-- How many bytes UTF-8 uses for a code point. -/
def utf8Size (c : CodePoint) : ℕ :=
  if c.val < 0x80 then 1 else if c.val < 0x800 then 2 else if c.val < 0x10000 then 3 else 4

/-- The UTF-8 bytes of a code point that is not a surrogate. -/
def utf8Bytes (c : CodePoint) : List UInt8 :=
  if c.val < 0x80 then [UInt8.ofNat c.val]
  else if c.val < 0x800 then
    [UInt8.ofNat (0xC0 + c.val / 0x40), UInt8.ofNat (0x80 + c.val % 0x40)]
  else if c.val < 0x10000 then
    [UInt8.ofNat (0xE0 + c.val / 0x1000), UInt8.ofNat (0x80 + c.val / 0x40 % 0x40),
      UInt8.ofNat (0x80 + c.val % 0x40)]
  else
    [UInt8.ofNat (0xF0 + c.val / 0x40000), UInt8.ofNat (0x80 + c.val / 0x1000 % 0x40),
      UInt8.ofNat (0x80 + c.val / 0x40 % 0x40), UInt8.ofNat (0x80 + c.val % 0x40)]

@[simp] theorem length_utf8Bytes (c : CodePoint) : c.utf8Bytes.length = c.utf8Size := by
  unfold utf8Bytes utf8Size
  split_ifs <;> rfl

theorem utf8Size_pos (c : CodePoint) : 0 < c.utf8Size := by
  unfold utf8Size
  split_ifs <;> omega

end CodePoint

/-- `str.encode("utf-8")`; `none` where it raises `UnicodeEncodeError`. -/
def encodeUtf8 (s : PyStr) : Option (List UInt8) :=
  if s.all fun c => ¬ c.IsSurrogate then some (s.flatMap CodePoint.utf8Bytes) else none

theorem encodeUtf8_eq_some {s : PyStr} {bytes : List UInt8} :
    encodeUtf8 s = some bytes ↔
      (∀ c ∈ s, ¬ c.IsSurrogate) ∧ s.flatMap CodePoint.utf8Bytes = bytes := by
  unfold encodeUtf8
  split_ifs with h
  · simp only [Option.some_inj, iff_and_self]
    intro _ c hc
    simpa using List.all_eq_true.mp h c hc
  · simp only [false_iff, not_and]
    exact fun hc => absurd (List.all_eq_true.mpr fun c hmem => by simpa using hc c hmem) h
