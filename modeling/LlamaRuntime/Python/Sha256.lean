/-
`hashlib.sha256`, on lists of bytes.

Words are natural numbers below 2³²; `hexdigest` is the text of the digest.
Nothing below depends on the values, only on the shape of the text
(`hexdigest_length`, `isHex_of_mem_hexdigest`).
-/
import Mathlib.Data.List.Basic
import LlamaRuntime.Python.Str

namespace Sha256

def wordSize : ℕ := 4294967296

/-- Rotation of a word to the right. -/
def rotr (x n : ℕ) : ℕ := (x >>> n) ||| ((x <<< (32 - n)) % wordSize)

def complement (x : ℕ) : ℕ := wordSize - 1 - x

def roundConstants : List ℕ := [
  0x428a2f98, 0x71374491, 0xb5c0fbcf, 0xe9b5dba5, 0x3956c25b, 0x59f111f1, 0x923f82a4, 0xab1c5ed5,
  0xd807aa98, 0x12835b01, 0x243185be, 0x550c7dc3, 0x72be5d74, 0x80deb1fe, 0x9bdc06a7, 0xc19bf174,
  0xe49b69c1, 0xefbe4786, 0x0fc19dc6, 0x240ca1cc, 0x2de92c6f, 0x4a7484aa, 0x5cb0a9dc, 0x76f988da,
  0x983e5152, 0xa831c66d, 0xb00327c8, 0xbf597fc7, 0xc6e00bf3, 0xd5a79147, 0x06ca6351, 0x14292967,
  0x27b70a85, 0x2e1b2138, 0x4d2c6dfc, 0x53380d13, 0x650a7354, 0x766a0abb, 0x81c2c92e, 0x92722c85,
  0xa2bfe8a1, 0xa81a664b, 0xc24b8b70, 0xc76c51a3, 0xd192e819, 0xd6990624, 0xf40e3585, 0x106aa070,
  0x19a4c116, 0x1e376c08, 0x2748774c, 0x34b0bcb5, 0x391c0cb3, 0x4ed8aa4a, 0x5b9cca4f, 0x682e6ff3,
  0x748f82ee, 0x78a5636f, 0x84c87814, 0x8cc70208, 0x90befffa, 0xa4506ceb, 0xbef9a3f7, 0xc67178f2]

structure Registers where
  a : ℕ
  b : ℕ
  c : ℕ
  d : ℕ
  e : ℕ
  f : ℕ
  g : ℕ
  h : ℕ

def initial : Registers :=
  ⟨0x6a09e667, 0xbb67ae85, 0x3c6ef372, 0xa54ff53a, 0x510e527f, 0x9b05688c, 0x1f83d9ab, 0x5be0cd19⟩

/-- One round, with its constant and its word of the schedule. -/
def round (r : Registers) (kw : ℕ × ℕ) : Registers :=
  let s₁ := rotr r.e 6 ^^^ rotr r.e 11 ^^^ rotr r.e 25
  let choice := (r.e &&& r.f) ^^^ (complement r.e &&& r.g)
  let t₁ := r.h + s₁ + choice + kw.1 + kw.2
  let s₀ := rotr r.a 2 ^^^ rotr r.a 13 ^^^ rotr r.a 22
  let majority := (r.a &&& r.b) ^^^ (r.a &&& r.c) ^^^ (r.b &&& r.c)
  ⟨(t₁ + s₀ + majority) % wordSize, r.a, r.b, r.c, (r.d + t₁) % wordSize, r.e, r.f, r.g⟩

/-- The schedule, with its latest word first. -/
def extend : ℕ → List ℕ → List ℕ
  | 0, ws => ws
  | n + 1, ws =>
    let w₂ := ws.getD 1 0
    let w₇ := ws.getD 6 0
    let w₁₅ := ws.getD 14 0
    let w₁₆ := ws.getD 15 0
    let s₀ := rotr w₁₅ 7 ^^^ rotr w₁₅ 18 ^^^ (w₁₅ >>> 3)
    let s₁ := rotr w₂ 17 ^^^ rotr w₂ 19 ^^^ (w₂ >>> 10)
    extend n ((w₁₆ + s₀ + w₇ + s₁) % wordSize :: ws)

def schedule (block : List ℕ) : List ℕ := (extend 48 block.reverse).reverse

def addWords (x y : ℕ) : ℕ := (x + y) % wordSize

def compress (r : Registers) (block : List ℕ) : Registers :=
  let s := (roundConstants.zip (schedule block)).foldl round r
  ⟨addWords r.a s.a, addWords r.b s.b, addWords r.c s.c, addWords r.d s.d, addWords r.e s.e,
    addWords r.f s.f, addWords r.g s.g, addWords r.h s.h⟩

/-- The big-endian bytes of a number. -/
def bigEndian : ℕ → ℕ → List ℕ
  | 0, _ => []
  | width + 1, n => n / 256 ^ width % 256 :: bigEndian width n

def pad (message : List ℕ) : List ℕ :=
  message ++ 0x80 :: List.replicate ((119 - message.length % 64) % 64) 0
    ++ bigEndian 8 (8 * message.length)

/-- Bytes as words, four at a time. -/
def words : List ℕ → List ℕ
  | a :: b :: c :: d :: rest => (((a * 256 + b) * 256 + c) * 256 + d) :: words rest
  | _ => []

/-- The compression of `n` blocks of sixteen words. -/
def absorb : ℕ → List ℕ → Registers → Registers
  | 0, _, r => r
  | n + 1, ws, r => absorb n (ws.drop 16) (compress r (ws.take 16))

def digestWords (message : List UInt8) : Registers :=
  let padded := pad (message.map UInt8.toNat)
  absorb (padded.length / 64) (words padded) initial

theorem digit_lt (d : ℕ) : 0x30 + d % 16 < 0x110000 := by omega

theorem letter_lt (d : ℕ) : 0x57 + d % 16 < 0x110000 := by omega

/-- A digit of `"0123456789abcdef"` -/
def hexDigit (d : ℕ) : CodePoint :=
  if d % 16 < 10 then ⟨0x30 + d % 16, digit_lt d⟩ else ⟨0x57 + d % 16, letter_lt d⟩

/-- The lowest `width` hexadecimal digits of a number. -/
def hex : ℕ → ℕ → PyStr
  | 0, _ => []
  | width + 1, n => hexDigit (n / 16 ^ width) :: hex width n

/-- `hashlib.sha256(message).hexdigest()` -/
def hexdigest (message : List UInt8) : PyStr :=
  let r := digestWords message
  hex 8 r.a ++ hex 8 r.b ++ hex 8 r.c ++ hex 8 r.d ++ hex 8 r.e ++ hex 8 r.f ++ hex 8 r.g
    ++ hex 8 r.h

theorem length_hex (width n : ℕ) : (hex width n).length = width := by
  induction width with
  | zero => rfl
  | succ width ih => rw [hex, List.length_cons, ih]

@[simp] theorem hexdigest_length (message : List UInt8) : (hexdigest message).length = 64 := by
  simp [hexdigest, length_hex]

/-- A character of a hexadecimal text. -/
def IsHex (c : CodePoint) : Prop := (0x30 ≤ c.val ∧ c.val ≤ 0x39) ∨ (0x61 ≤ c.val ∧ c.val ≤ 0x66)

theorem isHex_hexDigit (d : ℕ) : IsHex (hexDigit d) := by
  have hlt : d % 16 < 16 := Nat.mod_lt _ (by omega)
  unfold IsHex hexDigit
  split_ifs with h
  · exact .inl ⟨Nat.le_add_right _ _, by dsimp only; omega⟩
  · exact .inr ⟨by dsimp only; omega, by dsimp only; omega⟩

theorem isHex_of_mem_hex {width n : ℕ} {c : CodePoint} (h : c ∈ hex width n) : IsHex c := by
  induction width with
  | zero => exact absurd h (by simp [hex])
  | succ width ih =>
    rw [hex, List.mem_cons] at h
    rcases h with rfl | h
    · exact isHex_hexDigit _
    · exact ih h

theorem isHex_of_mem_hexdigest {message : List UInt8} {c : CodePoint}
    (h : c ∈ hexdigest message) : IsHex c := by
  simp only [hexdigest, List.mem_append] at h
  rcases h with ((((((h | h) | h) | h) | h) | h) | h) | h <;> exact isHex_of_mem_hex h

end Sha256
