/-
What the digest of an exact key is taken of.

`ExactTokenCacheKey.digest` hashes the kind, the five digests of the namespace and the
tokens, one after the other and with nothing in between.

* `hashed` — the bytes that the hasher is given;
* `hashed_eq` — they exist if and only if every token fits into four bytes;
* `hashed_inj` — and then they are those of no other key;
* `faithful_iff` — which keys have a digest that only a collision gives to another key.
-/
import LlamaRuntime.Inference.CacheFailures
import LlamaRuntime.Python.Sha256
import LlamaRuntime.Text.Utf8Codes

namespace Inference

open PrefixCodes

def CacheKind.value : CacheKind → PyStr
  | .PREFIX => py "prefix"
  | .SESSION => py "session"

/-- `str.encode()` -/
def encode (value : PyStr) : Except PyException (List UInt8) :=
  match encodeUtf8 value with
  | some bytes => .ok bytes
  | none => .error (.builtin "UnicodeEncodeError" "surrogates not allowed")

/-- The lowest bytes of a number, the lowest first. -/
def littleEndian : ℕ → ℕ → List UInt8
  | 0, _ => []
  | length + 1, n => UInt8.ofNat (n % 256) :: littleEndian length (n / 256)

/-- `int.to_bytes(length, "little", signed=False)` -/
def toBytes (length n : ℕ) : Except PyException (List UInt8) :=
  if n < 256 ^ length then .ok (littleEndian length n)
  else .error (.builtin "OverflowError" "int too big to convert")

/-- `hasher.update`, with the hasher as the bytes it was given -/
def update (hasher : List UInt8) (bytes : Except PyException (List UInt8)) :
    Except PyException (List UInt8) := do
  let bytes ← bytes
  pure (hasher ++ bytes)

def CacheNamespace.digests (space : CacheNamespace) : List PyStr :=
  [space.modelDigest, space.templateDigest, space.tokenizerDigest, space.adapterDigest,
    space.contextDigest]

namespace ExactTokenCacheKey

/-- What `digest` has hashed, unless it raises. -/
def hashed (key : ExactTokenCacheKey) : Except PyException (List UInt8) := do
  let hasher ← update [] (encode key.kind.value)
  let hasher ← key.space.digests.foldlM (fun hasher value => update hasher (encode value)) hasher
  key.tokenIds.foldlM (fun hasher token => update hasher (toBytes 4 token)) hasher

def digest (key : ExactTokenCacheKey) : Except PyException PyStr := do
  let hasher ← key.hashed
  pure (py "sha256:" ++ Sha256.hexdigest hasher)

end ExactTokenCacheKey

/-! ### Numbers of four bytes -/

@[simp] theorem length_littleEndian (length n : ℕ) : (littleEndian length n).length = length := by
  induction length generalizing n with
  | zero => rfl
  | succ length ih => rw [littleEndian, List.length_cons, ih]

theorem littleEndian_inj {length : ℕ} : ∀ {n m : ℕ}, n < 256 ^ length → m < 256 ^ length →
    littleEndian length n = littleEndian length m → n = m := by
  induction length with
  | zero =>
    intro n m hn hm _
    rw [Nat.pow_zero] at hn hm
    omega
  | succ length ih =>
    intro n m hn hm h
    rw [littleEndian, littleEndian] at h
    obtain ⟨hlow, hhigh⟩ := List.cons.inj h
    have hlow : n % 256 = m % 256 := by
      have := congrArg UInt8.toNat hlow
      rw [UInt8.toNat_ofNat', UInt8.toNat_ofNat'] at this
      omega
    rw [Nat.pow_succ] at hn hm
    have hhigh : n / 256 = m / 256 := ih (by omega) (by omega) hhigh
    omega

theorem splitsOff_littleEndian (length : ℕ) :
    SplitsOff (· < 256 ^ length) (littleEndian length) :=
  .of_length (fun n _ => length_littleEndian length n) fun _ _ => littleEndian_inj

/-! ### Digests -/

theorem py_lt {text : String} (h : (py text).all (fun c => c.val < 0x80) = true) {c : CodePoint}
    (hc : c ∈ py text) : c.val < 0x80 := by
  simpa using List.all_eq_true.mp h c hc

theorem IsDigest.lt {value : PyStr} (h : IsDigest value) {c : CodePoint} (hc : c ∈ value) :
    c.val < 0x80 := by
  obtain ⟨hstart, -, hdigits⟩ := h
  obtain ⟨rest, rfl⟩ := List.isPrefixOf_iff_prefix.mp hstart
  have hrest : (py "sha256:" ++ rest).drop 7 = rest := List.drop_left' rfl
  rw [hrest] at hdigits
  rcases List.mem_append.mp hc with hc | hc
  · exact py_lt (by decide) hc
  · exact py_lt (by decide) (hdigits c hc)

def utf8Text (value : PyStr) : List UInt8 := value.flatMap CodePoint.utf8Bytes

theorem encode_of_lt {value : PyStr} (h : ∀ c ∈ value, c.val < 0x80) :
    encode value = .ok (utf8Text value) := by
  have hsurrogate : ∀ c ∈ value, ¬ c.IsSurrogate := by
    intro c hc hsurrogate
    have hlt := h c hc
    have hle := hsurrogate.1
    omega
  rw [encode, encodeUtf8_eq_some.mpr ⟨hsurrogate, rfl⟩]
  rfl

/-- A digest has a byte for each character. -/
theorem splitsOff_digest : SplitsOff IsDigest utf8Text := by
  have hlength : ∀ value, IsDigest value → (utf8Text value).length = 71 := by
    intro value hvalue
    have hone : ∀ c ∈ value, c.utf8Bytes.length = 1 := by
      intro c hc
      rw [CodePoint.length_utf8Bytes]
      exact if_pos (hvalue.lt hc)
    rw [utf8Text, length_flatMap hone, hvalue.2.1]
  exact .of_length hlength fun _ _ _ _ => flatMap_utf8Bytes_inj

theorem CacheNamespace.digests_valid (space : CacheNamespace) :
    ∀ value ∈ space.digests, IsDigest value := by
  intro value hvalue
  simp only [CacheNamespace.digests, List.mem_cons, List.not_mem_nil, or_false] at hvalue
  rcases hvalue with rfl | rfl | rfl | rfl | rfl
  · exact space.model_valid
  · exact space.template_valid
  · exact space.tokenizer_valid
  · exact space.adapter_valid
  · exact space.context_valid

theorem CacheNamespace.digests_inj {space other : CacheNamespace}
    (h : space.digests = other.digests) : space = other := by
  cases space
  cases other
  simpa only [CacheNamespace.digests, List.cons.injEq, and_true, CacheNamespace.mk.injEq] using h

/-! ### The bytes of a key -/

/-- `"prefix"` and `"session"` differ in their first byte. -/
theorem kind_splitsOff : SplitsOff (fun _ => True) fun kind : CacheKind => utf8Text kind.value := by
  intro a b s t _ _ h
  cases a <;> cases b
  · exact ⟨rfl, List.append_cancel_left h⟩
  · exact absurd (List.cons.inj h).1 (by decide)
  · exact absurd (List.cons.inj h).1 (by decide)
  · exact ⟨rfl, List.append_cancel_left h⟩

theorem encode_kind (kind : CacheKind) : encode kind.value = .ok (utf8Text kind.value) := by
  refine encode_of_lt ?_
  cases kind
  · exact fun c => py_lt (by decide)
  · exact fun c => py_lt (by decide)

section Updates

variable {α : Type} {encoded : α → Except PyException (List UInt8)} {code : α → List UInt8}

theorem foldlM_update : ∀ {values : List α} (hasher : List UInt8),
    (∀ a ∈ values, encoded a = .ok (code a)) →
    values.foldlM (fun hasher a => update hasher (encoded a)) hasher =
      .ok (hasher ++ values.flatMap code)
  | [], hasher, _ => by
    rw [List.flatMap_nil, List.append_nil]
    rfl
  | a :: values, hasher, h => by
    have hstep : update hasher (encoded a) = .ok (hasher ++ code a) := by
      rw [h a List.mem_cons_self]
      rfl
    rw [List.foldlM_cons, hstep, List.flatMap_cons, ← List.append_assoc]
    exact foldlM_update _ fun b hb => h b (List.mem_cons_of_mem _ hb)

/-- A hasher that has taken every value has been given bytes for each. -/
theorem ok_of_foldlM_update : ∀ {values : List α} {hasher bytes : List UInt8},
    values.foldlM (fun hasher a => update hasher (encoded a)) hasher = .ok bytes →
    ∀ a ∈ values, ∃ taken, encoded a = .ok taken
  | a :: values, hasher, bytes, h, b, hb => by
    cases hencoded : encoded a with
    | error exc =>
      rw [List.foldlM_cons, hencoded] at h
      cases h
    | ok taken =>
      rw [List.foldlM_cons, hencoded] at h
      rcases List.mem_cons.mp hb with rfl | hb
      · exact ⟨taken, hencoded⟩
      · exact ok_of_foldlM_update h b hb

end Updates

namespace ExactTokenCacheKey

variable {key other : ExactTokenCacheKey} {bytes : List UInt8}

def bytesOf (key : ExactTokenCacheKey) : List UInt8 :=
  utf8Text key.kind.value ++
    (key.space.digests.flatMap utf8Text ++ key.tokenIds.flatMap (littleEndian 4))

/-- The kind and the digests are always taken. -/
theorem hashed_tokens (key : ExactTokenCacheKey) : key.hashed =
    key.tokenIds.foldlM (fun hasher token => update hasher (toBytes 4 token))
      (utf8Text key.kind.value ++ key.space.digests.flatMap utf8Text) := by
  have hdigests : ∀ value ∈ key.space.digests, encode value = .ok (utf8Text value) :=
    fun value hvalue => encode_of_lt fun c => (key.space.digests_valid value hvalue).lt
  rw [hashed, encode_kind]
  show (key.space.digests.foldlM (fun hasher value => update hasher (encode value))
    (utf8Text key.kind.value) >>= _) = _
  rw [foldlM_update _ hdigests]
  rfl

/-- The tokens are taken, if they fit. -/
theorem hashed_eq (h : ∀ token ∈ key.tokenIds, token < 256 ^ 4) :
    key.hashed = .ok key.bytesOf := by
  have hfits : ∀ token ∈ key.tokenIds, toBytes 4 token = .ok (littleEndian 4 token) := by
    intro token htoken
    rw [toBytes, if_pos (h token htoken)]
  rw [hashed_tokens, foldlM_update _ hfits, bytesOf, List.append_assoc]

theorem lt_of_hashed (h : key.hashed = .ok bytes) : ∀ token ∈ key.tokenIds, token < 256 ^ 4 := by
  rw [hashed_tokens] at h
  intro token htoken
  obtain ⟨taken, htaken⟩ := ok_of_foldlM_update h token htoken
  by_contra hlarge
  rw [toBytes, if_neg hlarge] at htaken
  cases htaken

/-- The bytes of a key are those of no other. -/
theorem hashed_inj (h : key.hashed = .ok bytes) (hother : other.hashed = .ok bytes) :
    key = other := by
  have hlt := lt_of_hashed h
  have hlt' := lt_of_hashed hother
  have heq : key.bytesOf = other.bytesOf :=
    Except.ok.inj ((hashed_eq hlt).symm.trans (h.trans (hother.symm.trans (hashed_eq hlt'))))
  obtain ⟨hkind, hrest⟩ := kind_splitsOff _ _ _ _ trivial trivial heq
  obtain ⟨hdigests, htokens⟩ := splitsOff_digest.lists key.space.digests_valid
    other.space.digests_valid rfl hrest
  have hspace := CacheNamespace.digests_inj hdigests
  have htokens := (splitsOff_littleEndian 4).flatMap_inj (fun _ _ => List.cons_ne_nil _ _)
    hlt hlt' htokens
  cases key
  cases other
  exact mk.injEq .. ▸ ⟨hkind, hspace, htokens⟩

/-- The digest exists, and no other key has it unless SHA-256 gives one text to the bytes
of both. -/
def Faithful (key : ExactTokenCacheKey) : Prop :=
  ∃ bytes, key.hashed = .ok bytes ∧ key.digest = .ok (py "sha256:" ++ Sha256.hexdigest bytes) ∧
    ∀ other otherBytes, other ≠ key → other.hashed = .ok otherBytes → otherBytes ≠ bytes ∧
      (other.digest = key.digest → Sha256.hexdigest otherBytes = Sha256.hexdigest bytes)

/-- **A key has a digest of its own exactly when its tokens fit into four bytes.** -/
theorem faithful_iff (key : ExactTokenCacheKey) :
    key.Faithful ↔ ∀ token ∈ key.tokenIds, token < 2 ^ 32 := by
  constructor
  · rintro ⟨bytes, hbytes, -⟩
    exact lt_of_hashed hbytes
  · intro hlt
    have hbytes : key.hashed = .ok key.bytesOf := hashed_eq hlt
    have hdigest : ∀ {k : ExactTokenCacheKey} {bytes}, k.hashed = .ok bytes →
        k.digest = .ok (py "sha256:" ++ Sha256.hexdigest bytes) := by
      intro k bytes h
      rw [digest, h]
      rfl
    refine ⟨key.bytesOf, hbytes, hdigest hbytes, fun other otherBytes hne hother => ⟨?_, ?_⟩⟩
    · rintro rfl
      exact hne (hashed_inj hother hbytes)
    · intro heq
      rw [hdigest hother, hdigest hbytes] at heq
      exact List.append_cancel_left (Except.ok.inj heq)

/-- One token that the constructor accepts and that four bytes do not hold. -/
theorem not_faithful : ∃ key : ExactTokenCacheKey, key.tokenIds = [2 ^ 32] ∧
    key.digest = .error (.builtin "OverflowError" "int too big to convert") ∧ ¬ key.Faithful := by
  refine ⟨SequenceStateCache.sampleKey (2 ^ 32), rfl, by decide +kernel, ?_⟩
  rintro ⟨bytes, hbytes, -⟩
  have hlt := lt_of_hashed hbytes (2 ^ 32) List.mem_cons_self
  omega

end ExactTokenCacheKey

end Inference
