/-
The texts of payloads, and the payloads of texts.

* `parse_accepts` — the texts that are accepted are those of objects;
* `canonicalJson_alike` — two values have one text when they are alike, and only then;
* `canonical_payloads` — both, with the way back from the text of an object.
-/
import LlamaRuntime.Agent.Events
import LlamaRuntime.Json.Alike

open Json

namespace Agent

variable {F : Type} [Host F] {v w : Value F} {text : PyStr}

/-- A JSON object, as `dict` objects are: with no key twice, at any depth. -/
structure IsObject (v : Value F) : Prop where
  isDict : (v.dict?).isSome = true
  wellFormed : v.WellFormed

theorem IsObject.parse (hv : IsObject v) (h : canonicalJson v = .ok text) :
    parseCanonicalPayload text = .ok v.normal := by
  obtain ⟨hwritable, rfl⟩ := writable_of_canonicalJson hv.wellFormed h
  exact parseCanonicalPayload_dumps hwritable hv.isDict

/-- What is accepted is an object, and the text is its own. -/
theorem canonicalJson_of_parse (h : parseCanonicalPayload text = .ok v) :
    IsObject v ∧ canonicalJson v = .ok text := by
  unfold parseCanonicalPayload at h
  split at h
  · cases h
  · cases h
  · next value hloads =>
    split at h
    · cases h
    · next items hitems =>
      obtain ⟨text', htext', h⟩ := except_bind_ok.mp h
      split_ifs at h with hne
      obtain rfl := Except.ok.inj h
      have hdict : (value.dict?).isSome = true := Option.isSome_of_eq_some hitems
      exact ⟨⟨hdict, loads_wellFormed hloads⟩, by rw [htext', not_not.mp hne]⟩

theorem parse_accepts : (∃ v : Value F, parseCanonicalPayload text = .ok v) ↔
    ∃ v : Value F, IsObject v ∧ canonicalJson v = .ok text := by
  constructor
  · rintro ⟨v, h⟩
    exact ⟨v, canonicalJson_of_parse h⟩
  · rintro ⟨v, hv, h⟩
    exact ⟨v.normal, hv.parse h⟩

/-- The text is that of the values alike, and of no other. -/
theorem canonicalJson_alike (hv : v.WellFormed) (hw : w.WellFormed) (h : canonicalJson v = .ok text) :
    canonicalJson w = .ok text ↔ v.Alike w := by
  obtain ⟨hwritable, rfl⟩ := writable_of_canonicalJson hv h
  rw [Value.alike_iff hv]
  constructor
  · intro h'
    obtain ⟨hwritable', heq⟩ := writable_of_canonicalJson hw h'
    exact ⟨hw, (dumps_inj hwritable hwritable').mp heq⟩
  · rintro ⟨-, heq⟩
    have hnormal : w.normal.Writable := heq ▸ normal_writable hwritable
    have hwritable' : w.Writable := by
      obtain ⟨hf, hs, -⟩ := Value.writable_iff.mp hnormal
      rw [Value.all_normal Value.finiteNumber_normal] at hf
      rw [Value.all_normal Value.shortNumber_normal] at hs
      exact Value.writable_iff.mpr ⟨hf, hs, hw⟩
    rw [canonicalJson_of_writable hwritable', (dumps_inj hwritable hwritable').mpr heq]

/-- **Payloads and canonical texts are the same thing**, up to tuples and the order of keys. -/
theorem canonical_payloads :
    (∀ (v : Value F) text, IsObject v → canonicalJson v = .ok text →
      parseCanonicalPayload text = .ok v.normal) ∧
    (∀ text, (∃ v : Value F, parseCanonicalPayload text = .ok v) ↔
      ∃ v : Value F, IsObject v ∧ canonicalJson v = .ok text) ∧
    ∀ (v w : Value F) text, v.WellFormed → w.WellFormed → canonicalJson v = .ok text →
      (canonicalJson w = .ok text ↔ v.Alike w) :=
  ⟨fun _ _ hv h => hv.parse h, fun _ => parse_accepts,
    fun _ _ _ hv hw h => canonicalJson_alike hv hw h⟩

end Agent
