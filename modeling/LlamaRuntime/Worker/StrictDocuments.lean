/-
What strict JSON lets through.

A repeated key and an unpaired surrogate are refused wherever they are.  The constants
`NaN` and `Infinity` are refused too, but a number with a fraction or an exponent is given
to `float`, which makes an infinity of one that is too large, and no hook sees it.

* `Strict` — what `loads` promises of a value it returns;
* `Overflows` — the inputs whose only fault is a number that is too large;
* `strict_iff` — the promise is kept at all other inputs.
-/
import LlamaRuntime.Json.Document
import LlamaRuntime.Worker.StrictJson

namespace Json.Document

/-- Induction over the nodes of a document. -/
@[elab_as_elim]
theorem induction {P : Document → Prop} (null : P null) (bool : ∀ b, P (bool b))
    (constant : P constant) (number : ∀ token, P (number token)) (str : ∀ s, P (str s))
    (list : ∀ items, (∀ d ∈ items, P d) → P (list items))
    (object : ∀ fields, (∀ f ∈ fields, P f.2) → P (object fields)) (d : Document) : P d :=
  @Document.rec P (fun items => ∀ d ∈ items, P d) (fun fields => ∀ f ∈ fields, P f.2)
    (fun f => P f.2) null bool constant number str list object (fun _ h => (nomatch h))
    (fun _ _ hd hrest e he => (List.mem_cons.mp he).elim (fun h => h ▸ hd) (hrest e))
    (fun _ h => (nomatch h))
    (fun _ _ hf hrest e he => (List.mem_cons.mp he).elim (fun h => h ▸ hf) (hrest e))
    (fun _ _ h => h) d

variable {F : Type} [Floats F]

/-- A check of the value that is a check of the document at each node is one everywhere. -/
theorem all_value {p : Value F → Bool} {q : Document → Bool}
    (h : ∀ d : Document, p d.value = q d) (d : Document) : d.value.all p = d.all q := by
  induction d using induction with
  | null => exact h null
  | bool b => exact h (bool b)
  | constant => exact h constant
  | number token =>
    rw [all.eq_def, value]
    dsimp only
    rw [← h (number token), value]
    split_ifs <;> rfl
  | str s => exact h (str s)
  | list items ih =>
    have hnode := h (list items)
    rw [value_list] at hnode
    rw [value_list, Value.all_list, all_list, hnode, List.all_map]
    exact congrArg _ (all_congr_of_mem ih)
  | object fields ih =>
    have hnode := h (object fields)
    rw [value_object] at hnode
    rw [value_object, Value.all_dict, all_object, hnode, List.all_map]
    exact congrArg _ (all_congr_of_mem ih)

/-- A check that implies another at each node implies it everywhere. -/
theorem all_mono {p q : Document → Bool} (hpq : ∀ d, p d = true → q d = true) {d : Document}
    (h : d.all p = true) : d.all q = true := by
  induction d using induction with
  | null => exact hpq null h
  | bool b => exact hpq (bool b) h
  | constant => exact hpq constant h
  | number token =>
    rw [all.eq_def] at h ⊢
    exact hpq (number token) h
  | str s => exact hpq (str s) h
  | list items ih =>
    rw [all_list, Bool.and_eq_true, List.all_eq_true] at h ⊢
    exact ⟨hpq _ h.1, fun d hd => ih d hd (h.2 d hd)⟩
  | object fields ih =>
    rw [all_object, Bool.and_eq_true, List.all_eq_true] at h ⊢
    exact ⟨hpq _ h.1, fun f hf => ih f hf (h.2 f hf)⟩

theorem finiteNumber_value (d : Document) :
    (d.value : Value F).finiteNumber = d.finiteLiteral F := by
  cases d with
  | number token =>
    rw [value, finiteLiteral]
    cases token.isFloat with
    | true => rfl
    | false => rfl
  | list items => rw [value_list]; rfl
  | object fields => rw [value_object]; rfl
  | null | bool | constant | str => rfl

end Json.Document

namespace Worker

open Json

section

variable {F : Type} [Floats F]

/-- No string of the node and no key of it has an unpaired surrogate. -/
def cleanNode : Document → Bool
  | .str s => surrogateFree s
  | .object fields => fields.all fun f => surrogateFree f.1
  | _ => true

theorem cleanStrings_value (d : Document) : cleanStrings (d.value : Value F) = cleanNode d := by
  cases d with
  | number token =>
    rw [Document.value]
    split_ifs <;> rfl
  | list items => rw [Document.value_list]; rfl
  | object fields =>
    rw [Document.value_object]
    show (fields.map fun f => (f.1, (f.2.value : Value F))).all _ = fields.all _
    rw [List.all_map]
    rfl
  | null | bool | constant | str => rfl

/-- The document that the data are read to, if they are within the limit. -/
def documentOf (data : Data) (tooLarge : Option ℕ) : Option Document :=
  data.raw.bind fun raw =>
    if tooLarge.any fun limit => limit < raw.length then none
    else (decodeUtf8 raw).bind document

theorem loads_eq_ok {data : Data} {tooLarge : Option ℕ} {value : Value F} :
    loads data tooLarge = .ok value ↔ ∃ doc, documentOf data tooLarge = some doc ∧
      doc.all Document.accepted = true ∧ doc.all cleanNode = true ∧ doc.value = value := by
  unfold loads documentOf
  cases data.raw with
  | none => simp
  | some raw =>
    dsimp only [Option.bind_some]
    by_cases hlarge : (tooLarge.any fun limit => limit < raw.length) = true
    · rw [if_pos hlarge, if_pos hlarge]
      simp
    rw [if_neg hlarge, if_neg hlarge]
    cases decodeUtf8 raw with
    | none => simp
    | some text =>
      dsimp only [Option.bind_some]
      have hclean : ∀ doc : Document, hasUnpairedSurrogate (doc.value : Value F) = true ↔
          ¬ doc.all cleanNode = true := by
        intro doc
        rw [hasUnpairedSurrogate, Document.all_value cleanStrings_value]
        simp
      constructor
      · intro h
        cases hread : (Json.loads text : Except Fault (Value F)) with
        | error fault =>
          rw [hread] at h
          cases h
        | ok read =>
          rw [hread] at h
          obtain ⟨doc, hdoc, haccepted, rfl⟩ := Json.loads_eq_ok.mp hread
          dsimp only at h
          split_ifs at h with hbad
          obtain rfl := Except.ok.inj h
          exact ⟨doc, hdoc, haccepted, not_not.mp fun hno => hbad ((hclean doc).mpr hno), rfl⟩
      · rintro ⟨doc, hdoc, haccepted, hnode, rfl⟩
        rw [Json.loads_eq_ok.mpr ⟨doc, hdoc, haccepted, rfl⟩]
        exact if_neg fun hbad => (hclean doc).mp hbad hnode

/-- What `loads` promises of each value that it returns: its numbers are finite, its strings
and keys hold no unpaired surrogate, and the document it was read from repeats no key. -/
def Strict (F : Type) [Floats F] (data : Data) (tooLarge : Option ℕ) : Prop :=
  ∀ value : Value F, loads data tooLarge = .ok value →
    value.all Value.finiteNumber = true ∧ value.all cleanStrings = true ∧
      ∃ doc, documentOf data tooLarge = some doc ∧ doc.all Document.distinctKeys = true

/-- The data are a document that is refused for nothing else, with a number in it that is
no finite float. -/
def Overflows (F : Type) [Floats F] (data : Data) (tooLarge : Option ℕ) : Prop :=
  ∃ doc, documentOf data tooLarge = some doc ∧ doc.all Document.accepted = true ∧
    doc.all cleanNode = true ∧ doc.all (Document.finiteLiteral F) = false

/-- Floats as far as two literals show them: `0.0`, and one that is too large. -/
inductive LargeFloat where
  | zero
  | infinity
  deriving DecidableEq

theorem zeroText_ne : zeroText.text ≠ py "1e999" := by decide

instance : Floats LargeFloat where
  isFinite x := x = .zero
  isZero x := x = .zero
  repr _ := zeroText
  ofText text := if text = py "1e999" then .infinity else .zero
  ofText_repr x hx := by
    rw [if_neg zeroText_ne]
    exact (of_decide_eq_true hx).symm

/-- `1e999` is returned as an infinity. -/
theorem strict_fails : ¬ Strict LargeFloat (.str (py "1e999")) none := by
  intro h
  have hloads : loads (.str (py "1e999")) none = .ok (.float LargeFloat.infinity) := by
    rfl
  exact absurd (h _ hloads).1 (by decide)

/-- **Strict JSON is strict** but for numbers that overflow. -/
theorem strict_iff (data : Data) (tooLarge : Option ℕ) :
    Strict F data tooLarge ↔ ¬ Overflows F data tooLarge := by
  constructor
  · rintro h ⟨doc, hdoc, haccepted, hclean, hoverflow⟩
    have hfinite := (h _ (loads_eq_ok.mpr ⟨doc, hdoc, haccepted, hclean, rfl⟩)).1
    rw [Document.all_value Document.finiteNumber_value, hoverflow] at hfinite
    cases hfinite
  · intro h value hloads
    obtain ⟨doc, hdoc, haccepted, hclean, rfl⟩ := loads_eq_ok.mp hloads
    refine ⟨?_, ?_, doc, hdoc, ?_⟩
    · rw [Document.all_value Document.finiteNumber_value]
      by_contra hoverflow
      exact h ⟨doc, hdoc, haccepted, hclean, Bool.eq_false_of_not_eq_true hoverflow⟩
    · rw [Document.all_value cleanStrings_value]
      exact hclean
    · exact Document.all_mono (fun d hd => (Bool.and_eq_true_iff.mp hd).2) haccepted

end

end Worker
