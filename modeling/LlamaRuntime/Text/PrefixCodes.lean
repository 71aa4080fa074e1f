/-
Codes that can be told from what follows them.

The codes of several values are written one after the other, with nothing in between.
`SplitsOff p code` says that each value with `p` is still read back.

* `SplitsOff.of_length` — codes of one length split off, if they are injective;
* `SplitsOff.lists` — so do lists of one length;
* `SplitsOff.flatMap_inj` — and a list of any length, where the codes are all there is.
-/
import Mathlib.Data.List.Basic

namespace PrefixCodes

variable {α β : Type} {p : α → Prop} {code : α → List β}

def SplitsOff (p : α → Prop) (code : α → List β) : Prop :=
  ∀ a b s t, p a → p b → code a ++ s = code b ++ t → a = b ∧ s = t

theorem SplitsOff.of_length {width : ℕ} (hwidth : ∀ a, p a → (code a).length = width)
    (hinj : ∀ a b, p a → p b → code a = code b → a = b) : SplitsOff p code := by
  intro a b s t ha hb h
  have hlength : (code a).length = (code b).length := by rw [hwidth a ha, hwidth b hb]
  obtain ⟨hcode, hrest⟩ := List.append_inj h hlength
  exact ⟨hinj a b ha hb hcode, hrest⟩

theorem length_flatMap {width : ℕ} : ∀ {as : List α}, (∀ a ∈ as, (code a).length = width) →
    (as.flatMap code).length = as.length * width
  | [], _ => by rw [List.flatMap_nil, List.length_nil, List.length_nil, Nat.zero_mul]
  | a :: as, h => by
    rw [List.flatMap_cons, List.length_append, h a List.mem_cons_self,
      length_flatMap fun b hb => h b (List.mem_cons_of_mem _ hb), List.length_cons, Nat.succ_mul,
      Nat.add_comm]

/-- Lists of one length split off, if their members do. -/
theorem SplitsOff.lists (h : SplitsOff p code) : ∀ {as bs : List α} {s t : List β},
    (∀ a ∈ as, p a) → (∀ b ∈ bs, p b) → as.length = bs.length →
    as.flatMap code ++ s = bs.flatMap code ++ t → as = bs ∧ s = t
  | [], [], _, _, _, _, _, heq => ⟨rfl, by simpa using heq⟩
  | a :: as, b :: bs, s, t, ha, hb, hlength, heq => by
    rw [List.flatMap_cons, List.flatMap_cons, List.append_assoc, List.append_assoc] at heq
    obtain ⟨rfl, htail⟩ := h a b _ _ (ha a List.mem_cons_self) (hb b List.mem_cons_self) heq
    obtain ⟨rfl, hrest⟩ := h.lists (fun c hc => ha c (List.mem_cons_of_mem _ hc))
      (fun c hc => hb c (List.mem_cons_of_mem _ hc)) (Nat.succ.inj hlength) htail
    exact ⟨rfl, hrest⟩

/-- Codes with something in them determine the list of the values. -/
theorem SplitsOff.flatMap_inj (h : SplitsOff p code) (hne : ∀ a, p a → code a ≠ []) :
    ∀ {as bs : List α}, (∀ a ∈ as, p a) → (∀ b ∈ bs, p b) →
      as.flatMap code = bs.flatMap code → as = bs
  | [], [], _, _, _ => rfl
  | [], b :: bs, _, hb, heq => by
    rw [List.flatMap_nil, List.flatMap_cons] at heq
    exact absurd (List.append_eq_nil_iff.mp heq.symm).1 (hne b (hb b List.mem_cons_self))
  | a :: as, [], ha, _, heq => by
    rw [List.flatMap_nil, List.flatMap_cons] at heq
    exact absurd (List.append_eq_nil_iff.mp heq).1 (hne a (ha a List.mem_cons_self))
  | a :: as, b :: bs, ha, hb, heq => by
    rw [List.flatMap_cons, List.flatMap_cons] at heq
    obtain ⟨rfl, htail⟩ := h a b _ _ (ha a List.mem_cons_self) (hb b List.mem_cons_self) heq
    rw [h.flatMap_inj hne (fun c hc => ha c (List.mem_cons_of_mem _ hc))
      (fun c hc => hb c (List.mem_cons_of_mem _ hc)) htail]

end PrefixCodes
