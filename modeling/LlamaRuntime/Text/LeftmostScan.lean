/-
Replacing the leftmost matches of a text that do not overlap.

Where a match begins at a position is given by `endAt`: the position it ends at.  A
scanner goes from the left and steps over each match that it meets, so a match that
begins inside one that was taken is not seen.

* `Leading` — the matches that begin inside no other leading match;
* `mem_scan` — the scanner takes the leading matches and no others;
* `scan_pairwise` — what it takes is disjoint and in order;
* `substitute` — the text with them replaced.
-/
import Mathlib.Data.List.Basic
import Mathlib.Order.Nat

namespace LeftmostScan

/-- A match that begins inside no other leading match. -/
def Leading (endAt : ℕ → Option ℕ) (p : ℕ) : Prop :=
  (endAt p).isSome ∧ ∀ q, (_ : q < p) → Leading endAt q → ∀ e, endAt q = some e → e ≤ p

/-- The matches from a position on, as a scanner takes them. -/
def scan (endAt : ℕ → Option ℕ) : ℕ → ℕ → List (ℕ × ℕ)
  | 0, _ => []
  | fuel + 1, p =>
    match endAt p with
    | some e => (p, e) :: scan endAt fuel e
    | none => scan endAt fuel (p + 1)

variable {endAt : ℕ → Option ℕ} {n : ℕ}

/-- A match has characters, and they are characters of the text. -/
def Progresses (endAt : ℕ → Option ℕ) (n : ℕ) : Prop := ∀ p e, endAt p = some e → p < e ∧ e ≤ n

/-- No leading match from before a position goes beyond it. -/
def Clear (endAt : ℕ → Option ℕ) (p : ℕ) : Prop :=
  ∀ q < p, Leading endAt q → ∀ e, endAt q = some e → e ≤ p

theorem clear_zero : Clear endAt 0 := fun _ hq => absurd hq (Nat.not_lt_zero _)

/-- Two leading matches do not overlap. -/
theorem Leading.le {p q e : ℕ} (hp : Leading endAt p) (hq : Leading endAt q) (hlt : q < p)
    (he : endAt q = some e) : e ≤ p := by
  rw [Leading] at hp
  exact hp.2 q hlt hq e he

theorem Clear.leading {p e : ℕ} (hclear : Clear endAt p) (he : endAt p = some e) :
    Leading endAt p := by
  rw [Leading]
  exact ⟨Option.isSome_of_eq_some he, hclear⟩

/-- Behind a match that is taken. -/
theorem Clear.after {p e : ℕ} (hclear : Clear endAt p) (hprogress : Progresses endAt n)
    (he : endAt p = some e) : Clear endAt e := by
  intro q hq hleading e' he'
  rcases Nat.lt_trichotomy q p with hlt | rfl | hgt
  · exact (hclear q hlt hleading e' he').trans (hprogress p e he).1.le
  · exact (Option.some_inj.mp (he.symm.trans he')).ge
  · have hle := hleading.le (hclear.leading he) hgt he
    omega

/-- Behind a position where no match begins. -/
theorem Clear.succ {p : ℕ} (hclear : Clear endAt p) (he : endAt p = none) :
    Clear endAt (p + 1) := by
  intro q hq hleading e he'
  rcases Nat.lt_succ_iff_lt_or_eq.mp hq with hlt | rfl
  · exact (hclear q hlt hleading e he').trans (Nat.le_succ p)
  · rw [he] at he'
    cases he'

/-- **The scanner takes the leading matches**, from a position that none goes beyond. -/
theorem mem_scan (hprogress : Progresses endAt n) {fuel p : ℕ} (hfuel : n ≤ fuel + p)
    (hclear : Clear endAt p) {q e : ℕ} :
    (q, e) ∈ scan endAt fuel p ↔ p ≤ q ∧ Leading endAt q ∧ endAt q = some e := by
  induction fuel generalizing p with
  | zero =>
    constructor
    · exact fun hmem => absurd hmem List.not_mem_nil
    · rintro ⟨hle, -, he⟩
      have hbound := hprogress q e he
      omega
  | succ fuel ih =>
    rw [scan]
    cases hp : endAt p with
    | none =>
      dsimp only
      rw [ih (by omega) (hclear.succ hp)]
      constructor
      · rintro ⟨hle, hq⟩
        exact ⟨by omega, hq⟩
      · rintro ⟨hle, hleading, he⟩
        have hne : p ≠ q := by
          rintro rfl
          rw [hp] at he
          cases he
        exact ⟨by omega, hleading, he⟩
    | some e' =>
      have hbound := hprogress p e' hp
      dsimp only
      rw [List.mem_cons, ih (by omega) (hclear.after hprogress hp)]
      constructor
      · rintro (heq | ⟨hle, hq⟩)
        · obtain ⟨rfl, rfl⟩ := Prod.mk.inj heq
          exact ⟨le_rfl, hclear.leading hp, hp⟩
        · exact ⟨by omega, hq⟩
      · rintro ⟨hle, hleading, he⟩
        rcases Nat.lt_or_eq_of_le hle with hlt | rfl
        · exact .inr ⟨hleading.le (hclear.leading hp) hlt hp, hleading, he⟩
        · rw [hp] at he
          exact .inl (Prod.ext rfl (Option.some_inj.mp he.symm))

/-- What the scanner takes lies behind where it starts. -/
theorem le_of_mem_scan (hprogress : Progresses endAt n) {fuel p : ℕ} {span : ℕ × ℕ}
    (h : span ∈ scan endAt fuel p) : p ≤ span.1 := by
  induction fuel generalizing p with
  | zero => exact absurd h List.not_mem_nil
  | succ fuel ih =>
    rw [scan] at h
    cases hp : endAt p with
    | none =>
      rw [hp] at h
      exact (Nat.le_succ p).trans (ih h)
    | some e =>
      rw [hp] at h
      rcases List.mem_cons.mp h with rfl | h
      · exact le_rfl
      · exact (hprogress p e hp).1.le.trans (ih h)

/-- Nothing is found behind the end of the text. -/
theorem scan_eq_nil (hprogress : Progresses endAt n) {fuel p : ℕ} (h : n ≤ p) :
    scan endAt fuel p = [] := by
  induction fuel generalizing p with
  | zero => rfl
  | succ fuel ih =>
    rw [scan]
    cases hp : endAt p with
    | none => exact ih (by omega)
    | some e =>
      have hbound := hprogress p e hp
      omega

theorem scan_pairwise (hprogress : Progresses endAt n) (fuel p : ℕ) :
    (scan endAt fuel p).Pairwise fun a b => a.2 ≤ b.1 := by
  induction fuel generalizing p with
  | zero => exact List.Pairwise.nil
  | succ fuel ih =>
    rw [scan]
    cases hp : endAt p with
    | none => exact ih (p + 1)
    | some e => exact List.pairwise_cons.mpr ⟨fun _ => le_of_mem_scan hprogress, ih e⟩

/-! ### Replacing them -/

variable {α : Type}

/-- The text from a position on, with each of the spans replaced by what is given for the
position where it begins. -/
def substitute (text : List α) (replacement : ℕ → List α) : ℕ → List (ℕ × ℕ) → List α
  | p, [] => text.drop p
  | p, (q, e) :: spans =>
    (text.drop p).take (q - p) ++ replacement q ++ substitute text replacement e spans

/-- A character in front of all spans stays. -/
theorem substitute_cons {text rest : List α} {replacement : ℕ → List α} {p : ℕ} {c : α}
    (hdrop : text.drop p = c :: rest) {spans : List (ℕ × ℕ)} (h : ∀ span ∈ spans, p < span.1) :
    substitute text replacement p spans = c :: substitute text replacement (p + 1) spans := by
  have hrest : text.drop (p + 1) = rest := by
    rw [← List.tail_drop, hdrop, List.tail_cons]
  cases spans with
  | nil =>
    rw [substitute, substitute, hdrop, hrest]
  | cons span spans =>
    obtain ⟨q, e⟩ := span
    have hlt : p < q := h _ List.mem_cons_self
    have hsub : q - p = (q - (p + 1)) + 1 := by omega
    rw [substitute, substitute, hdrop, hrest, hsub, List.take_succ_cons]
    rfl

end LeftmostScan
