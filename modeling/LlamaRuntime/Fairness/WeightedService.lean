/-
Weighted service among parties that are served one at a time.

Each party has a weight, and what counts is what it was served over its weight.
Where the one that is served next never has more of it than any other, no party
gets ahead of another by more than one serving over its own weight.

* `Balanced` — nobody is ahead by more than one serving of at most `q`;
* `Balanced.serve` — serving a party with the least normalized service keeps it;
* `Balanced.congr` — it speaks about the parties of the set only.
-/
import Mathlib.Algebra.Order.Field.Basic
import Mathlib.Algebra.Order.Ring.Rat
import Mathlib.Data.Rat.Lemmas
import Mathlib.Data.Set.Basic
import Mathlib.Tactic.Linarith
import Mathlib.Tactic.Positivity

namespace WeightedService

variable {κ : Type}

/-- What a party was served over its weight. -/
def normalized (served weight : κ → ℕ) (k : κ) : ℚ := served k / weight k

/-- No party of the set is ahead of another by more than `q` over its own weight. -/
def Balanced (q : ℕ) (weight served : κ → ℕ) (parties : Set κ) : Prop :=
  ∀ a ∈ parties, ∀ b ∈ parties,
    normalized served weight a ≤ normalized served weight b + q / weight a

variable {q : ℕ} {weight served served' : κ → ℕ} {parties : Set κ}

theorem normalized_nonneg (served weight : κ → ℕ) (k : κ) : 0 ≤ normalized served weight k := by
  unfold normalized
  positivity

/-- Before anything is served. -/
theorem balanced_zero (q : ℕ) (weight : κ → ℕ) (parties : Set κ) :
    Balanced q weight (fun _ => 0) parties := by
  intro a _ b _
  have hq : (0 : ℚ) ≤ q / weight a := by positivity
  simpa [normalized] using hq

theorem Balanced.congr (h : Balanced q weight served parties)
    (hsame : ∀ k ∈ parties, served' k = served k) : Balanced q weight served' parties := by
  intro a ha b hb
  unfold normalized
  rw [hsame a ha, hsame b hb]
  exact h a ha b hb

/-- **One serving** of a party with the least normalized service. -/
theorem Balanced.serve (h : Balanced q weight served parties) {k : κ} {amount : ℕ}
    (hleast : ∀ a ∈ parties, normalized served weight k ≤ normalized served weight a)
    (hamount : amount ≤ q) (hserved : served' k = served k + amount)
    (hothers : ∀ a ∈ parties, a ≠ k → served' a = served a) :
    Balanced q weight served' parties := by
  -- the party that is served gains one serving at most, and the others keep what they have
  have hgain : normalized served' weight k = normalized served weight k + amount / weight k := by
    unfold normalized
    rw [hserved]
    push_cast
    exact add_div _ _ _
  have hshare : (amount : ℚ) / weight k ≤ q / weight k := by
    have hle : (amount : ℚ) ≤ q := by exact_mod_cast hamount
    exact div_le_div_of_nonneg_right hle (by positivity)
  have hkeep : ∀ a ∈ parties, a ≠ k → normalized served' weight a = normalized served weight a := by
    intro a ha hne
    unfold normalized
    rw [hothers a ha hne]
  have hgrow : ∀ a ∈ parties, normalized served weight a ≤ normalized served' weight a := by
    intro a ha
    by_cases hak : a = k
    · subst hak
      rw [hgain]
      have hpos : (0 : ℚ) ≤ amount / weight a := by positivity
      linarith
    · exact (hkeep a ha hak).ge
  intro a ha b hb
  have hb' := hgrow b hb
  by_cases hak : a = k
  · subst hak
    have hmin := hleast b hb
    rw [hgain]
    linarith
  · have hbefore := h a ha b hb
    rw [hkeep a ha hak]
    linarith

end WeightedService
