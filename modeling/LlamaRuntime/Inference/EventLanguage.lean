/-
The language of a request's events.

What observers of the scheduler are promised about the events of one request,
apart from how the scheduler brings them about.

* `eventProtocol` — the words a finished request may have published;
* `phases` — the automaton that follows such a word event by event;
* `accepts_le_eventProtocol` — what it accepts is a word of the protocol;
* `eval_completed`, `one_terminal_of_eval` — the last events of an accepted word.
-/
import LlamaRuntime.Inference.Contracts
import Mathlib

namespace Inference

open SchedulerEventKind Computability RegularExpression

/-- The events of a finished request. -/
def eventProtocol : RegularExpression SchedulerEventKind :=
  char ADMITTED *
    (1 + char SEQUENCE_OPENED * star (char PREFILL_COMPLETED) * star (char DECODE_COMPLETED) *
      (1 + char SEQUENCE_RELEASED)) *
    (char REQUEST_COMPLETED + char REQUEST_FAILED)

/-- A request has one terminal event. -/
def SchedulerEventKind.isTerminalKind : SchedulerEventKind → Bool
  | REQUEST_COMPLETED | REQUEST_FAILED => true
  | _ => false

/-- How far the events of a request have come. -/
inductive Phase where
  | fresh
  | admitted
  | opened
  | decoding
  | released
  | completed
  | failed
  | broken
  deriving DecidableEq

namespace Phase

def next : Phase → SchedulerEventKind → Phase
  | fresh, ADMITTED => admitted
  | admitted, SEQUENCE_OPENED => opened
  | admitted, REQUEST_FAILED => failed
  | opened, PREFILL_COMPLETED => opened
  | opened, DECODE_COMPLETED => decoding
  | opened, SEQUENCE_RELEASED => released
  | opened, REQUEST_FAILED => failed
  | decoding, DECODE_COMPLETED => decoding
  | decoding, SEQUENCE_RELEASED => released
  | decoding, REQUEST_FAILED => failed
  | released, REQUEST_COMPLETED => completed
  | released, REQUEST_FAILED => failed
  | _, _ => broken

/-- The request can still fail properly. -/
def Open : Phase → Prop
  | admitted | opened | decoding | released => True
  | _ => False

theorem next_failed_of_open {p : Phase} (h : p.Open) : p.next REQUEST_FAILED = failed := by
  cases p <;> first | rfl | exact h.elim

def openedWord : RegularExpression SchedulerEventKind :=
  char ADMITTED * char SEQUENCE_OPENED * star (char PREFILL_COMPLETED)

def decodingWord : RegularExpression SchedulerEventKind :=
  openedWord * star (char DECODE_COMPLETED)

def releasedWord : RegularExpression SchedulerEventKind :=
  decodingWord * char SEQUENCE_RELEASED

/-- The words that lead to a phase. -/
def word : Phase → RegularExpression SchedulerEventKind
  | fresh => 1
  | admitted => char ADMITTED
  | opened => openedWord
  | decoding => decodingWord
  | released => releasedWord
  | completed => releasedWord * char REQUEST_COMPLETED
  | failed => (char ADMITTED + (decodingWord + releasedWord)) * char REQUEST_FAILED
  | broken => 0

theorem opened_le_decoding : openedWord.matches' ≤ decodingWord.matches' := by
  intro w hw
  have h : w ++ [] ∈ openedWord.matches' * (star (char DECODE_COMPLETED)).matches' :=
    Language.append_mem_mul hw (Language.nil_mem_kstar _)
  rwa [List.append_nil] at h

/-- One more event of a repeated kind. -/
theorem append_mem_star {L : Language SchedulerEventKind} {k : SchedulerEventKind}
    {w : List SchedulerEventKind} (h : w ∈ L * ({[k]} : Language SchedulerEventKind)∗) :
    w ++ [k] ∈ L * ({[k]} : Language SchedulerEventKind)∗ := by
  have happend : w ++ [k] ∈ L * ({[k]} : Language SchedulerEventKind)∗ * {[k]} :=
    Language.append_mem_mul h rfl
  rw [mul_assoc] at happend
  exact mul_le_mul_right kstar_mul_le_kstar L happend

/-- What one event adds to the word. -/
theorem word_next {p : Phase} {k : SchedulerEventKind} (hnext : p.next k ≠ broken)
    {w : List SchedulerEventKind} (hw : w ∈ (word p).matches') :
    w ++ [k] ∈ (word (p.next k)).matches' := by
  have hfailed : w ∈ (char ADMITTED + (decodingWord + releasedWord)).matches' →
      w ++ [REQUEST_FAILED] ∈ (word failed).matches' := fun h => Language.append_mem_mul h rfl
  cases p with
  | fresh =>
    have hnil : w = [] := hw
    cases k <;> first | exact absurd rfl hnext | skip
    rw [hnil]
    rfl
  | admitted =>
    cases k <;> first | exact absurd rfl hnext | skip
    · have h : w ++ [SEQUENCE_OPENED] ++ [] ∈ openedWord.matches' :=
        Language.append_mem_mul (Language.append_mem_mul hw rfl) (Language.nil_mem_kstar _)
      rwa [List.append_nil] at h
    · exact hfailed (.inl hw)
  | opened =>
    cases k <;> first | exact absurd rfl hnext | skip
    · exact append_mem_star hw
    · refine Language.append_mem_mul hw ?_
      exact (le_kstar : ({[DECODE_COMPLETED]} : Language SchedulerEventKind) ≤ _) rfl
    · exact Language.append_mem_mul (opened_le_decoding hw) rfl
    · exact hfailed (.inr (.inl (opened_le_decoding hw)))
  | decoding =>
    cases k <;> first | exact absurd rfl hnext | skip
    · exact append_mem_star hw
    · exact Language.append_mem_mul hw rfl
    · exact hfailed (.inr (.inl hw))
  | released =>
    cases k <;> first | exact absurd rfl hnext | skip
    · exact Language.append_mem_mul hw rfl
    · exact hfailed (.inr (.inr hw))
  | completed => cases k <;> exact absurd rfl hnext
  | failed => cases k <;> exact absurd rfl hnext
  | broken => cases k <;> exact absurd rfl hnext

end Phase

/-- The automaton that follows the events of a request. -/
def phases : DFA SchedulerEventKind Phase where
  step := Phase.next
  start := .fresh
  accept := {.completed, .failed}

theorem eval_append (w : List SchedulerEventKind) (k : SchedulerEventKind) :
    phases.eval (w ++ [k]) = (phases.eval w).next k := phases.eval_append_singleton w k

theorem mem_word_of_eval (w : List SchedulerEventKind) :
    phases.eval w ≠ .broken → w ∈ (phases.eval w).word.matches' := by
  induction w using List.reverseRecOn with
  | nil => exact fun _ => rfl
  | append_singleton w k ih =>
    intro h
    rw [eval_append] at h ⊢
    refine Phase.word_next h (ih fun hbroken => h ?_)
    rw [hbroken]
    cases k <;> rfl

/-- **The automaton accepts words of the protocol only.** -/
theorem accepts_le_eventProtocol : phases.accepts ≤ eventProtocol.matches' := by
  intro w hw
  have hmid : ∀ q : Phase, q.Open → q.word.matches' ≤ (char ADMITTED * (1 + char SEQUENCE_OPENED *
      star (char PREFILL_COMPLETED) * star (char DECODE_COMPLETED) *
        (1 + char SEQUENCE_RELEASED))).matches' := by
    intro q hq
    cases q with
    | fresh => exact hq.elim
    | completed => exact hq.elim
    | failed => exact hq.elim
    | broken => exact hq.elim
    | admitted =>
      simp only [Phase.word, matches'_mul, matches'_add, matches'_epsilon]
      exact le_mul_of_one_le_right' le_sup_left
    | opened =>
      refine Phase.opened_le_decoding.trans ?_
      simp only [Phase.decodingWord, Phase.openedWord, matches'_mul, matches'_add, matches'_epsilon,
        mul_assoc]
      gcongr
      refine le_trans ?_ le_add_self
      gcongr
      exact le_mul_of_one_le_right' le_self_add
    | decoding =>
      simp only [Phase.word, Phase.decodingWord, Phase.openedWord, matches'_mul, matches'_add,
        matches'_epsilon, mul_assoc]
      gcongr
      refine le_trans ?_ le_add_self
      gcongr
      exact le_mul_of_one_le_right' le_self_add
    | released =>
      simp only [Phase.word, Phase.releasedWord, Phase.decodingWord, Phase.openedWord, matches'_mul,
        matches'_add, matches'_epsilon, mul_assoc]
      gcongr
      refine le_trans ?_ le_add_self
      gcongr
      exact le_add_self
  have hend : phases.eval w = .completed ∨ phases.eval w = .failed := hw
  have hword := mem_word_of_eval w (by rcases hend with h | h <;> rw [h] <;> decide)
  rcases hend with h | h
  · rw [h] at hword
    exact mul_le_mul' (hmid .released trivial) (le_self_add : (char REQUEST_COMPLETED).matches' ≤ _)
      hword
  · rw [h] at hword
    refine mul_le_mul' ?_ (le_add_self : (char REQUEST_FAILED).matches' ≤ _) hword
    refine sup_le (hmid .admitted trivial) (sup_le (hmid .decoding trivial) (hmid .released trivial))

/-! ### The end of a word -/

/-- The phase before the last event, and that event. -/
theorem eval_last {w : List SchedulerEventKind} {p : Phase} (h : phases.eval w = p)
    (hp : p ≠ .fresh) : ∃ w' k, w = w' ++ [k] ∧ (phases.eval w').next k = p := by
  rcases List.eq_nil_or_concat w with rfl | ⟨w', k, hw⟩
  · exact absurd h.symm hp
  · rw [List.concat_eq_append] at hw
    refine ⟨w', k, hw, ?_⟩
    rw [← eval_append, ← hw]
    exact h

/-- Completion is announced right after the release. -/
theorem eval_completed {w : List SchedulerEventKind} (h : phases.eval w = .completed) :
    ∃ w', w = w' ++ [SEQUENCE_RELEASED, REQUEST_COMPLETED] := by
  obtain ⟨w₁, k₁, rfl, h₁⟩ := eval_last h (by decide)
  have hlast : phases.eval w₁ = .released ∧ k₁ = REQUEST_COMPLETED := by
    revert h₁
    cases phases.eval w₁ <;> cases k₁ <;> decide
  obtain ⟨w₂, k₂, rfl, h₂⟩ := eval_last hlast.1 (by decide)
  have hrelease : k₂ = SEQUENCE_RELEASED := by
    revert h₂
    cases phases.eval w₂ <;> cases k₂ <;> decide
  refine ⟨w₂, ?_⟩
  rw [hlast.2, hrelease, List.append_assoc]
  rfl

theorem last_of_completed {w : List SchedulerEventKind} {k : SchedulerEventKind}
    (h : phases.eval (w ++ [k]) = .completed) : k = REQUEST_COMPLETED := by
  rw [eval_append] at h
  revert h
  cases phases.eval w <;> cases k <;> decide

theorem last_of_failed {w : List SchedulerEventKind} {k : SchedulerEventKind}
    (h : phases.eval (w ++ [k]) = .failed) : k = REQUEST_FAILED := by
  rw [eval_append] at h
  revert h
  cases phases.eval w <;> cases k <;> decide

/-- Before the end no terminal event has been published. -/
theorem not_terminal_of_eval (w : List SchedulerEventKind) :
    phases.eval w ≠ .completed → phases.eval w ≠ .failed → phases.eval w ≠ .broken →
      ∀ k ∈ w, k.isTerminalKind = false := by
  induction w using List.reverseRecOn with
  | nil => exact fun _ _ _ k hk => absurd hk (by simp)
  | append_singleton w k ih =>
    rw [eval_append]
    intro h1 h2 h3
    have hstep : phases.eval w ≠ .completed ∧ phases.eval w ≠ .failed ∧ phases.eval w ≠ .broken ∧
        k.isTerminalKind = false := by
      revert h1 h2 h3
      cases phases.eval w <;> cases k <;> decide
    intro k' hk'
    rcases List.mem_append.mp hk' with hk' | hk'
    · exact ih hstep.1 hstep.2.1 hstep.2.2.1 k' hk'
    · rw [List.mem_singleton.mp hk']
      exact hstep.2.2.2

/-- A finished request has one terminal event, its last one. -/
theorem one_terminal_of_eval {w : List SchedulerEventKind}
    (h : phases.eval w = .completed ∨ phases.eval w = .failed) :
    ∃ w' k, w = w' ++ [k] ∧ k.isTerminalKind = true ∧ ∀ k' ∈ w', k'.isTerminalKind = false := by
  obtain ⟨w', k, rfl, hnext⟩ := eval_last (p := phases.eval w) rfl
    (by rcases h with h | h <;> rw [h] <;> decide)
  rw [← hnext] at h
  have hstep : phases.eval w' ≠ .completed ∧ phases.eval w' ≠ .failed ∧ phases.eval w' ≠ .broken ∧
      k.isTerminalKind = true := by
    revert h
    cases phases.eval w' <;> cases k <;> decide
  exact ⟨w', k, rfl, hstep.2.2.2, not_terminal_of_eval w' hstep.1 hstep.2.1 hstep.2.2.1⟩

example : [ADMITTED, SEQUENCE_OPENED, PREFILL_COMPLETED, DECODE_COMPLETED, DECODE_COMPLETED,
    SEQUENCE_RELEASED, REQUEST_COMPLETED] ∈ phases.accepts := .inl rfl

end Inference
