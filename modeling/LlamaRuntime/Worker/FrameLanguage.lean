/-
The language of the frames of one request.

* `letters_mul`, `letters_star_mul` — the first letter of a word that begins with
  letters of a set, once or any number of times;
* `frameProtocol` — the words of frame kinds a worker may send for a request;
* `Stage` — how far such a word has come, and `Stage.words`, what may follow;
* `mem_words` — a word is in the language exactly when it can be followed kind by
  kind from stage to stage.
-/
import Mathlib

/-! ### First letters -/

section Letters

open Computability

variable {α : Type} {K : Set α} {L : Language α} {a : α} {w : List α}

/-- The words of one letter of a set. -/
def letters (K : Set α) : Language α := {w | ∃ a ∈ K, w = [a]}

theorem cons_mem_letters_mul : a :: w ∈ letters K * L ↔ a ∈ K ∧ w ∈ L := by
  constructor
  · intro h
    obtain ⟨x, hx, y, hy, heq⟩ := Language.mem_mul.mp h
    obtain ⟨b, hb, rfl⟩ : ∃ b ∈ K, x = [b] := hx
    obtain ⟨rfl, rfl⟩ := List.cons.inj heq
    exact ⟨hb, hy⟩
  · rintro ⟨ha, hw⟩
    exact Language.append_mem_mul (show [a] ∈ letters K from ⟨a, ha, rfl⟩) hw

theorem nil_notMem_letters_mul : [] ∉ letters K * L := by
  intro h
  obtain ⟨x, hx, y, -, heq⟩ := Language.mem_mul.mp h
  obtain ⟨b, -, rfl⟩ : ∃ b ∈ K, x = [b] := hx
  exact absurd heq (by simp)

/-- A repetition is over, or goes on with one more letter. -/
theorem kstar_mul_eq (K L : Language α) : K∗ * L = L + K * (K∗ * L) := by
  calc K∗ * L = (1 + K * K∗) * L := by rw [Language.one_add_self_mul_kstar_eq_kstar]
    _ = L + K * (K∗ * L) := by rw [add_mul, one_mul, mul_assoc]

theorem cons_mem_letters_kstar_mul :
    a :: w ∈ (letters K)∗ * L ↔ a :: w ∈ L ∨ a ∈ K ∧ w ∈ (letters K)∗ * L := by
  have h : a :: w ∈ (letters K)∗ * L ↔ a :: w ∈ L + letters K * ((letters K)∗ * L) := by
    rw [← kstar_mul_eq]
  rw [h, Language.mem_add, cons_mem_letters_mul]

theorem nil_mem_letters_kstar_mul : [] ∈ (letters K)∗ * L ↔ [] ∈ L := by
  rw [kstar_mul_eq, Language.mem_add, or_iff_left nil_notMem_letters_mul]

theorem letters_singleton (a : α) : letters {a} = ({[a]} : Language α) := by
  ext w
  show (∃ b ∈ ({a} : Set α), w = [b]) ↔ w = [a]
  simp

theorem letters_insert (a : α) (K : Set α) :
    letters (insert a K) = ({[a]} : Language α) + letters K := by
  ext w
  show (∃ b ∈ insert a K, w = [b]) ↔ w ∈ ({[a]} : Language α) + letters K
  rw [Language.mem_add]
  show _ ↔ w = [a] ∨ ∃ b ∈ K, w = [b]
  simp

end Letters

namespace Worker

open RegularExpression Computability

/-- The kinds of frames a request may see; `ready` belongs to the start of the
process. -/
inductive FrameKind where
  | started
  | phase
  | finalDelta
  | progress
  | heartbeat
  | completed
  | failed
  deriving DecidableEq

namespace FrameKind

/-- The frame ends its request. -/
def isTerminal : FrameKind → Bool
  | completed | failed => true
  | _ => false

end FrameKind

open FrameKind

/-- After the final phase: deltas and telemetry, and then the end. -/
def finalPart : RegularExpression FrameKind :=
  star (char finalDelta + (char progress + char heartbeat)) * (1 + (char completed + char failed))

/-- After the start: telemetry, and then a failure or the final phase. -/
def startedPart : RegularExpression FrameKind :=
  star (char progress + char heartbeat) * (1 + (char failed + char phase * finalPart))

/-- The frames of a request as far as they have come. -/
def frameProtocol : RegularExpression FrameKind := 1 + char started * startedPart

/-- How far the frames of a request have come. -/
inductive Stage where
  | fresh
  | running
  | answering
  | ended
  deriving DecidableEq

namespace Stage

def next : Stage → FrameKind → Option Stage
  | fresh, .started => some running
  | running, .progress | running, .heartbeat => some running
  | running, .phase => some answering
  | running, .failed => some ended
  | answering, .finalDelta | answering, .progress | answering, .heartbeat => some answering
  | answering, .completed | answering, .failed => some ended
  | _, _ => none

/-- The stage a word of kinds leads to. -/
def after (s : Stage) (kinds : List FrameKind) : Option Stage := kinds.foldlM next s

/-- What may follow at a stage. -/
def words : Stage → RegularExpression FrameKind
  | fresh => frameProtocol
  | running => startedPart
  | answering => finalPart
  | ended => 1

theorem matches_telemetry :
    (char progress + char heartbeat).matches' = letters {progress, heartbeat} := by
  rw [letters_insert, letters_singleton]
  rfl

theorem matches_finalFrames :
    (char finalDelta + (char progress + char heartbeat)).matches'
      = letters {finalDelta, progress, heartbeat} := by
  rw [letters_insert, ← matches_telemetry]
  rfl

theorem nil_mem_words (s : Stage) : [] ∈ (words s).matches' := by
  have hone : ∀ L : Language FrameKind, [] ∈ 1 + L := fun L => .inl rfl
  cases s with
  | fresh => exact hone _
  | running =>
    show [] ∈ (char progress + char heartbeat).matches'∗ * _
    rw [matches_telemetry, nil_mem_letters_kstar_mul]
    exact hone _
  | answering =>
    show [] ∈ (char finalDelta + (char progress + char heartbeat)).matches'∗ * _
    rw [matches_finalFrames, nil_mem_letters_kstar_mul]
    exact hone _
  | ended => rfl

/-- No word of `1` has a first letter. -/
theorem cons_mem_one_add {k : FrameKind} {w : List FrameKind} {L : Language FrameKind} :
    k :: w ∈ 1 + L ↔ k :: w ∈ L := by
  rw [Language.mem_add, or_iff_right (show k :: w ∉ (1 : Language FrameKind) from nofun)]

theorem cons_mem_char {k k' : FrameKind} {w : List FrameKind} :
    k :: w ∈ (char k').matches' ↔ k = k' ∧ w = [] := by
  show k :: w = [k'] ↔ _
  simp

theorem cons_mem_char_mul {k k' : FrameKind} {w : List FrameKind} {L : Language FrameKind} :
    k :: w ∈ (char k').matches' * L ↔ k = k' ∧ w ∈ L := by
  show k :: w ∈ ({[k']} : Language FrameKind) * L ↔ _
  rw [← letters_singleton, cons_mem_letters_mul]
  rfl

/-- The first kind of a word is one the stage lets through, and the rest follows
from the stage it leads to. -/
theorem cons_mem_words {s : Stage} {k : FrameKind} {w : List FrameKind} :
    k :: w ∈ (words s).matches' ↔ ∃ t, next s k = some t ∧ w ∈ (words t).matches' := by
  have hended : w ∈ (words ended).matches' ↔ w = [] := Iff.rfl
  cases s with
  | fresh =>
    show k :: w ∈ 1 + (char started).matches' * startedPart.matches' ↔ _
    rw [cons_mem_one_add, cons_mem_char_mul]
    cases k <;> simp [next, words]
  | running =>
    show k :: w ∈ (char progress + char heartbeat).matches'∗ *
      (1 + ((char failed).matches' + (char phase).matches' * finalPart.matches')) ↔ _
    rw [matches_telemetry, cons_mem_letters_kstar_mul, cons_mem_one_add, Language.mem_add,
      cons_mem_char, cons_mem_char_mul, ← matches_telemetry]
    show _ ∨ _ ∧ w ∈ (words running).matches' ↔ _
    cases k with
    | phase =>
      simp only [next, reduceCtorEq, false_and, true_and, false_or, Option.some.injEq]
      simp [words]
    | _ => simp [next, hended]
  | answering =>
    show k :: w ∈ (char finalDelta + (char progress + char heartbeat)).matches'∗ *
      (1 + ((char completed).matches' + (char failed).matches')) ↔ _
    rw [matches_finalFrames, cons_mem_letters_kstar_mul, cons_mem_one_add, Language.mem_add,
      cons_mem_char, cons_mem_char, ← matches_finalFrames]
    show _ ∨ _ ∧ w ∈ (words answering).matches' ↔ _
    cases k <;> simp [next, hended]
  | ended =>
    have hleft : k :: w ∉ (words ended).matches' := nofun
    simp [hleft, next]

/-- A word may follow at a stage exactly when it leads on to some stage. -/
theorem mem_words {kinds : List FrameKind} :
    ∀ {s : Stage}, kinds ∈ (words s).matches' ↔ ∃ t, after s kinds = some t := by
  induction kinds with
  | nil => exact fun {s} => ⟨fun _ => ⟨s, rfl⟩, fun _ => nil_mem_words s⟩
  | cons k w ih =>
    intro s
    rw [cons_mem_words]
    constructor
    · rintro ⟨t, ht, hw⟩
      obtain ⟨u, hu⟩ := ih.mp hw
      refine ⟨u, ?_⟩
      rw [after, List.foldlM_cons, ht]
      exact hu
    · rintro ⟨u, hu⟩
      rw [after, List.foldlM_cons] at hu
      cases ht : next s k with
      | none =>
        rw [ht] at hu
        exact nomatch hu
      | some t =>
        rw [ht] at hu
        exact ⟨t, rfl, ih.mpr ⟨u, hu⟩⟩

theorem mem_frameProtocol {kinds : List FrameKind} :
    kinds ∈ frameProtocol.matches' ↔ ∃ t, after fresh kinds = some t := mem_words (s := fresh)

theorem after_append {s : Stage} {kinds : List FrameKind} {k : FrameKind} :
    after s (kinds ++ [k]) = (after s kinds).bind fun t => next t k := by
  rw [after, List.foldlM_append]
  simp [after]

/-- One more kind. -/
theorem snoc_mem_frameProtocol {kinds : List FrameKind} {k : FrameKind} :
    kinds ++ [k] ∈ frameProtocol.matches' ↔
      ∃ t u, after fresh kinds = some t ∧ next t k = some u := by
  rw [mem_frameProtocol, after_append]
  cases after fresh kinds with
  | none => simp
  | some t => simp

theorem next_ended (k : FrameKind) : next ended k = none := by cases k <;> rfl

theorem next_terminal {s t : Stage} {k : FrameKind} (h : next s k = some t) :
    t = ended ↔ k.isTerminal = true := by
  cases s <;> cases k <;> simp [next] at h <;> subst h <;> simp [isTerminal]

theorem after_ended (kinds : List FrameKind) {t : Stage} (h : after ended kinds = some t) :
    t = ended := by
  cases kinds with
  | nil => exact (Option.some_inj.mp h).symm
  | cons k rest =>
    rw [after, List.foldlM_cons, next_ended] at h
    exact nomatch h

/-- Nothing comes after a terminal frame. -/
theorem after_terminal {kinds : List FrameKind} {k : FrameKind} (hterminal : k.isTerminal = true) :
    ∀ {s t : Stage}, after s kinds = some t → k ∈ kinds → t = ended := by
  induction kinds with
  | nil => exact fun _ hk => absurd hk (by simp)
  | cons k' rest ih =>
    intro s t h hk
    rw [after, List.foldlM_cons] at h
    cases hnext : next s k' with
    | none =>
      rw [hnext] at h
      exact nomatch h
    | some u =>
      rw [hnext] at h
      have hrest : after u rest = some t := h
      rcases List.mem_cons.mp hk with rfl | hk
      · obtain rfl := (next_terminal hnext).mpr hterminal
        exact after_ended rest hrest
      · exact ih hrest hk

end Stage

end Worker
