/-
What the native runtime does with a sampled token.

* `PhaseController.consume` — the phases of a reply and their token budgets;
* `Utf8Accumulator.append` — the complete characters among the bytes of a reply;
* `PhaseController.Counted` — what the counters of a controller say about the
  tokens it consumed;
* `Utf8Accumulator.append_spec` — what is completed is the UTF-8 of a text, and
  nothing is lost.
-/
import LlamaRuntime.Python.Utf8
import Mathlib.Data.List.Infix

namespace Native

abbrev Token := ℕ

/-- `ReasoningPhase` -/
inductive Phase where
  | expectReasoningStart | reasoning | final | done | error
  deriving DecidableEq

inductive ControllerAction where
  | none | reasoningStarted | activateFinalGrammar | completed | failed
  deriving DecidableEq

/-- `ControllerResult`; nothing reads its phase. -/
structure ControllerResult where
  action : ControllerAction
  error : PyStr

/-- `ReasoningPhaseController`, with a required start marker. -/
structure PhaseController where
  startMarker : List Token
  endMarker : List Token
  tail : List Token
  reasoningBudget : ℕ
  finalBudget : ℕ
  totalBudget : ℕ
  phase : Phase
  sampled : ℕ
  reasoning : ℕ
  final : ℕ

namespace PhaseController

/-- The constructor; the text is that of the exception. -/
def make (startMarker endMarker : List Token) (reasoningBudget finalBudget totalBudget : ℕ) :
    Except PyStr PhaseController :=
  if startMarker = [] ∨ endMarker = [] ∨ startMarker = endMarker then
    .error (py "marker sequences must be non-empty and distinct")
  else if totalBudget < reasoningBudget ∨ totalBudget < finalBudget ∨
      reasoningBudget + finalBudget < totalBudget then
    .error (py "invalid token budget envelope")
  else
    .ok
      { startMarker
        endMarker
        tail := []
        reasoningBudget
        finalBudget
        totalBudget
        phase := .expectReasoningStart
        sampled := 0
        reasoning := 0
        final := 0 }

/-- `remember` -/
def remember (c : PhaseController) (token : Token) : PhaseController :=
  let tail := c.tail ++ [token]
  { c with
    tail := if max c.startMarker.length c.endMarker.length < tail.length then tail.tail else tail }

/-- `suffix_is` -/
def suffixIs (c : PhaseController) (marker : List Token) : Bool := marker <:+ c.tail

/-- `fail` -/
def fail (c : PhaseController) (reason : String) : PhaseController × ControllerResult :=
  ({ c with phase := .error }, ⟨.failed, py reason⟩)

/-- The counters of `consume`, and what it fails with if one passes its budget. -/
def count (c : PhaseController) (eog : Bool) : PhaseController × Option String :=
  let c := { c with sampled := c.sampled + 1 }
  if c.totalBudget < c.sampled then (c, some "total_budget_exhausted")
  else if c.phase ≠ .final then
    let c := { c with reasoning := c.reasoning + 1 }
    (c, if c.reasoningBudget < c.reasoning then some "reasoning_budget_exhausted" else none)
  else if eog then (c, none)
  else
    let c := { c with final := c.final + 1 }
    (c, if c.finalBudget < c.final then some "final_budget_exhausted" else none)

/-- What `consume` does with a token that was counted. -/
def advance (c : PhaseController) (eog grammarAccepting : Bool) :
    PhaseController × ControllerResult :=
  if eog then
    if c.phase ≠ .final then c.fail "eog_before_reasoning_end"
    else if ¬ grammarAccepting then c.fail "eog_before_grammar_accepting"
    else ({ c with phase := .done }, ⟨.completed, []⟩)
  else
    let start := c.suffixIs c.startMarker
    let finish := c.suffixIs c.endMarker
    match c.phase with
    | .expectReasoningStart =>
      if finish then c.fail "reasoning_end_before_start"
      else if start then ({ c with phase := .reasoning }, ⟨.reasoningStarted, []⟩)
      else (c, ⟨.none, []⟩)
    | .reasoning =>
      if start then c.fail "duplicate_reasoning_start"
      else if finish then ({ c with phase := .final }, ⟨.activateFinalGrammar, []⟩)
      else (c, ⟨.none, []⟩)
    | .final =>
      if start || finish then c.fail "reasoning_marker_after_final" else (c, ⟨.none, []⟩)
    | _ => (c, ⟨.none, []⟩)

/-- `consume` -/
def consume (c : PhaseController) (token : Token) (eog grammarAccepting : Bool) :
    PhaseController × ControllerResult :=
  if c.phase = .done ∨ c.phase = .error then c.fail "token received after terminal state"
  else
    match c.count eog with
    | (c, some reason) => c.fail reason
    | (c, none) => (c.remember token).advance eog grammarAccepting

end PhaseController

/-- `grammar_acceptance_proven`, of a sample of the final grammar or of none. -/
def grammarAcceptanceProven (eog finalGrammar : Bool) : Bool := eog && finalGrammar

/-! ### Characters -/

/-- The first byte of a character: the number of its bytes, the bits it holds, and the
least code point with so many bytes. -/
def leadByte (first : ℕ) : Option (ℕ × ℕ × ℕ) :=
  if first ≤ 0x7F then some (1, first, 0)
  else if 0xC2 ≤ first ∧ first ≤ 0xDF then some (2, first % 0x20, 0x80)
  else if 0xE0 ≤ first ∧ first ≤ 0xEF then some (3, first % 0x10, 0x800)
  else if 0xF0 ≤ first ∧ first ≤ 0xF4 then some (4, first % 0x08, 0x10000)
  else none

/-- The bytes that continue a character, and the code point they complete. -/
def continueChar : ℕ → ℕ → List UInt8 → Option ℕ
  | n + 1, codePoint, byte :: rest =>
    if 0x80 ≤ byte.toNat ∧ byte.toNat ≤ 0xBF then
      continueChar n (codePoint * 0x40 + byte.toNat % 0x40) rest
    else none
  | 0, codePoint, _ => some codePoint
  | _ + 1, _, [] => none

/-- What stands at the head of some bytes. -/
inductive NextChar where
  | invalid
  | incomplete
  | complete (width : ℕ)
  deriving DecidableEq

/-- One round of the loop of `append`. -/
def nextChar (first : UInt8) (rest : List UInt8) : NextChar :=
  match leadByte first.toNat with
  | none => .invalid
  | some (width, bits, minimum) =>
    if rest.length + 1 < width then .incomplete
    else
      match continueChar (width - 1) bits rest with
      | none => .invalid
      | some codePoint =>
        if codePoint < minimum ∨ 0x10FFFF < codePoint ∨
            0xD800 ≤ codePoint ∧ codePoint ≤ 0xDFFF then .invalid
        else .complete width

/-- The complete characters at the head of some bytes, and what follows them; `none`
where the bytes are no UTF-8.  As much fuel as there are bytes is enough. -/
def splitChars : ℕ → List UInt8 → Option (List UInt8 × List UInt8)
  | fuel + 1, first :: rest =>
    match nextChar first rest with
    | .invalid => none
    | .incomplete => some ([], first :: rest)
    | .complete width =>
      (splitChars fuel ((first :: rest).drop width)).map fun split =>
        ((first :: rest).take width ++ split.1, split.2)
  | _, bytes => some ([], bytes)

structure Utf8Accumulator where
  valid : Bool
  pending : List UInt8

namespace Utf8Accumulator

def empty : Utf8Accumulator := ⟨true, []⟩

/-- `append`: the bytes that were completed, or `none` if they are invalid. -/
def append (u : Utf8Accumulator) (bytes : List UInt8) : Utf8Accumulator × Option (List UInt8) :=
  if u.valid = false then (u, none)
  else
    let pending := u.pending ++ bytes
    match splitChars pending.length pending with
    | none => (⟨false, pending⟩, none)
    | some (completed, rest) => (⟨true, rest⟩, some completed)

/-- `finish` -/
def finish (u : Utf8Accumulator) : Bool := u.valid && u.pending.isEmpty

end Utf8Accumulator

/-! ### What the counters say -/

namespace PhaseController

/-- The reasons a controller fails with. -/
def failures : List String :=
  ["token received after terminal state", "total_budget_exhausted", "reasoning_budget_exhausted",
    "final_budget_exhausted", "eog_before_reasoning_end", "eog_before_grammar_accepting",
    "reasoning_end_before_start", "duplicate_reasoning_start", "reasoning_marker_after_final"]

/-- Tokens may still come. -/
def Open (c : PhaseController) : Prop := c.phase ≠ .done ∧ c.phase ≠ .error

/-- What `consume` does with a token that comes within the total budget. -/
structure Consumed (c : PhaseController) (eog : Bool) (result : PhaseController × ControllerResult) :
    Prop where
  sampled : result.1.sampled = c.sampled + 1
  reasoning : result.1.reasoning = c.reasoning + if c.phase = .final then 0 else 1
  final : result.1.final = c.final + if c.phase = .final ∧ eog = false then 1 else 0
  totalBudget : result.1.totalBudget = c.totalBudget
  open_of : result.2.action ≠ .failed → result.2.action ≠ .completed → result.1.Open
  reason : result.2.action = .failed → ∃ reason ∈ failures, result.2.error = py reason

theorem Consumed.fail {c c' : PhaseController} {eog : Bool} {reason : String}
    (h : Consumed c eog (c', ⟨.completed, []⟩)) (hreason : reason ∈ failures) :
    Consumed c eog (c'.fail reason) :=
  ⟨h.sampled, h.reasoning, h.final, h.totalBudget, fun hf => absurd rfl hf,
    fun _ => ⟨reason, hreason, rfl⟩⟩

theorem Consumed.phase {c c' : PhaseController} {eog : Bool}
    (h : Consumed c eog (c', ⟨.completed, []⟩)) {phase : Phase} {action : ControllerAction}
    (hopen : action ≠ .completed → phase ≠ .done ∧ phase ≠ .error) (hfailed : action ≠ .failed) :
    Consumed c eog ({ c' with phase := phase }, ⟨action, []⟩) :=
  ⟨h.sampled, h.reasoning, h.final, h.totalBudget, fun _ => hopen, fun hf => absurd hf hfailed⟩

/-- Only the phase and the action depend on what the token is. -/
theorem advance_consumed {c c' : PhaseController} {eog : Bool} (accepting : Bool)
    (h : Consumed c eog (c', ⟨.completed, []⟩)) (hopen : c'.Open) :
    Consumed c eog (c'.advance eog accepting) := by
  have hstay : Consumed c eog (c', ⟨.none, []⟩) := h.phase (fun _ => hopen) (by simp)
  unfold advance
  by_cases heog : eog = true
  · rw [if_pos heog]
    split_ifs with hphase haccepting
    · exact h.fail (by simp [failures])
    · exact h.phase (fun hc => absurd rfl hc) (by simp)
    · exact h.fail (by simp [failures])
  · rw [if_neg heog]
    dsimp only
    split
    · split_ifs with hfinish hstart
      · exact h.fail (by simp [failures])
      · exact h.phase (fun _ => by simp) (by simp)
      · exact hstay
    · split_ifs with hstart hfinish
      · exact h.fail (by simp [failures])
      · exact h.phase (fun _ => by simp) (by simp)
      · exact hstay
    · split_ifs with hmarker
      · exact h.fail (by simp [failures])
      · exact hstay
    · exact hstay

theorem consume_spec {c : PhaseController} (hopen : c.Open) (hbudget : c.sampled < c.totalBudget)
    (token : Token) (eog accepting : Bool) : Consumed c eog (c.consume token eog accepting) := by
  have hterminal : ¬ (c.phase = .done ∨ c.phase = .error) := fun h => h.elim hopen.1 hopen.2
  have htotal : ¬ c.totalBudget < c.sampled + 1 := by omega
  unfold consume
  rw [if_neg hterminal]
  unfold count
  dsimp only
  rw [if_neg htotal]
  by_cases hphase : c.phase = .final
  · rw [if_neg (not_not.mpr hphase)]
    cases eog with
    | true =>
      refine advance_consumed accepting ⟨rfl, ?_, ?_, rfl, fun _ hc => absurd rfl hc, ?_⟩ hopen
      · simp [remember, hphase]
      · simp [remember]
      · exact fun hf => absurd hf (by simp)
    | false =>
      have hcounted : Consumed c false
          ({ c with sampled := c.sampled + 1, final := c.final + 1 }, ⟨.completed, []⟩) := by
        refine ⟨rfl, ?_, ?_, rfl, fun _ hc => absurd rfl hc, fun hf => absurd hf (by simp)⟩
        · simp [hphase]
        · simp [hphase]
      rw [if_neg Bool.false_ne_true]
      by_cases hfinal : c.finalBudget < c.final + 1
      · rw [if_pos hfinal]
        exact hcounted.fail (by simp [failures])
      · rw [if_neg hfinal]
        refine advance_consumed accepting ⟨rfl, ?_, ?_, rfl, fun _ hc => absurd rfl hc, ?_⟩ hopen
        · simp [remember, hphase]
        · simp [remember, hphase]
        · exact fun hf => absurd hf (by simp)
  · rw [if_pos hphase]
    have hcounted : Consumed c eog
        ({ c with sampled := c.sampled + 1, reasoning := c.reasoning + 1 }, ⟨.completed, []⟩) := by
      refine ⟨rfl, ?_, ?_, rfl, fun _ hc => absurd rfl hc, fun hf => absurd hf (by simp)⟩
      · simp [hphase]
      · simp [hphase]
    by_cases hreasoning : c.reasoningBudget < c.reasoning + 1
    · rw [if_pos hreasoning]
      exact hcounted.fail (by simp [failures])
    · rw [if_neg hreasoning]
      refine advance_consumed accepting ⟨rfl, ?_, ?_, rfl, fun _ hc => absurd rfl hc, ?_⟩ hopen
      · simp [remember, hphase]
      · simp [remember, hphase]
      · exact fun hf => absurd hf (by simp)

end PhaseController

/-! ### What is completed is text -/

theorem continueChar_zero {codePoint value : ℕ} {rest : List UInt8}
    (h : continueChar 0 codePoint rest = some value) : value = codePoint := by
  rw [continueChar] at h
  exact (Option.some_inj.mp h).symm

theorem continueChar_succ {n codePoint value : ℕ} {rest : List UInt8}
    (h : continueChar (n + 1) codePoint rest = some value) :
    ∃ byte rest', rest = byte :: rest' ∧ 0x80 ≤ byte.toNat ∧ byte.toNat ≤ 0xBF ∧
      continueChar n (codePoint * 0x40 + byte.toNat % 0x40) rest' = some value := by
  cases rest with
  | nil => exact absurd h (by simp [continueChar])
  | cons byte rest' =>
    rw [continueChar] at h
    split_ifs at h with hbyte
    exact ⟨byte, rest', rfl, hbyte.1, hbyte.2, h⟩

/-- What the loop checked of a complete character. -/
theorem nextChar_checks {first : UInt8} {rest : List UInt8} {width : ℕ}
    (h : nextChar first rest = .complete width) :
    ∃ bits minimum value, leadByte first.toNat = some (width, bits, minimum) ∧
      continueChar (width - 1) bits rest = some value ∧ minimum ≤ value ∧ value < 0x110000 ∧
      ¬ (0xD800 ≤ value ∧ value ≤ 0xDFFF) := by
  unfold nextChar at h
  cases hlead : leadByte first.toNat with
  | none =>
    rw [hlead] at h
    exact absurd h (by simp)
  | some lead =>
    obtain ⟨width', bits, minimum⟩ := lead
    rw [hlead] at h
    dsimp only at h
    by_cases hlength : rest.length + 1 < width'
    · rw [if_pos hlength] at h
      exact absurd h (by simp)
    rw [if_neg hlength] at h
    cases hvalue : continueChar (width' - 1) bits rest with
    | none =>
      rw [hvalue] at h
      exact absurd h (by simp)
    | some value =>
      rw [hvalue] at h
      dsimp only at h
      split_ifs at h with hrange
      obtain rfl := NextChar.complete.inj h
      rw [not_or, not_or] at hrange
      exact ⟨bits, minimum, value, rfl, hvalue, by omega, by omega, hrange.2.2⟩

theorem ofNat_eq_of_toNat {b : UInt8} {v : ℕ} (h : v = b.toNat) : UInt8.ofNat v = b := by
  rw [h]
  exact UInt8.ofNat_toNat

/-- A complete character at the head of some bytes is the UTF-8 of a code point. -/
theorem nextChar_complete {first : UInt8} {rest : List UInt8} {width : ℕ}
    (h : nextChar first rest = .complete width) :
    ∃ c : CodePoint, ¬ c.IsSurrogate ∧ (first :: rest).take width = c.utf8Bytes := by
  obtain ⟨bits, minimum, value, hlead, hvalue, hminimum, hmaximum, hsurrogate⟩ := nextChar_checks h
  refine ⟨⟨value, hmaximum⟩, hsurrogate, ?_⟩
  have hfirst := first.toNat_lt
  unfold leadByte at hlead
  unfold CodePoint.utf8Bytes
  dsimp only
  -- one case for each number of bytes
  split_ifs at hlead with h₁ h₂ h₃ h₄
  all_goals
    obtain ⟨rfl, rfl, rfl⟩ : _ = width ∧ _ = bits ∧ _ = minimum := by simpa using hlead
  · obtain rfl := continueChar_zero hvalue
    rw [if_pos (by omega), ofNat_eq_of_toNat rfl]
    rfl
  · obtain ⟨b, rest, rfl, hb, hb', hvalue⟩ := continueChar_succ hvalue
    obtain rfl := continueChar_zero hvalue
    rw [if_neg (by omega), if_pos (by omega), ofNat_eq_of_toNat (b := first) (by omega),
      ofNat_eq_of_toNat (b := b) (by omega)]
    rfl
  · obtain ⟨b, rest, rfl, hb, hb', hvalue⟩ := continueChar_succ hvalue
    obtain ⟨d, rest, rfl, hd, hd', hvalue⟩ := continueChar_succ hvalue
    obtain rfl := continueChar_zero hvalue
    rw [if_neg (by omega), if_neg (by omega), if_pos (by omega),
      ofNat_eq_of_toNat (b := first) (by omega), ofNat_eq_of_toNat (b := b) (by omega),
      ofNat_eq_of_toNat (b := d) (by omega)]
    rfl
  · obtain ⟨b, rest, rfl, hb, hb', hvalue⟩ := continueChar_succ hvalue
    obtain ⟨d, rest, rfl, hd, hd', hvalue⟩ := continueChar_succ hvalue
    obtain ⟨e, rest, rfl, he, he', hvalue⟩ := continueChar_succ hvalue
    obtain rfl := continueChar_zero hvalue
    rw [if_neg (by omega), if_neg (by omega), if_neg (by omega),
      ofNat_eq_of_toNat (b := first) (by omega), ofNat_eq_of_toNat (b := b) (by omega),
      ofNat_eq_of_toNat (b := d) (by omega), ofNat_eq_of_toNat (b := e) (by omega)]
    rfl

/-- The complete characters are a text, and the rest is what follows them. -/
theorem splitChars_spec {fuel : ℕ} {bytes completed rest : List UInt8}
    (h : splitChars fuel bytes = some (completed, rest)) :
    completed ++ rest = bytes ∧
      ∃ text : PyStr, (∀ c ∈ text, ¬ c.IsSurrogate) ∧ completed = text.flatMap CodePoint.utf8Bytes := by
  induction fuel generalizing bytes completed rest with
  | zero =>
    obtain ⟨rfl, rfl⟩ := Prod.mk.inj (Option.some_inj.mp h)
    exact ⟨rfl, [], by simp, rfl⟩
  | succ fuel ih =>
    cases bytes with
    | nil =>
      obtain ⟨rfl, rfl⟩ := Prod.mk.inj (Option.some_inj.mp h)
      exact ⟨rfl, [], by simp, rfl⟩
    | cons first tail =>
      rw [splitChars] at h
      cases hnext : nextChar first tail with
      | invalid =>
        rw [hnext] at h
        exact absurd h (by simp)
      | incomplete =>
        rw [hnext] at h
        obtain ⟨rfl, rfl⟩ := Prod.mk.inj (Option.some_inj.mp h)
        exact ⟨rfl, [], by simp, rfl⟩
      | complete width =>
        rw [hnext] at h
        obtain ⟨⟨completed', rest'⟩, hsplit, hsame⟩ := Option.map_eq_some_iff.mp h
        obtain ⟨rfl, rfl⟩ := Prod.mk.inj hsame
        obtain ⟨hbytes, text, htext, rfl⟩ := ih hsplit
        obtain ⟨c, hc, hchar⟩ := nextChar_complete hnext
        refine ⟨?_, c :: text, ?_, ?_⟩
        · rw [List.append_assoc, hbytes, List.take_append_drop]
        · intro d hd
          rcases List.mem_cons.mp hd with rfl | hd
          · exact hc
          · exact htext d hd
        · rw [List.flatMap_cons, hchar]

/-- What `append` completes is a text, and no byte is lost. -/
theorem Utf8Accumulator.append_spec {u u' : Utf8Accumulator} {bytes completed : List UInt8}
    (h : u.append bytes = (u', some completed)) :
    u.pending ++ bytes = completed ++ u'.pending ∧
      ∃ text : PyStr, (∀ c ∈ text, ¬ c.IsSurrogate) ∧ completed = text.flatMap CodePoint.utf8Bytes := by
  unfold append at h
  split_ifs at h with hvalid
  · exact absurd (Prod.mk.inj h).2 (by simp)
  · dsimp only at h
    cases hsplit : splitChars (u.pending ++ bytes).length (u.pending ++ bytes) with
    | none =>
      rw [hsplit] at h
      exact absurd (Prod.mk.inj h).2 (by simp)
    | some split =>
      obtain ⟨completed', rest⟩ := split
      rw [hsplit] at h
      obtain ⟨rfl, hcompleted⟩ := Prod.mk.inj h
      obtain rfl := Option.some_inj.mp hcompleted
      obtain ⟨hbytes, htext⟩ := splitChars_spec hsplit
      exact ⟨hbytes.symm, htext⟩

end Native
