/-
The phases of a reply, as the stream of its tokens asks for them.

The controller looks for a marker at the end of a tail that is as long as the longer
marker and is never emptied, so it finds whatever ends the whole stream, also across
the end of a phase.

* `EndsOnlyAt` — the prefixes of a stream that end with a marker;
* `Stage` — what a phase and the two counters say about the stream: where the start
  marker and the end marker have ended, and that they have ended nowhere else;
* `Reached` — the invariant: tail, counters and stage of a controller that has
  consumed some tokens and neither failed nor completed;
* `completed_sound` — what a completed reply has been;
* `completeness_fails`, `accepts_iff` — a reply may be rejected because its markers
  overlap each other or what is between them, and for no other reason.
-/
import LlamaRuntime.Native.PhaseController

namespace Native

/-- A sampled token, as it is given to `consume`. -/
structure Sample where
  token : Token
  eog : Bool
  accepting : Bool

namespace PhaseController

def feed (c : PhaseController) (x : Sample) : PhaseController × ControllerResult :=
  c.consume x.token x.eog x.accepting

/-- The controller after some tokens. -/
def run (c : PhaseController) (xs : List Sample) : PhaseController :=
  xs.foldl (fun c x => (c.feed x).1) c

theorem run_concat (c : PhaseController) (xs : List Sample) (x : Sample) :
    c.run (xs ++ [x]) = ((c.run xs).feed x).1 := by
  rw [run, List.foldl_append]
  rfl

theorem run_append (c : PhaseController) (xs ys : List Sample) :
    c.run (xs ++ ys) = (c.run xs).run ys := List.foldl_append

/-! ### Where a marker ends -/

/-- The prefixes of the tokens that end with the marker are those of the given lengths. -/
def EndsOnlyAt (marker ts : List Token) (places : ℕ → Prop) : Prop :=
  ∀ n ≤ ts.length, marker <:+ ts.take n ↔ places n

theorem endsOnlyAt_nil {marker : List Token} (hne : marker ≠ []) :
    EndsOnlyAt marker [] fun _ => False := by
  intro n _
  rw [List.take_nil, List.suffix_nil]
  exact ⟨hne, False.elim⟩

/-- One token more decides about one prefix more. -/
theorem EndsOnlyAt.concat {marker ts : List Token} {t : Token} {places places' : ℕ → Prop}
    (h : EndsOnlyAt marker ts places) (hold : ∀ n ≤ ts.length, places n ↔ places' n)
    (hnew : marker <:+ ts ++ [t] ↔ places' (ts.length + 1)) :
    EndsOnlyAt marker (ts ++ [t]) places' := by
  intro n hn
  rw [List.length_append, List.length_singleton] at hn
  rcases Nat.lt_or_eq_of_le hn with hlt | rfl
  · rw [List.take_append_of_le_length (by omega), h n (by omega), hold n (by omega)]
  · rw [List.take_of_length_le (by simp), hnew]

/-- The last tokens are enough to look for a marker that is no longer than they are. -/
theorem suffix_recent {marker ts : List Token} {limit : ℕ} (h : marker.length ≤ limit) :
    marker <:+ ts.drop (ts.length - limit) ↔ marker <:+ ts := by
  constructor
  · exact fun hs => hs.trans (List.drop_suffix _ ts)
  · intro hs
    refine List.suffix_of_suffix_length_le hs (List.drop_suffix _ ts) ?_
    have hle := hs.length_le
    rw [List.length_drop]
    omega

/-- `remember` keeps the last tokens. -/
theorem recent_concat (ts : List Token) (t : Token) {limit : ℕ} (hpos : 0 < limit) :
    (let tail := ts.drop (ts.length - limit) ++ [t]
      if limit < tail.length then tail.tail else tail) =
        (ts ++ [t]).drop ((ts ++ [t]).length - limit) := by
  dsimp only
  have hlength : (ts.drop (ts.length - limit) ++ [t]).length = min ts.length limit + 1 := by
    rw [List.length_append, List.length_drop, List.length_singleton]
    omega
  rw [hlength, List.length_append, List.length_singleton]
  by_cases hfull : limit ≤ ts.length
  · rw [if_pos (by omega), List.tail_append_of_ne_nil, List.tail_drop,
      List.drop_append_of_le_length (by omega)]
    · congr 2
      omega
    · rw [Ne, List.drop_eq_nil_iff]
      omega
  · have hzero : ts.length - limit = 0 := by omega
    have hzero' : ts.length + 1 - limit = 0 := by omega
    rw [if_neg (by omega), hzero, hzero']
    rfl

/-! ### The invariant -/

/-- What a phase and the counters of the reasoning and of the final reply say about the
tokens so far. -/
def Stage (startMarker endMarker ts : List Token) (phase : Phase) (reasoning final : ℕ) : Prop :=
  match phase with
  | .expectReasoningStart => reasoning = ts.length ∧ final = 0 ∧
      EndsOnlyAt startMarker ts (fun _ => False) ∧ EndsOnlyAt endMarker ts fun _ => False
  | .reasoning => reasoning = ts.length ∧ final = 0 ∧ ∃ i ≤ ts.length,
      EndsOnlyAt startMarker ts (fun n => n = i) ∧ EndsOnlyAt endMarker ts fun _ => False
  | .final => ∃ i j, i < j ∧ j ≤ ts.length ∧ reasoning = j ∧ final = ts.length - j ∧
      EndsOnlyAt startMarker ts (fun n => n = i) ∧ EndsOnlyAt endMarker ts fun n => n = j
  | .done => False
  | .error => False

/-- The counters are within their budgets. -/
structure Within (c : PhaseController) : Prop where
  sampled : c.sampled ≤ c.totalBudget
  reasoning : c.reasoning ≤ c.reasoningBudget
  final : c.final ≤ c.finalBudget

/-- The longer marker is kept. -/
def limit (c : PhaseController) : ℕ := max c.startMarker.length c.endMarker.length

/-- **The invariant**: the tokens have been consumed, and the reply goes on. -/
structure Reached (c₀ : PhaseController) (before : List Sample) (c : PhaseController) : Prop where
  startMarker : c.startMarker = c₀.startMarker
  endMarker : c.endMarker = c₀.endMarker
  reasoningBudget : c.reasoningBudget = c₀.reasoningBudget
  finalBudget : c.finalBudget = c₀.finalBudget
  totalBudget : c.totalBudget = c₀.totalBudget
  no_eog : ∀ x ∈ before, x.eog = false
  tail : c.tail = (before.map Sample.token).drop (before.length - c₀.limit)
  sampled : c.sampled = before.length
  within : c.Within
  stage : Stage c₀.startMarker c₀.endMarker (before.map Sample.token) c.phase c.reasoning c.final

/-- A controller that has been made. -/
structure Made (c : PhaseController) : Prop where
  start_ne : c.startMarker ≠ []
  end_ne : c.endMarker ≠ []
  distinct : c.startMarker ≠ c.endMarker
  reached : Reached c [] c

theorem make_made {startMarker endMarker : List Token}
    {reasoningBudget finalBudget totalBudget : ℕ} {c : PhaseController}
    (h : make startMarker endMarker reasoningBudget finalBudget totalBudget = .ok c) :
    c.Made ∧ c.startMarker = startMarker ∧ c.endMarker = endMarker ∧
      c.reasoningBudget = reasoningBudget ∧ c.finalBudget = finalBudget ∧
      c.totalBudget = totalBudget := by
  unfold make at h
  split_ifs at h with hmarkers hbudgets
  rw [not_or, not_or] at hmarkers
  obtain rfl := Except.ok.inj h
  refine ⟨⟨hmarkers.1, hmarkers.2.1, hmarkers.2.2, ⟨rfl, rfl, rfl, rfl, rfl, ?_, ?_, rfl, ?_, ?_⟩⟩,
    rfl, rfl, rfl, rfl, rfl⟩
  · exact fun x hx => absurd hx (by simp)
  · simp
  · exact ⟨Nat.zero_le _, Nat.zero_le _, Nat.zero_le _⟩
  · exact ⟨rfl, rfl, endsOnlyAt_nil hmarkers.1, endsOnlyAt_nil hmarkers.2.1⟩

theorem Reached.isOpen {c₀ c : PhaseController} {before : List Sample} (h : Reached c₀ before c) :
    c.Open := by
  have hstage := h.stage
  constructor
  · intro hdone
    rw [hdone] at hstage
    exact hstage
  · intro herror
    rw [herror] at hstage
    exact hstage

/-! ### One token -/

/-- The counters with one token more. -/
def counted (c : PhaseController) (eog : Bool) : PhaseController :=
  { c with
    sampled := c.sampled + 1
    reasoning := if c.phase = .final then c.reasoning else c.reasoning + 1
    final := if c.phase = .final ∧ eog = false then c.final + 1 else c.final }

/-- A token that is counted within the budgets is looked at; any other fails. -/
theorem feed_cases {c : PhaseController} (hopen : c.Open) (hw : c.Within) (x : Sample) :
    ((c.counted x.eog).Within ∧
      c.feed x = ((c.counted x.eog).remember x.token).advance x.eog x.accepting) ∨
    (¬ (c.counted x.eog).Within ∧ (c.feed x).2.action = .failed ∧ (c.feed x).1.phase = .error) := by
  have hterminal : ¬ (c.phase = .done ∨ c.phase = .error) := fun h => h.elim hopen.1 hopen.2
  unfold feed consume
  rw [if_neg hterminal]
  unfold count
  dsimp only
  by_cases htotal : c.totalBudget < c.sampled + 1
  · rw [if_pos htotal]
    exact .inr ⟨fun h => absurd h.sampled (by simp only [counted]; omega), rfl, rfl⟩
  rw [if_neg htotal]
  by_cases hphase : c.phase = .final
  · rw [if_neg (not_not.mpr hphase)]
    cases heog : x.eog with
    | true =>
      refine .inl ⟨⟨?_, ?_, ?_⟩, ?_⟩
      · simp only [counted]
        omega
      · simp only [counted, if_pos hphase]
        exact hw.reasoning
      · simp only [counted, hphase, Bool.true_eq_false, and_false, if_false]
        exact hw.final
      · simp [counted, hphase]
    | false =>
      rw [if_neg Bool.false_ne_true]
      by_cases hfinal : c.finalBudget < c.final + 1
      · rw [if_pos hfinal]
        refine .inr ⟨fun h => absurd h.final ?_, rfl, rfl⟩
        simp only [counted, hphase, true_and, if_true]
        omega
      · rw [if_neg hfinal]
        refine .inl ⟨⟨?_, ?_, ?_⟩, ?_⟩
        · simp only [counted]
          omega
        · simp only [counted, if_pos hphase]
          exact hw.reasoning
        · simp only [counted, hphase, true_and, if_true]
          omega
        · simp [counted, hphase]
  · rw [if_pos hphase]
    by_cases hreasoning : c.reasoningBudget < c.reasoning + 1
    · rw [if_pos hreasoning]
      refine .inr ⟨fun h => absurd h.reasoning ?_, rfl, rfl⟩
      simp only [counted, if_neg hphase]
      omega
    · rw [if_neg hreasoning]
      refine .inl ⟨⟨?_, ?_, ?_⟩, ?_⟩
      · simp only [counted]
        omega
      · simp only [counted, if_neg hphase]
        omega
      · simp only [counted, hphase, false_and, if_false]
        exact hw.final
      · simp [counted, hphase]

section token

variable {c₀ c : PhaseController} {before : List Sample} {x : Sample}

/-- The tail with one token more. -/
theorem Reached.tail_concat (hmade : c₀.Made) (h : Reached c₀ before c) (eog : Bool) :
    ((c.counted eog).remember x.token).tail =
      ((before ++ [x]).map Sample.token).drop ((before ++ [x]).length - c₀.limit) := by
  have hpos : 0 < c₀.limit := by
    have hstart := List.length_pos_iff.mpr hmade.start_ne
    unfold limit
    omega
  have hlimit : max c.startMarker.length c.endMarker.length = c₀.limit := by
    rw [h.startMarker, h.endMarker]
    rfl
  have hrecent := recent_concat (before.map Sample.token) x.token hpos
  rw [List.length_append, List.length_map, ← h.tail] at hrecent
  show (if max c.startMarker.length c.endMarker.length < (c.tail ++ [x.token]).length
    then (c.tail ++ [x.token]).tail else c.tail ++ [x.token]) = _
  have hlength : (before ++ [x]).length = before.length + [x.token].length := by simp
  rw [hlimit, hlength, List.map_append]
  exact hrecent

/-- A marker is found exactly where it ends the tokens so far. -/
theorem Reached.suffixIs_iff (hmade : c₀.Made) (h : Reached c₀ before c) (eog : Bool)
    {marker : List Token} (hm : marker.length ≤ c₀.limit) :
    ((c.counted eog).remember x.token).suffixIs marker = true ↔
      marker <:+ before.map Sample.token ++ [x.token] := by
  have hrecent := @suffix_recent marker ((before ++ [x]).map Sample.token) c₀.limit hm
  rw [List.length_map, ← h.tail_concat hmade eog] at hrecent
  unfold suffixIs
  rw [decide_eq_true_iff, hrecent, List.map_append]
  rfl

/-- The reply goes on, in a phase that fits the tokens. -/
theorem Reached.next (hmade : c₀.Made) (h : Reached c₀ before c) (hw : (c.counted false).Within)
    (heog : x.eog = false) {phase : Phase}
    (hstage : Stage c₀.startMarker c₀.endMarker (before.map Sample.token ++ [x.token]) phase
      (c.counted false).reasoning (c.counted false).final) :
    Reached c₀ (before ++ [x]) { (c.counted false).remember x.token with phase := phase } where
  startMarker := h.startMarker
  endMarker := h.endMarker
  reasoningBudget := h.reasoningBudget
  finalBudget := h.finalBudget
  totalBudget := h.totalBudget
  no_eog := by
    intro y hy
    rcases List.mem_append.mp hy with hy | hy
    · exact h.no_eog y hy
    · rw [List.mem_singleton.mp hy]
      exact heog
  tail := h.tail_concat hmade false
  sampled := by
    rw [List.length_append, ← h.sampled]
    rfl
  within := ⟨hw.sampled, hw.reasoning, hw.final⟩
  stage := by
    rw [List.map_append]
    exact hstage

/-- A marker that must not end here. -/
def Misplaced (startMarker endMarker ts : List Token) : Phase → Prop
  | .expectReasoningStart => endMarker <:+ ts
  | .reasoning => startMarker <:+ ts
  | _ => startMarker <:+ ts ∨ endMarker <:+ ts

/-- What becomes of a reply with one token more: it fails, and why; it is completed; or
it goes on. -/
inductive Fed (c₀ : PhaseController) (before : List Sample) (c : PhaseController) (x : Sample)
    (r : PhaseController × ControllerResult) : Prop where
  | failed (action : r.2.action = .failed) (phase : r.1.phase = .error)
      (why : (c.counted x.eog).Within →
        if x.eog then c.phase ≠ .final ∨ x.accepting = false
        else Misplaced c₀.startMarker c₀.endMarker (before.map Sample.token ++ [x.token]) c.phase)
  | completed (eog : x.eog = true) (accepting : x.accepting = true) (phase : c.phase = .final)
      (within : (c.counted true).Within) (action : r.2.action = .completed)
      (result : r.1 = { (c.counted true).remember x.token with phase := .done })
  | goesOn (eog : x.eog = false) (action : r.2.action ≠ .completed ∧ r.2.action ≠ .failed)
      (reached : Reached c₀ (before ++ [x]) r.1)

theorem Reached.fed (hmade : c₀.Made) (h : Reached c₀ before c) (x : Sample) :
    Fed c₀ before c x (c.feed x) := by
  rcases feed_cases h.isOpen h.within x with ⟨hw, heq⟩ | ⟨hw, haction, hphase⟩
  swap
  · exact .failed haction hphase fun hin => absurd hin hw
  rw [heq]
  cases heog : x.eog with
  | true =>
    rw [heog] at hw
    unfold advance
    rw [if_pos rfl]
    by_cases hphase : c.phase = .final
    · have hphase' : ¬ ((c.counted true).remember x.token).phase ≠ .final := not_not.mpr hphase
      rw [if_neg hphase']
      cases haccepting : x.accepting with
      | true =>
        rw [if_neg (not_not.mpr rfl)]
        exact .completed heog haccepting hphase hw rfl rfl
      | false =>
        rw [if_pos Bool.false_ne_true]
        refine .failed rfl rfl fun _ => ?_
        rw [heog, if_pos rfl]
        exact .inr haccepting
    · have hphase' : ((c.counted true).remember x.token).phase ≠ .final := hphase
      rw [if_pos hphase']
      refine .failed rfl rfl fun _ => ?_
      rw [heog, if_pos rfl]
      exact .inl hphase
  | false =>
    rw [heog] at hw
    set next := (c.counted false).remember x.token with hdef
    have hmarkers : next.startMarker = c₀.startMarker ∧ next.endMarker = c₀.endMarker :=
      ⟨h.startMarker, h.endMarker⟩
    have hstart : next.suffixIs next.startMarker = true ↔
        c₀.startMarker <:+ before.map Sample.token ++ [x.token] := by
      rw [hmarkers.1]
      exact h.suffixIs_iff hmade false (le_max_left ..)
    have hend : next.suffixIs next.endMarker = true ↔
        c₀.endMarker <:+ before.map Sample.token ++ [x.token] := by
      rw [hmarkers.2]
      exact h.suffixIs_iff hmade false (le_max_right ..)
    have hnext := fun phase => @Reached.next c₀ c before x hmade h hw heog phase
    rw [← hdef] at hnext
    have hfailed : ∀ reason, Misplaced c₀.startMarker c₀.endMarker
        (before.map Sample.token ++ [x.token]) c.phase → Fed c₀ before c x (next.fail reason) := by
      refine fun reason hwhy => .failed rfl rfl fun _ => ?_
      rw [heog]
      exact hwhy
    have hphase : next.phase = c.phase := rfl
    have hsame : ∀ phase, c.phase = phase → { next with phase := phase } = next := by
      rintro _ rfl
      rfl
    have hstage := h.stage
    unfold advance
    rw [if_neg Bool.false_ne_true, hphase]
    dsimp only
    generalize hts : before.map Sample.token = ts at hstart hend hnext hfailed hstage
    have hlength : (ts ++ [x.token]).length = ts.length + 1 := by simp
    cases hp : c.phase with
    | expectReasoningStart =>
      rw [hp] at hstage hfailed
      obtain ⟨hreasoning, hfinal, hs, he⟩ := hstage
      have hcounts : (c.counted false).reasoning = (ts ++ [x.token]).length ∧
          (c.counted false).final = 0 := by simp [counted, hp, hreasoning, hfinal]
      dsimp only
      by_cases hfinish : next.suffixIs next.endMarker = true
      · rw [if_pos hfinish]
        exact hfailed _ (hend.mp hfinish)
      have he' : EndsOnlyAt c₀.endMarker (ts ++ [x.token]) fun _ => False :=
        he.concat (fun _ _ => Iff.rfl) ⟨fun hm => hfinish (hend.mpr hm), False.elim⟩
      rw [if_neg hfinish]
      by_cases hbegin : next.suffixIs next.startMarker = true
      · rw [if_pos hbegin]
        refine .goesOn heog (by simp) (hnext .reasoning ⟨hcounts.1, hcounts.2, ts.length + 1,
          hlength.ge, hs.concat (fun n hn => ?_) ?_, he'⟩)
        · exact ⟨False.elim, fun heq => by omega⟩
        · exact ⟨fun _ => rfl, fun _ => hstart.mp hbegin⟩
      · rw [if_neg hbegin, ← hsame _ hp]
        exact .goesOn heog (by simp) (hnext .expectReasoningStart ⟨hcounts.1, hcounts.2,
          hs.concat (fun _ _ => Iff.rfl) ⟨fun hm => hbegin (hstart.mpr hm), False.elim⟩, he'⟩)
    | reasoning =>
      rw [hp] at hstage hfailed
      obtain ⟨hreasoning, hfinal, i, hi, hs, he⟩ := hstage
      have hcounts : (c.counted false).reasoning = (ts ++ [x.token]).length ∧
          (c.counted false).final = 0 := by simp [counted, hp, hreasoning, hfinal]
      dsimp only
      by_cases hbegin : next.suffixIs next.startMarker = true
      · rw [if_pos hbegin]
        exact hfailed _ (hstart.mp hbegin)
      have hs' : EndsOnlyAt c₀.startMarker (ts ++ [x.token]) fun n => n = i := by
        refine hs.concat (fun _ _ => Iff.rfl) ⟨fun hm => absurd (hstart.mpr hm) hbegin, fun heq => ?_⟩
        omega
      rw [if_neg hbegin]
      by_cases hfinish : next.suffixIs next.endMarker = true
      · rw [if_pos hfinish]
        refine .goesOn heog (by simp) (hnext .final ⟨i, ts.length + 1, by omega, hlength.ge,
          hcounts.1.trans hlength, by rw [hcounts.2, hlength, Nat.sub_self], hs',
          he.concat (fun n hn => ?_) ?_⟩)
        · exact ⟨False.elim, fun heq => by omega⟩
        · exact ⟨fun _ => rfl, fun _ => hend.mp hfinish⟩
      · rw [if_neg hfinish, ← hsame _ hp]
        exact .goesOn heog (by simp) (hnext .reasoning ⟨hcounts.1, hcounts.2, i, by omega, hs',
          he.concat (fun _ _ => Iff.rfl) ⟨fun hm => hfinish (hend.mpr hm), False.elim⟩⟩)
    | final =>
      rw [hp] at hstage hfailed
      obtain ⟨i, j, hij, hj, hreasoning, hfinal, hs, he⟩ := hstage
      have hcounts : (c.counted false).reasoning = j ∧
          (c.counted false).final = (ts ++ [x.token]).length - j := by
        simp only [counted, hp, hreasoning, hfinal, hlength, true_and, if_true]
        omega
      dsimp only
      by_cases hmarker : (next.suffixIs next.startMarker ||
          next.suffixIs next.endMarker) = true
      · rw [if_pos hmarker]
        refine hfailed _ ?_
        rcases Bool.or_eq_true_iff.mp hmarker with hm | hm
        · exact .inl (hstart.mp hm)
        · exact .inr (hend.mp hm)
      · rw [if_neg hmarker, ← hsame _ hp]
        rw [Bool.or_eq_true_iff, not_or] at hmarker
        refine .goesOn heog (by simp) (hnext .final ⟨i, j, hij, by omega, hcounts.1, hcounts.2,
          hs.concat (fun _ _ => Iff.rfl) ⟨fun hm => absurd (hstart.mpr hm) hmarker.1, fun heq => ?_⟩,
          he.concat (fun _ _ => Iff.rfl) ⟨fun hm => absurd (hend.mpr hm) hmarker.2, fun heq => ?_⟩⟩)
        · omega
        · omega
    | done => exact absurd hp h.isOpen.1
    | error => exact absurd hp h.isOpen.2

end token

/-! ### A run of tokens -/

/-- A reply that has ended takes no more. -/
theorem feed_ended {c : PhaseController} (h : c.phase = .done ∨ c.phase = .error) (x : Sample) :
    (c.feed x).2.action = .failed ∧ (c.feed x).1.phase = .error := by
  unfold feed consume
  rw [if_pos h]
  exact ⟨rfl, rfl⟩

theorem run_ended {c : PhaseController} (h : c.phase = .done ∨ c.phase = .error)
    (xs : List Sample) : (c.run xs).phase = .done ∨ (c.run xs).phase = .error := by
  induction xs generalizing c with
  | nil => exact h
  | cons x xs ih => exact ih (.inr (feed_ended h x).2)

theorem run_reached {c : PhaseController} (hmade : c.Made) (before : List Sample) :
    Reached c before (c.run before) ∨
      (c.run before).phase = .done ∨ (c.run before).phase = .error := by
  induction before using List.reverseRecOn with
  | nil => exact .inl hmade.reached
  | append_singleton before x ih =>
    rw [run_concat]
    rcases ih with h | hended
    · cases h.fed hmade x with
      | failed action phase why => exact .inr (.inr phase)
      | completed eog accepting phase hw action result =>
        rw [result]
        exact .inr (.inl rfl)
      | goesOn eog action reached => exact .inl reached
    · exact .inr (.inr (feed_ended hended x).2)

/-- Tokens that end no reply. -/
def samples (tokens : List Token) : List Sample := tokens.map fun token => ⟨token, false, false⟩

/-- The tokens of a completed reply: its reasoning has been begun after `i` and ended
after `j` of them. -/
structure Completed (c : PhaseController) (before : List Sample) (last : Sample) (i j : ℕ) :
    Prop where
  order : i < j
  bound : j ≤ before.length
  begun : c.startMarker <:+ (before.map Sample.token).take i
  ended : c.endMarker <:+ (before.map Sample.token).take j
  alone : ∀ n, i < n → n ≤ before.length →
    ¬ c.startMarker <:+ (before.map Sample.token).take n ∧
      (c.endMarker <:+ (before.map Sample.token).take n → n = j)
  no_eog : ∀ x ∈ before, x.eog = false
  eog : last.eog = true
  accepting : last.accepting = true

/-- **Soundness**: a completed reply has had its markers in order and nowhere else, its
counters are those of the two parts, and nothing is completed after the end of a reply. -/
theorem completed_sound {startMarker endMarker : List Token}
    {reasoningBudget finalBudget totalBudget : ℕ} {c : PhaseController}
    (hmake : make startMarker endMarker reasoningBudget finalBudget totalBudget = .ok c)
    (before : List Sample) (last : Sample) (after : List Sample) (next : Sample) :
    (((c.run before).feed last).2.action = .completed → ∃ i j, Completed c before last i j ∧
      ((c.run before).feed last).1.sampled = before.length + 1 ∧
      ((c.run before).feed last).1.reasoning = j ∧
      ((c.run before).feed last).1.final = before.length - j ∧
      before.length + 1 ≤ totalBudget ∧ j ≤ reasoningBudget ∧ before.length - j ≤ finalBudget) ∧
    (((c.run before).feed last).2.action = .completed ∨
        ((c.run before).feed last).2.action = .failed →
      ((c.run (before ++ last :: after)).feed next).2.action ≠ .completed) := by
  obtain ⟨hmade, hstart, hend, hreasoning, hfinal, htotal⟩ := make_made hmake
  have hsplit : c.run (before ++ last :: after) = ((c.run before).feed last).1.run after := by
    rw [← run_concat, ← run_append, List.append_assoc, List.singleton_append]
  have hclosed : ((c.run before).feed last).1.phase = .done ∨
      ((c.run before).feed last).1.phase = .error →
      ((c.run (before ++ last :: after)).feed next).2.action ≠ .completed := by
    intro hended hcompleted
    rw [hsplit, (feed_ended (run_ended hended after) next).1] at hcompleted
    exact nomatch hcompleted
  rcases run_reached hmade before with h | hended
  swap
  · obtain ⟨haction, hphase⟩ := feed_ended hended last
    constructor
    · intro hcompleted
      rw [haction] at hcompleted
      exact nomatch hcompleted
    · exact fun _ => hclosed (.inr hphase)
  cases h.fed hmade last with
  | failed action phase why =>
    constructor
    · intro hcompleted
      rw [action] at hcompleted
      exact nomatch hcompleted
    · exact fun _ => hclosed (.inr phase)
  | completed eog accepting phase hw action result =>
    constructor
    · intro _
      have hstage := h.stage
      rw [phase] at hstage
      obtain ⟨i, j, hij, hj, hcount, hcount', hs, he⟩ := hstage
      rw [List.length_map] at hj hcount'
      have hsampled : ((c.run before).feed last).1.sampled = before.length + 1 := by
        rw [result, ← h.sampled]
        rfl
      have hcounted : ((c.run before).feed last).1.reasoning = j := by
        rw [result, ← hcount]
        exact if_pos phase
      have hcounted' : ((c.run before).feed last).1.final = before.length - j := by
        rw [result, ← hcount']
        exact if_neg (fun hand => nomatch hand.2)
      have hlength : (before.map Sample.token).length = before.length := List.length_map ..
      refine ⟨i, j, ⟨hij, hj, (hs i (by omega)).mpr rfl, (he j (by omega)).mpr rfl, ?_,
        h.no_eog, eog, accepting⟩, hsampled, hcounted, hcounted', ?_, ?_, ?_⟩
      · intro n hin hn
        constructor
        · intro hmarker
          have heq := (hs n (by omega)).mp hmarker
          omega
        · exact fun hmarker => (he n (by omega)).mp hmarker
      · have hle := hw.sampled
        rwa [show ((c.run before).counted true).sampled = before.length + 1 by
          rw [← h.sampled]; rfl, show ((c.run before).counted true).totalBudget = totalBudget from
          h.totalBudget.trans htotal] at hle
      · rw [← hcount, ← hreasoning, ← h.reasoningBudget]
        exact h.within.reasoning
      · rw [← hcount', ← hfinal, ← h.finalBudget]
        exact h.within.final
    · intro _
      refine hclosed (.inl ?_)
      rw [result]
  | goesOn eog action reached =>
    constructor
    · exact fun hcompleted => absurd hcompleted action.1
    · rintro (hcompleted | hfailed)
      · exact absurd hcompleted action.1
      · exact absurd hfailed action.2

theorem completed_sound_sample : ∃ c i j, make [1, 2] [3, 4] 8 4 10 = .ok c ∧
    Completed c (samples [1, 2, 9, 3, 4, 8]) ⟨0, true, true⟩ i j := by
  obtain ⟨i, j, h, -⟩ := (completed_sound (rfl : make [1, 2] [3, 4] 8 4 10 = .ok _)
    (samples [1, 2, 9, 3, 4, 8]) ⟨0, true, true⟩ [] ⟨0, true, true⟩).1 (by rfl)
  exact ⟨_, i, j, rfl, h⟩

/-! ### Completeness -/

/-- A reply of a start marker, reasoning, an end marker and a final reply, which its
budgets cover, and the token that ends it. -/
structure Offered (c : PhaseController) (before : List Sample) (last : Sample)
    (reasoning final : List Token) : Prop where
  tokens : before.map Sample.token = c.startMarker ++ reasoning ++ c.endMarker ++ final
  no_eog : ∀ x ∈ before, x.eog = false
  eog : last.eog = true
  accepting : last.accepting = true
  reasoningBudget : (c.startMarker ++ reasoning ++ c.endMarker).length ≤ c.reasoningBudget
  finalBudget : final.length ≤ c.finalBudget
  totalBudget : before.length + 1 ≤ c.totalBudget

/-- The reply is completed, its reasoning entered after `i` and its final part after `j`
of its tokens. -/
def Accepts (c : PhaseController) (before : List Sample) (last : Sample) (i j : ℕ) : Prop :=
  (∀ n ≤ before.length, (c.run (before.take n)).phase =
    if n < i then .expectReasoningStart else if n < j then .reasoning else .final) ∧
  (c.run (before ++ [last])).phase = .done

/-- The phase is read off the places of the markers in the whole reply. -/
theorem Stage.phase_eq {startMarker endMarker ts : List Token} {phase : Phase}
    {reasoning final n i j : ℕ} (h : Stage startMarker endMarker (ts.take n) phase reasoning final)
    (hs : EndsOnlyAt startMarker ts fun n => n = i) (he : EndsOnlyAt endMarker ts fun n => n = j)
    (hij : i < j) (hj : j ≤ ts.length) (hn : n ≤ ts.length) :
    (phase = if n < i then .expectReasoningStart else if n < j then .reasoning else .final) ∧
      reasoning = min n j ∧ final = n - j := by
  have hlength : (ts.take n).length = n := List.length_take_of_le hn
  have hbelow : ∀ k ≤ n, (ts.take n).take k = ts.take k := fun k hk => by
    rw [List.take_take, min_eq_left hk]
  have hbegun : i ≤ n → startMarker <:+ (ts.take n).take i := fun hle => by
    rw [hbelow i hle]
    exact (hs i (by omega)).mpr rfl
  have hended : j ≤ n → endMarker <:+ (ts.take n).take j := fun hle => by
    rw [hbelow j hle]
    exact (he j hj).mpr rfl
  cases phase with
  | expectReasoningStart =>
    obtain ⟨hreasoning, hfinal, hs', _⟩ := h
    have hlt : n < i := not_le.mp fun hle => (hs' i (by omega)).mp (hbegun hle)
    rw [if_pos hlt]
    exact ⟨rfl, by omega, by omega⟩
  | reasoning =>
    obtain ⟨hreasoning, hfinal, i', hi', hs', he'⟩ := h
    have hi : i' = i := by
      have hmarker := (hs' i' hi').mpr rfl
      rw [hbelow i' (by omega)] at hmarker
      exact (hs i' (by omega)).mp hmarker
    have hlt : n < j := not_le.mp fun hle => (he' j (by omega)).mp (hended hle)
    rw [if_neg (by omega), if_pos hlt]
    exact ⟨rfl, by omega, by omega⟩
  | final =>
    obtain ⟨i', j', _, hj', hreasoning, hfinal, _, he'⟩ := h
    have hj : j' = j := by
      have hmarker := (he' j' hj').mpr rfl
      rw [hbelow j' (by omega)] at hmarker
      exact (he j' (by omega)).mp hmarker
    rw [if_neg (by omega), if_neg (by omega)]
    exact ⟨rfl, by omega, by omega⟩
  | done => exact h.elim
  | error => exact h.elim

section offered

variable {c : PhaseController} {before : List Sample} {last : Sample}

/-- Its markers where they belong and nowhere else, no token of a reply is refused. -/
theorem reached_take (hmade : c.Made) {i j : ℕ} (hij : i < j) (hj : j ≤ before.length)
    (hs : EndsOnlyAt c.startMarker (before.map Sample.token) fun n => n = i)
    (he : EndsOnlyAt c.endMarker (before.map Sample.token) fun n => n = j)
    (no_eog : ∀ x ∈ before, x.eog = false) (hreasoning : j ≤ c.reasoningBudget)
    (hfinal : before.length - j ≤ c.finalBudget) (htotal : before.length ≤ c.totalBudget) :
    ∀ n ≤ before.length, Reached c (before.take n) (c.run (before.take n)) := by
  have hlength : (before.map Sample.token).length = before.length := List.length_map ..
  intro n hn
  induction n with
  | zero => exact hmade.reached
  | succ n ih =>
    have h := ih (by omega)
    have hlt : n < before.length := hn
    have hstage := h.stage
    rw [List.map_take] at hstage
    obtain ⟨hphase, hcount, hcount'⟩ := hstage.phase_eq hs he hij (by omega) (by omega)
    have htake : before.take (n + 1) = before.take n ++ [before[n]] := by
      rw [List.take_concat_get']
    have heog : before[n].eog = false := no_eog _ (List.getElem_mem hlt)
    have hmap : (before.take n).map Sample.token ++ [before[n].token] =
        (before.map Sample.token).take (n + 1) := by
      rw [← List.map_singleton, ← List.map_append, ← htake, List.map_take]
    have hsampled : (c.run (before.take n)).sampled = n := by
      rw [h.sampled, List.length_take_of_le (by omega)]
    have hstart := hs (n + 1) (by omega)
    have hend := he (n + 1) (by omega)
    rw [htake, run_concat]
    cases h.fed hmade before[n] with
    | failed action phase why =>
      exfalso
      rw [heog, if_neg Bool.false_ne_true, hmap] at why
      by_cases hfirst : n < j
      · have hopen : (c.run (before.take n)).phase ≠ .final := by
          rw [hphase, if_pos hfirst]
          split_ifs <;> simp
        have hwhy := why ⟨?_, ?_, ?_⟩
        · rw [hphase, if_pos hfirst] at hwhy
          by_cases hbefore : n < i
          · rw [if_pos hbefore] at hwhy
            have heq := hend.mp hwhy
            omega
          · rw [if_neg hbefore] at hwhy
            have heq := hstart.mp hwhy
            omega
        · show (c.run (before.take n)).sampled + 1 ≤ (c.run (before.take n)).totalBudget
          rw [hsampled, h.totalBudget]
          omega
        · show (if _ then _ else (c.run (before.take n)).reasoning + 1) ≤
            (c.run (before.take n)).reasoningBudget
          rw [if_neg hopen, hcount, h.reasoningBudget]
          omega
        · show (if _ then _ else (c.run (before.take n)).final) ≤ _
          rw [if_neg fun hand => hopen hand.1]
          exact h.within.final
      · have hlast : (c.run (before.take n)).phase = .final := by
          rw [hphase, if_neg (by omega), if_neg hfirst]
        have hwhy := why ⟨?_, ?_, ?_⟩
        · rw [hlast] at hwhy
          rcases hwhy with hmarker | hmarker
          · have heq := hstart.mp hmarker
            omega
          · have heq := hend.mp hmarker
            omega
        · show (c.run (before.take n)).sampled + 1 ≤ (c.run (before.take n)).totalBudget
          rw [hsampled, h.totalBudget]
          omega
        · show (if _ then (c.run (before.take n)).reasoning else _) ≤ _
          rw [if_pos hlast]
          exact h.within.reasoning
        · show (if _ then (c.run (before.take n)).final + 1 else _) ≤
            (c.run (before.take n)).finalBudget
          rw [if_pos ⟨hlast, rfl⟩, hcount', h.finalBudget]
          omega
    | completed eog accepting phase hw action result =>
      rw [heog] at eog
      exact absurd eog Bool.false_ne_true
    | goesOn eog action reached => exact reached

/-- The end of a reply is taken where its final part may end. -/
theorem Reached.done {c₀ : PhaseController} (hmade : c₀.Made) (h : Reached c₀ before c)
    (hphase : c.phase = .final) (heog : last.eog = true) (haccepting : last.accepting = true)
    (htotal : before.length + 1 ≤ c₀.totalBudget) : (c.feed last).1.phase = .done := by
  have hw : (c.counted last.eog).Within := by
    refine ⟨?_, ?_, ?_⟩
    · show c.sampled + 1 ≤ c.totalBudget
      rw [h.sampled, h.totalBudget]
      exact htotal
    · show (if _ then c.reasoning else _) ≤ _
      rw [if_pos hphase]
      exact h.within.reasoning
    · show (if _ then _ else c.final) ≤ _
      rw [if_neg fun hand => Bool.noConfusion (heog.symm.trans hand.2)]
      exact h.within.final
  cases h.fed hmade last with
  | failed action phase why =>
    have hwhy := why hw
    rw [heog, if_pos rfl] at hwhy
    rcases hwhy with hother | hrejecting
    · exact absurd hphase hother
    · rw [haccepting] at hrejecting
      exact absurd hrejecting.symm Bool.false_ne_true
  | completed eog accepting phase within action result =>
    rw [result]
  | goesOn eog action reached =>
    rw [heog] at eog
    exact absurd eog.symm Bool.false_ne_true

end offered

/-- A marker in a reply that overlaps the end marker: neither `[1, 2]` nor `[2, 3]` is in
the reasoning `[3]`, but `[2, 3]` is found across its start. -/
theorem completeness_fails :
    ¬ ∀ (startMarker endMarker : List Token) (reasoningBudget finalBudget totalBudget : ℕ)
      (c : PhaseController),
      make startMarker endMarker reasoningBudget finalBudget totalBudget = .ok c →
      ∀ before last reasoning final, Offered c before last reasoning final →
        (∀ part ∈ [reasoning, final], ¬ startMarker <:+: part ∧ ¬ endMarker <:+: part) →
        Accepts c before last startMarker.length (startMarker ++ reasoning ++ endMarker).length := by
  intro hall
  have hoffered := (hall [1, 2] [2, 3] 8 4 10 _ rfl (samples [1, 2, 3, 2, 3]) ⟨0, true, true⟩ [3] []
    ⟨rfl, by decide, rfl, rfl, by decide, by decide, by decide⟩ (by decide)).1 3 (by decide)
  exact absurd hoffered (by decide)

/-- **Completeness**: a reply of the two markers, in order, that its budgets cover is
accepted exactly when the markers end nowhere else in it. -/
theorem accepts_iff {startMarker endMarker : List Token}
    {reasoningBudget finalBudget totalBudget : ℕ} {c : PhaseController}
    (hmake : make startMarker endMarker reasoningBudget finalBudget totalBudget = .ok c)
    {before : List Sample} {last : Sample} {reasoning final : List Token}
    (h : Offered c before last reasoning final) :
    Accepts c before last startMarker.length (startMarker ++ reasoning ++ endMarker).length ↔
      EndsOnlyAt startMarker (before.map Sample.token) (fun n => n = startMarker.length) ∧
      EndsOnlyAt endMarker (before.map Sample.token)
        fun n => n = (startMarker ++ reasoning ++ endMarker).length := by
  obtain ⟨hmade, rfl, rfl, -, -, -⟩ := make_made hmake
  generalize hi : c.startMarker.length = i
  generalize hj : (c.startMarker ++ reasoning ++ c.endMarker).length = j
  have hij : i < j := by
    have hne := List.length_pos_iff.mpr hmade.end_ne
    rw [← hi, ← hj, List.length_append, List.length_append]
    omega
  have hlength : before.length = j + final.length := by
    rw [← hj, ← List.length_append, ← h.tokens, List.length_map]
  have hmap : (before.map Sample.token).length = before.length := List.length_map ..
  have hbegun : c.startMarker <:+ (before.map Sample.token).take i := by
    rw [h.tokens, List.append_assoc, List.append_assoc, ← hi, List.take_left]
  have hended : c.endMarker <:+ (before.map Sample.token).take j := by
    rw [h.tokens, ← hj, List.take_left]
    exact List.suffix_append ..
  constructor
  · -- the final phase knows where the markers ended, and that is where they stand
    intro haccepts
    have hphase := haccepts.1 before.length le_rfl
    rw [List.take_length, if_neg (by omega), if_neg (by omega)] at hphase
    rcases run_reached hmade before with hreached | hother
    · have hstage := hreached.stage
      rw [hphase] at hstage
      obtain ⟨i', j', -, -, -, -, hs, he⟩ := hstage
      obtain rfl := (hs i (by omega)).mp hbegun
      obtain rfl := (he j (by omega)).mp hended
      exact ⟨hs, he⟩
    · rw [hphase] at hother
      rcases hother with hdone | herror
      · cases hdone
      · cases herror
  · rintro ⟨hs, he⟩
    have hreached := reached_take hmade hij (by omega) hs he h.no_eog (hj ▸ h.reasoningBudget)
      (by have hle := h.finalBudget; omega) (by have hle := h.totalBudget; omega)
    have hphases : ∀ n ≤ before.length, (c.run (before.take n)).phase =
        if n < i then .expectReasoningStart else if n < j then .reasoning else .final := by
      intro n hn
      have hstage := (hreached n hn).stage
      rw [List.map_take] at hstage
      exact (hstage.phase_eq hs he hij (by omega) (by omega)).1
    refine ⟨hphases, ?_⟩
    have hall := hreached before.length le_rfl
    have hphase := hphases before.length le_rfl
    rw [List.take_length, if_neg (by omega), if_neg (by omega)] at hphase
    rw [List.take_length] at hall
    rw [run_concat]
    exact hall.done hmade hphase h.eog h.accepting h.totalBudget

theorem accepts_iff_sample : ∃ c, make [1, 2] [3, 4] 8 4 10 = .ok c ∧
    (Accepts c (samples [1, 2, 9, 3, 4, 8]) ⟨0, true, true⟩ 2 5 ↔
      EndsOnlyAt [1, 2] [1, 2, 9, 3, 4, 8] (fun n => n = 2) ∧
      EndsOnlyAt [3, 4] [1, 2, 9, 3, 4, 8] fun n => n = 5) :=
  ⟨_, rfl, @accepts_iff [1, 2] [3, 4] 8 4 10 _ rfl (samples [1, 2, 9, 3, 4, 8]) ⟨0, true, true⟩
    [9] [8] ⟨rfl, by decide, rfl, rfl, by simp, by simp, by simp [samples]⟩⟩

end PhaseController

end Native
