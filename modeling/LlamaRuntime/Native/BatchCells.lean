/-
What a command does to one sequence, as the memory and the log tell it.

* `cellsFor_prefillCells`, `cellsFor_roundCells` — the cells of a sequence in the batch
  of a command;
* `asked_le` — a batch that leaves every sequence within its reservation fits into
  the context;
* `sinceOpened` — what was logged since the sequence of a slot was opened: what was
  decoded, committed and sent for it, and whether a command of it was refused;
* `PrefillRun.spec` — what the steps of a prefill batch do to each sequence.
-/
import LlamaRuntime.Native.ReachableStates

namespace Native

open Json

variable {n : ℕ} {F : Type}

/-! ### The cells of a sequence in a batch -/

@[simp] theorem length_cellsFrom (position : ℕ) (tokens : List Token) :
    (cellsFrom position tokens).length = tokens.length := by
  induction tokens generalizing position with
  | nil => rfl
  | cons token rest ih => rw [cellsFrom, List.length_cons, ih, List.length_cons]

theorem cellsFrom_append (position : ℕ) (tokens others : List Token) :
    cellsFrom position (tokens ++ others)
      = cellsFrom position tokens ++ cellsFrom (position + tokens.length) others := by
  induction tokens generalizing position with
  | nil => rfl
  | cons token rest ih =>
    rw [List.cons_append, cellsFrom, ih, cellsFrom, List.cons_append, List.length_cons]
    congr 3
    omega

@[simp] theorem cellsFor_nil (i : Fin n) : cellsFor i [] = [] := rfl

theorem cellsFor_append (i : Fin n) (batch others : List (Fin n × Cell)) :
    cellsFor i (batch ++ others) = cellsFor i batch ++ cellsFor i others := by
  unfold cellsFor
  rw [List.filter_append, List.map_append]

theorem cellsFor_cons (i j : Fin n) (cell : Cell) (batch : List (Fin n × Cell)) :
    cellsFor i ((j, cell) :: batch) = if j = i then cell :: cellsFor i batch else cellsFor i batch := by
  unfold cellsFor
  rw [List.filter_cons]
  by_cases hj : j = i
  · rw [if_pos (by simpa using hj), if_pos hj]
    rfl
  · rw [if_neg (by simpa using hj), if_neg hj]

theorem cellsFor_map (i j : Fin n) (cells : List Cell) :
    cellsFor i (cells.map fun cell => (j, cell)) = if j = i then cells else [] := by
  induction cells with
  | nil => simp
  | cons cell rest ih =>
    rw [List.map_cons, cellsFor_cons, ih]
    split_ifs
    · rfl
    · rfl

theorem sum_cellsFor (batch : List (Fin n × Cell)) :
    ∑ i, (cellsFor i batch).length = batch.length := by
  induction batch with
  | nil => simp
  | cons entry rest ih =>
    obtain ⟨j, cell⟩ := entry
    have hone : ∀ i, (cellsFor i ((j, cell) :: rest)).length
        = (cellsFor i rest).length + if j = i then 1 else 0 := by
      intro i
      rw [cellsFor_cons]
      split_ifs
      · rfl
      · rfl
    simp only [hone, Finset.sum_add_distrib, Finset.sum_ite_eq, Finset.mem_univ, if_true, ih,
      List.length_cons]

/-- What a call leaves is a part of its batch. -/
theorem written_sublist (answer : DecodeAnswer) (batch : List (Fin n × Cell)) :
    (answer.written batch).Sublist batch := by
  cases answer with
  | success => exact List.Sublist.refl _
  | failure kept =>
    have hsub : ((batch.zipIdx.filter fun cell => kept cell.2).map Prod.fst).Sublist
        (batch.zipIdx.map Prod.fst) := List.filter_sublist.map _
    rw [List.zipIdx_map_fst] at hsub
    exact hsub

theorem cellsFor_written_le (i : Fin n) (answer : DecodeAnswer) (batch : List (Fin n × Cell)) :
    (cellsFor i (answer.written batch)).length ≤ (cellsFor i batch).length :=
  (((written_sublist answer batch).filter _).map Prod.snd).length_le

/-- The cells that a step of `prefill_batch` adds for its sequence. -/
def Runtime.stepCells (r : Runtime n) (w : PrefillWork F n) : List Cell :=
  (r.states w.slot).elim [] fun s => s.promptCells w.physicalTokens

theorem prefillCells_cons (r : Runtime n) (w : PrefillWork F n) (rest : List (PrefillWork F n)) :
    r.prefillCells (w :: rest)
      = (r.stepCells w).map (fun cell => (w.slot, cell)) ++ r.prefillCells rest := by
  unfold Runtime.prefillCells Runtime.stepCells
  rw [List.flatMap_cons]
  congr 1
  cases r.states w.slot with
  | none => rfl
  | some s => rfl

theorem cellsFor_prefillCells_of_notMem (r : Runtime n) {work : List (PrefillWork F n)} {i : Fin n}
    (h : i ∉ work.map PrefillWork.slot) : cellsFor i (r.prefillCells work) = [] := by
  induction work with
  | nil => rfl
  | cons w rest ih =>
    rw [List.map_cons, List.mem_cons, not_or] at h
    rw [prefillCells_cons, cellsFor_append, cellsFor_map, if_neg (Ne.symm h.1), ih h.2]
    rfl

theorem cellsFor_prefillCells (r : Runtime n) {work : List (PrefillWork F n)}
    (hdistinct : (work.map PrefillWork.slot).Nodup) {w : PrefillWork F n} (hw : w ∈ work) :
    cellsFor w.slot (r.prefillCells work) = r.stepCells w := by
  induction work with
  | nil => exact absurd hw List.not_mem_nil
  | cons x rest ih =>
    obtain ⟨hfresh, hdistinct⟩ := List.nodup_cons.mp (List.map_cons ▸ hdistinct)
    rw [prefillCells_cons, cellsFor_append, cellsFor_map]
    rcases List.mem_cons.mp hw with rfl | hw
    · rw [if_pos rfl, cellsFor_prefillCells_of_notMem r hfresh, List.append_nil]
    · have hne : x.slot ≠ w.slot := fun heq => hfresh (heq ▸ List.mem_map_of_mem hw)
      rw [if_neg hne, ih hdistinct hw]
      rfl

/-- The cells that a round adds for the sequence of a step. -/
theorem roundCells_cons (r : Runtime n) (w : DecodeWork F n) (rest : List (DecodeWork F n)) :
    r.roundCells (w :: rest)
      = (if r.takes w then (r.states w.slot).elim [] fun s => [(w.slot, s.nextCell)] else []) ++
        r.roundCells rest := by
  unfold Runtime.roundCells
  rw [List.filter_cons]
  split_ifs
  · rw [List.filterMap_cons]
    cases r.states w.slot with
    | none => rfl
    | some s => rfl
  · rfl

theorem cellsFor_roundCells_of_notMem (r : Runtime n) {work : List (DecodeWork F n)} {i : Fin n}
    (h : i ∉ work.map DecodeWork.slot) : cellsFor i (r.roundCells work) = [] := by
  induction work with
  | nil => rfl
  | cons w rest ih =>
    rw [List.map_cons, List.mem_cons, not_or] at h
    rw [roundCells_cons, cellsFor_append, ih h.2, List.append_nil]
    split_ifs
    · cases r.states w.slot with
      | none => rfl
      | some s =>
        show cellsFor i [(w.slot, s.nextCell)] = []
        rw [cellsFor_cons, if_neg (Ne.symm h.1)]
        rfl
    · rfl

theorem cellsFor_roundCells (r : Runtime n) {work : List (DecodeWork F n)}
    (hdistinct : (work.map DecodeWork.slot).Nodup) {w : DecodeWork F n} (hw : w ∈ work)
    {s : SequenceState n} (hs : r.states w.slot = some s) :
    cellsFor w.slot (r.roundCells work) = if r.takes w then [s.nextCell] else [] := by
  induction work with
  | nil => exact absurd hw List.not_mem_nil
  | cons x rest ih =>
    obtain ⟨hfresh, hdistinct⟩ := List.nodup_cons.mp (List.map_cons ▸ hdistinct)
    rw [roundCells_cons, cellsFor_append]
    rcases List.mem_cons.mp hw with rfl | hw
    · rw [cellsFor_roundCells_of_notMem r hfresh, List.append_nil, hs]
      split_ifs
      · show cellsFor w.slot [(w.slot, s.nextCell)] = _
        rw [cellsFor_cons, if_pos rfl]
        rfl
      · rfl
    · have hne : x.slot ≠ w.slot := fun heq => hfresh (heq ▸ List.mem_map_of_mem hw)
      rw [ih hdistinct hw]
      have hnone : cellsFor w.slot (if r.takes x then (r.states x.slot).elim []
          fun s => [(x.slot, s.nextCell)] else []) = [] := by
        split_ifs
        · cases r.states x.slot with
          | none => rfl
          | some s' =>
            show cellsFor w.slot [(x.slot, s'.nextCell)] = []
            rw [cellsFor_cons, if_neg hne]
            rfl
        · rfl
      rw [hnone, List.nil_append]

/-! ### How many cells are asked for -/

/-- The memory of a slot is within what its sequence reserved. -/
def Runtime.Within (r : Runtime n) : Prop :=
  ∀ i, (r.memory i).length ≤ (r.engine.slots i).reservation

theorem held_le {config : Setup} {r : Runtime n} (h : r.Valid config) (hwithin : r.Within) :
    r.held ≤ config.kvTokens := by
  have hsum : r.held ≤ ∑ i, (r.engine.slots i).reservation := Finset.sum_le_sum fun i _ => hwithin i
  have hreserved := h.engine.reserved
  have hcapacity := h.engine.capacity
  have hkv := h.capacity
  omega

/-- A batch that leaves every sequence within its reservation fits. -/
theorem asked_le {config : Setup} {r : Runtime n} (h : r.Valid config) {batch : List (Fin n × Cell)}
    (hfits : ∀ i, (r.memory i).length + (cellsFor i batch).length
      ≤ (r.engine.slots i).reservation) : r.held + batch.length ≤ config.kvTokens := by
  have hsum : r.held + batch.length ≤ ∑ i, (r.engine.slots i).reservation := by
    unfold Runtime.held
    rw [← sum_cellsFor batch, ← Finset.sum_add_distrib]
    exact Finset.sum_le_sum fun i _ => hfits i
  have hreserved := h.engine.reserved
  have hcapacity := h.engine.capacity
  have hkv := h.capacity
  omega

/-- A free slot holds no cells. -/
theorem Runtime.Within.free {config : Setup} {r : Runtime n} (h : r.Valid config)
    (hwithin : r.Within) {i : Fin n} (free : r.states i = none) : r.memory i = [] := by
  have hle := hwithin i
  rw [(h.engine.slot i).released ((h.released_iff i).mpr free)] at hle
  exact List.length_eq_zero_iff.mp (Nat.le_zero.mp hle)

/-! ### What was logged of a sequence -/

namespace LogEntry

/-- A sequence was opened in this slot. -/
def Opens (i : Fin n) : LogEntry n → Prop
  | .opened j => j = i
  | _ => False

instance (i : Fin n) : DecidablePred (Opens i)
  | .opened j => inferInstanceAs (Decidable (j = i))
  | .decoded _ _ => inferInstanceAs (Decidable False)
  | .committed _ _ _ => inferInstanceAs (Decidable False)
  | .sent _ _ => inferInstanceAs (Decidable False)
  | .refused _ => inferInstanceAs (Decidable False)

/-- The cells of a slot that were decoded. -/
def decodedFor (i : Fin n) : LogEntry n → List Cell
  | .decoded _ batch => cellsFor i batch
  | _ => []

/-- The tokens that were stored for the session of a slot. -/
def committedFor (i : Fin n) : LogEntry n → List (List Token × ℕ)
  | .committed j tokens generation => if j = i then [(tokens, generation)] else []
  | _ => []

/-- The text that was sent for a slot. -/
def sentFor (i : Fin n) : LogEntry n → List UInt8
  | .sent j text => if j = i then text else []
  | _ => []

/-- A command that names the sequence of a slot was refused. -/
def Refuses (i : Fin n) : LogEntry n → Prop
  | .refused slots => i ∈ slots
  | _ => False

instance (i : Fin n) : DecidablePred (Refuses i)
  | .opened _ => inferInstanceAs (Decidable False)
  | .decoded _ _ => inferInstanceAs (Decidable False)
  | .committed _ _ _ => inferInstanceAs (Decidable False)
  | .sent _ _ => inferInstanceAs (Decidable False)
  | .refused slots => inferInstanceAs (Decidable (i ∈ slots))

end LogEntry

/-- What was logged since the last sequence was opened in a slot. -/
def sinceOpened (i : Fin n) (log : List (LogEntry n)) : List (LogEntry n) :=
  log.foldl (fun since entry => if entry.Opens i then [] else since ++ [entry]) []

theorem sinceOpened_concat (i : Fin n) (log : List (LogEntry n)) (entry : LogEntry n) :
    sinceOpened i (log ++ [entry]) = if entry.Opens i then [] else sinceOpened i log ++ [entry] := by
  unfold sinceOpened
  rw [List.foldl_append]
  rfl

theorem sinceOpened_append {i : Fin n} {entries : List (LogEntry n)}
    (h : ∀ entry ∈ entries, ¬ entry.Opens i) (log : List (LogEntry n)) :
    sinceOpened i (log ++ entries) = sinceOpened i log ++ entries := by
  induction entries using List.reverseRecOn with
  | nil => rw [List.append_nil, List.append_nil]
  | append_singleton entries entry ih =>
    have hlast := h entry (List.mem_append_right _ (List.mem_singleton_self entry))
    rw [← List.append_assoc, sinceOpened_concat, if_neg hlast,
      ih fun e he => h e (List.mem_append_left _ he), List.append_assoc]

/-- A command that named the sequence of a slot was refused since it was opened. -/
def RefusedSince (i : Fin n) (log : List (LogEntry n)) : Prop :=
  ∃ entry ∈ sinceOpened i log, entry.Refuses i

instance (i : Fin n) (log : List (LogEntry n)) : Decidable (RefusedSince i log) :=
  inferInstanceAs (Decidable (∃ entry ∈ sinceOpened i log, entry.Refuses i))

theorem refusedSince_append {i : Fin n} {entries : List (LogEntry n)}
    (h : ∀ entry ∈ entries, ¬ entry.Opens i) (log : List (LogEntry n)) :
    RefusedSince i (log ++ entries) ↔
      RefusedSince i log ∨ ∃ entry ∈ entries, entry.Refuses i := by
  unfold RefusedSince
  rw [sinceOpened_append h]
  constructor
  · rintro ⟨entry, hmem, hrefuses⟩
    rcases List.mem_append.mp hmem with hmem | hmem
    · exact .inl ⟨entry, hmem, hrefuses⟩
    · exact .inr ⟨entry, hmem, hrefuses⟩
  · rintro (⟨entry, hmem, hrefuses⟩ | ⟨entry, hmem, hrefuses⟩)
    · exact ⟨entry, List.mem_append_left _ hmem, hrefuses⟩
    · exact ⟨entry, List.mem_append_right _ hmem, hrefuses⟩

theorem not_refusedSince_opened (i : Fin n) (log : List (LogEntry n)) :
    ¬ RefusedSince i (log ++ [.opened i]) := by
  rintro ⟨entry, hmem, -⟩
  rw [sinceOpened_concat, if_pos (show LogEntry.Opens i (.opened i) from rfl)] at hmem
  exact absurd hmem List.not_mem_nil

/-! ### The steps of a prefill batch, sequence by sequence -/

/-- What was stored for the session of a slot. -/
def commitsFor (i : Fin n) (entries : List (LogEntry n)) : List (List Token × ℕ) :=
  entries.flatMap (LogEntry.committedFor i)

theorem commitsFor_append (i : Fin n) (entries others : List (LogEntry n)) :
    commitsFor i (entries ++ others) = commitsFor i entries ++ commitsFor i others :=
  List.flatMap_append

/-- What a batch does to the sequence of one of its steps, and what it stores for its session:
the counters advance, and the session prefix may be stored; it is refused; or the batch stopped
before. -/
inductive StepResult (elapsed : ℚ) (r r' : Runtime n) (w : PrefillWork F n) (s : SequenceState n) :
    Bool → List (List Token × ℕ) → Prop
  | advanced (completes : Bool) (idle : ¬ (w.next s elapsed).Commits)
      (state : r'.states w.slot = some (w.next s elapsed))
      (slot : r'.engine.slots w.slot = prefilledSlot (r.engine.slots w.slot) w.logicalTokens) :
      StepResult elapsed r r' w s completes []
  | committed (completes : Bool) (commits : (w.next s elapsed).Commits) (stored : SessionStore)
      (state : r'.states w.slot = some { w.next s elapsed with
        committedSessionGeneration := some stored.generation
        sessionCopyOnWrite := stored.copyOnWrite })
      (slot : r'.engine.slots w.slot = prefilledSlot (r.engine.slots w.slot) w.logicalTokens) :
      StepResult elapsed r r' w s completes [(s.sessionPrefix, stored.generation)]
  | refused (commits : (w.next s elapsed).Commits)
      (state : r'.states w.slot = some (w.next s elapsed))
      (slot : r'.engine.slots w.slot = prefilledSlot (r.engine.slots w.slot) w.logicalTokens) :
      StepResult elapsed r r' w s false []
  | untouched (state : r'.states w.slot = some s)
      (slot : r'.engine.slots w.slot = r.engine.slots w.slot) :
      StepResult elapsed r r' w s false []

theorem StepResult.frame {elapsed : ℚ} {r r₁ r' : Runtime n} {w : PrefillWork F n}
    {s : SequenceState n} {completes : Bool} {commits : List (List Token × ℕ)}
    (h : StepResult elapsed r₁ r' w s completes commits)
    (hslots : r₁.engine.slots w.slot = r.engine.slots w.slot) :
    StepResult elapsed r r' w s completes commits := by
  cases h with
  | advanced _ idle state slot => exact .advanced _ idle state (hslots ▸ slot)
  | committed _ hcommits stored state slot => exact .committed _ hcommits stored state (hslots ▸ slot)
  | refused hcommits state slot => exact .refused hcommits state (hslots ▸ slot)
  | untouched state slot => exact .untouched state (slot.trans hslots)

/-- Only the tables after a step matter. -/
theorem StepResult.tables {elapsed : ℚ} {r r₁ r' : Runtime n} {w : PrefillWork F n}
    {s : SequenceState n} {completes : Bool} {commits : List (List Token × ℕ)}
    (h : StepResult elapsed r r₁ w s completes commits) (hstates : r'.states w.slot = r₁.states w.slot)
    (hslots : r'.engine.slots w.slot = r₁.engine.slots w.slot) :
    StepResult elapsed r r' w s completes commits := by
  cases h with
  | advanced _ idle state slot => exact .advanced _ idle (hstates.trans state) (hslots.trans slot)
  | committed _ hcommits stored state slot =>
    exact .committed _ hcommits stored (hstates.trans state) (hslots.trans slot)
  | refused hcommits state slot => exact .refused hcommits (hstates.trans state) (hslots.trans slot)
  | untouched state slot => exact .untouched (hstates.trans state) (hslots.trans slot)

theorem StepResult.later {elapsed : ℚ} {r r₁ r' : Runtime n} {w : PrefillWork F n}
    {s : SequenceState n} {completes : Bool} {commits : List (List Token × ℕ)}
    (h : StepResult elapsed r r₁ w s true commits) (hstates : r'.states w.slot = r₁.states w.slot)
    (hslots : r'.engine.slots w.slot = r₁.engine.slots w.slot) :
    StepResult elapsed r r' w s completes commits := by
  cases h with
  | advanced _ idle state slot =>
    exact .advanced _ idle (hstates.trans state) (hslots.trans slot)
  | committed _ hcommits stored state slot =>
    exact .committed _ hcommits stored (hstates.trans state) (hslots.trans slot)

/-- One step, as what it does to its sequence and what it logs. -/
theorem Prefilling.result {r r' : Runtime n} {captures : Fin n → CaptureReply}
    {w : PrefillWork F n} {s : SequenceState n} {elapsed : ℚ}
    {outcome : Except Fault (PrefillOutcome F)}
    (h : Prefilling r captures w (w.next s elapsed) (r', outcome)) :
    ∃ entries, r'.log = r.log ++ entries ∧ (∀ e ∈ entries, ∃ t g, e = .committed w.slot t g) ∧
      StepResult elapsed r r' w s outcome.isOk (commitsFor w.slot entries) := by
  have hcounted := h.counted
  have hslot := hcounted.slot
  have hcommits : ∀ t g, commitsFor w.slot [LogEntry.committed w.slot t g] = [(t, g)] := by
    intro t g
    show (if w.slot = w.slot then [(t, g)] else []) ++ [] = _
    rw [if_pos rfl, List.append_nil]
  have hstate : (r.counted w (w.next s elapsed)).states w.slot = some (w.next s elapsed) :=
    Function.update_self _ _ _
  have hone : ∀ outcome : Except Fault Unit,
      Storing (r.counted w (w.next s elapsed)) w.slot (w.next s elapsed) (captures w.slot)
        (r', outcome) →
      ∃ entries, r'.log = r.log ++ entries ∧ (∀ e ∈ entries, ∃ t g, e = .committed w.slot t g) ∧
        StepResult elapsed r r' w s outcome.isOk (commitsFor w.slot entries) := by
    intro outcome hstoring
    cases hstoring with
    | nothing idle => exact ⟨[], (List.append_nil _).symm, by simp, .advanced _ idle hstate hslot⟩
    | stored plain =>
      refine ⟨[], (List.append_nil _).symm, by simp, .advanced _ ?_ hstate hslot⟩
      rintro ⟨-, ⟨control, hmem, -⟩, -⟩
      rw [plain] at hmem
      exact absurd hmem (by simp)
    | refused control session commits refusal =>
      exact ⟨[], (List.append_nil _).symm, by simp, .refused commits hstate hslot⟩
    | committed control session commits committed stored =>
      refine ⟨[.committed w.slot s.sessionPrefix committed.generation], rfl, fun e he => ?_, ?_⟩
      · obtain rfl := List.mem_singleton.mp he
        exact ⟨_, _, rfl⟩
      · rw [hcommits]
        exact .committed _ commits committed (Function.update_self _ _ _) hslot
  rcases h with ⟨_, stored⟩ | ⟨_, fault, stored⟩
  · exact hone _ stored
  · exact hone _ stored

/-- Entries of other slots store nothing for the session of a slot. -/
theorem commitsFor_other {i j : Fin n} {entries : List (LogEntry n)} (hne : j ≠ i)
    (h : ∀ e ∈ entries, ∃ t g, e = .committed j t g) : commitsFor i entries = [] := by
  refine List.flatMap_eq_nil_iff.mpr fun e he => ?_
  obtain ⟨t, g, rfl⟩ := h e he
  exact if_neg hne

/-- What the steps of a batch do. -/
structure PrefillSpec (elapsed : ℚ) (r r' : Runtime n) (work : List (PrefillWork F n))
    (completes : Bool) (entries : List (LogEntry n)) : Prop where
  log : r'.log = r.log ++ entries
  memory : r'.memory = r.memory
  committed : ∀ e ∈ entries, ∃ j t g, e = .committed j t g
  others : ∀ j ∉ work.map PrefillWork.slot, r'.states j = r.states j ∧
    r'.engine.slots j = r.engine.slots j ∧ commitsFor j entries = []
  steps : ∀ w ∈ work, ∃ s, w.Valid r s ∧
    StepResult elapsed r r' w s completes (commitsFor w.slot entries)

/-- **What the steps of a batch do to each sequence.** -/
theorem PrefillRun.spec {config : Setup} {elapsed : ℚ} {captures : Fin n → CaptureReply}
    {r : Runtime n} {work : List (PrefillWork F n)}
    {result : Runtime n × Except Fault (List (PrefillOutcome F))}
    (h : PrefillRun config elapsed captures r work result) :
    ∃ entries, PrefillSpec elapsed r result.1 work result.2.isOk entries := by
  induction h with
  | nil valid => exact ⟨[], (List.append_nil _).symm, rfl, by simp, by simp [commitsFor], by simp⟩
  | @refused r r' w rest s fault valid prefills work valid' one =>
    obtain ⟨entries, hlog, hentries, hresult⟩ := one.result
    have hframe := one.counted.frame
    have hdistinct := (List.nodup_cons.mp (List.map_cons ▸ prefills.distinct)).1
    refine ⟨entries, hlog, hframe.memory, fun e he => ?_, fun j hj => ?_, fun w' hw' => ?_⟩
    · obtain ⟨t, g, rfl⟩ := hentries e he
      exact ⟨_, t, g, rfl⟩
    · rw [List.map_cons, List.mem_cons, not_or] at hj
      exact ⟨hframe.states j hj.1, hframe.slots j hj.1, commitsFor_other (Ne.symm hj.1) hentries⟩
    · rcases List.mem_cons.mp hw' with rfl | hw'
      · exact ⟨s, work, hresult⟩
      · obtain ⟨s', hs'⟩ := prefills.valid w' (List.mem_cons_of_mem _ hw')
        have hne : w'.slot ≠ w.slot := fun heq => hdistinct (heq ▸ List.mem_map_of_mem hw')
        rw [commitsFor_other (Ne.symm hne) hentries]
        exact ⟨s', hs', .untouched ((hframe.states _ hne).trans hs'.state) (hframe.slots _ hne)⟩
  | @next r r' w rest s outcome result valid prefills work one later ih =>
    obtain ⟨first, hlog, hfirst, hresult⟩ := one.result
    obtain ⟨entries, hspec⟩ := ih
    have hframe := one.counted.frame
    have hdistinct := (List.nodup_cons.mp (List.map_cons ▸ prefills.distinct)).1
    have hok : (result.2.map fun outcomes => outcome :: outcomes).isOk = result.2.isOk := by
      cases result.2 with
      | error fault => rfl
      | ok outcomes => rfl
    rw [hok]
    refine ⟨first ++ entries, ?_, hspec.memory.trans hframe.memory, fun e he => ?_, fun j hj => ?_,
      fun w' hw' => ?_⟩
    · rw [hspec.log, hlog, List.append_assoc]
    · rcases List.mem_append.mp he with he | he
      · obtain ⟨t, g, rfl⟩ := hfirst e he
        exact ⟨_, t, g, rfl⟩
      · exact hspec.committed e he
    · rw [List.map_cons, List.mem_cons, not_or] at hj
      obtain ⟨hstates, hslots, hnone⟩ := hspec.others j hj.2
      refine ⟨hstates.trans (hframe.states j hj.1), hslots.trans (hframe.slots j hj.1), ?_⟩
      rw [commitsFor_append, commitsFor_other (Ne.symm hj.1) hfirst, hnone]
      rfl
    · rw [commitsFor_append]
      rcases List.mem_cons.mp hw' with rfl | hw'
      · obtain ⟨hstates, hslots, hnone⟩ := hspec.others _ hdistinct
        rw [hnone, List.append_nil]
        exact ⟨s, work, hresult.later hstates hslots⟩
      · obtain ⟨s', hs', hresult'⟩ := hspec.steps w' hw'
        have hne : w'.slot ≠ w.slot := fun heq => hdistinct (heq ▸ List.mem_map_of_mem hw')
        rw [commitsFor_other (Ne.symm hne) hfirst, List.nil_append]
        obtain ⟨s'', hs''⟩ := prefills.valid w' (List.mem_cons_of_mem _ hw')
        have hsame : s'' = s' :=
          Option.some_inj.mp ((hs''.state.symm.trans (hframe.states _ hne).symm).trans hs'.state)
        subst hsame
        exact ⟨s'', hs'', hresult'.frame (hframe.slots _ hne)⟩

end Native
