/-
The turns of the sequence engine.

`next_runnable` goes around the slots of the engine, while other operations admit
sequences to them, finish and release them.

* `history` — the operations of a run, each with the engine that it found;
* `scanRunnable_first`, `nextRunnable_serves` — the slot that is returned is the first at or
  behind the cursor that is runnable;
* `rotation_history` — the turns of a run are a rotation around the slots;
* `turns_served` — no slot is returned twice while another one waits, and none waits for
  more turns than there are slots.
-/
import LlamaRuntime.Fairness.RoundRobin
import LlamaRuntime.Native.SequenceLedger

namespace Native

namespace Ledger

open RoundRobin

variable {n : ℕ}

/-- An operation of a run, with the engine that it found and what it returned. -/
structure Entry (n : ℕ) where
  before : Ledger n
  op : Operation
  outcome : Outcome

/-- The slot is runnable when the operation is called. -/
def Entry.Runnable (entry : Entry n) (i : Fin n) : Prop :=
  runnable (entry.before.engine.slots i).lifecycle = true

instance (entry : Entry n) (i : Fin n) : Decidable (entry.Runnable i) :=
  inferInstanceAs (Decidable (_ = true))

/-- The slot that a `next_runnable` has returned. -/
def Entry.returned (entry : Entry n) : Option (Fin n) :=
  match entry.op, entry.outcome with
  | .nextRunnable, .runnable (some handle) => (handle.within n).map Handle.slot
  | _, _ => none

def Entry.isNext (entry : Entry n) : Bool :=
  match entry.op with
  | .nextRunnable => true
  | _ => false

/-- The operations of a run, up to one that wraps. -/
def history (l : Ledger n) : List Operation → List (Entry n)
  | [] => []
  | op :: rest =>
    match l.step op with
    | .error _ => []
    | .ok (l', outcome) => ⟨l, op, outcome⟩ :: history l' rest

/-! ### One turn -/

/-- The slot that is so many places behind the cursor. -/
def place (cursor : ℕ) (offset : Fin n) : Fin n := ⟨(cursor + offset.val) % n, Nat.mod_lt _ offset.pos⟩

/-- The scan stops at the first offset whose slot is runnable. -/
theorem scanRunnable_first {l : Ledger n} (h : l.Kept) (offsets : List (Fin n)) :
    ∃ found, scanRunnable l.engine l.cursor offsets = .ok found ∧
      match found with
      | none => ∀ o ∈ offsets, ¬ runnable (l.engine.slots (place l.cursor o)).lifecycle = true
      | some i => ∃ earlier offset later, offsets = earlier ++ offset :: later ∧
          i = place l.cursor offset ∧ runnable (l.engine.slots i).lifecycle = true ∧
          ∀ o ∈ earlier, ¬ runnable (l.engine.slots (place l.cursor o)).lifecycle = true := by
  have hcursor := h.cursor
  have hslots := h.slots
  induction offsets with
  | nil => exact ⟨none, rfl, fun o ho => absurd ho List.not_mem_nil⟩
  | cons offset rest ih =>
    have hoffset := offset.isLt
    have hposition : l.cursor + offset.val ≤ sizeMax := by
      unfold sizeMax
      omega
    unfold scanRunnable
    rw [addSize_ok hposition]
    dsimp only [bind, Except.bind]
    rw [show (⟨(l.cursor + offset.val) % n, Nat.mod_lt _ offset.pos⟩ : Fin n) =
      place l.cursor offset from rfl]
    by_cases hruns : runnable (l.engine.slots (place l.cursor offset)).lifecycle = true
    · rw [if_pos hruns]
      exact ⟨_, rfl, [], offset, rest, rfl, rfl, hruns, fun o ho => absurd ho List.not_mem_nil⟩
    · rw [if_neg hruns]
      obtain ⟨found, hscan, hfirst⟩ := ih
      refine ⟨found, hscan, ?_⟩
      cases found with
      | none =>
        intro o ho
        rcases List.mem_cons.mp ho with rfl | ho
        · exact hruns
        · exact hfirst o ho
      | some i =>
        obtain ⟨earlier, offset', later, rfl, hi, hruns', hearlier⟩ := hfirst
        refine ⟨offset :: earlier, offset', later, rfl, hi, hruns', fun o ho => ?_⟩
        rcases List.mem_cons.mp ho with rfl | ho
        · exact hruns
        · exact hearlier o ho

/-- Every slot is some places behind the cursor. -/
theorem place_ahead {l : Ledger n} (h : l.Kept) (i : Fin n) :
    place l.cursor ⟨ahead l.cursor i, ahead_lt h.cursor i⟩ = i :=
  Fin.ext (add_ahead h.cursor i)

/-- What a turn does. -/
inductive Turned (l : Ledger n) : Ledger n × Outcome → Prop
  | nobody (idle : ∀ i, ¬ runnable (l.engine.slots i).lifecycle = true) :
      Turned l (l, .runnable none)
  | serves (i : Fin n)
      (serves : Serves l.cursor (fun i => runnable (l.engine.slots i).lifecycle = true) i) :
      Turned l ({ l with cursor := next i }, .runnable (some ((l.engine.slots i).handle i).any))

theorem nextRunnable_serves {l : Ledger n} (h : l.Kept) {result : Ledger n × Outcome}
    (hstep : l.step .nextRunnable = .ok result) : Turned l result := by
  obtain ⟨found, hscan, hfirst⟩ := scanRunnable_first h (List.finRange n)
  have hstep : (nextRunnable l).map (fun result => (result.1, .runnable (result.2.map Handle.any))) =
      .ok result := hstep
  unfold nextRunnable at hstep
  rw [hscan] at hstep
  cases found with
  | none =>
    obtain rfl := Except.ok.inj hstep
    refine .nobody fun i hi => ?_
    refine hfirst ⟨ahead l.cursor i, ahead_lt h.cursor i⟩ (List.mem_finRange _) ?_
    rw [place_ahead h]
    exact hi
  | some i =>
    obtain ⟨earlier, offset, later, hoffsets, rfl, hruns, hearlier⟩ := hfirst
    have hi := (place l.cursor offset).isLt
    have hslots := h.slots
    have hafter : (place l.cursor offset).val + 1 ≤ sizeMax := by
      unfold sizeMax
      omega
    dsimp only [bind, Except.bind] at hstep
    rw [addSize_ok hafter] at hstep
    obtain rfl := Except.ok.inj hstep
    refine .serves _ ⟨hruns, fun j hj => ?_⟩
    rw [ahead_add h.cursor offset.isLt rfl]
    -- a slot that is nearer would have been found at an earlier offset
    by_contra hnearer
    have hmem := List.mem_finRange (⟨ahead l.cursor j, ahead_lt h.cursor j⟩ : Fin n)
    have hsorted := List.pairwise_lt_finRange n
    rw [hoffsets] at hmem hsorted
    rw [List.pairwise_append, List.pairwise_cons] at hsorted
    rcases List.mem_append.mp hmem with hmem | hmem
    · refine hearlier _ hmem ?_
      rw [place_ahead h]
      exact hj
    · rcases List.mem_cons.mp hmem with hmem | hmem
      · exact hnearer (Fin.mk.inj_iff.mp (by rw [hmem])).ge
      · have hlater : offset.val < ahead l.cursor j := hsorted.2.1.1 _ hmem
        omega

/-! ### Whole runs -/

/-- The turn that an entry stands for. -/
def Entry.turn? (entry : Entry n) : Option (Turn n) :=
  if entry.isNext then some ⟨entry.Runnable, entry.returned⟩ else none

theorem turn?_next {entry : Entry n} (h : entry.isNext = true) :
    entry.turn? = some ⟨entry.Runnable, entry.returned⟩ := if_pos h

theorem turn?_other {entry : Entry n} (h : ¬ entry.isNext = true) : entry.turn? = none := if_neg h

/-- The cursor moves in turns only. -/
theorem Stepped.cursor_eq {l : Ledger n} {op : Operation} {result : Ledger n × Outcome}
    (h : Stepped l op result) (hop : op ≠ .nextRunnable) : result.1.cursor = l.cursor := by
  cases h with
  | turned i runs => exact absurd rfl hop
  | _ => rfl

theorem rotation_history {l : Ledger n} (h : l.Kept) (ops : List Operation) :
    (history l ops).map Entry.op = ops ∧
      ∃ cursor, Rotation l.cursor ((history l ops).filterMap Entry.turn?) cursor := by
  induction ops generalizing l with
  | nil => exact ⟨rfl, l.cursor, .stop _⟩
  | cons op rest ih =>
    obtain ⟨⟨l', outcome⟩, hstep, hstepped⟩ := stepped h op
    have hkept : l'.Kept := hstepped.kept h
    obtain ⟨hops, cursor, hrest⟩ := ih hkept
    have hhistory : history l (op :: rest) = ⟨l, op, outcome⟩ :: history l' rest := by
      rw [history, hstep]
    rw [hhistory]
    refine ⟨by rw [List.map_cons, hops], cursor, ?_⟩
    by_cases hnext : op = .nextRunnable
    · subst hnext
      rw [List.filterMap_cons_some (turn?_next rfl)]
      cases nextRunnable_serves h hstep with
      | nobody idle => exact .idle idle hrest
      | serves i serves =>
        have hreturned : Entry.returned ⟨l, .nextRunnable,
            .runnable (some ((l.engine.slots i).handle i).any)⟩ = some i := by
          show (((l.engine.slots i).handle i).any.within n).map Handle.slot = some i
          rw [Handle.within_any]
          rfl
        rw [hreturned]
        exact .serve serves hrest
    · have hother : ¬ Entry.isNext ⟨l, op, outcome⟩ = true := by
        unfold Entry.isNext
        cases op with
        | nextRunnable => exact absurd rfl hnext
        | _ => exact Bool.false_ne_true
      rw [List.filterMap_cons_none (turn?_other hother), ← hstepped.cursor_eq hnext]
      exact hrest

/-- Only a turn returns a slot. -/
theorem turn?_of_returned {entry : Entry n} {i : Fin n} (hreturned : entry.returned = some i) :
    entry.turn? = some ⟨entry.Runnable, some i⟩ := by
  have hnext : entry.isNext = true := by
    unfold Entry.returned at hreturned
    unfold Entry.isNext
    split at hreturned
    · next hop _ => rw [hop]
    · exact nomatch hreturned
  rw [turn?_next hnext, hreturned]

theorem mem_turns {entries : List (Entry n)} {turn : Turn n}
    (h : turn ∈ entries.filterMap Entry.turn?) :
    ∃ entry ∈ entries, turn = ⟨entry.Runnable, entry.returned⟩ := by
  obtain ⟨entry, hmem, hturn⟩ := List.mem_filterMap.mp h
  unfold Entry.turn? at hturn
  split_ifs at hturn
  exact ⟨entry, hmem, (Option.some.inj hturn).symm⟩

theorem length_turns (entries : List (Entry n)) :
    (entries.filterMap Entry.turn?).length = entries.countP Entry.isNext := by
  induction entries with
  | nil => rfl
  | cons entry entries ih =>
    by_cases hnext : entry.isNext = true
    · rw [List.filterMap_cons_some (turn?_next hnext), List.countP_cons_of_pos hnext, List.length_cons, ih]
    · rw [List.filterMap_cons_none (turn?_other hnext), List.countP_cons_of_neg hnext, ih]

/-- **Round robin without starvation**: of every engine that was constructed and every run of its
operations, a slot that stays runnable from a turn that returned `s` to one that returns `s` again
is returned in between, and one that stays runnable for as many turns as there are slots is
returned by one of them. -/
theorem turns_served {maxSequences tokenCapacity : Size} {l : Ledger maxSequences.val}
    (constructed : construct maxSequences tokenCapacity = some l) (ops : List Operation) :
    (history l ops).map Entry.op = ops ∧
    (∀ before first between last after r s,
      history l ops = before ++ first :: (between ++ last :: after) →
      first.returned = some s → last.returned = some s →
      (∀ entry ∈ between ++ [last], entry.Runnable r) →
      r = s ∨ ∃ entry ∈ between, entry.returned = some r) ∧
    ∀ before stretch after r, history l ops = before ++ (stretch ++ after) →
      maxSequences.val ≤ stretch.countP Entry.isNext →
      (∀ entry ∈ stretch, entry.Runnable r) → ∃ entry ∈ stretch, entry.returned = some r := by
  have hkept := kept_construct constructed
  obtain ⟨hops, cursor, hrotation⟩ := rotation_history hkept ops
  refine ⟨hops, fun before first between last after r s hhistory hfirst hlast hruns => ?_,
    fun before stretch after r hhistory hturns hruns => ?_⟩
  · have hsplit : (history l ops).filterMap Entry.turn? = before.filterMap Entry.turn? ++
        ((⟨first.Runnable, some s⟩ :: (between.filterMap Entry.turn? ++ [⟨last.Runnable, some s⟩])) ++
          after.filterMap Entry.turn?) := by
      rw [hhistory, List.filterMap_append, List.filterMap_cons_some (turn?_of_returned hfirst),
        List.filterMap_append, List.filterMap_cons_some (turn?_of_returned hlast)]
      simp
    rw [hsplit] at hrotation
    obtain ⟨start, -, hrest⟩ := hrotation.split
    obtain ⟨stop, hmiddle, -⟩ := hrest.split
    have hserved := hmiddle.served_between (r := r) rfl rfl fun turn hturn => by
      rcases List.mem_append.mp hturn with hturn | hturn
      · obtain ⟨entry, hmem, rfl⟩ := mem_turns hturn
        exact hruns entry (List.mem_append_left _ hmem)
      · rw [List.mem_singleton.mp hturn]
        exact hruns last (List.mem_append_right _ List.mem_cons_self)
    refine hserved.imp_right fun ⟨turn, hturn, hreturned⟩ => ?_
    obtain ⟨entry, hmem, rfl⟩ := mem_turns hturn
    exact ⟨entry, hmem, hreturned⟩
  · rw [hhistory, List.filterMap_append, List.filterMap_append] at hrotation
    obtain ⟨start, hbefore, hrest⟩ := hrotation.split
    obtain ⟨stop, hstretch, -⟩ := hrest.split
    rw [← length_turns] at hturns
    obtain ⟨turn, hturn, hreturned⟩ := hstretch.served_within (r := r)
      (hbefore.cursor_lt hkept.cursor) (fun turn hturn => by
        obtain ⟨entry, hmem, rfl⟩ := mem_turns hturn
        exact hruns entry hmem) hturns
    obtain ⟨entry, hmem, rfl⟩ := mem_turns hturn
    exact ⟨entry, hmem, hreturned⟩

/-- Two sequences, and two turns. -/
def sampleTurns : List Operation :=
  [.admitSequence (py "r") (py "a") 3 2, .startPrefill ⟨0, 1, py "r", py "a"⟩,
    .admitSequence (py "s") (py "a") 2 1, .startPrefill ⟨1, 1, py "s", py "a"⟩,
    .nextRunnable, .nextRunnable]

/-- One of the two turns is that of the second slot. -/
theorem turns_served_sample :
    let l : Ledger 2 := { engine := Engine.initial 2 8 }
    construct 2 8 = some l ∧ ∃ entry ∈ (history l sampleTurns).drop 4, entry.returned = some 1 := by
  intro l
  obtain ⟨-, -, hwithin⟩ := @turns_served 2 8 l rfl sampleTurns
  refine ⟨rfl, hwithin ((history l sampleTurns).take 4) ((history l sampleTurns).drop 4) []
    (1 : Fin 2) ?_ ?_ ?_⟩
  · rw [List.append_nil, List.take_append_drop]
  · show 2 ≤ _
    decide +kernel
  · decide +kernel

end Ledger

end Native
