/-
Round robin among parties in a ring.

A cursor goes around the ring.  Each turn serves the first party at or behind the
cursor that is ready, and leaves the cursor behind it; who is ready may change from one
turn to the next.

* `ahead` — how far the cursor is from a party, which is what falls while it waits;
* `Serves` — the party that a turn serves;
* `Rotation` — turns in a row;
* `Rotation.served_within` — who stays ready is served within as many turns as there are
  parties;
* `Rotation.served_between` — nobody is served twice while another one waits.
-/
import Mathlib.Data.Fin.Basic
import Mathlib.Order.Fin.Basic

namespace RoundRobin

variable {n : ℕ}

/-- How many places the cursor is before the party. -/
def ahead (cursor : ℕ) (i : Fin n) : ℕ :=
  if cursor ≤ i.val then i.val - cursor else i.val + n - cursor

/-- The cursor after the party has been served. -/
def next (i : Fin n) : ℕ := (i.val + 1) % n

theorem next_eq (i : Fin n) : next i = if i.val + 1 = n then 0 else i.val + 1 := by
  have hi := i.isLt
  unfold next
  split_ifs with hlast
  · rw [hlast, Nat.mod_self]
  · exact Nat.mod_eq_of_lt (by omega)

theorem next_lt (i : Fin n) : next i < n := Nat.mod_lt _ i.pos

theorem ahead_lt {cursor : ℕ} (h : cursor < n) (i : Fin n) : ahead cursor i < n := by
  have hi := i.isLt
  unfold ahead
  split_ifs <;> omega

theorem ahead_inj {cursor : ℕ} (h : cursor < n) {i j : Fin n} (hij : ahead cursor i = ahead cursor j) :
    i = j := by
  have hi := i.isLt
  have hj := j.isLt
  unfold ahead at hij
  refine Fin.ext ?_
  split_ifs at hij <;> omega

/-- Going on from the cursor by that many places one is at the party. -/
theorem add_ahead {cursor : ℕ} (h : cursor < n) (i : Fin n) :
    (cursor + ahead cursor i) % n = i.val := by
  have hi := i.isLt
  unfold ahead
  split_ifs with hle
  · rw [show cursor + (i.val - cursor) = i.val by omega]
    exact Nat.mod_eq_of_lt hi
  · rw [show cursor + (i.val + n - cursor) = i.val + n by omega, Nat.add_mod_right]
    exact Nat.mod_eq_of_lt hi

theorem ahead_add {cursor k : ℕ} (h : cursor < n) (hk : k < n) {i : Fin n}
    (hi : i.val = (cursor + k) % n) : ahead cursor i = k := by
  unfold ahead
  by_cases hwrap : cursor + k < n
  · rw [Nat.mod_eq_of_lt hwrap] at hi
    rw [if_pos (by omega)]
    omega
  · rw [Nat.mod_eq_sub_mod (by omega), Nat.mod_eq_of_lt (by omega)] at hi
    rw [if_neg (by omega)]
    omega

/-- A party that has just been served has to wait for all the others. -/
theorem ahead_served (i : Fin n) : ahead (next i) i + 1 = n := by
  have hi := i.isLt
  rw [next_eq]
  unfold ahead
  split_ifs <;> omega

/-- The cursor comes closer to the parties behind the one that is served. -/
theorem ahead_waits {cursor : ℕ} (h : cursor < n) {i r : Fin n}
    (hbefore : ahead cursor i < ahead cursor r) :
    ahead (next i) r + ahead cursor i + 1 = ahead cursor r := by
  have hi := i.isLt
  have hr := r.isLt
  rw [next_eq]
  unfold ahead at hbefore ⊢
  split_ifs at hbefore ⊢ <;> omega

/-- The first party at or behind the cursor that is ready. -/
structure Serves (cursor : ℕ) (ready : Fin n → Prop) (i : Fin n) : Prop where
  isReady : ready i
  first : ∀ j, ready j → ahead cursor i ≤ ahead cursor j

/-- Who is ready at a turn, and who is served. -/
structure Turn (n : ℕ) where
  ready : Fin n → Prop
  served : Option (Fin n)

/-- Turns in a row, with the cursor before and after them. -/
inductive Rotation : ℕ → List (Turn n) → ℕ → Prop
  | stop (cursor : ℕ) : Rotation cursor [] cursor
  | idle {cursor cursor' : ℕ} {ready : Fin n → Prop} {turns : List (Turn n)}
      (nobody : ∀ j, ¬ ready j) (rest : Rotation cursor turns cursor') :
      Rotation cursor (⟨ready, none⟩ :: turns) cursor'
  | serve {cursor cursor' : ℕ} {ready : Fin n → Prop} {turns : List (Turn n)} {i : Fin n}
      (serves : Serves cursor ready i) (rest : Rotation (next i) turns cursor') :
      Rotation cursor (⟨ready, some i⟩ :: turns) cursor'

theorem Rotation.split {cursor cursor' : ℕ} {before after : List (Turn n)}
    (h : Rotation cursor (before ++ after) cursor') :
    ∃ middle, Rotation cursor before middle ∧ Rotation middle after cursor' := by
  induction before generalizing cursor with
  | nil => exact ⟨cursor, .stop cursor, h⟩
  | cons turn before ih =>
    have h : Rotation cursor (turn :: (before ++ after)) cursor' := h
    cases h with
    | idle nobody rest =>
      obtain ⟨middle, hbefore, hafter⟩ := ih rest
      exact ⟨middle, .idle nobody hbefore, hafter⟩
    | serve serves rest =>
      obtain ⟨middle, hbefore, hafter⟩ := ih rest
      exact ⟨middle, .serve serves hbefore, hafter⟩

theorem Rotation.cursor_lt {cursor cursor' : ℕ} {turns : List (Turn n)}
    (h : Rotation cursor turns cursor') (hcursor : cursor < n) : cursor' < n := by
  induction h with
  | stop => exact hcursor
  | idle nobody rest ih => exact ih hcursor
  | serve serves rest ih => exact ih (next_lt _)

/-- A party that is ready is behind the one that is served in its place. -/
theorem Serves.before {cursor : ℕ} {ready : Fin n → Prop} {i r : Fin n} (h : Serves cursor ready i)
    (hcursor : cursor < n) (hready : ready r) (hother : i ≠ r) :
    ahead cursor i < ahead cursor r :=
  lt_of_le_of_ne (h.first r hready) fun hsame => hother (ahead_inj hcursor hsame)

/-- While a party waits, every turn brings the cursor closer to it. -/
theorem Rotation.waits {cursor cursor' : ℕ} {turns : List (Turn n)} {r : Fin n}
    (h : Rotation cursor turns cursor') (hcursor : cursor < n) (hready : ∀ t ∈ turns, t.ready r)
    (hunserved : ∀ t ∈ turns, t.served ≠ some r) :
    ahead cursor' r + turns.length ≤ ahead cursor r := by
  induction h with
  | stop cursor => exact Nat.le_refl _
  | idle nobody rest ih => exact absurd (hready _ List.mem_cons_self) (nobody r)
  | @serve cursor cursor' ready turns i serves rest ih =>
    have hother : i ≠ r := by
      rintro rfl
      exact hunserved _ List.mem_cons_self rfl
    have hbefore := serves.before hcursor (hready _ List.mem_cons_self) hother
    have hcloser := ahead_waits hcursor hbefore
    have hrest := ih (next_lt i) (fun t ht => hready t (List.mem_cons_of_mem _ ht))
      fun t ht => hunserved t (List.mem_cons_of_mem _ ht)
    rw [List.length_cons]
    omega

/-- **Nobody starves**: who is ready at as many turns in a row as there are parties is served at
one of them. -/
theorem Rotation.served_within {cursor cursor' : ℕ} {turns : List (Turn n)} {r : Fin n}
    (h : Rotation cursor turns cursor') (hcursor : cursor < n) (hready : ∀ t ∈ turns, t.ready r)
    (hlength : n ≤ turns.length) : ∃ t ∈ turns, t.served = some r := by
  by_contra hnone
  push Not at hnone
  have hwaits := h.waits hcursor hready hnone
  have hbound := ahead_lt hcursor r
  omega

/-- While a party waits, it stays before those that it is before. -/
theorem Rotation.overtakes {cursor cursor' : ℕ} {turns : List (Turn n)} {r s : Fin n}
    (h : Rotation cursor turns cursor') (hcursor : cursor < n) (hready : ∀ t ∈ turns, t.ready r)
    (hunserved : ∀ t ∈ turns, t.served ≠ some r) (hahead : ahead cursor r < ahead cursor s) :
    ahead cursor' r < ahead cursor' s := by
  induction h with
  | stop cursor => exact hahead
  | idle nobody rest ih => exact absurd (hready _ List.mem_cons_self) (nobody r)
  | @serve cursor cursor' ready turns i serves rest ih =>
    have hother : i ≠ r := by
      rintro rfl
      exact hunserved _ List.mem_cons_self rfl
    have hbefore := serves.before hcursor (hready _ List.mem_cons_self) hother
    have hcloser := ahead_waits hcursor hbefore
    have hcloser' := ahead_waits hcursor (hbefore.trans hahead)
    refine ih (next_lt i) (fun t ht => hready t (List.mem_cons_of_mem _ ht))
      (fun t ht => hunserved t (List.mem_cons_of_mem _ ht)) ?_
    omega

/-- **Nobody is served twice while another one waits**: who is ready at every turn after one that
serves `s`, up to one that serves `s` again, is served by one of those in between. -/
theorem Rotation.served_between {cursor cursor' : ℕ} {first last : Turn n}
    {between : List (Turn n)} {r s : Fin n}
    (h : Rotation cursor (first :: (between ++ [last])) cursor')
    (hfirst : first.served = some s) (hlast : last.served = some s)
    (hready : ∀ t ∈ between ++ [last], t.ready r) :
    r = s ∨ ∃ t ∈ between, t.served = some r := by
  by_contra hnot
  push Not at hnot
  obtain ⟨hother, hunserved⟩ := hnot
  cases h with
  | idle nobody rest => exact nomatch hfirst
  | @serve _ _ ready turns i serves rest =>
    obtain rfl : i = s := Option.some.inj hfirst
    obtain ⟨middle, hbetween, hend⟩ := rest.split
    have hmiddle := hbetween.cursor_lt (next_lt i)
    -- right after its turn the party is behind everyone
    have hserved := ahead_served i
    have hbound := ahead_lt (next_lt i) r
    have hne : ahead (next i) r ≠ ahead (next i) i := fun h => hother (ahead_inj (next_lt i) h)
    have hahead := hbetween.overtakes (next_lt i)
      (fun t ht => hready t (List.mem_append_left _ ht)) hunserved (s := i) (by omega)
    cases hend with
    | idle nobody rest => exact nomatch hlast
    | @serve _ _ ready' turns j serves' rest' =>
      obtain rfl : j = i := Option.some.inj hlast
      have hfirst := serves'.first r (hready _ (List.mem_append_right _ List.mem_cons_self))
      omega

end RoundRobin
