/-
The sequence engine of the native runtime.

* `Slot`, `Handle`, `Engine` — slots with generations, and the counters of what
  is admitted and reserved;
* `Engine.admitSequence`, `startPrefill`, `advancePrefill`, `advanceDecode`, `finish`,
  `cancel`, `release` — its operations;
* `Engine.Valid` — the counters are the sums over the slots, a released slot is
  empty, and no slot exceeds its own limits; every operation keeps it.
-/
import LlamaRuntime.Python.Str
import Mathlib.Algebra.BigOperators.Fin
import Mathlib.Algebra.Order.BigOperators.Group.Finset
import Mathlib.Data.Fintype.Card

namespace Native

inductive Lifecycle where
  | admitted | prefill | decode | terminal | released
  deriving DecidableEq

inductive FinishReason where
  | none | stop | length | cancelled | failed
  deriving DecidableEq

structure Slot where
  generation : ℕ
  requestId : PyStr
  attemptId : PyStr
  lifecycle : Lifecycle
  finishReason : FinishReason
  promptTokens : ℕ
  outputTokenBudget : ℕ
  promptTokensProcessed : ℕ
  decodedTokens : ℕ
  deriving DecidableEq

def Slot.reservation (s : Slot) : ℕ := s.promptTokens + s.outputTokenBudget

/-- A released slot; only its generation is left. -/
def Slot.empty (generation : ℕ) : Slot where
  generation
  requestId := []
  attemptId := []
  lifecycle := .released
  finishReason := .none
  promptTokens := 0
  outputTokenBudget := 0
  promptTokensProcessed := 0
  decodedTokens := 0

/-- `SequenceHandle`; the slot of a handle is always below the number of slots. -/
structure Handle (n : ℕ) where
  slot : Fin n
  generation : ℕ
  requestId : PyStr
  attemptId : PyStr
  deriving DecidableEq

structure Engine (n : ℕ) where
  slots : Fin n → Slot
  tokenCapacity : ℕ
  reservedTokens : ℕ
  activeSequences : ℕ

inductive AdmissionStatus where
  | admitted | invalidRequest | duplicate | sequenceCapacity | tokenCapacity
  deriving DecidableEq

inductive OperationStatus where
  | applied | staleHandle | invalidState | invalidAmount
  deriving DecidableEq

inductive ReleaseStatus where
  | released | alreadyReleased | staleHandle | invalidState
  deriving DecidableEq

/-- The greatest `std::size_t`. -/
def sizeMax : ℕ := 2 ^ 64 - 1

/-- `++generation`, once more if it became zero. -/
def nextGeneration (generation : ℕ) : ℕ :=
  if (generation + 1) % 2 ^ 64 = 0 then 1 else (generation + 1) % 2 ^ 64

variable {n : ℕ}

/-! ### Handles -/

/-- `matches` -/
def Slot.Matches (s : Slot) (h : Handle n) : Prop :=
  s.lifecycle ≠ .released ∧ s.generation = h.generation ∧ s.requestId = h.requestId ∧
    s.attemptId = h.attemptId

instance (s : Slot) (h : Handle n) : Decidable (s.Matches h) :=
  inferInstanceAs (Decidable (_ ∧ _ ∧ _ ∧ _))

/-- `make_handle` -/
def Slot.handle (s : Slot) (i : Fin n) : Handle n := ⟨i, s.generation, s.requestId, s.attemptId⟩

theorem Slot.matches_handle {s : Slot} {i : Fin n} :
    s.Matches (s.handle i) ↔ s.lifecycle ≠ .released :=
  ⟨fun h => h.1, fun h => ⟨h, rfl, rfl, rfl⟩⟩

namespace Engine

/-- An engine of the constructor. -/
def initial (n tokenCapacity : ℕ) : Engine n := ⟨fun _ => Slot.empty 0, tokenCapacity, 0, 0⟩

/-- `find` -/
def find (e : Engine n) (h : Handle n) : Option Slot :=
  if (e.slots h.slot).Matches h then some (e.slots h.slot) else none

/-- `snapshot`, of which the slot's own fields are read -/
abbrev snapshot (e : Engine n) (h : Handle n) : Option Slot := e.find h

def put (e : Engine n) (i : Fin n) (s : Slot) : Engine n :=
  { e with slots := Function.update e.slots i s }

@[simp] theorem put_slots (e : Engine n) (i : Fin n) (s : Slot) :
    (e.put i s).slots = Function.update e.slots i s := rfl

@[simp] theorem put_reserved (e : Engine n) (i : Fin n) (s : Slot) :
    (e.put i s).reservedTokens = e.reservedTokens := rfl

@[simp] theorem put_active (e : Engine n) (i : Fin n) (s : Slot) :
    (e.put i s).activeSequences = e.activeSequences := rfl

@[simp] theorem put_capacity (e : Engine n) (i : Fin n) (s : Slot) :
    (e.put i s).tokenCapacity = e.tokenCapacity := rfl

theorem find_eq_some {e : Engine n} {h : Handle n} {s : Slot} :
    e.find h = some s ↔ (e.slots h.slot).Matches h ∧ e.slots h.slot = s := by
  unfold find
  by_cases hm : (e.slots h.slot).Matches h
  · simp [hm]
  · simp [hm]

/-! ### Operations -/

/-- `duplicate` -/
def Duplicate (e : Engine n) (requestId attemptId : PyStr) : Prop :=
  ∃ i, (e.slots i).lifecycle ≠ .released ∧ (e.slots i).requestId = requestId ∧
    (e.slots i).attemptId = attemptId

instance (e : Engine n) (requestId attemptId : PyStr) :
    Decidable (e.Duplicate requestId attemptId) :=
  inferInstanceAs (Decidable (∃ _, _))

/-- The first slot that is released. -/
def firstReleased (e : Engine n) : Option (Fin n) :=
  (List.finRange n).find? fun i => (e.slots i).lifecycle = .released

/-- A slot that has been admitted. -/
def admittedSlot (s : Slot) (requestId attemptId : PyStr) (promptTokens outputTokenBudget : ℕ) :
    Slot where
  generation := nextGeneration s.generation
  requestId
  attemptId
  lifecycle := .admitted
  finishReason := .none
  promptTokens
  outputTokenBudget
  promptTokensProcessed := 0
  decodedTokens := 0

def admitSequence (e : Engine n) (requestId attemptId : PyStr) (promptTokens outputTokenBudget : ℕ) :
    Engine n × AdmissionStatus × Option (Handle n) :=
  if requestId = [] ∨ attemptId = [] ∨ promptTokens = 0 ∨ outputTokenBudget = 0 then
    (e, .invalidRequest, none)
  else if sizeMax - outputTokenBudget < promptTokens then (e, .invalidRequest, none)
  else if e.Duplicate requestId attemptId then (e, .duplicate, none)
  else if e.activeSequences = n then (e, .sequenceCapacity, none)
  else if e.tokenCapacity - e.reservedTokens < promptTokens + outputTokenBudget then
    (e, .tokenCapacity, none)
  else
    match e.firstReleased with
    | none => (e, .sequenceCapacity, none)
    | some i =>
      let slot := admittedSlot (e.slots i) requestId attemptId promptTokens outputTokenBudget
      ({ e.put i slot with
          reservedTokens := e.reservedTokens + (promptTokens + outputTokenBudget)
          activeSequences := e.activeSequences + 1 },
        .admitted, some (slot.handle i))

/-- What an operation does to the slot its handle names. -/
def onSlot (e : Engine n) (h : Handle n) (f : Slot → OperationStatus × Slot) :
    OperationStatus × Engine n :=
  match e.find h with
  | none => (.staleHandle, e)
  | some s => ((f s).1, e.put h.slot (f s).2)

def startPrefill (e : Engine n) (h : Handle n) : OperationStatus × Engine n :=
  e.onSlot h fun s =>
    if s.lifecycle ≠ .admitted then (.invalidState, s)
    else (.applied, { s with lifecycle := .prefill })

def advancePrefill (e : Engine n) (h : Handle n) (tokens : ℕ) : OperationStatus × Engine n :=
  e.onSlot h fun s =>
    if s.lifecycle ≠ .prefill then (.invalidState, s)
    else if tokens = 0 ∨ s.promptTokens - s.promptTokensProcessed < tokens then
      (.invalidAmount, s)
    else
      (.applied,
        { s with
          promptTokensProcessed := s.promptTokensProcessed + tokens
          lifecycle :=
            if s.promptTokensProcessed + tokens = s.promptTokens then .decode else s.lifecycle })

def advanceDecode (e : Engine n) (h : Handle n) (tokens : ℕ) : OperationStatus × Engine n :=
  e.onSlot h fun s =>
    if s.lifecycle ≠ .decode then (.invalidState, s)
    else if tokens = 0 ∨ s.outputTokenBudget - s.decodedTokens < tokens then (.invalidAmount, s)
    else (.applied, { s with decodedTokens := s.decodedTokens + tokens })

def finish (e : Engine n) (h : Handle n) (reason : FinishReason) : OperationStatus × Engine n :=
  e.onSlot h fun s =>
    if s.lifecycle ≠ .decode then (.invalidState, s)
    else if reason ∉ [FinishReason.stop, .length, .failed] then (.invalidAmount, s)
    else (.applied, { s with lifecycle := .terminal, finishReason := reason })

def cancel (e : Engine n) (h : Handle n) : OperationStatus × Engine n :=
  e.onSlot h fun s =>
    if s.lifecycle ∉ [Lifecycle.admitted, .prefill, .decode] then (.invalidState, s)
    else (.applied, { s with lifecycle := .terminal, finishReason := .cancelled })

def release (e : Engine n) (h : Handle n) : ReleaseStatus × Engine n :=
  match e.find h with
  | none =>
    if (e.slots h.slot).generation = h.generation ∧ (e.slots h.slot).lifecycle = .released then
      (.alreadyReleased, e)
    else (.staleHandle, e)
  | some s =>
    if s.lifecycle ≠ .terminal then (.invalidState, e)
    else
      (.released,
        { e.put h.slot (Slot.empty s.generation) with
          reservedTokens := e.reservedTokens - s.reservation
          activeSequences := e.activeSequences - 1 })

/-! ### What every engine keeps -/

/-- A slot within its own limits. -/
structure SlotValid (s : Slot) : Prop where
  released : s.lifecycle = .released → s = Slot.empty s.generation
  named : s.lifecycle ≠ .released → s.requestId ≠ [] ∧ s.attemptId ≠ []
  sized : s.lifecycle ≠ .released → 0 < s.promptTokens ∧ 0 < s.outputTokenBudget
  processed : s.promptTokensProcessed ≤ s.promptTokens
  decoded : s.decodedTokens ≤ s.outputTokenBudget
  prefilling : s.lifecycle = .prefill → s.promptTokensProcessed < s.promptTokens

theorem slotValid_empty (generation : ℕ) : SlotValid (Slot.empty generation) := by
  refine ⟨fun _ => rfl, fun h => ?_, fun h => ?_, le_rfl, le_rfl, fun h => ?_⟩
  · exact absurd rfl h
  · exact absurd rfl h
  · exact absurd h (by simp [Slot.empty])

structure Valid (e : Engine n) : Prop where
  slot : ∀ i, SlotValid (e.slots i)
  reserved : e.reservedTokens = ∑ i, (e.slots i).reservation
  active : e.activeSequences = (Finset.univ.filter fun i => (e.slots i).lifecycle ≠ .released).card
  capacity : e.reservedTokens ≤ e.tokenCapacity

theorem valid_initial (n tokenCapacity : ℕ) : (initial n tokenCapacity).Valid := by
  refine ⟨fun i => slotValid_empty 0, ?_, ?_, Nat.zero_le _⟩
  · simp [initial, Slot.empty, Slot.reservation]
  · simp [initial, Slot.empty]

/-- A sum over the slots when one of them is replaced. -/
theorem sum_update (slots : Fin n → Slot) (i : Fin n) (s : Slot) (f : Slot → ℕ) :
    (∑ j, f (Function.update slots i s j)) + f (slots i) = (∑ j, f (slots j)) + f s := by
  have hnew := Finset.sum_erase_add Finset.univ (fun j => f (Function.update slots i s j))
    (Finset.mem_univ i)
  have hold := Finset.sum_erase_add Finset.univ (fun j => f (slots j)) (Finset.mem_univ i)
  have hrest : ∑ j ∈ Finset.univ.erase i, f (Function.update slots i s j)
      = ∑ j ∈ Finset.univ.erase i, f (slots j) := by
    refine Finset.sum_congr rfl fun j hj => ?_
    rw [Function.update_of_ne (Finset.ne_of_mem_erase hj)]
  rw [← hnew, ← hold, hrest]
  simp only [Function.update_self]
  omega

/-- How much a slot adds to the number of live slots. -/
def weight (s : Slot) : ℕ := if s.lifecycle = .released then 0 else 1

theorem weight_released {s : Slot} (h : s.lifecycle = .released) : weight s = 0 := if_pos h

theorem weight_live {s : Slot} (h : s.lifecycle ≠ .released) : weight s = 1 := if_neg h

theorem card_eq_sum (slots : Fin n → Slot) :
    (Finset.univ.filter fun i => (slots i).lifecycle ≠ .released).card
      = ∑ i, weight (slots i) := by
  rw [Finset.card_filter]
  refine Finset.sum_congr rfl fun i _ => ?_
  by_cases h : (slots i).lifecycle = .released
  · rw [weight_released h, if_neg (not_not.mpr h)]
  · rw [weight_live h, if_pos h]

/-- A slot is replaced by one with the same reservation that is no more released than it. -/
theorem Valid.put {e : Engine n} (h : e.Valid) {i : Fin n} {s : Slot} (hs : SlotValid s)
    (hreservation : s.reservation = (e.slots i).reservation)
    (hlive : s.lifecycle = .released ↔ (e.slots i).lifecycle = .released) : (e.put i s).Valid := by
  refine ⟨fun j => ?_, ?_, ?_, h.capacity⟩
  · by_cases hj : j = i
    · subst hj
      rw [put_slots, Function.update_self]
      exact hs
    · rw [put_slots, Function.update_of_ne hj]
      exact h.slot j
  · have hsum := sum_update e.slots i s Slot.reservation
    rw [put_reserved, put_slots, h.reserved]
    omega
  · have hsum := sum_update e.slots i s weight
    have hweight : weight s = weight (e.slots i) := by
      by_cases hr : (e.slots i).lifecycle = .released
      · rw [weight_released hr, weight_released (hlive.mpr hr)]
      · rw [weight_live hr, weight_live (mt hlive.mp hr)]
    rw [put_active, put_slots, h.active, card_eq_sum, card_eq_sum]
    omega

theorem Valid.onSlot {e : Engine n} (h : e.Valid) {handle : Handle n}
    {f : Slot → OperationStatus × Slot}
    (hf : ∀ s, SlotValid s → s.lifecycle ≠ .released → SlotValid (f s).2 ∧
      (f s).2.reservation = s.reservation ∧ (f s).2.lifecycle ≠ .released) :
    (e.onSlot handle f).2.Valid := by
  unfold Engine.onSlot
  cases hfind : e.find handle with
  | none => exact h
  | some s =>
    obtain ⟨hmatches, rfl⟩ := find_eq_some.mp hfind
    obtain ⟨hvalid, hreservation, hlive⟩ := hf _ (h.slot _) hmatches.1
    exact h.put hvalid hreservation ⟨fun hr => absurd hr hlive, fun hr => absurd hr hmatches.1⟩

theorem Valid.startPrefill {e : Engine n} (h : e.Valid) (handle : Handle n)
    (hfresh : (e.slots handle.slot).promptTokensProcessed = 0) :
    (e.startPrefill handle).2.Valid := by
  unfold Engine.startPrefill Engine.onSlot
  cases hfind : e.find handle with
  | none => exact h
  | some s =>
    obtain ⟨hmatches, rfl⟩ := find_eq_some.mp hfind
    have hs := h.slot handle.slot
    have hsized := hs.sized hmatches.1
    dsimp only
    split_ifs with hlife
    · exact h.put hs rfl Iff.rfl
    · refine h.put ⟨fun hr => absurd hr (by simp), fun _ => hs.named hmatches.1, fun _ => hsized,
        hs.processed, hs.decoded, fun _ => ?_⟩ rfl ?_
      · show (e.slots handle.slot).promptTokensProcessed < (e.slots handle.slot).promptTokens
        omega
      · exact ⟨fun hr => absurd hr (by simp), fun hr => absurd hr hmatches.1⟩

theorem Valid.advancePrefill {e : Engine n} (h : e.Valid) (handle : Handle n) (tokens : ℕ) :
    (e.advancePrefill handle tokens).2.Valid := by
  refine h.onSlot fun s hs hlive => ?_
  have hsized := hs.sized hlive
  have hprocessed := hs.processed
  split_ifs with hlife htokens hfull
  · exact ⟨hs, rfl, hlive⟩
  · exact ⟨hs, rfl, hlive⟩
  · -- the prompt is complete, and decoding begins
    refine ⟨⟨fun hr => absurd hr (by simp), fun _ => hs.named hlive, fun _ => hsized, ?_,
      hs.decoded, fun hp => absurd hp (by simp)⟩, rfl, by simp⟩
    dsimp only
    omega
  · refine ⟨⟨fun hr => absurd hr hlive, fun _ => hs.named hlive, fun _ => hsized, ?_, hs.decoded,
      fun _ => ?_⟩, rfl, hlive⟩
    · dsimp only
      omega
    · dsimp only
      omega

theorem Valid.advanceDecode {e : Engine n} (h : e.Valid) (handle : Handle n) (tokens : ℕ) :
    (e.advanceDecode handle tokens).2.Valid := by
  refine h.onSlot fun s hs hlive => ?_
  split_ifs with hlife htokens
  · exact ⟨hs, rfl, hlive⟩
  · exact ⟨hs, rfl, hlive⟩
  · have hdecoded := hs.decoded
    refine ⟨⟨fun hr => absurd hr hlive, fun _ => hs.named hlive, fun _ => hs.sized hlive,
      hs.processed, ?_, fun hp => hs.prefilling hp⟩, rfl, hlive⟩
    dsimp only
    omega

theorem Valid.finish {e : Engine n} (h : e.Valid) (handle : Handle n) (reason : FinishReason) :
    (e.finish handle reason).2.Valid := by
  refine h.onSlot fun s hs hlive => ?_
  split_ifs with hlife hreason
  · exact ⟨hs, rfl, hlive⟩
  · exact ⟨⟨fun hr => absurd hr (by simp), fun _ => hs.named hlive, fun _ => hs.sized hlive,
      hs.processed, hs.decoded, fun hp => absurd hp (by simp)⟩, rfl, by simp⟩
  · exact ⟨hs, rfl, hlive⟩

theorem Valid.cancel {e : Engine n} (h : e.Valid) (handle : Handle n) :
    (e.cancel handle).2.Valid := by
  refine h.onSlot fun s hs hlive => ?_
  split_ifs with hlife
  · exact ⟨⟨fun hr => absurd hr (by simp), fun _ => hs.named hlive, fun _ => hs.sized hlive,
      hs.processed, hs.decoded, fun hp => absurd hp (by simp)⟩, rfl, by simp⟩
  · exact ⟨hs, rfl, hlive⟩

/-- An engine with a new sequence in a slot. -/
def enter (e : Engine n) (i : Fin n) (s : Slot) (reservation : ℕ) : Engine n :=
  { e.put i s with
    reservedTokens := e.reservedTokens + reservation
    activeSequences := e.activeSequences + 1 }

@[simp] theorem enter_slots (e : Engine n) (i : Fin n) (s : Slot) (reservation : ℕ) :
    (e.enter i s reservation).slots = Function.update e.slots i s := rfl

theorem enter_slot (e : Engine n) (i : Fin n) (s : Slot) (reservation : ℕ) :
    (e.enter i s reservation).slots i = s := by
  rw [enter_slots, Function.update_self]

theorem enter_put (e : Engine n) (i : Fin n) (s s' : Slot) (reservation : ℕ) :
    (e.enter i s reservation).put i s' = e.enter i s' reservation := by
  unfold enter put
  simp only [Function.update_idem]

/-- A new sequence that fits keeps the engine valid. -/
theorem Valid.enter {e : Engine n} (h : e.Valid) {i : Fin n} {s : Slot} {reservation : ℕ}
    (free : (e.slots i).lifecycle = .released) (hs : SlotValid s) (live : s.lifecycle ≠ .released)
    (hreservation : s.reservation = reservation)
    (fits : reservation ≤ e.tokenCapacity - e.reservedTokens) : (e.enter i s reservation).Valid := by
  have hcapacity := h.capacity
  have hold : (e.slots i).reservation = 0 := by
    rw [(h.slot i).released free]
    rfl
  refine ⟨fun j => ?_, ?_, ?_, ?_⟩
  · by_cases hj : j = i
    · subst hj
      rw [enter_slot]
      exact hs
    · rw [enter_slots, Function.update_of_ne hj]
      exact h.slot j
  · have hsum := sum_update e.slots i s Slot.reservation
    have hreserved := h.reserved
    show e.reservedTokens + reservation = ∑ j, (Function.update e.slots i s j).reservation
    omega
  · have hsum := sum_update e.slots i s weight
    have hlive := weight_live live
    have hfree := weight_released free
    have hactive := h.active
    show e.activeSequences + 1
      = (Finset.univ.filter fun j => (Function.update e.slots i s j).lifecycle ≠ .released).card
    rw [card_eq_sum] at hactive ⊢
    omega
  · show e.reservedTokens + reservation ≤ e.tokenCapacity
    omega

/-- A released slot gets a new generation. -/
theorem Valid.put_empty {e : Engine n} (h : e.Valid) {i : Fin n}
    (free : (e.slots i).lifecycle = .released) (generation : ℕ) :
    (e.put i (Slot.empty generation)).Valid := by
  refine h.put (slotValid_empty generation) ?_ ⟨fun _ => free, fun _ => rfl⟩
  rw [(h.slot i).released free]
  rfl

/-- What an admission does. -/
inductive Admission (e : Engine n) (requestId attemptId : PyStr) (prompt budget : ℕ) :
    Engine n × AdmissionStatus × Option (Handle n) → Prop
  | refused (status : AdmissionStatus) :
      Admission e requestId attemptId prompt budget (e, status, none)
  | admitted (i : Fin n) (free : (e.slots i).lifecycle = .released)
      (named : requestId ≠ [] ∧ attemptId ≠ []) (sized : 0 < prompt ∧ 0 < budget)
      (fits : prompt + budget ≤ e.tokenCapacity - e.reservedTokens) :
      Admission e requestId attemptId prompt budget
        (e.enter i (admittedSlot (e.slots i) requestId attemptId prompt budget) (prompt + budget),
          .admitted, some ((admittedSlot (e.slots i) requestId attemptId prompt budget).handle i))

theorem admission (e : Engine n) (requestId attemptId : PyStr) (prompt budget : ℕ) :
    Admission e requestId attemptId prompt budget (e.admitSequence requestId attemptId prompt budget) := by
  unfold admitSequence
  split_ifs with hnames hsize hduplicate hactive hfits
  · exact .refused _
  · exact .refused _
  · exact .refused _
  · exact .refused _
  · exact .refused _
  · cases hfree : e.firstReleased with
    | none => exact .refused _
    | some i =>
      have hreleased : (e.slots i).lifecycle = .released := by
        simpa using List.find?_some hfree
      simp only [not_or] at hnames
      exact .admitted i hreleased ⟨hnames.1, hnames.2.1⟩ (by omega) (by omega)

theorem Valid.admitSequence {e : Engine n} (h : e.Valid) (requestId attemptId : PyStr) (prompt budget : ℕ) :
    (e.admitSequence requestId attemptId prompt budget).1.Valid := by
  have hadmission := admission e requestId attemptId prompt budget
  revert hadmission
  generalize e.admitSequence requestId attemptId prompt budget = result
  rintro (status | ⟨i, free, named, sized, fits⟩)
  · exact h
  · refine h.enter free ?_ (by simp [admittedSlot]) rfl fits
    exact ⟨fun hr => absurd hr (by simp [admittedSlot]), fun _ => named, fun _ => sized,
      Nat.zero_le _, Nat.zero_le _, fun hp => absurd hp (by simp [admittedSlot])⟩

theorem Valid.release {e : Engine n} (h : e.Valid) (handle : Handle n) :
    (e.release handle).2.Valid := by
  unfold Engine.release
  cases hfind : e.find handle with
  | none =>
    dsimp only
    split_ifs
    · exact h
    · exact h
  | some s =>
    obtain ⟨hmatches, rfl⟩ := find_eq_some.mp hfind
    dsimp only
    split_ifs with hterminal
    · exact h
    · set i := handle.slot with hi
      set s := e.slots i with hs
      have hcapacity := h.capacity
      have hsum := sum_update e.slots i (Slot.empty s.generation) Slot.reservation
      have hempty : (Slot.empty s.generation).reservation = 0 := rfl
      have hreserved := h.reserved
      refine ⟨fun j => ?_, ?_, ?_, ?_⟩
      · by_cases hj : j = i
        · subst hj
          show SlotValid (Function.update e.slots i _ i)
          rw [Function.update_self]
          exact slotValid_empty _
        · show SlotValid (Function.update e.slots i _ j)
          rw [Function.update_of_ne hj]
          exact h.slot j
      · have hs' : (e.slots i).reservation = s.reservation := rfl
        show e.reservedTokens - s.reservation
          = ∑ j, (Function.update e.slots i (Slot.empty s.generation) j).reservation
        omega
      · have hcount := sum_update e.slots i (Slot.empty s.generation) weight
        have hlive : weight (e.slots i) = 1 := weight_live hmatches.1
        have hgone : weight (Slot.empty s.generation) = 0 := weight_released rfl
        have hactive := h.active
        show e.activeSequences - 1 = (Finset.univ.filter fun j =>
          (Function.update e.slots i (Slot.empty s.generation) j).lifecycle ≠ .released).card
        rw [card_eq_sum] at hactive ⊢
        omega
      · show e.reservedTokens - s.reservation ≤ e.tokenCapacity
        omega

/-! ### Operations on the slot of a handle -/

/-- The handle of a live slot finds it. -/
theorem find_handle {e : Engine n} {i : Fin n} (h : (e.slots i).lifecycle ≠ .released) :
    e.find ((e.slots i).handle i) = some (e.slots i) :=
  find_eq_some.mpr ⟨Slot.matches_handle.mpr h, rfl⟩

theorem onSlot_handle {e : Engine n} {i : Fin n} (h : (e.slots i).lifecycle ≠ .released)
    (f : Slot → OperationStatus × Slot) :
    e.onSlot ((e.slots i).handle i) f = ((f (e.slots i)).1, e.put i (f (e.slots i)).2) := by
  unfold onSlot
  rw [find_handle h]
  rfl

/-- An operation changes no other slot. -/
theorem onSlot_frame (e : Engine n) (h : Handle n) (f : Slot → OperationStatus × Slot) :
    (∀ j ≠ h.slot, (e.onSlot h f).2.slots j = e.slots j) ∧
      (e.onSlot h f).2.tokenCapacity = e.tokenCapacity ∧
      (e.onSlot h f).2.reservedTokens = e.reservedTokens ∧
      (e.onSlot h f).2.activeSequences = e.activeSequences := by
  unfold onSlot
  cases e.find h with
  | none => exact ⟨fun _ _ => rfl, rfl, rfl, rfl⟩
  | some s => exact ⟨fun j hj => Function.update_of_ne hj _ _, rfl, rfl, rfl⟩

theorem onSlot_enter {e : Engine n} {i : Fin n} {s : Slot} (h : s.lifecycle ≠ .released)
    (reservation : ℕ) (f : Slot → OperationStatus × Slot) :
    (e.enter i s reservation).onSlot (s.handle i) f = ((f s).1, e.enter i (f s).2 reservation) := by
  have hslot := enter_slot e i s reservation
  have hop := onSlot_handle (e := e.enter i s reservation) (i := i) (by rw [hslot]; exact h) f
  rw [hslot, enter_put] at hop
  exact hop

/-- A new sequence that is released again leaves only a new generation. -/
theorem release_enter {e : Engine n} {i : Fin n} {s : Slot} (h : s.lifecycle = .terminal) :
    (e.enter i s s.reservation).release (s.handle i)
      = (.released, e.put i (Slot.empty s.generation)) := by
  have hslot := enter_slot e i s s.reservation
  have hfind : (e.enter i s s.reservation).find (s.handle i) = some s := by
    have hlive : ((e.enter i s s.reservation).slots i).lifecycle ≠ .released := by
      rw [hslot, h]
      simp
    have hfound := find_handle hlive
    rw [hslot] at hfound
    exact hfound
  unfold release
  rw [hfind]
  dsimp only
  rw [if_neg (not_not.mpr h)]
  show (ReleaseStatus.released, ({ (e.enter i s s.reservation).put i (Slot.empty s.generation) with
    reservedTokens := e.reservedTokens + s.reservation - s.reservation
    activeSequences := e.activeSequences + 1 - 1 } : Engine n)) = _
  rw [enter_put, Nat.add_sub_cancel, Nat.add_sub_cancel]
  rfl

end Engine

end Native
