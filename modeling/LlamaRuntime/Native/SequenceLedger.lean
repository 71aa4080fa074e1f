/-
The sequence engine as any caller may use it.

* `addSize`, `subSize` — arithmetic on `std::size_t`, which stops where it would wrap;
* `AnyHandle`, `Operation`, `Ledger.step` — handles and amounts of any kind, and the eight
  operations with the arithmetic of the source;
* `Stepped` — what one operation does, from which the invariants follow;
* `ledger_kept` — no operation wraps, the counters are the sums over the slots, and what is
  refused changes nothing;
* `never_live_again` — a handle that was released is refused for ever.
-/
import LlamaRuntime.Native.SequenceEngine

namespace Native

/-! ### Sizes -/

/-- A value of `std::size_t` -/
abbrev Size := Fin (2 ^ 64)

instance Size.count_ne_zero : NeZero (2 ^ 64) := ⟨by decide⟩

theorem Size.le_sizeMax (a : Size) : a.val ≤ sizeMax := by
  have h := a.isLt
  unfold sizeMax
  omega

/-- The operation that would wrap. -/
inductive SizeFault where
  | add (a b : ℕ)
  | sub (a b : ℕ)

/-- `a + b` -/
def addSize (a b : ℕ) : Except SizeFault ℕ :=
  if a + b ≤ sizeMax then .ok (a + b) else .error (.add a b)

/-- `a - b` -/
def subSize (a b : ℕ) : Except SizeFault ℕ :=
  if b ≤ a then .ok (a - b) else .error (.sub a b)

theorem addSize_ok {a b : ℕ} (h : a + b ≤ sizeMax) : addSize a b = .ok (a + b) := if_pos h

theorem subSize_ok {a b : ℕ} (h : b ≤ a) : subSize a b = .ok (a - b) := if_pos h

/-! ### Operations -/

/-- A `SequenceHandle` as a caller gives it. -/
structure AnyHandle where
  slot : ℤ
  generation : ℕ
  requestId : PyStr
  attemptId : PyStr
  deriving DecidableEq

/-- The handle, if its slot is one of the engine. -/
def AnyHandle.within (h : AnyHandle) (n : ℕ) : Option (Handle n) :=
  if hslot : 0 ≤ h.slot ∧ h.slot.toNat < n then
    some ⟨⟨h.slot.toNat, hslot.2⟩, h.generation, h.requestId, h.attemptId⟩
  else none

/-- `static_cast<std::int32_t>(index)` of a handle that the engine makes. -/
def Handle.any {n : ℕ} (h : Handle n) : AnyHandle :=
  ⟨h.slot.val, h.generation, h.requestId, h.attemptId⟩

/-- The handles that the engine makes are found in it. -/
theorem Handle.within_any {n : ℕ} (h : Handle n) : h.any.within n = some h := by
  unfold Handle.any AnyHandle.within
  have hslot : 0 ≤ (h.slot.val : ℤ) ∧ (h.slot.val : ℤ).toNat < n := by
    have := h.slot.isLt
    constructor <;> omega
  rw [dif_pos hslot]
  rfl

theorem AnyHandle.any_within {n : ℕ} {h : AnyHandle} {found : Handle n}
    (hfound : h.within n = some found) : found.any = h := by
  unfold AnyHandle.within at hfound
  split at hfound
  · next hslot =>
    obtain rfl := Option.some_inj.mp hfound
    have hnat : (h.slot.toNat : ℤ) = h.slot := Int.toNat_of_nonneg hslot.1
    show (⟨(h.slot.toNat : ℤ), h.generation, h.requestId, h.attemptId⟩ : AnyHandle) = h
    rw [hnat]
  · exact absurd hfound (by simp)

inductive Operation where
  | admitSequence (requestId attemptId : PyStr) (promptTokens outputTokenBudget : Size)
  | startPrefill (handle : AnyHandle)
  | advancePrefill (handle : AnyHandle) (tokens : Size)
  | advanceDecode (handle : AnyHandle) (tokens : Size)
  | finish (handle : AnyHandle) (reason : FinishReason)
  | cancel (handle : AnyHandle)
  | release (handle : AnyHandle)
  | nextRunnable

/-- The handle that an operation names. -/
def Operation.handle? : Operation → Option AnyHandle
  | .startPrefill handle => some handle
  | .advancePrefill handle _ => some handle
  | .advanceDecode handle _ => some handle
  | .finish handle _ => some handle
  | .cancel handle => some handle
  | .release handle => some handle
  | .admitSequence .. => none
  | .nextRunnable => none

/-- What an operation returns. -/
inductive Outcome where
  | admission (status : AdmissionStatus) (handle : Option AnyHandle)
  | operation (status : OperationStatus)
  | release (status : ReleaseStatus) (tokens : ℕ)
  | runnable (handle : Option AnyHandle)
  deriving DecidableEq

/-- The operation reports success. -/
def Outcome.Success : Outcome → Prop
  | .admission status _ => status = .admitted
  | .operation status => status = .applied
  | .release status _ => status = .released
  | .runnable handle => handle ≠ none

/-- The handle that an admission returned. -/
def Outcome.admitted? : Outcome → Option AnyHandle
  | .admission .admitted handle => handle
  | _ => none

/-- The engine with its round robin cursor. -/
structure Ledger (n : ℕ) where
  engine : Engine n
  cursor : ℕ := 0

variable {n : ℕ}

namespace Ledger

/-- `SequenceEngine::SequenceEngine`; `none` where it throws. -/
def construct (maxSequences tokenCapacity : Size) : Option (Ledger maxSequences.val) :=
  if maxSequences.val = 0 then none
  else if tokenCapacity.val = 0 then none
  else if 2 ^ 31 - 1 < maxSequences.val then none
  else some { engine := Engine.initial _ tokenCapacity.val }

/-- `SequenceEngine::find` -/
def find (e : Engine n) (handle : AnyHandle) : Option (Fin n × Slot) :=
  match handle.within n with
  | none => none
  | some h => (e.find h).map fun slot => (h.slot, slot)

/-- `Slot::reservation` -/
def reservation (s : Slot) : Except SizeFault ℕ := addSize s.promptTokens s.outputTokenBudget

def admitSequence (e : Engine n) (requestId attemptId : PyStr) (promptTokens outputTokenBudget : ℕ) :
    Except SizeFault (Engine n × AdmissionStatus × Option (Handle n)) :=
  if requestId = [] ∨ attemptId = [] ∨ promptTokens = 0 ∨ outputTokenBudget = 0 then
    .ok (e, .invalidRequest, none)
  else do
    let most ← subSize sizeMax outputTokenBudget
    if most < promptTokens then .ok (e, .invalidRequest, none)
    else if e.Duplicate requestId attemptId then .ok (e, .duplicate, none)
    else if e.activeSequences = n then .ok (e, .sequenceCapacity, none)
    else do
      let reservation ← addSize promptTokens outputTokenBudget
      let room ← subSize e.tokenCapacity e.reservedTokens
      if room < reservation then .ok (e, .tokenCapacity, none)
      else
        match e.firstReleased with
        | none => .ok (e, .sequenceCapacity, none)
        | some i => do
          let slot := Engine.admittedSlot (e.slots i) requestId attemptId promptTokens outputTokenBudget
          let reserved ← addSize e.reservedTokens reservation
          let active ← addSize e.activeSequences 1
          .ok ({ e.put i slot with reservedTokens := reserved, activeSequences := active },
            .admitted, some (slot.handle i))

def startPrefill (e : Engine n) (handle : AnyHandle) : Engine n × OperationStatus :=
  match find e handle with
  | none => (e, .staleHandle)
  | some (i, slot) =>
    if slot.lifecycle ≠ .admitted then (e, .invalidState)
    else (e.put i { slot with lifecycle := .prefill }, .applied)

def advancePrefill (e : Engine n) (handle : AnyHandle) (tokens : ℕ) :
    Except SizeFault (Engine n × OperationStatus) :=
  match find e handle with
  | none => .ok (e, .staleHandle)
  | some (i, slot) =>
    if slot.lifecycle ≠ .prefill then .ok (e, .invalidState)
    else do
      let remaining ← subSize slot.promptTokens slot.promptTokensProcessed
      if tokens = 0 ∨ remaining < tokens then .ok (e, .invalidAmount)
      else do
        let processed ← addSize slot.promptTokensProcessed tokens
        .ok (e.put i
          { slot with
            promptTokensProcessed := processed
            lifecycle := if processed = slot.promptTokens then .decode else slot.lifecycle },
          .applied)

def advanceDecode (e : Engine n) (handle : AnyHandle) (tokens : ℕ) :
    Except SizeFault (Engine n × OperationStatus) :=
  match find e handle with
  | none => .ok (e, .staleHandle)
  | some (i, slot) =>
    if slot.lifecycle ≠ .decode then .ok (e, .invalidState)
    else do
      let remaining ← subSize slot.outputTokenBudget slot.decodedTokens
      if tokens = 0 ∨ remaining < tokens then .ok (e, .invalidAmount)
      else do
        let decoded ← addSize slot.decodedTokens tokens
        .ok (e.put i { slot with decodedTokens := decoded }, .applied)

def finish (e : Engine n) (handle : AnyHandle) (reason : FinishReason) : Engine n × OperationStatus :=
  match find e handle with
  | none => (e, .staleHandle)
  | some (i, slot) =>
    if slot.lifecycle ≠ .decode then (e, .invalidState)
    else if reason ≠ .stop ∧ reason ≠ .length ∧ reason ≠ .failed then (e, .invalidAmount)
    else (e.put i { slot with lifecycle := .terminal, finishReason := reason }, .applied)

def cancel (e : Engine n) (handle : AnyHandle) : Engine n × OperationStatus :=
  match find e handle with
  | none => (e, .staleHandle)
  | some (i, slot) =>
    if slot.lifecycle ≠ .admitted ∧ slot.lifecycle ≠ .prefill ∧ slot.lifecycle ≠ .decode then
      (e, .invalidState)
    else (e.put i { slot with lifecycle := .terminal, finishReason := .cancelled }, .applied)

/-- The slot of a handle is free in the generation of the handle. -/
def FreeIn (e : Engine n) (handle : AnyHandle) : Prop :=
  ∃ h ∈ handle.within n, (e.slots h.slot).generation = h.generation ∧
    (e.slots h.slot).lifecycle = .released

instance (e : Engine n) (handle : AnyHandle) : Decidable (FreeIn e handle) :=
  inferInstanceAs (Decidable (∃ h ∈ handle.within n, _))

def release (e : Engine n) (handle : AnyHandle) : Except SizeFault (Engine n × ReleaseStatus × ℕ) :=
  match find e handle with
  | none => .ok (e, if FreeIn e handle then .alreadyReleased else .staleHandle, 0)
  | some (i, slot) =>
    if slot.lifecycle ≠ .terminal then .ok (e, .invalidState, 0)
    else do
      let released ← reservation slot
      let reserved ← subSize e.reservedTokens released
      let active ← subSize e.activeSequences 1
      .ok ({ e.put i (Slot.empty slot.generation) with
          reservedTokens := reserved
          activeSequences := active }, .released, released)

/-- `runnable` -/
def runnable (lifecycle : Lifecycle) : Bool := lifecycle = .prefill || lifecycle = .decode

/-- The loop of `next_runnable` over the offsets that are left. -/
def scanRunnable (e : Engine n) (cursor : ℕ) : List (Fin n) → Except SizeFault (Option (Fin n))
  | [] => .ok none
  | offset :: rest => do
    let position ← addSize cursor offset.val
    if runnable (e.slots ⟨position % n, Nat.mod_lt _ offset.pos⟩).lifecycle then
      .ok (some ⟨position % n, Nat.mod_lt _ offset.pos⟩)
    else scanRunnable e cursor rest

def nextRunnable (l : Ledger n) : Except SizeFault (Ledger n × Option (Handle n)) := do
  match ← scanRunnable l.engine l.cursor (List.finRange n) with
  | none => .ok (l, none)
  | some i => do
    let after ← addSize i.val 1
    .ok ({ l with cursor := after % n }, some ((l.engine.slots i).handle i))

/-- One operation. -/
def step (l : Ledger n) : Operation → Except SizeFault (Ledger n × Outcome)
  | .admitSequence requestId attemptId promptTokens outputTokenBudget =>
    (admitSequence l.engine requestId attemptId promptTokens.val outputTokenBudget.val).map
      fun result => ({ l with engine := result.1 },
        .admission result.2.1 (result.2.2.map Handle.any))
  | .startPrefill handle =>
    .ok ({ l with engine := (startPrefill l.engine handle).1 },
      .operation (startPrefill l.engine handle).2)
  | .advancePrefill handle tokens =>
    (advancePrefill l.engine handle tokens.val).map
      fun result => ({ l with engine := result.1 }, .operation result.2)
  | .advanceDecode handle tokens =>
    (advanceDecode l.engine handle tokens.val).map
      fun result => ({ l with engine := result.1 }, .operation result.2)
  | .finish handle reason =>
    .ok ({ l with engine := (finish l.engine handle reason).1 },
      .operation (finish l.engine handle reason).2)
  | .cancel handle =>
    .ok ({ l with engine := (cancel l.engine handle).1 }, .operation (cancel l.engine handle).2)
  | .release handle =>
    (release l.engine handle).map
      fun result => ({ l with engine := result.1 }, .release result.2.1 result.2.2)
  | .nextRunnable =>
    (nextRunnable l).map fun result => (result.1, .runnable (result.2.map Handle.any))

/-- The operations of a run, with what each returned. -/
def run (l : Ledger n) : List Operation → Except SizeFault (Ledger n × List Outcome)
  | [] => .ok (l, [])
  | op :: rest => do
    let (l, outcome) ← l.step op
    let (l, outcomes) ← run l rest
    .ok (l, outcome :: outcomes)

/-! ### What every run keeps -/

/-- An engine of a run: its counters, its slots and its sizes. -/
structure Kept (l : Ledger n) : Prop where
  valid : l.engine.Valid
  /-- nothing of a sequence that is only admitted has been processed -/
  fresh : ∀ i, (l.engine.slots i).lifecycle = .admitted → (l.engine.slots i).promptTokensProcessed = 0
  distinct : ∀ i j, (l.engine.slots i).lifecycle ≠ .released →
    (l.engine.slots j).lifecycle ≠ .released →
    (l.engine.slots i).requestId = (l.engine.slots j).requestId →
    (l.engine.slots i).attemptId = (l.engine.slots j).attemptId → i = j
  cursor : l.cursor < n
  slots : n ≤ 2 ^ 31 - 1
  capacity : l.engine.tokenCapacity ≤ sizeMax

theorem kept_construct {maxSequences tokenCapacity : Size} {l : Ledger maxSequences.val}
    (h : construct maxSequences tokenCapacity = some l) : l.Kept := by
  unfold construct at h
  split_ifs at h with hsequences htokens hmost
  obtain rfl := Option.some_inj.mp h
  refine ⟨Engine.valid_initial _ _, fun i hi => ?_, fun i j hi => ?_, ?_, ?_, ?_⟩
  · exact absurd hi (by simp [Engine.initial, Slot.empty])
  · exact absurd rfl hi
  · show 0 < maxSequences.val
    omega
  · omega
  · exact tokenCapacity.le_sizeMax

theorem find_eq_some {e : Engine n} {handle : AnyHandle} {i : Fin n} {s : Slot}
    (h : find e handle = some (i, s)) :
    ∃ found ∈ handle.within n, found.slot = i ∧ (e.slots i).Matches found ∧ e.slots i = s := by
  unfold find at h
  cases hwithin : handle.within n with
  | none =>
    rw [hwithin] at h
    exact absurd h (by simp)
  | some found =>
    rw [hwithin] at h
    obtain ⟨slot, hslot, heq⟩ := Option.map_eq_some_iff.mp h
    obtain ⟨rfl, rfl⟩ := Prod.mk.inj heq
    obtain ⟨hmatches, hslot⟩ := Engine.find_eq_some.mp hslot
    exact ⟨found, rfl, rfl, hmatches, hslot⟩

/-- A live slot goes on, with its generation, its ids and its reservation. -/
structure SlotStep (s s' : Slot) : Prop where
  live : s.lifecycle ≠ .released
  still : s'.lifecycle ≠ .released
  generation : s'.generation = s.generation
  requestId : s'.requestId = s.requestId
  attemptId : s'.attemptId = s.attemptId
  reservation : s'.reservation = s.reservation
  valid : Engine.SlotValid s'
  entered : s'.lifecycle ≠ .admitted

/-- An engine without the sequence of a slot. -/
def leave (e : Engine n) (i : Fin n) : Engine n :=
  { e.put i (Slot.empty (e.slots i).generation) with
    reservedTokens := e.reservedTokens - (e.slots i).reservation
    activeSequences := e.activeSequences - 1 }

/-- What one operation does. -/
inductive Stepped (l : Ledger n) : Operation → Ledger n × Outcome → Prop
  | refused {op : Operation} (outcome : Outcome) (unsuccessful : ¬ outcome.Success) :
      Stepped l op (l, outcome)
  | admitted {requestId attemptId : PyStr} {prompt budget : Size} (i : Fin n)
      (free : (l.engine.slots i).lifecycle = .released)
      (named : requestId ≠ [] ∧ attemptId ≠ []) (sized : 0 < prompt.val ∧ 0 < budget.val)
      (new : ¬ l.engine.Duplicate requestId attemptId)
      (fits : prompt.val + budget.val ≤ l.engine.tokenCapacity - l.engine.reservedTokens) :
      Stepped l (.admitSequence requestId attemptId prompt budget)
        ({ l with
            engine := l.engine.enter i
              (Engine.admittedSlot (l.engine.slots i) requestId attemptId prompt.val budget.val)
              (prompt.val + budget.val) },
          .admission .admitted (some
            ((Engine.admittedSlot (l.engine.slots i) requestId attemptId prompt.val
              budget.val).handle i).any))
  | advanced {op : Operation} (i : Fin n) (s : Slot) (next : SlotStep (l.engine.slots i) s) :
      Stepped l op ({ l with engine := l.engine.put i s }, .operation .applied)
  | released {handle : AnyHandle} (found : Handle n) (within : handle.within n = some found)
      (owner : (l.engine.slots found.slot).Matches found)
      (terminal : (l.engine.slots found.slot).lifecycle = .terminal) :
      Stepped l (.release handle)
        ({ l with engine := leave l.engine found.slot },
          .release .released (l.engine.slots found.slot).reservation)
  | turned (i : Fin n) (runs : runnable (l.engine.slots i).lifecycle = true) :
      Stepped l .nextRunnable
        ({ l with cursor := (i.val + 1) % n },
          .runnable (some ((l.engine.slots i).handle i).any))

section Steps

variable {l : Ledger n}

/-- The reservation of a slot is part of what is reserved. -/
theorem Kept.reservation_le (h : l.Kept) (i : Fin n) :
    (l.engine.slots i).reservation ≤ l.engine.reservedTokens := by
  rw [h.valid.reserved]
  exact Finset.single_le_sum (fun j _ => Nat.zero_le (l.engine.slots j).reservation) (Finset.mem_univ i)

theorem Kept.reservation_le_sizeMax (h : l.Kept) (i : Fin n) :
    (l.engine.slots i).promptTokens + (l.engine.slots i).outputTokenBudget ≤ sizeMax :=
  ((h.reservation_le i).trans h.valid.capacity).trans h.capacity

/-- There is room to count one more sequence, and a live one is counted. -/
theorem Kept.active_succ_le (h : l.Kept) : l.engine.activeSequences + 1 ≤ sizeMax := by
  have hactive : l.engine.activeSequences ≤ n := by
    rw [h.valid.active]
    exact (Finset.card_le_univ _).trans_eq (Fintype.card_fin n)
  have hslots := h.slots
  unfold sizeMax
  omega

theorem Kept.one_le_active (h : l.Kept) {i : Fin n}
    (live : (l.engine.slots i).lifecycle ≠ .released) : 1 ≤ l.engine.activeSequences := by
  rw [h.valid.active]
  refine Finset.card_pos.mpr ⟨i, ?_⟩
  simpa using live

theorem admit_ok (h : l.Kept) (requestId attemptId : PyStr) (prompt budget : Size) :
    ∃ result, admitSequence l.engine requestId attemptId prompt.val budget.val = .ok result ∧
      Stepped l (.admitSequence requestId attemptId prompt budget)
        ({ l with engine := result.1 }, .admission result.2.1 (result.2.2.map Handle.any)) := by
  have hbudget := budget.le_sizeMax
  have hcapacity := h.capacity
  have hreserved := h.valid.capacity
  unfold admitSequence
  by_cases hinvalid : requestId = [] ∨ attemptId = [] ∨ prompt.val = 0 ∨ budget.val = 0
  · rw [if_pos hinvalid]
    exact ⟨_, rfl, .refused _ (by simp [Outcome.Success])⟩
  rw [if_neg hinvalid]
  simp only [not_or] at hinvalid
  rw [subSize_ok hbudget]
  dsimp only [bind, Except.bind]
  split_ifs with hsize hduplicate hfull
  · exact ⟨_, rfl, .refused _ (by simp [Outcome.Success])⟩
  · exact ⟨_, rfl, .refused _ (by simp [Outcome.Success])⟩
  · exact ⟨_, rfl, .refused _ (by simp [Outcome.Success])⟩
  have hsum : prompt.val + budget.val ≤ sizeMax := by omega
  rw [addSize_ok hsum, subSize_ok hreserved]
  dsimp only
  split_ifs with hroom
  · exact ⟨_, rfl, .refused _ (by simp [Outcome.Success])⟩
  cases hfree : l.engine.firstReleased with
  | none => exact ⟨_, rfl, .refused _ (by simp [Outcome.Success])⟩
  | some i =>
    have hreleased : (l.engine.slots i).lifecycle = .released := by
      simpa using List.find?_some hfree
    have hone := h.active_succ_le
    dsimp only
    rw [addSize_ok (show l.engine.reservedTokens + (prompt.val + budget.val) ≤ sizeMax by omega),
      addSize_ok hone]
    refine ⟨_, rfl, .admitted i hreleased ⟨hinvalid.1, hinvalid.2.1⟩ ?_ hduplicate ?_⟩
    · omega
    · omega

theorem stepped_startPrefill (h : l.Kept) (handle : AnyHandle) :
    Stepped l (.startPrefill handle)
      ({ l with engine := (startPrefill l.engine handle).1 }, .operation (startPrefill l.engine handle).2) := by
  unfold startPrefill
  cases hfind : find l.engine handle with
  | none => exact .refused _ (by simp [Outcome.Success])
  | some found =>
    obtain ⟨i, s⟩ := found
    obtain ⟨h', -, -, hmatches, rfl⟩ := find_eq_some hfind
    dsimp only
    split_ifs with hlifecycle
    · exact .refused _ (by simp [Outcome.Success])
    · rw [not_not] at hlifecycle
      have hs := h.valid.slot i
      have hsized := hs.sized hmatches.1
      have hfresh := h.fresh i hlifecycle
      refine .advanced i _ ⟨hmatches.1, by simp, rfl, rfl, rfl, rfl, ?_, by simp⟩
      refine ⟨fun hr => absurd hr (by simp), fun _ => hs.named hmatches.1, fun _ => hsized,
        hs.processed, hs.decoded, fun _ => ?_⟩
      show (l.engine.slots i).promptTokensProcessed < (l.engine.slots i).promptTokens
      omega

theorem advancePrefill_ok (h : l.Kept) (handle : AnyHandle) (tokens : Size) :
    ∃ result, advancePrefill l.engine handle tokens.val = .ok result ∧
      Stepped l (.advancePrefill handle tokens) ({ l with engine := result.1 }, .operation result.2) := by
  have htokens := tokens.le_sizeMax
  unfold advancePrefill
  cases hfind : find l.engine handle with
  | none => exact ⟨_, rfl, .refused _ (by simp [Outcome.Success])⟩
  | some found =>
    obtain ⟨i, s⟩ := found
    obtain ⟨h', -, -, hmatches, rfl⟩ := find_eq_some hfind
    have hs := h.valid.slot i
    have hsized := hs.sized hmatches.1
    have hprocessed := hs.processed
    dsimp only
    split_ifs with hlifecycle
    · exact ⟨_, rfl, .refused _ (by simp [Outcome.Success])⟩
    rw [not_not] at hlifecycle
    rw [subSize_ok hprocessed]
    dsimp only [bind, Except.bind]
    split_ifs with hamount
    · exact ⟨_, rfl, .refused _ (by simp [Outcome.Success])⟩
    have hreservation := h.reservation_le_sizeMax i
    rw [addSize_ok (show (l.engine.slots i).promptTokensProcessed + tokens.val ≤ sizeMax by omega)]
    refine ⟨_, rfl, .advanced i _ ⟨hmatches.1, ?_, rfl, rfl, rfl, rfl, ?_, ?_⟩⟩
    · dsimp only
      split_ifs
      · simp
      · exact hmatches.1
    · -- decoding begins when the prompt is complete
      refine ⟨fun hr => ?_, fun _ => hs.named hmatches.1, fun _ => hsized, ?_, hs.decoded,
        fun hp => ?_⟩
      · dsimp only at hr
        split_ifs at hr
        exact absurd hr hmatches.1
      · show (l.engine.slots i).promptTokensProcessed + tokens.val ≤ (l.engine.slots i).promptTokens
        omega
      · dsimp only at hp ⊢
        split_ifs at hp with hfull
        omega
    · dsimp only
      split_ifs
      · simp
      · rw [hlifecycle]
        simp

theorem advanceDecode_ok (h : l.Kept) (handle : AnyHandle) (tokens : Size) :
    ∃ result, advanceDecode l.engine handle tokens.val = .ok result ∧
      Stepped l (.advanceDecode handle tokens) ({ l with engine := result.1 }, .operation result.2) := by
  unfold advanceDecode
  cases hfind : find l.engine handle with
  | none => exact ⟨_, rfl, .refused _ (by simp [Outcome.Success])⟩
  | some found =>
    obtain ⟨i, s⟩ := found
    obtain ⟨h', -, -, hmatches, rfl⟩ := find_eq_some hfind
    have hs := h.valid.slot i
    have hdecoded := hs.decoded
    dsimp only
    split_ifs with hlifecycle
    · exact ⟨_, rfl, .refused _ (by simp [Outcome.Success])⟩
    rw [not_not] at hlifecycle
    rw [subSize_ok hdecoded]
    dsimp only [bind, Except.bind]
    split_ifs with hamount
    · exact ⟨_, rfl, .refused _ (by simp [Outcome.Success])⟩
    have hreservation := h.reservation_le_sizeMax i
    rw [addSize_ok (show (l.engine.slots i).decodedTokens + tokens.val ≤ sizeMax by omega)]
    refine ⟨_, rfl, .advanced i _ ⟨hmatches.1, hmatches.1, rfl, rfl, rfl, rfl, ?_, ?_⟩⟩
    · refine ⟨fun hr => absurd hr hmatches.1, fun _ => hs.named hmatches.1,
        fun _ => hs.sized hmatches.1, hs.processed, ?_, fun hp => hs.prefilling hp⟩
      show (l.engine.slots i).decodedTokens + tokens.val ≤ (l.engine.slots i).outputTokenBudget
      omega
    · show (l.engine.slots i).lifecycle ≠ .admitted
      rw [hlifecycle]
      simp

/-- A live slot becomes terminal. -/
theorem slotStep_terminal {s : Slot} (hs : Engine.SlotValid s) (live : s.lifecycle ≠ .released)
    (reason : FinishReason) : SlotStep s { s with lifecycle := .terminal, finishReason := reason } :=
  ⟨live, by simp, rfl, rfl, rfl, rfl,
    ⟨fun hr => absurd hr (by simp), fun _ => hs.named live, fun _ => hs.sized live, hs.processed,
      hs.decoded, fun hp => absurd hp (by simp)⟩, by simp⟩

theorem stepped_finish (h : l.Kept) (handle : AnyHandle) (reason : FinishReason) :
    Stepped l (.finish handle reason)
      ({ l with engine := (finish l.engine handle reason).1 }, .operation (finish l.engine handle reason).2) := by
  unfold finish
  cases hfind : find l.engine handle with
  | none => exact .refused _ (by simp [Outcome.Success])
  | some found =>
    obtain ⟨i, s⟩ := found
    obtain ⟨h', -, -, hmatches, rfl⟩ := find_eq_some hfind
    dsimp only
    split_ifs
    · exact .refused _ (by simp [Outcome.Success])
    · exact .refused _ (by simp [Outcome.Success])
    · exact .advanced i _ (slotStep_terminal (h.valid.slot i) hmatches.1 reason)

theorem stepped_cancel (h : l.Kept) (handle : AnyHandle) :
    Stepped l (.cancel handle)
      ({ l with engine := (cancel l.engine handle).1 }, .operation (cancel l.engine handle).2) := by
  unfold cancel
  cases hfind : find l.engine handle with
  | none => exact .refused _ (by simp [Outcome.Success])
  | some found =>
    obtain ⟨i, s⟩ := found
    obtain ⟨h', -, -, hmatches, rfl⟩ := find_eq_some hfind
    dsimp only
    split_ifs
    · exact .refused _ (by simp [Outcome.Success])
    · exact .advanced i _ (slotStep_terminal (h.valid.slot i) hmatches.1 .cancelled)

theorem release_ok (h : l.Kept) (handle : AnyHandle) :
    ∃ result, release l.engine handle = .ok result ∧
      Stepped l (.release handle)
        ({ l with engine := result.1 }, .release result.2.1 result.2.2) := by
  unfold release
  cases hfind : find l.engine handle with
  | none =>
    refine ⟨_, rfl, .refused _ ?_⟩
    show ¬ (if FreeIn l.engine handle then ReleaseStatus.alreadyReleased else .staleHandle) = .released
    split_ifs
    · simp
    · simp
  | some found =>
    obtain ⟨i, s⟩ := found
    obtain ⟨h', hwithin, rfl, hmatches, rfl⟩ := find_eq_some hfind
    dsimp only
    split_ifs with hterminal
    · exact ⟨_, rfl, .refused _ (by simp [Outcome.Success])⟩
    rw [not_not] at hterminal
    have hone := h.one_le_active hmatches.1
    unfold reservation
    rw [addSize_ok (h.reservation_le_sizeMax h'.slot)]
    dsimp only [bind, Except.bind]
    have hreserved : (l.engine.slots h'.slot).promptTokens + (l.engine.slots h'.slot).outputTokenBudget
        ≤ l.engine.reservedTokens := h.reservation_le h'.slot
    rw [subSize_ok hreserved]
    dsimp only
    rw [subSize_ok hone]
    exact ⟨_, rfl, .released h' hwithin hmatches hterminal⟩

theorem scanRunnable_ok (h : l.Kept) (offsets : List (Fin n)) :
    ∃ found, scanRunnable l.engine l.cursor offsets = .ok found ∧
      ∀ i ∈ found, runnable (l.engine.slots i).lifecycle = true := by
  have hcursor := h.cursor
  have hslots := h.slots
  induction offsets with
  | nil => exact ⟨none, rfl, fun i hi => absurd hi (by simp)⟩
  | cons offset rest ih =>
    have hoffset := offset.isLt
    have hposition : l.cursor + offset.val ≤ sizeMax := by
      unfold sizeMax
      omega
    unfold scanRunnable
    rw [addSize_ok hposition]
    dsimp only [bind, Except.bind]
    split_ifs with hruns
    · refine ⟨_, rfl, fun i hi => ?_⟩
      obtain rfl := Option.some_inj.mp hi
      exact hruns
    · exact ih

theorem nextRunnable_ok (h : l.Kept) :
    ∃ result, nextRunnable l = .ok result ∧
      Stepped l .nextRunnable (result.1, .runnable (result.2.map Handle.any)) := by
  obtain ⟨found, hscan, hruns⟩ := scanRunnable_ok h (List.finRange n)
  unfold nextRunnable
  rw [hscan]
  cases found with
  | none => exact ⟨_, rfl, .refused _ (by simp [Outcome.Success])⟩
  | some i =>
    have hi := i.isLt
    have hslots := h.slots
    have hafter : i.val + 1 ≤ sizeMax := by
      unfold sizeMax
      omega
    dsimp only [bind, Except.bind]
    rw [addSize_ok hafter]
    exact ⟨_, rfl, .turned i (hruns i rfl)⟩

/-- No operation wraps, and each does one of five things. -/
theorem stepped (h : l.Kept) (op : Operation) :
    ∃ result, l.step op = .ok result ∧ Stepped l op result := by
  cases op with
  | admitSequence requestId attemptId prompt budget =>
    obtain ⟨result, hok, hstepped⟩ := admit_ok h requestId attemptId prompt budget
    exact ⟨_, congrArg (Except.map _) hok, hstepped⟩
  | startPrefill handle => exact ⟨_, rfl, stepped_startPrefill h handle⟩
  | advancePrefill handle tokens =>
    obtain ⟨result, hok, hstepped⟩ := advancePrefill_ok h handle tokens
    exact ⟨_, congrArg (Except.map _) hok, hstepped⟩
  | advanceDecode handle tokens =>
    obtain ⟨result, hok, hstepped⟩ := advanceDecode_ok h handle tokens
    exact ⟨_, congrArg (Except.map _) hok, hstepped⟩
  | finish handle reason => exact ⟨_, rfl, stepped_finish h handle reason⟩
  | cancel handle => exact ⟨_, rfl, stepped_cancel h handle⟩
  | release handle =>
    obtain ⟨result, hok, hstepped⟩ := release_ok h handle
    exact ⟨_, congrArg (Except.map _) hok, hstepped⟩
  | nextRunnable =>
    obtain ⟨result, hok, hstepped⟩ := nextRunnable_ok h
    exact ⟨_, congrArg (Except.map _) hok, hstepped⟩

end Steps

/-! ### The engine of the runtime -/

section Runtime

variable {l : Ledger n}

theorem find_any (e : Engine n) (handle : Handle n) :
    find e handle.any = (e.find handle).map fun slot => (handle.slot, slot) := by
  unfold find
  rw [handle.within_any]

theorem put_self (e : Engine n) (i : Fin n) : e.put i (e.slots i) = e := by
  unfold Engine.put
  rw [Function.update_eq_self]

/-- The runtime's admission is the one that does not wrap. -/
theorem admit_eq (h : l.Kept) (requestId attemptId : PyStr) (prompt budget : Size) :
    admitSequence l.engine requestId attemptId prompt.val budget.val
      = .ok (l.engine.admitSequence requestId attemptId prompt.val budget.val) := by
  have hbudget := budget.le_sizeMax
  have hcapacity := h.capacity
  have hreserved := h.valid.capacity
  unfold admitSequence Engine.admitSequence
  by_cases hinvalid : requestId = [] ∨ attemptId = [] ∨ prompt.val = 0 ∨ budget.val = 0
  · rw [if_pos hinvalid, if_pos hinvalid]
  rw [if_neg hinvalid, if_neg hinvalid, subSize_ok hbudget]
  dsimp only [bind, Except.bind]
  by_cases hsize : sizeMax - budget.val < prompt.val
  · rw [if_pos hsize, if_pos hsize]
  rw [if_neg hsize, if_neg hsize]
  by_cases hduplicate : l.engine.Duplicate requestId attemptId
  · rw [if_pos hduplicate, if_pos hduplicate]
  rw [if_neg hduplicate, if_neg hduplicate]
  by_cases hfull : l.engine.activeSequences = n
  · rw [if_pos hfull, if_pos hfull]
  rw [if_neg hfull, if_neg hfull, addSize_ok (by omega), subSize_ok hreserved]
  dsimp only
  by_cases hroom : l.engine.tokenCapacity - l.engine.reservedTokens < prompt.val + budget.val
  · rw [if_pos hroom, if_pos hroom]
  rw [if_neg hroom, if_neg hroom]
  cases l.engine.firstReleased with
  | none => rfl
  | some i =>
    have hone := h.active_succ_le
    dsimp only
    rw [addSize_ok (show l.engine.reservedTokens + (prompt.val + budget.val) ≤ sizeMax by omega),
      addSize_ok hone]

/-- So are its operations on a slot. -/
theorem advancePrefill_eq (h : l.Kept) (handle : Handle n) (tokens : Size) :
    advancePrefill l.engine handle.any tokens.val
      = .ok (l.engine.advancePrefill handle tokens.val).swap := by
  unfold advancePrefill Engine.advancePrefill Engine.onSlot
  rw [find_any]
  cases hfind : l.engine.find handle with
  | none => rfl
  | some s =>
    obtain ⟨hmatches, rfl⟩ := Engine.find_eq_some.mp hfind
    have hprocessed := (h.valid.slot handle.slot).processed
    have hreservation := h.reservation_le_sizeMax handle.slot
    dsimp only [Option.map_some]
    by_cases hlifecycle : (l.engine.slots handle.slot).lifecycle ≠ .prefill
    · rw [if_pos hlifecycle, if_pos hlifecycle, put_self]
      rfl
    rw [if_neg hlifecycle, if_neg hlifecycle, subSize_ok hprocessed]
    dsimp only [bind, Except.bind]
    by_cases hamount : tokens.val = 0 ∨ (l.engine.slots handle.slot).promptTokens
        - (l.engine.slots handle.slot).promptTokensProcessed < tokens.val
    · rw [if_pos hamount, if_pos hamount, put_self]
      rfl
    rw [if_neg hamount, if_neg hamount, addSize_ok (by omega)]
    rfl

theorem advanceDecode_eq (h : l.Kept) (handle : Handle n) (tokens : Size) :
    advanceDecode l.engine handle.any tokens.val
      = .ok (l.engine.advanceDecode handle tokens.val).swap := by
  unfold advanceDecode Engine.advanceDecode Engine.onSlot
  rw [find_any]
  cases hfind : l.engine.find handle with
  | none => rfl
  | some s =>
    obtain ⟨hmatches, rfl⟩ := Engine.find_eq_some.mp hfind
    have hdecoded := (h.valid.slot handle.slot).decoded
    have hreservation := h.reservation_le_sizeMax handle.slot
    dsimp only [Option.map_some]
    by_cases hlifecycle : (l.engine.slots handle.slot).lifecycle ≠ .decode
    · rw [if_pos hlifecycle, if_pos hlifecycle, put_self]
      rfl
    rw [if_neg hlifecycle, if_neg hlifecycle, subSize_ok hdecoded]
    dsimp only [bind, Except.bind]
    by_cases hamount : tokens.val = 0 ∨ (l.engine.slots handle.slot).outputTokenBudget
        - (l.engine.slots handle.slot).decodedTokens < tokens.val
    · rw [if_pos hamount, if_pos hamount, put_self]
      rfl
    rw [if_neg hamount, if_neg hamount, addSize_ok (by omega)]
    rfl

/-- So is its release. -/
theorem release_eq (h : l.Kept) (handle : Handle n) :
    (release l.engine handle.any).map (fun result => (result.2.1, result.1))
      = .ok (l.engine.release handle) := by
  unfold release Engine.release
  rw [find_any]
  cases hfind : l.engine.find handle with
  | none =>
    have hfree : FreeIn l.engine handle.any ↔ (l.engine.slots handle.slot).generation
        = handle.generation ∧ (l.engine.slots handle.slot).lifecycle = .released := by
      unfold FreeIn
      rw [handle.within_any]
      simp
    dsimp only [Option.map_none]
    by_cases hgone : (l.engine.slots handle.slot).generation = handle.generation ∧
        (l.engine.slots handle.slot).lifecycle = .released
    · rw [if_pos (hfree.mpr hgone), if_pos hgone]
      rfl
    · rw [if_neg (mt hfree.mp hgone), if_neg hgone]
      rfl
  | some s =>
    obtain ⟨hmatches, rfl⟩ := Engine.find_eq_some.mp hfind
    dsimp only [Option.map_some]
    by_cases hterminal : (l.engine.slots handle.slot).lifecycle ≠ .terminal
    · rw [if_pos hterminal, if_pos hterminal]
      rfl
    rw [if_neg hterminal, if_neg hterminal]
    unfold reservation
    rw [addSize_ok (h.reservation_le_sizeMax handle.slot)]
    dsimp only [bind, Except.bind]
    have hreserved : (l.engine.slots handle.slot).promptTokens
        + (l.engine.slots handle.slot).outputTokenBudget ≤ l.engine.reservedTokens :=
      h.reservation_le handle.slot
    rw [subSize_ok hreserved]
    dsimp only
    rw [subSize_ok (h.one_le_active hmatches.1)]
    rfl

end Runtime

/-! ### Every run -/

/-- The engine after a release of the engine model is the one of `leave`. -/
theorem valid_leave {e : Engine n} (h : e.Valid) {i : Fin n}
    (terminal : (e.slots i).lifecycle = .terminal) : (leave e i).Valid := by
  have hlive : (e.slots i).lifecycle ≠ .released := by simp [terminal]
  have hrelease := h.release ((e.slots i).handle i)
  unfold Engine.release at hrelease
  rw [Engine.find_handle hlive] at hrelease
  dsimp only at hrelease
  rw [if_neg (not_not.mpr terminal)] at hrelease
  exact hrelease

/-- The slots after one operation: one of them entered, went on or was left. -/
theorem update_distinct {slots : Fin n → Slot} {i : Fin n} {s : Slot}
    (distinct : ∀ a b, (slots a).lifecycle ≠ .released → (slots b).lifecycle ≠ .released →
      (slots a).requestId = (slots b).requestId → (slots a).attemptId = (slots b).attemptId → a = b)
    (new : s.lifecycle ≠ .released → ∀ b ≠ i, (slots b).lifecycle ≠ .released →
      ¬ (s.requestId = (slots b).requestId ∧ s.attemptId = (slots b).attemptId)) :
    ∀ a b, (Function.update slots i s a).lifecycle ≠ .released →
      (Function.update slots i s b).lifecycle ≠ .released →
      (Function.update slots i s a).requestId = (Function.update slots i s b).requestId →
      (Function.update slots i s a).attemptId = (Function.update slots i s b).attemptId → a = b := by
  intro a b ha hb hrequest hattempt
  by_cases hai : a = i
  · by_cases hbi : b = i
    · exact hai.trans hbi.symm
    · subst hai
      rw [Function.update_self] at ha hrequest hattempt
      rw [Function.update_of_ne hbi] at hb hrequest hattempt
      exact absurd ⟨hrequest, hattempt⟩ (new ha b hbi hb)
  · rw [Function.update_of_ne hai] at ha hrequest hattempt
    by_cases hbi : b = i
    · subst hbi
      rw [Function.update_self] at hb hrequest hattempt
      exact absurd ⟨hrequest.symm, hattempt.symm⟩ (new hb a hai ha)
    · rw [Function.update_of_ne hbi] at hb hrequest hattempt
      exact distinct a b ha hb hrequest hattempt

theorem update_fresh {slots : Fin n → Slot} {i : Fin n} {s : Slot}
    (fresh : ∀ a, (slots a).lifecycle = .admitted → (slots a).promptTokensProcessed = 0)
    (new : s.lifecycle = .admitted → s.promptTokensProcessed = 0) :
    ∀ a, (Function.update slots i s a).lifecycle = .admitted →
      (Function.update slots i s a).promptTokensProcessed = 0 := by
  intro a ha
  by_cases hai : a = i
  · subst hai
    rw [Function.update_self] at ha ⊢
    exact new ha
  · rw [Function.update_of_ne hai] at ha ⊢
    exact fresh a ha

theorem Stepped.kept {l : Ledger n} {op : Operation} {result : Ledger n × Outcome} (h : l.Kept)
    (hstep : Stepped l op result) : result.1.Kept := by
  cases hstep with
  | refused outcome unsuccessful => exact h
  | admitted i free named sized new fits =>
    rename_i requestId attemptId prompt budget
    have hslot : Engine.SlotValid
        (Engine.admittedSlot (l.engine.slots i) requestId attemptId prompt.val budget.val) :=
      ⟨fun hr => absurd hr (by simp [Engine.admittedSlot]), fun _ => named, fun _ => sized,
        Nat.zero_le _, Nat.zero_le _, fun hp => absurd hp (by simp [Engine.admittedSlot])⟩
    refine ⟨h.valid.enter free hslot (by simp [Engine.admittedSlot]) rfl fits,
      update_fresh h.fresh fun _ => rfl, update_distinct h.distinct ?_, h.cursor, h.slots, h.capacity⟩
    intro _ b _ hb hsame
    exact new ⟨b, hb, hsame.1.symm, hsame.2.symm⟩
  | advanced i s next =>
    refine ⟨h.valid.put next.valid next.reservation ?_, update_fresh h.fresh ?_,
      update_distinct h.distinct ?_, h.cursor, h.slots, h.capacity⟩
    · exact ⟨fun hr => absurd hr next.still, fun hr => absurd hr next.live⟩
    · exact fun hadmitted => absurd hadmitted next.entered
    · intro _ b hbi hb hsame
      refine hbi (h.distinct b i hb next.live ?_ ?_)
      · rw [← next.requestId, hsame.1]
      · rw [← next.attemptId, hsame.2]
  | released found within owner terminal =>
    refine ⟨valid_leave h.valid terminal, update_fresh h.fresh ?_, update_distinct h.distinct ?_,
      h.cursor, h.slots, h.capacity⟩
    · exact fun hadmitted => absurd hadmitted (by simp [Slot.empty])
    · exact fun hr => absurd rfl hr
  | turned i runs =>
    have hn : 0 < n := i.pos
    exact ⟨h.valid, h.fresh, h.distinct, Nat.mod_lt _ hn, h.slots, h.capacity⟩

theorem step_kept {l l' : Ledger n} {op : Operation} {outcome : Outcome} (h : l.Kept)
    (hstep : l.step op = .ok (l', outcome)) : l'.Kept ∧ Stepped l op (l', outcome) := by
  obtain ⟨result, hok, hstepped⟩ := stepped h op
  obtain rfl := Except.ok.inj (hok.symm.trans hstep)
  exact ⟨hstepped.kept h, hstepped⟩

/-- No run wraps, and it ends in an engine that is kept. -/
theorem run_kept {l : Ledger n} (h : l.Kept) (ops : List Operation) :
    ∃ l' outcomes, l.run ops = .ok (l', outcomes) ∧ l'.Kept := by
  induction ops generalizing l with
  | nil => exact ⟨l, [], rfl, h⟩
  | cons op rest ih =>
    obtain ⟨result, hok, hstepped⟩ := stepped h op
    obtain ⟨l', outcomes, hrun, hkept⟩ := ih (hstepped.kept h)
    refine ⟨l', result.2 :: outcomes, ?_, hkept⟩
    unfold run
    rw [hok]
    dsimp only [bind, Except.bind]
    rw [hrun]

/-- The slots that are not released. -/
def live (e : Engine n) : Finset (Fin n) :=
  Finset.univ.filter fun i => (e.slots i).lifecycle ≠ .released

/-- What the counters of an engine say. -/
structure Accounts (e : Engine n) : Prop where
  reserved : e.reservedTokens
    = ∑ i ∈ live e, ((e.slots i).promptTokens + (e.slots i).outputTokenBudget)
  capacity : e.reservedTokens ≤ e.tokenCapacity
  active : e.activeSequences = (live e).card
  processed : ∀ i, (e.slots i).promptTokensProcessed ≤ (e.slots i).promptTokens
  decoded : ∀ i, (e.slots i).decodedTokens ≤ (e.slots i).outputTokenBudget
  distinct : Set.InjOn (fun i => ((e.slots i).requestId, (e.slots i).attemptId)) (live e)

theorem Kept.accounts {l : Ledger n} (h : l.Kept) : Accounts l.engine := by
  refine ⟨?_, h.valid.capacity, h.valid.active, fun i => (h.valid.slot i).processed,
    fun i => (h.valid.slot i).decoded, ?_⟩
  · have hsum : ∑ i ∈ live l.engine, (l.engine.slots i).reservation
        = ∑ i, (l.engine.slots i).reservation := by
      refine Finset.sum_filter_of_ne fun i _ hne => ?_
      -- a released slot reserves nothing
      intro hreleased
      rw [(h.valid.slot i).released hreleased] at hne
      exact hne rfl
    exact h.valid.reserved.trans hsum.symm
  · intro i hi j hj hsame
    obtain ⟨hrequest, hattempt⟩ := Prod.mk.inj hsame
    exact h.distinct i j (by simpa [live] using hi) (by simpa [live] using hj) hrequest hattempt

/-- **The engine keeps its accounts.**  Of every engine that was constructed and every run of its
operations, with any handles and amounts: no size wraps, neither in the run nor in an operation after
it; the counters are the sums over the slots that are not released, within the capacity; no slot
exceeds its own limits; and an operation that does not report success changes nothing. -/
theorem ledger_kept {maxSequences tokenCapacity : Size} {l : Ledger maxSequences.val}
    (constructed : construct maxSequences tokenCapacity = some l) (ops : List Operation) :
    ∃ l' outcomes, l.run ops = .ok (l', outcomes) ∧ Accounts l'.engine ∧
      ∀ op, ∃ l'' outcome, l'.step op = .ok (l'', outcome) ∧
        (¬ outcome.Success → l'' = l') := by
  obtain ⟨l', outcomes, hrun, hkept⟩ := run_kept (kept_construct constructed) ops
  refine ⟨l', outcomes, hrun, hkept.accounts, fun op => ?_⟩
  obtain ⟨result, hok, hstepped⟩ := stepped hkept op
  refine ⟨result.1, result.2, hok, fun hrefused => ?_⟩
  cases hstepped with
  | refused outcome unsuccessful => rfl
  | admitted i free named sized new fits => exact absurd rfl hrefused
  | advanced i s next => exact absurd rfl hrefused
  | released found within owner terminal => exact absurd rfl hrefused
  | turned i runs => exact absurd (Option.some_ne_none _) hrefused

/-- An engine of two slots admits a sequence, and another one does not fit. -/
theorem ledger_kept_sample : ∃ l : Ledger 2, construct 2 8 = some l ∧ ∃ l' outcomes,
    l.run [.admitSequence (py "r") (py "a") 3 2, .admitSequence (py "s") (py "a") 4 1] = .ok (l', outcomes) ∧
      Accounts l'.engine := by
  refine ⟨_, rfl, ?_⟩
  obtain ⟨l', outcomes, hrun, haccounts, -⟩ := @ledger_kept 2 8 _ rfl
    [.admitSequence (py "r") (py "a") 3 2, .admitSequence (py "s") (py "a") 4 1]
  exact ⟨l', outcomes, hrun, haccounts⟩

/-! ### Handles -/

/-- The handles that admissions returned. -/
def admittedHandles (outcomes : List Outcome) : List AnyHandle :=
  outcomes.filterMap Outcome.admitted?

/-- How many sequences entered a slot. -/
def admissions (i : Fin n) (outcomes : List Outcome) : ℕ :=
  (admittedHandles outcomes).countP fun handle => handle.slot = (i.val : ℤ)

/-- What an operation returns for a handle that is not live. -/
def staleOutcome (e : Engine n) : Operation → Outcome
  | .release handle => .release (if FreeIn e handle then .alreadyReleased else .staleHandle) 0
  | _ => .operation .staleHandle

/-- A handle that is not found is refused, and the engine is as it was. -/
theorem step_stale {l : Ledger n} {op : Operation} {handle : AnyHandle}
    (hhandle : op.handle? = some handle) (hfind : find l.engine handle = none) :
    l.step op = .ok (l, staleOutcome l.engine op) := by
  cases op with
  | admitSequence requestId attemptId prompt budget => exact absurd hhandle (by simp [Operation.handle?])
  | nextRunnable => exact absurd hhandle (by simp [Operation.handle?])
  | startPrefill given =>
    obtain rfl := Option.some_inj.mp hhandle
    have hnone : startPrefill l.engine given = (l.engine, .staleHandle) := by
      unfold startPrefill
      rw [hfind]
    show Except.ok (({ l with engine := (startPrefill l.engine given).1 } : Ledger n), _) = _
    rw [hnone]
    rfl
  | advancePrefill given tokens =>
    obtain rfl := Option.some_inj.mp hhandle
    have hnone : advancePrefill l.engine given tokens.val
        = .ok (l.engine, .staleHandle) := by
      unfold advancePrefill
      rw [hfind]
    exact congrArg (Except.map _) hnone
  | advanceDecode given tokens =>
    obtain rfl := Option.some_inj.mp hhandle
    have hnone : advanceDecode l.engine given tokens.val
        = .ok (l.engine, .staleHandle) := by
      unfold advanceDecode
      rw [hfind]
    exact congrArg (Except.map _) hnone
  | finish given reason =>
    obtain rfl := Option.some_inj.mp hhandle
    have hnone : finish l.engine given reason = (l.engine, .staleHandle) := by
      unfold finish
      rw [hfind]
    show Except.ok (({ l with engine := (finish l.engine given reason).1 } : Ledger n), _) = _
    rw [hnone]
    rfl
  | cancel given =>
    obtain rfl := Option.some_inj.mp hhandle
    have hnone : cancel l.engine given = (l.engine, .staleHandle) := by
      unfold cancel
      rw [hfind]
    show Except.ok (({ l with engine := (cancel l.engine given).1 } : Ledger n), _) = _
    rw [hnone]
    rfl
  | release given =>
    obtain rfl := Option.some_inj.mp hhandle
    have hnone : release l.engine given
        = .ok (l.engine, if FreeIn l.engine given then .alreadyReleased else .staleHandle, 0) := by
      unfold release
      rw [hfind]
    exact congrArg (Except.map _) hnone

/-- What one operation does to the generations. -/
inductive Generations (e e' : Engine n) (outcome : Outcome) : Prop
  | kept (none : outcome.admitted? = none) (same : ∀ i, (e'.slots i).generation = (e.slots i).generation)
  | entered (i : Fin n) (handle : AnyHandle) (some : outcome.admitted? = some handle)
      (slot : handle.slot = i.val) (generation : handle.generation = nextGeneration (e.slots i).generation)
      (next : (e'.slots i).generation = nextGeneration (e.slots i).generation)
      (others : ∀ j ≠ i, (e'.slots j).generation = (e.slots j).generation)

theorem Stepped.generations {l : Ledger n} {op : Operation} {result : Ledger n × Outcome}
    (h : Stepped l op result) : Generations l.engine result.1.engine result.2 := by
  cases h with
  | refused outcome unsuccessful =>
    refine .kept ?_ fun _ => rfl
    cases outcome with
    | admission status handle =>
      cases status with
      | admitted => exact absurd rfl unsuccessful
      | _ => rfl
    | _ => rfl
  | admitted i free named sized new fits =>
    refine .entered i _ rfl rfl rfl ?_ fun j hj => ?_
    · show (Function.update l.engine.slots i _ i).generation = _
      rw [Function.update_self]
      rfl
    · show (Function.update l.engine.slots i _ j).generation = _
      rw [Function.update_of_ne hj]
  | advanced i s next =>
    refine .kept rfl fun j => ?_
    show (Function.update l.engine.slots i s j).generation = _
    by_cases hj : j = i
    · subst hj
      rw [Function.update_self]
      exact next.generation
    · rw [Function.update_of_ne hj]
  | released found within owner terminal =>
    refine .kept rfl fun j => ?_
    show (Function.update l.engine.slots found.slot _ j).generation = _
    by_cases hj : j = found.slot
    · subst hj
      rw [Function.update_self]
      rfl
    · rw [Function.update_of_ne hj]
  | turned i runs => exact .kept rfl fun _ => rfl

theorem nextGeneration_eq {g : ℕ} (h : g < sizeMax) : nextGeneration g = g + 1 := by
  unfold sizeMax at h
  unfold nextGeneration
  rw [Nat.mod_eq_of_lt (by omega), if_neg (by omega)]

/-- The handle is behind its slot: of an earlier generation, or of the one that was released. -/
def Gone (e : Engine n) (handle : AnyHandle) : Prop :=
  ∀ found ∈ handle.within n, found.generation < (e.slots found.slot).generation ∨
    found.generation = (e.slots found.slot).generation ∧
      (e.slots found.slot).lifecycle = .released

theorem Gone.find {e : Engine n} {handle : AnyHandle} (h : Gone e handle) : find e handle = none := by
  by_contra hfound
  obtain ⟨⟨i, s⟩, hfind⟩ := Option.ne_none_iff_exists'.mp hfound
  obtain ⟨found, hwithin, rfl, hmatches, -⟩ := find_eq_some hfind
  obtain ⟨hlive, hgeneration, -, -⟩ := hmatches
  rcases h found hwithin with hlt | ⟨-, hreleased⟩
  · omega
  · exact hlive hreleased

/-- A handle stays behind. -/
theorem Gone.step {l : Ledger n} {op : Operation} {result : Ledger n × Outcome} {handle : AnyHandle}
    (h : Gone l.engine handle) (hstep : Stepped l op result)
    (few : ∀ i, (l.engine.slots i).generation + admissions i [result.2] ≤ sizeMax) :
    Gone result.1.engine handle := by
  intro found hwithin
  have hbefore := h found hwithin
  cases hstep with
  | refused outcome unsuccessful => exact hbefore
  | turned i runs => exact hbefore
  | admitted i free named sized new fits =>
    rename_i requestId attemptId prompt budget
    show _ < (Function.update l.engine.slots i _ found.slot).generation ∨ _
    by_cases hi : found.slot = i
    · have hone := few i
      have hnext : nextGeneration (l.engine.slots i).generation
          = (l.engine.slots i).generation + 1 := by
        refine nextGeneration_eq ?_
        have hcount : admissions i [Outcome.admission .admitted (some
            ((Engine.admittedSlot (l.engine.slots i) requestId attemptId prompt.val
              budget.val).handle i).any)] = 1 := by
          simp [admissions, admittedHandles, Outcome.admitted?, Handle.any, Slot.handle]
        dsimp only at hone
        omega
      refine .inl ?_
      rw [hi, Function.update_self]
      show found.generation < nextGeneration (l.engine.slots i).generation
      rw [hi] at hbefore
      rcases hbefore with hlt | ⟨heq, -⟩
      · omega
      · omega
    · show _ ∨ _ = (Function.update l.engine.slots i _ found.slot).generation ∧
        (Function.update l.engine.slots i _ found.slot).lifecycle = _
      rw [Function.update_of_ne hi]
      exact hbefore
  | advanced i s next =>
    show _ < (Function.update l.engine.slots i s found.slot).generation ∨
      _ = (Function.update l.engine.slots i s found.slot).generation ∧
        (Function.update l.engine.slots i s found.slot).lifecycle = _
    by_cases hi : found.slot = i
    · rw [hi, Function.update_self, next.generation]
      rw [hi] at hbefore
      rcases hbefore with hlt | ⟨-, hreleased⟩
      · exact .inl hlt
      · exact absurd hreleased next.live
    · rw [Function.update_of_ne hi]
      exact hbefore
  | released other within owner terminal =>
    show _ < (Function.update l.engine.slots other.slot _ found.slot).generation ∨
      _ = (Function.update l.engine.slots other.slot _ found.slot).generation ∧
        (Function.update l.engine.slots other.slot _ found.slot).lifecycle = _
    by_cases hi : found.slot = other.slot
    · rw [hi, Function.update_self]
      rw [hi] at hbefore
      rcases hbefore with hlt | ⟨heq, -⟩
      · exact .inl hlt
      · exact .inr ⟨heq, rfl⟩
    · rw [Function.update_of_ne hi]
      exact hbefore

theorem run_cons {l l' : Ledger n} {op : Operation} {rest : List Operation} {outcomes : List Outcome}
    (h : l.run (op :: rest) = .ok (l', outcomes)) :
    ∃ l₁ outcome later, l.step op = .ok (l₁, outcome) ∧ l₁.run rest = .ok (l', later) ∧
      outcomes = outcome :: later := by
  unfold run at h
  cases hstep : l.step op with
  | error fault =>
    rw [hstep] at h
    exact absurd h (by simp [bind, Except.bind])
  | ok result =>
    obtain ⟨l₁, outcome⟩ := result
    rw [hstep] at h
    dsimp only [bind, Except.bind] at h
    cases hrun : l₁.run rest with
    | error fault =>
      rw [hrun] at h
      exact absurd h (by simp)
    | ok result =>
      obtain ⟨l₂, later⟩ := result
      rw [hrun] at h
      obtain ⟨rfl, rfl⟩ := Prod.mk.inj (Except.ok.inj h)
      exact ⟨l₁, outcome, later, rfl, hrun, rfl⟩

theorem admittedHandles_cons (outcome : Outcome) (later : List Outcome) :
    admittedHandles (outcome :: later) = admittedHandles [outcome] ++ admittedHandles later := by
  unfold admittedHandles
  rw [← List.filterMap_append]
  rfl

theorem admissions_cons (i : Fin n) (outcome : Outcome) (later : List Outcome) :
    admissions i (outcome :: later) = admissions i [outcome] + admissions i later := by
  unfold admissions
  rw [admittedHandles_cons, List.countP_append]

/-- A generation counts the sequences of its slot. -/
theorem Generations.count {e e' : Engine n} {outcome : Outcome} (h : Generations e e' outcome)
    (few : ∀ i, (e.slots i).generation + admissions i [outcome] ≤ sizeMax) (i : Fin n) :
    (e'.slots i).generation = (e.slots i).generation + admissions i [outcome] := by
  have hcount : ∀ handle, outcome.admitted? = some handle →
      admissions i [outcome] = if handle.slot = (i.val : ℤ) then 1 else 0 := by
    intro handle hhandle
    simp [admissions, admittedHandles, hhandle, List.countP_cons]
  cases h with
  | kept none same =>
    have hzero : admissions i [outcome] = 0 := by simp [admissions, admittedHandles, none]
    rw [same i, hzero, Nat.add_zero]
  | entered j handle some slot generation next others =>
    have hcount := hcount handle some
    by_cases hi : i = j
    · subst hi
      rw [if_pos slot] at hcount
      have hone := few i
      rw [next, nextGeneration_eq (by omega), hcount]
    · have hne : handle.slot ≠ (i.val : ℤ) := by
        rw [slot]
        intro heq
        exact hi (Fin.ext (by omega))
      rw [if_neg hne] at hcount
      rw [others i hi, hcount, Nat.add_zero]

/-- The generations after the first step of a run that is not too long. -/
theorem Stepped.counted {l l₁ : Ledger n} {op : Operation} {outcome : Outcome} {later : List Outcome}
    (h : Stepped l op (l₁, outcome))
    (few : ∀ i, (l.engine.slots i).generation + admissions i (outcome :: later) ≤ sizeMax) :
    (∀ i, (l.engine.slots i).generation + admissions i [outcome] ≤ sizeMax) ∧
      (∀ i, (l₁.engine.slots i).generation
        = (l.engine.slots i).generation + admissions i [outcome]) ∧
      ∀ i, (l₁.engine.slots i).generation + admissions i later ≤ sizeMax := by
  have hfew : ∀ i, (l.engine.slots i).generation + admissions i [outcome] ≤ sizeMax := by
    intro i
    have hsum := admissions_cons i outcome later
    have hall := few i
    omega
  have hcount := h.generations.count hfew
  refine ⟨hfew, hcount, fun i => ?_⟩
  have hsum := admissions_cons i outcome later
  have hall := few i
  have hnext : (l₁.engine.slots i).generation
      = (l.engine.slots i).generation + admissions i [outcome] := hcount i
  omega

/-- The handles of a run are of later generations than the slots before it, and distinct. -/
theorem run_fresh {l l' : Ledger n} {ops : List Operation} {outcomes : List Outcome} (h : l.Kept)
    (ran : l.run ops = .ok (l', outcomes))
    (few : ∀ i, (l.engine.slots i).generation + admissions i outcomes ≤ sizeMax) :
    (∀ handle ∈ admittedHandles outcomes, ∀ i : Fin n, handle.slot = (i.val : ℤ) →
      (l.engine.slots i).generation < handle.generation) ∧ (admittedHandles outcomes).Nodup := by
  induction ops generalizing l outcomes with
  | nil =>
    obtain ⟨-, rfl⟩ := Prod.mk.inj (Except.ok.inj ran)
    exact ⟨fun handle hhandle => absurd hhandle (by simp [admittedHandles]), List.nodup_nil⟩
  | cons op rest ih =>
    obtain ⟨l₁, outcome, later, hstep, hrun, rfl⟩ := run_cons ran
    obtain ⟨hkept, hstepped⟩ := step_kept h hstep
    have hgenerations := hstepped.generations
    obtain ⟨-, hcount, hfew⟩ := hstepped.counted few
    obtain ⟨hlater, hnodup⟩ := ih hkept hrun hfew
    rw [admittedHandles_cons]
    have hbehind : ∀ handle ∈ admittedHandles later, ∀ i : Fin n, handle.slot = (i.val : ℤ) →
        (l.engine.slots i).generation < handle.generation := by
      intro handle hhandle i hslot
      have hlt := hlater handle hhandle i hslot
      have hle := hcount i
      omega
    cases hgenerations with
    | kept none same =>
      have hnone : admittedHandles [outcome] = [] := by simp [admittedHandles, none]
      rw [hnone, List.nil_append]
      exact ⟨hbehind, hnodup⟩
    | entered j entry some slot generation next others =>
      have hone : admittedHandles [outcome] = [entry] := by simp [admittedHandles, some]
      rw [hone, List.singleton_append]
      refine ⟨fun handle hhandle i hslot => ?_, List.nodup_cons.mpr ⟨fun hmem => ?_, hnodup⟩⟩
      · rcases List.mem_cons.mp hhandle with rfl | hhandle
        · have hij : i = j := Fin.ext (by omega)
          subst hij
          have hadd := hcount i
          have hentered : admissions i [outcome] = 1 := by
            unfold admissions
            rw [hone]
            simp [slot]
          dsimp only at hadd next
          omega
        · exact hbehind handle hhandle i hslot
      · -- the same handle once more would be of a later generation than itself
        have hlt := hlater entry hmem j slot
        dsimp only at hlt next
        omega

/-- After a release, its handle is behind. -/
theorem gone_of_released {l l' : Ledger n} {handle : AnyHandle} {tokens : ℕ} (h : l.Kept)
    (released : l.step (.release handle) = .ok (l', .release .released tokens)) :
    Gone l'.engine handle := by
  obtain ⟨-, hstepped⟩ := step_kept h released
  intro found hwithin
  cases hstepped with
  | refused outcome unsuccessful => exact absurd rfl unsuccessful
  | released other hother owner terminal =>
    obtain rfl := Option.some_inj.mp (hother.symm.trans hwithin)
    refine .inr ?_
    show _ = (Function.update l.engine.slots other.slot _ other.slot).generation ∧
      (Function.update l.engine.slots other.slot _ other.slot).lifecycle = _
    rw [Function.update_self]
    exact ⟨owner.2.1.symm, rfl⟩

theorem Gone.run {l l' : Ledger n} {ops : List Operation} {outcomes : List Outcome}
    {handle : AnyHandle} (h : Gone l.engine handle) (kept : l.Kept)
    (ran : l.run ops = .ok (l', outcomes))
    (few : ∀ i, (l.engine.slots i).generation + admissions i outcomes ≤ sizeMax) :
    Gone l'.engine handle := by
  induction ops generalizing l outcomes with
  | nil =>
    obtain ⟨rfl, -⟩ := Prod.mk.inj (Except.ok.inj ran)
    exact h
  | cons op rest ih =>
    obtain ⟨l₁, outcome, later, hstep, hrun, rfl⟩ := run_cons ran
    obtain ⟨hkept, hstepped⟩ := step_kept kept hstep
    obtain ⟨hfew, -, hlater⟩ := hstepped.counted few
    exact ih (h.step hstepped hfew) hkept hrun hlater

/-- A handle that is released in a run is behind at its end. -/
theorem run_released {l l' : Ledger n} {ops : List Operation} {outcomes : List Outcome} (h : l.Kept)
    (ran : l.run ops = .ok (l', outcomes))
    (few : ∀ i, (l.engine.slots i).generation + admissions i outcomes ≤ sizeMax) {k : ℕ}
    {handle : AnyHandle} {tokens : ℕ} (asked : ops[k]? = some (.release handle))
    (answered : outcomes[k]? = some (.release .released tokens)) : Gone l'.engine handle := by
  induction ops generalizing l outcomes k with
  | nil => exact absurd asked (by simp)
  | cons op rest ih =>
    obtain ⟨l₁, outcome, later, hstep, hrun, rfl⟩ := run_cons ran
    obtain ⟨hkept, hstepped⟩ := step_kept h hstep
    obtain ⟨-, -, hfew⟩ := hstepped.counted few
    cases k with
    | zero =>
      obtain rfl := Option.some_inj.mp asked
      obtain rfl := Option.some_inj.mp answered
      exact (gone_of_released h hstep).run hkept hrun hfew
    | succ k => exact ih hkept hrun hfew asked answered

/-- **A handle never lives again.**  In a run with fewer than `2 ^ 64 - 1` admissions for each slot,
the handles that admissions return are distinct, and after it every operation with a handle that was
released in it is refused, as stale or, while its slot is still free in its generation, as already
released; and it leaves the engine as it is. -/
theorem never_live_again {maxSequences tokenCapacity : Size} {l l' : Ledger maxSequences.val}
    (constructed : construct maxSequences tokenCapacity = some l) {ops : List Operation}
    {outcomes : List Outcome} (ran : l.run ops = .ok (l', outcomes))
    (few : ∀ i : Fin maxSequences.val, admissions i outcomes < 2 ^ 64 - 1) :
    (admittedHandles outcomes).Nodup ∧
      ∀ (k : ℕ) (handle : AnyHandle) (tokens : ℕ), ops[k]? = some (.release handle) →
        outcomes[k]? = some (.release .released tokens) →
        ∀ op : Operation, op.handle? = some handle → l'.step op = .ok (l', staleOutcome l'.engine op) := by
  have hkept := kept_construct constructed
  have hzero : ∀ i, (l.engine.slots i).generation = 0 := by
    unfold construct at constructed
    split_ifs at constructed
    obtain rfl := Option.some_inj.mp constructed
    exact fun _ => rfl
  have hfew : ∀ i, (l.engine.slots i).generation + admissions i outcomes ≤ sizeMax := by
    intro i
    have hlt := few i
    unfold sizeMax
    rw [hzero i]
    omega
  refine ⟨(run_fresh hkept ran hfew).2, fun k handle tokens asked answered op hhandle => ?_⟩
  exact step_stale hhandle (run_released hkept ran hfew asked answered).find

/-- A sequence is admitted, cancelled and released, and one with the same ids takes its slot. -/
def reusedSlot : List Operation :=
  [.admitSequence (py "r") (py "a") 3 2, .cancel ⟨0, 1, py "r", py "a"⟩, .release ⟨0, 1, py "r", py "a"⟩,
    .admitSequence (py "r") (py "a") 3 2]

/-- The handle of the first is stale. -/
theorem never_live_again_reused : ∃ l l' : Ledger 1, ∃ outcomes, construct 1 8 = some l ∧
    l.run reusedSlot = .ok (l', outcomes) ∧
      l'.step (.startPrefill ⟨0, 1, py "r", py "a"⟩) = .ok (l', .operation .staleHandle) := by
  have hconstructed : construct 1 8 = some (({ engine := Engine.initial 1 8 } : Ledger 1)) := rfl
  obtain ⟨l', outcomes, hrun, -⟩ := run_kept (kept_construct hconstructed) reusedSlot
  have houtcomes : [Outcome.admission .admitted (some ⟨0, 1, py "r", py "a"⟩), .operation .applied,
      .release .released 5, .admission .admitted (some ⟨0, 2, py "r", py "a"⟩)] = outcomes :=
    Except.ok.inj (congrArg (Except.map Prod.snd) hrun)
  subst houtcomes
  refine ⟨_, l', _, hconstructed, hrun, ?_⟩
  exact (never_live_again hconstructed hrun (by decide)).2 2 _ 5 rfl rfl _ rfl

end Ledger

end Native
