/-
The slots of a managed backend.

A call that has taken a slot gives it back when it is over, whatever the answer was, but for
two ways out that lie before the `try`: a reading of the clock that fails between `acquire` and
the first locked block, and an exception that is no `Exception` while `ADMITTED` is published.

* `callStep_effect` — what a step of a call does to the slots and the ids;
* `Slotted.step` — the slots and the ids add up, those that are lost included;
* `capacity_returned_iff` — they add up by themselves in the runs that lose none, and no others.
-/
import LlamaRuntime.Managed.OpenAICompatible

namespace Managed

open Json Worker

variable {F : Type}

/-- The call has taken a slot and has not given it back. -/
def Phase.holds : Phase F → Bool
  | .entered | .queued _ _ | .exited _ => false
  | _ => true

/-- The id of the call has been entered and has not been taken out. -/
def Phase.listed : Phase F → Bool
  | .registered _ _ | .admitted _ _ | .dispatched _ _ _ | .settled _ | .leaving _ => true
  | _ => false

/-- Every slot is free or held by a call in flight, and the ids are those of the calls that
have entered one. -/
structure CapacityReturned (b : ManagedBackend F) (s : ManagedState F) : Prop where
  slots : s.slots.free + s.calls.countP (fun c => c.phase.holds) = b.maxConcurrentRequests
  active : s.slots.active.Perm
    ((s.calls.filter fun c => c.phase.listed).map fun c => c.inputs.requestId)
  nodup : s.slots.active.Nodup

/-- The next step of the call ends it with its slot. -/
def leaks (c : Call F) : Bool :=
  match c.phase with
  | .acquired _ =>
    match now (c.inputs.clock .started) with
    | .error _ => true
    | .ok _ => false
  | .registered _ _ =>
    match (hand .ADMITTED c.inputs.requestId none (c.inputs.clock .admittedEvent)
        c.inputs.admittedSink).2 with
    | some exc => !exc.isException
    | none => false
  | _ => false

def stepLeaks (s : ManagedState F) : ManagedMove F → Bool
  | .generate _ => false
  | .step i _ => s.calls[i]?.any leaks

namespace ManagedBackend

variable (b : ManagedBackend F) [Floats F]

/-- No step of the run ends a call with its slot. -/
def Leakless : ManagedState F → List (ManagedMove F) → Prop
  | _, [] => True
  | s, m :: moves => stepLeaks s m = false ∧ Leakless (b.step s m) moves

/-- The number of the calls that have ended with their slot. -/
def leaked : ManagedState F → List (ManagedMove F) → ℕ
  | _, [] => 0
  | s, m :: moves => (if stepLeaks s m then 1 else 0) + leaked (b.step s m) moves

theorem leaked_eq_zero {b : ManagedBackend F} {s : ManagedState F} {moves : List (ManagedMove F)} :
    b.leaked s moves = 0 ↔ b.Leakless s moves := by
  induction moves generalizing s with
  | nil => exact ⟨fun _ => trivial, fun _ => rfl⟩
  | cons m moves ih =>
    unfold leaked Leakless
    rw [← ih]
    cases stepLeaks s m <;> simp

end ManagedBackend

/-! ### What a step does to the slots -/

/-- A step of a call leaves its arguments alone, and does one of these. -/
inductive SlotEffect (b : ManagedBackend F) (c : Call F) (s : Slots) : Call F × Slots → Prop where
  | aside {c' : Call F} {s' : Slots} (inputs : c'.inputs = c.inputs)
      (quiet : leaks c = false) (holds : c'.phase.holds = c.phase.holds)
      (listed : c'.phase.listed = c.phase.listed) (free : s'.free = s.free)
      (active : s'.active = s.active) : SlotEffect b c s (c', s')
  | takes {c' : Call F} {s' : Slots} (inputs : c'.inputs = c.inputs)
      (quiet : leaks c = false) (before : c.phase.holds = false) (after : c'.phase.holds = true)
      (listed : c.phase.listed = false) (listed' : c'.phase.listed = false)
      (free : s'.free + 1 = s.free) (active : s'.active = s.active) : SlotEffect b c s (c', s')
  | lists {c' : Call F} {s' : Slots} (inputs : c'.inputs = c.inputs)
      (quiet : leaks c = false) (before : c.phase.holds = true) (after : c'.phase.holds = true)
      (listed : c.phase.listed = false) (listed' : c'.phase.listed = true)
      (fresh : c.inputs.requestId ∉ s.active) (free : s'.free = s.free)
      (active : s'.active = s.active ++ [c.inputs.requestId]) : SlotEffect b c s (c', s')
  | unlists {c' : Call F} {s' : Slots} (inputs : c'.inputs = c.inputs)
      (quiet : leaks c = false) (before : c.phase.holds = true) (after : c'.phase.holds = true)
      (listed : c.phase.listed = true) (listed' : c'.phase.listed = false) (free : s'.free = s.free)
      (active : s'.active = s.active.filter fun id => id ≠ c.inputs.requestId) :
      SlotEffect b c s (c', s')
  | gives {c' : Call F} {s' : Slots} (inputs : c'.inputs = c.inputs)
      (quiet : leaks c = false) (before : c.phase.holds = true) (after : c'.phase.holds = false)
      (listed : c.phase.listed = false) (listed' : c'.phase.listed = false)
      (free : s.free < b.maxConcurrentRequests → s'.free = s.free + 1)
      (active : s'.active = s.active) : SlotEffect b c s (c', s')
  | leaks {c' : Call F} {s' : Slots} (loud : leaks c = true) (before : c.phase.holds = true)
      (after : c'.phase.holds = false) (free : s'.free = s.free) : SlotEffect b c s (c', s')

section

variable {b : ManagedBackend F} {c : Call F} {s : Slots}

theorem publish_spec (kind : Inference.SchedulerEventKind) (errorCode : Option PyStr)
    (clock : Inference.ClockReading) (sink : Option PyException) (c : Call F) (s : Slots) :
    let handed := hand kind c.inputs.requestId errorCode clock sink
    ∃ s', s'.free = s.free ∧ s'.active = s.active ∧
      publish kind errorCode clock sink c s =
        (handed.2.filter fun exc => !exc.isException,
          { c with published := c.published ++ handed.1 }, s') := by
  unfold publish
  generalize hand kind c.inputs.requestId errorCode clock sink = handed
  obtain ⟨events, raised⟩ := handed
  cases raised with
  | none => exact ⟨s, rfl, rfl, rfl⟩
  | some exc =>
    dsimp only
    by_cases hexc : exc.isException = true
    · rw [if_pos hexc, Option.filter_some, if_neg (by simp [hexc])]
      exact ⟨{ s with eventFailures := s.eventFailures + 1 }, rfl, rfl, rfl⟩
    · rw [if_neg hexc, Option.filter_some, if_pos (by simpa using hexc)]
      exact ⟨s, rfl, rfl, rfl⟩

theorem settle_holds (r : Except Failure (GenerateResult F)) :
    (settle r).holds = true ∧ (settle r).listed = true := by
  rcases r with (error | exc) | result
  · exact ⟨rfl, rfl⟩
  · unfold settle
    dsimp only
    split_ifs <;> exact ⟨rfl, rfl⟩
  · exact ⟨rfl, rfl⟩

theorem giveBack_effect (outcome : Outcome F) (hquiet : leaks c = false)
    (hholds : c.phase.holds = true) (hlisted : c.phase.listed = false) :
    SlotEffect b c s (b.giveBack outcome c s) := by
  unfold ManagedBackend.giveBack
  by_cases hfree : s.free < b.maxConcurrentRequests
  · rw [if_pos hfree]
    exact .gives rfl hquiet hholds rfl hlisted rfl (fun _ => rfl) rfl
  · rw [if_neg hfree]
    exact .gives rfl hquiet hholds rfl hlisted rfl (fun h => absurd h hfree) rfl

variable [Floats F]

theorem callStep_effect (b : ManagedBackend F) (queue : QueueAnswer) (c : Call F) (s : Slots) :
    SlotEffect b c s (b.callStep queue c s) := by
  obtain ⟨inputs, phase, published, response⟩ := c
  cases phase with
  | entered =>
    show SlotEffect b _ s (b.enter _ s)
    unfold ManagedBackend.enter
    dsimp only
    by_cases hmodel : inputs.request.request.modelId ∉ b.models
    · rw [if_pos hmodel]
      exact .aside rfl rfl rfl rfl rfl rfl
    · rw [if_neg hmodel]
      cases now (inputs.clock .admitted) with
      | error exc => exact .aside rfl rfl rfl rfl rfl rfl
      | ok admittedAt =>
        dsimp only
        cases ManagedBackend.queueTimeout inputs admittedAt with
        | error exc => exact .aside rfl rfl rfl rfl rfl rfl
        | ok timeout => exact .aside rfl rfl rfl rfl rfl rfl
  | queued admittedAt timeout =>
    show SlotEffect b _ s (ManagedBackend.acquire admittedAt queue _ s)
    unfold ManagedBackend.acquire
    by_cases hfree : 0 < s.free
    · rw [if_pos hfree]
      exact .takes rfl rfl rfl rfl rfl rfl (Nat.sub_add_cancel hfree) rfl
    · rw [if_neg hfree]
      cases queue <;> exact .aside rfl rfl rfl rfl rfl rfl
  | acquired admittedAt =>
    unfold ManagedBackend.callStep
    dsimp only
    cases hstarted : now (inputs.clock .started) with
    | error exc => exact .leaks (by simp [leaks, hstarted]) rfl rfl rfl
    | ok startedAt => exact .aside rfl (by simp [leaks, hstarted]) rfl rfl rfl rfl
  | started admittedAt startedAt =>
    show SlotEffect b _ s (b.enterId admittedAt startedAt _ s)
    unfold ManagedBackend.enterId
    dsimp only
    by_cases hactive : inputs.requestId ∈ s.active
    · rw [if_pos hactive]
      exact giveBack_effect _ rfl rfl rfl
    · rw [if_neg hactive]
      exact .lists rfl rfl rfl rfl rfl rfl hactive rfl rfl
  | registered admittedAt startedAt =>
    show SlotEffect b _ s (ManagedBackend.publishAdmitted admittedAt startedAt _ s)
    unfold ManagedBackend.publishAdmitted
    obtain ⟨s', hfree, hactive, heq⟩ := publish_spec .ADMITTED none (inputs.clock .admittedEvent)
      inputs.admittedSink ⟨inputs, .registered admittedAt startedAt, published, response⟩ s
    dsimp only at heq ⊢
    rw [heq]
    cases hraised : (hand .ADMITTED inputs.requestId none (inputs.clock .admittedEvent)
        inputs.admittedSink).2 with
    | none => exact .aside rfl (by simp [leaks, hraised]) rfl rfl hfree hactive
    | some exc =>
      rw [Option.filter_some]
      by_cases hexc : exc.isException = true
      · rw [if_neg (by simp [hexc])]
        exact .aside rfl (by simp [leaks, hraised, hexc]) rfl rfl hfree hactive
      · rw [if_pos (by simpa using hexc)]
        exact .leaks (by simp [leaks, hraised, hexc]) rfl rfl hfree
  | admitted admittedAt startedAt =>
    unfold ManagedBackend.callStep
    dsimp only
    cases b.dispatchTimeout inputs with
    | error failure =>
      exact .aside rfl rfl (settle_holds _).1 (settle_holds _).2 rfl rfl
    | ok timeout => exact .aside rfl rfl rfl rfl rfl rfl
  | dispatched admittedAt startedAt timeout =>
    show SlotEffect b _ s (b.answer admittedAt startedAt timeout _, s)
    have hsettle : ∀ r response', SlotEffect b
        ⟨inputs, .dispatched admittedAt startedAt timeout, published, response⟩ s
        (⟨inputs, settle r, published, response'⟩, s) :=
      fun r _ => .aside rfl rfl (settle_holds r).1 (settle_holds r).2 rfl rfl
    unfold ManagedBackend.answer
    dsimp only
    cases inputs.transport b.endpoint (b.payload inputs.request) timeout inputs.requestId with
    | returns raw => exact hsettle _ _
    | fails error => exact hsettle _ _
    | raises exc => exact hsettle _ _
  | settled outcome =>
    show SlotEffect b _ s (ManagedBackend.publishTerminal outcome _ s)
    unfold ManagedBackend.publishTerminal
    dsimp only
    obtain ⟨s', hfree, hactive, heq⟩ := publish_spec (lastEvent outcome).1 (lastEvent outcome).2
      (inputs.clock .terminalEvent) inputs.terminalSink ⟨inputs, .settled outcome, published, response⟩ s
    dsimp only at heq ⊢
    rw [heq]
    cases (hand (lastEvent outcome).1 inputs.requestId (lastEvent outcome).2
        (inputs.clock .terminalEvent) inputs.terminalSink).2.filter fun exc => !exc.isException with
    | none => exact .aside rfl rfl rfl rfl hfree hactive
    | some exc => exact .aside rfl rfl rfl rfl hfree hactive
  | leaving outcome => exact .unlists rfl rfl rfl rfl rfl rfl rfl rfl
  | releasing outcome => exact giveBack_effect outcome rfl rfl rfl
  | exited outcome => exact .aside rfl rfl rfl rfl rfl rfl

end

/-! ### The slots add up -/

/-- The call has entered the id. -/
def lists (id : PyStr) (c : Call F) : Bool := c.phase.listed && c.inputs.requestId = id

/-- The slots and the ids add up, with so many lost. -/
structure Slotted (b : ManagedBackend F) (lost : ℕ) (s : ManagedState F) : Prop where
  slots : s.slots.free + s.calls.countP (fun c => c.phase.holds) + lost = b.maxConcurrentRequests
  active : lost = 0 → s.slots.active.Nodup ∧
    ∀ id, s.slots.active.count id = s.calls.countP (lists id)

section

variable {b : ManagedBackend F} {s : ManagedState F} {lost : ℕ}

theorem Slotted.start (b : ManagedBackend F) : Slotted b 0 b.start where
  slots := rfl
  active := fun _ => ⟨List.nodup_nil, fun _ => rfl⟩

/-- A count over the calls after one of them has changed. -/
theorem countP_set {calls : List (Call F)} {i : ℕ} {c : Call F} (h : calls[i]? = some c)
    (c' : Call F) (p : Call F → Bool) :
    (calls.set i c').countP p + (if p c then 1 else 0) =
      calls.countP p + if p c' then 1 else 0 := by
  obtain ⟨hlt, rfl⟩ := List.getElem?_eq_some_iff.mp h
  have hpos : p calls[i] = true → 0 < calls.countP p := fun hp =>
    List.countP_pos_iff.mpr ⟨_, List.getElem_mem hlt, hp⟩
  rw [List.countP_set hlt]
  by_cases hbefore : p calls[i] = true
  · have hsome := hpos hbefore
    rw [if_pos hbefore]
    omega
  · rw [if_neg hbefore]
    omega

/-- The ids of a step that changes neither them nor what the call has entered. -/
theorem Slotted.same_active (h : Slotted b lost s) {i : ℕ} {c c' : Call F} {slots : Slots}
    (hget : s.calls[i]? = some c) (hinputs : c'.inputs = c.inputs)
    (hlisted : c'.phase.listed = c.phase.listed) (hactive : slots.active = s.slots.active)
    (hlost : lost = 0) : slots.active.Nodup ∧
      ∀ id, slots.active.count id = (s.calls.set i c').countP (lists id) := by
  obtain ⟨hnodup, hcount⟩ := h.active hlost
  rw [hactive]
  refine ⟨hnodup, fun id => ?_⟩
  have hsame : lists id c' = lists id c := by
    unfold lists
    rw [hlisted, hinputs]
  have hset := countP_set hget c' (lists id)
  rw [hsame] at hset
  rw [hcount id]
  omega

/-- A step of a call keeps the sum; the slot that it may lose is counted. -/
theorem Slotted.effect (h : Slotted b lost s) {i : ℕ} {c : Call F} (hget : s.calls[i]? = some c)
    {out : Call F × Slots} (heffect : SlotEffect b c s.slots out) :
    Slotted b (lost + if leaks c then 1 else 0) ⟨out.2, s.calls.set i out.1⟩ := by
  have hslots := h.slots
  cases heffect with
  | aside inputs quiet holds listed free active =>
    rename_i c' slots
    have hset := countP_set hget c' fun c => c.phase.holds
    rw [holds] at hset
    rw [quiet, if_neg Bool.false_ne_true, Nat.add_zero]
    refine ⟨?_, h.same_active hget inputs listed active⟩
    show slots.free + (s.calls.set i c').countP _ + lost = _
    omega
  | takes inputs quiet before after listed listed' free active =>
    rename_i c' slots
    have hset := countP_set hget c' fun c => c.phase.holds
    rw [before, after] at hset
    rw [quiet, if_neg Bool.false_ne_true, Nat.add_zero]
    refine ⟨?_, h.same_active hget inputs (listed'.trans listed.symm) active⟩
    show slots.free + (s.calls.set i c').countP _ + lost = _
    simp only [Bool.false_eq_true, if_false, if_true] at hset
    omega
  | lists inputs quiet before after listed listed' fresh free active =>
    rename_i c' slots
    have hset := countP_set hget c' fun c => c.phase.holds
    rw [before, after] at hset
    rw [quiet, if_neg Bool.false_ne_true, Nat.add_zero]
    refine ⟨?_, fun hlost => ?_⟩
    · show slots.free + (s.calls.set i c').countP _ + lost = _
      omega
    · obtain ⟨hnodup, hcount⟩ := h.active hlost
      show slots.active.Nodup ∧ ∀ id, slots.active.count id = (s.calls.set i c').countP (Managed.lists id)
      rw [active]
      refine ⟨List.nodup_append.mpr ⟨hnodup, List.nodup_singleton _, ?_⟩, fun id => ?_⟩
      · rintro id hid _ hnew rfl
        exact fresh (List.mem_singleton.mp hnew ▸ hid)
      · have hids := countP_set hget c' (Managed.lists id)
        have hbefore : Managed.lists id c = false := by simp [Managed.lists, listed]
        have hafter : Managed.lists id c' = decide (c.inputs.requestId = id) := by
          simp [Managed.lists, listed', inputs]
        rw [hbefore, hafter] at hids
        rw [List.count_append, List.count_singleton, hcount id]
        by_cases heq : c.inputs.requestId = id
        · simp [heq] at hids ⊢
          omega
        · simp [heq] at hids ⊢
          omega
  | unlists inputs quiet before after listed listed' free active =>
    rename_i c' slots
    have hset := countP_set hget c' fun c => c.phase.holds
    rw [before, after] at hset
    rw [quiet, if_neg Bool.false_ne_true, Nat.add_zero]
    refine ⟨?_, fun hlost => ?_⟩
    · show slots.free + (s.calls.set i c').countP _ + lost = _
      omega
    · obtain ⟨hnodup, hcount⟩ := h.active hlost
      show slots.active.Nodup ∧ ∀ id, slots.active.count id = (s.calls.set i c').countP (Managed.lists id)
      rw [active]
      refine ⟨hnodup.filter _, fun id => ?_⟩
      have hids := countP_set hget c' (Managed.lists id)
      have hbefore : Managed.lists id c = decide (c.inputs.requestId = id) := by
        simp [Managed.lists, listed]
      have hafter : Managed.lists id c' = false := by simp [Managed.lists, listed']
      rw [hbefore, hafter] at hids
      by_cases heq : c.inputs.requestId = id
      · -- the id was entered once
        subst heq
        have hone := List.nodup_iff_count_le_one.mp hnodup c.inputs.requestId
        rw [hcount] at hone
        have hnone : (s.slots.active.filter fun id => id ≠ c.inputs.requestId).count
            c.inputs.requestId = 0 := List.count_eq_zero.mpr (by simp)
        simp at hids
        omega
      · have hkept : (s.slots.active.filter fun id => id ≠ c.inputs.requestId).count id =
            s.slots.active.count id := List.count_filter (by simpa using Ne.symm heq)
        rw [hkept, hcount id]
        simp [heq] at hids
        omega
  | gives inputs quiet before after listed listed' free active =>
    rename_i c' slots
    have hset := countP_set hget c' fun c => c.phase.holds
    have hpos : 0 < s.calls.countP fun c => c.phase.holds :=
      List.countP_pos_iff.mpr ⟨c, List.mem_of_getElem? hget, before⟩
    have hfree := free (by omega)
    rw [before, after] at hset
    rw [quiet, if_neg Bool.false_ne_true, Nat.add_zero]
    refine ⟨?_, h.same_active hget inputs (listed'.trans listed.symm) active⟩
    show slots.free + (s.calls.set i c').countP _ + lost = _
    simp only [Bool.false_eq_true, if_false, if_true] at hset
    omega
  | leaks loud before after free =>
    rename_i c' slots
    have hset := countP_set hget c' fun c => c.phase.holds
    rw [before, after] at hset
    rw [loud, if_pos rfl]
    refine ⟨?_, fun hlost => absurd hlost (Nat.succ_ne_zero lost)⟩
    show slots.free + (s.calls.set i c').countP _ + (lost + 1) = _
    simp only [Bool.false_eq_true, if_false, if_true] at hset
    omega

/-- Nothing is lost: the slots and the ids are those of the calls in flight. -/
theorem Slotted.returned (h : Slotted b 0 s) : CapacityReturned b s where
  slots := h.slots
  active := by
    rw [List.perm_iff_count]
    intro id
    rw [(h.active rfl).2 id, List.count_eq_countP, List.countP_map, List.countP_filter]
    refine List.countP_congr fun c _ => ?_
    simp [lists, and_comm]
  nodup := (h.active rfl).1

variable [Floats F]

theorem Slotted.step (h : Slotted b lost s) (m : ManagedMove F) :
    Slotted b (lost + if stepLeaks s m then 1 else 0) (b.step s m) := by
  cases m with
  | generate inputs =>
    show Slotted b lost { s with calls := s.calls ++ [{ inputs := inputs }] }
    refine ⟨?_, fun hlost => ⟨(h.active hlost).1, fun id => ?_⟩⟩
    · show s.slots.free + (s.calls ++ [({ inputs := inputs } : Call F)]).countP _ + lost = _
      rw [List.countP_append]
      exact h.slots
    · show s.slots.active.count id = (s.calls ++ [({ inputs := inputs } : Call F)]).countP (lists id)
      rw [List.countP_append]
      exact (h.active hlost).2 id
  | step i queue =>
    cases hget : s.calls[i]? with
    | none =>
      have hstep : b.step s (.step i queue) = s := by
        unfold ManagedBackend.step
        simp only [hget]
      have hleaks : stepLeaks s (.step i queue) = false := by
        unfold stepLeaks
        simp only [hget, Option.any_none]
      rw [hstep, hleaks]
      exact h
    | some c =>
      have hstep : b.step s (.step i queue) =
          ⟨(b.callStep queue c s.slots).2, s.calls.set i (b.callStep queue c s.slots).1⟩ := by
        unfold ManagedBackend.step
        simp only [hget]
      have hleaks : stepLeaks s (.step i queue) = leaks c := by
        unfold stepLeaks
        simp only [hget, Option.any_some]
      rw [hstep, hleaks]
      exact h.effect hget (callStep_effect b queue c s.slots)

theorem Slotted.run (h : Slotted b lost s) (moves : List (ManagedMove F)) :
    Slotted b (lost + b.leaked s moves) (moves.foldl b.step s) := by
  induction moves generalizing s lost with
  | nil => exact h
  | cons m moves ih =>
    have hrun := ih (h.step m)
    rw [Nat.add_assoc] at hrun
    exact hrun

end

/-- The slots and the ids are those of the calls in flight if no call has ended with its slot,
and only then. -/
theorem capacity_returned_iff [Floats F] (b : ManagedBackend F) (moves : List (ManagedMove F)) :
    CapacityReturned b (b.run moves) ↔ b.Leakless b.start moves := by
  have hrun := (Slotted.start b).run moves
  rw [Nat.zero_add] at hrun
  rw [← ManagedBackend.leaked_eq_zero]
  constructor
  · intro h
    have hslots := hrun.slots
    rw [show moves.foldl b.step b.start = b.run moves from rfl, h.slots] at hslots
    omega
  · intro hnone
    rw [hnone] at hrun
    exact hrun.returned

def sampleContract : ContractAST :=
  ⟨py "structured-output.v1", [⟨py "result", [.string], none⟩]⟩

def sampleGenerate : GenerateRequest NoFloat where
  protocolVersion := protocolVersion
  modelId := py "qwen"
  messages := [⟨py "user", py "hello"⟩]
  outputContract := ⟨py "structured-output.v1", [], []⟩
  limits := ⟨0, 16, 16, 1000, 1000⟩
  stream := ⟨false, false⟩
  clientRequestId := none

def samplePreflighted : Worker.PreflightedRequest NoFloat where
  request := sampleGenerate
  contract := sampleContract
  grammar := compileGbnf sampleContract
  modelMessages := buildModelMessages sampleGenerate [py "result"]
  promptHash := ((modelPromptHash NoFloat
    (buildModelMessages sampleGenerate [py "result"])).toOption).getD []
  promptVersion := promptContractVersion

theorem bounded_r : Inference.IsBoundedText (py "r") Inference.maxIdentifierBytes :=
  Inference.isBoundedText_py (by decide) (by decide) (by decide)

/-- A call of `r` that is answered so. -/
def sampleInputs (answer : TransportAnswer NoFloat) : GenerateInputs NoFloat where
  request := samplePreflighted
  scheduling := ⟨py "r", py "workflow", py "agent", py "throughput", 1, none, bounded_r,
    Nat.one_pos, Inference.one_le_maxSchedulingWeight⟩
  clock := fun _ => .finite 1
  transport := fun _ _ _ _ => answer

def sampleBackend : ManagedBackend NoFloat where
  backendId := py "vllm"
  endpoint := py "/v1/chat/completions"
  responseFormatJsonSchema := true
  models := [py "qwen"]
  maxContextTokens := 1024
  maxOutputTokens := 128
  maxConcurrentRequests := 1
  requestTimeout := 120
  text := fun _ => []
  output_pos := by decide
  output_le := by decide
  slots_pos := by decide
  timeout_pos := by decide

/-- A call of `r` whose clock is not finite once the slot has been taken. -/
def sampleStopped : GenerateInputs NoFloat :=
  { sampleInputs (.raises (.builtin "TimeoutError" "")) with
    clock := fun
      | .started => .nonfinite
      | _ => .finite 1 }

def sampleLost : List (ManagedMove NoFloat) :=
  [.generate sampleStopped, .step 0 .waits, .step 0 .waits, .step 0 .waits]

theorem capacity_returned_lost : ¬ CapacityReturned sampleBackend (sampleBackend.run sampleLost) := by
  intro h
  have hlost : (sampleBackend.run sampleLost).slots.free +
      (sampleBackend.run sampleLost).calls.countP (fun c => c.phase.holds) = 0 := by decide +kernel
  exact absurd (hlost.symm.trans h.slots) (by decide)

end Managed
