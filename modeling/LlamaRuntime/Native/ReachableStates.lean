/-
The states that the native runtime reaches.

* `Releasing` — what `release_sequence` does (`releasing`);
* `Stepped` — what one line of the input does (`stepped`);
* `valid_run` — the invariant holds after every sequence of lines.
-/
import LlamaRuntime.Native.OpenSteps
import LlamaRuntime.Native.PrefillSteps
import LlamaRuntime.Native.DecodeSteps

namespace Native

open Json

variable {n : ℕ} {F : Type}

/-! ### Releasing a sequence -/

/-- A slot whose sequence was cancelled. -/
def cancelledSlot (slot : Slot) : Slot :=
  { slot with lifecycle := .terminal, finishReason := .cancelled }

/-- The engine once a sequence that has not ended was cancelled. -/
def Engine.cancelledAt (e : Engine n) (i : Fin n) : Engine n :=
  if (e.slots i).lifecycle = .terminal then e else e.put i (cancelledSlot (e.slots i))

/-- The engine without the sequence of a slot. -/
def Engine.leave (e : Engine n) (i : Fin n) : Engine n :=
  { e.put i (Slot.empty (e.slots i).generation) with
    reservedTokens := e.reservedTokens - (e.slots i).reservation
    activeSequences := e.activeSequences - 1 }

theorem Engine.cancelledAt_slots (e : Engine n) (i : Fin n) :
    (e.cancelledAt i).slots i =
        { e.slots i with
          lifecycle := .terminal, finishReason := ((e.cancelledAt i).slots i).finishReason } ∧
      (∀ j ≠ i, (e.cancelledAt i).slots j = e.slots j) ∧
      (e.cancelledAt i).tokenCapacity = e.tokenCapacity ∧
      (e.cancelledAt i).reservedTokens = e.reservedTokens ∧
      (e.cancelledAt i).activeSequences = e.activeSequences := by
  unfold Engine.cancelledAt
  split_ifs with hterminal
  · refine ⟨?_, fun _ _ => rfl, rfl, rfl, rfl⟩
    rw [← hterminal]
  · refine ⟨?_, fun j hj => Function.update_of_ne hj _ _, rfl, rfl, rfl⟩
    rw [Engine.put_slots, Function.update_self]
    rfl

theorem Engine.cancel_handle {e : Engine n} {i : Fin n}
    (hlive : (e.slots i).lifecycle = .prefill ∨ (e.slots i).lifecycle = .decode) :
    (e.cancel ((e.slots i).handle i)).2 = e.put i (cancelledSlot (e.slots i)) := by
  have hne : (e.slots i).lifecycle ≠ .released := by
    rcases hlive with h | h
    all_goals
      rw [h]
      simp
  have hmem : (e.slots i).lifecycle ∈ [Lifecycle.admitted, .prefill, .decode] := by
    rcases hlive with h | h
    all_goals
      rw [h]
      simp
  have hcancel : e.cancel ((e.slots i).handle i) = _ := Engine.onSlot_handle hne _
  rw [hcancel, if_neg (not_not.mpr hmem)]
  rfl

/-- A sequence that ended is released. -/
theorem Engine.release_cancelled (e : Engine n) (i : Fin n) :
    (e.cancelledAt i).release ((e.slots i).handle i) = (.released, e.leave i) := by
  obtain ⟨hslot, hothers, hcapacity, hreserved, hactive⟩ := e.cancelledAt_slots i
  have hterminal : ((e.cancelledAt i).slots i).lifecycle = .terminal := by rw [hslot]
  have hhandle : ((e.cancelledAt i).slots i).handle i = (e.slots i).handle i := by
    rw [hslot]
    rfl
  have hfind : (e.cancelledAt i).find ((e.slots i).handle i) = some ((e.cancelledAt i).slots i) := by
    rw [← hhandle]
    exact Engine.find_handle (by rw [hterminal]; simp)
  unfold Engine.release
  rw [hfind]
  dsimp only
  rw [if_neg (not_not.mpr hterminal)]
  have hgeneration : ((e.cancelledAt i).slots i).generation = (e.slots i).generation := by rw [hslot]
  have hreservation : ((e.cancelledAt i).slots i).reservation = (e.slots i).reservation := by
    rw [hslot]
    rfl
  rw [hgeneration, hreservation, hreserved, hactive]
  unfold Engine.leave
  have hput : (e.cancelledAt i).put ((e.slots i).handle i).slot (Slot.empty (e.slots i).generation)
      = e.put i (Slot.empty (e.slots i).generation) := by
    unfold Engine.cancelledAt
    split_ifs
    · rfl
    · exact Engine.put_put _ _ _ _
  rw [hput]

/-- What `release_sequence` does: it is refused, or says that nothing is there; it names the
slot of another sequence, whose cells it removes; it stops before the sequence is gone; or it
releases the sequence. -/
inductive Releasing (config : Setup) (r : Runtime config.maxSequences) (command : Value F)
    (out : ReleaseReply) : Runtime config.maxSequences × Reply config.maxSequences F → Prop
  | rejected (fault : Fault) : Releasing config r command out (r, .fault fault)
  | vacant (handle : Value F) (field : field command "handle" = .ok handle)
      (i : Fin config.maxSequences) (generation : ℕ)
      (parsed : parsePublicHandle config handle = some (i, generation)) (free : r.states i = none)
      (status : ReleaseStatus) (gone : status ≠ .released) :
      Releasing config r command out (r, .sequenceReleased handle status 0)
  | stale (handle : Value F) (field : field command "handle" = .ok handle)
      (i : Fin config.maxSequences) (generation : ℕ)
      (parsed : parsePublicHandle config handle = some (i, generation))
      (s : SequenceState config.maxSequences) (occupied : r.states i = some s)
      (other : s.internal.generation ≠ generation) :
      Releasing config r command out
        ({ r with memory := Function.update r.memory i [] },
          .sequenceReleased handle .staleHandle 0)
  | stopped (handle : Value F) (field : field command "handle" = .ok handle)
      (i : Fin config.maxSequences) (s : SequenceState config.maxSequences)
      (named : r.named config handle = some (i, s)) (fault : Fault) :
      Releasing config r command out ({ r with engine := r.engine.cancelledAt i }, .fault fault)
  | released (handle : Value F) (field : field command "handle" = .ok handle)
      (i : Fin config.maxSequences) (s : SequenceState config.maxSequences)
      (named : r.named config handle = some (i, s)) :
      Releasing config r command out
        ({ r with
            engine := r.engine.leave i
            states := Function.update r.states i none
            memory := Function.update r.memory i [] },
          .sequenceReleased handle .released out.memorySize)

/-- No sampler is attached, so that only the cells of a slot are removed. -/
theorem clearSlot_eq {r : Runtime n} {i : Fin n} {s : SequenceState n} (hs : r.states i = some s)
    (hsampler : s.backendReasoningSampler = false) (hsamplers : r.samplers i = false)
    (out : ReleaseReply) :
    r.clearSlot i s out =
      if out.samplerCleared = false then (r, refuse "backend_sampler_release_failed")
      else if out.memoryCleared = false then (r, refuse "sequence_memory_release_failed")
      else ({ r with memory := Function.update r.memory i [] }, .ok ()) := by
  have hsame : { s with backendReasoningSampler := false } = s := by rw [← hsampler]
  have hput : r.putState i s = r := by
    unfold Runtime.putState
    rw [← hs, Function.update_eq_self]
  have hdetached : Function.update r.samplers i false = r.samplers := by
    rw [← hsamplers, Function.update_eq_self]
  unfold Runtime.clearSlot
  dsimp only
  rw [hsame, hput, hdetached]

/-- A handle of another generation than that of its slot is not released. -/
theorem releaseSlot_other {r : Runtime n} {i : Fin n} {generation : ℕ} (handle : Value F)
    (memorySize : ℕ)
    (hother : (r.engine.slots i).lifecycle ≠ .released → (r.engine.slots i).generation ≠ generation) :
    ∃ status, status ≠ .released ∧
      ((r.engine.slots i).lifecycle ≠ .released → status = .staleHandle) ∧
      r.releaseSlot ⟨i, generation, [], []⟩ handle memorySize
        = (r, .sequenceReleased handle status 0) := by
  have hfind : r.engine.find ⟨i, generation, [], []⟩ = none := by
    unfold Engine.find
    exact if_neg fun hmatches => hother hmatches.1 hmatches.2.1
  unfold Runtime.releaseSlot Engine.release
  rw [hfind]
  dsimp only
  by_cases hsame : (r.engine.slots i).generation = generation ∧
      (r.engine.slots i).lifecycle = .released
  · rw [if_pos hsame]
    exact ⟨.alreadyReleased, by simp, fun hlive => absurd hsame.2 hlive, rfl⟩
  · rw [if_neg hsame]
    exact ⟨.staleHandle, by simp, fun _ => rfl, rfl⟩

/-- The engine cancels a sequence that has not ended. -/
theorem cancelledAt_eq {r : Runtime n} {i : Fin n} {s : SequenceState n}
    (hstate : StateValid (r.engine.slots i) i s)
    (hlife : r.lifecycle s = some (r.engine.slots i).lifecycle) :
    (if (r.lifecycle s).any (· ≠ .terminal) = true then
        { r with engine := (r.engine.cancel s.internal).2 } else r)
      = { r with engine := r.engine.cancelledAt i } := by
  rw [hlife]
  unfold Engine.cancelledAt
  by_cases hterminal : (r.engine.slots i).lifecycle = .terminal
  · rw [if_neg (by simp [hterminal]), if_pos hterminal]
  · have hlive : (r.engine.slots i).lifecycle = .prefill ∨
        (r.engine.slots i).lifecycle = .decode := by
      rcases hstate.live with h | h | h
      · exact .inl h
      · exact .inr h
      · exact absurd h hterminal
    rw [if_pos (by simp [hterminal]), if_neg hterminal, hstate.internal, Engine.cancel_handle hlive]

theorem releasing {config : Setup} {r : Runtime config.maxSequences} (h : r.Valid config)
    (command : Value F) (out : ReleaseReply) :
    Releasing config r command out (r.releaseSequence config command out) := by
  unfold Runtime.releaseSequence
  split
  · exact .rejected _
  · next handle hok =>
    obtain ⟨_, -, hfield⟩ := bind_eq_ok.mp hok
    cases hparse : parsePublicHandle config handle with
    | none => exact .rejected _
    | some found =>
      obtain ⟨i, generation⟩ := found
      dsimp only
      cases hs : r.states i with
      | none =>
        have hreleased := (h.released_iff i).mpr hs
        have hother : (r.engine.slots i).lifecycle ≠ .released →
            (r.engine.slots i).generation ≠ generation := fun hlive => absurd hreleased hlive
        obtain ⟨status, hgone, -, heq⟩ := releaseSlot_other handle 0 hother
        dsimp only
        rw [heq]
        exact .vacant handle hfield i generation hparse hs status hgone
      | some s =>
        have hstate := h.state hs
        dsimp only
        by_cases hnamed : s.internal.generation = generation
        · have hfound : r.named config handle = some (i, s) :=
            Runtime.named_eq_some.mpr ⟨generation, hparse, hs, hnamed⟩
          have hcancelled := cancelledAt_eq hstate (h.lifecycle hs)
          rw [if_pos hnamed]
          simp only [hnamed, true_and]
          have hcleared := clearSlot_eq (r := { r with engine := r.engine.cancelledAt i }) hs
            hstate.sampler (h.samplers i) out
          rw [hcancelled, hcleared]
          split_ifs with hsampler hmemory
          · exact .stopped handle hfield i s hfound _
          · exact .stopped handle hfield i s hfound _
          · have hrelease := r.engine.release_cancelled i
            rw [← hstate.internal] at hrelease
            have hslot : s.internal.slot = i := by rw [hstate.internal]; rfl
            unfold Runtime.releaseSlot
            dsimp only
            rw [hrelease, hslot]
            exact .released handle hfield i s hfound
        · rw [if_neg (fun hc => hnamed hc.1), if_neg hnamed,
            clearSlot_eq hs hstate.sampler (h.samplers i)]
          split_ifs with hsampler hmemory
          · exact .rejected _
          · exact .rejected _
          · have hother : (r.engine.slots i).generation ≠ generation := by
              rw [hstate.internal] at hnamed
              exact hnamed
            obtain ⟨status, -, hstale, heq⟩ := releaseSlot_other
              (r := { r with memory := Function.update r.memory i [] }) handle out.memorySize
              fun _ => hother
            dsimp only
            rw [heq, hstale hstate.ne_released]
            exact .stale handle hfield i generation hparse s hs hnamed

theorem Engine.Valid.cancelledAt {e : Engine n} (h : e.Valid) {i : Fin n}
    (hlive : (e.slots i).lifecycle ≠ .released) : (e.cancelledAt i).Valid := by
  unfold Engine.cancelledAt
  split_ifs
  · exact h
  · have hslot := h.slot i
    refine h.put ⟨fun hr => absurd hr (by simp [cancelledSlot]), fun _ => hslot.named hlive,
      fun _ => hslot.sized hlive, hslot.processed, hslot.decoded,
      fun hp => absurd hp (by simp [cancelledSlot])⟩ rfl ?_
    exact ⟨fun hr => absurd hr (by simp [cancelledSlot]), fun hr => absurd hr hlive⟩

theorem StateValid.cancelled {slot slot' : Slot} {i : Fin n} {s : SequenceState n}
    (h : StateValid slot i s)
    (hslot : slot' = { slot with lifecycle := .terminal, finishReason := slot'.finishReason }) :
    StateValid slot' i s := by
  rw [hslot]
  exact ⟨h.internal, .inr (.inr rfl), h.prompt, h.logical, h.physical, h.nPast,
    fun hp => absurd hp (by simp), fun hd => absurd hd (by simp), h.pending, h.sampler, fun _ => rfl,
    h.sessionPrefix⟩

theorem Runtime.Valid.releasing {config : Setup} {r : Runtime config.maxSequences}
    (h : r.Valid config) {command : Value F} {out : ReleaseReply}
    {result : Runtime config.maxSequences × Reply config.maxSequences F}
    (hreleasing : Releasing config r command out result) : result.1.Valid config := by
  rcases hreleasing with ⟨fault⟩ | ⟨handle, -, i, generation, -, free, status, -⟩ |
    ⟨handle, -, i, generation, -, s, occupied, -⟩ | ⟨handle, -, i, s, named, fault⟩ |
    ⟨handle, -, i, s, named⟩
  · exact h
  · exact h
  · exact h.tables rfl rfl rfl rfl
  · obtain ⟨_, -, hs, -⟩ := Runtime.named_eq_some.mp named
    have hstate := h.state hs
    obtain ⟨hslot, hothers, hcapacity, -⟩ := r.engine.cancelledAt_slots i
    refine h.replace i (h.engine.cancelledAt hstate.ne_released) hcapacity hothers (fun _ _ => rfl)
      ?_ h.samplers h.cache
    show SlotState ((r.engine.cancelledAt i).slots i) i (r.states i)
    rw [hs]
    exact hstate.cancelled hslot
  · obtain ⟨_, -, hs, -⟩ := Runtime.named_eq_some.mp named
    have hstate := h.state hs
    have hvalid := (h.engine.cancelledAt hstate.ne_released).release ((r.engine.slots i).handle i)
    rw [r.engine.release_cancelled i] at hvalid
    refine h.replace i hvalid rfl (fun j hj => Function.update_of_ne hj _ _)
      (fun j hj => Function.update_of_ne hj _ _) ?_ h.samplers h.cache
    show SlotState (Function.update r.engine.slots i _ i) i (Function.update r.states i none i)
    rw [Function.update_self, Function.update_self]
    rfl

/-! ### One line of the input -/

/-- The types that begin a batch. -/
def batchTypes : List PyStr := [py "prefill_batch", py "decode_batch"]

/-- What one line of the input does. -/
inductive Stepped (config : Setup) (model : LlamaModel F) (r : Runtime config.maxSequences)
    (input : Input F config.maxSequences) :
    Runtime config.maxSequences × Reply config.maxSequences F → Prop
  | rejected (refusal : Refusal)
      (other : ∀ command, input.line = some command → ∀ type, commandType command = .ok type →
        type ∉ batchTypes) : Stepped config model r input (r, .commandError refusal)
  | stopped : Stepped config model r input (r, .shutdownComplete)
  | stats (entries bytesUsed : ℕ) :
      Stepped config model r input
        ({ r with cache := r.cache.after (.stats input.out.statsAt) }, .cacheStats entries bytesUsed)
  | cleared (entries : ℕ) :
      Stepped config model r input ({ r with cache := r.cache.after .clear }, .cacheCleared entries)
  | opening (command : Value F) (line : input.line = some command)
      (type : commandType command = .ok (py "open_sequence"))
      (result : Runtime config.maxSequences × Reply config.maxSequences F)
      (handled : result = r.openSequence config model command input.out.opening)
      (opening : Opening config model r command result) : Stepped config model r input result
  | prefilling (command : Value F) (line : input.line = some command)
      (type : commandType command = .ok (py "prefill_batch"))
      (result : Runtime config.maxSequences × Reply config.maxSequences F)
      (handled : result = r.prefillBatch config command input.out.prefill)
      (batch : PrefillBatch config r command input.out.prefill result) :
      Stepped config model r input (refusedEntry (r.stepSlots config command) result)
  | decoding (command : Value F) (line : input.line = some command)
      (type : commandType command = .ok (py "decode_batch"))
      (result : Runtime config.maxSequences × Reply config.maxSequences F)
      (handled : result = r.decodeBatch config model command input.out.rounds)
      (batch : DecodeBatch config model r command input.out.rounds result) :
      Stepped config model r input (refusedEntry (r.stepSlots config command) result)
  | releasing (command : Value F) (line : input.line = some command)
      (type : commandType command = .ok (py "release_sequence"))
      (result : Runtime config.maxSequences × Reply config.maxSequences F)
      (handled : result = r.releaseSequence config command input.out.releasing)
      (releasing : Releasing config r command input.out.releasing result) :
      Stepped config model r input result

theorem stepped {config : Setup} (model : LlamaModel F) {r : Runtime config.maxSequences}
    (h : r.Valid config) (input : Input F config.maxSequences) :
    Stepped config model r input (step config model r input) := by
  unfold step
  cases hline : input.line with
  | none => exact .rejected _ fun command hc => absurd (hline.symm.trans hc) (by simp)
  | some command =>
    dsimp only
    cases htype : commandType command with
    | error fault =>
      refine .rejected _ fun command' hc type ht => ?_
      obtain rfl := Option.some_inj.mp (hline.symm.trans hc)
      exact absurd (htype.symm.trans ht) (by simp)
    | ok type =>
      dsimp only
      have hother : type ∉ batchTypes → ∀ command', input.line = some command' →
          ∀ type, commandType command' = .ok type → type ∉ batchTypes := by
        intro hbatch command' hc type' ht
        obtain rfl := Option.some_inj.mp (hline.symm.trans hc)
        obtain rfl := Except.ok.inj (htype.symm.trans ht)
        exact hbatch
      unfold Runtime.perform
      dsimp only
      by_cases hshutdown : type = py "shutdown"
      · rw [if_pos hshutdown]
        subst hshutdown
        split
        · exact .rejected _ (hother (by decide))
        · exact .stopped
      rw [if_neg hshutdown]
      by_cases hstats : type = py "cache_stats"
      · rw [if_pos hstats]
        subst hstats
        split
        · exact .rejected _ (hother (by decide))
        · exact .stats _ _
      rw [if_neg hstats]
      by_cases hclear : type = py "cache_clear"
      · rw [if_pos hclear]
        subst hclear
        split
        · exact .rejected _ (hother (by decide))
        · exact .cleared _
      rw [if_neg hclear]
      by_cases hopen : type = py "open_sequence"
      · rw [if_pos hopen]
        subst hopen
        exact .opening command hline htype _ rfl (opening model h command input.out.opening)
      rw [if_neg hopen]
      by_cases hprefill : type = py "prefill_batch"
      · rw [if_pos hprefill]
        subst hprefill
        exact .prefilling command hline htype _ rfl (prefillBatch h command input.out.prefill)
      rw [if_neg hprefill]
      by_cases hdecode : type = py "decode_batch"
      · rw [if_pos hdecode]
        subst hdecode
        exact .decoding command hline htype _ rfl (decodeBatch model h command input.out.rounds)
      rw [if_neg hdecode]
      by_cases hrelease : type = py "release_sequence"
      · rw [if_pos hrelease]
        subst hrelease
        exact .releasing command hline htype _ rfl (releasing h command input.out.releasing)
      rw [if_neg hrelease]
      refine .rejected _ (hother ?_)
      simp [batchTypes, hprefill, hdecode]

theorem refusedEntry_tables {α : Type} (slots : List (Fin n)) (result : Runtime n × Reply n α) :
    (refusedEntry slots result).1.engine = result.1.engine ∧
      (refusedEntry slots result).1.states = result.1.states ∧
      (refusedEntry slots result).1.cache = result.1.cache ∧
      (refusedEntry slots result).1.memory = result.1.memory ∧
      (refusedEntry slots result).1.samplers = result.1.samplers := by
  unfold refusedEntry
  split
  · exact ⟨rfl, rfl, rfl, rfl, rfl⟩
  · exact ⟨rfl, rfl, rfl, rfl, rfl⟩

theorem PrefillBatch.valid {config : Setup} {r : Runtime config.maxSequences} (h : r.Valid config)
    {command : Value F} {out : PrefillReply config.maxSequences}
    {result : Runtime config.maxSequences × Reply config.maxSequences F}
    (hbatch : PrefillBatch config r command out result) : result.1.Valid config := by
  cases hbatch with
  | rejected => exact h
  | undecoded => exact h.decode _ _
  | followed _ _ _ _ _ _ run => exact run.valid

theorem DecodeBatch.valid {config : Setup} {model : LlamaModel F} {r : Runtime config.maxSequences}
    (h : r.Valid config) {command : Value F} {rounds : ℕ → RoundReply config.maxSequences}
    {result : Runtime config.maxSequences × Reply config.maxSequences F}
    (hbatch : DecodeBatch config model r command rounds result) : result.1.Valid config := by
  cases hbatch with
  | rejected => exact h
  | stopped _ _ _ _ _ _ _ run => exact run.valid
  | completed _ _ _ _ _ _ _ run => exact run.valid.tables rfl rfl rfl rfl

/-- What one line of the input keeps. -/
theorem Runtime.Valid.step {config : Setup} (model : LlamaModel F) {r : Runtime config.maxSequences}
    (h : r.Valid config) (input : Input F config.maxSequences) :
    (step config model r input).1.Valid config := by
  have hstepped := stepped model h input
  revert hstepped
  generalize Native.step config model r input = result
  intro hstepped
  cases hstepped with
  | rejected => exact h
  | stopped => exact h
  | stats => exact ⟨h.engine, h.capacity, h.slots, h.samplers, h.cache.after (.stats input.out.statsAt)⟩
  | cleared => exact ⟨h.engine, h.capacity, h.slots, h.samplers, h.cache.after .clear⟩
  | opening _ _ _ _ _ opening => exact h.opening opening
  | prefilling command _ _ result _ batch =>
    obtain ⟨hengine, hstates, hcache, -, hsamplers⟩ :=
      refusedEntry_tables (r.stepSlots config command) result
    exact (batch.valid h).tables hengine hstates hcache hsamplers
  | decoding command _ _ result _ batch =>
    obtain ⟨hengine, hstates, hcache, -, hsamplers⟩ :=
      refusedEntry_tables (r.stepSlots config command) result
    exact (batch.valid h).tables hengine hstates hcache hsamplers
  | releasing _ _ _ _ _ releasing => exact h.releasing releasing

/-- **The invariant holds in every reachable state.** -/
theorem valid_run (config : Setup) (model : LlamaModel F)
    (inputs : List (Input F config.maxSequences)) : (run config model inputs).Valid config := by
  induction inputs using List.reverseRecOn with
  | nil => exact valid_initial config
  | append_singleton inputs input ih =>
    rw [run_concat]
    exact ih.step model input

end Native
