/-
The handles that the adapter gives out, over whole runs.

* `Opening`, `run` — what the native processes have opened, kept beside the adapter;
* `Quiet` — what a call does to the tables that opens and releases nothing;
* `publicHandle_inj` — a public handle holds two numbers, as long as the second is small;
* `Known`, `run_known` — every handle in a table was opened;
* `handles_unique` — handles are unique across processes, as long as they are small;
* `handle_tracking` — the three tables agree in every run with a process that keeps its word.
-/
import LlamaRuntime.Adapters.LlamaCpp

open Json Inference

namespace LlamaCpp

variable {F : Type}

/-! ### What a process has opened -/

/-- A sequence that a native process has opened. -/
structure Opening where
  processGeneration : ℕ
  native : SequenceHandle
  deriving DecidableEq

def Opening.handle (o : Opening) : SequenceHandle := publicHandle o.processGeneration o.native

structure Tracked (F : Type) where
  backend : Backend F := {}
  /-- history: what the processes have opened, the latest last -/
  openings : List Opening := []

/-- Two numbers in one: they are told apart while the second has 32 bits. -/
theorem publicHandle_inj {p p' : ℕ} {native native' : SequenceHandle}
    (h : native.generation < 2 ^ 32) (h' : native'.generation < 2 ^ 32)
    (heq : publicHandle p native = publicHandle p' native') : p = p' ∧ native = native' := by
  obtain ⟨backend, model, sequence, generation⟩ := native
  obtain ⟨backend', model', sequence', generation'⟩ := native'
  obtain ⟨hbackend, hmodel, hsequence, hpacked⟩ := SequenceHandle.mk.inj heq
  rw [← Nat.shiftLeft_add_eq_or_of_lt h, ← Nat.shiftLeft_add_eq_or_of_lt h', Nat.shiftLeft_eq,
    Nat.shiftLeft_eq] at hpacked
  dsimp only at h h' hbackend hmodel hsequence hpacked
  have hgeneration : generation = generation' := by omega
  have hprocess : p = p' := by omega
  exact ⟨hprocess, by rw [hbackend, hmodel, hsequence, hgeneration]⟩

theorem Opening.handle_inj {o o' : Opening} (h : o.native.generation < 2 ^ 32)
    (h' : o'.native.generation < 2 ^ 32) (heq : o.handle = o'.handle) : o = o' := by
  obtain ⟨hprocess, hnative⟩ := publicHandle_inj h h' heq
  cases o
  cases o'
  rw [Opening.mk.injEq]
  exact ⟨hprocess, hnative⟩

variable [PyNumbers F] {cfg : Config F} {s s' : Backend F}

/-- The native handle in a response to `open_sequence`, where it has one, and what it reserves. -/
def openedIn (cfg : Config F) (response : List (PyStr × Value F)) :
    Option (SequenceHandle × Value F) :=
  if ¬ hasKeys response openedKeys ∨ (field response "type").str? ≠ some (py "sequence_opened") then
    none
  else
    match parseNativeHandle cfg (field response "handle") with
    | .error _ => none
    | .ok native => some (native, field response "reserved_tokens")

/-- What a call makes a native process open. -/
def opening (cfg : Config F) (s : Backend F) : Op F → Option (Opening × Value F)
  | .openSequence payload answer =>
    let ran := command cfg "open_sequence" payload answer s
    match ran.result with
    | .error _ => none
    | .ok response => (openedIn cfg response).map fun opened =>
      (⟨ran.backend.processGeneration, opened.1⟩, opened.2)
  | _ => none

def Tracked.step (cfg : Config F) (t : Tracked F) (op : Op F) : Tracked F :=
  ⟨(perform cfg t.backend op).backend,
    t.openings ++ ((opening cfg t.backend op).map Prod.fst).toList⟩

def run (cfg : Config F) (ops : List (Op F)) : Tracked F := ops.foldl (Tracked.step cfg) {}

theorem run_append (ops : List (Op F)) (op : Op F) :
    run cfg (ops ++ [op]) = (run cfg ops).step cfg op := by
  rw [run, List.foldl_append, run]
  rfl

/-! ### Calls that open and release nothing -/

/-- The tables are as they were, or they are empty, perhaps of a new process. -/
inductive Quiet (s s' : Backend F) : Prop where
  | same (active : s'.active = s.active) (reserved : s'.reservedTokens = s.reservedTokens)
      (released : s'.released = s.released)
      (generation : s'.processGeneration = s.processGeneration)
  | cleared (active : s'.active = ∅) (reserved : s'.reservedTokens = ∅) (released : s'.released = ∅)
      (generation : s.processGeneration ≤ s'.processGeneration)

omit [PyNumbers F] in
theorem Quiet.refl (s : Backend F) : Quiet s s := .same rfl rfl rfl rfl

omit [PyNumbers F] in
theorem Quiet.trans {u : Backend F} (h : Quiet s s') (h' : Quiet s' u) : Quiet s u := by
  cases h' with
  | cleared active reserved released generation =>
    refine .cleared active reserved released (le_trans ?_ generation)
    cases h with
    | same _ _ _ hgeneration => exact hgeneration.ge
    | cleared _ _ _ hgeneration => exact hgeneration
  | same active reserved released generation =>
    cases h with
    | same active' reserved' released' generation' =>
      exact .same (active.trans active') (reserved.trans reserved') (released.trans released')
        (generation.trans generation')
    | cleared active' reserved' released' generation' =>
      exact .cleared (active.trans active') (reserved.trans reserved') (released.trans released')
        (generation'.trans generation.ge)

omit [PyNumbers F] in
theorem failProcess_quiet (s : Backend F) : Quiet s s.failProcess := .cleared rfl rfl rfl le_rfl

omit [PyNumbers F] in
theorem protocolFailure_quiet {α : Type} (s : Backend F) (detail : String) :
    Quiet s (s.protocolFailure (α := α) detail).2 := by
  unfold Backend.protocolFailure
  split_ifs
  · exact failProcess_quiet s
  · exact .refl s

theorem start_quiet (cfg : Config F) (answer : Answer) (s : Backend F) :
    Quiet s (start cfg answer s).2 := by
  unfold start
  split_ifs
  · exact .refl s
  · split
    · exact .same rfl rfl rfl rfl
    · exact .cleared rfl rfl rfl (Nat.le_succ _)

theorem command_quiet (cfg : Config F) (type : String) (payload : List (PyStr × Value F))
    (answer : Answer) (s : Backend F) : Quiet s (command cfg type payload answer s).backend := by
  have hstart := start_quiet cfg answer s
  unfold command
  split
  · next started => rwa [started] at hstart
  · next s' started =>
    rw [started] at hstart
    have hnext : Quiet s { s' with commandId := s'.commandId + 1 } :=
      hstart.trans (.same rfl rfl rfl rfl)
    dsimp only
    split
    · exact hnext
    · split_ifs
      · exact hnext.trans (failProcess_quiet _)
      · exact hnext

omit [PyNumbers F] in
theorem Ran.andThen_quiet {α β : Type} {ran : Ran F α}
    {next : α → Backend F → Except Raised β × Backend F} (h : Quiet s ran.backend)
    (hnext : ∀ a, ran.result = .ok a → Quiet ran.backend (next a ran.backend).2) :
    Quiet s (ran.andThen next).backend := by
  unfold Ran.andThen
  split
  · exact h
  · next a ha => exact h.trans (hnext a ha)

theorem inquire_quiet {α : Type} (cfg : Config F) (type : String)
    (payload : List (PyStr × Value F))
    (inspect : Dict SequenceHandle (Value F) → List (PyStr × Value F) → Inspection α)
    (answer : Answer) (s : Backend F) :
    Quiet s (inquire cfg type payload inspect answer s).backend := by
  refine Ran.andThen_quiet (command_quiet cfg type payload answer s) fun response _ => ?_
  split
  · exact .refl _
  · exact protocolFailure_quiet _ _
  · exact .refl _

theorem shutdown_quiet (line : Except Raised PyStr) (stopped : Bool) (s : Backend F) :
    Quiet s (shutdown line stopped s).backend := by
  unfold shutdown
  split
  · exact .cleared rfl rfl rfl le_rfl
  · dsimp only
    split
    · exact .same rfl rfl rfl rfl
    · exact .cleared rfl rfl rfl le_rfl

/-- Every call but an opening and a release. -/
theorem perform_quiet {op : Op F} (hopen : ∀ payload answer, op ≠ .openSequence payload answer)
    (hrelease : ∀ handle answer, op ≠ .release handle answer) :
    Quiet s (perform cfg s op).backend := by
  cases op with
  | start answer => exact start_quiet cfg answer s
  | supervisorState alive =>
    show Quiet s (supervisorState alive s)
    unfold supervisorState
    split_ifs
    · exact .same rfl rfl rfl rfl
    · exact .refl s
  | openSequence payload answer => exact absurd rfl (hopen payload answer)
  | stepBatch type limit steps inspect answer =>
    show Quiet s (stepBatch cfg type limit steps inspect answer s).backend
    unfold stepBatch
    split
    · exact .refl s
    · exact inquire_quiet cfg type _ inspect answer s
  | inquire type inspect answer => exact inquire_quiet cfg type [] inspect answer s
  | release handle answer => exact absurd rfl (hrelease handle answer)
  | shutdown line stopped => exact shutdown_quiet line stopped s

/-! ### Openings -/

/-- What `register` does to the tables: nothing but its own entries, unless the handle is active. -/
theorem register_cases (s : Backend F) (native : SequenceHandle) (handle reserved : Value F) :
    (publicHandle s.processGeneration native ∈ s.active.keys ∧
      Quiet s (s.register native handle reserved).2) ∨
    (publicHandle s.processGeneration native ∉ s.active.keys ∧
      (s.register native handle reserved).2 = { s with
        active := s.active.set (publicHandle s.processGeneration native) handle
        reservedTokens := (reserved.toInt.toOption.map fun n =>
          s.reservedTokens.set (publicHandle s.processGeneration native) n).getD s.reservedTokens }) := by
  unfold Backend.register
  dsimp only
  by_cases hmem : publicHandle s.processGeneration native ∈ s.active.keys
  · rw [if_pos hmem]
    exact .inl ⟨hmem, protocolFailure_quiet _ _⟩
  · rw [if_neg hmem]
    refine .inr ⟨hmem, ?_⟩
    cases reserved.toInt with
    | error e => rfl
    | ok n => rfl

theorem opened_quiet {response : List (PyStr × Value F)} (h : openedIn cfg response = none) :
    Quiet s (s.opened cfg response).2 := by
  unfold openedIn at h
  unfold Backend.opened
  split_ifs at h ⊢
  · exact protocolFailure_quiet _ _
  · cases hparse : parseNativeHandle cfg (field response "handle") with
    | error detail => exact protocolFailure_quiet _ _
    | ok native =>
      rw [hparse] at h
      cases h

theorem opened_eq {response : List (PyStr × Value F)} {native : SequenceHandle} {reserved : Value F}
    (h : openedIn cfg response = some (native, reserved)) :
    s.opened cfg response = s.register native (field response "handle") reserved := by
  unfold openedIn at h
  unfold Backend.opened
  split_ifs at h ⊢
  cases hparse : parseNativeHandle cfg (field response "handle") with
  | error detail =>
    rw [hparse] at h
    cases h
  | ok parsed =>
    rw [hparse] at h
    obtain ⟨rfl, rfl⟩ := Prod.mk.inj (Option.some_inj.mp h)
    rfl

/-- A call that opens nothing is a quiet one, a release, or an opening that has failed. -/
theorem perform_opening {op : Op F} {o : Opening} {reserved : Value F}
    (h : opening cfg s op = some (o, reserved)) : ∃ s₁ handle, Quiet s s₁ ∧
      s₁.processGeneration = o.processGeneration ∧
      (perform cfg s op).backend = (s₁.register o.native handle reserved).2 := by
  cases op with
  | openSequence payload answer =>
    have hquiet := command_quiet cfg "open_sequence" payload answer s
    unfold opening at h
    dsimp only at h
    split at h
    · cases h
    · next response hresponse =>
      obtain ⟨⟨native, reserved'⟩, hopened, heq⟩ := Option.map_eq_some_iff.mp h
      obtain ⟨rfl, rfl⟩ := Prod.mk.inj heq
      refine ⟨_, field response "handle", hquiet, rfl, ?_⟩
      show (openSequence cfg payload answer s).backend = _
      unfold openSequence Ran.andThen
      rw [hresponse]
      dsimp only
      rw [opened_eq hopened]
  | _ => cases h

theorem perform_no_opening {op : Op F} (h : opening cfg s op = none)
    (hrelease : ∀ handle answer, op ≠ .release handle answer) :
    Quiet s (perform cfg s op).backend := by
  by_cases hopen : ∃ payload answer, op = .openSequence payload answer
  · obtain ⟨payload, answer, rfl⟩ := hopen
    show Quiet s (openSequence cfg payload answer s).backend
    refine Ran.andThen_quiet (command_quiet cfg "open_sequence" payload answer s) ?_
    intro response hresponse
    unfold opening at h
    dsimp only at h
    rw [hresponse] at h
    exact opened_quiet (Option.map_eq_none_iff.mp h)
  · exact perform_quiet (fun payload answer hop => hopen ⟨payload, answer, hop⟩) hrelease

/-! ### Releases -/

omit [PyNumbers F] in
theorem mem_keys_trim {capacity : ℕ} {d : Dict SequenceHandle (Value F)} {h : SequenceHandle}
    (hmem : h ∈ (trim capacity d).keys) : h ∈ d.keys := by
  unfold trim Dict.keys at hmem
  rw [List.map_drop] at hmem
  exact List.mem_of_mem_drop hmem

omit [PyNumbers F] in
theorem length_trim (capacity : ℕ) (d : Dict SequenceHandle (Value F)) :
    (trim capacity d).items.length ≤ capacity := by
  rw [trim, List.length_drop]
  omega

theorem releasedBy_cases (cfg : Config F) (handle : SequenceHandle) (native : Value F)
    (response : List (PyStr × Value F)) (s : Backend F) :
    (∃ e, (s.releasedBy cfg handle native response).1 = .error e ∧
      Quiet s (s.releasedBy cfg handle native response).2) ∨
      ∃ outcome : ReleaseOutcome, s.releasedBy cfg handle native response =
        (.ok outcome, s.settle cfg handle native outcome.status) := by
  unfold Backend.releasedBy
  split
  · exact .inl ⟨_, rfl, protocolFailure_quiet _ _⟩
  · split
    · exact .inl ⟨_, rfl, protocolFailure_quiet _ _⟩
    · cases releaseOutcome handle response with
      | none => exact .inl ⟨_, rfl, protocolFailure_quiet _ _⟩
      | some outcome => exact .inr ⟨outcome, rfl⟩

/-- A release of a handle that is not active says so, and writes no command. -/
theorem release_inactive {handle : SequenceHandle} (h : handle ∉ s.active.keys) (cfg : Config F)
    (answer : Answer) : ∃ outcome : ReleaseOutcome,
      release cfg handle answer s = ⟨.ok outcome, [], s⟩ ∧
        (outcome.status = .ALREADY_RELEASED ∨ outcome.status = .STALE_HANDLE) := by
  have hnone : s.active.get? handle = none := by
    rw [Option.eq_none_iff_forall_ne_some]
    exact fun v hv => h (Dict.mem_keys_iff.mpr ⟨v, hv⟩)
  unfold release
  rw [hnone]
  dsimp only
  split_ifs
  · exact ⟨_, rfl, .inl rfl⟩
  · exact ⟨_, rfl, .inr rfl⟩

/-- A release of a handle that is active: the process has failed or has answered, and what it
has answered is written into the tables. -/
theorem release_active {handle : SequenceHandle} (h : handle ∈ s.active.keys) (cfg : Config F)
    (answer : Answer) : (∃ e, (release cfg handle answer s).result = .error e ∧
        Quiet s (release cfg handle answer s).backend) ∨
      ∃ s₁ native, ∃ outcome : ReleaseOutcome, Quiet s s₁ ∧
        (release cfg handle answer s).result = .ok outcome ∧
        (release cfg handle answer s).backend = s₁.settle cfg handle native outcome.status := by
  obtain ⟨native, hnative⟩ := Dict.mem_keys_iff.mp h
  have hquiet := command_quiet cfg "release_sequence" [(py "handle", native)] answer s
  unfold release Ran.andThen
  rw [hnative]
  dsimp only
  split
  · exact .inl ⟨_, rfl, hquiet⟩
  · next response hresponse =>
    rcases releasedBy_cases cfg handle native response
      (command cfg "release_sequence" [(py "handle", native)] answer s).backend with
      ⟨e, he, hq⟩ | ⟨outcome, heq⟩
    · exact .inl ⟨e, he, hquiet.trans hq⟩
    · exact .inr ⟨_, native, outcome, hquiet, by rw [heq], by rw [heq]⟩

/-! ### Every handle was opened -/

/-- The handles in the tables are those of openings, and the active ones of this process. -/
structure Known (t : Tracked F) : Prop where
  past : ∀ o ∈ t.openings, o.processGeneration ≤ t.backend.processGeneration
  active : ∀ h ∈ t.backend.active.keys, ∃ o ∈ t.openings, o.handle = h ∧
    o.processGeneration = t.backend.processGeneration
  released : ∀ h ∈ t.backend.released.keys, ∃ o ∈ t.openings, o.handle = h

omit [PyNumbers F] in
theorem known_initial : Known ({} : Tracked F) :=
  ⟨fun _ h => (nomatch h), fun _ h => (nomatch h), fun _ h => (nomatch h)⟩

omit [PyNumbers F] in
theorem Known.quiet {openings : List Opening} (h : Known ⟨s, openings⟩) (hquiet : Quiet s s') :
    Known ⟨s', openings⟩ := by
  cases hquiet with
  | same active reserved released generation =>
    constructor
    · intro o ho
      exact (h.past o ho).trans generation.ge
    · intro k hk
      obtain ⟨o, ho, hhandle, hgeneration⟩ := h.active k (active ▸ hk)
      exact ⟨o, ho, hhandle, hgeneration.trans generation.symm⟩
    · intro k hk
      exact h.released k (released ▸ hk)
  | cleared active reserved released generation =>
    constructor
    · intro o ho
      exact (h.past o ho).trans generation
    · intro k hk
      rw [show (⟨s', openings⟩ : Tracked F).backend.active = ∅ from active] at hk
      exact absurd hk List.not_mem_nil
    · intro k hk
      rw [show (⟨s', openings⟩ : Tracked F).backend.released = ∅ from released] at hk
      exact absurd hk List.not_mem_nil

omit [PyNumbers F] in
theorem Known.more {openings : List Opening} {o : Opening} (h : Known ⟨s, openings⟩)
    (ho : o.processGeneration ≤ s.processGeneration) : Known ⟨s, openings ++ [o]⟩ := by
  constructor
  · intro o' ho'
    rcases List.mem_append.mp ho' with ho' | ho'
    · exact h.past o' ho'
    · rw [List.mem_singleton.mp ho']
      exact ho
  · intro k hk
    obtain ⟨o', ho', hhandle⟩ := h.active k hk
    exact ⟨o', List.mem_append_left _ ho', hhandle⟩
  · intro k hk
    obtain ⟨o', ho', hhandle⟩ := h.released k hk
    exact ⟨o', List.mem_append_left _ ho', hhandle⟩

theorem Known.register {openings : List Opening} {o : Opening} (h : Known ⟨s, openings⟩)
    (ho : o.processGeneration = s.processGeneration) (handle reserved : Value F) :
    Known ⟨(s.register o.native handle reserved).2, openings ++ [o]⟩ := by
  have hmore := h.more ho.le
  rcases register_cases s o.native handle reserved with ⟨-, hquiet⟩ | ⟨-, heq⟩
  · exact hmore.quiet hquiet
  · rw [heq]
    refine ⟨hmore.past, fun k hk => ?_, hmore.released⟩
    rcases Dict.mem_keys_set.mp hk with rfl | hk
    · refine ⟨o, List.mem_append_right _ List.mem_cons_self, ?_, ho⟩
      rw [Opening.handle, ho]
    · exact hmore.active k hk

omit [PyNumbers F] in
theorem Known.settle {openings : List Opening} {handle : SequenceHandle} (h : Known ⟨s, openings⟩)
    (hopened : ∃ o ∈ openings, o.handle = handle) (cfg : Config F) (native : Value F)
    (status : ReleaseStatus) : Known ⟨s.settle cfg handle native status, openings⟩ := by
  have hactive : ∀ k ∈ (s.active.pop handle).keys, ∃ o ∈ openings, o.handle = k ∧
      o.processGeneration = s.processGeneration :=
    fun k hk => h.active k (Dict.mem_keys_pop.mp hk).2
  have hreleased : ∀ k ∈ (trim cfg.releasedHandleCapacity ((s.released.pop handle).set handle
      ((s.active.get? handle).getD native))).keys, ∃ o ∈ openings, o.handle = k := by
    intro k hk
    rcases Dict.mem_keys_set.mp (mem_keys_trim hk) with rfl | hk
    · exact hopened
    · exact h.released k (Dict.mem_keys_pop.mp hk).2
  cases status with
  | RELEASED => exact ⟨h.past, hactive, hreleased⟩
  | ALREADY_RELEASED => exact ⟨h.past, hactive, hreleased⟩
  | STALE_HANDLE => exact ⟨h.past, hactive, h.released⟩
  | NOT_FOUND => exact h

theorem Known.step {t : Tracked F} (h : Known t) (cfg : Config F) (op : Op F) :
    Known (t.step cfg op) := by
  unfold Tracked.step
  cases hopening : opening cfg t.backend op with
  | some opened =>
    obtain ⟨o, reserved⟩ := opened
    obtain ⟨s₁, handle, hquiet, hgeneration, heq⟩ := perform_opening hopening
    rw [heq]
    exact (h.quiet hquiet).register hgeneration.symm handle reserved
  | none =>
    rw [Option.map_none, Option.toList_none, List.append_nil]
    by_cases hrelease : ∃ handle answer, op = .release handle answer
    · obtain ⟨handle, answer, rfl⟩ := hrelease
      show Known ⟨(release cfg handle answer t.backend).backend, t.openings⟩
      by_cases hactive : handle ∈ t.backend.active.keys
      · rcases release_active hactive cfg answer with ⟨-, -, hquiet⟩ |
          ⟨s₁, native, outcome, hquiet, -, heq⟩
        · exact h.quiet hquiet
        · rw [heq]
          obtain ⟨o, ho, hhandle, -⟩ := h.active handle hactive
          exact (h.quiet hquiet).settle ⟨o, ho, hhandle⟩ cfg native outcome.status
      · obtain ⟨outcome, heq, -⟩ := release_inactive hactive cfg answer
        rw [heq]
        exact h
    · exact h.quiet (perform_no_opening hopening fun handle answer hop =>
        hrelease ⟨handle, answer, hop⟩)

theorem run_known (cfg : Config F) (ops : List (Op F)) : Known (run cfg ops) := by
  induction ops using List.reverseRecOn with
  | nil => exact known_initial
  | append_singleton ops op ih =>
    rw [run_append]
    exact ih.step cfg op

/-! ### One process -/

instance : PyNumbers Worker.NoFloat where
  eq _ _ := true
  eqInt _ n := n = 0
  truncate _ := some 0
  parseInt _ := none
  text _ := []

def sampleManifest : RuntimeManifest Worker.NoFloat where
  backendId := py "b"
  modelId := py "m"
  modelDigest := py "d"
  maxSequences := 2
  cpuThreads := 1
  kvTokens := 64
  sequenceContextTokens := 32
  prefillChunkTokens := 8
  maxDecodeBatch := 2
  decodeQuantumTokens := 1
  tickTokenBudget := 16
  cacheEnabled := false
  cacheByteBudget := 0
  cacheMaxEntries := 0
  cacheTtlSeconds := .int 0

def sampleConfig : Config Worker.NoFloat := ⟨sampleManifest, 1, Nat.one_pos⟩

/-- A process that lives and answers with this response -/
def sampleAnswer (response : List (PyStr × Value Worker.NoFloat)) : Answer :=
  ⟨true, .ok (dumps sampleManifest.readyFrame), .ok (dumps (.dict response))⟩

def sampleHandle (generation : ℕ) : Value Worker.NoFloat :=
  .dict [(py "backend", .str (py "b")), (py "model", .str (py "m")), (py "sequence", .str (py "s")),
    (py "generation", .int generation)]

def sampleResponse (type : String) (commandId generation : ℕ)
    (rest : List (PyStr × Value Worker.NoFloat)) : List (PyStr × Value Worker.NoFloat) :=
  [(py "protocol_version", .str (py ipcVersion)), (py "type", .str (py type)),
    (py "command_id", .int commandId), (py "handle", sampleHandle generation)] ++ rest

def sampleOpen (commandId generation : ℕ) : Op Worker.NoFloat :=
  .openSequence [] (sampleAnswer (sampleResponse "sequence_opened" commandId generation
    [(py "prompt_tokens", .int 4), (py "reserved_tokens", .int 8), (py "cache_hit", .bool false),
      (py "cached_prompt_tokens", .int 0)]))

def sampleOpening (generation : ℕ) : Opening := ⟨1, ⟨py "b", py "m", py "s", generation⟩⟩

def sampleReleased (commandId generation : ℕ) : Answer :=
  sampleAnswer (sampleResponse "sequence_released" commandId generation
    [(py "status", .str (py "released")), (py "released_bytes", .int 16)])

def sampleRelease (commandId generation : ℕ) : Op Worker.NoFloat :=
  .release (sampleOpening generation).handle (sampleReleased commandId generation)

/-! ### The tables agree -/

/-- The tables at a command boundary. -/
structure Agreed (cfg : Config F) (s : Backend F) : Prop where
  keys : ∀ h, h ∈ s.active.keys ↔ h ∈ s.reservedTokens.keys
  disjoint : ∀ h ∈ s.active.keys, h ∉ s.released.keys
  capacity : s.released.items.length ≤ cfg.releasedHandleCapacity

omit [PyNumbers F] in
theorem agreed_of_empty (hactive : s.active = ∅) (hreserved : s.reservedTokens = ∅)
    (hreleased : s.released = ∅) : Agreed cfg s := by
  constructor
  · intro h
    rw [hactive, hreserved]
    exact Iff.rfl
  · intro h hmem
    rw [hactive] at hmem
    exact absurd hmem List.not_mem_nil
  · rw [hreleased]
    exact Nat.zero_le _

omit [PyNumbers F] in
theorem Agreed.quiet (h : Agreed cfg s) (hquiet : Quiet s s') : Agreed cfg s' := by
  cases hquiet with
  | same active reserved released generation =>
    constructor
    · rw [active, reserved]
      exact h.keys
    · rw [active, released]
      exact h.disjoint
    · rw [released]
      exact h.capacity
  | cleared active reserved released generation => exact agreed_of_empty active reserved released

theorem Agreed.register {native : SequenceHandle} (h : Agreed cfg s)
    (hreleased : publicHandle s.processGeneration native ∉ s.released.keys) (handle : Value F)
    (n : ℤ) : Agreed cfg (s.register native handle (.int n)).2 := by
  rcases register_cases s native handle (.int n) with ⟨-, hquiet⟩ | ⟨-, heq⟩
  · exact h.quiet hquiet
  · rw [heq]
    constructor
    · intro k
      show k ∈ (s.active.set _ _).keys ↔ k ∈ (s.reservedTokens.set _ _).keys
      rw [Dict.mem_keys_set, Dict.mem_keys_set, h.keys]
    · intro k hk
      rcases Dict.mem_keys_set.mp hk with rfl | hk
      · exact hreleased
      · exact h.disjoint k hk
    · exact h.capacity

omit [PyNumbers F] in
theorem Agreed.settle (h : Agreed cfg s) (handle : SequenceHandle) (native : Value F)
    (status : ReleaseStatus) : Agreed cfg (s.settle cfg handle native status) := by
  have hkeys : ∀ k, k ∈ (s.active.pop handle).keys ↔ k ∈ (s.reservedTokens.pop handle).keys := by
    intro k
    rw [Dict.mem_keys_pop, Dict.mem_keys_pop, h.keys]
  have hkept : ∀ k ∈ (s.active.pop handle).keys, k ∉ s.released.keys :=
    fun k hk => h.disjoint k (Dict.mem_keys_pop.mp hk).2
  have hsettled : ∀ k ∈ (s.active.pop handle).keys, k ∉ (trim cfg.releasedHandleCapacity
      ((s.released.pop handle).set handle ((s.active.get? handle).getD native))).keys := by
    intro k hk hmem
    rcases Dict.mem_keys_set.mp (mem_keys_trim hmem) with rfl | hmem
    · exact (Dict.mem_keys_pop.mp hk).1 rfl
    · exact hkept k hk (Dict.mem_keys_pop.mp hmem).2
  cases status with
  | RELEASED => exact ⟨hkeys, hsettled, length_trim _ _⟩
  | ALREADY_RELEASED => exact ⟨hkeys, hsettled, length_trim _ _⟩
  | STALE_HANDLE => exact ⟨hkeys, hkept, h.capacity⟩
  | NOT_FOUND => exact h

/-- The process keeps its word in the next call: what it opens is new, its generation is small
and it reserves a number of tokens. -/
def Fair (cfg : Config F) (t : Tracked F) (op : Op F) : Prop :=
  ∀ o reserved, opening cfg t.backend op = some (o, reserved) →
    o.native.generation < 2 ^ 32 ∧ (∃ n : ℕ, reserved = .int n) ∧ o ∉ t.openings

/-- Handles that are not given out again. -/
structure Retired (t : Tracked F) (h : SequenceHandle) : Prop where
  inactive : h ∉ t.backend.active.keys
  opened : ∃ o ∈ t.openings, o.handle = h

/-- What holds at every command boundary of a run with fair processes -/
structure Sound (cfg : Config F) (t : Tracked F) : Prop where
  known : Known t
  small : ∀ o ∈ t.openings, o.native.generation < 2 ^ 32
  agreed : Agreed cfg t.backend

theorem Sound.step {t : Tracked F} (h : Sound cfg t) {op : Op F} (hfair : Fair cfg t op) :
    Sound cfg (t.step cfg op) := by
  refine ⟨h.known.step cfg op, ?_, ?_⟩
  · intro o ho
    rcases List.mem_append.mp ho with ho | ho
    · exact h.small o ho
    · obtain ⟨⟨o', reserved⟩, hopening, rfl⟩ :=
        Option.map_eq_some_iff.mp (Option.mem_toList.mp ho)
      exact (hfair o' reserved hopening).1
  · show Agreed cfg (perform cfg t.backend op).backend
    cases hopening : opening cfg t.backend op with
    | some opened =>
      obtain ⟨o, reserved⟩ := opened
      obtain ⟨s₁, handle, hquiet, hgeneration, heq⟩ := perform_opening hopening
      obtain ⟨hsmall, ⟨n, rfl⟩, hnew⟩ := hfair o reserved hopening
      rw [heq]
      refine (h.agreed.quiet hquiet).register ?_ handle n
      intro hreleased
      -- what was released had been opened, under a handle of its own
      obtain ⟨o', ho', hhandle⟩ := (h.known.quiet hquiet).released _ hreleased
      rw [hgeneration] at hhandle
      have heq' : o' = o := Opening.handle_inj (h.small o' ho') hsmall hhandle
      exact hnew (heq' ▸ ho')
    | none =>
      by_cases hrelease : ∃ handle answer, op = .release handle answer
      · obtain ⟨handle, answer, rfl⟩ := hrelease
        show Agreed cfg (release cfg handle answer t.backend).backend
        by_cases hactive : handle ∈ t.backend.active.keys
        · rcases release_active hactive cfg answer with ⟨-, -, hquiet⟩ |
          ⟨s₁, native, outcome, hquiet, -, heq⟩
          · exact h.agreed.quiet hquiet
          · rw [heq]
            exact (h.agreed.quiet hquiet).settle handle native outcome.status
        · obtain ⟨outcome, heq, -⟩ := release_inactive hactive cfg answer
          rw [heq]
          exact h.agreed
      · exact h.agreed.quiet (perform_no_opening hopening fun handle answer hop =>
          hrelease ⟨handle, answer, hop⟩)

omit [PyNumbers F] in
theorem mem_active_of_quiet (hquiet : Quiet s s') {h : SequenceHandle} (hmem : h ∈ s'.active.keys) :
    h ∈ s.active.keys := by
  cases hquiet with
  | same active => exact active ▸ hmem
  | cleared active =>
    rw [active] at hmem
    exact absurd hmem List.not_mem_nil

omit [PyNumbers F] in
theorem mem_active_of_settle {handle native status} {h : SequenceHandle}
    (hmem : h ∈ (s.settle cfg handle native status).active.keys) : h ∈ s.active.keys := by
  cases status with
  | NOT_FOUND => exact hmem
  | _ => exact (Dict.mem_keys_pop.mp hmem).2

/-- A handle that becomes active is that of what was opened. -/
theorem active_of_perform {t : Tracked F} {op : Op F} {h : SequenceHandle}
    (hmem : h ∈ (perform cfg t.backend op).backend.active.keys) : h ∈ t.backend.active.keys ∨
      ∃ o reserved, opening cfg t.backend op = some (o, reserved) ∧ o.handle = h := by
  cases hopening : opening cfg t.backend op with
  | some opened =>
    obtain ⟨o, reserved⟩ := opened
    obtain ⟨s₁, handle, hquiet, hgeneration, heq⟩ := perform_opening hopening
    rw [heq] at hmem
    rcases register_cases s₁ o.native handle reserved with ⟨-, hq⟩ | ⟨-, hregister⟩
    · exact .inl (mem_active_of_quiet (hquiet.trans hq) hmem)
    · rw [hregister] at hmem
      rcases Dict.mem_keys_set.mp hmem with rfl | hmem
      · exact .inr ⟨o, reserved, rfl, by rw [Opening.handle, hgeneration]⟩
      · exact .inl (mem_active_of_quiet hquiet hmem)
  | none =>
    refine .inl ?_
    by_cases hrelease : ∃ handle answer, op = .release handle answer
    · obtain ⟨handle, answer, rfl⟩ := hrelease
      change h ∈ (release cfg handle answer t.backend).backend.active.keys at hmem
      by_cases hactive : handle ∈ t.backend.active.keys
      · rcases release_active hactive cfg answer with ⟨-, -, hquiet⟩ |
          ⟨s₁, native, outcome, hquiet, -, heq⟩
        · exact mem_active_of_quiet hquiet hmem
        · rw [heq] at hmem
          exact mem_active_of_quiet hquiet (mem_active_of_settle hmem)
      · obtain ⟨outcome, heq, -⟩ := release_inactive hactive cfg answer
        rwa [heq] at hmem
    · exact mem_active_of_quiet (perform_no_opening hopening fun handle answer hop =>
        hrelease ⟨handle, answer, hop⟩) hmem

theorem Retired.step {t : Tracked F} {h : SequenceHandle} (hretired : Retired t h)
    (hsound : Sound cfg t) {op : Op F} (hfair : Fair cfg t op) : Retired (t.step cfg op) h := by
  obtain ⟨o, ho, hhandle⟩ := hretired.opened
  refine ⟨fun hactive => ?_, o, List.mem_append_left _ ho, hhandle⟩
  rcases active_of_perform hactive with hactive | ⟨o', reserved, hopening, hhandle'⟩
  · exact hretired.inactive hactive
  · obtain ⟨hsmall, -, hnew⟩ := hfair o' reserved hopening
    have heq := Opening.handle_inj hsmall (hsound.small o ho) (hhandle'.trans hhandle.symm)
    exact hnew (heq ▸ ho)

/-- A handle is retired by the call that releases it. -/
theorem retired_of_released {t : Tracked F} (h : Known t) {handle : SequenceHandle}
    {answer : Answer} {outcome : ReleaseOutcome}
    (hresult : (release cfg handle answer t.backend).result = .ok outcome)
    (hstatus : outcome.status = .RELEASED) : Retired (t.step cfg (.release handle answer)) handle := by
  have hactive : handle ∈ t.backend.active.keys := by
    by_contra hinactive
    obtain ⟨outcome', heq, hstatus'⟩ := release_inactive hinactive cfg answer
    rw [heq] at hresult
    obtain rfl := Except.ok.inj hresult
    rw [hstatus] at hstatus'
    rcases hstatus' with hstatus' | hstatus' <;> cases hstatus'
  obtain ⟨o, ho, hhandle, -⟩ := h.active handle hactive
  refine ⟨?_, o, List.mem_append_left _ ho, hhandle⟩
  show handle ∉ (release cfg handle answer t.backend).backend.active.keys
  rcases release_active hactive cfg answer with ⟨e, he, -⟩ |
    ⟨s₁, native, outcome', -, hresult', heq⟩
  · rw [he] at hresult
    cases hresult
  · obtain rfl := Except.ok.inj (hresult.symm.trans hresult')
    rw [heq, hstatus]
    exact fun hmem => (Dict.mem_keys_pop.mp hmem).1 rfl

/-! ### Runs with fair processes -/

/-- Every process of the run keeps its word in every call. -/
def FairRun (cfg : Config F) (ops : List (Op F)) : Prop :=
  ∀ before op after, ops = before ++ op :: after → Fair cfg (run cfg before) op

theorem FairRun.init {ops : List (Op F)} {op : Op F} (h : FairRun cfg (ops ++ [op])) :
    FairRun cfg ops := by
  rintro before op' after rfl
  exact h before op' (after ++ [op]) (by simp)

theorem run_sound {ops : List (Op F)} (h : FairRun cfg ops) : Sound cfg (run cfg ops) := by
  induction ops using List.reverseRecOn with
  | nil => exact ⟨known_initial, fun _ ho => (nomatch ho), agreed_of_empty rfl rfl rfl⟩
  | append_singleton ops op ih =>
    rw [run_append]
    exact (ih h.init).step (h ops op [] rfl)

theorem run_retired {before : List (Op F)} {h : SequenceHandle}
    (hretired : Retired (run cfg before) h) : ∀ {after : List (Op F)},
    FairRun cfg (before ++ after) → Retired (run cfg (before ++ after)) h := by
  intro after
  induction after using List.reverseRecOn with
  | nil =>
    intro _
    rwa [List.append_nil]
  | append_singleton after op ih =>
    intro hfair
    rw [← List.append_assoc] at hfair ⊢
    rw [run_append]
    exact (ih hfair.init).step (run_sound hfair.init) (hfair _ op [] rfl)

/-- **The tables agree, and a handle is released once.**  In every run with fair processes the
handles that are open are those with a reservation and none that was released lately, of which
there are as many as the capacity allows; and after a call has released a handle, each further
release of it answers without a command that there is nothing left to release. -/
theorem handle_tracking (cfg : Config F) (ops : List (Op F)) (hfair : FairRun cfg ops) :
    Agreed cfg (run cfg ops).backend ∧
    ∀ before handle answer after outcome, ops = before ++ .release handle answer :: after →
      (release cfg handle answer (run cfg before).backend).result = .ok outcome →
      outcome.status = .RELEASED → ∀ again, ∃ outcome' : ReleaseOutcome,
        release cfg handle again (run cfg ops).backend = ⟨.ok outcome', [], (run cfg ops).backend⟩ ∧
          (outcome'.status = .ALREADY_RELEASED ∨ outcome'.status = .STALE_HANDLE) := by
  refine ⟨(run_sound hfair).agreed, ?_⟩
  rintro before handle answer after outcome rfl hresult hstatus again
  have hretired : Retired (run cfg (before ++ [.release handle answer])) handle := by
    rw [run_append]
    exact retired_of_released (run_known cfg before) hresult hstatus
  rw [List.append_cons] at hfair ⊢
  exact release_inactive (run_retired hretired hfair).inactive cfg again

theorem sample_fair : FairRun sampleConfig [sampleOpen 1 1, sampleRelease 2 1] := by
  intro before op after h o reserved hopening
  match before, h with
  | [], h =>
    obtain ⟨rfl, -⟩ := List.cons.inj h
    have hfound : (opening sampleConfig {} (sampleOpen 1 1)).map
        (fun opened => (opened.1, opened.2.int?)) = some (sampleOpening 1, some 8) := by
      decide +kernel
    rw [show opening sampleConfig {} (sampleOpen 1 1) = some (o, reserved) from hopening] at hfound
    obtain ⟨rfl, hreserved⟩ := Prod.mk.inj (Option.some_inj.mp hfound)
    refine ⟨?_, ⟨8, ?_⟩, List.not_mem_nil⟩
    · show 1 < 2 ^ 32
      omega
    · cases reserved with
      | int n => exact congrArg Value.int (Option.some_inj.mp hreserved)
      | _ => cases hreserved
  | [_], h =>
    obtain ⟨-, h⟩ := List.cons.inj h
    obtain ⟨rfl, -⟩ := List.cons.inj h
    cases hopening
  | _ :: _ :: _, h =>
    have hlength := congrArg List.length h
    simp at hlength

theorem handle_tracking_sample :
    Agreed sampleConfig (run sampleConfig [sampleOpen 1 1, sampleRelease 2 1]).backend ∧
      ∀ again, ∃ outcome : ReleaseOutcome,
        release sampleConfig (sampleOpening 1).handle again
          (run sampleConfig [sampleOpen 1 1, sampleRelease 2 1]).backend =
            ⟨.ok outcome, [], (run sampleConfig [sampleOpen 1 1, sampleRelease 2 1]).backend⟩ ∧
          (outcome.status = .ALREADY_RELEASED ∨ outcome.status = .STALE_HANDLE) := by
  obtain ⟨hagreed, hreleased⟩ :=
    handle_tracking sampleConfig [sampleOpen 1 1, sampleRelease 2 1] sample_fair
  refine ⟨hagreed, ?_⟩
  have hstatus : (release sampleConfig (sampleOpening 1).handle (sampleReleased 2 1)
      (run sampleConfig [sampleOpen 1 1]).backend).result.toOption.map ReleaseOutcome.status =
        some .RELEASED := by
    decide +kernel
  obtain ⟨outcome, houtcome, hstatus⟩ := Option.map_eq_some_iff.mp hstatus
  refine hreleased [sampleOpen 1 1] (sampleOpening 1).handle (sampleReleased 2 1) [] outcome rfl ?_
    hstatus
  cases hresult : (release sampleConfig (sampleOpening 1).handle (sampleReleased 2 1)
      (run sampleConfig [sampleOpen 1 1]).backend).result with
  | error e =>
    rw [hresult] at houtcome
    cases houtcome
  | ok outcome' =>
    rw [hresult] at houtcome
    exact congrArg Except.ok (Option.some_inj.mp houtcome)

end LlamaCpp
