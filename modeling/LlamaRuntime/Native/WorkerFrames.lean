/-
The frames of the native worker are those of the protocol.

* `PayloadFor` — the payloads of each kind of frame, and what the strict reader makes of them;
* `Written` — the frames on the pipe spell a word that has come to this stage;
* `samplePass_live`, `sampleLoop_live` — what one pass and the whole loop keep;
* `served_frames_accepted` — the verifier accepts every frame of a job.
-/
import Mathlib.Data.Nat.Digits.Lemmas
import LlamaRuntime.Native.Commands
import LlamaRuntime.Native.ModelWorker
import LlamaRuntime.Python.Utf8Texts
import LlamaRuntime.Worker.FrameEvents

namespace ModelWorker

open Json Native Worker

variable {F : Type} [Floats F]

/-! ### What can be sent -/

/-- An integer is one of the writer. -/
def fits : Value F → Bool
  | .int n => decide (IsInteger n)
  | _ => true

/-- A value that the writer and the strict reader agree on. -/
structure Sendable (v : Value F) : Prop where
  tidy : v.Tidy
  fits : v.all fits = true

theorem sendable_str {s : PyStr} (h : Clean s) : Sendable (.str s : Value F) :=
  ⟨Value.tidy_str.mpr h, rfl⟩

theorem sendable_float {x : F} (h : Floats.isFinite x = true) : Sendable (.float x) := ⟨h, rfl⟩

theorem isInteger_nat {n : ℕ} (h : n < 2 ^ 63) : IsInteger n := by
  unfold IsInteger
  omega

theorem sendable_nat {n : ℕ} (h : n < 2 ^ 63) : Sendable (.int n : Value F) := by
  refine ⟨Value.tidy_int.mpr ?_, ?_⟩
  · show (decimal n).length ≤ Value.maxStrDigits
    have hdigits : (Nat.digits 10 n).length ≤ 19 :=
      (Nat.digits_length_le_iff (by omega) n).mpr (by omega)
    unfold decimal Value.maxStrDigits
    split_ifs
    · exact Nat.le_add_left 1 _
    · rw [List.length_map, List.length_reverse]
      omega
  · rw [Value.all, fits, decide_eq_true (isInteger_nat h)]
    all_goals simp

theorem sendable_dict {items : List (PyStr × Value F)} (hnodup : (items.map Prod.fst).Nodup)
    (hkeys : ∀ k ∈ items.map Prod.fst, Clean k) (hvalues : ∀ f ∈ items, Sendable f.2) :
    Sendable (.dict items) := by
  refine ⟨Value.tidy_dict hnodup hkeys fun f hf => (hvalues f hf).tidy, ?_⟩
  rw [Value.all_dict, Bool.and_eq_true]
  exact ⟨rfl, List.all_eq_true.mpr fun f hf => (hvalues f hf).fits⟩

/-! ### Payloads -/

/-- What a kind of frame has besides its header. -/
def payloadFields : FrameKind → List String
  | .started => []
  | .phase => ["phase"]
  | .finalDelta => ["delta"]
  | .progress => ["phase", "tokens"]
  | .heartbeat => ["sampled_tokens"]
  | .completed => ["final_text", "usage", "timing"]
  | .failed => ["error", "detail"]

inductive PayloadFor : FrameKind → List (PyStr × Value F) → Prop where
  | started : PayloadFor .started []
  | phase : PayloadFor .phase [(py "phase", .str (py "final"))]
  | finalDelta {delta : PyStr} (nonempty : delta ≠ []) (clean : Clean delta) :
      PayloadFor .finalDelta [(py "delta", .str delta)]
  | progress {phase : String} {n : ℕ} (known : phase ∈ progressPhases) (small : n < 2 ^ 63) :
      PayloadFor .progress [(py "phase", .str (py phase)), (py "tokens", .int n)]
  | heartbeat {n : ℕ} (small : n < 2 ^ 63) :
      PayloadFor .heartbeat [(py "sampled_tokens", .int n)]
  | completed {text : PyStr} {usage timing : List (PyStr × Value F)} (clean : Clean text)
      (usage_sendable : Sendable (.dict usage)) (timing_sendable : Sendable (.dict timing)) :
      PayloadFor .completed
        [(py "final_text", .str text), (py "usage", .dict usage), (py "timing", .dict timing)]
  | failed {error detail : PyStr} (error_clean : Clean error) (detail_clean : Clean detail) :
      PayloadFor .failed [(py "error", .str error), (py "detail", .str detail)]

/-- The frame that `emit` writes. -/
def frameOf (job : Job) (k : FrameKind) (n : ℕ) (payload : List (PyStr × Value F)) : Frame F :=
  ⟨header job k.name n ++ payload⟩

variable {job : Job} {k : FrameKind} {n : ℕ} {payload : List (PyStr × Value F)}

theorem PayloadFor.keys (h : PayloadFor k payload) :
    (frameOf job k n payload).items.map Prod.fst = (commonKeys ++ payloadFields k).map py := by
  cases h <;> rfl

theorem nodup_keys (k : FrameKind) : ((commonKeys ++ payloadFields k).map py).Nodup := by
  cases k <;> decide

theorem clean_keys (k : FrameKind) : ∀ key ∈ (commonKeys ++ payloadFields k).map py, Clean key := by
  cases k <;> decide

theorem clean_progress {phase : String} (h : phase ∈ progressPhases) : Clean (py phase) := by
  have hall : ∀ phase ∈ progressPhases, Clean (py phase) := by decide
  exact hall phase h

theorem PayloadFor.sendable (h : PayloadFor k payload) : ∀ f ∈ payload, Sendable f.2 := by
  have hone {f : PyStr × Value F} (hf : Sendable f.2) : ∀ g ∈ [f], Sendable g.2 :=
    fun g hg => List.mem_singleton.mp hg ▸ hf
  cases h with
  | started => exact fun f hf => absurd hf List.not_mem_nil
  | phase => exact hone (sendable_str (by decide))
  | finalDelta _ hclean => exact hone (sendable_str hclean)
  | progress hknown hsmall =>
    exact List.forall_mem_cons.mpr
      ⟨sendable_str (clean_progress hknown), hone (sendable_nat hsmall)⟩
  | heartbeat hsmall => exact hone (sendable_nat hsmall)
  | completed hclean husage htiming =>
    exact List.forall_mem_cons.mpr ⟨sendable_str hclean, List.forall_mem_cons.mpr
      ⟨husage, hone htiming⟩⟩
  | failed herror hdetail =>
    exact List.forall_mem_cons.mpr ⟨sendable_str herror, hone (sendable_str hdetail)⟩

theorem clean_name (k : FrameKind) : Clean (py k.name) := by cases k <;> decide

/-- The whole frame can be sent. -/
theorem PayloadFor.frame_sendable (h : PayloadFor k payload) (hn : n < 2 ^ 63) :
    Sendable (.dict (frameOf job k n payload).items) := by
  have hkeys : (frameOf job k n payload).items.map Prod.fst = _ := h.keys
  refine sendable_dict (hkeys ▸ nodup_keys k) (hkeys ▸ clean_keys k) fun f hf => ?_
  rcases List.mem_append.mp hf with hf | hf
  · simp only [header, List.mem_cons, List.not_mem_nil, or_false] at hf
    rcases hf with rfl | rfl | rfl | rfl | rfl
    · exact sendable_str (by decide)
    · exact sendable_str (clean_name k)
    · exact sendable_str job.request_clean
    · exact sendable_str job.attempt_clean
    · exact sendable_nat hn
  · exact h.sendable f hf

/-- What the verifier looks at. -/
theorem PayloadFor.isFrame (h : PayloadFor k payload) :
    IsFrame job.requestId job.attemptId n (frameOf job k n payload) k := by
  refine ⟨rfl, rfl, rfl, rfl, rfl, ?_⟩
  cases h with
  | started => trivial
  | phase => rfl
  | finalDelta hne _ => exact ⟨_, rfl, hne⟩
  | progress hknown _ => exact ⟨⟨_, hknown, rfl⟩, _, rfl⟩
  | heartbeat _ => exact ⟨_, rfl⟩
  | completed _ _ _ => exact ⟨rfl, rfl, rfl⟩
  | failed _ _ => exact ⟨rfl, rfl⟩

/-! ### The frames on the pipe -/

omit [Floats F] in
theorem hasKeys_of_mem {frame : Frame F} {keys : List String}
    (h : ∀ key, key ∈ frame.items.map Prod.fst ↔ key ∈ keys.map py) :
    hasKeys frame keys = true := by
  refine decide_eq_true ⟨List.all_eq_true.mpr fun item hitem => decide_eq_true ?_,
    List.all_eq_true.mpr fun key hkey => decide_eq_true ?_⟩
  · exact (h _).mp (List.mem_map_of_mem hitem)
  · exact (h _).mpr (List.mem_map_of_mem hkey)

/-- The frame as the strict reader gives it: its keys are sorted. -/
def readBack (frame : Frame F) : Frame F :=
  ⟨sortKeys (frame.items.map fun f => (f.1, f.2.normal))⟩

omit [Floats F] in
theorem get_readBack {frame : Frame F} (h : (frame.items.map Prod.fst).Nodup) (key : String) :
    (readBack frame).get key = (frame.get key).map Value.normal := Value.lookup_normal h _

omit [Floats F] in
theorem text_readBack {frame : Frame F} (h : (frame.items.map Prod.fst).Nodup) (key : String) :
    (readBack frame).text key = frame.text key := by
  rw [Frame.text, get_readBack h, Frame.text]
  cases frame.get key with
  | none => rfl
  | some v => cases v <;> simp [Value.str?]

omit [Floats F] in
theorem int_readBack {frame : Frame F} (h : (frame.items.map Prod.fst).Nodup) (key : String) :
    (readBack frame).int key = frame.int key := by
  rw [Frame.int, get_readBack h, Frame.int]
  cases frame.get key with
  | none => rfl
  | some v => cases v <;> simp [Value.int?]

omit [Floats F] in
theorem dict_readBack {frame : Frame F} (h : (frame.items.map Prod.fst).Nodup) (key : String) :
    ((readBack frame).dict key).isSome = (frame.dict key).isSome := by
  rw [Frame.dict, get_readBack h, Frame.dict]
  cases frame.get key with
  | none => rfl
  | some v => cases v <;> simp [Value.dict?]

omit [Floats F] in
/-- A frame is of the same kind when it has been read. -/
theorem isFrame_readBack {r a : PyStr} {frame : Frame F} (h : (frame.items.map Prod.fst).Nodup)
    (hframe : IsFrame r a n frame k) : IsFrame r a n (readBack frame) k := by
  refine ⟨?_, ?_, ?_, ?_, ?_, ?_⟩
  · rw [text_readBack h, hframe.version]
  · rw [text_readBack h, hframe.request]
  · rw [text_readBack h, hframe.attempt]
  · rw [int_readBack h, hframe.sequence]
  · rw [text_readBack h, hframe.type]
  · have hpayload := hframe.payload
    cases k with
    | started => trivial
    | completed =>
      obtain ⟨htext, husage, htiming⟩ := hpayload
      exact ⟨by rwa [text_readBack h], by rwa [dict_readBack h], by rwa [dict_readBack h]⟩
    | _ => simpa only [PayloadOf, text_readBack h, int_readBack h] using hpayload

/-- What holds of a frame on the pipe. -/
structure Sent (frame : Frame F) : Prop where
  documented : (readBack frame).Documented
  sendable : Sendable (.dict frame.items)

theorem Sent.nodup {frame : Frame F} (h : Sent frame) : (frame.items.map Prod.fst).Nodup :=
  h.sendable.tidy.writable.wellFormed.nodup

theorem eventFields {t : InferenceEventType} (h : k.eventType = some t) :
    Worker.payloadKeys t = payloadFields k := by
  cases k <;> cases h <;> rfl

theorem PayloadFor.sent (h : PayloadFor k payload) (hn : n < 2 ^ 63) :
    Sent (frameOf job k n payload) := by
  have hsendable : Sendable (.dict (frameOf job k n payload).items) := h.frame_sendable hn
  have hnodup := hsendable.tidy.writable.wellFormed.nodup
  refine ⟨fun t ht => ?_, hsendable⟩
  have hframe := isFrame_readBack hnodup h.isFrame
  rw [eventTypeOf_kind hframe.type] at ht
  rw [eventFields ht]
  refine hasKeys_of_mem fun key => ?_
  have hkeys : (frameOf job k n payload).items.map Prod.fst = _ := h.keys
  rw [← hkeys]
  have hperm := (perm_sortKeys ((frameOf job k n payload).items.map fun f => (f.1, f.2.normal))).map
    Prod.fst
  rw [List.map_map] at hperm
  exact hperm.mem_iff

/-- The texts of the `final_delta` frames. -/
def deltasOf (frames : List (Frame F)) : List PyStr :=
  frames.filterMap fun frame =>
    if frame.text "type" = some (py "final_delta") then some ((frame.text "delta").getD [])
    else none

/-- **The invariant of the pipe**: its frames spell a word of the protocol that has come to this
stage, and there is room for more. -/
structure Written (job : Job) (stage : Stage) (room : ℕ) (pipe : Pipe F) : Prop where
  numbered : pipe.sequence = pipe.frames.length
  spells : ∃ kinds, Stage.after .fresh kinds = some stage ∧
    Spells job.requestId job.attemptId pipe.frames kinds
  room : pipe.sequence + room ≤ 2 ^ 63
  sent : ∀ frame ∈ pipe.frames, Sent frame

theorem written_empty (job : Job) {room : ℕ} (hroom : room ≤ 2 ^ 63) :
    Written job .fresh room ({} : Pipe F) :=
  ⟨rfl, ⟨[], rfl, spells_nil⟩, by simpa using hroom, fun _ h => absurd h List.not_mem_nil⟩

theorem Written.mono {stage : Stage} {room room' : ℕ} {pipe : Pipe F}
    (h : Written job stage room pipe) (hle : room' ≤ room) : Written job stage room' pipe :=
  ⟨h.numbered, h.spells, le_trans (Nat.add_le_add_left hle _) h.room, h.sent⟩

/-- One more frame. -/
theorem Written.emit {stage stage' : Stage} {room : ℕ} {pipe : Pipe F}
    (h : Written job stage (room + 1) pipe) (hnext : stage.next k = some stage')
    (hp : PayloadFor k payload) : Written job stage' room (emit job pipe k.name payload) := by
  obtain ⟨kinds, hafter, hspells⟩ := h.spells
  have hroom := h.room
  refine ⟨?_, ⟨kinds ++ [k], ?_, spells_snoc.mpr ⟨hspells, ?_⟩⟩, ?_, ?_⟩
  · show pipe.sequence + 1 = _
    rw [h.numbered]
    exact Eq.symm (by exact List.length_append)
  · rw [Stage.after_append, hafter]
    exact hnext
  · rw [← h.numbered]
    exact hp.isFrame
  · show pipe.sequence + 1 + room ≤ _
    omega
  · intro frame hframe
    rcases List.mem_append.mp hframe with hframe | hframe
    · exact h.sent frame hframe
    · rw [List.mem_singleton.mp hframe]
      exact hp.sent (by omega)

omit [Floats F] in
theorem deltasOf_append (frames later : List (Frame F)) :
    deltasOf (frames ++ later) = deltasOf frames ++ deltasOf later := by
  rw [deltasOf, List.filterMap_append]
  rfl

omit [Floats F] in
theorem deltasOf_emit (hk : k ≠ .finalDelta) (pipe : Pipe F) :
    deltasOf (emit job pipe k.name payload).frames = deltasOf pipe.frames := by
  have htype : (frameOf job k pipe.sequence payload).text "type" = some (py k.name) := rfl
  have hother : ¬ (some (py k.name) : Option PyStr) = some (py "final_delta") := by
    intro heq
    exact hk (FrameKind.name_inj (py_inj.mp (Option.some_inj.mp heq)))
  show deltasOf (pipe.frames ++ [frameOf job k pipe.sequence payload]) = _
  have hnone : deltasOf [frameOf job k pipe.sequence payload] = [] := by
    rw [deltasOf, List.filterMap_cons, htype, if_neg hother]
    rfl
  rw [deltasOf_append, hnone, List.append_nil]

omit [Floats F] in
theorem deltasOf_emit_delta (delta : PyStr) (pipe : Pipe F) :
    deltasOf (emit job pipe "final_delta" [(py "delta", .str delta)]).frames
      = deltasOf pipe.frames ++ [delta] := by
  show deltasOf (pipe.frames ++ [frameOf job .finalDelta pipe.sequence _]) = _
  rw [deltasOf_append]
  rfl

/-! ### The controller -/

/-- What a token does to the phase of a controller. -/
inductive Moved (c : PhaseController) : PhaseController × ControllerResult → Prop where
  | failed {c' : PhaseController} {message : PyStr} (clean : Clean message) :
      Moved c (c', ⟨.failed, message⟩)
  | completed {c' : PhaseController} {message : PyStr} (before : c.phase = .final)
      (after : c'.phase = .done) : Moved c (c', ⟨.completed, message⟩)
  | activated {c' : PhaseController} {message : PyStr} (before : c.phase ≠ .final)
      (after : c'.phase = .final) : Moved c (c', ⟨.activateFinalGrammar, message⟩)
  | stays {c' : PhaseController} {action : ControllerAction} {message : PyStr}
      (quiet : action = .none ∨ action = .reasoningStarted)
      (same : c'.phase = .final ↔ c.phase = .final) : Moved c (c', ⟨action, message⟩)

theorem moved_advance {c c' : PhaseController} (hphase : c'.phase = c.phase)
    (eog accepting : Bool) : Moved c (c'.advance eog accepting) := by
  have hstay : Moved c (c', ⟨.none, []⟩) := .stays (.inl rfl) (by rw [hphase])
  unfold PhaseController.advance
  by_cases heog : eog = true
  · rw [if_pos heog]
    split_ifs with hfinal haccepting
    · exact .failed (by decide)
    · exact .completed (by rw [← hphase]; exact not_not.mp hfinal) rfl
    · exact .failed (by decide)
  · rw [if_neg heog]
    dsimp only
    split
    · next hp =>
      split_ifs
      · exact .failed (by decide)
      · exact .stays (.inr rfl) (by rw [← hphase, hp]; simp)
      · exact hstay
    · next hp =>
      split_ifs
      · exact .failed (by decide)
      · exact .activated (by rw [← hphase, hp]; simp) rfl
      · exact hstay
    · split_ifs
      · exact .failed (by decide)
      · exact hstay
    · exact hstay

theorem count_phase (c : PhaseController) (eog : Bool) : (c.count eog).1.phase = c.phase ∧
    ∀ reason, (c.count eog).2 = some reason → Clean (py reason) := by
  have hreason {reason : String} (hclean : Clean (py reason)) :
      ∀ r, some reason = some r → Clean (py r) := fun r hr => Option.some_inj.mp hr ▸ hclean
  unfold PhaseController.count
  dsimp only
  split_ifs
  · exact ⟨rfl, hreason (by decide)⟩
  · exact ⟨rfl, hreason (by decide)⟩
  · exact ⟨rfl, fun r hr => hr.elim⟩
  · exact ⟨rfl, fun r hr => hr.elim⟩
  · exact ⟨rfl, hreason (by decide)⟩
  · exact ⟨rfl, fun r hr => hr.elim⟩

theorem moved_consume (c : PhaseController) (token : Token) (eog accepting : Bool) :
    Moved c (c.consume token eog accepting) := by
  obtain ⟨hphase, hreason⟩ := count_phase c eog
  unfold PhaseController.consume
  split_ifs
  · exact .failed (by decide)
  rcases hcount : c.count eog with ⟨c', _ | reason⟩
  · rw [hcount] at hphase
    have hremember : (c'.remember token).phase = c.phase := hphase
    exact moved_advance hremember eog accepting
  · rw [hcount] at hreason
    exact .failed (hreason reason rfl)

/-! ### The prompt -/

theorem decodePrompt_written (model : Model) (job : Job) (outside : Outside F) {size : ℕ}
    (hsize : size < 2 ^ 63) {room : ℕ} : ∀ (passes chunk offset : ℕ) (pipe : Pipe F),
    Written job .running (room + passes) pipe →
    ∃ pipe' r, decodePrompt model job outside size passes chunk offset pipe = (pipe', r) ∧
      Written job .running room pipe' ∧ deltasOf pipe'.frames = deltasOf pipe.frames ∧
      ∀ message, r = .error message → Clean message := by
  intro passes
  induction passes with
  | zero => exact fun chunk offset pipe h => ⟨pipe, _, rfl, h, rfl, fun m hm => by cases hm⟩
  | succ passes ih =>
    intro chunk offset pipe h
    have hstop : Written job .running room pipe := h.mono (by omega)
    unfold decodePrompt
    by_cases hend : size ≤ offset
    · rw [if_pos hend]
      exact ⟨pipe, _, rfl, hstop, rfl, fun m hm => by cases hm⟩
    rw [if_neg hend]
    by_cases hcancel : outside.chunkCancelled chunk = true
    · rw [if_pos hcancel]
      exact ⟨pipe, _, rfl, hstop, rfl, fun m hm => by cases hm; decide⟩
    rw [if_neg hcancel]
    by_cases hdecoded : ¬ outside.chunkDecoded chunk = true
    · rw [if_pos hdecoded]
      exact ⟨pipe, _, rfl, hstop, rfl, fun m hm => by cases hm; decide⟩
    rw [if_neg hdecoded]
    have hpayload : PayloadFor (F := F) .progress
        [(py "phase", .str (py "prompt_decode")),
          (py "tokens", .int (offset + min model.batch (size - offset) : ℕ))] :=
      .progress (by decide) (by omega)
    have hnext : Written job .running (room + passes) _ := h.emit (k := .progress) rfl hpayload
    obtain ⟨pipe', r, heq, hwritten, hdeltas, hclean⟩ :=
      ih (chunk + 1) (offset + model.batch) _ hnext
    refine ⟨pipe', r, heq, hwritten, hdeltas.trans ?_, hclean⟩
    exact deltasOf_emit (k := .progress) (by decide) pipe

/-! ### The sampling loop -/

/-- The deltas spell the bytes of the final phase, but for those of an unfinished character. -/
structure Spelled (s : Sampling F) : Prop where
  utf8 : s.utf8.Holds
  text : Clean (deltasOf s.pipe.frames).flatten ∧ s.finalBytes =
    (deltasOf s.pipe.frames).flatten.flatMap CodePoint.utf8Bytes ++ s.utf8.pending

omit [Floats F] in
theorem Spelled.of_pipe {s s' : Sampling F} (h : Spelled s) (hutf8 : s'.utf8 = s.utf8)
    (hbytes : s'.finalBytes = s.finalBytes)
    (hdeltas : deltasOf s'.pipe.frames = deltasOf s.pipe.frames) : Spelled s' :=
  ⟨hutf8 ▸ h.utf8, by rw [hdeltas, hbytes, hutf8]; exact h.text⟩

theorem textOf_text {text : PyStr} (h : Clean text) :
    textOf (text.flatMap CodePoint.utf8Bytes) = text := by
  rw [textOf, scanUtf8_text h le_rfl, List.map_map]
  exact List.map_id text

/-- The stage of the frames in a phase. -/
def stageOf (phase : Phase) : Stage := if phase = .final then .answering else .running

theorem stageOf_or (phase : Phase) : stageOf phase = .running ∨ stageOf phase = .answering := by
  unfold stageOf
  split_ifs
  · exact .inr rfl
  · exact .inl rfl

/-- **The invariant of the loop**, with so many passes left. -/
structure Live (job : Job) (left : ℕ) (s : Sampling F) : Prop where
  isOpen : s.phase.Open
  budget : s.phase.totalBudget = job.totalTokens
  sampled : s.phase.sampled + left = job.totalTokens
  counted : s.phase.reasoning + s.phase.final ≤ s.phase.sampled
  written : Written job (stageOf s.phase.phase) (4 * left + 1) s.pipe
  spelled : Spelled s

/-- The bytes of a token: what they complete is one more delta. -/
theorem takePiece_spelled (model : Model) {s s' : Sampling F} {token : Token} {room : ℕ}
    (hwritten : Written job .answering (room + 1) s.pipe) (hspelled : Spelled s)
    (h : takePiece model job s token = .ok s') :
    s'.phase = s.phase ∧ s'.finalGrammar = s.finalGrammar ∧ s'.lastHeartbeat = s.lastHeartbeat ∧
      Written job .answering room s'.pipe ∧ Spelled s' := by
  unfold takePiece at h
  dsimp only at h
  obtain ⟨htext, hbytes⟩ := hspelled.text
  rcases Utf8Accumulator.append_cases hspelled.utf8 (model.piece token) with
    ⟨hnone, -⟩ | ⟨done, hsome, hholds, ⟨text, hclean, hdone⟩, hsplit⟩
  · rcases happend : s.utf8.append (model.piece token) with ⟨utf8, _ | completed⟩
    · rw [happend] at h
      cases h
    · rw [happend] at hnone
      cases hnone
  · rcases happend : s.utf8.append (model.piece token) with ⟨utf8, _ | completed⟩
    · rw [happend] at hsome
      cases hsome
    · rw [happend] at h hsome hholds hsplit
      obtain rfl := Option.some_inj.mp hsome
      obtain rfl := Except.ok.inj h
      have hall : s.finalBytes ++ model.piece token =
          (deltasOf s.pipe.frames).flatten.flatMap CodePoint.utf8Bytes ++
            (completed ++ utf8.pending) := by
        rw [hbytes, List.append_assoc, hsplit]
      by_cases hempty : completed = []
      · rw [if_pos hempty]
        refine ⟨rfl, rfl, rfl, hwritten.mono (by omega), hholds, htext, ?_⟩
        show s.finalBytes ++ model.piece token = _
        rw [hall, hempty, List.nil_append]
      · rw [if_neg hempty]
        have hread : textOf completed = text := by
          rw [hdone]
          exact textOf_text hclean
        have hne : textOf completed ≠ [] := by
          intro hnil
          rw [hread] at hnil
          rw [hdone, hnil] at hempty
          exact hempty rfl
        have hpayload : PayloadFor (F := F) .finalDelta [(py "delta", .str (textOf completed))] :=
          .finalDelta hne (hread ▸ hclean)
        refine ⟨rfl, rfl, rfl, hwritten.emit (k := .finalDelta) rfl hpayload, hholds, ?_⟩
        show Clean (deltasOf (emit job s.pipe "final_delta" _).frames).flatten ∧ _ =
          (deltasOf (emit job s.pipe "final_delta" _).frames).flatten.flatMap _ ++ _
        rw [deltasOf_emit_delta, List.flatten_append, List.flatten_singleton, hread]
        refine ⟨htext.append hclean, ?_⟩
        show s.finalBytes ++ model.piece token = _
        rw [hall, List.flatMap_append, ← hdone, List.append_assoc]

omit [Floats F] in
theorem takePiece_error (model : Model) {s : Sampling F} {token : Token} {message : PyStr}
    (h : takePiece model job s token = .error message) : Clean message := by
  unfold takePiece at h
  dsimp only at h
  rcases happend : s.utf8.append (model.piece token) with ⟨utf8, _ | completed⟩
  · rw [happend] at h
    cases h
    decide
  · rw [happend] at h
    cases h

/-- How a pass may end. -/
inductive PassEnd (job : Job) (left : ℕ) : Passed F → Prop where
  | next {s : Sampling F} (live : Live job left s) : PassEnd job left (.next s)
  | completed {s : Sampling F} (sampled : s.phase.sampled ≤ job.totalTokens)
      (counted : s.phase.reasoning + s.phase.final ≤ s.phase.sampled)
      (written : Written job .answering 1 s.pipe) (spelled : Spelled s) :
      PassEnd job left (.completed s)
  | thrown {pipe : Pipe F} {message : PyStr} {stage : Stage}
      (begun : stage = .running ∨ stage = .answering) (written : Written job stage 1 pipe)
      (clean : Clean message) : PassEnd job left (.thrown pipe message)

/-- The reports at the end of a pass. -/
theorem reportPass_written {s : Sampling F} {stage : Stage} {room : ℕ} {before : Phase} {now : ℚ}
    (hstage : stage = .running ∨ stage = .answering) (hsampled : s.phase.sampled < 2 ^ 63)
    (h : Written job stage (room + 2) s.pipe) (hspelled : Spelled s) :
    (reportPass job s before now).phase = s.phase ∧
      Written job stage room (reportPass job s before now).pipe ∧
      Spelled (reportPass job s before now) := by
  have hprogress : stage.next .progress = some stage := by
    rcases hstage with rfl | rfl <;> rfl
  have hheartbeat : stage.next .heartbeat = some stage := by
    rcases hstage with rfl | rfl <;> rfl
  have hknown : (if before = .final then "final" else "reasoning") ∈ progressPhases := by
    split_ifs <;> decide
  unfold reportPass
  dsimp only
  -- the progress, if any
  obtain ⟨s₁, heq, hphase, hbeat, hwritten₁, hspelled₁⟩ : ∃ s₁, s₁ =
      (if s.phase.sampled % 16 = 0 then
        { s with
          pipe := emit job s.pipe "progress"
            [(py "phase", .str (py (if before = .final then "final" else "reasoning"))),
              (py "tokens", .int s.phase.sampled)] }
      else s) ∧ s₁.phase = s.phase ∧ s₁.lastHeartbeat = s.lastHeartbeat ∧
      Written job stage (room + 1) s₁.pipe ∧ Spelled s₁ := by
    refine ⟨_, rfl, ?_⟩
    by_cases hsixteen : s.phase.sampled % 16 = 0
    · rw [if_pos hsixteen]
      exact ⟨rfl, rfl, h.emit (k := .progress) hprogress (.progress hknown hsampled),
        hspelled.of_pipe rfl rfl (deltasOf_emit (k := .progress) (by decide) s.pipe)⟩
    · rw [if_neg hsixteen]
      exact ⟨rfl, rfl, h.mono (by omega), hspelled⟩
  rw [← heq]
  split_ifs
  · exact ⟨hphase, hwritten₁.emit (k := .heartbeat) hheartbeat (.heartbeat (hphase ▸ hsampled)),
      hspelled₁.of_pipe rfl rfl (deltasOf_emit (k := .heartbeat) (by decide) s₁.pipe)⟩
  · exact ⟨hphase, hwritten₁.mono (by omega), hspelled₁⟩

/-- What a pass makes of the action of the controller. -/
theorem actOn_live {s : Sampling F} {c : PhaseController} {eog : Bool} {result : ControllerResult}
    {left : ℕ} {now : ℚ} (hmoved : Moved c (s.phase, result))
    (hconsumed : PhaseController.Consumed c eog (s.phase, result))
    (hbudget : c.totalBudget = job.totalTokens)
    (hsampled : c.sampled + (left + 1) = job.totalTokens)
    (hcounted : c.reasoning + c.final ≤ c.sampled)
    (htotal : job.totalTokens < 2 ^ 63)
    (hwritten : Written job (stageOf c.phase) (4 * left + 1 + 3) s.pipe) (hspelled : Spelled s) :
    PassEnd job left (actOn job s c.phase result now) := by
  have hcount : s.phase.sampled = c.sampled + 1 := hconsumed.sampled
  have hsum : s.phase.reasoning + s.phase.final ≤ s.phase.sampled := by
    have hreasoning : s.phase.reasoning = _ := hconsumed.reasoning
    have hfinal : s.phase.final = _ := hconsumed.final
    rw [hreasoning, hfinal, hcount]
    by_cases hphase : c.phase = .final
    · rw [if_pos hphase]
      split_ifs <;> omega
    · rw [if_neg hphase, if_neg fun h => hphase h.1]
      omega
  have hlive {s' : Sampling F} (hsame : s'.phase = s.phase)
      (hquiet : result.action ≠ .failed ∧ result.action ≠ .completed)
      (hpipe : Written job (stageOf s'.phase.phase) (4 * left + 1) s'.pipe) (htext : Spelled s') :
      Live job left s' := by
    refine ⟨?_, ?_, ?_, ?_, hpipe, htext⟩
    · rw [hsame]
      exact hconsumed.open_of hquiet.1 hquiet.2
    · rw [hsame]
      exact hconsumed.totalBudget.trans hbudget
    · rw [hsame, hcount]
      omega
    · rw [hsame]
      exact hsum
  have hsmall : s.phase.sampled < 2 ^ 63 := by omega
  rcases result with ⟨action, message⟩
  unfold actOn
  dsimp only
  cases hmoved with
  | failed hclean =>
    exact .thrown (stageOf_or c.phase) (hwritten.mono (by omega))
      (Clean.append (by decide) hclean)
  | completed hbefore hafter =>
    have hstage : stageOf c.phase = .answering := if_pos hbefore
    simp only [reduceCtorEq, ↓reduceIte]
    exact .completed (by omega) hsum (hstage ▸ hwritten.mono (by omega)) hspelled
  | activated hbefore hafter =>
    have hstage : stageOf c.phase = .running := if_neg hbefore
    rw [hstage] at hwritten
    -- the frame that announces the final phase
    have hphase : Written job .answering (4 * left + 1 + 2)
        (emit job s.pipe "phase" [(py "phase", .str (py "final"))]) :=
      hwritten.emit (k := .phase) rfl .phase
    let s₁ : Sampling F :=
      { s with
        finalGrammar := true
        pipe := emit job s.pipe "phase" [(py "phase", .str (py "final"))] }
    have htext₁ : Spelled s₁ :=
      hspelled.of_pipe rfl rfl (deltasOf_emit (k := .phase) (by decide) s.pipe)
    obtain ⟨hsame, hreport, htext⟩ : (reportPass job s₁ c.phase now).phase = s₁.phase ∧ _ ∧ _ :=
      reportPass_written (.inr rfl) hsmall hphase htext₁
    rw [if_pos rfl, if_neg (by simp), if_neg (by simp)]
    refine .next (hlive hsame (by simp) ?_ htext)
    rw [hsame]
    show Written job (stageOf s.phase.phase) _ _
    rw [stageOf, if_pos hafter]
    exact hreport
  | stays hquiet hphase =>
    have hkeep : stageOf s.phase.phase = stageOf c.phase := by
      unfold stageOf
      simp only [hphase]
    have hroom : Written job (stageOf c.phase) (4 * left + 1 + 2) s.pipe := hwritten.mono (by omega)
    obtain ⟨hsame, hreport, htext⟩ : (reportPass job s c.phase now).phase = s.phase ∧ _ ∧ _ :=
      reportPass_written (stageOf_or c.phase) hsmall hroom hspelled
    have hnot : action ≠ .activateFinalGrammar ∧ action ≠ .failed ∧ action ≠ .completed := by
      rcases hquiet with rfl | rfl <;> simp
    rw [if_neg hnot.1, if_neg hnot.2.1, if_neg hnot.2.2]
    refine .next (hlive hsame hnot.2 ?_ htext)
    rw [hsame, hkeep]
    exact hreport

/-- **One pass of the loop** keeps the invariant, or ends the job as it should. -/
theorem samplePass_live (model : Model) {s : Sampling F} {left : ℕ} (h : Live job (left + 1) s)
    (htotal : job.totalTokens < 2 ^ 63) (first : Bool) {p : Pass}
    (hclean : ∀ message, p.token = .error message → Clean message) :
    PassEnd job left (samplePass model job s first p) := by
  have hstage := stageOf_or s.phase.phase
  have hstop : Written job (stageOf s.phase.phase) 1 s.pipe := h.written.mono (by omega)
  unfold samplePass
  by_cases hcancel : p.cancelled = true
  · rw [if_pos hcancel]
    exact .thrown hstage hstop (by decide)
  rw [if_neg hcancel]
  by_cases hdecoded : ¬ first = true ∧ ¬ p.decoded = true
  · rw [if_pos hdecoded]
    exact .thrown hstage hstop (by decide)
  rw [if_neg hdecoded]
  rcases htoken : p.token with message | token
  · exact .thrown hstage hstop (hclean message htoken)
  dsimp only
  have hsampled := h.sampled
  have hbudget : s.phase.sampled < s.phase.totalBudget := by
    rw [h.budget]
    omega
  have hmoved := moved_consume s.phase token (model.isEog token)
    (grammarAcceptanceProven (model.isEog token) s.finalGrammar)
  have hconsumed := PhaseController.consume_spec h.isOpen hbudget token (model.isEog token)
    (grammarAcceptanceProven (model.isEog token) s.finalGrammar)
  rcases hresult : s.phase.consume token (model.isEog token)
    (grammarAcceptanceProven (model.isEog token) s.finalGrammar) with ⟨phase, result⟩
  rw [hresult] at hmoved hconsumed
  dsimp only
  have hspelled : Spelled { s with phase := phase } := h.spelled.of_pipe rfl rfl rfl
  have hwritten : Written job (stageOf s.phase.phase) (4 * left + 1 + 4) s.pipe :=
    h.written.mono (by omega)
  by_cases hfinal : s.phase.phase = .final ∧ ¬ model.isEog token = true
  · rw [if_pos hfinal]
    have hanswering : stageOf s.phase.phase = .answering := if_pos hfinal.1
    rcases hpiece : takePiece model job { s with phase := phase } token with message | s'
    · exact .thrown hstage hstop (takePiece_error model hpiece)
    · dsimp only
      have hroom : Written job .answering (4 * left + 1 + 3 + 1)
          ({ s with phase := phase } : Sampling F).pipe := hanswering ▸ hwritten
      obtain ⟨hphase, -, -, hpipe, htext⟩ := takePiece_spelled model hroom hspelled hpiece
      obtain rfl : phase = s'.phase := hphase.symm
      exact actOn_live hmoved hconsumed h.budget hsampled h.counted htotal
        (hanswering.symm ▸ hpipe) htext
  · rw [if_neg hfinal]
    exact actOn_live hmoved hconsumed h.budget hsampled h.counted htotal
      (hwritten.mono (by omega)) hspelled

/-- How the loop may end. -/
inductive LoopEnd (job : Job) : Pipe F × Except PyStr (Sampling F) → Prop where
  | sampled {s : Sampling F} {stage : Stage} (sampled : s.phase.sampled ≤ job.totalTokens)
      (counted : s.phase.reasoning + s.phase.final ≤ s.phase.sampled)
      (begun : stage = .running ∧ s.phase.phase ≠ .done ∨ stage = .answering)
      (written : Written job stage 1 s.pipe) (spelled : Spelled s) : LoopEnd job (s.pipe, .ok s)
  | thrown {pipe : Pipe F} {message : PyStr} {stage : Stage}
      (begun : stage = .running ∨ stage = .answering) (written : Written job stage 1 pipe)
      (clean : Clean message) : LoopEnd job (pipe, .error message)

/-- **The whole loop.** -/
theorem sampleLoop_live (model : Model) {passes : ℕ → Pass} (htotal : job.totalTokens < 2 ^ 63)
    (hclean : ∀ k message, (passes k).token = .error message → Clean message) :
    ∀ (left k : ℕ) (s : Sampling F), Live job left s →
      LoopEnd job (sampleLoop model job passes left k s) := by
  intro left
  induction left with
  | zero =>
    intro k s h
    have hsampled := h.sampled
    rcases stageOf_or s.phase.phase with hstage | hstage
    · exact .sampled (by omega) h.counted (.inl ⟨rfl, h.isOpen.1⟩) (hstage ▸ h.written) h.spelled
    · exact .sampled (by omega) h.counted (.inr rfl) (hstage ▸ h.written) h.spelled
  | succ left ih =>
    intro k s h
    have hpass := samplePass_live model h htotal (k = 0) (hclean k)
    unfold sampleLoop
    rcases hend : samplePass model job s (k = 0) (passes k) with s' | s' | ⟨pipe, message⟩
    · rw [hend] at hpass
      cases hpass with
      | next hlive => exact ih (k + 1) s' hlive
    · rw [hend] at hpass
      cases hpass with
      | completed hsampled hcounted hwritten hspelled =>
        exact .sampled hsampled hcounted (.inr rfl) hwritten hspelled
    · rw [hend] at hpass
      cases hpass with
      | thrown hbegun hwritten hthrown => exact .thrown hbegun hwritten hthrown

/-! ### The job -/

/-- How `generate` may end. -/
inductive GenerateEnd (job : Job) : Pipe F × Except PyStr (List (PyStr × Value F)) → Prop where
  | returned {pipe : Pipe F} {usage timing : List (PyStr × Value F)}
      (written : Written job .answering 1 pipe) (clean : Clean (deltasOf pipe.frames).flatten)
      (usage_sendable : Sendable (.dict usage)) (timing_sendable : Sendable (.dict timing)) :
      GenerateEnd job (pipe, .ok
        [(py "final_text", .str (deltasOf pipe.frames).flatten), (py "usage", .dict usage),
          (py "timing", .dict timing)])
  | raised {pipe : Pipe F} {message : PyStr} {stage : Stage}
      (begun : stage = .running ∨ stage = .answering) (written : Written job stage 1 pipe)
      (clean : Clean message) : GenerateEnd job (pipe, .error message)

theorem generateReply_end (model : Model) {outside : Outside F} {promptTokens : ℕ}
    (hprompt : promptTokens < 2 ^ 63) (htotal : job.totalTokens < 2 ^ 63) {pipe : Pipe F}
    (h : Written job .running (4 * job.totalTokens + 1) pipe)
    (hdeltas : deltasOf pipe.frames = []) :
    GenerateEnd job (generateReply model job outside promptTokens pipe) := by
  have hstop : Written job .running 1 pipe := h.mono (by omega)
  unfold generateReply
  rcases hmake : PhaseController.make model.startMarker model.endMarker job.reasoningTokens
    job.finalTokens job.totalTokens with message | phase
  · refine .raised (.inl rfl) hstop ?_
    unfold PhaseController.make at hmake
    split_ifs at hmake
    · obtain rfl := Except.error.inj hmake
      decide
    · obtain rfl := Except.error.inj hmake
      decide
  dsimp only
  rcases hsamplers : outside.samplers with message | _
  · exact .raised (.inl rfl) hstop (outside.clean message (.inr (.inr (.inl hsamplers))))
  dsimp only
  have hlive : Live job job.totalTokens
      ({ phase := phase, lastHeartbeat := outside.startedAt, pipe := pipe } : Sampling F) := by
    unfold PhaseController.make at hmake
    split_ifs at hmake
    obtain rfl := Except.ok.inj hmake
    refine ⟨⟨by simp, by simp⟩, rfl, Nat.zero_add _, Nat.le_refl 0, h, Utf8Accumulator.holds_empty,
      ?_, ?_⟩
    · rw [hdeltas]
      exact fun c hc => absurd hc List.not_mem_nil
    · rw [hdeltas]
      rfl
  have htokens : ∀ k message, (outside.passes k).token = .error message → Clean message :=
    fun k message hk => outside.clean message (.inr (.inr (.inr ⟨k, hk⟩)))
  have hloop := sampleLoop_live model htotal htokens job.totalTokens 0 _ hlive
  rcases hresult : sampleLoop model job outside.passes job.totalTokens 0
    ({ phase := phase, lastHeartbeat := outside.startedAt, pipe := pipe } : Sampling F)
    with ⟨pipe', message | s⟩
  · rw [hresult] at hloop
    cases hloop with
    | thrown hbegun hwritten hclean => exact .raised hbegun hwritten hclean
  rw [hresult] at hloop
  cases hloop with
  | sampled hsampled hcounted hbegun hwritten hspelled =>
    have hincomplete : Clean (py "protocol_violation:incomplete_final") := by decide
    dsimp only
    by_cases hfinished : s.phase.phase ≠ .done ∨ s.utf8.finish = false
    · rw [if_pos hfinished]
      exact .raised (hbegun.imp_left And.left) hwritten hincomplete
    · rw [if_neg hfinished]
      rw [not_or, not_not, Bool.not_eq_false] at hfinished
      obtain ⟨hdone, hfinish⟩ := hfinished
      rcases hbegun with ⟨-, hnot⟩ | rfl
      · exact absurd hdone hnot
      rw [Utf8Accumulator.finish, Bool.and_eq_true, List.isEmpty_iff] at hfinish
      obtain ⟨hclean, hbytes⟩ := hspelled.text
      -- no character is left unfinished, so the bytes are those of the deltas
      rw [hfinish.2, List.append_nil] at hbytes
      rw [resultOf, hbytes, textOf_text hclean]
      have hlimit := model.limit_lt
      refine .returned hwritten hclean (sendable_dict ?_ ?_ ?_) (sendable_dict ?_ ?_ ?_)
      · show (List.map py ["prompt_tokens", "reasoning_tokens", "final_tokens", "sampled_tokens",
          "context_limit", "context_headroom"]).Nodup
        decide
      · show ∀ k ∈ List.map py ["prompt_tokens", "reasoning_tokens", "final_tokens",
          "sampled_tokens", "context_limit", "context_headroom"], Clean k
        decide
      · simp only [List.forall_mem_cons]
        exact ⟨sendable_nat hprompt, sendable_nat (by omega), sendable_nat (by omega),
          sendable_nat (by omega), sendable_nat (by omega), sendable_nat (by omega),
          fun f hf => absurd hf List.not_mem_nil⟩
      · show (List.map py ["prompt_decode_ms", "generation_ms"]).Nodup
        decide
      · show ∀ k ∈ List.map py ["prompt_decode_ms", "generation_ms"], Clean k
        decide
      · simp only [List.forall_mem_cons]
        exact ⟨sendable_float outside.prompt_finite, sendable_float outside.generation_finite,
          fun f hf => absurd hf List.not_mem_nil⟩

theorem generate_end (model : Model) (outside : Outside F) {pipe : Pipe F}
    (hroom : ∀ size, size + job.totalTokens + 8 ≤ model.contextLimit →
      Written job .running (4 * job.totalTokens + 1 + size) pipe)
    (hstop : Written job .running 1 pipe) (hdeltas : deltasOf pipe.frames = []) :
    GenerateEnd job (generate model job outside pipe) := by
  have hlimit := model.limit_lt
  unfold generate
  rcases hprompt : outside.prompt with message | prompt
  · exact .raised (.inl rfl) hstop (outside.clean message (.inl hprompt))
  dsimp only
  by_cases hover : model.contextLimit < prompt.length + job.totalTokens + 8
  · rw [if_pos hover]
    exact .raised (.inl rfl) hstop (by decide)
  rw [if_neg hover]
  rcases hcontext : outside.context with message | _
  · exact .raised (.inl rfl) hstop (outside.clean message (.inr (.inl hcontext)))
  dsimp only
  obtain ⟨pipe', r, hdecode, hwritten, hsame, hclean⟩ := decodePrompt_written model job outside
    (show prompt.length < 2 ^ 63 by omega) prompt.length 0 0 pipe (hroom prompt.length (by omega))
  rw [hdecode]
  cases r with
  | error message => exact .raised (.inl rfl) (hwritten.mono (by omega)) (hclean message rfl)
  | ok _ =>
    exact generateReply_end model (by omega) (by omega) hwritten (hsame.trans hdeltas)

/-- The last frame of a job. -/
inductive Served (job : Job) : Pipe F → Prop where
  | completed {pipe : Pipe F} {usage timing : List (PyStr × Value F)}
      (written : Written job .answering 1 pipe) (clean : Clean (deltasOf pipe.frames).flatten)
      (usage_sendable : Sendable (.dict usage)) (timing_sendable : Sendable (.dict timing)) :
      Served job (emit job pipe "completed"
        [(py "final_text", .str (deltasOf pipe.frames).flatten), (py "usage", .dict usage),
          (py "timing", .dict timing)])
  | failed {pipe : Pipe F} {message : PyStr} {stage : Stage}
      (begun : stage = .running ∨ stage = .answering) (written : Written job stage 1 pipe)
      (clean : Clean message) :
      Served job (emit job pipe "failed"
        [(py "error", .str (py (failureCode message))), (py "detail", .str message)])

theorem serve_served (model : Model) (job : Job) (outside : Outside F) :
    Served job (serve model job outside) := by
  have hlimit := model.limit_lt
  have hstart {room : ℕ} (hsmall : room + 1 ≤ 2 ^ 63) :
      Written job .running room (emit job ({} : Pipe F) "started" []) :=
    (written_empty job hsmall).emit (k := .started) rfl .started
  have hend : GenerateEnd job (generate model job outside (emit job ({} : Pipe F) "started" [])) :=
    generate_end model outside (fun size hsize => hstart (by omega)) (hstart (by omega)) rfl
  unfold serve
  dsimp only
  rcases hresult : generate model job outside (emit job ({} : Pipe F) "started" [])
    with ⟨pipe, message | result⟩
  · rw [hresult] at hend
    cases hend with
    | raised hbegun hwritten hclean => exact .failed hbegun hwritten hclean
  · rw [hresult] at hend
    cases hend with
    | returned hwritten hclean husage htiming => exact .completed hwritten hclean husage htiming

/-! ### The frames as the verifier reads them -/

/-- The writer of the lines: what it writes of a value that can be sent, the strict reader gives
back. -/
structure Dumps (dump : Value F → PyStr) : Prop where
  loads_dump : ∀ v, Sendable v → Worker.loads (.str (dump v)) = .ok v.normal

/-- The line of a frame. -/
def lineOf (dump : Value F → PyStr) (frame : Frame F) : Raw F :=
  .text (.str (dump (.dict frame.items)))

theorem Sent.decode_line {dump : Value F → PyStr} (hdump : Dumps dump) {frame : Frame F}
    (h : Sent frame) : (lineOf dump frame).decode = .ok (.dict (readBack frame).items) := by
  show Worker.loads _ = _
  rw [hdump.loads_dump _ h.sendable, Value.normal_dict]
  rfl

omit [Floats F] in
theorem cleanStrings_normal (v : Value F) : cleanStrings v.normal = cleanStrings v := by
  cases v with
  | dict items =>
    rw [Value.normal_dict, cleanStrings, cleanStrings, (perm_sortKeys _).all_eq, List.all_map]
    rfl
  | _ => simp [cleanStrings]

/-- The writer of `json` is such a writer. -/
theorem dumps_dumps : Dumps (Json.dumps : Value F → PyStr) := by
  refine ⟨fun v h => ?_⟩
  have hclean := h.tidy.clean_dumps
  have htidy {v : Value F} (hv : v.tidy = true) : cleanStrings v = true := by
    cases v with
    | str s =>
      have hs : Clean s := of_decide_eq_true hv
      exact List.all_eq_true.mpr fun c hc => decide_eq_true (hs c hc)
    | dict items =>
      refine List.all_eq_true.mpr fun f hf => ?_
      have hkey : Clean f.1 :=
        of_decide_eq_true (List.all_eq_true.mp (Bool.and_eq_true_iff.mp hv).2 f hf)
      exact List.all_eq_true.mpr fun c hc => decide_eq_true (hkey c hc)
    | _ => rfl
  have hstrings : hasUnpairedSurrogate v.normal = false := by
    rw [hasUnpairedSurrogate, Value.all_normal cleanStrings_normal,
      Value.all_mono (fun _ => htidy) h.tidy]
    rfl
  have hraw : (Data.str (dumps v)).raw = some _ := encodeUtf8_of_clean hclean
  unfold Worker.loads
  rw [hraw]
  simp only [Option.any_none, Bool.false_eq_true, if_false]
  rw [decodeUtf8_text hclean]
  simp only [loads_dumps h.tidy.writable, hstrings, Bool.false_eq_true, if_false]

/-- The verifier looks at a line only through the reader. -/
theorem run_lines {dump : Value F → PyStr} (hdump : Dumps dump) {frames : List (Frame F)} :
    ∀ {v : FrameVerifier}, (∀ frame ∈ frames, Sent frame) →
      v.run (frames.map (lineOf dump)) = v.run ((frames.map readBack).map Raw.object) := by
  induction frames with
  | nil => exact fun _ => rfl
  | cons frame rest ih =>
    intro v hsent
    have hverify : v.verify (lineOf dump frame) = v.verify (.object (readBack frame)) := by
      rw [FrameVerifier.verify, (hsent frame List.mem_cons_self).decode_line hdump]
      rfl
    simp only [List.map_cons]
    rw [FrameVerifier.run_cons, FrameVerifier.run_cons, hverify,
      ih fun f hf => hsent f (List.mem_cons_of_mem _ hf)]

/-- The frames spell the same word when they have been read. -/
theorem Written.isWord {stage : Stage} {room : ℕ} {pipe : Pipe F}
    (h : Written job stage room pipe) :
    IsWord job.requestId job.attemptId (pipe.frames.map readBack) := by
  obtain ⟨kinds, hafter, hspells⟩ := h.spells
  refine ⟨kinds, Stage.mem_frameProtocol.mpr ⟨stage, hafter⟩, ?_, ?_⟩
  · rw [List.length_map, hspells.length]
  · intro i frame k hframe hkind
    rw [List.getElem?_map, Option.map_eq_some_iff] at hframe
    obtain ⟨f, hf, rfl⟩ := hframe
    exact isFrame_readBack (h.sent f (List.mem_of_getElem? hf)).nodup
      (hspells.frames i f k hf hkind)

/-- Until the word has ended, none of its frames is terminal. -/
theorem Written.not_terminal {stage : Stage} {room : ℕ} {pipe : Pipe F}
    (h : Written job stage room pipe) (hstage : stage ≠ .ended) :
    ∀ frame ∈ pipe.frames, ¬ frame.IsTerminal := by
  rintro frame hmem ⟨k, hterminal, htype⟩
  obtain ⟨kinds, hafter, hspells⟩ := h.spells
  obtain ⟨i, hi, hget⟩ := List.mem_iff_getElem.mp hmem
  have hkinds : i < kinds.length := hspells.length ▸ hi
  have hframe := hspells.frames i frame kinds[i] (List.getElem?_eq_some_iff.mpr ⟨hi, hget⟩)
    (List.getElem?_eq_getElem hkinds)
  obtain rfl : kinds[i] = k :=
    FrameKind.name_inj (py_inj.mp (Option.some_inj.mp (hframe.type.symm.trans htype)))
  exact hstage (Stage.after_terminal hterminal hafter (List.getElem_mem hkinds))

theorem clean_failureCode (message : PyStr) : Clean (py (failureCode message)) := by
  unfold failureCode
  split_ifs <;> decide

theorem payloadFor_failure {message : PyStr} (h : Clean message) : PayloadFor (F := F) .failed
    [(py "error", .str (py (failureCode message))), (py "detail", .str message)] :=
  .failed (clean_failureCode message) h

theorem Served.written {pipe : Pipe F} (h : Served job pipe) : Written job .ended 0 pipe := by
  cases h with
  | completed hwritten hclean husage htiming =>
    exact hwritten.emit (k := .completed) rfl (.completed hclean husage htiming)
  | failed hbegun hwritten hclean =>
    rcases hbegun with rfl | rfl
    · exact hwritten.emit (k := .failed) rfl (payloadFor_failure hclean)
    · exact hwritten.emit (k := .failed) rfl (payloadFor_failure hclean)

/-- The last frame ends the job, and no other does. -/
theorem Served.last {pipe : Pipe F} (h : Served job pipe) : ∃ before last,
    pipe.frames = before ++ [last] ∧ last.IsTerminal ∧ ∀ frame ∈ before, ¬ frame.IsTerminal := by
  cases h with
  | completed hwritten _ _ _ =>
    exact ⟨_, _, rfl, ⟨.completed, rfl, rfl⟩, hwritten.not_terminal (by decide)⟩
  | failed hbegun hwritten _ =>
    refine ⟨_, _, rfl, ⟨.failed, rfl, rfl⟩, hwritten.not_terminal ?_⟩
    rcases hbegun with rfl | rfl <;> decide

/-- The deltas of a job that completes are its final text. -/
theorem Served.finalText {pipe : Pipe F} (h : Served job pipe) : ∀ frame ∈ pipe.frames,
    frame.text "type" = some (py "completed") →
      frame.text "final_text" = some (deltasOf pipe.frames).flatten := by
  intro frame hmem htype
  have hterminal : frame.IsTerminal := ⟨.completed, rfl, htype⟩
  cases h with
  | completed hwritten _ _ _ =>
    rcases List.mem_append.mp hmem with hmem | hmem
    · exact absurd hterminal (hwritten.not_terminal (by decide) frame hmem)
    · rw [List.mem_singleton.mp hmem]
      exact congrArg (fun d => some d.flatten) (deltasOf_emit (k := .completed) (by decide) _).symm
  | failed hbegun hwritten _ =>
    rcases List.mem_append.mp hmem with hmem | hmem
    · refine absurd hterminal (hwritten.not_terminal ?_ frame hmem)
      rcases hbegun with rfl | rfl <;> decide
    · rw [List.mem_singleton.mp hmem] at htype
      have hkind : (some (py "failed") : Option PyStr) = some (py "completed") := htype
      exact absurd hkind (by decide)

/-- **What the native worker writes is accepted**: whatever llama.cpp and the control pipe do
during a job, the verifier of its attempt accepts each of its lines, and none is lost; every frame
has the documented fields; the last one ends the job and no other does; and the deltas of a job
that completes are its final text. -/
theorem served_frames_accepted {dump : Value F → PyStr} (hdump : Dumps dump) (model : Model)
    (job : Job) (outside : Outside F) :
    let frames := (serve model job outside).frames
    let read := frames.map readBack
    ((FrameVerifier.start job.requestId job.attemptId).run (frames.map (lineOf dump))).1 = read ∧
      (∀ frame ∈ read, frame.Documented) ∧
      (∃ before last, frames = before ++ [last] ∧ last.IsTerminal ∧
        ∀ frame ∈ before, ¬ frame.IsTerminal) ∧
      ∀ frame ∈ frames, frame.text "type" = some (py "completed") →
        frame.text "final_text" = some (deltasOf frames).flatten := by
  have hserved := serve_served model job outside
  have hwritten := hserved.written
  refine ⟨?_, ?_, hserved.last, hserved.finalText⟩
  · rw [run_lines hdump hwritten.sent]
    exact FrameVerifier.run_of_isWord hwritten.isWord
  · rintro frame hframe
    obtain ⟨f, hf, rfl⟩ := List.mem_map.mp hframe
    exact (hwritten.sent f hf).documented

/-! ### A reply of one character -/

def sampleModel : Model where
  contextLimit := 64
  batch := 4
  startMarker := [1]
  endMarker := [2]
  isEog token := token = 0
  piece token := if token = 3 then [0xC3] else if token = 4 then [0xA9] else []
  batch_pos := Nat.succ_pos 3
  limit_lt := by omega

theorem clean_sampleText : Clean (py "a1") := by decide

def sampleJob : Job where
  requestId := py "a1"
  attemptId := py "a1"
  reasoningTokens := 2
  finalTokens := 3
  totalTokens := 5
  request_clean := clean_sampleText
  attempt_clean := clean_sampleText

/-- The markers, a character in two tokens, and the end. -/
def sampleTokens (k : ℕ) : Token := [1, 2, 3, 4, 0].getD k 0

def sampleOutside : Outside NoFloat where
  prompt := .ok [5, 6, 7, 8, 9]
  context := .ok ()
  chunkCancelled _ := false
  chunkDecoded _ := true
  samplers := .ok ()
  startedAt := 0
  passes k := { token := .ok (sampleTokens k), now := k }
  promptMs := .zero
  generationMs := .zero
  prompt_finite := rfl
  generation_finite := rfl
  clean message h := by simp at h

theorem served_frames_accepted_character :
    let frames := (serve sampleModel sampleJob sampleOutside).frames
    ((FrameVerifier.start (py "a1") (py "a1")).run (frames.map (lineOf Json.dumps))).1
        = frames.map readBack ∧
      ∀ frame ∈ frames, frame.text "type" = some (py "completed") →
        frame.text "final_text" = some (deltasOf frames).flatten := by
  obtain ⟨haccepted, -, -, htext⟩ :=
    served_frames_accepted dumps_dumps sampleModel sampleJob sampleOutside
  exact ⟨haccepted, htext⟩

example : ((serve sampleModel sampleJob sampleOutside).frames.map fun f => f.text "type")
    = ["started", "progress", "progress", "phase", "heartbeat", "heartbeat", "final_delta",
      "heartbeat", "completed"].map fun t => some (py t) := by
  decide +kernel

end ModelWorker
