/-
What the verifier of frames accepts.

* `IsFrame` — a frame of a kind, with the ids, the sequence number and the payload
  that go with it;
* `IsWord` — a list of such frames that spells a word of the protocol;
* `verifyFrame_ok`, `verifyFrame_error` — one frame: it is accepted exactly where
  the stage lets its kind through, and a rejected frame moves nothing;
* `run_tracks` — the flags of the verifier are the stage that its accepted frames
  have led to;
* `frames_accepted` — the accepted frames of every run.
-/
import LlamaRuntime.Worker.FrameLanguage
import LlamaRuntime.Worker.Ipc

namespace Worker

open Json

/-- `frame["type"]` -/
def FrameKind.name : FrameKind → String
  | started => "started"
  | phase => "phase"
  | finalDelta => "final_delta"
  | progress => "progress"
  | heartbeat => "heartbeat"
  | completed => "completed"
  | failed => "failed"

theorem FrameKind.name_inj {k k' : FrameKind} (h : k.name = k'.name) : k = k' := by
  cases k <;> cases k' <;> first | rfl | exact absurd h (by decide)

/-- Every type but `ready` is the name of a kind. -/
theorem mem_frameTypes {s : PyStr} :
    s ∈ frameTypes.map py ↔ s = py "ready" ∨ ∃ k : FrameKind, s = py k.name := by
  constructor
  · intro h
    simp only [frameTypes, List.map_cons, List.map_nil, List.mem_cons, List.not_mem_nil,
      or_false] at h
    rcases h with rfl | rfl | rfl | rfl | rfl | rfl | rfl | rfl
    · exact .inl rfl
    · exact .inr ⟨.started, rfl⟩
    · exact .inr ⟨.phase, rfl⟩
    · exact .inr ⟨.finalDelta, rfl⟩
    · exact .inr ⟨.heartbeat, rfl⟩
    · exact .inr ⟨.progress, rfl⟩
    · exact .inr ⟨.completed, rfl⟩
    · exact .inr ⟨.failed, rfl⟩
  · rintro (rfl | ⟨k, rfl⟩)
    · exact List.mem_map_of_mem (by simp [frameTypes])
    · exact List.mem_map_of_mem (by cases k <;> simp [frameTypes, FrameKind.name])

section

variable {F : Type}

/-- The payload of a frame of a kind. -/
def PayloadOf (frame : Frame F) : FrameKind → Prop
  | .started => True
  | .phase => frame.text "phase" = py "final"
  | .finalDelta => ∃ delta, frame.text "delta" = some delta ∧ delta ≠ []
  | .progress => (∃ phase ∈ progressPhases, frame.text "phase" = py phase) ∧
      ∃ n : ℕ, frame.int "tokens" = some (n : ℤ)
  | .heartbeat => ∃ n : ℕ, frame.int "sampled_tokens" = some (n : ℤ)
  | .completed => (frame.text "final_text").isSome ∧ (frame.dict "usage").isSome ∧
      (frame.dict "timing").isSome
  | .failed => (frame.text "error").isSome ∧ (frame.text "detail").isSome

/-- The `n`-th frame of a request. -/
structure IsFrame (requestId attemptId : PyStr) (n : ℕ) (frame : Frame F) (k : FrameKind) :
    Prop where
  version : frame.text "protocol_version" = py ipcVersion
  request : frame.text "request_id" = requestId
  attempt : frame.text "attempt_id" = attemptId
  sequence : frame.int "sequence" = some (n : ℤ)
  type : frame.text "type" = py k.name
  payload : PayloadOf frame k

theorem IsFrame.kind_unique {requestId attemptId requestId' attemptId' : PyStr} {n n' : ℕ}
    {frame : Frame F} {k k' : FrameKind} (h : IsFrame requestId attemptId n frame k)
    (h' : IsFrame requestId' attemptId' n' frame k') : k = k' :=
  FrameKind.name_inj (py_inj.mp (Option.some_inj.mp (h.type.symm.trans h'.type)))

/-- The frames are of these kinds, and numbered from zero. -/
structure Spells (requestId attemptId : PyStr) (w : List (Frame F)) (kinds : List FrameKind) :
    Prop where
  length : w.length = kinds.length
  frames : ∀ (i : ℕ) (frame : Frame F) (k : FrameKind), w[i]? = some frame →
    kinds[i]? = some k → IsFrame requestId attemptId i frame k

/-- A list of frames of one request in the order of the protocol. -/
def IsWord (requestId attemptId : PyStr) (w : List (Frame F)) : Prop :=
  ∃ kinds, kinds ∈ frameProtocol.matches' ∧ Spells requestId attemptId w kinds

variable {requestId attemptId : PyStr} {w : List (Frame F)} {kinds : List FrameKind}
  {frame : Frame F} {k : FrameKind}

theorem spells_nil : Spells requestId attemptId ([] : List (Frame F)) [] :=
  ⟨rfl, fun i frame k h => absurd h (by simp)⟩

theorem spells_snoc : Spells requestId attemptId (w ++ [frame]) (kinds ++ [k]) ↔
    Spells requestId attemptId w kinds ∧ IsFrame requestId attemptId w.length frame k := by
  constructor
  · intro h
    have hlength : w.length = kinds.length := by simpa using h.length
    refine ⟨⟨hlength, fun i f j hf hj => h.frames i f j ?_ ?_⟩, h.frames w.length frame k ?_ ?_⟩
    · rw [List.getElem?_append_left (List.getElem?_eq_some_iff.mp hf).1]
      exact hf
    · rw [List.getElem?_append_left (List.getElem?_eq_some_iff.mp hj).1]
      exact hj
    · exact List.getElem?_concat_length
    · rw [hlength]
      exact List.getElem?_concat_length
  · rintro ⟨h, hframe⟩
    refine ⟨by simp [h.length], fun i f j hf hj => ?_⟩
    rcases Nat.lt_trichotomy i w.length with hi | rfl | hi
    · rw [List.getElem?_append_left hi] at hf
      rw [List.getElem?_append_left (by rw [← h.length]; exact hi)] at hj
      exact h.frames i f j hf hj
    · rw [List.getElem?_concat_length] at hf
      rw [h.length, List.getElem?_concat_length] at hj
      obtain rfl := Option.some_inj.mp hf
      obtain rfl := Option.some_inj.mp hj
      exact hframe
    · rw [List.getElem?_eq_none (by simp; omega)] at hf
      exact nomatch hf

/-- A word spelled by frames ends with the kind of the last one. -/
theorem Spells.snoc (h : Spells requestId attemptId (w ++ [frame]) kinds) :
    ∃ before k, kinds = before ++ [k] ∧ Spells requestId attemptId w before ∧
      IsFrame requestId attemptId w.length frame k := by
  rcases List.eq_nil_or_concat kinds with rfl | ⟨before, k, rfl⟩
  · exact absurd h.length (by simp)
  · rw [List.concat_eq_append] at h ⊢
    exact ⟨before, k, rfl, spells_snoc.mp h⟩

theorem Spells.kinds_unique {kinds' : List FrameKind} (h : Spells requestId attemptId w kinds)
    (h' : Spells requestId attemptId w kinds') : kinds = kinds' := by
  refine List.ext_getElem (h.length.symm.trans h'.length) fun i hi hi' => ?_
  have hw : i < w.length := by rw [h.length]; exact hi
  exact (h.frames i w[i] _ (List.getElem?_eq_getElem hw) (List.getElem?_eq_getElem hi)).kind_unique
    (h'.frames i w[i] _ (List.getElem?_eq_getElem hw) (List.getElem?_eq_getElem hi'))

/-- A word without its last frame is a word. -/
theorem IsWord.init (h : IsWord requestId attemptId (w ++ [frame])) :
    IsWord requestId attemptId w := by
  obtain ⟨kinds, hmem, hspells⟩ := h
  obtain ⟨before, k, rfl, hbefore, -⟩ := hspells.snoc
  obtain ⟨s, -, hs, -⟩ := Stage.snoc_mem_frameProtocol.mp hmem
  exact ⟨before, Stage.mem_frameProtocol.mpr ⟨s, hs⟩, hbefore⟩

/-! ### One frame -/

namespace FrameVerifier

/-- The stage that the flags stand for. -/
def stage (v : FrameVerifier) : Stage :=
  if v.terminal then .ended
  else if ¬ v.started then .fresh
  else if v.finalPhase then .answering
  else .running

/-- The flags after a frame of a kind. -/
def advance (v : FrameVerifier) : FrameKind → FrameVerifier
  | .started => { v with started := true }
  | .phase => { v with finalPhase := true }
  | .completed | .failed => { v with terminal := true }
  | .finalDelta | .progress | .heartbeat => v

theorem advance_requestId (v : FrameVerifier) (k : FrameKind) :
    (v.advance k).requestId = v.requestId := by cases k <;> rfl

theorem advance_attemptId (v : FrameVerifier) (k : FrameKind) :
    (v.advance k).attemptId = v.attemptId := by cases k <;> rfl

theorem advance_nextSequence (v : FrameVerifier) (k : FrameKind) :
    (v.advance k).nextSequence = v.nextSequence := by cases k <;> rfl

/-- The final phase comes after the start. -/
def Ordered (v : FrameVerifier) : Prop := v.finalPhase = true → v.started = true

theorem stage_advance {v : FrameVerifier} {k : FrameKind} {t : Stage} (hv : v.Ordered)
    (h : v.stage.next k = some t) : (v.advance k).stage = t ∧ (v.advance k).Ordered := by
  obtain ⟨requestId, attemptId, n, started, finalPhase, terminal⟩ := v
  simp only [Ordered] at hv
  cases started <;> cases finalPhase <;> cases terminal <;>
    simp [stage] at h hv <;> cases k <;> simp [Stage.next] at h <;> subst h <;>
    simp [advance, stage, Ordered]

theorem natural_iff {x : Option ℤ} :
    (¬ (x = none ∨ (x.any fun n => n < 0) = true)) ↔ ∃ n : ℕ, x = some (n : ℤ) := by
  cases x with
  | none => simp
  | some z =>
    constructor
    · intro h
      have hz : 0 ≤ z := by simpa using h
      exact ⟨z.toNat, by simp [hz]⟩
    · rintro ⟨n, hn⟩
      obtain rfl := Option.some_inj.mp hn
      simp

theorem isPhase_iff {isPhase : Bool} (h : memberOf (frame.get "phase") progressPhases = .ok isPhase) :
    isPhase = true ↔ ∃ phase ∈ progressPhases, frame.text "phase" = py phase := by
  rw [memberOf_ok h]
  constructor
  · rintro ⟨s, hs, hmem⟩
    obtain ⟨phase, hphase, rfl⟩ := List.mem_map.mp hmem
    exact ⟨phase, hphase, hs⟩
  · rintro ⟨phase, hphase, hs⟩
    exact ⟨py phase, hs, List.mem_map_of_mem hphase⟩

/-- What the flags are where a kind may come. -/
theorem flags_of_next {v : FrameVerifier} {k : FrameKind} {t : Stage}
    (h : v.stage.next k = some t) :
    v.terminal = false ∧ v.started = decide (k ≠ .started) ∧
      (k = .phase → v.finalPhase = false) ∧
      (k = .finalDelta ∨ k = .completed → v.finalPhase = true) := by
  obtain ⟨requestId, attemptId, n, started, finalPhase, terminal⟩ := v
  cases terminal <;> cases started <;> cases finalPhase <;> cases k <;>
    simp [stage, Stage.next] at h ⊢

/-- A kind may come where the flags are so. -/
theorem next_of_flags {v : FrameVerifier} {k : FrameKind} (hterminal : v.terminal = false)
    (hstarted : v.started = decide (k ≠ .started)) (hphase : k = .phase → v.finalPhase = false)
    (hfinal : k = .finalDelta ∨ k = .completed → v.finalPhase = true) :
    ∃ t, v.stage.next k = some t := by
  obtain ⟨requestId, attemptId, n, started, finalPhase, terminal⟩ := v
  dsimp only at hterminal hstarted hphase hfinal
  subst hterminal hstarted
  cases k <;> cases finalPhase <;> simp [stage, Stage.next] at hphase hfinal ⊢

theorem refuseIf_pos {v moved : FrameVerifier} {refused : Prop} [Decidable refused]
    {message : String} (h : refused) :
    v.refuseIf refused message moved = (.error (crashed message), v) := if_pos h

theorem refuseIf_neg {v moved : FrameVerifier} {refused : Prop} [Decidable refused]
    {message : String} (h : ¬ refused) : v.refuseIf refused message moved = (.ok (), moved) :=
  if_neg h

theorem of_refuseIf_ok {v moved : FrameVerifier} {refused : Prop} [Decidable refused]
    {message : String} (h : (v.refuseIf refused message moved).1 = .ok ()) : ¬ refused := by
  intro hrefused
  rw [refuseIf_pos hrefused] at h
  exact nomatch h

theorem refuseIf_error {v moved : FrameVerifier} {refused : Prop} [Decidable refused]
    {message : String} {e : Raised} (h : (v.refuseIf refused message moved).1 = .error e) :
    e = crashed message ∧ (v.refuseIf refused message moved).2 = v := by
  by_cases hrefused : refused
  · rw [refuseIf_pos hrefused] at h ⊢
    exact ⟨(Except.error.inj h).symm, rfl⟩
  · rw [refuseIf_neg hrefused] at h
    exact nomatch h

theorem name_ne_ready (k : FrameKind) : (some (py k.name) : Option PyStr) ≠ some (py "ready") := by
  cases k <;> simp [FrameKind.name]

/-- A frame of a kind that the stage lets through is accepted. -/
theorem verifyRequestFrame_accepts {v : FrameVerifier} {t : Stage}
    (htype : frame.text "type" = py k.name) (hpayload : PayloadOf frame k)
    (hnext : v.stage.next k = some t) : v.verifyRequestFrame frame = (.ok (), v.advance k) := by
  obtain ⟨hterminal, hstarted, hphase, hfinal⟩ := flags_of_next hnext
  unfold verifyRequestFrame
  rw [htype, if_neg (name_ne_ready k), if_neg (by simp [hterminal])]
  by_cases hk : k = .started
  · subst hk
    rw [if_pos (by simp [hstarted]), refuseIf_neg (by simp [FrameKind.name])]
    rfl
  rw [if_neg (by simp [hstarted, hk])]
  unfold verifyStartedFrame
  rw [htype]
  cases k with
  | started => exact absurd rfl hk
  | phase =>
    have hname : frame.text "phase" = py "final" := hpayload
    simp [FrameKind.name, advance, refuseIf, hphase, hname]
  | finalDelta =>
    obtain ⟨delta, hdelta, hne⟩ := hpayload
    simp [FrameKind.name, advance, refuseIf, hfinal, hdelta, hne]
  | progress =>
    obtain ⟨⟨phase, hmem, hname⟩, tokens, htokens⟩ := hpayload
    have hin : py phase ∈ progressPhases.map py := List.mem_map_of_mem hmem
    simp [FrameKind.name, advance, refuseIf, memberOf_text hname, hin, htokens]
  | heartbeat =>
    obtain ⟨tokens, htokens⟩ := hpayload
    simp [FrameKind.name, advance, refuseIf, htokens]
  | completed =>
    obtain ⟨htext, husage, htiming⟩ := hpayload
    simp [FrameKind.name, advance, refuseIf, hfinal, Option.isSome_iff_ne_none.mp htext,
      Option.isSome_iff_ne_none.mp husage, Option.isSome_iff_ne_none.mp htiming]
  | failed =>
    obtain ⟨herror, hdetail⟩ := hpayload
    simp [FrameKind.name, advance, refuseIf, Option.isSome_iff_ne_none.mp herror,
      Option.isSome_iff_ne_none.mp hdetail]

/-- An accepted frame of a started request has the payload of its kind, and comes
in its phase. -/
theorem of_verifyStartedFrame_ok {v : FrameVerifier} (htype : frame.text "type" = py k.name)
    (h : (v.verifyStartedFrame frame).1 = .ok ()) :
    PayloadOf frame k ∧ k ≠ .started ∧ (k = .phase → v.finalPhase = false) ∧
      (k = .finalDelta ∨ k = .completed → v.finalPhase = true) := by
  unfold verifyStartedFrame at h
  rw [htype] at h
  cases k with
  | started => exact absurd h (by simp [FrameKind.name])
  | phase =>
    have hok := of_refuseIf_ok (by simpa [FrameKind.name] using h)
    rw [not_or, not_not, Bool.not_eq_true] at hok
    exact ⟨hok.1, nofun, fun _ => hok.2, by simp⟩
  | finalDelta =>
    have hok := of_refuseIf_ok (by simpa [FrameKind.name] using h)
    simp only [not_or, Bool.not_eq_false] at hok
    obtain ⟨delta, hdelta⟩ := Option.ne_none_iff_exists'.mp hok.2.1
    refine ⟨⟨delta, hdelta, fun hempty => hok.2.2 ?_⟩, nofun, nofun, fun _ => hok.1⟩
    rw [hdelta, hempty]
  | progress =>
    cases hmember : memberOf (frame.get "phase") progressPhases with
    | error e => exact absurd h (by simp [FrameKind.name, hmember])
    | ok isPhase =>
      have hok := of_refuseIf_ok (by simpa [FrameKind.name, hmember] using h)
      rw [not_or, Bool.not_eq_false] at hok
      exact ⟨⟨(isPhase_iff hmember).mp hok.1, natural_iff.mp hok.2⟩, nofun, nofun, by simp⟩
  | heartbeat =>
    have hok := of_refuseIf_ok (by simpa [FrameKind.name] using h)
    exact ⟨natural_iff.mp hok, nofun, nofun, by simp⟩
  | completed =>
    by_cases hbad : frame.text "final_text" = none ∨ frame.dict "usage" = none ∨
        frame.dict "timing" = none
    · exact absurd h (by simp [FrameKind.name, hbad])
    · have hok := of_refuseIf_ok (by simpa [FrameKind.name, hbad] using h)
      simp only [not_or, ← ne_eq, ← Option.isSome_iff_ne_none] at hbad
      exact ⟨hbad, nofun, nofun, fun _ => by simpa using hok⟩
  | failed =>
    have hok := of_refuseIf_ok (by simpa [FrameKind.name] using h)
    simp only [not_or, ← ne_eq, ← Option.isSome_iff_ne_none] at hok
    exact ⟨hok, nofun, nofun, by simp⟩

/-- An accepted frame has the payload of its kind, and the stage lets it through. -/
theorem of_verifyRequestFrame_ok {v : FrameVerifier} (htype : frame.text "type" = py k.name)
    (h : (v.verifyRequestFrame frame).1 = .ok ()) :
    PayloadOf frame k ∧ ∃ t, v.stage.next k = some t := by
  unfold verifyRequestFrame at h
  rw [htype, if_neg (name_ne_ready k)] at h
  by_cases hterminal : v.terminal = true
  · rw [if_pos hterminal] at h
    exact nomatch h
  rw [if_neg hterminal] at h
  rw [Bool.not_eq_true] at hterminal
  by_cases hstarted : v.started = true
  · rw [if_neg (not_not_intro hstarted)] at h
    obtain ⟨hpayload, hk, hphase, hfinal⟩ := of_verifyStartedFrame_ok htype h
    exact ⟨hpayload, next_of_flags hterminal (by simp [hstarted, hk]) hphase hfinal⟩
  · rw [if_pos hstarted] at h
    have hfirst := of_refuseIf_ok h
    rw [not_not, Option.some_inj, py_inj] at hfirst
    obtain rfl : k = .started := FrameKind.name_inj hfirst
    exact ⟨trivial, next_of_flags hterminal (by simpa using hstarted) nofun (by simp)⟩

/-- What a rejected frame of a started request raises: `TypeError`, where the
phase of its progress cannot be hashed. -/
theorem verifyStartedFrame_error {v : FrameVerifier} {e : Raised}
    (h : (v.verifyStartedFrame frame).1 = .error e) :
    (v.verifyStartedFrame frame).2 = v ∧
      ((∃ message, e = crashed message) ∨ e = .unhashable ∧ frame.text "type" = py "progress" ∧
        ∃ phase, frame.get "phase" = some phase ∧ hashable phase = false) := by
  revert h
  unfold verifyStartedFrame
  dsimp only
  have hrefused {refused : Prop} [Decidable refused] {message : String} {moved : FrameVerifier}
      {other : Prop} (h : (v.refuseIf refused message moved).1 = .error e) :
      (v.refuseIf refused message moved).2 = v ∧ ((∃ message, e = crashed message) ∨ other) :=
    ⟨(refuseIf_error h).2, .inl ⟨message, (refuseIf_error h).1⟩⟩
  by_cases hstarted : frame.text "type" = py "started"
  · rw [if_pos hstarted]
    exact fun h => ⟨rfl, .inl ⟨_, (Except.error.inj h).symm⟩⟩
  rw [if_neg hstarted]
  by_cases hphase : frame.text "type" = py "phase"
  · rw [if_pos hphase]
    exact hrefused
  rw [if_neg hphase]
  by_cases hdelta : frame.text "type" = py "final_delta"
  · rw [if_pos hdelta]
    exact hrefused
  rw [if_neg hdelta]
  by_cases hprogress : frame.text "type" = py "progress"
  · rw [if_pos hprogress]
    cases hmember : memberOf (frame.get "phase") progressPhases with
    | error e' =>
      intro h
      obtain rfl := Except.error.inj h
      obtain ⟨rfl, hphase⟩ := memberOf_error hmember
      exact ⟨rfl, .inr ⟨rfl, hprogress, hphase⟩⟩
    | ok isPhase => exact hrefused
  rw [if_neg hprogress]
  by_cases hheartbeat : frame.text "type" = py "heartbeat"
  · rw [if_pos hheartbeat]
    exact hrefused
  rw [if_neg hheartbeat]
  by_cases hcompleted : frame.text "type" = py "completed"
  · rw [if_pos hcompleted]
    by_cases hbad : frame.text "final_text" = none ∨ frame.dict "usage" = none ∨
        frame.dict "timing" = none
    · rw [if_pos hbad]
      exact fun h => ⟨rfl, .inl ⟨_, (Except.error.inj h).symm⟩⟩
    · rw [if_neg hbad]
      exact hrefused
  rw [if_neg hcompleted]
  by_cases hfailed : frame.text "type" = py "failed"
  · rw [if_pos hfailed]
    exact hrefused
  rw [if_neg hfailed]
  exact fun h => nomatch h

/-- The frame whose check raises `TypeError` in the middle of a request. -/
def UnhashablePhase (v : FrameVerifier) (frame : Frame F) : Prop :=
  v.terminal = false ∧ v.started = true ∧ frame.text "type" = py "progress" ∧
    ∃ phase, frame.get "phase" = some phase ∧ hashable phase = false

/-- A rejected frame moves no flag. -/
theorem verifyRequestFrame_error {v : FrameVerifier} {e : Raised}
    (h : (v.verifyRequestFrame frame).1 = .error e) :
    (v.verifyRequestFrame frame).2 = v ∧
      ((∃ message, e = crashed message) ∨ e = .unhashable ∧ UnhashablePhase v frame) := by
  revert h
  unfold verifyRequestFrame
  dsimp only
  by_cases hready : frame.text "type" = py "ready"
  · rw [if_pos hready]
    exact fun h => ⟨rfl, .inl ⟨_, (Except.error.inj h).symm⟩⟩
  rw [if_neg hready]
  by_cases hterminal : v.terminal = true
  · rw [if_pos hterminal]
    exact fun h => ⟨rfl, .inl ⟨_, (Except.error.inj h).symm⟩⟩
  rw [if_neg hterminal]
  by_cases hstarted : v.started = true
  · rw [if_neg (not_not_intro hstarted)]
    intro h
    obtain ⟨hstate, hmessage | ⟨he, htype, hphase⟩⟩ := verifyStartedFrame_error h
    · exact ⟨hstate, .inl hmessage⟩
    · exact ⟨hstate, .inr ⟨he, by simpa using hterminal, hstarted, htype, hphase⟩⟩
  · rw [if_pos hstarted]
    exact fun h => ⟨(refuseIf_error h).2, .inl ⟨_, (refuseIf_error h).1⟩⟩

theorem verifyRequestFrame_unhashable {v : FrameVerifier} (h : UnhashablePhase v frame) :
    (v.verifyRequestFrame frame).1 = .error .unhashable := by
  obtain ⟨hterminal, hstarted, htype, hphase⟩ := h
  have hmember : memberOf (frame.get "phase") progressPhases = .error .unhashable :=
    memberOf_unhashable.mpr hphase
  simp [verifyRequestFrame, verifyStartedFrame, hterminal, hstarted, htype, hmember]

/-- The state after an accepted frame. -/
def accept (v : FrameVerifier) (k : FrameKind) : FrameVerifier :=
  { v.advance k with nextSequence := v.nextSequence + 1 }

theorem verifyFrame_dict {v : FrameVerifier} {n : ℕ}
    (hframe : IsFrame v.requestId v.attemptId n frame k) (hn : n = v.nextSequence) :
    v.verifyFrame (.dict frame.items) =
      match v.verifyRequestFrame frame with
      | (.error e, v) => (.error e, v)
      | (.ok _, v) => (.ok frame, { v with nextSequence := v.nextSequence + 1 }) := by
  subst hn
  have hmember : memberOf (frame.get "type") frameTypes = .ok true := by
    rw [memberOf_text hframe.type, decide_eq_true (mem_frameTypes.mpr (.inr ⟨k, rfl⟩))]
  unfold verifyFrame
  dsimp only
  rw [if_neg (not_not_intro hframe.version),
    if_neg (not_or.mpr ⟨not_not_intro hframe.request, not_not_intro hframe.attempt⟩),
    if_neg (not_not_intro hframe.sequence)]
  revert hmember
  generalize memberOf (frame.get "type") frameTypes = member
  rintro rfl
  rfl

/-- A frame of the request in its place is accepted. -/
theorem verifyFrame_accepts {v : FrameVerifier} {t : Stage}
    (hframe : IsFrame v.requestId v.attemptId v.nextSequence frame k)
    (hnext : v.stage.next k = some t) :
    v.verifyFrame (.dict frame.items) = (.ok frame, v.accept k) := by
  rw [verifyFrame_dict hframe rfl, verifyRequestFrame_accepts hframe.type hframe.payload hnext]
  show (_, { v.advance k with nextSequence := (v.advance k).nextSequence + 1 }) = _
  rw [advance_nextSequence]
  rfl

/-- The stamp of a frame: its version, ids and sequence number. -/
structure Stamped (v : FrameVerifier) (frame : Frame F) : Prop where
  version : frame.text "protocol_version" = py ipcVersion
  request : frame.text "request_id" = v.requestId
  attempt : frame.text "attempt_id" = v.attemptId
  sequence : frame.int "sequence" = some (v.nextSequence : ℤ)

/-- The values whose check raises `TypeError`: a frame with the right stamp whose
type cannot be hashed, or whose phase cannot where the phase of a progress is
looked at. -/
def Unhashable (v : FrameVerifier) (value : Value F) : Prop :=
  ∃ frame : Frame F, value = .dict frame.items ∧ Stamped v frame ∧
    ((∃ type, frame.get "type" = some type ∧ hashable type = false) ∨ UnhashablePhase v frame)

/-- Every outcome of a frame. -/
inductive Verdict (v : FrameVerifier) (value : Value F) :
    Except Raised (Frame F) × FrameVerifier → Prop where
  | accepted (frame : Frame F) (k : FrameKind) (t : Stage) (object : value = .dict frame.items)
      (isFrame : IsFrame v.requestId v.attemptId v.nextSequence frame k)
      (next : v.stage.next k = some t) : Verdict v value (.ok frame, v.accept k)
  | crashed (message : String) (hashable : ¬ Unhashable v value) :
      Verdict v value (.error (crashed message), v)
  | unhashable (unhashable : Unhashable v value) : Verdict v value (.error .unhashable, v)

theorem verdict_unstamped {v : FrameVerifier} {value : Value F} {message : String}
    (h : ∀ frame : Frame F, value = .dict frame.items → ¬ Stamped v frame) :
    Verdict v value (.error (Worker.crashed message), v) :=
  .crashed message fun ⟨frame, hvalue, hstamped, _⟩ => h frame hvalue hstamped

theorem verdict (v : FrameVerifier) (value : Value F) : Verdict v value (v.verifyFrame value) := by
  cases value with
  | dict items =>
    generalize hframe : (⟨items⟩ : Frame F) = frame
    have hitems : items = frame.items := by rw [← hframe]
    subst hitems
    clear hframe
    show Verdict v _ (if frame.text "protocol_version" ≠ some (py ipcVersion) then _ else _)
    by_cases hversion : frame.text "protocol_version" ≠ some (py ipcVersion)
    · rw [if_pos hversion]
      refine verdict_unstamped fun f hf h => ?_
      obtain rfl := Frame.mk_eq_of_dict hf
      exact hversion h.version
    rw [if_neg hversion]
    by_cases hids : frame.text "request_id" ≠ some v.requestId ∨
        frame.text "attempt_id" ≠ some v.attemptId
    · rw [if_pos hids]
      refine verdict_unstamped fun f hf h => ?_
      obtain rfl := Frame.mk_eq_of_dict hf
      exact hids.elim (fun hid => hid h.request) fun hid => hid h.attempt
    rw [if_neg hids]
    by_cases hsequence : frame.int "sequence" ≠ some (v.nextSequence : ℤ)
    · rw [if_pos hsequence]
      refine verdict_unstamped fun f hf h => ?_
      obtain rfl := Frame.mk_eq_of_dict hf
      exact hsequence h.sequence
    rw [if_neg hsequence]
    simp only [not_or, not_not] at hversion hids hsequence
    have hstamped : Stamped v frame := ⟨hversion, hids.1, hids.2, hsequence⟩
    have hashable_of (htype : memberOf (frame.get "type") frameTypes ≠ .error .unhashable)
        (hphase : ¬ UnhashablePhase v frame) : ¬ Unhashable v (.dict frame.items) := by
      rintro ⟨f, hf, -, h⟩
      obtain rfl := Frame.mk_eq_of_dict hf
      exact h.elim (fun h => htype (memberOf_unhashable.mpr h)) hphase
    cases hmember : memberOf (frame.get "type") frameTypes with
    | error e =>
      obtain ⟨rfl, -⟩ := memberOf_error hmember
      exact .unhashable ⟨frame, rfl, hstamped, .inl (memberOf_unhashable.mp hmember)⟩
    | ok known =>
      cases known with
      | false =>
        refine .crashed _ (hashable_of (by rw [hmember]; nofun) ?_)
        rintro ⟨-, -, htype, -⟩
        have hknown : (false = true) := (memberOf_ok hmember).mpr
          ⟨_, htype, mem_frameTypes.mpr (.inr ⟨.progress, rfl⟩)⟩
        exact nomatch hknown
      | true =>
        dsimp only
        have htype : memberOf (frame.get "type") frameTypes ≠ .error .unhashable := by
          rw [hmember]
          nofun
        rcases hcheck : v.verifyRequestFrame frame with ⟨result, v'⟩
        cases result with
        | error e =>
          obtain ⟨hstate, herror⟩ := verifyRequestFrame_error (e := e) (by rw [hcheck])
          rw [hcheck] at hstate
          obtain rfl : v' = v := hstate
          rcases herror with ⟨message, rfl⟩ | ⟨rfl, hphase⟩
          · refine .crashed message (hashable_of htype fun hphase => ?_)
            have hraised := verifyRequestFrame_unhashable hphase
            rw [hcheck] at hraised
            exact nomatch hraised
          · exact .unhashable ⟨frame, rfl, hstamped, .inr hphase⟩
        | ok u =>
          obtain ⟨s, hs, hknown⟩ := (memberOf_ok hmember).mp rfl
          have hs : frame.text "type" = some s := hs
          rcases mem_frameTypes.mp hknown with rfl | ⟨k, rfl⟩
          · rw [verifyRequestFrame, if_pos hs] at hcheck
            exact nomatch hcheck
          · obtain ⟨hpayload, t, ht⟩ := of_verifyRequestFrame_ok hs (by rw [hcheck])
            rw [verifyRequestFrame_accepts hs hpayload ht] at hcheck
            obtain rfl := (Prod.mk.inj hcheck).2
            have hframe : IsFrame v.requestId v.attemptId v.nextSequence frame k :=
              ⟨hversion, hids.1, hids.2, hsequence, hs, hpayload⟩
            have haccept : { v.advance k with nextSequence := (v.advance k).nextSequence + 1 } =
                v.accept k := by rw [advance_nextSequence, accept]
            dsimp only
            rw [haccept]
            exact .accepted frame k t rfl hframe ht
  | _ => exact verdict_unstamped fun f hf => nomatch hf

/-! ### Runs -/

/-- The verifier has accepted these frames, and its flags stand for the stage they
lead to. -/
structure Tracks (requestId attemptId : PyStr) (accepted : List (Frame F)) (v : FrameVerifier) :
    Prop where
  request : v.requestId = requestId
  attempt : v.attemptId = attemptId
  sequence : v.nextSequence = accepted.length
  ordered : v.Ordered
  spells : ∃ kinds, Spells requestId attemptId accepted kinds ∧
    Stage.after .fresh kinds = some v.stage

theorem tracks_start (requestId attemptId : PyStr) :
    Tracks requestId attemptId ([] : List (Frame F)) (start requestId attemptId) :=
  ⟨rfl, rfl, rfl, nofun, [], spells_nil, rfl⟩

variable {accepted : List (Frame F)} {v : FrameVerifier}

theorem Tracks.isWord (h : Tracks requestId attemptId accepted v) :
    IsWord requestId attemptId accepted := by
  obtain ⟨kinds, hspells, hafter⟩ := h.spells
  exact ⟨kinds, Stage.mem_frameProtocol.mpr ⟨_, hafter⟩, hspells⟩

/-- A frame extends the accepted word exactly where its kind is let through. -/
theorem Tracks.snoc_isWord (h : Tracks requestId attemptId accepted v) :
    IsWord requestId attemptId (accepted ++ [frame]) ↔
      ∃ k t, IsFrame requestId attemptId v.nextSequence frame k ∧ v.stage.next k = some t := by
  obtain ⟨kinds, hspells, hafter⟩ := h.spells
  rw [h.sequence]
  constructor
  · rintro ⟨all, hall, hsnoc⟩
    obtain ⟨before, k, rfl, hbefore, hframe⟩ := hsnoc.snoc
    obtain rfl := hbefore.kinds_unique hspells
    obtain ⟨s, t, hs, ht⟩ := Stage.snoc_mem_frameProtocol.mp hall
    obtain rfl := Option.some_inj.mp (hs.symm.trans hafter)
    exact ⟨k, t, hframe, ht⟩
  · rintro ⟨k, t, hframe, ht⟩
    exact ⟨kinds ++ [k], Stage.snoc_mem_frameProtocol.mpr ⟨_, t, hafter, ht⟩,
      spells_snoc.mpr ⟨hspells, hframe⟩⟩

theorem Tracks.accept {t : Stage} (h : Tracks requestId attemptId accepted v)
    (hframe : IsFrame v.requestId v.attemptId v.nextSequence frame k)
    (hnext : v.stage.next k = some t) :
    Tracks requestId attemptId (accepted ++ [frame]) (v.accept k) := by
  obtain ⟨kinds, hspells, hafter⟩ := h.spells
  obtain ⟨hstage, hordered⟩ := stage_advance h.ordered hnext
  rw [h.request, h.attempt, h.sequence] at hframe
  refine ⟨(v.advance_requestId k).trans h.request, (v.advance_attemptId k).trans h.attempt, ?_,
    hordered, kinds ++ [k], spells_snoc.mpr ⟨hspells, hframe⟩, ?_⟩
  · show v.nextSequence + 1 = _
    rw [h.sequence, List.length_append, List.length_singleton]
  · have hstages : (v.accept k).stage = t := hstage
    rw [Stage.after_append, hafter, hstages]
    exact hnext

/-- A terminal frame has been accepted exactly where the word has ended. -/
theorem Tracks.ended (h : Tracks requestId attemptId accepted v) (hmem : frame ∈ accepted)
    (hterminal : k.isTerminal = true) (htype : frame.text "type" = py k.name) :
    v.stage = .ended := by
  obtain ⟨kinds, hspells, hafter⟩ := h.spells
  obtain ⟨i, hi, rfl⟩ := List.getElem_of_mem hmem
  have hik : i < kinds.length := by rw [← hspells.length]; exact hi
  have hkind := hspells.frames i _ _ (List.getElem?_eq_getElem hi) (List.getElem?_eq_getElem hik)
  obtain rfl : kinds[i] = k :=
    FrameKind.name_inj (py_inj.mp (Option.some_inj.mp (hkind.type.symm.trans htype)))
  exact Stage.after_terminal hterminal hafter (List.getElem_mem hik)

variable [Floats F]

/-- Every outcome of what is fed to the verifier. -/
theorem verify_cases (v : FrameVerifier) (raw : Raw F) :
    (∃ frame k t, raw.decode = .ok (.dict frame.items) ∧
      IsFrame v.requestId v.attemptId v.nextSequence frame k ∧ v.stage.next k = some t ∧
      v.verify raw = (.ok frame, v.accept k)) ∨
    ∃ e, v.verify raw = (.error e, v) := by
  unfold verify
  cases hraw : raw.decode with
  | error e => exact .inr ⟨_, rfl⟩
  | ok value =>
    have hverdict := v.verdict value
    generalize hresult : v.verifyFrame value = result at hverdict
    cases hverdict with
    | accepted frame k t hobject hframe hnext =>
      exact .inl ⟨frame, k, t, congrArg _ hobject, hframe, hnext, hresult⟩
    | crashed message _ => exact .inr ⟨_, hresult⟩
    | unhashable _ => exact .inr ⟨_, hresult⟩

theorem verify_error {e : Raised} {raw : Raw F} (h : (v.verify raw).1 = .error e) :
    (v.verify raw).2 = v := by
  rcases v.verify_cases raw with ⟨frame, k, t, -, -, -, hok⟩ | ⟨e', herror⟩
  · rw [hok] at h
    exact nomatch h
  · rw [herror]

/-- The frames that are accepted next. -/
theorem Tracks.verify_ok (h : Tracks requestId attemptId accepted v) {raw : Raw F} :
    (v.verify raw).1 = .ok frame ↔
      raw.decode = .ok (.dict frame.items) ∧ IsWord requestId attemptId (accepted ++ [frame]) := by
  rw [h.snoc_isWord]
  constructor
  · intro hok
    rcases v.verify_cases raw with ⟨f, k, t, hraw, hframe, hnext, hverify⟩ | ⟨e, hverify⟩
    · rw [hverify] at hok
      obtain rfl := Except.ok.inj hok
      rw [h.request, h.attempt] at hframe
      exact ⟨hraw, k, t, hframe, hnext⟩
    · rw [hverify] at hok
      exact nomatch hok
  · rintro ⟨hraw, k, t, hframe, hnext⟩
    rw [← h.request, ← h.attempt] at hframe
    rw [verify, hraw]
    show (v.verifyFrame (.dict frame.items)).1 = _
    rw [verifyFrame_accepts hframe hnext]

/-- One more of what is fed. -/
theorem run_cons (v : FrameVerifier) (raw : Raw F) (rest : List (Raw F)) :
    v.run (raw :: rest) = ((match (v.verify raw).1 with | .ok frame => [frame] | .error _ => []) ++
      ((v.verify raw).2.run rest).1, ((v.verify raw).2.run rest).2) := by
  rw [run]
  rcases v.verify raw with ⟨result, v'⟩
  cases result <;> rfl

/-- The frames accepted in a run go on with the word of those before it. -/
theorem Tracks.run (h : Tracks requestId attemptId accepted v) (fed : List (Raw F)) :
    Tracks requestId attemptId (accepted ++ (v.run fed).1) (v.run fed).2 := by
  induction fed generalizing accepted v with
  | nil => simpa [FrameVerifier.run] using h
  | cons raw rest ih =>
    rw [run_cons]
    rcases v.verify_cases raw with ⟨frame, k, t, -, hframe, hnext, hverify⟩ | ⟨e, hverify⟩
    · rw [hverify]
      have hlater := ih (h.accept hframe hnext)
      rwa [List.append_assoc] at hlater
    · rw [hverify]
      exact ih h

theorem run_append (v : FrameVerifier) (fed later : List (Raw F)) :
    v.run (fed ++ later) =
      ((v.run fed).1 ++ ((v.run fed).2.run later).1, ((v.run fed).2.run later).2) := by
  induction fed generalizing v with
  | nil => rfl
  | cons raw rest ih => rw [List.cons_append, run_cons, run_cons, ih, List.append_assoc]

/-- Every word is accepted as it is. -/
theorem run_of_isWord (h : IsWord requestId attemptId w) :
    ((start requestId attemptId).run (w.map Raw.object)).1 = w := by
  induction w using List.reverseRecOn with
  | nil => rfl
  | append_singleton w frame ih =>
    have hbefore := ih h.init
    have htracks := (tracks_start requestId attemptId).run (w.map Raw.object)
    rw [List.nil_append, hbefore] at htracks
    have hword : (Raw.object frame).decode = .ok (.dict frame.items) ∧
        IsWord requestId attemptId (w ++ [frame]) := ⟨rfl, h⟩
    have hlast := htracks.verify_ok.mpr hword
    rw [List.map_append, run_append, hbefore, List.map_singleton, run_cons, hlast]
    rfl

end FrameVerifier

/-- The frame ends its request. -/
def Frame.IsTerminal (frame : Frame F) : Prop :=
  ∃ k : FrameKind, k.isTerminal = true ∧ frame.text "type" = py k.name

/-- **The language of accepted frames**: whatever a verifier is fed, the frames it
accepts are a word of the protocol; the next frame is accepted exactly where it
extends that word, which it never does after a terminal frame; a rejected frame
leaves the verifier as it was; and every word is accepted. -/
theorem frames_accepted [Floats F] (requestId attemptId : PyStr) :
    (∀ fed : List (Raw F),
      let accepted := ((FrameVerifier.start requestId attemptId).run fed).1
      let v := ((FrameVerifier.start requestId attemptId).run fed).2
      IsWord requestId attemptId accepted ∧
      (∀ (raw : Raw F) (frame : Frame F), (v.verify raw).1 = .ok frame ↔
        raw.decode = .ok (.dict frame.items) ∧ IsWord requestId attemptId (accepted ++ [frame])) ∧
      (∀ (raw : Raw F) (e : Raised), (v.verify raw).1 = .error e → (v.verify raw).2 = v) ∧
      ((∃ frame ∈ accepted, frame.IsTerminal) →
        ∀ raw : Raw F, ∃ e, (v.verify raw).1 = .error e)) ∧
    ∀ w : List (Frame F), IsWord requestId attemptId w →
      ((FrameVerifier.start requestId attemptId).run (w.map Raw.object)).1 = w := by
  refine ⟨fun fed => ?_, fun w hw => FrameVerifier.run_of_isWord hw⟩
  have h := (FrameVerifier.tracks_start requestId attemptId).run fed
  rw [List.nil_append] at h
  refine ⟨h.isWord, fun raw frame => h.verify_ok, fun raw e he => FrameVerifier.verify_error he, ?_⟩
  rintro ⟨frame, hmem, k, hterminal, htype⟩ raw
  have hended := h.ended hmem hterminal htype
  rcases FrameVerifier.verify_cases (F := F) _ raw with ⟨f, k', t, -, -, hnext, -⟩ | ⟨e, herror⟩
  · rw [hended, Stage.next_ended] at hnext
    exact nomatch hnext
  · exact ⟨e, congrArg Prod.fst herror⟩

end

end Worker
