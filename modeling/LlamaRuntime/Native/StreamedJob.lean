/-
A streamed request whose lines come from a job of the native worker.

The process lives and its control pipe takes what is written: a step of `execute` finds the next
line of the job, or finds that it has not come yet.  The other threads do what they like.

* `Piped` — the stream, with the lines that have not been read;
* `Complete` — the frames of a whole job, and `takeLine_next`, what `execute` makes of each;
* `Reads` — how far `execute` has come with them;
* `job_answered` — every job is answered, and the process is never recovered.
-/
import LlamaRuntime.Native.WorkerFrames
import LlamaRuntime.Worker.StreamText

namespace ModelWorker

open Json Worker
open Inference (IsBoundedText)

/-! ### The system -/

/-- A stream, and the lines of its job that have not been read. -/
structure Piped (F : Type) where
  stream : Stream F
  lines : List PyStr

section

variable {F : Type}

/-- The action is not one of `execute`. -/
def Outward (action : Action F) : Prop := ∀ answer, action ≠ .request answer

namespace Piped

inductive Move (F : Type) where
  /-- a step of `execute`, by which the next line has come or not -/
  | execute (ready : Bool) (elapsed : Value F)
  /-- a step of another thread -/
  | others (action : Action F) (outward : Outward action)

/-- What the process answers to a step of `execute`, and the lines that are left. -/
def answer (s : Piped F) (ready : Bool) (elapsed : Value F) : RequestAnswer F × List PyStr :=
  if ready then
    match s.lines with
    | [] => ({ elapsed := elapsed }, [])
    | line :: rest =>
      match s.stream.request with
      | .receiving _ => ({ polled := .line line, elapsed := elapsed }, rest)
      | _ => ({ extra := .line, elapsed := elapsed }, line :: rest)
  else ({ elapsed := elapsed }, s.lines)

def step [Floats F] (contract : ContractAST) (identity : Identity F) (s : Piped F) :
    Move F → Piped F
  | .execute ready elapsed =>
    { stream := s.stream.requestStep contract identity (s.answer ready elapsed).1
      lines := (s.answer ready elapsed).2 }
  | .others action _ => { s with stream := s.stream.step contract identity action }

def run [Floats F] (contract : ContractAST) (identity : Identity F) (s : Piped F)
    (moves : List (Move F)) : Piped F := moves.foldl (step contract identity) s

/-- A request that has just been queued, and the lines of its job. -/
def start (dump : Value F → PyStr) (job : Job) (frames : List (Frame F)) (maxEvents maxBytes : ℕ)
    (queueDeadline executionTimeout : ℚ) : Piped F where
  stream :=
    .start job.requestId job.attemptId maxEvents maxBytes queueDeadline executionTimeout
  lines := frames.map fun frame => dump (.dict frame.items)

end Piped

end

/-! ### A whole job -/

section

variable {F : Type} [Floats F]

/-- The frames of a job, from the first to the one that ends it. -/
structure Complete (job : Job) (frames : List (Frame F)) : Prop where
  isWord : IsWord job.requestId job.attemptId (frames.map readBack)
  sent : ∀ frame ∈ frames, Sent frame
  last : ∃ before last, frames = before ++ [last] ∧ last.IsTerminal ∧
    ∀ frame ∈ before, ¬ frame.IsTerminal
  finalText : ∀ frame ∈ frames, frame.text "type" = some (py "completed") →
    frame.text "final_text" = some (deltasOf frames).flatten

theorem serve_complete (model : Model) (job : Job) (outside : Outside F) :
    Complete job (serve model job outside).frames :=
  have hserved := serve_served model job outside
  ⟨hserved.written.isWord, hserved.written.sent, hserved.last, hserved.finalText⟩

variable {job : Job} {done rest : List (Frame F)} {f : Frame F}

/-- A frame ends the job exactly where no other comes behind it. -/
theorem Complete.terminal_iff (h : Complete job (done ++ f :: rest)) :
    f.IsTerminal ↔ rest = [] := by
  obtain ⟨before, last, hframes, hlast, hbefore⟩ := h.last
  rcases List.eq_nil_or_concat rest with rfl | ⟨middle, g, rfl⟩
  · obtain ⟨rfl, hsame⟩ := List.append_inj' hframes rfl
    obtain rfl : f = last := List.singleton_inj.mp hsame
    exact iff_of_true hlast rfl
  · rw [List.concat_eq_append] at hframes ⊢
    have hsplit : (done ++ f :: middle) ++ [g] = before ++ [last] := by
      rw [← hframes, List.append_assoc, List.cons_append]
    obtain ⟨rfl, -⟩ := List.append_inj' hsplit rfl
    refine iff_of_false (hbefore f ?_) (by simp)
    exact List.mem_append_right _ List.mem_cons_self

omit [Floats F] in
/-- A part of a word from its start is a word. -/
theorem isWord_of_append {requestId attemptId : PyStr} {w later : List (Frame F)}
    (h : IsWord requestId attemptId (w ++ later)) : IsWord requestId attemptId w := by
  induction later using List.reverseRecOn with
  | nil => rwa [List.append_nil] at h
  | append_singleton later frame ih =>
    rw [← List.append_assoc] at h
    exact ih h.init

/-! ### One line -/

/-- `execute` has accepted the frames `done`, and the lines of the others are on the pipe. -/
structure Behind (dump : Value F → PyStr) (job : Job) (done rest : List (Frame F))
    (lines : List PyStr) (x : Execution F) : Prop where
  lines : lines = rest.map fun frame => dump (.dict frame.items)
  accepted : x.accepted = done.map readBack
  deltas : x.finalDeltas = deltasOf done
  tracks : FrameVerifier.Tracks job.requestId job.attemptId x.accepted x.verifier

omit [Floats F] in
theorem Behind.cancelSent {dump : Value F → PyStr} {lines : List PyStr} {x : Execution F}
    (h : Behind dump job done rest lines x) (sent : Bool) :
    Behind dump job done rest lines { x with cancelSent := sent } :=
  ⟨h.lines, h.accepted, h.deltas, h.tracks⟩

/-- The event is one of the job, with this number. -/
def EventAt (job : Job) (event : InferenceEvent) (n : ℕ) : Prop :=
  event.requestId = job.requestId ∧ event.attemptId = job.attemptId ∧ event.sequence = n

/-- What a line of a job becomes. -/
inductive TakenNext (job : Job) (done : List (Frame F)) (f : Frame F) (x' : Execution F) :
    Taken F → Prop where
  | event {event : InferenceEvent} (plain : ¬ f.IsTerminal)
      (numbered : EventAt job event done.length) : TakenNext job done f x' (.event x' (readBack f) event)
  | plain (terminal : f.IsTerminal) : TakenNext job done f x' (.plain x' (readBack f))

end

section

variable {F : Type} [ComparedFloats F] {job : Job} {done rest : List (Frame F)} {f : Frame F}

/-- **The next line of a job** is taken as its frame, and its event is one of the request. -/
theorem takeLine_next {dump : Value F → PyStr} (hdump : Dumps dump)
    (hrequest : IsBoundedText job.requestId maxCorrelationIdBytes)
    (hattempt : IsBoundedText job.attemptId maxCorrelationIdBytes)
    (hjob : Complete job (done ++ f :: rest)) {lines : List PyStr} {x : Execution F}
    (h : Behind dump job done (f :: rest) (dump (.dict f.items) :: lines) x) :
    ∃ x', Behind dump job (done ++ [f]) rest lines x' ∧
      TakenNext job done f x' (takeLine x (dump (.dict f.items))) := by
  have hsent : Sent f := hjob.sent f (List.mem_append_right _ List.mem_cons_self)
  have hdecode : (lineOf dump f).decode = .ok (.dict (readBack f).items) := hsent.decode_line hdump
  have hlines : lines = rest.map fun frame => dump (.dict frame.items) :=
    (List.cons.inj h.lines).2
  -- the verifier accepts it
  have hword : IsWord job.requestId job.attemptId (x.accepted ++ [readBack f]) := by
    have hall := hjob.isWord
    rw [List.map_append, List.map_cons, List.append_cons] at hall
    rw [h.accepted]
    exact isWord_of_append hall
  have hok := h.tracks.verify_ok.mpr ⟨hdecode, hword⟩
  rcases x.verifier.verify_cases (lineOf dump f) with
    ⟨frame, k, t, -, hframe, hnext, hverify⟩ | ⟨e, hverify⟩
  swap
  · rw [hverify] at hok
    cases hok
  rw [hverify] at hok
  obtain rfl := Except.ok.inj hok
  have htype : (readBack f).text "type" = some (py k.name) := hframe.type
  have hkind : f.IsTerminal ↔ k.isTerminal = true := by
    rw [text_readBack hsent.nodup] at htype
    constructor
    · rintro ⟨k', hk', htype'⟩
      obtain rfl : k' = k :=
        FrameKind.name_inj (py_inj.mp (Option.some_inj.mp (htype'.symm.trans htype)))
      exact hk'
    · exact fun hk => ⟨k, hk, htype⟩
  have hdeltas : deltasOf (done ++ [f]) =
      if (readBack f).text "type" = some (py "final_delta") then
        x.finalDeltas ++ [((readBack f).text "delta").getD []] else x.finalDeltas := by
    rw [deltasOf_append, h.deltas, text_readBack hsent.nodup, text_readBack hsent.nodup, deltasOf,
      deltasOf, List.filterMap_cons, List.filterMap_nil]
    by_cases hdelta : f.text "type" = some (py "final_delta")
    · rw [if_pos hdelta, if_pos hdelta]
    · rw [if_neg hdelta, if_neg hdelta, List.append_nil]
  refine ⟨{ x with
    verifier := x.verifier.accept k
    accepted := x.accepted ++ [readBack f]
    finalDeltas := if (readBack f).text "type" = some (py "final_delta") then
      x.finalDeltas ++ [((readBack f).text "delta").getD []] else x.finalDeltas },
    ⟨hlines, ?_, hdeltas.symm, h.tracks.accept hframe hnext⟩, ?_⟩
  · show x.accepted ++ [readBack f] = _
    rw [h.accepted, List.map_append, List.map_singleton]
  have hline : x.verifier.verify (.text (.str (dump (.dict f.items)))) =
      (.ok (readBack f), x.verifier.accept k) := hverify
  unfold takeLine
  rw [hline]
  dsimp only
  cases hk : k.isTerminal with
  | true =>
    have hplain : ¬ (readBack f).IsEvent := by
      rw [isEvent_iff htype, hk]
      exact Bool.noConfusion
    rw [if_neg hplain]
    exact .plain (hkind.mpr hk)
  | false =>
    rw [if_pos ((isEvent_iff htype).mpr hk)]
    have hloaded := Frame.writable_of_loaded (loaded_of_loads hdecode)
    have hn : IsFrame job.requestId job.attemptId done.length (readBack f) k := by
      have hlength : x.verifier.nextSequence = done.length := by
        rw [h.tracks.sequence, h.accepted, List.length_map]
      rw [← h.tracks.request, ← h.tracks.attempt, ← hlength]
      exact hframe
    obtain ⟨event, hevent, hids⟩ :=
      fromIpcFrame_accepted hrequest hattempt hn hk hsent.documented hloaded
    rw [hevent]
    refine .event (fun hterminal => ?_) hids
    rw [hkind.mp hterminal] at hk
    cases hk

/-! ### How far the request has come -/

/-- The buffer waits for the event of this number, unless it is closed. -/
structure Expects (job : Job) (b : BoundedRequestEventBuffer) (n : ℕ) : Prop where
  request : b.requestId = job.requestId
  attempt : b.attemptId = job.attemptId
  next : b.closed = false → b.nextSequence = n

/-- The errors of a request whose process lives. -/
def answerCodes : List ErrorCode :=
  [.slow_consumer, .output_invalid, .cancelled, .context_overflow, .protocol_violation,
    .decode_failed]

/-- What a request may end with: nothing of a job that was never sent, or what all its frames
amount to. -/
inductive Answered (contract : ContractAST) (job : Job) (frames : List (Frame F))
    (x : Execution F) : Except Raised (GenerateResult F) → Prop where
  | unsent (accepted : x.accepted = []) : Answered contract job frames x
      (.error (.worker ⟨.cancelled, py "request cancelled before native send", []⟩))
  | failed {error : WorkerError} (accepted : x.accepted = frames.map readBack)
      (code : error.code ∈ answerCodes) :
      Answered contract job frames x (.error (.worker error))
  | completed {result : GenerateResult F} (accepted : x.accepted = frames.map readBack)
      (request : result.requestId = job.requestId) (attempt : result.attemptId = job.attemptId)
      (output : Worker.loads (.str (deltasOf frames).flatten) = .ok result.output)
      (valid : validateOutput result.output contract = []) :
      Answered contract job frames x (.ok result)

/-- `execute` has just taken a frame of the job. -/
structure Took (dump : Value F → PyStr) (job : Job) (frames done rest : List (Frame F))
    (f : Frame F) (lines : List PyStr) (x : Execution F) (frame : Frame F) : Prop where
  all : done ++ f :: rest = frames
  frame : frame = readBack f
  behind : Behind dump job (done ++ [f]) rest lines x

/-- Where `execute` stands with the frames of the job. -/
def Reads (dump : Value F → PyStr) (contract : ContractAST) (job : Job) (frames : List (Frame F))
    (lines : List PyStr) (b : BoundedRequestEventBuffer) : RequestThread F → Prop
  | .unstarted | .entering | .starting | .sending =>
    lines = frames.map (fun frame => dump (.dict frame.items)) ∧ Expects job b 0
  | .sent x | .polling x | .receiving x =>
    ∃ done rest, done ++ rest = frames ∧ rest ≠ [] ∧ Behind dump job done rest lines x ∧
      Expects job b done.length
  | .publishing x frame event =>
    ∃ done rest f, Took dump job frames done rest f lines x frame ∧ ¬ f.IsTerminal ∧
      Expects job b done.length ∧ EventAt job event done.length
  | .stopping x frame =>
    ∃ done rest f, Took dump job frames done rest f lines x frame ∧ ¬ f.IsTerminal ∧
      Expects job b (done.length + 1)
  | .settling x frame =>
    ∃ done rest f, Took dump job frames done rest f lines x frame ∧
      (¬ f.IsTerminal → Expects job b (done.length + 1))
  | .finished x outcome recovery =>
    recovery = false ∧ Answered contract job frames x outcome ∧ (x.accepted ≠ [] → lines = [])

variable {dump : Value F → PyStr} {contract : ContractAST} {identity : Identity F}
  {frames : List (Frame F)} {lines : List PyStr} {x : Execution F} {frame : Frame F}

/-- A frame that does not end the job: the loop goes on. -/
theorem settle_plain (hjob : Complete job frames)
    (h : Took dump job frames done rest f lines x frame) (hplain : ¬ f.IsTerminal) (extra : Extra)
    (elapsed : Value F) : settle contract identity x frame extra elapsed = .next x := by
  have hmem : f ∈ frames := h.all ▸ List.mem_append_right _ List.mem_cons_self
  have htext : frame.text "type" = f.text "type" := by
    rw [h.frame, text_readBack (hjob.sent f hmem).nodup]
  have hother (k : FrameKind) (hk : k.isTerminal = true) :
      frame.text "type" ≠ some (py k.name) := by
    intro htype
    exact hplain ⟨k, hk, htext ▸ htype⟩
  have hcompleted : ¬ frame.text "type" = some (py "completed") := hother .completed rfl
  have hfailed : ¬ frame.text "type" = some (py "failed") := hother .failed rfl
  unfold settle
  rw [if_neg hcompleted, if_neg hfailed]

/-- **The frame that ends the job** answers the request; no other line is there. -/
theorem settle_terminal (hjob : Complete job frames)
    (h : Took dump job frames done rest f lines x frame) (hterminal : f.IsTerminal)
    (elapsed : Value F) : ∃ outcome, settle contract identity x frame .empty elapsed =
      .finished outcome false ∧ Answered contract job frames x outcome := by
  have hmem : f ∈ frames := h.all ▸ List.mem_append_right _ List.mem_cons_self
  have hnodup := (hjob.sent f hmem).nodup
  have hlast : done ++ [f] = frames := by
    have hall := h.all
    rw [← hall] at hjob
    rw [hjob.terminal_iff.mp hterminal] at hall
    exact hall
  have haccepted : x.accepted = frames.map readBack := by rw [h.behind.accepted, hlast]
  have hdeltas : x.finalDeltas = deltasOf frames := by rw [h.behind.deltas, hlast]
  have hraise {error : WorkerError} (hcode : error.code ∈ answerCodes) :
      ∃ outcome, (raiseInside (.worker error) : Ended F) = .finished outcome false ∧
        Answered contract job frames x outcome := by
    refine ⟨_, ?_, .failed haccepted hcode⟩
    rw [raiseInside, recovers, decide_eq_false]
    rintro hcrashed
    rw [hcrashed] at hcode
    simp [answerCodes] at hcode
  obtain ⟨k, hk, htype⟩ := hterminal
  have htext : frame.text "type" = some (py k.name) := by rw [h.frame, text_readBack hnodup, htype]
  unfold settle
  cases k with
  | completed =>
    have hfinal : frame.text "final_text" = some (deltasOf frames).flatten := by
      rw [h.frame, text_readBack hnodup, hjob.finalText f hmem htype]
    have hcompleted : frame.text "type" = some (py "completed") := htext
    rw [if_pos hcompleted, hfinal, Option.getD_some, hdeltas]
    dsimp only
    rw [if_neg (not_not_intro rfl)]
    by_cases hslow : x.slowConsumer = true
    · rw [if_pos hslow]
      exact hraise (by simp [answerCodes])
    rw [if_neg hslow]
    rcases hloads : (Worker.loads (.str (deltasOf frames).flatten) : Except WorkerError (Value F))
      with error | output
    · exact hraise (by simp [answerCodes])
    dsimp only
    rcases hvalid : validateOutput output contract with _ | ⟨first, more⟩
    · exact ⟨_, rfl, .completed haccepted h.behind.tracks.request h.behind.tracks.attempt hloads
        hvalid⟩
    · exact hraise (by simp [answerCodes])
  | failed =>
    have hfailed : frame.text "type" = some (py "failed") := htext
    have hother : ¬ frame.text "type" = some (py "completed") := by
      rw [hfailed]
      decide
    rw [if_neg hother, if_pos hfailed]
    dsimp only
    by_cases hslow : x.slowConsumer = true
    · rw [if_pos hslow]
      exact hraise (by simp [answerCodes])
    rw [if_neg hslow]
    refine hraise ?_
    dsimp only
    unfold Worker.failureCode
    split_ifs <;> simp [answerCodes]
  | _ => cases hk

/-! ### The buffer -/

omit [ComparedFloats F] in
theorem Expects.publish {b : BoundedRequestEventBuffer} {event : InferenceEvent} {n : ℕ}
    (h : Expects job b n) (hevent : EventAt job event n) :
    ∃ result b', b.publish event = (.ok result, b') ∧ Expects job b' (n + 1) := by
  obtain ⟨hrequest, hattempt, hsequence⟩ := hevent
  by_cases hclosed : b.closed = true
  · refine ⟨.CLOSED, b, ?_, h.request, h.attempt, fun hopen => ?_⟩
    · unfold BoundedRequestEventBuffer.publish
      rw [if_pos hclosed]
    · rw [hclosed] at hopen
      cases hopen
  rw [Bool.not_eq_true] at hclosed
  obtain ⟨⟨result, hresult⟩, hposition⟩ := BoundedRequestEventBuffer.publish_next
    (hrequest.trans h.request.symm) (hattempt.trans h.attempt.symm)
    (hsequence.trans (h.next hclosed).symm) hclosed
  obtain ⟨hr, ha, hn, -⟩ : (b.publish event).2.requestId = b.requestId ∧
      (b.publish event).2.attemptId = b.attemptId ∧
      (b.publish event).2.nextSequence = b.nextSequence + 1 ∧
      (b.publish event).2.closed = false := by
    simpa [BoundedRequestEventBuffer.position] using hposition
  exact ⟨result, _, Prod.ext hresult rfl, hr.trans h.request, ha.trans h.attempt,
    fun _ => hn.trans (congrArg (· + 1) (h.next hclosed))⟩

omit [ComparedFloats F] in
theorem Expects.of_position {b b' : BoundedRequestEventBuffer} {n : ℕ} (h : Expects job b n)
    (hsame : b'.position = b.position) : Expects job b' n := by
  obtain ⟨hr, ha, hn, hc⟩ : b'.requestId = b.requestId ∧ b'.attemptId = b.attemptId ∧
      b'.nextSequence = b.nextSequence ∧ b'.closed = b.closed := by
    simpa [BoundedRequestEventBuffer.position] using hsame
  exact ⟨hr.trans h.request, ha.trans h.attempt, fun hopen => hn.trans (h.next (hc ▸ hopen))⟩

omit [ComparedFloats F] in
theorem Expects.close {b : BoundedRequestEventBuffer} {n : ℕ} (h : Expects job b n) :
    Expects job b.close n := ⟨h.request, h.attempt, fun hopen => Bool.noConfusion hopen⟩

/-- What is read does not change with the buffer, if it waits for the same events. -/
theorem Reads.buffer {b b' : BoundedRequestEventBuffer} {request : RequestThread F}
    (h : Reads dump contract job frames lines b request)
    (hbuffer : ∀ n, Expects job b n → Expects job b' n) :
    Reads dump contract job frames lines b' request := by
  cases request with
  | unstarted | entering | starting | sending => exact ⟨h.1, hbuffer _ h.2⟩
  | sent x | polling x | receiving x =>
    obtain ⟨done, rest, hall, hne, hbehind, hexpects⟩ := h
    exact ⟨done, rest, hall, hne, hbehind, hbuffer _ hexpects⟩
  | publishing x frame event =>
    obtain ⟨done, rest, f, htook, hplain, hexpects, hevent⟩ := h
    exact ⟨done, rest, f, htook, hplain, hbuffer _ hexpects, hevent⟩
  | stopping x frame =>
    obtain ⟨done, rest, f, htook, hplain, hexpects⟩ := h
    exact ⟨done, rest, f, htook, hplain, hbuffer _ hexpects⟩
  | settling x frame =>
    obtain ⟨done, rest, f, htook, hexpects⟩ := h
    exact ⟨done, rest, f, htook, fun hplain => hbuffer _ (hexpects hplain)⟩
  | finished x outcome recovery => exact h

/-! ### The steps of `execute` -/

omit [ComparedFloats F] in
/-- What a living process answers. -/
theorem answer_cases (s : Piped F) (ready : Bool) (elapsed : Value F) :
    (s.answer ready elapsed).1.start = .ok () ∧ (s.answer ready elapsed).1.writes = true ∧
      (s.lines = [] → (s.answer ready elapsed).1.extra = .empty) ∧
      ((s.answer ready elapsed).1.polled = .empty true ∧ (s.answer ready elapsed).2 = s.lines ∨
        ∃ x line rest, s.stream.request = .receiving x ∧ s.lines = line :: rest ∧
          (s.answer ready elapsed).1.polled = .line line ∧ (s.answer ready elapsed).2 = rest) := by
  unfold Piped.answer
  cases ready with
  | false => exact ⟨rfl, rfl, fun _ => rfl, .inl ⟨rfl, rfl⟩⟩
  | true =>
    rw [if_pos rfl]
    rcases hlines : s.lines with _ | ⟨line, rest⟩
    · exact ⟨rfl, rfl, fun _ => rfl, .inl ⟨rfl, rfl⟩⟩
    · dsimp only
      cases hrequest : s.stream.request with
      | receiving x =>
        exact ⟨rfl, rfl, fun h => absurd h (by simp), .inr ⟨x, line, rest, rfl, rfl, rfl, rfl⟩⟩
      | _ => exact ⟨rfl, rfl, fun h => absurd h (by simp), .inl ⟨rfl, rfl⟩⟩

/-- The control frame for a cancellation is written. -/
theorem sendCancel_reads {s : Stream F} {after : Execution F → RequestThread F}
    (h : ∀ sent, Reads dump contract job frames lines s.buffer
      (after { x with cancelSent := sent })) :
    Reads dump contract job frames lines (s.sendCancel x true after).buffer
      (s.sendCancel x true after).request := by
  unfold Stream.sendCancel
  by_cases hcancel : s.record.cancelEvent ∧ ¬ x.cancelSent
  · rw [if_pos hcancel, if_pos rfl]
    exact h true
  · rw [if_neg hcancel]
    exact h x.cancelSent

/-- **One step of `execute`.** -/
theorem Reads.execute (hdump : Dumps dump)
    (hrequest : IsBoundedText job.requestId maxCorrelationIdBytes)
    (hattempt : IsBoundedText job.attemptId maxCorrelationIdBytes) (hjob : Complete job frames)
    {s : Piped F} (hids : s.stream.record.requestId = job.requestId ∧
      s.stream.record.attemptId = job.attemptId)
    (h : Reads dump contract job frames s.lines s.stream.buffer s.stream.request) (ready : Bool)
    (elapsed : Value F) :
    Reads dump contract job frames (s.answer ready elapsed).2
      (s.stream.requestStep contract identity (s.answer ready elapsed).1).buffer
      (s.stream.requestStep contract identity (s.answer ready elapsed).1).request := by
  obtain ⟨hstart, hwrites, hextra, hpolled⟩ := answer_cases s ready elapsed
  generalize s.answer ready elapsed = a at hstart hwrites hextra hpolled
  obtain ⟨a, lines⟩ := a
  dsimp only at hstart hwrites hextra hpolled ⊢
  have hlines (hother : ∀ x, s.stream.request ≠ .receiving x) : lines = s.lines := by
    rcases hpolled with ⟨-, hsame⟩ | ⟨x, -, -, hreceiving, -⟩
    · exact hsame
    · exact absurd hreceiving (hother x)
  unfold Stream.requestStep
  cases hthread : s.stream.request with
  | unstarted =>
    rw [hlines (by simp [hthread])]
    rw [hthread] at h
    dsimp only
    rw [hthread]
    exact h
  | entering =>
    rw [hlines (by simp [hthread])]
    rw [hthread] at h
    dsimp only
    split_ifs
    · exact ⟨rfl, .unsent rfl, fun hne => absurd rfl hne⟩
    · exact h
  | starting =>
    rw [hlines (by simp [hthread])]
    rw [hthread] at h
    dsimp only
    rw [hstart]
    exact h
  | sending =>
    rw [hlines (by simp [hthread])]
    rw [hthread] at h
    dsimp only
    rw [if_pos hwrites]
    -- the whole job is still to be read
    refine ⟨[], frames, rfl, ?_, ⟨h.1, rfl, rfl, ?_⟩, h.2⟩
    · rintro rfl
      obtain ⟨before, last, hnil, -⟩ := hjob.last
      simp at hnil
    · rw [hids.1, hids.2]
      exact FrameVerifier.tracks_start _ _
  | sent x =>
    rw [hlines (by simp [hthread])]
    rw [hthread] at h
    obtain ⟨done, rest, hall, hne, hbehind, hexpects⟩ := h
    dsimp only
    rw [hwrites]
    exact sendCancel_reads fun sent => ⟨done, rest, hall, hne, hbehind.cancelSent sent, hexpects⟩
  | polling x =>
    rw [hlines (by simp [hthread])]
    rw [hthread] at h
    obtain ⟨done, rest, hall, hne, hbehind, hexpects⟩ := h
    dsimp only
    rw [hwrites]
    exact sendCancel_reads fun sent => ⟨done, rest, hall, hne, hbehind.cancelSent sent, hexpects⟩
  | receiving x =>
    rw [hthread] at h
    obtain ⟨done, rest, hall, hne, hbehind, hexpects⟩ := h
    dsimp only
    rcases hpolled with ⟨hempty, hsame⟩ | ⟨x', line, later, -, hcons, hline, hlater⟩
    · rw [hempty, hsame]
      exact ⟨done, rest, hall, hne, hbehind, hexpects⟩
    · obtain ⟨f, rest, rfl⟩ := List.exists_cons_of_ne_nil hne
      rw [hline, hlater]
      have hfirst : line = dump (.dict f.items) := by
        have hsame := hbehind.lines
        rw [hcons] at hsame
        exact (List.cons.inj hsame).1
      rw [hcons, hfirst] at hbehind
      rw [hfirst]
      obtain ⟨x', hbehind', htaken⟩ :=
        takeLine_next hdump hrequest hattempt (hall.symm ▸ hjob) hbehind
      dsimp only
      generalize takeLine x (dump (.dict f.items)) = taken at htaken
      cases htaken with
      | event hplain hevent =>
        exact ⟨done, rest, f, ⟨hall, rfl, hbehind'⟩, hplain, hexpects, hevent⟩
      | plain hterminal =>
        exact ⟨done, rest, f, ⟨hall, rfl, hbehind'⟩, fun hplain => absurd hterminal hplain⟩
  | publishing x frame event =>
    rw [hlines (by simp [hthread])]
    rw [hthread] at h
    obtain ⟨done, rest, f, htook, hplain, hexpects, hevent⟩ := h
    obtain ⟨result, b, hpublish, hnext⟩ := hexpects.publish hevent
    dsimp only
    unfold Stream.publishStep
    rw [hpublish]
    dsimp only
    by_cases hslow : result = .SLOW_CONSUMER ∧ ¬ x.slowConsumer
    · rw [if_pos hslow]
      refine ⟨done, rest, f, ⟨htook.all, htook.frame, ?_⟩, hplain, hnext⟩
      exact ⟨htook.behind.lines, htook.behind.accepted, htook.behind.deltas, htook.behind.tracks⟩
    · rw [if_neg hslow]
      exact ⟨done, rest, f, htook, fun _ => hnext⟩
  | stopping x frame =>
    rw [hlines (by simp [hthread])]
    rw [hthread] at h
    obtain ⟨done, rest, f, htook, hplain, hexpects⟩ := h
    dsimp only
    rw [hwrites]
    exact sendCancel_reads fun sent =>
      ⟨done, rest, f, ⟨htook.all, htook.frame, htook.behind.cancelSent sent⟩, fun _ => hexpects⟩
  | settling x frame =>
    rw [hlines (by simp [hthread])]
    rw [hthread] at h
    obtain ⟨done, rest, f, htook, hexpects⟩ := h
    have hall := htook.all
    rw [← hall] at hjob
    dsimp only
    by_cases hterminal : f.IsTerminal
    · have hnil : s.lines = [] := by
        rw [htook.behind.lines, hjob.terminal_iff.mp hterminal, List.map_nil]
      rw [hall] at hjob
      obtain ⟨outcome, hsettle, hanswered⟩ : ∃ outcome,
          settle contract identity x frame .empty a.elapsed = .finished outcome false ∧
            Answered contract job frames x outcome :=
        settle_terminal hjob htook hterminal a.elapsed
      rw [hextra hnil, hsettle]
      exact ⟨rfl, hanswered, fun _ => hnil⟩
    · have hmore : rest ≠ [] := fun hnil => hterminal (hjob.terminal_iff.mpr hnil)
      rw [hall] at hjob
      rw [settle_plain hjob htook hterminal]
      refine ⟨done ++ [f], rest, ?_, hmore, htook.behind, ?_⟩
      · rw [← hall, List.append_assoc, List.singleton_append]
      · rw [List.length_append, List.length_singleton]
        exact hexpects hterminal
  | finished x outcome recovery =>
    rw [hlines (by simp [hthread])]
    rw [hthread] at h
    dsimp only
    rw [hthread]
    exact h

/-! ### The steps of the others -/

/-- What a step of another thread does to what `execute` reads. -/
structure Aside (s s' : Stream F) : Prop where
  ids : s'.record.requestId = s.record.requestId ∧ s'.record.attemptId = s.record.attemptId
  buffer : s'.buffer.position = s.buffer.position ∨ s'.buffer = s.buffer.close
  request : s'.request = s.request ∨ s.request = .unstarted ∧ s'.request = .entering

omit [ComparedFloats F] in
theorem compareAndTransition_ids (record : RequestRecord (GenerateResult F))
    (expected target : Lifecycle) (predicate : Except PyException Bool)
    (result : Option (GenerateResult F)) (error : Option RecordError)
    (clock : Except PyException ℚ) :
    let record' := (record.compareAndTransition expected target predicate result error clock).2
    record'.requestId = record.requestId ∧ record'.attemptId = record.attemptId := by
  unfold RequestRecord.compareAndTransition RequestRecord.transitionLocked
  dsimp only
  cases clock <;> rcases predicate with exc | _ | _ <;> split_ifs <;> exact ⟨rfl, rfl⟩

omit [ComparedFloats F] in
theorem cancel_ids (record : RequestRecord (GenerateResult F)) (now : ℚ) :
    let record' := (record.cancel (.ok now)).2
    record'.requestId = record.requestId ∧ record'.attemptId = record.attemptId := by
  unfold RequestRecord.cancel RequestRecord.transitionLocked
  dsimp only
  split_ifs <;> exact ⟨rfl, rfl⟩

omit [ComparedFloats F] in
theorem dispatcherStep_aside {s : Stream F} (h : s.dispatcher = .pending → s.request = .unstarted)
    (answer : DispatcherAnswer) : Aside s (s.dispatcherStep answer) := by
  unfold Stream.dispatcherStep
  cases hd : s.dispatcher with
  | pending =>
    have hids := compareAndTransition_ids s.record .QUEUED .RUNNING
      (.ok (decide (answer.now < s.record.queueDeadline))) none none (.ok answer.now)
    dsimp only at hids ⊢
    generalize s.record.compareAndTransition .QUEUED .RUNNING _ none none _ = moved at hids
    rcases moved with ⟨exc | _ | _, record⟩
    · exact ⟨hids, .inl rfl, .inl rfl⟩
    · exact ⟨hids, .inl rfl, .inl rfl⟩
    · exact ⟨hids, .inl rfl, .inr ⟨h hd, rfl⟩⟩
  | expiring => exact ⟨compareAndTransition_ids .., .inl rfl, .inl rfl⟩
  | watching =>
    dsimp only
    cases hr : s.request with
    | finished _ _ _ => exact ⟨⟨rfl, rfl⟩, .inl rfl, .inl hr.symm⟩
    | _ =>
      dsimp only
      split_ifs
      · exact ⟨⟨rfl, rfl⟩, .inl rfl, .inl hr.symm⟩
      · exact ⟨⟨rfl, rfl⟩, .inl rfl, .inl rfl⟩
  | left =>
    dsimp only
    split_ifs
    · exact ⟨⟨rfl, rfl⟩, .inl rfl, .inl rfl⟩
    · exact ⟨⟨rfl, rfl⟩, .inl rfl, .inl rfl⟩
  | deciding =>
    dsimp only
    cases hr : s.request with
    | finished _ _ _ => exact ⟨⟨rfl, rfl⟩, .inl rfl, .inl hr.symm⟩
    | _ => exact ⟨⟨rfl, rfl⟩, .inl rfl, .inl hr.symm⟩
  | timingOut => exact ⟨compareAndTransition_ids .., .inl rfl, .inl rfl⟩
  | ending target result error => exact ⟨compareAndTransition_ids .., .inl rfl, .inl rfl⟩
  | closing => exact ⟨⟨rfl, rfl⟩, .inr rfl, .inl rfl⟩
  | done => exact ⟨⟨rfl, rfl⟩, .inl rfl, .inl rfl⟩

omit [ComparedFloats F] in
theorem handlerStep_aside (s : Stream F) (answer : HandlerAnswer) :
    Aside s (s.handlerStep answer) := by
  unfold Stream.handlerStep
  cases hh : s.handler with
  | getting =>
    have hposition := s.buffer.get_position (some (1 / 50)) answer.elapsed
    dsimp only at hposition ⊢
    generalize s.buffer.get (some (1 / 50)) answer.elapsed = got at hposition
    rcases got with ⟨e | _ | _ | event, buffer⟩
    · exact ⟨⟨rfl, rfl⟩, .inl rfl, .inl rfl⟩
    · exact ⟨⟨rfl, rfl⟩, .inl rfl, .inl rfl⟩
    · exact ⟨⟨rfl, rfl⟩, .inl rfl, .inl rfl⟩
    · exact ⟨⟨rfl, rfl⟩, .inl hposition, .inl rfl⟩
  | writing rest last =>
    cases rest with
    | nil => exact ⟨⟨rfl, rfl⟩, .inl rfl, .inl rfl⟩
    | cons event rest =>
      dsimp only
      split_ifs
      · exact ⟨⟨rfl, rfl⟩, .inl rfl, .inl rfl⟩
      · exact ⟨⟨rfl, rfl⟩, .inl rfl, .inl rfl⟩
  | _ => exact ⟨⟨rfl, rfl⟩, .inl rfl, .inl rfl⟩

theorem step_aside {s : Stream F} (h : s.dispatcher = .pending → s.request = .unstarted)
    {action : Action F} (houtward : Outward action) :
    Aside s (s.step contract identity action) := by
  cases action with
  | request answer => exact absurd rfl (houtward answer)
  | dispatcher answer => exact dispatcherStep_aside h answer
  | handler answer => exact handlerStep_aside s answer
  | cancel now => exact ⟨cancel_ids s.record now, .inl rfl, .inl rfl⟩
  | cancelEvent => exact ⟨⟨rfl, rfl⟩, .inl rfl, .inl rfl⟩
  | expire now => exact ⟨compareAndTransition_ids .., .inl rfl, .inl rfl⟩
  | shutdown now => exact ⟨compareAndTransition_ids .., .inl rfl, .inl rfl⟩
  | closeTerminal =>
    unfold Stream.step
    dsimp only
    split_ifs
    · exact ⟨⟨rfl, rfl⟩, .inr rfl, .inl rfl⟩
    · exact ⟨⟨rfl, rfl⟩, .inl rfl, .inl rfl⟩

theorem Reads.aside {s s' : Stream F} (hmoved : Aside s s')
    (h : Reads dump contract job frames lines s.buffer s.request) :
    Reads dump contract job frames lines s'.buffer s'.request := by
  have hbuffer : Reads dump contract job frames lines s'.buffer s.request := by
    refine h.buffer fun n hn => ?_
    rcases hmoved.buffer with hsame | hclose
    · exact hn.of_position hsame
    · exact hclose ▸ hn.close
  rcases hmoved.request with hsame | ⟨hbefore, hafter⟩
  · rwa [hsame]
  · rw [hbefore] at hbuffer
    rw [hafter]
    exact hbuffer

/-! ### Runs -/

/-- What holds of the stream of a job in every interleaving. -/
structure Followed (dump : Value F → PyStr) (contract : ContractAST) (job : Job)
    (frames : List (Frame F)) (s : Piped F) : Prop where
  flowing : Stream.Flowing contract s.stream
  ids : s.stream.record.requestId = job.requestId ∧ s.stream.record.attemptId = job.attemptId
  reads : Reads dump contract job frames s.lines s.stream.buffer s.stream.request

theorem Followed.step (hdump : Dumps dump)
    (hrequest : IsBoundedText job.requestId maxCorrelationIdBytes)
    (hattempt : IsBoundedText job.attemptId maxCorrelationIdBytes) (hjob : Complete job frames)
    {s : Piped F} (h : Followed dump contract job frames s) (move : Piped.Move F) :
    Followed dump contract job frames (s.step contract identity move) := by
  cases move with
  | execute ready elapsed =>
    have hmoved : Stream.RequestMoved contract s.stream
        (s.stream.requestStep contract identity (s.answer ready elapsed).1) :=
      Stream.requestStep_moved h.flowing.carries _
    refine ⟨h.flowing.request _, ?_,
      h.reads.execute hdump hrequest hattempt hjob h.ids ready elapsed⟩
    show (s.stream.requestStep contract identity _).record.requestId = _ ∧
      (s.stream.requestStep contract identity _).record.attemptId = _
    rw [hmoved.others]
    exact h.ids
  | others action houtward =>
    have hfresh : s.stream.dispatcher = .pending → s.stream.request = .unstarted := by
      intro hpending
      have hwatches := h.flowing.watches
      rw [hpending] at hwatches
      exact hwatches.1
    have hmoved : Aside s.stream (s.stream.step contract identity action) :=
      step_aside hfresh houtward
    exact ⟨h.flowing.step action, ⟨hmoved.ids.1.trans h.ids.1, hmoved.ids.2.trans h.ids.2⟩,
      h.reads.aside hmoved⟩

theorem Followed.run (hdump : Dumps dump)
    (hrequest : IsBoundedText job.requestId maxCorrelationIdBytes)
    (hattempt : IsBoundedText job.attemptId maxCorrelationIdBytes) (hjob : Complete job frames)
    {s : Piped F} (h : Followed dump contract job frames s) (moves : List (Piped.Move F)) :
    Followed dump contract job frames (s.run contract identity moves) := by
  induction moves generalizing s with
  | nil => exact h
  | cons move rest ih => exact ih (h.step hdump hrequest hattempt hjob move)

theorem start_followed (frames : List (Frame F)) (maxEvents maxBytes : ℕ)
    (queueDeadline executionTimeout : ℚ) : Followed dump contract job frames
      (.start dump job frames maxEvents maxBytes queueDeadline executionTimeout) :=
  ⟨Stream.start_flowing .., ⟨rfl, rfl⟩, rfl, rfl, rfl, fun _ => rfl⟩

end

/-- **A job of a living worker is answered, and the worker is kept**: however the threads of a
streamed request interleave, and whatever llama.cpp does, `execute` never recovers the process.  It
ends before the job is sent, or with all of its frames: then no line of the job is left for the
next request, and the answer is the text of the deltas, where that is strict JSON within the
contract, or an error of a known code. -/
theorem job_answered {F : Type} [ComparedFloats F] {dump : Value F → PyStr} (hdump : Dumps dump)
    (contract : ContractAST) (identity : Identity F) (model : Model) (job : Job)
    (outside : Outside F) (hrequest : IsBoundedText job.requestId maxCorrelationIdBytes)
    (hattempt : IsBoundedText job.attemptId maxCorrelationIdBytes) (maxEvents maxBytes : ℕ)
    (queueDeadline executionTimeout : ℚ) (moves : List (Piped.Move F)) :
    let frames := (serve model job outside).frames
    let s := (Piped.start dump job frames maxEvents maxBytes queueDeadline executionTimeout).run
      contract identity moves
    ∀ x outcome recovery, s.stream.request = .finished x outcome recovery →
      recovery = false ∧ Answered contract job frames x outcome ∧
        (x.accepted ≠ [] → s.lines = []) := by
  intro frames s x outcome recovery hfinished
  have hstart : Followed dump contract job frames
      (.start dump job frames maxEvents maxBytes queueDeadline executionTimeout) :=
    start_followed ..
  have hfollowed : Followed dump contract job frames s :=
    hstart.run hdump hrequest hattempt (serve_complete model job outside) moves
  have hreads := hfollowed.reads
  rw [hfinished] at hreads
  exact hreads

/-! ### A job that answers with a flag -/

def flagText : PyStr := py "\x7b\"a\":true\x7d"

/-- The two halves of the text are the pieces of two tokens. -/
def flagModel : Model :=
  { sampleModel with
    piece := fun token =>
      if token = 3 then (flagText.take 4).flatMap CodePoint.utf8Bytes
      else if token = 4 then (flagText.drop 4).flatMap CodePoint.utf8Bytes
      else [] }

/-- No second passes. -/
def flagOutside : Outside NoFloat :=
  { sampleOutside with
    prompt := .ok [5]
    passes := fun k => { token := .ok (sampleTokens k), now := 0 }
    clean := fun message h => by simp [sampleOutside] at h }

/-- The thread of the request runs to its end, and the client cancels when it is too late. -/
def flagMoves : List (Piped.Move NoFloat) :=
  .others (.dispatcher {}) (fun _ h => by cases h) ::
    List.replicate 28 (.execute true (.int 0)) ++ [.others .cancelEvent fun _ h => by cases h]

def flagRun : Piped NoFloat :=
  (Piped.start Json.dumps sampleJob (serve flagModel sampleJob flagOutside).frames 8 10000 1 1).run
    Stream.sampleContract [] flagMoves

theorem bounded_sampleText : IsBoundedText (py "a1") maxCorrelationIdBytes := by decide +kernel

theorem job_answered_flag : Stream.finalText flagRun.stream = some flagText ∧
    ∃ x outcome, flagRun.stream.request = .finished x outcome false ∧ flagRun.lines = [] ∧
      Answered Stream.sampleContract sampleJob (serve flagModel sampleJob flagOutside).frames x
        outcome := by
  have hfinal : Stream.finalText flagRun.stream = some flagText := by decide +kernel
  refine ⟨hfinal, ?_⟩
  unfold flagRun at hfinal ⊢
  have hanswered := job_answered dumps_dumps Stream.sampleContract [] flagModel sampleJob
    flagOutside bounded_sampleText bounded_sampleText 8 10000 1 1 flagMoves
  unfold Stream.finalText at hfinal
  split at hfinal
  · next x outcome recovery hrequest =>
    obtain ⟨rfl, hx, hlines⟩ := hanswered x outcome recovery hrequest
    refine ⟨x, outcome, hrequest, hlines ?_, hx⟩
    intro hnil
    rw [hnil] at hfinal
    simp at hfinal
  · simp at hfinal

end ModelWorker
