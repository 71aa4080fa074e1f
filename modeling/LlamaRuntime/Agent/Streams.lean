/-
The stream of a run, and what an append of one event does to it.

* `Consistent` — the rows of a database are those of committed events, and no
  connection sees other rows;
* `Database.stream`, `Database.runState` — what `load` reads, and its replay;
* `append_one` — the append changes no stream, or it puts the event behind the
  stream of its run;
* `proposals_apart` — no invocation is proposed in two runs.
-/
import LlamaRuntime.Agent.Lifecycles
import LlamaRuntime.Agent.StreamIntegrity

open Json

namespace Agent

variable {F : Type} [Host F]

structure Consistent (db : Database F) : Prop where
  represented : ∃ log, Represents log db
  seen : ∀ connection, db.view connection = db.rows

def Database.stream (db : Database F) (runId : PyStr) : Except Raised (List (AgentEvent F)) :=
  loadFrom db.rows runId

def Database.runState (db : Database F) (runId : PyStr) : Except Raised (AgentRunState F) :=
  db.stream runId >>= replay runId

/-- An event as it is read back behind `n` others. -/
def AgentEvent.readBack (event : AgentEvent F) (n : ℕ) : AgentEvent F :=
  event.normal.withSequence (n + 1) (Nat.succ_pos n)

@[simp] theorem AgentEvent.readBack_eventKind (event : AgentEvent F) (n : ℕ) :
    (event.readBack n).eventKind = event.eventKind := rfl

@[simp] theorem AgentEvent.readBack_payload (event : AgentEvent F) (n : ℕ) :
    (event.readBack n).payload = event.payload.normal := rfl

theorem Consistent.load_eq {db : Database F} (h : Consistent db) (connection : Connection)
    (runId : PyStr) : db.load connection runId = db.stream runId := by
  rw [Database.load, h.seen, Database.stream]

theorem runState_ok {db : Database F} {runId : PyStr} {s : AgentRunState F} :
    db.runState runId = .ok s ↔
      ∃ events, db.stream runId = .ok events ∧ replay runId events = .ok s := bind_ok

/-- The stream of a run, from the committed calls. -/
theorem Represents.stream_eq {log : List (Call F)} {db : Database F} (h : Represents log db)
    {runId : PyStr} {events : List (AgentEvent F)} (hstream : db.stream runId = .ok events) :
    IsIdentifier runId ∧ events = numbered 0 ((history log runId).map AgentEvent.normal) := by
  obtain ⟨_, hid, -⟩ := bind_ok.mp hstream
  have hid := validateIdentifier_ok.mp hid
  exact ⟨hid, Except.ok.inj (hstream.symm.trans (h.loadFrom_eq hid))⟩

theorem Represents.length_stream {log : List (Call F)} {db : Database F} (h : Represents log db)
    {runId : PyStr} {events : List (AgentEvent F)} (hstream : db.stream runId = .ok events) :
    events.length = (history log runId).length := by
  rw [(h.stream_eq hstream).2, length_numbered, List.length_map]

/-! ### One append -/

/-- What an append of one event can do. -/
inductive AppendedOne (db : Database F) (call : Call F) (event : AgentEvent F) :
    Except Raised ℕ → Database F → Prop
  | unchanged {e : Raised} {db' : Database F} (rows : db'.rows = db.rows)
      (consistent : Consistent db') : AppendedOne db call event (.error e) db'
  | added {db' : Database F} {events : List (AgentEvent F)} {s : AgentRunState F} {n : ℕ}
      (before : db.stream call.runId = .ok events)
      (version : call.expectedVersion = events.length)
      (after : db'.stream call.runId = .ok (events ++ [event.readBack events.length]))
      (replayed : replay call.runId (events ++ [event.readBack events.length]) = .ok s)
      (others : ∀ runId, runId ≠ call.runId → db'.stream runId = db.stream runId)
      (consistent : Consistent db') : AppendedOne db call event (.ok n) db'

/-- A transaction of one row that fails has changed no row. -/
theorem inTransaction_error {view view' : List (Row F)} {call : Call F} {row : Row F} {e : Raised}
    (h : inTransaction view call [row] = (.error e, view')) : view' = view := by
  unfold inTransaction at h
  split at h
  · exact (Prod.mk.inj h).2.symm
  · rw [insertAll] at h
    split_ifs at h
    · exact (Prod.mk.inj h).2.symm
    · exact (Prod.mk.inj h).2.symm
    · exact absurd (Prod.mk.inj h).1 (by simp)

theorem history_concat (log : List (Call F)) (call : Call F) (runId : PyStr) :
    history (log ++ [call]) runId
      = history log runId ++ if call.runId = runId then call.events else [] := by
  rw [history_append, history_singleton]

theorem append_one {db : Database F} (h : Consistent db) {call : Call F} {event : AgentEvent F}
    (hcall : call.events = [event]) :
    AppendedOne db call event (append db call).1 (append db call).2 := by
  obtain ⟨log, hlog⟩ := h.represented
  have hspec := append_spec db call
  revert hspec
  generalize (append db call).1 = outcome
  generalize (append db call).2 = db'
  intro hspec
  cases hspec with
  | refused e => exact .unchanged rfl h
  | @leaked rows view e idle lock prepared attempt uncaught =>
    obtain ⟨-, -, -, hrows⟩ := prepare_ok prepared
    rw [hcall] at hrows
    obtain ⟨row, rest, -, hrest, rfl⟩ := rowsOf_cons.mp hrows
    obtain rfl := Except.ok.inj hrest
    obtain rfl := inTransaction_error attempt
    refine .unchanged rfl ⟨⟨log, hlog.rows, hlog.all, hlog.apart, hlog.replays, hlog.identifiers,
      hlog.versions, hlog.below⟩, fun connection => ?_⟩
    show (if call.connection = connection then db.rows else db.rows) = db.rows
    exact ite_self _
  | @committed rows view idle prepared checked inserted =>
    obtain ⟨hid, -, -, -⟩ := prepare_ok prepared
    obtain ⟨hversion, -⟩ := hlog.checked hid checked
    have hlog' := hlog.commit prepared checked inserted
    have hbefore : db.stream call.runId
        = .ok (numbered 0 ((history log call.runId).map AgentEvent.normal)) := hlog.loadFrom_eq hid
    have hlength := hlog.length_stream hbefore
    have hafter : Database.stream ⟨view, none⟩ call.runId
        = .ok (numbered 0 ((history (log ++ [call]) call.runId).map AgentEvent.normal)) :=
      hlog'.loadFrom_eq hid
    have hnew : numbered 0 ((history (log ++ [call]) call.runId).map AgentEvent.normal)
        = numbered 0 ((history log call.runId).map AgentEvent.normal)
          ++ [event.readBack (numbered 0 ((history log call.runId).map
            AgentEvent.normal)).length] := by
      rw [history_concat, if_pos rfl, hcall, List.map_append, numbered_append]
      simp [numbered, AgentEvent.readBack]
    have hne : history (log ++ [call]) call.runId ≠ [] := by
      rw [history_concat, if_pos rfl, hcall]
      simp
    obtain ⟨s, hs⟩ := hlog'.replays call.runId hne
    rw [hnew] at hafter hs
    refine .added hbefore (by rw [hlength, hversion]) hafter hs (fun runId hrun => ?_)
      ⟨⟨_, hlog'⟩, fun _ => rfl⟩
    -- the new row belongs to another run
    by_cases hid' : IsIdentifier runId
    · show loadFrom view runId = loadFrom db.rows runId
      rw [hlog'.loadFrom_eq hid', hlog.loadFrom_eq hid', history_concat, if_neg (Ne.symm hrun),
        List.append_nil]
    · have hrefused : ∀ view : List (Row F), ∃ e, validateIdentifier runId "run_id" = .error e ∧
          loadFrom view runId = .error e := by
        intro view
        cases hv : validateIdentifier runId "run_id" with
        | ok => exact absurd (validateIdentifier_ok.mp hv) hid'
        | error e =>
          refine ⟨e, rfl, ?_⟩
          rw [loadFrom, hv]
          rfl
      obtain ⟨e, he, hview⟩ := hrefused view
      obtain ⟨e', he', hrows⟩ := hrefused db.rows
      obtain rfl := Except.error.inj (he.symm.trans he')
      exact hview.trans hrows.symm

/-! ### Proposals -/

/-- The events that a stream reads back, in one of the committed calls of its run. -/
theorem Represents.mem_stream {log : List (Call F)} {db : Database F} (h : Represents log db)
    {runId : PyStr} {events : List (AgentEvent F)} (hstream : db.stream runId = .ok events)
    {e : AgentEvent F} (he : e ∈ events) :
    ∃ call ∈ log, call.runId = runId ∧ ∃ e' ∈ call.events,
      e'.eventKind = e.eventKind ∧ e.payload = e'.payload.normal := by
  rw [(h.stream_eq hstream).2] at he
  have hnumbered : ∀ (v : ℕ) (l : List (AgentEvent F)), e ∈ numbered v l →
      ∃ e' ∈ l, e'.eventKind = e.eventKind ∧ e.payload = e'.payload := by
    intro v l
    induction l generalizing v with
    | nil => exact fun h => absurd h List.not_mem_nil
    | cons a l ih =>
      intro h
      rcases List.mem_cons.mp h with rfl | h
      · exact ⟨a, List.mem_cons_self, rfl, rfl⟩
      · obtain ⟨e', he', hkind, hpayload⟩ := ih _ h
        exact ⟨e', List.mem_cons_of_mem a he', hkind, hpayload⟩
  obtain ⟨n, hn, hkind, hpayload⟩ := hnumbered _ _ he
  obtain ⟨e', he', rfl⟩ := List.mem_map.mp hn
  obtain ⟨call, hcall, hmem⟩ := List.mem_flatMap.mp he'
  obtain ⟨hcall, hrun⟩ := List.mem_filter.mp hcall
  exact ⟨call, hcall, of_decide_eq_true hrun, e', hmem, hkind, hpayload⟩

/-- **No invocation is proposed in two runs.** -/
theorem proposals_apart {db : Database F} (h : Consistent db) {runId runId' : PyStr}
    {events events' : List (AgentEvent F)} (hstream : db.stream runId = .ok events)
    (hstream' : db.stream runId' = .ok events') {id : PyStr}
    (hid : id ∈ namedIn .toolProposed events) (hid' : id ∈ namedIn .toolProposed events') :
    runId = runId' := by
  by_contra hrun
  obtain ⟨log, hlog⟩ := h.represented
  -- an event that proposes the invocation claims it
  have hclaim : ∀ {runId events}, db.stream runId = .ok events →
      id ∈ namedIn .toolProposed events → ∃ call ∈ log, call.runId = runId ∧
        ∃ e ∈ call.events, claimOf (.toolProposed, "invocation_id") e = some (.str id) := by
    intro runId events hstream hid
    obtain ⟨e, he, hname⟩ := List.mem_filterMap.mp hid
    obtain ⟨call, hcall, hrun, e', he', hkind, hpayload⟩ := hlog.mem_stream hstream he
    unfold named at hname
    split_ifs at hname with hproposed
    refine ⟨call, hcall, hrun, e', he', claimOf_eq_some.mpr ⟨hkind.trans hproposed, ?_, by simp⟩⟩
    obtain ⟨items, hitems⟩ := Option.isSome_iff_exists.mp
      (hlog.claims call.runId e' (mem_history hcall he')).dict
    have hitems := Value.dict?_eq_some.mp hitems
    rw [AgentEvent.field_eq hitems, ← field_normal (AgentEvent.nodup_keys hitems),
      ← AgentEvent.field_eq (e := e) (by rw [hpayload, hitems, Value.normal_dict])]
    exact Value.str?_eq_some.mp hname
  obtain ⟨call, hcall, rfl, e, he, hce⟩ := hclaim hstream hid
  obtain ⟨call', hcall', rfl, e', he', hce'⟩ := hclaim hstream' hid'
  have hapart := (List.pairwise_flatMap.mp hlog.claims_unique).2
  have hne : call ≠ call' := fun heq => hrun (heq ▸ rfl)
  -- one of the two calls comes first
  obtain ⟨i, hi, rfl⟩ := List.getElem_of_mem hcall
  obtain ⟨j, hj, rfl⟩ := List.getElem_of_mem hcall'
  rcases Nat.lt_trichotomy i j with hij | rfl | hij
  · exact (List.pairwise_iff_getElem.mp hapart i j hi hj hij e he e' he').2
      (.toolProposed, "invocation_id") (by decide) _ hce hce'
  · exact hne rfl
  · exact (List.pairwise_iff_getElem.mp hapart j i hj hi hij e' he' e he).2
      (.toolProposed, "invocation_id") (by decide) _ hce' hce

end Agent
