/-
What the statements of the event store do to its rows.

* `rowsOf_append`, `loadRows_rowsOf` — the rows of a stream, and the stream read
  back from them;
* `insertAll_eq` — when all rows of a call go in, when one is refused, and when
  one cannot be bound;
* `append_spec` — an append is refused, or it commits all of its rows, or it
  ends in an exception that leaves its transaction open.
-/
import LlamaRuntime.Agent.EventStore
import LlamaRuntime.Agent.ReplayNormal

open Json

namespace Agent

variable {F : Type} [Host F]

/-! ### The rows of a stream -/

@[simp] theorem length_numbered (v : ℕ) (events : List (AgentEvent F)) :
    (numbered v events).length = events.length := by
  induction events generalizing v with
  | nil => rfl
  | cons e rest ih => rw [numbered, List.length_cons, List.length_cons, ih]

theorem numbered_append (v : ℕ) (pre post : List (AgentEvent F)) :
    numbered v (pre ++ post) = numbered v pre ++ numbered (v + pre.length) post := by
  induction pre generalizing v with
  | nil => rfl
  | cons e pre ih =>
    have hlen : v + (e :: pre).length = v + 1 + pre.length := by
      rw [List.length_cons]
      omega
    rw [List.cons_append, numbered, numbered, ih, hlen, List.cons_append]

theorem map_normal_numbered (v : ℕ) (events : List (AgentEvent F)) :
    (numbered v events).map AgentEvent.normal = numbered v (events.map AgentEvent.normal) := by
  induction events generalizing v with
  | nil => rfl
  | cons e rest ih =>
    rw [numbered, List.map_cons, List.map_cons, numbered, ih]
    rfl

variable {runId : PyStr} {v n : ℕ} {e : AgentEvent F} {events : List (AgentEvent F)}
  {row : Row F} {rows view : List (Row F)}

/-- What `rowOf` computed, by fields. -/
structure RowOf (runId : PyStr) (n : ℕ) (e : AgentEvent F) (row : Row F) : Prop where
  runId_eq : row.runId = runId
  sequence_eq : row.sequence = n
  eventId_eq : row.eventId = e.eventId
  version_eq : row.eventVersion = eventSchemaVersion
  kind_eq : row.eventKind = e.eventKind.value
  utc_eq : row.occurredAtUtc = e.occurredAtUtc
  json_eq : row.payloadJson = dumps e.payload
  digest_eq : payloadDigest row.payloadJson = .ok row.payloadSha256
  action_eq : columnOf e "action_id" [.toolProposed] = .ok row.actionId
  invocation_eq : columnOf e "invocation_id" [.toolProposed, .toolTransition]
    = .ok row.invocationId
  claim_eq : columnOf e "claim_id" [.budgetConsumed] = .ok row.budgetClaimId
  key_eq : row.idempotencyKey =
    (Items.lookup (py "idempotency_key") (e.payload.dict?.getD [])).bind Host.indexKey

theorem rowOf_ok (h : rowOf runId n e = .ok row) : RowOf runId n e row := by
  obtain ⟨json, hjson, h⟩ := bind_ok.mp h
  obtain ⟨digest, hdigest, h⟩ := bind_ok.mp h
  obtain ⟨action, haction, h⟩ := bind_ok.mp h
  obtain ⟨invocation, hinvocation, h⟩ := bind_ok.mp h
  obtain ⟨claim, hclaim, h⟩ := bind_ok.mp h
  obtain rfl := Except.ok.inj h
  have hdumps : json = dumps e.payload :=
    (Except.ok.inj ((canonicalJson_of_writable e.payload_ok).symm.trans hjson)).symm
  exact ⟨rfl, rfl, rfl, rfl, rfl, rfl, hdumps, hdigest, haction, hinvocation, hclaim, rfl⟩

theorem rowsOf_cons {rest : List (AgentEvent F)} :
    rowsOf runId v (e :: rest) = .ok rows ↔
      ∃ row rows', rowOf runId (v + 1) e = .ok row ∧ rowsOf runId (v + 1) rest = .ok rows' ∧
        rows = row :: rows' := by
  constructor
  · intro h
    obtain ⟨row, hrow, h⟩ := bind_ok.mp h
    obtain ⟨rows', hrows', h⟩ := bind_ok.mp h
    exact ⟨row, rows', hrow, hrows', (Except.ok.inj h).symm⟩
  · rintro ⟨row, rows', hrow, hrows', rfl⟩
    exact bind_ok.mpr ⟨row, hrow, bind_ok.mpr ⟨rows', hrows', rfl⟩⟩

theorem rowsOf_append {pre post : List (AgentEvent F)} {first second : List (Row F)}
    (hfirst : rowsOf runId v pre = .ok first)
    (hsecond : rowsOf runId (v + pre.length) post = .ok second) :
    rowsOf runId v (pre ++ post) = .ok (first ++ second) := by
  induction pre generalizing v first with
  | nil =>
    obtain rfl := Except.ok.inj hfirst
    exact hsecond
  | cons e pre ih =>
    obtain ⟨row, rows', hrow, hrows', rfl⟩ := rowsOf_cons.mp hfirst
    have hlen : v + (e :: pre).length = v + 1 + pre.length := by
      rw [List.length_cons]
      omega
    rw [hlen] at hsecond
    exact rowsOf_cons.mpr ⟨row, rows' ++ second, hrow, ih hrows' hsecond, rfl⟩

/-- The rows of a stream stand one to one with its events. -/
theorem forall₂_rowsOf (h : rowsOf runId v events = .ok rows) :
    List.Forall₂ (fun e row => ∃ n, RowOf runId n e row) events rows := by
  induction events generalizing v rows with
  | nil =>
    obtain rfl := Except.ok.inj h
    exact .nil
  | cons e rest ih =>
    obtain ⟨row, rows', hrow, hrows', rfl⟩ := rowsOf_cons.mp h
    exact .cons ⟨_, rowOf_ok hrow⟩ (ih hrows')

theorem runId_of_mem_rowsOf (h : rowsOf runId v events = .ok rows) :
    ∀ row ∈ rows, row.runId = runId := by
  induction events generalizing v rows with
  | nil =>
    obtain rfl := Except.ok.inj h
    exact fun _ hmem => absurd hmem List.not_mem_nil
  | cons e rest ih =>
    obtain ⟨row, rows', hrow, hrows', rfl⟩ := rowsOf_cons.mp h
    exact List.forall_mem_cons.mpr ⟨(rowOf_ok hrow).runId_eq, ih hrows'⟩

/-- The sequence numbers of the rows of a stream. -/
theorem sequence_rowsOf (h : rowsOf runId v events = .ok rows) :
    rows.map Row.sequence = List.range' (v + 1) events.length := by
  induction events generalizing v rows with
  | nil =>
    obtain rfl := Except.ok.inj h
    rfl
  | cons e rest ih =>
    obtain ⟨row, rows', hrow, hrows', rfl⟩ := rowsOf_cons.mp h
    rw [List.map_cons, (rowOf_ok hrow).sequence_eq, ih hrows', List.length_cons, List.range'_succ]

/-! ### Reading rows back -/

/-- A row of an event whose payload is an object gives the event, in normal form. -/
theorem eventOfRow_rowOf (h : RowOf runId n e row) (hn : 0 < n)
    (hdict : e.payload.dict?.isSome = true) :
    eventOfRow row = .ok (e.normal.withSequence n hn) := by
  have hparse : parseCanonicalPayload row.payloadJson = .ok e.payload.normal :=
    h.json_eq ▸ parseCanonicalPayload_dumps e.payload_ok hdict
  have hmake := AgentEvent.make_fields (e.normal.withSequence n hn)
  unfold eventOfRow
  dsimp only
  split
  · next err herr =>
    rw [hparse] at herr
    exact absurd herr (by simp)
  · next payload hpayload =>
    obtain rfl := Except.ok.inj (hparse.symm.trans hpayload)
    rw [h.eventId_eq, h.kind_eq, h.utc_eq, h.version_eq, h.sequence_eq]
    exact hmake

theorem loadRow_rowOf (h : RowOf runId n e row) (hn : 0 < n)
    (hdict : e.payload.dict?.isSome = true) :
    loadRow n row = .ok (e.normal.withSequence n hn) := by
  rw [loadRow, if_neg (not_not.mpr h.sequence_eq), h.digest_eq]
  show (if row.payloadSha256 ≠ row.payloadSha256 then _ else _) = _
  rw [if_neg (not_not.mpr rfl), if_neg (not_not.mpr h.version_eq), eventOfRow_rowOf h hn hdict]
  rfl

theorem loadRows_rowsOf (h : rowsOf runId v events = .ok rows)
    (hdict : ∀ e ∈ events, e.payload.dict?.isSome = true) :
    loadRows (v + 1) rows = .ok (numbered v (events.map AgentEvent.normal)) := by
  induction events generalizing v rows with
  | nil =>
    obtain rfl := Except.ok.inj h
    rfl
  | cons e rest ih =>
    obtain ⟨row, rows', hrow, hrows', rfl⟩ := rowsOf_cons.mp h
    obtain ⟨hhead, htail⟩ := List.forall_mem_cons.mp hdict
    refine bind_ok.mpr ⟨_, loadRow_rowOf (rowOf_ok hrow) (Nat.succ_pos v) hhead, ?_⟩
    exact bind_ok.mpr ⟨_, ih hrows' htail, rfl⟩

theorem length_of_loadRows {expected : ℕ} (h : loadRows expected rows = .ok events) :
    events.length = rows.length := by
  induction rows generalizing expected events with
  | nil =>
    obtain rfl := Except.ok.inj h
    rfl
  | cons row rest ih =>
    obtain ⟨e, -, h⟩ := bind_ok.mp h
    obtain ⟨events', hevents', h⟩ := bind_ok.mp h
    obtain rfl := Except.ok.inj h
    rw [List.length_cons, List.length_cons, ih hevents']

/-- The rows of one run in a view that are the rows of a stream are in order. -/
theorem selectRun_eq (h : rowsOf runId 0 events = .ok (view.filter fun r => r.runId = runId)) :
    selectRun view runId = view.filter fun r => r.runId = runId := by
  have hsorted : (view.filter fun r => r.runId = runId).Pairwise fun a b =>
      a.sequence ≤ b.sequence := by
    have hrange : ((view.filter fun r => r.runId = runId).map Row.sequence).Pairwise (· ≤ ·) := by
      rw [sequence_rowsOf h]
      exact List.pairwise_le_range'
    exact List.pairwise_map.mp hrange
  exact hsorted.insertionSort_eq

theorem maxSequence_eq (h : rowsOf runId 0 events = .ok (view.filter fun r => r.runId = runId)) :
    maxSequence view runId = events.length := by
  have hmax (n k : ℕ) : (List.range' (k + 1) n).foldr max 0 = if n = 0 then 0 else k + n := by
    induction n generalizing k with
    | zero => rfl
    | succ n ih =>
      rw [List.range'_succ, List.foldr_cons, ih, if_neg (Nat.succ_ne_zero n)]
      by_cases hn : n = 0
      · rw [if_pos hn, hn, Nat.max_eq_left (Nat.zero_le _)]
      · rw [if_neg hn, Nat.max_eq_right (by omega)]
        omega
  rw [maxSequence, sequence_rowsOf h, hmax]
  split_ifs with hzero
  · exact hzero.symm
  · exact Nat.zero_add _

/-! ### Inserting rows -/

theorem apart_concat (hview : view.Pairwise fun a b => conflicts a b = false)
    (h : ¬ (view.any fun r => conflicts r row) = true) :
    (view ++ [row]).Pairwise fun a b => conflicts a b = false := by
  have hnone : ∀ r ∈ view, conflicts r row = false := by simpa using h
  exact List.pairwise_append.mpr ⟨hview, List.pairwise_singleton _ _,
    fun a ha b hb => List.mem_singleton.mp hb ▸ hnone a ha⟩

/-- The rows go in if each can be bound and none is refused. -/
theorem insertAll_ok {view' : List (Row F)} (hview : view.Pairwise fun a b => conflicts a b = false) :
    insertAll view rows = (.ok (), view') ↔
      view' = view ++ rows ∧ (∀ row ∈ rows, row.bindable = true) ∧
        (view ++ rows).Pairwise fun a b => conflicts a b = false := by
  induction rows generalizing view with
  | nil =>
    rw [List.append_nil]
    constructor
    · intro h
      obtain ⟨-, rfl⟩ := Prod.mk.inj h
      exact ⟨rfl, fun _ hmem => absurd hmem List.not_mem_nil, hview⟩
    · rintro ⟨rfl, -, -⟩
      rfl
  | cons row rest ih =>
    rw [insertAll, List.forall_mem_cons]
    by_cases hbind : row.bindable = false
    · simp [hbind]
    · rw [if_neg hbind]
      have hbind : row.bindable = true := by simpa using hbind
      by_cases hconf : (view.any fun r => conflicts r row) = true
      · rw [if_pos hconf]
        obtain ⟨r, hr, hrc⟩ := List.any_eq_true.mp hconf
        constructor
        · intro h
          exact absurd (Prod.mk.inj h).1 (by simp)
        · rintro ⟨-, -, hpair⟩
          have := (List.pairwise_append.mp hpair).2.2 r hr row List.mem_cons_self
          exact absurd hrc (by simp [this])
      · rw [if_neg hconf]
        rw [ih (apart_concat hview hconf), List.append_assoc, List.singleton_append]
        simp [hbind]

/-- A call stops at a row that cannot be bound after the rows before it went in. -/
theorem insertAll_error {b : Builtin} {view' : List (Row F)}
    (hview : view.Pairwise fun a b => conflicts a b = false) :
    insertAll view rows = (.error (.builtin b), view') ↔
      b = .unicodeEncodeError ∧ ∃ inserted row rest, rows = inserted ++ row :: rest ∧
        row.bindable = false ∧ insertAll view inserted = (.ok (), view') := by
  induction rows generalizing view with
  | nil => simp [insertAll]
  | cons row rest ih =>
    rw [insertAll]
    by_cases hbind : row.bindable = false
    · rw [if_pos hbind]
      constructor
      · intro h
        obtain ⟨hb, rfl⟩ := Prod.mk.inj h
        refine ⟨by simpa using hb.symm, [], row, rest, rfl, hbind, rfl⟩
      · rintro ⟨rfl, inserted, row', rest', heq, -, hins⟩
        cases inserted with
        | nil => rw [← (Prod.mk.inj hins).2]
        | cons r inserted =>
          obtain ⟨rfl, -⟩ := List.cons.inj heq
          rw [insertAll, if_pos hbind] at hins
          exact absurd (Prod.mk.inj hins).1 (by simp)
    · rw [if_neg hbind]
      by_cases hconf : (view.any fun r => conflicts r row) = true
      · rw [if_pos hconf]
        constructor
        · intro h
          exact absurd (Prod.mk.inj h).1 (by simp)
        · rintro ⟨-, inserted, row', rest', heq, hrow', hins⟩
          cases inserted with
          | nil =>
            obtain ⟨rfl, -⟩ := List.cons.inj heq
            exact absurd hrow' hbind
          | cons r inserted =>
            obtain ⟨rfl, -⟩ := List.cons.inj heq
            rw [insertAll, if_neg hbind, if_pos hconf] at hins
            exact absurd (Prod.mk.inj hins).1 (by simp)
      · rw [if_neg hconf]
        rw [ih (apart_concat hview hconf)]
        constructor
        · rintro ⟨hb, inserted, row', rest', rfl, hrow', hins⟩
          refine ⟨hb, row :: inserted, row', rest', rfl, hrow', ?_⟩
          rw [insertAll, if_neg hbind, if_neg hconf, hins]
        · rintro ⟨hb, inserted, row', rest', heq, hrow', hins⟩
          cases inserted with
          | nil =>
            obtain ⟨rfl, -⟩ := List.cons.inj heq
            exact absurd hrow' hbind
          | cons r inserted =>
            obtain ⟨rfl, rfl⟩ := List.cons.inj heq
            rw [insertAll, if_neg hbind, if_neg hconf] at hins
            exact ⟨hb, inserted, row', rest', rfl, hrow', hins⟩

/-- No insert raises another error. -/
theorem insertAll_outcome (rows view : List (Row F)) :
    (insertAll view rows).1 = .ok () ∨ (insertAll view rows).1 = .error .sqliteIntegrity ∨
      (insertAll view rows).1 = .error (.builtin .unicodeEncodeError) := by
  induction rows generalizing view with
  | nil => exact .inl rfl
  | cons row rest ih =>
    rw [insertAll]
    split_ifs
    · exact .inr (.inr rfl)
    · exact .inr (.inl rfl)
    · exact ih _

/-! ### One append -/

/-- What an append can do. -/
inductive Appended (db : Database F) (call : Call F) : Except Raised ℕ → Database F → Prop
  /-- before BEGIN, at BEGIN, or with a ROLLBACK -/
  | refused (e : Raised) : Appended db call (.error e) db
  | committed {rows view : List (Row F)} (idle : db.transaction = none)
      (prepared : prepare call = .ok rows) (checked : checkAppend db.rows call = .ok ())
      (inserted : insertAll db.rows rows = (.ok (), view)) :
      Appended db call (.ok (call.expectedVersion.toNat + call.events.length)) ⟨view, none⟩
  /-- an exception that no clause catches, between BEGIN and COMMIT -/
  | leaked {rows view : List (Row F)} {e : Raised} (idle : db.transaction = none)
      (lock : call.lockTaken = false) (prepared : prepare call = .ok rows)
      (attempt : inTransaction db.rows call rows = (.error e, view))
      (uncaught : e.rollsBack = false) :
      Appended db call (.error e) { db with transaction := some (call.connection, view) }

theorem append_spec (db : Database F) (call : Call F) :
    Appended db call (append db call).1 (append db call).2 := by
  unfold append
  split
  · exact .refused _
  · next rows hprepared =>
    unfold transact
    split_ifs with hbegin
    · exact .refused _
    · obtain ⟨hidle, hlock⟩ := not_or.mp hbegin
      have hidle : db.transaction = none := by simpa using hidle
      have hlock : call.lockTaken = false := by simpa using hlock
      dsimp only
      split
      · next hok =>
        unfold inTransaction at hok ⊢
        cases hcheck : checkAppend db.rows call with
        | error e =>
          rw [hcheck] at hok
          exact absurd hok (by simp)
        | ok =>
          rw [hcheck] at hok
          exact .committed hidle hprepared hcheck (Prod.ext hok rfl)
      · next e herror =>
        cases hcaught : e.rollsBack with
        | true => exact .refused _
        | false => exact .leaked hidle hlock hprepared (Prod.ext herror rfl) hcaught

theorem prepare_ok {call : Call F} (h : prepare call = .ok rows) :
    IsIdentifier call.runId ∧ 0 ≤ call.expectedVersion ∧ call.events ≠ [] ∧
      rowsOf call.runId call.expectedVersion.toNat call.events = .ok rows := by
  obtain ⟨_, hid, h⟩ := bind_ok.mp h
  split_ifs at h with hargs
  obtain ⟨hversion, hevents⟩ := not_or.mp hargs
  exact ⟨validateIdentifier_ok.mp hid, not_lt.mp hversion, hevents, h⟩

theorem checkAppend_ok {call : Call F} (h : checkAppend view call = .ok ()) :
    (maxSequence view call.runId : ℤ) = call.expectedVersion ∧
      ∃ existing s, loadFrom view call.runId = .ok existing ∧
        replay call.runId (existing ++ numbered call.expectedVersion.toNat call.events)
          = .ok s := by
  unfold checkAppend at h
  split_ifs at h with hversion
  obtain ⟨existing, hexisting, h⟩ := bind_ok.mp h
  obtain ⟨s, hs, -⟩ := bind_ok.mp h
  exact ⟨not_not.mp hversion, existing, s, hexisting, hs⟩

end Agent
