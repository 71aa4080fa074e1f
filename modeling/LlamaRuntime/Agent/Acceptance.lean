/-
When an append is accepted.

* `Accounted` — every identifier that the reducer remembers stands in an event;
* `Unclaimed` — no identifier of an event is taken by a stored one;
* `append_accepted` — an append of one event succeeds if the lock is free, the
  version is the stored one, the reducer accepts the event, its texts can be
  encoded and its identifiers are not taken.
-/
import LlamaRuntime.Agent.TurnContract
import LlamaRuntime.Json.Tidy

open Json

namespace Agent

variable {F : Type} [Host F]

/-! ### Identifiers that the reducer remembers -/

section Remembered

variable {s s' : AgentRunState F} {n : ℕ} {e : AgentEvent F} {id : PyStr} (h : Applied s n e s')

include h

theorem Applied.new_invocation (hid : id ∈ s'.toolInvocations.keys) :
    id ∈ s.toolInvocations.keys ∨
      e.eventKind = .toolProposed ∧ e.field "invocation_id" = .str id := by
  cases h with
  | @toolProposed items inv act digest kind payload invocation_eq =>
    obtain ⟨l, hl⟩ := Dict.mem_keys_iff.mp hid
    rw [Dict.get?_set] at hl
    split_ifs at hl with heq
    · exact .inr ⟨kind, by rw [AgentEvent.field_eq payload, invocation_eq, heq]⟩
    · exact .inl (Dict.mem_keys_iff.mpr ⟨l, hl⟩)
  | @toolTransition items inv current target kind payload _ current_eq =>
    obtain ⟨l, hl⟩ := Dict.mem_keys_iff.mp hid
    rw [Dict.get?_set] at hl
    split_ifs at hl with heq
    · exact .inl (Dict.mem_keys_iff.mpr ⟨current, heq ▸ current_eq⟩)
    · exact .inl (Dict.mem_keys_iff.mpr ⟨l, hl⟩)
  | _ => exact .inl hid

theorem Applied.new_action (hid : id ∈ s'.actionClaims) :
    id ∈ s.actionClaims ∨ e.eventKind = .toolProposed ∧ e.field "action_id" = .str id := by
  cases h with
  | toolProposed kind payload _ action_eq =>
    rcases List.mem_append.mp hid with hid | hid
    · exact .inl hid
    · exact .inr ⟨kind, by rw [AgentEvent.field_eq payload, action_eq, List.mem_singleton.mp hid]⟩
  | _ => exact .inl hid

theorem Applied.new_claim (hid : id ∈ s'.budgetClaims) :
    id ∈ s.budgetClaims ∨ e.eventKind = .budgetConsumed ∧ e.field "claim_id" = .str id := by
  cases h with
  | budgetConsumed kind payload claim_eq =>
    rcases List.mem_append.mp hid with hid | hid
    · exact .inl hid
    · exact .inr ⟨kind, by rw [AgentEvent.field_eq payload, claim_eq, List.mem_singleton.mp hid]⟩
  | _ => exact .inl hid

theorem Applied.new_record (hid : id ∈ s'.h1Records.keys) :
    id ∈ s.h1Records.keys ∨ e.field "record_id" = .str id := by
  have hset {items : List (PyStr × Value F)} {recordId : PyStr} (payload : e.payload = .dict items)
      (header : RecordHeader s items recordId)
      (hid : id ∈ (s.h1Records.set recordId e.payload).keys) :
      id ∈ s.h1Records.keys ∨ e.field "record_id" = .str id := by
    obtain ⟨v, hv⟩ := Dict.mem_keys_iff.mp hid
    rw [Dict.get?_set] at hv
    split_ifs at hv with heq
    · exact .inr (by rw [AgentEvent.field_eq payload, header.id, heq])
    · exact .inl (Dict.mem_keys_iff.mpr ⟨v, hv⟩)
  cases h with
  | plainRecord _ payload header => exact hset payload header hid
  | invocationRecord _ payload header => exact hset payload header hid
  | dispatchStarted _ payload header => exact hset payload header hid
  | resultRecorded _ payload header => exact hset payload header hid
  | acceptanceDecided _ payload header => exact hset payload header hid
  | _ => exact .inl hid

end Remembered

/-- Every identifier that the reducer remembers stands in an event of the stream. -/
structure Accounted (events : List (AgentEvent F)) (s : AgentRunState F) : Prop where
  invocations : ∀ id ∈ s.toolInvocations.keys,
    ∃ e ∈ events, e.eventKind = .toolProposed ∧ e.field "invocation_id" = .str id
  actions : ∀ id ∈ s.actionClaims,
    ∃ e ∈ events, e.eventKind = .toolProposed ∧ e.field "action_id" = .str id
  claims : ∀ id ∈ s.budgetClaims,
    ∃ e ∈ events, e.eventKind = .budgetConsumed ∧ e.field "claim_id" = .str id
  records : ∀ id ∈ s.h1Records.keys, ∃ e ∈ events, e.field "record_id" = .str id

theorem replay_accounted {runId : PyStr} {events : List (AgentEvent F)} {s : AgentRunState F}
    (h : replay runId events = .ok s) : Accounted events s := by
  refine replay_induction (P := Accounted) ?_ ?_ h
  · intro e s hc
    obtain ⟨raw, -, -, rfl⟩ := applyRunCreated_ok hc.state
    exact ⟨fun _ h => absurd h List.not_mem_nil, fun _ h => absurd h List.not_mem_nil,
      fun _ h => absurd h List.not_mem_nil, fun _ h => absurd h List.not_mem_nil⟩
  · intro events s e s' _ ih _ happ
    -- what was remembered before, and what this event adds
    have hgrow {P : AgentEvent F → Prop} (hor : (∃ e ∈ events, P e) ∨ P e) :
        ∃ e' ∈ events ++ [e], P e' := by
      rcases hor with ⟨e', he', hP⟩ | hP
      · exact ⟨e', List.mem_append_left _ he', hP⟩
      · exact ⟨e, List.mem_append_right _ (List.mem_singleton_self e), hP⟩
    exact ⟨fun id hid => hgrow ((happ.new_invocation hid).imp_left (ih.invocations id)),
      fun id hid => hgrow ((happ.new_action hid).imp_left (ih.actions id)),
      fun id hid => hgrow ((happ.new_claim hid).imp_left (ih.claims id)),
      fun id hid => hgrow ((happ.new_record hid).imp_left (ih.records id))⟩

/-! ### Identifiers that are taken -/

/-- No identifier of the event is taken: neither its own nor a claim in its
payload by a stored event, nor its record's by an event of its run. -/
structure Unclaimed (db : Database F) (runId : PyStr) (e : AgentEvent F) : Prop where
  event_id : ∀ R events, db.stream R = .ok events → ∀ e' ∈ events, e'.eventId ≠ e.eventId
  claims : ∀ R events, db.stream R = .ok events → ∀ e' ∈ events, ∀ claim ∈ textClaims,
    e.eventKind = claim.1 → e'.eventKind = claim.1 → e'.field claim.2 ≠ e.field claim.2
  key : ∀ R events, db.stream R = .ok events → ∀ e' ∈ events,
    e.eventKind = .authorizationRecorded → e'.eventKind = .authorizationRecorded →
      Host.indexKey (e'.field "idempotency_key") ≠ Host.indexKey (e.field "idempotency_key")
  record : ∀ events, db.stream runId = .ok events → ∀ e' ∈ events, ∀ id : PyStr,
    e.field "record_id" = .str id → e'.field "record_id" ≠ .str id

theorem columnOf_some {e : AgentEvent F} {key : String} {kinds : List EventKind} {s : PyStr}
    (h : columnOf e key kinds = .ok (some s)) : e.eventKind ∈ kinds ∧ e.field key = .str s := by
  unfold columnOf at h
  split_ifs at h with hkind
  · cases hd : e.payload.dict? with
    | none =>
      rw [payloadItems, hd] at h
      exact absurd h (by simp [Except.map])
    | some items =>
      rw [payloadItems, hd] at h
      have hfield : (field items key).str? = some s := Except.ok.inj h
      rw [AgentEvent.field_eq (Value.dict?_eq_some.mp hd)]
      exact ⟨hkind, Value.str?_eq_some.mp hfield⟩
  · exact absurd (Except.ok.inj h) (by simp)

theorem EventKind.value_inj {k k' : EventKind} (h : k.value = k'.value) : k = k' := by
  have hk := EventKind.ofValue_value k
  rw [h, EventKind.ofValue_value] at hk
  exact (Option.some_inj.mp hk).symm

/-- The event that a row was made of, and the event it is read back as. -/
theorem Represents.event_of_row {log : List (Call F)} {db : Database F} (h : Represents log db)
    {row : Row F} (hrow : row ∈ db.rows) :
    ∃ e n events e', RowOf row.runId n e row ∧ db.stream row.runId = .ok events ∧ e' ∈ events ∧
      e'.eventId = e.eventId ∧ e'.eventKind = e.eventKind ∧
      ∀ key, e'.field key = (e.field key).normal := by
  have hfilter : row ∈ db.rows.filter fun r => r.runId = row.runId :=
    List.mem_filter.mpr ⟨hrow, decide_eq_true rfl⟩
  obtain ⟨i, hi, hget⟩ := List.getElem_of_mem hfilter
  have hall := forall₂_rowsOf (h.rows row.runId)
  have hi' : i < (history log row.runId).length := hall.length_eq ▸ hi
  obtain ⟨n, hn⟩ := hall.get hi' hi
  have he := List.getElem_mem hi'
  rw [List.get_eq_getElem, List.get_eq_getElem, hget] at hn
  revert hn he
  generalize (history log row.runId)[i] = e
  intro hn he
  obtain ⟨call, hcall, -⟩ := List.mem_flatMap.mp he
  obtain ⟨hcall, hrun⟩ := List.mem_filter.mp hcall
  have hid : IsIdentifier row.runId := of_decide_eq_true hrun ▸ h.identifiers call hcall
  -- the event stands in the stream in normal form
  obtain ⟨pre, post, heq⟩ := List.append_of_mem he
  refine ⟨e, n, _, e.readBack (0 + pre.length), hn, h.loadFrom_eq hid, ?_, rfl, rfl,
    fun key => AgentEvent.field_readBack _ _ key⟩
  rw [heq, List.map_append, List.map_cons, numbered_append, numbered, List.length_map]
  exact List.mem_append_right _ List.mem_cons_self

/-- A row of an event whose identifiers are not taken goes in. -/
theorem Represents.not_conflicts {log : List (Call F)} {db : Database F} (h : Represents log db)
    {runId : PyStr} {e : AgentEvent F} {row new : Row F} (hrow : row ∈ db.rows)
    (hnew : RowOf runId ((history log runId).length + 1) e new) (hfree : Unclaimed db runId e) :
    conflicts row new = false := by
  obtain ⟨e₀, n, events, e', hof, hstream, he', hid', hkind', hfield'⟩ := h.event_of_row hrow
  have hsame {α : Type} [DecidableEq α] {a b : Option α} (hne : ∀ x, a = some x → b ≠ some x) :
      sameKey a b = false := by
    cases a with
    | none => rfl
    | some x => simpa [sameKey] using fun hx => hne x rfl hx.symm
  -- a text in the same column of both rows is a claim that both events make
  have hclaim {key : String} {kinds : List EventKind} {a b : Option PyStr} (kind : EventKind)
      (hmem : (kind, key) ∈ textClaims) (ha : columnOf e₀ key kinds = .ok a)
      (hb : columnOf e key kinds = .ok b) (hka : e₀.eventKind ∈ kinds → e₀.eventKind = kind)
      (hkb : e.eventKind ∈ kinds → e.eventKind = kind) : sameKey a b = false := by
    refine hsame fun x hx hx' => ?_
    rw [hx] at ha
    rw [hx'] at hb
    obtain ⟨hmema, hfa⟩ := columnOf_some ha
    obtain ⟨hmemb, hfb⟩ := columnOf_some hb
    refine hfree.claims _ events hstream e' he' (kind, key) hmem (hkb hmemb)
      (hkind'.trans (hka hmema)) ?_
    rw [hfield', hfa, hfb, Value.normal_str]
  have hsequence : (row.runId = new.runId && row.sequence = new.sequence) = false := by
    rw [Bool.and_eq_false_iff, decide_eq_false_iff_not, decide_eq_false_iff_not, or_iff_not_imp_left,
      not_not]
    intro hrun hseq
    have hmem : row.sequence ∈ List.range' 1 (history log runId).length := by
      rw [← sequence_rowsOf (h.rows runId)]
      refine List.mem_map.mpr ⟨row, List.mem_filter.mpr ⟨hrow, decide_eq_true ?_⟩, rfl⟩
      rw [hrun, hnew.runId_eq]
    rw [hseq, hnew.sequence_eq, List.mem_range'_1] at hmem
    omega
  have hevent : decide (row.eventId = new.eventId) = false := by
    refine decide_eq_false fun heq => hfree.event_id _ events hstream e' he' ?_
    rw [hid', ← hof.eventId_eq, heq, hnew.eventId_eq]
  have haction : sameKey row.actionId new.actionId = false :=
    hclaim .toolProposed (by decide) hof.action_eq hnew.action_eq
      (fun hk => List.mem_singleton.mp hk) fun hk => List.mem_singleton.mp hk
  have hbudget : sameKey row.budgetClaimId new.budgetClaimId = false :=
    hclaim .budgetConsumed (by decide) hof.claim_eq hnew.claim_eq
      (fun hk => List.mem_singleton.mp hk) fun hk => List.mem_singleton.mp hk
  have hinvocation : (row.eventKind = EventKind.toolProposed.value &&
      new.eventKind = EventKind.toolProposed.value &&
      sameKey row.invocationId new.invocationId) = false := by
    by_cases hkinds : row.eventKind = EventKind.toolProposed.value ∧
        new.eventKind = EventKind.toolProposed.value
    · rw [hof.kind_eq, hnew.kind_eq] at hkinds
      have hk := EventKind.value_inj hkinds.1
      have hk' := EventKind.value_inj hkinds.2
      rw [hclaim .toolProposed (by decide) hof.invocation_eq hnew.invocation_eq
        (fun _ => hk) fun _ => hk', Bool.and_false]
    · rw [Bool.and_eq_false_iff, Bool.and_eq_false_iff]
      rcases not_and_or.mp hkinds with hk | hk
      · exact .inl (.inl (decide_eq_false hk))
      · exact .inl (.inr (decide_eq_false hk))
  have hkey : (row.eventKind = EventKind.authorizationRecorded.value &&
      new.eventKind = EventKind.authorizationRecorded.value &&
      sameKey row.idempotencyKey new.idempotencyKey) = false := by
    by_cases hkinds : row.eventKind = EventKind.authorizationRecorded.value ∧
        new.eventKind = EventKind.authorizationRecorded.value
    · rw [hof.kind_eq, hnew.kind_eq] at hkinds
      have hk := EventKind.value_inj hkinds.1
      have hk' := EventKind.value_inj hkinds.2
      rw [hsame, Bool.and_false]
      intro x hx hx'
      have hindex {a : AgentEvent F} {r : Row F} {R : PyStr} {m : ℕ} (hr : RowOf R m a r)
          (hx : r.idempotencyKey = some x) :
          Host.indexKey (a.field "idempotency_key") = some x := by
        rw [hr.key_eq] at hx
        obtain ⟨v, hv, hvx⟩ := Option.bind_eq_some_iff.mp hx
        rw [AgentEvent.field, field, hv]
        exact hvx
      refine hfree.key _ events hstream e' he' hk' (hkind'.trans hk) ?_
      rw [hfield', Host.indexKey_normal, hindex hof hx, hindex hnew hx']
    · rw [Bool.and_eq_false_iff, Bool.and_eq_false_iff]
      rcases not_and_or.mp hkinds with hk | hk
      · exact .inl (.inl (decide_eq_false hk))
      · exact .inl (.inr (decide_eq_false hk))
  simp only [conflicts, Bool.or_eq_false_iff]
  exact ⟨⟨⟨⟨⟨hsequence, hevent⟩, haction⟩, hinvocation⟩, hbudget⟩, hkey⟩

/-! ### Tidy payloads -/

theorem clean_of_isBounded {text : PyStr} {n : ℕ} (h : Inference.IsBoundedText text n) : Clean text := h.2.1

theorem IsPlain.clean {text : PyStr} (h : IsPlain text) : Clean text :=
  Clean.of_small fun c hc => by
    have hplain := (h c hc).2
    omega

theorem clean_shaDigest (message : List UInt8) : Clean (shaDigest message) :=
  Clean.append (by decide) (isPlain_hexdigest message).clean

theorem encode_of_clean {text : PyStr} (h : Clean text) :
    encode text = .ok (text.flatMap CodePoint.utf8Bytes) := by
  rw [encode, encodeUtf8_of_clean h]

/-- A tidy value has an identifier. -/
theorem stableId_of_tidy (kind : String) {value : Value F} (h : value.Tidy) :
    ∃ id, stableId kind value = .ok id :=
  ⟨_, bind_ok.mpr ⟨_, canonicalJson_of_writable h.writable,
    bind_ok.mpr ⟨_, encode_of_clean h.clean_dumps, rfl⟩⟩⟩

/-- A value that has an identifier is tidy. -/
theorem tidy_of_stableId {kind : String} {value : Value F} {id : PyStr}
    (hwf : value.WellFormed) (h : stableId kind value = .ok id) : value.Tidy := by
  obtain ⟨text, htext, h⟩ := bind_ok.mp h
  obtain ⟨bytes, hbytes, -⟩ := bind_ok.mp h
  obtain ⟨hwritable, rfl⟩ := writable_of_canonicalJson hwf htext
  refine Value.tidy_iff.mpr ⟨hwritable, ?_⟩
  unfold encode at hbytes
  split at hbytes
  · exact absurd hbytes (by simp)
  · next bytes' hencode => exact clean_of_encodeUtf8 hencode

theorem payloadDigest_of_tidy {value : Value F} (h : value.Tidy) :
    payloadDigest (dumps value) = .ok (shaDigest ((dumps value).flatMap CodePoint.utf8Bytes)) := by
  rw [payloadDigest, encodeUtf8_of_clean h.clean_dumps]
  rfl

/-- An event of a tidy payload passes the checks of its constructor. -/
theorem newEvent_of_tidy {eventId utcNow : PyStr} {kind : EventKind}
    {items : List (PyStr × Value F)} (hid : IsIdentifier eventId) (htidy : (Value.dict items).Tidy)
    (hutc : Host.readsAsUtc F utcNow = true) :
    ∃ event, newEvent eventId kind items utcNow = .ok event ∧ event.eventId = eventId ∧
      event.eventKind = kind ∧ event.payload = .dict items ∧ event.occurredAtUtc = utcNow := by
  let event : AgentEvent F :=
    { eventId, eventKind := kind, payload := .dict items, occurredAtUtc := utcNow, sequence := none
      id_ok := hid, payload_ok := htidy.writable, utc_ok := hutc
      sequence_ok := fun _ h => (by cases h) }
  refine ⟨event, ?_, rfl, rfl, rfl, rfl⟩
  rw [newEvent, dif_pos htidy.writable.wellFormed]
  exact AgentEvent.make_fields event

/-- The row of an event with a tidy payload, whose texts can all be bound. -/
theorem row_of_tidy {runId : PyStr} (n : ℕ) {e : AgentEvent F} (hrun : Clean runId)
    (hdict : e.payload.dict?.isSome = true) (htidy : e.payload.Tidy)
    (hutc : Clean e.occurredAtUtc) :
    ∃ row, rowOf runId n e = .ok row ∧ row.bindable = true := by
  obtain ⟨items, hitems⟩ := Option.isSome_iff_exists.mp hdict
  have hpayload := Value.dict?_eq_some.mp hitems
  have hcolumn (key : String) (kinds : List EventKind) : ∃ column,
      columnOf e key kinds = .ok column ∧ ∀ text ∈ column, Clean text := by
    unfold columnOf
    split_ifs
    · refine ⟨(field items key).str?, by rw [payloadItems, hitems]; rfl, fun text htext => ?_⟩
      have hfield := Value.str?_eq_some.mp htext
      unfold field at hfield
      cases hl : Items.lookup (py key) items with
      | none =>
        rw [hl, Option.getD_none] at hfield
        exact absurd hfield (by simp)
      | some v =>
        rw [hl, Option.getD_some] at hfield
        subst hfield
        rw [hpayload] at htidy
        exact of_decide_eq_true (htidy.field (Items.mem_of_lookup hl))
    · exact ⟨none, rfl, fun _ h => (by cases h)⟩
  obtain ⟨action, haction, haction'⟩ := hcolumn "action_id" [.toolProposed]
  obtain ⟨invocation, hinvocation, hinvocation'⟩ :=
    hcolumn "invocation_id" [.toolProposed, .toolTransition]
  obtain ⟨claim, hclaim, hclaim'⟩ := hcolumn "claim_id" [.budgetConsumed]
  refine ⟨_, bind_ok.mpr ⟨_, canonicalJson_of_writable e.payload_ok, bind_ok.mpr ⟨_,
    payloadDigest_of_tidy htidy, bind_ok.mpr ⟨_, haction, bind_ok.mpr ⟨_, hinvocation, bind_ok.mpr
    ⟨_, hclaim, rfl⟩⟩⟩⟩⟩, ?_⟩
  have hkind : Clean e.eventKind.value := by cases e.eventKind <;> decide
  have hall : ∀ text ∈ [runId, e.eventId, e.eventKind.value, e.occurredAtUtc, dumps e.payload,
      shaDigest ((dumps e.payload).flatMap CodePoint.utf8Bytes)] ++ action.toList ++
        invocation.toList ++ claim.toList, Clean text := by
    intro text htext
    simp only [List.mem_append, List.mem_cons, List.not_mem_nil, or_false,
      Option.mem_toList] at htext
    rcases htext with (((rfl | rfl | rfl | rfl | rfl | rfl) | h) | h) | h
    · exact hrun
    · exact clean_of_isBounded e.id_ok
    · exact hkind
    · exact hutc
    · exact htidy.clean_dumps
    · exact clean_shaDigest _
    · exact haction' text h
    · exact hinvocation' text h
    · exact hclaim' text h
  refine List.all_eq_true.mpr fun text htext => ?_
  rw [encodeUtf8_of_clean (hall text htext)]
  rfl

/-! ### One append -/

/-- **An append is accepted** if nothing stands in its way. -/
theorem append_accepted {db : Database F} (h : Consistent db) (hidle : db.transaction = none)
    {call : Call F} {event : AgentEvent F} (hlock : call.lockTaken = false)
    (hcall : call.events = [event]) {events : List (AgentEvent F)} {s s' : AgentRunState F}
    (hstream : db.stream call.runId = .ok events) (hs : replay call.runId events = .ok s)
    (hversion : call.expectedVersion = events.length)
    (happ : Applied s (events.length + 1)
      (event.withSequence (events.length + 1) (Nat.succ_pos _)) s')
    (htidy : event.payload.Tidy) (hutc : Clean event.occurredAtUtc)
    (hfree : Unclaimed db call.runId event) :
    ∃ n, (append db call).1 = .ok n ∧ (append db call).2.transaction = none := by
  obtain ⟨log, hlog⟩ := h.represented
  obtain ⟨hid, -⟩ := hlog.stream_eq hstream
  have hlength := hlog.length_stream hstream
  have hdict : event.payload.dict?.isSome = true := happ.claims.dict
  obtain ⟨row, hrow, hbind⟩ := row_of_tidy (events.length + 1) (clean_of_isBounded hid) hdict htidy
    hutc
  have hrows : rowsOf call.runId call.expectedVersion.toNat call.events = .ok [row] := by
    rw [hcall, hversion, Int.toNat_natCast]
    exact rowsOf_cons.mpr ⟨row, [], hrow, rfl, rfl⟩
  have hprepare : prepare call = .ok [row] := by
    refine bind_ok.mpr ⟨(), validateIdentifier_ok.mpr hid, ?_⟩
    have hargs : ¬ (call.expectedVersion < 0 ∨ call.events = []) := by
      rw [hcall, hversion]
      simp
    rw [if_neg hargs]
    exact hrows
  have hcheck : checkAppend db.rows call = .ok () := by
    have hmax : (maxSequence db.rows call.runId : ℤ) = call.expectedVersion := by
      rw [hlog.maxSequence_eq, hversion, hlength]
    rw [checkAppend, if_neg (not_not.mpr hmax)]
    refine bind_ok.mpr ⟨events, hstream, bind_ok.mpr ⟨s', ?_, rfl⟩⟩
    rw [hcall, hversion, Int.toNat_natCast]
    exact (replay_concat (replay_ne_nil hs)).mpr ⟨s, hs, rfl, happ⟩
  have hinsert : insertAll db.rows [row] = (.ok (), db.rows ++ [row]) := by
    refine (insertAll_ok hlog.apart).mpr ⟨rfl, ?_, ?_⟩
    · intro r hr
      rw [List.mem_singleton.mp hr]
      exact hbind
    · refine List.pairwise_append.mpr ⟨hlog.apart, List.pairwise_singleton _ _, ?_⟩
      intro r hr r' hr'
      obtain rfl := List.mem_singleton.mp hr'
      rw [hlength] at hrow
      exact hlog.not_conflicts hr (rowOf_ok hrow) hfree
  have hbegin : ¬ (db.transaction.isSome = true ∨ call.lockTaken = true) := by
    simp [hidle, hlock]
  refine ⟨call.expectedVersion.toNat + call.events.length, ?_⟩
  rw [append, hprepare]
  simp only [transact, if_neg hbegin, inTransaction, hcheck, hinsert, and_self]

end Agent
