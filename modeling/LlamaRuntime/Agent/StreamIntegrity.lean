/-
The stored streams are the committed events.

* `committed`, `history` — the calls that committed, and the events they
  appended to a run;
* `Represents` — the rows of a database are the rows of these events; every
  sequence of calls keeps it (`appendAll_represents`);
* `stream_integrity` — what a store gives back, exactly when no call has left a
  part of its rows in an open transaction.
-/
import LlamaRuntime.Agent.Budgets
import LlamaRuntime.Agent.StoreRows

open Json

namespace Agent

variable {F : Type} [Host F]

/-! ### The committed events -/

/-- The calls that commit, in their order. -/
def committed (db : Database F) : List (Call F) → List (Call F)
  | [] => []
  | call :: rest =>
    match (append db call).1 with
    | .ok _ => call :: committed (append db call).2 rest
    | .error _ => committed (append db call).2 rest

/-- The events of a run. -/
def history (log : List (Call F)) (runId : PyStr) : List (AgentEvent F) :=
  (log.filter fun call => call.runId = runId).flatMap Call.events

/-- The events of all runs. -/
def stored (log : List (Call F)) : List (AgentEvent F) := log.flatMap Call.events

theorem appendAll_append (db : Database F) (pre post : List (Call F)) :
    appendAll db (pre ++ post) = appendAll (appendAll db pre) post := by
  induction pre generalizing db with
  | nil => rfl
  | cons call pre ih => exact ih _

theorem committed_append (db : Database F) (pre post : List (Call F)) :
    committed db (pre ++ post) = committed db pre ++ committed (appendAll db pre) post := by
  induction pre generalizing db with
  | nil => rfl
  | cons call pre ih =>
    rw [List.cons_append, committed, committed, appendAll]
    cases (append db call).1 with
    | ok => rw [ih, List.cons_append]
    | error => exact ih _

theorem history_append (log log' : List (Call F)) (runId : PyStr) :
    history (log ++ log') runId = history log runId ++ history log' runId := by
  rw [history, List.filter_append, List.flatMap_append]
  rfl

theorem history_singleton (call : Call F) (runId : PyStr) :
    history [call] runId = if call.runId = runId then call.events else [] := by
  by_cases h : call.runId = runId <;> simp [history, h]

theorem mem_history {log : List (Call F)} {call : Call F} (hcall : call ∈ log)
    {e : AgentEvent F} (he : e ∈ call.events) : e ∈ history log call.runId :=
  List.mem_flatMap.mpr ⟨call, List.mem_filter.mpr ⟨hcall, decide_eq_true rfl⟩, he⟩

/-! ### What replay says about the stored events -/

/-- The kinds of events whose payload holds a claim, and where. -/
def textClaims : List (EventKind × String) :=
  [(.toolProposed, "action_id"), (.toolProposed, "invocation_id"), (.budgetConsumed, "claim_id")]

/-- The payload is an object, and its claims are texts. -/
structure Claims (e : AgentEvent F) : Prop where
  dict : e.payload.dict?.isSome = true
  text : ∀ claim ∈ textClaims, e.eventKind = claim.1 → ∃ s, e.field claim.2 = .str s

theorem Applied.claims {s s' : AgentRunState F} {n : ℕ} {e : AgentEvent F}
    (h : Applied s n e s') : Claims e := by
  have hkind {k : EventKind} (hk : e.eventKind = k) (hne : k ≠ .toolProposed)
      (hne' : k ≠ .budgetConsumed) :
      ∀ claim ∈ textClaims, e.eventKind = claim.1 → ∃ s, e.field claim.2 = .str s := by
    intro claim hclaim heq
    simp only [textClaims, List.mem_cons, List.not_mem_nil, or_false] at hclaim
    rcases hclaim with rfl | rfl | rfl
    · exact absurd (hk.symm.trans heq) hne
    · exact absurd (hk.symm.trans heq) hne
    · exact absurd (hk.symm.trans heq) hne'
  cases h with
  | runTransition kind payload => exact ⟨by rw [payload]; rfl, hkind kind (by decide) (by decide)⟩
  | toolTransition kind payload => exact ⟨by rw [payload]; rfl, hkind kind (by decide) (by decide)⟩
  | dispatchStarted kind payload => exact ⟨by rw [payload]; rfl, hkind kind (by decide) (by decide)⟩
  | resultRecorded kind payload => exact ⟨by rw [payload]; rfl, hkind kind (by decide) (by decide)⟩
  | acceptanceDecided kind payload =>
    exact ⟨by rw [payload]; rfl, hkind kind (by decide) (by decide)⟩
  | plainRecord kind payload =>
    refine ⟨by rw [payload]; rfl, ?_⟩
    rcases kind with kind | kind | kind <;> exact hkind kind (by decide) (by decide)
  | invocationRecord kind payload =>
    refine ⟨by rw [payload]; rfl, ?_⟩
    rcases kind with kind | kind <;> exact hkind kind (by decide) (by decide)
  | toolProposed kind payload invocation_eq action_eq =>
    refine ⟨by rw [payload]; rfl, fun claim hclaim heq => ?_⟩
    simp only [textClaims, List.mem_cons, List.not_mem_nil, or_false] at hclaim
    rcases hclaim with rfl | rfl | rfl
    · exact ⟨_, (AgentEvent.field_eq payload _).trans action_eq⟩
    · exact ⟨_, (AgentEvent.field_eq payload _).trans invocation_eq⟩
    · exact absurd (kind.symm.trans heq) (by decide)
  | budgetConsumed kind payload claim_eq =>
    refine ⟨by rw [payload]; rfl, fun claim hclaim heq => ?_⟩
    simp only [textClaims, List.mem_cons, List.not_mem_nil, or_false] at hclaim
    rcases hclaim with rfl | rfl | rfl
    · exact absurd (kind.symm.trans heq) (by decide)
    · exact absurd (kind.symm.trans heq) (by decide)
    · exact ⟨_, (AgentEvent.field_eq payload _).trans claim_eq⟩

theorem Created.claims {runId : PyStr} {e : AgentEvent F} {s : AgentRunState F}
    (h : Created runId e s) : Claims e := by
  obtain ⟨raw, hraw, -, -⟩ := applyRunCreated_ok h.state
  obtain ⟨items, hitems, -⟩ := Option.bind_eq_some_iff.mp (Option.filter_eq_some_iff.mp hraw).1
  refine ⟨by rw [hitems]; rfl, fun claim hclaim heq => ?_⟩
  simp only [textClaims, List.mem_cons, List.not_mem_nil, or_false] at hclaim
  rcases hclaim with rfl | rfl | rfl <;> exact absurd (h.kind.symm.trans heq) (by decide)

theorem replay_claims {runId : PyStr} {events : List (AgentEvent F)} {s : AgentRunState F}
    (h : replay runId events = .ok s) : ∀ e ∈ events, Claims e := by
  refine replay_induction (P := fun events _ => ∀ e ∈ events, Claims e) ?_ ?_ h
  · intro e s hc e' he'
    obtain rfl := List.mem_singleton.mp he'
    exact hc.claims
  · intro events s e s' _ ih _ happ e' he'
    rcases List.mem_append.mp he' with he' | he'
    · exact ih e' he'
    · obtain rfl := List.mem_singleton.mp he'
      exact happ.claims

/-! ### The database represents the committed events -/

structure Represents (log : List (Call F)) (db : Database F) : Prop where
  rows : ∀ runId, rowsOf runId 0 (history log runId)
    = .ok (db.rows.filter fun r => r.runId = runId)
  all : List.Forall₂ (fun e row => ∃ runId n, RowOf runId n e row) (stored log) db.rows
  apart : db.rows.Pairwise fun a b => conflicts a b = false
  replays : ∀ runId, history log runId ≠ [] →
    ∃ s, replay runId (numbered 0 ((history log runId).map AgentEvent.normal)) = .ok s
  identifiers : ∀ call ∈ log, IsIdentifier call.runId
  versions : log.Pairwise fun a b => a.runId = b.runId → a.expectedVersion < b.expectedVersion
  below : ∀ call ∈ log, call.expectedVersion < (history log call.runId).length

namespace Represents

variable {log : List (Call F)} {db : Database F} {call : Call F} {rows : List (Row F)}

theorem empty : Represents ([] : List (Call F)) Database.empty where
  rows _ := rfl
  all := .nil
  apart := .nil
  replays _ h := absurd rfl h
  identifiers _ h := absurd h List.not_mem_nil
  versions := .nil
  below _ h := absurd h List.not_mem_nil

theorem claims (h : Represents log db) (runId : PyStr) : ∀ e ∈ history log runId, Claims e := by
  intro e he
  obtain ⟨s, hs⟩ := h.replays runId (List.ne_nil_of_mem he)
  rw [← map_normal_numbered] at hs
  have hall := replay_claims hs
  obtain ⟨n, hn, hmem⟩ : ∃ n, ∃ hn : 0 < n, (e.withSequence n hn).normal
      ∈ (numbered 0 (history log runId)).map AgentEvent.normal := by
    obtain ⟨pre, post, heq⟩ := List.append_of_mem he
    refine ⟨0 + pre.length + 1, by omega, List.mem_map.mpr ⟨_, ?_, rfl⟩⟩
    rw [heq, numbered_append, numbered]
    exact List.mem_append_right _ List.mem_cons_self
  have hc := hall _ hmem
  have hdict : (e.payload.normal.dict?).isSome = true := hc.dict
  rw [Value.dict?_normal, Option.isSome_map] at hdict
  refine ⟨hdict, fun claim hclaim heq => ?_⟩
  obtain ⟨s, hs⟩ := hc.text claim hclaim heq
  obtain ⟨items, hitems⟩ := Option.isSome_iff_exists.mp hdict
  rw [Value.dict?_eq_some] at hitems
  refine ⟨s, ?_⟩
  have hnormal : (e.field claim.2).normal = .str s := by
    rw [AgentEvent.field_eq hitems, ← field_normal (AgentEvent.nodup_keys hitems),
      ← AgentEvent.field_eq (AgentEvent.normal_payload_eq hitems)]
    exact hs
  rw [← Value.str?_eq_some, ← Value.str?_normal, hnormal]
  rfl

/-- The stream of a run is read as it was appended. -/
theorem loadFrom_eq (h : Represents log db) {runId : PyStr} (hid : IsIdentifier runId) :
    loadFrom db.rows runId = .ok (numbered 0 ((history log runId).map AgentEvent.normal)) := by
  refine bind_ok.mpr ⟨(), validateIdentifier_ok.mpr hid, ?_⟩
  rw [selectRun_eq (h.rows runId)]
  exact loadRows_rowsOf (h.rows runId) fun e he => (h.claims runId e he).dict

theorem maxSequence_eq (h : Represents log db) (runId : PyStr) :
    maxSequence db.rows runId = (history log runId).length :=
  Agent.maxSequence_eq (h.rows runId)

/-- What a call that passes the checks of the transaction adds to. -/
theorem checked (h : Represents log db) (hid : IsIdentifier call.runId)
    (hcheck : checkAppend db.rows call = .ok ()) :
    call.expectedVersion = (history log call.runId).length ∧
      ∃ s, replay call.runId (numbered 0 ((history log call.runId).map AgentEvent.normal) ++
        numbered (history log call.runId).length call.events) = .ok s := by
  obtain ⟨hversion, existing, s, hexisting, hs⟩ := checkAppend_ok hcheck
  rw [h.maxSequence_eq] at hversion
  obtain rfl := Except.ok.inj ((h.loadFrom_eq hid).symm.trans hexisting)
  rw [← hversion, Int.toNat_natCast] at hs
  exact ⟨hversion.symm, s, hs⟩

/-- A committed call puts its events behind those of its run. -/
theorem commit (h : Represents log db) {view : List (Row F)}
    (hprepared : prepare call = .ok rows) (hcheck : checkAppend db.rows call = .ok ())
    (hinserted : insertAll db.rows rows = (.ok (), view)) :
    Represents (log ++ [call]) ⟨view, none⟩ := by
  obtain ⟨hid, -, hne, hrows⟩ := prepare_ok hprepared
  obtain ⟨hversion, s, hs⟩ := h.checked hid hcheck
  obtain ⟨rfl, -, hapart⟩ := (insertAll_ok h.apart).mp hinserted
  have hnew (runId : PyStr) : history (log ++ [call]) runId
      = history log runId ++ if call.runId = runId then call.events else [] := by
    rw [history_append, history_singleton]
  have hlength : history (log ++ [call]) call.runId = history log call.runId ++ call.events := by
    rw [hnew, if_pos rfl]
  rw [hversion, Int.toNat_natCast] at hrows
  refine ⟨fun runId => ?_, ?_, hapart, fun runId hhist => ?_, ?_, ?_, ?_⟩
  · rw [hnew, List.filter_append]
    split_ifs with hrun
    · subst hrun
      have hall : rows.filter (fun r => r.runId = call.runId) = rows :=
        List.filter_eq_self.mpr fun r hr => decide_eq_true (runId_of_mem_rowsOf hrows r hr)
      rw [hall]
      exact rowsOf_append (h.rows call.runId) (by rwa [Nat.zero_add])
    · have hnone : rows.filter (fun r => r.runId = runId) = [] :=
        List.filter_eq_nil_iff.mpr fun r hr heq =>
          hrun ((runId_of_mem_rowsOf hrows r hr).symm.trans (of_decide_eq_true heq))
      rw [hnone, List.append_nil, List.append_nil]
      exact h.rows runId
  · rw [stored, List.flatMap_append, List.flatMap_singleton]
    refine List.rel_append h.all ?_
    exact (forall₂_rowsOf hrows).imp fun e row ⟨n, hn⟩ => ⟨call.runId, n, hn⟩
  · rw [hnew] at hhist ⊢
    split_ifs at hhist ⊢ with hrun
    · subst hrun
      obtain ⟨t, ht, -⟩ := replay_normal hs
      refine ⟨t, ?_⟩
      rw [List.map_append, map_normal_numbered, map_normal_numbered, List.map_map] at ht
      rw [List.map_append, numbered_append, List.length_map, Nat.zero_add]
      simpa [Function.comp_def] using ht
    · rw [List.append_nil] at hhist ⊢
      exact h.replays runId hhist
  · intro c hc
    rcases List.mem_append.mp hc with hc | hc
    · exact h.identifiers c hc
    · exact List.mem_singleton.mp hc ▸ hid
  · refine List.pairwise_append.mpr ⟨h.versions, List.pairwise_singleton _ _, ?_⟩
    intro a ha b hb hrun
    obtain rfl := List.mem_singleton.mp hb
    have := h.below a ha
    rw [hversion, ← hrun]
    exact this
  · intro c hc
    rcases List.mem_append.mp hc with hc | hc
    · have := h.below c hc
      rw [hnew, List.length_append]
      omega
    · obtain rfl := List.mem_singleton.mp hc
      have hpos : 0 < c.events.length := List.length_pos_of_ne_nil hne
      rw [hlength, hversion, List.length_append]
      omega

end Represents

/-- One call keeps the database in step with the committed events. -/
theorem Represents.append {log : List (Call F)} {db : Database F} (h : Represents log db)
    (call : Call F) : Represents (log ++ committed db [call]) (Agent.append db call).2 := by
  have hspec := append_spec db call
  rw [committed]
  revert hspec
  generalize (Agent.append db call).1 = outcome
  generalize (Agent.append db call).2 = db'
  intro hspec
  cases hspec with
  | refused e => simpa [committed] using h
  | committed idle prepared checked inserted => exact h.commit prepared checked inserted
  | leaked => 
    simp only [committed, List.append_nil]
    exact ⟨h.rows, h.all, h.apart, h.replays, h.identifiers, h.versions, h.below⟩

/-- **After any calls the rows are those of the events that were committed.** -/
theorem appendAll_represents (calls : List (Call F)) :
    Represents (committed .empty calls) (appendAll .empty calls) := by
  induction calls using List.reverseRecOn with
  | nil => exact .empty
  | append_singleton calls call ih =>
    rw [committed_append, appendAll_append]
    exact ih.append call

/-! ### Claims are unique -/

def nonNull : Value F → Option (Value F)
  | .null => none
  | v => some v

/-- The kinds of events whose claims are unique, and where the claims are. -/
def uniqueClaims : List (EventKind × String) :=
  textClaims ++ [(.authorizationRecorded, "idempotency_key")]

/-- The claim that an event of this kind makes. -/
def claimOf (claim : EventKind × String) (e : AgentEvent F) : Option (Value F) :=
  if e.eventKind = claim.1 then nonNull (e.field claim.2).normal else none

omit [Host F] in
theorem nonNull_eq_some {v w : Value F} : nonNull v = some w ↔ v = w ∧ v ≠ .null := by
  cases v <;> simp [nonNull]

theorem claimOf_eq_some {claim : EventKind × String} {e : AgentEvent F} {v : Value F} :
    claimOf claim e = some v ↔
      e.eventKind = claim.1 ∧ (e.field claim.2).normal = v ∧ v ≠ .null := by
  unfold claimOf
  split_ifs with hkind
  · rw [nonNull_eq_some]
    constructor
    · rintro ⟨rfl, hne⟩
      exact ⟨hkind, rfl, hne⟩
    · rintro ⟨-, rfl, hne⟩
      exact ⟨rfl, hne⟩
  · simp [hkind]

/-- A text claim stands in its column. -/
theorem columnOf_eq {e : AgentEvent F} {key : String} {kinds : List EventKind}
    {column : Option PyStr} {s : PyStr} (hmem : e.eventKind ∈ kinds)
    (hfield : e.field key = .str s) (hclaims : Claims e)
    (h : columnOf e key kinds = .ok column) : column = some s := by
  rw [columnOf, if_pos hmem] at h
  obtain ⟨items, hitems⟩ := Option.isSome_iff_exists.mp hclaims.dict
  rw [payloadItems, hitems] at h
  rw [AgentEvent.field_eq (Value.dict?_eq_some.mp hitems)] at hfield
  simpa [Except.map, hfield, Value.str?, eq_comm] using h

/-- The index of the idempotency keys has the key of a claim that is not null. -/
theorem RowOf.indexKey_eq {e : AgentEvent F} {row : Row F} {runId : PyStr} {n : ℕ}
    (h : RowOf runId n e row) {v : Value F} (hv : (e.field "idempotency_key").normal = v)
    (hne : v ≠ .null) : row.idempotencyKey = Host.indexKey v := by
  rw [h.key_eq]
  unfold AgentEvent.field field at hv
  cases hl : Items.lookup (py "idempotency_key") (e.payload.dict?.getD []) with
  | none =>
    rw [hl, Option.getD_none, Value.normal_null] at hv
    exact absurd hv.symm hne
  | some w =>
    rw [hl, Option.getD_some] at hv
    rw [Option.bind_some, ← hv, Host.indexKey_normal]

theorem sameKey_some {α : Type} [DecidableEq α] (a : α) : sameKey (some a) (some a) = true :=
  decide_eq_true rfl

/-- Rows that do not conflict belong to events with different claims. -/
theorem claims_ne {a b : AgentEvent F} {row row' : Row F}
    (ha : Claims a ∧ ∃ runId n, RowOf runId n a row)
    (hb : Claims b ∧ ∃ runId n, RowOf runId n b row') (h : conflicts row row' = false) :
    a.eventId ≠ b.eventId ∧ ∀ claim ∈ uniqueClaims, ∀ v,
      claimOf claim a = some v → claimOf claim b ≠ some v := by
  obtain ⟨hca, ra, na, hra⟩ := ha
  obtain ⟨hcb, rb, nb, hrb⟩ := hb
  simp only [conflicts, Bool.or_eq_false_iff] at h
  obtain ⟨⟨⟨⟨⟨-, hid⟩, haction⟩, hinvocation⟩, hclaim⟩, hkey⟩ := h
  refine ⟨fun heq => ?_, fun claim hmem v hva hvb => ?_⟩
  · rw [hra.eventId_eq, hrb.eventId_eq, heq] at hid
    exact absurd hid (by simp)
  · obtain ⟨hka, hfa, hne⟩ := claimOf_eq_some.mp hva
    obtain ⟨hkb, hfb, -⟩ := claimOf_eq_some.mp hvb
    rcases List.mem_append.mp hmem with hmem | hmem
    · -- a text claim: both columns hold it
      obtain ⟨s, hsa⟩ := hca.text claim hmem hka
      obtain ⟨s', hsb⟩ := hcb.text claim hmem hkb
      obtain rfl : s = s' := by
        rw [hsa, Value.normal_str] at hfa
        rw [hsb, Value.normal_str, ← hfa] at hfb
        exact (Value.str.inj hfb).symm
      simp only [textClaims, List.mem_cons, List.not_mem_nil, or_false] at hmem
      rcases hmem with rfl | rfl | rfl
      · rw [columnOf_eq (by simp [hka]) hsa hca hra.action_eq,
          columnOf_eq (by simp [hkb]) hsb hcb hrb.action_eq, sameKey_some] at haction
        exact absurd haction (by simp)
      · rw [columnOf_eq (by simp [hka]) hsa hca hra.invocation_eq,
          columnOf_eq (by simp [hkb]) hsb hcb hrb.invocation_eq, sameKey_some, hra.kind_eq,
          hrb.kind_eq, hka, hkb] at hinvocation
        exact absurd hinvocation (by simp)
      · rw [columnOf_eq (by simp [hka]) hsa hca hra.claim_eq,
          columnOf_eq (by simp [hkb]) hsb hcb hrb.claim_eq, sameKey_some] at hclaim
        exact absurd hclaim (by simp)
    · -- an idempotency key: the index holds its key twice
      obtain rfl := List.mem_singleton.mp hmem
      obtain ⟨key, hkeyv⟩ := Option.ne_none_iff_exists'.mp
        fun hnone => hne ((Host.indexKey_eq_none v).mp hnone)
      rw [hra.indexKey_eq hfa hne, hrb.indexKey_eq hfb hne, hkeyv, sameKey_some, hra.kind_eq,
        hrb.kind_eq, hka, hkb] at hkey
      exact absurd hkey (by simp)

theorem pairwise_of_forall₂ {α β : Type} {R : α → β → Prop} {S : β → β → Prop}
    {T : α → α → Prop} (himp : ∀ a b c d, R a c → R b d → S c d → T a b) {l : List α}
    {m : List β} (h : List.Forall₂ R l m) (hm : m.Pairwise S) : l.Pairwise T := by
  induction h with
  | nil => exact .nil
  | @cons a c l m hac hlm ih =>
    obtain ⟨hc, hm⟩ := List.pairwise_cons.mp hm
    refine List.pairwise_cons.mpr ⟨fun b hb => ?_, ih hm⟩
    obtain ⟨i, hi, rfl⟩ := List.getElem_of_mem hb
    have hi' : i < m.length := hlm.length_eq ▸ hi
    exact himp a _ c m[i] hac (hlm.get hi hi') (hc _ (List.getElem_mem hi'))

theorem Represents.claims_unique {log : List (Call F)} {db : Database F}
    (h : Represents log db) :
    (stored log).Pairwise fun a b => a.eventId ≠ b.eventId ∧ ∀ claim ∈ uniqueClaims, ∀ v,
      claimOf claim a = some v → claimOf claim b ≠ some v := by
  have hclaims : ∀ e ∈ stored log, Claims e := by
    intro e he
    obtain ⟨call, hcall, he⟩ := List.mem_flatMap.mp he
    exact h.claims call.runId e (mem_history hcall he)
  exact pairwise_of_forall₂ (fun _ _ _ _ ha hb => claims_ne ha hb)
    ((List.forall₂_and_left _ _).mpr ⟨hclaims, h.all⟩) h.apart

/-! ### Transactions left open -/

/-- The statements of the call reach a row that cannot be bound: every check of
the transaction passes, and the rows before it go in. -/
structure BindFails (db : Database F) (call : Call F) (inserted : List (Row F)) : Prop where
  idle : db.transaction = none
  lock : call.lockTaken = false
  checks : checkAppend db.rows call = .ok ()
  rows : ∃ row rest, prepare call = .ok (inserted ++ row :: rest) ∧ row.bindable = false
  bindable : ∀ row ∈ inserted, row.bindable = true
  apart : (db.rows ++ inserted).Pairwise fun a b => conflicts a b = false

/-- Some rows of the call go in before one that cannot be bound. -/
def PartlyBound (db : Database F) (call : Call F) : Prop :=
  ∃ inserted, inserted ≠ [] ∧ BindFails db call inserted

/-- A transaction that is open stays as it is. -/
theorem append_of_transaction {db : Database F} (h : db.transaction ≠ none) (call : Call F) :
    (append db call).2 = db := by
  have hspec := append_spec db call
  generalize (append db call).1 = outcome at hspec
  generalize (append db call).2 = db' at hspec ⊢
  cases hspec with
  | refused => rfl
  | committed idle => exact absurd idle h
  | leaked idle => exact absurd idle h

theorem appendAll_of_transaction {db : Database F} (h : db.transaction ≠ none)
    (calls : List (Call F)) : appendAll db calls = db := by
  induction calls with
  | nil => rfl
  | cons call calls ih => rw [appendAll, append_of_transaction h, ih]

/-- The rows an unbindable one leaves in the transaction. -/
theorem bindFails_of_insertAll {db : Database F} {call : Call F} {rows view : List (Row F)}
    {e : Raised} (hapart : db.rows.Pairwise fun a b => conflicts a b = false)
    (hidle : db.transaction = none) (hlock : call.lockTaken = false)
    (hprepared : prepare call = .ok rows) (hcheck : checkAppend db.rows call = .ok ())
    (hinsert : insertAll db.rows rows = (.error e, view)) (huncaught : e.rollsBack = false) :
    ∃ inserted, BindFails db call inserted ∧ view = db.rows ++ inserted := by
  obtain rfl : e = .builtin .unicodeEncodeError := by
    have hout := insertAll_outcome rows db.rows
    rw [hinsert] at hout
    rcases hout with h | h | h
    · exact absurd h (by simp)
    · obtain rfl := Except.error.inj h
      exact absurd huncaught (by decide)
    · exact Except.error.inj h
  obtain ⟨-, inserted, row, rest, rfl, hrow, hins⟩ := (insertAll_error hapart).mp hinsert
  obtain ⟨rfl, hbindable, happ⟩ := (insertAll_ok hapart).mp hins
  exact ⟨inserted, ⟨hidle, hlock, hcheck, ⟨row, rest, hprepared, hrow⟩, hbindable, happ⟩, rfl⟩

/-- An append that cannot bind a row leaves the rows before it in its transaction. -/
theorem append_of_bindFails {db : Database F} {call : Call F} {inserted : List (Row F)}
    (hapart : db.rows.Pairwise fun a b => conflicts a b = false)
    (h : BindFails db call inserted) :
    append db call = (.error (.builtin .unicodeEncodeError),
      { db with transaction := some (call.connection, db.rows ++ inserted) }) := by
  obtain ⟨row, rest, hprepared, hrow⟩ := h.rows
  have hins : insertAll db.rows inserted = (.ok (), db.rows ++ inserted) :=
    (insertAll_ok hapart).mpr ⟨rfl, h.bindable, h.apart⟩
  have hattempt : inTransaction db.rows call (inserted ++ row :: rest)
      = (.error (.builtin .unicodeEncodeError), db.rows ++ inserted) := by
    rw [inTransaction, h.checks]
    exact (insertAll_error hapart).mpr ⟨rfl, inserted, row, rest, rfl, hrow, hins⟩
  have hbegin : ¬ (db.transaction.isSome = true ∨ call.lockTaken = true) := by
    simp [h.idle, h.lock]
  rw [append, hprepared]
  simp only [transact, if_neg hbegin, hattempt]
  rfl

/-- Every connection sees the committed rows, unless a call was partly bound. -/
theorem view_eq_rows {calls : List (Call F)}
    (h : ∀ pre call post, calls = pre ++ call :: post → ¬ PartlyBound (appendAll .empty pre) call)
    (connection : Connection) :
    (appendAll .empty calls).view connection = (appendAll .empty calls).rows := by
  suffices hopen : ∀ owner view, (appendAll .empty calls).transaction = some (owner, view) →
      view = (appendAll .empty calls).rows by
    unfold Database.view
    split
    · next owner view hview =>
      split_ifs
      · exact hopen owner view hview
      · rfl
    · rfl
  induction calls using List.reverseRecOn with
  | nil => exact fun _ _ h => absurd h (by simp [appendAll, Database.empty])
  | append_singleton calls call ih =>
    have ih := ih fun pre c post heq => h pre c (post ++ [call]) (by rw [heq]; simp)
    have hlast := h calls call [] rfl
    have hapart := (appendAll_represents calls).apart
    rw [appendAll_append]
    show ∀ owner view, (append (appendAll .empty calls) call).2.transaction = some (owner, view) →
      view = (append (appendAll .empty calls) call).2.rows
    generalize appendAll .empty calls = db at ih hlast hapart ⊢
    have hspec := append_spec db call
    generalize (append db call).1 = outcome at hspec
    generalize (append db call).2 = db' at hspec ⊢
    cases hspec with
    | refused => exact ih
    | committed => exact fun _ _ h => absurd h (by simp)
    | @leaked rows view' e idle lock prepared attempt uncaught =>
      intro owner view hview
      obtain ⟨-, rfl⟩ := Prod.mk.inj (Option.some_inj.mp hview)
      unfold inTransaction at attempt
      split at attempt
      · exact (Prod.mk.inj attempt).2.symm
      · next hcheck =>
        obtain ⟨inserted, hfails, rfl⟩ :=
          bindFails_of_insertAll hapart idle lock prepared hcheck attempt uncaught
        have hnil : inserted = [] := by
          by_contra hne
          exact hlast ⟨inserted, hne, hfails⟩
        show db.rows ++ inserted = db.rows
        rw [hnil, List.append_nil]

/-! ### What the store gives back -/

/-- The stored streams are the appended ones. -/
structure StreamIntegrity (calls : List (Call F)) : Prop where
  /-- `load` gives the events of the run in the order they were appended -/
  load_eq : ∀ connection runId, IsIdentifier runId →
    (appendAll .empty calls).load connection runId
      = .ok (numbered 0 ((history (committed .empty calls) runId).map AgentEvent.normal))
  sequences : ∀ runId, ((appendAll .empty calls).rows.filter fun r => r.runId = runId).map
    Row.sequence = List.range' 1 (history (committed .empty calls) runId).length
  replays : ∀ runId, history (committed .empty calls) runId ≠ [] → ∃ s,
    replay runId (numbered 0 ((history (committed .empty calls) runId).map AgentEvent.normal))
      = .ok s ∧ s.version = (history (committed .empty calls) runId).length
  versions : (committed .empty calls).Pairwise fun a b =>
    a.runId = b.runId → a.expectedVersion ≠ b.expectedVersion
  event_ids : ((stored (committed .empty calls)).map AgentEvent.eventId).Nodup
  claims : ∀ claim ∈ uniqueClaims,
    ((stored (committed .empty calls)).filterMap (claimOf claim)).Nodup

/-- **A store gives back the streams that were appended to it, exactly when no
call was partly bound.** -/
theorem stream_integrity (calls : List (Call F)) :
    StreamIntegrity calls ↔
      ∀ pre call post, calls = pre ++ call :: post →
        ¬ PartlyBound (appendAll .empty pre) call := by
  constructor
  · rintro h pre call post rfl ⟨inserted, hne, hfails⟩
    have hpre := appendAll_represents pre
    have happend := append_of_bindFails hpre.apart hfails
    obtain ⟨row, rest, hprepared, -⟩ := hfails.rows
    obtain ⟨hid, -, -, hrows⟩ := prepare_ok hprepared
    -- the transaction stays open, with the rows that went in
    have hfinal : appendAll .empty (pre ++ call :: post) = { appendAll .empty pre with
        transaction := some (call.connection, (appendAll .empty pre).rows ++ inserted) } := by
      rw [appendAll_append, appendAll, happend]
      exact appendAll_of_transaction (by simp) post
    have hload := h.load_eq call.connection call.runId hid
    have hrep := (appendAll_represents (pre ++ call :: post)).rows call.runId
    rw [hfinal] at hload hrep
    obtain ⟨_, -, hload⟩ := bind_ok.mp hload
    have hview : Database.view { appendAll .empty pre with
        transaction := some (call.connection, (appendAll .empty pre).rows ++ inserted) }
          call.connection = (appendAll .empty pre).rows ++ inserted := if_pos rfl
    have hlen := length_of_loadRows hload
    rw [hview] at hlen
    have hall : inserted.filter (fun r => r.runId = call.runId) = inserted :=
      List.filter_eq_self.mpr fun r hr =>
        decide_eq_true (runId_of_mem_rowsOf hrows r (List.mem_append_left _ hr))
    have hstored := congrArg List.length (sequence_rowsOf hrep)
    have hpos : 0 < inserted.length := List.length_pos_of_ne_nil hne
    rw [List.length_map, List.length_range'] at hstored
    dsimp only at hstored
    rw [length_numbered, List.length_map, selectRun, List.length_insertionSort,
      List.filter_append, hall, List.length_append] at hlen
    omega
  · intro h
    have hrep := appendAll_represents calls
    refine ⟨fun connection runId hid => ?_, fun runId => sequence_rowsOf (hrep.rows runId),
      fun runId hne => ?_, hrep.versions.imp fun hlt heq => (hlt heq).ne,
      List.pairwise_map.mpr (hrep.claims_unique.imp fun hab => hab.1), fun claim hclaim => ?_⟩
    · rw [Database.load, view_eq_rows h connection]
      exact hrep.loadFrom_eq hid
    · obtain ⟨s, hs⟩ := hrep.replays runId hne
      refine ⟨s, hs, ?_⟩
      rw [replay_version hs, length_numbered, List.length_map]
    · refine List.pairwise_filterMap.mpr (hrep.claims_unique.imp fun hab v hv w hw heq => ?_)
      exact hab.2 claim hclaim v hv (heq ▸ hw)

/-- A call that creates a run and starts it, the start at a time without an encoding. -/
def unencodableCall : Call Unit where
  connection := 0
  lockTaken := false
  runId := py "run"
  expectedVersion := 0
  events := [sampleEvent "e1" .runCreated (sampleBudgets 1) none,
    { sampleEvent "e2" .runTransition [("target", sampleText "deciding")] none with
      occurredAtUtc := unencodableTime, utc_ok := decide_eq_true (.inr rfl) }]

/-- The call raises, and its first event is read back all the same. -/
theorem raised_call_is_read : ¬ StreamIntegrity [unencodableCall] := by
  intro h
  have hload := congrArg (Except.map List.length) (h.load_eq 0 (py "run") (by decide))
  exact absurd hload (by decide +kernel)

end Agent
