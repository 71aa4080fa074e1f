/-
The prefix and session cache.

`SequenceStateCache` keeps payloads under an exact key and a scope.  Its methods
run under one lock, so each is a function on the state of the cache; only
`commit_session` takes the lock three times, and is given as its three parts and
as their sequence.

* `put`, `acquire`, `read`, `release`, `invalidate`, `prune` — the methods;
* `ensureCapacityLocked` — the eviction loop they share;
* `CacheOp`, `perform` — a call, and what it answers.

What `_now()` answers is given with each call, and `uuid4` draws a new id each time.
-/
import LlamaRuntime.Inference.Governance

namespace Inference

/-- `_digest`: `sha256:` and 64 lower case hexadecimal digits. -/
def IsDigest (value : PyStr) : Prop :=
  (py "sha256:").isPrefixOf value = true ∧ value.length = 71 ∧
    ∀ c ∈ value.drop 7, c ∈ py "0123456789abcdef"

instance (value : PyStr) : Decidable (IsDigest value) :=
  have : Decidable (∀ c ∈ value.drop 7, c ∈ py "0123456789abcdef") := List.decidableBAll _ _
  inferInstanceAs (Decidable (_ ∧ _ ∧ _))

inductive CacheKind where
  | PREFIX
  | SESSION
  deriving DecidableEq

inductive CacheVisibility where
  | PRIVATE
  | WORKFLOW
  | TENANT
  deriving DecidableEq

structure CacheScope where
  tenantId : PyStr
  workflowId : PyStr
  agentId : PyStr
  visibility : CacheVisibility
  tenant_valid : IsBoundedText tenantId maxIdentifierBytes
  workflow_valid : IsBoundedText workflowId maxIdentifierBytes
  agent_valid : IsBoundedText agentId maxIdentifierBytes
  deriving DecidableEq

/-- `CacheScope.allows` -/
def CacheScope.allows (scope requester : CacheScope) : Bool :=
  if scope.tenantId ≠ requester.tenantId then false
  else if scope.visibility = .TENANT then true
  else if scope.workflowId ≠ requester.workflowId then false
  else if scope.visibility = .WORKFLOW then true
  else scope.agentId = requester.agentId

structure CacheNamespace where
  modelDigest : PyStr
  templateDigest : PyStr
  tokenizerDigest : PyStr
  adapterDigest : PyStr
  contextDigest : PyStr
  model_valid : IsDigest modelDigest
  template_valid : IsDigest templateDigest
  tokenizer_valid : IsDigest tokenizerDigest
  adapter_valid : IsDigest adapterDigest
  context_valid : IsDigest contextDigest
  deriving DecidableEq

structure ExactTokenCacheKey where
  kind : CacheKind
  space : CacheNamespace
  tokenIds : List ℕ
  nonempty : tokenIds ≠ []
  deriving DecidableEq

structure CacheLease where
  entryId : PyStr
  generation : ℕ
  key : ExactTokenCacheKey
  mutable : Bool
  copyOnWrite : Bool
  deriving DecidableEq

/-- `_Entry` -/
structure CacheEntry where
  entryId : PyStr
  generation : ℕ
  key : ExactTokenCacheKey
  scope : CacheScope
  payload : List UInt8
  byteSize : ℕ
  createdAt : ℚ
  expiresAt : ℚ
  lastAccess : ℚ
  refcount : ℕ := 0
  ephemeral : Bool := false

/-- The arguments of the constructor, and the source of the ids: no two of them
are the same. -/
structure CacheConfig where
  byteBudget : ℕ
  maxEntries : ℕ
  ttlSeconds : ℚ
  uuid4 : ℕ → PyStr
  budget_pos : 0 < byteBudget
  entries_pos : 0 < maxEntries
  ttl_pos : 0 < ttlSeconds
  uuid4_injective : Function.Injective uuid4

structure SequenceStateCache where
  entries : Dict PyStr CacheEntry := ∅
  index : Dict (ExactTokenCacheKey × CacheScope) PyStr := ∅
  bytesUsed : ℤ := 0
  hits : ℕ := 0
  misses : ℕ := 0
  denied : ℕ := 0
  insertions : ℕ := 0
  evictions : ℕ := 0
  invalidations : ℕ := 0
  cowClones : ℕ := 0
  savedPrefillTokens : ℕ := 0
  /-- how many ids have been drawn -/
  issued : ℕ := 0

def capacityError (message : String) : PyException := .builtin "CacheCapacityError" message

namespace SequenceStateCache

variable (cfg : CacheConfig)

/-- `_remove_locked` -/
def removeLocked (entry : CacheEntry) (invalidation : Bool) (s : SequenceStateCache) :
    SequenceStateCache :=
  { s with
    entries := s.entries.pop entry.entryId
    index := if entry.ephemeral then s.index else s.index.pop (entry.key, entry.scope)
    bytesUsed := s.bytesUsed - entry.byteSize
    invalidations := if invalidation then s.invalidations + 1 else s.invalidations }

/-- An entry makes room or has expired. -/
def evictLocked (s : SequenceStateCache) (entry : CacheEntry) : SequenceStateCache :=
  let s := s.removeLocked entry false
  { s with evictions := s.evictions + 1 }

/-- `_prune_locked` -/
def pruneLocked (now : ℚ) (s : SequenceStateCache) : SequenceStateCache :=
  (s.entries.values.filter fun entry => entry.refcount = 0 ∧ entry.expiresAt ≤ now).foldl
    evictLocked s

def evictable (s : SequenceStateCache) : List CacheEntry :=
  s.entries.values.filter fun entry => entry.refcount = 0

/-- The condition of the loop of `_ensure_capacity_locked`. -/
def Crowded (byteSize : ℕ) (s : SequenceStateCache) : Prop :=
  (cfg.byteBudget : ℤ) < s.bytesUsed + byteSize ∨ cfg.maxEntries ≤ s.entries.items.length

instance (byteSize : ℕ) (s : SequenceStateCache) : Decidable (Crowded cfg byteSize s) :=
  inferInstanceAs (Decidable (_ ∨ _))

/-- The loop of `_ensure_capacity_locked`; `none` where the fuel is used up. -/
def evictUntilFits (byteSize : ℕ) :
    ℕ → SequenceStateCache → Option (Except PyException Unit × SequenceStateCache)
  | 0, _ => none
  | fuel + 1, s =>
    if Crowded cfg byteSize s then
      match s.evictable with
      | [] => some (.error (capacityError "cache capacity is pinned by active leases"), s)
      | first :: rest =>
        let victim := minByKey (fun e : CacheEntry => toLex (e.lastAccess, e.createdAt)) first rest
        evictUntilFits byteSize fuel (s.evictLocked victim)
    else some (.ok (), s)

/-- `_ensure_capacity_locked`; every pass through the loop removes an entry, so that
the fuel is enough. -/
def ensureCapacityLocked (byteSize : ℕ) (now : ℚ) (s : SequenceStateCache) :
    Except PyException Unit × SequenceStateCache :=
  let s := s.pruneLocked now
  (evictUntilFits cfg byteSize (s.entries.items.length + 1) s).getD
    (.error (.builtin "RuntimeError" "out of fuel"), s)

/-- `_lease_entry_locked` -/
def leaseEntryLocked (lease : CacheLease) (s : SequenceStateCache) :
    Except PyException CacheEntry :=
  match s.entries.get? lease.entryId with
  | none => .error (.builtin "RuntimeError" "cache lease is stale")
  | some entry =>
    if entry.generation ≠ lease.generation ∨ entry.key ≠ lease.key ∨ entry.refcount = 0 then
      .error (.builtin "RuntimeError" "cache lease is stale")
    else .ok entry

/-! ### The methods -/

/-- The end of `put`: room is made for the entry, and it enters the tables. -/
def storeLocked (key : ExactTokenCacheKey) (scope : CacheScope) (payload : List UInt8) (now : ℚ)
    (s : SequenceStateCache) : Except PyException PyStr × SequenceStateCache :=
  match ensureCapacityLocked cfg payload.length now s with
  | (.error exc, s) => (.error exc, s)
  | (.ok _, s) =>
    let entryId := cfg.uuid4 s.issued
    let entry : CacheEntry :=
      { entryId := entryId, generation := 1, key := key, scope := scope, payload := payload,
        byteSize := payload.length, createdAt := now, expiresAt := now + cfg.ttlSeconds,
        lastAccess := now }
    (.ok entryId, { s with
      entries := s.entries.set entryId entry
      index := s.index.set (key, scope) entryId
      bytesUsed := s.bytesUsed + entry.byteSize
      insertions := s.insertions + 1
      issued := s.issued + 1 })

/-- The locked block of `put`. -/
def putLocked (key : ExactTokenCacheKey) (scope : CacheScope) (payload : List UInt8) (now : ℚ)
    (s : SequenceStateCache) : Except PyException PyStr × SequenceStateCache :=
  let s := s.pruneLocked now
  match s.index.get? (key, scope) with
  | none => storeLocked cfg key scope payload now s
  | some existingId =>
    match s.entries.get? existingId with
    | none => (.error (.builtin "KeyError" ""), s)
    | some existing =>
      if existing.refcount ≠ 0 then
        (.error (capacityError "cannot replace a leased cache entry"), s)
      else storeLocked cfg key scope payload now (s.removeLocked existing true)

/-- `put` -/
def put (key : ExactTokenCacheKey) (scope : CacheScope) (payload : List UInt8)
    (now : Except PyException ℚ) (s : SequenceStateCache) :
    Except PyException PyStr × SequenceStateCache :=
  if payload = [] then (.error (.builtin "ValueError" "payload must be non-empty bytes"), s)
  else if cfg.byteBudget < payload.length then
    (.error (capacityError "cache entry exceeds the byte budget"), s)
  else
    match now with
    | .error exc => (.error exc, s)
    | .ok now => putLocked cfg key scope payload now s

def visibilityRank : CacheVisibility → ℕ
  | .PRIVATE => 0
  | .WORKFLOW => 1
  | .TENANT => 2

/-- A hit: the counters, and the lease of the entry. -/
def grant (key : ExactTokenCacheKey) (leased : CacheEntry) (mutable copyOnWrite : Bool)
    (s : SequenceStateCache) : Except PyException (Option CacheLease) × SequenceStateCache :=
  (.ok (some ⟨leased.entryId, leased.generation, leased.key, mutable, copyOnWrite⟩),
    { s with
      hits := s.hits + 1
      savedPrefillTokens := s.savedPrefillTokens + key.tokenIds.length })

/-- The private copy of a leased entry. -/
def cloneOf (entry : CacheEntry) (requester : CacheScope) (now : ℚ) (s : SequenceStateCache) :
    CacheEntry :=
  { entryId := cfg.uuid4 s.issued, generation := entry.generation + 1, key := entry.key,
    scope := requester, payload := entry.payload, byteSize := entry.byteSize, createdAt := now,
    expiresAt := now + cfg.ttlSeconds, lastAccess := now, refcount := 1, ephemeral := true }

/-- The entries an acquisition may be granted, the narrowest scope and then the most
recently used entry first. -/
def allowedEntries (key : ExactTokenCacheKey) (requester : CacheScope) (s : SequenceStateCache) :
    List CacheEntry :=
  (s.entries.values.filter fun entry => ¬ entry.ephemeral ∧ entry.key = key).filter
    fun entry => entry.scope.allows requester

/-- The locked block of `acquire`. -/
def acquireLocked (key : ExactTokenCacheKey) (requester : CacheScope) (mutable : Bool) (now : ℚ)
    (s : SequenceStateCache) : Except PyException (Option CacheLease) × SequenceStateCache :=
  let s := s.pruneLocked now
  match s.allowedEntries key requester with
  | [] =>
    if s.entries.values.any fun entry => ¬ entry.ephemeral ∧ entry.key = key then
      (.ok none, { s with denied := s.denied + 1 })
    else (.ok none, { s with misses := s.misses + 1 })
  | first :: rest =>
    let entry := minByKey (fun e : CacheEntry =>
      toLex (visibilityRank e.scope.visibility, -e.lastAccess)) first rest
    if mutable ∧ 0 < entry.refcount then
      match ensureCapacityLocked cfg entry.byteSize now s with
      | (.error exc, s) => (.error exc, s)
      | (.ok _, s) =>
        let clone := cloneOf cfg entry requester now s
        grant key clone mutable true { s with
          entries := s.entries.set clone.entryId clone
          bytesUsed := s.bytesUsed + clone.byteSize
          cowClones := s.cowClones + 1
          issued := s.issued + 1 }
    else
      grant key entry mutable false { s with
        entries := s.entries.set entry.entryId { entry with
          refcount := entry.refcount + 1
          lastAccess := now
          expiresAt := now + cfg.ttlSeconds } }

/-- `acquire` -/
def acquire (key : ExactTokenCacheKey) (requester : CacheScope) (mutable : Bool)
    (now : Except PyException ℚ) (s : SequenceStateCache) :
    Except PyException (Option CacheLease) × SequenceStateCache :=
  if mutable ∧ key.kind = .PREFIX then
    (.error (.builtin "ValueError" "prefix cache leases are immutable"), s)
  else
    match now with
    | .error exc => (.error exc, s)
    | .ok now => acquireLocked cfg key requester mutable now s

/-- `read` -/
def read (lease : CacheLease) (s : SequenceStateCache) : Except PyException (List UInt8) :=
  (s.leaseEntryLocked lease).map CacheEntry.payload

/-- `release` -/
def release (lease : CacheLease) (s : SequenceStateCache) : Bool × SequenceStateCache :=
  match s.entries.get? lease.entryId with
  | none => (false, s)
  | some entry =>
    if entry.generation ≠ lease.generation ∨ entry.refcount = 0 then (false, s)
    else
      let entry := { entry with refcount := entry.refcount - 1 }
      let s := { s with entries := s.entries.set lease.entryId entry }
      if entry.ephemeral ∧ entry.refcount = 0 then (true, s.removeLocked entry false)
      else (true, s)

/-- `commit_session` up to its `put`: the checks, and the first locked block. -/
def checkCommit (lease : CacheLease) (newKey : ExactTokenCacheKey) (s : SequenceStateCache) :
    Except PyException Unit :=
  if ¬ lease.mutable then
    .error (.builtin "ValueError" "commit_session requires a mutable lease")
  else if newKey.kind ≠ .SESSION then
    .error (.builtin "ValueError" "session commits require a session cache key")
  else (s.leaseEntryLocked lease).map fun _ => ()

/-- `commit_session`, with nothing between its parts. -/
def commitSession (lease : CacheLease) (newKey : ExactTokenCacheKey) (payload : List UInt8)
    (scope : CacheScope) (now : Except PyException ℚ) (s : SequenceStateCache) :
    Except PyException PyStr × SequenceStateCache :=
  match s.checkCommit lease newKey with
  | .error exc => (.error exc, s)
  | .ok _ =>
    match put cfg newKey scope payload now s with
    | (.error exc, s) => (.error exc, s)
    | (.ok entryId, s) => (.ok entryId, (s.release lease).2)

/-- `_identifier`, as `invalidate` calls it -/
def checkTenant (tenantId : PyStr) : Except PyException Unit :=
  if tenantId = [] then .error (.builtin "ValueError" "tenant_id must be 1..256 UTF-8 bytes")
  else
    match encodeUtf8 tenantId with
    | none => .error (.builtin "UnicodeEncodeError" "surrogates not allowed")
    | some bytes =>
      if 256 < bytes.length then
        .error (.builtin "ValueError" "tenant_id must be 1..256 UTF-8 bytes")
      else if tenantId.any fun c => CodePoint.IsControl c then
        .error (.builtin "ValueError" "tenant_id contains control characters")
      else .ok ()

/-- `invalidate` -/
def invalidate (tenantId : PyStr) (kind : Option CacheKind) (space : Option CacheNamespace)
    (s : SequenceStateCache) : Except PyException ℕ × SequenceStateCache :=
  match checkTenant tenantId with
  | .error exc => (.error exc, s)
  | .ok _ =>
    let targets := s.entries.values.filter fun entry =>
      entry.scope.tenantId = tenantId ∧ (kind = none ∨ kind = some entry.key.kind) ∧
        (space = none ∨ space = some entry.key.space) ∧ entry.refcount = 0
    (.ok targets.length, targets.foldl (fun s entry => s.removeLocked entry true) s)

/-- `prune` -/
def prune (now : Except PyException ℚ) (s : SequenceStateCache) :
    Except PyException ℕ × SequenceStateCache :=
  match now with
  | .error exc => (.error exc, s)
  | .ok now =>
    let pruned := s.pruneLocked now
    (.ok (s.entries.items.length - pruned.entries.items.length), pruned)

/-! ### Calls -/

inductive CacheOp where
  | put (key : ExactTokenCacheKey) (scope : CacheScope) (payload : List UInt8)
      (now : Except PyException ℚ)
  | acquire (key : ExactTokenCacheKey) (requester : CacheScope) (mutable : Bool)
      (now : Except PyException ℚ)
  | release (lease : CacheLease)
  | commitSession (lease : CacheLease) (newKey : ExactTokenCacheKey) (payload : List UInt8)
      (scope : CacheScope) (now : Except PyException ℚ)
  | invalidate (tenantId : PyStr) (kind : Option CacheKind) (space : Option CacheNamespace)
  | prune (now : Except PyException ℚ)

inductive CacheReply where
  | entryId (id : PyStr)
  | lease (lease : Option CacheLease)
  | released (found : Bool)
  | removed (count : ℕ)
  deriving DecidableEq

def perform (s : SequenceStateCache) : CacheOp → Except PyException CacheReply × SequenceStateCache
  | .put key scope payload now =>
    let (result, s) := put cfg key scope payload now s
    (result.map .entryId, s)
  | .acquire key requester mutable now =>
    let (result, s) := acquire cfg key requester mutable now s
    (result.map .lease, s)
  | .release lease =>
    let (found, s) := s.release lease
    (.ok (.released found), s)
  | .commitSession lease newKey payload scope now =>
    let (result, s) := commitSession cfg lease newKey payload scope now s
    (result.map .entryId, s)
  | .invalidate tenantId kind space =>
    let (result, s) := s.invalidate tenantId kind space
    (result.map .removed, s)
  | .prune now =>
    let (result, s) := s.prune now
    (result.map .removed, s)

end SequenceStateCache

end Inference
