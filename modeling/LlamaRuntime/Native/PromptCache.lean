/-
The prompt cache of the native runtime.

* `CacheEntry`, `PromptCache` — snapshots of sequences with what they are of;
* `restore`, `store`, `restoreSession`, `sessionRootAllowed`, `storeSession`,
  `clear` — the operations, with the removal of old entries in `prune` and `capture`;
* `CacheOp`, `PromptCache.run` — sequences of operations;
* `Provenance` — every entry was captured by an earlier operation, so that what is
  loaded is a snapshot of a part of the prompt (`loaded_from_store`).
-/
import LlamaRuntime.Native.PhaseController
import Mathlib.Data.List.Infix
import Mathlib.Order.MinMax

namespace Native

/-- A cell of the KV memory of a sequence. -/
structure Cell where
  position : ℕ
  token : Token
  deriving DecidableEq

/-- The state of a sequence as bytes: their number, and the cells they hold. -/
structure Snapshot where
  size : ℕ
  cells : List Cell
  deriving DecidableEq

/-- `PromptCacheKind` -/
inductive CacheKind where
  | promptPrefix | session
  deriving DecidableEq

structure CacheEntry where
  kind : CacheKind
  identity : PyStr
  sessionId : PyStr
  generation : ℕ
  parentGeneration : Option ℕ
  commitKey : PyStr
  tokens : List Token
  state : Snapshot
  lastAccess : ℤ
  deriving DecidableEq

/-- `PromptStateCache`, without the counters that only `stats` reads. -/
structure PromptCache where
  enabled : Bool
  byteBudget : ℕ
  maxEntries : ℕ
  ttl : ℤ
  entries : List CacheEntry
  bytesUsed : ℕ

structure CacheRestore where
  cachedTokens : ℕ
  exact : Bool

structure SessionStore where
  generation : ℕ
  copyOnWrite : Bool

/-- What the clock and `llama_state_seq_set_data` say. -/
structure RestoreReply where
  now : ℤ
  restored : Bool

/-- What the clock, `llama_state_seq_get_size` and `llama_state_seq_get_data` say. -/
structure CaptureReply where
  now : ℤ
  size : ℕ
  copied : ℕ

def minPrefixCacheTokens : ℕ := 16

namespace PromptCache

def bytesOf (entries : List CacheEntry) : ℕ := (entries.map fun e => e.state.size).sum

/-! ### Old entries -/

/-- `prune` -/
def prune (c : PromptCache) (now : ℤ) : PromptCache :=
  { c with
    entries := c.entries.filter fun e => now - e.lastAccess < c.ttl
    bytesUsed := c.bytesUsed - bytesOf (c.entries.filter fun e => ¬ now - e.lastAccess < c.ttl) }

/-- The first of the entries that were used least recently, and the others. -/
def leastRecent : List CacheEntry → Option (CacheEntry × List CacheEntry)
  | [] => none
  | e :: rest =>
    match leastRecent rest with
    | none => some (e, [])
    | some (victim, others) =>
      if victim.lastAccess < e.lastAccess then some (victim, e :: others) else some (e, rest)

/-- There is no room for this many bytes. -/
def full (c : PromptCache) (size : ℕ) : Bool :=
  c.byteBudget < c.bytesUsed + size || c.maxEntries ≤ c.entries.length

/-- The loop that evicts; as much fuel as there are entries is enough. -/
def makeRoom (size : ℕ) : ℕ → PromptCache → PromptCache
  | 0, c => c
  | fuel + 1, c =>
    if c.full size then
      match leastRecent c.entries with
      | none => c
      | some (victim, others) =>
        makeRoom size fuel
          { c with entries := others, bytesUsed := c.bytesUsed - victim.state.size }
    else c

/-- `capture`, of a sequence with these cells -/
def capture (c : PromptCache) (entry : CacheEntry) (cells : List Cell) (reply : CaptureReply) :
    PromptCache × Bool :=
  if reply.size = 0 ∨ c.byteBudget < reply.size then (c, false)
  else
    let c := makeRoom reply.size c.entries.length c
    if c.full reply.size then (c, false)
    else if reply.copied = 0 ∨ reply.size < reply.copied then (c, false)
    else
      ({ c with
          entries := c.entries ++ [{ entry with state := ⟨reply.copied, cells⟩ }]
          bytesUsed := c.bytesUsed + reply.copied },
        true)

/-! ### Snapshots of prompts -/

/-- An entry that a prompt with these tokens may be restored from. -/
def Usable (identity : PyStr) (tokens : List Token) (e : CacheEntry) : Prop :=
  e.kind = .promptPrefix ∧ e.identity = identity ∧ minPrefixCacheTokens ≤ e.tokens.length ∧
    e.tokens.length ≤ tokens.length - 1 ∧ e.tokens <+: tokens

instance (identity : PyStr) (tokens : List Token) (e : CacheEntry) :
    Decidable (Usable identity tokens e) :=
  inferInstanceAs (Decidable (_ ∧ _ ∧ _ ∧ _ ∧ _))

/-- One entry of the search for the longest one; of two of the same length the
one that was used last. -/
def better (identity : PyStr) (tokens : List Token) (best : Option (CacheEntry × ℕ))
    (e : CacheEntry × ℕ) : Option (CacheEntry × ℕ) :=
  if ¬ Usable identity tokens e.1 then best
  else
    match best with
    | none => some e
    | some b =>
      if e.1.tokens.length < b.1.tokens.length ∨
          e.1.tokens.length = b.1.tokens.length ∧ e.1.lastAccess ≤ b.1.lastAccess then some b
      else some e

/-- The entry the search ends with, and its place. -/
def bestEntry (c : PromptCache) (identity : PyStr) (tokens : List Token) :
    Option (CacheEntry × ℕ) :=
  c.entries.zipIdx.foldl (better identity tokens) none

/-- The entry at this place is used. -/
def touch (c : PromptCache) (place : ℕ) (now : ℤ) : PromptCache :=
  { c with entries := c.entries.modify place fun e => { e with lastAccess := now } }

/-- `restore`; the entry is the one whose state is given to the sequence. -/
def restore (c : PromptCache) (identity : PyStr) (tokens : List Token) (reply : RestoreReply) :
    PromptCache × Option CacheRestore × Option CacheEntry :=
  if c.enabled = false ∨ tokens.length ≤ 1 then (c, none, none)
  else
    let c := c.prune reply.now
    match c.bestEntry identity tokens with
    | none => (c, none, none)
    | some (e, place) =>
      if reply.restored = false then (c, none, some e)
      else
        (c.touch place reply.now, some ⟨e.tokens.length, e.tokens.length = tokens.length - 1⟩,
          some e)

/-- `store` -/
def store (c : PromptCache) (identity : PyStr) (tokens : List Token) (cells : List Cell)
    (reply : CaptureReply) : PromptCache × Bool :=
  if c.enabled = false ∨ tokens = [] then (c, false)
  else
    let c := c.prune reply.now
    match c.entries.findIdx? fun e =>
      e.kind = .promptPrefix ∧ e.identity = identity ∧ e.tokens = tokens with
    | some place => (c.touch place reply.now, true)
    | none =>
      c.capture
        { kind := .promptPrefix
          identity
          sessionId := []
          generation := 0
          parentGeneration := none
          commitKey := []
          tokens
          state := ⟨0, []⟩
          lastAccess := reply.now } cells reply

/-! ### Snapshots of sessions -/

/-- A snapshot of this session. -/
def InSession (identity sessionId : PyStr) (e : CacheEntry) : Prop :=
  e.kind = .session ∧ e.identity = identity ∧ e.sessionId = sessionId

instance (identity sessionId : PyStr) (e : CacheEntry) :
    Decidable (InSession identity sessionId e) :=
  inferInstanceAs (Decidable (_ ∧ _ ∧ _))

/-- `restore_session`; the entry is the one whose state is given to the sequence. -/
def restoreSession (c : PromptCache) (identity sessionId : PyStr) (generation : ℕ)
    (tokens : List Token) (reply : RestoreReply) :
    PromptCache × Option CacheRestore × Option CacheEntry :=
  if c.enabled = false ∨ tokens.length ≤ 1 then (c, none, none)
  else
    let c := c.prune reply.now
    match c.entries.zipIdx.find? fun e =>
      InSession identity sessionId e.1 ∧ e.1.generation = generation with
    | none => (c, none, none)
    | some (e, place) =>
      if tokens.length - 1 < e.tokens.length ∨ ¬ e.tokens <+: tokens then (c, none, none)
      else if reply.restored = false then (c, none, some e)
      else
        (c.touch place reply.now, some ⟨e.tokens.length, e.tokens.length = tokens.length - 1⟩,
          some e)

/-- `session_root_allowed` -/
def sessionRootAllowed (c : PromptCache) (identity sessionId commitKey : PyStr) (now : ℤ) :
    PromptCache × Bool :=
  let c := c.prune now
  (c, c.entries.all fun e => ¬ (InSession identity sessionId e ∧ e.commitKey ≠ commitKey))

/-- The generation that follows those of the snapshots of a session. -/
def freshGeneration (siblings : List CacheEntry) : ℕ :=
  siblings.foldl (fun generation e => max generation (e.generation + 1)) 1

/-- `store_session` -/
def storeSession (c : PromptCache) (identity sessionId : PyStr) (parentGeneration : Option ℕ)
    (commitKey : PyStr) (tokens : List Token) (cells : List Cell) (reply : CaptureReply) :
    PromptCache × Option SessionStore :=
  if c.enabled = false ∨ tokens = [] then (c, none)
  else
    let c := c.prune reply.now
    match c.entries.zipIdx.find? fun e =>
      InSession identity sessionId e.1 ∧ e.1.commitKey = commitKey with
    | some (e, place) =>
      if e.parentGeneration ≠ parentGeneration ∨ e.tokens ≠ tokens then (c, none)
      else (c.touch place reply.now, some ⟨e.generation, false⟩)
    | none =>
      let siblings := c.entries.filter fun e => InSession identity sessionId e
      if parentGeneration = none ∧ siblings ≠ [] then (c, none)
      else
        let generation := freshGeneration siblings
        let captured := c.capture
          { kind := .session
            identity
            sessionId
            generation
            parentGeneration
            commitKey
            tokens
            state := ⟨0, []⟩
            lastAccess := reply.now } cells reply
        (captured.1,
          if captured.2 then
            some ⟨generation, siblings.any fun e => e.parentGeneration = parentGeneration⟩
          else none)

/-- `clear` -/
def clear (c : PromptCache) : PromptCache := { c with entries := [], bytesUsed := 0 }

/-! ### Sequences of operations -/

end PromptCache

/-- An operation on the cache, with what the outside says to it. -/
inductive CacheOp where
  | restore (identity : PyStr) (tokens : List Token) (reply : RestoreReply)
  | store (identity : PyStr) (tokens : List Token) (cells : List Cell) (reply : CaptureReply)
  | restoreSession (identity sessionId : PyStr) (generation : ℕ) (tokens : List Token)
      (reply : RestoreReply)
  | sessionRootAllowed (identity sessionId commitKey : PyStr) (now : ℤ)
  | storeSession (identity sessionId : PyStr) (parentGeneration : Option ℕ) (commitKey : PyStr)
      (tokens : List Token) (cells : List Cell) (reply : CaptureReply)
  | stats (now : ℤ)
  | clear

namespace PromptCache

/-- The cache after an operation. -/
def after (c : PromptCache) : CacheOp → PromptCache
  | .restore identity tokens reply => (c.restore identity tokens reply).1
  | .store identity tokens cells reply => (c.store identity tokens cells reply).1
  | .restoreSession identity sessionId generation tokens reply =>
    (c.restoreSession identity sessionId generation tokens reply).1
  | .sessionRootAllowed identity sessionId commitKey now =>
    (c.sessionRootAllowed identity sessionId commitKey now).1
  | .storeSession identity sessionId parent commitKey tokens cells reply =>
    (c.storeSession identity sessionId parent commitKey tokens cells reply).1
  | .stats now => c.prune now
  | .clear => c.clear

def run (c : PromptCache) (ops : List CacheOp) : PromptCache := ops.foldl after c

theorem run_concat (c : PromptCache) (ops : List CacheOp) (op : CacheOp) :
    c.run (ops ++ [op]) = (c.run ops).after op := by
  rw [run, List.foldl_append]
  rfl

/-! ### What the operations do to the entries -/

/-- An entry up to when it was used. -/
def Same (e e' : CacheEntry) : Prop := { e with lastAccess := 0 } = { e' with lastAccess := 0 }

theorem Same.refl (e : CacheEntry) : Same e e := rfl

theorem Same.fields {e e' : CacheEntry} (h : Same e e') :
    e.kind = e'.kind ∧ e.identity = e'.identity ∧ e.sessionId = e'.sessionId ∧
      e.generation = e'.generation ∧ e.parentGeneration = e'.parentGeneration ∧
      e.commitKey = e'.commitKey ∧ e.tokens = e'.tokens ∧ e.state = e'.state := by
  have h' := CacheEntry.mk.inj h
  exact ⟨h'.1, h'.2.1, h'.2.2.1, h'.2.2.2.1, h'.2.2.2.2.1, h'.2.2.2.2.2.1, h'.2.2.2.2.2.2.1,
    h'.2.2.2.2.2.2.2.1⟩

/-- Every entry was there before, perhaps used at another time. -/
def Kept (c c' : PromptCache) : Prop := ∀ e' ∈ c'.entries, ∃ e ∈ c.entries, Same e e'

theorem Kept.refl (c : PromptCache) : Kept c c := fun e he => ⟨e, he, .refl e⟩

theorem Kept.trans {c c' c'' : PromptCache} (h : Kept c c') (h' : Kept c' c'') : Kept c c'' := by
  intro e'' he''
  obtain ⟨e', he', hsame'⟩ := h' e'' he''
  obtain ⟨e, he, hsame⟩ := h e' he'
  exact ⟨e, he, hsame.trans hsame'⟩

theorem kept_prune (c : PromptCache) (now : ℤ) : Kept c (c.prune now) :=
  fun e he => ⟨e, List.mem_of_mem_filter he, .refl e⟩

theorem kept_touch (c : PromptCache) (place : ℕ) (now : ℤ) : Kept c (c.touch place now) := by
  intro e' he'
  obtain ⟨i, hi, rfl⟩ := List.mem_iff_getElem.mp he'
  have hlen : i < c.entries.length := by
    rw [touch, List.length_modify] at hi
    exact hi
  refine ⟨c.entries[i], List.getElem_mem hlen, ?_⟩
  simp only [touch, List.getElem_modify]
  by_cases hp : place = i
  · rw [if_pos hp]
    rfl
  · rw [if_neg hp]
    rfl

/-- No entry goes when one is used. -/
theorem mem_touch {c : PromptCache} {e : CacheEntry} (he : e ∈ c.entries) (place : ℕ) (now : ℤ) :
    ∃ e' ∈ (c.touch place now).entries, Same e e' := by
  obtain ⟨i, hi, rfl⟩ := List.mem_iff_getElem.mp he
  have hlength : i < (c.touch place now).entries.length := by
    rw [touch, List.length_modify]
    exact hi
  refine ⟨(c.touch place now).entries[i], List.getElem_mem hlength, ?_⟩
  simp only [touch, List.getElem_modify]
  by_cases hp : place = i
  · rw [if_pos hp]
    rfl
  · rw [if_neg hp]
    rfl

theorem leastRecent_sub {entries others : List CacheEntry} {victim : CacheEntry}
    (h : leastRecent entries = some (victim, others)) : ∀ e ∈ others, e ∈ entries := by
  induction entries generalizing victim others with
  | nil => exact absurd h (by simp [leastRecent])
  | cons e rest ih =>
    unfold leastRecent at h
    cases hrest : leastRecent rest with
    | none =>
      rw [hrest] at h
      obtain ⟨-, rfl⟩ := Prod.mk.inj (Option.some_inj.mp h)
      exact fun _ he => absurd he List.not_mem_nil
    | some found =>
      rw [hrest] at h
      dsimp only at h
      split_ifs at h with hless
      · obtain ⟨-, rfl⟩ := Prod.mk.inj (Option.some_inj.mp h)
        intro e' he'
        rcases List.mem_cons.mp he' with rfl | he'
        · exact List.mem_cons_self
        · exact List.mem_cons_of_mem _ (ih hrest e' he')
      · obtain ⟨-, rfl⟩ := Prod.mk.inj (Option.some_inj.mp h)
        exact fun e' he' => List.mem_cons_of_mem _ he'

theorem kept_makeRoom (size : ℕ) : ∀ (fuel : ℕ) (c : PromptCache), Kept c (makeRoom size fuel c) := by
  intro fuel
  induction fuel with
  | zero => exact fun c => .refl c
  | succ fuel ih =>
    intro c
    unfold makeRoom
    split_ifs with hfull
    · cases hleast : leastRecent c.entries with
      | none => exact .refl c
      | some found =>
        refine Kept.trans (fun e he => ⟨e, ?_, .refl e⟩) (ih _)
        exact leastRecent_sub hleast e he
    · exact .refl c

/-- An entry is captured behind those that were kept, or nothing is added. -/
theorem capture_cases (c : PromptCache) (entry : CacheEntry) (cells : List Cell)
    (reply : CaptureReply) :
    ((c.capture entry cells reply).2 = false ∧ Kept c (c.capture entry cells reply).1) ∨
      ((c.capture entry cells reply).2 = true ∧ ∃ c' size, Kept c c' ∧
        (c.capture entry cells reply).1.entries
          = c'.entries ++ [{ entry with state := ⟨size, cells⟩ }]) := by
  unfold capture
  have hroom := kept_makeRoom reply.size c.entries.length c
  dsimp only
  split_ifs with hsize hfull hcopied
  · exact .inl ⟨rfl, .refl c⟩
  · exact .inl ⟨rfl, hroom⟩
  · exact .inl ⟨rfl, hroom⟩
  · exact .inr ⟨rfl, _, _, hroom, rfl⟩

/-- What `storeSession` does: it refuses, it finds the snapshot of this commit key, or
it captures a new one. -/
inductive SessionStored (c : PromptCache) (identity sessionId : PyStr)
    (parentGeneration : Option ℕ) (commitKey : PyStr) (tokens : List Token) (cells : List Cell)
    (reply : CaptureReply) : PromptCache × Option SessionStore → Prop
  | refused (c' : PromptCache) (kept : Kept c c') :
      SessionStored c identity sessionId parentGeneration commitKey tokens cells reply (c', none)
  | found (e : CacheEntry) (place : ℕ) (mem : e ∈ (c.prune reply.now).entries)
      (session : InSession identity sessionId e) (key : e.commitKey = commitKey)
      (parent : e.parentGeneration = parentGeneration) (same : e.tokens = tokens) :
      SessionStored c identity sessionId parentGeneration commitKey tokens cells reply
        ((c.prune reply.now).touch place reply.now, some ⟨e.generation, false⟩)
  | inserted (c' : PromptCache) (siblings : List CacheEntry) (size : ℕ) (copyOnWrite : Bool)
      (nonempty : tokens ≠ [])
      (fresh : ∀ e ∈ (c.prune reply.now).entries,
        ¬ (InSession identity sessionId e ∧ e.commitKey = commitKey))
      (only : siblings = (c.prune reply.now).entries.filter fun e => InSession identity sessionId e)
      (kept : ∃ kept, Kept c kept ∧ c'.entries = kept.entries ++
        [⟨.session, identity, sessionId, freshGeneration siblings, parentGeneration, commitKey,
          tokens, ⟨size, cells⟩, reply.now⟩])
      (cow : copyOnWrite = siblings.any fun e => e.parentGeneration = parentGeneration) :
      SessionStored c identity sessionId parentGeneration commitKey tokens cells reply
        (c', some ⟨freshGeneration siblings, copyOnWrite⟩)

theorem sessionStored (c : PromptCache) (identity sessionId : PyStr)
    (parentGeneration : Option ℕ) (commitKey : PyStr) (tokens : List Token) (cells : List Cell)
    (reply : CaptureReply) :
    SessionStored c identity sessionId parentGeneration commitKey tokens cells reply
      (c.storeSession identity sessionId parentGeneration commitKey tokens cells reply) := by
  unfold storeSession
  by_cases henabled : c.enabled = false ∨ tokens = []
  · rw [if_pos henabled]
    exact .refused c (.refl c)
  rw [if_neg henabled]
  have hpruned := kept_prune c reply.now
  dsimp only
  cases hfind : (c.prune reply.now).entries.zipIdx.find? fun e =>
      InSession identity sessionId e.1 ∧ e.1.commitKey = commitKey with
  | some found =>
    obtain ⟨e, place⟩ := found
    have hmem := List.fst_mem_of_mem_zipIdx (List.mem_of_find?_eq_some hfind)
    have hsession := List.find?_some hfind
    simp only [decide_eq_true_eq] at hsession
    by_cases hother : e.parentGeneration ≠ parentGeneration ∨ e.tokens ≠ tokens
    · simp only [if_pos hother]
      exact .refused _ hpruned
    · simp only [if_neg hother]
      rw [not_or, not_not, not_not] at hother
      exact .found e place hmem hsession.1 hsession.2 hother.1 hother.2
  | none =>
    dsimp only
    set siblings := (c.prune reply.now).entries.filter fun e => InSession identity sessionId e
      with hsiblings
    by_cases hroot : parentGeneration = none ∧ siblings ≠ []
    · rw [if_pos hroot]
      exact .refused _ hpruned
    rw [if_neg hroot]
    have hfresh : ∀ e ∈ (c.prune reply.now).entries,
        ¬ (InSession identity sessionId e ∧ e.commitKey = commitKey) := by
      intro e he
      obtain ⟨i, hi⟩ := List.mem_iff_getElem?.mp he
      have hzip : (e, i) ∈ (c.prune reply.now).entries.zipIdx := List.mem_zipIdx_iff_getElem?.mpr hi
      simpa using List.find?_eq_none.mp hfind (e, i) hzip
    rcases capture_cases (c.prune reply.now)
        ⟨.session, identity, sessionId, freshGeneration siblings, parentGeneration, commitKey,
          tokens, ⟨0, []⟩, reply.now⟩ cells reply with
      ⟨hrefused, hkept⟩ | ⟨haccepted, c', size, hkept, hentries⟩
    · simp only [hrefused]
      exact .refused _ (hpruned.trans hkept)
    · simp only [haccepted, if_true]
      exact .inserted _ siblings size _ (fun h => henabled (.inr h)) hfresh hsiblings
        ⟨c', hpruned.trans hkept, hentries⟩ rfl

/-- What `storeSession` returns is the generation of a snapshot of these tokens that it leaves. -/
theorem storeSession_leaves {c : PromptCache} {identity sessionId : PyStr}
    {parentGeneration : Option ℕ} {commitKey : PyStr} {tokens : List Token} {cells : List Cell}
    {reply : CaptureReply} {stored : SessionStore}
    (h : (c.storeSession identity sessionId parentGeneration commitKey tokens cells reply).2
      = some stored) :
    ∃ e ∈ (c.storeSession identity sessionId parentGeneration commitKey tokens cells reply).1.entries,
      InSession identity sessionId e ∧ e.generation = stored.generation ∧
        e.parentGeneration = parentGeneration ∧ e.commitKey = commitKey ∧ e.tokens = tokens := by
  have hstored := sessionStored c identity sessionId parentGeneration commitKey tokens cells reply
  revert hstored h
  generalize c.storeSession identity sessionId parentGeneration commitKey tokens cells reply = result
  intro h hstored
  cases hstored with
  | refused => exact absurd h (by simp)
  | found e place mem session key parent same =>
    obtain rfl := Option.some_inj.mp h
    obtain ⟨e', he', hsame⟩ := mem_touch mem place reply.now
    obtain ⟨hkind, hidentity, hsession, hgeneration, hparent, hkey, htokens, -⟩ := hsame.fields
    exact ⟨e', he', ⟨hkind ▸ session.1, hidentity ▸ session.2.1, hsession ▸ session.2.2⟩,
      hgeneration.symm, hparent.symm.trans parent, hkey.symm.trans key, htokens.symm.trans same⟩
  | inserted c' siblings size copyOnWrite nonempty fresh only kept cow =>
    obtain rfl := Option.some_inj.mp h
    obtain ⟨kept, -, hentries⟩ := kept
    have hmem : (⟨.session, identity, sessionId, freshGeneration siblings, parentGeneration, commitKey,
        tokens, ⟨size, cells⟩, reply.now⟩ : CacheEntry) ∈ c'.entries := by
      rw [hentries]
      exact List.mem_append_right _ (List.mem_singleton_self _)
    exact ⟨_, hmem, ⟨rfl, rfl, rfl⟩, rfl, rfl, rfl, rfl⟩

/-! ### Where the entries come from -/

/-- The operation captured a state: of what, and the cells. -/
def Captures (identity : PyStr) (tokens : List Token) (cells : List Cell) : CacheOp → Prop
  | .store identity' tokens' cells' _ => identity' = identity ∧ tokens' = tokens ∧ cells' = cells
  | .storeSession identity' _ _ _ tokens' cells' _ =>
    identity' = identity ∧ tokens' = tokens ∧ cells' = cells
  | _ => False

/-- Every entry holds tokens, and this holds of its identity, its tokens and its cells. -/
def Holds (P : PyStr → List Token → List Cell → Prop) (c : PromptCache) : Prop :=
  ∀ e ∈ c.entries, e.tokens ≠ [] ∧ P e.identity e.tokens e.state.cells

/-- Every entry was captured by one of the operations. -/
def Provenance (ops : List CacheOp) (c : PromptCache) : Prop :=
  c.Holds fun identity tokens cells => ∃ op ∈ ops, Captures identity tokens cells op

section Holds

variable {P : PyStr → List Token → List Cell → Prop}

theorem Holds.kept {c c' : PromptCache} (h : c.Holds P) (hkept : Kept c c') : c'.Holds P := by
  intro e' he'
  obtain ⟨e, he, hsame⟩ := hkept e' he'
  obtain ⟨-, hidentity, -, -, -, -, htokens, hstate⟩ := hsame.fields
  rw [← hidentity, ← htokens, ← hstate]
  exact h e he

theorem Holds.capture {c : PromptCache} (h : c.Holds P) {entry : CacheEntry} {cells : List Cell}
    {reply : CaptureReply} (hne : entry.tokens ≠ []) (hP : P entry.identity entry.tokens cells) :
    (c.capture entry cells reply).1.Holds P := by
  rcases capture_cases c entry cells reply with ⟨-, hkept⟩ | ⟨-, c', size, hkept, hentries⟩
  · exact h.kept hkept
  · intro e he
    rw [hentries] at he
    rcases List.mem_append.mp he with he | he
    · exact h.kept hkept e he
    · obtain rfl := List.mem_singleton.mp he
      exact ⟨hne, hP⟩

end Holds

theorem kept_restore (c : PromptCache) (identity : PyStr) (tokens : List Token)
    (reply : RestoreReply) : Kept c (c.restore identity tokens reply).1 := by
  unfold restore
  by_cases henabled : c.enabled = false ∨ tokens.length ≤ 1
  · rw [if_pos henabled]
    exact .refl c
  · rw [if_neg henabled]
    dsimp only
    split
    · exact kept_prune c _
    · split_ifs with hrestored
      · exact kept_prune c _
      · exact (kept_prune c _).trans (kept_touch _ _ _)

theorem kept_restoreSession (c : PromptCache) (identity sessionId : PyStr) (generation : ℕ)
    (tokens : List Token) (reply : RestoreReply) :
    Kept c (c.restoreSession identity sessionId generation tokens reply).1 := by
  unfold restoreSession
  by_cases henabled : c.enabled = false ∨ tokens.length ≤ 1
  · rw [if_pos henabled]
    exact .refl c
  · rw [if_neg henabled]
    dsimp only
    split
    · exact kept_prune c _
    · split_ifs with hlength hrestored
      · exact kept_prune c _
      · exact kept_prune c _
      · exact (kept_prune c _).trans (kept_touch _ _ _)

/-- What one operation keeps, if it holds of what the operation captures. -/
theorem Holds.after {P : PyStr → List Token → List Cell → Prop} {c : PromptCache} (h : c.Holds P)
    {op : CacheOp} (hop : ∀ identity tokens cells, Captures identity tokens cells op →
      P identity tokens cells) : (c.after op).Holds P := by
  cases op with
  | restore identity tokens reply => exact h.kept (kept_restore c _ _ _)
  | restoreSession identity sessionId generation tokens reply =>
    exact h.kept (kept_restoreSession c _ _ _ _ _)
  | sessionRootAllowed identity sessionId commitKey now => exact h.kept (kept_prune c _)
  | stats now => exact h.kept (kept_prune c _)
  | clear => exact fun e he => absurd he List.not_mem_nil
  | store identity tokens cells reply =>
    show (c.store identity tokens cells reply).1.Holds P
    unfold store
    split_ifs with henabled
    · exact h
    · have hpruned := h.kept (kept_prune c reply.now)
      dsimp only
      split
      · exact hpruned.kept (kept_touch _ _ _)
      · exact hpruned.capture (fun h => henabled (.inr h)) (hop _ _ _ ⟨rfl, rfl, rfl⟩)
  | storeSession identity sessionId parent commitKey tokens cells reply =>
    show (c.storeSession identity sessionId parent commitKey tokens cells reply).1.Holds P
    have hstored := sessionStored c identity sessionId parent commitKey tokens cells reply
    revert hstored
    generalize c.storeSession identity sessionId parent commitKey tokens cells reply = result
    rintro (⟨c', kept⟩ | ⟨e, place⟩ | ⟨c', siblings, size, _, nonempty, -, -, ⟨kept, hkept, hentries⟩⟩)
    · exact h.kept kept
    · exact (h.kept (kept_prune c _)).kept (kept_touch _ _ _)
    · intro e he
      have he : e ∈ c'.entries := he
      rw [hentries] at he
      rcases List.mem_append.mp he with he | he
      · exact h.kept hkept e he
      · obtain rfl := List.mem_singleton.mp he
        exact ⟨nonempty, hop _ _ _ ⟨rfl, rfl, rfl⟩⟩

/-- What one operation keeps. -/
theorem Provenance.after {ops : List CacheOp} {c : PromptCache} (h : Provenance ops c)
    (op : CacheOp) : Provenance (ops ++ [op]) (c.after op) := by
  refine Holds.after (fun e he => ?_) fun identity tokens cells hcaptures =>
    ⟨op, List.mem_append_right _ (List.mem_singleton_self op), hcaptures⟩
  obtain ⟨hne, earlier, hmem, hcaptures⟩ := h e he
  exact ⟨hne, earlier, List.mem_append_left _ hmem, hcaptures⟩

/-- What a sequence of operations keeps. -/
theorem provenance_run {c : PromptCache} (hempty : c.entries = []) (ops : List CacheOp) :
    Provenance ops (c.run ops) := by
  induction ops using List.reverseRecOn with
  | nil => exact fun e he => absurd (hempty ▸ he) List.not_mem_nil
  | append_singleton ops op ih =>
    rw [run_concat]
    exact ih.after op

/-- The search ends with a usable entry of the cache. -/
theorem bestEntry_some {c : PromptCache} {identity : PyStr} {tokens : List Token}
    {e : CacheEntry} {place : ℕ} (h : c.bestEntry identity tokens = some (e, place)) :
    e ∈ c.entries ∧ Usable identity tokens e := by
  have hfold : ∀ (l : List (CacheEntry × ℕ)) (best : Option (CacheEntry × ℕ)),
      (∀ b ∈ best, b ∈ c.entries.zipIdx ∧ Usable identity tokens b.1) →
      (∀ b ∈ l, b ∈ c.entries.zipIdx) →
      ∀ b ∈ l.foldl (better identity tokens) best,
        b ∈ c.entries.zipIdx ∧ Usable identity tokens b.1 := by
    intro l
    induction l with
    | nil => exact fun best hbest _ => hbest
    | cons x l ih =>
      intro best hbest hl
      refine ih _ (fun b hb => ?_) fun b hb => hl b (List.mem_cons_of_mem x hb)
      have hx := hl x List.mem_cons_self
      unfold better at hb
      by_cases husable : Usable identity tokens x.1
      · rw [if_neg (not_not.mpr husable)] at hb
        cases best with
        | none =>
          obtain rfl := Option.some_inj.mp hb
          exact ⟨hx, husable⟩
        | some best =>
          dsimp only at hb
          split_ifs at hb with hless
          · exact hbest b hb
          · obtain rfl := Option.some_inj.mp hb
            exact ⟨hx, husable⟩
      · rw [if_pos husable] at hb
        exact hbest b hb
  obtain ⟨hmem, husable⟩ := hfold c.entries.zipIdx none (fun b hb => absurd hb (by simp))
    (fun b hb => hb) (e, place) h
  exact ⟨List.fst_mem_of_mem_zipIdx hmem, husable⟩

/-- The entry that a restore operation gives to a sequence. -/
def loaded (c : PromptCache) : CacheOp → Option CacheEntry
  | .restore identity tokens reply => (c.restore identity tokens reply).2.2
  | .restoreSession identity sessionId generation tokens reply =>
    (c.restoreSession identity sessionId generation tokens reply).2.2
  | _ => none

/-- The identity and the prompt of a restore operation. -/
def RestoresFor (identity : PyStr) (prompt : List Token) : CacheOp → Prop
  | .restore identity' tokens _ => identity' = identity ∧ tokens = prompt
  | .restoreSession identity' _ _ tokens _ => identity' = identity ∧ tokens = prompt
  | _ => False

/-- What is loaded is an entry of the cache, of the same identity, and of a
proper part of the prompt from its start. -/
theorem loaded_cases {c : PromptCache} {op : CacheOp} {e : CacheEntry}
    (h : c.loaded op = some e) : e ∈ c.entries ∧ ∃ prompt, RestoresFor e.identity prompt op ∧
      e.tokens <+: prompt ∧ e.tokens.length ≤ prompt.length - 1 ∧ 1 < prompt.length := by
  cases op with
  | restore identity tokens reply =>
    change (c.restore identity tokens reply).2.2 = some e at h
    unfold restore at h
    by_cases henabled : c.enabled = false ∨ tokens.length ≤ 1
    · rw [if_pos henabled] at h
      exact absurd h (by simp)
    · rw [if_neg henabled] at h
      dsimp only at h
      split at h
      · exact absurd h (by simp)
      · next e' place hbest =>
        obtain ⟨hmem, husable⟩ := bestEntry_some hbest
        have he : e' = e := by
          split_ifs at h
          · exact Option.some_inj.mp h
          · exact Option.some_inj.mp h
        subst he
        rw [not_or] at henabled
        exact ⟨List.mem_of_mem_filter hmem, tokens, ⟨husable.2.1.symm, rfl⟩, husable.2.2.2.2,
          husable.2.2.2.1, by omega⟩
  | restoreSession identity sessionId generation tokens reply =>
    change (c.restoreSession identity sessionId generation tokens reply).2.2 = some e at h
    unfold restoreSession at h
    by_cases henabled : c.enabled = false ∨ tokens.length ≤ 1
    · rw [if_pos henabled] at h
      exact absurd h (by simp)
    · rw [if_neg henabled] at h
      dsimp only at h
      split at h
      · exact absurd h (by simp)
      · next e' place hfind =>
        by_cases hlength : tokens.length - 1 < e'.tokens.length ∨ ¬ e'.tokens <+: tokens
        · rw [if_pos hlength] at h
          exact absurd h (by simp)
        · rw [if_neg hlength] at h
          have he : e' = e := by
            split_ifs at h
            · exact Option.some_inj.mp h
            · exact Option.some_inj.mp h
          subst he
          have hmem := List.mem_of_find?_eq_some hfind
          have hsession := List.find?_some hfind
          simp only [decide_eq_true_eq] at hsession
          rw [not_or, not_not] at hlength
          rw [not_or] at henabled
          exact ⟨List.mem_of_mem_filter (List.fst_mem_of_mem_zipIdx hmem), tokens,
            ⟨hsession.1.2.1.symm, rfl⟩, hlength.2, by omega, by omega⟩
  | _ => exact absurd h (by simp [loaded])

/-- What is loaded for a generation of a session is its snapshot. -/
theorem loaded_session {c : PromptCache} {identity sessionId : PyStr} {generation : ℕ}
    {tokens : List Token} {reply : RestoreReply} {e : CacheEntry}
    (h : c.loaded (.restoreSession identity sessionId generation tokens reply) = some e) :
    e ∈ c.entries ∧ InSession identity sessionId e ∧ e.generation = generation := by
  change (c.restoreSession identity sessionId generation tokens reply).2.2 = some e at h
  unfold restoreSession at h
  by_cases henabled : c.enabled = false ∨ tokens.length ≤ 1
  · rw [if_pos henabled] at h
    exact absurd h (by simp)
  · rw [if_neg henabled] at h
    dsimp only at h
    split at h
    · exact absurd h (by simp)
    · next e' place hfind =>
      have he : e' = e := by
        split_ifs at h
        · exact Option.some_inj.mp h
        · exact Option.some_inj.mp h
      subst he
      have hmem := List.mem_of_find?_eq_some hfind
      have hsession := List.find?_some hfind
      simp only [decide_eq_true_eq] at hsession
      exact ⟨List.mem_of_mem_filter (List.fst_mem_of_mem_zipIdx hmem), hsession.1, hsession.2⟩

/-- **What is loaded was captured for the same identity.**  After any operations
on an empty cache, a restore operation gives a sequence only a state that an
earlier operation captured, under the identity of the sequence and of tokens that
are a proper part of its prompt from its start. -/
theorem loaded_from_store {c : PromptCache} (hempty : c.entries = []) (ops : List CacheOp)
    {op : CacheOp} {e : CacheEntry} (h : (c.run ops).loaded op = some e) :
    ∃ prompt, RestoresFor e.identity prompt op ∧ e.tokens <+: prompt ∧
      e.tokens.length < prompt.length ∧
      ∃ earlier ∈ ops, Captures e.identity e.tokens e.state.cells earlier := by
  obtain ⟨hmem, prompt, hfor, hprefix, hlength, hlong⟩ := loaded_cases h
  obtain ⟨-, earlier, hearlier, hcaptures⟩ := provenance_run hempty ops e hmem
  exact ⟨prompt, hfor, hprefix, by omega, earlier, hearlier, hcaptures⟩

end PromptCache

end Native
