/-
Clients and their leases.

Any number of clients call the cache; `commit_session` takes the lock three times,
and other clients may come in between.  A lease is a value, so that giving it back
twice takes away the pin of another client.

* `Clients`, `moved` — the cache, the leases held, and the calls under way;
* `leases_pin` — while no lease is given back twice, a lease can be read;
* `cache_isolation` — what is read has been stored for its reader.
-/
import LlamaRuntime.Inference.CacheFailures

namespace Inference

namespace SequenceStateCache

/-- A lease a client has not given back, and what it could read when it was granted. -/
structure Holding where
  client : ℕ
  lease : CacheLease
  granted : Except PyException (List UInt8)
  deriving DecidableEq

/-- A lease and the call it has been granted to. -/
structure Grant where
  key : ExactTokenCacheKey
  requester : CacheScope
  lease : CacheLease
  deriving DecidableEq

/-- A value `put` has stored. -/
structure Stored where
  key : ExactTokenCacheKey
  scope : CacheScope
  payload : List UInt8

/-- Where a client is in `commit_session`. -/
inductive CommitPart where
  | checked (lease : CacheLease) (newKey : ExactTokenCacheKey) (payload : List UInt8)
      (scope : CacheScope) (now : Except PyException ℚ)
  | stored (lease : CacheLease)

structure Clients where
  cache : SequenceStateCache := {}
  commits : ℕ → Option CommitPart := fun _ => none
  held : List Holding := []
  grants : List Grant := []
  puts : List Stored := []

/-- A call, or the next locked part of the call a client has made. -/
inductive ClientMove where
  | call (op : CacheOp)
  | resume

variable (cfg : CacheConfig)

/-- `put` by a client. -/
def clientPut (key : ExactTokenCacheKey) (scope : CacheScope) (payload : List UInt8)
    (now : Except PyException ℚ) (w : Clients) : Except PyException PyStr × Clients :=
  match put cfg key scope payload now w.cache with
  | (.error exc, cache) => (.error exc, { w with cache := cache })
  | (.ok id, cache) =>
    (.ok id, { w with cache := cache, puts := ⟨key, scope, payload⟩ :: w.puts })

/-- `acquire` by a client, who can read its lease at once. -/
def clientAcquire (client : ℕ) (key : ExactTokenCacheKey) (requester : CacheScope) (mutable : Bool)
    (now : Except PyException ℚ) (w : Clients) : Clients :=
  match acquire cfg key requester mutable now w.cache with
  | (.ok (some lease), cache) =>
    { w with
      cache := cache
      held := ⟨client, lease, cache.read lease⟩ :: w.held
      grants := ⟨key, requester, lease⟩ :: w.grants }
  | (_, cache) => { w with cache := cache }

/-- The holding is the client's, of this lease. -/
def Holding.Is (client : ℕ) (lease : CacheLease) (h : Holding) : Prop :=
  h.client = client ∧ h.lease = lease

instance (client : ℕ) (lease : CacheLease) : DecidablePred (Holding.Is client lease) :=
  fun _ => inferInstanceAs (Decidable (_ ∧ _))

/-- `release` by a client, who holds the lease no longer. -/
def clientRelease (client : ℕ) (lease : CacheLease) (w : Clients) : Clients :=
  { w with
    cache := (w.cache.release lease).2
    held := w.held.eraseP (Holding.Is client lease) }

def setCommit (client : ℕ) (part : Option CommitPart) (w : Clients) : Clients :=
  { w with commits := Function.update w.commits client part }

def clientCall (client : ℕ) (w : Clients) : CacheOp → Clients
  | .put key scope payload now => (clientPut cfg key scope payload now w).2
  | .acquire key requester mutable now => clientAcquire cfg client key requester mutable now w
  | .release lease => clientRelease client lease w
  | .commitSession lease newKey payload scope now =>
    match w.cache.checkCommit lease newKey with
    | .error _ => w
    | .ok _ => setCommit client (some (.checked lease newKey payload scope now)) w
  | .invalidate tenantId kind space => { w with cache := (w.cache.invalidate tenantId kind space).2 }
  | .prune now => { w with cache := (w.cache.prune now).2 }

/-- A client in the middle of `commit_session` makes no other call. -/
def moved (w : Clients) : ℕ × ClientMove → Clients
  | (client, .call op) =>
    match w.commits client with
    | none => clientCall cfg client w op
    | some _ => w
  | (client, .resume) =>
    match w.commits client with
    | none => w
    | some (.checked lease newKey payload scope now) =>
      match clientPut cfg newKey scope payload now w with
      | (.error _, w) => setCommit client none w
      | (.ok _, w) => setCommit client (some (.stored lease)) w
    | some (.stored lease) => setCommit client none (clientRelease client lease w)

/-- With nothing in between, the three parts are the method. -/
theorem moved_commitSession (w : Clients) (client : ℕ) (hidle : w.commits client = none)
    (lease : CacheLease) (newKey : ExactTokenCacheKey) (payload : List UInt8) (scope : CacheScope)
    (now : Except PyException ℚ) :
    ([(client, .call (.commitSession lease newKey payload scope now)), (client, .resume),
        (client, .resume)].foldl (moved cfg) w).cache =
      (commitSession cfg lease newKey payload scope now w.cache).2 := by
  simp only [List.foldl_cons, List.foldl_nil]
  unfold commitSession
  cases hcheck : w.cache.checkCommit lease newKey with
  | error exc => simp [moved, clientCall, hidle, hcheck]
  | ok _ =>
    rcases hput : put cfg newKey scope payload now w.cache with ⟨result, cache⟩
    cases result with
    | error exc =>
      simp [moved, clientCall, hidle, hcheck, setCommit, clientPut, hput]
    | ok id =>
      simp [moved, clientCall, hidle, hcheck, setCommit, clientPut, hput, clientRelease]

/-! ### Pins -/

/-- The holding is of a lease of this entry. -/
def Holding.Names (id : PyStr) (generation : ℕ) (h : Holding) : Prop :=
  h.lease.entryId = id ∧ h.lease.generation = generation

instance (id : PyStr) (generation : ℕ) : DecidablePred (Holding.Names id generation) :=
  fun _ => inferInstanceAs (Decidable (_ ∧ _))

/-- The count of an entry is the number of its leases, and every lease is of an entry
that is there, with what its holder was granted. -/
structure Pinned (cfg : CacheConfig) (s : SequenceStateCache) (held : List Holding) : Prop where
  represents : Represents cfg s
  counted : ∀ id e, s.entries.get? id = some e →
    e.refcount = held.countP fun h => h.Names id e.generation
  present : ∀ h ∈ held, ∃ e, s.entries.get? h.lease.entryId = some e ∧
    e.generation = h.lease.generation ∧ e.key = h.lease.key ∧ h.granted = .ok e.payload

variable {cfg} {s s' : SequenceStateCache} {held : List Holding}

theorem Pinned.leased (h : Pinned cfg s held) {x : Holding} (hx : x ∈ held) {e : CacheEntry}
    (hget : s.entries.get? x.lease.entryId = some e) : 0 < e.refcount := by
  obtain ⟨e', hget', hgeneration, _⟩ := h.present x hx
  obtain rfl := Option.some_inj.mp (hget.symm.trans hget')
  rw [h.counted _ e hget]
  exact List.countP_pos_iff.mpr ⟨x, hx, decide_eq_true ⟨rfl, hgeneration.symm⟩⟩

/-- No lease is of an entry that is not there. -/
theorem Pinned.unnamed (h : Pinned cfg s held) {id : PyStr} (hnone : s.entries.get? id = none)
    (generation : ℕ) : (held.countP fun x => x.Names id generation) = 0 := by
  refine List.countP_eq_zero.mpr fun x hx hnames => ?_
  obtain ⟨hid, _⟩ := of_decide_eq_true hnames
  obtain ⟨e, hget, _⟩ := h.present x hx
  rw [hid, hnone] at hget
  exact absurd hget (by simp)

theorem Pinned.drops (h : Pinned cfg s held) (hs' : Represents cfg s') (hdrops : Drops Unleased s s') :
    Pinned cfg s' held := by
  refine ⟨hs', fun id e hget => h.counted id e (hdrops.get? hget), fun x hx => ?_⟩
  obtain ⟨e, hget, hrest⟩ := h.present x hx
  have hleased := h.leased hx hget
  exact ⟨e, hdrops.keeps hget (Nat.pos_iff_ne_zero.mp hleased), hrest⟩

/-- A new entry has the leases that come with it. -/
theorem Pinned.entered (h : Pinned cfg s held) (hs' : Represents cfg s') {e : CacheEntry}
    (hentered : Entered cfg s s' e) {new : List Holding}
    (hcount : e.refcount = new.countP fun x => x.Names e.entryId e.generation)
    (hnew : ∀ x ∈ new, x.lease.entryId = e.entryId ∧ e.generation = x.lease.generation ∧
      e.key = x.lease.key ∧ x.granted = .ok e.payload) : Pinned cfg s' (new ++ held) := by
  obtain ⟨hid, _, mid, hmid, hentries⟩ := hentered
  have hget? : ∀ id, s'.entries.get? id = if e.entryId = id then some e else mid.entries.get? id := by
    intro id
    rw [hentries, Dict.get?_set, hid]
  have hfresh := h.unnamed (fresh_id h.represents)
  refine ⟨hs', fun id e' hget => ?_, fun x hx => ?_⟩
  · rw [List.countP_append]
    rw [hget?] at hget
    split_ifs at hget with heq
    · obtain rfl := Option.some_inj.mp hget
      subst heq
      have hzero := hfresh e.generation
      rw [← hid] at hzero
      omega
    · -- none of the new leases is of another entry
      have hnone : (new.countP fun x => x.Names id e'.generation) = 0 := by
        refine List.countP_eq_zero.mpr fun x hx hnames => heq ?_
        rw [← (hnew x hx).1]
        exact (of_decide_eq_true hnames).1
      have hold := h.counted id e' (hmid.get? hget)
      omega
  · rcases List.mem_append.mp hx with hx | hx
    · obtain ⟨hid', hrest⟩ := hnew x hx
      exact ⟨e, by rw [hget?, if_pos hid'.symm], hrest⟩
    · obtain ⟨e', hget, hrest⟩ := h.present x hx
      have hleased := h.leased hx hget
      refine ⟨e', ?_, hrest⟩
      rw [hget?, if_neg]
      · exact hmid.keeps hget (Nat.pos_iff_ne_zero.mp hleased)
      · intro heq
        rw [← heq, hid, fresh_id h.represents] at hget
        exact absurd hget (by simp)

theorem read_eq {lease : CacheLease} {e : CacheEntry} (hget : s.entries.get? lease.entryId = some e)
    (hgeneration : e.generation = lease.generation) (hkey : e.key = lease.key)
    (hleased : 0 < e.refcount) : s.read lease = .ok e.payload := by
  have hcurrent : ¬ (e.generation ≠ lease.generation ∨ e.key ≠ lease.key ∨ e.refcount = 0) := by
    rintro (hc | hc | hc)
    · exact hc hgeneration
    · exact hc hkey
    · omega
  unfold read leaseEntryLocked
  rw [hget]
  dsimp only
  rw [if_neg hcurrent]
  rfl

theorem Pinned.read (h : Pinned cfg s held) {x : Holding} (hx : x ∈ held) :
    ∃ payload, x.granted = .ok payload ∧ s.read x.lease = .ok payload := by
  obtain ⟨e, hget, hgeneration, hkey, hgranted⟩ := h.present x hx
  exact ⟨e.payload, hgranted, read_eq hget hgeneration hkey (h.leased hx hget)⟩

variable {key : ExactTokenCacheKey} {scope requester : CacheScope} {payload : List UInt8}

theorem Pinned.put (h : Pinned cfg s held) (now : Except PyException ℚ) :
    Pinned cfg (put cfg key scope payload now s).2 held := by
  obtain ⟨hrep, hends⟩ := put_spec h.represents key scope payload now
  generalize SequenceStateCache.put cfg key scope payload now s = r at hrep hends ⊢
  cases hends with
  | refused drops => exact h.drops hrep drops
  | stored entered _ _ _ free _ =>
    have hnone : ∀ {e : CacheEntry}, e.refcount = 0 →
        e.refcount = ([] : List Holding).countP fun x => x.Names e.entryId e.generation := id
    exact h.entered hrep entered (hnone free) fun x hx => absurd hx List.not_mem_nil

/-- One more lease of an entry that is there. -/
theorem Pinned.shared (h : Pinned cfg s held) (hs' : Represents cfg s') {e e' : CacheEntry}
    (hget : s.entries.get? e.entryId = some e)
    (hcounted : e' = { e with
      refcount := e.refcount + 1, lastAccess := e'.lastAccess, expiresAt := e'.expiresAt })
    (hentries : s'.entries = s.entries.set e.entryId e') {x : Holding}
    (hlease : x.lease.entryId = e.entryId ∧ x.lease.generation = e.generation ∧
      x.lease.key = e.key) (hgranted : x.granted = .ok e.payload) : Pinned cfg s' (x :: held) := by
  obtain ⟨hid, hgeneration, hkey⟩ := hlease
  have hsame : SameEntry e e' := by
    rw [hcounted]
    exact ⟨rfl, rfl, rfl, rfl, rfl⟩
  have hcount : e'.refcount = e.refcount + 1 := by rw [hcounted]
  have hget? : ∀ id, s'.entries.get? id =
      if e.entryId = id then some e' else s.entries.get? id := by
    intro id
    rw [hentries, Dict.get?_set]
  refine ⟨hs', fun id e₁ hget₁ => ?_, fun y hy => ?_⟩
  · rw [hget?] at hget₁
    split_ifs at hget₁ with heq
    · obtain rfl := Option.some_inj.mp hget₁
      subst heq
      have hold := h.counted _ e hget
      have hnames : x.Names e.entryId e.generation := ⟨hid, hgeneration⟩
      rw [hsame.generation, List.countP_cons, if_pos (decide_eq_true hnames)]
      omega
    · rw [List.countP_cons_of_neg]
      · exact h.counted id e₁ hget₁
      · exact fun hnames => heq (hid.symm.trans (of_decide_eq_true hnames).1)
  · rcases List.mem_cons.mp hy with rfl | hy
    · refine ⟨e', by rw [hget?, if_pos hid.symm], ?_, ?_, ?_⟩
      · rw [hsame.generation, hgeneration]
      · rw [hsame.key, hkey]
      · rw [hsame.payload, hgranted]
    · obtain ⟨e₁, hget₁, hgeneration₁, hkey₁, hgranted₁⟩ := h.present y hy
      rw [hget?]
      by_cases heq : e.entryId = y.lease.entryId
      · rw [← heq, hget] at hget₁
        obtain rfl := Option.some_inj.mp hget₁
        refine ⟨e', if_pos heq, hsame.generation.trans hgeneration₁, hsame.key.trans hkey₁, ?_⟩
        rw [hsame.payload, hgranted₁]
      · exact ⟨e₁, (if_neg heq).trans hget₁, hgeneration₁, hkey₁, hgranted₁⟩

theorem Pinned.acquire {w : Clients} (h : Pinned cfg w.cache w.held) (client : ℕ) (mutable : Bool)
    (now : Except PyException ℚ) :
    Pinned cfg (clientAcquire cfg client key requester mutable now w).cache
      (clientAcquire cfg client key requester mutable now w).held := by
  obtain ⟨hrep, hends⟩ := acquire_spec h.represents key requester mutable now
  unfold clientAcquire
  generalize SequenceStateCache.acquire cfg key requester mutable now w.cache = r at hrep hends ⊢
  cases hends with
  | @refused r cache drops none =>
    have hkept := h.drops hrep drops
    match r, none with
    | .error exc, _ => exact hkept
    | .ok .none, _ => exact hkept
    | .ok (some lease), none => exact absurd rfl (none lease)
  | @shared e e' mid cache drops present indexed key_eq allowed counted entries issued represents =>
    have hread : cache.read ⟨e.entryId, e.generation, e.key, mutable, false⟩ = .ok e'.payload := by
      have hget : cache.entries.get? e.entryId = some e' := by rw [entries, Dict.get?_set_self]
      refine read_eq hget ?_ ?_ ?_
      · rw [counted]
      · rw [counted]
      · rw [counted]
        exact Nat.succ_pos _
    have hpayload : e'.payload = e.payload := by rw [counted]
    exact (h.drops represents drops).shared hrep present counted entries ⟨rfl, rfl, rfl⟩
      (hread.trans (congrArg Except.ok hpayload))
  | @cloned e clone cache entered present leased indexed key_eq allowed mutable_eq clone_key
      clone_payload pinned ephemeral =>
    have hread : cache.read ⟨clone.entryId, clone.generation, clone.key, mutable, true⟩ =
        .ok clone.payload := by
      obtain ⟨hid, _, mid, _, hentries⟩ := entered
      have hget : cache.entries.get? clone.entryId = some clone := by
        rw [hentries, hid, Dict.get?_set_self]
      exact read_eq hget rfl rfl (by omega)
    let x : Holding :=
      ⟨client, ⟨clone.entryId, clone.generation, clone.key, mutable, true⟩, .ok clone.payload⟩
    have hone : clone.refcount = [x].countP fun y => y.Names clone.entryId clone.generation := by
      have hnames : x.Names clone.entryId clone.generation := ⟨rfl, rfl⟩
      rw [pinned, List.countP_cons, if_pos (decide_eq_true hnames), List.countP_nil]
    have hkept : Pinned cfg cache ([x] ++ w.held) := h.entered hrep entered hone fun y hy => by
      obtain rfl := List.mem_singleton.mp hy
      exact ⟨rfl, rfl, rfl, rfl⟩
    dsimp only
    rw [hread]
    exact hkept

/-- Whoever gives a lease back holds it, or no lease of the entry is held. -/
def ReleasesOwn (client : ℕ) (lease : CacheLease) (held : List Holding) : Prop :=
  (∃ x ∈ held, x.Is client lease) ∨ ∀ x ∈ held, ¬ x.Names lease.entryId lease.generation

/-- The holder gives its lease back. -/
theorem Pinned.release_own (h : Pinned cfg s held) {client : ℕ} {lease : CacheLease} {x : Holding}
    (hx : x ∈ held) (his : x.Is client lease) :
    Pinned cfg (s.release lease).2 (held.eraseP (Holding.Is client lease)) := by
  obtain ⟨y, l₁, l₂, _, hy, hsplit, herase⟩ :=
    List.exists_of_eraseP (p := (Holding.Is client lease ·)) hx (decide_eq_true his)
  have hperm : held.Perm (y :: held.eraseP (Holding.Is client lease)) := by
    rw [herase, hsplit]
    exact List.perm_middle
  have hlease : y.lease = lease := (of_decide_eq_true hy).2
  obtain ⟨e, hget, hgeneration, _⟩ := h.present y (hperm.mem_iff.mpr List.mem_cons_self)
  rw [hlease] at hget hgeneration
  -- one lease fewer of the entry, as many of the others
  have hcounted : ∀ id generation, (held.countP fun z => z.Names id generation) =
      ((held.eraseP (Holding.Is client lease)).countP fun z => z.Names id generation) +
        if lease.entryId = id ∧ lease.generation = generation then 1 else 0 := by
    intro id generation
    rw [hperm.countP_eq, List.countP_cons]
    simp only [Holding.Names, hlease, decide_eq_true_eq]
  have hpresent : ∀ z ∈ held.eraseP (Holding.Is client lease), ∃ e',
      s.entries.get? z.lease.entryId = some e' ∧ e'.generation = z.lease.generation ∧
        e'.key = z.lease.key ∧ z.granted = .ok e'.payload :=
    fun z hz => h.present z (hperm.mem_iff.mpr (List.mem_cons_of_mem _ hz))
  have hcount := h.counted _ e hget
  rw [hcounted, if_pos ⟨rfl, hgeneration.symm⟩] at hcount
  obtain ⟨hrep, hends⟩ := release_spec h.represents lease
  generalize s.release lease = r at hrep hends ⊢
  cases hends with
  | stale missing =>
    have hzero := missing e hget hgeneration
    omega
  | @counted e₁ s' present generation leased left entries issued =>
    obtain rfl := Option.some_inj.mp (hget.symm.trans present)
    have hget? : ∀ id, s'.entries.get? id = if lease.entryId = id then
        some { e with refcount := e.refcount - 1 } else s.entries.get? id := by
      intro id
      rw [entries, Dict.get?_set]
    refine ⟨hrep, fun id e' hget' => ?_, fun z hz => ?_⟩
    · rw [hget?] at hget'
      split_ifs at hget' with heq
      · obtain rfl := Option.some_inj.mp hget'
        subst heq
        show e.refcount - 1 = (held.eraseP _).countP fun z => z.Names lease.entryId e.generation
        omega
      · have hold := h.counted id e' hget'
        rw [hcounted, if_neg fun hc => heq hc.1] at hold
        exact hold
    · obtain ⟨e', hget', hgeneration', hkey', hgranted'⟩ := hpresent z hz
      rw [hget?]
      by_cases heq : lease.entryId = z.lease.entryId
      · rw [← heq, hget] at hget'
        obtain rfl := Option.some_inj.mp hget'
        exact ⟨_, if_pos heq, hgeneration', hkey', hgranted'⟩
      · exact ⟨e', (if_neg heq).trans hget', hgeneration', hkey', hgranted'⟩
  | @removed e₁ s' present generation last ephemeral entry issued =>
    obtain rfl := Option.some_inj.mp (hget.symm.trans present)
    refine ⟨hrep, fun id e' hget' => ?_, fun z hz => ?_⟩
    · rw [entry] at hget'
      split_ifs at hget' with heq
      have hold := h.counted id e' hget'
      rw [hcounted, if_neg fun hc => heq hc.1] at hold
      exact hold
    · obtain ⟨e', hget', hgeneration', hrest⟩ := hpresent z hz
      refine ⟨e', ?_, hgeneration', hrest⟩
      rw [entry, if_neg]
      · exact hget'
      · -- another lease of the private copy would have been counted
        intro heq
        rw [← heq, hget] at hget'
        obtain rfl := Option.some_inj.mp hget'
        have hnames : z.Names lease.entryId e.generation := ⟨heq.symm, hgeneration'.symm⟩
        have hpos : 0 < (held.eraseP (Holding.Is client lease)).countP
            fun z => z.Names lease.entryId e.generation :=
          List.countP_pos_iff.mpr ⟨z, hz, decide_eq_true hnames⟩
        omega

/-- A lease of an entry that has none changes nothing. -/
theorem Pinned.release_none (h : Pinned cfg s held) {client : ℕ} {lease : CacheLease}
    (hnone : ∀ x ∈ held, ¬ x.Names lease.entryId lease.generation) :
    Pinned cfg (s.release lease).2 (held.eraseP (Holding.Is client lease)) := by
  have hsame : held.eraseP (Holding.Is client lease) = held := by
    refine List.eraseP_of_forall_not fun x hx his => hnone x hx ?_
    obtain ⟨_, hlease⟩ := of_decide_eq_true his
    rw [← hlease]
    exact ⟨rfl, rfl⟩
  have hzero : ∀ e, s.entries.get? lease.entryId = some e → e.generation = lease.generation →
      e.refcount = 0 := by
    intro e hget hgeneration
    rw [h.counted _ e hget, hgeneration]
    exact List.countP_eq_zero.mpr fun x hx hnames => hnone x hx (of_decide_eq_true hnames)
  rw [hsame]
  obtain ⟨_, hends⟩ := release_spec h.represents lease
  generalize s.release lease = r at hends ⊢
  cases hends with
  | stale => exact h
  | counted present generation leased =>
    have hnot := hzero _ present generation
    omega
  | removed present generation last =>
    have hnot := hzero _ present generation
    omega

theorem Pinned.release (h : Pinned cfg s held) {client : ℕ} {lease : CacheLease}
    (hown : ReleasesOwn client lease held) :
    Pinned cfg (s.release lease).2 (held.eraseP (Holding.Is client lease)) := by
  rcases hown with ⟨x, hx, his⟩ | hnone
  · exact h.release_own hx his
  · exact h.release_none hnone

/-! ### Runs -/

/-- The move gives back a lease of the client's own, if it gives one back. -/
def GivesOwn (w : Clients) : ℕ × ClientMove → Prop
  | (client, .call (.release lease)) =>
    w.commits client = none → ReleasesOwn client lease w.held
  | (_, .call _) => True
  | (client, .resume) =>
    ∀ lease, w.commits client = some (.stored lease) → ReleasesOwn client lease w.held

/-- No move of the run gives back a lease that is another client's. -/
def GivesOwnAlong (cfg : CacheConfig) : Clients → List (ℕ × ClientMove) → Prop
  | _, [] => True
  | w, m :: rest => GivesOwn w m ∧ GivesOwnAlong cfg (moved cfg w m) rest

theorem Pinned.clientPut {w : Clients} (h : Pinned cfg w.cache w.held) (now : Except PyException ℚ) :
    Pinned cfg (clientPut cfg key scope payload now w).2.cache
      (clientPut cfg key scope payload now w).2.held := by
  have hkept : Pinned cfg (SequenceStateCache.put cfg key scope payload now w.cache).2 w.held :=
    h.put now
  unfold SequenceStateCache.clientPut
  generalize SequenceStateCache.put cfg key scope payload now w.cache = r at hkept ⊢
  match r, hkept with
  | (.error _, _), hkept => exact hkept
  | (.ok _, _), hkept => exact hkept

theorem Pinned.clientCall {w : Clients} (h : Pinned cfg w.cache w.held) {client : ℕ} {op : CacheOp}
    (hown : ∀ lease, op = .release lease → ReleasesOwn client lease w.held) :
    Pinned cfg (clientCall cfg client w op).cache (clientCall cfg client w op).held := by
  cases op with
  | put key scope payload now => exact h.clientPut now
  | acquire key requester mutable now => exact h.acquire client mutable now
  | release lease => exact h.release (hown lease rfl)
  | commitSession lease newKey payload scope now =>
    unfold SequenceStateCache.clientCall
    dsimp only
    cases w.cache.checkCommit lease newKey with
    | error exc => exact h
    | ok _ => exact h
  | invalidate tenantId kind space =>
    obtain ⟨hrep, hdrops⟩ := invalidate_spec h.represents tenantId kind space
    exact h.drops hrep hdrops
  | prune now =>
    obtain ⟨hrep, hdrops⟩ := prune_spec h.represents now
    exact h.drops hrep hdrops

theorem Pinned.moved {w : Clients} (h : Pinned cfg w.cache w.held) {m : ℕ × ClientMove}
    (hown : GivesOwn w m) : Pinned cfg (moved cfg w m).cache (moved cfg w m).held := by
  obtain ⟨client, move⟩ := m
  unfold SequenceStateCache.moved
  cases move with
  | call op =>
    dsimp only
    cases hcommit : w.commits client with
    | some part => exact h
    | none =>
      refine h.clientCall fun lease hlease => ?_
      subst hlease
      exact hown hcommit
  | resume =>
    dsimp only
    cases hcommit : w.commits client with
    | none => exact h
    | some part =>
      cases part with
      | stored lease => exact h.release (hown lease hcommit)
      | checked lease newKey payload scope now =>
        have hkept : Pinned cfg (SequenceStateCache.clientPut cfg newKey scope payload now w).2.cache
            (SequenceStateCache.clientPut cfg newKey scope payload now w).2.held := h.clientPut now
        dsimp only
        generalize SequenceStateCache.clientPut cfg newKey scope payload now w = r at hkept ⊢
        match r, hkept with
        | (.error _, _), hkept => exact hkept
        | (.ok _, _), hkept => exact hkept

/-- **A lease pins its entry.**  In every run in which nobody gives back a lease that is
held by another client, a lease that is held can be read, and gives what it gave
when it was granted. -/
theorem leases_pin (cfg : CacheConfig) (moves : List (ℕ × ClientMove))
    (hown : GivesOwnAlong cfg {} moves) :
    ∀ x ∈ (moves.foldl (moved cfg) {}).held, ∃ payload, x.granted = .ok payload ∧
      (moves.foldl (moved cfg) {}).cache.read x.lease = .ok payload := by
  have hrun : ∀ (moves : List (ℕ × ClientMove)) (w : Clients), Pinned cfg w.cache w.held →
      GivesOwnAlong cfg w moves →
        Pinned cfg (moves.foldl (moved cfg) w).cache (moves.foldl (moved cfg) w).held := by
    intro moves
    induction moves with
    | nil => exact fun _ h _ => h
    | cons m rest ih =>
      intro w h hown
      obtain ⟨hfirst, hrest⟩ := hown
      exact ih _ (h.moved hfirst) hrest
  have hstart : Pinned cfg ({} : Clients).cache ({} : Clients).held :=
    ⟨represents_empty, fun _ _ hget => absurd hget (by simp), fun _ hx => absurd hx (by simp)⟩
  intro x hx
  exact (hrun moves {} hstart hown).read hx

/-- The lease both clients are granted. -/
def sharedLease : CacheLease := ⟨[], 1, sampleKey 1, false, false⟩

def shareMoves : List (ℕ × ClientMove) :=
  [(0, .call (.put (sampleKey 1) sampleScope [1, 1, 1] (.ok 0))),
    (0, .call (.acquire (sampleKey 1) sampleScope false (.ok 0))),
    (1, .call (.acquire (sampleKey 1) sampleScope false (.ok 0))),
    (0, .call (.release sharedLease))]

theorem shareMoves_own : GivesOwnAlong sampleCache {} shareMoves := by
  refine ⟨trivial, trivial, trivial, fun _ => .inl ?_, trivial⟩
  exact ⟨⟨0, sharedLease, .ok [1, 1, 1]⟩, by decide +kernel, rfl, rfl⟩

theorem leases_pin_shared :
    (shareMoves.foldl (moved sampleCache) {}).cache.read sharedLease = .ok [1, 1, 1] := by
  have hheld : ⟨1, sharedLease, .ok [1, 1, 1]⟩ ∈ (shareMoves.foldl (moved sampleCache) {}).held := by
    decide +kernel
  obtain ⟨payload, hgranted, hread⟩ := leases_pin sampleCache shareMoves shareMoves_own _ hheld
  obtain rfl := Except.ok.inj hgranted
  exact hread

/-- The first client gives its lease back twice, and the second cannot read its own. -/
def releasedTwice : List (ℕ × ClientMove) := shareMoves ++ [(0, .call (.release sharedLease))]

theorem double_release_unpins : ¬ ∀ (cfg : CacheConfig) (moves : List (ℕ × ClientMove)),
    ∀ x ∈ (moves.foldl (moved cfg) {}).held, ∃ payload, x.granted = .ok payload ∧
      (moves.foldl (moved cfg) {}).cache.read x.lease = .ok payload := by
  intro hpins
  have hheld : ⟨1, sharedLease, .ok [1, 1, 1]⟩ ∈ (releasedTwice.foldl (moved sampleCache) {}).held := by
    decide +kernel
  have hstale : (releasedTwice.foldl (moved sampleCache) {}).cache.read sharedLease =
      .error (.builtin "RuntimeError" "cache lease is stale") := by decide +kernel
  obtain ⟨payload, _, hread⟩ := hpins sampleCache releasedTwice _ hheld
  rw [hstale] at hread
  exact absurd hread (by simp)

/-! ### Isolation -/

/-- The payload has been stored under this key, for this requester among others. -/
def StoredFor (key : ExactTokenCacheKey) (requester : CacheScope) (payload : List UInt8)
    (puts : List Stored) : Prop :=
  ∃ p ∈ puts, p.key = key ∧ p.payload = payload ∧ p.scope.allows requester

/-- What is in the cache has been stored, and what a lease is of, for its requester. -/
structure Isolated (cfg : CacheConfig) (s : SequenceStateCache) (puts : List Stored)
    (grants : List Grant) : Prop where
  represents : Represents cfg s
  stored : ∀ id e, s.entries.get? id = some e → e.ephemeral = false →
    (⟨e.key, e.scope, e.payload⟩ : Stored) ∈ puts
  granted : ∀ g ∈ grants, g.lease.key = g.key ∧ (∃ n < s.issued, g.lease.entryId = cfg.uuid4 n) ∧
    ∀ e, s.entries.get? g.lease.entryId = some e → StoredFor e.key g.requester e.payload puts

variable {puts : List Stored} {grants : List Grant}

/-- Every entry has been there before, but for its count and its times. -/
structure Narrows (s s' : SequenceStateCache) : Prop where
  entry : ∀ id e', s'.entries.get? id = some e' → ∃ e, s.entries.get? id = some e ∧ SameEntry e e'
  issued : s'.issued = s.issued

theorem Drops.narrows {P : CacheEntry → Prop} (h : Drops P s s') : Narrows s s' :=
  ⟨fun _ e' hget => ⟨e', h.get? hget, .refl e'⟩, h.issued⟩

/-- An entry is counted again. -/
theorem narrows_set {e e' : CacheEntry} {id : PyStr} (hget : s.entries.get? id = some e)
    (hsame : SameEntry e e') (hentries : s'.entries = s.entries.set id e')
    (hissued : s'.issued = s.issued) : Narrows s s' := by
  refine ⟨fun id' e₁ hget₁ => ?_, hissued⟩
  rw [hentries, Dict.get?_set] at hget₁
  split_ifs at hget₁ with heq
  · obtain rfl := Option.some_inj.mp hget₁
    exact ⟨e, heq ▸ hget, hsame⟩
  · exact ⟨e₁, hget₁, .refl e₁⟩

theorem release_narrows (h : Represents cfg s) (lease : CacheLease) :
    Narrows s (s.release lease).2 := by
  obtain ⟨_, hends⟩ := release_spec h lease
  generalize s.release lease = r at hends ⊢
  cases hends with
  | stale => exact (Drops.refl (fun _ => False) s).narrows
  | @counted e _ present _ _ _ entries issued =>
    have hsame : SameEntry e { e with refcount := e.refcount - 1 } := ⟨rfl, rfl, rfl, rfl, rfl⟩
    exact narrows_set present hsame entries issued
  | removed _ _ _ _ entry issued =>
    refine ⟨fun id e' hget => ?_, issued⟩
    rw [entry] at hget
    split_ifs at hget
    exact ⟨e', hget, .refl e'⟩

theorem Isolated.narrows (h : Isolated cfg s puts grants) (hs' : Represents cfg s')
    (hnarrows : Narrows s s') : Isolated cfg s' puts grants := by
  refine ⟨hs', fun id e' hget hindexed => ?_, fun g hg => ?_⟩
  · obtain ⟨e, hget, hsame⟩ := hnarrows.entry id e' hget
    rw [hsame.key, hsame.scope, hsame.payload]
    exact h.stored id e hget (hsame.ephemeral.symm.trans hindexed)
  · obtain ⟨hkey, hdrawn, hfor⟩ := h.granted g hg
    refine ⟨hkey, ?_, fun e' hget => ?_⟩
    · rw [hnarrows.issued]
      exact hdrawn
    · obtain ⟨e, hget, hsame⟩ := hnarrows.entry _ e' hget
      rw [hsame.key, hsame.payload]
      exact hfor e hget

/-- A new entry is none that has been leased before. -/
theorem Isolated.entered (h : Isolated cfg s puts grants) (hs' : Represents cfg s') {e : CacheEntry}
    (hentered : Entered cfg s s' e) {puts' : List Stored} (hmore : ∀ p ∈ puts, p ∈ puts')
    (hstored : e.ephemeral = false → (⟨e.key, e.scope, e.payload⟩ : Stored) ∈ puts') :
    Isolated cfg s' puts' grants := by
  obtain ⟨_, hissued, mid, hmid, hentries⟩ := hentered
  refine ⟨hs', fun id e' hget hindexed => ?_, fun g hg => ?_⟩
  · rw [hentries, Dict.get?_set] at hget
    split_ifs at hget with heq
    · obtain rfl := Option.some_inj.mp hget
      exact hstored hindexed
    · exact hmore _ (h.stored id e' (hmid.get? hget) hindexed)
  · obtain ⟨hkey, ⟨n, hn, hid⟩, hfor⟩ := h.granted g hg
    refine ⟨hkey, ⟨n, by omega, hid⟩, fun e' hget => ?_⟩
    have hne : cfg.uuid4 s.issued ≠ g.lease.entryId := by
      intro heq
      have hsame := cfg.uuid4_injective (heq.trans hid)
      omega
    rw [hentries, Dict.get?_set_ne hne] at hget
    obtain ⟨p, hp, hrest⟩ := hfor e' (hmid.get? hget)
    exact ⟨p, hmore p hp, hrest⟩

/-- One more grant, of an entry that is there. -/
theorem Isolated.grant (h : Isolated cfg s puts grants) {g : Grant} {e : CacheEntry}
    (hget : s.entries.get? g.lease.entryId = some e) (hlease : g.lease.key = g.key)
    (hfor : StoredFor e.key g.requester e.payload puts) : Isolated cfg s puts (g :: grants) := by
  refine ⟨h.represents, h.stored, fun g' hg' => ?_⟩
  rcases List.mem_cons.mp hg' with rfl | hg'
  · refine ⟨hlease, h.represents.drawn _ e hget, fun e' hget' => ?_⟩
    obtain rfl := Option.some_inj.mp (hget.symm.trans hget')
    exact hfor
  · exact h.granted g' hg'

theorem Isolated.clientPut {w : Clients} (h : Isolated cfg w.cache w.puts w.grants)
    (now : Except PyException ℚ) :
    Isolated cfg (clientPut cfg key scope payload now w).2.cache
      (clientPut cfg key scope payload now w).2.puts
      (clientPut cfg key scope payload now w).2.grants := by
  obtain ⟨hrep, hends⟩ := put_spec h.represents key scope payload now
  unfold SequenceStateCache.clientPut
  generalize SequenceStateCache.put cfg key scope payload now w.cache = r at hrep hends ⊢
  cases hends with
  | refused drops => exact h.narrows hrep drops.narrows
  | stored entered key_eq scope_eq payload_eq _ _ =>
    refine h.entered hrep entered (fun _ => List.mem_cons_of_mem _) fun _ => ?_
    rw [key_eq, scope_eq, payload_eq]
    exact List.mem_cons_self

theorem Isolated.clientAcquire {w : Clients} (h : Isolated cfg w.cache w.puts w.grants) (client : ℕ)
    (mutable : Bool) (now : Except PyException ℚ) :
    Isolated cfg (clientAcquire cfg client key requester mutable now w).cache
      (clientAcquire cfg client key requester mutable now w).puts
      (clientAcquire cfg client key requester mutable now w).grants := by
  obtain ⟨hrep, hends⟩ := acquire_spec h.represents key requester mutable now
  unfold SequenceStateCache.clientAcquire
  generalize SequenceStateCache.acquire cfg key requester mutable now w.cache = r at hrep hends ⊢
  cases hends with
  | @refused r cache drops none =>
    have hkept := h.narrows hrep drops.narrows
    match r, none with
    | .error exc, _ => exact hkept
    | .ok .none, _ => exact hkept
    | .ok (some lease), none => exact absurd rfl (none lease)
  | @shared e e' mid cache drops present indexed key_eq allowed counted entries issued represents =>
    have hsame : SameEntry e e' := by
      rw [counted]
      exact ⟨rfl, rfl, rfl, rfl, rfl⟩
    have hmid := h.narrows represents drops.narrows
    have hcache := hmid.narrows hrep
      (narrows_set present hsame entries (issued.trans drops.issued.symm))
    refine hcache.grant (e := e') ?_ key_eq ⟨_, hmid.stored _ e present indexed, ?_⟩
    · show cache.entries.get? e.entryId = some e'
      rw [entries, Dict.get?_set_self]
    · exact ⟨hsame.key.symm, hsame.payload.symm, allowed⟩
  | @cloned e clone cache entered present leased indexed key_eq allowed mutable_eq clone_key
      clone_payload pinned ephemeral =>
    have hcache := h.entered hrep entered (fun _ => id) fun hc => absurd (ephemeral.symm.trans hc)
      (by simp)
    refine hcache.grant (e := clone) ?_ (clone_key.trans key_eq) ⟨_, h.stored _ e present indexed, ?_⟩
    · obtain ⟨hid, _, mid, _, hentries⟩ := entered
      show cache.entries.get? clone.entryId = some clone
      rw [hentries, hid, Dict.get?_set_self]
    · exact ⟨clone_key.symm, clone_payload.symm, allowed⟩

theorem Isolated.clientCall {w : Clients} (h : Isolated cfg w.cache w.puts w.grants) (client : ℕ)
    (op : CacheOp) :
    Isolated cfg (clientCall cfg client w op).cache (clientCall cfg client w op).puts
      (clientCall cfg client w op).grants := by
  cases op with
  | put key scope payload now => exact h.clientPut now
  | acquire key requester mutable now => exact h.clientAcquire client mutable now
  | release lease =>
    exact h.narrows (release_spec h.represents lease).1 (release_narrows h.represents lease)
  | commitSession lease newKey payload scope now =>
    unfold SequenceStateCache.clientCall
    dsimp only
    cases w.cache.checkCommit lease newKey with
    | error exc => exact h
    | ok _ => exact h
  | invalidate tenantId kind space =>
    obtain ⟨hrep, hdrops⟩ := invalidate_spec h.represents tenantId kind space
    exact h.narrows hrep hdrops.narrows
  | prune now =>
    obtain ⟨hrep, hdrops⟩ := prune_spec h.represents now
    exact h.narrows hrep hdrops.narrows

theorem Isolated.moved {w : Clients} (h : Isolated cfg w.cache w.puts w.grants)
    (m : ℕ × ClientMove) :
    Isolated cfg (moved cfg w m).cache (moved cfg w m).puts (moved cfg w m).grants := by
  obtain ⟨client, move⟩ := m
  unfold SequenceStateCache.moved
  cases move with
  | call op =>
    dsimp only
    cases w.commits client with
    | some part => exact h
    | none => exact h.clientCall client op
  | resume =>
    dsimp only
    cases w.commits client with
    | none => exact h
    | some part =>
      cases part with
      | stored lease =>
        exact h.narrows (release_spec h.represents lease).1 (release_narrows h.represents lease)
      | checked lease newKey payload scope now =>
        have hkept : Isolated cfg
            (SequenceStateCache.clientPut cfg newKey scope payload now w).2.cache
            (SequenceStateCache.clientPut cfg newKey scope payload now w).2.puts
            (SequenceStateCache.clientPut cfg newKey scope payload now w).2.grants :=
          h.clientPut now
        dsimp only
        generalize SequenceStateCache.clientPut cfg newKey scope payload now w = r at hkept ⊢
        match r, hkept with
        | (.error _, _), hkept => exact hkept
        | (.ok _, _), hkept => exact hkept

theorem moves_isolated (cfg : CacheConfig) (moves : List (ℕ × ClientMove)) :
    Isolated cfg (moves.foldl (moved cfg) {}).cache (moves.foldl (moved cfg) {}).puts
      (moves.foldl (moved cfg) {}).grants := by
  have hrun : ∀ (moves : List (ℕ × ClientMove)) (w : Clients),
      Isolated cfg w.cache w.puts w.grants →
        Isolated cfg (moves.foldl (moved cfg) w).cache (moves.foldl (moved cfg) w).puts
          (moves.foldl (moved cfg) w).grants := by
    intro moves
    induction moves with
    | nil => exact fun _ h => h
    | cons m rest ih => exact fun w h => ih _ (h.moved m)
  refine hrun moves {} ⟨represents_empty, ?_, ?_⟩
  · exact fun _ _ hget => absurd hget (by simp)
  · exact fun _ hg => absurd hg (by simp)

theorem entry_of_read {lease : CacheLease} (hread : s.read lease = .ok payload) :
    ∃ e, s.entries.get? lease.entryId = some e ∧ e.key = lease.key ∧ e.payload = payload := by
  unfold SequenceStateCache.read leaseEntryLocked at hread
  cases hget : s.entries.get? lease.entryId with
  | none =>
    rw [hget] at hread
    exact absurd hread (by simp [Except.map])
  | some e =>
    rw [hget] at hread
    dsimp only at hread
    by_cases hstale : e.generation ≠ lease.generation ∨ e.key ≠ lease.key ∨ e.refcount = 0
    · rw [if_pos hstale] at hread
      exact absurd hread (by simp [Except.map])
    · rw [if_neg hstale] at hread
      obtain ⟨_, hkey, _⟩ := not_or.mp hstale |>.imp_right not_or.mp
      exact ⟨e, rfl, not_not.mp hkey, Except.ok.inj hread⟩

theorem allows_iff {scope requester : CacheScope} : scope.allows requester = true ↔
    scope.tenantId = requester.tenantId ∧
      (scope.visibility ≠ .TENANT → scope.workflowId = requester.workflowId) ∧
      (scope.visibility = .PRIVATE → scope.agentId = requester.agentId) := by
  unfold CacheScope.allows
  cases hvisibility : scope.visibility <;> split_ifs <;> simp_all

/-- **Isolation.**  Whatever is read through a lease has been stored under the key the
lease was asked for, and under a scope that allows its requester. -/
theorem cache_isolation (cfg : CacheConfig) (moves : List (ℕ × ClientMove)) (g : Grant)
    (hg : g ∈ (moves.foldl (moved cfg) {}).grants) (payload : List UInt8)
    (hread : (moves.foldl (moved cfg) {}).cache.read g.lease = .ok payload) :
    ∃ p ∈ (moves.foldl (moved cfg) {}).puts, p.key = g.key ∧ p.payload = payload ∧
      p.scope.tenantId = g.requester.tenantId ∧
      (p.scope.visibility ≠ .TENANT → p.scope.workflowId = g.requester.workflowId) ∧
      (p.scope.visibility = .PRIVATE → p.scope.agentId = g.requester.agentId) := by
  obtain ⟨hkey, _, hfor⟩ := (moves_isolated cfg moves).granted g hg
  obtain ⟨e, hget, hekey, hpayload⟩ := entry_of_read hread
  obtain ⟨p, hp, hpkey, hppayload, hallows⟩ := hfor e hget
  refine ⟨p, hp, ?_, hppayload.trans hpayload, allows_iff.mp hallows⟩
  rw [hpkey, hekey, hkey]

theorem cache_isolation_shared : ∃ p ∈ (shareMoves.foldl (moved sampleCache) {}).puts,
    p.key = sampleKey 1 ∧ p.payload = [1, 1, 1] ∧ p.scope.tenantId = sampleScope.tenantId ∧
      (p.scope.visibility ≠ .TENANT → p.scope.workflowId = sampleScope.workflowId) ∧
      (p.scope.visibility = .PRIVATE → p.scope.agentId = sampleScope.agentId) :=
  cache_isolation sampleCache shareMoves ⟨sampleKey 1, sampleScope, sharedLease⟩
    (by decide +kernel) [1, 1, 1] (by decide +kernel)

end SequenceStateCache

end Inference
