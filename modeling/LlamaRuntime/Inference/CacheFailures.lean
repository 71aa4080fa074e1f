/-
Calls that run out of capacity.

The loop that makes room removes entries before it finds out that the others are
leased, and `put` removes the value it is to replace before it makes room.

* `failed_call_keeps` — when a call that ends in a `CacheCapacityError` leaves the
  unexpired entries alone;
* `failed_put_removes` — a `put` that loses the value it was to replace.
-/
import LlamaRuntime.Inference.CacheRepresentation

namespace Inference

namespace SequenceStateCache

variable {cfg : CacheConfig} {s s' : SequenceStateCache} {key : ExactTokenCacheKey}
  {scope requester : CacheScope} {payload : List UInt8}

/-- The valid reading of the clock a call has made. -/
def time : CacheOp → Option ℚ
  | .put _ _ _ now => now.toOption
  | .acquire _ _ _ now => now.toOption
  | .commitSession _ _ _ _ now => now.toOption
  | .prune now => now.toOption
  | _ => none

/-- The entry has not expired when the call is made. -/
def Unexpired (op : CacheOp) (e : CacheEntry) : Prop := ∀ now, time op = some now → now < e.expiresAt

/-- Every unexpired entry is still there, with its payload and its place in the index. -/
def KeepsUnexpired (op : CacheOp) (s s' : SequenceStateCache) : Prop :=
  ∀ id e, s.entries.get? id = some e → Unexpired op e →
    ∃ e', s'.entries.get? id = some e' ∧ e'.payload = e.payload ∧ e'.key = e.key ∧
      e'.scope = e.scope ∧ (e.ephemeral = false → s'.index.get? (e.key, e.scope) = some id)

/-- Every unexpired entry is leased. -/
def AllLeased (op : CacheOp) (s : SequenceStateCache) : Prop :=
  ∀ id e, s.entries.get? id = some e → Unexpired op e → ¬ Unleased e

/-- The value to be stored is refused before anything is removed: it is too large, or it
is to replace a leased one. -/
def RefusedFirst (cfg : CacheConfig) (key : ExactTokenCacheKey) (scope : CacheScope)
    (payload : List UInt8) (s : SequenceStateCache) : Prop :=
  cfg.byteBudget < payload.length ∨ ∃ e, Replaces key scope s e ∧ ¬ Unleased e

/-- A call that fails does no harm: it ends before it removes anything, or there is
nothing it could remove. -/
def Unharmed (cfg : CacheConfig) (op : CacheOp) (s : SequenceStateCache) : Prop :=
  time op = none ∨ match op with
  | .put key scope payload _ => RefusedFirst cfg key scope payload s ∨ AllLeased op s
  | .commitSession _ newKey payload scope _ =>
    RefusedFirst cfg newKey scope payload s ∨ AllLeased op s
  | _ => AllLeased op s

theorem Drops.keepsUnexpired {P : CacheEntry → Prop} {op : CacheOp} (h : Drops P s s')
    (hs' : Represents cfg s')
    (hP : ∀ id e, s.entries.get? id = some e → Unexpired op e → ¬ P e) : KeepsUnexpired op s s' := by
  intro id e hget hunexpired
  have hkept := h.keeps hget (hP id e hget hunexpired)
  exact ⟨e, hkept, rfl, rfl, rfl, fun hindexed =>
    (hs'.index _ _ _).mpr ⟨e, hkept, hindexed, rfl, rfl⟩⟩

theorem keepsUnexpired_refl {op : CacheOp} (h : Represents cfg s) : KeepsUnexpired op s s :=
  (Drops.refl (fun _ => False) s).keepsUnexpired h fun _ _ _ _ => id

/-- Where all that is left is leased, nothing else has been there. -/
theorem Drops.keepsUnexpired_iff {op : CacheOp} (h : Drops Unleased s s')
    (hs' : Represents cfg s') (hpinned : ∀ id e, s'.entries.get? id = some e → ¬ Unleased e) :
    KeepsUnexpired op s s' ↔ AllLeased op s := by
  constructor
  · intro hkeeps id e hget hunexpired
    obtain ⟨e', hget', _⟩ := hkeeps id e hget hunexpired
    obtain rfl := Option.some_inj.mp (hget.symm.trans (h.get? hget'))
    exact hpinned id e hget'
  · exact fun hall => h.keepsUnexpired hs' hall

theorem capacityError_ne {message other text : String} (h : other ≠ "CacheCapacityError") :
    capacityError message ≠ .builtin other text :=
  fun heq => h (py_inj.mp (congrArg PyException.typeName heq).symm)

theorem put_fails (h : Represents cfg s) {op : CacheOp} {now : Except PyException ℚ}
    (htime : time op = now.toOption) {message : String}
    (hfails : (put cfg key scope payload now s).1 = .error (capacityError message)) :
    KeepsUnexpired op s (put cfg key scope payload now s).2 ↔
      time op = none ∨ RefusedFirst cfg key scope payload s ∨ AllLeased op s := by
  have hsame : KeepsUnexpired op s s := keepsUnexpired_refl h
  unfold put at hfails ⊢
  by_cases hempty : payload = []
  · rw [if_pos hempty] at hfails
    exact absurd (Except.error.inj hfails).symm (capacityError_ne (by decide))
  rw [if_neg hempty] at hfails ⊢
  by_cases hlarge : cfg.byteBudget < payload.length
  · rw [if_pos hlarge]
    exact ⟨fun _ => .inr (.inl (.inl hlarge)), fun _ => hsame⟩
  rw [if_neg hlarge] at hfails ⊢
  cases now with
  | error exc => exact ⟨fun _ => .inl htime, fun _ => hsame⟩
  | ok now =>
    have hnot : time op ≠ none := by rw [htime]; exact fun hc => absurd hc (by simp [Except.toOption])
    have hpast : ∀ e, Unexpired op e → ¬ Expired now e :=
      fun e he hexpired => absurd (he now htime) (not_lt.mpr hexpired.2)
    obtain ⟨hrep, hends, hwhy⟩ :=
      putLocked_spec h key scope payload now
    dsimp only at hfails ⊢
    rcases hwhy _ hfails with ⟨hleased, hdrops⟩ | ⟨hfree, hpinned⟩
    · have hkeeps := hdrops.keepsUnexpired hrep fun _ e _ he => hpast e he
      exact ⟨fun _ => .inr (.inl (.inr hleased)), fun _ => hkeeps⟩
    · have hdrops : Drops Unleased s (putLocked cfg key scope payload now s).2 := by
        generalize putLocked cfg key scope payload now s = r at hends hfails
        cases hends with
        | refused drops => exact drops
        | stored => exact absurd hfails (by simp)
      rw [hdrops.keepsUnexpired_iff hrep hpinned]
      constructor
      · exact fun hall => .inr (.inr hall)
      · rintro (hnone | (hc | ⟨e, hreplaces, hleased⟩) | hall)
        · exact absurd hnone hnot
        · exact absurd hc hlarge
        · exact absurd (hfree e hreplaces) hleased
        · exact hall

theorem acquire_fails (h : Represents cfg s) {op : CacheOp} {now : Except PyException ℚ}
    {mutable : Bool} (htime : time op = now.toOption) {message : String}
    (hfails : (acquire cfg key requester mutable now s).1 = .error (capacityError message)) :
    KeepsUnexpired op s (acquire cfg key requester mutable now s).2 ↔
      time op = none ∨ AllLeased op s := by
  have hsame : KeepsUnexpired op s s := keepsUnexpired_refl h
  unfold acquire at hfails ⊢
  by_cases hprefix : mutable = true ∧ key.kind = .PREFIX
  · rw [if_pos hprefix] at hfails
    exact absurd (Except.error.inj hfails).symm (capacityError_ne (by decide))
  rw [if_neg hprefix] at hfails ⊢
  cases now with
  | error exc => exact ⟨fun _ => .inl htime, fun _ => hsame⟩
  | ok now =>
    have hnot : time op ≠ none := by
      rw [htime]
      exact fun hc => absurd hc (by simp [Except.toOption])
    obtain ⟨hrep, hends, hwhy⟩ :=
      acquireLocked_spec h key requester mutable now
    dsimp only at hfails ⊢
    have hpinned := hwhy _ hfails
    have hdrops : Drops Unleased s (acquireLocked cfg key requester mutable now s).2 := by
      generalize acquireLocked cfg key requester mutable now s = r at hends hfails
      cases hends with
      | refused drops => exact drops
      | shared => exact absurd hfails (by simp)
      | cloned => exact absurd hfails (by simp)
    rw [hdrops.keepsUnexpired_iff hrep hpinned]
    exact ⟨.inr, fun hc => hc.resolve_left hnot⟩

theorem checkCommit_error {lease : CacheLease} {newKey : ExactTokenCacheKey} {exc : PyException}
    {message : String} (h : s.checkCommit lease newKey = .error exc) :
    exc ≠ capacityError message := by
  have hlease : ∀ {exc}, s.leaseEntryLocked lease = .error exc → exc ≠ capacityError message := by
    intro exc herror
    unfold leaseEntryLocked at herror
    split at herror
    · exact Except.error.inj herror ▸ (capacityError_ne (by decide)).symm
    · split_ifs at herror
      exact Except.error.inj herror ▸ (capacityError_ne (by decide)).symm
  unfold checkCommit at h
  by_cases hmutable : ¬ lease.mutable = true
  · rw [if_pos hmutable] at h
    exact Except.error.inj h ▸ (capacityError_ne (by decide)).symm
  rw [if_neg hmutable] at h
  by_cases hkind : newKey.kind ≠ .SESSION
  · rw [if_pos hkind] at h
    exact Except.error.inj h ▸ (capacityError_ne (by decide)).symm
  rw [if_neg hkind] at h
  cases hresult : s.leaseEntryLocked lease with
  | error exc' =>
    rw [hresult] at h
    exact Except.error.inj h ▸ hlease hresult
  | ok e =>
    rw [hresult] at h
    exact absurd h (by simp [Except.map])

theorem perform_fails (h : Represents cfg s) {op : CacheOp} {message : String}
    (hfails : (perform cfg s op).1 = .error (capacityError message)) :
    KeepsUnexpired op s (perform cfg s op).2 ↔ Unharmed cfg op s := by
  have hmap : ∀ {α : Type} {f : α → CacheReply} {r : Except PyException α},
      r.map f = .error (capacityError message) → r = .error (capacityError message) := by
    intro α f r hr
    cases r with
    | error exc => exact congrArg _ (Except.error.inj hr)
    | ok a => exact absurd hr (by simp [Except.map])
  cases op with
  | put key scope payload now => exact put_fails h rfl (hmap hfails)
  | acquire key requester mutable now => exact acquire_fails h rfl (hmap hfails)
  | release lease => exact absurd hfails (by simp [perform])
  | commitSession lease newKey payload scope now =>
    have hfails : (commitSession cfg lease newKey payload scope now s).1 =
        .error (capacityError message) := hmap hfails
    show KeepsUnexpired _ s (commitSession cfg lease newKey payload scope now s).2 ↔ _
    rcases commitSession_cases cfg lease newKey payload scope now s
      with ⟨exc, hcheck, heq⟩ | ⟨_, ⟨exc, hput, heq⟩ | ⟨id, _, heq⟩⟩
    · rw [heq] at hfails
      exact absurd (Except.error.inj hfails) (checkCommit_error hcheck)
    · rw [heq] at hfails ⊢
      exact put_fails h rfl (hput.trans hfails)
    · rw [heq] at hfails
      exact absurd hfails (by simp)
  | invalidate tenantId kind space =>
    have hfails : (s.invalidate tenantId kind space).1 = .error (capacityError message) := hmap hfails
    have hstate : (s.invalidate tenantId kind space).2 = s := by
      unfold invalidate at hfails ⊢
      cases hcheck : checkTenant tenantId with
      | error exc => rfl
      | ok _ =>
        rw [hcheck] at hfails
        exact absurd hfails (by simp)
    show KeepsUnexpired _ s (s.invalidate tenantId kind space).2 ↔ _
    rw [hstate]
    exact ⟨fun _ => .inl rfl, fun _ => keepsUnexpired_refl h⟩
  | prune now =>
    cases now with
    | error exc => exact ⟨fun _ => .inl rfl, fun _ => keepsUnexpired_refl h⟩
    | ok now => exact absurd hfails (by simp [perform, prune, Except.map])

/-- **What a failed call leaves.**  In the state any history of calls leads to, a call
that ends in a `CacheCapacityError` leaves every unexpired entry alone exactly when it
fails before it removes anything, or every unexpired entry is leased. -/
theorem failed_call_keeps (cfg : CacheConfig) (history : List CacheOp) (op : CacheOp)
    (message : String)
    (hfails : (perform cfg (history.foldl (record cfg) ({}, [])).1 op).1 =
      .error (capacityError message)) :
    KeepsUnexpired op (history.foldl (record cfg) ({}, [])).1
        (perform cfg (history.foldl (record cfg) ({}, [])).1 op).2 ↔
      Unharmed cfg op (history.foldl (record cfg) ({}, [])).1 :=
  perform_fails (history_keeps cfg history).1 hfails

/-! ### A value that is lost -/

def sampleDigest : PyStr :=
  py "sha256:" ++ List.replicate 64 (CodePoint.ofChar 'a')

theorem sampleDigest_valid : IsDigest sampleDigest := by decide +kernel

def sampleSpace : CacheNamespace :=
  ⟨sampleDigest, sampleDigest, sampleDigest, sampleDigest, sampleDigest, sampleDigest_valid,
    sampleDigest_valid, sampleDigest_valid, sampleDigest_valid, sampleDigest_valid⟩

def sampleKey (token : ℕ) : ExactTokenCacheKey :=
  ⟨.SESSION, sampleSpace, [token], List.cons_ne_nil _ _⟩

theorem sampleName_valid : IsBoundedText (py "name") maxIdentifierBytes := by decide +kernel

def sampleScope : CacheScope :=
  ⟨py "name", py "name", py "name", .PRIVATE, sampleName_valid, sampleName_valid, sampleName_valid⟩

theorem sampleIds_injective : Function.Injective fun n : ℕ => List.replicate n (CodePoint.ofChar 'a') := by
  intro n m h
  simpa using congrArg List.length h

def sampleCache : CacheConfig where
  byteBudget := 6
  maxEntries := 2
  ttlSeconds := 5
  uuid4 := fun n => List.replicate n (CodePoint.ofChar 'a')
  budget_pos := Nat.succ_pos _
  entries_pos := Nat.succ_pos _
  ttl_pos := Nat.ofNat_pos
  uuid4_injective := sampleIds_injective

/-- The budget is used up, and the first of the two values is leased. -/
def fullHistory : List CacheOp :=
  [.put (sampleKey 1) sampleScope [1, 1, 1] (.ok 0),
    .acquire (sampleKey 1) sampleScope false (.ok 0),
    .put (sampleKey 2) sampleScope [2, 2, 2] (.ok 0)]

/-- A larger value for the second key. -/
def largerValue : CacheOp := .put (sampleKey 2) sampleScope [2, 2, 2, 2] (.ok 1)

theorem largerValue_fails :
    (perform sampleCache (fullHistory.foldl (record sampleCache) ({}, [])).1 largerValue).1 =
      .error (capacityError "cache capacity is pinned by active leases") :=
  by decide +kernel

theorem failed_call_keeps_larger :
    KeepsUnexpired largerValue (fullHistory.foldl (record sampleCache) ({}, [])).1
        (perform sampleCache (fullHistory.foldl (record sampleCache) ({}, [])).1 largerValue).2 ↔
      Unharmed sampleCache largerValue (fullHistory.foldl (record sampleCache) ({}, [])).1 :=
  failed_call_keeps sampleCache fullHistory largerValue _ largerValue_fails

/-- The value of the second key is gone, and the larger one has not been stored. -/
theorem failed_put_removes : ¬ ∀ (cfg : CacheConfig) (history : List CacheOp) (op : CacheOp)
    (message : String),
    (perform cfg (history.foldl (record cfg) ({}, [])).1 op).1 = .error (capacityError message) →
      KeepsUnexpired op (history.foldl (record cfg) ({}, [])).1
        (perform cfg (history.foldl (record cfg) ({}, [])).1 op).2 := by
  intro hkeeps
  have hbefore : ((fullHistory.foldl (record sampleCache) ({}, [])).1.entries.get?
      [CodePoint.ofChar 'a']).map CacheEntry.expiresAt = some 5 := by decide +kernel
  have hafter : ((perform sampleCache (fullHistory.foldl (record sampleCache) ({}, [])).1
      largerValue).2.entries.get? [CodePoint.ofChar 'a']).isSome = false := by decide +kernel
  obtain ⟨e, hget, hexpires⟩ := Option.map_eq_some_iff.mp hbefore
  have hunexpired : Unexpired largerValue e := by
    intro now hnow
    obtain rfl : 1 = now := Option.some_inj.mp hnow
    rw [hexpires]
    exact Nat.one_lt_ofNat
  obtain ⟨e', hget', _⟩ := hkeeps sampleCache fullHistory largerValue _ largerValue_fails _ e hget
    hunexpired
  rw [hget'] at hafter
  exact absurd hafter (by simp)

end SequenceStateCache

end Inference
