/-
The tables of the cache.

`Represents` ties the entries, the index and the byte counter together; every
method keeps it, whatever it answers.  What a method may remove is an entry nobody
has leased (`Drops Unleased`), and a lease is given back by `release` alone.

* `PutEnds`, `AcquireEnds`, `ReleaseEnds` — what the methods do to the entries;
* `representation` — the tables in every state a history of calls leads to.
-/
import LlamaRuntime.Inference.SequenceStateCache

namespace Inference

namespace SequenceStateCache

variable {cfg : CacheConfig} {s s' s'' : SequenceStateCache}

/-- Entries, index and counter fit together, within the bounds of the cache. -/
structure Represents (cfg : CacheConfig) (s : SequenceStateCache) : Prop where
  ids : ∀ id e, s.entries.get? id = some e → e.entryId = id
  bytes : s.bytesUsed = s.entries.total CacheEntry.byteSize
  budget : s.bytesUsed ≤ cfg.byteBudget
  count : s.entries.items.length ≤ cfg.maxEntries
  index : ∀ key scope id, s.index.get? (key, scope) = some id ↔
    ∃ e, s.entries.get? id = some e ∧ e.ephemeral = false ∧ e.key = key ∧ e.scope = scope
  clones : ∀ id e, s.entries.get? id = some e → e.ephemeral = true → e.refcount = 1
  drawn : ∀ id e, s.entries.get? id = some e → ∃ n < s.issued, id = cfg.uuid4 n

theorem represents_empty : Represents cfg {} where
  ids := fun _ _ h => absurd h (by simp)
  bytes := rfl
  budget := Int.natCast_nonneg _
  count := Nat.zero_le _
  index := fun _ _ _ => by simp
  clones := fun _ _ h => absurd h (by simp)
  drawn := fun _ _ h => absurd h (by simp)

/-- The counters do not matter. -/
theorem Represents.congr (h : Represents cfg s) (hentries : s'.entries = s.entries)
    (hindex : s'.index = s.index) (hbytes : s'.bytesUsed = s.bytesUsed)
    (hissued : s'.issued = s.issued) : Represents cfg s' where
  ids := by rw [hentries]; exact h.ids
  bytes := by rw [hentries, hbytes]; exact h.bytes
  budget := by rw [hbytes]; exact h.budget
  count := by rw [hentries]; exact h.count
  index := by rw [hentries, hindex]; exact h.index
  clones := by rw [hentries]; exact h.clones
  drawn := by rw [hentries, hissued]; exact h.drawn

theorem length_eq_total (d : Dict PyStr CacheEntry) : d.items.length = d.total fun _ => 1 := by
  rw [Dict.total, Dict.values, List.map_map]
  show _ = (d.items.map fun _ => 1).sum
  simp

theorem mem_values {e : CacheEntry} (h : Represents cfg s) :
    e ∈ s.entries.values ↔ s.entries.get? e.entryId = some e := by
  constructor
  · intro he
    obtain ⟨⟨id, e'⟩, hitem, rfl⟩ := List.mem_map.mp he
    have hget := Dict.mem_items_iff.mp hitem
    dsimp only
    rw [h.ids id e' hget]
    exact hget
  · exact fun hget => List.mem_map.mpr ⟨_, Dict.mem_items_iff.mpr hget, rfl⟩

/-! ### Removing an entry -/

/-- Some entries with `P` are gone, and nothing else has happened to the entries. -/
structure Drops (P : CacheEntry → Prop) (s s' : SequenceStateCache) : Prop where
  entry : ∀ id, s'.entries.get? id = s.entries.get? id ∨
    ∃ e, s.entries.get? id = some e ∧ P e ∧ s'.entries.get? id = none
  issued : s'.issued = s.issued

theorem Drops.refl (P : CacheEntry → Prop) (s : SequenceStateCache) : Drops P s s :=
  ⟨fun _ => .inl rfl, rfl⟩

theorem Drops.trans {P : CacheEntry → Prop} (h : Drops P s s') (h' : Drops P s' s'') :
    Drops P s s'' := by
  refine ⟨fun id => ?_, h'.issued.trans h.issued⟩
  rcases h.entry id with heq | ⟨e, hget, hP, hnone⟩
  · rcases h'.entry id with heq' | ⟨e, hget, hP, hnone⟩
    · exact .inl (heq'.trans heq)
    · exact .inr ⟨e, heq ▸ hget, hP, hnone⟩
  · refine .inr ⟨e, hget, hP, ?_⟩
    rcases h'.entry id with heq' | ⟨e', hget', _⟩
    · exact heq'.trans hnone
    · rw [hnone] at hget'
      exact absurd hget' (by simp)

theorem Drops.mono {P Q : CacheEntry → Prop} (h : Drops P s s') (hPQ : ∀ e, P e → Q e) :
    Drops Q s s' := by
  refine ⟨fun id => (h.entry id).imp_right ?_, h.issued⟩
  rintro ⟨e, hget, hP, hnone⟩
  exact ⟨e, hget, hPQ e hP, hnone⟩

theorem Drops.congr {P : CacheEntry → Prop} (h : Drops P s s') (hentries : s''.entries = s'.entries)
    (hissued : s''.issued = s'.issued) : Drops P s s'' :=
  ⟨fun id => by rw [hentries]; exact h.entry id, hissued.trans h.issued⟩

/-- What is left was there before. -/
theorem Drops.get? {P : CacheEntry → Prop} (h : Drops P s s') {id : PyStr} {e : CacheEntry}
    (hget : s'.entries.get? id = some e) : s.entries.get? id = some e := by
  rcases h.entry id with heq | ⟨_, _, _, hnone⟩
  · exact heq ▸ hget
  · rw [hnone] at hget
    exact absurd hget (by simp)

/-- What `P` does not hold of is left. -/
theorem Drops.keeps {P : CacheEntry → Prop} (h : Drops P s s') {id : PyStr} {e : CacheEntry}
    (hget : s.entries.get? id = some e) (hP : ¬ P e) : s'.entries.get? id = some e := by
  rcases h.entry id with heq | ⟨e', hget', hP', _⟩
  · exact heq.trans hget
  · rw [hget] at hget'
    obtain rfl := Option.some_inj.mp hget'
    exact absurd hP' hP

/-- The entry of an id is removed. -/
theorem drops_removeLocked {e : CacheEntry} (invalidation : Bool) {P : CacheEntry → Prop}
    (hget : s.entries.get? e.entryId = some e) (hP : P e) :
    Drops P s (s.removeLocked e invalidation) := by
  refine ⟨fun id => ?_, rfl⟩
  have hpop : (s.removeLocked e invalidation).entries.get? id =
      if e.entryId = id then none else s.entries.get? id := Dict.get?_pop
  by_cases hid : e.entryId = id
  · subst hid
    exact .inr ⟨e, hget, hP, by rw [hpop, if_pos rfl]⟩
  · exact .inl (by rw [hpop, if_neg hid])

theorem Represents.remove (h : Represents cfg s) {e : CacheEntry} (invalidation : Bool)
    (hget : s.entries.get? e.entryId = some e) : Represents cfg (s.removeLocked e invalidation) := by
  have hdrops : Drops (fun _ => True) s (s.removeLocked e invalidation) :=
    drops_removeLocked invalidation hget trivial
  have hpop : ∀ id, (s.removeLocked e invalidation).entries.get? id =
      if e.entryId = id then none else s.entries.get? id := fun _ => Dict.get?_pop
  have hbytes : (s.removeLocked e invalidation).bytesUsed = s.bytesUsed - e.byteSize := rfl
  have hentries : (s.removeLocked e invalidation).entries = s.entries.pop e.entryId := rfl
  have hsize := Dict.total_pop CacheEntry.byteSize s.entries e.entryId
  have hlength := Dict.total_pop (fun _ => 1) s.entries e.entryId
  rw [hget, Option.elim_some] at hsize hlength
  rw [← length_eq_total, ← length_eq_total] at hlength
  have hcount := h.count
  have hbudget := h.budget
  refine ⟨fun id e' h' => h.ids id e' (hdrops.get? h'), ?_, ?_, ?_, fun key scope id => ?_,
    fun id e' h' => h.clones id e' (hdrops.get? h'), fun id e' h' => h.drawn id e' (hdrops.get? h')⟩
  · rw [hbytes, hentries, h.bytes]
    omega
  · rw [hbytes]
    omega
  · rw [hentries]
    omega
  · rw [hpop]
    by_cases hephemeral : e.ephemeral = true
    · -- the index does not know the entry
      have hindex : (s.removeLocked e invalidation).index = s.index := if_pos hephemeral
      rw [hindex, h.index]
      by_cases hid : e.entryId = id
      · subst hid
        rw [if_pos rfl, hget]
        constructor
        · rintro ⟨e', he', hnot, _⟩
          obtain rfl := Option.some_inj.mp he'
          exact absurd (hnot.symm.trans hephemeral) (by simp)
        · rintro ⟨e', he', _⟩
          exact absurd he' (by simp)
      · rw [if_neg hid]
    · have hindex : (s.removeLocked e invalidation).index = s.index.pop (e.key, e.scope) :=
        if_neg hephemeral
      have hephemeral : e.ephemeral = false := by simpa using hephemeral
      rw [hindex, Dict.get?_pop]
      by_cases hid : e.entryId = id
      · subst hid
        rw [if_pos rfl]
        constructor
        · intro hsome
          split_ifs at hsome with hpair
          obtain ⟨e', he', _, hkey, hscope⟩ := (h.index key scope e.entryId).mp hsome
          rw [hget] at he'
          obtain rfl := Option.some_inj.mp he'
          exact absurd (by rw [hkey, hscope]) hpair
        · rintro ⟨e', he', _⟩
          exact absurd he' (by simp)
      · rw [if_neg hid]
        by_cases hpair : (e.key, e.scope) = (key, scope)
        · -- the pair belonged to the removed entry
          obtain ⟨rfl, rfl⟩ := Prod.mk.inj hpair
          rw [if_pos rfl]
          have hmine := (h.index e.key e.scope e.entryId).mpr ⟨e, hget, hephemeral, rfl, rfl⟩
          constructor
          · exact fun hnone => absurd hnone (by simp)
          · intro hother
            have hid' := (h.index e.key e.scope id).mpr hother
            rw [hmine] at hid'
            exact absurd (Option.some_inj.mp hid') hid
        · rw [if_neg hpair]
          exact h.index key scope id

/-- A list of entries is removed one after the other. -/
theorem Represents.removeAll {remove : SequenceStateCache → CacheEntry → SequenceStateCache}
    (hremove : ∀ s e, ∃ invalidation, (remove s e).entries = (s.removeLocked e invalidation).entries ∧
      (remove s e).index = (s.removeLocked e invalidation).index ∧
      (remove s e).bytesUsed = (s.removeLocked e invalidation).bytesUsed ∧
      (remove s e).issued = s.issued) {P : CacheEntry → Prop} :
    ∀ {targets : List CacheEntry} {s : SequenceStateCache}, Represents cfg s →
      (targets.map CacheEntry.entryId).Nodup →
      (∀ e ∈ targets, s.entries.get? e.entryId = some e ∧ P e) →
      Represents cfg (targets.foldl remove s) ∧ Drops P s (targets.foldl remove s) ∧
        ∀ e ∈ targets, (targets.foldl remove s).entries.get? e.entryId = none
  | [], s, h, _, _ => ⟨h, .refl P s, fun _ he => absurd he (by simp)⟩
  | e :: rest, s, h, hnodup, htargets => by
    obtain ⟨invalidation, hentries, hindex, hbytes, hissued⟩ := hremove s e
    obtain ⟨hget, hP⟩ := htargets e List.mem_cons_self
    rw [List.map_cons, List.nodup_cons] at hnodup
    have hone : Represents cfg (remove s e) :=
      (h.remove invalidation hget).congr hentries hindex hbytes hissued
    have hdrops : Drops P s (remove s e) :=
      (drops_removeLocked invalidation hget hP).congr hentries hissued
    have hpop : ∀ id, (remove s e).entries.get? id =
        if e.entryId = id then none else s.entries.get? id := by
      intro id
      rw [hentries]
      exact Dict.get?_pop
    obtain ⟨hrest, hdrops', hgone⟩ := Represents.removeAll hremove hone hnodup.2 fun e' he' => by
      have hne : e.entryId ≠ e'.entryId :=
        fun heq => hnodup.1 (heq ▸ List.mem_map_of_mem he')
      rw [hpop, if_neg hne]
      exact htargets e' (List.mem_cons_of_mem _ he')
    refine ⟨hrest, hdrops.trans hdrops', fun e' he' => ?_⟩
    rcases List.mem_cons.mp he' with rfl | he'
    · -- what is gone stays gone
      by_contra hsome
      obtain ⟨e'', hsome⟩ := Option.ne_none_iff_exists'.mp hsome
      have hback := hdrops'.get? hsome
      rw [hpop, if_pos rfl] at hback
      exact absurd hback (by simp)
    · exact hgone e' he'

theorem nodup_ids (h : Represents cfg s) (p : CacheEntry → Bool) :
    ((s.entries.values.filter p).map CacheEntry.entryId).Nodup := by
  have hids : s.entries.values.map CacheEntry.entryId = s.entries.items.map Prod.fst := by
    rw [Dict.values, List.map_map]
    refine List.map_congr_left fun item hitem => ?_
    exact h.ids item.1 item.2 (Dict.mem_items_iff.mp hitem)
  have hnodup : (s.entries.values.map CacheEntry.entryId).Nodup := hids ▸ s.entries.nodup
  exact hnodup.sublist (List.filter_sublist.map _)

/-! ### Pruning and making room -/

/-- Nobody has leased the entry. -/
def Unleased (e : CacheEntry) : Prop := e.refcount = 0

/-- An unleased entry whose time is over. -/
def Expired (now : ℚ) (e : CacheEntry) : Prop := e.refcount = 0 ∧ e.expiresAt ≤ now

instance (e : CacheEntry) : Decidable (Unleased e) := inferInstanceAs (Decidable (_ = _))

instance (now : ℚ) (e : CacheEntry) : Decidable (Expired now e) :=
  inferInstanceAs (Decidable (_ ∧ _))

theorem evictLocked_tables (s : SequenceStateCache) (e : CacheEntry) : ∃ invalidation,
    (s.evictLocked e).entries = (s.removeLocked e invalidation).entries ∧
      (s.evictLocked e).index = (s.removeLocked e invalidation).index ∧
      (s.evictLocked e).bytesUsed = (s.removeLocked e invalidation).bytesUsed ∧
      (s.evictLocked e).issued = s.issued := ⟨false, rfl, rfl, rfl, rfl⟩

theorem pruneLocked_spec (h : Represents cfg s) (now : ℚ) :
    Represents cfg (s.pruneLocked now) ∧ Drops (Expired now) s (s.pruneLocked now) ∧
      ∀ id e, (s.pruneLocked now).entries.get? id = some e → ¬ Expired now e := by
  have htargets : ∀ e ∈ s.entries.values.filter
      (fun e => e.refcount = 0 ∧ e.expiresAt ≤ now),
      s.entries.get? e.entryId = some e ∧ Expired now e := by
    intro e he
    obtain ⟨hvalue, hexpired⟩ := List.mem_filter.mp he
    exact ⟨(mem_values h).mp hvalue, of_decide_eq_true hexpired⟩
  obtain ⟨hkept, hdrops, hgone⟩ :=
    Represents.removeAll evictLocked_tables h (nodup_ids h _) htargets
  refine ⟨hkept, hdrops, fun id e hget hexpired => ?_⟩
  have hbefore := hdrops.get? hget
  have hid := h.ids id e hbefore
  subst hid
  have hmem : e ∈ s.entries.values.filter (fun e => e.refcount = 0 ∧ e.expiresAt ≤ now) :=
    List.mem_filter.mpr ⟨(mem_values h).mpr hbefore, decide_eq_true hexpired⟩
  have hnone : (s.pruneLocked now).entries.get? e.entryId = none := hgone e hmem
  rw [hget] at hnone
  exact absurd hnone (by simp)

/-- What the loop that makes room ends in. -/
structure RoomMade (cfg : CacheConfig) (byteSize : ℕ) (s : SequenceStateCache)
    (r : Except PyException Unit × SequenceStateCache) : Prop where
  represents : Represents cfg r.2
  drops : Drops Unleased s r.2
  room : ∀ u, r.1 = .ok u → ¬ Crowded cfg byteSize r.2
  pinned : ∀ exc, r.1 = .error exc →
    exc = capacityError "cache capacity is pinned by active leases" ∧
      ∀ id e, r.2.entries.get? id = some e → ¬ Unleased e

/-- Every pass removes an unleased entry, so that the loop ends before the fuel does. -/
theorem evictUntilFits_spec (byteSize : ℕ) : ∀ (fuel : ℕ) {s : SequenceStateCache},
    Represents cfg s → s.entries.items.length < fuel →
      ∃ r, evictUntilFits cfg byteSize fuel s = some r ∧ RoomMade cfg byteSize s r
  | 0, s, _, hfuel => absurd hfuel (Nat.not_lt_zero _)
  | fuel + 1, s, h, hfuel => by
    rw [evictUntilFits]
    by_cases hcrowded : Crowded cfg byteSize s
    · rw [if_pos hcrowded]
      cases hevictable : s.evictable with
      | nil =>
        refine ⟨_, rfl, h, .refl _ s, fun _ hok => absurd hok (by simp), fun exc hexc => ?_⟩
        refine ⟨(Except.error.inj hexc).symm, fun id e hget hfree => ?_⟩
        have hmem : e ∈ s.evictable := by
          refine List.mem_filter.mpr ⟨(mem_values h).mpr ?_, decide_eq_true hfree⟩
          rw [h.ids id e hget]
          exact hget
        rw [hevictable] at hmem
        exact absurd hmem (by simp)
      | cons first rest =>
        dsimp only
        set victim := minByKey (fun e : CacheEntry => toLex (e.lastAccess, e.createdAt)) first rest
          with hvictim
        have hmem : victim ∈ s.evictable := by
          rw [hevictable]
          exact minByKey_mem _ first rest
        obtain ⟨hvalue, hfree⟩ := List.mem_filter.mp hmem
        have hget := (mem_values h).mp hvalue
        have hnext : Represents cfg (s.evictLocked victim) :=
          (h.remove false hget).congr rfl rfl rfl rfl
        have hdrops : Drops Unleased s (s.evictLocked victim) :=
          (drops_removeLocked false hget (of_decide_eq_true hfree)).congr rfl rfl
        have hlength : (s.evictLocked victim).entries.items.length < fuel := by
          have hpop := Dict.total_pop (fun _ => 1) s.entries victim.entryId
          rw [hget, Option.elim_some, ← length_eq_total, ← length_eq_total] at hpop
          have hentries : (s.evictLocked victim).entries = s.entries.pop victim.entryId := rfl
          rw [hentries]
          omega
        obtain ⟨r, hr, hmade⟩ := evictUntilFits_spec byteSize fuel hnext hlength
        exact ⟨r, hr, hmade.represents, hdrops.trans hmade.drops, hmade.room, hmade.pinned⟩
    · rw [if_neg hcrowded]
      exact ⟨_, rfl, h, .refl _ s, fun _ _ => hcrowded, fun _ hexc => absurd hexc (by simp)⟩

theorem ensureCapacityLocked_spec (h : Represents cfg s) (byteSize : ℕ) (now : ℚ) :
    RoomMade cfg byteSize s (ensureCapacityLocked cfg byteSize now s) := by
  obtain ⟨hpruned, hdrops, _⟩ := pruneLocked_spec h now
  obtain ⟨r, hr, hmade⟩ := evictUntilFits_spec byteSize _ hpruned (Nat.lt_succ_self _)
  have hresult : ensureCapacityLocked cfg byteSize now s = r := by
    unfold ensureCapacityLocked
    dsimp only
    rw [hr]
    rfl
  rw [hresult]
  exact ⟨hmade.represents, (hdrops.mono fun _ he => he.1).trans hmade.drops, hmade.room,
    hmade.pinned⟩

/-! ### Entering an entry -/

/-- The id that is drawn next belongs to no entry. -/
theorem fresh_id (h : Represents cfg s) : s.entries.get? (cfg.uuid4 s.issued) = none := by
  by_contra hsome
  obtain ⟨e, hget⟩ := Option.ne_none_iff_exists'.mp hsome
  obtain ⟨n, hn, heq⟩ := h.drawn _ e hget
  exact absurd (cfg.uuid4_injective heq) (by omega)

/-- A new entry under the id that is drawn next, with its place in the index unless it
is a private copy. -/
def enter (cfg : CacheConfig) (e : CacheEntry) (s : SequenceStateCache) : SequenceStateCache :=
  { s with
    entries := s.entries.set (cfg.uuid4 s.issued) e
    index := if e.ephemeral then s.index else s.index.set (e.key, e.scope) (cfg.uuid4 s.issued)
    bytesUsed := s.bytesUsed + e.byteSize
    issued := s.issued + 1 }

theorem get?_enter {e : CacheEntry} (id : PyStr) : (enter cfg e s).entries.get? id =
    if cfg.uuid4 s.issued = id then some e else s.entries.get? id := Dict.get?_set

theorem Represents.enter (h : Represents cfg s) {e : CacheEntry} (hid : e.entryId = cfg.uuid4 s.issued)
    (hroom : ¬ Crowded cfg e.byteSize s) (hclone : e.ephemeral = true → e.refcount = 1)
    (hnew : e.ephemeral = false → s.index.get? (e.key, e.scope) = none) :
    Represents cfg (enter cfg e s) := by
  have hfresh := fresh_id h
  obtain ⟨hbytes, hlength⟩ := not_or.mp hroom
  have hentries : (SequenceStateCache.enter cfg e s).entries =
      s.entries.set (cfg.uuid4 s.issued) e := rfl
  have hused : (SequenceStateCache.enter cfg e s).bytesUsed = s.bytesUsed + e.byteSize := rfl
  have hsize := Dict.total_set CacheEntry.byteSize s.entries (cfg.uuid4 s.issued) e
  have hone := Dict.total_set (fun _ => 1) s.entries (cfg.uuid4 s.issued) e
  rw [hfresh, Option.elim_none] at hsize hone
  rw [← length_eq_total, ← length_eq_total] at hone
  have hbefore := h.bytes
  refine ⟨fun id e' hget => ?_, ?_, ?_, ?_, fun key scope id => ?_, fun id e' hget => ?_,
    fun id e' hget => ?_⟩
  · rw [get?_enter] at hget
    split_ifs at hget with heq
    · obtain rfl := Option.some_inj.mp hget
      exact hid.trans heq
    · exact h.ids id e' hget
  · rw [hused, hentries]
    omega
  · rw [hused]
    omega
  · rw [hentries]
    omega
  · rw [get?_enter]
    by_cases hephemeral : e.ephemeral = true
    · have hindex : (SequenceStateCache.enter cfg e s).index = s.index := if_pos hephemeral
      rw [hindex, h.index]
      by_cases heq : cfg.uuid4 s.issued = id
      · subst heq
        rw [if_pos rfl, hfresh]
        constructor
        · rintro ⟨e', he', _⟩
          exact absurd he' (by simp)
        · rintro ⟨e', he', hnot, _⟩
          obtain rfl := Option.some_inj.mp he'
          exact absurd (hnot.symm.trans hephemeral) (by simp)
      · rw [if_neg heq]
    · have hindex : (SequenceStateCache.enter cfg e s).index =
          s.index.set (e.key, e.scope) (cfg.uuid4 s.issued) := if_neg hephemeral
      have hephemeral : e.ephemeral = false := by simpa using hephemeral
      rw [hindex, Dict.get?_set]
      by_cases hpair : (e.key, e.scope) = (key, scope)
      · obtain ⟨rfl, rfl⟩ := Prod.mk.inj hpair
        rw [if_pos rfl]
        constructor
        · intro hsome
          obtain rfl := Option.some_inj.mp hsome
          exact ⟨e, if_pos rfl, hephemeral, rfl, rfl⟩
        · rintro ⟨e', he', hnot, hkey, hscope⟩
          split_ifs at he' with heq
          · rw [heq]
          · -- an older entry under this pair would be in the index
            have hold := (h.index e.key e.scope id).mpr ⟨e', he', hnot, hkey, hscope⟩
            rw [hnew hephemeral] at hold
            exact absurd hold (by simp)
      · rw [if_neg hpair, h.index]
        by_cases heq : cfg.uuid4 s.issued = id
        · subst heq
          rw [if_pos rfl, hfresh]
          constructor
          · rintro ⟨e', he', _⟩
            exact absurd he' (by simp)
          · rintro ⟨e', he', _, hkey, hscope⟩
            obtain rfl := Option.some_inj.mp he'
            exact absurd (by rw [hkey, hscope]) hpair
        · rw [if_neg heq]
  · rw [get?_enter] at hget
    split_ifs at hget with heq
    · obtain rfl := Option.some_inj.mp hget
      exact hclone
    · exact h.clones id e' hget
  · have hissued : (SequenceStateCache.enter cfg e s).issued = s.issued + 1 := rfl
    rw [get?_enter] at hget
    rw [hissued]
    split_ifs at hget with heq
    · exact ⟨s.issued, by omega, heq.symm⟩
    · obtain ⟨n, hn, heq'⟩ := h.drawn id e' hget
      exact ⟨n, by omega, heq'⟩

/-! ### The methods -/

/-- An entry has been entered, and room has been made for it. -/
structure Entered (cfg : CacheConfig) (s s' : SequenceStateCache) (e : CacheEntry) : Prop where
  id : e.entryId = cfg.uuid4 s.issued
  issued : s'.issued = s.issued + 1
  entries : ∃ mid, Drops Unleased s mid ∧ s'.entries = mid.entries.set (cfg.uuid4 s.issued) e

/-- The end of `put`. -/
inductive PutEnds (cfg : CacheConfig) (key : ExactTokenCacheKey) (scope : CacheScope)
    (payload : List UInt8) (s : SequenceStateCache) :
    Except PyException PyStr × SequenceStateCache → Prop where
  /-- nothing has been entered -/
  | refused {exc : PyException} {s' : SequenceStateCache} (drops : Drops Unleased s s') :
      PutEnds cfg key scope payload s (.error exc, s')
  | stored {e : CacheEntry} {s' : SequenceStateCache} (entered : Entered cfg s s' e)
      (key_eq : e.key = key) (scope_eq : e.scope = scope) (payload_eq : e.payload = payload)
      (free : e.refcount = 0) (indexed : e.ephemeral = false) :
      PutEnds cfg key scope payload s (.ok e.entryId, s')

theorem index_of_drops {P : CacheEntry → Prop} (h : Represents cfg s) (h' : Represents cfg s')
    (hdrops : Drops P s s') {key : ExactTokenCacheKey} {scope : CacheScope}
    (hnone : s.index.get? (key, scope) = none) : s'.index.get? (key, scope) = none := by
  by_contra hsome
  obtain ⟨id, hid⟩ := Option.ne_none_iff_exists'.mp hsome
  obtain ⟨e, hget, hrest⟩ := (h'.index key scope id).mp hid
  have hbefore := (h.index key scope id).mpr ⟨e, hdrops.get? hget, hrest⟩
  rw [hnone] at hbefore
  exact absurd hbefore (by simp)

variable {key : ExactTokenCacheKey} {scope requester : CacheScope} {payload : List UInt8}

/-- Room is made and the entry stored, or all that is left is leased. -/
theorem storeLocked_spec (h : Represents cfg s) (payload : List UInt8) (now : ℚ)
    (hnew : s.index.get? (key, scope) = none) :
    Represents cfg (storeLocked cfg key scope payload now s).2 ∧
      PutEnds cfg key scope payload s (storeLocked cfg key scope payload now s) ∧
      ∀ exc, (storeLocked cfg key scope payload now s).1 = .error exc →
        ∀ id e, (storeLocked cfg key scope payload now s).2.entries.get? id = some e →
          ¬ Unleased e := by
  have hroom := ensureCapacityLocked_spec h payload.length now
  unfold storeLocked
  rcases hresult : ensureCapacityLocked cfg payload.length now s with ⟨result, mid⟩
  rw [hresult] at hroom
  cases result with
  | error exc => exact ⟨hroom.represents, .refused hroom.drops, fun _ _ => (hroom.pinned exc rfl).2⟩
  | ok _ =>
    let e : CacheEntry :=
      { entryId := cfg.uuid4 mid.issued, generation := 1, key := key, scope := scope,
        payload := payload, byteSize := payload.length, createdAt := now,
        expiresAt := now + cfg.ttlSeconds, lastAccess := now }
    have hissued : mid.issued = s.issued := hroom.drops.issued
    have hentered : Represents cfg (enter cfg e mid) :=
      hroom.represents.enter (e := e) rfl (hroom.room () rfl) (fun hc => absurd hc (by simp [e]))
        fun _ => index_of_drops h hroom.represents hroom.drops hnew
    refine ⟨hentered.congr rfl rfl rfl rfl, ?_, fun _ hexc => absurd hexc (by simp)⟩
    refine PutEnds.stored (e := e) ⟨?_, ?_, mid, hroom.drops, ?_⟩ rfl rfl rfl rfl rfl
    · exact congrArg cfg.uuid4 hissued
    · exact congrArg (· + 1) hissued
    · rw [← hissued]

/-- A leased entry is not replaced. -/
def Replaces (key : ExactTokenCacheKey) (scope : CacheScope) (s : SequenceStateCache)
    (e : CacheEntry) : Prop :=
  s.entries.get? e.entryId = some e ∧ e.ephemeral = false ∧ e.key = key ∧ e.scope = scope

theorem putLocked_spec (h : Represents cfg s) (key : ExactTokenCacheKey) (scope : CacheScope)
    (payload : List UInt8) (now : ℚ) :
    Represents cfg (putLocked cfg key scope payload now s).2 ∧
      PutEnds cfg key scope payload s (putLocked cfg key scope payload now s) ∧
      ∀ exc, (putLocked cfg key scope payload now s).1 = .error exc →
        ((∃ e, Replaces key scope s e ∧ ¬ Unleased e) ∧
          Drops (Expired now) s (putLocked cfg key scope payload now s).2) ∨
        (∀ e, Replaces key scope s e → Unleased e) ∧
          ∀ id e, (putLocked cfg key scope payload now s).2.entries.get? id = some e →
            ¬ Unleased e := by
  obtain ⟨hpruned, hdrops, _⟩ := pruneLocked_spec h now
  -- pruning leaves a leased entry in the index
  have hleased : ∀ e, Replaces key scope s e → ¬ Unleased e →
      (s.pruneLocked now).entries.get? e.entryId = some e ∧
        (s.pruneLocked now).index.get? (key, scope) = some e.entryId := by
    rintro e ⟨hget, hrest⟩ hleased
    have hkept := hdrops.keeps hget fun he => hleased he.1
    exact ⟨hkept, (hpruned.index _ _ _).mpr ⟨e, hkept, hrest⟩⟩
  have hfree : Drops Unleased s (s.pruneLocked now) := hdrops.mono fun _ he => he.1
  have hput {mid : SequenceStateCache} (hmid : Drops Unleased s mid)
      {r : Except PyException PyStr × SequenceStateCache}
      (hends : PutEnds cfg key scope payload mid r) : PutEnds cfg key scope payload s r := by
    cases hends with
    | refused drops => exact .refused (hmid.trans drops)
    | stored entered key_eq scope_eq payload_eq free indexed =>
      obtain ⟨hid, hissued, mid', hmid', hentries⟩ := entered
      rw [hmid.issued] at hid hissued hentries
      exact .stored ⟨hid, hissued, mid', hmid.trans hmid', hentries⟩ key_eq scope_eq payload_eq free
        indexed
  unfold putLocked
  dsimp only
  cases hindex : (s.pruneLocked now).index.get? (key, scope) with
  | none =>
    obtain ⟨hrep, hends, hpinned⟩ := storeLocked_spec hpruned payload now hindex
    refine ⟨hrep, hput hfree hends, fun exc hexc => .inr ⟨fun e he => ?_, hpinned exc hexc⟩⟩
    by_contra hc
    have hsome := (hleased e he hc).2
    exact absurd (hindex.symm.trans hsome) (by simp)
  | some existingId =>
    obtain ⟨existing, hget, hephemeral, hkey, hscope⟩ := (hpruned.index _ _ _).mp hindex
    have hid := hpruned.ids _ _ hget
    subst hid
    dsimp only
    rw [hget]
    dsimp only
    by_cases hcount : existing.refcount ≠ 0
    · rw [if_pos hcount]
      refine ⟨hpruned, .refused hfree, fun _ _ => .inl ⟨⟨existing, ?_, hcount⟩, hdrops⟩⟩
      exact ⟨hdrops.get? hget, hephemeral, hkey, hscope⟩
    · rw [if_neg hcount]
      have hunleased : Unleased existing := not_not.mp hcount
      have hremoved : Represents cfg ((s.pruneLocked now).removeLocked existing true) :=
        hpruned.remove true hget
      have hnew : ((s.pruneLocked now).removeLocked existing true).index.get? (key, scope) = none := by
        have heq : ((s.pruneLocked now).removeLocked existing true).index =
            (s.pruneLocked now).index.pop (existing.key, existing.scope) :=
          if_neg (by rw [hephemeral]; simp)
        rw [heq, Dict.get?_pop, if_pos (by rw [hkey, hscope])]
      obtain ⟨hrep, hends, hpinned⟩ := storeLocked_spec hremoved payload now hnew
      refine ⟨hrep, hput (hfree.trans (drops_removeLocked true hget hunleased)) hends,
        fun exc hexc => .inr ⟨fun e he => ?_, hpinned exc hexc⟩⟩
      by_contra hc
      obtain ⟨hkept, hmine⟩ := hleased e he hc
      have hid := Option.some_inj.mp (hindex.symm.trans hmine)
      rw [← hid, hget] at hkept
      obtain rfl := Option.some_inj.mp hkept
      exact hc hunleased

theorem put_spec (h : Represents cfg s) (key : ExactTokenCacheKey) (scope : CacheScope)
    (payload : List UInt8) (now : Except PyException ℚ) :
    Represents cfg (put cfg key scope payload now s).2 ∧
      PutEnds cfg key scope payload s (put cfg key scope payload now s) := by
  unfold put
  by_cases hempty : payload = []
  · rw [if_pos hempty]
    exact ⟨h, .refused (.refl _ s)⟩
  rw [if_neg hempty]
  by_cases hlarge : cfg.byteBudget < payload.length
  · rw [if_pos hlarge]
    exact ⟨h, .refused (.refl _ s)⟩
  rw [if_neg hlarge]
  cases now with
  | error exc => exact ⟨h, .refused (.refl _ s)⟩
  | ok now =>
    obtain ⟨hrep, hends, _⟩ := putLocked_spec h key scope payload now
    exact ⟨hrep, hends⟩

/-- An entry is counted, and its times are set. -/
theorem Represents.touch (h : Represents cfg s) {e e' : CacheEntry}
    (hget : s.entries.get? e.entryId = some e) (hid : e'.entryId = e.entryId)
    (hkey : e'.key = e.key) (hscope : e'.scope = e.scope) (hsize : e'.byteSize = e.byteSize)
    (hephemeral : e'.ephemeral = e.ephemeral) (hclone : e.ephemeral = true → e'.refcount = 1) :
    Represents cfg { s with entries := s.entries.set e.entryId e' } := by
  have hset : ∀ id, ({ s with entries := s.entries.set e.entryId e' } :
      SequenceStateCache).entries.get? id = if e.entryId = id then some e' else s.entries.get? id :=
    fun _ => Dict.get?_set
  have htotal := Dict.total_set CacheEntry.byteSize s.entries e.entryId e'
  have hone := Dict.total_set (fun _ => 1) s.entries e.entryId e'
  rw [hget, Option.elim_some] at htotal hone
  rw [← length_eq_total, ← length_eq_total] at hone
  have hbytes := h.bytes
  have hcount := h.count
  refine ⟨fun id e'' hget' => ?_, ?_, h.budget, ?_, fun key scope id => ?_, fun id e'' hget' => ?_,
    fun id e'' hget' => ?_⟩
  · rw [hset] at hget'
    split_ifs at hget' with heq
    · obtain rfl := Option.some_inj.mp hget'
      exact hid.trans heq
    · exact h.ids id e'' hget'
  · show s.bytesUsed = ((s.entries.set e.entryId e').total CacheEntry.byteSize : ℕ)
    omega
  · show (s.entries.set e.entryId e').items.length ≤ cfg.maxEntries
    omega
  · show s.index.get? (key, scope) = some id ↔ _
    rw [h.index, hset]
    by_cases heq : e.entryId = id
    · subst heq
      rw [if_pos rfl, hget]
      constructor
      · rintro ⟨e'', he'', h1, h2, h3⟩
        obtain rfl := Option.some_inj.mp he''
        exact ⟨e', rfl, hephemeral.trans h1, hkey.trans h2, hscope.trans h3⟩
      · rintro ⟨e'', he'', h1, h2, h3⟩
        obtain rfl := Option.some_inj.mp he''
        exact ⟨e, rfl, hephemeral.symm.trans h1, hkey.symm.trans h2, hscope.symm.trans h3⟩
    · rw [if_neg heq]
  · rw [hset] at hget'
    split_ifs at hget' with heq
    · obtain rfl := Option.some_inj.mp hget'
      exact fun hc => hclone (hephemeral.symm.trans hc)
    · exact h.clones id e'' hget'
  · rw [hset] at hget'
    split_ifs at hget' with heq
    · obtain ⟨n, hn, heq'⟩ := h.drawn id e (heq ▸ hget)
      exact ⟨n, hn, heq'⟩
    · exact h.drawn id e'' hget'

/-- The end of `acquire`. -/
inductive AcquireEnds (cfg : CacheConfig) (key : ExactTokenCacheKey) (requester : CacheScope)
    (mutable : Bool) (s : SequenceStateCache) :
    Except PyException (Option CacheLease) × SequenceStateCache → Prop where
  /-- no lease has been granted -/
  | refused {r : Except PyException (Option CacheLease)} {s' : SequenceStateCache}
      (drops : Drops Unleased s s') (none : ∀ lease, r ≠ .ok (some lease)) :
      AcquireEnds cfg key requester mutable s (r, s')
  /-- one more lease of an entry -/
  | shared {e e' : CacheEntry} {mid s' : SequenceStateCache} (drops : Drops Unleased s mid)
      (present : mid.entries.get? e.entryId = some e)
      (indexed : e.ephemeral = false) (key_eq : e.key = key) (allowed : e.scope.allows requester)
      (counted : e' = { e with
        refcount := e.refcount + 1, lastAccess := e'.lastAccess, expiresAt := e'.expiresAt })
      (entries : s'.entries = mid.entries.set e.entryId e') (issued : s'.issued = s.issued)
      (represents : Represents cfg mid) :
      AcquireEnds cfg key requester mutable s
        (.ok (some ⟨e.entryId, e.generation, e.key, mutable, false⟩), s')
  /-- the lease of a private copy of a leased entry -/
  | cloned {e clone : CacheEntry} {s' : SequenceStateCache} (entered : Entered cfg s s' clone)
      (present : s.entries.get? e.entryId = some e) (leased : ¬ Unleased e)
      (indexed : e.ephemeral = false) (key_eq : e.key = key) (allowed : e.scope.allows requester)
      (mutable_eq : mutable = true) (clone_key : clone.key = e.key)
      (clone_payload : clone.payload = e.payload) (pinned : clone.refcount = 1)
      (ephemeral : clone.ephemeral = true) :
      AcquireEnds cfg key requester mutable s
        (.ok (some ⟨clone.entryId, clone.generation, clone.key, mutable, true⟩), s')

theorem acquireLocked_spec (h : Represents cfg s) (key : ExactTokenCacheKey) (requester : CacheScope)
    (mutable : Bool) (now : ℚ) :
    Represents cfg (acquireLocked cfg key requester mutable now s).2 ∧
      AcquireEnds cfg key requester mutable s (acquireLocked cfg key requester mutable now s) ∧
      ∀ exc, (acquireLocked cfg key requester mutable now s).1 = .error exc →
        ∀ id e, (acquireLocked cfg key requester mutable now s).2.entries.get? id = some e →
          ¬ Unleased e := by
  obtain ⟨hpruned, hdrops, _⟩ := pruneLocked_spec h now
  have hfree : Drops Unleased s (s.pruneLocked now) := hdrops.mono fun _ he => he.1
  unfold acquireLocked
  dsimp only
  cases hallowed : (s.pruneLocked now).allowedEntries key requester with
  | nil =>
    dsimp only
    split_ifs
    · exact ⟨hpruned.congr rfl rfl rfl rfl, .refused (hfree.congr rfl rfl)
        (fun _ hc => absurd hc (by simp)), fun _ hexc => absurd hexc (by simp)⟩
    · exact ⟨hpruned.congr rfl rfl rfl rfl, .refused (hfree.congr rfl rfl)
        (fun _ hc => absurd hc (by simp)), fun _ hexc => absurd hexc (by simp)⟩
  | cons first rest =>
    dsimp only
    set e := minByKey (fun e : CacheEntry =>
      toLex (visibilityRank e.scope.visibility, -e.lastAccess)) first rest with he
    have hmem : e ∈ (s.pruneLocked now).allowedEntries key requester := by
      rw [hallowed]
      exact minByKey_mem _ first rest
    obtain ⟨hmatching, hallows⟩ := List.mem_filter.mp hmem
    obtain ⟨hvalue, hmatch⟩ := List.mem_filter.mp hmatching
    have hget := (mem_values hpruned).mp hvalue
    obtain ⟨hindexed, hkey⟩ : ¬ e.ephemeral = true ∧ e.key = key := of_decide_eq_true hmatch
    have hindexed : e.ephemeral = false := by simpa using hindexed
    by_cases hcopy : mutable = true ∧ 0 < e.refcount
    · rw [if_pos hcopy]
      have hroom := ensureCapacityLocked_spec hpruned e.byteSize now
      rcases hresult : ensureCapacityLocked cfg e.byteSize now (s.pruneLocked now) with ⟨result, mid⟩
      rw [hresult] at hroom
      have hmid : Drops Unleased s mid := hfree.trans hroom.drops
      cases result with
      | error exc =>
        exact ⟨hroom.represents, .refused hmid (fun _ hc => absurd hc (by simp)),
          fun _ _ => (hroom.pinned exc rfl).2⟩
      | ok _ =>
        have hissued : mid.issued = s.issued := hmid.issued
        have hentered : Represents cfg (enter cfg (cloneOf cfg e requester now mid) mid) :=
          hroom.represents.enter (e := cloneOf cfg e requester now mid) rfl (hroom.room () rfl)
            (fun _ => rfl) fun hc => absurd hc (by simp [cloneOf])
        have hnext : mid.entries.set (cfg.uuid4 mid.issued) (cloneOf cfg e requester now mid) =
            mid.entries.set (cfg.uuid4 s.issued) (cloneOf cfg e requester now mid) := by
          rw [← hissued]
        refine ⟨hentered.congr rfl rfl rfl rfl, ?_, fun _ hexc => absurd hexc (by simp [grant])⟩
        exact AcquireEnds.cloned
          ⟨congrArg cfg.uuid4 hissued, congrArg (· + 1) hissued, mid, hmid, hnext⟩ (hdrops.get? hget)
          (Nat.pos_iff_ne_zero.mp hcopy.2) hindexed hkey hallows hcopy.1 rfl rfl rfl rfl
    · rw [if_neg hcopy]
      have htouched : Represents cfg { s.pruneLocked now with
          entries := (s.pruneLocked now).entries.set e.entryId { e with
            refcount := e.refcount + 1, lastAccess := now, expiresAt := now + cfg.ttlSeconds } } :=
        hpruned.touch hget rfl rfl rfl rfl rfl fun hc => absurd (hindexed.symm.trans hc) (by simp)
      refine ⟨htouched.congr rfl rfl rfl rfl, ?_, fun _ hexc => absurd hexc (by simp [grant])⟩
      exact AcquireEnds.shared hfree hget hindexed hkey hallows rfl rfl hfree.issued hpruned

theorem acquire_spec (h : Represents cfg s) (key : ExactTokenCacheKey) (requester : CacheScope)
    (mutable : Bool) (now : Except PyException ℚ) :
    Represents cfg (acquire cfg key requester mutable now s).2 ∧
      AcquireEnds cfg key requester mutable s (acquire cfg key requester mutable now s) := by
  unfold acquire
  by_cases hprefix : mutable = true ∧ key.kind = .PREFIX
  · rw [if_pos hprefix]
    exact ⟨h, .refused (.refl _ s) fun _ hc => absurd hc (by simp)⟩
  rw [if_neg hprefix]
  cases now with
  | error exc => exact ⟨h, .refused (.refl _ s) fun _ hc => absurd hc (by simp)⟩
  | ok now =>
    obtain ⟨hrep, hends, _⟩ := acquireLocked_spec h key requester mutable now
    exact ⟨hrep, hends⟩

/-- The end of `release`. -/
inductive ReleaseEnds (lease : CacheLease) (s : SequenceStateCache) :
    Bool × SequenceStateCache → Prop where
  /-- there is no such lease -/
  | stale (missing : ∀ e, s.entries.get? lease.entryId = some e →
      e.generation = lease.generation → e.refcount = 0) : ReleaseEnds lease s (false, s)
  | counted {e : CacheEntry} {s' : SequenceStateCache}
      (present : s.entries.get? lease.entryId = some e) (generation : e.generation = lease.generation)
      (leased : 0 < e.refcount) (left : e.ephemeral = false)
      (entries : s'.entries = s.entries.set lease.entryId { e with refcount := e.refcount - 1 })
      (issued : s'.issued = s.issued) : ReleaseEnds lease s (true, s')
  /-- a private copy goes with its lease -/
  | removed {e : CacheEntry} {s' : SequenceStateCache}
      (present : s.entries.get? lease.entryId = some e) (generation : e.generation = lease.generation)
      (last : e.refcount = 1) (ephemeral : e.ephemeral = true)
      (entry : ∀ id, s'.entries.get? id = if lease.entryId = id then none else s.entries.get? id)
      (issued : s'.issued = s.issued) : ReleaseEnds lease s (true, s')

theorem pop_set (d : Dict PyStr CacheEntry) (id : PyStr) (e : CacheEntry) :
    (d.set id e).pop id = d.pop id := by
  have hitems : ∀ items : List (PyStr × CacheEntry),
      Items.remove id (Items.store id e items) = Items.remove id items := by
    intro items
    induction items with
    | nil => simp [Items.store, Items.remove]
    | cons item rest ih =>
      obtain ⟨id', e'⟩ := item
      rw [Items.store]
      split_ifs with heq
      · simp [Items.remove, heq]
      · unfold Items.remove at ih ⊢
        rw [List.filter_cons_of_pos (by simpa using heq),
          List.filter_cons_of_pos (by simpa using heq), ih]
  unfold Dict.pop Dict.set
  simp only [hitems]

theorem release_spec (h : Represents cfg s) (lease : CacheLease) :
    Represents cfg (s.release lease).2 ∧ ReleaseEnds lease s (s.release lease) := by
  unfold release
  cases hget : s.entries.get? lease.entryId with
  | none => exact ⟨h, .stale fun e he => absurd (hget.symm.trans he) (by simp)⟩
  | some e =>
    have hid := h.ids _ e hget
    dsimp only
    by_cases hstale : e.generation ≠ lease.generation ∨ e.refcount = 0
    · rw [if_pos hstale]
      refine ⟨h, .stale fun e' he' hgeneration => ?_⟩
      obtain rfl := Option.some_inj.mp (hget.symm.trans he')
      exact hstale.resolve_left (not_not.mpr hgeneration)
    · rw [if_neg hstale]
      obtain ⟨hgeneration, hleased⟩ := not_or.mp hstale
      have hgeneration : e.generation = lease.generation := not_not.mp hgeneration
      by_cases hlast : e.ephemeral = true ∧ e.refcount - 1 = 0
      · rw [if_pos hlast]
        have hone : e.refcount = 1 := by omega
        have hentries : (s.entries.set lease.entryId { e with refcount := e.refcount - 1 }).pop
            e.entryId = s.entries.pop e.entryId := by rw [← hid, pop_set]
        refine ⟨(h.remove (e := e) false (hid ▸ hget)).congr hentries ?_ rfl rfl,
          .removed hget hgeneration hone hlast.1 (fun id => ?_) rfl⟩
        · exact (if_pos hlast.1).trans (if_pos hlast.1).symm
        · show ((s.entries.set lease.entryId _).pop e.entryId).get? id = _
          rw [hentries, hid]
          exact Dict.get?_pop
      · rw [if_neg hlast]
        -- the count of a private copy is one
        have hkept : e.ephemeral = false := by
          by_contra hc
          have hephemeral : e.ephemeral = true := by simpa using hc
          have hone := h.clones _ e hget hephemeral
          exact hlast ⟨hephemeral, by omega⟩
        have htouched : Represents cfg { s with
            entries := s.entries.set lease.entryId { e with refcount := e.refcount - 1 } } := by
          rw [← hid]
          exact h.touch (hid ▸ hget) rfl rfl rfl rfl rfl
            fun hc => absurd (hkept.symm.trans hc) (by simp)
        exact ⟨htouched, .counted hget hgeneration (Nat.pos_iff_ne_zero.mpr hleased) hkept rfl rfl⟩

theorem invalidate_spec (h : Represents cfg s) (tenantId : PyStr) (kind : Option CacheKind)
    (space : Option CacheNamespace) :
    Represents cfg (s.invalidate tenantId kind space).2 ∧
      Drops Unleased s (s.invalidate tenantId kind space).2 := by
  unfold invalidate
  cases checkTenant tenantId with
  | error exc => exact ⟨h, .refl _ s⟩
  | ok _ =>
    have htables : ∀ (s : SequenceStateCache) (e : CacheEntry), ∃ invalidation,
        (s.removeLocked e true).entries = (s.removeLocked e invalidation).entries ∧
          (s.removeLocked e true).index = (s.removeLocked e invalidation).index ∧
          (s.removeLocked e true).bytesUsed = (s.removeLocked e invalidation).bytesUsed ∧
          (s.removeLocked e true).issued = s.issued := fun _ _ => ⟨true, rfl, rfl, rfl, rfl⟩
    obtain ⟨hrep, hdrops, _⟩ := Represents.removeAll (P := Unleased) htables h (nodup_ids h _)
      fun e he => by
        obtain ⟨hvalue, hmatch⟩ := List.mem_filter.mp he
        obtain ⟨_, _, _, hfree⟩ : e.scope.tenantId = tenantId ∧
            (kind = none ∨ kind = some e.key.kind) ∧ (space = none ∨ space = some e.key.space) ∧
              e.refcount = 0 := of_decide_eq_true hmatch
        exact ⟨(mem_values h).mp hvalue, hfree⟩
    exact ⟨hrep, hdrops⟩

theorem prune_spec (h : Represents cfg s) (now : Except PyException ℚ) :
    Represents cfg (s.prune now).2 ∧ Drops Unleased s (s.prune now).2 := by
  cases now with
  | error exc => exact ⟨h, .refl _ s⟩
  | ok now =>
    obtain ⟨hrep, hdrops, _⟩ := pruneLocked_spec h now
    exact ⟨hrep, hdrops.mono fun _ he => he.1⟩

/-! ### Histories -/

theorem commitSession_cases (cfg : CacheConfig) (lease : CacheLease) (newKey : ExactTokenCacheKey)
    (payload : List UInt8) (scope : CacheScope) (now : Except PyException ℚ)
    (s : SequenceStateCache) :
    (∃ exc, s.checkCommit lease newKey = .error exc ∧
      commitSession cfg lease newKey payload scope now s = (.error exc, s)) ∨
    s.checkCommit lease newKey = .ok () ∧
      ((∃ exc, (put cfg newKey scope payload now s).1 = .error exc ∧
        commitSession cfg lease newKey payload scope now s =
          (.error exc, (put cfg newKey scope payload now s).2)) ∨
      ∃ id, (put cfg newKey scope payload now s).1 = .ok id ∧
        commitSession cfg lease newKey payload scope now s =
          (.ok id, ((put cfg newKey scope payload now s).2.release lease).2)) := by
  unfold commitSession
  cases hcheck : s.checkCommit lease newKey with
  | error exc => exact .inl ⟨exc, rfl, rfl⟩
  | ok _ =>
    refine .inr ⟨rfl, ?_⟩
    dsimp only
    rcases put cfg newKey scope payload now s with ⟨result, s'⟩
    cases result with
    | error exc => exact .inl ⟨exc, rfl, rfl⟩
    | ok id => exact .inr ⟨id, rfl, rfl⟩

theorem perform_represents (h : Represents cfg s) (op : CacheOp) :
    Represents cfg (perform cfg s op).2 := by
  cases op with
  | put key scope payload now => exact (put_spec h key scope payload now).1
  | acquire key requester mutable now => exact (acquire_spec h key requester mutable now).1
  | release lease => exact (release_spec h lease).1
  | commitSession lease newKey payload scope now =>
    have hput := (put_spec h newKey scope payload now).1
    show Represents cfg (commitSession cfg lease newKey payload scope now s).2
    rcases commitSession_cases cfg lease newKey payload scope now s
      with ⟨exc, _, heq⟩ | ⟨_, ⟨exc, _, heq⟩ | ⟨id, _, heq⟩⟩
    · rw [heq]
      exact h
    · rw [heq]
      exact hput
    · rw [heq]
      exact (release_spec hput lease).1
  | invalidate tenantId kind space => exact (invalidate_spec h tenantId kind space).1
  | prune now => exact (prune_spec h now).1

/-- A leased entry, as far as no call changes it. -/
structure SameEntry (e e' : CacheEntry) : Prop where
  generation : e'.generation = e.generation
  key : e'.key = e.key
  scope : e'.scope = e.scope
  payload : e'.payload = e.payload
  ephemeral : e'.ephemeral = e.ephemeral

theorem SameEntry.refl (e : CacheEntry) : SameEntry e e := ⟨rfl, rfl, rfl, rfl, rfl⟩

/-- A leased entry is still there, with at least as many leases. -/
def StillLeased (id : PyStr) (e : CacheEntry) (s : SequenceStateCache) : Prop :=
  ∃ e', s.entries.get? id = some e' ∧ SameEntry e e' ∧ e.refcount ≤ e'.refcount

theorem Drops.stillLeased (h : Drops Unleased s s') {id : PyStr} {e : CacheEntry}
    (hget : s.entries.get? id = some e) (hleased : 0 < e.refcount) : StillLeased id e s' :=
  ⟨e, h.keeps hget (Nat.pos_iff_ne_zero.mp hleased), .refl e, le_rfl⟩

theorem Entered.stillLeased {new : CacheEntry} (h : Entered cfg s s' new) (hs : Represents cfg s)
    {id : PyStr} {e : CacheEntry} (hget : s.entries.get? id = some e) (hleased : 0 < e.refcount) :
    StillLeased id e s' := by
  obtain ⟨_, _, mid, hmid, hentries⟩ := h
  have hne : cfg.uuid4 s.issued ≠ id := by
    rintro rfl
    rw [fresh_id hs] at hget
    exact absurd hget (by simp)
  refine ⟨e, ?_, .refl e, le_rfl⟩
  rw [hentries, Dict.get?_set_ne hne]
  exact hmid.keeps hget (Nat.pos_iff_ne_zero.mp hleased)

theorem put_stillLeased (h : Represents cfg s) {now : Except PyException ℚ} {id : PyStr}
    {e : CacheEntry} (hget : s.entries.get? id = some e) (hleased : 0 < e.refcount) :
    StillLeased id e (put cfg key scope payload now s).2 := by
  have hends := (put_spec h key scope payload now).2
  generalize put cfg key scope payload now s = r at hends
  cases hends with
  | refused drops => exact drops.stillLeased hget hleased
  | stored entered => exact entered.stillLeased h hget hleased

theorem acquire_stillLeased (h : Represents cfg s) {mutable : Bool} {now : Except PyException ℚ}
    {id : PyStr} {e : CacheEntry} (hget : s.entries.get? id = some e) (hleased : 0 < e.refcount) :
    StillLeased id e (acquire cfg key requester mutable now s).2 := by
  have hends := (acquire_spec h key requester mutable now).2
  generalize acquire cfg key requester mutable now s = r at hends
  cases hends with
  | refused drops => exact drops.stillLeased hget hleased
  | cloned entered => exact entered.stillLeased h hget hleased
  | @shared e₀ e₁ mid s' drops present indexed key_eq allowed counted entries issued _ =>
    have hmid := drops.keeps hget (Nat.pos_iff_ne_zero.mp hleased)
    dsimp only
    by_cases heq : e₀.entryId = id
    · subst heq
      obtain rfl := Option.some_inj.mp (present.symm.trans hmid)
      refine ⟨e₁, by rw [entries, Dict.get?_set_self], ?_, ?_⟩
      · rw [counted]
        exact ⟨rfl, rfl, rfl, rfl, rfl⟩
      · rw [counted]
        exact Nat.le_succ _
    · exact ⟨e, by rw [entries, Dict.get?_set_ne heq]; exact hmid, .refl e, le_rfl⟩

/-- `release` of a lease of another entry. -/
theorem release_other (h : Represents cfg s) {lease : CacheLease} {id : PyStr}
    (hne : lease.entryId ≠ id) : (s.release lease).2.entries.get? id = s.entries.get? id := by
  have hends := (release_spec h lease).2
  generalize s.release lease = r at hends
  cases hends with
  | stale => rfl
  | counted _ _ _ _ entries => rw [entries, Dict.get?_set_ne hne]
  | removed _ _ _ _ entry => rw [entry, if_neg hne]

/-- The lease a call gives back when it succeeds. -/
def givenBack : CacheOp → Option CacheLease
  | .release lease => some lease
  | .commitSession lease _ _ _ _ => some lease
  | _ => none

/-- Only giving back the last lease of a private copy removes a leased entry. -/
theorem perform_removes (h : Represents cfg s) {op : CacheOp} {id : PyStr} {e : CacheEntry}
    (hget : s.entries.get? id = some e) (hleased : 0 < e.refcount)
    (hgone : (perform cfg s op).2.entries.get? id = none) :
    e.ephemeral = true ∧ e.refcount = 1 ∧
      ∃ lease, givenBack op = some lease ∧ lease.entryId = id := by
  have hstill : ∀ {s' : SequenceStateCache}, StillLeased id e s' → s'.entries.get? id ≠ none := by
    rintro s' ⟨e', hget', _⟩ hnone
    exact absurd (hget'.symm.trans hnone) (by simp)
  have hrelease : ∀ {s' : SequenceStateCache} {lease : CacheLease}, Represents cfg s' →
      StillLeased id e s' → (s'.release lease).2.entries.get? id = none →
        e.ephemeral = true ∧ e.refcount = 1 ∧ lease.entryId = id := by
    intro s' lease hs' hleft hnone
    obtain ⟨e', hget', hsame, hcount⟩ := hleft
    by_cases heq : lease.entryId = id
    · subst heq
      have hends := (release_spec hs' lease).2
      generalize s'.release lease = r at hends hnone
      cases hends with
      | stale => exact absurd (hget'.symm.trans hnone) (by simp)
      | counted _ _ _ _ entries =>
        dsimp only at hnone
        rw [entries, Dict.get?_set_self] at hnone
        exact absurd hnone (by simp)
      | removed present _ last ephemeral _ _ =>
        obtain rfl := Option.some_inj.mp (hget'.symm.trans present)
        exact ⟨hsame.ephemeral.symm.trans ephemeral, by omega, rfl⟩
    · rw [release_other hs' heq, hget'] at hnone
      exact absurd hnone (by simp)
  cases op with
  | put key scope payload now => exact absurd hgone (hstill (put_stillLeased h hget hleased))
  | acquire key requester mutable now =>
    exact absurd hgone (hstill (acquire_stillLeased h hget hleased))
  | release lease =>
    obtain ⟨h1, h2, h3⟩ := hrelease h ⟨e, hget, .refl e, le_rfl⟩ hgone
    exact ⟨h1, h2, lease, rfl, h3⟩
  | commitSession lease newKey payload scope now =>
    have hgone : (commitSession cfg lease newKey payload scope now s).2.entries.get? id = none :=
      hgone
    rcases commitSession_cases cfg lease newKey payload scope now s
      with ⟨exc, _, heq⟩ | ⟨_, ⟨exc, _, heq⟩ | ⟨id', _, heq⟩⟩
    · rw [heq] at hgone
      exact absurd (hget.symm.trans hgone) (by simp)
    · rw [heq] at hgone
      exact absurd hgone (hstill (put_stillLeased h hget hleased))
    · rw [heq] at hgone
      obtain ⟨h1, h2, h3⟩ := hrelease (put_spec h newKey scope payload now).1 (put_stillLeased h hget hleased) hgone
      exact ⟨h1, h2, lease, rfl, h3⟩
  | invalidate tenantId kind space =>
    exact absurd hgone (hstill ((invalidate_spec h tenantId kind space).2.stillLeased hget hleased))
  | prune now => exact absurd hgone (hstill ((prune_spec h now).2.stillLeased hget hleased))

/-- The cache, and the leases that have been granted and not been given back. -/
abbrev CacheHistory := SequenceStateCache × List CacheLease

def record (cfg : CacheConfig) (p : CacheHistory) (op : CacheOp) : CacheHistory :=
  ((perform cfg p.1 op).2,
    match op, (perform cfg p.1 op).1 with
    | .acquire .., .ok (.lease (some lease)) => lease :: p.2
    | .release lease, .ok (.released true) => p.2.erase lease
    | .commitSession lease .., .ok _ => p.2.erase lease
    | _, _ => p.2)

/-- The lease of every private copy is held. -/
def ClonesHeld (held : List CacheLease) (s : SequenceStateCache) : Prop :=
  ∀ id e, s.entries.get? id = some e → e.ephemeral = true →
    (⟨id, e.generation, e.key, true, true⟩ : CacheLease) ∈ held

theorem ClonesHeld.drops {P : CacheEntry → Prop} {held : List CacheLease} (h : ClonesHeld held s)
    (hdrops : Drops P s s') : ClonesHeld held s' :=
  fun id e hget => h id e (hdrops.get? hget)

theorem ClonesHeld.entered {held : List CacheLease} (h : ClonesHeld held s) {e : CacheEntry}
    (hentered : Entered cfg s s' e)
    (hclone : e.ephemeral = true →
      (⟨e.entryId, e.generation, e.key, true, true⟩ : CacheLease) ∈ held) : ClonesHeld held s' := by
  obtain ⟨hid, _, mid, hmid, hentries⟩ := hentered
  intro id e' hget hephemeral
  rw [hentries, Dict.get?_set] at hget
  split_ifs at hget with heq
  · obtain rfl := Option.some_inj.mp hget
    rw [← heq, ← hid]
    exact hclone hephemeral
  · exact h.drops hmid id e' hget hephemeral

theorem ClonesHeld.release {held : List CacheLease} (h : ClonesHeld held s) (hs : Represents cfg s)
    (lease : CacheLease) : ClonesHeld (held.erase lease) (s.release lease).2 := by
  have hends := (release_spec hs lease).2
  generalize s.release lease = r at hends
  intro id e hget hephemeral
  -- the lease that is given back is not the one of a copy that is left
  have hother : ∀ {e : CacheEntry}, s.entries.get? id = some e → e.ephemeral = true →
      (lease.entryId = id → e.generation ≠ lease.generation) →
        (⟨id, e.generation, e.key, true, true⟩ : CacheLease) ∈ held.erase lease := by
    intro e hget hephemeral hne
    refine (List.mem_erase_of_ne fun heq => ?_).mpr (h id e hget hephemeral)
    subst heq
    exact hne rfl rfl
  cases hends with
  | stale missing =>
    refine hother hget hephemeral fun heq hgeneration => ?_
    subst heq
    have hzero := missing e hget hgeneration
    have hone := hs.clones _ e hget hephemeral
    omega
  | @counted e₀ s' present generation leased left entries issued =>
    dsimp only at hget
    rw [entries, Dict.get?_set] at hget
    split_ifs at hget with heq
    · obtain rfl := Option.some_inj.mp hget
      exact absurd (left.symm.trans hephemeral) (by simp)
    · exact hother hget hephemeral fun hc => absurd hc heq
  | removed present generation last ephemeral entry issued =>
    dsimp only at hget
    rw [entry] at hget
    split_ifs at hget with heq
    exact hother hget hephemeral fun hc => absurd hc heq

theorem record_keeps {p : CacheHistory} (h : Represents cfg p.1) (hclones : ClonesHeld p.2 p.1)
    (op : CacheOp) : Represents cfg (record cfg p op).1 ∧
      ClonesHeld (record cfg p op).2 (record cfg p op).1 := by
  refine ⟨perform_represents h op, ?_⟩
  obtain ⟨s, held⟩ := p
  have hput : ∀ {key : ExactTokenCacheKey} {scope : CacheScope} {payload : List UInt8}
      {now : Except PyException ℚ}, ClonesHeld held (put cfg key scope payload now s).2 := by
    intro key scope payload now
    have hends := (put_spec h key scope payload now).2
    generalize put cfg key scope payload now s = r at hends
    cases hends with
    | refused drops => exact hclones.drops drops
    | stored entered _ _ _ _ indexed =>
      exact hclones.entered entered fun hc => absurd (indexed.symm.trans hc) (by simp)
  cases op with
  | put key scope payload now => exact hput
  | acquire key requester mutable now =>
    have hends := (acquire_spec h key requester mutable now).2
    unfold record perform
    dsimp only
    generalize acquire cfg key requester mutable now s = r at hends ⊢
    cases hends with
    | @refused r s' drops none =>
      match r, none with
      | .error exc, _ => exact hclones.drops drops
      | .ok .none, _ => exact hclones.drops drops
      | .ok (some lease), none => exact absurd rfl (none lease)
    | @shared e₀ e₁ mid s' drops present indexed key_eq allowed counted entries issued _ =>
      intro id e hget hephemeral
      dsimp only at hget
      rw [entries, Dict.get?_set] at hget
      split_ifs at hget with heq
      · obtain rfl := Option.some_inj.mp hget
        rw [counted] at hephemeral
        exact absurd (indexed.symm.trans hephemeral) (by simp)
      · exact List.mem_cons_of_mem _ (hclones.drops drops id e hget hephemeral)
    | cloned entered _ _ _ _ _ mutable_eq _ _ _ _ =>
      subst mutable_eq
      have hmore : ∀ lease : CacheLease, ClonesHeld (lease :: held) s :=
        fun lease id e hget hephemeral =>
          List.mem_cons_of_mem lease (hclones id e hget hephemeral)
      exact (hmore _).entered entered fun _ => List.mem_cons_self
  | release lease =>
    have hkept := hclones.release h lease
    have hends := (release_spec h lease).2
    unfold record perform
    dsimp only
    generalize s.release lease = r at hends hkept ⊢
    cases hends with
    | stale => exact hclones
    | counted => exact hkept
    | removed => exact hkept
  | commitSession lease newKey payload scope now =>
    have hrep := (put_spec h newKey scope payload now).1
    unfold record perform
    dsimp only
    rcases commitSession_cases cfg lease newKey payload scope now s
      with ⟨exc, _, heq⟩ | ⟨_, ⟨exc, _, heq⟩ | ⟨id', _, heq⟩⟩
    · rw [heq]
      exact hclones
    · rw [heq]
      exact hput
    · rw [heq]
      exact ClonesHeld.release hput hrep lease
  | invalidate tenantId kind space =>
    exact hclones.drops (invalidate_spec h tenantId kind space).2
  | prune now => exact hclones.drops (prune_spec h now).2

theorem history_keeps (cfg : CacheConfig) (history : List CacheOp) :
    Represents cfg (history.foldl (record cfg) ({}, [])).1 ∧
      ClonesHeld (history.foldl (record cfg) ({}, [])).2 (history.foldl (record cfg) ({}, [])).1 := by
  have hrun : ∀ (history : List CacheOp) (p : CacheHistory), Represents cfg p.1 →
      ClonesHeld p.2 p.1 → Represents cfg (history.foldl (record cfg) p).1 ∧
        ClonesHeld (history.foldl (record cfg) p).2 (history.foldl (record cfg) p).1 := by
    intro history
    induction history with
    | nil => exact fun _ h hclones => ⟨h, hclones⟩
    | cons op rest ih =>
      intro p h hclones
      obtain ⟨h', hclones'⟩ := record_keeps h hclones op
      exact ih _ h' hclones'
  exact hrun history _ represents_empty fun _ _ hget => absurd hget (by simp)

/-- **The tables of the cache.**  After any history of calls, entries, index and byte
counter fit together within the bounds; every private copy is there for a lease that
is held; and the next call removes a leased entry only when it gives back the last
lease of a private copy. -/
theorem representation (cfg : CacheConfig) (history : List CacheOp) :
    Represents cfg (history.foldl (record cfg) ({}, [])).1 ∧
      ClonesHeld (history.foldl (record cfg) ({}, [])).2 (history.foldl (record cfg) ({}, [])).1 ∧
      ∀ op id e, (history.foldl (record cfg) ({}, [])).1.entries.get? id = some e →
        0 < e.refcount →
        (perform cfg (history.foldl (record cfg) ({}, [])).1 op).2.entries.get? id = none →
          e.ephemeral = true ∧ e.refcount = 1 ∧
            ∃ lease, givenBack op = some lease ∧ lease.entryId = id := by
  obtain ⟨h, hclones⟩ := history_keeps cfg history
  exact ⟨h, hclones, fun op id e hget hleased hgone => perform_removes h hget hleased hgone⟩

end SequenceStateCache

end Inference
