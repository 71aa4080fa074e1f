/-
What the cleanup of the artifacts removes.

`Removed` says what is left of the tree when some candidates have been removed; a removal
keeps it, and each of the two passes removes a part of the candidates in their order.

* `firstPass_spec`, `secondPass_spec` — the two passes;
* `cleanup_with_stats` — the cleanup.
-/
import LlamaRuntime.Worker.ArtifactScan

namespace Worker

/-! ### One removal -/

/-- What is left of the tree when the candidates have been removed. -/
structure Removed (s₀ : CleanupRun) (removed : List CleanupCandidate) (s : CleanupRun) : Prop where
  paths : s.removedPaths = (removed.map CleanupCandidate.path).toFinset
  nodup : (removed.map CleanupCandidate.path).Nodup
  bytes : s.root.bytes + (removed.map CleanupCandidate.sizeBytes).sum = s₀.root.bytes
  estimated : s.estimatedTotal = s.root.bytes
  attempts : ∀ path : ArtifactPath, path.length = 3 → s.root.lookup path =
    if path ∈ removed.map CleanupCandidate.path then none else s₀.root.lookup path
  files : ∀ (path : ArtifactPath) size mtime, s.root.lookup path = some (.file size mtime) ↔
    s₀.root.lookup path = some (.file size mtime) ∧ ∀ c ∈ removed, ¬ c.path <+: path
  completed : s.removedCompleted = removed.countP CleanupCandidate.completed
  incomplete : s.removedIncomplete = removed.countP fun c => !c.completed
  expired : s.removedExpired = removed.countP CleanupCandidate.expired
  forQuota : s.removedForQuota = removed.countP fun c => !c.expired
  deleteErrors : s.deleteErrors = 0
  unsafeEntries : s.unsafeEntries = s₀.unsafeEntries
  scanErrors : s.scanErrors = s₀.scanErrors

/-- A tree without some empty directories that are not attempts. -/
structure Pruned (root root' : ArtifactTree) : Prop where
  bytes : root'.bytes = root.bytes
  attempts : ∀ path : ArtifactPath, path.length = 3 → root'.lookup path = root.lookup path
  files : ∀ (path : ArtifactPath) size mtime,
    root'.lookup path = some (.file size mtime) ↔ root.lookup path = some (.file size mtime)

theorem Pruned.refl (root : ArtifactTree) : Pruned root root :=
  ⟨rfl, fun _ _ => rfl, fun _ _ _ => .rfl⟩

/-- Nothing is below an empty directory. -/
theorem lookup_below_empty {root : ArtifactTree} {parent path : ArtifactPath} {mtime : ℚ}
    {child : PyStr → ArtifactTree} (hlookup : root.lookup parent = some (.dir mtime ∅ child))
    (hpre : parent <+: path) (hne : parent ≠ path) : root.lookup path = none := by
  obtain ⟨rest, rfl⟩ := hpre
  rw [FileTree.lookup_append, hlookup]
  cases rest with
  | nil => exact absurd (List.append_nil parent).symm hne
  | cons a rest =>
    cases hrest : FileTree.lookup (a :: rest) (.dir mtime ∅ child) with
    | none => exact hrest
    | some n =>
      obtain ⟨hmem, _⟩ := FileTree.lookup_cons_dir.mp hrest
      exact absurd hmem (Finset.notMem_empty a)

theorem pruned_rmdir {root : ArtifactTree} {parent : ArtifactPath} {mtime : ℚ}
    {child : PyStr → ArtifactTree} (hlookup : root.lookup parent = some (.dir mtime ∅ child))
    (hne : parent ≠ []) (hlength : parent.length < 3) : Pruned root (root.remove parent) := by
  refine ⟨?_, fun path hpath => ?_, fun path size mtime' => ?_⟩
  · have hbytes := FileTree.bytes_remove hne hlookup
    have hzero : FileTree.usage (.dir mtime ∅ child) = 0 := Finset.sum_empty
    omega
  · rw [FileTree.lookup_remove root hne (by omega)]
    split_ifs with hpre
    · refine (lookup_below_empty hlookup hpre ?_).symm
      rintro rfl
      omega
    · rfl
  · rw [FileTree.lookup_remove_file root hne, and_iff_left_iff_imp]
    intro hfile hpre
    by_cases heq : parent = path
    · subst heq
      exact absurd (hlookup.symm.trans hfile) (by simp)
    · exact absurd ((lookup_below_empty hlookup hpre heq).symm.trans hfile) (by simp)

theorem pruned_parents (parents : List ArtifactPath) (root : ArtifactTree)
    (hparents : ∀ parent ∈ parents, parent ≠ [] ∧ parent.length < 3) :
    Pruned root (pruneParents parents root) := by
  induction parents generalizing root with
  | nil => exact .refl root
  | cons parent parents ih =>
    obtain ⟨hne, hlength⟩ := hparents parent List.mem_cons_self
    unfold pruneParents
    cases hlookup : root.lookup parent with
    | none => exact .refl root
    | some t =>
      cases t with
      | file => exact .refl root
      | dir mtime names child =>
        dsimp only
        split_ifs with hempty
        · subst hempty
          have hrmdir := pruned_rmdir hlookup hne hlength
          have hrest := ih (root.remove parent) fun other hmem =>
            hparents other (List.mem_cons_of_mem _ hmem)
          refine ⟨hrest.bytes.trans hrmdir.bytes, fun path hpath => ?_, fun path size mtime => ?_⟩
          · exact (hrest.attempts path hpath).trans (hrmdir.attempts path hpath)
          · exact (hrest.files path size mtime).trans (hrmdir.files path size mtime)
        · exact .refl root

theorem pruned_emptyParents (root : ArtifactTree) {attempt : ArtifactPath}
    (hlength : attempt.length = 3) : Pruned root (pruneEmptyParents root attempt) := by
  obtain ⟨d, r, a, rfl⟩ := List.length_eq_three.mp hlength
  refine pruned_parents [[d, r], [d]] root fun parent hmem => ?_
  simp only [List.mem_cons, List.not_mem_nil, or_false] at hmem
  rcases hmem with rfl | rfl <;> simp

/-- The number of removals may be limited. -/
def Within (maxRemovals : Option ℤ) (n : ℕ) : Prop := ∀ limit ∈ maxRemovals, (n : ℤ) ≤ limit

theorem Removed.card {s₀ s : CleanupRun} {removed : List CleanupCandidate}
    (h : Removed s₀ removed s) : s.removedPaths.card = removed.length := by
  rw [h.paths, List.toFinset_card_of_nodup h.nodup, List.length_map]

theorem Removed.atLimit {s₀ s : CleanupRun} {removed : List CleanupCandidate}
    (h : Removed s₀ removed s) (maxRemovals : Option ℤ) :
    s.atLimit maxRemovals = true ↔ ∃ limit ∈ maxRemovals, limit ≤ (removed.length : ℤ) := by
  unfold CleanupRun.atLimit
  rw [h.card]
  cases maxRemovals <;> simp

/-- A candidate of the tree. -/
structure Removable (root : ArtifactTree) (c : CleanupCandidate) : Prop where
  length : c.path.length = 3
  present : ∃ t, root.lookup c.path = some t ∧ t.isDir = true ∧ c.sizeBytes = t.usage

/-- A candidate is removed, and nothing else. -/
theorem Removed.remove {s₀ s : CleanupRun} {removed : List CleanupCandidate}
    (h : Removed s₀ removed s) {c : CleanupCandidate} (hc : Removable s₀.root c)
    (hnew : c.path ∉ removed.map CleanupCandidate.path) {maxRemovals : Option ℤ}
    (hlimit : s.atLimit maxRemovals = false) :
    Removed s₀ (removed ++ [c]) (s.remove maxRemovals c c.expired) := by
  obtain ⟨hlength, t, hlookup, hdir, hsize⟩ := hc
  have hne : c.path ≠ [] := fun hnil => absurd hlength (by simp [hnil])
  have hpresent : s.root.lookup c.path = some t := by
    rw [h.attempts c.path hlength, if_neg hnew, hlookup]
  obtain ⟨inspection, hinspect, husage, _⟩ := inspectAttempt_spec hpresent hdir
  have hrmtree : rmtree s.root c.path = some (s.root.remove c.path) := by
    unfold rmtree
    rw [hpresent]
    cases t with
    | file => exact absurd hdir nofun
    | dir => rfl
  have hstep : s.remove maxRemovals c c.expired = { s with
      root := pruneEmptyParents (s.root.remove c.path) c.path
      removedPaths := insert c.path s.removedPaths
      estimatedTotal := s.estimatedTotal - inspection.sizeBytes
      removedCompleted := s.removedCompleted + c.completed.toNat
      removedIncomplete := s.removedIncomplete + (!c.completed).toNat
      removedExpired := s.removedExpired + c.expired.toNat
      removedForQuota := s.removedForQuota + (!c.expired).toNat } := by
    unfold CleanupRun.remove
    rw [if_neg (by simp [hlimit]), hinspect]
    dsimp only
    rw [hrmtree]
    rfl
  have hpruned := pruned_emptyParents (s.root.remove c.path) hlength
  have hbytes := FileTree.bytes_remove hne hpresent
  rw [hstep]
  refine ⟨?_, ?_, ?_, ?_, fun path hpath => ?_, fun path size mtime => ?_, ?_, ?_, ?_, ?_,
    h.deleteErrors, h.unsafeEntries, h.scanErrors⟩
  · show insert c.path s.removedPaths = _
    rw [h.paths, List.map_append, List.toFinset_append, Finset.union_comm]
    rfl
  · rw [List.map_append]
    exact h.nodup.append (List.nodup_singleton _) (by simpa using hnew)
  · show (pruneEmptyParents (s.root.remove c.path) c.path).bytes + _ = _
    have htotal := h.bytes
    rw [hpruned.bytes, List.map_append, List.sum_append, List.map_singleton, List.sum_singleton, hsize]
    omega
  · show s.estimatedTotal - inspection.sizeBytes = _
    have hestimated := h.estimated
    rw [hpruned.bytes]
    omega
  · show (pruneEmptyParents (s.root.remove c.path) c.path).lookup path = _
    rw [hpruned.attempts path hpath, FileTree.lookup_remove s.root hne (by omega),
      h.attempts path hpath]
    have hiff : c.path <+: path ↔ path = c.path :=
      ⟨fun hpre => (hpre.eq_of_length (by omega)).symm, fun heq => heq ▸ List.prefix_rfl⟩
    simp only [List.map_append, List.map_singleton, List.mem_append, List.mem_singleton, hiff]
    by_cases heq : path = c.path
    · rw [if_pos heq, if_pos (.inr heq)]
    · simp only [heq, if_false, or_false]
  · show (pruneEmptyParents (s.root.remove c.path) c.path).lookup path = _ ↔ _
    rw [hpruned.files, FileTree.lookup_remove_file s.root hne, h.files]
    simp only [List.mem_append, List.mem_singleton, or_imp, forall_and, forall_eq, and_assoc]
  · show s.removedCompleted + c.completed.toNat = _
    rw [h.completed, List.countP_append, List.countP_singleton]
    cases c.completed <;> rfl
  · show s.removedIncomplete + (!c.completed).toNat = _
    rw [h.incomplete, List.countP_append, List.countP_singleton]
    cases c.completed <;> rfl
  · show s.removedExpired + c.expired.toNat = _
    rw [h.expired, List.countP_append, List.countP_singleton]
    cases c.expired <;> rfl
  · show s.removedForQuota + (!c.expired).toNat = _
    rw [h.forQuota, List.countP_append, List.countP_singleton]
    cases c.expired <;> rfl

/-! ### The passes -/

def totalSize (cs : List CleanupCandidate) : ℕ := (cs.map CleanupCandidate.sizeBytes).sum

/-- As many candidates have been removed as may be. -/
def LimitReached (maxRemovals : Option ℤ) (n : ℕ) : Prop := ∃ limit ∈ maxRemovals, limit ≤ (n : ℤ)

theorem within_succ {maxRemovals : Option ℤ} {n : ℕ} (h : ¬ LimitReached maxRemovals n) :
    Within maxRemovals (n + 1) := by
  intro limit hlimit
  have hlt : ¬ limit ≤ (n : ℤ) := fun hle => h ⟨limit, hlimit, hle⟩
  omega

variable {s₀ : CleanupRun} {maxRemovals : Option ℤ}

/-- The first pass removes the expired candidates, or stops at the limit. -/
theorem firstPass_spec (cs : List CleanupCandidate) {s : CleanupRun} {removed : List CleanupCandidate}
    (h : Removed s₀ removed s) (hwithin : Within maxRemovals removed.length)
    (hcs : ∀ c ∈ cs, Removable s₀.root c)
    (hnodup : ((removed ++ cs).map CleanupCandidate.path).Nodup) :
    ∃ taken, taken <+: cs.filter CleanupCandidate.expired ∧
      Removed s₀ (removed ++ taken) (CleanupRun.firstPass maxRemovals cs s) ∧
      Within maxRemovals (removed ++ taken).length ∧
      (taken = cs.filter CleanupCandidate.expired ∨
        LimitReached maxRemovals (removed ++ taken).length) := by
  induction cs generalizing s removed with
  | nil =>
    refine ⟨[], List.nil_prefix, ?_, ?_, .inl rfl⟩
    · rw [List.append_nil]
      exact h
    · rw [List.append_nil]
      exact hwithin
  | cons c cs ih =>
    have hrest : ∀ c ∈ cs, Removable s₀.root c := fun c hmem => hcs c (List.mem_cons_of_mem _ hmem)
    unfold CleanupRun.firstPass
    by_cases hexpired : c.expired = true
    · rw [if_pos hexpired, List.filter_cons_of_pos hexpired]
      by_cases hlimit : s.atLimit maxRemovals = true
      · rw [if_pos hlimit]
        refine ⟨[], List.nil_prefix, ?_, ?_, .inr ?_⟩
        · rw [List.append_nil]
          exact h
        · rw [List.append_nil]
          exact hwithin
        · rw [List.append_nil]
          exact (h.atLimit maxRemovals).mp hlimit
      · rw [if_neg hlimit]
        have hnew : c.path ∉ removed.map CleanupCandidate.path := by
          rw [List.map_append, List.map_cons] at hnodup
          exact fun hmem => List.disjoint_of_nodup_append hnodup hmem List.mem_cons_self
        have hstep := h.remove (hcs c List.mem_cons_self) hnew (by simpa using hlimit)
        rw [hexpired] at hstep
        have hroom : Within maxRemovals (removed ++ [c]).length := by
          rw [List.length_append]
          exact within_succ fun hc => hlimit ((h.atLimit maxRemovals).mpr hc)
        have hsame : removed ++ c :: cs = removed ++ [c] ++ cs := by simp
        obtain ⟨taken, hpre, htaken, hwithin', hend⟩ := ih hstep hroom hrest (hsame ▸ hnodup)
        refine ⟨c :: taken, List.cons_prefix_cons.mpr ⟨rfl, hpre⟩, ?_, ?_, ?_⟩
        · rw [List.append_cons]
          exact htaken
        · rw [List.append_cons]
          exact hwithin'
        · rw [List.append_cons]
          exact hend.imp_left (congrArg (c :: ·))
    · rw [if_neg hexpired, List.filter_cons_of_neg hexpired]
      have hsub : (removed ++ cs).Sublist (removed ++ c :: cs) :=
        (List.Sublist.refl removed).append (List.sublist_cons_self c cs)
      exact ih h hwithin hrest (hnodup.sublist (hsub.map _))

/-- The second pass goes on with the other candidates as long as the tree is over its quota. -/
theorem secondPass_spec (totalQuota : ℕ) (cs : List CleanupCandidate) {s : CleanupRun}
    {removed : List CleanupCandidate} (h : Removed s₀ removed s)
    (hwithin : Within maxRemovals removed.length) (hcs : ∀ c ∈ cs, Removable s₀.root c)
    (hnodup : (cs.map CleanupCandidate.path).Nodup)
    (hremoved : LimitReached maxRemovals removed.length ∨
      ∀ c ∈ cs, c.path ∈ removed.map CleanupCandidate.path ↔ c.expired = true) :
    ∃ taken, taken <+: (cs.filter fun c => !c.expired) ∧
      Removed s₀ (removed ++ taken) (CleanupRun.secondPass totalQuota maxRemovals cs s) ∧
      Within maxRemovals (removed ++ taken).length ∧
      (∀ k < taken.length, totalQuota + totalSize (taken.take k) < s.root.bytes) ∧
      (taken = (cs.filter fun c => !c.expired) ∨
        (CleanupRun.secondPass totalQuota maxRemovals cs s).root.bytes ≤ totalQuota ∨
        LimitReached maxRemovals (removed ++ taken).length) := by
  have hnothing : Removed s₀ (removed ++ []) s ∧ Within maxRemovals (removed ++ []).length := by
    rw [List.append_nil]
    exact ⟨h, hwithin⟩
  induction cs generalizing s removed with
  | nil => exact ⟨[], List.nil_prefix, hnothing.1, hnothing.2, nofun, .inl rfl⟩
  | cons c cs ih =>
    have hrest : ∀ c ∈ cs, Removable s₀.root c := fun c hmem => hcs c (List.mem_cons_of_mem _ hmem)
    rw [List.map_cons] at hnodup
    obtain ⟨hfresh, hnodup⟩ := List.nodup_cons.mp hnodup
    unfold CleanupRun.secondPass
    by_cases hstop : s.estimatedTotal ≤ totalQuota ∨ s.atLimit maxRemovals = true
    · rw [if_pos hstop]
      refine ⟨[], List.nil_prefix, hnothing.1, hnothing.2, nofun, .inr ?_⟩
      rcases hstop with hquota | hlimit
      · exact .inl (h.estimated ▸ hquota)
      · rw [List.append_nil]
        exact .inr ((h.atLimit maxRemovals).mp hlimit)
    rw [if_neg hstop]
    obtain ⟨habove, hlimit⟩ := not_or.mp hstop
    have hfree : ¬ LimitReached maxRemovals removed.length :=
      fun hc => hlimit ((h.atLimit maxRemovals).mpr hc)
    have hremoved := hremoved.resolve_left hfree
    have hmem : c.path ∈ s.removedPaths ↔ c.path ∈ removed.map CleanupCandidate.path := by
      rw [h.paths, List.mem_toFinset]
    by_cases hexpired : c.expired = true
    · rw [if_pos (hmem.mpr ((hremoved c List.mem_cons_self).mpr hexpired)),
        List.filter_cons_of_neg (by simp [hexpired])]
      exact ih h hwithin hrest hnodup (.inr fun c hc => hremoved c (List.mem_cons_of_mem _ hc)) hnothing
    · have hnew : c.path ∉ removed.map CleanupCandidate.path :=
        fun hc => hexpired ((hremoved c List.mem_cons_self).mp hc)
      rw [if_neg fun hc => hnew (hmem.mp hc), List.filter_cons_of_pos (by simp [hexpired])]
      have hstep := h.remove (hcs c List.mem_cons_self) hnew (by simpa using hlimit)
      rw [Bool.eq_false_iff.mpr hexpired] at hstep
      have hroom : Within maxRemovals (removed ++ [c]).length := by
        rw [List.length_append]
        exact within_succ hfree
      have hnext : ∀ c' ∈ cs, c'.path ∈ (removed ++ [c]).map CleanupCandidate.path ↔
          c'.expired = true := by
        intro c' hc'
        rw [List.map_append, List.mem_append, hremoved c' (List.mem_cons_of_mem _ hc')]
        refine or_iff_left fun hc => hfresh ?_
        rw [← List.mem_singleton.mp hc]
        exact List.mem_map_of_mem hc'
      obtain ⟨taken, hpre, htaken, hwithin', hover, hend⟩ := ih hstep hroom hrest hnodup (.inr hnext) (by
        rw [List.append_nil]
        exact ⟨hstep, hroom⟩)
      -- what the removal has freed
      have hfreed : (s.remove maxRemovals c false).root.bytes + c.sizeBytes = s.root.bytes := by
        have hbefore := h.bytes
        have hafter := hstep.bytes
        rw [List.map_append, List.sum_append, List.map_singleton, List.sum_singleton] at hafter
        omega
      refine ⟨c :: taken, List.cons_prefix_cons.mpr ⟨rfl, hpre⟩, ?_, ?_, ?_, ?_⟩
      · rw [List.append_cons]
        exact htaken
      · rw [List.append_cons]
        exact hwithin'
      · intro k hk
        cases k with
        | zero =>
          have hestimated := h.estimated
          show totalQuota + 0 < s.root.bytes
          omega
        | succ k =>
          have hless := hover k (Nat.lt_of_succ_lt_succ hk)
          have hsize : totalSize ((c :: taken).take (k + 1)) =
              c.sizeBytes + totalSize (taken.take k) := by
            rw [List.take_succ_cons]
            exact List.sum_cons
          omega
      · rw [List.append_cons]
        exact hend.imp_left (congrArg (c :: ·))

/-! ### The cleanup -/

/-- The candidates are the inactive attempts, the oldest first. -/
structure Listed (store : ArtifactStore) (now : ℚ) (candidates : List CleanupCandidate) : Prop where
  inactive : ∀ path, path ∈ candidates.map CleanupCandidate.path ↔
    IsAttempt store.root path ∧ path ∉ store.active
  nodup : (candidates.map CleanupCandidate.path).Nodup
  oldest_first : candidates.Pairwise fun a b => a.key ≤ b.key
  described : ∀ c ∈ candidates, ∃ t, store.root.lookup c.path = some t ∧ t.isDir = true ∧
    Describes store.retentionSeconds now t c

/-- The expired candidates are removed, then others, both the oldest first. -/
structure Chosen (totalQuota bytes : ℕ) (maxRemovals : Option ℤ)
    (candidates expired others : List CleanupCandidate) : Prop where
  expired_oldest : expired <+: candidates.filter CleanupCandidate.expired
  others_oldest : others <+: candidates.filter fun c => !c.expired
  within : Within maxRemovals (expired ++ others).length
  expired_first : expired = candidates.filter CleanupCandidate.expired ∨
    LimitReached maxRemovals expired.length ∧ others = []
  only_above : ∀ k < others.length,
    totalQuota + (totalSize expired + totalSize (others.take k)) < bytes
  enough : others = (candidates.filter fun c => !c.expired) ∨
    bytes ≤ totalQuota + totalSize (expired ++ others) ∨
    LimitReached maxRemovals (expired ++ others).length

/-- What is removed is gone, and everything else is there. -/
structure Left (store : ArtifactStore) (removed : List CleanupCandidate) (store' : ArtifactStore) :
    Prop where
  attempts : ∀ path : ArtifactPath, path.length = 3 → store'.root.lookup path =
    if path ∈ removed.map CleanupCandidate.path then none else store.root.lookup path
  files : ∀ (path : ArtifactPath) size mtime, store'.root.lookup path = some (.file size mtime) ↔
    store.root.lookup path = some (.file size mtime) ∧ ∀ c ∈ removed, ¬ c.path <+: path
  bytes : store'.root.bytes + totalSize removed = store.root.bytes
  settings : store' = { store with root := store'.root }

structure Counted (store : ArtifactStore) (candidates removed : List CleanupCandidate)
    (stats : ArtifactCleanupStats) (store' : ArtifactStore) : Prop where
  scanned : stats.scannedAttempts = candidates.length + stats.activeAttemptsSkipped
  completed : stats.completedAttempts = candidates.countP CleanupCandidate.completed
  incomplete : stats.incompleteAttempts = candidates.countP fun c => !c.completed
  expired : stats.expiredCandidates = candidates.countP CleanupCandidate.expired
  deleteErrors : stats.deleteErrors = 0
  removedAttempts : stats.removedAttempts = removed.length
  removedCompleted : stats.removedCompletedAttempts = removed.countP CleanupCandidate.completed
  removedIncomplete : stats.removedIncompleteAttempts = removed.countP fun c => !c.completed
  removedExpired : stats.removedExpiredAttempts = removed.countP CleanupCandidate.expired
  removedForQuota : stats.removedForQuotaAttempts = removed.countP fun c => !c.expired
  bytesBefore : stats.bytesBefore = store.root.bytes
  bytesAfter : stats.bytesAfter = store'.root.bytes
  bytesRemoved : stats.bytesRemoved = totalSize removed
  quotaSatisfied : stats.quotaSatisfied = true ↔ store'.root.bytes ≤ store.totalQuota
  removalLimitReached : stats.removalLimitReached = true ↔
    LimitReached stats.maxRemovals removed.length ∧
      ((∃ c ∈ candidates, c.expired = true ∧ c ∉ removed) ∨ store.totalQuota < store'.root.bytes)

theorem Listed.removable {store : ArtifactStore} {now : ℚ} {candidates : List CleanupCandidate}
    (h : Listed store now candidates) : ∀ c ∈ candidates, Removable store.root c := by
  intro c hc
  obtain ⟨t, hlookup, hdir, hdescribes⟩ := h.described c hc
  exact ⟨((h.inactive c.path).mp (List.mem_map_of_mem hc)).1.1, t, hlookup, hdir, hdescribes.size⟩

/-- The attempts that are left are those that have not been removed. -/
theorem Left.isAttempt {store store' : ArtifactStore} {removed : List CleanupCandidate}
    (h : Left store removed store') {path : ArtifactPath} : IsAttempt store'.root path ↔
      IsAttempt store.root path ∧ path ∉ removed.map CleanupCandidate.path := by
  unfold IsAttempt IsDirectory
  constructor
  · rintro ⟨hlength, t, hlookup, hdir⟩
    rw [h.attempts path hlength] at hlookup
    split_ifs at hlookup with hmem
    exact ⟨⟨hlength, t, hlookup, hdir⟩, hmem⟩
  · rintro ⟨⟨hlength, t, hlookup, hdir⟩, hnot⟩
    refine ⟨hlength, t, ?_, hdir⟩
    rw [h.attempts path hlength, if_neg hnot]
    exact hlookup

/-- The candidates the loop over the attempts has found. -/
theorem listed_spec (store : ArtifactStore) (now : ℚ) (unsafeEntries scanErrors : ℕ) :
    ∃ scan, (discoverAttempts store.root).attempts.foldl (store.scanAttempt now)
        { unsafeEntries := unsafeEntries, scanErrors := scanErrors } = scan ∧
      Listed store now (scan.candidates.mergeSort fun a b => a.key ≤ b.key) ∧
      (discoverAttempts store.root).attempts.length = scan.candidates.length + scan.activeSkipped ∧
      scan.completed = scan.candidates.countP CleanupCandidate.completed ∧
      scan.incomplete = scan.candidates.countP fun c => !c.completed := by
  have hperm := (discoverAttempts_eq store.root).1
  have hattempts : ∀ path ∈ (discoverAttempts store.root).attempts, IsDirectory store.root path :=
    fun path hmem => (mem_attemptsOf.mp (hperm.mem_iff.mp hmem)).2
  obtain ⟨added, h⟩ := scan_spec store now _
    { unsafeEntries := unsafeEntries, scanErrors := scanErrors } hattempts
  refine ⟨_, rfl, ?_, ?_, ?_, ?_⟩
  · have hcandidates := h.candidates
    rw [List.nil_append] at hcandidates
    rw [hcandidates]
    have hsorted := List.mergeSort_perm added fun a b => decide (a.key ≤ b.key)
    have hpaths := hsorted.map CleanupCandidate.path
    refine ⟨fun path => ?_, ?_, ?_, fun c hc => h.described c (hsorted.mem_iff.mp hc)⟩
    · rw [hpaths.mem_iff, h.paths, List.mem_filter, hperm.mem_iff, mem_attemptsOf]
      simp
    · rw [hpaths.nodup_iff, h.paths]
      exact (hperm.nodup_iff.mpr (nodup_attemptsOf store.root)).filter _
    · refine (List.pairwise_mergeSort (fun a b c hab hbc => ?_) (fun a b => ?_) added).imp
        fun hle => of_decide_eq_true hle
      · exact decide_eq_true ((of_decide_eq_true hab).trans (of_decide_eq_true hbc))
      · simpa using le_total a.key b.key
  · have hcount := congrArg List.length h.paths
    rw [List.length_map, ← List.countP_eq_length_filter] at hcount
    rw [h.candidates, h.activeSkipped, List.nil_append, Nat.zero_add, hcount]
    rw [List.length_eq_countP_add_countP (fun path => decide (path ∈ store.active)), Nat.add_comm]
    congr 1
    exact List.countP_congr fun path _ => by simp
  · rw [h.candidates, h.completed, List.nil_append]
    exact Nat.zero_add _
  · rw [h.candidates, h.incomplete, List.nil_append]
    exact Nat.zero_add _

/-- The choice of the two passes. -/
theorem chosen_spec {candidates expired others : List CleanupCandidate} {s : CleanupRun}
    {totalQuota : ℕ} (hremoved : Removed s₀ (expired ++ others) s)
    (hexpired : expired <+: candidates.filter CleanupCandidate.expired)
    (hothers : others <+: candidates.filter fun c => !c.expired)
    (hwithin : Within maxRemovals (expired ++ others).length)
    (hfirst : expired = candidates.filter CleanupCandidate.expired ∨
      LimitReached maxRemovals expired.length)
    (habove : ∀ k < others.length,
      totalQuota + (totalSize expired + totalSize (others.take k)) < s₀.root.bytes)
    (henough : others = (candidates.filter fun c => !c.expired) ∨ s.root.bytes ≤ totalQuota ∨
      LimitReached maxRemovals (expired ++ others).length) :
    Chosen totalQuota s₀.root.bytes maxRemovals candidates expired others := by
  refine ⟨hexpired, hothers, hwithin, ?_, habove, ?_⟩
  · refine hfirst.imp_right fun hlimit => ⟨hlimit, ?_⟩
    obtain ⟨limit, hlimit, hle⟩ := hlimit
    have hless := hwithin limit hlimit
    rw [List.length_append] at hless
    exact List.eq_nil_of_length_eq_zero (by omega)
  · refine henough.imp_right fun h => h.imp_left fun hquota => ?_
    have hbytes : s.root.bytes + totalSize (expired ++ others) = s₀.root.bytes := hremoved.bytes
    omega

/-- The passes choose what is removed. -/
theorem passes_spec (totalQuota : ℕ) {candidates : List CleanupCandidate}
    (hstart : Removed s₀ [] s₀) (hlimit : ∀ limit ∈ maxRemovals, 0 ≤ limit)
    (hcs : ∀ c ∈ candidates, Removable s₀.root c)
    (hnodup : (candidates.map CleanupCandidate.path).Nodup) :
    ∃ expired others s, s = (if totalQuota <
          (CleanupRun.firstPass maxRemovals candidates s₀).estimatedTotal then
        CleanupRun.secondPass totalQuota maxRemovals candidates
          (CleanupRun.firstPass maxRemovals candidates s₀)
      else CleanupRun.firstPass maxRemovals candidates s₀) ∧
      Removed s₀ (expired ++ others) s ∧
      Chosen totalQuota s₀.root.bytes maxRemovals candidates expired others := by
  have hnone : Within maxRemovals ([] : List CleanupCandidate).length := fun limit h => hlimit limit h
  obtain ⟨expired, hpre, hfirst, hwithin, hend⟩ := firstPass_spec candidates hstart hnone hcs hnodup
  rw [List.nil_append] at hfirst hwithin hend
  generalize CleanupRun.firstPass maxRemovals candidates s₀ = s at hfirst ⊢
  have hbytes : s.root.bytes + totalSize expired = s₀.root.bytes := hfirst.bytes
  split_ifs with hquota
  · have hmem : LimitReached maxRemovals expired.length ∨
        ∀ c ∈ candidates, c.path ∈ expired.map CleanupCandidate.path ↔ c.expired = true := by
      refine hend.symm.imp_right fun hall c hc => ⟨fun hpath => ?_, fun h => ?_⟩
      · obtain ⟨c', hc', hsame⟩ := List.mem_map.mp hpath
        obtain ⟨hmem, h⟩ := List.mem_filter.mp (hall ▸ hc')
        rw [← List.inj_on_of_nodup_map hnodup hmem hc hsame]
        exact h
      · rw [hall]
        exact List.mem_map_of_mem (List.mem_filter.mpr ⟨hc, h⟩)
    obtain ⟨others, hothers, hsecond, hwithin', hover, hstop⟩ :=
      secondPass_spec totalQuota candidates hfirst hwithin hcs hnodup hmem
    refine ⟨expired, others, _, rfl, hsecond, ?_⟩
    refine chosen_spec hsecond hpre hothers hwithin' hend (fun k hk => ?_) hstop
    have hless := hover k hk
    omega
  · refine ⟨expired, [], s, rfl, ?_, ?_⟩
    · rw [List.append_nil]
      exact hfirst
    · have hestimated := hfirst.estimated
      refine chosen_spec (s := s) (by rw [List.append_nil]; exact hfirst) hpre List.nil_prefix
        (by rw [List.append_nil]; exact hwithin) hend nofun (.inr (.inl ?_))
      omega

theorem Chosen.subset {totalQuota bytes : ℕ} {candidates expired others : List CleanupCandidate}
    (h : Chosen totalQuota bytes maxRemovals candidates expired others) :
    expired ++ others ⊆ candidates := by
  refine List.append_subset.mpr ⟨fun c hc => ?_, fun c hc => ?_⟩
  · exact (List.mem_filter.mp (h.expired_oldest.subset hc)).1
  · exact (List.mem_filter.mp (h.others_oldest.subset hc)).1

/-- No active attempt is removed. -/
theorem Left.active {store store' : ArtifactStore} {now : ℚ}
    {candidates expired others : List CleanupCandidate} (hlisted : Listed store now candidates)
    (hchosen : Chosen store.totalQuota store.root.bytes maxRemovals candidates expired others)
    (h : Left store (expired ++ others) store') {path : ArtifactPath} (hactive : path ∈ store.active)
    (hattempt : IsAttempt store.root path) :
    store'.root.lookup path = store.root.lookup path := by
  refine (h.attempts path hattempt.1).trans (if_neg fun hmem => ?_)
  -- a removed attempt is a candidate
  obtain ⟨c, hc, rfl⟩ := List.mem_map.mp hmem
  exact ((hlisted.inactive c.path).mp (List.mem_map_of_mem (hchosen.subset hc))).2 hactive

/-- Unless the limit has stopped the cleanup, nothing is left for it to remove. -/
theorem Left.complete {store store' : ArtifactStore} {now : ℚ}
    {candidates expired others : List CleanupCandidate} (hlisted : Listed store now candidates)
    (hchosen : Chosen store.totalQuota store.root.bytes maxRemovals candidates expired others)
    (h : Left store (expired ++ others) store')
    (hfree : ¬ (LimitReached maxRemovals (expired ++ others).length ∧
      ((∃ c ∈ candidates, c.expired = true ∧ c ∉ expired ++ others) ∨
        store.totalQuota < store'.root.bytes))) :
    (∀ c ∈ candidates, c.expired = true → ¬ IsAttempt store'.root c.path) ∧
      (store'.root.bytes ≤ store.totalQuota ∨
        ∀ path, IsAttempt store'.root path → path ∈ store.active) := by
  have hexpired : ∀ c ∈ candidates, c.expired = true → c ∈ expired ++ others := by
    intro c hc hexpired
    by_contra hnot
    rcases hchosen.expired_first with hall | ⟨hlimit, hnone⟩
    · refine hnot (List.mem_append_left _ ?_)
      rw [hall]
      exact List.mem_filter.mpr ⟨hc, hexpired⟩
    · refine hfree ⟨?_, .inl ⟨c, hc, hexpired, hnot⟩⟩
      rw [hnone, List.append_nil]
      exact hlimit
  refine ⟨fun c hc hold => ?_, ?_⟩
  · rw [h.isAttempt]
    exact fun hattempt => hattempt.2 (List.mem_map_of_mem (hexpired c hc hold))
  by_cases hquota : store'.root.bytes ≤ store.totalQuota
  · exact .inl hquota
  refine .inr fun path hattempt => by_contra fun hinactive => ?_
  obtain ⟨hbefore, hkept⟩ := h.isAttempt.mp hattempt
  obtain ⟨c, hc, rfl⟩ := List.mem_map.mp ((hlisted.inactive path).mpr ⟨hbefore, hinactive⟩)
  have hbytes := h.bytes
  have hyoung : ¬ c.expired = true := fun hold => hkept (List.mem_map_of_mem (hexpired c hc hold))
  rcases hchosen.enough with hall | hless | hlimit
  · refine hkept (List.mem_map_of_mem (List.mem_append_right _ ?_))
    rw [hall]
    exact List.mem_filter.mpr ⟨hc, by simp [hyoung]⟩
  · omega
  · exact hfree ⟨hlimit, .inr (not_le.mp hquota)⟩

end Worker
