/-
What the cleanup of the artifacts reads.

* `Describes` — what a candidate says of its attempt (`inspectAttempt_spec`);
* `mem_attemptsOf` — the attempts it finds;
* `scan_spec` — the candidates.
-/
import LlamaRuntime.Worker.Artifacts

namespace Worker

/-! ### Reading the tree -/

def IsDirectory (root : ArtifactTree) (path : ArtifactPath) : Prop :=
  ∃ t, root.lookup path = some t ∧ t.isDir = true

/-- An attempt is a directory three levels below the root. -/
def IsAttempt (root : ArtifactTree) (path : ArtifactPath) : Prop :=
  path.length = 3 ∧ IsDirectory root path

theorem visited_of_walk {σ : Type} (visit : σ → ArtifactPath × ArtifactTree → σ) (t : ArtifactTree)
    (acc : σ) : ∃ visited : List (ArtifactPath × ArtifactTree),
      visited.Perm (t.descendants []) ∧
        FileTree.walk visit [([], t)] acc = visited.foldl visit acc := by
  obtain ⟨visited, hperm, hwalk⟩ := FileTree.walk_perm visit [([], t)] acc
  rw [List.flatMap_cons, List.flatMap_nil, List.append_nil] at hperm
  exact ⟨visited, hperm, hwalk⟩

theorem safeTreeUsage_eq (root : ArtifactTree) : safeTreeUsage root = (root.bytes, 0) := by
  obtain ⟨visited, hperm, hwalk⟩ := visited_of_walk (fun total entry => total + entry.2.size) root 0
  unfold safeTreeUsage
  rw [hwalk, ← List.foldl_map (f := fun entry : ArtifactPath × ArtifactTree => entry.2.size)
    (g := (· + ·)), ← List.sum_eq_foldl]
  exact Prod.ext (hperm.map _).sum_eq rfl

theorem foldl_sizeBytes (l : List (ArtifactPath × ArtifactTree)) (found : AttemptInspection) :
    (l.foldl AttemptInspection.visit found).sizeBytes =
      found.sizeBytes + (l.map fun entry => entry.2.size).sum := by
  induction l generalizing found with
  | nil => rfl
  | cons entry l ih =>
    rw [List.foldl_cons, ih, List.map_cons, List.sum_cons, ← Nat.add_assoc]
    congr 1
    obtain ⟨path, t⟩ := entry
    cases t <;> rfl

/-- The activity is the greatest of the times. -/
theorem foldl_activityMtime (l : List (ArtifactPath × ArtifactTree)) (found : AttemptInspection) :
    IsGreatest {time | time = found.activityMtime ∨ ∃ entry ∈ l, entry.2.mtime = time}
      (l.foldl AttemptInspection.visit found).activityMtime := by
  induction l generalizing found with
  | nil => exact ⟨.inl rfl, fun time h => (h.resolve_right nofun).le⟩
  | cons entry l ih =>
    have hvisit : (found.visit entry).activityMtime = max found.activityMtime entry.2.mtime := by
      obtain ⟨path, t⟩ := entry
      cases t <;> rfl
    rw [List.foldl_cons]
    obtain ⟨hmem, hbound⟩ := ih (found.visit entry)
    rw [hvisit] at hmem hbound
    constructor
    · rcases hmem with h | ⟨other, hother, htime⟩
      · rcases max_choice found.activityMtime entry.2.mtime with hmax | hmax
        · exact .inl (h.trans hmax)
        · exact .inr ⟨entry, List.mem_cons_self, (h.trans hmax).symm⟩
      · exact .inr ⟨other, List.mem_cons_of_mem _ hother, htime⟩
    · rintro time (rfl | ⟨other, hother, rfl⟩)
      · exact (le_max_left _ _).trans (hbound (.inl rfl))
      · rcases List.mem_cons.mp hother with rfl | hother
        · exact (le_max_right _ _).trans (hbound (.inl rfl))
        · exact hbound (.inr ⟨other, hother, rfl⟩)

/-- The time of `result.json`, as one entry tells it. -/
def resultTime (entry : ArtifactPath × ArtifactTree) : Option ℚ :=
  match entry.2 with
  | .dir .. => none
  | .file _ mtime => if entry.1 = [py "result.json"] then some mtime else none

theorem foldl_resultMtime (l : List (ArtifactPath × ArtifactTree)) (found : AttemptInspection) :
    (l.foldl AttemptInspection.visit found).resultMtime =
      ((l.filterMap resultTime).getLast?).or found.resultMtime := by
  induction l generalizing found with
  | nil => rfl
  | cons entry l ih =>
    have hvisit : (found.visit entry).resultMtime = (resultTime entry).or found.resultMtime := by
      obtain ⟨path, t⟩ := entry
      cases t with
      | dir => rfl
      | file size mtime =>
        show (if path = [py "result.json"] then some mtime else found.resultMtime) =
          (if path = [py "result.json"] then some mtime else none).or found.resultMtime
        split_ifs <;> rfl
    rw [List.foldl_cons, ih, hvisit]
    cases hresult : resultTime entry with
    | none => rw [List.filterMap_cons_none hresult, Option.none_or]
    | some time =>
      rw [List.filterMap_cons_some hresult, List.getLast?_cons]
      cases (l.filterMap resultTime).getLast? <;> rfl

/-- What a candidate says of its attempt. -/
structure Describes (retentionSeconds : ℕ) (now : ℚ) (t : ArtifactTree) (c : CleanupCandidate) :
    Prop where
  key : c.relativeKey = relativeKey c.path
  size : c.sizeBytes = t.usage
  completed : c.completed = true ↔
    ∃ size mtime, t.lookup [py "result.json"] = some (.file size mtime)
  modified_result : ∀ size mtime, t.lookup [py "result.json"] = some (.file size mtime) →
    c.modified = mtime
  modified_activity : c.completed = false →
    IsGreatest {time | ∃ path n, t.lookup path = some n ∧ n.mtime = time} c.modified
  expired : c.expired = true ↔ (retentionSeconds : ℚ) < now - c.modified

/-- The inspection of an attempt. -/
theorem inspectAttempt_spec {root t : ArtifactTree} {attempt : ArtifactPath}
    (hlookup : root.lookup attempt = some t) (hdir : t.isDir = true) :
    ∃ inspection, inspectAttempt root attempt = (some inspection, 0, 0) ∧
      inspection.sizeBytes = t.usage ∧ ∀ (retentionSeconds : ℕ) (now : ℚ),
        Describes retentionSeconds now t (inspection.candidate retentionSeconds now attempt) := by
  cases t with
  | file => exact absurd hdir nofun
  | dir mtime names child =>
    obtain ⟨visited, hperm, hwalk⟩ := visited_of_walk AttemptInspection.visit
      (.dir mtime names child) ⟨0, mtime, none⟩
    have hinspect : inspectAttempt root attempt =
        (some (visited.foldl AttemptInspection.visit ⟨0, mtime, none⟩), 0, 0) := by
      unfold inspectAttempt
      rw [hlookup]
      dsimp only
      rw [hwalk]
    have hsize : (visited.foldl AttemptInspection.visit ⟨0, mtime, none⟩).sizeBytes =
        FileTree.usage (.dir mtime names child) := by
      rw [foldl_sizeBytes, Nat.zero_add, ← FileTree.bytes_dir]
      exact (hperm.map _).sum_eq
    have hactivity := foldl_activityMtime visited ⟨0, mtime, none⟩
    have hresult := foldl_resultMtime visited ⟨0, mtime, none⟩
    rw [Option.or_none] at hresult
    generalize visited.foldl AttemptInspection.visit ⟨0, mtime, none⟩ = found
      at hinspect hsize hactivity hresult
    have hvisited : ∀ path n, (path, n) ∈ visited ↔
        path ≠ [] ∧ FileTree.lookup path (.dir mtime names child) = some n := by
      intro path n
      rw [hperm.mem_iff, FileTree.mem_descendants]
      constructor
      · rintro ⟨r, hne, rfl, h⟩
        exact ⟨hne, h⟩
      · rintro ⟨hne, h⟩
        exact ⟨path, hne, rfl, h⟩
    -- there is one `result.json` at most
    have htime : ∀ time, found.resultMtime = some time ↔
        ∃ size, FileTree.lookup [py "result.json"] (.dir mtime names child) =
          some (.file size time) := by
      have hentry : ∀ time, time ∈ visited.filterMap resultTime ↔
          ∃ size, FileTree.lookup [py "result.json"] (.dir mtime names child) =
            some (.file size time) := by
        intro time
        rw [List.mem_filterMap]
        constructor
        · rintro ⟨⟨path, n⟩, hmem, h⟩
          unfold resultTime at h
          cases n with
          | dir => exact absurd h nofun
          | file size mtime =>
            dsimp only at h
            split_ifs at h with hpath
            obtain rfl := Option.some_inj.mp h
            subst hpath
            exact ⟨size, ((hvisited _ _).mp hmem).2⟩
        · rintro ⟨size, h⟩
          refine ⟨_, (hvisited _ _).mpr ⟨List.cons_ne_nil _ _, h⟩, ?_⟩
          show (if [py "result.json"] = [py "result.json"] then some time else none) = some time
          exact if_pos rfl
      intro time
      rw [hresult, ← hentry]
      constructor
      · exact List.mem_of_getLast?
      · intro h
        cases hlast : (visited.filterMap resultTime).getLast? with
        | none =>
          rw [List.getLast?_eq_none_iff] at hlast
          rw [hlast] at h
          exact absurd h List.not_mem_nil
        | some last =>
          obtain ⟨size, h⟩ := (hentry time).mp h
          obtain ⟨size', h'⟩ := (hentry last).mp (List.mem_of_getLast? hlast)
          have hsame := FileTree.file.inj (Option.some_inj.mp (h.symm.trans h'))
          rw [hsame.2]
    refine ⟨found, hinspect, hsize, fun retentionSeconds now => ⟨rfl, hsize, ?_, ?_, ?_, ?_⟩⟩
    · show found.resultMtime.isSome = true ↔ _
      rw [Option.isSome_iff_exists]
      constructor
      · rintro ⟨time, h⟩
        obtain ⟨size, h⟩ := (htime time).mp h
        exact ⟨size, time, h⟩
      · rintro ⟨size, time, h⟩
        exact ⟨time, (htime time).mpr ⟨size, h⟩⟩
    · intro size time h
      show found.resultMtime.getD found.activityMtime = time
      rw [(htime time).mpr ⟨size, h⟩]
      rfl
    · intro hnot
      have hnone : found.resultMtime = none := Option.isNone_iff_eq_none.mp (by
        have hnot : found.resultMtime.isSome = false := hnot
        simpa using hnot)
      show IsGreatest _ (found.resultMtime.getD found.activityMtime)
      rw [hnone, Option.getD_none]
      convert hactivity using 1
      ext time
      constructor
      · rintro ⟨path, n, h, rfl⟩
        cases path with
        | nil =>
          obtain rfl := Option.some_inj.mp h
          exact .inl rfl
        | cons a path => exact .inr ⟨_, (hvisited _ _).mpr ⟨by simp, h⟩, rfl⟩
      · rintro (rfl | ⟨⟨path, n⟩, hmem, rfl⟩)
        · exact ⟨[], _, rfl, rfl⟩
        · exact ⟨path, n, ((hvisited _ _).mp hmem).2, rfl⟩
    · show decide ((retentionSeconds : ℚ) < _) = true ↔ _
      rw [decide_eq_true_iff]
      rfl

/-! ### Finding the attempts -/

theorem mem_safeChildDirectories {root : ArtifactTree} {parent path : ArtifactPath} :
    path ∈ (safeChildDirectories root parent).1 ↔
      ∃ name, path = parent ++ [name] ∧ IsDirectory root path := by
  unfold safeChildDirectories
  constructor
  · intro h
    cases hlookup : root.lookup parent with
    | none =>
      rw [hlookup] at h
      exact absurd h List.not_mem_nil
    | some t =>
      rw [hlookup] at h
      cases t with
      | file => exact absurd h List.not_mem_nil
      | dir mtime names child =>
        obtain ⟨⟨path', n⟩, hmem, rfl⟩ := List.mem_map.mp h
        obtain ⟨hmem, hdir⟩ := List.mem_filter.mp hmem
        obtain ⟨⟨name, n'⟩, hscan, heq⟩ := List.mem_map.mp hmem
        obtain ⟨rfl, rfl⟩ := Prod.mk.inj heq
        obtain ⟨a, ha, heq⟩ := List.mem_map.mp hscan
        obtain ⟨rfl, rfl⟩ := Prod.mk.inj heq
        refine ⟨a, rfl, child a, ?_, hdir⟩
        show root.lookup (parent ++ [a]) = some (child a)
        have hone : FileTree.lookup [a] (.dir mtime names child) = some (child a) :=
          FileTree.lookup_cons_dir.mpr ⟨(Finset.mem_sort _).mp ha, rfl⟩
        rw [FileTree.lookup_append, hlookup]
        exact hone
  · rintro ⟨name, rfl, t, hlookup, hdir⟩
    obtain ⟨m, hparent, hchild⟩ := FileTree.lookup_of_append hlookup
    rw [hparent]
    cases m with
    | file => exact absurd hchild nofun
    | dir mtime names child =>
      obtain ⟨hname, hchild⟩ := FileTree.lookup_cons_dir.mp hchild
      obtain rfl := Option.some_inj.mp hchild
      refine List.mem_map.mpr ⟨(parent ++ [name], child name), List.mem_filter.mpr ⟨?_, hdir⟩, rfl⟩
      refine List.mem_map.mpr ⟨(name, child name), ?_, rfl⟩
      exact List.mem_map.mpr ⟨name, (Finset.mem_sort _).mpr hname, rfl⟩

theorem nodup_safeChildDirectories (root : ArtifactTree) (parent : ArtifactPath) :
    (safeChildDirectories root parent).1.Nodup := by
  unfold safeChildDirectories
  cases root.lookup parent with
  | none => exact List.nodup_nil
  | some t =>
    cases t with
    | file => exact List.nodup_nil
    | dir mtime names child =>
      have hpaths : (FileTree.entries parent (.dir mtime names child)).map Prod.fst =
          names.sort.map fun a => parent ++ [a] := by
        simp [FileTree.entries, FileTree.scandir, Function.comp_def]
      have hnodup : ((FileTree.entries parent (.dir mtime names child)).map Prod.fst).Nodup := by
        rw [hpaths]
        refine (Finset.sort_nodup names (· ≤ ·)).map fun a b h => ?_
        simpa using h
      exact hnodup.sublist (List.filter_sublist.map _)

theorem safeChildDirectories_errors {root : ArtifactTree} {parent : ArtifactPath}
    (h : IsDirectory root parent) : (safeChildDirectories root parent).2 = (0, 0) := by
  obtain ⟨t, hlookup, hdir⟩ := h
  unfold safeChildDirectories
  rw [hlookup]
  cases t with
  | file => exact absurd hdir nofun
  | dir => rfl

/-- A loop over directories that adds the attempts it finds below each. -/
theorem foldl_found {f : Discovered → ArtifactPath → Discovered}
    (g : ArtifactPath → List ArtifactPath) (l : List ArtifactPath) (found : Discovered)
    (h : ∀ found, ∀ path ∈ l, (f found path).attempts = found.attempts ++ g path ∧
      (f found path).unsafeEntries = found.unsafeEntries ∧ (f found path).errors = found.errors) :
    (l.foldl f found).attempts = found.attempts ++ l.flatMap g ∧
      (l.foldl f found).unsafeEntries = found.unsafeEntries ∧
      (l.foldl f found).errors = found.errors := by
  induction l generalizing found with
  | nil => exact ⟨(List.append_nil _).symm, rfl, rfl⟩
  | cons path l ih =>
    obtain ⟨hattempts, hunsafe, herrors⟩ := h found path List.mem_cons_self
    obtain ⟨hattempts', hunsafe', herrors'⟩ :=
      ih (f found path) fun found path hmem => h found path (List.mem_cons_of_mem _ hmem)
    rw [List.foldl_cons, List.flatMap_cons]
    refine ⟨?_, hunsafe'.trans hunsafe, herrors'.trans herrors⟩
    rw [hattempts', hattempts, List.append_assoc]

/-- The attempts in the order they are found. -/
def attemptsOf (root : ArtifactTree) : List ArtifactPath :=
  (safeChildDirectories root []).1.flatMap fun day =>
    (safeChildDirectories root day).1.flatMap fun request => (safeChildDirectories root request).1

theorem isDirectory_of_mem {root : ArtifactTree} {parent path : ArtifactPath}
    (h : path ∈ (safeChildDirectories root parent).1) : IsDirectory root path :=
  (mem_safeChildDirectories.mp h).choose_spec.2

theorem discoverAttempts_eq (root : ArtifactTree) :
    (discoverAttempts root).attempts.Perm (attemptsOf root) ∧
      (discoverAttempts root).unsafeEntries = (safeChildDirectories root []).2.1 ∧
      (discoverAttempts root).errors = (safeChildDirectories root []).2.2 := by
  unfold discoverAttempts
  dsimp only
  have hrequest : ∀ (found : Discovered) (day : ArtifactPath), ∀ request ∈
      (safeChildDirectories root day).1, _ := fun found day request hmem =>
    safeChildDirectories_errors (isDirectory_of_mem hmem)
  obtain ⟨hattempts, hunsafe, herrors⟩ := foldl_found
    (f := fun (found : Discovered) day =>
      (safeChildDirectories root day).1.foldl
        (fun (found : Discovered) request =>
          { attempts := found.attempts ++ (safeChildDirectories root request).1
            unsafeEntries := found.unsafeEntries + (safeChildDirectories root request).2.1
            errors := found.errors + (safeChildDirectories root request).2.2 })
        { found with
          unsafeEntries := found.unsafeEntries + (safeChildDirectories root day).2.1
          errors := found.errors + (safeChildDirectories root day).2.2 })
    (fun day => (safeChildDirectories root day).1.flatMap
      fun request => (safeChildDirectories root request).1)
    (safeChildDirectories root []).1
    { unsafeEntries := (safeChildDirectories root []).2.1
      errors := (safeChildDirectories root []).2.2 }
    (by
      intro found day hday
      have hnone := safeChildDirectories_errors (isDirectory_of_mem hday)
      obtain ⟨hattempts, hunsafe, herrors⟩ := foldl_found
        (f := fun (found : Discovered) request =>
          { attempts := found.attempts ++ (safeChildDirectories root request).1
            unsafeEntries := found.unsafeEntries + (safeChildDirectories root request).2.1
            errors := found.errors + (safeChildDirectories root request).2.2 })
        (fun request => (safeChildDirectories root request).1)
        (safeChildDirectories root day).1
        { found with
          unsafeEntries := found.unsafeEntries + (safeChildDirectories root day).2.1
          errors := found.errors + (safeChildDirectories root day).2.2 }
        (by
          intro found request hmem
          have hnone := safeChildDirectories_errors (isDirectory_of_mem hmem)
          rw [hnone]
          exact ⟨rfl, rfl, rfl⟩)
      rw [hnone] at hattempts hunsafe herrors ⊢
      exact ⟨hattempts, hunsafe, herrors⟩)
  refine ⟨(List.mergeSort_perm _ _).trans (.of_eq ?_), hunsafe, herrors⟩
  exact hattempts.trans (List.nil_append _)

theorem isDirectory_of_append {root t : ArtifactTree} {path rest : ArtifactPath} (hne : rest ≠ [])
    (h : root.lookup (path ++ rest) = some t) : IsDirectory root path := by
  obtain ⟨m, hlookup, hrest⟩ := FileTree.lookup_of_append h
  refine ⟨m, hlookup, ?_⟩
  cases m with
  | file =>
    cases rest with
    | nil => exact absurd rfl hne
    | cons => exact absurd hrest nofun
  | dir => rfl

theorem mem_attemptsOf {root : ArtifactTree} {path : ArtifactPath} :
    path ∈ attemptsOf root ↔ IsAttempt root path := by
  unfold attemptsOf
  constructor
  · intro h
    obtain ⟨day, hday, h⟩ := List.mem_flatMap.mp h
    obtain ⟨request, hrequest, h⟩ := List.mem_flatMap.mp h
    obtain ⟨d, rfl, _⟩ := mem_safeChildDirectories.mp hday
    obtain ⟨r, rfl, _⟩ := mem_safeChildDirectories.mp hrequest
    obtain ⟨a, rfl, hdirectory⟩ := mem_safeChildDirectories.mp h
    exact ⟨rfl, hdirectory⟩
  · rintro ⟨hlength, hdirectory⟩
    obtain ⟨d, r, a, rfl⟩ := List.length_eq_three.mp hlength
    have hattempt := hdirectory
    obtain ⟨t, hlookup, _⟩ := hdirectory
    have hday : IsDirectory root [d] := @isDirectory_of_append root _ [d] [r, a] (by simp) hlookup
    have hrequest : IsDirectory root [d, r] := @isDirectory_of_append root _ [d, r] [a] (by simp) hlookup
    refine List.mem_flatMap.mpr ⟨[d], mem_safeChildDirectories.mpr ⟨d, rfl, hday⟩, ?_⟩
    refine List.mem_flatMap.mpr ⟨[d, r], mem_safeChildDirectories.mpr ⟨r, rfl, hrequest⟩, ?_⟩
    exact mem_safeChildDirectories.mpr ⟨a, rfl, hattempt⟩

/-- What is found below different directories is different. -/
theorem nodup_flatMap_below {parents : List ArtifactPath} (hparents : parents.Nodup)
    (f : ArtifactPath → List ArtifactPath) (k : ℕ) (hf : ∀ parent, (f parent).Nodup)
    (hbelow : ∀ parent, ∀ path ∈ f parent, ∃ rest, path = parent ++ rest ∧ rest.length = k) :
    (parents.flatMap f).Nodup := by
  refine List.nodup_flatMap.mpr ⟨fun parent _ => hf parent, ?_⟩
  refine hparents.pairwise_of_forall_ne fun a _ b _ hne => ?_
  intro path ha hb
  obtain ⟨rest, rfl, hlength⟩ := hbelow a path ha
  obtain ⟨rest', heq, hlength'⟩ := hbelow b _ hb
  exact hne (List.append_inj_left' heq (hlength.trans hlength'.symm))

theorem nodup_attemptsOf (root : ArtifactTree) : (attemptsOf root).Nodup := by
  have hchildren : ∀ parent, ∀ path ∈ (safeChildDirectories root parent).1,
      ∃ rest, path = parent ++ rest ∧ rest.length = 1 := by
    intro parent path hmem
    obtain ⟨name, rfl, _⟩ := mem_safeChildDirectories.mp hmem
    exact ⟨[name], rfl, rfl⟩
  refine nodup_flatMap_below (nodup_safeChildDirectories root []) _ 2 (fun day => ?_) fun day path h => ?_
  · exact nodup_flatMap_below (nodup_safeChildDirectories root day) _ 1
      (nodup_safeChildDirectories root) hchildren
  · obtain ⟨request, hrequest, h⟩ := List.mem_flatMap.mp h
    obtain ⟨r, rfl, _⟩ := mem_safeChildDirectories.mp hrequest
    obtain ⟨a, rfl, _⟩ := mem_safeChildDirectories.mp h
    exact ⟨[r, a], by simp, rfl⟩

/-! ### The candidates -/

/-- What the loop over the attempts adds. -/
structure Scanned (store : ArtifactStore) (now : ℚ) (attempts : List ArtifactPath)
    (scan scan' : CleanupScan) (added : List CleanupCandidate) : Prop where
  candidates : scan'.candidates = scan.candidates ++ added
  paths : added.map CleanupCandidate.path = attempts.filter fun path => path ∉ store.active
  described : ∀ c ∈ added, ∃ t, store.root.lookup c.path = some t ∧ t.isDir = true ∧
    Describes store.retentionSeconds now t c
  activeSkipped : scan'.activeSkipped =
    scan.activeSkipped + attempts.countP fun path => path ∈ store.active
  completed : scan'.completed = scan.completed + added.countP CleanupCandidate.completed
  incomplete : scan'.incomplete = scan.incomplete + added.countP fun c => !c.completed
  unsafeEntries : scan'.unsafeEntries = scan.unsafeEntries
  scanErrors : scan'.scanErrors = scan.scanErrors

theorem scan_spec (store : ArtifactStore) (now : ℚ) (attempts : List ArtifactPath)
    (scan : CleanupScan) (hattempts : ∀ path ∈ attempts, IsDirectory store.root path) :
    ∃ added, Scanned store now attempts scan (attempts.foldl (store.scanAttempt now) scan) added := by
  induction attempts generalizing scan with
  | nil => exact ⟨[], (List.append_nil _).symm, rfl, nofun, rfl, rfl, rfl, rfl, rfl⟩
  | cons path attempts ih =>
    have hrest : ∀ path ∈ attempts, IsDirectory store.root path :=
      fun path hmem => hattempts path (List.mem_cons_of_mem _ hmem)
    obtain ⟨t, hlookup, hdir⟩ := hattempts path List.mem_cons_self
    by_cases hactive : path ∈ store.active
    · have hstep : store.scanAttempt now scan path =
          { scan with activeSkipped := scan.activeSkipped + 1 } := by
        unfold ArtifactStore.scanAttempt
        rw [hlookup]
        exact if_pos hactive
      obtain ⟨added, h⟩ := ih { scan with activeSkipped := scan.activeSkipped + 1 } hrest
      rw [List.foldl_cons, hstep]
      refine ⟨added, h.candidates, ?_, h.described, ?_, h.completed, h.incomplete, h.unsafeEntries,
        h.scanErrors⟩
      · rw [h.paths, List.filter_cons_of_neg (by simpa using hactive)]
      · rw [h.activeSkipped, List.countP_cons_of_pos (by simpa using hactive)]
        exact Nat.add_right_comm _ 1 _
    · obtain ⟨inspection, hinspect, _, hdescribes⟩ := inspectAttempt_spec hlookup hdir
      set c := inspection.candidate store.retentionSeconds now path with hc
      have hstep : store.scanAttempt now scan path = { scan with
          completed := scan.completed + c.completed.toNat
          incomplete := scan.incomplete + (!c.completed).toNat
          candidates := scan.candidates ++ [c] } := by
        unfold ArtifactStore.scanAttempt
        rw [hlookup]
        dsimp only
        rw [if_neg hactive, hinspect]
        rfl
      obtain ⟨added, h⟩ := ih { scan with
        completed := scan.completed + c.completed.toNat
        incomplete := scan.incomplete + (!c.completed).toNat
        candidates := scan.candidates ++ [c] } hrest
      rw [List.foldl_cons, hstep]
      refine ⟨c :: added, ?_, ?_, ?_, ?_, ?_, ?_, h.unsafeEntries, h.scanErrors⟩
      · rw [h.candidates, List.append_assoc]
        rfl
      · rw [List.map_cons, h.paths, List.filter_cons_of_pos (by simpa using hactive)]
        rfl
      · intro c' hc'
        rcases List.mem_cons.mp hc' with rfl | hc'
        · exact ⟨t, hlookup, hdir, hdescribes store.retentionSeconds now⟩
        · exact h.described c' hc'
      · rw [h.activeSkipped, List.countP_cons_of_neg (by simpa using hactive)]
      · rw [h.completed, List.countP_cons, add_comm (List.countP _ _), ← add_assoc]
        cases c.completed <;> rfl
      · rw [h.incomplete, List.countP_cons, add_comm (List.countP _ _), ← add_assoc]
        cases c.completed <;> rfl

end Worker
