/-
The cleanup of the artifacts.

An attempt is a directory three levels below the root.  The cleanup looks at the attempts
that are not active, sorts them by age, and removes the expired ones; then it goes on with
the others as long as the tree is over its quota.

* `discoverAttempts`, `inspectAttempt`, `safeTreeUsage` — what it reads;
* `firstPass`, `secondPass` — what it removes;
* `cleanupWithStats` — the cleanup.

A tree has no links, and no entry of it is neither a file nor a directory.
-/
import LlamaRuntime.Python.FileTree
import LlamaRuntime.Python.Exception
import Mathlib.Algebra.Order.Ring.Rat
import Mathlib.Data.Prod.Lex
import Mathlib.Data.List.Lex

namespace Worker

abbrev ArtifactPath := List PyStr

abbrev ArtifactTree := FileTree PyStr ℚ

/-- `path.relative_to(self.root).as_posix()` -/
def relativeKey (path : ArtifactPath) : PyStr := List.intercalate (py "/") path

structure ArtifactCleanupStats where
  scannedAttempts : ℕ
  completedAttempts : ℕ
  incompleteAttempts : ℕ
  expiredCandidates : ℕ
  activeAttemptsSkipped : ℕ
  unsafeEntriesSkipped : ℕ
  scanErrors : ℕ
  deleteErrors : ℕ
  removedAttempts : ℕ
  removedCompletedAttempts : ℕ
  removedIncompleteAttempts : ℕ
  removedExpiredAttempts : ℕ
  removedForQuotaAttempts : ℕ
  bytesBefore : ℕ
  bytesAfter : ℕ
  bytesRemoved : ℕ
  quotaBytes : ℕ
  quotaSatisfied : Bool
  maxRemovals : Option ℤ
  removalLimitReached : Bool

structure AttemptInspection where
  sizeBytes : ℕ
  activityMtime : ℚ
  resultMtime : Option ℚ

structure CleanupCandidate where
  path : ArtifactPath
  relativeKey : PyStr
  modified : ℚ
  sizeBytes : ℕ
  completed : Bool
  expired : Bool

/-- What the candidates are sorted by. -/
def CleanupCandidate.key (c : CleanupCandidate) : Lex (ℚ × PyStr) := toLex (c.modified, c.relativeKey)

structure ArtifactStore where
  root : ArtifactTree
  totalQuota : ℕ
  retentionSeconds : ℕ
  active : Finset ArtifactPath := ∅

/-! ### Reading the tree -/

/-- One entry, with its path from the attempt. -/
def AttemptInspection.visit (found : AttemptInspection) (entry : ArtifactPath × ArtifactTree) :
    AttemptInspection :=
  let found := { found with activityMtime := max found.activityMtime entry.2.mtime }
  match entry.2 with
  | .dir .. => found
  | .file size mtime =>
    { found with
      sizeBytes := found.sizeBytes + size
      resultMtime := if entry.1 = [py "result.json"] then some mtime else found.resultMtime }

/-- `_inspect_attempt`, with the numbers of unsafe entries and of errors. -/
def inspectAttempt (root : ArtifactTree) (attempt : ArtifactPath) :
    Option AttemptInspection × ℕ × ℕ :=
  match root.lookup attempt with
  | none => (none, 0, 1)
  | some (.file ..) => (none, 1, 0)
  | some (.dir mtime names child) =>
    (some (FileTree.walk AttemptInspection.visit [([], .dir mtime names child)] ⟨0, mtime, none⟩), 0, 0)

/-- `_safe_tree_usage` -/
def safeTreeUsage (root : ArtifactTree) : ℕ × ℕ :=
  (FileTree.walk (fun total entry => total + entry.2.size) [([], root)] 0, 0)

/-- `_safe_child_directories` -/
def safeChildDirectories (root : ArtifactTree) (parent : ArtifactPath) : List ArtifactPath × ℕ × ℕ :=
  match root.lookup parent with
  | some (.dir mtime names child) =>
    ((FileTree.directories parent (.dir mtime names child)).map Prod.fst, 0, 0)
  | _ => ([], 0, 1)

/-- What a loop over directories has found. -/
structure Discovered where
  attempts : List ArtifactPath := []
  unsafeEntries : ℕ := 0
  errors : ℕ := 0

/-- `_discover_attempts` -/
def discoverAttempts (root : ArtifactTree) : Discovered :=
  let (days, skipped, failed) := safeChildDirectories root []
  let found := days.foldl
    (fun (found : Discovered) day =>
      let (requests, skipped, failed) := safeChildDirectories root day
      requests.foldl
        (fun (found : Discovered) request =>
          let (children, skipped, failed) := safeChildDirectories root request
          { attempts := found.attempts ++ children
            unsafeEntries := found.unsafeEntries + skipped
            errors := found.errors + failed })
        { found with
          unsafeEntries := found.unsafeEntries + skipped
          errors := found.errors + failed })
    { unsafeEntries := skipped, errors := failed }
  { found with
    attempts := found.attempts.mergeSort fun a b => relativeKey a ≤ relativeKey b }

structure CleanupScan where
  activeSkipped : ℕ := 0
  completed : ℕ := 0
  incomplete : ℕ := 0
  unsafeEntries : ℕ
  scanErrors : ℕ
  candidates : List CleanupCandidate := []

/-- The candidate of an inspected attempt. -/
def AttemptInspection.candidate (inspection : AttemptInspection) (retentionSeconds : ℕ) (now : ℚ)
    (attempt : ArtifactPath) : CleanupCandidate :=
  let modified := inspection.resultMtime.getD inspection.activityMtime
  { path := attempt
    relativeKey := relativeKey attempt
    modified := modified
    sizeBytes := inspection.sizeBytes
    completed := inspection.resultMtime.isSome
    expired := (retentionSeconds : ℚ) < now - modified }

namespace ArtifactStore

/-- One round of the loop over the attempts. -/
def scanAttempt (store : ArtifactStore) (now : ℚ) (scan : CleanupScan) (attempt : ArtifactPath) :
    CleanupScan :=
  match store.root.lookup attempt with
  | none => { scan with scanErrors := scan.scanErrors + 1 }
  | some _ =>
    if attempt ∈ store.active then { scan with activeSkipped := scan.activeSkipped + 1 }
    else
      let (inspection, skipped, errors) := inspectAttempt store.root attempt
      let scan := { scan with
        unsafeEntries := scan.unsafeEntries + skipped
        scanErrors := scan.scanErrors + errors }
      match inspection with
      | none => scan
      | some inspection =>
        { scan with
          completed := scan.completed + inspection.resultMtime.isSome.toNat
          incomplete := scan.incomplete + (!inspection.resultMtime.isSome).toNat
          candidates := scan.candidates ++
            [inspection.candidate store.retentionSeconds now attempt] }

end ArtifactStore

/-! ### Removing attempts -/

structure CleanupRun where
  root : ArtifactTree
  estimatedTotal : ℕ
  removedPaths : Finset ArtifactPath := ∅
  removedCompleted : ℕ := 0
  removedIncomplete : ℕ := 0
  removedExpired : ℕ := 0
  removedForQuota : ℕ := 0
  deleteErrors : ℕ := 0
  unsafeEntries : ℕ
  scanErrors : ℕ

/-- `shutil.rmtree`, `none` where it raises. -/
def rmtree (root : ArtifactTree) (path : ArtifactPath) : Option ArtifactTree :=
  match root.lookup path with
  | some (.dir ..) => some (root.remove path)
  | _ => none

/-- The loop of `_prune_empty_parents`, over the directories above an attempt. -/
def pruneParents : List ArtifactPath → ArtifactTree → ArtifactTree
  | [], root => root
  | parent :: parents, root =>
    match root.lookup parent with
    | some (.dir _ names _) => if names = ∅ then pruneParents parents (root.remove parent) else root
    | _ => root

/-- The directories between a path and the root, the nearest first. -/
def parents (path : ArtifactPath) : List ArtifactPath :=
  ((List.range path.length).drop 1).reverse.map path.take

/-- `_prune_empty_parents` -/
def pruneEmptyParents (root : ArtifactTree) (attempt : ArtifactPath) : ArtifactTree :=
  pruneParents (parents attempt) root

namespace CleanupRun

/-- `at_limit` -/
def atLimit (maxRemovals : Option ℤ) (s : CleanupRun) : Bool :=
  match maxRemovals with
  | none => false
  | some limit => limit ≤ s.removedPaths.card

/-- `remove` -/
def remove (maxRemovals : Option ℤ) (c : CleanupCandidate) (expired : Bool) (s : CleanupRun) :
    CleanupRun :=
  if s.atLimit maxRemovals then s
  else
    let (inspection, skipped, errors) := inspectAttempt s.root c.path
    let s := { s with
      unsafeEntries := s.unsafeEntries + skipped
      scanErrors := s.scanErrors + errors }
    match inspection with
    | none => s
    | some inspection =>
      match rmtree s.root c.path with
      | none => { s with deleteErrors := s.deleteErrors + 1 }
      | some root =>
        { s with
          root := pruneEmptyParents root c.path
          removedPaths := insert c.path s.removedPaths
          estimatedTotal := s.estimatedTotal - inspection.sizeBytes
          removedCompleted := s.removedCompleted + c.completed.toNat
          removedIncomplete := s.removedIncomplete + (!c.completed).toNat
          removedExpired := s.removedExpired + expired.toNat
          removedForQuota := s.removedForQuota + (!expired).toNat }

/-- The loop over the expired candidates. -/
def firstPass (maxRemovals : Option ℤ) : List CleanupCandidate → CleanupRun → CleanupRun
  | [], s => s
  | c :: candidates, s =>
    if c.expired then
      if s.atLimit maxRemovals then s
      else firstPass maxRemovals candidates (s.remove maxRemovals c true)
    else firstPass maxRemovals candidates s

/-- The loop that goes on while the tree is over its quota. -/
def secondPass (totalQuota : ℕ) (maxRemovals : Option ℤ) :
    List CleanupCandidate → CleanupRun → CleanupRun
  | [], s => s
  | c :: candidates, s =>
    if s.estimatedTotal ≤ totalQuota ∨ s.atLimit maxRemovals then s
    else if c.path ∈ s.removedPaths then secondPass totalQuota maxRemovals candidates s
    else secondPass totalQuota maxRemovals candidates (s.remove maxRemovals c false)

end CleanupRun

namespace ArtifactStore

/-- `cleanup_with_stats`, at the time `now`. -/
def cleanupWithStats (store : ArtifactStore) (now : ℚ) (maxRemovals : Option ℤ) :
    Except PyException (ArtifactCleanupStats × ArtifactStore) :=
  if ∃ limit ∈ maxRemovals, limit < 0 then
    .error (.builtin "ValueError" "max_removals must be a non-negative integer or None")
  else
    let (bytesBefore, usageErrors) := safeTreeUsage store.root
    let found := discoverAttempts store.root
    let scan := found.attempts.foldl (store.scanAttempt now)
      { unsafeEntries := found.unsafeEntries, scanErrors := usageErrors + found.errors }
    let candidates := scan.candidates.mergeSort fun a b => a.key ≤ b.key
    let s := CleanupRun.firstPass maxRemovals candidates
      { root := store.root
        estimatedTotal := bytesBefore
        unsafeEntries := scan.unsafeEntries
        scanErrors := scan.scanErrors }
    let s := if store.totalQuota < s.estimatedTotal then
        CleanupRun.secondPass store.totalQuota maxRemovals candidates s
      else s
    let (bytesAfter, finalUsageErrors) := safeTreeUsage s.root
    let expiredRemaining := candidates.any fun c => c.expired && c.path ∉ s.removedPaths
    .ok
      ({ scannedAttempts := found.attempts.length
         completedAttempts := scan.completed
         incompleteAttempts := scan.incomplete
         expiredCandidates := candidates.countP CleanupCandidate.expired
         activeAttemptsSkipped := scan.activeSkipped
         unsafeEntriesSkipped := s.unsafeEntries
         scanErrors := s.scanErrors + finalUsageErrors
         deleteErrors := s.deleteErrors
         removedAttempts := s.removedPaths.card
         removedCompletedAttempts := s.removedCompleted
         removedIncompleteAttempts := s.removedIncomplete
         removedExpiredAttempts := s.removedExpired
         removedForQuotaAttempts := s.removedForQuota
         bytesBefore := bytesBefore
         bytesAfter := bytesAfter
         bytesRemoved := bytesBefore - bytesAfter
         quotaBytes := store.totalQuota
         quotaSatisfied := bytesAfter ≤ store.totalQuota
         maxRemovals := maxRemovals
         removalLimitReached :=
           s.atLimit maxRemovals && (expiredRemaining || decide (store.totalQuota < bytesAfter)) },
       { store with root := s.root })

end ArtifactStore

end Worker
