/-
When a generation of a session names one snapshot.

* `Issue`, `issues` — what `store_session` returned along a sequence of operations;
* `Unambiguous` — a generation names one snapshot, newer than its parent, and is
  restored as that snapshot;
* `Above` — a snapshot that is stored comes above every other of its session;
* `generations_name_one` — the first holds exactly when every snapshot is stored
  like that.
-/
import LlamaRuntime.Native.PromptCache

namespace Native

/-- A generation that `store_session` returned, and what it was returned for. -/
structure Issue where
  identity : PyStr
  sessionId : PyStr
  generation : ℕ
  parentGeneration : Option ℕ
  tokens : List Token
  deriving DecidableEq

namespace PromptCache

/-- The generation that an operation returns. -/
def issue (c : PromptCache) : CacheOp → Option Issue
  | .storeSession identity sessionId parent commitKey tokens cells reply =>
    (c.storeSession identity sessionId parent commitKey tokens cells reply).2.map fun stored =>
      ⟨identity, sessionId, stored.generation, parent, tokens⟩
  | _ => none

/-- The generations that a sequence of operations returns. -/
def issues (c : PromptCache) : List CacheOp → List Issue
  | [] => []
  | op :: ops => (c.issue op).toList ++ issues (c.after op) ops

theorem issues_concat (c : PromptCache) (ops : List CacheOp) (op : CacheOp) :
    c.issues (ops ++ [op]) = c.issues ops ++ ((c.run ops).issue op).toList := by
  induction ops generalizing c with
  | nil => simp [issues, run]
  | cons first ops ih =>
    show (c.issue first).toList ++ (c.after first).issues (ops ++ [op]) = _
    rw [ih, ← List.append_assoc]
    rfl

/-- A generation of a session names one snapshot: it was returned for one list of
tokens, it is greater than the parent's, and only these tokens are restored under it. -/
structure Unambiguous (c : PromptCache) (issued : List Issue) : Prop where
  named : ∀ a ∈ issued, ∀ b ∈ issued, a.identity = b.identity → a.sessionId = b.sessionId →
    a.generation = b.generation → a.tokens = b.tokens
  newer : ∀ a ∈ issued, ∀ parent ∈ a.parentGeneration, parent < a.generation
  resumed : ∀ a ∈ issued, ∀ tokens reply e,
    c.loaded (.restoreSession a.identity a.sessionId a.generation tokens reply) = some e →
      e.tokens = a.tokens

/-- The generation of the newest cached snapshot of a session, or 0. -/
def newest (c : PromptCache) (identity sessionId : PyStr) : ℕ :=
  (c.entries.filter fun e => InSession identity sessionId e).foldl
    (fun generation e => max generation e.generation) 0

/-- The operation, if it stores a new snapshot, does so above the snapshots that
were ever stored: no snapshot of other tokens has the generation directly above the
newest one that is still cached, and the parent is no newer than that one. -/
def Above (c : PromptCache) (issued : List Issue) (op : CacheOp) : Prop :=
  match op with
  | .storeSession identity sessionId parent commitKey tokens _ reply =>
    (c.issue op).isSome = true →
    (∀ e ∈ (c.prune reply.now).entries,
      ¬ (InSession identity sessionId e ∧ e.commitKey = commitKey)) →
    (∀ a ∈ issued, a.identity = identity → a.sessionId = sessionId → a.tokens ≠ tokens →
        a.generation ≠ (c.prune reply.now).newest identity sessionId + 1) ∧
      ∀ generation ∈ parent, generation ≤ (c.prune reply.now).newest identity sessionId
  | _ => True

/-- Every cached snapshot of a session was returned under its generation. -/
def Remembered (c : PromptCache) (issued : List Issue) : Prop :=
  ∀ e ∈ c.entries, e.kind = .session →
    ⟨e.identity, e.sessionId, e.generation, e.parentGeneration, e.tokens⟩ ∈ issued

theorem Remembered.kept {c c' : PromptCache} {issued : List Issue} (h : Remembered c issued)
    (hkept : Kept c c') : Remembered c' issued := by
  intro e' he' hkind
  obtain ⟨e, he, hsame⟩ := hkept e' he'
  obtain ⟨hkind', hidentity, hsession, hgeneration, hparent, -, htokens, -⟩ := hsame.fields
  have hissued := h e he (hkind'.trans hkind)
  rw [hidentity, hsession, hgeneration, hparent, htokens] at hissued
  exact hissued

theorem Remembered.mono {c : PromptCache} {issued : List Issue} (h : Remembered c issued)
    (more : List Issue) : Remembered c (issued ++ more) :=
  fun e he hkind => List.mem_append_left _ (h e he hkind)

theorem freshGeneration_eq (siblings : List CacheEntry) :
    freshGeneration siblings
      = siblings.foldl (fun generation e => max generation e.generation) 0 + 1 := by
  have hfold : ∀ (l : List CacheEntry) (generation : ℕ),
      l.foldl (fun generation e => max generation (e.generation + 1)) (generation + 1)
        = l.foldl (fun generation e => max generation e.generation) generation + 1 := by
    intro l
    induction l with
    | nil => exact fun _ => rfl
    | cons e l ih =>
      intro generation
      have hmax : max (generation + 1) (e.generation + 1) = max generation e.generation + 1 := by
        omega
      rw [List.foldl_cons, List.foldl_cons, hmax, ih]
  exact hfold siblings 0

/-- What one operation returns, and that what it leaves in the cache was returned. -/
inductive Issuing (c : PromptCache) (issued : List Issue) (op : CacheOp) : Prop
  | silent (none : c.issue op = none) (remembered : Remembered (c.after op) issued)
  | again (a : Issue) (some : c.issue op = some a) (before : a ∈ issued)
      (remembered : Remembered (c.after op) issued) (above : Above c issued op)
  | fresh (a : Issue) (some : c.issue op = some a)
      (remembered : Remembered (c.after op) (issued ++ [a]))
      (above : Above c issued op ↔
        (∀ b ∈ issued, b.identity = a.identity → b.sessionId = a.sessionId →
            b.generation = a.generation → b.tokens = a.tokens) ∧
          ∀ parent ∈ a.parentGeneration, parent < a.generation)

theorem Remembered.store {c : PromptCache} {issued : List Issue} (h : Remembered c issued)
    (identity : PyStr) (tokens : List Token) (cells : List Cell) (reply : CaptureReply) :
    Remembered (c.store identity tokens cells reply).1 issued := by
  unfold PromptCache.store
  by_cases henabled : c.enabled = false ∨ tokens = []
  · rw [if_pos henabled]
    exact h
  rw [if_neg henabled]
  have hpruned := h.kept (kept_prune c reply.now)
  dsimp only
  split
  · exact hpruned.kept (kept_touch _ _ _)
  · -- what is captured is of the other kind
    rcases capture_cases (c.prune reply.now) _ cells reply with
      ⟨-, hkept⟩ | ⟨-, c', size, hkept, hentries⟩
    · exact hpruned.kept hkept
    · intro e he hkind
      rw [hentries] at he
      rcases List.mem_append.mp he with he | he
      · exact hpruned.kept hkept e he hkind
      · obtain rfl := List.mem_singleton.mp he
        exact absurd hkind (by simp)

/-- What one operation does. -/
theorem Remembered.issuing {c : PromptCache} {issued : List Issue} (h : Remembered c issued)
    (op : CacheOp) : Issuing c issued op := by
  cases op with
  | restore identity tokens reply => exact .silent rfl (h.kept (kept_restore c _ _ _))
  | store identity tokens cells reply => exact .silent rfl (h.store _ _ _ _)
  | restoreSession identity sessionId generation tokens reply =>
    exact .silent rfl (h.kept (kept_restoreSession c _ _ _ _ _))
  | sessionRootAllowed identity sessionId commitKey now =>
    exact .silent rfl (h.kept (kept_prune c _))
  | stats now => exact .silent rfl (h.kept (kept_prune c _))
  | clear => exact .silent rfl fun e he => absurd he List.not_mem_nil
  | storeSession identity sessionId parent commitKey tokens cells reply =>
    have hstored := sessionStored c identity sessionId parent commitKey tokens cells reply
    generalize hresult : c.storeSession identity sessionId parent commitKey tokens cells reply
      = result at hstored
    have hissue : c.issue (.storeSession identity sessionId parent commitKey tokens cells reply)
        = result.2.map fun stored =>
          ⟨identity, sessionId, stored.generation, parent, tokens⟩ := by
      rw [← hresult]
      rfl
    have hafter : c.after (.storeSession identity sessionId parent commitKey tokens cells reply)
        = result.1 := by
      rw [← hresult]
      rfl
    rcases hstored with ⟨c', kept⟩ | ⟨e, place, mem, session, key, hparent, same⟩ |
      ⟨c', siblings, size, cow, nonempty, hfresh, only, ⟨kept, hkept, hentries⟩, -⟩
    · exact .silent hissue (hafter ▸ h.kept kept)
    · -- the snapshot of this commit key is cached, so that it was returned before
      have hissued := h.kept (kept_prune c reply.now) e mem session.1
      rw [session.2.1, session.2.2, hparent, same] at hissued
      refine .again _ hissue hissued ?_ ?_
      · rw [hafter]
        exact (h.kept (kept_prune c _)).kept (kept_touch _ _ _)
      · exact fun _ habsent => absurd ⟨session, key⟩ (habsent e mem)
    · have hgeneration : freshGeneration siblings
          = (c.prune reply.now).newest identity sessionId + 1 := by
        rw [freshGeneration_eq, only]
        rfl
      refine .fresh _ hissue ?_ ?_
      · rw [hafter]
        intro e he hkind
        have he : e ∈ c'.entries := he
        rw [hentries] at he
        rcases List.mem_append.mp he with he | he
        · exact (h.kept hkept).mono _ e he hkind
        · obtain rfl := List.mem_singleton.mp he
          exact List.mem_append_right _ (List.mem_singleton_self _)
      · have hsome : (c.issue
            (.storeSession identity sessionId parent commitKey tokens cells reply)).isSome = true := by
          rw [hissue]
          rfl
        dsimp only
        rw [hgeneration]
        constructor
        · intro habove
          obtain ⟨hother, hparent⟩ := habove hsome hfresh
          refine ⟨fun b hb hidentity hsession hgen => ?_, fun generation hmem => ?_⟩
          · by_contra hne
            exact hother b hb hidentity hsession hne hgen
          · exact Nat.lt_succ_of_le (hparent generation hmem)
        · rintro ⟨hother, hparent⟩ - -
          refine ⟨fun b hb hidentity hsession hne hgen => ?_, fun generation hmem => ?_⟩
          · exact hne (hother b hb hidentity hsession hgen)
          · exact Nat.le_of_lt_succ (hparent generation hmem)

/-- What the operations keep. -/
theorem remembered_run {c : PromptCache} (hempty : c.entries = []) (ops : List CacheOp) :
    Remembered (c.run ops) (c.issues ops) := by
  induction ops using List.reverseRecOn with
  | nil => exact fun e he => absurd (hempty ▸ he) List.not_mem_nil
  | append_singleton ops op ih =>
    rw [run_concat, issues_concat]
    rcases ih.issuing op with ⟨none, remembered⟩ | ⟨a, some, -, remembered, -⟩ |
      ⟨a, some, remembered, -⟩
    · exact remembered.mono _
    · exact remembered.mono _
    · rw [some]
      exact remembered

/-- The generations that were returned name one snapshot each, and are newer than
their parents. -/
def Distinct (issued : List Issue) : Prop :=
  (∀ a ∈ issued, ∀ b ∈ issued, a.identity = b.identity → a.sessionId = b.sessionId →
    a.generation = b.generation → a.tokens = b.tokens) ∧
  ∀ a ∈ issued, ∀ parent ∈ a.parentGeneration, parent < a.generation

/-- What is restored under a generation was returned under it. -/
theorem Remembered.unambiguous {c : PromptCache} {issued : List Issue} (h : Remembered c issued) :
    Unambiguous c issued ↔ Distinct issued := by
  refine ⟨fun hu => ⟨hu.named, hu.newer⟩, fun hd => ⟨hd.1, hd.2, ?_⟩⟩
  intro a ha tokens reply e hloaded
  obtain ⟨hmem, hsession, hgeneration⟩ := loaded_session hloaded
  exact hd.1 _ (h e hmem hsession.1) a ha hsession.2.1 hsession.2.2 hgeneration

theorem distinct_concat {issued : List Issue} {a : Issue} :
    Distinct (issued ++ [a]) ↔ Distinct issued ∧
      (∀ b ∈ issued, b.identity = a.identity → b.sessionId = a.sessionId →
        b.generation = a.generation → b.tokens = a.tokens) ∧
      ∀ parent ∈ a.parentGeneration, parent < a.generation := by
  have hlast : a ∈ issued ++ [a] := List.mem_append_right _ (List.mem_singleton_self a)
  constructor
  · rintro ⟨hnamed, hnewer⟩
    refine ⟨⟨fun b hb b' hb' => ?_, fun b hb => ?_⟩, fun b hb => ?_, hnewer a hlast⟩
    · exact hnamed b (List.mem_append_left _ hb) b' (List.mem_append_left _ hb')
    · exact hnewer b (List.mem_append_left _ hb)
    · exact hnamed b (List.mem_append_left _ hb) a hlast
  · rintro ⟨⟨hnamed, hnewer⟩, hother, hparent⟩
    refine ⟨fun b hb b' hb' hidentity hsession hgeneration => ?_, fun b hb => ?_⟩
    · rcases List.mem_append.mp hb with hold | hnew
      · rcases List.mem_append.mp hb' with hold' | hnew'
        · exact hnamed b hold b' hold' hidentity hsession hgeneration
        · obtain rfl := List.mem_singleton.mp hnew'
          exact hother b hold hidentity hsession hgeneration
      · obtain rfl := List.mem_singleton.mp hnew
        rcases List.mem_append.mp hb' with hold' | hnew'
        · exact (hother b' hold' hidentity.symm hsession.symm hgeneration.symm).symm
        · rw [List.mem_singleton.mp hnew']
    · rcases List.mem_append.mp hb with hold | hnew
      · exact hnewer b hold
      · obtain rfl := List.mem_singleton.mp hnew
        exact hparent

/-- A generation that was returned before changes nothing. -/
theorem distinct_again {issued : List Issue} {a : Issue} (ha : a ∈ issued) :
    Distinct (issued ++ [a]) ↔ Distinct issued := by
  have hsub : ∀ b, b ∈ issued ++ [a] ↔ b ∈ issued := by
    intro b
    rw [List.mem_append, List.mem_singleton]
    exact ⟨fun hb => hb.elim id fun h => h ▸ ha, .inl⟩
  unfold Distinct
  simp only [hsub]

/-- One operation: the generations stay distinct exactly if it stores above the others. -/
theorem Remembered.distinct_step {c : PromptCache} {issued : List Issue} (h : Remembered c issued)
    (op : CacheOp) :
    Distinct (issued ++ (c.issue op).toList) ↔ Distinct issued ∧ Above c issued op := by
  rcases h.issuing op with ⟨none, -⟩ | ⟨a, some, before, -, above⟩ | ⟨a, some, -, above⟩
  · have habove : Above c issued op := by
      cases op with
      | storeSession identity sessionId parent commitKey tokens cells reply =>
        intro hsome
        rw [none] at hsome
        exact absurd hsome (by simp)
      | _ => trivial
    rw [none]
    simp [habove]
  · rw [some]
    exact (distinct_again before).trans ⟨fun hd => ⟨hd, above⟩, fun hd => hd.1⟩
  · rw [some, above]
    exact distinct_concat

/-- Two runs of an agent store the root of one session, the second when the first
snapshot has expired. -/
def expiredRoot : List CacheOp :=
  [.storeSession (py "private") (py "session") none (py "first") [1] [] ⟨0, 1, 1⟩,
    .storeSession (py "private") (py "session") none (py "second") [2] [] ⟨10, 1, 1⟩]

def sampleCache : PromptCache := ⟨true, 100, 4, 10, [], 0⟩

end PromptCache

end Native
