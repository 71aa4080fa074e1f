/-
What the prompt cache holds, and what it finds.

* `Accounted` — the bytes in use are those of the entries, both limits hold, and no
  prompt has two entries;
* `accounted_run` — it does after any operations, whatever the clock and the
  captures say;
* `Longest` — the entry of the greatest length that a prompt may be restored from;
* `cache_accounted` — a cache that starts empty is accounted for after any
  operations, and then finds the longest entry.
-/
import LlamaRuntime.Native.PromptCache

namespace Native

namespace PromptCache

theorem bytesOf_cons (e : CacheEntry) (entries : List CacheEntry) :
    bytesOf (e :: entries) = e.state.size + bytesOf entries := by
  simp [bytesOf]

theorem bytesOf_append (entries entries' : List CacheEntry) :
    bytesOf (entries ++ entries') = bytesOf entries + bytesOf entries' := by
  simp [bytesOf]

theorem bytesOf_perm {entries entries' : List CacheEntry} (h : entries.Perm entries') :
    bytesOf entries = bytesOf entries' := (h.map _).sum_eq

theorem bytesOf_filter (p : CacheEntry → Prop) [DecidablePred p] (entries : List CacheEntry) :
    bytesOf (entries.filter fun e => p e) + bytesOf (entries.filter fun e => ¬ p e) =
      bytesOf entries := by
  induction entries with
  | nil => rfl
  | cons e entries ih =>
    by_cases he : p e
    · rw [List.filter_cons_of_pos (by simpa using he), List.filter_cons_of_neg (by simpa using he),
        bytesOf_cons, bytesOf_cons]
      omega
    · rw [List.filter_cons_of_neg (by simpa using he), List.filter_cons_of_pos (by simpa using he),
        bytesOf_cons, bytesOf_cons]
      omega

/-- The entries are not of the same prompt. -/
def Apart (e e' : CacheEntry) : Prop :=
  e.kind = .promptPrefix → e'.kind = .promptPrefix → ¬ (e.identity = e'.identity ∧ e.tokens = e'.tokens)

/-- The cache `c₀` as it may be later on. -/
structure Accounted (c₀ c : PromptCache) : Prop where
  settings : c = { c₀ with entries := c.entries, bytesUsed := c.bytesUsed }
  bytes : c.bytesUsed = bytesOf c.entries
  budget : c.bytesUsed ≤ c₀.byteBudget
  count : c.entries.length ≤ c₀.maxEntries
  distinct : c.entries.Pairwise Apart
  idle : c₀.enabled = false → c.entries = []

variable {c₀ c : PromptCache}

/-- Some of the entries go. -/
theorem Accounted.shrink (h : Accounted c₀ c) {entries : List CacheEntry} {bytes : ℕ}
    (hsub : entries.Sublist c.entries) (hbytes : bytes = bytesOf entries) :
    Accounted c₀ { c with entries := entries, bytesUsed := bytes } := by
  have hsum : bytesOf entries ≤ bytesOf c.entries := (hsub.map _).sum_le_sum fun _ _ => Nat.zero_le _
  have hused := h.bytes
  have hbudget := h.budget
  refine ⟨by rw [h.settings], hbytes, ?_, hsub.length_le.trans h.count, h.distinct.sublist hsub,
    fun hidle => ?_⟩
  · show bytes ≤ c₀.byteBudget
    omega
  · exact List.sublist_nil.mp (h.idle hidle ▸ hsub)

theorem Accounted.prune (h : Accounted c₀ c) (now : ℤ) : Accounted c₀ (c.prune now) := by
  refine h.shrink List.filter_sublist ?_
  have hsplit := bytesOf_filter (fun e => now - e.lastAccess < c.ttl) c.entries
  rw [h.bytes]
  omega

/-- What an entry holds does not depend on when it was used. -/
theorem map_touch {β : Type*} (f : CacheEntry → β)
    (hf : ∀ e now, f { e with lastAccess := now } = f e) (c : PromptCache) (place : ℕ) (now : ℤ) :
    (c.touch place now).entries.map f = c.entries.map f := by
  refine List.ext_getElem (by simp [touch]) fun i hi hi' => ?_
  simp only [touch, List.getElem_map, List.getElem_modify]
  split_ifs
  · exact hf _ now
  · rfl

theorem Accounted.touch (h : Accounted c₀ c) (place : ℕ) (now : ℤ) :
    Accounted c₀ (c.touch place now) := by
  have hlength : (c.touch place now).entries.length = c.entries.length := List.length_modify ..
  refine ⟨by rw [PromptCache.touch, h.settings], ?_, h.budget, hlength.trans_le h.count, ?_,
    fun hidle => ?_⟩
  · rw [bytesOf, map_touch _ fun _ _ => rfl]
    exact h.bytes
  · have hfields : ((c.touch place now).entries.map fun e => (e.kind, e.identity, e.tokens)) =
        c.entries.map fun e => (e.kind, e.identity, e.tokens) := map_touch _ (fun _ _ => rfl) c _ _
    have hdistinct : (c.entries.map fun e => (e.kind, e.identity, e.tokens)).Pairwise
        fun x y => x.1 = .promptPrefix → y.1 = .promptPrefix → ¬ (x.2.1 = y.2.1 ∧ x.2.2 = y.2.2) :=
      List.pairwise_map.mpr h.distinct
    rw [← hfields, List.pairwise_map] at hdistinct
    exact hdistinct
  · rw [← List.length_eq_zero_iff, hlength, h.idle hidle]
    rfl

/-! ### Room for an entry -/

/-- The entry that goes, and those that stay. -/
theorem leastRecent_perm {entries others : List CacheEntry} {victim : CacheEntry}
    (h : leastRecent entries = some (victim, others)) :
    others.Sublist entries ∧ entries.Perm (victim :: others) := by
  induction entries generalizing victim others with
  | nil => exact absurd h (by simp [leastRecent])
  | cons e rest ih =>
    unfold leastRecent at h
    cases hrest : leastRecent rest with
    | none =>
      have hnil : rest = [] := by
        cases rest with
        | nil => rfl
        | cons e' rest =>
          unfold leastRecent at hrest
          split at hrest
          · cases hrest
          · split_ifs at hrest
      rw [hrest] at h
      obtain ⟨rfl, rfl⟩ := Prod.mk.inj (Option.some_inj.mp h)
      rw [hnil]
      exact ⟨List.nil_sublist _, .refl _⟩
    | some found =>
      obtain ⟨hsub, hperm⟩ := ih hrest
      rw [hrest] at h
      dsimp only at h
      split_ifs at h with hless
      · obtain ⟨rfl, rfl⟩ := Prod.mk.inj (Option.some_inj.mp h)
        exact ⟨hsub.cons_cons e, (hperm.cons e).trans (List.Perm.swap _ _ _)⟩
      · obtain ⟨rfl, rfl⟩ := Prod.mk.inj (Option.some_inj.mp h)
        exact ⟨List.sublist_cons_self _ _, .refl _⟩

theorem Accounted.makeRoom (size fuel : ℕ) (h : Accounted c₀ c) :
    Accounted c₀ (makeRoom size fuel c) ∧ (makeRoom size fuel c).entries.Sublist c.entries := by
  induction fuel generalizing c with
  | zero => exact ⟨h, List.Sublist.refl _⟩
  | succ fuel ih =>
    unfold PromptCache.makeRoom
    split_ifs with hfull
    · cases hleast : leastRecent c.entries with
      | none => exact ⟨h, List.Sublist.refl _⟩
      | some found =>
        obtain ⟨victim, others⟩ := found
        obtain ⟨hsub, hperm⟩ := leastRecent_perm hleast
        have hbytes : c.bytesUsed - victim.state.size = bytesOf others := by
          rw [h.bytes, bytesOf_perm hperm, bytesOf_cons]
          omega
        obtain ⟨hafter, hsub'⟩ := ih (h.shrink hsub hbytes)
        exact ⟨hafter, hsub'.trans hsub⟩
    · exact ⟨h, List.Sublist.refl _⟩

theorem Accounted.capture (h : Accounted c₀ c) {entry : CacheEntry} {cells : List Cell}
    {reply : CaptureReply} (henabled : c₀.enabled = true)
    (hnew : ∀ e ∈ c.entries, ∀ state, Apart e { entry with state }) :
    Accounted c₀ (c.capture entry cells reply).1 := by
  unfold PromptCache.capture
  by_cases hsize : reply.size = 0 ∨ c.byteBudget < reply.size
  · rw [if_pos hsize]
    exact h
  rw [if_neg hsize]
  obtain ⟨hroom, hsub⟩ := h.makeRoom reply.size c.entries.length
  dsimp only
  generalize PromptCache.makeRoom reply.size c.entries.length c = c' at hroom hsub ⊢
  by_cases hfull : c'.full reply.size = true
  · rw [if_pos hfull]
    exact hroom
  rw [if_neg hfull]
  by_cases hcopied : reply.copied = 0 ∨ reply.size < reply.copied
  · rw [if_pos hcopied]
    exact hroom
  rw [if_neg hcopied]
  have hbudget : c'.byteBudget = c₀.byteBudget := by rw [hroom.settings]
  have hcount : c'.maxEntries = c₀.maxEntries := by rw [hroom.settings]
  rw [full, hbudget, hcount, Bool.or_eq_true, decide_eq_true_eq, decide_eq_true_eq, not_or] at hfull
  obtain ⟨hbytes, hentries⟩ := hfull
  refine ⟨by rw [hroom.settings], ?_, ?_, ?_, ?_, fun hidle => ?_⟩
  · show c'.bytesUsed + reply.copied = bytesOf (c'.entries ++ [_])
    rw [bytesOf_append, bytesOf_cons, hroom.bytes]
    rfl
  · show c'.bytesUsed + reply.copied ≤ c₀.byteBudget
    omega
  · show (c'.entries ++ [_]).length ≤ c₀.maxEntries
    rw [List.length_append, List.length_singleton]
    omega
  · show (c'.entries ++ [_]).Pairwise Apart
    rw [List.pairwise_append]
    refine ⟨hroom.distinct, List.pairwise_singleton _ _, fun e he e' he' => ?_⟩
    rw [List.mem_singleton.mp he']
    exact hnew e (hsub.subset he) _
  · rw [henabled] at hidle
    exact nomatch hidle

/-! ### The operations -/

theorem Accounted.enabled_eq (h : Accounted c₀ c) : c.enabled = c₀.enabled := by rw [h.settings]

theorem Accounted.restore (h : Accounted c₀ c) (identity : PyStr) (tokens : List Token)
    (reply : RestoreReply) : Accounted c₀ (c.restore identity tokens reply).1 := by
  unfold PromptCache.restore
  by_cases hoff : c.enabled = false ∨ tokens.length ≤ 1
  · rw [if_pos hoff]
    exact h
  rw [if_neg hoff]
  have hpruned := h.prune reply.now
  dsimp only
  split
  · exact hpruned
  · split
    · exact hpruned
    · exact hpruned.touch _ _

theorem Accounted.restoreSession (h : Accounted c₀ c) (identity sessionId : PyStr)
    (generation : ℕ) (tokens : List Token) (reply : RestoreReply) :
    Accounted c₀ (c.restoreSession identity sessionId generation tokens reply).1 := by
  unfold PromptCache.restoreSession
  by_cases hoff : c.enabled = false ∨ tokens.length ≤ 1
  · rw [if_pos hoff]
    exact h
  rw [if_neg hoff]
  have hpruned := h.prune reply.now
  dsimp only
  split
  · exact hpruned
  · split
    · exact hpruned
    · split
      · exact hpruned
      · exact hpruned.touch _ _

theorem Accounted.store (h : Accounted c₀ c) (identity : PyStr) (tokens : List Token)
    (cells : List Cell) (reply : CaptureReply) :
    Accounted c₀ (c.store identity tokens cells reply).1 := by
  unfold PromptCache.store
  by_cases hoff : c.enabled = false ∨ tokens = []
  · rw [if_pos hoff]
    exact h
  rw [if_neg hoff]
  have hpruned := h.prune reply.now
  rw [not_or, Bool.not_eq_false, h.enabled_eq] at hoff
  dsimp only
  split
  · exact hpruned.touch _ _
  · next hfind =>
    -- the search has found no entry of this prompt
    refine hpruned.capture hoff.1 fun e he state hkind _ hsame => ?_
    have hother := List.findIdx?_eq_none_iff.mp hfind e he
    rw [decide_eq_false_iff_not] at hother
    exact hother ⟨hkind, hsame⟩

theorem Accounted.storeSession (h : Accounted c₀ c) (identity sessionId : PyStr)
    (parentGeneration : Option ℕ) (commitKey : PyStr) (tokens : List Token) (cells : List Cell)
    (reply : CaptureReply) : Accounted c₀
      (c.storeSession identity sessionId parentGeneration commitKey tokens cells reply).1 := by
  unfold PromptCache.storeSession
  by_cases hoff : c.enabled = false ∨ tokens = []
  · rw [if_pos hoff]
    exact h
  rw [if_neg hoff]
  have hpruned := h.prune reply.now
  rw [not_or, Bool.not_eq_false, h.enabled_eq] at hoff
  dsimp only
  split
  · split
    · exact hpruned
    · exact hpruned.touch _ _
  · split
    · exact hpruned
    · exact hpruned.capture hoff.1 fun e he state _ hkind => nomatch hkind

/-- **Step lemma.** -/
theorem Accounted.after (h : Accounted c₀ c) (op : CacheOp) : Accounted c₀ (c.after op) := by
  cases op with
  | restore identity tokens reply => exact h.restore identity tokens reply
  | store identity tokens cells reply => exact h.store identity tokens cells reply
  | restoreSession identity sessionId generation tokens reply =>
    exact h.restoreSession identity sessionId generation tokens reply
  | sessionRootAllowed identity sessionId commitKey now => exact h.prune now
  | storeSession identity sessionId parent commitKey tokens cells reply =>
    exact h.storeSession identity sessionId parent commitKey tokens cells reply
  | stats now => exact h.prune now
  | clear => exact h.shrink (List.nil_sublist _) rfl

/-- **Run lemma.** -/
theorem Accounted.run (h : Accounted c₀ c) (ops : List CacheOp) : Accounted c₀ (c.run ops) := by
  induction ops using List.reverseRecOn with
  | nil => exact h
  | append_singleton ops op ih =>
    rw [run_concat]
    exact ih.after op

theorem accounted_empty (hempty : c.entries = []) (hbytes : c.bytesUsed = 0) : Accounted c c := by
  refine ⟨rfl, ?_, ?_, ?_, ?_, fun _ => hempty⟩
  · rw [hempty, hbytes]
    rfl
  · rw [hbytes]
    exact Nat.zero_le _
  · rw [hempty]
    exact Nat.zero_le _
  · rw [hempty]
    exact List.Pairwise.nil

/-! ### The longest entry -/

/-- The search looks at every entry. -/
theorem best_of_fold (identity : PyStr) (tokens : List Token) (entries : List (CacheEntry × ℕ)) :
    ∀ best, match entries.foldl (better identity tokens) best with
      | none => best = none ∧ ∀ e ∈ entries, ¬ Usable identity tokens e.1
      | some b =>
        (∀ a ∈ best, a.1.tokens.length ≤ b.1.tokens.length) ∧
          ∀ e ∈ entries, Usable identity tokens e.1 → e.1.tokens.length ≤ b.1.tokens.length := by
  induction entries with
  | nil =>
    intro best
    cases best with
    | none => exact ⟨rfl, fun _ he => absurd he List.not_mem_nil⟩
    | some b =>
      refine ⟨fun a ha => ?_, fun _ he => absurd he List.not_mem_nil⟩
      rw [Option.mem_some_iff.mp ha]
  | cons e entries ih =>
    intro best
    have hrest := ih (better identity tokens best e)
    rw [List.foldl_cons]
    -- what one entry does to the best one so far
    have hnone : better identity tokens best e = none → best = none ∧ ¬ Usable identity tokens e.1 := by
      unfold better
      by_cases husable : Usable identity tokens e.1
      · rw [if_neg (not_not.mpr husable)]
        split
        · exact nofun
        · split_ifs <;> exact nofun
      · rw [if_pos husable]
        exact fun hbest => ⟨hbest, husable⟩
    have hsome : ∃ b, better identity tokens best e = b ∧
        (∀ a ∈ best, ∃ a' ∈ b, a.1.tokens.length ≤ a'.1.tokens.length) ∧
        (Usable identity tokens e.1 → ∃ a' ∈ b, e.1.tokens.length ≤ a'.1.tokens.length) := by
      refine ⟨_, rfl, ?_⟩
      unfold better
      by_cases husable : Usable identity tokens e.1
      · rw [if_neg (not_not.mpr husable)]
        cases best with
        | none => exact ⟨nofun, fun _ => ⟨e, rfl, le_rfl⟩⟩
        | some b =>
          dsimp only
          split_ifs with hless
          · refine ⟨fun a ha => ⟨a, ha, le_rfl⟩, fun _ => ⟨b, rfl, ?_⟩⟩
            omega
          · refine ⟨fun a ha => ⟨e, rfl, ?_⟩, fun _ => ⟨e, rfl, le_rfl⟩⟩
            obtain rfl := Option.mem_some_iff.mp ha
            omega
      · rw [if_pos husable]
        exact ⟨fun a ha => ⟨a, ha, le_rfl⟩, fun h => absurd h husable⟩
    obtain ⟨b', hb', holder, hthis⟩ := hsome
    generalize hfold : entries.foldl (better identity tokens) (better identity tokens best e) = result
      at hrest
    cases result with
    | none =>
      obtain ⟨hbetter, hunusable⟩ := hrest
      obtain ⟨hbest, hhead⟩ := hnone hbetter
      refine ⟨hbest, fun x hx => ?_⟩
      rcases List.mem_cons.mp hx with rfl | hx
      · exact hhead
      · exact hunusable x hx
    | some b =>
      obtain ⟨hbest, hlongest⟩ := hrest
      refine ⟨fun a ha => ?_, fun x hx husable => ?_⟩
      · obtain ⟨a', ha', hle⟩ := holder a ha
        exact hle.trans (hbest a' (hb' ▸ ha'))
      · rcases List.mem_cons.mp hx with rfl | hx
        · obtain ⟨a', ha', hle⟩ := hthis husable
          exact hle.trans (hbest a' (hb' ▸ ha'))
        · exact hlongest x hx husable

/-- An entry that has not expired, and that a prompt with these tokens may be restored from. -/
def LiveFor (c : PromptCache) (now : ℤ) (identity : PyStr) (tokens : List Token)
    (e : CacheEntry) : Prop :=
  e ∈ c.entries ∧ now - e.lastAccess < c.ttl ∧ Usable identity tokens e

/-- What a search for the longest of these entries must find. -/
def Longest (c : PromptCache) (now : ℤ) (identity : PyStr) (tokens : List Token) :
    Option CacheRestore → Prop
  | none => ∀ e, ¬ c.LiveFor now identity tokens e
  | some found =>
    (∃ e, c.LiveFor now identity tokens e ∧ e.tokens.length = found.cachedTokens) ∧
      (∀ e, c.LiveFor now identity tokens e → e.tokens.length ≤ found.cachedTokens) ∧
      (found.exact = true ↔ found.cachedTokens = tokens.length - 1)

theorem mem_prune {now : ℤ} {e : CacheEntry} :
    e ∈ (c.prune now).entries ↔ e ∈ c.entries ∧ now - e.lastAccess < c.ttl := by
  rw [PromptCache.prune, List.mem_filter, decide_eq_true_eq]

theorem restore_longest (hidle : c.enabled = false → c.entries = []) (identity : PyStr)
    (tokens : List Token) {reply : RestoreReply} (hrestored : reply.restored = true) :
    c.Longest reply.now identity tokens (c.restore identity tokens reply).2.1 := by
  unfold PromptCache.restore
  by_cases hoff : c.enabled = false ∨ tokens.length ≤ 1
  · rw [if_pos hoff]
    rintro e ⟨he, -, -, -, hshort, hlong, -⟩
    rcases hoff with hoff | hoff
    · rw [hidle hoff] at he
      exact List.not_mem_nil he
    · have hsixteen : 16 ≤ e.tokens.length := hshort
      omega
  rw [if_neg hoff]
  dsimp only
  have hsearch := best_of_fold identity tokens (c.prune reply.now).entries.zipIdx none
  have hplace {e : CacheEntry} (he : e ∈ (c.prune reply.now).entries) :
      ∃ place, (e, place) ∈ (c.prune reply.now).entries.zipIdx := by
    obtain ⟨i, hi⟩ := List.mem_iff_getElem?.mp he
    exact ⟨i, List.mem_zipIdx_iff_getElem?.mpr hi⟩
  cases hbest : (c.prune reply.now).bestEntry identity tokens with
  | none =>
    rw [show (c.prune reply.now).entries.zipIdx.foldl (better identity tokens) none = none
      from hbest] at hsearch
    rintro e ⟨he, hlive, husable⟩
    obtain ⟨place, hmem⟩ := hplace (mem_prune.mpr ⟨he, hlive⟩)
    exact hsearch.2 _ hmem husable
  | some found =>
    obtain ⟨best, place⟩ := found
    rw [show (c.prune reply.now).entries.zipIdx.foldl (better identity tokens) none =
      some (best, place) from hbest] at hsearch
    dsimp only
    rw [if_neg (by rw [hrestored]; exact Bool.noConfusion)]
    obtain ⟨hmem, husable⟩ := bestEntry_some hbest
    obtain ⟨he, hlive⟩ := mem_prune.mp hmem
    refine ⟨⟨best, ⟨he, hlive, husable⟩, rfl⟩, fun e hfor => ?_, decide_eq_true_iff⟩
    obtain ⟨place', hmem'⟩ := hplace (mem_prune.mpr ⟨hfor.1, hfor.2.1⟩)
    exact hsearch.2 _ hmem' hfor.2.2

/-- **The cache counts its bytes and finds the longest prompt**: after any operations on an empty
cache both limits hold, no prompt has two entries, and a restore that the context takes gives the
length of the longest entry that has not expired. -/
theorem cache_accounted (hempty : c.entries = []) (hbytes : c.bytesUsed = 0) (ops : List CacheOp) :
    (c.run ops).bytesUsed = bytesOf (c.run ops).entries ∧
    (c.run ops).bytesUsed ≤ c.byteBudget ∧ (c.run ops).entries.length ≤ c.maxEntries ∧
    (c.run ops).entries.Pairwise Apart ∧
    ∀ identity tokens reply, reply.restored = true →
      (c.run ops).Longest reply.now identity tokens
        ((c.run ops).restore identity tokens reply).2.1 := by
  have h := (accounted_empty hempty hbytes).run ops
  refine ⟨h.bytes, h.budget, h.count, h.distinct, fun identity tokens reply hrestored => ?_⟩
  exact restore_longest (fun hoff => h.idle (h.enabled_eq ▸ hoff)) identity tokens hrestored

/-- A prompt of sixteen tokens is stored, and found again for one token more. -/
theorem cache_accounted_sixteen :
    let c : PromptCache := ⟨true, 100, 2, 10, [], 0⟩
    (c.run [.store (py "i") (List.range 16) [] ⟨0, 50, 40⟩]).bytesUsed = 40 ∧
      (c.run [.store (py "i") (List.range 16) [] ⟨0, 50, 40⟩]).Longest 1 (py "i") (List.range 17)
        (some ⟨16, true⟩) :=
  ⟨by decide +kernel, (cache_accounted rfl rfl [.store (py "i") (List.range 16) [] ⟨0, 50, 40⟩]).2.2.2.2
    (py "i") (List.range 17) ⟨1, true⟩ rfl⟩

end PromptCache

end Native
