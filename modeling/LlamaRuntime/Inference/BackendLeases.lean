/-
The leases of the backends.

A lease whose release the registry is told of twice is counted down twice; `Proper` keeps
such steps out.

* `Sound.ledger_step` — every proper step keeps the ledger;
* `leases_safe` — the leases in every state a run of proper steps leads to.
-/
import LlamaRuntime.Inference.BackendStages

namespace Inference.BackendRegistry

variable {s : BackendRegistry}

/-- No factory has returned what the factory of another backend returns now. -/
def Unshared (loads : List (PyStr × ℕ × Option ℕ)) : AcquireState → Prop
  | .loaded name (some target) => ∀ load ∈ loads, load.2.2 = some target → load.1 = name
  | _ => True

instance (loads : List (PyStr × ℕ × Option ℕ)) : DecidablePred (Unshared loads)
  | .loaded name (some target) =>
    inferInstanceAs (Decidable (∀ load ∈ loads, load.2.2 = some target → load.1 = name))
  | .loaded _ none | .trying | .loading _ | .failed _ _ _ | .leased _ | .raised _
  | .interrupted => .isTrue trivial

/-- The registry has not been told of the release of the lease, or its test refuses the lease. -/
def Untold (l : ℕ) (s : BackendRegistry) : Prop :=
  ∀ lease ∈ s.leases[l]?, lease.returned = false ∨
    ∀ entry ∈ s.entries.get? lease.name,
      entry.generation ≠ lease.generation ∨ entry.activeLeases = 0

instance (l : ℕ) (s : BackendRegistry) : Decidable (Untold l s) :=
  inferInstanceAs (Decidable (∀ lease ∈ s.leases[l]?, lease.returned = false ∨
    ∀ entry ∈ s.entries.get? lease.name,
      entry.generation ≠ lease.generation ∨ entry.activeLeases = 0))

/-- The lease whose release the call tells the registry of next. -/
def tells : Releaser → Option ℕ
  | .marked l => some l
  | _ => none

/-- The registry is told of the release of a lease once, and every backend has instances of
its own. -/
def Proper (s : BackendRegistry) : RegistryMove → Prop
  | .acquireStep i _ _ => ∀ a ∈ s.acquirers[i]?, Unshared s.loads a.state
  | .releaseStep i _ => ∀ r ∈ s.releasers[i]?, ∀ l ∈ tells r, s.Untold l
  | .tellDirectly l _ => s.Untold l
  | _ => True

instance (s : BackendRegistry) : DecidablePred (Proper s)
  | .acquireStep i _ _ =>
    inferInstanceAs (Decidable (∀ a ∈ s.acquirers[i]?, Unshared s.loads a.state))
  | .releaseStep i _ =>
    inferInstanceAs (Decidable (∀ r ∈ s.releasers[i]?, ∀ l ∈ tells r, s.Untold l))
  | .tellDirectly l _ => inferInstanceAs (Decidable (s.Untold l))
  | .register _ _ | .acquire _ | .release _ | .unload _ | .sweep _ | .unloadStep _ _ _ _ =>
    .isTrue trivial

/-- Every step of the run is proper. -/
def Followed : BackendRegistry → List RegistryMove → Prop
  | _, [] => True
  | s, m :: moves => Proper s m ∧ Followed (s.step m) moves

instance decidableFollowed : ∀ (s : BackendRegistry) (moves : List RegistryMove),
    Decidable (Followed s moves)
  | _, [] => .isTrue trivial
  | s, m :: moves =>
    have := decidableFollowed (s.step m) moves
    inferInstanceAs (Decidable (Proper s m ∧ Followed (s.step m) moves))

structure Sound (s : BackendRegistry) : Prop where
  ledger : Ledger s.entries s.leases s.loads
  loaders : Owners (fun name (a : Acquirer) => Loads name a.state) .LOADING s.acquirers s.entries
  drainers : Owners (fun name (u : Unloader) => Drains name u.state) .DRAINING s.unloaders s.entries
  stops : ∀ (i : ℕ) (u : Unloader) name target, s.unloaders[i]? = some u →
    Stops name target u.state → ∃ entry, s.entries.get? name = some entry ∧ entry.lifecycle = .DRAINING ∧
      entry.target = some target

/-- The stages say what the calls work on. -/
theorem Staged.sound (h : Staged s) (hledger : Ledger s.entries s.leases s.loads) : Sound s where
  ledger := hledger
  loaders := h.loaders
  drainers := h.drainers
  stops := by
    intro i u name target hget hstops
    obtain ⟨entry, hentry, htarget⟩ := h.aims i u name (some target) hget hstops.aims
    obtain ⟨entry', hentry', hlifecycle⟩ := h.drainers.entered i u name hget hstops.drains
    obtain rfl := Option.some_inj.mp (hentry.symm.trans hentry')
    exact ⟨entry, hentry, hlifecycle, htarget⟩

theorem Sound.acquireStep (h : Sound s) (i : ℕ) (answer : FactoryAnswer) (now : ℚ)
    (hproper : ∀ a ∈ s.acquirers[i]?, Unshared s.loads a.state) :
    let s' := s.acquireStep i answer now
    Ledger s'.entries s'.leases s'.loads := by
  unfold BackendRegistry.acquireStep
  cases hget : s.acquirers[i]? with
  | none => exact h.ledger
  | some a =>
    dsimp only
    have hends := acquireNext_ends a answer now s
    generalize s.acquireNext a answer now = out at hends ⊢
    cases hends with
    | aside stage => exact h.ledger
    | starts get lifecycle stage =>
      rename_i a' name entry
      have hready : entry.lifecycle ≠ .READY := by
        intro hready
        rw [hready] at lifecycle
        exact absurd lifecycle (by simp)
      exact h.ledger.set_idle get (h.ledger.idle get hready) rfl rfl (by simp) (.inr rfl)
    | lends get lifecycle target_eq stage =>
      subst target_eq
      exact h.ledger.lends get lifecycle _
    | enters before get stage =>
      rename_i a' name entry target now
      have howns : Loads name a.state := by
        rw [before]
        exact rfl
      obtain ⟨entry', hentry, hlifecycle⟩ := h.loaders.entered i a name hget howns
      obtain rfl := Option.some_inj.mp (get.symm.trans hentry)
      refine h.ledger.enters get (by rw [hlifecycle]; simp) target now ?_
      rintro load hmem t rfl heq
      have hunshared := hproper a hget
      rw [before] at hunshared
      exact hunshared load hmem heq
    | fails before get stage =>
      rename_i a' name failure code entry
      have howns : Loads name a.state := by
        rw [before]
        exact rfl
      obtain ⟨entry', hentry, hlifecycle⟩ := h.loaders.entered i a name hget howns
      obtain rfl := Option.some_inj.mp (get.symm.trans hentry)
      exact h.ledger.set_idle get (h.ledger.idle get (by rw [hlifecycle]; simp)) rfl rfl (by simp)
        (.inl rfl)

theorem Sound.unloadStep (h : Sound s) (i : ℕ) (callable : Bool) (answer : ShutdownAnswer)
    (now : ℚ) :
    let s' := s.unloadStep i callable answer now
    Ledger s'.entries s'.leases s'.loads := by
  unfold BackendRegistry.unloadStep
  cases hget : s.unloaders[i]? with
  | none => exact h.ledger
  | some u =>
    dsimp only
    have hends := unloadNext_ends u callable answer now s
    generalize s.unloadNext u callable answer now = out at hends ⊢
    cases hends with
    | aside stage stops => exact h.ledger
    | starts get lifecycle free stage =>
      rename_i u' name entry
      exact h.ledger.set_idle get ((h.ledger.counts name entry get).symm.trans free) rfl rfl
        (by simp) (.inr rfl)
    | ends before get stage =>
      rename_i u' name succeeded now entry
      have howns : Drains name u.state := by
        rw [before]
        exact rfl
      obtain ⟨entry', hentry, hlifecycle⟩ := h.drainers.entered i u name hget howns
      obtain rfl := Option.some_inj.mp (get.symm.trans hentry)
      refine h.ledger.set_idle get (h.ledger.idle get (by rw [hlifecycle]; simp)) rfl rfl ?_
        (.inl rfl)
      cases succeeded <;> simp

theorem release_refused {lease : BackendLease}
    (h : ∀ entry ∈ s.entries.get? lease.name,
      entry.generation ≠ lease.generation ∨ entry.activeLeases = 0) (now : ℚ) :
    s.release lease now = (false, s) := by
  unfold release
  cases hget : s.entries.get? lease.name with
  | none => rfl
  | some entry =>
    dsimp only
    rw [if_pos (h entry hget)]

/-- The registry takes an outstanding lease back. -/
theorem Sound.release_eq (h : Sound s) {lease : BackendLease} (hmem : lease ∈ s.leases)
    (hopen : lease.returned = false) : ∃ entry, s.entries.get? lease.name = some entry ∧
      entry.lifecycle = .READY ∧ ∀ now, s.release lease now = (true, s.setEntry lease.name
        { entry with activeLeases := entry.activeLeases - 1, lastUsed := now }) := by
  obtain ⟨entry, hget, hready, hgeneration, _⟩ := h.ledger.refers lease hmem hopen
  have hpositive : 0 < entry.activeLeases := by
    rw [h.ledger.counts lease.name entry hget]
    exact List.countP_pos_iff.mpr ⟨lease, hmem, outstanding_iff.mpr ⟨rfl, hopen⟩⟩
  refine ⟨entry, hget, hready, fun now => ?_⟩
  unfold release
  rw [hget]
  dsimp only
  rw [if_neg (by simp only [hgeneration]; omega)]

theorem Sound.tell (h : Sound s) {l : ℕ} {lease : BackendLease} (hlease : s.leases[l]? = some lease)
    (huntold : s.Untold l) (now : ℚ) :
    let s' := (s.tell l lease now).2
    Ledger s'.entries s'.leases s'.loads := by
  have hmem : lease ∈ s.leases := List.mem_of_getElem? hlease
  unfold BackendRegistry.tell
  by_cases hopen : lease.returned = false
  · obtain ⟨entry, hget, hready, hrelease⟩ := h.release_eq hmem hopen
    rw [hrelease now]
    exact h.ledger.returns hlease hopen hget now
  · have hsame : s.leases.set l { lease with returned := true } = s.leases := by
      obtain ⟨hlt, rfl⟩ := List.getElem?_eq_some_iff.mp hlease
      have : { s.leases[l] with returned := true } = s.leases[l] := by
        rw [← Bool.eq_true_of_not_eq_false hopen]
      rw [this, List.set_getElem_self]
    rw [release_refused ((huntold lease hlease).resolve_left hopen)]
    dsimp only
    rw [hsame]
    exact h.ledger

theorem Sound.releaseStep (h : Sound s) (i : ℕ) (now : ℚ)
    (hproper : ∀ r ∈ s.releasers[i]?, ∀ l ∈ tells r, s.Untold l) :
    let s' := s.releaseStep i now
    Ledger s'.entries s'.leases s'.loads := by
  unfold BackendRegistry.releaseStep
  cases hget : s.releasers[i]? with
  | none => exact h.ledger
  | some releaser =>
    cases releaser with
    | read l =>
      dsimp only
      cases hlease : s.leases[l]? with
      | none => exact h.ledger
      | some lease => exact h.ledger.marks hlease
    | marked l =>
      dsimp only
      cases hlease : s.leases[l]? with
      | none => exact h.ledger
      | some lease => exact h.tell hlease (hproper (.marked l) hget l rfl) now
    | done => exact h.ledger

/-- Every proper step keeps the ledger. -/
theorem Sound.ledger_step (h : Sound s) {m : RegistryMove} (hproper : Proper s m) :
    Ledger (s.step m).entries (s.step m).leases (s.step m).loads := by
  cases m with
  | register descriptor now =>
    show Ledger (s.register descriptor now).2.entries _ _
    unfold BackendRegistry.step BackendRegistry.register
    dsimp only
    split_ifs with hthere
    · exact h.ledger
    · have hnone : s.entries.get? descriptor.name = none := by
        rw [Dict.contains_iff, Dict.mem_keys_iff] at hthere
        exact Option.eq_none_iff_forall_ne_some.mpr fun entry hget => hthere ⟨entry, hget⟩
      exact h.ledger.registers hnone descriptor now
  | acquireStep i answer now => exact h.acquireStep i answer now hproper
  | release l =>
    show Ledger (s.beginRelease l).entries (s.beginRelease l).leases (s.beginRelease l).loads
    unfold BackendRegistry.beginRelease
    cases s.leases[l]? <;> exact h.ledger
  | releaseStep i now => exact h.releaseStep i now hproper
  | tellDirectly l now =>
    show Ledger (s.tellDirectly l now).entries (s.tellDirectly l now).leases
      (s.tellDirectly l now).loads
    unfold BackendRegistry.tellDirectly
    cases hlease : s.leases[l]? with
    | none => exact h.ledger
    | some lease => exact h.tell hlease hproper now
  | unloadStep i callable answer now => exact h.unloadStep i callable answer now
  | _ => exact h.ledger

theorem Sound.run (hstaged : Staged s) (h : Sound s) {moves : List RegistryMove}
    (hfollowed : Followed s moves) : Sound (moves.foldl BackendRegistry.step s) := by
  induction moves generalizing s with
  | nil => exact h
  | cons m moves ih =>
    have hstep := hstaged.step m
    exact ih hstep (hstep.sound (h.ledger_step hfollowed.1)) hfollowed.2

/-- The lease counts for the entry. -/
def current (name : PyStr) (entry : Entry) (lease : BackendLease) : Bool :=
  lease.name = name && lease.generation = entry.generation && !lease.returned

structure LeaseSafe (s : BackendRegistry) : Prop where
  /-- an instance that is shut down has no outstanding lease -/
  shutdown : ∀ u ∈ s.unloaders, ∀ name target, u.state = .stopping name target →
    ∀ lease ∈ s.leases, lease.returned = false → lease.target ≠ some target
  /-- the factory of a backend runs once at a time -/
  factory : ∀ (i j : ℕ) (a a' : Acquirer) name, s.acquirers[i]? = some a →
    s.acquirers[j]? = some a' → a.state = .loading name → a'.state = .loading name → i = j
  /-- an outstanding lease is on what the factory returned in its generation -/
  refers : ∀ lease ∈ s.leases, lease.returned = false →
    (lease.name, lease.generation, lease.target) ∈ s.loads ∧
      ∀ target, (lease.name, lease.generation, target) ∈ s.loads → target = lease.target
  active : ∀ name entry, s.entries.get? name = some entry →
    entry.activeLeases = s.leases.countP (current name entry)
  stale : ∀ (lease : BackendLease) entry now, s.entries.get? lease.name = some entry →
    entry.generation ≠ lease.generation → s.release lease now = (false, s)

theorem Sound.leaseSafe (h : Sound s) : LeaseSafe s where
  shutdown := by
    intro u hu name target hstate lease hmem hopen htarget
    obtain ⟨i, hi⟩ := List.mem_iff_getElem?.mp hu
    have hstops : Stops name target u.state := by
      rw [hstate]
      exact ⟨rfl, rfl⟩
    obtain ⟨entry, hget, hlifecycle, hentry⟩ := h.stops i u name target hi hstops
    obtain ⟨entry', hget', hready, _, hsame⟩ := h.ledger.refers lease hmem hopen
    -- both come from the factory of one backend
    obtain ⟨generation, hload⟩ := h.ledger.known name entry target hget hentry
    obtain ⟨generation', hload'⟩ :=
      h.ledger.known lease.name entry' target hget' (hsame.trans htarget)
    obtain rfl := h.ledger.unshared name lease.name generation generation' target hload hload'
    obtain rfl := Option.some_inj.mp (hget.symm.trans hget')
    exact absurd (hlifecycle.symm.trans hready) (by simp)
  factory := by
    intro i j a a' name ha ha' hstate hstate'
    refine h.loaders.unique i j a a' name ha ha' ?_ ?_
    · show Loads name a.state
      rw [hstate]
      exact rfl
    · show Loads name a'.state
      rw [hstate']
      exact rfl
  refers := by
    intro lease hmem hopen
    obtain ⟨entry, hget, hready, hgeneration, htarget⟩ := h.ledger.refers lease hmem hopen
    have hload := h.ledger.ready lease.name entry hget hready
    rw [hgeneration, htarget] at hload
    exact ⟨hload, fun target hother => h.ledger.functional _ _ _ _ hother hload⟩
  active := by
    intro name entry hget
    rw [h.ledger.counts name entry hget]
    refine List.countP_congr fun lease hmem => ?_
    constructor
    · intro hout
      obtain ⟨rfl, hopen⟩ := outstanding_iff.mp hout
      obtain ⟨entry', hget', _, hgeneration, _⟩ := h.ledger.refers lease hmem hopen
      obtain rfl := Option.some_inj.mp (hget.symm.trans hget')
      simp [current, hgeneration, hopen]
    · intro hcurrent
      simp only [current, Bool.and_eq_true, decide_eq_true_eq, Bool.not_eq_true'] at hcurrent
      exact outstanding_iff.mpr ⟨hcurrent.1.1, hcurrent.2⟩
  stale := by
    intro lease entry now hget hne
    refine release_refused (fun entry' hget' => ?_) now
    obtain rfl := Option.some_inj.mp (hget.symm.trans hget')
    exact .inl hne

theorem leases_safe (moves : List RegistryMove) (h : Followed {} moves) :
    LeaseSafe (run moves) :=
  (Sound.run .nil (Staged.nil.sound .nil) h).leaseSafe

def sampleDescriptor : BackendDescriptor where
  name := py "managed"
  mode := .MANAGED
  models := [py "qwen"]
  supportsStreaming := true
  supportsCancellation := true
  priority := 0
  keepaliveSeconds := 5

def sampleRequirements : Requirements := { model := py "qwen", quoted := py "'qwen'" }

/-- Two leases of one instance are taken. -/
def sampleAcquired : List RegistryMove :=
  [.register sampleDescriptor 0, .acquire sampleRequirements, .acquireStep 0 .interrupts 0,
    .acquireStep 0 (.returns (some 7)) 1, .acquireStep 0 .interrupts 1, .acquire sampleRequirements,
    .acquireStep 1 .interrupts 2]

/-- Both are released, the backend is unloaded and loaded again, and the registry is told of
the first lease once more. -/
def sampleReloaded : List RegistryMove :=
  sampleAcquired ++ [.release 0, .releaseStep 0 3, .releaseStep 0 3, .release 0, .release 1,
    .releaseStep 2 4, .releaseStep 2 4, .sweep 9, .unloadStep 0 true .interrupts 9,
    .unloadStep 0 true .interrupts 9, .unloadStep 0 true (.returns true) 9,
    .unloadStep 0 true .interrupts 9, .acquire sampleRequirements, .acquireStep 2 .interrupts 10,
    .acquireStep 2 (.returns (some 8)) 10, .acquireStep 2 .interrupts 10, .tellDirectly 0 11]

theorem leases_safe_reloaded : LeaseSafe (run sampleReloaded) :=
  leases_safe sampleReloaded (by decide +kernel)

/-- Two threads release the first lease, and both pass the test of `_released`; the second
lease is outstanding when the backend is unloaded. -/
def sampleRaced : List RegistryMove :=
  sampleAcquired ++ [.release 0, .release 0, .releaseStep 0 3, .releaseStep 1 3, .releaseStep 0 3,
    .releaseStep 1 3, .unload (py "managed"), .unloadStep 0 true .interrupts 4,
    .unloadStep 0 true .interrupts 4]

theorem leases_safe_raced : ¬ LeaseSafe (run sampleRaced) := by
  intro h
  have hstopping : (run sampleRaced).unloaders.map Unloader.state =
      [.stopping (py "managed") 7] := by decide +kernel
  have hlease : ((run sampleRaced).leases[1]?).map (fun lease => (lease.target, lease.returned)) =
      some (some 7, false) := by decide +kernel
  obtain ⟨u, hu, hstate⟩ := List.mem_map.mp (hstopping ▸ List.mem_singleton.mpr rfl)
  obtain ⟨lease, hget, hpair⟩ := Option.map_eq_some_iff.mp hlease
  obtain ⟨htarget, hopen⟩ := Prod.mk.injEq _ _ _ _ ▸ hpair
  exact h.shutdown u hu _ _ hstate lease (List.mem_of_getElem? hget) hopen htarget

end Inference.BackendRegistry
