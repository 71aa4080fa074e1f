/-
The instances the factories have returned.

A factory runs outside the condition.  What it returns is in the hands of the call that loads
it, then the entry holds it until an unload shuts it down; what the call rejects, and what has
no `shutdown`, nobody holds.

* `Custody.step` — where the returned instances are after a step;
* `none_lost` — no instance is lost in a run without a rejected or an unstoppable instance.
-/
import LlamaRuntime.Inference.BackendLeases

namespace Inference.BackendRegistry

variable {s : BackendRegistry}

/-! ### The instances -/

/-- What happens to an instance outside the condition. -/
inductive InstanceEvent where
  | returned (target : ℕ)
  | shutDown (target : ℕ)
  deriving DecidableEq

/-- A step; `dropped` is what the factory has returned, if the load fails all the same. -/
structure TracedMove where
  move : RegistryMove
  dropped : Option ℕ := none

structure TracedRegistry where
  registry : BackendRegistry := {}
  events : List InstanceEvent := []

/-- What the factory returns in this step. -/
def factoryReturns (answer : FactoryAnswer) (dropped : Option ℕ) : AcquireState → Option ℕ
  | .loading _ =>
    match answer with
    | .returns target => target
    | _ => dropped
  | _ => none

/-- The instance whose `shutdown` is called in this step. -/
def shutdownCalled (callable : Bool) : UnloadState → Option ℕ
  | .draining _ target => if callable then target else none
  | _ => none

def instanceEvent (s : BackendRegistry) (m : TracedMove) : Option InstanceEvent :=
  match m.move with
  | .acquireStep i answer _ =>
    s.acquirers[i]?.bind fun a => (factoryReturns answer m.dropped a.state).map .returned
  | .unloadStep i callable _ _ =>
    s.unloaders[i]?.bind fun u => (shutdownCalled callable u.state).map .shutDown
  | _ => none

namespace TracedRegistry

def step (s : TracedRegistry) (m : TracedMove) : TracedRegistry :=
  ⟨s.registry.step m.move, s.events ++ (s.registry.instanceEvent m).toList⟩

def run (moves : List TracedMove) : TracedRegistry := moves.foldl step {}

end TracedRegistry

/-- The entry of a loaded backend, or of one that is being unloaded, has the instance. -/
def Holds (entries : Dict PyStr Entry) (target : ℕ) (name : PyStr) : Prop :=
  ∃ entry, entries.get? name = some entry ∧ entry.target = some target ∧
    (entry.lifecycle = .READY ∨ entry.lifecycle = .DRAINING)

/-- A call has loaded the instance, and has not entered it yet. -/
def Carried (s : BackendRegistry) (target : ℕ) : Prop :=
  ∃ a ∈ s.acquirers, ∃ name, a.state = .loaded name (some target)

def ShutSince (events : List InstanceEvent) (i target : ℕ) : Prop :=
  ∃ j, i < j ∧ events[j]? = some (.shutDown target)

/-- Every instance a factory has returned is in an entry, or in the hands of the call that
loads it, or its `shutdown` has been called since. -/
def NoneLost (s : TracedRegistry) : Prop :=
  ∀ i target, s.events[i]? = some (.returned target) →
    ShutSince s.events i target ∨ Carried s.registry target ∨
      ∃ name, Holds s.registry.entries target name

/-- The load fails after the factory has returned. -/
def rejects (answer : FactoryAnswer) (dropped : Option ℕ) : AcquireState → Bool
  | .loading _ =>
    match answer with
    | .returns _ => false
    | .mismatches _ => true
    | _ => dropped.isSome
  | _ => false

/-- The instance that is unloaded has no `shutdown` to call. -/
def skips (callable : Bool) : UnloadState → Bool
  | .draining _ target => target.isSome && !callable
  | _ => false

/-- The step leaves an instance behind. -/
def drops (s : BackendRegistry) (m : TracedMove) : Bool :=
  match m.move with
  | .acquireStep i answer _ => s.acquirers[i]?.any fun a => rejects answer m.dropped a.state
  | .unloadStep i callable _ _ => s.unloaders[i]?.any fun u => skips callable u.state
  | _ => false

/-- No step of the run leaves an instance behind. -/
def Undropped : BackendRegistry → List TracedMove → Prop
  | _, [] => True
  | s, m :: moves => s.drops m = false ∧ Undropped (s.step m.move) moves

instance decidableUndropped : ∀ (s : BackendRegistry) (moves : List TracedMove),
    Decidable (Undropped s moves)
  | _, [] => .isTrue trivial
  | s, m :: moves =>
    have := decidableUndropped (s.step m.move) moves
    inferInstanceAs (Decidable (s.drops m = false ∧ Undropped (s.step m.move) moves))

/-! ### Where the instances are -/

/-- The unload of the backend is past the call of `shutdown`. -/
def Passed (name : PyStr) : UnloadState → Prop
  | .stopping name' _ | .stopped name' _ => name' = name
  | _ => False

theorem Passed.drains {name : PyStr} {u : UnloadState} (h : Passed name u) : Drains name u := by
  cases u with
  | stopping => exact h
  | stopped => exact h
  | _ => exact absurd h id

/-- An entry has the instance, and no unload has called its `shutdown`. -/
def Live (s : BackendRegistry) (target : ℕ) : Prop :=
  ∃ name, Holds s.entries target name ∧ ∀ u ∈ s.unloaders, ¬ Passed name u.state

structure Custody (s : TracedRegistry) : Prop where
  staged : Staged s.registry
  kept : ∀ i target, s.events[i]? = some (.returned target) →
    ShutSince s.events i target ∨ Carried s.registry target ∨ Live s.registry target

section Custody

variable {s' : BackendRegistry} {target : ℕ}

theorem Holds.set {entries : Dict PyStr Entry} {name name₁ : PyStr} {entry' : Entry}
    (h : Holds entries target name₁)
    (hkept : ∀ entry, entries.get? name = some entry → entry.target = some target →
      entry.lifecycle = .READY ∨ entry.lifecycle = .DRAINING →
        entry'.target = some target ∧
          (entry'.lifecycle = .READY ∨ entry'.lifecycle = .DRAINING)) :
    Holds (entries.set name entry') target name₁ := by
  obtain ⟨entry, hget, htarget, hlifecycle⟩ := h
  by_cases heq : name = name₁
  · subst heq
    exact ⟨entry', Dict.get?_set_self, hkept entry hget htarget hlifecycle⟩
  · exact ⟨entry, (Dict.get?_set_ne heq).trans hget, htarget, hlifecycle⟩

theorem Live.mono (h : Live s target)
    (hholds : ∀ name, Holds s.entries target name → Holds s'.entries target name)
    (hpassed : ∀ name, ∀ u ∈ s'.unloaders, Passed name u.state →
      ∃ u ∈ s.unloaders, Passed name u.state) : Live s' target := by
  obtain ⟨name, hname, hnone⟩ := h
  refine ⟨name, hholds name hname, fun u hu hpast => ?_⟩
  obtain ⟨u', hu', hpast'⟩ := hpassed name u hu hpast
  exact hnone u' hu' hpast'

@[simp] theorem acquireStep_unloaders (i : ℕ) (answer : FactoryAnswer) (now : ℚ) :
    (s.acquireStep i answer now).unloaders = s.unloaders := by
  unfold acquireStep
  cases s.acquirers[i]? with
  | none => rfl
  | some a =>
    have hends := acquireNext_ends a answer now s
    dsimp only
    generalize s.acquireNext a answer now = out at hends ⊢
    cases hends <;> rfl

/-- The call that has loaded an instance enters it. -/
theorem Staged.enters (h : Staged s) {i : ℕ} {a : Acquirer} {name : PyStr} {target : Option ℕ}
    (hget : s.acquirers[i]? = some a) (hstate : a.state = .loaded name target)
    (answer : FactoryAnswer) (now : ℚ) :
    ∃ entry, s.entries.get? name = some entry ∧ entry.lifecycle = .LOADING ∧
      (s.acquireStep i answer now).entries.get? name = some { entry with
        target := target
        generation := entry.generation + 1
        activeLeases := 1
        lastUsed := now
        lifecycle := .READY } := by
  have howns : Loads name a.state := by
    rw [hstate]
    exact rfl
  obtain ⟨entry, hentry, hlifecycle⟩ := h.loaders.entered i a name hget howns
  refine ⟨entry, hentry, hlifecycle, ?_⟩
  unfold BackendRegistry.acquireStep
  rw [hget]
  dsimp only
  unfold acquireNext
  rw [hstate]
  dsimp only
  unfold enterInstance
  rw [hentry]
  exact Dict.get?_set_self

theorem Staged.holds_acquire (h : Staged s) (i : ℕ) (answer : FactoryAnswer) (now : ℚ)
    {name : PyStr} (hholds : Holds s.entries target name) :
    Holds (s.acquireStep i answer now).entries target name := by
  unfold BackendRegistry.acquireStep
  cases hget : s.acquirers[i]? with
  | none => exact hholds
  | some a =>
    dsimp only
    have hends := acquireNext_ends a answer now s
    generalize s.acquireNext a answer now = out at hends ⊢
    cases hends with
    | aside stage => exact hholds
    | starts get lifecycle stage =>
      refine hholds.set fun entry hentry htarget hloaded => ?_
      obtain rfl := Option.some_inj.mp (get.symm.trans hentry)
      rcases lifecycle with hunloaded | hfailed
      · rw [hunloaded] at hloaded
        exact absurd hloaded (by simp)
      · rw [hfailed] at hloaded
        exact absurd hloaded (by simp)
    | lends get lifecycle target_eq stage =>
      refine hholds.set fun entry hentry htarget hloaded => ?_
      obtain rfl := Option.some_inj.mp (get.symm.trans hentry)
      exact ⟨htarget, hloaded⟩
    | enters before get stage =>
      rename_i a' name₁ entry₁ target₁ now
      have howns : Loads name₁ a.state := by
        rw [before]
        exact rfl
      obtain ⟨entry', hentry', hlifecycle⟩ := h.loaders.entered i a name₁ hget howns
      refine hholds.set fun entry hentry htarget hloaded => ?_
      obtain rfl := Option.some_inj.mp (hentry'.symm.trans hentry)
      rw [hlifecycle] at hloaded
      exact absurd hloaded (by simp)
    | fails before get stage =>
      rename_i a' name₁ failure code entry₁
      have howns : Loads name₁ a.state := by
        rw [before]
        exact rfl
      obtain ⟨entry', hentry', hlifecycle⟩ := h.loaders.entered i a name₁ hget howns
      refine hholds.set fun entry hentry htarget hloaded => ?_
      obtain rfl := Option.some_inj.mp (hentry'.symm.trans hentry)
      rw [hlifecycle] at hloaded
      exact absurd hloaded (by simp)

theorem Staged.keeps_acquire (h : Staged s) (i : ℕ) (answer : FactoryAnswer) (now : ℚ)
    (hbefore : Carried s target ∨ Live s target) :
    Carried (s.acquireStep i answer now) target ∨ Live (s.acquireStep i answer now) target := by
  rcases hbefore with ⟨a, hmem, name, hstate⟩ | hlive
  · obtain ⟨j, hj⟩ := List.mem_iff_getElem?.mp hmem
    by_cases heq : i = j
    · subst heq
      obtain ⟨entry, hentry, hlifecycle, hset⟩ := h.enters hj hstate answer now
      refine .inr ⟨name, ⟨_, hset, rfl, .inl rfl⟩, fun u hu hpast => ?_⟩
      rw [acquireStep_unloaders] at hu
      obtain ⟨k, hk⟩ := List.mem_iff_getElem?.mp hu
      obtain ⟨entry', hentry', hdraining⟩ := h.drainers.entered k u name hk hpast.drains
      obtain rfl := Option.some_inj.mp (hentry.symm.trans hentry')
      exact absurd (hlifecycle.symm.trans hdraining) (by simp)
    · refine .inl ⟨a, ?_, name, hstate⟩
      unfold BackendRegistry.acquireStep
      cases s.acquirers[i]? with
      | none => exact hmem
      | some a₁ =>
        dsimp only
        have hends := acquireNext_ends a₁ answer now s
        generalize s.acquireNext a₁ answer now = out at hends ⊢
        have hsame : out.2.acquirers = s.acquirers := by cases hends <;> rfl
        rw [hsame]
        exact List.mem_iff_getElem?.mpr ⟨j, (List.getElem?_set_ne heq).trans hj⟩
  · refine .inr (hlive.mono (fun _ => h.holds_acquire i answer now) fun name u hu hpast => ?_)
    rw [acquireStep_unloaders] at hu
    exact ⟨u, hu, hpast⟩

@[simp] theorem unloadStep_acquirers (i : ℕ) (callable : Bool) (answer : ShutdownAnswer) (now : ℚ) :
    (s.unloadStep i callable answer now).acquirers = s.acquirers := by
  unfold unloadStep
  cases s.unloaders[i]? with
  | none => rfl
  | some u =>
    have hends := unloadNext_ends u callable answer now s
    dsimp only
    generalize s.unloadNext u callable answer now = out at hends ⊢
    cases hends <;> rfl

theorem beginUnload_fresh (u : Unloader) (name₁ : PyStr) {name : PyStr} :
    ¬ Passed name (s.beginUnload u name₁).1.state := by
  unfold beginUnload
  cases s.entries.get? name₁ with
  | none => exact id
  | some entry =>
    dsimp only
    split_ifs <;> exact id

/-- An unload comes past the call of `shutdown` from draining. -/
theorem unloadNext_passed {u : Unloader} {callable : Bool} {answer : ShutdownAnswer} {now : ℚ}
    {name : PyStr} (h : Passed name (s.unloadNext u callable answer now).1.state) :
    Passed name u.state ∨ ∃ target, u.state = .draining name target := by
  unfold unloadNext at h
  cases hstate : u.state with
  | checking =>
    rw [hstate] at h
    dsimp only at h
    cases hnames : u.names with
    | nil =>
      rw [hnames] at h
      dsimp only at h
      rw [hstate] at h
      exact absurd h id
    | cons name₁ names =>
      rw [hnames] at h
      exact absurd h (beginUnload_fresh _ name₁)
  | draining name₁ target₁ =>
    rw [hstate] at h
    refine .inr ⟨target₁, ?_⟩
    cases target₁ with
    | none =>
      obtain rfl : name₁ = name := h
      rfl
    | some target₁ =>
      obtain rfl : name₁ = name := by cases callable <;> exact h
      rfl
  | stopping name₁ target₁ =>
    rw [hstate] at h
    left
    cases answer with
    | interrupts => exact absurd h id
    | _ => exact h
  | stopped name₁ succeeded =>
    rw [hstate] at h
    dsimp only at h
    unfold endUnload at h
    cases hget : s.entries.get? name₁ with
    | none =>
      rw [hget] at h
      exact absurd h id
    | some entry =>
      rw [hget] at h
      exact absurd h id
  | interrupted =>
    rw [hstate] at h
    dsimp only at h
    rw [hstate] at h
    exact absurd h id

/-- An entry gives its instance up only at the end of an unload. -/
theorem holds_unload {i : ℕ} {u : Unloader} (hget : s.unloaders[i]? = some u)
    {callable : Bool} {answer : ShutdownAnswer} {now : ℚ} {name : PyStr}
    (hholds : Holds s.entries target name) (hpast : ¬ Passed name u.state) :
    Holds (s.unloadStep i callable answer now).entries target name := by
  unfold BackendRegistry.unloadStep
  rw [hget]
  dsimp only
  have hends := unloadNext_ends u callable answer now s
  generalize s.unloadNext u callable answer now = out at hends ⊢
  cases hends with
  | aside stage stops => exact hholds
  | starts get lifecycle free stage =>
    refine hholds.set fun entry hentry htarget hloaded => ?_
    obtain rfl := Option.some_inj.mp (get.symm.trans hentry)
    exact ⟨htarget, .inr rfl⟩
  | ends before get stage =>
    rename_i u' name₁ succeeded now entry
    obtain ⟨entry₁, hentry, htarget, hloaded⟩ := hholds
    refine ⟨entry₁, (Dict.get?_set_ne ?_).trans hentry, htarget, hloaded⟩
    rintro rfl
    rw [before] at hpast
    exact hpast rfl

theorem Staged.keeps_unload (h : Staged s) {i : ℕ} {callable : Bool}
    (hskips : ∀ u, s.unloaders[i]? = some u → skips callable u.state = false)
    (answer : ShutdownAnswer) (now : ℚ) (hbefore : Carried s target ∨ Live s target) :
    (∃ u, s.unloaders[i]? = some u ∧ shutdownCalled callable u.state = some target) ∨
      Carried (s.unloadStep i callable answer now) target ∨
        Live (s.unloadStep i callable answer now) target := by
  rcases hbefore with ⟨a, hmem, hstate⟩ | ⟨name, hholds, hnone⟩
  · exact .inr (.inl ⟨a, (unloadStep_acquirers i callable answer now).symm ▸ hmem, hstate⟩)
  · cases hget : s.unloaders[i]? with
    | none =>
      refine .inr (.inr ⟨name, ?_, ?_⟩)
      · unfold BackendRegistry.unloadStep
        rw [hget]
        exact hholds
      · unfold BackendRegistry.unloadStep
        rw [hget]
        exact hnone
    | some u =>
      have hpast : ¬ Passed name u.state := hnone u (List.mem_of_getElem? hget)
      by_cases hnew : Passed name (s.unloadNext u callable answer now).1.state
      · -- the `shutdown` of the instance is called now
        obtain ⟨target₁, hstate⟩ := (unloadNext_passed hnew).resolve_left hpast
        obtain ⟨entry, hentry, htarget⟩ := h.aims i u name target₁ hget (by
          rw [hstate]
          exact ⟨rfl, rfl⟩)
        obtain ⟨entry₁, hentry₁, htarget₁, _⟩ := hholds
        obtain rfl := Option.some_inj.mp (hentry.symm.trans hentry₁)
        obtain rfl : some target = target₁ := htarget₁.symm.trans htarget
        have hcallable := hskips u hget
        rw [hstate] at hcallable
        refine .inl ⟨u, rfl, ?_⟩
        rw [hstate]
        cases callable with
        | true => rfl
        | false => exact absurd hcallable (by simp [skips])
      · refine .inr (.inr ⟨name, holds_unload hget hholds hpast, fun u₁ hu₁ => ?_⟩)
        unfold BackendRegistry.unloadStep at hu₁
        rw [hget] at hu₁
        dsimp only at hu₁
        have hends := unloadNext_ends u callable answer now s
        have hsame : (s.unloadNext u callable answer now).2.unloaders = s.unloaders := by
          generalize s.unloadNext u callable answer now = out at hends ⊢
          cases hends <;> rfl
        rw [hsame] at hu₁
        rcases List.mem_or_eq_of_mem_set hu₁ with hold | rfl
        · exact hnone u₁ hold
        · exact hnew

/-- The registry is told of the release of a lease. -/
theorem holds_release {name : PyStr} (hholds : Holds s.entries target name) (lease : BackendLease)
    (now : ℚ) : Holds (s.release lease now).2.entries target name := by
  unfold release
  cases hget : s.entries.get? lease.name with
  | none => exact hholds
  | some entry =>
    dsimp only
    split_ifs
    · exact hholds
    · refine hholds.set fun entry₁ hentry htarget hloaded => ?_
      obtain rfl := Option.some_inj.mp (hget.symm.trans hentry)
      exact ⟨htarget, hloaded⟩

/-- A step in which no call loads or unloads leaves the instances where they are. -/
theorem keeps_aside (hbefore : Carried s target ∨ Live s target)
    (hholds : ∀ name, Holds s.entries target name → Holds s'.entries target name)
    (hacquirers : ∀ a ∈ s.acquirers, a ∈ s'.acquirers)
    (hunloaders : ∀ u ∈ s'.unloaders, u ∈ s.unloaders ∨ u.state = .checking) :
    Carried s' target ∨ Live s' target := by
  rcases hbefore with ⟨a, hmem, hstate⟩ | hlive
  · exact .inl ⟨a, hacquirers a hmem, hstate⟩
  · refine .inr (hlive.mono hholds fun name u hu hpast => ?_)
    rcases hunloaders u hu with hold | hnew
    · exact ⟨u, hold, hpast⟩
    · rw [hnew] at hpast
      exact absurd hpast id

theorem keeps_release (hbefore : Carried s target ∨ Live s target) (lease : BackendLease) (now : ℚ)
    (leases : List BackendLease) (releasers : List Releaser) :
    let s' : BackendRegistry :=
      { (s.release lease now).2 with leases := leases, releasers := releasers }
    Carried s' target ∨ Live s' target := by
  have hsame : (s.release lease now).2.acquirers = s.acquirers ∧
      (s.release lease now).2.unloaders = s.unloaders := by
    unfold release
    cases s.entries.get? lease.name with
    | none => exact ⟨rfl, rfl⟩
    | some entry =>
      dsimp only
      split_ifs <;> exact ⟨rfl, rfl⟩
  refine keeps_aside hbefore (fun _ hholds => holds_release hholds lease now)
    (fun a hmem => ?_) fun u hu => .inl ?_
  · exact hsame.1.symm ▸ hmem
  · exact hsame.2 ▸ hu

/-- The instance is where it was, or its `shutdown` is called in this step. -/
theorem Staged.keeps (h : Staged s) (m : TracedMove) (hdrops : s.drops m = false)
    (hbefore : Carried s target ∨ Live s target) :
    s.instanceEvent m = some (.shutDown target) ∨
      Carried (s.step m.move) target ∨ Live (s.step m.move) target := by
  obtain ⟨move, dropped⟩ := m
  cases move with
  | register descriptor now =>
    right
    show Carried (s.register descriptor now).2 target ∨ Live (s.register descriptor now).2 target
    unfold BackendRegistry.register
    split_ifs with hthere
    · exact hbefore
    · refine keeps_aside hbefore (fun name hholds => hholds.set fun entry hentry => ?_)
        (fun _ hmem => hmem) fun _ => .inl
      rw [Dict.contains_iff, Dict.mem_keys_iff] at hthere
      exact absurd ⟨entry, hentry⟩ hthere
  | acquire requirements =>
    exact .inr (keeps_aside hbefore (fun _ => id) (fun _ hmem => List.mem_append_left _ hmem)
      fun _ => .inl)
  | acquireStep i answer now => exact .inr (h.keeps_acquire i answer now hbefore)
  | release l =>
    right
    show Carried (s.beginRelease l) target ∨ Live (s.beginRelease l) target
    unfold BackendRegistry.beginRelease
    cases s.leases[l]? with
    | none => exact hbefore
    | some lease => exact keeps_aside hbefore (fun _ => id) (fun _ => id) fun _ => .inl
  | releaseStep i now =>
    right
    show Carried (s.releaseStep i now) target ∨ Live (s.releaseStep i now) target
    unfold BackendRegistry.releaseStep
    cases s.releasers[i]? with
    | none => exact hbefore
    | some releaser =>
      cases releaser with
      | read l =>
        dsimp only
        cases s.leases[l]? with
        | none => exact hbefore
        | some lease => exact keeps_aside hbefore (fun _ => id) (fun _ => id) fun _ => .inl
      | marked l =>
        dsimp only
        cases s.leases[l]? with
        | none => exact hbefore
        | some lease => exact keeps_release hbefore lease now _ _
      | done => exact hbefore
  | tellDirectly l now =>
    right
    show Carried (s.tellDirectly l now) target ∨ Live (s.tellDirectly l now) target
    unfold BackendRegistry.tellDirectly
    cases s.leases[l]? with
    | none => exact hbefore
    | some lease => exact keeps_release hbefore lease now _ (s.release lease now).2.releasers
  | unload name =>
    refine .inr (keeps_aside hbefore (fun _ => id) (fun _ => id) fun u hu => ?_)
    rcases List.mem_append.mp hu with hold | hnew
    · exact .inl hold
    · exact .inr (List.mem_singleton.mp hnew ▸ rfl)
  | sweep now =>
    refine .inr (keeps_aside hbefore (fun _ => id) (fun _ => id) fun u hu => ?_)
    rcases List.mem_append.mp hu with hold | hnew
    · exact .inl hold
    · exact .inr (List.mem_singleton.mp hnew ▸ rfl)
  | unloadStep i callable answer now =>
    have hskips : ∀ u, s.unloaders[i]? = some u → skips callable u.state = false := by
      intro u hget
      have hany : s.unloaders[i]?.any (fun u => skips callable u.state) = false := hdrops
      rw [hget] at hany
      exact hany
    refine (h.keeps_unload hskips answer now hbefore).imp_left ?_
    rintro ⟨u, hget, hcalled⟩
    show (s.unloaders[i]?.bind fun u => (shutdownCalled callable u.state).map
      InstanceEvent.shutDown) = _
    rw [hget]
    exact congrArg (Option.map _) hcalled

/-- What a factory returns is in the hands of the call that has called it. -/
theorem carried_of_returned {m : TracedMove} (hdrops : s.drops m = false)
    (hevent : s.instanceEvent m = some (.returned target)) : Carried (s.step m.move) target := by
  obtain ⟨move, dropped⟩ := m
  cases move with
  | acquireStep i answer now =>
    have hbind : (s.acquirers[i]?.bind fun a => (factoryReturns answer dropped a.state).map .returned) =
        some (InstanceEvent.returned target) := hevent
    obtain ⟨a, hget, hmap⟩ := Option.bind_eq_some_iff.mp hbind
    obtain ⟨target₁, hreturns, heq⟩ := Option.map_eq_some_iff.mp hmap
    obtain rfl := InstanceEvent.returned.inj heq
    have hkeeps : rejects answer dropped a.state = false := by
      have hany : s.acquirers[i]?.any (fun a => rejects answer dropped a.state) = false := hdrops
      rw [hget] at hany
      exact hany
    have hlt : i < s.acquirers.length := (List.getElem?_eq_some_iff.mp hget).1
    have hcarried : ∀ name, (s.acquireNext a answer now).1.state = .loaded name (some target₁) →
        Carried (s.acquireStep i answer now) target₁ := by
      intro name hstate
      unfold acquireStep
      rw [hget]
      dsimp only
      have hends := acquireNext_ends a answer now s
      have hsame : (s.acquireNext a answer now).2.acquirers = s.acquirers := by
        generalize s.acquireNext a answer now = out at hends ⊢
        cases hends <;> rfl
      exact ⟨_, hsame.symm ▸ List.mem_set hlt _, name, hstate⟩
    cases hstate : a.state with
    | loading name =>
      rw [hstate] at hreturns hkeeps
      cases answer with
      | returns target =>
        obtain rfl : target = some target₁ := hreturns
        refine hcarried name ?_
        unfold acquireNext
        rw [hstate]
        rfl
      | mismatches => exact absurd hkeeps (by simp [rejects])
      | raises =>
        obtain rfl : dropped = some target₁ := hreturns
        exact absurd hkeeps (by simp [rejects])
      | interrupts =>
        obtain rfl : dropped = some target₁ := hreturns
        exact absurd hkeeps (by simp [rejects])
    | _ =>
      rw [hstate] at hreturns
      exact absurd hreturns (by simp [factoryReturns])
  | unloadStep i callable answer now =>
    have hbind : (s.unloaders[i]?.bind fun u => (shutdownCalled callable u.state).map .shutDown) =
        some (InstanceEvent.returned target) := hevent
    obtain ⟨u, _, hmap⟩ := Option.bind_eq_some_iff.mp hbind
    obtain ⟨_, _, heq⟩ := Option.map_eq_some_iff.mp hmap
    exact absurd heq (by simp)
  | _ => exact absurd hevent (by simp [instanceEvent])

theorem ShutSince.append {events : List InstanceEvent} {i : ℕ} (h : ShutSince events i target)
    (more : List InstanceEvent) : ShutSince (events ++ more) i target := by
  obtain ⟨j, hlt, hj⟩ := h
  exact ⟨j, hlt, (List.getElem?_append_left (List.getElem?_eq_some_iff.mp hj).1).trans hj⟩

end Custody

theorem Custody.nil : Custody {} := ⟨.nil, fun _ _ h => absurd h (by simp)⟩

/-- A step that leaves no instance behind keeps every instance in somebody's hands. -/
theorem Custody.step {s : TracedRegistry} (h : Custody s) {m : TracedMove}
    (hdrops : s.registry.drops m = false) : Custody (s.step m) where
  staged := h.staged.step m.move
  kept := by
    intro i target hget
    have hget : (s.events ++ (s.registry.instanceEvent m).toList)[i]? = some (.returned target) := hget
    show ShutSince (s.events ++ (s.registry.instanceEvent m).toList) i target ∨ _
    by_cases hlt : i < s.events.length
    · rw [List.getElem?_append_left hlt] at hget
      rcases h.kept i target hget with hshut | hheld
      · exact .inl (hshut.append _)
      · refine (h.staged.keeps m hdrops hheld).imp_left fun hevent => ?_
        refine ⟨s.events.length, hlt, ?_⟩
        rw [hevent, List.getElem?_append_right (Nat.le_refl _), Nat.sub_self]
        rfl
    · rw [List.getElem?_append_right (not_lt.mp hlt)] at hget
      have hevent := Option.mem_toList.mp (List.mem_of_getElem? hget)
      exact .inr (.inl (carried_of_returned hdrops hevent))

theorem Custody.run {s : TracedRegistry} (h : Custody s) {moves : List TracedMove}
    (hundropped : Undropped s.registry moves) :
    Custody (moves.foldl TracedRegistry.step s) := by
  induction moves generalizing s with
  | nil => exact h
  | cons m moves ih => exact ih (h.step hundropped.1) hundropped.2

theorem Custody.noneLost {s : TracedRegistry} (h : Custody s) : NoneLost s := by
  intro i target hget
  refine (h.kept i target hget).imp_right (Or.imp_right ?_)
  rintro ⟨name, hholds, _⟩
  exact ⟨name, hholds⟩

/-- No instance is lost, and the call that carries one enters it in its next step. -/
theorem none_lost (moves : List TracedMove) (h : Undropped {} moves) :
    NoneLost (.run moves) ∧
      ∀ i a name target answer now, (TracedRegistry.run moves).registry.acquirers[i]? = some a →
        a.state = .loaded name (some target) →
          Holds ((TracedRegistry.run moves).registry.acquireStep i answer now).entries target
            name := by
  have hcustody := Custody.nil.run h
  refine ⟨hcustody.noneLost, fun i a name target answer now hget hstate => ?_⟩
  obtain ⟨entry, _, _, hset⟩ := hcustody.staged.enters hget hstate answer now
  exact ⟨_, hset, rfl, .inl rfl⟩

def sampleReloads : List TracedMove := sampleReloaded.map fun move => { move := move }

/-- The backend is loaded, unloaded and loaded again. -/
theorem none_lost_reloaded :
    NoneLost (.run sampleReloads) ∧
      ∀ i a name target answer now,
        (TracedRegistry.run sampleReloads).registry.acquirers[i]? = some a →
          a.state = .loaded name (some target) →
            Holds ((TracedRegistry.run sampleReloads).registry.acquireStep i answer now).entries
              target name :=
  none_lost sampleReloads (by decide +kernel)

/-- The instance that is loaded has other capabilities than its descriptor. -/
def sampleMismatch : List TracedMove :=
  [{ move := .register sampleDescriptor 0 }, { move := .acquire sampleRequirements },
    { move := .acquireStep 0 .interrupts 0 },
    { move := .acquireStep 0 (.mismatches (py "'managed'")) 1, dropped := some 7 },
    { move := .acquireStep 0 .interrupts 1 }, { move := .acquireStep 0 .interrupts 1 }]

theorem none_lost_mismatch : ¬ NoneLost (.run sampleMismatch) := by
  intro h
  have hevents : (TracedRegistry.run sampleMismatch).events = [.returned 7] := by decide +kernel
  have hacquirers : ((TracedRegistry.run sampleMismatch).registry.acquirers.all fun a =>
      match a.state with
      | .raised _ => true
      | _ => false) = true := by decide +kernel
  have hentries : (TracedRegistry.run sampleMismatch).registry.entries.values.map Entry.target =
      [none] := by decide +kernel
  have hreturned : (TracedRegistry.run sampleMismatch).events[0]? = some (.returned 7) := by
    rw [hevents]
    rfl
  rcases h 0 7 hreturned with ⟨j, hlt, hj⟩ | ⟨a, hmem, name, hstate⟩ | ⟨name, entry, hget, htarget, _⟩
  · have hone : j < 1 := by
      have := (List.getElem?_eq_some_iff.mp hj).1
      rwa [hevents] at this
    omega
  · have hraised := List.all_eq_true.mp hacquirers a hmem
    rw [hstate] at hraised
    exact absurd hraised (by simp)
  · have hin := List.mem_map_of_mem (f := Entry.target)
      (List.mem_map_of_mem (f := Prod.snd) (Dict.mem_items_iff.mpr hget))
    have hnone : entry.target ∈ [none] := hentries ▸ hin
    rw [htarget] at hnone
    exact absurd hnone (by simp)

end Inference.BackendRegistry
