/-
When a sweep unloads a backend.

A sweep reads the clock, chooses the idle backends in one section, and moves each of them to
DRAINING in a later one.  In between other calls may lease a backend, or unload it and fail.

* `WatchedRegistry` — the registry, with what was written since each sweep has chosen;
* `Rewrites`, `step_rewrites` — the one `last_used` that a section writes;
* `Chosen` — what a sweep still knows of the backends it has chosen;
* `keepalive_honoured_iff` — which runs unload nothing before its time.
-/
import LlamaRuntime.Inference.BackendLedger

namespace Inference.BackendRegistry

variable {s : BackendRegistry}

/-! ### What a section writes -/

def acquireWrites (s : BackendRegistry) (a : Acquirer) (now : ℚ) : Option (PyStr × ℚ) :=
  match a.state with
  | .trying =>
    a.names.head?.bind fun name =>
      if (s.entries.get? name).any fun e => e.lifecycle = .READY && e.target.isSome then
        some (name, now)
      else none
  | .loaded name _ => some (name, now)
  | _ => none

def releaseWrites (s : BackendRegistry) (l : ℕ) (now : ℚ) : Option (PyStr × ℚ) :=
  s.leases[l]?.bind fun lease => if (s.release lease now).1 then some (lease.name, now) else none

def unloadWrites (u : Unloader) (now : ℚ) : Option (PyStr × ℚ) :=
  match u.state with
  | .stopped name _ => some (name, now)
  | _ => none

/-- The backend whose `last_used` the step writes, with the clock as it reads it. -/
def writes (s : BackendRegistry) : RegistryMove → Option (PyStr × ℚ)
  | .acquireStep i _ now => s.acquirers[i]?.bind fun a => s.acquireWrites a now
  | .releaseStep i now =>
    match s.releasers[i]? with
    | some (.marked l) => s.releaseWrites l now
    | _ => none
  | .tellDirectly l now => s.releaseWrites l now
  | .unloadStep i _ _ now => s.unloaders[i]?.bind fun u => unloadWrites u now
  | _ => none

/-- A sweep that has chosen its backends. -/
structure Sweep where
  /-- the clock as the sweep has read it -/
  now : ℚ
  /-- history: what was written since, the latest first -/
  written : List (PyStr × ℚ) := []
  deriving DecidableEq

structure WatchedRegistry where
  registry : BackendRegistry := {}
  /-- for each unloader the sweep it is the loop of; `none` for a call of `unload` -/
  sweeps : List (Option Sweep) := []

namespace WatchedRegistry

def step (w : WatchedRegistry) (m : RegistryMove) : WatchedRegistry :=
  let sweeps := w.sweeps.map fun sweep => sweep.map fun sweep =>
    { sweep with written := (w.registry.writes m).toList ++ sweep.written }
  { registry := w.registry.step m
    sweeps :=
      match m with
      | .unload _ => sweeps ++ [none]
      | .sweep now => sweeps ++ [some { now }]
      | _ => sweeps }

def run (moves : List RegistryMove) : WatchedRegistry := moves.foldl step {}

/-- The step moves the backend to DRAINING. -/
def MovesToDraining (s : BackendRegistry) (m : RegistryMove) (name : PyStr) (entry : Entry) : Prop :=
  s.entries.get? name = some entry ∧ entry.lifecycle ≠ .DRAINING ∧
    ∃ entry', (s.step m).entries.get? name = some entry' ∧ entry'.lifecycle = .DRAINING

/-- What a sweep moves to DRAINING in this step is not leased, and has not been used for
its keepalive. -/
def HonoursKeepalive (w : WatchedRegistry) (m : RegistryMove) : Prop :=
  ∀ i callable answer now sweep name entry, m = .unloadStep i callable answer now →
    w.sweeps[i]? = some (some sweep) → MovesToDraining w.registry m name entry →
      entry.activeLeases = 0 ∧ entry.descriptor.keepaliveSeconds ≤ sweep.now - entry.lastUsed

/-- Where a sweep comes to a backend that can be unloaded, the last section that has written
its `last_used` since the sweep chose, if there is one, has read a clock that is behind that
of the sweep by the keepalive. -/
def Unrefreshed (w : WatchedRegistry) (m : RegistryMove) : Prop :=
  ∀ i callable answer now sweep u name entry reading, m = .unloadStep i callable answer now →
    w.sweeps[i]? = some (some sweep) → w.registry.unloaders[i]? = some u →
    u.state = .checking → u.names.head? = some name →
    w.registry.entries.get? name = some entry → entry.activeLeases = 0 →
    entry.lifecycle = .READY ∨ entry.lifecycle = .FAILED →
    Items.lookup name sweep.written = some reading →
      entry.descriptor.keepaliveSeconds ≤ sweep.now - reading

end WatchedRegistry

/-! ### Entries and their times -/

/-- The time of a backend after a write. -/
def timeAfter (written : Option (PyStr × ℚ)) (name : PyStr) (lastUsed : ℚ) : ℚ :=
  match written with
  | some (name', reading) => if name' = name then reading else lastUsed
  | none => lastUsed

/-- The entries keep their descriptors, and their times but for the one that is written. -/
structure Rewrites (entries entries' : Dict PyStr Entry) (written : Option (PyStr × ℚ)) : Prop where
  kept : ∀ name entry, entries.get? name = some entry → ∃ entry', entries'.get? name = some entry' ∧
    entry'.descriptor = entry.descriptor ∧
    entry'.lastUsed = timeAfter written name entry.lastUsed
  named : (∀ name entry, entries.get? name = some entry → entry.descriptor.name = name) →
    ∀ name entry, entries'.get? name = some entry → entry.descriptor.name = name

section Rewrites

variable {entries : Dict PyStr Entry} {name : PyStr} {entry entry' : Entry}

theorem rewrites_refl (entries : Dict PyStr Entry) : Rewrites entries entries none :=
  ⟨fun _ entry h => ⟨entry, h, rfl, rfl⟩, id⟩

/-- An entry changes, and its time is the one that is written, if any is. -/
theorem rewrites_set (hget : entries.get? name = some entry)
    (hdescriptor : entry'.descriptor = entry.descriptor) {written : Option (PyStr × ℚ)}
    (htime : written = some (name, entry'.lastUsed) ∨
      written = none ∧ entry'.lastUsed = entry.lastUsed) :
    Rewrites entries (entries.set name entry') written := by
  refine ⟨fun name₁ entry₁ h => ?_, fun hnamed name₁ entry₁ h => ?_⟩
  · by_cases heq : name = name₁
    · subst heq
      obtain rfl := Option.some_inj.mp (hget.symm.trans h)
      refine ⟨entry', Dict.get?_set_self, hdescriptor, ?_⟩
      rcases htime with rfl | ⟨rfl, hsame⟩
      · exact (if_pos rfl).symm
      · exact hsame
    · refine ⟨entry₁, (Dict.get?_set_ne heq).trans h, rfl, ?_⟩
      rcases htime with rfl | ⟨rfl, -⟩
      · exact (if_neg heq).symm
      · rfl
  · rcases set_cases h with ⟨rfl, rfl⟩ | ⟨-, hold⟩
    · rw [hdescriptor]
      exact hnamed name entry hget
    · exact hnamed name₁ entry₁ hold

/-- What is written to a backend that is not there is not written at all. -/
theorem rewrites_missing {reading : ℚ} (h : entries.get? name = none) :
    Rewrites entries entries (some (name, reading)) := by
  refine ⟨fun name₁ entry₁ h₁ => ⟨entry₁, h₁, rfl, ?_⟩, id⟩
  have hne : name ≠ name₁ := by
    rintro rfl
    rw [h] at h₁
    exact nomatch h₁
  exact (if_neg hne).symm

end Rewrites

theorem acquireNext_rewrites (a : Acquirer) (answer : FactoryAnswer) (now : ℚ)
    (s : BackendRegistry) :
    Rewrites s.entries (s.acquireNext a answer now).2.entries (s.acquireWrites a now) := by
  unfold acquireNext acquireWrites
  cases a.state with
  | trying =>
    dsimp only
    cases a.names with
    | nil => exact rewrites_refl _
    | cons name names =>
      rw [List.head?_cons, Option.bind_some]
      dsimp only
      unfold tryName
      cases hget : s.entries.get? name with
      | none => exact rewrites_refl _
      | some entry =>
        obtain ⟨descriptor, lifecycle, generation, target, activeLeases, lastUsed, failure⟩ := entry
        cases lifecycle with
        | LOADING => exact rewrites_refl _
        | DRAINING => exact rewrites_refl _
        | READY =>
          cases target with
          | none => exact rewrites_refl _
          | some target => exact rewrites_set hget (by rfl) (.inl (by rfl))
        | UNLOADED => exact rewrites_set hget (by rfl) (.inr ⟨rfl, by rfl⟩)
        | FAILED => exact rewrites_set hget (by rfl) (.inr ⟨rfl, by rfl⟩)
  | loaded name target =>
    dsimp only
    unfold enterInstance
    cases hget : s.entries.get? name with
    | none => exact rewrites_missing hget
    | some entry => exact rewrites_set hget (by rfl) (.inl (by rfl))
  | failed name failure code =>
    dsimp only
    unfold enterFailure
    cases hget : s.entries.get? name with
    | none => exact rewrites_refl _
    | some entry => exact rewrites_set hget (by rfl) (.inr ⟨rfl, by rfl⟩)
  | _ => exact rewrites_refl _

theorem release_rewrites (lease : BackendLease) (now : ℚ) (s : BackendRegistry) :
    Rewrites s.entries (s.release lease now).2.entries
      (if (s.release lease now).1 then some (lease.name, now) else none) := by
  have hrefuses (h : s.release lease now = (false, s)) : Rewrites s.entries
      (s.release lease now).2.entries
      (if (s.release lease now).1 then some (lease.name, now) else none) := by
    rw [h]
    exact rewrites_refl _
  cases hget : s.entries.get? lease.name with
  | none => exact hrefuses (by rw [BackendRegistry.release, hget])
  | some entry =>
    by_cases hrefused : entry.generation ≠ lease.generation ∨ entry.activeLeases = 0
    · refine hrefuses ?_
      rw [BackendRegistry.release, hget]
      exact if_pos hrefused
    · have hrelease : s.release lease now = (true, s.setEntry lease.name { entry with
          activeLeases := entry.activeLeases - 1, lastUsed := now }) := by
        rw [BackendRegistry.release, hget]
        exact if_neg hrefused
      rw [hrelease]
      exact rewrites_set hget (by rfl) (.inl (by rfl))

theorem tell_rewrites (l : ℕ) {lease : BackendLease} (hlease : s.leases[l]? = some lease) (now : ℚ) :
    Rewrites s.entries (s.tell l lease now).2.entries (s.releaseWrites l now) := by
  unfold releaseWrites
  rw [hlease]
  exact release_rewrites lease now s

theorem unloadNext_rewrites (u : Unloader) (callable : Bool) (answer : ShutdownAnswer) (now : ℚ)
    (s : BackendRegistry) :
    Rewrites s.entries (s.unloadNext u callable answer now).2.entries (unloadWrites u now) := by
  unfold unloadNext unloadWrites
  cases u.state with
  | checking =>
    dsimp only
    cases u.names with
    | nil => exact rewrites_refl _
    | cons name names =>
      dsimp only
      unfold beginUnload
      cases hget : s.entries.get? name with
      | none => exact rewrites_refl _
      | some entry =>
        dsimp only
        split_ifs
        · exact rewrites_refl _
        · exact rewrites_refl _
        · exact rewrites_refl _
        · exact rewrites_set hget (by rfl) (.inr ⟨rfl, by rfl⟩)
  | draining name target => cases target <;> exact rewrites_refl _
  | stopped name succeeded =>
    dsimp only
    unfold endUnload
    cases hget : s.entries.get? name with
    | none => exact rewrites_missing hget
    | some entry => exact rewrites_set hget (by rfl) (.inl (by rfl))
  | _ => exact rewrites_refl _

/-- A step writes the time of the one backend that `writes` names. -/
theorem step_rewrites (s : BackendRegistry) (m : RegistryMove) :
    Rewrites s.entries (s.step m).entries (s.writes m) := by
  cases m with
  | register descriptor now =>
    show Rewrites s.entries (s.register descriptor now).2.entries none
    unfold BackendRegistry.register
    by_cases hthere : s.entries.contains descriptor.name = true
    · rw [if_pos hthere]
      exact rewrites_refl _
    rw [if_neg hthere]
    refine ⟨fun name entry hget => ⟨entry, ?_, rfl, rfl⟩, fun hnamed name entry hget => ?_⟩
    · refine (Dict.get?_set_ne ?_).trans hget
      rintro rfl
      exact hthere (Dict.contains_iff.mpr (Dict.mem_keys_iff.mpr ⟨entry, hget⟩))
    · rcases set_cases hget with ⟨rfl, rfl⟩ | ⟨-, hold⟩
      · rfl
      · exact hnamed name entry hold
  | acquireStep i answer now =>
    show Rewrites s.entries (s.acquireStep i answer now).entries
      (s.acquirers[i]?.bind fun a => s.acquireWrites a now)
    unfold BackendRegistry.acquireStep
    cases s.acquirers[i]? with
    | none => exact rewrites_refl _
    | some a => exact acquireNext_rewrites a answer now s
  | release l =>
    show Rewrites s.entries (s.beginRelease l).entries none
    unfold BackendRegistry.beginRelease
    cases s.leases[l]? <;> exact rewrites_refl _
  | releaseStep i now =>
    show Rewrites s.entries (s.releaseStep i now).entries (match s.releasers[i]? with
      | some (.marked l) => s.releaseWrites l now
      | _ => none)
    unfold BackendRegistry.releaseStep
    cases s.releasers[i]? with
    | none => exact rewrites_refl _
    | some releaser =>
      cases releaser with
      | read l =>
        dsimp only
        cases s.leases[l]? <;> exact rewrites_refl _
      | marked l =>
        dsimp only
        cases hlease : s.leases[l]? with
        | none =>
          rw [releaseWrites, hlease]
          exact rewrites_refl _
        | some lease => exact tell_rewrites l hlease now
      | done => exact rewrites_refl _
  | tellDirectly l now =>
    show Rewrites s.entries (s.tellDirectly l now).entries (s.releaseWrites l now)
    unfold BackendRegistry.tellDirectly
    cases hlease : s.leases[l]? with
    | none =>
      rw [releaseWrites, hlease]
      exact rewrites_refl _
    | some lease => exact tell_rewrites l hlease now
  | unloadStep i callable answer now =>
    show Rewrites s.entries (s.unloadStep i callable answer now).entries
      (s.unloaders[i]?.bind fun u => unloadWrites u now)
    unfold BackendRegistry.unloadStep
    cases s.unloaders[i]? with
    | none => exact rewrites_refl _
    | some u => exact unloadNext_rewrites u callable answer now s
  | _ => exact rewrites_refl _

/-! ### The calls that unload -/

theorem replied_names (u : Unloader) (reply : Except BackendRegistryError Bool) :
    (replied u reply).names = u.names := rfl

theorem beginUnload_names (u : Unloader) (name : PyStr) (s : BackendRegistry) :
    (s.beginUnload u name).1.names = u.names := by
  unfold beginUnload
  cases s.entries.get? name with
  | none => rfl
  | some entry =>
    dsimp only
    split_ifs <;> rfl

theorem endUnload_names (u : Unloader) (name : PyStr) (succeeded : Bool) (now : ℚ)
    (s : BackendRegistry) : (s.endUnload u name succeeded now).1.names = u.names := by
  unfold endUnload
  cases s.entries.get? name <;> rfl

/-- The backends that are left become fewer. -/
theorem unloadNext_names (u : Unloader) (callable : Bool) (answer : ShutdownAnswer) (now : ℚ)
    (s : BackendRegistry) : (s.unloadNext u callable answer now).1.names ⊆ u.names := by
  unfold unloadNext
  cases u.state with
  | checking =>
    dsimp only
    cases hnames : u.names with
    | nil =>
      dsimp only
      rw [hnames]
      exact fun _ => id
    | cons name names =>
      dsimp only
      rw [beginUnload_names]
      exact List.subset_cons_self name names
  | draining name target => cases target <;> exact fun _ => id
  | stopped name succeeded =>
    dsimp only
    rw [endUnload_names]
    exact fun _ => id
  | _ => exact fun _ => id

theorem release_unloaders (lease : BackendLease) (now : ℚ) (s : BackendRegistry) :
    (s.release lease now).2.unloaders = s.unloaders := by
  unfold BackendRegistry.release
  cases s.entries.get? lease.name with
  | none => rfl
  | some entry =>
    dsimp only
    split_ifs <;> rfl

/-- What a step does with the calls that unload: one goes on, or one begins. -/
inductive UnloadersAfter (s : BackendRegistry) : RegistryMove → List Unloader → Prop where
  | kept (m : RegistryMove) (others : (∀ name, m ≠ .unload name) ∧ ∀ now, m ≠ .sweep now) :
      UnloadersAfter s m s.unloaders
  | goes (i : ℕ) (callable : Bool) (answer : ShutdownAnswer) (now : ℚ) (u u' : Unloader)
      (get : s.unloaders[i]? = some u) (names : u'.names ⊆ u.names) :
      UnloadersAfter s (.unloadStep i callable answer now) (s.unloaders.set i u')
  | unloads (name : PyStr) : UnloadersAfter s (.unload name) (s.unloaders ++ [{ names := [name] }])
  | sweeps (now : ℚ) :
      UnloadersAfter s (.sweep now) (s.unloaders ++ [{ names := s.sweepTargets now }])

theorem step_unloaders (s : BackendRegistry) (m : RegistryMove) :
    UnloadersAfter s m (s.step m).unloaders := by
  have hkept (m : RegistryMove) (others : (∀ name, m ≠ .unload name) ∧ ∀ now, m ≠ .sweep now)
      (hsame : (s.step m).unloaders = s.unloaders) : UnloadersAfter s m (s.step m).unloaders := by
    rw [hsame]
    exact .kept m others
  cases m with
  | register descriptor now =>
    refine hkept _ ⟨nofun, nofun⟩ ?_
    show (s.register descriptor now).2.unloaders = _
    unfold BackendRegistry.register
    split_ifs <;> rfl
  | acquire requirements => exact hkept _ ⟨nofun, nofun⟩ rfl
  | acquireStep i answer now =>
    refine hkept _ ⟨nofun, nofun⟩ ?_
    show (s.acquireStep i answer now).unloaders = _
    unfold BackendRegistry.acquireStep
    cases s.acquirers[i]? with
    | none => rfl
    | some a =>
      dsimp only
      have hends := acquireNext_ends a answer now s
      generalize s.acquireNext a answer now = out at hends ⊢
      cases hends <;> rfl
  | release l =>
    refine hkept _ ⟨nofun, nofun⟩ ?_
    show (s.beginRelease l).unloaders = _
    unfold BackendRegistry.beginRelease
    cases s.leases[l]? <;> rfl
  | releaseStep i now =>
    refine hkept _ ⟨nofun, nofun⟩ ?_
    show (s.releaseStep i now).unloaders = _
    unfold BackendRegistry.releaseStep
    cases s.releasers[i]? with
    | none => rfl
    | some releaser =>
      cases releaser with
      | read l =>
        dsimp only
        cases s.leases[l]? <;> rfl
      | marked l =>
        dsimp only
        cases s.leases[l]? with
        | none => rfl
        | some lease => exact release_unloaders lease now s
      | done => rfl
  | tellDirectly l now =>
    refine hkept _ ⟨nofun, nofun⟩ ?_
    show (s.tellDirectly l now).unloaders = _
    unfold BackendRegistry.tellDirectly
    cases s.leases[l]? with
    | none => rfl
    | some lease => exact release_unloaders lease now s
  | unload name => exact .unloads name
  | sweep now => exact .sweeps now
  | unloadStep i callable answer now =>
    cases hget : s.unloaders[i]? with
    | none =>
      refine hkept _ ⟨nofun, nofun⟩ ?_
      show (s.unloadStep i callable answer now).unloaders = _
      rw [BackendRegistry.unloadStep, hget]
    | some u =>
      have hends := unloadNext_ends u callable answer now s
      have hsame : (s.unloadNext u callable answer now).2.unloaders = s.unloaders := by
        generalize s.unloadNext u callable answer now = out at hends ⊢
        cases hends <;> rfl
      have hstep : (s.step (.unloadStep i callable answer now)).unloaders =
          s.unloaders.set i (s.unloadNext u callable answer now).1 := by
        show (s.unloadStep i callable answer now).unloaders = _
        rw [BackendRegistry.unloadStep, hget]
        show (s.unloadNext u callable answer now).2.unloaders.set i _ = _
        rw [hsame]
      rw [hstep]
      exact .goes i callable answer now u _ hget (unloadNext_names u callable answer now s)

/-- What a sweep chooses has been idle for its keepalive. -/
theorem mem_sweepTargets {now : ℚ} {name : PyStr}
    (hnamed : ∀ name entry, s.entries.get? name = some entry → entry.descriptor.name = name)
    (h : name ∈ s.sweepTargets now) : ∃ entry, s.entries.get? name = some entry ∧
      entry.descriptor.keepaliveSeconds ≤ now - entry.lastUsed := by
  obtain ⟨entry, hentry, rfl⟩ := List.mem_map.mp h
  obtain ⟨hvalue, hidle⟩ := List.mem_filter.mp hentry
  obtain ⟨⟨key, entry'⟩, hitem, rfl⟩ := List.mem_map.mp hvalue
  have hget := Dict.mem_items_iff.mp hitem
  refine ⟨entry', ?_, ?_⟩
  · rw [hnamed key entry' hget]
    exact hget
  · have hlate := (Bool.and_eq_true_iff.mp hidle).2
    exact of_decide_eq_true hlate

/-! ### What a sweep still knows -/

namespace WatchedRegistry

/-- The backend has been written since the sweep chose it, or is as idle as it was. -/
def Known (sweep : Sweep) (name : PyStr) (entry : Entry) : Prop :=
  match Items.lookup name sweep.written with
  | some reading => entry.lastUsed = reading
  | none => entry.descriptor.keepaliveSeconds ≤ sweep.now - entry.lastUsed

structure Chosen (w : WatchedRegistry) : Prop where
  named : ∀ name entry, w.registry.entries.get? name = some entry → entry.descriptor.name = name
  length : w.sweeps.length = w.registry.unloaders.length
  known : ∀ (i : ℕ) u sweep, w.registry.unloaders[i]? = some u → w.sweeps[i]? = some (some sweep) →
    ∀ name ∈ u.names, ∃ entry, w.registry.entries.get? name = some entry ∧ Known sweep name entry

/-- A write is known. -/
theorem Known.rewrite {sweep : Sweep} {name : PyStr} {entry entry' : Entry}
    (h : Known sweep name entry) {written : Option (PyStr × ℚ)}
    (hdescriptor : entry'.descriptor = entry.descriptor)
    (htime : entry'.lastUsed = timeAfter written name entry.lastUsed) :
    Known { sweep with written := written.toList ++ sweep.written } name entry' := by
  unfold Known at h ⊢
  cases written with
  | none =>
    rw [hdescriptor, htime]
    exact h
  | some p =>
    obtain ⟨name', reading⟩ := p
    show match Items.lookup name ((name', reading) :: sweep.written) with
      | some reading => entry'.lastUsed = reading
      | none => _
    rw [Items.lookup_cons]
    by_cases heq : name' = name
    · rw [if_pos heq]
      exact htime.trans (if_pos heq)
    · rw [if_neg heq, hdescriptor, htime.trans (if_neg heq)]
      exact h

theorem step_sweeps (w : WatchedRegistry) {m : RegistryMove}
    (others : (∀ name, m ≠ .unload name) ∧ ∀ now, m ≠ .sweep now) :
    (w.step m).sweeps = w.sweeps.map fun sweep => sweep.map fun sweep =>
      { sweep with written := (w.registry.writes m).toList ++ sweep.written } := by
  cases m with
  | unload name => exact absurd rfl (others.1 name)
  | sweep now => exact absurd rfl (others.2 now)
  | _ => rfl

theorem Chosen.step {w : WatchedRegistry} (h : Chosen w) (m : RegistryMove) : Chosen (w.step m) := by
  have hrewrites := step_rewrites w.registry m
  have hunloaders := step_unloaders w.registry m
  -- what was known of a sweep that goes on is known after the step
  have hold : ∀ (i : ℕ) u sweep', w.registry.unloaders[i]? = some u →
      (w.sweeps.map fun sweep => sweep.map fun sweep =>
        { sweep with written := (w.registry.writes m).toList ++ sweep.written })[i]? =
          some (some sweep') → ∀ name ∈ u.names,
      ∃ entry, (w.registry.step m).entries.get? name = some entry ∧ Known sweep' name entry := by
    intro i u sweep' hget hsweep name hname
    rw [List.getElem?_map, Option.map_eq_some_iff] at hsweep
    obtain ⟨known, hknown, hsweep⟩ := hsweep
    obtain ⟨sweep, rfl, rfl⟩ := Option.map_eq_some_iff.mp hsweep
    obtain ⟨entry, hentry, hbefore⟩ := h.known i u sweep hget hknown name hname
    obtain ⟨entry', hentry', hdescriptor, htime⟩ := hrewrites.kept name entry hentry
    exact ⟨entry', hentry', hbefore.rewrite hdescriptor htime⟩
  refine ⟨hrewrites.named h.named, ?_, ?_⟩
  · show _ = (w.registry.step m).unloaders.length
    generalize (w.registry.step m).unloaders = unloaders at hunloaders
    cases hunloaders with
    | kept m others =>
      rw [step_sweeps w others, List.length_map]
      exact h.length
    | goes i callable answer now u u' get names =>
      rw [List.length_set, ← h.length]
      exact List.length_map ..
    | unloads name =>
      rw [List.length_append, ← h.length]
      exact (List.length_append ..).trans (congrArg (· + 1) (List.length_map ..))
    | sweeps now =>
      rw [List.length_append, ← h.length]
      exact (List.length_append ..).trans (congrArg (· + 1) (List.length_map ..))
  · show ∀ (i : ℕ) u sweep, (w.registry.step m).unloaders[i]? = some u → _
    generalize hstep : (w.registry.step m).unloaders = unloaders at hunloaders
    intro i u sweep' hget hsweep
    have hlength (sweep : Option Sweep → Option Sweep) (i : ℕ) :
        i < (w.sweeps.map sweep).length ↔ i < w.registry.unloaders.length := by
      rw [List.length_map, h.length]
    cases hunloaders with
    | kept m others =>
      rw [step_sweeps w others] at hsweep
      exact hold i u sweep' hget hsweep
    | goes j callable answer now u₀ u' get names =>
      rcases get_set get hget with ⟨rfl, rfl⟩ | ⟨-, hbefore⟩
      · exact fun name hname => hold j u₀ sweep' get hsweep name (names hname)
      · exact hold i u sweep' hbefore hsweep
    | unloads name =>
      have hsweeps : (w.step (.unload name)).sweeps =
          w.sweeps.map (Option.map fun sweep => { sweep with
            written := (w.registry.writes (.unload name)).toList ++ sweep.written }) ++ [none] := rfl
      rw [hsweeps] at hsweep
      by_cases hi : i < w.registry.unloaders.length
      · rw [List.getElem?_append_left hi] at hget
        rw [List.getElem?_append_left ((hlength _ i).mpr hi)] at hsweep
        exact hold i u sweep' hget hsweep
      · rw [List.getElem?_append_right (not_lt.mp (mt (hlength _ i).mp hi))] at hsweep
        exact nomatch List.mem_singleton.mp (List.mem_of_getElem? hsweep)
    | sweeps now =>
      have hsweeps : (w.step (.sweep now)).sweeps =
          w.sweeps.map (Option.map fun sweep => { sweep with
            written := (w.registry.writes (.sweep now)).toList ++ sweep.written }) ++
              [some { now := now }] := rfl
      rw [hsweeps] at hsweep
      by_cases hi : i < w.registry.unloaders.length
      · rw [List.getElem?_append_left hi] at hget
        rw [List.getElem?_append_left ((hlength _ i).mpr hi)] at hsweep
        exact hold i u sweep' hget hsweep
      · rw [List.getElem?_append_right (not_lt.mp hi)] at hget
        rw [List.getElem?_append_right (not_lt.mp (mt (hlength _ i).mp hi))] at hsweep
        obtain rfl := List.mem_singleton.mp (List.mem_of_getElem? hget)
        have hnew := List.mem_singleton.mp (List.mem_of_getElem? hsweep)
        obtain rfl := Option.some_inj.mp hnew
        exact fun name hname => mem_sweepTargets h.named hname

theorem Chosen.run (moves : List RegistryMove) : Chosen (run moves) := by
  have hfold : ∀ {w : WatchedRegistry}, Chosen w → Chosen (moves.foldl WatchedRegistry.step w) := by
    induction moves with
    | nil => exact fun h => h
    | cons m rest ih => exact fun h => ih (h.step m)
  refine hfold ⟨fun _ _ h => ?_, rfl, fun _ _ _ h => ?_⟩
  · exact absurd h (by simp)
  · exact absurd h (by simp)

/-- Where `unload` moves a backend to DRAINING. -/
theorem beginUnload_draining {s : BackendRegistry} {u : Unloader} {name name' : PyStr}
    {entry : Entry} (hget : s.entries.get? name = some entry) (hbefore : entry.lifecycle ≠ .DRAINING) :
    (∃ entry', (s.beginUnload u name').2.entries.get? name = some entry' ∧
      entry'.lifecycle = .DRAINING) ↔
      name' = name ∧ entry.activeLeases = 0 ∧
        (entry.lifecycle = .READY ∨ entry.lifecycle = .FAILED) := by
  have hkept (h : (s.beginUnload u name').2 = s) : ¬ ∃ entry',
      (s.beginUnload u name').2.entries.get? name = some entry' ∧ entry'.lifecycle = .DRAINING := by
    rw [h]
    rintro ⟨entry', hget', hdraining⟩
    obtain rfl := Option.some_inj.mp (hget.symm.trans hget')
    exact hbefore hdraining
  cases hget' : s.entries.get? name' with
  | none =>
    refine iff_of_false (hkept (by rw [beginUnload, hget'])) ?_
    rintro ⟨rfl, -⟩
    rw [hget] at hget'
    exact nomatch hget'
  | some entry' =>
    by_cases hfree : entry'.lifecycle ≠ .UNLOADED ∧ entry'.activeLeases = 0 ∧
        (entry'.lifecycle = .READY ∨ entry'.lifecycle = .FAILED)
    · obtain ⟨hloaded, hidle, hstate⟩ := hfree
      have hbegin : (s.beginUnload u name').2 =
          s.setEntry name' { entry' with lifecycle := .DRAINING } := by
        rw [beginUnload, hget']
        dsimp only
        have hfree : ¬ (entry'.lifecycle ≠ .READY ∧ entry'.lifecycle ≠ .FAILED) := by
          rw [← not_or]
          exact not_not_intro hstate
        rw [if_neg hloaded, if_neg (not_not_intro hidle), if_neg hfree]
      rw [hbegin]
      constructor
      · rintro ⟨after, hafter, hdraining⟩
        rcases set_cases hafter with ⟨rfl, -⟩ | ⟨-, hold⟩
        · obtain rfl := Option.some_inj.mp (hget.symm.trans hget')
          exact ⟨rfl, hidle, hstate⟩
        · obtain rfl := Option.some_inj.mp (hget.symm.trans hold)
          exact absurd hdraining hbefore
      · rintro ⟨rfl, -⟩
        exact ⟨_, Dict.get?_set_self, rfl⟩
    · have hsame : (s.beginUnload u name').2 = s := by
        rw [beginUnload, hget']
        dsimp only
        by_cases hloaded : entry'.lifecycle = .UNLOADED
        · rw [if_pos hloaded]
        rw [if_neg hloaded]
        by_cases hidle : entry'.activeLeases ≠ 0
        · rw [if_pos hidle]
        rw [if_neg hidle, if_pos]
        rw [← not_or]
        exact fun hstate => hfree ⟨hloaded, not_not.mp hidle, hstate⟩
      refine iff_of_false (hkept hsame) ?_
      rintro ⟨rfl, hidle, hstate⟩
      obtain rfl := Option.some_inj.mp (hget.symm.trans hget')
      refine hfree ⟨?_, hidle, hstate⟩
      rcases hstate with h | h <;> rw [h] <;> nofun

/-- What an unload moves to DRAINING: the first backend that is left, if nothing keeps it. -/
theorem movesToDraining_iff {s : BackendRegistry} {i : ℕ} {callable : Bool} {answer : ShutdownAnswer}
    {now : ℚ} {u : Unloader} (hget : s.unloaders[i]? = some u) {name : PyStr} {entry : Entry} :
    MovesToDraining s (.unloadStep i callable answer now) name entry ↔
      u.state = .checking ∧ u.names.head? = some name ∧ s.entries.get? name = some entry ∧
        entry.activeLeases = 0 ∧ (entry.lifecycle = .READY ∨ entry.lifecycle = .FAILED) := by
  have hstep : (s.step (.unloadStep i callable answer now)).entries =
      (s.unloadNext u callable answer now).2.entries := by
    show (s.unloadStep i callable answer now).entries = _
    rw [BackendRegistry.unloadStep, hget]
  have hkept (h : (s.unloadNext u callable answer now).2 = s) :
      ¬ MovesToDraining s (.unloadStep i callable answer now) name entry := by
    rintro ⟨hentry, hbefore, entry', hget', hdraining⟩
    rw [hstep, h] at hget'
    obtain rfl := Option.some_inj.mp (hentry.symm.trans hget')
    exact hbefore hdraining
  cases hstate : u.state with
  | checking =>
    cases hnames : u.names with
    | nil =>
      refine iff_of_false (hkept (by rw [unloadNext, hstate, hnames])) ?_
      rintro ⟨-, hhead, -⟩
      exact nomatch hhead
    | cons name' names =>
      have hnext : (s.unloadNext u callable answer now).2 =
          (s.beginUnload { u with names := names } name').2 := by rw [unloadNext, hstate, hnames]
      unfold MovesToDraining
      rw [hstep, hnext]
      constructor
      · rintro ⟨hentry, hbefore, hafter⟩
        obtain ⟨rfl, hidle, hready⟩ := (beginUnload_draining hentry hbefore).mp hafter
        exact ⟨rfl, rfl, hentry, hidle, hready⟩
      · rintro ⟨-, hhead, hentry, hidle, hready⟩
        have hbefore : entry.lifecycle ≠ .DRAINING := by
          rcases hready with h | h <;> rw [h] <;> nofun
        exact ⟨hentry, hbefore,
          (beginUnload_draining hentry hbefore).mpr ⟨Option.some_inj.mp hhead, hidle, hready⟩⟩
  | stopped name' succeeded =>
    refine iff_of_false ?_ fun h => nomatch h.1
    cases hget' : s.entries.get? name' with
    | none => exact hkept (by rw [unloadNext, hstate]; dsimp only; rw [endUnload, hget'])
    | some entry' =>
      rintro ⟨hentry, hbefore, after, hafter, hdraining⟩
      rw [hstep, unloadNext, hstate] at hafter
      dsimp only at hafter
      rw [endUnload, hget'] at hafter
      rcases set_cases hafter with ⟨-, rfl⟩ | ⟨-, hold⟩
      · cases succeeded <;> exact nomatch hdraining
      · obtain rfl := Option.some_inj.mp (hentry.symm.trans hold)
        exact hbefore hdraining
  | draining name' target =>
    refine iff_of_false (hkept ?_) fun h => nomatch h.1
    cases target <;> rw [unloadNext, hstate]
  | _ => exact iff_of_false (hkept (by rw [unloadNext, hstate])) fun h => nomatch h.1

/-- A sweep honours the keepalive of what it unloads where nothing has refreshed it. -/
theorem Chosen.honours_iff {w : WatchedRegistry} (h : Chosen w) (m : RegistryMove) :
    w.HonoursKeepalive m ↔ w.Unrefreshed m := by
  constructor
  · intro hhonours i callable answer now sweep u name entry reading hm hsweep hget hstate hhead
      hentry hidle hready hwritten
    subst hm
    obtain ⟨entry', hentry', hknown⟩ := h.known i u sweep hget hsweep name
      (List.mem_of_head? hhead)
    obtain rfl := Option.some_inj.mp (hentry.symm.trans hentry')
    have hlast : entry.lastUsed = reading := by
      rw [Known, hwritten] at hknown
      exact hknown
    rw [← hlast]
    exact (hhonours i callable answer now sweep name entry rfl hsweep
      ((movesToDraining_iff hget).mpr ⟨hstate, hhead, hentry, hidle, hready⟩)).2
  · intro hunrefreshed i callable answer now sweep name entry hm hsweep hmoves
    subst hm
    obtain ⟨u, hget⟩ : ∃ u, w.registry.unloaders[i]? = some u := by
      have hi : i < w.registry.unloaders.length := by
        rw [← h.length]
        exact (List.getElem?_eq_some_iff.mp hsweep).1
      exact ⟨_, List.getElem?_eq_getElem hi⟩
    obtain ⟨hstate, hhead, hentry, hidle, hready⟩ := (movesToDraining_iff hget).mp hmoves
    obtain ⟨entry', hentry', hknown⟩ := h.known i u sweep hget hsweep name
      (List.mem_of_head? hhead)
    obtain rfl := Option.some_inj.mp (hentry.symm.trans hentry')
    refine ⟨hidle, ?_⟩
    cases hwritten : Items.lookup name sweep.written with
    | none =>
      rw [Known, hwritten] at hknown
      exact hknown
    | some reading =>
      have hlast : entry.lastUsed = reading := by
        rw [Known, hwritten] at hknown
        exact hknown
      rw [hlast]
      exact hunrefreshed i callable answer now sweep u name entry reading rfl hsweep hget hstate
        hhead hentry hidle hready hwritten

end WatchedRegistry

/-- A backend is loaded and released, chosen by a sweep after its keepalive of 300 seconds,
and leased and released once more. -/
def sampleRefreshed : List RegistryMove :=
  let requirements : Requirements := { model := py "m", quoted := py "'m'" }
  [.register
      { name := py "b"
        mode := .STEPPABLE
        models := [py "m"]
        supportsStreaming := true
        supportsCancellation := true
        priority := 0
        keepaliveSeconds := 300 } 0,
    .acquire requirements, .acquireStep 0 (.returns (some 7)) 0,
    .acquireStep 0 (.returns (some 7)) 0, .acquireStep 0 (.returns (some 7)) 0,
    .release 0, .releaseStep 0 0, .releaseStep 0 0,
    .sweep 300,
    .acquire requirements, .acquireStep 1 (.returns (some 7)) 301,
    .release 1, .releaseStep 1 301, .releaseStep 1 302]

end Inference.BackendRegistry
