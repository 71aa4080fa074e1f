/-
The calls that load and unload the backends.

* `Staged.acquireStep`, `Staged.unloadStep` — what a step of a call leaves of the stages;
* `Staged.step` — the calls agree with the entries after every step, whatever is released.
-/
import LlamaRuntime.Inference.BackendLedger

namespace Inference.BackendRegistry

variable {s : BackendRegistry}

theorem Owners.relabel {τ : Type} {owns : PyStr → τ → Prop} {lifecycle : BackendLifecycle}
    {tasks : List τ} {entries entries' : Dict PyStr Entry} (h : Owners owns lifecycle tasks entries)
    (hkept : ∀ name entry, entries.get? name = some entry → entry.lifecycle = lifecycle →
      ∃ entry', entries'.get? name = some entry' ∧ entry'.lifecycle = lifecycle) :
    Owners owns lifecycle tasks entries' where
  entered := by
    intro i t name hget howns
    obtain ⟨entry, hentry, hlifecycle⟩ := h.entered i t name hget howns
    exact hkept name entry hentry hlifecycle
  unique := h.unique

/-- The unload is about to shut the instance of the backend down, or does it. -/
def Aims (name : PyStr) (target : Option ℕ) : UnloadState → Prop
  | .draining name' target' => name' = name ∧ target' = target
  | .stopping name' target' => name' = name ∧ some target' = target
  | _ => False

theorem Aims.drains {name : PyStr} {target : Option ℕ} {u : UnloadState} (h : Aims name target u) :
    Drains name u := by
  cases u with
  | draining => exact h.1
  | stopping => exact h.1
  | _ => exact absurd h id

theorem Stops.aims {name : PyStr} {target : ℕ} {u : UnloadState} (h : Stops name target u) :
    Aims name (some target) u := by
  cases u with
  | draining => exact h
  | stopping => exact ⟨h.1, congrArg some h.2⟩
  | _ => exact absurd h id

structure Staged (s : BackendRegistry) : Prop where
  loaders : Owners (fun name (a : Acquirer) => Loads name a.state) .LOADING s.acquirers s.entries
  drainers : Owners (fun name (u : Unloader) => Drains name u.state) .DRAINING s.unloaders s.entries
  /-- only a loaded backend has an instance -/
  empty : ∀ name entry, s.entries.get? name = some entry → entry.lifecycle ≠ .READY →
    entry.lifecycle ≠ .DRAINING → entry.target = none
  aims : ∀ (i : ℕ) (u : Unloader) name target, s.unloaders[i]? = some u →
    Aims name target u.state → ∃ entry, s.entries.get? name = some entry ∧ entry.target = target

theorem Staged.nil : Staged {} where
  loaders := .nil
  drainers := .nil
  empty := fun _ _ h => absurd h (by simp)
  aims := fun _ _ _ _ h => absurd h (by simp)

/-- A step that changes nothing of what the calls have to do with. -/
theorem Staged.aside (h : Staged s) {acquirers : List Acquirer}
    (hloaders : Owners (fun name (a : Acquirer) => Loads name a.state) .LOADING acquirers s.entries)
    (leases : List BackendLease) (releasers : List Releaser)
    (loads : List (PyStr × ℕ × Option ℕ)) :
    Staged ⟨s.entries, leases, acquirers, s.unloaders, releasers, loads⟩ :=
  ⟨hloaders, h.drainers, h.empty, h.aims⟩

/-- An entry changes; one that is being unloaded keeps its lifecycle and its instance. -/
theorem Staged.sets (h : Staged s) {name : PyStr} {entry' : Entry}
    {acquirers : List Acquirer}
    (hloaders : Owners (fun name (a : Acquirer) => Loads name a.state) .LOADING acquirers
      (s.entries.set name entry'))
    (hempty : entry'.lifecycle ≠ .READY → entry'.lifecycle ≠ .DRAINING → entry'.target = none)
    (hkept : ∀ entry, s.entries.get? name = some entry → entry.lifecycle = .DRAINING →
      entry'.lifecycle = .DRAINING ∧ entry'.target = entry.target)
    (leases : List BackendLease) (releasers : List Releaser)
    (loads : List (PyStr × ℕ × Option ℕ)) :
    Staged ⟨s.entries.set name entry', leases, acquirers, s.unloaders, releasers, loads⟩ where
  loaders := hloaders
  drainers := by
    refine h.drainers.relabel fun name₁ entry hget hlifecycle => ?_
    show ∃ entry₁, (s.entries.set name entry').get? name₁ = some entry₁ ∧ _
    by_cases heq : name = name₁
    · subst heq
      exact ⟨entry', Dict.get?_set_self, (hkept entry hget hlifecycle).1⟩
    · exact ⟨entry, (Dict.get?_set_ne heq).trans hget, hlifecycle⟩
  empty := by
    intro name₁ entry₁ hget hready hdraining
    rcases set_cases hget with ⟨rfl, rfl⟩ | ⟨_, hold⟩
    · exact hempty hready hdraining
    · exact h.empty name₁ entry₁ hold hready hdraining
  aims := by
    intro i u name₁ target hget haims
    obtain ⟨entry, hentry, htarget⟩ := h.aims i u name₁ target hget haims
    show ∃ entry₁, (s.entries.set name entry').get? name₁ = some entry₁ ∧ _
    by_cases heq : name = name₁
    · subst heq
      obtain ⟨entry₁, hentry₁, hlifecycle⟩ := h.drainers.entered i u name hget haims.drains
      obtain rfl := Option.some_inj.mp (hentry.symm.trans hentry₁)
      exact ⟨entry', Dict.get?_set_self, (hkept entry hentry hlifecycle).2.trans htarget⟩
    · exact ⟨entry, (Dict.get?_set_ne heq).trans hentry, htarget⟩

theorem Staged.acquireStep (h : Staged s) (i : ℕ) (answer : FactoryAnswer) (now : ℚ) :
    Staged (s.acquireStep i answer now) := by
  unfold BackendRegistry.acquireStep
  cases hget : s.acquirers[i]? with
  | none => exact h
  | some a =>
    dsimp only
    have hends := acquireNext_ends a answer now s
    generalize s.acquireNext a answer now = out at hends ⊢
    cases hends with
    | aside stage => exact h.aside (h.loaders.aside hget stage) s.leases s.releasers s.loads
    | starts get lifecycle stage =>
      rename_i a' name entry
      have hother : ∀ {other : BackendLifecycle}, other ≠ .UNLOADED → other ≠ .FAILED →
          entry.lifecycle ≠ other := by
        rintro other hunloaded hfailed rfl
        exact lifecycle.elim hunloaded hfailed
      refine h.sets ?_ (fun _ _ => ?_) (fun entry₁ hentry₁ hdraining => ?_) s.leases s.releasers
        s.loads
      · refine h.loaders.starts hget get (hother (by simp) (by simp)) rfl fun name' howns => ?_
        rw [stage] at howns
        exact howns
      · exact h.empty name entry get (hother (by simp) (by simp)) (hother (by simp) (by simp))
      · obtain rfl := Option.some_inj.mp (get.symm.trans hentry₁)
        exact absurd hdraining (hother (by simp) (by simp))
    | lends get lifecycle target_eq stage =>
      rename_i a' name entry target now
      refine h.sets ?_ (fun hready _ => ?_) (fun entry₁ hentry₁ hdraining => ?_) _ s.releasers
        s.loads
      · refine (h.loaders.aside hget fun name hloads => absurd hloads (stage name)).relabel
          fun name₁ entry₁ hentry₁ hloading => ?_
        rcases get_cases get hentry₁ with ⟨rfl, _⟩ | hset
        · exact absurd (lifecycle.symm.trans hloading) (by simp)
        · exact ⟨entry₁, hset _, hloading⟩
      · exact absurd lifecycle hready
      · obtain rfl := Option.some_inj.mp (get.symm.trans hentry₁)
        exact absurd (lifecycle.symm.trans hdraining) (by simp)
    | enters before get stage =>
      rename_i a' name entry target now
      have howns : Loads name a.state := by
        rw [before]
        exact rfl
      obtain ⟨entry', hentry, hlifecycle⟩ := h.loaders.entered i a name hget howns
      obtain rfl := Option.some_inj.mp (get.symm.trans hentry)
      refine h.sets (h.loaders.ends hget howns _ stage) (fun hready _ => absurd rfl hready)
        (fun entry₁ hentry₁ hdraining => ?_) _ s.releasers _
      obtain rfl := Option.some_inj.mp (get.symm.trans hentry₁)
      exact absurd (hlifecycle.symm.trans hdraining) (by simp)
    | fails before get stage =>
      rename_i a' name failure code entry
      have howns : Loads name a.state := by
        rw [before]
        exact rfl
      obtain ⟨entry', hentry, hlifecycle⟩ := h.loaders.entered i a name hget howns
      obtain rfl := Option.some_inj.mp (get.symm.trans hentry)
      refine h.sets (h.loaders.ends hget howns _ stage) (fun _ _ => rfl)
        (fun entry₁ hentry₁ hdraining => ?_) s.leases s.releasers s.loads
      obtain rfl := Option.some_inj.mp (get.symm.trans hentry₁)
      exact absurd (hlifecycle.symm.trans hdraining) (by simp)

/-- An unload aims at what it aimed at, or at the instance of the entry if it has just begun. -/
theorem unloadNext_aims {u : Unloader} {callable : Bool} {answer : ShutdownAnswer} {now : ℚ}
    {name : PyStr} {target : Option ℕ}
    (h : Aims name target (s.unloadNext u callable answer now).1.state) :
    Aims name target u.state ∨
      ∃ entry, (s.unloadNext u callable answer now).2.entries.get? name = some entry ∧
        entry.target = target := by
  unfold unloadNext at h ⊢
  cases hstate : u.state with
  | checking =>
    rw [hstate] at h
    dsimp only at h ⊢
    cases hnames : u.names with
    | nil =>
      rw [hnames] at h
      dsimp only at h
      rw [hstate] at h
      exact absurd h id
    | cons name₁ names =>
      rw [hnames] at h
      right
      dsimp only at h ⊢
      unfold beginUnload at h ⊢
      cases hget : s.entries.get? name₁ with
      | none =>
        rw [hget] at h
        exact absurd h id
      | some entry =>
        rw [hget] at h
        dsimp only at h ⊢
        split_ifs at h ⊢ with hunloaded hactive hready
        · exact absurd h id
        · exact absurd h id
        · exact absurd h id
        · obtain ⟨rfl, rfl⟩ := h
          exact ⟨_, Dict.get?_set_self, rfl⟩
  | draining name₁ target₁ =>
    rw [hstate] at h
    left
    cases target₁ with
    | none => exact absurd h id
    | some target₁ =>
      cases callable with
      | true => exact h
      | false => exact absurd h id
  | stopping name₁ target₁ =>
    rw [hstate] at h
    cases answer <;> exact absurd h id
  | stopped name₁ succeeded =>
    rw [hstate] at h
    dsimp only at h
    unfold endUnload at h
    cases hget : s.entries.get? name₁ with
    | none =>
      rw [hget] at h
      exact absurd h id
    | some entry =>
      rw [hget] at h
      exact absurd h id
  | interrupted =>
    rw [hstate] at h
    dsimp only at h
    rw [hstate] at h
    exact absurd h id

theorem Staged.unloadStep (h : Staged s) (i : ℕ) (callable : Bool) (answer : ShutdownAnswer)
    (now : ℚ) : Staged (s.unloadStep i callable answer now) := by
  unfold BackendRegistry.unloadStep
  cases hget : s.unloaders[i]? with
  | none => exact h
  | some u =>
    dsimp only
    have hends := unloadNext_ends u callable answer now s
    have haim := @unloadNext_aims s u callable answer now
    generalize s.unloadNext u callable answer now = out at hends haim ⊢
    cases hends with
    | aside stage stops =>
      rename_i u'
      refine ⟨h.loaders, h.drainers.aside hget stage, h.empty, ?_⟩
      intro j u₁ name target hset haims
      rcases get_set hget hset with ⟨rfl, rfl⟩ | ⟨_, hold⟩
      · exact (haim haims).elim (h.aims i u name target hget) id
      · exact h.aims j u₁ name target hold haims
    | starts get lifecycle free stage =>
      rename_i u' name entry
      have hother : ∀ {other : BackendLifecycle}, other ≠ .READY → other ≠ .FAILED →
          entry.lifecycle ≠ other := by
        rintro other hready hfailed rfl
        exact lifecycle.elim hready hfailed
      refine ⟨?_, ?_, ?_, ?_⟩
      · refine h.loaders.relabel fun name₁ entry₁ hentry₁ hloading => ?_
        rcases get_cases get hentry₁ with ⟨rfl, _⟩ | hset
        · exact absurd hloading (hother (by simp) (by simp))
        · exact ⟨entry₁, hset _, hloading⟩
      · refine h.drainers.starts hget get (hother (by simp) (by simp)) rfl fun name' howns => ?_
        rw [stage] at howns
        exact howns
      · intro name₁ entry₁ hentry₁ hready hdraining
        rcases set_cases hentry₁ with ⟨rfl, rfl⟩ | ⟨_, hold⟩
        · exact absurd rfl hdraining
        · exact h.empty name₁ entry₁ hold hready hdraining
      · intro j u₁ name₁ target hset haims
        rcases get_set hget hset with ⟨rfl, rfl⟩ | ⟨_, hold⟩
        · rw [stage] at haims
          obtain ⟨rfl, rfl⟩ := haims
          exact ⟨_, Dict.get?_set_self, rfl⟩
        · obtain ⟨entry₁, hentry₁, htarget⟩ := h.aims j u₁ name₁ target hold haims
          rcases get_cases get hentry₁ with ⟨rfl, hnew⟩ | hnew
          · exact ⟨_, hnew _, htarget⟩
          · exact ⟨entry₁, hnew _, htarget⟩
    | ends before get stage =>
      rename_i u' name succeeded now entry
      have howns : Drains name u.state := by
        rw [before]
        exact rfl
      obtain ⟨entry', hentry, hlifecycle⟩ := h.drainers.entered i u name hget howns
      obtain rfl := Option.some_inj.mp (get.symm.trans hentry)
      refine ⟨?_, h.drainers.ends hget howns _ stage, ?_, ?_⟩
      · refine h.loaders.relabel fun name₁ entry₁ hentry₁ hloading => ?_
        rcases get_cases get hentry₁ with ⟨rfl, _⟩ | hset
        · exact absurd (hlifecycle.symm.trans hloading) (by simp)
        · exact ⟨entry₁, hset _, hloading⟩
      · intro name₁ entry₁ hentry₁ hready hdraining
        rcases set_cases hentry₁ with ⟨rfl, rfl⟩ | ⟨_, hold⟩
        · rfl
        · exact h.empty name₁ entry₁ hold hready hdraining
      · intro j u₁ name₁ target hset haims
        rcases get_set hget hset with ⟨_, rfl⟩ | ⟨hne, hold⟩
        · exact absurd haims.drains (stage name₁)
        · obtain ⟨entry₁, hentry₁, htarget⟩ := h.aims j u₁ name₁ target hold haims
          refine ⟨entry₁, (Dict.get?_set_ne ?_).trans hentry₁, htarget⟩
          rintro rfl
          exact hne (h.drainers.unique i j u u₁ name hget hold howns haims.drains)

/-- The registry is told of the release of a lease. -/
theorem Staged.release (h : Staged s) (lease : BackendLease) (now : ℚ) (leases : List BackendLease)
    (releasers : List Releaser) :
    Staged { (s.release lease now).2 with leases := leases, releasers := releasers } := by
  unfold BackendRegistry.release
  cases hget : s.entries.get? lease.name with
  | none => exact h.aside h.loaders leases releasers s.loads
  | some entry =>
    dsimp only
    split_ifs with hrefused
    · exact h.aside h.loaders leases releasers s.loads
    · refine h.sets ?_ (fun hready hdraining => ?_) (fun entry₁ hentry₁ hdraining => ?_) leases
        releasers s.loads
      · refine h.loaders.relabel fun name₁ entry₁ hentry₁ hloading => ?_
        rcases get_cases hget hentry₁ with ⟨rfl, hset⟩ | hset
        · exact ⟨_, hset _, hloading⟩
        · exact ⟨entry₁, hset _, hloading⟩
      · exact h.empty lease.name entry hget hready hdraining
      · obtain rfl := Option.some_inj.mp (hget.symm.trans hentry₁)
        exact ⟨hdraining, rfl⟩

/-- An unload that has just begun has to do with nothing. -/
theorem Staged.unloads (h : Staged s) (names : List PyStr) :
    Staged { s with unloaders := s.unloaders ++ [{ names := names }] } := by
  refine ⟨h.loaders, h.drainers.append fun _ => id, h.empty, ?_⟩
  intro i u name target hget haims
  by_cases hlt : i < s.unloaders.length
  · exact h.aims i u name target ((List.getElem?_append_left hlt).symm.trans hget) haims
  · rw [List.getElem?_append_right (not_lt.mp hlt)] at hget
    obtain rfl := List.mem_singleton.mp (List.mem_of_getElem? hget)
    exact absurd haims id

/-- What the calls work on agrees with the entries after every step. -/
theorem Staged.step (h : Staged s) (m : RegistryMove) : Staged (s.step m) := by
  cases m with
  | register descriptor now =>
    show Staged (s.register descriptor now).2
    unfold BackendRegistry.register
    split_ifs with hthere
    · exact h
    · have hnone : ∀ entry, s.entries.get? descriptor.name ≠ some entry := by
        rw [Dict.contains_iff, Dict.mem_keys_iff] at hthere
        exact fun entry hget => hthere ⟨entry, hget⟩
      refine h.sets ?_ (fun _ _ => rfl) (fun entry hget => absurd hget (hnone entry)) s.leases
        s.releasers s.loads
      refine h.loaders.relabel fun name entry hget hloading => ⟨entry, ?_, hloading⟩
      rw [Dict.get?_set_ne]
      · exact hget
      · rintro rfl
        exact hnone entry hget
  | acquire requirements =>
    exact h.aside (h.loaders.append fun _ => id) s.leases s.releasers s.loads
  | acquireStep i answer now => exact h.acquireStep i answer now
  | release l =>
    show Staged (s.beginRelease l)
    unfold BackendRegistry.beginRelease
    cases s.leases[l]? with
    | none => exact h
    | some lease => exact h.aside h.loaders _ _ _
  | releaseStep i now =>
    show Staged (s.releaseStep i now)
    unfold BackendRegistry.releaseStep
    cases s.releasers[i]? with
    | none => exact h
    | some releaser =>
      cases releaser with
      | read l =>
        dsimp only
        cases s.leases[l]? with
        | none => exact h
        | some lease => exact h.aside h.loaders _ _ _
      | marked l =>
        dsimp only
        cases s.leases[l]? with
        | none => exact h
        | some lease => exact h.release lease now _ _
      | done => exact h
  | tellDirectly l now =>
    show Staged (s.tellDirectly l now)
    unfold BackendRegistry.tellDirectly
    cases s.leases[l]? with
    | none => exact h
    | some lease => exact h.release lease now _ (s.release lease now).2.releasers
  | unload name => exact h.unloads [name]
  | sweep now => exact h.unloads (s.sweepTargets now)
  | unloadStep i callable answer now => exact h.unloadStep i callable answer now

end Inference.BackendRegistry
