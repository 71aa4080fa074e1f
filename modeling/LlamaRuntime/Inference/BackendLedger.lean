/-
The ledger of the backends' leases.

`Ledger` ties the leases to the entries, and `Owners` the calls that load or unload a
backend to its lifecycle.

* `AcquireEnds`, `UnloadEnds` — what a step of a call can do;
* `Ledger.set_idle`, `Ledger.lends`, `Ledger.enters`, `Ledger.returns` — what each change of
  an entry leaves of the ledger.
-/
import LlamaRuntime.Inference.BackendRegistry

namespace Inference.BackendRegistry

variable {s s' : BackendRegistry}

/-! ### What a step can do -/

/-- The call is loading the backend. -/
def Loads (name : PyStr) : AcquireState → Prop
  | .loading name' | .loaded name' _ | .failed name' _ _ => name' = name
  | _ => False

/-- The call is unloading the backend. -/
def Drains (name : PyStr) : UnloadState → Prop
  | .draining name' _ | .stopping name' _ | .stopped name' _ => name' = name
  | _ => False

/-- The call is about to shut the instance down, or does it. -/
def Stops (name : PyStr) (target : ℕ) : UnloadState → Prop
  | .draining name' target' => name' = name ∧ target' = some target
  | .stopping name' target' => name' = name ∧ target' = target
  | _ => False

theorem Stops.drains {name : PyStr} {target : ℕ} {u : UnloadState} (h : Stops name target u) :
    Drains name u := by
  cases u with
  | draining => exact h.1
  | stopping => exact h.1
  | _ => exact absurd h id

inductive AcquireEnds (s : BackendRegistry) (a : Acquirer) : Acquirer × BackendRegistry → Prop where
  /-- nothing is entered -/
  | aside {a' : Acquirer} (stage : ∀ name, Loads name a'.state → Loads name a.state) :
      AcquireEnds s a (a', s)
  /-- the factory is called -/
  | starts {a' : Acquirer} {name : PyStr} {entry : Entry} (get : s.entries.get? name = some entry)
      (lifecycle : entry.lifecycle = .UNLOADED ∨ entry.lifecycle = .FAILED)
      (stage : a'.state = .loading name) :
      AcquireEnds s a (a', s.setEntry name { entry with lifecycle := .LOADING, failure := none })
  /-- the loaded instance is leased -/
  | lends {a' : Acquirer} {name : PyStr} {entry : Entry} {target : Option ℕ} {now : ℚ}
      (get : s.entries.get? name = some entry) (lifecycle : entry.lifecycle = .READY)
      (target_eq : entry.target = target) (stage : ∀ name, ¬ Loads name a'.state) :
      AcquireEnds s a (a', (s.lend name
        { entry with activeLeases := entry.activeLeases + 1, lastUsed := now } target).2)
  /-- the instance is entered, and leased -/
  | enters {a' : Acquirer} {name : PyStr} {entry : Entry} {target : Option ℕ} {now : ℚ}
      (before : a.state = .loaded name target) (get : s.entries.get? name = some entry)
      (stage : ∀ name, ¬ Loads name a'.state) :
      AcquireEnds s a (a', { (s.lend name
          { entry with
            target := target
            generation := entry.generation + 1
            activeLeases := 1
            lastUsed := now
            lifecycle := .READY } target).2 with
        loads := s.loads ++ [(name, entry.generation + 1, target)] })
  /-- the failure is entered -/
  | fails {a' : Acquirer} {name failure code : PyStr} {entry : Entry}
      (before : a.state = .failed name failure code) (get : s.entries.get? name = some entry)
      (stage : ∀ name, ¬ Loads name a'.state) :
      AcquireEnds s a (a', s.setEntry name { entry with
        lifecycle := .FAILED, failure := some (failure.take 512), target := none })

theorem tryName_ends (a : Acquirer) (name : PyStr) (names : List PyStr) (now : ℚ)
    (s : BackendRegistry) : AcquireEnds s a (s.tryName a name names now) := by
  unfold tryName
  cases hget : s.entries.get? name with
  | none => exact .aside fun _ h => absurd h id
  | some entry =>
    obtain ⟨descriptor, lifecycle, generation, target, activeLeases, lastUsed, failure⟩ := entry
    cases lifecycle with
    | LOADING => exact .aside fun _ h => h
    | DRAINING => exact .aside fun _ h => absurd h id
    | READY =>
      cases target with
      | none => exact .aside fun _ h => absurd h id
      | some target => exact .lends hget rfl rfl fun _ h => absurd h id
    | UNLOADED => exact .starts hget (.inl rfl) rfl
    | FAILED => exact .starts hget (.inr rfl) rfl

theorem acquireNext_ends (a : Acquirer) (answer : FactoryAnswer) (now : ℚ) (s : BackendRegistry) :
    AcquireEnds s a (s.acquireNext a answer now) := by
  unfold acquireNext
  cases hstate : a.state with
  | trying =>
    dsimp only
    cases a.names with
    | nil => exact .aside fun _ h => absurd h id
    | cons name names => exact tryName_ends a name names now s
  | loading name =>
    refine .aside fun name' h => ?_
    rw [hstate]
    cases answer with
    | interrupts => exact absurd h id
    | _ => exact h
  | loaded name target =>
    dsimp only
    unfold enterInstance
    cases hget : s.entries.get? name with
    | none => exact .aside fun _ h => absurd h id
    | some entry => exact .enters hstate hget fun _ => id
  | failed name failure code =>
    dsimp only
    unfold enterFailure
    cases hget : s.entries.get? name with
    | none => exact .aside fun _ h => absurd h id
    | some entry => exact .fails hstate hget fun _ => id
  | _ => exact .aside fun _ h => h

inductive UnloadEnds (s : BackendRegistry) (u : Unloader) : Unloader × BackendRegistry → Prop where
  /-- nothing is entered -/
  | aside {u' : Unloader} (stage : ∀ name, Drains name u'.state → Drains name u.state)
      (stops : ∀ name target, Stops name target u'.state → Stops name target u.state) :
      UnloadEnds s u (u', s)
  | starts {u' : Unloader} {name : PyStr} {entry : Entry} (get : s.entries.get? name = some entry)
      (lifecycle : entry.lifecycle = .READY ∨ entry.lifecycle = .FAILED)
      (free : entry.activeLeases = 0) (stage : u'.state = .draining name entry.target) :
      UnloadEnds s u (u', s.setEntry name { entry with lifecycle := .DRAINING })
  | ends {u' : Unloader} {name : PyStr} {succeeded : Bool} {now : ℚ} {entry : Entry}
      (before : u.state = .stopped name succeeded) (get : s.entries.get? name = some entry)
      (stage : ∀ name, ¬ Drains name u'.state) :
      UnloadEnds s u (u', s.setEntry name { entry with
        target := none
        lifecycle := if succeeded then .UNLOADED else .FAILED
        failure := if succeeded then none else some (py "shutdown_failed")
        lastUsed := now })

theorem beginUnload_ends (u : Unloader) (name : PyStr) (names : List PyStr) (s : BackendRegistry) :
    UnloadEnds s u (s.beginUnload { u with names := names } name) := by
  have haside : ∀ reply, UnloadEnds s u (replied { u with names := names } reply, s) :=
    fun reply => .aside (fun _ h => absurd h id) fun _ _ h => absurd h id
  unfold beginUnload
  cases hget : s.entries.get? name with
  | none => exact haside _
  | some entry =>
    dsimp only
    split_ifs with hunloaded hactive hstate
    · exact haside _
    · exact haside _
    · exact haside _
    · refine .starts hget ?_ (not_not.mp hactive) rfl
      by_contra hneither
      exact hstate (not_or.mp hneither)

theorem unloadNext_ends (u : Unloader) (callable : Bool) (answer : ShutdownAnswer) (now : ℚ)
    (s : BackendRegistry) : UnloadEnds s u (s.unloadNext u callable answer now) := by
  unfold unloadNext
  cases hstate : u.state with
  | checking =>
    dsimp only
    cases u.names with
    | nil => exact .aside (fun _ => id) fun _ _ => id
    | cons name names => exact beginUnload_ends u name names s
  | draining name target =>
    cases target with
    | none =>
      refine .aside (fun _ h => ?_) fun _ _ h => absurd h id
      rw [hstate]
      exact h
    | some target =>
      cases callable with
      | false =>
        refine .aside (fun _ h => ?_) fun _ _ h => absurd h id
        rw [hstate]
        exact h
      | true =>
        refine .aside (fun _ h => ?_) fun _ _ h => ?_
        · rw [hstate]
          exact h
        · rw [hstate]
          exact ⟨h.1, congrArg some h.2⟩
  | stopping name target =>
    refine .aside (fun _ h => ?_) fun _ _ h => ?_
    · rw [hstate]
      cases answer with
      | interrupts => exact absurd h id
      | _ => exact h
    · cases answer with
      | _ => exact absurd h id
  | stopped name succeeded =>
    dsimp only
    unfold endUnload
    cases hget : s.entries.get? name with
    | none => exact .aside (fun _ h => absurd h id) fun _ _ h => absurd h id
    | some entry => exact .ends hstate hget fun _ => id
  | interrupted => exact .aside (fun _ => id) fun _ _ => id

/-! ### The calls that load and unload -/

/-- The calls that work on a backend: there is one at most, and the lifecycle says so. -/
structure Owners {τ : Type} (owns : PyStr → τ → Prop) (lifecycle : BackendLifecycle) (tasks : List τ)
    (entries : Dict PyStr Entry) : Prop where
  entered : ∀ (i : ℕ) (t : τ) name, tasks[i]? = some t → owns name t →
    ∃ entry, entries.get? name = some entry ∧ entry.lifecycle = lifecycle
  unique : ∀ (i j : ℕ) (t t' : τ) name, tasks[i]? = some t → tasks[j]? = some t' → owns name t →
    owns name t' → i = j

section Owners

variable {τ : Type} {owns : PyStr → τ → Prop} {lifecycle : BackendLifecycle} {tasks : List τ}
  {entries entries' : Dict PyStr Entry} {t t' : τ} {i : ℕ}

theorem Owners.nil : Owners owns lifecycle [] entries :=
  ⟨fun _ _ _ h => absurd h (by simp), fun _ _ _ _ _ h => absurd h (by simp)⟩

/-- The entries in that lifecycle are as before. -/
theorem Owners.congr (h : Owners owns lifecycle tasks entries)
    (hkept : ∀ name entry, entries.get? name = some entry → entry.lifecycle = lifecycle →
      entries'.get? name = some entry) : Owners owns lifecycle tasks entries' where
  entered := by
    intro i t name hget howns
    obtain ⟨entry, hentry, hlifecycle⟩ := h.entered i t name hget howns
    exact ⟨entry, hkept name entry hentry hlifecycle, hlifecycle⟩
  unique := h.unique

theorem Owners.append (h : Owners owns lifecycle tasks entries) (hnone : ∀ name, ¬ owns name t) :
    Owners owns lifecycle (tasks ++ [t]) entries := by
  have hold : ∀ {j : ℕ} {t' : τ} {name}, (tasks ++ [t])[j]? = some t' → owns name t' →
      tasks[j]? = some t' := by
    intro j t' name hget howns
    by_cases hlt : j < tasks.length
    · exact (List.getElem?_append_left hlt).symm.trans hget
    · rw [List.getElem?_append_right (not_lt.mp hlt)] at hget
      obtain rfl := List.mem_singleton.mp (List.mem_of_getElem? hget)
      exact absurd howns (hnone name)
  refine ⟨fun j t' name hget howns => h.entered j t' name (hold hget howns) howns, ?_⟩
  intro j k t₁ t₂ name hj hk hown₁ hown₂
  exact h.unique j k t₁ t₂ name (hold hj hown₁) (hold hk hown₂) hown₁ hown₂

theorem get_set {j : ℕ} {t₁ : τ} (hget : tasks[i]? = some t) (h : (tasks.set i t')[j]? = some t₁) :
    (i = j ∧ t₁ = t') ∨ i ≠ j ∧ tasks[j]? = some t₁ := by
  by_cases heq : i = j
  · subst heq
    rw [List.getElem?_set_self (List.getElem?_eq_some_iff.mp hget).1] at h
    exact .inl ⟨rfl, (Option.some_inj.mp h).symm⟩
  · exact .inr ⟨heq, (List.getElem?_set_ne heq).symm.trans h⟩

/-- A call goes on, and works on no other backend. -/
theorem Owners.aside (h : Owners owns lifecycle tasks entries) (hget : tasks[i]? = some t)
    (hstage : ∀ name, owns name t' → owns name t) :
    Owners owns lifecycle (tasks.set i t') entries := by
  have hold : ∀ {j : ℕ} {t₁ : τ} {name}, (tasks.set i t')[j]? = some t₁ → owns name t₁ →
      ∃ t₂, tasks[j]? = some t₂ ∧ owns name t₂ := by
    intro j t₁ name hset howns
    rcases get_set hget hset with ⟨rfl, rfl⟩ | ⟨_, h⟩
    · exact ⟨t, hget, hstage name howns⟩
    · exact ⟨t₁, h, howns⟩
  refine ⟨fun j t₁ name hset howns => ?_, fun j k t₁ t₂ name hj hk hown₁ hown₂ => ?_⟩
  · obtain ⟨t₂, hbefore, howns⟩ := hold hset howns
    exact h.entered j t₂ name hbefore howns
  · obtain ⟨t₁, hj, hown₁⟩ := hold hj hown₁
    obtain ⟨t₂, hk, hown₂⟩ := hold hk hown₂
    exact h.unique j k t₁ t₂ name hj hk hown₁ hown₂

/-- A call begins to work on a backend nobody works on. -/
theorem Owners.starts (h : Owners owns lifecycle tasks entries) (hget : tasks[i]? = some t)
    {name : PyStr} {entry entry' : Entry} (hentry : entries.get? name = some entry)
    (hfree : entry.lifecycle ≠ lifecycle) (hlifecycle : entry'.lifecycle = lifecycle)
    (hstage : ∀ name', owns name' t' → name = name') :
    Owners owns lifecycle (tasks.set i t') (entries.set name entry') := by
  have hnobody : ∀ (j : ℕ) (t₁ : τ), tasks[j]? = some t₁ → ¬ owns name t₁ := by
    intro j t₁ hj howns
    obtain ⟨entry₁, hentry₁, hsame⟩ := h.entered j t₁ name hj howns
    obtain rfl := Option.some_inj.mp (hentry.symm.trans hentry₁)
    exact hfree hsame
  refine ⟨fun j t₁ name₁ hset howns => ?_, fun j k t₁ t₂ name₁ hj hk hown₁ hown₂ => ?_⟩
  · rw [Dict.get?_set]
    split_ifs with heq
    · exact ⟨entry', rfl, hlifecycle⟩
    · rcases get_set hget hset with ⟨rfl, rfl⟩ | ⟨_, hj⟩
      · exact absurd (hstage name₁ howns) heq
      · exact h.entered j t₁ name₁ hj howns
  · rcases get_set hget hj with ⟨rfl, rfl⟩ | ⟨_, hold⟩
    · obtain rfl := hstage name₁ hown₁
      rcases get_set hget hk with ⟨heq, _⟩ | ⟨_, hk⟩
      · exact heq
      · exact absurd hown₂ (hnobody k t₂ hk)
    · rcases get_set hget hk with ⟨_, heq⟩ | ⟨_, hk⟩
      · rw [heq] at hown₂
        obtain rfl := hstage name₁ hown₂
        exact absurd hown₁ (hnobody j t₁ hold)
      · exact h.unique j k t₁ t₂ name₁ hold hk hown₁ hown₂

/-- A call has done its work on a backend. -/
theorem Owners.ends (h : Owners owns lifecycle tasks entries) (hget : tasks[i]? = some t)
    {name : PyStr} (howns : owns name t) (entry' : Entry) (hstage : ∀ name', ¬ owns name' t') :
    Owners owns lifecycle (tasks.set i t') (entries.set name entry') := by
  have hold : ∀ {j : ℕ} {t₁ : τ} {name₁}, (tasks.set i t')[j]? = some t₁ → owns name₁ t₁ →
      i ≠ j ∧ tasks[j]? = some t₁ := by
    intro j t₁ name₁ hset hown₁
    rcases get_set hget hset with ⟨_, rfl⟩ | hj
    · exact absurd hown₁ (hstage name₁)
    · exact hj
  refine ⟨fun j t₁ name₁ hset hown₁ => ?_, fun j k t₁ t₂ name₁ hj hk hown₁ hown₂ => ?_⟩
  · obtain ⟨hne, hj⟩ := hold hset hown₁
    rw [Dict.get?_set_ne]
    · exact h.entered j t₁ name₁ hj hown₁
    · rintro rfl
      exact hne (h.unique i j t t₁ name hget hj howns hown₁)
  · exact h.unique j k t₁ t₂ name₁ (hold hj hown₁).2 (hold hk hown₂).2 hown₁ hown₂

end Owners

/-! ### The ledger -/

/-- The lease is one of that backend, and the registry has not been told of its release. -/
def outstanding (name : PyStr) (lease : BackendLease) : Bool :=
  lease.name = name && !lease.returned

theorem outstanding_iff {name : PyStr} {lease : BackendLease} :
    outstanding name lease = true ↔ lease.name = name ∧ lease.returned = false := by
  simp [outstanding]

structure Ledger (entries : Dict PyStr Entry) (leases : List BackendLease)
    (loads : List (PyStr × ℕ × Option ℕ)) : Prop where
  refers : ∀ lease ∈ leases, lease.returned = false →
    ∃ entry, entries.get? lease.name = some entry ∧ entry.lifecycle = .READY ∧
      entry.generation = lease.generation ∧ entry.target = lease.target
  counts : ∀ name entry, entries.get? name = some entry →
    entry.activeLeases = leases.countP (outstanding name)
  ready : ∀ name entry, entries.get? name = some entry → entry.lifecycle = .READY →
    (name, entry.generation, entry.target) ∈ loads
  known : ∀ name entry target, entries.get? name = some entry → entry.target = some target →
    ∃ generation, (name, generation, some target) ∈ loads
  fresh : ∀ load ∈ loads, ∃ entry, entries.get? load.1 = some entry ∧ load.2.1 ≤ entry.generation
  functional : ∀ name generation target target', (name, generation, target) ∈ loads →
    (name, generation, target') ∈ loads → target = target'
  unshared : ∀ name name' generation generation' target, (name, generation, some target) ∈ loads →
    (name', generation', some target) ∈ loads → name = name'

section Ledger

variable {entries : Dict PyStr Entry} {leases : List BackendLease}
  {loads : List (PyStr × ℕ × Option ℕ)} {name : PyStr} {entry entry' : Entry} {lease : BackendLease}

theorem set_cases {name₁ : PyStr} {entry₁ : Entry}
    (h : (entries.set name entry').get? name₁ = some entry₁) :
    (name = name₁ ∧ entry₁ = entry') ∨ name ≠ name₁ ∧ entries.get? name₁ = some entry₁ := by
  rw [Dict.get?_set] at h
  split_ifs at h with heq
  · exact .inl ⟨heq, (Option.some_inj.mp h).symm⟩
  · exact .inr ⟨heq, h⟩

theorem get_cases {name₁ : PyStr} {entry₁ : Entry} (hget : entries.get? name = some entry)
    (h : entries.get? name₁ = some entry₁) :
    (entry₁ = entry ∧ ∀ entry', (entries.set name entry').get? name₁ = some entry') ∨
      ∀ entry', (entries.set name entry').get? name₁ = some entry₁ := by
  by_cases heq : name = name₁
  · subst heq
    exact .inl ⟨Option.some_inj.mp (h.symm.trans hget), fun _ => Dict.get?_set_self⟩
  · exact .inr fun _ => (Dict.get?_set_ne heq).trans h

theorem Ledger.nil : Ledger ∅ [] [] where
  refers := fun _ h => absurd h List.not_mem_nil
  counts := fun _ _ h => absurd h (by simp)
  ready := fun _ _ h => absurd h (by simp)
  known := fun _ _ _ h => absurd h (by simp)
  fresh := fun _ h => absurd h List.not_mem_nil
  functional := fun _ _ _ _ h => absurd h List.not_mem_nil
  unshared := fun _ _ _ _ _ h => absurd h List.not_mem_nil

/-- Only a loaded backend is leased. -/
theorem Ledger.idle (h : Ledger entries leases loads) (hget : entries.get? name = some entry)
    (hlifecycle : entry.lifecycle ≠ .READY) : leases.countP (outstanding name) = 0 := by
  refine List.countP_eq_zero.mpr fun lease hmem hout => ?_
  obtain ⟨rfl, hopen⟩ := outstanding_iff.mp hout
  obtain ⟨entry', hget', hready, _⟩ := h.refers lease hmem hopen
  obtain rfl := Option.some_inj.mp (hget.symm.trans hget')
  exact hlifecycle hready

/-- A backend nobody leases changes. -/
theorem Ledger.set_idle (h : Ledger entries leases loads) (hget : entries.get? name = some entry)
    (hidle : leases.countP (outstanding name) = 0)
    (hactive : entry'.activeLeases = entry.activeLeases)
    (hgeneration : entry'.generation = entry.generation) (hlifecycle : entry'.lifecycle ≠ .READY)
    (htarget : entry'.target = none ∨ entry'.target = entry.target) :
    Ledger (entries.set name entry') leases loads where
  refers := by
    intro lease hmem hopen
    have hne : name ≠ lease.name := by
      rintro rfl
      exact List.countP_eq_zero.mp hidle lease hmem (outstanding_iff.mpr ⟨rfl, hopen⟩)
    rw [Dict.get?_set_ne hne]
    exact h.refers lease hmem hopen
  counts := by
    intro name₁ entry₁ hget₁
    rcases set_cases hget₁ with ⟨rfl, rfl⟩ | ⟨_, hold⟩
    · rw [hactive]
      exact h.counts name entry hget
    · exact h.counts name₁ entry₁ hold
  ready := by
    intro name₁ entry₁ hget₁ hready
    rcases set_cases hget₁ with ⟨rfl, rfl⟩ | ⟨_, hold⟩
    · exact absurd hready hlifecycle
    · exact h.ready name₁ entry₁ hold hready
  known := by
    intro name₁ entry₁ target hget₁ hsome
    rcases set_cases hget₁ with ⟨rfl, rfl⟩ | ⟨_, hold⟩
    · rcases htarget with hnone | hsame
      · exact absurd (hnone.symm.trans hsome) (by simp)
      · exact h.known name entry target hget (hsame.symm.trans hsome)
    · exact h.known name₁ entry₁ target hold hsome
  fresh := by
    intro load hmem
    obtain ⟨entry₁, hget₁, hle⟩ := h.fresh load hmem
    rcases get_cases hget hget₁ with ⟨rfl, hset⟩ | hset
    · exact ⟨entry', hset entry', hgeneration ▸ hle⟩
    · exact ⟨entry₁, hset _, hle⟩
  functional := h.functional
  unshared := h.unshared

theorem Ledger.registers (h : Ledger entries leases loads) (hget : entries.get? name = none)
    (descriptor : BackendDescriptor) (now : ℚ) :
    Ledger (entries.set name { descriptor := descriptor, lastUsed := now }) leases loads where
  refers := by
    intro lease hmem hopen
    obtain ⟨entry, hentry, hrest⟩ := h.refers lease hmem hopen
    have hne : name ≠ lease.name := by
      rintro rfl
      exact absurd (hget.symm.trans hentry) (by simp)
    exact ⟨entry, (Dict.get?_set_ne hne).trans hentry, hrest⟩
  counts := by
    intro name₁ entry₁ hget₁
    rcases set_cases hget₁ with ⟨rfl, rfl⟩ | ⟨_, hold⟩
    · refine (List.countP_eq_zero.mpr fun lease hmem hout => ?_).symm
      obtain ⟨hname, hopen⟩ := outstanding_iff.mp hout
      obtain ⟨entry, hentry, _⟩ := h.refers lease hmem hopen
      rw [hname, hget] at hentry
      exact absurd hentry (by simp)
    · exact h.counts name₁ entry₁ hold
  ready := by
    intro name₁ entry₁ hget₁ hready
    rcases set_cases hget₁ with ⟨rfl, rfl⟩ | ⟨_, hold⟩
    · exact absurd hready (by simp)
    · exact h.ready name₁ entry₁ hold hready
  known := by
    intro name₁ entry₁ target hget₁ hsome
    rcases set_cases hget₁ with ⟨rfl, rfl⟩ | ⟨_, hold⟩
    · exact absurd hsome (by simp)
    · exact h.known name₁ entry₁ target hold hsome
  fresh := by
    intro load hmem
    obtain ⟨entry₁, hget₁, hle⟩ := h.fresh load hmem
    have hne : name ≠ load.1 := by
      rintro rfl
      exact absurd (hget.symm.trans hget₁) (by simp)
    exact ⟨entry₁, (Dict.get?_set_ne hne).trans hget₁, hle⟩
  functional := h.functional
  unshared := h.unshared

/-- A lease more counts for its own backend alone. -/
theorem countP_lent (name₁ : PyStr) (hopen : lease.returned = false) :
    (leases ++ [lease]).countP (outstanding name₁) =
      leases.countP (outstanding name₁) + if lease.name = name₁ then 1 else 0 := by
  rw [List.countP_append, List.countP_singleton]
  simp [outstanding_iff, hopen]

/-- The loaded instance is leased. -/
theorem Ledger.lends (h : Ledger entries leases loads) (hget : entries.get? name = some entry)
    (hready : entry.lifecycle = .READY) (now : ℚ) :
    Ledger (entries.set name
        { entry with activeLeases := entry.activeLeases + 1, lastUsed := now })
      (leases ++ [{ name := name, generation := entry.generation, target := entry.target }])
      loads where
  refers := by
    intro lease hmem hopen
    rcases List.mem_append.mp hmem with hold | hnew
    · obtain ⟨entry₁, hget₁, hrest⟩ := h.refers lease hold hopen
      rcases get_cases hget hget₁ with ⟨rfl, hset⟩ | hset
      · exact ⟨_, hset _, hrest⟩
      · exact ⟨entry₁, hset _, hrest⟩
    · obtain rfl := List.mem_singleton.mp hnew
      exact ⟨_, Dict.get?_set_self, hready, rfl, rfl⟩
  counts := by
    intro name₁ entry₁ hget₁
    rw [countP_lent name₁ rfl]
    rcases set_cases hget₁ with ⟨rfl, rfl⟩ | ⟨hne, hold⟩
    · rw [if_pos rfl, ← h.counts name entry hget]
    · rw [if_neg hne, h.counts name₁ entry₁ hold, Nat.add_zero]
  ready := by
    intro name₁ entry₁ hget₁ hready₁
    rcases set_cases hget₁ with ⟨rfl, rfl⟩ | ⟨_, hold⟩
    · exact h.ready name entry hget hready
    · exact h.ready name₁ entry₁ hold hready₁
  known := by
    intro name₁ entry₁ target hget₁ hsome
    rcases set_cases hget₁ with ⟨rfl, rfl⟩ | ⟨_, hold⟩
    · exact h.known name entry target hget hsome
    · exact h.known name₁ entry₁ target hold hsome
  fresh := by
    intro load hmem
    obtain ⟨entry₁, hget₁, hle⟩ := h.fresh load hmem
    rcases get_cases hget hget₁ with ⟨rfl, hset⟩ | hset
    · exact ⟨_, hset _, hle⟩
    · exact ⟨entry₁, hset _, hle⟩
  functional := h.functional
  unshared := h.unshared

/-- The instance the factory has returned is entered, and leased. -/
theorem Ledger.enters (h : Ledger entries leases loads) (hget : entries.get? name = some entry)
    (hlifecycle : entry.lifecycle ≠ .READY) (target : Option ℕ) (now : ℚ)
    (hown : ∀ load ∈ loads, ∀ t, target = some t → load.2.2 = some t → load.1 = name) :
    Ledger (entries.set name { entry with
          target := target
          generation := entry.generation + 1
          activeLeases := 1
          lastUsed := now
          lifecycle := .READY })
      (leases ++ [{ name := name, generation := entry.generation + 1, target := target }])
      (loads ++ [(name, entry.generation + 1, target)]) where
  refers := by
    intro lease hmem hopen
    rcases List.mem_append.mp hmem with hold | hnew
    · have hne : name ≠ lease.name := by
        rintro rfl
        exact List.countP_eq_zero.mp (h.idle hget hlifecycle) lease hold
          (outstanding_iff.mpr ⟨rfl, hopen⟩)
      rw [Dict.get?_set_ne hne]
      exact h.refers lease hold hopen
    · obtain rfl := List.mem_singleton.mp hnew
      exact ⟨_, Dict.get?_set_self, rfl, rfl, rfl⟩
  counts := by
    intro name₁ entry₁ hget₁
    rw [countP_lent name₁ rfl]
    rcases set_cases hget₁ with ⟨rfl, rfl⟩ | ⟨hne, hold⟩
    · rw [if_pos rfl, h.idle hget hlifecycle]
    · rw [if_neg hne, h.counts name₁ entry₁ hold, Nat.add_zero]
  ready := by
    intro name₁ entry₁ hget₁ hready
    rcases set_cases hget₁ with ⟨rfl, rfl⟩ | ⟨_, hold⟩
    · exact List.mem_append_right loads (List.mem_singleton.mpr rfl)
    · exact List.mem_append_left _ (h.ready name₁ entry₁ hold hready)
  known := by
    intro name₁ entry₁ target₁ hget₁ hsome
    rcases set_cases hget₁ with ⟨rfl, rfl⟩ | ⟨_, hold⟩
    · exact ⟨_, List.mem_append_right loads (List.mem_singleton.mpr (by rw [← hsome]))⟩
    · obtain ⟨generation, hmem⟩ := h.known name₁ entry₁ target₁ hold hsome
      exact ⟨generation, List.mem_append_left _ hmem⟩
  fresh := by
    intro load hmem
    rcases List.mem_append.mp hmem with hold | hnew
    · obtain ⟨entry₁, hget₁, hle⟩ := h.fresh load hold
      rcases get_cases hget hget₁ with ⟨rfl, hset⟩ | hset
      · exact ⟨_, hset _, Nat.le_succ_of_le hle⟩
      · exact ⟨entry₁, hset _, hle⟩
    · obtain rfl := List.mem_singleton.mp hnew
      exact ⟨_, Dict.get?_set_self, Nat.le_refl _⟩
  functional := by
    -- the new generation is above those the backend had
    have hfresh : ∀ target₁, (name, entry.generation + 1, target₁) ∉ loads := by
      intro target₁ hmem
      obtain ⟨entry₁, hget₁, hle⟩ := h.fresh _ hmem
      obtain rfl := Option.some_inj.mp (hget.symm.trans hget₁)
      exact absurd hle (Nat.not_succ_le_self _)
    intro name₁ generation target₁ target₂ hmem₁ hmem₂
    rcases List.mem_append.mp hmem₁ with hold₁ | hnew₁ <;>
      rcases List.mem_append.mp hmem₂ with hold₂ | hnew₂
    · exact h.functional name₁ generation target₁ target₂ hold₁ hold₂
    · obtain ⟨rfl, rfl, _⟩ := by simpa using hnew₂
      exact absurd hold₁ (hfresh target₁)
    · obtain ⟨rfl, rfl, _⟩ := by simpa using hnew₁
      exact absurd hold₂ (hfresh target₂)
    · obtain ⟨_, _, rfl⟩ := by simpa using hnew₁
      obtain ⟨_, _, rfl⟩ := by simpa using hnew₂
      rfl
  unshared := by
    intro name₁ name₂ generation₁ generation₂ t hmem₁ hmem₂
    rcases List.mem_append.mp hmem₁ with hold₁ | hnew₁ <;>
      rcases List.mem_append.mp hmem₂ with hold₂ | hnew₂
    · exact h.unshared name₁ name₂ generation₁ generation₂ t hold₁ hold₂
    · obtain ⟨rfl, _, htarget⟩ := by simpa using hnew₂
      exact hown _ hold₁ t htarget.symm rfl
    · obtain ⟨rfl, _, htarget⟩ := by simpa using hnew₁
      exact (hown _ hold₂ t htarget.symm rfl).symm
    · obtain ⟨rfl, _⟩ := by simpa using hnew₁
      obtain ⟨rfl, _⟩ := by simpa using hnew₂
      rfl

/-- `_released` is set. -/
theorem Ledger.marks (h : Ledger entries leases loads) {l : ℕ} (hlease : leases[l]? = some lease) :
    Ledger entries (leases.set l { lease with released := true }) loads where
  refers := by
    intro lease₁ hmem hopen
    rcases List.mem_or_eq_of_mem_set hmem with hold | rfl
    · exact h.refers lease₁ hold hopen
    · exact h.refers lease (List.mem_of_getElem? hlease) hopen
  counts := by
    obtain ⟨hlt, hat⟩ := List.getElem?_eq_some_iff.mp hlease
    intro name₁ entry₁ hget₁
    rw [h.counts name₁ entry₁ hget₁, List.countP_set hlt, hat]
    have hpos : outstanding name₁ lease = true → 0 < leases.countP (outstanding name₁) := fun hout =>
      List.countP_pos_iff.mpr ⟨lease, List.mem_of_getElem? hlease, hout⟩
    have hsame : outstanding name₁ { lease with released := true } = outstanding name₁ lease := rfl
    rw [hsame]
    split_ifs with hout
    · have := hpos hout
      omega
    · omega
  ready := h.ready
  known := h.known
  fresh := h.fresh
  functional := h.functional
  unshared := h.unshared

/-- The registry is told of the release of an outstanding lease. -/
theorem Ledger.returns (h : Ledger entries leases loads) {l : ℕ} (hlease : leases[l]? = some lease)
    (hopen : lease.returned = false) (hget : entries.get? lease.name = some entry) (now : ℚ) :
    Ledger (entries.set lease.name
        { entry with activeLeases := entry.activeLeases - 1, lastUsed := now })
      (leases.set l { lease with returned := true }) loads := by
  have hmem : lease ∈ leases := List.mem_of_getElem? hlease
  refine ⟨?_, ?_, ?_, ?_, ?_, h.functional, h.unshared⟩
  · intro lease₁ hmem₁ hopen₁
    rcases List.mem_or_eq_of_mem_set hmem₁ with hold | rfl
    · obtain ⟨entry₁, hget₁, hrest⟩ := h.refers lease₁ hold hopen₁
      rcases get_cases hget hget₁ with ⟨rfl, hset⟩ | hset
      · exact ⟨_, hset _, hrest⟩
      · exact ⟨entry₁, hset _, hrest⟩
    · exact absurd hopen₁ (by simp)
  · obtain ⟨hlt, hat⟩ := List.getElem?_eq_some_iff.mp hlease
    intro name₁ entry₁ hget₁
    rw [List.countP_set hlt, hat]
    have hclosed : outstanding name₁ { lease with returned := true } = false := by
      simp [outstanding]
    rw [hclosed]
    rcases set_cases hget₁ with ⟨rfl, rfl⟩ | ⟨hne, hold⟩
    · rw [if_pos (outstanding_iff.mpr ⟨rfl, hopen⟩), ← h.counts lease.name entry hget]
      simp
    · rw [if_neg fun hout => hne (outstanding_iff.mp hout).1, ← h.counts name₁ entry₁ hold]
      simp
  · intro name₁ entry₁ hget₁ hready
    rcases set_cases hget₁ with ⟨rfl, rfl⟩ | ⟨_, hold⟩
    · exact h.ready lease.name entry hget hready
    · exact h.ready name₁ entry₁ hold hready
  · intro name₁ entry₁ target hget₁ hsome
    rcases set_cases hget₁ with ⟨rfl, rfl⟩ | ⟨_, hold⟩
    · exact h.known lease.name entry target hget hsome
    · exact h.known name₁ entry₁ target hold hsome
  · intro load hload
    obtain ⟨entry₁, hget₁, hle⟩ := h.fresh load hload
    rcases get_cases hget hget₁ with ⟨rfl, hset⟩ | hset
    · exact ⟨_, hset _, hle⟩
    · exact ⟨entry₁, hset _, hle⟩

end Ledger

end Inference.BackendRegistry
