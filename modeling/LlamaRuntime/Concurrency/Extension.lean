/-
Systems over an extended state.

A proof may need to see more than the state of a system holds: what has happened
so far, or where a thread stands.  The state is then extended by a component that
some actions write and none reads.

* `Thread.within` — a thread that leaves the component alone;
* `Thread.noteFirst`, `Thread.noted` — a thread whose first action writes it, and a
  block that does;
* `Triple.within`, `Triple.noteFirst` — what is proved of a thread holds of its
  extension;
* `Thread.Erases`, `System.run_erases` — without the component, the runs of the
  extended system are those of the system itself.
-/
import LlamaRuntime.Concurrency.Thread

namespace Thread

variable {σ τ ι ε α β : Type}

/-- The thread leaves the component alone. -/
def within (τ : Type) : Thread σ ι ε α → Thread (σ × τ) ι ε α
  | .pure a => .pure a
  | .raise e => .raise e
  | .act upd next => .act (fun s i => (upd s.1 i, s.2)) fun s i => (next s.1 i).within τ

/-- The first action of the thread writes the component, the others leave it alone. -/
def noteFirst (note : σ → ι → τ → τ) : Thread σ ι ε α → Thread (σ × τ) ι ε α
  | .pure a => .pure a
  | .raise e => .raise e
  | .act upd next =>
    .act (fun s i => (upd s.1 i, note s.1 i s.2)) fun s i => (next s.1 i).within τ

/-- A block that writes the component. -/
def noted (note : σ → ι → τ → τ) (block : σ → ι → Except ε α × σ) (s : σ × τ) (i : ι) :
    Except ε α × (σ × τ) :=
  ((block s.1 i).1, ((block s.1 i).2, note s.1 i s.2))

/-! ### What is proved of a thread holds of its extension -/

/-- The protocol `D` is the protocol `C` on a state with a further component: as long
as `F` holds of the component, an action that changes the state by `R` keeps its
invariant. -/
structure Extends (D : Protocol (σ × τ) ι) (C : Protocol σ ι) (F : τ → Prop)
    (R : σ → σ → Prop) : Prop where
  inv : ∀ s, D.inv s → C.inv s.1
  rely : ∀ s s', D.rely s s' → C.rely s.1 s'.1
  allow : ∀ s i s', D.allow s i s' → C.allow s.1 i s'.1
  keep : ∀ s s' x, D.inv (s, x) → F x → R s s' → C.inv s' → D.inv (s', x)
  stable : ∀ s s', D.rely s s' → F s.2 → F s'.2

theorem confined_true (t : Thread σ ι ε α) :
    t.Confined (fun _ _ => True) (fun _ => True) fun _ => True := by
  induction t with
  | pure a => trivial
  | raise e => trivial
  | act upd next ih => exact fun s i => ⟨trivial, ih s i⟩

variable {D : Protocol (σ × τ) ι} {C : Protocol σ ι} {F : τ → Prop} {R : σ → σ → Prop}
  {P : σ → Prop} {Q : α → σ → Prop} {E : ε → σ → Prop} {V : α → Prop} {X : ε → Prop}

theorem Safe.within (h : Extends D C F R) {t : Thread σ ι ε α} : ∀ {s : σ × τ},
    t.Safe C Q E s.1 → t.Confined R V X → F s.2 →
      (t.within τ).Safe D (fun a s => Q a s.1 ∧ F s.2) (fun e s => E e s.1 ∧ F s.2) s := by
  induction t with
  | pure a =>
    intro s hs _ hF s' hr hi
    exact ⟨hs s'.1 (h.rely s s' hr) (h.inv s' hi), h.stable s s' hr hF⟩
  | raise e =>
    intro s hs _ hF s' hr hi
    exact ⟨hs s'.1 (h.rely s s' hr) (h.inv s' hi), h.stable s s' hr hF⟩
  | act upd next ih =>
    intro s hs ht hF s' hr hi i ha
    have hF' := h.stable s s' hr hF
    obtain ⟨hi', hnext⟩ := hs s'.1 (h.rely s s' hr) (h.inv s' hi) i (h.allow s' i _ ha)
    obtain ⟨hchange, hrest⟩ := ht s'.1 i
    exact ⟨h.keep _ _ _ hi hF' hchange hi', ih s'.1 i hnext hrest hF'⟩

theorem Triple.within (h : Extends D C F R) {t : Thread σ ι ε α} (ht : Triple C P t Q E)
    (hc : t.Confined R V X) :
    Triple D (fun s => P s.1 ∧ F s.2) (t.within τ) (fun a s => Q a s.1 ∧ F s.2)
      fun e s => E e s.1 ∧ F s.2 :=
  fun s hi hs => Safe.within h (ht s.1 (h.inv s hi) hs.1) hc hs.2

/-- A thread that leaves the component alone keeps what its single changes keep. -/
theorem Confined.within {P : σ × τ → Prop} {t : Thread σ ι ε α} (hc : t.Confined R V X)
    (hP : D.Stable P) (hstep : ∀ s i s' x, D.inv (s, x) → D.allow (s, x) i (s', x) → R s s' →
      P (s, x) → D.inv (s', x) ∧ P (s', x)) :
    Triple D P (t.within τ) (fun a s => P s ∧ V a) fun e s => P s ∧ X e := by
  intro s hi hs
  induction t generalizing s with
  | pure a => exact fun s' hr hi' => ⟨hP s s' hi hr hi' hs, hc⟩
  | raise e => exact fun s' hr hi' => ⟨hP s s' hi hr hi' hs, hc⟩
  | act upd next ih =>
    intro s' hr hi' i ha
    obtain ⟨hR, hnext⟩ := hc s'.1 i
    obtain ⟨hi'', hP'⟩ := hstep s'.1 i _ s'.2 hi' ha hR (hP s s' hi hr hi' hs)
    exact ⟨hi'', ih s'.1 i hnext _ hi'' hP'⟩

/-- The first action writes the component; what it has to keep is shown of it alone. -/
theorem Triple.noteFirst (h : Extends D C F R) {upd : σ → ι → σ}
    {next : σ → ι → Thread σ ι ε α} {note : σ → ι → τ → τ}
    (hfirst : ∀ s i, D.inv s → C.inv (upd s.1 i) →
      D.inv (upd s.1 i, note s.1 i s.2) ∧ F (note s.1 i s.2))
    (ht : Triple C P (.act upd next) Q E) (hrest : ∀ s i, (next s i).Confined R V X) :
    Triple D (fun s => P s.1) ((Thread.act upd next).noteFirst note)
      (fun a s => Q a s.1 ∧ F s.2) fun e s => E e s.1 ∧ F s.2 := by
  intro s hi hs s' hr hi' i ha
  obtain ⟨hi'', hnext⟩ := ht s.1 (h.inv s hi) hs s'.1 (h.rely s s' hr) (h.inv s' hi') i
    (h.allow s' i _ ha)
  obtain ⟨hinv, hF⟩ := hfirst s' i hi' hi''
  exact ⟨hinv, Safe.within h hnext (hrest s'.1 i) hF⟩

/-! ### Erasure -/

/-- The extended thread does to the state what the other thread does, and ends as
it does. -/
inductive Erases : Thread (σ × τ) ι ε α → Thread σ ι ε α → Prop where
  | pure (a : α) : Erases (.pure a) (.pure a)
  | raise (e : ε) : Erases (.raise e) (.raise e)
  | act {upd' : σ × τ → ι → σ × τ} {next' : σ × τ → ι → Thread (σ × τ) ι ε α}
      {upd : σ → ι → σ} {next : σ → ι → Thread σ ι ε α}
      (state : ∀ s i, (upd' s i).1 = upd s.1 i)
      (rest : ∀ s i, Erases (next' s i) (next s.1 i)) :
      Erases (.act upd' next') (.act upd next)

theorem erases_within (t : Thread σ ι ε α) : Erases (t.within τ) t := by
  induction t with
  | pure a => exact .pure a
  | raise e => exact .raise e
  | act upd next ih => exact .act (fun _ _ => rfl) fun s i => ih s.1 i

theorem erases_noteFirst (note : σ → ι → τ → τ) (t : Thread σ ι ε α) :
    Erases (t.noteFirst note) t := by
  cases t with
  | pure a => exact .pure a
  | raise e => exact .raise e
  | act upd next => exact .act (fun _ _ => rfl) fun s i => erases_within (next s.1 i)

theorem Erases.bind {t' : Thread (σ × τ) ι ε α} {t : Thread σ ι ε α}
    {k' : α → Thread (σ × τ) ι ε β} {k : α → Thread σ ι ε β} (ht : Erases t' t)
    (hk : ∀ a, Erases (k' a) (k a)) : Erases (t' >>= k') (t >>= k) := by
  induction ht with
  | pure a => exact hk a
  | raise e => exact .raise e
  | act state _ ih => exact .act state ih

theorem Erases.tryCatch {t' : Thread (σ × τ) ι ε α} {t : Thread σ ι ε α}
    {k' : ε → Thread (σ × τ) ι ε α} {k : ε → Thread σ ι ε α} (ht : Erases t' t)
    (hk : ∀ e, Erases (k' e) (k e)) : Erases (t'.tryCatch k') (t.tryCatch k) := by
  induction ht with
  | pure a => exact .pure a
  | raise e => exact hk e
  | act state _ ih => exact .act state ih

theorem Erases.ite {c : Prop} [Decidable c] {t' u' : Thread (σ × τ) ι ε α}
    {t u : Thread σ ι ε α} (ht : Erases t' t) (hu : Erases u' u) :
    Erases (if c then t' else u') (if c then t else u) := by
  by_cases hc : c
  · rw [if_pos hc, if_pos hc]
    exact ht
  · rw [if_neg hc, if_neg hc]
    exact hu

theorem Erases.forM {f' : β → Thread (σ × τ) ι ε PUnit} {f : β → Thread σ ι ε PUnit}
    (h : ∀ x, Erases (f' x) (f x)) : ∀ xs : List β, Erases (xs.forM f') (xs.forM f)
  | [] => .pure _
  | x :: rest => .bind (h x) fun _ => Erases.forM h rest

theorem Erases.atomic {block' : σ × τ → ι → Except ε α × (σ × τ)}
    {block : σ → ι → Except ε α × σ} (hresult : ∀ s i, (block' s i).1 = (block s.1 i).1)
    (hstate : ∀ s i, (block' s i).2.1 = (block s.1 i).2) :
    Erases (.atomic block') (.atomic block) := by
  refine .act hstate fun s i => ?_
  rw [hresult s i]
  cases (block s.1 i).1 with
  | ok a => exact .pure a
  | error e => exact .raise e

theorem erases_noted (note : σ → ι → τ → τ) (block : σ → ι → Except ε α × σ) :
    Erases (.atomic (noted note block)) (.atomic block) :=
  .atomic (fun _ _ => rfl) fun _ _ => rfl

end Thread

namespace System

variable {σ τ ι ε κ : Type} {S' : System (σ × τ) ι ε κ} {S : System σ ι ε κ}

/-- Both workers stand at the same place. -/
inductive ControlErases : Control (σ × τ) ι ε → Control σ ι ε → Prop where
  | looping {t' : Thread (σ × τ) ι ε Bool} {t : Thread σ ι ε Bool} (h : t'.Erases t) :
      ControlErases (.looping t') (.looping t)
  | handling {t' : Thread (σ × τ) ι ε Unit} {t : Thread σ ι ε Unit} (h : t'.Erases t) :
      ControlErases (.handling t') (.handling t)
  | returned : ControlErases .returned .returned
  | handled : ControlErases .handled .handled
  | died (e : ε) : ControlErases (.died e) (.died e)

/-- The extended system does what the system does. -/
structure SystemErases (S' : System (σ × τ) ι ε κ) (S : System σ ι ε κ) : Prop where
  body : S'.body.Erases S.body
  handler : ∀ e, (S'.handler e).Erases (S.handler e)
  client : ∀ k s, (S'.client k s).1 = S.client k s.1

theorem step_erases (h : SystemErases S' S) {c' : Config (σ × τ) ι ε} {c : Config σ ι ε}
    (hshared : c'.shared.1 = c.shared) (hcontrol : ControlErases c'.control c.control)
    (m : Move ι κ) :
    (S'.step c' m).shared.1 = (S.step c m).shared ∧
      ControlErases (S'.step c' m).control (S.step c m).control := by
  cases m with
  | client k =>
    refine ⟨?_, hcontrol⟩
    show (S'.client k c'.shared).1 = S.client k c.shared
    rw [h.client, hshared]
  | worker i =>
    obtain ⟨s', control'⟩ := c'
    obtain ⟨s, control⟩ := c
    dsimp only at hshared hcontrol
    subst hshared
    cases hcontrol with
    | looping ht =>
      cases ht with
      | pure again =>
        cases again with
        | true => exact ⟨rfl, .looping h.body⟩
        | false => exact ⟨rfl, .returned⟩
      | raise e => exact ⟨rfl, .handling (h.handler e)⟩
      | act state rest => exact ⟨state s' i, .looping (rest s' i)⟩
    | handling ht =>
      cases ht with
      | pure a => exact ⟨rfl, .handled⟩
      | raise e => exact ⟨rfl, .died e⟩
      | act state rest => exact ⟨state s' i, .handling (rest s' i)⟩
    | returned => exact ⟨rfl, .returned⟩
    | handled => exact ⟨rfl, .handled⟩
    | died e => exact ⟨rfl, .died e⟩

/-- **Erasure**: without the component, a run of the extended system is a run of
the system. -/
theorem run_erases (h : SystemErases S' S) (s : σ) (x : τ) (moves : List (Move ι κ)) :
    (S'.run (S'.start (s, x)) moves).shared.1 = (S.run (S.start s) moves).shared := by
  have hrun : ∀ (moves : List (Move ι κ)) (c' : Config (σ × τ) ι ε) (c : Config σ ι ε),
      c'.shared.1 = c.shared → ControlErases c'.control c.control →
        (S'.run c' moves).shared.1 = (S.run c moves).shared := by
    intro moves
    induction moves with
    | nil => exact fun _ _ hshared _ => hshared
    | cons m rest ih =>
      intro c' c hshared hcontrol
      obtain ⟨hshared', hcontrol'⟩ := step_erases h hshared hcontrol m
      exact ih _ _ hshared' hcontrol'
  exact hrun moves _ _ rfl (.looping h.body)

/-! ### Invariants of a run -/

open Thread (Protocol Triple)

variable {U : System σ ι ε κ} {C : Protocol σ ι} {E : ε → σ → Prop}

/-- Where every action is allowed, what the worker and the clients keep holds in
every run. -/
theorem run_kept (hallow : ∀ s i s', C.allow s i s')
    (hbody : Triple C (fun _ => True) U.body (fun _ _ => True) E)
    (hhandler : ∀ e, Triple C (E e) (U.handler e) (fun _ _ => True) fun _ _ => True)
    (hclient : ∀ s k, C.inv s → C.inv (U.client k s) ∧ C.rely s (U.client k s)) {s : σ}
    (h : C.inv s) (moves : List (Move ι κ)) : C.inv (U.run (U.start s) moves).shared := by
  let A : Annotation σ ε :=
    { head := fun _ => True
      crash := E
      entering := fun _ _ => True
      returned := fun _ => True
      handled := fun _ => True
      died := fun _ _ => True }
  have hpermits : ∀ (moves : List (Move ι κ)) (c : Config σ ι ε),
      U.Along (Permits C A fun _ _ => True) c moves := by
    intro moves
    induction moves with
    | nil => exact fun _ => trivial
    | cons m rest ih =>
      refine fun c => ⟨?_, ih _⟩
      cases m with
      | client k => trivial
      | worker i => exact permits_worker (S := U) (fun _ _ => trivial) (hallow _ _ _)
  refine (run_ok (S := U) (C := C) (A := A) (K := fun _ _ => True) ?_ (fun e => ?_)
    (fun s k hs _ => hclient s k hs) h trivial (hpermits moves _)).1
  · refine hbody.conseq (fun _ _ h => h) (fun again s _ _ => ?_) fun _ _ _ h => h
    cases again <;> trivial
  · exact (hhandler e).conseq (fun _ _ h => h.1) (fun _ _ _ h => h) fun _ _ _ h => h

end System
