/-
Threads as resumptions, with rely/guarantee rules.

A `Thread` performs atomic actions on a shared state.  Between two of them the
rest of the system may change that state, and each action may depend on an
answer of the outside world (a clock reading, the result of a foreign call).

* `Thread.Safe` — from a given state, every action of the thread keeps the
  invariant whatever the other parties do in between, and the final value (or
  the exception raised) satisfies its postcondition;
* `Triple.bind`, `Triple.tryCatch`, `Triple.atomic`, `Triple.forM` — the rules
  by which such statements compose;
* `Thread.Confined` — what a thread does, returns and raises in any state;
* `System.run_ok` — soundness for a worker that repeats its body until it says
  stop and then, if the body raised, runs a handler, while clients act on the
  same state;
* `System.leaves_handling` — the handler, if scheduled often enough, ends.
-/
import Mathlib.Logic.Basic
import Mathlib.Order.Basic
import Mathlib.Order.Nat

/-- A thread over the shared state `σ`: it has ended with a value, has raised,
or is about to perform one atomic action whose effect and continuation depend
on the state it finds and on an answer `ι` of the outside world. -/
inductive Thread (σ ι ε α : Type) where
  | pure (a : α)
  | raise (e : ε)
  | act (upd : σ → ι → σ) (next : σ → ι → Thread σ ι ε α)

namespace Thread

variable {σ ι ε κ α β : Type}

def bind : Thread σ ι ε α → (α → Thread σ ι ε β) → Thread σ ι ε β
  | .pure a, k => k a
  | .raise e, _ => .raise e
  | .act upd next, k => .act upd fun s i => (next s i).bind k

def tryCatch : Thread σ ι ε α → (ε → Thread σ ι ε α) → Thread σ ι ε α
  | .pure a, _ => .pure a
  | .raise e, k => k e
  | .act upd next, k => .act upd fun s i => (next s i).tryCatch k

instance : Monad (Thread σ ι ε) where
  pure := .pure
  bind := .bind

/-- One atomic block: it leaves a new state behind also when it raises. -/
def atomic (block : σ → ι → Except ε α × σ) : Thread σ ι ε α :=
  .act (fun s i => (block s i).2) fun s i =>
    match (block s i).1 with
    | .ok a => .pure a
    | .error e => .raise e

/-- An atomic update that cannot raise. -/
def modify (f : σ → σ) : Thread σ ι ε Unit := .act (fun s _ => f s) fun _ _ => .pure ()

/-- An atomic read of the shared state. -/
def read (f : σ → α) : Thread σ ι ε α := .act (fun s _ => s) fun s _ => .pure (f s)

/-- What a group of results assumes about a system: the invariant, the changes
the other parties may make between two actions of the thread, and the actions
(state before, answer, state after) that are considered at all. -/
structure Protocol (σ ι : Type) where
  inv : σ → Prop
  rely : σ → σ → Prop
  allow : σ → ι → σ → Prop
  rely_refl : ∀ s, rely s s
  rely_trans : ∀ {s t u}, rely s t → rely t u → rely s u

variable (C : Protocol σ ι)

/-- An assertion that the other parties cannot falsify. -/
def Protocol.Stable (P : σ → Prop) : Prop :=
  ∀ s s', C.inv s → C.rely s s' → C.inv s' → P s → P s'

/-- The thread can be run from `s` under interference: each of its allowed
actions re-establishes the invariant, and it ends in `Q` or raises in `E`. -/
def Safe (Q : α → σ → Prop) (E : ε → σ → Prop) : Thread σ ι ε α → σ → Prop
  | .pure a, s => ∀ s', C.rely s s' → C.inv s' → Q a s'
  | .raise e, s => ∀ s', C.rely s s' → C.inv s' → E e s'
  | .act upd next, s => ∀ s', C.rely s s' → C.inv s' → ∀ i, C.allow s' i (upd s' i) →
      C.inv (upd s' i) ∧ (next s' i).Safe Q E (upd s' i)

variable {C} {Q Q' : α → σ → Prop} {R : β → σ → Prop} {E E' : ε → σ → Prop}

theorem Safe.rely {t : Thread σ ι ε α} {s s' : σ} (h : t.Safe C Q E s) (hs : C.rely s s') :
    t.Safe C Q E s' := by
  cases t with
  | pure a => exact fun u hu => h u (C.rely_trans hs hu)
  | raise e => exact fun u hu => h u (C.rely_trans hs hu)
  | act upd next => exact fun u hu => h u (C.rely_trans hs hu)

theorem Safe.mono {t : Thread σ ι ε α} : ∀ {s : σ}, t.Safe C Q E s →
    (∀ a s, C.inv s → Q a s → Q' a s) → (∀ e s, C.inv s → E e s → E' e s) →
    t.Safe C Q' E' s := by
  induction t with
  | pure a => exact fun h hQ _ s' hs' hi => hQ a s' hi (h s' hs' hi)
  | raise e => exact fun h _ hE s' hs' hi => hE e s' hi (h s' hs' hi)
  | act upd next ih =>
    intro s h hQ hE s' hs' hi i ha
    obtain ⟨hi', hn⟩ := h s' hs' hi i ha
    exact ⟨hi', ih s' i hn hQ hE⟩

theorem Safe.bind {t : Thread σ ι ε α} {k : α → Thread σ ι ε β} : ∀ {s : σ}, C.inv s →
    t.Safe C Q E s → (∀ a s, C.inv s → Q a s → (k a).Safe C R E s) →
    (t.bind k).Safe C R E s := by
  induction t with
  | pure a => exact fun hi h hk => hk a _ hi (h _ (C.rely_refl _) hi)
  | raise e => exact fun _ h _ => h
  | act upd next ih =>
    intro s _ h hk s' hs' hi i ha
    obtain ⟨hi', hn⟩ := h s' hs' hi i ha
    exact ⟨hi', ih s' i hi' hn hk⟩

theorem Safe.tryCatch {t : Thread σ ι ε α} {k : ε → Thread σ ι ε α} : ∀ {s : σ}, C.inv s →
    t.Safe C Q E' s → (∀ e s, C.inv s → E' e s → (k e).Safe C Q E s) →
    (t.tryCatch k).Safe C Q E s := by
  induction t with
  | pure a => exact fun _ h _ => h
  | raise e => exact fun hi h hk => hk e _ hi (h _ (C.rely_refl _) hi)
  | act upd next ih =>
    intro s _ h hk s' hs' hi i ha
    obtain ⟨hi', hn⟩ := h s' hs' hi i ha
    exact ⟨hi', ih s' i hi' hn hk⟩

/-! ### Triples -/

variable (C) in
/-- `{P} t {Q | E}` under the interference of the protocol. -/
def Triple (P : σ → Prop) (t : Thread σ ι ε α) (Q : α → σ → Prop) (E : ε → σ → Prop) : Prop :=
  ∀ s, C.inv s → P s → t.Safe C Q E s

variable {P P' : σ → Prop}

theorem Triple.conseq {t : Thread σ ι ε α} (h : Triple C P t Q E)
    (hP : ∀ s, C.inv s → P' s → P s) (hQ : ∀ a s, C.inv s → Q a s → Q' a s)
    (hE : ∀ e s, C.inv s → E e s → E' e s) : Triple C P' t Q' E' :=
  fun s hi hs => (h s hi (hP s hi hs)).mono hQ hE

theorem Triple.pure {a : α} (hQ : C.Stable (Q a)) (h : ∀ s, C.inv s → P s → Q a s) :
    Triple C P (Pure.pure a : Thread σ ι ε α) Q E :=
  fun s hi hs s' hr hi' => hQ s s' hi hr hi' (h s hi hs)

theorem Triple.raise {e : ε} (hE : C.Stable (E e)) (h : ∀ s, C.inv s → P s → E e s) :
    Triple C P (.raise e : Thread σ ι ε α) Q E :=
  fun s hi hs s' hr hi' => hE s s' hi hr hi' (h s hi hs)

theorem Triple.bind {t : Thread σ ι ε α} {k : α → Thread σ ι ε β}
    (ht : Triple C P t Q E) (hk : ∀ a, Triple C (Q a) (k a) R E) :
    Triple C P (t >>= k) R E :=
  fun s hi hs => (ht s hi hs).bind hi fun a s' hi' hq => hk a s' hi' hq

theorem Triple.tryCatch {t : Thread σ ι ε α} {k : ε → Thread σ ι ε α} {F : ε → σ → Prop}
    (ht : Triple C P t Q F) (hk : ∀ e, Triple C (F e) (k e) Q E) :
    Triple C P (t.tryCatch k) Q E :=
  fun s hi hs => (ht s hi hs).tryCatch hi fun e s' hi' he => hk e s' hi' he

theorem Triple.atomic {block : σ → ι → Except ε α × σ} (hP : C.Stable P)
    (hQ : ∀ a, C.Stable (Q a)) (hE : ∀ e, C.Stable (E e))
    (h : ∀ s i, C.inv s → P s → C.allow s i (block s i).2 → C.inv (block s i).2 ∧
      (∀ a, (block s i).1 = .ok a → Q a (block s i).2) ∧
      ∀ e, (block s i).1 = .error e → E e (block s i).2) :
    Triple C P (.atomic block) Q E := by
  intro s hi hs s' hr hi' i ha
  obtain ⟨hj, hok, herr⟩ := h s' i hi' (hP s s' hi hr hi' hs) ha
  refine ⟨hj, ?_⟩
  dsimp only
  cases hres : (block s' i).1 with
  | ok a => exact fun u hu hiu => hQ a _ u hj hu hiu (hok a hres)
  | error e => exact fun u hu hiu => hE e _ u hj hu hiu (herr e hres)

theorem Triple.modify {f : σ → σ} {Q : Unit → σ → Prop} (hP : C.Stable P)
    (hQ : C.Stable (Q ()))
    (h : ∀ s i, C.inv s → P s → C.allow s i (f s) → C.inv (f s) ∧ Q () (f s)) :
    Triple C P (.modify f) Q E := by
  intro s hi hs s' hr hi' i ha
  obtain ⟨hj, hq⟩ := h s' i hi' (hP s s' hi hr hi' hs) ha
  exact ⟨hj, fun u hu hiu => hQ _ u hj hu hiu hq⟩

theorem Triple.read {f : σ → α} (hP : C.Stable P) (hQ : ∀ a, C.Stable (Q a))
    (h : ∀ s, C.inv s → P s → Q (f s) s) : Triple C P (.read f) Q E := by
  intro s hi hs s' hr hi' i _
  exact ⟨hi', fun u hu hiu => hQ _ s' u hi' hu hiu (h s' hi' (hP s s' hi hr hi' hs))⟩

/-- A fact that does not depend on the state. -/
theorem Triple.of_fact {g : Prop} {t : Thread σ ι ε α} (h : g → Triple C P t Q E) :
    Triple C (fun s => P s ∧ g) t Q E :=
  fun s hi hs => h hs.2 s hi hs.1

theorem Triple.of_exists {P : κ → σ → Prop} {t : Thread σ ι ε α}
    (h : ∀ x, Triple C (P x) t Q E) : Triple C (fun s => ∃ x, P x s) t Q E := by
  rintro s hi ⟨x, hx⟩
  exact h x s hi hx

/-- Nothing has to be shown of a thread of which nothing is asked. -/
theorem Triple.trivial {t : Thread σ ι ε α} (hinv : ∀ s, C.inv s) (hQ : ∀ a s, Q a s)
    (hE : ∀ e s, E e s) : Triple C P t Q E := by
  have hsafe : ∀ s, t.Safe C Q E s := by
    induction t with
    | pure a => exact fun s s' _ _ => hQ a s'
    | raise e => exact fun s s' _ _ => hE e s'
    | act upd next ih => exact fun s s' _ _ i _ => ⟨hinv _, ih s' i _⟩
  exact fun s _ _ => hsafe s

/-- The loop rule: `P` speaks about the elements still to be visited. -/
theorem Triple.forM {P : List β → σ → Prop} {f : β → Thread σ ι ε PUnit}
    (hP : C.Stable (P [])) (h : ∀ x rest, Triple C (P (x :: rest)) (f x) (fun _ => P rest) E) :
    ∀ xs : List β, Triple C (P xs) (xs.forM f) (fun _ => P []) E
  | [] => Triple.pure hP fun _ _ hp => hp
  | x :: rest => Triple.bind (h x rest) fun _ => Triple.forM hP h rest

theorem Triple.ite {c : Prop} [Decidable c] {t u : Thread σ ι ε α}
    (ht : c → Triple C P t Q E) (hu : ¬ c → Triple C P u Q E) :
    Triple C P (if c then t else u) Q E := by
  by_cases hc : c
  · rw [if_pos hc]
    exact ht hc
  · rw [if_neg hc]
    exact hu hc

/-! ### Threads without a precondition -/

/-- Whatever state it finds, every action changes it by `R` at most, a value
that is returned satisfies `V`, and an exception that is raised satisfies `X`. -/
def Confined (R : σ → σ → Prop) (V : α → Prop) (X : ε → Prop) : Thread σ ι ε α → Prop
  | .pure a => V a
  | .raise e => X e
  | .act upd next => ∀ s i, R s (upd s i) ∧ (next s i).Confined R V X

namespace Confined

variable {R : σ → σ → Prop} {V V' : α → Prop} {W : β → Prop} {X X' : ε → Prop}

theorem pure {a : α} (h : V a) : (Pure.pure a : Thread σ ι ε α).Confined R V X := h

theorem raise {e : ε} (h : X e) : (.raise e : Thread σ ι ε α).Confined R V X := h

theorem mono {t : Thread σ ι ε α} (h : t.Confined R V X) (hV : ∀ a, V a → V' a)
    (hX : ∀ e, X e → X' e) : t.Confined R V' X' := by
  induction t with
  | pure a => exact hV a h
  | raise e => exact hX e h
  | act upd next ih => exact fun s i => ⟨(h s i).1, ih s i (h s i).2⟩

theorem weaken {R' : σ → σ → Prop} {t : Thread σ ι ε α} (h : t.Confined R V X)
    (hR : ∀ s s', R s s' → R' s s') : t.Confined R' V X := by
  induction t with
  | pure a => exact h
  | raise e => exact h
  | act upd next ih => exact fun s i => ⟨hR _ _ (h s i).1, ih s i (h s i).2⟩

theorem bind {t : Thread σ ι ε α} {k : α → Thread σ ι ε β} (h : t.Confined R V X)
    (hk : ∀ a, V a → (k a).Confined R W X) : (t >>= k).Confined R W X := by
  induction t with
  | pure a => exact hk a h
  | raise e => exact h
  | act upd next ih => exact fun s i => ⟨(h s i).1, ih s i (h s i).2⟩

theorem tryCatch {t : Thread σ ι ε α} {k : ε → Thread σ ι ε α} (h : t.Confined R V X')
    (hk : ∀ e, X' e → (k e).Confined R V X) : (t.tryCatch k).Confined R V X := by
  induction t with
  | pure a => exact h
  | raise e => exact hk e h
  | act upd next ih => exact fun s i => ⟨(h s i).1, ih s i (h s i).2⟩

theorem ite {c : Prop} [Decidable c] {t u : Thread σ ι ε α} (ht : c → t.Confined R V X)
    (hu : ¬ c → u.Confined R V X) : (if c then t else u).Confined R V X := by
  by_cases hc : c
  · rw [if_pos hc]
    exact ht hc
  · rw [if_neg hc]
    exact hu hc

theorem atomic {block : σ → ι → Except ε α × σ} (hR : ∀ s i, R s (block s i).2)
    (hV : ∀ s i a, (block s i).1 = .ok a → V a)
    (hX : ∀ s i e, (block s i).1 = .error e → X e) :
    (Thread.atomic block).Confined R V X := by
  intro s i
  refine ⟨hR s i, ?_⟩
  dsimp only
  cases hres : (block s i).1 with
  | ok a => exact hV s i a hres
  | error e => exact hX s i e hres

theorem modify {f : σ → σ} {V : Unit → Prop} (hR : ∀ s, R s (f s)) (hV : V ()) :
    (Thread.modify f : Thread σ ι ε Unit).Confined R V X :=
  fun s _ => ⟨hR s, hV⟩

theorem read {f : σ → α} (hR : ∀ s, R s s) (hV : ∀ s, V (f s)) :
    (Thread.read f : Thread σ ι ε α).Confined R V X :=
  fun s _ => ⟨hR s, hV s⟩

/-- A confined thread keeps what its changes, and those of the other parties, keep. -/
theorem steady {C : Protocol σ ι} {P : σ → Prop} {t : Thread σ ι ε α} (h : t.Confined R V X)
    (hinv : ∀ s s', R s s' → C.inv s → C.inv s') (hP : ∀ s s', R s s' → P s → P s')
    (hrely : ∀ s s', C.rely s s' → P s → P s') :
    Triple C P t (fun a s => P s ∧ V a) fun e s => P s ∧ X e := by
  intro s _ hs
  induction t generalizing s with
  | pure a => exact fun s' hr _ => ⟨hrely s s' hr hs, h⟩
  | raise e => exact fun s' hr _ => ⟨hrely s s' hr hs, h⟩
  | act upd next ih =>
    intro s' hr hi' i _
    obtain ⟨hR, hnext⟩ := h s' i
    have hi'' := hinv s' _ hR hi'
    exact ⟨hi'', ih s' i hnext _ hi'' (hP s' _ hR (hrely s s' hr hs))⟩

end Confined

/-! ### A thread on its own -/

/-- The thread runs alone with these answers.  It is cut, and has no outcome, if
it needs more of them. -/
def exec : Thread σ ι ε α → σ → List ι → σ × Option (Except ε α)
  | .pure a, s, _ => (s, some (.ok a))
  | .raise e, s, _ => (s, some (.error e))
  | .act _ _, s, [] => (s, none)
  | .act upd next, s, i :: rest => (next s i).exec (upd s i) rest

theorem exec_atomic {block : σ → ι → Except ε α × σ} {k : α → Thread σ ι ε β} {s : σ} {i : ι}
    {rest : List ι} {a : α} (h : (block s i).1 = .ok a) :
    (atomic block >>= k).exec s (i :: rest) = (k a).exec (block s i).2 rest := by
  show ((atomic block).bind k).exec s (i :: rest) = _
  simp only [atomic, Thread.bind, exec, h]

theorem bind_assoc {γ : Type} (t : Thread σ ι ε α) (k : α → Thread σ ι ε β)
    (m : β → Thread σ ι ε γ) : (t >>= k) >>= m = t >>= fun a => k a >>= m := by
  induction t with
  | pure a => rfl
  | raise e => rfl
  | act upd next ih => exact congrArg (Thread.act upd) (funext fun s => funext fun i => ih s i)

/-- Every action that is taken is allowed. -/
def Allowed (allow : σ → ι → σ → Prop) : Thread σ ι ε α → σ → List ι → Prop
  | .act upd next, s, i :: rest =>
    allow s i (upd s i) ∧ (next s i).Allowed allow (upd s i) rest
  | _, _, _ => True

/-- What follows a thread that has returned begins where it ended, with the
answers that are left; where a thread is cut or raises, nothing follows. -/
theorem exec_bind {allow : σ → ι → σ → Prop} (t : Thread σ ι ε α) (k : α → Thread σ ι ε β) (s : σ)
    (answers : List ι) :
    (∃ a rest, (t.exec s answers).2 = some (.ok a) ∧
      (t >>= k).exec s answers = (k a).exec (t.exec s answers).1 rest ∧
      ((t >>= k).Allowed allow s answers → (k a).Allowed allow (t.exec s answers).1 rest)) ∨
    (∃ e, (t.exec s answers).2 = some (.error e) ∧
      (t >>= k).exec s answers = ((t.exec s answers).1, some (.error e))) ∨
    (t.exec s answers).2 = none ∧ (t >>= k).exec s answers = ((t.exec s answers).1, none) := by
  induction t generalizing s answers with
  | pure a => exact .inl ⟨a, answers, rfl, rfl, id⟩
  | raise e => exact .inr (.inl ⟨e, rfl, rfl⟩)
  | act upd next ih =>
    cases answers with
    | nil => exact .inr (.inr ⟨rfl, rfl⟩)
    | cons i rest =>
      obtain ⟨a, rest', hok, hexec, hallowed⟩ | h := ih s i (upd s i) rest
      · exact .inl ⟨a, rest', hok, hexec, fun h => hallowed h.2⟩
      · exact .inr h

theorem Allowed.of_bind {allow : σ → ι → σ → Prop} {t : Thread σ ι ε α} {k : α → Thread σ ι ε β} :
    ∀ {s : σ} {answers : List ι}, (t >>= k).Allowed allow s answers → t.Allowed allow s answers := by
  induction t with
  | pure | raise => exact fun _ => trivial
  | act upd next ih =>
    intro s answers h
    cases answers with
    | nil => trivial
    | cons i rest => exact ⟨h.1, ih s i h.2⟩

/-- Without answers nothing is done. -/
theorem exec_nil {t : Thread σ ι ε α} {s : σ} : (t.exec s []).1 = s := by
  cases t <;> rfl

theorem allowed_nil {allow : σ → ι → σ → Prop} {t : Thread σ ι ε α} {s : σ} :
    t.Allowed allow s [] := by
  cases t <;> trivial

/-- The protocol of a thread with which nobody interferes. -/
def Protocol.alone (inv : σ → Prop) (allow : σ → ι → σ → Prop) : Protocol σ ι where
  inv := inv
  rely s s' := s = s'
  allow := allow
  rely_refl _ := rfl
  rely_trans := Eq.trans

variable {inv : σ → Prop} {allow : σ → ι → σ → Prop}

theorem stable_alone (P : σ → Prop) : (Protocol.alone inv allow).Stable P := by
  rintro s _ _ rfl _ hs
  exact hs

/-- A confined thread keeps what its changes keep. -/
theorem Confined.triple {R : σ → σ → Prop} {V : α → Prop} {X : ε → Prop} {P : σ → Prop}
    {t : Thread σ ι ε α} (h : t.Confined R V X) (hinv : ∀ s s', R s s' → inv s → inv s')
    (hP : ∀ s s', R s s' → P s → P s') :
    Triple (Protocol.alone inv allow) P t (fun a s => P s ∧ V a) fun e s => P s ∧ X e := by
  refine h.steady hinv hP ?_
  rintro s _ rfl hs
  exact hs

/-- What holds of an outcome, if there is one. -/
def Ends (Q : α → σ → Prop) (E : ε → σ → Prop) : σ × Option (Except ε α) → Prop
  | (s, some (.ok a)) => Q a s
  | (s, some (.error e)) => E e s
  | (_, none) => True

theorem Ends.ok {result : σ × Option (Except ε α)} {a : α} (h : Ends Q E result)
    (hresult : result.2 = some (.ok a)) : Q a result.1 := by
  obtain ⟨s, _⟩ := result
  obtain rfl := hresult
  exact h

theorem Ends.error {result : σ × Option (Except ε α)} {e : ε} (h : Ends Q E result)
    (hresult : result.2 = some (.error e)) : E e result.1 := by
  obtain ⟨s, _⟩ := result
  obtain rfl := hresult
  exact h

theorem allowed_true {t : Thread σ ι ε α} {s : σ} {answers : List ι} :
    t.Allowed (fun _ _ _ => True) s answers := by
  induction t generalizing s answers with
  | pure | raise => trivial
  | act upd next ih =>
    cases answers with
    | nil => trivial
    | cons i rest => exact ⟨trivial, ih s i⟩

/-- **Soundness for a thread on its own**: wherever it is cut the invariant
holds, and where it ends so does its postcondition. -/
theorem Safe.exec {t : Thread σ ι ε α} : ∀ {s : σ} {answers : List ι},
    t.Safe (Protocol.alone inv allow) Q E s → inv s → t.Allowed allow s answers →
      inv (t.exec s answers).1 ∧ Ends Q E (t.exec s answers) := by
  induction t with
  | pure a => exact fun h hi _ => ⟨hi, h _ rfl hi⟩
  | raise e => exact fun h hi _ => ⟨hi, h _ rfl hi⟩
  | act upd next ih =>
    intro s answers h hi ha
    cases answers with
    | nil => exact ⟨hi, trivial⟩
    | cons i rest =>
      obtain ⟨hi', hnext⟩ := h s rfl hi i ha.1
      exact ih s i hnext hi' ha.2

theorem Triple.exec {P : σ → Prop} {t : Thread σ ι ε α} {s : σ} {answers : List ι}
    (h : Triple (Protocol.alone inv allow) P t Q E) (hi : inv s) (hs : P s)
    (ha : t.Allowed allow s answers) :
    inv (t.exec s answers).1 ∧ Ends Q E (t.exec s answers) :=
  (h s hi hs).exec hi ha

end Thread

/-! ### Systems of one worker and its clients -/

/-- A worker that repeats `body` while it answers `true` and runs `handler` on
the exception that ends it otherwise; clients change the state by single atomic
operations `κ`. -/
structure System (σ ι ε κ : Type) where
  body : Thread σ ι ε Bool
  handler : ε → Thread σ ι ε Unit
  client : κ → σ → σ

/-- Where the worker is. -/
inductive Control (σ ι ε : Type) where
  | looping (t : Thread σ ι ε Bool)
  | handling (t : Thread σ ι ε Unit)
  | returned
  | handled
  | died (e : ε)

/-- One move of the system: the worker's next action with the answer it gets,
or an operation of a client. -/
inductive Move (ι κ : Type) where
  | worker (i : ι)
  | client (k : κ)

/-- The worker is gone: an exception has escaped from its handler. -/
def Control.hasDied {σ ι ε : Type} : Control σ ι ε → Bool
  | .died _ => true
  | _ => false

structure Config (σ ι ε : Type) where
  shared : σ
  control : Control σ ι ε

namespace System

variable {σ ι ε κ : Type} (S : System σ ι ε κ)

def start (s : σ) : Config σ ι ε := ⟨s, .looping S.body⟩

def step (c : Config σ ι ε) : Move ι κ → Config σ ι ε
  | .client k => { c with shared := S.client k c.shared }
  | .worker i =>
    match c.control with
    | .looping (.pure true) => { c with control := .looping S.body }
    | .looping (.pure false) => { c with control := .returned }
    | .looping (.raise e) => { c with control := .handling (S.handler e) }
    | .looping (.act upd next) => ⟨upd c.shared i, .looping (next c.shared i)⟩
    | .handling (.pure _) => { c with control := .handled }
    | .handling (.raise e) => { c with control := .died e }
    | .handling (.act upd next) => ⟨upd c.shared i, .handling (next c.shared i)⟩
    | .returned => c
    | .handled => c
    | .died _ => c

def run (c : Config σ ι ε) (moves : List (Move ι κ)) : Config σ ι ε := moves.foldl S.step c

/-- Every move of the run satisfies `P` in the configuration it is made in. -/
def Along (P : Config σ ι ε → Move ι κ → Prop) : Config σ ι ε → List (Move ι κ) → Prop
  | _, [] => True
  | c, m :: ms => P c m ∧ Along P (S.step c m) ms

instance instDecidableAlong (P : Config σ ι ε → Move ι κ → Prop) [∀ c m, Decidable (P c m)] :
    ∀ (c : Config σ ι ε) (moves : List (Move ι κ)), Decidable (S.Along P c moves)
  | _, [] => inferInstanceAs (Decidable True)
  | c, m :: ms =>
    have := instDecidableAlong P (S.step c m) ms
    inferInstanceAs (Decidable (P c m ∧ S.Along P (S.step c m) ms))

variable {S}

/-- What one move preserves, a run preserves. -/
theorem run_induction {P : Config σ ι ε → Move ι κ → Prop} {J : Config σ ι ε → Prop}
    (hstep : ∀ c m, J c → P c m → J (S.step c m)) :
    ∀ {moves : List (Move ι κ)} {c : Config σ ι ε}, J c → S.Along P c moves → J (S.run c moves)
  | [], _, hc, _ => hc
  | m :: ms, c, hc, ha =>
    show J (S.run (S.step c m) ms) from run_induction hstep (hstep c m hc ha.1) ha.2

/-- An invariant of the moves may be assumed of each of them. -/
theorem Along.and_inv {P : Config σ ι ε → Move ι κ → Prop} {J : Config σ ι ε → Prop}
    (hstep : ∀ c m, J c → P c m → J (S.step c m)) :
    ∀ {moves : List (Move ι κ)} {c : Config σ ι ε}, J c → S.Along P c moves →
      S.Along (fun c m => P c m ∧ J c) c moves
  | [], _, _, _ => trivial
  | m :: _, c, hc, ha => ⟨⟨ha.1, hc⟩, Along.and_inv hstep (hstep c m hc ha.1) ha.2⟩

theorem Along.mono {P P' : Config σ ι ε → Move ι κ → Prop} (h : ∀ c m, P c m → P' c m) :
    ∀ {moves : List (Move ι κ)} {c : Config σ ι ε}, S.Along P c moves → S.Along P' c moves
  | [], _, _ => trivial
  | m :: _, c, ha => ⟨h c m ha.1, Along.mono h ha.2⟩

/-- So may a property of every configuration such a run can reach. -/
theorem Along.and_reached {P : Config σ ι ε → Move ι κ → Prop} {J : Config σ ι ε → Prop} :
    ∀ {moves : List (Move ι κ)} {c : Config σ ι ε},
      (∀ ms, S.Along P c ms → J (S.run c ms)) → S.Along P c moves →
      S.Along (fun c m => P c m ∧ J c) c moves
  | [], _, _, _ => trivial
  | m :: _, _, hJ, ha => ⟨⟨ha.1, hJ [] trivial⟩,
      Along.and_reached (fun ms hms => hJ (m :: ms) ⟨ha.1, hms⟩) ha.2⟩

/-! ### Soundness -/

/-- The assertions of a worker: at the loop head, when the body raises, when the
loop has returned, when the handler has returned and when it has raised; and
`entering`, what is assumed of the state in which the handler starts. -/
structure Annotation (σ ε : Type) where
  head : σ → Prop
  crash : ε → σ → Prop
  entering : ε → σ → Prop
  returned : σ → Prop
  handled : σ → Prop
  died : ε → σ → Prop

/-- The moves a protocol considers, with `K` for the clients' ones. -/
def Permits (C : Thread.Protocol σ ι) (A : Annotation σ ε) (K : σ → κ → Prop)
    (c : Config σ ι ε) : Move ι κ → Prop
  | .client k => K c.shared k
  | .worker i =>
    match c.control with
    | .looping (.raise e) => A.entering e c.shared
    | .looping (.act upd _) => C.allow c.shared i (upd c.shared i)
    | .handling (.act upd _) => C.allow c.shared i (upd c.shared i)
    | _ => True

theorem permits_worker {C : Thread.Protocol σ ι} {A : Annotation σ ε} {K : σ → κ → Prop}
    {c : Config σ ι ε} {i : ι} (hraise : ∀ e, c.control = .looping (.raise e) → A.entering e c.shared)
    (hact : C.allow c.shared i (S.step c (.worker i)).shared) :
    Permits C A K c (.worker i) := by
  obtain ⟨s, ctl⟩ := c
  match ctl, hraise, hact with
  | .looping (.act _ _), _, hact => exact hact
  | .handling (.act _ _), _, hact => exact hact
  | .looping (.raise e), hraise, _ => exact hraise e rfl
  | .looping (.pure _), _, _ => trivial
  | .handling (.pure _), _, _ => trivial
  | .handling (.raise _), _, _ => trivial
  | .returned, _, _ => trivial
  | .handled, _, _ => trivial
  | .died _, _, _ => trivial

/-- The configuration is safe where the worker stands. -/
def Ok (C : Thread.Protocol σ ι) (A : Annotation σ ε) (c : Config σ ι ε) : Prop :=
  C.inv c.shared ∧
  match c.control with
  | .looping t =>
    t.Safe C (fun again s => if again then A.head s else A.returned s) A.crash c.shared
  | .handling t => t.Safe C (fun _ => A.handled) A.died c.shared
  | .returned => ∀ s, C.rely c.shared s → C.inv s → A.returned s
  | .handled => ∀ s, C.rely c.shared s → C.inv s → A.handled s
  | .died e => ∀ s, C.rely c.shared s → C.inv s → A.died e s

variable {C : Thread.Protocol σ ι} {A : Annotation σ ε} {K : σ → κ → Prop}

theorem Ok.client {c : Config σ ι ε} {s : σ} (h : Ok C A c) (hi : C.inv s)
    (hr : C.rely c.shared s) : Ok C A { c with shared := s } := by
  obtain ⟨_, hc⟩ := h
  refine ⟨hi, ?_⟩
  cases hctl : c.control with
  | looping t =>
    rw [hctl] at hc
    exact Thread.Safe.rely hc hr
  | handling t =>
    rw [hctl] at hc
    exact Thread.Safe.rely hc hr
  | returned =>
    rw [hctl] at hc
    exact fun u hu => hc u (C.rely_trans hr hu)
  | handled =>
    rw [hctl] at hc
    exact fun u hu => hc u (C.rely_trans hr hu)
  | died e =>
    rw [hctl] at hc
    exact fun u hu => hc u (C.rely_trans hr hu)

/-- What one permitted move keeps. -/
theorem Ok.step
    (hbody : Thread.Triple C A.head S.body
      (fun again s => if again then A.head s else A.returned s) A.crash)
    (hhandler : ∀ e, Thread.Triple C (fun s => A.crash e s ∧ A.entering e s) (S.handler e)
      (fun _ => A.handled) A.died)
    (hclient : ∀ s k, C.inv s → K s k → C.inv (S.client k s) ∧ C.rely s (S.client k s))
    (c : Config σ ι ε) (m : Move ι κ) (h : Ok C A c) (hm : Permits C A K c m) :
    Ok C A (S.step c m) := by
  cases m with
  | client k =>
    obtain ⟨hi, hr⟩ := hclient c.shared k h.1 hm
    exact h.client hi hr
  | worker i =>
    obtain ⟨s, ctl⟩ := c
    obtain ⟨hi, hc⟩ := h
    match ctl, hc, hm with
    | .looping (.pure true), hc, _ =>
      have hJ := hc s (C.rely_refl s) hi
      exact ⟨hi, hbody s hi (by simpa using hJ)⟩
    | .looping (.pure false), hc, _ =>
      exact ⟨hi, fun u hu hiu => by simpa using hc u hu hiu⟩
    | .looping (.raise e), hc, hm => exact ⟨hi, hhandler e s hi ⟨hc s (C.rely_refl s) hi, hm⟩⟩
    | .looping (.act upd next), hc, hm => exact hc s (C.rely_refl s) hi i hm
    | .handling (.pure _), hc, _ => exact ⟨hi, hc⟩
    | .handling (.raise e), hc, _ => exact ⟨hi, hc⟩
    | .handling (.act upd next), hc, hm => exact hc s (C.rely_refl s) hi i hm
    | .returned, hc, _ => exact ⟨hi, hc⟩
    | .handled, hc, _ => exact ⟨hi, hc⟩
    | .died e, hc, _ => exact ⟨hi, hc⟩

/-- **Soundness.**  Along a run of permitted moves from an initial state the
invariant holds and the worker stays where its annotation says. -/
theorem run_ok
    (hbody : Thread.Triple C A.head S.body
      (fun again s => if again then A.head s else A.returned s) A.crash)
    (hhandler : ∀ e, Thread.Triple C (fun s => A.crash e s ∧ A.entering e s) (S.handler e)
      (fun _ => A.handled) A.died)
    (hclient : ∀ s k, C.inv s → K s k → C.inv (S.client k s) ∧ C.rely s (S.client k s))
    {s : σ} (hi : C.inv s) (hJ : A.head s) {moves : List (Move ι κ)}
    (hm : S.Along (Permits C A K) (S.start s) moves) :
    Ok C A (S.run (S.start s) moves) :=
  run_induction (Ok.step hbody hhandler hclient) ⟨hi, hbody s hi hJ⟩ hm

/-! ### The handler ends -/

def IsWorker : Move ι κ → Prop
  | .worker _ => True
  | .client _ => False

/-- The configuration after `n` moves of an endless run. -/
def trace (S : System σ ι ε κ) (c : Config σ ι ε) (moves : ℕ → Move ι κ) (n : ℕ) : Config σ ι ε :=
  S.run c ((List.range n).map moves)

variable {c : Config σ ι ε} {moves : ℕ → Move ι κ}

theorem trace_succ (n : ℕ) :
    S.trace c moves (n + 1) = S.step (S.trace c moves n) (moves n) := by
  simp [trace, run, List.range_succ]

theorem along_trace {P : Config σ ι ε → Move ι κ → Prop}
    (h : ∀ n, P (S.trace c moves n) (moves n)) :
    ∀ n, S.Along P c ((List.range n).map moves) := by
  -- a run can be prolonged by a move
  have hsnoc : ∀ (ms : List (Move ι κ)) (c : Config σ ι ε) (m : Move ι κ),
      S.Along P c ms → P (S.run c ms) m → S.Along P c (ms ++ [m]) := by
    intro ms
    induction ms with
    | nil => exact fun c m _ hm => ⟨hm, trivial⟩
    | cons m' ms ih => exact fun c m ha hm => ⟨ha.1, ih _ m ha.2 hm⟩
  intro n
  induction n with
  | zero => trivial
  | succ n ih =>
    rw [List.range_succ, List.map_append]
    exact hsnoc _ c _ ih (h n)

/-- What a move keeps, an endless run keeps from any point on. -/
theorem trace_induction {P : Config σ ι ε → Prop} (hstep : ∀ c m, P c → P (S.step c m)) {n : ℕ}
    (hn : P (S.trace c moves n)) : ∀ k, n ≤ k → P (S.trace c moves k) := by
  intro k hk
  induction k, hk using Nat.le_induction with
  | base => exact hn
  | succ k _ ih =>
    rw [trace_succ]
    exact hstep _ _ ih

/-- The worker's next move, with the worker where it is now. -/
theorem next_worker (hfair : ∀ n, ∃ m, n ≤ m ∧ IsWorker (moves m)) (n : ℕ) :
    ∃ m i, n ≤ m ∧ moves m = .worker i ∧
      (S.trace c moves m).control = (S.trace c moves n).control := by
  obtain ⟨m, hm, hw⟩ := hfair n
  obtain ⟨d, rfl⟩ := Nat.exists_eq_add_of_le hm
  clear hm
  -- the distance to some move of the worker; the first of them is at most that far
  induction d generalizing n with
  | zero =>
    cases hmv : moves (n + 0) with
    | client k => rw [hmv] at hw; exact hw.elim
    | worker i => exact ⟨n, i, le_rfl, hmv, rfl⟩
  | succ d ih =>
    cases hmv : moves n with
    | worker i => exact ⟨n, i, le_rfl, hmv, rfl⟩
    | client k =>
      obtain ⟨m, i, hle, hmi, hctl⟩ := ih (n + 1) (by rwa [show n + 1 + d = n + (d + 1) by omega])
      refine ⟨m, i, by omega, hmi, hctl.trans ?_⟩
      rw [trace_succ, hmv]
      rfl

/-- A handler to which the worker returns again and again comes to its end: a
thread is a well-founded tree, and every action of the worker descends in it. -/
theorem leaves_handling (hfair : ∀ n, ∃ m, n ≤ m ∧ IsWorker (moves m)) (t : Thread σ ι ε Unit) :
    ∀ n, (S.trace c moves n).control = .handling t →
      ∃ m, n ≤ m ∧ ((S.trace c moves m).control = .handled ∨
        ∃ e, (S.trace c moves m).control = .died e) := by
  induction t with
  | pure a =>
    intro n hn
    obtain ⟨m, i, hle, hmi, hctl⟩ := @next_worker _ _ _ _ S c moves hfair n
    refine ⟨m + 1, by omega, .inl ?_⟩
    rw [trace_succ, hmi]
    simp only [step, hctl, hn]
  | raise e =>
    intro n hn
    obtain ⟨m, i, hle, hmi, hctl⟩ := @next_worker _ _ _ _ S c moves hfair n
    refine ⟨m + 1, by omega, .inr ⟨e, ?_⟩⟩
    rw [trace_succ, hmi]
    simp only [step, hctl, hn]
  | act upd next ih =>
    intro n hn
    obtain ⟨m, i, hle, hmi, hctl⟩ := @next_worker _ _ _ _ S c moves hfair n
    have hnext : (S.trace c moves (m + 1)).control
        = .handling (next (S.trace c moves m).shared i) := by
      rw [trace_succ, hmi]
      simp only [step, hctl, hn]
    obtain ⟨k, hk, hend⟩ := ih _ i _ hnext
    exact ⟨k, by omega, hend⟩

/-- The handler starts once the worker has seen the exception. -/
theorem enters_handling (hfair : ∀ n, ∃ m, n ≤ m ∧ IsWorker (moves m)) {e : ε} {n : ℕ}
    (hn : (S.trace c moves n).control = .looping (.raise e)) :
    ∃ m, n ≤ m ∧ (S.trace c moves m).control = .handling (S.handler e) := by
  obtain ⟨m, i, hle, hmi, hctl⟩ := @next_worker _ _ _ _ S c moves hfair n
  refine ⟨m + 1, by omega, ?_⟩
  rw [trace_succ, hmi]
  simp only [step, hctl, hn]

end System
