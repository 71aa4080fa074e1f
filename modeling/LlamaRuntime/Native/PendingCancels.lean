/-
The cancellations that arrive before their requests.

A cancellation is kept under the ids of its request until the request consumes it, for
at most `ttl`, and there are at most `maxEntries` of them.  Expired entries go when the
registry is next looked at.

* `add`, `consume`, `size` — the operations;
* `Pending` — what the history of the calls says of a key: the time of its last `add`,
  if the key has neither been consumed nor evicted since;
* `Tracks` — the entries that have not expired are those of the history;
* `registry_refines` — every run answers as the history says.
-/
import LlamaRuntime.Python.Str
import Mathlib.Data.List.Lex
import Mathlib.Data.List.MinMax
import Mathlib.Data.List.Sort
import Mathlib.Data.Prod.Lex
import Mathlib.Order.Fin.Basic

namespace Native

/-- `PendingCancelRegistry::Key`: the ids of a request and of an attempt -/
abbrev CancelKey := PyStr × PyStr

/-- Neither id is empty. -/
def CancelKey.Named (key : CancelKey) : Prop := key.1 ≠ [] ∧ key.2 ≠ []

instance (key : CancelKey) : Decidable key.Named := inferInstanceAs (Decidable (_ ∧ _))

/-- `std::map<Key, Clock::time_point>`: its elements in the order of their keys -/
abbrev CancelEntries := List (CancelKey × ℤ)

structure PendingCancelRegistry where
  maxEntries : ℕ
  ttl : ℤ
  entries : CancelEntries := []

namespace PendingCancelRegistry

/-- The constructor, which throws where a bound is not positive. -/
def construct (maxEntries : ℕ) (ttl : ℤ) : Option PendingCancelRegistry :=
  if maxEntries = 0 ∨ ttl ≤ 0 then none else some { maxEntries, ttl }

/-- `expire` -/
def expire (r : PendingCancelRegistry) (now : ℤ) : PendingCancelRegistry :=
  { r with entries := r.entries.filter fun e => ¬ e.2 ≤ now }

/-- `emplace` of a key that is not there. -/
def emplace (entries : CancelEntries) (key : CancelKey) (expiry : ℤ) : CancelEntries :=
  entries.orderedInsert (fun a b => toLex a.1 ≤ toLex b.1) (key, expiry)

/-- `std::min_element` of the entries by their times: the first of the earliest, in the
order of the integers that can be computed. -/
def minElement (entries : CancelEntries) : Option (CancelKey × ℤ) :=
  @List.argmin _ _ Int.instLinearOrder.toPreorder Int.instLinearOrder.toDecidableLT Prod.snd entries

/-- `add`, with the key that it evicts. -/
def add (r : PendingCancelRegistry) (key : CancelKey) (now : ℤ) :
    Option CancelKey × PendingCancelRegistry :=
  if ¬ key.Named then (none, r)
  else
    let r := r.expire now
    if key ∈ r.entries.map Prod.fst then
      (none, { r with
        entries := r.entries.map fun e => if e.1 = key then (e.1, now + r.ttl) else e })
    else
      match if r.maxEntries ≤ r.entries.length then minElement r.entries else none with
      | some oldest =>
        (some oldest.1,
          { r with entries := emplace (r.entries.erase oldest) key (now + r.ttl) })
      | none => (none, { r with entries := emplace r.entries key (now + r.ttl) })

/-- `consume` -/
def consume (r : PendingCancelRegistry) (key : CancelKey) (now : ℤ) : Bool × PendingCancelRegistry :=
  let r := r.expire now
  if key ∈ r.entries.map Prod.fst then
    (true, { r with entries := r.entries.filter fun e => ¬ e.1 = key })
  else (false, r)

/-- `size` -/
def size (r : PendingCancelRegistry) (now : ℤ) : ℕ × PendingCancelRegistry :=
  ((r.expire now).entries.length, r.expire now)

end PendingCancelRegistry

inductive CancelCall where
  | add (key : CancelKey) (now : ℤ)
  | consume (key : CancelKey) (now : ℤ)
  | size (now : ℤ)

inductive CancelReply where
  | added (evicted : Option CancelKey)
  | consumed (found : Bool)
  | size (n : ℕ)

namespace CancelCall

def now : CancelCall → ℤ
  | add _ now => now
  | consume _ now => now
  | size now => now

/-- The ids of the key are not empty. -/
def Named : CancelCall → Prop
  | add key _ => key.Named
  | consume key _ => key.Named
  | size _ => True

instance : DecidablePred Named
  | add key _ => inferInstanceAs (Decidable key.Named)
  | consume key _ => inferInstanceAs (Decidable key.Named)
  | size _ => isTrue trivial

end CancelCall

/-- The calls so far with their replies. -/
abbrev CancelLog := List (CancelCall × CancelReply)

namespace PendingCancelRegistry

def step (r : PendingCancelRegistry) : CancelCall → CancelReply × PendingCancelRegistry
  | .add key now => (.added (r.add key now).1, (r.add key now).2)
  | .consume key now => (.consumed (r.consume key now).1, (r.consume key now).2)
  | .size now => (.size (r.size now).1, (r.size now).2)

def run (r : PendingCancelRegistry) (calls : List CancelCall) : CancelLog × PendingCancelRegistry :=
  calls.foldl (fun s c => (s.1 ++ [(c, (s.2.step c).1)], (s.2.step c).2)) ([], r)

theorem run_concat (r : PendingCancelRegistry) (calls : List CancelCall) (c : CancelCall) :
    r.run (calls ++ [c]) =
      ((r.run calls).1 ++ [(c, ((r.run calls).2.step c).1)], ((r.run calls).2.step c).2) := by
  rw [run, List.foldl_append]
  rfl

/-! ### What the history says -/

/-- The call has added, consumed or evicted the key. -/
def Touches (key : CancelKey) : CancelCall × CancelReply → Prop
  | (.add key' _, .added evicted) => key' = key ∨ evicted = some key
  | (.consume key' _, .consumed found) => key' = key ∧ found = true
  | _ => False

/-- The key was last added at this time, and has neither been consumed nor evicted since. -/
def Pending (log : CancelLog) (key : CancelKey) (u : ℤ) : Prop :=
  ∃ before reply after, log = before ++ (.add key u, reply) :: after ∧
    ∀ x ∈ after, ¬ Touches key x

theorem not_pending_nil {key : CancelKey} {u : ℤ} : ¬ Pending [] key u := by
  rintro ⟨before, reply, after, hlog, -⟩
  simp at hlog

theorem pending_concat {log : CancelLog} {x : CancelCall × CancelReply} {key : CancelKey} {u : ℤ} :
    Pending (log ++ [x]) key u ↔
      x.1 = .add key u ∨ (¬ Touches key x ∧ Pending log key u) := by
  constructor
  · rintro ⟨before, reply, after, hlog, hafter⟩
    rcases List.eq_nil_or_concat after with rfl | ⟨after, y, rfl⟩
    · obtain ⟨-, hx⟩ := List.append_inj' hlog rfl
      exact .inl (congrArg Prod.fst (List.cons.inj hx).1)
    · have hlog : log ++ [x] = (before ++ (.add key u, reply) :: after) ++ [y] := by
        simpa using hlog
      obtain ⟨hbefore, hx⟩ := List.append_inj' hlog rfl
      obtain rfl := (List.cons.inj hx).1
      exact .inr ⟨hafter x (by simp), before, reply, after, hbefore,
        fun z hz => hafter z (by simp [hz])⟩
  · rintro (hx | ⟨htouches, before, reply, after, rfl, hafter⟩)
    · exact ⟨log, x.2, [], by rw [← hx], fun _ hz => absurd hz List.not_mem_nil⟩
    · refine ⟨before, reply, after ++ [x], by simp, fun z hz => ?_⟩
      rcases List.mem_append.mp hz with hz | hz
      · exact hafter z hz
      · obtain rfl := List.mem_singleton.mp hz
        exact htouches

/-- The keys that are pending and have not expired. -/
def Unexpired (ttl : ℤ) (log : CancelLog) (now : ℤ) (key : CancelKey) : Prop :=
  ∃ u, Pending log key u ∧ now < u + ttl

/-- There are this many keys with the property. -/
def Count (P : CancelKey → Prop) (n : ℕ) : Prop :=
  ∃ keys : List CancelKey, keys.Nodup ∧ keys.length = n ∧ ∀ key, key ∈ keys ↔ P key

/-! ### What the entries say -/

/-- The entries at this time and later are those of the history. -/
structure Tracks (log : CancelLog) (now : ℤ) (r : PendingCancelRegistry) : Prop where
  positive : 0 < r.maxEntries
  nodup : (r.entries.map Prod.fst).Nodup
  bounded : r.entries.length ≤ r.maxEntries
  entries : ∀ key expiry, now < expiry →
    ((key, expiry) ∈ r.entries ↔ Pending log key (expiry - r.ttl))

variable {r : PendingCancelRegistry} {log : CancelLog} {now : ℤ}

/-- Old entries go, and those that stay are all pending. -/
theorem Tracks.expire (h : Tracks log now r) {now' : ℤ} (hlater : now ≤ now') :
    Tracks log now' (r.expire now') := by
  refine ⟨h.positive, ?_, (List.length_filter_le _ _).trans h.bounded, fun key expiry hexpiry => ?_⟩
  · exact h.nodup.sublist (List.filter_sublist.map _)
  · show (key, expiry) ∈ r.entries.filter _ ↔ Pending log key (expiry - r.ttl)
    rw [← h.entries key expiry (hlater.trans_lt hexpiry), List.mem_filter]
    exact and_iff_left (by simpa using hexpiry)

theorem unexpired_of_mem_expire {e : CancelKey × ℤ} (he : e ∈ (r.expire now).entries) :
    now < e.2 := by
  have hfilter := (List.mem_filter.mp he).2
  simpa using hfilter

/-- The keys of the entries that are left are the keys that the history has. -/
theorem Tracks.mem_keys (h : Tracks log now r) (hall : ∀ e ∈ r.entries, now < e.2)
    (key : CancelKey) : key ∈ r.entries.map Prod.fst ↔ Unexpired r.ttl log now key := by
  rw [List.mem_map]
  constructor
  · rintro ⟨⟨key', expiry⟩, he, rfl⟩
    have hexpiry := hall _ he
    exact ⟨expiry - r.ttl, (h.entries _ _ hexpiry).mp he, by simpa using hexpiry⟩
  · rintro ⟨u, hpending, hu⟩
    refine ⟨(key, u + r.ttl), (h.entries _ _ hu).mpr ?_, rfl⟩
    rwa [Int.add_sub_cancel]

theorem Tracks.count (h : Tracks log now r) (hall : ∀ e ∈ r.entries, now < e.2) :
    Count (Unexpired r.ttl log now) r.entries.length :=
  ⟨r.entries.map Prod.fst, h.nodup, List.length_map _, h.mem_keys hall⟩

/-! ### Adding -/

/-- The entries after a key that is there has been added again. -/
def refreshed (entries : CancelEntries) (key : CancelKey) (expiry : ℤ) : CancelEntries :=
  entries.map fun e => if e.1 = key then (e.1, expiry) else e

/-- Everything `add` can do. -/
inductive Added (r : PendingCancelRegistry) (key : CancelKey) (now : ℤ) :
    Option CancelKey × PendingCancelRegistry → Prop
  | refreshes (known : key ∈ (r.expire now).entries.map Prod.fst) :
      Added r key now
        (none, { r with entries := refreshed (r.expire now).entries key (now + r.ttl) })
  | enters (new : key ∉ (r.expire now).entries.map Prod.fst)
      (room : (r.expire now).entries.length < r.maxEntries) :
      Added r key now
        (none, { r with entries := emplace (r.expire now).entries key (now + r.ttl) })
  | evicts (new : key ∉ (r.expire now).entries.map Prod.fst)
      (full : r.maxEntries ≤ (r.expire now).entries.length) (oldest : CancelKey × ℤ)
      (mem : oldest ∈ (r.expire now).entries)
      (least : ∀ e ∈ (r.expire now).entries, oldest.2 ≤ e.2) :
      Added r key now (some oldest.1,
        { r with entries := emplace ((r.expire now).entries.erase oldest) key (now + r.ttl) })

theorem added (r : PendingCancelRegistry) (hpositive : 0 < r.maxEntries) {key : CancelKey}
    (hnamed : key.Named) (now : ℤ) : Added r key now (r.add key now) := by
  unfold add
  rw [if_neg (not_not.mpr hnamed)]
  dsimp only
  by_cases hknown : key ∈ (r.expire now).entries.map Prod.fst
  · rw [if_pos hknown]
    exact .refreshes hknown
  rw [if_neg hknown]
  by_cases hfull : r.maxEntries ≤ (r.expire now).entries.length
  · have hfull' : (r.expire now).maxEntries ≤ (r.expire now).entries.length := hfull
    rw [if_pos hfull']
    cases hargmin : minElement (r.expire now).entries with
    | none =>
      rw [List.argmin_eq_none.mp hargmin, List.length_nil] at hfull
      omega
    | some oldest =>
      exact .evicts hknown hfull oldest (List.argmin_mem hargmin)
        fun e he => List.le_of_mem_argmin he hargmin
  · have hfull' : ¬ (r.expire now).maxEntries ≤ (r.expire now).entries.length := hfull
    rw [if_neg hfull']
    exact .enters hknown (Nat.lt_of_not_le hfull)

theorem mem_emplace {entries : CancelEntries} {key : CancelKey} {expiry : ℤ} {e : CancelKey × ℤ} :
    e ∈ emplace entries key expiry ↔ e = (key, expiry) ∨ e ∈ entries := by
  rw [emplace, List.mem_orderedInsert]

theorem perm_emplace (entries : CancelEntries) (key : CancelKey) (expiry : ℤ) :
    (emplace entries key expiry).Perm ((key, expiry) :: entries) := List.perm_orderedInsert _ _ _

theorem nodup_emplace {entries : CancelEntries} {key : CancelKey} (expiry : ℤ)
    (hnodup : (entries.map Prod.fst).Nodup) (hnew : key ∉ entries.map Prod.fst) :
    ((emplace entries key expiry).map Prod.fst).Nodup := by
  rw [((perm_emplace entries key expiry).map Prod.fst).nodup_iff]
  exact List.nodup_cons.mpr ⟨hnew, hnodup⟩

theorem mem_refreshed {entries : CancelEntries} {key key' : CancelKey} {expiry expiry' : ℤ}
    (hknown : key ∈ entries.map Prod.fst) : (key', expiry') ∈ refreshed entries key expiry ↔
      (key' = key ∧ expiry' = expiry) ∨ (key' ≠ key ∧ (key', expiry') ∈ entries) := by
  rw [refreshed, List.mem_map]
  constructor
  · rintro ⟨e, he, heq⟩
    by_cases hkey : e.1 = key
    · rw [if_pos hkey] at heq
      obtain ⟨rfl, rfl⟩ := Prod.mk.inj heq
      exact .inl ⟨hkey, rfl⟩
    · rw [if_neg hkey] at heq
      subst heq
      exact .inr ⟨hkey, he⟩
  · rintro (⟨rfl, rfl⟩ | ⟨hkey, he⟩)
    · obtain ⟨e, he, hfst⟩ := List.mem_map.mp hknown
      exact ⟨e, he, by rw [if_pos hfst, hfst]⟩
    · exact ⟨(key', expiry'), he, if_neg hkey⟩

theorem mem_erase_key {entries : CancelEntries} (hnodup : (entries.map Prod.fst).Nodup)
    {oldest e : CancelKey × ℤ} (holdest : oldest ∈ entries) :
    e ∈ entries.erase oldest ↔ e.1 ≠ oldest.1 ∧ e ∈ entries := by
  rw [(List.Nodup.of_map _ hnodup).mem_erase_iff]
  refine and_congr_left fun he => not_congr ⟨fun h => congrArg Prod.fst h, fun h => ?_⟩
  exact List.inj_on_of_nodup_map hnodup he holdest h

/-- **Adding a key** keeps the entries those of the history. -/
theorem Tracks.add (h : Tracks log now r) {now' : ℤ} (hlater : now ≤ now') {key : CancelKey}
    (hnamed : key.Named) :
    Tracks (log ++ [(.add key now', .added (r.add key now').1)]) now' (r.add key now').2 := by
  have hexpired := h.expire hlater
  have hadded := added r h.positive hnamed now'
  generalize r.add key now' = result at hadded
  cases hadded with
  | refreshes known =>
    refine ⟨h.positive, ?_, ?_, fun key' expiry hexpiry => ?_⟩
    · have hkeys : (refreshed (r.expire now').entries key (now' + r.ttl)).map Prod.fst =
          (r.expire now').entries.map Prod.fst := by
        rw [refreshed, List.map_map]
        refine List.map_congr_left fun e _ => ?_
        show (if e.1 = key then (e.1, now' + r.ttl) else e).1 = e.1
        split_ifs <;> rfl
      rw [hkeys]
      exact hexpired.nodup
    · rw [refreshed, List.length_map]
      exact hexpired.bounded
    · rw [mem_refreshed known, pending_concat, hexpired.entries key' expiry hexpiry]
      simp only [Touches, CancelCall.add.injEq, reduceCtorEq, or_false]
      constructor
      · rintro (⟨rfl, rfl⟩ | ⟨hkey, hpending⟩)
        · exact .inl ⟨rfl, by omega⟩
        · exact .inr ⟨Ne.symm hkey, hpending⟩
      · rintro (⟨rfl, hu⟩ | ⟨hkey, hpending⟩)
        · exact .inl ⟨rfl, by omega⟩
        · exact .inr ⟨Ne.symm hkey, hpending⟩
  | enters new room =>
    refine ⟨h.positive, nodup_emplace _ hexpired.nodup new, ?_, fun key' expiry hexpiry => ?_⟩
    · rw [(perm_emplace _ _ _).length_eq]
      exact room
    · have hkey : (key', expiry) ∈ (r.expire now').entries → key ≠ key' := by
        rintro hmem rfl
        exact new (List.mem_map_of_mem hmem)
      rw [mem_emplace, pending_concat]
      simp only [Touches, CancelCall.add.injEq, reduceCtorEq, or_false, Prod.mk.injEq]
      constructor
      · rintro (⟨rfl, rfl⟩ | hmem)
        · exact .inl ⟨rfl, by omega⟩
        · exact .inr ⟨hkey hmem, (hexpired.entries key' expiry hexpiry).mp hmem⟩
      · rintro (⟨rfl, hu⟩ | ⟨-, hpending⟩)
        · exact .inl ⟨rfl, by omega⟩
        · exact .inr ((hexpired.entries key' expiry hexpiry).mpr hpending)
  | evicts new full oldest mem least =>
    have hsub : ((r.expire now').entries.erase oldest).Sublist (r.expire now').entries :=
      List.erase_sublist
    refine ⟨h.positive, nodup_emplace _ (hexpired.nodup.sublist (hsub.map _)) fun hmem =>
      new ((hsub.map _).subset hmem), ?_, fun key' expiry hexpiry => ?_⟩
    · have hlength := hexpired.bounded
      have hpos := List.length_pos_of_mem mem
      rw [(perm_emplace _ _ _).length_eq, List.length_cons, List.length_erase_of_mem mem]
      show _ ≤ r.maxEntries
      have hmax : (r.expire now').entries.length ≤ r.maxEntries := hlength
      omega
    · have hkey : (key', expiry) ∈ (r.expire now').entries → key ≠ key' := by
        rintro hmem rfl
        exact new (List.mem_map_of_mem hmem)
      rw [mem_emplace, mem_erase_key hexpired.nodup mem, pending_concat]
      simp only [Touches, CancelCall.add.injEq, Prod.mk.injEq, Option.some.injEq, not_or]
      constructor
      · rintro (⟨rfl, rfl⟩ | ⟨hother, hmem⟩)
        · exact .inl ⟨rfl, by omega⟩
        · exact .inr ⟨⟨hkey hmem, Ne.symm hother⟩, (hexpired.entries key' expiry hexpiry).mp hmem⟩
      · rintro (⟨rfl, hu⟩ | ⟨⟨-, hother⟩, hpending⟩)
        · exact .inl ⟨rfl, by omega⟩
        · exact .inr ⟨Ne.symm hother, (hexpired.entries key' expiry hexpiry).mpr hpending⟩

/-- **Consuming a key** keeps the entries those of the history. -/
theorem Tracks.consume (h : Tracks log now r) {now' : ℤ} (hlater : now ≤ now') (key : CancelKey) :
    Tracks (log ++ [(.consume key now', .consumed (r.consume key now').1)]) now'
      (r.consume key now').2 := by
  have hexpired := h.expire hlater
  unfold PendingCancelRegistry.consume
  dsimp only
  by_cases hknown : key ∈ (r.expire now').entries.map Prod.fst
  · rw [if_pos hknown]
    have hsub : ((r.expire now').entries.filter fun e => ¬ e.1 = key).Sublist
        (r.expire now').entries := List.filter_sublist
    refine ⟨h.positive, hexpired.nodup.sublist (hsub.map _), hsub.length_le.trans hexpired.bounded,
      fun key' expiry hexpiry => ?_⟩
    show (key', expiry) ∈ (r.expire now').entries.filter _ ↔ Pending _ key' (expiry - r.ttl)
    rw [pending_concat, List.mem_filter, hexpired.entries key' expiry hexpiry]
    simp only [Touches, reduceCtorEq, false_or, and_true, decide_eq_true_eq]
    constructor
    · rintro ⟨hpending, hkey⟩
      exact ⟨Ne.symm hkey, hpending⟩
    · rintro ⟨hkey, hpending⟩
      exact ⟨hpending, Ne.symm hkey⟩
  · rw [if_neg hknown]
    refine ⟨h.positive, hexpired.nodup, hexpired.bounded, fun key' expiry hexpiry => ?_⟩
    rw [pending_concat, hexpired.entries key' expiry hexpiry]
    simp [Touches]

theorem Tracks.size (h : Tracks log now r) {now' : ℤ} (hlater : now ≤ now') (n : ℕ) :
    Tracks (log ++ [(.size now', .size n)]) now' (r.expire now') := by
  have hexpired := h.expire hlater
  refine ⟨h.positive, hexpired.nodup, hexpired.bounded, fun key expiry hexpiry => ?_⟩
  rw [pending_concat, hexpired.entries key expiry hexpiry]
  simp [Touches]

theorem Tracks.step (h : Tracks log now r) {c : CancelCall} (hlater : now ≤ c.now)
    (hnamed : c.Named) : Tracks (log ++ [(c, (r.step c).1)]) c.now (r.step c).2 := by
  cases c with
  | add key now' => exact h.add hlater hnamed
  | consume key now' => exact h.consume hlater key
  | size now' => exact h.size hlater _

theorem Tracks.mono (h : Tracks log now r) {now' : ℤ} (hlater : now ≤ now') : Tracks log now' r :=
  ⟨h.positive, h.nodup, h.bounded, fun key expiry hexpiry =>
    h.entries key expiry (hlater.trans_lt hexpiry)⟩

/-! ### The replies -/

/-- The key is the one of those left that was added first. -/
def Oldest (ttl : ℤ) (log : CancelLog) (now : ℤ) (key : CancelKey) : Prop :=
  ∃ u, Pending log key u ∧ now < u + ttl ∧
    ∀ key' u', Pending log key' u' → now < u' + ttl → u ≤ u'

/-- What a call must reply after this history. -/
def Answers (maxEntries : ℕ) (ttl : ℤ) (log : CancelLog) : CancelCall × CancelReply → Prop
  | (.add key now, .added none) =>
      Unexpired ttl log now key ∨ ∃ n < maxEntries, Count (Unexpired ttl log now) n
  | (.add key now, .added (some victim)) =>
      ¬ Unexpired ttl log now key ∧ Count (Unexpired ttl log now) maxEntries ∧
        Oldest ttl log now victim
  | (.consume key now, .consumed found) => found = true ↔ Unexpired ttl log now key
  | (.size now, .size n) => n ≤ maxEntries ∧ Count (Unexpired ttl log now) n
  | _ => False

theorem Tracks.answers (h : Tracks log now r) {c : CancelCall} (hlater : now ≤ c.now)
    (hnamed : c.Named) : Answers r.maxEntries r.ttl log (c, (r.step c).1) := by
  have hexpired := h.expire hlater
  have hkeys := hexpired.mem_keys fun e => unexpired_of_mem_expire
  have hcount := hexpired.count fun e => unexpired_of_mem_expire
  cases c with
  | add key now' =>
    have hadded := added r h.positive hnamed now'
    show Answers _ _ _ (_, .added (r.add key now').1)
    generalize r.add key now' = result at hadded
    cases hadded with
    | refreshes known => exact .inl ((hkeys key).mp known)
    | enters new room => exact .inr ⟨_, room, hcount⟩
    | evicts new full oldest mem least =>
      have hlength : (r.expire now').entries.length = r.maxEntries :=
        le_antisymm hexpired.bounded full
      have hexpiry := unexpired_of_mem_expire mem
      refine ⟨fun hpending => new ((hkeys key).mpr hpending), hlength ▸ hcount, ?_⟩
      refine ⟨oldest.2 - r.ttl, (hexpired.entries _ _ hexpiry).mp mem, by omega, ?_⟩
      intro key' u' hpending hu
      have hmem : (key', u' + r.ttl) ∈ (r.expire now').entries := by
        refine (hexpired.entries key' (u' + r.ttl) hu).mpr ?_
        show Pending log key' (u' + r.ttl - r.ttl)
        rwa [Int.add_sub_cancel]
      have hle : oldest.2 ≤ u' + r.ttl := least _ hmem
      show oldest.2 - r.ttl ≤ u'
      omega
  | consume key now' =>
    show (r.consume key now').1 = true ↔ Unexpired r.ttl log now' key
    refine Iff.trans ?_ (hkeys key)
    unfold PendingCancelRegistry.consume
    dsimp only
    by_cases hknown : key ∈ (r.expire now').entries.map Prod.fst
    · rw [if_pos hknown]
      exact iff_of_true rfl hknown
    · rw [if_neg hknown]
      exact iff_of_false Bool.false_ne_true hknown
  | size now' => exact ⟨hexpired.bounded, hcount⟩

/-! ### Whole runs -/

theorem step_bounds (r : PendingCancelRegistry) (c : CancelCall) :
    (r.step c).2.maxEntries = r.maxEntries ∧ (r.step c).2.ttl = r.ttl := by
  cases c with
  | add key now =>
    show (r.add key now).2.maxEntries = _ ∧ (r.add key now).2.ttl = _
    unfold PendingCancelRegistry.add
    split
    · exact ⟨rfl, rfl⟩
    · dsimp only
      split
      · exact ⟨rfl, rfl⟩
      · split <;> exact ⟨rfl, rfl⟩
  | consume key now =>
    show (r.consume key now).2.maxEntries = _ ∧ (r.consume key now).2.ttl = _
    unfold PendingCancelRegistry.consume
    dsimp only
    split <;> exact ⟨rfl, rfl⟩
  | size now => exact ⟨rfl, rfl⟩

theorem run_bounds (r : PendingCancelRegistry) (calls : List CancelCall) :
    (r.run calls).2.maxEntries = r.maxEntries ∧ (r.run calls).2.ttl = r.ttl := by
  induction calls using List.reverseRecOn with
  | nil => exact ⟨rfl, rfl⟩
  | append_singleton calls c ih =>
    rw [run_concat]
    obtain ⟨hmax, httl⟩ := step_bounds (r.run calls).2 c
    exact ⟨hmax.trans ih.1, httl.trans ih.2⟩

theorem construct_eq {maxEntries : ℕ} {ttl : ℤ} (h : construct maxEntries ttl = some r) :
    0 < maxEntries ∧ r = { maxEntries, ttl } := by
  unfold construct at h
  split_ifs at h with hbounds
  have hpositive : ¬ maxEntries = 0 := fun hzero => hbounds (.inl hzero)
  exact ⟨Nat.pos_of_ne_zero hpositive, (Option.some.inj h).symm⟩

theorem tracks_new {maxEntries : ℕ} {ttl : ℤ} (hpositive : 0 < maxEntries) (now : ℤ) :
    Tracks [] now { maxEntries, ttl } :=
  ⟨hpositive, List.nodup_nil, Nat.zero_le _, fun _ _ _ =>
    ⟨fun hmem => absurd hmem List.not_mem_nil, fun hpending => absurd hpending not_pending_nil⟩⟩

/-- **In every run** the entries are those of the history, and every reply is the one that the
history before it asks for. -/
theorem tracks_run (hpositive : 0 < r.maxEntries) (hnew : r.entries = []) (calls : List CancelCall)
    (hordered : calls.Pairwise fun a b => a.now ≤ b.now) (hnamed : ∀ c ∈ calls, c.Named) :
    (∀ now, (∀ c ∈ calls, c.now ≤ now) → Tracks (r.run calls).1 now (r.run calls).2) ∧
      ∀ before x after, (r.run calls).1 = before ++ x :: after →
        Answers r.maxEntries r.ttl before x := by
  induction calls using List.reverseRecOn with
  | nil =>
    refine ⟨fun now _ => ?_, fun before x after hlog => ?_⟩
    · obtain ⟨maxEntries, ttl, entries⟩ := r
      obtain rfl : entries = [] := hnew
      exact tracks_new hpositive now
    · have hnil : ([] : CancelLog) = before ++ x :: after := hlog
      simp at hnil
  | append_singleton calls c ih =>
    rw [List.pairwise_append] at hordered
    obtain ⟨htracks, hanswers⟩ := ih hordered.1 fun c' hc' => hnamed c' (by simp [hc'])
    have hcalls : ∀ c' ∈ calls, c'.now ≤ c.now := fun c' hc' =>
      hordered.2.2 c' hc' c (List.mem_singleton_self c)
    have hbefore := htracks c.now hcalls
    have hc := hnamed c (by simp)
    rw [run_concat]
    refine ⟨fun now hnow => (hbefore.step le_rfl hc).mono (hnow c (by simp)),
      fun before x after hlog => ?_⟩
    rcases List.eq_nil_or_concat after with rfl | ⟨after, y, rfl⟩
    · obtain ⟨rfl, hx⟩ := List.append_inj' hlog rfl
      obtain rfl := (List.cons.inj hx).1
      obtain ⟨hmax, httl⟩ := run_bounds r calls
      have hanswer := hbefore.answers le_rfl hc
      rwa [hmax, httl] at hanswer
    · have hlog : (r.run calls).1 ++ [(c, ((r.run calls).2.step c).1)] =
          (before ++ x :: after) ++ [y] := by simpa using hlog
      exact hanswers before x after (List.append_inj' hlog rfl).1

/-- **The registry is a bounded set with a time limit**: after any calls at times that do not go
back every reply is the one of the history, and there are never too many entries. -/
theorem registry_refines {maxEntries : ℕ} {ttl : ℤ} (hnew : construct maxEntries ttl = some r)
    (calls : List CancelCall) (hordered : calls.Pairwise fun a b => a.now ≤ b.now)
    (hnamed : ∀ c ∈ calls, c.Named) :
    (r.run calls).2.entries.length ≤ maxEntries ∧
      ∀ before x after, (r.run calls).1 = before ++ x :: after →
        Answers maxEntries ttl before x := by
  obtain ⟨hpositive, rfl⟩ := construct_eq hnew
  obtain ⟨htracks, hanswers⟩ :=
    tracks_run (r := { maxEntries, ttl }) hpositive rfl calls hordered hnamed
  refine ⟨?_, hanswers⟩
  obtain ⟨now, hnow⟩ : ∃ now, ∀ c ∈ calls, c.now ≤ now := by
    refine ⟨(calls.map CancelCall.now).foldr max 0, fun c hc => ?_⟩
    exact List.le_max_of_le' 0 (List.mem_map_of_mem hc) le_rfl
  have hbounded := (htracks now hnow).bounded
  rwa [(run_bounds _ calls).1] at hbounded

/-- A registry of one entry: the key of an older request makes way for a newer one. -/
theorem registry_refines_one :
    (({ maxEntries := 1, ttl := 5 } : PendingCancelRegistry).run
        [.add (py "a", py "1") 0, .add (py "b", py "1") 1, .consume (py "a", py "1") 2]).2.entries.length
      ≤ 1 ∧
    ∀ before x after, (({ maxEntries := 1, ttl := 5 } : PendingCancelRegistry).run
        [.add (py "a", py "1") 0, .add (py "b", py "1") 1, .consume (py "a", py "1") 2]).1 =
          before ++ x :: after → Answers 1 5 before x :=
  registry_refines (r := { maxEntries := 1, ttl := 5 }) (by rfl) _ (by decide) (by decide)

end PendingCancelRegistry

end Native
