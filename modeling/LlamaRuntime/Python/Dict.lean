/-
Insertion-ordered dictionaries.

`lookup`, `store` and `remove` are the operations of a Python `dict` on its list
of items: storing under a present key keeps the key's place, storing under a
new one appends, and iteration follows the list.  `Dict` packages such a list
with the fact that its keys are distinct.
-/
import Mathlib.Data.List.Nodup
import Mathlib.Data.List.Basic
import Mathlib.Algebra.GroupWithZero.Nat

variable {κ ν μ : Type}

namespace Items

variable [DecidableEq κ]

def lookup (k : κ) : List (κ × ν) → Option ν
  | [] => none
  | (k', v) :: rest => if k' = k then some v else lookup k rest

/-- `d[k] = v` -/
def store (k : κ) (v : ν) : List (κ × ν) → List (κ × ν)
  | [] => [(k, v)]
  | (k', v') :: rest => if k' = k then (k', v) :: rest else (k', v') :: store k v rest

/-- `d.pop(k, None)` -/
def remove (k : κ) (items : List (κ × ν)) : List (κ × ν) := items.filter fun p => p.1 ≠ k

@[simp] theorem lookup_nil (k : κ) : lookup k ([] : List (κ × ν)) = none := rfl

theorem lookup_cons (k k' : κ) (v : ν) (rest : List (κ × ν)) :
    lookup k ((k', v) :: rest) = if k' = k then some v else lookup k rest := rfl

@[simp] theorem lookup_cons_self (k : κ) (v : ν) (rest : List (κ × ν)) :
    lookup k ((k, v) :: rest) = some v := if_pos rfl

theorem lookup_cons_ne {k k' : κ} (h : k' ≠ k) (v : ν) (rest : List (κ × ν)) :
    lookup k ((k', v) :: rest) = lookup k rest := if_neg h

theorem lookup_eq_none {k : κ} : ∀ {items : List (κ × ν)},
    lookup k items = none ↔ k ∉ items.map Prod.fst
  | [] => by simp
  | (k', v) :: rest => by
    rw [lookup_cons]
    split_ifs with h
    · simp [h]
    · rw [lookup_eq_none]
      simp [Ne.symm h]

theorem mem_of_lookup {k : κ} {v : ν} : ∀ {items : List (κ × ν)},
    lookup k items = some v → (k, v) ∈ items
  | [], h => by simp at h
  | (k', v') :: rest, h => by
    rw [lookup_cons] at h
    split_ifs at h with hk
    · obtain rfl := Option.some_inj.mp h
      simp [hk]
    · exact List.mem_cons_of_mem _ (mem_of_lookup h)

theorem lookup_of_mem {k : κ} {v : ν} : ∀ {items : List (κ × ν)},
    (items.map Prod.fst).Nodup → (k, v) ∈ items → lookup k items = some v
  | (k', v') :: rest, hnd, h => by
    rw [List.map_cons, List.nodup_cons] at hnd
    rcases List.mem_cons.mp h with heq | h
    · obtain ⟨rfl, rfl⟩ := Prod.mk.inj heq
      simp
    · have hne : k' ≠ k := by
        rintro rfl
        exact hnd.1 (List.mem_map.mpr ⟨_, h, rfl⟩)
      rw [lookup_cons_ne hne]
      exact lookup_of_mem hnd.2 h

@[simp] theorem lookup_store_self (k : κ) (v : ν) : ∀ items : List (κ × ν),
    lookup k (store k v items) = some v
  | [] => by simp [store]
  | (k', v') :: rest => by
    rw [store]
    split_ifs with h
    · simp [h]
    · rw [lookup_cons_ne h, lookup_store_self k v rest]

theorem lookup_store_ne {k k' : κ} (h : k' ≠ k) (v : ν) : ∀ items : List (κ × ν),
    lookup k (store k' v items) = lookup k items
  | [] => by simp [store, lookup_cons_ne h]
  | (k'', v') :: rest => by
    rw [store]
    split_ifs with h'
    · subst h'
      rw [lookup_cons_ne h, lookup_cons_ne h]
    · rw [lookup_cons, lookup_cons, lookup_store_ne h v rest]

theorem mem_keys_store {k k' : κ} {v : ν} : ∀ {items : List (κ × ν)},
    k ∈ (store k' v items).map Prod.fst ↔ k = k' ∨ k ∈ items.map Prod.fst
  | [] => by simp [store]
  | (k'', v') :: rest => by
    rw [store]
    split_ifs with h
    · simp [h]
    · rw [List.map_cons, List.map_cons, List.mem_cons, List.mem_cons,
        mem_keys_store]
      tauto

theorem nodup_store (k : κ) (v : ν) : ∀ {items : List (κ × ν)},
    (items.map Prod.fst).Nodup → ((store k v items).map Prod.fst).Nodup
  | [], _ => by simp [store]
  | (k', v') :: rest, h => by
    rw [List.map_cons, List.nodup_cons] at h
    rw [store]
    split_ifs with hk
    · exact List.nodup_cons.mpr h
    · rw [List.map_cons, List.nodup_cons]
      refine ⟨fun hm => ?_, nodup_store k v h.2⟩
      rcases mem_keys_store.mp hm with heq | hm
      · exact hk heq
      · exact h.1 hm

theorem lookup_remove_self (k : κ) : ∀ items : List (κ × ν), lookup k (remove k items) = none
  | [] => rfl
  | (k', v') :: rest => by
    by_cases h : k' = k
    · simpa [remove, h] using lookup_remove_self k rest
    · have := lookup_remove_self k rest
      rw [remove] at this ⊢
      rw [List.filter_cons_of_pos (by simpa using h), lookup_cons_ne h, this]

theorem lookup_remove_ne {k k' : κ} (h : k' ≠ k) : ∀ items : List (κ × ν),
    lookup k (remove k' items) = lookup k items
  | [] => rfl
  | (k'', v') :: rest => by
    have ih := lookup_remove_ne h rest
    rw [remove] at ih ⊢
    by_cases h' : k'' = k'
    · subst h'
      rw [List.filter_cons_of_neg (by simp), lookup_cons_ne h, ih]
    · rw [List.filter_cons_of_pos (by simpa using h'), lookup_cons, lookup_cons, ih]

theorem nodup_remove (k : κ) {items : List (κ × ν)} (h : (items.map Prod.fst).Nodup) :
    ((remove k items).map Prod.fst).Nodup :=
  h.sublist (List.filter_sublist.map _)

/-- The sum of a weight over the values. -/
def total (f : ν → ℕ) (items : List (κ × ν)) : ℕ := (items.map fun item => f item.2).sum

theorem total_store (f : ν → ℕ) (k : κ) (v : ν) : ∀ items : List (κ × ν),
    total f (store k v items) + (lookup k items).elim 0 f = total f items + f v
  | [] => by simp [total, store]
  | (k', v') :: rest => by
    have ih := total_store f k v rest
    unfold total at ih ⊢
    rw [store, lookup_cons]
    split_ifs
    · simp only [List.map_cons, List.sum_cons, Option.elim_some]
      omega
    · simp only [List.map_cons, List.sum_cons]
      omega

theorem total_remove (f : ν → ℕ) (k : κ) : ∀ {items : List (κ × ν)},
    (items.map Prod.fst).Nodup →
      total f (remove k items) + (lookup k items).elim 0 f = total f items
  | [], _ => rfl
  | (k', v') :: rest, h => by
    rw [List.map_cons, List.nodup_cons] at h
    have ih := total_remove f k h.2
    rw [lookup_cons]
    by_cases hk : k' = k
    · subst hk
      -- the key is at the head only
      have hnone : lookup k' rest = none := lookup_eq_none.mpr h.1
      rw [hnone] at ih
      have hhead : remove k' ((k', v') :: rest) = remove k' rest := by simp [remove]
      rw [hhead, if_pos rfl]
      simp only [total, Option.elim_none, Option.elim_some, List.map_cons, List.sum_cons] at ih ⊢
      omega
    · have hhead : remove k ((k', v') :: rest) = (k', v') :: remove k rest := by simp [remove, hk]
      rw [hhead, if_neg hk]
      simp only [total, List.map_cons, List.sum_cons] at ih ⊢
      omega

end Items

/-- A dictionary in insertion order. -/
structure Dict (κ ν : Type) where
  items : List (κ × ν)
  nodup : (items.map Prod.fst).Nodup

namespace Dict

def empty : Dict κ ν := ⟨[], List.nodup_nil⟩

instance : EmptyCollection (Dict κ ν) := ⟨empty⟩

instance : Inhabited (Dict κ ν) := ⟨empty⟩

def keys (d : Dict κ ν) : List κ := d.items.map Prod.fst

def values (d : Dict κ ν) : List ν := d.items.map Prod.snd

variable [DecidableEq κ]

def get? (d : Dict κ ν) (k : κ) : Option ν := Items.lookup k d.items

def set (d : Dict κ ν) (k : κ) (v : ν) : Dict κ ν := ⟨Items.store k v d.items, Items.nodup_store k v d.nodup⟩

def pop (d : Dict κ ν) (k : κ) : Dict κ ν := ⟨Items.remove k d.items, Items.nodup_remove k d.nodup⟩

def contains (d : Dict κ ν) (k : κ) : Bool := (d.get? k).isSome

variable {d : Dict κ ν} {k k' : κ} {v : ν}

@[simp] theorem get?_empty : (∅ : Dict κ ν).get? k = none := rfl

theorem get?_set : (d.set k' v).get? k = if k' = k then some v else d.get? k := by
  unfold get? set
  split_ifs with h
  · subst h
    exact Items.lookup_store_self _ _ _
  · exact Items.lookup_store_ne h _ _

@[simp] theorem get?_set_self : (d.set k v).get? k = some v := by rw [get?_set, if_pos rfl]

theorem get?_set_ne (h : k' ≠ k) : (d.set k' v).get? k = d.get? k := by rw [get?_set, if_neg h]

theorem get?_pop : (d.pop k').get? k = if k' = k then none else d.get? k := by
  unfold get? pop
  split_ifs with h
  · subst h
    exact Items.lookup_remove_self _ _
  · exact Items.lookup_remove_ne h _

theorem mem_keys_iff : k ∈ d.keys ↔ ∃ v, d.get? k = some v := by
  unfold keys get?
  rw [← Option.isSome_iff_exists, ← not_iff_not, ← Items.lookup_eq_none]
  simp

theorem mem_keys_set : k ∈ (d.set k' v).keys ↔ k = k' ∨ k ∈ d.keys := by
  rw [mem_keys_iff, mem_keys_iff, get?_set]
  split_ifs with h
  · exact ⟨fun _ => .inl h.symm, fun _ => ⟨v, rfl⟩⟩
  · exact ⟨.inr, fun hk => hk.resolve_left fun heq => h heq.symm⟩

theorem mem_keys_pop : k ∈ (d.pop k').keys ↔ k ≠ k' ∧ k ∈ d.keys := by
  rw [mem_keys_iff, mem_keys_iff, get?_pop]
  split_ifs with h
  · exact ⟨fun ⟨_, hv⟩ => (nomatch hv), fun hk => absurd h.symm hk.1⟩
  · exact ⟨fun hk => ⟨fun heq => h heq.symm, hk⟩, fun hk => hk.2⟩

theorem mem_items_iff : (k, v) ∈ d.items ↔ d.get? k = some v :=
  ⟨Items.lookup_of_mem d.nodup, Items.mem_of_lookup⟩

/-- The sum of a weight over the values. -/
def total (f : ν → ℕ) (d : Dict κ ν) : ℕ := (d.values.map f).sum

omit [DecidableEq κ] in
theorem total_eq (f : ν → ℕ) (d : Dict κ ν) : d.total f = Items.total f d.items := by
  unfold total values Items.total
  rw [List.map_map]
  rfl

theorem total_set (f : ν → ℕ) (d : Dict κ ν) (k : κ) (v : ν) :
    (d.set k v).total f + (d.get? k).elim 0 f = d.total f + f v := by
  rw [total_eq, total_eq]
  exact Items.total_store f k v d.items

theorem total_pop (f : ν → ℕ) (d : Dict κ ν) (k : κ) :
    (d.pop k).total f + (d.get? k).elim 0 f = d.total f := by
  rw [total_eq, total_eq]
  exact Items.total_remove f k d.nodup

@[simp] theorem contains_iff : d.contains k = true ↔ k ∈ d.keys := by
  rw [mem_keys_iff, contains, Option.isSome_iff_exists]

end Dict
