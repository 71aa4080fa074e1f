/-
Data as the `json` module takes and gives it.

* `Value` — the values; a tuple is written like a list, and a dictionary is its
  list of items;
* `Value.all` — a check made at every value inside a value;
* `Value.normal` — what is left of a value once it has been written with sorted
  keys and read back: tuples are lists and keys are in order.  Being normal is
  idempotent (`normal_normal`) and keeps checks that do not tell a tuple from a
  list or one order of keys from another (`all_normal`).
-/
import Mathlib.Data.List.Sort
import Mathlib.Data.List.Lex
import Mathlib.Order.Fin.Basic
import LlamaRuntime.Json.Number
import LlamaRuntime.Python.Dict

namespace Json

/-- Python's floats as `json` uses them: which are finite, and their texts. -/
class Floats (F : Type) where
  isFinite : F → Bool
  /-- `x == 0.0` -/
  isZero : F → Bool
  /-- `float.__repr__` of a finite float -/
  repr : F → FloatText
  /-- `float(text)` -/
  ofText : PyStr → F
  ofText_repr : ∀ x, isFinite x = true → ofText (repr x).text = x

inductive Value (F : Type) where
  | null
  | bool (b : Bool)
  | int (n : ℤ)
  | float (x : F)
  | str (s : PyStr)
  | list (items : List (Value F))
  | tuple (items : List (Value F))
  | dict (items : List (PyStr × Value F))

theorem all_congr_of_mem {α : Type} {p q : α → Bool} {l : List α}
    (h : ∀ a ∈ l, p a = q a) : l.all p = l.all q := by
  rw [Bool.eq_iff_iff, List.all_eq_true, List.all_eq_true]
  exact forall₂_congr fun a ha => by rw [h a ha]

/-! ### Sorted keys -/

section SortKeys

variable {β γ : Type}

/-- `sorted(items)` of items with distinct keys. -/
def sortKeys (items : List (PyStr × β)) : List (PyStr × β) :=
  items.insertionSort fun a b => a.1 ≤ b.1

theorem perm_sortKeys (items : List (PyStr × β)) : (sortKeys items).Perm items :=
  List.perm_insertionSort _ _

@[simp] theorem mem_sortKeys {items : List (PyStr × β)} {p : PyStr × β} :
    p ∈ sortKeys items ↔ p ∈ items := (perm_sortKeys items).mem_iff

theorem map_sortKeys (f : β → γ) (items : List (PyStr × β)) :
    (sortKeys items).map (fun p => (p.1, f p.2)) = sortKeys (items.map fun p => (p.1, f p.2)) :=
  List.map_insertionSort _ _ _ _ fun _ _ _ _ => Iff.rfl

theorem sorted_sortKeys (items : List (PyStr × β)) :
    (sortKeys items).Pairwise fun a b => a.1 ≤ b.1 := by
  have : Std.Total fun a b : PyStr × β => a.1 ≤ b.1 := ⟨fun a b => le_total a.1 b.1⟩
  have : IsTrans (PyStr × β) fun a b => a.1 ≤ b.1 := ⟨fun _ _ _ => le_trans⟩
  exact List.pairwise_insertionSort _ _

@[simp] theorem sortKeys_sortKeys (items : List (PyStr × β)) :
    sortKeys (sortKeys items) = sortKeys items := (sorted_sortKeys items).insertionSort_eq

@[simp] theorem sortKeys_eq_nil {items : List (PyStr × β)} : sortKeys items = [] ↔ items = [] := by
  have h := (perm_sortKeys items).length_eq
  rw [← List.length_eq_zero_iff, h, List.length_eq_zero_iff]

/-- Sorting the items of a dictionary moves no entry. -/
theorem lookup_sortKeys {items : List (PyStr × β)} (h : (items.map Prod.fst).Nodup) (k : PyStr) :
    Items.lookup k (sortKeys items) = Items.lookup k items := by
  have hperm := perm_sortKeys items
  have hs : ((sortKeys items).map Prod.fst).Nodup := (hperm.map _).nodup_iff.mpr h
  cases hl : Items.lookup k items with
  | none =>
    rw [Items.lookup_eq_none] at hl ⊢
    exact fun hk => hl ((hperm.map _).mem_iff.mp hk)
  | some v => exact Items.lookup_of_mem hs (mem_sortKeys.mpr (Items.mem_of_lookup hl))

end SortKeys

theorem lookup_map_snd {β γ : Type} (f : β → γ) (items : List (PyStr × β)) (k : PyStr) :
    Items.lookup k (items.map fun p => (p.1, f p.2)) = (Items.lookup k items).map f := by
  induction items with
  | nil => rfl
  | cons p items ih =>
    rw [List.map_cons, Items.lookup_cons, Items.lookup_cons]
    split_ifs
    · rfl
    · exact ih

namespace Value

variable {F : Type}

/-! ### Checks inside a value -/

mutual

/-- The check `p` at the value and at every value inside it. -/
def all (p : Value F → Bool) : Value F → Bool
  | .list items => p (.list items) && allItems p items
  | .tuple items => p (.tuple items) && allItems p items
  | .dict items => p (.dict items) && allFields p items
  | v => p v

def allItems (p : Value F → Bool) : List (Value F) → Bool
  | [] => true
  | v :: rest => v.all p && allItems p rest

def allFields (p : Value F → Bool) : List (PyStr × Value F) → Bool
  | [] => true
  | (_, v) :: rest => v.all p && allFields p rest

end

/-! ### Normal values -/

mutual

/-- The value read back from its canonical text. -/
def normal : Value F → Value F
  | .list items => .list (normalItems items)
  | .tuple items => .list (normalItems items)
  | .dict items => .dict (sortKeys (normalFields items))
  | v => v

def normalItems : List (Value F) → List (Value F)
  | [] => []
  | v :: rest => v.normal :: normalItems rest

def normalFields : List (PyStr × Value F) → List (PyStr × Value F)
  | [] => []
  | (k, v) :: rest => (k, v.normal) :: normalFields rest

end

section

variable (p : Value F → Bool)

theorem allItems_eq (items : List (Value F)) : allItems p items = items.all (all p) := by
  induction items with
  | nil => rfl
  | cons v rest ih => rw [allItems, List.all_cons, ih]

theorem allFields_eq (items : List (PyStr × Value F)) :
    allFields p items = items.all fun f => f.2.all p := by
  induction items with
  | nil => rfl
  | cons f rest ih => rw [allFields, List.all_cons, ih]

end

theorem normalItems_eq (items : List (Value F)) : normalItems items = items.map normal := by
  induction items with
  | nil => rfl
  | cons v rest ih => rw [normalItems, List.map_cons, ih]

theorem normalFields_eq (items : List (PyStr × Value F)) :
    normalFields items = items.map fun f => (f.1, f.2.normal) := by
  induction items with
  | nil => rfl
  | cons f rest ih => rw [normalFields, List.map_cons, ih]

@[simp] theorem normal_null : (null : Value F).normal = null := rfl
@[simp] theorem normal_bool (b : Bool) : (bool b : Value F).normal = bool b := rfl
@[simp] theorem normal_int (n : ℤ) : (int n : Value F).normal = int n := rfl
@[simp] theorem normal_float (x : F) : (float x).normal = float x := rfl
@[simp] theorem normal_str (s : PyStr) : (str s : Value F).normal = str s := rfl

@[simp] theorem normal_list (items : List (Value F)) :
    (list items).normal = list (items.map normal) := by
  show list (normalItems items) = _
  rw [normalItems_eq]

@[simp] theorem normal_tuple (items : List (Value F)) :
    (tuple items).normal = list (items.map normal) := by
  show list (normalItems items) = _
  rw [normalItems_eq]

@[simp] theorem normal_dict (items : List (PyStr × Value F)) :
    (dict items).normal = dict (sortKeys (items.map fun f => (f.1, f.2.normal))) := by
  show dict (sortKeys (normalFields items)) = _
  rw [normalFields_eq]

/-- Induction over the values inside a value. -/
@[elab_as_elim]
theorem induction {P : Value F → Prop} (null : P null) (bool : ∀ b, P (bool b))
    (int : ∀ n, P (int n)) (float : ∀ x, P (float x)) (str : ∀ s, P (str s))
    (list : ∀ items, (∀ v ∈ items, P v) → P (list items))
    (tuple : ∀ items, (∀ v ∈ items, P v) → P (tuple items))
    (dict : ∀ items, (∀ f ∈ items, P f.2) → P (dict items)) (v : Value F) : P v :=
  @Value.rec F P (fun items => ∀ v ∈ items, P v) (fun items => ∀ f ∈ items, P f.2)
    (fun f => P f.2) null bool int float str list tuple dict (fun _ h => (nomatch h))
    (fun _ _ hv hrest w hw => (List.mem_cons.mp hw).elim (fun h => h ▸ hv) (hrest w))
    (fun _ h => (nomatch h))
    (fun _ _ hf hrest w hw => (List.mem_cons.mp hw).elim (fun h => h ▸ hf) (hrest w))
    (fun _ _ h => h) v

theorem normal_normal (v : Value F) : v.normal.normal = v.normal := by
  induction v using induction with
  | null | bool | int | float | str => simp
  | list items ih | tuple items ih =>
    simp only [normal_list, normal_tuple, List.map_map, list.injEq]
    exact List.map_congr_left ih
  | dict items ih =>
    rw [normal_dict, normal_dict, map_sortKeys, sortKeys_sortKeys, List.map_map]
    congr 2
    exact List.map_congr_left fun f hf => by simp [ih f hf]

section

variable {p : Value F → Bool}

theorem all_list (items : List (Value F)) :
    (list items).all p = (p (list items) && items.all (all p)) := by rw [all, allItems_eq]

theorem all_tuple (items : List (Value F)) :
    (tuple items).all p = (p (tuple items) && items.all (all p)) := by rw [all, allItems_eq]

theorem all_dict (items : List (PyStr × Value F)) :
    (dict items).all p = (p (dict items) && items.all fun f => f.2.all p) := by
  rw [all, allFields_eq]

/-- A check that does not see the difference between a value and its normal
form does not see it inside the value either. -/
theorem all_normal (hp : ∀ v, p v.normal = p v) (v : Value F) : v.normal.all p = v.all p := by
  induction v using induction with
  | null | bool | int | float | str => simp
  | list items ih =>
    have h := hp (list items)
    rw [normal_list] at h ⊢
    rw [all_list, all_list, h, List.all_map]
    exact congrArg _ (all_congr_of_mem ih)
  | tuple items ih =>
    have h := hp (tuple items)
    rw [normal_tuple] at h ⊢
    rw [all_list, all_tuple, h, List.all_map]
    exact congrArg _ (all_congr_of_mem ih)
  | dict items ih =>
    have h := hp (dict items)
    rw [normal_dict] at h ⊢
    rw [all_dict, all_dict, h, (perm_sortKeys _).all_eq, List.all_map]
    exact congrArg _ (all_congr_of_mem ih)

end

/-! ### The checks that matter for writing -/

/-- No two items of a dictionary share a key. -/
def distinctKeys : Value F → Bool
  | dict items => decide (items.map Prod.fst).Nodup
  | _ => true

/-- Every dictionary in the value has distinct keys, as a `dict` object has. -/
abbrev WellFormed (v : Value F) : Prop := v.all distinctKeys = true

/-- `math.isfinite`, at a float -/
def finiteNumber [Floats F] : Value F → Bool
  | float x => Floats.isFinite x
  | _ => true

/-- The interpreter's limit on the digits of a converted integer. -/
def maxStrDigits : ℕ := 4300

/-- The integer can be converted to its text. -/
def shortNumber : Value F → Bool
  | int n => digitCount n ≤ maxStrDigits
  | _ => true

theorem distinctKeys_normal (v : Value F) : v.normal.distinctKeys = v.distinctKeys := by
  cases v with
  | dict items =>
    have h := (perm_sortKeys (items.map fun f => (f.1, f.2.normal))).map Prod.fst
    have hk : (items.map fun f => (f.1, f.2.normal)).map Prod.fst = items.map Prod.fst := by simp
    simp only [normal_dict, distinctKeys, h.nodup_iff, hk]
  | _ => simp [distinctKeys]

theorem finiteNumber_normal [Floats F] (v : Value F) :
    v.normal.finiteNumber = v.finiteNumber := by
  cases v <;> simp [finiteNumber]

theorem shortNumber_normal (v : Value F) : v.normal.shortNumber = v.shortNumber := by
  cases v <;> simp [shortNumber]

theorem WellFormed.normal {v : Value F} (h : v.WellFormed) : v.normal.WellFormed :=
  (all_normal distinctKeys_normal v).trans h

/-! ### What programs ask of a value -/

/-- `bool(value)` -/
def truthy [Floats F] : Value F → Bool
  | null => false
  | bool b => b
  | int n => n ≠ 0
  | float x => !Floats.isZero x
  | str s => s ≠ []
  | list items => items ≠ []
  | tuple items => items ≠ []
  | dict items => items ≠ []

@[simp] theorem truthy_normal [Floats F] (v : Value F) : v.normal.truthy = v.truthy := by
  cases v <;> simp [truthy]

/-- `isinstance(value, str)`, with the string -/
def str? : Value F → Option PyStr
  | str s => some s
  | _ => none

/-- `type(value) is int`, with the integer -/
def int? : Value F → Option ℤ
  | int n => some n
  | _ => none

/-- `type(value) is bool`, with the truth value -/
def bool? : Value F → Option Bool
  | bool b => some b
  | _ => none

/-- `isinstance(value, dict)`, with the items -/
def dict? : Value F → Option (List (PyStr × Value F))
  | dict items => some items
  | _ => none

@[simp] theorem str?_normal (v : Value F) : v.normal.str? = v.str? := by cases v <;> simp [str?]
@[simp] theorem int?_normal (v : Value F) : v.normal.int? = v.int? := by cases v <;> simp [int?]
@[simp] theorem bool?_normal (v : Value F) : v.normal.bool? = v.bool? := by
  cases v <;> simp [bool?]

theorem dict?_normal (v : Value F) :
    v.normal.dict? = v.dict?.map fun items => sortKeys (items.map fun f => (f.1, f.2.normal)) := by
  cases v <;> simp [dict?]

@[simp] theorem str?_eq_some {v : Value F} {s : PyStr} : v.str? = some s ↔ v = str s := by
  cases v <;> simp [str?]

@[simp] theorem dict?_eq_some {v : Value F} {items : List (PyStr × Value F)} :
    v.dict? = some items ↔ v = dict items := by
  cases v <;> simp [dict?]

theorem WellFormed.nodup {items : List (PyStr × Value F)} (h : (dict items).WellFormed) :
    (items.map Prod.fst).Nodup := by
  rw [WellFormed, all_dict, Bool.and_eq_true] at h
  exact of_decide_eq_true h.1

/-- Looking a key up in a dictionary read back gives the value read back. -/
theorem lookup_normal {items : List (PyStr × Value F)} (h : (items.map Prod.fst).Nodup)
    (k : PyStr) :
    Items.lookup k (sortKeys (items.map fun f => (f.1, f.2.normal)))
      = (Items.lookup k items).map Value.normal := by
  have hkeys : (items.map fun f => (f.1, f.2.normal)).map Prod.fst = items.map Prod.fst := by
    simp
  rw [lookup_sortKeys (hkeys ▸ h), lookup_map_snd]

end Value

end Json
