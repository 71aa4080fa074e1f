/-
Values that are equal, up to tuples and the order of keys.

* `Alike` — the least such equality: a tuple is its list, a dictionary is any order of
  its items, and what is inside a value may be replaced by what is alike;
* `alike_normal` — a value and its normal form;
* `alike_iff` — values of distinct keys are alike if and only if they have one normal form.
-/
import LlamaRuntime.Json.Value

namespace Json

/-- Two orders of distinct keys are sorted alike. -/
theorem sortKeys_perm {β : Type} {items items' : List (PyStr × β)}
    (h : (items.map Prod.fst).Nodup) (hperm : items.Perm items') :
    sortKeys items = sortKeys items' := by
  have hsorted := (perm_sortKeys items).trans (hperm.trans (perm_sortKeys items').symm)
  refine hsorted.eq_of_pairwise ?_ (sorted_sortKeys items) (sorted_sortKeys items')
  intro a b ha hb hab hba
  have ha : a ∈ items := mem_sortKeys.mp ha
  have hb : b ∈ items := hperm.mem_iff.mpr (mem_sortKeys.mp hb)
  exact List.inj_on_of_nodup_map h ha hb (le_antisymm hab hba)

variable {F : Type}

namespace Value

inductive Alike : Value F → Value F → Prop
  | refl (v : Value F) : Alike v v
  | symm {v w : Value F} (h : Alike v w) : Alike w v
  | trans {u v w : Value F} (h : Alike u v) (h' : Alike v w) : Alike u w
  | asList (items : List (Value F)) : Alike (.tuple items) (.list items)
  | reorder {items items' : List (PyStr × Value F)} (h : items.Perm items') :
      Alike (.dict items) (.dict items')
  | item {v w : Value F} (before after : List (Value F)) (h : Alike v w) :
      Alike (.list (before ++ v :: after)) (.list (before ++ w :: after))
  | field {v w : Value F} (before after : List (PyStr × Value F)) (k : PyStr) (h : Alike v w) :
      Alike (.dict (before ++ (k, v) :: after)) (.dict (before ++ (k, w) :: after))

variable {v w : Value F} {f : Value F → Value F}

/-- All the items of a list may be replaced, from the left. -/
theorem alike_items : ∀ (before : List (Value F)) {items : List (Value F)},
    (∀ v ∈ items, Alike v (f v)) → Alike (.list (before ++ items)) (.list (before ++ items.map f))
  | before, [], _ => .refl _
  | before, v :: items, h => by
    have hitem := Alike.item before items (h v List.mem_cons_self)
    have hrest := alike_items (before ++ [f v]) fun w hw => h w (List.mem_cons_of_mem _ hw)
    simp only [List.append_assoc, List.singleton_append] at hrest
    exact hitem.trans hrest

theorem alike_fields : ∀ (before : List (PyStr × Value F)) {items : List (PyStr × Value F)},
    (∀ p ∈ items, Alike p.2 (f p.2)) →
      Alike (.dict (before ++ items)) (.dict (before ++ items.map fun p => (p.1, f p.2)))
  | before, [], _ => .refl _
  | before, (k, v) :: items, h => by
    have hfield := Alike.field before items k (h (k, v) List.mem_cons_self)
    have hrest := alike_fields (before ++ [(k, f v)]) fun p hp => h p (List.mem_cons_of_mem _ hp)
    simp only [List.append_assoc, List.singleton_append] at hrest
    exact hfield.trans hrest

/-- What is read back is what was written, up to tuples and the order of keys. -/
theorem alike_normal (v : Value F) : Alike v v.normal := by
  induction v using induction with
  | null | bool | int | float | str =>
    simp only [normal_null, normal_bool, normal_int, normal_float, normal_str]
    exact .refl _
  | list items ih =>
    rw [normal_list]
    exact alike_items [] ih
  | tuple items ih =>
    rw [normal_tuple]
    exact (Alike.asList items).trans (alike_items [] ih)
  | dict items ih =>
    rw [normal_dict]
    exact (alike_fields [] ih).trans (.reorder (perm_sortKeys _).symm)

/-- Alike values have distinct keys together, and then one normal form. -/
theorem Alike.wellFormed (h : Alike v w) :
    (v.WellFormed ↔ w.WellFormed) ∧ (v.WellFormed → v.normal = w.normal) := by
  induction h with
  | refl v => exact ⟨Iff.rfl, fun _ => rfl⟩
  | symm h ih => exact ⟨ih.1.symm, fun hwf => (ih.2 (ih.1.mpr hwf)).symm⟩
  | trans h h' ih ih' =>
    exact ⟨ih.1.trans ih'.1, fun hwf => (ih.2 hwf).trans (ih'.2 (ih.1.mp hwf))⟩
  | asList items => simp [WellFormed, all_tuple, all_list, distinctKeys]
  | @reorder items items' hperm =>
    have hkeys := hperm.map Prod.fst
    constructor
    · simp only [WellFormed, all_dict, distinctKeys, hkeys.nodup_iff, hperm.all_eq]
    · intro hwf
      rw [normal_dict, normal_dict]
      refine congrArg _ (sortKeys_perm ?_ (hperm.map _))
      rw [List.map_map]
      exact hwf.nodup
  | item before after h ih =>
    constructor
    · simp only [WellFormed, all_list, List.all_append, List.all_cons, Bool.and_eq_true,
        distinctKeys, ih.1]
    · intro hwf
      simp only [WellFormed, all_list, List.all_append, List.all_cons, Bool.and_eq_true] at hwf
      rw [normal_list, normal_list, List.map_append, List.map_append, List.map_cons,
        List.map_cons, ih.2 hwf.2.2.1]
  | field before after k h ih =>
    constructor
    · simp only [WellFormed, all_dict, List.all_append, List.all_cons, Bool.and_eq_true,
        distinctKeys, List.map_append, List.map_cons, ih.1]
    · intro hwf
      simp only [WellFormed, all_dict, List.all_append, List.all_cons, Bool.and_eq_true] at hwf
      rw [normal_dict, normal_dict, List.map_append, List.map_append, List.map_cons,
        List.map_cons, ih.2 hwf.2.2.1]

theorem alike_iff (h : v.WellFormed) : Alike v w ↔ w.WellFormed ∧ v.normal = w.normal := by
  constructor
  · intro halike
    obtain ⟨hwf, heq⟩ := halike.wellFormed
    exact ⟨hwf.mp h, heq h⟩
  · rintro ⟨-, heq⟩
    have hv := alike_normal v
    rw [heq] at hv
    exact hv.trans (alike_normal w).symm

end Value

end Json
