/-
File trees without links.

A directory has a finite set of names and one tree for each of them; a path is the list of
the names that lead to a node.

* `lookup`, `remove` — the node a path leads to, and the tree without it;
* `usage` — the bytes of the files of a tree;
* `walk` — the traversal with a stack of pending directories, which visits every node
  below the first once (`walk_perm`).
-/
import Mathlib.Data.Finset.Sort
import Mathlib.Algebra.BigOperators.Group.Finset.Basic
import Mathlib.Algebra.BigOperators.Group.Finset.Piecewise
import Mathlib.Algebra.Order.BigOperators.Group.Finset
import Mathlib.Algebra.BigOperators.Group.List.Basic
import Mathlib.Data.List.Infix
import Mathlib.Algebra.Order.Ring.Nat

/-- `ν` are the names, `τ` the times. -/
inductive FileTree (ν τ : Type) where
  | file (size : ℕ) (mtime : τ)
  | dir (mtime : τ) (names : Finset ν) (child : ν → FileTree ν τ)

namespace FileTree

variable {ν τ : Type}

def mtime : FileTree ν τ → τ
  | .file _ mtime => mtime
  | .dir mtime _ _ => mtime

/-- The bytes of a file. -/
def size : FileTree ν τ → ℕ
  | .file size _ => size
  | .dir .. => 0

def isDir : FileTree ν τ → Bool
  | .file .. => false
  | .dir .. => true

def nodes : FileTree ν τ → ℕ
  | .file .. => 1
  | .dir _ names child => 1 + ∑ a ∈ names, nodes (child a)

def usage : FileTree ν τ → ℕ
  | .file size _ => size
  | .dir _ names child => ∑ a ∈ names, usage (child a)

section Paths

variable [LinearOrder ν]

def lookup : List ν → FileTree ν τ → Option (FileTree ν τ)
  | [], t => some t
  | _ :: _, .file .. => none
  | a :: p, .dir _ names child => if a ∈ names then lookup p (child a) else none

def remove : List ν → FileTree ν τ → FileTree ν τ
  | [], t => t
  | _ :: _, .file size mtime => .file size mtime
  | [a], .dir mtime names child => .dir mtime (names.erase a) child
  | a :: b :: p, .dir mtime names child =>
    .dir mtime names (Function.update child a (remove (b :: p) (child a)))

theorem lookup_cons_dir {a : ν} {p : List ν} {mtime : τ} {names : Finset ν} {child : ν → FileTree ν τ}
    {n : FileTree ν τ} : lookup (a :: p) (.dir mtime names child) = some n ↔
      a ∈ names ∧ lookup p (child a) = some n := by
  show (if a ∈ names then lookup p (child a) else none) = some n ↔ _
  split_ifs with h <;> simp [h]

theorem lookup_append (p q : List ν) (t : FileTree ν τ) :
    lookup (p ++ q) t = (lookup p t).bind (lookup q) := by
  induction p generalizing t with
  | nil => rfl
  | cons a p ih =>
    cases t with
    | file => rfl
    | dir mtime names child =>
      show (if a ∈ names then lookup (p ++ q) (child a) else none) =
        (if a ∈ names then lookup p (child a) else none).bind (lookup q)
      split_ifs
      · exact ih (child a)
      · rfl

/-- Above a node there are directories. -/
theorem lookup_of_append {p q : List ν} {t n : FileTree ν τ} (h : lookup (p ++ q) t = some n) :
    ∃ m, lookup p t = some m ∧ lookup q m = some n := by
  rw [lookup_append] at h
  exact Option.bind_eq_some_iff.mp h

/-- What the paths that are not shorter lead to. -/
theorem lookup_remove {q p : List ν} (t : FileTree ν τ) (hne : q ≠ [])
    (hlength : q.length ≤ p.length) :
    lookup p (remove q t) = if q <+: p then none else lookup p t := by
  induction q generalizing p t with
  | nil => exact absurd rfl hne
  | cons a q ih =>
    cases p with
    | nil => exact absurd hlength (by simp)
    | cons c p =>
      have hiff : a :: q <+: c :: p ↔ a = c ∧ q <+: p := List.cons_prefix_cons
      cases t with
      | file =>
        have hnone : remove (a :: q) (.file ‹ℕ› ‹τ›) = (.file ‹ℕ› ‹τ› : FileTree ν τ) := by
          cases q <;> rfl
        rw [hnone]
        split_ifs <;> rfl
      | dir mtime names child =>
        cases q with
        | nil =>
          show (if c ∈ names.erase a then lookup p (child c) else none) =
            if [a] <+: c :: p then none else if c ∈ names then lookup p (child c) else none
          by_cases hac : a = c
          · rw [if_pos (hiff.mpr ⟨hac, List.nil_prefix⟩), if_neg (by simp [hac])]
          · have hiff' : c ∈ names.erase a ↔ c ∈ names := by simp [Finset.mem_erase, Ne.symm hac]
            rw [if_neg fun h => hac (hiff.mp h).1]
            simp only [hiff']
        | cons b q =>
          show (if c ∈ names then
              lookup p (Function.update child a (remove (b :: q) (child a)) c) else none) =
            if a :: b :: q <+: c :: p then none else if c ∈ names then lookup p (child c) else none
          by_cases hac : a = c
          · subst hac
            rw [Function.update_self, ih (child a) (by simp) (Nat.le_of_succ_le_succ hlength)]
            by_cases hpre : b :: q <+: p
            · rw [if_pos hpre, if_pos (hiff.mpr ⟨rfl, hpre⟩), ite_self]
            · rw [if_neg hpre, if_neg fun h => hpre (hiff.mp h).2]
          · rw [Function.update_of_ne (Ne.symm hac), if_neg fun h => hac (hiff.mp h).1]

/-- No file is lost but those below the path. -/
theorem lookup_remove_file {q p : List ν} (t : FileTree ν τ) (hne : q ≠ []) (size : ℕ) (mtime : τ) :
    lookup p (remove q t) = some (.file size mtime) ↔
      lookup p t = some (.file size mtime) ∧ ¬ q <+: p := by
  by_cases hlength : q.length ≤ p.length
  · rw [lookup_remove t hne hlength]
    split_ifs with hpre <;> simp [hpre]
  have hpre : ¬ q <+: p := fun h => hlength h.length_le
  rw [and_iff_left hpre]
  induction q generalizing p t with
  | nil => exact absurd rfl hne
  | cons a q ih =>
    cases t with
    | file => cases q <;> rfl
    | dir mtime' names child =>
      cases p with
      | nil => cases q <;> exact ⟨nofun, nofun⟩
      | cons c p =>
        cases q with
        | nil => exact absurd (by simp) hlength
        | cons b q =>
          show (if c ∈ names then
              lookup p (Function.update child a (remove (b :: q) (child a)) c) else none) = _ ↔
            (if c ∈ names then lookup p (child c) else none) = _
          by_cases hac : a = c
          · subst hac
            rw [Function.update_self]
            split_ifs
            · refine ih (child a) (by simp) (fun h => hlength (Nat.succ_le_succ h)) fun h => hpre ?_
              exact List.cons_prefix_cons.mpr ⟨rfl, h⟩
            · rfl
          · rw [Function.update_of_ne (Ne.symm hac)]

theorem usage_remove {q : List ν} {t n : FileTree ν τ} (hne : q ≠ []) (h : lookup q t = some n) :
    (remove q t).usage + n.usage = t.usage := by
  induction q generalizing t with
  | nil => exact absurd rfl hne
  | cons a q ih =>
    cases t with
    | file => exact absurd h nofun
    | dir mtime names child =>
      obtain ⟨ha, h⟩ := lookup_cons_dir.mp h
      cases q with
      | nil =>
        obtain rfl := Option.some_inj.mp h
        exact Finset.sum_erase_add names (fun a => (child a).usage) ha
      | cons b q =>
        have hrest := ih (by simp) h
        show ∑ c ∈ names, (Function.update child a (remove (b :: q) (child a)) c).usage + n.usage =
          ∑ c ∈ names, (child c).usage
        rw [← Finset.add_sum_erase names _ ha, ← Finset.add_sum_erase names (fun c => (child c).usage) ha,
          Function.update_self]
        have hothers : ∀ c ∈ names.erase a,
            (Function.update child a (remove (b :: q) (child a)) c).usage = (child c).usage := by
          intro c hc
          rw [Function.update_of_ne (Finset.ne_of_mem_erase hc)]
        rw [Finset.sum_congr rfl hothers]
        omega

end Paths

/-! ### Traversal -/

section Walk

variable [LinearOrder ν]

/-- The entries of a directory, by name. -/
def scandir : FileTree ν τ → List (ν × FileTree ν τ)
  | .file .. => []
  | .dir _ names child => names.sort.map fun a => (a, child a)

/-- The entries of a directory with their paths. -/
def entries (path : List ν) (t : FileTree ν τ) : List (List ν × FileTree ν τ) :=
  t.scandir.map fun entry => (path ++ [entry.1], entry.2)

/-- The nodes below a node. -/
def descendants : List ν → FileTree ν τ → List (List ν × FileTree ν τ)
  | _, .file .. => []
  | path, .dir _ names child =>
    names.sort.flatMap fun a => (path ++ [a], child a) :: descendants (path ++ [a]) (child a)

omit [LinearOrder ν] in
theorem nodes_pos (t : FileTree ν τ) : 0 < t.nodes := by
  cases t with
  | file => exact Nat.one_pos
  | dir => exact Nat.lt_add_right _ Nat.one_pos

theorem sum_sort (f : ν → ℕ) (names : Finset ν) : (names.sort.map f).sum = ∑ a ∈ names, f a := by
  rw [Finset.sum_eq_multiset_sum, ← Finset.sort_eq names (· ≤ ·), Multiset.map_coe, Multiset.sum_coe]

theorem nodes_entries (path : List ν) (t : FileTree ν τ) :
    ((t.entries path).map fun entry => entry.2.nodes).sum < t.nodes := by
  cases t with
  | file => exact Nat.one_pos
  | dir mtime names child =>
    have hsum : ((entries path (.dir mtime names child)).map fun entry => entry.2.nodes) =
        names.sort.map fun a => (child a).nodes := by
      simp [entries, scandir, Function.comp_def]
    rw [hsum, sum_sort]
    show _ < 1 + ∑ a ∈ names, (child a).nodes
    omega

/-- The directories among the entries. -/
def directories (path : List ν) (t : FileTree ν τ) : List (List ν × FileTree ν τ) :=
  (t.entries path).filter fun entry => entry.2.isDir

theorem nodes_directories (path : List ν) (t : FileTree ν τ) :
    ((t.directories path).map fun entry => entry.2.nodes).sum < t.nodes :=
  lt_of_le_of_lt ((List.filter_sublist.map _).sum_le_sum fun _ _ => Nat.zero_le _)
    (nodes_entries path t)

/-- The entries of the last pending directory are visited, and its directories are pending. -/
def walk {σ : Type} (visit : σ → List ν × FileTree ν τ → σ) :
    List (List ν × FileTree ν τ) → σ → σ
  | [], acc => acc
  | (path, t) :: pending, acc =>
    walk visit ((t.directories path).reverse ++ pending) ((t.entries path).foldl visit acc)
termination_by pending => (pending.map fun entry => entry.2.nodes).sum
decreasing_by
  have hless := nodes_directories path t
  simp only [List.map_append, List.sum_append, List.map_reverse, List.sum_reverse, List.map_cons,
    List.sum_cons]
  omega

theorem flatMap_cons_perm {α β : Type} (f : α → β) (g : α → List β) (l : List α) :
    (l.flatMap fun a => f a :: g a).Perm (l.map f ++ l.flatMap g) := by
  induction l with
  | nil => exact .refl _
  | cons a l ih =>
    rw [List.flatMap_cons, List.map_cons, List.flatMap_cons, List.cons_append, List.cons_append]
    refine .cons _ ((ih.append_left (g a)).trans ?_)
    rw [← List.append_assoc, ← List.append_assoc]
    exact List.perm_append_comm.append_right _

/-- Only the directories have something below them. -/
theorem flatMap_descendants (l : List (List ν × FileTree ν τ)) :
    (l.filter fun entry => entry.2.isDir).flatMap (fun entry => entry.2.descendants entry.1) =
      l.flatMap fun entry => entry.2.descendants entry.1 := by
  induction l with
  | nil => rfl
  | cons entry l ih =>
    obtain ⟨path, t⟩ := entry
    cases t with
    | file => exact ih
    | dir => exact congrArg (_ ++ ·) ih

theorem descendants_perm (path : List ν) (t : FileTree ν τ) :
    (t.descendants path).Perm (t.entries path ++
      (t.directories path).flatMap fun entry => entry.2.descendants entry.1) := by
  unfold directories
  rw [flatMap_descendants]
  cases t with
  | file => exact .refl _
  | dir mtime names child =>
    have hentries : entries path (.dir mtime names child) =
        names.sort.map fun a => (path ++ [a], child a) := List.map_map
    rw [hentries, List.flatMap_map]
    exact flatMap_cons_perm (fun a => (path ++ [a], child a))
      (fun a => descendants (path ++ [a]) (child a)) names.sort

/-- The walk visits every node below the pending ones once. -/
theorem walk_perm {σ : Type} (visit : σ → List ν × FileTree ν τ → σ)
    (pending : List (List ν × FileTree ν τ)) (acc : σ) :
    ∃ visited : List (List ν × FileTree ν τ),
      visited.Perm (pending.flatMap fun entry => entry.2.descendants entry.1) ∧
        walk visit pending acc = visited.foldl visit acc := by
  fun_induction walk visit pending acc with
  | case1 acc => exact ⟨[], .refl _, rfl⟩
  | case2 path t pending acc ih =>
    obtain ⟨visited, hperm, hwalk⟩ := ih
    refine ⟨t.entries path ++ visited, ?_, ?_⟩
    · rw [List.flatMap_append] at hperm
      rw [List.flatMap_cons]
      have hreverse := (List.reverse_perm (t.directories path)).flatMap_right
        fun entry => entry.2.descendants entry.1
      refine ((hperm.trans (hreverse.append_right _)).append_left _).trans ?_
      rw [← List.append_assoc]
      exact (descendants_perm path t).symm.append_right _
    · rw [hwalk, List.foldl_append]

/-- What is below a node is what its paths lead to. -/
theorem mem_descendants {path q : List ν} {t n : FileTree ν τ} :
    (q, n) ∈ t.descendants path ↔ ∃ r, r ≠ [] ∧ q = path ++ r ∧ lookup r t = some n := by
  induction t generalizing path with
  | file =>
    refine ⟨nofun, ?_⟩
    rintro ⟨r, hne, _, h⟩
    cases r with
    | nil => exact absurd rfl hne
    | cons => exact absurd h nofun
  | dir mtime names child ih =>
    unfold descendants
    constructor
    · intro h
      obtain ⟨a, ha, h⟩ := List.mem_flatMap.mp h
      have ha : a ∈ names := (Finset.mem_sort _).mp ha
      rcases List.mem_cons.mp h with h | h
      · obtain ⟨rfl, rfl⟩ := Prod.mk.inj h
        exact ⟨[a], by simp, rfl, if_pos ha⟩
      · obtain ⟨r, _, rfl, hlookup⟩ := (ih a).mp h
        exact ⟨a :: r, by simp, by simp, (if_pos ha).trans hlookup⟩
    · rintro ⟨r, hne, rfl, h⟩
      cases r with
      | nil => exact absurd rfl hne
      | cons a r =>
        obtain ⟨ha, h⟩ := lookup_cons_dir.mp h
        refine List.mem_flatMap.mpr ⟨a, (Finset.mem_sort _).mpr ha, ?_⟩
        cases r with
        | nil =>
          obtain rfl := Option.some_inj.mp h
          exact List.mem_cons_self
        | cons b r =>
          exact List.mem_cons_of_mem _ ((ih a).mpr ⟨b :: r, by simp, by simp, h⟩)

/-- The bytes of a directory are those of the files below it. -/
theorem sum_descendants (path : List ν) (t : FileTree ν τ) :
    t.size + ((t.descendants path).map fun entry => entry.2.size).sum = t.usage := by
  induction t generalizing path with
  | file size mtime => exact Nat.add_zero size
  | dir mtime names child ih =>
    have hchild : ∀ a, (((path ++ [a], child a) :: descendants (path ++ [a]) (child a)).map
        fun entry => entry.2.size).sum = (child a).usage := by
      intro a
      rw [List.map_cons, List.sum_cons]
      exact ih a (path ++ [a])
    show 0 + ((names.sort.flatMap fun a => _).map _).sum = ∑ a ∈ names, (child a).usage
    rw [Nat.zero_add, List.map_flatMap, List.flatMap_def, List.sum_flatten, List.map_map, ← sum_sort]
    exact congrArg List.sum (List.map_congr_left fun a _ => hchild a)

/-- The bytes of the files below a node. -/
def bytes (t : FileTree ν τ) : ℕ := ((t.descendants []).map fun entry => entry.2.size).sum

theorem size_add_bytes (t : FileTree ν τ) : t.size + t.bytes = t.usage := sum_descendants [] t

theorem bytes_dir (mtime : τ) (names : Finset ν) (child : ν → FileTree ν τ) :
    bytes (.dir mtime names child) = usage (.dir mtime names child) := by
  rw [← size_add_bytes (.dir mtime names child)]
  exact (Nat.zero_add _).symm

theorem size_remove {q : List ν} (hne : q ≠ []) (t : FileTree ν τ) :
    (remove q t).size = t.size := by
  cases q with
  | nil => exact absurd rfl hne
  | cons a q => cases t <;> cases q <;> rfl

theorem bytes_remove {q : List ν} {t n : FileTree ν τ} (hne : q ≠ []) (h : lookup q t = some n) :
    (remove q t).bytes + n.usage = t.bytes := by
  have hbefore := size_add_bytes t
  have hafter := size_add_bytes (remove q t)
  have husage := usage_remove hne h
  rw [size_remove hne] at hafter
  omega

end Walk

end FileTree
