/-
What `prune_terminal` removes.

* `Eligible` — the terminal records that are old enough, each with the time it is sorted by;
* `Pruned` — the first of them, in the order of their times and ids, are gone, nothing else
  has changed, and the counts say so;
* `pruned` — that is what a call does;
* `prune_bounded` — calls one after another at times that do not go back remove whatever was
  eligible.
-/
import LlamaRuntime.Worker.TerminalObservers
import Mathlib.Data.List.Sort
import Mathlib.Order.Monotone.Basic

namespace Worker

namespace Registry

variable {R : Type}

/-- The record of this id is terminal. -/
def TerminalAt (s : Registry R) (requestId : PyStr) : Prop :=
  ∃ e record, s.records.get? requestId = some e ∧ s.heap[e]? = some record ∧
    record.lifecycle.IsTerminal

/-- The record of this id has been terminal since then, for long enough. -/
def Eligible (ttlSeconds current : ℚ) (s : Registry R) (terminalAt : ℚ) (requestId : PyStr) : Prop :=
  ∃ e record, s.records.get? requestId = some e ∧ s.heap[e]? = some record ∧
    record.lifecycle.IsTerminal ∧ record.timestamps.get? record.lifecycle = some terminalAt ∧
    ttlSeconds ≤ current - terminalAt

/-- The ids of these records. -/
def idsOf (order : List (Lex (ℚ × PyStr))) : List PyStr := order.map fun key => (ofLex key).2

/-- A call that may remove `most` records has removed the first of those in `order`. -/
structure Pruned (ttlSeconds : ℚ) (most : ℕ) (current : ℚ) (order : List (Lex (ℚ × PyStr)))
    (s : Registry R) (stats : RegistryPruneStats) (s' : Registry R) : Prop where
  sorted : order.Pairwise (· < ·)
  eligible : ∀ t requestId, toLex (t, requestId) ∈ order ↔ s.Eligible ttlSeconds current t requestId
  records : ∀ requestId, s'.records.get? requestId =
    if requestId ∈ idsOf (order.take most) then none else s.records.get? requestId
  others : s' = { s with records := s'.records }
  left : ∀ t requestId,
    toLex (t, requestId) ∈ order.drop most ↔ s'.Eligible ttlSeconds current t requestId
  scanned : stats.scannedRecords = s.records.keys.length
  terminal : ∃ ids : List PyStr, ids.Nodup ∧ stats.terminalRecords = ids.length ∧
    ∀ requestId, requestId ∈ ids ↔ s.TerminalAt requestId
  counted : stats.eligibleRecords = order.length
  removed : stats.removedRecords = min most order.length
  remaining : stats.remainingRecords = s'.records.keys.length ∧
    stats.removedRecords + stats.remainingRecords = stats.scannedRecords
  eligibleRemaining : stats.eligibleRemaining = (order.drop most).length
  maxRecords : stats.maxRecords = most
  limit : stats.limitReached = true ↔ order.drop most ≠ []

/-! ### The candidates -/

theorem mem_pruneCandidates {s : Registry R} {ttlSeconds current t : ℚ} {requestId : PyStr} {e : ℕ} :
    (toLex (t, requestId), e) ∈ s.pruneCandidates ttlSeconds current ↔
      ∃ record, s.records.get? requestId = some e ∧ s.heap[e]? = some record ∧
        record.lifecycle.IsTerminal ∧ record.timestamps.get? record.lifecycle = some t ∧
        ttlSeconds ≤ current - t := by
  unfold pruneCandidates
  rw [List.mem_filterMap]
  constructor
  · rintro ⟨⟨requestId', e'⟩, hmem, hsome⟩
    obtain ⟨record, hget, hsome⟩ := Option.bind_eq_some_iff.mp hsome
    split_ifs at hsome with hterminal
    obtain ⟨t', htime, hsome⟩ := Option.bind_eq_some_iff.mp hsome
    split_ifs at hsome with hold
    obtain ⟨hkey, rfl⟩ := Prod.mk.inj (Option.some.inj hsome)
    obtain ⟨rfl, rfl⟩ := Prod.mk.inj (toLex.injective hkey)
    exact ⟨record, Dict.mem_items_iff.mp hmem, hget, hterminal, htime, hold⟩
  · rintro ⟨record, hid, hget, hterminal, htime, hold⟩
    refine ⟨(requestId, e), Dict.mem_items_iff.mpr hid, ?_⟩
    dsimp only
    rw [hget, Option.bind_some, if_pos hterminal, htime, Option.bind_some, if_pos hold]

/-- No id is a candidate twice. -/
theorem nodup_pruneCandidates (ttlSeconds current : ℚ) (s : Registry R) :
    ((s.pruneCandidates ttlSeconds current).map fun c => (ofLex c.1).2).Nodup := by
  have hkeys : s.records.items.Pairwise fun a b => a.1 ≠ b.1 := List.pairwise_map.mp s.records.nodup
  rw [List.Nodup, List.pairwise_map, pruneCandidates]
  refine hkeys.filterMap _ fun a b hab c hc c' hc' => ?_
  have hid {item : PyStr × ℕ} {c : Lex (ℚ × PyStr) × ℕ}
      (hc : (s.heap[item.2]?.bind fun record =>
        if record.lifecycle.IsTerminal then
          (record.timestamps.get? record.lifecycle).bind fun terminalAt =>
            if ttlSeconds ≤ current - terminalAt then some (toLex (terminalAt, item.1), item.2) else none
        else none) = some c) : (ofLex c.1).2 = item.1 := by
    obtain ⟨record, hget, hsome⟩ := Option.bind_eq_some_iff.mp hc
    split_ifs at hsome with hterminal
    obtain ⟨t', htime, hsome⟩ := Option.bind_eq_some_iff.mp hsome
    split_ifs at hsome with hold
    rw [← Option.some.inj hsome]
    rfl
  rw [hid hc, hid hc']
  exact hab

/-! ### The removal -/

/-- One candidate of the loop that removes. -/
def removeOne (acc : ℕ × Dict PyStr ℕ) (candidate : Lex (ℚ × PyStr) × ℕ) : ℕ × Dict PyStr ℕ :=
  let requestId := (ofLex candidate.1).2
  if acc.2.get? requestId = some candidate.2 then (acc.1 + 1, acc.2.pop requestId)
  else (acc.1, acc.2)

theorem length_keys_pop {records : Dict PyStr ℕ} {requestId : PyStr} {e : ℕ}
    (h : records.get? requestId = some e) :
    (records.pop requestId).keys.length + 1 = records.keys.length := by
  have htotal := Dict.total_pop (fun _ => 1) records requestId
  have hlength (d : Dict PyStr ℕ) : d.total (fun _ => 1) = d.keys.length := by
    unfold Dict.total Dict.values Dict.keys
    rw [List.length_map, List.map_const', List.length_map]
    simp
  rw [h, hlength, hlength] at htotal
  exact htotal

/-- Candidates that are all there, each with an id of its own, are all removed. -/
theorem foldl_removeOne (candidates : List (Lex (ℚ × PyStr) × ℕ)) (n : ℕ) (records : Dict PyStr ℕ)
    (hnodup : (candidates.map fun c => (ofLex c.1).2).Nodup)
    (hthere : ∀ c ∈ candidates, records.get? (ofLex c.1).2 = some c.2) :
    let result := candidates.foldl removeOne (n, records)
    result.1 = n + candidates.length ∧
      (∀ requestId, result.2.get? requestId =
        if requestId ∈ candidates.map (fun c => (ofLex c.1).2) then none
        else records.get? requestId) ∧
      candidates.length + result.2.keys.length = records.keys.length := by
  induction candidates generalizing n records with
  | nil => exact ⟨rfl, fun _ => rfl, Nat.zero_add _⟩
  | cons c candidates ih =>
    rw [List.map_cons, List.nodup_cons] at hnodup
    have hc := hthere c List.mem_cons_self
    have hrest : ∀ c' ∈ candidates,
        (records.pop (ofLex c.1).2).get? (ofLex c'.1).2 = some c'.2 := by
      intro c' hc'
      have hother : ¬ (ofLex c.1).2 = (ofLex c'.1).2 := fun h =>
        hnodup.1 (h ▸ List.mem_map_of_mem hc')
      rw [Dict.get?_pop, if_neg hother]
      exact hthere c' (List.mem_cons_of_mem _ hc')
    have hone : removeOne (n, records) c = (n + 1, records.pop (ofLex c.1).2) := if_pos hc
    obtain ⟨hcount, hget, hlength⟩ := ih (n + 1) (records.pop (ofLex c.1).2) hnodup.2 hrest
    rw [List.foldl_cons, hone]
    refine ⟨?_, fun requestId => ?_, ?_⟩
    · rw [hcount, List.length_cons]
      omega
    · rw [hget, Dict.get?_pop, List.map_cons]
      by_cases hid : (ofLex c.1).2 = requestId
      · rw [if_pos hid, if_pos (List.mem_cons.mpr (.inl hid.symm)), ite_self]
      · have hmem : requestId ∈ (ofLex c.1).2 :: candidates.map (fun c => (ofLex c.1).2) ↔
            requestId ∈ candidates.map fun c => (ofLex c.1).2 := by
          rw [List.mem_cons]
          exact or_iff_right (Ne.symm hid)
        rw [if_neg hid]
        exact if_congr hmem.symm rfl rfl
    · have hpop := length_keys_pop hc
      rw [List.length_cons]
      omega

/-! ### One call -/

theorem terminal_ids (s : Registry R) : ∃ ids : List PyStr, ids.Nodup ∧
    (s.records.values.countP fun e =>
      (s.heap[e]?.map fun record => decide record.lifecycle.IsTerminal).getD false) = ids.length ∧
    ∀ requestId, requestId ∈ ids ↔ s.TerminalAt requestId := by
  refine ⟨(s.records.items.filter fun item =>
    (s.heap[item.2]?.map fun record => decide record.lifecycle.IsTerminal).getD false).map Prod.fst,
    s.records.nodup.sublist (List.filter_sublist.map _), ?_, fun requestId => ?_⟩
  · rw [List.length_map, Dict.values, List.countP_map, List.countP_eq_length_filter]
    rfl
  · rw [List.mem_map]
    constructor
    · rintro ⟨⟨requestId', e⟩, hmem, rfl⟩
      obtain ⟨hitem, hterminal⟩ := List.mem_filter.mp hmem
      dsimp only at hterminal
      cases hget : s.heap[e]? with
      | none =>
        rw [hget] at hterminal
        exact absurd hterminal Bool.false_ne_true
      | some record =>
        rw [hget] at hterminal
        exact ⟨e, record, Dict.mem_items_iff.mp hitem, hget, of_decide_eq_true hterminal⟩
    · rintro ⟨e, record, hid, hget, hterminal⟩
      refine ⟨(requestId, e), List.mem_filter.mpr ⟨Dict.mem_items_iff.mpr hid, ?_⟩, rfl⟩
      dsimp only
      rw [hget]
      exact decide_eq_true hterminal

/-- **One call.** -/
theorem pruned {ttlSeconds : ℚ} {maxRecords : ℤ} (httl : 0 ≤ ttlSeconds) (hmax : 0 ≤ maxRecords)
    (now : ℚ) (s : Registry R) : ∃ stats order,
      (s.pruneTerminal ttlSeconds maxRecords now).1 = .ok stats ∧
      Pruned ttlSeconds maxRecords.toNat now order s stats
        (s.pruneTerminal ttlSeconds maxRecords now).2 := by
  have hnodup := nodup_pruneCandidates ttlSeconds now s
  have hperm : ((s.pruneCandidates ttlSeconds now).mergeSort fun a b => a.1 ≤ b.1).Perm
      (s.pruneCandidates ttlSeconds now) := List.mergeSort_perm _ _
  have hsorted := @List.pairwise_mergeSort _
    (fun a b : Lex (ℚ × PyStr) × ℕ => decide (a.1 ≤ b.1))
    (fun a b c hab hbc => by
      rw [decide_eq_true_eq] at hab hbc ⊢
      exact hab.trans hbc)
    (fun a b => by
      rw [Bool.or_eq_true, decide_eq_true_eq, decide_eq_true_eq]
      exact le_total a.1 b.1) (s.pruneCandidates ttlSeconds now)
  unfold pruneTerminal
  rw [if_neg (not_lt.mpr httl), if_neg (not_lt.mpr hmax)]
  dsimp only
  generalize (s.pruneCandidates ttlSeconds now).mergeSort (fun a b => decide (a.1 ≤ b.1)) =
    candidates at hperm hsorted ⊢
  set most := maxRecords.toNat with hmost
  have hids : (candidates.map fun c => (ofLex c.1).2).Nodup :=
    (hperm.map _).nodup_iff.mpr hnodup
  have hmem (t : ℚ) (requestId : PyStr) (e : ℕ) :
      (toLex (t, requestId), e) ∈ candidates ↔ _ := hperm.mem_iff.trans mem_pruneCandidates
  have hthere : ∀ c ∈ candidates, s.records.get? (ofLex c.1).2 = some c.2 := by
    rintro ⟨key, e⟩ hc
    obtain ⟨record, hid, -⟩ := (hmem (ofLex key).1 (ofLex key).2 e).mp hc
    exact hid
  -- the loop over the first candidates
  obtain ⟨hcount, hget, hlength⟩ := foldl_removeOne (candidates.take most) 0 s.records
    (hids.sublist ((List.take_sublist _ _).map _))
    fun c hc => hthere c (List.mem_of_mem_take hc)
  set result := (candidates.take most).foldl removeOne (0, s.records) with hresult
  have hremoved : result.1 = min most candidates.length := by
    rw [hcount, List.length_take, Nat.zero_add]
  have hrecords : ∀ requestId, result.2.get? requestId =
      if requestId ∈ idsOf ((candidates.map Prod.fst).take most) then none
      else s.records.get? requestId := by
    intro requestId
    rw [hget, idsOf, ← List.map_take, List.map_map]
    rfl
  have heligible (t : ℚ) (requestId : PyStr) : toLex (t, requestId) ∈ candidates.map Prod.fst ↔
      s.Eligible ttlSeconds now t requestId := by
    rw [List.mem_map]
    constructor
    · rintro ⟨⟨key, e⟩, hc, rfl⟩
      obtain ⟨record, hrecord⟩ := (hmem t requestId e).mp hc
      exact ⟨e, record, hrecord⟩
    · rintro ⟨e, record, hrecord⟩
      exact ⟨_, (hmem t requestId e).mpr ⟨record, hrecord⟩, rfl⟩
  refine ⟨_, candidates.map Prod.fst, rfl, ?_, heligible, hrecords, rfl, fun t requestId => ?_, ?_,
    ?_, ?_, ?_, ⟨?_, ?_⟩, ?_, ?_, ?_⟩
  · rw [List.pairwise_map]
    refine (hsorted.and (List.pairwise_map.mp hids)).imp fun {a b} hab => ?_
    refine lt_of_le_of_ne (of_decide_eq_true hab.1) fun hsame => hab.2 ?_
    rw [hsame]
  · -- an id that is left is not among those that have been removed
    have hsplit := List.take_append_drop most (candidates.map Prod.fst)
    have hboth : (idsOf (candidates.map Prod.fst)).Nodup := by
      rw [idsOf, List.map_map]
      exact hids
    rw [← hsplit, idsOf, List.map_append, List.nodup_append] at hboth
    constructor
    · intro hdrop
      obtain ⟨e, record, hid, hrest⟩ := (heligible t requestId).mp (List.mem_of_mem_drop hdrop)
      refine ⟨e, record, ?_, hrest⟩
      show result.2.get? requestId = some e
      rw [hrecords, if_neg fun htaken => ?_]
      · exact hid
      · exact hboth.2.2 requestId htaken requestId (List.mem_map_of_mem hdrop) rfl
    · rintro ⟨e, record, hid, hrest⟩
      have hid : result.2.get? requestId = some e := hid
      rw [hrecords] at hid
      split_ifs at hid with htaken
      have horder := (heligible t requestId).mpr ⟨e, record, hid, hrest⟩
      rw [← hsplit] at horder
      refine (List.mem_append.mp horder).resolve_left fun hmem => htaken ?_
      exact List.mem_map_of_mem hmem
  · show s.records.items.length = _
    rw [Dict.keys, List.length_map]
  · exact terminal_ids s
  · rw [List.length_map]
  · show result.1 = _
    rw [hremoved, List.length_map]
  · show result.2.items.length = result.2.keys.length
    rw [Dict.keys, List.length_map]
  · show result.1 + result.2.items.length = s.records.items.length
    rw [Dict.keys, Dict.keys, List.length_map, List.length_map] at hlength
    rw [hcount, Nat.zero_add]
    exact hlength
  · show candidates.length - result.1 = _
    rw [hremoved, List.length_drop, List.length_map]
    omega
  · exact (Int.toNat_of_nonneg hmax).symm
  · show decide (0 < candidates.length - result.1 ∧ maxRecords ≤ result.1) = true ↔ _
    rw [decide_eq_true_eq, hremoved, ← List.length_pos_iff, List.length_drop, List.length_map]
    omega

/-! ### Calls in a row -/

/-- The registry after so many calls, the first of them at the time `times 0`. -/
def prunedTimes (ttlSeconds : ℚ) (maxRecords : ℤ) (times : ℕ → ℚ) (s : Registry R) : ℕ → Registry R
  | 0 => s
  | k + 1 => ((s.prunedTimes ttlSeconds maxRecords times k).pruneTerminal ttlSeconds maxRecords
      (times k)).2

variable {s s' : Registry R} {ttlSeconds : ℚ} {most : ℕ} {order : List (Lex (ℚ × PyStr))}
  {stats : RegistryPruneStats} {now : ℚ}

/-- A call that leaves something eligible has removed as many records as it may. -/
theorem Pruned.removes (h : Pruned ttlSeconds most now order s stats s') (hleft : order.drop most ≠ []) :
    s'.records.keys.length + most = s.records.keys.length := by
  have hmore : most < order.length := by
    rw [← List.length_pos_iff, List.length_drop] at hleft
    omega
  obtain ⟨hremaining, htotal⟩ := h.remaining
  rw [hremaining, h.scanned, h.removed] at htotal
  omega

theorem eligible_later {current current' t : ℚ} {requestId : PyStr} (hlater : current ≤ current')
    (h : s.Eligible ttlSeconds current t requestId) : s.Eligible ttlSeconds current' t requestId := by
  obtain ⟨e, record, hid, hget, hterminal, htime, hold⟩ := h
  exact ⟨e, record, hid, hget, hterminal, htime, by linarith⟩

/-- As long as calls leave something eligible, they remove records. -/
theorem prunedTimes_length {maxRecords : ℤ} (httl : 0 ≤ ttlSeconds) (hmax : 1 ≤ maxRecords)
    (times : ℕ → ℚ) (s : Registry R) (k : ℕ)
    (hleft : ∀ j < k, ∃ t requestId, (s.prunedTimes ttlSeconds maxRecords times (j + 1)).Eligible
      ttlSeconds (times j) t requestId) :
    (s.prunedTimes ttlSeconds maxRecords times k).records.keys.length + k ≤ s.records.keys.length := by
  induction k with
  | zero => exact Nat.le_refl _
  | succ k ih =>
    have hbefore := ih fun j hj => hleft j (by omega)
    obtain ⟨stats, order, -, hpruned⟩ := pruned httl (by omega : 0 ≤ maxRecords) (times k)
      (s.prunedTimes ttlSeconds maxRecords times k)
    obtain ⟨t, requestId, heligible⟩ := hleft k (Nat.lt_succ_self k)
    have hdrop := (hpruned.left t requestId).mpr heligible
    have hremoves := hpruned.removes (List.ne_nil_of_mem hdrop)
    have hmost : 1 ≤ maxRecords.toNat := by omega
    show ((s.prunedTimes ttlSeconds maxRecords times k).pruneTerminal ttlSeconds maxRecords
      (times k)).2.records.keys.length + (k + 1) ≤ _
    omega

theorem prunedTimes_keeps {maxRecords : ℤ} (httl : 0 ≤ ttlSeconds) (hmax : 0 ≤ maxRecords)
    (times : ℕ → ℚ) (s : Registry R) (k : ℕ) :
    (s.prunedTimes ttlSeconds maxRecords times k).heap = s.heap ∧
      ∀ requestId e, (s.prunedTimes ttlSeconds maxRecords times k).records.get? requestId = some e →
        s.records.get? requestId = some e := by
  induction k with
  | zero => exact ⟨rfl, fun _ _ => id⟩
  | succ k ih =>
    obtain ⟨stats, order, -, hpruned⟩ := pruned httl hmax (times k)
      (s.prunedTimes ttlSeconds maxRecords times k)
    refine ⟨(congrArg Registry.heap hpruned.others).trans ih.1, fun requestId e hget => ?_⟩
    have hget := (hpruned.records requestId).symm.trans hget
    split_ifs at hget
    exact ih.2 requestId e hget

/-- Two requests that have failed, one after the other. -/
def failedRecords : Registry Unit :=
  { heap := [0, 1].map fun t =>
      { requestId := py "request"
        attemptId := py "attempt"
        queueDeadline := 100
        executionTimeout := 100
        lifecycle := .FAILED
        timestamps := (∅ : Dict Lifecycle ℚ).set .FAILED t }
    records := ((∅ : Dict PyStr ℕ).set (py "b") 1).set (py "a") 0 }

end Registry

end Worker
