/-
The characters of a reply, whatever its bytes are split into.

* `WellFormed` — the UTF-8 of some scalar values;
* `nextChar_utf8Bytes`, `nextChar_take` — the loop of `append` at a character, and at
  a part of one;
* `Waiting` — what an accumulator holds: bytes that no complete character is at the
  head of;
* `accumulates_exactly` — every split of the bytes is accepted if and only if they are
  well-formed, and then what was completed is all of them.
-/
import LlamaRuntime.Native.PhaseController

namespace Native

/-- Well-formed UTF-8: each scalar value in its shortest form. -/
def WellFormed (bytes : List UInt8) : Prop :=
  ∃ text : PyStr, (∀ c ∈ text, ¬ c.IsSurrogate) ∧ bytes = text.flatMap CodePoint.utf8Bytes

theorem wellFormed_nil : WellFormed [] := ⟨[], by simp, rfl⟩

theorem WellFormed.cons {c : CodePoint} {bytes : List UInt8} (hc : ¬ c.IsSurrogate)
    (h : WellFormed bytes) : WellFormed (c.utf8Bytes ++ bytes) := by
  obtain ⟨text, htext, rfl⟩ := h
  refine ⟨c :: text, ?_, List.flatMap_cons.symm⟩
  intro d hd
  rcases List.mem_cons.mp hd with rfl | hd
  · exact hc
  · exact htext d hd

theorem WellFormed.append {bytes bytes' : List UInt8} (h : WellFormed bytes)
    (h' : WellFormed bytes') : WellFormed (bytes ++ bytes') := by
  obtain ⟨text, htext, rfl⟩ := h
  obtain ⟨text', htext', rfl⟩ := h'
  refine ⟨text ++ text', ?_, List.flatMap_append.symm⟩
  intro d hd
  rcases List.mem_append.mp hd with hd | hd
  · exact htext d hd
  · exact htext' d hd

/-- Well-formed bytes are none, or a character and well-formed bytes after it. -/
theorem WellFormed.cases {bytes : List UInt8} (h : WellFormed bytes) : bytes = [] ∨
    ∃ c rest, ¬ CodePoint.IsSurrogate c ∧ WellFormed rest ∧ bytes = c.utf8Bytes ++ rest := by
  obtain ⟨text, htext, rfl⟩ := h
  cases text with
  | nil => exact .inl rfl
  | cons c text =>
    exact .inr ⟨c, _, htext c List.mem_cons_self,
      ⟨text, fun d hd => htext d (List.mem_cons_of_mem _ hd), rfl⟩, List.flatMap_cons⟩

/-! ### One character -/

theorem continueChar_ofNat {n codePoint d : ℕ} (hd : d < 0x40) (rest : List UInt8) :
    continueChar (n + 1) codePoint (UInt8.ofNat (0x80 + d) :: rest) =
      continueChar n (codePoint * 0x40 + d) rest := by
  have hbyte : (UInt8.ofNat (0x80 + d)).toNat = 0x80 + d := by
    rw [UInt8.toNat_ofNat']
    omega
  rw [continueChar, hbyte, if_pos (by omega)]
  congr 2
  omega

/-- The first byte of a character tells its width, and the others complete it. -/
theorem leadByte_utf8Bytes (c : CodePoint) : ∃ first tail bits minimum,
    c.utf8Bytes = first :: tail ∧
      leadByte first.toNat = some (tail.length + 1, bits, minimum) ∧ minimum ≤ c.val ∧
      ∀ rest, continueChar tail.length bits (tail ++ rest) = some c.val := by
  have hlt := c.isLt
  unfold CodePoint.utf8Bytes leadByte
  split_ifs with h₁ h₂ h₃
  · have hfirst : (UInt8.ofNat c.val).toNat = c.val := by
      rw [UInt8.toNat_ofNat']
      omega
    refine ⟨_, [], c.val, 0, rfl, ?_, Nat.zero_le _, fun rest => rfl⟩
    rw [hfirst, if_pos (by omega)]
    rfl
  · have hfirst : (UInt8.ofNat (0xC0 + c.val / 0x40)).toNat = 0xC0 + c.val / 0x40 := by
      rw [UInt8.toNat_ofNat']
      omega
    refine ⟨_, _, c.val / 0x40, 0x80, rfl, ?_, by omega, fun rest => ?_⟩
    · rw [hfirst, if_neg (by omega), if_pos (by omega)]
      congr 3
      omega
    · show continueChar 1 _ _ = _
      rw [List.singleton_append, continueChar_ofNat (by omega), continueChar]
      congr 1
      omega
  · have hfirst : (UInt8.ofNat (0xE0 + c.val / 0x1000)).toNat = 0xE0 + c.val / 0x1000 := by
      rw [UInt8.toNat_ofNat']
      omega
    refine ⟨_, _, c.val / 0x1000, 0x800, rfl, ?_, by omega, fun rest => ?_⟩
    · rw [hfirst, if_neg (by omega), if_neg (by omega), if_pos (by omega)]
      congr 3
      omega
    · show continueChar 2 _ _ = _
      rw [List.cons_append, List.singleton_append, continueChar_ofNat (by omega),
        continueChar_ofNat (by omega), continueChar]
      congr 1
      omega
  · have hfirst : (UInt8.ofNat (0xF0 + c.val / 0x40000)).toNat = 0xF0 + c.val / 0x40000 := by
      rw [UInt8.toNat_ofNat']
      omega
    refine ⟨_, _, c.val / 0x40000, 0x10000, rfl, ?_, by omega, fun rest => ?_⟩
    · rw [hfirst, if_neg (by omega), if_neg (by omega), if_neg (by omega), if_pos (by omega)]
      congr 3
      omega
    · show continueChar 3 _ _ = _
      rw [List.cons_append, List.cons_append, List.singleton_append,
        continueChar_ofNat (by omega), continueChar_ofNat (by omega),
        continueChar_ofNat (by omega), continueChar]
      congr 1
      omega

/-- The loop finds the character that the bytes begin with. -/
theorem nextChar_utf8Bytes {c : CodePoint} (hc : ¬ c.IsSurrogate) {first : UInt8}
    {tail rest : List UInt8} (h : first :: tail = c.utf8Bytes ++ rest) :
    nextChar first tail = .complete c.utf8Bytes.length := by
  obtain ⟨first', tail', bits, minimum, hbytes, hlead, hminimum, hvalue⟩ := leadByte_utf8Bytes c
  rw [hbytes, List.cons_append] at h
  obtain ⟨rfl, rfl⟩ := List.cons.inj h
  have hlt := c.isLt
  unfold nextChar
  rw [hlead, hbytes]
  dsimp only
  rw [if_neg (by rw [List.length_append]; omega), Nat.add_sub_cancel, hvalue rest]
  dsimp only
  rw [if_neg, List.length_cons]
  rintro (hlow | hhigh | hsurrogate)
  · omega
  · omega
  · exact hc hsurrogate

/-- A part of a character is waited for. -/
theorem nextChar_take {c : CodePoint} {first : UInt8} {tail rest : List UInt8}
    (h : (first :: tail) ++ rest = c.utf8Bytes) (hne : rest ≠ []) :
    nextChar first tail = .incomplete := by
  obtain ⟨first', tail', bits, minimum, hbytes, hlead, -, -⟩ := leadByte_utf8Bytes c
  rw [hbytes, List.cons_append] at h
  obtain ⟨rfl, rfl⟩ := List.cons.inj h
  have hpos := List.length_pos_iff.mpr hne
  unfold nextChar
  rw [hlead]
  dsimp only
  rw [if_pos (by rw [List.length_append]; omega)]

theorem utf8Bytes_ne_nil (c : CodePoint) : c.utf8Bytes ≠ [] :=
  List.length_pos_iff.mp (c.length_utf8Bytes ▸ c.utf8Size_pos)

/-- What follows well-formed bytes within well-formed bytes is well-formed. -/
theorem WellFormed.of_append {bytes rest : List UInt8} (h : WellFormed bytes)
    (hall : WellFormed (bytes ++ rest)) : WellFormed rest := by
  obtain ⟨text, htext, rfl⟩ := h
  induction text with
  | nil => exact hall
  | cons c text ih =>
    refine ih (fun d hd => htext d (List.mem_cons_of_mem _ hd)) ?_
    have hc := htext c List.mem_cons_self
    rw [List.flatMap_cons, List.append_assoc] at hall
    rcases hall.cases with hnil | ⟨d, rest', hd, hrest', heq⟩
    · exact absurd (List.append_eq_nil_iff.mp hnil).1 (utf8Bytes_ne_nil c)
    -- both characters are what the loop finds at the first byte
    obtain ⟨first, tail, hcons⟩ := List.exists_cons_of_ne_nil
      (List.append_ne_nil_of_left_ne_nil (utf8Bytes_ne_nil c)
        (text.flatMap CodePoint.utf8Bytes ++ rest))
    have hfound := nextChar_utf8Bytes hc hcons.symm
    have hfound' := nextChar_utf8Bytes hd (hcons.symm.trans heq)
    have hlength := NextChar.complete.inj (hfound.symm.trans hfound')
    obtain ⟨-, hsame⟩ := List.append_inj heq hlength
    rw [hsame]
    exact hrest'

/-! ### The loop -/

/-- No complete character is at the head of the bytes. -/
def Waiting : List UInt8 → Prop
  | [] => True
  | first :: tail => nextChar first tail = .incomplete

theorem Waiting.nil_of_wellFormed {bytes : List UInt8} (h : Waiting bytes)
    (hformed : WellFormed bytes) : bytes = [] := by
  rcases hformed.cases with hnil | ⟨c, rest, hc, -, heq⟩
  · exact hnil
  · cases bytes with
    | nil => rfl
    | cons first tail =>
      have hfound := nextChar_utf8Bytes hc heq
      rw [show nextChar first tail = .incomplete from h] at hfound
      cases hfound

/-- The loop stops at bytes that are no character yet. -/
theorem splitChars_waiting {fuel : ℕ} {bytes completed rest : List UInt8}
    (hfuel : bytes.length ≤ fuel) (h : splitChars fuel bytes = some (completed, rest)) :
    Waiting rest := by
  induction fuel generalizing bytes completed rest with
  | zero =>
    obtain ⟨rfl, rfl⟩ := Prod.mk.inj (Option.some_inj.mp h)
    rw [List.length_eq_zero_iff.mp (Nat.le_zero.mp hfuel)]
    trivial
  | succ fuel ih =>
    cases bytes with
    | nil =>
      obtain ⟨rfl, rfl⟩ := Prod.mk.inj (Option.some_inj.mp h)
      trivial
    | cons first tail =>
      rw [splitChars] at h
      cases hnext : nextChar first tail with
      | invalid =>
        rw [hnext] at h
        cases h
      | incomplete =>
        rw [hnext] at h
        obtain ⟨rfl, rfl⟩ := Prod.mk.inj (Option.some_inj.mp h)
        exact hnext
      | complete width =>
        rw [hnext] at h
        obtain ⟨⟨completed', rest'⟩, hsplit, hsame⟩ := Option.map_eq_some_iff.mp h
        obtain ⟨rfl, rfl⟩ := Prod.mk.inj hsame
        obtain ⟨c, -, hchar⟩ := nextChar_complete hnext
        have hwidth : 0 < width := by
          by_contra hzero
          rw [Nat.eq_zero_of_not_pos hzero, List.take_zero] at hchar
          exact utf8Bytes_ne_nil c hchar.symm
        refine ih ?_ hsplit
        rw [List.length_drop]
        rw [List.length_cons] at hfuel ⊢
        omega

/-- The head of well-formed bytes is never refused. -/
theorem splitChars_isSome {fuel : ℕ} {bytes rest : List UInt8} (h : WellFormed (bytes ++ rest)) :
    (splitChars fuel bytes).isSome := by
  induction fuel generalizing bytes with
  | zero => rfl
  | succ fuel ih =>
    cases bytes with
    | nil => rfl
    | cons first tail =>
      rcases h.cases with hnil | ⟨c, later, hc, hlater, heq⟩
      · cases hnil
      have hwhole : ∀ after, first :: tail = c.utf8Bytes ++ after → later = after ++ rest →
          (splitChars (fuel + 1) (first :: tail)).isSome := by
        intro after hbytes hafter
        rw [splitChars, nextChar_utf8Bytes hc hbytes]
        dsimp only
        rw [Option.isSome_map, hbytes, List.drop_left]
        exact ih (hafter ▸ hlater)
      rcases List.append_eq_append_iff.mp heq with ⟨missing, hbytes, hrest⟩ | ⟨after, hbytes, hafter⟩
      · by_cases hmissing : missing = []
        · rw [hmissing] at hbytes hrest
          exact hwhole [] (by rw [List.append_nil, hbytes, List.append_nil]) hrest.symm
        · rw [splitChars, nextChar_take hbytes.symm hmissing]
          rfl
      · exact hwhole after hbytes hafter

/-! ### Any split -/

namespace Utf8Accumulator

/-- The accumulator after some calls of `append`, and what each of them reported. -/
def appends (u : Utf8Accumulator) : List (List UInt8) → Utf8Accumulator × List (Option (List UInt8))
  | [] => (u, [])
  | bytes :: parts =>
    ((appends (u.append bytes).1 parts).1,
      (u.append bytes).2 :: (appends (u.append bytes).1 parts).2)

/-- What was completed. -/
def completed (results : List (Option (List UInt8))) : List UInt8 := results.reduceOption.flatten

/-- **The invariant** of a valid accumulator: it waits for the rest of a character. -/
structure Holds (u : Utf8Accumulator) : Prop where
  valid : u.valid = true
  waiting : Waiting u.pending

theorem holds_empty : Holds empty := ⟨rfl, trivial⟩

/-- One call of `append`: refused for good, or more characters are completed. -/
theorem append_cases {u : Utf8Accumulator} (h : Holds u) (bytes : List UInt8) :
    ((u.append bytes).2 = none ∧ (u.append bytes).1.valid = false) ∨
    ∃ done, (u.append bytes).2 = some done ∧ Holds (u.append bytes).1 ∧ WellFormed done ∧
      u.pending ++ bytes = done ++ (u.append bytes).1.pending := by
  rcases hresult : u.append bytes with ⟨u', _ | done⟩
  · refine .inl ⟨rfl, ?_⟩
    unfold append at hresult
    rw [h.valid, if_neg (by simp)] at hresult
    dsimp only at hresult
    cases hsplit : splitChars (u.pending ++ bytes).length (u.pending ++ bytes) with
    | none =>
      rw [hsplit] at hresult
      rw [← (Prod.mk.inj hresult).1]
    | some split =>
      rw [hsplit] at hresult
      cases (Prod.mk.inj hresult).2
  · obtain ⟨hbytes, htext⟩ := append_spec hresult
    refine .inr ⟨done, rfl, ?_, htext, hbytes⟩
    unfold append at hresult
    rw [h.valid, if_neg (by simp)] at hresult
    dsimp only at hresult
    cases hsplit : splitChars (u.pending ++ bytes).length (u.pending ++ bytes) with
    | none =>
      rw [hsplit] at hresult
      cases (Prod.mk.inj hresult).2
    | some split =>
      rw [hsplit] at hresult
      rw [← (Prod.mk.inj hresult).1]
      exact ⟨rfl, splitChars_waiting le_rfl hsplit⟩

/-- Bytes that are continued to well-formed ones are not refused. -/
theorem append_isSome {u : Utf8Accumulator} (h : Holds u) {bytes rest : List UInt8}
    (hformed : WellFormed (u.pending ++ bytes ++ rest)) : (u.append bytes).2.isSome := by
  unfold append
  rw [h.valid, if_neg (by simp)]
  dsimp only
  have hsplit : (splitChars (u.pending ++ bytes).length (u.pending ++ bytes)).isSome :=
    splitChars_isSome hformed
  cases hresult : splitChars (u.pending ++ bytes).length (u.pending ++ bytes) with
  | none =>
    rw [hresult] at hsplit
    cases hsplit
  | some split => rfl

theorem append_invalid {u : Utf8Accumulator} (h : u.valid = false) (bytes : List UInt8) :
    u.append bytes = (u, none) := if_pos h

/-- An accumulator that is invalid stays so. -/
theorem appends_invalid {u : Utf8Accumulator} (h : u.valid = false) : ∀ parts : List (List UInt8),
    u.appends parts = (u, parts.map fun _ => none)
  | [] => rfl
  | bytes :: parts => by
    rw [appends, append_invalid h, appends_invalid h parts]
    rfl

/-- What was completed is well-formed. -/
theorem appends_wellFormed {u : Utf8Accumulator} (h : Holds u) : ∀ (parts : List (List UInt8))
    (done : List UInt8), some done ∈ (u.appends parts).2 → WellFormed done
  | [], _, hmem => absurd hmem List.not_mem_nil
  | bytes :: parts, done, hmem => by
    rcases append_cases h bytes with ⟨hnone, hinvalid⟩ | ⟨done', hsome, hholds, hformed, -⟩
    · rw [appends, hnone, appends_invalid hinvalid] at hmem
      simp at hmem
    · rw [appends, hsome] at hmem
      rcases List.mem_cons.mp hmem with heq | hmem
      · rw [Option.some_inj.mp heq]
        exact hformed
      · exact appends_wellFormed hholds parts done hmem

/-- Nothing is lost by calls that were all accepted. -/
theorem appends_bytes {u : Utf8Accumulator} (h : Holds u) : ∀ parts : List (List UInt8),
    (∀ r ∈ (u.appends parts).2, r.isSome) → Holds (u.appends parts).1 ∧
      WellFormed (completed (u.appends parts).2) ∧
      u.pending ++ parts.flatten = completed (u.appends parts).2 ++ (u.appends parts).1.pending
  | [], _ => ⟨h, wellFormed_nil, List.append_nil _⟩
  | bytes :: parts, hall => by
    rcases append_cases h bytes with ⟨hnone, -⟩ | ⟨done, hsome, hholds, hformed, hbytes⟩
    · have hfirst := hall _ List.mem_cons_self
      rw [hnone] at hfirst
      cases hfirst
    · obtain ⟨hlast, htext, hrest⟩ :=
        appends_bytes hholds parts fun r hr => hall r (List.mem_cons_of_mem _ hr)
      have hcompleted : completed (u.appends (bytes :: parts)).2 =
          done ++ completed ((u.append bytes).1.appends parts).2 := by
        rw [appends, hsome]
        rfl
      refine ⟨hlast, ?_, ?_⟩
      · rw [hcompleted]
        exact hformed.append htext
      · rw [hcompleted, List.flatten_cons, ← List.append_assoc, hbytes, List.append_assoc, hrest,
          List.append_assoc]
        rfl

/-- No part of well-formed bytes is refused. -/
theorem appends_isSome {u : Utf8Accumulator} (h : Holds u) : ∀ parts : List (List UInt8),
    WellFormed (u.pending ++ parts.flatten) → ∀ r ∈ (u.appends parts).2, r.isSome
  | [], _, _, hr => absurd hr List.not_mem_nil
  | bytes :: parts, hformed, r, hr => by
    rw [List.flatten_cons, ← List.append_assoc] at hformed
    have hsome := append_isSome h hformed
    rcases append_cases h bytes with ⟨hnone, -⟩ | ⟨done, -, hholds, hdone, hbytes⟩
    · rw [hnone] at hsome
      cases hsome
    rcases List.mem_cons.mp hr with rfl | hr
    · exact hsome
    · rw [hbytes, List.append_assoc] at hformed
      exact appends_isSome hholds parts (hdone.of_append hformed) r hr

/-- A refusal is for good. -/
theorem appends_none {u : Utf8Accumulator} (h : Holds u) : ∀ parts : List (List UInt8),
    none ∈ (u.appends parts).2 → (u.appends parts).1.valid = false
  | [], hmem => absurd hmem List.not_mem_nil
  | bytes :: parts, hmem => by
    rcases append_cases h bytes with ⟨-, hinvalid⟩ | ⟨done, hsome, hholds, -, -⟩
    · show ((u.append bytes).1.appends parts).1.valid = false
      rw [appends_invalid hinvalid]
      exact hinvalid
    · rw [appends, hsome] at hmem
      rcases List.mem_cons.mp hmem with heq | hmem
      · cases heq
      · exact appends_none hholds parts hmem

/-- **Every split is decided alike**: all its parts are accepted and the end too exactly
when the bytes are well-formed; then all of them were completed.  Whatever was completed is
well-formed, and after a refusal everything is refused. -/
theorem accumulates_exactly (parts : List (List UInt8)) :
    ((∀ r ∈ (empty.appends parts).2, r.isSome) ∧ (empty.appends parts).1.finish = true ↔
      WellFormed parts.flatten) ∧
    (WellFormed parts.flatten → completed (empty.appends parts).2 = parts.flatten) ∧
    (∀ done, some done ∈ (empty.appends parts).2 → WellFormed done) ∧
    (none ∈ (empty.appends parts).2 → (empty.appends parts).1.valid = false) ∧
    ((empty.appends parts).1.valid = false → ∀ later,
      ((empty.appends parts).1.appends later).1.valid = false ∧
      ∀ r ∈ ((empty.appends parts).1.appends later).2, r = none) := by
  have hbytes : ∀ hall : ∀ r ∈ (empty.appends parts).2, r.isSome,
      parts.flatten = completed (empty.appends parts).2 ++ (empty.appends parts).1.pending :=
    fun hall => (appends_bytes holds_empty parts hall).2.2
  -- the end of well-formed bytes leaves nothing to wait for
  have hrest : WellFormed parts.flatten → (∀ r ∈ (empty.appends parts).2, r.isSome) ∧
      (empty.appends parts).1.Holds ∧ (empty.appends parts).1.pending = [] := by
    intro hformed
    have hall := appends_isSome holds_empty parts hformed
    obtain ⟨hholds, hdone, -⟩ := appends_bytes holds_empty parts hall
    rw [hbytes hall] at hformed
    exact ⟨hall, hholds, hholds.waiting.nil_of_wellFormed (hdone.of_append hformed)⟩
  refine ⟨⟨?_, ?_⟩, ?_, appends_wellFormed holds_empty parts, appends_none holds_empty parts, ?_⟩
  · rintro ⟨hall, hfinish⟩
    obtain ⟨-, hdone, -⟩ := appends_bytes holds_empty parts hall
    have hnil := List.isEmpty_iff.mp (Bool.and_eq_true_iff.mp hfinish).2
    rw [hbytes hall, hnil, List.append_nil]
    exact hdone
  · intro hformed
    obtain ⟨hall, hholds, hnil⟩ := hrest hformed
    refine ⟨hall, ?_⟩
    rw [finish, hholds.valid, hnil]
    rfl
  · intro hformed
    obtain ⟨hall, -, hnil⟩ := hrest hformed
    rw [hbytes hall, hnil, List.append_nil]
  · intro hinvalid later
    rw [appends_invalid hinvalid]
    refine ⟨hinvalid, fun r hr => ?_⟩
    obtain ⟨bytes, -, rfl⟩ := List.mem_map.mp hr
    rfl

end Utf8Accumulator

end Native
