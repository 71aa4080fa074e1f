/-
What the redaction of a tool result leaves in it.

An occurrence of `SECRET_PATTERN` is a name, a gap with one separator, and a value, which
runs to the next space.  The name of one occurrence may be the value of another; the
substitution replaces the occurrences that begin inside no other replaced one.

* `secretAt` — the occurrence at a position: where its value begins and ends;
* `Parts` — the characters of an occurrence;
* `redact_eq` — the redacted text is the text with `secretSpans` replaced;
* `ValuesCovered` — no value of any occurrence is left;
* `redact_covers_iff` — this holds exactly where an occurrence whose name is the end of a
  replaced value has a value that is the name of another one.
-/
import LlamaRuntime.Agent.Normalization
import LlamaRuntime.Text.LeftmostScan
import Mathlib.Data.List.TakeWhile

namespace Agent

open LeftmostScan

/-! ### Occurrences -/

/-- `\s*[:=]\s*`: the text from the value on. -/
def valueFrom (text : PyStr) : Option PyStr :=
  match text.dropWhile isSpace with
  | c :: rest =>
    if c.val = 0x3A ∨ c.val = 0x3D then
      match rest.dropWhile isSpace with
      | [] => none
      | value => some value
    else none
  | [] => none

theorem matchValue_eq (text : PyStr) :
    matchValue text = (valueFrom text).map (List.dropWhile fun d => !isSpace d) := by
  unfold matchValue valueFrom
  cases text.dropWhile isSpace with
  | nil => rfl
  | cons c rest =>
    dsimp only
    by_cases hsep : c.val = 0x3A ∨ c.val = 0x3D
    · rw [if_pos hsep, if_pos hsep]
      cases rest.dropWhile isSpace with
      | nil => rfl
      | cons d value => rfl
    · rw [if_neg hsep, if_neg hsep]
      rfl

/-- The occurrence of the pattern at a position: where its value begins, and where it ends. -/
def secretAt (text : PyStr) (p : ℕ) : Option (ℕ × ℕ) :=
  (matchName (text.drop p)).bind fun (_, rest) => (valueFrom rest).map fun value =>
    (text.length - value.length, text.length - (value.dropWhile fun d => !isSpace d).length)

/-- Where the match at a position ends. -/
def secretEnd (text : PyStr) (p : ℕ) : Option ℕ := (secretAt text p).map Prod.snd

/-- What the match at a position is replaced by. -/
def secretReplacement (text : PyStr) (p : ℕ) : PyStr :=
  ((matchName (text.drop p)).elim [] Prod.fst) ++ py "=[REDACTED]"

/-- The intervals of the text that `sub` replaces. -/
def secretSpans (text : PyStr) : List (ℕ × ℕ) := scan (secretEnd text) text.length 0

theorem matchSecret_eq (text : PyStr) : matchSecret text =
    (matchName text).bind fun (name, rest) =>
      (valueFrom rest).map fun value => (name, value.dropWhile fun d => !isSpace d) := by
  unfold matchSecret
  congr 1
  funext ⟨name, rest⟩
  dsimp only
  rw [matchValue_eq, Option.map_map]
  rfl

/-- The pattern matches somewhere exactly where `matchSecret` says so. -/
theorem secretEnd_eq (text : PyStr) (p : ℕ) : secretEnd text p =
    (matchSecret (text.drop p)).map fun found => text.length - found.2.length := by
  rw [matchSecret_eq, secretEnd, secretAt]
  cases matchName (text.drop p) with
  | none => rfl
  | some found =>
    show Option.map _ (Option.map _ _) = Option.map _ (Option.map _ _)
    rw [Option.map_map, Option.map_map]
    rfl

/-! ### The characters of an occurrence -/

/-- A character that a name may hold: no space and no separator. -/
def IsNameChar (c : CodePoint) : Prop := isSpace c = false ∧ c.val ≠ 0x3A ∧ c.val ≠ 0x3D

/-- The parts of a text with an occurrence in it. -/
structure Parts (text : PyStr) (p v e : ℕ) (before name gap value after : PyStr) : Prop where
  text_eq : text = before ++ (name ++ (gap ++ (value ++ after)))
  start : p = before.length
  value_start : v = p + name.length + gap.length
  value_end : e = v + value.length
  name_ne : name ≠ []
  value_ne : value ≠ []
  name_chars : ∀ c ∈ name, IsNameChar c
  gap_chars : ∀ c ∈ gap, ¬ IsNameChar c
  value_chars : ∀ c ∈ value, isSpace c = false
  after_chars : ∀ c ∈ after.head?, isSpace c = true

/-- The letters of the pattern. -/
def isSmallLetter (c : CodePoint) : Bool := 0x61 ≤ c.val && c.val ≤ 0x7A

theorem isNameChar_of_matchesLetter {letter c : CodePoint} (hletter : isSmallLetter letter = true)
    (h : matchesLetter letter c = true) : IsNameChar c := by
  obtain ⟨hlow, hhigh⟩ : 0x61 ≤ letter.val ∧ letter.val ≤ 0x7A := by
    simpa [isSmallLetter] using hletter
  have hcases : c.val = letter.val ∨ c.val + 0x20 = letter.val ∨ c.val = 0x130 ∨ c.val = 0x131 ∨
      c.val = 0x212A ∨ c.val = 0x17F := by
    unfold matchesLetter at h
    simp only [Bool.or_eq_true, Bool.and_eq_true, decide_eq_true_iff, Fin.ext_iff] at h
    omega
  refine ⟨?_, by omega, by omega⟩
  unfold isSpace
  simp only [Bool.or_eq_false_iff, Bool.and_eq_false_iff, decide_eq_false_iff_not]
  omega

theorem matchWord_chars {word text matched rest : PyStr}
    (hword : word.all isSmallLetter = true)
    (h : matchWord word text = some (matched, rest)) :
    text = matched ++ rest ∧ matched.length = word.length ∧ ∀ c ∈ matched, IsNameChar c := by
  induction word generalizing text matched with
  | nil =>
    obtain ⟨rfl, rfl⟩ := Prod.mk.inj (Option.some_inj.mp h)
    exact ⟨rfl, rfl, by simp⟩
  | cons letter word ih =>
    cases text with
    | nil => cases h
    | cons c text =>
      rw [matchWord] at h
      split_ifs at h with hletter
      obtain ⟨⟨matched', rest'⟩, hmatch, hsame⟩ := Option.map_eq_some_iff.mp h
      obtain ⟨rfl, rfl⟩ := Prod.mk.inj hsame
      rw [List.all_cons, Bool.and_eq_true] at hword
      obtain ⟨rfl, hlength, hchars⟩ := ih hword.2 hmatch
      refine ⟨rfl, ?_, ?_⟩
      · rw [List.length_cons, List.length_cons, hlength]
      · intro d hd
        rcases List.mem_cons.mp hd with rfl | hd
        · exact isNameChar_of_matchesLetter hword.1 hletter
        · exact hchars d hd

/-- A word of the pattern. -/
theorem matchWord_name {word text matched rest : PyStr} (hne : word ≠ [])
    (hword : word.all isSmallLetter = true)
    (h : matchWord word text = some (matched, rest)) :
    text = matched ++ rest ∧ matched ≠ [] ∧ ∀ c ∈ matched, IsNameChar c := by
  obtain ⟨htext, hlength, hchars⟩ := matchWord_chars hword h
  refine ⟨htext, ?_, hchars⟩
  rintro rfl
  exact hne (List.length_eq_zero_iff.mp hlength.symm)

theorem matchApiKey_name {text matched rest : PyStr} (h : matchApiKey text = some (matched, rest)) :
    text = matched ++ rest ∧ matched ≠ [] ∧ ∀ c ∈ matched, IsNameChar c := by
  obtain ⟨⟨api, tail⟩, hapi, hkey⟩ := Option.bind_eq_some_iff.mp h
  obtain ⟨rfl, hne, hchars⟩ := matchWord_name (by decide) (by decide) hapi
  have hjoin : ∀ {middle key : PyStr}, (∀ c ∈ middle, IsNameChar c) →
      (∀ c ∈ key, IsNameChar c) → ∀ c ∈ api ++ (middle ++ key), IsNameChar c := by
    intro middle key hmiddle hkey c hc
    rw [List.mem_append, List.mem_append] at hc
    rcases hc with hc | hc | hc
    · exact hchars c hc
    · exact hmiddle c hc
    · exact hkey c hc
  have hne' : ∀ tail, api ++ tail ≠ [] := fun _ => List.append_ne_nil_of_left_ne_nil hne _
  cases tail with
  | nil => cases hkey
  | cons c tail =>
    dsimp only at hkey
    by_cases hdash : c.val = 0x5F ∨ c.val = 0x2D
    · rw [if_pos hdash] at hkey
      obtain ⟨⟨key, rest'⟩, hmatch, hsame⟩ := Option.map_eq_some_iff.mp hkey
      obtain ⟨rfl, rfl⟩ := Prod.mk.inj hsame
      obtain ⟨rfl, -, hkeyChars⟩ := matchWord_name (by decide) (by decide) hmatch
      have hdashName : IsNameChar c := by
        refine ⟨?_, by omega, by omega⟩
        unfold isSpace
        simp only [Bool.or_eq_false_iff, Bool.and_eq_false_iff, decide_eq_false_iff_not]
        omega
      refine ⟨by simp, hne' _, @hjoin [c] key ?_ hkeyChars⟩
      intro d hd
      rw [List.mem_singleton.mp hd]
      exact hdashName
    · rw [if_neg hdash] at hkey
      obtain ⟨⟨key, rest'⟩, hmatch, hsame⟩ := Option.map_eq_some_iff.mp hkey
      obtain ⟨rfl, rfl⟩ := Prod.mk.inj hsame
      obtain ⟨htail, -, hkeyChars⟩ := matchWord_name (by decide) (by decide) hmatch
      refine ⟨?_, hne' _, @hjoin [] key (by simp) hkeyChars⟩
      rw [htail, List.append_assoc]

theorem matchName_name {text matched rest : PyStr} (h : matchName text = some (matched, rest)) :
    text = matched ++ rest ∧ matched ≠ [] ∧ ∀ c ∈ matched, IsNameChar c := by
  unfold matchName at h
  rcases Option.or_eq_some_iff.mp h with h | ⟨-, h⟩
  · exact matchApiKey_name h
  rcases Option.or_eq_some_iff.mp h with h | ⟨-, h⟩
  · exact matchWord_name (by decide) (by decide) h
  rcases Option.or_eq_some_iff.mp h with h | ⟨-, h⟩
  · exact matchWord_name (by decide) (by decide) h
  · exact matchWord_name (by decide) (by decide) h

/-- The gap before a value, and its first character. -/
theorem valueFrom_gap {text value : PyStr} (h : valueFrom text = some value) :
    ∃ gap, text = gap ++ value ∧ (∀ c ∈ gap, ¬ IsNameChar c) ∧
      ∃ c ∈ value.head?, isSpace c = false := by
  have hspace : ∀ {c : CodePoint}, isSpace c = true → ¬ IsNameChar c := by
    intro c hc hname
    rw [hname.1] at hc
    cases hc
  have hspaces : ∀ (s : PyStr), ∀ c ∈ s.takeWhile isSpace, ¬ IsNameChar c :=
    fun s c hc => hspace (List.mem_takeWhile_imp hc)
  unfold valueFrom at h
  cases hfirst : text.dropWhile isSpace with
  | nil =>
    rw [hfirst] at h
    cases h
  | cons sep rest =>
    rw [hfirst] at h
    dsimp only at h
    split_ifs at h with hsep
    cases hsecond : rest.dropWhile isSpace with
    | nil =>
      rw [hsecond] at h
      cases h
    | cons c value' =>
      rw [hsecond] at h
      obtain rfl := Option.some_inj.mp h
      refine ⟨text.takeWhile isSpace ++ sep :: rest.takeWhile isSpace, ?_, ?_, c, rfl, ?_⟩
      · rw [List.append_assoc, List.cons_append, ← hsecond, List.takeWhile_append_dropWhile,
          ← hfirst, List.takeWhile_append_dropWhile]
      · intro d hd
        rcases List.mem_append.mp hd with hd | hd
        · exact hspaces text d hd
        rcases List.mem_cons.mp hd with rfl | hd
        · exact fun hname => hsep.elim hname.2.1 hname.2.2
        · exact hspaces rest d hd
      · have hhead := List.head?_dropWhile_not isSpace rest
        rw [hsecond] at hhead
        simpa using hhead

/-- An occurrence has a name, a gap and a value. -/
theorem secretAt_parts {text : PyStr} {p v e : ℕ} (h : secretAt text p = some (v, e)) :
    ∃ before name gap value after, Parts text p v e before name gap value after := by
  obtain ⟨⟨name, rest⟩, hname, hvalue⟩ := Option.bind_eq_some_iff.mp h
  obtain ⟨run, hrun, hsame⟩ := Option.map_eq_some_iff.mp hvalue
  obtain ⟨hv, he⟩ := Prod.mk.inj hsame
  obtain ⟨hdrop, hne, hchars⟩ := matchName_name hname
  obtain ⟨gap, rfl, hgap, c, hc, hspace⟩ := valueFrom_gap hrun
  have hp : p ≤ text.length := by
    by_contra hlong
    rw [List.drop_of_length_le (by omega)] at hdrop
    exact hne (List.append_eq_nil_iff.mp hdrop.symm).1
  have hsplit : run = run.takeWhile (fun d => !isSpace d) ++ run.dropWhile fun d => !isSpace d :=
    List.takeWhile_append_dropWhile.symm
  have htext : text = text.take p ++ (name ++ (gap ++ (run.takeWhile (fun d => !isSpace d) ++
      run.dropWhile fun d => !isSpace d))) := by
    rw [← hsplit, ← hdrop, List.take_append_drop]
  have hlength : text.length = p + (name.length + (gap.length + run.length)) := by
    have hlength := congrArg List.length hdrop
    rw [List.length_drop, List.length_append, List.length_append] at hlength
    omega
  have hrunLength := congrArg List.length hsplit
  rw [List.length_append] at hrunLength
  refine ⟨text.take p, name, gap, run.takeWhile (fun d => !isSpace d),
    run.dropWhile fun d => !isSpace d, htext, ?_, by omega, by omega, hne, ?_, hchars, hgap, ?_, ?_⟩
  · rw [List.length_take_of_le hp]
  · cases run with
    | nil => cases hc
    | cons d run =>
      obtain rfl := Option.some_inj.mp hc
      rw [List.takeWhile_cons, if_pos (by rw [hspace]; rfl)]
      exact List.cons_ne_nil _ _
  · intro d hd
    simpa using List.mem_takeWhile_imp hd
  · intro d hd
    have hhead := List.head?_dropWhile_not (fun d => !isSpace d) run
    rw [Option.mem_def.mp hd] at hhead
    simpa using hhead

theorem getElem?_between {text before middle after : PyStr}
    (h : text = before ++ (middle ++ after)) {i : ℕ} (hlow : before.length ≤ i)
    (hhigh : i < before.length + middle.length) : ∃ c ∈ middle, text[i]? = some c := by
  have hlt : i - before.length < middle.length := by omega
  refine ⟨middle[i - before.length], List.getElem_mem hlt, ?_⟩
  rw [h, List.getElem?_append_right hlow, List.getElem?_append_left hlt,
    List.getElem?_eq_getElem hlt]

namespace Parts

variable {text before name gap value after : PyStr} {p v e : ℕ}

theorem lt_value (h : Parts text p v e before name gap value after) : p < v := by
  have hpos := List.length_pos_iff.mpr h.name_ne
  have hv := h.value_start
  omega

theorem value_lt (h : Parts text p v e before name gap value after) : v < e := by
  have hpos := List.length_pos_iff.mpr h.value_ne
  have he := h.value_end
  omega

theorem end_le (h : Parts text p v e before name gap value after) : e ≤ text.length := by
  rw [h.text_eq, h.value_end, h.value_start, h.start]
  simp only [List.length_append]
  omega

theorem name_at (h : Parts text p v e before name gap value after) {i : ℕ} (hlow : p ≤ i)
    (hhigh : i < p + name.length) : ∃ c, text[i]? = some c ∧ IsNameChar c := by
  rw [h.start] at hlow hhigh
  obtain ⟨c, hc, hi⟩ := getElem?_between h.text_eq hlow hhigh
  exact ⟨c, hi, h.name_chars c hc⟩

theorem gap_at (h : Parts text p v e before name gap value after) {i : ℕ}
    (hlow : p + name.length ≤ i) (hhigh : i < v) : ∃ c, text[i]? = some c ∧ ¬ IsNameChar c := by
  have htext : text = (before ++ name) ++ (gap ++ (value ++ after)) := by
    rw [h.text_eq, List.append_assoc]
  rw [h.value_start] at hhigh
  rw [h.start, ← List.length_append] at hlow hhigh
  obtain ⟨c, hc, hi⟩ := getElem?_between htext hlow hhigh
  exact ⟨c, hi, h.gap_chars c hc⟩

theorem value_at (h : Parts text p v e before name gap value after) {i : ℕ} (hlow : v ≤ i)
    (hhigh : i < e) : ∃ c, text[i]? = some c ∧ isSpace c = false := by
  have htext : text = (before ++ name ++ gap) ++ (value ++ after) := by
    rw [h.text_eq, List.append_assoc, List.append_assoc]
  rw [h.value_end] at hhigh
  rw [h.value_start, h.start, ← List.length_append, ← List.length_append] at hlow hhigh
  obtain ⟨c, hc, hi⟩ := getElem?_between htext hlow hhigh
  exact ⟨c, hi, h.value_chars c hc⟩

theorem end_at (h : Parts text p v e before name gap value after) {c : CodePoint}
    (hc : text[e]? = some c) : isSpace c = true := by
  have htext : text = (before ++ name ++ gap ++ value) ++ after := by
    rw [h.text_eq]
    simp only [List.append_assoc]
  have he : e = (before ++ name ++ gap ++ value).length := by
    rw [h.value_end, h.value_start, h.start]
    simp only [List.length_append]
  rw [htext, he, List.getElem?_append_right le_rfl, Nat.sub_self, ← List.head?_eq_getElem?] at hc
  exact h.after_chars c hc

end Parts

section occurrences

variable {text : PyStr} {p v e q w f : ℕ}

theorem secretAt_bounds (h : secretAt text p = some (v, e)) :
    p < v ∧ v < e ∧ e ≤ text.length := by
  obtain ⟨before, name, gap, value, after, hparts⟩ := secretAt_parts h
  exact ⟨hparts.lt_value, hparts.value_lt, hparts.end_le⟩

/-- No occurrence ends within a value. -/
theorem end_le_end (hp : secretAt text p = some (v, e)) (hq : secretAt text q = some (w, f))
    (hlt : v < f) : e ≤ f := by
  obtain ⟨_, _, _, _, _, hparts⟩ := secretAt_parts hp
  obtain ⟨_, _, _, _, _, hparts'⟩ := secretAt_parts hq
  by_contra hmore
  obtain ⟨c, hc, hvalue⟩ := hparts.value_at hlt.le (not_le.mp hmore)
  rw [hparts'.end_at hc] at hvalue
  cases hvalue

/-- No occurrence begins between the end of one and a value behind it whose name is in it. -/
theorem value_le_start (hp : secretAt text p = some (v, e)) (hq : secretAt text q = some (w, f))
    (hlt : p < f) {r x g : ℕ} (hr : secretAt text r = some (x, g)) (hfr : f ≤ r) : v ≤ r := by
  obtain ⟨_, name, _, _, _, hparts⟩ := secretAt_parts hp
  obtain ⟨_, _, _, _, _, hparts'⟩ := secretAt_parts hq
  obtain ⟨_, name', _, _, _, hparts''⟩ := secretAt_parts hr
  by_contra hbefore
  -- the name is followed by the gap, and a name begins there
  have hname : p + name.length ≤ f := by
    by_contra hinside
    obtain ⟨c, hc, hchar⟩ := hparts.name_at hlt.le (not_le.mp hinside)
    have hspace := hchar.1
    rw [hparts'.end_at hc] at hspace
    cases hspace
  obtain ⟨c, hc, hgap⟩ := hparts.gap_at (hname.trans hfr) (not_le.mp hbefore)
  have hpos := List.length_pos_iff.mpr hparts''.name_ne
  obtain ⟨c', hc', hchar⟩ := hparts''.name_at le_rfl (by omega)
  rw [hc] at hc'
  obtain rfl := Option.some_inj.mp hc'
  exact hgap hchar

end occurrences

/-! ### The substitution -/

theorem secretEnd_progresses (text : PyStr) : Progresses (secretEnd text) text.length := by
  intro p e h
  obtain ⟨⟨v, e'⟩, hat, rfl⟩ := Option.map_eq_some_iff.mp h
  have hbounds := secretAt_bounds hat
  exact ⟨hbounds.1.trans hbounds.2.1, hbounds.2.2⟩

theorem mem_secretSpans {text : PyStr} {p e : ℕ} :
    (p, e) ∈ secretSpans text ↔ Leading (secretEnd text) p ∧ secretEnd text p = some e := by
  unfold secretSpans
  rw [mem_scan (secretEnd_progresses text) le_rfl clear_zero]
  exact ⟨And.right, fun h => ⟨Nat.zero_le p, h⟩⟩

/-- What `matchSecret` found: the replacement, and the text behind the match. -/
theorem matchSecret_found {text name rest : PyStr} {p : ℕ}
    (h : matchSecret (text.drop p) = some (name, rest)) :
    secretReplacement text p = name ++ py "=[REDACTED]" ∧
      text.drop (text.length - rest.length) = rest := by
  rw [matchSecret_eq] at h
  obtain ⟨⟨name', tail⟩, hname, hvalue⟩ := Option.bind_eq_some_iff.mp h
  obtain ⟨value, hrun, hsame⟩ := Option.map_eq_some_iff.mp hvalue
  obtain ⟨rfl, rfl⟩ := Prod.mk.inj hsame
  constructor
  · rw [secretReplacement, hname]
    rfl
  · obtain ⟨hdrop, -, -⟩ := matchName_name hname
    obtain ⟨gap, rfl, -, -⟩ := valueFrom_gap hrun
    have hsuffix : value <:+ text :=
      ((List.suffix_append gap value).trans (List.suffix_append name' _)).trans
        (hdrop ▸ List.drop_suffix p text)
    exact (List.suffix_iff_eq_drop.mp ((List.dropWhile_suffix _).trans hsuffix)).symm

/-- The substitution goes over the text as the scanner does. -/
theorem redactFrom_eq (text : PyStr) {fuel p : ℕ} (hfuel : text.length ≤ fuel + p) :
    redactFrom fuel (text.drop p) =
      substitute text (secretReplacement text) p (scan (secretEnd text) fuel p) := by
  by_cases hp : text.length ≤ p
  · rw [scan_eq_nil (secretEnd_progresses text) hp, substitute, List.drop_of_length_le hp]
    cases fuel with
    | zero => rfl
    | succ fuel => rfl
  induction fuel generalizing p with
  | zero => omega
  | succ fuel ih =>
    have hnext : ∀ e, p < e → redactFrom fuel (text.drop e) =
        substitute text (secretReplacement text) e (scan (secretEnd text) fuel e) := by
      intro e hlt
      by_cases he : text.length ≤ e
      · rw [scan_eq_nil (secretEnd_progresses text) he, substitute, List.drop_of_length_le he]
        cases fuel with
        | zero => rfl
        | succ fuel => rfl
      · exact ih (by omega) he
    have hend := secretEnd_eq text p
    obtain ⟨c, rest, hdrop⟩ := List.exists_cons_of_ne_nil
      (fun hnil => hp (List.drop_eq_nil_iff.mp hnil))
    rw [scan, hdrop, redactFrom, ← hdrop]
    cases hmatch : matchSecret (text.drop p) with
    | none =>
      rw [hmatch] at hend
      rw [hend]
      dsimp only [Option.map_none]
      have hrest : text.drop (p + 1) = rest := by
        rw [← List.tail_drop, hdrop, List.tail_cons]
      rw [substitute_cons hdrop fun span hspan =>
        le_of_mem_scan (secretEnd_progresses text) hspan, ← hnext (p + 1) (Nat.lt_succ_self p),
        hrest]
    | some found =>
      obtain ⟨name, rest'⟩ := found
      obtain ⟨hreplacement, hbehind⟩ := matchSecret_found hmatch
      rw [hmatch] at hend
      rw [hend]
      dsimp only [Option.map_some]
      have hlt := (secretEnd_progresses text p _ hend).1
      rw [substitute, Nat.sub_self, List.take_zero, List.nil_append, hreplacement,
        ← hnext _ hlt, hbehind]

/-- The redacted text is the text with its spans replaced. -/
theorem redact_eq (text : PyStr) :
    redact text = substitute text (secretReplacement text) 0 (secretSpans text) :=
  @redactFrom_eq text text.length 0 le_rfl

/-! ### What is left -/

/-- The redacted text is the text with disjoint intervals replaced, and the value of every
occurrence, overlapping ones included, lies inside one of them. -/
structure RedactsAll (text : PyStr) : Prop where
  redact_eq : redact text = substitute text (secretReplacement text) 0 (secretSpans text)
  disjoint : (secretSpans text).Pairwise fun a b => a.2 ≤ b.1
  within : ∀ span ∈ secretSpans text, span.1 < span.2 ∧ span.2 ≤ text.length
  covered : ∀ p v e, secretAt text p = some (v, e) →
    ∃ span ∈ secretSpans text, span.1 ≤ v ∧ e ≤ span.2

/-- `secret: abc` leaves its value where its name is the value of a leading occurrence. -/
theorem redactsAll_fails : ¬ RedactsAll (py "token: secret: abc") := by
  intro h
  obtain ⟨span, hspan, hle⟩ := h.covered 7 15 18 (by decide +kernel)
  have hspans : secretSpans (py "token: secret: abc") = [(0, 14)] := by decide +kernel
  rw [hspans, List.mem_singleton] at hspan
  subst hspan
  omega

/-- Where the name of an occurrence is in the value of a leading one and its own value is
behind that, its value is the name of an occurrence too. -/
def ValuesNamed (text : PyStr) : Prop :=
  ∀ q f, Leading (secretEnd text) q → secretEnd text q = some f →
    ∀ p v e, secretAt text p = some (v, e) → q < p → p < f → f ≤ v → (secretAt text v).isSome

/-- **What the redaction leaves**: nothing exactly where a value that begins behind a
replaced interval is a name itself. -/
theorem redactsAll_iff (text : PyStr) : RedactsAll text ↔ ValuesNamed text := by
  have hspan : ∀ {q f : ℕ}, Leading (secretEnd text) q → secretEnd text q = some f →
      (q, f) ∈ secretSpans text := fun hleading hend => mem_secretSpans.mpr ⟨hleading, hend⟩
  have hend : ∀ {p v e : ℕ}, secretAt text p = some (v, e) → secretEnd text p = some e := by
    intro p v e hp
    rw [secretEnd, hp]
    rfl
  have hat : ∀ {q f : ℕ}, secretEnd text q = some f → ∃ w, secretAt text q = some (w, f) := by
    intro q f hq
    obtain ⟨⟨w, f'⟩, hw, rfl⟩ := Option.map_eq_some_iff.mp hq
    exact ⟨w, hw⟩
  constructor
  · intro h q f hleading hq p v e hp hqp hpf hfv
    obtain ⟨w, hw⟩ := hat hq
    obtain ⟨⟨r, g⟩, hmem, hrv, heg⟩ := h.covered p v e hp
    obtain ⟨hleading', hr⟩ := mem_secretSpans.mp hmem
    obtain ⟨x, hx⟩ := hat hr
    have hbounds := secretAt_bounds hp
    -- the interval that covers the value is another one, and begins behind the first
    have hfr : f ≤ r := by
      rcases Nat.lt_trichotomy q r with hlt | rfl | hgt
      · exact hleading'.le hleading hlt hq
      · rw [hq] at hr
        obtain rfl := Option.some_inj.mp hr
        dsimp only at heg
        omega
      · have hle := hleading.le hleading' hgt hr
        dsimp only at heg
        omega
    have hvr := value_le_start hp hw hpf hx hfr
    obtain rfl : v = r := le_antisymm hvr hrv
    rw [hx]
    rfl
  · intro hnamed
    refine ⟨redact_eq text, scan_pairwise (secretEnd_progresses text) _ _, ?_, ?_⟩
    · rintro ⟨q, f⟩ hmem
      exact secretEnd_progresses text q f (mem_secretSpans.mp hmem).2
    · intro p v e hp
      have hbounds := secretAt_bounds hp
      -- a position within the value that a leading occurrence reaches is enough
      have hcovers : ∀ q f, Leading (secretEnd text) q → secretEnd text q = some f → q ≤ v →
          v < f → ∃ span ∈ secretSpans text, span.1 ≤ v ∧ e ≤ span.2 := by
        intro q f hleading hq hqv hvf
        obtain ⟨w, hw⟩ := hat hq
        exact ⟨(q, f), hspan hleading hq, hqv, end_le_end hp hw hvf⟩
      have hcase : ∀ {p e : ℕ}, secretEnd text p = some e → Leading (secretEnd text) p ∨
          ∃ q f, q < p ∧ Leading (secretEnd text) q ∧ secretEnd text q = some f ∧ p < f := by
        intro p e hp
        by_contra hno
        rw [not_or] at hno
        refine hno.1 ?_
        rw [Leading]
        refine ⟨Option.isSome_of_eq_some hp, fun q hlt hleading f hq => ?_⟩
        by_contra hover
        exact hno.2 ⟨q, f, hlt, hleading, hq, not_le.mp hover⟩
      rcases hcase (hend hp) with hleading | ⟨q, f, hqp, hleading, hq, hpf⟩
      · exact hcovers p e hleading (hend hp) hbounds.1.le hbounds.2.1
      · rcases Nat.lt_or_ge v f with hvf | hfv
        · exact hcovers q f hleading hq (by omega) hvf
        · obtain ⟨⟨x, g⟩, hx⟩ := Option.isSome_iff_exists.mp
            (hnamed q f hleading hq p v e hp hqp hpf hfv)
          have hbounds' := secretAt_bounds hx
          rcases hcase (hend hx) with hleading' | ⟨r, k, hrv, hleading', hr, hvk⟩
          · exact hcovers v g hleading' (hend hx) le_rfl (by omega)
          · exact hcovers r k hleading' hr hrv.le hvk

end Agent
