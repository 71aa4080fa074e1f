/-
The bytes of a text are those of no other.
-/
import LlamaRuntime.Python.Str
import LlamaRuntime.Text.PrefixCodes

open PrefixCodes

theorem cons_ofNat {a b : ℕ} {s t : List UInt8} (ha : a < 256) (hb : b < 256)
    (h : UInt8.ofNat a :: s = UInt8.ofNat b :: t) : a = b ∧ s = t := by
  obtain ⟨hhead, htail⟩ := List.cons.inj h
  have hnat := congrArg UInt8.toNat hhead
  rw [UInt8.toNat_ofNat', UInt8.toNat_ofNat'] at hnat
  exact ⟨by omega, htail⟩

/-- The first byte tells how many there are, and each has its part of the character. -/
theorem splitsOff_utf8Bytes : SplitsOff (fun _ => True) CodePoint.utf8Bytes := by
  intro c d s t _ _ h
  have hc := c.isLt
  have hd := d.isLt
  unfold CodePoint.utf8Bytes at h
  split_ifs at h
  all_goals
    simp only [List.cons_append, List.nil_append] at h
    obtain ⟨h₁, h⟩ := cons_ofNat (by omega) (by omega) h
  · exact ⟨Fin.ext h₁, h⟩
  -- characters of different widths differ in the first byte
  all_goals try omega
  all_goals obtain ⟨h₂, h⟩ := cons_ofNat (by omega) (by omega) h
  · exact ⟨Fin.ext (by omega), h⟩
  all_goals obtain ⟨h₃, h⟩ := cons_ofNat (by omega) (by omega) h
  · exact ⟨Fin.ext (by omega), h⟩
  obtain ⟨h₄, h⟩ := cons_ofNat (by omega) (by omega) h
  exact ⟨Fin.ext (by omega), h⟩

theorem flatMap_utf8Bytes_inj {text other : PyStr}
    (h : text.flatMap CodePoint.utf8Bytes = other.flatMap CodePoint.utf8Bytes) : text = other := by
  refine splitsOff_utf8Bytes.flatMap_inj ?_ (fun _ _ => trivial) (fun _ _ => trivial) h
  intro c _ hnil
  have hpos := c.utf8Size_pos
  rw [← CodePoint.length_utf8Bytes, hnil] at hpos
  exact absurd hpos (Nat.lt_irrefl 0)

theorem encodeUtf8_inj {text other : PyStr} {bytes : List UInt8} (h : encodeUtf8 text = some bytes)
    (hother : encodeUtf8 other = some bytes) : text = other := by
  obtain ⟨-, hbytes⟩ := encodeUtf8_eq_some.mp h
  obtain ⟨-, hbytes'⟩ := encodeUtf8_eq_some.mp hother
  exact flatMap_utf8Bytes_inj (hbytes.trans hbytes'.symm)
