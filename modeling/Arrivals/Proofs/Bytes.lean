import Arrivals.Bytes
import Mathlib.Algebra.Group.Nat.Defs

/-! What texts and numbers look like as bytes, and what they read back as. -/

namespace Arrivals

namespace Bytes

/-- The first byte of a character is below 248, and those that follow are below 192. -/
theorem ne_of_mem_utf8EncodeChar {c : Char} {x : UInt8} (h : x ∈ String.utf8EncodeChar c) :
    x ≠ 0xff := by
  have hne (n : Nat) (hn : n < 255) : UInt8.ofNat n ≠ 0xff := by
    intro he
    have hnat := congrArg UInt8.toNat he
    rw [UInt8.toNat_ofNat_of_lt' (Nat.lt_trans hn (by decide))] at hnat
    exact absurd hnat (Nat.ne_of_lt hn)
  rw [String.utf8EncodeChar] at h
  split at h
  next hone =>
    rw [List.mem_singleton] at h
    exact h ▸ hne _ (by omega)
  next =>
    split at h
    next =>
      simp only [List.mem_cons, List.not_mem_nil, or_false] at h
      rcases h with rfl | rfl <;> exact hne _ (by omega)
    next =>
      split at h
      next =>
        simp only [List.mem_cons, List.not_mem_nil, or_false] at h
        rcases h with rfl | rfl | rfl <;> exact hne _ (by omega)
      next =>
        simp only [List.mem_cons, List.not_mem_nil, or_false] at h
        rcases h with rfl | rfl | rfl | rfl <;> exact hne _ (by omega)

theorem not_mem_ofString (s : String) : (0xff : UInt8) ∉ ofString s := by
  intro h
  obtain ⟨chars, hchars⟩ := s.isValidUTF8
  rw [ofString, hchars, List.utf8Encode, List.data_toByteArray, List.mem_flatMap] at h
  obtain ⟨c, -, hc⟩ := h
  exact ne_of_mem_utf8EncodeChar hc rfl

/-- Parts before the same mark are the same if it occurs in neither. -/
theorem eq_of_append_cons {x : UInt8} {l r b c : Bytes} (hl : x ∉ l) (hr : x ∉ r)
    (h : l ++ x :: b = r ++ x :: c) : l = r ∧ b = c := by
  induction l generalizing r with
  | nil =>
    cases r with
    | nil => exact ⟨rfl, (List.cons.inj h).2⟩
    | cons y r => exact absurd ((List.cons.inj h).1 ▸ List.mem_cons_self) hr
  | cons y l ih =>
    cases r with
    | nil => exact absurd ((List.cons.inj h).1 ▸ List.mem_cons_self) hl
    | cons z r =>
      obtain ⟨rfl, hrest⟩ := List.cons.inj h
      obtain ⟨rfl, hbc⟩ := ih (mt (List.mem_cons_of_mem _) hl) (mt (List.mem_cons_of_mem _) hr) hrest
      exact ⟨rfl, hbc⟩

theorem ofString_injective : Function.Injective ofString := fun s t h => by
  rw [← Option.some_inj, ← toString?_ofString, h, toString?_ofString]

theorem ofString_append (s t : String) : ofString (s ++ t) = ofString s ++ ofString t := by
  simp [ofString]

theorem length_ofString (s : String) : (ofString s).length = s.utf8ByteSize := by
  rw [ofString, Array.length_toList]
  rfl

/-- Where bytes from the front of a text are a text, the others are one too. -/
theorem exists_append_of_take {s t : String} {n : Nat} (hn : n ≤ (ofString s).length)
    (h : ofString t = (ofString s).take n) : ∃ u, s = t ++ u := by
  have hextract : s.toByteArray.extract 0 n = t.toByteArray := by
    apply ByteArray.ext
    rw [ByteArray.data_extract, ← Array.toList_inj, Array.toList_extract, List.extract_eq_take_drop]
    simpa [ofString] using h.symm
  have hvalid : String.Pos.Raw.IsValid s ⟨n⟩ := by
    rw [String.Pos.Raw.isValid_iff_isValidUTF8_extract_zero, hextract, String.Pos.Raw.le_iff]
    rw [length_ofString] at hn
    exact ⟨hn, t.isValidUTF8⟩
  obtain ⟨front, u, rfl, hfront⟩ := String.Pos.Raw.isValid_iff_exists_append.mp hvalid
  have hlength : (ofString front).length = n := by
    rw [length_ofString]
    exact (congrArg String.Pos.Raw.byteIdx hfront).symm
  rw [ofString_append, ← hlength, List.take_left] at h
  exact ⟨u, by rw [ofString_injective h]⟩

theorem ofLittleEndian_littleEndian (width n : Nat) :
    ofLittleEndian (littleEndian width n) = n % 256 ^ width := by
  induction width generalizing n with
  | zero => rw [Nat.pow_zero, Nat.mod_one]; rfl
  | succ width ih =>
    have hpow : 256 ^ (width + 1) = 256 * 256 ^ width := Nat.pow_succ'
    rw [littleEndian, ofLittleEndian, ih, UInt8.toNat_ofNat', hpow, Nat.mod_mul]

end Bytes

end Arrivals
