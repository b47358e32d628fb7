import Arrivals.Text.Digits
import Mathlib.Algebra.Group.Nat.Defs
import Mathlib.Tactic.Ring

/-! Numerals read back: hexadecimal ones of a fixed width, and decimal ones. -/

namespace Arrivals

namespace Text

theorem paddedHex_length (width n : Nat) : (paddedHex width n).length = width := by
  induction width generalizing n with
  | zero => rfl
  | succ width ih => rw [paddedHex, List.length_append, ih, List.length_singleton]

theorem hexValue?_lowerHexDigit : ∀ d < 16, hexValue? (lowerHexDigit d) = some d := by decide

theorem paddedHex_inj {width n m : Nat} (hn : n < 16 ^ width) (hm : m < 16 ^ width)
    (h : paddedHex width n = paddedHex width m) : n = m := by
  induction width generalizing n m with
  | zero => omega
  | succ width ih =>
    rw [Nat.pow_succ] at hn hm
    obtain ⟨hfront, hlast⟩ := List.append_inj' h rfl
    have hdigit : n % 16 = m % 16 := by
      have hvalue := congrArg hexValue? (List.singleton_inj.mp hlast)
      rw [hexValue?_lowerHexDigit _ (by omega), hexValue?_lowerHexDigit _ (by omega)] at hvalue
      exact Option.some.inj hvalue
    have hrest := ih (by omega) (by omega) hfront
    omega

variable {c : Char} {n : Nat}

theorem isDigit_of_mem_decimal (h : c ∈ decimal n) : isDigit c = true := by
  have hdigit : c.isDigit = true := Nat.isDigit_of_mem_toDigits (by decide) (by decide) h
  exact hdigit

theorem decimal_ne_nil : decimal n ≠ [] := Nat.toDigits_ne_nil

theorem isDigit_digitChar : ∀ d < 10, isDigit (digitChar d) = true := by decide

theorem digitValue_digitChar : ∀ d < 10, digitValue (digitChar d) = d := by decide

theorem isDigit_of_mem_padded {width : Nat} (h : c ∈ padded width n) : isDigit c = true := by
  induction width generalizing n with
  | zero => cases h
  | succ width ih =>
    rw [padded, List.mem_append, List.mem_singleton] at h
    rcases h with h | rfl
    · exact ih h
    · exact isDigit_digitChar _ (Nat.mod_lt _ (by decide))

theorem numeral_append (ds es : List Char) :
    numeral (ds ++ es) = numeral ds * 10 ^ es.length + numeral es := by
  have hfold (k : Nat) : es.foldl (fun n c => 10 * n + digitValue c) k = k * 10 ^ es.length + numeral es := by
    rw [numeral]
    induction es generalizing k with
    | nil => simp
    | cons c es ih =>
      rw [List.foldl_cons, List.foldl_cons, ih, ih (10 * 0 + digitValue c), List.length_cons, Nat.pow_succ]
      ring
  rw [numeral, List.foldl_append, hfold]
  rfl

theorem numeral_padded {width : Nat} (h : n < 10 ^ width) : numeral (padded width n) = n := by
  induction width generalizing n with
  | zero =>
    have hn : n = 0 := by simpa using h
    rw [hn]
    rfl
  | succ width ih =>
    rw [Nat.pow_succ] at h
    have hlast : numeral [digitChar (n % 10)] = n % 10 := by
      simp [numeral, digitValue_digitChar _ (Nat.mod_lt n (by decide))]
    rw [padded, numeral_append, ih (by omega), hlast, List.length_singleton]
    omega

/-- As many digits as stand there, where a text goes on with something else or no more are wanted. -/
theorem splitDigits_digits {ds rest : List Char} {most : Nat} (hds : ∀ c ∈ ds, isDigit c = true)
    (h : ds.length = most ∨ ds.length ≤ most ∧ ∀ c ∈ rest.head?, isDigit c = false) :
    splitDigits most (ds ++ rest) = (ds, rest) := by
  induction ds generalizing most with
  | nil =>
    cases most with
    | zero => rfl
    | succ most =>
      cases rest with
      | nil => rfl
      | cons c rest =>
        have hc : isDigit c = false := by
          rcases h with h | h
          · cases h
          · exact h.2 c rfl
        simp [splitDigits, hc]
  | cons d ds ih =>
    cases most with
    | zero => simp at h
    | succ most =>
      have hd := hds d List.mem_cons_self
      have hrest : splitDigits most (ds ++ rest) = (ds, rest) :=
        ih (fun c hc => hds c (List.mem_cons_of_mem d hc)) (by simpa using h)
      simp [splitDigits, hd, hrest]

theorem readNumeral_padded {width : Nat} (hwidth : 0 < width) (h : n < 10 ^ width) (rest : List Char) :
    readNumeral width (padded width n ++ rest) = some (n, rest) := by
  have hsplit : splitDigits width (padded width n ++ rest) = (padded width n, rest) :=
    splitDigits_digits (fun _ => isDigit_of_mem_padded) (.inl (padded_length width n))
  have hvalue := numeral_padded h
  obtain ⟨d, ds, hds⟩ := List.exists_cons_of_length_pos (by rwa [padded_length width n])
  rw [hds] at hsplit hvalue
  rw [readNumeral, hds, hsplit]
  exact congrArg (fun m => some (m, rest)) hvalue

theorem head?_decimal_ne_zero (h : 0 < n) : (decimal n).head? ≠ some '0' := by
  induction n using Nat.base_induction 10 (by decide) with
  | single m hm =>
    rw [decimal, Nat.toDigits_of_lt_base hm, List.head?_cons, ne_eq, Option.some.injEq,
      Nat.digitChar_eq_zero]
    omega
  | digit m k hk hm ih =>
    obtain ⟨d, ds, hds⟩ := List.exists_cons_of_ne_nil (decimal_ne_nil (n := m))
    have hfront := ih hm
    rw [hds] at hfront
    rw [decimal, ← Nat.toDigits_append_toDigits (by decide) hm hk, ← decimal, hds]
    exact hfront

end Text

end Arrivals
