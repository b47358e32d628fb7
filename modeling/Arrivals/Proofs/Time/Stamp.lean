import Arrivals.Proofs.Numerals
import Arrivals.Proofs.Time.Calendar
import Arrivals.Time.Stamp

/-! Times read back from their text. Main statement: a time of the years 0 to 9999 is read from its text,
to the nanosecond and with its leap second. -/

namespace Arrivals

namespace Stamp

open Text

def year (t : Stamp) : Int := (Date.ofDays (t.second / 86400)).year

/-- A time of the years that are written with four digits. It is in a leap second only where a minute ends. -/
structure Common (t : Stamp) : Prop where
  year : 0 ≤ t.year ∧ t.year ≤ 9999
  nano : t.nano < 1000000000 ∨ t.nano < 2000000000 ∧ t.second % 60 = 59

/-- Every moment of these years is such a time, be it of whole milliseconds or not. -/
theorem common_ofInstant (t : Instant) (h : 0 ≤ (ofInstant t).year ∧ (ofInstant t).year ≤ 9999) :
    (ofInstant t).Common := by
  have hpart : t.nanos.fmod 1000000000 < 1000000000 := Int.fmod_lt_of_pos _ (by decide)
  have hlow : 0 ≤ t.nanos.fmod 1000000000 := Int.fmod_nonneg_of_pos _ (by decide)
  refine ⟨h, .inl ?_⟩
  change (t.nanos.fmod 1000000000).toNat < 1000000000
  omega

theorem isBlank_of_isDigit {c : Char} (h : isDigit c = true) : isBlank c = false := by
  have hrange : 48 ≤ c.toNat ∧ c.toNat ≤ 57 := by
    simpa [isDigit, Char.le_def, UInt32.le_iff_toNat_le] using h
  simp [isBlank, blankRanges]
  omega

theorem dropBlanks_cons {c : Char} (h : isBlank c = false) (rest : List Char) :
    dropBlanks (c :: rest) = c :: rest := by
  simp [dropBlanks, h]

/-- Where a numeral of a fixed width stands there is its first digit. -/
theorem exists_padded_append {width : Nat} (hwidth : 0 < width) (n : Nat) (rest : List Char) :
    ∃ c cs, padded width n ++ rest = c :: cs ∧ isDigit c = true := by
  obtain ⟨c, cs, hcs⟩ := List.exists_cons_of_length_pos (by rwa [padded_length width n])
  have hc : c ∈ padded width n := hcs ▸ List.mem_cons_self
  exact ⟨c, cs ++ rest, by rw [hcs, List.cons_append], isDigit_of_mem_padded hc⟩

theorem dropBlanks_padded {width : Nat} (hwidth : 0 < width) (n : Nat) (rest : List Char) :
    dropBlanks (padded width n ++ rest) = padded width n ++ rest := by
  obtain ⟨c, cs, hcs, hc⟩ := exists_padded_append hwidth n rest
  rw [hcs, dropBlanks_cons (isBlank_of_isDigit hc)]

theorem readYear_padded {n : Nat} (h : n < 10000) (rest : List Char) :
    readYear (padded 4 n ++ rest) = some ((n : Int), rest) := by
  have hread := readNumeral_padded (by decide : 0 < 4) h rest
  obtain ⟨c, cs, hcs, hc⟩ := exists_padded_append (by decide : 0 < 4) n rest
  rw [hcs] at hread ⊢
  rw [readYear]
  · rw [hread]
    rfl
  · rintro _ ⟨⟩
    exact absurd hc (by decide)
  · rintro _ ⟨⟩
    exact absurd hc (by decide)

theorem readFraction_padded {width n : Nat} (hwidth : 0 < width) (hmost : width ≤ 9) (h : n < 10 ^ width) :
    readFraction ('.' :: (padded width n ++ ['Z'])) = some (n * 10 ^ (9 - width), ['Z']) := by
  have hsplit : splitDigits 9 (padded width n ++ ['Z']) = (padded width n, ['Z']) := by
    refine splitDigits_digits (fun _ => isDigit_of_mem_padded) (.inr ⟨?_, ?_⟩)
    · rwa [padded_length]
    · simp [isDigit]
  have hzeros (k : Nat) : numeral (List.replicate k '0') = 0 := by
    induction k with
    | zero => rfl
    | succ k ih => exact ih
  have hvalue : numeral (padded width n ++ List.replicate (9 - (padded width n).length) '0') =
      n * 10 ^ (9 - width) := by
    rw [numeral_append, numeral_padded h, hzeros, List.length_replicate, padded_length, Nat.add_zero]
  obtain ⟨d, ds, hds⟩ := List.exists_cons_of_length_pos (by rwa [padded_length width n])
  rw [hds] at hsplit hvalue
  rw [readFraction, hds, hsplit]
  exact congrArg (fun m => some (m, ['Z'])) hvalue

theorem readFraction_fractionText {nano : Nat} (h : nano < 1000000000) :
    readFraction (fractionText nano ++ ['Z']) = some (nano, ['Z']) := by
  have hmilli : 1000000 * (nano / 1000000) + nano % 1000000 = nano := Nat.div_add_mod nano 1000000
  have hmicro : 1000 * (nano / 1000) + nano % 1000 = nano := Nat.div_add_mod nano 1000
  simp only [fractionText, beq_iff_eq]
  split
  next hzero => subst hzero; rfl
  split
  next hwhole =>
    have hread := readFraction_padded (by decide : 0 < 3) (by decide)
      (show nano / 1000000 < 10 ^ 3 by omega)
    have hvalue : nano / 1000000 * 10 ^ (9 - 3) = nano := by omega
    rwa [hvalue] at hread
  split
  next hwhole =>
    have hread := readFraction_padded (by decide : 0 < 6) (by decide)
      (show nano / 1000 < 10 ^ 6 by omega)
    have hvalue : nano / 1000 * 10 ^ (9 - 6) = nano := by omega
    rwa [hvalue] at hread
  next => simpa using readFraction_padded (by decide : 0 < 9) (by decide) h

theorem expect_dropBlanks {c : Char} (h : isBlank c = false) (rest : List Char) :
    expect c (dropBlanks (c :: rest)) = some rest := by
  rw [dropBlanks_cons h, expect, if_pos rfl]

theorem readNumeral_dropBlanks {n : Nat} (h : n < 100) (rest : List Char) :
    readNumeral 2 (dropBlanks (padded 2 n ++ rest)) = some (n, rest) := by
  rw [dropBlanks_padded (by decide), readNumeral_padded (by decide) h]

theorem bind_of_eq_some {α β : Type} {x : Option α} {a : α} {f : α → Option β} {y : Option β}
    (hx : x = some a) (hf : f a = y) : (x >>= f) = y := by
  rw [hx]
  exact hf

/-- The text of a date and a time of day, both by their parts. -/
theorem parse?_parts {year month day hour minute second nano : Nat} (hyear : year < 10000)
    (hmonth : month < 100) (hday : day < 100) (hhour : hour < 100) (hminute : minute < 100)
    (hsecond : second < 100) (hnano : nano < 1000000000) :
    parse? (padded 4 year ++ ['-'] ++ padded 2 month ++ ['-'] ++ padded 2 day ++ ['T'] ++
        padded 2 hour ++ [':'] ++ padded 2 minute ++ [':'] ++ padded 2 second ++
        fractionText nano ++ ['Z']) =
      ofFields? ⟨year, month, day⟩ hour minute second nano 0 := by
  simp only [List.append_assoc, List.cons_append, List.nil_append]
  have hdash (rest : List Char) := expect_dropBlanks (by decide : isBlank '-' = false) rest
  have hcolon (rest : List Char) := expect_dropBlanks (by decide : isBlank ':' = false) rest
  rw [parse?, dropBlanks_padded (by decide)]
  refine bind_of_eq_some (readYear_padded hyear _) ?_
  refine bind_of_eq_some (hdash _) ?_
  refine bind_of_eq_some (readNumeral_dropBlanks hmonth _) ?_
  refine bind_of_eq_some (hdash _) ?_
  refine bind_of_eq_some (readNumeral_dropBlanks hday _) ?_
  dsimp only
  rw [if_pos (by decide)]
  refine bind_of_eq_some rfl ?_
  refine bind_of_eq_some (readNumeral_dropBlanks hhour _) ?_
  refine bind_of_eq_some (hcolon _) ?_
  refine bind_of_eq_some (readNumeral_dropBlanks hminute _) ?_
  refine bind_of_eq_some (hcolon _) ?_
  refine bind_of_eq_some (readNumeral_dropBlanks hsecond _) ?_
  refine bind_of_eq_some (readFraction_fractionText hnano) ?_
  refine bind_of_eq_some (show readOffset ['Z'] = some (0, []) from rfl) ?_
  rfl

theorem ofFields?_eq_some {date : Date} {hour minute second : Nat} {utc : Int} (nano : Nat)
    (hvalid : date.valid = true) (hhour : hour < 24) (hminute : minute < 60) (hsecond : second < 60)
    (hyear : Date.leastYear ≤ (Date.ofDays (utc / 86400)).year ∧
      (Date.ofDays (utc / 86400)).year ≤ Date.greatestYear)
    (hutc : date.toDays * 86400 + ((hour * 3600 + minute * 60 + second : Nat) : Int) = utc) :
    ofFields? date hour minute second nano 0 = some ⟨utc, nano⟩ ∧
      (second = 59 → ofFields? date hour minute 60 nano 0 = some ⟨utc, nano + 1000000000⟩) := by
  have hle : second ≤ 60 := by omega
  have hne : (second == 60) = false := by simp; omega
  subst hutc
  constructor
  · simpa [ofFields?, hvalid, hhour, hminute, hle, hne] using hyear
  · rintro rfl
    simpa [ofFields?, hvalid, hhour, hminute] using hyear

/-- A time of the years 0 to 9999 is read from its text. -/
theorem parse?_render {t : Stamp} (h : t.Common) : parse? t.render = some t := by
  obtain ⟨⟨hlow, hhigh⟩, hnano⟩ := h
  rw [year] at hlow hhigh
  obtain ⟨date, hdate⟩ : ∃ date, date = Date.ofDays (t.second / 86400) := ⟨_, rfl⟩
  obtain ⟨ofDay, hofDay⟩ : ∃ ofDay, ofDay = (t.second % 86400).toNat := ⟨_, rfl⟩
  have hdays : date.toDays = t.second / 86400 := hdate ▸ Date.toDays_ofDays _
  have hvalid : date.valid = true := by
    rw [hdate]
    refine Date.valid_ofDays _ ?_ ?_
    · rw [Date.leastYear]
      omega
    · rw [Date.greatestYear]
      omega
  rw [← hdate] at hlow hhigh
  obtain ⟨hmonth, hday⟩ := Date.lt_of_valid hvalid
  have hyear : yearText date.year = padded 4 date.year.toNat := by simp [yearText, hlow, hhigh]
  have hcast : (date.year.toNat : Int) = date.year := by omega
  have hutc : date.toDays * 86400 +
      ((ofDay / 3600 * 3600 + ofDay / 60 % 60 * 60 + ofDay % 60 : Nat) : Int) = t.second := by omega
  have hfields (nano : Nat) := ofFields?_eq_some nano hvalid (by omega) (by omega) (by omega)
    (by rw [← hdate, Date.leastYear, Date.greatestYear]; omega) hutc
  have hshort : (if t.isLeap then t.nano - 1000000000 else t.nano) < 1000000000 := by
    simp only [isLeap, decide_eq_true_eq]
    split <;> omega
  simp only [render, ← hdate, ← hofDay, hyear]
  rw [parse?_parts (by omega) hmonth hday (by omega) (by omega) (by split <;> omega) hshort, hcast]
  cases hleap : t.isLeap with
  | false => exact (hfields t.nano).1
  | true =>
    have hmore : 1000000000 ≤ t.nano := by simpa [isLeap] using hleap
    have hlast : ofDay % 60 = 59 := by omega
    have hread := (hfields (t.nano - 1000000000)).2 hlast
    rw [Nat.sub_add_cancel hmore] at hread
    simpa [hlast] using hread

end Stamp

end Arrivals
