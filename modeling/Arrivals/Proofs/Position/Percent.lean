import Arrivals.Position
import Arrivals.Proofs.Number.Nearest

/-! How much of the way lies behind a vehicle. Main statement: once no time is left it is all of it, and
rounding makes no difference. -/

namespace Arrivals

namespace Binary

@[simp] theorem value_mul (a b : Binary) : (a.mul b).value = a.value * b.value := by
  rw [mul, value, value, value, zpow_add₀ two_ne_zero]
  push_cast
  ring

end Binary

/-- Nothing is rounded past a whole number. -/
theorem natCast_le_of_near {w m : Nat} {x : ℚ} (hm : |(m : ℚ) - x| ≤ 1 / 2) (hw : (w : ℚ) ≤ x) :
    w ≤ m := by
  have hlow := (abs_le.mp hm).1
  have hlt : (w : ℚ) < ((m + 1 : Nat) : ℚ) := by
    push_cast
    linarith
  have hlt' : w < m + 1 := by exact_mod_cast hlt
  omega

namespace Format

variable {f : Format} {num : Int} {den : Nat}

theorem mantissa_nearest_nonpos (h : num ≤ 0) : (f.nearest num den).mantissa ≤ 0 := by
  rw [nearest]
  dsimp only
  split
  · exact le_refl 0
  next hne =>
    have hneg : num < 0 := by
      rw [beq_iff_eq, Int.natAbs_eq_zero] at hne
      omega
    rw [if_pos hneg]
    dsimp only
    omega

theorem mantissa_nearest_nonneg (h : 0 ≤ num) : 0 ≤ (f.nearest num den).mantissa := by
  rw [nearest]
  dsimp only
  split
  · exact le_refl 0
  · rw [if_neg h.not_gt]
    dsimp only
    omega

/-- A positive number has a mantissa with all its digits, unless it is one of the least. -/
theorem exists_mantissa (hp : 0 < f.precision) (hn : 0 < num) (hd : 0 < den) :
    ∃ m : Nat, f.nearest num den = ⟨m, f.lastExponent num.natAbs den⟩ ∧
      (∀ w : Nat, (w : ℚ) * 2 ^ f.lastExponent num.natAbs den ≤ num / den → w ≤ m) ∧
      (f.least < f.lastExponent num.natAbs den → 2 ^ (f.precision - 1) ≤ m) := by
  have hcast : (num.natAbs : ℚ) = num := by
    rw [Nat.cast_natAbs, abs_of_pos hn]
  have hlead := two_pow_leadingExponent_le (Int.natAbs_pos.mpr hn.ne') hd
  set e := f.lastExponent num.natAbs den with he
  have hm := mantissa_error num.natAbs hd e
  set m := roundEven (num.natAbs <<< (-e).toNat) (den <<< e.toNat) with hmdef
  rw [hcast] at hm hlead
  have hwhole (w : Nat) (hw : (w : ℚ) * 2 ^ e ≤ num / den) : w ≤ m := by
    refine natCast_le_of_near hm ?_
    rw [zpow_neg, ← div_eq_mul_inv, le_div_iff₀ (by positivity)]
    exact hw
  refine ⟨m, ?_, hwhole, fun hleast => hwhole _ (le_trans (le_of_eq ?_) hlead)⟩
  · have hz : (num.natAbs == 0) = false := by simpa using hn.ne'
    simp only [nearest, hz, Bool.false_eq_true, if_false, if_neg hn.not_gt]
    rfl
  · have hlast : e = leadingExponent num.natAbs den - (f.precision - 1 : Nat) := by
      rw [he, lastExponent] at hleast ⊢
      omega
    push_cast
    rw [← zpow_natCast, ← zpow_add₀ two_ne_zero]
    congr 1
    omega

/-- A number of the format that is not above the exact quotient is not above the rounded one. -/
theorem le_value_nearest (hp : 0 < f.precision) (hd : 0 < den) {z : Nat} {j : Int} (hz : 0 < z)
    (hsmall : z < 2 ^ f.precision) (hj : f.least ≤ j) (h : (z : ℚ) * 2 ^ j ≤ num / den) :
    (z : ℚ) * 2 ^ j ≤ (f.nearest num den).value := by
  have hd' : (0 : ℚ) < den := by exact_mod_cast hd
  have hn : 0 < num := by
    have hpos : (0 : ℚ) < num / den := lt_of_lt_of_le (by positivity) h
    exact_mod_cast (div_pos_iff_of_pos_right hd').mp hpos
  obtain ⟨m, hnearest, hwhole, hfull⟩ := exists_mantissa (f := f) hp hn hd
  rw [hnearest, Binary.value]
  set e := f.lastExponent num.natAbs den
  dsimp only
  -- Either the number is a whole multiple of the last digit, or it is shorter than the mantissa.
  obtain hej | hej := le_or_gt e j
  · have hunit : (z : ℚ) * 2 ^ j = ((z * 2 ^ (j - e).toNat : Nat) : ℚ) * 2 ^ e := by
      push_cast
      rw [mul_assoc, ← zpow_natCast, ← zpow_add₀ two_ne_zero]
      congr 2
      omega
    rw [hunit] at h ⊢
    have hle := hwhole _ h
    gcongr
    exact_mod_cast hle
  · have hm : ((2 ^ (f.precision - 1) : Nat) : ℚ) ≤ m := by exact_mod_cast hfull (by omega)
    calc (z : ℚ) * 2 ^ j ≤ ((2 ^ f.precision : Nat) : ℚ) * 2 ^ j := by
          gcongr
      _ ≤ ((2 ^ (f.precision - 1) : Nat) : ℚ) * 2 ^ e := by
          push_cast
          rw [← zpow_natCast, ← zpow_natCast, ← zpow_add₀ two_ne_zero, ← zpow_add₀ two_ne_zero]
          exact zpow_le_zpow_right₀ one_le_two (by omega)
      _ ≤ ((m : Int) : ℚ) * 2 ^ e := by
          gcongr
          exact_mod_cast hm

/-- A whole number that is not above a number is not above it when it is rounded. -/
theorem natCast_le_value_round (hp : 0 < f.precision) (hf : f.least ≤ 0) {n : Nat} (hn : 0 < n)
    (hsmall : n < 2 ^ f.precision) {a : Binary} (h : (n : ℚ) ≤ a.value) :
    (n : ℚ) ≤ (f.round a).value := by
  have hexact : (n : ℚ) * 2 ^ (0 : Int) ≤ a.numerator / a.denominator := by
    rwa [zpow_zero, mul_one, ← a.value_eq_div]
  have hle := le_value_nearest hp a.denominator_pos hn hsmall hf hexact
  rwa [zpow_zero, mul_one] at hle

/-- What is rounded to a hundred from above has its digits. -/
theorem round_eq_hundred {a : Binary} (h : 100 ≤ a.value) (hle : (single.round a).value ≤ 100) :
    single.round a = ⟨13107200, -17⟩ := by
  have hge : (100 : ℚ) ≤ (single.round a).value :=
    natCast_le_value_round (n := 100) (by decide) (by decide) (by decide) (by decide) h
  have hd := a.denominator_pos
  have hd' : (0 : ℚ) < a.denominator := by exact_mod_cast hd
  rw [a.value_eq_div] at h
  have hn : 0 < a.numerator := by
    have hpos : (0 : ℚ) < a.numerator / a.denominator := lt_of_lt_of_le (by norm_num) h
    exact_mod_cast (div_pos_iff_of_pos_right hd').mp hpos
  set lead := leadingExponent a.numerator.natAbs a.denominator with hleaddef
  have hlead : 6 ≤ lead := by
    have hlt : ((a.numerator.natAbs : Nat) : ℚ) / a.denominator < 2 ^ (lead + 1) :=
      lt_two_pow_leadingExponent hd
    rw [Nat.cast_natAbs, abs_of_pos hn] at hlt
    have hpow : (2 : ℚ) ^ (6 : Int) < 2 ^ (lead + 1) :=
      lt_of_le_of_lt (by norm_num) (h.trans_lt hlt)
    have := (zpow_lt_zpow_iff_right₀ one_lt_two).mp hpow
    omega
  have hlast : single.lastExponent a.numerator.natAbs a.denominator = lead - 23 := by
    change max (-149) (lead - 23) = _
    omega
  obtain ⟨m, hround, -, hfull⟩ := exists_mantissa (f := single) (by decide) hn hd
  rw [hlast] at hround hfull
  change single.round a = _ at hround
  rw [hround, Binary.value] at hle hge
  dsimp only at hle hge
  -- The first digit of the mantissa stands for 64 at least, and for no more than 64.
  have hexponent : lead - 23 = -17 := by
    have hm : ((2 ^ 23 : Nat) : ℚ) ≤ ((m : Int) : ℚ) := by
      exact_mod_cast hfull (show (-149 : Int) < _ by omega)
    have hpow : (2 : ℚ) ^ (23 + (lead - 23)) < 2 ^ (7 : Int) := by
      rw [zpow_add₀ two_ne_zero]
      calc (2 : ℚ) ^ (23 : Int) * 2 ^ (lead - 23)
          = ((2 ^ 23 : Nat) : ℚ) * 2 ^ (lead - 23) := by norm_num
        _ ≤ ((m : Int) : ℚ) * 2 ^ (lead - 23) := by gcongr
        _ ≤ 100 := hle
        _ < 2 ^ (7 : Int) := by norm_num
    have := (zpow_lt_zpow_iff_right₀ one_lt_two).mp hpow
    omega
  rw [hexponent] at hround hle hge
  have hmantissa : ((m : Int) : ℚ) = 13107200 := by
    have hvalue := le_antisymm hle hge
    norm_num at hvalue ⊢
    linarith
  rw [hround, Binary.mk.injEq]
  exact ⟨by exact_mod_cast hmantissa, rfl⟩

theorem mantissa_quotient_nonpos {a b : Binary} (ha : a.mantissa ≤ 0) (hb : 0 ≤ b.mantissa) :
    (f.quotient a b).mantissa ≤ 0 := by
  have hnum : a.numerator * b.denominator ≤ 0 :=
    Int.mul_nonpos_of_nonpos_of_nonneg
      (Int.mul_nonpos_of_nonpos_of_nonneg ha (Int.natCast_nonneg _)) (Int.natCast_nonneg _)
  have hden : 0 ≤ b.numerator * a.denominator :=
    Int.mul_nonneg (Int.mul_nonneg hb (Int.natCast_nonneg _)) (Int.natCast_nonneg _)
  rw [quotient, if_neg hden.not_gt]
  exact mantissa_nearest_nonpos hnum

end Format

namespace Position

open Format

/-- Once no time is left, all of the way lies behind. -/
theorem percentOf_of_nonpos {remaining : Int} (h : remaining ≤ 0) (edge : Int) :
    percentOf remaining edge = .ofBinary (.ofInt 100) := by
  rw [percentOf]
  dsimp only
  split
  · rfl
  next hedge =>
    set left := single.quotient (single.nearest remaining 1) (single.nearest edge 1)
    have hleft : left.value ≤ 0 := by
      have hmantissa : left.mantissa ≤ 0 := mantissa_quotient_nonpos
        (mantissa_nearest_nonpos h) (mantissa_nearest_nonneg (Int.not_le.mp hedge).le)
      exact mul_nonpos_of_nonpos_of_nonneg (by exact_mod_cast hmantissa) (by positivity)
    set travelled := single.round (Binary.sub (.ofInt 1) left)
    have htravelled : ((1 : Nat) : ℚ) ≤ travelled.value := by
      refine natCast_le_value_round (by decide) (by decide) (by decide) (by decide) ?_
      rw [Binary.value_sub, Binary.value_ofInt]
      push_cast
      linarith
    have hproduct : 100 ≤ (travelled.mul (.ofInt greatestPercent)).value := by
      rw [Binary.value_mul, Binary.value_ofInt, greatestPercent]
      push_cast at htravelled ⊢
      linarith
    set percent := single.round (travelled.mul (.ofInt greatestPercent)) with hpercent
    have hfull : ((100 : Nat) : ℚ) ≤ percent.value :=
      natCast_le_value_round (by decide) (by decide) (by decide) (by decide) hproduct
    have hnonneg : ¬ percent.lt .zero = true := by
      rw [Binary.lt_iff, Binary.value_zero]
      push_cast at hfull
      linarith
    rw [if_neg hnonneg]
    split
    · rfl
    next hmost =>
      rw [Binary.lt_iff, Binary.value_ofInt, greatestPercent, not_lt] at hmost
      rw [hpercent, round_eq_hundred hproduct (by exact_mod_cast hmost)]
      decide +kernel

end Position

end Arrivals
