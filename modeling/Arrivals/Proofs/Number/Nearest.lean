import Arrivals.Number.Binary
import Mathlib.Algebra.Order.Field.Power
import Mathlib.Algebra.Order.Round
import Mathlib.Data.Rat.Floor
import Mathlib.Tactic.Linarith
import Mathlib.Tactic.Positivity
import Mathlib.Tactic.Ring
import Mathlib.Tactic.FieldSimp
import Mathlib.Tactic.NormNum

/-! Rounding to a binary format against exact rational arithmetic. Main statements: a rounded number
is off by no more than half a unit in the last of its digits, and a number of the format is kept. -/

namespace Arrivals

/-- To the nearest integer, a half away from zero. -/
def roundHalfAway (q : ℚ) : Int := if q < 0 then -round (-q) else round q

theorem two_zpow_eq_div (e : Int) : (2 : ℚ) ^ e = (2 ^ e.toNat : ℚ) / 2 ^ (-e).toNat := by
  rw [eq_div_iff (by positivity), ← zpow_natCast, ← zpow_natCast, ← zpow_add₀ two_ne_zero]
  congr 1
  omega

namespace Binary

def value (a : Binary) : ℚ := a.mantissa * 2 ^ a.exponent

@[simp] theorem value_zero : zero.value = 0 := by simp [value, zero]

@[simp] theorem value_ofInt (n : Int) : (ofInt n).value = n := by simp [value, ofInt]

theorem denominator_pos (a : Binary) : 0 < a.denominator := by
  rw [denominator, Nat.one_shiftLeft]
  positivity

theorem value_eq_div (a : Binary) : a.value = a.numerator / a.denominator := by
  rw [value, numerator, denominator, Nat.one_shiftLeft, Nat.one_shiftLeft, two_zpow_eq_div]
  push_cast
  ring

theorem value_mantissaAt {a : Binary} {e : Int} (h : e ≤ a.exponent) :
    (a.mantissaAt e : ℚ) * 2 ^ e = a.value := by
  have hz : (2 : ℚ) ^ a.exponent = 2 ^ (a.exponent - e).toNat * 2 ^ e := by
    rw [← zpow_natCast, ← zpow_add₀ two_ne_zero]
    congr 1
    omega
  rw [mantissaAt, Nat.one_shiftLeft, value, hz]
  push_cast
  ring

@[simp] theorem value_sub (a b : Binary) : (a.sub b).value = a.value - b.value := by
  rw [← value_mantissaAt (min_le_left a.exponent b.exponent),
    ← value_mantissaAt (min_le_right a.exponent b.exponent), ← sub_mul, ← Int.cast_sub]
  rfl

theorem value_neg_iff (a : Binary) : a.value < 0 ↔ a.mantissa < 0 := by
  have hp : (0 : ℚ) < 2 ^ a.exponent := by positivity
  rw [value, mul_neg_iff]
  constructor
  · rintro (⟨_, h⟩ | ⟨h, _⟩)
    · exact absurd h hp.not_gt
    · exact_mod_cast h
  · intro h
    exact .inr ⟨by exact_mod_cast h, hp⟩

theorem lt_iff (a b : Binary) : a.lt b = true ↔ a.value < b.value := by
  rw [lt, decide_eq_true_iff, ← value_neg_iff, value_sub, sub_neg]

theorem roundAway_eq (a : Binary) : a.roundAway = roundHalfAway a.value := by
  have hd : (0 : ℚ) < a.denominator := by exact_mod_cast a.denominator_pos
  have hround : (((2 * a.numerator.natAbs + a.denominator) / (2 * a.denominator) : Nat) : Int) =
      round |a.value| := by
    have habs : |a.value| = (a.numerator.natAbs : ℚ) / a.denominator := by
      rw [value_eq_div, abs_div, abs_of_pos hd, Nat.cast_natAbs, Int.cast_abs]
    rw [round_eq, habs]
    have hhalf : (a.numerator.natAbs : ℚ) / a.denominator + 1 / 2 =
        ((2 * a.numerator.natAbs + a.denominator : Nat) : ℚ) / (2 * a.denominator : Nat) := by
      push_cast
      field_simp
    rw [hhalf, Rat.floor_natCast_div_natCast]
    rfl
  rw [roundAway, roundHalfAway]
  by_cases h : a.value < 0
  · rw [if_pos ((value_neg_iff a).mp h), if_pos h, hround, abs_of_neg h]
  · rw [if_neg (mt (value_neg_iff a).mpr h), if_neg h, hround, abs_of_nonneg (not_lt.mp h)]

end Binary

theorem roundEven_error (num : Nat) {den : Nat} (h : 0 < den) :
    |(roundEven num den : ℚ) - num / den| ≤ 1 / 2 := by
  have hd : (0 : ℚ) < den := by exact_mod_cast h
  have hdiv := Nat.div_add_mod num den
  have hmod := Nat.mod_lt num h
  -- The bound over the integers, where the choice at a half does not matter.
  have hlow : 2 * num ≤ 2 * (den * roundEven num den) + den := by
    unfold roundEven
    dsimp only
    split_ifs <;> first | omega | (rw [Nat.mul_add]; omega)
  have hhigh : 2 * (den * roundEven num den) ≤ 2 * num + den := by
    unfold roundEven
    dsimp only
    split_ifs <;> first | omega | (rw [Nat.mul_add]; omega)
  have hlow' : (2 * num : ℚ) ≤ 2 * (den * roundEven num den) + den := by exact_mod_cast hlow
  have hhigh' : (2 * (den * roundEven num den) : ℚ) ≤ 2 * num + den := by exact_mod_cast hhigh
  have hscale : ((roundEven num den : ℚ) - num / den) * den = den * roundEven num den - num := by
    field_simp
  rw [abs_le]
  constructor <;> nlinarith

theorem two_pow_leadingExponent_le {num den : Nat} (hn : 0 < num) (hd : 0 < den) :
    (2 : ℚ) ^ leadingExponent num den ≤ num / den := by
  have hd' : (0 : ℚ) < den := by exact_mod_cast hd
  rw [le_div_iff₀ hd', leadingExponent]
  split
  next h =>
    have hlow : ((2 ^ num.log2 : Nat) : ℚ) ≤ num := by
      exact_mod_cast Nat.log2_self_le hn.ne'
    have hhigh : (den : ℚ) ≤ ((2 ^ (den.log2 + 1) : Nat) : ℚ) := by
      exact_mod_cast Nat.lt_log2_self.le
    calc (2 : ℚ) ^ ((num.log2 : Int) - den.log2 - 1) * den
        ≤ 2 ^ ((num.log2 : Int) - den.log2 - 1) * ((2 ^ (den.log2 + 1) : Nat) : ℚ) := by gcongr
      _ = ((2 ^ num.log2 : Nat) : ℚ) := by
          push_cast
          rw [← zpow_natCast, ← zpow_natCast, ← zpow_add₀ two_ne_zero]
          congr 1
          push_cast
          ring
      _ ≤ num := hlow
  next h =>
    have hle : ((den <<< ((num.log2 : Int) - den.log2).toNat : Nat) : ℚ) ≤
        ((num <<< (-((num.log2 : Int) - den.log2)).toNat : Nat) : ℚ) := by
      exact_mod_cast not_lt.mp h
    rw [Nat.shiftLeft_eq, Nat.shiftLeft_eq] at hle
    push_cast at hle
    rw [two_zpow_eq_div, div_mul_eq_mul_div, div_le_iff₀ (by positivity), mul_comm]
    exact hle

theorem lt_two_pow_leadingExponent {num den : Nat} (hd : 0 < den) :
    (num : ℚ) / den < 2 ^ (leadingExponent num den + 1) := by
  have hd' : (0 : ℚ) < den := by exact_mod_cast hd
  rw [div_lt_iff₀ hd', leadingExponent]
  split
  next h =>
    have hlt : ((num <<< (-((num.log2 : Int) - den.log2)).toNat : Nat) : ℚ) <
        ((den <<< ((num.log2 : Int) - den.log2).toNat : Nat) : ℚ) := by
      exact_mod_cast h
    rw [Nat.shiftLeft_eq, Nat.shiftLeft_eq] at hlt
    push_cast at hlt
    rw [sub_add_cancel, two_zpow_eq_div, div_mul_eq_mul_div, lt_div_iff₀ (by positivity)]
    linarith
  next h =>
    have hhigh : (num : ℚ) < ((2 ^ (num.log2 + 1) : Nat) : ℚ) := by
      exact_mod_cast Nat.lt_log2_self
    have hlow : ((2 ^ den.log2 : Nat) : ℚ) ≤ den := by
      exact_mod_cast Nat.log2_self_le hd.ne'
    calc (num : ℚ) < ((2 ^ (num.log2 + 1) : Nat) : ℚ) := hhigh
      _ = 2 ^ ((num.log2 : Int) - den.log2 + 1) * ((2 ^ den.log2 : Nat) : ℚ) := by
          push_cast
          rw [← zpow_natCast, ← zpow_natCast, ← zpow_add₀ two_ne_zero]
          congr 1
          push_cast
          ring
      _ ≤ 2 ^ ((num.log2 : Int) - den.log2 + 1) * den := by gcongr

/-! What is made of a quotient depends on its value only. -/

theorem roundEven_mul (num den : Nat) {k : Nat} (hk : 0 < k) :
    roundEven (num * k) (den * k) = roundEven num den := by
  have hbelow : 2 * (num % den * k) < den * k ↔ 2 * (num % den) < den := by
    rw [← mul_assoc]
    exact Nat.mul_lt_mul_right hk
  have habove : den * k < 2 * (num % den * k) ↔ den < 2 * (num % den) := by
    rw [← mul_assoc]
    exact Nat.mul_lt_mul_right hk
  simp only [roundEven, Nat.mul_div_mul_right _ _ hk, Nat.mul_mod_mul_right, hbelow, habove]

theorem leadingExponent_mul {num den k : Nat} (hn : 0 < num) (hd : 0 < den) (hk : 0 < k) :
    leadingExponent (num * k) (den * k) = leadingExponent num den := by
  have hpos : (k : ℚ) ≠ 0 := by exact_mod_cast hk.ne'
  have hdk := Nat.mul_pos hd hk
  have hq : ((num * k : Nat) : ℚ) / ((den * k : Nat) : ℚ) = num / den := by
    push_cast
    exact mul_div_mul_right _ _ hpos
  have hlow : (2 : ℚ) ^ leadingExponent (num * k) (den * k) < 2 ^ (leadingExponent num den + 1) :=
    ((two_pow_leadingExponent_le (Nat.mul_pos hn hk) hdk).trans_eq hq).trans_lt
      (lt_two_pow_leadingExponent hd)
  have hhigh : (2 : ℚ) ^ leadingExponent num den < 2 ^ (leadingExponent (num * k) (den * k) + 1) :=
    ((two_pow_leadingExponent_le hn hd).trans_eq hq.symm).trans_lt (lt_two_pow_leadingExponent hdk)
  rw [zpow_lt_zpow_iff_right₀ one_lt_two] at hlow hhigh
  omega

namespace Format

variable {f : Format}

theorem nearest_mul (num : Int) {den k : Nat} (hd : 0 < den) (hk : 0 < k) :
    f.nearest (num * k) (den * k) = f.nearest num den := by
  by_cases hz : num = 0
  · subst hz
    simp [nearest]
  · have hn : 0 < num.natAbs := Int.natAbs_pos.mpr hz
    have hneg : num * k < 0 ↔ num < 0 := by
      rw [Int.mul_neg_iff]
      omega
    have hshift (x a : Nat) : (x * k) <<< a = x <<< a * k := by
      rw [Nat.shiftLeft_eq, Nat.shiftLeft_eq, Nat.mul_right_comm]
    simp only [nearest, Int.natAbs_mul, Int.natAbs_natCast, leadingExponent_mul hn hd hk, hshift,
      roundEven_mul _ _ hk, hneg]
    simp [hz, hk.ne']

theorem nearest_congr {num num' : Int} {den den' : Nat} (hd : 0 < den) (hd' : 0 < den')
    (h : (num : ℚ) / den = num' / den') : f.nearest num den = f.nearest num' den' := by
  have hcross : num * den' = num' * den := by
    rw [div_eq_div_iff (by exact_mod_cast hd.ne') (by exact_mod_cast hd'.ne')] at h
    exact_mod_cast h
  rw [← nearest_mul num hd hd', hcross, Nat.mul_comm, nearest_mul num' hd' hd]

def lastExponent (f : Format) (n den : Nat) : Int :=
  max f.least (leadingExponent n den - (f.precision - 1 : Nat))

theorem mantissa_error (n : Nat) {den : Nat} (hd : 0 < den) (e : Int) :
    |(roundEven (n <<< (-e).toNat) (den <<< e.toNat) : ℚ) - n / den * 2 ^ (-e)| ≤ 1 / 2 := by
  have hpos : 0 < den <<< e.toNat := by
    rw [Nat.shiftLeft_eq]
    positivity
  have hq : ((n <<< (-e).toNat : Nat) : ℚ) / ((den <<< e.toNat : Nat) : ℚ) = n / den * 2 ^ (-e) := by
    rw [Nat.shiftLeft_eq, Nat.shiftLeft_eq, two_zpow_eq_div, neg_neg]
    push_cast
    rw [mul_div_mul_comm]
  rw [← hq]
  exact roundEven_error _ hpos

theorem natAbs_div_eq (num : Int) (den : Nat) : (num.natAbs : ℚ) / den = |(num : ℚ) / den| := by
  rw [abs_div, Nat.abs_cast, Nat.cast_natAbs, Int.cast_abs]

theorem distance_nearest {num : Int} (h : num ≠ 0) (den : Nat) :
    let e := f.lastExponent num.natAbs den
    |(f.nearest num den).value - num / den| =
      |(roundEven (num.natAbs <<< (-e).toNat) (den <<< e.toNat) : ℚ) * 2 ^ e - num.natAbs / den| := by
  have hz : (num.natAbs == 0) = false := by simpa using h
  simp only [nearest, hz, Bool.false_eq_true, if_false, Binary.value]
  rcases lt_or_gt_of_ne h with hn | hn
  · have hq : (num : ℚ) = -(num.natAbs : ℚ) := by
      rw [Nat.cast_natAbs, abs_of_neg hn, Int.cast_neg, neg_neg]
    rw [if_pos hn, Int.cast_neg, Int.cast_natCast, hq, neg_mul, neg_div, neg_sub_neg, abs_sub_comm]
    rfl
  · have hq : (num : ℚ) = num.natAbs := by rw [Nat.cast_natAbs, abs_of_pos hn]
    rw [if_neg hn.not_gt, Int.cast_natCast, hq]
    rfl

/-- Half a unit in the last place, which for all but the least numbers is relative to the number. -/
theorem abs_nearest_sub_le (hp : 0 < f.precision) (num : Int) {den : Nat} (hd : 0 < den) :
    |(f.nearest num den).value - num / den| ≤
      max (|(num : ℚ) / den| * 2 ^ (-(f.precision : Int))) (2 ^ (f.least - 1)) := by
  by_cases h : num = 0
  · subst h
    have hz : (f.nearest 0 den).value = 0 := by simp [nearest]
    rw [hz, Int.cast_zero, zero_div, sub_zero, abs_zero]
    exact le_max_of_le_right (by positivity)
  · have hn : 0 < num.natAbs := Int.natAbs_pos.mpr h
    have hlead := two_pow_leadingExponent_le hn hd
    rw [distance_nearest h den, ← natAbs_div_eq]
    set e := f.lastExponent num.natAbs den with he
    set m := roundEven (num.natAbs <<< (-e).toNat) (den <<< e.toNat)
    have hm : |(m : ℚ) - num.natAbs / den * 2 ^ (-e)| ≤ 1 / 2 := mantissa_error _ hd e
    have hunit : |(m : ℚ) * 2 ^ e - num.natAbs / den| ≤ 2 ^ (e - 1) := by
      have hscale : (m : ℚ) * 2 ^ e - num.natAbs / den =
          (m - num.natAbs / den * 2 ^ (-e)) * 2 ^ e := by
        rw [sub_mul, mul_assoc, ← zpow_add₀ two_ne_zero, neg_add_cancel, zpow_zero, mul_one]
      rw [hscale, abs_mul, abs_of_pos (by positivity : (0 : ℚ) < 2 ^ e), zpow_sub_one₀ two_ne_zero,
        mul_comm]
      gcongr
      rwa [one_div] at hm
    refine hunit.trans ?_
    rcases max_choice f.least (leadingExponent num.natAbs den - (f.precision - 1 : Nat)) with hc | hc
    · rw [he, lastExponent, hc]
      exact le_max_right _ _
    · refine le_max_of_le_left ?_
      calc (2 : ℚ) ^ (e - 1)
          = 2 ^ leadingExponent num.natAbs den * 2 ^ (-(f.precision : Int)) := by
            rw [← zpow_add₀ two_ne_zero, he, lastExponent, hc]
            congr 1
            omega
        _ ≤ num.natAbs / den * 2 ^ (-(f.precision : Int)) := by gcongr

/-- A number with few enough digits is its own nearest. -/
theorem value_nearest_of_exact {num : Int} {den : Nat} (hd : 0 < den) {z j : Int}
    (hp : 0 < f.precision) (hq : (num : ℚ) / den = z * 2 ^ j) (hj : f.least ≤ j)
    (hsmall : |(num : ℚ) / den| < 2 ^ (j + f.precision)) :
    (f.nearest num den).value = num / den := by
  by_cases h : num = 0
  · subst h
    simp [nearest]
  · have hn : 0 < num.natAbs := Int.natAbs_pos.mpr h
    have hlead := two_pow_leadingExponent_le hn hd
    rw [← sub_eq_zero, ← abs_eq_zero, distance_nearest h den]
    set e := f.lastExponent num.natAbs den with he
    set m := roundEven (num.natAbs <<< (-e).toNat) (den <<< e.toNat)
    have hm : |(m : ℚ) - num.natAbs / den * 2 ^ (-e)| ≤ 1 / 2 := mantissa_error _ hd e
    rw [natAbs_div_eq] at hm hlead ⊢
    -- The last digit of the number is not below the last digit that is kept.
    have hej : e ≤ j := by
      have hlt : leadingExponent num.natAbs den < j + f.precision :=
        (zpow_lt_zpow_iff_right₀ one_lt_two).mp (hlead.trans_lt hsmall)
      rw [he, lastExponent]
      omega
    have hint : |(num : ℚ) / den| * 2 ^ (-e) = ((|z| * 2 ^ (j - e).toNat : Int) : ℚ) := by
      have hpow : (2 : ℚ) ^ (j - e).toNat = 2 ^ j * 2 ^ (-e) := by
        rw [← zpow_natCast, ← zpow_add₀ two_ne_zero]
        congr 1
        omega
      push_cast
      rw [hq, abs_mul, abs_of_pos (by positivity : (0 : ℚ) < 2 ^ j), hpow, mul_assoc]
    have hmz : (m : ℚ) = |(num : ℚ) / den| * 2 ^ (-e) := by
      rw [hint] at hm ⊢
      generalize |z| * 2 ^ (j - e).toNat = w at hm ⊢
      have hclose : |((m - w : Int) : ℚ)| < 1 := by
        push_cast
        linarith
      rw [← Int.cast_abs] at hclose
      have hzero : (m : Int) - w = 0 := Int.abs_lt_one_iff.mp (by exact_mod_cast hclose)
      exact_mod_cast sub_eq_zero.mp hzero
    rw [hmz, mul_assoc, ← zpow_add₀ two_ne_zero, neg_add_cancel, zpow_zero, mul_one, sub_self, abs_zero]

/-- The rounded quotient of two numbers is a rounded quotient of integers. -/
theorem exists_nearest_eq_quotient (f : Format) (a : Binary) {b : Binary} (hb : b.value ≠ 0) :
    ∃ (num : Int) (den : Nat), 0 < den ∧ f.quotient a b = f.nearest num den ∧
      (num : ℚ) / den = a.value / b.value := by
  have ha' : (a.denominator : ℚ) ≠ 0 := by exact_mod_cast a.denominator_pos.ne'
  have hb' : (b.denominator : ℚ) ≠ 0 := by exact_mod_cast b.denominator_pos.ne'
  have hn : (b.numerator : ℚ) ≠ 0 := by
    intro h
    rw [b.value_eq_div, h, zero_div] at hb
    exact hb rfl
  set num := a.numerator * b.denominator
  set den := b.numerator * a.denominator with hden
  have hval : (num : ℚ) / den = a.value / b.value := by
    rw [a.value_eq_div, b.value_eq_div]
    push_cast [num, den]
    field_simp
  have hzero : den ≠ 0 := by
    rw [← Int.cast_ne_zero (α := ℚ), hden]
    push_cast
    exact mul_ne_zero hn ha'
  refine ⟨if den < 0 then -num else num, den.natAbs, Int.natAbs_pos.mpr hzero, rfl, ?_⟩
  rw [← hval, Nat.cast_natAbs]
  split
  next h => rw [abs_of_neg h, Int.cast_neg, Int.cast_neg, neg_div_neg_eq]
  next h => rw [abs_of_nonneg (not_lt.mp h)]

theorem quotient_congr (f : Format) {a a' b : Binary} (hb : b.value ≠ 0) (h : a.value = a'.value) :
    f.quotient a b = f.quotient a' b := by
  obtain ⟨num, den, hd, he, hv⟩ := exists_nearest_eq_quotient f a hb
  obtain ⟨num', den', hd', he', hv'⟩ := exists_nearest_eq_quotient f a' hb
  rw [he, he', nearest_congr hd hd' (by rw [hv, hv', h])]

end Format

end Arrivals
