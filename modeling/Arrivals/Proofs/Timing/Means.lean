import Arrivals.Proofs.Number.Nearest
import Arrivals.Timing.Mean

/-! Means as doubles against exact means. Main statements: of plausible samples, fewer than a 32-bit
counter counts, the rounded mean is the exact mean rounded; whatever the samples are, a mean is off by
very little; and of up to four million durations it makes no difference whether their sum is exact or
doubles are added up one by one. -/

namespace Arrivals

theorem abs_sub_roundHalfAway (q : ℚ) : |q - roundHalfAway q| ≤ 1 / 2 := by
  rw [roundHalfAway]
  split
  next h =>
    have hr := abs_sub_round (-q)
    rwa [Int.cast_neg, sub_neg_eq_add, ← abs_neg, neg_add, ← sub_eq_add_neg]
  next h => exact abs_sub_round q

theorem roundHalfAway_eq {q : ℚ} {r : Int} (h : |q - r| < 1 / 2) : roundHalfAway q = r := by
  have hr := abs_sub_roundHalfAway q
  have hclose : |((roundHalfAway q - r : Int) : ℚ)| < 1 := by
    rw [abs_lt] at h
    rw [abs_le] at hr
    rw [Int.cast_sub, abs_lt]
    constructor <;> linarith
  rw [← Int.cast_abs] at hclose
  exact sub_eq_zero.mp (Int.abs_lt_one_iff.mp (by exact_mod_cast hclose))

theorem roundHalfAway_nonpos {q : ℚ} (h : q < 0) : roundHalfAway q ≤ 0 := by
  have hr : 0 ≤ round (-q) := by
    rw [round_eq]
    exact Int.floor_nonneg.mpr (by linarith)
  rw [roundHalfAway, if_pos h]
  omega

theorem roundHalfAway_nonneg {q : ℚ} (h : 0 ≤ q) : 0 ≤ roundHalfAway q := by
  rw [roundHalfAway, if_neg h.not_gt, round_eq]
  exact Int.floor_nonneg.mpr (by linarith)

theorem le_roundHalfAway {q : ℚ} {low : Int} (h : low - 1 / 2 < q) : low ≤ roundHalfAway q := by
  have hr := abs_sub_roundHalfAway q
  rw [abs_le] at hr
  have hlow : ((low - 1 : Int) : ℚ) < roundHalfAway q := by
    push_cast
    linarith
  exact Int.le_of_sub_one_lt (by exact_mod_cast hlow)

theorem roundHalfAway_le {q : ℚ} {high : Int} (h : q < high + 1 / 2) : roundHalfAway q ≤ high := by
  have hr := abs_sub_roundHalfAway q
  rw [abs_le] at hr
  have hhigh : (roundHalfAway q : ℚ) < (high + 1 : Int) := by
    push_cast
    linarith
  exact Int.le_of_lt_add_one (by exact_mod_cast hhigh)

/-- An exact quotient is never close to a half without being one, so a little error is harmless. -/
theorem roundHalfAway_of_near {t : Int} {n : Nat} {v : ℚ} (hn : 0 < n)
    (hv : |v - t / n| < 1 / (2 * n)) (hhalf : ∀ z : Int, (t : ℚ) / n = z * 2 ^ (-1 : Int) → v = t / n) :
    roundHalfAway v = roundHalfAway (t / n) := by
  have hpos : (0 : ℚ) < n := by exact_mod_cast hn
  set q : ℚ := t / n with hq
  set r := roundHalfAway q with hr
  have hqn : q * n = t := by rw [hq, div_mul_cancel₀ _ hpos.ne']
  have hle : |q - r| ≤ 1 / 2 := abs_sub_roundHalfAway q
  by_cases hz : ∃ z : Int, q = z * 2 ^ (-1 : Int)
  · obtain ⟨z, hz⟩ := hz
    rw [hhalf z hz]
  · have hscaled : |((2 * t - 2 * r * n : Int) : ℚ)| = 2 * n * |q - r| := by
      have hfactor : (2 * t - 2 * r * n : ℚ) = 2 * n * (q - r) := by
        rw [← hqn]
        ring
      push_cast
      rw [hfactor, abs_mul, abs_of_pos (by positivity : (0 : ℚ) < 2 * n)]
    have hint : |2 * t - 2 * r * n| < n := by
      refine lt_of_le_of_ne ?_ fun he => hz ?_
      · have : |((2 * t - 2 * r * n : Int) : ℚ)| ≤ n := by
          rw [hscaled]
          nlinarith
        exact_mod_cast this
      · rcases abs_eq (by positivity : (0 : Int) ≤ n) |>.mp he with he | he
        · refine ⟨2 * r + 1, ?_⟩
          have hc : (2 * t - 2 * r * n : ℚ) = n := by exact_mod_cast he
          rw [zpow_neg_one, hq, div_eq_iff hpos.ne']
          push_cast
          linarith
        · refine ⟨2 * r - 1, ?_⟩
          have hc : (2 * t - 2 * r * n : ℚ) = -n := by exact_mod_cast he
          rw [zpow_neg_one, hq, div_eq_iff hpos.ne']
          push_cast
          linarith
    have hbound : 2 * n * |q - r| ≤ n - 1 := by
      rw [← hscaled]
      have : |2 * t - 2 * r * n| ≤ n - 1 := by omega
      exact_mod_cast this
    refine roundHalfAway_eq ?_
    have hfar : |q - r| ≤ 1 / 2 - 1 / (2 * n) := by
      have : (1 : ℚ) / 2 - 1 / (2 * n) = (n - 1) / (2 * n) := by field_simp
      rw [this, le_div_iff₀ (by positivity)]
      linarith
    calc |v - r| = |(v - q) + (q - r)| := by rw [sub_add_sub_cancel]
      _ ≤ |v - q| + |q - r| := abs_add_le _ _
      _ < 1 / 2 := by linarith

/-- Away from the halves a little error does not change the rounded number. -/
theorem roundHalfAway_of_far {a b e : ℚ} (h : |b - a| ≤ e)
    (hfar : ∀ z : Int, e < |a - (z + 1 / 2)|) : roundHalfAway b = roundHalfAway a := by
  set r := roundHalfAway a
  have hle : |a - r| ≤ 1 / 2 := abs_sub_roundHalfAway a
  have habove := hfar r
  have hbelow := hfar (r - 1)
  rw [abs_le] at hle h
  refine roundHalfAway_eq (abs_lt.mpr ?_)
  rw [abs_of_nonpos (by linarith)] at habove
  rw [abs_of_nonneg (by push_cast; linarith)] at hbelow
  push_cast at hbelow
  constructor <;> linarith

/-- Numbers that are less than a whole one apart are rounded to the same integer or to neighbours. -/
theorem abs_roundHalfAway_sub_le {a b : ℚ} (h : |b - a| < 1) :
    |roundHalfAway b - roundHalfAway a| ≤ 1 := by
  have ha := abs_sub_roundHalfAway a
  have hb := abs_sub_roundHalfAway b
  have hclose : |((roundHalfAway b - roundHalfAway a : Int) : ℚ)| < 2 := by
    rw [abs_lt] at h
    rw [abs_le] at ha hb
    rw [Int.cast_sub, abs_lt]
    constructor <;> linarith
  rw [← Int.cast_abs] at hclose
  exact Int.le_of_lt_add_one (by exact_mod_cast hclose)

def average (samples : List Int) : ℚ := (samples.sum : ℚ) / samples.length

theorem length_mul_le_sum {samples : List Int} {low : Int} (h : ∀ x ∈ samples, low ≤ x) :
    samples.length * low ≤ samples.sum := by
  rw [← nsmul_eq_mul]
  exact List.card_nsmul_le_sum samples low h

theorem sum_le_length_mul {samples : List Int} {high : Int} (h : ∀ x ∈ samples, x ≤ high) :
    samples.sum ≤ samples.length * high := by
  rw [← nsmul_eq_mul]
  exact List.sum_le_card_nsmul samples high h

theorem average_nonneg {samples : List Int} (h : ∀ x ∈ samples, 0 ≤ x) : 0 ≤ average samples := by
  have ht := length_mul_le_sum h
  rw [mul_zero] at ht
  exact div_nonneg (by exact_mod_cast ht) (Nat.cast_nonneg _)

theorem average_bounds {samples : List Int} {low high : Int} (h : ∀ x ∈ samples, low ≤ x ∧ x ≤ high)
    (hne : 0 < samples.length) : low ≤ average samples ∧ average samples ≤ high := by
  have hpos : (0 : ℚ) < samples.length := by exact_mod_cast hne
  have hlow := length_mul_le_sum fun x hx => (h x hx).1
  have hhigh := sum_le_length_mul fun x hx => (h x hx).2
  rw [average, le_div_iff₀ hpos, div_le_iff₀ hpos, mul_comm, mul_comm (high : ℚ)]
  exact ⟨by exact_mod_cast hlow, by exact_mod_cast hhigh⟩

theorem abs_sum_le {samples : List Int} {b : Int} (h : ∀ x ∈ samples, |x| ≤ b) :
    |samples.sum| ≤ samples.length * b := by
  have hlow := length_mul_le_sum fun x hx => (abs_le.mp (h x hx)).1
  rw [mul_neg] at hlow
  exact abs_le.mpr ⟨hlow, sum_le_length_mul fun x hx => (abs_le.mp (h x hx)).2⟩

theorem abs_average_le {samples : List Int} {b : Int} (h : ∀ x ∈ samples, |x| ≤ b) (hb : 0 ≤ b) :
    |average samples| ≤ b := by
  have ht : |(samples.sum : ℚ)| ≤ b * samples.length := by
    rw [← Int.cast_abs, mul_comm]
    exact_mod_cast abs_sum_le h
  rw [average, abs_div, Nat.abs_cast]
  exact div_le_of_le_mul₀ (by positivity) (by exact_mod_cast hb) ht

namespace Format

theorem abs_double_sub_le {num : Int} {den : Nat} (hd : 0 < den) {b : ℚ} (hb : 1 ≤ b)
    (h : |(num : ℚ) / den| ≤ b) :
    |(double.nearest num den).value - num / den| ≤ b * 2 ^ (-53 : Int) := by
  refine (abs_nearest_sub_le (f := double) (by decide) num hd).trans (max_le ?_ ?_)
  · exact mul_le_mul_of_nonneg_right h (by positivity)
  · have hleast : (2 : ℚ) ^ (double.least - 1) ≤ 2 ^ (-53 : Int) :=
      zpow_le_zpow_right₀ one_le_two (by decide)
    have hp : (0 : ℚ) < 2 ^ (-53 : Int) := by positivity
    nlinarith

theorem abs_double_quotient_sub_le (a : Binary) {c : Binary} (hc : c.value ≠ 0) {b : ℚ} (hb : 1 ≤ b)
    (h : |a.value / c.value| ≤ b) :
    |(double.quotient a c).value - a.value / c.value| ≤ b * 2 ^ (-53 : Int) := by
  obtain ⟨num, den, hd, hq, hv⟩ := exists_nearest_eq_quotient double a hc
  rw [hq, ← hv]
  exact abs_double_sub_le hd hb (by rwa [hv])

theorem abs_double_round_sub_le (a : Binary) {b : ℚ} (hb : 1 ≤ b) (h : |a.value| ≤ b) :
    |(double.round a).value - a.value| ≤ b * 2 ^ (-53 : Int) := by
  rw [a.value_eq_div] at h ⊢
  exact abs_double_sub_le a.denominator_pos hb h

end Format

/-- A sum that a double holds is not rounded. -/
theorem value_sum {t : Int} (h : |t| < 2 ^ 53) : (Format.double.nearest t 1).value = t := by
  have hq : (t : ℚ) / (1 : Nat) = t * 2 ^ (0 : Int) := by simp
  have hsmall : |(t : ℚ)| < 2 ^ 53 := by exact_mod_cast h
  rw [Format.value_nearest_of_exact one_pos (by decide) hq (by decide), Nat.cast_one, div_one]
  simpa [Format.double] using hsmall

section Mean

variable {samples : List Int}

/-- The double mean of small samples rounds as the exact mean does. -/
theorem roundHalfAway_doubleMean (h : ∀ x ∈ samples, |x| ≤ 1024) (hne : 0 < samples.length)
    (hlen : samples.length < 2 ^ 32) :
    roundHalfAway (doubleMean samples.sum samples.length).value = roundHalfAway (average samples) := by
  have hpos : (0 : ℚ) < samples.length := by exact_mod_cast hne
  have hlen' : (samples.length : ℚ) < 2 ^ 32 := by exact_mod_cast hlen
  have hsum : (Format.double.nearest samples.sum 1).value = samples.sum := by
    refine value_sum ((abs_sum_le h).trans_lt ?_)
    have : (samples.length : Int) < 2 ^ 32 := by exact_mod_cast hlen
    linarith
  have hq : |average samples| ≤ 1024 := abs_average_le h (by decide)
  have hc : (Binary.ofInt samples.length).value ≠ 0 := by
    rw [Binary.value_ofInt]
    exact_mod_cast hne.ne'
  obtain ⟨num, den, hd, he, hv⟩ := Format.exists_nearest_eq_quotient Format.double
    (Format.double.nearest samples.sum 1) hc
  have hv' : (num : ℚ) / den = average samples := by
    rw [hv, hsum, Binary.value_ofInt, Int.cast_natCast, average]
  rw [doubleMean, he]
  refine roundHalfAway_of_near hne ?_ fun z hz => ?_
  · have herr := Format.abs_double_sub_le hd (by norm_num) (hv' ▸ hq)
    rw [hv'] at herr
    refine herr.trans_lt ?_
    rw [lt_div_iff₀ (by positivity)]
    norm_num
    linarith
  · rw [← average] at hz ⊢
    rw [← hv'] at hz hq ⊢
    refine Format.value_nearest_of_exact hd (by decide) hz (by decide) (hq.trans_lt ?_)
    norm_num [Format.double]

theorem abs_doubleMean_sub_le {b : Int} (h : ∀ x ∈ samples, |x| ≤ b) (hb : 1 ≤ b)
    (hne : 0 < samples.length) :
    |(doubleMean samples.sum samples.length).value - average samples| ≤ 3 * b * 2 ^ (-53 : Int) := by
  have hpos : (0 : ℚ) < samples.length := by exact_mod_cast hne
  have hb' : (1 : ℚ) ≤ b := by exact_mod_cast hb
  have hlen : (1 : ℚ) ≤ samples.length := by exact_mod_cast hne
  set sum := Format.double.nearest samples.sum 1
  set count := Binary.ofInt samples.length
  have hcount : count.value = samples.length := by simp [count]
  have hsum : |sum.value - samples.sum| ≤ samples.length * b * 2 ^ (-53 : Int) := by
    have ht : |(samples.sum : ℚ) / (1 : Nat)| ≤ samples.length * b := by
      rw [Nat.cast_one, div_one, ← Int.cast_abs]
      exact_mod_cast abs_sum_le h
    have herr := Format.abs_double_sub_le one_pos (by nlinarith) ht
    rwa [Nat.cast_one, div_one] at herr
  have hfirst : |sum.value / count.value - average samples| ≤ b * 2 ^ (-53 : Int) := by
    rw [hcount, average, ← sub_div, abs_div, abs_of_pos hpos, div_le_iff₀ hpos]
    linarith
  have hbound : |sum.value / count.value| ≤ 2 * b := by
    have ha : |average samples| ≤ b := abs_average_le h (by omega)
    rw [abs_le] at ha hfirst ⊢
    have htiny : (2 : ℚ) ^ (-53 : Int) ≤ 1 := by norm_num
    constructor <;> nlinarith
  have hsecond := Format.abs_double_quotient_sub_le sum (hcount ▸ hpos.ne') (by linarith) hbound
  calc |(Format.double.quotient sum count).value - average samples|
      ≤ |(Format.double.quotient sum count).value - sum.value / count.value| +
          |sum.value / count.value - average samples| := abs_sub_le _ _ _
    _ ≤ 2 * b * 2 ^ (-53 : Int) + b * 2 ^ (-53 : Int) := add_le_add hsecond hfirst
    _ = 3 * b * 2 ^ (-53 : Int) := by ring

end Mean

section AddUp

variable {durations : List Int32}

theorem total_eq (durations : List Int32) : total durations = (durations.map Int32.toInt).sum := by
  rw [total, List.sum_eq_foldl, List.foldl_map]

theorem abs_toInt_le (durations : List Int32) : ∀ x ∈ durations.map Int32.toInt, |x| ≤ 2 ^ 31 := by
  intro x hx
  obtain ⟨d, _, rfl⟩ := List.mem_map.mp hx
  have hlow := d.le_toInt
  have hhigh := d.toInt_lt
  rw [abs_le]
  omega

/-- A double and a duration, added as doubles. -/
def addDuration (sum : Binary) (d : Int32) : Binary :=
  Format.double.round (sum.sub (.ofInt (-d.toInt)))

def addUp (durations : List Int32) : Binary := durations.foldl addDuration .zero

theorem value_addDuration {sum : Binary} {m : Int} {d : Int32} (hsum : sum.value = m)
    (h : |m + d.toInt| < 2 ^ 53) : (addDuration sum d).value = (m + d.toInt : Int) := by
  have hexact : (sum.sub (.ofInt (-d.toInt))).value = (m + d.toInt : Int) := by
    rw [Binary.value_sub, hsum, Binary.value_ofInt, Int.cast_neg, sub_neg_eq_add, Int.cast_add]
  have hsmall : |((m + d.toInt : Int) : ℚ)| < 2 ^ 53 := by exact_mod_cast h
  rw [Binary.value_eq_div] at hexact
  rw [addDuration, Format.round, Format.value_nearest_of_exact (z := m + d.toInt) (j := 0)
    (Binary.denominator_pos _) (by decide) (by rw [hexact, zpow_zero, mul_one]) (by decide), hexact]
  rw [hexact]
  simpa [Format.double] using hsmall

theorem value_foldl_addDuration {sum : Binary} {m : Int} (hsum : sum.value = m)
    (h : |m| + durations.length * 2 ^ 31 < 2 ^ 53) :
    (durations.foldl addDuration sum).value = (m + (durations.map Int32.toInt).sum : Int) := by
  induction durations generalizing sum m with
  | nil => simpa using hsum
  | cons d rest ih =>
    have hlow := d.le_toInt
    have hhigh := d.toInt_lt
    have hstep : |m + d.toInt| ≤ |m| + 2 ^ 31 :=
      (abs_add_le _ _).trans (by rw [add_le_add_iff_left, abs_le]; omega)
    rw [List.length_cons, Nat.cast_succ] at h
    have hnext := value_addDuration hsum (d := d) (by omega)
    rw [List.foldl_cons, ih hnext (by omega), List.map_cons, List.sum_cons, add_assoc]

/-- So a mean may be taken of the exact sum. -/
theorem meanOf_eq_addUp (h : durations.length < 2 ^ 22) : meanOf durations =
    if durations.isEmpty then .zero
    else Format.double.quotient (addUp durations) (.ofInt durations.length) := by
  rw [meanOf]
  split
  next => rfl
  next hne =>
    have hsum : |(durations.map Int32.toInt).sum| < 2 ^ 53 := by
      have hbound := abs_sum_le (abs_toInt_le durations)
      rw [List.length_map] at hbound
      omega
    have hcount : (Binary.ofInt durations.length).value ≠ 0 := by
      rw [Binary.value_ofInt]
      simpa using hne
    refine Format.quotient_congr _ hcount ?_
    rw [total_eq, value_sum hsum, addUp,
      value_foldl_addDuration (m := 0) (by simp) (by rw [abs_zero]; omega), zero_add]

end AddUp

namespace Tally

variable {samples : List Int}

theorem foldl_push (t : Tally) (samples : List Int) : samples.foldl push t =
    ⟨t.sum + .ofInt samples.sum, t.count + .ofNat samples.length⟩ := by
  induction samples generalizing t with
  | nil => simp
  | cons x xs ih =>
    have hsum := Int64.add_assoc t.sum (.ofInt x) (.ofInt xs.sum)
    have hcount := UInt32.add_assoc t.count 1 (.ofNat xs.length)
    rw [List.foldl_cons, ih, push, hsum, hcount, List.sum_cons, List.length_cons, Nat.add_comm,
      Int64.ofInt_add, UInt32.ofNat_add, UInt32.ofNat_one]

theorem ofList_eq (samples : List Int) :
    ofList samples = ⟨.ofInt samples.sum, .ofNat samples.length⟩ := by
  simp [ofList, foldl_push, empty]

/-- A 32-bit counter is right up to its bound. -/
theorem toNat_count_ofList (h : samples.length < 2 ^ 32) :
    (ofList samples).count.toNat = samples.length := by
  rw [ofList_eq]
  exact UInt32.toNat_ofNat_of_lt' h

theorem mean_ofList (h : ∀ x ∈ samples, |x| ≤ 1024) (hlen : samples.length < 2 ^ 32) :
    (ofList samples).mean = doubleMean samples.sum samples.length := by
  have hsum := abs_le.mp (abs_sum_le h)
  have hfits : (Int64.ofInt samples.sum).toInt = samples.sum :=
    Int64.toInt_ofInt_of_le (by omega) (by omega)
  rw [mean, toNat_count_ofList hlen, ofList_eq, hfits]

theorem significantMean?_ofList (h : samples.length < 2 ^ 32) : (ofList samples).significantMean? =
    if samples.length < 2 then none else some (ofList samples).mean := by
  have hcount : leastCount ≤ (ofList samples).count ↔ ¬ samples.length < 2 := by
    rw [UInt32.le_iff_toNat_le, toNat_count_ofList h, not_lt]
    rfl
  rw [significantMean?, if_congr hcount rfl rfl, ite_not]

end Tally

theorem toInt_wholeSeconds (a : Binary) :
    a.wholeSeconds.toInt = max (-2147483648) (min 2147483647 (roundHalfAway a.value)) := by
  rw [Binary.wholeSeconds, Binary.roundAway_eq, Int32.toInt_ofInt_of_le]
  · exact le_max_left _ _
  · exact max_lt (by decide) ((min_le_left _ _).trans_lt (by decide))

theorem toInt_wholeSeconds_of_small {a : Binary} {q : ℚ} (h : roundHalfAway a.value = roundHalfAway q)
    (hq : |q| ≤ 1024) : a.wholeSeconds.toInt = roundHalfAway q := by
  have hr := abs_sub_roundHalfAway q
  rw [abs_le] at hq hr
  have hlow : -2147483648 ≤ roundHalfAway q := by
    have : ((-2147483648 : Int) : ℚ) ≤ roundHalfAway q := by
      push_cast
      linarith
    exact_mod_cast this
  have hhigh : roundHalfAway q ≤ 2147483647 := by
    have : (roundHalfAway q : ℚ) ≤ ((2147483647 : Int) : ℚ) := by
      push_cast
      linarith
    exact_mod_cast this
  rw [toInt_wholeSeconds, h, min_eq_right hhigh, max_eq_right hlow]

end Arrivals
