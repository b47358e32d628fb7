import Arrivals.Proofs.Dissemination.Agreement

/-! What a message says of an arrival as time goes by. Main statement: however late it is sent, it means the
same moments as the arrival to less than a second, and it holds until the arrival runs out, to less than two
seconds and never longer. -/

namespace Arrivals

/-- Less than a second apart. -/
def Instant.Near (t s : Instant) : Prop := (t.nanos - s.nanos).natAbs < 1000000000

instance (t s : Instant) : Decidable (t.Near s) := inferInstanceAs (Decidable (_ < _))

/-- So many seconds after an arrival was computed. -/
def Arrival.moment (a : Arrival) (seconds : Int) : Instant := a.computed.after (.ofSeconds seconds)

/-- The clock, and what is left of the estimate, can be counted in 64 bits. -/
structure Arrival.Countable (a : Arrival) (now : Instant) : Prop where
  clock : IsWord now.unixSeconds
  estimate : ∀ n ∈ (a.liveEstimate now).numbers, IsWord n

theorem Arrival.Countable.isWord_moment {a : Arrival} {now t : Instant} (h : a.Countable now)
    (ht : a.estimate = .timestamp t) : IsWord t.unixSeconds := by
  have hword := h.estimate t.unixSeconds
  rw [Arrival.liveEstimate, ht, Estimate.aged] at hword
  exact hword (List.mem_singleton_self _)

namespace Wire

/-- So many seconds after a message was made. -/
def VehicleEta.moment (m : VehicleEta) (seconds : Int) : Instant :=
  ⟨(m.computed.toInt + seconds) * 1000000000⟩

/-- The moment up to which a message holds. -/
def VehicleEta.expires (m : VehicleEta) : Instant := m.moment m.validity.toNat

variable {slot : Slot} {a : Arrival} {now : Instant} {units : DisplayUnit}

theorem unixSeconds_bounds (t : Instant) :
    t.unixSeconds * 1000000000 ≤ t.nanos ∧ t.nanos < (t.unixSeconds + 1) * 1000000000 := by
  have h : t.unixSeconds = t.nanos / 1000000000 := Int.fdiv_eq_ediv_of_nonneg _ (by decide)
  omega

theorem seconds_bounds {s : Span} (h : 0 ≤ s.nanos) :
    0 ≤ s.seconds ∧ s.seconds * 1000000000 ≤ s.nanos ∧ s.nanos < (s.seconds + 1) * 1000000000 := by
  have h : s.seconds = s.nanos / 1000000000 := Int.tdiv_eq_ediv_of_nonneg h
  omega

theorem toInt_computed (h : a.Countable now) :
    (etaPayload slot a now).computed.toInt = now.unixSeconds := h.clock.toInt_ofInt

theorem near_moment (h : a.Countable now) (hcomputed : a.computed ≤ now) (s : Int) :
    ((etaPayload slot a now).moment (s - a.elapsedSeconds now)).Near (a.moment s) := by
  have hclock := unixSeconds_bounds now
  have helapsed := seconds_bounds (s := now.since a.computed) (Int.sub_nonneg_of_le hcomputed)
  rw [Instant.Near, VehicleEta.moment, toInt_computed h, Arrival.moment, Arrival.elapsedSeconds]
  simp only [Instant.nanos_after, Instant.nanos_since, Span.ofSeconds] at helapsed ⊢
  omega

/-- The message runs out within the two seconds before the arrival does, unless it cannot say so long. -/
theorem expires_bounds (h : a.Countable now) (hlive : now < a.expires) :
    (etaPayload slot a now).expires ≤ a.expires ∧
      ((a.expires.since now).seconds ≤ 4294967295 →
        a.expires.nanos - (etaPayload slot a now).expires.nanos < 2000000000) := by
  have hclock := unixSeconds_bounds now
  have hleft := seconds_bounds (s := a.expires.since now) (Int.le_of_lt (Int.sub_pos_of_lt hlive))
  have hvalidity : (etaPayload slot a now).validity.toNat =
      min (a.expires.since now).seconds.toNat 4294967295 := toNat_clampedSeconds _
  rw [VehicleEta.expires, VehicleEta.moment, toInt_computed h, hvalidity, Instant.le_iff]
  simp only [Instant.nanos_since] at hleft ⊢
  omega

theorem count_le_count {lower upper : Int} (h : lower ≤ upper) : units.count lower ≤ units.count upper := by
  cases units with
  | seconds => exact h
  | minutes => exact Int.ediv_le_ediv (by decide) h

/-- While an arrival lives, what is sent of it means the same: it holds up to the moment at which the
arrival runs out or up to less than two seconds before; if seconds are sent, they are counted from the
message to the same moments as those of the estimate from the arrival, to less than a second; a moment that
is known is sent as its Unix second; and the ends of a range stay in their order, in either unit. -/
theorem etaPayload_keeps_meaning (slot : Slot) {a : Arrival} {now : Instant} (h : a.Countable now)
    (hcomputed : a.computed ≤ now) (hlive : now < a.expires) :
    let m := etaPayload slot a now
    (m.expires ≤ a.expires ∧ ((a.expires.since now).seconds ≤ 4294967295 →
      a.expires.nanos - m.expires.nanos < 2000000000)) ∧
    (m.Shows a.estimate ∧ m.CountsIn a.units) ∧
    (a.units = .seconds → (∀ t, a.estimate ≠ .timestamp t) →
      List.Forall₂ (fun n s => (m.moment n).Near (a.moment s)) m.numbers a.estimate.numbers) ∧
    (∀ t, a.estimate = .timestamp t → m.numbers = [t.unixSeconds]) ∧
    ∀ lower upper, a.estimate = .interval lower upper → lower ≤ upper →
      ∃ l u, m.numbers = [l, u] ∧ l ≤ u := by
  intro m
  refine ⟨expires_bounds h hlive, ⟨shows_etaPayload slot a now, countsIn_etaPayload slot a now⟩,
    fun hunits ht => ?_, fun t ht => numbers_etaPayload_timestamp ht (h.isWord_moment ht),
    fun lower upper he hle => ?_⟩
  · rw [numbers_etaPayload h.estimate ht, hunits, List.forall₂_map_left_iff]
    exact List.forall₂_same.mpr fun s _ => near_moment h hcomputed s
  · have ht (t : Instant) : a.estimate ≠ .timestamp t := by
      rw [he]
      exact nofun
    rw [numbers_etaPayload h.estimate ht, he]
    exact ⟨_, _, rfl, count_le_count (by omega)⟩

/-- A ferry that is to come a minute or two after 1.999 s. At 3 s a second has gone by and a little more. -/
def ferryArrival : Arrival :=
  ⟨"f", "ferry", "pier", "isle", .ofMillis 1999, .ofMillis 90500, 0, none, .interval 61 119, .seconds⟩

theorem etaPayload_keeps_meaning_ferry :
    let now := Instant.ofMillis 3000
    let m := etaPayload ⟨"pier", "isle", 1⟩ ferryArrival now
    (ferryArrival.Countable now ∧ ferryArrival.computed ≤ now ∧ now < ferryArrival.expires) ∧
      (m.computed = 3 ∧ m.validity = 89 ∧ m.numbers = [60, 118]) ∧
      m.expires ≤ .ofMillis 92499 ∧ (m.moment 60).Near (.ofMillis 62999) ∧
      (m.moment 118).Near (.ofMillis 120999) := by
  intro now m
  have hcount : ferryArrival.Countable now := ⟨by decide, by decide⟩
  obtain ⟨⟨hexpires, -⟩, -, hnear, -, -⟩ :=
    etaPayload_keeps_meaning ⟨"pier", "isle", 1⟩ hcount (by decide) (by decide)
  have hnumbers : m.numbers = [60, 118] := by decide
  have hmoments := hnear rfl nofun
  rw [hnumbers] at hmoments
  obtain _ | ⟨hlower, _ | ⟨hupper, -⟩⟩ := hmoments
  exact ⟨⟨hcount, by decide, by decide⟩, ⟨by decide, by decide, hnumbers⟩, hexpires, hlower, hupper⟩

end Wire

end Arrivals
