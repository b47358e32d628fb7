import Arrivals.Proofs.Wire.Ageing

/-! Bounds that are sent in minutes. Main statement: each is sent as the whole minute that it lies in. So a
lower bound says no more than the estimate; an upper bound falls short of it by less than a minute, unless
it is a whole one, and still allows the minute of each arrival that the estimate allows. -/

namespace Arrivals

/-- It allows an arrival so many seconds from now. A moment that is known is not counted from now. -/
def Estimate.Allows : Estimate → Int → Prop
  | .notAvailable, _ => True
  | .exact s, t => t = s
  | .interval lower upper, t => lower ≤ t ∧ t ≤ upper
  | .lessThan s, t => t ≤ s
  | .moreThan s, t => s ≤ t
  | .timestamp _, _ => True

namespace Wire

/-- It allows an arrival so many of its units from when it was made. -/
def VehicleEta.Allows (m : VehicleEta) (n : Int) : Prop :=
  match Kind.ofCode m.kind, m.numbers with
  | .exact, [s] => n = s
  | .interval, [lower, upper] => lower ≤ n ∧ n ≤ upper
  | .lessThan, [s] => n ≤ s
  | .moreThan, [s] => s ≤ n
  | _, _ => True

/-- The minute is the one that the seconds are in. -/
def MinuteOf (minute seconds : Int) : Prop := 60 * minute ≤ seconds ∧ seconds < 60 * (minute + 1)

variable {slot : Slot} {a : Arrival} {now : Instant} {s t lower upper : Int}

theorem minuteOf_count (s : Int) : MinuteOf (DisplayUnit.minutes.count s) s := by
  rw [MinuteOf, DisplayUnit.count]
  omega

/-- The minute that seconds are in begins before them, unless it begins with them. -/
theorem MinuteOf.le_iff {minute : Int} (h : MinuteOf minute s) : s ≤ 60 * minute ↔ 60 ∣ s := by
  obtain ⟨hle, hlt⟩ := h
  omega

theorem kind_of_liveEstimate :
    Kind.ofCode (etaPayload slot a now).kind = kindOf (a.liveEstimate now) := by
  rw [Kind.ofCode, etaPayload, Kind.ofCode?_code, Option.getD_some]

/-- What the estimate allows is allowed by the message, counted in its units. -/
theorem allows_etaPayload (hword : ∀ n ∈ (a.liveEstimate now).numbers, IsWord n)
    (h : (a.liveEstimate now).Allows t) : (etaPayload slot a now).Allows (a.units.count t) := by
  have hnumbers (ht : ∀ t, a.liveEstimate now ≠ .timestamp t) :
      (etaPayload slot a now).numbers = (a.liveEstimate now).numbers.map a.units.count :=
    numbers_of_liveEstimate hword ht
  rw [VehicleEta.Allows, kind_of_liveEstimate]
  cases hlive : a.liveEstimate now with
  | notAvailable => trivial
  | timestamp at_ => trivial
  | exact s =>
    rw [hlive] at h hnumbers
    rw [hnumbers nofun]
    exact congrArg a.units.count h
  | interval lower upper =>
    rw [hlive] at h hnumbers
    rw [hnumbers nofun]
    exact ⟨count_le_count h.1, count_le_count h.2⟩
  | lessThan s =>
    rw [hlive] at h hnumbers
    rw [hnumbers nofun]
    exact count_le_count h
  | moreThan s =>
    rw [hlive] at h hnumbers
    rw [hnumbers nofun]
    exact count_le_count h

/-- As long as what is left can be counted in 64 bits. In minutes, each bound is sent as the minute that it is
in at that time. So a lower bound, in seconds, is not above that of the estimate, and an upper bound is not
below it if and only if that is a whole minute; what is missing is less than a minute. The minute of each
arrival that the estimate allows is allowed. -/
theorem etaPayload_minutes (slot : Slot) {a : Arrival} {now : Instant} (hunits : a.units = .minutes)
    (hword : ∀ n ∈ (a.liveEstimate now).numbers, IsWord n) :
    let live := a.liveEstimate now
    let m := etaPayload slot a now
    (∀ s, live = .lessThan s →
      ∃ v, m.numbers = [v] ∧ MinuteOf v s ∧ (60 * v ≥ s ↔ 60 ∣ s)) ∧
    (∀ s, live = .moreThan s → ∃ v, m.numbers = [v] ∧ MinuteOf v s ∧ 60 * v ≤ s) ∧
    (∀ lower upper, live = .interval lower upper → ∃ l u, m.numbers = [l, u] ∧
      (MinuteOf l lower ∧ 60 * l ≤ lower) ∧ MinuteOf u upper ∧ (60 * u ≥ upper ↔ 60 ∣ upper)) ∧
    ∀ t minute, live.Allows t → MinuteOf minute t → m.Allows minute := by
  intro live m
  have hnumbers (ht : ∀ t, live ≠ .timestamp t) :
      m.numbers = live.numbers.map DisplayUnit.minutes.count := by
    rw [← hunits]
    exact numbers_of_liveEstimate hword ht
  refine ⟨fun s hs => ?_, fun s hs => ?_, fun lower upper hs => ?_, fun t minute ht hminute => ?_⟩
  · rw [hs] at hnumbers
    exact ⟨_, hnumbers nofun, minuteOf_count s, (minuteOf_count s).le_iff⟩
  · rw [hs] at hnumbers
    exact ⟨_, hnumbers nofun, minuteOf_count s, (minuteOf_count s).1⟩
  · rw [hs] at hnumbers
    exact ⟨_, _, hnumbers nofun, ⟨minuteOf_count lower, (minuteOf_count lower).1⟩,
      minuteOf_count upper, (minuteOf_count upper).le_iff⟩
  · have hcount : minute = a.units.count t := by
      obtain ⟨hle, hlt⟩ := hminute
      rw [hunits, DisplayUnit.count]
      omega
    rw [hcount]
    exact allows_etaPayload hword ht

/-- A tram that is known to come at most so many seconds after it was looked for, or within a range. -/
def tramArrival (estimate : Estimate) : Arrival :=
  ⟨"t", "tram", "gate", "park", ⟨0⟩, .ofSeconds 300, 0, none, estimate, .minutes⟩

/-- After half a minute, a range about the present minute: a moment ago, and the end of the next minute. -/
theorem etaPayload_minutes_tram :
    let a := tramArrival (.interval (-1) 149)
    let now := Instant.ofMillis 30000
    a.liveEstimate now = .interval (-31) 119 ∧
      (∃ l u, (etaPayload ⟨"gate", "park", 1⟩ a now).numbers = [l, u] ∧
        (MinuteOf l (-31) ∧ 60 * l ≤ -31) ∧ MinuteOf u 119 ∧ (60 * u ≥ 119 ↔ 60 ∣ (119 : Int))) ∧
      (etaPayload ⟨"gate", "park", 1⟩ a now).Allows 1 := by
  intro a now
  have hlive : a.liveEstimate now = .interval (-31) 119 := rfl
  have hword : ∀ n ∈ (a.liveEstimate now).numbers, IsWord n := by decide
  obtain ⟨-, -, hrange, hallows⟩ :=
    etaPayload_minutes ⟨"gate", "park", 1⟩ (show a.units = .minutes from rfl) hword
  have hdue : (a.liveEstimate now).Allows 119 := ⟨by decide, by decide⟩
  exact ⟨hlive, hrange _ _ hlive, hallows 119 1 hdue ⟨by decide, by decide⟩⟩

/-- An upper bound of a second less than two minutes is sent as one minute. -/
theorem etaPayload_minutes_short :
    (¬ ∀ (slot : Slot) (a : Arrival) (now : Instant), a.units = .minutes →
      (∀ n ∈ (a.liveEstimate now).numbers, IsWord n) → ∀ s, a.liveEstimate now = .lessThan s →
        ∃ v, (etaPayload slot a now).numbers = [v] ∧ 60 * v ≥ s) ∧
    ¬ ∀ (slot : Slot) (a : Arrival) (now : Instant), a.units = .minutes →
      (∀ n ∈ (a.liveEstimate now).numbers, IsWord n) →
        ∀ lower upper, a.liveEstimate now = .interval lower upper →
          ∃ l u, (etaPayload slot a now).numbers = [l, u] ∧ 60 * l ≤ lower ∧ 60 * u ≥ upper := by
  refine ⟨fun h => ?_, fun h => ?_⟩
  · obtain ⟨v, hnumbers, hv⟩ :=
      h ⟨"gate", "park", 1⟩ (tramArrival (.lessThan 119)) ⟨0⟩ rfl (by decide) 119 rfl
    have hsent : (etaPayload ⟨"gate", "park", 1⟩ (tramArrival (.lessThan 119)) ⟨0⟩).numbers = [1] := by
      decide
    rw [hsent, List.cons.injEq] at hnumbers
    omega
  · obtain ⟨l, u, hnumbers, -, hu⟩ :=
      h ⟨"gate", "park", 1⟩ (tramArrival (.interval 0 119)) ⟨0⟩ rfl (by decide) 0 119 rfl
    have hsent : (etaPayload ⟨"gate", "park", 1⟩ (tramArrival (.interval 0 119)) ⟨0⟩).numbers =
        [0, 1] := by
      decide
    rw [hsent, List.cons.injEq, List.cons.injEq] at hnumbers
    omega

end Wire

end Arrivals
