import Arrivals.Proofs.Board.Positions
import Arrivals.Proofs.Position.Percent
import Arrivals.Proofs.Wire.Minutes

/-! The time that is left, on the board and to clients. Main statement: an arrival ranks by the time that
clients are told, unless it has aged since it was to come within some time, and either way its vehicle is
placed by the time that clients are told. -/

namespace Arrivals

/-- It has no part of a second. -/
def Instant.Whole (t : Instant) : Prop := 1000000000 ∣ t.nanos

instance (t : Instant) : Decidable t.Whole := inferInstanceAs (Decidable (_ ∣ _))

namespace Arrival

structure Whole (a : Arrival) (now : Instant) : Prop where
  computed : a.computed.Whole
  now : now.Whole
  estimate : ∀ t, a.estimate = .timestamp t → t.Whole

/-- It only has an upper bound, and it is a second old at least. -/
def AgedBound (a : Arrival) (now : Instant) : Prop :=
  (∃ s, a.estimate = .lessThan s) ∧ a.elapsedSeconds now ≠ 0

/-- The arrival that clients are told of: computed only now, and with the same end. -/
def told (a : Arrival) (now : Instant) : Arrival :=
  { a with computed := now, validity := a.expires.since now, estimate := a.liveEstimate now }

end Arrival

/-- The position that clients are told of. -/
def Position.told (p : Position) (now : Instant) : Position :=
  { p with computed := now, validity := p.expires.since now }

/-- The soonest arrival that a message allows, in its units. A moment is counted from when it was made. -/
def Wire.VehicleEta.soonest? (m : VehicleEta) (units : DisplayUnit) : Option Int :=
  match Kind.ofCode m.kind, m.numbers with
  | .exact, [s] => some s
  | .interval, [lower, _] => some lower
  | .lessThan, [_] => some 0
  | .moreThan, [s] => some s
  | .timestamp, [t] => some (units.count (t - m.computed.toInt))
  | _, _ => none

/-- Of the live arrivals of its vehicle clients are told of none that comes sooner, and of those that come
together none has an earlier slot. -/
structure Board.ToldSoonest (b : Board) (now : Instant) (slot : Slot) (a : Arrival) : Prop where
  live : b.arrivals.visible? now slot = some a
  least : ∀ slot' a', b.arrivals.visible? now slot' = some a' → a'.vehicle = a.vehicle →
    rankingSeconds (a.told now) now < rankingSeconds (a'.told now) now ∨
      rankingSeconds (a.told now) now = rankingSeconds (a'.told now) now ∧ slot'.before slot = false

variable {a : Arrival} {now t s : Instant}

namespace Instant

theorem Whole.nanos_eq (h : t.Whole) : t.nanos = t.unixSeconds * 1000000000 := by
  obtain ⟨n, hn⟩ := h
  have hfloor := Wire.unixSeconds_bounds t
  omega

theorem Whole.seconds_since (ht : t.Whole) (hs : s.Whole) :
    (t.since s).seconds = t.unixSeconds - s.unixSeconds := by
  rw [Span.seconds, nanos_since, ht.nanos_eq, hs.nanos_eq, ← Int.sub_mul]
  exact Int.mul_tdiv_cancel _ (by decide)

end Instant

@[simp] theorem Estimate.aged_zero (e : Estimate) : e.aged 0 = e := by
  cases e <;> simp [aged]

namespace Arrival

theorem elapsedSeconds_told (a : Arrival) (now : Instant) : (a.told now).elapsedSeconds now = 0 := by
  rw [elapsedSeconds, told, Instant.since, Int.sub_self]
  rfl

theorem liveSeconds?_told (a : Arrival) (now : Instant) :
    (a.told now).liveSeconds? now = (a.liveEstimate now).soonest? now := by
  rw [liveSeconds?, elapsedSeconds_told]
  simp only [Int.sub_zero, Option.map_id']
  rfl

/-- What an estimate says at first, less the time that has gone by, is what it says then; but an upper bound
says nothing of how soon it may be. -/
theorem liveSeconds?_eq (h : a.Whole now) (hbound : ∀ s, a.estimate ≠ .lessThan s) :
    a.liveSeconds? now = (a.liveEstimate now).soonest? now := by
  rw [liveSeconds?, liveEstimate]
  cases he : a.estimate with
  | lessThan s => exact absurd he (hbound s)
  | timestamp t =>
    have ht := h.estimate t he
    rw [Estimate.aged, Estimate.soonest?, Estimate.soonest?, elapsedSeconds, ht.seconds_since h.computed,
      h.now.seconds_since h.computed, ht.seconds_since h.now, Option.map_some]
    congr 1
    omega
  | _ => rfl

theorem liveSeconds?_of_lessThan {s : Int} (h : a.estimate = .lessThan s) (now : Instant) :
    a.liveSeconds? now = some (-a.elapsedSeconds now) ∧ (a.liveEstimate now).soonest? now = some 0 := by
  rw [liveSeconds?, liveEstimate, h, Estimate.aged, Estimate.soonest?, Estimate.soonest?,
    Option.map_some, Int.zero_sub]
  exact ⟨rfl, rfl⟩

theorem liveSeconds?_eq_iff (h : a.Whole now) :
    a.liveSeconds? now = (a.liveEstimate now).soonest? now ↔ ¬ a.AgedBound now := by
  by_cases hbound : ∃ s, a.estimate = .lessThan s
  · obtain ⟨s, hs⟩ := hbound
    obtain ⟨hlive, htold⟩ := liveSeconds?_of_lessThan hs now
    rw [hlive, htold, Option.some.injEq, Int.neg_eq_zero, AgedBound, not_and_not_right]
    exact ⟨fun h _ => h, fun h => h ⟨s, hs⟩⟩
  · exact iff_of_true (liveSeconds?_eq h (not_exists.mp hbound)) fun haged => hbound haged.1

theorem elapsedSeconds_nonneg (h : a.computed ≤ now) : 0 ≤ a.elapsedSeconds now :=
  (Wire.seconds_bounds (Int.sub_nonneg_of_le h)).1

/-- What is past and what is due have the same share of the way behind them: all of it. -/
theorem percentOf_told (hcomputed : a.computed ≤ now) (h : a.Whole now) (edge : Int) :
    ((a.told now).liveSeconds? now).map (Position.percentOf · edge) =
      (a.liveSeconds? now).map (Position.percentOf · edge) := by
  rw [liveSeconds?_told]
  by_cases hbound : ∃ s, a.estimate = .lessThan s
  · obtain ⟨s, hs⟩ := hbound
    obtain ⟨hlive, htold⟩ := liveSeconds?_of_lessThan hs now
    have hpast : -a.elapsedSeconds now ≤ 0 := Int.neg_nonpos_of_nonneg (elapsedSeconds_nonneg hcomputed)
    rw [hlive, htold, Option.map_some, Option.map_some, Position.percentOf_of_nonpos hpast,
      Position.percentOf_of_nonpos (Int.le_refl 0)]
  · rw [liveSeconds?_eq h (not_exists.mp hbound)]

/-- The vehicle is placed as that of the arrival that clients are told of. -/
theorem run_project_told (hcomputed : a.computed ≤ now) (h : a.Whole now) (source : Source) :
    source.run ((a.told now).project now) =
      ((source.run (a.project now)).1.map (·.told now), (source.run (a.project now)).2) := by
  have hpercent := percentOf_told hcomputed h
  rw [project, project, projectWith, projectWith, Source.run_bind, Source.run_bind]
  generalize (a.told now).liveSeconds? now = remaining at hpercent ⊢
  dsimp only [told]
  obtain ⟨_ | _ | line, s⟩ := source.run (Atlas.live.line? a.line)
  · rfl
  · rfl
  dsimp only
  cases line.headingTowards? a.direction with
  | none => rfl
  | some heading =>
    dsimp only
    cases line.position? a.station with
    | none => rfl
    | some index =>
      dsimp only
      cases (line.next? index heading.reversed).bind fun i => line.stops[i]? with
      | none => rfl
      | some stop =>
        cases hlive : a.liveSeconds? now with
        | none =>
          rw [hlive] at hpercent
          obtain rfl := Option.map_eq_none_iff.mp (hpercent 0)
          rfl
        | some n =>
          rw [hlive] at hpercent
          obtain ⟨n', rfl, -⟩ := Option.map_eq_some_iff.mp (hpercent 0)
          simp only [Option.map_some, Option.some.injEq] at hpercent
          dsimp only
          rw [Source.run_bind, Source.run_bind]
          obtain ⟨_ | edge, s⟩ := s.run (Prediction.edgeSeconds .live stop ⟨index, a.station⟩)
          · rfl
          · dsimp only
            rw [hpercent edge]
            rfl

end Arrival

theorem Wire.etaPayload_told (slot : Slot) (a : Arrival) (now : Instant) :
    etaPayload slot (a.told now) now = etaPayload slot a now := by
  have hlive : (a.told now).liveEstimate now = a.liveEstimate now := by
    rw [Arrival.liveEstimate, Arrival.elapsedSeconds_told, Arrival.told, Estimate.aged_zero]
  have hexpires : (a.told now).expires = a.expires := Instant.after_since _ _
  rw [etaPayload, hlive, hexpires]
  rfl

theorem Wire.soonest?_etaPayload (slot : Slot) (hcount : a.Countable now) (h : a.Whole now) :
    (etaPayload slot a now).soonest? a.units = ((a.liveEstimate now).soonest? now).map a.units.count := by
  rw [VehicleEta.soonest?, kind_of_liveEstimate]
  cases he : a.estimate with
  | timestamp t =>
    have hlive : a.liveEstimate now = .timestamp t := by rw [Arrival.liveEstimate, he, Estimate.aged]
    rw [hlive, numbers_etaPayload_timestamp he (hcount.isWord_moment he), toInt_computed hcount,
      Estimate.soonest?, (h.estimate t he).seconds_since h.now]
    rfl
  | _ =>
    have ht (t : Instant) : a.estimate ≠ .timestamp t := by
      rw [he]
      intro hmoment
      cases hmoment
    rw [numbers_etaPayload hcount.estimate ht, Arrival.liveEstimate, he]
    -- At once is at once, in seconds and in minutes.
    cases a.units <;> rfl

namespace Board

theorem rankingSeconds_told (h : a.Whole now) (hbound : ¬ a.AgedBound now) :
    rankingSeconds (a.told now) now = rankingSeconds a now := by
  rw [rankingSeconds, rankingSeconds, Arrival.liveSeconds?_told, (Arrival.liveSeconds?_eq_iff h).mpr hbound]

theorem mem_currentPositions_told_iff {b : Board}
    (h : ∀ slot a', b.arrivals.visible? now slot = some a' → a'.vehicle = a.vehicle →
      a'.Whole now ∧ ¬ a'.AgedBound now) :
    a ∈ b.currentPositions now ↔ ∃ slot, b.ToldSoonest now slot a := by
  have htold {slot : Slot} {a' : Arrival} (hlive : b.arrivals.visible? now slot = some a')
      (hv : a'.vehicle = a.vehicle) : rankingSeconds (a'.told now) now = rankingSeconds a' now := by
    obtain ⟨hwhole, hbound⟩ := h slot a' hlive hv
    exact rankingSeconds_told hwhole hbound
  rw [mem_currentPositions_iff]
  refine exists_congr fun slot => ⟨fun hs => ⟨hs.live, fun slot' a' hlive hv => ?_⟩,
    fun hs => ⟨hs.live, fun slot' a' hlive hv => ?_⟩⟩
  · rw [htold hs.live rfl, htold hlive hv]
    exact hs.least slot' a' hlive hv
  · rw [← htold hs.live rfl, ← htold hlive hv]
    exact hs.least slot' a' hlive hv

end Board

/-- At whole seconds. The time that ranks an arrival is the soonest that clients are told, which is also
what the message allows in its units, if and only if it is no upper bound that has aged: such a bound ranks
by how old it is, while it may be due at once. Its vehicle is placed in any case as if it had been computed
when clients were told of it, with the same part of the way behind it. Of a vehicle without aged bounds, the
current position is the arrival that clients are told is the soonest. -/
theorem liveSeconds_as_told (now : Instant) :
    (∀ a : Arrival, a.computed ≤ now → a.Whole now →
      let told := (a.liveEstimate now).soonest? now
      (a.liveSeconds? now = told ↔ ¬ a.AgedBound now) ∧
      (∀ s, a.estimate = .lessThan s →
        a.liveSeconds? now = some (-a.elapsedSeconds now) ∧ told = some 0) ∧
      (∀ slot, Wire.etaPayload slot (a.told now) now = Wire.etaPayload slot a now ∧
        (a.Countable now →
          (Wire.etaPayload slot a now).soonest? a.units = told.map a.units.count)) ∧
      ∀ source : Source, source.run ((a.told now).project now) =
        ((source.run (a.project now)).1.map (·.told now), (source.run (a.project now)).2)) ∧
    ∀ (b : Board) (a : Arrival),
      (∀ slot a', b.arrivals.visible? now slot = some a' → a'.vehicle = a.vehicle →
        a'.Whole now ∧ ¬ a'.AgedBound now) →
      (a ∈ b.currentPositions now ↔ ∃ slot, b.ToldSoonest now slot a) := by
  refine ⟨fun a hcomputed h => ⟨Arrival.liveSeconds?_eq_iff h, fun s hs => ?_, fun slot => ?_, ?_⟩,
    fun b a h => Board.mem_currentPositions_told_iff h⟩
  · exact Arrival.liveSeconds?_of_lessThan hs now
  · exact ⟨Wire.etaPayload_told slot a now, fun hcount => Wire.soonest?_etaPayload slot hcount h⟩
  · exact Arrival.run_project_told hcomputed h

/-- A tram that is to come at 90 s, half a minute after it was looked for. -/
theorem liveSeconds_as_told_tram :
    let a := Wire.tramArrival (.timestamp (.ofMillis 90000))
    let now := Instant.ofMillis 30000
    let b := Board.empty.set ⟨0⟩ ⟨"gate", "park", 1⟩ a
    (a.computed ≤ now ∧ a.Whole now ∧ a.Countable now) ∧
      (a.liveSeconds? now = (a.liveEstimate now).soonest? now ∧
        (Wire.etaPayload ⟨"gate", "park", 1⟩ a now).soonest? .minutes = some 1) ∧
      (∃ slot, b.ToldSoonest now slot a) ∧ a ∈ b.currentPositions now := by
  intro a now b
  have hwhole : a.Whole now := ⟨by decide, by decide, fun t ht => by cases ht; decide⟩
  have hcount : a.Countable now := ⟨by decide, by decide⟩
  have hbound : ¬ a.AgedBound now := fun ⟨⟨_, hs⟩, _⟩ => by cases hs
  have hall : b.arrivals.liveEntries now = [(⟨"gate", "park", 1⟩, a)] := rfl
  have hsame (slot : Slot) (a' : Arrival) (hlive : b.arrivals.visible? now slot = some a') : a' = a := by
    rw [← Expiring.mem_liveEntries_iff, hall, List.mem_singleton] at hlive
    exact congrArg Prod.snd hlive
  obtain ⟨hranks, hpositions⟩ := liveSeconds_as_told now
  obtain ⟨hlive, -, hmessage, -⟩ := hranks a (by decide) hwhole
  have hcurrent : a ∈ b.currentPositions now ↔ ∃ slot, b.ToldSoonest now slot a := by
    refine hpositions b a fun slot a' hslot _ => ?_
    rw [hsame slot a' hslot]
    exact ⟨hwhole, hbound⟩
  have hfirst : b.ToldSoonest now ⟨"gate", "park", 1⟩ a := by
    refine ⟨Expiring.mem_liveEntries_iff.mp (by simp [hall]), fun slot' a' hlive' _ => .inr ?_⟩
    rw [← Expiring.mem_liveEntries_iff, hall, List.mem_singleton, Prod.mk.injEq] at hlive'
    obtain ⟨rfl, rfl⟩ := hlive'
    exact ⟨rfl, by decide⟩
  exact ⟨⟨by decide, hwhole, hcount⟩, ⟨hlive.mpr hbound, (hmessage ⟨"gate", "park", 1⟩).2 hcount⟩,
    ⟨_, hfirst⟩, hcurrent.mpr ⟨_, hfirst⟩⟩

/-- A tram that is to come within a minute ranks, half a minute later, as if it were as long overdue. -/
theorem liveSeconds_apart_from_told :
    ¬ ∀ (a : Arrival) (now : Instant), a.computed ≤ now → a.Whole now → a.Countable now →
      a.liveSeconds? now = (a.liveEstimate now).soonest? now := by
  intro h
  have hcount : (Wire.tramArrival (.lessThan 60)).Countable (.ofMillis 30000) := ⟨by decide, by decide⟩
  have hwhole : (Wire.tramArrival (.lessThan 60)).Whole (.ofMillis 30000) :=
    ⟨by decide, by decide, nofun⟩
  have hsame := h _ _ (by decide) hwhole hcount
  cases hsame

end Arrivals
