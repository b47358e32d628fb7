import Arrivals.Wire.Payload
import Mathlib.Logic.Basic

/-! What a message says. Main statement: the message made of an arrival names its place and its vehicle, and
tells its estimate with the numbers less the time that has gone by since it was made, in the units of the
arrival. -/

namespace Arrivals

/-- It can be counted in 64 bits. -/
def IsWord (n : Int) : Prop := -9223372036854775808 ≤ n ∧ n ≤ 9223372036854775807

instance (n : Int) : Decidable (IsWord n) := inferInstanceAs (Decidable (_ ∧ _))

theorem IsWord.toInt_ofInt {n : Int} (h : IsWord n) : (Int64.ofInt n).toInt = n :=
  Int64.toInt_ofInt_of_le h.1 (by have := h.2; omega)

/-- The seconds of an estimate, or the Unix second of the moment that it names. -/
def Estimate.numbers : Estimate → List Int
  | .notAvailable => []
  | .exact s => [s]
  | .interval lower upper => [lower, upper]
  | .lessThan s => [s]
  | .moreThan s => [s]
  | .timestamp t => [t.unixSeconds]

def DisplayUnit.count : DisplayUnit → Int → Int
  | .seconds, s => s
  | .minutes, s => s / 60

namespace Wire

def Value.numbers : Value → List Int
  | .single n => [n.toInt]
  | .interval i => [i.lower.toInt, i.upper.toInt]

def VehicleEta.numbers (m : VehicleEta) : List Int := m.value.elim [] Value.numbers

/-- A message has the number of the kind of estimate, and the form of value that the kind has. -/
def VehicleEta.Shows (m : VehicleEta) : Estimate → Prop
  | .notAvailable => m.kind = 0 ∧ m.value = none
  | .exact _ => m.kind = 1 ∧ ∃ n, m.value = some (.single n)
  | .interval _ _ => m.kind = 2 ∧ ∃ i, m.value = some (.interval i)
  | .lessThan _ => m.kind = 3 ∧ ∃ n, m.value = some (.single n)
  | .moreThan _ => m.kind = 4 ∧ ∃ n, m.value = some (.single n)
  | .timestamp _ => m.kind = 5 ∧ ∃ n, m.value = some (.single n)

/-- The number of the units. -/
def VehicleEta.CountsIn (m : VehicleEta) : DisplayUnit → Prop
  | .seconds => m.units = 0
  | .minutes => m.units = 1

theorem toNat_clampedSeconds (s : Span) :
    (clampedSeconds s).toNat = min s.seconds.toNat 4294967295 :=
  UInt32.toNat_ofNat_of_lt' (show _ < 4294967296 by omega)

variable {units : DisplayUnit} {n : Int}

theorem toInt_inUnits (h : IsWord n) : (inUnits n units).toInt = units.count n := by
  obtain ⟨hlower, hupper⟩ := h
  cases units with
  | seconds => exact IsWord.toInt_ofInt ⟨hlower, hupper⟩
  | minutes =>
    have hminutes : IsWord (n / 60) := ⟨by omega, by omega⟩
    exact hminutes.toInt_ofInt

theorem numbers_valueOf {e : Estimate} (h : ∀ n ∈ e.numbers, IsWord n) (ht : ∀ t, e ≠ .timestamp t) :
    (valueOf units e).elim [] Value.numbers = e.numbers.map units.count := by
  have hsingle (s : Int) (hs : s ∈ e.numbers) : [(inUnits s units).toInt] = [units.count s] :=
    congrArg (fun n => [n]) (toInt_inUnits (h s hs))
  cases e with
  | notAvailable => rfl
  | exact s => exact hsingle s List.mem_cons_self
  | interval lower upper =>
    have hlower : (inUnits lower units).toInt = units.count lower :=
      toInt_inUnits (h lower (by simp [Estimate.numbers]))
    have hupper : (inUnits upper units).toInt = units.count upper :=
      toInt_inUnits (h upper (by simp [Estimate.numbers]))
    exact congrArg₂ (fun l u => [l, u]) hlower hupper
  | lessThan s => exact hsingle s List.mem_cons_self
  | moreThan s => exact hsingle s List.mem_cons_self
  | timestamp t => exact absurd rfl (ht t)

theorem numbers_aged {e : Estimate} (ht : ∀ t, e ≠ .timestamp t) (elapsed : Int) :
    (e.aged elapsed).numbers = e.numbers.map (· - elapsed) ∧ ∀ t, e.aged elapsed ≠ .timestamp t := by
  cases e with
  | timestamp t => exact absurd rfl (ht t)
  | _ => exact ⟨rfl, nofun⟩

variable (slot : Slot) (a : Arrival) (now : Instant)

/-- However much an estimate ages, it keeps its kind. -/
theorem shows_etaPayload : (etaPayload slot a now).Shows a.estimate := by
  obtain ⟨vehicle, line, station, direction, computed, validity, cars, platform, estimate, units⟩ := a
  cases estimate with
  | notAvailable => exact ⟨rfl, rfl⟩
  | exact s => exact ⟨rfl, _, rfl⟩
  | interval lower upper => exact ⟨rfl, _, rfl⟩
  | lessThan s => exact ⟨rfl, _, rfl⟩
  | moreThan s => exact ⟨rfl, _, rfl⟩
  | timestamp t => exact ⟨rfl, _, rfl⟩

theorem countsIn_etaPayload : (etaPayload slot a now).CountsIn a.units := by
  cases h : a.units with
  | seconds => simp [VehicleEta.CountsIn, etaPayload, h, unitsOf, Units.code]
  | minutes => simp [VehicleEta.CountsIn, etaPayload, h, unitsOf, Units.code]

variable {slot a now}

theorem numbers_of_liveEstimate (hword : ∀ n ∈ (a.liveEstimate now).numbers, IsWord n)
    (ht : ∀ t, a.liveEstimate now ≠ .timestamp t) :
    (etaPayload slot a now).numbers = (a.liveEstimate now).numbers.map a.units.count :=
  numbers_valueOf hword ht

/-- But for a moment that is known, an estimate is sent with its numbers less the time that has gone by. -/
theorem numbers_etaPayload (hword : ∀ n ∈ (a.liveEstimate now).numbers, IsWord n)
    (ht : ∀ t, a.estimate ≠ .timestamp t) : (etaPayload slot a now).numbers =
      a.estimate.numbers.map fun s => a.units.count (s - a.elapsedSeconds now) := by
  obtain ⟨haged, ht'⟩ := numbers_aged ht (a.elapsedSeconds now)
  rw [numbers_of_liveEstimate hword ht', Arrival.liveEstimate, haged, List.map_map]
  rfl

theorem numbers_etaPayload_timestamp {t : Instant} (ht : a.estimate = .timestamp t)
    (hword : IsWord t.unixSeconds) : (etaPayload slot a now).numbers = [t.unixSeconds] := by
  have hlive : a.liveEstimate now = .timestamp t := by rw [Arrival.liveEstimate, ht, Estimate.aged]
  rw [VehicleEta.numbers, etaPayload, hlive]
  exact congrArg (fun n => [n]) hword.toInt_ofInt

end Wire

end Arrivals
