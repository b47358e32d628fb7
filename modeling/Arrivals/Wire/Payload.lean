import Arrivals.Board
import Arrivals.Position
import Arrivals.Wire.Message

/-! Arrivals and positions as the messages that go out: as they read at the time of sending. -/

namespace Arrivals.Wire

/-- Whole seconds, none if the time is over and at most what 32 bits hold. -/
def clampedSeconds (s : Span) : UInt32 := UInt32.ofNat (min s.seconds.toNat 4294967295)

def inUnits (seconds : Int) : DisplayUnit → Int64
  | .seconds => Int64.ofInt seconds
  | .minutes => Int64.ofInt (seconds / 60)

def kindOf : Estimate → Kind
  | .notAvailable => .notAvailable
  | .exact _ => .exact
  | .interval _ _ => .interval
  | .lessThan _ => .lessThan
  | .moreThan _ => .moreThan
  | .timestamp _ => .timestamp

def valueOf (units : DisplayUnit) : Estimate → Option Value
  | .notAvailable => none
  | .exact s => some (.single (inUnits s units))
  | .interval lower upper => some (.interval ⟨inUnits lower units, inUnits upper units⟩)
  | .lessThan s => some (.single (inUnits s units))
  | .moreThan s => some (.single (inUnits s units))
  | .timestamp t => some (.single (Int64.ofInt t.unixSeconds))

def unitsOf : DisplayUnit → Units
  | .seconds => .seconds
  | .minutes => .minutes

def etaPayload (slot : Slot) (a : Arrival) (now : Instant) : VehicleEta :=
  let live := a.liveEstimate now
  { station := slot.station
    direction := slot.direction
    rank := slot.rank.toUInt32
    computed := Int64.ofInt now.unixSeconds
    validity := clampedSeconds (a.expires.since now)
    kind := (kindOf live).code
    units := (unitsOf a.units).code
    value := valueOf a.units live
    vehicle := a.vehicle
    cars := a.cars
    platform := a.platform }

def positionPayload (p : Position) (now : Instant) : VehiclePosition :=
  { vehicle := p.vehicle
    line := p.line
    cars := p.cars
    previousStation := p.previousStation
    nextStation := p.nextStation
    direction := p.direction
    platform := p.platform
    percent := p.percent
    computed := Int64.ofInt now.unixSeconds
    validity := clampedSeconds (p.expires.since now) }

end Arrivals.Wire
