import Arrivals.Estimate
import Arrivals.Network.Line

/-! The predicted arrival of one vehicle at one station. -/

namespace Arrivals

structure Arrival where
  vehicle : VehicleId
  line : LineId
  station : StationId
  direction : StationId
  computed : Instant
  /-- how long the prediction holds, from `computed` on -/
  validity : Span
  cars : UInt32
  platform : Option String
  estimate : Estimate
  units : DisplayUnit
  deriving DecidableEq, Repr, Inhabited

namespace Arrival

def expires (a : Arrival) : Instant := a.computed.after a.validity

def elapsedSeconds (a : Arrival) (now : Instant) : Int := (now.since a.computed).seconds

def liveSeconds? (a : Arrival) (now : Instant) : Option Int :=
  (a.estimate.soonest? a.computed).map fun s => s - a.elapsedSeconds now

def liveEstimate (a : Arrival) (now : Instant) : Estimate := a.estimate.aged (a.elapsedSeconds now)

end Arrival

end Arrivals
