import Arrivals.Network.Line

/-! The stops of a line in the order in which vehicles of one heading make them. -/

namespace Arrivals

structure Stop where
  index : Nat
  station : StationId
  deriving DecidableEq, Repr, Inhabited

namespace Line

def stops (l : Line) : List Stop := l.stations.mapIdx Stop.mk

def stopsAlong (l : Line) : Heading → List Stop
  | .up => l.stops
  | .down => l.stops.reverse

/-- A stop and those before it, from the stop back to where vehicles come from. -/
def stopsBack (l : Line) (i : Nat) : Heading → List Stop
  | .up => (l.stops.take (i + 1)).reverse
  | .down => l.stops.drop i

end Line

end Arrivals
