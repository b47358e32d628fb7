import Arrivals.Network.Line

/-! Learned durations: of travel between neighbouring stations and of changes between lines. -/

namespace Arrivals

structure ConnectionKey where
  origin : StationId
  destination : StationId
  deriving DecidableEq, Repr, Inhabited

/-- Durations are in seconds; stops and waits are spent at the origin. -/
structure Connection where
  origin : StationId
  destination : StationId
  line : LineId
  typical : Int32
  typicalStop : Int32
  typicalWait : Int32
  deriving DecidableEq, Repr, Inhabited

namespace Connection

def key (c : Connection) : ConnectionKey := ⟨c.origin, c.destination⟩

/-- The cost of the edge, with the stop at its origin. -/
def travelSeconds (c : Connection) : Int := c.typical.toInt + c.typicalStop.toInt

end Connection

structure TransferKey where
  station : StationId
  fromLine : LineId
  toLine : LineId
  deriving DecidableEq, Repr, Inhabited

structure Transfer where
  station : StationId
  fromLine : LineId
  toLine : LineId
  typical : Int32
  deriving DecidableEq, Repr, Inhabited

def Transfer.key (t : Transfer) : TransferKey := ⟨t.station, t.fromLine, t.toLine⟩

end Arrivals
