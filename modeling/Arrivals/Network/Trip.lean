import Arrivals.Network.Line
import Arrivals.Time.Stamp

/-! Recorded trips and the credentials of those who may ask. -/

namespace Arrivals

inductive UseType where
  | networkEntry
  | interchange
  | goneThrough
  | visit
  deriving DecidableEq, Repr, Inhabited

structure StationUse where
  station : StationId
  entry : Stamp
  leave : Stamp
  useType : UseType
  /-- added by hand after the trip, so without timing -/
  manual : Bool
  sourceLine : Option LineId
  targetLine : Option LineId
  deriving DecidableEq, Repr, Inhabited

def StationUse.dwellSeconds (u : StationUse) : Int := (u.leave.since u.entry).seconds

structure Trip where
  id : TripId
  start : Stamp
  uses : List StationUse
  deriving DecidableEq, Repr, Inhabited

structure Credential where
  key : String
  secretHash : String
  deriving DecidableEq, Repr, Inhabited

end Arrivals
