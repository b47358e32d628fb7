import Arrivals.Arrival
import Arrivals.Number.Single
import Arrivals.Prediction.Basic

/-! Where a vehicle is between two stations, from its predicted arrival at the second of them. -/

namespace Arrivals

structure Position where
  vehicle : VehicleId
  line : LineId
  cars : UInt32
  /-- none while the vehicle has not left its first station -/
  previousStation : Option StationId
  nextStation : StationId
  direction : StationId
  platform : Option String
  /-- how much of the way between the two stations lies behind, from 0 to 100 -/
  percent : Single
  computed : Instant
  validity : Span
  deriving DecidableEq, Repr, Inhabited

namespace Position

def greatestPercent : Int := 100

/-- Each step of the calculation is rounded to single precision. -/
def percentOf (remaining edge : Int) : Single :=
  let f := Format.single
  let most := Binary.ofInt greatestPercent
  if edge ≤ 0 then .ofBinary most
  else
    let left := f.quotient (f.nearest remaining 1) (f.nearest edge 1)
    let travelled := f.round (Binary.sub (.ofInt 1) left)
    let percent := f.round (travelled.mul most)
    if percent.lt .zero then .zero
    else if most.lt percent then .ofBinary most
    else .ofBinary percent

def expires (p : Position) : Instant := p.computed.after p.validity

end Position

section Query

variable {m : Type → Type} [Monad m] [MonadExcept PredictionError m]

def Arrival.projectWith (atlas : Atlas m) (a : Arrival) (now : Instant) : m Position := do
  match ← atlas.line? a.line with
  | none => throw (.unknownStation a.station)
  | some line =>
    match line.headingTowards? a.direction with
    | none => throw (.invalidDirection a.station a.direction)
    | some heading =>
      match line.position? a.station with
      | none => throw (.unknownStation a.station)
      | some index =>
        let previous := (line.next? index heading.reversed).bind fun i => line.stops[i]?
        let percent ← match previous, a.liveSeconds? now with
          | some stop, some remaining => do
            let edge ← Prediction.edgeSeconds atlas stop ⟨index, a.station⟩
            pure (Position.percentOf remaining edge)
          | _, _ => pure .zero
        return ⟨a.vehicle, a.line, a.cars, previous.map Stop.station, a.station, a.direction,
          a.platform, percent, a.computed, a.validity⟩

end Query

/-- The position of the vehicle of an arrival. Without an estimate it has not left yet. -/
def Arrival.project (a : Arrival) (now : Instant) : Access PredictionError Position :=
  a.projectWith .live now

end Arrivals
