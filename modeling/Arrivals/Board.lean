import Arrivals.Arrival
import Arrivals.Expiring

/-! The board of predicted arrivals, by station, direction and rank: the next arrival has rank 1. -/

namespace Arrivals

structure Slot where
  station : StationId
  direction : StationId
  rank : UInt8
  deriving DecidableEq, Repr, Inhabited

namespace Slot

def before (a b : Slot) : Bool :=
  a.station < b.station || (a.station = b.station &&
    (a.direction < b.direction || (a.direction = b.direction && a.rank < b.rank)))

end Slot

structure Board where
  arrivals : Expiring Slot Arrival
  deriving Inhabited

namespace Board

def empty : Board := ⟨.empty⟩

def liveCount (b : Board) (now : Instant) : Nat := b.arrivals.liveCount now

def isEmpty (b : Board) : Bool := b.arrivals.isEmpty

/-- What has expired already changes nothing. -/
def set (b : Board) (now : Instant) (slot : Slot) (a : Arrival) : Board :=
  let ttl := a.expires.since now
  if ttl ≤ ⟨0⟩ then b else ⟨b.arrivals.set now slot a ttl⟩

def slots (station direction : StationId) (count : Nat) : List Slot :=
  (List.range count).map fun i => ⟨station, direction, UInt8.ofNat (i + 1)⟩

def next (b : Board) (now : Instant) (station direction : StationId) (count : Nat) :
    List Arrival :=
  (slots station direction count).filterMap fun slot => b.arrivals.visible? now slot

def touch (b : Board) (now : Instant) (station direction : StationId) (count : Nat) : Board :=
  ⟨(slots station direction count).foldl (fun t slot => t.touch now slot) b.arrivals⟩

def all (b : Board) (now : Instant) : List (Slot × Arrival) :=
  (b.arrivals.liveEntries now).mergeSort fun x y => !y.1.before x.1

/-- An arrival without an estimate ranks with the last of all. -/
def latest : Int := 9223372036854775807

def rankingSeconds (a : Arrival) (now : Instant) : Int := (a.liveSeconds? now).getD latest

/-- Keeps, for each vehicle, the arrival that comes soonest, and of several the first. -/
def keepSoonest (now : Instant) (soonest : Table VehicleId Arrival) (a : Arrival) :
    Table VehicleId Arrival :=
  match soonest.get? a.vehicle with
  | some best =>
    if rankingSeconds best now ≤ rankingSeconds a now then soonest else soonest.insert a.vehicle a
  | none => soonest.insert a.vehicle a

def currentPositions (b : Board) (now : Instant) : List Arrival :=
  (((b.all now).map Prod.snd).foldl (keepSoonest now) .empty).values.mergeSort fun x y =>
    !decide (y.vehicle < x.vehicle)

def sweep (b : Board) (now : Instant) : Board := ⟨b.arrivals.sweep now⟩

def expiredCount (b : Board) (now : Instant) : Nat :=
  b.arrivals.size - (b.arrivals.sweep now).size

end Board

end Arrivals
