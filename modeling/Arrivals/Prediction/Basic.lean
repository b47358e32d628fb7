import Arrivals.Prediction.Search
import Arrivals.Presence
import Arrivals.Store.Access

/-! Predicting the next vehicle at a station from sparse observations. Two scans look for the vehicle:
one back from the station towards where vehicles come from, then one from the far terminal, for
vehicles that still have to turn around there. -/

namespace Arrivals

inductive PredictionError where
  | unknownStation (station : StationId)
  | invalidDirection (station direction : StationId)
  | noVehicleLocated (station direction : StationId)
  | missingConnection (edge : ConnectionKey)
  | store (e : StoreError)
  deriving DecidableEq, Repr

namespace PredictionError

def name : PredictionError → String
  | .unknownStation _ => "UnknownStation"
  | .invalidDirection _ _ => "InvalidDirection"
  | .noVehicleLocated _ _ => "NoVehicleLocated"
  | .missingConnection _ => "MissingConnection"
  | .store _ => "Store"

def message : PredictionError → String
  | .unknownStation s => "station " ++ s ++ " is not served by any line"
  | .invalidDirection s d => d ++ " is not a terminal of any line serving " ++ s
  | .noVehicleLocated s d => "no vehicle located for " ++ s ++ " towards " ++ d
  | .missingConnection k => "no connection from " ++ k.origin ++ " to " ++ k.destination
  | .store e => e.message

end PredictionError

structure Prediction where
  line : Line
  station : StationId
  direction : StationId
  /-- where the vehicle was seen -/
  located : Stop
  /-- the terminal that it was heading to when seen -/
  locatedDirection : StationId
  seenAt : Instant
  reversing : Bool
  pathSeconds : Int
  elapsedSeconds : Int
  deriving DecidableEq, Repr, Inhabited

namespace Prediction

/-- Negative when the vehicle arrived that long ago. -/
def etaSeconds (p : Prediction) : Int := p.pathSeconds - p.elapsedSeconds

def arrived (p : Prediction) : Bool := p.etaSeconds < 0

def reversalSeconds : Int := 120

def storeCall (x : Access StoreError α) : Access PredictionError α :=
  ExceptT.adapt PredictionError.store x

end Prediction

/-- Where queries look up lines and the costs of edges. -/
structure Atlas (m : Type → Type) where
  line? : LineId → m (Option Line)
  linesServing : StationId → m (List Line)
  cost? : ConnectionKey → m (Option Int)

namespace Atlas

def live : Atlas (Access PredictionError) where
  line? id := Prediction.storeCall (Access.line? id)
  linesServing station := Prediction.storeCall (Access.linesServing station)
  cost? k := Prediction.storeCall (Access.travelSeconds k)

/-- A store that never fails. -/
def ofStore (s : Store) : Atlas (Except PredictionError) where
  line? id := .ok (s.line? id)
  linesServing station := .ok (s.linesServing station)
  cost? k := .ok (s.cost? k)

end Atlas

namespace Prediction

section Query

variable {m : Type → Type} [Monad m] [MonadExcept PredictionError m]

def edgeSeconds (atlas : Atlas m) (a b : Stop) : m Int := do
  let k : ConnectionKey := ⟨a.station, b.station⟩
  match ← atlas.cost? k with
  | some seconds => return seconds
  | none => throw (.missingConnection k)

def pathTime (atlas : Atlas m) : List Stop → m Int
  | [] => return 0
  | a :: rest =>
    match rest with
    | [] => return 0
    | b :: _ => do
      let first ← edgeSeconds atlas a b
      let others ← pathTime atlas rest
      return first + others

/-- Offers what was seen at each of the stops, which lie one behind the other: `path` is the time
of the way from the first of them. -/
def scan (atlas : Atlas m) (observe : Stop → Int → Option Candidate) (path : Int)
    (search : Search) : List Stop → m Search
  | [] => return search
  | a :: rest => do
    let search := search.offer? (observe a path)
    match rest with
    | [] => return search
    | b :: _ =>
      if search.running then
        let edge ← edgeSeconds atlas b a
        scan atlas observe (path + edge) search rest
      else return search

def observe (presence : Presence) (direction : StationId) (now : Instant) (stop : Stop)
    (path : Int) : Option Candidate :=
  (presence.lastSeen? ⟨stop.station, direction⟩).map fun seenAt =>
    ⟨stop, path, (now.since seenAt).seconds, seenAt⟩

/-- Of the lines serving the station the first that has the direction as a terminal. -/
def resolve (atlas : Atlas m) (station direction : StationId) : m (Line × Heading) := do
  let lines ← atlas.linesServing station
  if lines.isEmpty then throw (.unknownStation station)
  match lines.findSome? fun l => (l.headingTowards? direction).map fun h => (l, h) with
  | some found => return found
  | none => throw (.invalidDirection station direction)

def scanApproaching (atlas : Atlas m) (presence : Presence) (now : Instant) (line : Line)
    (heading : Heading) (target : Nat) (direction : StationId) : m (Option Candidate) := do
  let search ← scan atlas (observe presence direction now) 0 .start (line.stopsBack target heading)
  return search.best

/-- The way runs to the far terminal, and after the turn back up to the target. -/
def scanReversing (atlas : Atlas m) (presence : Presence) (now : Instant) (line : Line)
    (heading : Heading) (target : Nat) (opposite : StationId) : m (Option Candidate) := do
  let returnLeg ← pathTime atlas (line.stopsBack target heading).reverse
  let search ← scan atlas (observe presence opposite now) (reversalSeconds + returnLeg) .start
    (line.stopsAlong heading)
  return search.best

def predictWith (atlas : Atlas m) (presence : Presence) (now : Instant)
    (station direction : StationId) : m Prediction := do
  let (line, heading) ← resolve atlas station direction
  match line.position? station with
  | none => throw (.unknownStation station)
  | some target =>
    match ← scanApproaching atlas presence now line heading target direction with
    | some c =>
      return ⟨line, station, direction, c.stop, direction, c.seenAt, false, c.path, c.elapsed⟩
    | none =>
      match line.terminal? heading.reversed with
      | none => throw (.unknownStation station)
      | some opposite =>
        match ← scanReversing atlas presence now line heading target opposite with
        | some c =>
          return ⟨line, station, direction, c.stop, opposite, c.seenAt, true, c.path, c.elapsed⟩
        | none => throw (.noVehicleLocated station direction)

end Query

end Prediction

def predict (presence : Presence) (now : Instant) (station direction : StationId) :
    Access PredictionError Prediction :=
  Prediction.predictWith .live presence now station direction

end Arrivals
