import Arrivals.Activity
import Arrivals.Presence
import Arrivals.Store.Access

/-! Riders' reports of where they are. A report counts as an observation of a vehicle and marks the
rider on the lines named. -/

namespace Arrivals

structure Signal where
  user : UserId
  station : StationId
  direction : StationId
  /-- none stand for every line that serves the station in that direction -/
  lines : List LineId
  justEntered : Bool
  deriving DecidableEq, Repr, Inhabited

inductive SignalError where
  | store (e : StoreError)
  | refused (r : Refusal)
  deriving DecidableEq, Repr

def SignalError.message : SignalError → String
  | .store e => e.message
  | .refused r => r.message

namespace Signal

def namedLine (id : LineId) : Access StoreError Line := do
  match ← Access.line? id with
  | some l => return l
  | none => throw (.lineNotFound id)

def namedLines : List LineId → Access StoreError (List Line)
  | [] => return []
  | id :: rest => do
    let l ← namedLine id
    let ls ← namedLines rest
    return l :: ls

def resolve (s : Signal) : Access StoreError (List Line) := do
  if s.lines.isEmpty then
    let serving ← Access.linesServing s.station
    return serving.filter fun l => (l.headingTowards? s.direction).isSome
  else namedLines s.lines

structure Reports where
  presence : Presence
  activity : Activity
  deriving Inhabited

/-- Takes in a report; one that is in error leaves everything as it was. -/
def report (s : Signal) (limits : ActivityLimits) (now : Instant) (r : Reports) :
    Access SignalError Reports := do
  let lines ← ExceptT.adapt SignalError.store s.resolve
  match r.activity.register limits now lines s.user s.justEntered with
  | .error refusal => throw (.refused refusal)
  | .ok activity => return ⟨r.presence.register ⟨s.station, s.direction⟩ now, activity⟩

end Signal

end Arrivals
