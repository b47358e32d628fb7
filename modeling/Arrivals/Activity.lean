import Arrivals.Expiring
import Arrivals.Network.Line

/-! Who is riding what: markers of riders for each line and network, which expire. -/

namespace Arrivals

abbrev Markers := Expiring UserId Unit

structure ActivityLimits where
  /-- counts are rounded down to a multiple of this, unless it is nought -/
  fudgeBucket : Nat
  /-- the life of a marker of a rider who is settled on one line -/
  shortTtl : Span
  longTtl : Span
  maxTracked : Nat
  deriving DecidableEq, Repr, Inhabited

structure Refusal where
  id : String
  limit : Nat
  deriving DecidableEq, Repr, Inhabited

def Refusal.message (r : Refusal) : String :=
  "tracking limit of " ++ toString r.limit ++ " ids reached, refusing " ++ r.id

structure Activity where
  lines : Table LineId Markers
  networks : Table NetworkId Markers
  deriving Inhabited

namespace Activity

def empty : Activity := ⟨.empty, .empty⟩

def tracked (a : Activity) : Nat := a.lines.size + a.networks.size

def distinct (ids : List String) : List String :=
  ids.foldr (fun id rest => id :: rest.filter fun other => other != id) []

def untracked (t : Table String Markers) (ids : List String) : List String :=
  (distinct ids).filter fun id => !t.contains id

def mark (t : Table String Markers) (now : Instant) (user : UserId) (ttl : Span) (id : String) :
    Table String Markers :=
  t.insert id (((t.get? id).getD .empty).set now user ⟨⟩ ttl)

def markOnly (t : Table String Markers) (now : Instant) (user : UserId) (ttl : Span)
    (ids : List String) : Table String Markers :=
  (ids.foldl (fun t id => mark t now user ttl id) t).map fun id markers =>
    if ids.contains id then markers else markers.erase user

def ttlFor (limits : ActivityLimits) (lines : List Line) (justEntered : Bool) : Span :=
  if justEntered || 1 < lines.length then limits.longTtl else limits.shortTtl

/-- Marks the user as riding these lines and no other; refused if that would track too many ids. -/
def register (a : Activity) (limits : ActivityLimits) (now : Instant) (lines : List Line)
    (user : UserId) (justEntered : Bool) : Except Refusal Activity :=
  let lineIds := lines.map Line.id
  let networkIds := lines.map Line.network
  let unseen := untracked a.lines lineIds ++ untracked a.networks networkIds
  match unseen with
  | first :: _ =>
    if limits.maxTracked < a.tracked + unseen.length then .error ⟨first, limits.maxTracked⟩
    else .ok (marked lineIds networkIds)
  | [] => .ok (marked lineIds networkIds)
where
  marked (lineIds : List LineId) (networkIds : List NetworkId) : Activity :=
    let ttl := ttlFor limits lines justEntered
    ⟨markOnly a.lines now user ttl lineIds, markOnly a.networks now user ttl networkIds⟩

def roundDown (limits : ActivityLimits) (count : Nat) : Nat :=
  if limits.fudgeBucket = 0 then count else count / limits.fudgeBucket * limits.fudgeBucket

def ridersUnder (t : Table String Markers) (now : Instant) (id : String) : Nat :=
  match t.get? id with
  | some markers => markers.liveCount now
  | none => 0

def countLine (a : Activity) (limits : ActivityLimits) (now : Instant) (line : LineId) : Nat :=
  roundDown limits (ridersUnder a.lines now line)

def countNetwork (a : Activity) (limits : ActivityLimits) (now : Instant) (network : NetworkId) :
    Nat :=
  roundDown limits (ridersUnder a.networks now network)

def sweepMarkers (t : Table String Markers) (now : Instant) : Table String Markers :=
  (t.map fun _ markers => markers.sweep now).filter fun _ markers => !markers.isEmpty

def sweep (a : Activity) (now : Instant) : Activity :=
  ⟨sweepMarkers a.lines now, sweepMarkers a.networks now⟩

end Activity

end Arrivals
