import Arrivals.Network.Stops
import Arrivals.Time.Instant

/-! Choosing the observation that best explains a coming vehicle: the one whose age comes nearest to
the time of the way from there. Observations are offered from near to far, and the search ends where
the deviation gets worse. -/

namespace Arrivals

structure Candidate where
  stop : Stop
  path : Int
  elapsed : Int
  seenAt : Instant
  deriving DecidableEq, Repr, Inhabited

namespace Candidate

def deviation (c : Candidate) : Int := c.path - c.elapsed

/-- How far ahead of its time a vehicle may be. -/
def tolerance : Int := 30

end Candidate

/-- The best candidate so far, and whether the search goes on. -/
structure Search where
  best : Option Candidate
  running : Bool
  deriving DecidableEq, Repr, Inhabited

namespace Search

def start : Search := ⟨none, true⟩

def offer (s : Search) (c : Candidate) : Search :=
  if c.deviation < -Candidate.tolerance then s
  else
    match s.best with
    | none => { s with best := some c }
    | some b =>
      if c.deviation < b.deviation then { s with best := some c }
      else if b.deviation < c.deviation then { s with running := false }
      else s

def offer? (s : Search) : Option Candidate → Search
  | none => s
  | some c => s.offer c

end Search

end Arrivals
