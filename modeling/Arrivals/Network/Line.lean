/-! Lines: ordered stations whose two endpoints name the two directions. -/

namespace Arrivals

abbrev StationId := String
abbrev LineId := String
abbrev NetworkId := String
abbrev TripId := String
abbrev UserId := String
abbrev VehicleId := String

/-- Up runs towards the last station of a line, down towards the first. -/
inductive Heading where
  | up
  | down
  deriving DecidableEq, Repr

namespace Heading

def reversed : Heading → Heading
  | .up => .down
  | .down => .up

@[simp] theorem reversed_reversed (h : Heading) : h.reversed.reversed = h := by cases h <;> rfl

end Heading

structure Station where
  id : StationId
  name : String
  network : NetworkId
  deriving DecidableEq, Repr, Inhabited

structure Line where
  id : LineId
  name : String
  network : NetworkId
  stations : List StationId
  /-- the number of cars reported for vehicles that nobody counted -/
  typicalCars : UInt32
  deriving DecidableEq, Repr, Inhabited

namespace Line

def first? (l : Line) : Option StationId := l.stations.head?

def last? (l : Line) : Option StationId := l.stations.getLast?

def position? (l : Line) (s : StationId) : Option Nat := l.stations.findIdx? fun t => t = s

def serves (l : Line) (s : StationId) : Bool := (l.position? s).isSome

/-- The heading of vehicles bound for an endpoint. On a loop, up is meant. -/
def headingTowards? (l : Line) (terminal : StationId) : Option Heading :=
  if l.stations.length < 2 then none
  else if l.last? = some terminal then some .up
  else if l.first? = some terminal then some .down
  else none

def terminal? (l : Line) : Heading → Option StationId
  | .up => l.last?
  | .down => l.first?

def next? (l : Line) (i : Nat) : Heading → Option Nat
  | .up => if i + 1 < l.stations.length then some (i + 1) else none
  | .down => if 0 < i ∧ i < l.stations.length then some (i - 1) else none

theorem next?_lt {l : Line} {i j : Nat} {h : Heading} (hj : l.next? i h = some j) :
    j < l.stations.length := by
  cases h <;> simp only [next?, Option.ite_none_right_eq_some, Option.some.injEq] at hj <;> omega

end Line

end Arrivals
