import Arrivals.Number.Single

/-! The messages that the gateway exchanges. Enumerations travel as numbers, and a number that names
no case is kept. -/

namespace Arrivals.Wire

inductive Kind where
  | notAvailable
  | exact
  | interval
  | lessThan
  | moreThan
  | timestamp
  deriving DecidableEq, Repr

namespace Kind

def all : List Kind := [.notAvailable, .exact, .interval, .lessThan, .moreThan, .timestamp]

def code : Kind → Int32
  | .notAvailable => 0
  | .exact => 1
  | .interval => 2
  | .lessThan => 3
  | .moreThan => 4
  | .timestamp => 5

def name : Kind → String
  | .notAvailable => "not-available"
  | .exact => "exact"
  | .interval => "interval"
  | .lessThan => "less-than"
  | .moreThan => "more-than"
  | .timestamp => "timestamp"

def ofCode? (n : Int32) : Option Kind := all.find? fun k => k.code = n

/-- A number that names no case counts as the first. -/
def ofCode (n : Int32) : Kind := (ofCode? n).getD .notAvailable

@[simp] theorem ofCode?_code (k : Kind) : ofCode? k.code = some k := by cases k <;> decide

end Kind

inductive Units where
  | seconds
  | minutes
  deriving DecidableEq, Repr

namespace Units

def all : List Units := [.seconds, .minutes]

def code : Units → Int32
  | .seconds => 0
  | .minutes => 1

def name : Units → String
  | .seconds => "seconds"
  | .minutes => "minutes"

def ofCode? (n : Int32) : Option Units := all.find? fun u => u.code = n

/-- A number that names no case counts as the first. -/
def ofCode (n : Int32) : Units := (ofCode? n).getD .seconds

@[simp] theorem ofCode?_code (u : Units) : ofCode? u.code = some u := by cases u <;> decide

end Units

structure Interval where
  lower : Int64
  upper : Int64
  deriving DecidableEq, Repr, Inhabited

inductive Value where
  | single (n : Int64)
  | interval (i : Interval)
  deriving DecidableEq, Repr

structure VehicleEta where
  station : String
  direction : String
  rank : UInt32
  /-- Unix seconds -/
  computed : Int64
  /-- seconds -/
  validity : UInt32
  kind : Int32
  units : Int32
  value : Option Value
  vehicle : String
  cars : UInt32
  platform : Option String
  deriving DecidableEq, Repr

def VehicleEta.empty : VehicleEta := ⟨"", "", 0, 0, 0, 0, 0, none, "", 0, none⟩

structure VehiclePosition where
  vehicle : String
  line : String
  cars : UInt32
  previousStation : Option String
  nextStation : String
  direction : String
  platform : Option String
  percent : Single
  computed : Int64
  validity : UInt32
  deriving DecidableEq, Repr

def VehiclePosition.empty : VehiclePosition := ⟨"", "", 0, none, "", "", none, .zero, 0, 0⟩

structure EtaBatch where
  etas : List VehicleEta
  deriving DecidableEq, Repr

structure PositionBatch where
  positions : List VehiclePosition
  deriving DecidableEq, Repr

structure SignalReport where
  user : String
  station : String
  direction : String
  lines : List String
  justEntered : Bool
  deriving DecidableEq, Repr

structure ActivityCount where
  id : String
  riders : UInt64
  deriving DecidableEq, Repr

end Arrivals.Wire
