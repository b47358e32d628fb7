import Arrivals.Network.Line
import Arrivals.Table
import Arrivals.Time.Instant

/-! Observations of vehicles: for each station and direction the last time at which one was seen,
and the latest readings in the order of their coming. -/

namespace Arrivals

/-- A place at which vehicles are seen, with the terminal that they head to. -/
structure Sight where
  station : StationId
  direction : StationId
  deriving DecidableEq, Repr, Inhabited

structure Reading where
  time : Instant
  sight : Sight
  deriving DecidableEq, Repr, Inhabited

/-- So many readings are kept. -/
def Presence.history : Nat := 100

structure Presence where
  seen : Table Sight Instant
  readings : List Reading
  bounded : readings.length ≤ Presence.history

namespace Presence

def empty : Presence := ⟨.empty, [], Nat.zero_le _⟩

instance : Inhabited Presence := ⟨empty⟩

def lastSeen? (p : Presence) (s : Sight) : Option Instant := p.seen.get? s

/-- The oldest reading makes room for a new one once there are as many as are kept. -/
def pushReading (readings : List Reading) (r : Reading) : List Reading :=
  (if readings.length = history then readings.tail else readings) ++ [r]

theorem pushReading_eq {readings : List Reading} (h : readings.length ≤ history) (r : Reading) :
    pushReading readings r = readings.drop (readings.length + 1 - history) ++ [r] := by
  rw [pushReading]
  split
  next hfull => rw [hfull, Nat.add_sub_cancel_left, List.drop_one]
  next hroom => rw [Nat.sub_eq_zero_of_le (by omega), List.drop_zero]

theorem length_pushReading {readings : List Reading} (h : readings.length ≤ history) (r : Reading) :
    (pushReading readings r).length = min (readings.length + 1) history := by
  have hhistory : 0 < history := by decide
  rw [pushReading_eq h, List.length_append, List.length_drop, List.length_singleton]
  omega

/-- The latest call counts, whatever its time. -/
def register (p : Presence) (s : Sight) (now : Instant) : Presence where
  seen := p.seen.insert s now
  readings := pushReading p.readings ⟨now, s⟩
  bounded := by
    rw [length_pushReading p.bounded]
    exact Nat.min_le_right _ _

theorem readings_register (p : Presence) (s : Sight) (now : Instant) : (p.register s now).readings =
    p.readings.drop (p.readings.length + 1 - history) ++ [⟨now, s⟩] :=
  pushReading_eq p.bounded _

@[simp] theorem lastSeen?_register (p : Presence) (s t : Sight) (now : Instant) :
    (p.register s now).lastSeen? t = if s = t then some now else p.lastSeen? t := by
  simp [register, lastSeen?]

end Presence

end Arrivals
