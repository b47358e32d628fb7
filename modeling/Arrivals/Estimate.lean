import Arrivals.Time.Instant

/-! Estimates of an arrival, in seconds from the moment at which they were made. -/

namespace Arrivals

inductive Estimate where
  | notAvailable
  | exact (seconds : Int)
  | interval (lower upper : Int)
  | lessThan (seconds : Int)
  | moreThan (seconds : Int)
  /-- a moment of arrival, which does not age -/
  | timestamp (at_ : Instant)
  deriving DecidableEq, Repr, Inhabited

namespace Estimate

def name : Estimate → String
  | .notAvailable => "NotAvailable"
  | .exact _ => "Exact"
  | .interval _ _ => "Interval"
  | .lessThan _ => "LessThan"
  | .moreThan _ => "MoreThan"
  | .timestamp _ => "Timestamp"

/-- The soonest arrival that the estimate allows, by which arrivals are ranked. -/
def soonest? (computed : Instant) : Estimate → Option Int
  | .notAvailable => none
  | .exact s => some s
  | .interval lower _ => some lower
  | .lessThan _ => some 0
  | .moreThan s => some s
  | .timestamp t => some (t.since computed).seconds

/-- The same estimate so many seconds later. -/
def aged (elapsed : Int) : Estimate → Estimate
  | .notAvailable => .notAvailable
  | .exact s => .exact (s - elapsed)
  | .interval lower upper => .interval (lower - elapsed) (upper - elapsed)
  | .lessThan s => .lessThan (s - elapsed)
  | .moreThan s => .moreThan (s - elapsed)
  | .timestamp t => .timestamp t

@[simp] theorem name_aged (e : Estimate) (elapsed : Int) : (e.aged elapsed).name = e.name := by
  cases e <;> rfl

end Estimate

inductive DisplayUnit where
  | seconds
  | minutes
  deriving DecidableEq, Repr, Inhabited

end Arrivals
