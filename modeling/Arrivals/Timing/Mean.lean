import Arrivals.Number.Binary

/-! Means of samples as doubles: sums and quotients are each rounded to the nearest double, and the
result to the nearest whole second, a half away from zero. -/

namespace Arrivals

/-- A sum as a double, divided by the number of its summands. -/
def doubleMean (sum : Int) (count : Nat) : Binary :=
  Format.double.quotient (Format.double.nearest sum 1) (.ofInt count)

/-- Samples as they are counted: both numbers wrap around. -/
structure Tally where
  sum : Int64
  count : UInt32
  deriving DecidableEq, Repr, Inhabited

namespace Tally

def empty : Tally := ⟨0, 0⟩

def push (t : Tally) (sample : Int) : Tally := ⟨t.sum + .ofInt sample, t.count + 1⟩

def ofList (samples : List Int) : Tally := samples.foldl push empty

/-- Fewer samples teach nothing. -/
def leastCount : UInt32 := 2

def mean (t : Tally) : Binary := doubleMean t.sum.toInt t.count.toNat

def significantMean? (t : Tally) : Option Binary :=
  if leastCount ≤ t.count then some t.mean else none

end Tally

/-- The whole seconds of a duration, kept within 32 bits. -/
def Binary.wholeSeconds (a : Binary) : Int32 :=
  Int32.ofInt (max (-2147483648) (min 2147483647 a.roundAway))

def total (durations : List Int32) : Int := durations.foldl (fun sum d => sum + d.toInt) 0

/-- The mean of some durations; nought if there are none. The sum is exact before it is made a double.
Doubles added up one by one come to the same, unless there are millions of them. -/
def meanOf (durations : List Int32) : Binary :=
  if durations.isEmpty then .zero else doubleMean (total durations) durations.length

end Arrivals
