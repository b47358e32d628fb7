/-! A task that runs again and again. Its first tick starts at once, and each further one a period
after the last was due; after a late start the period counts from there. Times are milliseconds. -/

namespace Arrivals.Schedule

structure Tick where
  started : Nat
  finished : Nat
  deriving DecidableEq, Repr

/-- A start that is no later than this counts as in time. -/
def slack : Nat := 5

/-- When the tick after one that was due, and started so much later, is due. -/
def nextDue (period due late : Nat) : Nat :=
  if slack < late then due + late + period else due + period

def ticks (period stop : Nat) (due late : Nat) (work : List Nat) : List Tick :=
  if h : 0 < period ∧ due + late < stop then
    let finished := due + late + work.headD 0
    let next := nextDue period due late
    have : due < next := by simp only [next, nextDue]; split <;> omega
    ⟨due + late, finished⟩ :: ticks period stop next (finished - next) work.tail
  else []
termination_by stop - due
decreasing_by omega

structure Ending where
  ticks : List Tick
  /-- whether the task ended by itself; unknown where nobody waited -/
  stopped : Option Bool
  stoppedAt : Nat
  deriving DecidableEq, Repr

/-- Where nobody waits for the task, this much later nothing more is noted. -/
def watch : Nat := 3600000

def runFor (period run : Nat) (grace : Option Nat) (work : List Nat) : Ending :=
  let all := ticks period run 0 0 work
  let limit := run + grace.getD watch
  let finished := all.filter fun t => t.finished < limit
  match grace with
  | none => ⟨finished, none, limit⟩
  | some g =>
    let idle := (all.getLast?.map Tick.finished).getD 0
    if max run idle < run + g then ⟨finished, some true, max run idle⟩
    else ⟨finished, some false, limit⟩

end Arrivals.Schedule
