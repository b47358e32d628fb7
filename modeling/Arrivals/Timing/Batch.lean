import Arrivals.Store.Access
import Arrivals.Timing.Mean

/-! Learning durations from trips. A batch takes the trips of a trailing window, gathers samples
for each edge, and writes the means in one transaction: if any call fails, nothing is written. -/

namespace Arrivals.Timing

/-- Doors close before a departure is noted and open after an arrival is. -/
def transitBias : Int := 20
def transferBias : Int := 20

/-- Longer samples come from clocks that are wrong. -/
def transitLimit : Int := 600
def transferLimit : Int := 900
def dwellLimit : Int := 180

structure Config where
  window : Span
  throttle : Option Nat

structure EdgeSamples where
  transit : Tally
  stop : Tally
  wait : Tally
  deriving Inhabited

def EdgeSamples.empty : EdgeSamples := ⟨.empty, .empty, .empty⟩

structure Report where
  trips : Nat
  connectionSamples : Nat
  transferSamples : Nat
  skippedSamples : Nat
  connectionsUpdated : Nat
  transfersUpdated : Nat
  deriving DecidableEq, Repr, Inhabited

structure Batch where
  connections : Table ConnectionKey EdgeSamples
  transfers : Table TransferKey Tally
  report : Report
  deriving Inhabited

namespace Batch

def empty : Batch := ⟨.empty, .empty, ⟨0, 0, 0, 0, 0, 0⟩⟩

def skipSample (b : Batch) : Batch :=
  { b with report.skippedSamples := b.report.skippedSamples + 1 }

def addTransfer (b : Batch) (k : TransferKey) (sample : Int) : Batch :=
  { b with
    transfers := b.transfers.insert k (((b.transfers.get? k).getD .empty).push sample)
    report.transferSamples := b.report.transferSamples + 1 }

def within (x limit : Int) : Bool := 0 ≤ x && x < limit

def legSamples (s : EdgeSamples) (u v : StationUse) : EdgeSamples :=
  let transit := (v.entry.since u.leave).seconds
  let s := if within transit transitLimit
    then { s with transit := s.transit.push (transit + transitBias) } else s
  let dwell := u.dwellSeconds
  if within dwell dwellLimit then
    match u.useType with
    | .networkEntry => { s with wait := s.wait.push dwell }
    | .goneThrough => { s with stop := s.stop.push dwell }
    | .interchange => s
    | .visit => s
  else s

def addLeg (b : Batch) (k : ConnectionKey) (u v : StationUse) : Batch :=
  let counted := within (v.entry.since u.leave).seconds transitLimit
  { b with
    connections := b.connections.insert k (legSamples ((b.connections.get? k).getD .empty) u v)
    report.connectionSamples := b.report.connectionSamples + if counted then 1 else 0 }

def addTrip (b : Batch) : Batch := { b with report.trips := b.report.trips + 1 }

end Batch

open Batch

def accumulateTransfer (t : Transaction) (b : Batch) (u : StationUse) :
    Access StoreError Batch := do
  let dwell := u.dwellSeconds
  if !within dwell transferLimit then return b
  match u.sourceLine, u.targetLine with
  | some source, some target =>
    let k : TransferKey := ⟨u.station, source, target⟩
    match ← Access.heldTransfer? t k with
    | none => return b.skipSample
    | some _ => return b.addTransfer k (dwell - transferBias)
  | _, _ => return b.skipSample

def accumulateLeg (t : Transaction) (b : Batch) (u v : StationUse) : Access StoreError Batch := do
  let k : ConnectionKey := ⟨u.station, v.station⟩
  match ← Access.heldConnection? t k with
  | none => return b.skipSample
  | some _ => return b.addLeg k u v

/-- Goes through neighbouring uses; those added by hand have no timing. -/
def accumulateUses (t : Transaction) (b : Batch) : List StationUse → Access StoreError Batch
  | [] => return b
  | u :: rest =>
    match rest with
    | [] => return b
    | v :: _ => do
      let b ← if u.manual || v.manual then pure b
        else if v.useType = .interchange then accumulateTransfer t b v
        else accumulateLeg t b u v
      accumulateUses t b rest

def accumulateTrips (t : Transaction) (b : Batch) : List Trip → Access StoreError Batch
  | [] => return b
  | trip :: rest => do
    let b ← accumulateUses t b trip.uses
    accumulateTrips t b.addTrip rest

def learn (c : Connection) (s : EdgeSamples) : Connection :=
  { c with
    typical := (s.transit.significantMean?.map Binary.wholeSeconds).getD c.typical
    typicalStop := (s.stop.significantMean?.map Binary.wholeSeconds).getD c.typicalStop
    typicalWait := (s.wait.significantMean?.map Binary.wholeSeconds).getD c.typicalWait }

def writeConnections (t : Transaction) (updated : Nat) :
    List (ConnectionKey × EdgeSamples) → Access StoreError (Transaction × Nat)
  | [] => return (t, updated)
  | (k, s) :: rest => do
    match ← Access.heldConnection? t k with
    | none => writeConnections t updated rest
    | some c =>
      if learn c s = c then writeConnections t updated rest
      else
        let t ← Access.saveConnection t (learn c s)
        writeConnections t (updated + 1) rest

/-- A transfer time without the mean stop on the line changed to, which the next edge pays for, and
never below nought. -/
def correctedSeconds (mean : Binary) (stops : List Int32) : Int32 :=
  let difference := Format.double.round (mean.sub (meanOf stops))
  if difference.lt .zero then 0 else difference.wholeSeconds

def writeTransfers (t : Transaction) (updated : Nat) :
    List (TransferKey × Tally) → Access StoreError (Transaction × Nat)
  | [] => return (t, updated)
  | (k, s) :: rest => do
    match s.significantMean? with
    | none => writeTransfers t updated rest
    | some mean =>
      match ← Access.heldTransfer? t k with
      | none => writeTransfers t updated rest
      | some x =>
        let outgoing ← Access.connectionsFrom t k.station
        let stops := (outgoing.filter fun c => c.line = k.toLine).map Connection.typicalStop
        let seconds := correctedSeconds mean stops
        if seconds = x.typical then writeTransfers t updated rest
        else
          let t ← Access.saveTransfer t { x with typical := seconds }
          writeTransfers t (updated + 1) rest

/-- Puts into a transaction what the trips teach that started within `window` before `now`. -/
def stage (now : Instant) (window : Span) : Access StoreError (Transaction × Report) := do
  let t ← Access.start
  let trips ← Access.tripsSince (.ofInstant (now.before window))
  let b ← accumulateTrips t .empty trips
  let (t, connectionsUpdated) ← writeConnections t 0 b.connections.entries
  let (t, transfersUpdated) ← writeTransfers t 0 b.transfers.entries
  return (t, { b.report with connectionsUpdated, transfersUpdated })

def run (now : Instant) (window : Span) : Access StoreError Report := do
  let (t, report) ← stage now window
  Access.commit t
  return report

def abortedMessage (e : StoreError) : String := "timing batch aborted: " ++ e.message

end Arrivals.Timing
