import Arrivals.Activity
import Arrivals.Board
import Arrivals.Hash.Xxh64
import Arrivals.Prediction.Basic

/-! The pass that fills the board: every stop of every line is predicted in both directions.
Predictions that go back to one observation describe one vehicle, so its id is made from that. -/

namespace Arrivals

namespace VehicleId

def seed : UInt64 := 0x6c696e65

/-- No text has this byte. -/
def separated (s : String) : Bytes := Bytes.ofString s ++ [0xff]

def observationBytes (line : LineId) (station direction : StationId) (seenAt : Instant) : Bytes :=
  separated line ++ separated station ++ separated direction ++
    Bytes.littleEndian 8 (seenAt.unixSeconds % 18446744073709551616).toNat

def ofObservation (line : LineId) (station direction : StationId) (seenAt : Instant) : VehicleId :=
  let h := Xxh64.hash seed (observationBytes line station direction seenAt)
  line ++ "-" ++ String.ofList (Text.paddedHex 16 h.toNat)

end VehicleId

namespace Prediction

def vehicle (p : Prediction) : VehicleId :=
  VehicleId.ofObservation p.line.id p.located.station p.locatedDirection p.seenAt

def arrival (p : Prediction) (now : Instant) (validity : Span) : Arrival :=
  ⟨p.vehicle, p.line.id, p.station, p.direction, now, validity, p.line.typicalCars, none,
    .exact p.etaSeconds, .seconds⟩

end Prediction

namespace Forecast

structure Report where
  predictions : Nat
  /-- stops without a usable prediction -/
  softFailures : Nat
  expiredArrivals : Nat
  droppedIds : Nat
  deriving DecidableEq, Repr, Inhabited

def queries (l : Line) : List Sight :=
  let terminals := l.first?.toList ++ l.last?.toList
  l.stations.flatMap fun s => terminals.map fun d => ⟨s, d⟩

structure Progress where
  source : Source
  board : Board
  predictions : Nat
  softFailures : Nat
  deriving Inhabited

/-- Only a failing store ends the pass early; what has been predicted by then stays. -/
def predictAll (presence : Presence) (now : Instant) (validity : Span) (p : Progress) :
    List Sight → Option StoreError × Progress
  | [] => (none, p)
  | q :: rest =>
    match p.source.run (predict presence now q.station q.direction) with
    | (.ok found, source) =>
      let slot : Slot := ⟨q.station, q.direction, 1⟩
      predictAll presence now validity
        { p with
          source
          board := p.board.set now slot (found.arrival now validity)
          predictions := p.predictions + 1 } rest
    | (.error (.store e), source) => (some e, { p with source })
    | (.error _, source) =>
      predictAll presence now validity { p with source, softFailures := p.softFailures + 1 } rest

structure Outcome where
  result : Except StoreError Report
  source : Source
  board : Board
  activity : Activity

def pass (presence : Presence) (now : Instant) (validity : Span) (source : Source) (board : Board)
    (activity : Activity) : Outcome :=
  match source.run Access.lines with
  | (.error e, source) => ⟨.error e, source, board, activity⟩
  | (.ok lines, source) =>
    match predictAll presence now validity ⟨source, board, 0, 0⟩ (lines.flatMap queries) with
    | (some e, p) => ⟨.error e, p.source, p.board, activity⟩
    | (none, p) =>
      let swept := activity.sweep now
      ⟨.ok ⟨p.predictions, p.softFailures, p.board.expiredCount now,
          activity.tracked - swept.tracked⟩,
        p.source, p.board.sweep now, swept⟩

end Forecast

end Arrivals
