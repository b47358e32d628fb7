import Arrivals.Broker
import Arrivals.Position
import Arrivals.Wire.Binary
import Arrivals.Wire.Payload
import Arrivals.Wire.Text

/-! Publishing the board. The arrivals and the positions of the vehicles each go out in binary form
under two names, the live one and the staging one, and as text under the live name. -/

namespace Arrivals

structure Topics where
  live : String
  staging : String
  deriving DecidableEq, Repr, Inhabited

namespace Topics

def etas : String := "vehicle-etas"
def positions : String := "vehicle-positions"

def binary (t : Topics) (name : String) : String := t.live ++ "/binary/" ++ name
def text (t : Topics) (name : String) : String := t.live ++ "/json/" ++ name
def stagingBinary (t : Topics) (name : String) : String := t.staging ++ "/binary/" ++ name

end Topics

structure Message where
  topic : String
  payload : Bytes
  deriving DecidableEq, Repr, Inhabited

namespace Dissemination

structure Report where
  etas : Nat
  positions : Nat
  delivery : Delivery
  /-- vehicles that could not be placed -/
  failures : Nat
  deriving DecidableEq, Repr, Inhabited

def etaBatch (board : Board) (now : Instant) : Wire.EtaBatch :=
  ⟨(board.all now).map fun e => Wire.etaPayload e.1 e.2 now⟩

def placeAll (now : Instant) (source : Source) :
    List Arrival → List Wire.VehiclePosition × Nat × Source
  | [] => ([], 0, source)
  | a :: rest =>
    match source.run (a.project now) with
    | (.ok p, source) =>
      let (placed, failures, source) := placeAll now source rest
      (Wire.positionPayload p now :: placed, failures, source)
    | (.error _, source) =>
      let (placed, failures, source) := placeAll now source rest
      (placed, failures + 1, source)

def triple (t : Topics) (name : String) (binary : Bytes) (text : String) : List Message :=
  [⟨t.binary name, binary⟩, ⟨t.stagingBinary name, binary⟩, ⟨t.text name, Bytes.ofString text⟩]

def messages (t : Topics) (etas : Wire.EtaBatch) (positions : Wire.PositionBatch) : List Message :=
  triple t Topics.etas etas.encode etas.render ++
    triple t Topics.positions positions.encode positions.render

def publishAll (b : Broker) : List Message → Delivery × Broker
  | [] => (.none, b)
  | m :: rest =>
    let (first, b) := b.publish m.topic m.payload
    let (others, b) := publishAll b rest
    (first.add others, b)

def run (t : Topics) (now : Instant) (board : Board) (source : Source) (broker : Broker) :
    Report × Source × Broker :=
  let etas := etaBatch board now
  let (placed, failures, source) := placeAll now source (board.currentPositions now)
  let (delivery, broker) := publishAll broker (messages t etas ⟨placed⟩)
  (⟨etas.etas.length, placed.length, delivery, failures⟩, source, broker)

end Dissemination

end Arrivals
