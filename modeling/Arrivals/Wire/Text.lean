import Arrivals.Json.Basic
import Arrivals.Json.Decoder
import Arrivals.Wire.Message

/-! Messages as JSON text. Enumerations are written by name, or by number where it names no case;
they are read by name alone. -/

namespace Arrivals.Wire

open Json

namespace Kind

def names : List (String × Int32) := all.map fun k => (k.name, k.code)

def toJson (n : Int32) : Json :=
  match ofCode? n with
  | some k => .str k.name
  | none => .int n.toInt

def ofDraft : Draft → Except Fault Int32 := Draft.oneOf names

end Kind

namespace Units

def names : List (String × Int32) := all.map fun u => (u.name, u.code)

def toJson (n : Int32) : Json :=
  match ofCode? n with
  | some u => .str u.name
  | none => .int n.toInt

def ofDraft : Draft → Except Fault Int32 := Draft.oneOf names

end Units

namespace Interval

def toJson (i : Interval) : Json := .obj [("lower", .int i.lower.toInt), ("upper", .int i.upper.toInt)]

def layout : List FieldSpec := [.required "lower" Draft.int64, .required "upper" Draft.int64]

def ofDraft (d : Draft) : Except Fault Interval := do
  let r ← Record.read layout d
  let lower ← r.get "lower" Draft.int64
  let upper ← r.get "upper" Draft.int64
  pure ⟨lower, upper⟩

end Interval

namespace Value

def toJson : Value → Json
  | .single n => .obj [("single", .int n.toInt)]
  | .interval i => .obj [("interval", i.toJson)]

def ofTagged (name : String) (content : Draft) : Except Fault Value :=
  if name = "single" then content.int64.map .single
  else if name = "interval" then (Interval.ofDraft content).map .interval
  else .error .unfit

def ofDraft : Draft → Except Fault Value := Draft.choice (fun _ => .error .unfit) ofTagged

end Value

namespace VehicleEta

def toJson (m : VehicleEta) : Json :=
  .obj [("station", .str m.station), ("direction", .str m.direction), ("rank", .int m.rank.toNat),
    ("computed", .int m.computed.toInt), ("validity", .int m.validity.toNat),
    ("kind", Kind.toJson m.kind), ("units", Units.toJson m.units),
    ("value", .ofOption Value.toJson m.value), ("vehicle", .str m.vehicle),
    ("cars", .int m.cars.toNat), ("platform", .ofOption .str m.platform)]

def layout : List FieldSpec :=
  [.required "station" Draft.text, .required "direction" Draft.text,
    .required "rank" Draft.uint32, .required "computed" Draft.int64,
    .required "validity" Draft.uint32, .required "kind" Kind.ofDraft,
    .required "units" Units.ofDraft, .optional "value" Value.ofDraft,
    .required "vehicle" Draft.text, .required "cars" Draft.uint32,
    .optional "platform" Draft.text]

def ofDraft (d : Draft) : Except Fault VehicleEta := do
  let r ← Record.read layout d
  let station ← r.get "station" Draft.text
  let direction ← r.get "direction" Draft.text
  let rank ← r.get "rank" Draft.uint32
  let computed ← r.get "computed" Draft.int64
  let validity ← r.get "validity" Draft.uint32
  let kind ← r.get "kind" Kind.ofDraft
  let units ← r.get "units" Units.ofDraft
  let value ← r.getOptional "value" Value.ofDraft
  let vehicle ← r.get "vehicle" Draft.text
  let cars ← r.get "cars" Draft.uint32
  let platform ← r.getOptional "platform" Draft.text
  pure ⟨station, direction, rank, computed, validity, kind, units, value, vehicle, cars, platform⟩

def render (m : VehicleEta) : String := m.toJson.render

def parse (text : String) : Except Fault VehicleEta := Json.decode ofDraft text

end VehicleEta

namespace VehiclePosition

def toJson (m : VehiclePosition) : Json :=
  .obj [("vehicle", .str m.vehicle), ("line", .str m.line), ("cars", .int m.cars.toNat),
    ("previousStation", .ofOption .str m.previousStation), ("nextStation", .str m.nextStation),
    ("direction", .str m.direction), ("platform", .ofOption .str m.platform),
    ("percent", .real m.percent), ("computed", .int m.computed.toInt),
    ("validity", .int m.validity.toNat)]

def layout : List FieldSpec :=
  [.required "vehicle" Draft.text, .required "line" Draft.text, .required "cars" Draft.uint32,
    .optional "previousStation" Draft.text, .required "nextStation" Draft.text,
    .required "direction" Draft.text, .optional "platform" Draft.text,
    .required "percent" Draft.single, .required "computed" Draft.int64,
    .required "validity" Draft.uint32]

def ofDraft (d : Draft) : Except Fault VehiclePosition := do
  let r ← Record.read layout d
  let vehicle ← r.get "vehicle" Draft.text
  let line ← r.get "line" Draft.text
  let cars ← r.get "cars" Draft.uint32
  let previousStation ← r.getOptional "previousStation" Draft.text
  let nextStation ← r.get "nextStation" Draft.text
  let direction ← r.get "direction" Draft.text
  let platform ← r.getOptional "platform" Draft.text
  let percent ← r.get "percent" Draft.single
  let computed ← r.get "computed" Draft.int64
  let validity ← r.get "validity" Draft.uint32
  pure ⟨vehicle, line, cars, previousStation, nextStation, direction, platform, percent, computed,
    validity⟩

def render (m : VehiclePosition) : String := m.toJson.render

def parse (text : String) : Except Fault VehiclePosition := Json.decode ofDraft text

end VehiclePosition

namespace EtaBatch

def toJson (m : EtaBatch) : Json := .obj [("etas", .arr (m.etas.map VehicleEta.toJson))]

def layout : List FieldSpec := [.required "etas" (Draft.list VehicleEta.ofDraft)]

def ofDraft (d : Draft) : Except Fault EtaBatch := do
  let r ← Record.read layout d
  let etas ← r.get "etas" (Draft.list VehicleEta.ofDraft)
  pure ⟨etas⟩

def render (m : EtaBatch) : String := m.toJson.render

def parse (text : String) : Except Fault EtaBatch := Json.decode ofDraft text

end EtaBatch

namespace PositionBatch

def toJson (m : PositionBatch) : Json :=
  .obj [("positions", .arr (m.positions.map VehiclePosition.toJson))]

def layout : List FieldSpec := [.required "positions" (Draft.list VehiclePosition.ofDraft)]

def ofDraft (d : Draft) : Except Fault PositionBatch := do
  let r ← Record.read layout d
  let positions ← r.get "positions" (Draft.list VehiclePosition.ofDraft)
  pure ⟨positions⟩

def render (m : PositionBatch) : String := m.toJson.render

def parse (text : String) : Except Fault PositionBatch := Json.decode ofDraft text

end PositionBatch

namespace SignalReport

def toJson (m : SignalReport) : Json :=
  .obj [("user", .str m.user), ("station", .str m.station), ("direction", .str m.direction),
    ("lines", .arr (m.lines.map .str)), ("justEntered", .bool m.justEntered)]

def layout : List FieldSpec :=
  [.required "user" Draft.text, .required "station" Draft.text, .required "direction" Draft.text,
    .defaulted "lines" (Draft.list Draft.text), .defaulted "justEntered" Draft.boolean]

def ofDraft (d : Draft) : Except Fault SignalReport := do
  let r ← Record.read layout d
  let user ← r.get "user" Draft.text
  let station ← r.get "station" Draft.text
  let direction ← r.get "direction" Draft.text
  let lines ← r.getD "lines" (Draft.list Draft.text) []
  let justEntered ← r.getD "justEntered" Draft.boolean false
  pure ⟨user, station, direction, lines, justEntered⟩

def render (m : SignalReport) : String := m.toJson.render

def parse (text : String) : Except Fault SignalReport := Json.decode ofDraft text

end SignalReport

namespace ActivityCount

def toJson (m : ActivityCount) : Json :=
  .obj [("id", .str m.id), ("riders", .int m.riders.toNat)]

def layout : List FieldSpec := [.required "id" Draft.text, .required "riders" Draft.uint64]

def ofDraft (d : Draft) : Except Fault ActivityCount := do
  let r ← Record.read layout d
  let id ← r.get "id" Draft.text
  let riders ← r.get "riders" Draft.uint64
  pure ⟨id, riders⟩

def render (m : ActivityCount) : String := m.toJson.render

def parse (text : String) : Except Fault ActivityCount := Json.decode ofDraft text

end ActivityCount

end Arrivals.Wire
