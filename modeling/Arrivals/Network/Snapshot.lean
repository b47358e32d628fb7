import Arrivals.Json.Basic
import Arrivals.Json.Decoder
import Arrivals.Network.Edge
import Arrivals.Network.Trip

/-! A whole network with its history as JSON text. Each record is written with all its fields in
order; durations, car counts, line tags and the later lists may be left out when read. -/

namespace Arrivals

structure Snapshot where
  stations : List Station
  lines : List Line
  connections : List Connection
  transfers : List Transfer
  trips : List Trip
  credentials : List Credential
  deriving Inhabited

open Json

namespace Stamp

def toJson (t : Stamp) : Json := .str (String.ofList t.render)

def ofDraft (d : Draft) : Except Fault Stamp := do
  let s ← d.text
  match parse? s.toList with
  | some t => pure t
  | none => .error .unfit

end Stamp

namespace Station

def toJson (s : Station) : Json :=
  .obj [("id", .str s.id), ("name", .str s.name), ("network", .str s.network)]

def layout : List FieldSpec :=
  [.required "id" Draft.text, .required "name" Draft.text, .required "network" Draft.text]

def ofDraft (d : Draft) : Except Fault Station := do
  let r ← Record.read layout d
  let id ← r.get "id" Draft.text
  let name ← r.get "name" Draft.text
  let network ← r.get "network" Draft.text
  pure ⟨id, name, network⟩

end Station

namespace Line

def toJson (l : Line) : Json :=
  .obj [("id", .str l.id), ("name", .str l.name), ("network", .str l.network),
    ("stations", .arr (l.stations.map .str)), ("typical_cars", .int l.typicalCars.toNat)]

def layout : List FieldSpec :=
  [.required "id" Draft.text, .required "name" Draft.text, .required "network" Draft.text,
    .required "stations" (Draft.list Draft.text), .defaulted "typical_cars" Draft.uint32]

def ofDraft (d : Draft) : Except Fault Line := do
  let r ← Record.read layout d
  let id ← r.get "id" Draft.text
  let name ← r.get "name" Draft.text
  let network ← r.get "network" Draft.text
  let stations ← r.get "stations" (Draft.list Draft.text)
  let typicalCars ← r.getD "typical_cars" Draft.uint32 0
  pure ⟨id, name, network, stations, typicalCars⟩

end Line

def ConnectionKey.toJson (k : ConnectionKey) : Json :=
  .obj [("from", .str k.origin), ("to", .str k.destination)]

namespace Connection

def toJson (c : Connection) : Json :=
  .obj [("from", .str c.origin), ("to", .str c.destination), ("line", .str c.line),
    ("typical_seconds", .int c.typical.toInt), ("typical_stop_seconds", .int c.typicalStop.toInt),
    ("typical_waiting_seconds", .int c.typicalWait.toInt)]

def layout : List FieldSpec :=
  [.required "from" Draft.text, .required "to" Draft.text, .required "line" Draft.text,
    .defaulted "typical_seconds" Draft.int32, .defaulted "typical_stop_seconds" Draft.int32,
    .defaulted "typical_waiting_seconds" Draft.int32]

def ofDraft (d : Draft) : Except Fault Connection := do
  let r ← Record.read layout d
  let origin ← r.get "from" Draft.text
  let destination ← r.get "to" Draft.text
  let line ← r.get "line" Draft.text
  let typical ← r.getD "typical_seconds" Draft.int32 0
  let typicalStop ← r.getD "typical_stop_seconds" Draft.int32 0
  let typicalWait ← r.getD "typical_waiting_seconds" Draft.int32 0
  pure ⟨origin, destination, line, typical, typicalStop, typicalWait⟩

end Connection

namespace Transfer

def toJson (t : Transfer) : Json :=
  .obj [("station", .str t.station), ("from_line", .str t.fromLine), ("to_line", .str t.toLine),
    ("typical_seconds", .int t.typical.toInt)]

def layout : List FieldSpec :=
  [.required "station" Draft.text, .required "from_line" Draft.text,
    .required "to_line" Draft.text, .defaulted "typical_seconds" Draft.int32]

def ofDraft (d : Draft) : Except Fault Transfer := do
  let r ← Record.read layout d
  let station ← r.get "station" Draft.text
  let fromLine ← r.get "from_line" Draft.text
  let toLine ← r.get "to_line" Draft.text
  let typical ← r.getD "typical_seconds" Draft.int32 0
  pure ⟨station, fromLine, toLine, typical⟩

end Transfer

namespace UseType

def names : List (String × UseType) :=
  [("network-entry", .networkEntry), ("interchange", .interchange),
    ("gone-through", .goneThrough), ("visit", .visit)]

def name : UseType → String
  | .networkEntry => "network-entry"
  | .interchange => "interchange"
  | .goneThrough => "gone-through"
  | .visit => "visit"

def ofDraft : Draft → Except Fault UseType := Draft.oneOf names

theorem lookup_name (u : UseType) : names.lookup u.name = some u := by cases u <;> decide

end UseType

namespace StationUse

def toJson (u : StationUse) : Json :=
  .obj [("station", .str u.station), ("entry_time", u.entry.toJson),
    ("leave_time", u.leave.toJson), ("use_type", .str u.useType.name), ("manual", .bool u.manual),
    ("source_line", .ofOption .str u.sourceLine), ("target_line", .ofOption .str u.targetLine)]

def optionalText (d : Draft) : Except Fault (Option String) := d.optional Draft.text

def layout : List FieldSpec :=
  [.required "station" Draft.text, .required "entry_time" Stamp.ofDraft,
    .required "leave_time" Stamp.ofDraft, .required "use_type" UseType.ofDraft,
    .defaulted "manual" Draft.boolean, .defaulted "source_line" optionalText,
    .defaulted "target_line" optionalText]

def ofDraft (d : Draft) : Except Fault StationUse := do
  let r ← Record.read layout d
  let station ← r.get "station" Draft.text
  let entry ← r.get "entry_time" Stamp.ofDraft
  let leave ← r.get "leave_time" Stamp.ofDraft
  let useType ← r.get "use_type" UseType.ofDraft
  let manual ← r.getD "manual" Draft.boolean false
  let sourceLine ← r.getD "source_line" optionalText none
  let targetLine ← r.getD "target_line" optionalText none
  pure ⟨station, entry, leave, useType, manual, sourceLine, targetLine⟩

end StationUse

namespace Trip

def toJson (t : Trip) : Json :=
  .obj [("id", .str t.id), ("start_time", t.start.toJson),
    ("station_uses", .arr (t.uses.map StationUse.toJson))]

def layout : List FieldSpec :=
  [.required "id" Draft.text, .required "start_time" Stamp.ofDraft,
    .required "station_uses" (Draft.list StationUse.ofDraft)]

def ofDraft (d : Draft) : Except Fault Trip := do
  let r ← Record.read layout d
  let id ← r.get "id" Draft.text
  let start ← r.get "start_time" Stamp.ofDraft
  let uses ← r.get "station_uses" (Draft.list StationUse.ofDraft)
  pure ⟨id, start, uses⟩

end Trip

namespace Credential

def toJson (c : Credential) : Json :=
  .obj [("key", .str c.key), ("secret_hash", .str c.secretHash)]

def layout : List FieldSpec := [.required "key" Draft.text, .required "secret_hash" Draft.text]

def ofDraft (d : Draft) : Except Fault Credential := do
  let r ← Record.read layout d
  let key ← r.get "key" Draft.text
  let secretHash ← r.get "secret_hash" Draft.text
  pure ⟨key, secretHash⟩

end Credential

namespace Snapshot

def empty : Snapshot := ⟨[], [], [], [], [], []⟩

def toJson (s : Snapshot) : Json :=
  .obj [("stations", .arr (s.stations.map Station.toJson)),
    ("lines", .arr (s.lines.map Line.toJson)),
    ("connections", .arr (s.connections.map Connection.toJson)),
    ("transfers", .arr (s.transfers.map Transfer.toJson)),
    ("trips", .arr (s.trips.map Trip.toJson)),
    ("credentials", .arr (s.credentials.map Credential.toJson))]

def layout : List FieldSpec :=
  [.required "stations" (Draft.list Station.ofDraft), .required "lines" (Draft.list Line.ofDraft),
    .required "connections" (Draft.list Connection.ofDraft),
    .defaulted "transfers" (Draft.list Transfer.ofDraft),
    .defaulted "trips" (Draft.list Trip.ofDraft),
    .defaulted "credentials" (Draft.list Credential.ofDraft)]

def ofDraft (d : Draft) : Except Fault Snapshot := do
  let r ← Record.read layout d
  let stations ← r.get "stations" (Draft.list Station.ofDraft)
  let lines ← r.get "lines" (Draft.list Line.ofDraft)
  let connections ← r.get "connections" (Draft.list Connection.ofDraft)
  let transfers ← r.getD "transfers" (Draft.list Transfer.ofDraft) []
  let trips ← r.getD "trips" (Draft.list Trip.ofDraft) []
  let credentials ← r.getD "credentials" (Draft.list Credential.ofDraft) []
  pure ⟨stations, lines, connections, transfers, trips, credentials⟩

def render (s : Snapshot) : String := s.toJson.render

def parse (text : String) : Except Fault Snapshot := decode ofDraft text

end Snapshot

end Arrivals
