import Arrivals.Network.Snapshot
import Arrivals.Table

/-! The store: the network, which does not change, with the learned durations and the trips, which
do. Trips are kept by start, and those of one start in the order of their coming. -/

namespace Arrivals

inductive StoreError where
  | stationNotFound (id : String)
  | lineNotFound (id : String)
  | invalidData (detail : String)
  | storage (detail : String)
  deriving DecidableEq, Repr

namespace StoreError

def message : StoreError → String
  | .stationNotFound id => "Station not found: " ++ id
  | .lineNotFound id => "Line not found: " ++ id
  | .invalidData detail => "Invalid data: " ++ detail
  | .storage detail => "Storage error: " ++ detail

def name : StoreError → String
  | .stationNotFound _ => "StationNotFound"
  | .lineNotFound _ => "LineNotFound"
  | .invalidData _ => "InvalidData"
  | .storage _ => "Storage"

def ofName? (name detail : String) : Option StoreError :=
  [.stationNotFound detail, .lineNotFound detail, .invalidData detail, .storage detail].find?
    fun e => e.name = name

end StoreError

namespace Trip

def startsNoLater (a b : Trip) : Bool := !b.start.earlier a.start

theorem startsNoLater_iff {a b : Trip} :
    a.startsNoLater b = true ↔
      a.start.second < b.start.second ∨
        a.start.second = b.start.second ∧ a.start.nano ≤ b.start.nano := by
  rw [startsNoLater, Bool.not_eq_true', ← Bool.not_eq_true, Stamp.earlier_iff]
  omega

theorem startsNoLater_trans (a b c : Trip) (hab : a.startsNoLater b = true)
    (hbc : b.startsNoLater c = true) : a.startsNoLater c = true := by
  rw [startsNoLater_iff] at *
  omega

theorem startsNoLater_total (a b : Trip) : (a.startsNoLater b || b.startsNoLater a) = true := by
  rw [Bool.or_eq_true, startsNoLater_iff, startsNoLater_iff]
  omega

end Trip

structure Store where
  stations : List Station
  lines : List Line
  connections : Table ConnectionKey Connection
  transfers : Table TransferKey Transfer
  trips : List Trip
  credentials : Table String Credential
  filedConnections : connections.FiledBy Connection.key
  filedTransfers : transfers.FiledBy Transfer.key
  ordered : trips.Pairwise fun a b => a.startsNoLater b = true

namespace Store

/-- Of two records with one key the later counts. -/
def ofSnapshot (s : Snapshot) : Store where
  stations := s.stations
  lines := s.lines
  connections := .ofList (s.connections.map fun c => (c.key, c))
  transfers := .ofList (s.transfers.map fun t => (t.key, t))
  trips := s.trips.mergeSort Trip.startsNoLater
  credentials := .ofList (s.credentials.map fun c => (c.key, c))
  filedConnections := (Table.filedBy_empty _).insertAll (by simp)
  filedTransfers := (Table.filedBy_empty _).insertAll (by simp)
  ordered := List.pairwise_mergeSort Trip.startsNoLater_trans Trip.startsNoLater_total _

instance : Inhabited Store := ⟨.ofSnapshot .empty⟩

def station? (s : Store) (id : StationId) : Option Station :=
  s.stations.reverse.find? fun st => st.id = id

def line? (s : Store) (id : LineId) : Option Line := s.lines.reverse.find? fun l => l.id = id

/-- A line comes once for every stop it makes at the station. -/
def linesServing (s : Store) (station : StationId) : List Line :=
  s.lines.flatMap fun l => (l.stations.filter fun t => t = station).map fun _ => l

def connection? (s : Store) (k : ConnectionKey) : Option Connection := s.connections.get? k

def cost? (s : Store) (k : ConnectionKey) : Option Int :=
  (s.connection? k).map Connection.travelSeconds

def transfer? (s : Store) (k : TransferKey) : Option Transfer := s.transfers.get? k

def credential? (s : Store) (key : String) : Option Credential := s.credentials.get? key

/-- Behind all trips that start no later. -/
def insertTrip (t : Trip) (trips : List Trip) : List Trip :=
  trips.takeWhile (·.startsNoLater t) ++ t :: trips.dropWhile (·.startsNoLater t)

theorem insertTrip_cons (t u : Trip) (trips : List Trip) :
    insertTrip t (u :: trips) =
      if u.startsNoLater t then u :: insertTrip t trips else t :: u :: trips := by
  by_cases h : u.startsNoLater t = true <;> simp [insertTrip, h]

theorem mem_insertTrip {t u : Trip} {trips : List Trip} :
    u ∈ insertTrip t trips ↔ u = t ∨ u ∈ trips := by
  induction trips with
  | nil => simp [insertTrip]
  | cons v rest ih =>
    rw [insertTrip_cons]
    split
    · rw [List.mem_cons, ih, List.mem_cons, or_left_comm]
    · rw [List.mem_cons]

theorem pairwise_insertTrip {t : Trip} {trips : List Trip}
    (h : trips.Pairwise fun a b => a.startsNoLater b = true) :
    (insertTrip t trips).Pairwise fun a b => a.startsNoLater b = true := by
  induction trips with
  | nil => simp [insertTrip]
  | cons u rest ih =>
    rw [List.pairwise_cons] at h
    rw [insertTrip_cons]
    split
    next hu =>
      refine List.pairwise_cons.mpr ⟨fun v hv => ?_, ih h.2⟩
      rcases mem_insertTrip.mp hv with rfl | hv
      · exact hu
      · exact h.1 v hv
    next hu =>
      have ht : t.startsNoLater u = true := by simpa [hu] using Trip.startsNoLater_total u t
      refine List.pairwise_cons.mpr ⟨fun v hv => ?_, List.pairwise_cons.mpr h⟩
      rcases List.mem_cons.mp hv with rfl | hv
      · exact ht
      · exact Trip.startsNoLater_trans t u v ht (h.1 v hv)

def recordTrip (s : Store) (t : Trip) : Store :=
  { s with trips := insertTrip t s.trips, ordered := pairwise_insertTrip s.ordered }

def saveConnection (s : Store) (c : Connection) : Store :=
  { s with
    connections := s.connections.insert c.key c
    filedConnections := s.filedConnections.insert c }

theorem key_of_connection? {s : Store} {k : ConnectionKey} {c : Connection}
    (h : s.connection? k = some c) : c.key = k :=
  s.filedConnections.key_eq h

theorem key_of_transfer? {s : Store} {k : TransferKey} {x : Transfer}
    (h : s.transfer? k = some x) : x.key = k :=
  s.filedTransfers.key_eq h

@[simp] theorem connection?_saveConnection (s : Store) (c : Connection) (k : ConnectionKey) :
    (s.saveConnection c).connection? k = if c.key = k then some c else s.connection? k := by
  simp [saveConnection, connection?]

end Store

end Arrivals
