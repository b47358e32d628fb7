import Arrivals.Store.Basic

/-! Transactions: writes that are held back until they are committed together. Main statement:
what a transaction has saved it reads, whatever the store holds. -/

namespace Arrivals

structure Transaction where
  connections : Table ConnectionKey Connection
  transfers : Table TransferKey Transfer
  filedConnections : connections.FiledBy Connection.key
  filedTransfers : transfers.FiledBy Transfer.key

namespace Transaction

def empty : Transaction := ⟨.empty, .empty, Table.filedBy_empty _, Table.filedBy_empty _⟩

instance : Inhabited Transaction := ⟨empty⟩

def connection? (t : Transaction) (s : Store) (k : ConnectionKey) : Option Connection :=
  (t.connections.get? k).or (s.connection? k)

def transfer? (t : Transaction) (s : Store) (k : TransferKey) : Option Transfer :=
  (t.transfers.get? k).or (s.transfer? k)

/-- The connections that leave a station in the store, as this transaction has them. -/
def connectionsFrom (t : Transaction) (s : Store) (station : StationId) : List Connection :=
  (s.connections.values.filter fun c => c.origin = station).map fun c =>
    (t.connections.get? c.key).getD c

def tripsSince (s : Store) (since : Stamp) : List Trip :=
  s.trips.dropWhile fun t => t.start.earlier since

def saveConnection (t : Transaction) (c : Connection) : Transaction :=
  { t with
    connections := t.connections.insert c.key c
    filedConnections := t.filedConnections.insert c }

def saveTransfer (t : Transaction) (x : Transfer) : Transaction :=
  { t with
    transfers := t.transfers.insert x.key x
    filedTransfers := t.filedTransfers.insert x }

def commit (t : Transaction) (s : Store) : Store :=
  { s with
    connections := s.connections.insertAll t.connections.entries
    transfers := s.transfers.insertAll t.transfers.entries
    filedConnections := s.filedConnections.insertAll t.filedConnections
    filedTransfers := s.filedTransfers.insertAll t.filedTransfers }

theorem key_of_connection? {t : Transaction} {s : Store} {k : ConnectionKey} {c : Connection}
    (h : t.connection? s k = some c) : c.key = k := by
  rcases Option.or_eq_some_iff.mp h with h | ⟨_, h⟩
  · exact t.filedConnections.key_eq h
  · exact Store.key_of_connection? h

theorem key_of_transfer? {t : Transaction} {s : Store} {k : TransferKey} {x : Transfer}
    (h : t.transfer? s k = some x) : x.key = k := by
  rcases Option.or_eq_some_iff.mp h with h | ⟨_, h⟩
  · exact t.filedTransfers.key_eq h
  · exact Store.key_of_transfer? h

@[simp] theorem connection?_saveConnection (t : Transaction) (s : Store) (c : Connection)
    (k : ConnectionKey) :
    (t.saveConnection c).connection? s k = if c.key = k then some c else t.connection? s k := by
  by_cases h : c.key = k <;> simp [connection?, saveConnection, h]

@[simp] theorem transfer?_saveTransfer (t : Transaction) (s : Store) (x : Transfer)
    (k : TransferKey) :
    (t.saveTransfer x).transfer? s k = if x.key = k then some x else t.transfer? s k := by
  by_cases h : x.key = k <;> simp [transfer?, saveTransfer, h]

@[simp] theorem connection?_empty (s : Store) (k : ConnectionKey) :
    empty.connection? s k = s.connection? k := rfl

@[simp] theorem transfer?_empty (s : Store) (k : TransferKey) :
    empty.transfer? s k = s.transfer? k := rfl

/-- A commit shows everyone what the transaction alone saw. -/
@[simp] theorem connection?_commit (t : Transaction) (s : Store) (k : ConnectionKey) :
    (t.commit s).connection? k = t.connection? s k :=
  Table.get?_insertAll s.connections t.connections.distinct k

@[simp] theorem transfer?_commit (t : Transaction) (s : Store) (k : TransferKey) :
    (t.commit s).transfer? k = t.transfer? s k :=
  Table.get?_insertAll s.transfers t.transfers.distinct k

end Transaction

end Arrivals
