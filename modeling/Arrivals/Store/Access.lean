import Arrivals.Memo
import Arrivals.Store.Transaction

/-! Calls on a store that may fail. An outage says which calls fail, and may depend on how many
were made before; a call that fails does nothing else. -/

namespace Arrivals

inductive Call where
  | station
  | stations
  | line
  | lines
  | linesServing
  | connection
  | transfer
  | credential
  | start
  | tripsSince
  | heldConnection
  | heldTransfer
  | connectionsFrom
  | saveConnection
  | saveTransfer
  | commit
  deriving DecidableEq, Repr

namespace Call

def all : List Call :=
  [.station, .stations, .line, .lines, .linesServing, .connection, .transfer, .credential, .start,
    .tripsSince, .heldConnection, .heldTransfer, .connectionsFrom, .saveConnection, .saveTransfer,
    .commit]

def name : Call → String
  | .station => "station"
  | .stations => "stations"
  | .line => "line"
  | .lines => "lines"
  | .linesServing => "lines_serving"
  | .connection => "connection"
  | .transfer => "transfer"
  | .credential => "credential"
  | .start => "begin"
  | .tripsSince => "trips_since"
  | .heldConnection => "tx_connection"
  | .heldTransfer => "tx_transfer"
  | .connectionsFrom => "connections_from"
  | .saveConnection => "save_connection"
  | .saveTransfer => "save_transfer"
  | .commit => "commit"

def ofName? (name : String) : Option Call := all.find? fun c => c.name = name

end Call

/-- The error of a call, by the number of calls before it. -/
abbrev Outage := Nat → Call → Option StoreError

namespace Outage

def never : Outage := fun _ _ => none

/-- From now on a call fails in one way, or not at all. -/
def set (o : Outage) (call : Call) (e : Option StoreError) : Outage :=
  fun n c => if c = call then e else o n c

end Outage

/-- Where queries get durations: the store and the memo before it. -/
structure Source where
  store : Store
  memo : Memo
  outage : Outage
  calls : Nat
  /-- a commit that lands, and clears the memo, while the next connection is being read -/
  overtaking : Option Connection
  deriving Inhabited

abbrev Access (ε : Type) := ExceptT ε (StateM Source)

namespace Source

def ofStore (s : Store) : Source := ⟨s, .empty, .never, 0, none⟩

def clearMemo (s : Source) : Source := { s with memo := s.memo.clear }

/-- The commit that was waiting takes place. -/
def overtake (s : Source) : Source :=
  match s.overtaking with
  | none => s
  | some c =>
    { s with store := s.store.saveConnection c, memo := s.memo.clear, overtaking := none }

end Source

namespace Access

def ask (call : Call) : Access StoreError Unit := do
  let s ← getThe Source
  set { s with calls := s.calls + 1 }
  match s.outage s.calls call with
  | some e => throw e
  | none => pure ⟨⟩

def read (call : Call) (f : Store → α) : Access StoreError α := do
  ask call
  return f (← getThe Source).store

def station? (id : StationId) : Access StoreError (Option Station) := read .station (·.station? id)

def stations : Access StoreError (List Station) := read .stations Store.stations

def line? (id : LineId) : Access StoreError (Option Line) := read .line (·.line? id)

def lines : Access StoreError (List Line) := read .lines Store.lines

def linesServing (station : StationId) : Access StoreError (List Line) :=
  read .linesServing (·.linesServing station)

def connection? (k : ConnectionKey) : Access StoreError (Option Connection) := do
  let c ← read .connection (·.connection? k)
  modifyThe Source Source.overtake
  return c

def transfer? (k : TransferKey) : Access StoreError (Option Transfer) :=
  read .transfer (·.transfer? k)

def credential? (key : String) : Access StoreError (Option Credential) :=
  read .credential (·.credential? key)

def start : Access StoreError Transaction := read .start fun _ => .empty

def tripsSince (since : Stamp) : Access StoreError (List Trip) :=
  read .tripsSince (Transaction.tripsSince · since)

def heldConnection? (t : Transaction) (k : ConnectionKey) : Access StoreError (Option Connection) :=
  read .heldConnection (t.connection? · k)

def heldTransfer? (t : Transaction) (k : TransferKey) : Access StoreError (Option Transfer) :=
  read .heldTransfer (t.transfer? · k)

def connectionsFrom (t : Transaction) (station : StationId) :
    Access StoreError (List Connection) :=
  read .connectionsFrom (t.connectionsFrom · station)

def saveConnection (t : Transaction) (c : Connection) : Access StoreError Transaction :=
  read .saveConnection fun _ => t.saveConnection c

def saveTransfer (t : Transaction) (x : Transfer) : Access StoreError Transaction :=
  read .saveTransfer fun _ => t.saveTransfer x

def commit (t : Transaction) : Access StoreError Unit := do
  ask .commit
  modifyThe Source fun s => { s with store := t.commit s.store }

def travelSeconds (k : ConnectionKey) : Access StoreError (Option Int) := do
  let memo := (← getThe Source).memo
  match memo.get? k with
  | some seconds => return some seconds
  | none =>
    match ← connection? k with
    | none => return none
    | some c =>
      modifyThe Source fun s =>
        { s with memo := s.memo.remember memo.generation k c.travelSeconds }
      return some c.travelSeconds

end Access

/-- What a computation answers and leaves behind. -/
def Source.run (s : Source) (x : Access ε α) : Except ε α × Source := StateT.run (ExceptT.run x) s

end Arrivals
