import Arrivals.Dissemination
import Arrivals.Forecast
import Arrivals.Session
import Arrivals.Signal
import Arrivals.Timing.Batch

/-! The whole service at one moment: the store and all that is kept about vehicles, riders and
subscribers, with what can be asked of it. -/

namespace Arrivals

structure Settings where
  limits : ActivityLimits
  validity : Span
  hashingKey : Bytes
  topics : Topics
  deriving DecidableEq, Repr, Inhabited

structure Service where
  settings : Settings
  now : Instant
  source : Source
  reports : Signal.Reports
  board : Board
  broker : Broker
  deriving Inhabited

namespace Service

def start (settings : Settings) (now : Instant) (store : Store) : Service :=
  ⟨settings, now, .ofStore store, ⟨.empty, .empty⟩, .empty, .empty⟩

def presence (s : Service) : Presence := s.reports.presence
def activity (s : Service) : Activity := s.reports.activity
def store (s : Service) : Store := s.source.store
def memo (s : Service) : Memo := s.source.memo

def withStore (s : Service) (store : Store) : Service := { s with source.store := store }

def clearMemo (s : Service) : Service := { s with source := s.source.clearMemo }

def ask (s : Service) (x : Access ε α) : Except ε α × Service :=
  let (answer, source) := s.source.run x
  (answer, { s with source })

def observe (s : Service) (sight : Sight) (time : Instant) : Service :=
  { s with reports.presence := s.presence.register sight time }

def predict (s : Service) (q : Sight) : Except PredictionError Prediction × Service :=
  s.ask (Arrivals.predict s.presence s.now q.station q.direction)

def project (s : Service) (a : Arrival) (now : Instant) :
    Except PredictionError Position × Service :=
  s.ask (a.project now)

def forecast (s : Service) : Except StoreError Forecast.Report × Service :=
  let o := Forecast.pass s.presence s.now s.settings.validity s.source s.board s.activity
  (o.result, { s with source := o.source, board := o.board, reports.activity := o.activity })

def learn (s : Service) (window : Span) : Except StoreError Timing.Report × Service :=
  s.ask (Timing.run s.now window)

def setArrival (s : Service) (slot : Slot) (a : Arrival) : Service :=
  { s with board := s.board.set s.now slot a }

def nextArrivals (s : Service) (station direction : StationId) (count : Nat) :
    List Arrival × Service :=
  (s.board.next s.now station direction count,
    { s with board := s.board.touch s.now station direction count })

def sweepBoard (s : Service) : Nat × Service :=
  (s.board.expiredCount s.now, { s with board := s.board.sweep s.now })

def registerActivity (s : Service) (lines : List Line) (user : UserId) (justEntered : Bool) :
    Except Refusal Unit × Service :=
  match s.activity.register s.settings.limits s.now lines user justEntered with
  | .ok activity => (.ok ⟨⟩, { s with reports.activity := activity })
  | .error r => (.error r, s)

def countLine (s : Service) (line : LineId) : Nat :=
  s.activity.countLine s.settings.limits s.now line

def countNetwork (s : Service) (network : NetworkId) : Nat :=
  s.activity.countNetwork s.settings.limits s.now network

def sweepActivity (s : Service) : Nat × Service :=
  let swept := s.activity.sweep s.now
  (s.activity.tracked - swept.tracked, { s with reports.activity := swept })

def signal (s : Service) (x : Signal) : Except SignalError Unit × Service :=
  match s.ask (x.report s.settings.limits s.now s.reports) with
  | (.ok reports, s) => (.ok ⟨⟩, { s with reports })
  | (.error e, s) => (.error e, s)

def disseminate (s : Service) : Dissemination.Report × Service :=
  let (report, source, broker) :=
    Dissemination.run s.settings.topics s.now s.board s.source s.broker
  (report, { s with source, broker })

def verify (s : Service) (username : String) (password : Bytes) :
    Except StoreError Bool × Service :=
  s.ask (Secret.verify s.settings.hashingKey username password)

def handleAll (s : Service) (session : Session) (packets : List Mqtt.Packet) :
    List Outcome × Session × Service :=
  let (outcomes, session, broker, source) :=
    session.handleAll s.settings.hashingKey s.broker s.source packets
  (outcomes, session, { s with broker, source })

def closeSession (s : Service) (session : Session) : Session × Service :=
  let (session, broker) := session.close s.broker
  (session, { s with broker })

end Service

end Arrivals
