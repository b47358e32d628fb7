import Arrivals.Broker
import Arrivals.Mqtt.Decode
import Arrivals.Secret

/-! The course of one client's session. Only a connect packet with a valid secret opens it; clients
may subscribe but not publish, and whatever breaks the protocol closes it for good. -/

namespace Arrivals

open Mqtt

inductive SessionState where
  | unauthenticated
  | authenticated
  | subscribed
  | closed
  deriving DecidableEq, Repr, Inhabited

def SessionState.name : SessionState → String
  | .unauthenticated => "Unauthenticated"
  | .authenticated => "Authenticated"
  | .subscribed => "Subscribed"
  | .closed => "Closed"

inductive CloseReason where
  | clientDisconnect
  | clientPublish
  | badCredentials
  | unsupportedProtocol
  | credentialStoreUnavailable
  | notConnected
  | duplicateConnect
  | unexpectedPacket
  | protocolViolation
  deriving DecidableEq, Repr

def CloseReason.name : CloseReason → String
  | .clientDisconnect => "client_disconnect"
  | .clientPublish => "client_publish"
  | .badCredentials => "bad_credentials"
  | .unsupportedProtocol => "unsupported_protocol"
  | .credentialStoreUnavailable => "credential_store_unavailable"
  | .notConnected => "not_connected"
  | .duplicateConnect => "duplicate_connect"
  | .unexpectedPacket => "unexpected_packet"
  | .protocolViolation => "protocol_violation"

inductive Outcome where
  | goOn (replies : List Packet)
  | close (reply : Option Packet) (reason : CloseReason)
  deriving DecidableEq, Repr

namespace Outcome

def closes : Outcome → Bool
  | .goOn _ => false
  | .close _ _ => true

def refuse (code : ReturnCode) (reason : CloseReason) : Outcome :=
  .close (some (.connAck false code)) reason

end Outcome

structure Session where
  client : ClientId
  queue : QueueId
  state : SessionState
  /-- seconds, if any were asked for -/
  keepAlive : Option Nat
  deriving DecidableEq, Repr, Inhabited

structure Step where
  outcome : Outcome
  session : Session
  broker : Broker
  source : Source

namespace Session

def start (client : ClientId) (queue : QueueId) : Session := ⟨client, queue, .unauthenticated, none⟩

def close (s : Session) (b : Broker) : Session × Broker :=
  if s.state = .closed then (s, b) else ({ s with state := .closed }, b.remove s.client)

def accept (s : Session) (c : Connect) : Session :=
  { s with
    state := .authenticated
    keepAlive := if 0 < c.keepAlive then some c.keepAlive.toNat else none }

def connect (key : Bytes) (s : Session) (c : Connect) (source : Source) :
    Outcome × Session × Source :=
  if c.protocolName != protocolName then (.close none .unsupportedProtocol, s, source)
  else if c.protocolLevel != protocolLevel then
    (.refuse .unacceptableProtocolVersion .unsupportedProtocol, s, source)
  else
    match c.username, c.password with
    | some username, some password =>
      match source.run (Secret.verify key username password) with
      | (.ok true, source) => (.goOn [.connAck false .accepted], s.accept c, source)
      | (.ok false, source) => (.refuse .badUsernameOrPassword .badCredentials, s, source)
      | (.error _, source) => (.refuse .serverUnavailable .credentialStoreUnavailable, s, source)
    | _, _ => (.refuse .badUsernameOrPassword .badCredentials, s, source)

/-- One code for each filter, in order; those that are valid are subscribed to. -/
def subscribeAll (s : Session) (b : Broker) : List String → List UInt8 × Broker
  | [] => ([], b)
  | f :: rest =>
    if Topic.validFilter f then
      let (codes, b) := subscribeAll s (b.subscribe s.client f s.queue) rest
      (0 :: codes, b)
    else
      let (codes, b) := subscribeAll s b rest
      (subscriptionFailure :: codes, b)

def unsubscribeAll (s : Session) (b : Broker) (filters : List String) : Broker :=
  filters.foldl (fun b f => b.unsubscribe s.client f) b

def subscribe (s : Session) (b : Broker) (packetId : UInt16) (filters : List String) :
    Outcome × Session × Broker :=
  let (codes, b) := s.subscribeAll b filters
  let s := if codes.any fun c => c != subscriptionFailure then { s with state := .subscribed } else s
  (.goOn [.subAck packetId codes], s, b)

def unsubscribe (s : Session) (b : Broker) (packetId : UInt16) (filters : List String) :
    Outcome × Session × Broker :=
  let b := s.unsubscribeAll b filters
  let left := if filters.isEmpty then [] else b.filtersOf s.client
  let s := if left.isEmpty then { s with state := .authenticated } else s
  (.goOn [.unsubAck packetId], s, b)

def transition (key : Bytes) (s : Session) (p : Packet) (b : Broker) (source : Source) : Step :=
  let shut (reason : CloseReason) : Step := ⟨.close none reason, s, b, source⟩
  match s.state, p with
  | .closed, _ => shut .protocolViolation
  | _, .publish _ => shut .clientPublish
  | _, .disconnect => shut .clientDisconnect
  | .unauthenticated, .connect c =>
    let (outcome, s, source) := s.connect key c source
    ⟨outcome, s, b, source⟩
  | .unauthenticated, _ => shut .notConnected
  | _, .connect _ => shut .duplicateConnect
  | _, .pingReq => ⟨.goOn [.pingResp], s, b, source⟩
  | _, .subscribe packetId filters =>
    let (outcome, s, b) := s.subscribe b packetId (filters.map Prod.fst)
    ⟨outcome, s, b, source⟩
  | _, .unsubscribe packetId filters =>
    let (outcome, s, b) := s.unsubscribe b packetId filters
    ⟨outcome, s, b, source⟩
  | _, _ => shut .unexpectedPacket

def handle (key : Bytes) (s : Session) (p : Packet) (b : Broker) (source : Source) : Step :=
  let step := s.transition key p b source
  if step.outcome.closes then
    let (session, broker) := step.session.close step.broker
    { step with session, broker }
  else step

/-- Handles packet after packet, those behind a close as well. -/
def handleAll (key : Bytes) (s : Session) (b : Broker) (source : Source) :
    List Packet → List Outcome × Session × Broker × Source
  | [] => ([], s, b, source)
  | p :: rest =>
    let step := s.handle key p b source
    let (outcomes, after) := step.session.handleAll key step.broker step.source rest
    (step.outcome :: outcomes, after)

end Session

end Arrivals
