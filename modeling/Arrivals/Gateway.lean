import Arrivals.Endpoint
import Arrivals.Service

/-! Starting the gateway: its settings, what can go wrong before it listens, and the first run of each
of its tasks. -/

namespace Arrivals

structure KeyFiles where
  certificate : String
  key : String
  deriving DecidableEq, Repr

/-- Intervals are in seconds. -/
structure GatewayConfig where
  listen : Endpoint
  tls : Option KeyFiles
  httpListen : Option Endpoint
  publishInterval : Nat
  forecastInterval : Nat
  timingInterval : Nat
  topics : Topics
  shutdownGrace : Nat
  hashingKey : String
  /-- how many frames may wait for a client -/
  outboundQueue : Nat
  maxPacketSize : Nat
  /-- how long a client may take for its first packet -/
  connectTimeout : Nat
  deriving DecidableEq, Repr

namespace GatewayConfig

def standard : GatewayConfig :=
  { listen := .v4 [0, 0, 0, 0] 1883
    tls := none
    httpListen := none
    publishInterval := 30
    forecastInterval := 10
    timingInterval := 3600
    topics := ⟨"linewatch", "linewatch-dev"⟩
    shutdownGrace := 5
    hashingKey := ""
    outboundQueue := 64
    maxPacketSize := 65536
    connectTimeout := 10 }

end GatewayConfig

inductive StartError where
  | bind (endpoint : Endpoint)
  | readKeyMaterial (path : String)
  | tls
  deriving DecidableEq, Repr

structure Host where
  readFile? : String → Option Bytes
  isIdentity : Bytes → Bytes → Bool
  canBind : Endpoint → Bool

namespace Host

def loadKeys (h : Host) (files : KeyFiles) : Except StartError Unit :=
  match h.readFile? files.certificate with
  | none => .error (.readKeyMaterial files.certificate)
  | some certificate =>
    match h.readFile? files.key with
    | none => .error (.readKeyMaterial files.key)
    | some key => if h.isIdentity certificate key then .ok ⟨⟩ else .error .tls

def bind (h : Host) (e : Endpoint) : Except StartError Unit :=
  if h.canBind e then .ok ⟨⟩ else .error (.bind e)

/-- Keys are read before anything listens. -/
def prepare (h : Host) (c : GatewayConfig) : Except StartError Unit := do
  match c.tls with
  | some files => h.loadKeys files
  | none => pure ⟨⟩
  h.bind c.listen
  match c.httpListen with
  | some e => h.bind e
  | none => pure ⟨⟩

end Host

namespace Service

def firstPublication (s : Service) : List Bytes × Service :=
  let queue : QueueId := "first publication"
  let (client, broker) := s.broker.nextClient
  let broker := (broker.openQueue queue 64).subscribe client "#" queue
  let (_, s) := { s with broker }.disseminate
  let (frames, broker) := s.broker.receive queue
  (frames, { s with broker := (broker.remove client).closeQueue queue })

/-- A learning task drops what was remembered of edges, once its batch is committed. -/
def relearn (s : Service) (window : Span) : Service :=
  match s.learn window with
  | (.ok _, s) => s.clearMemo
  | (.error _, s) => s

end Service

end Arrivals
