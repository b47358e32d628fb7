import Arrivals.Command.Grammar
import Arrivals.Command.Number
import Arrivals.Gateway

/-! The options of the server. -/

namespace Arrivals.Command

def hashingKeyOption : Opt :=
  ⟨"hashing-key", none, some ⟨"LINEWATCH_HASHING_KEY", true⟩, none, true, none, .text, ""⟩

namespace Serve

def endpointForm : ValueForm := .checked fun v => (Endpoint.parse? v).isSome

def countForm (least : Nat) : ValueForm :=
  .checked fun v =>
    match uint64? v with
    | some n => least ≤ n
    | none => false

def secondsForm : ValueForm := .checked fun v => (int64? v).isSome

def option (name : String) (source fallback : Option String) (form : ValueForm)
    (about : String) : Opt :=
  ⟨name, none, source.map fun v => ⟨v, false⟩, fallback, false, none, form, about⟩

def options : List Opt :=
  [⟨"topology", some 't', some ⟨"LINEWATCH_TOPOLOGY", false⟩, none, true, none, .path,
      "Topology snapshot (stations, lines, connections, trips, credentials) as JSON"⟩,
    option "listen" (some "LINEWATCH_LISTEN") (some "0.0.0.0:1883") endpointForm
      "Address the MQTT listener binds to",
    option "http-listen" (some "LINEWATCH_HTTP_LISTEN") (some "127.0.0.1:8080") endpointForm
      "Address the signal and activity HTTP endpoint binds to",
    ⟨"tls-cert", none, some ⟨"LINEWATCH_TLS_CERT", false⟩, none, false, some "tls-key", .path,
      "PEM certificate chain; enables TLS together with --tls-key"⟩,
    ⟨"tls-key", none, some ⟨"LINEWATCH_TLS_KEY", false⟩, none, false, some "tls-cert", .path,
      "PKCS#8 PEM private key"⟩,
    hashingKeyOption,
    option "publish-interval" none (some "30") (countForm 1) "Seconds between publications",
    option "forecast-interval" none (some "10") (countForm 1) "Seconds between prediction passes",
    option "timing-interval" none (some "3600") (countForm 0)
      "Seconds between timing batches, the first one at startup; 0 disables them",
    option "live-prefix" none (some "linewatch") .text "",
    option "staging-prefix" none (some "linewatch-dev") .text "",
    option "shutdown-grace" none (some "5") (countForm 0) "Seconds allowed for a clean shutdown",
    option "prediction-validity" none (some "90") secondsForm
      "Seconds a stored prediction stays valid",
    option "fudge-bucket" none (some "0") (countForm 0)
      "Round \"users in transit\" counts down to a multiple of this",
    option "timing-throttle-ms" none none (countForm 0)
      "Stop the timing batch from hogging the store; milliseconds per trip"]

def grammar : Grammar := ⟨options, [], [], false⟩

structure Options where
  topology : String
  gateway : GatewayConfig
  /-- seconds -/
  validity : Int
  limits : ActivityLimits
  timing : Timing.Config

/-- Activity is tracked like this, unless counts are to be rounded. -/
def standardLimits : ActivityLimits := ⟨0, .ofSeconds 240, .ofSeconds 480, 10000⟩

def timingWindow : Span := .ofSeconds 2592000

def count (a : Grammar.Arguments) (name : String) : Nat := (uint64? (a.get name)).getD 0

def endpoint (a : Grammar.Arguments) (name : String) : Endpoint :=
  (Endpoint.parse? (a.get name)).getD default

def keyFiles (a : Grammar.Arguments) : Option KeyFiles := do
  let certificate ← a.values.lookup "tls-cert"
  let key ← a.values.lookup "tls-key"
  pure ⟨certificate, key⟩

def ofArguments (a : Grammar.Arguments) : Options :=
  { topology := a.get "topology"
    gateway :=
      { GatewayConfig.standard with
        listen := endpoint a "listen"
        tls := keyFiles a
        httpListen := some (endpoint a "http-listen")
        publishInterval := count a "publish-interval"
        forecastInterval := count a "forecast-interval"
        timingInterval := count a "timing-interval"
        topics := ⟨a.get "live-prefix", a.get "staging-prefix"⟩
        shutdownGrace := count a "shutdown-grace"
        hashingKey := a.get "hashing-key" }
    validity := (int64? (a.get "prediction-validity")).getD 0
    limits := { standardLimits with fudgeBucket := count a "fudge-bucket" }
    timing := ⟨timingWindow, (a.values.lookup "timing-throttle-ms").bind uint64?⟩ }

def parse (environment : Environment) (args : List String) : Except UsageError Options :=
  (grammar.parse environment args).map ofArguments

/-- The most seconds, of either sign, that a length of time can have. -/
def greatestSeconds : Nat := 9223372036854775

def Options.validity? (o : Options) : Option Span :=
  if o.validity.natAbs ≤ greatestSeconds then some (.ofSeconds o.validity) else none

end Serve

end Arrivals.Command
