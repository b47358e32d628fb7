import Arrivals.Http.MediaType
import Arrivals.Http.Route
import Arrivals.Service

/-! Answers to HTTP requests: riders' signals come in, counts of riders go out. The form of a request
is looked at first, then who asks, then what is asked. -/

namespace Arrivals.Http

structure Request where
  method : String
  target : String
  headers : List (String × String)
  body : String
  deriving DecidableEq, Repr

structure Response where
  status : Nat
  body : String
  deriving DecidableEq, Repr

namespace Response

def empty (status : Nat) : Response := ⟨status, ""⟩

def withoutBody (r : Response) : Response := { r with body := "" }

end Response

namespace Request

def header? (r : Request) (name : String) : Option String :=
  (r.headers.find? fun h => h.1.toLower = name).map Prod.snd

def isPlain (c : Char) : Bool := (32 ≤ c.toNat && c.toNat < 127) || c = '\t'

def plainHeader? (r : Request) (name : String) : Option String :=
  (r.header? name).filter fun v => v.toList.all isPlain

def isJson (r : Request) : Bool :=
  match (r.plainHeader? "content-type").bind fun v => MediaType.parse? v.toList with
  | some m => m.isJson
  | none => false

/-- Bodies may have so many bytes. -/
def greatestBody : Nat := 2097152

def signalReport (r : Request) : Except Nat Wire.SignalReport :=
  if !r.isJson then .error 415
  else if greatestBody < r.body.utf8ByteSize then .error 413
  else
    match Wire.SignalReport.parse r.body with
    | .ok report => .ok report
    | .error .unfit => .error 422
    | .error .malformed => .error 400
    | .error .truncated => .error 400

end Request

def keyHeader : String := "x-api-key"
def secretHeader : String := "x-api-secret"

def authorize (s : Service) (r : Request) : Except Nat Unit × Service :=
  match r.plainHeader? keyHeader, r.plainHeader? secretHeader with
  | some key, some secret =>
    match s.verify key (Bytes.ofString secret) with
    | (.ok true, s) => (.ok ⟨⟩, s)
    | (.ok false, s) => (.error 401, s)
    | (.error _, s) => (.error 503, s)
  | _, _ => (.error 401, s)

def statusOf : SignalError → Nat
  | .store (.lineNotFound _) => 404
  | .store (.stationNotFound _) => 404
  | .store (.invalidData _) => 422
  | .store (.storage _) => 503
  | .refused _ => 503

def ifAuthorized (s : Service) (r : Request) (answer : Service → Response × Service) :
    Response × Service :=
  match authorize s r with
  | (.ok _, s) => answer s
  | (.error status, s) => (.empty status, s)

def signalOf (m : Wire.SignalReport) : Signal :=
  ⟨m.user, m.station, m.direction, m.lines, m.justEntered⟩

def answerSignal (s : Service) (r : Request) : Response × Service :=
  match r.signalReport with
  | .error status => (.empty status, s)
  | .ok report =>
    ifAuthorized s r fun s =>
      match s.signal (signalOf report) with
      | (.ok _, s) => (.empty 204, s)
      | (.error e, s) => (⟨statusOf e, e.message⟩, s)

def answerCount (s : Service) (r : Request) (segment : String) (count : Service → String → Nat) :
    Response × Service :=
  match Route.unescape? segment with
  | none => (.empty 400, s)
  | some id =>
    ifAuthorized s r fun s =>
      (⟨200, (Wire.ActivityCount.mk id (UInt64.ofNat (count s id))).render⟩, s)

def answer (s : Service) (r : Request) : Route → Response × Service
  | .signals => answerSignal s r
  | .line segment => answerCount s r segment Service.countLine
  | .network segment => answerCount s r segment Service.countNetwork
  | .health => (⟨200, "OK"⟩, s)

/-- A request for the head alone is answered like one for the whole, without the body. -/
def respond (s : Service) (r : Request) : Response × Service :=
  match Route.ofTarget? r.target with
  | none => (.empty 404, s)
  | some route =>
    match route.purpose with
    | .write => if r.method = "POST" then answer s r route else (.empty 405, s)
    | .read =>
      if r.method = "GET" then answer s r route
      else if r.method = "HEAD" then
        let (response, s) := answer s r route
        (response.withoutBody, s)
      else (.empty 405, s)

end Arrivals.Http
