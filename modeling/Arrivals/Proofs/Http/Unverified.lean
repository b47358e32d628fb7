import Arrivals.Http.Respond
import Arrivals.Proofs.Secret

/-! Answers to those whom nobody vouches for. Main statement: they learn of the form of their own request
and of nothing else, and they leave everything as it was. -/

namespace Arrivals

namespace Service

/-- The same service, which has asked its store this often. -/
def asked (s : Service) (n : Nat) : Service := { s with source.calls := n }

theorem snd_verify (s : Service) (key : String) (secret : Bytes) :
    (s.verify key secret).2 = s.asked (s.source.calls + 1) := by
  rw [verify, ask, Secret.run_verify]
  rfl

end Service

namespace Http

def Route.methods (route : Route) : List String :=
  match route.purpose with
  | .write => ["POST"]
  | .read => ["GET", "HEAD"]

namespace Request

/-- The request gets through to a route, with a method that the route has. -/
def Reaches (r : Request) (route : Route) : Prop :=
  Route.ofTarget? r.target = some route ∧ r.method ∈ route.methods

instance (r : Request) (route : Route) : Decidable (r.Reaches route) :=
  inferInstanceAs (Decidable (_ ∧ _))

/-- The body is a report, as JSON of a size that is let in, or the id has escapes that make up a text. -/
def Formed (r : Request) : Route → Prop
  | .signals => r.isJson = true ∧ r.body.utf8ByteSize ≤ greatestBody ∧
      ∃ report, Wire.SignalReport.parse r.body = .ok report
  | .line segment => ∃ id, Route.unescape? segment = some id
  | .network segment => ∃ id, Route.unescape? segment = some id
  | .health => True

def segmentFault? (segment : String) : Option Nat :=
  match Route.unescape? segment with
  | none => some 400
  | some _ => none

/-- What is found wrong with the form of a request. -/
def formFault? (r : Request) : Route → Option Nat
  | .signals =>
    match r.signalReport with
    | .error status => some status
    | .ok _ => none
  | .line segment => segmentFault? segment
  | .network segment => segmentFault? segment
  | .health => none

variable {r : Request} {route : Route}

end Request

/-- One of the two headers is missing or no text, or the store, which can be asked, does not hold them to
belong together. -/
def Unverified (s : Service) (r : Request) : Prop :=
  ∀ key secret, r.plainHeader? keyHeader = some key → r.plainHeader? secretHeader = some secret →
    (s.verify key (Bytes.ofString secret)).1 = .ok false

namespace Unverified

variable {s : Service} {r : Request} {route : Route}

theorem authorize_eq (h : Unverified s r) : ∃ n, authorize s r = (.error 401, s.asked n) := by
  rw [authorize]
  cases hkey : r.plainHeader? keyHeader with
  | none => exact ⟨s.source.calls, rfl⟩
  | some key =>
    cases hsecret : r.plainHeader? secretHeader with
    | none => exact ⟨s.source.calls, rfl⟩
    | some secret =>
      have hverify : s.verify key (Bytes.ofString secret) = (.ok false, s.asked (s.source.calls + 1)) :=
        Prod.ext (h key secret hkey hsecret) (s.snd_verify key _)
      refine ⟨s.source.calls + 1, ?_⟩
      dsimp only
      rw [hverify]

theorem ifAuthorized_eq (h : Unverified s r) (answer : Service → Response × Service) :
    ∃ n, ifAuthorized s r answer = (.empty 401, s.asked n) := by
  obtain ⟨n, hauthorize⟩ := h.authorize_eq
  refine ⟨n, ?_⟩
  rw [ifAuthorized, hauthorize]

theorem answerCount_eq (h : Unverified s r) (segment : String) (count : Service → String → Nat) :
    ∃ n, answerCount s r segment count =
      (.empty ((Request.segmentFault? segment).getD 401), s.asked n) := by
  rw [answerCount, Request.segmentFault?]
  cases Route.unescape? segment with
  | none => exact ⟨s.source.calls, rfl⟩
  | some id => exact h.ifAuthorized_eq _

theorem answer_eq (h : Unverified s r) (hguarded : route ≠ .health) :
    ∃ n, answer s r route = (.empty ((r.formFault? route).getD 401), s.asked n) := by
  cases route with
  | signals =>
    rw [answer, answerSignal, Request.formFault?]
    cases r.signalReport with
    | error status => exact ⟨s.source.calls, rfl⟩
    | ok report => exact h.ifAuthorized_eq _
  | line segment => exact h.answerCount_eq segment _
  | network segment => exact h.answerCount_eq segment _
  | health => exact absurd rfl hguarded

end Unverified

variable {s : Service} {r : Request} {route : Route}

end Http

end Arrivals
