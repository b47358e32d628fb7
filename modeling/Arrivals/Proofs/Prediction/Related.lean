import Arrivals.Position

/-! One query on two atlases. Main statement: a relation that holds between the look-ups of the two, and
that chaining keeps, holds between their predictions and between their projections; along a line that is
found already it need hold between their edges only. So what a kind of store does to queries is shown for
its look-ups alone. -/

namespace Arrivals

variable {m n : Type → Type} [Monad m] [MonadExcept PredictionError m] [Monad n]
  [MonadExcept PredictionError n]

/-- What a query still has to do once its line and the heading there are found. -/
def Prediction.predictAlong (atlas : Atlas m) (presence : Presence) (now : Instant)
    (station direction : StationId) (found : Line × Heading) : m Prediction :=
  match found.1.position? station with
  | none => throw (.unknownStation station)
  | some target => do
    match ← scanApproaching atlas presence now found.1 found.2 target direction with
    | some c =>
      return ⟨found.1, station, direction, c.stop, direction, c.seenAt, false, c.path, c.elapsed⟩
    | none =>
      match found.1.terminal? found.2.reversed with
      | none => throw (.unknownStation station)
      | some opposite =>
        match ← scanReversing atlas presence now found.1 found.2 target opposite with
        | some c =>
          return ⟨found.1, station, direction, c.stop, opposite, c.seenAt, true, c.path, c.elapsed⟩
        | none => throw (.noVehicleLocated station direction)

theorem Prediction.predictWith_eq (atlas : Atlas m) (presence : Presence) (now : Instant)
    (station direction : StationId) :
    predictWith atlas presence now station direction =
      resolve atlas station direction >>= predictAlong atlas presence now station direction :=
  rfl

/-- From then on it asks for nothing but edges, and `Rest` relates what only asks for edges. -/
structure Atlas.Paced (a : Atlas m) (b : Atlas n) (Rest : (α : Type) → m α → n α → Prop) : Prop where
  edgeSeconds : ∀ s t, Rest _ (Prediction.edgeSeconds a s t) (Prediction.edgeSeconds b s t)
  pure : ∀ {α : Type} (x : α), Rest α (pure x) (pure x)
  /-- errors of queries, not of calls -/
  throw : ∀ {α : Type} (e : PredictionError), (∀ e', e ≠ .store e') → Rest α (throw e) (throw e)
  bind : ∀ {α β : Type} {x y} {f : α → m β} {g : α → n β}, Rest α x y → (∀ a, Rest β (f a) (g a)) →
    Rest β (x >>= f) (y >>= g)

namespace Atlas.Paced

variable {a : Atlas m} {b : Atlas n} {Rest : (α : Type) → m α → n α → Prop} (h : a.Paced b Rest)
include h

open Prediction

theorem pathTime (stops : List Stop) : Rest _ (pathTime a stops) (pathTime b stops) := by
  induction stops with
  | nil => exact h.pure 0
  | cons s rest ih =>
    cases rest with
    | nil => exact h.pure 0
    | cons t rest => exact h.bind (h.edgeSeconds s t) fun first => h.bind ih fun others => h.pure _

theorem scan (observe : Stop → Int → Option Candidate) (path : Int) (search : Search)
    (stops : List Stop) :
    Rest _ (scan a observe path search stops) (scan b observe path search stops) := by
  induction stops generalizing path search with
  | nil => exact h.pure search
  | cons s rest ih =>
    cases rest with
    | nil => exact h.pure _
    | cons t rest =>
      rw [Prediction.scan, Prediction.scan]
      split
      · exact h.bind (h.edgeSeconds t s) fun edge => ih _ _
      · exact h.pure _

theorem scanApproaching (presence : Presence) (now : Instant) (line : Line) (heading : Heading)
    (target : Nat) (direction : StationId) :
    Rest _ (scanApproaching a presence now line heading target direction)
      (scanApproaching b presence now line heading target direction) :=
  h.bind (h.scan _ _ _ _) fun search => h.pure search.best

theorem scanReversing (presence : Presence) (now : Instant) (line : Line) (heading : Heading)
    (target : Nat) (opposite : StationId) :
    Rest _ (scanReversing a presence now line heading target opposite)
      (scanReversing b presence now line heading target opposite) :=
  h.bind (h.pathTime _) fun _ => h.bind (h.scan _ _ _ _) fun search => h.pure search.best

theorem predictAlong (presence : Presence) (now : Instant) (station direction : StationId)
    (found : Line × Heading) :
    Rest _ (predictAlong a presence now station direction found)
      (predictAlong b presence now station direction found) := by
  obtain ⟨line, heading⟩ := found
  rw [Prediction.predictAlong, Prediction.predictAlong]
  cases line.position? station with
  | none => exact h.throw _ nofun
  | some target =>
    refine h.bind (h.scanApproaching _ _ _ _ _ _) fun found => ?_
    cases found with
    | some c => exact h.pure _
    | none =>
      dsimp only
      cases line.terminal? heading.reversed with
      | none => exact h.throw _ nofun
      | some opposite =>
        refine h.bind (h.scanReversing _ _ _ _ _ _) fun found => ?_
        cases found with
        | some c => exact h.pure _
        | none => exact h.throw _ nofun

end Atlas.Paced

/-- Every query begins with a look-up of lines, and asks for nothing but costs after it: `First` relates
what begins so, and `Rest` what only asks for costs. -/
structure Atlas.Related (a : Atlas m) (b : Atlas n) (First Rest : (α : Type) → m α → n α → Prop) :
    Prop where
  line? : ∀ id, First _ (a.line? id) (b.line? id)
  linesServing : ∀ station, First _ (a.linesServing station) (b.linesServing station)
  cost? : ∀ k, Rest _ (a.cost? k) (b.cost? k)
  pure : ∀ {α : Type} (x : α), Rest α (pure x) (pure x)
  /-- errors of queries, not of calls -/
  throw : ∀ {α : Type} (e : PredictionError), (∀ e', e ≠ .store e') → Rest α (throw e) (throw e)
  bind : ∀ {α β : Type} {x y} {f : α → m β} {g : α → n β}, Rest α x y → (∀ a, Rest β (f a) (g a)) →
    Rest β (x >>= f) (y >>= g)
  first : ∀ {α β : Type} {x y} {f : α → m β} {g : α → n β}, First α x y →
    (∀ a, Rest β (f a) (g a)) → First β (x >>= f) (y >>= g)

namespace Atlas.Related

variable {a : Atlas m} {b : Atlas n} {First Rest : (α : Type) → m α → n α → Prop}
  (h : a.Related b First Rest)
include h

open Prediction

theorem edgeSeconds (s t : Stop) : Rest _ (edgeSeconds a s t) (edgeSeconds b s t) := by
  refine h.bind (h.cost? _) fun found => ?_
  cases found with
  | none => exact h.throw _ nofun
  | some seconds => exact h.pure seconds

theorem paced : a.Paced b Rest := ⟨h.edgeSeconds, h.pure, h.throw, h.bind⟩

theorem scan (observe : Stop → Int → Option Candidate) (path : Int) (search : Search)
    (stops : List Stop) :
    Rest _ (scan a observe path search stops) (scan b observe path search stops) :=
  h.paced.scan observe path search stops

theorem scanApproaching (presence : Presence) (now : Instant) (line : Line) (heading : Heading)
    (target : Nat) (direction : StationId) :
    Rest _ (scanApproaching a presence now line heading target direction)
      (scanApproaching b presence now line heading target direction) :=
  h.paced.scanApproaching presence now line heading target direction

theorem scanReversing (presence : Presence) (now : Instant) (line : Line) (heading : Heading)
    (target : Nat) (opposite : StationId) :
    Rest _ (scanReversing a presence now line heading target opposite)
      (scanReversing b presence now line heading target opposite) :=
  h.paced.scanReversing presence now line heading target opposite

theorem resolve (station direction : StationId) :
    First _ (resolve a station direction) (resolve b station direction) := by
  refine h.first (h.linesServing station) fun lines => ?_
  dsimp only
  generalize lines.findSome? (fun l => (l.headingTowards? direction).map fun h => (l, h)) = found
  split
  · refine h.bind (h.throw _ nofun) fun _ => ?_
    cases found with
    | none => exact h.throw _ nofun
    | some found => exact h.pure found
  · cases found with
    | none => exact h.throw _ nofun
    | some found => exact h.pure found

theorem predictWith (presence : Presence) (now : Instant) (station direction : StationId) :
    First _ (predictWith a presence now station direction)
      (predictWith b presence now station direction) := by
  rw [predictWith_eq, predictWith_eq]
  exact h.first (h.resolve station direction) fun found =>
    h.paced.predictAlong presence now station direction found

theorem projectWith (arrival : Arrival) (now : Instant) :
    First _ (arrival.projectWith a now) (arrival.projectWith b now) := by
  refine h.first (h.line? arrival.line) fun found => ?_
  cases found with
  | none => exact h.throw _ nofun
  | some line =>
    dsimp only
    cases line.headingTowards? arrival.direction with
    | none => exact h.throw _ nofun
    | some heading =>
      dsimp only
      cases line.position? arrival.station with
      | none => exact h.throw _ nofun
      | some index =>
        dsimp only
        split
        · exact h.bind (h.edgeSeconds _ _) fun edge => h.bind (h.pure _) fun percent => h.pure _
        · exact h.bind (h.pure _) fun percent => h.pure _

end Atlas.Related

end Arrivals
