import Arrivals.Proofs.Board.Positions
import Arrivals.Proofs.Forecast.Pass
import Arrivals.Proofs.Forecast.Vehicles
import Mathlib.Data.List.Dedup
import Mathlib.Data.Set.Function

/-! The vehicles that a pass finds. Main statement: unless the hash collides, a pass over an empty board
leaves one current position for each observation that it predicted from, and that is the prediction by
which the vehicle comes soonest. -/

namespace Arrivals.Forecast

variable {presence : Presence} {now later : Instant} {validity : Span}

theorem predictions_predictAll (presence : Presence) (now : Instant) (validity : Span) (p : Progress)
    (walk : List Sight) :
    (predictAll presence now validity p walk).2.predictions =
      p.predictions + (foundAlong presence now p.source walk).length := by
  induction walk generalizing p with
  | nil => rfl
  | cons q rest ih =>
    cases hrun : p.source.run (predict presence now q.station q.direction) with
    | mk y source =>
      by_cases hy : ∃ e, y = .error (.store e)
      · obtain ⟨e, rfl⟩ := hy
        rw [predictAll_of_failed validity hrun, foundAlong_of_failed hrun]
        rfl
      · have hown := not_exists.mp hy
        have hrest := ih (p.tally now validity q source y)
        rw [p.source_tally] at hrest
        rw [predictAll_of_answered validity hrun hown, foundAlong_of_answered hrun hown, hrest,
          List.length_append, ← Nat.add_assoc]
        congr 1
        cases y with
        | ok found => rfl
        | error e => rfl

/-- The report of a pass counts its predictions. -/
theorem predictions_pass {source : Source} {board : Board} {activity : Activity} {report : Report}
    (h : (pass presence now validity source board activity).result = .ok report) :
    report.predictions = (found presence now source).length := by
  cases hlines : source.run Access.lines with
  | mk answer rest =>
    cases answer with
    | error e =>
      rw [pass, hlines] at h
      cases h
    | ok lines =>
      rw [pass_of_lines hlines] at h
      rw [predictions_of_conclude h, predictions_predictAll, found, hlines, Nat.zero_add]

theorem foundAlong_eq {v : View} {memo : Memo} (hv : View.of v.store memo = v) (outage : Outage)
    (n : Nat) (walk : List Sight) :
    foundAlong presence now ⟨v.store, memo, outage, n, none⟩ walk =
      (completed presence now ⟨v.store, memo, outage, n, none⟩ walk).filterMap fun q =>
        (foretold v presence now q).toOption := by
  induction walk generalizing memo n with
  | nil => rfl
  | cons q rest ih =>
    have hobeys := obeys_predict v presence now q.station q.direction
    obtain ⟨calls, memo', hv', hmakes⟩ := hobeys.makes memo hv
    cases hfirst : outage.first? n calls with
    | some failure =>
      obtain ⟨m, e⟩ := failure
      obtain ⟨memo'', hrun⟩ := hmakes.failed outage n m e hfirst
      rw [foundAlong_of_failed hrun, completed, hrun]
      rfl
    | none =>
      have hrun : Source.run ⟨v.store, memo, outage, n, none⟩
          (predict presence now q.station q.direction) = (foretold v presence now q, _) :=
        hmakes.through outage n hfirst
      have hcompleted := completed_of_answer (p := ⟨⟨v.store, memo, outage, n, none⟩, .empty, 0, 0⟩) hrun
        hobeys.own rest
      rw [foundAlong_of_answered hrun hobeys.own, ih hv', hcompleted, List.filterMap_cons]
      cases foretold v presence now q with
      | ok found => rfl
      | error e => rfl

theorem found_eq (store : Store) (memo : Memo) (outage : Outage) (n : Nat) :
    found presence now ⟨store, memo, outage, n, none⟩ =
      (covered presence now ⟨store, memo, outage, n, none⟩).filterMap fun q =>
        (foretold (.of store memo) presence now q).toOption := by
  rw [found, covered, Access.lines, Source.run_read]
  cases Source.answer ⟨store, memo, outage, n, none⟩ .lines store.lines with
  | error e => rfl
  | ok lines => exact foundAlong_eq (v := .of store memo) rfl outage _ _

theorem length_dedup_map {α β γ : Type} [DecidableEq β] [DecidableEq γ] {f : α → β} {g : α → γ}
    {l : List α} (h : ∀ x ∈ l, ∀ y ∈ l, f x = f y ↔ g x = g y) :
    (l.map f).dedup.length = (l.map g).dedup.length := by
  induction l with
  | nil => rfl
  | cons x l ih =>
    have hrest := ih fun y hy z hz => h y (List.mem_cons_of_mem _ hy) z (List.mem_cons_of_mem _ hz)
    have hmem : f x ∈ l.map f ↔ g x ∈ l.map g := by
      rw [List.mem_map, List.mem_map]
      exact exists_congr fun y => and_congr_right fun hy =>
        h y (List.mem_cons_of_mem _ hy) x List.mem_cons_self
    rw [List.map_cons, List.map_cons]
    by_cases hx : f x ∈ l.map f
    · rw [List.dedup_cons_of_mem hx, List.dedup_cons_of_mem (hmem.mp hx), hrest]
    · rw [List.dedup_cons_of_notMem hx, List.dedup_cons_of_notMem (mt hmem.mpr hx),
        List.length_cons, List.length_cons, hrest]

/-- What is live on the board are the arrivals of these predictions. -/
def Shows (b : Board) (now : Instant) (validity : Span) (later : Instant) (ps : List Prediction) : Prop :=
  ∀ slot a, b.arrivals.visible? later slot = some a ↔
    ∃ p ∈ ps, slot = ⟨p.station, p.direction, 1⟩ ∧ a = p.arrival now validity

namespace Shows

variable {b : Board} {ps : List Prediction} {p : Prediction} {a : Arrival}

theorem exists_prediction (h : Shows b now validity later ps) (ha : a ∈ b.currentPositions later) :
    ∃ p ∈ ps, a = p.arrival now validity ∧
      ∀ q ∈ ps, q.vehicle = p.vehicle → p.etaSeconds ≤ q.etaSeconds := by
  obtain ⟨slot, hlive, hleast⟩ := Board.mem_currentPositions_iff.mp ha
  obtain ⟨p, hp, -, rfl⟩ := (h slot a).mp hlive
  refine ⟨p, hp, rfl, fun q hq hvehicle => ?_⟩
  have hrank (p : Prediction) : Board.rankingSeconds (p.arrival now validity) later =
      p.etaSeconds - (later.since now).seconds := rfl
  have hle := hleast _ _ ((h _ _).mpr ⟨q, hq, rfl, rfl⟩) hvehicle
  rw [hrank, hrank] at hle
  omega

theorem existsUnique_position (h : Shows b now validity later ps) (hp : p ∈ ps) :
    ∃! a, a ∈ b.currentPositions later ∧ a.vehicle = p.vehicle := by
  obtain ⟨best, hbest⟩ := Board.exists_soonest ((h _ _).mpr ⟨p, hp, rfl, rfl⟩)
  obtain ⟨hvehicle, slot, hsoonest⟩ := Board.soonest_of_get? hbest
  refine ⟨best, ⟨Board.mem_currentPositions_iff.mpr ⟨slot, hsoonest⟩, hvehicle⟩, ?_⟩
  rintro a ⟨ha, hv⟩
  obtain ⟨slot', hslot'⟩ := Board.mem_currentPositions_iff.mp ha
  exact hsoonest.unique hslot' (hv.trans hvehicle.symm)

theorem length_currentPositions (h : Shows b now validity later ps) :
    (b.currentPositions later).length = (ps.map Prediction.vehicle).dedup.length := by
  have hnodup : ((b.currentPositions later).map Arrival.vehicle).Nodup :=
    List.pairwise_map.mpr ((b.pairwise_currentPositions later).imp fun hlt => hlt.ne)
  have hperm : ((b.currentPositions later).map Arrival.vehicle).Perm
      (ps.map Prediction.vehicle).dedup := by
    refine (List.perm_ext_iff_of_nodup hnodup (List.nodup_dedup _)).mpr fun v => ?_
    rw [List.mem_dedup, List.mem_map, List.mem_map]
    constructor
    · rintro ⟨a, ha, rfl⟩
      obtain ⟨p, hp, rfl, -⟩ := h.exists_prediction ha
      exact ⟨p, hp, rfl⟩
    · rintro ⟨p, hp, rfl⟩
      obtain ⟨a, ha, -⟩ := h.existsUnique_position hp
      exact ⟨a, ha⟩
  rw [← hperm.length_eq, List.length_map]

end Shows

theorem Filled.shows {ask : Sight → Except PredictionError Prediction} {walk : List Sight} {b : Board}
    (h : Filled ask now validity (· ∈ walk) (Board.empty.sweep now) b)
    (hask : ∀ q p, ask q = .ok p → p.station = q.station ∧ p.direction = q.direction)
    (hvalid : (⟨0⟩ : Span) < validity) (hlater : later < now.after validity) :
    Shows b now validity later (walk.filterMap fun q => (ask q).toOption) := by
  have hmem (p : Prediction) : p ∈ walk.filterMap (fun q => (ask q).toOption) ↔
      ∃ q ∈ walk, ask q = .ok p := by
    rw [List.mem_filterMap]
    refine exists_congr fun q => and_congr_right fun _ => ?_
    cases ask q with
    | ok p' => simp [Except.toOption]
    | error e => simp [Except.toOption]
  have hshown {q : Sight} {p : Prediction} (hq : q ∈ walk) (hp : ask q = .ok p) :
      b.arrivals.visible? later ⟨p.station, p.direction, 1⟩ = some (p.arrival now validity) := by
    obtain ⟨hstation, hdirection⟩ := hask q p hp
    rw [Board.visible?_eq, hstation, hdirection, h.entered q p hq hp hvalid, ← hstation, ← hdirection]
    exact if_pos (decide_eq_true hlater)
  intro slot a
  constructor
  · intro hvisible
    by_cases hslot : ∃ q p, q ∈ walk ∧ ask q = .ok p ∧ slot = ⟨p.station, p.direction, 1⟩
    · obtain ⟨q, p, hq, hp, rfl⟩ := hslot
      rw [hshown hq hp] at hvisible
      exact ⟨p, (hmem p).mpr ⟨q, hq, hp⟩, rfl, (Option.some.inj hvisible).symm⟩
    · rw [Board.visible?_eq, h.kept slot fun q p hq hp _ hqslot => hslot ⟨q, p, hq, hp, ?_⟩] at hvisible
      · cases hvisible
      · rw [hqslot, (hask q p hp).1, (hask q p hp).2]
  · rintro ⟨p, hp, rfl, rfl⟩
    obtain ⟨q, hq, hp⟩ := (hmem p).mp hp
    exact hshown hq hp

theorem shows_pass {store : Store} {memo : Memo} {outage : Outage} {n : Nat} {activity : Activity}
    {report : Report} (hvalid : (⟨0⟩ : Span) < validity) (hlater : later < now.after validity)
    (hok : (pass presence now validity ⟨store, memo, outage, n, none⟩ .empty activity).result =
      .ok report) :
    Shows (pass presence now validity ⟨store, memo, outage, n, none⟩ .empty activity).board now
      validity later (found presence now ⟨store, memo, outage, n, none⟩) := by
  obtain ⟨calls, hcalls⟩ := exists_passed store memo presence now
  obtain ⟨hdone, hboard, -, -⟩ := (hcalls outage n validity .empty activity).through report hok
  rw [hboard, found_eq, hdone]
  have hask (q : Sight) (p : Prediction) (h : foretold (.of store memo) presence now q = .ok p) :
      p.station = q.station ∧ p.direction = q.direction := asked_foretold h
  exact (filled_foldl hask .empty _).sweep.shows hask hvalid hlater

/-- Two predictions hash the same bytes just where they go by the line, stop, terminal and second of one
observation, and unless the hash collides on them their vehicles have one id just there. So once a pass
has come through over an empty board, the current positions are one for each observation among its
predictions, as long as they hold: of the predictions that go by the observation one in which the vehicle
comes soonest. -/
theorem pass_finds_vehicles :
    (∀ p q : Prediction, p.observation.Stamped → q.observation.Stamped →
      (p.hashed = q.hashed ↔ p.observation = q.observation) ∧
      (Set.InjOn (Xxh64.hash VehicleId.seed) {p.hashed, q.hashed} →
        (p.vehicle = q.vehicle ↔ p.observation = q.observation))) ∧
    ∀ (store : Store) (memo : Memo) (outage : Outage) (n : Nat) (presence : Presence) (now : Instant)
      (validity : Span) (activity : Activity) (report : Report),
      let source : Source := ⟨store, memo, outage, n, none⟩
      let o := pass presence now validity source .empty activity
      let predictions := found presence now source
      (⟨0⟩ : Span) < validity → o.result = .ok report →
      (∀ p ∈ predictions, p.observation.Stamped) →
      Set.InjOn (Xxh64.hash VehicleId.seed) {b | ∃ p ∈ predictions, p.hashed = b} →
      predictions.length = report.predictions ∧
      ∀ later, later < now.after validity →
        (o.board.currentPositions later).length =
          (predictions.map Prediction.observation).dedup.length ∧
        (∀ p ∈ predictions, ∃! a, a ∈ o.board.currentPositions later ∧ a.vehicle = p.vehicle) ∧
        ∀ a ∈ o.board.currentPositions later, ∃ p ∈ predictions, a = p.arrival now validity ∧
          ∀ q ∈ predictions, q.observation = p.observation → p.etaSeconds ≤ q.etaSeconds := by
  refine ⟨fun p q hp hq => ⟨Prediction.hashed_inj hp hq, fun hhash => ?_⟩, ?_⟩
  · exact Prediction.vehicle_inj hp hq fun h => hhash (.inl rfl) (.inr rfl) h
  · intro store memo outage n presence now validity activity report source o predictions hvalid hok
      hstamped hhash
    have hvehicle (p : Prediction) (hp : p ∈ predictions) (q : Prediction) (hq : q ∈ predictions) :
        p.vehicle = q.vehicle ↔ p.observation = q.observation :=
      Prediction.vehicle_inj (hstamped p hp) (hstamped q hq) fun h => hhash ⟨p, hp, rfl⟩ ⟨q, hq, rfl⟩ h
    refine ⟨(predictions_pass hok).symm, fun later hlater => ?_⟩
    have hshows := shows_pass hvalid hlater hok
    refine ⟨?_, fun p hp => hshows.existsUnique_position hp, fun a ha => ?_⟩
    · rw [hshows.length_currentPositions]
      exact length_dedup_map hvehicle
    · obtain ⟨p, hp, ha, hleast⟩ := hshows.exists_prediction ha
      exact ⟨p, hp, ha, fun q hq h => hleast q hq ((hvehicle q hq p hp).mpr h)⟩

def shuttleStore : Store :=
  { ((default : Store).saveConnection ⟨"a", "b", "ferry", 60, 0, 0⟩).saveConnection
      ⟨"b", "a", "ferry", 60, 0, 0⟩ with lines := [ferry] }

/-- Two ferries, one at either end. -/
def shuttleSeen : Presence := (Presence.empty.register ⟨"a", "b"⟩ ⟨0⟩).register ⟨"b", "a"⟩ ⟨0⟩

def shuttleSource : Source := ⟨shuttleStore, .empty, .never, 0, none⟩

theorem pass_finds_vehicles_shuttle :
    let o := pass shuttleSeen ⟨0⟩ (.ofSeconds 90) shuttleSource .empty .empty
    (∃ report, o.result = .ok report ∧ report.predictions = 4) ∧
      (o.board.currentPositions ⟨0⟩).length = 2 ∧
      ∀ a ∈ o.board.currentPositions ⟨0⟩, a.estimate = .exact 0 := by
  intro o
  have hok : o.result = .ok ⟨4, 0, 0, 0⟩ := by decide +kernel
  have hhash : ∀ p ∈ found shuttleSeen ⟨0⟩ shuttleSource, ∀ q ∈ found shuttleSeen ⟨0⟩ shuttleSource,
      Xxh64.hash VehicleId.seed p.hashed = Xxh64.hash VehicleId.seed q.hashed →
        p.hashed = q.hashed := by decide +kernel
  have hleast : ∀ p ∈ found shuttleSeen ⟨0⟩ shuttleSource,
      (∀ q ∈ found shuttleSeen ⟨0⟩ shuttleSource, q.observation = p.observation →
        p.etaSeconds ≤ q.etaSeconds) → p.etaSeconds = 0 := by decide +kernel
  obtain ⟨-, hcurrent⟩ := pass_finds_vehicles.2 shuttleStore .empty .never 0 shuttleSeen ⟨0⟩
    (.ofSeconds 90) .empty ⟨4, 0, 0, 0⟩ (by decide) hok (by decide +kernel)
    (by rintro - ⟨p, hp, rfl⟩ - ⟨q, hq, rfl⟩ h; exact hhash p hp q hq h)
  obtain ⟨hlength, -, heach⟩ := hcurrent ⟨0⟩ (by decide)
  refine ⟨⟨_, hok, rfl⟩, hlength.trans (by decide +kernel), fun a ha => ?_⟩
  obtain ⟨p, hp, rfl, hp'⟩ := heach a ha
  exact congrArg Estimate.exact (hleast p hp hp')

end Arrivals.Forecast
