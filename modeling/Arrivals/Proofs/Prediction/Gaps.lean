import Arrivals.Proofs.Prediction.Faults

/-! Connections that are missing beyond a vehicle. Main statement: once a vehicle is there to be found, a
query can only go without a prediction for want of a connection, and it does so if and only if what it sees
on the way there gives it no reason to stop before. -/

namespace Arrivals

/-- What is predicted of a vehicle on its way to the station. -/
def Candidate.prediction (c : Candidate) (line : Line) (q : Sight) : Prediction :=
  ⟨line, q.station, q.direction, c.stop, q.direction, c.seenAt, false, c.path, c.elapsed⟩

namespace Prediction

variable {v : View} {presence : Presence} {now : Instant} {q : Sight} {line : Line} {heading : Heading}
  {target : Nat} {e : PredictionError} {p : Prediction}

theorem exists_firstGap_iff {stops : List Stop} : (∃ k, FirstGap v stops k) ↔ ¬ Connected v stops := by
  rw [connected_iff]
  exact Option.ne_none_iff_exists'.symm

namespace Course

variable (h : Course v.store q line heading target)

include h

theorem predictWith_of_found {c : Candidate}
    (hc : scanApproaching (.seen v) presence now line heading target q.direction = .ok (some c)) :
    predictWith (.seen v) presence now q.station q.direction = .ok (c.prediction line q) := by
  rw [predictWith, h.resolve, pure_bind]
  dsimp only
  rw [h.target]
  dsimp only
  rw [hc]
  rfl

variable (hseen : sightings v presence q.direction now 0 (line.stopsBack target heading) ≠ [])

include hseen

/-- As there is a vehicle to be found, the other scan is not made. -/
theorem eq_error_iff_of_seen :
    predictWith (.seen v) presence now q.station q.direction = .error e ↔
      ∃ k, e = .missingConnection k ∧
        Stumbles v presence q.direction now 0 (line.stopsBack target heading) k := by
  obtain ⟨opposite, hopposite⟩ := h.exists_opposite
  rw [h.predictWith_eq_error_iff hopposite, ← scan_eq_error_iff]
  refine or_iff_left fun ⟨hnone, _⟩ => hseen ?_
  exact (scan_eq_none_iff.mp hnone).nothing

theorem exists_prediction_iff_of_seen :
    (∃ p, predictWith (.seen v) presence now q.station q.direction = .ok p) ↔
      Connected v (line.stopsBack target heading) ∨
        ¬ Falls (sightings v presence q.direction now 0 (line.stopsBack target heading)) := by
  constructor
  · rintro ⟨p, hp⟩
    by_contra hnone
    push Not at hnone
    obtain ⟨hbroken, hfalls⟩ := hnone
    obtain ⟨k, hk⟩ := exists_firstGap_iff.mpr hbroken
    have herror := (h.eq_error_iff_of_seen hseen).mpr ⟨k, rfl, hk, hfalls⟩
    rw [hp] at herror
    cases herror
  · intro hends
    cases hanswer : predictWith (.seen v) presence now q.station q.direction with
    | ok p => exact ⟨p, rfl⟩
    | error e =>
      obtain ⟨k, -, hk, hfalls⟩ := (h.eq_error_iff_of_seen hseen).mp hanswer
      exact absurd hends (not_or.mpr ⟨hk.not_connected, not_not.mpr hfalls⟩)

/-- What is predicted is the best vehicle until the deviations rise, whatever lies beyond. -/
theorem prediction_of_seen (hp : predictWith (.seen v) presence now q.station q.direction = .ok p) :
    ∃ run c, LongestFall (sightings v presence q.direction now 0 (line.stopsBack target heading)) run ∧
      c ∈ run.argmin Candidate.deviation ∧ p = c.prediction line q := by
  obtain ⟨opposite, hopposite⟩ := h.exists_opposite
  cases hscan : scanApproaching (.seen v) presence now line heading target q.direction with
  | error e =>
    rw [(h.predictWith_eq_error_iff hopposite).mpr (.inl hscan)] at hp
    cases hp
  | ok found =>
    cases found with
    | none => exact absurd (((settles_scanApproaching line heading target).nothing _ hscan).mp rfl) hseen
    | some c =>
      obtain ⟨run, hrun, hbest⟩ := (settles_scanApproaching line heading target).finds _ hscan
      rw [h.predictWith_of_found hscan] at hp
      exact ⟨run, c, hrun, hbest.symm, (Except.ok.inj hp).symm⟩

end Course

end Prediction

open Prediction

/-- A query on a line where a vehicle that is not overdue was seen at a stop, and connections lead from there
to the station. The query makes the same calls whichever of them fail; if one does, its error is the answer.
Otherwise there is a prediction if and only if no connection is missing farther back, or the deviations of
what was seen short of the first one that is missing rise somewhere; and what is predicted is the best until
they rise. If they do not, the answer is that this connection is missing. -/
theorem Service.predict_seen (s : Service) {q : Sight} {line : Line} {heading : Heading} {target : Nat}
    (hcourse : Course s.store q line heading target) {stop : Stop} {path : Int} {seenAt : Instant}
    (hway : (stop, path) ∈ way (View.of s.store s.memo) 0 (line.stopsBack target heading))
    (hseen : s.presence.lastSeen? ⟨stop.station, q.direction⟩ = some seenAt)
    (hdue : -Candidate.tolerance ≤ path - (s.now.since seenAt).seconds) :
    let v := View.of s.store s.memo
    let back := line.stopsBack target heading
    let seen := sightings v s.presence q.direction s.now 0 back
    ∃ calls : List Call, ∀ (outage : Outage) (n : Nat),
      let answer := ((s.underOutage outage n).predict q).1
      (∀ e, answer = .error (.store e) ↔ ∃ m, outage.first? n calls = some (m, e)) ∧
      (outage.first? n calls = none →
        ((∃ p, answer = .ok p) ↔ Connected v back ∨ ¬ Falls seen) ∧
        (∀ e, answer = .error e ↔ ∃ k, e = .missingConnection k ∧ FirstGap v back k ∧ Falls seen) ∧
        ∀ p, answer = .ok p → ∃ run c, LongestFall seen run ∧ c ∈ run.argmin Candidate.deviation ∧
          p = c.prediction line q) := by
  intro v back seen
  have hne : seen ≠ [] := List.ne_nil_of_mem (mem_sightings hway hseen hdue)
  have hobeys := obeys_predict v s.presence s.now q.station q.direction
  obtain ⟨calls, memo', -, hmakes⟩ := hobeys.makes s.memo rfl
  refine ⟨calls, fun outage n => ?_⟩
  intro answer
  refine ⟨?_, fun hnone => ?_⟩
  · exact hmakes.fst_eq_fail_iff (fun _ _ => PredictionError.store.inj) hobeys.own outage n
  · have hanswer : answer = predictWith (.seen v) s.presence s.now q.station q.direction :=
      congrArg Prod.fst (hmakes.through outage n hnone)
    rw [hanswer]
    refine ⟨hcourse.exists_prediction_iff_of_seen hne, fun e => ?_,
      fun p hp => hcourse.prediction_of_seen hne hp⟩
    rw [hcourse.eq_error_iff_of_seen hne]
    refine exists_congr fun k => and_congr_right fun _ => ?_
    exact ⟨fun h => ⟨h.gap, h.falls⟩, fun h => ⟨h.1, h.2⟩⟩

/-- A line on which nothing leads from the first stop to the next. -/
def stub : Line := ⟨"stub", "Stub", "n", ["a", "b", "c"], 2⟩

def stubStore : Store :=
  { (default : Store).saveConnection ⟨"b", "c", "stub", 60, 0, 0⟩ with lines := [stub] }

/-- Vehicles have been seen towards the last stop, at these stops, just now. -/
def stubService (seenAt : List StationId) : Service :=
  seenAt.foldl (fun s station => s.observe ⟨station, "c"⟩ ⟨0⟩)
    (.start ⟨⟨1, ⟨0⟩, ⟨0⟩, 9⟩, .ofSeconds 90, [], ⟨"live", "dev"⟩⟩ ⟨0⟩ stubStore)

theorem course_stub : Course stubStore ⟨"c", "c"⟩ stub .up 2 := ⟨rfl, rfl, rfl⟩

/-- A second vehicle at the station itself, from which the deviation rises to that of the one at `b`. -/
theorem Service.predict_seen_stub :
    let s := stubService ["b", "c"]
    let v := View.of s.store s.memo
    FirstGap v (stub.stopsBack 2 .up) ⟨"a", "b"⟩ ∧ ∃ p, (s.predict ⟨"c", "c"⟩).1 = .ok p := by
  intro s v
  have hway : (⟨1, "b"⟩, 60) ∈ way v 0 (stub.stopsBack 2 .up) := by decide
  obtain ⟨calls, hquery⟩ := s.predict_seen (q := ⟨"c", "c"⟩) course_stub hway rfl (by decide)
  obtain ⟨-, hanswers⟩ := hquery .never 0
  obtain ⟨hfinds, -, -⟩ := hanswers (Outage.first?_of_none (fun _ _ _ => rfl) calls)
  exact ⟨rfl, hfinds.mpr (.inr (by decide))⟩

/-- The vehicle at `b` is on its way to `c`, and yet the query is in error: it looks for others behind. -/
theorem Service.predict_stops_at_gap :
    ¬ ∀ (s : Service) (q : Sight) (line : Line) (heading : Heading) (target : Nat) (stop : Stop)
      (path : Int) (seenAt : Instant), s.source.Steady → Course s.store q line heading target →
        (stop, path) ∈ way (View.of s.store s.memo) 0 (line.stopsBack target heading) →
        s.presence.lastSeen? ⟨stop.station, q.direction⟩ = some seenAt →
        -Candidate.tolerance ≤ path - (s.now.since seenAt).seconds → ∃ p, (s.predict q).1 = .ok p := by
  intro h
  have hway : (⟨1, "b"⟩, 60) ∈ way (View.of (stubService ["b"]).store (stubService ["b"]).memo) 0
      (stub.stopsBack 2 .up) := by decide
  obtain ⟨p, hp⟩ := h (stubService ["b"]) ⟨"c", "c"⟩ stub .up 2 ⟨1, "b"⟩ 60 ⟨0⟩ (fun _ _ _ => rfl)
    course_stub hway rfl (by decide)
  have hgap : ((stubService ["b"]).predict ⟨"c", "c"⟩).1 = .error (.missingConnection ⟨"a", "b"⟩) := rfl
  rw [hgap] at hp
  cases hp

end Arrivals
