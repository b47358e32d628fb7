import Arrivals.Proofs.Position.Placing
import Arrivals.Proofs.Signal.Atomic

/-! What was seen, over a run. Main statement: the readings are the last hundred sightings that were noted,
or all of them, in their order; of each place the last sighting is known, however many have been noted
since; and nothing else that a service does changes either. -/

namespace Arrivals

namespace Presence

/-- What is known after these sightings, whatever their times: of all places the last one, and the latest
of them all. -/
structure Recalls (p : Presence) (calls : List Reading) : Prop where
  seen : ∀ k, p.lastSeen? k = (calls.reverse.find? fun r => r.sight = k).map Reading.time
  readings : p.readings = calls.drop (calls.length - history)

def registerAll (p : Presence) (calls : List Reading) : Presence :=
  calls.foldl (fun p r => p.register r.sight r.time) p

/-- A sighting of the place at this time, and none of it after that. -/
def LastCall (calls : List Reading) (k : Sight) (time : Instant) : Prop :=
  ∃ before after, calls = before ++ ⟨time, k⟩ :: after ∧ ∀ r ∈ after, r.sight ≠ k

variable {p : Presence} {calls : List Reading} {k : Sight} {time : Instant}

theorem recalls_empty : empty.Recalls [] := ⟨fun _ => rfl, rfl⟩

namespace Recalls

theorem length_readings (h : p.Recalls calls) : p.readings.length = min calls.length history := by
  rw [h.readings, List.length_drop]
  omega

theorem register (h : p.Recalls calls) (k : Sight) (now : Instant) :
    (p.register k now).Recalls (calls ++ [⟨now, k⟩]) where
  seen j := by
    rw [lastSeen?_register, h.seen j, List.reverse_append, List.reverse_singleton, List.singleton_append,
      List.find?_cons]
    by_cases hj : k = j <;> simp [hj]
  readings := by
    have hhistory : 0 < history := by decide
    -- What is given up of the readings is given up of the calls, for the readings are no more than `history`.
    have hgone : calls.length - history + (p.readings.length + 1 - history) =
        calls.length + 1 - history := by
      rw [h.length_readings]
      omega
    rw [readings_register, h.readings, List.drop_drop, ← h.readings, hgone, List.length_append,
      List.length_singleton, List.drop_append_of_le_length (by omega)]

theorem registerAll (h : p.Recalls calls) (more : List Reading) :
    (p.registerAll more).Recalls (calls ++ more) := by
  induction more generalizing p calls with
  | nil => rwa [List.append_nil]
  | cons r rest ih =>
    rw [List.append_cons]
    exact ih (h.register r.sight r.time)

theorem lastSeen?_eq_none_iff (h : p.Recalls calls) :
    p.lastSeen? k = none ↔ ∀ r ∈ calls, r.sight ≠ k := by
  rw [h.seen k, Option.map_eq_none_iff, List.find?_eq_none]
  simp

theorem lastSeen?_eq_some_iff (h : p.Recalls calls) :
    p.lastSeen? k = some time ↔ LastCall calls k time := by
  rw [h.seen k, Option.map_eq_some_iff]
  constructor
  · rintro ⟨r, hr, rfl⟩
    obtain ⟨hsight, after, before, hcalls, hafter⟩ := List.find?_eq_some_iff_append.mp hr
    rw [List.reverse_eq_append_iff] at hcalls
    rw [decide_eq_true_iff] at hsight
    refine ⟨before.reverse, after.reverse, ?_, fun r' hr' => ?_⟩
    · rw [hcalls, List.reverse_cons, List.append_assoc, List.singleton_append, ← hsight]
    · simpa using hafter r' (List.mem_reverse.mp hr')
  · rintro ⟨before, after, rfl, hafter⟩
    refine ⟨⟨time, k⟩, List.find?_eq_some_iff_append.mpr ⟨decide_eq_true rfl, after.reverse,
      before.reverse, by simp, fun r hr => ?_⟩, rfl⟩
    simpa using hafter r (List.mem_reverse.mp hr)

end Recalls

end Presence

namespace Service

/-- All that a service may be asked to do. -/
inductive Act where
  | event (e : Event)
  | report (x : Signal)
  | learn (window : Span)
  | file (slot : Slot) (a : Arrival)
  | mark (lines : List Line) (user : UserId) (justEntered : Bool)
  | sweepMarks
  | verify (username : String) (password : Bytes)
  | handle (session : Session) (packets : List Mqtt.Packet)
  | close (session : Session)

def act (s : Service) : Act → Service
  | .event e => s.step e
  | .report x => (s.signal x).2
  | .learn window => (s.learn window).2
  | .file slot a => s.setArrival slot a
  | .mark lines user justEntered => (s.registerActivity lines user justEntered).2
  | .sweepMarks => s.sweepActivity.2
  | .verify username password => (s.verify username password).2
  | .handle session packets => (s.handleAll session packets).2.2
  | .close session => (s.closeSession session).2

def actAll (s : Service) (acts : List Act) : Service := acts.foldl act s

/-- The sighting that is noted, if any: one that is called for, at its own time, or that of a report that
is accepted, at the time of the clock. -/
def noted (s : Service) : Act → List Reading
  | .event (.observe sight time) => [⟨time, sight⟩]
  | .report x =>
    match (s.signal x).1 with
    | .ok _ => [⟨s.now, ⟨x.station, x.direction⟩⟩]
    | .error _ => []
  | _ => []

def notedAll (s : Service) : List Act → List Reading
  | [] => []
  | a :: rest => s.noted a ++ (s.act a).notedAll rest

def sighting (r : Reading) : Act := .event (.observe r.sight r.time)

theorem presence_signal_of_ok {s : Service} {x : Signal} (h : (s.signal x).1 = .ok ⟨⟩) :
    (s.signal x).2.presence = s.presence.register ⟨x.station, x.direction⟩ s.now := by
  obtain ⟨n, -, ⟨reports, houtcome, hsignal⟩ | ⟨e, -, hsignal⟩⟩ := s.signal_cases x
  · obtain ⟨presence, activity⟩ := reports
    obtain ⟨rfl, -⟩ := Signal.outcome_eq_ok_iff.mp houtcome
    rw [hsignal]
    rfl
  · rw [hsignal] at h
    cases h

/-- Whatever is done, the presence comes to what it was with the sighting that is noted, or without one. -/
theorem presence_act (s : Service) (a : Act) :
    (s.act a).presence = s.presence.registerAll (s.noted a) := by
  cases a with
  | event e => cases e <;> rfl
  | report x =>
    rw [act, noted]
    cases hanswer : (s.signal x).1 with
    | ok done => exact presence_signal_of_ok hanswer
    | error e => exact congrArg Signal.Reports.presence (reports_of_signal_error hanswer)
  | mark lines user justEntered =>
    rw [act, registerActivity]
    cases s.activity.register s.settings.limits s.now lines user justEntered <;> rfl
  | _ => rfl

theorem recalls_act {s : Service} {calls : List Reading} (h : s.presence.Recalls calls) (a : Act) :
    (s.act a).presence.Recalls (calls ++ s.noted a) := by
  rw [presence_act]
  exact h.registerAll (s.noted a)

theorem recalls_actAll {s : Service} {calls : List Reading} (h : s.presence.Recalls calls)
    (acts : List Act) : (s.actAll acts).presence.Recalls (calls ++ s.notedAll acts) := by
  induction acts generalizing s calls with
  | nil => rwa [notedAll, List.append_nil]
  | cons a rest ih =>
    rw [notedAll, ← List.append_assoc]
    exact ih (recalls_act h a)

theorem notedAll_sightings (s : Service) (calls : List Reading) :
    s.notedAll (calls.map sighting) = calls := by
  induction calls generalizing s with
  | nil => rfl
  | cons r rest ih => exact congrArg (r :: ·) (ih (s.act (sighting r)))

/-- From the start of a service on, whatever it does, the readings are the last of the sightings noted so
far, a hundred or all there are, in their order; a place was last seen at the time of the last sighting
noted of just that place, and of no other place is anything known. Any sightings at any times can be
noted in a row, and what notes none changes nothing of this. -/
theorem presence_keeps_history (settings : Settings) (now : Instant) (store : Store)
    (acts : List Act) :
    let s := start settings now store
    let calls := s.notedAll acts
    let p := (s.actAll acts).presence
    (p.readings = calls.drop (calls.length - 100) ∧ p.readings.length = min calls.length 100) ∧
    (∀ k time, p.lastSeen? k = some time ↔ Presence.LastCall calls k time) ∧
    (∀ k, p.lastSeen? k = none ↔ ∀ r ∈ calls, r.sight ≠ k) ∧
    (∀ calls : List Reading, s.notedAll (calls.map sighting) = calls) ∧
    ∀ (s' : Service) (a : Act), s'.noted a = [] → (s'.act a).presence = s'.presence := by
  intro s calls p
  have hrecalls : p.Recalls calls := recalls_actAll (s := s) Presence.recalls_empty acts
  refine ⟨⟨hrecalls.readings, hrecalls.length_readings⟩, fun k time => hrecalls.lastSeen?_eq_some_iff,
    fun k => hrecalls.lastSeen?_eq_none_iff, s.notedAll_sightings, fun s' a hnone => ?_⟩
  rw [presence_act, hnone]
  rfl

/-- A hundred sightings later, and before it by the clock, the quay is still known, though its sighting is
no longer among the readings. -/
example :
    let p := Presence.empty.registerAll (⟨⟨0⟩, ⟨"quay", "isle"⟩⟩ ::
      (List.range 100).map fun n => ⟨⟨-n⟩, ⟨"pier", "isle"⟩⟩)
    p.readings.head? = some ⟨⟨0⟩, ⟨"pier", "isle"⟩⟩ ∧ p.readings.length = 100 ∧
      p.lastSeen? ⟨"quay", "isle"⟩ = some ⟨0⟩ ∧ p.lastSeen? ⟨"pier", "isle"⟩ = some ⟨-99⟩ ∧
      p.lastSeen? ⟨"isle", "quay"⟩ = none := by
  decide +kernel

end Service

end Arrivals
