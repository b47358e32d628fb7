import Arrivals.Proofs.Board.Leases
import Arrivals.Proofs.Board.Positions
import Arrivals.Proofs.Clock

/-! The board over a run of calls. Main statement: no arrival is read after its time, and as long as the
clock does not go back, what is read under a slot is the latest arrival that was put there in time. -/

namespace Arrivals.Board

/-- Calls, each with the time that the clock shows. -/
inductive Event where
  | set (now : Instant) (slot : Slot) (a : Arrival)
  | next (now : Instant) (station direction : StationId) (count : UInt8)
  | all (now : Instant)
  | positions (now : Instant)
  | sweep (now : Instant)

namespace Event

def time : Event → Instant
  | set now _ _ => now
  | next now _ _ _ => now
  | all now => now
  | positions now => now
  | sweep now => now

def isSet : Event → Bool
  | set _ _ _ => true
  | next _ _ _ _ => false
  | all _ => false
  | positions _ => false
  | sweep _ => false

/-- The arrival that is put under the slot, unless it has expired by then. -/
def fresh? (slot : Slot) : Event → Option Arrival
  | set now j a => if j = slot ∧ now < a.expires then some a else none
  | next _ _ _ _ => none
  | all _ => none
  | positions _ => none
  | sweep _ => none

end Event

def answer (b : Board) : Event → List Arrival
  | .set _ _ _ => []
  | .next now station direction count => b.next now station direction count.toNat
  | .all now => (b.all now).map Prod.snd
  | .positions now => b.currentPositions now
  | .sweep _ => []

def step (b : Board) : Event → Board
  | .set now slot a => b.set now slot a
  | .next now station direction count => b.touch now station direction count.toNat
  | .all _ => b
  | .positions _ => b
  | .sweep now => b.sweep now

def run (events : List Event) : Board := events.foldl step empty

def latest? (slot : Slot) (events : List Event) : Option Arrival :=
  (events.filterMap (Event.fresh? slot)).getLast?

variable {b : Board} {now : Instant} {a : Arrival} {e : Event} {events : List Event}

theorem Timely.step (h : b.Timely) (e : Event) : (b.step e).Timely := by
  cases e with
  | set now slot a => exact h.set now slot a
  | next now station direction count => exact h.touch now station direction _
  | all => exact h
  | positions => exact h
  | sweep now => exact h.sweep now

theorem timely_run (events : List Event) : (run events).Timely :=
  List.foldlRecOn events step timely_empty fun _ h e _ => h.step e

theorem visible_of_mem_answer (h : a ∈ b.answer e) :
    ∃ slot, b.arrivals.visible? e.time slot = some a := by
  cases e with
  | set => cases h
  | next now station direction count =>
    obtain ⟨slot, -, hslot⟩ := List.mem_filterMap.mp h
    exact ⟨slot, hslot⟩
  | all now =>
    obtain ⟨⟨slot, _⟩, hmem, rfl⟩ := List.mem_map.mp h
    exact ⟨slot, mem_all_iff.mp hmem⟩
  | positions now =>
    obtain ⟨slot, hslot⟩ := mem_currentPositions_iff.mp h
    exact ⟨slot, hslot.live⟩
  | sweep => cases h

/-- From now on, each slot shows the latest arrival that was put there, as long as it lasts. -/
def Holds (b : Board) (events : List Event) (now : Instant) : Prop :=
  ∀ later, now ≤ later → ∀ slot,
    b.arrivals.visible? later slot = (latest? slot events).filter fun a => later < a.expires

theorem Holds.from {later : Instant} (h : b.Holds events now) (hlater : now ≤ later) :
    b.Holds events later :=
  fun after hafter => h after (Int.le_trans hlater hafter)

theorem latest?_append (slot : Slot) (events : List Event) (e : Event) :
    latest? slot (events ++ [e]) = (e.fresh? slot).or (latest? slot events) := by
  rw [latest?, List.filterMap_append, latest?, List.getLast?_append]
  cases h : e.fresh? slot <;> simp [h]

theorem Holds.step (h : b.Holds events now) (he : now ≤ e.time) :
    (b.step e).Holds (events ++ [e]) e.time := by
  intro later hlater slot
  have hbefore := h later (Int.le_trans he hlater) slot
  rw [latest?_append]
  cases e with
  | set now j a =>
    rw [Board.step, visible?_set, Event.fresh?, hbefore]
    split
    · rw [Option.some_or, Option.filter_some]
      simp
    · rw [Option.none_or]
  | next now station direction count =>
    exact (visible?_touch b hlater station direction count.toNat slot).trans hbefore
  | all => exact hbefore
  | positions => exact hbefore
  | sweep now => exact (visible?_sweep b hlater slot).trans hbefore

theorem holds_run (hclock : (events.map Event.time ++ [now]).Pairwise (· ≤ ·)) :
    (run events).Holds events now := by
  refine Instant.run_induction (P := fun events now => (run events).Holds events now)
    (fun _ _ _ _ => rfl) Holds.from (fun e h => ?_) hclock
  rw [run, List.foldl_append]
  exact h.step (Int.le_refl _)

theorem latest?_filter_isSet (slot : Slot) (events : List Event) :
    latest? slot (events.filter Event.isSet) = latest? slot events := by
  rw [latest?, List.filterMap_filter, latest?]
  congr 2
  funext e
  cases e <;> rfl

/-- In order of their ranks, what the run left under the slots that has not expired. -/
theorem Holds.next_eq (h : b.Holds events now) (station direction : StationId) (count : Nat) :
    b.next now station direction count = (slots station direction count).filterMap fun slot =>
      (latest? slot events).filter fun a => now < a.expires :=
  List.filterMap_congr fun slot _ => h now (Int.le_refl _) slot

/-- Whatever the clock does, an answer holds no arrival that has expired. As long as it does not go back,
asking for the next arrivals gives, by rank, the latest arrival that was put under each slot before it
expired, while it has not; calls that put nothing there make no difference. -/
theorem run_keeps_latest (events : List Event) :
    (∀ e, ∀ a ∈ (run events).answer e, e.time < a.computed.after a.validity) ∧
    ∀ now, (events.map Event.time ++ [now]).Pairwise (· ≤ ·) → ∀ station direction (count : UInt8),
      (run events).answer (.next now station direction count) =
        ((List.range count.toNat).map fun i => UInt8.ofNat (i + 1)).filterMap (fun rank =>
          (latest? ⟨station, direction, rank⟩ events).filter fun a =>
            now < a.computed.after a.validity) ∧
      (run (events.filter Event.isSet)).answer (.next now station direction count) =
        (run events).answer (.next now station direction count) := by
  refine ⟨fun e a ha => ?_, fun now hclock station direction count => ?_⟩
  · obtain ⟨slot, hslot⟩ := visible_of_mem_answer ha
    exact (timely_run events).lt_expires hslot
  · have hall := holds_run hclock
    have hsets : (run (events.filter Event.isSet)).Holds (events.filter Event.isSet) now :=
      holds_run (hclock.sublist ((List.filter_sublist.map _).append_right _))
    refine ⟨?_, ?_⟩
    · rw [answer, hall.next_eq, slots, List.filterMap_map, List.filterMap_map]
      rfl
    · rw [answer, answer, hall.next_eq, hsets.next_eq]
      exact List.filterMap_congr fun slot _ => by rw [latest?_filter_isSet]

/-- An arrival computed at nought, at the one station there is. -/
def due (vehicle : VehicleId) (validity : Span) : Arrival :=
  ⟨vehicle, "blue", "s", "end", ⟨0⟩, validity, 6, none, .exact 60, .seconds⟩

/-- What comes for the first slot after twenty seconds has expired by then, and changes nothing. -/
def platformEvents : List Event :=
  [.set ⟨0⟩ ⟨"s", "end", 3⟩ (due "v3" (.ofSeconds 60)),
    .set ⟨0⟩ ⟨"s", "end", 1⟩ (due "v1" (.ofSeconds 45)), .next (.ofMillis 10000) "s" "end" 3,
    .set (.ofMillis 20000) ⟨"s", "end", 1⟩ (due "v2" (.ofSeconds 15)), .sweep (.ofMillis 30000)]

theorem run_keeps_latest_platform :
    let now := Instant.ofMillis 40000
    (platformEvents.map Event.time ++ [now]).Pairwise (· ≤ ·) ∧
      ((run platformEvents).answer (.next now "s" "end" 3)).map Arrival.vehicle = ["v1", "v3"] ∧
      ∀ a ∈ (run platformEvents).answer (.all now), now < a.computed.after a.validity := by
  intro now
  have hclock : (platformEvents.map Event.time ++ [now]).Pairwise (· ≤ ·) := by decide +kernel
  obtain ⟨hlive, hlatest⟩ := run_keeps_latest platformEvents
  rw [(hlatest now hclock "s" "end" 3).1]
  exact ⟨hclock, by decide +kernel, hlive (.all now)⟩

end Arrivals.Board
