import Arrivals.Time.Instant
import Mathlib.Data.List.Induction

/-! Events along a clock that does not go back. -/

namespace Arrivals

/-- What holds at the start at any time, outlasts the passing of time and is kept by each event at its
own time holds after all events that come in the order of their times. -/
theorem Instant.run_induction {E : Type} {time : E → Instant} {P : List E → Instant → Prop}
    (start : ∀ now, P [] now)
    (later : ∀ {events now after}, P events now → now ≤ after → P events after)
    (event : ∀ {events} e, P events (time e) → P (events ++ [e]) (time e))
    {events : List E} {now : Instant} (hclock : (events.map time ++ [now]).Pairwise (· ≤ ·)) :
    P events now := by
  induction events using List.reverseRecOn generalizing now with
  | nil => exact start now
  | append_singleton events e ih =>
    rw [List.map_append, List.map_singleton, List.pairwise_append] at hclock
    obtain ⟨hbefore, -, hlast⟩ := hclock
    exact later (event e (ih hbefore)) (hlast _ (by simp) _ (by simp))

end Arrivals
