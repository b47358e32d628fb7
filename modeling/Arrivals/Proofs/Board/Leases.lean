import Arrivals.Board

/-! What is filed on the board, and until when. Main statement: it runs out when its arrival does, and
calls that only read or drop what has run out are not seen from then on. -/

namespace Arrivals.Board

variable {b : Board} {now later : Instant} {slot : Slot} {a : Arrival}

def lease? (b : Board) (slot : Slot) : Option (Lease Arrival) := b.arrivals.leases.get? slot

theorem lease?_set (b : Board) (now : Instant) (slot j : Slot) (a : Arrival) :
    (b.set now slot a).lease? j =
      if slot = j ∧ now < a.expires then some ⟨a, a.expires⟩ else b.lease? j := by
  have hlate : a.expires.since now ≤ ⟨0⟩ ↔ ¬ now < a.expires := by
    change a.expires.nanos - now.nanos ≤ 0 ↔ ¬ now.nanos < a.expires.nanos
    omega
  rw [set]
  by_cases h : now < a.expires
  · simp [hlate, h, lease?, Expiring.set]
  · simp [hlate, h]

theorem lease?_sweep (b : Board) (now : Instant) (slot : Slot) :
    (b.sweep now).lease? slot = (b.lease? slot).filter fun l => l.live now :=
  Table.get?_filter _ _ _

theorem visible?_eq (b : Board) (now : Instant) (slot : Slot) :
    b.arrivals.visible? now slot = (b.lease? slot).bind fun l => l.current? now := rfl

theorem visible?_set (b : Board) (now later : Instant) (slot j : Slot) (a : Arrival) :
    (b.set now slot a).arrivals.visible? later j =
      if slot = j ∧ now < a.expires then (if later < a.expires then some a else none)
      else b.arrivals.visible? later j := by
  rw [visible?_eq, lease?_set, visible?_eq]
  split
  · simp [Lease.current?, Lease.live]
  · rfl

theorem visible?_touch (b : Board) (h : now ≤ later) (station direction : StationId) (count : Nat)
    (j : Slot) :
    (b.touch now station direction count).arrivals.visible? later j =
      b.arrivals.visible? later j := by
  rw [touch]
  generalize b.arrivals = t
  induction slots station direction count generalizing t with
  | nil => rfl
  | cons s rest ih => rw [List.foldl_cons, ih, Expiring.visible?_touch t h]

theorem visible?_sweep (b : Board) (h : now ≤ later) (j : Slot) :
    (b.sweep now).arrivals.visible? later j = b.arrivals.visible? later j :=
  Expiring.visible?_sweep _ h j

theorem lease?_of_touch {station direction : StationId} {count : Nat} {l : Lease Arrival}
    (h : (b.touch now station direction count).lease? slot = some l) : b.lease? slot = some l := by
  have htouch (t : Expiring Slot Arrival) (s : Slot) (ht : (t.touch now s).leases.get? slot = some l) :
      t.leases.get? slot = some l := by
    rw [Expiring.touch, Table.get?_filter, Option.filter_eq_some_iff] at ht
    exact ht.1
  rw [lease?, touch] at h
  rw [lease?]
  generalize b.arrivals = t, slots station direction count = rest at h ⊢
  induction rest generalizing t with
  | nil => exact h
  | cons s rest ih => exact htouch t s (ih _ h)

theorem lease?_of_sweep {l : Lease Arrival} (h : (b.sweep now).lease? slot = some l) :
    b.lease? slot = some l := by
  rw [lease?_sweep, Option.filter_eq_some_iff] at h
  exact h.1

/-- Every arrival is filed until it expires, whatever the clock showed when it was filed. -/
def Timely (b : Board) : Prop := ∀ slot l, b.lease? slot = some l → l.expires = l.value.expires

theorem lease?_empty (slot : Slot) : empty.lease? slot = none := rfl

theorem timely_empty : empty.Timely := fun slot l h => by
  rw [lease?_empty] at h
  cases h

theorem Timely.set (h : b.Timely) (now : Instant) (slot : Slot) (a : Arrival) :
    (b.set now slot a).Timely := by
  intro j l hl
  rw [lease?_set] at hl
  split at hl
  · cases hl
    rfl
  · exact h j l hl

theorem Timely.touch (h : b.Timely) (now : Instant) (station direction : StationId) (count : Nat) :
    (b.touch now station direction count).Timely :=
  fun j l hl => h j l (lease?_of_touch hl)

theorem Timely.sweep (h : b.Timely) (now : Instant) : (b.sweep now).Timely :=
  fun j l hl => h j l (lease?_of_sweep hl)

theorem Timely.lt_expires (h : b.Timely) (ha : b.arrivals.visible? now slot = some a) :
    now < a.expires := by
  obtain ⟨l, hl, hlive, rfl⟩ := Expiring.visible?_eq_some_iff.mp ha
  rw [← h slot l hl]
  exact hlive

end Arrivals.Board
