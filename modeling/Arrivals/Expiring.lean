import Arrivals.Table
import Arrivals.Time.Instant

/-! Tables whose values are visible for a time only. A value that has expired stays until it is
asked for or swept away. -/

namespace Arrivals

structure Lease (α : Type v) where
  value : α
  expires : Instant
  deriving DecidableEq, Repr, Inhabited

namespace Lease

variable {α : Type v}

def live (l : Lease α) (now : Instant) : Bool := now < l.expires

def current? (l : Lease α) (now : Instant) : Option α := if l.live now then some l.value else none

end Lease

structure Expiring (κ : Type u) (α : Type v) where
  leases : Table κ (Lease α)
  deriving Inhabited

namespace Expiring

variable {κ : Type u} {α : Type v}

def empty : Expiring κ α := ⟨.empty⟩

def size (t : Expiring κ α) : Nat := t.leases.size

def isEmpty (t : Expiring κ α) : Bool := t.leases.isEmpty

def liveEntries (t : Expiring κ α) (now : Instant) : List (κ × α) :=
  t.leases.entries.filterMap fun e => (e.2.current? now).map fun a => (e.1, a)

def liveCount (t : Expiring κ α) (now : Instant) : Nat := (t.liveEntries now).length

theorem nodup_keys_liveEntries (t : Expiring κ α) (now : Instant) :
    ((t.liveEntries now).map Prod.fst).Nodup := by
  refine t.leases.distinct.sublist ?_
  rw [liveEntries]
  induction t.leases.entries with
  | nil => exact .slnil
  | cons e rest ih =>
    rw [List.filterMap_cons, List.map_cons]
    cases e.2.current? now with
    | none => exact ih.cons _
    | some a => exact ih.cons_cons _

variable [DecidableEq κ]

def visible? (t : Expiring κ α) (now : Instant) (k : κ) : Option α :=
  (t.leases.get? k).bind fun l => l.current? now

def set (t : Expiring κ α) (now : Instant) (k : κ) (a : α) (ttl : Span) : Expiring κ α :=
  ⟨t.leases.insert k ⟨a, now.after ttl⟩⟩

def sweep (t : Expiring κ α) (now : Instant) : Expiring κ α :=
  ⟨t.leases.filter fun _ l => l.live now⟩

def touch (t : Expiring κ α) (now : Instant) (k : κ) : Expiring κ α :=
  ⟨t.leases.filter fun j l => !decide (j = k) || l.live now⟩

def erase (t : Expiring κ α) (k : κ) : Expiring κ α := ⟨t.leases.erase k⟩

@[simp] theorem visible?_set (t : Expiring κ α) (now later : Instant) (k j : κ) (a : α)
    (ttl : Span) :
    (t.set now k a ttl).visible? later j =
      if k = j then (if later < now.after ttl then some a else none) else t.visible? later j := by
  by_cases h : k = j <;> simp [visible?, set, h, Lease.current?, Lease.live]

@[simp] theorem visible?_erase (t : Expiring κ α) (now : Instant) (k j : κ) :
    (t.erase k).visible? now j = if j = k then none else t.visible? now j := by
  by_cases h : j = k <;> simp [visible?, erase, h]

theorem visible?_eq_some_iff {t : Expiring κ α} {now : Instant} {k : κ} {a : α} :
    t.visible? now k = some a ↔ ∃ l, t.leases.get? k = some l ∧ now < l.expires ∧ l.value = a := by
  simp [visible?, Lease.current?, Lease.live, Option.bind_eq_some_iff]

/-- Once a lease has expired, it is not seen again. -/
theorem visible?_of_filter {t : Expiring κ α} {p : κ → Lease α → Bool} {now later : Instant}
    (hp : ∀ j l, l.live now = true → p j l = true) (h : now ≤ later) (k : κ) :
    visible? ⟨t.leases.filter p⟩ later k = t.visible? later k := by
  simp only [visible?, Table.get?_filter]
  cases t.leases.get? k with
  | none => rfl
  | some l =>
    cases hk : p k l with
    | true => rw [Option.filter_some, if_pos hk]
    | false =>
      have hnow : l.live now = false := Bool.eq_false_iff.mpr fun hl => by simp [hp k l hl] at hk
      have hlater : l.live later = false := by
        simp only [Lease.live, decide_eq_false_iff_not, Instant.lt_iff] at hnow ⊢
        rw [Instant.le_iff] at h
        omega
      simp [Option.filter_some, hk, Lease.current?, hlater]

theorem visible?_sweep (t : Expiring κ α) {now later : Instant} (h : now ≤ later) (k : κ) :
    (t.sweep now).visible? later k = t.visible? later k :=
  visible?_of_filter (fun _ _ hl => hl) h k

theorem visible?_touch (t : Expiring κ α) {now later : Instant} (h : now ≤ later) (j k : κ) :
    (t.touch now j).visible? later k = t.visible? later k :=
  visible?_of_filter (fun _ _ hl => by simp [hl]) h k

theorem mem_liveEntries_iff {t : Expiring κ α} {now : Instant} {k : κ} {a : α} :
    (k, a) ∈ t.liveEntries now ↔ t.visible? now k = some a := by
  rw [liveEntries, List.mem_filterMap, visible?, Option.bind_eq_some_iff]
  constructor
  · rintro ⟨⟨j, l⟩, hl, hj⟩
    obtain ⟨b, hb, he⟩ := Option.map_eq_some_iff.mp hj
    cases he
    exact ⟨l, Table.mem_entries_iff.mp hl, hb⟩
  · rintro ⟨l, hl, ha⟩
    exact ⟨(k, l), Table.mem_entries_iff.mpr hl, by rw [ha]; rfl⟩

end Expiring

end Arrivals
