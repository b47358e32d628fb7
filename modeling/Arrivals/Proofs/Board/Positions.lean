import Arrivals.Board
import Mathlib.Data.List.Induction
import Mathlib.Data.List.Sort
import Mathlib.Data.Prod.Lex
import Mathlib.Data.String.Basic

/-! The soonest arrival of each vehicle. Main statement: of the live arrivals of a vehicle the one that
comes first is kept, and of those that come together the one with the first slot, whatever the order in
which they are met. -/

namespace Arrivals

namespace Slot

/-- Slots go by station, then by direction, then by rank. -/
def key (s : Slot) : String ×ₗ String ×ₗ Nat := toLex (s.station, toLex (s.direction, s.rank.toNat))

theorem before_iff {s t : Slot} : s.before t = true ↔ s.key < t.key := by
  simp [before, key, Prod.Lex.toLex_lt_toLex, UInt8.lt_iff_toNat_lt]

theorem not_before_iff {s t : Slot} : (!s.before t) = true ↔ t.key ≤ s.key := by
  rw [Bool.not_eq_true', ← Bool.not_eq_true, before_iff, not_lt]

theorem key_injective : Function.Injective key := by
  rintro ⟨s, d, r⟩ ⟨s', d', r'⟩ h
  simp only [key, EmbeddingLike.apply_eq_iff_eq, Prod.mk.injEq, UInt8.toNat_inj] at h
  obtain ⟨rfl, rfl, rfl⟩ := h
  rfl

end Slot

namespace Board

variable {b : Board} {now : Instant} {slot : Slot} {a : Arrival} {v : VehicleId}

theorem mem_all_iff : (slot, a) ∈ b.all now ↔ b.arrivals.visible? now slot = some a := by
  rw [all, List.mem_mergeSort, Expiring.mem_liveEntries_iff]

/-- Sorting by distinct keys leaves them strictly in order. -/
theorem pairwise_mergeSort_lt {α β : Type} [LinearOrder β] {le : α → α → Bool} (key : α → β)
    (hle : ∀ x y, le x y = true ↔ key x ≤ key y) {l : List α} (h : (l.map key).Nodup) :
    (l.mergeSort le).Pairwise fun x y => key x < key y := by
  have hsorted : (l.mergeSort le).Pairwise fun x y => le x y = true := by
    refine List.pairwise_mergeSort (fun x y z hxy hyz => ?_) (fun x y => ?_) _
    · rw [hle] at *
      exact hxy.trans hyz
    · rw [Bool.or_eq_true, hle, hle]
      exact le_total _ _
  have hdistinct : (l.mergeSort le).Pairwise fun x y => key x ≠ key y := by
    rw [← List.pairwise_map]
    exact ((List.mergeSort_perm l _).map key).nodup_iff.mpr h
  exact (hsorted.and hdistinct).imp fun hxy => lt_of_le_of_ne ((hle _ _).mp hxy.1) hxy.2

theorem pairwise_all (b : Board) (now : Instant) :
    (b.all now).Pairwise fun x y => x.1.key < y.1.key := by
  refine pairwise_mergeSort_lt (fun e : Slot × Arrival => e.1.key) (fun _ _ => Slot.not_before_iff) ?_
  rw [← Function.comp_def Slot.key, ← List.map_map]
  exact (b.arrivals.nodup_keys_liveEntries now).map Slot.key_injective

/-- How arrivals of one vehicle compare: by the seconds that are left, then by their slots. -/
def standing (now : Instant) (e : Slot × Arrival) : Int ×ₗ String ×ₗ String ×ₗ Nat :=
  toLex (rankingSeconds e.2 now, e.1.key)

theorem standing_le_iff (x y : Slot × Arrival) :
    standing now x ≤ standing now y ↔ rankingSeconds x.2 now < rankingSeconds y.2 now ∨
      rankingSeconds x.2 now = rankingSeconds y.2 now ∧ x.1.key ≤ y.1.key :=
  Prod.Lex.toLex_le_toLex

/-- Of some arrivals of a vehicle this one is the first. -/
structure Leads (now : Instant) (l : List (Slot × Arrival)) (v : VehicleId) (slot : Slot)
    (a : Arrival) : Prop where
  mem : (slot, a) ∈ l
  vehicle : a.vehicle = v
  least : ∀ e ∈ l, e.2.vehicle = v → standing now (slot, a) ≤ standing now e

def soonestOf (now : Instant) (l : List Arrival) : Table VehicleId Arrival :=
  l.foldl (keepSoonest now) .empty

theorem get?_keepSoonest (t : Table VehicleId Arrival) (a : Arrival) (v : VehicleId) :
    (keepSoonest now t a).get? v = if a.vehicle = v ∧
      ∀ best ∈ t.get? v, rankingSeconds a now < rankingSeconds best now then some a else t.get? v := by
  rw [keepSoonest]
  by_cases hv : a.vehicle = v
  · subst hv
    cases ht : t.get? a.vehicle with
    | none => simp
    | some best =>
      by_cases hle : rankingSeconds best now ≤ rankingSeconds a now
      · simp [hle, ht]
      · simp [hle, Int.not_le.mp hle]
  · cases t.get? a.vehicle with
    | none => simp [hv]
    | some best =>
      dsimp only
      split <;> simp [hv]

theorem filedBy_soonestOf (l : List Arrival) : (soonestOf now l).FiledBy Arrival.vehicle := by
  rw [soonestOf]
  refine List.foldlRecOn l _ (Table.filedBy_empty _) fun t ht a _ => ?_
  rw [keepSoonest]
  split
  · split
    · exact ht
    · exact ht.insert a
  · exact ht.insert a

/-- Arrivals are met in the order of their slots, so one that comes no sooner stands behind. -/
theorem get?_soonestOf {l : List (Slot × Arrival)} (hl : l.Pairwise fun x y => x.1.key < y.1.key)
    (v : VehicleId) :
    (∀ a ∈ (soonestOf now (l.map Prod.snd)).get? v, ∃ slot, Leads now l v slot a) ∧
      ((soonestOf now (l.map Prod.snd)).get? v = none → ∀ e ∈ l, e.2.vehicle ≠ v) := by
  induction l using List.reverseRecOn with
  | nil => exact ⟨by simp [soonestOf], by simp⟩
  | append_singleton l x ih =>
    rw [List.pairwise_append] at hl
    obtain ⟨hl, -, hlast⟩ := hl
    obtain ⟨hsome, hnone⟩ := ih hl
    have hstep : soonestOf now ((l ++ [x]).map Prod.snd) =
        keepSoonest now (soonestOf now (l.map Prod.snd)) x.2 := by
      simp [soonestOf]
    rw [hstep, get?_keepSoonest]
    split
    next h =>
      obtain ⟨hv, hbest⟩ := h
      refine ⟨fun a ha => ?_, fun hnone => absurd hnone (Option.some_ne_none _)⟩
      cases ha
      refine ⟨x.1, by simp, hv, fun e he hev => ?_⟩
      rcases List.mem_append.mp he with he | he
      · cases ht : (soonestOf now (l.map Prod.snd)).get? v with
        | none => exact absurd hev (hnone ht e he)
        | some best =>
          obtain ⟨slot, hlead⟩ := hsome best ht
          refine le_trans ?_ (hlead.least e he hev)
          exact (standing_le_iff x (slot, best)).mpr (.inl (hbest best ht))
      · rw [List.mem_singleton.mp he]
    next h =>
      refine ⟨fun best ht => ?_, fun ht e he => ?_⟩
      · obtain ⟨slot, hlead⟩ := hsome best ht
        refine ⟨slot, List.mem_append_left _ hlead.mem, hlead.vehicle, fun e he hev => ?_⟩
        rcases List.mem_append.mp he with he | he
        · exact hlead.least e he hev
        · rw [List.mem_singleton.mp he] at hev ⊢
          have hle : rankingSeconds best now ≤ rankingSeconds x.2 now := by
            by_contra hlt
            refine h ⟨hev, fun best' ht' => ?_⟩
            rw [ht] at ht'
            cases ht'
            omega
          have hslot : slot.key ≤ x.1.key := (hlast _ hlead.mem x (by simp)).le
          exact (standing_le_iff (slot, best) x).mpr (hle.lt_or_eq.imp_right fun he => ⟨he, hslot⟩)
      · rcases List.mem_append.mp he with he | he
        · exact hnone ht e he
        · rw [List.mem_singleton.mp he]
          intro hev
          exact h ⟨hev, by simp [ht]⟩

/-- Of the live arrivals of its vehicle none comes sooner, and of those that come together none has
an earlier slot. -/
structure Soonest (b : Board) (now : Instant) (slot : Slot) (a : Arrival) : Prop where
  live : b.arrivals.visible? now slot = some a
  least : ∀ slot' a', b.arrivals.visible? now slot' = some a' → a'.vehicle = a.vehicle →
    rankingSeconds a now < rankingSeconds a' now ∨
      rankingSeconds a now = rankingSeconds a' now ∧ slot'.before slot = false

theorem soonest_iff : b.Soonest now slot a ↔ Leads now (b.all now) a.vehicle slot a := by
  have hbefore (s t : Slot) : t.before s = false ↔ s.key ≤ t.key := by
    rw [← Slot.not_before_iff, Bool.not_eq_true']
  constructor
  · intro h
    refine ⟨mem_all_iff.mpr h.live, rfl, fun e he hv => ?_⟩
    rw [standing_le_iff, ← hbefore]
    exact h.least e.1 e.2 (mem_all_iff.mp he) hv
  · intro h
    refine ⟨mem_all_iff.mp h.mem, fun slot' a' hlive hv => ?_⟩
    rw [hbefore]
    exact (standing_le_iff (slot, a) (slot', a')).mp (h.least _ (mem_all_iff.mpr hlive) hv)

theorem Soonest.unique {slot' : Slot} {a' : Arrival} (h : b.Soonest now slot a)
    (h' : b.Soonest now slot' a') (hv : a'.vehicle = a.vehicle) : a' = a := by
  have hle := (soonest_iff.mp h).least _ (soonest_iff.mp h').mem hv
  have hle' := (soonest_iff.mp h').least _ (soonest_iff.mp h).mem hv.symm
  have hkey : slot.key = slot'.key := congrArg (fun s => (ofLex s).2) (le_antisymm hle hle')
  have hlive := h.live
  rw [Slot.key_injective hkey, h'.live] at hlive
  exact Option.some.inj hlive

def soonestByVehicle (b : Board) (now : Instant) : Table VehicleId Arrival :=
  soonestOf now ((b.all now).map Prod.snd)

theorem soonest_of_get? (h : (b.soonestByVehicle now).get? v = some a) :
    a.vehicle = v ∧ ∃ slot, b.Soonest now slot a := by
  obtain ⟨slot, hlead⟩ := (get?_soonestOf (b.pairwise_all now) v).1 a h
  obtain rfl := hlead.vehicle
  exact ⟨rfl, slot, soonest_iff.mpr hlead⟩

/-- One arrival is kept for whichever vehicle has a live one. -/
theorem exists_soonest (h : b.arrivals.visible? now slot = some a) :
    ∃ best, (b.soonestByVehicle now).get? a.vehicle = some best := by
  cases ht : (b.soonestByVehicle now).get? a.vehicle with
  | none => exact absurd rfl ((get?_soonestOf (b.pairwise_all now) _).2 ht _ (mem_all_iff.mpr h))
  | some best => exact ⟨best, rfl⟩

theorem mem_values_soonestByVehicle :
    a ∈ (b.soonestByVehicle now).values ↔ ∃ slot, b.Soonest now slot a := by
  have hget : a ∈ (b.soonestByVehicle now).values ↔ (b.soonestByVehicle now).get? a.vehicle = some a := by
    rw [Table.values, List.mem_map]
    constructor
    · rintro ⟨e, he, rfl⟩
      rw [← Table.mem_entries_iff, filedBy_soonestOf _ e he]
      exact he
    · exact fun h => ⟨_, Table.mem_entries_iff.mpr h, rfl⟩
  rw [hget]
  refine ⟨fun h => (soonest_of_get? h).2, fun ⟨slot, h⟩ => ?_⟩
  obtain ⟨best, ht⟩ := exists_soonest h.live
  obtain ⟨hv, slot', hbest⟩ := soonest_of_get? ht
  rw [ht, h.unique hbest hv]

theorem nodup_vehicle_values (b : Board) (now : Instant) :
    ((b.soonestByVehicle now).values.map Arrival.vehicle).Nodup := by
  have hkeys : (b.soonestByVehicle now).values.map Arrival.vehicle = (b.soonestByVehicle now).keys := by
    rw [Table.values, Table.keys, List.map_map]
    exact List.map_congr_left fun e he => filedBy_soonestOf _ e he
  rw [hkeys]
  exact Table.distinct _

def byVehicle (x y : Arrival) : Bool := !decide (y.vehicle < x.vehicle)

theorem byVehicle_iff {x y : Arrival} : byVehicle x y = true ↔ x.vehicle ≤ y.vehicle := by
  rw [byVehicle, Bool.not_eq_true', decide_eq_false_iff_not, not_lt]

/-- Sorted by vehicle, arrivals of different vehicles come out in one way, in whatever order they were. -/
theorem pairwise_mergeSort_byVehicle {l : List Arrival} (h : (l.map Arrival.vehicle).Nodup) :
    (l.mergeSort byVehicle).Pairwise fun x y => x.vehicle < y.vehicle :=
  pairwise_mergeSort_lt Arrival.vehicle (fun _ _ => byVehicle_iff) h

theorem eq_of_sorted {l r : List Arrival} (hl : l.Pairwise fun x y => x.vehicle < y.vehicle)
    (hr : r.Pairwise fun x y => x.vehicle < y.vehicle) (h : ∀ a, a ∈ l ↔ a ∈ r) : l = r := by
  have hperm : l.Perm r := (List.perm_ext_iff_of_nodup
    (hl.imp fun hlt => ne_of_apply_ne Arrival.vehicle hlt.ne)
    (hr.imp fun hlt => ne_of_apply_ne Arrival.vehicle hlt.ne)).mpr h
  exact hperm.eq_of_pairwise (fun _ _ _ _ hxy hyx => absurd hyx hxy.not_gt) hl hr

theorem pairwise_currentPositions (b : Board) (now : Instant) :
    (b.currentPositions now).Pairwise fun x y => x.vehicle < y.vehicle :=
  pairwise_mergeSort_byVehicle (b.nodup_vehicle_values now)

theorem mem_currentPositions_iff :
    a ∈ b.currentPositions now ↔ ∃ slot, b.Soonest now slot a :=
  List.mem_mergeSort.trans mem_values_soonestByVehicle

/-- The current positions go up strictly by vehicle. There is one for each vehicle that has a live
arrival: the one that ranks first by the seconds that are left, where an arrival without an estimate
counts with the latest of all, and by its slot. They depend on nothing but what is live under each
slot, and not on the order in which the vehicles are gone through. -/
theorem currentPositions_soonest (b : Board) (now : Instant) :
    (b.currentPositions now).Pairwise (fun x y => x.vehicle < y.vehicle) ∧
    (∀ a, a ∈ b.currentPositions now ↔ ∃ slot, b.Soonest now slot a) ∧
    (∀ vehicle, (∃! a, a ∈ b.currentPositions now ∧ a.vehicle = vehicle) ↔
      ∃ slot a, b.arrivals.visible? now slot = some a ∧ a.vehicle = vehicle) ∧
    (∀ b' : Board, (∀ slot, b'.arrivals.visible? now slot = b.arrivals.visible? now slot) →
      b'.currentPositions now = b.currentPositions now) ∧
    ∀ values : List Arrival, values.Perm (b.soonestByVehicle now).values →
      values.mergeSort byVehicle = b.currentPositions now := by
  refine ⟨b.pairwise_currentPositions now, fun a => mem_currentPositions_iff, fun vehicle => ?_,
    fun b' hb' => ?_, fun values hvalues => ?_⟩
  · constructor
    · rintro ⟨a, ⟨ha, hv⟩, -⟩
      obtain ⟨slot, hslot⟩ := mem_currentPositions_iff.mp ha
      exact ⟨slot, a, hslot.live, hv⟩
    · rintro ⟨slot, a, hlive, rfl⟩
      obtain ⟨best, ht⟩ := exists_soonest hlive
      obtain ⟨hv, slot', hbest⟩ := soonest_of_get? ht
      refine ⟨best, ⟨mem_currentPositions_iff.mpr ⟨slot', hbest⟩, hv⟩, ?_⟩
      rintro other ⟨hother, hv'⟩
      obtain ⟨slot'', hslot''⟩ := mem_currentPositions_iff.mp hother
      exact hbest.unique hslot'' (hv'.trans hv.symm)
  · refine eq_of_sorted (b'.pairwise_currentPositions now) (b.pairwise_currentPositions now) fun a => ?_
    rw [mem_currentPositions_iff, mem_currentPositions_iff]
    refine exists_congr fun slot => ⟨fun h => ⟨hb' slot ▸ h.live, fun slot' a' => ?_⟩,
      fun h => ⟨(hb' slot).trans h.live, fun slot' a' => ?_⟩⟩
    · rw [← hb' slot']
      exact h.least slot' a'
    · rw [hb' slot']
      exact h.least slot' a'
  · refine eq_of_sorted (pairwise_mergeSort_byVehicle ?_) (b.pairwise_currentPositions now) fun a => ?_
    · exact (hvalues.map Arrival.vehicle).nodup_iff.mpr (b.nodup_vehicle_values now)
    · rw [List.mem_mergeSort, mem_currentPositions_iff, ← mem_values_soonestByVehicle]
      exact hvalues.mem_iff

/-- Without an estimate an arrival would come later than any that has one. -/
def Sooner : Option Int → Option Int → Prop
  | some s, some t => s < t
  | some _, none => True
  | none, _ => False

def vague : Arrival :=
  ⟨"v", "blue", "a", "end", ⟨0⟩, .ofSeconds 60, 6, none, .notAvailable, .seconds⟩

def distant : Arrival := { vague with station := "b", estimate := .exact 9223372036854775807 }

def tied : Board :=
  (Board.empty.set ⟨0⟩ ⟨"a", "end", 1⟩ vague).set ⟨0⟩ ⟨"b", "end", 1⟩ distant

/-- An arrival without an estimate ties with the latest that has one, and its slot may come first. -/
theorem currentPositions_ties_latest :
    ¬ ∀ (b : Board) (now : Instant) (a : Arrival), a ∈ b.currentPositions now →
      ∃ slot, b.arrivals.visible? now slot = some a ∧
        ∀ slot' a', b.arrivals.visible? now slot' = some a' → a'.vehicle = a.vehicle →
          Sooner (a.liveSeconds? now) (a'.liveSeconds? now) ∨
            a.liveSeconds? now = a'.liveSeconds? now ∧ slot'.before slot = false := by
  intro h
  have hlive : tied.arrivals.liveEntries ⟨0⟩ =
      [(⟨"a", "end", 1⟩, vague), (⟨"b", "end", 1⟩, distant)] := by decide +kernel
  have hvague : tied.Soonest ⟨0⟩ ⟨"a", "end", 1⟩ vague := by
    refine ⟨Expiring.mem_liveEntries_iff.mp (by simp [hlive]), fun slot' a' hlive' _ => ?_⟩
    rw [← Expiring.mem_liveEntries_iff, hlive, List.mem_pair, Prod.mk.injEq, Prod.mk.injEq] at hlive'
    rcases hlive' with ⟨rfl, rfl⟩ | ⟨rfl, rfl⟩ <;> decide +kernel
  have hdistant : tied.arrivals.visible? ⟨0⟩ ⟨"b", "end", 1⟩ = some distant :=
    Expiring.mem_liveEntries_iff.mp (by simp [hlive])
  obtain ⟨slot, -, hleast⟩ := h tied ⟨0⟩ vague (mem_currentPositions_iff.mpr ⟨_, hvague⟩)
  rcases hleast _ _ hdistant rfl with hsooner | ⟨heq, -⟩
  · exact hsooner
  · cases heq

end Board

end Arrivals
