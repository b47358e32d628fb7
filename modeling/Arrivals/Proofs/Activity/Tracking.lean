import Arrivals.Proofs.Activity.Riders
import Arrivals.Service

/-! How many ids are tracked over a run of registrations and sweeps. Main statement: never more than there
is room for. A registration is refused if and only if it brings ids that there is no room for, and after a
sweep only the ids are left under which somebody is marked. -/

namespace Arrivals.Activity

def ids (t : Table String Markers) : Finset String := t.keys.toFinset

/-- Those of some ids that are not tracked yet, each of them once. -/
def fresh (t : Table String Markers) (list : List String) : Finset String := list.toFinset \ ids t

variable {t : Table String Markers} {a b : Activity} {limits : ActivityLimits} {now : Instant}
  {id : String} {list : List String} {user : UserId} {lines : List Line} {justEntered : Bool}

theorem mem_ids_iff : id ∈ ids t ↔ t.contains id = true :=
  List.mem_toFinset.trans Table.mem_keys_iff

theorem card_ids (t : Table String Markers) : (ids t).card = t.size := by
  rw [ids, Table.keys, List.toFinset_card_of_nodup t.distinct, List.length_map, Table.size]

theorem tracked_eq (a : Activity) : a.tracked = (ids a.lines).card + (ids a.networks).card := by
  rw [card_ids, card_ids, tracked]

theorem mem_distinct : id ∈ distinct list ↔ id ∈ list := by
  induction list with
  | nil => rfl
  | cons i rest ih =>
    rw [distinct, List.foldr_cons, ← distinct, List.mem_cons, List.mem_filter, ih, List.mem_cons]
    by_cases hi : id = i <;> simp [hi]

theorem nodup_distinct (list : List String) : (distinct list).Nodup := by
  induction list with
  | nil => exact List.nodup_nil
  | cons i rest ih =>
    rw [distinct, List.foldr_cons, ← distinct]
    exact List.nodup_cons.mpr ⟨by simp, ih.filter _⟩

theorem fresh_eq (t : Table String Markers) (list : List String) :
    fresh t list = (untracked t list).toFinset := by
  ext id
  rw [fresh, Finset.mem_sdiff, mem_ids_iff, List.mem_toFinset, List.mem_toFinset, untracked,
    List.mem_filter, mem_distinct, Bool.not_eq_true, Bool.not_eq_true']

theorem length_untracked (t : Table String Markers) (list : List String) :
    (untracked t list).length = (fresh t list).card := by
  rw [fresh_eq, untracked, List.toFinset_card_of_nodup ((nodup_distinct list).filter _)]

theorem ids_mark {ttl : Span} : ids (mark t now user ttl id) = insert id (ids t) := by
  ext j
  rw [ids, mark, List.mem_toFinset, Finset.mem_insert, ids, List.mem_toFinset]
  exact Table.mem_keys_put

theorem ids_foldl_mark {ttl : Span} :
    ids (list.foldl (fun t id => mark t now user ttl id) t) = ids t ∪ list.toFinset := by
  induction list generalizing t with
  | nil => exact (Finset.union_empty _).symm
  | cons i rest ih =>
    rw [List.foldl_cons, ih, ids_mark, List.toFinset_cons, Finset.insert_union, Finset.union_insert]

theorem ids_markOnly {ttl : Span} : ids (markOnly t now user ttl list) = ids t ∪ list.toFinset := by
  rw [← ids_foldl_mark, markOnly, ids, ids, Table.keys, Table.map, List.map_map]
  rfl

theorem card_ids_union (t : Table String Markers) (list : List String) :
    (ids t ∪ list.toFinset).card = (ids t).card + (fresh t list).card := by
  rw [← Finset.union_sdiff_self_eq_union, Finset.card_union_of_disjoint Finset.disjoint_sdiff, fresh]

theorem card_ids_markOnly {ttl : Span} :
    (ids (markOnly t now user ttl list)).card = (ids t).card + (fresh t list).card := by
  rw [ids_markOnly, card_ids_union]

theorem contains_of_marked (h : Marked t now id user) : t.contains id = true := by
  rw [Marked, markersUnder] at h
  rw [Table.contains]
  cases hid : t.get? id with
  | none =>
    rw [hid] at h
    cases h
  | some markers => rfl

theorem mem_ids_sweepMarkers : id ∈ ids (sweepMarkers t now) ↔ ∃ user, Marked t now id user := by
  have hswept := swept_sweepMarkers t now
  rw [mem_ids_iff]
  constructor
  · intro h
    exact (hswept.inhabited id h).imp fun user => (hswept.seen now (Int.le_refl _) id user).mp
  · rintro ⟨user, hmarked⟩
    exact contains_of_marked ((hswept.seen now (Int.le_refl _) id user).mpr hmarked)

theorem ids_sweepMarkers_subset (t : Table String Markers) (now : Instant) :
    ids (sweepMarkers t now) ⊆ ids t := by
  intro id h
  obtain ⟨user, hmarked⟩ := mem_ids_sweepMarkers.mp h
  exact mem_ids_iff.mpr (contains_of_marked hmarked)

theorem register_error_iff :
    (∃ refusal, a.register limits now lines user justEntered = .error refusal) ↔
      ((fresh a.lines (lines.map Line.id)).Nonempty ∨
        (fresh a.networks (lines.map Line.network)).Nonempty) ∧
      limits.maxTracked < a.tracked + (fresh a.lines (lines.map Line.id)).card +
        (fresh a.networks (lines.map Line.network)).card := by
  have hlength : (untracked a.lines (lines.map Line.id) ++
      untracked a.networks (lines.map Line.network)).length =
        (fresh a.lines (lines.map Line.id)).card +
          (fresh a.networks (lines.map Line.network)).card := by
    rw [List.length_append, length_untracked, length_untracked]
  rw [← Finset.card_pos, ← Finset.card_pos, Nat.add_assoc, ← hlength, register]
  cases hunseen : untracked a.lines (lines.map Line.id) ++
      untracked a.networks (lines.map Line.network) with
  | nil =>
    rw [hunseen, List.length_nil] at hlength
    simp only [reduceCtorEq, exists_const, false_iff]
    omega
  | cons first rest =>
    rw [hunseen, List.length_cons] at hlength
    dsimp only
    split
    next hfull => exact ⟨fun _ => ⟨by omega, hfull⟩, fun _ => ⟨_, rfl⟩⟩
    next hroom => exact iff_of_false (by simp) fun h => hroom h.2

theorem tracked_of_register (h : a.register limits now lines user justEntered = .ok b) :
    b.tracked = a.tracked + (fresh a.lines (lines.map Line.id)).card +
      (fresh a.networks (lines.map Line.network)).card := by
  rw [register_eq_ok h, tracked_eq, tracked_eq, card_ids_markOnly, card_ids_markOnly]
  omega

theorem tracked_le_of_register (ha : a.tracked ≤ limits.maxTracked)
    (h : a.register limits now lines user justEntered = .ok b) : b.tracked ≤ limits.maxTracked := by
  have hno : ¬ ∃ refusal, a.register limits now lines user justEntered = .error refusal := by
    rintro ⟨refusal, herror⟩
    rw [h] at herror
    cases herror
  rw [register_error_iff, ← Finset.card_pos, ← Finset.card_pos] at hno
  rw [tracked_of_register h]
  omega

theorem tracked_sweep (a : Activity) (now : Instant) :
    (a.sweep now).tracked + (ids a.lines \ ids (a.sweep now).lines).card +
      (ids a.networks \ ids (a.sweep now).networks).card = a.tracked := by
  have hlines : (ids a.lines \ ids (a.sweep now).lines).card + (ids (a.sweep now).lines).card =
      (ids a.lines).card :=
    Finset.card_sdiff_add_card_eq_card (ids_sweepMarkers_subset a.lines now)
  have hnetworks : (ids a.networks \ ids (a.sweep now).networks).card +
      (ids (a.sweep now).networks).card = (ids a.networks).card :=
    Finset.card_sdiff_add_card_eq_card (ids_sweepMarkers_subset a.networks now)
  rw [tracked_eq, tracked_eq]
  omega

theorem Roll.tracked_run_le (limits : ActivityLimits) (events : List Event) :
    (run limits events).activity.tracked ≤ limits.maxTracked := by
  refine List.foldlRecOn (motive := fun roll : Roll => roll.activity.tracked ≤ limits.maxTracked)
    events (step limits) (Nat.zero_le _) fun roll hroll e _ => ?_
  cases e with
  | register r =>
    rw [step]
    split
    next activity hok => exact tracked_le_of_register hroll hok
    next => exact hroll
  | sweep now =>
    have hsweep := tracked_sweep roll.activity now
    exact le_trans (by rw [step]; dsimp only; omega) hroll
  | countLine => exact hroll
  | countNetwork => exact hroll

/-- No run of calls ever tracks more ids than there is room for. A registration is refused if and only if it
brings ids that are not tracked, and they would be too many, each of them counted once. What a sweep leaves
are the ids under which somebody is marked, and it tells how many it dropped. -/
theorem run_stays_within_room (limits : ActivityLimits) (events : List Event) :
    let a := (Roll.run limits events).activity
    a.tracked ≤ limits.maxTracked ∧
    (∀ r : Registration,
      (∃ refusal, a.register limits r.time r.lines r.user r.justEntered = .error refusal) ↔
        ((fresh a.lines (r.lines.map Line.id)).Nonempty ∨
          (fresh a.networks (r.lines.map Line.network)).Nonempty) ∧
        limits.maxTracked < a.tracked + (fresh a.lines (r.lines.map Line.id)).card +
          (fresh a.networks (r.lines.map Line.network)).card) ∧
    ∀ s : Service, s.activity = a →
      let (dropped, swept) := s.sweepActivity
      (∀ id, id ∈ ids swept.activity.lines ↔ ∃ user, Marked a.lines s.now id user) ∧
      (∀ id, id ∈ ids swept.activity.networks ↔ ∃ user, Marked a.networks s.now id user) ∧
      dropped = (ids a.lines \ ids swept.activity.lines).card +
        (ids a.networks \ ids swept.activity.networks).card := by
  intro a
  refine ⟨Roll.tracked_run_le limits events, fun r => register_error_iff, fun s hs => ?_⟩
  rw [Service.sweepActivity, hs]
  refine ⟨fun id => mem_ids_sweepMarkers, fun id => mem_ids_sweepMarkers, ?_⟩
  have hsweep := tracked_sweep a s.now
  change a.tracked - (a.sweep s.now).tracked = (ids a.lines \ ids (a.sweep s.now).lines).card +
    (ids a.networks \ ids (a.sweep s.now).networks).card
  omega

/-- After the evening's events, at the moment when the riders of before have run out. -/
def lateService : Service :=
  { (default : Service) with
    now := .ofMillis 500000
    reports.activity := (Roll.run evening eveningEvents).activity }

/-- The red line is refused for its two ids, where three are tracked and there is room for three. -/
theorem run_stays_within_room_evening :
    let a := (Roll.run evening eveningEvents).activity
    lateService.activity = a ∧
      (∃ refusal, a.register evening ⟨0⟩ [red, red] "u" true = .error refusal) ∧
      (∀ id, id ∈ ids lateService.sweepActivity.2.activity.lines ↔
        ∃ user, Marked a.lines lateService.now id user) ∧
      lateService.sweepActivity.1 = 3 := by
  intro a
  obtain ⟨-, hrefused, hswept⟩ := run_stays_within_room evening eveningEvents
  have hsweep := hswept lateService rfl
  exact ⟨rfl, (hrefused ⟨"u", ⟨0⟩, [red, red], true⟩).mpr (by decide +kernel), hsweep.1,
    hsweep.2.2.trans (by decide +kernel)⟩

end Arrivals.Activity
