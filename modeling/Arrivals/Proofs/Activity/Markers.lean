import Arrivals.Activity
import Mathlib.Data.Finset.Card

/-! Who is marked under an id, and what each call makes of it. Main statement: a registration decides
where its user is marked and nobody else, and a sweep is not seen from then on. -/

namespace Arrivals.Activity

variable {t : Table String Markers} {now later : Instant} {id : String} {user : UserId}

def markersUnder (t : Table String Markers) (id : String) : Markers := (t.get? id).getD .empty

/-- The user has a marker under the id that has not expired. -/
def Marked (t : Table String Markers) (now : Instant) (id : String) (user : UserId) : Prop :=
  (markersUnder t id).visible? now user = some ⟨⟩

instance : Decidable (Marked t now id user) := inferInstanceAs (Decidable (_ = _))

theorem not_marked_empty : ¬ Marked .empty now id user := nofun

/-- What is filed of a user under an id, expired or not. -/
def lease? (t : Table String Markers) (id : String) (user : UserId) : Option (Lease Unit) :=
  (markersUnder t id).leases.get? user

theorem marked_iff : Marked t now id user ↔ ∃ l, lease? t id user = some l ∧ now < l.expires := by
  rw [Marked, Expiring.visible?_eq_some_iff]
  simp [lease?]

theorem lease?_mark {ttl : Span} {j : String} {u : UserId} :
    lease? (mark t now user ttl id) j u =
      if j = id ∧ u = user then some ⟨⟨⟩, now.after ttl⟩ else lease? t j u := by
  rw [lease?, markersUnder, mark, Table.get?_insert]
  by_cases hj : j = id
  · subst hj
    rw [if_pos rfl, Option.getD_some, Expiring.set, Table.get?_insert]
    by_cases hu : user = u
    · simp [hu]
    · simp [hu, Ne.symm hu, lease?, markersUnder]
  · simp [hj, Ne.symm hj, lease?, markersUnder]

theorem lease?_foldl_mark {ttl : Span} {ids : List String} {j : String} {u : UserId} :
    lease? (ids.foldl (fun t id => mark t now user ttl id) t) j u =
      if j ∈ ids ∧ u = user then some ⟨⟨⟩, now.after ttl⟩ else lease? t j u := by
  induction ids generalizing t with
  | nil => simp
  | cons i rest ih =>
    rw [List.foldl_cons, ih, lease?_mark]
    by_cases hu : u = user
    · by_cases hrest : j ∈ rest <;> by_cases hi : j = i <;> simp [hu, hrest, hi]
    · simp [hu]

/-- A user is left just under the ids that are given, with one lease for all of them; nothing of the
others is touched. -/
theorem lease?_markOnly {ttl : Span} {ids : List String} {j : String} {u : UserId} :
    lease? (markOnly t now user ttl ids) j u =
      if u = user then (if j ∈ ids then some ⟨⟨⟩, now.after ttl⟩ else none) else lease? t j u := by
  have hkept : lease? (markOnly t now user ttl ids) j u =
      if u = user ∧ j ∉ ids then none
      else lease? (ids.foldl (fun t id => mark t now user ttl id) t) j u := by
    rw [lease?, markersUnder, markOnly, Table.get?_map, lease?, markersUnder]
    cases (ids.foldl (fun t id => mark t now user ttl id) t).get? j with
    | none => simp [Expiring.empty]
    | some markers =>
      by_cases hj : j ∈ ids <;> by_cases hu : u = user <;> simp [hj, hu, Expiring.erase]
  rw [hkept, lease?_foldl_mark]
  by_cases hj : j ∈ ids <;> by_cases hu : u = user <;> simp [hj, hu]

theorem marked_markOnly {ttl : Span} {ids : List String} {j : String} {u : UserId} :
    Marked (markOnly t now user ttl ids) later j u ↔
      if u = user then j ∈ ids ∧ later < now.after ttl else Marked t later j u := by
  rw [marked_iff, marked_iff, lease?_markOnly]
  by_cases hu : u = user
  · by_cases hj : j ∈ ids <;> simp [hu, hj]
  · simp [hu]

theorem marked_sweepMarkers (h : now ≤ later) :
    Marked (sweepMarkers t now) later id user ↔ Marked t later id user := by
  rw [Marked, Marked, markersUnder, markersUnder, sweepMarkers, Table.get?_filter, Table.get?_map]
  cases t.get? id with
  | none => rfl
  | some markers =>
    rw [Option.map_some, Option.filter_some, Option.getD_some, ← Expiring.visible?_sweep markers h]
    cases hempty : (markers.sweep now).isEmpty with
    | false => rfl
    | true =>
      -- what is dropped held nothing that anyone could still see
      have hnone : (markers.sweep now).visible? later user = none := by
        rw [Expiring.visible?, Table.get?, List.isEmpty_iff.mp hempty]
        rfl
      rw [hnone]
      rfl

/-- Nobody is lost who could still be counted, and no id is left under which nobody is. -/
structure Swept (t t' : Table String Markers) (now : Instant) : Prop where
  seen : ∀ later, now ≤ later → ∀ id user, Marked t' later id user ↔ Marked t later id user
  inhabited : ∀ id, t'.contains id = true → ∃ user, Marked t' now id user

theorem swept_sweepMarkers (t : Table String Markers) (now : Instant) :
    Swept t (sweepMarkers t now) now where
  seen _ h _ _ := marked_sweepMarkers h
  inhabited id h := by
    obtain ⟨markers, hmarkers⟩ := Option.isSome_iff_exists.mp h
    have hkept := hmarkers
    rw [sweepMarkers, Table.get?_filter, Option.filter_eq_some_iff, Table.get?_map,
      Option.map_eq_some_iff] at hkept
    obtain ⟨⟨whole, -, rfl⟩, hsome⟩ := hkept
    cases hentries : (whole.sweep now).leases.entries with
    | nil => simp [Expiring.isEmpty, Table.isEmpty, hentries] at hsome
    | cons e rest =>
      refine ⟨e.1, ?_⟩
      have he : e ∈ (whole.sweep now).leases.entries := hentries ▸ List.mem_cons_self
      have hlive : e.2.live now = true := (List.mem_filter.mp he).2
      rw [Marked, markersUnder, hmarkers, Option.getD_some]
      exact Expiring.visible?_eq_some_iff.mpr
        ⟨e.2, Table.mem_entries_iff.mp he, of_decide_eq_true hlive, rfl⟩

theorem ridersUnder_eq_card {s : Finset UserId} (hs : ∀ u, u ∈ s ↔ Marked t now id u) :
    ridersUnder t now id = s.card := by
  have hcount : ridersUnder t now id = ((markersUnder t id).liveEntries now).length := by
    rw [ridersUnder, markersUnder]
    cases t.get? id <;> rfl
  rw [hcount, ← List.length_map Prod.fst,
    ← List.toFinset_card_of_nodup ((markersUnder t id).nodup_keys_liveEntries now)]
  congr 1
  ext u
  rw [List.mem_toFinset, List.mem_map, hs, Marked]
  constructor
  · rintro ⟨⟨v, _⟩, hv, rfl⟩
    exact Expiring.mem_liveEntries_iff.mp hv
  · intro hu
    exact ⟨(u, ⟨⟩), Expiring.mem_liveEntries_iff.mpr hu, rfl⟩

/-- What a registration that is not refused makes of the markers. -/
theorem register_eq_ok {a b : Activity} {limits : ActivityLimits} {lines : List Line}
    {justEntered : Bool} (h : a.register limits now lines user justEntered = .ok b) :
    b = ⟨markOnly a.lines now user (ttlFor limits lines justEntered) (lines.map Line.id),
      markOnly a.networks now user (ttlFor limits lines justEntered) (lines.map Line.network)⟩ := by
  rw [register] at h
  split at h
  next =>
    split at h
    · cases h
    · exact (Except.ok.inj h).symm
  next => exact (Except.ok.inj h).symm

end Arrivals.Activity
