import Arrivals.Proofs.Timing.Commit

/-! The log of trips. Main statement: whatever trips are recorded, and in whatever order, the log is what came
sorted by start, with trips of one start in the order of their coming; and its end that starts no earlier than
some time is found by halving. -/

namespace Arrivals

namespace Halving

variable {α : Type} {p : α → Bool} {l : List α}

/-- Where a property ends is looked for among `size` places from `base` on, in half as many each time. -/
def cutWithin (p : α → Bool) (l : List α) (base size : Nat) : Nat :=
  if 1 < size then
    let middle := base + size / 2
    cutWithin p l (if l[middle]?.any p then middle else base) (size - size / 2)
  else if l[base]?.any p then base + 1
  else base
termination_by size

def cut (p : α → Bool) (l : List α) : Nat := cutWithin p l 0 l.length

/-- What has the property comes first. -/
def Parted (p : α → Bool) (l : List α) : Prop := l.Pairwise fun a b => p b = true → p a = true

theorem Parted.filter_not (h : Parted p l) : l.filter (fun a => !p a) = l.dropWhile p := by
  induction l with
  | nil => rfl
  | cons a rest ih =>
    obtain ⟨ha, hrest⟩ := List.pairwise_cons.mp h
    by_cases hp : p a = true
    · simp [hp, ih hrest]
    · have hnone : ∀ b ∈ a :: rest, (!p b) = true := by
        intro b hb
        rcases List.mem_cons.mp hb with rfl | hb
        · simp [hp]
        · have hb' : p b ≠ true := fun hpb => hp (ha b hb hpb)
          simp [hb']
      rw [List.dropWhile_cons_of_neg hp, List.filter_eq_self.mpr hnone]

theorem Parted.any_getElem? (h : Parted p l) (i : Nat) :
    l[i]?.any p = true ↔ i < (l.takeWhile p).length := by
  induction l generalizing i with
  | nil => simp
  | cons a rest ih =>
    obtain ⟨ha, hrest⟩ := List.pairwise_cons.mp h
    by_cases hp : p a = true
    · cases i with
      | zero => simp [hp]
      | succ i => simpa [hp] using ih hrest i
    · rw [List.takeWhile_cons_of_neg hp]
      cases i with
      | zero => simpa using hp
      | succ i =>
        have hnone : rest[i]?.any p ≠ true := by
          intro hany
          obtain ⟨b, hb, hpb⟩ := (Option.any_eq_true _ _).mp hany
          exact hp (ha b (List.mem_of_getElem? hb) hpb)
        simpa using hnone

theorem Parted.cutWithin_eq (h : Parted p l) {base size : Nat}
    (hlow : base ≤ (l.takeWhile p).length) (hhigh : (l.takeWhile p).length ≤ base + size) :
    cutWithin p l base size = (l.takeWhile p).length := by
  fun_induction cutWithin p l base size with
  | case1 base size hsize middle ih =>
    have hmiddle := h.any_getElem? middle
    apply ih
    · split
      next hany => exact Nat.le_of_lt (hmiddle.mp hany)
      next => exact hlow
    · split
      next => omega
      next hany =>
        have hle := mt hmiddle.mpr hany
        omega
  | case2 base size hsize hany =>
    have hbase := (h.any_getElem? base).mp hany
    omega
  | case3 base size hsize hany =>
    have hbase := mt (h.any_getElem? base).mpr hany
    omega

theorem Parted.cut_eq (h : Parted p l) : cut p l = (l.takeWhile p).length := by
  refine h.cutWithin_eq (Nat.zero_le _) ?_
  rw [Nat.zero_add]
  exact (List.takeWhile_sublist p).length_le

theorem Parted.take_cut (h : Parted p l) : l.take (cut p l) = l.takeWhile p := by
  rw [h.cut_eq]
  exact (List.prefix_iff_eq_take.mp (List.takeWhile_prefix p)).symm

theorem Parted.drop_cut (h : Parted p l) : l.drop (cut p l) = l.dropWhile p := by
  have hsplit := List.takeWhile_append_dropWhile (p := p) (l := l)
  calc l.drop (cut p l) = (l.takeWhile p ++ l.dropWhile p).drop (l.takeWhile p).length := by
        rw [h.cut_eq, hsplit]
    _ = l.dropWhile p := List.drop_left

end Halving

namespace Store

open Halving

variable {trips : List Trip}

theorem parted_startsNoLater (h : trips.Pairwise fun a b => a.startsNoLater b = true) (t : Trip) :
    Parted (·.startsNoLater t) trips :=
  h.imp fun hab hbt => Trip.startsNoLater_trans _ _ t hab hbt

theorem parted_earlier (h : trips.Pairwise fun a b => a.startsNoLater b = true) (since : Stamp) :
    Parted (fun t => t.start.earlier since) trips := by
  refine h.imp fun {a b} hab hb => ?_
  have hle := Trip.startsNoLater_iff.mp hab
  rw [Stamp.earlier_iff] at hb ⊢
  omega

theorem perm_insertTrip (t : Trip) (trips : List Trip) : (insertTrip t trips).Perm (trips ++ [t]) := by
  have hmiddle : (insertTrip t trips).Perm (t :: trips) := by
    have hsplit : (insertTrip t trips).Perm (t :: (trips.takeWhile (·.startsNoLater t) ++
        trips.dropWhile (·.startsNoLater t))) := List.perm_middle
    rwa [List.takeWhile_append_dropWhile] at hsplit
  exact hmiddle.trans (List.perm_append_singleton t trips).symm

theorem insertTrip_eq (h : trips.Pairwise fun a b => a.startsNoLater b = true) (t : Trip) :
    insertTrip t trips =
      trips.take (cut (·.startsNoLater t) trips) ++ t :: trips.drop (cut (·.startsNoLater t) trips) := by
  have hparted := parted_startsNoLater h t
  rw [hparted.take_cut, hparted.drop_cut, insertTrip]

/-- Of the trips of one start the one that is recorded comes last. -/
theorem filter_insertTrip (h : trips.Pairwise fun a b => a.startsNoLater b = true) (t : Trip)
    (start : Stamp) :
    (insertTrip t trips).filter (·.start = start) = (trips ++ [t]).filter (·.start = start) := by
  have hsplit := List.takeWhile_append_dropWhile (p := (·.startsNoLater t)) (l := trips)
  have hfilter := congrArg (List.filter (·.start = start)) hsplit
  rw [List.filter_append] at hfilter
  rw [insertTrip, List.filter_append, List.filter_append, ← hfilter, List.append_assoc, List.filter_cons]
  by_cases ht : t.start = start
  · have hlater : (trips.dropWhile (·.startsNoLater t)).filter (·.start = start) = [] := by
      rw [← (parted_startsNoLater h t).filter_not, List.filter_filter, List.filter_eq_nil_iff]
      intro u _ hu
      simp only [Bool.and_eq_true, decide_eq_true_eq, Bool.not_eq_true', ← Bool.not_eq_true] at hu
      refine hu.2 (Trip.startsNoLater_iff.mpr ?_)
      rw [hu.1, ht]
      omega
    simp [hlater, ht]
  · simp [ht]

theorem filter_mergeSort (trips : List Trip) (start : Stamp) :
    (trips.mergeSort Trip.startsNoLater).filter (·.start = start) = trips.filter (·.start = start) := by
  have hperm := (List.mergeSort_perm trips Trip.startsNoLater).filter (·.start = start)
  have halike : (trips.filter (·.start = start)).Pairwise fun a b => a.startsNoLater b = true := by
    refine List.pairwise_of_forall_mem_list fun a ha b hb => ?_
    simp only [List.mem_filter, decide_eq_true_eq] at ha hb
    rw [Trip.startsNoLater_iff, ha.2, hb.2]
    omega
  have hkept := (List.sublist_mergeSort Trip.startsNoLater_trans Trip.startsNoLater_total halike
    List.filter_sublist).filter (·.start = start)
  rw [List.filter_filter] at hkept
  simp only [Bool.and_self] at hkept
  exact (hkept.eq_of_length hperm.length_eq.symm).symm

theorem perm_foldl_recordTrip (s : Store) (calls : List Trip) :
    (calls.foldl recordTrip s).trips.Perm (s.trips ++ calls) := by
  induction calls generalizing s with
  | nil => simp
  | cons t rest ih =>
    have hstep := (perm_insertTrip t s.trips).append_right rest
    have hrest := (ih (s.recordTrip t)).trans hstep
    simpa using hrest

theorem filter_foldl_recordTrip (s : Store) (calls : List Trip) (start : Stamp) :
    (calls.foldl recordTrip s).trips.filter (·.start = start) =
      (s.trips ++ calls).filter (·.start = start) := by
  induction calls generalizing s with
  | nil => simp
  | cons t rest ih =>
    have hstep := filter_insertTrip s.ordered t start
    rw [List.foldl_cons, ih, List.filter_append, List.append_cons, List.filter_append _ rest, ← hstep]
    rfl

/-- The log is what came, sorted by start, and trips of one start stay in the order of their coming. Halving is
told of no log that is not in order: it puts a trip where its start belongs, and finds what starts no earlier
than some time. So a batch goes by each trip of its window once, and by no other. -/
theorem log_recorded (snapshot : Snapshot) (calls : List Trip) :
    let came := snapshot.trips ++ calls
    let s := calls.foldl recordTrip (ofSnapshot snapshot)
    s.trips.Pairwise (fun a b => a.startsNoLater b = true) ∧ s.trips.Perm came ∧
    (∀ start, s.trips.filter (·.start = start) = came.filter (·.start = start)) ∧
    (∀ t, (s.recordTrip t).trips =
      s.trips.take (cut (·.startsNoLater t) s.trips) ++
        t :: s.trips.drop (cut (·.startsNoLater t) s.trips)) ∧
    (∀ since, Transaction.tripsSince s since = s.trips.drop (cut (·.start.earlier since) s.trips) ∧
      Transaction.tripsSince s since = s.trips.filter (fun t => !t.start.earlier since) ∧
      (Transaction.tripsSince s since).Perm (came.filter fun t => !t.start.earlier since)) ∧
    ∀ (src : Source) (now : Instant) (window : Span), src.store = s → src.Steady →
      let seen := Transaction.tripsSince s (.ofInstant (now.before window))
      ∃ tx n, Timing.Staged s (Timing.legsOf seen) tx ∧
        src.run (Timing.run now window) =
          (.ok (Timing.reported s seen tx), { src with store := tx.commit s, calls := n }) := by
  intro came s
  have hsnapshot : (ofSnapshot snapshot).trips.Perm snapshot.trips :=
    List.mergeSort_perm snapshot.trips Trip.startsNoLater
  have hperm : s.trips.Perm came :=
    (perm_foldl_recordTrip (ofSnapshot snapshot) calls).trans (hsnapshot.append_right calls)
  have hstable (start : Stamp) :
      s.trips.filter (·.start = start) = came.filter (·.start = start) := by
    have hfirst : (ofSnapshot snapshot).trips.filter (·.start = start) =
        snapshot.trips.filter (·.start = start) := filter_mergeSort snapshot.trips start
    rw [filter_foldl_recordTrip, List.filter_append, List.filter_append, hfirst]
  refine ⟨s.ordered, hperm, hstable, fun t => insertTrip_eq s.ordered t, fun since => ?_, ?_⟩
  · have hparted := parted_earlier s.ordered since
    have hfilter : Transaction.tripsSince s since = s.trips.filter (fun t => !t.start.earlier since) :=
      hparted.filter_not.symm
    refine ⟨hparted.drop_cut.symm, hfilter, ?_⟩
    rw [hfilter]
    exact hperm.filter _
  · intro src now window hstore hsteady seen
    have hseen := Timing.tripsSince_eq s (.ofInstant (now.before window))
    obtain ⟨hfails, -⟩ | ⟨tx, n, -, hstaged, hrun⟩ := Timing.runIn_cases .entered src now window
    · exact absurd hsteady hfails
    · rw [hstore, Timing.windowLegs, ← hseen] at hstaged
      rw [hstore, ← hseen, Timing.runIn_entered] at hrun
      exact ⟨tx, n, hstaged, hrun⟩

/-- A trip without stations. -/
def outing (id : TripId) (second : Int) : Trip := ⟨id, ⟨second, 0⟩, []⟩

/-- Trips of one start from the snapshot and recorded, one recorded late, and a batch that begins with them. -/
theorem log_recorded_ties :
    let snapshot := { Snapshot.empty with trips := [outing "last" 20, outing "first" 10, outing "second" 10] }
    let s := [outing "third" 10, outing "early" 5].foldl recordTrip (ofSnapshot snapshot)
    (s.trips.filter (·.start = ⟨10, 0⟩)).map Trip.id = ["first", "second", "third"] ∧
    ∃ report s', (Source.ofStore s).Steady ∧
      (Source.ofStore s).run (Timing.run ⟨100000000000⟩ ⟨90000000000⟩) = (.ok report, s') ∧
      report.trips = 4 := by
  intro snapshot s
  have hsteady : (Source.ofStore s).Steady := fun _ _ _ => rfl
  obtain ⟨-, -, hstable, -, hsince, hbatch⟩ :=
    log_recorded snapshot [outing "third" 10, outing "early" 5]
  have hcount := (hsince (.ofInstant (Instant.before ⟨100000000000⟩ ⟨90000000000⟩))).2.2.length_eq
  obtain ⟨tx, n, -, hrun⟩ := hbatch (.ofStore s) ⟨100000000000⟩ ⟨90000000000⟩ rfl hsteady
  refine ⟨?_, _, _, hsteady, hrun, hcount.trans (by decide)⟩
  rw [hstable ⟨10, 0⟩]
  decide

end Store

end Arrivals
