import Arrivals.Proofs.Timing.Repeat

/-! Batches do not depend on order. Main statement: neither the order in which trips were recorded or
started, nor the orders in which a batch visits its samples and lists the edges of the store, has any effect
on what a batch commits and reports. -/

namespace Arrivals

theorem Table.perm_of_get?_eq {κ α : Type} [DecidableEq κ] {t t' : Table κ α}
    (h : ∀ k, t.get? k = t'.get? k) : t.entries.Perm t'.entries := by
  refine (List.perm_ext_iff_of_nodup (.of_map Prod.fst t.distinct) (.of_map Prod.fst t'.distinct)).mpr ?_
  rintro ⟨k, a⟩
  rw [Table.mem_entries_iff, Table.mem_entries_iff, h]

/-- Two stores have the same edges with the same durations, each in an order of its own. -/
structure Store.SameEdges (a b : Store) : Prop where
  connection : ∀ k, a.connection? k = b.connection? k
  transfer : ∀ k, a.transfer? k = b.transfer? k

theorem Store.SameEdges.sameKeys {a b : Store} (h : a.SameEdges b) : a.SameKeys b :=
  ⟨fun k => congrArg Option.isSome (h.connection k), fun k => congrArg Option.isSome (h.transfer k)⟩

/-- Saves under different keys may trade places. -/
theorem Store.sameEdges_saveConnection_comm (s : Store) {c d : Connection} (h : c.key ≠ d.key) :
    ((s.saveConnection c).saveConnection d).SameEdges ((s.saveConnection d).saveConnection c) where
  connection k := by
    simp only [Store.connection?_saveConnection]
    by_cases hd : d.key = k
    · have hc : c.key ≠ k := fun hc => h (hc.trans hd.symm)
      rw [if_pos hd, if_pos hd, if_neg hc]
    · rw [if_neg hd, if_neg hd]
  transfer _ := rfl

theorem Tally.ofList_perm {xs ys : List Int} (h : xs.Perm ys) : ofList xs = ofList ys := by
  rw [ofList_eq, ofList_eq, h.sum_eq, h.length_eq]

theorem meanOf_perm {stops stops' : List Int32} (h : stops.Perm stops') : meanOf stops = meanOf stops' := by
  rw [meanOf, meanOf, h.isEmpty_eq, total_eq, total_eq, (h.map Int32.toInt).sum_eq, h.length_eq]

namespace Timing

theorem edgeSamples_perm {legs legs' : List Leg} (h : legs.Perm legs') (st : Store) (k : ConnectionKey) :
    edgeSamples st legs k = edgeSamples st legs' k := by
  rw [edgeSamples, edgeSamples]
  congr 1
  · exact Tally.ofList_perm (h.filterMap _)
  · exact Tally.ofList_perm (h.filterMap _)
  · exact Tally.ofList_perm (h.filterMap _)

theorem changes_perm {legs legs' : List Leg} (h : legs.Perm legs') (st : Store) (k : TransferKey) :
    Tally.ofList (changes st legs k) = Tally.ofList (changes st legs' k) :=
  Tally.ofList_perm (h.filterMap _)

theorem correct_perm {stops stops' : List Int32} (h : stops.Perm stops') (x : Transfer) (s : Tally) :
    correct x s stops = correct x s stops' := by
  simp only [correct, correctedSeconds, meanOf_perm h]

theorem connectionsFrom_perm {a b : Store} {t t' : Transaction} (h : a.SameEdges b)
    (ht : ∀ k, t.connection? a k = t'.connection? b k) (station : StationId) :
    (t.connectionsFrom a station).Perm (t'.connectionsFrom b station) := by
  refine (List.perm_ext_iff_of_nodup (t.nodup_connectionsFrom a station)
    (t'.nodup_connectionsFrom b station)).mpr fun c => ?_
  rw [Transaction.mem_connectionsFrom_iff, Transaction.mem_connectionsFrom_iff]
  simp only [ht, h.connection]

theorem stopsAhead_perm {a b : Store} {t t' : Transaction} (h : a.SameEdges b)
    (ht : ∀ k, t.connection? a k = t'.connection? b k) (k : TransferKey) :
    (stopsAhead t a k).Perm (stopsAhead t' b k) :=
  ((connectionsFrom_perm h ht k.station).filter _).map _

theorem legsOf_perm {trips trips' : List Trip} (h : (trips.map Trip.uses).Perm (trips'.map Trip.uses)) :
    (legsOf trips).Perm (legsOf trips') := by
  have hlegs : ∀ trips : List Trip, legsOf trips = (trips.map Trip.uses).flatMap timedLegs :=
    fun trips => (List.flatMap_map Trip.uses timedLegs trips).symm
  rw [hlegs, hlegs]
  exact h.flatMap_right timedLegs

namespace Staged

variable {a b : Store} {legs legs' : List Leg} {t t' : Transaction}

theorem connection_eq (ha : Staged a legs t) (hb : Staged b legs' t') (h : a.SameEdges b)
    (hlegs : legs.Perm legs') (k : ConnectionKey) : t.connection? a k = t'.connection? b k := by
  rw [ha.connection, hb.connection, h.connection, edgeSamples_perm hlegs, edgeSamples_congr h.sameKeys]

theorem transfer_eq (ha : Staged a legs t) (hb : Staged b legs' t') (h : a.SameEdges b)
    (hlegs : legs.Perm legs') (k : TransferKey) : t.transfer? a k = t'.transfer? b k := by
  have hstops := stopsAhead_perm h (ha.connection_eq hb h hlegs) k
  rw [ha.transfer, hb.transfer, h.transfer, changes_perm hlegs, changes_congr h.sameKeys]
  simp only [correct_perm hstops]

theorem sameEdges_commit (ha : Staged a legs t) (hb : Staged b legs' t') (h : a.SameEdges b)
    (hlegs : legs.Perm legs') : (t.commit a).SameEdges (t'.commit b) where
  connection k := by
    rw [Transaction.connection?_commit, Transaction.connection?_commit]
    exact ha.connection_eq hb h hlegs k
  transfer k := by
    rw [Transaction.transfer?_commit, Transaction.transfer?_commit]
    exact ha.transfer_eq hb h hlegs k

theorem reported_eq (ha : Staged a legs t) (hb : Staged b legs' t') (h : a.SameEdges b)
    (hlegs : legs.Perm legs') {trips trips' : List Trip}
    (htrips : (trips.map Trip.uses).Perm (trips'.map Trip.uses)) :
    reported a trips t = reported b trips' t' := by
  have hlength : trips.length = trips'.length := by simpa using htrips.length_eq
  have hcount : ∀ p, (legsOf trips).countP p = (legsOf trips').countP p := (legsOf_perm htrips).countP_eq
  have hconnections := (Table.perm_of_get?_eq h.connection).countP_eq
  have htransfers := (Table.perm_of_get?_eq h.transfer).countP_eq
  simp only [reported, hlength, hcount, isTimed_congr h.sameKeys, isChange_congr h.sameKeys,
    isSkipped_congr h.sameKeys, ha.connection_eq hb h hlegs, ha.transfer_eq hb h hlegs, hconnections,
    htransfers]

end Staged

theorem startedSince_of_inside {trips : List Trip} {since : Stamp}
    (h : ∀ t ∈ trips, t.start.earlier since = false) : startedSince trips since = trips :=
  List.filter_eq_self.mpr fun t ht => by rw [h t ht, Bool.not_false]

/-- Two batches come to the same if their stores have the same edges, in whatever order, and their logs the
same trips inside the window, recorded in whatever order and started whenever. The orders in which the
two visit their samples do not matter either. -/
theorem run_order_free (a b : Source) (v w : Visit) (now : Instant) (window : Span) (ha : a.Steady)
    (hb : b.Steady) (hedges : a.store.SameEdges b.store)
    (hlog : (a.store.trips.map Trip.uses).Perm (b.store.trips.map Trip.uses))
    (hinside : ∀ t ∈ a.store.trips ++ b.store.trips,
      t.start.earlier (.ofInstant (now.before window)) = false) :
    ∃ report a' b', a.run (runIn v now window) = (.ok report, a') ∧
      b.run (runIn w now window) = (.ok report, b') ∧ a'.store.SameEdges b'.store := by
  obtain ⟨hf, _⟩ | ⟨t, n, _, ht, he⟩ := runIn_cases v a now window
  · exact absurd ha hf
  obtain ⟨hf, _⟩ | ⟨t', n', _, ht', he'⟩ := runIn_cases w b now window
  · exact absurd hb hf
  rw [windowLegs] at ht ht'
  rw [startedSince_of_inside fun t h => hinside t (List.mem_append_left _ h)] at ht he
  rw [startedSince_of_inside fun t h => hinside t (List.mem_append_right _ h)] at ht' he'
  have hlegs : (legsOf a.store.trips).Perm (legsOf b.store.trips) := legsOf_perm hlog
  rw [← ht.reported_eq ht' hedges hlegs hlog] at he'
  exact ⟨_, _, _, he, he', ht.sameEdges_commit ht' hedges hlegs⟩

/-- Two edges lead on from the transfer. Trains stop for 21 seconds before one of them, and before the other
for as long as the trips say. -/
def forkStore : Store := changeStore.saveConnection ⟨"b", "d", "m", 60, 21, 0⟩

/-- The same edges in another order, and the same trips, recorded in another order and started later. -/
def forkStoreAnew : Store :=
  { ((default : Store).saveConnection ⟨"b", "d", "m", 60, 21, 0⟩).saveConnection
      ⟨"b", "c", "m", 60, 10, 0⟩ with
    transfers := changeStore.transfers
    filedTransfers := changeStore.filedTransfers
    trips := [changeTrip, throughTrip, changeTrip, throughTrip].map fun t => { t with start := ⟨1, 0⟩ }
    ordered := by decide }

theorem sameEdges_fork : forkStore.SameEdges forkStoreAnew where
  connection := (Store.sameEdges_saveConnection_comm default (by decide)).connection
  transfer _ := rfl

theorem run_order_free_fork : ∃ report a' b',
    (Source.ofStore forkStore).run (runIn .entered ⟨0⟩ ⟨5⟩) = (.ok report, a') ∧
      (Source.ofStore forkStoreAnew).run (runIn .reversed ⟨0⟩ ⟨5⟩) = (.ok report, b') ∧
      report = ⟨4, 4, 2, 0, 1, 1⟩ ∧ a'.store.SameEdges b'.store ∧
      b'.store.transfer? ⟨"b", "l", "m"⟩ = some ⟨"b", "l", "m", 95⟩ := by
  obtain ⟨report, a', b', he, he', hsame⟩ :=
    run_order_free (.ofStore forkStore) (.ofStore forkStoreAnew) .entered .reversed ⟨0⟩ ⟨5⟩
      (fun _ _ _ => rfl) (fun _ _ _ => rfl) sameEdges_fork (by decide) (by decide)
  have hreport : ((Source.ofStore forkStore).run (runIn .entered ⟨0⟩ ⟨5⟩)).1.toOption =
      some ⟨4, 4, 2, 0, 1, 1⟩ := by decide +kernel
  have htransfer : ((Source.ofStore forkStoreAnew).run (runIn .reversed ⟨0⟩ ⟨5⟩)).2.store.transfer?
      ⟨"b", "l", "m"⟩ = some ⟨"b", "l", "m", 95⟩ := by decide +kernel
  rw [he] at hreport
  rw [he'] at htransfer
  exact ⟨report, a', b', he, he', Option.some.inj hreport, hsame, htransfer⟩

end Timing

end Arrivals
