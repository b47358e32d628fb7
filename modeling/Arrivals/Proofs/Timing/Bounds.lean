import Arrivals.Proofs.Prediction.Costs
import Arrivals.Proofs.Timing.Repeat

/-! What durations can become. Main statement: through any number of batches, of whatever trips, a duration
stays as it was at first or lies within the bounds of its kind. So none of them becomes negative, and the
scans of a prediction never find the way to get shorter as they move along the line. -/

namespace Arrivals

/-- A duration is the old one still, or has come to lie within bounds. -/
def RetimedWithin (low high : Int) (old new : Int32) : Prop :=
  new = old ∨ low ≤ new.toInt ∧ new.toInt ≤ high

namespace RetimedWithin

variable {low high : Int} {a b c : Int32}

theorem trans (h : RetimedWithin low high a b) (h' : RetimedWithin low high b c) :
    RetimedWithin low high a c := by
  rcases h' with rfl | h'
  · exact h
  · exact .inr h'

theorem nonneg (h : RetimedWithin low high a b) (hlow : 0 ≤ low) (ha : 0 ≤ a.toInt) : 0 ≤ b.toInt := by
  rcases h with rfl | h
  · exact ha
  · omega

end RetimedWithin

structure Connection.RetimedWithin (c d : Connection) : Prop where
  typical : Arrivals.RetimedWithin 20 619 c.typical d.typical
  typicalStop : Arrivals.RetimedWithin 0 179 c.typicalStop d.typicalStop
  typicalWait : Arrivals.RetimedWithin 0 179 c.typicalWait d.typicalWait

def Connection.NoneNegative (c : Connection) : Prop :=
  0 ≤ c.typical.toInt ∧ 0 ≤ c.typicalStop.toInt ∧ 0 ≤ c.typicalWait.toInt

instance (c : Connection) : Decidable c.NoneNegative := inferInstanceAs (Decidable (_ ∧ _ ∧ _))

/-- The same edges, and each duration as it was or within the bounds of its kind. -/
structure Store.RetimedWithin (a b : Store) : Prop where
  connection : ∀ k, Option.Rel Connection.RetimedWithin (a.connection? k) (b.connection? k)
  transfer : ∀ k, Option.Rel (fun x y => Arrivals.RetimedWithin 0 879 x.typical y.typical)
    (a.transfer? k) (b.transfer? k)

structure Store.NoneNegative (st : Store) : Prop where
  connection : ∀ k c, st.connection? k = some c → c.NoneNegative
  transfer : ∀ k x, st.transfer? k = some x → 0 ≤ x.typical.toInt

theorem Connection.RetimedWithin.trans {a b c : Connection} (h : a.RetimedWithin b)
    (h' : b.RetimedWithin c) : a.RetimedWithin c :=
  ⟨h.typical.trans h'.typical, h.typicalStop.trans h'.typicalStop, h.typicalWait.trans h'.typicalWait⟩

theorem Connection.RetimedWithin.noneNegative {c d : Connection} (h : c.RetimedWithin d)
    (hc : c.NoneNegative) : d.NoneNegative :=
  ⟨h.typical.nonneg (by decide) hc.1, h.typicalStop.nonneg (by decide) hc.2.1,
    h.typicalWait.nonneg (by decide) hc.2.2⟩

theorem Store.NoneNegative.cost {st : Store} (h : st.NoneNegative) {k : ConnectionKey} {seconds : Int}
    (hk : st.cost? k = some seconds) : 0 ≤ seconds := by
  obtain ⟨c, hc, rfl⟩ := Option.map_eq_some_iff.mp hk
  have hnone := h.connection k c hc
  exact Int.add_nonneg hnone.1 hnone.2.1

namespace Store.RetimedWithin

variable {a b c : Store}

theorem refl (a : Store) : a.RetimedWithin a where
  connection _ := rel_refl (fun _ => ⟨.inl rfl, .inl rfl, .inl rfl⟩) _
  transfer _ := rel_refl (fun _ => .inl rfl) _

theorem trans (h : a.RetimedWithin b) (h' : b.RetimedWithin c) : a.RetimedWithin c where
  connection k := rel_trans (fun _ _ _ => .trans) (h.connection k) (h'.connection k)
  transfer k := rel_trans (fun _ _ _ => .trans) (h.transfer k) (h'.transfer k)

theorem noneNegative (h : a.RetimedWithin b) (ha : a.NoneNegative) : b.NoneNegative where
  connection k d hd := by
    obtain ⟨c, hc, hcd⟩ := exists_of_rel (h.connection k) hd
    exact hcd.noneNegative (ha.connection k c hc)
  transfer k y hy := by
    obtain ⟨x, hx, hxy⟩ := exists_of_rel (h.transfer k) hy
    exact hxy.nonneg (le_refl 0) (ha.transfer k x hx)

end Store.RetimedWithin

namespace Timing

/-- A mean lies between the bounds of its samples, even if it is off by a little before it is rounded. -/
theorem within_mean {samples : List Int} {low high : Int} (h : ∀ x ∈ samples, low ≤ x ∧ x ≤ high)
    (hlow : -1024 ≤ low) (hhigh : high ≤ 1024) (hlen : samples.length < 2 ^ 32) (old : Int32) :
    RetimedWithin low high old
      (((Tally.ofList samples).significantMean?.map Binary.wholeSeconds).getD old) := by
  have habs := abs_le_of_bounds h hlow hhigh
  rw [Tally.significantMean?_ofList hlen, Tally.mean_ofList habs hlen]
  split
  next => exact .inl rfl
  next hn =>
    set mean := doubleMean samples.sum samples.length
    have hne : 0 < samples.length := by omega
    have hexact := average_bounds h hne
    have hoff : |mean.value - average samples| ≤ 3 * 1024 * 2 ^ (-53 : Int) := by
      exact_mod_cast abs_doubleMean_sub_le habs (by decide) hne
    rw [abs_le] at hoff
    norm_num at hoff
    have hleast : low ≤ roundHalfAway mean.value := le_roundHalfAway (by linarith)
    have hmost : roundHalfAway mean.value ≤ high := roundHalfAway_le (by linarith)
    refine .inr ?_
    rw [Option.map_some, Option.getD_some, toInt_wholeSeconds]
    omega

/-- Legs that a 32-bit counter can count leave no bucket with more samples than that. -/
theorem length_filterMap_lt {legs : List Leg} (hlegs : legs.length < 2 ^ 32) (f : Leg → Option Int) :
    (legs.filterMap f).length < 2 ^ 32 :=
  (List.length_filterMap_le f legs).trans_lt hlegs

theorem within_learn (c : Connection) (st : Store) {legs : List Leg} (hlegs : legs.length < 2 ^ 32)
    (k : ConnectionKey) : c.RetimedWithin (learn c (edgeSamples st legs k)) where
  typical := within_mean transit_bounds (by decide) (by decide) (length_filterMap_lt hlegs _) c.typical
  typicalStop := within_mean dwell_bounds (by decide) (by decide) (length_filterMap_lt hlegs _) c.typicalStop
  typicalWait := within_mean dwell_bounds (by decide) (by decide) (length_filterMap_lt hlegs _) c.typicalWait

/-- Stops that are not negative only lower the time of a change. -/
theorem within_learntAhead {samples : List Int} {stops : List Int32} {old new : Int32}
    (h : LearntAhead samples stops old new) (hsamples : ∀ x ∈ samples, -20 ≤ x ∧ x ≤ 879)
    (hlen : samples.length < 2 ^ 32) (hstops : ∀ x ∈ stops, 0 ≤ x.toInt) :
    RetimedWithin 0 879 old new := by
  rw [LearntAhead] at h
  split at h
  next => exact .inl h
  next hn =>
    obtain ⟨hoff, hnew, -⟩ := h hlen
    have hmean := (average_bounds hsamples (by omega)).2
    have hahead : 0 ≤ average (stops.map Int32.toInt) := average_nonneg (by simpa using hstops)
    have hsurplus : exactSurplus samples stops ≤ (879 : Int) := by
      rw [exactSurplus]
      linarith
    rw [abs_le] at hoff
    norm_num at hoff hsurplus
    have hround : roundHalfAway (surplus samples stops).value ≤ 879 :=
      roundHalfAway_le (by push_cast; linarith)
    refine .inr ?_
    rw [hnew, changeSeconds]
    omega

theorem Staged.retimedWithin {st : Store} {legs : List Leg} {t : Transaction} (h : Staged st legs t)
    (hlegs : legs.length < 2 ^ 32) (hst : st.NoneNegative) : st.RetimedWithin (t.commit st) := by
  have hconnection : ∀ k, Option.Rel Connection.RetimedWithin (st.connection? k) (t.connection? st k) := by
    intro k
    rw [h.connection]
    exact rel_map (fun c => within_learn c st hlegs k) _
  refine ⟨fun k => ?_, fun k => ?_⟩
  · rw [Transaction.connection?_commit]
    exact hconnection k
  · -- The stops ahead are those of this very batch, so their bounds come first.
    have hstops : ∀ x ∈ stopsAhead t st k, 0 ≤ x.toInt := by
      intro x hx
      obtain ⟨c, hc, rfl⟩ := List.mem_map.mp hx
      obtain ⟨destination, _, hshown⟩ := Transaction.mem_connectionsFrom_iff.mp (List.mem_filter.mp hc).1
      obtain ⟨b, hb, hbc⟩ := exists_of_rel (hconnection _) hshown
      exact (hbc.noneNegative (hst.connection _ b hb)).2.1
    rw [Transaction.transfer?_commit, h.transfer]
    refine rel_map (fun x => ?_) _
    exact within_learntAhead (learntAhead_correctedSeconds abs_change_le _ x.typical) change_bounds
      (length_filterMap_lt hlegs _) hstops

theorem length_windowLegs_le (st : Store) (since : Stamp) :
    (windowLegs st since).length ≤ (legsOf st.trips).length :=
  (List.filter_sublist.flatMap _).length_le

/-- A batch with a clock, a window and a log of its own, which has no more legs than a 32-bit counter
counts. -/
structure Round where
  trips : List Trip
  ordered : trips.Pairwise fun a b => a.startsNoLater b = true
  counted : (legsOf trips).length < 2 ^ 32
  now : Instant
  window : Span
  visit : Visit

namespace Round

/-- The store as it is, with the trips that there are by now. -/
def log (r : Round) (st : Store) : Store := { st with trips := r.trips, ordered := r.ordered }

/-- Calls may fail, and with them the round. -/
def play (s : Source) (r : Round) : Source :=
  (Source.run { s with store := r.log s.store } (runIn r.visit r.now r.window)).2

theorem retimedWithin_play (s : Source) (r : Round) (h : s.store.NoneNegative) :
    s.store.RetimedWithin (r.play s).store := by
  have hlog : s.store.RetimedWithin (r.log s.store) :=
    ⟨(Store.RetimedWithin.refl s.store).connection, (Store.RetimedWithin.refl s.store).transfer⟩
  rw [play]
  obtain ⟨_, e, n, he⟩ | ⟨t, n, _, ht, he⟩ :=
    runIn_cases r.visit { s with store := r.log s.store } r.now r.window
  · rw [he]
    exact hlog
  · have hlegs := (length_windowLegs_le (r.log s.store) (.ofInstant (r.now.before r.window))).trans_lt
      r.counted
    rw [he]
    exact hlog.trans (ht.retimedWithin hlegs (hlog.noneNegative h))

theorem retimedWithin_foldl (s : Source) (rounds : List Round) (h : s.store.NoneNegative) :
    s.store.RetimedWithin (rounds.foldl play s).store := by
  induction rounds generalizing s with
  | nil => exact .refl s.store
  | cons r rest ih =>
    have hr := retimedWithin_play s r h
    exact hr.trans (ih (play s r) (hr.noneNegative h))

end Round

/-- Through any rounds of batches every duration stays as it was at first or comes to lie within the bounds
of its kind. So none ever is negative, no edge costs less than nothing, and, whatever such costs are
remembered, the way never gets shorter as a scan moves along the line. -/
theorem rounds_stay_within (s : Source) (rounds : List Round) (h : s.store.NoneNegative) :
    s.store.RetimedWithin (rounds.foldl Round.play s).store ∧
      (rounds.foldl Round.play s).store.NoneNegative ∧
      (∀ k seconds, (rounds.foldl Round.play s).store.cost? k = some seconds → 0 ≤ seconds) ∧
      ∀ memo : Memo, (∀ k seconds, memo.get? k = some seconds → 0 ≤ seconds) →
        ∀ line heading target,
          Prediction.Climbing (.of (rounds.foldl Round.play s).store memo) line heading target := by
  have hwithin := Round.retimedWithin_foldl s rounds h
  have hnone := hwithin.noneNegative h
  refine ⟨hwithin, hnone, fun k seconds => hnone.cost, fun memo hmemo line heading target => ?_⟩
  refine Prediction.climbing (fun k seconds hk => ?_) line heading target
  rcases Option.or_eq_some_iff.mp hk with hk | ⟨_, hk⟩
  · exact hmemo k seconds hk
  · exact hnone.cost hk

/-- A change at `b` within the time that trains stop there. -/
def hastyTrip : Trip :=
  ⟨"hasty", ⟨0, 0⟩, [⟨"a", ⟨0, 0⟩, ⟨0, 0⟩, .networkEntry, false, none, none⟩,
    ⟨"b", ⟨100, 0⟩, ⟨125, 0⟩, .interchange, false, some "l", some "m"⟩]⟩

def throughRound : Round := ⟨changeStore.trips, changeStore.ordered, by decide, ⟨0⟩, ⟨5⟩, .entered⟩

def hastyRound : Round := ⟨[hastyTrip, hastyTrip], by decide, by decide, ⟨0⟩, ⟨5⟩, .reversed⟩

theorem noneNegative_changeStore : changeStore.NoneNegative where
  connection k c h := by
    have hall : ∀ e ∈ changeStore.connections.entries, e.2.NoneNegative := by decide
    exact hall (k, c) (Table.mem_of_find h)
  transfer k x h := by
    have hall : ∀ e ∈ changeStore.transfers.entries, 0 ≤ e.2.typical.toInt := by decide
    exact hall (k, x) (Table.mem_of_find h)

/-- After the first round trains stop for 30 seconds at `b`. In the second a change there takes 5, and what
is left of it is nought. -/
theorem rounds_stay_within_hasty : ∃ st : Store, changeStore.RetimedWithin st ∧ st.NoneNegative ∧
    st.connection? ⟨"b", "c"⟩ = some ⟨"b", "c", "m", 80, 30, 0⟩ ∧
      st.transfer? ⟨"b", "l", "m"⟩ = some ⟨"b", "l", "m", 0⟩ := by
  obtain ⟨hwithin, hnone, -⟩ := rounds_stay_within (.ofStore changeStore) [throughRound, hastyRound]
    noneNegative_changeStore
  exact ⟨_, hwithin, hnone, by decide +kernel, by decide +kernel⟩

end Timing

end Arrivals
