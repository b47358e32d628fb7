import Arrivals.Proofs.Store.Listing
import Arrivals.Proofs.Timing.Commit
import Arrivals.Proofs.Timing.Means

/-! What a batch teaches. Main statement: if no call fails, every duration with enough samples becomes
their exact mean, rounded, and everything else stays; a transfer time is a difference of two means,
which is rounded from a double that is hardly off, so all but near a tie it is exact as well. At a tie it
need not be. -/

namespace Arrivals

namespace Timing

/-- A duration before and after a batch, as long as a 32-bit counter counts the samples. -/
def Learnt (samples : List Int) (old new : Int32) : Prop :=
  if samples.length < 2 then new = old
  else samples.length < 2 ^ 32 → new.toInt = roundHalfAway (average samples)

/-- The mean of some samples without that of the stops ahead, as a double. -/
def surplus (samples : List Int) (stops : List Int32) : Binary :=
  Format.double.round ((Tally.ofList samples).mean.sub (meanOf stops))

def exactSurplus (samples : List Int) (stops : List Int32) : ℚ :=
  average samples - average (stops.map Int32.toInt)

/-- The time of a change that takes so much longer than the stops ahead, never below nought. -/
def changeSeconds (surplus : ℚ) : Int := max 0 (min 2147483647 (roundHalfAway surplus))

/-- A transfer time before and after a batch. What decides is the double, which rounds as the exact
surplus does unless that is all but a half, and then is a second off at the most. -/
def LearntAhead (samples : List Int) (stops : List Int32) (old new : Int32) : Prop :=
  if samples.length < 2 then new = old
  else samples.length < 2 ^ 32 →
    |(surplus samples stops).value - exactSurplus samples stops| ≤ 2 ^ (-19 : Int) ∧
      new.toInt = changeSeconds (surplus samples stops).value ∧
      |new.toInt - changeSeconds (exactSurplus samples stops)| ≤ 1 ∧
      ((∀ z : Int, 2 ^ (-19 : Int) < |exactSurplus samples stops - (z + 1 / 2)|) →
        new.toInt = changeSeconds (exactSurplus samples stops))

end Timing

/-- How long trains stop before they leave a transfer's station on its second line. -/
def Store.stopsAhead (st : Store) (k : TransferKey) : List Int32 :=
  (st.connections.values.filter fun c => c.origin = k.station && c.line = k.toLine).map
    Connection.typicalStop

namespace Timing

/-- One store is what a batch makes of another. -/
structure Teaches (legs : List Leg) (a b : Store) : Prop where
  retimed : a.Retimed b
  typical : ∀ k, Option.Rel (fun c d => Learnt (transits a legs k) c.typical d.typical)
    (a.connection? k) (b.connection? k)
  typicalStop : ∀ k, Option.Rel (fun c d => Learnt (stops a legs k) c.typicalStop d.typicalStop)
    (a.connection? k) (b.connection? k)
  typicalWait : ∀ k, Option.Rel (fun c d => Learnt (waits a legs k) c.typicalWait d.typicalWait)
    (a.connection? k) (b.connection? k)
  typicalTransfer : ∀ k, Option.Rel
    (fun x y => LearntAhead (changes a legs k) (b.stopsAhead k) x.typical y.typical)
    (a.transfer? k) (b.transfer? k)

theorem transit_bounds {st : Store} {legs : List Leg} {k : ConnectionKey} :
    ∀ x ∈ transits st legs k, 20 ≤ x ∧ x ≤ 619 := by
  intro x hx
  obtain ⟨l, _, hl⟩ := List.mem_filterMap.mp hx
  obtain ⟨h, hx⟩ := Option.ite_none_right_eq_some.mp hl
  cases hx
  omega

theorem dwell_bounds {use : UseType} {st : Store} {legs : List Leg} {k : ConnectionKey} :
    ∀ x ∈ legs.filterMap (Leg.dwell? use st k), 0 ≤ x ∧ x ≤ 179 := by
  intro x hx
  obtain ⟨l, _, hl⟩ := List.mem_filterMap.mp hx
  obtain ⟨h, hx⟩ := Option.ite_none_right_eq_some.mp hl
  cases hx
  omega

theorem change_bounds {st : Store} {legs : List Leg} {k : TransferKey} :
    ∀ x ∈ changes st legs k, -20 ≤ x ∧ x ≤ 879 := by
  intro x hx
  obtain ⟨l, _, hl⟩ := List.mem_filterMap.mp hx
  obtain ⟨h, hx⟩ := Option.ite_none_right_eq_some.mp hl
  cases hx
  omega

theorem abs_le_of_bounds {samples : List Int} {low high : Int}
    (h : ∀ x ∈ samples, low ≤ x ∧ x ≤ high) (hlow : -1024 ≤ low) (hhigh : high ≤ 1024) :
    ∀ x ∈ samples, |x| ≤ 1024 := by
  intro x hx
  have hb := h x hx
  rw [abs_le]
  omega

theorem abs_change_le {st : Store} {legs : List Leg} {k : TransferKey} :
    ∀ x ∈ changes st legs k, |x| ≤ 1024 :=
  abs_le_of_bounds change_bounds (by decide) (by decide)

theorem learnt_of_mean {samples : List Int} {low high : Int} (h : ∀ x ∈ samples, low ≤ x ∧ x ≤ high)
    (hlow : -1024 ≤ low) (hhigh : high ≤ 1024) (old : Int32) :
    Learnt samples old
      (((Tally.ofList samples).significantMean?.map Binary.wholeSeconds).getD old) := by
  rw [Learnt]
  split
  next hn =>
    rw [Tally.significantMean?_ofList (by omega), if_pos hn]
    rfl
  next hn =>
    intro hlen
    have habs := abs_le_of_bounds h hlow hhigh
    have hround := roundHalfAway_doubleMean habs (by omega) hlen
    rw [Tally.significantMean?_ofList hlen, if_neg hn, Tally.mean_ofList habs hlen]
    exact toInt_wholeSeconds_of_small hround (by exact_mod_cast abs_average_le habs (by decide))

theorem abs_average_stops_le (stops : List Int32) :
    |average (stops.map Int32.toInt)| ≤ 2147483648 := by
  exact_mod_cast abs_average_le (abs_toInt_le stops) (by decide)

theorem abs_meanOf_sub_le (stops : List Int32) :
    |(meanOf stops).value - average (stops.map Int32.toInt)| ≤ 3 * 2 ^ (-22 : Int) := by
  cases stops with
  | nil => simp [meanOf, average]
  | cons s rest =>
    have h := abs_doubleMean_sub_le (abs_toInt_le (s :: rest)) (by decide) (by simp)
    rw [List.length_map, ← total_eq] at h
    rw [meanOf, if_neg (by simp)]
    refine h.trans ?_
    norm_num

/-- The double surplus of small samples is hardly off. -/
theorem abs_surplus_sub_le {samples : List Int} (h : ∀ x ∈ samples, |x| ≤ 1024)
    (hne : 0 < samples.length) (hlen : samples.length < 2 ^ 32) (stops : List Int32) :
    |(surplus samples stops).value - exactSurplus samples stops| ≤ 2 ^ (-19 : Int) := by
  rw [surplus, exactSurplus]
  set mean := (Tally.ofList samples).mean with hm
  have hmean : |mean.value - average samples| ≤ 3 * 1024 * 2 ^ (-53 : Int) := by
    rw [hm, Tally.mean_ofList h hlen]
    exact_mod_cast abs_doubleMean_sub_le h (by decide) hne
  have hstops := abs_meanOf_sub_le stops
  have hbound : |(mean.sub (meanOf stops)).value| ≤ 2 ^ 32 := by
    have ha : |average samples| ≤ 1024 := by exact_mod_cast abs_average_le h (by decide)
    have hb := abs_average_stops_le stops
    rw [Binary.value_sub]
    rw [abs_le] at *
    norm_num at *
    constructor <;> linarith
  have hround := Format.abs_double_round_sub_le _ (by norm_num) hbound
  rw [Binary.value_sub] at hround
  rw [abs_le] at *
  norm_num at *
  constructor <;> linarith

theorem toInt_correctedSeconds (samples : List Int) (stops : List Int32) :
    (correctedSeconds (Tally.ofList samples).mean stops).toInt =
      changeSeconds (surplus samples stops).value := by
  rw [correctedSeconds, changeSeconds, ← surplus]
  by_cases hneg : (surplus samples stops).value < 0
  · have hr := roundHalfAway_nonpos hneg
    rw [if_pos ((Binary.lt_iff _ _).mpr (by simpa using hneg)), max_eq_left (by omega)]
    rfl
  · have hr := roundHalfAway_nonneg (not_lt.mp hneg)
    rw [if_neg (mt (Binary.lt_iff _ _).mp (by simpa using hneg)), toInt_wholeSeconds]
    omega

theorem learntAhead_correctedSeconds {samples : List Int} (h : ∀ x ∈ samples, |x| ≤ 1024)
    (stops : List Int32) (old : Int32) :
    LearntAhead samples stops old
      (((Tally.ofList samples).significantMean?.map (correctedSeconds · stops)).getD old) := by
  rw [LearntAhead]
  split
  next hn =>
    rw [Tally.significantMean?_ofList (by omega), if_pos hn]
    rfl
  next hn =>
    intro hlen
    have hnear := abs_surplus_sub_le h (by omega) hlen stops
    rw [Tally.significantMean?_ofList hlen, if_neg hn, Option.map_some, Option.getD_some,
      toInt_correctedSeconds]
    refine ⟨hnear, rfl, ?_, fun hfar => ?_⟩
    · have hoff := abs_roundHalfAway_sub_le (hnear.trans_lt (by norm_num))
      rw [abs_le] at hoff ⊢
      rw [changeSeconds, changeSeconds]
      omega
    · rw [changeSeconds, roundHalfAway_of_far hnear hfar, changeSeconds]

namespace Staged

variable {st : Store} {legs : List Leg} {t : Transaction}

theorem values_commit (h : Staged st legs t) : (t.commit st).connections.values =
    st.connections.values.map fun c => (t.connections.get? c.key).getD c := by
  have he : (t.commit st).connections.entries =
      st.connections.entries.map fun e => (e.1, (t.connections.get? e.1).getD e.2) :=
    Table.entries_insertAll _ t.connections.distinct (mem_keys_of_shown h.connection)
  rw [Table.values, he, Table.values, List.map_map, List.map_map]
  refine List.map_congr_left fun e hm => ?_
  have hk : e.2.key = e.1 := st.filedConnections e hm
  simp [hk]

theorem stopsAhead_commit (h : Staged st legs t) (k : TransferKey) :
    (t.commit st).stopsAhead k = stopsAhead t st k := by
  have horigin : ∀ c : Connection, ((t.connections.get? c.key).getD c).origin = c.origin :=
    fun c => congrArg ConnectionKey.origin (t.key_getD c)
  rw [Store.stopsAhead, h.values_commit, stopsAhead, Transaction.connectionsFrom, List.filter_map,
    List.filter_map, List.filter_filter]
  congr 2
  refine List.filter_congr fun c _ => ?_
  simp [horigin, Bool.and_comm]

theorem teaches (h : Staged st legs t) : Teaches legs st (t.commit st) where
  retimed := h.retimed
  typical k := by
    rw [Transaction.connection?_commit, h.connection]
    refine rel_map (fun c => ?_) _
    exact learnt_of_mean transit_bounds (by decide) (by decide) c.typical
  typicalStop k := by
    rw [Transaction.connection?_commit, h.connection]
    refine rel_map (fun c => ?_) _
    exact learnt_of_mean dwell_bounds (by decide) (by decide) c.typicalStop
  typicalWait k := by
    rw [Transaction.connection?_commit, h.connection]
    refine rel_map (fun c => ?_) _
    exact learnt_of_mean dwell_bounds (by decide) (by decide) c.typicalWait
  typicalTransfer k := by
    rw [Transaction.transfer?_commit, h.transfer, h.stopsAhead_commit]
    refine rel_map (fun x => ?_) _
    exact learntAhead_correctedSeconds abs_change_le (stopsAhead t st k) x.typical

end Staged

/-- A batch in which no call fails teaches what its window has to teach. -/
theorem run_teaches (s : Source) (now : Instant) (window : Span) (hs : s.Steady) :
    ∃ report s', s.run (run now window) = (.ok report, s') ∧
      Teaches (windowLegs s.store (.ofInstant (now.before window))) s.store s'.store := by
  obtain ⟨hf, _⟩ | ⟨t, report, n, ht, he⟩ := run_cases s now window
  · exact absurd hs hf
  · exact ⟨report, _, he, ht.teaches⟩

def ride (seconds : Int) : Trip :=
  ⟨"r", ⟨0, 0⟩, [⟨"a", ⟨0, 0⟩, ⟨0, 0⟩, .networkEntry, false, none, none⟩,
    ⟨"b", ⟨seconds, 0⟩, ⟨seconds, 0⟩, .visit, false, none, none⟩]⟩

def rideStore : Store :=
  { (default : Store).saveConnection ⟨"a", "b", "l", 60, 0, 0⟩ with
    trips := [ride 100, ride 101]
    ordered := by decide }

theorem run_teaches_rides : ∃ report s' c,
    (Source.ofStore rideStore).run (run ⟨0⟩ ⟨5⟩) = (.ok report, s') ∧
      s'.store.connection? ⟨"a", "b"⟩ = some c ∧ c.typical.toInt = 121 := by
  obtain ⟨report, s', he, ht⟩ := run_teaches (.ofStore rideStore) ⟨0⟩ ⟨5⟩ fun _ _ _ => rfl
  have hsamples : transits rideStore (windowLegs rideStore (.ofInstant (Instant.before ⟨0⟩ ⟨5⟩)))
      ⟨"a", "b"⟩ = [120, 121] := by decide +kernel
  have hold : rideStore.connection? ⟨"a", "b"⟩ = some ⟨"a", "b", "l", 60, 0, 0⟩ := rfl
  have hmean : roundHalfAway (average [120, 121]) = 121 := by decide +kernel
  have hnew := ht.typical ⟨"a", "b"⟩
  rw [Source.ofStore, hsamples, hold] at hnew
  generalize hc : s'.store.connection? ⟨"a", "b"⟩ = new at hnew
  cases hnew with
  | some h => exact ⟨report, s', _, he, hc, (h (by decide)).trans hmean⟩

/-- A transfer time before and after a batch, if no double came between. -/
def LearntExactly (samples : List Int) (stops : List Int32) (old new : Int32) : Prop :=
  if samples.length < 2 then new = old
  else new.toInt = changeSeconds (exactSurplus samples stops)

def tieTrip (dwell : Int) : Trip :=
  ⟨"t", ⟨0, 0⟩, [⟨"a", ⟨0, 0⟩, ⟨0, 0⟩, .networkEntry, false, none, none⟩,
    ⟨"b", ⟨100, 0⟩, ⟨100 + dwell, 0⟩, .interchange, false, some "l", some "m"⟩]⟩

/-- The samples of the change at `b` have a mean of 13/6 seconds, and trains stop there for 5/3 on its second
line, so exactly half a second is left. -/
def tieStore : Store :=
  { (((default : Store).saveConnection ⟨"b", "c", "m", 60, 2, 0⟩).saveConnection
      ⟨"b", "d", "m", 60, 2, 0⟩).saveConnection ⟨"b", "e", "m", 60, 1, 0⟩ with
    transfers := .ofList [(⟨"b", "l", "m"⟩, ⟨"b", "l", "m", 40⟩)]
    filedTransfers := (Table.filedBy_empty Transfer.key).insert ⟨"b", "l", "m", 40⟩
    trips := [tieTrip 22, tieTrip 22, tieTrip 22, tieTrip 22, tieTrip 22, tieTrip 23]
    ordered := by decide }

/-- At a tie the double may be just below the half, and then the transfer time is not the exact one. -/
theorem run_rounds_ties : ¬ ∀ (s : Source) (now : Instant) (window : Span), s.Steady →
    ∀ k, Option.Rel
      (fun x y => LearntExactly
        (changes s.store (windowLegs s.store (.ofInstant (now.before window))) k)
        ((s.run (run now window)).2.store.stopsAhead k) x.typical y.typical)
      (s.store.transfer? k) ((s.run (run now window)).2.store.transfer? k) := by
  intro h
  have hrel := h (.ofStore tieStore) ⟨0⟩ ⟨5⟩ (fun _ _ _ => rfl) ⟨"b", "l", "m"⟩
  have hold : (Source.ofStore tieStore).store.transfer? ⟨"b", "l", "m"⟩ = some ⟨"b", "l", "m", 40⟩ := rfl
  have hnew : ((Source.ofStore tieStore).run (run ⟨0⟩ ⟨5⟩)).2.store.transfer? ⟨"b", "l", "m"⟩ =
      some ⟨"b", "l", "m", 0⟩ := by decide +kernel
  have hsamples : changes (Source.ofStore tieStore).store
      (windowLegs (Source.ofStore tieStore).store (.ofInstant (Instant.before ⟨0⟩ ⟨5⟩)))
      ⟨"b", "l", "m"⟩ = [2, 2, 2, 2, 2, 3] := by decide +kernel
  have hstops : ((Source.ofStore tieStore).run (run ⟨0⟩ ⟨5⟩)).2.store.stopsAhead ⟨"b", "l", "m"⟩ =
      [2, 2, 1] := by decide +kernel
  have hexact : changeSeconds (exactSurplus [2, 2, 2, 2, 2, 3] [2, 2, 1]) = 1 := by decide +kernel
  rw [hold, hnew, hsamples, hstops] at hrel
  cases hrel with
  | some hlearnt => exact absurd (hlearnt.trans hexact) (by decide)

end Timing

end Arrivals
