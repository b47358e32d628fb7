import Arrivals.Proofs.Timing.Samples

/-! What a batch reports of the legs that it goes through. Main statement: after some trips the report has
grown by their number and by the numbers of legs that were timed, that were changes, and that were skipped
because the store does not have them. -/

namespace Arrivals.Timing

namespace Leg

def connectionKey (l : Leg) : ConnectionKey := ⟨l.1.station, l.2.station⟩

/-- The change with which the leg ends, if both its lines were noted. -/
def transferKey? (l : Leg) : Option TransferKey :=
  match l.2.sourceLine, l.2.targetLine with
  | some source, some target => some ⟨l.2.station, source, target⟩
  | _, _ => none

def isTimed (st : Store) (l : Leg) : Bool := (l.transit? st l.connectionKey).isSome

def isChange (st : Store) (l : Leg) : Bool :=
  (l.transferKey?.bind fun k => l.change? st k).isSome

/-- The store does not have the edge; a change that took too long is not even looked up. -/
def isSkipped (st : Store) (l : Leg) : Bool :=
  if l.2.useType = .interchange then
    Batch.within l.2.dwellSeconds transferLimit && (l.transferKey?.bind st.transfer?).isNone
  else (st.connection? l.connectionKey).isNone

end Leg

namespace Report

def after (r : Report) (st : Store) (legs : List Leg) : Report :=
  { r with
    connectionSamples := r.connectionSamples + legs.countP (Leg.isTimed st)
    transferSamples := r.transferSamples + legs.countP (Leg.isChange st)
    skippedSamples := r.skippedSamples + legs.countP (Leg.isSkipped st) }

theorem after_append (r : Report) (st : Store) (legs legs' : List Leg) :
    r.after st (legs ++ legs') = (r.after st legs).after st legs' := by
  simp [after, List.countP_append, Nat.add_assoc]

theorem after_singleton (r : Report) (st : Store) (l : Leg) :
    r.after st [l] =
      { r with
        connectionSamples := r.connectionSamples + if l.isTimed st then 1 else 0
        transferSamples := r.transferSamples + if l.isChange st then 1 else 0
        skippedSamples := r.skippedSamples + if l.isSkipped st then 1 else 0 } := by
  simp [after, List.countP_singleton]

end Report

variable {st : Store} {u v : StationUse}

theorem asks_report_leg (b : Batch) (hv : v.useType ≠ .interchange) :
    Access.Asks st (fun b' => b'.report = b.report.after st [(u, v)]) (accumulateLeg .empty b u v) := by
  have hchange : Leg.isChange st (u, v) = false := by
    simp [Leg.isChange, Leg.change?, Leg.Changes, hv]
  refine (Access.Asks.read _ _).bind fun found hf => ?_
  rw [Transaction.connection?_empty] at hf
  cases found with
  | none =>
    refine .pure ?_
    simp [Report.after_singleton, hchange, Leg.isTimed, Leg.transit?, Leg.Rides, Leg.isSkipped,
      Leg.connectionKey, hv, ← hf, Batch.skipSample]
  | some c =>
    refine .pure ?_
    simp [Report.after_singleton, hchange, Leg.isTimed, Leg.transit?, Leg.Rides, Leg.isSkipped,
      Leg.connectionKey, hv, ← hf, Batch.addLeg, Leg.transitSeconds, within_iff, transitLimit]

theorem isChange_eq (hv : v.useType = .interchange) :
    Leg.isChange st (u, v) = (Batch.within v.dwellSeconds transferLimit &&
      ((Leg.transferKey? (u, v)).bind st.transfer?).isSome) := by
  rw [Leg.isChange, Leg.transferKey?]
  split
  next source target hs ht =>
    have hlines : v.sourceLine = some source ∧ v.targetLine = some target := ⟨hs, ht⟩
    rw [Option.bind_some, Option.bind_some, Leg.change?, Bool.eq_iff_iff]
    simp [Leg.Changes, hv, hlines, within_iff, transferLimit, and_comm]
  next => simp

theorem asks_report_transfer (b : Batch) (hv : v.useType = .interchange) :
    Access.Asks st (fun b' => b'.report = b.report.after st [(u, v)]) (accumulateTransfer .empty b v) := by
  have htimed : Leg.isTimed st (u, v) = false := by
    simp [Leg.isTimed, Leg.transit?, Leg.Rides, hv]
  have hskipped : Leg.isSkipped st (u, v) = (Batch.within v.dwellSeconds transferLimit &&
      ((Leg.transferKey? (u, v)).bind st.transfer?).isNone) := if_pos hv
  unfold accumulateTransfer
  dsimp only
  split
  next hd =>
    rw [Bool.not_eq_true'] at hd
    refine .pure ?_
    simp [Report.after_singleton, htimed, hskipped, isChange_eq hv, hd]
  next hd =>
    rw [Bool.not_eq_true', Bool.not_eq_false] at hd
    split
    next source target hs ht =>
      have hkey : Leg.transferKey? (u, v) = some ⟨v.station, source, target⟩ := by
        simp [Leg.transferKey?, hs, ht]
      refine (Access.Asks.read _ _).bind fun found hf => ?_
      rw [Transaction.transfer?_empty] at hf
      cases found with
      | none =>
        refine .pure ?_
        simp [Report.after_singleton, htimed, hskipped, isChange_eq hv, hd, hkey, ← hf, Batch.skipSample]
      | some x =>
        refine .pure ?_
        simp [Report.after_singleton, htimed, hskipped, isChange_eq hv, hd, hkey, ← hf, Batch.addTransfer]
    next hnone =>
      have hkey : Leg.transferKey? (u, v) = none := by
        rw [Leg.transferKey?]
        split
        next source target hs ht => exact absurd ht (hnone source target hs)
        next => rfl
      refine .pure ?_
      simp [Report.after_singleton, htimed, hskipped, isChange_eq hv, hd, hkey, Batch.skipSample]

theorem addsUp_report (st : Store) :
    AddsUp st fun legs b b' => b'.report = b.report.after st legs where
  nil _ := rfl
  append h h' := by rw [h', h, Report.after_append]
  transfer b _ _ hv := asks_report_transfer b hv
  leg b _ _ hv := asks_report_leg b hv

theorem asks_report (st : Store) (b : Batch) (trips : List Trip) :
    Access.Asks st
      (fun b' => b'.report =
        { b.report.after st (legsOf trips) with trips := b.report.trips + trips.length })
      (accumulateTrips .empty b trips) := by
  induction trips generalizing b with
  | nil => exact .pure rfl
  | cons trip rest ih =>
    refine ((addsUp_report st).asks_uses b trip.uses).bind fun b' h => ?_
    refine (ih b'.addTrip).mono fun b'' h' => ?_
    have hlegs : legsOf (trip :: rest) = timedLegs trip.uses ++ legsOf rest := rfl
    have hadd : b'.addTrip.report.after st (legsOf rest) =
        { b'.report.after st (legsOf rest) with trips := b'.report.trips + 1 } := rfl
    have htrips : b'.report.trips = b.report.trips := by rw [h]; rfl
    rw [h', hadd, hlegs, Report.after_append, ← h]
    simp [Batch.addTrip, htrips, Nat.add_assoc, Nat.add_comm 1]

end Arrivals.Timing
