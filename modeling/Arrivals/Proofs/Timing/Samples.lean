import Arrivals.Proofs.Access
import Arrivals.Timing.Batch

/-! The samples of a trip log, bucket by bucket. Main statement: a batch that goes through some trips
holds the tally of every bucket, whatever calls it made on the way. -/

namespace Arrivals.Timing

abbrev Leg := StationUse × StationUse

def neighbours (uses : List StationUse) : List Leg := uses.zip uses.tail

/-- The legs that carry timing, of which neither end was added by hand. -/
def timedLegs (uses : List StationUse) : List Leg :=
  (neighbours uses).filter fun l => !(l.1.manual || l.2.manual)

def legsOf (trips : List Trip) : List Leg := trips.flatMap fun t => timedLegs t.uses

namespace Leg

def transitSeconds (l : Leg) : Int := (l.2.entry.since l.1.leave).seconds

/-- The leg is ridden over an edge that the store has. -/
def Rides (st : Store) (k : ConnectionKey) (l : Leg) : Prop :=
  l.2.useType ≠ .interchange ∧ k = ⟨l.1.station, l.2.station⟩ ∧ (st.connection? k).isSome

instance (st : Store) (k : ConnectionKey) (l : Leg) : Decidable (l.Rides st k) :=
  inferInstanceAs (Decidable (_ ∧ _ ∧ _))

/-- The leg ends with a change of lines that the store has. -/
def Changes (st : Store) (k : TransferKey) (l : Leg) : Prop :=
  l.2.useType = .interchange ∧ l.2.station = k.station ∧ l.2.sourceLine = some k.fromLine ∧
    l.2.targetLine = some k.toLine ∧ (st.transfer? k).isSome

instance (st : Store) (k : TransferKey) (l : Leg) : Decidable (l.Changes st k) :=
  inferInstanceAs (Decidable (_ ∧ _ ∧ _ ∧ _ ∧ _))

def transit? (st : Store) (k : ConnectionKey) (l : Leg) : Option Int :=
  if l.Rides st k ∧ 0 ≤ l.transitSeconds ∧ l.transitSeconds < 600 then
    some (l.transitSeconds + 20)
  else none

/-- The time spent at the start of the leg, if it was used in the given way. -/
def dwell? (use : UseType) (st : Store) (k : ConnectionKey) (l : Leg) : Option Int :=
  if l.Rides st k ∧ l.1.useType = use ∧ 0 ≤ l.1.dwellSeconds ∧ l.1.dwellSeconds < 180 then
    some l.1.dwellSeconds
  else none

def change? (st : Store) (k : TransferKey) (l : Leg) : Option Int :=
  if l.Changes st k ∧ 0 ≤ l.2.dwellSeconds ∧ l.2.dwellSeconds < 900 then
    some (l.2.dwellSeconds - 20)
  else none

end Leg

def transits (st : Store) (legs : List Leg) (k : ConnectionKey) : List Int :=
  legs.filterMap (Leg.transit? st k)

def stops (st : Store) (legs : List Leg) (k : ConnectionKey) : List Int :=
  legs.filterMap (Leg.dwell? .goneThrough st k)

def waits (st : Store) (legs : List Leg) (k : ConnectionKey) : List Int :=
  legs.filterMap (Leg.dwell? .networkEntry st k)

def changes (st : Store) (legs : List Leg) (k : TransferKey) : List Int :=
  legs.filterMap (Leg.change? st k)

namespace Batch

def edge (b : Batch) (k : ConnectionKey) : EdgeSamples := (b.connections.get? k).getD .empty

def change (b : Batch) (k : TransferKey) : Tally := (b.transfers.get? k).getD .empty

@[simp] theorem edge_skipSample (b : Batch) (k : ConnectionKey) : b.skipSample.edge k = b.edge k := rfl
@[simp] theorem change_skipSample (b : Batch) (k : TransferKey) :
    b.skipSample.change k = b.change k := rfl
@[simp] theorem edge_addTrip (b : Batch) (k : ConnectionKey) : b.addTrip.edge k = b.edge k := rfl
@[simp] theorem change_addTrip (b : Batch) (k : TransferKey) : b.addTrip.change k = b.change k := rfl
@[simp] theorem change_addLeg (b : Batch) (j : ConnectionKey) (u v : StationUse) (k : TransferKey) :
    (b.addLeg j u v).change k = b.change k := rfl
@[simp] theorem edge_addTransfer (b : Batch) (j : TransferKey) (x : Int) (k : ConnectionKey) :
    (b.addTransfer j x).edge k = b.edge k := rfl

theorem edge_addLeg (b : Batch) (j k : ConnectionKey) (u v : StationUse) :
    (b.addLeg j u v).edge k = if j = k then legSamples (b.edge j) u v else b.edge k := by
  by_cases h : j = k <;> simp [edge, addLeg, h]

theorem change_addTransfer (b : Batch) (j k : TransferKey) (x : Int) :
    (b.addTransfer j x).change k = if j = k then (b.change j).push x else b.change k := by
  by_cases h : j = k <;> simp [change, addTransfer, h]

end Batch

/-- `b'` has the samples of `b` and behind them those of the legs. -/
structure Gathers (st : Store) (legs : List Leg) (b b' : Batch) : Prop where
  transit : ∀ k, (b'.edge k).transit = (transits st legs k).foldl Tally.push (b.edge k).transit
  stop : ∀ k, (b'.edge k).stop = (stops st legs k).foldl Tally.push (b.edge k).stop
  wait : ∀ k, (b'.edge k).wait = (waits st legs k).foldl Tally.push (b.edge k).wait
  change : ∀ k, b'.change k = (changes st legs k).foldl Tally.push (b.change k)

theorem filterMap_singleton (f : α → Option β) (a : α) : [a].filterMap f = (f a).toList := by
  cases h : f a <;> simp [h]

namespace Gathers

variable {st : Store} {b b' b'' : Batch}

theorem nil (h : ∀ k, b'.edge k = b.edge k) (h' : ∀ k, b'.change k = b.change k) :
    Gathers st [] b b' where
  transit k := by rw [h]; rfl
  stop k := by rw [h]; rfl
  wait k := by rw [h]; rfl
  change k := by rw [h']; rfl

theorem append {legs legs' : List Leg} (h : Gathers st legs b b') (h' : Gathers st legs' b' b'') :
    Gathers st (legs ++ legs') b b'' where
  transit k := by
    rw [h'.transit, h.transit, ← List.foldl_append, transits, transits, transits, List.filterMap_append]
  stop k := by rw [h'.stop, h.stop, ← List.foldl_append, stops, stops, stops, List.filterMap_append]
  wait k := by rw [h'.wait, h.wait, ← List.foldl_append, waits, waits, waits, List.filterMap_append]
  change k := by
    rw [h'.change, h.change, ← List.foldl_append, changes, changes, changes, List.filterMap_append]

theorem single {l : Leg}
    (ht : ∀ k, (b'.edge k).transit = (l.transit? st k).toList.foldl Tally.push (b.edge k).transit)
    (hs : ∀ k, (b'.edge k).stop = (l.dwell? .goneThrough st k).toList.foldl Tally.push (b.edge k).stop)
    (hw : ∀ k, (b'.edge k).wait = (l.dwell? .networkEntry st k).toList.foldl Tally.push (b.edge k).wait)
    (hc : ∀ k, b'.change k = (l.change? st k).toList.foldl Tally.push (b.change k)) :
    Gathers st [l] b b' where
  transit k := by rw [ht, transits, filterMap_singleton]
  stop k := by rw [hs, stops, filterMap_singleton]
  wait k := by rw [hw, waits, filterMap_singleton]
  change k := by rw [hc, changes, filterMap_singleton]

end Gathers

theorem within_iff {x limit : Int} : Batch.within x limit = true ↔ 0 ≤ x ∧ x < limit := by
  simp [Batch.within]

/-- Each bucket gets at most one sample of a leg, and no more than one of the dwells gets one. -/
theorem legSamples_eq (s : EdgeSamples) (u v : StationUse) :
    Batch.legSamples s u v =
      { transit :=
          if 0 ≤ Leg.transitSeconds (u, v) ∧ Leg.transitSeconds (u, v) < 600 then
            s.transit.push (Leg.transitSeconds (u, v) + 20)
          else s.transit
        stop :=
          if u.useType = .goneThrough ∧ 0 ≤ u.dwellSeconds ∧ u.dwellSeconds < 180 then
            s.stop.push u.dwellSeconds
          else s.stop
        wait :=
          if u.useType = .networkEntry ∧ 0 ≤ u.dwellSeconds ∧ u.dwellSeconds < 180 then
            s.wait.push u.dwellSeconds
          else s.wait } := by
  simp only [Batch.legSamples, within_iff, transitLimit, transitBias, dwellLimit, Leg.transitSeconds]
  by_cases ht : 0 ≤ (v.entry.since u.leave).seconds ∧ (v.entry.since u.leave).seconds < 600 <;>
    by_cases hd : 0 ≤ u.dwellSeconds ∧ u.dwellSeconds < 180 <;>
    cases hu : u.useType <;> simp [ht, hd]

theorem foldl_push_ite {p : Prop} [Decidable p] (t : Tally) (x : Int) :
    (if p then some x else none).toList.foldl Tally.push t = if p then t.push x else t := by
  split <;> rfl

theorem gathers_addLeg {st : Store} (b : Batch) {u v : StationUse} (hv : v.useType ≠ .interchange)
    (hk : (st.connection? ⟨u.station, v.station⟩).isSome) :
    Gathers st [(u, v)] b (b.addLeg ⟨u.station, v.station⟩ u v) := by
  have hr (k : ConnectionKey) : Leg.Rides st k (u, v) ↔ ⟨u.station, v.station⟩ = k :=
    ⟨fun h => h.2.1.symm, fun h => ⟨hv, h.symm, h ▸ hk⟩⟩
  refine .single (fun k => ?_) (fun k => ?_) (fun k => ?_) fun k => ?_
  · rw [Leg.transit?, foldl_push_ite]
    by_cases h : ⟨u.station, v.station⟩ = k <;> simp [Batch.edge_addLeg, legSamples_eq, hr, h]
  · rw [Leg.dwell?, foldl_push_ite]
    by_cases h : ⟨u.station, v.station⟩ = k <;> simp [Batch.edge_addLeg, legSamples_eq, hr, h]
  · rw [Leg.dwell?, foldl_push_ite]
    by_cases h : ⟨u.station, v.station⟩ = k <;> simp [Batch.edge_addLeg, legSamples_eq, hr, h]
  · simp [Leg.change?, Leg.Changes, hv]

theorem gathers_of_none {st : Store} {b b' : Batch} {l : Leg} (hr : ∀ k, ¬ l.Rides st k)
    (hc : ∀ k, l.change? st k = none) (he : ∀ k, b'.edge k = b.edge k)
    (he' : ∀ k, b'.change k = b.change k) : Gathers st [l] b b' := by
  refine .single (fun k => ?_) (fun k => ?_) (fun k => ?_) fun k => ?_
  · simp [Leg.transit?, hr, he]
  · simp [Leg.dwell?, hr, he]
  · simp [Leg.dwell?, hr, he]
  · simp [hc, he']

theorem asks_accumulateLeg (st : Store) (b : Batch) {u v : StationUse}
    (hv : v.useType ≠ .interchange) :
    Access.Asks st (Gathers st [(u, v)] b) (accumulateLeg .empty b u v) := by
  refine (Access.Asks.read _ _).bind fun found hf => ?_
  rw [Transaction.connection?_empty] at hf
  cases found with
  | none =>
    refine .pure (gathers_of_none (fun k h => ?_) (fun k => ?_) (fun _ => rfl) fun _ => rfl)
    · have hk := h.2.2
      rw [h.2.1, ← hf] at hk
      cases hk
    · simp [Leg.change?, Leg.Changes, hv]
  | some c => exact .pure (gathers_addLeg b hv (by rw [← hf]; rfl))

theorem Leg.Changes.key_eq {st : Store} {k : TransferKey} {l : Leg} (h : l.Changes st k)
    {source target : LineId} (hs : l.2.sourceLine = some source)
    (ht : l.2.targetLine = some target) : k = ⟨l.2.station, source, target⟩ := by
  have hf := hs.symm.trans h.2.2.1
  have hl := ht.symm.trans h.2.2.2.1
  cases hf
  cases hl
  rw [h.2.1]

theorem gathers_addTransfer {st : Store} (b : Batch) {u v : StationUse} {k : TransferKey}
    (hk : Leg.Changes st k (u, v)) (hd : 0 ≤ v.dwellSeconds ∧ v.dwellSeconds < 900) :
    Gathers st [(u, v)] b (b.addTransfer k (v.dwellSeconds - transferBias)) := by
  have hr (j : ConnectionKey) : ¬ Leg.Rides st j (u, v) := fun h => h.1 hk.1
  have hc (j : TransferKey) : Leg.Changes st j (u, v) ↔ k = j :=
    ⟨fun h => (hk.key_eq h.2.2.1 h.2.2.2.1).trans (h.key_eq h.2.2.1 h.2.2.2.1).symm, fun h => h ▸ hk⟩
  refine .single (fun k => ?_) (fun k => ?_) (fun k => ?_) fun j => ?_
  · simp [Leg.transit?, hr]
  · simp [Leg.dwell?, hr]
  · simp [Leg.dwell?, hr]
  · rw [Batch.change_addTransfer]
    by_cases h : k = j
    · simp [Leg.change?, hc, h, hd, transferBias]
    · simp [Leg.change?, hc, h]

theorem asks_accumulateTransfer (st : Store) (b : Batch) {u v : StationUse}
    (hv : v.useType = .interchange) :
    Access.Asks st (Gathers st [(u, v)] b) (accumulateTransfer .empty b v) := by
  have hr (k : ConnectionKey) : ¬ Leg.Rides st k (u, v) := fun h => h.1 hv
  unfold accumulateTransfer
  simp only [Bool.not_eq_true', ← Bool.not_eq_true, within_iff, transferLimit]
  split
  next hd =>
    refine .pure (gathers_of_none hr (fun k => if_neg fun h => ?_) (fun _ => rfl) fun _ => rfl)
    exact hd h.2
  next hd =>
    rw [Decidable.not_not] at hd
    split
    next source target hs ht =>
      refine (Access.Asks.read _ _).bind fun found hf => ?_
      rw [Transaction.transfer?_empty] at hf
      cases found with
      | none =>
        refine .pure (gathers_of_none hr (fun k => if_neg fun h => ?_) (fun _ => rfl) fun _ => rfl)
        have hk := h.1.2.2.2.2
        rw [h.1.key_eq hs ht, ← hf] at hk
        cases hk
      | some x => exact .pure (gathers_addTransfer b ⟨hv, rfl, hs, ht, by rw [← hf]; rfl⟩ hd)
    next hst =>
      refine .pure (gathers_of_none hr (fun k => if_neg fun h => ?_) (fun _ => rfl) fun _ => rfl)
      exact hst _ _ h.1.2.2.1 h.1.2.2.2.1

def accumulatePair (t : Transaction) (b : Batch) (u v : StationUse) : Access StoreError Batch :=
  if u.manual || v.manual then pure b
  else if v.useType = .interchange then accumulateTransfer t b v
  else accumulateLeg t b u v

theorem accumulateUses_cons_cons (t : Transaction) (b : Batch) (u v : StationUse)
    (rest : List StationUse) :
    accumulateUses t b (u :: v :: rest) =
      accumulatePair t b u v >>= fun b => accumulateUses t b (v :: rest) := by
  simp only [accumulateUses, accumulatePair]
  split
  · rfl
  · split <;> rfl

theorem timedLegs_cons_cons (u v : StationUse) (rest : List StationUse) :
    timedLegs (u :: v :: rest) =
      (if u.manual || v.manual then [] else [(u, v)]) ++ timedLegs (v :: rest) := by
  rw [timedLegs, neighbours, List.tail_cons, List.zip_cons_cons, List.filter_cons]
  cases u.manual || v.manual <;> rfl

/-- A relation between batches that holds of a single leg and adds up along the legs. -/
structure AddsUp (st : Store) (R : List Leg → Batch → Batch → Prop) : Prop where
  nil : ∀ b, R [] b b
  append : ∀ {legs legs' b b' b''}, R legs b b' → R legs' b' b'' → R (legs ++ legs') b b''
  transfer : ∀ b {u v}, v.useType = .interchange →
    Access.Asks st (R [(u, v)] b) (accumulateTransfer .empty b v)
  leg : ∀ b {u v}, v.useType ≠ .interchange →
    Access.Asks st (R [(u, v)] b) (accumulateLeg .empty b u v)

namespace AddsUp

variable {st : Store} {R : List Leg → Batch → Batch → Prop}

theorem asks_pair (hR : AddsUp st R) (b : Batch) (u v : StationUse) :
    Access.Asks st (R (if u.manual || v.manual then [] else [(u, v)]) b)
      (accumulatePair .empty b u v) := by
  unfold accumulatePair
  split
  next hm => exact .pure (hR.nil b)
  next hm =>
    split
    next hv => exact hR.transfer b hv
    next hv => exact hR.leg b hv

theorem asks_uses (hR : AddsUp st R) (b : Batch) (uses : List StationUse) :
    Access.Asks st (R (timedLegs uses) b) (accumulateUses .empty b uses) := by
  induction uses generalizing b with
  | nil => exact .pure (hR.nil b)
  | cons u rest ih =>
    cases rest with
    | nil => exact .pure (hR.nil b)
    | cons v rest =>
      rw [accumulateUses_cons_cons, timedLegs_cons_cons]
      exact (hR.asks_pair b u v).bind fun b' h => (ih b').mono fun b'' h' => hR.append h h'

end AddsUp

theorem addsUp_gathers (st : Store) : AddsUp st (Gathers st) where
  nil _ := .nil (fun _ => rfl) fun _ => rfl
  append := .append
  transfer b _ _ hv := asks_accumulateTransfer st b hv
  leg b _ _ hv := asks_accumulateLeg st b hv

theorem asks_accumulateTrips (st : Store) (b : Batch) (trips : List Trip) :
    Access.Asks st (Gathers st (legsOf trips) b) (accumulateTrips .empty b trips) := by
  induction trips generalizing b with
  | nil => exact .pure (.nil (fun _ => rfl) fun _ => rfl)
  | cons trip rest ih =>
    refine ((addsUp_gathers st).asks_uses b trip.uses).bind fun b' h => ?_
    have hadd : Gathers st (timedLegs trip.uses) b b'.addTrip :=
      ⟨h.transit, h.stop, h.wait, h.change⟩
    exact (ih b'.addTrip).mono fun b'' h' => hadd.append h'

end Arrivals.Timing
