import Arrivals.Proofs.Timing.Report

/-! What a batch puts into its transaction. Main statements: in whatever order it visits its samples, the
transaction shows every connection and every transfer of the store with the durations that its samples
teach, and holds nothing else; so a batch commits all of that, or leaves the store alone. What it reports
are the numbers of its trips, of its samples, and of the edges that the transaction shows changed. -/

namespace Arrivals.Timing

section Taught

variable {κ σ α : Type} [DecidableEq κ] [DecidableEq α]

/-- Each entry teaches the record under its key, which `before` shows as it was and `after` as it has
become. The count grows by the number of records that were changed. -/
structure Taught (teach : κ → σ → α → α) (d : σ) (entries : List (κ × σ)) (before after : κ → Option α)
    (n m : Nat) : Prop where
  shown : ∀ k, after k = (before k).map (teach k ((Table.find k entries).getD d))
  counted : m = n + entries.countP fun e => after e.1 ≠ before e.1

namespace Taught

variable {teach : κ → σ → α → α} {d s : σ} {k : κ} {rest : List (κ × σ)}
  {before between after : κ → Option α} {n m : Nat}

theorem nil (hd : ∀ k a, teach k d a = a) : Taught teach d [] before before n n where
  shown k := by simp [Table.find, funext (hd k)]
  counted := rfl

/-- The first entry turns `before` into `between`, and those behind it, which have other keys, turn that
into `after`. -/
theorem cons (hd : ∀ k a, teach k d a = a) (hn : Table.find k rest = none)
    (h : Taught teach d rest between after (n + if between k = before k then 0 else 1) m)
    (hk : between k = (before k).map (teach k s)) (hj : ∀ j, k ≠ j → between j = before j) :
    Taught teach d ((k, s) :: rest) before after n m where
  shown j := by
    rw [h.shown j, Table.find]
    split
    next he =>
      subst he
      rw [hn, hk, Option.getD_none, Option.getD_some, Option.map_map]
      exact congrArg (fun f => (before k).map f) (funext fun a => hd k _)
    next he => rw [hj j he]
  counted := by
    have hlast : after k = between k := by
      rw [h.shown k, hn, Option.getD_none, funext (hd k)]
      exact Option.map_id'
    have hrest : (rest.countP fun e => after e.1 ≠ between e.1) =
        rest.countP fun e => after e.1 ≠ before e.1 := by
      refine List.countP_congr fun e he => ?_
      have hne : k ≠ e.1 := fun hke =>
        Table.find_eq_none_iff.mp hn (hke ▸ List.mem_map_of_mem he)
      rw [hj e.1 hne]
    rw [h.counted, hrest, List.countP_cons, hlast]
    by_cases hb : between k = before k
    · simp [hb]
    · simp only [hb, if_false, ne_eq, not_false_eq_true, decide_true, if_true]
      omega

theorem leave (hd : ∀ k a, teach k d a = a) (hn : Table.find k rest = none)
    (h : Taught teach d rest before after n m) (hk : before k = (before k).map (teach k s)) :
    Taught teach d ((k, s) :: rest) before after n m :=
  cons hd hn (by simpa using h) hk fun _ _ => rfl

theorem change (hd : ∀ k a, teach k d a = a) (hn : Table.find k rest = none)
    (h : Taught teach d rest between after (n + 1) m) (hk : between k = (before k).map (teach k s))
    (hne : between k ≠ before k) (hj : ∀ j, k ≠ j → between j = before j) :
    Taught teach d ((k, s) :: rest) before after n m :=
  cons hd hn (by simpa [hne] using h) hk hj

end Taught

end Taught

@[simp] theorem key_learn (c : Connection) (s : EdgeSamples) : (learn c s).key = c.key := rfl

@[simp] theorem learn_empty (c : Connection) : learn c .empty = c := rfl

def learnAt (_ : ConnectionKey) (s : EdgeSamples) (c : Connection) : Connection := learn c s

theorem asks_writeConnections (st : Store) (t : Transaction) (n : Nat)
    {entries : List (ConnectionKey × EdgeSamples)} (hd : (entries.map Prod.fst).Nodup) :
    Access.Asks st
      (fun r => r.1.transfers = t.transfers ∧
        Taught learnAt .empty entries (t.connection? st) (r.1.connection? st) n r.2)
      (writeConnections t n entries) := by
  have hempty : ∀ k c, learnAt k .empty c = c := fun _ c => learn_empty c
  induction entries generalizing t n with
  | nil => exact .pure ⟨rfl, .nil hempty⟩
  | cons e rest ih =>
    obtain ⟨k, s⟩ := e
    rw [List.map_cons, List.nodup_cons] at hd
    have hn : Table.find k rest = none := Table.find_eq_none_iff.mpr hd.1
    refine (Access.Asks.read _ _).bind fun found hf => ?_
    cases found with
    | none =>
      exact (ih t n hd.2).mono fun r hr => ⟨hr.1, hr.2.leave hempty hn (by rw [← hf]; rfl)⟩
    | some c =>
      dsimp only
      split
      next hc =>
        have hsame : t.connection? st k = (t.connection? st k).map (learnAt k s) := by
          rw [← hf, Option.map_some, learnAt, hc]
        exact (ih t n hd.2).mono fun r hr => ⟨hr.1, hr.2.leave hempty hn hsame⟩
      next hc =>
        refine (Access.Asks.read _ _).bind fun t' ht' => ?_
        have hk : (learn c s).key = k := by
          rw [key_learn]
          exact Transaction.key_of_connection? hf.symm
        subst ht'
        have hshown : (t.saveConnection (learn c s)).connection? st k = some (learn c s) := by
          rw [Transaction.connection?_saveConnection, if_pos hk]
        refine (ih _ (n + 1) hd.2).mono fun r hr => ⟨hr.1, hr.2.change hempty hn ?_ ?_ fun j hj => ?_⟩
        · rw [hshown, ← hf]
          rfl
        · rw [hshown, ← hf]
          simpa using hc
        · rw [Transaction.connection?_saveConnection, hk, if_neg hj]

def stopsAhead (t : Transaction) (st : Store) (k : TransferKey) : List Int32 :=
  ((t.connectionsFrom st k.station).filter fun c => c.line = k.toLine).map Connection.typicalStop

def correct (x : Transfer) (s : Tally) (stops : List Int32) : Transfer :=
  { x with
    typical := (s.significantMean?.map fun mean => correctedSeconds mean stops).getD x.typical }

@[simp] theorem key_correct (x : Transfer) (s : Tally) (stops : List Int32) :
    (correct x s stops).key = x.key := rfl

theorem correct_of_none {s : Tally} (h : s.significantMean? = none) (x : Transfer)
    (stops : List Int32) : correct x s stops = x := by
  rw [correct, h]
  rfl

theorem correct_of_some {s : Tally} {mean : Binary} (h : s.significantMean? = some mean)
    (x : Transfer) (stops : List Int32) :
    correct x s stops = { x with typical := correctedSeconds mean stops } := by
  rw [correct, h]
  rfl

@[simp] theorem correct_empty (x : Transfer) (stops : List Int32) : correct x .empty stops = x :=
  correct_of_none rfl x stops

def correctAt (t : Transaction) (st : Store) (k : TransferKey) (s : Tally) (x : Transfer) : Transfer :=
  correct x s (stopsAhead t st k)

theorem asks_writeTransfers (st : Store) (t : Transaction) (n : Nat)
    {entries : List (TransferKey × Tally)} (hd : (entries.map Prod.fst).Nodup) :
    Access.Asks st
      (fun r => r.1.connections = t.connections ∧
        Taught (correctAt t st) .empty entries (t.transfer? st) (r.1.transfer? st) n r.2)
      (writeTransfers t n entries) := by
  induction entries generalizing t n with
  | nil => exact .pure ⟨rfl, .nil fun _ _ => correct_empty _ _⟩
  | cons e rest ih =>
    obtain ⟨k, s⟩ := e
    rw [List.map_cons, List.nodup_cons] at hd
    have hempty : ∀ k x, correctAt t st k .empty x = x := fun _ _ => correct_empty _ _
    have hn : Table.find k rest = none := Table.find_eq_none_iff.mpr hd.1
    rw [writeTransfers]
    cases hm : s.significantMean? with
    | none =>
      have hteach : correctAt t st k s = id := funext fun x => correct_of_none hm x _
      exact (ih t n hd.2).mono fun r hr => ⟨hr.1, hr.2.leave hempty hn (by rw [hteach, Option.map_id, id])⟩
    | some mean =>
      refine (Access.Asks.read _ _).bind fun found hf => ?_
      cases found with
      | none => exact (ih t n hd.2).mono fun r hr => ⟨hr.1, hr.2.leave hempty hn (by rw [← hf]; rfl)⟩
      | some x =>
        refine (Access.Asks.read _ _).bind fun outgoing ho => ?_
        subst ho
        have hs : correctAt t st k s x =
            { x with typical := correctedSeconds mean (stopsAhead t st k) } := correct_of_some hm x _
        dsimp only
        split
        next hx =>
          have hsame : t.transfer? st k = (t.transfer? st k).map (correctAt t st k s) := by
            rw [← hf, Option.map_some, hs, stopsAhead, hx]
          exact (ih t n hd.2).mono fun r hr => ⟨hr.1, hr.2.leave hempty hn hsame⟩
        next hx =>
          refine (Access.Asks.read _ _).bind fun t' ht' => ?_
          have hk : (correctAt t st k s x).key = k := by
            rw [correctAt, key_correct]
            exact Transaction.key_of_transfer? hf.symm
          have hsave : t' = t.saveTransfer (correctAt t st k s x) := by
            rw [ht', hs]
            rfl
          subst hsave
          have hshown : (t.saveTransfer (correctAt t st k s x)).transfer? st k =
              some (correctAt t st k s x) := by
            rw [Transaction.transfer?_saveTransfer, if_pos hk]
          refine (ih _ (n + 1) hd.2).mono fun r hr => ⟨hr.1, hr.2.change hempty hn ?_ ?_ fun j hj => ?_⟩
          · rw [hshown, ← hf]
            rfl
          · rw [hshown, ← hf, hs]
            exact fun he => hx (congrArg Transfer.typical (Option.some.inj he))
          · rw [Transaction.transfer?_saveTransfer, hk, if_neg hj]

theorem stopsAhead_congr {t t' : Transaction} (h : t'.connections = t.connections) (st : Store)
    (k : TransferKey) : stopsAhead t' st k = stopsAhead t st k := by
  rw [stopsAhead, Transaction.connectionsFrom, h]
  rfl

def startedSince (trips : List Trip) (since : Stamp) : List Trip :=
  trips.filter fun t => !t.start.earlier since

/-- The log is in order, so that those trips are its end. -/
theorem tripsSince_eq (st : Store) (since : Stamp) :
    Transaction.tripsSince st since = startedSince st.trips since := by
  have ordered := st.ordered
  rw [Transaction.tripsSince]
  generalize st.trips = trips at ordered
  induction trips with
  | nil => rfl
  | cons t rest ih =>
    rw [List.pairwise_cons] at ordered
    by_cases h : t.start.earlier since = true
    · rw [List.dropWhile_cons, if_pos h, ih ordered.2]
      simp [startedSince, h]
    · have later : ∀ u ∈ t :: rest, (!u.start.earlier since) = true := by
        intro u hu
        rw [Bool.not_eq_true', ← Bool.not_eq_true]
        rcases List.mem_cons.mp hu with rfl | hu
        · exact h
        · have ht := Trip.startsNoLater_iff.mp (ordered.1 u hu)
          rw [Stamp.earlier_iff] at h ⊢
          omega
      rw [List.dropWhile_cons, if_neg h, startedSince, List.filter_eq_self.mpr later]

/-- The legs of the trips in a window, from which a batch learns. -/
def windowLegs (st : Store) (since : Stamp) : List Leg := legsOf (startedSince st.trips since)

def edgeSamples (st : Store) (legs : List Leg) (k : ConnectionKey) : EdgeSamples :=
  ⟨.ofList (transits st legs k), .ofList (stops st legs k), .ofList (waits st legs k)⟩

/-- The transaction shows what the legs teach about each edge and each transfer, and no more. -/
structure Staged (st : Store) (legs : List Leg) (t : Transaction) : Prop where
  connection : ∀ k, t.connection? st k =
    (st.connection? k).map fun c => learn c (edgeSamples st legs k)
  transfer : ∀ k, t.transfer? st k =
    (st.transfer? k).map fun x => correct x (.ofList (changes st legs k)) (stopsAhead t st k)

theorem Gathers.edge_eq {st : Store} {legs : List Leg} {b : Batch} (h : Gathers st legs .empty b)
    (k : ConnectionKey) : b.edge k = edgeSamples st legs k :=
  calc b.edge k = ⟨(b.edge k).transit, (b.edge k).stop, (b.edge k).wait⟩ := rfl
    _ = edgeSamples st legs k := by rw [h.transit, h.stop, h.wait]; rfl

theorem Gathers.change_eq {st : Store} {legs : List Leg} {b : Batch}
    (h : Gathers st legs .empty b) (k : TransferKey) : b.change k = .ofList (changes st legs k) :=
  h.change k

/-- Two lists of distinct keys that hold all keys with a property have equally many of them. -/
theorem countP_keys_eq {κ σ τ : Type} {p : κ → Bool} {l : List (κ × σ)} {l' : List (κ × τ)}
    (hl : (l.map Prod.fst).Nodup) (hl' : (l'.map Prod.fst).Nodup)
    (hp : ∀ k, p k = true → k ∈ l.map Prod.fst) (hp' : ∀ k, p k = true → k ∈ l'.map Prod.fst) :
    (l.countP fun e => p e.1) = l'.countP fun e => p e.1 := by
  have hperm : ((l.map Prod.fst).filter p).Perm ((l'.map Prod.fst).filter p) := by
    refine (List.perm_ext_iff_of_nodup (hl.filter p) (hl'.filter p)).mpr fun k => ?_
    rw [List.mem_filter, List.mem_filter]
    exact ⟨fun h => ⟨hp' k h.2, h.2⟩, fun h => ⟨hp k h.2, h.2⟩⟩
  have hlen := hperm.length_eq
  rwa [← List.countP_eq_length_filter, ← List.countP_eq_length_filter, List.countP_map,
    List.countP_map] at hlen

/-- What was changed is counted the same among the entries and among the records. -/
theorem Taught.counted_records {κ σ α : Type} [DecidableEq κ] [DecidableEq α] {teach : κ → σ → α → α}
    {d : σ} {entries : List (κ × σ)} (held : Table κ α) {after : κ → Option α} {m : Nat}
    (h : Taught teach d entries held.get? after 0 m) (hd : ∀ k a, teach k d a = a)
    (hnodup : (entries.map Prod.fst).Nodup) :
    m = held.entries.countP fun e => after e.1 ≠ some e.2 := by
  let changed (k : κ) : Bool := after k ≠ held.get? k
  have hentries : ∀ k, changed k = true → k ∈ entries.map Prod.fst := by
    intro k hk
    refine Decidable.byContradiction fun hne => of_decide_eq_true hk ?_
    rw [h.shown k, Table.find_eq_none_iff.mpr hne, Option.getD_none, funext (hd k)]
    exact Option.map_id'
  have hheld : ∀ k, changed k = true → k ∈ held.entries.map Prod.fst := by
    intro k hk
    refine Decidable.byContradiction fun hne => of_decide_eq_true hk ?_
    have hnone : held.get? k = none := Table.find_eq_none_iff.mpr hne
    rw [h.shown k, hnone]
    rfl
  have hrecords : (held.entries.countP fun e => changed e.1) =
      held.entries.countP fun e => after e.1 ≠ some e.2 := by
    refine List.countP_congr fun e he => ?_
    rw [← Table.mem_entries_iff.mp he]
  calc m = entries.countP fun e => changed e.1 := by rw [h.counted, Nat.zero_add]
    _ = held.entries.countP fun e => changed e.1 :=
        countP_keys_eq hnodup held.distinct hentries hheld
    _ = held.entries.countP fun e => after e.1 ≠ some e.2 := hrecords

/-- What a batch reports that goes through these trips and puts its findings into `t`. -/
def reported (st : Store) (trips : List Trip) (t : Transaction) : Report where
  trips := trips.length
  connectionSamples := (legsOf trips).countP (Leg.isTimed st)
  transferSamples := (legsOf trips).countP (Leg.isChange st)
  skippedSamples := (legsOf trips).countP (Leg.isSkipped st)
  connectionsUpdated := st.connections.entries.countP fun e => t.connection? st e.1 ≠ some e.2
  transfersUpdated := st.transfers.entries.countP fun e => t.transfer? st e.1 ≠ some e.2

/-- The order in which a batch visits what it has gathered for each edge, which may be any. -/
structure Visit where
  connections : List (ConnectionKey × EdgeSamples) → List (ConnectionKey × EdgeSamples)
  transfers : List (TransferKey × Tally) → List (TransferKey × Tally)
  perm_connections : ∀ l, (connections l).Perm l
  perm_transfers : ∀ l, (transfers l).Perm l

namespace Visit

/-- The order in which the edges first came. -/
def entered : Visit := ⟨id, id, fun _ => .refl _, fun _ => .refl _⟩

def reversed : Visit := ⟨List.reverse, List.reverse, List.reverse_perm, List.reverse_perm⟩

end Visit

/-- A batch that goes through its samples in an order of its own. -/
def stageIn (v : Visit) (now : Instant) (window : Span) :
    Access StoreError (Transaction × Report) := do
  let t ← Access.start
  let trips ← Access.tripsSince (.ofInstant (now.before window))
  let b ← accumulateTrips t .empty trips
  let (t, connectionsUpdated) ← writeConnections t 0 (v.connections b.connections.entries)
  let (t, transfersUpdated) ← writeTransfers t 0 (v.transfers b.transfers.entries)
  return (t, { b.report with connectionsUpdated, transfersUpdated })

theorem nodup_of_perm {κ σ : Type} {t : Table κ σ} {l : List (κ × σ)} (h : l.Perm t.entries) :
    (l.map Prod.fst).Nodup :=
  (h.map Prod.fst).nodup_iff.mpr t.distinct

theorem asks_stageIn (v : Visit) (st : Store) (now : Instant) (window : Span) :
    Access.Asks st
      (fun r => Staged st (windowLegs st (.ofInstant (now.before window))) r.1 ∧
        r.2 = reported st (startedSince st.trips (.ofInstant (now.before window))) r.1)
      (stageIn v now window) := by
  refine (Access.Asks.read _ _).bind fun t ht => ?_
  refine (Access.Asks.read _ _).bind fun trips htrips => ?_
  rw [tripsSince_eq] at htrips
  subst ht htrips
  generalize hlog : startedSince st.trips (.ofInstant (now.before window)) = trips
  have hlegs : windowLegs st (.ofInstant (now.before window)) = legsOf trips := by rw [windowLegs, hlog]
  rw [hlegs]
  refine ((asks_accumulateTrips st .empty trips).and (asks_report st .empty trips)).bind
    fun b ⟨hb, hreport⟩ => ?_
  have hc := v.perm_connections b.connections.entries
  have hx := v.perm_transfers b.transfers.entries
  refine (asks_writeConnections st .empty 0 (nodup_of_perm hc)).bind fun r hr => ?_
  obtain ⟨t, n⟩ := r
  refine (asks_writeTransfers st t 0 (nodup_of_perm hx)).bind fun r' hr' => ?_
  obtain ⟨t', m⟩ := r'
  obtain ⟨hheld, hconnections⟩ := hr
  obtain ⟨hheld', htransfers⟩ := hr'
  have hshown : t'.connection? st = t.connection? st := by
    funext k
    rw [Transaction.connection?, hheld']
    rfl
  have hbefore : t.transfer? st = st.transfer? := by
    funext k
    rw [Transaction.transfer?, hheld]
    rfl
  rw [hbefore] at htransfers
  rw [← hshown] at hconnections
  refine .pure ⟨⟨fun k => ?_, fun k => ?_⟩, ?_⟩
  · have he : (Table.find k (v.connections b.connections.entries)).getD .empty =
        edgeSamples st (legsOf trips) k := by
      rw [Table.find_perm hc (nodup_of_perm hc)]
      exact hb.edge_eq k
    rw [hconnections.shown k, he]
    rfl
  · have he : (Table.find k (v.transfers b.transfers.entries)).getD .empty =
        .ofList (changes st (legsOf trips) k) := by
      rw [Table.find_perm hx (nodup_of_perm hx)]
      exact hb.change_eq k
    rw [htransfers.shown k, he, stopsAhead_congr hheld']
    rfl
  · have hn := hconnections.counted_records st.connections (fun _ c => learn_empty c) (nodup_of_perm hc)
    have hm := htransfers.counted_records st.transfers (fun _ x => correct_empty x _) (nodup_of_perm hx)
    dsimp only at hn hm
    rw [reported, hreport, hn, hm]
    simp [Report.after, Batch.empty]

end Arrivals.Timing
