import Arrivals.Proofs.Timing.Learning

/-! The same batch a second time. Main statement: a batch that finds the trips of the one before it, and
nothing else new, gathers the same samples again and changes nothing. -/

namespace Arrivals

/-- Two stores have the same edges, whatever their durations. -/
structure Store.SameKeys (a b : Store) : Prop where
  connection : ∀ k, (a.connection? k).isSome = (b.connection? k).isSome
  transfer : ∀ k, (a.transfer? k).isSome = (b.transfer? k).isSome

theorem Store.Retimed.sameKeys {a b : Store} (h : a.Retimed b) : a.SameKeys b :=
  ⟨fun k => isSome_eq_of_rel (h.connection k), fun k => isSome_eq_of_rel (h.transfer k)⟩

namespace Timing

/-! Which samples a leg gives depends on the edges of the store only, and not on their durations. -/

section SameKeys

variable {a b : Store} (h : a.SameKeys b)

include h

theorem rides_congr (k : ConnectionKey) (l : Leg) : Leg.Rides a k l ↔ Leg.Rides b k l := by
  rw [Leg.Rides, Leg.Rides, h.connection]

theorem changes_iff (k : TransferKey) (l : Leg) : Leg.Changes a k l ↔ Leg.Changes b k l := by
  rw [Leg.Changes, Leg.Changes, h.transfer]

theorem transit?_congr : Leg.transit? a = Leg.transit? b := by
  funext k l
  exact if_congr (and_congr_left fun _ => rides_congr h k l) rfl rfl

theorem dwell?_congr (use : UseType) : Leg.dwell? use a = Leg.dwell? use b := by
  funext k l
  exact if_congr (and_congr_left fun _ => rides_congr h k l) rfl rfl

theorem change?_congr : Leg.change? a = Leg.change? b := by
  funext k l
  exact if_congr (and_congr_left fun _ => changes_iff h k l) rfl rfl

theorem edgeSamples_congr : edgeSamples a = edgeSamples b := by
  funext legs k
  simp only [edgeSamples, transits, stops, waits, transit?_congr h, dwell?_congr h]

theorem changes_congr : changes a = changes b := by
  funext legs k
  simp only [changes, change?_congr h]

theorem isTimed_congr : Leg.isTimed a = Leg.isTimed b := by
  funext l
  simp only [Leg.isTimed, transit?_congr h]

theorem isChange_congr : Leg.isChange a = Leg.isChange b := by
  funext l
  simp only [Leg.isChange, change?_congr h]

theorem isSkipped_congr : Leg.isSkipped a = Leg.isSkipped b := by
  funext l
  have hconnection : (a.connection? l.connectionKey).isNone = (b.connection? l.connectionKey).isNone := by
    rw [← Option.not_isSome, h.connection, Option.not_isSome]
  have htransfer : (l.transferKey?.bind a.transfer?).isNone = (l.transferKey?.bind b.transfer?).isNone := by
    cases l.transferKey? with
    | none => rfl
    | some k => rw [Option.bind_some, Option.bind_some, ← Option.not_isSome, h.transfer, Option.not_isSome]
  rw [Leg.isSkipped, Leg.isSkipped, hconnection, htransfer]

end SameKeys

theorem getD_getD (x : Option α) (d : α) : x.getD (x.getD d) = x.getD d := by
  cases x <;> rfl

theorem learn_learn (c : Connection) (s : EdgeSamples) : learn (learn c s) s = learn c s := by
  simp only [learn, getD_getD]

theorem correct_correct (x : Transfer) (s : Tally) (stops : List Int32) :
    correct (correct x s stops) s stops = correct x s stops := by
  simp only [correct, getD_getD]

theorem stopsAhead_of_shown {t : Transaction} {st : Store}
    (h : ∀ k, t.connection? st k = st.connection? k) (k : TransferKey) :
    stopsAhead t st k = st.stopsAhead k := by
  rw [stopsAhead, Transaction.connectionsFrom_of_shown h, List.filter_filter, Store.stopsAhead]
  simp only [Bool.and_comm]

namespace Staged

variable {st : Store} {legs : List Leg} {t again : Transaction}

theorem connection_again (h : Staged st legs t) (h' : Staged (t.commit st) legs again)
    (k : ConnectionKey) : again.connection? (t.commit st) k = (t.commit st).connection? k := by
  rw [h'.connection, ← edgeSamples_congr h.retimed.sameKeys, Transaction.connection?_commit,
    h.connection, Option.map_map]
  exact congrArg (fun f => (st.connection? k).map f) (funext fun c => learn_learn c _)

theorem transfer_again (h : Staged st legs t) (h' : Staged (t.commit st) legs again)
    (k : TransferKey) : again.transfer? (t.commit st) k = (t.commit st).transfer? k := by
  have hstops : stopsAhead again (t.commit st) k = stopsAhead t st k :=
    (stopsAhead_of_shown (h.connection_again h') k).trans (h.stopsAhead_commit k)
  rw [h'.transfer, hstops, ← changes_congr h.retimed.sameKeys, Transaction.transfer?_commit,
    h.transfer, Option.map_map]
  exact congrArg (fun f => (st.transfer? k).map f) (funext fun x => correct_correct x _ _)

theorem commit_again (h : Staged st legs t) (h' : Staged (t.commit st) legs again) :
    again.commit (t.commit st) = t.commit st :=
  Transaction.commit_eq_self (h.connection_again h') (h.transfer_again h')

/-- The second batch counts the same samples and finds nothing to change. -/
theorem reported_again (h : Staged st legs t) (h' : Staged (t.commit st) legs again)
    (trips : List Trip) : reported (t.commit st) trips again =
      { reported st trips t with connectionsUpdated := 0, transfersUpdated := 0 } := by
  have hkeys : st.SameKeys (t.commit st) := h.retimed.sameKeys
  have hconnections : ((t.commit st).connections.entries.countP fun e =>
      again.connection? (t.commit st) e.1 ≠ some e.2) = 0 := by
    refine List.countP_eq_zero.mpr fun e he => ?_
    have hstored : (t.commit st).connection? e.1 = some e.2 := Table.mem_entries_iff.mp he
    simpa using (h.connection_again h' e.1).trans hstored
  have htransfers : ((t.commit st).transfers.entries.countP fun e =>
      again.transfer? (t.commit st) e.1 ≠ some e.2) = 0 := by
    refine List.countP_eq_zero.mpr fun e he => ?_
    have hstored : (t.commit st).transfer? e.1 = some e.2 := Table.mem_entries_iff.mp he
    simpa using (h.transfer_again h' e.1).trans hstored
  rw [reported, hconnections, htransfers, ← isTimed_congr hkeys, ← isChange_congr hkeys,
    ← isSkipped_congr hkeys, reported]

end Staged

/-- A batch that comes right after another one, with the same clock, window and trips, updates nothing,
counts the same trips and samples, and leaves the store as the first one left it, in whatever orders the
two visit their samples. -/
theorem run_again (s : Source) (v w : Visit) (now : Instant) (window : Span) (hs : s.Steady) :
    ∃ report s₁ s₂, s.run (runIn v now window) = (.ok report, s₁) ∧
      s₁.run (runIn w now window) =
        (.ok { report with connectionsUpdated := 0, transfersUpdated := 0 }, s₂) ∧
      s₂.store = s₁.store := by
  obtain ⟨hf, _⟩ | ⟨t, n, hn, ht, he⟩ := runIn_cases v s now window
  · exact absurd hs hf
  set s₁ : Source := { s with store := t.commit s.store, calls := n }
  have hs₁ : s₁.Steady := fun m call hm => hs m call (hn.trans hm)
  obtain ⟨hf, _⟩ | ⟨again, m, _, hagain, he'⟩ := runIn_cases w s₁ now window
  · exact absurd hs₁ hf
  refine ⟨_, s₁, { s₁ with store := again.commit s₁.store, calls := m }, he, ?_,
    ht.commit_again hagain⟩
  rw [he', ← ht.reported_again hagain]
  rfl

/-- Rides from `b` to `c` on line `m`, the first with a stop at `b`, the second after a change there. -/
def throughTrip : Trip :=
  ⟨"through", ⟨0, 0⟩, [⟨"b", ⟨0, 0⟩, ⟨30, 0⟩, .goneThrough, false, none, none⟩,
    ⟨"c", ⟨90, 0⟩, ⟨90, 0⟩, .visit, false, none, none⟩]⟩

def changeTrip : Trip :=
  ⟨"change", ⟨0, 0⟩, [⟨"a", ⟨0, 0⟩, ⟨0, 0⟩, .networkEntry, false, none, none⟩,
    ⟨"b", ⟨100, 0⟩, ⟨240, 0⟩, .interchange, false, some "l", some "m"⟩,
    ⟨"c", ⟨300, 0⟩, ⟨300, 0⟩, .visit, false, none, none⟩]⟩

def changeStore : Store :=
  { (default : Store).saveConnection ⟨"b", "c", "m", 60, 10, 0⟩ with
    transfers := .ofList [(⟨"b", "l", "m"⟩, ⟨"b", "l", "m", 50⟩)]
    filedTransfers := (Table.filedBy_empty Transfer.key).insert ⟨"b", "l", "m", 50⟩
    trips := [throughTrip, throughTrip, changeTrip, changeTrip]
    ordered := by decide }

theorem run_again_change : ∃ report s₁ s₂,
    (Source.ofStore changeStore).run (runIn .entered ⟨0⟩ ⟨5⟩) = (.ok report, s₁) ∧
      report = ⟨4, 4, 2, 0, 1, 1⟩ ∧
      s₁.run (runIn .reversed ⟨0⟩ ⟨5⟩) = (.ok ⟨4, 4, 2, 0, 0, 0⟩, s₂) ∧ s₂.store = s₁.store := by
  obtain ⟨report, s₁, s₂, he, he', hstore⟩ :=
    run_again (.ofStore changeStore) .entered .reversed ⟨0⟩ ⟨5⟩ fun _ _ _ => rfl
  have hfirst : ((Source.ofStore changeStore).run (runIn .entered ⟨0⟩ ⟨5⟩)).1.toOption =
      some ⟨4, 4, 2, 0, 1, 1⟩ := by decide +kernel
  rw [he] at hfirst
  obtain rfl := Option.some.inj hfirst
  exact ⟨_, s₁, s₂, he, rfl, he', hstore⟩

end Timing

end Arrivals
