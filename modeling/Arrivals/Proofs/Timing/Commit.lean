import Arrivals.Proofs.Timing.Staging

/-! What a batch does to the store, whichever calls fail. Main statement: it fails and the store is
as before, or it succeeds and only durations of edges that were there have changed. -/

namespace Arrivals

theorem Source.run_commit (s : Source) (t : Transaction) :
    s.run (Access.commit t) =
      match s.outage s.calls .commit with
      | some e => (.error e, { s with calls := s.calls + 1 })
      | none => (.ok ⟨⟩, { s with store := t.commit s.store, calls := s.calls + 1 }) := by
  rw [Access.commit, run_bind, run_ask, answer]
  cases s.outage s.calls .commit <;> rfl

section Rel

variable {α β : Type} {r : α → β → Prop} {x : Option α} {y : Option β}

theorem rel_map {f : α → β} (h : ∀ a, r a (f a)) (o : Option α) : Option.Rel r o (o.map f) := by
  cases o with
  | none => exact .none
  | some a => exact .some (h a)

theorem rel_refl {r : α → α → Prop} (h : ∀ a, r a a) (o : Option α) : Option.Rel r o o := by
  cases o with
  | none => exact .none
  | some a => exact .some (h a)

theorem rel_trans {r : α → α → Prop} (h : ∀ a b c, r a b → r b c → r a c) {x y z : Option α}
    (hxy : Option.Rel r x y) (hyz : Option.Rel r y z) : Option.Rel r x z := by
  cases hxy with
  | none => exact hyz
  | some hab =>
    cases hyz with
    | some hbc => exact .some (h _ _ _ hab hbc)

theorem isSome_eq_of_rel (h : Option.Rel r x y) : x.isSome = y.isSome := by
  cases h <;> rfl

theorem exists_of_rel {b : β} (h : Option.Rel r x y) (hy : y = some b) : ∃ a, x = some a ∧ r a b := by
  subst hy
  cases h with
  | some hr => exact ⟨_, rfl, hr⟩

end Rel

def Connection.Retimed (c d : Connection) : Prop :=
  d = { c with typical := d.typical, typicalStop := d.typicalStop, typicalWait := d.typicalWait }

def Transfer.Retimed (x y : Transfer) : Prop := y = { x with typical := y.typical }

/-- Two stores differ in nothing but durations. -/
structure Store.Retimed (a b : Store) : Prop where
  stations : b.stations = a.stations
  lines : b.lines = a.lines
  trips : b.trips = a.trips
  credentials : b.credentials = a.credentials
  connectionKeys : b.connections.keys = a.connections.keys
  transferKeys : b.transfers.keys = a.transfers.keys
  connection : ∀ k, Option.Rel Connection.Retimed (a.connection? k) (b.connection? k)
  transfer : ∀ k, Option.Rel Transfer.Retimed (a.transfer? k) (b.transfer? k)

namespace Timing

/-- A whole batch that visits its samples in an order of its own. -/
def runIn (v : Visit) (now : Instant) (window : Span) : Access StoreError Report := do
  let (t, report) ← stageIn v now window
  Access.commit t
  return report

theorem runIn_entered (now : Instant) (window : Span) :
    runIn .entered now window = run now window := rfl

/-- A batch fails, and only if a call fails, or commits what it staged and reports that. -/
theorem runIn_cases (v : Visit) (s : Source) (now : Instant) (window : Span) :
    (¬ s.Steady ∧ ∃ e n, s.run (runIn v now window) = (.error e, { s with calls := n })) ∨
      ∃ t n, s.calls ≤ n ∧ Staged s.store (windowLegs s.store (.ofInstant (now.before window))) t ∧
        s.run (runIn v now window) =
          (.ok (reported s.store (startedSince s.store.trips (.ofInstant (now.before window))) t),
            { s with store := t.commit s.store, calls := n }) := by
  obtain ⟨n, hn, ⟨⟨t, report⟩, ⟨ht, hreport⟩, he⟩ | ⟨hs, e, he⟩⟩ :=
    asks_stageIn v s.store now window s rfl
  · have hc := Source.run_commit { s with calls := n } t
    rw [runIn, Source.run_bind_of_ok _ he, Source.run_bind, hc]
    cases ho : s.outage n .commit with
    | none => exact .inr ⟨t, n + 1, by omega, ht, by rw [← hreport]; rfl⟩
    | some e =>
      refine .inl ⟨fun h => ?_, e, n + 1, rfl⟩
      rw [h n .commit hn] at ho
      cases ho
  · exact .inl ⟨hs, e, n, Source.run_bind_of_error _ he⟩

theorem run_cases (s : Source) (now : Instant) (window : Span) :
    (¬ s.Steady ∧ ∃ e n, s.run (run now window) = (.error e, { s with calls := n })) ∨
      ∃ t report n, Staged s.store (windowLegs s.store (.ofInstant (now.before window))) t ∧
        s.run (run now window) = (.ok report, { s with store := t.commit s.store, calls := n }) := by
  rw [← runIn_entered]
  obtain hf | ⟨t, n, _, ht, he⟩ := runIn_cases .entered s now window
  · exact .inl hf
  · exact .inr ⟨t, _, n, ht, he⟩

theorem retimed_learn (c : Connection) (s : EdgeSamples) : c.Retimed (learn c s) := rfl

theorem retimed_correct (x : Transfer) (s : Tally) (stops : List Int32) :
    x.Retimed (correct x s stops) := rfl

/-- Nothing is staged that the store does not have, if every value that shows is a value of the
store made anew. -/
theorem mem_keys_of_shown {κ α : Type} [DecidableEq κ] {staged held : Table κ α} {f : κ → α → α}
    (h : ∀ k, (staged.get? k).or (held.get? k) = (held.get? k).map (f k)) :
    ∀ e ∈ staged.entries, e.1 ∈ held.keys := by
  intro e he
  have hk : e.1 ∈ staged.keys := List.mem_map_of_mem he
  rw [Table.mem_keys_iff, Table.contains, Option.isSome_iff_exists] at hk ⊢
  obtain ⟨a, ha⟩ := hk
  have hv := h e.1
  rw [ha, Option.some_or] at hv
  obtain ⟨b, hb, _⟩ := Option.map_eq_some_iff.mp hv.symm
  exact ⟨b, hb⟩

namespace Staged

variable {st : Store} {legs : List Leg} {t : Transaction}

theorem retimed (h : Staged st legs t) : st.Retimed (t.commit st) where
  stations := rfl
  lines := rfl
  trips := rfl
  credentials := rfl
  connectionKeys := Table.keys_insertAll _ t.connections.distinct (mem_keys_of_shown h.connection)
  transferKeys := Table.keys_insertAll _ t.transfers.distinct (mem_keys_of_shown h.transfer)
  connection k := by
    rw [Transaction.connection?_commit, h.connection]
    exact rel_map (fun c => retimed_learn c _) _
  transfer k := by
    rw [Transaction.transfer?_commit, h.transfer]
    exact rel_map (fun x => retimed_correct x _ _) _

end Staged

/-- Whichever calls fail, a failed batch leaves the store as it was, and one that succeeds changes
nothing but the durations of edges that were there. -/
theorem run_retimes_or_leaves (s : Source) (now : Instant) (window : Span) :
    match s.run (run now window) with
    | (.error _, s') => s'.store = s.store
    | (.ok _, s') => s.store.Retimed s'.store := by
  obtain ⟨_, e, n, he⟩ | ⟨t, report, n, ht, he⟩ := run_cases s now window
  · rw [he]
  · rw [he]
    exact ht.retimed

end Timing

end Arrivals
