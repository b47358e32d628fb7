import Arrivals.Proofs.Prediction.Views
import Mathlib.Data.List.Nodup

/-! Queries between which, and in the midst of which, commits may land. Main statement: no query takes an
edge away, and where a vehicle has been predicted the store has the edge into the station from then on,
though the prediction need not go by its cost. -/

namespace Arrivals

def Store.Has (st : Store) (k : ConnectionKey) : Prop := (st.connection? k).isSome = true

theorem Store.Has.saveConnection {st : Store} {k : ConnectionKey} (h : st.Has k) (c : Connection) :
    (st.saveConnection c).Has k := by
  rw [Has, connection?_saveConnection]
  split
  · rfl
  · exact h

theorem Store.Has.commit {st : Store} {k : ConnectionKey} (h : st.Has k) (t : Transaction) :
    (t.commit st).Has k := by
  rw [Has, Transaction.connection?_commit, Transaction.connection?, Option.isSome_or, h, Bool.or_true]

namespace Source

variable {s s' s'' : Source}

/-- Only edges of the store are remembered, though the cost may be an old one. -/
def Filled (s : Source) : Prop := ∀ k, (s.memo.get? k).isSome = true → s.store.Has k

/-- The lines stay, no edge goes, and nothing begins to fail. -/
structure Grows (s s' : Source) : Prop where
  lines : s'.store.lines = s.store.lines
  edges : ∀ k, s.store.Has k → s'.store.Has k
  filled : s.Filled → s'.Filled
  steady : s.Steady → s'.Steady

theorem Grows.refl (s : Source) : s.Grows s := ⟨rfl, fun _ h => h, fun h => h, fun h => h⟩

theorem Grows.trans (h : s.Grows s') (h' : s'.Grows s'') : s.Grows s'' where
  lines := h'.lines.trans h.lines
  edges k hk := h'.edges k (h.edges k hk)
  filled hs := h'.filled (h.filled hs)
  steady hs := h'.steady (h.steady hs)

theorem grows_call (s : Source) : s.Grows { s with calls := s.calls + 1 } where
  lines := rfl
  edges _ h := h
  filled h := h
  steady h := h.later (Nat.le_succ _)

theorem grows_clearMemo (s : Source) : s.Grows s.clearMemo where
  lines := rfl
  edges _ h := h
  filled _ _ h := by cases h
  steady h := h

theorem grows_commit (s : Source) (t : Transaction) :
    s.Grows { s with store := t.commit s.store } where
  lines := rfl
  edges _ h := h.commit t
  filled h k hk := (h k hk).commit t
  steady h := h

theorem grows_overtake (s : Source) : s.Grows s.overtake := by
  rw [overtake]
  split
  next => exact .refl s
  next c _ => exact ⟨rfl, fun _ h => h.saveConnection c, fun _ _ h => (by cases h), fun h => h⟩

theorem grows_remember (s : Source) (generation : Nat) {k : ConnectionKey} (seconds : Int)
    (hk : s.store.Has k) :
    s.Grows { s with memo := s.memo.remember generation k seconds } where
  lines := rfl
  edges _ h := h
  filled h j hj := by
    obtain ⟨v, hv⟩ := Option.isSome_iff_exists.mp hj
    rcases Memo.get?_remember hv with hv | ⟨-, rfl, -⟩
    · exact h j (Option.isSome_iff_exists.mpr ⟨v, hv⟩)
    · exact hk
  steady h := h

theorem run_bind_eq_ok {ε α β : Type} {x : Access ε α} {f : α → Access ε β} {b : β}
    (h : s.run (x >>= f) = (.ok b, s'')) :
    ∃ a s', s.run x = (.ok a, s') ∧ s'.run (f a) = (.ok b, s'') := by
  rw [run_bind] at h
  generalize s.run x = r at h ⊢
  obtain ⟨_ | a, s'⟩ := r
  · cases h
  · exact ⟨a, s', rfl, h⟩

theorem run_storeCall_eq_ok {α : Type} {x : Access StoreError α} {a : α}
    (h : s.run (Prediction.storeCall x) = (.ok a, s')) : s.run x = (.ok a, s') := by
  rw [Access.Makes.run_storeCall] at h
  generalize s.run x = r at h ⊢
  obtain ⟨_ | b, t⟩ := r
  · cases h
  · cases h
    rfl

end Source

namespace Access

variable {ε α β : Type}

/-- From whatever source it is run, `x` leaves one that has grown. -/
def Grows (x : Access ε α) : Prop := ∀ s : Source, s.Grows (s.run x).2

namespace Grows

variable {x : Access ε α}

theorem pure (a : α) : Grows (pure a : Access ε α) := fun s => .refl s

theorem throw (e : ε) : Grows (throw e : Access ε α) := fun s => .refl s

theorem bind {f : α → Access ε β} (hx : Grows x) (hf : ∀ a, Grows (f a)) : Grows (x >>= f) := by
  intro s
  have h := hx s
  rw [Source.run_bind]
  generalize s.run x = r at h ⊢
  obtain ⟨_ | a, s'⟩ := r
  · exact h
  · exact h.trans (hf a s')

theorem read (call : Call) (f : Store → α) : Grows (Access.read call f) := fun s => by
  rw [Source.run_read]
  exact s.grows_call

theorem storeCall {x : Access StoreError α} (hx : Grows x) : Grows (Prediction.storeCall x) :=
  hx

theorem of_run {x : Access ε α} {s s' : Source} {r : Except ε α} (hx : Grows x)
    (h : s.run x = (r, s')) : s.Grows s' := by
  have hs := hx s
  rw [h] at hs
  exact hs

end Grows

section TravelSeconds

variable (s : Source) (k : ConnectionKey)

/-- Whatever is about to land does so once a connection has been read. -/
theorem run_connection?_eq :
    s.run (connection? k) = (s.answer .connection (s.store.connection? k),
      match s.answer .connection (s.store.connection? k) with
      | .ok _ => Source.overtake { s with calls := s.calls + 1 }
      | .error _ => { s with calls := s.calls + 1 }) := by
  rw [connection?, Source.run_bind, Source.run_read]
  cases s.answer .connection (s.store.connection? k) <;> rfl

theorem grows_connection? : Grows (connection? k) := fun s => by
  rw [run_connection?_eq]
  dsimp only
  split
  · exact s.grows_call.trans (Source.grows_overtake _)
  · exact s.grows_call

/-- A cost is either remembered or that of an edge of the store, and then the edge is there. -/
theorem run_travelSeconds_grows :
    s.Grows (s.run (travelSeconds k)).2 ∧
      (s.Filled → ∀ v, (s.run (travelSeconds k)).1 = .ok (some v) →
        (s.run (travelSeconds k)).2.store.Has k) ∧
      (s.Steady → s.store.Has k → ∃ v, (s.run (travelSeconds k)).1 = .ok (some v)) := by
  have hget : s.run (getThe Source : Access StoreError Source) = (.ok s, s) := rfl
  rw [travelSeconds_eq, Source.run_bind_of_ok _ hget, travelSecondsFrom]
  cases hmemo : s.memo.get? k with
  | some seconds =>
    exact ⟨.refl s, fun hs _ _ => hs k (by rw [hmemo]; rfl), fun _ _ => ⟨seconds, rfl⟩⟩
  | none =>
    have hgrows := grows_connection? k s
    dsimp only
    rw [Source.run_bind]
    rw [run_connection?_eq] at hgrows ⊢
    cases hanswer : s.answer .connection (s.store.connection? k) with
    | error e =>
      rw [hanswer] at hgrows
      refine ⟨hgrows, fun _ _ h => (by cases h), fun hsteady _ => ?_⟩
      rw [hsteady.answer] at hanswer
      cases hanswer
    | ok found =>
      rw [hanswer] at hgrows
      have hfound : s.store.connection? k = found := by
        rw [Source.answer] at hanswer
        split at hanswer
        · cases hanswer
        · exact Except.ok.inj hanswer
      cases found with
      | none =>
        refine ⟨hgrows, fun _ _ h => (by cases h), fun _ hhas => ?_⟩
        rw [Store.Has, hfound] at hhas
        cases hhas
      | some c =>
        have hhas : s.store.Has k := by rw [Store.Has, hfound]; rfl
        have hlater := hgrows.edges k hhas
        exact ⟨hgrows.trans (Source.grows_remember _ _ _ hlater), fun _ _ _ => hlater,
          fun _ _ => ⟨_, rfl⟩⟩

theorem grows_travelSeconds : Grows (travelSeconds k) := fun s => (run_travelSeconds_grows s k).1

end TravelSeconds

end Access

theorem Atlas.grows_live :
    live.Related live (fun _ x _ => Access.Grows x) (fun _ x _ => Access.Grows x) where
  line? _ := (Access.Grows.read _ _).storeCall
  linesServing _ := (Access.Grows.read _ _).storeCall
  cost? k := (Access.grows_travelSeconds k).storeCall
  pure := .pure
  throw e _ := .throw e
  bind := .bind
  first := .bind

theorem grows_predict (presence : Presence) (now : Instant) (station direction : StationId) :
    Access.Grows (predict presence now station direction) :=
  Atlas.grows_live.predictWith presence now station direction

theorem Arrival.grows_project (a : Arrival) (now : Instant) : Access.Grows (a.project now) :=
  Atlas.grows_live.projectWith a now

/-- The stop that vehicles of a heading make before this one. -/
def Line.previous? (l : Line) (i : Nat) (h : Heading) : Option Stop :=
  (l.next? i h.reversed).bind fun j => l.stops[j]?

theorem Line.stopsBack_eq_cons {l : Line} {s : StationId} {i : Nat} (hi : l.position? s = some i)
    (h : Heading) : ∃ rest, l.stopsBack i h = ⟨i, s⟩ :: rest ∧ rest.head? = l.previous? i h := by
  rw [position?, List.findIdx?_eq_some_iff_getElem] at hi
  obtain ⟨hlt, hs, -⟩ := hi
  have hlt' : i < l.stops.length := by simpa [stops] using hlt
  have hstop : l.stops[i] = ⟨i, s⟩ := by simpa [stops] using hs
  cases h with
  | up =>
    refine ⟨(l.stops.take i).reverse, ?_, ?_⟩
    · rw [stopsBack, List.take_succ_eq_append_getElem hlt', hstop, List.reverse_append]
      rfl
    · rw [List.head?_reverse, previous?, Heading.reversed, next?]
      cases i with
      | zero => rfl
      | succ i =>
        rw [if_pos ⟨Nat.succ_pos i, hlt⟩, List.getLast?_take]
        simp [List.getElem?_eq_getElem (Nat.lt_of_succ_lt hlt')]
  | down =>
    refine ⟨l.stops.drop (i + 1), ?_, ?_⟩
    · rw [stopsBack, List.drop_eq_getElem_cons hlt', hstop]
    · rw [List.head?_drop, previous?, Heading.reversed, next?]
      split
      · rfl
      · rw [List.getElem?_eq_none (by simp [stops]; omega)]
        rfl

namespace Prediction

variable {s s' : Source} {presence : Presence} {now : Instant} {station direction : StationId}

theorem has_of_edgeSeconds {a b : Stop} {seconds : Int} (hs : s.Filled)
    (h : s.run (edgeSeconds .live a b) = (.ok seconds, s')) :
    s'.store.Has ⟨a.station, b.station⟩ := by
  obtain ⟨found, t, hcost, h⟩ := Source.run_bind_eq_ok h
  cases found with
  | none => cases h
  | some v =>
    cases h
    have hhas := (Access.run_travelSeconds_grows s ⟨a.station, b.station⟩).2.1 hs seconds
    rw [Source.run_storeCall_eq_ok hcost] at hhas
    exact hhas rfl

theorem running_offer?_start (o : Option Candidate) : (Search.start.offer? o).running = true := by
  cases o with
  | none => rfl
  | some c =>
    change (Search.start.offer c).running = true
    rw [Search.offer]
    split <;> rfl

/-- The first stop ends no scan, so the edge that leads to it has been read. -/
theorem has_of_scan {observe : Stop → Int → Option Candidate} {path : Int} {a b : Stop}
    {rest : List Stop} {out : Search} (hs : s.Filled)
    (h : s.run (scan .live observe path .start (a :: b :: rest)) = (.ok out, s')) :
    s'.store.Has ⟨b.station, a.station⟩ := by
  rw [scan] at h
  rw [if_pos (running_offer?_start _)] at h
  obtain ⟨edge, t, hedge, h⟩ := Source.run_bind_eq_ok h
  have hgrows := Access.Grows.of_run (Atlas.grows_live.scan _ _ _ _) h
  exact hgrows.edges _ (has_of_edgeSeconds hs hedge)

theorem has_of_scanApproaching {line : Line} {heading : Heading} {target : Nat} {stop : Stop}
    {found : Option Candidate} (hs : s.Filled) (htarget : line.position? station = some target)
    (hstop : line.previous? target heading = some stop)
    (h : s.run (scanApproaching .live presence now line heading target direction) =
      (.ok found, s')) : s'.store.Has ⟨stop.station, station⟩ := by
  obtain ⟨out, t, hscan, h⟩ := Source.run_bind_eq_ok h
  cases h
  obtain ⟨rest, hback, hhead⟩ := line.stopsBack_eq_cons htarget heading
  rw [hstop, List.head?_eq_some_iff] at hhead
  obtain ⟨rest', rfl⟩ := hhead
  rw [hback] at hscan
  exact has_of_scan hs hscan

theorem resolve_live_eq_ok {line : Line} {heading : Heading}
    (h : s.run (resolve .live station direction) = (.ok (line, heading), s')) :
    line ∈ s.store.lines ∧ line.headingTowards? direction = some heading := by
  obtain ⟨lines, t, hlines, h⟩ := Source.run_bind_eq_ok h
  have hread := Source.run_storeCall_eq_ok hlines
  rw [Access.linesServing, Source.run_read, Source.answer] at hread
  split at hread
  · cases hread
  · cases hread
    dsimp only at h
    split at h
    · cases h
    · split at h
      next found hfound =>
        cases h
        obtain ⟨l, hl, hsome⟩ := List.exists_of_findSome?_eq_some hfound
        obtain ⟨heading', hheading, he⟩ := Option.map_eq_some_iff.mp hsome
        cases he
        obtain ⟨l', hl', hserves⟩ := List.mem_flatMap.mp hl
        obtain ⟨-, -, rfl⟩ := List.mem_map.mp hserves
        exact ⟨hl', hheading⟩
      next => cases h

/-- The line of a prediction leads to its station, by an edge that the store has if the station is not
where the line begins. -/
structure Entered (st : Store) (station direction : StationId) (p : Prediction) : Prop where
  asked : p.station = station ∧ p.direction = direction
  line : p.line ∈ st.lines
  entry : ∃ heading target, p.line.headingTowards? direction = some heading ∧
    p.line.position? station = some target ∧
      ∀ stop, p.line.previous? target heading = some stop → st.Has ⟨stop.station, station⟩

theorem entered_of_predict {p : Prediction} (hs : s.Filled)
    (h : s.run (predict presence now station direction) = (.ok p, s')) :
    p.Entered s'.store station direction := by
  obtain ⟨⟨line, heading⟩, s₁, hresolve, h⟩ := Source.run_bind_eq_ok h
  obtain ⟨hline, hheading⟩ := resolve_live_eq_ok hresolve
  have hfirst := Access.Grows.of_run (Atlas.grows_live.resolve station direction) hresolve
  dsimp only at h
  split at h
  next => cases h
  next target htarget =>
    obtain ⟨found, s₂, hfound, h⟩ := Source.run_bind_eq_ok h
    have hsecond := Access.Grows.of_run (Atlas.grows_live.scanApproaching _ _ _ _ _ _) hfound
    -- Wherever the vehicle is then found, the way to the station has been looked at by now.
    have hentry (stop : Stop) (hstop : line.previous? target heading = some stop) :
        s₂.store.Has ⟨stop.station, station⟩ :=
      has_of_scanApproaching (hfirst.filled hs) htarget hstop hfound
    have hmem : line ∈ s₂.store.lines := by rwa [hsecond.lines, hfirst.lines]
    cases found with
    | some c =>
      cases h
      exact ⟨⟨rfl, rfl⟩, hmem, heading, target, hheading, htarget, hentry⟩
    | none =>
      dsimp only at h
      split at h
      next => cases h
      next opposite _ =>
        obtain ⟨found, s₃, hfound, h⟩ := Source.run_bind_eq_ok h
        have hthird := Access.Grows.of_run (Atlas.grows_live.scanReversing _ _ _ _ _ _) hfound
        cases found with
        | none => cases h
        | some c =>
          cases h
          exact ⟨⟨rfl, rfl⟩, hthird.lines ▸ hmem, heading, target, hheading, htarget,
            fun stop hstop => hthird.edges _ (hentry stop hstop)⟩

end Prediction

end Arrivals
