import Arrivals.Proofs.Network.Mirror
import Arrivals.Proofs.Prediction.Growth
import Arrivals.Proofs.Prediction.Located

/-! Queries on lines read from their other end. Main statement: where no line stops twice at a station,
mirroring all lines changes nothing about predictions but where along the line a vehicle was seen, which
is counted from the other end, and nothing about positions, whichever calls fail. -/

namespace Arrivals

def Candidate.mirrored (l : Line) (c : Candidate) : Candidate := { c with stop := c.stop.mirrored l }

def Search.mirrored (l : Line) (s : Search) : Search :=
  { s with best := s.best.map (Candidate.mirrored l) }

/-- Only the line, and the place of the vehicle along it, are another one. -/
def Prediction.mirrored (p : Prediction) : Prediction :=
  { p with line := p.line.mirrored, located := p.located.mirrored p.line }

def Source.mirrored (s : Source) : Source := { s with store := s.store.mirrored }

namespace Search

variable {m : Type → Type} [Monad m] [LawfulMonad m]

@[simp] theorem running_mirrored (l : Line) (s : Search) : (s.mirrored l).running = s.running := rfl

theorem offer_mirrored (l : Line) (s : Search) (c : Candidate) :
    (s.mirrored l).offer (c.mirrored l) = (s.offer c).mirrored l := by
  -- No deviation depends on which end a stop is counted from, so both offers come out alike.
  have hdeviation (d : Candidate) : (d.mirrored l).deviation = d.deviation := rfl
  obtain ⟨best, running⟩ := s
  rw [offer, offer, hdeviation]
  split
  · rfl
  · cases best with
    | none => rfl
    | some b =>
      simp only [mirrored, Option.map_some, hdeviation]
      split
      · rfl
      · split <;> rfl

theorem offer?_mirrored (l : Line) (s : Search) (o : Option Candidate) :
    (s.mirrored l).offer? (o.map (Candidate.mirrored l)) = (s.offer? o).mirrored l := by
  cases o with
  | none => rfl
  | some c => exact s.offer_mirrored l c

theorem best_mirrored (l : Line) (x : m Search) :
    (do let search ← mirrored l <$> x; return search.best) =
      Option.map (Candidate.mirrored l) <$> (do let search ← x; return search.best) := by
  simp [mirrored]

end Search

theorem Line.previous?_mirrored {l : Line} {i : Nat} (hi : i < l.stations.length) (h : Heading) :
    l.mirrored.previous? (l.opposite i) h.reversed = (l.previous? i h).map (Stop.mirrored l) := by
  rw [previous?, previous?, Heading.reversed_reversed, next?_mirrored hi]
  cases hj : l.next? i h.reversed with
  | none => rfl
  | some j => exact getElem?_stops_mirrored (next?_lt hj)

namespace Prediction

section Scans

variable {m : Type → Type} [Monad m] [MonadExcept PredictionError m] {atlas : Atlas m}
  {presence : Presence} {now : Instant} {direction : StationId} {l : Line} {t : Nat}

theorem observe_mirrored (l : Line) (stop : Stop) (path : Int) :
    observe presence direction now (stop.mirrored l) path =
      (observe presence direction now stop path).map (Candidate.mirrored l) := by
  rw [observe, observe, Option.map_map]
  rfl

theorem pathTime_mirrored (l : Line) (stops : List Stop) :
    pathTime atlas (stops.map (Stop.mirrored l)) = pathTime atlas stops := by
  induction stops with
  | nil => rfl
  | cons a rest ih =>
    cases rest with
    | nil => rfl
    | cons b rest =>
      refine bind_congr fun first => ?_
      rw [ih]

variable [LawfulMonad m]

theorem scan_mirrored (l : Line) (path : Int) (search : Search) (stops : List Stop) :
    scan atlas (observe presence direction now) path (search.mirrored l)
        (stops.map (Stop.mirrored l)) =
      Search.mirrored l <$> scan atlas (observe presence direction now) path search stops := by
  induction stops generalizing path search with
  | nil => exact (map_pure _ _).symm
  | cons a rest ih =>
    cases rest with
    | nil =>
      rw [List.map_cons, List.map_nil, scan, scan, observe_mirrored, Search.offer?_mirrored, map_pure]
    | cons b rest =>
      rw [List.map_cons, List.map_cons, scan, scan, observe_mirrored, Search.offer?_mirrored,
        ← List.map_cons, Search.running_mirrored]
      split
      · rw [map_bind]
        exact bind_congr fun edge => ih _ _
      · rw [map_pure]

theorem scanApproaching_mirrored (ht : t < l.stations.length) (h : Heading) :
    scanApproaching atlas presence now l.mirrored h.reversed (l.opposite t) direction =
      Option.map (Candidate.mirrored l) <$> scanApproaching atlas presence now l h t direction := by
  rw [scanApproaching, scanApproaching, Line.stopsBack_mirrored ht, Heading.reversed_reversed,
    ← Search.best_mirrored, ← scan_mirrored]
  rfl

theorem scanReversing_mirrored (ht : t < l.stations.length) (h : Heading) :
    scanReversing atlas presence now l.mirrored h.reversed (l.opposite t) direction =
      Option.map (Candidate.mirrored l) <$> scanReversing atlas presence now l h t direction := by
  rw [scanReversing, scanReversing, Line.stopsBack_mirrored ht, Line.stopsAlong_mirrored,
    Heading.reversed_reversed, ← List.map_reverse, pathTime_mirrored, map_bind]
  refine bind_congr fun back => ?_
  rw [← Search.best_mirrored, ← scan_mirrored]
  rfl

theorem findSome?_mirrored {lines : List Line} (hl : ∀ l ∈ lines, l.stations.Nodup)
    (direction : StationId) :
    ((lines.map Line.mirrored).findSome? fun l => (l.headingTowards? direction).map fun h => (l, h)) =
      (lines.findSome? fun l => (l.headingTowards? direction).map fun h => (l, h)).map
        fun (l, h) => (l.mirrored, h.reversed) := by
  induction lines with
  | nil => rfl
  | cons l rest ih =>
    rw [List.map_cons, List.findSome?_cons, List.findSome?_cons,
      Line.headingTowards?_mirrored (hl l List.mem_cons_self)]
    cases l.headingTowards? direction with
    | some h => rfl
    | none => exact ih fun k hk => hl k (List.mem_cons_of_mem l hk)

end Scans

end Prediction

namespace Access

variable {ε α β γ δ : Type} {R : α → β → Prop} {S : γ → δ → Prop}

/-- Answers that are related, or the same error. -/
inductive Agree (R : α → β → Prop) : Except ε α → Except ε β → Prop
  | ok {a b} : R a b → Agree R (.ok a) (.ok b)
  | error (e) : Agree R (.error e) (.error e)

theorem Agree.mapError {r : Except StoreError α} {r' : Except StoreError β} (h : Agree R r r')
    (f : StoreError → ε) : Agree R (r.mapError f) (r'.mapError f) := by
  cases h with
  | ok h => exact .ok h
  | error e => exact .error (f e)

theorem Agree.eq_map {f : α → β} {r : Except ε α} {r' : Except ε β}
    (h : Agree (fun a b => b = f a) r r') : r' = r.map f := by
  cases h with
  | ok h => exact congrArg Except.ok h
  | error e => rfl

theorem Agree.eq {r r' : Except ε α} (h : Agree Eq r r') : r' = r := by
  cases h with
  | ok h => exact congrArg Except.ok h.symm
  | error e => rfl

/-- Where no line stops twice at a station, `y` does on the mirrored source what `x` does on it. -/
def Mirrors (R : α → β → Prop) (x : Access ε α) (y : Access ε β) : Prop :=
  ∀ s : Source, s.store.EachOnce → Agree R (s.run x).1 (s.mirrored.run y).1 ∧
    (s.run x).2.store.EachOnce ∧ (s.mirrored.run y).2 = (s.run x).2.mirrored

namespace Mirrors

variable {x : Access ε α} {y : Access ε β}

theorem pure {a : α} {b : β} (h : R a b) : Mirrors R (pure a : Access ε α) (pure b) :=
  fun _ hs => ⟨.ok h, hs, rfl⟩

theorem throw (e : ε) : Mirrors R (throw e : Access ε α) (throw e) :=
  fun _ hs => ⟨.error e, hs, rfl⟩

theorem bind {f : α → Access ε γ} {g : β → Access ε δ} (hx : Mirrors R x y)
    (hf : ∀ a b, R a b → Mirrors S (f a) (g b)) : Mirrors S (x >>= f) (y >>= g) := by
  intro s hs
  have h := hx s hs
  rw [Source.run_bind, Source.run_bind]
  generalize s.run x = r at h ⊢
  generalize s.mirrored.run y = r' at h ⊢
  obtain ⟨r, s'⟩ := r
  obtain ⟨r', t⟩ := r'
  obtain ⟨hagree, honce, rfl⟩ := h
  cases hagree with
  | ok h => exact hf _ _ h s' honce
  | error e => exact ⟨.error e, honce, rfl⟩

theorem map {x y : Access ε α} (h : Mirrors Eq x y) (f : α → β) :
    Mirrors (fun a b => b = f a) x (f <$> y) := by
  rw [← bind_pure x, map_eq_pure_bind]
  exact h.bind fun a _ he => .pure (congrArg f he.symm)

theorem modify {u : Source → Source}
    (h : ∀ s : Source, (u s).store.lines = s.store.lines ∧ u s.mirrored = (u s).mirrored) :
    Mirrors Eq (modifyThe Source u : Access ε Unit) (modifyThe Source u) := by
  intro s hs
  refine ⟨.ok rfl, ?_, (h s).2⟩
  change ∀ l ∈ (u s).store.lines, _
  rw [(h s).1]
  exact hs

theorem memo {f : Memo → Access ε α} {g : Memo → Access ε β} (h : ∀ memo, Mirrors R (f memo) (g memo)) :
    Mirrors R (getThe Source >>= fun s => f s.memo) (getThe Source >>= fun s => g s.memo) :=
  fun s hs => h s.memo s hs

theorem read (call : Call) {f : Store → α} {g : Store → β}
    (h : ∀ st : Store, st.EachOnce → R (f st) (g st.mirrored)) :
    Mirrors R (Access.read call f) (Access.read call g) := by
  intro s hs
  rw [Source.run_read, Source.run_read]
  refine ⟨?_, hs, rfl⟩
  change Agree R (s.answer call (f s.store)) (s.answer call (g s.store.mirrored))
  rw [Source.answer, Source.answer]
  cases s.outage s.calls call with
  | some e => exact .error e
  | none => exact .ok (h s.store hs)

theorem storeCall {x : Access StoreError α} {y : Access StoreError β} (h : Mirrors R x y) :
    Mirrors R (Prediction.storeCall x) (Prediction.storeCall y) := by
  intro s hs
  rw [Makes.run_storeCall, Makes.run_storeCall]
  exact ⟨(h s hs).1.mapError _, (h s hs).2⟩

end Mirrors

theorem mirrors_connection? (k : ConnectionKey) : Mirrors Eq (connection? k) (connection? k) := by
  refine Mirrors.bind (.read _ fun _ _ => rfl) fun found _ he => ?_
  subst he
  refine Mirrors.bind (.modify fun s => ?_) fun _ _ _ => .pure rfl
  obtain ⟨_, _, _, _, overtaking⟩ := s
  cases overtaking <;> exact ⟨rfl, rfl⟩

theorem mirrors_travelSeconds (k : ConnectionKey) :
    Mirrors Eq (travelSeconds k) (travelSeconds k) := by
  rw [travelSeconds_eq]
  refine .memo fun memo => ?_
  rw [travelSecondsFrom]
  cases memo.get? k with
  | some seconds => exact .pure rfl
  | none =>
    refine (mirrors_connection? k).bind fun found _ he => ?_
    subst he
    cases found with
    | none => exact .pure rfl
    | some c => exact Mirrors.bind (.modify fun _ => ⟨rfl, rfl⟩) fun _ _ _ => .pure rfl

end Access

open Access

/-- Costs do not depend on which end lines are read from. Of look-ups of lines nothing is said here. -/
theorem Atlas.mirrors_live :
    live.Related live (fun _ _ _ => True) (fun _ => Mirrors Eq) where
  line? _ := trivial
  linesServing _ := trivial
  cost? k := (mirrors_travelSeconds k).storeCall
  pure _ := .pure rfl
  throw e _ := .throw e
  bind hx hf := hx.bind fun a _ he => he ▸ hf a
  first _ _ := trivial

namespace Prediction

theorem mirrors_resolve (station direction : StationId) :
    Mirrors (fun a b => a.1.stations.Nodup ∧ b = (a.1.mirrored, a.2.reversed))
      (resolve .live station direction) (resolve .live station direction) := by
  have hread : Mirrors (fun ls ks => (∀ l ∈ ls, l.stations.Nodup) ∧ ks = ls.map Line.mirrored)
      (Atlas.live.linesServing station) (Atlas.live.linesServing station) :=
    (Mirrors.read _ fun st hst =>
      ⟨fun l hl => hst.of_mem_linesServing hl, st.linesServing_mirrored station⟩).storeCall
  refine hread.bind fun lines _ ⟨hlines, he⟩ => ?_
  subst he
  dsimp only
  rw [findSome?_mirrored hlines, List.isEmpty_map]
  cases hfound : lines.findSome? fun l => (l.headingTowards? direction).map fun h => (l, h) with
  | none =>
    split
    · exact Mirrors.bind (R := Eq) (.throw _) fun _ _ _ => .throw _
    · exact .throw _
  | some found =>
    obtain ⟨l, hl, hheading⟩ := List.exists_of_findSome?_eq_some hfound
    obtain ⟨h, -, rfl⟩ := Option.map_eq_some_iff.mp hheading
    split
    · exact Mirrors.bind (R := Eq) (.throw _) fun _ _ _ => .pure ⟨hlines l hl, rfl⟩
    · exact .pure ⟨hlines l hl, rfl⟩

theorem mirrors_predict (presence : Presence) (now : Instant) (station direction : StationId) :
    Mirrors (fun p q => q = p.mirrored) (predict presence now station direction)
      (predict presence now station direction) := by
  refine (mirrors_resolve station direction).bind fun (line, heading) _ ⟨hline, he⟩ => ?_
  subst he
  dsimp only
  rw [Line.position?_mirrored hline]
  cases htarget : line.position? station with
  | none => exact .throw _
  | some target =>
    have hlt := Line.position?_lt htarget
    dsimp only [Option.map_some]
    rw [scanApproaching_mirrored hlt]
    refine ((Atlas.mirrors_live.scanApproaching _ _ _ _ _ _).map _).bind fun found _ he => ?_
    subst he
    cases found with
    | some c => exact .pure rfl
    | none =>
      dsimp only [Option.map_none]
      rw [Line.terminal?_mirrored, Heading.reversed_reversed]
      cases line.terminal? heading.reversed with
      | none => exact .throw _
      | some opposite =>
        dsimp only
        rw [scanReversing_mirrored hlt]
        refine ((Atlas.mirrors_live.scanReversing _ _ _ _ _ _).map _).bind fun found _ he => ?_
        subst he
        cases found with
        | some c => exact .pure rfl
        | none => exact .throw _

end Prediction

theorem Arrival.mirrors_project (a : Arrival) (now : Instant) :
    Mirrors Eq (a.project now) (a.project now) := by
  have hread : Mirrors (fun l k => (∀ line ∈ l, line.stations.Nodup) ∧ k = l.map Line.mirrored)
      (Atlas.live.line? a.line) (Atlas.live.line? a.line) :=
    (Mirrors.read _ fun st hst => ⟨fun _ hl => hst.of_line? hl, st.line?_mirrored a.line⟩).storeCall
  refine hread.bind fun found _ ⟨hfound, he⟩ => ?_
  subst he
  cases found with
  | none => exact .throw _
  | some line =>
    have hline := hfound line rfl
    dsimp only [Option.map_some]
    rw [Line.headingTowards?_mirrored hline]
    cases line.headingTowards? a.direction with
    | none => exact .throw _
    | some heading =>
      dsimp only [Option.map_some]
      rw [Line.position?_mirrored hline]
      cases hindex : line.position? a.station with
      | none => exact .throw _
      | some index =>
        dsimp only [Option.map_some]
        rw [← Line.previous?, ← Line.previous?, Line.previous?_mirrored (Line.position?_lt hindex)]
        -- From here on only stations matter, and a mirrored stop is at the same one.
        have h := Atlas.mirrors_live
        cases line.previous? index heading with
        | none => exact h.bind (h.pure _) fun percent => h.pure _
        | some stop =>
          cases a.liveSeconds? now with
          | none => exact h.bind (h.pure _) fun percent => h.pure _
          | some remaining =>
            exact h.bind (h.edgeSeconds stop ⟨index, a.station⟩) fun edge =>
              h.bind (h.pure _) fun percent => h.pure _

/-- Where no line stops twice at a station, queries answer on the mirrored lines what they answer on the
lines themselves, mirrored, and do the same to the source, whichever calls fail, whatever is remembered
and whichever commit lands meanwhile. -/
theorem queries_mirrored {s : Source} (hs : s.store.EachOnce) (now : Instant) :
    (∀ presence station direction,
      s.mirrored.run (predict presence now station direction) =
        ((s.run (predict presence now station direction)).1.map Prediction.mirrored,
          (s.run (predict presence now station direction)).2.mirrored)) ∧
    ∀ a : Arrival, s.mirrored.run (a.project now) =
      ((s.run (a.project now)).1, (s.run (a.project now)).2.mirrored) := by
  constructor
  · intro presence station direction
    obtain ⟨hagree, -, hrest⟩ := Prediction.mirrors_predict presence now station direction s hs
    exact Prod.ext hagree.eq_map hrest
  · intro a
    obtain ⟨hagree, -, hrest⟩ := a.mirrors_project now s hs
    exact Prod.ext hagree.eq hrest

namespace Prediction

/-- A vehicle that is to come to `b` from `a`. -/
def ferry : Arrival :=
  ⟨"v", "coast", "b", "c", ⟨0⟩, ⟨60000000000⟩, 2, none, .exact 40, .seconds⟩

theorem queries_mirrored_coast : ∃ p q s' s'', coastStore.EachOnce ∧
    (Source.ofStore coastStore).mirrored.run
        (predict (Presence.empty.register ⟨"c", "a"⟩ ⟨0⟩) ⟨10000000000⟩ "b" "c") = (.ok p, s') ∧
      p = ⟨coast.mirrored, "b", "c", ⟨0, "c"⟩, "a", ⟨0⟩, true, 351, 10⟩ ∧
      (Source.ofStore coastStore).mirrored.run (ferry.project ⟨10000000000⟩) = (.ok q, s'') ∧
      q.previousStation = some "a" ∧ q.nextStation = "b" := by
  have hs : coastStore.EachOnce := by decide
  obtain ⟨hpredict, hproject⟩ := queries_mirrored (s := .ofStore coastStore) hs ⟨10000000000⟩
  exact ⟨_, _, _, _, hs, hpredict _ _ _, rfl, hproject ferry, rfl, rfl⟩

end Prediction

end Arrivals
