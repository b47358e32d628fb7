import Arrivals.Proofs.Board.Positions
import Arrivals.Proofs.Forecast.Pass
import Arrivals.Proofs.Prediction.Growth
import Arrivals.Service

/-! Placing vehicles from the board. Main statement: what passes have filed can be placed ever after,
whatever is committed, forgotten and asked meanwhile, so the board goes out without a vehicle that could
not be placed. -/

namespace Arrivals

namespace Arrival

/-- The line is known and leads to the station, by an edge of the store if there is a stop before it. -/
def Placeable (a : Arrival) (st : Store) : Prop :=
  ∃ line heading index, st.line? a.line = some line ∧ line.headingTowards? a.direction = some heading ∧
    line.position? a.station = some index ∧
      ∀ stop, line.previous? index heading = some stop → st.Has ⟨stop.station, a.station⟩

variable {a : Arrival} {s s' : Source}

theorem Placeable.grow (h : a.Placeable s.store) (hs : s.Grows s') : a.Placeable s'.store := by
  obtain ⟨line, heading, index, hline, hheading, hindex, hentry⟩ := h
  refine ⟨line, heading, index, ?_, hheading, hindex, fun stop hstop => hs.edges _ (hentry stop hstop)⟩
  rw [Store.line?, hs.lines]
  exact hline

theorem exists_edgeSeconds {a b : Stop} (hs : s.Steady) (h : s.store.Has ⟨a.station, b.station⟩) :
    ∃ seconds s', s.run (Prediction.edgeSeconds .live a b) = (.ok seconds, s') := by
  obtain ⟨seconds, hseconds⟩ :=
    (Access.run_travelSeconds_grows s ⟨a.station, b.station⟩).2.2 hs h
  have hcost : s.run (Atlas.live.cost? ⟨a.station, b.station⟩) =
      (.ok (some seconds), (s.run (Access.travelSeconds ⟨a.station, b.station⟩)).2) := by
    change s.run (Prediction.storeCall _) = _
    rw [Access.Makes.run_storeCall, hseconds]
    rfl
  exact ⟨seconds, _, Source.run_bind_of_ok _ hcost⟩

theorem Placeable.project_ok (h : a.Placeable s.store) (hs : s.Steady) (now : Instant) :
    ∃ position, (s.run (a.project now)).1 = .ok position := by
  obtain ⟨line, heading, index, hline, hheading, hindex, hentry⟩ := h
  have hread : s.run (Atlas.live.line? a.line) = (.ok (some line), { s with calls := s.calls + 1 }) := by
    change s.run (Prediction.storeCall (Access.line? a.line)) = _
    rw [Access.Makes.run_storeCall, Access.line?, Source.run_read, hs.answer, hline]
    rfl
  have hlater : Source.Steady { s with calls := s.calls + 1 } := hs.later (Nat.le_succ _)
  rw [project, projectWith, Source.run_bind_of_ok _ hread]
  dsimp only
  rw [hheading]
  dsimp only
  rw [hindex]
  dsimp only
  rw [← Line.previous?]
  cases hprevious : line.previous? index heading with
  | none => exact ⟨_, rfl⟩
  | some stop =>
    cases a.liveSeconds? now with
    | none => exact ⟨_, rfl⟩
    | some remaining =>
      obtain ⟨edge, s', hedge⟩ := exists_edgeSeconds (b := ⟨index, a.station⟩) hlater
        (hentry stop hprevious)
      rw [Source.run_bind_of_ok _ hedge]
      exact ⟨_, rfl⟩

end Arrival

def Store.DistinctLines (st : Store) : Prop := (st.lines.map Line.id).Nodup

theorem Store.line?_eq_some {st : Store} {l : Line} (hst : st.DistinctLines) (hl : l ∈ st.lines) :
    st.line? l.id = some l := by
  rw [line?]
  cases h : st.lines.reverse.find? fun m => m.id = l.id with
  | none =>
    rw [List.find?_eq_none] at h
    exact absurd (decide_eq_true rfl) (h l (List.mem_reverse.mpr hl))
  | some m =>
    have hm : m ∈ st.lines := List.mem_reverse.mp (List.mem_of_find?_eq_some h)
    have hid : m.id = l.id := by simpa using List.find?_some h
    rw [List.inj_on_of_nodup_map hst hm hl hid]

theorem Prediction.Entered.placeable {st : Store} {station direction : StationId} {p : Prediction}
    (h : p.Entered st station direction) (hst : st.DistinctLines) (now : Instant) (validity : Span) :
    (p.arrival now validity).Placeable st := by
  obtain ⟨⟨rfl, rfl⟩, hline, heading, index, hheading, hindex, hentry⟩ := h
  exact ⟨p.line, heading, index, st.line?_eq_some hst hline, hheading, hindex, hentry⟩

/-- Every arrival on the board can be placed. -/
def Board.Placed (b : Board) (st : Store) : Prop :=
  ∀ slot l, b.lease? slot = some l → l.value.Placeable st

namespace Board.Placed

variable {b : Board} {s s' : Source}

theorem grow (h : b.Placed s.store) (hs : s.Grows s') : b.Placed s'.store :=
  fun slot l hl => (h slot l hl).grow hs

theorem set {st : Store} (h : b.Placed st) (now : Instant) (slot : Slot) {a : Arrival}
    (ha : a.Placeable st) : (b.set now slot a).Placed st := by
  intro j l hl
  rw [lease?_set] at hl
  split at hl
  · cases hl
    exact ha
  · exact h j l hl

theorem sweep {st : Store} (h : b.Placed st) (now : Instant) : (b.sweep now).Placed st :=
  fun j l hl => h j l (lease?_of_sweep hl)

theorem touch {st : Store} (h : b.Placed st) (now : Instant) (station direction : StationId)
    (count : Nat) : (b.touch now station direction count).Placed st :=
  fun j l hl => h j l (lease?_of_touch hl)

theorem of_mem_currentPositions {st : Store} {now : Instant} {a : Arrival} (h : b.Placed st)
    (ha : a ∈ b.currentPositions now) : a.Placeable st := by
  obtain ⟨slot, hslot⟩ := mem_currentPositions_iff.mp ha
  obtain ⟨l, hl, -, rfl⟩ := Expiring.visible?_eq_some_iff.mp hslot.live
  exact h slot l hl

end Board.Placed

namespace Forecast

variable (presence : Presence) (now : Instant) (validity : Span)

theorem grows_predictAll (walk : List Sight) (p : Progress) :
    p.source.Grows (predictAll presence now validity p walk).2.source := by
  induction walk generalizing p with
  | nil => exact .refl _
  | cons q rest ih =>
    have hgrows := grows_predict presence now q.station q.direction p.source
    cases hrun : p.source.run (predict presence now q.station q.direction) with
    | mk y source =>
      rw [hrun] at hgrows
      by_cases hy : ∃ e, y = .error (.store e)
      · obtain ⟨e, rfl⟩ := hy
        rw [predictAll_of_failed validity hrun]
        exact hgrows
      · rw [predictAll_of_answered validity hrun (not_exists.mp hy)]
        have hrest := ih (p.tally now validity q source y)
        rw [p.source_tally] at hrest
        exact hgrows.trans hrest

/-- What a walk finds can be placed from then on, whatever it reads after it, and it files nothing else. -/
theorem placed_predictAll (walk : List Sight) (p : Progress) (hlines : p.source.store.DistinctLines)
    (hfilled : p.source.Filled) :
    (∀ f ∈ foundAlong presence now p.source walk,
      (f.arrival now validity).Placeable (predictAll presence now validity p walk).2.source.store) ∧
    (p.board.Placed p.source.store → (predictAll presence now validity p walk).2.board.Placed
      (predictAll presence now validity p walk).2.source.store) := by
  induction walk generalizing p with
  | nil => exact ⟨fun _ hf => absurd hf List.not_mem_nil, id⟩
  | cons q rest ih =>
    have hgrows := grows_predict presence now q.station q.direction p.source
    cases hrun : p.source.run (predict presence now q.station q.direction) with
    | mk y source =>
      rw [hrun] at hgrows
      by_cases hy : ∃ e, y = .error (.store e)
      · obtain ⟨e, rfl⟩ := hy
        rw [predictAll_of_failed validity hrun, foundAlong_of_failed hrun]
        exact ⟨fun _ hf => absurd hf List.not_mem_nil, fun hboard => hboard.grow hgrows⟩
      · have hown := not_exists.mp hy
        rw [predictAll_of_answered validity hrun hown, foundAlong_of_answered hrun hown]
        have hlines' : source.store.DistinctLines := by rwa [Store.DistinctLines, hgrows.lines]
        have hfound (f : Prediction) (hf : y = .ok f) : (f.arrival now validity).Placeable source.store :=
          (Prediction.entered_of_predict hfilled (hf ▸ hrun)).placeable hlines' now validity
        have hlater := grows_predictAll presence now validity rest (p.tally now validity q source y)
        have hrest := ih (p.tally now validity q source y)
        rw [p.source_tally] at hlater hrest
        obtain ⟨hothers, hplaced⟩ := hrest hlines' (hgrows.filled hfilled)
        refine ⟨fun f hf => ?_, fun hboard => hplaced ?_⟩
        · rcases List.mem_append.mp hf with hf | hf
          · refine (hfound f ?_).grow hlater
            cases y with
            | ok f' => exact congrArg Except.ok (List.mem_singleton.mp hf).symm
            | error e => cases hf
          · exact hothers f hf
        · have hboard' := hboard.grow hgrows
          cases y with
          | ok f => exact hboard'.set now _ (hfound f rfl)
          | error e => exact hboard'

variable (source : Source) (board : Board) (activity : Activity)

theorem grows_pass : source.Grows (pass presence now validity source board activity).source := by
  have hcall := source.grows_call
  cases hlines : source.answer .lines source.store.lines with
  | error e =>
    rw [pass, Access.lines, Source.run_read, hlines]
    exact hcall
  | ok lines =>
    have hrun : source.run Access.lines = (.ok lines, { source with calls := source.calls + 1 }) := by
      rw [Access.lines, Source.run_read, hlines]
    rw [pass_of_lines hrun, source_conclude]
    exact hcall.trans (grows_predictAll _ _ _ _ ⟨_, board, 0, 0⟩)

variable {source}

theorem placed_conclude {out : Option StoreError × Progress} {st : Store} (h : out.2.board.Placed st) :
    (conclude now activity out).board.Placed st := by
  obtain ⟨_ | e, p⟩ := out
  · exact h.sweep now
  · exact h

theorem placed_pass (hlines : source.store.DistinctLines) (hfilled : source.Filled) :
    (∀ f ∈ found presence now source, (f.arrival now validity).Placeable
      (pass presence now validity source board activity).source.store) ∧
    (board.Placed source.store → (pass presence now validity source board activity).board.Placed
      (pass presence now validity source board activity).source.store) := by
  rw [found]
  cases hlookup : source.answer .lines source.store.lines with
  | error e =>
    rw [pass, Access.lines, Source.run_read, hlookup]
    exact ⟨fun _ hf => absurd hf List.not_mem_nil, fun hboard => hboard⟩
  | ok lines =>
    have hrun : source.run Access.lines = (.ok lines, { source with calls := source.calls + 1 }) := by
      rw [Access.lines, Source.run_read, hlookup]
    obtain ⟨hfound, hplaced⟩ := placed_predictAll presence now validity (lines.flatMap queries)
      ⟨{ source with calls := source.calls + 1 }, board, 0, 0⟩ hlines hfilled
    rw [pass_of_lines hrun, source_conclude, hrun]
    exact ⟨hfound, fun hboard => placed_conclude now activity (hplaced hboard)⟩

end Forecast

namespace Dissemination

variable {now : Instant} {source : Source} {arrivals : List Arrival}

theorem grows_placeAll (now : Instant) (source : Source) (arrivals : List Arrival) :
    source.Grows (placeAll now source arrivals).2.2 := by
  induction arrivals generalizing source with
  | nil => exact .refl source
  | cons a rest ih =>
    have hgrows := a.grows_project now source
    rw [placeAll]
    generalize source.run (a.project now) = r at hgrows ⊢
    obtain ⟨_ | position, source'⟩ := r <;> exact hgrows.trans (ih source')

theorem placeAll_of_placeable (hs : source.Steady) (h : ∀ a ∈ arrivals, a.Placeable source.store) :
    (placeAll now source arrivals).1.length = arrivals.length ∧
      (placeAll now source arrivals).2.1 = 0 := by
  induction arrivals generalizing source with
  | nil => exact ⟨rfl, rfl⟩
  | cons a rest ih =>
    have hgrows := a.grows_project now source
    obtain ⟨position, hposition⟩ := (h a List.mem_cons_self).project_ok hs now
    rw [placeAll]
    generalize source.run (a.project now) = r at hgrows hposition ⊢
    obtain ⟨_, source'⟩ := r
    cases hposition
    obtain ⟨hlength, hfailures⟩ := ih (hgrows.steady hs)
      fun b hb => (h b (List.mem_cons_of_mem a hb)).grow hgrows
    exact ⟨congrArg (· + 1) hlength, hfailures⟩

end Dissemination

namespace Service

/-- What may come between two publications. A commit may land at once, or while the next connection is
being read, and then the memo is cleared with it. -/
inductive Event where
  | wait (now : Instant)
  | observe (sight : Sight) (time : Instant)
  | commit (t : Transaction)
  | overtake (c : Connection)
  | clear
  | predict (q : Sight)
  | project (a : Arrival) (time : Instant)
  | forecast
  | next (station direction : StationId) (count : Nat)
  | sweep
  | publish

def step (s : Service) : Event → Service
  | .wait now => { s with now }
  | .observe sight time => s.observe sight time
  | .commit t => s.withStore (t.commit s.store)
  | .overtake c => { s with source.overtaking := some c }
  | .clear => s.clearMemo
  | .predict q => (s.predict q).2
  | .project a time => (s.project a time).2
  | .forecast => s.forecast.2
  | .next station direction count => (s.nextArrivals station direction count).2
  | .sweep => s.sweepBoard.2
  | .publish => s.disseminate.2

def after (s : Service) (events : List Event) : Service := events.foldl step s

variable {s s' : Service}

theorem grows_step (s : Service) (e : Event) : s.source.Grows (s.step e).source := by
  cases e with
  | wait now => exact .refl _
  | observe sight time => exact .refl _
  | commit t => exact s.source.grows_commit t
  | overtake c => exact ⟨rfl, fun _ hk => hk, fun hf => hf, fun hn => hn⟩
  | clear => exact s.source.grows_clearMemo
  | predict q => exact grows_predict _ _ _ _ s.source
  | project a time => exact a.grows_project time s.source
  | forecast => exact Forecast.grows_pass _ _ _ _ _ _
  | next station direction count => exact .refl _
  | sweep => exact .refl _
  | publish => exact Dissemination.grows_placeAll _ _ _

theorem grows_after (s : Service) (events : List Event) : s.source.Grows (s.after events).source := by
  induction events generalizing s with
  | nil => exact .refl _
  | cons e rest ih => exact (s.grows_step e).trans (ih (s.step e))

/-- No call fails, lines have ids of their own, and only edges of the store are remembered. -/
structure Sound (s : Service) : Prop where
  lines : s.store.DistinctLines
  steady : s.source.Steady
  filled : s.source.Filled

theorem Sound.grow (h : s.Sound) (hs : s.source.Grows s'.source) : s'.Sound where
  lines := by
    rw [Store.DistinctLines, store, hs.lines]
    exact h.lines
  steady := hs.steady h.steady
  filled := hs.filled h.filled

theorem Sound.placed_step (h : s.Sound) (hboard : s.board.Placed s.store) (e : Event) :
    (s.step e).board.Placed (s.step e).store := by
  have hsame := hboard.grow (s.grows_step e)
  cases e with
  | forecast => exact (Forecast.placed_pass _ _ _ s.board s.activity h.lines h.filled).2 hboard
  | next station direction count => exact hboard.touch _ _ _ _
  | sweep => exact hboard.sweep _
  | _ => exact hsame

theorem Sound.placed_after (h : s.Sound) (hboard : s.board.Placed s.store) (events : List Event) :
    (s.after events).board.Placed (s.after events).store := by
  induction events generalizing s with
  | nil => exact hboard
  | cons e rest ih => exact ih (h.grow (s.grows_step e)) (h.placed_step hboard e)

theorem Sound.failures_disseminate (h : s.Sound) (hboard : s.board.Placed s.store) :
    s.disseminate.1.positions = (s.board.currentPositions s.now).length ∧
      s.disseminate.1.failures = 0 :=
  Dissemination.placeAll_of_placeable h.steady fun _ ha => hboard.of_mem_currentPositions ha

/-- As long as no call fails: with a memo that holds edges of the store, and lines with ids of their own,
whatever a pass finds can be placed at any time, after whatever commits, clears and queries there were
since. So where the board was empty at first, all that is on it can be placed at any time, and every
publication has a position for each vehicle on the board, and counts none that could not be placed. -/
theorem after_places_vehicles (s : Service) (hlines : s.store.DistinctLines)
    (hsteady : s.source.Steady) (hfilled : s.source.Filled) (events : List Event) :
    let s₁ := s.after events
    (∀ p ∈ Forecast.found s₁.presence s₁.now s₁.source, ∀ (further : List Event) (time : Instant),
      ∃ position, (((s₁.step .forecast).after further).project
        (p.arrival s₁.now s₁.settings.validity) time).1 = .ok position) ∧
    (s.board = .empty →
      (∀ slot l, s₁.board.lease? slot = some l → ∀ (further : List Event) (time : Instant),
        ∃ position, ((s₁.after further).project l.value time).1 = .ok position) ∧
      s₁.disseminate.1.positions = (s₁.board.currentPositions s₁.now).length ∧
      s₁.disseminate.1.failures = 0) := by
  intro s₁
  have hs : s.Sound := ⟨hlines, hsteady, hfilled⟩
  have hs₁ : s₁.Sound := hs.grow (s.grows_after events)
  refine ⟨fun p hp further time => ?_, fun hempty => ?_⟩
  · have hfound := (Forecast.placed_pass s₁.presence s₁.now s₁.settings.validity s₁.board s₁.activity
      hs₁.lines hs₁.filled).1 p hp
    have hgrows := (s₁.step .forecast).grows_after further
    exact (hfound.grow hgrows).project_ok (hs₁.grow ((s₁.grows_step _).trans hgrows)).steady time
  · have hboard : s.board.Placed s.store := by
      rw [hempty]
      exact fun slot l hl => by cases hl
    have hboard₁ := hs.placed_after hboard events
    refine ⟨fun slot l hl further time => ?_, hs₁.failures_disseminate hboard₁⟩
    have hgrows := s₁.grows_after further
    exact ((hboard₁ slot l hl).grow hgrows).project_ok (hs₁.grow hgrows).steady time

/-- A spur from which there is no way back. -/
def spur : Line := ⟨"spur", "Spur", "n", ["a", "b", "c"], 2⟩

def spurStore : Store :=
  { ((default : Store).saveConnection ⟨"a", "b", "spur", 60, 0, 0⟩).saveConnection
      ⟨"b", "c", "spur", 90, 0, 0⟩ with lines := [spur] }

def spurService : Service := .start ⟨⟨1, ⟨0⟩, ⟨0⟩, 9⟩, .ofSeconds 90, [], ⟨"live", "dev"⟩⟩ ⟨0⟩ spurStore

def spurEvents : List Event := [.observe ⟨"a", "c"⟩ ⟨0⟩, .forecast]

def spurTransaction : Transaction := Transaction.empty.saveConnection ⟨"b", "c", "spur", 30, 0, 0⟩

theorem after_places_vehicles_spur :
    ∃ l, (spurService.after spurEvents).board.lease? ⟨"c", "c", 1⟩ = some l ∧
      l.value.estimate = .exact 150 ∧
      (∃ position, (((spurService.after spurEvents).after
        [.commit spurTransaction, .clear]).project l.value (.ofMillis 70000)).1 = .ok position) ∧
      (spurService.after spurEvents).disseminate.1.failures = 0 := by
  have hlease : ((spurService.after spurEvents).board.lease? ⟨"c", "c", 1⟩).map (·.value.estimate) =
      some (.exact 150) := by decide +kernel
  obtain ⟨l, hl, hestimate⟩ := Option.map_eq_some_iff.mp hlease
  have hlines : spurStore.DistinctLines := List.nodup_singleton "spur"
  obtain ⟨-, hboard⟩ := after_places_vehicles spurService hlines (fun _ _ _ => rfl)
    (fun _ h => by cases h) spurEvents
  obtain ⟨hplaced, -, hfailures⟩ := hboard rfl
  exact ⟨l, hl, hestimate, hplaced _ l hl _ _, hfailures⟩

end Service

end Arrivals
