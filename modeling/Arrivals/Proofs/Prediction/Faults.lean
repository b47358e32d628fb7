import Arrivals.Proofs.Memo.Coherence
import Arrivals.Proofs.Prediction.Growth
import Arrivals.Proofs.Prediction.Scans
import Arrivals.Service

/-! When there is no prediction. Main statement: a query is in error just for a call that fails, a station
that no line serves, a direction that no line has as a terminal, a connection that is not there before a
scan has ended, or because nothing was seen in time along the whole way; and an error takes nothing away. -/

namespace Arrivals

theorem Store.mem_linesServing {st : Store} {station : StationId} {l : Line} :
    l ∈ st.linesServing station ↔ l ∈ st.lines ∧ station ∈ l.stations := by
  simp only [linesServing, List.mem_flatMap, List.mem_map, List.mem_filter, decide_eq_true_eq]
  constructor
  · rintro ⟨m, hm, t, ⟨ht, rfl⟩, rfl⟩
    exact ⟨hm, ht⟩
  · rintro ⟨hl, hs⟩
    exact ⟨l, hl, station, ⟨hs, rfl⟩, rfl⟩

namespace Prediction

section Gaps

variable {v : View} {presence : Presence} {direction : StationId} {now : Instant} {path : Int}
  {stops : List Stop} {k : ConnectionKey} {e : PredictionError}

/-- The first connection that a scan needs and that is not known. -/
def FirstGap (v : View) (stops : List Stop) (k : ConnectionKey) : Prop :=
  (needed stops).find? (fun j => (v.cost? j).isNone) = some k

theorem connected_iff :
    Connected v stops ↔ (needed stops).find? (fun j => (v.cost? j).isNone) = none := by
  induction stops with
  | nil => exact iff_of_true .nil rfl
  | cons a rest ih =>
    cases rest with
    | nil => exact iff_of_true (.singleton a) rfl
    | cons b rest =>
      rw [connected_cons_cons, ih, needed, List.find?_cons]
      cases v.cost? ⟨b.station, a.station⟩ <;> simp

theorem FirstGap.not_connected (h : FirstGap v stops k) : ¬ Connected v stops := by
  rw [connected_iff, h]
  exact nofun

theorem FirstGap.unique {k' : ConnectionKey} (h : FirstGap v stops k) (h' : FirstGap v stops k') :
    k' = k :=
  Option.some.inj (h'.symm.trans h)

theorem FirstGap.cost?_eq_none (h : FirstGap v stops k) : v.cost? k = none := by
  have hnone := List.find?_some h
  rwa [Option.isNone_iff_eq_none] at hnone

theorem gap_of_scan {observe : Stop → Int → Option Candidate} {search : Search}
    (h : scan (.seen v) observe path search stops = .error e) :
    ∃ k, e = .missingConnection k ∧ FirstGap v stops k := by
  induction stops generalizing path search with
  | nil => cases h
  | cons a rest ih =>
    cases rest with
    | nil => cases h
    | cons b rest =>
      rw [scan] at h
      split at h
      next =>
        rw [edgeSeconds_seen] at h
        simp only [FirstGap, needed, List.find?_cons]
        cases hedge : v.cost? ⟨b.station, a.station⟩ with
        | none =>
          rw [hedge] at h
          exact ⟨_, (Except.error.inj h).symm, rfl⟩
        | some edge =>
          rw [hedge] at h
          exact ih h
      next => cases h

/-- A scan comes to a connection that is not known: what it saw on the way there did not end it. -/
structure Stumbles (v : View) (presence : Presence) (direction : StationId) (now : Instant)
    (path : Int) (stops : List Stop) (k : ConnectionKey) : Prop where
  gap : FirstGap v stops k
  falls : Falls (sightings v presence direction now path stops)

/-- A scan goes by all of the stops, and nothing was seen in time at any of them. -/
structure Passes (v : View) (presence : Presence) (direction : StationId) (now : Instant)
    (path : Int) (stops : List Stop) : Prop where
  connected : Connected v stops
  nothing : sightings v presence direction now path stops = []

theorem scan_eq_error_iff :
    Search.best <$> scan (.seen v) (observe presence direction now) path .start stops = .error e ↔
      ∃ k, e = .missingConnection k ∧ Stumbles v presence direction now path stops k := by
  have hcomes := comes_scan Search.after_start rfl v presence direction now path stops
  rw [List.nil_append] at hcomes
  cases hscan : scan (.seen v) (observe presence direction now) path .start stops with
  | error fault =>
    rw [hscan] at hcomes
    obtain ⟨k, rfl, hgap⟩ := gap_of_scan hscan
    constructor
    · rintro ⟨⟩
      exact ⟨k, rfl, hgap, hcomes.2.1⟩
    · rintro ⟨k', rfl, hstumbles⟩
      rw [hgap.unique hstumbles.gap]
      rfl
  | ok search =>
    rw [hscan] at hcomes
    refine iff_of_false nofun ?_
    rintro ⟨k, -, hstumbles⟩
    exact hstumbles.gap.not_connected (hcomes.2 (hcomes.1.running.mpr hstumbles.falls))

theorem scan_eq_none_iff :
    Search.best <$> scan (.seen v) (observe presence direction now) path .start stops = .ok none ↔
      Passes v presence direction now path stops := by
  have hsettles := (comes_scan Search.after_start rfl v presence direction now path stops).settles
  rw [List.nil_append] at hsettles
  constructor
  · intro h
    have hnothing := (hsettles.nothing none h).mp rfl
    refine ⟨(hsettles.answers.mp ⟨none, h⟩).resolve_right ?_, hnothing⟩
    rw [hnothing]
    exact not_not.mpr .nil
  · rintro ⟨hconnected, hnothing⟩
    obtain ⟨found, hfound⟩ := hsettles.answers.mpr (.inl hconnected)
    rwa [← (hsettles.nothing found hfound).mpr hnothing]

end Gaps

section Courses

variable {v : View} {presence : Presence} {now : Instant} {q : Sight} {line : Line}
  {heading : Heading} {target : Nat} {opposite : StationId} {path : Int} {e : PredictionError}

/-- The line that a query goes by, the heading there to its direction and the place of its station. -/
structure Course (st : Store) (q : Sight) (line : Line) (heading : Heading) (target : Nat) :
    Prop where
  chosen : (st.linesServing q.station).find? (·.HasTerminal q.direction) = some line
  heading : line.headingTowards? q.direction = some heading
  target : line.position? q.station = some target

/-- The first scan finds nothing, so the other sets out from the far terminal, for vehicles that have to
turn there and to come all the way back. -/
structure Turns (v : View) (presence : Presence) (now : Instant) (q : Sight) (line : Line)
    (heading : Heading) (target : Nat) (opposite : StationId) (path : Int) : Prop where
  course : Course v.store q line heading target
  passes : Passes v presence q.direction now 0 (line.stopsBack target heading)
  opposite : line.terminal? heading.reversed = some opposite
  path : path = 120 + legSeconds v (line.stopsBack target heading)

/-- What can be wrong with a query, as far as no call fails. -/
inductive Fails (v : View) (presence : Presence) (now : Instant) (q : Sight) :
    PredictionError → Prop
  | unserved : (∀ l ∈ v.store.lines, q.station ∉ l.stations) →
      Fails v presence now q (.unknownStation q.station)
  | undirected : (∃ l ∈ v.store.lines, q.station ∈ l.stations) →
      (∀ l ∈ v.store.lines, q.station ∈ l.stations → ¬ l.HasTerminal q.direction) →
      Fails v presence now q (.invalidDirection q.station q.direction)
  | approaching {line : Line} {heading : Heading} {target : Nat} {k : ConnectionKey} :
      Course v.store q line heading target →
      Stumbles v presence q.direction now 0 (line.stopsBack target heading) k →
      Fails v presence now q (.missingConnection k)
  | reversing {line : Line} {heading : Heading} {target : Nat} {opposite : StationId} {path : Int}
      {k : ConnectionKey} :
      Turns v presence now q line heading target opposite path →
      Stumbles v presence opposite now path (line.stopsAlong heading) k →
      Fails v presence now q (.missingConnection k)
  | unlocated {line : Line} {heading : Heading} {target : Nat} {opposite : StationId} {path : Int} :
      Turns v presence now q line heading target opposite path →
      Passes v presence opposite now path (line.stopsAlong heading) →
      Fails v presence now q (.noVehicleLocated q.station q.direction)

theorem findSome?_headingTowards? (direction : StationId) (lines : List Line) :
    (lines.findSome? fun l => (l.headingTowards? direction).map fun h => (l, h)) =
      (lines.find? (·.HasTerminal direction)).bind fun l =>
        (l.headingTowards? direction).map fun h => (l, h) := by
  induction lines with
  | nil => rfl
  | cons l rest ih =>
    rw [List.findSome?_cons, List.find?_cons, ih]
    cases hheading : l.headingTowards? direction with
    | none => simp [Line.headingTowards?_eq_none_iff.mp hheading]
    | some h =>
      have hterminal : l.HasTerminal direction := by
        by_contra hno
        rw [Line.headingTowards?_eq_none_iff.mpr hno] at hheading
        cases hheading
      simp [hterminal, hheading]

theorem resolve_seen (v : View) (station direction : StationId) :
    resolve (.seen v) station direction =
      if (v.store.linesServing station).isEmpty then .error (.unknownStation station)
      else (((v.store.linesServing station).find? (·.HasTerminal direction)).bind fun l =>
        (l.headingTowards? direction).map fun h => (l, h)).elim
          (.error (.invalidDirection station direction)) .ok := by
  rw [← findSome?_headingTowards?]
  change (if (v.store.linesServing station).isEmpty then _ else _) = _
  split
  · rfl
  · cases (v.store.linesServing station).findSome? fun l =>
      (l.headingTowards? direction).map fun h => (l, h) <;> rfl

theorem exists_course {st : Store}
    (h : (st.linesServing q.station).find? (·.HasTerminal q.direction) = some line) :
    ∃ heading target, Course st q line heading target := by
  have hterminal := List.find?_some h
  rw [decide_eq_true_iff] at hterminal
  have hserved := (Store.mem_linesServing.mp (List.mem_of_find?_eq_some h)).2
  obtain ⟨heading, hheading⟩ : ∃ heading, line.headingTowards? q.direction = some heading := by
    refine Option.ne_none_iff_exists'.mp fun hnone => ?_
    exact Line.headingTowards?_eq_none_iff.mp hnone hterminal
  obtain ⟨target, htarget⟩ : ∃ target, line.position? q.station = some target := by
    refine Option.ne_none_iff_exists'.mp fun hnone => ?_
    simpa using List.findIdx?_eq_none_iff.mp hnone q.station hserved
  exact ⟨heading, target, h, hheading, htarget⟩

theorem Course.exists_opposite {st : Store} (h : Course st q line heading target) :
    ∃ opposite, line.terminal? heading.reversed = some opposite := by
  have hlt := Line.position?_lt h.target
  have hturn : line.outset heading < line.stations.length := by
    cases heading <;> simp only [Line.outset] <;> omega
  have houtset := line.getElem?_outset heading
  rw [List.getElem?_eq_getElem hturn] at houtset
  exact ⟨_, houtset.symm⟩

theorem Course.resolve (h : Course v.store q line heading target) :
    resolve (.seen v) q.station q.direction = pure (line, heading) := by
  have hne : ¬ (v.store.linesServing q.station).isEmpty := by
    rw [List.isEmpty_iff]
    exact List.ne_nil_of_mem (List.mem_of_find?_eq_some h.chosen)
  rw [resolve_seen, if_neg hne, h.chosen, Option.bind_some, h.heading]
  rfl

theorem bind_eq_error_iff {ε α β : Type} {x : Except ε (Option α)} {f : Option α → Except ε β}
    {e : ε} (hf : ∀ a, ∃ b, f (some a) = .ok b) :
    x >>= f = .error e ↔ x = .error e ∨ x = .ok none ∧ f none = .error e := by
  cases x with
  | error e' => simp [bind, Except.bind]
  | ok found =>
    cases found with
    | none => simp [bind, Except.bind]
    | some a =>
      obtain ⟨b, hb⟩ := hf a
      simp [bind, Except.bind, hb]

/-- On its course a query is in error if and only if one of the scans is, or both find nothing. -/
theorem Course.predictWith_eq_error_iff (h : Course v.store q line heading target)
    (hopposite : line.terminal? heading.reversed = some opposite) :
    predictWith (.seen v) presence now q.station q.direction = .error e ↔
      scanApproaching (.seen v) presence now line heading target q.direction = .error e ∨
      scanApproaching (.seen v) presence now line heading target q.direction = .ok none ∧
        (scanReversing (.seen v) presence now line heading target opposite = .error e ∨
          scanReversing (.seen v) presence now line heading target opposite = .ok none ∧
            e = .noVehicleLocated q.station q.direction) := by
  rw [predictWith, h.resolve, pure_bind]
  dsimp only
  rw [h.target]
  dsimp only
  rw [bind_eq_error_iff]
  · dsimp only
    rw [hopposite]
    dsimp only
    rw [bind_eq_error_iff]
    · refine or_congr_right (and_congr_right fun _ => or_congr_right (and_congr_right fun _ => ?_))
      constructor
      · intro hfault
        exact (Except.error.inj hfault).symm
      · rintro rfl
        rfl
    · exact fun c => ⟨_, rfl⟩
  · exact fun c => ⟨_, rfl⟩

/-- The way back from the turn goes by the connections that the first scan has gone by already. -/
theorem Passes.pathTime_eq {direction : StationId} {path : Int} {back : List Stop}
    (h : Passes v presence direction now path back) :
    pathTime (.seen v) back.reverse = .ok (legSeconds v back) := by
  have hleg := pathTime_cases (v := v) back.reverse
  rw [List.reverse_reverse] at hleg
  exact (hleg.resolve_right fun hbroken => hbroken.2 h.connected).1

theorem Turns.scanReversing_eq (h : Turns v presence now q line heading target opposite path) :
    scanReversing (.seen v) presence now line heading target opposite =
      Search.best <$> scan (.seen v) (observe presence opposite now) path .start
        (line.stopsAlong heading) := by
  rw [scanReversing, h.passes.pathTime_eq, h.path]
  rfl

theorem linesServing_isEmpty_iff {st : Store} {station : StationId} :
    (st.linesServing station).isEmpty = true ↔ ∀ l ∈ st.lines, station ∉ l.stations := by
  simp only [List.isEmpty_iff, List.eq_nil_iff_forall_not_mem, Store.mem_linesServing, not_and]

theorem predictWith_of_unserved (h : ∀ l ∈ v.store.lines, q.station ∉ l.stations) :
    predictWith (.seen v) presence now q.station q.direction =
      .error (.unknownStation q.station) := by
  rw [predictWith, resolve_seen, if_pos (linesServing_isEmpty_iff.mpr h)]
  rfl

theorem predictWith_of_undirected (hserved : ∃ l ∈ v.store.lines, q.station ∈ l.stations)
    (h : (v.store.linesServing q.station).find? (·.HasTerminal q.direction) = none) :
    predictWith (.seen v) presence now q.station q.direction =
      .error (.invalidDirection q.station q.direction) := by
  have hne : ¬ (v.store.linesServing q.station).isEmpty = true := by
    rw [linesServing_isEmpty_iff]
    push Not
    exact hserved
  rw [predictWith, resolve_seen, if_neg hne, h]
  rfl

theorem find?_hasTerminal_eq_none_iff {st : Store} :
    (st.linesServing q.station).find? (·.HasTerminal q.direction) = none ↔
      ∀ l ∈ st.lines, q.station ∈ l.stations → ¬ l.HasTerminal q.direction := by
  simp only [List.find?_eq_none, Store.mem_linesServing, decide_eq_true_eq, and_imp]

theorem Course.exists_turns (h : Course v.store q line heading target)
    (hpasses : Passes v presence q.direction now 0 (line.stopsBack target heading)) :
    ∃ opposite path, Turns v presence now q line heading target opposite path := by
  obtain ⟨opposite, hopposite⟩ := h.exists_opposite
  exact ⟨opposite, _, h, hpasses, hopposite, rfl⟩

theorem Fails.predictWith_eq (h : Fails v presence now q e) :
    predictWith (.seen v) presence now q.station q.direction = .error e := by
  cases h with
  | unserved h => exact predictWith_of_unserved h
  | undirected hserved h =>
    exact predictWith_of_undirected hserved (find?_hasTerminal_eq_none_iff.mpr h)
  | approaching hcourse hstumbles =>
    obtain ⟨opposite, hopposite⟩ := hcourse.exists_opposite
    refine (hcourse.predictWith_eq_error_iff hopposite).mpr (.inl ?_)
    exact scan_eq_error_iff.mpr ⟨_, rfl, hstumbles⟩
  | reversing hturns hstumbles =>
    refine (hturns.course.predictWith_eq_error_iff hturns.opposite).mpr (.inr ⟨?_, .inl ?_⟩)
    · exact scan_eq_none_iff.mpr hturns.passes
    · rw [hturns.scanReversing_eq]
      exact scan_eq_error_iff.mpr ⟨_, rfl, hstumbles⟩
  | unlocated hturns hpasses =>
    refine (hturns.course.predictWith_eq_error_iff hturns.opposite).mpr (.inr ⟨?_, .inr ⟨?_, rfl⟩⟩)
    · exact scan_eq_none_iff.mpr hturns.passes
    · rw [hturns.scanReversing_eq]
      exact scan_eq_none_iff.mpr hpasses

theorem Course.fails (h : Course v.store q line heading target)
    (herror : predictWith (.seen v) presence now q.station q.direction = .error e) :
    Fails v presence now q e := by
  obtain ⟨opposite, hopposite⟩ := h.exists_opposite
  obtain hfirst | ⟨hfirst, hsecond⟩ := (h.predictWith_eq_error_iff hopposite).mp herror
  · obtain ⟨k, rfl, hstumbles⟩ := scan_eq_error_iff.mp hfirst
    exact .approaching h hstumbles
  · have hpasses := scan_eq_none_iff.mp hfirst
    have hturns : Turns v presence now q line heading target opposite _ := ⟨h, hpasses, hopposite, rfl⟩
    rw [hturns.scanReversing_eq, scan_eq_error_iff, scan_eq_none_iff] at hsecond
    obtain ⟨k, rfl, hstumbles⟩ | ⟨hnothing, rfl⟩ := hsecond
    · exact .reversing hturns hstumbles
    · exact .unlocated hturns hnothing

theorem predictWith_eq_error_iff :
    predictWith (.seen v) presence now q.station q.direction = .error e ↔
      Fails v presence now q e := by
  refine ⟨fun herror => ?_, Fails.predictWith_eq⟩
  by_cases hserved : ∃ l ∈ v.store.lines, q.station ∈ l.stations
  case neg =>
    push Not at hserved
    rw [predictWith_of_unserved hserved] at herror
    cases herror
    exact .unserved hserved
  cases hfind : (v.store.linesServing q.station).find? (·.HasTerminal q.direction) with
  | none =>
    rw [predictWith_of_undirected hserved hfind] at herror
    cases herror
    exact .undirected hserved (find?_hasTerminal_eq_none_iff.mp hfind)
  | some line =>
    obtain ⟨heading, target, hcourse⟩ := exists_course hfind
    exact hcourse.fails herror

theorem exists_prediction_iff :
    (∃ p, predictWith (.seen v) presence now q.station q.direction = .ok p) ↔
      ∀ e, ¬ Fails v presence now q e := by
  simp only [← predictWith_eq_error_iff]
  cases predictWith (.seen v) presence now q.station q.direction with
  | ok p => exact iff_of_true ⟨p, rfl⟩ fun e => nofun
  | error e => exact iff_of_false nofun fun h => h e rfl

end Courses

end Prediction

namespace Access

variable {ε α β : Type}

/-- Where no commit is about to land, `x` does no more than remember. -/
def Recalls (x : Access ε α) : Prop := ∀ s : Source, s.overtaking = none → s.Recalls (s.run x).2

namespace Recalls

variable {x : Access ε α}

theorem pure (a : α) : Recalls (pure a : Access ε α) := fun s _ => .refl s

theorem throw (e : ε) : Recalls (throw e : Access ε α) := fun s _ => .refl s

theorem bind {f : α → Access ε β} (hx : Recalls x) (hf : ∀ a, Recalls (f a)) :
    Recalls (x >>= f) := by
  intro s hs
  have h := hx s hs
  rw [Source.run_bind]
  generalize s.run x = r at h ⊢
  obtain ⟨_ | a, s'⟩ := r
  · exact h
  · exact h.trans (hf a s' (h.overtaking.trans hs))

theorem read (call : Call) (f : Store → α) : Recalls (Access.read call f) := fun s _ =>
  (s.answers_read call f).recalls

theorem storeCall {x : Access StoreError α} (hx : Recalls x) : Recalls (Prediction.storeCall x) :=
  hx

end Recalls

theorem answers_connection? {s : Source} (hs : s.overtaking = none) (k : ConnectionKey) :
    s.Answers (connection? k) (s.answer .connection (s.store.connection? k)) :=
  ⟨_, Source.run_connection? hs k, s.recalls_call⟩

theorem recalls_travelSeconds (k : ConnectionKey) : Recalls (travelSeconds k) := by
  intro s hs
  have hget : s.run (getThe Source : Access StoreError Source) = (.ok s, s) := rfl
  rw [travelSeconds_eq, Source.run_bind_of_ok _ hget, travelSecondsFrom]
  cases s.memo.get? k with
  | some seconds => exact .refl s
  | none =>
    dsimp only
    obtain ⟨s', hrun, hs'⟩ := answers_connection? hs k
    cases hanswer : s.answer .connection (s.store.connection? k) with
    | error e =>
      rw [hanswer] at hrun
      rw [Source.run_bind_of_error _ hrun]
      exact hs'
    | ok found =>
      have hfound : s'.store.connection? k = found := by
        rw [Source.answer] at hanswer
        split at hanswer
        · cases hanswer
        · rw [hs'.store]
          exact Except.ok.inj hanswer
      rw [hanswer] at hrun
      rw [Source.run_bind_of_ok _ hrun, ← hfound]
      exact hs'.trans (s'.answers_rememberFound _ k).recalls

end Access

theorem Atlas.recalls_live :
    live.Related live (fun _ x _ => Access.Recalls x) (fun _ x _ => Access.Recalls x) where
  line? _ := (Access.Recalls.read _ _).storeCall
  linesServing _ := (Access.Recalls.read _ _).storeCall
  cost? k := (Access.recalls_travelSeconds k).storeCall
  pure := .pure
  throw e _ := .throw e
  bind := .bind
  first := .bind

theorem recalls_predict (presence : Presence) (now : Instant) (station direction : StationId) :
    Access.Recalls (predict presence now station direction) :=
  Atlas.recalls_live.predictWith presence now station direction

theorem Access.Makes.fst_eq_fail_iff {ε α : Type} {store : Store} {fail : StoreError → ε}
    {x : Access ε α} {memo memo' : Memo} {calls : List Call} {y : Except ε α}
    (h : Access.Makes store fail x memo calls y memo') (hfail : fail.Injective)
    (hown : ∀ e, y ≠ .error (fail e)) (outage : Outage) (n : Nat) (e : StoreError) :
    (Source.run ⟨store, memo, outage, n, none⟩ x).1 = .error (fail e) ↔
      ∃ m, outage.first? n calls = some (m, e) := by
  cases hfirst : outage.first? n calls with
  | none =>
    rw [h.through outage n hfirst]
    exact iff_of_false (hown e) (by simp)
  | some failure =>
    obtain ⟨m, e'⟩ := failure
    obtain ⟨memo'', hrun⟩ := h.failed outage n m e' hfirst
    rw [hrun]
    simp [hfail.eq_iff]

theorem View.cost?_of_eq_none_iff {store : Store} {memo : Memo} {k : ConnectionKey} :
    (of store memo).cost? k = none ↔ memo.get? k = none ∧ store.connection? k = none := by
  rw [of, Option.or_eq_none_iff, Store.cost?, Option.map_eq_none_iff]

theorem Source.Filled.cost?_eq_none {s : Source} (hs : s.Filled) {k : ConnectionKey}
    (h : s.store.connection? k = none) : (View.of s.store s.memo).cost? k = none := by
  refine View.cost?_of_eq_none_iff.mpr ⟨?_, h⟩
  by_contra hmemo
  have hhas := hs k (Option.isSome_iff_ne_none.mpr hmemo)
  rw [Store.Has, h] at hhas
  cases hhas

open Prediction

/-- The service with calls that may fail, and no commit about to land. -/
def Service.underOutage (s : Service) (outage : Outage) (n : Nat) : Service :=
  { s with source := ⟨s.store, s.memo, outage, n, none⟩ }

/-- A query makes the same calls whichever of them fail; if one does, its error is the answer. Otherwise the
query is in error just for what `Fails` lists, and there is a prediction where nothing of that is the case.
Once the first scan has found nothing, the way back from the turn never lacks a connection. Nothing changes
but the memo, which keeps all that it has. -/
theorem Service.predict_fails (s : Service) (q : Sight) :
    let v := View.of s.store s.memo
    (∃ calls : List Call, ∀ (outage : Outage) (n : Nat),
      let before := s.underOutage outage n
      let answer := (before.predict q).1
      let after := (before.predict q).2
      (∀ e, answer = .error (.store e) ↔ ∃ m, outage.first? n calls = some (m, e)) ∧
      (outage.first? n calls = none → after.source.calls = n + calls.length ∧
        (∀ e, answer = .error e ↔ Fails v s.presence s.now q e) ∧
        ((∃ p, answer = .ok p) ↔ ∀ e, ¬ Fails v s.presence s.now q e)) ∧
      after = { before with source := after.source } ∧ before.source.Recalls after.source) ∧
    (∀ line heading target, Course s.store q line heading target →
      Passes v s.presence q.direction s.now 0 (line.stopsBack target heading) →
      (∃ opposite path, Turns v s.presence s.now q line heading target opposite path) ∧
        pathTime (.seen v) (line.stopsBack target heading).reverse =
          .ok (legSeconds v (line.stopsBack target heading))) ∧
    ∀ k, (v.cost? k = none → s.store.connection? k = none) ∧
      (s.source.Filled → s.store.connection? k = none → v.cost? k = none) := by
  intro v
  refine ⟨?_, ?_, fun k => ⟨?_, fun hfilled => hfilled.cost?_eq_none⟩⟩
  · have hobeys := obeys_predict v s.presence s.now q.station q.direction
    obtain ⟨calls, memo', -, hmakes⟩ := hobeys.makes s.memo rfl
    refine ⟨calls, fun outage n => ?_⟩
    intro before answer after
    refine ⟨?_, fun hnone => ?_, rfl, ?_⟩
    · exact hmakes.fst_eq_fail_iff (fun _ _ => PredictionError.store.inj) hobeys.own outage n
    · have hrun := hmakes.through outage n hnone
      have hanswer : answer = predictWith (.seen v) s.presence s.now q.station q.direction :=
        congrArg Prod.fst hrun
      have hcalls : after.source.calls = n + calls.length := congrArg (fun r => r.2.calls) hrun
      rw [hanswer]
      exact ⟨hcalls, fun e => predictWith_eq_error_iff, exists_prediction_iff⟩
    · exact recalls_predict s.presence s.now q.station q.direction before.source rfl
  · exact fun line heading target hcourse hpasses => ⟨hcourse.exists_turns hpasses, hpasses.pathTime_eq⟩
  · exact fun h => (View.cost?_of_eq_none_iff.mp h).2

/-- The coast ten seconds after vehicles were seen at these places. -/
def coastService (sights : List Sight) : Service :=
  sights.foldl (fun s k => s.observe k ⟨0⟩)
    (.start ⟨⟨1, ⟨0⟩, ⟨0⟩, 9⟩, .ofSeconds 90, [], ⟨"live", "dev"⟩⟩ ⟨10000000000⟩ coastStore)

/-- Nothing leads from `b` to `c` on the coast line. A query towards `c` misses it at once, and one towards
`a` not before the second scan. One at `b` towards `c` can do without it, and has a prediction as soon as
there was a vehicle to see before the turn at `a`. -/
theorem Service.predict_fails_coast :
    let s := coastService []
    (s.predict ⟨"c", "c"⟩).1 = .error (.missingConnection ⟨"b", "c"⟩) ∧
      (s.predict ⟨"b", "a"⟩).1 = .error (.missingConnection ⟨"b", "c"⟩) ∧
      (s.predict ⟨"b", "c"⟩).1 = .error (.noVehicleLocated "b" "c") ∧
      let t := coastService [⟨"c", "a"⟩]
      (t.predict ⟨"b", "c"⟩).1 = .ok ⟨coast, "b", "c", ⟨2, "c"⟩, "a", ⟨0⟩, true, 351, 10⟩ ∧
        ∀ e, ¬ Fails (View.of t.store t.memo) t.presence t.now ⟨"b", "c"⟩ e := by
  intro s
  have hdecides (s : Service) (q : Sight) (hs : s.underOutage .never 0 = s) :
      (∀ e, (s.predict q).1 = .error e ↔ Fails (View.of s.store s.memo) s.presence s.now q e) ∧
        ((∃ p, (s.predict q).1 = .ok p) ↔
          ∀ e, ¬ Fails (View.of s.store s.memo) s.presence s.now q e) := by
    obtain ⟨⟨calls, hquery⟩, -⟩ := s.predict_fails q
    obtain ⟨-, hanswers, -⟩ := hquery .never 0
    rw [hs] at hanswers
    exact (hanswers (Outage.first?_of_none (fun _ _ _ => rfl) calls)).2
  have hup : Passes (View.of s.store s.memo) s.presence "c" s.now 0 (coast.stopsBack 1 .up) :=
    ⟨connected_iff.mpr rfl, rfl⟩
  have hdown : Passes (View.of s.store s.memo) s.presence "a" s.now 0 (coast.stopsBack 1 .down) :=
    ⟨connected_iff.mpr rfl, rfl⟩
  refine ⟨?_, ?_, ?_, ?_⟩
  · have hcourse : Course s.store ⟨"c", "c"⟩ coast .up 2 := ⟨rfl, rfl, rfl⟩
    exact ((hdecides s ⟨"c", "c"⟩ rfl).1 _).mpr (.approaching hcourse ⟨rfl, by decide⟩)
  · refine ((hdecides s ⟨"b", "a"⟩ rfl).1 _).mpr (.reversing ⟨⟨rfl, rfl, rfl⟩, hdown, rfl, rfl⟩ ?_)
    exact ⟨rfl, by decide⟩
  · refine ((hdecides s ⟨"b", "c"⟩ rfl).1 _).mpr (.unlocated ⟨⟨rfl, rfl, rfl⟩, hup, rfl, rfl⟩ ?_)
    exact ⟨connected_iff.mpr rfl, rfl⟩
  · intro t
    have hfound : (t.predict ⟨"b", "c"⟩).1 =
        .ok ⟨coast, "b", "c", ⟨2, "c"⟩, "a", ⟨0⟩, true, 351, 10⟩ := rfl
    exact ⟨hfound, (hdecides t ⟨"b", "c"⟩ rfl).2.mp ⟨_, hfound⟩⟩

end Arrivals
