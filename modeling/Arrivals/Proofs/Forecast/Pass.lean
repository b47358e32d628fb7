import Arrivals.Proofs.Activity.Markers
import Arrivals.Proofs.Forecast.Walk

/-! A whole pass. Main statement: it files what is predicted for every stop of every line, each as if
nothing else had been asked, and drops what has run out; the first call that fails ends it, and what was
filed by then stays. -/

namespace Arrivals

namespace Forecast

variable {presence : Presence} {now : Instant}

/-- The direction is an end of a line that stops there. -/
def Asked (lines : List Line) (q : Sight) : Prop :=
  ∃ l ∈ lines, q.station ∈ l.stations ∧ (l.first? = some q.direction ∨ l.last? = some q.direction)

theorem mem_walk_iff {lines : List Line} {q : Sight} : q ∈ lines.flatMap queries ↔ Asked lines q := by
  obtain ⟨station, direction⟩ := q
  rw [List.mem_flatMap, Asked]
  refine exists_congr fun l => and_congr_right fun _ => ?_
  simp only [queries, List.mem_flatMap, List.mem_map, List.mem_append, Option.mem_toList,
    Sight.mk.injEq]
  constructor
  · rintro ⟨s, hs, d, hd, rfl, rfl⟩
    exact ⟨hs, hd⟩
  · rintro ⟨hs, hd⟩
    exact ⟨station, hs, direction, hd, rfl, rfl⟩

theorem length_queries (l : Line) : (queries l).length = 2 * l.stations.length := by
  rw [queries, Line.first?, Line.last?]
  cases l.stations with
  | nil => rfl
  | cons s rest =>
    simp [List.length_flatMap, List.getLast?_cons]
    omega

theorem length_walk (lines : List Line) :
    (lines.flatMap queries).length = 2 * (lines.flatMap Line.stations).length := by
  induction lines with
  | nil => rfl
  | cons l rest ih =>
    rw [List.flatMap_cons, List.length_append, ih, length_queries, List.flatMap_cons,
      List.length_append, Nat.mul_add]

/-- The part of a pass that is done before a call fails. -/
def covered (presence : Presence) (now : Instant) (source : Source) : List Sight :=
  match source.run Access.lines with
  | (.error _, _) => []
  | (.ok lines, source) => completed presence now source (lines.flatMap queries)

/-- How a pass ends after its walk. -/
def conclude (now : Instant) (activity : Activity) : Option StoreError × Progress → Outcome
  | (some e, p) => ⟨.error e, p.source, p.board, activity⟩
  | (none, p) =>
    ⟨.ok ⟨p.predictions, p.softFailures, p.board.expiredCount now,
        activity.tracked - (activity.sweep now).tracked⟩,
      p.source, p.board.sweep now, activity.sweep now⟩

theorem pass_of_lines {source rest : Source} {lines : List Line}
    (h : source.run Access.lines = (.ok lines, rest)) (presence : Presence) (now : Instant)
    (validity : Span) (board : Board) (activity : Activity) :
    pass presence now validity source board activity = conclude now activity
      (predictAll presence now validity ⟨rest, board, 0, 0⟩ (lines.flatMap queries)) := by
  rw [pass, h]
  rfl

theorem source_conclude (now : Instant) (activity : Activity) (out : Option StoreError × Progress) :
    (conclude now activity out).source = out.2.source := by
  obtain ⟨_ | e, p⟩ := out
  · rfl
  · rfl

theorem conclude_with_source (now : Instant) (activity : Activity) (error? : Option StoreError)
    (p : Progress) (source : Source) :
    conclude now activity (error?, { p with source }) =
      { conclude now activity (error?, p) with source } := by
  cases error? with
  | none => rfl
  | some e => rfl

theorem predictions_of_conclude {activity : Activity} {out : Option StoreError × Progress}
    {report : Report} (h : (conclude now activity out).result = .ok report) :
    report.predictions = out.2.predictions := by
  obtain ⟨_ | e, p⟩ := out
  · cases h
    rfl
  · cases h

/-- The predictions of a pass. -/
def found (presence : Presence) (now : Instant) (source : Source) : List Prediction :=
  match source.run Access.lines with
  | (.error _, _) => []
  | (.ok lines, source) => foundAlong presence now source (lines.flatMap queries)

/-- What comes of a pass along a walk, where this is the first failure, if there is one, and this part of
the walk is done by then. -/
structure Passed (ask : Sight → Except PredictionError Prediction) (now : Instant) (validity : Span)
    (board : Board) (activity : Activity) (failure? : Option (Nat × StoreError))
    (walk done : List Sight) (o : Outcome) : Prop where
  error : ∀ e, o.result = .error e ↔ ∃ m, failure? = some (m, e)
  stopped : ∀ e, o.result = .error e →
    o.board = done.foldl (fill ask now validity) board ∧ o.activity = activity
  through : ∀ report, o.result = .ok report → done = walk ∧
    o.board = (done.foldl (fill ask now validity) board).sweep now ∧
    o.activity = activity.sweep now ∧ report.predictions + report.softFailures = done.length

theorem Passed.exists_report {ask : Sight → Except PredictionError Prediction} {validity : Span}
    {board : Board} {activity : Activity} {walk done : List Sight} {o : Outcome}
    (h : Passed ask now validity board activity none walk done o) :
    ∃ report, o.result = .ok report := by
  cases hresult : o.result with
  | ok report => exact ⟨report, rfl⟩
  | error e =>
    obtain ⟨m, hm⟩ := (h.error e).mp hresult
    cases hm

theorem Walked.passed {source rest : Source} {lines : List Line} {calls : List Call}
    {ask : Sight → Except PredictionError Prediction} {validity : Span} {board : Board}
    (hlines : source.run Access.lines = (.ok lines, rest))
    (h : Walked ask presence now validity ⟨rest, board, 0, 0⟩ calls (lines.flatMap queries)
      (predictAll presence now validity ⟨rest, board, 0, 0⟩ (lines.flatMap queries)))
    (activity : Activity) :
    Passed ask now validity board activity (rest.outage.first? rest.calls calls)
      (lines.flatMap queries) (covered presence now source)
      (pass presence now validity source board activity) := by
  rw [pass, covered, hlines]
  dsimp only
  generalize predictAll presence now validity ⟨rest, board, 0, 0⟩ (lines.flatMap queries) = out
    at h ⊢
  obtain ⟨error?, p⟩ := out
  have herror := h.error
  have hcounted := h.counted
  dsimp only at herror hcounted
  cases error? with
  | none =>
    rw [eq_comm, Option.map_eq_none_iff] at herror
    refine ⟨fun e => by simp [herror], nofun, fun report hreport => ?_⟩
    cases hreport
    exact ⟨h.whole rfl, congrArg (Board.sweep · now) h.board, rfl, by simpa using hcounted⟩
  | some e =>
    obtain ⟨⟨m, e'⟩, hfirst, rfl⟩ := Option.map_eq_some_iff.mp herror.symm
    exact ⟨fun e => by simp [hfirst], fun _ _ => ⟨h.board, rfl⟩, nofun⟩

/-- Whichever calls fail, a pass makes the same ones, up to the first that does. -/
theorem exists_passed (store : Store) (memo : Memo) (presence : Presence) (now : Instant) :
    ∃ calls, ∀ (outage : Outage) (n : Nat) (validity : Span) (board : Board) (activity : Activity),
      let source : Source := ⟨store, memo, outage, n, none⟩
      Passed (foretold (.of store memo) presence now) now validity board activity
        (outage.first? n calls) (store.lines.flatMap queries) (covered presence now source)
        (pass presence now validity source board activity) := by
  have hlines : Access.Makes store id Access.lines memo [.lines] (.ok store.lines) memo :=
    .read .lines Store.lines
  obtain ⟨others, hwalked⟩ :=
    @exists_walked (.of store memo) presence now (store.lines.flatMap queries) memo rfl
  refine ⟨[.lines] ++ others, fun outage n validity board activity => ?_⟩
  intro source
  rw [Outage.first?_append]
  cases hfirst : outage.first? n [.lines] with
  | none =>
    rw [Option.none_or]
    exact (hwalked validity outage _ board 0 0).passed (hlines.through outage n hfirst) activity
  | some failure =>
    obtain ⟨m, e⟩ := failure
    obtain ⟨memo', hrun⟩ := hlines.failed outage n m e hfirst
    rw [pass, covered, hrun]
    exact ⟨fun e' => by simp, fun _ _ => ⟨rfl, rfl⟩, nofun⟩

/-- A pass comes through while no call fails. Every stop of a line then has, in the direction of each end,
what would have been predicted for it on its own; what else was live is as it was, what had run out is
gone, and the report counts every query. Otherwise the pass answers with the error of the first call that
fails, and the board has just what the queries before it were answered with. -/
theorem pass_fills_board (store : Store) (memo : Memo) (presence : Presence) (now : Instant) :
    let ask (q : Sight) :=
      (Source.run ⟨store, memo, .never, 0, none⟩ (predict presence now q.station q.direction)).1
    ∃ calls, ∀ (outage : Outage) (n : Nat) (validity : Span) (board : Board) (activity : Activity),
      let source : Source := ⟨store, memo, outage, n, none⟩
      let o := pass presence now validity source board activity
      (source.Steady → ∃ report, o.result = .ok report) ∧
      (∀ report, o.result = .ok report →
        Filled ask now validity (Asked store.lines) (board.sweep now) o.board ∧
        (∀ slot l, o.board.lease? slot = some l → now < l.expires) ∧
        Activity.Swept activity.lines o.activity.lines now ∧
        Activity.Swept activity.networks o.activity.networks now ∧
        report.predictions + report.softFailures = 2 * (store.lines.flatMap Line.stations).length) ∧
      (∀ e, o.result = .error e ↔ ∃ m, outage.first? n calls = some (m, e)) ∧
      ∀ e, o.result = .error e →
        Filled ask now validity (· ∈ covered presence now source) board o.board ∧
        o.activity = activity := by
  intro ask
  have hask (q : Sight) : ask q = foretold (.of store memo) presence now q :=
    fst_run_predict_never store memo presence now q
  obtain ⟨calls, hcalls⟩ := exists_passed store memo presence now
  refine ⟨calls, fun outage n validity board activity => ?_⟩
  intro source o
  have hpassed := hcalls outage n validity board activity
  refine ⟨fun hsteady => ?_, fun report hok => ?_, hpassed.error, fun e herror => ?_⟩
  · have hnone : outage.first? n calls = none := hsteady.first? calls
    rw [hnone] at hpassed
    exact hpassed.exists_report
  · obtain ⟨hdone, hboard, hactivity, hcounted⟩ := hpassed.through report hok
    rw [hdone] at hboard hcounted
    refine ⟨?_, fun slot l hl => ?_, ?_, ?_, hcounted.trans (length_walk _)⟩
    · rw [hboard]
      exact ((filled_foldl (fun _ _ => asked_foretold) board _).sweep.congr hask fun q => mem_walk_iff.symm)
    · rw [hboard, Board.lease?_sweep, Option.filter_eq_some_iff] at hl
      exact of_decide_eq_true hl.2
    · rw [hactivity]
      exact Activity.swept_sweepMarkers _ now
    · rw [hactivity]
      exact Activity.swept_sweepMarkers _ now
  · obtain ⟨hboard, hactivity⟩ := hpassed.stopped e herror
    rw [hboard]
    exact ⟨(filled_foldl (fun _ _ => asked_foretold) board _).congr hask fun _ => Iff.rfl, hactivity⟩

def ferry : Line := ⟨"ferry", "Ferry", "n", ["a", "b"], 2⟩

def ferryStore : Store :=
  { (default : Store).saveConnection ⟨"a", "b", "ferry", 60, 0, 0⟩ with lines := [ferry] }

def ferrySeen : Presence := Presence.empty.register ⟨"a", "b"⟩ ⟨0⟩

/-- Lines can be read, and nothing after them. -/
def dark : Outage := fun n _ => if n = 0 then none else some (.storage "dark")

theorem pass_fills_board_ferry :
    let o (outage : Outage) :=
      pass ferrySeen ⟨0⟩ (.ofSeconds 90) ⟨ferryStore, .empty, outage, 0, none⟩ .empty .empty
    (∃ report, (o .never).result = .ok report ∧ report.predictions + report.softFailures = 4) ∧
      (∃ l, (o .never).board.lease? ⟨"b", "b", 1⟩ = some l ∧ l.value.estimate = .exact 60 ∧
        l.value.cars = 2) ∧
      (o dark).result = .error (.storage "dark") ∧
      ∀ slot, (o dark).board.lease? slot = Board.empty.lease? slot := by
  intro o
  obtain ⟨calls, hpass⟩ := pass_fills_board ferryStore .empty ferrySeen ⟨0⟩
  obtain ⟨hsucceeds, hok, -, -⟩ := hpass .never 0 (.ofSeconds 90) .empty .empty
  obtain ⟨report, hreport⟩ := hsucceeds fun _ _ _ => rfl
  obtain ⟨hfilled, -, -, -, hcount⟩ := hok report hreport
  have hdark : (o dark).result = .error (.storage "dark") := rfl
  obtain ⟨hkept, -⟩ := (hpass dark 0 (.ofSeconds 90) .empty .empty).2.2.2 _ hdark
  have hentered := hfilled.entered ⟨"b", "b"⟩
    ⟨ferry, "b", "b", ⟨0, "a"⟩, "b", ⟨0⟩, false, 60, 0⟩
    ⟨ferry, List.mem_singleton_self ferry, by decide, .inr rfl⟩ rfl (by decide)
  exact ⟨⟨report, hreport, hcount⟩, ⟨_, hentered, rfl, rfl⟩, hdark, fun slot => hkept.kept slot nofun⟩

end Forecast

end Arrivals
