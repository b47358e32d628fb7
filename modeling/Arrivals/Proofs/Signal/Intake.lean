import Arrivals.Proofs.Access
import Arrivals.Proofs.Activity.Tracking
import Arrivals.Service

/-! What becomes of riders' reports. Main statement: whether there is such a station as the one a report
names is not asked, so a report from nowhere is taken in like any other, and a report in error changes
nothing. -/

namespace Arrivals

namespace Store

/-- No station goes by that id, and no line stops there. -/
structure Unknown (st : Store) (station : StationId) : Prop where
  unlisted : ∀ s ∈ st.stations, s.id ≠ station
  unserved : ∀ l ∈ st.lines, station ∉ l.stations

instance (st : Store) (station : StationId) : Decidable (st.Unknown station) :=
  decidable_of_iff ((∀ s ∈ st.stations, s.id ≠ station) ∧ ∀ l ∈ st.lines, station ∉ l.stations)
    ⟨fun h => ⟨h.1, h.2⟩, fun h => ⟨h.1, h.2⟩⟩

variable {st : Store} {station : StationId}

theorem Unknown.linesServing_eq (h : st.Unknown station) : st.linesServing station = [] := by
  refine List.flatMap_eq_nil_iff.mpr fun l hl => ?_
  rw [List.map_eq_nil_iff, List.filter_eq_nil_iff]
  intro t ht he
  exact h.unserved l hl (of_decide_eq_true he ▸ ht)

/-- The line of that id, which a report must not name if there is none. -/
def named (st : Store) (id : LineId) : Except StoreError Line :=
  match st.line? id with
  | some l => .ok l
  | none => .error (.lineNotFound id)

/-- The first that is no line is the one complained of. -/
theorem mapM_named (st : Store) (ids : List LineId) :
    ids.mapM st.named =
      match ids.find? fun id => (st.line? id).isNone with
      | some id => .error (.lineNotFound id)
      | none => .ok (ids.filterMap st.line?) := by
  induction ids with
  | nil => rfl
  | cons id rest ih =>
    rw [List.mapM_cons, ih, named, List.find?_cons, List.filterMap_cons]
    cases st.line? id with
    | none => rfl
    | some l => cases rest.find? fun id => (st.line? id).isNone <;> rfl

theorem mapM_named_eq_ok_iff {ids : List LineId} {lines : List Line} :
    ids.mapM st.named = .ok lines ↔
      (∀ id ∈ ids, (st.line? id).isSome = true) ∧ lines = ids.filterMap st.line? := by
  rw [mapM_named]
  cases hfind : ids.find? fun id => (st.line? id).isNone with
  | none =>
    have hknown : ∀ id ∈ ids, (st.line? id).isSome = true := by
      simpa [Option.isSome_iff_ne_none] using hfind
    exact ⟨fun h => ⟨hknown, (Except.ok.inj h).symm⟩, fun h => congrArg _ h.2.symm⟩
  | some id =>
    have hnone := List.find?_some hfind
    refine ⟨nofun, fun h => ?_⟩
    rw [Option.isNone_iff_eq_none] at hnone
    have hsome := h.1 id (List.mem_of_find?_eq_some hfind)
    rw [hnone] at hsome
    cases hsome

theorem id_of_line? {id : LineId} {l : Line} (h : st.line? id = some l) : l.id = id := by
  simpa using List.find?_some h

theorem map_id_filterMap_line? {ids : List LineId}
    (h : ∀ id ∈ ids, (st.line? id).isSome = true) : (ids.filterMap st.line?).map Line.id = ids := by
  rw [List.map_filterMap]
  refine (List.filterMap_congr fun id hid => ?_).trans List.filterMap_some
  obtain ⟨l, hl⟩ := Option.isSome_iff_exists.mp (h id hid)
  rw [hl, Option.map_some, id_of_line? hl]

end Store

namespace Signal

open Access

variable (s : Signal) (st : Store)

/-- The lines that a report stands for. -/
def found : Except StoreError (List Line) :=
  if s.lines.isEmpty then
    .ok ((st.linesServing s.station).filter fun l => (l.headingTowards? s.direction).isSome)
  else s.lines.mapM st.named

theorem finds_namedLine (id : LineId) : Finds st (st.named id) (namedLine id) := by
  refine .read_bind .line (·.line? id) ?_
  rw [Store.named]
  cases st.line? id with
  | none => exact .throw _
  | some l => exact .pure l

theorem finds_namedLines (ids : List LineId) : Finds st (ids.mapM st.named) (namedLines ids) := by
  induction ids with
  | nil => exact .pure []
  | cons id rest ih =>
    rw [List.mapM_cons]
    exact .bind (finds_namedLine st id) fun l _ => .bind ih fun ls _ => .pure (l :: ls)

theorem finds_resolve : Finds st (s.found st) s.resolve := by
  rw [found, resolve]
  split
  · exact .read_bind .linesServing (·.linesServing s.station) (.pure _)
  · exact finds_namedLines st s.lines

theorem found_eq_error {s : Signal} {st : Store} {e : StoreError} (h : s.found st = .error e) :
    ∃ id, e = .lineNotFound id := by
  rw [found, Store.mapM_named] at h
  split at h
  · cases h
  · split at h
    next id _ => exact ⟨id, (Except.error.inj h).symm⟩
    next => cases h

theorem found_eq_ok_of_unknown {s : Signal} {st : Store} (h : st.Unknown s.station)
    {lines : List Line} :
    s.found st = .ok lines ↔
      (∀ id ∈ s.lines, (st.line? id).isSome = true) ∧ lines = s.lines.filterMap st.line? := by
  have hnamed : s.found st = s.lines.mapM st.named := by
    rw [found, h.linesServing_eq]
    cases s.lines <;> rfl
  rw [hnamed, Store.mapM_named_eq_ok_iff]

variable (limits : ActivityLimits) (now : Instant) (r : Reports)

/-- What a report comes to if no call fails. -/
def outcome : Except SignalError Reports :=
  match s.found st with
  | .error e => .error (.store e)
  | .ok lines =>
    match r.activity.register limits now lines s.user s.justEntered with
    | .error refusal => .error (.refused refusal)
    | .ok activity => .ok ⟨r.presence.register ⟨s.station, s.direction⟩ now, activity⟩

theorem outcome_eq_ok_iff {s : Signal} {st : Store} {limits : ActivityLimits} {now : Instant}
    {r after : Reports} :
    s.outcome st limits now r = .ok after ↔
      after.presence = r.presence.register ⟨s.station, s.direction⟩ now ∧
      ∃ lines, s.found st = .ok lines ∧
        r.activity.register limits now lines s.user s.justEntered = .ok after.activity := by
  rw [outcome]
  cases s.found st with
  | error e => simp
  | ok lines =>
    cases hregister : r.activity.register limits now lines s.user s.justEntered with
    | error refusal => simp [hregister]
    | ok activity =>
      obtain ⟨presence, activity'⟩ := after
      simp [hregister, eq_comm]

theorem outcome_ok_iff_of_unknown {s : Signal} {st : Store} (h : st.Unknown s.station)
    {limits : ActivityLimits} {now : Instant} {r : Reports} :
    (∃ after, s.outcome st limits now r = .ok after) ↔
      (∀ id ∈ s.lines, (st.line? id).isSome = true) ∧
      ∃ activity, r.activity.register limits now (s.lines.filterMap st.line?) s.user s.justEntered =
        .ok activity := by
  simp only [outcome_eq_ok_iff, found_eq_ok_of_unknown h]
  constructor
  · rintro ⟨after, -, lines, ⟨hknown, rfl⟩, hregister⟩
    exact ⟨hknown, after.activity, hregister⟩
  · rintro ⟨hknown, activity, hregister⟩
    exact ⟨⟨_, activity⟩, rfl, _, ⟨hknown, rfl⟩, hregister⟩

theorem outcome_ne_stationNotFound {s : Signal} {st : Store} {limits : ActivityLimits}
    {now : Instant} {r : Reports} (id : StationId) :
    s.outcome st limits now r ≠ .error (.store (.stationNotFound id)) := by
  intro h
  rw [outcome] at h
  split at h
  next e hfound =>
    obtain ⟨line, rfl⟩ := found_eq_error hfound
    cases h
  next lines _ =>
    split at h <;> cases h

/-- How a report is taken in that stands for some lines. -/
structure Recorded (lines : List Line) (after : Reports) : Prop where
  presence : after.presence = r.presence.register ⟨s.station, s.direction⟩ now
  onLines : ∀ later id user, Activity.Marked after.activity.lines later id user ↔
    if user = s.user then
      id ∈ lines.map Line.id ∧ later < now.after (Activity.ttlFor limits lines s.justEntered)
    else Activity.Marked r.activity.lines later id user
  onNetworks : ∀ later id user, Activity.Marked after.activity.networks later id user ↔
    if user = s.user then
      id ∈ lines.map Line.network ∧ later < now.after (Activity.ttlFor limits lines s.justEntered)
    else Activity.Marked r.activity.networks later id user

theorem recorded_of_outcome {s : Signal} {st : Store} {limits : ActivityLimits} {now : Instant}
    {r after : Reports} (h : s.outcome st limits now r = .ok after) :
    ∃ lines, s.found st = .ok lines ∧ s.Recorded limits now r lines after := by
  obtain ⟨hpresence, lines, hfound, hregister⟩ := outcome_eq_ok_iff.mp h
  refine ⟨lines, hfound, hpresence, fun later id user => ?_, fun later id user => ?_⟩
  · rw [Activity.register_eq_ok hregister, Activity.marked_markOnly]
  · rw [Activity.register_eq_ok hregister, Activity.marked_markOnly]

theorem run_report (src : Source) :
    ∃ n, src.calls ≤ n ∧
      (src.run (s.report limits now r) =
          (s.outcome src.store limits now r, { src with calls := n }) ∨
        ∃ m call e, src.calls ≤ m ∧ src.outage m call = some e ∧
          src.run (s.report limits now r) = (.error (.store e), { src with calls := n })) := by
  have hadapt : src.run (ExceptT.adapt SignalError.store s.resolve) =
      ((src.run s.resolve).1.mapError SignalError.store, (src.run s.resolve).2) := rfl
  obtain ⟨n, hn, hrun | ⟨m, call, e, hm, he, hrun⟩⟩ := finds_resolve s src.store src rfl
  · refine ⟨n, hn, .inl ?_⟩
    rw [report, Source.run_bind, hadapt, hrun, outcome]
    cases s.found src.store with
    | error e => rfl
    | ok lines =>
      dsimp only [Except.mapError]
      cases r.activity.register limits now lines s.user s.justEntered <;> rfl
  · refine ⟨n, hn, .inr ⟨m, call, e, hm, he, ?_⟩⟩
    rw [report, Source.run_bind, hadapt, hrun]
    rfl

end Signal

namespace Service

open Activity

theorem signal_cases (s : Service) (x : Signal) :
    ∃ n, s.source.calls ≤ n ∧
      ((∃ reports, x.outcome s.store s.settings.limits s.now s.reports = .ok reports ∧
          s.signal x = (.ok ⟨⟩, { s with source.calls := n, reports })) ∨
        ∃ e, (x.outcome s.store s.settings.limits s.now s.reports = .error e ∨
            ∃ m call failure, s.source.calls ≤ m ∧ s.source.outage m call = some failure ∧
              e = .store failure) ∧
          s.signal x = (.error e, { s with source.calls := n })) := by
  obtain ⟨n, hn, hrun | ⟨m, call, e, hm, he, hrun⟩⟩ :=
    x.run_report s.settings.limits s.now s.reports s.source
  · refine ⟨n, hn, ?_⟩
    rw [signal, ask, hrun, store]
    cases houtcome : x.outcome s.source.store s.settings.limits s.now s.reports with
    | error e => exact .inr ⟨e, .inl rfl, rfl⟩
    | ok reports => exact .inl ⟨reports, rfl, rfl⟩
  · refine ⟨n, hn, .inr ⟨.store e, .inr ⟨m, call, e, hm, he, rfl⟩, ?_⟩⟩
    rw [signal, ask, hrun]

variable {s : Service} {x : Signal}

theorem reports_of_signal_error {e : SignalError} (h : (s.signal x).1 = .error e) :
    (s.signal x).2.reports = s.reports := by
  obtain ⟨n, -, ⟨reports, -, hsignal⟩ | ⟨e', -, hsignal⟩⟩ := s.signal_cases x
  · rw [hsignal] at h
    cases h
  · rw [hsignal]

/-- No report is ever told that there is no such station, unless the store says so of itself. -/
theorem outage_of_stationNotFound {id : StationId}
    (h : (s.signal x).1 = .error (.store (.stationNotFound id))) :
    ∃ n call, s.source.calls ≤ n ∧ s.source.outage n call = some (.stationNotFound id) := by
  obtain ⟨_, -, ⟨reports, -, hsignal⟩ | ⟨e, hfault, hsignal⟩⟩ := s.signal_cases x
  · rw [hsignal] at h
    cases h
  rw [hsignal] at h
  obtain houtcome | ⟨n, call, failure, hn, hfails, he⟩ := hfault
  · rw [Except.error.inj h] at houtcome
    exact absurd houtcome (Signal.outcome_ne_stationNotFound id)
  · rw [he] at h
    cases h
    exact ⟨n, call, hn, hfails⟩

theorem signal_ok_iff (hsteady : s.source.Steady) :
    (s.signal x).1 = .ok ⟨⟩ ↔
      ∃ after, x.outcome s.store s.settings.limits s.now s.reports = .ok after := by
  obtain ⟨_, -, ⟨reports, houtcome, hsignal⟩ | ⟨e, hfault, hsignal⟩⟩ := s.signal_cases x
  · rw [hsignal, houtcome]
    exact ⟨fun _ => ⟨reports, rfl⟩, fun _ => rfl⟩
  obtain houtcome | ⟨n, call, failure, hn, hfails, -⟩ := hfault
  · rw [hsignal, houtcome]
    exact ⟨nofun, nofun⟩
  · rw [hsteady n call hn] at hfails
    cases hfails

theorem outcome_of_signal_ok (h : (s.signal x).1 = .ok ⟨⟩) :
    x.outcome s.store s.settings.limits s.now s.reports = .ok (s.signal x).2.reports := by
  obtain ⟨_, -, ⟨reports, houtcome, hsignal⟩ | ⟨e, -, hsignal⟩⟩ := s.signal_cases x
  · rw [hsignal, houtcome]
  · rw [hsignal] at h
    cases h

/-- A report from a station that there is none of is taken in if and only if every line that it names is
there and its user is not one id too many. It is recorded as if the station were there, with its user
marked just under the lines that it names: nowhere at all if it names none. If it is refused nothing is
recorded, but the station is never what it is refused for. -/
theorem signal_ignores_station (s : Service) (x : Signal) (h : s.store.Unknown x.station) :
    let answer := (s.signal x).1
    let after := (s.signal x).2
    let lines := x.lines.filterMap s.store.line?
    (s.source.Steady → (answer = .ok ⟨⟩ ↔ (∀ id ∈ x.lines, (s.store.line? id).isSome = true) ∧
      ∃ activity, s.activity.register s.settings.limits s.now lines x.user x.justEntered =
        .ok activity)) ∧
    (s.source.Steady → x.lines = [] → answer = .ok ⟨⟩) ∧
    (answer = .ok ⟨⟩ → lines.map Line.id = x.lines ∧
      x.Recorded s.settings.limits s.now s.reports lines after.reports) ∧
    ∀ e, answer = .error e → after.reports = s.reports ∧
      ∀ id, e = .store (.stationNotFound id) →
        ∃ n call, s.source.calls ≤ n ∧ s.source.outage n call = some (.stationNotFound id) := by
  intro answer after lines
  have hanswer : s.source.Steady → (answer = .ok ⟨⟩ ↔
      (∀ id ∈ x.lines, (s.store.line? id).isSome = true) ∧
      ∃ activity, s.activity.register s.settings.limits s.now lines x.user x.justEntered =
        .ok activity) :=
    fun hsteady => (signal_ok_iff hsteady).trans (Signal.outcome_ok_iff_of_unknown h)
  refine ⟨hanswer, fun hsteady hnone => ?_, fun hok => ?_, fun e he => ?_⟩
  · -- with no line there is nothing to refuse
    refine (hanswer hsteady).mpr ?_
    simp only [lines, hnone]
    exact ⟨nofun, _, rfl⟩
  · obtain ⟨found, hfound, hrecorded⟩ := Signal.recorded_of_outcome (outcome_of_signal_ok hok)
    obtain ⟨hknown, rfl⟩ := (Signal.found_eq_ok_of_unknown h).mp hfound
    exact ⟨Store.map_id_filterMap_line? hknown, hrecorded⟩
  · refine ⟨reports_of_signal_error he, fun id hid => ?_⟩
    rw [hid] at he
    exact outage_of_stationNotFound he

/-- One line from a to b, which a rider is marked on. -/
def quietService : Service :=
  { (default : Service) with
    settings.limits := Activity.evening
    now := .ofMillis 60000
    source := .ofStore { (default : Store) with
      stations := [⟨"a", "A", "metro"⟩, ⟨"b", "B", "metro"⟩]
      lines := [Activity.blue] }
    reports.activity := (Roll.run evening [.register ⟨"u", .ofMillis 0, [blue], false⟩]).activity }

/-- Reports from nowhere: of no line, of the blue line and of one that is not there. -/
theorem signal_ignores_station_nowhere :
    let s := quietService
    s.store.Unknown "nowhere" ∧ s.source.Steady ∧
    (s.signal ⟨"u", "nowhere", "b", [], false⟩).1 = .ok ⟨⟩ ∧
    (s.signal ⟨"v", "nowhere", "b", ["blue"], false⟩).1 = .ok ⟨⟩ ∧
    (s.signal ⟨"v", "nowhere", "b", ["red"], false⟩).1 ≠ .ok ⟨⟩ := by
  intro s
  have hnowhere : s.store.Unknown "nowhere" := by decide
  have hsteady : s.source.Steady := fun _ _ _ => rfl
  refine ⟨hnowhere, hsteady, ?_, ?_, ?_⟩
  · exact (signal_ignores_station s ⟨"u", "nowhere", "b", [], false⟩ hnowhere).2.1 hsteady rfl
  · refine ((signal_ignores_station s ⟨"v", "nowhere", "b", ["blue"], false⟩ hnowhere).1
      hsteady).mpr ⟨by decide, _, rfl⟩
  · intro hok
    have hred := (((signal_ignores_station s ⟨"v", "nowhere", "b", ["red"], false⟩ hnowhere).1
      hsteady).mp hok).1 "red" List.mem_cons_self
    revert hred
    decide

/-- A rider of the blue line is lost from it by a report from nowhere. -/
theorem signal_from_nowhere :
    let s := quietService
    let (answer, after) := s.signal ⟨"u", "nowhere", "b", [], false⟩
    s.store.Unknown "nowhere" ∧ answer = .ok ⟨⟩ ∧
      Marked s.activity.lines s.now "blue" "u" ∧ ¬ Marked after.activity.lines s.now "blue" "u" ∧
      s.presence.lastSeen? ⟨"nowhere", "b"⟩ = none ∧
      after.presence.lastSeen? ⟨"nowhere", "b"⟩ = some s.now :=
  ⟨by decide, rfl, by decide, by decide, rfl, rfl⟩

end Service

end Arrivals
