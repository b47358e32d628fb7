import Mathlib
import Arrivals.Proofs.Prediction.Costs
import Arrivals.Proofs.Prediction.Located

/-! Which vehicle a scan settles on. Main statement: of what was seen in time along the way, a scan
goes on while the deviations do not rise and takes the first of the smallest until then. It is the
smallest of all exactly if none after the first rise falls below those before it. -/

namespace Arrivals

/-- The deviations never rise. -/
def Falls (seen : List Candidate) : Prop := seen.Pairwise fun a b => b.deviation ≤ a.deviation

instance (seen : List Candidate) : Decidable (Falls seen) := inferInstanceAs (Decidable (List.Pairwise _ _))

/-- All that was seen up to the first rise. -/
structure LongestFall (seen run : List Candidate) : Prop where
  start : run <+: seen
  falls : Falls run
  longest : ∀ other, other <+: seen → Falls other → other.length ≤ run.length

/-- From the `m`-th on, nothing falls below all that was seen before it. -/
def StaysAbove (seen : List Candidate) (m : Nat) : Prop :=
  ∀ i c, m ≤ i → seen[i]? = some c → ∃ b ∈ seen.take i, b.deviation ≤ c.deviation

variable {seen run : List Candidate}

theorem falls_concat {c : Candidate} :
    Falls (seen ++ [c]) ↔ Falls seen ∧ ∀ b ∈ seen, c.deviation ≤ b.deviation := by
  simp [Falls, List.pairwise_append]

namespace LongestFall

theorem of_falls (h : Falls seen) : LongestFall seen seen where
  start := List.prefix_rfl
  falls := h
  longest _ ho _ := ho.length_le

theorem eq_of_falls (h : LongestFall seen run) (hf : Falls seen) : run = seen :=
  h.start.eq_of_length_le (h.longest seen List.prefix_rfl hf)

theorem unique {other : List Candidate} (h : LongestFall seen run) (ho : LongestFall seen other) :
    other = run :=
  (List.prefix_of_prefix_length_le ho.start h.start (h.longest other ho.start ho.falls)).eq_of_length_le
    (ho.longest run h.start h.falls)

theorem ne_nil (h : LongestFall seen run) (hs : seen ≠ []) : run ≠ [] := by
  obtain ⟨c, rest, rfl⟩ := List.exists_cons_of_ne_nil hs
  have hlength := h.longest [c] ⟨rest, rfl⟩ (List.pairwise_singleton _ c)
  rintro rfl
  simp at hlength

theorem of_rise {c : Candidate} (hf : Falls seen) (hrise : ¬ Falls (seen ++ [c])) :
    LongestFall (seen ++ [c]) seen where
  start := List.prefix_append seen [c]
  falls := hf
  longest other ho hother := by
    by_contra hlong
    have hlength : (seen ++ [c]).length ≤ other.length := by
      rw [List.length_append, List.length_singleton]
      omega
    rw [ho.eq_of_length_le hlength] at hother
    exact hrise hother

/-- Past a rise, what comes later makes no difference. -/
theorem append (h : LongestFall seen run) (hrise : ¬ Falls seen) (more : List Candidate) :
    LongestFall (seen ++ more) run where
  start := h.start.trans (List.prefix_append seen more)
  falls := h.falls
  longest other ho hf := by
    rcases List.prefix_or_prefix_of_prefix ho (List.prefix_append seen more) with hshort | hlong
    · exact h.longest other hshort hf
    · exact absurd (hf.sublist hlong.sublist) hrise

/-- The smallest up to the first rise is the smallest of all if and only if nothing falls below it later. -/
theorem least_iff (h : LongestFall seen run) {c : Candidate}
    (hc : c ∈ run.argmin Candidate.deviation) :
    (∀ d ∈ seen, c.deviation ≤ d.deviation) ↔ StaysAbove seen run.length := by
  have hrun : run = seen.take run.length := List.prefix_iff_eq_take.mp h.start
  constructor
  · intro hleast i d hi hd
    refine ⟨c, ?_, hleast d (List.mem_of_getElem? hd)⟩
    have hmem : c ∈ seen.take run.length := hrun ▸ List.argmin_mem hc
    exact (List.take_subset_take_left seen hi) hmem
  · intro hstays d hd
    obtain ⟨i, hi⟩ := List.mem_iff_getElem?.mp hd
    -- The deviation that is not fallen below lies further in front each time, in the end before the rise.
    induction i using Nat.strong_induction_on generalizing d with
    | _ i ih =>
      by_cases hlt : i < run.length
      · have hmem : d ∈ run := by
          rw [hrun]
          exact List.mem_of_getElem? (by rw [List.getElem?_take_of_lt hlt, hi])
        exact List.le_of_mem_argmin hmem hc
      · obtain ⟨b, hb, hle⟩ := hstays i d (by omega) hi
        obtain ⟨j, hj⟩ := List.mem_iff_getElem?.mp hb
        rw [List.getElem?_take] at hj
        split at hj
        next hji => exact (ih j hji b (List.mem_of_getElem? hj) hj).trans hle
        next => cases hj

end LongestFall

namespace Search

/-- What a search has come to after these were offered, none of them overdue. -/
structure After (s : Search) (seen : List Candidate) : Prop where
  best : ∃ run, LongestFall seen run ∧ s.best = run.argmin Candidate.deviation
  running : s.running = true ↔ Falls seen

theorem after_start : start.After [] where
  best := ⟨[], .of_falls .nil, rfl⟩
  running := ⟨fun _ => .nil, fun _ => rfl⟩

variable {s : Search}

theorem After.best_eq (h : s.After seen) (hr : s.running = true) :
    s.best = seen.argmin Candidate.deviation := by
  obtain ⟨run, hrun, hbest⟩ := h.best
  rw [hbest, hrun.eq_of_falls (h.running.mp hr)]

/-- Once a search has ended, whatever else there is to see changes nothing. -/
theorem After.append (h : s.After seen) (hr : ¬ s.running = true) (more : List Candidate) :
    s.After (seen ++ more) where
  best := by
    obtain ⟨run, hrun, hbest⟩ := h.best
    exact ⟨run, hrun.append (mt h.running.mpr hr) more, hbest⟩
  running := by
    refine ⟨fun h => absurd h hr, fun hf => h.running.mpr ?_⟩
    exact hf.sublist (List.sublist_append_left seen more)

theorem After.offer {c : Candidate} (h : s.After seen) (hr : s.running = true)
    (hc : -Candidate.tolerance ≤ c.deviation) : (s.offer c).After (seen ++ [c]) := by
  have hfalls := h.running.mp hr
  have hbest := h.best_eq hr
  have hleast := List.argmin_concat Candidate.deviation c seen
  have hlate : ¬ c.deviation < -Candidate.tolerance := by omega
  rw [← hbest] at hleast
  rw [Search.offer, if_neg hlate]
  cases hb : s.best with
  | none =>
    rw [hb] at hleast
    have hnil : seen = [] := List.argmin_eq_none.mp (hbest ▸ hb)
    have hf : Falls (seen ++ [c]) := by rw [hnil]; exact List.pairwise_singleton _ c
    exact ⟨⟨_, .of_falls hf, hleast.symm⟩, iff_of_true hr hf⟩
  | some b =>
    rw [hb] at hleast hbest
    have hmem : b ∈ seen := List.argmin_mem hbest.symm
    have hmin : ∀ a ∈ seen, b.deviation ≤ a.deviation := fun a ha => List.le_of_mem_argmin ha hbest.symm
    dsimp only at hleast ⊢
    by_cases hrise : b.deviation < c.deviation
    · have hf : ¬ Falls (seen ++ [c]) := by
        intro hf
        have hle := (falls_concat.mp hf).2 b hmem
        omega
      rw [if_neg (by omega), if_pos hrise]
      exact ⟨⟨seen, .of_rise hfalls hf, hbest⟩, iff_of_false (by simp) hf⟩
    · have hf : Falls (seen ++ [c]) := by
        refine falls_concat.mpr ⟨hfalls, fun a ha => ?_⟩
        have hle := hmin a ha
        omega
      rw [if_neg hrise]
      refine ⟨⟨_, .of_falls hf, ?_⟩, ?_⟩
      · rw [hleast]
        split
        · rfl
        · exact hb
      · split <;> exact iff_of_true hr hf

end Search

namespace Prediction

/-- Stops that lie one behind the other, as far as connections are known, each with what the way from
there costs: `path` from the first of them. -/
def way (v : View) (path : Int) : List Stop → List (Stop × Int)
  | [] => []
  | a :: rest =>
    (a, path) ::
      match rest with
      | [] => []
      | b :: _ =>
        match v.cost? ⟨b.station, a.station⟩ with
        | none => []
        | some edge => way v (path + edge) rest

/-- From each of the stops there is a connection to the one before it. -/
def Connected (v : View) (stops : List Stop) : Prop :=
  stops.IsChain fun a b => (v.cost? ⟨b.station, a.station⟩).isSome = true

/-- The connections that a scan along the stops goes by, in the order in which it comes to them. -/
def needed : List Stop → List ConnectionKey
  | [] => []
  | a :: rest =>
    match rest with
    | [] => []
    | b :: _ => ⟨b.station, a.station⟩ :: needed rest

/-- What the way back over all these connections takes, if they are known. -/
def legSeconds (v : View) (stops : List Stop) : Int :=
  ((needed stops).map fun k => (v.cost? k).getD 0).sum

/-- The vehicle last seen at a stop from where the way takes so long, unless it should have come more than
half a minute ago. -/
def due? (presence : Presence) (direction : StationId) (now : Instant) (stop : Stop) (path : Int) :
    Option Candidate :=
  (presence.lastSeen? ⟨stop.station, direction⟩).bind fun seenAt =>
    let elapsed := (now.since seenAt).seconds
    if -30 ≤ path - elapsed then some ⟨stop, path, elapsed, seenAt⟩ else none

/-- What was seen along the way, in the order in which a scan comes by, but for what is overdue. -/
def sightings (v : View) (presence : Presence) (direction : StationId) (now : Instant) (path : Int)
    (stops : List Stop) : List Candidate :=
  (way v path stops).filterMap fun e => due? presence direction now e.1 e.2

variable {v : View} {presence : Presence} {direction : StationId} {now : Instant} {path : Int}

theorem due?_eq_some {stop : Stop} {seenAt : Instant}
    (hseen : presence.lastSeen? ⟨stop.station, direction⟩ = some seenAt)
    (hdue : -Candidate.tolerance ≤ path - (now.since seenAt).seconds) :
    due? presence direction now stop path = some ⟨stop, path, (now.since seenAt).seconds, seenAt⟩ := by
  rw [due?, hseen]
  exact if_pos hdue

theorem mem_sightings {n : Int} {stops : List Stop} {stop : Stop} {seenAt : Instant}
    (hway : (stop, n) ∈ way v path stops)
    (hseen : presence.lastSeen? ⟨stop.station, direction⟩ = some seenAt)
    (hdue : -Candidate.tolerance ≤ n - (now.since seenAt).seconds) :
    ⟨stop, n, (now.since seenAt).seconds, seenAt⟩ ∈ sightings v presence direction now path stops :=
  List.mem_filterMap.mpr ⟨_, hway, due?_eq_some hseen hdue⟩

theorem sightings_singleton (a : Stop) :
    sightings v presence direction now path [a] = (due? presence direction now a path).toList := by
  rw [sightings, way, List.filterMap_cons]
  cases due? presence direction now a path <;> rfl

theorem sightings_cons_cons (a b : Stop) (rest : List Stop) :
    sightings v presence direction now path (a :: b :: rest) =
      (due? presence direction now a path).toList ++
        match v.cost? ⟨b.station, a.station⟩ with
        | none => []
        | some edge => sightings v presence direction now (path + edge) (b :: rest) := by
  rw [sightings, way, List.filterMap_cons]
  cases due? presence direction now a path <;> cases v.cost? ⟨b.station, a.station⟩ <;> rfl

/-- What a scan takes for a candidate, unless it is overdue. -/
theorem due?_eq (a : Stop) : due? presence direction now a path =
    (observe presence direction now a path).filter fun c => -Candidate.tolerance ≤ c.deviation := by
  rw [due?, observe]
  cases presence.lastSeen? ⟨a.station, direction⟩ with
  | none => rfl
  | some seenAt => simp [Option.filter_some, Candidate.deviation, Candidate.tolerance]

theorem after_observe {s : Search} {seen : List Candidate} (h : s.After seen) (hr : s.running = true)
    (presence : Presence) (direction : StationId) (now : Instant) (a : Stop) (path : Int) :
    (s.offer? (observe presence direction now a path)).After
      (seen ++ (due? presence direction now a path).toList) := by
  rw [due?_eq]
  cases observe presence direction now a path with
  | none => simpa [Search.offer?] using h
  | some c =>
    by_cases hc : -Candidate.tolerance ≤ c.deviation
    · simpa [Option.filter_some, hc, Search.offer?] using h.offer hr hc
    · have hlate : s.offer c = s := by rw [Search.offer, if_pos (by omega)]
      simpa [Option.filter_some, hc, Search.offer?, hlate] using h

theorem connected_cons_cons {a b : Stop} {rest : List Stop} :
    Connected v (a :: b :: rest) ↔
      (v.cost? ⟨b.station, a.station⟩).isSome = true ∧ Connected v (b :: rest) :=
  List.isChain_cons_cons

/-- What comes of a scan, and which of the connections it needs are known. -/
def Comes (v : View) (stops : List Stop) (seen : List Candidate) : Except PredictionError Search → Prop
  | .ok search => search.After seen ∧ (search.running = true → Connected v stops)
  | .error e => ¬ Connected v stops ∧ Falls seen ∧ ∃ k, e = .missingConnection k ∧ v.cost? k = none

theorem Comes.of_connected {stops stops' : List Stop} {seen : List Candidate}
    {x : Except PredictionError Search} (h : Comes v stops seen x)
    (hstops : Connected v stops ↔ Connected v stops') : Comes v stops' seen x := by
  cases x with
  | ok search => exact ⟨h.1, fun hr => hstops.mp (h.2 hr)⟩
  | error e => exact ⟨mt hstops.mpr h.1, h.2⟩

theorem comes_scan {search : Search} {seen : List Candidate} (h : search.After seen)
    (hr : search.running = true) (v : View) (presence : Presence) (direction : StationId) (now : Instant)
    (path : Int) (stops : List Stop) :
    Comes v stops (seen ++ sightings v presence direction now path stops)
      (scan (.seen v) (observe presence direction now) path search stops) := by
  induction stops generalizing search seen path with
  | nil =>
    refine ⟨?_, fun _ => .nil⟩
    simpa [sightings, way] using h
  | cons a rest ih =>
    have hfirst := after_observe h hr presence direction now a path
    cases rest with
    | nil =>
      rw [sightings_singleton]
      exact ⟨hfirst, fun _ => .singleton a⟩
    | cons b rest =>
      rw [sightings_cons_cons, ← List.append_assoc, scan]
      by_cases hgoes : (search.offer? (observe presence direction now a path)).running = true
      · rw [if_pos hgoes, edgeSeconds_seen]
        cases hedge : v.cost? ⟨b.station, a.station⟩ with
        | none =>
          have hbroken : ¬ Connected v (a :: b :: rest) := by simp [connected_cons_cons, hedge]
          rw [List.append_nil]
          exact ⟨hbroken, hfirst.running.mp hgoes, _, rfl, hedge⟩
        | some edge =>
          refine (ih hfirst hgoes (path + edge)).of_connected ?_
          simp [connected_cons_cons, hedge]
      · rw [if_neg hgoes]
        exact ⟨hfirst.append hgoes _, fun hr => absurd hr hgoes⟩

/-- What a scan answers, by what was seen along the way. -/
structure Settles (v : View) (stops : List Stop) (seen : List Candidate)
    (answer : Except PredictionError (Option Candidate)) : Prop where
  answers : (∃ found, answer = .ok found) ↔ Connected v stops ∨ ¬ Falls seen
  misses : ∀ e, answer = .error e → ∃ k, e = .missingConnection k ∧ v.cost? k = none
  finds : ∀ found, answer = .ok found →
    ∃ run, LongestFall seen run ∧ found = run.argmin Candidate.deviation
  nothing : ∀ found, answer = .ok found → (found = none ↔ seen = [])
  least : ∀ c run, answer = .ok (some c) → LongestFall seen run →
    ((∀ d ∈ seen, c.deviation ≤ d.deviation) ↔ StaysAbove seen run.length)

theorem Comes.settles {stops : List Stop} {seen : List Candidate} {x : Except PredictionError Search}
    (h : Comes v stops seen x) : Settles v stops seen (Search.best <$> x) := by
  cases x with
  | error e =>
    obtain ⟨hbroken, hfalls, hmissing⟩ := h
    refine ⟨?_, ?_, nofun, nofun, nofun⟩
    · simp [hbroken, hfalls]
    · rintro e' ⟨⟩
      exact hmissing
  | ok search =>
    obtain ⟨hafter, hconnected⟩ := h
    obtain ⟨run, hrun, hbest⟩ := hafter.best
    refine ⟨iff_of_true ⟨_, rfl⟩ ?_, nofun, ?_, ?_, ?_⟩
    · by_cases hr : search.running = true
      · exact .inl (hconnected hr)
      · exact .inr (mt hafter.running.mpr hr)
    · rintro found ⟨⟩
      exact ⟨run, hrun, hbest⟩
    · rintro found ⟨⟩
      rw [hbest, List.argmin_eq_none]
      refine ⟨fun h => ?_, fun h => ?_⟩
      · by_contra hne
        exact hrun.ne_nil hne h
      · subst h
        exact List.prefix_nil.mp hrun.start
    · intro c other hanswer hother
      rw [hrun.unique hother]
      exact hrun.least_iff (hbest.symm.trans (Except.ok.inj hanswer))

variable (line : Line) (heading : Heading) (target : Nat)

theorem settles_scanApproaching :
    Settles v (line.stopsBack target heading)
      (sightings v presence direction now 0 (line.stopsBack target heading))
      (scanApproaching (.seen v) presence now line heading target direction) := by
  have h := comes_scan Search.after_start rfl v presence direction now 0 (line.stopsBack target heading)
  rw [List.nil_append] at h
  exact h.settles

theorem settles_scanReversing {leg : Int}
    (hleg : pathTime (.seen v) (line.stopsBack target heading).reverse = .ok leg) :
    Settles v (line.stopsAlong heading)
      (sightings v presence direction now (reversalSeconds + leg) (line.stopsAlong heading))
      (scanReversing (.seen v) presence now line heading target direction) := by
  have h := comes_scan Search.after_start rfl v presence direction now (reversalSeconds + leg)
    (line.stopsAlong heading)
  rw [List.nil_append] at h
  rw [scanReversing, hleg]
  exact h.settles

theorem needed_concat (stops : List Stop) (b a : Stop) :
    needed (stops ++ [b, a]) = needed (stops ++ [b]) ++ [⟨a.station, b.station⟩] := by
  induction stops with
  | nil => rfl
  | cons c rest ih =>
    cases rest with
    | nil => rfl
    | cons d rest => exact congrArg (⟨d.station, c.station⟩ :: ·) ih

theorem legSeconds_reverse (a b : Stop) (rest : List Stop) : legSeconds v (a :: b :: rest).reverse =
    (v.cost? ⟨a.station, b.station⟩).getD 0 + legSeconds v (b :: rest).reverse := by
  simp only [legSeconds, List.reverse_cons, List.append_assoc, List.singleton_append, needed_concat,
    List.map_append, List.sum_append, List.map_singleton, List.sum_singleton]
  exact Int.add_comm _ _

/-- A way along stops is known as far as connections lead from each to the next. -/
theorem pathTime_cases (stops : List Stop) :
    pathTime (.seen v) stops = .ok (legSeconds v stops.reverse) ∧ Connected v stops.reverse ∨
      (∃ k, pathTime (.seen v) stops = .error (.missingConnection k) ∧ v.cost? k = none) ∧
        ¬ Connected v stops.reverse := by
  simp only [Connected, List.isChain_reverse]
  induction stops with
  | nil => exact .inl ⟨rfl, .nil⟩
  | cons a rest ih =>
    cases rest with
    | nil => exact .inl ⟨rfl, .singleton a⟩
    | cons b rest =>
      rw [pathTime, edgeSeconds_seen, List.isChain_cons_cons, legSeconds_reverse]
      cases hedge : v.cost? ⟨a.station, b.station⟩ with
      | none => exact .inr ⟨⟨_, rfl, hedge⟩, by simp⟩
      | some edge =>
        obtain ⟨hleg, hchain⟩ | ⟨⟨k, hk, hnone⟩, hbroken⟩ := ih
        · rw [hleg]
          exact .inl ⟨rfl, rfl, hchain⟩
        · rw [hk]
          exact .inr ⟨⟨k, rfl, hnone⟩, fun h => hbroken h.2⟩

/-- What comes of the second scan. Before it sets out it needs the leg from the turn back to the target. -/
structure Returns (v : View) (presence : Presence) (opposite : StationId) (now : Instant)
    (back along : List Stop) (answer : Except PredictionError (Option Candidate)) : Prop where
  leg : (∃ leg, pathTime (.seen v) back.reverse = .ok leg) ↔ Connected v back
  settles : ∀ leg, pathTime (.seen v) back.reverse = .ok leg →
    Settles v along (sightings v presence opposite now (reversalSeconds + leg) along) answer
  known : Connected v back → pathTime (.seen v) back.reverse = .ok (legSeconds v back)
  stuck : ¬ Connected v back → ∃ k, answer = .error (.missingConnection k) ∧ v.cost? k = none

theorem fst_run_of_obeys {α : Type} {s : Source} (hs : s.Steady) (ho : s.overtaking = none)
    {x : Access PredictionError α} {y : Except PredictionError α}
    (h : Access.Obeys (View.of s.store s.memo) .store x y) : (s.run x).1 = y := by
  obtain ⟨calls, memo', -, hmakes⟩ := h.makes s.memo rfl
  have hrun := hmakes.through s.outage s.calls (hs.first? calls)
  rw [← ho] at hrun
  exact congrArg Prod.fst hrun

/-- While no call fails and no commit is about to land. -/
theorem scans_settle {s : Source} (hs : s.Steady) (ho : s.overtaking = none) (presence : Presence)
    (now : Instant) (line : Line) (heading : Heading) (target : Nat) (direction opposite : StationId) :
    let v := View.of s.store s.memo
    let back := line.stopsBack target heading
    Settles v back (sightings v presence direction now 0 back)
        (s.run (scanApproaching .live presence now line heading target direction)).1 ∧
      Returns v presence opposite now back (line.stopsAlong heading)
        (s.run (scanReversing .live presence now line heading target opposite)).1 := by
  intro v back
  have hrelated := Atlas.obeys_live v
  rw [fst_run_of_obeys hs ho (hrelated.scanApproaching presence now line heading target direction),
    fst_run_of_obeys hs ho (hrelated.scanReversing presence now line heading target opposite)]
  refine ⟨settles_scanApproaching line heading target, ?_⟩
  have hleg := pathTime_cases (v := v) back.reverse
  rw [List.reverse_reverse] at hleg
  refine ⟨?_, fun leg h => settles_scanReversing line heading target h, fun hconnected => ?_,
    fun hbroken => ?_⟩
  · obtain ⟨hok, hconnected⟩ | ⟨⟨k, hk, -⟩, hbroken⟩ := hleg
    · exact iff_of_true ⟨_, hok⟩ hconnected
    · refine iff_of_false ?_ hbroken
      rintro ⟨leg, h⟩
      rw [hk] at h
      cases h
  · exact (hleg.resolve_right fun hbroken => hbroken.2 hconnected).1
  · obtain ⟨k, hk, hnone⟩ := (hleg.resolve_left fun hknown => hbroken hknown.2).1
    refine ⟨k, ?_, hnone⟩
    rw [scanReversing, hk]
    rfl

/-- Seen towards `a` at all three stops. -/
def coastPresence : Presence :=
  ((Presence.empty.register ⟨"a", "a"⟩ ⟨181000000000⟩).register ⟨"b", "a"⟩ ⟨151000000000⟩).register
    ⟨"c", "a"⟩ ⟨0⟩

def coastSightings : List Candidate :=
  sightings (View.of coastStore (Source.ofStore coastStore).memo) coastPresence "a" ⟨201000000000⟩ 0
    (coast.stopsBack 0 .down)

/-- The same, but for a while at `b` and `c`. -/
def turnPresence : Presence :=
  ((Presence.empty.register ⟨"a", "a"⟩ ⟨181000000000⟩).register ⟨"b", "a"⟩ ⟨100000000000⟩).register
    ⟨"c", "a"⟩ ⟨50000000000⟩

def turnSightings : List Candidate :=
  sightings (View.of coastStore (Source.ofStore coastStore).memo) turnPresence "a" ⟨201000000000⟩
    (120 + 55) (coast.stopsAlong .up)

/-- The vehicle at `c` is not looked for past the one at `b`, which would be later than the one at `a`. Of
those that have to turn at `a` the one at `b` is taken, as the one at `c` would be later. -/
theorem scans_settle_coast :
    coastSightings.map Candidate.deviation = [-20, 27, -25] ∧ ¬ Falls coastSightings ∧
      (Source.run (.ofStore coastStore)
        (scanApproaching .live coastPresence ⟨201000000000⟩ coast .down 0 "a")).1 =
          .ok (some ⟨⟨0, "a"⟩, 0, 20, ⟨181000000000⟩⟩) ∧
      (∃ run, LongestFall coastSightings run ∧ ¬ StaysAbove coastSightings run.length) ∧
      turnSightings.map Candidate.deviation = [155, 151, 200] ∧
      (Source.run (.ofStore coastStore)
        (scanReversing .live turnPresence ⟨201000000000⟩ coast .up 1 "a")).1 =
          .ok (some ⟨⟨1, "b"⟩, 252, 101, ⟨100000000000⟩⟩) ∧
      ∃ run, LongestFall turnSightings run ∧ StaysAbove turnSightings run.length := by
  have hsteady := (Source.faithful_ofStore coastStore).steady
  have hsettle := (scans_settle hsteady rfl coastPresence ⟨201000000000⟩ coast .down 0 "a" "c").1
  have hreturns := (scans_settle hsteady rfl turnPresence ⟨201000000000⟩ coast .up 1 "c" "a").2
  have hanswer : (Source.run (.ofStore coastStore)
      (scanApproaching .live coastPresence ⟨201000000000⟩ coast .down 0 "a")).1 =
        .ok (some ⟨⟨0, "a"⟩, 0, 20, ⟨181000000000⟩⟩) := rfl
  have hturned : (Source.run (.ofStore coastStore)
      (scanReversing .live turnPresence ⟨201000000000⟩ coast .up 1 "a")).1 =
        .ok (some ⟨⟨1, "b"⟩, 252, 101, ⟨100000000000⟩⟩) := rfl
  obtain ⟨run, hrun, -⟩ := hsettle.finds _ hanswer
  have hback := hreturns.settles 55 rfl
  obtain ⟨turned, hturns, -⟩ := hback.finds _ hturned
  refine ⟨by decide, by decide, hanswer, ⟨run, hrun, fun hstays => ?_⟩, by decide, hturned, turned,
    hturns, ?_⟩
  · have hleast := (hsettle.least _ run hanswer hrun).mpr hstays ⟨⟨2, "c"⟩, 176, 201, ⟨0⟩⟩ (by decide)
    exact absurd hleast (by decide)
  · exact (hback.least _ turned hturned hturns).mp (by decide)

end Prediction

end Arrivals
