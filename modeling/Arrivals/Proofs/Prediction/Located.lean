import Arrivals.Proofs.Prediction.Faithful
import Arrivals.Proofs.Prediction.Rides

/-! What a prediction means. Main statement: a predicted vehicle was seen where the prediction says,
and the way from there costs what it says; if the vehicle has to turn around first, none that need
not was seen in time. -/

namespace Arrivals

namespace Search

theorem mem_best_offer {s : Search} {c b : Candidate} (h : b ∈ (s.offer c).best) :
    b ∈ s.best ∨ b = c ∧ -Candidate.tolerance ≤ c.deviation := by
  rw [offer] at h
  split at h
  next => exact .inl h
  next hlate =>
    have hlate : -Candidate.tolerance ≤ c.deviation := by omega
    split at h
    next => exact .inr ⟨(Option.some.inj h).symm, hlate⟩
    next =>
      split at h
      · exact .inr ⟨(Option.some.inj h).symm, hlate⟩
      · split at h <;> exact .inl h

theorem best_offer_eq_none {s : Search} {c : Candidate} (h : (s.offer c).best = none) :
    s.offer c = s ∧ c.deviation < -Candidate.tolerance := by
  rw [offer] at h ⊢
  split at h
  next hlate => exact ⟨if_pos hlate, hlate⟩
  next =>
    split at h
    next => cases h
    next hb =>
      split at h
      · cases h
      · split at h <;> rw [hb] at h <;> cases h

theorem mem_best_offer? {s : Search} {o : Option Candidate} {b : Candidate}
    (h : b ∈ (s.offer? o).best) : b ∈ s.best ∨ o = some b ∧ -Candidate.tolerance ≤ b.deviation := by
  cases o with
  | none => exact .inl h
  | some c =>
    rcases mem_best_offer h with h | ⟨rfl, hlate⟩
    · exact .inl h
    · exact .inr ⟨rfl, hlate⟩

theorem best_offer?_eq_none {s : Search} {o : Option Candidate} (h : (s.offer? o).best = none) :
    s.offer? o = s ∧ ∀ c ∈ o, c.deviation < -Candidate.tolerance := by
  cases o with
  | none => exact ⟨rfl, by simp⟩
  | some c =>
    obtain ⟨he, hlate⟩ := best_offer_eq_none h
    exact ⟨he, by simpa using hlate⟩

end Search

namespace Prediction

variable {st : Store} {presence : Presence} {now : Instant} {direction : StationId}

theorem edgeSeconds_eq_ok {a b : Stop} {n : Int} (h : edgeSeconds (.ofStore st) a b = .ok n) :
    ∃ c, st.connection? ⟨a.station, b.station⟩ = some c ∧ n = c.travelSeconds := by
  obtain ⟨found, hfound, h⟩ := bind_eq_ok h
  cases found with
  | none => cases h
  | some seconds =>
    cases h
    obtain ⟨c, hc, he⟩ := Option.map_eq_some_iff.mp (Except.ok.inj hfound)
    exact ⟨c, hc, he.symm⟩

theorem pathTime_eq_ok {stops : List Stop} {n : Int} (h : pathTime (.ofStore st) stops = .ok n) :
    st.rideSeconds? (stops.map Stop.station) = some n := by
  induction stops generalizing n with
  | nil => cases h; rfl
  | cons a rest ih =>
    cases rest with
    | nil => cases h; rfl
    | cons b rest =>
      obtain ⟨first, hfirst, h⟩ := bind_eq_ok h
      obtain ⟨others, hothers, h⟩ := bind_eq_ok h
      obtain ⟨c, hc, rfl⟩ := edgeSeconds_eq_ok hfirst
      cases h
      exact Store.rideSeconds?_cons_cons.mpr ⟨c, others, hc, ih hothers, rfl⟩

/-- A candidate is a vehicle seen at one of some stops, with `path` from the first of them on. -/
structure Sighted (st : Store) (presence : Presence) (now : Instant) (direction : StationId)
    (path : Int) (stops : List Stop) (c : Candidate) : Prop where
  behind : ∃ n, Behind st stops c.stop n ∧ c.path = path + n
  seen : presence.lastSeen? ⟨c.stop.station, direction⟩ = some c.seenAt
  elapsed : c.elapsed = (now.since c.seenAt).seconds
  inTime : -Candidate.tolerance ≤ c.deviation

theorem Sighted.further {path : Int} {a b : Stop} {rest : List Stop} {c : Candidate} {e : Connection}
    (h : Sighted st presence now direction (path + e.travelSeconds) (b :: rest) c)
    (he : st.connection? ⟨b.station, a.station⟩ = some e) :
    Sighted st presence now direction path (a :: b :: rest) c where
  behind := by
    obtain ⟨n, hn, hp⟩ := h.behind
    exact ⟨_, .further he hn, by omega⟩
  seen := h.seen
  elapsed := h.elapsed
  inTime := h.inTime

theorem mem_best_observe {path : Int} {a : Stop} {rest : List Stop} {search : Search} {c : Candidate}
    (h : c ∈ (search.offer? (observe presence direction now a path)).best) :
    c ∈ search.best ∨ Sighted st presence now direction path (a :: rest) c := by
  rcases Search.mem_best_offer? h with h | ⟨h, hlate⟩
  · exact .inl h
  · rw [observe, Option.map_eq_some_iff] at h
    obtain ⟨seenAt, hseen, rfl⟩ := h
    exact .inr ⟨⟨0, .here, (Int.add_zero path).symm⟩, hseen, rfl, hlate⟩

/-- What a scan finds it was offered at one of the stops. -/
theorem mem_best_of_scan {path : Int} {stops : List Stop} {search out : Search} {c : Candidate}
    (h : scan (.ofStore st) (observe presence direction now) path search stops = .ok out)
    (hc : c ∈ out.best) :
    c ∈ search.best ∨ Sighted st presence now direction path stops c := by
  induction stops generalizing path search with
  | nil => cases h; exact .inl hc
  | cons a rest ih =>
    cases rest with
    | nil => cases h; exact mem_best_observe hc
    | cons b rest =>
      rw [scan] at h
      split at h
      next =>
        obtain ⟨n, hn, h⟩ := bind_eq_ok h
        obtain ⟨e, he, rfl⟩ := edgeSeconds_eq_ok hn
        rcases ih h with hc | hc
        · exact mem_best_observe hc
        · exact .inr (hc.further he)
      next => cases h; exact mem_best_observe hc

theorem overdue_of_observe {path : Int} {a : Stop} {search : Search}
    (h : (search.offer? (observe presence direction now a path)).best = none) :
    search.offer? (observe presence direction now a path) = search ∧ ∀ seenAt,
      presence.lastSeen? ⟨a.station, direction⟩ = some seenAt →
        path - (now.since seenAt).seconds < -Candidate.tolerance := by
  obtain ⟨he, hlate⟩ := Search.best_offer?_eq_none h
  refine ⟨he, fun seenAt hseen => hlate ⟨a, path, (now.since seenAt).seconds, seenAt⟩ ?_⟩
  rw [observe, hseen]
  rfl

theorem overdue_of_scan {path : Int} {stops : List Stop} {search out : Search}
    (h : scan (.ofStore st) (observe presence direction now) path search stops = .ok out)
    (hrunning : search.running = true) (hnone : out.best = none) :
    search.best = none ∧ ∀ s ∈ stops, ∀ seenAt,
      presence.lastSeen? ⟨s.station, direction⟩ = some seenAt →
        ∃ n, Behind st stops s n ∧
          path + n - (now.since seenAt).seconds < -Candidate.tolerance := by
  induction stops generalizing path search with
  | nil => cases h; exact ⟨hnone, by simp⟩
  | cons a rest ih =>
    -- The first stop is no sooner overdue than the search goes on from there.
    have hfirst (hn : (search.offer? (observe presence direction now a path)).best = none) :
        search.best = none ∧ ∀ seenAt, presence.lastSeen? ⟨a.station, direction⟩ = some seenAt →
          ∃ n, Behind st (a :: rest) a n ∧
            path + n - (now.since seenAt).seconds < -Candidate.tolerance := by
      obtain ⟨he, hlate⟩ := overdue_of_observe hn
      refine ⟨he ▸ hn, fun seenAt hseen => ⟨0, .here, ?_⟩⟩
      rw [Int.add_zero]
      exact hlate seenAt hseen
    cases rest with
    | nil =>
      cases h
      obtain ⟨hbest, hlate⟩ := hfirst hnone
      refine ⟨hbest, fun s hs => ?_⟩
      rw [List.mem_singleton.mp hs]
      exact hlate
    | cons b rest =>
      rw [scan] at h
      split at h
      next hgoes =>
        obtain ⟨n, hn, h⟩ := bind_eq_ok h
        obtain ⟨e, he, rfl⟩ := edgeSeconds_eq_ok hn
        obtain ⟨hnone', hrest⟩ := ih h hgoes
        obtain ⟨hbest, hlate⟩ := hfirst hnone'
        refine ⟨hbest, fun s hs seenAt hseen => ?_⟩
        rcases List.mem_cons.mp hs with rfl | hs
        · exact hlate seenAt hseen
        · obtain ⟨m, hm, hdue⟩ := hrest s hs seenAt hseen
          exact ⟨_, .further he hm, by omega⟩
      next hstops =>
        cases h
        rw [(overdue_of_observe hnone).1] at hstops
        exact absurd hrunning hstops

end Prediction

def Line.HasTerminal (l : Line) (terminal : StationId) : Prop :=
  2 ≤ l.stations.length ∧ (l.first? = some terminal ∨ l.last? = some terminal)

instance (l : Line) (terminal : StationId) : Decidable (l.HasTerminal terminal) :=
  inferInstanceAs (Decidable (_ ∧ _))

theorem Line.headingTowards?_eq_none_iff {l : Line} {terminal : StationId} :
    l.headingTowards? terminal = none ↔ ¬ l.HasTerminal terminal := by
  rw [headingTowards?, HasTerminal]
  split
  next h => exact ⟨fun _ ht => absurd ht.1 (by omega), fun _ => rfl⟩
  next h =>
    have h : 2 ≤ l.stations.length := by omega
    split
    next hl => simp [h, hl]
    next hl => split <;> rename_i hf <;> simp [h, hl, hf]

theorem Line.getElem?_outset (l : Line) (h : Heading) :
    l.stations[l.outset h]? = l.terminal? h.reversed := by
  cases h with
  | up => exact List.head?_eq_getElem?.symm
  | down => exact List.getLast?_eq_getElem?.symm

theorem Line.position?_lt {l : Line} {s : StationId} {t : Nat} (h : l.position? s = some t) :
    t < l.stations.length := by
  rw [position?, List.findIdx?_eq_some_iff_getElem] at h
  exact h.1

namespace Prediction

structure Approaches (st : Store) (direction : StationId) (heading : Heading) (target : Nat)
    (p : Prediction) : Prop where
  towards : p.locatedDirection = direction
  upstream : heading.Reaches p.located.index target
  path : st.rideSeconds? (p.line.ride p.located.index target) = some p.pathSeconds

/-- The vehicle runs to the far end of the line and turns around there; on its way to the target
none was seen that is not overdue. -/
structure Reverses (st : Store) (presence : Presence) (now : Instant) (direction : StationId)
    (heading : Heading) (target : Nat) (p : Prediction) : Prop where
  towards : p.line.terminal? heading.reversed = some p.locatedDirection
  turn : p.line.stations[p.line.outset heading]? = some p.locatedDirection
  path : ∃ there back,
    st.rideSeconds? (p.line.ride p.located.index (p.line.outset heading)) = some there ∧
      st.rideSeconds? (p.line.ride (p.line.outset heading) target) = some back ∧
      p.pathSeconds = there + 120 + back
  overdue : ∀ i s seenAt, heading.Reaches i target → p.line.stations[i]? = some s →
    presence.lastSeen? ⟨s, direction⟩ = some seenAt →
      ∃ n, st.rideSeconds? (p.line.ride i target) = some n ∧ n - (now.since seenAt).seconds < -30

structure Explained (st : Store) (presence : Presence) (now : Instant)
    (station direction : StationId) (p : Prediction) : Prop where
  asked : p.station = station ∧ p.direction = direction
  line : (st.linesServing station).find? (·.HasTerminal direction) = some p.line
  located : p.line.stations[p.located.index]? = some p.located.station
  seen : presence.lastSeen? ⟨p.located.station, p.locatedDirection⟩ = some p.seenAt
  elapsed : p.elapsedSeconds = (now.nanos - p.seenAt.nanos).tdiv 1000000000
  eta : p.etaSeconds = p.pathSeconds - p.elapsedSeconds ∧ -30 ≤ p.etaSeconds
  way : ∃ heading target, p.line.headingTowards? direction = some heading ∧
    p.line.position? station = some target ∧
      if p.reversing then p.Reverses st presence now direction heading target
      else p.Approaches st direction heading target

variable {st : Store} {presence : Presence} {now : Instant} {station direction : StationId}

theorem resolve_eq_ok {line : Line} {heading : Heading}
    (h : resolve (.ofStore st) station direction = .ok (line, heading)) :
    (st.linesServing station).find? (·.HasTerminal direction) = some line ∧
      line.headingTowards? direction = some heading := by
  obtain ⟨lines, hlines, h⟩ := bind_eq_ok h
  cases hlines
  dsimp only at h
  split at h
  next => cases h
  next =>
    split at h
    next found hfound =>
      cases h
      obtain ⟨before, l, after, hl, hmap, hnone⟩ := List.findSome?_eq_some_iff.mp hfound
      obtain ⟨heading', hheading, he⟩ := Option.map_eq_some_iff.mp hmap
      cases he
      refine ⟨List.find?_eq_some_iff_append.mpr ⟨?_, before, after, hl, fun k hk => ?_⟩, hheading⟩
      · refine decide_eq_true (Decidable.of_not_not fun hno => ?_)
        rw [Line.headingTowards?_eq_none_iff.mpr hno] at hheading
        cases hheading
      · have hk := hnone k hk
        rw [Option.map_eq_none_iff, Line.headingTowards?_eq_none_iff] at hk
        simpa using hk
    next => cases h

theorem scanApproaching_eq_ok {line : Line} {heading : Heading} {target : Nat}
    {found : Option Candidate}
    (h : scanApproaching (.ofStore st) presence now line heading target direction = .ok found) :
    (∀ c ∈ found, Sighted st presence now direction 0 (line.stopsBack target heading) c) ∧
      (found = none → ∀ s ∈ line.stopsBack target heading, ∀ seenAt,
        presence.lastSeen? ⟨s.station, direction⟩ = some seenAt →
          ∃ n, Behind st (line.stopsBack target heading) s n ∧
            n - (now.since seenAt).seconds < -Candidate.tolerance) := by
  obtain ⟨out, hscan, h⟩ := bind_eq_ok h
  cases h
  refine ⟨fun c hc => (mem_best_of_scan hscan hc).resolve_left (by simp [Search.start]),
    fun hnone s hs seenAt hseen => ?_⟩
  obtain ⟨n, hn, hdue⟩ := (overdue_of_scan hscan rfl hnone).2 s hs seenAt hseen
  exact ⟨n, hn, by omega⟩

theorem scanReversing_eq_ok {line : Line} {heading : Heading} {target : Nat}
    {opposite : StationId} {found : Option Candidate}
    (h : scanReversing (.ofStore st) presence now line heading target opposite = .ok found) :
    ∃ back, st.rideSeconds? ((line.stopsBack target heading).reverse.map Stop.station) = some back ∧
      ∀ c ∈ found, Sighted st presence now opposite (120 + back) (line.stopsAlong heading) c := by
  obtain ⟨back, hback, h⟩ := bind_eq_ok h
  obtain ⟨out, hscan, h⟩ := bind_eq_ok h
  cases h
  exact ⟨back, pathTime_eq_ok hback,
    fun c hc => (mem_best_of_scan hscan hc).resolve_left (by simp [Search.start])⟩

theorem predictWith_explained {p : Prediction}
    (h : predictWith (.ofStore st) presence now station direction = .ok p) :
    p.Explained st presence now station direction := by
  obtain ⟨⟨line, heading⟩, hresolve, h⟩ := bind_eq_ok h
  obtain ⟨hline, hheading⟩ := resolve_eq_ok hresolve
  dsimp only at h
  split at h
  next => cases h
  next target htarget =>
    have hlt := Line.position?_lt htarget
    obtain ⟨found, hfound, h⟩ := bind_eq_ok h
    obtain ⟨hsighted, hoverdue⟩ := scanApproaching_eq_ok hfound
    cases found with
    | some c =>
      cases h
      have hs := hsighted c rfl
      obtain ⟨n, hn, hpath⟩ := hs.behind
      obtain ⟨hr, hat, hride⟩ := hn.ride hlt
      refine ⟨⟨rfl, rfl⟩, hline, hat, hs.seen, hs.elapsed, ⟨rfl, hs.inTime⟩, heading, target, hheading,
        htarget, rfl, hr, ?_⟩
      rw [hpath, Int.zero_add]
      exact hride
    | none =>
      dsimp only at h
      split at h
      next => cases h
      next opposite hopposite =>
        obtain ⟨found, hfound, h⟩ := bind_eq_ok h
        obtain ⟨back, hback, hsighted⟩ := scanReversing_eq_ok hfound
        cases found with
        | none => cases h
        | some c =>
          cases h
          have hs := hsighted c rfl
          obtain ⟨there, hthere, hpath⟩ := hs.behind
          rw [Line.stopsAlong_eq] at hthere
          obtain ⟨_, hat, hride⟩ := hthere.ride (by cases heading <;> simp only [Line.outset] <;> omega)
          rw [Line.ride_outset heading hlt] at hback
          have hturn := (line.getElem?_outset heading).trans hopposite
          refine ⟨⟨rfl, rfl⟩, hline, hat, hs.seen, hs.elapsed, ⟨rfl, hs.inTime⟩, heading, target,
            hheading, htarget, hopposite, hturn, ⟨there, back, hride, hback, ?_⟩, ?_⟩
          · refine hpath.trans ?_
            omega
          · intro i s seenAt hr hi hseen
            obtain ⟨n, hn, hdue⟩ := hoverdue rfl ⟨i, s⟩ (Line.mem_stopsBack hr hi) seenAt hseen
            exact ⟨n, (hn.ride hlt).2.2, hdue⟩

end Prediction

/-- While the store does not fail and the memo agrees with it, every prediction is explained. -/
theorem predict_explained {s s' : Source} {presence : Presence} {now : Instant}
    {station direction : StationId} {p : Prediction} (hs : s.Faithful)
    (h : s.run (predict presence now station direction) = (.ok p, s')) :
    p.Explained s.store presence now station direction := by
  obtain ⟨_, he, _⟩ := follows_predict s.store presence now station direction s hs rfl
  rw [he] at h
  exact Prediction.predictWith_explained (Prod.mk.inj h).1

namespace Prediction

def coast : Line := ⟨"coast", "Coast", "n", ["a", "b", "c"], 0⟩

def coastStore : Store :=
  { (((default : Store).saveConnection ⟨"a", "b", "coast", 50, 5, 0⟩).saveConnection
      ⟨"b", "a", "coast", 70, 7, 0⟩).saveConnection ⟨"c", "b", "coast", 90, 9, 0⟩ with
    lines := [coast] }

theorem predict_explained_coast : ∃ p s',
    (Source.ofStore coastStore).run
        (predict (Presence.empty.register ⟨"c", "a"⟩ ⟨0⟩) ⟨10000000000⟩ "b" "c") = (.ok p, s') ∧
      p = ⟨coast, "b", "c", ⟨2, "c"⟩, "a", ⟨0⟩, true, 351, 10⟩ ∧
      p.Explained coastStore (Presence.empty.register ⟨"c", "a"⟩ ⟨0⟩) ⟨10000000000⟩ "b" "c" := by
  have hrun : (Source.ofStore coastStore).run
      (predict (Presence.empty.register ⟨"c", "a"⟩ ⟨0⟩) ⟨10000000000⟩ "b" "c") =
        (.ok ⟨coast, "b", "c", ⟨2, "c"⟩, "a", ⟨0⟩, true, 351, 10⟩, _) := rfl
  exact ⟨_, _, hrun, rfl, predict_explained (Source.faithful_ofStore coastStore) hrun⟩

def yard : Line := ⟨"yard", "Yard", "n", ["s"], 0⟩

def shuttle : Line := ⟨"shuttle", "Shuttle", "n", ["s", "x"], 0⟩

def yardStore : Store :=
  { (default : Store).saveConnection ⟨"x", "s", "shuttle", 60, 0, 0⟩ with lines := [yard, shuttle] }

/-- A line with one station ends there, but is passed over. -/
theorem predict_passes_over_yard :
    ¬ ∀ (s s' : Source) (presence : Presence) (now : Instant) (station direction : StationId)
      (p : Prediction), s.Faithful → s.run (predict presence now station direction) = (.ok p, s') →
        (s.store.linesServing station).find?
          (fun l => l.first? = some direction || l.last? = some direction) = some p.line := by
  intro h
  have hrun : (Source.ofStore yardStore).run
      (predict (Presence.empty.register ⟨"s", "s"⟩ ⟨0⟩) ⟨0⟩ "s" "s") =
        (.ok ⟨shuttle, "s", "s", ⟨0, "s"⟩, "s", ⟨0⟩, false, 0, 0⟩, _) := rfl
  have hline := h _ _ _ _ _ _ _ (Source.faithful_ofStore yardStore) hrun
  have hyard : (yardStore.linesServing "s").find?
      (fun l => l.first? = some "s" || l.last? = some "s") = some yard := rfl
  rw [Source.ofStore, hyard] at hline
  exact absurd hline (by decide)

end Prediction

end Arrivals
