import Arrivals.Proofs.Prediction.Faults

/-! Lines that share stations and terminals. Main statement: a query goes by the first line that has its
direction as a terminal, as if there were no other. What is predicted on that line alone is predicted, and
what is predicted on another one alone is not missed as long as both come to the station by the same way. -/

namespace Arrivals

/-- A store with one line, and with no edges but those of the other store. -/
structure Store.Narrows (r st : Store) (l : Line) : Prop where
  lines : r.lines = [l]
  edges : ∀ k c, r.connection? k = some c → st.connection? k = some c

/-- Vehicles towards the direction come to the station by these stations last. -/
def Line.ComesBy (l : Line) (station direction : StationId) (stretch : List StationId) : Prop :=
  ∃ heading target, l.headingTowards? direction = some heading ∧ l.position? station = some target ∧
    stretch.reverse <+: (l.stopsBack target heading).map Stop.station

namespace Prediction

/-- The way along the line from where the vehicle was seen. -/
def stretch (p : Prediction) : List StationId :=
  p.line.ride p.located.index ((p.line.position? p.station).getD 0)

section Edges

variable {r st : Store} {path n : Int} {stops : List Stop} {s : Stop}

theorem rideSeconds?_of_edges (h : ∀ k c, r.connection? k = some c → st.connection? k = some c)
    {ride : List StationId} (hn : r.rideSeconds? ride = some n) : st.rideSeconds? ride = some n := by
  induction ride generalizing n with
  | nil => exact hn
  | cons a rest ih =>
    cases rest with
    | nil => exact hn
    | cons b rest =>
      obtain ⟨c, m, hc, hm, rfl⟩ := Store.rideSeconds?_cons_cons.mp hn
      exact Store.rideSeconds?_cons_cons.mpr ⟨c, m, h _ c hc, ih hm, rfl⟩

theorem Behind.mem_way (h : Behind st stops s n) : (s, path + n) ∈ way ⟨st, st.cost?⟩ path stops := by
  induction h generalizing path with
  | here =>
    rw [Int.add_zero]
    exact List.mem_cons_self
  | @further a b rest s n c hc _ ih =>
    have hcost : st.cost? ⟨b.station, a.station⟩ = some c.travelSeconds := by rw [Store.cost?, hc]; rfl
    rw [way]
    dsimp only
    rw [hcost, ← Int.add_assoc]
    exact List.mem_cons_of_mem _ ih

/-- A vehicle that was seen at a stop behind, and is not overdue, is there to be found. -/
theorem Behind.mem_sightings {presence : Presence} {direction : StationId} {now seenAt : Instant}
    (h : Behind st stops s n) (path : Int)
    (hseen : presence.lastSeen? ⟨s.station, direction⟩ = some seenAt)
    (hdue : -Candidate.tolerance ≤ path + n - (now.since seenAt).seconds) :
    ⟨s, path + n, (now.since seenAt).seconds, seenAt⟩ ∈
      sightings ⟨st, st.cost?⟩ presence direction now path stops :=
  Prediction.mem_sightings h.mem_way hseen hdue

end Edges

section Atlases

variable {r st : Store}

/-- One answer is the other, or an error. -/
def Keeps {α : Type} (x y : Except PredictionError α) : Prop := ∀ a, x = .ok a → y = .ok a

theorem edgeSeconds_ofStore (a b : Stop) :
    edgeSeconds (.ofStore st) a b =
      match st.connection? ⟨a.station, b.station⟩ with
      | some c => .ok c.travelSeconds
      | none => .error (.missingConnection ⟨a.station, b.station⟩) := by
  refine (edgeSeconds_seen (v := ⟨st, st.cost?⟩) a b).trans ?_
  dsimp only [Store.cost?]
  cases st.connection? ⟨a.station, b.station⟩ <;> rfl

theorem paced_of_edges (h : ∀ k c, r.connection? k = some c → st.connection? k = some c) :
    (Atlas.ofStore r).Paced (.ofStore st) fun _ => Keeps where
  edgeSeconds a b n hn := by
    obtain ⟨c, hc, rfl⟩ := edgeSeconds_eq_ok hn
    rw [edgeSeconds_ofStore, h _ c hc]
  pure x a h := h
  throw e _ a h := h
  bind hx hf b h := by
    obtain ⟨a, ha, h⟩ := bind_eq_ok h
    rw [hx a ha]
    exact hf a b h

theorem paced_of_same (h : ∀ k, r.connection? k = st.connection? k) :
    (Atlas.ofStore st).Paced (.ofStore r) fun _ x y => x = y where
  edgeSeconds a b := by rw [edgeSeconds_ofStore, edgeSeconds_ofStore, h]
  pure _ := rfl
  throw _ _ := rfl
  bind hx hf := by rw [hx, funext hf]

theorem Course.predictWith_eq {q : Sight} {line : Line} {heading : Heading} {target : Nat}
    (h : Course st q line heading target) (presence : Presence) (now : Instant) :
    predictWith (.ofStore st) presence now q.station q.direction =
      predictAlong (.ofStore st) presence now q.station q.direction (line, heading) := by
  have hresolve := Course.resolve (v := ⟨st, st.cost?⟩) h
  change Prediction.resolve (.ofStore st) q.station q.direction = _ at hresolve
  rw [Prediction.predictWith_eq, hresolve, pure_bind]

/-- On a store with just its line, a query takes the same course. -/
theorem Course.narrowed {q : Sight} {line : Line} {heading : Heading} {target : Nat}
    (h : Course st q line heading target) (hr : r.Narrows st line) :
    Course r q line heading target := by
  refine ⟨?_, h.heading, h.target⟩
  have hserved := (Store.mem_linesServing.mp (List.mem_of_find?_eq_some h.chosen)).2
  have hmem : line ∈ r.linesServing q.station := by
    rw [Store.mem_linesServing, hr.lines]
    exact ⟨List.mem_singleton_self line, hserved⟩
  cases hfind : (r.linesServing q.station).find? (·.HasTerminal q.direction) with
  | none => exact absurd (List.find?_some h.chosen) (List.find?_eq_none.mp hfind line hmem)
  | some l =>
    have hl := (Store.mem_linesServing.mp (List.mem_of_find?_eq_some hfind)).1
    rw [hr.lines, List.mem_singleton] at hl
    rw [hl]

end Atlases

section Sights

variable {st : Store} {q : Sight} {line : Line} {heading : Heading} {target : Nat}

/-- Where a line comes by a stretch, the place that the stretch begins with lies behind on the line. -/
theorem Course.exists_behind {stretch : List StationId} {place : StationId} {n : Int}
    (h : Course st q line heading target) (hby : line.ComesBy q.station q.direction stretch)
    (hplace : stretch.head? = some place) (hn : st.rideSeconds? stretch = some n) :
    ∃ stop : Stop, stop.station = place ∧ Behind st (line.stopsBack target heading) stop n := by
  obtain ⟨heading', target', hheading, htarget, more, hmore⟩ := hby
  rw [h.heading, Option.some.injEq] at hheading
  rw [h.target, Option.some.injEq] at htarget
  subst hheading htarget
  obtain ⟨rest, rfl⟩ := List.head?_eq_some_iff.mp hplace
  obtain ⟨near, further, hstops, hnear, -⟩ := List.map_eq_append_iff.mp hmore.symm
  have hride : near.reverse.map Stop.station = place :: rest := by
    rw [List.map_reverse, hnear, List.reverse_reverse]
  rw [List.reverse_cons] at hnear
  obtain ⟨nearer, last, rfl, -, hlast⟩ := List.map_eq_append_iff.mp hnear
  obtain ⟨stop, rfl, hstop⟩ := List.map_eq_singleton_iff.mp hlast
  refine ⟨stop, hstop, .of_ride ⟨further, hstops.symm⟩ ?_⟩
  rw [hride]
  exact hn

/-- Once a vehicle is there to be found on the way, the query finds one, or it misses an edge. -/
theorem Course.finds_or_misses {presence : Presence} {now seenAt : Instant} {stop : Stop} {n : Int}
    (h : Course st q line heading target) (hbehind : Behind st (line.stopsBack target heading) stop n)
    (hseen : presence.lastSeen? ⟨stop.station, q.direction⟩ = some seenAt)
    (hdue : -Candidate.tolerance ≤ n - (now.since seenAt).seconds) :
    let answer := predictWith (.ofStore st) presence now q.station q.direction
    (∃ p, answer = .ok p) ∨
      ∃ k, answer = .error (.missingConnection k) ∧ st.connection? k = none := by
  intro answer
  cases hanswer : answer with
  | ok p => exact .inl ⟨p, rfl⟩
  | error e =>
    obtain ⟨opposite, hopposite⟩ := h.exists_opposite
    have hfault := (h.predictWith_eq_error_iff (v := ⟨st, st.cost?⟩) hopposite).mp hanswer
    obtain hfirst | ⟨hfirst, -⟩ := hfault
    · obtain ⟨k, rfl, hstumbles⟩ := scan_eq_error_iff.mp hfirst
      exact .inr ⟨k, rfl, Option.map_eq_none_iff.mp hstumbles.gap.cost?_eq_none⟩
    · have hnothing := (scan_eq_none_iff.mp hfirst).nothing
      have hfound := hbehind.mem_sightings 0 hseen (by rwa [Int.zero_add])
      rw [hnothing] at hfound
      cases hfound

end Sights

/-- A vehicle that need not turn around was seen where its stretch begins, and the way costs its ride. -/
theorem Explained.stretch {st : Store} {presence : Presence} {now : Instant}
    {station direction : StationId} {p : Prediction} (h : p.Explained st presence now station direction)
    (hp : p.reversing = false) :
    p.locatedDirection = direction ∧ p.stretch.head? = some p.located.station ∧
      st.rideSeconds? p.stretch = some p.pathSeconds := by
  obtain ⟨heading, target, -, htarget, hway⟩ := h.way
  rw [hp, if_neg Bool.false_ne_true] at hway
  have hstretch : p.stretch = p.line.ride p.located.index target := by
    rw [Prediction.stretch, h.asked.1, htarget, Option.getD_some]
  obtain ⟨nearer, -, hride⟩ :=
    Line.exists_prefix_of_reaches (Line.position?_lt htarget) hway.upstream h.located
  refine ⟨hway.towards, ?_, hstretch ▸ hway.path⟩
  rw [hstretch, ← hride, List.reverse_concat]
  rfl

end Prediction

open Prediction

theorem Source.Faithful.predict_eq {s : Source} (hs : s.Faithful) (presence : Presence) (now : Instant)
    (station direction : StationId) :
    (s.run (predict presence now station direction)).1 =
      predictWith (.ofStore s.store) presence now station direction := by
  obtain ⟨_, he, -⟩ := follows_predict s.store presence now station direction s hs rfl
  rw [he]

/-- While no call fails and memos agree with their stores. On the first line with the direction as a terminal
alone there is the same answer, as far as edges are the same, and no prediction that there is not with
all lines. Where a vehicle is predicted on some line alone, and need not turn around first, the answer
with all lines is a prediction too, unless an edge is not there, if the first line comes by its stretch. -/
theorem predict_by_first_line {s : Source} (hs : s.Faithful) (presence : Presence) (now : Instant)
    (station direction : StationId)
    (hline : ∃ l ∈ s.store.linesServing station, l.HasTerminal direction) :
    let ask (t : Source) := (t.run (predict presence now station direction)).1
    ∃ first, (s.store.linesServing station).find? (·.HasTerminal direction) = some first ∧
      (∀ r : Source, r.Faithful → r.store.Narrows s.store first →
        (∀ p, ask r = .ok p → ask s = .ok p) ∧
        ((∀ k, r.store.connection? k = s.store.connection? k) → ask s = ask r)) ∧
      ∀ (r : Source) (l : Line) (p : Prediction), r.Faithful → r.store.Narrows s.store l →
        ask r = .ok p → p.reversing = false → first.ComesBy station direction p.stretch →
          (∃ p', ask s = .ok p') ∨
            ∃ k, ask s = .error (.missingConnection k) ∧ s.store.connection? k = none := by
  intro ask
  have hask (t : Source) (ht : t.Faithful) :
      ask t = predictWith (.ofStore t.store) presence now station direction :=
    ht.predict_eq presence now station direction
  obtain ⟨first, hfirst⟩ : ∃ first,
      (s.store.linesServing station).find? (·.HasTerminal direction) = some first := by
    rw [← Option.isSome_iff_exists, List.find?_isSome]
    simpa using hline
  obtain ⟨heading, target, hcourse⟩ := exists_course (q := ⟨station, direction⟩) hfirst
  rw [hask s hs]
  refine ⟨first, hfirst, fun r hr hnarrows => ?_, ?_⟩
  · rw [hask r hr, (hcourse.narrowed hnarrows).predictWith_eq, hcourse.predictWith_eq]
    refine ⟨?_, fun hsame => ?_⟩
    · exact (paced_of_edges hnarrows.edges).predictAlong presence now station direction (first, heading)
    · exact (paced_of_same hsame).predictAlong presence now station direction (first, heading)
  · intro r l p hr hnarrows hp happroaching hby
    rw [hask r hr] at hp
    have hexplained := predictWith_explained hp
    obtain ⟨htowards, hplace, hpath⟩ := hexplained.stretch happroaching
    have hseen := hexplained.seen
    rw [htowards] at hseen
    obtain ⟨stop, hstop, hbehind⟩ :=
      hcourse.exists_behind hby hplace (rideSeconds?_of_edges hnarrows.edges hpath)
    refine hcourse.finds_or_misses hbehind (hstop ▸ hseen) ?_
    have hdue := hexplained.eta.2
    rw [etaSeconds, hexplained.elapsed] at hdue
    exact hdue

namespace Prediction

def northBranch : Line := ⟨"north", "North", "n", ["n", "q", "s", "d"], 0⟩

def southBranch : Line := ⟨"south", "South", "n", ["m", "q", "s", "d"], 0⟩

/-- Some of the two branches, with the edges of both. -/
def branchSource (lines : List Line) : Source :=
  .ofStore { ([("n", "q"), ("m", "q"), ("q", "s"), ("s", "d"), ("q", "n"), ("s", "q"), ("d", "s")].foldl
    (fun st e => st.saveConnection ⟨e.1, e.2, "n", 60, 0, 0⟩) default : Store) with lines := lines }

def branchAnswer (lines : List Line) (place : StationId) : Except PredictionError Prediction :=
  ((branchSource lines).run
    (predict (Presence.empty.register ⟨place, "d"⟩ ⟨0⟩) ⟨10000000000⟩ "s" "d")).1

/-- Where the branches have met already, a vehicle of either is seen. -/
theorem predict_by_first_line_branches :
    branchAnswer [southBranch] "q" =
        .ok ⟨southBranch, "s", "d", ⟨1, "q"⟩, "d", ⟨0⟩, false, 60, 10⟩ ∧
      northBranch.ComesBy "s" "d" ["q", "s"] ∧
      (∀ p, branchAnswer [northBranch] "q" = .ok p →
        branchAnswer [northBranch, southBranch] "q" = .ok p) ∧
      ((∃ p, branchAnswer [northBranch, southBranch] "q" = .ok p) ∨
        ∃ k, branchAnswer [northBranch, southBranch] "q" = .error (.missingConnection k) ∧
          (branchSource [northBranch, southBranch]).store.connection? k = none) := by
  have hfaithful (lines : List Line) : (branchSource lines).Faithful := Source.faithful_ofStore _
  have hnarrows (l : Line) : (branchSource [l]).store.Narrows
      (branchSource [northBranch, southBranch]).store l := ⟨rfl, fun _ _ h => h⟩
  have hsouth : branchAnswer [southBranch] "q" =
      .ok ⟨southBranch, "s", "d", ⟨1, "q"⟩, "d", ⟨0⟩, false, 60, 10⟩ := rfl
  have hby : northBranch.ComesBy "s" "d" ["q", "s"] := ⟨.up, 2, rfl, rfl, by decide⟩
  obtain ⟨first, hfirst, halone, hshared⟩ := predict_by_first_line
    (hfaithful [northBranch, southBranch]) (Presence.empty.register ⟨"q", "d"⟩ ⟨0⟩) ⟨10000000000⟩
    "s" "d" ⟨northBranch, by decide, by decide⟩
  obtain rfl : northBranch = first := Option.some.inj hfirst
  exact ⟨hsouth, hby, (halone _ (hfaithful [northBranch]) (hnarrows northBranch)).1,
    hshared _ southBranch _ (hfaithful [southBranch]) (hnarrows southBranch) hsouth rfl hby⟩

/-- A vehicle seen on the second branch, before the two meet, is reported as not located. -/
theorem predict_misses_branch :
    ¬ ∀ (s r : Source) (l : Line) (presence : Presence) (now : Instant) (station direction : StationId)
      (p : Prediction), s.Faithful → r.Faithful → r.store.Narrows s.store l →
        l ∈ s.store.linesServing station → l.HasTerminal direction →
          (r.run (predict presence now station direction)).1 = .ok p →
            (∃ p', (s.run (predict presence now station direction)).1 = .ok p') ∧
              (s.run (predict presence now station direction)).1 ≠
                .error (.noVehicleLocated station direction) := by
  intro h
  have hsouth : branchAnswer [southBranch] "m" =
      .ok ⟨southBranch, "s", "d", ⟨0, "m"⟩, "d", ⟨0⟩, false, 120, 10⟩ := rfl
  have hboth : branchAnswer [northBranch, southBranch] "m" = .error (.noVehicleLocated "s" "d") := rfl
  have hfound := h (branchSource [northBranch, southBranch]) (branchSource [southBranch]) southBranch _ _
    _ _ _ (Source.faithful_ofStore _) (Source.faithful_ofStore _) ⟨rfl, fun _ _ h => h⟩ (by decide)
    (by decide) hsouth
  exact hfound.2 hboth

end Prediction

end Arrivals
