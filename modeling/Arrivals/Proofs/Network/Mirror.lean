import Arrivals.Proofs.Prediction.Rides
import Arrivals.Store.Basic
import Mathlib.Data.List.Nodup

/-! Lines read from their other end. Main statement: where no station comes twice, mirroring a line
swaps its headings and counts its stops from the other end; vehicles make the same stops as before. -/

namespace Arrivals

namespace Line

def mirrored (l : Line) : Line := { l with stations := l.stations.reverse }

/-- The place of a stop, counted from the other end. -/
def opposite (l : Line) (i : Nat) : Nat := l.stations.length - 1 - i

end Line

def Stop.mirrored (l : Line) (s : Stop) : Stop := { s with index := l.opposite s.index }

def Store.mirrored (st : Store) : Store := { st with lines := st.lines.map Line.mirrored }

/-- No line stops twice at a station. -/
def Store.EachOnce (st : Store) : Prop := ∀ l ∈ st.lines, l.stations.Nodup

instance (st : Store) : Decidable st.EachOnce := inferInstanceAs (Decidable (∀ _ ∈ _, _))

namespace Line

variable {l : Line} {h : Heading}

@[simp] theorem length_mirrored (l : Line) :
    l.mirrored.stations.length = l.stations.length := List.length_reverse

theorem terminal?_mirrored (l : Line) (h : Heading) :
    l.mirrored.terminal? h = l.terminal? h.reversed := by
  cases h with
  | up => exact List.getLast?_reverse
  | down => exact List.head?_reverse

theorem getElem?_mirrored {i : Nat} (hi : i < l.stations.length) :
    l.mirrored.stations[l.opposite i]? = l.stations[i]? := by
  rw [mirrored, opposite, List.getElem?_reverse (by omega)]
  congr 1
  omega

/-- With at least two stations, of which none comes twice, the terminals differ. -/
theorem first?_ne_last? (hl : l.stations.Nodup) (hlen : 2 ≤ l.stations.length) :
    l.first? ≠ l.last? := by
  rw [first?, last?, List.head?_eq_getElem?, List.getLast?_eq_getElem?]
  intro he
  have hplaces : 0 = l.stations.length - 1 := (List.getElem?_inj (by omega) hl).mp he
  omega

theorem headingTowards?_mirrored (hl : l.stations.Nodup) (terminal : StationId) :
    l.mirrored.headingTowards? terminal = (l.headingTowards? terminal).map Heading.reversed := by
  have hfirst : l.mirrored.first? = l.last? := l.terminal?_mirrored .down
  have hlast : l.mirrored.last? = l.first? := l.terminal?_mirrored .up
  rw [headingTowards?, headingTowards?, length_mirrored, hfirst, hlast]
  by_cases hlen : l.stations.length < 2
  · rw [if_pos hlen, if_pos hlen]
    rfl
  · rw [if_neg hlen, if_neg hlen]
    by_cases hup : l.last? = some terminal
    · -- The first test is for the last station, so it matters that this is not the first one too.
      have hdown : l.first? ≠ some terminal := hup ▸ first?_ne_last? hl (by omega)
      rw [if_neg hdown, if_pos hup, if_pos hup]
      rfl
    · rw [if_neg hup]
      split <;> rfl

theorem position?_eq_some_iff (hl : l.stations.Nodup) {s : StationId} {i : Nat} :
    l.position? s = some i ↔ l.stations[i]? = some s := by
  rw [position?, List.findIdx?_eq_some_iff_getElem]
  constructor
  · rintro ⟨hi, hs, -⟩
    rw [List.getElem?_eq_getElem hi, of_decide_eq_true hs]
  · intro hs
    obtain ⟨hi, hs⟩ := List.getElem?_eq_some_iff.mp hs
    refine ⟨hi, decide_eq_true hs, fun j hj hjs => ?_⟩
    have hplaces : j = i :=
      (List.Nodup.getElem_inj_iff hl).mp ((of_decide_eq_true hjs).trans hs.symm)
    omega

theorem position?_mirrored (hl : l.stations.Nodup) (s : StationId) :
    l.mirrored.position? s = (l.position? s).map l.opposite := by
  cases hs : l.position? s with
  | none =>
    rw [position?, List.findIdx?_eq_none_iff] at hs
    rw [Option.map_none, position?, List.findIdx?_eq_none_iff]
    exact fun t ht => hs t (List.mem_reverse.mp ht)
  | some i =>
    rw [position?_eq_some_iff hl] at hs
    rw [Option.map_some, position?_eq_some_iff (List.nodup_reverse.mpr hl),
      getElem?_mirrored (List.getElem?_eq_some_iff.mp hs).1, hs]

theorem next?_mirrored {i : Nat} (hi : i < l.stations.length) (h : Heading) :
    l.mirrored.next? (l.opposite i) h = (l.next? i h.reversed).map l.opposite := by
  cases h <;>
    simp only [next?, Heading.reversed, length_mirrored] <;>
    split <;> split <;>
    simp only [opposite, Option.map_some, Option.map_none, Option.some.injEq, reduceCtorEq] at * <;>
    omega

theorem getElem?_stops_mirrored {i : Nat} (hi : i < l.stations.length) :
    l.mirrored.stops[l.opposite i]? = (l.stops[i]?).map (Stop.mirrored l) := by
  rw [getElem?_stops, getElem?_stops, getElem?_mirrored hi, Option.map_map]
  rfl

theorem stops_mirrored (l : Line) : l.mirrored.stops = (l.stops.map (Stop.mirrored l)).reverse := by
  refine List.ext_getElem (by simp) fun i _ _ => ?_
  simp [stops, Stop.mirrored, opposite, mirrored]

theorem stopsAlong_mirrored (l : Line) (h : Heading) :
    l.mirrored.stopsAlong h = (l.stopsAlong h.reversed).map (Stop.mirrored l) := by
  cases h with
  | up => rw [stopsAlong, stops_mirrored, ← List.map_reverse]; rfl
  | down => rw [stopsAlong, stops_mirrored, List.reverse_reverse]; rfl

theorem stopsBack_mirrored {t : Nat} (ht : t < l.stations.length) (h : Heading) :
    l.mirrored.stopsBack (l.opposite t) h = (l.stopsBack t h.reversed).map (Stop.mirrored l) := by
  cases h with
  | up =>
    have hlen : l.stations.length - (l.opposite t + 1) = t := by rw [opposite]; omega
    rw [stopsBack, stops_mirrored, List.take_reverse, List.reverse_reverse, List.length_map,
      length_stops, hlen, ← List.map_drop]
    rfl
  | down =>
    have hlen : l.stations.length - l.opposite t = t + 1 := by rw [opposite]; omega
    rw [stopsBack, stops_mirrored, List.drop_reverse, List.length_map, length_stops, hlen,
      ← List.map_take, ← List.map_reverse]
    rfl

end Line

namespace Store

variable {st : Store}

theorem EachOnce.of_mem_linesServing (hst : st.EachOnce) {station : StationId} {l : Line}
    (hl : l ∈ st.linesServing station) : l.stations.Nodup := by
  rw [linesServing, List.mem_flatMap] at hl
  obtain ⟨k, hk, hl⟩ := hl
  obtain ⟨_, _, rfl⟩ := List.mem_map.mp hl
  exact hst k hk

theorem EachOnce.of_line? (hst : st.EachOnce) {id : LineId} {l : Line} (hl : st.line? id = some l) :
    l.stations.Nodup :=
  hst l (List.mem_reverse.mp (List.mem_of_find?_eq_some hl))

theorem linesServing_mirrored (st : Store) (station : StationId) :
    st.mirrored.linesServing station = (st.linesServing station).map Line.mirrored := by
  rw [linesServing, linesServing, List.map_flatMap, mirrored, List.flatMap_map]
  refine congrArg (fun f => st.lines.flatMap f) (funext fun l => ?_)
  rw [Line.mirrored, List.filter_reverse, List.map_reverse, List.map_const', List.reverse_replicate,
    List.map_map, Function.comp_def, List.map_const']
  rfl

theorem line?_mirrored (st : Store) (id : LineId) :
    st.mirrored.line? id = (st.line? id).map Line.mirrored := by
  rw [line?, mirrored, ← List.map_reverse, List.find?_map]
  rfl

end Store

end Arrivals
