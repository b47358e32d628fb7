import Arrivals.Prediction.Basic

/-! Rides along a line and what they cost. Main statement: the stops from a place back to where
vehicles come from are the places from which one rides to it, and adding up edges from the near end
costs a ride as its edges do from the far end. -/

namespace Arrivals

def Store.rideSeconds? (st : Store) : List StationId → Option Int
  | [] => some 0
  | a :: rest =>
    match rest with
    | [] => some 0
    | b :: _ => do
      let c ← st.connection? ⟨a, b⟩
      let others ← st.rideSeconds? rest
      return c.typical.toInt + c.typicalStop.toInt + others

theorem Store.rideSeconds?_cons_cons {st : Store} {a b : StationId} {rest : List StationId} {n : Int} :
    st.rideSeconds? (a :: b :: rest) = some n ↔
      ∃ c m, st.connection? ⟨a, b⟩ = some c ∧ st.rideSeconds? (b :: rest) = some m ∧
        n = c.travelSeconds + m := by
  rw [rideSeconds?]
  simp only [Option.bind_eq_bind, Option.bind_eq_some_iff]
  constructor
  · rintro ⟨c, hc, m, hm, he⟩
    exact ⟨c, m, hc, hm, (Option.some.inj he).symm⟩
  · rintro ⟨c, m, hc, hm, rfl⟩
    exact ⟨c, hc, m, hm, rfl⟩

/-- Whether vehicles of a heading make the first place no later than the second. -/
def Heading.Reaches : Heading → Nat → Nat → Prop
  | .up, i, j => i ≤ j
  | .down, i, j => j ≤ i

namespace Line

/-- The stations from one place to another, both of them included. -/
def ride (l : Line) (i j : Nat) : List StationId :=
  if i ≤ j then (l.stations.drop i).take (j + 1 - i)
  else ((l.stations.drop j).take (i + 1 - j)).reverse

def outset (l : Line) : Heading → Nat
  | .up => 0
  | .down => l.stations.length - 1

@[simp] theorem length_stops (l : Line) : l.stops.length = l.stations.length := by simp [stops]

theorem getElem?_stops (l : Line) (i : Nat) : l.stops[i]? = (l.stations[i]?).map (Stop.mk i) := by
  rw [stops, List.getElem?_mapIdx]

theorem map_station_stops (l : Line) : l.stops.map Stop.station = l.stations := by
  refine List.ext_getElem? fun i => ?_
  rw [List.getElem?_map, getElem?_stops, Option.map_map]
  exact Option.map_id'

theorem getElem?_stops_eq_some {l : Line} {i : Nat} {s : Stop} (h : l.stops[i]? = some s) :
    s.index = i ∧ l.stations[i]? = some s.station := by
  rw [getElem?_stops, Option.map_eq_some_iff] at h
  obtain ⟨t, ht, rfl⟩ := h
  exact ⟨rfl, ht⟩

theorem stopsAlong_eq (l : Line) (h : Heading) :
    l.stopsAlong h = l.stopsBack (l.outset h) h.reversed := by
  cases h with
  | up => exact List.drop_zero.symm
  | down =>
    change l.stops.reverse = (l.stops.take (l.stations.length - 1 + 1)).reverse
    rw [List.take_of_length_le]
    rw [length_stops]
    omega

theorem mem_stopsBack {l : Line} {t i : Nat} {h : Heading} {s : StationId} (hr : h.Reaches i t)
    (hs : l.stations[i]? = some s) : ⟨i, s⟩ ∈ l.stopsBack t h := by
  have hstop : l.stops[i]? = some ⟨i, s⟩ := by rw [getElem?_stops, hs]; rfl
  cases h with
  | up =>
    have hi : (l.stops.take (t + 1))[i]? = some ⟨i, s⟩ := by
      rw [List.getElem?_take_of_lt (Nat.lt_succ_of_le hr), hstop]
    exact List.mem_reverse.mpr (List.mem_of_getElem? hi)
  | down =>
    have hi : (l.stops.drop t)[i - t]? = some ⟨i, s⟩ := by
      rw [List.getElem?_drop, Nat.add_sub_cancel' hr, hstop]
    exact List.mem_of_getElem? hi

theorem ride_of_ge {l : Line} {i j : Nat} (h : j ≤ i) :
    l.ride i j = ((l.stations.drop j).take (i + 1 - j)).reverse := by
  rw [ride]
  split
  next hle =>
    -- Of a single station it does not matter from which end it is read.
    obtain rfl : i = j := by omega
    rw [Nat.add_sub_cancel_left, List.take_one]
    cases (l.stations.drop i).head? <;> rfl
  next => rfl

/-- A stop and those before it in travel order are what is ridden from there. -/
theorem ride_of_prefix {l : Line} {t : Nat} {h : Heading} {nearer : List Stop} {s : Stop}
    (ht : t < l.stations.length) (hp : nearer ++ [s] <+: l.stopsBack t h) :
    h.Reaches s.index t ∧ l.stations[s.index]? = some s.station ∧
      (nearer ++ [s]).reverse.map Stop.station = l.ride s.index t := by
  have heq := List.prefix_iff_eq_take.mp hp
  have hs : (l.stopsBack t h)[nearer.length]? = some s := by
    rw [← List.getElem?_take_of_lt (Nat.lt_succ_self nearer.length)]
    simpa using congrArg (fun stops => stops[nearer.length]?) heq.symm
  rw [heq, List.length_append, List.length_singleton]
  generalize nearer.length = n at hs
  cases h with
  | up =>
    have hn : n < t + 1 := by
      have hlt := (List.getElem?_eq_some_iff.mp hs).1
      simp only [stopsBack, List.length_reverse, List.length_take] at hlt
      omega
    have hlen : (l.stops.take (t + 1)).length = t + 1 := by
      rw [List.length_take, length_stops]
      omega
    rw [stopsBack, List.getElem?_reverse (by omega), hlen,
      List.getElem?_take_of_lt (by omega)] at hs
    obtain ⟨hi, hstation⟩ := getElem?_stops_eq_some hs
    rw [← hi] at hstation
    refine ⟨show s.index ≤ t by omega, hstation, ?_⟩
    rw [stopsBack, List.take_reverse, List.reverse_reverse, hlen, List.map_drop, List.map_take,
      map_station_stops, ride, if_pos (by omega), List.drop_take]
    congr 2 <;> omega
  | down =>
    rw [stopsBack, List.getElem?_drop] at hs
    obtain ⟨hi, hstation⟩ := getElem?_stops_eq_some hs
    rw [← hi] at hstation
    refine ⟨show t ≤ s.index by omega, hstation, ?_⟩
    rw [stopsBack, List.map_reverse, List.map_take, List.map_drop, map_station_stops,
      ride_of_ge (by omega)]
    congr 3
    omega

/-- From each place that vehicles make before, the stop and those nearer are what is ridden. -/
theorem exists_prefix_of_reaches {l : Line} {t : Nat} {h : Heading} {s : Stop}
    (ht : t < l.stations.length) (hr : h.Reaches s.index t)
    (hs : l.stations[s.index]? = some s.station) :
    ∃ nearer, nearer ++ [s] <+: l.stopsBack t h ∧
      (nearer ++ [s]).reverse.map Stop.station = l.ride s.index t := by
  obtain ⟨nearer, rest, hback⟩ := List.append_of_mem (mem_stopsBack hr hs)
  have hp : nearer ++ [s] <+: l.stopsBack t h := ⟨rest, by rw [hback, List.append_assoc]; rfl⟩
  obtain ⟨-, -, hride⟩ := ride_of_prefix ht hp
  exact ⟨nearer, hp, hride⟩

theorem ride_outset {l : Line} {t : Nat} (h : Heading) (ht : t < l.stations.length) :
    (l.stopsBack t h).reverse.map Stop.station = l.ride (l.outset h) t := by
  cases h with
  | up =>
    rw [stopsBack, List.reverse_reverse, List.map_take, map_station_stops, outset, ride,
      if_pos (Nat.zero_le t), List.drop_zero, Nat.sub_zero]
  | down =>
    rw [stopsBack, List.map_reverse, List.map_drop, map_station_stops, outset,
      ride_of_ge (by omega), List.take_of_length_le]
    rw [List.length_drop]
    omega

end Line

namespace Prediction

variable {st : Store}

/-- Of stops one behind the other, `s` is one, and the ride from there to the first costs `n`. -/
inductive Behind (st : Store) : List Stop → Stop → Int → Prop
  | here {a rest} : Behind st (a :: rest) a 0
  | further {a b rest s n c} : st.connection? ⟨b.station, a.station⟩ = some c →
      Behind st (b :: rest) s n → Behind st (a :: b :: rest) s (c.travelSeconds + n)

theorem rideSeconds?_snoc {w : List StationId} {a b : StationId} {n : Int} :
    st.rideSeconds? (w ++ [b, a]) = some n ↔
      ∃ c m, st.connection? ⟨b, a⟩ = some c ∧ st.rideSeconds? (w ++ [b]) = some m ∧
        n = c.travelSeconds + m := by
  induction w generalizing n with
  | nil => exact Store.rideSeconds?_cons_cons
  | cons x w ih =>
    obtain ⟨y, w', hy⟩ : ∃ y w', w ++ [b] = y :: w' := by cases w <;> simp
    have hy' : w ++ [b, a] = y :: (w' ++ [a]) := by
      rw [← List.cons_append, ← hy, List.append_assoc]
      rfl
    rw [List.cons_append, List.cons_append, hy, hy']
    simp only [Store.rideSeconds?_cons_cons]
    rw [← hy, ← hy']
    constructor
    · rintro ⟨d, m, hd, hm, rfl⟩
      obtain ⟨c, k, hc, hk, rfl⟩ := ih.mp hm
      exact ⟨c, d.travelSeconds + k, hc, ⟨d, k, hd, hk, rfl⟩, by omega⟩
    · rintro ⟨c, m, hc, ⟨d, k, hd, hk, rfl⟩, rfl⟩
      exact ⟨d, c.travelSeconds + k, hd, ih.mpr ⟨c, k, hc, hk, rfl⟩, by omega⟩

theorem Behind.exists_prefix {stops : List Stop} {s : Stop} {n : Int} (h : Behind st stops s n) :
    ∃ nearer, nearer ++ [s] <+: stops ∧
      st.rideSeconds? ((nearer ++ [s]).reverse.map Stop.station) = some n := by
  induction h with
  | here => exact ⟨[], ⟨_, rfl⟩, rfl⟩
  | @further a b rest s n c hc _ ih =>
    obtain ⟨nearer, hp, hn⟩ := ih
    refine ⟨a :: nearer, List.cons_prefix_cons.mpr ⟨rfl, hp⟩, ?_⟩
    obtain ⟨w, hw⟩ : ∃ w, nearer ++ [s] = b :: w := by
      obtain ⟨rest', hrest⟩ := hp
      cases nearer with
      | nil => exact ⟨[], by rw [List.nil_append, List.cons_append] at hrest; cases hrest; rfl⟩
      | cons x nearer => exact ⟨nearer ++ [s], by cases hrest; rfl⟩
    rw [hw, List.reverse_cons, List.map_append] at hn
    rw [List.cons_append, hw, List.reverse_cons, List.reverse_cons, List.append_assoc,
      List.map_append]
    exact rideSeconds?_snoc.mpr ⟨c, n, hc, hn, rfl⟩

/-- What is ridden from a stop lies behind, with all edges of the ride there. -/
theorem Behind.of_ride {stops nearer : List Stop} {s : Stop} {n : Int} (hp : nearer ++ [s] <+: stops)
    (hn : st.rideSeconds? ((nearer ++ [s]).reverse.map Stop.station) = some n) :
    Behind st stops s n := by
  obtain ⟨rest, rfl⟩ := hp
  induction nearer generalizing n with
  | nil =>
    cases hn
    exact .here
  | cons a nearer ih =>
    obtain ⟨b, w, hw⟩ : ∃ b w, nearer ++ [s] = b :: w := by cases nearer <;> simp
    rw [List.cons_append, hw, List.reverse_cons, List.reverse_cons, List.append_assoc,
      List.map_append] at hn
    obtain ⟨c, m, hc, hm, rfl⟩ := rideSeconds?_snoc.mp hn
    rw [hw, List.reverse_cons, List.map_append] at ih
    rw [List.cons_append, List.cons_append, hw, List.cons_append]
    exact .further hc (ih hm)

/-- What lies behind a place of a line is reached from there by a ride along the line. -/
theorem Behind.ride {l : Line} {t : Nat} {h : Heading} {s : Stop} {n : Int}
    (hb : Behind st (l.stopsBack t h) s n) (ht : t < l.stations.length) :
    h.Reaches s.index t ∧ l.stations[s.index]? = some s.station ∧
      st.rideSeconds? (l.ride s.index t) = some n := by
  obtain ⟨nearer, hp, hn⟩ := hb.exists_prefix
  obtain ⟨hr, hs, he⟩ := Line.ride_of_prefix ht hp
  exact ⟨hr, hs, he ▸ hn⟩

end Prediction

end Arrivals
