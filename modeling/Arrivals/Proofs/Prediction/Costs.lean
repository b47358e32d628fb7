import Arrivals.Proofs.Prediction.Views

/-! The costs that the two scans go by. Main statement: where no edge costs less than nothing, the way
never gets shorter as a scan moves along the line. -/

namespace Arrivals

namespace Prediction

/-- What a scan is shown of a stop counts at one cost only: of the first stop at the first of these costs, of
the second at the second, and so on as far as they go. -/
def GoesBy (v : View) (path : Int) (stops : List Stop) (costs : List Int) : Prop :=
  ∀ observe observe' : Stop → Int → Option Candidate,
    (∀ e ∈ stops.zip costs, observe e.1 e.2 = observe' e.1 e.2) → ∀ search : Search,
      scan (.seen v) observe path search stops = scan (.seen v) observe' path search stops

/-- A scan that starts with this cost goes by costs that never fall. -/
def Climbs (v : View) (path : Int) (stops : List Stop) : Prop :=
  ∃ costs, GoesBy v path stops costs ∧ (path :: costs).Pairwise (· ≤ ·)

/-- Neither scan for vehicles that come to a place of a line finds the way to get shorter. The second starts
with the way from the far terminal and the time that it takes to turn around there. -/
structure Climbing (v : View) (line : Line) (heading : Heading) (target : Nat) : Prop where
  approaching : Climbs v 0 (line.stopsBack target heading)
  reversing : ∀ leg, pathTime (.seen v) (line.stopsBack target heading).reverse = .ok leg →
    0 ≤ leg ∧ Climbs v (reversalSeconds + leg) (line.stopsAlong heading)

variable {v : View}

theorem edgeSeconds_seen (a b : Stop) :
    edgeSeconds (.seen v) a b =
      match v.cost? ⟨a.station, b.station⟩ with
      | some seconds => .ok seconds
      | none => .error (.missingConnection ⟨a.station, b.station⟩) := rfl

theorem goesBy_nil (path : Int) : GoesBy v path [] [] := fun _ _ _ _ => rfl

theorem goesBy_singleton (path : Int) (a : Stop) : GoesBy v path [a] [path] := by
  intro observe observe' h search
  rw [scan, scan, h (a, path) (by simp)]

theorem GoesBy.cons_of_missing {path : Int} {a b : Stop} (rest : List Stop)
    (h : v.cost? ⟨b.station, a.station⟩ = none) : GoesBy v path (a :: b :: rest) [path] := by
  intro observe observe' hsame search
  rw [scan, scan, hsame (a, path) (by simp), edgeSeconds_seen, h]
  rfl

theorem GoesBy.cons {path edge : Int} {a b : Stop} {rest : List Stop} {costs : List Int}
    (hedge : v.cost? ⟨b.station, a.station⟩ = some edge)
    (h : GoesBy v (path + edge) (b :: rest) costs) :
    GoesBy v path (a :: b :: rest) (path :: costs) := by
  intro observe observe' hsame search
  have hfirst := hsame (a, path) (by simp)
  have hrest := h observe observe' fun e he => hsame e (by
    rw [List.zip_cons_cons]
    exact List.mem_cons_of_mem _ he)
  rw [scan, scan, hfirst, edgeSeconds_seen, hedge]
  split
  · exact hrest _
  · rfl

theorem climbs (hcost : ∀ k seconds, v.cost? k = some seconds → 0 ≤ seconds) (path : Int)
    (stops : List Stop) : Climbs v path stops := by
  induction stops generalizing path with
  | nil => exact ⟨[], goesBy_nil path, by simp⟩
  | cons a rest ih =>
    cases rest with
    | nil => exact ⟨[path], goesBy_singleton path a, by simp⟩
    | cons b rest =>
      cases hedge : v.cost? ⟨b.station, a.station⟩ with
      | none => exact ⟨[path], .cons_of_missing rest hedge, by simp⟩
      | some edge =>
        obtain ⟨costs, hgoes, hclimb⟩ := ih (path + edge)
        have hpath : path ≤ path + edge := Int.le_add_of_nonneg_right (hcost _ _ hedge)
        have hle : ∀ n ∈ costs, path ≤ n := fun n hn =>
          Int.le_trans hpath (List.rel_of_pairwise_cons hclimb hn)
        refine ⟨path :: costs, hgoes.cons hedge, ?_⟩
        simp only [List.pairwise_cons, List.mem_cons, forall_eq_or_imp]
        exact ⟨⟨Int.le_refl path, hle⟩, hle, (List.pairwise_cons.mp hclimb).2⟩

theorem pathTime_nonneg (hcost : ∀ k seconds, v.cost? k = some seconds → 0 ≤ seconds)
    {stops : List Stop} {leg : Int} (h : pathTime (.seen v) stops = .ok leg) : 0 ≤ leg := by
  induction stops generalizing leg with
  | nil => cases h; exact Int.le_refl 0
  | cons a rest ih =>
    cases rest with
    | nil => cases h; exact Int.le_refl 0
    | cons b rest =>
      obtain ⟨first, hfirst, h⟩ := bind_eq_ok h
      obtain ⟨others, hothers, h⟩ := bind_eq_ok h
      cases h
      rw [edgeSeconds_seen] at hfirst
      cases hedge : v.cost? ⟨a.station, b.station⟩ with
      | none => rw [hedge] at hfirst; cases hfirst
      | some seconds =>
        rw [hedge] at hfirst
        cases hfirst
        exact Int.add_nonneg (hcost _ _ hedge) (ih hothers)

theorem climbing (hcost : ∀ k seconds, v.cost? k = some seconds → 0 ≤ seconds) (line : Line)
    (heading : Heading) (target : Nat) : Climbing v line heading target where
  approaching := climbs hcost 0 _
  reversing _ h := ⟨pathTime_nonneg hcost h, climbs hcost _ _⟩

end Prediction

end Arrivals
