import Arrivals.Forecast
import Arrivals.Proofs.Board.Leases
import Arrivals.Proofs.Prediction.Views
import Mathlib.Data.List.Induction

/-! Walking over the stops and filing what is predicted for them. Main statement: whatever was asked
before, each stop gets what is predicted for it at the start of the walk, and nothing else changes; a
call that fails ends the walk. -/

namespace Arrivals.Forecast

variable {v : View} {presence : Presence} {now : Instant} {validity : Span}
  {ask : Sight → Except PredictionError Prediction}

/-- Where one of the queries has an answer, the later board holds it, as long as it is valid at all;
everywhere else it holds what the earlier one does. -/
structure Filled (ask : Sight → Except PredictionError Prediction) (now : Instant) (validity : Span)
    (asked : Sight → Prop) (before after : Board) : Prop where
  entered : ∀ q p, asked q → ask q = .ok p → (⟨0⟩ : Span) < validity →
    after.lease? ⟨q.station, q.direction, 1⟩ =
      some ⟨⟨p.vehicle, p.line.id, q.station, q.direction, now, validity, p.line.typicalCars, none,
        .exact p.etaSeconds, .seconds⟩, now.after validity⟩
  kept : ∀ slot, (∀ q p, asked q → ask q = .ok p → (⟨0⟩ : Span) < validity →
    slot ≠ ⟨q.station, q.direction, 1⟩) → after.lease? slot = before.lease? slot

def fill (ask : Sight → Except PredictionError Prediction) (now : Instant) (validity : Span)
    (b : Board) (q : Sight) : Board :=
  match ask q with
  | .ok p => b.set now ⟨q.station, q.direction, 1⟩ (p.arrival now validity)
  | .error _ => b

theorem lt_after_iff : now < now.after validity ↔ (⟨0⟩ : Span) < validity := by
  change now.nanos < now.nanos + validity.nanos ↔ 0 < validity.nanos
  omega

theorem lease?_fill {q : Sight} {p : Prediction} (hp : ask q = .ok p)
    (hask : p.station = q.station ∧ p.direction = q.direction) (hvalid : (⟨0⟩ : Span) < validity)
    (b : Board) :
    (fill ask now validity b q).lease? ⟨q.station, q.direction, 1⟩ =
      some ⟨⟨p.vehicle, p.line.id, q.station, q.direction, now, validity, p.line.typicalCars, none,
        .exact p.etaSeconds, .seconds⟩, now.after validity⟩ := by
  have hlate : now < (p.arrival now validity).expires := lt_after_iff.mpr hvalid
  rw [fill, hp]
  dsimp only
  rw [Board.lease?_set, if_pos ⟨rfl, hlate⟩, ← hask.1, ← hask.2]
  rfl

theorem lease?_fill_of_ne {q : Sight} {slot : Slot}
    (h : ∀ p, ask q = .ok p → (⟨0⟩ : Span) < validity → slot ≠ ⟨q.station, q.direction, 1⟩)
    (b : Board) : (fill ask now validity b q).lease? slot = b.lease? slot := by
  rw [fill]
  cases hq : ask q with
  | error e => rfl
  | ok p =>
    dsimp only
    rw [Board.lease?_set]
    exact if_neg fun hset => h p hq (lt_after_iff.mp hset.2) hset.1.symm

theorem filled_refl (b : Board) : Filled ask now validity (fun _ => False) b b :=
  ⟨nofun, fun _ _ => rfl⟩

theorem Filled.congr {ask' : Sight → Except PredictionError Prediction} {asked asked' : Sight → Prop}
    {b b' : Board} (h : Filled ask now validity asked b b') (hask : ∀ q, ask' q = ask q)
    (hasked : ∀ q, asked' q ↔ asked q) : Filled ask' now validity asked' b b' := by
  obtain rfl : ask' = ask := funext hask
  obtain rfl : asked' = asked := funext fun q => propext (hasked q)
  exact h

/-- One more query settles its own slot and leaves those of the others. -/
theorem Filled.snoc {asked : Sight → Prop} {b b' : Board} (h : Filled ask now validity asked b b')
    (last : Sight) (hask : ∀ p, ask last = .ok p →
      p.station = last.station ∧ p.direction = last.direction) :
    Filled ask now validity (fun q => asked q ∨ q = last) b (fill ask now validity b' last) where
  entered q p hq hp hvalid := by
    by_cases hsame : q = last
    · subst hsame
      exact lease?_fill hp (hask p hp) hvalid b'
    · have hslot : (⟨q.station, q.direction, 1⟩ : Slot) ≠ ⟨last.station, last.direction, 1⟩ := by
        intro hslot
        cases q; cases last; cases hslot
        exact hsame rfl
      rw [lease?_fill_of_ne (fun _ _ _ => hslot)]
      exact h.entered q p (hq.resolve_right hsame) hp hvalid
  kept slot hslot := by
    rw [lease?_fill_of_ne (hslot last · (.inr rfl))]
    exact h.kept slot fun q p hq => hslot q p (.inl hq)

theorem filled_foldl
    (hask : ∀ q p, ask q = .ok p → p.station = q.station ∧ p.direction = q.direction)
    (b : Board) (walk : List Sight) :
    Filled ask now validity (· ∈ walk) b (walk.foldl (fill ask now validity) b) := by
  induction walk using List.reverseRecOn with
  | nil => exact (filled_refl b).congr (fun _ => rfl) (by simp)
  | append_singleton walk last ih =>
    rw [List.foldl_append, List.foldl_cons, List.foldl_nil]
    exact (ih.snoc last (hask last)).congr (fun _ => rfl) (by simp)

/-- What is filed by a walk is still there after a sweep at its time. -/
theorem Filled.sweep {asked : Sight → Prop} {b b' : Board} (h : Filled ask now validity asked b b') :
    Filled ask now validity asked (b.sweep now) (b'.sweep now) where
  entered q p hq hp hvalid := by
    rw [Board.lease?_sweep, h.entered q p hq hp hvalid, Option.filter_some]
    exact if_pos (decide_eq_true (lt_after_iff.mpr hvalid))
  kept slot hslot := by rw [Board.lease?_sweep, Board.lease?_sweep, h.kept slot hslot]

/-- What is predicted for a stop where this is in view. -/
def foretold (v : View) (presence : Presence) (now : Instant) (q : Sight) :
    Except PredictionError Prediction :=
  Prediction.predictWith (.seen v) presence now q.station q.direction

/-- A query on its own, while no call fails, is answered with what is foretold. -/
theorem fst_run_predict_never (store : Store) (memo : Memo) (presence : Presence) (now : Instant)
    (q : Sight) :
    (Source.run ⟨store, memo, .never, 0, none⟩ (predict presence now q.station q.direction)).1 =
      foretold (.of store memo) presence now q := by
  obtain ⟨calls, memo', -, hmakes⟩ :=
    (obeys_predict (.of store memo) presence now q.station q.direction).makes memo rfl
  have hnone : Outage.never.first? 0 calls = none := Outage.first?_of_none (fun _ _ _ => rfl) calls
  exact congrArg Prod.fst (hmakes.through .never 0 hnone)

theorem asked_foretold {q : Sight} {p : Prediction} (h : foretold v presence now q = .ok p) :
    p.station = q.station ∧ p.direction = q.direction :=
  Prediction.asked_predictWith h

/-- The part of a walk that is done before a call fails. -/
def completed (presence : Presence) (now : Instant) (source : Source) : List Sight → List Sight
  | [] => []
  | q :: rest =>
    match source.run (predict presence now q.station q.direction) with
    | (.error (.store _), _) => []
    | (_, source) => q :: completed presence now source rest

/-- What is predicted along a walk before a call fails. -/
def foundAlong (presence : Presence) (now : Instant) (source : Source) : List Sight → List Prediction
  | [] => []
  | q :: rest =>
    match source.run (predict presence now q.station q.direction) with
    | (.ok p, source) => p :: foundAlong presence now source rest
    | (.error (.store _), _) => []
    | (.error _, source) => foundAlong presence now source rest

section Step

variable {p : Progress} {q : Sight} {source : Source}

/-- What is known once the answer to a query is there. -/
def Progress.tally (p : Progress) (now : Instant) (validity : Span) (q : Sight) (source : Source) :
    Except PredictionError Prediction → Progress
  | .ok found => ⟨source, p.board.set now ⟨q.station, q.direction, 1⟩ (found.arrival now validity),
      p.predictions + 1, p.softFailures⟩
  | .error _ => ⟨source, p.board, p.predictions, p.softFailures + 1⟩

theorem Progress.source_tally (p : Progress) (now : Instant) (validity : Span) (q : Sight)
    (source : Source) (y : Except PredictionError Prediction) :
    (p.tally now validity q source y).source = source := by
  cases y with
  | ok found => rfl
  | error e => rfl

theorem Progress.tally_with_source (p : Progress) (now : Instant) (validity : Span) (q : Sight)
    (before source : Source) (y : Except PredictionError Prediction) :
    Progress.tally { p with source := before } now validity q source y =
      { p.tally now validity q p.source y with source } := by
  cases y with
  | ok found => rfl
  | error e => rfl

theorem predictAll_of_failed (validity : Span) {e : StoreError}
    (hrun : p.source.run (predict presence now q.station q.direction) = (.error (.store e), source))
    (rest : List Sight) :
    predictAll presence now validity p (q :: rest) = (some e, { p with source }) := by
  rw [predictAll, hrun]

theorem foundAlong_of_failed {s : Source} {e : StoreError}
    (hrun : s.run (predict presence now q.station q.direction) = (.error (.store e), source))
    {rest : List Sight} : foundAlong presence now s (q :: rest) = [] := by
  rw [foundAlong, hrun]

theorem predictAll_of_answered (validity : Span) {y : Except PredictionError Prediction}
    (hrun : p.source.run (predict presence now q.station q.direction) = (y, source))
    (hy : ∀ e, y ≠ .error (.store e)) (rest : List Sight) :
    predictAll presence now validity p (q :: rest) =
      predictAll presence now validity (p.tally now validity q source y) rest := by
  rw [predictAll, hrun]
  cases y with
  | ok found => rfl
  | error e =>
    cases e with
    | store e => exact absurd rfl (hy e)
    | _ => rfl

theorem foundAlong_of_answered {s : Source} {y : Except PredictionError Prediction}
    (hrun : s.run (predict presence now q.station q.direction) = (y, source))
    (hy : ∀ e, y ≠ .error (.store e)) {rest : List Sight} :
    foundAlong presence now s (q :: rest) = y.toOption.toList ++ foundAlong presence now source rest := by
  rw [foundAlong, hrun]
  cases y with
  | ok found => rfl
  | error e =>
    cases e with
    | store e => exact absurd rfl (hy e)
    | _ => rfl

theorem predictAll_of_answer (validity : Span)
    (hrun : p.source.run (predict presence now q.station q.direction) = (ask q, source))
    (hown : ∀ e, ask q ≠ .error (.store e)) (rest : List Sight) :
    ∃ predictions softFailures, predictions + softFailures = p.predictions + p.softFailures + 1 ∧
      predictAll presence now validity p (q :: rest) = predictAll presence now validity
        ⟨source, fill ask now validity p.board q, predictions, softFailures⟩ rest := by
  rw [predictAll_of_answered validity hrun hown, fill]
  cases ask q with
  | ok found => exact ⟨p.predictions + 1, p.softFailures, by omega, rfl⟩
  | error e => exact ⟨p.predictions, p.softFailures + 1, by omega, rfl⟩

theorem completed_of_answer
    (hrun : p.source.run (predict presence now q.station q.direction) = (ask q, source))
    (hown : ∀ e, ask q ≠ .error (.store e)) (rest : List Sight) :
    completed presence now p.source (q :: rest) = q :: completed presence now source rest := by
  rw [completed, hrun]
  cases hq : ask q with
  | ok found => rfl
  | error e =>
    cases e with
    | store e => exact absurd hq (hown e)
    | _ => rfl

end Step

/-- What comes of a walk that makes these calls as long as none fails. -/
structure Walked (ask : Sight → Except PredictionError Prediction) (presence : Presence)
    (now : Instant) (validity : Span) (p : Progress) (calls : List Call) (walk : List Sight)
    (out : Option StoreError × Progress) : Prop where
  error : out.1 = (p.source.outage.first? p.source.calls calls).map Prod.snd
  whole : out.1 = none → completed presence now p.source walk = walk
  board : out.2.board =
    (completed presence now p.source walk).foldl (fill ask now validity) p.board
  counted : out.2.predictions + out.2.softFailures =
    p.predictions + p.softFailures + (completed presence now p.source walk).length

theorem Walked.cons {p next : Progress} {q : Sight} {first others : List Call} {rest : List Sight}
    {out : Option StoreError × Progress}
    (h : Walked ask presence now validity next others rest out)
    (hrun : p.source.run (predict presence now q.station q.direction) = (ask q, next.source))
    (hown : ∀ e, ask q ≠ .error (.store e))
    (hfirst : p.source.outage.first? p.source.calls first = none)
    (hboard : next.board = fill ask now validity p.board q)
    (hcount : next.predictions + next.softFailures = p.predictions + p.softFailures + 1)
    (houtage : next.source.outage = p.source.outage)
    (hcalls : next.source.calls = p.source.calls + first.length) :
    Walked ask presence now validity p (first ++ others) (q :: rest) out where
  error := by rw [h.error, Outage.first?_append, hfirst, Option.none_or, houtage, hcalls]
  whole hnone := by rw [completed_of_answer hrun hown, h.whole hnone]
  board := by rw [completed_of_answer hrun hown, h.board, hboard, List.foldl_cons]
  counted := by
    rw [completed_of_answer hrun hown, h.counted, hcount, List.length_cons]
    omega

/-- Each query is answered from what is in view at the start, whatever the ones before it remembered. -/
theorem exists_walked (presence : Presence) (now : Instant) (walk : List Sight) {memo : Memo}
    (hv : View.of v.store memo = v) :
    ∃ calls, ∀ (validity : Span) (outage : Outage) (n : Nat) (board : Board) (predictions soft : Nat),
      let p : Progress := ⟨⟨v.store, memo, outage, n, none⟩, board, predictions, soft⟩
      Walked (foretold v presence now) presence now validity p calls walk
        (predictAll presence now validity p walk) := by
  induction walk generalizing memo with
  | nil => exact ⟨[], fun _ _ _ _ _ _ => ⟨rfl, fun _ => rfl, rfl, rfl⟩⟩
  | cons q rest ih =>
    have hobeys := obeys_predict v presence now q.station q.direction
    obtain ⟨first, memo', hv', hmakes⟩ := hobeys.makes memo hv
    obtain ⟨others, hothers⟩ := ih hv'
    refine ⟨first ++ others, fun validity outage n board predictions soft => ?_⟩
    intro p
    cases hfirst : outage.first? n first with
    | none =>
      have hrun : p.source.run (predict presence now q.station q.direction) =
          (foretold v presence now q, _) := hmakes.through outage n hfirst
      obtain ⟨predictions', soft', hcount, hstep⟩ :=
        predictAll_of_answer validity hrun hobeys.own rest
      rw [hstep]
      exact (hothers validity outage _ _ predictions' soft').cons hrun hobeys.own hfirst rfl hcount
        rfl rfl
    | some failure =>
      obtain ⟨m, e⟩ := failure
      obtain ⟨memo'', hrun⟩ := hmakes.failed outage n m e hfirst
      have hdone : completed presence now p.source (q :: rest) = [] := by rw [completed, hrun]
      have herror : outage.first? n (first ++ others) = some (m, e) := by
        rw [Outage.first?_append, hfirst, Option.some_or]
      rw [predictAll, hrun]
      exact ⟨by rw [herror]; rfl, nofun, by rw [hdone]; rfl, by rw [hdone]; rfl⟩

end Arrivals.Forecast
