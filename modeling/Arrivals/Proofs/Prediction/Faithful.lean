import Arrivals.Proofs.Prediction.Views

/-! Predictions while the store does not fail and the memo agrees with it. Main statement: asking the
live store and its memo, a prediction is the one that the store alone settles. -/

namespace Arrivals

/-- No call fails from now on, no commit is about to land, and what is remembered holds. -/
structure Source.Faithful (s : Source) : Prop where
  steady : s.Steady
  settled : s.overtaking = none
  remembered : ∀ k seconds, s.memo.get? k = some seconds → s.store.cost? k = some seconds

theorem Source.faithful_ofStore (st : Store) : (ofStore st).Faithful where
  steady _ _ _ := rfl
  settled := rfl
  remembered _ _ h := by cases h

/-- A memo that agrees with the store hides nothing of it. -/
theorem Source.Faithful.view_eq {s : Source} (h : s.Faithful) :
    View.of s.store s.memo = ⟨s.store, s.store.cost?⟩ := by
  rw [View.of, View.mk.injEq]
  refine ⟨rfl, funext fun k => ?_⟩
  cases hk : s.memo.get? k with
  | none => rfl
  | some seconds => exact (h.remembered k seconds hk).symm

theorem remembered_of_view_eq {store : Store} {memo : Memo}
    (h : View.of store memo = ⟨store, store.cost?⟩) (k : ConnectionKey) (seconds : Int)
    (hk : memo.get? k = some seconds) : store.cost? k = some seconds := by
  have hcost : (memo.get? k).or (store.cost? k) = store.cost? k := congrFun (congrArg View.cost? h) k
  rw [← hcost, hk]
  rfl

namespace Access

variable {ε α : Type}

/-- On a store, as long as all is well, `x` answers `y` and changes no more than the memo. -/
def Follows (st : Store) (x : Access ε α) (y : Except ε α) : Prop :=
  ∀ s : Source, s.Faithful → s.store = st →
    ∃ s', s.run x = (y, s') ∧ s'.Faithful ∧ s'.store = st

theorem Obeys.follows {st : Store} {fail : StoreError → ε} {x : Access ε α} {y : Except ε α}
    (h : Obeys ⟨st, st.cost?⟩ fail x y) : Follows st x y := by
  rintro s hs rfl
  obtain ⟨calls, memo', hv, hmakes⟩ := h.makes s.memo hs.view_eq
  have hrun := hmakes.through s.outage s.calls (hs.steady.first? calls)
  rw [← hs.settled] at hrun
  refine ⟨_, hrun, ⟨fun n call hn => ?_, hs.settled, remembered_of_view_eq hv⟩, rfl⟩
  exact hs.steady n call (Nat.le_trans (Nat.le_add_right _ _) hn)

end Access

/-- While the store does not fail and the memo agrees with it, neither is seen in a prediction. -/
theorem follows_predict (st : Store) (presence : Presence) (now : Instant)
    (station direction : StationId) :
    Access.Follows st (predict presence now station direction)
      (Prediction.predictWith (.ofStore st) presence now station direction) :=
  (obeys_predict ⟨st, st.cost?⟩ presence now station direction).follows

end Arrivals
