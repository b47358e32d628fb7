import Arrivals.Proofs.Access
import Arrivals.Proofs.Prediction.Related

/-! Queries on a store that may fail, with a memo that need not agree with it. Main statement: while no
commit lands, a prediction is settled by the lines of the store and the cost that each edge has in the
memo or else in the store. The calls it makes are the same whichever of them fail; the first that does
is the last, and its error the answer. -/

namespace Arrivals

/-- What queries go by. -/
structure View where
  store : Store
  cost? : ConnectionKey → Option Int

def Atlas.seen (v : View) : Atlas (Except PredictionError) where
  line? id := .ok (v.store.line? id)
  linesServing station := .ok (v.store.linesServing station)
  cost? k := .ok (v.cost? k)

/-- A cost that is remembered is not read again. -/
def View.of (store : Store) (memo : Memo) : View :=
  ⟨store, fun k => (memo.get? k).or (store.cost? k)⟩

theorem View.of_remember {store : Store} {k : ConnectionKey} {c : Connection}
    (hc : store.connection? k = some c) (memo : Memo) (generation : Nat) :
    of store (memo.remember generation k c.travelSeconds) = of store memo := by
  have hcost : store.cost? k = some c.travelSeconds := by rw [Store.cost?, hc]; rfl
  rw [of, of, View.mk.injEq]
  refine ⟨rfl, funext fun j => ?_⟩
  rw [Memo.remember]
  split
  next hfree =>
    rw [Memo.get?, Table.get?_insert]
    by_cases hj : k = j
    · subst hj
      rw [if_pos rfl, hfree.2, hcost]
      rfl
    · rw [if_neg hj, Memo.get?]
  next => rfl

namespace Outage

/-- Of calls in a row the first that fails: how many calls there were before it, and its error. -/
def first? (outage : Outage) : Nat → List Call → Option (Nat × StoreError)
  | _, [] => none
  | n, call :: rest =>
    match outage n call with
    | some e => some (n, e)
    | none => first? outage (n + 1) rest

theorem first?_append (outage : Outage) (n : Nat) (calls more : List Call) :
    first? outage n (calls ++ more) =
      (first? outage n calls).or (first? outage (n + calls.length) more) := by
  induction calls generalizing n with
  | nil => rfl
  | cons call rest ih =>
    rw [List.cons_append, first?, first?]
    cases outage n call with
    | some e => rfl
    | none =>
      dsimp only
      rw [ih, List.length_cons, Nat.add_assoc, Nat.add_comm 1]

theorem first?_of_none {outage : Outage} {n : Nat} (h : ∀ m call, n ≤ m → outage m call = none)
    (calls : List Call) : first? outage n calls = none := by
  induction calls generalizing n with
  | nil => rfl
  | cons call rest ih =>
    rw [first?, h n call (Nat.le_refl n)]
    exact ih fun m call hm => h m call (Nat.le_of_succ_le hm)

end Outage

theorem Source.Steady.first? {s : Source} (h : s.Steady) (calls : List Call) :
    s.outage.first? s.calls calls = none :=
  Outage.first?_of_none (fun n call => h n call) calls

namespace Access

variable {ε α β : Type} {store : Store} {fail : StoreError → ε} {memo memo' memo'' : Memo}
  {calls more : List Call}

/-- On a store and a memo, `x` makes these calls, answers `y` and leaves another memo. If one of them
fails, the first to do so is the last to be made, and its error the answer. -/
structure Makes (store : Store) (fail : StoreError → ε) (x : Access ε α) (memo : Memo)
    (calls : List Call) (y : Except ε α) (memo' : Memo) : Prop where
  through : ∀ (outage : Outage) n, outage.first? n calls = none →
    Source.run ⟨store, memo, outage, n, none⟩ x =
      (y, ⟨store, memo', outage, n + calls.length, none⟩)
  failed : ∀ (outage : Outage) n m e, outage.first? n calls = some (m, e) → ∃ memo'',
    Source.run ⟨store, memo, outage, n, none⟩ x =
      (.error (fail e), ⟨store, memo'', outage, m + 1, none⟩)

namespace Makes

theorem pure (a : α) : Makes store fail (pure a : Access ε α) memo [] (.ok a) memo where
  through _ _ _ := rfl
  failed := nofun

theorem throw (e : ε) : Makes store fail (throw e : Access ε α) memo [] (.error e) memo where
  through _ _ _ := rfl
  failed := nofun

theorem bind_of_ok {x : Access ε α} {f : α → Access ε β} {a : α} {y : Except ε β}
    (hx : Makes store fail x memo calls (.ok a) memo')
    (hf : Makes store fail (f a) memo' more y memo'') :
    Makes store fail (x >>= f) memo (calls ++ more) y memo'' where
  through outage n h := by
    rw [Outage.first?_append, Option.or_eq_none_iff] at h
    rw [Source.run_bind_of_ok f (hx.through outage n h.1), hf.through outage _ h.2,
      List.length_append, Nat.add_assoc]
  failed outage n m e h := by
    rw [Outage.first?_append] at h
    cases hfirst : outage.first? n calls with
    | none =>
      rw [hfirst, Option.none_or] at h
      rw [Source.run_bind_of_ok f (hx.through outage n hfirst)]
      exact hf.failed outage _ m e h
    | some failure =>
      rw [hfirst, Option.some_or] at h
      cases h
      obtain ⟨memo₁, hrun⟩ := hx.failed outage n m e hfirst
      exact ⟨memo₁, Source.run_bind_of_error f hrun⟩

theorem bind_of_error {x : Access ε α} (f : α → Access ε β) {e : ε}
    (hx : Makes store fail x memo calls (.error e) memo') :
    Makes store fail (x >>= f) memo calls (.error e) memo' where
  through outage n h := Source.run_bind_of_error f (hx.through outage n h)
  failed outage n m e' h := by
    obtain ⟨memo₁, hrun⟩ := hx.failed outage n m e' h
    exact ⟨memo₁, Source.run_bind_of_error f hrun⟩

theorem bind_memo {f : Memo → Access ε α} {y : Except ε α}
    (h : Makes store fail (f memo) memo calls y memo') :
    Makes store fail (getThe Source >>= fun s => f s.memo) memo calls y memo' where
  through outage n hnone := h.through outage n hnone
  failed outage n m e hsome := h.failed outage n m e hsome

theorem of_answer {call : Call} {x : Access StoreError α} {a : α}
    (h : ∀ (outage : Outage) n, Source.run ⟨store, memo, outage, n, none⟩ x =
      (Source.answer ⟨store, memo, outage, n, none⟩ call a, ⟨store, memo, outage, n + 1, none⟩)) :
    Makes store id x memo [call] (.ok a) memo where
  through outage n hnone := by
    rw [h, Source.answer]
    dsimp only
    cases hcall : outage n call with
    | none => rfl
    | some e =>
      rw [Outage.first?, hcall] at hnone
      cases hnone
  failed outage n m e hsome := by
    rw [h, Source.answer]
    dsimp only
    cases hcall : outage n call with
    | none =>
      rw [Outage.first?, hcall] at hsome
      cases hsome
    | some e' =>
      rw [Outage.first?, hcall] at hsome
      cases hsome
      exact ⟨memo, rfl⟩

theorem read (call : Call) (f : Store → α) :
    Makes store id (Access.read call f) memo [call] (.ok (f store)) memo :=
  of_answer fun _ _ => Source.run_read _ _ _

theorem connection? (k : ConnectionKey) :
    Makes store id (Access.connection? k) memo [.connection] (.ok (store.connection? k)) memo :=
  of_answer fun _ _ => Source.run_connection? rfl k

theorem run_storeCall (s : Source) (x : Access StoreError α) :
    s.run (Prediction.storeCall x) = (Except.mapError .store (s.run x).1, (s.run x).2) := rfl

theorem storeCall {x : Access StoreError α} {a : α} (hx : Makes store id x memo calls (.ok a) memo') :
    Makes store PredictionError.store (Prediction.storeCall x) memo calls (.ok a) memo' where
  through outage n hnone := by
    rw [run_storeCall, hx.through outage n hnone]
    rfl
  failed outage n m e hsome := by
    obtain ⟨memo₁, hrun⟩ := hx.failed outage n m e hsome
    refine ⟨memo₁, ?_⟩
    rw [run_storeCall, hrun]
    rfl

end Makes

/-- Where this is in view, `x` answers `y` unless a call fails, and it leaves what is in view. `y` is
none of the errors of calls. -/
structure Obeys (v : View) (fail : StoreError → ε) (x : Access ε α) (y : Except ε α) : Prop where
  own : ∀ e, y ≠ .error (fail e)
  makes : ∀ memo, View.of v.store memo = v →
    ∃ calls memo', View.of v.store memo' = v ∧ Makes v.store fail x memo calls y memo'

namespace Obeys

variable {v : View} {x : Access ε α} {y : Except ε α}

theorem pure (a : α) : Obeys v fail (pure a : Access ε α) (.ok a) where
  own := nofun
  makes memo hv := ⟨[], memo, hv, .pure a⟩

theorem throw {e : ε} (h : ∀ e', e ≠ fail e') :
    Obeys v fail (throw e : Access ε α) (.error e) where
  own e' he := h e' (Except.error.inj he)
  makes memo hv := ⟨[], memo, hv, .throw e⟩

theorem bind {f : α → Access ε β} {g : α → Except ε β} (hx : Obeys v fail x y)
    (hf : ∀ a, Obeys v fail (f a) (g a)) : Obeys v fail (x >>= f) (y >>= g) where
  own e := by
    cases y with
    | ok a => exact (hf a).own e
    | error e' => exact fun he => hx.own e (congrArg Except.error (Except.error.inj he))
  makes memo hv := by
    obtain ⟨calls, memo', hv', hmakes⟩ := hx.makes memo hv
    cases y with
    | ok a =>
      obtain ⟨more, memo'', hv'', hmore⟩ := (hf a).makes memo' hv'
      exact ⟨calls ++ more, memo'', hv'', hmakes.bind_of_ok hmore⟩
    | error e => exact ⟨calls, memo', hv', hmakes.bind_of_error f⟩

theorem storeCall {x : Access StoreError α} {a : α} (hx : Obeys v id x (.ok a)) :
    Obeys v PredictionError.store (Prediction.storeCall x) (.ok a) where
  own := nofun
  makes memo hv := by
    obtain ⟨calls, memo', hv', hmakes⟩ := hx.makes memo hv
    exact ⟨calls, memo', hv', hmakes.storeCall⟩

theorem read (call : Call) (f : Store → α) : Obeys v id (Access.read call f) (.ok (f v.store)) where
  own := nofun
  makes memo hv := ⟨[call], memo, hv, .read call f⟩

end Obeys

def rememberFound (generation : Nat) (k : ConnectionKey) :
    Option Connection → Access StoreError (Option Int)
  | none => pure none
  | some c => do
    modifyThe Source fun s => { s with memo := s.memo.remember generation k c.travelSeconds }
    return some c.travelSeconds

/-- The rest of the look-up, once it is known what is remembered. -/
def travelSecondsFrom (k : ConnectionKey) (memo : Memo) : Access StoreError (Option Int) :=
  match memo.get? k with
  | some seconds => pure (some seconds)
  | none => connection? k >>= rememberFound memo.generation k

theorem travelSeconds_eq (k : ConnectionKey) :
    travelSeconds k = getThe Source >>= fun s => travelSecondsFrom k s.memo := by
  rw [travelSeconds]
  refine bind_congr fun s => ?_
  rw [travelSecondsFrom]
  dsimp only
  cases s.memo.get? k with
  | some seconds => rfl
  | none => exact bind_congr fun c => by cases c <;> rfl

theorem obeys_rememberFound (v : View) (generation : Nat) (k : ConnectionKey) :
    Obeys v id (rememberFound generation k (v.store.connection? k)) (.ok (v.store.cost? k)) where
  own := nofun
  makes memo hv := by
    rw [Store.cost?]
    cases hc : v.store.connection? k with
    | none => exact ⟨[], memo, hv, .pure none⟩
    | some c =>
      exact ⟨[], memo.remember generation k c.travelSeconds, (View.of_remember hc memo _).trans hv,
        fun _ _ _ => rfl, nofun⟩

theorem obeys_travelSeconds (v : View) (k : ConnectionKey) :
    Obeys v id (travelSeconds k) (.ok (v.cost? k)) where
  own := nofun
  makes memo hv := by
    have hcost : v.cost? k = (memo.get? k).or (v.store.cost? k) :=
      (congrFun (congrArg View.cost? hv) k).symm
    rw [hcost, travelSeconds_eq]
    cases hm : memo.get? k with
    | some seconds =>
      refine ⟨[], memo, hv, .bind_memo ?_⟩
      rw [travelSecondsFrom, hm]
      exact .pure _
    | none =>
      obtain ⟨calls, memo', hv', hmakes⟩ := (obeys_rememberFound v memo.generation k).makes memo hv
      refine ⟨.connection :: calls, memo', hv', .bind_memo ?_⟩
      rw [travelSecondsFrom, hm, Option.none_or]
      exact (Makes.connection? k).bind_of_ok hmakes

end Access

theorem Atlas.obeys_live (v : View) :
    live.Related (seen v) (fun _ => Access.Obeys v .store) (fun _ => Access.Obeys v .store) where
  line? _ := (Access.Obeys.read _ _).storeCall
  linesServing _ := (Access.Obeys.read _ _).storeCall
  cost? k := (Access.obeys_travelSeconds v k).storeCall
  pure := .pure
  throw _ := .throw
  bind := .bind
  first := .bind

namespace Prediction

theorem bind_eq_ok {ε α β : Type} {x : Except ε α} {f : α → Except ε β} {b : β}
    (h : x >>= f = .ok b) : ∃ a, x = .ok a ∧ f a = .ok b := by
  cases x with
  | error e => cases h
  | ok a => exact ⟨a, rfl, h⟩

/-- A prediction is about the station and the direction that were asked for. -/
theorem asked_predictWith {v : View} {presence : Presence} {now : Instant}
    {station direction : StationId} {p : Prediction}
    (h : predictWith (.seen v) presence now station direction = .ok p) :
    p.station = station ∧ p.direction = direction := by
  obtain ⟨⟨line, heading⟩, -, h⟩ := bind_eq_ok h
  dsimp only at h
  split at h
  next => cases h
  next target _ =>
    obtain ⟨found, -, h⟩ := bind_eq_ok h
    cases found with
    | some c => cases h; exact ⟨rfl, rfl⟩
    | none =>
      dsimp only at h
      split at h
      next => cases h
      next opposite _ =>
        obtain ⟨found, -, h⟩ := bind_eq_ok h
        cases found with
        | some c => cases h; exact ⟨rfl, rfl⟩
        | none => cases h

end Prediction

theorem obeys_predict (v : View) (presence : Presence) (now : Instant)
    (station direction : StationId) :
    Access.Obeys v .store (predict presence now station direction)
      (Prediction.predictWith (.seen v) presence now station direction) :=
  (Atlas.obeys_live v).predictWith presence now station direction

end Arrivals
