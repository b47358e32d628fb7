import Arrivals.Proofs.Forecast.Pass

/-! Queries, projections and passes between two commits, on a memo that agrees with the store. Other calls
than the reads of connections may fail. Main statement: each is answered as on an empty memo, in whatever
order they come, and leaves a memo that only has more of the costs of the store. -/

namespace Arrivals

theorem Memo.get?_remember_of_eq_some {m : Memo} {j : ConnectionKey} {v : Int}
    (h : m.get? j = some v) (generation : Nat) (k : ConnectionKey) (seconds : Int) :
    (m.remember generation k seconds).get? j = some v := by
  rw [remember]
  split
  next hfree =>
    have hkj : k ≠ j := by
      rintro rfl
      rw [hfree.2] at h
      cases h
    rw [get?, Table.get?_insert, if_neg hkj]
    exact h
  next => exact h

namespace Source

variable {s s' s'' : Source}

/-- Connections can be read from now on, no commit is about to land, and what is remembered holds. -/
structure Coherent (s : Source) : Prop where
  readable : ∀ n, s.calls ≤ n → s.outage n .connection = none
  settled : s.overtaking = none
  remembered : ∀ k seconds, s.memo.get? k = some seconds → s.store.cost? k = some seconds

/-- All is as it was but for more calls made, and more costs of the store remembered. -/
structure Recalls (s s' : Source) : Prop where
  store : s'.store = s.store
  outage : s'.outage = s.outage
  overtaking : s'.overtaking = s.overtaking
  calls : s.calls ≤ s'.calls
  kept : ∀ k seconds, s.memo.get? k = some seconds → s'.memo.get? k = some seconds
  added : ∀ k seconds, s'.memo.get? k = some seconds →
    s.memo.get? k = some seconds ∨ s.store.cost? k = some seconds

theorem Recalls.refl (s : Source) : s.Recalls s :=
  ⟨rfl, rfl, rfl, Nat.le_refl _, fun _ _ h => h, fun _ _ h => .inl h⟩

theorem Recalls.trans (h : s.Recalls s') (h' : s'.Recalls s'') : s.Recalls s'' where
  store := h'.store.trans h.store
  outage := h'.outage.trans h.outage
  overtaking := h'.overtaking.trans h.overtaking
  calls := Nat.le_trans h.calls h'.calls
  kept k seconds hk := h'.kept k seconds (h.kept k seconds hk)
  added k seconds hk := by
    rcases h'.added k seconds hk with hk | hk
    · exact h.added k seconds hk
    · exact .inr (h.store ▸ hk)

theorem Recalls.coherent (h : s.Recalls s') (hs : s.Coherent) : s'.Coherent where
  readable n hn := by
    rw [h.outage]
    exact hs.readable n (Nat.le_trans h.calls hn)
  settled := h.overtaking.trans hs.settled
  remembered k seconds hk := by
    rw [h.store]
    exact (h.added k seconds hk).elim (hs.remembered k seconds) id

theorem recalls_call (s : Source) : s.Recalls { s with calls := s.calls + 1 } :=
  ⟨rfl, rfl, rfl, Nat.le_succ _, fun _ _ h => h, fun _ _ h => .inl h⟩

theorem recalls_remember {k : ConnectionKey} {seconds : Int} (hk : s.store.cost? k = some seconds)
    (generation : Nat) : s.Recalls { s with memo := s.memo.remember generation k seconds } where
  store := rfl
  outage := rfl
  overtaking := rfl
  calls := Nat.le_refl _
  kept _ _ h := Memo.get?_remember_of_eq_some h generation k seconds
  added j v h := by
    rcases Memo.get?_remember h with h | ⟨-, rfl, rfl⟩
    · exact .inl h
    · exact .inr hk

section Answers

variable {ε α β : Type} {x : Access ε α} {y : Except ε α}

/-- `x` answers `y` and does no more than remember. -/
def Answers (s : Source) (x : Access ε α) (y : Except ε α) : Prop :=
  ∃ s', s.run x = (y, s') ∧ s.Recalls s'

theorem answers_pure (s : Source) (a : α) : s.Answers (pure a : Access ε α) (.ok a) :=
  ⟨s, rfl, .refl s⟩

theorem answers_throw (s : Source) (e : ε) : s.Answers (throw e : Access ε α) (.error e) :=
  ⟨s, rfl, .refl s⟩

theorem Answers.bind_of_ok {f : α → Access ε β} {a : α} {z : Except ε β} (hx : s.Answers x (.ok a))
    (hf : ∀ s', s.Recalls s' → s'.Answers (f a) z) : s.Answers (x >>= f) z := by
  obtain ⟨s', hrun, hs'⟩ := hx
  obtain ⟨s'', hmore, hs''⟩ := hf s' hs'
  exact ⟨s'', (run_bind_of_ok f hrun).trans hmore, hs'.trans hs''⟩

theorem Answers.bind {f : α → Access ε β} {g : α → Except ε β} (hx : s.Answers x y)
    (hf : ∀ a s', s.Recalls s' → s'.Answers (f a) (g a)) : s.Answers (x >>= f) (y >>= g) := by
  cases y with
  | ok a => exact hx.bind_of_ok (hf a)
  | error e =>
    obtain ⟨s', hrun, hs'⟩ := hx
    exact ⟨s', run_bind_of_error f hrun, hs'⟩

theorem Answers.bind_memo {f : Memo → Access ε α} (h : s.Answers (f s.memo) y) :
    s.Answers (getThe Source >>= fun s => f s.memo) y :=
  h

theorem answers_read (s : Source) (call : Call) (f : Store → α) :
    s.Answers (Access.read call f) (s.answer call (f s.store)) :=
  ⟨_, s.run_read call f, s.recalls_call⟩

theorem Answers.storeCall {x : Access StoreError α} {y : Except StoreError α} (h : s.Answers x y) :
    s.Answers (Prediction.storeCall x) (y.mapError .store) := by
  obtain ⟨s', hrun, hs'⟩ := h
  refine ⟨s', ?_, hs'⟩
  rw [Access.Makes.run_storeCall, hrun]

theorem Answers.fst_eq (h : s.Answers x y) : (s.run x).1 = y := by
  obtain ⟨s', hrun, -⟩ := h
  rw [hrun]

theorem Answers.recalls (h : s.Answers x y) : s.Recalls (s.run x).2 := by
  obtain ⟨s', hrun, hs'⟩ := h
  rw [hrun]
  exact hs'

end Answers

theorem answers_rememberFound (s : Source) (generation : Nat) (k : ConnectionKey) :
    s.Answers (Access.rememberFound generation k (s.store.connection? k)) (.ok (s.store.cost? k)) := by
  rw [Store.cost?]
  cases hfound : s.store.connection? k with
  | none => exact s.answers_pure none
  | some c =>
    have hcost : s.store.cost? k = some c.travelSeconds := by rw [Store.cost?, hfound]; rfl
    exact ⟨_, rfl, recalls_remember hcost generation⟩

/-- A cost that is remembered is the one that would be read. -/
theorem Coherent.answers_travelSeconds (h : s.Coherent) (k : ConnectionKey) :
    s.Answers (Access.travelSeconds k) (.ok (s.store.cost? k)) := by
  rw [Access.travelSeconds_eq]
  refine .bind_memo ?_
  rw [Access.travelSecondsFrom]
  cases hmemo : s.memo.get? k with
  | some seconds =>
    rw [h.remembered k seconds hmemo]
    exact s.answers_pure _
  | none =>
    have hread : s.Answers (Access.connection? k) (.ok (s.store.connection? k)) := by
      refine ⟨_, ?_, s.recalls_call⟩
      rw [run_connection? h.settled, answer, h.readable _ (Nat.le_refl _)]
    refine hread.bind_of_ok fun s' hs' => ?_
    rw [← hs'.store]
    exact s'.answers_rememberFound _ k

/-- What there is to see from here without a memo. Of each call it says how it would turn out now. -/
def outlook (s : Source) : Atlas (Except PredictionError) where
  line? id := (s.answer .line (s.store.line? id)).mapError .store
  linesServing station := (s.answer .linesServing (s.store.linesServing station)).mapError .store
  cost? k := .ok (s.store.cost? k)

theorem Coherent.related (h : s.Coherent) :
    Atlas.live.Related s.outlook (fun _ => s.Answers)
      (fun _ x y => ∀ s' : Source, s'.Coherent → s'.store = s.store → s'.Answers x y) where
  line? _ := (s.answers_read _ _).storeCall
  linesServing _ := (s.answers_read _ _).storeCall
  cost? k s' hs' hstore := by
    have hcost := (hs'.answers_travelSeconds k).storeCall
    rw [hstore] at hcost
    exact hcost
  pure a s' _ _ := s'.answers_pure a
  throw e _ s' _ _ := s'.answers_throw e
  bind hx hf s' hs' hstore := (hx s' hs' hstore).bind fun a s'' hs'' =>
    hf a s'' (hs''.coherent hs') (hs''.store.trans hstore)
  first hx hf := hx.bind fun a s' hs' => hf a s' (hs'.coherent h) hs'.store

theorem Coherent.answers_predict (h : s.Coherent) (presence : Presence) (now : Instant)
    (station direction : StationId) :
    s.Answers (predict presence now station direction)
      (Prediction.predictWith s.outlook presence now station direction) :=
  h.related.predictWith presence now station direction

theorem Coherent.answers_project (h : s.Coherent) (a : Arrival) (now : Instant) :
    s.Answers (a.project now) (a.projectWith s.outlook now) :=
  h.related.projectWith a now

/-- Calls turn out here, now and later, as they would there. -/
structure Resembles (s t : Source) : Prop where
  coherent : s.Coherent
  store : s.store = t.store
  fails : ∀ n call, s.calls ≤ n → s.outage n call = t.outage t.calls call

variable {t : Source}

theorem Resembles.recalls (h : s.Resembles t) (hs : s.Recalls s') : s'.Resembles t where
  coherent := hs.coherent h.coherent
  store := hs.store.trans h.store
  fails n call hn := by
    rw [hs.outage]
    exact h.fails n call (Nat.le_trans hs.calls hn)

theorem Resembles.answer_eq {α : Type} (h : s.Resembles t) (call : Call) (f : Store → α) :
    s.answer call (f s.store) = t.answer call (f t.store) := by
  rw [answer, answer, h.fails _ call (Nat.le_refl _), h.store]

theorem Resembles.outlook_eq (h : s.Resembles t) : s.outlook = t.outlook := by
  rw [outlook, outlook, Atlas.mk.injEq]
  refine ⟨funext fun id => ?_, funext fun station => ?_, ?_⟩
  · rw [h.answer_eq .line (·.line? id)]
  · rw [h.answer_eq .linesServing (·.linesServing station)]
  · rw [h.store]

end Source

namespace Forecast

/-- A walk from here comes to the same wherever calls turn out as they would at `t`. -/
def Settled (t : Source) (presence : Presence) (now : Instant) (validity : Span) (p : Progress)
    (walk : List Sight) : Prop :=
  ∃ (error? : Option StoreError) (out : Progress), ∀ s : Source, s.Resembles t → ∃ s', s.Recalls s' ∧
    predictAll presence now validity { p with source := s } walk =
      (error?, { out with source := s' })

theorem settled_predictAll (t : Source) (presence : Presence) (now : Instant) (validity : Span)
    (p : Progress) (walk : List Sight) : Settled t presence now validity p walk := by
  induction walk generalizing p with
  | nil => exact ⟨none, p, fun s _ => ⟨s, .refl s, rfl⟩⟩
  | cons q rest ih =>
    have hanswers (s : Source) (hs : s.Resembles t) : s.Answers
        (predict presence now q.station q.direction)
        (Prediction.predictWith t.outlook presence now q.station q.direction) := by
      rw [← hs.outlook_eq]
      exact hs.coherent.answers_predict presence now q.station q.direction
    generalize Prediction.predictWith t.outlook presence now q.station q.direction = y at hanswers
    by_cases hy : ∃ e, y = .error (.store e)
    · obtain ⟨e, rfl⟩ := hy
      refine ⟨some e, p, fun s hs => ?_⟩
      obtain ⟨s', hrun, hs'⟩ := hanswers s hs
      exact ⟨s', hs', predictAll_of_failed (p := { p with source := s }) validity hrun rest⟩
    · obtain ⟨error?, out, hout⟩ := ih (p.tally now validity q p.source y)
      refine ⟨error?, out, fun s hs => ?_⟩
      obtain ⟨s₁, hrun, hs₁⟩ := hanswers s hs
      obtain ⟨s', hs', hrest⟩ := hout s₁ (hs.recalls hs₁)
      refine ⟨s', hs₁.trans hs', ?_⟩
      rw [predictAll_of_answered (p := { p with source := s }) validity hrun (not_exists.mp hy),
        p.tally_with_source]
      exact hrest

theorem exists_pass (t : Source) (presence : Presence) (now : Instant) (validity : Span) (board : Board)
    (activity : Activity) :
    ∃ o : Outcome, ∀ s : Source, s.Resembles t → ∃ s', s.Recalls s' ∧
      pass presence now validity s board activity = { o with source := s' } := by
  cases hlines : t.answer .lines t.store.lines with
  | error e =>
    refine ⟨⟨.error e, t, board, activity⟩, fun s hs => ⟨_, s.recalls_call, ?_⟩⟩
    rw [pass, Access.lines, Source.run_read, hs.answer_eq .lines Store.lines, hlines]
  | ok lines =>
    obtain ⟨error?, out, hout⟩ := settled_predictAll t presence now validity ⟨t, board, 0, 0⟩
      (lines.flatMap queries)
    refine ⟨conclude now activity (error?, out), fun s hs => ?_⟩
    have hrun : s.run Access.lines = (.ok lines, { s with calls := s.calls + 1 }) := by
      rw [Access.lines, Source.run_read, hs.answer_eq .lines Store.lines, hlines]
    obtain ⟨s', hs', hwalk⟩ := hout _ (hs.recalls s.recalls_call)
    refine ⟨s', s.recalls_call.trans hs', ?_⟩
    dsimp only at hwalk
    rw [pass_of_lines hrun, hwalk]
    exact conclude_with_source now activity error? out s'

end Forecast

/-- What is done between two commits. -/
inductive Inquiry where
  | predict (presence : Presence) (now : Instant) (q : Sight)
  | project (a : Arrival) (now : Instant)
  | pass (presence : Presence) (now : Instant) (validity : Span) (board : Board) (activity : Activity)

namespace Inquiry

inductive Reply where
  | predicted (answer : Except PredictionError Prediction)
  | projected (answer : Except PredictionError Position)
  | passed (result : Except StoreError Forecast.Report) (board : Board) (activity : Activity)

def ask (s : Source) : Inquiry → Reply × Source
  | predict presence now q =>
    let (answer, s') := s.run (Arrivals.predict presence now q.station q.direction)
    (.predicted answer, s')
  | project a now =>
    let (answer, s') := s.run (a.project now)
    (.projected answer, s')
  | pass presence now validity board activity =>
    let o := Forecast.pass presence now validity s board activity
    (.passed o.result o.board o.activity, o.source)

def askAll (s : Source) : List Inquiry → List Reply × Source
  | [] => ([], s)
  | q :: rest =>
    let (reply, s') := q.ask s
    let (replies, s'') := askAll s' rest
    (reply :: replies, s'')

theorem exists_ask (t : Source) (q : Inquiry) :
    ∃ reply, ∀ s : Source, s.Resembles t → ∃ s', s.Recalls s' ∧ q.ask s = (reply, s') := by
  cases q with
  | predict presence now q =>
    refine ⟨.predicted (Prediction.predictWith t.outlook presence now q.station q.direction),
      fun s hs => ?_⟩
    obtain ⟨s', hrun, hs'⟩ := hs.coherent.answers_predict presence now q.station q.direction
    refine ⟨s', hs', ?_⟩
    rw [ask, hrun, hs.outlook_eq]
  | project a now =>
    refine ⟨.projected (a.projectWith t.outlook now), fun s hs => ?_⟩
    obtain ⟨s', hrun, hs'⟩ := hs.coherent.answers_project a now
    refine ⟨s', hs', ?_⟩
    rw [ask, hrun, hs.outlook_eq]
  | pass presence now validity board activity =>
    obtain ⟨o, ho⟩ := Forecast.exists_pass t presence now validity board activity
    refine ⟨.passed o.result o.board o.activity, fun s hs => ?_⟩
    obtain ⟨s', hs', hpass⟩ := ho s hs
    exact ⟨s', hs', by rw [ask, hpass]⟩

theorem askAll_eq {s t : Source} (hs : s.Resembles t) (ht : t.Resembles t) (qs : List Inquiry) :
    ∃ s', s.Recalls s' ∧ askAll s qs = (qs.map fun q => (q.ask t).1, s') := by
  induction qs generalizing s with
  | nil => exact ⟨s, .refl s, rfl⟩
  | cons q rest ih =>
    obtain ⟨reply, hreply⟩ := exists_ask t q
    obtain ⟨s₁, hs₁, hask⟩ := hreply s hs
    obtain ⟨_, _, hown⟩ := hreply t ht
    obtain ⟨s', hs', hrest⟩ := ih (hs.recalls hs₁)
    refine ⟨s', hs₁.trans hs', ?_⟩
    rw [askAll, hask]
    dsimp only
    rw [hrest, List.map_cons, hown]

/-- Where connections can be read and what is remembered holds, predictions and projections are those of
an empty memo. They leave the store as it is, take nothing from the memo and add to it only what holds.
If moreover it does not depend on the time whether a call fails, then whatever is done in a row comes to
what each would have come to on its own. -/
theorem memo_unseen {s : Source} (h : s.Coherent) :
    let bare : Source := { s with memo := .empty }
    (∀ presence now station direction,
      let x := Arrivals.predict presence now station direction
      (s.run x).1 = (bare.run x).1 ∧ s.Recalls (s.run x).2 ∧ (s.run x).2.Coherent) ∧
    (∀ (a : Arrival) now,
      let x := a.project now
      (s.run x).1 = (bare.run x).1 ∧ s.Recalls (s.run x).2 ∧ (s.run x).2.Coherent) ∧
    ((∀ n call, s.calls ≤ n → s.outage n call = s.outage s.calls call) → ∀ qs : List Inquiry,
      (askAll s qs).1 = (qs.map fun q => (q.ask bare).1) ∧ s.Recalls (askAll s qs).2 ∧
        (askAll s qs).2.Coherent) := by
  intro bare
  have hbare : bare.Coherent := ⟨h.readable, h.settled, nofun⟩
  refine ⟨fun presence now station direction => ?_, fun a now => ?_, fun hfails qs => ?_⟩
  · have hs := h.answers_predict presence now station direction
    have hb := hbare.answers_predict presence now station direction
    exact ⟨hs.fst_eq.trans hb.fst_eq.symm, hs.recalls, hs.recalls.coherent h⟩
  · have hs := h.answers_project a now
    have hb := hbare.answers_project a now
    exact ⟨hs.fst_eq.trans hb.fst_eq.symm, hs.recalls, hs.recalls.coherent h⟩
  · obtain ⟨s', hs', hask⟩ := askAll_eq (t := bare) ⟨h, rfl, hfails⟩ ⟨hbare, rfl, hfails⟩ qs
    rw [hask]
    exact ⟨rfl, hs', hs'.coherent h⟩

def quay : Line := ⟨"quay", "Quay", "n", ["a", "b"], 2⟩

def quayStore : Store :=
  { (default : Store).saveConnection ⟨"a", "b", "quay", 60, 0, 0⟩ with lines := [quay] }

/-- The way to the second stop is remembered, and the lines as a whole cannot be read. -/
def quaySource : Source :=
  ⟨quayStore, Memo.empty.remember 0 ⟨"a", "b"⟩ 60,
    fun _ call => if call = .lines then some (.storage "dark") else none, 0, none⟩

def quaySeen : Presence := Presence.empty.register ⟨"a", "b"⟩ ⟨0⟩

theorem memo_unseen_quay :
    let query (station : StationId) := Inquiry.predict quaySeen ⟨0⟩ ⟨station, "b"⟩
    let pass := Inquiry.pass quaySeen ⟨0⟩ (.ofSeconds 90) .empty .empty
    ((quaySource.run (Arrivals.predict quaySeen ⟨0⟩ "b" "b")).1.map Prediction.pathSeconds) = .ok 60 ∧
      (quaySource.run (Arrivals.predict quaySeen ⟨0⟩ "b" "b")).1 =
        (Source.run { quaySource with memo := .empty } (Arrivals.predict quaySeen ⟨0⟩ "b" "b")).1 ∧
      (askAll quaySource [query "a", pass, query "b"]).1 = [query "a", pass, query "b"].map
        fun q => (q.ask { quaySource with memo := .empty }).1 := by
  intro query pass
  have hcoherent : quaySource.Coherent := by
    refine ⟨fun _ _ => rfl, rfl, fun k seconds hk => ?_⟩
    rcases Memo.get?_remember hk with hk | ⟨-, rfl, rfl⟩
    · cases hk
    · rfl
  obtain ⟨hpredict, -, hall⟩ := memo_unseen hcoherent
  exact ⟨rfl, (hpredict quaySeen ⟨0⟩ "b" "b").1, (hall (fun _ _ _ => rfl) _).1⟩

end Inquiry

end Arrivals
