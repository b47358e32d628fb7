import Arrivals.Store.Access

/-! Calls on a store that may fail, run on a source. Main statements: a computation that only asks
leaves everything but the number of calls as it was, whichever calls fail, and what it answers is
settled by the store. -/

namespace Arrivals

variable {ε α β : Type}

namespace Source

@[simp] theorem run_pure (s : Source) (a : α) : s.run (pure a : Access ε α) = (.ok a, s) := rfl

@[simp] theorem run_throw (s : Source) (e : ε) : s.run (throw e : Access ε α) = (.error e, s) := rfl

theorem run_bind (s : Source) (x : Access ε α) (f : α → Access ε β) :
    s.run (x >>= f) =
      match s.run x with
      | (.ok a, s') => s'.run (f a)
      | (.error e, s') => (.error e, s') := by
  change (ExceptT.bindCont f (s.run x).1).run (s.run x).2 = _
  obtain ⟨r, s'⟩ := s.run x
  cases r <;> rfl

theorem run_bind_of_ok {s s' : Source} {x : Access ε α} {a : α} (f : α → Access ε β)
    (h : s.run x = (.ok a, s')) : s.run (x >>= f) = s'.run (f a) := by
  rw [run_bind, h]

theorem run_bind_of_error {s s' : Source} {x : Access ε α} {e : ε} (f : α → Access ε β)
    (h : s.run x = (.error e, s')) : s.run (x >>= f) = (.error e, s') := by
  rw [run_bind, h]

def answer (s : Source) (call : Call) (a : α) : Except StoreError α :=
  match s.outage s.calls call with
  | some e => .error e
  | none => .ok a

theorem run_ask (s : Source) (call : Call) :
    s.run (Access.ask call) = (s.answer call ⟨⟩, { s with calls := s.calls + 1 }) := by
  change Source.run { s with calls := s.calls + 1 }
    (match s.outage s.calls call with
      | some e => throw e
      | none => pure ⟨⟩ : Access StoreError Unit) = _
  unfold answer
  cases s.outage s.calls call <;> rfl

theorem run_read (s : Source) (call : Call) (f : Store → α) :
    s.run (Access.read call f) = (s.answer call (f s.store), { s with calls := s.calls + 1 }) := by
  rw [Access.read, run_bind, run_ask]
  unfold answer
  cases s.outage s.calls call <;> rfl

/-- Looking up a connection while no commit is about to land. -/
theorem run_connection? {s : Source} (h : s.overtaking = none) (k : ConnectionKey) :
    s.run (Access.connection? k) =
      (s.answer .connection (s.store.connection? k), { s with calls := s.calls + 1 }) := by
  rw [Access.connection?, run_bind, run_read]
  cases s.answer .connection (s.store.connection? k) with
  | error e => rfl
  | ok c =>
    change (Except.ok c, overtake { s with calls := s.calls + 1 }) = _
    rw [overtake]
    dsimp only
    rw [h]

def Steady (s : Source) : Prop := ∀ n call, s.calls ≤ n → s.outage n call = none

theorem Steady.answer {s : Source} (h : s.Steady) (call : Call) (a : α) :
    s.answer call a = .ok a := by
  rw [Source.answer, h s.calls call (Nat.le_refl _)]

theorem Steady.later {s : Source} (h : s.Steady) {n : Nat} (hn : s.calls ≤ n) :
    Steady { s with calls := n } :=
  fun m call hm => h m call (Nat.le_trans hn hm)

end Source

namespace Access

/-- On a store, `x` changes nothing but the number of calls, whichever of them fail. Its answers
satisfy `P`, and it only goes without one if a call fails. -/
def Asks (st : Store) (P : α → Prop) (x : Access ε α) : Prop :=
  ∀ s : Source, s.store = st → ∃ n, s.calls ≤ n ∧
    ((∃ a, P a ∧ s.run x = (.ok a, { s with calls := n })) ∨
      (¬ s.Steady ∧ ∃ e, s.run x = (.error e, { s with calls := n })))

namespace Asks

variable {st : Store} {P : α → Prop} {Q : β → Prop} {x : Access ε α}

theorem pure {a : α} (h : P a) : Asks st P (pure a : Access ε α) :=
  fun s _ => ⟨s.calls, Nat.le_refl _, .inl ⟨a, h, rfl⟩⟩

theorem read (call : Call) (f : Store → α) : Asks st (· = f st) (Access.read call f) := by
  intro s hst
  refine ⟨s.calls + 1, Nat.le_succ _, ?_⟩
  rw [Source.run_read, hst]
  cases h : s.outage s.calls call with
  | none => exact .inl ⟨f st, rfl, by rw [Source.answer, h]⟩
  | some e =>
    refine .inr ⟨fun hs => ?_, e, by rw [Source.answer, h]⟩
    rw [hs s.calls call (Nat.le_refl _)] at h
    cases h

theorem bind {f : α → Access ε β} (hx : Asks st P x) (hf : ∀ a, P a → Asks st Q (f a)) :
    Asks st Q (x >>= f) := by
  intro s hst
  obtain ⟨n, hn, ⟨a, ha, he⟩ | ⟨hs, e, he⟩⟩ := hx s hst
  · obtain ⟨m, hm, ⟨b, hb, he'⟩ | ⟨hs, e, he'⟩⟩ := hf a ha { s with calls := n } hst
    · exact ⟨m, Nat.le_trans hn hm, .inl ⟨b, hb, by rw [Source.run_bind_of_ok f he, he']⟩⟩
    · exact ⟨m, Nat.le_trans hn hm, .inr ⟨fun h => hs (h.later hn), e,
        by rw [Source.run_bind_of_ok f he, he']⟩⟩
  · exact ⟨n, hn, .inr ⟨hs, e, Source.run_bind_of_error f he⟩⟩

/-- A run has one answer only, so what is known of it in two ways holds together. -/
theorem and {P' : α → Prop} (hx : Asks st P x) (hx' : Asks st P' x) :
    Asks st (fun a => P a ∧ P' a) x := by
  intro s hst
  obtain ⟨n, hn, ⟨a, ha, he⟩ | hs⟩ := hx s hst
  · obtain ⟨_, _, ⟨a', ha', he'⟩ | ⟨_, e, he'⟩⟩ := hx' s hst
    · rw [he] at he'
      cases he'
      exact ⟨n, hn, .inl ⟨a, ⟨ha, ha'⟩, he⟩⟩
    · rw [he] at he'
      cases he'
  · exact ⟨n, hn, .inr hs⟩

theorem mono {P' : α → Prop} (hx : Asks st P x) (h : ∀ a, P a → P' a) : Asks st P' x := by
  intro s hst
  obtain ⟨n, hn, ⟨a, ha, he⟩ | hs⟩ := hx s hst
  · exact ⟨n, hn, .inl ⟨a, h a ha, he⟩⟩
  · exact ⟨n, hn, .inr hs⟩

end Asks

/-- On a store, `x` comes to `y`, or to the error of a call that fails. Nothing but the number of calls
changes. -/
def Finds (st : Store) (y : Except StoreError α) (x : Access StoreError α) : Prop :=
  ∀ s : Source, s.store = st → ∃ n, s.calls ≤ n ∧
    (s.run x = (y, { s with calls := n }) ∨
      ∃ m call e, s.calls ≤ m ∧ s.outage m call = some e ∧ s.run x = (.error e, { s with calls := n }))

namespace Finds

variable {st : Store} {y : Except StoreError α} {x : Access StoreError α}

theorem pure (a : α) : Finds st (.ok a) (pure a) :=
  fun s _ => ⟨s.calls, Nat.le_refl _, .inl rfl⟩

theorem throw (e : StoreError) : Finds st (.error e) (throw e : Access StoreError α) :=
  fun s _ => ⟨s.calls, Nat.le_refl _, .inl rfl⟩

theorem read (call : Call) (f : Store → α) : Finds st (.ok (f st)) (Access.read call f) := by
  intro s hst
  refine ⟨s.calls + 1, Nat.le_succ _, ?_⟩
  rw [Source.run_read, hst, Source.answer]
  cases h : s.outage s.calls call with
  | none => exact .inl rfl
  | some e => exact .inr ⟨s.calls, call, e, Nat.le_refl _, h, rfl⟩

theorem bind {f : α → Access StoreError β} {g : α → Except StoreError β} (hx : Finds st y x)
    (hf : ∀ a, y = .ok a → Finds st (g a) (f a)) : Finds st (y >>= g) (x >>= f) := by
  intro s hst
  obtain ⟨n, hn, hrun | ⟨m, call, e, hm, he, hrun⟩⟩ := hx s hst
  · cases y with
    | error e => exact ⟨n, hn, .inl (Source.run_bind_of_error f hrun)⟩
    | ok a =>
      obtain ⟨k, hk, hrest⟩ := hf a rfl { s with calls := n } hst
      rw [Source.run_bind_of_ok f hrun]
      refine ⟨k, Nat.le_trans hn hk, hrest.imp_right ?_⟩
      rintro ⟨m, call, e, hm, he, hrest⟩
      exact ⟨m, call, e, Nat.le_trans hn hm, he, hrest⟩
  · exact ⟨n, hn, .inr ⟨m, call, e, hm, he, Source.run_bind_of_error f hrun⟩⟩

theorem read_bind (call : Call) (read : Store → α) {f : α → Access StoreError β}
    {z : Except StoreError β} (hf : Finds st z (f (read st))) :
    Finds st z (Access.read call read >>= f) := by
  change Finds st (Except.ok (read st) >>= fun _ => z) (Access.read call read >>= f)
  refine (Finds.read call read).bind fun a ha => ?_
  rwa [← Except.ok.inj ha]

end Finds

end Access

end Arrivals
