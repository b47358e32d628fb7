import Arrivals.Proofs.Mqtt.Framing
import Arrivals.Proofs.Session.Turn

/-! Sessions that share a broker. Main statement: in whatever order they are served, closed and dropped,
the broker holds filters for a session's client just when the session is subscribed, and what one of
them does is nothing to the others. -/

namespace Arrivals

open Mqtt

namespace Session

section Settling

variable {key : Bytes} {s : Session} {b : Broker} {source : Source} {p : Packet} {t : Step}

/-- The session is subscribed just when the broker holds filters for its client. -/
structure Settled (s : Session) (b : Broker) : Prop where
  subscribed_iff : s.state = .subscribed ↔ (b.subscriber? s.client).isSome = true
  sound : b.SoundFor s.client

theorem settled_of_removed (hs : s.state ≠ .subscribed) (hb : b.subscriber? s.client = none) :
    s.Settled b where
  subscribed_iff := by simp [hs, hb]
  sound x hx := by
    rw [hb] at hx
    cases hx

theorem Settled.none_of_ne (h : s.Settled b) (hs : s.state ≠ .subscribed) :
    b.subscriber? s.client = none := by
  rw [Ne, h.subscribed_iff, Option.not_isSome_iff_eq_none] at hs
  exact hs

theorem Settled.subscribe (h : s.Settled b) (id : UInt16) (filters : List String) :
    (s.subscribe b id filters).2.1.Settled (s.subscribe b id filters).2.2 where
  subscribed_iff := by
    rw [state_subscribe, client_subscribe]
    change _ ↔ ((s.subscribeAll b filters).2.subscriber? s.client).isSome = true
    rw [isSome_subscribeAll]
    cases filters.any Topic.validFilter with
    | true => simp
    | false => simpa using h.subscribed_iff
  sound := by
    rw [client_subscribe]
    exact (s.served_subscribeAll b filters).sound h.sound

theorem Settled.unsubscribe (h : s.Settled b) (id : UInt16) {filters : List String}
    (hfilters : filters ≠ []) :
    (s.unsubscribe b id filters).2.1.Settled (s.unsubscribe b id filters).2.2 where
  subscribed_iff := by
    have hne : filters.isEmpty = false := by simpa using hfilters
    rw [state_unsubscribe, client_unsubscribe, hne, Bool.false_or]
    change _ ↔ ((s.unsubscribeAll b filters).subscriber? s.client).isSome = true
    rw [Broker.filtersOf]
    cases hleft : (s.unsubscribeAll b filters).subscriber? s.client with
    | none =>
      rw [Broker.subscriber?] at hleft
      simp [hleft]
    | some x =>
      -- filters are left, so there were some before
      have hbefore : b.subscriber? s.client ≠ none := fun hb => by
        rw [s.subscriber?_unsubscribeAll_of_none hb] at hleft
        cases hleft
      have hx := ((s.served_unsubscribeAll b filters).sound h.sound x hleft).nonempty
      rw [Broker.subscriber?] at hleft
      simp [hleft, hx, h.subscribed_iff, Option.isSome_iff_ne_none.mpr hbefore]
  sound := by
    rw [client_unsubscribe]
    exact (s.served_unsubscribeAll b filters).sound h.sound

theorem Settled.congr {b' : Broker} (h : s.Settled b)
    (hb : b'.subscriber? s.client = b.subscriber? s.client) : s.Settled b' where
  subscribed_iff := by rw [hb, h.subscribed_iff]
  sound x hx := h.sound x (hb ▸ hx)

theorem Settled.turn (h : s.Settled b) (hp : p.Fits) (ht : Turn key s b source p t) :
    t.session.Settled t.broker := by
  cases ht with
  | spent => exact h
  | ended => exact settled_of_removed (by simp [shut]) (b.subscriber?_remove_self s.client)
  | admitted source' hs => exact settled_of_removed (by simp [accept]) (h.none_of_ne (by simp [hs]))
  | pinged => exact h
  | @subscribed id filters => exact h.subscribe id _
  | @unsubscribed id filters => exact h.unsubscribe id hp.1

theorem Settled.subscriber?_close (h : s.Settled b) :
    (s.close b).2.subscriber? s.client = none := by
  by_cases hs : s.state = .closed
  · rw [close_of_closed hs]
    exact h.none_of_ne (by simp [hs])
  · rw [close_of_ne hs]
    exact b.subscriber?_remove_self s.client

theorem session_close (s : Session) (b : Broker) : (s.close b).1 = s.shut := by
  by_cases hs : s.state = .closed
  · rw [close_of_closed hs, shut, ← hs]
  · rw [close_of_ne hs]

theorem served_close (s : Session) (b : Broker) : b.Served s.client (s.close b).2 := by
  by_cases hs : s.state = .closed
  · rw [close_of_closed hs]
    exact .refl _ _
  · rw [close_of_ne hs]
    exact .remove _ _

end Settling

end Session

/-- Sessions that share a broker; those that were dropped are gone. -/
structure Crowd (ι : Type) where
  session : ι → Option Session
  broker : Broker

namespace Crowd

/-- A packet is handled with the store as it is by then. -/
inductive Event (ι : Type) where
  | handle (i : ι) (p : Packet) (source : Source)
  | close (i : ι)
  | drop (i : ι)

namespace Event

variable {ι : Type}

def party : Event ι → ι
  | handle i _ _ => i
  | close i => i
  | drop i => i

/-- A packet that is handled was taken off a buffer. -/
def Decoded : Event ι → Prop
  | handle _ p _ => ∃ limit buffer rest, decode limit buffer = .packet p rest
  | close _ => True
  | drop _ => True

/-- What becomes of the session it concerns, and of the broker. -/
def apply (key : Bytes) (s : Session) (b : Broker) : Event ι → Option Session × Broker
  | handle _ p source => (some (s.handle key p b source).session, (s.handle key p b source).broker)
  | close _ => (some (s.close b).1, (s.close b).2)
  | drop _ => (none, (s.close b).2)

variable {key : Bytes} {s t : Session} {b : Broker}

theorem served_apply (key : Bytes) (s : Session) (b : Broker) (e : Event ι) :
    b.Served s.client (e.apply key s b).2 := by
  cases e with
  | handle _ p source => exact (s.turn_handle key b source p).served
  | close => exact s.served_close b
  | drop => exact s.served_close b

theorem client_apply {e : Event ι} (h : t ∈ (e.apply key s b).1) : t.client = s.client := by
  cases e with
  | handle _ p source =>
    cases h
    exact (s.turn_handle key b source p).client_eq
  | close =>
    cases h
    rw [s.session_close]
    rfl
  | drop => cases h

theorem settled_apply {e : Event ι} (hs : s.Settled b) (he : e.Decoded)
    (h : t ∈ (e.apply key s b).1) : t.Settled (e.apply key s b).2 := by
  cases e with
  | handle _ p source =>
    cases h
    obtain ⟨limit, buffer, rest, hp⟩ := he
    exact hs.turn (fits_of_decode hp) (s.turn_handle key b source p)
  | close =>
    cases h
    have hb := hs.subscriber?_close
    change (s.close b).1.Settled (s.close b).2
    rw [s.session_close]
    exact Session.settled_of_removed (by simp [Session.shut]) hb
  | drop => cases h

theorem subscriber?_apply_of_gone {e : Event ι} (hs : s.Settled b)
    (h : (e.apply key s b).1 = none) : (e.apply key s b).2.subscriber? s.client = none := by
  cases e with
  | handle => cases h
  | close => cases h
  | drop => exact hs.subscriber?_close

end Event

variable {ι : Type}

def start (client : ι → ClientId) (queue : ι → QueueId) (b : Broker) : Crowd ι :=
  ⟨fun i => some (.start (client i) (queue i)), b⟩

/-- Every session is settled, and nothing is held for those that are gone. -/
structure Sound (client : ι → ClientId) (c : Crowd ι) : Prop where
  client_eq : ∀ {i s}, c.session i = some s → s.client = client i
  settled : ∀ {i s}, c.session i = some s → s.Settled c.broker
  gone : ∀ {i}, c.session i = none → c.broker.subscriber? (client i) = none

theorem sound_start {client : ι → ClientId} {b : Broker} (queue : ι → QueueId)
    (hb : ∀ i, b.subscriber? (client i) = none) :
    (start client queue b).Sound client where
  client_eq h := by
    cases h
    rfl
  settled {i s} h := by
    cases h
    exact Session.settled_of_removed (by simp [Session.start]) (hb i)
  gone h := by cases h

variable [DecidableEq ι]

def step (key : Bytes) (c : Crowd ι) (e : Event ι) : Crowd ι :=
  match c.session e.party with
  | none => c
  | some s =>
    let (after, broker) := e.apply key s c.broker
    ⟨fun j => if j = e.party then after else c.session j, broker⟩

def run (key : Bytes) (c : Crowd ι) (events : List (Event ι)) : Crowd ι := events.foldl (step key) c

section Runs

variable {key : Bytes} {client : ι → ClientId} {c : Crowd ι}

theorem step_of_gone {e : Event ι} (h : c.session e.party = none) : step key c e = c := by
  rw [step, h]

theorem session_step {e : Event ι} {s : Session} (h : c.session e.party = some s) (j : ι) :
    (step key c e).session j =
      if j = e.party then (e.apply key s c.broker).1 else c.session j := by
  rw [step, h]

theorem broker_step {e : Event ι} {s : Session} (h : c.session e.party = some s) :
    (step key c e).broker = (e.apply key s c.broker).2 := by
  rw [step, h]

theorem Sound.step_of_ne (h : c.Sound client) (key : Bytes)
    (hclient : ∀ i j, client i = client j → i = j) (e : Event ι) {j : ι} (hj : j ≠ e.party) :
    (step key c e).session j = c.session j ∧
      (step key c e).broker.subscriber? (client j) = c.broker.subscriber? (client j) := by
  cases hs : c.session e.party with
  | none =>
    rw [step_of_gone hs]
    exact ⟨rfl, rfl⟩
  | some s =>
    have hne : client j ≠ s.client := fun he => hj (hclient _ _ (he.trans (h.client_eq hs)))
    rw [session_step hs, if_neg hj, broker_step hs]
    exact ⟨rfl, (e.served_apply key s c.broker).others _ hne⟩

/-- The session that is served is settled again; the others are where they were, and so are their
entries. -/
theorem Sound.step_of_session (h : c.Sound client) (hclient : ∀ i j, client i = client j → i = j)
    {e : Event ι} (he : e.Decoded) {s : Session} (hs : c.session e.party = some s) :
    (step key c e).Sound client where
  client_eq {j t} ht := by
    by_cases hj : j = e.party
    · rw [session_step hs, if_pos hj] at ht
      rw [hj, ← h.client_eq hs]
      exact Event.client_apply ht
    · rw [(h.step_of_ne key hclient e hj).1] at ht
      exact h.client_eq ht
  settled {j t} ht := by
    by_cases hj : j = e.party
    · rw [session_step hs, if_pos hj] at ht
      rw [broker_step hs]
      exact Event.settled_apply (h.settled hs) he ht
    · obtain ⟨hsession, hbroker⟩ := h.step_of_ne key hclient e hj
      rw [hsession] at ht
      rw [← h.client_eq ht] at hbroker
      exact (h.settled ht).congr hbroker
  gone {j} hgone := by
    by_cases hj : j = e.party
    · rw [session_step hs, if_pos hj] at hgone
      rw [broker_step hs, hj, ← h.client_eq hs]
      exact Event.subscriber?_apply_of_gone (h.settled hs) hgone
    · obtain ⟨hsession, hbroker⟩ := h.step_of_ne key hclient e hj
      rw [hsession] at hgone
      rw [hbroker]
      exact h.gone hgone

theorem Sound.step (h : c.Sound client) (hclient : ∀ i j, client i = client j → i = j)
    {e : Event ι} (he : e.Decoded) : (step key c e).Sound client := by
  cases hs : c.session e.party with
  | none => rwa [step_of_gone hs]
  | some s => exact h.step_of_session hclient he hs

theorem Sound.run (h : c.Sound client) (hclient : ∀ i j, client i = client j → i = j)
    {events : List (Event ι)} (hevents : ∀ e ∈ events, e.Decoded) :
    (run key c events).Sound client := by
  induction events generalizing c with
  | nil => exact h
  | cons e events ih =>
    exact ih (h.step hclient (hevents e List.mem_cons_self))
      fun f hf => hevents f (List.mem_cons_of_mem e hf)

end Runs

/-- Sessions of different clients, fresh at first, are handed decoded packets, closed and dropped in any
order: each is subscribed just when the broker holds filters for it, and serving one leaves the others
and their filters as they are. -/
theorem run_settles (key : Bytes) {client : ι → ClientId}
    (hclient : ∀ i j, client i = client j → i = j) (queue : ι → QueueId) {b : Broker}
    (hb : ∀ i, b.subscriber? (client i) = none) {events : List (Event ι)}
    (hevents : ∀ e ∈ events, e.Decoded) :
    let c := run key (start client queue b) events
    (∀ i s, c.session i = some s →
      (s.state = .subscribed ↔ (c.broker.subscriber? (client i)).isSome = true) ∧
      (s.state = .unauthenticated ∨ s.state = .authenticated ∨ s.state = .closed →
        c.broker.subscriber? (client i) = none)) ∧
    (∀ i, c.session i = none → c.broker.subscriber? (client i) = none) ∧
    (∀ i, ∀ x ∈ c.broker.subscriber? (client i),
      x.filters ≠ [] ∧ x.filters.Nodup ∧ ∀ f ∈ x.filters, Topic.validFilter f = true) ∧
    ∀ e : Event ι, ∀ j, j ≠ e.party →
      (step key c e).session j = c.session j ∧
        (step key c e).broker.subscriber? (client j) = c.broker.subscriber? (client j) := by
  intro c
  have hc : c.Sound client := (sound_start queue hb).run hclient hevents
  refine ⟨fun i s hs => ?_, fun i => hc.gone, fun i x hx => ?_,
    fun e j hj => hc.step_of_ne key hclient e hj⟩
  · rw [← hc.client_eq hs]
    refine ⟨(hc.settled hs).subscribed_iff, fun hstate => (hc.settled hs).none_of_ne ?_⟩
    rcases hstate with hstate | hstate | hstate <;> simp [hstate]
  · cases hs : c.session i with
    | none =>
      rw [hc.gone hs] at hx
      cases hx
    | some s =>
      rw [← hc.client_eq hs] at hx
      have hsound := (hc.settled hs).sound x hx
      exact ⟨hsound.nonempty, hsound.nodup, hsound.valid⟩

/-- One session subscribes; the other speaks too soon, is closed for it and dropped. -/
def Event.pair : List (Event Bool) :=
  [.handle false (.connect .kiosk) .kiosk, .handle false (.subscribe 10 [("a", 0), ("#", 0)]) .kiosk,
    .handle true .pingReq .kiosk, .handle false (.unsubscribe 11 ["#"]) .kiosk, .drop true]

theorem run_settles_pair :
    let client (i : Bool) : ClientId := if i then 2 else 1
    let c := run pepper (start client (fun _ => "queue") .empty) Event.pair
    (∀ i j, client i = client j → i = j) ∧ (∀ e ∈ Event.pair, e.Decoded) ∧
      (c.session false).map Session.state = some .subscribed ∧ c.session true = none ∧
      (c.broker.subscriber? 1).isSome = true ∧ c.broker.subscriber? 2 = none := by
  intro client c
  have hclient : ∀ i j, client i = client j → i = j := by decide
  have hdecoded : ∀ e ∈ Event.pair, e.Decoded := by
    intro e he
    simp only [Event.pair, List.mem_cons, List.not_mem_nil, or_false] at he
    rcases he with rfl | rfl | rfl | rfl | rfl
    · exact ⟨100, (Packet.connect .kiosk).encode, [], by decide +kernel⟩
    · exact ⟨100, (Packet.subscribe 10 [("a", 0), ("#", 0)]).encode, [], by decide +kernel⟩
    · exact ⟨100, Packet.pingReq.encode, [], by decide +kernel⟩
    · exact ⟨100, (Packet.unsubscribe 11 ["#"]).encode, [], by decide +kernel⟩
    · exact trivial
  have hstate : (c.session false).map Session.state = some .subscribed ∧ c.session true = none := by
    decide +kernel
  have hempty : ∀ i, Broker.empty.subscriber? (client i) = none := fun _ => rfl
  obtain ⟨hsettled, hgone, -, -⟩ :=
    run_settles pepper hclient (fun _ => "queue") hempty hdecoded
  obtain ⟨s, hs, hsub⟩ := Option.map_eq_some_iff.mp hstate.1
  exact ⟨hclient, hdecoded, hstate.1, hstate.2, (hsettled false s hs).1.mp hsub, hgone true hstate.2⟩

end Crowd

end Arrivals
