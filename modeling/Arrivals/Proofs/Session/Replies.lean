import Arrivals.Proofs.Broker.Fanout
import Arrivals.Proofs.Session.Sharing

/-! What a session answers, and what it comes to be subscribed to. Main statement: as long as it is not
closed, each packet that it handles gets one reply that is fit for it, and its client holds the valid
filters that were asked for more lately than given back, whatever other sessions do to the broker. -/

namespace Arrivals

open Mqtt

namespace Mqtt.Packet

/-- The reply that a packet asks for: a filter that is not valid is refused in its place. -/
inductive Answers : Packet → Packet → Prop
  | connect (c : Connect) : Answers (.connect c) (.connAck false .accepted)
  | ping : Answers .pingReq .pingResp
  | subscribe (id : UInt16) (filters : List (String × UInt8)) :
      Answers (.subscribe id filters)
        (.subAck id (filters.map fun f => if Topic.validFilter f.1 then 0 else 0x80))
  | unsubscribe (id : UInt16) (filters : List String) :
      Answers (.unsubscribe id filters) (.unsubAck id)

def asked : Packet → List String
  | .subscribe _ filters => filters.map Prod.fst
  | _ => []

def returned : Packet → List String
  | .unsubscribe _ filters => filters
  | _ => []

end Mqtt.Packet

/-- The last packet that mentions the filter asks for it. -/
def LastAsked (packets : List Packet) (filter : String) : Prop :=
  ∃ before p later, packets = before ++ p :: later ∧ filter ∈ p.asked ∧
    ∀ q ∈ later, filter ∉ q.asked ∧ filter ∉ q.returned

theorem not_lastAsked_nil (filter : String) : ¬ LastAsked [] filter := by
  rintro ⟨before, p, later, h, -⟩
  simp at h

theorem lastAsked_snoc {packets : List Packet} {p : Packet} {filter : String} :
    LastAsked (packets ++ [p]) filter ↔
      filter ∈ p.asked ∨ LastAsked packets filter ∧ filter ∉ p.returned := by
  constructor
  · rintro ⟨before, q, later, h, hasked, hlater⟩
    rcases List.eq_nil_or_concat later with rfl | ⟨later, r, rfl⟩
    · obtain ⟨-, rfl⟩ := List.append_singleton_inj.mp h
      exact .inl hasked
    · rw [List.concat_eq_append, ← List.cons_append, ← List.append_assoc] at h
      obtain ⟨rfl, rfl⟩ := List.append_singleton_inj.mp h
      have hr := hlater p (by simp)
      exact .inr ⟨⟨before, q, later, rfl, hasked, fun x hx => hlater x (by simp [hx])⟩, hr.2⟩
  · rintro (hasked | ⟨⟨before, q, later, rfl, hasked, hlater⟩, hkept⟩)
    · exact ⟨packets, p, [], rfl, hasked, by simp⟩
    · by_cases hp : filter ∈ p.asked
      · exact ⟨before ++ q :: later, p, [], rfl, hp, by simp⟩
      · refine ⟨before, q, later ++ [p], by simp, hasked, fun x hx => ?_⟩
        rcases List.mem_append.mp hx with hx | hx
        · exact hlater x hx
        · rw [List.mem_singleton.mp hx]
          exact ⟨hp, hkept⟩

namespace Session

section Filters

variable (s : Session)

theorem mem_filtersOf_subscribeAll (b : Broker) (filters : List String) (f : String) :
    f ∈ (s.subscribeAll b filters).2.filtersOf s.client ↔
      f ∈ b.filtersOf s.client ∨ f ∈ filters ∧ Topic.validFilter f = true := by
  induction filters generalizing b with
  | nil => simp [subscribeAll]
  | cons g rest ih =>
    rw [subscribeAll]
    by_cases hg : Topic.validFilter g = true
    · have happly : f ∈ (b.subscribe s.client g s.queue).filtersOf s.client ↔ _ :=
        Broker.mem_filtersOf_apply (b := b) (c := .subscribe s.client g s.queue)
      simp only [hg, if_true, ih, happly]
      by_cases hf : f = g
      · simp [hf, hg]
      · simp [hf, Ne.symm hf]
    · have hinvalid : Topic.validFilter g = false := Bool.eq_false_iff.mpr hg
      simp only [hinvalid, Bool.false_eq_true, if_false, ih]
      by_cases hf : f = g
      · simp [hf, hinvalid]
      · simp [hf]

theorem mem_filtersOf_unsubscribeAll (b : Broker) (filters : List String) (f : String) :
    f ∈ (s.unsubscribeAll b filters).filtersOf s.client ↔
      f ∈ b.filtersOf s.client ∧ f ∉ filters := by
  rw [unsubscribeAll]
  induction filters generalizing b with
  | nil => simp
  | cons g rest ih =>
    have happly : f ∈ (b.unsubscribe s.client g).filtersOf s.client ↔ _ :=
      Broker.mem_filtersOf_apply (b := b) (c := .unsubscribe s.client g)
    rw [List.foldl_cons, ih, happly]
    simp [eq_comm, and_assoc]

/-- Whatever is held for the client goes to the session's queue. -/
def OwnsQueue (b : Broker) : Prop := ∀ x ∈ b.subscriber? s.client, x.queue = s.queue

variable {s} {b : Broker}

theorem OwnsQueue.subscribeAll (h : s.OwnsQueue b) (filters : List String) :
    s.OwnsQueue (s.subscribeAll b filters).2 := by
  induction filters generalizing b with
  | nil => exact h
  | cons f rest ih =>
    rw [Session.subscribeAll]
    by_cases hf : Topic.validFilter f = true
    · simp only [hf, if_true]
      refine ih fun x hx => ?_
      rw [Broker.subscriber?_subscribe, if_pos rfl, Option.mem_some_iff] at hx
      subst hx
      cases hold : b.subscriber? s.client with
      | none => rfl
      | some old => exact h old hold
    · have hinvalid : Topic.validFilter f = false := Bool.eq_false_iff.mpr hf
      simp only [hinvalid, Bool.false_eq_true, if_false]
      exact ih h

theorem OwnsQueue.unsubscribeAll (h : s.OwnsQueue b) (filters : List String) :
    s.OwnsQueue (s.unsubscribeAll b filters) := by
  rw [Session.unsubscribeAll]
  induction filters generalizing b with
  | nil => exact h
  | cons f rest ih =>
    refine ih fun x hx => ?_
    rw [Broker.subscriber?_unsubscribe, if_pos rfl] at hx
    obtain ⟨old, hold, hdrop⟩ := Option.bind_eq_some_iff.mp hx
    have hqueue : x.queue = old.queue := by
      rw [Subscriber.drop?] at hdrop
      split at hdrop
      next => cases hdrop
      next =>
        cases hdrop
        rfl
    exact hqueue.trans (h old hold)

end Filters

theorem queue_subscribe (s : Session) (b : Broker) (id : UInt16) (filters : List String) :
    (s.subscribe b id filters).2.1.queue = s.queue := by
  rw [subscribe]
  dsimp only
  split <;> rfl

theorem queue_unsubscribe (s : Session) (b : Broker) (id : UInt16) (filters : List String) :
    (s.unsubscribe b id filters).2.1.queue = s.queue := by
  rw [unsubscribe]
  dsimp only
  generalize (if filters.isEmpty then _ else _ : List String) = left
  cases left <;> rfl

section Turns

variable {key : Bytes} {s : Session} {b : Broker} {source : Source} {p : Packet} {t : Step}
  {packets : List Packet}

theorem Turn.queue_eq (h : Turn key s b source p t) : t.session.queue = s.queue := by
  cases h with
  | @subscribed id filters => exact queue_subscribe s b id _
  | @unsubscribed id filters => exact queue_unsubscribe s b id _
  | _ => rfl

theorem Turn.answered (h : Turn key s b source p t) (ht : t.session.state ≠ .closed) :
    ∃ reply, t.outcome = .goOn [reply] ∧ p.Answers reply := by
  cases h with
  | spent hs => exact absurd hs ht
  | ended => exact absurd rfl ht
  | @admitted c => exact ⟨_, rfl, .connect c⟩
  | pinged => exact ⟨_, rfl, .ping⟩
  | @subscribed id filters =>
    refine ⟨.subAck id _, rfl, ?_⟩
    rw [codes_subscribeAll, List.map_map]
    exact .subscribe id filters
  | @unsubscribed id filters => exact ⟨_, rfl, .unsubscribe id filters⟩

/-- The client holds the valid filters that were asked for more lately than given back. -/
structure Follows (packets : List Packet) (s : Session) (b : Broker) : Prop where
  filters : ∀ f, f ∈ b.filtersOf s.client ↔ Topic.validFilter f = true ∧ LastAsked packets f
  queue : s.OwnsQueue b

theorem follows_nil (h : b.subscriber? s.client = none) : Follows [] s b where
  filters f := by
    rw [Broker.mem_filtersOf, h]
    simp [not_lastAsked_nil]
  queue x hx := by
    rw [h] at hx
    cases hx

theorem Follows.congr {s' : Session} {b' : Broker} (h : Follows packets s b)
    (hclient : s'.client = s.client) (hqueue : s'.queue = s.queue)
    (hb : b'.subscriber? s.client = b.subscriber? s.client) : Follows packets s' b' where
  filters f := by
    rw [← h.filters, hclient, Broker.mem_filtersOf, Broker.mem_filtersOf, hb]
  queue x hx := by
    rw [hclient, hb] at hx
    rw [hqueue]
    exact h.queue x hx

/-- A packet that mentions no filters leaves those that are held. -/
theorem Follows.silent (h : Follows packets s b) (hasked : p.asked = []) (hreturned : p.returned = []) :
    Follows (packets ++ [p]) s b where
  filters f := by
    rw [h.filters, lastAsked_snoc, hasked, hreturned]
    simp
  queue := h.queue

theorem Follows.subscribe (h : Follows packets s b) (id : UInt16) (filters : List (String × UInt8)) :
    Follows (packets ++ [.subscribe id filters]) s (s.subscribeAll b (filters.map Prod.fst)).2 where
  filters f := by
    have hasked : (Packet.subscribe id filters).asked = filters.map Prod.fst := rfl
    have hreturned : (Packet.subscribe id filters).returned = [] := rfl
    rw [mem_filtersOf_subscribeAll, h.filters, lastAsked_snoc, hasked, hreturned]
    by_cases hf : Topic.validFilter f = true
    · simp [hf, or_comm]
    · simp [hf]
  queue := h.queue.subscribeAll _

theorem Follows.unsubscribe (h : Follows packets s b) (id : UInt16) (filters : List String) :
    Follows (packets ++ [.unsubscribe id filters]) s (s.unsubscribeAll b filters) where
  filters f := by
    have hasked : (Packet.unsubscribe id filters).asked = [] := rfl
    have hreturned : (Packet.unsubscribe id filters).returned = filters := rfl
    rw [mem_filtersOf_unsubscribeAll, h.filters, lastAsked_snoc, hasked, hreturned]
    simp [and_assoc]
  queue := h.queue.unsubscribeAll _

theorem Follows.turn (h : Follows packets s b) (hturn : Turn key s b source p t)
    (ht : t.session.state ≠ .closed) : Follows (packets ++ [p]) t.session t.broker := by
  cases hturn with
  | spent hs => exact absurd hs ht
  | ended => exact absurd rfl ht
  | admitted => exact (h.silent rfl rfl).congr rfl rfl rfl
  | pinged => exact h.silent rfl rfl
  | @subscribed id filters =>
    exact (h.subscribe id filters).congr (client_subscribe s b id _)
      (queue_subscribe s b id _) rfl
  | @unsubscribed id filters =>
    exact (h.unsubscribe id filters).congr (client_unsubscribe s b id _)
      (queue_unsubscribe s b id _) rfl

theorem Turn.ne_closed (h : Turn key s b source p t) (ht : t.session.state ≠ .closed) :
    s.state ≠ .closed := by
  cases h with
  | spent hs => exact absurd hs ht
  | ended _ _ _ hs => exact hs
  | admitted _ hs => simp [hs]
  | pinged hopen => exact hopen.ne_closed
  | subscribed hopen => exact hopen.ne_closed
  | unsubscribed hopen => exact hopen.ne_closed

end Turns

end Session

namespace Crowd

variable {ι : Type} {key : Bytes} {client : ι → ClientId} {queue : ι → QueueId}
  {c : Crowd ι}

/-- Each session that is not closed has answered what it was handed, and follows what it was asked. -/
structure Attends (client : ι → ClientId) (queue : ι → QueueId)
    (talk : ι → List (Packet × Outcome)) (c : Crowd ι) : Prop where
  client_eq : ∀ {i s}, c.session i = some s → s.client = client i
  queue_eq : ∀ {i s}, c.session i = some s → s.queue = queue i
  answered : ∀ {i s}, c.session i = some s → s.state ≠ .closed →
    ∀ e ∈ talk i, ∃ reply, e.2 = .goOn [reply] ∧ e.1.Answers reply
  follows : ∀ {i s}, c.session i = some s → s.state ≠ .closed →
    s.Follows ((talk i).map Prod.fst) c.broker

theorem attends_start (queue : ι → QueueId) {b : Broker} (hb : ∀ i, b.subscriber? (client i) = none) :
    (start client queue b).Attends client queue fun _ => [] where
  client_eq h := by
    cases h
    rfl
  queue_eq h := by
    cases h
    rfl
  answered _ _ := by simp
  follows {i s} h _ := by
    cases h
    exact Session.follows_nil (hb i)

variable [DecidableEq ι]

/-- What a session is handed by an event, and what it makes of it. -/
def exchange (key : Bytes) (c : Crowd ι) (i : ι) (e : Event ι) : List (Packet × Outcome) :=
  match e with
  | .handle j p source =>
    match c.session j with
    | some s => if j = i then [(p, (s.handle key p c.broker source).outcome)] else []
    | none => []
  | .close _ => []
  | .drop _ => []

def dialogue (key : Bytes) (c : Crowd ι) (i : ι) : List (Event ι) → List (Packet × Outcome)
  | [] => []
  | e :: rest => exchange key c i e ++ dialogue key (step key c e) i rest

theorem dialogue_snoc (key : Bytes) (c : Crowd ι) (i : ι) (events : List (Event ι)) (e : Event ι) :
    dialogue key c i (events ++ [e]) =
      dialogue key c i events ++ exchange key (run key c events) i e := by
  induction events generalizing c with
  | nil => simp [dialogue, run]
  | cons f events ih => simp [dialogue, ih, run]

theorem exchange_of_ne {e : Event ι} {i : ι} (h : i ≠ e.party) : exchange key c i e = [] := by
  cases e with
  | handle j p source =>
    have hj : ¬ j = i := fun he => h he.symm
    cases hs : c.session j <;> simp [exchange, hs, hj]
  | close => rfl
  | drop => rfl

variable {talk : ι → List (Packet × Outcome)}

/-- The session that an event concerns, if it is not closed by it. -/
theorem Attends.apply (h : c.Attends client queue talk) {e : Event ι} {s t : Session}
    (hs : c.session e.party = some s) (ht : (e.apply key s c.broker).1 = some t) :
    t.queue = queue e.party ∧ (t.state ≠ .closed →
      (∀ x ∈ talk e.party ++ exchange key c e.party e,
        ∃ reply, x.2 = .goOn [reply] ∧ x.1.Answers reply) ∧
      t.Follows ((talk e.party ++ exchange key c e.party e).map Prod.fst)
        (e.apply key s c.broker).2) := by
  cases e with
  | handle i p source =>
    change c.session i = some s at hs
    have hturn := s.turn_handle key c.broker source p
    obtain rfl : (s.handle key p c.broker source).session = t := Option.some.inj ht
    have htalk : exchange key c i (.handle i p source) =
        [(p, (s.handle key p c.broker source).outcome)] := by
      simp [exchange, hs]
    refine ⟨hturn.queue_eq.trans (h.queue_eq hs), fun hopen => ?_⟩
    have hbefore := hturn.ne_closed hopen
    change (∀ x ∈ talk i ++ exchange key c i (.handle i p source), _) ∧ _
    rw [Event.party, htalk]
    constructor
    · intro x hx
      rcases List.mem_append.mp hx with hx | hx
      · exact h.answered hs hbefore x hx
      · rw [List.mem_singleton.mp hx]
        exact hturn.answered hopen
    · rw [List.map_append]
      exact (h.follows hs hbefore).turn hturn hopen
  | close i =>
    obtain rfl : (s.close c.broker).1 = t := Option.some.inj ht
    have hqueue : s.queue = queue i := h.queue_eq hs
    rw [s.session_close]
    exact ⟨hqueue, fun hopen => absurd rfl hopen⟩
  | drop i => cases ht

theorem Attends.step (h : c.Attends client queue talk) (hclient : ∀ i j, client i = client j → i = j)
    (key : Bytes) (e : Event ι) :
    (Crowd.step key c e).Attends client queue fun i => talk i ++ exchange key c i e := by
  cases hs : c.session e.party with
  | none =>
    have hsilent (i : ι) : exchange key c i e = [] := by
      cases e with
      | handle j p source =>
        change c.session j = none at hs
        simp [exchange, hs]
      | close => rfl
      | drop => rfl
    simp only [step_of_gone hs, hsilent, List.append_nil]
    exact h
  | some s =>
    have hserved := e.served_apply key s c.broker
    rw [h.client_eq hs] at hserved
    -- what is held for the clients of other sessions stays
    have hothers {i : ι} (hi : i ≠ e.party) :
        (Crowd.step key c e).session i = c.session i ∧ exchange key c i e = [] ∧
          (Crowd.step key c e).broker.subscriber? (client i) = c.broker.subscriber? (client i) := by
      rw [session_step hs, if_neg hi, broker_step hs]
      exact ⟨rfl, exchange_of_ne hi, hserved.others _ fun he => hi (hclient _ _ he)⟩
    have hself {t : Session} (ht : (Crowd.step key c e).session e.party = some t) :
        (e.apply key s c.broker).1 = some t := by
      rwa [session_step hs, if_pos rfl] at ht
    constructor
    case client_eq =>
      intro i t ht
      by_cases hi : i = e.party
      · subst hi
        exact (Event.client_apply (hself ht)).trans (h.client_eq hs)
      · rw [(hothers hi).1] at ht
        exact h.client_eq ht
    case queue_eq =>
      intro i t ht
      by_cases hi : i = e.party
      · subst hi
        exact (h.apply hs (hself ht)).1
      · rw [(hothers hi).1] at ht
        exact h.queue_eq ht
    case answered =>
      intro i t ht hopen
      by_cases hi : i = e.party
      · subst hi
        exact ((h.apply hs (hself ht)).2 hopen).1
      · rw [(hothers hi).1] at ht
        rw [(hothers hi).2.1, List.append_nil]
        exact h.answered ht hopen
    case follows =>
      intro i t ht hopen
      by_cases hi : i = e.party
      · subst hi
        rw [broker_step hs]
        exact ((h.apply hs (hself ht)).2 hopen).2
      · rw [(hothers hi).1] at ht
        rw [(hothers hi).2.1, List.append_nil]
        refine (h.follows ht hopen).congr rfl rfl ?_
        rw [h.client_eq ht]
        exact (hothers hi).2.2

theorem attends_run (key : Bytes) (hclient : ∀ i j, client i = client j → i = j) (queue : ι → QueueId)
    {b : Broker} (hb : ∀ i, b.subscriber? (client i) = none) (events : List (Event ι)) :
    (run key (start client queue b) events).Attends client queue fun i =>
      dialogue key (start client queue b) i events := by
  induction events using List.reverseRecOn with
  | nil => exact attends_start queue hb
  | append_singleton events e ih =>
    have hrun : run key (start client queue b) (events ++ [e]) =
        step key (run key (start client queue b) events) e := by
      simp [run]
    simp only [dialogue_snoc, hrun]
    exact ih.step hclient key e

/-- Fresh sessions of different clients are handed packets, closed and dropped in any order. As long as a
session is not closed, each packet that it handled got one reply that is fit for it, and its client holds
the filters that are valid and that the last packet to mention them asked for. A message is offered to it,
through its own queue, just when one of these filters matches the topic. -/
theorem run_acknowledges (key : Bytes) {client : ι → ClientId}
    (hclient : ∀ i j, client i = client j → i = j) (queue : ι → QueueId) {b : Broker}
    (hb : ∀ i, b.subscriber? (client i) = none) (events : List (Event ι)) :
    let c := run key (start client queue b) events
    ∀ i s, c.session i = some s → s.state ≠ .closed →
      let talk := dialogue key (start client queue b) i events
      (∀ e ∈ talk, ∃ reply, e.2 = .goOn [reply] ∧ e.1.Answers reply) ∧
      (∀ f, f ∈ c.broker.filtersOf (client i) ↔
        Topic.validFilter f = true ∧ LastAsked (talk.map Prod.fst) f) ∧
      (∀ q, c.broker.queueOf (client i) = some q → q = queue i) ∧
      ∀ topic payload, ∃ taken refused,
        Broker.FannedOut c.broker (c.broker.publish topic payload).2
          (Packet.publish (.atMostOnce topic payload)).encode taken refused ∧
        (client i ∈ taken ++ refused ↔
          ∃ f, (Topic.validFilter f = true ∧ LastAsked (talk.map Prod.fst) f) ∧
            Topic.covers f topic = true) := by
  intro c i s hs hopen talk
  have hc : c.Attends client queue _ := attends_run key hclient queue hb events
  have hfollows := hc.follows hs hopen
  have hfilters (f : String) : f ∈ c.broker.filtersOf (client i) ↔
      Topic.validFilter f = true ∧ LastAsked (talk.map Prod.fst) f := by
    rw [← hc.client_eq hs]
    exact hfollows.filters f
  refine ⟨hc.answered hs hopen, hfilters, fun q hq => ?_, fun topic payload => ?_⟩
  · rw [← hc.client_eq hs] at hq
    obtain ⟨x, hx, rfl⟩ := Option.map_eq_some_iff.mp hq
    exact (hfollows.queue x hx).trans (hc.queue_eq hs)
  · obtain ⟨taken, refused, hperm, hfanned, -⟩ := c.broker.publish_fannedOut topic payload
    refine ⟨taken, refused, hfanned, ?_⟩
    rw [← hperm.mem_iff, Broker.mem_audience_iff]
    exact exists_congr fun f => and_congr_left' (hfilters f)

/-- One session asks for filters, one of them refused, gives some back and asks again; another, which
has asked for the same filter, leaves in between. -/
def Event.regrets : List (Event Bool) :=
  [.handle false (.connect .kiosk) .kiosk, .handle true (.connect .kiosk) .kiosk,
    .handle false (.subscribe 10 [("live/#", 0), ("a#", 1), ("b", 0)]) .kiosk,
    .handle true (.subscribe 10 [("live/#", 0)]) .kiosk,
    .handle false (.unsubscribe 11 ["live/#", "b", "b"]) .kiosk, .handle true .disconnect .kiosk,
    .handle false .pingReq .kiosk, .handle false (.subscribe 12 [("live/#", 0)]) .kiosk]

theorem run_acknowledges_regrets :
    let client (i : Bool) : ClientId := if i then 2 else 1
    let c := run pepper (start client (fun _ => "queue") .empty) Event.regrets
    let talk := dialogue pepper (start client (fun _ => "queue") .empty) false Event.regrets
    (∀ i j, client i = client j → i = j) ∧ (c.session false).map Session.state = some .subscribed ∧
      talk.map Prod.snd = [.goOn [.connAck false .accepted], .goOn [.subAck 10 [0, 0x80, 0]],
        .goOn [.unsubAck 11], .goOn [.pingResp], .goOn [.subAck 12 [0]]] ∧
      LastAsked (talk.map Prod.fst) "live/#" ∧ ¬ LastAsked (talk.map Prod.fst) "b" ∧
      ∃ taken refused, Broker.FannedOut c.broker (c.broker.publish "live/etas" [7]).2
          (Packet.publish (.atMostOnce "live/etas" [7])).encode taken refused ∧
        1 ∈ taken ++ refused := by
  intro client c talk
  have hclient : ∀ i j, client i = client j → i = j := by decide
  have hempty : ∀ i, Broker.empty.subscriber? (client i) = none := fun _ => rfl
  obtain ⟨hstate, hreplies, hheld⟩ :
      (c.session false).map Session.state = some .subscribed ∧
      talk.map Prod.snd = [.goOn [.connAck false .accepted], .goOn [.subAck 10 [0, 0x80, 0]],
        .goOn [.unsubAck 11], .goOn [.pingResp], .goOn [.subAck 12 [0]]] ∧
      c.broker.filtersOf 1 = ["live/#"] := by decide +kernel
  obtain ⟨s, hs, hsub⟩ := Option.map_eq_some_iff.mp hstate
  have hopen : s.state ≠ .closed := by simp [hsub]
  obtain ⟨-, hfilters, -, hpublish⟩ :=
    run_acknowledges pepper hclient (fun _ => "queue") hempty Event.regrets false s hs hopen
  have hmine : "live/#" ∈ c.broker.filtersOf 1 := by simp [hheld]
  have hnot : "b" ∉ c.broker.filtersOf 1 := by simp [hheld]
  have hasked : LastAsked (talk.map Prod.fst) "live/#" := ((hfilters "live/#").mp hmine).2
  have hgiven : ¬ LastAsked (talk.map Prod.fst) "b" := fun h =>
    hnot ((hfilters "b").mpr ⟨by decide +kernel, h⟩)
  obtain ⟨taken, refused, hfanned, hmem⟩ := hpublish "live/etas" [7]
  have hreached : 1 ∈ taken ++ refused :=
    hmem.mpr ⟨"live/#", ⟨by decide +kernel, hasked⟩, by decide +kernel⟩
  exact ⟨hclient, hstate, hreplies, hasked, hgiven, taken, refused, hfanned, hreached⟩

end Crowd

end Arrivals
