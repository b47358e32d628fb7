import Arrivals.Proofs.Broker.Entries
import Arrivals.Proofs.Mqtt.RoundTrip
import Mathlib.Data.List.Induction

/-! What becomes of a message that is published. Main statement: it is offered once to each client that
holds a filter for its topic, and to nobody else; who does not get it has a queue that is full or closed. -/

namespace Arrivals

open Mqtt

namespace Subscriber

theorem mem_filters_drop? {s : Subscriber} {filter f : String} :
    (∃ t, s.drop? filter = some t ∧ f ∈ t.filters) ↔ f ∈ s.filters ∧ f ≠ filter := by
  have hmem : f ∈ s.filters.filter (fun g => g != filter) ↔ f ∈ s.filters ∧ f ≠ filter := by
    simp [List.mem_filter]
  rw [← hmem, drop?]
  split
  next hempty => simp [List.isEmpty_iff.mp hempty]
  next => simp

end Subscriber

namespace Broker

inductive Call where
  | subscribe (client : ClientId) (filter : String) (q : QueueId)
  | unsubscribe (client : ClientId) (filter : String)
  | remove (client : ClientId)

def apply (b : Broker) : Call → Broker
  | .subscribe client filter q => b.subscribe client filter q
  | .unsubscribe client filter => b.unsubscribe client filter
  | .remove client => b.remove client

def after (b : Broker) (calls : List Call) : Broker := calls.foldl apply b

/-- The client took the filter, and has neither given it back since nor been removed. -/
def Holds (calls : List Call) (client : ClientId) (filter : String) : Prop :=
  ∃ before q later, calls = before ++ .subscribe client filter q :: later ∧
    .unsubscribe client filter ∉ later ∧ .remove client ∉ later

variable {b : Broker} {calls : List Call} {c : Call} {client : ClientId} {filter : String}

theorem holds_append : Holds (calls ++ [c]) client filter ↔
    (∃ q, c = .subscribe client filter q) ∨
      Holds calls client filter ∧ c ≠ .unsubscribe client filter ∧ c ≠ .remove client := by
  constructor
  · rintro ⟨before, q, later, hcalls, hkept, hstays⟩
    induction later using List.reverseRecOn with
    | nil =>
      obtain ⟨-, hc⟩ := List.append_inj' hcalls rfl
      exact .inl ⟨q, List.singleton_inj.mp hc⟩
    | append_singleton later d _ =>
      rw [← List.cons_append, ← List.append_assoc] at hcalls
      obtain ⟨rfl, hc⟩ := List.append_inj' hcalls rfl
      obtain rfl := List.singleton_inj.mp hc
      rw [List.mem_append, List.mem_singleton, not_or] at hkept hstays
      exact .inr ⟨⟨before, q, later, rfl, hkept.1, hstays.1⟩, Ne.symm hkept.2, Ne.symm hstays.2⟩
  · rintro (⟨q, rfl⟩ | ⟨⟨before, q, later, rfl, hkept, hstays⟩, hkeeps, hstay⟩)
    · exact ⟨calls, q, [], rfl, List.not_mem_nil, List.not_mem_nil⟩
    · refine ⟨before, q, later ++ [c], by simp, ?_, ?_⟩
      · simpa [hkept] using Ne.symm hkeeps
      · simpa [hstays] using Ne.symm hstay

theorem mem_filtersOf : filter ∈ b.filtersOf client ↔
    ∃ s, b.subscriber? client = some s ∧ filter ∈ s.filters := by
  rw [filtersOf, subscriber?]
  cases b.subscribers.get? client <;> simp

theorem mem_filtersOf_apply : filter ∈ (b.apply c).filtersOf client ↔
    (∃ q, c = .subscribe client filter q) ∨
      filter ∈ b.filtersOf client ∧ c ≠ .unsubscribe client filter ∧ c ≠ .remove client := by
  rw [mem_filtersOf, mem_filtersOf]
  cases c with
  | subscribe j f q =>
    rw [apply, subscriber?_subscribe]
    by_cases hj : j = client
    · subst hj
      cases hs : b.subscriber? j with
      | none => simp [Subscriber.mem_filters_add, eq_comm]
      | some s => simp [Subscriber.mem_filters_add, eq_comm, or_comm]
    · simp [hj]
  | unsubscribe j f =>
    rw [apply, subscriber?_unsubscribe]
    by_cases hj : j = client
    · subst hj
      cases hs : b.subscriber? j with
      | none => simp
      | some s =>
        rw [if_pos rfl, Option.bind_some, Subscriber.mem_filters_drop?]
        simp [eq_comm]
    · simp [hj]
  | remove j =>
    rw [apply, subscriber?_remove]
    by_cases hj : j = client
    · simp [hj]
    · simp [hj, Ne.symm hj]

theorem mem_filtersOf_after (outboxes : Table QueueId Outbox) (clients : Nat) :
    filter ∈ (after ⟨.empty, outboxes, clients⟩ calls).filtersOf client ↔
      Holds calls client filter := by
  induction calls using List.reverseRecOn with
  | nil => simp [after, filtersOf, Holds]
  | append_singleton calls c ih =>
    rw [after, List.foldl_append, List.foldl_cons, List.foldl_nil, ← after, mem_filtersOf_apply, ih,
      holds_append]

end Broker

namespace Outbox

/-- With so many more copies of a frame behind what is there. -/
def extend (o : Outbox) (n : Nat) (frame : Bytes) : Outbox :=
  { o with frames := o.frames ++ List.replicate n frame }

theorem extend_zero (o : Outbox) (frame : Bytes) : o.extend 0 frame = o := by
  simp [extend]

theorem extend_push (o : Outbox) (n : Nat) (frame : Bytes) :
    (o.push frame).extend n frame = o.extend (n + 1) frame := by
  simp [extend, push, List.replicate_succ]

theorem accepts_of_extend {o : Outbox} {n : Nat} {frame : Bytes}
    (h : (o.extend n frame).accepts = true) : o.accepts = true := by
  simp only [accepts, extend, List.length_append, List.length_replicate, Bool.and_eq_true,
    decide_eq_true_eq] at h ⊢
  exact ⟨h.1, by omega⟩

end Outbox

namespace Broker

variable {γ : Type} {queue : γ → QueueId} {frame : Bytes} {outboxes outboxes' : Table QueueId Outbox}
  {taken refused : List γ}

/-- Of those to whom a frame was offered, one after the other, some have it in their queues, and for the
others there was no room. -/
structure Dealt (queue : γ → QueueId) (frame : Bytes) (outboxes outboxes' : Table QueueId Outbox)
    (taken refused : List γ) : Prop where
  frames : ∀ q, outboxes'.get? q =
    (outboxes.get? q).map fun o => o.extend (taken.countP fun c => queue c = q) frame
  accepted : ∀ c ∈ taken, ∃ o, outboxes.get? (queue c) = some o ∧ o.accepts = true
  missed : ∀ c ∈ refused, ∀ o, outboxes'.get? (queue c) = some o → o.accepts = false

theorem Dealt.nil (outboxes : Table QueueId Outbox) :
    Dealt queue frame outboxes outboxes [] [] where
  frames q := by simp [Outbox.extend_zero]
  accepted := nofun
  missed := nofun

theorem Dealt.take {c : γ} {o : Outbox} (ho : outboxes.get? (queue c) = some o)
    (haccepts : o.accepts = true)
    (h : Dealt queue frame (outboxes.insert (queue c) (o.push frame)) outboxes' taken refused) :
    Dealt queue frame outboxes outboxes' (c :: taken) refused where
  frames q := by
    rw [h.frames, Table.get?_insert, List.countP_cons]
    by_cases hq : queue c = q
    · subst hq
      simp [ho, Outbox.extend_push]
    · simp [hq]
  accepted d hd := by
    rcases List.mem_cons.mp hd with rfl | hd
    · exact ⟨o, ho, haccepts⟩
    · obtain ⟨o', ho', haccepts'⟩ := h.accepted d hd
      rw [Table.get?_insert] at ho'
      split at ho'
      next hq => exact ⟨o, hq ▸ ho, haccepts⟩
      next => exact ⟨o', ho', haccepts'⟩
  missed := h.missed

theorem Dealt.refuse {c : γ} (hfull : ∀ o, outboxes.get? (queue c) = some o → o.accepts = false)
    (h : Dealt queue frame outboxes outboxes' taken refused) :
    Dealt queue frame outboxes outboxes' taken (c :: refused) where
  frames := h.frames
  accepted := h.accepted
  missed d hd o ho := by
    rcases List.mem_cons.mp hd with rfl | hd
    · rw [h.frames, Option.map_eq_some_iff] at ho
      obtain ⟨o', ho', rfl⟩ := ho
      exact Bool.eq_false_iff.mpr fun haccepts =>
        absurd (hfull o' ho') (by rw [Outbox.accepts_of_extend haccepts]; decide)
    · exact h.missed d hd o ho

theorem offer_of_accepts {q : QueueId} {o : Outbox} (ho : outboxes.get? q = some o)
    (haccepts : o.accepts = true) :
    offer frame outboxes q = (outboxes.insert q (o.push frame), ⟨1, 0⟩) := by
  rw [offer, ho]
  exact if_pos haccepts

theorem offer_of_full {q : QueueId} (hfull : ∀ o, outboxes.get? q = some o → o.accepts = false) :
    offer frame outboxes q = (outboxes, ⟨0, 1⟩) := by
  rw [offer]
  cases ho : outboxes.get? q with
  | none => rfl
  | some o => exact if_neg (Bool.eq_false_iff.mp (hfull o ho))

theorem offerAll_cons (frame : Bytes) (outboxes : Table QueueId Outbox) (q : QueueId)
    (rest : List QueueId) :
    offerAll frame outboxes (q :: rest) =
      ((offerAll frame (offer frame outboxes q).1 rest).1,
        (offer frame outboxes q).2.add (offerAll frame (offer frame outboxes q).1 rest).2) := rfl

theorem exists_dealt (queue : γ → QueueId) (frame : Bytes) (outboxes : Table QueueId Outbox)
    (cs : List γ) :
    ∃ taken refused, cs.Perm (taken ++ refused) ∧
      Dealt queue frame outboxes (offerAll frame outboxes (cs.map queue)).1 taken refused ∧
      (offerAll frame outboxes (cs.map queue)).2 = ⟨taken.length, refused.length⟩ := by
  induction cs generalizing outboxes with
  | nil => exact ⟨[], [], .nil, .nil outboxes, rfl⟩
  | cons c rest ih =>
    rw [List.map_cons, offerAll_cons]
    by_cases haccepts : ∃ o, outboxes.get? (queue c) = some o ∧ o.accepts = true
    · obtain ⟨o, ho, haccepts⟩ := haccepts
      rw [offer_of_accepts ho haccepts]
      obtain ⟨taken, refused, hperm, hdealt, hcounts⟩ := ih (outboxes.insert (queue c) (o.push frame))
      refine ⟨c :: taken, refused, hperm.cons c, hdealt.take ho haccepts, ?_⟩
      rw [hcounts, List.length_cons, Delivery.add, Nat.add_comm 1, Nat.zero_add]
    · have hfull : ∀ o, outboxes.get? (queue c) = some o → o.accepts = false := fun o ho =>
        Bool.eq_false_iff.mpr fun h => haccepts ⟨o, ho, h⟩
      rw [offer_of_full hfull]
      obtain ⟨taken, refused, hperm, hdealt, hcounts⟩ := ih outboxes
      refine ⟨taken, c :: refused, (hperm.cons c).trans List.perm_middle.symm, hdealt.refuse hfull, ?_⟩
      rw [hcounts, List.length_cons, Delivery.add, Nat.add_comm 1, Nat.zero_add]

variable {b b' : Broker} {client : ClientId} {topic : String}

def queueOf (b : Broker) (client : ClientId) : Option QueueId :=
  (b.subscriber? client).map Subscriber.queue

/-- The client has a queue that is neither full nor closed. -/
def Reaches (b : Broker) (client : ClientId) : Prop :=
  ∃ q o, b.queueOf client = some q ∧ b.outboxes.get? q = some o ∧ o.accepts = true

/-- Of the clients to whom a frame was offered, some have it in their queues, and the queues of the others
are full or closed. -/
structure FannedOut (b b' : Broker) (frame : Bytes) (taken refused : List ClientId) : Prop where
  once : (taken ++ refused).Nodup
  queued : ∀ c ∈ taken ++ refused, (b.queueOf c).isSome
  frames : ∀ q, b'.outboxes.get? q =
    (b.outboxes.get? q).map fun o => o.extend (taken.countP fun c => b.queueOf c = some q) frame
  reached : ∀ c ∈ taken, b.Reaches c
  missed : ∀ c ∈ refused, ¬ b'.Reaches c
  subscribers : b'.subscribers = b.subscribers

/-- Whether a client with a queue of its own is refused depends on that queue alone. -/
theorem FannedOut.mem_refused_iff {taken refused : List ClientId}
    (h : FannedOut b b' frame taken refused) {c : ClientId} (hc : c ∈ taken ++ refused)
    (halone : ∀ d ∈ taken, d ≠ c → b.queueOf d ≠ b.queueOf c) : c ∈ refused ↔ ¬ b.Reaches c := by
  constructor
  · rintro hrefused ⟨q, o, hq, ho, haccepts⟩
    have hq' : b'.queueOf c = some q := by
      rw [queueOf, subscriber?, h.subscribers]
      exact hq
    have hnone : taken.countP (fun d => b.queueOf d = some q) = 0 := by
      refine List.countP_eq_zero.mpr fun d hd hdq => ?_
      have hne : d ≠ c := fun he => (List.nodup_append.mp h.once).2.2 d hd c hrefused he
      exact halone d hd hne ((of_decide_eq_true hdq).trans hq.symm)
    have ho' : b'.outboxes.get? q = some o := by
      rw [h.frames, ho, Option.map_some, hnone, Outbox.extend_zero]
    exact h.missed c hrefused ⟨q, o, hq', ho', haccepts⟩
  · intro hmissed
    exact (List.mem_append.mp hc).resolve_left fun htaken => hmissed (h.reached c htaken)

/-- Those who have a filter for the topic, with what is held for them. -/
def audience (b : Broker) (topic : String) : List (ClientId × Subscriber) :=
  b.subscribers.entries.filter fun e => e.2.wants topic

theorem subscriber?_of_mem_audience {e : ClientId × Subscriber}
    (h : e ∈ b.audience topic) : b.subscriber? e.1 = some e.2 :=
  Table.mem_entries_iff.mp (List.mem_filter.mp h).1

theorem mem_audience_iff :
    client ∈ (b.audience topic).map Prod.fst ↔
      ∃ f ∈ b.filtersOf client, Topic.covers f topic = true := by
  rw [List.mem_map]
  constructor
  · rintro ⟨e, he, rfl⟩
    obtain ⟨f, hf, hcovers⟩ := List.any_eq_true.mp (List.mem_filter.mp he).2
    exact ⟨f, mem_filtersOf.mpr ⟨e.2, subscriber?_of_mem_audience he, hf⟩, hcovers⟩
  · rintro ⟨f, hf, hcovers⟩
    obtain ⟨s, hs, hmem⟩ := mem_filtersOf.mp hf
    exact ⟨(client, s), List.mem_filter.mpr ⟨Table.mem_entries_iff.mpr hs,
      List.any_eq_true.mpr ⟨f, hmem, hcovers⟩⟩, rfl⟩

theorem nodup_audience (b : Broker) (topic : String) :
    ((b.audience topic).map Prod.fst).Nodup :=
  b.subscribers.distinct.sublist (List.filter_sublist.map _)

theorem publish_eq (b : Broker) (topic : String) (payload : Bytes) :
    let dealt := offerAll (Packet.publish (.atMostOnce topic payload)).encode b.outboxes
      ((b.audience topic).map fun e => e.2.queue)
    b.publish topic payload = (dealt.2, { b with outboxes := dealt.1 }) := by
  intro dealt
  have hqueues : (b.subscribers.values.filter fun s => s.wants topic).map Subscriber.queue =
      (b.audience topic).map fun e => e.2.queue := by
    rw [audience, Table.values, List.filter_map, List.map_map]
    rfl
  rw [publish]
  dsimp only
  rw [hqueues]

theorem publish_fannedOut (b : Broker) (topic : String) (payload : Bytes) :
    ∃ taken refused, ((b.audience topic).map Prod.fst).Perm (taken ++ refused) ∧
      FannedOut b (b.publish topic payload).2 (Packet.publish (.atMostOnce topic payload)).encode
        taken refused ∧
      (b.publish topic payload).1 = ⟨taken.length, refused.length⟩ := by
  rw [publish_eq]
  dsimp only
  obtain ⟨taken, refused, hperm, hdealt, hcounts⟩ := exists_dealt (fun e => e.2.queue)
    (Packet.publish (.atMostOnce topic payload)).encode b.outboxes (b.audience topic)
  have hqueue (e) (he : e ∈ taken ++ refused) : b.queueOf e.1 = some e.2.queue := by
    rw [queueOf, subscriber?_of_mem_audience (hperm.mem_iff.mpr he)]
    rfl
  have hnames := hperm.map Prod.fst
  rw [List.map_append] at hnames
  refine ⟨taken.map Prod.fst, refused.map Prod.fst, hnames, ⟨?_, ?_, fun q => ?_, ?_, ?_, rfl⟩, ?_⟩
  · exact hnames.nodup_iff.mp (b.nodup_audience topic)
  · rw [← List.map_append]
    intro c hc
    obtain ⟨e, he, rfl⟩ := List.mem_map.mp hc
    rw [hqueue e he]
    rfl
  · have hcount : (taken.map Prod.fst).countP (fun c => b.queueOf c = some q) =
        taken.countP fun e => e.2.queue = q := by
      rw [List.countP_map]
      refine List.countP_congr fun e he => ?_
      simp [hqueue e (List.mem_append_left _ he)]
    rw [hcount]
    exact hdealt.frames q
  · intro c hc
    obtain ⟨e, he, rfl⟩ := List.mem_map.mp hc
    obtain ⟨o, ho, haccepts⟩ := hdealt.accepted e he
    exact ⟨e.2.queue, o, hqueue e (List.mem_append_left _ he), ho, haccepts⟩
  · rintro c hc ⟨q, o, hq, ho, haccepts⟩
    obtain ⟨e, he, rfl⟩ := List.mem_map.mp hc
    obtain rfl := Option.some.inj ((hqueue e (List.mem_append_right _ he)).symm.trans hq)
    exact absurd (hdealt.missed e he o ho) (by rw [haccepts]; decide)
  · rw [hcounts, List.length_map, List.length_map]

theorem decode_publish {payload : Bytes} (htopic : Sizable (.ofString topic))
    (hlength : (Packet.publish (.atMostOnce topic payload)).body.length ≤ greatestRemaining)
    {limit : Nat} (hlimit : (Packet.publish (.atMostOnce topic payload)).body.length ≤ limit)
    (rest : Bytes) :
    decode limit ((Packet.publish (.atMostOnce topic payload)).encode ++ rest) =
      .packet (.publish (.atMostOnce topic payload)) rest := by
  have hfits : (Publish.atMostOnce topic payload).Fits :=
    ⟨htopic, UInt8.zero_le, ⟨nofun, fun h => absurd h (UInt8.lt_irrefl 0)⟩⟩
  have hp : ((Packet.publish (.atMostOnce topic payload)).frame hlength).packet? =
      .ok (.publish (.atMostOnce topic payload)) := Packet.ofBody?_body (p := .publish _) hfits
  rw [← Packet.bytes_frame hlength, decode_frame hlimit, Frame.decoded, hp]

/-- After any calls of any clients, whatever is in the queues, a message is offered as one frame to each
client that holds a filter for its topic, and to nobody else. The counts are of those who got it and of
those whose queues are full or closed, and the frame is read as the message. -/
theorem publish_fans_out (outboxes : Table QueueId Outbox) (clients : Nat) (calls : List Call)
    {topic : String} {payload : Bytes} (htopic : (Bytes.ofString topic).length ≤ 65535)
    (hbody : (Packet.publish (.atMostOnce topic payload)).body.length ≤ 268435455) :
    let b := after ⟨.empty, outboxes, clients⟩ calls
    ∃ frame taken refused,
      FannedOut b (b.publish topic payload).2 frame taken refused ∧
      (∀ c, c ∈ taken ++ refused ↔ ∃ f, Holds calls c f ∧ Topic.covers f topic = true) ∧
      (b.publish topic payload).1 = ⟨taken.length, refused.length⟩ ∧
      (∀ c ∈ taken ++ refused, (∀ d ∈ taken, d ≠ c → b.queueOf d ≠ b.queueOf c) →
        (c ∈ refused ↔ ¬ b.Reaches c)) ∧
      ∀ limit rest, (Packet.publish (.atMostOnce topic payload)).body.length ≤ limit →
        decode limit (frame ++ rest) = .packet (.publish ⟨topic, payload, 0, false, false, none⟩) rest := by
  intro b
  obtain ⟨taken, refused, hperm, hfanned, hcounts⟩ := b.publish_fannedOut topic payload
  refine ⟨_, taken, refused, hfanned, fun c => ?_, hcounts, fun c => hfanned.mem_refused_iff,
    fun limit rest hlimit => decode_publish htopic hbody hlimit rest⟩
  rw [← hperm.mem_iff, mem_audience_iff]
  exact exists_congr fun f => and_congr_left' (mem_filtersOf_after outboxes clients)

/-- Three queues, of which the second is full. -/
def hall : Table QueueId Outbox :=
  .ofList [("east", ⟨[], 4, false⟩), ("west", ⟨[[1]], 1, false⟩), ("south", ⟨[], 4, false⟩)]

/-- One client has two filters for the topic, one has a full queue, and one has given its filter back. -/
def hallCalls : List Call :=
  [.subscribe 1 "live/#" "east", .subscribe 1 "+/etas" "east", .subscribe 2 "#" "west",
    .subscribe 3 "live/etas" "south", .subscribe 3 "dev/#" "south", .unsubscribe 3 "live/etas"]

theorem publish_fans_out_hall :
    let b := after ⟨.empty, hall, 3⟩ hallCalls
    (Bytes.ofString "live/etas").length ≤ 65535 ∧
      (Packet.publish (.atMostOnce "live/etas" [7, 7])).body.length = 13 ∧
      (b.publish "live/etas" [7, 7]).1 = ⟨1, 1⟩ ∧
      ∃ frame taken refused,
        FannedOut b (b.publish "live/etas" [7, 7]).2 frame taken refused ∧
        (2 ∈ taken ++ refused ↔ ∃ f, Holds hallCalls 2 f ∧ Topic.covers f "live/etas" = true) ∧
        decode 13 frame = .packet (.publish ⟨"live/etas", [7, 7], 0, false, false, none⟩) [] := by
  intro b
  have htopic : (Bytes.ofString "live/etas").length ≤ 65535 := by decide +kernel
  have hbody : (Packet.publish (.atMostOnce "live/etas" [7, 7])).body.length = 13 := by decide +kernel
  obtain ⟨frame, taken, refused, hfanned, hmem, -, -, hdecode⟩ :=
    publish_fans_out hall 3 hallCalls htopic (by rw [hbody]; decide)
  have hread := hdecode 13 [] (Nat.le_of_eq hbody)
  rw [List.append_nil] at hread
  exact ⟨htopic, hbody, by decide +kernel, frame, taken, refused, hfanned, hmem 2, hread⟩

end Broker

end Arrivals
