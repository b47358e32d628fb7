import Arrivals.Broker

/-! What a broker holds for a client, and what each call makes of it. Main statement: a call for one
client leaves the entries of all others alone, and entries stay sound: some filters, all valid, none
twice. -/

namespace Arrivals

open Mqtt

namespace Subscriber

def add (s : Subscriber) (filter : String) : Subscriber :=
  { s with filters := if s.filters.contains filter then s.filters else s.filters ++ [filter] }

/-- Nothing is left of a subscriber without filters. -/
def drop? (s : Subscriber) (filter : String) : Option Subscriber :=
  let filters := s.filters.filter fun f => f != filter
  if filters.isEmpty then none else some { s with filters }

structure Sound (s : Subscriber) : Prop where
  nonempty : s.filters ≠ []
  nodup : s.filters.Nodup
  valid : ∀ f ∈ s.filters, Topic.validFilter f = true

theorem mem_filters_add {s : Subscriber} {filter f : String} :
    f ∈ (s.add filter).filters ↔ f ∈ s.filters ∨ f = filter := by
  rw [add]
  by_cases h : s.filters.contains filter = true
  · have hmem : filter ∈ s.filters := by simpa using h
    rw [if_pos h]
    exact ⟨.inl, fun hf => hf.elim id fun hf => hf ▸ hmem⟩
  · rw [if_neg h]
    simp

theorem nodup_filters_add {s : Subscriber} (h : s.filters.Nodup) (filter : String) :
    (s.add filter).filters.Nodup := by
  rw [add]
  by_cases hc : s.filters.contains filter = true
  · rw [if_pos hc]
    exact h
  · have hnot : filter ∉ s.filters := by simpa using hc
    rw [if_neg hc]
    refine List.nodup_append.mpr ⟨h, by simp, fun f hf g hg hfg => hnot ?_⟩
    rwa [← List.mem_singleton.mp hg, ← hfg]

theorem sound_add {s : Subscriber} (hnodup : s.filters.Nodup)
    (hvalid : ∀ f ∈ s.filters, Topic.validFilter f = true) {filter : String}
    (hfilter : Topic.validFilter filter = true) : (s.add filter).Sound where
  nonempty h := by
    have hmem : filter ∈ (s.add filter).filters := mem_filters_add.mpr (.inr rfl)
    rw [h] at hmem
    cases hmem
  nodup := nodup_filters_add hnodup filter
  valid f hf := (mem_filters_add.mp hf).elim (hvalid f) fun h => h ▸ hfilter

theorem Sound.drop {s t : Subscriber} (h : s.Sound) {filter : String}
    (ht : s.drop? filter = some t) : t.Sound := by
  rw [drop?] at ht
  split at ht
  next => cases ht
  next hne =>
    cases ht
    exact ⟨fun he => hne (List.isEmpty_iff.mpr he), h.nodup.filter _,
      fun f hf => h.valid f ((List.mem_filter.mp hf).1)⟩

end Subscriber

namespace Broker

def subscriber? (b : Broker) (client : ClientId) : Option Subscriber := b.subscribers.get? client

theorem subscriber?_remove (b : Broker) (client j : ClientId) :
    (b.remove client).subscriber? j = if j = client then none else b.subscriber? j :=
  Table.get?_erase _ _ _

theorem subscriber?_remove_self (b : Broker) (client : ClientId) :
    (b.remove client).subscriber? client = none := by
  rw [subscriber?_remove, if_pos rfl]

theorem subscriber?_subscribe (b : Broker) (client : ClientId) (filter : String) (q : QueueId)
    (j : ClientId) :
    (b.subscribe client filter q).subscriber? j =
      if client = j then some (((b.subscriber? client).getD ⟨[], q⟩).add filter) else b.subscriber? j :=
  Table.get?_insert _ _ _ _

theorem subscriber?_unsubscribe (b : Broker) (client : ClientId) (filter : String) (j : ClientId) :
    (b.unsubscribe client filter).subscriber? j =
      if client = j then (b.subscriber? client).bind fun s => s.drop? filter else b.subscriber? j := by
  rw [unsubscribe, subscriber?]
  cases hs : b.subscribers.get? client with
  | none =>
    by_cases hj : client = j
    · rw [if_pos hj, subscriber?, hs, Option.bind_none, ← hj, hs]
    · rw [if_neg hj, subscriber?]
  | some s =>
    rw [subscriber?, hs, Option.bind_some, Subscriber.drop?]
    dsimp only
    split
    next =>
      rw [remove, Table.get?_erase]
      by_cases hj : client = j
      · rw [if_pos hj.symm, if_pos hj]
      · rw [if_neg (Ne.symm hj), if_neg hj, subscriber?]
    next =>
      rw [Table.get?_insert]
      rfl

/-- Whatever the broker holds for the client is sound. -/
def SoundFor (b : Broker) (client : ClientId) : Prop := ∀ s ∈ b.subscriber? client, s.Sound

/-- What calls for one client make of a broker: nothing that concerns the others. -/
structure Served (client : ClientId) (b b' : Broker) : Prop where
  others : ∀ j, j ≠ client → b'.subscriber? j = b.subscriber? j
  sound : b.SoundFor client → b'.SoundFor client

namespace Served

variable {client : ClientId} {b b' b'' : Broker}

theorem refl (client : ClientId) (b : Broker) : Served client b b := ⟨fun _ _ => rfl, id⟩

theorem trans (h : Served client b b') (h' : Served client b' b'') : Served client b b'' :=
  ⟨fun j hj => (h'.others j hj).trans (h.others j hj), fun hb => h'.sound (h.sound hb)⟩

theorem subscribe (client : ClientId) (b : Broker) {filter : String}
    (hfilter : Topic.validFilter filter = true) (q : QueueId) :
    Served client b (b.subscribe client filter q) where
  others j hj := by rw [subscriber?_subscribe, if_neg (Ne.symm hj)]
  sound h s hs := by
    rw [subscriber?_subscribe, if_pos rfl, Option.mem_some_iff] at hs
    subst hs
    cases hold : b.subscriber? client with
    | none => exact Subscriber.sound_add List.nodup_nil (fun _ hf => by cases hf) hfilter
    | some old =>
      have hsound := h old hold
      exact Subscriber.sound_add hsound.nodup hsound.valid hfilter

theorem unsubscribe (client : ClientId) (b : Broker) (filter : String) :
    Served client b (b.unsubscribe client filter) where
  others j hj := by rw [subscriber?_unsubscribe, if_neg (Ne.symm hj)]
  sound h s hs := by
    rw [subscriber?_unsubscribe, if_pos rfl] at hs
    obtain ⟨old, hold, hdrop⟩ := Option.bind_eq_some_iff.mp hs
    exact (h old hold).drop hdrop

theorem remove (client : ClientId) (b : Broker) : Served client b (b.remove client) where
  others j hj := by rw [subscriber?_remove, if_neg hj]
  sound _ s hs := by
    rw [subscriber?_remove_self] at hs
    cases hs

end Served

end Broker

end Arrivals
