import Arrivals.Proofs.Broker.Entries
import Arrivals.Session

/-! Subscribing to filters and leaving them. Main statement: a session is subscribed once a filter is
valid, and as long as filters are left; the broker is served for its client alone. -/

namespace Arrivals.Session

open Mqtt

variable (s : Session)

theorem codes_subscribeAll (b : Broker) (filters : List String) :
    (s.subscribeAll b filters).1 =
      filters.map fun f => if Topic.validFilter f then 0 else subscriptionFailure := by
  induction filters generalizing b with
  | nil => rfl
  | cons f rest ih =>
    rw [subscribeAll, List.map_cons]
    split
    next => exact congrArg (_ :: ·) (ih _)
    next => exact congrArg (_ :: ·) (ih _)

theorem any_codes_subscribeAll (b : Broker) (filters : List String) :
    ((s.subscribeAll b filters).1.any fun c => c != subscriptionFailure) =
      filters.any Topic.validFilter := by
  rw [codes_subscribeAll, List.any_map]
  congr 1
  funext f
  cases hf : Topic.validFilter f <;> simp [hf, subscriptionFailure]

theorem served_subscribeAll (b : Broker) (filters : List String) :
    b.Served s.client (s.subscribeAll b filters).2 := by
  induction filters generalizing b with
  | nil => exact .refl _ _
  | cons f rest ih =>
    rw [subscribeAll]
    split
    next hf => exact (Broker.Served.subscribe s.client b hf s.queue).trans (ih _)
    next => exact ih b

theorem isSome_subscribeAll (b : Broker) (filters : List String) :
    ((s.subscribeAll b filters).2.subscriber? s.client).isSome =
      ((b.subscriber? s.client).isSome || filters.any Topic.validFilter) := by
  induction filters generalizing b with
  | nil => simp [subscribeAll]
  | cons f rest ih =>
    rw [subscribeAll, List.any_cons]
    split
    next hf =>
      dsimp only
      rw [ih, Broker.subscriber?_subscribe, if_pos rfl, hf]
      simp
    next hf =>
      dsimp only
      rw [ih, Bool.not_eq_true _ |>.mp hf, Bool.false_or]

theorem served_unsubscribeAll (b : Broker) (filters : List String) :
    b.Served s.client (s.unsubscribeAll b filters) := by
  rw [unsubscribeAll]
  induction filters generalizing b with
  | nil => exact .refl _ _
  | cons f rest ih => exact (Broker.Served.unsubscribe s.client b f).trans (ih _)

theorem subscriber?_unsubscribeAll_of_none {b : Broker} (h : b.subscriber? s.client = none)
    (filters : List String) : (s.unsubscribeAll b filters).subscriber? s.client = none := by
  rw [unsubscribeAll]
  induction filters generalizing b with
  | nil => exact h
  | cons f rest ih =>
    refine ih ?_
    rw [Broker.subscriber?_unsubscribe, if_pos rfl, h]
    rfl

theorem client_subscribe (b : Broker) (id : UInt16) (filters : List String) :
    (s.subscribe b id filters).2.1.client = s.client := by
  rw [subscribe]
  dsimp only
  split <;> rfl

theorem state_subscribe (b : Broker) (id : UInt16) (filters : List String) :
    (s.subscribe b id filters).2.1.state =
      if filters.any Topic.validFilter then .subscribed else s.state := by
  rw [← s.any_codes_subscribeAll b, subscribe]
  dsimp only
  split <;> rfl

theorem client_unsubscribe (b : Broker) (id : UInt16) (filters : List String) :
    (s.unsubscribe b id filters).2.1.client = s.client := by
  rw [unsubscribe]
  dsimp only
  generalize (if filters.isEmpty then _ else _ : List String) = left
  cases left <;> rfl

/-- Without filters there is nothing that could be left. -/
theorem state_unsubscribe (b : Broker) (id : UInt16) (filters : List String) :
    (s.unsubscribe b id filters).2.1.state =
      if filters.isEmpty || ((s.unsubscribeAll b filters).filtersOf s.client).isEmpty then
        .authenticated
      else s.state := by
  rw [unsubscribe]
  dsimp only
  cases filters with
  | nil => rfl
  | cons f rest =>
    rw [List.isEmpty_cons, if_neg Bool.false_ne_true, Bool.false_or]
    split <;> rfl

end Arrivals.Session
