import Arrivals.Dissemination
import Arrivals.Proofs.Board.Positions
import Arrivals.Proofs.Broker.Fanout
import Arrivals.Proofs.Expiring
import Arrivals.Proofs.Prediction.Faithful
import Arrivals.Proofs.Prediction.Growth
import Arrivals.Proofs.Wire.Meaning
import Arrivals.Proofs.Wire.Positions
import Arrivals.Proofs.Wire.Texts

/-! One publication of the board. Main statement: it is six messages, each offered once to those who have
a filter for its topic; they tell of every live arrival and of every vehicle that can be placed, and the
report counts all of them. -/

namespace Arrivals

theorem ncard_of_mem_iff {α : Type} {s : Set α} {l : List α} (hl : l.Nodup)
    (h : ∀ a, a ∈ s ↔ a ∈ l) : s.ncard = l.length := by
  classical
  have hset : s = (l.toFinset : Set α) := by
    ext a
    simp [h]
  rw [hset, Set.ncard_coe_finset, List.toFinset_card_of_nodup hl]

theorem mergeSort_pair {α : Type} (le : α → α → Bool) (a b : α) :
    [a, b].mergeSort le = if le a b then [a, b] else [b, a] := by
  simp [List.mergeSort, List.merge, List.MergeSort.Internal.splitInTwo]

theorem Board.length_currentPositions (b : Board) (now : Instant) :
    (b.currentPositions now).length =
      {v | ∃ slot a, b.arrivals.visible? now slot = some a ∧ a.vehicle = v}.ncard := by
  have hnodup : ((b.currentPositions now).map Arrival.vehicle).Nodup := by
    have hpairwise := b.pairwise_currentPositions now
    rw [List.Nodup, List.pairwise_map]
    exact hpairwise.imp fun h => ne_of_lt h
  rw [ncard_of_mem_iff hnodup, List.length_map]
  intro v
  rw [List.mem_map]
  constructor
  · rintro ⟨slot, a, hlive, rfl⟩
    obtain ⟨best, hget⟩ := exists_soonest hlive
    obtain ⟨hv, slot', hbest⟩ := soonest_of_get? hget
    exact ⟨best, mem_currentPositions_iff.mpr ⟨slot', hbest⟩, hv⟩
  · rintro ⟨a, ha, rfl⟩
    obtain ⟨slot, hslot⟩ := mem_currentPositions_iff.mp ha
    exact ⟨slot, a, hslot.live, rfl⟩

namespace Dissemination

variable {now : Instant} {source : Source} {arrivals : List Arrival}

/-- What each arrival comes to when one after the other is placed. -/
def tries (now : Instant) (source : Source) :
    List Arrival → List (Arrival × Except PredictionError Position)
  | [] => []
  | a :: rest =>
    (a, (source.run (a.project now)).1) :: tries now (source.run (a.project now)).2 rest

/-- The position that goes out, if the arrival could be placed. -/
def shown? (now : Instant) (e : Arrival × Except PredictionError Position) :
    Option Wire.VehiclePosition :=
  e.2.toOption.map (Wire.positionPayload · now)

theorem placeAll_eq (now : Instant) (source : Source) (arrivals : List Arrival) :
    (placeAll now source arrivals).1 = (tries now source arrivals).filterMap (shown? now) ∧
      (placeAll now source arrivals).1.length + (placeAll now source arrivals).2.1 =
        arrivals.length := by
  induction arrivals generalizing source with
  | nil => exact ⟨rfl, rfl⟩
  | cons a rest ih =>
    rw [placeAll, tries]
    generalize source.run (a.project now) = r
    obtain ⟨outcome, source'⟩ := r
    obtain ⟨hplaced, hcount⟩ := ih source'
    cases outcome with
    | ok p =>
      simp only [List.filterMap_cons, shown?, Except.toOption, Option.map_some, List.length_cons]
      exact ⟨congrArg _ hplaced, (Nat.add_right_comm _ 1 _).trans (congrArg (· + 1) hcount)⟩
    | error e =>
      simp only [List.filterMap_cons, shown?, Except.toOption, Option.map_none, List.length_cons]
      exact ⟨hplaced, congrArg (· + 1) hcount⟩

section Messages

variable {b b' : Broker} {messages : List Message} {d : Delivery}

/-- Messages that go out one after the other, each as one frame that is offered to those who have a filter
for its topic. -/
inductive Broadcast : Broker → List Message → Delivery → Broker → Prop
  | done (b : Broker) : Broadcast b [] .none b
  | next {b b' b'' : Broker} {m : Message} {rest : List Message} {taken refused : List ClientId}
      {d : Delivery} :
      b.FannedOut b' (Mqtt.Packet.publish (.atMostOnce m.topic m.payload)).encode taken refused →
      (∀ c, c ∈ taken ++ refused ↔ ∃ f ∈ b.filtersOf c, Mqtt.Topic.covers f m.topic = true) →
      Broadcast b' rest d b'' →
      Broadcast b (m :: rest) (Delivery.add ⟨taken.length, refused.length⟩ d) b''

theorem broadcast_publishAll (b : Broker) (messages : List Message) :
    Broadcast b messages (publishAll b messages).1 (publishAll b messages).2 := by
  induction messages generalizing b with
  | nil => exact .done b
  | cons m rest ih =>
    obtain ⟨taken, refused, hperm, hfanned, hcounts⟩ := b.publish_fannedOut m.topic m.payload
    have hreached (c : ClientId) : c ∈ taken ++ refused ↔
        ∃ f ∈ b.filtersOf c, Mqtt.Topic.covers f m.topic = true := by
      rw [← hperm.mem_iff, Broker.mem_audience_iff]
    have hrest := ih (b.publish m.topic m.payload).2
    have hall := Broadcast.next hfanned hreached hrest
    rw [← hcounts] at hall
    exact hall

/-- Nobody's filters change by it, so each message is counted once for each client that has one for it. -/
theorem Broadcast.counted (h : Broadcast b messages d b') :
    d.delivered + d.dropped =
      (messages.map fun m =>
        {c | ∃ f ∈ b.filtersOf c, Mqtt.Topic.covers f m.topic = true}.ncard).sum := by
  induction h with
  | done => rfl
  | @next b b' b'' m rest taken refused d hfanned hreached _ ih =>
    have hsame (c : ClientId) : b'.filtersOf c = b.filtersOf c := by
      rw [Broker.filtersOf, hfanned.subscribers, Broker.filtersOf]
    have hcount : {c | ∃ f ∈ b.filtersOf c, Mqtt.Topic.covers f m.topic = true}.ncard =
        (taken ++ refused).length := ncard_of_mem_iff hfanned.once fun c => (hreached c).symm
    simp only [hsame] at ih
    rw [List.map_cons, List.sum_cons, hcount, ← ih, List.length_append]
    simp only [Delivery.add]
    omega

end Messages

theorem broadcast_run (t : Topics) (now : Instant) (board : Board) (source : Source) (broker : Broker) :
    Broadcast broker
      (messages t (etaBatch board now)
        ⟨(tries now source (board.currentPositions now)).filterMap (shown? now)⟩)
      (run t now board source broker).1.delivery (run t now board source broker).2.2 := by
  have hplaced := (placeAll_eq now source (board.currentPositions now)).1
  rw [← hplaced]
  exact broadcast_publishAll broker _

theorem named_of_mem_etaBatch {board : Board} {m : Wire.VehicleEta} (h : m ∈ (etaBatch board now).etas) :
    m.Named := by
  obtain ⟨e, -, rfl⟩ := List.mem_map.mp h
  exact ⟨⟨_, rfl⟩, ⟨_, rfl⟩⟩

end Dissemination

end Arrivals
