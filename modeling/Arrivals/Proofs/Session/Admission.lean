import Mathlib.Data.List.Induction
import Arrivals.Proofs.Session.Turn

/-! Who is let in. Main statement: a fresh session opens only for a first packet that asks for the
protocol and shows a secret that is verified; the first packet out of place closes it, and then nothing
is held for it and nothing but the close is answered. -/

namespace Arrivals

open Mqtt

/-- The packet is out of place behind the packets `before`. -/
def Mqtt.Packet.Offends (key : Bytes) (source : Source) (before : List Packet) : Packet → Prop
  | .connect c => (∃ d, .connect d ∈ before) ∨ ¬ c.Admitted key source
  | .pingReq => ∀ d, .connect d ∉ before
  | .subscribe _ _ => ∀ d, .connect d ∉ before
  | .unsubscribe _ _ => ∀ d, .connect d ∉ before
  | _ => True

namespace Session

def Offence (key : Bytes) (source : Source) (packets : List Packet) : Prop :=
  ∃ before p after, packets = before ++ p :: after ∧ p.Offends key source before

theorem not_offence_nil (key : Bytes) (source : Source) : ¬ Offence key source [] := by
  rintro ⟨before, p, after, h, _⟩
  simp at h

theorem offence_snoc {key : Bytes} {source : Source} {packets : List Packet} {p : Packet} :
    Offence key source (packets ++ [p]) ↔
      Offence key source packets ∨ p.Offends key source packets := by
  constructor
  · rintro ⟨before, q, after, h, hq⟩
    rcases List.eq_nil_or_concat after with rfl | ⟨after, r, rfl⟩
    · obtain ⟨rfl, rfl⟩ := List.append_singleton_inj.mp h
      exact .inr hq
    · rw [List.concat_eq_append, ← List.cons_append, ← List.append_assoc] at h
      obtain ⟨rfl, rfl⟩ := List.append_singleton_inj.mp h
      exact .inl ⟨before, q, after, rfl, hq⟩
  · rintro (⟨before, q, after, rfl, hq⟩ | hp)
    · exact ⟨before, q, after ++ [p], by simp, hq⟩
    · exact ⟨packets, p, [], rfl, hp⟩

theorem not_offence_of_admitted {key : Bytes} {source : Source} {c : Connect}
    (h : c.Admitted key source) : ¬ Offence key source [.connect c] := by
  intro hoff
  change Offence key source ([] ++ [.connect c]) at hoff
  rcases offence_snoc.mp hoff with hnil | ⟨_, hd⟩ | hnot
  · exact not_offence_nil _ _ hnil
  · cases hd
  · exact hnot h

/-- What packets come to: the answers, and where they leave the session, the broker and the store. -/
structure Course where
  outcomes : List Outcome
  session : Session
  broker : Broker
  source : Source

def course (key : Bytes) (s : Session) (b : Broker) (source : Source) (packets : List Packet) :
    Course :=
  let (outcomes, session, broker, source) := s.handleAll key b source packets
  ⟨outcomes, session, broker, source⟩

theorem course_cons (key : Bytes) (s : Session) (b : Broker) (source : Source) (p : Packet)
    (rest : List Packet) :
    s.course key b source (p :: rest) =
      let t := s.handle key p b source
      let c := t.session.course key t.broker t.source rest
      { c with outcomes := t.outcome :: c.outcomes } := rfl

def Course.next (key : Bytes) (c : Course) (p : Packet) : Course :=
  let t := c.session.handle key p c.broker c.source
  ⟨c.outcomes ++ [t.outcome], t.session, t.broker, t.source⟩

theorem course_snoc (key : Bytes) (s : Session) (b : Broker) (source : Source)
    (packets : List Packet) (p : Packet) :
    s.course key b source (packets ++ [p]) = (s.course key b source packets).next key p := by
  induction packets generalizing s b source with
  | nil => rfl
  | cons q packets ih =>
    rw [List.cons_append, course_cons, course_cons]
    dsimp only
    rw [ih]
    rfl

theorem course_of_closed {key : Bytes} {s : Session} {b : Broker} {source : Source}
    (h : s.state = .closed) (packets : List Packet) :
    s.course key b source packets =
      ⟨packets.map fun _ => .close none .protocolViolation, s, b, source⟩ := by
  induction packets with
  | nil => rfl
  | cons p packets ih =>
    rw [course_cons, handle_of_closed h]
    dsimp only
    rw [ih]
    rfl

/-- Where a session stands that was fresh when the packets began. -/
inductive Standing (key : Bytes) (source : Source) : List Packet → Session → Broker → Source → Prop
  | fresh {s b} : s.state = .unauthenticated → b.subscriber? s.client = none →
      Standing key source [] s b source
  | opened {c rest s b source'} : s.IsOpen → c.Admitted key source →
      ¬ Offence key source (.connect c :: rest) → Standing key source (.connect c :: rest) s b source'
  | closed {packets s b source'} : s.state = .closed → b.subscriber? s.client = none →
      Offence key source packets → Standing key source packets s b source'

section Standings

variable {key : Bytes} {source source' : Source} {packets : List Packet} {p : Packet} {s : Session}
  {b : Broker} {t : Step}

theorem Refuses.offends_nil (h : s.Refuses key source p) (hs : s.state = .unauthenticated) :
    p.Offends key source [] := by
  cases p with
  | connect c => exact .inr (h hs)
  | pingReq => exact fun _ => List.not_mem_nil
  | subscribe => exact fun _ => List.not_mem_nil
  | unsubscribe => exact fun _ => List.not_mem_nil
  | _ => trivial

theorem Refuses.offends_of_mem (h : s.Refuses key source' p) (hs : s.IsOpen) {c : Connect}
    (hc : .connect c ∈ packets) : p.Offends key source packets := by
  cases p with
  | connect => exact .inl ⟨c, hc⟩
  | pingReq => exact absurd h hs.ne_unauthenticated
  | subscribe => exact absurd h hs.ne_unauthenticated
  | unsubscribe => exact absurd h hs.ne_unauthenticated
  | _ => trivial

theorem Standing.turn (h : Standing key source packets s b source') (ht : Turn key s b source' p t) :
    Standing key source (packets ++ [p]) t.session t.broker t.source := by
  cases h with
  | fresh hs hb =>
    cases ht with
    | spent hclosed => cases hs.symm.trans hclosed
    | ended _ _ _ _ hrefuses =>
      have hoff : Offence key source ([] ++ [p]) := offence_snoc.mpr (.inr (hrefuses.offends_nil hs))
      exact .closed rfl (b.subscriber?_remove_self s.client) hoff
    | admitted source' _ hc =>
      exact .opened (.inl rfl) hc (not_offence_of_admitted hc)
    | pinged hopen => exact absurd hs hopen.ne_unauthenticated
    | subscribed hopen => exact absurd hs hopen.ne_unauthenticated
    | unsubscribed hopen => exact absurd hs hopen.ne_unauthenticated
  | @opened c rest _ _ _ hopen hc hno =>
    have hmem : .connect c ∈ Packet.connect c :: rest := List.mem_cons_self
    -- what an open session answers is no offence, for it was let in
    have hgo {q : Packet} (hq : q.Offends key source (.connect c :: rest) → False) :
        ¬ Offence key source (.connect c :: (rest ++ [q])) := fun h =>
      (offence_snoc.mp h).elim hno hq
    cases ht with
    | spent hclosed => exact absurd hclosed hopen.ne_closed
    | ended _ _ _ _ hrefuses =>
      have hoff : Offence key source (.connect c :: rest ++ [p]) :=
        offence_snoc.mpr (.inr (hrefuses.offends_of_mem hopen hmem))
      exact .closed rfl (b.subscriber?_remove_self s.client) hoff
    | admitted _ hs => exact absurd hs hopen.ne_unauthenticated
    | pinged => exact .opened hopen hc (hgo fun h => h c hmem)
    | @subscribed id => exact .opened (hopen.subscribe b id _) hc (hgo fun h => h c hmem)
    | @unsubscribed id => exact .opened (hopen.unsubscribe b id _) hc (hgo fun h => h c hmem)
  | closed hs hb hoff =>
    cases ht with
    | spent => exact .closed hs hb (offence_snoc.mpr (.inl hoff))
    | ended _ _ _ hne => exact absurd hs hne
    | admitted _ hnew => cases hs.symm.trans hnew
    | pinged hopen => exact absurd hs hopen.ne_closed
    | subscribed hopen => exact absurd hs hopen.ne_closed
    | unsubscribed hopen => exact absurd hs hopen.ne_closed

theorem standing_course (hs : s.state = .unauthenticated) (hb : b.subscriber? s.client = none)
    (packets : List Packet) :
    let c := s.course key b source packets
    Standing key source packets c.session c.broker c.source := by
  induction packets using List.reverseRecOn with
  | nil => exact .fresh hs hb
  | append_singleton packets p ih =>
    rw [course_snoc]
    exact ih.turn (turn_handle ..)

theorem client_course (key : Bytes) (s : Session) (b : Broker) (source : Source)
    (packets : List Packet) : (s.course key b source packets).session.client = s.client := by
  induction packets using List.reverseRecOn with
  | nil => rfl
  | append_singleton packets p ih =>
    rw [course_snoc]
    exact (turn_handle ..).client_eq.trans ih

end Standings

/-- A fresh session is open, or holds filters, only if its first packet was admitted. A packet out of
place, and nothing else, closes it for good: nothing is held for its client any more, and nothing but
the close is answered, by which nothing changes. -/
theorem course_admits (key : Bytes) (client : ClientId) (queue : QueueId) {b : Broker}
    (hb : b.subscriber? client = none) (source : Source) (packets : List Packet) :
    let c := (start client queue).course key b source packets
    ((c.session.state = .authenticated ∨ c.session.state = .subscribed ∨
        (c.broker.subscriber? client).isSome = true) →
      ∃ connect rest, packets = .connect connect :: rest ∧ connect.Admitted key source) ∧
    (c.session.state = .closed ↔
      ∃ before p after, packets = before ++ p :: after ∧ p.Offends key source before) ∧
    (c.session.state = .closed → c.broker.subscriber? client = none ∧
      ∀ more, c.session.course key c.broker c.source more =
        ⟨more.map fun _ => .close none .protocolViolation, c.session, c.broker, c.source⟩) := by
  intro c
  have hclient : c.session.client = client := client_course key _ b source packets
  have hc : Standing key source packets c.session c.broker c.source := standing_course rfl hb packets
  rw [← hclient]
  cases hc with
  | fresh hs hnone =>
    refine ⟨?_, ?_, fun h => absurd (hs.symm.trans h) (by decide)⟩
    · simp [hs, hnone]
    · exact ⟨fun h => absurd (hs.symm.trans h) (by decide), fun h => absurd h (not_offence_nil _ _)⟩
  | opened hopen hconnect hno =>
    refine ⟨fun _ => ⟨_, _, rfl, hconnect⟩, ?_, fun h => absurd h hopen.ne_closed⟩
    exact ⟨fun h => absurd h hopen.ne_closed, fun h => absurd h hno⟩
  | closed hs hnone hoff =>
    refine ⟨?_, ⟨fun _ => hoff, fun _ => hs⟩, fun _ => ⟨hnone, course_of_closed hs⟩⟩
    simp [hs, hnone]

/-- A kiosk subscribes and then takes its leave. -/
theorem course_admits_kiosk :
    let fresh := start 1 "queue"
    let packets : List Packet := [.connect .kiosk, .subscribe 10 [("a", 0)]]
    let c := fresh.course pepper .empty .kiosk packets
    let d := fresh.course pepper .empty .kiosk (packets ++ [.disconnect])
    Broker.empty.subscriber? 1 = none ∧ c.session.state = .subscribed ∧
      Mqtt.Connect.kiosk.Admitted pepper .kiosk ∧ d.session.state = .closed ∧
      d.broker.subscriber? 1 = none := by
  intro fresh packets c d
  have hempty : Broker.empty.subscriber? 1 = none := rfl
  have hstate : c.session.state = .subscribed := by decide +kernel
  have hopened := (course_admits pepper 1 "queue" hempty .kiosk packets).1 (.inr (.inl hstate))
  obtain ⟨_, hclosed, hgone⟩ :=
    course_admits pepper 1 "queue" hempty .kiosk (packets ++ [.disconnect])
  have hend : d.session.state = .closed := hclosed.mpr ⟨packets, .disconnect, [], rfl, trivial⟩
  refine ⟨hempty, hstate, ?_, hend, (hgone hend).1⟩
  obtain ⟨connect, rest, heq, hconnect⟩ := hopened
  obtain rfl : .kiosk = connect := Packet.connect.inj (List.cons.inj heq).1
  exact hconnect

end Session

end Arrivals
