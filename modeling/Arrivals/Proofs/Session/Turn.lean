import Arrivals.Proofs.Session.Filters

/-! What handling one packet comes to. Main statement: a session that is closed answers nothing more;
one that is not is closed by a packet out of place, and else is let in, answers, or changes its
subscriptions. -/

namespace Arrivals

open Mqtt

/-- The packet asks for this protocol and shows a secret that is verified. -/
structure Mqtt.Connect.Admitted (key : Bytes) (source : Source) (c : Connect) : Prop where
  protocolName : c.protocolName = "MQTT"
  protocolLevel : c.protocolLevel = 4
  verified : ∃ username password, c.username = some username ∧ c.password = some password ∧
    (source.run (Secret.verify key username password)).1 = .ok true

theorem Mqtt.Connect.Admitted.verified_of {key : Bytes} {source : Source} {c : Connect}
    (h : c.Admitted key source) {username : String} {password : Bytes}
    (hu : c.username = some username) (hp : c.password = some password) :
    (source.run (Secret.verify key username password)).1 = .ok true := by
  obtain ⟨name, secret, hname, hsecret, hv⟩ := h.verified
  cases hu.symm.trans hname
  cases hp.symm.trans hsecret
  exact hv

def pepper : Bytes := [0x70, 0x65, 0x70, 0x70, 0x65, 0x72]

/-- A store that knows one secret. -/
def Source.kiosk : Source :=
  .ofStore { (default : Store) with
    credentials := Table.empty.insert "kiosk"
      ⟨"kiosk", "28943e18a099a83d0bd306429b276aae425e445534a70abdf9fd4aaff8089df6"⟩ }

def Mqtt.Connect.kiosk : Connect :=
  ⟨"MQTT", 4, "display", true, 30, none, some "kiosk", some [0x73, 0x33, 0x63, 0x72, 0x65, 0x74]⟩

namespace Session

def IsOpen (s : Session) : Prop := s.state = .authenticated ∨ s.state = .subscribed

/-- The packet is out of place where the session stands. -/
def Refuses (key : Bytes) (source : Source) (s : Session) : Packet → Prop
  | .connect c => s.state = .unauthenticated → ¬ c.Admitted key source
  | .pingReq => s.state = .unauthenticated
  | .subscribe _ _ => s.state = .unauthenticated
  | .unsubscribe _ _ => s.state = .unauthenticated
  | _ => True

def shut (s : Session) : Session := { s with state := .closed }

/-- What handling a packet comes to: nothing, if the session was closed before; its end; or, in an
open session or with a secret that is verified, what the packet asks for. -/
inductive Turn (key : Bytes) (s : Session) (b : Broker) (source : Source) : Packet → Step → Prop
  | spent {p} : s.state = .closed → Turn key s b source p ⟨.close none .protocolViolation, s, b, source⟩
  | ended {p} (reply reason source') : s.state ≠ .closed → s.Refuses key source p →
      Turn key s b source p ⟨.close reply reason, s.shut, b.remove s.client, source'⟩
  | admitted {c} (source') : s.state = .unauthenticated → c.Admitted key source →
      Turn key s b source (.connect c) ⟨.goOn [.connAck false .accepted], s.accept c, b, source'⟩
  | pinged : s.IsOpen → Turn key s b source .pingReq ⟨.goOn [.pingResp], s, b, source⟩
  | subscribed {id filters} : s.IsOpen →
      Turn key s b source (.subscribe id filters)
        ⟨(s.subscribe b id (filters.map Prod.fst)).1, (s.subscribe b id (filters.map Prod.fst)).2.1,
          (s.subscribe b id (filters.map Prod.fst)).2.2, source⟩
  | unsubscribed {id filters} : s.IsOpen →
      Turn key s b source (.unsubscribe id filters)
        ⟨(s.unsubscribe b id filters).1, (s.unsubscribe b id filters).2.1,
          (s.unsubscribe b id filters).2.2, source⟩

section Handle

variable {key : Bytes} {s : Session} {b : Broker} {source : Source} {p : Packet}

theorem handle_of_goOn {t : Step} (h : s.transition key p b source = t)
    (ht : t.outcome.closes = false) : s.handle key p b source = t := by
  rw [handle, h]
  exact if_neg (by simp [ht])

theorem handle_of_close {reply : Option Packet} {reason : CloseReason} {source' : Source}
    (h : s.transition key p b source = ⟨.close reply reason, s, b, source'⟩) :
    s.handle key p b source =
      ⟨.close reply reason, (s.close b).1, (s.close b).2, source'⟩ := by
  rw [handle, h]
  rfl

theorem close_of_closed (h : s.state = .closed) (b : Broker) : s.close b = (s, b) := if_pos h

theorem close_of_ne (h : s.state ≠ .closed) (b : Broker) :
    s.close b = (s.shut, b.remove s.client) := if_neg h

theorem handle_of_closed (h : s.state = .closed) :
    s.handle key p b source = ⟨.close none .protocolViolation, s, b, source⟩ := by
  have ht : s.transition key p b source = ⟨.close none .protocolViolation, s, b, source⟩ := by
    simp only [transition, h]
  rw [handle_of_close ht, close_of_closed h]

/-- A connect packet opens the session, or ends it without having been admitted. -/
theorem connect_cases (key : Bytes) (s : Session) (c : Connect) (source : Source) :
    (c.Admitted key source ∧
        ∃ source', s.connect key c source = (.goOn [.connAck false .accepted], s.accept c, source')) ∨
      ¬ c.Admitted key source ∧
        ∃ reply reason source', s.connect key c source = (.close reply reason, s, source') := by
  rw [connect]
  by_cases hname : c.protocolName = protocolName
  · by_cases hlevel : c.protocolLevel = protocolLevel
    · rw [if_neg (by simp [hname]), if_neg (by simp [hlevel])]
      split
      next username password hu hp =>
        split
        next source' hv =>
          exact .inl ⟨⟨hname, hlevel, username, password, hu, hp, by rw [hv]⟩, source', rfl⟩
        next hv =>
          exact .inr ⟨fun h => absurd (h.verified_of hu hp) (by rw [hv]; nofun), _, _, _, rfl⟩
        next hv =>
          exact .inr ⟨fun h => absurd (h.verified_of hu hp) (by rw [hv]; nofun), _, _, _, rfl⟩
      next hnone =>
        refine .inr ⟨fun h => ?_, _, _, _, rfl⟩
        obtain ⟨username, password, hu, hp, _⟩ := h.verified
        exact hnone username password hu hp
    · rw [if_neg (by simp [hname]), if_pos (by simpa using hlevel)]
      exact .inr ⟨fun h => hlevel h.protocolLevel, _, _, _, rfl⟩
  · rw [if_pos (by simpa using hname)]
    exact .inr ⟨fun h => hname h.protocolName, _, _, _, rfl⟩

theorem isOpen_of_ne (hclosed : s.state ≠ .closed) (hnew : s.state ≠ .unauthenticated) :
    s.IsOpen := by
  cases hs : s.state with
  | unauthenticated => exact absurd hs hnew
  | closed => exact absurd hs hclosed
  | authenticated => exact .inl hs
  | subscribed => exact .inr hs

theorem transition_of_refuses (hclosed : s.state ≠ .closed) (h : s.Refuses key source p) :
    ∃ reply reason source', s.transition key p b source = ⟨.close reply reason, s, b, source'⟩ := by
  cases hs : s.state with
  | closed => exact absurd hs hclosed
  | unauthenticated =>
    cases p with
    | connect c =>
      obtain ⟨hc, _⟩ | ⟨_, reply, reason, source', hc⟩ := connect_cases key s c source
      · exact absurd hc (h hs)
      · exact ⟨reply, reason, source', by simp only [transition, hs, hc]⟩
    | _ =>
      simp only [transition, hs]
      exact ⟨_, _, _, rfl⟩
  | _ =>
    cases p with
    | pingReq => cases hs.symm.trans h
    | subscribe => cases hs.symm.trans h
    | unsubscribe => cases hs.symm.trans h
    | _ =>
      simp only [transition, hs]
      exact ⟨_, _, _, rfl⟩

theorem turn_handle (key : Bytes) (s : Session) (b : Broker) (source : Source) (p : Packet) :
    Turn key s b source p (s.handle key p b source) := by
  by_cases hclosed : s.state = .closed
  · rw [handle_of_closed hclosed]
    exact .spent hclosed
  by_cases hrefuses : s.Refuses key source p
  · obtain ⟨reply, reason, source', ht⟩ := transition_of_refuses (b := b) hclosed hrefuses
    rw [handle_of_close ht, close_of_ne hclosed]
    exact .ended reply reason source' hclosed hrefuses
  cases p with
  | connect c =>
    obtain ⟨hs, hc⟩ : s.state = .unauthenticated ∧ c.Admitted key source := by
      simpa [Refuses] using hrefuses
    obtain ⟨_, source', ht⟩ | ⟨hnot, _⟩ := connect_cases key s c source
    · have hgo : s.transition key (.connect c) b source =
          ⟨.goOn [.connAck false .accepted], s.accept c, b, source'⟩ := by
        simp only [transition, hs, ht]
      rw [handle_of_goOn hgo rfl]
      exact .admitted source' hs hc
    · exact absurd hc hnot
  | pingReq =>
    have hopen := isOpen_of_ne hclosed hrefuses
    have hgo : s.transition key .pingReq b source = ⟨.goOn [.pingResp], s, b, source⟩ := by
      rcases hopen with hs | hs <;> simp only [transition, hs]
    rw [handle_of_goOn hgo rfl]
    exact .pinged hopen
  | subscribe id filters =>
    have hopen := isOpen_of_ne hclosed hrefuses
    have hgo : s.transition key (.subscribe id filters) b source =
        ⟨(s.subscribe b id (filters.map Prod.fst)).1, (s.subscribe b id (filters.map Prod.fst)).2.1,
          (s.subscribe b id (filters.map Prod.fst)).2.2, source⟩ := by
      rcases hopen with hs | hs <;> simp only [transition, hs]
    rw [handle_of_goOn hgo rfl]
    exact .subscribed hopen
  | unsubscribe id filters =>
    have hopen := isOpen_of_ne hclosed hrefuses
    have hgo : s.transition key (.unsubscribe id filters) b source =
        ⟨(s.unsubscribe b id filters).1, (s.unsubscribe b id filters).2.1,
          (s.unsubscribe b id filters).2.2, source⟩ := by
      rcases hopen with hs | hs <;> simp only [transition, hs]
    rw [handle_of_goOn hgo rfl]
    exact .unsubscribed hopen
  | _ => exact absurd trivial hrefuses

end Handle

section Turns

variable {key : Bytes} {s : Session} {b : Broker} {source : Source} {p : Packet} {t : Step}

theorem Turn.client_eq (h : Turn key s b source p t) : t.session.client = s.client := by
  cases h with
  | @subscribed id filters => exact client_subscribe s b id _
  | @unsubscribed id filters => exact client_unsubscribe s b id _
  | _ => rfl

theorem Turn.served (h : Turn key s b source p t) : b.Served s.client t.broker := by
  cases h with
  | ended => exact .remove _ _
  | subscribed => exact served_subscribeAll s b _
  | unsubscribed => exact served_unsubscribeAll s b _
  | _ => exact .refl _ _

theorem IsOpen.ne_closed (h : s.IsOpen) : s.state ≠ .closed := by
  rcases h with h | h <;> simp [h]

theorem IsOpen.ne_unauthenticated (h : s.IsOpen) : s.state ≠ .unauthenticated := by
  rcases h with h | h <;> simp [h]

theorem IsOpen.subscribe (h : s.IsOpen) (b : Broker) (id : UInt16) (filters : List String) :
    (s.subscribe b id filters).2.1.IsOpen := by
  rw [IsOpen, state_subscribe]
  split
  · exact .inr rfl
  · exact h

theorem IsOpen.unsubscribe (h : s.IsOpen) (b : Broker) (id : UInt16) (filters : List String) :
    (s.unsubscribe b id filters).2.1.IsOpen := by
  rw [IsOpen, state_unsubscribe]
  split
  · exact .inl rfl
  · exact h

end Turns

end Session

end Arrivals
