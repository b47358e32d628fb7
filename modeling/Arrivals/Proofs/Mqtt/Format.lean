import Arrivals.Proofs.Mqtt.Readers

/-! Packets that fit the format. Main statement: a body is read as a packet that fits, and if it cannot
be read, then not for its length. -/

namespace Arrivals.Mqtt

structure Will.Fits (w : Will) : Prop where
  topic : Sizable (.ofString w.topic)
  message : Sizable w.message

structure Connect.Fits (c : Connect) : Prop where
  protocolName : Sizable (.ofString c.protocolName)
  clientId : Sizable (.ofString c.clientId)
  will : ∀ w ∈ c.will, w.Fits
  username : ∀ name ∈ c.username, Sizable (.ofString name)
  password : ∀ secret ∈ c.password, Sizable secret

structure Publish.Fits (p : Publish) : Prop where
  topic : Sizable (.ofString p.topic)
  qos_le : p.qos ≤ 2
  packetId : p.packetId.isSome ↔ 0 < p.qos

/-- A filter and the service that is asked for with it. -/
def FitsRequest (f : String × UInt8) : Prop := Sizable (.ofString f.1) ∧ f.2 ≤ 2

/-- What a packet has to keep to for its bytes to say all of it. -/
def Packet.Fits : Packet → Prop
  | .connect c => c.Fits
  | .publish p => p.Fits
  | .subscribe _ filters => filters ≠ [] ∧ ∀ f ∈ filters, FitsRequest f
  | .unsubscribe _ filters => filters ≠ [] ∧ ∀ f ∈ filters, Sizable (.ofString f)
  | _ => True

theorem parses_connect (b : Bytes) : Parses Connect.Fits (Connect.ofBody? b) := by
  refine (Parses.text b).bind fun name hname => (Parses.byte name.2).bind fun level _ => ?_
  refine (Parses.byte level.2).bind fun flags _ => .ite (fun _ => rfl) fun _ => ?_
  refine (Parses.word flags.2).bind fun alive _ => (Parses.text alive.2).bind fun id hid => ?_
  refine (Parses.readIf Will.Fits (fun b => ?will) _ id.2).bind fun w hw => ?_
  case will =>
    refine (Parses.text b).bind fun topic htopic => ?_
    exact (Parses.sized topic.2).bind fun _ hmessage => ⟨htopic, hmessage⟩
  refine (Parses.readIf (fun s => Sizable (.ofString s)) Parses.text _ w.2).bind fun user huser => ?_
  exact (Parses.readIf Sizable Parses.sized _ user.2).bind fun _ hsecret =>
    ⟨hname, hid, hw.2, huser.2, hsecret.2⟩

theorem and_three_le {n : UInt8} (h : n &&& 3 ≠ 3) : n &&& 3 ≤ 2 := by
  rw [UInt8.le_iff_toNat_le]
  have hle : (n &&& 3).toNat ≤ 3 := by
    rw [UInt8.toNat_and]
    exact Nat.and_le_right
  have hne : (n &&& 3).toNat ≠ 3 := fun he => h (UInt8.toNat_inj.mp he)
  change (n &&& 3).toNat ≤ 2
  omega

theorem parses_publish (flags : UInt8) (b : Bytes) :
    Parses Publish.Fits (Publish.ofBody? flags b) := by
  refine .ite (fun _ => rfl) fun hqos => ?_
  refine (Parses.text b).bind fun topic htopic => ?_
  refine (Parses.readIf (fun _ => True) Parses.word _ topic.2).bind fun id hid => ?_
  refine ⟨htopic, and_three_le hqos, ?_⟩
  rw [hid.1]
  exact decide_eq_true_iff

theorem parses_request (b : Bytes) : Parses (fun r => FitsRequest r.1) (readRequest b) := by
  refine (Parses.text b).bind fun filter hfilter => (Parses.byte filter.2).bind fun qos _ => ?_
  exact .ite (fun _ => rfl) fun hqos => ⟨hfilter, UInt8.not_lt.mp hqos⟩

theorem parses_packet (type flags : UInt8) (b : Bytes) :
    Parses Packet.Fits (Packet.ofBody? type flags b) := by
  rw [Packet.ofBody?]
  dsimp only
  split
  · exact .ite (fun _ => (parses_connect b).bind fun _ hc => hc) fun _ => rfl
  · refine .ite (fun _ => (Parses.byte b).bind fun present _ => ?_) fun _ => rfl
    refine (Parses.byte present.2).bind fun code _ => ?_
    split
    · exact trivial
    · exact rfl
  · exact (parses_publish flags b).bind fun _ hp => hp
  · refine .ite (fun _ => (Parses.word b).bind fun id _ => ?_) fun _ => rfl
    refine (Parses.repeats FitsRequest repeats_readRequests parses_request id.2).bind fun filters h => ?_
    exact (Parses.nonEmpty filters).bind fun _ hne => ⟨hne.1, hne.2 ▸ h⟩
  · exact .ite (fun _ => (Parses.word b).bind fun _ _ => trivial) fun _ => rfl
  · refine .ite (fun _ => (Parses.word b).bind fun id _ => ?_) fun _ => rfl
    refine (Parses.repeats (fun f => Sizable (.ofString f)) repeats_readFilters Parses.text id.2).bind
      fun filters h => ?_
    exact (Parses.nonEmpty filters).bind fun _ hne => ⟨hne.1, hne.2 ▸ h⟩
  · exact .ite (fun _ => (Parses.word b).bind fun _ _ => trivial) fun _ => rfl
  · exact .ite (fun _ => trivial) fun _ => rfl
  · exact .ite (fun _ => trivial) fun _ => rfl
  · exact .ite (fun _ => trivial) fun _ => rfl
  · exact rfl

end Arrivals.Mqtt
