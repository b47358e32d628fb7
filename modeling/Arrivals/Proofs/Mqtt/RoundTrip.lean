import Arrivals.Proofs.Mqtt.Framing

/-! Packets that are written and read again. Main statement: a packet that fits the format comes back
from its bytes, whatever comes behind them, and nothing else is taken off the buffer. -/

namespace Arrivals.Mqtt

section Lengths

theorem spells_base128 (n : Nat) : Spells (Bytes.base128 n) n := by
  induction n using Nat.strongRecOn with
  | ind n ih =>
    rw [Bytes.base128]
    by_cases h : n < 128
    · have hn : (UInt8.ofNat n).toNat = n := by
        rw [UInt8.toNat_ofNat']
        omega
      have hs := Spells.last (b := .ofNat n) (by rw [UInt8.lt_iff_toNat_lt, hn]; exact h)
      rw [hn] at hs
      rwa [dif_pos h]
    · have hn : (UInt8.ofNat (128 + n % 128)).toNat = 128 + n % 128 := by
        rw [UInt8.toNat_ofNat']
        omega
      have hbig : ¬ UInt8.ofNat (128 + n % 128) < 128 := by
        rw [UInt8.lt_iff_toNat_lt, hn]
        exact Nat.not_lt_of_ge (Nat.le_add_right _ _)
      have hs := Spells.more hbig (ih (n / 128) (by omega))
      have he : 128 + n % 128 - 128 + 128 * (n / 128) = n := by omega
      rw [hn, he] at hs
      rwa [dif_neg h]

theorem length_base128_le {n k : Nat} (h : n < Nat.pow 128 (k + 1)) :
    (Bytes.base128 n).length ≤ k + 1 := by
  induction k generalizing n with
  | zero =>
    rw [Bytes.base128, dif_pos h]
    exact Nat.le_refl _
  | succ k ih =>
    rw [Bytes.base128]
    split
    · simp
    · have hk : n / 128 < Nat.pow 128 (k + 1) := by
        refine Nat.div_lt_of_lt_mul ?_
        rw [Nat.mul_comm]
        exact h
      rw [List.length_cons]
      exact Nat.succ_le_succ (ih hk)

end Lengths

theorem Connect.hasBit_flags (c : Connect) :
    hasBit c.flags 0x01 = false ∧ hasBit c.flags 0x02 = c.cleanSession ∧
      hasBit c.flags 0x04 = c.will.isSome ∧ hasBit c.flags 0x40 = c.password.isSome ∧
        hasBit c.flags 0x80 = c.username.isSome := by
  rw [flags]
  generalize c.cleanSession = clean, c.will.isSome = will, c.password.isSome = password,
    c.username.isSome = username
  revert clean will password username
  decide

/-- Bytes behind the last field are passed over. -/
theorem Connect.ofBody?_body {c : Connect} (h : c.Fits) (rest : Bytes) :
    Connect.ofBody? (c.body ++ rest) = .ok c := by
  obtain ⟨hreserved, hclean, hwill, hpassword, husername⟩ := c.hasBit_flags
  have rusername := Reads.orEmpty fun name hname => (h.username name hname).readsText
  have rpassword := Reads.orEmpty fun secret hsecret => (h.password secret hsecret).reads
  have hbytes : [c.protocolLevel, c.flags] = [c.protocolLevel] ++ [c.flags] := rfl
  rw [body, hbytes]
  simp only [List.append_assoc]
  rw [ofBody?, h.protocolName.readsText.then_eq]
  dsimp only
  rw [(Reads.byte _).then_eq]
  dsimp only
  rw [(Reads.byte _).then_eq, hreserved, hclean, hwill, hpassword, husername]
  dsimp only
  rw [if_neg Bool.false_ne_true, (Reads.word _).then_eq]
  dsimp only
  rw [h.clientId.readsText.then_eq]
  dsimp only
  rw [(Reads.orEmpty (w := fun will : Will => sizedText will.topic ++ sized will.message)
    (o := c.will) fun will hw rest => ?_).then_eq]
  · dsimp only
    rw [rusername.then_eq]
    dsimp only
    rw [rpassword.then_eq]
  · rw [List.append_assoc, (h.will will hw).topic.readsText.then_eq]
    exact (h.will will hw).message.reads.then_eq rest _

theorem Publish.eq_zero_or_one_or_two {q : UInt8} (h : q ≤ 2) : q = 0 ∨ q = 1 ∨ q = 2 := by
  rw [UInt8.le_iff_toNat_le] at h
  have hq : q.toNat = 0 ∨ q.toNat = 1 ∨ q.toNat = 2 := by
    change q.toNat ≤ 2 at h
    omega
  rcases hq with hq | hq | hq
  · exact .inl (UInt8.toNat_inj.mp hq)
  · exact .inr (.inl (UInt8.toNat_inj.mp hq))
  · exact .inr (.inr (UInt8.toNat_inj.mp hq))

def Publish.flags (p : Publish) : UInt8 := (Packet.publish p).header &&& 15

theorem Publish.hasBit_flags {p : Publish} (h : p.qos ≤ 2) :
    (Packet.publish p).header >>> 4 = 3 ∧ (p.flags >>> 1) &&& 3 = p.qos ∧
      hasBit p.flags 0x01 = p.retain ∧ hasBit p.flags 0x08 = p.dup := by
  rw [flags, Packet.header]
  generalize p.dup = dup, p.retain = retain
  rcases eq_zero_or_one_or_two h with hq | hq | hq
  all_goals
    rw [hq]
    revert dup retain
    decide

theorem Publish.ofBody?_body {p : Publish} (h : p.Fits) :
    Publish.ofBody? p.flags (Packet.publish p).body = .ok p := by
  obtain ⟨_, hqos, hretain, hdup⟩ := hasBit_flags h.qos_le
  have hne : ¬ p.qos = 3 := by
    rcases eq_zero_or_one_or_two h.qos_le with hq | hq | hq <;> rw [hq] <;> decide
  have hid : decide (0 < p.qos) = p.packetId.isSome := by
    rw [Bool.eq_iff_iff, decide_eq_true_iff, h.packetId]
  have rid := Reads.orEmpty (o := p.packetId) fun n _ => Reads.word n
  rw [ofBody?, hqos, hretain, hdup, if_neg hne, Packet.body, List.append_assoc,
    h.topic.readsText.then_eq]
  dsimp only
  rw [hid, rid.then_eq]

theorem FitsRequest.reads {f : String × UInt8} (h : FitsRequest f) :
    Reads readRequest (sizedText f.1 ++ [f.2]) f := by
  intro rest
  rw [readRequest, List.append_assoc, h.1.readsText.then_eq]
  dsimp only
  rw [(Reads.byte _).then_eq]
  dsimp only
  rw [if_neg (UInt8.not_lt.mpr h.2)]

theorem nonEmpty_of_ne_nil {α : Type} {as : List α} (h : as ≠ []) : nonEmpty as = .ok as := by
  rw [nonEmpty, if_neg (by simpa using h)]

theorem Packet.ofBody?_body {p : Packet} (h : p.Fits) :
    Packet.ofBody? (p.header >>> 4) (p.header &&& 15) p.body = .ok p := by
  cases p with
  | connect c =>
    have hc := Connect.ofBody?_body h []
    rw [List.append_nil] at hc
    rw [header]
    change (Connect.ofBody? c.body >>= fun c => .ok (Packet.connect c)) = _
    rw [hc]
    rfl
  | connAck present code => cases present <;> cases code <;> rfl
  | publish p =>
    obtain ⟨htype, _⟩ := Publish.hasBit_flags h.qos_le
    rw [htype]
    change (Publish.ofBody? p.flags (Packet.publish p).body >>= fun p => .ok (Packet.publish p)) = _
    rw [Publish.ofBody?_body h]
    rfl
  | subscribe id filters =>
    have hfilters := repeats_readRequests.flatMap fun f hf => (h.2 f hf).reads
    rw [header]
    change (readWord (word id ++ filters.flatMap fun f => sizedText f.1 ++ [f.2]) >>= fun r =>
      readRequests r.2 >>= fun fs => nonEmpty fs >>= fun fs => .ok (Packet.subscribe r.1 fs)) = _
    rw [(Reads.word id).then_eq, hfilters]
    change (nonEmpty filters >>= fun fs => .ok (Packet.subscribe id fs)) = _
    rw [nonEmpty_of_ne_nil h.1]
    rfl
  | subAck id codes =>
    rw [header]
    exact (Reads.word id).then_eq codes fun r => .ok (Packet.subAck r.1 r.2)
  | unsubscribe id filters =>
    have hfilters := repeats_readFilters.flatMap fun f hf => (h.2 f hf).readsText
    rw [header]
    change (readWord (word id ++ filters.flatMap sizedText) >>= fun r =>
      readFilters r.2 >>= fun fs => nonEmpty fs >>= fun fs => .ok (Packet.unsubscribe r.1 fs)) = _
    rw [(Reads.word id).then_eq, hfilters]
    change (nonEmpty filters >>= fun fs => .ok (Packet.unsubscribe id fs)) = _
    rw [nonEmpty_of_ne_nil h.1]
    rfl
  | unsubAck id =>
    have hid := (Reads.word id).then_eq [] fun r => .ok (Packet.unsubAck r.1)
    rw [List.append_nil] at hid
    rw [header]
    exact hid
  | pingReq => rfl
  | pingResp => rfl
  | disconnect => rfl

/-- The frame that a packet is written as. -/
def Packet.frame (p : Packet) (h : p.body.length ≤ greatestRemaining) : Frame where
  first := p.header
  header := Bytes.base128 p.body.length
  body := p.body
  spelled := spells_base128 _
  header_le := length_base128_le (Nat.lt_of_le_of_lt h (by decide))

theorem Packet.bytes_frame {p : Packet} (h : p.body.length ≤ greatestRemaining) :
    (p.frame h).bytes = p.encode := by
  rw [encode, Nat.min_eq_left h]
  rfl

/-- A packet that fits comes back, and what is behind it stays. -/
theorem decode_encode {p : Packet} {limit : Nat} (h : p.Fits)
    (hlength : p.body.length ≤ greatestRemaining) (hlimit : p.body.length ≤ limit) (rest : Bytes) :
    decode limit (p.encode ++ rest) = .packet p rest := by
  have hp : (p.frame hlength).packet? = .ok p := Packet.ofBody?_body h
  rw [← Packet.bytes_frame hlength, decode_frame hlimit, Frame.decoded, hp]

def farewell : Connect :=
  ⟨"MQTT", 4, "display", true, 60, some ⟨"gone", [1, 2]⟩, some "kiosk", some [115, 51]⟩

theorem decode_encode_farewell :
    let p := Packet.connect farewell
    p.Fits ∧ p.body.length = 40 ∧ decode 40 (p.encode ++ [0xc0, 0x00]) = .packet p [0xc0, 0x00] := by
  intro p
  have hfits : p.Fits := by
    refine ⟨by decide, by decide, ?_, ?_, ?_⟩
    · rintro w ⟨⟩
      exact ⟨by decide, by decide⟩
    · rintro name ⟨⟩
      decide
    · rintro secret ⟨⟩
      decide
  have hlength : p.body.length = 40 := by decide
  exact ⟨hfits, hlength, decode_encode hfits (by rw [hlength]; decide) (Nat.le_of_eq hlength) _⟩

end Arrivals.Mqtt
