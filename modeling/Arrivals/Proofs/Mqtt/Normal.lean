import Arrivals.Proofs.Mqtt.RoundTrip

/-! Packets that were read, written again. A reader passes over much that a writer never sends: bytes
behind the last field, lengths with needless digits, reserved bits. Main statement: what was read is
written in no more bytes than it took, and it is read back the same under the same limit. -/

namespace Arrivals.Mqtt

variable {α : Type}

section Fields

/-- What `r` takes off the front of a body is written by `w` in no more bytes than were taken. -/
def Shrinks (w : α → Bytes) (r : Reader α) : Prop :=
  ∀ b, Parses (fun x => (w x.1).length + x.2.length ≤ b.length) (r b)

theorem length_word (n : UInt16) : (word n).length = 2 := Bytes.bigEndian_length 2 n.toNat

theorem length_sized_le (b : Bytes) : (sized b).length ≤ 2 + b.length := by
  have hle : (b.take 65535).length ≤ b.length := List.length_take_le' _ _
  rw [sized, List.length_append, Bytes.bigEndian_length]
  omega

namespace Shrinks

theorem byte : Shrinks (fun n => [n]) readByte := by
  intro b
  cases b with
  | nil => exact rfl
  | cons n rest =>
    change 1 + rest.length ≤ (n :: rest).length
    simp [Nat.add_comm]

theorem word : Shrinks word readWord := by
  intro b
  rw [readWord.eq_def]
  split
  next m n rest =>
    change (Mqtt.word _).length + rest.length ≤ _
    have hlength := length_word (UInt16.ofNat (m.toNat * 256 + n.toNat))
    simp only [List.length_cons]
    omega
  next => exact rfl

theorem sized : Shrinks sized readSized := by
  intro b
  refine (word b).bind fun r hr => .ite (fun _ => rfl) fun hn => ?_
  change (Mqtt.sized (r.2.take r.1.toNat)).length + (r.2.drop r.1.toNat).length ≤ b.length
  have hword := length_word r.1
  have hfield := length_sized_le (r.2.take r.1.toNat)
  have htake : (r.2.take r.1.toNat).length ≤ r.1.toNat := List.length_take_le _ _
  have hwhole := congrArg List.length (List.take_append_drop r.1.toNat r.2)
  rw [List.length_append] at hwhole
  omega

theorem text : Shrinks sizedText readText := by
  intro b
  refine (sized b).bind fun r hr => ?_
  dsimp only
  split
  next s hs =>
    change (Mqtt.sized (.ofString s)).length + r.2.length ≤ b.length
    rwa [Bytes.ofString_of_toString? hs]
  next => exact rfl

theorem readIf {w : α → Bytes} {r : Reader α} (h : Shrinks w r) (present : Bool) :
    Shrinks (orEmpty w) (readIf present r) := by
  intro b
  refine .ite (fun _ => (h b).bind fun x hx => hx) fun _ => ?_
  change 0 + b.length ≤ b.length
  omega

theorem repeats {w : α → Bytes} {r : Reader α} {f : Bytes → Except ProtocolError (List α)}
    (hf : Repeats r f) (h : Shrinks w r) (b : Bytes) :
    Parses (fun as => (as.flatMap w).length ≤ b.length) (f b) := by
  induction hn : b.length using Nat.strongRecOn generalizing b with
  | ind n ih =>
    subst hn
    rw [hf.unfolds]
    refine .ite (fun _ => Nat.zero_le _) fun _ => ?_
    have hb := h b
    cases hread : r b with
    | error e =>
      rw [hread] at hb
      exact hb
    | ok x =>
      rw [hread] at hb
      refine (ih _ (hf.shortens hread) x.2 rfl).bind fun as has => ?_
      change (w x.1).length + x.2.length ≤ b.length at hb
      change ((x.1 :: as).flatMap w).length ≤ b.length
      rw [List.flatMap_cons, List.length_append]
      omega

end Shrinks

end Fields

section Bodies

theorem shrinks_will :
    Shrinks (fun will : Will => sizedText will.topic ++ sized will.message) (fun body => do
      let (topic, body) ← readText body
      let (message, body) ← readSized body
      .ok (Will.mk topic message, body)) := by
  intro b
  refine (Shrinks.text b).bind fun topic htopic => (Shrinks.sized topic.2).bind fun message hmessage => ?_
  change (sizedText topic.1 ++ sized message.1).length + message.2.length ≤ b.length
  rw [List.length_append]
  omega

theorem shrinks_connect (b : Bytes) :
    Parses (fun c => c.body.length ≤ b.length) (Connect.ofBody? b) := by
  refine (Shrinks.text b).bind fun name hname => (Shrinks.byte name.2).bind fun level hlevel => ?_
  refine (Shrinks.byte level.2).bind fun flags hflags => .ite (fun _ => rfl) fun _ => ?_
  refine (Shrinks.word flags.2).bind fun alive halive => (Shrinks.text alive.2).bind fun id hid => ?_
  refine (shrinks_will.readIf _ id.2).bind fun will hwill => ?_
  refine (Shrinks.text.readIf _ will.2).bind fun user huser => ?_
  refine (Shrinks.sized.readIf _ user.2).bind fun secret hsecret => ?_
  change (Connect.body _).length ≤ b.length
  simp only [Connect.body, List.length_append, List.length_cons, List.length_nil] at hlevel hflags ⊢
  omega

theorem shrinks_publish (flags : UInt8) (b : Bytes) :
    Parses (fun p => (Packet.publish p).body.length ≤ b.length) (Publish.ofBody? flags b) := by
  refine .ite (fun _ => rfl) fun _ => ?_
  refine (Shrinks.text b).bind fun topic htopic => (Shrinks.word.readIf _ topic.2).bind fun id hid => ?_
  change (sizedText topic.1 ++ orEmpty word id.1 ++ id.2).length ≤ b.length
  simp only [List.length_append]
  omega

theorem shrinks_request : Shrinks (fun f => sizedText f.1 ++ [f.2]) readRequest := by
  intro b
  refine (Shrinks.text b).bind fun filter hfilter => (Shrinks.byte filter.2).bind fun qos hqos => ?_
  refine .ite (fun _ => rfl) fun _ => ?_
  change (sizedText filter.1 ++ [qos.1]).length + qos.2.length ≤ b.length
  dsimp only at hqos
  rw [List.length_append]
  omega

theorem shrinks_packet (type flags : UInt8) (b : Bytes) :
    Parses (fun p => p.body.length ≤ b.length) (Packet.ofBody? type flags b) := by
  rw [Packet.ofBody?]
  dsimp only
  split
  · exact .ite (fun _ => (shrinks_connect b).bind fun _ hc => hc) fun _ => rfl
  · refine .ite (fun _ => (Shrinks.byte b).bind fun present hpresent => ?_) fun _ => rfl
    refine (Shrinks.byte present.2).bind fun code hcode => ?_
    split
    · change 2 ≤ b.length
      simp only [List.length_singleton] at hpresent hcode
      omega
    · exact rfl
  · exact (shrinks_publish flags b).bind fun _ hp => hp
  · refine .ite (fun _ => (Shrinks.word b).bind fun id hid => ?_) fun _ => rfl
    refine (shrinks_request.repeats repeats_readRequests id.2).bind fun filters h => ?_
    refine (Parses.nonEmpty filters).bind fun fs hfs => ?_
    rw [hfs.2]
    change (word id.1 ++ filters.flatMap _).length ≤ b.length
    rw [List.length_append]
    omega
  · refine .ite (fun _ => (Shrinks.word b).bind fun id hid => ?_) fun _ => rfl
    change (word id.1 ++ id.2).length ≤ b.length
    rwa [List.length_append]
  · refine .ite (fun _ => (Shrinks.word b).bind fun id hid => ?_) fun _ => rfl
    refine (Shrinks.text.repeats repeats_readFilters id.2).bind fun filters h => ?_
    refine (Parses.nonEmpty filters).bind fun fs hfs => ?_
    rw [hfs.2]
    change (word id.1 ++ filters.flatMap _).length ≤ b.length
    rw [List.length_append]
    omega
  · refine .ite (fun _ => (Shrinks.word b).bind fun id hid => ?_) fun _ => rfl
    change (word id.1).length ≤ b.length
    omega
  · exact .ite (fun _ => Nat.zero_le _) fun _ => rfl
  · exact .ite (fun _ => Nat.zero_le _) fun _ => rfl
  · exact .ite (fun _ => Nat.zero_le _) fun _ => rfl
  · exact rfl

end Bodies

section Lengths

theorem Spells.lt_pow {h : Bytes} {n : Nat} (hs : Spells h n) : n < Nat.pow 128 h.length := by
  induction hs with
  | last hb =>
    rw [UInt8.lt_iff_toNat_lt] at hb
    simpa using hb
  | @more b h n _ _ ih =>
    have hb := b.toNat_lt
    have hpow : Nat.pow 128 (b :: h).length = 128 * Nat.pow 128 h.length := Nat.pow_succ'
    omega

/-- A number that is no greater needs no more digits. -/
theorem Spells.length_base128_le {h : Bytes} {n m : Nat} (hs : Spells h n) (hm : m ≤ n) :
    (Bytes.base128 m).length ≤ h.length := by
  have hpos : 0 < h.length := by cases hs <;> simp
  have hlt : m < Nat.pow 128 (h.length - 1 + 1) := by
    rw [Nat.sub_add_cancel hpos]
    exact Nat.lt_of_le_of_lt hm hs.lt_pow
  have hle := Mqtt.length_base128_le hlt
  omega

theorem Frame.length_body_le (f : Frame) : f.body.length ≤ greatestRemaining := by
  have hlt := f.spelled.lt_pow
  have hpow : Nat.pow 128 f.header.length ≤ Nat.pow 128 4 := Nat.pow_le_pow_right (by decide) f.header_le
  exact Nat.le_of_lt_succ (Nat.lt_of_lt_of_le hlt hpow)

end Lengths

/-- A packet that was taken off a buffer is written in no more bytes than its frame had. It is then read
back as it was, under the same limit and whatever comes behind it. -/
theorem encode_of_decode {limit : Nat} {buffer rest : Bytes} {p : Packet}
    (h : decode limit buffer = .packet p rest) :
    (∃ frame, buffer = frame ++ rest ∧ p.encode.length ≤ frame.length) ∧
      decode limit p.encode = .packet p [] ∧
      ∀ more, decode limit (p.encode ++ more) = .packet p more := by
  obtain ⟨f, hlimit, hbuffer, hp⟩ := exists_frame_of_decode h
  have hshrinks : Parses (fun q => q.body.length ≤ f.body.length) f.packet? := shrinks_packet _ _ _
  rw [hp] at hshrinks
  have hbody : p.body.length ≤ f.body.length := hshrinks
  have hlength : p.body.length ≤ greatestRemaining := Nat.le_trans hbody f.length_body_le
  have hdecode := decode_encode (fits_of_decode h) hlength (Nat.le_trans hbody hlimit)
  refine ⟨⟨f.bytes, hbuffer, ?_⟩, ?_, hdecode⟩
  · have hheader := f.spelled.length_base128_le hbody
    simp only [Packet.encode, Nat.min_eq_left hlength, Frame.bytes, List.length_cons,
      List.length_append]
    omega
  · have hself := hdecode []
    rwa [List.append_nil] at hself

/-- A connect packet with bits that mean nothing, a byte behind its last field and a needless digit in its
length; a ping waits behind it. -/
def lenient : Bytes :=
  [0x10, 0x8e, 0x00, 0x00, 0x04, 0x4d, 0x51, 0x54, 0x54, 0x04, 0x1a, 0x00, 0x1e, 0x00, 0x01, 0x64, 0x99,
    0xc0, 0x00]

theorem encode_of_decode_lenient :
    let p := Packet.connect ⟨"MQTT", 4, "d", true, 30, none, none, none⟩
    decode 14 lenient = .packet p [0xc0, 0x00] ∧ p.encode.length = 15 ∧
      (∃ frame, lenient = frame ++ [0xc0, 0x00] ∧ p.encode.length ≤ frame.length) ∧
      decode 14 p.encode = .packet p [] := by
  intro p
  have h : decode 14 lenient = .packet p [0xc0, 0x00] := by decide +kernel
  obtain ⟨hframe, hself, -⟩ := encode_of_decode h
  exact ⟨h, by decide +kernel, hframe, hself⟩

end Arrivals.Mqtt
