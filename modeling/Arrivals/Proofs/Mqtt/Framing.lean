import Arrivals.Proofs.Mqtt.Format

/-! Frames: a first byte, a length and a body. Main statements: no frame is the beginning of another,
what is decided about the front of a buffer stays so whatever comes behind it, and a packet that is taken
off fits the format. -/

namespace Arrivals.Mqtt

/-- The bytes `h` spell `n`: seven bits a byte, the least first, and the eighth in all but the last. -/
inductive Spells : Bytes → Nat → Prop
  | last {b : UInt8} : b < 128 → Spells [b] b.toNat
  | more {b : UInt8} {h : Bytes} {n : Nat} :
      ¬ b < 128 → Spells h n → Spells (b :: h) (b.toNat - 128 + 128 * n)

theorem readRemaining_of_spells {h : Bytes} {n room : Nat} (hs : Spells h n) (hroom : h.length ≤ room)
    (after : Bytes) : readRemaining room (h ++ after) = .ok (some (n, after)) := by
  induction hs generalizing room with
  | last hb =>
    obtain ⟨r, rfl⟩ : ∃ r, room = r + 1 := ⟨room - 1, by simp at hroom; omega⟩
    simp [readRemaining, hb]
  | more hb _ ih =>
    obtain ⟨r, rfl⟩ : ∃ r, room = r + 1 := ⟨room - 1, by simp at hroom; omega⟩
    rw [List.cons_append, readRemaining, if_neg hb, ih (by simpa using hroom)]

theorem Spells.unique {h g : Bytes} {n m : Nat} {r s : Bytes} (hn : Spells h n) (hm : Spells g m)
    (he : h ++ r = g ++ s) : h = g ∧ n = m := by
  have hread := readRemaining_of_spells hn (Nat.le_max_left h.length g.length) r
  rw [he, readRemaining_of_spells hm (Nat.le_max_right h.length g.length) s] at hread
  cases hread
  exact ⟨List.append_cancel_right he, rfl⟩

theorem spells_of_readRemaining {room n : Nat} {b after : Bytes}
    (h : readRemaining room b = .ok (some (n, after))) :
    ∃ header, Spells header n ∧ header.length ≤ room ∧ b = header ++ after := by
  induction room generalizing b n with
  | zero => cases h
  | succ room ih =>
    cases b with
    | nil => cases h
    | cons x rest =>
      rw [readRemaining] at h
      split at h
      next hx =>
        cases h
        exact ⟨[x], .last hx, by simp, rfl⟩
      next hx =>
        split at h
        next => cases h
        next => cases h
        next m tail hr =>
          cases h
          obtain ⟨header, hs, hle, rfl⟩ := ih hr
          exact ⟨x :: header, .more hx hs, by simpa using hle, rfl⟩

/-- A length that is faulty stays so. -/
theorem readRemaining_append_of_error {room : Nat} {b : Bytes} {e : ProtocolError}
    (h : readRemaining room b = .error e) (c : Bytes) :
    e = .malformedRemainingLength ∧ readRemaining room (b ++ c) = .error e := by
  induction room generalizing b with
  | zero =>
    cases h
    exact ⟨rfl, rfl⟩
  | succ room ih =>
    cases b with
    | nil => cases h
    | cons x rest =>
      rw [readRemaining] at h
      split at h
      next => cases h
      next hx =>
        split at h
        next hr =>
          cases h
          obtain ⟨he, hc⟩ := ih hr
          exact ⟨he, by rw [List.cons_append, readRemaining, if_neg hx, hc]⟩
        next => cases h
        next => cases h

structure Frame where
  first : UInt8
  header : Bytes
  body : Bytes
  spelled : Spells header body.length
  header_le : header.length ≤ 4

namespace Frame

def bytes (f : Frame) : Bytes := f.first :: (f.header ++ f.body)

def packet? (f : Frame) : Except ProtocolError Packet :=
  Packet.ofBody? (f.first >>> 4) (f.first &&& 15) f.body

/-- What a frame comes to that is taken off a buffer. -/
def decoded (f : Frame) (rest : Bytes) : Decoded :=
  match f.packet? with
  | .ok p => .packet p rest
  | .error e => .failed e rest

/-- No frame is the beginning of another. -/
theorem eq_of_append_eq {f g : Frame} {r s : Bytes} (h : f.bytes ++ r = g.bytes ++ s) : f = g := by
  obtain ⟨a, header, body, hf, _⟩ := f
  obtain ⟨b, header', body', hg, _⟩ := g
  simp only [bytes, List.cons_append, List.cons.injEq, List.append_assoc] at h
  obtain ⟨rfl, h⟩ := h
  obtain ⟨rfl, hlength⟩ := hf.unique hg h
  obtain ⟨rfl, _⟩ := List.append_inj (List.append_cancel_left h) hlength
  rfl

theorem readRemaining_bytes (f : Frame) (rest : Bytes) :
    readRemaining 4 (f.header ++ f.body ++ rest) = .ok (some (f.body.length, f.body ++ rest)) := by
  rw [List.append_assoc]
  exact readRemaining_of_spells f.spelled f.header_le _

end Frame

theorem decode_frame {limit : Nat} {f : Frame} (h : f.body.length ≤ limit) (rest : Bytes) :
    decode limit (f.bytes ++ rest) = f.decoded rest := by
  rw [Frame.bytes, List.cons_append, decode, f.readRemaining_bytes]
  dsimp only
  rw [if_neg (by omega), List.take_left, if_neg (by omega), List.drop_left]
  rfl

/-- A buffer has no packet to give yet, or never will for its length, or has a frame in front. -/
theorem decode_cases (limit : Nat) (b : Bytes) :
    decode limit b = .incomplete ∨
      (∃ e : ProtocolError, e.ofLength = true ∧
        ∀ c, decode limit (b ++ c) = .failed e (b ++ c)) ∨
      ∃ (f : Frame) (rest : Bytes), f.body.length ≤ limit ∧ b = f.bytes ++ rest := by
  cases b with
  | nil => exact .inl rfl
  | cons first tail =>
    cases hr : readRemaining 4 tail with
    | error e =>
      refine .inr (.inl ⟨e, ?_, fun c => ?_⟩)
      · rw [(readRemaining_append_of_error hr []).1]
        rfl
      · rw [List.cons_append, decode, (readRemaining_append_of_error hr c).2]
    | ok found =>
      cases found with
      | none => exact .inl (by rw [decode, hr])
      | some found =>
        obtain ⟨n, after⟩ := found
        obtain ⟨header, hs, hheader, rfl⟩ := spells_of_readRemaining hr
        by_cases hlimit : limit < n
        · refine .inr (.inl ⟨.packetTooLarge n, rfl, fun c => ?_⟩)
          have hc := readRemaining_of_spells hs hheader (after ++ c)
          rw [List.cons_append, List.append_assoc, decode, hc]
          exact if_pos hlimit
        · by_cases hafter : (after.take n).length < n
          · left
            rw [decode, hr]
            dsimp only
            rw [if_neg hlimit, if_pos hafter]
          · have hn : (after.take n).length = n := by
              have hle := List.length_take_le n after
              omega
            right; right
            refine ⟨⟨first, header, after.take n, hn.symm ▸ hs, hheader⟩, after.drop n, ?_, ?_⟩
            · exact Nat.le_trans (Nat.le_of_eq hn) (Nat.not_lt.mp hlimit)
            · simp only [Frame.bytes, List.cons_append, List.append_assoc, List.take_append_drop]

namespace Decoded

/-- The buffer behind a call. -/
def left (buffer : Bytes) : Decoded → Bytes
  | .incomplete => buffer
  | .packet _ rest => rest
  | .failed _ rest => rest

/-- Whether a body was read, faulty or not. -/
def reads : Decoded → Bool
  | .incomplete => false
  | .packet _ _ => true
  | .failed e _ => !e.ofLength

def followedBy (c : Bytes) : Decoded → Decoded
  | .incomplete => .incomplete
  | .packet p rest => .packet p (rest ++ c)
  | .failed e rest => .failed e (rest ++ c)

end Decoded

theorem Frame.decoded_append (f : Frame) (rest c : Bytes) :
    f.decoded (rest ++ c) = (f.decoded rest).followedBy c := by
  rw [decoded, decoded]
  cases f.packet? <;> rfl

theorem Frame.left_decoded (f : Frame) (buffer rest : Bytes) :
    (f.decoded rest).left buffer = rest := by
  rw [decoded]
  cases f.packet? <;> rfl

theorem Frame.reads_decoded (f : Frame) (rest : Bytes) : (f.decoded rest).reads = true := by
  have hp : Parses Packet.Fits f.packet? := parses_packet _ _ _
  rw [decoded]
  cases h : f.packet? with
  | ok p => rfl
  | error e =>
    rw [h] at hp
    simpa [Decoded.reads, Parses] using hp

theorem decode_append {limit : Nat} {b : Bytes} (h : decode limit b ≠ .incomplete) (c : Bytes) :
    decode limit (b ++ c) = (decode limit b).followedBy c := by
  obtain hb | ⟨e, _, hb⟩ | ⟨f, rest, hlimit, rfl⟩ := decode_cases limit b
  · exact absurd hb h
  · have hself := hb []
    rw [List.append_nil] at hself
    rw [hb c, hself]
    rfl
  · rw [List.append_assoc, decode_frame hlimit, decode_frame hlimit, f.decoded_append]

theorem exists_frame_of_decode {limit : Nat} {b rest : Bytes} {p : Packet}
    (h : decode limit b = .packet p rest) :
    ∃ f : Frame, f.body.length ≤ limit ∧ b = f.bytes ++ rest ∧ f.packet? = .ok p := by
  obtain hb | ⟨e, _, hb⟩ | ⟨f, after, hlimit, rfl⟩ := decode_cases limit b
  · rw [hb] at h
    cases h
  · rw [← List.append_nil b, hb []] at h
    cases h
  · rw [decode_frame hlimit, Frame.decoded] at h
    cases hf : f.packet? with
    | ok q =>
      rw [hf] at h
      cases h
      exact ⟨f, hlimit, rfl, hf⟩
    | error e =>
      rw [hf] at h
      cases h

theorem fits_of_decode {limit : Nat} {b rest : Bytes} {p : Packet}
    (h : decode limit b = .packet p rest) : p.Fits := by
  obtain ⟨f, -, -, hp⟩ := exists_frame_of_decode h
  have hfits : Parses Packet.Fits f.packet? := parses_packet _ _ _
  rw [hp] at hfits
  exact hfits

end Arrivals.Mqtt
