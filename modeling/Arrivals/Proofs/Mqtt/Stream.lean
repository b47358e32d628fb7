import Arrivals.Proofs.Mqtt.Framing

/-! Streams of packets that arrive in pieces. Main statement: however a stream is cut, it comes to the
same packets and to the same end; a call that waits or finds the length at fault takes nothing off the
buffer, any other takes exactly the frame in front. -/

namespace Arrivals.Mqtt

theorem drain_eq (limit : Nat) (b : Bytes) :
    drain limit b =
      match decode limit b with
      | .incomplete => ⟨[], b, none⟩
      | .failed e rest => ⟨[], rest, some e⟩
      | .packet p rest => { drain limit rest with packets := p :: (drain limit rest).packets } := by
  rw [drain]
  split <;> simp [*]

/-- Draining goes on with more bytes, unless it has failed. -/
def Drained.resume (limit : Nat) (d : Drained) (c : Bytes) : Drained :=
  match d.error with
  | some _ => { d with rest := d.rest ++ c }
  | none =>
    { drain limit (d.rest ++ c) with
      packets := d.packets ++ (drain limit (d.rest ++ c)).packets }

theorem drain_append (limit : Nat) (b c : Bytes) :
    drain limit (b ++ c) = (drain limit b).resume limit c := by
  induction hn : b.length using Nat.strongRecOn generalizing b with
  | ind n ih =>
    subst hn
    cases hb : decode limit b with
    | incomplete =>
      have hd : drain limit b = ⟨[], b, none⟩ := by rw [drain_eq, hb]
      rw [hd]
      rfl
    | failed e rest =>
      have hd : drain limit b = ⟨[], rest, some e⟩ := by rw [drain_eq, hb]
      rw [hd, drain_eq, decode_append (by simp [hb]), hb]
      rfl
    | packet p rest =>
      have hd : drain limit b = { drain limit rest with packets := p :: (drain limit rest).packets } := by
        rw [drain_eq, hb]
      rw [hd, drain_eq, decode_append (by simp [hb]), hb]
      dsimp only [Decoded.followedBy]
      rw [ih rest.length (length_of_decode hb) rest rfl, Drained.resume, Drained.resume]
      cases (drain limit rest).error <;> rfl

theorem decode_rest_drain {limit : Nat} {b : Bytes} (h : (drain limit b).error = none) :
    decode limit (drain limit b).rest = .incomplete := by
  induction hn : b.length using Nat.strongRecOn generalizing b with
  | ind n ih =>
    subst hn
    cases hb : decode limit b with
    | incomplete => rwa [drain_eq, hb]
    | failed e rest =>
      rw [drain_eq, hb] at h
      cases h
    | packet p rest =>
      rw [drain_eq, hb] at h ⊢
      exact ih rest.length (length_of_decode hb) h rfl

/-- What a stream came to, of what each of its chunks came to: all packets, and the end of the last. -/
def Drained.join (buffer : Bytes) (ds : List Drained) : Drained where
  packets := ds.flatMap Drained.packets
  rest := (ds.getLast?.map Drained.rest).getD buffer
  error := ds.getLast?.bind Drained.error

theorem Drained.join_cons (buffer : Bytes) {d : Drained} (h : d.error = none) (ds : List Drained) :
    join buffer (d :: ds) =
      { join d.rest ds with packets := d.packets ++ (join d.rest ds).packets } := by
  cases hl : ds.getLast? with
  | none =>
    cases List.getLast?_eq_none_iff.mp hl
    simp [join, h]
  | some l => simp [join, List.getLast?_cons, hl]

section Chunks

variable {limit : Nat} {buffer : Bytes}

/-- Draining a stream at once does what draining its chunks does; those behind a fault stay unread. -/
theorem drain_flatten (h : decode limit buffer = .incomplete) (cs : List Bytes) :
    drain limit (buffer ++ cs.flatten) =
      { Drained.join buffer (drainChunks limit buffer cs) with
        rest := (Drained.join buffer (drainChunks limit buffer cs)).rest ++
          (cs.drop (drainChunks limit buffer cs).length).flatten } := by
  induction cs generalizing buffer with
  | nil => simp [drain_eq limit buffer, h, Drained.join, drainChunks]
  | cons c cs ih =>
    rw [List.flatten_cons, ← List.append_assoc, drain_append, drainChunks, Drained.resume]
    cases hd : (drain limit (buffer ++ c)).error with
    | some e => simp [Drained.join, hd]
    | none =>
      dsimp only
      rw [ih (decode_rest_drain hd), Drained.join_cons _ hd]
      simp

theorem length_drainChunks {cs : List Bytes}
    (h : (Drained.join buffer (drainChunks limit buffer cs)).error = none) :
    (drainChunks limit buffer cs).length = cs.length := by
  induction cs generalizing buffer with
  | nil => rfl
  | cons c cs ih =>
    rw [drainChunks] at h ⊢
    cases hd : (drain limit (buffer ++ c)).error with
    | some e => simp [hd, Drained.join] at h
    | none =>
      simp only [hd] at h ⊢
      rw [Drained.join_cons _ hd] at h
      rw [List.length_cons, ih h, List.length_cons]

end Chunks

/-- A call on `buffer` that reads no body leaves it alone; one that does takes the frame in front off,
and there is only one. -/
structure Decoded.Fair (buffer : Bytes) (d : Decoded) : Prop where
  waits : d.reads = false → d.left buffer = buffer
  takes : d.reads = true → ∃ f : Frame, buffer = f.bytes ++ d.left buffer ∧
    d = f.decoded (d.left buffer) ∧ ∀ (g : Frame) (rest : Bytes), buffer = g.bytes ++ rest → g = f

theorem fair_decode (limit : Nat) (buffer : Bytes) : (decode limit buffer).Fair buffer := by
  obtain hb | ⟨e, he, hb⟩ | ⟨f, rest, hlimit, rfl⟩ := decode_cases limit buffer
  · rw [hb]
    exact ⟨fun _ => rfl, nofun⟩
  · have hd : decode limit buffer = .failed e buffer := by simpa using hb []
    rw [hd]
    exact ⟨fun _ => rfl, fun h => by simp [Decoded.reads, he] at h⟩
  · rw [decode_frame hlimit]
    refine ⟨fun h => ?_, fun _ => ?_⟩
    · rw [f.reads_decoded] at h
      cases h
    · rw [f.left_decoded]
      exact ⟨f, rfl, rfl, fun g s h => (Frame.eq_of_append_eq h).symm⟩

/-- Two cuts of one stream come to the same packets and to the same end, and no call on the way takes
less or more than a frame off the buffer. -/
theorem drainChunks_cuts (limit : Nat) :
    (∀ cs ds : List Bytes, cs.flatten = ds.flatten →
      let a := Drained.join [] (drainChunks limit [] cs)
      let b := Drained.join [] (drainChunks limit [] ds)
      a.packets = b.packets ∧ a.error = b.error ∧ (a.error = none → a.rest = b.rest)) ∧
    ∀ buffer : Bytes, (decode limit buffer).Fair buffer := by
  refine ⟨fun cs ds h => ?_, fair_decode limit⟩
  have hstart : decode limit [] = .incomplete := rfl
  have hc := drain_flatten hstart cs
  have hd := drain_flatten hstart ds
  rw [List.nil_append] at hc hd
  rw [h, hd] at hc
  have herror := congrArg Drained.error hc
  refine ⟨(congrArg Drained.packets hc).symm, herror.symm, fun hnone => ?_⟩
  have hrest := congrArg Drained.rest hc
  simp only [length_drainChunks hnone, length_drainChunks (herror.trans hnone), List.drop_length,
    List.flatten_nil, List.append_nil] at hrest
  exact hrest.symm

/-- A ping and the beginning of a message, cut inside both or not at all. -/
theorem drainChunks_cuts_ping :
    let cs : List Bytes := [[0xc0], [0x00, 0x30], [0x03, 0x00]]
    let ds : List Bytes := [[0xc0, 0x00, 0x30, 0x03, 0x00]]
    let a := Drained.join [] (drainChunks 16 [] cs)
    let b := Drained.join [] (drainChunks 16 [] ds)
    cs.flatten = ds.flatten ∧ a = ⟨[.pingReq], [0x30, 0x03, 0x00], none⟩ ∧
      a.packets = b.packets ∧ a.error = b.error ∧ a.rest = b.rest := by
  intro cs ds a b
  have hcut : cs.flatten = ds.flatten := rfl
  have ha : a = ⟨[.pingReq], [0x30, 0x03, 0x00], none⟩ := by decide +kernel
  obtain ⟨hpackets, herror, hrest⟩ := (drainChunks_cuts 16).1 cs ds hcut
  exact ⟨hcut, ha, hpackets, herror, hrest (congrArg Drained.error ha)⟩

end Arrivals.Mqtt
