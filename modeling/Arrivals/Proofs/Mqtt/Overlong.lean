import Arrivals.Proofs.Bytes
import Arrivals.Proofs.Mqtt.RoundTrip
import Mathlib.Data.List.Basic

/-! Packets with fields that are too long for their length to be said. Main statement: what is written of
a packet is read as the packet with its fields cut, unless the cut of a text falls inside a character; the
body is then taken off and refused. -/

namespace Arrivals.Mqtt

section Texts

/-- `t` is what a field has of the text `s`: all of it or, if it is too long, as many bytes from its
front as a length can say. -/
def Keeps (s t : String) : Prop :=
  (Sizable (.ofString s) → t = s) ∧
    (¬ Sizable (.ofString s) → (Bytes.ofString t).length = 65535 ∧ ∃ u, s = t ++ u)

/-- No character lies across the end of what a field has room for. -/
def Severable (s : String) : Prop := ∃ t, Keeps s t

def cutText (s : String) : String := (Bytes.toString? ((Bytes.ofString s).take 65535)).getD ""

theorem keeps_iff {s t : String} : Keeps s t ↔ Bytes.ofString t = (Bytes.ofString s).take 65535 := by
  rw [Keeps]
  by_cases hs : Sizable (.ofString s)
  · simp only [hs, forall_const, not_true_eq_false, false_imp_iff, and_true]
    rw [List.take_of_length_le hs, Bytes.ofString_injective.eq_iff]
  · simp only [hs, false_imp_iff, not_false_eq_true, forall_const, true_and]
    have hlong : 65535 ≤ (Bytes.ofString s).length := Nat.le_of_lt (Nat.lt_of_not_le hs)
    constructor
    · rintro ⟨hlength, u, rfl⟩
      rw [Bytes.ofString_append, ← hlength, List.take_left]
    · intro h
      refine ⟨?_, Bytes.exists_append_of_take hlong h⟩
      rw [h, List.length_take, Nat.min_eq_left hlong]

theorem Severable.of_sizable {s : String} (h : Sizable (.ofString s)) : Severable s :=
  ⟨s, fun _ => rfl, fun hs => absurd h hs⟩

theorem Keeps.cutText_eq {s t : String} (h : Keeps s t) : cutText s = t := by
  rw [cutText, ← keeps_iff.mp h, Bytes.toString?_ofString]
  rfl

theorem Severable.keeps {s : String} (h : Severable s) : Keeps s (cutText s) := by
  obtain ⟨t, ht⟩ := h
  rwa [ht.cutText_eq]

theorem Severable.sizable {s : String} (h : Severable s) : Sizable (.ofString (cutText s)) := by
  rw [Sizable, keeps_iff.mp h.keeps]
  exact List.length_take_le _ _

theorem sized_take (b : Bytes) : sized (b.take 65535) = sized b := by
  rw [sized, sized, List.take_take, Nat.min_self]

theorem Severable.sizedText {s : String} (h : Severable s) : sizedText (cutText s) = sizedText s := by
  rw [Mqtt.sizedText, Mqtt.sizedText, keeps_iff.mp h.keeps, sized_take]

theorem Severable.readsText {s : String} (h : Severable s) :
    Reads readText (Mqtt.sizedText s) (cutText s) := by
  rw [← h.sizedText]
  exact h.sizable.readsText

end Texts

section Faults

variable {α β : Type}

/-- A will in the body of a connection: a topic and a message. -/
abbrev readWill : Reader Will := fun body => do
  let (topic, body) ← readText body
  let (message, body) ← readSized body
  .ok (Will.mk topic message, body)

/-- `r` does not find a text in the bytes `w`, whatever comes behind them. -/
def Garbles (r : Reader α) (w : Bytes) : Prop := ∀ rest, r (w ++ rest) = .error .invalidUtf8

namespace Garbles

theorem then_eq {r : Reader α} {w : Bytes} (h : Garbles r w) (rest : Bytes)
    (f : α × Bytes → Except ProtocolError β) : (r (w ++ rest) >>= f) = .error .invalidUtf8 := by
  rw [h rest]
  rfl

theorem text {s : String} (h : ¬ Severable s) : Garbles readText (sizedText s) := by
  intro rest
  rw [readText, sizedText, (Reads.sized _).then_eq]
  dsimp only
  cases ht : Bytes.toString? ((Bytes.ofString s).take 65535) with
  | none => rfl
  | some t => exact absurd ⟨t, keeps_iff.mpr (Bytes.ofString_of_toString? ht)⟩ h

theorem request {f : String × UInt8} (h : ¬ Severable f.1) :
    Garbles readRequest (sizedText f.1 ++ [f.2]) := by
  intro rest
  rw [readRequest, List.append_assoc, (text h).then_eq]

theorem will {w : Will} (h : ¬ Severable w.topic) :
    Garbles readWill (sizedText w.topic ++ sized w.message) := by
  intro rest
  rw [readWill, List.append_assoc, (text h).then_eq]

theorem orEmpty {r : Reader α} {w : α → Bytes} {o : Option α} (h : ∃ a ∈ o, Garbles r (w a)) :
    Garbles (readIf o.isSome r) (orEmpty w o) := by
  obtain ⟨a, rfl, ha⟩ := h
  exact fun rest => ha.then_eq rest _

end Garbles

theorem text_reads_or_garbles (s : String) :
    Reads readText (sizedText s) (cutText s) ∨ Garbles readText (sizedText s) := by
  by_cases h : Severable s
  · exact .inl h.readsText
  · exact .inr (Garbles.text h)

theorem request_reads_or_garbles {f : String × UInt8} (hqos : f.2 ≤ 2) :
    Reads readRequest (sizedText f.1 ++ [f.2]) (cutText f.1, f.2) ∨
      Garbles readRequest (sizedText f.1 ++ [f.2]) := by
  by_cases h : Severable f.1
  · left
    have hfits : FitsRequest (cutText f.1, f.2) := ⟨h.sizable, hqos⟩
    have hreads := hfits.reads
    rwa [h.sizedText] at hreads
  · exact .inr (Garbles.request h)

theorem Severable.readsWill {w : Will} (h : Severable w.topic) :
    Reads readWill (Mqtt.sizedText w.topic ++ sized w.message)
      ⟨cutText w.topic, w.message.take 65535⟩ := by
  intro rest
  rw [readWill, List.append_assoc, h.readsText.then_eq]
  exact (Reads.sized w.message).then_eq rest _

/-- The first item that is not found ends the reading. -/
theorem Repeats.flatMap_garbles {r : Reader α} {f : Bytes → Except ProtocolError (List α)}
    (h : Repeats r f) {w : α → Bytes} {c : α → α} {as : List α} (hw : ∀ a, w a ≠ [])
    (has : ∀ a ∈ as, Reads r (w a) (c a) ∨ Garbles r (w a)) (hsome : ∃ a ∈ as, Garbles r (w a)) :
    f (as.flatMap w) = .error .invalidUtf8 := by
  induction as with
  | nil =>
    obtain ⟨a, ha, -⟩ := hsome
    cases ha
  | cons a as ih =>
    have hne : (w a ++ as.flatMap w).isEmpty = false := by simp [hw a]
    rw [List.flatMap_cons, h.unfolds, hne, if_neg Bool.false_ne_true]
    by_cases ha : Garbles r (w a)
    · exact ha.then_eq _ _
    · have hread := (has a List.mem_cons_self).resolve_right ha
      obtain ⟨b, hb, hgarbles⟩ := hsome
      have hb : b ∈ as := (List.mem_cons.mp hb).resolve_left fun he => ha (he ▸ hgarbles)
      rw [hread.then_eq]
      dsimp only
      rw [ih (fun a ha => has a (List.mem_cons_of_mem _ ha)) ⟨b, hb, hgarbles⟩]
      rfl

end Faults

section Packets

namespace Packet

/-- What a packet has to keep to but for the lengths of its fields. -/
def Formed : Packet → Prop
  | .publish p => p.qos ≤ 2 ∧ (p.packetId.isSome ↔ 0 < p.qos)
  | .subscribe _ filters => filters ≠ [] ∧ ∀ f ∈ filters, f.2 ≤ 2
  | .unsubscribe _ filters => filters ≠ []
  | _ => True

/-- The texts of a packet, in the order in which they are written. -/
def texts : Packet → List String
  | .connect c => [c.protocolName, c.clientId] ++ c.will.toList.map Will.topic ++ c.username.toList
  | .publish p => [p.topic]
  | .subscribe _ filters => filters.map Prod.fst
  | .unsubscribe _ filters => filters
  | _ => []

/-- The packet with every field cut that is too long for its length to be said. -/
def cut : Packet → Packet
  | .connect c => .connect { c with
      protocolName := cutText c.protocolName
      clientId := cutText c.clientId
      will := c.will.map fun w => ⟨cutText w.topic, w.message.take 65535⟩
      username := c.username.map cutText
      password := c.password.map (List.take 65535) }
  | .publish p => .publish { p with topic := cutText p.topic }
  | .subscribe id filters => .subscribe id (filters.map fun f => (cutText f.1, f.2))
  | .unsubscribe id filters => .unsubscribe id (filters.map cutText)
  | p => p

theorem header_cut (p : Packet) : p.cut.header = p.header := by cases p <;> rfl

end Packet

theorem orEmpty_map {α : Type} {f : α → Bytes} {c : α → α} {o : Option α}
    (h : ∀ a ∈ o, f (c a) = f a) : orEmpty f (o.map c) = orEmpty f o := by
  cases o with
  | none => rfl
  | some a => exact h a rfl

/-- The texts of a connection whose cuts can be read. -/
structure Connect.Severable (c : Connect) : Prop where
  protocolName : Mqtt.Severable c.protocolName
  clientId : Mqtt.Severable c.clientId
  will : ∀ w ∈ c.will, Mqtt.Severable w.topic
  username : ∀ name ∈ c.username, Mqtt.Severable name

theorem Connect.severable_iff (c : Connect) :
    c.Severable ↔ ∀ s ∈ (Packet.connect c).texts, Mqtt.Severable s := by
  simp only [Packet.texts, List.mem_append, List.mem_cons, List.not_mem_nil, or_false, List.mem_map,
    Option.mem_toList]
  constructor
  · rintro h s (((rfl | rfl) | ⟨w, hw, rfl⟩) | hs)
    · exact h.protocolName
    · exact h.clientId
    · exact h.will w hw
    · exact h.username s hs
  · intro h
    exact ⟨h _ (.inl (.inl (.inl rfl))), h _ (.inl (.inl (.inr rfl))),
      fun w hw => h _ (.inl (.inr ⟨w, hw, rfl⟩)), fun name hname => h _ (.inr hname)⟩

theorem Packet.body_cut {p : Packet} (h : ∀ s ∈ p.texts, Severable s) : p.cut.body = p.body := by
  cases p with
  | connect c =>
    have hc := c.severable_iff.mpr h
    have hwill := orEmpty_map (f := fun w : Will => sizedText w.topic ++ sized w.message)
      (c := fun w => ⟨cutText w.topic, w.message.take 65535⟩) (o := c.will) fun w hw => by
        rw [(hc.will w hw).sizedText, sized_take]
    have husername := orEmpty_map fun name hname => (hc.username name hname).sizedText
    have hpassword := orEmpty_map (o := c.password) fun secret _ => sized_take secret
    simp only [cut, body, Connect.body, Connect.flags, Option.isSome_map, hc.protocolName.sizedText,
      hc.clientId.sizedText, hwill, husername, hpassword]
  | publish p =>
    have htopic := (h p.topic (List.mem_singleton_self _)).sizedText
    simp only [cut, body, htopic]
  | subscribe id filters =>
    rw [cut, body, body, List.flatMap_map]
    congr 1
    refine List.flatMap_congr fun f hf => ?_
    rw [(h f.1 (List.mem_map_of_mem hf)).sizedText]
  | unsubscribe id filters =>
    rw [cut, body, body, List.flatMap_map]
    congr 1
    exact List.flatMap_congr fun filter hfilter => (h filter hfilter).sizedText
  | _ => rfl

theorem Packet.fits_cut {p : Packet} (hp : p.Formed) (h : ∀ s ∈ p.texts, Severable s) :
    p.cut.Fits := by
  cases p with
  | connect c =>
    have hc := c.severable_iff.mpr h
    refine ⟨hc.protocolName.sizable, hc.clientId.sizable, ?_, ?_, ?_⟩
    · intro _ hcut
      obtain ⟨w, hw, rfl⟩ := Option.map_eq_some_iff.mp hcut
      exact ⟨(hc.will w hw).sizable, List.length_take_le _ _⟩
    · intro _ hcut
      obtain ⟨name, hname, rfl⟩ := Option.map_eq_some_iff.mp hcut
      exact (hc.username name hname).sizable
    · intro _ hcut
      obtain ⟨secret, -, rfl⟩ := Option.map_eq_some_iff.mp hcut
      exact List.length_take_le _ _
  | publish p => exact ⟨(h p.topic (List.mem_singleton_self _)).sizable, hp.1, hp.2⟩
  | subscribe id filters =>
    refine ⟨mt List.map_eq_nil_iff.mp hp.1, fun f hf => ?_⟩
    obtain ⟨g, hg, rfl⟩ := List.mem_map.mp hf
    exact ⟨(h g.1 (List.mem_map_of_mem hg)).sizable, hp.2 g hg⟩
  | unsubscribe id filters =>
    refine ⟨mt List.map_eq_nil_iff.mp hp, fun f hf => ?_⟩
    obtain ⟨g, hg, rfl⟩ := List.mem_map.mp hf
    exact (h g hg).sizable
  | _ => trivial

theorem sizedText_ne_nil (s : String) : sizedText s ≠ [] := by
  rw [sizedText, sized, ← List.length_pos_iff, List.length_append, Bytes.bigEndian_length]
  exact Nat.lt_of_lt_of_le Nat.two_pos (Nat.le_add_right _ _)

theorem Reads.orEmpty_map {α : Type} {r : Reader α} {w : α → Bytes} {c : α → α} {o : Option α}
    (h : ∀ a ∈ o, Reads r (w a) (c a)) :
    Reads (readIf o.isSome r) (Mqtt.orEmpty w o) (o.map c) := by
  intro rest
  cases o with
  | none => rfl
  | some a => exact (h a rfl).then_eq rest _

/-- The fields of a connection are read in turn, so one that is garbled is met if those before it are
not. -/
theorem Connect.ofBody?_garbled {c : Connect} (h : ¬ c.Severable) :
    Connect.ofBody? c.body = .error .invalidUtf8 := by
  obtain ⟨hreserved, -, hwill, -, husername⟩ := c.hasBit_flags
  have hbytes : [c.protocolLevel, c.flags] = [c.protocolLevel] ++ [c.flags] := rfl
  rw [body, hbytes, ofBody?]
  simp only [List.append_assoc]
  by_cases hname : Mqtt.Severable c.protocolName
  case neg => rw [(Garbles.text hname).then_eq]
  rw [hname.readsText.then_eq]
  dsimp only
  rw [(Reads.byte _).then_eq]
  dsimp only
  rw [(Reads.byte _).then_eq, hreserved, hwill, husername]
  dsimp only
  rw [if_neg Bool.false_ne_true, (Reads.word _).then_eq]
  dsimp only
  by_cases hid : Mqtt.Severable c.clientId
  case neg => rw [(Garbles.text hid).then_eq]
  rw [hid.readsText.then_eq]
  dsimp only
  by_cases hw : ∀ w ∈ c.will, Mqtt.Severable w.topic
  case neg =>
    simp only [not_forall] at hw
    obtain ⟨w, hw, htopic⟩ := hw
    rw [(Garbles.orEmpty ⟨w, hw, Garbles.will htopic⟩).then_eq]
  rw [(Reads.orEmpty_map fun w hmem => (hw w hmem).readsWill).then_eq]
  dsimp only
  by_cases huser : ∀ name ∈ c.username, Mqtt.Severable name
  case neg =>
    simp only [not_forall] at huser
    obtain ⟨name, hname, hgarbled⟩ := huser
    rw [(Garbles.orEmpty ⟨name, hname, Garbles.text hgarbled⟩).then_eq]
  exact absurd ⟨hname, hid, hw, huser⟩ h

theorem Publish.ofBody?_garbled {p : Publish} (hqos : p.qos ≤ 2) (h : ¬ Severable p.topic) :
    Publish.ofBody? p.flags (Packet.publish p).body = .error .invalidUtf8 := by
  obtain ⟨-, hflags, -⟩ := Publish.hasBit_flags hqos
  have hne : ¬ p.qos = 3 := by
    rcases Publish.eq_zero_or_one_or_two hqos with hq | hq | hq <;> rw [hq] <;> decide
  rw [ofBody?, hflags, if_neg hne, Packet.body, List.append_assoc, (Garbles.text h).then_eq]

theorem Packet.ofBody?_garbled {p : Packet} (hp : p.Formed) (h : ∃ s ∈ p.texts, ¬ Severable s) :
    Packet.ofBody? (p.header >>> 4) (p.header &&& 15) p.body = .error .invalidUtf8 := by
  cases p with
  | connect c =>
    have hc := Connect.ofBody?_garbled (mt c.severable_iff.mp (by simpa using h))
    rw [header]
    change (Connect.ofBody? c.body >>= fun c => .ok (Packet.connect c)) = _
    rw [hc]
    rfl
  | publish p =>
    obtain ⟨htype, -⟩ := Publish.hasBit_flags hp.1
    obtain ⟨s, hs, htopic⟩ := h
    rw [List.mem_singleton.mp hs] at htopic
    rw [htype]
    change (Publish.ofBody? p.flags (Packet.publish p).body >>= fun p => .ok (Packet.publish p)) = _
    rw [Publish.ofBody?_garbled hp.1 htopic]
    rfl
  | subscribe id filters =>
    obtain ⟨s, hs, hgarbled⟩ := h
    obtain ⟨f, hf, rfl⟩ := List.mem_map.mp hs
    have hfilters : readRequests (filters.flatMap fun f => sizedText f.1 ++ [f.2]) =
        .error .invalidUtf8 :=
      repeats_readRequests.flatMap_garbles (fun f => by simp)
        (fun g hg => request_reads_or_garbles (hp.2 g hg)) ⟨f, hf, Garbles.request hgarbled⟩
    rw [header]
    change (readWord (word id ++ filters.flatMap fun f => sizedText f.1 ++ [f.2]) >>= fun r =>
      readRequests r.2 >>= fun fs => nonEmpty fs >>= fun fs => .ok (Packet.subscribe r.1 fs)) = _
    rw [(Reads.word id).then_eq, hfilters]
    rfl
  | unsubscribe id filters =>
    obtain ⟨filter, hfilter, hgarbled⟩ := h
    have hfilters : readFilters (filters.flatMap sizedText) = .error .invalidUtf8 :=
      repeats_readFilters.flatMap_garbles sizedText_ne_nil (fun s _ => text_reads_or_garbles s)
        ⟨filter, hfilter, Garbles.text hgarbled⟩
    rw [header]
    change (readWord (word id ++ filters.flatMap sizedText) >>= fun r =>
      readFilters r.2 >>= fun fs => nonEmpty fs >>= fun fs => .ok (Packet.unsubscribe r.1 fs)) = _
    rw [(Reads.word id).then_eq, hfilters]
    rfl
  | _ =>
    obtain ⟨s, hs, -⟩ := h
    cases hs

theorem Packet.ofBody?_cut {p : Packet} (hp : p.Formed) (h : ∀ s ∈ p.texts, Severable s) :
    Packet.ofBody? (p.header >>> 4) (p.header &&& 15) p.body = .ok p.cut := by
  have hcut := Packet.ofBody?_body (Packet.fits_cut hp h)
  rwa [p.header_cut, Packet.body_cut h] at hcut

theorem decode_encode_eq {p : Packet} {limit : Nat} (hlength : p.body.length ≤ greatestRemaining)
    (hlimit : p.body.length ≤ limit) (rest : Bytes) :
    decode limit (p.encode ++ rest) = (p.frame hlength).decoded rest := by
  rw [← Packet.bytes_frame hlength, decode_frame hlimit]

theorem decode_encode_garbled {p : Packet} {limit : Nat} (hp : p.Formed)
    (hlength : p.body.length ≤ greatestRemaining) (hlimit : p.body.length ≤ limit)
    (h : ∃ s ∈ p.texts, ¬ Severable s) (rest : Bytes) :
    decode limit (p.encode ++ rest) = .failed .invalidUtf8 rest := by
  have hpacket : (p.frame hlength).packet? = .error .invalidUtf8 := Packet.ofBody?_garbled hp h
  rw [decode_encode_eq hlength hlimit, Frame.decoded, hpacket]

/-- A packet comes back with its fields cut; but if the cut of one text falls inside a character, then
nothing of it does. -/
theorem decode_encode_overlong {p : Packet} {limit : Nat} (hp : p.Formed)
    (hlength : p.body.length ≤ greatestRemaining) (hlimit : p.body.length ≤ limit) (rest : Bytes) :
    ((∀ s ∈ p.texts, Severable s) →
      decode limit (p.encode ++ rest) = .packet p.cut rest ∧ ∀ s ∈ p.texts, Keeps s (cutText s)) ∧
    ((∃ s ∈ p.texts, ¬ Severable s) →
      decode limit (p.encode ++ rest) = .failed .invalidUtf8 rest) := by
  refine ⟨fun h => ⟨?_, fun s hs => (h s hs).keeps⟩, fun h => ?_⟩
  · have hpacket : (p.frame hlength).packet? = .ok p.cut := Packet.ofBody?_cut hp h
    rw [decode_encode_eq hlength hlimit, Frame.decoded, hpacket]
  · exact decode_encode_garbled hp hlength hlimit h rest

end Packets

section Repeated

/-- A text of `n` times the same character. -/
def repeated (c : Char) (n : Nat) : String := String.ofList (List.replicate n c)

theorem length_ofString_repeated (c : Char) (n : Nat) :
    (Bytes.ofString (repeated c n)).length = n * c.utf8Size := by
  induction n with
  | zero => rw [Nat.zero_mul]; rfl
  | succ n ih =>
    rw [repeated, List.replicate_succ, String.ofList_cons, Bytes.ofString_append, List.length_append,
      Bytes.length_ofString, String.utf8ByteSize_singleton, Nat.succ_mul, Nat.add_comm]
    exact congrArg (· + c.utf8Size) ih

theorem repeated_append (c : Char) (m n : Nat) : repeated c m ++ repeated c n = repeated c (m + n) := by
  rw [repeated, repeated, ← String.ofList_append, List.replicate_append_replicate]
  rfl

theorem eq_repeated_of_append {c : Char} {n : Nat} {t u : String} (h : repeated c n = t ++ u) :
    ∃ m, t = repeated c m := by
  have hlist : t.toList ++ u.toList = List.replicate n c := by
    rw [← String.toList_append, ← h, repeated, String.toList_ofList]
  refine ⟨t.toList.length, ?_⟩
  rw [repeated, ← (List.append_eq_replicate_iff.mp hlist).2.1, String.ofList_toList]

theorem keeps_repeated {c : Char} {k m n : Nat} (hk : c.utf8Size = k) (hm : m * k = 65535)
    (hn : 65535 < n * k) : Keeps (repeated c n) (repeated c m) := by
  subst hk
  rw [Keeps, Sizable, length_ofString_repeated, length_ofString_repeated]
  have hle : m ≤ n := Nat.le_of_mul_le_mul_right (Nat.le_of_lt (hm ▸ hn)) c.utf8Size_pos
  refine ⟨fun hs => absurd hn (Nat.not_lt.mpr hs), fun _ => ⟨hm, repeated c (n - m), ?_⟩⟩
  rw [repeated_append, Nat.add_sub_of_le hle]

theorem severable_repeated_iff {c : Char} {n : Nat} :
    Severable (repeated c n) ↔ n * c.utf8Size ≤ 65535 ∨ c.utf8Size ∣ 65535 := by
  by_cases hn : n * c.utf8Size ≤ 65535
  · have hs : Sizable (.ofString (repeated c n)) := by rwa [Sizable, length_ofString_repeated]
    exact iff_of_true (.of_sizable hs) (.inl hn)
  · constructor
    · rintro ⟨t, ht⟩
      obtain ⟨hlength, u, happend⟩ := ht.2 (by rwa [Sizable, length_ofString_repeated])
      obtain ⟨m, rfl⟩ := eq_repeated_of_append happend
      rw [length_ofString_repeated] at hlength
      exact .inr ⟨m, by rw [Nat.mul_comm, hlength]⟩
    · intro h
      obtain ⟨m, hm⟩ := h.resolve_left hn
      exact ⟨_, keeps_repeated rfl (by rw [Nat.mul_comm, ← hm]) (Nat.lt_of_not_le hn)⟩

/-- A message without content under a topic that may have any length. -/
def named (topic : String) : Packet := .publish (.atMostOnce topic [])

theorem named_formed (topic : String) : (named topic).Formed := by
  rw [named, Packet.Formed, Publish.atMostOnce]
  simp

theorem length_body_named {topic : String} (h : ¬ Sizable (.ofString topic)) :
    (named topic).body.length = 65537 := by
  have hlong : 65535 ≤ (Bytes.ofString topic).length := Nat.le_of_lt (Nat.lt_of_not_le h)
  change (sizedText topic ++ [] ++ []).length = 65537
  rw [List.append_nil, List.append_nil, sizedText, sized, List.length_append, Bytes.bigEndian_length,
    List.length_take, Nat.min_eq_left hlong]

/-- The field ends with the first byte of two that belong together, and no limit helps. -/
theorem decode_encode_split :
    let p := named (repeated 'é' 32768)
    p.Formed ∧ p.body.length = 65537 ∧
      ∀ limit, 65537 ≤ limit → decode limit p.encode = .failed .invalidUtf8 [] := by
  intro p
  have hsplit : ¬ Severable (repeated 'é' 32768) := by
    rw [severable_repeated_iff]
    decide
  have hlength : p.body.length = 65537 := length_body_named fun hs => hsplit (.of_sizable hs)
  refine ⟨named_formed _, hlength, fun limit hlimit => ?_⟩
  have hdecode := decode_encode_garbled (named_formed _) (by rw [hlength]; decide)
    (Nat.le_trans (Nat.le_of_eq hlength) hlimit) ⟨_, List.mem_singleton_self _, hsplit⟩ []
  rwa [List.append_nil] at hdecode

theorem decode_encode_overlong_letters :
    let p := named (repeated 'a' 65536)
    p.Formed ∧ p.body.length = 65537 ∧
      decode 65537 (p.encode ++ [0xc0, 0x00]) = .packet (named (repeated 'a' 65535)) [0xc0, 0x00] := by
  intro p
  have hsize : Char.utf8Size 'a' = 1 := by decide
  have hkeeps : Keeps (repeated 'a' 65536) (repeated 'a' 65535) :=
    keeps_repeated hsize (Nat.mul_one _) (by decide)
  have hlength : p.body.length = 65537 := by
    refine length_body_named ?_
    rw [Sizable, length_ofString_repeated]
    decide
  have htexts : ∀ s ∈ p.texts, Severable s := by
    intro s hs
    rw [List.mem_singleton.mp hs]
    exact ⟨_, hkeeps⟩
  have hcut : p.cut = named (repeated 'a' 65535) := by
    rw [named, ← hkeeps.cutText_eq]
    rfl
  have hdecode := (decode_encode_overlong (named_formed _) (by rw [hlength]; decide)
    (Nat.le_of_eq hlength) [0xc0, 0x00]).1 htexts
  rw [hcut] at hdecode
  exact ⟨named_formed _, hlength, hdecode.1⟩

end Repeated

end Arrivals.Mqtt
