import Arrivals.Mqtt.Decode
import Arrivals.Mqtt.Encode

/-! Readers of packet bodies: what they take off the front, how a list of items is read, and how they
fail. Main statements: each writer of a field is undone by its reader, whatever comes behind; what a reader
gives could be written, and its faults are never those of a length. -/

namespace Arrivals

theorem Bytes.ofString_of_toString? {b : Bytes} {s : String} (h : toString? b = some s) :
    ofString s = b := by
  unfold toString? String.fromUTF8? at h
  split at h
  next =>
    cases h
    exact List.toList_toArray
  next => cases h

namespace Mqtt

variable {α β : Type}

section Fields

/-- `r` takes the bytes `w` off the front of whatever they begin, and finds `a` in them. -/
def Reads (r : Reader α) (w : Bytes) (a : α) : Prop := ∀ rest, r (w ++ rest) = .ok (a, rest)

namespace Reads

theorem then_eq {r : Reader α} {w : Bytes} {a : α} (h : Reads r w a) (rest : Bytes)
    (f : α × Bytes → Except ProtocolError β) : (r (w ++ rest) >>= f) = f (a, rest) := by
  rw [h rest]
  rfl

theorem byte (b : UInt8) : Reads readByte [b] b := fun _ => rfl

theorem word (n : UInt16) : Reads readWord (word n) n := by
  intro rest
  have hn := n.toNat_lt
  rw [Mqtt.word, Bytes.bigEndian, Bytes.bigEndian, Bytes.bigEndian]
  simp only [List.nil_append, List.cons_append, readWord, UInt8.toNat_ofNat', Except.ok.injEq,
    Prod.mk.injEq, and_true]
  apply UInt16.toNat_inj.mp
  rw [UInt16.toNat_ofNat']
  omega

theorem prefixed {n : UInt16} {b : Bytes} (h : n.toNat = b.length) :
    Reads readSized (Mqtt.word n ++ b) b := by
  intro rest
  rw [List.append_assoc, readSized, (word n).then_eq]
  dsimp only
  rw [h, List.take_left, if_neg (Nat.lt_irrefl _), List.drop_left]

/-- A field is cut where its length can no longer be said. -/
theorem sized (b : Bytes) : Reads readSized (sized b) (b.take 65535) := by
  have hle : (b.take 65535).length ≤ 65535 := List.length_take_le _ _
  have hn : (UInt16.ofNat (b.take 65535).length).toNat = (b.take 65535).length := by
    rw [UInt16.toNat_ofNat']
    omega
  have hb := prefixed hn
  rwa [Mqtt.word, hn] at hb

end Reads

/-- The field is short enough for its length to be said. -/
def Sizable (b : Bytes) : Prop := b.length ≤ 65535

instance (b : Bytes) : Decidable (Sizable b) := inferInstanceAs (Decidable (b.length ≤ 65535))

theorem Sizable.reads {b : Bytes} (h : Sizable b) : Reads readSized (sized b) b := by
  have hb := Reads.sized b
  rwa [List.take_of_length_le h] at hb

theorem Sizable.readsText {s : String} (h : Sizable (.ofString s)) :
    Reads readText (sizedText s) s := by
  intro rest
  rw [readText, sizedText, h.reads.then_eq]
  dsimp only
  rw [Bytes.toString?_ofString]

theorem Reads.orEmpty {r : Reader α} {w : α → Bytes} {o : Option α}
    (h : ∀ a ∈ o, Reads r (w a) a) : Reads (readIf o.isSome r) (orEmpty w o) o := by
  intro rest
  cases o with
  | none => rfl
  | some a => exact (h a rfl).then_eq rest _

end Fields

section Items

/-- Reading with `f` is reading items with `r` until the body is spent. -/
structure Repeats (r : Reader α) (f : Bytes → Except ProtocolError (List α)) : Prop where
  shortens : ∀ {body a rest}, r body = .ok (a, rest) → rest.length < body.length
  unfolds : ∀ body, f body =
    if body.isEmpty then .ok []
    else do
      let (a, rest) ← r body
      let as ← f rest
      .ok (a :: as)

theorem repeats_readFilters : Repeats readText readFilters where
  shortens h := by
    have := length_of_readText h
    omega
  unfolds body := by
    rw [readFilters]
    split
    next => rfl
    next =>
      split
      next h => rw [h]; rfl
      next rest h =>
        cases hs : readFilters rest <;> simp [h, hs, bind, Except.bind]

def readRequest : Reader (String × UInt8) := fun body => do
  let (filter, body) ← readText body
  let (qos, body) ← readByte body
  if 2 < qos then .error (.invalidQos qos) else .ok ((filter, qos), body)

theorem length_of_readRequest {body rest : Bytes} {a : String × UInt8}
    (h : readRequest body = .ok (a, rest)) : rest.length < body.length := by
  rw [readRequest] at h
  cases hs : readText body with
  | error => simp [hs, bind, Except.bind] at h
  | ok r =>
    have hr := length_of_readText hs
    cases hq : readByte r.2 with
    | error => simp [hs, hq, bind, Except.bind] at h
    | ok q =>
      have := length_of_readByte hq
      simp only [hs, hq, bind, Except.bind] at h
      split at h
      · cases h
      · cases h
        omega

theorem repeats_readRequests : Repeats readRequest readRequests where
  shortens := length_of_readRequest
  unfolds body := by
    rw [readRequests, readRequest]
    split
    next => rfl
    next =>
      split
      next h => rw [h]; rfl
      next rest h =>
        split
        next hq => simp [h, hq, bind, Except.bind]
        next qos after hq =>
          by_cases h2 : 2 < qos
          · simp [h, hq, h2, bind, Except.bind]
          · cases hs : readRequests after <;> simp [h, hq, h2, hs, bind, Except.bind]

theorem Repeats.flatMap {r : Reader α} {f : Bytes → Except ProtocolError (List α)}
    (h : Repeats r f) {w : α → Bytes} {as : List α} (has : ∀ a ∈ as, Reads r (w a) a) :
    f (as.flatMap w) = .ok as := by
  induction as with
  | nil => simp [h.unfolds]
  | cons a as ih =>
    have ha := has a List.mem_cons_self
    have hne : (w a ++ as.flatMap w).isEmpty = false := by
      have := h.shortens (ha (as.flatMap w))
      cases hw : w a ++ as.flatMap w with
      | nil => simp [hw] at this
      | cons => rfl
    rw [List.flatMap_cons, h.unfolds, hne, if_neg Bool.false_ne_true, ha.then_eq]
    dsimp only
    rw [ih fun b hb => has b (List.mem_cons_of_mem a hb)]
    rfl

end Items

section Parses

def ProtocolError.ofLength : ProtocolError → Bool
  | .malformedRemainingLength => true
  | .packetTooLarge _ => true
  | _ => false

/-- `x` gives what satisfies `P`, or it fails and not for a length. -/
def Parses (P : α → Prop) : Except ProtocolError α → Prop
  | .ok a => P a
  | .error e => e.ofLength = false

namespace Parses

variable {P : α → Prop} {Q : β → Prop} {x y : Except ProtocolError α}

theorem bind {f : α → Except ProtocolError β} (hx : Parses P x) (hf : ∀ a, P a → Parses Q (f a)) :
    Parses Q (x >>= f) := by
  cases x with
  | ok a => exact hf a hx
  | error e => exact hx

theorem ite {c : Prop} [Decidable c] (hx : c → Parses P x) (hy : ¬ c → Parses P y) :
    Parses P (if c then x else y) := by
  by_cases h : c
  · rw [if_pos h]
    exact hx h
  · rw [if_neg h]
    exact hy h

theorem byte (b : Bytes) : Parses (fun _ => True) (readByte b) := by
  cases b with
  | nil => exact rfl
  | cons => exact trivial

theorem word (b : Bytes) : Parses (fun _ => True) (readWord b) := by
  rw [readWord.eq_def]
  split
  · exact trivial
  · exact rfl

theorem sized (b : Bytes) : Parses (fun r => Sizable r.1) (readSized b) := by
  refine (word b).bind fun r _ => ite (fun _ => rfl) fun _ => ?_
  change (r.2.take r.1.toNat).length ≤ 65535
  have hn := r.1.toNat_lt
  have hle := List.length_take_le r.1.toNat r.2
  omega

theorem text (b : Bytes) : Parses (fun r => Sizable (.ofString r.1)) (readText b) := by
  refine (sized b).bind fun r hr => ?_
  dsimp only
  split
  next s hs =>
    change Sizable (.ofString s)
    rwa [Bytes.ofString_of_toString? hs]
  next => exact rfl

theorem readIf (P : α → Prop) {r : Reader α} (hr : ∀ b, Parses (fun a => P a.1) (r b))
    (present : Bool) (b : Bytes) :
    Parses (fun o => o.1.isSome = present ∧ ∀ a ∈ o.1, P a) (readIf present r b) := by
  refine ite (fun h => (hr b).bind fun a ha => ?_) fun h => ?_
  · refine ⟨h.symm, fun c hc => ?_⟩
    cases hc
    exact ha
  · exact ⟨by simpa using h, fun c hc => by cases hc⟩

theorem repeats (P : α → Prop) {r : Reader α} {f : Bytes → Except ProtocolError (List α)}
    (h : Repeats r f) (hr : ∀ b, Parses (fun a => P a.1) (r b)) (b : Bytes) :
    Parses (fun as => ∀ a ∈ as, P a) (f b) := by
  induction hn : b.length using Nat.strongRecOn generalizing b with
  | ind n ih =>
    subst hn
    rw [h.unfolds]
    refine ite (fun _ => fun a ha => by cases ha) fun _ => ?_
    have hb := hr b
    cases hread : r b with
    | error e =>
      rw [hread] at hb
      exact hb
    | ok found =>
      rw [hread] at hb
      refine (ih _ (h.shortens hread) found.2 rfl).bind fun as has => ?_
      exact fun a ha => (List.mem_cons.mp ha).elim (fun he => he ▸ hb) (has a)

theorem nonEmpty (as : List α) : Parses (fun bs => bs ≠ [] ∧ bs = as) (nonEmpty as) :=
  ite (fun _ => rfl) fun h => ⟨fun he => h (List.isEmpty_iff.mpr he), rfl⟩

end Parses

end Parses

end Mqtt

end Arrivals
