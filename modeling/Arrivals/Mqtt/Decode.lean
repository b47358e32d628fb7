import Arrivals.Mqtt.Packet

/-! Taking packets off the front of a buffer. A packet that is not all there, or whose length is
faulty, leaves the buffer alone; one with a faulty body is taken off with it. -/

namespace Arrivals.Mqtt

/-- A reader takes its value off the front of a body. -/
abbrev Reader (α : Type) := Bytes → Except ProtocolError (α × Bytes)

def readByte : Reader UInt8
  | [] => .error .truncated
  | b :: rest => .ok (b, rest)

def readWord : Reader UInt16
  | a :: b :: rest => .ok (UInt16.ofNat (a.toNat * 256 + b.toNat), rest)
  | _ => .error .truncated

def readSized : Reader Bytes := fun body => do
  let (n, rest) ← readWord body
  if (rest.take n.toNat).length < n.toNat then .error .truncated
  else .ok (rest.take n.toNat, rest.drop n.toNat)

def readText : Reader String := fun body => do
  let (b, rest) ← readSized body
  match Bytes.toString? b with
  | some s => .ok (s, rest)
  | none => .error .invalidUtf8

def readIf (present : Bool) (r : Reader α) : Reader (Option α) := fun body =>
  if present then do
    let (a, rest) ← r body
    .ok (some a, rest)
  else .ok (none, body)

theorem length_of_readByte {body rest : Bytes} {b : UInt8} (h : readByte body = .ok (b, rest)) :
    rest.length + 1 = body.length := by
  cases body <;> simp_all [readByte]

theorem length_of_readWord {body rest : Bytes} {n : UInt16} (h : readWord body = .ok (n, rest)) :
    rest.length + 2 = body.length := by
  unfold readWord at h
  split at h <;> simp_all

theorem length_of_readText {body rest : Bytes} {s : String} (h : readText body = .ok (s, rest)) :
    rest.length + 2 ≤ body.length := by
  unfold readText readSized at h
  cases hw : readWord body with
  | error e => simp [hw, bind, Except.bind] at h
  | ok r =>
    have hl := @length_of_readWord body r.2 r.1 hw
    simp only [hw, bind, Except.bind] at h
    split at h
    · simp at h
    · rename_i v hv
      split at hv
      · simp at hv
      · injection hv with hv
        subst hv
        split at h
        · simp only [Except.ok.injEq, Prod.mk.injEq] at h
          rw [← h.2, List.length_drop]
          omega
        · simp at h

def readFilters (body : Bytes) : Except ProtocolError (List String) :=
  if body.isEmpty then .ok []
  else
    match h : readText body with
    | .error e => .error e
    | .ok (s, rest) =>
      have := length_of_readText h
      match readFilters rest with
      | .error e => .error e
      | .ok ss => .ok (s :: ss)
termination_by body.length

def readRequests (body : Bytes) : Except ProtocolError (List (String × UInt8)) :=
  if body.isEmpty then .ok []
  else
    match h : readText body with
    | .error e => .error e
    | .ok (s, rest) =>
      match hq : readByte rest with
      | .error e => .error e
      | .ok (qos, after) =>
        have := length_of_readText h
        have := length_of_readByte hq
        if 2 < qos then .error (.invalidQos qos)
        else
          match readRequests after with
          | .error e => .error e
          | .ok ss => .ok ((s, qos) :: ss)
termination_by body.length

def nonEmpty (filters : List α) : Except ProtocolError (List α) :=
  if filters.isEmpty then .error .noTopicFilters else .ok filters

def hasBit (flags bit : UInt8) : Bool := flags &&& bit != 0

namespace Connect

def ofBody? (body : Bytes) : Except ProtocolError Connect := do
  let (protocolName, body) ← readText body
  let (protocolLevel, body) ← readByte body
  let (flags, body) ← readByte body
  if hasBit flags 0x01 then .error .reservedConnectFlag
  else
    let (keepAlive, body) ← readWord body
    let (clientId, body) ← readText body
    let (will, body) ← readIf (hasBit flags 0x04) (fun body => do
      let (topic, body) ← readText body
      let (message, body) ← readSized body
      .ok (Will.mk topic message, body)) body
    let (username, body) ← readIf (hasBit flags 0x80) readText body
    let (password, _) ← readIf (hasBit flags 0x40) readSized body
    .ok ⟨protocolName, protocolLevel, clientId, hasBit flags 0x02, keepAlive, will, username,
      password⟩

end Connect

def Publish.ofBody? (flags : UInt8) (body : Bytes) : Except ProtocolError Publish := do
  let qos := (flags >>> 1) &&& 3
  if qos = 3 then .error (.invalidQos qos)
  else
    let (topic, body) ← readText body
    let (packetId, payload) ← readIf (0 < qos) readWord body
    .ok ⟨topic, payload, qos, hasBit flags 0x01, hasBit flags 0x08, packetId⟩

namespace Packet

def ofBody? (type flags : UInt8) (body : Bytes) : Except ProtocolError Packet :=
  let withFlags (expected : UInt8) (r : Except ProtocolError Packet) :=
    if flags = expected then r else .error (.invalidFlags type.toNat flags.toNat)
  match type.toNat with
  | 1 => withFlags 0 do return .connect (← Connect.ofBody? body)
  | 2 => withFlags 0 do
    let (present, body) ← readByte body
    let (code, _) ← readByte body
    match ReturnCode.ofCode? code with
    | some r => .ok (.connAck (hasBit present 0x01) r)
    | none => .error (.unknownReturnCode code)
  | 3 => do return .publish (← Publish.ofBody? flags body)
  | 8 => withFlags 2 do
    let (id, body) ← readWord body
    let filters ← readRequests body
    return .subscribe id (← nonEmpty filters)
  | 9 => withFlags 0 do
    let (id, codes) ← readWord body
    return .subAck id codes
  | 10 => withFlags 2 do
    let (id, body) ← readWord body
    let filters ← readFilters body
    return .unsubscribe id (← nonEmpty filters)
  | 11 => withFlags 0 do
    let (id, _) ← readWord body
    return .unsubAck id
  | 12 => withFlags 0 (.ok .pingReq)
  | 13 => withFlags 0 (.ok .pingResp)
  | 14 => withFlags 0 (.ok .disconnect)
  | other => .error (.unsupportedPacketType other)

end Packet

/-- The remaining length at the front of a buffer and the bytes behind it; none while it is not all
there. At most `room` bytes belong to it. -/
def readRemaining : Nat → Bytes → Except ProtocolError (Option (Nat × Bytes))
  | 0, _ => .error .malformedRemainingLength
  | _ + 1, [] => .ok none
  | room + 1, b :: rest =>
    if b < 128 then .ok (some (b.toNat, rest))
    else
      match readRemaining room rest with
      | .error e => .error e
      | .ok none => .ok none
      | .ok (some (n, after)) => .ok (some (b.toNat - 128 + 128 * n, after))

/-- What becomes of a buffer when a packet is wanted. -/
inductive Decoded where
  | incomplete
  | packet (p : Packet) (rest : Bytes)
  | failed (e : ProtocolError) (rest : Bytes)
  deriving DecidableEq, Repr

def decode (limit : Nat) (buffer : Bytes) : Decoded :=
  match buffer with
  | [] => .incomplete
  | first :: rest =>
    match readRemaining 4 rest with
    | .error e => .failed e buffer
    | .ok none => .incomplete
    | .ok (some (n, after)) =>
      if limit < n then .failed (.packetTooLarge n) buffer
      else if (after.take n).length < n then .incomplete
      else
        match Packet.ofBody? (first >>> 4) (first &&& 15) (after.take n) with
        | .ok p => .packet p (after.drop n)
        | .error e => .failed e (after.drop n)

theorem length_of_readRemaining {room n : Nat} {b after : Bytes}
    (h : readRemaining room b = .ok (some (n, after))) : after.length < b.length := by
  induction room generalizing b n after with
  | zero => simp [readRemaining] at h
  | succ room ih =>
    cases b with
    | nil => simp [readRemaining] at h
    | cons x rest =>
      unfold readRemaining at h
      split at h
      · simp only [Except.ok.injEq, Option.some.injEq, Prod.mk.injEq] at h
        simp [h.2]
      · split at h
        · simp at h
        · simp at h
        · rename_i m tail hr
          simp only [Except.ok.injEq, Option.some.injEq, Prod.mk.injEq] at h
          have := ih hr
          rw [← h.2]
          simp only [List.length_cons]
          omega

theorem length_of_decode {limit : Nat} {buffer rest : Bytes} {p : Packet}
    (h : decode limit buffer = .packet p rest) : rest.length < buffer.length := by
  unfold decode at h
  split at h
  · simp at h
  · split at h
    · simp at h
    · simp at h
    · rename_i n after hr
      split at h
      · simp at h
      · split at h
        · simp at h
        · split at h
          · simp only [Decoded.packet.injEq] at h
            have := length_of_readRemaining hr
            rw [← h.2, List.length_drop]
            simp only [List.length_cons]
            omega
          · simp at h

structure Drained where
  packets : List Packet
  rest : Bytes
  error : Option ProtocolError
  deriving DecidableEq, Repr

def drain (limit : Nat) (buffer : Bytes) : Drained :=
  match h : decode limit buffer with
  | .incomplete => ⟨[], buffer, none⟩
  | .failed e rest => ⟨[], rest, some e⟩
  | .packet p rest =>
    have := length_of_decode h
    let d := drain limit rest
    { d with packets := p :: d.packets }
termination_by buffer.length

def drainChunks (limit : Nat) (buffer : Bytes) : List Bytes → List Drained
  | [] => []
  | chunk :: chunks =>
    let d := drain limit (buffer ++ chunk)
    match d.error with
    | some _ => [d]
    | none => d :: drainChunks limit d.rest chunks

end Arrivals.Mqtt
