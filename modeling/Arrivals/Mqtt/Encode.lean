import Arrivals.Mqtt.Packet

/-! The bytes of a packet. A string longer than its two-byte length can say is cut. -/

namespace Arrivals.Mqtt

def greatestRemaining : Nat := 268435455

def word (n : UInt16) : Bytes := Bytes.bigEndian 2 n.toNat

def sized (b : Bytes) : Bytes :=
  let kept := b.take 65535
  Bytes.bigEndian 2 kept.length ++ kept

def sizedText (s : String) : Bytes := sized (Bytes.ofString s)

def orEmpty (f : α → Bytes) : Option α → Bytes
  | none => []
  | some a => f a

def flagBit (b : Bool) (bit : UInt8) : UInt8 := if b then bit else 0

namespace Connect

def flags (c : Connect) : UInt8 :=
  flagBit c.cleanSession 0x02 ||| flagBit c.will.isSome 0x04 ||| flagBit c.password.isSome 0x40 |||
    flagBit c.username.isSome 0x80

def body (c : Connect) : Bytes :=
  sizedText c.protocolName ++ [c.protocolLevel, c.flags] ++ word c.keepAlive ++
    sizedText c.clientId ++ orEmpty (fun w => sizedText w.topic ++ sized w.message) c.will ++
    orEmpty sizedText c.username ++ orEmpty sized c.password

end Connect

namespace Packet

def header : Packet → UInt8
  | .connect _ => 0x10
  | .connAck _ _ => 0x20
  | .publish p => (0x30 : UInt8) ||| flagBit p.dup 8 ||| (p.qos <<< 1) ||| flagBit p.retain 1
  | .subscribe _ _ => 0x82
  | .subAck _ _ => 0x90
  | .unsubscribe _ _ => 0xa2
  | .unsubAck _ => 0xb0
  | .pingReq => 0xc0
  | .pingResp => 0xd0
  | .disconnect => 0xe0

def body : Packet → Bytes
  | .connect c => c.body
  | .connAck present code => [flagBit present 1, code.code]
  | .publish p => sizedText p.topic ++ orEmpty word p.packetId ++ p.payload
  | .subscribe id filters => word id ++ filters.flatMap fun f => sizedText f.1 ++ [f.2]
  | .subAck id codes => word id ++ codes
  | .unsubscribe id filters => word id ++ filters.flatMap sizedText
  | .unsubAck id => word id
  | .pingReq => []
  | .pingResp => []
  | .disconnect => []

def encode (p : Packet) : Bytes :=
  p.header :: (Bytes.base128 (min p.body.length greatestRemaining) ++ p.body)

end Packet

end Arrivals.Mqtt
