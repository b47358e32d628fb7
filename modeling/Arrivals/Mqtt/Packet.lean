import Arrivals.Bytes

/-! The packets of MQTT 3.1.1 that a read-only broker and its clients exchange, and what can be
wrong with their bytes. -/

namespace Arrivals.Mqtt

inductive ReturnCode where
  | accepted
  | unacceptableProtocolVersion
  | identifierRejected
  | serverUnavailable
  | badUsernameOrPassword
  | notAuthorized
  deriving DecidableEq, Repr

namespace ReturnCode

def code : ReturnCode → UInt8
  | .accepted => 0
  | .unacceptableProtocolVersion => 1
  | .identifierRejected => 2
  | .serverUnavailable => 3
  | .badUsernameOrPassword => 4
  | .notAuthorized => 5

def all : List ReturnCode :=
  [.accepted, .unacceptableProtocolVersion, .identifierRejected, .serverUnavailable,
    .badUsernameOrPassword, .notAuthorized]

def ofCode? (n : UInt8) : Option ReturnCode := all.find? fun r => r.code = n

@[simp] theorem ofCode?_code (r : ReturnCode) : ofCode? r.code = some r := by cases r <;> decide

def name : ReturnCode → String
  | .accepted => "Accepted"
  | .unacceptableProtocolVersion => "UnacceptableProtocolVersion"
  | .identifierRejected => "IdentifierRejected"
  | .serverUnavailable => "ServerUnavailable"
  | .badUsernameOrPassword => "BadUsernameOrPassword"
  | .notAuthorized => "NotAuthorized"

end ReturnCode

structure Will where
  topic : String
  message : Bytes
  deriving DecidableEq, Repr

structure Connect where
  protocolName : String
  protocolLevel : UInt8
  clientId : String
  cleanSession : Bool
  /-- seconds; none are no limit -/
  keepAlive : UInt16
  will : Option Will
  username : Option String
  password : Option Bytes
  deriving DecidableEq, Repr

structure Publish where
  topic : String
  payload : Bytes
  qos : UInt8
  retain : Bool
  dup : Bool
  packetId : Option UInt16
  deriving DecidableEq, Repr

/-- A message that is sent once and not acknowledged. -/
def Publish.atMostOnce (topic : String) (payload : Bytes) : Publish :=
  ⟨topic, payload, 0, false, false, none⟩

inductive Packet where
  | connect (c : Connect)
  | connAck (sessionPresent : Bool) (code : ReturnCode)
  | publish (p : Publish)
  | subscribe (packetId : UInt16) (filters : List (String × UInt8))
  | subAck (packetId : UInt16) (codes : List UInt8)
  | unsubscribe (packetId : UInt16) (filters : List String)
  | unsubAck (packetId : UInt16)
  | pingReq
  | pingResp
  | disconnect
  deriving DecidableEq, Repr

inductive ProtocolError where
  | malformedRemainingLength
  | packetTooLarge (size : Nat)
  | unsupportedPacketType (type : Nat)
  | invalidFlags (type flags : Nat)
  | invalidQos (qos : UInt8)
  | reservedConnectFlag
  | unknownReturnCode (code : UInt8)
  | invalidUtf8
  | truncated
  | noTopicFilters
  deriving DecidableEq, Repr

namespace ProtocolError

def name : ProtocolError → String
  | .malformedRemainingLength => "MalformedRemainingLength"
  | .packetTooLarge _ => "PacketTooLarge"
  | .unsupportedPacketType _ => "UnsupportedPacketType"
  | .invalidFlags _ _ => "InvalidFlags"
  | .invalidQos _ => "InvalidQos"
  | .reservedConnectFlag => "ReservedConnectFlag"
  | .unknownReturnCode _ => "UnknownReturnCode"
  | .invalidUtf8 => "InvalidUtf8"
  | .truncated => "Truncated"
  | .noTopicFilters => "NoTopicFilters"

def nibble (n : Nat) : String :=
  String.ofList ([8, 4, 2, 1].map fun b => Text.digitChar (n / b % 2))

def message : ProtocolError → String
  | .malformedRemainingLength => "malformed remaining length"
  | .packetTooLarge n => "packet of " ++ toString n ++ " bytes exceeds the limit"
  | .unsupportedPacketType t => "unsupported packet type " ++ toString t
  | .invalidFlags t flags =>
    "invalid fixed header flags 0b" ++ nibble flags ++ " for packet type " ++ toString t
  | .invalidQos q => "invalid QoS level " ++ toString q.toNat
  | .reservedConnectFlag => "reserved connect flag set"
  | .unknownReturnCode c => "unknown connect return code " ++ toString c.toNat
  | .invalidUtf8 => "string is not valid UTF-8"
  | .truncated => "packet body ended early"
  | .noTopicFilters => "subscription packet without topic filters"

end ProtocolError

def protocolName : String := "MQTT"
def protocolLevel : UInt8 := 4

def subscriptionFailure : UInt8 := 0x80

end Arrivals.Mqtt
