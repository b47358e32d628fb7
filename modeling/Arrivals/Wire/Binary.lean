import Arrivals.Wire.Field
import Arrivals.Wire.Message

/-! Messages in binary form. A field that has its default is left out, but one that may be absent is
written whenever it is present. Of several fields with one number the last counts, unknown fields are
passed over, and numbers are cut to their width. -/

namespace Arrivals.Wire

namespace Content

def text? : Content → Option String
  | .sized b => Bytes.toString? b
  | _ => none

def varint? : Content → Option Nat
  | .varint n => some n
  | _ => none

def uint32? (c : Content) : Option UInt32 := c.varint?.map UInt32.ofNat

def int64? (c : Content) : Option Int64 := c.varint?.map Int64.ofNat

def int32? (c : Content) : Option Int32 := c.varint?.map Int32.ofNat

def single? : Content → Option Single
  | .fixed32 n => some ⟨UInt32.ofNat n⟩
  | _ => none

def ofText (s : String) : Content := .sized (Bytes.ofString s)

/-- Negative numbers are written with 64 bits. -/
def ofInt (n : Int) : Content := .varint (n % 18446744073709551616).toNat

def ofInt64 (n : Int64) : Content := ofInt n.toInt

def ofInt32 (n : Int32) : Content := ofInt n.toInt

def ofUInt32 (n : UInt32) : Content := .varint n.toNat

def ofSingle (x : Single) : Content := .fixed32 x.bits.toNat

end Content

/-- A field, unless it has its default. -/
def unlessDefault (isDefault : Bool) (number : Nat) (c : Content) : List Field :=
  if isDefault then [] else [⟨number, c⟩]

def textField (number : Nat) (s : String) : List Field :=
  unlessDefault (s = "") number (.ofText s)

def optionalText (number : Nat) : Option String → List Field
  | none => []
  | some s => [⟨number, .ofText s⟩]

def uint32Field (number : Nat) (n : UInt32) : List Field :=
  unlessDefault (n = 0) number (.ofUInt32 n)

def int64Field (number : Nat) (n : Int64) : List Field :=
  unlessDefault (n = 0) number (.ofInt64 n)

def int32Field (number : Nat) (n : Int32) : List Field :=
  unlessDefault (n = 0) number (.ofInt32 n)

/-- Zero of either sign is the default. -/
def singleField (number : Nat) (x : Single) : List Field :=
  unlessDefault x.isZero number (.ofSingle x)

/-- How many groups a field of a message may stand in, by the depth of the message. -/
def groupDepth (messageDepth : Nat) : Nat := 100 - messageDepth

def mergeAll (merge : α → Field → Option α) (start : α) (fields : List Field) : Option α :=
  fields.foldlM merge start

def decodeWith (merge : α → Field → Option α) (messageDepth : Nat) (start : α) (b : Bytes) :
    Option α := do
  let fields ← readFields (groupDepth messageDepth) b
  mergeAll merge start fields

def Content.message? (merge : α → Field → Option α) (messageDepth : Nat) (start : α) :
    Content → Option α
  | .sized b => decodeWith merge messageDepth start b
  | _ => none

namespace Interval

def fields (i : Interval) : List Field := int64Field 1 i.lower ++ int64Field 2 i.upper

def merge (i : Interval) (f : Field) : Option Interval :=
  match f.number with
  | 1 => f.content.int64?.map fun n => { i with lower := n }
  | 2 => f.content.int64?.map fun n => { i with upper := n }
  | _ => some i

end Interval

namespace Value

def field : Value → Field
  | .single n => ⟨8, .ofInt64 n⟩
  | .interval i => ⟨9, .sized (encodeFields i.fields)⟩

/-- A second interval is merged into the first. -/
def mergeInterval (messageDepth : Nat) (v : Option Value) (c : Content) : Option Value :=
  let start := match v with
    | some (.interval i) => i
    | _ => ⟨0, 0⟩
  (c.message? Interval.merge messageDepth start).map .interval

end Value

namespace VehicleEta

def fields (m : VehicleEta) : List Field :=
  textField 1 m.station ++ textField 2 m.direction ++ uint32Field 3 m.rank ++
    int64Field 4 m.computed ++ uint32Field 5 m.validity ++ int32Field 6 m.kind ++
    int32Field 7 m.units ++ (m.value.map Value.field).toList ++ textField 10 m.vehicle ++
    uint32Field 11 m.cars ++ optionalText 12 m.platform

def encode (m : VehicleEta) : Bytes := encodeFields m.fields

def merge (messageDepth : Nat) (m : VehicleEta) (f : Field) : Option VehicleEta :=
  match f.number with
  | 1 => f.content.text?.map fun s => { m with station := s }
  | 2 => f.content.text?.map fun s => { m with direction := s }
  | 3 => f.content.uint32?.map fun n => { m with rank := n }
  | 4 => f.content.int64?.map fun n => { m with computed := n }
  | 5 => f.content.uint32?.map fun n => { m with validity := n }
  | 6 => f.content.int32?.map fun n => { m with kind := n }
  | 7 => f.content.int32?.map fun n => { m with units := n }
  | 8 => f.content.int64?.map fun n => { m with value := some (.single n) }
  | 9 => (Value.mergeInterval (messageDepth + 1) m.value f.content).map fun v =>
    { m with value := some v }
  | 10 => f.content.text?.map fun s => { m with vehicle := s }
  | 11 => f.content.uint32?.map fun n => { m with cars := n }
  | 12 => f.content.text?.map fun s => { m with platform := some s }
  | _ => some m

def decode (b : Bytes) : Option VehicleEta := decodeWith (merge 0) 0 .empty b

end VehicleEta

namespace VehiclePosition

def fields (m : VehiclePosition) : List Field :=
  textField 1 m.vehicle ++ textField 2 m.line ++ uint32Field 3 m.cars ++
    optionalText 4 m.previousStation ++ textField 5 m.nextStation ++ textField 6 m.direction ++
    optionalText 7 m.platform ++ singleField 8 m.percent ++ int64Field 9 m.computed ++
    uint32Field 10 m.validity

def encode (m : VehiclePosition) : Bytes := encodeFields m.fields

def merge (m : VehiclePosition) (f : Field) : Option VehiclePosition :=
  match f.number with
  | 1 => f.content.text?.map fun s => { m with vehicle := s }
  | 2 => f.content.text?.map fun s => { m with line := s }
  | 3 => f.content.uint32?.map fun n => { m with cars := n }
  | 4 => f.content.text?.map fun s => { m with previousStation := some s }
  | 5 => f.content.text?.map fun s => { m with nextStation := s }
  | 6 => f.content.text?.map fun s => { m with direction := s }
  | 7 => f.content.text?.map fun s => { m with platform := some s }
  | 8 => f.content.single?.map fun x => { m with percent := x }
  | 9 => f.content.int64?.map fun n => { m with computed := n }
  | 10 => f.content.uint32?.map fun n => { m with validity := n }
  | _ => some m

def decode (b : Bytes) : Option VehiclePosition := decodeWith merge 0 .empty b

end VehiclePosition

namespace EtaBatch

def fields (m : EtaBatch) : List Field := m.etas.map fun e => ⟨1, .sized e.encode⟩

def encode (m : EtaBatch) : Bytes := encodeFields m.fields

def merge (m : EtaBatch) (f : Field) : Option EtaBatch :=
  match f.number with
  | 1 => (f.content.message? (VehicleEta.merge 1) 1 .empty).map fun e => ⟨m.etas ++ [e]⟩
  | _ => some m

def decode (b : Bytes) : Option EtaBatch := decodeWith merge 0 ⟨[]⟩ b

end EtaBatch

namespace PositionBatch

def fields (m : PositionBatch) : List Field := m.positions.map fun p => ⟨1, .sized p.encode⟩

def encode (m : PositionBatch) : Bytes := encodeFields m.fields

def merge (m : PositionBatch) (f : Field) : Option PositionBatch :=
  match f.number with
  | 1 => (f.content.message? VehiclePosition.merge 1 .empty).map fun p => ⟨m.positions ++ [p]⟩
  | _ => some m

def decode (b : Bytes) : Option PositionBatch := decodeWith merge 0 ⟨[]⟩ b

end PositionBatch

end Arrivals.Wire
