import Arrivals.Json.Draft

/-! Reading values of known shapes from a draft. A record is an object, whose unknown members are
passed over, or an array of its fields in order; a choice is the name of a case or an object with
that one name. The fault reported is the first in reading order. -/

namespace Arrivals.Json

namespace Draft

mutual

def skip : Draft → Option Fault
  | .null => none
  | .bool _ => none
  | .number _ f => f
  | .str q => q.skip
  | .arr items f => (skipItems items).or f
  | .obj members f => (skipMembers members).or f
  | .keyless members next => (skipMembers members).or (some next.keyFault)
  | .word _ f => some f
  | .absent f => some f

def skipItems : List Draft → Option Fault
  | [] => none
  | v :: rest => v.skip.or (skipItems rest)

def skipMembers : List (Quote × Draft) → Option Fault
  | [] => none
  | (key, v) :: rest => (key.skip.or v.skip).or (skipMembers rest)

def keyFault : Draft → Fault
  | .absent f => f
  | _ => .malformed

end

/-- The fault of a value of another shape than wanted: numbers, strings and words are read first. -/
def mismatch : Draft → Fault
  | .number (.error f) _ => f
  | .str ⟨.error f, _⟩ => f
  | .word _ f => f
  | .absent f => f
  | _ => .unfit

def text : Draft → Except Fault String
  | .str q => q.read
  | d => .error d.mismatch

def boolean : Draft → Except Fault Bool
  | .bool b => .ok b
  | d => .error d.mismatch

def unit : Draft → Except Fault Unit
  | .null => .ok ⟨⟩
  | d => .error d.mismatch

def integer (least greatest : Int) : Draft → Except Fault Int
  | .number (.ok (.whole n)) _ =>
    if least ≤ n && n ≤ greatest then .ok n else .error .unfit
  | d => .error d.mismatch

def int32 (d : Draft) : Except Fault Int32 :=
  (d.integer (-2147483648) 2147483647).map Int32.ofInt

def int64 (d : Draft) : Except Fault Int64 :=
  (d.integer (-9223372036854775808) 9223372036854775807).map Int64.ofInt

def uint32 (d : Draft) : Except Fault UInt32 :=
  (d.integer 0 4294967295).map fun n => UInt32.ofNat n.toNat

def uint64 (d : Draft) : Except Fault UInt64 :=
  (d.integer 0 18446744073709551615).map fun n => UInt64.ofNat n.toNat

def single : Draft → Except Fault Single
  | .number (.ok n) _ => .ok n.toSingle
  | d => .error d.mismatch

def optional (f : Draft → Except Fault α) : Draft → Except Fault (Option α)
  | .null => .ok none
  | .word letter fault =>
    if letter = 'n' then .error fault else (f (.word letter fault)).map some
  | d => (f d).map some

def list (f : Draft → Except Fault α) : Draft → Except Fault (List α)
  | .arr items fault => do
    let values ← items.mapM f
    match fault with
    | some e => .error e
    | none => .ok values
  | d => .error d.mismatch

/-- The one case that an object names, with its content; nothing may follow it. -/
def soleMember (members : List (Quote × Draft)) (fault : Option Fault)
    (choose : String → Draft → Except Fault α) : Except Fault α :=
  match members with
  | [] => .error (fault.getD .malformed)
  | (key, v) :: rest => do
    let name ← key.read
    let a ← choose name v
    match rest, fault with
    | _ :: _, _ => .error .malformed
    | [], some e => .error e
    | [], none => .ok a

/-- A choice among cases. `plain` gives the case that a bare name stands for, `tagged` that of a
name with content. -/
def choice (plain : String → Except Fault α) (tagged : String → Draft → Except Fault α) :
    Draft → Except Fault α
  | .str q => q.read.bind plain
  | .obj members fault => soleMember members fault tagged
  | .keyless [] next => .error next.mismatch
  | .keyless members _ => soleMember members (some .malformed) tagged
  | .absent f => .error f
  | _ => .error .malformed

def oneOf (names : List (String × α)) : Draft → Except Fault α :=
  let look (name : String) : Except Fault α :=
    match names.lookup name with
    | some a => .ok a
    | none => .error .unfit
  choice look fun name content => do
    let a ← look name
    content.unit
    pure a

end Draft

/-- Whether a field may be left out: an optional one of an object alone, a defaulted one also at
the end of an array. -/
inductive Need where
  | required
  | optional
  | defaulted
  deriving DecidableEq, Repr

structure FieldSpec where
  name : String
  need : Need
  check : Draft → Option Fault

abbrev Record := List (String × Draft)

def faultOf : Except Fault α → Option Fault
  | .error f => some f
  | .ok _ => none

namespace FieldSpec

def required (name : String) (f : Draft → Except Fault α) : FieldSpec :=
  ⟨name, .required, fun d => faultOf (f d)⟩

def optional (name : String) (f : Draft → Except Fault α) : FieldSpec :=
  ⟨name, .optional, fun d => faultOf (d.optional f)⟩

def defaulted (name : String) (f : Draft → Except Fault α) : FieldSpec :=
  ⟨name, .defaulted, fun d => faultOf (f d)⟩

def verify (field : FieldSpec) (d : Draft) : Except Fault Unit :=
  match field.check d with
  | some f => .error f
  | none => .ok ⟨⟩

end FieldSpec

namespace Record

/-- Goes through the members of an object. A known name may come once. -/
def ofMembers (layout : List FieldSpec) (found : Record) :
    List (Quote × Draft) → Except Fault Record
  | [] => .ok found
  | (key, v) :: rest => do
    let name ← key.read
    match layout.find? fun field => field.name = name with
    | some field =>
      if (found.lookup name).isSome then .error .unfit
      else
        field.verify v
        ofMembers layout (found ++ [(name, v)]) rest
    | none =>
      match v.skip with
      | some f => .error f
      | none => ofMembers layout found rest

/-- Goes through the items of an array, one for each field in turn. -/
def ofItems (fault : Option Fault) : List FieldSpec → List Draft → Except Fault Record
  | [], [] =>
    match fault with
    | some f => .error f
    | none => .ok []
  | [], _ :: _ => .error .malformed
  | field :: layout, [] =>
    match fault with
    | some f => .error f
    | none => if field.need = .defaulted then ofItems fault layout [] else .error .unfit
  | field :: layout, v :: rest => do
    field.verify v
    let found ← ofItems fault layout rest
    pure ((field.name, v) :: found)

def complete (layout : List FieldSpec) (found : Record) : Except Fault Record :=
  if layout.all fun field => field.need != .required || (found.lookup field.name).isSome
  then .ok found
  else .error .unfit

def read (layout : List FieldSpec) : Draft → Except Fault Record
  | .obj members fault => do
    let found ← ofMembers layout [] members
    match fault with
    | some f => .error f
    | none => complete layout found
  | .keyless members next => do
    let _ ← ofMembers layout [] members
    .error next.keyFault
  | .arr items fault => ofItems fault layout items
  | d => .error d.mismatch

def get (r : Record) (name : String) (f : Draft → Except Fault α) : Except Fault α :=
  match r.lookup name with
  | some d => f d
  | none => .error .unfit

def getOptional (r : Record) (name : String) (f : Draft → Except Fault α) :
    Except Fault (Option α) :=
  match r.lookup name with
  | some d => d.optional f
  | none => .ok none

def getD (r : Record) (name : String) (f : Draft → Except Fault α) (a : α) : Except Fault α :=
  match r.lookup name with
  | some d => f d
  | none => .ok a

end Record

/-- Reads a whole text: nothing but blanks may follow the value. -/
def decode (f : Draft → Except Fault α) (s : String) : Except Fault α := do
  let (d, rest) := Draft.parse s.toList
  let a ← f d
  if (dropSpaces rest).isEmpty then pure a else .error .malformed

end Arrivals.Json
