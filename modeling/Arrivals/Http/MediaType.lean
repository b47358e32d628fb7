import Arrivals.Text.Digits

/-! Media types as in the header `Content-Type`: a type and a subtype of token characters, then
parameters. A suffix of the subtype follows its last plus sign. -/

namespace Arrivals.Http

structure MediaType where
  type : List Char
  subtype : List Char
  suffix : Option (List Char)
  deriving DecidableEq, Repr

namespace MediaType

def isTokenChar (c : Char) : Bool :=
  c.isAlphanum || ['!', '#', '$', '%', '&', '\x27', '*', '+', '-', '.', '^', '_', '\x60', '|',
    '~'].contains c

def isQuotedChar (c : Char) : Bool := 31 < c.toNat && c.toNat < 127

def afterQuoted (s : List Char) : Option (List Char) :=
  match s.dropWhile (· = ' ') with
  | [] => some []
  | ';' :: rest => some rest
  | _ => none

def readValue (s : List Char) : Option (List Char) :=
  match s with
  | '"' :: c :: rest =>
    if isQuotedChar c then
      match rest.dropWhile fun d => d != '"' && isQuotedChar d with
      | '"' :: after => afterQuoted after
      | _ => none
    else none
  | s =>
    match s, s.dropWhile isTokenChar with
    | _, [] => some []
    | first, ';' :: rest => if first.head? = some ';' then none else some rest
    | _, _ => none

/-- Whether a list of parameters is well formed. At most `fuel` of them are looked at. -/
def validParameters : Nat → List Char → Bool
  | 0, s => s.isEmpty
  | fuel + 1, s =>
    match s.dropWhile (· = ' ') with
    | [] => true
    | name =>
      match name.dropWhile isTokenChar with
      | '=' :: value =>
        name.head? != some '=' &&
          match readValue value with
          | some rest => validParameters fuel rest
          | none => false
      | _ => false

def splitSuffix (s : List Char) : List Char × Option (List Char) :=
  let suffix := (s.reverse.takeWhile (· != '+')).reverse
  let stem := s.take (s.length - suffix.length - 1)
  if s.contains '+' && !stem.isEmpty then (stem, some suffix) else (s, none)

def parse? (s : List Char) : Option MediaType :=
  let s := s.map Char.toLower
  let type := s.takeWhile isTokenChar
  match s.dropWhile isTokenChar with
  | '/' :: rest =>
    let subtype := rest.takeWhile isTokenChar
    let parts := splitSuffix subtype
    let found : MediaType := ⟨type, parts.1, parts.2⟩
    if type.isEmpty then none
    else
      match rest.dropWhile isTokenChar with
      | [] => some found
      | ';' :: parameters =>
        if !subtype.isEmpty && validParameters (parameters.length + 1) parameters then some found
        else none
      | _ => none
  | _ => none

def jsonName : List Char := ['j', 's', 'o', 'n']

/-- JSON itself and the formats built on it. -/
def isJson (m : MediaType) : Bool :=
  m.type = ['a', 'p', 'p', 'l', 'i', 'c', 'a', 't', 'i', 'o', 'n'] &&
    (m.subtype = jsonName || m.suffix = some jsonName)

end MediaType

end Arrivals.Http
