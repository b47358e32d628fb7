import Arrivals.Number.Single
import Arrivals.Text.Joined

/-! JSON values and their compact text. Fields keep their order; only quotes, backslashes and
control characters are escaped. -/

namespace Arrivals

inductive Json where
  | null
  | bool (b : Bool)
  | int (n : Int)
  | real (x : Single)
  | str (s : String)
  | arr (items : List Json)
  | obj (fields : List (String × Json))
  deriving Inhabited

namespace Json

def ofOption (f : α → Json) : Option α → Json
  | none => .null
  | some a => f a

def escape (c : Char) : List Char :=
  if c = '"' then ['\\', '"']
  else if c = '\\' then ['\\', '\\']
  else if c = '\n' then ['\\', 'n']
  else if c = '\r' then ['\\', 'r']
  else if c = '\t' then ['\\', 't']
  else if c.toNat = 8 then ['\\', 'b']
  else if c.toNat = 12 then ['\\', 'f']
  else if c.toNat < 32 then '\\' :: 'u' :: Text.paddedHex 4 c.toNat
  else [c]

def quoted (s : String) : List Char := '"' :: (s.toList.flatMap escape ++ ['"'])

mutual

def chars : Json → List Char
  | .null => ['n', 'u', 'l', 'l']
  | .bool true => ['t', 'r', 'u', 'e']
  | .bool false => ['f', 'a', 'l', 's', 'e']
  | .int n => Text.signed n
  | .real x => x.text?.getD ['n', 'u', 'l', 'l']
  | .str s => quoted s
  | .arr items => '[' :: (Text.joined ',' (itemChars items) ++ [']'])
  | .obj fields => '{' :: (Text.joined ',' (fieldChars fields) ++ ['}'])

def itemChars : List Json → List (List Char)
  | [] => []
  | v :: rest => chars v :: itemChars rest

def fieldChars : List (String × Json) → List (List Char)
  | [] => []
  | (name, v) :: rest => (quoted name ++ ':' :: chars v) :: fieldChars rest

end

def render (v : Json) : String := String.ofList v.chars

end Json

end Arrivals
