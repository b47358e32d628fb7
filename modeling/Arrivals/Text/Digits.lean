/-! Decimal and hexadecimal numerals as lists of characters. -/

namespace Arrivals.Text

def isDigit (c : Char) : Bool := '0' ≤ c && c ≤ '9'

def digitValue (c : Char) : Nat := c.toNat - 48

def digitChar (d : Nat) : Char := Char.ofNat (48 + d)

def numeral (ds : List Char) : Nat := ds.foldl (fun n c => 10 * n + digitValue c) 0

/-- The leading digits of a text, at most so many, and the rest. -/
def splitDigits : Nat → List Char → List Char × List Char
  | 0, s => ([], s)
  | _ + 1, [] => ([], [])
  | most + 1, c :: s =>
    if isDigit c then
      let (ds, rest) := splitDigits most s
      (c :: ds, rest)
    else ([], c :: s)

/-- A numeral of one to `most` digits at the front of a text. -/
def readNumeral (most : Nat) (s : List Char) : Option (Nat × List Char) :=
  match splitDigits most s with
  | ([], _) => none
  | (ds, rest) => some (numeral ds, rest)

def padded : Nat → Nat → List Char
  | 0, _ => []
  | width + 1, n => padded width (n / 10) ++ [digitChar (n % 10)]

def decimal (n : Nat) : List Char := Nat.toDigits 10 n

def signed (n : Int) : List Char :=
  if n < 0 then '-' :: decimal n.natAbs else decimal n.natAbs

theorem padded_length (width n : Nat) : (padded width n).length = width := by
  induction width generalizing n <;> simp_all [padded]

def lowerHexDigit (d : Nat) : Char := Char.ofNat (if d < 10 then 48 + d else 87 + d)

def hexValue? (c : Char) : Option Nat :=
  let n := c.toNat
  if 48 ≤ n && n ≤ 57 then some (n - 48)
  else if 97 ≤ n && n ≤ 102 then some (n - 87)
  else if 65 ≤ n && n ≤ 70 then some (n - 55)
  else none

/-- The last `width` hexadecimal digits of a number, in lower case. -/
def paddedHex : Nat → Nat → List Char
  | 0, _ => []
  | width + 1, n => paddedHex width (n / 16) ++ [lowerHexDigit (n % 16)]

end Arrivals.Text
