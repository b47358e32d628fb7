import Arrivals.Number.Single
import Arrivals.Text.Digits

/-! The value of a JSON number. An integer of 64 bits is kept exactly; any other number becomes a
double. Its digits are taken into an integer for as long as they fit 64 bits, which is then scaled
by a rounded power of ten, so the double need not be the nearest one. -/

namespace Arrivals.Json

inductive Number where
  | whole (n : Int)
  | real (negative : Bool) (magnitude : Binary)
  deriving DecidableEq, Repr

namespace Number

structure Parts where
  negative : Bool
  whole : List Char
  fraction : Option (List Char)
  exponent : Option (Bool × List Char)

def greatestWord : Nat := 18446744073709551615

/-- Appends digits to an integer while it fits 64 bits; also the number of digits taken. -/
def absorb (m : Nat) : List Char → Nat × Nat
  | [] => (m, 0)
  | c :: rest =>
    let next := m * 10 + Text.digitValue c
    if greatestWord < next then (m, 0)
    else
      let (value, taken) := absorb next rest
      (value, taken + 1)

def powerOfTen (k : Nat) : Binary := Format.double.nearest (Nat.pow 10 k) 1

def scaleDown (a : Binary) (k : Nat) : Binary :=
  if k ≤ 308 then Format.double.quotient a (powerOfTen k)
  else if a.isZero then a
  else scaleDown (Format.double.quotient a (powerOfTen 308)) (k - 308)
termination_by k

/-- `m * 10 ^ e` in doubles, unless it is too great. -/
def scale (m : Nat) (e : Int) : Option Binary :=
  let a := Format.double.nearest m 1
  if e < 0 then some (scaleDown a (-e).toNat)
  else if 308 < e then if a.isZero then some a else none
  else
    let product := Format.double.round (a.mul (powerOfTen e.toNat))
    if Format.double.overflows product then none else some product

def clampWord (e : Int) : Int := max (-2147483648) (min 2147483647 e)

/-- No value for numbers too great for a double. -/
def ofParts (p : Parts) : Option Number :=
  let (m, taken) := absorb 0 p.whole
  let dropped := p.whole.length - taken
  match p.fraction, p.exponent with
  | none, none =>
    if dropped = 0 then
      if !p.negative then some (.whole m)
      else if m = 0 || 9223372036854775808 < m then
        some (.real true (Format.double.nearest m 1))
      else some (.whole (-m))
    else (scale m dropped).map (.real p.negative)
  | fraction, exponent =>
    let (m, shift) := match fraction with
      | none => (m, (dropped : Int))
      | some ds =>
        let (m, taken) := absorb m ds
        (m, (dropped : Int) - taken)
    match exponent with
    | none => (scale m shift).map (.real p.negative)
    | some (down, ds) =>
      let e := Text.numeral ds
      if 2147483647 < e then
        if m != 0 && !down then none else some (.real p.negative .zero)
      else
        (scale m (clampWord (if down then shift - e else shift + e))).map (.real p.negative)

def toSingle : Number → Single
  | .whole n => .ofInt n
  | .real negative a => .ofMagnitude negative a

end Number

end Arrivals.Json
