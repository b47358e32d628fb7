import Arrivals.Number.Binary
import Arrivals.Text.Digits

/-! Single-precision numbers by their 32 bits, and the shortest decimal text that reads back as the
same number. -/

namespace Arrivals

structure Single where
  bits : UInt32
  deriving DecidableEq, Repr, Inhabited

namespace Single

def zero : Single := ⟨0⟩

def sign (x : Single) : Bool := 0x80000000 ≤ x.bits.toNat

def magnitudeBits (x : Single) : Nat := x.bits.toNat % 0x80000000

def isFinite (x : Single) : Bool := x.magnitudeBits < 0x7f800000

def isZero (x : Single) : Bool := x.magnitudeBits == 0

def magnitude (x : Single) : Binary :=
  let biased := x.magnitudeBits / 0x800000
  let fraction := x.magnitudeBits % 0x800000
  if biased == 0 then ⟨fraction, -149⟩ else ⟨0x800000 + fraction, (biased : Int) - 150⟩

def magnitudeBitsOf (a : Binary) : Nat :=
  let carried := a.mantissa.natAbs == 0x1000000
  let m := if carried then 0x800000 else a.mantissa.natAbs
  let e := if carried then a.exponent + 1 else a.exponent
  if m < 0x800000 then m
  else if Format.single.greatest < e then 0x7f800000
  else (e + 150).toNat * 0x800000 + (m - 0x800000)

def ofMagnitude (negative : Bool) (a : Binary) : Single :=
  let m := magnitudeBitsOf (Format.single.round ⟨a.mantissa.natAbs, a.exponent⟩)
  ⟨UInt32.ofNat (if negative then 0x80000000 + m else m)⟩

def ofBinary (a : Binary) : Single := ofMagnitude (a.mantissa < 0) a

def ofInt (n : Int) : Single := ofBinary (.ofInt n)

end Single

/-! The digits of the shortest text are those of the decimal with the fewest digits among all that
lie nearer to the number than to its neighbours; of several the nearest. -/

namespace Decimal

structure Numeral where
  coefficient : Nat
  exponent : Int
  deriving DecidableEq, Repr

structure Interval where
  low : Nat
  value : Nat
  high : Nat
  denominator : Nat
  closed : Bool

/-- The interval of numbers that round to a positive single-precision number. It is closed when
the mantissa is even; below a power of two the neighbour is half as far away. -/
def roundingInterval (a : Binary) : Interval :=
  let m := a.mantissa.natAbs
  let up := 1 <<< a.exponent.toNat
  let down := 1 <<< (-a.exponent).toNat
  let below := if m == 0x800000 && Format.single.least < a.exponent then 1 else 2
  ⟨(4 * m - below) * up, 4 * m * up, (4 * m + 2) * up, 4 * down, m % 2 == 0⟩

def Interval.holds (i : Interval) (num den : Nat) : Bool :=
  let x := num * i.denominator
  if i.closed then i.low * den ≤ x && x ≤ i.high * den else i.low * den < x && x < i.high * den

/-- The exponent of the leading decimal digit of a positive quotient, found by stepping. -/
def leadingPower (num den : Nat) : Int :=
  let rec up : Nat → Nat → Int → Int
    | 0, _, e => e
    | fuel + 1, d, e => if d * 10 ≤ num then up fuel (d * 10) (e + 1) else e
  let rec down : Nat → Nat → Int → Int
    | 0, _, e => e
    | fuel + 1, n, e => if n < den then down fuel (n * 10) (e - 1) else e
  if den ≤ num then up 64 den 0 else down 64 num 0

def powerOfTen (e : Nat) : Nat := Nat.pow 10 e

/-- The nearer of the two neighbours of the value on the grid of multiples of `10 ^ e`, if one of
them lies in the interval; a tie goes to the even one. -/
def Interval.onGrid (i : Interval) (e : Int) : Option Numeral :=
  let up := powerOfTen e.toNat
  let down := powerOfTen (-e).toNat
  let num := i.value * down
  let den := i.denominator * up
  let c := num / den
  let lower := i.holds (c * up) down
  let upper := i.holds ((c + 1) * up) down
  if lower && upper then some ⟨roundEven num den, e⟩
  else if lower then some ⟨c, e⟩
  else if upper then some ⟨c + 1, e⟩
  else none

def shortest (a : Binary) : Numeral :=
  let i := roundingInterval a
  let lead := leadingPower i.value i.denominator
  let rec go : Nat → Nat → Numeral
    | 0, _ => ⟨0, 0⟩
    | fuel + 1, digits => (i.onGrid (lead - digits)).getD (go fuel (digits + 1))
  go 12 0

def dropTrailingZeros (ds : List Char) : List Char :=
  (ds.reverse.dropWhile fun c => c = '0').reverse

end Decimal

/-- How the digits of a number are set: with leading exponents from `leastFixed` to
`greatestFixed` in positional notation, else with an exponent. -/
structure DecimalStyle where
  leastFixed : Int
  greatestFixed : Int

namespace Single

open Text Decimal

def style : DecimalStyle := ⟨-6, 12⟩

/-- `lead` is the exponent of the first digit. Positional notation has a digit on both sides of
the point. -/
def setDigits (s : DecimalStyle) (digits : List Char) (lead : Int) : List Char :=
  if s.leastFixed ≤ lead && lead ≤ s.greatestFixed then
    if lead < 0 then '0' :: '.' :: (List.replicate (-lead - 1).toNat '0' ++ digits)
    else
      let whole := lead.toNat + 1
      let fraction := digits.drop whole
      digits.take whole ++ List.replicate (whole - digits.length) '0' ++
        '.' :: (if fraction.isEmpty then ['0'] else fraction)
  else
    let tail := digits.drop 1
    digits.take 1 ++ (if tail.isEmpty then [] else '.' :: tail) ++ 'e' ::
      (if lead < 0 then '-' else '+') :: decimal lead.natAbs

/-- No text for infinities and NaN. -/
def text? (x : Single) : Option (List Char) :=
  if !x.isFinite then none
  else
    let body :=
      if x.isZero then ['0', '.', '0']
      else
        let n := shortest x.magnitude
        let ds := decimal n.coefficient
        setDigits style (dropTrailingZeros ds) (n.exponent + ds.length - 1)
    some (if x.sign then '-' :: body else body)

end Single

end Arrivals
