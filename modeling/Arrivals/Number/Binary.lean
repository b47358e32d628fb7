/-! Numbers with a finite binary expansion, and rounding of quotients to a binary format: to the
nearest, of two equally near to the one with an even mantissa. -/

namespace Arrivals

/-- Stands for `mantissa * 2 ^ exponent`. -/
structure Binary where
  mantissa : Int
  exponent : Int
  deriving DecidableEq, Repr, Inhabited

/-- Mantissas have at most `precision` binary digits; `least` and `greatest` bound the exponent of
the last one. -/
structure Format where
  precision : Nat
  least : Int
  greatest : Int
  deriving DecidableEq, Repr

namespace Binary

def zero : Binary := ⟨0, 0⟩

def ofInt (n : Int) : Binary := ⟨n, 0⟩

/-- The mantissa once the last digit has exponent `e`, for `e` no greater than now. -/
def mantissaAt (a : Binary) (e : Int) : Int := a.mantissa * ((1 <<< (a.exponent - e).toNat : Nat) : Int)

def sub (a b : Binary) : Binary :=
  let e := min a.exponent b.exponent
  ⟨a.mantissaAt e - b.mantissaAt e, e⟩

def mul (a b : Binary) : Binary := ⟨a.mantissa * b.mantissa, a.exponent + b.exponent⟩

def isZero (a : Binary) : Bool := a.mantissa == 0

def lt (a b : Binary) : Bool := (a.sub b).mantissa < 0

/-- The number as a quotient with a positive denominator. -/
def numerator (a : Binary) : Int := a.mantissa * ((1 <<< a.exponent.toNat : Nat) : Int)

def denominator (a : Binary) : Nat := 1 <<< (-a.exponent).toNat

def roundAway (a : Binary) : Int :=
  let n := a.numerator.natAbs
  let rounded := (2 * n + a.denominator) / (2 * a.denominator)
  if a.mantissa < 0 then -(rounded : Int) else (rounded : Int)

end Binary

def roundEven (num den : Nat) : Nat :=
  let q := num / den
  let r := num % den
  if 2 * r < den then q
  else if den < 2 * r then q + 1
  else if q % 2 == 0 then q else q + 1

def leadingExponent (num den : Nat) : Int :=
  let k : Int := (num.log2 : Int) - (den.log2 : Int)
  if num <<< (-k).toNat < den <<< k.toNat then k - 1 else k

namespace Format

def single : Format := ⟨24, -149, 104⟩
def double : Format := ⟨53, -1074, 971⟩

/-- The number of the format nearest to `num / den`, as if exponents had no upper bound. -/
def nearest (f : Format) (num : Int) (den : Nat) : Binary :=
  let n := num.natAbs
  if n == 0 then .zero
  else
    let e := max f.least (leadingExponent n den - (f.precision - 1 : Nat))
    let m := roundEven (n <<< (-e).toNat) (den <<< e.toNat)
    ⟨if num < 0 then -(m : Int) else (m : Int), e⟩

def round (f : Format) (a : Binary) : Binary := f.nearest a.numerator a.denominator

def quotient (f : Format) (a b : Binary) : Binary :=
  let num := a.numerator * b.denominator
  let den := b.numerator * a.denominator
  f.nearest (if den < 0 then -num else num) den.natAbs

/-- Whether a rounded number is too great for the format. -/
def overflows (f : Format) (a : Binary) : Bool :=
  f.greatest < a.exponent ||
    (a.exponent == f.greatest && (1 <<< f.precision : Nat) ≤ a.mantissa.natAbs)

end Format

end Arrivals
