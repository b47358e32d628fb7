import Arrivals.Text.Digits

/-! Whole numbers as they stand in a command line: a sign may lead, a minus only where negative
numbers are wanted. -/

namespace Arrivals.Command

open Text

def digitsValue? (ds : List Char) : Option Nat :=
  if !ds.isEmpty && ds.all isDigit then some (numeral ds) else none

def natural? (greatest : Nat) (s : String) : Option Nat :=
  let ds := match s.toList with
    | '+' :: ds => ds
    | ds => ds
  (digitsValue? ds).filter fun n => n ≤ greatest

def uint64? (s : String) : Option Nat := natural? 18446744073709551615 s

def int64? (s : String) : Option Int :=
  match s.toList with
  | '-' :: ds => ((digitsValue? ds).filter fun n => n ≤ 9223372036854775808).map fun n => -(n : Int)
  | _ => (natural? 9223372036854775807 s).map fun n => (n : Int)

end Arrivals.Command
