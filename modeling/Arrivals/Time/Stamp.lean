import Arrivals.Text.Blank
import Arrivals.Text.Digits
import Arrivals.Text.Front
import Arrivals.Time.Calendar
import Arrivals.Time.Instant

/-! Times as recorded in trips: a Unix second and nanoseconds, where a leap second is the 59th
second of its minute with more than a billion of them. They are read from a lenient RFC 3339 text
and written in UTC with as many fraction digits as they need, by threes. -/

namespace Arrivals

structure Stamp where
  second : Int
  nano : Nat
  deriving DecidableEq, Repr, Inhabited

namespace Stamp

open Text

def ofInstant (t : Instant) : Stamp :=
  ⟨t.nanos.fdiv 1000000000, (t.nanos.fmod 1000000000).toNat⟩

/-- Whether the first is strictly earlier: a leap second comes before the second after it. -/
def earlier (a b : Stamp) : Bool :=
  a.second < b.second || (a.second == b.second && a.nano < b.nano)

theorem earlier_iff {a b : Stamp} :
    a.earlier b = true ↔ a.second < b.second ∨ a.second = b.second ∧ a.nano < b.nano := by
  simp [earlier]

def isLeap (a : Stamp) : Bool := 1000000000 ≤ a.nano

/-- The time from `b` to `a`. A leap second between two times of one day counts as a second. -/
def since (a b : Stamp) : Span :=
  let ofDay (s : Stamp) : Int := s.second % 86400
  let leap : Int :=
    if ofDay b < ofDay a then if b.isLeap then 1 else 0
    else if ofDay a < ofDay b then if a.isLeap then -1 else 0
    else 0
  ⟨(a.second - b.second + leap) * 1000000000 + ((a.nano : Int) - (b.nano : Int))⟩

section Reading

/-- A year with a sign may have any number of digits, one without a sign at most four. -/
def readYear (s : List Char) : Option (Int × List Char) :=
  match s with
  | '-' :: s => (readNumeral s.length s).map fun r => (-(r.1 : Int), r.2)
  | '+' :: s => (readNumeral s.length s).map fun r => ((r.1 : Int), r.2)
  | s => (readNumeral 4 s).map fun r => ((r.1 : Int), r.2)

/-- Nine digits of a fraction count; further ones are passed over. -/
def readFraction (s : List Char) : Option (Nat × List Char) :=
  match s with
  | '.' :: s =>
    match splitDigits 9 s with
    | ([], _) => none
    | (ds, rest) =>
      some (numeral (ds ++ List.replicate (9 - ds.length) '0'), rest.dropWhile isDigit)
  | s => some (0, s)

def twoDigits (most : Nat) : List Char → Option (Nat × List Char)
  | a :: b :: s =>
    if isDigit a && isDigit b && numeral [a, b] ≤ most then some (numeral [a, b], s) else none
  | _ => none

/-- Seconds east of Greenwich. -/
def readOffset (s : List Char) : Option (Int × List Char) :=
  let numeric (sign : Int) (s : List Char) : Option (Int × List Char) := do
    let (hours, s) ← twoDigits 99 s
    let (minutes, s) ← twoDigits 59 (s.dropWhile fun c => c = ':' || isBlank c)
    if hours < 24 then some (sign * (hours * 3600 + minutes * 60), s) else none
  match s with
  | [] => none
  | c :: rest =>
    if (s.take 3).map Char.toLower = ['u', 't', 'c'] then some (0, s.drop 3)
    else if c = 'Z' || c = 'z' then some (0, rest)
    else if c = '+' then numeric 1 rest
    else if c = '-' || c = '\u2212' then numeric (-1) rest
    else none

def ofFields? (date : Date) (hour minute second nano : Nat) (offset : Int) : Option Stamp :=
  if date.valid && hour < 24 && minute < 60 && second ≤ 60 then
    let leap := second == 60
    let local_ := date.toDays * 86400 + ((hour * 3600 + minute * 60 +
      (if leap then 59 else second) : Nat) : Int)
    let utc := local_ - offset
    let year := (Date.ofDays (utc / 86400)).year
    if Date.leastYear ≤ year && year ≤ Date.greatestYear then
      some ⟨utc, if leap then nano + 1000000000 else nano⟩
    else none
  else none

def parse? (s : List Char) : Option Stamp := do
  let (year, s) ← readYear (dropBlanks s)
  let s ← expect '-' (dropBlanks s)
  let (month, s) ← readNumeral 2 (dropBlanks s)
  let s ← expect '-' (dropBlanks s)
  let (day, s) ← readNumeral 2 (dropBlanks s)
  let s ← match s with
    | [] => none
    | c :: s => if c = 'T' || c = 't' || c = ' ' then some s else none
  let (hour, s) ← readNumeral 2 (dropBlanks s)
  let s ← expect ':' (dropBlanks s)
  let (minute, s) ← readNumeral 2 (dropBlanks s)
  let s ← expect ':' (dropBlanks s)
  let (second, s) ← readNumeral 2 (dropBlanks s)
  let (nano, s) ← readFraction s
  let (offset, s) ← readOffset (dropBlanks s)
  if (dropBlanks s).isEmpty then ofFields? ⟨year, month, day⟩ hour minute second nano offset
  else none

end Reading

section Writing

def yearText (y : Int) : List Char :=
  if 0 ≤ y && y ≤ 9999 then padded 4 y.toNat
  else
    let digits := decimal y.natAbs
    (if y < 0 then '-' else '+') :: (List.replicate (4 - digits.length) '0' ++ digits)

/-- No digits for a whole second, else three, six or nine. -/
def fractionText (nano : Nat) : List Char :=
  if nano == 0 then []
  else if nano % 1000000 == 0 then '.' :: padded 3 (nano / 1000000)
  else if nano % 1000 == 0 then '.' :: padded 6 (nano / 1000)
  else '.' :: padded 9 nano

def render (t : Stamp) : List Char :=
  let date := Date.ofDays (t.second / 86400)
  let ofDay := (t.second % 86400).toNat
  let second := if t.isLeap then ofDay % 60 + 1 else ofDay % 60
  let nano := if t.isLeap then t.nano - 1000000000 else t.nano
  yearText date.year ++ ['-'] ++ padded 2 date.month ++ ['-'] ++ padded 2 date.day ++ ['T'] ++
    padded 2 (ofDay / 3600) ++ [':'] ++ padded 2 (ofDay / 60 % 60) ++ [':'] ++ padded 2 second ++
    fractionText nano ++ ['Z']

end Writing

end Stamp

end Arrivals
