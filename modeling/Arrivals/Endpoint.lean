import Arrivals.Text.Digits
import Arrivals.Text.Front
import Arrivals.Text.Joined

/-! Internet addresses with a port, as in `127.0.0.1:1883` and `[::1]:1883`. Names of hosts are no
addresses. -/

namespace Arrivals

open Text

inductive Endpoint where
  | v4 (octets : List Nat) (port : Nat)
  | v6 (groups : List Nat) (scope : Nat) (port : Nat)
  deriving DecidableEq, Repr, Inhabited

namespace Endpoint

section Reading

/-- A reader takes its value off the front of a text. -/
abbrev Reader (α : Type) := List Char → Option (α × List Char)

structure NumeralRule where
  base : Nat
  greatest : Nat
  digits : Option Nat
  leadingZero : Bool

def digitOf? (base : Nat) (c : Char) : Option Nat := (hexValue? c).filter fun d => d < base

def readNumber (rule : NumeralRule) : Reader Nat := fun s =>
  let ds := s.takeWhile fun c => (digitOf? rule.base c).isSome
  let n := ds.foldl (fun n c => n * rule.base + (digitOf? rule.base c).getD 0) 0
  let tooMany := match rule.digits with
    | some most => most < ds.length
    | none => false
  let led := !rule.leadingZero && 1 < ds.length && ds.head? = some '0'
  if ds.isEmpty || tooMany || led || rule.greatest < n then none else some (n, s.drop ds.length)

def octetRule : NumeralRule := ⟨10, 255, some 3, false⟩
def groupRule : NumeralRule := ⟨16, 65535, some 4, true⟩
def portRule : NumeralRule := ⟨10, 65535, none, true⟩
def scopeRule : NumeralRule := ⟨10, 4294967295, none, true⟩

def readOctets : Reader (List Nat) := fun s => do
  let (a, s) ← readNumber octetRule s
  let (b, s) ← readNumber octetRule (← expect '.' s)
  let (c, s) ← readNumber octetRule (← expect '.' s)
  let (d, s) ← readNumber octetRule (← expect '.' s)
  some ([a, b, c, d], s)

def pairGroups : List Nat → List Nat
  | a :: b :: rest => (a * 256 + b) :: pairGroups rest
  | _ => []

/-- Groups with colons between them, at most `room`, and whether four octets stand for the last
two. -/
def readGroups : Nat → Bool → List Char → List Nat × Bool × List Char
  | 0, _, s => ([], false, s)
  | room + 1, first, s =>
    match if first then some s else expect ':' s with
    | none => ([], false, s)
    | some t =>
      match if 0 < room then readOctets t else none with
      | some (octets, rest) => (pairGroups octets, true, rest)
      | none =>
        match readNumber groupRule t with
        | none => ([], false, s)
        | some (g, rest) =>
          let (gs, octets, rest) := readGroups room false rest
          (g :: gs, octets, rest)

/-- Two colons stand for as many groups of nought as are missing, at least one. -/
def readAllGroups : Reader (List Nat) := fun s =>
  let (head, octets, rest) := readGroups 8 true s
  if head.length = 8 then some (head, rest)
  else if octets then none
  else do
    let rest ← expect ':' (← expect ':' rest)
    let (tail, _, rest) := readGroups (7 - head.length) true rest
    some (head ++ List.replicate (8 - head.length - tail.length) 0 ++ tail, rest)

def readScope (s : List Char) : Nat × List Char :=
  match (expect '%' s).bind (readNumber scopeRule) with
  | some r => r
  | none => (0, s)

def readPort : Reader Nat := fun s => do readNumber portRule (← expect ':' s)

def readV4 : Reader Endpoint := fun s => do
  let (octets, s) ← readOctets s
  let (port, s) ← readPort s
  some (.v4 octets port, s)

def readV6 : Reader Endpoint := fun s => do
  let (groups, s) ← readAllGroups (← expect '[' s)
  let (scope, s) := readScope s
  let (port, s) ← readPort (← expect ']' s)
  some (.v6 groups scope port, s)

def parse? (s : String) : Option Endpoint :=
  match (readV4 s.toList).or (readV6 s.toList) with
  | some (e, []) => some e
  | _ => none

end Reading

section Writing

def octetText (octets : List Nat) : List Char := joined '.' (octets.map decimal)

def groupText (groups : List Nat) : List Char := joined ':' (groups.map (Nat.toDigits 16))

def longestZeros (groups : List Nat) : Nat × Nat :=
  let runs := (List.range groups.length).map fun i =>
    (i, ((groups.drop i).takeWhile (· = 0)).length)
  runs.foldl (fun best run => if best.2 < run.2 then run else best) (0, 0)

def addressText (groups : List Nat) : List Char :=
  if groups.take 6 = [0, 0, 0, 0, 0, 65535] then
    "::ffff:".toList ++ octetText ((groups.drop 6).flatMap fun g => [g / 256, g % 256])
  else
    let (start, length) := longestZeros groups
    if 1 < length then
      groupText (groups.take start) ++ [':', ':'] ++ groupText (groups.drop (start + length))
    else groupText groups

def chars : Endpoint → List Char
  | .v4 octets port => octetText octets ++ ':' :: decimal port
  | .v6 groups scope port =>
    '[' :: addressText groups ++ (if scope = 0 then [] else '%' :: decimal scope) ++
      [']', ':'] ++ decimal port

def render (e : Endpoint) : String := String.ofList e.chars

end Writing

/-- Whether every host has the address: those that stand for all of its own, and loopback. -/
def isEverywhere : Endpoint → Bool
  | .v4 octets _ => octets = [0, 0, 0, 0] || octets.head? = some 127
  | .v6 groups _ _ => groups = [0, 0, 0, 0, 0, 0, 0, 0] || groups = [0, 0, 0, 0, 0, 0, 0, 1]

end Endpoint

end Arrivals
