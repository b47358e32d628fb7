import Arrivals.Json.Number

/-! What a reader finds in a JSON text, up to the place where the text stops being JSON. A draft
records at each place what would go wrong there, so that a reader of a given shape meets the first
fault in reading order, be it one of form or one of meaning. -/

namespace Arrivals.Json

inductive Fault where
  | malformed
  | truncated
  /-- the text is JSON, but not of the wanted shape -/
  | unfit
  deriving DecidableEq, Repr

/-- A string as it reads, and what goes wrong when it is only passed over: a lone surrogate matters
to the first alone. -/
structure Quote where
  read : Except Fault String
  skip : Option Fault

inductive Draft where
  | null
  | bool (b : Bool)
  | number (read : Except Fault Number) (skip : Option Fault)
  | str (q : Quote)
  /-- after the items stands `]`, unless there is a fault -/
  | arr (items : List Draft) (fault : Option Fault)
  /-- after the members stands a closing brace, unless there is a fault -/
  | obj (members : List (Quote × Draft)) (fault : Option Fault)
  /-- after the members, and a comma or the opening brace, stands something that is no key -/
  | keyless (members : List (Quote × Draft)) (next : Draft)
  /-- a misspelt `null`, `true` or `false` with this first letter -/
  | word (letter : Char) (fault : Fault)
  /-- nothing that starts a value -/
  | absent (fault : Fault)

def isSpace (c : Char) : Bool := c = ' ' || c = '\n' || c = '\t' || c = '\r'

def dropSpaces (s : List Char) : List Char := s.dropWhile isSpace

section Strings

def utf8Length (s : List Char) : Nat := s.foldl (fun n c => n + c.utf8Size) 0

def hexQuad (s : List Char) : Except Fault (Nat × List Char) :=
  match s with
  | a :: b :: c :: d :: rest =>
    match Text.hexValue? a, Text.hexValue? b, Text.hexValue? c, Text.hexValue? d with
    | some a, some b, some c, some d => .ok (((a * 16 + b) * 16 + c) * 16 + d, rest)
    | _, _, _, _ => .error .malformed
  | short => if utf8Length short < 4 then .error .truncated else .error .malformed

theorem length_of_hexQuad {s rest : List Char} {n : Nat} (h : hexQuad s = .ok (n, rest)) :
    rest.length < s.length := by
  unfold hexQuad at h
  split at h
  · split at h
    · injection h with h
      injection h with _ h
      subst h
      simp only [List.length_cons]
      omega
    · simp at h
  · split at h <;> simp at h

def simpleEscape? (c : Char) : Option Char :=
  if c = '"' then some '"'
  else if c = '\\' then some '\\'
  else if c = '/' then some '/'
  else if c = 'b' then some (Char.ofNat 8)
  else if c = 'f' then some (Char.ofNat 12)
  else if c = 'n' then some '\n'
  else if c = 'r' then some '\r'
  else if c = 't' then some '\t'
  else none

/-- One element of a string: a character or half of a surrogate pair. -/
inductive CodeUnit where
  | char (c : Char)
  | high (n : Nat)
  | low (n : Nat)

def CodeUnit.ofCode (n : Nat) : CodeUnit :=
  if 0xd800 ≤ n && n ≤ 0xdbff then .high n
  else if 0xdc00 ≤ n && n ≤ 0xdfff then .low n
  else .char (Char.ofNat n)

def pairedChar (high low : Nat) : Char :=
  Char.ofNat (0x10000 + (high - 0xd800) * 0x400 + (low - 0xdc00))

/-- What has been read of a string: its characters in reverse, a first half of a pair that waits
for the second, and the first fault. -/
structure Scan where
  reversed : List Char
  waiting : Option Nat
  fault : Option Fault

namespace Scan

def start : Scan := ⟨[], none, none⟩

def fail (p : Scan) : Scan := ⟨p.reversed, none, p.fault.or (some .malformed)⟩

def push (p : Scan) (u : CodeUnit) : Scan :=
  match p.waiting, u with
  | none, .char c => ⟨c :: p.reversed, none, p.fault⟩
  | none, .high n => ⟨p.reversed, some n, p.fault⟩
  | some m, .low n => ⟨pairedChar m n :: p.reversed, none, p.fault⟩
  | _, _ => p.fail

def stop (p : Scan) (f : Fault) : Quote := ⟨.error (p.fault.getD f), some f⟩

def finish (p : Scan) : Quote :=
  match p.waiting, p.fault with
  | _, some f => ⟨.error f, none⟩
  | some _, none => ⟨.error .malformed, none⟩
  | none, none => ⟨.ok (String.ofList p.reversed.reverse), none⟩

end Scan

def readString (p : Scan) (s : List Char) : Quote × List Char :=
  match s with
  | [] => (p.stop .truncated, [])
  | '"' :: rest => (p.finish, rest)
  | '\\' :: [] => (p.stop .truncated, [])
  | '\\' :: 'u' :: rest =>
    match h : hexQuad rest with
    | .error f => (p.stop f, [])
    | .ok (n, after) =>
      have := length_of_hexQuad h
      readString (p.push (.ofCode n)) after
  | '\\' :: c :: rest =>
    match simpleEscape? c with
    | none => (p.stop .malformed, [])
    | some d => readString (p.push (.char d)) rest
  | c :: rest =>
    if c.toNat < 32 then (p.stop .malformed, []) else readString (p.push (.char c)) rest
termination_by s.length
decreasing_by all_goals simp only [List.length_cons]; omega

end Strings

section Numbers

def splitWhileDigits (s : List Char) : List Char × List Char :=
  (s.takeWhile Text.isDigit, s.dropWhile Text.isDigit)

/-- What is missing where a digit should stand: to a reader of values the end of the text is a
fault of its own. -/
def digitFault (s : List Char) : Draft :=
  .number (.error (if s.isEmpty then .truncated else .malformed)) (some .malformed)

def exponentParts (s : List Char) : Bool × List Char × List Char :=
  match s with
  | '-' :: s => (true, splitWhileDigits s)
  | '+' :: s => (false, splitWhileDigits s)
  | s => (false, splitWhileDigits s)

def numberOf (p : Number.Parts) : Draft :=
  .number (match Number.ofParts p with
    | some n => .ok n
    | none => .error .malformed) none

def readExponent (negative : Bool) (whole : List Char) (fraction : Option (List Char))
    (s : List Char) : Draft × List Char :=
  match s with
  | c :: s =>
    if c = 'e' || c = 'E' then
      match exponentParts s with
      | (_, [], rest) => (digitFault rest, [])
      | (down, ds, rest) => (numberOf ⟨negative, whole, fraction, some (down, ds)⟩, rest)
    else (numberOf ⟨negative, whole, fraction, none⟩, c :: s)
  | [] => (numberOf ⟨negative, whole, fraction, none⟩, [])

def readNumber (negative : Bool) (s : List Char) : Draft × List Char :=
  match splitWhileDigits s with
  | ([], rest) => (digitFault rest, [])
  | (whole, rest) =>
    if whole.length != 1 && whole.head? == some '0' then
      (.number (.error .malformed) (some .malformed), [])
    else
      match rest with
      | '.' :: rest =>
        match splitWhileDigits rest with
        | ([], rest) => (digitFault rest, [])
        | (fraction, rest) => readExponent negative whole (some fraction) rest
      | rest => readExponent negative whole none rest

end Numbers

def readWord (first : Char) (d : Draft) : List Char → List Char → Draft × List Char
  | [], s => (d, s)
  | _ :: _, [] => (.word first .truncated, [])
  | c :: cs, x :: s => if c = x then readWord first d cs s else (.word first .malformed, [])

mutual

/-- The value at the front of a text and what follows it; nothing follows a value that breaks
off. -/
def readValue (fuel : Nat) (s : List Char) : Draft × List Char :=
  match fuel with
  | 0 => (.absent .malformed, [])
  | fuel + 1 =>
    match dropSpaces s with
    | [] => (.absent .truncated, [])
    | c :: rest =>
      if c = 'n' then readWord 'n' .null ['u', 'l', 'l'] rest
      else if c = 't' then readWord 't' (.bool true) ['r', 'u', 'e'] rest
      else if c = 'f' then readWord 'f' (.bool false) ['a', 'l', 's', 'e'] rest
      else if c = '-' then readNumber true rest
      else if Text.isDigit c then readNumber false (c :: rest)
      else if c = '"' then
        let (q, rest) := readString .start rest
        (.str q, rest)
      else if c = '[' then
        match dropSpaces rest with
        | [] => (.arr [] (some .truncated), [])
        | ']' :: rest => (.arr [] none, rest)
        | rest => readItems fuel [] rest
      else if c = '{' then
        match dropSpaces rest with
        | [] => (.obj [] (some .truncated), [])
        | '}' :: rest => (.obj [] none, rest)
        | rest => readMembers fuel [] rest
      else (.absent .malformed, [])

def readItems (fuel : Nat) (before : List Draft) (s : List Char) : Draft × List Char :=
  match fuel with
  | 0 => (.arr before.reverse (some .malformed), [])
  | fuel + 1 =>
    let (v, rest) := readValue fuel s
    let items := v :: before
    match dropSpaces rest with
    | [] => (.arr items.reverse (some .truncated), [])
    | ',' :: rest => readItems fuel items rest
    | ']' :: rest => (.arr items.reverse none, rest)
    | _ => (.arr items.reverse (some .malformed), [])

def readMembers (fuel : Nat) (before : List (Quote × Draft)) (s : List Char) : Draft × List Char :=
  match fuel with
  | 0 => (.obj before.reverse (some .malformed), [])
  | fuel + 1 =>
    match dropSpaces s with
    | '"' :: rest =>
      let (key, rest) := readString .start rest
      match dropSpaces rest with
      | ':' :: rest =>
        let (v, rest) := readValue fuel rest
        let members := (key, v) :: before
        match dropSpaces rest with
        | [] => (.obj members.reverse (some .truncated), [])
        | ',' :: rest => readMembers fuel members rest
        | '}' :: rest => (.obj members.reverse none, rest)
        | _ => (.obj members.reverse (some .malformed), [])
      | [] => (.obj ((key, .absent .truncated) :: before).reverse none, [])
      | _ => (.obj ((key, .absent .malformed) :: before).reverse none, [])
    | s => (.keyless before.reverse (readValue fuel s).1, [])

end

/-- Every level and every element takes at least one character, so the text's length is fuel
enough. -/
def Draft.parse (s : List Char) : Draft × List Char := readValue (2 * s.length + 2) s

end Arrivals.Json
