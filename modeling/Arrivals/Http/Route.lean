import Arrivals.Bytes

/-! The paths of the HTTP interface. An id is one segment of a path, with escapes of its bytes. -/

namespace Arrivals.Http

inductive Route where
  | signals
  | line (segment : String)
  | network (segment : String)
  | health
  deriving DecidableEq, Repr

inductive Purpose where
  | read
  | write
  deriving DecidableEq, Repr

namespace Route

def purpose : Route → Purpose
  | .signals => .write
  | _ => .read

def segmentAfter (start : String) (path : List Char) : Option String :=
  if start.toList.isPrefixOf path then
    let segment := path.drop start.length
    if segment.isEmpty || segment.contains '/' then none else some (String.ofList segment)
  else none

def pathOf (target : String) : List Char := target.toList.takeWhile fun c => c != '?' && c != '#'

def ofTarget? (target : String) : Option Route :=
  let path := pathOf target
  if path = "/signals".toList then some .signals
  else if path = "/health".toList then some .health
  else ((segmentAfter "/activity/lines/" path).map .line).or
    ((segmentAfter "/activity/networks/" path).map .network)

def unescapeBytes : Bytes → Bytes
  | x :: a :: b :: rest =>
    match decide (x = 0x25), Text.hexValue? (Char.ofNat a.toNat), Text.hexValue? (Char.ofNat b.toNat) with
    | true, some m, some n => UInt8.ofNat (m * 16 + n) :: unescapeBytes rest
    | _, _, _ => x :: unescapeBytes (a :: b :: rest)
  | short => short
termination_by b => b.length

def unescape? (segment : String) : Option String :=
  Bytes.toString? (unescapeBytes (Bytes.ofString segment))

end Route

end Arrivals.Http
