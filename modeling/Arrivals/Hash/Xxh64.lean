import Arrivals.Bytes

/-! The 64-bit hash XXH64: four lanes over whole stripes of 32 bytes, then the rest by eight, four
and one, then an avalanche. -/

namespace Arrivals.Xxh64

abbrev Word := UInt64

def prime1 : Word := 0x9e3779b185ebca87
def prime2 : Word := 0xc2b2ae3d27d4eb4f
def prime3 : Word := 0x165667b19e3779f9
def prime4 : Word := 0x85ebca77c2b2ae63
def prime5 : Word := 0x27d4eb2f165667c5

def rotate (x n : Word) : Word := (x <<< n) ||| (x >>> (64 - n))

def round (acc lane : Word) : Word := rotate (acc + lane * prime2) 31 * prime1

def merge (acc lane : Word) : Word := (acc ^^^ round 0 lane) * prime1 + prime4

def wordAt (at_ : Nat) (b : Bytes) : Word :=
  UInt64.ofNat (Bytes.ofLittleEndian ((b.drop at_).take 8))

structure Lanes where
  one : Word
  two : Word
  three : Word
  four : Word

def Lanes.start (seed : Word) : Lanes :=
  ⟨seed + prime1 + prime2, seed + prime2, seed, seed - prime1⟩

def Lanes.stripe (l : Lanes) (b : Bytes) : Lanes :=
  ⟨round l.one (wordAt 0 b), round l.two (wordAt 8 b), round l.three (wordAt 16 b),
    round l.four (wordAt 24 b)⟩

def Lanes.converge (l : Lanes) : Word :=
  let sum := rotate l.one 1 + rotate l.two 7 + rotate l.three 12 + rotate l.four 18
  merge (merge (merge (merge sum l.one) l.two) l.three) l.four

def stripes (l : Lanes) (b : Bytes) : Lanes × Bytes :=
  if b.length < 32 then (l, b) else stripes (l.stripe b) (b.drop 32)
termination_by b.length
decreasing_by rw [List.length_drop]; omega

def tail (acc : Word) (b : Bytes) : Word :=
  match b with
  | a :: b :: c :: d :: e :: f :: g :: h :: rest =>
    let w := UInt64.ofNat (Bytes.ofLittleEndian [a, b, c, d, e, f, g, h])
    tail (rotate (acc ^^^ round 0 w) 27 * prime1 + prime4) rest
  | a :: b :: c :: d :: rest =>
    let w := UInt64.ofNat (Bytes.ofLittleEndian [a, b, c, d])
    tail (rotate (acc ^^^ (w * prime1)) 23 * prime2 + prime3) rest
  | a :: rest => tail (rotate (acc ^^^ (UInt64.ofNat a.toNat * prime5)) 11 * prime1) rest
  | [] => acc

def avalanche (x : Word) : Word :=
  let x := (x ^^^ (x >>> 33)) * prime2
  let x := (x ^^^ (x >>> 29)) * prime3
  x ^^^ (x >>> 32)

def hash (seed : Word) (b : Bytes) : Word :=
  let (start, rest) :=
    if b.length < 32 then (seed + prime5, b)
    else
      let (lanes, rest) := stripes (.start seed) b
      (lanes.converge, rest)
  avalanche (tail (start + UInt64.ofNat b.length) rest)

end Arrivals.Xxh64
