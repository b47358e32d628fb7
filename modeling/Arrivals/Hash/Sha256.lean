import Arrivals.Bytes

/-! SHA-256 (FIPS 180-4) and the keyed hash made of it (RFC 2104). -/

namespace Arrivals.Sha256

abbrev Word := UInt32

def roundConstants : List Word :=
  [0x428a2f98, 0x71374491, 0xb5c0fbcf, 0xe9b5dba5, 0x3956c25b, 0x59f111f1, 0x923f82a4, 0xab1c5ed5,
    0xd807aa98, 0x12835b01, 0x243185be, 0x550c7dc3, 0x72be5d74, 0x80deb1fe, 0x9bdc06a7, 0xc19bf174,
    0xe49b69c1, 0xefbe4786, 0x0fc19dc6, 0x240ca1cc, 0x2de92c6f, 0x4a7484aa, 0x5cb0a9dc, 0x76f988da,
    0x983e5152, 0xa831c66d, 0xb00327c8, 0xbf597fc7, 0xc6e00bf3, 0xd5a79147, 0x06ca6351, 0x14292967,
    0x27b70a85, 0x2e1b2138, 0x4d2c6dfc, 0x53380d13, 0x650a7354, 0x766a0abb, 0x81c2c92e, 0x92722c85,
    0xa2bfe8a1, 0xa81a664b, 0xc24b8b70, 0xc76c51a3, 0xd192e819, 0xd6990624, 0xf40e3585, 0x106aa070,
    0x19a4c116, 0x1e376c08, 0x2748774c, 0x34b0bcb5, 0x391c0cb3, 0x4ed8aa4a, 0x5b9cca4f, 0x682e6ff3,
    0x748f82ee, 0x78a5636f, 0x84c87814, 0x8cc70208, 0x90befffa, 0xa4506ceb, 0xbef9a3f7, 0xc67178f2]

structure State where
  a : Word
  b : Word
  c : Word
  d : Word
  e : Word
  f : Word
  g : Word
  h : Word

def State.start : State :=
  ⟨0x6a09e667, 0xbb67ae85, 0x3c6ef372, 0xa54ff53a, 0x510e527f, 0x9b05688c, 0x1f83d9ab, 0x5be0cd19⟩

def State.add (s t : State) : State :=
  ⟨s.a + t.a, s.b + t.b, s.c + t.c, s.d + t.d, s.e + t.e, s.f + t.f, s.g + t.g, s.h + t.h⟩

def State.words (s : State) : List Word := [s.a, s.b, s.c, s.d, s.e, s.f, s.g, s.h]

def rotate (x n : Word) : Word := (x >>> n) ||| (x <<< (32 - n))

def bigSigma0 (x : Word) : Word := rotate x 2 ^^^ rotate x 13 ^^^ rotate x 22
def bigSigma1 (x : Word) : Word := rotate x 6 ^^^ rotate x 11 ^^^ rotate x 25
def sigma0 (x : Word) : Word := rotate x 7 ^^^ rotate x 18 ^^^ (x >>> 3)
def sigma1 (x : Word) : Word := rotate x 17 ^^^ rotate x 19 ^^^ (x >>> 10)

def step (s : State) (k w : Word) : State :=
  let choice := (s.e &&& s.f) ^^^ (~~~s.e &&& s.g)
  let majority := (s.a &&& s.b) ^^^ (s.a &&& s.c) ^^^ (s.b &&& s.c)
  let t := s.h + bigSigma1 s.e + choice + k + w
  ⟨t + bigSigma0 s.a + majority, s.a, s.b, s.c, s.d + t, s.e, s.f, s.g⟩

/-- Runs the rounds; the window holds the next sixteen words of the message schedule. -/
def rounds (s : State) : List Word → List Word → State
  | [], _ => s
  | k :: ks, window =>
    match window with
    | [] => s
    | w :: rest =>
      let next := w + sigma0 (window.getD 1 0) + window.getD 9 0 + sigma1 (window.getD 14 0)
      rounds (step s k w) ks (rest ++ [next])

def wordsOf : Bytes → List Word
  | a :: b :: c :: d :: rest => UInt32.ofNat (Bytes.ofBigEndian [a, b, c, d]) :: wordsOf rest
  | _ => []

def compress (s : State) (block : Bytes) : State := s.add (rounds s roundConstants (wordsOf block))

/-- A one bit, zeros up to eight bytes short of a whole block, and the length in bits. -/
def padding (length : Nat) : Bytes :=
  0x80 :: (List.replicate ((119 - length % 64) % 64) 0 ++ Bytes.bigEndian 8 (8 * length))

def absorb (s : State) (message : Bytes) : State :=
  if message.length < 64 then s
  else absorb (compress s (message.take 64)) (message.drop 64)
termination_by message.length
decreasing_by rw [List.length_drop]; omega

def hash (message : Bytes) : Bytes :=
  (absorb .start (message ++ padding message.length)).words.flatMap fun w =>
    Bytes.bigEndian 4 w.toNat

theorem hash_length (message : Bytes) : (hash message).length = 32 := by
  simp [hash, State.words, List.flatMap_cons, Bytes.bigEndian_length]

def blockKey (key : Bytes) : Bytes :=
  let k := if 64 < key.length then hash key else key
  k ++ List.replicate (64 - k.length) 0

def keyed (key message : Bytes) : Bytes :=
  let k := blockKey key
  hash (k.map (· ^^^ 0x5c) ++ hash (k.map (· ^^^ 0x36) ++ message))

end Arrivals.Sha256
