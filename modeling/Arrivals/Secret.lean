import Arrivals.Hash.Sha256
import Arrivals.Store.Access

/-! Secrets of those who may ask. The store holds, in hexadecimal, the hash of each secret under the
server's key. -/

namespace Arrivals.Secret

def hash (key secret : Bytes) : Bytes := Sha256.keyed key secret

def stored (key secret : Bytes) : String := (hash key secret).hex

/-- Two hexadecimal digits, or a plus sign and one. -/
def pairValue? (a b : Char) : Option Nat :=
  match Text.hexValue? b with
  | none => none
  | some y => if a = '+' then some y else (Text.hexValue? a).map fun x => x * 16 + y

def readPairs : List Char → Option Bytes
  | [] => some []
  | [_] => none
  | a :: b :: rest =>
    match pairValue? a b with
    | none => none
    | some n => (readPairs rest).map (UInt8.ofNat n :: ·)

def ofStored? (s : String) : Option Bytes := readPairs s.toList

def verify (key : Bytes) (username : String) (password : Bytes) : Access StoreError Bool := do
  match ← Access.credential? username with
  | none => return false
  | some credential =>
    match ofStored? credential.secretHash with
    | none => return false
    | some expected => return expected = hash key password

def unavailableMessage (e : StoreError) : String :=
  "credential store unavailable: " ++ e.message

end Arrivals.Secret
