import Arrivals.Text.Digits

/-! Lists of bytes: their hexadecimal form, the UTF-8 form of texts, integers of fixed width in either
byte order, and integers of as many bytes as they need. -/

namespace Arrivals

abbrev Bytes := List UInt8

namespace Bytes

def ofString (s : String) : Bytes := s.toByteArray.data.toList

def toString? (b : Bytes) : Option String := String.fromUTF8? ⟨b.toArray⟩

@[simp] theorem toString?_ofString (s : String) : toString? (ofString s) = some s := by
  have h : (⟨(ofString s).toArray⟩ : ByteArray) = s.toByteArray := by simp [ofString]
  unfold toString? String.fromUTF8?
  simp only [h, s.isValidUTF8, dite_true]
  rfl

def hex (b : Bytes) : String := String.ofList (b.flatMap fun x => Text.paddedHex 2 x.toNat)

def ofHexChars? : List Char → Option Bytes
  | [] => some []
  | [_] => none
  | a :: b :: rest =>
    match Text.hexValue? a, Text.hexValue? b with
    | some x, some y => (ofHexChars? rest).map (UInt8.ofNat (x * 16 + y) :: ·)
    | _, _ => none

def ofHex? (s : String) : Option Bytes := ofHexChars? s.toList

/-- The last `width` bytes of a number, the greatest first. -/
def bigEndian : Nat → Nat → Bytes
  | 0, _ => []
  | width + 1, n => bigEndian width (n / 256) ++ [UInt8.ofNat n]

def littleEndian : Nat → Nat → Bytes
  | 0, _ => []
  | width + 1, n => UInt8.ofNat n :: littleEndian width (n / 256)

/-- Seven bits a byte, the least first; the eighth bit says that more follow. -/
def base128 (n : Nat) : Bytes :=
  if h : n < 128 then [UInt8.ofNat n]
  else
    have : n / 128 < n := by omega
    UInt8.ofNat (128 + n % 128) :: base128 (n / 128)

def ofBigEndian (b : Bytes) : Nat := b.foldl (fun n x => n * 256 + x.toNat) 0

def ofLittleEndian : Bytes → Nat
  | [] => 0
  | x :: rest => x.toNat + 256 * ofLittleEndian rest

theorem bigEndian_length (width n : Nat) : (bigEndian width n).length = width := by
  induction width generalizing n <;> simp_all [bigEndian]

theorem littleEndian_length (width n : Nat) : (littleEndian width n).length = width := by
  induction width generalizing n <;> simp_all [littleEndian]

end Bytes

end Arrivals
