import Arrivals.Proofs.Bytes
import Arrivals.Wire.Field

/-! Fields read back from the bytes that they are written as. Main statement: a message of fields
whose numbers fit reads as the same fields. -/

namespace Arrivals.Wire

theorem readBase128_base128 {room n : Nat} (h : n < 2 * 128 ^ room) (rest : Bytes) :
    readBase128 (room + 1) (Bytes.base128 n ++ rest) = some (n, rest) := by
  have hbyte {m : Nat} (hm : m < 256) : (UInt8.ofNat m).toNat = m := UInt8.toNat_ofNat_of_lt' hm
  have hsmall {m : Nat} (hm : m < 256) : UInt8.ofNat m < 128 ↔ m < 128 := by
    rw [UInt8.lt_iff_toNat_lt, hbyte hm]
    rfl
  induction room generalizing n with
  | zero =>
    have hn : n < 2 := by omega
    rw [Bytes.base128, dif_pos (by omega), List.singleton_append, readBase128,
      if_pos ((hsmall (by omega)).mpr (by omega)), hbyte (by omega), if_neg (by omega)]
  | succ room ih =>
    rw [Bytes.base128]
    by_cases hlast : n < 128
    · rw [dif_pos hlast, List.singleton_append, readBase128,
        if_pos ((hsmall (by omega)).mpr hlast), hbyte (by omega), if_neg (by omega)]
    · have hmore : ¬ UInt8.ofNat (128 + n % 128) < 128 := by
        rw [hsmall (by omega)]
        omega
      have hrest : n / 128 < 2 * 128 ^ room := by
        rw [Nat.pow_succ] at h
        omega
      rw [dif_neg hlast, List.cons_append, readBase128, if_neg hmore, ih hrest]
      simp only [hbyte (show 128 + n % 128 < 256 by omega), Option.some.injEq, Prod.mk.injEq, and_true]
      omega

theorem readVarint_base128 {n : Nat} (h : n < 2 ^ 64) (rest : Bytes) :
    readVarint (Bytes.base128 n ++ rest) = some (n, rest) := by
  have hroom : n < 2 * 128 ^ 9 := h
  exact readBase128_base128 hroom rest

theorem takeBytes_append {n : Nat} {b : Bytes} (h : b.length = n) (rest : Bytes) :
    takeBytes n (b ++ rest) = some (b, rest) := by
  subst h
  simp [takeBytes]

theorem readKey_key {number : Nat} (hpos : 0 < number) (hlt : number < 2 ^ 29) (form : Form)
    (rest : Bytes) : readKey (key number form ++ rest) = some (⟨number, form⟩, rest) := by
  have hcode : form.code < 8 := by cases form <;> decide
  have hword : 8 * number + form.code < 2 ^ 64 := by omega
  have hnumber : (8 * number + form.code) / 8 = number := by omega
  have hform : (8 * number + form.code) % 8 = form.code := by omega
  rw [readKey, key, readVarint_base128 hword]
  simp only [hnumber, hform, Form.ofCode?_code, Option.map_some]
  rw [if_neg (by omega)]

theorem skipGroup_key {number : Nat} (hpos : 0 < number) (hlt : number < 2 ^ 29) (depth : Nat)
    (rest : Bytes) : skipGroup depth [number] (key number .groupEnd ++ rest) = some rest := by
  have hkey := readKey_key hpos hlt .groupEnd rest
  rw [skipGroup]
  split
  · rename_i hnone
    rw [hkey] at hnone
    cases hnone
  · rename_i k after hsome
    rw [hkey] at hsome
    obtain ⟨rfl, rfl⟩ := Prod.mk.inj (Option.some.inj hsome)
    rw [if_pos rfl, if_pos rfl, skipGroup]

/-- Numbers of the width that their form has room for. -/
def Content.Fits : Content → Prop
  | .varint n => n < 2 ^ 64
  | .fixed64 n => n < 256 ^ 8
  | .sized _ => True
  | .group => True
  | .fixed32 n => n < 256 ^ 4

structure Field.Fits (f : Field) : Prop where
  number_pos : 0 < f.number
  number_lt : f.number < 2 ^ 29
  content : f.content.Fits

theorem length_sized_le (number : Nat) (b : Bytes) :
    b.length ≤ (Field.encode ⟨number, .sized b⟩).length := by
  rw [Field.encode, List.length_append]
  exact Nat.le_add_left _ _

theorem readField_encode {f : Field} (h : f.Fits) (hlen : f.encode.length < 2 ^ 64) (depth : Nat)
    (rest : Bytes) : readField depth (f.encode ++ rest) = some (f, rest) := by
  obtain ⟨number, content⟩ := f
  have hkey (form : Form) (after : Bytes) :
      readKey (key number form ++ after) = some (⟨number, form⟩, after) :=
    readKey_key h.number_pos h.number_lt form after
  have hfits := h.content
  rw [Field.encode]
  cases content with
  | varint n => simp [readField, readPlain, hkey, readVarint_base128 hfits]
  | fixed64 n =>
    have htake := takeBytes_append (Bytes.littleEndian_length 8 n) rest
    have hn : Bytes.ofLittleEndian (Bytes.littleEndian 8 n) = n := by
      rw [Bytes.ofLittleEndian_littleEndian, Nat.mod_eq_of_lt hfits]
    simp [readField, readPlain, hkey, htake, hn]
  | sized b =>
    have hsize := Nat.lt_of_le_of_lt (length_sized_le number b) hlen
    have htake := takeBytes_append (rfl : b.length = b.length) rest
    simp [readField, readPlain, hkey, readVarint_base128 hsize, htake]
  | group => simp [readField, hkey, skipGroup_key h.number_pos h.number_lt]
  | fixed32 n =>
    have htake := takeBytes_append (Bytes.littleEndian_length 4 n) rest
    have hn : Bytes.ofLittleEndian (Bytes.littleEndian 4 n) = n := by
      rw [Bytes.ofLittleEndian_littleEndian, Nat.mod_eq_of_lt hfits]
    simp [readField, readPlain, hkey, htake, hn]

theorem length_encodeFields_cons (f : Field) (fields : List Field) :
    (encodeFields (f :: fields)).length = f.encode.length + (encodeFields fields).length := by
  rw [encodeFields, List.flatMap_cons, List.length_append, ← encodeFields]

theorem readFields_encodeFields {fields : List Field} (h : ∀ f ∈ fields, f.Fits)
    (hlen : (encodeFields fields).length < 2 ^ 64) (depth : Nat) :
    readFields depth (encodeFields fields) = some fields := by
  induction fields with
  | nil => rw [encodeFields, List.flatMap_nil, readFields, if_pos List.isEmpty_nil]
  | cons f rest ih =>
    rw [length_encodeFields_cons] at hlen
    have hrest := ih (fun g hg => h g (List.mem_cons_of_mem _ hg)) (by omega)
    have hf := readField_encode (h f List.mem_cons_self) (by omega) depth (encodeFields rest)
    have hne : (f.encode ++ encodeFields rest).isEmpty = false := by
      cases hb : f.encode ++ encodeFields rest with
      | nil =>
        rw [hb] at hf
        simp [readField, readKey, readVarint, readBase128] at hf
      | cons => rfl
    rw [encodeFields, List.flatMap_cons, ← encodeFields, readFields, hne, if_neg Bool.false_ne_true]
    split
    · rename_i hnone
      rw [hf] at hnone
      cases hnone
    · rename_i g after hsome
      rw [hf] at hsome
      obtain ⟨rfl, rfl⟩ := Prod.mk.inj (Option.some.inj hsome)
      rw [hrest]
      rfl

/-- What a message holds in bytes is no longer than the message. -/
theorem length_le_of_mem {fields : List Field} {number : Nat} {b : Bytes}
    (h : ⟨number, .sized b⟩ ∈ fields) : b.length ≤ (encodeFields fields).length := by
  induction fields with
  | nil => cases h
  | cons f rest ih =>
    rw [length_encodeFields_cons]
    rcases List.mem_cons.mp h with rfl | h
    · have hsized := length_sized_le number b
      omega
    · have hrest := ih h
      omega

end Arrivals.Wire
