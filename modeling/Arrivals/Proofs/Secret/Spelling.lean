import Arrivals.Proofs.Secret

/-! How the hash that a store holds may be spelt. Main statement: in pairs, each a hexadecimal digit of
either case behind another, or behind a plus sign that counts as a nought. What is spelt so prints back in
lower case; what is not lets nobody in. -/

namespace Arrivals

namespace Text

def IsHexDigit (c : Char) : Prop :=
  ('0' ≤ c ∧ c ≤ '9') ∨ ('a' ≤ c ∧ c ≤ 'f') ∨ ('A' ≤ c ∧ c ≤ 'F')

instance (c : Char) : Decidable (IsHexDigit c) := inferInstanceAs (Decidable (_ ∨ _))

variable {c : Char} {n : Nat}

theorem isHexDigit_iff :
    IsHexDigit c ↔ (48 ≤ c.toNat ∧ c.toNat ≤ 57) ∨ (97 ≤ c.toNat ∧ c.toNat ≤ 102) ∨
      (65 ≤ c.toNat ∧ c.toNat ≤ 70) := Iff.rfl

theorem isSome_hexValue?_iff : (hexValue? c).isSome = true ↔ IsHexDigit c := by
  rw [isHexDigit_iff, hexValue?]
  simp only [Bool.and_eq_true, decide_eq_true_eq]
  split
  next h => simp [h]
  next h =>
    split
    next h' => simp [h']
    next h' => split <;> simp_all

theorem toNat_lowerHexDigit :
    ∀ n < 16, (lowerHexDigit n).toNat = if n < 10 then 48 + n else 87 + n := by decide

theorem toNat_toLower (c : Char) :
    c.toLower.toNat = if 65 ≤ c.toNat ∧ c.toNat ≤ 90 then c.toNat + 32 else c.toNat := by
  by_cases h : 65 ≤ c.toNat ∧ c.toNat ≤ 90
  · have hlower : c.toLower.val = c.val + 32 := congrArg Char.val (dif_pos h)
    rw [if_pos h]
    change c.toLower.val.toNat = c.toNat + 32
    rw [hlower, UInt32.toNat_add]
    change (c.toNat + 32) % 4294967296 = c.toNat + 32
    omega
  · have hlower : c.toLower = c := dif_neg h
    rw [if_neg h, hlower]

/-- The digit of a value is the one that was read, in lower case. -/
theorem hexValue?_eq_some (h : hexValue? c = some n) : n < 16 ∧ lowerHexDigit n = c.toLower := by
  simp only [hexValue?, Bool.and_eq_true, decide_eq_true_eq] at h
  have hlt : n < 16 := by grind
  rw [← Char.toNat_inj, toNat_toLower, toNat_lowerHexDigit n hlt]
  grind

end Text

namespace Secret

open Text

/-- Pairs of a digit, or a sign, and a digit. -/
inductive Paired : List Char → Prop
  | nil : Paired []
  | pair {a b rest} : IsHexDigit a ∨ a = '+' → IsHexDigit b → Paired rest → Paired (a :: b :: rest)

def plainDigit (c : Char) : Char := if c = '+' then '0' else c.toLower

/-- In lower case, with a nought for each sign. -/
def plain (s : String) : String := s.map plainDigit

variable {a b : Char} {s : List Char} {bytes : Bytes} {n : Nat}

theorem paired_of_pairValue? (h : pairValue? a b = some n) : (IsHexDigit a ∨ a = '+') ∧ IsHexDigit b := by
  rw [pairValue?] at h
  split at h
  next => cases h
  next y hy =>
    refine ⟨?_, isSome_hexValue?_iff.mp (Option.isSome_of_eq_some hy)⟩
    split at h
    next hsign => exact .inr hsign
    next =>
      obtain ⟨x, hx, -⟩ := Option.map_eq_some_iff.mp h
      exact .inl (isSome_hexValue?_iff.mp (Option.isSome_of_eq_some hx))

/-- What comes first in a pair counts as a digit, whichever it is. -/
theorem exists_value_of_first (ha : IsHexDigit a ∨ a = '+') :
    ∃ x < 16, lowerHexDigit x = plainDigit a ∧
      ∀ y, hexValue? b = some y → pairValue? a b = some (x * 16 + y) := by
  by_cases hsign : a = '+'
  · refine ⟨0, by decide, by rw [hsign]; rfl, fun y hy => ?_⟩
    simp [pairValue?, hy, hsign]
  · obtain ⟨x, hx⟩ := Option.isSome_iff_exists.mp (isSome_hexValue?_iff.mpr (ha.resolve_right hsign))
    obtain ⟨hlt, hlower⟩ := hexValue?_eq_some hx
    refine ⟨x, hlt, by rw [plainDigit, if_neg hsign, hlower], fun y hy => ?_⟩
    simp [pairValue?, hy, hsign, hx]

theorem exists_pairValue? (ha : IsHexDigit a ∨ a = '+') (hb : IsHexDigit b) :
    ∃ n : UInt8, pairValue? a b = some n.toNat ∧ paddedHex 2 n.toNat = [plainDigit a, plainDigit b] := by
  obtain ⟨y, hy⟩ := Option.isSome_iff_exists.mp (isSome_hexValue?_iff.mpr hb)
  obtain ⟨hylt, hylower⟩ := hexValue?_eq_some hy
  obtain ⟨x, hxlt, hxlower, hvalue⟩ := exists_value_of_first (b := b) ha
  have hplain : plainDigit b = b.toLower := by
    have hne : b ≠ '+' := fun h => absurd (h ▸ hb) (by decide)
    rw [plainDigit, if_neg hne]
  have hbyte : (UInt8.ofNat (x * 16 + y)).toNat = x * 16 + y := UInt8.toNat_ofNat_of_lt (show _ < 256 by omega)
  refine ⟨UInt8.ofNat (x * 16 + y), by rw [hbyte, hvalue y hy], ?_⟩
  have hhigh : (x * 16 + y) / 16 % 16 = x := by omega
  have hlow : (x * 16 + y) % 16 = y := by omega
  rw [hbyte, hplain, ← hxlower, ← hylower]
  simp only [paddedHex, List.nil_append, List.singleton_append, hhigh, hlow]

theorem paired_of_readPairs (h : readPairs s = some bytes) : Paired s := by
  fun_induction readPairs s generalizing bytes with
  | case1 => exact .nil
  | case2 => cases h
  | case3 => cases h
  | case4 a b rest n hpair ih =>
    obtain ⟨others, hothers, -⟩ := Option.map_eq_some_iff.mp h
    obtain ⟨ha, hb⟩ := paired_of_pairValue? hpair
    exact .pair ha hb (ih hothers)

theorem exists_readPairs (h : Paired s) :
    ∃ bytes : Bytes, readPairs s = some bytes ∧
      bytes.flatMap (fun x => paddedHex 2 x.toNat) = s.map plainDigit := by
  induction h with
  | nil => exact ⟨[], rfl, rfl⟩
  | pair ha hb _ ih =>
    obtain ⟨others, hothers, hprint⟩ := ih
    obtain ⟨n, hpair, hpadded⟩ := exists_pairValue? ha hb
    refine ⟨n :: others, ?_, ?_⟩
    · rw [readPairs, hpair]
      simp [hothers]
    · rw [List.flatMap_cons, hpadded, hprint]
      rfl

/-- A text reads as some bytes if and only if it comes in pairs, and plain it is what the bytes print as. -/
theorem ofStored?_eq_some_iff {s : String} :
    ofStored? s = some bytes ↔ Paired s.toList ∧ bytes.hex = plain s := by
  have hplain {others : Bytes} (hprint : others.flatMap (fun x => paddedHex 2 x.toNat) =
      s.toList.map plainDigit) : others.hex = plain s := by
    rw [Bytes.hex, hprint, plain, ← String.toList_map, String.ofList_toList]
  constructor
  · intro h
    have hpaired := paired_of_readPairs h
    obtain ⟨others, hothers, hprint⟩ := exists_readPairs hpaired
    rw [Option.some.inj (h.symm.trans hothers)]
    exact ⟨hpaired, hplain hprint⟩
  · rintro ⟨hpaired, hhex⟩
    obtain ⟨others, hothers, hprint⟩ := exists_readPairs hpaired
    have hsame := ofStored?_hex bytes
    rw [hhex, ← hplain hprint, ofStored?_hex] at hsame
    exact hothers.trans hsame

theorem length_hex (bytes : Bytes) : bytes.hex.length = 2 * bytes.length := by
  rw [Bytes.hex, String.length_ofList, List.length_flatMap, Nat.mul_comm]
  simp only [paddedHex_length, List.map_const', List.sum_replicate_nat]

theorem paired_of_digits :
    ∀ {s : List Char}, s.length % 2 = 0 → (∀ c ∈ s, IsHexDigit c) → Paired s
  | [], _, _ => .nil
  | [_], heven, _ => by simp at heven
  | a :: b :: rest, heven, h => by
    simp only [List.length_cons, List.mem_cons, forall_eq_or_imp] at heven h
    exact .pair (.inl h.1) h.2.1 (paired_of_digits (by omega) h.2.2)

/-- Pairs without a sign are digits, and an even number of them. -/
theorem paired_without_sign_iff :
    Paired s ∧ '+' ∉ s ↔ s.length % 2 = 0 ∧ ∀ c ∈ s, IsHexDigit c := by
  constructor
  · rintro ⟨h, hsign⟩
    induction h with
    | nil => exact ⟨rfl, nofun⟩
    | pair ha hb _ ih =>
      simp only [List.mem_cons, not_or] at hsign
      obtain ⟨heven, hdigits⟩ := ih hsign.2.2
      simp only [List.length_cons, List.mem_cons, forall_eq_or_imp]
      exact ⟨by omega, ha.resolve_right (Ne.symm hsign.1), hb, hdigits⟩
  · rintro ⟨heven, h⟩
    exact ⟨paired_of_digits heven h, fun hsign => absurd (h _ hsign) (by decide)⟩

theorem plain_of_no_sign {s : String} (h : '+' ∉ s.toList) : plain s = s.toLower := by
  have hlower : s.toLower = s.map Char.toLower := rfl
  refine String.toList_inj.mp ?_
  rw [plain, hlower, String.toList_map, String.toList_map]
  refine List.map_congr_left fun c hc => ?_
  have hne : c ≠ '+' := fun hsign => h (hsign ▸ hc)
  rw [plainDigit, if_neg hne]

/-- A stored text is read just if it comes in pairs. The bytes are half as many as its characters and print
back as the text, in lower case and with a nought for each sign; the texts without a sign are those of an
even number of digits. Who is let in is whose hash prints as the plain text that is held for them. -/
theorem spelling_decides (s : String) :
    ((∃ b, ofStored? s = some b) ↔ Paired s.toList) ∧
    (∀ b, ofStored? s = some b → 2 * b.length = s.length ∧ b.hex = plain s) ∧
    (Paired s.toList ∧ '+' ∉ s.toList ↔ s.length % 2 = 0 ∧ ∀ c ∈ s.toList, IsHexDigit c) ∧
    ('+' ∉ s.toList → plain s = s.toLower) ∧
    ∀ (key : Bytes) (source : Source) (username : String) (password : Bytes) (c : Credential),
      (username, c) ∈ source.store.credentials.entries → c.secretHash = s →
      ((source.run (verify key username password)).1 = .ok true ↔
        source.outage source.calls .credential = none ∧ Paired s.toList ∧
          plain s = stored key password) := by
  refine ⟨⟨?_, ?_⟩, fun b hb => ?_, paired_without_sign_iff, plain_of_no_sign, ?_⟩
  · rintro ⟨b, hb⟩
    exact (ofStored?_eq_some_iff.mp hb).1
  · intro hpaired
    obtain ⟨b, hb, -⟩ := exists_readPairs hpaired
    exact ⟨b, hb⟩
  · have hhex := (ofStored?_eq_some_iff.mp hb).2
    refine ⟨?_, hhex⟩
    rw [← length_hex, hhex, plain, String.length_map]
  · rintro key source username password c hc rfl
    have hheld : held? source.store username = ofStored? c.secretHash := by
      rw [held?, show source.store.credential? username = some c from Table.mem_entries_iff.mp hc]
      rfl
    have hright : held? source.store username = some (hash key password) ↔
        Paired c.secretHash.toList ∧ plain c.secretHash = stored key password := by
      rw [hheld, ofStored?_eq_some_iff]
      exact and_congr_right fun _ => eq_comm
    rw [run_verify, Source.answer, ← hright]
    cases source.outage source.calls .credential <;> simp

/-- The hash of the secret `s` under the key `p`, but for the case of some digits and one nought. -/
def signed : String := "8BF2cdd846+1c8b54016e3713080e54d7c2b9c143f942cd889616cd3d9b251FD"

def signedSource : Source :=
  .ofStore { (default : Store) with credentials := .ofList [("kiosk", ⟨"kiosk", signed⟩)] }

theorem ofStored?_signed : ofStored? signed = some (hash [0x70] [0x73]) := by decide +kernel

theorem spelling_decides_signed :
    ("kiosk", ⟨"kiosk", signed⟩) ∈ signedSource.store.credentials.entries ∧
      (∃ b, ofStored? signed = some b ∧ 2 * b.length = 64) ∧
      (signedSource.run (verify [0x70] "kiosk" [0x73])).1 = .ok true := by
  have hheld : ("kiosk", ⟨"kiosk", signed⟩) ∈ signedSource.store.credentials.entries :=
    List.mem_cons_self
  obtain ⟨-, hread, -, -, hverify⟩ := spelling_decides signed
  have hspelling := ofStored?_eq_some_iff.mp ofStored?_signed
  refine ⟨hheld, ⟨_, ofStored?_signed, (hread _ ofStored?_signed).1⟩, ?_⟩
  exact (hverify [0x70] signedSource "kiosk" [0x73] _ hheld rfl).mpr ⟨rfl, hspelling.1, hspelling.2.symm⟩

/-- Digits are not all that is read, and a text with a sign in it lets somebody in. -/
theorem verify_takes_sign :
    (¬ ∀ s : String, (∃ b, ofStored? s = some b) ↔
      s.length % 2 = 0 ∧ ∀ c ∈ s.toList, IsHexDigit c) ∧
    ¬ ∀ (key : Bytes) (source : Source) (username : String) (password : Bytes) (c : Credential),
      (username, c) ∈ source.store.credentials.entries →
      ¬ (c.secretHash.length % 2 = 0 ∧ ∀ d ∈ c.secretHash.toList, IsHexDigit d) →
      (source.run (verify key username password)).1 ≠ .ok true := by
  have hsign : '+' ∈ signed.toList := by decide
  have hsigned : ¬ (signed.length % 2 = 0 ∧ ∀ d ∈ signed.toList, IsHexDigit d) :=
    fun h => absurd (h.2 _ hsign) (by decide)
  refine ⟨fun h => hsigned ((h signed).mp ⟨_, ofStored?_signed⟩), fun h => ?_⟩
  refine h [0x70] signedSource "kiosk" [0x73] ⟨"kiosk", signed⟩ List.mem_cons_self hsigned ?_
  have hheld : held? signedSource.store "kiosk" = some (hash [0x70] [0x73]) := ofStored?_signed
  rw [run_verify, hheld, decide_eq_true rfl]
  rfl

end Secret

end Arrivals
