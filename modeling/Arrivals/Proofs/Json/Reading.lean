import Arrivals.Json.Basic
import Arrivals.Json.Draft
import Arrivals.Proofs.Numerals

/-! Values read back from their text. Main statement: where a value has whole numbers of 64 bits alone,
its text reads as that value and no more of the text is taken. -/

namespace Arrivals.Json

section Strings

theorem hexQuad_paddedHex {n : Nat} (h : n < 16 ^ 4) (rest : List Char) :
    hexQuad (Text.paddedHex 4 n ++ rest) = .ok (n, rest) := by
  have hdigit (d : Nat) : Text.hexValue? (Text.lowerHexDigit (d % 16)) = some (d % 16) :=
    Text.hexValue?_lowerHexDigit _ (Nat.mod_lt _ (by decide))
  have hvalue : ((n / 16 / 16 / 16 % 16 * 16 + n / 16 / 16 % 16) * 16 + n / 16 % 16) * 16 + n % 16 = n := by
    omega
  simp [Text.paddedHex, hexQuad, hdigit, hvalue]

variable (p : Scan)

theorem readString_simpleEscape {e c : Char} (he : e ≠ 'u') (h : simpleEscape? e = some c)
    (rest : List Char) : readString p ('\\' :: e :: rest) = readString (p.push (.char c)) rest := by
  rw [readString.eq_5 _ _ _ he, h]

theorem readString_char {c : Char} (hquote : c ≠ '"') (hslash : c ≠ '\\') (hplain : ¬ c.toNat < 32)
    (rest : List Char) : readString p (c :: rest) = readString (p.push (.char c)) rest := by
  rw [readString, if_neg hplain]
  · exact hquote
  · exact fun h => absurd h hslash
  · exact fun _ h => absurd h hslash
  · exact fun _ _ h => absurd h hslash

theorem readString_unicode {c : Char} (h : c.toNat < 32) (rest : List Char) :
    readString p ('\\' :: 'u' :: (Text.paddedHex 4 c.toNat ++ rest)) =
      readString (p.push (.char c)) rest := by
  have hquad := hexQuad_paddedHex (n := c.toNat) (by omega) rest
  have hcode : CodeUnit.ofCode c.toNat = .char c := by
    rw [CodeUnit.ofCode, if_neg (by simp; omega), if_neg (by simp; omega), Char.ofNat_toNat]
  rw [readString]
  split
  · simp_all
  · simp_all

theorem readString_escape (c : Char) (rest : List Char) :
    readString p (escape c ++ rest) = readString (p.push (.char c)) rest := by
  rw [escape]
  by_cases hquote : c = '"'
  · subst hquote
    exact readString_simpleEscape p (by decide) rfl rest
  by_cases hslash : c = '\\'
  · subst hslash
    exact readString_simpleEscape p (by decide) rfl rest
  rw [if_neg hquote, if_neg hslash]
  split
  · subst_vars
    exact readString_simpleEscape p (by decide) rfl rest
  split
  · subst_vars
    exact readString_simpleEscape p (by decide) rfl rest
  split
  · subst_vars
    exact readString_simpleEscape p (by decide) rfl rest
  split
  · rename_i h
    have hc : simpleEscape? 'b' = some c := by
      rw [← Char.ofNat_toNat c, h]
      rfl
    exact readString_simpleEscape p (by decide) hc rest
  split
  · rename_i h
    have hc : simpleEscape? 'f' = some c := by
      rw [← Char.ofNat_toNat c, h]
      rfl
    exact readString_simpleEscape p (by decide) hc rest
  split
  · rename_i h
    exact readString_unicode p h rest
  · rename_i h
    exact readString_char p hquote hslash h rest

/-- A string as it reads, with nothing amiss. -/
def Quote.plain (s : String) : Quote := ⟨.ok s, none⟩

theorem readString_flatMap_escape (reversed cs rest : List Char) :
    readString ⟨reversed, none, none⟩ (cs.flatMap escape ++ '"' :: rest) =
      (.plain (String.ofList (reversed.reverse ++ cs)), rest) := by
  induction cs generalizing reversed with
  | nil => simp [readString, Scan.finish, Quote.plain]
  | cons c cs ih =>
    have hrest := ih (c :: reversed)
    rw [List.flatMap_cons, List.append_assoc, readString_escape]
    simpa [Scan.push] using hrest

theorem readString_quoted (s : String) (rest : List Char) :
    readString .start (s.toList.flatMap escape ++ '"' :: rest) = (.plain s, rest) := by
  have hread := readString_flatMap_escape [] s.toList rest
  rw [List.reverse_nil, List.nil_append, String.ofList_toList] at hread
  exact hread

end Strings

section Numbers

/-- A number that stands before this text ends there. -/
def Ends (s : List Char) : Prop :=
  ∀ c ∈ s.head?, Text.isDigit c = false ∧ c ≠ '.' ∧ c ≠ 'e' ∧ c ≠ 'E'

variable {rest : List Char} {n : Nat}

theorem splitWhileDigits_decimal (h : Ends rest) :
    splitWhileDigits (Text.decimal n ++ rest) = (Text.decimal n, rest) := by
  have hdigits (c : Char) (hc : c ∈ Text.decimal n) : Text.isDigit c = true :=
    Text.isDigit_of_mem_decimal hc
  have hafter : rest.takeWhile Text.isDigit = [] ∧ rest.dropWhile Text.isDigit = rest := by
    cases rest with
    | nil => exact ⟨rfl, rfl⟩
    | cons c cs =>
      have hc : Text.isDigit c = false := (h c rfl).1
      simp [hc]
  rw [splitWhileDigits, List.takeWhile_append_of_pos hdigits, List.dropWhile_append_of_pos hdigits,
    hafter.1, hafter.2, List.append_nil]

theorem readExponent_of_ends (h : Ends rest) (negative : Bool) (whole : List Char) :
    readExponent negative whole none rest = (numberOf ⟨negative, whole, none, none⟩, rest) := by
  cases rest with
  | nil => rfl
  | cons c cs =>
    obtain ⟨-, -, hlower, hupper⟩ := h c rfl
    simp [readExponent, hlower, hupper]

theorem readNumber_decimal (h : Ends rest) (negative : Bool) :
    readNumber negative (Text.decimal n ++ rest) =
      (numberOf ⟨negative, Text.decimal n, none, none⟩, rest) := by
  have hsplit := splitWhileDigits_decimal (n := n) h
  have hexponent := readExponent_of_ends h negative (Text.decimal n)
  have hfront : ((Text.decimal n).length != 1 && (Text.decimal n).head? == some '0') = false := by
    by_cases hn : n = 0
    · subst hn
      rfl
    · have hhead := Text.head?_decimal_ne_zero (Nat.pos_of_ne_zero hn)
      rw [Bool.and_eq_false_iff, beq_eq_false_iff_ne]
      exact .inr hhead
  obtain ⟨d, ds, hds⟩ := List.exists_cons_of_ne_nil (Text.decimal_ne_nil (n := n))
  rw [hds] at hsplit hexponent hfront ⊢
  simp only [readNumber, hsplit, hfront, Bool.false_eq_true, if_false]
  cases rest with
  | nil => exact hexponent
  | cons c cs =>
    have hpoint : c ≠ '.' := (h c rfl).2.1
    split
    · rename_i heq
      exact absurd (List.cons.inj heq).1 hpoint
    · exact hexponent

/-- All digits are taken as long as the number fits. -/
theorem absorb_of_le {ds : List Char} {m : Nat} (h : Nat.ofDigitChars 10 ds m ≤ Number.greatestWord) :
    Number.absorb m ds = (Nat.ofDigitChars 10 ds m, ds.length) := by
  induction ds generalizing m with
  | nil => rfl
  | cons c ds ih =>
    have hnext : 10 * m + (c.toNat - '0'.toNat) = m * 10 + Text.digitValue c := by
      rw [Nat.mul_comm]
      rfl
    rw [Nat.ofDigitChars_cons, hnext] at h ⊢
    have hle : m * 10 + Text.digitValue c ≤ Number.greatestWord := by
      rw [Nat.ofDigitChars_eq_ofDigitChars_zero] at h
      have hpow : 0 < 10 ^ ds.length := Nat.pow_pos (by decide)
      have hmul := Nat.le_mul_of_pos_left (m * 10 + Text.digitValue c) hpow
      omega
    rw [Number.absorb, if_neg (Nat.not_lt.mpr hle), ih h]
    rfl

theorem absorb_decimal (h : n ≤ Number.greatestWord) :
    Number.absorb 0 (Text.decimal n) = (n, (Text.decimal n).length) := by
  have hvalue : Nat.ofDigitChars 10 (Text.decimal n) 0 = n := Nat.ofDigitChars_ten_toDigits
  rw [absorb_of_le (by rw [hvalue]; exact h), hvalue]

theorem numberOf_decimal (h : n ≤ Number.greatestWord) :
    numberOf ⟨false, Text.decimal n, none, none⟩ = .number (.ok (.whole n)) none := by
  simp [numberOf, Number.ofParts, absorb_decimal h]

theorem numberOf_neg_decimal (hpos : 0 < n) (h : n ≤ 9223372036854775808) :
    numberOf ⟨true, Text.decimal n, none, none⟩ = .number (.ok (.whole (-n))) none := by
  have habsorb : Number.absorb 0 (Text.decimal n) = (n, (Text.decimal n).length) :=
    absorb_decimal (Nat.le_trans h (by decide))
  have hword : (n = 0 || 9223372036854775808 < n : Bool) = false := by simp; omega
  simp [numberOf, Number.ofParts, habsorb, hword]

end Numbers

section Values

mutual

/-- Nothing is lost in the text of a value: it has no reals, and its whole numbers are ones of 64 bits. -/
def Legible : Json → Prop
  | .null => True
  | .bool _ => True
  | .int n => -9223372036854775808 ≤ n ∧ n ≤ 18446744073709551615
  | .real _ => False
  | .str _ => True
  | .arr items => LegibleItems items
  | .obj fields => LegibleFields fields

def LegibleItems : List Json → Prop
  | [] => True
  | v :: rest => Legible v ∧ LegibleItems rest

def LegibleFields : List (String × Json) → Prop
  | [] => True
  | (_, v) :: rest => Legible v ∧ LegibleFields rest

end

mutual

/-- What a reader finds in the text of a legible value. -/
def draft : Json → Draft
  | .null => .null
  | .bool b => .bool b
  | .int n => .number (.ok (.whole n)) none
  | .real _ => .absent .malformed
  | .str s => .str (.plain s)
  | .arr items => .arr (draftItems items) none
  | .obj fields => .obj (draftFields fields) none

def draftItems : List Json → List Draft
  | [] => []
  | v :: rest => draft v :: draftItems rest

def draftFields : List (String × Json) → List (Quote × Draft)
  | [] => []
  | (name, v) :: rest => (.plain name, draft v) :: draftFields rest

end

variable {c : Char} {cs rest : List Char} {fuel : Nat}

theorem dropSpaces_cons (h : isSpace c = false) : dropSpaces (c :: cs) = c :: cs := by
  simp [dropSpaces, h]

theorem ends_cons (h : c = ',' ∨ c = ']' ∨ c = '}') : Ends (c :: cs) := by
  intro d hd
  obtain rfl : c = d := by simpa using hd
  rcases h with rfl | rfl | rfl <;> decide

theorem ne_of_isDigit {d e : Char} (hd : Text.isDigit d = true) (he : Text.isDigit e = false) :
    d ≠ e := by
  rintro rfl
  rw [hd] at he
  cases he

theorem isSpace_of_isDigit {d : Char} (h : Text.isDigit d = true) : isSpace d = false := by
  have hspace : d ≠ ' ' := ne_of_isDigit h (by decide)
  have hline : d ≠ '\n' := ne_of_isDigit h (by decide)
  have htab : d ≠ '\t' := ne_of_isDigit h (by decide)
  have hreturn : d ≠ '\r' := ne_of_isDigit h (by decide)
  simp [isSpace, hspace, hline, htab, hreturn]

/-- The text of a value is told apart from the end of a list, and no blank stands before it. -/
theorem exists_chars_eq_cons {v : Json} (h : v.Legible) :
    ∃ c cs, v.chars = c :: cs ∧ isSpace c = false ∧ c ≠ ']' := by
  cases v with
  | null => exact ⟨_, _, rfl, by decide, by decide⟩
  | bool b => cases b <;> exact ⟨_, _, rfl, by decide, by decide⟩
  | int n =>
    rw [chars, Text.signed]
    by_cases hn : n < 0
    · rw [if_pos hn]
      exact ⟨_, _, rfl, by decide, by decide⟩
    · obtain ⟨d, ds, hds⟩ := List.exists_cons_of_ne_nil (Text.decimal_ne_nil (n := n.natAbs))
      have hd : Text.isDigit d = true := Text.isDigit_of_mem_decimal (n := n.natAbs) (by simp [hds])
      rw [if_neg hn]
      exact ⟨d, ds, hds, isSpace_of_isDigit hd, ne_of_isDigit hd (by decide)⟩
  | real x => exact h.elim
  | str s => exact ⟨_, _, rfl, by decide, by decide⟩
  | arr items => exact ⟨_, _, rfl, by decide, by decide⟩
  | obj fields => exact ⟨_, _, rfl, by decide, by decide⟩

theorem readValue_int {n : Int} (h : Legible (.int n)) (hrest : Ends rest) :
    readValue (fuel + 1) (Text.signed n ++ rest) = (draft (.int n), rest) := by
  obtain ⟨hlow, hhigh⟩ := h
  rw [Text.signed]
  by_cases hn : n < 0
  · have hread := readNumber_decimal (n := n.natAbs) hrest true
    have habs : -(n.natAbs : Int) = n := by omega
    rw [numberOf_neg_decimal (by omega) (by omega), habs] at hread
    rw [if_pos hn, List.cons_append, readValue, dropSpaces_cons (by decide)]
    simp [hread, draft]
  · have hread := readNumber_decimal (n := n.natAbs) hrest false
    have habs : (n.natAbs : Int) = n := by omega
    rw [numberOf_decimal (by rw [Number.greatestWord]; omega), habs] at hread
    obtain ⟨d, ds, hds⟩ := List.exists_cons_of_ne_nil (Text.decimal_ne_nil (n := n.natAbs))
    have hd : Text.isDigit d = true := Text.isDigit_of_mem_decimal (n := n.natAbs) (by simp [hds])
    rw [hds, List.cons_append] at hread
    have hnull : d ≠ 'n' := ne_of_isDigit hd (by decide)
    have htrue : d ≠ 't' := ne_of_isDigit hd (by decide)
    have hfalse : d ≠ 'f' := ne_of_isDigit hd (by decide)
    have hsign : d ≠ '-' := ne_of_isDigit hd (by decide)
    rw [if_neg hn, hds, List.cons_append, readValue, dropSpaces_cons (isSpace_of_isDigit hd)]
    simp only [hnull, htrue, hfalse, hsign, hd, if_false, if_true]
    exact hread

theorem readValue_str (s : String) :
    readValue (fuel + 1) (quoted s ++ rest) = (draft (.str s), rest) := by
  have hread := readString_quoted s rest
  rw [quoted, List.cons_append, List.append_assoc, List.singleton_append, readValue,
    dropSpaces_cons (by decide)]
  simp [hread, draft, Text.isDigit]

theorem exists_joined_eq_cons {v : Json} {items : List Json} (h : LegibleItems (v :: items)) :
    ∃ c cs, Text.joined ',' (itemChars (v :: items)) = c :: cs ∧ isSpace c = false ∧ c ≠ ']' := by
  obtain ⟨c, cs, hcs, hspace, hclose⟩ := exists_chars_eq_cons h.1
  refine ⟨c, ?_⟩
  cases items with
  | nil => exact ⟨cs, hcs, hspace, hclose⟩
  | cons w items =>
    rw [itemChars, itemChars, Text.joined_cons_cons, hcs, List.cons_append]
    exact ⟨_, rfl, hspace, hclose⟩

theorem exists_joined_eq_quote (field : String × Json) (fields : List (String × Json)) :
    ∃ cs, Text.joined ',' (fieldChars (field :: fields)) = '"' :: cs := by
  obtain ⟨name, v⟩ := field
  cases fields with
  | nil => exact ⟨_, rfl⟩
  | cons next fields => exact ⟨_, rfl⟩

mutual

theorem readValue_chars {v : Json} (h : v.Legible) (fuel : Nat) (hfuel : v.chars.length ≤ fuel)
    {rest : List Char} (hrest : Ends rest) :
    readValue fuel (v.chars ++ rest) = (v.draft, rest) := by
  cases fuel with
  | zero =>
    obtain ⟨c, cs, hcs, -⟩ := exists_chars_eq_cons h
    rw [hcs, List.length_cons] at hfuel
    omega
  | succ fuel =>
    cases v with
    | null => simp [chars, readValue, dropSpaces_cons (c := 'n') rfl, readWord, draft]
    | bool b =>
      cases b with
      | true => simp [chars, readValue, dropSpaces_cons (c := 't') rfl, readWord, draft]
      | false => simp [chars, readValue, dropSpaces_cons (c := 'f') rfl, readWord, draft]
    | int n => exact readValue_int h hrest
    | real x => exact h.elim
    | str s => exact readValue_str s
    | arr items =>
      rw [chars, List.length_cons, List.length_append, List.length_singleton] at hfuel
      rw [chars, List.cons_append, List.append_assoc, List.singleton_append, readValue,
        dropSpaces_cons rfl]
      cases items with
      | nil => simp [itemChars, dropSpaces_cons (c := ']') rfl, draft, draftItems, Text.isDigit]
      | cons v items =>
        have hitems := readItems_itemChars h fuel (by omega) [] rest
        obtain ⟨c, cs, hcs, hspace, hclose⟩ := exists_joined_eq_cons h
        rw [hcs, List.cons_append] at hitems ⊢
        simp [dropSpaces_cons hspace, hclose, hitems, draft, Text.isDigit]
    | obj fields =>
      rw [chars, List.length_cons, List.length_append, List.length_singleton] at hfuel
      rw [chars, List.cons_append, List.append_assoc, List.singleton_append, readValue,
        dropSpaces_cons rfl]
      cases fields with
      | nil => simp [fieldChars, dropSpaces_cons (c := '}') rfl, draft, draftFields, Text.isDigit]
      | cons field fields =>
        have hfields := readMembers_fieldChars h fuel (by omega) [] rest
        obtain ⟨cs, hcs⟩ := exists_joined_eq_quote field fields
        rw [hcs, List.cons_append] at hfields ⊢
        simp [dropSpaces_cons (c := '"') rfl, hfields, draft, Text.isDigit]
termination_by fuel

theorem readItems_itemChars {v : Json} {items : List Json} (h : LegibleItems (v :: items)) (fuel : Nat)
    (hfuel : (Text.joined ',' (itemChars (v :: items))).length < fuel) (before : List Draft)
    (rest : List Char) :
    readItems fuel before (Text.joined ',' (itemChars (v :: items)) ++ ']' :: rest) =
      (.arr (before.reverse ++ draftItems (v :: items)) none, rest) := by
  cases fuel with
  | zero => omega
  | succ fuel =>
    cases items with
    | nil =>
      rw [itemChars, itemChars, Text.joined_singleton] at hfuel ⊢
      have hafter : Ends (']' :: rest) := ends_cons (.inr (.inl rfl))
      have hread := readValue_chars h.1 fuel (by omega) hafter
      rw [readItems, hread]
      simp [dropSpaces_cons (c := ']') rfl, draftItems]
    | cons w items =>
      rw [itemChars, itemChars, Text.joined_cons_cons, ← itemChars] at hfuel ⊢
      rw [List.length_append, List.length_cons] at hfuel
      have hafter : Ends (',' :: (Text.joined ',' (itemChars (w :: items)) ++ ']' :: rest)) :=
        ends_cons (.inl rfl)
      have hread := readValue_chars h.1 fuel (by omega) hafter
      have hitems := readItems_itemChars h.2 fuel (by omega) (v.draft :: before) rest
      rw [List.append_assoc, List.cons_append, readItems, hread]
      simp [dropSpaces_cons (c := ',') rfl, hitems, draftItems]
termination_by fuel

theorem readMembers_fieldChars {field : String × Json} {fields : List (String × Json)}
    (h : LegibleFields (field :: fields)) (fuel : Nat)
    (hfuel : (Text.joined ',' (fieldChars (field :: fields))).length < fuel)
    (before : List (Quote × Draft)) (rest : List Char) :
    readMembers fuel before (Text.joined ',' (fieldChars (field :: fields)) ++ '}' :: rest) =
      (.obj (before.reverse ++ draftFields (field :: fields)) none, rest) := by
  obtain ⟨name, v⟩ := field
  have hkey (after : List Char) :
      readString .start (name.toList.flatMap escape ++ '"' :: ':' :: after) =
        (.plain name, ':' :: after) := readString_quoted name _
  cases fuel with
  | zero => omega
  | succ fuel =>
    cases fields with
    | nil =>
      rw [fieldChars, fieldChars, Text.joined_singleton] at hfuel ⊢
      rw [List.length_append, List.length_cons] at hfuel
      have hafter : Ends ('}' :: rest) := ends_cons (.inr (.inr rfl))
      have hread := readValue_chars h.1 fuel (by omega) hafter
      rw [quoted, readMembers]
      simp [dropSpaces_cons (c := '"') rfl, dropSpaces_cons (c := ':') rfl,
        dropSpaces_cons (c := '}') rfl, hkey, hread, draftFields]
    | cons next fields =>
      have hnext : (quoted next.1 ++ ':' :: next.2.chars) :: fieldChars fields =
          fieldChars (next :: fields) := rfl
      rw [fieldChars, fieldChars, Text.joined_cons_cons, hnext] at hfuel ⊢
      rw [List.length_append, List.length_append, List.length_cons, List.length_cons] at hfuel
      have hafter : Ends (',' :: (Text.joined ',' (fieldChars (next :: fields)) ++ '}' :: rest)) :=
        ends_cons (.inl rfl)
      have hread := readValue_chars h.1 fuel (by omega) hafter
      have hfields := readMembers_fieldChars h.2 fuel (by omega) ((.plain name, v.draft) :: before) rest
      rw [quoted, readMembers]
      simp [dropSpaces_cons (c := '"') rfl, dropSpaces_cons (c := ':') rfl,
        dropSpaces_cons (c := ',') rfl, hkey, hread, hfields, draftFields]
termination_by fuel

end

/-- The text of a legible value reads as that value, to its end. -/
theorem parse_render {v : Json} (h : v.Legible) : Draft.parse v.render.toList = (v.draft, []) := by
  have hend : Ends [] := nofun
  have hread := readValue_chars h (2 * v.chars.length + 2) (by omega) hend
  rw [List.append_nil] at hread
  rw [render, String.toList_ofList, Draft.parse, hread]

end Values

end Arrivals.Json
