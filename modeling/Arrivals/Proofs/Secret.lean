import Arrivals.Proofs.Access
import Arrivals.Proofs.Numerals
import Arrivals.Secret

/-! Who shows a secret that is verified. Main statement: just those whose password has, under the key, the
hash that the store holds for their name, so a hash that was stored for a secret lets that secret in. -/

namespace Arrivals.Secret

section Digits

theorem pairValue?_lowerHexDigit {x y : Nat} (hx : x < 16) (hy : y < 16) :
    pairValue? (Text.lowerHexDigit x) (Text.lowerHexDigit y) = some (x * 16 + y) := by
  have hplus : ∀ d < 16, Text.lowerHexDigit d ≠ '+' := by decide
  rw [pairValue?, Text.hexValue?_lowerHexDigit y hy]
  dsimp only
  rw [if_neg (hplus x hx), Text.hexValue?_lowerHexDigit x hx, Option.map_some]

theorem readPairs_paddedHex (x : UInt8) (rest : List Char) :
    readPairs (Text.paddedHex 2 x.toNat ++ rest) = (readPairs rest).map (x :: ·) := by
  have hlt := x.toNat_lt
  have hvalue : x.toNat / 16 % 16 * 16 + x.toNat % 16 = x.toNat := by omega
  have hpair := pairValue?_lowerHexDigit (x := x.toNat / 16 % 16) (y := x.toNat % 16)
    (Nat.mod_lt _ (by decide)) (Nat.mod_lt _ (by decide))
  rw [hvalue] at hpair
  simp [Text.paddedHex, readPairs, hpair]

theorem ofStored?_hex (b : Bytes) : ofStored? b.hex = some b := by
  rw [ofStored?, Bytes.hex, String.toList_ofList]
  induction b with
  | nil => rfl
  | cons x rest ih => rw [List.flatMap_cons, readPairs_paddedHex, ih, Option.map_some]

theorem ofStored?_stored (key secret : Bytes) : ofStored? (stored key secret) = some (hash key secret) :=
  ofStored?_hex _

end Digits

theorem length_hash (key secret : Bytes) : (hash key secret).length = 32 := Sha256.hash_length _

/-- The hash that a store holds for a name, if there is one that can be read. -/
def held? (store : Store) (username : String) : Option Bytes :=
  (store.credential? username).bind fun c => ofStored? c.secretHash

variable {key : Bytes} {store : Store} {username : String} {password b : Bytes}

theorem held?_eq_some_iff :
    held? store username = some b ↔
      ∃ c, (username, c) ∈ store.credentials.entries ∧ ofStored? c.secretHash = some b := by
  rw [held?, Option.bind_eq_some_iff]
  exact exists_congr fun c => and_congr_left fun _ => Table.mem_entries_iff.symm

theorem run_verify (key : Bytes) (source : Source) (username : String) (password : Bytes) :
    source.run (verify key username password) =
      (source.answer .credential (decide (held? source.store username = some (hash key password))),
        { source with calls := source.calls + 1 }) := by
  have hread : source.run (Access.credential? username) =
      (source.answer .credential (source.store.credential? username),
        { source with calls := source.calls + 1 }) := Source.run_read ..
  rw [verify, Source.run_bind, hread]
  cases hcall : source.outage source.calls .credential with
  | some e => simp [Source.answer, hcall]
  | none =>
    rw [Source.answer, Source.answer, hcall, held?]
    cases source.store.credential? username with
    | none => rfl
    | some c => cases h : ofStored? c.secretHash <;> simp [h]

/-- A password is right just if its hash under the key is the one that the store holds for just that name.
So where the hash of a secret is held the secret is right, and any other password only if it has that very
hash; and no password is right where nothing is held, or what cannot be read or has another length. There is
no answer only if the store gives none. -/
theorem verify_decides (key : Bytes) (source : Source) (username : String) (password : Bytes) :
    let answer := (source.run (verify key username password)).1
    (answer = .ok true ↔ source.outage source.calls .credential = none ∧
      ∃ c, (username, c) ∈ source.store.credentials.entries ∧
        ofStored? c.secretHash = some (hash key password)) ∧
    (hash key password).length = 32 ∧
    (∀ e, answer = .error e ↔ source.outage source.calls .credential = some e) ∧
    (source.outage source.calls .credential = none →
      (∀ c secret, (username, c) ∈ source.store.credentials.entries → c.secretHash = stored key secret →
        (answer = .ok true ↔ hash key password = hash key secret)) ∧
      ((∀ c b, (username, c) ∈ source.store.credentials.entries → ofStored? c.secretHash = some b →
        b.length ≠ 32) → answer = .ok false)) := by
  intro answer
  have hanswer : answer = source.answer .credential
      (decide (held? source.store username = some (hash key password))) :=
    congrArg Prod.fst (run_verify key source username password)
  have htrue : answer = .ok true ↔ source.outage source.calls .credential = none ∧
      held? source.store username = some (hash key password) := by
    rw [hanswer, Source.answer]
    cases source.outage source.calls .credential <;> simp
  refine ⟨htrue.trans (and_congr_right fun _ => held?_eq_some_iff), length_hash key password, fun e => ?_,
    fun hcall => ⟨fun c secret hc hstored => ?_, fun hother => ?_⟩⟩
  · rw [hanswer, Source.answer]
    cases source.outage source.calls .credential <;> simp
  · have hheld : held? source.store username = some (hash key secret) :=
      held?_eq_some_iff.mpr ⟨c, hc, hstored ▸ ofStored?_stored key secret⟩
    rw [htrue, hheld, Option.some_inj]
    exact (and_iff_right hcall).trans eq_comm
  · have hnot : held? source.store username ≠ some (hash key password) := fun hheld => by
      obtain ⟨c, hc, hread⟩ := held?_eq_some_iff.mp hheld
      exact hother c _ hc hread (length_hash key password)
    rw [hanswer, Source.answer, hcall, decide_eq_false hnot]

/-- A store with the hash of one secret, with one that is cut off, and with one that is no hash. -/
def keeper : Source :=
  let credentials := [("kiosk", stored [0x70] [0x73]), ("short", "28943e"), ("broken", "zz")]
  .ofStore { (default : Store) with credentials := .ofList (credentials.map fun c => (c.1, ⟨c.1, c.2⟩)) }

theorem verify_decides_keeper :
    (keeper.run (verify [0x70] "kiosk" [0x73])).1 = .ok true ∧
    ((keeper.run (verify [0x70] "kiosk" [])).1 = .ok true ↔ hash [0x70] [] = hash [0x70] [0x73]) ∧
    (∀ username ∈ ["nobody", "short", "broken"],
      (keeper.run (verify [0x70] username [0x73])).1 = .ok false) := by
  have hheld : ("kiosk", ⟨"kiosk", stored [0x70] [0x73]⟩) ∈ keeper.store.credentials.entries :=
    List.mem_cons_self
  have hkiosk (password : Bytes) := ((verify_decides [0x70] keeper "kiosk" password).2.2.2 rfl).1 _ _ hheld rfl
  have hothers : ∀ e ∈ keeper.store.credentials.entries, e.1 ∈ ["nobody", "short", "broken"] →
      ∀ b ∈ ofStored? e.2.secretHash, b.length ≠ 32 := by decide +kernel
  refine ⟨(hkiosk _).mpr rfl, hkiosk [], fun username hname => ?_⟩
  exact ((verify_decides [0x70] keeper username [0x73]).2.2.2 rfl).2 fun c b hc hread =>
    hothers _ hc hname b hread

end Arrivals.Secret
