import Arrivals.Proofs.Wire.Messages
import Mathlib.Data.Set.Operations

/-! Positions read back from their binary form, and with them every message that is published. Main
statement: a message reads as itself, but for a percentage that is a zero with a sign, which is written as
no percentage is. -/

namespace Arrivals

namespace Single

def negativeZero : Single := ⟨0x80000000⟩

theorem isZero_iff {x : Single} : x.isZero = true ↔ x = zero ∨ x = negativeZero := by
  obtain ⟨bits⟩ := x
  have hlt := bits.toNat_lt
  simp only [isZero, magnitudeBits, zero, negativeZero, mk.injEq, ← UInt32.toNat_inj, beq_iff_eq]
  change bits.toNat % 2147483648 = 0 ↔ bits.toNat = 0 ∨ bits.toNat = 2147483648
  omega

/-- Without the sign of a zero. -/
def unsigned (x : Single) : Single := if x.isZero then zero else x

theorem unsigned_eq_self_iff {x : Single} : x.unsigned = x ↔ x ≠ negativeZero := by
  rw [unsigned]
  split
  next hzero =>
    rcases isZero_iff.mp hzero with rfl | rfl <;> decide
  next hzero =>
    exact iff_of_true rfl fun h => hzero (isZero_iff.mpr (.inr h))

end Single

namespace Wire

@[simp] theorem Content.single?_ofSingle (x : Single) : (ofSingle x).single? = some x := by
  simp [ofSingle, single?]

theorem Content.fits_ofSingle (x : Single) : (ofSingle x).Fits := x.bits.toNat_lt

theorem Builds.percent {α : Type} {merge : α → Field → Option α} {number : Nat}
    (hnumber : 0 < number ∧ number < 2 ^ 29) (put : Single → α)
    (h : ∀ x, merge (put .zero) ⟨number, .ofSingle x⟩ = some (put x)) (x : Single) :
    Builds merge (singleField number x) (put .zero) (put x.unsigned) := by
  rw [singleField, Wire.unlessDefault, Single.unsigned]
  split
  · exact nil
  · exact single hnumber (Content.fits_ofSingle x) (h x)

namespace VehiclePosition

/-- What is read where this was written. -/
def unsigned (m : VehiclePosition) : VehiclePosition := { m with percent := m.percent.unsigned }

theorem unsigned_eq_self_iff {m : VehiclePosition} : m.unsigned = m ↔ m.percent ≠ .negativeZero := by
  rw [← Single.unsigned_eq_self_iff]
  constructor
  · exact fun h => congrArg percent h
  · intro h
    rw [unsigned, h]

theorem builds (m : VehiclePosition) : Builds merge m.fields empty m.unsigned := by
  -- from the last part to the first, each taken away from the message
  refine .append (n := { m with percent := m.percent.unsigned, validity := 0 }) ?_
    (.uint32 (by decide) (by simp [merge, unsigned]) fun h => by rw [unsigned, h])
  refine .append (n := { m with percent := m.percent.unsigned, computed := 0, validity := 0 }) ?_
    (.int64 (by decide) (by simp [merge]) fun h => by rw [h])
  refine .append (n := { m with percent := .zero, computed := 0, validity := 0 }) ?_
    (.percent (by decide) (fun x => { m with percent := x, computed := 0, validity := 0 })
      (by simp [merge]) _)
  refine .append (n := { empty with
      vehicle := m.vehicle, line := m.line, cars := m.cars, previousStation := m.previousStation,
      nextStation := m.nextStation, direction := m.direction }) ?_
    (.optionalText (by decide)
      (fun s => { m with platform := s, percent := .zero, computed := 0, validity := 0 })
      (by simp [merge]) _)
  refine .append (n := { empty with
      vehicle := m.vehicle, line := m.line, cars := m.cars, previousStation := m.previousStation,
      nextStation := m.nextStation }) ?_
    (.text (by decide) (by simp [merge]) fun h => by rw [h, empty])
  refine .append (n := { empty with
      vehicle := m.vehicle, line := m.line, cars := m.cars, previousStation := m.previousStation }) ?_
    (.text (by decide) (by simp [merge]) fun h => by rw [h, empty])
  refine .append (n := { empty with vehicle := m.vehicle, line := m.line, cars := m.cars }) ?_
    (.optionalText (by decide)
      (fun s => { empty with vehicle := m.vehicle, line := m.line, cars := m.cars, previousStation := s })
      (by simp [merge]) _)
  refine .append (n := { empty with vehicle := m.vehicle, line := m.line }) ?_
    (.uint32 (by decide) (by simp [merge]) fun h => by rw [h, empty])
  refine .append (n := { empty with vehicle := m.vehicle }) ?_
    (.text (by decide) (by simp [merge]) fun h => by rw [h, empty])
  exact .text (by decide) (by simp [merge]) fun h => by rw [h, empty]

theorem decode_encoded {m : VehiclePosition} (hlen : m.encode.length < 2 ^ 64) :
    decode m.encode = some m.unsigned := m.builds.decodeWith hlen 0

end VehiclePosition

namespace PositionBatch

theorem builds {positions : List VehiclePosition} (hlen : ∀ m ∈ positions, m.encode.length < 2 ^ 64) :
    Builds merge (fields ⟨positions⟩) ⟨[]⟩ ⟨positions.map .unsigned⟩ := by
  refine .repeated (by decide) PositionBatch.mk VehiclePosition.encode .unsigned (fun m hm before => ?_) []
  have hread : decodeWith VehiclePosition.merge 1 .empty m.encode = some m.unsigned :=
    m.builds.decodeWith (hlen m hm) 1
  simp [merge, Content.message?, hread]

theorem decode_encoded {b : PositionBatch} (hlen : b.encode.length < 2 ^ 64) :
    decode b.encode = some ⟨b.positions.map .unsigned⟩ := by
  have hpositions (m : VehiclePosition) (hm : m ∈ b.positions) : m.encode.length < 2 ^ 64 := by
    have hmem : ⟨1, .sized m.encode⟩ ∈ b.fields := List.mem_map.mpr ⟨m, hm, rfl⟩
    exact Nat.lt_of_le_of_lt (length_le_of_mem hmem) hlen
  exact (builds hpositions).decodeWith hlen 0

theorem unsigned_eq_self_iff {b : PositionBatch} :
    (⟨b.positions.map .unsigned⟩ : PositionBatch) = b ↔ ∀ m ∈ b.positions, m.percent ≠ .negativeZero := by
  have hmap : b.positions.map VehiclePosition.unsigned = b.positions ↔
      ∀ m ∈ b.positions, m.unsigned = id m := by
    rw [← List.map_inj_left, List.map_id]
  obtain ⟨positions⟩ := b
  rw [mk.injEq, hmap]
  exact forall₂_congr fun m _ => VehiclePosition.unsigned_eq_self_iff

end PositionBatch

/-- Bytes that are read as what was written are written for nothing else. -/
theorem injOn_of_read {α : Type} {encode : α → Bytes} {decode : Bytes → Option α} {s : Set α}
    (h : ∀ m ∈ s, decode (encode m) = some m) : s.InjOn encode := by
  intro m hm n hn he
  have hread := h n hn
  rw [← he, h m hm] at hread
  exact Option.some.inj hread

/-- Messages whose bytes are no more than a machine can address are read as they were written, whatever
their texts and numbers are, and no two of them have the same bytes: not those that differ only in a part
that has its default, is empty or is absent. Percentages are told apart by their bits, and among them only
the zero with a sign is lost. -/
theorem messages_read_back :
    (∀ m : VehicleEta, m.encode.length < 2 ^ 64 → VehicleEta.decode m.encode = some m) ∧
    (∀ m : VehiclePosition, m.encode.length < 2 ^ 64 →
      (VehiclePosition.decode m.encode = some m ↔ m.percent ≠ .negativeZero)) ∧
    (∀ b : EtaBatch, b.encode.length < 2 ^ 64 → EtaBatch.decode b.encode = some b) ∧
    (∀ b : PositionBatch, b.encode.length < 2 ^ 64 →
      (PositionBatch.decode b.encode = some b ↔ ∀ m ∈ b.positions, m.percent ≠ .negativeZero)) ∧
    Set.InjOn VehicleEta.encode {m | m.encode.length < 2 ^ 64} ∧
    Set.InjOn VehiclePosition.encode {m | m.encode.length < 2 ^ 64 ∧ m.percent ≠ .negativeZero} := by
  have heta (m : VehicleEta) (hlen : m.encode.length < 2 ^ 64) : VehicleEta.decode m.encode = some m :=
    (m.builds 0 hlen).decodeWith hlen 0
  have hposition (m : VehiclePosition) (hlen : m.encode.length < 2 ^ 64) :
      VehiclePosition.decode m.encode = some m ↔ m.percent ≠ .negativeZero := by
    rw [VehiclePosition.decode_encoded hlen, Option.some_inj, VehiclePosition.unsigned_eq_self_iff]
  refine ⟨heta, hposition, fun b hlen => EtaBatch.decode_encoded hlen, fun b hlen => ?_,
    injOn_of_read heta, injOn_of_read fun m hm => (hposition m hm.1).mpr hm.2⟩
  rw [PositionBatch.decode_encoded hlen, Option.some_inj, PositionBatch.unsigned_eq_self_iff]

/-- Messages that differ in what is absent, nought or empty. The last is of a kind and in units that have no
name. -/
def nearlyAlike : List VehicleEta :=
  [.empty, { VehicleEta.empty with value := some (.single 0) },
    { VehicleEta.empty with value := some (.interval ⟨0, 0⟩) },
    { VehicleEta.empty with platform := some "", kind := -1, units := 2 }]

/-- A vehicle about to leave, with a percentage of either zero or of none. -/
def departing (percent : Single) : VehiclePosition :=
  { VehiclePosition.empty with vehicle := "v", percent, computed := -1 }

theorem messages_read_back_alike :
    (∀ m ∈ nearlyAlike, m.encode.length < 2 ^ 64 ∧ VehicleEta.decode m.encode = some m ∧
      ∀ n ∈ nearlyAlike, m.encode = n.encode → m = n) ∧
    EtaBatch.decode (EtaBatch.encode ⟨nearlyAlike⟩) = some ⟨nearlyAlike⟩ ∧
    VehiclePosition.decode (departing ⟨0x7fc00000⟩).encode = some (departing ⟨0x7fc00000⟩) ∧
    VehiclePosition.decode (departing .negativeZero).encode ≠ some (departing .negativeZero) ∧
    PositionBatch.decode (PositionBatch.encode ⟨[departing .zero]⟩) = some ⟨[departing .zero]⟩ := by
  obtain ⟨heta, hposition, hetas, hpositions, hapart, -⟩ := messages_read_back
  have hshort : ∀ m ∈ nearlyAlike, m.encode.length < 2 ^ 64 := by decide +kernel
  refine ⟨fun m hm => ⟨hshort m hm, heta m (hshort m hm), fun n hn => hapart (hshort m hm) (hshort n hn)⟩,
    hetas _ (by decide +kernel), (hposition _ (by decide +kernel)).mpr (by decide),
    fun h => ?_, (hpositions _ (by decide +kernel)).mpr (by decide)⟩
  exact (hposition _ (by decide +kernel)).mp h rfl

end Wire

end Arrivals
