import Arrivals.Forecast
import Arrivals.Proofs.Bytes
import Arrivals.Proofs.Numerals

/-! Which predictions are of one vehicle. Main statement: the bytes that its id is made from can be read
back as the line, the stop, the terminal and the second of the observation, so that nothing but a collision
of the hash gives two observations one id. -/

namespace Arrivals

/-- A text is told apart from what follows it by a byte that no text has. -/
theorem VehicleId.separated_append_inj {s t : String} {b c : Bytes}
    (h : separated s ++ b = separated t ++ c) : s = t ∧ b = c := by
  rw [separated, separated, List.append_assoc, List.append_assoc] at h
  obtain ⟨hst, hbc⟩ := Bytes.eq_of_append_cons (Bytes.not_mem_ofString s) (Bytes.not_mem_ofString t) h
  exact ⟨Bytes.ofString_injective hst, hbc⟩

/-- What a vehicle is known by: the line, the stop where it was seen, the terminal that it was heading to
and the second at which it was seen. -/
structure Observation where
  line : LineId
  station : StationId
  direction : StationId
  second : Int
  deriving DecidableEq, Repr

/-- The second is one that a signed number of 64 bits can hold. -/
def Observation.Stamped (o : Observation) : Prop :=
  -9223372036854775808 ≤ o.second ∧ o.second < 9223372036854775808

instance (o : Observation) : Decidable o.Stamped := inferInstanceAs (Decidable (_ ∧ _))

namespace Prediction

def observation (p : Prediction) : Observation :=
  ⟨p.line.id, p.located.station, p.locatedDirection, p.seenAt.unixSeconds⟩

/-- What the hash in the id of its vehicle is taken of. -/
def hashed (p : Prediction) : Bytes :=
  VehicleId.observationBytes p.line.id p.located.station p.locatedDirection p.seenAt

variable {p q : Prediction}

theorem hashed_eq_of_observation_eq (h : p.observation = q.observation) : p.hashed = q.hashed := by
  obtain ⟨hline, hstation, hdirection, hsecond⟩ := Observation.mk.injEq .. ▸ h
  rw [hashed, hashed, VehicleId.observationBytes, VehicleId.observationBytes, hline, hstation,
    hdirection, hsecond]

theorem hashed_inj (hp : p.observation.Stamped) (hq : q.observation.Stamped) :
    p.hashed = q.hashed ↔ p.observation = q.observation := by
  refine ⟨fun h => ?_, hashed_eq_of_observation_eq⟩
  simp only [hashed, VehicleId.observationBytes, List.append_assoc] at h
  obtain ⟨hline, h⟩ := VehicleId.separated_append_inj h
  obtain ⟨hstation, h⟩ := VehicleId.separated_append_inj h
  obtain ⟨hdirection, h⟩ := VehicleId.separated_append_inj h
  have hsecond : p.seenAt.unixSeconds = q.seenAt.unixSeconds := by
    have hnat := congrArg Bytes.ofLittleEndian h
    rw [Bytes.ofLittleEndian_littleEndian, Bytes.ofLittleEndian_littleEndian] at hnat
    simp only [Observation.Stamped, observation] at hp hq
    omega
  rw [observation, observation, hline, hstation, hdirection, hsecond]

/-- The last 16 characters of an id are the digits of the hash. -/
theorem hash_eq_of_vehicle_eq (h : p.vehicle = q.vehicle) :
    Xxh64.hash VehicleId.seed p.hashed = Xxh64.hash VehicleId.seed q.hashed := by
  have hchars := congrArg String.toList h
  simp only [vehicle, VehicleId.ofObservation, String.toList_append, String.toList_ofList] at hchars
  obtain ⟨-, hhex⟩ := List.append_inj' hchars (by rw [Text.paddedHex_length, Text.paddedHex_length])
  exact UInt64.toNat_inj.mp (Text.paddedHex_inj (UInt64.toNat_lt _) (UInt64.toNat_lt _) hhex)

theorem vehicle_inj (hp : p.observation.Stamped) (hq : q.observation.Stamped)
    (hhash : Xxh64.hash VehicleId.seed p.hashed = Xxh64.hash VehicleId.seed q.hashed →
      p.hashed = q.hashed) :
    p.vehicle = q.vehicle ↔ p.observation = q.observation := by
  refine ⟨fun h => (hashed_inj hp hq).mp (hhash (hash_eq_of_vehicle_eq h)), fun h => ?_⟩
  have hbytes := hashed_eq_of_observation_eq h
  rw [hashed, hashed] at hbytes
  rw [vehicle, vehicle, VehicleId.ofObservation, VehicleId.ofObservation, hbytes,
    show p.line.id = q.line.id from congrArg Observation.line h]

end Prediction

end Arrivals
