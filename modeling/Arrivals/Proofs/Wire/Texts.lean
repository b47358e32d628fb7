import Arrivals.Proofs.Json.Records
import Arrivals.Wire.Text

/-! Messages read back from their text. Main statement: a batch of arrivals whose kinds and units have
names reads as itself. -/

namespace Arrivals.Wire

open Json

theorem Kind.reads (k : Kind) : Reads Kind.ofDraft (Kind.toJson k.code) k.code := by
  rw [Kind.toJson, Kind.ofCode?_code]
  exact .oneOf (by cases k <;> rfl)

theorem Units.reads (u : Units) : Reads Units.ofDraft (Units.toJson u.code) u.code := by
  rw [Units.toJson, Units.ofCode?_code]
  exact .oneOf (by cases u <;> rfl)

theorem Interval.reads (i : Interval) : Reads Interval.ofDraft i.toJson i := by
  have hlower := Reads.int64 i.lower
  have hupper := Reads.int64 i.upper
  refine .record (by decide) (.cons (FieldSpec.takes_required hlower)
    (.cons (FieldSpec.takes_required hupper) .nil)) ?_
  rw [Record.get_bind rfl hlower, Record.get_bind rfl hupper]
  rfl

theorem Value.reads (v : Value) : Reads Value.ofDraft v.toJson v := by
  cases v with
  | single n =>
    have hn := (Reads.int64 n).map Value.single
    exact .tagged hn
  | interval i =>
    have hi := i.reads.map Value.interval
    exact .tagged hi

namespace VehicleEta

/-- An enumeration that is no case of this version is written by number, which no reader takes. -/
structure Named (m : VehicleEta) : Prop where
  kind : ∃ k : Kind, m.kind = k.code
  units : ∃ u : Units, m.units = u.code

theorem reads {m : VehicleEta} (h : m.Named) : Reads ofDraft m.toJson m := by
  have hstation := Reads.text m.station
  have hdirection := Reads.text m.direction
  have hrank := Reads.uint32 m.rank
  have hcomputed := Reads.int64 m.computed
  have hvalidity := Reads.uint32 m.validity
  have hkind : Reads Kind.ofDraft (Kind.toJson m.kind) m.kind := by
    obtain ⟨k, hk⟩ := h.kind
    rw [hk]
    exact k.reads
  have hunits : Reads Units.ofDraft (Units.toJson m.units) m.units := by
    obtain ⟨u, hu⟩ := h.units
    rw [hu]
    exact u.reads
  have hvalue : Reads (Draft.optional Value.ofDraft) (.ofOption Value.toJson m.value) m.value := by
    refine .optional fun v _ => ⟨?_, v.reads⟩
    cases v <;> nofun
  have hvehicle := Reads.text m.vehicle
  have hcars := Reads.uint32 m.cars
  have hplatform : Reads (Draft.optional Draft.text) (.ofOption .str m.platform) m.platform :=
    .optional fun s _ => ⟨nofun, .text s⟩
  refine .record (by decide) (.cons (FieldSpec.takes_required hstation) <|
    .cons (FieldSpec.takes_required hdirection) <| .cons (FieldSpec.takes_required hrank) <|
    .cons (FieldSpec.takes_required hcomputed) <| .cons (FieldSpec.takes_required hvalidity) <|
    .cons (FieldSpec.takes_required hkind) <| .cons (FieldSpec.takes_required hunits) <|
    .cons (FieldSpec.takes_optional hvalue) <| .cons (FieldSpec.takes_required hvehicle) <|
    .cons (FieldSpec.takes_required hcars) <| .cons (FieldSpec.takes_optional hplatform) .nil) ?_
  rw [Record.get_bind rfl hstation, Record.get_bind rfl hdirection, Record.get_bind rfl hrank,
    Record.get_bind rfl hcomputed, Record.get_bind rfl hvalidity, Record.get_bind rfl hkind,
    Record.get_bind rfl hunits, Record.getOptional_bind rfl hvalue, Record.get_bind rfl hvehicle,
    Record.get_bind rfl hcars, Record.getOptional_bind rfl hplatform]
  rfl

end VehicleEta

namespace EtaBatch

theorem parse_render {b : EtaBatch} (h : ∀ m ∈ b.etas, m.Named) : parse b.render = .ok b := by
  have hetas : Reads (Draft.list VehicleEta.ofDraft) (.arr (b.etas.map VehicleEta.toJson)) b.etas :=
    .list fun m hm => VehicleEta.reads (h m hm)
  have hbatch : Reads ofDraft b.toJson b := by
    refine .record (by decide) (.cons (FieldSpec.takes_required hetas) .nil) ?_
    rw [Record.get_bind rfl hetas]
    rfl
  exact hbatch.decode_render

end EtaBatch

end Arrivals.Wire
