import Arrivals.Proofs.Json.Refusals
import Arrivals.Proofs.Wire.Texts
import Arrivals.Wire.Binary

/-! Which arrivals are read back from their text. Main statement: those whose kind and units have names, and
batches of such. A number that names no case is written as it is, and its text is refused. -/

namespace Arrivals.Wire

open Json

theorem isSome_find?_code {κ : Type} {all : List κ} (code : κ → Int32) (hall : ∀ k, k ∈ all) {n : Int32} :
    (all.find? fun k => code k = n).isSome ↔ ∃ k, n = code k := by
  rw [List.find?_isSome]
  constructor
  · rintro ⟨k, -, hk⟩
    exact ⟨k, (of_decide_eq_true hk).symm⟩
  · rintro ⟨k, hk⟩
    exact ⟨k, hall k, decide_eq_true hk.symm⟩

namespace Kind

variable {n : Int32}

theorem isSome_ofCode?_iff : (ofCode? n).isSome ↔ ∃ k : Kind, n = k.code :=
  isSome_find?_code code fun k => by cases k <;> decide

theorem refuses (h : ¬ ∃ k : Kind, n = k.code) : Refuses ofDraft (toJson n) .malformed := by
  rw [← isSome_ofCode?_iff, Option.not_isSome_iff_eq_none] at h
  rw [toJson, h]
  exact .oneOf_int (Reads.int32 n).legible

theorem legible_toJson (n : Int32) : (toJson n).Legible := by
  rw [toJson]
  split
  · trivial
  · exact (Reads.int32 n).legible

end Kind

namespace Units

variable {n : Int32}

theorem isSome_ofCode?_iff : (ofCode? n).isSome ↔ ∃ u : Units, n = u.code :=
  isSome_find?_code code fun u => by cases u <;> decide

theorem refuses (h : ¬ ∃ u : Units, n = u.code) : Refuses ofDraft (toJson n) .malformed := by
  rw [← isSome_ofCode?_iff, Option.not_isSome_iff_eq_none] at h
  rw [toJson, h]
  exact .oneOf_int (Reads.int32 n).legible

theorem legible_toJson (n : Int32) : (toJson n).Legible := by
  rw [toJson]
  split
  · trivial
  · exact (Reads.int32 n).legible

end Units

namespace VehicleEta

variable {m : VehicleEta}

theorem named_iff : m.Named ↔ (Kind.ofCode? m.kind).isSome ∧ (Units.ofCode? m.units).isSome := by
  rw [Kind.isSome_ofCode?_iff, Units.isSome_ofCode?_iff]
  exact ⟨fun h => ⟨h.kind, h.units⟩, fun h => ⟨h.1, h.2⟩⟩

instance : Decidable m.Named := decidable_of_iff' _ named_iff

theorem legible_toJson (m : VehicleEta) : m.toJson.Legible := by
  have hvalue : (Json.ofOption Value.toJson m.value).Legible := by
    cases m.value with
    | none => trivial
    | some v => exact v.reads.legible
  have hplatform : (Json.ofOption Json.str m.platform).Legible := by
    cases m.platform <;> trivial
  exact ⟨trivial, trivial, (Reads.uint32 _).legible, (Reads.int64 _).legible, (Reads.uint32 _).legible,
    Kind.legible_toJson _, Units.legible_toJson _, hvalue, trivial, (Reads.uint32 _).legible, hplatform,
    trivial⟩

theorem refuses (h : ¬ m.Named) : Refuses ofDraft m.toJson .malformed := by
  have hfront : List.Forall₂ FieldSpec.Takes
      [.required "station" Draft.text, .required "direction" Draft.text, .required "rank" Draft.uint32,
        .required "computed" Draft.int64, .required "validity" Draft.uint32]
      [("station", .str m.station), ("direction", .str m.direction), ("rank", .int m.rank.toNat),
        ("computed", .int m.computed.toInt), ("validity", .int m.validity.toNat)] :=
    .cons (FieldSpec.takes_required (.text _)) <| .cons (FieldSpec.takes_required (.text _)) <|
      .cons (FieldSpec.takes_required (.uint32 _)) <| .cons (FieldSpec.takes_required (.int64 _)) <|
      .cons (FieldSpec.takes_required (.uint32 _)) .nil
  by_cases hkind : ∃ k : Kind, m.kind = k.code
  · have hunits : ¬ ∃ u : Units, m.units = u.code := fun hunits => h ⟨hkind, hunits⟩
    have hread : Reads Kind.ofDraft (Kind.toJson m.kind) m.kind := by
      obtain ⟨k, hk⟩ := hkind
      rw [hk]
      exact k.reads
    have htaken : (FieldSpec.required "kind" Kind.ofDraft).Takes ("kind", Kind.toJson m.kind) :=
      FieldSpec.takes_required hread
    exact .record _ (by decide) rfl (List.rel_append hfront (.cons htaken .nil)) (Units.refuses hunits)
      m.legible_toJson
  · exact .record _ (by decide) rfl hfront (Kind.refuses hkind) m.legible_toJson

end VehicleEta

theorem EtaBatch.refuses {b : EtaBatch} (h : ∃ m ∈ b.etas, ¬ m.Named) :
    Refuses ofDraft b.toJson .malformed := by
  have hetas : Refuses (Draft.list VehicleEta.ofDraft) (.arr (b.etas.map VehicleEta.toJson)) .malformed := by
    refine .list (fun m _ => ?_) (h.imp fun m hm => ⟨hm.1, VehicleEta.refuses hm.2⟩)
    by_cases hm : m.Named
    · exact .inl (VehicleEta.reads hm)
    · exact .inr (VehicleEta.refuses hm)
  have hlegible : LegibleFields [("etas", .arr (b.etas.map VehicleEta.toJson))] := ⟨hetas.legible, trivial⟩
  have hfront : List.Forall₂ FieldSpec.Takes [] [] := .nil
  exact .record _ (by decide) rfl hfront hetas hlegible

/-- The text of an arrival is read as the arrival that it was written for if its kind and its units are
among those that have names, and else it is refused. A batch is refused for a single such arrival. -/
theorem texts_read_back (m : VehicleEta) (b : EtaBatch) :
    (VehicleEta.parse m.render = if m.Named then .ok m else .error .malformed) ∧
      EtaBatch.parse b.render = if ∀ m ∈ b.etas, m.Named then .ok b else .error .malformed := by
  constructor
  · split
    next h => exact (VehicleEta.reads h).decode_render
    next h => exact (VehicleEta.refuses h).decode_render
  · split
    next h => exact EtaBatch.parse_render h
    next h =>
      push Not at h
      exact (EtaBatch.refuses h).decode_render

/-- An arrival of a kind that has come up since. -/
def newer : VehicleEta := { VehicleEta.empty with kind := 7 }

/-- It is taken from its bytes, and its own text is refused. -/
theorem parse_render_newer :
    VehicleEta.decode [0x30, 0x07] = some newer ∧
      VehicleEta.parse newer.render = .error .malformed ∧
      EtaBatch.decode [0x0a, 0x02, 0x30, 0x07] = some ⟨[newer]⟩ ∧
      EtaBatch.parse (EtaBatch.render ⟨[newer]⟩) = .error .malformed := by
  have hnot : ¬ newer.Named := by decide
  refine ⟨by decide +kernel, (VehicleEta.refuses hnot).decode_render, by decide +kernel, ?_⟩
  exact (EtaBatch.refuses ⟨newer, List.mem_singleton_self _, hnot⟩).decode_render

end Arrivals.Wire
