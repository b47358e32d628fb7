import Arrivals.Proofs.Dissemination.Publication

/-! The two forms of the arrivals. Main statement: whoever reads what one publication sends of the board,
in binary form or as text, comes to the same messages, and they say of each arrival what its estimate is. -/

namespace Arrivals

namespace Dissemination

/-- A publication starts with the arrivals: the same bytes under the live name and the staging name, and a
text. Both are read without a fault and give the same messages, one for each live arrival. The bytes are
no more than a machine can address. -/
theorem run_etas_agree (t : Topics) (now : Instant) (board : Board) (source : Source) (broker : Broker)
    (hlen : (etaBatch board now).encode.length < 2 ^ 64) :
    ∃ (live : List (Slot × Arrival)) (binary text : Bytes) (positions : Wire.PositionBatch),
      Broadcast broker
        ([⟨t.live ++ "/binary/" ++ "vehicle-etas", binary⟩,
          ⟨t.staging ++ "/binary/" ++ "vehicle-etas", binary⟩,
          ⟨t.live ++ "/json/" ++ "vehicle-etas", text⟩] ++
          triple t "vehicle-positions" positions.encode positions.render)
        (run t now board source broker).1.delivery (run t now board source broker).2.2 ∧
      (live.Pairwise (fun x y => x.1.before y.1 = true) ∧
        ∀ slot a, (slot, a) ∈ live ↔ board.arrivals.visible? now slot = some a) ∧
      let batch : Wire.EtaBatch := ⟨live.map fun e => Wire.etaPayload e.1 e.2 now⟩
      Wire.EtaBatch.decode binary = some batch ∧
      (Bytes.toString? text).map Wire.EtaBatch.parse = some (.ok batch) ∧
      ∀ slot a, (slot, a) ∈ live →
        let m := Wire.etaPayload slot a now
        m ∈ batch.etas ∧ m.Shows a.estimate ∧ m.CountsIn a.units := by
  refine ⟨board.all now, (etaBatch board now).encode, Bytes.ofString (etaBatch board now).render, _,
    broadcast_run t now board source broker, ⟨?_, fun slot a => Board.mem_all_iff⟩, ?_⟩
  · exact (board.pairwise_all now).imp fun h => Slot.before_iff.mpr h
  intro batch
  refine ⟨Wire.EtaBatch.decode_encoded hlen, ?_, fun slot a hlive => ⟨?_, ?_, ?_⟩⟩
  · rw [Bytes.toString?_ofString, Option.map_some]
    exact congrArg some (Wire.EtaBatch.parse_render fun m => named_of_mem_etaBatch)
  · exact List.mem_map_of_mem hlive
  · exact Wire.shows_etaPayload slot a now
  · exact Wire.countsIn_etaPayload slot a now

/-- Two arrivals at a stop whose name has characters that are escaped: of one nothing is known, and the
other is to come between the last minute and this one, at a platform without a name. -/
def quayArrival (vehicle : VehicleId) (platform : Option String) (estimate : Estimate) : Arrival :=
  ⟨vehicle, "q", "\"\x01é", "up", ⟨0⟩, .ofSeconds 60, 0, platform, estimate, .minutes⟩

def quayBoard : Board :=
  (Board.empty.set ⟨0⟩ ⟨"\"\x01é", "up", 2⟩ (quayArrival "v" none .notAvailable)).set ⟨0⟩
    ⟨"\"\x01é", "up", 1⟩ (quayArrival "w" (some "") (.interval (-60) 59))

theorem run_etas_agree_quay :
    (etaBatch quayBoard ⟨0⟩).encode.length < 2 ^ 64 ∧ ∃ binary text batch,
      Wire.EtaBatch.decode binary = some batch ∧
      (Bytes.toString? text).map Wire.EtaBatch.parse = some (.ok batch) ∧
      ⟨"\"\x01é", "up", 2, 0, 60, 0, 1, none, "v", 0, none⟩ ∈ batch.etas ∧
      ⟨"\"\x01é", "up", 1, 0, 60, 2, 1, some (.interval ⟨-1, 0⟩), "w", 0, some ""⟩ ∈ batch.etas := by
  have hlive : quayBoard.arrivals.liveEntries ⟨0⟩ =
      [(⟨"\"\x01é", "up", 2⟩, quayArrival "v" none .notAvailable),
        (⟨"\"\x01é", "up", 1⟩, quayArrival "w" (some "") (.interval (-60) 59))] := rfl
  have hlen : (etaBatch quayBoard ⟨0⟩).encode.length < 2 ^ 64 := by
    rw [etaBatch, Board.all, hlive, mergeSort_pair]
    decide +kernel
  obtain ⟨live, binary, text, -, -, ⟨-, hmem⟩, hbinary, htext, hlisted⟩ :=
    run_etas_agree ⟨"live", "dev"⟩ ⟨0⟩ quayBoard (.ofStore default) Broker.empty hlen
  have hunknown := hlisted _ _ ((hmem ⟨"\"\x01é", "up", 2⟩ (quayArrival "v" none .notAvailable)).mpr rfl)
  have hrange := hlisted _ _ ((hmem ⟨"\"\x01é", "up", 1⟩
    (quayArrival "w" (some "") (.interval (-60) 59))).mpr rfl)
  exact ⟨hlen, binary, text, _, hbinary, htext, hunknown.1, hrange.1⟩

end Dissemination

end Arrivals
