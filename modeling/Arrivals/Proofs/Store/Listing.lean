import Arrivals.Store.Transaction
import Mathlib.Data.List.Nodup

/-! The connections that leave a station, as a transaction lists them and as it looks them up one by one.
Main statement: the list has, once each, what the transaction shows under the keys that the store holds, so
what it misses are the edges that are new in the transaction. -/

namespace Arrivals

namespace Store

theorem mem_values_iff {s : Store} {c : Connection} :
    c ∈ s.connections.values ↔ s.connection? c.key = some c := by
  rw [Table.values, List.mem_map]
  constructor
  · rintro ⟨e, he, rfl⟩
    rw [s.filedConnections e he]
    exact Table.mem_entries_iff.mp he
  · exact fun h => ⟨(c.key, c), Table.mem_of_find h, rfl⟩

theorem nodup_keys_values (s : Store) : (s.connections.values.map Connection.key).Nodup := by
  have hkeys : s.connections.values.map Connection.key = s.connections.keys := by
    rw [Table.values, Table.keys, List.map_map]
    exact List.map_congr_left s.filedConnections
  exact hkeys ▸ s.connections.distinct

end Store

namespace Transaction

theorem key_getD (t : Transaction) (c : Connection) :
    ((t.connections.get? c.key).getD c).key = c.key := by
  cases h : t.connections.get? c.key with
  | none => rfl
  | some d => exact t.filedConnections.key_eq h

theorem connection?_of_stored (t : Transaction) {s : Store} {k : ConnectionKey} {c : Connection}
    (h : s.connection? k = some c) :
    t.connection? s k = some ((t.connections.get? c.key).getD c) := by
  rw [connection?, Store.key_of_connection? h, h]
  cases t.connections.get? k <;> rfl

/-- A transaction that shows nothing new lists what the store has. -/
theorem connectionsFrom_of_shown {t : Transaction} {s : Store}
    (h : ∀ k, t.connection? s k = s.connection? k) (station : StationId) :
    t.connectionsFrom s station = s.connections.values.filter fun c => c.origin = station := by
  refine (List.map_congr_left fun c hc => ?_).trans (List.map_id _)
  have hstored : s.connection? c.key = some c := Store.mem_values_iff.mp (List.mem_filter.mp hc).1
  have hshown := t.connection?_of_stored hstored
  rw [h, hstored] at hshown
  exact (Option.some.inj hshown).symm

theorem nodup_connectionsFrom (t : Transaction) (s : Store) (station : StationId) :
    (t.connectionsFrom s station).Nodup := by
  have hsub : ((s.connections.values.filter fun c => c.origin = station).map Connection.key).Nodup :=
    s.nodup_keys_values.sublist (List.filter_sublist.map _)
  refine List.Nodup.of_map Connection.key ?_
  rw [connectionsFrom, List.map_map]
  -- What a transaction has in place of a connection is filed under the same key.
  have hkeys : Connection.key ∘ (fun c => (t.connections.get? c.key).getD c) = Connection.key :=
    funext t.key_getD
  rwa [hkeys]

theorem mem_connectionsFrom_iff {t : Transaction} {s : Store} {station : StationId} {c : Connection} :
    c ∈ t.connectionsFrom s station ↔ ∃ destination, (s.connection? ⟨station, destination⟩).isSome ∧
      t.connection? s ⟨station, destination⟩ = some c := by
  rw [connectionsFrom, List.mem_map]
  constructor
  · rintro ⟨d, hd, rfl⟩
    rw [List.mem_filter, Store.mem_values_iff] at hd
    obtain ⟨hstored, horigin⟩ := hd
    obtain rfl : d.origin = station := by simpa using horigin
    exact ⟨d.destination, Option.isSome_of_eq_some hstored, t.connection?_of_stored hstored⟩
  · rintro ⟨destination, hsome, hc⟩
    obtain ⟨d, hd⟩ := Option.isSome_iff_exists.mp hsome
    have hkey : d.key = ⟨station, destination⟩ := Store.key_of_connection? hd
    have horigin : d.origin = station := congrArg ConnectionKey.origin hkey
    refine ⟨d, List.mem_filter.mpr ⟨Store.mem_values_iff.mpr (hkey ▸ hd), by simpa using horigin⟩, ?_⟩
    exact Option.some.inj ((t.connection?_of_stored hd).symm.trans hc)

/-- A commit of nothing new leaves the store as it is. -/
theorem commit_eq_self {t : Transaction} {s : Store} (hc : ∀ k, t.connection? s k = s.connection? k)
    (hx : ∀ k, t.transfer? s k = s.transfer? k) : t.commit s = s := by
  have hconnections : s.connections.insertAll t.connections.entries = s.connections := by
    refine Table.insertAll_eq_self fun e he => ?_
    refine (hc e.1).symm.trans ?_
    rw [connection?, Table.mem_entries_iff.mp he, Option.some_or]
  have htransfers : s.transfers.insertAll t.transfers.entries = s.transfers := by
    refine Table.insertAll_eq_self fun e he => ?_
    refine (hx e.1).symm.trans ?_
    rw [transfer?, Table.mem_entries_iff.mp he, Option.some_or]
  obtain ⟨stations, lines, connections, transfers, trips, credentials, _, _, _⟩ := s
  simp only [commit, Store.mk.injEq, true_and, and_true]
  exact ⟨hconnections, htransfers⟩

/-- The list of a station's connections has no duplicates and shows what the transaction shows under the
keys of the store. It agrees with looking up every key just when no edge from that station was saved
whose key the store does not hold yet. -/
theorem connectionsFrom_shows (t : Transaction) (s : Store) (station : StationId) :
    (t.connectionsFrom s station).Nodup ∧
      (∀ c, c ∈ t.connectionsFrom s station ↔
        ∃ destination, (s.connection? ⟨station, destination⟩).isSome ∧
          t.connection? s ⟨station, destination⟩ = some c) ∧
      ((∀ c, c ∈ t.connectionsFrom s station ↔
          ∃ destination, t.connection? s ⟨station, destination⟩ = some c) ↔
        ∀ destination, (t.connections.get? ⟨station, destination⟩).isSome →
          (s.connection? ⟨station, destination⟩).isSome) := by
  refine ⟨t.nodup_connectionsFrom s station, fun c => mem_connectionsFrom_iff, fun h destination hnew => ?_,
    fun h c => ?_⟩
  · obtain ⟨c, hc⟩ := Option.isSome_iff_exists.mp hnew
    have hshown : t.connection? s ⟨station, destination⟩ = some c := by rw [connection?, hc, Option.some_or]
    obtain ⟨other, hstored, hother⟩ := mem_connectionsFrom_iff.mp ((h c).mpr ⟨destination, hshown⟩)
    -- The record names its key itself, so it is listed under no other.
    have hkey := (key_of_connection? hother).symm.trans (key_of_connection? hshown)
    exact hkey ▸ hstored
  · rw [mem_connectionsFrom_iff]
    constructor
    · rintro ⟨destination, _, hc⟩
      exact ⟨destination, hc⟩
    · rintro ⟨destination, hc⟩
      refine ⟨destination, ?_, hc⟩
      rcases Option.or_eq_some_iff.mp hc with hheld | ⟨_, hstored⟩
      · exact h destination (Option.isSome_of_eq_some hheld)
      · exact Option.isSome_of_eq_some hstored

def newEdge : Connection := ⟨"a", "b", "blue", 60, 10, 0⟩

/-- An edge that is new in a transaction is found by its key and missing from the list. -/
theorem connectionsFrom_misses_new :
    (Transaction.empty.saveConnection newEdge).connection? default ⟨"a", "b"⟩ = some newEdge ∧
      (Transaction.empty.saveConnection newEdge).connectionsFrom default "a" = [] :=
  ⟨rfl, rfl⟩

end Transaction

end Arrivals
