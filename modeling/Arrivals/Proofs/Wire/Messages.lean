import Arrivals.Proofs.Wire.Fields
import Arrivals.Wire.Binary

/-! Messages read back from their binary form. Main statement: a batch of arrivals that is short
enough to be held in memory reads as itself. -/

namespace Arrivals.Wire

namespace Content

@[simp] theorem text?_ofText (s : String) : (ofText s).text? = some s := Bytes.toString?_ofString s

@[simp] theorem uint32?_ofUInt32 (n : UInt32) : (ofUInt32 n).uint32? = some n := by
  simp [ofUInt32, uint32?, varint?]

theorem bmod_word {size : Nat} (h : size ∣ 2 ^ 64) (n : Int) :
    ((n % 18446744073709551616).toNat : Int).bmod size = n.bmod size := by
  have hnonneg : 0 ≤ n % 18446744073709551616 := Int.emod_nonneg _ (by decide)
  have hdvd : (size : Int) ∣ 18446744073709551616 := Int.ofNat_dvd.mpr h
  rw [Int.toNat_of_nonneg hnonneg, ← Int.emod_bmod, Int.emod_emod_of_dvd n hdvd, Int.emod_bmod]

@[simp] theorem int64?_ofInt64 (n : Int64) : (ofInt64 n).int64? = some n := by
  have hn : Int64.ofNat (n.toInt % 18446744073709551616).toNat = n := by
    rw [← Int64.toInt_inj, Int64.toInt_ofNat', bmod_word (by decide)]
    exact n.toInt_bmod
  simp [ofInt64, ofInt, int64?, varint?, hn]

@[simp] theorem int32?_ofInt32 (n : Int32) : (ofInt32 n).int32? = some n := by
  have hn : Int32.ofNat (n.toInt % 18446744073709551616).toNat = n := by
    rw [← Int32.toInt_inj, Int32.toInt_ofNat', bmod_word (by decide)]
    exact n.toInt_bmod
  simp [ofInt32, ofInt, int32?, varint?, hn]

theorem fits_ofInt (n : Int) : (ofInt n).Fits := by
  change (n % 18446744073709551616).toNat < 2 ^ 64
  omega

theorem fits_ofUInt32 (n : UInt32) : (ofUInt32 n).Fits := by
  have hlt := n.toNat_lt
  change n.toNat < 2 ^ 64
  omega

end Content

section Merging

variable {α : Type} {merge : α → Field → Option α} {fields fields' : List Field}
  {number : Nat} {c : Content} {m n l : α}

/-- Fields that can be written, and that turn one message into another when they are merged into it. -/
structure Builds (merge : α → Field → Option α) (fields : List Field) (m n : α) : Prop where
  fits : ∀ f ∈ fields, f.Fits
  merged : mergeAll merge m fields = some n

namespace Builds

theorem nil : Builds merge [] m m := ⟨nofun, rfl⟩

theorem single (hnumber : 0 < number ∧ number < 2 ^ 29) (hfits : c.Fits)
    (h : merge m ⟨number, c⟩ = some n) : Builds merge [⟨number, c⟩] m n := by
  refine ⟨fun f hf => ?_, ?_⟩
  · rw [List.mem_singleton.mp hf]
    exact ⟨hnumber.1, hnumber.2, hfits⟩
  · simp [mergeAll, h]

theorem append (h : Builds merge fields m n) (h' : Builds merge fields' n l) :
    Builds merge (fields ++ fields') m l := by
  refine ⟨fun f hf => ?_, ?_⟩
  · rcases List.mem_append.mp hf with hf | hf
    · exact h.fits f hf
    · exact h'.fits f hf
  · have hfirst := h.merged
    have hsecond := h'.merged
    rw [mergeAll] at hfirst hsecond
    rw [mergeAll, List.foldlM_append, hfirst]
    exact hsecond

/-- A field that has its default need not be written: the message is as it was. -/
theorem unlessDefault {isDefault : Bool} (h : Builds merge [⟨number, c⟩] m n)
    (hdefault : isDefault = true → n = m) :
    Builds merge (Wire.unlessDefault isDefault number c) m n := by
  cases isDefault with
  | false => exact h
  | true =>
    rw [hdefault rfl]
    exact nil

section Parts

variable (hnumber : 0 < number ∧ number < 2 ^ 29)

include hnumber

theorem text {s : String} (h : merge m ⟨number, .ofText s⟩ = some n) (hdefault : s = "" → n = m) :
    Builds merge (textField number s) m n :=
  unlessDefault (single hnumber trivial h) fun hs => hdefault (of_decide_eq_true hs)

theorem uint32 {x : UInt32} (h : merge m ⟨number, .ofUInt32 x⟩ = some n) (hdefault : x = 0 → n = m) :
    Builds merge (uint32Field number x) m n :=
  unlessDefault (single hnumber (Content.fits_ofUInt32 x) h) fun hx => hdefault (of_decide_eq_true hx)

theorem int64 {x : Int64} (h : merge m ⟨number, .ofInt64 x⟩ = some n) (hdefault : x = 0 → n = m) :
    Builds merge (int64Field number x) m n :=
  unlessDefault (single hnumber (Content.fits_ofInt _) h) fun hx => hdefault (of_decide_eq_true hx)

theorem int32 {x : Int32} (h : merge m ⟨number, .ofInt32 x⟩ = some n) (hdefault : x = 0 → n = m) :
    Builds merge (int32Field number x) m n :=
  unlessDefault (single hnumber (Content.fits_ofInt _) h) fun hx => hdefault (of_decide_eq_true hx)

theorem optionalText (put : Option String → α)
    (h : ∀ s, merge (put none) ⟨number, .ofText s⟩ = some (put (some s))) (s : Option String) :
    Builds merge (Wire.optionalText number s) (put none) (put s) := by
  cases s with
  | none => exact nil
  | some s => exact single hnumber trivial (h s)

end Parts

/-- Messages that stand one behind the other under one number are read in this order. -/
theorem repeated {β γ : Type} (hnumber : 0 < number ∧ number < 2 ^ 29) (put : List γ → α)
    (write : β → Bytes) (read : β → γ) {l : List β}
    (h : ∀ b ∈ l, ∀ before,
      merge (put before) ⟨number, .sized (write b)⟩ = some (put (before ++ [read b])))
    (before : List γ) :
    Builds merge (l.map fun b => ⟨number, .sized (write b)⟩) (put before)
      (put (before ++ l.map read)) := by
  induction l generalizing before with
  | nil =>
    rw [List.map_nil, List.map_nil, List.append_nil]
    exact nil
  | cons b rest ih =>
    have hfirst : Builds merge [⟨number, .sized (write b)⟩] (put before) (put (before ++ [read b])) :=
      single hnumber trivial (h b List.mem_cons_self before)
    have hrest := ih (fun c hc => h c (List.mem_cons_of_mem _ hc)) (before ++ [read b])
    rw [List.append_assoc, List.singleton_append, ← List.map_cons] at hrest
    exact hfirst.append hrest

theorem decodeWith (h : Builds merge fields m n) (hlen : (encodeFields fields).length < 2 ^ 64)
    (depth : Nat) : Wire.decodeWith merge depth m (encodeFields fields) = some n := by
  have hread := readFields_encodeFields h.fits hlen (groupDepth depth)
  rw [Wire.decodeWith, hread]
  exact h.merged

end Builds

end Merging

theorem Interval.builds (i : Interval) : Builds Interval.merge i.fields ⟨0, 0⟩ i := by
  have hlower : Builds Interval.merge (int64Field 1 i.lower) ⟨0, 0⟩ ⟨i.lower, 0⟩ :=
    .int64 (by decide) (by simp [merge]) fun h => by rw [h]
  have hupper : Builds Interval.merge (int64Field 2 i.upper) ⟨i.lower, 0⟩ i :=
    .int64 (by decide) (by simp [merge]) fun h => by rw [← h]
  exact hlower.append hupper

namespace VehicleEta

variable (depth : Nat) (m : VehicleEta)

/-- The value is the one part of which there are two forms: the field says which one it is. -/
theorem builds_value (start : VehicleEta) (h : start.value = none)
    (hlen : ∀ i, m.value = some (.interval i) → (encodeFields i.fields).length < 2 ^ 64) :
    Builds (merge depth) (m.value.map Value.field).toList start { start with value := m.value } := by
  cases hvalue : m.value with
  | none =>
    have hsame : { start with value := none } = start := by rw [← h]
    rw [hsame]
    exact .nil
  | some v =>
    cases v with
    | single n => exact .single (by decide) (Content.fits_ofInt _) (by simp [merge])
    | interval i =>
      have hread := i.builds.decodeWith (hlen i hvalue) (depth + 1)
      refine .single (by decide) trivial ?_
      simp [merge, Value.mergeInterval, h, Content.message?, hread]

theorem builds (hlen : m.encode.length < 2 ^ 64) : Builds (merge depth) m.fields empty m := by
  have hinterval (i : Interval) (h : m.value = some (.interval i)) :
      (encodeFields i.fields).length < 2 ^ 64 := by
    have hmem : ⟨9, .sized (encodeFields i.fields)⟩ ∈ m.fields := by simp [fields, h, Value.field]
    exact Nat.lt_of_le_of_lt (length_le_of_mem hmem) hlen
  -- from the last part to the first, each taken away from the message
  refine .append (n := { m with platform := none }) ?_
    (.optionalText (by decide) (fun s => { m with platform := s }) (by simp [merge]) _)
  refine .append (n := { m with cars := 0, platform := none }) ?_
    (.uint32 (by decide) (by simp [merge]) fun h => by rw [h])
  refine .append (n := { m with vehicle := "", cars := 0, platform := none }) ?_
    (.text (by decide) (by simp [merge]) fun h => by rw [h])
  refine .append ?_ (m.builds_value depth
    { m with value := none, vehicle := "", cars := 0, platform := none } rfl hinterval)
  refine .append (n := { empty with
      station := m.station, direction := m.direction, rank := m.rank, computed := m.computed,
      validity := m.validity, kind := m.kind }) ?_
    (.int32 (by decide) (by simp [merge, empty]) fun h => by rw [h, empty])
  refine .append (n := { empty with
      station := m.station, direction := m.direction, rank := m.rank, computed := m.computed,
      validity := m.validity }) ?_ (.int32 (by decide) (by simp [merge]) fun h => by rw [h, empty])
  refine .append (n := { empty with
      station := m.station, direction := m.direction, rank := m.rank, computed := m.computed }) ?_
    (.uint32 (by decide) (by simp [merge]) fun h => by rw [h, empty])
  refine .append (n := { empty with
      station := m.station, direction := m.direction, rank := m.rank }) ?_
    (.int64 (by decide) (by simp [merge]) fun h => by rw [h, empty])
  refine .append (n := { empty with station := m.station, direction := m.direction }) ?_
    (.uint32 (by decide) (by simp [merge]) fun h => by rw [h, empty])
  refine .append (n := { empty with station := m.station }) ?_
    (.text (by decide) (by simp [merge]) fun h => by rw [h, empty])
  exact .text (by decide) (by simp [merge]) fun h => by rw [h, empty]

end VehicleEta

namespace EtaBatch

theorem builds {etas : List VehicleEta} (hlen : ∀ m ∈ etas, m.encode.length < 2 ^ 64) :
    Builds merge (fields ⟨etas⟩) ⟨[]⟩ ⟨etas⟩ := by
  have hbuilds : Builds merge (fields ⟨etas⟩) ⟨[]⟩ ⟨etas.map id⟩ := by
    refine .repeated (by decide) EtaBatch.mk VehicleEta.encode id (fun m hm before => ?_) []
    have hread : decodeWith (VehicleEta.merge 1) 1 .empty m.encode = some m :=
      (m.builds 1 (hlen m hm)).decodeWith (hlen m hm) 1
    simp [merge, Content.message?, hread]
  rwa [List.map_id] at hbuilds

theorem decode_encoded {b : EtaBatch} (hlen : b.encode.length < 2 ^ 64) :
    decode b.encode = some b := by
  have hetas (m : VehicleEta) (hm : m ∈ b.etas) : m.encode.length < 2 ^ 64 := by
    have hmem : ⟨1, .sized m.encode⟩ ∈ b.fields := List.mem_map.mpr ⟨m, hm, rfl⟩
    exact Nat.lt_of_le_of_lt (length_le_of_mem hmem) hlen
  exact (builds hetas).decodeWith hlen 0

end EtaBatch

end Arrivals.Wire
