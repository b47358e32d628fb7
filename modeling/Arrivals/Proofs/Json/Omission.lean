import Arrivals.Proofs.Json.Records

/-! Readers on what was written for them with some fields left out. Main statement: where every field that
is left out holds the value that it is then taken to hold, the record of an object is read as if none were. -/

namespace Arrivals.Json

variable {α β : Type}

mutual

/-- One value is another but for fields that are left out of its objects: these hold no more than their
defaults. -/
inductive Leaves (defaults : List (String × Json)) : Json → Json → Prop
  | same (v : Json) : Leaves defaults v v
  | arr {items items' : List Json} :
      LeavesItems defaults items items' → Leaves defaults (.arr items) (.arr items')
  | obj {fields fields' : List (String × Json)} :
      LeavesFields defaults fields fields' → Leaves defaults (.obj fields) (.obj fields')

inductive LeavesItems (defaults : List (String × Json)) : List Json → List Json → Prop
  | nil : LeavesItems defaults [] []
  | cons {v v' : Json} {items items' : List Json} :
      Leaves defaults v v' → LeavesItems defaults items items' →
        LeavesItems defaults (v :: items) (v' :: items')

inductive LeavesFields (defaults : List (String × Json)) :
    List (String × Json) → List (String × Json) → Prop
  | nil : LeavesFields defaults [] []
  | keep {name : String} {v v' : Json} {fields fields' : List (String × Json)} :
      Leaves defaults v v' → LeavesFields defaults fields fields' →
        LeavesFields defaults ((name, v) :: fields) ((name, v') :: fields')
  | leave {field : String × Json} {fields fields' : List (String × Json)} :
      field ∈ defaults → LeavesFields defaults fields fields' →
        LeavesFields defaults (field :: fields) fields'

end

variable {defaults : List (String × Json)} {v v' : Json}

theorem leavesItems_refl (items : List Json) : LeavesItems defaults items items := by
  induction items with
  | nil => exact .nil
  | cons v items ih => exact .cons (.same v) ih

theorem leavesFields_refl (fields : List (String × Json)) : LeavesFields defaults fields fields := by
  induction fields with
  | nil => exact .nil
  | cons field fields ih => exact .keep (.same field.2) ih

theorem Leaves.eq_of_scalar (h : Leaves defaults v v') (harr : ∀ items, v ≠ .arr items)
    (hobj : ∀ fields, v ≠ .obj fields) : v' = v := by
  cases h with
  | same => rfl
  | arr => exact absurd rfl (harr _)
  | obj => exact absurd rfl (hobj _)

theorem Leaves.exists_items {items : List Json} (h : Leaves defaults (.arr items) v') :
    ∃ items', v' = .arr items' ∧ LeavesItems defaults items items' := by
  cases h with
  | same => exact ⟨items, rfl, leavesItems_refl items⟩
  | arr h => exact ⟨_, rfl, h⟩

theorem Leaves.exists_fields {fields : List (String × Json)} (h : Leaves defaults (.obj fields) v') :
    ∃ fields', v' = .obj fields' ∧ LeavesFields defaults fields fields' := by
  cases h with
  | same => exact ⟨fields, rfl, leavesFields_refl fields⟩
  | obj h => exact ⟨_, rfl, h⟩

/-- A value that is read as this, whatever is left out of it. -/
def ReadsLeft (defaults : List (String × Json)) (f : Draft → Except Fault α) (v : Json) (a : α) : Prop :=
  ∀ v', Leaves defaults v v' → Reads f v' a

namespace ReadsLeft

variable {f : Draft → Except Fault α} {a : α}

theorem reads (h : ReadsLeft defaults f v a) : Reads f v a := h v (.same v)

theorem scalar (h : Reads f v a) (harr : ∀ items, v ≠ .arr items) (hobj : ∀ fields, v ≠ .obj fields) :
    ReadsLeft defaults f v a := by
  intro v' hv
  rw [hv.eq_of_scalar harr hobj]
  exact h

theorem text (s : String) : ReadsLeft defaults Draft.text (.str s) s := .scalar (.text s) nofun nofun

theorem int32 (n : Int32) : ReadsLeft defaults Draft.int32 (.int n.toInt) n :=
  .scalar (.int32 n) nofun nofun

theorem read_items {toJson : α → Json} {l : List α} {items : List Json}
    (h : ∀ a ∈ l, ReadsLeft defaults f (toJson a) a) (hl : LeavesItems defaults (l.map toJson) items) :
    LegibleItems items ∧ (draftItems items).mapM f = .ok l := by
  induction l generalizing items with
  | nil => cases hl; exact ⟨trivial, rfl⟩
  | cons a l ih =>
    cases hl with
    | cons hv hrest =>
      have hfirst := h a List.mem_cons_self _ hv
      obtain ⟨hlegible, hread⟩ := ih (fun b hb => h b (List.mem_cons_of_mem a hb)) hrest
      refine ⟨⟨hfirst.legible, hlegible⟩, ?_⟩
      simp [draftItems, hread, hfirst.read, bind, Except.bind, pure, Except.pure]

theorem list {toJson : α → Json} {l : List α} (h : ∀ a ∈ l, ReadsLeft defaults f (toJson a) a) :
    ReadsLeft defaults (Draft.list f) (.arr (l.map toJson)) l := by
  intro v' hv
  obtain ⟨items, rfl, hitems⟩ := hv.exists_items
  obtain ⟨hlegible, hread⟩ := read_items h hitems
  refine ⟨hlegible, ?_⟩
  rw [draft, Draft.list, hread]
  rfl

end ReadsLeft

namespace FieldSpec

/-- A field has this name and passes the check, whatever is left out of it. It is not itself left out where
the layout asks for it. -/
structure TakesLeft (defaults : List (String × Json)) (spec : FieldSpec) (field : String × Json) : Prop where
  name : field.1 = spec.name
  takes : ∀ v', Leaves defaults field.2 v' → spec.Takes (field.1, v')
  need : field ∈ defaults → spec.need ≠ .required

variable {f : Draft → Except Fault α} {name : String} {a : α}

theorem takesLeft_required (h : ReadsLeft defaults f v a) (hname : name ∉ defaults.map Prod.fst) :
    TakesLeft defaults (required name f) (name, v) where
  name := rfl
  takes v' hv := takes_required (h v' hv)
  need hleft := absurd (List.mem_map_of_mem hleft) hname

theorem takesLeft_defaulted (h : ReadsLeft defaults f v a) :
    TakesLeft defaults (defaulted name f) (name, v) where
  name := rfl
  takes v' hv := ⟨rfl, (h v' hv).legible, by simp [defaulted, (h v' hv).read, faultOf]⟩
  need _ := nofun

end FieldSpec

namespace Record

variable {layout : List FieldSpec} {fields fields' : List (String × Json)}

theorem map_fst_eq (h : List.Forall₂ (FieldSpec.TakesLeft defaults) layout fields) :
    fields.map Prod.fst = layout.map FieldSpec.name := by
  induction h with
  | nil => rfl
  | cons htakes _ ih => rw [List.map_cons, List.map_cons, htakes.name, ih]

/-- The fields that are not left out follow the layout, and it asks for none of the others. -/
theorem exists_takes (h : List.Forall₂ (FieldSpec.TakesLeft defaults) layout fields)
    (hleft : LeavesFields defaults fields fields') :
    ∃ todo, todo.Sublist layout ∧ List.Forall₂ FieldSpec.Takes todo fields' ∧
      ∀ spec ∈ layout, spec ∈ todo ∨ spec.need ≠ .required := by
  induction h generalizing fields' with
  | nil =>
    cases hleft
    exact ⟨[], .slnil, .nil, by simp⟩
  | @cons spec field layout fields htakes _ ih =>
    cases hleft with
    | keep hv hrest =>
      obtain ⟨todo, hsub, htodo, hneed⟩ := ih hrest
      refine ⟨spec :: todo, hsub.cons_cons spec, .cons (htakes.takes _ hv) htodo, fun other hother => ?_⟩
      rcases List.mem_cons.mp hother with rfl | hother
      · exact .inl List.mem_cons_self
      · exact (hneed other hother).imp_left (List.mem_cons_of_mem spec)
    | leave hdefault hrest =>
      obtain ⟨todo, hsub, htodo, hneed⟩ := ih hrest
      refine ⟨todo, hsub.cons spec, htodo, fun other hother => ?_⟩
      rcases List.mem_cons.mp hother with rfl | hother
      · exact .inr (htakes.need hdefault)
      · exact hneed other hother

/-- Each of these fields is found in a record, or else it was left out. -/
def Finds (defaults fields : List (String × Json)) (r : Record) : Prop :=
  ∀ name v, (name, v) ∈ fields →
    (∃ v', Leaves defaults v v' ∧ r.lookup name = some v'.draft) ∨
      (name, v) ∈ defaults ∧ r.lookup name = none

theorem lookup_eq_none (hleft : LeavesFields defaults fields fields') {name : String}
    (h : name ∉ fields.map Prod.fst) : (ofFields fields').lookup name = none := by
  induction fields generalizing fields' with
  | nil => cases hleft; rfl
  | cons field fields ih =>
    rw [List.map_cons, List.mem_cons, not_or] at h
    cases hleft with
    | keep hv hrest =>
      rw [ofFields, List.map_cons, List.lookup_cons, beq_false_of_ne h.1]
      exact ih hrest h.2
    | leave _ hrest => exact ih hrest h.2

theorem finds_of_leaves (hnames : (fields.map Prod.fst).Nodup)
    (hleft : LeavesFields defaults fields fields') : Finds defaults fields (ofFields fields') := by
  induction fields generalizing fields' with
  | nil => exact fun _ _ hmem => nomatch hmem
  | cons field fields ih =>
    rw [List.map_cons, List.nodup_cons] at hnames
    intro name v hmem
    cases hleft with
    | @keep first w w' _ rest' hw hrest =>
      rw [ofFields, List.map_cons, ← ofFields, List.lookup_cons]
      rcases List.mem_cons.mp hmem with he | hlater
      · cases he
        exact .inl ⟨w', hw, by simp⟩
      · have hin : name ∈ fields.map Prod.fst := List.mem_map_of_mem hlater
        have hne : name ≠ first := fun he => hnames.1 (he ▸ hin)
        rw [beq_false_of_ne hne]
        exact ih hnames.2 hrest name v hlater
    | leave hdefault hrest =>
      rcases List.mem_cons.mp hmem with rfl | hmem
      · exact .inr ⟨hdefault, lookup_eq_none hrest hnames.1⟩
      · exact ih hnames.2 hrest name v hmem

section Taking

variable {r : Record} {name : String} {f : Draft → Except Fault α} {a : α}

theorem Finds.get_bind (hr : Finds defaults fields r) (hmem : (name, v) ∈ fields)
    (hname : name ∉ defaults.map Prod.fst) (h : ReadsLeft defaults f v a) (rest : α → Except Fault β) :
    (r.get name f >>= rest) = rest a := by
  obtain ⟨v', hv, hlookup⟩ | ⟨hleft, -⟩ := hr name v hmem
  · exact Record.get_bind hlookup (h v' hv) rest
  · exact absurd (List.mem_map_of_mem hleft) hname

/-- A field that is left out is taken to hold what it held. -/
theorem Finds.getD_bind (hr : Finds defaults fields r) (hmem : (name, v) ∈ fields)
    (h : ReadsLeft defaults f v a) {b : α} (hb : (name, v) ∈ defaults → a = b)
    (rest : α → Except Fault β) : (r.getD name f b >>= rest) = rest a := by
  rw [getD]
  obtain ⟨v', hv, hlookup⟩ | ⟨hleft, hlookup⟩ := hr name v hmem
  · rw [hlookup]
    exact congrArg (· >>= rest) (h v' hv).read
  · rw [hlookup, hb hleft]
    rfl

end Taking

end Record

/-- A reader of records, whatever is left out of an object with all the fields of its layout. -/
theorem ReadsLeft.record {layout : List FieldSpec} {fields : List (String × Json)}
    {rest : Record → Except Fault α} {a : α} (hnames : (layout.map FieldSpec.name).Nodup)
    (h : List.Forall₂ (FieldSpec.TakesLeft defaults) layout fields)
    (hrest : ∀ r, Record.Finds defaults fields r → rest r = .ok a) :
    ReadsLeft defaults (fun d => do let r ← Record.read layout d; rest r) (.obj fields) a := by
  intro v' hv
  obtain ⟨fields', rfl, hleft⟩ := hv.exists_fields
  obtain ⟨todo, hsub, htakes, hneed⟩ := Record.exists_takes h hleft
  refine ⟨Record.legibleFields htakes, ?_⟩
  have hread := Record.read_draft hnames htakes hsub hneed
  rw [hread]
  exact hrest _ (Record.finds_of_leaves (Record.map_fst_eq h ▸ hnames) hleft)

end Arrivals.Json
