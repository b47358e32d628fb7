import Arrivals.Json.Decoder
import Arrivals.Proofs.Json.Reading
import Mathlib.Data.List.Forall2

/-! Readers of given shapes on what was written for them. Main statement: an object that has, in the order
of a layout, each field that the layout asks for is read as the record of its fields. -/

namespace Arrivals.Json

variable {α β : Type}

/-- A value that gets through its text unharmed, and that a reader takes for this. -/
structure Reads (f : Draft → Except Fault α) (v : Json) (a : α) : Prop where
  legible : v.Legible
  read : f v.draft = .ok a

theorem legibleItems_map {toJson : α → Json} {l : List α} (h : ∀ a ∈ l, (toJson a).Legible) :
    LegibleItems (l.map toJson) := by
  induction l with
  | nil => trivial
  | cons a l ih =>
    have hrest := ih fun b hb => h b (List.mem_cons_of_mem _ hb)
    exact ⟨h a List.mem_cons_self, hrest⟩

namespace Reads

theorem text (s : String) : Reads Draft.text (.str s) s := ⟨trivial, rfl⟩

theorem integer {least greatest n : Int} (hleast : least ≤ n) (hgreatest : n ≤ greatest) :
    (draft (.int n)).integer least greatest = .ok n := by
  simp [draft, Draft.integer, hleast, hgreatest]

theorem boolean (b : Bool) : Reads Draft.boolean (.bool b) b := ⟨trivial, rfl⟩

theorem int32 (n : Int32) : Reads Draft.int32 (.int n.toInt) n := by
  have hlow : -2147483648 ≤ n.toInt := n.le_toInt
  have hhigh : n.toInt ≤ 2147483647 := Int.le_of_lt_add_one n.toInt_lt
  refine ⟨⟨by omega, by omega⟩, ?_⟩
  rw [Draft.int32, integer hlow hhigh, Except.map, Int32.ofInt_toInt]

theorem int64 (n : Int64) : Reads Draft.int64 (.int n.toInt) n := by
  have hlow : -9223372036854775808 ≤ n.toInt := n.le_toInt
  have hhigh : n.toInt ≤ 9223372036854775807 := Int.le_of_lt_add_one n.toInt_lt
  refine ⟨⟨hlow, by omega⟩, ?_⟩
  rw [Draft.int64, integer hlow hhigh, Except.map, Int64.ofInt_toInt]

theorem uint32 (n : UInt32) : Reads Draft.uint32 (.int n.toNat) n := by
  have hhigh := n.toNat_lt
  refine ⟨⟨by omega, by omega⟩, ?_⟩
  rw [Draft.uint32, integer (by omega) (by omega), Except.map, Int.toNat_natCast, UInt32.ofNat_toNat]

theorem oneOf {names : List (String × α)} {name : String} {a : α} (h : names.lookup name = some a) :
    Reads (Draft.oneOf names) (.str name) a := by
  refine ⟨trivial, ?_⟩
  simp [draft, Draft.oneOf, Draft.choice, Quote.plain, Except.bind, h]

/-- The name of a case with its content. -/
theorem tagged {plain : String → Except Fault α} {choose : String → Draft → Except Fault α}
    {name : String} {v : Json} {a : α} (h : Reads (choose name) v a) :
    Reads (Draft.choice plain choose) (.obj [(name, v)]) a := by
  refine ⟨⟨h.legible, trivial⟩, ?_⟩
  simp [draft, draftFields, Draft.choice, Draft.soleMember, Quote.plain, h.read, bind, Except.bind]

theorem map {f : Draft → Except Fault α} {v : Json} {a : α} (h : Reads f v a) (g : α → β) :
    Reads (fun d => (f d).map g) v (g a) :=
  ⟨h.legible, by rw [h.read, Except.map]⟩

/-- Only `null` stands for an absent value. -/
theorem optional {f : Draft → Except Fault α} {toJson : α → Json} {x : Option α}
    (h : ∀ a, x = some a → toJson a ≠ .null ∧ Reads f (toJson a) a) :
    Reads (Draft.optional f) (.ofOption toJson x) x := by
  cases x with
  | none => exact ⟨trivial, rfl⟩
  | some a =>
    obtain ⟨hnull, hlegible, hread⟩ := h a rfl
    refine ⟨hlegible, ?_⟩
    have hpresent : (toJson a).draft.optional f = (f (toJson a).draft).map some := by
      cases hv : toJson a with
      | null => exact absurd hv hnull
      | _ => rfl
    rw [Json.ofOption, hpresent, hread, Except.map]

theorem mapM_draftItems {f : Draft → Except Fault α} {toJson : α → Json} {l : List α}
    (h : ∀ a ∈ l, Reads f (toJson a) a) : (draftItems (l.map toJson)).mapM f = .ok l := by
  induction l with
  | nil => rfl
  | cons a l ih =>
    have hrest := ih fun b hb => h b (List.mem_cons_of_mem _ hb)
    have ha := (h a List.mem_cons_self).read
    simp [draftItems, hrest, ha, bind, Except.bind, pure, Except.pure]

theorem list {f : Draft → Except Fault α} {toJson : α → Json} {l : List α}
    (h : ∀ a ∈ l, Reads f (toJson a) a) : Reads (Draft.list f) (.arr (l.map toJson)) l := by
  refine ⟨legibleItems_map fun a ha => (h a ha).legible, ?_⟩
  rw [draft, Draft.list, mapM_draftItems h]
  rfl

/-- What stands in the whole text is read from it. -/
theorem decode_render {f : Draft → Except Fault α} {v : Json} {a : α} (h : Reads f v a) :
    Json.decode f v.render = .ok a := by
  simp [Json.decode, parse_render h.legible, h.read, bind, Except.bind, dropSpaces]
  rfl

end Reads

namespace FieldSpec

/-- A field has this name, and its value passes the check. -/
structure Takes (spec : FieldSpec) (field : String × Json) : Prop where
  name : field.1 = spec.name
  legible : field.2.Legible
  check : spec.check field.2.draft = none

variable {f : Draft → Except Fault α} {name : String} {v : Json} {a : α}

theorem takes_required (h : Reads f v a) : (required name f).Takes (name, v) :=
  ⟨rfl, h.legible, by simp [required, h.read, faultOf]⟩

theorem takes_optional {x : Option α} (h : Reads (Draft.optional f) v x) :
    (optional name f).Takes (name, v) :=
  ⟨rfl, h.legible, by simp [optional, h.read, faultOf]⟩

end FieldSpec

namespace Record

variable {layout todo : List FieldSpec} {fields : List (String × Json)}

/-- The record of the fields of an object. -/
def ofFields (fields : List (String × Json)) : Record := fields.map fun e => (e.1, e.2.draft)

theorem find?_name (hnames : (layout.map FieldSpec.name).Nodup) {spec : FieldSpec}
    (h : spec ∈ layout) : (layout.find? fun field => field.name = spec.name) = some spec := by
  induction layout with
  | nil => cases h
  | cons first rest ih =>
    rw [List.map_cons, List.nodup_cons] at hnames
    rcases List.mem_cons.mp h with rfl | hrest
    · simp
    · have hne : first.name ≠ spec.name := fun he =>
        hnames.1 (he ▸ List.mem_map_of_mem hrest)
      rw [List.find?_cons_of_neg (by simpa using hne)]
      exact ih hnames.2 hrest

theorem ofMembers_draftFields (hnames : (layout.map FieldSpec.name).Nodup)
    (h : List.Forall₂ FieldSpec.Takes todo fields) (hsub : todo.Sublist layout) (found : Record)
    (hfound : ∀ spec ∈ todo, found.lookup spec.name = none) :
    ofMembers layout found (draftFields fields) = .ok (found ++ ofFields fields) := by
  induction h generalizing found with
  | nil => simp [draftFields, ofMembers, ofFields]
  | @cons spec field todo fields htakes _ ih =>
    obtain ⟨name, v⟩ := field
    obtain ⟨rfl, -, hcheck⟩ := htakes
    have hspec := find?_name hnames (hsub.subset List.mem_cons_self)
    have hnew : found.lookup spec.name = none := hfound spec List.mem_cons_self
    have hdistinct := hnames.sublist (hsub.map FieldSpec.name)
    rw [List.map_cons, List.nodup_cons] at hdistinct
    have hrest := ih ((List.sublist_cons_self _ _).trans hsub) (found ++ [(spec.name, v.draft)]) ?_
    · simp only [draftFields, ofMembers, Quote.plain, bind, Except.bind, hspec, hnew, Option.isSome_none,
        Bool.false_eq_true, if_false, FieldSpec.verify, hcheck]
      rw [hrest]
      simp [ofFields]
    · intro other hother
      have hne : other.name ≠ spec.name := fun he =>
        hdistinct.1 (he ▸ List.mem_map_of_mem hother)
      rw [List.lookup_append, hfound other (List.mem_cons_of_mem _ hother), List.lookup_cons,
        beq_false_of_ne hne]
      rfl

theorem isSome_lookup (h : List.Forall₂ FieldSpec.Takes todo fields) {spec : FieldSpec}
    (hspec : spec ∈ todo) : ((ofFields fields).lookup spec.name).isSome = true := by
  induction h with
  | nil => cases hspec
  | @cons first field todo fields htakes _ ih =>
    rw [ofFields, List.map_cons, ← ofFields, List.lookup_cons, htakes.name]
    by_cases hname : spec.name = first.name
    · rw [hname, beq_self_eq_true]
      rfl
    · rcases List.mem_cons.mp hspec with rfl | hrest
      · exact absurd rfl hname
      · rw [beq_false_of_ne hname]
        exact ih hrest

theorem legibleFields (h : List.Forall₂ FieldSpec.Takes todo fields) : LegibleFields fields := by
  induction h with
  | nil => trivial
  | cons htakes _ ih => exact ⟨htakes.legible, ih⟩

/-- Fields that are not required may be left out. -/
theorem read_draft (hnames : (layout.map FieldSpec.name).Nodup)
    (h : List.Forall₂ FieldSpec.Takes todo fields) (hsub : todo.Sublist layout)
    (hneed : ∀ spec ∈ layout, spec ∈ todo ∨ spec.need ≠ .required) :
    Record.read layout (draft (.obj fields)) = .ok (ofFields fields) := by
  have hmembers := ofMembers_draftFields hnames h hsub [] fun _ _ => rfl
  rw [List.nil_append] at hmembers
  have hcomplete : complete layout (ofFields fields) = .ok (ofFields fields) := by
    rw [complete, if_pos]
    rw [List.all_eq_true]
    intro spec hspec
    rcases hneed spec hspec with hin | hneed
    · rw [isSome_lookup h hin, Bool.or_true]
    · rw [bne_iff_ne.mpr hneed, Bool.true_or]
  simp only [draft, Record.read, bind, Except.bind, hmembers]
  exact hcomplete

section Taking

variable {r : Record} {name : String} {f : Draft → Except Fault α} {v : Json}

theorem get_bind {a : α} (hlookup : r.lookup name = some v.draft) (h : Reads f v a)
    (rest : α → Except Fault β) : (r.get name f >>= rest) = rest a := by
  rw [get, hlookup]
  exact congrArg (· >>= rest) h.read

theorem getOptional_bind {x : Option α} (hlookup : r.lookup name = some v.draft)
    (h : Reads (Draft.optional f) v x) (rest : Option α → Except Fault β) :
    (r.getOptional name f >>= rest) = rest x := by
  rw [getOptional, hlookup]
  exact congrArg (· >>= rest) h.read

end Taking

end Record

/-- A reader of records on an object with all the fields that its layout names. -/
theorem Reads.record {layout : List FieldSpec} {fields : List (String × Json)}
    {rest : Record → Except Fault α} {a : α} (hnames : (layout.map FieldSpec.name).Nodup)
    (h : List.Forall₂ FieldSpec.Takes layout fields) (hrest : rest (Record.ofFields fields) = .ok a) :
    Reads (fun d => do let r ← Record.read layout d; rest r) (.obj fields) a := by
  refine ⟨Record.legibleFields h, ?_⟩
  have hread := Record.read_draft hnames h (List.Sublist.refl _) fun spec hspec => .inl hspec
  rw [hread]
  exact hrest

end Arrivals.Json
