import Arrivals.Proofs.Json.Records

/-! Readers of given shapes on what was not written for them. Main statement: an object whose fields are in
the order of a layout is refused for the first field that its reader refuses, whatever follows. -/

namespace Arrivals.Json

variable {α β : Type} {e : Fault}

/-- A value that gets through its text unharmed, and that a reader refuses for this fault. -/
structure Refuses (f : Draft → Except Fault α) (v : Json) (e : Fault) : Prop where
  legible : v.Legible
  read : f v.draft = .error e

namespace Refuses

theorem oneOf_int {names : List (String × α)} {n : Int} (h : (Json.int n).Legible) :
    Refuses (Draft.oneOf names) (.int n) .malformed := ⟨h, rfl⟩

theorem decode_render {f : Draft → Except Fault α} {v : Json} (h : Refuses f v e) :
    Json.decode f v.render = .error e := by
  simp [Json.decode, parse_render h.legible, h.read, bind, Except.bind]

variable {f : Draft → Except Fault α} {toJson : α → Json} {l : List α}

/-- The items before the first that is refused are read. -/
theorem mapM_draftItems (h : ∀ a ∈ l, Reads f (toJson a) a ∨ Refuses f (toJson a) e)
    (hsome : ∃ a ∈ l, Refuses f (toJson a) e) : (draftItems (l.map toJson)).mapM f = .error e := by
  induction l with
  | nil =>
    obtain ⟨a, ha, -⟩ := hsome
    cases ha
  | cons a l ih =>
    by_cases hrefused : Refuses f (toJson a) e
    · simp [draftItems, hrefused.read, bind, Except.bind]
    · have hread := (h a List.mem_cons_self).resolve_right hrefused
      have hrest := ih (fun b hb => h b (List.mem_cons_of_mem _ hb)) ?_
      · simp [draftItems, hread.read, hrest, bind, Except.bind]
      · obtain ⟨b, hb, hfault⟩ := hsome
        rcases List.mem_cons.mp hb with rfl | hb
        · exact absurd hfault hrefused
        · exact ⟨b, hb, hfault⟩

theorem list (h : ∀ a ∈ l, Reads f (toJson a) a ∨ Refuses f (toJson a) e)
    (hsome : ∃ a ∈ l, Refuses f (toJson a) e) : Refuses (Draft.list f) (.arr (l.map toJson)) e := by
  refine ⟨legibleItems_map fun a ha => (h a ha).elim Reads.legible legible, ?_⟩
  rw [draft, Draft.list, mapM_draftItems h hsome]
  rfl

end Refuses

namespace Record

variable {layout before after : List FieldSpec} {spec : FieldSpec} {fields fields' : List (String × Json)}
  {v : Json}

theorem draftFields_append (fields fields' : List (String × Json)) :
    draftFields (fields ++ fields') = draftFields fields ++ draftFields fields' := by
  induction fields with
  | nil => rfl
  | cons field rest ih =>
    obtain ⟨name, v⟩ := field
    rw [List.cons_append, draftFields, draftFields, ih, List.cons_append]

theorem ofMembers_append (found : Record) (members members' : List (Quote × Draft)) :
    ofMembers layout found (members ++ members') =
      (ofMembers layout found members).bind fun found => ofMembers layout found members' := by
  induction members generalizing found with
  | nil => rfl
  | cons member rest ih =>
    obtain ⟨key, v⟩ := member
    rw [List.cons_append, ofMembers, ofMembers]
    cases key.read with
    | error e => rfl
    | ok name =>
      simp only [bind, Except.bind]
      split
      · split
        · rfl
        · cases FieldSpec.verify _ v with
          | error e => rfl
          | ok u => exact ih _
      · split
        · rfl
        · exact ih _

theorem lookup_ofFields_of_not_mem (h : List.Forall₂ FieldSpec.Takes before fields)
    (hspec : spec.name ∉ before.map FieldSpec.name) : (ofFields fields).lookup spec.name = none := by
  induction h with
  | nil => rfl
  | @cons first field before fields htakes _ ih =>
    rw [List.map_cons, List.mem_cons, not_or] at hspec
    rw [ofFields, List.map_cons, List.lookup_cons, htakes.name, beq_false_of_ne hspec.1]
    exact ih hspec.2

/-- The fields before the one that does not pass its check are taken, and those after it are not looked
at. -/
theorem read_draft_of_check (hnames : (layout.map FieldSpec.name).Nodup)
    (hlayout : layout = before ++ spec :: after) (h : List.Forall₂ FieldSpec.Takes before fields)
    (hcheck : spec.check v.draft = some e) :
    Record.read layout (draft (.obj (fields ++ (spec.name, v) :: fields'))) = .error e := by
  have hmem : spec ∈ layout := by simp [hlayout]
  have hspec := find?_name hnames hmem
  have hsub : before.Sublist layout := hlayout ▸ List.sublist_append_left before _
  have hfront := ofMembers_draftFields hnames h hsub [] fun _ _ => rfl
  have hnew : (ofFields fields).lookup spec.name = none := by
    refine lookup_ofFields_of_not_mem h ?_
    rw [hlayout, List.map_append, List.map_cons, List.nodup_append] at hnames
    exact fun hbefore => hnames.2.2 _ hbefore _ List.mem_cons_self rfl
  have hmembers : ofMembers layout [] (draftFields (fields ++ (spec.name, v) :: fields')) = .error e := by
    rw [draftFields_append, ofMembers_append, hfront, List.nil_append, draftFields]
    simp only [Except.bind, ofMembers, Quote.plain, bind, hspec, hnew, Option.isSome_none,
      Bool.false_eq_true, if_false, FieldSpec.verify, hcheck]
  simp only [draft, Record.read, bind, Except.bind, hmembers]

end Record

theorem Refuses.record {layout before after : List FieldSpec} {fields fields' : List (String × Json)}
    {name : String} {f : Draft → Except Fault β} {v : Json} (rest : Record → Except Fault α)
    (hnames : (layout.map FieldSpec.name).Nodup)
    (hlayout : layout = before ++ .required name f :: after)
    (h : List.Forall₂ FieldSpec.Takes before fields) (hv : Refuses f v e)
    (hlegible : LegibleFields (fields ++ (name, v) :: fields')) :
    Refuses (fun d => do let r ← Record.read layout d; rest r) (.obj (fields ++ (name, v) :: fields')) e := by
  have hcheck : (FieldSpec.required name f).check v.draft = some e := by
    change faultOf (f v.draft) = some e
    rw [hv.read]
    rfl
  refine ⟨hlegible, ?_⟩
  have hread : Record.read layout (draft (.obj (fields ++ (name, v) :: fields'))) = .error e :=
    Record.read_draft_of_check hnames hlayout h hcheck
  rw [hread]
  rfl

end Arrivals.Json
