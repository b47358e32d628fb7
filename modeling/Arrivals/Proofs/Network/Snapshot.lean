import Arrivals.Network.Snapshot
import Arrivals.Proofs.Json.Omission
import Arrivals.Proofs.Time.Stamp

/-! Whole networks read back from their text. Main statement: a network is read from the text that is
written for it, and from that text without any of the fields that hold their defaults. -/

namespace Arrivals

open Json

namespace Snapshot

/-- The fields that may be left out, with the values that they are then taken to hold. -/
def defaults : List (String × Json) :=
  [("transfers", .arr []), ("trips", .arr []), ("credentials", .arr []), ("typical_cars", .int 0),
    ("typical_seconds", .int 0), ("typical_stop_seconds", .int 0), ("typical_waiting_seconds", .int 0),
    ("manual", .bool false), ("source_line", .null), ("target_line", .null)]

theorem eq_zero_of_mem_defaults {name : String} {n : Int} (h : (name, .int n) ∈ defaults) : n = 0 := by
  have hzero : ∀ e ∈ defaults, e.2 = .int n → n = 0 := by simp [defaults, eq_comm]
  exact hzero _ h rfl

theorem eq_nil_of_mem_defaults {name : String} {items : List Json} (h : (name, .arr items) ∈ defaults) :
    items = [] := by
  have hnil : ∀ e ∈ defaults, e.2 = .arr items → items = [] := by simp [defaults]
  exact hnil _ h rfl

theorem int32_of_mem_defaults {name : String} {n : Int32} (h : (name, .int n.toInt) ∈ defaults) : n = 0 :=
  Int32.toInt_inj.mp (eq_zero_of_mem_defaults h)

theorem uint32_of_mem_defaults {name : String} {n : UInt32} (h : (name, .int n.toNat) ∈ defaults) :
    n = 0 :=
  UInt32.toNat_inj.mp (Int.ofNat_eq_zero.mp (eq_zero_of_mem_defaults h))

theorem list_of_mem_defaults {α : Type} {toJson : α → Json} {name : String} {l : List α}
    (h : (name, .arr (l.map toJson)) ∈ defaults) : l = [] :=
  List.map_eq_nil_iff.mp (eq_nil_of_mem_defaults h)

theorem option_of_mem_defaults {name : String} {x : Option String}
    (h : (name, .ofOption .str x) ∈ defaults) : x = none := by
  cases x with
  | none => rfl
  | some s =>
    have hother : ∀ e ∈ defaults, e.2 ≠ .str s := by simp [defaults]
    exact absurd rfl (hother _ h)

end Snapshot

open Snapshot (defaults int32_of_mem_defaults uint32_of_mem_defaults list_of_mem_defaults
  option_of_mem_defaults)

theorem Stamp.readsLeft {t : Stamp} (h : t.Common) : ReadsLeft defaults ofDraft t.toJson t := by
  refine .scalar ⟨trivial, ?_⟩ nofun nofun
  simp [toJson, ofDraft, draft, Draft.text, Quote.plain, parse?_render h, bind, Except.bind, pure,
    Except.pure]

theorem Station.readsLeft (s : Station) : ReadsLeft defaults ofDraft s.toJson s := by
  have hid : ReadsLeft defaults Draft.text (.str s.id) s.id := .text s.id
  have hname : ReadsLeft defaults Draft.text (.str s.name) s.name := .text s.name
  have hnetwork : ReadsLeft defaults Draft.text (.str s.network) s.network := .text s.network
  refine .record (by decide) (.cons (FieldSpec.takesLeft_required hid (by decide)) <|
    .cons (FieldSpec.takesLeft_required hname (by decide)) <|
    .cons (FieldSpec.takesLeft_required hnetwork (by decide)) .nil) fun r hr => ?_
  rw [hr.get_bind (by simp) (by decide) hid, hr.get_bind (by simp) (by decide) hname,
    hr.get_bind (by simp) (by decide) hnetwork]
  rfl

theorem Line.readsLeft (l : Line) : ReadsLeft defaults ofDraft l.toJson l := by
  have hid : ReadsLeft defaults Draft.text (.str l.id) l.id := .text l.id
  have hname : ReadsLeft defaults Draft.text (.str l.name) l.name := .text l.name
  have hnetwork : ReadsLeft defaults Draft.text (.str l.network) l.network := .text l.network
  have hstations : ReadsLeft defaults (Draft.list Draft.text) (.arr (l.stations.map .str)) l.stations :=
    .list fun s _ => .text s
  have hcars : ReadsLeft defaults Draft.uint32 (.int l.typicalCars.toNat) l.typicalCars :=
    .scalar (.uint32 l.typicalCars) nofun nofun
  refine .record (by decide) (.cons (FieldSpec.takesLeft_required hid (by decide)) <|
    .cons (FieldSpec.takesLeft_required hname (by decide)) <|
    .cons (FieldSpec.takesLeft_required hnetwork (by decide)) <|
    .cons (FieldSpec.takesLeft_required hstations (by decide)) <|
    .cons (FieldSpec.takesLeft_defaulted hcars) .nil) fun r hr => ?_
  rw [hr.get_bind (by simp) (by decide) hid, hr.get_bind (by simp) (by decide) hname,
    hr.get_bind (by simp) (by decide) hnetwork, hr.get_bind (by simp) (by decide) hstations,
    hr.getD_bind (by simp) hcars uint32_of_mem_defaults]
  rfl

theorem Connection.readsLeft (c : Connection) : ReadsLeft defaults ofDraft c.toJson c := by
  have horigin : ReadsLeft defaults Draft.text (.str c.origin) c.origin := .text c.origin
  have hdestination : ReadsLeft defaults Draft.text (.str c.destination) c.destination :=
    .text c.destination
  have hline : ReadsLeft defaults Draft.text (.str c.line) c.line := .text c.line
  have htypical : ReadsLeft defaults Draft.int32 (.int c.typical.toInt) c.typical := .int32 c.typical
  have hstop : ReadsLeft defaults Draft.int32 (.int c.typicalStop.toInt) c.typicalStop :=
    .int32 c.typicalStop
  have hwait : ReadsLeft defaults Draft.int32 (.int c.typicalWait.toInt) c.typicalWait :=
    .int32 c.typicalWait
  refine .record (by decide) (.cons (FieldSpec.takesLeft_required horigin (by decide)) <|
    .cons (FieldSpec.takesLeft_required hdestination (by decide)) <|
    .cons (FieldSpec.takesLeft_required hline (by decide)) <|
    .cons (FieldSpec.takesLeft_defaulted htypical) <| .cons (FieldSpec.takesLeft_defaulted hstop) <|
    .cons (FieldSpec.takesLeft_defaulted hwait) .nil) fun r hr => ?_
  rw [hr.get_bind (by simp) (by decide) horigin, hr.get_bind (by simp) (by decide) hdestination,
    hr.get_bind (by simp) (by decide) hline, hr.getD_bind (by simp) htypical int32_of_mem_defaults,
    hr.getD_bind (by simp) hstop int32_of_mem_defaults, hr.getD_bind (by simp) hwait int32_of_mem_defaults]
  rfl

theorem Transfer.readsLeft (t : Transfer) : ReadsLeft defaults ofDraft t.toJson t := by
  have hstation : ReadsLeft defaults Draft.text (.str t.station) t.station := .text t.station
  have hfrom : ReadsLeft defaults Draft.text (.str t.fromLine) t.fromLine := .text t.fromLine
  have hto : ReadsLeft defaults Draft.text (.str t.toLine) t.toLine := .text t.toLine
  have htypical : ReadsLeft defaults Draft.int32 (.int t.typical.toInt) t.typical := .int32 t.typical
  refine .record (by decide) (.cons (FieldSpec.takesLeft_required hstation (by decide)) <|
    .cons (FieldSpec.takesLeft_required hfrom (by decide)) <|
    .cons (FieldSpec.takesLeft_required hto (by decide)) <|
    .cons (FieldSpec.takesLeft_defaulted htypical) .nil) fun r hr => ?_
  rw [hr.get_bind (by simp) (by decide) hstation, hr.get_bind (by simp) (by decide) hfrom,
    hr.get_bind (by simp) (by decide) hto, hr.getD_bind (by simp) htypical int32_of_mem_defaults]
  rfl

theorem UseType.readsLeft (u : UseType) : ReadsLeft defaults ofDraft (.str u.name) u :=
  .scalar (.oneOf u.lookup_name) nofun nofun

/-- All its times fall in the years 0 to 9999. -/
structure StationUse.Common (u : StationUse) : Prop where
  entry : u.entry.Common
  leave : u.leave.Common

theorem StationUse.readsLeft {u : StationUse} (h : u.Common) : ReadsLeft defaults ofDraft u.toJson u := by
  have hstation : ReadsLeft defaults Draft.text (.str u.station) u.station := .text u.station
  have hentry := Stamp.readsLeft h.entry
  have hleave := Stamp.readsLeft h.leave
  have htype := u.useType.readsLeft
  have hmanual : ReadsLeft defaults Draft.boolean (.bool u.manual) u.manual :=
    .scalar (.boolean u.manual) nofun nofun
  have hoption (x : Option String) : ReadsLeft defaults optionalText (.ofOption .str x) x := by
    refine .scalar (.optional fun s _ => ⟨nofun, .text s⟩) ?_ ?_ <;> cases x <;> nofun
  have hsource := hoption u.sourceLine
  have htarget := hoption u.targetLine
  refine .record (by decide) (.cons (FieldSpec.takesLeft_required hstation (by decide)) <|
    .cons (FieldSpec.takesLeft_required hentry (by decide)) <|
    .cons (FieldSpec.takesLeft_required hleave (by decide)) <|
    .cons (FieldSpec.takesLeft_required htype (by decide)) <|
    .cons (FieldSpec.takesLeft_defaulted hmanual) <| .cons (FieldSpec.takesLeft_defaulted hsource) <|
    .cons (FieldSpec.takesLeft_defaulted htarget) .nil) fun r hr => ?_
  rw [hr.get_bind (by simp) (by decide) hstation, hr.get_bind (by simp) (by decide) hentry,
    hr.get_bind (by simp) (by decide) hleave, hr.get_bind (by simp) (by decide) htype,
    hr.getD_bind (by simp) hmanual (by simp [defaults]),
    hr.getD_bind (by simp) hsource option_of_mem_defaults,
    hr.getD_bind (by simp) htarget option_of_mem_defaults]
  rfl

structure Trip.Common (t : Trip) : Prop where
  start : t.start.Common
  uses : ∀ u ∈ t.uses, u.Common

theorem Trip.readsLeft {t : Trip} (h : t.Common) : ReadsLeft defaults ofDraft t.toJson t := by
  have hid : ReadsLeft defaults Draft.text (.str t.id) t.id := .text t.id
  have hstart := Stamp.readsLeft h.start
  have huses : ReadsLeft defaults (Draft.list StationUse.ofDraft) (.arr (t.uses.map StationUse.toJson))
      t.uses := .list fun u hu => StationUse.readsLeft (h.uses u hu)
  refine .record (by decide) (.cons (FieldSpec.takesLeft_required hid (by decide)) <|
    .cons (FieldSpec.takesLeft_required hstart (by decide)) <|
    .cons (FieldSpec.takesLeft_required huses (by decide)) .nil) fun r hr => ?_
  rw [hr.get_bind (by simp) (by decide) hid, hr.get_bind (by simp) (by decide) hstart,
    hr.get_bind (by simp) (by decide) huses]
  rfl

theorem Credential.readsLeft (c : Credential) : ReadsLeft defaults ofDraft c.toJson c := by
  have hkey : ReadsLeft defaults Draft.text (.str c.key) c.key := .text c.key
  have hsecret : ReadsLeft defaults Draft.text (.str c.secretHash) c.secretHash := .text c.secretHash
  refine .record (by decide) (.cons (FieldSpec.takesLeft_required hkey (by decide)) <|
    .cons (FieldSpec.takesLeft_required hsecret (by decide)) .nil) fun r hr => ?_
  rw [hr.get_bind (by simp) (by decide) hkey, hr.get_bind (by simp) (by decide) hsecret]
  rfl

namespace Snapshot

theorem readsLeft {s : Snapshot} (h : ∀ t ∈ s.trips, t.Common) : ReadsLeft defaults ofDraft s.toJson s := by
  have hstations : ReadsLeft defaults (Draft.list Station.ofDraft) (.arr (s.stations.map Station.toJson))
      s.stations := .list fun e _ => e.readsLeft
  have hlines : ReadsLeft defaults (Draft.list Line.ofDraft) (.arr (s.lines.map Line.toJson)) s.lines :=
    .list fun e _ => e.readsLeft
  have hconnections : ReadsLeft defaults (Draft.list Connection.ofDraft)
      (.arr (s.connections.map Connection.toJson)) s.connections := .list fun e _ => e.readsLeft
  have htransfers : ReadsLeft defaults (Draft.list Transfer.ofDraft)
      (.arr (s.transfers.map Transfer.toJson)) s.transfers := .list fun e _ => e.readsLeft
  have htrips : ReadsLeft defaults (Draft.list Trip.ofDraft) (.arr (s.trips.map Trip.toJson)) s.trips :=
    .list fun t ht => Trip.readsLeft (h t ht)
  have hcredentials : ReadsLeft defaults (Draft.list Credential.ofDraft)
      (.arr (s.credentials.map Credential.toJson)) s.credentials := .list fun e _ => e.readsLeft
  refine .record (by decide) (.cons (FieldSpec.takesLeft_required hstations (by decide)) <|
    .cons (FieldSpec.takesLeft_required hlines (by decide)) <|
    .cons (FieldSpec.takesLeft_required hconnections (by decide)) <|
    .cons (FieldSpec.takesLeft_defaulted htransfers) <| .cons (FieldSpec.takesLeft_defaulted htrips) <|
    .cons (FieldSpec.takesLeft_defaulted hcredentials) .nil) fun r hr => ?_
  rw [hr.get_bind (by simp) (by decide) hstations, hr.get_bind (by simp) (by decide) hlines,
    hr.get_bind (by simp) (by decide) hconnections, hr.getD_bind (by simp) htransfers list_of_mem_defaults,
    hr.getD_bind (by simp) htrips list_of_mem_defaults,
    hr.getD_bind (by simp) hcredentials list_of_mem_defaults]
  rfl

/-- A network whose times fall in the years 0 to 9999 is read from its text, whole or without any of the
fields that hold their defaults. -/
theorem parse_left {s : Snapshot} (h : ∀ t ∈ s.trips, t.Common) :
    parse s.render = .ok s ∧ ∀ v, Leaves defaults s.toJson v → parse v.render = .ok s :=
  ⟨(readsLeft h).reads.decode_render, fun v hv => (readsLeft h v hv).decode_render⟩

/-- One edge, and one trip whose end falls in a leap second. -/
def tramway : Snapshot :=
  { empty with
    connections := [⟨"a", "b", "tram", 60, 0, 0⟩]
    trips := [⟨"t", .ofInstant (.ofMillis 1483228740250),
      [⟨"a", .ofInstant (.ofMillis 1483228740250), ⟨1483228799, 1500000000⟩, .networkEntry, false, none,
        some "tram"⟩]⟩] }

/-- Of the edge the stop and the wait are left out, and of the whole the changes and the credentials. -/
theorem parse_left_tramway : parse (Json.render (.obj [("stations", .arr []), ("lines", .arr []),
      ("connections", .arr [.obj [("from", .str "a"), ("to", .str "b"), ("line", .str "tram"),
        ("typical_seconds", .int 60)]]),
      ("trips", .arr (tramway.trips.map Trip.toJson))])) = .ok tramway := by
  have hstart : (Stamp.ofInstant (.ofMillis 1483228740250)).Common :=
    Stamp.common_ofInstant _ (by decide)
  have hcommon : ∀ t ∈ tramway.trips, t.Common := by
    intro t ht
    obtain rfl := List.mem_singleton.mp ht
    refine ⟨hstart, fun u hu => ?_⟩
    obtain rfl := List.mem_singleton.mp hu
    exact ⟨hstart, by decide, by decide⟩
  have hedge : LeavesFields defaults
      [("from", .str "a"), ("to", .str "b"), ("line", .str "tram"), ("typical_seconds", .int 60),
        ("typical_stop_seconds", .int 0), ("typical_waiting_seconds", .int 0)]
      [("from", .str "a"), ("to", .str "b"), ("line", .str "tram"), ("typical_seconds", .int 60)] :=
    .keep (.same _) <| .keep (.same _) <| .keep (.same _) <| .keep (.same _) <|
      .leave (by simp [defaults]) <| .leave (by simp [defaults]) .nil
  refine (parse_left hcommon).2 _ (.obj <| .keep (.same _) <| .keep (.same _) <|
    .keep (.arr (.cons (.obj hedge) .nil)) <| .leave ?_ <| .keep (.same _) <| .leave ?_ .nil)
  · simp [defaults, tramway, empty]
  · simp [defaults, tramway, empty]

end Snapshot

end Arrivals
