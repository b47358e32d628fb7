import Arrivals.Proofs.Signal.Atomic

/-! Registrations whose lists have the same lines, in any order and any number of times. Main statement: one
is refused if and only if the other is, and they mark their user under the same ids. For how long goes by the
length of the list, so a line that is listed again makes its rider count for one who changes lines. -/

namespace Arrivals.Activity

variable {t s s' : Table String Markers} {a : Activity} {limits : ActivityLimits} {now : Instant}
  {user : UserId} {lines lines' : List Line} {list list' : List String} {justEntered : Bool}
  {expires expires' : Instant}

/-- The same ids are tracked, and everybody is filed under the same of them; only those of one user may be
filed there until other times. -/
structure Alike (s s' : Table String Markers) (user : UserId) (expires expires' : Instant) : Prop where
  tracked : ids s = ids s'
  own : ∀ id, lease? s id user = some ⟨⟨⟩, expires⟩ ∧ lease? s' id user = some ⟨⟨⟩, expires'⟩ ∨
    lease? s id user = none ∧ lease? s' id user = none
  others : ∀ id u, u ≠ user → lease? s id u = lease? s' id u

theorem Alike.lease?_eq (h : Alike s s' user expires expires) (id : String) (u : UserId) :
    lease? s id u = lease? s' id u := by
  by_cases hu : u = user
  · subst hu
    obtain ⟨hleft, hright⟩ | ⟨hleft, hright⟩ := h.own id
    · rw [hleft, hright]
    · rw [hleft, hright]
  · exact h.others id u hu

theorem Moves.alike (h : Moves t s user list expires) (h' : Moves t s' user list' expires')
    (hlist : ∀ id, id ∈ list ↔ id ∈ list') : Alike s s' user expires expires' where
  tracked := by rw [h.tracked, h'.tracked, List.toFinset.ext hlist]
  own id := by
    rw [h.own, h'.own]
    by_cases hid : id ∈ list
    · rw [if_pos hid, if_pos ((hlist id).mp hid)]
      exact .inl ⟨rfl, rfl⟩
    · rw [if_neg hid, if_neg (mt (hlist id).mpr hid)]
      exact .inr ⟨rfl, rfl⟩
  others id u hu := (h.others id u hu).trans (h'.others id u hu).symm

theorem fresh_congr (h : ∀ id, id ∈ list ↔ id ∈ list') : fresh t list = fresh t list' := by
  rw [fresh, fresh, List.toFinset.ext h]

/-- A line stands alone in one list and is repeated in the other, and so what is short becomes long. -/
structure Prolongs (limits : ActivityLimits) (lines lines' : List Line) (ttl ttl' : Span) : Prop where
  line : ∃ l n, lines = [l] ∧ lines' = List.replicate (n + 2) l
  short : ttl = limits.shortTtl
  long : ttl' = limits.longTtl

/-- With the same lines, only a list of one can be shorter than two where the other is not. -/
theorem prolongs_of_length (h : ∀ l, l ∈ lines ↔ l ∈ lines') (hshort : ¬ 1 < lines.length)
    (hlong : 1 < lines'.length) :
    Prolongs limits lines lines' (ttlFor limits lines false) (ttlFor limits lines' false) where
  line := by
    match lines, hshort with
    | [], _ =>
      obtain ⟨l, rest, rfl⟩ := List.exists_cons_of_length_pos (Nat.zero_lt_of_lt hlong)
      exact absurd ((h l).mpr List.mem_cons_self) List.not_mem_nil
    | [l], _ =>
      refine ⟨l, lines'.length - 2, rfl, List.eq_replicate_iff.mpr ⟨by omega, fun m hm => ?_⟩⟩
      exact List.mem_singleton.mp ((h m).mpr hm)
    | _ :: _ :: _, hshort => simp at hshort
  short := by simp [ttlFor, hshort]
  long := by simp [ttlFor, hlong]

theorem ttlFor_cases (h : ∀ l, l ∈ lines ↔ l ∈ lines') (limits : ActivityLimits) (justEntered : Bool) :
    let ttl := ttlFor limits lines justEntered
    let ttl' := ttlFor limits lines' justEntered
    ttl = ttl' ∨ justEntered = false ∧
      (Prolongs limits lines lines' ttl ttl' ∨ Prolongs limits lines' lines ttl' ttl) := by
  intro ttl ttl'
  cases justEntered with
  | true => exact .inl rfl
  | false =>
    by_cases hlines : 1 < lines.length <;> by_cases hlines' : 1 < lines'.length
    · exact .inl (by simp [ttl, ttl', ttlFor, hlines, hlines'])
    · exact .inr ⟨rfl, .inr (prolongs_of_length (fun l => (h l).symm) hlines' hlines)⟩
    · exact .inr ⟨rfl, .inl (prolongs_of_length h hlines hlines')⟩
    · exact .inl (by simp [ttl, ttl', ttlFor, hlines, hlines'])

/-- Of two registrations with the same lines one is refused if and only if the other is, and at the same
limit. If they are not, they come to the same, but for one case: a user who has not just entered is marked
for the short time if a line stands alone, and for the long time if it is repeated. -/
theorem register_same_lines (a : Activity) (limits : ActivityLimits) (now : Instant) (user : UserId)
    (justEntered : Bool) (h : ∀ l, l ∈ lines ↔ l ∈ lines') :
    let answer := a.register limits now lines user justEntered
    let answer' := a.register limits now lines' user justEntered
    ((∃ r, answer = .error r) ↔ ∃ r, answer' = .error r) ∧
    (∀ r r', answer = .error r → answer' = .error r' → r.limit = r'.limit) ∧
    ∀ b b', answer = .ok b → answer' = .ok b' →
      let ttl := ttlFor limits lines justEntered
      let ttl' := ttlFor limits lines' justEntered
      b.tracked = b'.tracked ∧
      Alike b.lines b'.lines user (now.after ttl) (now.after ttl') ∧
      Alike b.networks b'.networks user (now.after ttl) (now.after ttl') ∧
      ((∀ id u, lease? b.lines id u = lease? b'.lines id u ∧
          lease? b.networks id u = lease? b'.networks id u) ∨
        justEntered = false ∧
          (Prolongs limits lines lines' ttl ttl' ∨ Prolongs limits lines' lines ttl' ttl)) := by
  intro answer answer'
  have hids (key : Line → String) (id : String) : id ∈ lines.map key ↔ id ∈ lines'.map key := by
    simp only [List.mem_map, h]
  refine ⟨?_, fun r r' hr hr' => ?_, fun b b' hb hb' => ?_⟩
  · rw [register_error_iff, register_error_iff, fresh_congr (hids Line.id),
      fresh_congr (hids Line.network)]
  · exact (overflows_of_register hr).limit.trans (overflows_of_register hr').limit.symm
  · intro ttl ttl'
    have hlines : Alike b.lines b'.lines user (now.after ttl) (now.after ttl') := by
      rw [register_eq_ok hb, register_eq_ok hb']
      exact (moves_markOnly ..).alike (moves_markOnly ..) (hids Line.id)
    have hnetworks : Alike b.networks b'.networks user (now.after ttl) (now.after ttl') := by
      rw [register_eq_ok hb, register_eq_ok hb']
      exact (moves_markOnly ..).alike (moves_markOnly ..) (hids Line.network)
    refine ⟨?_, hlines, hnetworks, (ttlFor_cases h limits justEntered).imp_left fun hsame => ?_⟩
    · rw [tracked_eq, tracked_eq, hlines.tracked, hnetworks.tracked]
    · rw [show ttl = ttl' from hsame] at hlines hnetworks
      exact fun id u => ⟨hlines.lease?_eq id u, hnetworks.lease?_eq id u⟩

/-- Two lines in another order, and one of them twice: no difference. With a line of a second network the
rider is refused, however often it is listed. -/
theorem register_same_lines_evening :
    let register := fun lines => Activity.empty.register evening ⟨0⟩ lines "u" false
    (∀ l, l ∈ [blue, green] ↔ l ∈ [green, blue, green]) ∧
      (∃ b b', register [blue, green] = .ok b ∧ register [green, blue, green] = .ok b' ∧
        b.tracked = b'.tracked ∧ ∀ id u, lease? b.lines id u = lease? b'.lines id u) ∧
      (∀ l, l ∈ [blue, red] ↔ l ∈ [red, blue, red]) ∧ ∃ r, register [red, blue, red] = .error r := by
  intro register
  have hsame (l : Line) : l ∈ [blue, green] ↔ l ∈ [green, blue, green] := by
    simp [or_comm, or_left_comm]
  have hcrowd (l : Line) : l ∈ [blue, red] ↔ l ∈ [red, blue, red] := by
    simp [or_comm, or_left_comm]
  obtain ⟨-, -, hok⟩ := register_same_lines .empty evening ⟨0⟩ "u" false hsame
  obtain ⟨hrefused, -, -⟩ := register_same_lines .empty evening ⟨0⟩ "u" false hcrowd
  obtain ⟨htracked, -, -, hleases | ⟨-, hprolongs | hprolongs⟩⟩ := hok _ _ rfl rfl
  · exact ⟨hsame, ⟨_, _, rfl, rfl, htracked, fun id u => (hleases id u).1⟩, hcrowd,
      hrefused.mp ⟨_, rfl⟩⟩
  · obtain ⟨l, n, halone, -⟩ := hprolongs.line
    cases halone
  · obtain ⟨l, n, halone, -⟩ := hprolongs.line
    cases halone

/-- Who is listed on one line twice is not settled on it. -/
theorem register_minds_repetition :
    ¬ ∀ (a : Activity) (limits : ActivityLimits) (now : Instant) (lines lines' : List Line) (user : UserId)
      (justEntered : Bool), (∀ l, l ∈ lines ↔ l ∈ lines') → ∀ b b',
      a.register limits now lines user justEntered = .ok b →
      a.register limits now lines' user justEntered = .ok b' →
      ∀ id u, lease? b.lines id u = lease? b'.lines id u := by
  intro h
  have hlease := h .empty evening ⟨0⟩ [blue] [blue, blue] "u" false (by simp) _ _ rfl rfl "blue" "u"
  exact absurd hlease (by decide)

end Arrivals.Activity
