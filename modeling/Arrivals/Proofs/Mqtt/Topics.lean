import Arrivals.Mqtt.Topic

/-! Filters and topics, place by place. Main statement: a filter is valid if its wildcards stand alone and
the one for many levels comes last, and then it covers the topics that have its level, or any level where it
has the wildcard for one, at each of its places. -/

namespace Arrivals.Mqtt.Topic

theorem levels_eq_splitOn (s : List Char) : levels s = s.splitOn '/' := by
  induction s with
  | nil => rfl
  | cons c s ih =>
    obtain ⟨l, ls, hl⟩ := List.exists_cons_of_ne_nil (List.splitOn_ne_nil '/' s)
    rw [levels, List.foldr_cons, ← levels, ih, List.splitOn_cons_eq_if_modifyHead, hl]
    by_cases hc : c = '/' <;> simp [hc]

/-- What may stand at place `i` of `n` levels: a level without wildcards, or a wildcard alone, but the one for
many levels only at the last place. -/
def Admissible (n i : Nat) (l : Level) : Prop :=
  ('+' ∉ l ∧ '#' ∉ l) ∨ l = anyLevel ∨ l = anyLevels ∧ i + 1 = n

/-- At place `i` the filter has the wildcard for one level, or just the level that the topic has there. -/
def MeetsAt (fs ts : List Level) (i : Nat) : Prop := fs[i]? = some anyLevel ∨ fs[i]? = ts[i]?

/-- The levels of a filter meet those of a topic. Behind the wildcard for many levels there may be any, or
none at all. -/
def Meets (fs ts : List Level) : Prop :=
  (fs.getLast? = some anyLevels ∧ fs.length ≤ ts.length + 1 ∧
      ∀ i, i + 1 < fs.length → MeetsAt fs ts i) ∨
    (fs.getLast? ≠ some anyLevels ∧ ts.length = fs.length ∧ ∀ i, i < fs.length → MeetsAt fs ts i)

theorem validLevel_iff {isLast : Bool} {l : Level} :
    validLevel isLast l = true ↔
      ('+' ∉ l ∧ '#' ∉ l) ∨ l = anyLevel ∨ l = anyLevels ∧ isLast = true := by
  have hplain : l.any isWildcard = false ↔ '+' ∉ l ∧ '#' ∉ l := by
    simp only [List.any_eq_false, isWildcard, Bool.or_eq_true, decide_eq_true_eq]
    constructor
    · exact fun h => ⟨fun hm => h _ hm (.inl rfl), fun hm => h _ hm (.inr rfl)⟩
    · rintro ⟨hone, hmany⟩ c hc (rfl | rfl)
      · exact hone hc
      · exact hmany hc
  rw [validLevel]
  split
  next hmany => simp [hmany, anyLevels, anyLevel]
  next hmany =>
    rw [Bool.or_eq_true, decide_eq_true_eq, Bool.not_eq_true', hplain]
    constructor
    · rintro (hone | hnone)
      · exact .inr (.inl hone)
      · exact .inl hnone
    · rintro (hnone | hone | ⟨hmany', -⟩)
      · exact .inr hnone
      · exact .inl hone
      · exact absurd hmany' hmany

theorem validLevels_iff {ls : List Level} :
    validLevels ls = true ↔ ∀ i l, ls[i]? = some l → Admissible ls.length i l := by
  induction ls with
  | nil => simp [validLevels]
  | cons l rest ih =>
    rw [validLevels, Bool.and_eq_true, validLevel_iff, ih]
    have hfirst : Admissible (rest.length + 1) 0 l ↔
        ('+' ∉ l ∧ '#' ∉ l) ∨ l = anyLevel ∨ l = anyLevels ∧ rest.isEmpty = true := by
      have hlast : 0 + 1 = rest.length + 1 ↔ rest.isEmpty = true := by
        rw [List.isEmpty_iff_length_eq_zero]
        omega
      rw [Admissible, hlast]
    constructor
    · rintro ⟨hl, hrest⟩ i m hm
      cases i with
      | zero => exact Option.some.inj hm ▸ hfirst.mpr hl
      | succ i => simpa [Admissible] using hrest i m hm
    · intro h
      refine ⟨hfirst.mp (h 0 l rfl), fun i m hm => ?_⟩
      simpa [Admissible] using h (i + 1) m hm

theorem validFilter_iff {f : String} :
    validFilter f = true ↔ f ≠ "" ∧ validLevels (f.toList.splitOn '/') = true := by
  rw [validFilter, levels_eq_splitOn]
  simp

theorem getLast?_cons_of_ne {f : Level} (hf : f ≠ anyLevels) (fs : List Level) :
    (f :: fs).getLast? = some anyLevels ↔ fs.getLast? = some anyLevels := by
  cases fs with
  | nil => simp [hf]
  | cons g fs => rw [List.getLast?_cons_cons]

/-- A level that is not the wildcard for many is met at its own place, and the rest at theirs. -/
theorem meets_cons_cons {f t : Level} {fs ts : List Level} (hf : f ≠ anyLevels) :
    Meets (f :: fs) (t :: ts) ↔ (f = anyLevel ∨ f = t) ∧ Meets fs ts := by
  have hplaces (n : Nat) : (∀ i, i < n + 1 → MeetsAt (f :: fs) (t :: ts) i) ↔
      (f = anyLevel ∨ f = t) ∧ ∀ i, i < n → MeetsAt fs ts i := by
    constructor
    · intro h
      exact ⟨by simpa [MeetsAt] using h 0 (Nat.succ_pos n),
        fun i hi => by simpa [MeetsAt] using h (i + 1) (Nat.succ_lt_succ hi)⟩
    · rintro ⟨hfirst, hrest⟩ i hi
      cases i with
      | zero => simpa [MeetsAt] using hfirst
      | succ i => simpa [MeetsAt] using hrest i (Nat.lt_of_succ_lt_succ hi)
  rw [Meets, Meets, Ne, Ne, getLast?_cons_of_ne hf]
  by_cases hlast : fs.getLast? = some anyLevels
  · obtain ⟨n, hn⟩ : ∃ n, fs.length = n + 1 := by
      cases fs with
      | nil => simp at hlast
      | cons g fs => exact ⟨fs.length, rfl⟩
    have h := hplaces n
    simp only [hlast, List.length_cons, hn, Nat.add_lt_add_iff_right, not_true_eq_false, false_and,
      or_false, true_and] at h ⊢
    rw [h]
    constructor
    · rintro ⟨hle, hfirst, hrest⟩
      exact ⟨hfirst, by omega, hrest⟩
    · rintro ⟨hfirst, hle, hrest⟩
      exact ⟨by omega, hfirst, hrest⟩
  · simp only [hlast, false_and, not_false_eq_true, true_and, false_or, List.length_cons,
      Nat.add_right_cancel_iff, hplaces]
    exact and_left_comm

theorem matchLevels_iff {fs ts : List Level} (h : validLevels fs = true) :
    matchLevels fs ts = true ↔ Meets fs ts := by
  induction fs generalizing ts with
  | nil => cases ts <;> simp [matchLevels, Meets]
  | cons f fs ih =>
    rw [validLevels, Bool.and_eq_true] at h
    by_cases hf : f = anyLevels
    · -- nothing comes behind the wildcard, so that it meets whatever is there
      have hfs : fs = [] := by
        have hlast := validLevel_iff.mp h.1
        simpa [hf, anyLevels, anyLevel] using hlast
      subst hf hfs
      cases ts <;> simp [matchLevels, Meets]
    · cases ts with
      | nil =>
        rw [matchLevels, Meets, Ne, getLast?_cons_of_ne hf]
        cases fs <;> simp [hf]
      | cons t ts =>
        rw [meets_cons_cons hf, ← ih h.2, matchLevels]
        simp [hf]

theorem hidden_iff {f t : List Char} (h : validLevels (f.splitOn '/') = true) :
    hidden f t = true ↔
      t.head? = some '$' ∧
        ((f.splitOn '/').head? = some anyLevel ∨ (f.splitOn '/').head? = some anyLevels) := by
  rw [hidden, Bool.and_eq_true, decide_eq_true_eq]
  refine and_congr_right fun _ => ?_
  cases f with
  | nil => simp [anyLevel, anyLevels]
  | cons c s =>
    obtain ⟨l, ls, hl⟩ := List.exists_cons_of_ne_nil (List.splitOn_ne_nil '/' s)
    rw [List.splitOn_cons_eq_if_modifyHead, hl] at h ⊢
    by_cases hc : c = '/'
    · simp [hc, isWildcard, anyLevel, anyLevels]
    · simp only [hc, beq_iff_eq, if_false, List.modifyHead_cons, validLevels, Bool.and_eq_true] at h ⊢
      have hfirst := validLevel_iff.mp h.1
      simp only [isWildcard, anyLevel, anyLevels, List.head?_cons, Option.map_some, Option.getD_some,
        Bool.or_eq_true, decide_eq_true_eq, Option.some.injEq, List.cons.injEq] at hfirst ⊢
      constructor
      · rintro (rfl | rfl) <;> simp_all
      · rintro (⟨rfl, -⟩ | ⟨rfl, -⟩) <;> simp

/-- A filter is valid if it is not empty and every level of it is admissible where it stands. A valid filter
covers a topic if its levels meet those of the topic, unless it begins with a wildcard and the topic is the
server's own. Slashes at the ends and next to each other have empty levels between them, which count. -/
theorem filters_by_levels (f t : String) :
    (validFilter f = true ↔ f ≠ "" ∧ ∀ i l, (f.toList.splitOn '/')[i]? = some l →
      Admissible (f.toList.splitOn '/').length i l) ∧
    (validFilter f = true → (covers f t = true ↔
      ¬ (t.toList.head? = some '$' ∧ ((f.toList.splitOn '/').head? = some anyLevel ∨
        (f.toList.splitOn '/').head? = some anyLevels)) ∧
      Meets (f.toList.splitOn '/') (t.toList.splitOn '/'))) := by
  refine ⟨?_, fun hvalid => ?_⟩
  · rw [validFilter_iff, validLevels_iff]
  · have hlevels := (validFilter_iff.mp hvalid).2
    rw [covers, levels_eq_splitOn, levels_eq_splitOn, Bool.and_eq_true, Bool.not_eq_true',
      ← Bool.not_eq_true, hidden_iff hlevels, matchLevels_iff hlevels]

/-- Under a slash in front: the parent of what is asked for, with an empty level before it. -/
theorem filters_by_levels_parent :
    validFilter "/+/#" = true ∧ covers "/+/#" "/a" = true ∧
      validFilter "+/up" = true ∧ covers "+/up" "$SYS/up" ≠ true := by
  have hparent : validFilter "/+/#" = true := by decide
  have hup : validFilter "+/up" = true := by decide
  have hlevels : "/+/#".toList.splitOn '/' = [[], anyLevel, anyLevels] := by decide
  refine ⟨hparent, ((filters_by_levels "/+/#" "/a").2 hparent).mpr ⟨by decide, .inl ?_⟩, hup, ?_⟩
  · rw [hlevels]
    refine ⟨rfl, by decide, fun i hi => ?_⟩
    match i, hi with
    | 0, _ => exact .inr (by decide)
    | 1, _ => exact .inl rfl
  · exact fun h => (((filters_by_levels "+/up" "$SYS/up").2 hup).mp h).1 (by decide)

end Arrivals.Mqtt.Topic
