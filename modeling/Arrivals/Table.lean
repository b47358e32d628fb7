/-! Finite tables: one value per key, in the order in which the keys first came. Every operation is
pinned by what it does to `get?`. -/

namespace Arrivals

@[ext] structure Table (κ : Type u) (α : Type v) where
  entries : List (κ × α)
  distinct : (entries.map Prod.fst).Nodup

namespace Table

variable {κ : Type u} {α : Type v}

def empty : Table κ α := ⟨[], List.nodup_nil⟩

instance : Inhabited (Table κ α) := ⟨empty⟩

def keys (t : Table κ α) : List κ := t.entries.map Prod.fst

def values (t : Table κ α) : List α := t.entries.map Prod.snd

def size (t : Table κ α) : Nat := t.entries.length

def isEmpty (t : Table κ α) : Bool := t.entries.isEmpty

/-- Every value is filed under the key that it names itself. -/
def FiledBy (key : α → κ) (t : Table κ α) : Prop := ∀ e ∈ t.entries, key e.2 = e.1

theorem filedBy_empty (key : α → κ) : (empty : Table κ α).FiledBy key := by simp [FiledBy, empty]

def filter (t : Table κ α) (p : κ → α → Bool) : Table κ α :=
  ⟨t.entries.filter fun e => p e.1 e.2, t.distinct.sublist (List.filter_sublist.map _)⟩

theorem filter_eq_self {t : Table κ α} {p : κ → α → Bool} (h : ∀ e ∈ t.entries, p e.1 e.2 = true) :
    t.filter p = t :=
  Table.ext (List.filter_eq_self.mpr h)

theorem filter_eq_empty {t : Table κ α} {p : κ → α → Bool} (h : ∀ e ∈ t.entries, p e.1 e.2 = false) :
    t.filter p = empty :=
  Table.ext (List.filter_eq_nil_iff.mpr fun e he => by simp [h e he])

theorem filter_filter (t : Table κ α) (p q : κ → α → Bool) :
    (t.filter p).filter q = t.filter fun k a => q k a && p k a :=
  Table.ext List.filter_filter

section Lookup

variable [DecidableEq κ]

def find (k : κ) : List (κ × α) → Option α
  | [] => none
  | (j, a) :: rest => if j = k then some a else find k rest

def get? (t : Table κ α) (k : κ) : Option α := find k t.entries

def contains (t : Table κ α) (k : κ) : Bool := (t.get? k).isSome

/-- A key that is present keeps its place. -/
def put (k : κ) (a : α) : List (κ × α) → List (κ × α)
  | [] => [(k, a)]
  | (j, b) :: rest => if j = k then (k, a) :: rest else (j, b) :: put k a rest

theorem mem_keys_put {k j : κ} {a : α} {l : List (κ × α)} :
    j ∈ (put k a l).map Prod.fst ↔ j = k ∨ j ∈ l.map Prod.fst := by
  induction l with
  | nil => simp [put]
  | cons e rest ih =>
    obtain ⟨i, b⟩ := e
    by_cases h : i = k
    · subst h; simp [put]
    · simp only [put, if_neg h, List.map_cons, List.mem_cons, ih]
      exact ⟨fun h => by rcases h with h | h | h <;> simp [h],
        fun h => by rcases h with h | h | h <;> simp [h]⟩

theorem nodup_keys_put {k : κ} {a : α} {l : List (κ × α)} (h : (l.map Prod.fst).Nodup) :
    ((put k a l).map Prod.fst).Nodup := by
  induction l with
  | nil => simp [put]
  | cons e rest ih =>
    obtain ⟨i, b⟩ := e
    rw [List.map_cons, List.nodup_cons] at h
    by_cases hi : i = k
    · subst hi; simpa [put] using h
    · simp only [put, if_neg hi, List.map_cons, List.nodup_cons]
      exact ⟨fun hm => (mem_keys_put.mp hm).elim hi h.1, ih h.2⟩

theorem put_of_mem {k : κ} (a : α) {l : List (κ × α)} (hk : k ∈ l.map Prod.fst)
    (h : (l.map Prod.fst).Nodup) :
    put k a l = l.map fun e => (e.1, if k = e.1 then a else e.2) := by
  induction l with
  | nil => simp at hk
  | cons e rest ih =>
    obtain ⟨i, b⟩ := e
    rw [List.map_cons, List.nodup_cons] at h
    by_cases hi : i = k
    · subst hi
      have hrest : rest.map (fun e => (e.1, if i = e.1 then a else e.2)) = rest := by
        refine (List.map_congr_left fun e he => ?_).trans (List.map_id rest)
        have hne : i ≠ e.1 := fun hie => h.1 (List.mem_map.mpr ⟨e, he, hie.symm⟩)
        simp [hne]
      simp [put, hrest]
    · have hk' : k ∈ rest.map Prod.fst := by simpa [Ne.symm hi] using hk
      simp [put, hi, Ne.symm hi, ih hk' h.2]

theorem mem_put {k : κ} {a : α} {l : List (κ × α)} {e : κ × α} (h : e ∈ put k a l) :
    e = (k, a) ∨ e ∈ l := by
  induction l with
  | nil => simpa [put] using h
  | cons f rest ih =>
    by_cases hf : f.1 = k
    · rw [put, if_pos hf, List.mem_cons] at h
      exact h.imp_right (List.mem_cons_of_mem f)
    · rw [put, if_neg hf, List.mem_cons] at h
      rcases h with rfl | h
      · exact .inr List.mem_cons_self
      · exact (ih h).imp_right (List.mem_cons_of_mem f)

def insert (t : Table κ α) (k : κ) (a : α) : Table κ α :=
  ⟨put k a t.entries, nodup_keys_put t.distinct⟩

def erase (t : Table κ α) (k : κ) : Table κ α := t.filter fun j _ => !decide (j = k)

def insertAll (t : Table κ α) (l : List (κ × α)) : Table κ α :=
  l.foldl (fun t e => t.insert e.1 e.2) t

/-- Of two pairs with one key the later wins. -/
def ofList (l : List (κ × α)) : Table κ α := empty.insertAll l

def map {β : Type w} (t : Table κ α) (f : κ → α → β) : Table κ β :=
  ⟨t.entries.map fun e => (e.1, f e.1 e.2), by
    simpa [List.map_map, Function.comp_def] using t.distinct⟩

theorem FiledBy.insert {key : α → κ} {t : Table κ α} (h : t.FiledBy key) (a : α) :
    (t.insert (key a) a).FiledBy key := by
  intro e he
  rcases mem_put he with rfl | he
  · rfl
  · exact h e he

theorem FiledBy.insertAll {key : α → κ} {t : Table κ α} (h : t.FiledBy key) {l : List (κ × α)}
    (hl : ∀ e ∈ l, key e.2 = e.1) : (t.insertAll l).FiledBy key := by
  induction l generalizing t with
  | nil => exact h
  | cons e rest ih =>
    have he := hl e List.mem_cons_self
    refine ih (t := t.insert e.1 e.2) ?_ fun f hf => hl f (List.mem_cons_of_mem e hf)
    rw [← he]
    exact h.insert e.2

@[simp] theorem get?_empty (k : κ) : (empty : Table κ α).get? k = none := rfl

theorem find_put (k j : κ) (a : α) (l : List (κ × α)) :
    find j (put k a l) = if k = j then some a else find j l := by
  induction l with
  | nil => simp [put, find]
  | cons e rest ih =>
    obtain ⟨i, b⟩ := e
    by_cases hi : i = k
    · subst hi
      by_cases hj : i = j <;> simp [put, find, hj]
    · by_cases hj : i = j
      · subst hj; simp [put, find, hi, Ne.symm hi]
      · simp [put, find, hi, hj, ih]

@[simp] theorem get?_insert (t : Table κ α) (k j : κ) (a : α) :
    (t.insert k a).get? j = if k = j then some a else t.get? j :=
  find_put k j a t.entries

theorem mem_of_find {k : κ} {a : α} {l : List (κ × α)} (h : find k l = some a) : (k, a) ∈ l := by
  induction l with
  | nil => cases h
  | cons e rest ih =>
    obtain ⟨i, b⟩ := e
    by_cases hi : i = k
    · rw [find, if_pos hi] at h
      cases h
      exact hi ▸ List.mem_cons_self
    · rw [find, if_neg hi] at h
      exact List.mem_cons_of_mem _ (ih h)

theorem FiledBy.key_eq {key : α → κ} {t : Table κ α} (h : t.FiledBy key) {k : κ} {a : α}
    (hk : t.get? k = some a) : key a = k :=
  h (k, a) (mem_of_find hk)

theorem find_append (k : κ) (l r : List (κ × α)) : find k (l ++ r) = (find k l).or (find k r) := by
  induction l with
  | nil => rfl
  | cons e rest ih =>
    obtain ⟨i, b⟩ := e
    by_cases h : i = k <;> simp [find, h, ih]

theorem find_eq_none_iff {k : κ} {l : List (κ × α)} :
    find k l = none ↔ k ∉ l.map Prod.fst := by
  induction l with
  | nil => simp [find]
  | cons e rest ih =>
    obtain ⟨i, b⟩ := e
    by_cases h : i = k
    · simp [find, h]
    · simp [find, h, ih, Ne.symm h]

theorem insertAll_cons (t : Table κ α) (e : κ × α) (l : List (κ × α)) :
    t.insertAll (e :: l) = (t.insert e.1 e.2).insertAll l := rfl

theorem entries_insert_of_mem (t : Table κ α) {k : κ} (a : α) (hk : k ∈ t.keys) :
    (t.insert k a).entries = t.entries.map fun e => (e.1, if k = e.1 then a else e.2) :=
  put_of_mem a hk t.distinct

/-- The pairs that are put in hide those of the table. -/
theorem get?_insertAll (t : Table κ α) {l : List (κ × α)} (h : (l.map Prod.fst).Nodup) (k : κ) :
    (t.insertAll l).get? k = (find k l).or (t.get? k) := by
  induction l generalizing t with
  | nil => rfl
  | cons e rest ih =>
    obtain ⟨i, b⟩ := e
    rw [List.map_cons, List.nodup_cons] at h
    rw [insertAll_cons, ih (t.insert i b) h.2, get?_insert]
    by_cases hi : i = k
    · subst hi
      simp [find, find_eq_none_iff.mpr h.1]
    · simp [find, hi]

/-- Putting values in under keys that are there already moves nothing. -/
theorem entries_insertAll (t : Table κ α) {l : List (κ × α)} (h : (l.map Prod.fst).Nodup)
    (hl : ∀ e ∈ l, e.1 ∈ t.keys) :
    (t.insertAll l).entries = t.entries.map fun e => (e.1, (find e.1 l).getD e.2) := by
  induction l generalizing t with
  | nil => simp [insertAll, find]
  | cons e rest ih =>
    obtain ⟨i, b⟩ := e
    rw [List.map_cons, List.nodup_cons] at h
    have hi : i ∈ t.keys := hl (i, b) List.mem_cons_self
    have hrest : ∀ f ∈ rest, f.1 ∈ (t.insert i b).keys := fun f hf =>
      mem_keys_put.mpr (.inr (hl f (List.mem_cons_of_mem _ hf)))
    rw [insertAll_cons, ih (t.insert i b) h.2 hrest, entries_insert_of_mem t b hi, List.map_map]
    refine List.map_congr_left fun f _ => ?_
    by_cases hf : i = f.1
    · have hn : find f.1 rest = none := hf ▸ find_eq_none_iff.mpr h.1
      simp [find, hf, hn]
    · simp [find, hf]

theorem keys_insertAll (t : Table κ α) {l : List (κ × α)} (h : (l.map Prod.fst).Nodup)
    (hl : ∀ e ∈ l, e.1 ∈ t.keys) : (t.insertAll l).keys = t.keys := by
  rw [keys, entries_insertAll t h hl, List.map_map]
  rfl

theorem find_filter {p : κ → α → Bool} {l : List (κ × α)} (h : (l.map Prod.fst).Nodup) (k : κ) :
    find k (l.filter fun e => p e.1 e.2) = (find k l).filter (p k) := by
  induction l with
  | nil => simp [find]
  | cons e rest ih =>
    obtain ⟨i, b⟩ := e
    rw [List.map_cons, List.nodup_cons] at h
    by_cases hi : i = k
    · subst hi
      have hn : find i rest = none := find_eq_none_iff.mpr h.1
      by_cases hp : p i b
      · simp [find, hp, Option.filter]
      · simp [find, hp, ih h.2, hn, Option.filter]
    · by_cases hp : p i b <;> simp [find, hp, hi, ih h.2]

theorem mem_entries_iff {t : Table κ α} {k : κ} {a : α} : (k, a) ∈ t.entries ↔ t.get? k = some a := by
  refine ⟨fun h => ?_, mem_of_find⟩
  obtain ⟨before, after, hl⟩ := List.append_of_mem h
  have hk : k ∉ before.map Prod.fst := by
    have hd := t.distinct
    rw [hl, List.map_append, List.nodup_append] at hd
    exact fun hk => hd.2.2 k hk k (by simp) rfl
  rw [get?, hl, find_append, find_eq_none_iff.mpr hk, Option.none_or, find, if_pos rfl]

theorem put_of_find {k : κ} {a : α} {l : List (κ × α)} (h : find k l = some a) : put k a l = l := by
  induction l with
  | nil => cases h
  | cons e rest ih =>
    obtain ⟨i, b⟩ := e
    by_cases hi : i = k
    · rw [find, if_pos hi] at h
      cases h
      rw [put, if_pos hi, hi]
    · rw [find, if_neg hi] at h
      rw [put, if_neg hi, ih h]

/-- Putting in what is there already changes nothing. -/
theorem insertAll_eq_self {t : Table κ α} {l : List (κ × α)}
    (h : ∀ e ∈ l, t.get? e.1 = some e.2) : t.insertAll l = t := by
  induction l with
  | nil => rfl
  | cons e rest ih =>
    have he : t.insert e.1 e.2 = t := Table.ext (put_of_find (h e List.mem_cons_self))
    rw [insertAll_cons, he]
    exact ih fun f hf => h f (List.mem_cons_of_mem e hf)

theorem find_perm {l l' : List (κ × α)} (h : l.Perm l') (hd : (l.map Prod.fst).Nodup) (k : κ) :
    find k l = find k l' := by
  have hd' : (l'.map Prod.fst).Nodup := (h.map Prod.fst).nodup_iff.mp hd
  refine Option.ext fun a => ?_
  exact (mem_entries_iff (t := ⟨l, hd⟩)).symm.trans
    (h.mem_iff.trans (mem_entries_iff (t := ⟨l', hd'⟩)))

theorem find_map {β : Type w} (f : κ → α → β) (k : κ) (l : List (κ × α)) :
    find k (l.map fun e => (e.1, f e.1 e.2)) = (find k l).map (f k) := by
  induction l with
  | nil => rfl
  | cons e rest ih =>
    obtain ⟨i, b⟩ := e
    by_cases hi : i = k
    · subst hi; simp [find]
    · simp [find, hi, ih]

@[simp] theorem get?_map {β : Type w} (t : Table κ α) (f : κ → α → β) (k : κ) :
    (t.map f).get? k = (t.get? k).map (f k) :=
  find_map f k t.entries

@[simp] theorem get?_filter (t : Table κ α) (p : κ → α → Bool) (k : κ) :
    (t.filter p).get? k = (t.get? k).filter (p k) :=
  find_filter t.distinct k

@[simp] theorem get?_erase (t : Table κ α) (k j : κ) :
    (t.erase k).get? j = if j = k then none else t.get? j := by
  by_cases h : j = k <;> cases hg : t.get? j <;> simp [erase, h, hg]

theorem mem_keys_iff {t : Table κ α} {k : κ} : k ∈ t.keys ↔ t.contains k = true := by
  have h := find_eq_none_iff (k := k) (l := t.entries)
  rw [contains, get?, keys]
  cases hf : find k t.entries <;> simp_all

end Lookup

end Table

end Arrivals
